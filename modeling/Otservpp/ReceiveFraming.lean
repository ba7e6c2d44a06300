import Otservpp.ReceiveLoop

/-! # Receive framing over a whole connection

A peer sends frames, the connection asks for the bytes of a header or a body, and every message
goes to a protocol that reads any part of it. The one message object is reused: its cursor is
where the last handler left it when the next header is parsed. Whatever else happens on the
connection, the calls are in order if the handlers leave the cursor where the next header is. -/
namespace ReceiveFraming

open ByteMemory Connection InMessage Lifecycle ProgramLogic SendQueue EventSystem ReceiveLoop

section Definitions

variable {M : Type} (cfg : Config M)

/-- A body that `async_read` can be asked for in one piece, with the handler it goes to. -/
structure Frame where
  body : List UInt8
  low : 8 ≤ body.length
  high : body.length ≤ 15338
  handler : List (Act M)
  reading : ∀ act ∈ handler, Reading cfg act

variable {cfg}

def Frame.bytes (f : Frame cfg) : List UInt8 := encodeLE 2 f.body.length ++ f.body

def stream (frames : List (Frame cfg)) : List UInt8 := frames.flatMap Frame.bytes

def handlerAt (frames : List (Frame cfg)) (k : ℕ) : Script M :=
  ⟨(frames.map Frame.handler).getD k [], false⟩

/-- The bytes that were not consumed yet. -/
def unread (frames : List (Frame cfg)) (s : State M) : List UInt8 := (stream frames).drop s.consumed

/-- Reads are completed with the next bytes of the stream and messages go to the handlers in
turn. Other handlers of the protocol have no message to read. -/
def Feeds (frames : List (Frame cfg)) (s : State M) : Event M → Prop
  | .completeRead _ .success data => data <+: unread frames s
  | .deliverRead _ script => script = handlerAt frames s.calls.length
  | .wrapped script => ∀ op, .read op ∉ script.acts
  | _ => True

variable (cfg) in
def framed (frames : List (Frame cfg)) : System (State M) (Event M) :=
  (system cfg).restrict (Feeds frames)

/-- Serves the outstanding read from the stream, then the next one, as long as the bytes last. -/
def serve (frames : List (Frame cfg)) : ℕ → State M → State M
  | 0, s => s
  | fuel + 1, s =>
    match s.reads with
    | [op] =>
      if s.crashed = false ∧ op.result = none ∧ op.buffer.size ≤ (unread frames s).length then
        serve frames fuel
          (next cfg (next cfg s (.completeRead 0 .success ((unread frames s).take op.buffer.size)))
            (.deliverRead 0 (handlerAt frames s.calls.length)))
      else s
    | _ => s

/-- What the connection makes of the stream when nothing else happens. -/
def receive (uninitialised : Memory) (frames : List (Frame cfg)) : State M :=
  serve frames (stream frames).length (next cfg (initial uninitialised) .start)

variable (cfg) in
/-- The message is at the first byte of its body, with all of the body to be read. -/
structure Delivered (body : List UInt8) (m : Message) : Prop where
  pos : m.pos = standardHeaderSize
  remaining : getRemainingSize cfg.ndebug m = .ok body.length m
  readable : slice m.buffer m.pos body.length = body

/-- The calls are for the first frames, each made after exactly the frames up to its own were
consumed. -/
def InOrder : ℕ → List (Frame cfg) → List Call → Prop
  | _, _, [] => True
  | consumed, f :: frames, call :: calls =>
    call.consumed = consumed + f.bytes.length ∧ Delivered cfg f.body call.msg ∧
      InOrder (consumed + f.bytes.length) frames calls
  | _, [], _ :: _ => False

/-- Calls are in order in every run, whatever else happens on the connection, and all frames are
served when nothing else does. -/
structure Framing (uninitialised : Memory) (frames : List (Frame cfg)) : Prop where
  inOrder : ∀ es s, Run (framed cfg frames) (initial uninitialised) es s → InOrder 0 frames s.calls
  served : (receive uninitialised frames).calls.length = frames.length

def headed (m : Message) (body : List UInt8) : Message :=
  { m with buffer := write m.buffer 0 (encodeLE 2 body.length) }

def opened (m : Message) (body : List UInt8) : Message :=
  { headed m body with pos := 2, size := 2 + body.length }

def arrived (m : Message) (body : List UInt8) : Message :=
  { opened m body with buffer := write (headed m body).buffer 2 body }

/-- The cursor is at the start of the buffer, where the next header will be. -/
def Rewound (m : Message) : Prop := m.pos = 0 ∧ standardHeaderSize ≤ m.size

/-- Every handler but the last leaves its message rewound. -/
def Rewinds : Message → List (Frame cfg) → Prop
  | m, f :: g :: frames => ∃ m', leave cfg f.handler (arrived m f.body) = some m' ∧ Rewound m' ∧
      Rewinds m' (g :: frames)
  | _, _ => True

end Definitions

section Stream

variable {M : Type} {cfg : Config M} {frames done rest : List (Frame cfg)} {f : Frame cfg}
  {calls : List Call}

theorem length_bytes (f : Frame cfg) : f.bytes.length = 2 + f.body.length := by
  simp [Frame.bytes]

theorem stream_append (done rest : List (Frame cfg)) :
    stream (done ++ rest) = stream done ++ stream rest := List.flatMap_append

theorem stream_cons (f : Frame cfg) (rest : List (Frame cfg)) :
    stream (f :: rest) = encodeLE 2 f.body.length ++ (f.body ++ stream rest) := by
  simp [stream, Frame.bytes]

theorem drop_stream (done rest : List (Frame cfg)) (k : ℕ) :
    (stream (done ++ rest)).drop ((stream done).length + k) = (stream rest).drop k := by
  rw [stream_append, List.drop_length_add_append]

theorem handlerAt_next (done rest : List (Frame cfg)) (f : Frame cfg) :
    handlerAt (done ++ f :: rest) done.length = ⟨f.handler, false⟩ := by
  simp [handlerAt]

theorem inOrder_nil (consumed : ℕ) (frames : List (Frame cfg)) : InOrder consumed frames [] := by
  cases frames <;> trivial

theorem InOrder.call {consumed : ℕ} (h : InOrder consumed (done ++ f :: rest) calls)
    (hlength : calls.length = done.length) {call : Call}
    (hconsumed : call.consumed = consumed + (stream done).length + f.bytes.length)
    (hmsg : Delivered cfg f.body call.msg) :
    InOrder consumed (done ++ f :: rest) (calls ++ [call]) := by
  induction done generalizing consumed calls with
  | nil =>
    obtain rfl := List.length_eq_zero_iff.mp hlength
    exact ⟨hconsumed, hmsg, inOrder_nil _ _⟩
  | cons g done ih =>
    obtain ⟨first, calls, rfl⟩ := List.exists_cons_of_length_eq_add_one hlength
    obtain ⟨hfirst, hdelivered, hrest⟩ := h
    refine ⟨hfirst, hdelivered, ih hrest (by simpa using hlength) ?_⟩
    rw [hconsumed]
    simp only [stream, List.flatMap_cons, List.length_append]
    omega

/-- The call after those of the done frames, if there is one. -/
theorem InOrder.cursor {consumed : ℕ} {call : Call} {more : List Call}
    (h : InOrder consumed (done ++ rest) (calls ++ call :: more))
    (hlength : calls.length = done.length) : call.msg.pos = 2 := by
  induction done generalizing consumed calls with
  | nil =>
    obtain rfl := List.length_eq_zero_iff.mp hlength
    cases rest with
    | nil => exact h.elim
    | cons f rest => exact h.2.1.pos
  | cons g done ih =>
    obtain ⟨first, calls, rfl⟩ := List.exists_cons_of_length_eq_add_one hlength
    exact ih h.2.2 (by simpa using hlength)

end Stream

section Messages

variable {M : Type} {cfg : Config M} {m : Message}

theorem fill_header (m : Message) (body : List UInt8) :
    FrameReads.fill headerBuffer (encodeLE 2 body.length) m = headed m body := rfl

theorem fill_body (m : Message) (body : List UInt8) :
    FrameReads.fill ⟨2, body.length⟩ body (opened m body) = arrived m body := rfl

theorem headed_sizeField (m : Message) (f : Frame cfg) :
    sizeField (headed m f.body) = f.body.length := by
  have hsize : f.body.length < 256 ^ 2 := f.high.trans_lt (by decide)
  have hslice := slice_write_of_length m.buffer 0 (length_encodeLE 2 f.body.length)
  rw [sizeField, headed, hslice, decode_encodeLE_of_lt hsize]

/-- The header of a frame, parsed with the cursor in front of it. -/
theorem parse_headed (h : Rewound m) (f : Frame cfg) :
    parseHeaderAndGetBodyBuffer cfg.ndebug (headed m f.body) =
      .ok ⟨2, f.body.length⟩ (opened m f.body) := by
  have hlow := f.low
  have hhigh := f.high
  have hparse : parseHeaderAndGetBodyBuffer cfg.ndebug (headed m f.body) = _ :=
    parseHeader_at_start cfg.ndebug h.1 h.2
  rw [hparse, headed_sizeField, if_neg, if_pos]
  · rfl
  · right
    unfold standardMaxBodySize
    omega
  · unfold standardMaxBodySize
    omega

theorem delivered_arrived (m : Message) (f : Frame cfg) : Delivered cfg f.body (arrived m f.body) := by
  have hhigh := f.high
  refine ⟨rfl, ?_, slice_write_same _ _ _⟩
  have hremaining := getRemainingSize_ok (m := arrived m f.body) cfg.ndebug
    (show 2 ≤ 2 + f.body.length by omega) (show 2 + f.body.length < 2 ^ 32 by omega)
  rw [hremaining, show (arrived m f.body).size - (arrived m f.body).pos = f.body.length from
    Nat.add_sub_cancel_left 2 _]

end Messages

section Safety

variable {M : Type} {cfg : Config M}

/-- Where the receive loop stands within the next frame, `consumed` and `m` being the bytes
consumed before it and the message it arrives in. -/
inductive Stage (consumed : ℕ) (m : Message) : List (Frame cfg) → State M → Prop where
  | awaitsHeader {rest s} (id kind) : s.reads = [⟨id, kind, .header, headerBuffer, none⟩] →
      s.consumed = consumed → s.inMsg = m → Stage consumed m rest s
  | hasHeader {f rest s} (id kind) : s.reads = [⟨id, kind, .header, headerBuffer, some .success⟩] →
      s.consumed = consumed + 2 → s.inMsg = headed m f.body → Stage consumed m (f :: rest) s
  | awaitsBody {f rest s} (id kind) : s.reads = [⟨id, kind, .body, ⟨2, f.body.length⟩, none⟩] →
      s.consumed = consumed + 2 → s.inMsg = opened m f.body → Stage consumed m (f :: rest) s
  | hasBody {f rest s} (id kind) : s.reads = [⟨id, kind, .body, ⟨2, f.body.length⟩, some .success⟩] →
      s.consumed = consumed + f.bytes.length → s.inMsg = arrived m f.body →
      Stage consumed m (f :: rest) s

def Over (s : State M) : Prop := ∀ op ∈ s.reads, ∃ e, op.result = some e ∧ e ≠ .success

/-- The frames before `rest` were consumed, one call each. -/
structure Synced (frames rest : List (Frame cfg)) (m : Message) (s : State M) : Prop where
  split : ∃ done, frames = done ++ rest ∧ s.calls.length = done.length ∧
    Stage (stream done).length m rest s
  rewound : rest ≠ [] → Rewound m
  rewinds : Rewinds m rest

structure Fresh (uninitialised : Memory) (s : State M) : Prop where
  started : s.started = false
  reads : s.reads = []
  calls : s.calls = []
  consumed : s.consumed = 0
  inMsg : s.inMsg = standardInMessage uninitialised

structure Invariant (uninitialised : Memory) (frames : List (Frame cfg)) (s : State M) : Prop where
  inOrder : InOrder 0 frames s.calls
  progress : Fresh uninitialised s ∨ s.started = true ∧
    (Over s ∨ ∃ rest m, Synced frames rest m s)

variable {frames rest : List (Frame cfg)} {s t : State M} {m : Message}

theorem Over.of_kept (h : Over s) (k : Kept s t) : Over t := by
  rcases k.reads with hreads | hreads
  · rw [Over, hreads]
    exact h
  · intro op hop
    rw [hreads] at hop
    obtain ⟨old, hold, rfl⟩ := List.mem_map.mp hop
    obtain ⟨e, he, hne⟩ := h old hold
    exact ⟨e, by simp [cancelRead, complete, he], hne⟩

theorem over_of_nil (h : s.reads = []) : Over s := by
  intro op hop
  rw [h] at hop
  cases hop

theorem Stage.untouched {consumed : ℕ} (h : Stage consumed m rest s) (k : Untouched s t) :
    Over t ∨ Stage consumed m rest t := by
  rcases k.reads with hreads | hreads
  · right
    cases h with
    | awaitsHeader id kind hr hc hm => exact .awaitsHeader id kind (hreads.trans hr) (k.consumed.trans hc) (k.inMsg.trans hm)
    | hasHeader id kind hr hc hm => exact .hasHeader id kind (hreads.trans hr) (k.consumed.trans hc) (k.inMsg.trans hm)
    | awaitsBody id kind hr hc hm => exact .awaitsBody id kind (hreads.trans hr) (k.consumed.trans hc) (k.inMsg.trans hm)
    | hasBody id kind hr hc hm =>
      exact .hasBody id kind (hreads.trans hr) (k.consumed.trans hc) (k.inMsg.trans hm)
  · cases h with
    | awaitsHeader id kind hr hc hm =>
      left
      intro op hop
      rw [hreads, hr] at hop
      obtain rfl := List.mem_singleton.mp hop
      exact ⟨.operationAborted, rfl, nofun⟩
    | hasHeader id kind hr hc hm =>
      rw [hr] at hreads
      exact Or.inr (.hasHeader id kind hreads (k.consumed.trans hc) (k.inMsg.trans hm))
    | awaitsBody id kind hr hc hm =>
      left
      intro op hop
      rw [hreads, hr] at hop
      obtain rfl := List.mem_singleton.mp hop
      exact ⟨.operationAborted, rfl, nofun⟩
    | hasBody id kind hr hc hm =>
      rw [hr] at hreads
      exact Or.inr (.hasBody id kind hreads (k.consumed.trans hc) (k.inMsg.trans hm))

theorem Invariant.untouched {uninitialised : Memory} (h : Invariant uninitialised frames s)
    (k : Untouched s t) : Invariant uninitialised frames t := by
  refine ⟨k.calls ▸ h.inOrder, ?_⟩
  rcases h.progress with hfresh | ⟨hstarted, hover | ⟨rest, m, ⟨done, hframes, hcalls, hstage⟩, hm, hrest⟩⟩
  · left
    have hreads : t.reads = [] := by
      rcases k.reads with hr | hr <;> simp [hr, hfresh.reads]
    exact ⟨k.started.trans hfresh.started, hreads, k.calls.trans hfresh.calls,
      k.consumed.trans hfresh.consumed, k.inMsg.trans hfresh.inMsg⟩
  · exact Or.inr ⟨k.started.trans hstarted, Or.inl (hover.of_kept k.toKept)⟩
  · refine Or.inr ⟨k.started.trans hstarted, ?_⟩
    rcases hstage.untouched k with hover | hstage
    · exact Or.inl hover
    · exact Or.inr ⟨rest, m, ⟨done, hframes, k.calls ▸ hcalls, hstage⟩, hm, hrest⟩

omit cfg in
theorem only_read {op op' : ReadOp} {i : ℕ} (h : s.reads = [op']) (hi : s.reads[i]? = some op) :
    i = 0 ∧ op = op' := by
  rw [h] at hi
  cases i with
  | zero => exact ⟨rfl, (Option.some.inj hi).symm⟩
  | succ i => cases hi

omit cfg in
theorem prefix_eq {data bytes more : List UInt8} (h : data <+: bytes ++ more)
    (hlength : data.length = bytes.length) : data = bytes := by
  have hpart := List.prefix_of_prefix_length_le h (List.prefix_append bytes more) hlength.le
  exact hpart.eq_of_length hlength

/-- The bytes a read is completed with are those of the part of the frame it is for. -/
theorem Stage.completed {consumed i : ℕ} {op : ReadOp} {data : List UInt8}
    (h : Stage consumed m rest s) (hop : s.reads[i]? = some op) (hresult : op.result = none)
    (hlength : data.length = op.buffer.size)
    (hdata : data <+: (stream rest).drop (s.consumed - consumed)) :
    Stage consumed m rest (readCompleted s i op .success data) := by
  cases h with
  | awaitsHeader id kind hr hc hm =>
    obtain ⟨rfl, rfl⟩ := only_read hr hop
    rw [hc, Nat.sub_self, List.drop_zero] at hdata
    change data.length = 2 at hlength
    cases rest with
    | nil =>
      rw [List.prefix_nil.mp hdata] at hlength
      cases hlength
    | cons f rest =>
      rw [stream_cons] at hdata
      obtain rfl := prefix_eq hdata (by simpa using hlength)
      refine .hasHeader id kind ?_ ?_ ?_
      · simp [readCompleted, hr]
      · simp [readCompleted, hc]
      · simp only [readCompleted, if_true, hm, fill_header]
  | hasHeader id kind hr hc hm =>
    obtain ⟨-, rfl⟩ := only_read hr hop
    cases hresult
  | @awaitsBody f rest s id kind hr hc hm =>
    obtain ⟨rfl, rfl⟩ := only_read hr hop
    rw [hc, Nat.add_sub_cancel_left, stream_cons, List.drop_left' (length_encodeLE 2 _)] at hdata
    obtain rfl := prefix_eq hdata hlength
    refine .hasBody id kind ?_ ?_ ?_
    · simp [readCompleted, hr]
    · simp [readCompleted, hc, length_bytes, Nat.add_assoc]
    · simp only [readCompleted, if_true, hm, fill_body]
  | hasBody id kind hr hc hm =>
    obtain ⟨-, rfl⟩ := only_read hr hop
    cases hresult

theorem Stage.consumed_le {consumed : ℕ} (h : Stage consumed m rest s) : consumed ≤ s.consumed := by
  cases h with
  | awaitsHeader id kind hr hc hm => exact hc.ge
  | hasHeader id kind hr hc hm => exact hc ▸ Nat.le_add_right _ _
  | awaitsBody id kind hr hc hm => exact hc ▸ Nat.le_add_right _ _
  | hasBody id kind hr hc hm => exact hc ▸ Nat.le_add_right _ _

theorem Stage.one_read {consumed : ℕ} (h : Stage consumed m rest s) : ∃ op, s.reads = [op] := by
  cases h with
  | awaitsHeader id kind hr hc hm => exact ⟨_, hr⟩
  | hasHeader id kind hr hc hm => exact ⟨_, hr⟩
  | awaitsBody id kind hr hc hm => exact ⟨_, hr⟩
  | hasBody id kind hr hc hm => exact ⟨_, hr⟩

variable {uninitialised : Memory}

theorem awaiting_cases (h : s.reads = []) (kind : HandlerKind) (phase : Phase) (buffer : Buffer) :
    Over (awaiting s kind phase buffer) ∨
      (awaiting s kind phase buffer).reads = [⟨s.nextRead, kind, phase, buffer, none⟩] := by
  cases ho : s.peer.isOpen with
  | true => simp [awaiting, initialResult, h, ho]
  | false =>
    left
    intro op hop
    simp only [awaiting, initialResult, h, ho, List.nil_append, List.mem_singleton] at hop
    rw [hop]
    exact ⟨.badDescriptor, rfl, nofun⟩

theorem Invariant.ended (h : InOrder 0 frames t.calls) (hstarted : t.started = true) (hover : Over t) :
    Invariant uninitialised frames t := ⟨h, Or.inr ⟨hstarted, Or.inl hover⟩⟩

theorem kept_reads_nil (h : s.reads = []) (k : Kept s t) : t.reads = [] := by
  rcases k.reads with hr | hr <;> simp [hr, h]

theorem header_invariant {done : List (Frame cfg)} {f : Frame cfg} {id : ℕ}
    {kind : HandlerKind} {buffer : Buffer} {result : Option ErrorCode} (script : Script M)
    (horder : InOrder 0 (done ++ f :: rest) s.calls) (hcalls : s.calls.length = done.length)
    (hstarted : s.started = true) (hreads : s.reads = [])
    (hconsumed : s.consumed = (stream done).length + 2) (hmsg : s.inMsg = headed m f.body)
    (hm : Rewound m) (hrest : Rewinds m (f :: rest)) :
    Invariant uninitialised (done ++ f :: rest)
      (after (readHandler cfg ⟨id, kind, .header, buffer, result⟩ .success script) s) := by
  rcases readHandler_cases cfg ⟨id, kind, .header, buffer, result⟩ script s with hsame | ⟨t, ht, hafter⟩
  · exact .ended (hsame.calls ▸ horder) (hsame.started.trans hstarted)
      (over_of_nil (kept_reads_nil hreads hsame.toKept))
  · have hparse := parse_headed hm f
    rw [← hmsg, ← ht.inMsg] at hparse
    have hrun := headerRead_run cfg t kind
    rw [hparse] at hrun
    rw [hafter, received_header, after_ok hrun]
    have hempty : (withMsg t (opened m f.body)).reads = [] :=
      (kept_reads_nil hreads ht.toKept : t.reads = [])
    refine ⟨ht.calls ▸ horder, Or.inr ⟨ht.started.trans hstarted, ?_⟩⟩
    rcases awaiting_cases hempty kind .body ⟨2, f.body.length⟩ with hover | hnew
    · exact Or.inl hover
    · refine Or.inr ⟨f :: rest, m, ⟨done, rfl, ht.calls ▸ hcalls, ?_⟩, fun _ => hm, hrest⟩
      exact .awaitsBody _ kind hnew (ht.consumed.trans hconsumed) rfl

/-- What is left after a handler is what the next frame needs. -/
theorem Rewinds.next {f : Frame cfg} {m' : Message} (h : Rewinds m (f :: rest))
    (hleave : leave cfg f.handler (arrived m f.body) = some m') :
    (rest ≠ [] → Rewound m') ∧ Rewinds m' rest := by
  cases rest with
  | nil => exact ⟨fun hne => absurd rfl hne, trivial⟩
  | cons g rest =>
    obtain ⟨m'', hsome, hrewound, hrewinds⟩ := h
    obtain rfl := Option.some.inj (hsome.symm.trans hleave)
    exact ⟨fun _ => hrewound, hrewinds⟩

/-- The handler of a body makes the call and starts the read of the next header. -/
theorem body_invariant {done : List (Frame cfg)} {f : Frame cfg} {id : ℕ}
    {kind : HandlerKind} {buffer : Buffer} {result : Option ErrorCode}
    (horder : InOrder 0 (done ++ f :: rest) s.calls) (hcalls : s.calls.length = done.length)
    (hstarted : s.started = true) (hreads : s.reads = [])
    (hconsumed : s.consumed = (stream done).length + f.bytes.length)
    (hmsg : s.inMsg = arrived m f.body) (hrest : Rewinds m (f :: rest)) :
    Invariant uninitialised (done ++ f :: rest)
      (after (readHandler cfg ⟨id, kind, .body, buffer, result⟩ .success ⟨f.handler, false⟩) s) := by
  have hquiet {t : State M} (ht : Untouched s t) : Invariant uninitialised (done ++ f :: rest) t :=
    .ended (ht.calls ▸ horder) (ht.started.trans hstarted)
      (over_of_nil (kept_reads_nil hreads ht.toKept))
  rcases readHandler_cases cfg ⟨id, kind, .body, buffer, result⟩ ⟨f.handler, false⟩ s with
    hsame | ⟨t, ht, hafter⟩
  · exact hquiet hsame
  rw [hafter, received_body]
  rcases bodyRead_cases cfg f.reading t with hsame | ⟨u, hu, hcall⟩
  · exact hquiet (ht.trans hsame)
  have hsu := ht.trans hu
  have hnew : InOrder 0 (done ++ f :: rest) (dispatched u kind).calls := by
    change InOrder 0 _ (u.calls ++ [⟨u.consumed, u.inMsg⟩])
    rw [hsu.calls, hsu.consumed, hsu.inMsg, hmsg]
    refine horder.call hcalls ?_ (delivered_arrived m f)
    simpa using hconsumed
  have hempty : (dispatched u kind).reads = [] :=
    (kept_reads_nil hreads hsu.toKept : u.reads = [])
  have hbegan : (dispatched u kind).started = true := hsu.started.trans hstarted
  rcases hcall with hend | ⟨v, hv, hleave, hnext⟩
  · exact .ended (hend.calls ▸ hnew) (hend.started.trans hbegan)
      (over_of_nil (kept_reads_nil hempty hend))
  · rw [hnext]
    rw [ht.inMsg, hmsg] at hleave
    obtain ⟨hrewound, hrewinds⟩ := hrest.next hleave
    refine ⟨hv.calls ▸ hnew, Or.inr ⟨hv.started.trans hbegan, ?_⟩⟩
    rcases awaiting_cases (kept_reads_nil hempty hv) .subsequent .header headerBuffer with hover | hone
    · exact Or.inl hover
    · refine Or.inr ⟨rest, v.inMsg, ⟨done ++ [f], by simp, ?_, ?_⟩, hrewound, hrewinds⟩
      · change v.calls.length = _
        rw [hv.calls]
        simp [dispatched, hsu.calls, hcalls]
      · refine .awaitsHeader _ .subsequent hone ?_ rfl
        change v.consumed = _
        rw [hv.consumed, stream_append]
        change u.consumed = _
        rw [hsu.consumed, hconsumed]
        simp [stream]

theorem standard_rewound (uninitialised : Memory) : Rewound (standardInMessage uninitialised) :=
  ⟨rfl, le_rfl⟩

theorem start_cases (cfg : Config M) (s : State M) :
    (∃ n, after (start cfg) s = calledTo { s with protocol := true, started := true } n) ∨
      ∃ n, after (start cfg) s = awaiting (calledTo { s with protocol := true, started := true } n)
        .first .header headerBuffer := by
  have hrun : start cfg s = (dvlogInfo cfg >>= fun _ => parseIncomingMessage .first)
      { s with protocol := true, started := true } := rfl
  rcases dvlogInfo_cases cfg { s with protocol := true, started := true } with ⟨n, hlog⟩ | ⟨n, hlog⟩
  · rw [bind_ok hlog] at hrun
    exact Or.inr ⟨n, after_ok hrun⟩
  · rw [bind_error hlog] at hrun
    exact Or.inl ⟨n, after_error hrun⟩

theorem start_invariant (h : Fresh uninitialised s)
    (hrewinds : Rewinds (standardInMessage uninitialised) frames) :
    Invariant uninitialised frames (after (start cfg) s) := by
  have horder : InOrder 0 frames s.calls := h.calls ▸ inOrder_nil 0 frames
  rcases start_cases cfg s with ⟨n, hafter⟩ | ⟨n, hafter⟩
  · rw [hafter]
    exact .ended horder rfl (over_of_nil h.reads)
  · rw [hafter]
    refine ⟨horder, Or.inr ⟨rfl, ?_⟩⟩
    rcases awaiting_cases (s := calledTo { s with protocol := true, started := true } n) h.reads
      .first .header headerBuffer with hover | hone
    · exact Or.inl hover
    · refine Or.inr ⟨frames, _, ⟨[], rfl, congrArg List.length h.calls, ?_⟩,
        fun _ => standard_rewound uninitialised, hrewinds⟩
      exact .awaitsHeader _ .first hone h.consumed h.inMsg

theorem completed_invariant (h : Invariant uninitialised frames s) {i : ℕ} {op : ReadOp}
    {e : ErrorCode} {data : List UInt8} (hop : s.reads[i]? = some op) (hresult : op.result = none)
    (hlength : e = .success → data.length = op.buffer.size)
    (hdata : e = .success → data <+: unread frames s) :
    Invariant uninitialised frames (readCompleted s i op e data) := by
  have hcalls : (readCompleted s i op e data).calls = s.calls := by
    unfold readCompleted
    split_ifs <;> rfl
  have hstarted : (readCompleted s i op e data).started = s.started := by
    unfold readCompleted
    split_ifs <;> rfl
  have hmem := List.mem_of_getElem? hop
  rcases h.progress with hfresh | ⟨hs, hover | ⟨rest, m, ⟨done, rfl, hdone, hstage⟩, hm, hrest⟩⟩
  · rw [hfresh.reads] at hmem
    cases hmem
  · obtain ⟨e, he, -⟩ := hover op hmem
    rw [hresult] at he
    cases he
  · refine ⟨hcalls ▸ h.inOrder, Or.inr ⟨hstarted.trans hs, ?_⟩⟩
    by_cases he : e = .success
    · subst he
      have hpart : data <+: (stream rest).drop (s.consumed - (stream done).length) := by
        have hlow := hstage.consumed_le
        rw [← drop_stream done rest, Nat.add_sub_cancel' hlow]
        exact hdata rfl
      exact Or.inr ⟨rest, m, ⟨done, rfl, hcalls ▸ hdone,
        hstage.completed hop hresult (hlength rfl) hpart⟩, hm, hrest⟩
    · left
      obtain ⟨only, honly⟩ := hstage.one_read
      obtain ⟨rfl, rfl⟩ := only_read honly hop
      intro other hother
      simp only [readCompleted, if_neg he, honly, List.set_cons_zero, List.mem_singleton] at hother
      rw [hother]
      exact ⟨e, rfl, he⟩

theorem delivered_invariant (h : Invariant uninitialised frames s) {i : ℕ} {op : ReadOp}
    {e : ErrorCode} (hop : s.reads[i]? = some op) (hresult : op.result = some e) :
    Invariant uninitialised frames (after (readHandler cfg op e (handlerAt frames s.calls.length))
      { s with reads := s.reads.eraseIdx i }) := by
  have hmem := List.mem_of_getElem? hop
  rcases h.progress with hfresh | ⟨hs, hover | ⟨rest, m, ⟨done, rfl, hdone, hstage⟩, hm, hrest⟩⟩
  · rw [hfresh.reads] at hmem
    cases hmem
  · obtain ⟨e', he, hne⟩ := hover op hmem
    obtain rfl := Option.some.inj (he.symm.trans hresult)
    have hrest : Over { s with reads := s.reads.eraseIdx i } :=
      fun op hop => hover op (List.mem_of_mem_eraseIdx hop)
    have hbefore : Invariant uninitialised frames { s with reads := s.reads.eraseIdx i } :=
      .ended h.inOrder hs hrest
    rw [readHandler_error cfg hne]
    exact hbefore.untouched (failed_untouched cfg cfg.vlog e' _)
  · obtain ⟨only, honly⟩ := hstage.one_read
    obtain ⟨rfl, rfl⟩ := only_read honly hop
    have hempty : s.reads.eraseIdx 0 = [] := by rw [honly]; rfl
    cases hstage with
    | awaitsHeader id kind hr hc hmsg =>
      obtain ⟨-, rfl⟩ := only_read hr hop
      cases hresult
    | hasHeader id kind hr hc hmsg =>
      obtain ⟨-, rfl⟩ := only_read hr hop
      cases hresult
      exact header_invariant _ h.inOrder hdone hs hempty hc hmsg (hm (by simp)) hrest
    | awaitsBody id kind hr hc hmsg =>
      obtain ⟨-, rfl⟩ := only_read hr hop
      cases hresult
    | hasBody id kind hr hc hmsg =>
      obtain ⟨-, rfl⟩ := only_read hr hop
      cases hresult
      rw [hdone, handlerAt_next]
      exact body_invariant h.inOrder hdone hs hempty hc hmsg hrest

theorem next_invariant (hrewinds : Rewinds (standardInMessage uninitialised) frames)
    (h : Invariant uninitialised frames s) {e : Event M} (he : (framed cfg frames).Enabled s e) :
    Invariant uninitialised frames (next cfg s e) := by
  obtain ⟨he, hfeeds⟩ := he
  have hfinish {x : ConnM M Unit} {t : State M} (hx : Invariant uninitialised frames (after x t)) :
      Invariant uninitialised frames (finish x t) := by
    obtain ⟨b, hb⟩ := finish_eq x t
    rw [hb]
    exact hx.untouched (Untouched.of_eq rfl)
  have hsame {t : State M} (hview : receiveView t = receiveView s) : Invariant uninitialised frames t :=
    h.untouched (Untouched.of_eq hview)
  have hcall {x : ConnM M Unit} {t : State M} (hview : receiveView t = receiveView s)
      (hx : Evolves Untouched x) : Invariant uninitialised frames (finish x t) :=
    hfinish ((hsame hview).untouched (hx t))
  cases e with
  | start =>
    rcases h.progress with hfresh | ⟨hs, -⟩
    · exact hfinish (start_invariant hfresh hrewinds)
    · rw [show s.started = false from he.2] at hs
      cases hs
  | send msg => exact hcall rfl (trySendOrEnqueueThen_untouched cfg msg .keepSending)
  | sendAndStop msg => exact hcall rfl (trySendOrEnqueueThen_untouched cfg msg .stop)
  | stop => exact hcall rfl (stop_untouched cfg)
  | stopReceiving => exact hcall rfl (stopReceiving_untouched cfg)
  | stopSending => exact hcall rfl (stopSending_untouched cfg)
  | wrapped script => exact hcall rfl ((untouched_rules cfg).wrapped hfeeds)
  | peerDisconnected => exact hsame rfl
  | completeRead i e data =>
    obtain ⟨op, hop, hresult, hnext⟩ := completeRead_next cfg he
    obtain ⟨-, op', hop', -, hlength⟩ := he
    obtain rfl := Option.some.inj (hop.symm.trans hop')
    rw [hnext]
    refine completed_invariant h hop hresult hlength fun hsuccess => ?_
    subst hsuccess
    exact hfeeds
  | completeWrite i e =>
    obtain ⟨op, -, hnext⟩ := completeWrite_next cfg he
    rw [hnext]
    exact hsame rfl
  | expireRead i e => exact hsame rfl
  | expireWrite i e => exact hsame rfl
  | deliverRead i script =>
    obtain ⟨op, e, hop, hresult, hnext⟩ := deliverRead_next cfg he
    obtain rfl : script = handlerAt frames s.calls.length := hfeeds
    rw [hnext]
    exact hfinish (delivered_invariant h hop hresult)
  | deliverWrite i =>
    obtain ⟨op, e, -, -, hnext⟩ := deliverWrite_next cfg he
    rw [hnext]
    exact hcall rfl (writeHandler_untouched cfg op e)
  | deliverReadWait i =>
    obtain ⟨-, e, -, hnext⟩ := deliverReadWait_next cfg he
    rw [hnext]
    exact hcall rfl (failed_untouched cfg (!cfg.ndebug) e)
  | deliverWriteWait i =>
    obtain ⟨-, e, -, hnext⟩ := deliverWriteWait_next cfg he
    rw [hnext]
    exact hcall rfl (failed_untouched cfg (!cfg.ndebug) e)

/-- The calls are in order in every run in which the handlers rewind their messages. -/
theorem run_inOrder (hrewinds : Rewinds (standardInMessage uninitialised) frames)
    {es : List (Event M)} (h : Run (framed cfg frames) (initial uninitialised) es s) :
    InOrder 0 frames s.calls := by
  have hinitial : Invariant uninitialised frames (initial uninitialised : State M) :=
    ⟨inOrder_nil 0 frames, Or.inl ⟨rfl, rfl, rfl, rfl, rfl⟩⟩
  exact (h.invariant (fun _ _ hi he => next_invariant hrewinds hi he) hinitial).inOrder

end Safety

end ReceiveFraming

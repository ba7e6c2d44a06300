import Otservpp.AtomicReads
import Otservpp.ReceiveServing
import Otservpp.WireFormat

/-! # Where incoming bytes are written

`async_read` fills the buffer it was given, so each read of a connection must lie in the array of
the message. The one limit on a body read is the assertion in `setRemainingSize`, which is made of
a cursor that the last handler left and of a size that is looked for at that cursor. -/
namespace ReadTargets

open AtomicReads ByteMemory Connection InMessage Lifecycle ProgramLogic SendQueue EventSystem
  ReceiveLoop ReceiveFraming ReceiveServing

/-- The bytes of the read lie in the array of the message. -/
def InArray (b : Buffer) : Prop := 0 ≤ b.data ∧ b.data + b.size ≤ FrameReads.bufferSize

section Asserted

variable {M : Type}

/-- A program that begins with all reads in the array ends so. -/
def Contained (s t : State M) : Prop :=
  (∀ op ∈ s.reads, InArray op.buffer) → ∀ op ∈ t.reads, InArray op.buffer

instance : IsPreorder (State M) Contained where
  refl _ := id
  trans _ _ _ h k := k ∘ h

variable {s t : State M}

theorem Kept.contained (h : Kept s t) : Contained s t := by
  intro hs op hop
  rcases h.reads with hreads | hreads
  · rw [hreads] at hop
    exact hs op hop
  · rw [hreads] at hop
    obtain ⟨old, hold, rfl⟩ := List.mem_map.mp hop
    exact hs old hold

theorem contained_of_reads (h : t.reads = s.reads) : Contained s t := by
  intro hs
  rw [h]
  exact hs

theorem contained_append {op : ReadOp} (h : InArray op.buffer) (ht : t.reads = s.reads ++ [op]) :
    Contained s t := by
  intro hs new hnew
  rw [ht] at hnew
  rcases List.mem_append.mp hnew with hold | hlast
  · exact hs new hold
  · rw [List.mem_singleton.mp hlast]
    exact h

variable (cfg : Config M)

theorem untouched_contained {α : Type} {x : ConnM M α} (h : Evolves Untouched x) :
    Evolves Contained x :=
  Evolves.mono (fun _ _ h => Kept.contained h.toKept) h

theorem onInMsg_contained {α : Type} (x : InM α) : Evolves Contained (onInMsg x : ConnM M α) := by
  intro s
  apply contained_of_reads
  unfold after onInMsg
  cases x s.inMsg with
  | ok a m => rfl
  | error e m => cases e <;> rfl

theorem contained_rules : ScriptRules cfg (fun _ => True) Contained where
  nullConnection := evolves_modify fun _ => contained_of_reads rfl
  wrappedRun := evolves_modify fun _ => contained_of_reads rfl
  read op _ := onInMsg_contained (op.exec cfg.ndebug)
  log := untouched_contained (connectedCall_untouched cfg)
  stop := untouched_contained (stop_untouched cfg)
  stopReceiving := untouched_contained (stopReceiving_untouched cfg)
  stopSending := untouched_contained (stopSending_untouched cfg)
  send msg a := untouched_contained (trySendOrEnqueueThen_untouched cfg msg a)

theorem script_contained (script : Script M) : Evolves Contained (script.run cfg) :=
  (contained_rules cfg).script fun _ _ => trivial

theorem headerBuffer_inArray : InArray headerBuffer :=
  ⟨by decide, by decide⟩

theorem parseIncomingMessage_contained (kind : HandlerKind) :
    Evolves Contained (parseIncomingMessage kind : ConnM M Unit) := by
  have htimer : Evolves Contained (updateReadTimer : ConnM M Unit) :=
    evolves_modify fun _ => contained_of_reads rfl
  exact htimer.bind fun _ => evolves_modify fun _ => contained_append headerBuffer_inArray rfl

/-- The assertion in `setRemainingSize` limits the size of the whole message. -/
theorem parse_inArray {m m' : Message} {b : Buffer}
    (h : parseHeaderAndGetBodyBuffer false m = .ok b m') : InArray b := by
  obtain ⟨n, m₁, -, h⟩ := bind_eq_ok.mp h
  split_ifs at h
  · cases h
  obtain ⟨_, m₂, hset, h⟩ := bind_eq_ok.mp h
  rw [setRemainingSize_run] at hset
  simp only [Bool.false_eq_true, false_or] at hset
  split_ifs at hset with hmax
  cases hset
  rw [getBodyBuffer, bind_ok (get_run _)] at h
  obtain ⟨_, m₃, hassert, h⟩ := bind_eq_ok.mp h
  rw [assert, check_run, Bool.false_or] at hassert
  split_ifs at hassert with hheader
  cases hassert
  cases h
  unfold standardMaxBodySize at hmax
  have hsize : 2 < u32 (m₁.pos + n) := of_decide_eq_true hheader
  have hdata : u32 (u32 (m₁.pos + n) + 2 ^ 32 - 2) = u32 (m₁.pos + n) - 2 := by
    generalize u32 (m₁.pos + n) = size at hmax hsize
    unfold u32
    omega
  constructor
  · exact Int.natCast_nonneg _
  · change (2 : ℤ) + u32 (u32 (m₁.pos + n) + 2 ^ 32 - 2) ≤ 15342
    rw [hdata]
    omega

variable (hndebug : cfg.ndebug = false)
include hndebug

theorem headerRead_contained (kind : HandlerKind) : Evolves Contained (headerRead cfg kind) := by
  intro s
  have hrun := headerRead_run cfg s kind
  cases hparse : parseHeaderAndGetBodyBuffer cfg.ndebug s.inMsg with
  | ok buffer m =>
    rw [hparse] at hrun
    rw [after_ok hrun]
    rw [hndebug] at hparse
    exact contained_append (t := awaiting (withMsg s m) kind .body buffer) (parse_inArray hparse) rfl
  | error e m => exact Kept.contained (headerRead_error cfg hparse)

omit hndebug in
theorem bodyRead_contained (kind : HandlerKind) (script : Script M) :
    Evolves Contained (bodyRead cfg kind script) := by
  have hsame {f : State M → State M} (h : ∀ s, (f s).reads = s.reads) :
      Evolves Contained (modify f : ConnM M Unit) :=
    evolves_modify fun s => contained_of_reads (h s)
  have hcall : Evolves Contained (sendInMsg cfg kind script) := by
    refine Evolves.bind evolves_get fun _ => Evolves.ite (fun _ => ?_) (fun _ => ?_)
    · exact Evolves.bind (hsame fun _ => rfl) fun _ => script_contained cfg script
    · exact Evolves.bind (hsame fun _ => rfl) fun _ => evolves_throw _
  have hlog : Evolves Contained (dvlogInfo cfg) := untouched_contained (dvlogInfo_untouched cfg)
  refine Evolves.bind (hsame fun _ => rfl) fun _ => hlog.bind fun _ => ?_
  refine Evolves.bind ?_ fun threw => Evolves.ite (fun _ => ?_) (fun _ => ?_)
  · refine Evolves.tryCatch (hcall.bind fun _ => evolves_pure _) fun e => ?_
    cases e with
    | exception => exact evolves_pure _
    | crash => exact evolves_throw _
  · exact untouched_contained (dropped_untouched cfg)
  · refine Evolves.bind evolves_get fun _ => Evolves.ite (fun _ => ?_) (fun _ => evolves_pure _)
    exact parseIncomingMessage_contained .subsequent

theorem readHandler_contained (op : ReadOp) (e : ErrorCode) (script : Script M) :
    Evolves Contained (readHandler cfg op e script) := by
  refine Evolves.ite (fun _ => ?_) (fun _ => ?_)
  · refine Evolves.bind evolves_get fun _ => Evolves.ite (fun _ => ?_) (fun _ => evolves_pure _)
    refine (untouched_contained (dvlogInfo_untouched cfg)).bind fun _ => ?_
    cases op.phase with
    | header => exact headerRead_contained cfg hndebug op.handler
    | body => exact bodyRead_contained cfg op.handler script
  · exact untouched_contained (failed_untouched cfg cfg.vlog e)

theorem next_contained (e : Event M) (he : Enabled s e) : Contained s (next cfg s e) := by
  have hfinish {t : State M} {x : ConnM M Unit} (ht : t.reads = s.reads) (h : Evolves Contained x) :
      Contained s (finish x t) := by
    obtain ⟨b, hb⟩ := finish_eq x t
    rw [hb]
    exact trans_of Contained (contained_of_reads ht) (h t)
  cases e with
  | start =>
    refine hfinish rfl (Evolves.bind (evolves_modify fun _ => contained_of_reads rfl) fun _ => ?_)
    exact (untouched_contained (dvlogInfo_untouched cfg)).bind fun _ =>
      parseIncomingMessage_contained .first
  | send msg => exact hfinish rfl (untouched_contained (trySendOrEnqueueThen_untouched cfg msg _))
  | sendAndStop msg =>
    exact hfinish rfl (untouched_contained (trySendOrEnqueueThen_untouched cfg msg _))
  | stop => exact hfinish rfl (untouched_contained (stop_untouched cfg))
  | stopReceiving => exact hfinish rfl (untouched_contained (stopReceiving_untouched cfg))
  | stopSending => exact hfinish rfl (untouched_contained (stopSending_untouched cfg))
  | wrapped script => exact hfinish rfl ((contained_rules cfg).wrapped fun _ _ => trivial)
  | peerDisconnected => exact contained_of_reads rfl
  | completeRead i e data =>
    obtain ⟨op, hop, -, hnext⟩ := completeRead_next cfg he
    intro hs
    have hset : ∀ new ∈ s.reads.set i { op with result := some e }, InArray new.buffer := by
      intro new hnew
      rcases List.mem_or_eq_of_mem_set hnew with hold | rfl
      · exact hs new hold
      · exact hs op (List.mem_of_getElem? hop)
    rw [hnext, readCompleted]
    split_ifs
    · exact hset
    · exact hset
  | completeWrite i e =>
    obtain ⟨op, -, hnext⟩ := completeWrite_next cfg he
    rw [hnext]
    exact contained_of_reads rfl
  | expireRead i e => exact contained_of_reads rfl
  | expireWrite i e => exact contained_of_reads rfl
  | deliverRead i script =>
    obtain ⟨op, e, -, -, hnext⟩ := deliverRead_next cfg he
    obtain ⟨b, hb⟩ := finish_eq (readHandler cfg op e script) { s with reads := s.reads.eraseIdx i }
    rw [hnext, hb]
    intro hs
    refine readHandler_contained cfg hndebug op e script _ fun op hop => hs op ?_
    exact List.mem_of_mem_eraseIdx hop
  | deliverWrite i =>
    obtain ⟨op, e, -, -, hnext⟩ := deliverWrite_next cfg he
    rw [hnext]
    exact hfinish rfl (untouched_contained (writeHandler_untouched cfg op e))
  | deliverReadWait i =>
    obtain ⟨-, e, -, hnext⟩ := deliverReadWait_next cfg he
    rw [hnext]
    exact hfinish rfl (untouched_contained (failed_untouched cfg (!cfg.ndebug) e))
  | deliverWriteWait i =>
    obtain ⟨-, e, -, hnext⟩ := deliverWriteWait_next cfg he
    rw [hnext]
    exact hfinish rfl (untouched_contained (failed_untouched cfg (!cfg.ndebug) e))

/-- Whatever the peer sends and the protocol does, with assertions no read ever writes outside the
array of the message. -/
theorem reads_in_array {es : List (Event M)} (h : Reachable cfg es s) :
    ∀ op ∈ s.reads, InArray op.buffer := by
  obtain ⟨uninitialised, hrun⟩ := h
  refine hrun.invariant (I := fun s => ∀ op ∈ s.reads, InArray op.buffer) ?_ (by simp [initial])
  intro t e ht he
  exact next_contained cfg hndebug e he ht

end Asserted

def assertedConfig : Config ℕ := { plainConfig with ndebug := false }

def assertedRun (es : List (Event ℕ)) : State ℕ :=
  runTrace (system assertedConfig) (initial fun _ => 0) es

def bodyRequested : List (Event ℕ) :=
  [.start, .completeRead 0 .success [8, 0], .deliverRead 0 ⟨[], false⟩]

/-- A connection that has read a header and asks for eight bytes of a body. -/
theorem reads_in_array_requested :
    (assertedRun bodyRequested).reads.map ReadOp.buffer = [⟨2, 8⟩] ∧
      ∀ op ∈ (assertedRun bodyRequested).reads, InArray op.buffer := by
  have hvalid : ValidTrace (system assertedConfig) (initial fun _ => 0) bodyRequested := by decide
  exact ⟨by decide, reads_in_array assertedConfig rfl ⟨_, valid_trace_run hvalid⟩⟩

section Released

variable {M : Type} {cfg : Config M} {m : Message}

/-- The two bytes at the cursor, where the next header is looked for. -/
def stated (m : Message) : ℕ := decodeLE (slice m.buffer m.pos 2)

/-- A header found at any cursor, without assertions. -/
theorem parse_released (hpos : m.pos < 2 ^ 32) (hfound : u32 (m.pos + 2) ≤ m.size)
    (hlow : 8 ≤ stated m) (hhigh : stated m ≤ 15340) :
    parseHeaderAndGetBodyBuffer true m =
      .ok ⟨2, u32 (u32 (u32 (m.pos + 2) + stated m) + 2 ^ 32 - 2)⟩
        { m.moved 2 with size := u32 (u32 (m.pos + 2) + stated m) } := by
  have hnumber := getNumber_ok hpos (by decide) hfound
  have hin : ¬ (stated m < 8 ∨ standardMaxBodySize < stated m) := by
    unfold standardMaxBodySize
    omega
  rw [parseHeaderAndGetBodyBuffer, getU16, bind_ok hnumber]
  change (if stated m < 8 ∨ standardMaxBodySize < stated m then _ else _ : InM Buffer) _ = _
  rw [if_neg hin]
  rfl

variable {f g : Frame cfg} {uninitialised : Memory} {m' : Message}

/-- After the first frame the read of the next body goes by the cursor that its handler left. -/
theorem second_read (hndebug : cfg.ndebug = true) (hsys : ∀ n, cfg.sys n = true)
    (hleave : leave cfg f.handler (arrived (standardInMessage uninitialised) f.body) = some m')
    (hpos : m'.pos < 2 ^ 32) (hfound : u32 (m'.pos + 2) ≤ m'.size)
    (hlow : 8 ≤ stated (headed m' g.body)) (hhigh : stated (headed m' g.body) ≤ 15340) :
    ∃ es s id kind, Run (framed cfg [f, g]) (initial uninitialised) es s ∧
      s.reads = [⟨id, kind, .body,
        ⟨2, u32 (u32 (u32 (m'.pos + 2) + stated (headed m' g.body)) + 2 ^ 32 - 2)⟩, none⟩] := by
  have hstart := start_waiting hsys uninitialised
  obtain ⟨t, hserve, -, ht⟩ := serve_frame hsys hstart (standard_rewound uninitialised) f [g] 1
  rw [hleave] at ht
  change Waiting [f] m' t at ht
  obtain ⟨id, kind, hreads⟩ := ht.reads
  have hdata := ht.unread [g]
  rw [stream_cons] at hdata
  have hstep : serve [f, g] 1 t = serve [f, g] 0
      (served [f, g] t ⟨id, kind, .header, headerBuffer, none⟩ (encodeLE 2 g.body.length)) :=
    serve_step hreads ht.crashed rfl hdata (length_encodeLE 2 _) 0
  let u : State M := filled t ⟨id, kind, .header, headerBuffer, none⟩ (encodeLE 2 g.body.length)
  have hu : Serving u := ht.toServing.of_eq rfl
  obtain ⟨n, hrun⟩ := readHandler_serving hsys hu ⟨id, kind, .header, headerBuffer, some .success⟩
    (handlerAt [f, g] t.calls.length)
  have hmsg : (calledTo u n).inMsg = headed m' g.body := by
    rw [← fill_header, ← ht.inMsg]
    rfl
  have hparse := parse_released (m := headed m' g.body) hpos hfound hlow hhigh
  rw [received_header, headerRead_run, hmsg, hndebug, hparse] at hrun
  obtain ⟨es, hes⟩ := serve_run [f, g] 3 (next cfg (initial uninitialised) .start)
  have hfirst : (framed cfg [f, g]).Enabled (initial uninitialised) .start := ⟨⟨rfl, rfl⟩, trivial⟩
  refine ⟨_, _, (calledTo u n).nextRead, kind, (Run.tail .refl hfirst).trans hes, ?_⟩
  have hserved : serve [f, g] 3 (next cfg (initial uninitialised) .start) =
      served [f, g] t ⟨id, kind, .header, headerBuffer, none⟩ (encodeLE 2 g.body.length) :=
    hserve.trans hstep
  rw [hserved]
  unfold served finish
  rw [hrun]
  exact awaiting_reads (s := withMsg (calledTo u n) _) (ht.toServing.of_eq rfl) rfl kind .body _

theorem leave_reads {ops : List FrameReads.Op} (hops : ∀ op ∈ ops, SingleRead op)
    (hsize : m.size < 2 ^ 32) (hcursor : m.pos ≤ m.size)
    (hfits : totalRequested ops ≤ m.size - m.pos) :
    leave cfg (ops.map .read) m = some { m with pos := m.pos + totalRequested ops } := by
  induction ops generalizing m with
  | nil => rfl
  | cons op ops ih =>
    rw [totalRequested] at hfits
    have hmoved := moved_fits hsize hcursor (show FieldCodec.requested op ≤ m.size - m.pos by omega)
    have hin : u32 (m.pos + FieldCodec.requested op) ≤ m.size := by
      rw [← moved_pos, hmoved]
      omega
    obtain ⟨bytes, hread⟩ := read_returns cfg.ndebug (hops op List.mem_cons_self)
      (show m.pos < 2 ^ 32 by omega) hin
    have hrest := ih (fun o ho => hops o (List.mem_cons_of_mem op ho))
      (m := m.moved (FieldCodec.requested op)) hsize (by rw [hmoved, moved_size]; omega)
      (by rw [hmoved, moved_size]; omega)
    rw [hmoved, moved_size] at hrest
    rw [List.map_cons, leave, hread]
    change leave cfg (ops.map .read) (m.moved (FieldCodec.requested op)) = _
    rw [hrest, totalRequested, ← Nat.add_assoc]
    rfl

/-- What a handler takes is followed by the largest size a header may state. -/
def overrunRest (taken : ℕ) : List UInt8 :=
  List.replicate taken 0 ++ (encodeLE 2 15340 ++ [0, 0])

def overrunBody (taken : ℕ) : List UInt8 :=
  encodeLE 4 (WireFormat.checksum (overrunRest taken)).toNat ++ overrunRest taken

@[simp] theorem length_overrunRest (taken : ℕ) : (overrunRest taken).length = taken + 4 := by
  simp [overrunRest]

@[simp] theorem length_overrunBody (taken : ℕ) : (overrunBody taken).length = taken + 8 := by
  simp [overrunBody]
  omega

theorem slice_append {b : Memory} {a : ℤ} {xs ys : List UInt8}
    (h : slice b a (xs ++ ys).length = xs ++ ys) :
    slice b a xs.length = xs ∧ slice b (a + xs.length) ys.length = ys := by
  rw [List.length_append, slice_add] at h
  exact List.append_inj h (length_slice _ _ _)

theorem arrived_overrun (uninitialised : Memory) (taken : ℕ) :
    arrived (standardInMessage uninitialised) (overrunBody taken) =
      WireFormat.arrived uninitialised (overrunRest taken) := by
  have hlength : (overrunBody taken).length = 4 + (overrunRest taken).length := by
    simp [overrunBody]
  unfold arrived opened headed WireFormat.arrived
  rw [hlength]
  rfl

theorem overrun_stated {b : Memory} {taken : ℕ} {a : ℤ}
    (h : slice b a (overrunRest taken).length = overrunRest taken) :
    slice b (a + taken) 2 = encodeLE 2 15340 := by
  have hbehind := (slice_append h).2
  rw [List.length_replicate] at hbehind
  exact (slice_append hbehind).1

/-- A message whose checksum is that of its bytes. -/
def Valid (ndebug : Bool) (m : Message) : Prop := ∃ m', doChecksum ndebug m = .ok () m'

theorem overrun_checked (uninitialised : Memory) {taken : ℕ} (htaken : taken ≤ 15330) :
    doChecksum true (arrived (standardInMessage uninitialised) (overrunBody taken)) =
      .ok () { WireFormat.arrived uninitialised (overrunRest taken) with pos := 6 } := by
  have hlength := length_overrunRest taken
  have hmax : 4 + (overrunRest taken).length ≤ standardMaxBodySize := by
    unfold standardMaxBodySize
    omega
  rw [arrived_overrun]
  exact WireFormat.doChecksum_arrived uninitialised hmax

theorem leave_overrun (hndebug : cfg.ndebug = true) {ops : List FrameReads.Op}
    (hops : ∀ op ∈ ops, SingleRead op) (htaken : totalRequested ops ≤ 15330) :
    leave cfg ((FrameReads.Op.doChecksum :: ops).map .read)
        (arrived (standardInMessage uninitialised) (overrunBody (totalRequested ops))) =
      some { WireFormat.arrived uninitialised (overrunRest (totalRequested ops)) with
        pos := 6 + totalRequested ops } := by
  have hlength := length_overrunRest (totalRequested ops)
  have hsize : (WireFormat.arrived uninitialised (overrunRest (totalRequested ops))).size =
      2 + (4 + (overrunRest (totalRequested ops)).length) := rfl
  have hexec : FrameReads.Op.doChecksum.exec cfg.ndebug
      (arrived (standardInMessage uninitialised) (overrunBody (totalRequested ops))) = .ok []
        { WireFormat.arrived uninitialised (overrunRest (totalRequested ops)) with pos := 6 } := by
    rw [hndebug]
    exact bind_ok (overrun_checked uninitialised htaken) fun _ => pure []
  rw [List.map_cons, leave, hexec]
  exact leave_reads hops (by rw [hsize]; omega) (show 6 ≤ _ by rw [hsize]; omega)
    (show _ ≤ _ - 6 by rw [hsize]; omega)

variable (uninitialised) in
/-- Without assertions, whatever fixed fields a handler takes after the checksum, there is a valid
first message, these fields in it, after which the body of any second one is read beyond the end
of the array. -/
theorem release_overrun (hndebug : cfg.ndebug = true) (hsys : ∀ n, cfg.sys n = true)
    {ops : List FrameReads.Op} (hops : ∀ op ∈ ops, SingleRead op)
    (htaken : totalRequested ops ≤ 15330) (g : Frame cfg) :
    ∃ f : Frame cfg, f.handler = (.doChecksum :: ops).map .read ∧
      Valid cfg.ndebug (arrived (standardInMessage uninitialised) f.body) ∧
      4 + totalRequested ops ≤ f.body.length ∧ ∃ es s,
        Run (framed cfg [f, g]) (initial uninitialised) es s ∧ ∃ op ∈ s.reads,
          op.buffer.data + op.buffer.size = FrameReads.bufferSize + (totalRequested ops + 6 : ℕ) := by
  have hlength := length_overrunBody (totalRequested ops)
  let f : Frame cfg :=
    { body := overrunBody (totalRequested ops)
      low := by omega
      high := by omega
      handler := (FrameReads.Op.doChecksum :: ops).map .read
      reading := by
        intro act hact
        obtain ⟨op, -, rfl⟩ := List.mem_map.mp hact
        trivial }
  let m' : Message := { WireFormat.arrived uninitialised (overrunRest (totalRequested ops)) with
    pos := 6 + totalRequested ops }
  have hleave : leave cfg f.handler (arrived (standardInMessage uninitialised) f.body) = some m' :=
    leave_overrun hndebug hops htaken
  have hsize : m'.size = 2 + (4 + (totalRequested ops + 4)) := by
    rw [← length_overrunRest]
    rfl
  have hmoved : u32 (m'.pos + 2) = totalRequested ops + 8 := by
    have hpos : m'.pos = 6 + totalRequested ops := rfl
    rw [hpos, u32_of_lt (by omega)]
    omega
  have hstated : stated (headed m' g.body) = 15340 := by
    obtain ⟨-, hrest⟩ := WireFormat.arrived_slices uninitialised (overrunRest (totalRequested ops))
    have hfield := overrun_stated hrest
    have hkept : slice (write m'.buffer 0 (encodeLE 2 g.body.length)) (6 + totalRequested ops) 2 =
        slice m'.buffer (6 + totalRequested ops) 2 :=
      slice_write_disjoint _ (Or.inr (by rw [length_encodeLE]; omega))
    change decodeLE (slice (write m'.buffer 0 _) ((6 + totalRequested ops : ℕ) : ℤ) 2) = _
    rw [Int.natCast_add]
    refine (congrArg decodeLE (hkept.trans hfield)).trans ?_
    exact decode_encodeLE_of_lt (by decide)
  obtain ⟨es, s, id, kind, hrun, hreads⟩ := second_read (f := f) (g := g) hndebug hsys hleave
    (show 6 + totalRequested ops < 2 ^ 32 by omega) (by rw [hmoved, hsize]; omega)
    (by rw [hstated]; omega) (by rw [hstated])
  have hvalid : Valid cfg.ndebug (arrived (standardInMessage uninitialised) f.body) := by
    rw [hndebug]
    exact ⟨_, overrun_checked uninitialised htaken⟩
  refine ⟨f, rfl, hvalid, ?_, es, s, hrun, _, by rw [hreads]; exact List.mem_singleton_self _, ?_⟩
  · change 4 + totalRequested ops ≤ (overrunBody (totalRequested ops)).length
    omega
  have hasked : u32 (u32 (u32 (m'.pos + 2) + stated (headed m' g.body)) + 2 ^ 32 - 2) =
      totalRequested ops + 15346 := by
    rw [hmoved, hstated]
    unfold u32
    omega
  have harray : FrameReads.bufferSize = 15342 := rfl
  simp only [hasked, harray]
  omega

/-- A handler that takes one byte after the checksum, in a release build. -/
theorem release_overrun_seven :
    totalRequested [.getByte] ≤ 15330 ∧ ∃ f : Frame plainConfig,
      f.handler = [.read .doChecksum, .read .getByte] ∧
      Valid true (arrived (standardInMessage fun _ => 0) f.body) ∧ 5 ≤ f.body.length ∧ ∃ es s,
        Run (framed plainConfig [f, readingFrame]) (initial fun _ => 0) es s ∧ ∃ op ∈ s.reads,
          op.buffer.data + op.buffer.size = FrameReads.bufferSize + (1 + 6 : ℕ) :=
  have hbyte : ∀ op ∈ [FrameReads.Op.getByte], SingleRead op := by simp [SingleRead]
  ⟨by decide, release_overrun _ rfl (fun _ => rfl) hbyte (by decide) readingFrame⟩

end Released

end ReadTargets

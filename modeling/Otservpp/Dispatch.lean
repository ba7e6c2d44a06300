import Otservpp.SendQueue

/-! # The receive loop and the order of the protocol's callbacks

`handleFirstMessage` comes first and once, `handleMessage` after it, one read at a time, and
nothing comes after `ReadClosed`. Everything outside of the receive loop keeps to `LoopFrame`;
the loop itself is followed with pre- and postconditions. -/
namespace Dispatch

open Connection Lifecycle ProgramLogic SendQueue EventSystem

section Sending

variable {M : Type} (cfg : Config M) {aborts : Bool}

theorem loopFrame_send {s t : State M} (ext : List Action) (hext : ∀ a ∈ ext, isSend a = true)
    (h : loopView t = (s.reads.map readKey, s.started, s.readClosed, s.writeClosed, s.peer.isOpen,
      s.attached, s.protocol, s.log ++ ext)) : LoopFrame aborts s t := by
  have hothers (a : Action) (ha : a ∈ ext) :
      isCallback a = false ∧ isAbort a = false ∧ closesReading a = false ∧ a ≠ .stopped := by
    have hsend := hext a ha
    cases a with
    | accepted _ _ _ | encode _ | writeStarted _ | written _ | popped _ =>
      exact ⟨rfl, rfl, rfl, nofun⟩
    | _ => cases hsend
  simp only [loopView, Prod.mk.injEq] at h
  obtain ⟨hreads, hstarted, hread, hwrite, hopen, hattached, hprotocol, hlog⟩ := h
  refine ⟨hreads, hstarted, by rw [hread]; exact id, by rw [hwrite]; exact id,
    by rw [hopen]; exact id, by rw [hattached]; exact id, Or.inl hprotocol, ext, hlog, ?_, ?_, ?_, ?_, ?_, ?_⟩
  · intro a ha
    exact (hothers a ha).1
  · intro a ha habort
    rw [(hothers a ha).2.1] at habort
    cases habort
  · rintro ⟨a, ha, hcloses⟩
    rw [(hothers a ha).2.2.1] at hcloses
    cases hcloses
  · intro ht
    exact Or.inl (hread ▸ ht)
  · intro hlost
    cases (hothers _ hlost).2.1
  · intro hstopped
    exact absurd rfl (hothers _ hstopped).2.2.2

variable (hthrow : aborts = false → ∀ m, cfg.encode m ≠ .error .exception)
include hthrow

theorem doSend_frame (a : AfterSend) : Evolves (LoopFrame aborts) (doSend cfg a) := by
  intro s
  by_cases hq : s.outMsgQueue = []
  · rw [after_error (doSend_empty cfg hq a)]
    exact LoopFrame.of_eq rfl
  · obtain ⟨q, rest, hcons⟩ := List.exists_cons_of_ne_nil hq
    rcases doSend_cases cfg hcons a hthrow with ⟨msg, hsent⟩ | hquiet
    · rw [hsent]
      exact loopFrame_send [.encode q.id, .writeStarted q.id] (by simp [isSend])
        (by simp [loopView, launched])
    · have hencoding : LoopFrame aborts s (encoding s q.id) :=
        loopFrame_send [.encode q.id] (by simp [isSend]) rfl
      exact hencoding.trans hquiet.1

theorem trySendOrEnqueueThen_frame (msg : M) (a : AfterSend) :
    Evolves (LoopFrame aborts) (trySendOrEnqueueThen cfg msg a) := by
  intro s
  have henqueued : LoopFrame aborts s (enqueued s msg a) :=
    loopFrame_send [.accepted s.nextId a (inFlight s)] (by simp [isSend]) rfl
  unfold after
  rw [trySendOrEnqueueThen_run]
  split_ifs
  · exact refl s
  · exact henqueued.trans (doSend_frame cfg hthrow a _)
  · exact henqueued

theorem keepSending_frame : Evolves (LoopFrame aborts) (keepSending cfg) := by
  refine Evolves.bind evolves_get fun s => Evolves.ite (fun _ => ?_) (fun _ => ?_)
  · exact Evolves.mono (fun _ _ h => (Silent.quiet h).1) cancelWriteTimer_silent
  · exact doSend_frame cfg hthrow .keepSending

omit hthrow in
theorem popFront_frame : Evolves (LoopFrame aborts) (popFront : ConnM M Unit) := by
  intro s
  by_cases hq : s.outMsgQueue = []
  · rw [after_error (popFront_nil hq)]
    exact refl s
  · obtain ⟨q, rest, hcons⟩ := List.exists_cons_of_ne_nil hq
    rw [after_ok (popFront_cons hcons)]
    exact loopFrame_send [.popped q.id] (by simp [isSend]) rfl

theorem written_frame (op : WriteOp) :
    Evolves (LoopFrame aborts) (writeHandler cfg op .success) := by
  have hwritten : Evolves (LoopFrame aborts) (record (.written op.id) : ConnM M Unit) :=
    evolves_modify fun s => loopFrame_send [.written op.id] (by simp [isSend]) rfl
  have hlog : Evolves (LoopFrame aborts) (dvlogInfo cfg) :=
    Evolves.mono (fun _ _ h => (Silent.quiet h).1) (dvlogInfo_silent cfg)
  refine hwritten.bind fun _ => hlog.bind fun _ => popFront_frame.bind fun _ => ?_
  cases op.afterSend with
  | keepSending => exact keepSending_frame cfg hthrow
  | stop => exact Evolves.mono (fun _ _ h => h.1) (stop_quiet cfg)

omit hthrow in
theorem writeHandler_frame (op : WriteOp) (e : ErrorCode) :
    Evolves (LoopFrame true) (writeHandler cfg op e) := by
  by_cases he : e = .success
  · subst he
    exact written_frame cfg (by simp) op
  · rw [writeHandler_error cfg he]
    exact Evolves.mono (fun _ _ h => h.1) (failed_quiet cfg _ e)

theorem script_frame (script : Script M) : Evolves (LoopFrame aborts) (script.run cfg) :=
  script_evolves cfg (fun _ _ h => h.1.weaken) (trySendOrEnqueueThen_frame cfg hthrow) script

theorem wrappedHandler_frame (script : Script M) :
    Evolves (LoopFrame aborts) (wrappedHandler cfg script) :=
  wrappedHandler_evolves cfg (fun _ _ h => h.1.weaken) (trySendOrEnqueueThen_frame cfg hthrow) script

end Sending

section Invariant

variable {M : Type}

def callbacks (log : List Action) : List HandlerKind :=
  log.filterMap fun | .callback k => some k | _ => none

/-- Empty, or one `handleFirstMessage` and then only `handleMessage`. -/
def InOrder (kinds : List HandlerKind) : Prop :=
  kinds = [] ∨ ∃ n, kinds = .first :: List.replicate n .subsequent

/-- The handler that the next message goes to. -/
def nextKind : List HandlerKind → HandlerKind
  | [] => .first
  | _ :: _ => .subsequent

theorem InOrder.next {kinds : List HandlerKind} (h : InOrder kinds) :
    InOrder (kinds ++ [nextKind kinds]) := by
  rcases h with rfl | ⟨n, rfl⟩
  · exact Or.inr ⟨0, rfl⟩
  · refine Or.inr ⟨n + 1, ?_⟩
    rw [List.replicate_succ']
    rfl

structure Invariant (s : State M) : Prop where
  order : InOrder (callbacks s.log)
  pending : ∀ op ∈ s.reads, op.handler = nextKind (callbacks s.log)
  oneRead : s.reads.length ≤ 1
  unstarted : s.started = false → s.reads = [] ∧ callbacks s.log = []
  protocol : s.started = true → s.readClosed = false → s.protocol = true
  noNull : .nullCallback ∉ s.log
  closed : s.readClosed = true ↔ ∃ a ∈ s.log, closesReading a = true
  quiet : ∀ pre a post, s.log = pre ++ a :: post → closesReading a = true → callbacks post = []

theorem initial_invariant (uninitialised : ByteMemory.Memory) :
    Invariant (initial uninitialised : State M) := by
  refine ⟨Or.inl rfl, by simp [initial], by simp [initial], fun _ => ⟨rfl, rfl⟩, by simp [initial],
    by simp [initial], by simp [initial], ?_⟩
  intro pre a post h
  simp [initial] at h

@[simp] theorem callbacks_append (log ext : List Action) :
    callbacks (log ++ ext) = callbacks log ++ callbacks ext := List.filterMap_append

theorem callbacks_eq_nil {ext : List Action} (h : ∀ a ∈ ext, isCallback a = false) :
    callbacks ext = [] := by
  rw [callbacks, List.filterMap_eq_nil_iff]
  intro a ha
  have hno := h a ha
  cases a <;> first | rfl | cases hno

variable {s t : State M}

theorem Invariant.frame (h : Invariant s) (hf : LoopFrame true s t) : Invariant t := by
  obtain ⟨ext, hext⟩ := hf.appended
  have hnone := callbacks_eq_nil hext.noCallback
  have hcalls : callbacks t.log = callbacks s.log := by
    rw [hext.log, callbacks_append, hnone, List.append_nil]
  have hlength : t.reads.length = s.reads.length := by
    simpa using congrArg List.length hf.reads
  constructor
  · rw [hcalls]
    exact h.order
  · intro op hop
    have hkey : readKey op ∈ s.reads.map readKey := hf.reads ▸ List.mem_map_of_mem hop
    obtain ⟨old, hold, heq⟩ := List.mem_map.mp hkey
    rw [hcalls, ← h.pending old hold]
    exact (congrArg Prod.fst heq).symm
  · rw [hlength]
    exact h.oneRead
  · intro hstarted
    obtain ⟨hreads, hempty⟩ := h.unstarted (hf.started ▸ hstarted)
    exact ⟨List.length_eq_zero_iff.mp (by rw [hlength, hreads]; rfl), hcalls.trans hempty⟩
  · intro hstarted hopen
    have hbefore : s.readClosed = false := by
      by_contra hclosed
      rw [hf.readClosed (by simpa using hclosed)] at hopen
      cases hopen
    rcases hf.protocol with hsame | ⟨-, hclosed, -⟩
    · rw [hsame]
      exact h.protocol (hf.started ▸ hstarted) hbefore
    · rw [hclosed] at hopen
      cases hopen
  · rw [hext.log]
    intro hmem
    rcases List.mem_append.mp hmem with hmem | hmem
    · exact h.noNull hmem
    · cases hext.noCallback _ hmem
  · constructor
    · intro hclosed
      rcases hext.closed hclosed with hs | ⟨a, ha, hcloses⟩
      · obtain ⟨a, ha, hcloses⟩ := h.closed.mp hs
        exact ⟨a, hext.log ▸ List.mem_append_left _ ha, hcloses⟩
      · exact ⟨a, hext.log ▸ List.mem_append_right _ ha, hcloses⟩
    · rintro ⟨a, ha, hcloses⟩
      rw [hext.log] at ha
      rcases List.mem_append.mp ha with ha | ha
      · exact hf.readClosed (h.closed.mpr ⟨a, ha, hcloses⟩)
      · exact hext.closes ⟨a, ha, hcloses⟩
  · intro pre a post hlog hcloses
    rcases append_split (hext.log.symm.trans hlog) with ⟨mid, hold, rfl⟩ | ⟨mid, -, hnew⟩
    · rw [callbacks_append, h.quiet pre a mid hold hcloses, hnone]
      rfl
    · refine callbacks_eq_nil fun b hb => hext.noCallback b ?_
      rw [hnew]
      exact List.mem_append_right _ (List.mem_cons_of_mem _ hb)

/-- No read is outstanding and the next message goes to the handler `k`. -/
structure Idle (k : HandlerKind) (s : State M) : Prop where
  invariant : Invariant s
  reads : s.reads = []
  started : s.started = true
  next : k = nextKind (callbacks s.log)

theorem Idle.frame {k : HandlerKind} (h : Idle k s) (hf : LoopFrame true s t) : Idle k t := by
  obtain ⟨ext, hext⟩ := hf.appended
  refine ⟨h.invariant.frame hf, ?_, hf.started.trans h.started, ?_⟩
  · have hreads := hf.reads
    rw [h.reads] at hreads
    exact List.map_eq_nil_iff.mp hreads
  · rw [hext.log, callbacks_append, callbacks_eq_nil hext.noCallback, List.append_nil]
    exact h.next

/-- Starting a read for the handler that is next. -/
theorem Idle.read {k : HandlerKind} (h : Idle k s) (id : ℕ) (phase : Phase)
    (buffer : InMessage.Buffer) (result : Option ErrorCode) (n : ℕ) :
    Invariant { s with reads := s.reads ++ [⟨id, k, phase, buffer, result⟩], nextRead := n } := by
  refine { h.invariant with pending := ?_, oneRead := ?_, unstarted := ?_ }
  · intro op hop
    obtain rfl : op = ⟨id, k, phase, buffer, result⟩ := by simpa [h.reads] using hop
    exact h.next
  · simp [h.reads]
  · intro hstarted
    rw [show s.started = true from h.started] at hstarted
    cases hstarted

/-- A callback to the handler that is next, while reading is not closed. -/
theorem Idle.dispatched {k : HandlerKind} (h : Idle k s) (hopen : s.readClosed = false)
    (calls : List Call) :
    Idle .subsequent { s with calls := calls, log := s.log ++ [.callback k] } := by
  have hcalls : callbacks (s.log ++ [.callback k]) = callbacks s.log ++ [k] := callbacks_append ..
  have hnone (a : Action) (ha : a ∈ s.log) : closesReading a ≠ true := by
    intro hcloses
    rw [h.invariant.closed.mpr ⟨a, ha, hcloses⟩] at hopen
    cases hopen
  refine ⟨⟨?_, ?_, ?_, ?_, h.invariant.protocol, ?_, ?_, ?_⟩, h.reads, h.started, ?_⟩
  · rw [hcalls, h.next]
    exact h.invariant.order.next
  · simp [h.reads]
  · simp [h.reads]
  · intro hstarted
    rw [show s.started = true from h.started] at hstarted
    cases hstarted
  · simpa using h.invariant.noNull
  · rw [h.invariant.closed]
    simp [closesReading]
  · intro pre a post hlog hcloses
    rcases append_split hlog with ⟨mid, hold, -⟩ | ⟨mid, -, hnew⟩
    · exact absurd hcloses (hnone a (by rw [hold]; simp))
    · obtain ⟨-, rfl⟩ : mid = [] ∧ a = .callback k := by
        rcases mid with _ | ⟨_, _ | _⟩ <;> simp_all
      cases hcloses
  · rw [hcalls]
    cases callbacks s.log <;> rfl

end Invariant

section Loop

variable {M : Type} (cfg : Config M) {k : HandlerKind}

/-- Reading is not closed and the next message goes to the handler `k`. -/
def Receiving (k : HandlerKind) (s : State M) : Prop := Idle k s ∧ s.readClosed = false

theorem idle_triple {α : Type} {x : ConnM M α} (h : Evolves (LoopFrame true) x) :
    Triple (Idle k) x (fun _ => Idle k) (Idle k) :=
  h.triple fun _ _ hf hi => hi.frame hf

theorem silent_triple {α : Type} {x : ConnM M α} (h : Evolves Silent x) :
    Triple (Receiving k) x (fun _ => Receiving k) (Idle k) := by
  have hboth : Triple (Receiving k) x (fun _ => Receiving k) (Receiving k) := by
    refine h.triple fun s t hst hs => ⟨hs.1.frame (LoopFrame.of_eq hst.1), ?_⟩
    have hview := hst.1
    simp only [loopView, Prod.mk.injEq] at hview
    exact hview.2.2.1.trans hs.2
  exact hboth.conseq (fun _ h => h) (fun _ _ h => h) (fun _ h => h.1)

theorem asyncReadOp_triple (phase : Phase) (buffer : InMessage.Buffer) :
    Triple (Idle k) (asyncReadOp k phase buffer : ConnM M Unit) (fun _ => Invariant) Invariant :=
  triple_modify fun _ h => h.read _ phase buffer _ _

theorem dropped_triple :
    Triple (Idle k) (do droppingLogInfo cfg; abort cfg) (fun _ => Invariant) Invariant :=
  (idle_triple (Evolves.mono (fun _ _ h => h.1) (dropped_quiet cfg))).conseq (fun _ h => h)
    (fun _ _ h => h.invariant) (fun _ h => h.invariant)

theorem parseIncomingMessage_triple :
    Triple (Idle k) (parseIncomingMessage k : ConnM M Unit) (fun _ => Invariant) Invariant := by
  have htimer : Triple (Idle k) (updateReadTimer : ConnM M Unit) (fun _ => Idle k) Invariant :=
    (idle_triple (Evolves.mono (fun _ _ h => (Silent.quiet h).1) updateReadTimer_silent)).conseq
      (fun _ h => h) (fun _ _ h => h) (fun _ h => h.invariant)
  exact htimer.bind fun _ => asyncReadOp_triple .header _

theorem headerRead_triple :
    Triple (Receiving k) (headerRead cfg k) (fun _ => Invariant) Invariant := by
  have htimer : Triple (Receiving k) (updateReadTimer : ConnM M Unit) (fun _ => Receiving k)
      Invariant :=
    (silent_triple updateReadTimer_silent).conseq (fun _ h => h) (fun _ _ h => h)
      (fun _ h => h.invariant)
  have hparse : Triple (Receiving k)
      (onInMsg (InMessage.parseHeaderAndGetBodyBuffer cfg.ndebug) : ConnM M InMessage.Buffer)
      (fun _ => Receiving k) (Idle k) := silent_triple (onInMsg_silent _)
  have hread (buffer : InMessage.Buffer) : Triple (Receiving k)
      (asyncReadOp k .body buffer : ConnM M Unit) (fun _ => Invariant) (Idle k) :=
    triple_modify fun _ h => h.1.read _ .body buffer _ _
  refine htimer.bind fun _ => Triple.tryCatch (hparse.bind hread) fun e => ?_
  cases e with
  | exception => exact dropped_triple cfg
  | crash => exact (triple_throw _).conseq (fun _ h => h.invariant) (fun _ _ h => h) (fun _ h => h)

theorem sendInMsg_triple (script : Script M) :
    Triple (Receiving k) (sendInMsg cfg k script) (fun _ => Idle .subsequent) (Idle .subsequent) := by
  refine triple_get.bind fun current => ?_
  refine Triple.ite (fun hp => ?_) (fun hp => ?_)
  · have hcall : Triple (fun s => Receiving k s ∧ current = s)
        (modify fun s => { s with
          calls := s.calls ++ [⟨s.consumed, s.inMsg⟩], log := s.log ++ [.callback k] } : ConnM M Unit)
        (fun _ => Idle .subsequent) (Idle .subsequent) :=
      triple_modify fun s h => h.1.1.dispatched h.1.2 _
    exact hcall.bind fun _ => idle_triple (script_frame cfg (by simp) script)
  · -- the pointer is not null while reading is not closed
    rintro s ⟨⟨hidle, hopen⟩, rfl⟩
    exact absurd (hidle.invariant.protocol hidle.started hopen) hp

theorem bodyRead_triple (script : Script M) :
    Triple (Receiving k) (bodyRead cfg k script) (fun _ => Invariant) Invariant := by
  have hsilent {x : ConnM M Unit} (h : Evolves Silent x) :
      Triple (Receiving k) x (fun _ => Receiving k) Invariant :=
    (silent_triple h).conseq (fun _ h => h) (fun _ _ h => h) (fun _ h => h.invariant)
  have hreturn (b : Bool) {E : State M → Prop} : Triple (Idle .subsequent) (pure b : ConnM M Bool)
      (fun _ => Idle .subsequent) E := fun _ h => h
  refine (hsilent cancelReadTimer_silent).bind fun _ => (hsilent (dvlogInfo_silent cfg)).bind fun _ =>
    Triple.bind (Q := fun _ => Idle .subsequent) ?_ fun threw =>
      Triple.ite (fun _ => dropped_triple cfg) (fun _ => ?_)
  · refine Triple.tryCatch ((sendInMsg_triple cfg script).bind fun _ => hreturn false) fun e => ?_
    cases e with
    | exception => exact hreturn true
    | crash => exact (triple_throw _).conseq (fun _ h => h.invariant) (fun _ _ h => h) (fun _ h => h)
  · refine triple_get.bind fun current => Triple.ite (fun _ => ?_) (fun _ => ?_)
    · exact parseIncomingMessage_triple.conseq (fun _ h => h.1) (fun _ _ h => h) (fun _ h => h)
    · exact (triple_pure _).conseq (fun _ h => h.1.invariant) (fun _ _ h => h) (fun _ h => h)

theorem readHandler_triple (id : ℕ) (phase : Phase) (buffer : InMessage.Buffer)
    (result : Option ErrorCode) (e : ErrorCode) (script : Script M) :
    Triple (Idle k) (readHandler cfg ⟨id, k, phase, buffer, result⟩ e script) (fun _ => Invariant)
      Invariant := by
  refine Triple.ite (fun _ => ?_) (fun _ => ?_)
  · refine triple_get.bind fun current => Triple.ite (fun hr => ?_) (fun _ => ?_)
    · have hlog : Triple (fun s => Idle k s ∧ current = s) (dvlogInfo cfg) (fun _ => Receiving k)
          Invariant := by
        refine (silent_triple (dvlogInfo_silent cfg)).conseq ?_ (fun _ _ h => h) (fun _ h => h.invariant)
        rintro s ⟨hidle, rfl⟩
        exact ⟨hidle, by simpa [isReceiving] using hr⟩
      refine hlog.bind fun _ => ?_
      cases phase with
      | header => exact headerRead_triple cfg
      | body => exact bodyRead_triple cfg script
    · exact (triple_pure _).conseq (fun _ h => h.1.invariant) (fun _ _ h => h) (fun _ h => h)
  · have hfailed := failed_quiet cfg cfg.vlog e
    exact (idle_triple (Evolves.mono (fun _ _ h => h.1) hfailed)).conseq (fun _ h => h)
      (fun _ _ h => h.invariant) (fun _ h => h.invariant)

end Loop

section Runs

variable {M : Type} (cfg : Config M) {s : State M} {es : List (Event M)}

theorem Invariant.finish {x : ConnM M Unit} {t : State M} (h : Invariant (after x t)) :
    Invariant (Connection.finish x t) := by
  obtain ⟨b, hfinish⟩ := finish_eq x t
  rw [hfinish]
  exact { h with }

/-- `start` finds nothing read and no callback made. -/
theorem start_invariant (h : Invariant s) (hs : s.started = false) :
    Invariant (after (start cfg) s) := by
  obtain ⟨hreads, hcalls⟩ := h.unstarted hs
  have hidle : Idle .first { s with protocol := true, started := true } := by
    refine ⟨?_, hreads, rfl, ?_⟩
    · refine { h with unstarted := ?_, protocol := fun _ _ => rfl }
      intro hno
      cases hno
    · change _ = nextKind (callbacks s.log)
      rw [hcalls]
      rfl
  have hlog : Triple (Idle .first) (dvlogInfo cfg) (fun _ => Idle .first) Invariant :=
    (idle_triple (Evolves.mono (fun _ _ h => (Silent.quiet h).1) (dvlogInfo_silent cfg))).conseq
      (fun _ h => h) (fun _ _ h => h) (fun _ h => h.invariant)
  exact triple_iff_after.mp (hlog.bind fun _ => parseIncomingMessage_triple) _ hidle

/-- The state in which the handler of a read runs. -/
theorem Invariant.delivered {i : ℕ} {op : ReadOp} (h : Invariant s) (hop : s.reads[i]? = some op) :
    Idle op.handler { s with reads := s.reads.eraseIdx i } := by
  have hmem := List.mem_of_getElem? hop
  have hstarted : s.started = true := by
    by_contra hno
    rw [(h.unstarted (by simpa using hno)).1] at hmem
    cases hmem
  have hreads : s.reads.eraseIdx i = [] := by
    match hlist : s.reads, i, hop, h.oneRead with
    | [_], 0, _, _ => rfl
  refine ⟨?_, hreads, hstarted, h.pending op hmem⟩
  refine { h with pending := ?_, oneRead := ?_, unstarted := ?_ }
  · intro other hother
    rw [hreads] at hother
    cases hother
  · simp [hreads]
  · intro hno
    exact ⟨hreads, (h.unstarted hno).2⟩

theorem next_invariant (h : Invariant s) {e : Event M} (he : Enabled s e) :
    Invariant (next cfg s e) := by
  have hsame {t : State M} (hview : loopView t = loopView s) : Invariant t :=
    h.frame (LoopFrame.of_eq hview)
  have hcall {x : ConnM M Unit} (hx : Evolves (LoopFrame true) x) :
      Invariant (Connection.finish x s) := (h.frame (hx s)).finish
  cases e with
  | start => exact (start_invariant cfg h he.2).finish
  | send msg => exact hcall (trySendOrEnqueueThen_frame cfg (by simp) msg .keepSending)
  | sendAndStop msg => exact hcall (trySendOrEnqueueThen_frame cfg (by simp) msg .stop)
  | stop => exact hcall (Evolves.mono (fun _ _ h => h.1) (stop_quiet cfg))
  | stopReceiving => exact hcall (Evolves.mono (fun _ _ h => h.1) (stopReceiving_quiet cfg))
  | stopSending => exact hcall (Evolves.mono (fun _ _ h => h.1) (stopSending_quiet cfg))
  | wrapped script => exact hcall (wrappedHandler_frame cfg (by simp) script)
  | peerDisconnected => exact hsame rfl
  | completeRead i e data =>
    obtain ⟨op, hop, -, hnext⟩ := completeRead_next cfg he
    have hkeys : (s.reads.set i { op with result := some e }).map readKey = s.reads.map readKey :=
      map_set_key readKey hop rfl
    rw [hnext, readCompleted]
    split <;> exact hsame (by simp only [loopView, hkeys])
  | completeWrite i e =>
    obtain ⟨op, -, hnext⟩ := completeWrite_next cfg he
    rw [hnext]
    exact hsame rfl
  | expireRead i e => exact hsame rfl
  | expireWrite i e => exact hsame rfl
  | deliverRead i script =>
    obtain ⟨⟨id, kind, phase, buffer, result⟩, e, hop, -, hnext⟩ := deliverRead_next cfg he
    rw [hnext]
    exact (triple_iff_after.mp (readHandler_triple cfg id phase buffer result e script) _
      (h.delivered hop)).finish
  | deliverWrite i =>
    obtain ⟨op, e, -, -, hnext⟩ := deliverWrite_next cfg he
    rw [hnext]
    have hbefore : Invariant { s with writes := s.writes.eraseIdx i } := hsame rfl
    exact (hbefore.frame (writeHandler_frame cfg op e _)).finish
  | deliverReadWait i =>
    obtain ⟨-, e, -, hnext⟩ := deliverReadWait_next cfg he
    rw [hnext]
    have hbefore : Invariant { s with readWaits := s.readWaits.eraseIdx i } := hsame rfl
    exact (hbefore.frame (failed_quiet cfg (!cfg.ndebug) e _).1).finish
  | deliverWriteWait i =>
    obtain ⟨-, e, -, hnext⟩ := deliverWriteWait_next cfg he
    rw [hnext]
    have hbefore : Invariant { s with writeWaits := s.writeWaits.eraseIdx i } := hsame rfl
    exact (hbefore.frame (failed_quiet cfg (!cfg.ndebug) e _).1).finish

theorem reachable_invariant (h : Reachable cfg es s) : Invariant s := by
  obtain ⟨uninitialised, hrun⟩ := h
  exact hrun.invariant (fun _ _ hi he => next_invariant cfg hi he) (initial_invariant uninitialised)

theorem run_log_grows {t : State M} (h : Run (system cfg) s es t) : s.log <+: t.log := by
  have hsteps : SendLoop.Steps false (outbox s) (outbox t) := run_sends cfg h
  generalize hu : outbox t = u at hsteps
  rw [show t.log = u.log by rw [← hu]; rfl]
  clear hu
  induction hsteps with
  | refl => exact List.prefix_rfl
  | tail _ hstep ih => exact ih.trans (SendLoop.step_log_grows hstep)

/-- The callbacks are in order, each with a protocol to receive it, at most one read is
outstanding, and once `ReadClosed` is set no callback is made, in the same handler or later. -/
structure DispatchSafe (s : State M) : Prop where
  order : InOrder (callbacks s.log)
  oneRead : s.reads.length ≤ 1
  noNull : .nullCallback ∉ s.log
  closed : s.readClosed = true ↔ ∃ a ∈ s.log, closesReading a = true
  quiet : ∀ pre a post, s.log = pre ++ a :: post → closesReading a = true → callbacks post = []
  later : s.readClosed = true → ∀ es t, Run (system cfg) s es t → callbacks t.log = callbacks s.log

variable {cfg}

theorem no_callback_after_close (h : Reachable cfg es s) (hclosed : s.readClosed = true)
    {fs : List (Event M)} {t : State M} (hrun : Run (system cfg) s fs t) :
    callbacks t.log = callbacks s.log := by
  obtain ⟨a, ha, hcloses⟩ := (reachable_invariant cfg h).closed.mp hclosed
  obtain ⟨pre, post, hsplit⟩ := List.append_of_mem ha
  obtain ⟨ext, hext⟩ := run_log_grows cfg hrun
  obtain ⟨uninitialised, hreach⟩ := h
  have hlater : Invariant t := reachable_invariant cfg ⟨uninitialised, hreach.trans hrun⟩
  have hnone := hlater.quiet pre a (post ++ ext) (by rw [← hext, hsplit]; simp) hcloses
  rw [callbacks_append, List.append_eq_nil_iff] at hnone
  rw [← hext, callbacks_append, hnone.2, List.append_nil]

/-- In every run, for every interleaving of completions, expiries, exceptions and stops. -/
theorem dispatch_order (h : Reachable cfg es s) : DispatchSafe cfg s := by
  have hinv := reachable_invariant cfg h
  exact ⟨hinv.order, hinv.oneRead, hinv.noNull, hinv.closed, hinv.quiet,
    fun hclosed _ _ hrun => no_callback_after_close h hclosed hrun⟩

/-- Two messages of eight zero bytes and then a stop from the handler. -/
def twoMessages : List (Event ℕ) :=
  let zeros := List.replicate 8 0
  [.start, .completeRead 0 .success [8, 0], .deliverRead 0 ⟨[], false⟩,
    .completeRead 0 .success zeros, .deliverRead 0 ⟨[.read (.skipBytes 4294967294)], false⟩,
    .completeRead 0 .success [8, 0], .deliverRead 0 ⟨[], false⟩,
    .completeRead 0 .success zeros, .deliverRead 0 ⟨[.stop], false⟩]

theorem dispatch_order_two_messages :
    DispatchSafe plainConfig (plainRun twoMessages) ∧
      callbacks (plainRun twoMessages).log = [.first, .subsequent] := by
  have hvalid : ValidTrace (system plainConfig) (initial fun _ => 0) twoMessages := by
    decide +kernel
  exact ⟨dispatch_order ⟨_, valid_trace_run hvalid⟩, by decide +kernel⟩

end Runs

end Dispatch

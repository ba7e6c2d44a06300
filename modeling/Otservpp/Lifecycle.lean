import Otservpp.Connection

/-! # What the lifecycle operations may change

The connection's two loops are independent of each other and of its teardown, except through
the close flags, the socket and the protocol pointer. `LoopFrame` is what everything but the
receive loop keeps, `SendFrame` what everything but the send loop keeps. Log lines, timers,
`stop` and `abort` keep both. -/
namespace Lifecycle

open Connection ProgramLogic

section Views

def isSend : Action → Bool
  | .accepted .. | .encode _ | .writeStarted _ | .written _ | .popped _ => true
  | _ => false

def isCallback : Action → Bool
  | .callback _ | .nullCallback => true
  | _ => false

def isAbort : Action → Bool
  | .connectionLost | .nullAbort => true
  | _ => false

/-- The actions that set `ReadClosed`. -/
def closesReading : Action → Bool
  | .stopBegan | .receivingStopped => true
  | _ => false

def readKey (op : ReadOp) : HandlerKind × Phase := (op.handler, op.phase)

def writeKey (op : WriteOp) : ℕ × AfterSend := (op.id, op.afterSend)

end Views

section Frames

variable {M : Type}

/-- The actions that a step appended, for a step that is not part of the receive loop. -/
structure Appended (aborts : Bool) (s t : State M) (ext : List Action) : Prop where
  log : t.log = s.log ++ ext
  noCallback : ∀ a ∈ ext, isCallback a = false
  aborted : ∀ a ∈ ext, isAbort a = true → aborts = true
  closes : (∃ a ∈ ext, closesReading a = true) → t.readClosed = true
  closed : t.readClosed = true → s.readClosed = true ∨ ∃ a ∈ ext, closesReading a = true
  lost : .connectionLost ∈ ext →
    t.attached = false ∧ t.readClosed = true ∧ t.writeClosed = true
  stopped : .stopped ∈ ext → t.peer.isOpen = false

/-- What everything but the receive loop keeps; `aborts` allows calls of `abort`. -/
structure LoopFrame (aborts : Bool) (s t : State M) : Prop where
  reads : t.reads.map readKey = s.reads.map readKey
  started : t.started = s.started
  readClosed : s.readClosed = true → t.readClosed = true
  writeClosed : s.writeClosed = true → t.writeClosed = true
  isOpen : t.peer.isOpen = true → s.peer.isOpen = true
  attached : s.attached = false → t.attached = false
  protocol : t.protocol = s.protocol ∨ t.protocol = false ∧ t.readClosed = true ∧
    t.writeClosed = true ∧ t.peer.isOpen = false
  appended : ∃ ext, Appended aborts s t ext

/-- What everything but the send loop keeps. -/
structure SendFrame (s t : State M) : Prop where
  outMsgQueue : t.outMsgQueue = s.outMsgQueue
  nextId : t.nextId = s.nextId
  writes : t.writes.map writeKey = s.writes.map writeKey
  noSend : ∃ ext, t.log = s.log ++ ext ∧ ∀ a ∈ ext, isSend a = false

def loopView (s : State M) :=
  (s.reads.map readKey, s.started, s.readClosed, s.writeClosed, s.peer.isOpen, s.attached,
    s.protocol, s.log)

def sendView (s : State M) := (s.outMsgQueue, s.nextId, s.writes.map writeKey, s.log)

variable {aborts : Bool} {s t u : State M}

theorem LoopFrame.of_eq (h : loopView t = loopView s) : LoopFrame aborts s t := by
  simp only [loopView, Prod.mk.injEq] at h
  obtain ⟨hreads, hstarted, hread, hwrite, hopen, hattached, hprotocol, hlog⟩ := h
  refine ⟨hreads, hstarted, ?_, ?_, ?_, ?_, Or.inl hprotocol, [], ?_⟩
  · rw [hread]; exact id
  · rw [hwrite]; exact id
  · rw [hopen]; exact id
  · rw [hattached]; exact id
  · refine ⟨by simpa using hlog, by simp, by simp, by simp, ?_, by simp, by simp⟩
    rw [hread]
    exact Or.inl

theorem Appended.trans {ext more : List Action} (h : Appended aborts s t ext)
    (k : Appended aborts t u more) (hread : t.readClosed = true → u.readClosed = true)
    (hwrite : t.writeClosed = true → u.writeClosed = true)
    (hattached : t.attached = false → u.attached = false)
    (hopen : t.peer.isOpen = false → u.peer.isOpen = false) :
    Appended aborts s u (ext ++ more) := by
  refine ⟨by rw [k.log, h.log, List.append_assoc], ?_, ?_, ?_, ?_, ?_, ?_⟩
  · intro a ha
    rcases List.mem_append.mp ha with ha | ha
    · exact h.noCallback a ha
    · exact k.noCallback a ha
  · intro a ha
    rcases List.mem_append.mp ha with ha | ha
    · exact h.aborted a ha
    · exact k.aborted a ha
  · rintro ⟨a, ha, hcloses⟩
    rcases List.mem_append.mp ha with ha | ha
    · exact hread (h.closes ⟨a, ha, hcloses⟩)
    · exact k.closes ⟨a, ha, hcloses⟩
  · intro hu
    rcases k.closed hu with ht | ⟨a, ha, hcloses⟩
    · rcases h.closed ht with hs | ⟨a, ha, hcloses⟩
      · exact Or.inl hs
      · exact Or.inr ⟨a, List.mem_append_left _ ha, hcloses⟩
    · exact Or.inr ⟨a, List.mem_append_right _ ha, hcloses⟩
  · intro ha
    rcases List.mem_append.mp ha with ha | ha
    · obtain ⟨hlost, hr, hw⟩ := h.lost ha
      exact ⟨hattached hlost, hread hr, hwrite hw⟩
    · exact k.lost ha
  · intro ha
    rcases List.mem_append.mp ha with ha | ha
    · exact hopen (h.stopped ha)
    · exact k.stopped ha

theorem LoopFrame.stays_closed (h : LoopFrame aborts s t) (hs : s.peer.isOpen = false) :
    t.peer.isOpen = false := by
  by_contra ht
  rw [h.isOpen (by simpa using ht)] at hs
  cases hs

theorem LoopFrame.trans (h : LoopFrame aborts s t) (k : LoopFrame aborts t u) :
    LoopFrame aborts s u := by
  obtain ⟨ext, hext⟩ := h.appended
  obtain ⟨more, hmore⟩ := k.appended
  refine ⟨k.reads.trans h.reads, k.started.trans h.started, fun hs => k.readClosed (h.readClosed hs),
    fun hs => k.writeClosed (h.writeClosed hs), fun hu => h.isOpen (k.isOpen hu),
    fun hs => k.attached (h.attached hs), ?_,
    ext ++ more, hext.trans hmore k.readClosed k.writeClosed k.attached k.stays_closed⟩
  rcases k.protocol with hsame | hreset
  · rcases h.protocol with hfirst | ⟨hp, hr, hw, ho⟩
    · exact Or.inl (hsame.trans hfirst)
    · exact Or.inr ⟨hsame.trans hp, k.readClosed hr, k.writeClosed hw, k.stays_closed ho⟩
  · exact Or.inr hreset

theorem LoopFrame.weaken (h : LoopFrame false s t) : LoopFrame aborts s t := by
  obtain ⟨ext, hext⟩ := h.appended
  have hnone (a : Action) (ha : a ∈ ext) (habort : isAbort a = true) : aborts = true := by
    cases hext.aborted a ha habort
  exact { h with
    appended := ⟨ext, hext.log, hext.noCallback, hnone, hext.closes, hext.closed, hext.lost,
      hext.stopped⟩ }

instance : IsPreorder (State M) (LoopFrame aborts) where
  refl _ := LoopFrame.of_eq rfl
  trans _ _ _ := LoopFrame.trans

theorem SendFrame.of_eq (h : sendView t = sendView s) : SendFrame s t := by
  simp only [sendView, Prod.mk.injEq] at h
  obtain ⟨hqueue, hnext, hwrites, hlog⟩ := h
  exact ⟨hqueue, hnext, hwrites, [], by simpa using hlog, by simp⟩

theorem SendFrame.append (ext : List Action) (hext : ∀ a ∈ ext, isSend a = false)
    (h : sendView t = (s.outMsgQueue, s.nextId, s.writes.map writeKey, s.log ++ ext)) :
    SendFrame s t := by
  simp only [sendView, Prod.mk.injEq] at h
  obtain ⟨hqueue, hnext, hwrites, hlog⟩ := h
  exact ⟨hqueue, hnext, hwrites, ext, hlog, hext⟩

theorem SendFrame.trans (h : SendFrame s t) (k : SendFrame t u) : SendFrame s u := by
  obtain ⟨ext, hext, hquiet⟩ := h.noSend
  obtain ⟨more, hmore, hmoreQuiet⟩ := k.noSend
  refine ⟨k.outMsgQueue.trans h.outMsgQueue, k.nextId.trans h.nextId, k.writes.trans h.writes,
    ext ++ more, by rw [hmore, hext, List.append_assoc], ?_⟩
  intro a ha
  rcases List.mem_append.mp ha with ha | ha
  · exact hquiet a ha
  · exact hmoreQuiet a ha

instance : IsPreorder (State M) SendFrame where
  refl _ := SendFrame.of_eq rfl
  trans _ _ _ := SendFrame.trans

/-- What the lifecycle operations keep. -/
def Quiet (aborts : Bool) (s t : State M) : Prop := LoopFrame aborts s t ∧ SendFrame s t

theorem Quiet.trans (h : Quiet aborts s t) (k : Quiet aborts t u) : Quiet aborts s u :=
  ⟨h.1.trans k.1, h.2.trans k.2⟩

instance : IsPreorder (State M) (Quiet aborts) where
  refl s := ⟨refl s, refl s⟩
  trans _ _ _ := Quiet.trans

/-- What log lines, timers and the reads of a message keep. -/
def Silent (s t : State M) : Prop := loopView t = loopView s ∧ sendView t = sendView s

instance : IsPreorder (State M) Silent where
  refl _ := ⟨rfl, rfl⟩
  trans _ _ _ h k := ⟨k.1.trans h.1, k.2.trans h.2⟩

theorem Silent.quiet (h : Silent s t) : Quiet aborts s t :=
  ⟨LoopFrame.of_eq h.1, SendFrame.of_eq h.2⟩

theorem Quiet.of_eq (hloop : loopView t = loopView s) (hsend : sendView t = sendView s) :
    Quiet aborts s t := Silent.quiet ⟨hloop, hsend⟩

end Frames

section Calls

variable {M : Type} (cfg : Config M)

/-- The next call that needs a connected socket succeeds. -/
def answers (s : State M) : Bool := s.peer.isOpen && s.peer.connected && cfg.sys s.sysCalls

def called (s : State M) : State M := { s with sysCalls := s.sysCalls + 1 }

theorem connectedCall_run (s : State M) :
    connectedCall cfg s =
      if answers cfg s = true then .ok () (called s) else .error .exception (called s) := by
  change (if answers cfg s = true then pure () else throw .exception : ConnM M Unit) (called s) = _
  split <;> rfl

theorem logInfo_run (s : State M) :
    logInfo cfg s =
      if answers cfg s = true then .ok () (called s) else .error .exception (called s) :=
  connectedCall_run cfg s

theorem close_run {s : State M} (h : s.peer.isOpen = true) :
    close cfg s =
      if cfg.sys s.sysCalls = true then .ok () (closed (called s))
      else .error .exception (closed (called s)) := by
  change (if s.peer.isOpen then _ else _ : ConnM M Unit) s = _
  rw [if_pos h]
  change (if cfg.sys s.sysCalls = true then pure () else throw .exception : ConnM M Unit)
    (closed (called s)) = _
  split <;> rfl

theorem connectedCall_silent : Evolves Silent (connectedCall cfg) := by
  intro s
  have hcalled : Silent s (called s) := ⟨rfl, rfl⟩
  by_cases h : answers cfg s = true
  · rw [after_ok ((connectedCall_run cfg s).trans (if_pos h))]
    exact hcalled
  · rw [after_error ((connectedCall_run cfg s).trans (if_neg h))]
    exact hcalled

theorem droppingLogInfo_silent : Evolves Silent (droppingLogInfo cfg) := connectedCall_silent cfg

theorem dvlogInfo_silent : Evolves Silent (dvlogInfo cfg) :=
  Evolves.ite (fun _ => connectedCall_silent cfg) (fun _ => evolves_pure ())

theorem cancelReadTimer_silent : Evolves Silent (cancelReadTimer : ConnM M Unit) :=
  evolves_modify fun _ => ⟨rfl, rfl⟩

theorem cancelWriteTimer_silent : Evolves Silent (cancelWriteTimer : ConnM M Unit) :=
  evolves_modify fun _ => ⟨rfl, rfl⟩

theorem updateReadTimer_silent : Evolves Silent (updateReadTimer : ConnM M Unit) :=
  evolves_modify fun _ => ⟨rfl, rfl⟩

theorem onInMsg_silent {α : Type} (x : InMessage.InM α) : Evolves Silent (onInMsg x : ConnM M α) := by
  intro s
  unfold after onInMsg
  cases hx : x s.inMsg with
  | ok a m => exact ⟨rfl, rfl⟩
  | error e m => cases e <;> exact ⟨rfl, rfl⟩

end Calls

section Stopping

variable {M : Type} (cfg : Config M)

/-- The first statement of `stop`. -/
def halted (s : State M) : State M :=
  { s with readClosed := true, writeClosed := true, log := s.log ++ [.stopBegan] }

def cancelled (s : State M) : State M :=
  { s with readWaits := cancelWaits s.readWaits, writeWaits := cancelWaits s.writeWaits }

/-- The last statement of `stop`. -/
def reset (s : State M) : State M := { s with protocol := false, log := s.log ++ [.stopped] }

/-- The state after the log line of `stop`, which `vlog` turns on. -/
def logged (s : State M) : State M := if cfg.vlog = true then called (halted s) else halted s

private theorem halted_log_run (s : State M) :
    vlogInfo cfg (halted s) =
      if cfg.vlog = true ∧ answers cfg s = false then .error .exception (logged cfg s)
      else .ok () (logged cfg s) := by
  unfold vlogInfo logged
  cases hv : cfg.vlog with
  | false => rfl
  | true =>
    have hanswers : answers cfg (halted s) = answers cfg s := rfl
    simp only [if_true, logInfo_run, hanswers, true_and]
    cases answers cfg s <;> rfl

private theorem teardown_run (s : State M) :
    (do cancelReadTimer; cancelWriteTimer; shutdown cfg; close cfg; modify reset : ConnM M Unit) s =
      if answers cfg s = false then .error .exception (called (cancelled s))
      else if cfg.sys (s.sysCalls + 1) = false then
        .error .exception (closed (called (called (cancelled s))))
      else .ok () (reset (closed (called (called (cancelled s))))) := by
  change (connectedCall cfg >>= fun _ => close cfg >>= fun _ => modify reset) (cancelled s) = _
  have hanswers : answers cfg (cancelled s) = answers cfg s := rfl
  cases ha : answers cfg s with
  | false =>
    rw [if_pos rfl]
    exact bind_error ((connectedCall_run cfg _).trans (if_neg (by rw [hanswers, ha]; simp))) _
  | true =>
    have hopen : (called (cancelled s)).peer.isOpen = true := by
      simp only [answers, Bool.and_eq_true] at ha
      exact ha.1.1
    rw [bind_ok ((connectedCall_run cfg _).trans (if_pos (hanswers.trans ha))), if_neg (by simp)]
    have hsys : cfg.sys (called (cancelled s)).sysCalls = cfg.sys (s.sysCalls + 1) := rfl
    cases hc : cfg.sys (s.sysCalls + 1) with
    | false =>
      rw [if_pos rfl]
      exact bind_error ((close_run cfg hopen).trans (if_neg (by rw [hsys, hc]; simp))) _
    | true =>
      rw [if_neg (by simp), bind_ok ((close_run cfg hopen).trans (if_pos (hsys.trans hc)))]
      rfl

/-- `stop` ends early where its log line, `shutdown` or `close` throws. -/
theorem stop_run (s : State M) :
    stop cfg s =
      if cfg.vlog = true ∧ answers cfg s = false then .error .exception (logged cfg s)
      else if answers cfg (logged cfg s) = false then
        .error .exception (called (cancelled (logged cfg s)))
      else if cfg.sys ((logged cfg s).sysCalls + 1) = false then
        .error .exception (closed (called (called (cancelled (logged cfg s)))))
      else .ok () (reset (closed (called (called (cancelled (logged cfg s)))))) := by
  change (vlogInfo cfg >>= fun _ => (do
    cancelReadTimer; cancelWriteTimer; shutdown cfg; close cfg; modify reset : ConnM M Unit))
      (halted s) = _
  by_cases hv : cfg.vlog = true ∧ answers cfg s = false
  · rw [if_pos hv]
    exact bind_error ((halted_log_run cfg s).trans (if_pos hv)) _
  · rw [if_neg hv, bind_ok ((halted_log_run cfg s).trans (if_neg hv))]
    exact teardown_run cfg (logged cfg s)

variable {aborts : Bool}

omit cfg in
theorem closed_readKeys (s : State M) : (closed s).reads.map readKey = s.reads.map readKey := by
  simp only [closed, List.map_map]
  rfl

omit cfg in
theorem closed_writeKeys (s : State M) : (closed s).writes.map writeKey = s.writes.map writeKey := by
  simp only [closed, List.map_map]
  rfl

omit cfg in
theorem halted_quiet (s : State M) : Quiet aborts s (halted s) := by
  constructor
  · exact ⟨rfl, rfl, fun _ => rfl, fun _ => rfl, id, id, Or.inl rfl, [.stopBegan],
      ⟨rfl, by simp [isCallback], by simp [isAbort], fun _ => rfl,
        fun _ => Or.inr ⟨_, List.mem_singleton_self _, rfl⟩, by simp, by simp⟩⟩
  · exact SendFrame.append [.stopBegan] (by simp [isSend]) rfl

omit cfg in
theorem closed_quiet (s : State M) : Quiet aborts s (closed s) := by
  constructor
  · refine ⟨closed_readKeys s, rfl, id, id, ?_, id, Or.inl rfl, [], ?_⟩
    · intro h
      cases h
    · exact ⟨by simp [closed], by simp, by simp, by simp, Or.inl, by simp, by simp⟩
  · exact ⟨rfl, rfl, closed_writeKeys s, [], by simp [closed], by simp⟩

omit cfg in
theorem reset_quiet {s : State M} (hread : s.readClosed = true) (hwrite : s.writeClosed = true)
    (hopen : s.peer.isOpen = false) : Quiet aborts s (reset s) := by
  constructor
  · exact ⟨rfl, rfl, id, id, id, id, Or.inr ⟨rfl, hread, hwrite, hopen⟩, [.stopped],
      ⟨rfl, by simp [isCallback], by simp [isAbort], by simp [closesReading], Or.inl, by simp,
        fun _ => hopen⟩⟩
  · exact SendFrame.append [.stopped] (by simp [isSend]) rfl

theorem logged_quiet (s : State M) : Quiet aborts (halted s) (logged cfg s) := by
  unfold logged
  split
  · exact Quiet.of_eq rfl rfl
  · exact Quiet.of_eq rfl rfl

theorem halted_stop_quiet (s : State M) : Quiet aborts (halted s) (after (stop cfg) s) := by
  have hlogged : Quiet aborts (halted s) (logged cfg s) := logged_quiet cfg s
  have hcancelled : Quiet aborts (halted s) (called (cancelled (logged cfg s))) :=
    hlogged.trans (Quiet.of_eq rfl rfl)
  have hcalled : Quiet aborts (halted s) (called (called (cancelled (logged cfg s)))) :=
    hcancelled.trans (Quiet.of_eq rfl rfl)
  have hclosed := hcalled.trans (closed_quiet (called (called (cancelled (logged cfg s)))))
  have hreset := hclosed.trans
    (reset_quiet (hclosed.1.readClosed rfl) (hclosed.1.writeClosed rfl) rfl)
  unfold after
  rw [stop_run]
  split_ifs
  · exact hlogged
  · exact hcancelled
  · exact hclosed
  · exact hreset

theorem stop_quiet : Evolves (Quiet aborts) (stop cfg) := fun s =>
  (halted_quiet s).trans (halted_stop_quiet cfg s)

/-- However `stop` ends, both flags are set. -/
theorem stop_flags (s : State M) :
    (after (stop cfg) s).readClosed = true ∧ (after (stop cfg) s).writeClosed = true := by
  have hframe : LoopFrame false (halted s) (after (stop cfg) s) := (halted_stop_quiet cfg s).1
  exact ⟨hframe.readClosed rfl, hframe.writeClosed rfl⟩

theorem stopReceiving_quiet : Evolves (Quiet aborts) (stopReceiving cfg) := by
  refine Evolves.bind (evolves_modify fun s => ?_) fun _ =>
    Evolves.mono (fun _ _ => Silent.quiet) (connectedCall_silent cfg)
  constructor
  · exact ⟨rfl, rfl, fun _ => rfl, id, id, id, Or.inl rfl, [.receivingStopped],
      ⟨rfl, by simp [isCallback], by simp [isAbort], fun _ => rfl,
        fun _ => Or.inr ⟨_, List.mem_singleton_self _, rfl⟩, by simp, by simp⟩⟩
  · exact SendFrame.append [.receivingStopped] (by simp [isSend]) rfl

theorem stopSending_quiet : Evolves (Quiet aborts) (stopSending cfg) := by
  refine Evolves.bind (evolves_modify fun s => ?_) fun _ =>
    Evolves.mono (fun _ _ => Silent.quiet) (connectedCall_silent cfg)
  constructor
  · exact ⟨rfl, rfl, id, fun _ => rfl, id, id, Or.inl rfl, [.sendingStopped],
      ⟨rfl, by simp [isCallback], by simp [isAbort], by simp [closesReading], Or.inl, by simp,
        by simp⟩⟩
  · exact SendFrame.append [.sendingStopped] (by simp [isSend]) rfl

end Stopping

section Aborting

variable {M : Type} (cfg : Config M)

/-- The protocol has been told and has let go of the connection. -/
def lost (s : State M) : State M :=
  { s with attached := false, log := s.log ++ [.connectionLost] }

theorem abort_attached {s : State M} (h : s.protocol = true) : abort cfg s = stop cfg (lost s) := by
  change (if s.protocol then _ else _ : ConnM M Unit) s = _
  rw [if_pos h]
  rfl

theorem abort_null {s : State M} (h : s.protocol = false) :
    abort cfg s = .error .crash { s with log := s.log ++ [.nullAbort] } := by
  change (if s.protocol then _ else _ : ConnM M Unit) s = _
  rw [if_neg (by rw [h]; simp)]
  rfl

private theorem nullAbort_quiet (s : State M) :
    Quiet true s { s with log := s.log ++ [.nullAbort] } := by
  constructor
  · exact ⟨rfl, rfl, id, id, id, id, Or.inl rfl, [.nullAbort],
      ⟨rfl, by simp [isCallback], by simp, by simp [closesReading], Or.inl, by simp,
        by simp⟩⟩
  · exact SendFrame.append [.nullAbort] (by simp [isSend]) rfl

/-- The stop after `connectionLost` sets both flags, also where it throws. -/
private theorem lost_stop_quiet (s : State M) : Quiet true s (after (stop cfg) (lost s)) := by
  obtain ⟨hloop, hsend⟩ : Quiet true (lost s) (after (stop cfg) (lost s)) := stop_quiet cfg (lost s)
  obtain ⟨hread, hwrite⟩ := stop_flags cfg (lost s)
  have hattached := hloop.attached rfl
  obtain ⟨ext, hext⟩ := hloop.appended
  constructor
  · refine ⟨hloop.reads, hloop.started, fun _ => hread, fun _ => hwrite, hloop.isOpen,
      fun _ => hattached, hloop.protocol, .connectionLost :: ext, ?_⟩
    refine ⟨hext.log.trans (by simp [lost]), ?_, fun _ _ _ => rfl, fun _ => hread, ?_,
      fun _ => ⟨hattached, hread, hwrite⟩, fun ha => hext.stopped (by simpa using ha)⟩
    · intro a ha
      rcases List.mem_cons.mp ha with rfl | ha
      · rfl
      · exact hext.noCallback a ha
    · intro h
      rcases hext.closed h with hs | ⟨a, ha, hcloses⟩
      · exact Or.inl hs
      · exact Or.inr ⟨a, List.mem_cons_of_mem _ ha, hcloses⟩
  · have hlost : SendFrame s (lost s) := SendFrame.append [.connectionLost] (by simp [isSend]) rfl
    exact hlost.trans hsend

theorem abort_quiet : Evolves (Quiet true) (abort cfg) := by
  intro s
  cases hp : s.protocol with
  | true =>
    unfold after
    rw [abort_attached cfg hp]
    exact lost_stop_quiet cfg s
  | false =>
    rw [after_error (abort_null cfg hp)]
    exact nullAbort_quiet s

theorem abortWith_quiet (e : ErrorCode) : Evolves (Quiet true) (abortWith cfg e) :=
  Evolves.ite (fun _ => abort_quiet cfg) (fun _ => evolves_pure ())

theorem dropped_quiet : Evolves (Quiet true) (do droppingLogInfo cfg; abort cfg) :=
  Evolves.bind (Evolves.mono (fun _ _ => Silent.quiet) (droppingLogInfo_silent cfg)) fun _ =>
    abort_quiet cfg

/-- A log line that is compiled in or turned on by `logs`. -/
def logWhen (logs : Bool) : ConnM M Unit := if logs then logInfo cfg else pure ()

/-- The error path of every completion handler: a log line, then `abort`. -/
def failed (logs : Bool) (e : ErrorCode) : ConnM M Unit := do
  if e ≠ .operationAborted then logWhen cfg logs
  abortWith cfg e

theorem timerHandler_eq (e : ErrorCode) : timerHandler cfg e = failed cfg (!cfg.ndebug) e := rfl

/-- The body that `asyncRead` was given. -/
def received (op : ReadOp) (script : Script M) : ConnM M Unit :=
  match op.phase with
  | .header => headerRead cfg op.handler
  | .body => bodyRead cfg op.handler script

theorem received_header (id : ℕ) (kind : HandlerKind) (buffer : InMessage.Buffer) (result : Option ErrorCode)
    (script : Script M) :
    received cfg ⟨id, kind, .header, buffer, result⟩ script = headerRead cfg kind := rfl

theorem received_body (id : ℕ) (kind : HandlerKind) (buffer : InMessage.Buffer) (result : Option ErrorCode)
    (script : Script M) :
    received cfg ⟨id, kind, .body, buffer, result⟩ script = bodyRead cfg kind script := rfl

/-- The handler of a completed read looks at its message only while reading is not closed. -/
theorem readHandler_success (op : ReadOp) (script : Script M) (s : State M) :
    readHandler cfg op .success script s =
      if s.readClosed = true then .ok () s
      else (dvlogInfo cfg >>= fun _ => received cfg op script) s := by
  change (if isReceiving s = true then _ else _ : ConnM M Unit) s = _
  cases hr : s.readClosed with
  | true => simp [isReceiving, hr]
  | false =>
    have hreceiving : isReceiving s = true := by simp [isReceiving, hr]
    exact (congrFun (if_pos hreceiving) s).trans (if_neg Bool.false_ne_true).symm

theorem readHandler_error {e : ErrorCode} (he : e ≠ .success) (op : ReadOp) (script : Script M) :
    readHandler cfg op e script = failed cfg cfg.vlog e := by
  unfold readHandler
  rw [if_neg he]
  rfl

theorem writeHandler_error {e : ErrorCode} (he : e ≠ .success) (op : WriteOp) :
    writeHandler cfg op e = failed cfg (!cfg.ndebug) e := by
  unfold writeHandler
  rw [if_neg he]
  rfl

theorem failed_quiet (logs : Bool) (e : ErrorCode) : Evolves (Quiet true) (failed cfg logs e) := by
  have hlog : Evolves (Quiet true) (logWhen cfg logs) :=
    Evolves.ite (fun _ => Evolves.mono (fun _ _ => Silent.quiet) (connectedCall_silent cfg))
      (fun _ => evolves_pure ())
  exact Evolves.ite (fun _ => hlog.bind fun _ => abortWith_quiet cfg e)
    (fun _ => abortWith_quiet cfg e)

end Aborting

section Scripts

variable {M : Type} (cfg : Config M) {R : State M → State M → Prop} [IsPreorder (State M) R]

/-! A protocol's script keeps to every relation that the lifecycle operations and the two send
operations keep to. -/

theorem catchException_evolves {x handler : ConnM M Unit} (hx : Evolves R x)
    (hh : Evolves R handler) : Evolves R (catchException x handler) := by
  refine Evolves.tryCatch hx fun e => ?_
  cases e with
  | exception => exact hh
  | crash => exact evolves_throw _

omit [IsPreorder (State M) R] in
theorem record_evolves (hquiet : ∀ s t, Quiet false s t → R s t) {a : Action}
    (h : isSend a = false) (hc : isCallback a = false) (ha : isAbort a = false)
    (hr : closesReading a = false) (hs : a ≠ .stopped) : Evolves R (record a : ConnM M Unit) := by
  refine evolves_modify fun s => hquiet _ _ ⟨?_, ?_⟩
  · refine ⟨rfl, rfl, id, id, id, id, Or.inl rfl, [a], rfl, ?_, ?_, ?_, Or.inl, ?_,
      fun hmem => absurd (List.mem_singleton.mp hmem).symm hs⟩
    · simpa using hc
    · simp [ha]
    · simp [hr]
    · intro hlost
      rw [← List.mem_singleton.mp hlost] at ha
      cases ha
  · exact SendFrame.append [a] (by simpa using h) rfl

/-- What a relation has to allow for a protocol's handlers to keep to it; `reads` are the reads of
the message that they may make. -/
structure ScriptRules (cfg : Config M) (reads : FrameReads.Op → Prop)
    (R : State M → State M → Prop) : Prop where
  nullConnection : Evolves R (record .nullConnection : ConnM M Unit)
  wrappedRun : Evolves R (record .wrappedRun : ConnM M Unit)
  read : ∀ op, reads op → Evolves R (onInMsg (op.exec cfg.ndebug) : ConnM M (List UInt8))
  log : Evolves R (droppingLogInfo cfg)
  stop : Evolves R (Connection.stop cfg)
  stopReceiving : Evolves R (Connection.stopReceiving cfg)
  stopSending : Evolves R (Connection.stopSending cfg)
  send : ∀ msg a, Evolves R (trySendOrEnqueueThen cfg msg a)

theorem viaConnection_keeps (hnull : Evolves R (record .nullConnection : ConnM M Unit))
    {x : ConnM M Unit} (hx : Evolves R x) : Evolves R (viaConnection x) :=
  Evolves.bind evolves_get fun _ => Evolves.ite (fun _ => hx) fun _ =>
    hnull.bind fun _ => evolves_throw _

section Rules

variable {cfg} {reads : FrameReads.Op → Prop} (h : ScriptRules cfg reads R)
include h

theorem ScriptRules.via {x : ConnM M Unit} (hx : Evolves R x) : Evolves R (viaConnection x) :=
  viaConnection_keeps h.nullConnection hx

theorem ScriptRules.act {act : Act M} (hreads : ∀ op, act = .read op → reads op) :
    Evolves R (act.exec cfg) := by
  cases act with
  | read op => exact (h.read op (hreads op rfl)).bind fun _ => evolves_pure _
  | send msg => exact h.via (h.send msg .keepSending)
  | sendAndStop msg => exact h.via (h.send msg .stop)
  | stop => exact h.via h.stop
  | stopReceiving => exact h.via h.stopReceiving
  | stopSending => exact h.via h.stopSending

theorem ScriptRules.runActs {acts : List (Act M)} (hreads : ∀ op, .read op ∈ acts → reads op) :
    Evolves R (runActs cfg acts) := by
  induction acts with
  | nil => exact evolves_pure _
  | cons act acts ih =>
    have hact : Evolves R (act.exec cfg) := by
      apply h.act
      rintro op rfl
      exact hreads op List.mem_cons_self
    have hrest := ih fun op hop => hreads op (List.mem_cons_of_mem _ hop)
    exact (catchException_evolves hact (evolves_pure _)).bind fun _ => hrest

theorem ScriptRules.script {script : Script M} (hreads : ∀ op, .read op ∈ script.acts → reads op) :
    Evolves R (script.run cfg) :=
  (h.runActs hreads).bind fun _ =>
    Evolves.ite (fun _ => evolves_throw _) (fun _ => evolves_pure _)

theorem ScriptRules.wrapped {script : Script M} (hreads : ∀ op, .read op ∈ script.acts → reads op) :
    Evolves R (wrappedHandler cfg script) := by
  refine Evolves.bind evolves_get fun s => Evolves.ite (fun _ => ?_) (fun _ => ?_)
  · refine Evolves.ite (fun _ => ?_) (fun _ => h.via h.stop)
    exact h.wrappedRun.bind fun _ =>
      catchException_evolves (h.script hreads) ((h.via h.log).bind fun _ => h.via h.stop)
  · exact h.nullConnection.bind fun _ => evolves_throw _

end Rules

theorem viaConnection_evolves (hquiet : ∀ s t, Quiet false s t → R s t) {x : ConnM M Unit}
    (hx : Evolves R x) : Evolves R (viaConnection x) :=
  viaConnection_keeps (record_evolves hquiet rfl rfl rfl rfl (by simp)) hx

variable (hquiet : ∀ s t, Quiet false s t → R s t)
  (hsend : ∀ msg a, Evolves R (trySendOrEnqueueThen cfg msg a))
include hquiet hsend

omit [IsPreorder (State M) R] in
theorem ScriptRules.of_quiet : ScriptRules cfg (fun _ => True) R where
  nullConnection := record_evolves hquiet rfl rfl rfl rfl (by simp)
  wrappedRun := record_evolves hquiet rfl rfl rfl rfl (by simp)
  read op _ := Evolves.mono (fun s t h => hquiet s t (Silent.quiet h))
    (onInMsg_silent (op.exec cfg.ndebug))
  log := Evolves.mono (fun s t h => hquiet s t (Silent.quiet h)) (droppingLogInfo_silent cfg)
  stop := Evolves.mono hquiet (stop_quiet cfg)
  stopReceiving := Evolves.mono hquiet (stopReceiving_quiet cfg)
  stopSending := Evolves.mono hquiet (stopSending_quiet cfg)
  send := hsend

theorem script_evolves (script : Script M) : Evolves R (script.run cfg) :=
  (ScriptRules.of_quiet cfg hquiet hsend).script fun _ _ => trivial

theorem wrappedHandler_evolves (script : Script M) : Evolves R (wrappedHandler cfg script) :=
  (ScriptRules.of_quiet cfg hquiet hsend).wrapped fun _ _ => trivial

end Scripts

section Receive

variable {M : Type} (cfg : Config M) {R : State M → State M → Prop} [IsPreorder (State M) R]

/-! The receive loop keeps to every relation that also allows new reads and callbacks. -/

variable (hquiet : ∀ s t, Quiet true s t → R s t) (hreads : ∀ s ops n, R s { s with reads := ops, nextRead := n })
include hquiet hreads

theorem parseIncomingMessage_evolves (kind : HandlerKind) :
    Evolves R (parseIncomingMessage kind : ConnM M Unit) :=
  Evolves.bind (Evolves.mono (fun s t h => hquiet s t h.quiet) updateReadTimer_silent) fun _ =>
    evolves_modify fun s => hreads s _ _

theorem headerRead_evolves (kind : HandlerKind) : Evolves R (headerRead cfg kind) := by
  have hsilent {α : Type} {x : ConnM M α} (h : Evolves Silent x) : Evolves R x :=
    Evolves.mono (fun s t h => hquiet s t h.quiet) h
  have hparse : Evolves R (do
      let buffer ← onInMsg (InMessage.parseHeaderAndGetBodyBuffer cfg.ndebug)
      asyncReadOp kind .body buffer) :=
    (hsilent (onInMsg_silent _)).bind fun _ => evolves_modify fun s => hreads s _ _
  exact (hsilent updateReadTimer_silent).bind fun _ =>
    catchException_evolves hparse (Evolves.mono hquiet (dropped_quiet cfg))

variable (hcall : ∀ s calls kind, R s { s with calls := calls, log := s.log ++ [.callback kind] })
  (hnull : ∀ s, R s { s with log := s.log ++ [.nullCallback] })
  (hscript : ∀ script : Script M, Evolves R (script.run cfg))
include hcall hnull hscript

omit hquiet hreads in
theorem sendInMsg_evolves (kind : HandlerKind) (script : Script M) :
    Evolves R (sendInMsg cfg kind script) := by
  refine Evolves.bind evolves_get fun _ => Evolves.ite (fun _ => ?_) (fun _ => ?_)
  · exact Evolves.bind (evolves_modify fun s => hcall s _ kind) fun _ => hscript script
  · exact Evolves.bind (evolves_modify fun s => hnull s) fun _ => evolves_throw _

theorem bodyRead_evolves (kind : HandlerKind) (script : Script M) :
    Evolves R (bodyRead cfg kind script) := by
  have hsilent {x : ConnM M Unit} (h : Evolves Silent x) : Evolves R x :=
    Evolves.mono (fun s t h => hquiet s t h.quiet) h
  have hsend := sendInMsg_evolves cfg hcall hnull hscript kind script
  refine (hsilent cancelReadTimer_silent).bind fun _ => (hsilent (dvlogInfo_silent cfg)).bind fun _ => ?_
  refine Evolves.bind ?_ fun threw => Evolves.ite (fun _ => ?_) (fun _ => ?_)
  · refine Evolves.tryCatch (hsend.bind fun _ => evolves_pure _) fun e => ?_
    cases e with
    | exception => exact evolves_pure _
    | crash => exact evolves_throw _
  · exact Evolves.mono hquiet (dropped_quiet cfg)
  · refine Evolves.bind evolves_get fun _ => Evolves.ite (fun _ => ?_) (fun _ => evolves_pure _)
    exact parseIncomingMessage_evolves hquiet hreads .subsequent

theorem readHandler_evolves (op : ReadOp) (e : ErrorCode) (script : Script M) :
    Evolves R (readHandler cfg op e script) := by
  refine Evolves.ite (fun _ => ?_) (fun _ => ?_)
  · refine Evolves.bind evolves_get fun _ => Evolves.ite (fun _ => ?_) (fun _ => evolves_pure _)
    have hlog : Evolves R (dvlogInfo cfg) :=
      Evolves.mono (fun s t h => hquiet s t h.quiet) (dvlogInfo_silent cfg)
    refine hlog.bind fun _ => ?_
    cases op.phase with
    | header => exact headerRead_evolves cfg hquiet hreads op.handler
    | body => exact bodyRead_evolves cfg hquiet hreads hcall hnull hscript op.handler script
  · exact Evolves.mono hquiet (failed_quiet cfg cfg.vlog e)

end Receive

section Handlers

variable {M : Type}

/-- How a handler ended shows only in whether the connection crashed. -/
theorem finish_eq (x : ConnM M Unit) (s : State M) :
    ∃ b, finish x s = { after x s with crashed := b } := by
  unfold finish after
  cases x s with
  | ok a t => exact ⟨t.crashed, rfl⟩
  | error e t =>
    cases e with
    | exception => exact ⟨t.crashed, rfl⟩
    | crash => exact ⟨true, rfl⟩

variable (cfg : Config M) {s : State M} {i : ℕ}

theorem completeRead_next {e : ErrorCode} {data : List UInt8}
    (he : Enabled s (.completeRead i e data)) :
    ∃ op, s.reads[i]? = some op ∧ op.result = none ∧
      next cfg s (.completeRead i e data) = readCompleted s i op e data := by
  obtain ⟨-, op, hop, hresult, -⟩ := he
  refine ⟨op, hop, hresult, ?_⟩
  simp only [next, Option.mem_def.mp hop]

theorem completeWrite_next {e : ErrorCode} (he : Enabled s (.completeWrite i e)) :
    ∃ op, s.writes[i]? = some op ∧ next cfg s (.completeWrite i e) =
      { s with writes := s.writes.set i { op with result := some e } } := by
  obtain ⟨-, op, hop, -⟩ := he
  refine ⟨op, hop, ?_⟩
  simp only [next, Option.mem_def.mp hop]

theorem deliverRead_next {script : Script M} (he : Enabled s (.deliverRead i script)) :
    ∃ op e, s.reads[i]? = some op ∧ op.result = some e ∧ next cfg s (.deliverRead i script) =
      finish (readHandler cfg op e script) { s with reads := s.reads.eraseIdx i } := by
  obtain ⟨-, ⟨id, handler, phase, buffer, result⟩, hop, hresult⟩ := he
  obtain ⟨e, rfl⟩ := Option.isSome_iff_exists.mp hresult
  refine ⟨_, e, hop, rfl, ?_⟩
  simp only [next, Option.mem_def.mp hop]

theorem deliverWrite_next (he : Enabled s (.deliverWrite i)) :
    ∃ op e, s.writes[i]? = some op ∧ op.result = some e ∧ next cfg s (.deliverWrite i) =
      finish (writeHandler cfg op e) { s with writes := s.writes.eraseIdx i } := by
  obtain ⟨-, ⟨id, afterSend, result⟩, hop, hresult⟩ := he
  obtain ⟨e, rfl⟩ := Option.isSome_iff_exists.mp hresult
  refine ⟨_, e, hop, rfl, ?_⟩
  simp only [next, Option.mem_def.mp hop]

theorem deliverReadWait_next (he : Enabled s (.deliverReadWait i)) :
    ∃ op e, s.readWaits[i]? = some ⟨op, some e⟩ ∧ next cfg s (.deliverReadWait i) =
      finish (timerHandler cfg e) { s with readWaits := s.readWaits.eraseIdx i } := by
  obtain ⟨-, ⟨op, result⟩, hw, hsome⟩ := he
  obtain ⟨e, rfl⟩ := Option.isSome_iff_exists.mp hsome
  refine ⟨op, e, hw, ?_⟩
  simp only [next, Option.mem_def.mp hw]

theorem deliverWriteWait_next (he : Enabled s (.deliverWriteWait i)) :
    ∃ op e, s.writeWaits[i]? = some ⟨op, some e⟩ ∧ next cfg s (.deliverWriteWait i) =
      finish (timerHandler cfg e) { s with writeWaits := s.writeWaits.eraseIdx i } := by
  obtain ⟨-, ⟨op, result⟩, hw, hsome⟩ := he
  obtain ⟨e, rfl⟩ := Option.isSome_iff_exists.mp hsome
  refine ⟨op, e, hw, ?_⟩
  simp only [next, Option.mem_def.mp hw]

/-- Completing an operation keeps its key. -/
theorem map_set_key {α β : Type} (f : α → β) {l : List α} {i : ℕ} {a b : α} (h : l[i]? = some a)
    (hf : f b = f a) : (l.set i b).map f = l.map f := by
  obtain ⟨hlt, rfl⟩ := List.getElem?_eq_some_iff.mp h
  rw [List.map_set, hf]
  have hself := List.set_getElem_self (show i < (l.map f).length by simpa using hlt)
  simpa using hself

section Steps

variable {R : State M → State M → Prop} [IsPreorder (State M) R]
  (hquiet : ∀ s t, Quiet true s t → R s t) (hreads : ∀ s ops n, R s { s with reads := ops, nextRead := n })
  (hcall : ∀ s calls kind, R s { s with calls := calls, log := s.log ++ [.callback kind] })
  (hnull : ∀ s, R s { s with log := s.log ++ [.nullCallback] })
  (hsend : ∀ msg a, Evolves R (trySendOrEnqueueThen cfg msg a))
include hquiet hreads hcall hnull hsend

/-- Every step but `start` keeps to a relation that its handlers keep to. The handler of a write
runs after the write is taken out. -/
theorem next_evolves {e : Event M} (he : Enabled s e) (hstart : e ≠ .start)
    (hwrite : ∀ i op r, e = .deliverWrite i → s.writes[i]? = some op → op.result = some r →
      R s (after (writeHandler cfg op r) { s with writes := s.writes.eraseIdx i })) :
    R s (next cfg s e) := by
  have hsame {t u : State M} (hloop : loopView u = loopView t) (hview : sendView u = sendView t) :
      R t u := hquiet t u (Quiet.of_eq hloop hview)
  have hfinish {t : State M} {x : ConnM M Unit} (h : R s (after x t)) : R s (finish x t) := by
    obtain ⟨b, hb⟩ := finish_eq x t
    rw [hb]
    refine trans_of R h ?_
    exact hsame rfl rfl
  have hscripts (u v : State M) (h : Quiet false u v) : R u v := hquiet u v ⟨h.1.weaken, h.2⟩
  cases e with
  | start => exact absurd rfl hstart
  | send msg => exact hfinish (hsend msg .keepSending s)
  | sendAndStop msg => exact hfinish (hsend msg .stop s)
  | stop => exact hfinish (hquiet _ _ (stop_quiet cfg s))
  | stopReceiving => exact hfinish (hquiet _ _ (stopReceiving_quiet cfg s))
  | stopSending => exact hfinish (hquiet _ _ (stopSending_quiet cfg s))
  | wrapped script => exact hfinish (wrappedHandler_evolves cfg hscripts hsend script s)
  | peerDisconnected => exact hsame rfl rfl
  | completeRead i e data =>
    obtain ⟨op, hop, -, hnext⟩ := completeRead_next cfg he
    have hkeys : (s.reads.set i { op with result := some e }).map readKey = s.reads.map readKey :=
      map_set_key readKey hop rfl
    rw [hnext, readCompleted]
    split <;> exact hsame (by simp only [loopView, hkeys]) rfl
  | completeWrite i e =>
    obtain ⟨op, hop, hnext⟩ := completeWrite_next cfg he
    have hkeys : (s.writes.set i { op with result := some e }).map writeKey =
        s.writes.map writeKey := map_set_key writeKey hop rfl
    rw [hnext]
    exact hsame rfl (by simp only [sendView, hkeys])
  | expireRead i e => exact hsame rfl rfl
  | expireWrite i e => exact hsame rfl rfl
  | deliverRead i script =>
    obtain ⟨op, e, -, -, hnext⟩ := deliverRead_next cfg he
    have hhandler := readHandler_evolves cfg hquiet hreads hcall hnull
      (script_evolves cfg hscripts hsend) op e script
    rw [hnext]
    exact hfinish (trans_of R (hreads s _ s.nextRead) (hhandler _))
  | deliverWrite i =>
    obtain ⟨op, e, hop, hresult, hnext⟩ := deliverWrite_next cfg he
    rw [hnext]
    exact hfinish (hwrite i op e rfl hop hresult)
  | deliverReadWait i =>
    obtain ⟨-, e, -, hnext⟩ := deliverReadWait_next cfg he
    rw [hnext]
    refine hfinish (trans_of R ?_ (hquiet _ _ (failed_quiet cfg (!cfg.ndebug) e _)))
    exact hsame rfl rfl
  | deliverWriteWait i =>
    obtain ⟨-, e, -, hnext⟩ := deliverWriteWait_next cfg he
    rw [hnext]
    refine hfinish (trans_of R ?_ (hquiet _ _ (failed_quiet cfg (!cfg.ndebug) e _)))
    exact hsame rfl rfl

end Steps

end Handlers

end Lifecycle

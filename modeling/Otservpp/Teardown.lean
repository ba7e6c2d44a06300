import Otservpp.Dispatch

/-! # Stopping, aborting and what is delivered afterwards

`stop` and `abort` are reached from every error path. `CloseFrame` is what every handler keeps
of the flags, the socket, the protocol pointer and the protocol's connection. -/
namespace Teardown

open Connection Lifecycle ProgramLogic SendQueue Dispatch EventSystem

section Frame

variable {M : Type}

structure CloseFrame (aborts : Bool) (s t : State M) : Prop where
  started : t.started = s.started
  readClosed : s.readClosed = true → t.readClosed = true
  writeClosed : s.writeClosed = true → t.writeClosed = true
  isOpen : s.peer.isOpen = false → t.peer.isOpen = false
  attached : s.attached = false → t.attached = false
  protocol : t.protocol = s.protocol ∨ t.protocol = false ∧ t.readClosed = true ∧
    t.writeClosed = true ∧ t.peer.isOpen = false
  appended : ∃ ext, t.log = s.log ++ ext ∧ (∀ a ∈ ext, isAbort a = true → aborts = true) ∧
    (.connectionLost ∈ ext → t.attached = false ∧ t.readClosed = true ∧ t.writeClosed = true) ∧
    (.stopped ∈ ext → t.peer.isOpen = false)

variable {aborts : Bool} {s t u : State M}

theorem closeFrame_of_loop (h : LoopFrame aborts s t) : CloseFrame aborts s t := by
  obtain ⟨ext, hext⟩ := h.appended
  exact ⟨h.started, h.readClosed, h.writeClosed, h.stays_closed, h.attached, h.protocol, ext,
    hext.log, hext.aborted, hext.lost, hext.stopped⟩

def closeView (s : State M) :=
  (s.started, s.readClosed, s.writeClosed, s.peer.isOpen, s.attached, s.protocol)

theorem CloseFrame.append (ext : List Action)
    (hext : ∀ a ∈ ext, isAbort a = false ∧ a ≠ .stopped) (hlog : t.log = s.log ++ ext)
    (h : closeView t = closeView s) : CloseFrame aborts s t := by
  simp only [closeView, Prod.mk.injEq] at h
  obtain ⟨hstarted, hread, hwrite, hopen, hattached, hprotocol⟩ := h
  refine ⟨hstarted, by rw [hread]; exact id, by rw [hwrite]; exact id, by rw [hopen]; exact id,
    by rw [hattached]; exact id, Or.inl hprotocol, ext, hlog, ?_, ?_, ?_⟩
  · intro a ha habort
    rw [(hext a ha).1] at habort
    cases habort
  · intro hlost
    cases (hext _ hlost).1
  · intro hstopped
    exact absurd rfl (hext _ hstopped).2

theorem CloseFrame.trans (h : CloseFrame aborts s t) (k : CloseFrame aborts t u) :
    CloseFrame aborts s u := by
  obtain ⟨ext, hlog, habort, hlost, hstopped⟩ := h.appended
  obtain ⟨more, klog, kabort, klost, kstopped⟩ := k.appended
  refine ⟨k.started.trans h.started, fun hs => k.readClosed (h.readClosed hs),
    fun hs => k.writeClosed (h.writeClosed hs), fun hs => k.isOpen (h.isOpen hs),
    fun hs => k.attached (h.attached hs), ?_, ext ++ more, ?_, ?_, ?_, ?_⟩
  · rcases k.protocol with hsame | hreset
    · rcases h.protocol with hfirst | ⟨hp, hr, hw, ho⟩
      · exact Or.inl (hsame.trans hfirst)
      · exact Or.inr ⟨hsame.trans hp, k.readClosed hr, k.writeClosed hw, k.isOpen ho⟩
    · exact Or.inr hreset
  · rw [klog, hlog, List.append_assoc]
  · intro a ha
    rcases List.mem_append.mp ha with ha | ha
    · exact habort a ha
    · exact kabort a ha
  · intro ha
    rcases List.mem_append.mp ha with ha | ha
    · obtain ⟨ht, hr, hw⟩ := hlost ha
      exact ⟨k.attached ht, k.readClosed hr, k.writeClosed hw⟩
    · exact klost ha
  · intro ha
    rcases List.mem_append.mp ha with ha | ha
    · exact k.isOpen (hstopped ha)
    · exact kstopped ha

instance : IsPreorder (State M) (CloseFrame aborts) where
  refl _ := CloseFrame.append [] (by simp) (by simp) rfl
  trans _ _ _ := CloseFrame.trans

theorem closeFrame_of_view (hlog : t.log = s.log) (h : closeView t = closeView s) :
    CloseFrame aborts s t := CloseFrame.append [] (by simp) (by simpa using hlog) h

variable (cfg : Config M)

theorem closeFrame_call (s : State M) (calls : List Call) (kind : HandlerKind) :
    CloseFrame aborts s { s with calls := calls, log := s.log ++ [.callback kind] } :=
  CloseFrame.append [.callback kind] (by simp [isAbort]) rfl rfl

theorem closeFrame_nullCall (s : State M) :
    CloseFrame aborts s { s with log := s.log ++ [.nullCallback] } :=
  CloseFrame.append [.nullCallback] (by simp [isAbort]) rfl rfl

/-- `start` begins a connection's life; after that every step keeps the frame. -/
def begun (s : State M) : State M := { s with protocol := true, started := true }

theorem start_close (s : State M) : CloseFrame false (begun s) (after (start cfg) s) := by
  have hrest : Evolves (CloseFrame false) (do dvlogInfo cfg; parseIncomingMessage .first) := by
    refine Evolves.bind ?_ fun _ => Evolves.bind ?_ fun _ => ?_
    · exact Evolves.mono (fun _ _ h => closeFrame_of_loop (LoopFrame.of_eq h.1)) (dvlogInfo_silent cfg)
    · exact Evolves.mono (fun _ _ h => closeFrame_of_loop (LoopFrame.of_eq h.1)) updateReadTimer_silent
    · exact evolves_modify fun s => closeFrame_of_view rfl rfl
  exact hrest (begun s)

theorem closeFrame_finish {x : ConnM M Unit} (h : CloseFrame aborts s (after x t)) :
    CloseFrame aborts s (finish x t) := by
  obtain ⟨b, hfinish⟩ := finish_eq x t
  rw [hfinish]
  exact h.trans (closeFrame_of_view rfl rfl)

theorem next_close {e : Event M} (he : Enabled s e) (hstart : e ≠ .start) :
    CloseFrame true s (next cfg s e) := by
  refine next_evolves cfg (fun _ _ h => closeFrame_of_loop h.1)
    (fun s ops n => closeFrame_of_view rfl rfl) closeFrame_call closeFrame_nullCall ?_ he hstart ?_
  · intro msg a
    exact Evolves.mono (fun _ _ => closeFrame_of_loop) (trySendOrEnqueueThen_frame cfg (by simp) msg a)
  · intro i op e _ _ _
    have hlanded : CloseFrame true s { s with writes := s.writes.eraseIdx i } :=
      closeFrame_of_view rfl rfl
    exact hlanded.trans (closeFrame_of_loop (writeHandler_frame cfg op e _))

end Frame

section Ended

variable {M : Type} (cfg : Config M) {s t : State M} {es : List (Event M)}

/-- What is true for good once it has happened. -/
structure Ended (s : State M) : Prop where
  lost : .connectionLost ∈ s.log → s.attached = false
  stopped : .stopped ∈ s.log → s.peer.isOpen = false

theorem Ended.frame {aborts : Bool} (h : Ended s) (hf : CloseFrame aborts s t) : Ended t := by
  obtain ⟨ext, hlog, -, hlost, hstopped⟩ := hf.appended
  constructor
  · intro hmem
    rw [hlog] at hmem
    rcases List.mem_append.mp hmem with hmem | hmem
    · exact hf.attached (h.lost hmem)
    · exact (hlost hmem).1
  · intro hmem
    rw [hlog] at hmem
    rcases List.mem_append.mp hmem with hmem | hmem
    · exact hf.isOpen (h.stopped hmem)
    · exact hstopped hmem

theorem next_ended (h : Ended s) {e : Event M} (he : Enabled s e) : Ended (next cfg s e) := by
  by_cases hstart : e = .start
  · subst hstart
    have hbegun : Ended (begun s) := ⟨h.lost, h.stopped⟩
    exact hbegun.frame (closeFrame_finish (start_close cfg s))
  · exact h.frame (next_close cfg he hstart)

theorem reachable_ended (h : Reachable cfg es s) : Ended s := by
  obtain ⟨uninitialised, hrun⟩ := h
  refine hrun.invariant (fun _ _ hi he => next_ended cfg hi he) ?_
  exact ⟨by simp [initial], by simp [initial]⟩

end Ended

section Stop

variable {M : Type} (cfg : Config M) {s : State M} {es : List (Event M)}

/-- What `stop` is for. -/
structure TornDown (s : State M) : Prop where
  readClosed : s.readClosed = true
  writeClosed : s.writeClosed = true
  readTimer : ∀ w ∈ s.readWaits, w.result.isSome
  writeTimer : ∀ w ∈ s.writeWaits, w.result.isSome
  socket : s.peer.isOpen = false
  protocol : s.protocol = false

/-- `stop` returns without an exception and everything is torn down. -/
def StopCompletes (s : State M) : Prop := ∃ t, stop cfg s = .ok () t ∧ TornDown t

/-- The socket is open and connected, and its next calls succeed: the remote endpoint for the log
line, `shutdown` and `close`. -/
def CanStop (s : State M) : Prop :=
  s.peer.isOpen = true ∧ s.peer.connected = true ∧
    (cfg.vlog = true → cfg.sys s.sysCalls = true) ∧
    cfg.sys (logged cfg s).sysCalls = true ∧ cfg.sys ((logged cfg s).sysCalls + 1) = true

theorem cancelWaits_done (ws : List Wait) : ∀ w ∈ cancelWaits ws, w.result.isSome := by
  simp [cancelWaits, complete]

theorem logged_peer (s : State M) : (logged cfg s).peer = s.peer := by
  unfold logged
  split <;> rfl

theorem logged_flags (s : State M) :
    (logged cfg s).readClosed = true ∧ (logged cfg s).writeClosed = true := by
  unfold logged
  split <;> exact ⟨rfl, rfl⟩

theorem stopped_tornDown (s : State M) :
    TornDown (reset (closed (called (called (cancelled (logged cfg s)))))) := by
  obtain ⟨hread, hwrite⟩ := logged_flags cfg s
  refine ⟨?_, ?_, cancelWaits_done _, cancelWaits_done _, rfl, rfl⟩
  · simpa only [reset, closed, called, cancelled] using hread
  · simpa only [reset, closed, called, cancelled] using hwrite

theorem canStop_iff (s : State M) :
    CanStop cfg s ↔ ¬ (cfg.vlog = true ∧ answers cfg s = false) ∧
      ¬ answers cfg (logged cfg s) = false ∧ ¬ cfg.sys ((logged cfg s).sysCalls + 1) = false := by
  unfold CanStop answers
  rw [logged_peer]
  cases s.peer.isOpen <;> cases s.peer.connected <;> cases cfg.vlog <;> simp

theorem stopCompletes_iff (s : State M) : StopCompletes cfg s ↔ CanStop cfg s := by
  unfold StopCompletes
  rw [canStop_iff, stop_run]
  constructor
  · rintro ⟨t, hrun, -⟩
    split_ifs at hrun with hlog hshutdown hclose
    exact ⟨hlog, hshutdown, hclose⟩
  · rintro ⟨hlog, hshutdown, hclose⟩
    rw [if_neg hlog, if_neg hshutdown, if_neg hclose]
    exact ⟨_, rfl, stopped_tornDown cfg s⟩

variable {cfg}

/-- In every reachable state `stop` completes exactly when the socket is open, connected and
willing; after a stop that did complete, no later one does. -/
theorem stop_completes_iff (h : Reachable cfg es s) :
    (StopCompletes cfg s ↔ CanStop cfg s) ∧ (.stopped ∈ s.log → ¬ StopCompletes cfg s) := by
  refine ⟨stopCompletes_iff cfg s, ?_⟩
  intro hstopped hcompletes
  have hopen := ((stopCompletes_iff cfg s).mp hcompletes).1
  rw [(reachable_ended cfg h).stopped hstopped] at hopen
  cases hopen

theorem stop_completes_after_start :
    CanStop plainConfig (plainRun [.start]) ∧ StopCompletes plainConfig (plainRun [.start]) := by
  have hvalid : ValidTrace (system plainConfig) (initial fun _ => 0) [.start] := by decide
  have hcan : CanStop plainConfig (plainRun [.start]) := ⟨rfl, rfl, fun _ => rfl, rfl, rfl⟩
  exact ⟨hcan, (stop_completes_iff ⟨_, valid_trace_run hvalid⟩).1.mpr hcan⟩

/-- The second `stop` throws at `shutdown` of the closed socket. -/
theorem second_stop_throws :
    Reachable plainConfig [.start, .stop] (plainRun [.start, .stop]) ∧
      ¬ StopCompletes plainConfig (plainRun [.start, .stop]) := by
  have hvalid : ValidTrace (system plainConfig) (initial fun _ => 0) [.start, .stop] := by decide
  refine ⟨⟨_, valid_trace_run hvalid⟩, ?_⟩
  intro h
  have hopen := ((stopCompletes_iff plainConfig _).mp h).1
  revert hopen
  decide

end Stop

section LateHandlers

variable {M : Type} {cfg : Config M} {s : State M} {es : List (Event M)}

/-- The invocation neither went through the null pointer nor ran the wrapped handler. -/
def SafeInvocation (cfg : Config M) (script : Script M) (s : State M) : Prop :=
  ∃ ext, (after (wrappedHandler cfg script) s).log = s.log ++ ext ∧
    .nullConnection ∉ ext ∧ .wrappedRun ∉ ext

theorem wrappedHandler_detached (cfg : Config M) (script : Script M) (h : s.attached = false) :
    wrappedHandler cfg script s = .error .crash { s with log := s.log ++ [.nullConnection] } := by
  change (if s.attached then _ else _ : ConnM M Unit) s = _
  rw [if_neg (by simp [h])]
  rfl

/-- The guard itself goes through the pointer: whenever `connectionLost` was delivered before, an
invocation of a wrapped handler dereferences null. -/
theorem late_handler_never_safe (h : Reachable cfg es s) (hlost : .connectionLost ∈ s.log)
    (script : Script M) :
    ¬ SafeInvocation cfg script s ∧
      wrappedHandler cfg script s = .error .crash { s with log := s.log ++ [.nullConnection] } := by
  have hrun := wrappedHandler_detached cfg script ((reachable_ended cfg h).lost hlost)
  refine ⟨?_, hrun⟩
  rintro ⟨ext, hlog, hnull, -⟩
  rw [after_error hrun] at hlog
  have hext : [.nullConnection] = ext := List.append_cancel_left hlog
  exact hnull (by simp [← hext])

/-- A connection reset, delivered to the read in progress. -/
def lostConnection : List (Event ℕ) :=
  [.start, .completeRead 0 (.other 104) [], .deliverRead 0 ⟨[], false⟩]

theorem late_handler_never_safe_after_reset :
    .connectionLost ∈ (plainRun lostConnection).log ∧
      ¬ SafeInvocation plainConfig ⟨[], false⟩ (plainRun lostConnection) := by
  have hvalid : ValidTrace (system plainConfig) (initial fun _ => 0) lostConnection := by decide
  have hlost : .connectionLost ∈ (plainRun lostConnection).log := by decide
  exact ⟨hlost, (late_handler_never_safe ⟨_, valid_trace_run hvalid⟩ hlost _).1⟩

theorem handler_after_reset_dereferences_null :
    Reachable plainConfig lostConnection (plainRun lostConnection) ∧
      .connectionLost ∈ (plainRun lostConnection).log ∧
      ¬ SafeInvocation plainConfig ⟨[.send 10], false⟩ (plainRun lostConnection) := by
  have hvalid : ValidTrace (system plainConfig) (initial fun _ => 0) lostConnection := by decide
  refine ⟨⟨_, valid_trace_run hvalid⟩, by decide, ?_⟩
  rintro ⟨ext, hlog, hnull, -⟩
  have hrun : (after (wrappedHandler plainConfig ⟨[.send 10], false⟩) (plainRun lostConnection)).log =
      (plainRun lostConnection).log ++ [.nullConnection] := by decide
  have hext : [.nullConnection] = ext := List.append_cancel_left (hrun.symm.trans hlog)
  exact hnull (by simp [← hext])

end LateHandlers

section Once

variable {M : Type} (cfg : Config M) {s t : State M} {es : List (Event M)}

/-- `abort` never ran without a protocol and the protocol was told at most once. -/
def TeardownOnce (log : List Action) : Prop :=
  .nullAbort ∉ log ∧ log.count .connectionLost ≤ 1

/-- The protocol pointer is reset or the protocol was told already: `abort` must not run. -/
def Spent (s : State M) : Prop := s.protocol = false ∨ .connectionLost ∈ s.log

/-- A failure path with this code reaches `abort`: the log line before it, if compiled in, finds
the remote endpoint. -/
def Aborts (logs : Bool) (s : State M) (e : ErrorCode) : Prop :=
  e ≠ .operationAborted ∧ (logs = true → answers cfg s = true)

/-- Once `abort` must not run, no completion is delivered that reaches it. -/
def Orderly (s : State M) : Event M → Prop
  | .deliverRead i _ => ∀ op e, s.reads[i]? = some op → op.result = some e → e ≠ .success →
      Aborts cfg cfg.vlog s e → ¬ Spent s
  | .deliverWrite i => ∀ op e, s.writes[i]? = some op → op.result = some e → e ≠ .success →
      Aborts cfg (!cfg.ndebug) s e → ¬ Spent s
  | .deliverReadWait i => ∀ w e, s.readWaits[i]? = some w → w.result = some e →
      Aborts cfg (!cfg.ndebug) s e → ¬ Spent s
  | .deliverWriteWait i => ∀ w e, s.writeWaits[i]? = some w → w.result = some e →
      Aborts cfg (!cfg.ndebug) s e → ¬ Spent s
  | _ => True

structure Invariant (s : State M) : Prop where
  started : s.started = true
  null : s.protocol = false →
    s.readClosed = true ∧ s.writeClosed = true ∧ s.peer.isOpen = false
  lost : .connectionLost ∈ s.log → s.readClosed = true ∧ s.writeClosed = true
  once : TeardownOnce s.log

theorem once_append {log ext : List Action} (hext : ∀ a ∈ ext, isAbort a = false) :
    TeardownOnce (log ++ ext) ↔ TeardownOnce log := by
  have hnull : .nullAbort ∉ ext := fun hmem => by cases hext _ hmem
  have hlost : .connectionLost ∉ ext := fun hmem => by cases hext _ hmem
  unfold TeardownOnce
  rw [List.mem_append, List.count_append, List.count_eq_zero_of_not_mem hlost]
  simp [hnull]

theorem noAbort_of_frame {ext : List Action}
    (h : ∀ a ∈ ext, isAbort a = true → false = true) : ∀ a ∈ ext, isAbort a = false := by
  intro a ha
  by_contra hne
  cases h a ha (by simpa using hne)

theorem Invariant.frame (h : Invariant s) (hf : CloseFrame false s t) : Invariant t := by
  obtain ⟨ext, hlog, habort, hlost, -⟩ := hf.appended
  refine ⟨hf.started.trans h.started, ?_, ?_, ?_⟩
  · intro hp
    rcases hf.protocol with hsame | ⟨-, hr, hw, ho⟩
    · obtain ⟨hr, hw, ho⟩ := h.null (hsame ▸ hp)
      exact ⟨hf.readClosed hr, hf.writeClosed hw, hf.isOpen ho⟩
    · exact ⟨hr, hw, ho⟩
  · intro hmem
    rw [hlog] at hmem
    rcases List.mem_append.mp hmem with hmem | hmem
    · obtain ⟨hr, hw⟩ := h.lost hmem
      exact ⟨hf.readClosed hr, hf.writeClosed hw⟩
    · exact (hlost hmem).2
  · rw [hlog, once_append (noAbort_of_frame habort)]
    exact h.once

/-- The protocol has not been told that the connection is lost. -/
def Untold (s : State M) : Prop := Invariant s ∧ .connectionLost ∉ s.log

theorem Untold.frame (h : Untold s) (hf : CloseFrame false s t) : Untold t := by
  obtain ⟨ext, hlog, habort, -⟩ := hf.appended
  refine ⟨h.1.frame hf, ?_⟩
  rw [hlog]
  intro hmem
  rcases List.mem_append.mp hmem with hmem | hmem
  · exact h.2 hmem
  · cases noAbort_of_frame habort _ hmem

theorem after_abort (hp : s.protocol = true) :
    after (abort cfg) s = after (stop cfg) (lost s) := by
  unfold after
  rw [abort_attached cfg hp]

theorem abort_invariant (h : Invariant s) (hs : ¬ Spent s) : Invariant (after (abort cfg) s) := by
  unfold Spent at hs
  push Not at hs
  obtain ⟨hnotnull, hnew⟩ := hs
  have hp : s.protocol = true := by simpa using hnotnull
  have hframe : CloseFrame false (lost s) (after (stop cfg) (lost s)) :=
    closeFrame_of_loop (stop_quiet cfg (lost s)).1
  obtain ⟨hread, hwrite⟩ := stop_flags cfg (lost s)
  obtain ⟨ext, hlog, habort, -⟩ := hframe.appended
  rw [after_abort cfg hp]
  refine ⟨hframe.started.trans h.started, ?_, fun _ => ⟨hread, hwrite⟩, ?_⟩
  · intro hnull
    rcases hframe.protocol with hsame | ⟨-, -, -, hopen⟩
    · rw [hsame] at hnull
      exact absurd hnull hnotnull
    · exact ⟨hread, hwrite, hopen⟩
  · rw [hlog, once_append (noAbort_of_frame habort)]
    refine ⟨?_, ?_⟩
    · simpa [lost] using h.once.1
    · simp [lost, List.count_eq_zero_of_not_mem hnew]

/-- Where `abort` must not run, running it breaks the teardown. -/
theorem abort_spent (hs : Spent s) : ¬ TeardownOnce (after (abort cfg) s).log := by
  cases hp : s.protocol with
  | false =>
    rw [after_error (abort_null cfg hp)]
    intro h
    exact h.1 (by simp)
  | true =>
    have htold : .connectionLost ∈ s.log := by
      rcases hs with hnull | htold
      · rw [hp] at hnull
        cases hnull
      · exact htold
    have hframe : LoopFrame false (lost s) _ := (stop_quiet cfg (lost s)).1
    obtain ⟨ext, hext⟩ := hframe.appended
    rw [after_abort cfg hp, hext.log]
    rintro ⟨-, hcount⟩
    have hpos := List.count_pos_iff.mpr htold
    simp only [lost, List.count_append, List.count_singleton_self] at hcount
    omega

theorem failed_run {logs : Bool} {e : ErrorCode} (h : Aborts cfg logs s e) :
    ∃ n, failed cfg logs e s = abort cfg (calledTo s n) := by
  obtain ⟨he, hanswers⟩ := h
  have hrun : failed cfg logs e = (logWhen cfg logs >>= fun _ => abort cfg) := by
    unfold failed abortWith
    rw [if_pos he, if_pos he]
  cases logs with
  | false => exact ⟨s.sysCalls, by rw [hrun]; rfl⟩
  | true =>
    have hlog : logWhen cfg true s = .ok () (called s) :=
      (logInfo_run cfg s).trans (if_pos (hanswers rfl))
    exact ⟨s.sysCalls + 1, by rw [hrun, bind_ok hlog]; rfl⟩

theorem failed_aborts {logs : Bool} {e : ErrorCode} (h : Aborts cfg logs s e) :
    ∃ n, after (failed cfg logs e) s = after (abort cfg) (calledTo s n) := by
  obtain ⟨n, hrun⟩ := failed_run cfg h
  refine ⟨n, ?_⟩
  unfold after
  rw [hrun]

theorem failed_ends {logs : Bool} {e : ErrorCode} (h : ¬ Aborts cfg logs s e) :
    ∃ n, after (failed cfg logs e) s = calledTo s n := by
  by_cases he : e = .operationAborted
  · subst he
    exact ⟨s.sysCalls, rfl⟩
  · obtain ⟨rfl, hno⟩ : logs = true ∧ ¬ answers cfg s = true := by
      unfold Aborts at h
      push Not at h
      exact h he
    have hrun : failed cfg true e = (logWhen cfg true >>= fun _ => abortWith cfg e) := by
      unfold failed
      rw [if_pos he]
    have hlog : logWhen cfg true s = .error .exception (called s) :=
      (logInfo_run cfg s).trans (if_neg hno)
    refine ⟨s.sysCalls + 1, ?_⟩
    rw [hrun]
    exact after_error (bind_error hlog _)

theorem failed_invariant {logs : Bool} {e : ErrorCode} (h : Invariant s)
    (hs : Aborts cfg logs s e → ¬ Spent s) : Invariant (after (failed cfg logs e) s) := by
  have hcalled (n : ℕ) : Invariant (calledTo s n) := h.frame (closeFrame_of_view rfl rfl)
  by_cases ha : Aborts cfg logs s e
  · obtain ⟨n, hrun⟩ := failed_aborts cfg ha
    rw [hrun]
    exact abort_invariant cfg (hcalled n) (hs ha)
  · obtain ⟨n, hrun⟩ := failed_ends cfg ha
    rw [hrun]
    exact hcalled n

theorem failed_spent {logs : Bool} {e : ErrorCode} (ha : Aborts cfg logs s e) (hs : Spent s) :
    ¬ TeardownOnce (after (failed cfg logs e) s).log := by
  obtain ⟨n, hrun⟩ := failed_aborts cfg ha
  rw [hrun]
  exact abort_spent cfg hs

/-- After the callback the socket may be closed and the pointer reset, but then the log line
throws before `abort`. -/
theorem dropped_triple :
    Triple Untold (do droppingLogInfo cfg; abort cfg) (fun _ => Invariant) Invariant := by
  refine triple_iff_after.mpr fun s hs => ?_
  have hcalled : Untold (called s) := hs.frame (closeFrame_of_view rfl rfl)
  cases ha : answers cfg s with
  | false =>
    have hlog : droppingLogInfo cfg s = .error .exception (called s) :=
      (logInfo_run cfg s).trans (if_neg (by simp [ha]))
    rw [after_error (bind_error hlog _)]
    exact hcalled.1
  | true =>
    have hlog : droppingLogInfo cfg s = .ok () (called s) := (logInfo_run cfg s).trans (if_pos ha)
    have hspent : ¬ Spent (called s) := by
      rintro (hnull | htold)
      · have hopen := (hcalled.1.null hnull).2.2
        simp only [answers, Bool.and_eq_true] at ha
        rw [show s.peer.isOpen = false from hopen] at ha
        cases ha.1.1
      · exact hcalled.2 htold
    have hrun : after (do droppingLogInfo cfg; abort cfg) s = after (abort cfg) (called s) := by
      unfold after
      rw [bind_ok hlog]
    rw [hrun]
    exact abort_invariant cfg hcalled.1 hspent

variable (hthrow : ∀ m, cfg.encode m ≠ .error .exception)

theorem untold_triple {α : Type} {x : ConnM M α} (h : Evolves (CloseFrame false) x) :
    Triple Untold x (fun _ => Untold) Untold := h.triple fun _ _ hf hs => hs.frame hf

theorem silent_close {α : Type} {x : ConnM M α} (h : Evolves Silent x) :
    Evolves (CloseFrame false) x :=
  Evolves.mono (fun _ _ h => closeFrame_of_loop (LoopFrame.of_eq h.1)) h

theorem untold_conseq {α : Type} {x : ConnM M α} (h : Evolves (CloseFrame false) x) :
    Triple Untold x (fun _ => Untold) Invariant :=
  (untold_triple h).conseq (fun _ h => h) (fun _ _ h => h) (fun _ h => h.1)

theorem asyncReadOp_close (kind : HandlerKind) (phase : Phase) (buffer : InMessage.Buffer) :
    Evolves (CloseFrame false) (asyncReadOp kind phase buffer : ConnM M Unit) :=
  evolves_modify fun _ => closeFrame_of_view rfl rfl

theorem headerRead_triple (kind : HandlerKind) :
    Triple Untold (headerRead cfg kind) (fun _ => Invariant) Invariant := by
  have hparse : Triple Untold (do
      let buffer ← onInMsg (InMessage.parseHeaderAndGetBodyBuffer cfg.ndebug)
      asyncReadOp kind .body buffer : ConnM M Unit) (fun _ => Invariant) Untold :=
    (untold_triple ((silent_close (onInMsg_silent _)).bind fun _ => asyncReadOp_close kind .body _)).conseq
      (fun _ h => h) (fun _ _ h => h.1) (fun _ h => h)
  refine (untold_conseq (silent_close updateReadTimer_silent)).bind fun _ => hparse.tryCatch fun e => ?_
  cases e with
  | exception => exact dropped_triple cfg
  | crash => exact (triple_throw _).conseq (fun _ h => h.1) (fun _ _ h => h) (fun _ h => h)

include hthrow

theorem bodyRead_triple (kind : HandlerKind) (script : Script M) :
    Triple Untold (bodyRead cfg kind script) (fun _ => Invariant) Invariant := by
  have hsend : Evolves (CloseFrame false) (sendInMsg cfg kind script) := by
    refine sendInMsg_evolves cfg closeFrame_call closeFrame_nullCall (fun script => ?_) kind script
    exact Evolves.mono (fun _ _ => closeFrame_of_loop) (script_frame cfg (fun _ => hthrow) script)
  have hagain : Evolves (CloseFrame false) (parseIncomingMessage .subsequent : ConnM M Unit) :=
    (silent_close updateReadTimer_silent).bind fun _ => asyncReadOp_close _ _ _
  have hrest : Evolves (CloseFrame false) (do
      let s ← get
      if isReceiving s then parseIncomingMessage .subsequent : ConnM M Unit) :=
    Evolves.bind evolves_get fun _ => Evolves.ite (fun _ => hagain) (fun _ => evolves_pure _)
  refine (untold_conseq (silent_close cancelReadTimer_silent)).bind fun _ =>
    (untold_conseq (silent_close (dvlogInfo_silent cfg))).bind fun _ =>
      Triple.bind (Q := fun _ => Untold) ?_ fun threw =>
        Triple.ite (fun _ => dropped_triple cfg) (fun _ => ?_)
  · refine Triple.tryCatch (untold_triple (hsend.bind fun _ => evolves_pure _)) fun e => ?_
    cases e with
    | exception => exact fun _ h => h
    | crash => exact (triple_throw _).conseq (fun _ h => h.1) (fun _ _ h => h) (fun _ h => h)
  · exact (untold_conseq hrest).conseq (fun _ h => h) (fun _ _ h => h.1) (fun _ h => h)

/-- While reading is not closed, the protocol has not been told. -/
theorem received_invariant (h : Invariant s) (op : ReadOp) (script : Script M) :
    Invariant (after (readHandler cfg op .success script) s) := by
  have hrun := readHandler_success cfg op script s
  cases hr : s.readClosed with
  | true =>
    rw [if_pos hr] at hrun
    rw [after_ok hrun]
    exact h
  | false =>
    have huntold : Untold s := by
      refine ⟨h, fun hlost => ?_⟩
      rw [(h.lost hlost).1] at hr
      cases hr
    rw [if_neg (by simp [hr])] at hrun
    have hbody : Triple Untold (dvlogInfo cfg >>= fun _ => received cfg op script)
        (fun _ => Invariant) Invariant := by
      refine (untold_conseq (silent_close (dvlogInfo_silent cfg))).bind fun _ => ?_
      unfold received
      cases op.phase with
      | header => exact headerRead_triple cfg op.handler
      | body => exact bodyRead_triple cfg hthrow op.handler script
    have hafter := triple_iff_after.mp hbody s huntold
    unfold after at hafter ⊢
    rw [hrun]
    exact hafter

omit hthrow in
theorem Invariant.finish {x : ConnM M Unit} (h : Invariant (after x t)) :
    Invariant (Connection.finish x t) := by
  obtain ⟨b, hfinish⟩ := finish_eq x t
  rw [hfinish]
  exact h.frame (closeFrame_of_view rfl rfl)

theorem next_invariant (h : Invariant s) {e : Event M} (he : Enabled s e) (ho : Orderly cfg s e) :
    Invariant (next cfg s e) := by
  have hcall {x : ConnM M Unit} (hx : Evolves (LoopFrame false) x) :
      Invariant (Connection.finish x s) := (h.frame (closeFrame_of_loop (hx s))).finish
  have hsame {u : State M} (hlog : u.log = s.log) (hview : closeView u = closeView s) :
      Invariant u := h.frame (closeFrame_of_view hlog hview)
  cases e with
  | start =>
    have hno : s.started = false := he.2
    rw [h.started] at hno
    cases hno
  | send msg => exact hcall (trySendOrEnqueueThen_frame cfg (fun _ => hthrow) msg .keepSending)
  | sendAndStop msg => exact hcall (trySendOrEnqueueThen_frame cfg (fun _ => hthrow) msg .stop)
  | stop => exact hcall (Evolves.mono (fun _ _ h => h.1) (stop_quiet cfg))
  | stopReceiving => exact hcall (Evolves.mono (fun _ _ h => h.1) (stopReceiving_quiet cfg))
  | stopSending => exact hcall (Evolves.mono (fun _ _ h => h.1) (stopSending_quiet cfg))
  | wrapped script => exact hcall (wrappedHandler_frame cfg (fun _ => hthrow) script)
  | peerDisconnected => exact hsame rfl rfl
  | completeRead i e data =>
    obtain ⟨op, -, -, hnext⟩ := completeRead_next cfg he
    rw [hnext, readCompleted]
    split <;> exact hsame rfl rfl
  | completeWrite i e =>
    obtain ⟨op, -, hnext⟩ := completeWrite_next cfg he
    rw [hnext]
    exact hsame rfl rfl
  | expireRead i e => exact hsame rfl rfl
  | expireWrite i e => exact hsame rfl rfl
  | deliverRead i script =>
    obtain ⟨op, e, hop, hresult, hnext⟩ := deliverRead_next cfg he
    have hbefore : Invariant { s with reads := s.reads.eraseIdx i } := hsame rfl rfl
    rw [hnext]
    by_cases hsuccess : e = .success
    · subst hsuccess
      exact (received_invariant cfg hthrow hbefore op script).finish
    · rw [readHandler_error cfg hsuccess]
      exact (failed_invariant cfg hbefore (ho op e hop hresult hsuccess)).finish
  | deliverWrite i =>
    obtain ⟨op, e, hop, hresult, hnext⟩ := deliverWrite_next cfg he
    have hbefore : Invariant { s with writes := s.writes.eraseIdx i } := hsame rfl rfl
    rw [hnext]
    by_cases hsuccess : e = .success
    · subst hsuccess
      have hframe : Evolves (LoopFrame false) (writeHandler cfg op .success) :=
        written_frame cfg (fun _ => hthrow) op
      exact (hbefore.frame (closeFrame_of_loop (hframe _))).finish
    · rw [writeHandler_error cfg hsuccess]
      exact (failed_invariant cfg hbefore (ho op e hop hresult hsuccess)).finish
  | deliverReadWait i =>
    obtain ⟨op, e, hwait, hnext⟩ := deliverReadWait_next cfg he
    have hbefore : Invariant { s with readWaits := s.readWaits.eraseIdx i } := hsame rfl rfl
    rw [hnext, timerHandler_eq]
    exact (failed_invariant cfg hbefore (ho _ e hwait rfl)).finish
  | deliverWriteWait i =>
    obtain ⟨op, e, hwait, hnext⟩ := deliverWriteWait_next cfg he
    have hbefore : Invariant { s with writeWaits := s.writeWaits.eraseIdx i } := hsame rfl rfl
    rw [hnext, timerHandler_eq]
    exact (failed_invariant cfg hbefore (ho _ e hwait rfl)).finish

omit hthrow in
theorem finish_log (x : ConnM M Unit) (s : State M) : (finish x s).log = (after x s).log := by
  obtain ⟨b, hfinish⟩ := finish_eq x s
  rw [hfinish]

omit hthrow in
theorem disorderly_breaks {e : Event M} (he : Enabled s e) (ho : ¬ Orderly cfg s e) :
    ¬ TeardownOnce (next cfg s e).log := by
  cases e with
  | deliverRead i script =>
    simp only [Orderly, not_forall, not_not] at ho
    obtain ⟨op, e, hop, hresult, hne, ha, hspent⟩ := ho
    obtain ⟨op', e', hop', hresult', hnext⟩ := deliverRead_next cfg he
    obtain rfl : op = op' := Option.some.inj (hop.symm.trans hop')
    obtain rfl : e = e' := Option.some.inj (hresult.symm.trans hresult')
    rw [hnext, finish_log, readHandler_error cfg hne]
    exact failed_spent cfg ha hspent
  | deliverWrite i =>
    simp only [Orderly, not_forall, not_not] at ho
    obtain ⟨op, e, hop, hresult, hne, ha, hspent⟩ := ho
    obtain ⟨op', e', hop', hresult', hnext⟩ := deliverWrite_next cfg he
    obtain rfl : op = op' := Option.some.inj (hop.symm.trans hop')
    obtain rfl : e = e' := Option.some.inj (hresult.symm.trans hresult')
    rw [hnext, finish_log, writeHandler_error cfg hne]
    exact failed_spent cfg ha hspent
  | deliverReadWait i =>
    simp only [Orderly, not_forall, not_not] at ho
    obtain ⟨w, e, hwait, hresult, ha, hspent⟩ := ho
    obtain ⟨op, e', hwait', hnext⟩ := deliverReadWait_next cfg he
    obtain rfl : w = ⟨op, some e'⟩ := Option.some.inj (hwait.symm.trans hwait')
    obtain rfl : e' = e := Option.some.inj hresult
    rw [hnext, finish_log, timerHandler_eq]
    exact failed_spent cfg ha hspent
  | deliverWriteWait i =>
    simp only [Orderly, not_forall, not_not] at ho
    obtain ⟨w, e, hwait, hresult, ha, hspent⟩ := ho
    obtain ⟨op, e', hwait', hnext⟩ := deliverWriteWait_next cfg he
    obtain rfl : w = ⟨op, some e'⟩ := Option.some.inj (hwait.symm.trans hwait')
    obtain rfl : e' = e := Option.some.inj hresult
    rw [hnext, finish_log, timerHandler_eq]
    exact failed_spent cfg ha hspent
  | _ => exact absurd trivial ho

omit hthrow in
theorem once_of_extension {log more : List Action} (h : log <+: more) (ho : TeardownOnce more) :
    TeardownOnce log :=
  ⟨fun hmem => ho.1 (h.subset hmem), (h.sublist.count_le _).trans ho.2⟩

/-- The state of a connection right after `start`. -/
def startedState (uninitialised : ByteMemory.Memory) : State M :=
  next cfg (initial uninitialised) .start

omit hthrow in
theorem started_invariant (uninitialised : ByteMemory.Memory) :
    Invariant (startedState cfg uninitialised) := by
  have hbegun : Invariant (begun (initial uninitialised : State M)) :=
    ⟨rfl, by simp [begun], by simp [begun, initial], by simp [begun, initial, TeardownOnce]⟩
  exact (hbegun.frame (start_close cfg (initial uninitialised))).finish

theorem run_once_iff {uninitialised : ByteMemory.Memory}
    (h : Run (system cfg) (startedState cfg uninitialised) es s) :
    TeardownOnce s.log ↔
      Run ((system cfg).restrict (Orderly cfg)) (startedState cfg uninitialised) es s := by
  constructor
  · intro honce
    induction h with
    | refl => exact .refl
    | @tail es t e hrun he ih =>
      have hgrows := run_log_grows cfg (Run.tail .refl he : Run (system cfg) t [e] _)
      have hbefore := ih (once_of_extension hgrows honce)
      refine hbefore.tail ⟨he, ?_⟩
      by_contra ho
      exact disorderly_breaks cfg he ho honce
  · intro horderly
    refine (horderly.invariant ?_ (started_invariant cfg uninitialised)).once
    rintro t e hi ⟨he, ho⟩
    exact next_invariant cfg hthrow hi he ho

end Once

section Standard

variable {sys : ℕ → Bool} {ndebug vlog : Bool} {uninitialised : ByteMemory.Memory}
  {es : List (Event OutMessage.Message)} {s : State OutMessage.Message}

theorem standardConfig_no_throw (sys : ℕ → Bool) (ndebug vlog : Bool) (m : OutMessage.Message) :
    (standardConfig sys ndebug vlog).encode m ≠ .error .exception := by
  unfold standardConfig
  dsimp only
  cases OutMessage.encode ndebug m <;> simp

/-- In every run of a started connection the teardown happens once if and only if every step of
the run is orderly. -/
theorem teardown_once_iff
    (h : Run (system (standardConfig sys ndebug vlog))
      (startedState (standardConfig sys ndebug vlog) uninitialised) es s) :
    TeardownOnce s.log ↔
      Run ((system (standardConfig sys ndebug vlog)).restrict
        (Orderly (standardConfig sys ndebug vlog)))
        (startedState (standardConfig sys ndebug vlog) uninitialised) es s :=
  run_once_iff _ (standardConfig_no_throw sys ndebug vlog) h

def releaseConfig : Config OutMessage.Message := standardConfig (fun _ => true) true false

def releaseRun (es : List (Event OutMessage.Message)) : State OutMessage.Message :=
  runTrace (system releaseConfig) (startedState releaseConfig fun _ => 0) es

/-- The read times out and then its `operation_aborted` is delivered. -/
def readTimeout : List (Event OutMessage.Message) :=
  [.expireRead 0 .success, .deliverReadWait 0, .deliverRead 0 ⟨[], false⟩]

theorem teardown_once_after_timeout :
    TeardownOnce (releaseRun readTimeout).log ∧
      Run ((system releaseConfig).restrict (Orderly releaseConfig))
        (startedState releaseConfig fun _ => 0) readTimeout (releaseRun readTimeout) := by
  have hvalid : ValidTrace (system releaseConfig) (startedState releaseConfig fun _ => 0) readTimeout := by
    decide
  have honce : TeardownOnce (releaseRun readTimeout).log := by
    unfold TeardownOnce
    decide
  exact ⟨honce, (teardown_once_iff (valid_trace_run hvalid)).mp honce⟩

/-- The read fails when its timer has expired already. -/
def resetAndTimeout : List (Event OutMessage.Message) :=
  [.expireRead 0 .success, .completeRead 0 (.other 104) [], .deliverRead 0 ⟨[], false⟩,
    .deliverReadWait 0]

/-- The first completion aborts and resets the pointer, the second one aborts through it. -/
theorem reset_and_timeout_abort_twice :
    ValidTrace (system releaseConfig) (startedState releaseConfig fun _ => 0) resetAndTimeout ∧
      ¬ TeardownOnce (releaseRun resetAndTimeout).log := by
  refine ⟨by decide, ?_⟩
  rintro ⟨hnull, -⟩
  revert hnull
  decide

end Standard

end Teardown

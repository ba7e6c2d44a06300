import Otservpp.IntervalTask

/-! # Who keeps an interval task

An `IntervalTask` with its owners: the pointers that clients hold, the handlers that were not
dispatched and the functions that have not ended. A function with two parameters may use the pointer
it was given while it runs, one with a single parameter has none; the scheduler wraps what it calls
in one of these. -/
namespace IntervalOwners

open EventSystem TimerWaits
open Connection (ErrorCode)
open IntervalTask (pendingWaits)

structure State where
  task : IntervalTask.State
  handles : ℕ
  deriving DecidableEq, Repr

inductive Event where
  | task (e : IntervalTask.Event)
  | copy
  | drop
  deriving DecidableEq, Repr

section Owners

/-- `makeIntervalTask` starts the task and returns its first owner. -/
def makeIntervalTask (ms : ℤ) : State := ⟨IntervalTask.start (IntervalTask.initial ms), 1⟩

/-- The timer or the service still holds the handler of the wait. -/
def kept (w : Wait Bool) : Bool := !isDispatched w.stage

def owners (s : State) : ℕ := s.handles + s.task.waits.countP kept + s.task.running.length

/-- The calls that need a pointer to the task. -/
def byPointer : IntervalTask.Event → Bool
  | .start | .reschedule | .rescheduleMs _ | .cancel => true
  | .expire _ | .dispatch _ | .finish .. => false

/-- `binary` says whether the bound function takes the pointer. -/
def Enabled (binary : Bool) (s : State) : Event → Prop
  | .task e => IntervalTask.Enabled s.task e ∧
      (byPointer e = true → 0 < s.handles ∨ binary = true ∧ s.task.running ≠ [])
  | .copy => 0 < s.handles ∨ binary = true ∧ s.task.running ≠ []
  | .drop => 0 < s.handles

def next (s : State) : Event → State
  | .task e => { s with task := IntervalTask.next s.task e }
  | .copy => { s with handles := s.handles + 1 }
  | .drop => { s with handles := s.handles - 1 }

def system (binary : Bool) : System State Event := ⟨Enabled binary, next⟩

def Destroyed (s : State) : Prop := owners s = 0

end Owners

section Restless

variable {s t : State} {e : Event} {fs : List Event} {c : ErrorCode}

/-- Some wait will call the bound function with another code than `operation_aborted`. -/
def Restless (s : IntervalTask.State) : Prop := ∃ w ∈ s.waits, w.stage.live = true

theorem expire_restless {u : IntervalTask.State} (h : Restless u) (hc : c ≠ .operationAborted) :
    Restless (IntervalTask.next u (.expire c)) := by
  obtain ⟨w, hw, hlive⟩ := h
  exact ⟨_, List.mem_map_of_mem hw, complete_stays_live hc hlive⟩

/-- The interval logic has armed the task again before the function is called. -/
theorem dispatch_restless {u : IntervalTask.State} (h : Restless u) {i : ℕ}
    (he : IntervalTask.Enabled u (.dispatch i)) :
    Restless (IntervalTask.next u (.dispatch i)) := by
  obtain ⟨own, c, hi⟩ := queued_of_isQueued he
  by_cases hc : c = .operationAborted
  · subst hc
    obtain ⟨w, hw, hlive⟩ := h
    obtain ⟨j, hj⟩ := List.mem_iff_getElem?.mp hw
    have hne : i ≠ j := by
      rintro rfl
      rw [Option.some.inj (hj.symm.trans hi)] at hlive
      simp [Stage.live] at hlive
    have hwaits : (IntervalTask.next u (.dispatch i)).waits =
        u.waits.set i ⟨own, .dispatched .operationAborted⟩ := by
      rw [IntervalTask.next, IntervalTask.dispatch_queued hi]
      rfl
    refine ⟨w, ?_, hlive⟩
    rw [hwaits]
    exact List.mem_of_getElem? ((List.getElem?_set_ne hne).trans hj)
  · exact ⟨_, List.mem_of_getElem? (IntervalTask.dispatch_live_armed hc hi), rfl⟩

theorem finish_waits (u : IntervalTask.State) (j : ℕ) (throws : Bool) :
    (IntervalTask.next u (.finish j throws)).waits = u.waits := by
  rw [IntervalTask.next, IntervalTask.finish]
  split <;> rfl

/-- Without an owner that could cancel it the task goes on. -/
theorem next_restless (h : s.handles = 0 ∧ Restless s.task) (he : Enabled false s e) :
    (next s e).handles = 0 ∧ Restless (next s e).task := by
  have hnobody : ¬ (0 < s.handles ∨ false = true ∧ s.task.running ≠ []) := by simp [h.1]
  cases e with
  | task e =>
    refine ⟨h.1, ?_⟩
    cases e with
    | start | reschedule | rescheduleMs | cancel => exact absurd (he.2 rfl) hnobody
    | expire c => exact expire_restless h.2 he.1.2
    | dispatch i => exact dispatch_restless h.2 he.1
    | finish j throws =>
      obtain ⟨w, hw, hlive⟩ := h.2
      exact ⟨w, (finish_waits s.task j throws).symm ▸ hw, hlive⟩
  | copy => exact absurd he hnobody
  | drop => exact absurd (show 0 < s.handles from he) (by simp [h.1])

theorem Restless.not_destroyed (h : Restless s.task) : ¬ Destroyed s := by
  obtain ⟨w, hw, hlive⟩ := h
  intro hdestroyed
  have hzero : s.task.waits.countP kept = 0 := by
    simp only [Destroyed, owners] at hdestroyed
    omega
  have hnot := List.countP_eq_zero.mp hzero w hw
  cases hstage : w.stage with
  | dispatched c => simp [hstage, Stage.live] at hlive
  | pending | queued => simp [kept, hstage, isDispatched] at hnot

end Restless

section Ending

variable {binary : Bool} {s t u : State} {e : Event}

/-- The task can come to this state. -/
def Reaches (binary : Bool) (s t : State) : Prop := ∃ fs, Run (system binary) s fs t

theorem Reaches.refl (binary : Bool) (s : State) : Reaches binary s s := ⟨[], .refl⟩

theorem Reaches.trans (h : Reaches binary s t) (k : Reaches binary t u) : Reaches binary s u := by
  obtain ⟨fs, hrun⟩ := h
  obtain ⟨gs, krun⟩ := k
  exact ⟨fs ++ gs, hrun.trans krun⟩

theorem Reaches.step (he : Enabled binary s e) : Reaches binary s (next s e) :=
  ⟨[e], Run.tail .refl he⟩

theorem drop_handles (m : ℕ) (hhandles : s.handles = m)
    (hwaits : s.task.waits.countP kept = 0)
    (hrunning : s.task.running = []) : ∃ t, Reaches binary s t ∧ Destroyed t := by
  induction m generalizing s with
  | zero => exact ⟨s, Reaches.refl binary s, by simp [Destroyed, owners, hhandles, hwaits, hrunning]⟩
  | succ m ih =>
    have hdrop : Enabled binary s .drop := by
      change 0 < s.handles
      omega
    have hless : (next s .drop).handles = m := by
      change s.handles - 1 = m
      omega
    obtain ⟨t, hreach, hdestroyed⟩ := ih hless hwaits hrunning
    exact ⟨t, (Reaches.step hdrop).trans hreach, hdestroyed⟩

theorem finish_running (m : ℕ) (hlength : s.task.running.length = m)
    (hwaits : s.task.waits.countP kept = 0) :
    ∃ t, Reaches binary s t ∧ Destroyed t := by
  induction m generalizing s with
  | zero => exact drop_handles _ rfl hwaits (List.length_eq_zero_iff.mp hlength)
  | succ m ih =>
    have hlt : 0 < s.task.running.length := by omega
    have he : Enabled binary s (.task (.finish 0 false)) := ⟨hlt, fun h => by cases h⟩
    obtain ⟨⟨i, c⟩, rest, hcons⟩ := List.exists_cons_of_length_pos hlt
    have hless : (next s (.task (.finish 0 false))).task.running.length = m := by
      rw [hcons] at hlength
      simp only [next, IntervalTask.next, IntervalTask.finish, hcons]
      exact Nat.succ.inj hlength
    obtain ⟨t, hreach, hdestroyed⟩ := ih hless ((finish_waits s.task 0 false).symm ▸ hwaits)
    exact ⟨t, (Reaches.step he).trans hreach, hdestroyed⟩

theorem exists_of_countP {p : Wait Bool → Bool} {ws : List (Wait Bool)} {m : ℕ}
    (hcount : ws.countP p = m + 1) : ∃ (i : ℕ) (w : Wait Bool), ws[i]? = some w ∧ p w = true := by
  have hpos : 0 < ws.countP p := by omega
  obtain ⟨w, hw, hp⟩ := List.countP_pos_iff.mp hpos
  obtain ⟨i, hi⟩ := List.mem_iff_getElem?.mp hw
  exact ⟨i, w, hi, hp⟩

/-- The handlers of aborted waits only call the function. -/
theorem dispatch_aborted {u : IntervalTask.State} {i : ℕ} {own : Bool}
    (hi : u.waits[i]? = some ⟨own, .queued .operationAborted⟩) :
    (IntervalTask.next u (.dispatch i)).waits =
      u.waits.set i ⟨own, .dispatched .operationAborted⟩ := by
  rw [IntervalTask.next, IntervalTask.dispatch_queued hi]
  rfl

theorem dispatch_all (m : ℕ) (hcount : s.task.waits.countP kept = m)
    (hquiet : ¬ Restless s.task) : ∃ t, Reaches binary s t ∧ Destroyed t := by
  induction m generalizing s with
  | zero => exact finish_running _ rfl hcount
  | succ m ih =>
    obtain ⟨i, ⟨own, stage⟩, hi, hkept⟩ := exists_of_countP hcount
    have hdead : stage.live = false := by
      by_contra hlive
      exact hquiet ⟨_, List.mem_of_getElem? hi, by simpa using hlive⟩
    obtain rfl : stage = .queued .operationAborted := by
      cases stage with
      | pending => cases hdead
      | dispatched c => cases hkept
      | queued c => simpa [Stage.live] using hdead
    have he : Enabled binary s (.task (.dispatch i)) := ⟨⟨_, hi, rfl⟩, fun h => by cases h⟩
    have hwaits := dispatch_aborted hi
    obtain ⟨hlt, hget⟩ := List.getElem?_eq_some_iff.mp hi
    have hless : (next s (.task (.dispatch i))).task.waits.countP kept = m := by
      change (IntervalTask.next s.task (.dispatch i)).waits.countP kept = m
      rw [hwaits, List.countP_set hlt, hget, hcount]
      simp [kept, isDispatched]
    have hstill : ¬ Restless (next s (.task (.dispatch i))).task := by
      rintro ⟨w, hw, hlive⟩
      change w ∈ (IntervalTask.next s.task (.dispatch i)).waits at hw
      rw [hwaits] at hw
      rcases List.mem_or_eq_of_mem_set hw with hold | rfl
      · exact hquiet ⟨w, hold, hlive⟩
      · cases hlive
    obtain ⟨t, hreach, hdestroyed⟩ := ih hless hstill
    exact ⟨t, (Reaches.step he).trans hreach, hdestroyed⟩

/-- Somebody can use the task. -/
def Access (binary : Bool) (s : State) : Prop :=
  0 < s.handles ∨ binary = true ∧ s.task.running ≠ []

/-- A handler is queued that will arm the task again. -/
def queuedLive (w : Wait Bool) : Bool := w.stage.live && isQueued w.stage

theorem dispatch_live {u : IntervalTask.State} {i : ℕ} {own : Bool} {c : ErrorCode}
    (hc : c ≠ .operationAborted) (hi : u.waits[i]? = some ⟨own, .queued c⟩) :
    (IntervalTask.next u (.dispatch i)).waits =
      (u.waits.set i ⟨own, .dispatched c⟩).map (Wait.complete .operationAborted) ++
        [⟨true, .pending⟩] ∧
      (IntervalTask.next u (.dispatch i)).running = u.running ++ [(i, c)] := by
  rw [IntervalTask.next, IntervalTask.dispatch_queued hi, IntervalTask.fn,
    IntervalTask.intervalLogic, if_pos (Or.inr hc)]
  exact ⟨rfl, rfl⟩

theorem queuedLive_complete (w : Wait Bool) :
    queuedLive (w.complete .operationAborted) = queuedLive w := by
  unfold Wait.complete
  split
  · next hstage => simp [queuedLive, hstage, Stage.live, isQueued]
  · rfl

/-- Whoever can use the task waits until no handler is queued that will arm it again, and cancels
it. -/
theorem cancel_all (m : ℕ) (hcount : s.task.waits.countP queuedLive = m)
    (haccess : Access binary s) : ∃ t, Reaches binary s t ∧ Destroyed t := by
  induction m generalizing s with
  | zero =>
    have he : Enabled binary s (.task .cancel) := ⟨trivial, fun _ => haccess⟩
    have hquiet : ¬ Restless (next s (.task .cancel)).task := by
      rintro ⟨w, hw, hlive⟩
      obtain ⟨v, hv, hvlive, hvqueued⟩ := live_aborted hw hlive
      exact absurd (List.countP_eq_zero.mp hcount v hv) (by simp [queuedLive, hvlive, hvqueued])
    obtain ⟨t, hreach, hdestroyed⟩ := dispatch_all _ rfl hquiet
    exact ⟨t, (Reaches.step he).trans hreach, hdestroyed⟩
  | succ m ih =>
    obtain ⟨i, ⟨own, stage⟩, hi, hlive⟩ := exists_of_countP hcount
    obtain ⟨c, rfl, hc⟩ : ∃ c, stage = .queued c ∧ c ≠ .operationAborted := by
      cases stage with
      | pending => cases hlive
      | dispatched c => cases hlive
      | queued c =>
        exact ⟨c, rfl, by simpa [queuedLive, Stage.live, isQueued] using hlive⟩
    have he : Enabled binary s (.task (.dispatch i)) := ⟨⟨_, hi, rfl⟩, fun h => by cases h⟩
    obtain ⟨hwaits, hrunning⟩ := dispatch_live hc hi
    obtain ⟨hlt, hget⟩ := List.getElem?_eq_some_iff.mp hi
    have hless : (next s (.task (.dispatch i))).task.waits.countP queuedLive = m := by
      change (IntervalTask.next s.task (.dispatch i)).waits.countP queuedLive = m
      have hsame : queuedLive ∘ Wait.complete .operationAborted = queuedLive :=
        funext queuedLive_complete
      rw [hwaits, List.countP_append, List.countP_map, hsame, List.countP_set hlt, hget, hcount,
        if_pos hlive]
      rfl
    have hstill : Access binary (next s (.task (.dispatch i))) := by
      refine haccess.imp_right fun hrun => ⟨hrun.1, ?_⟩
      change (IntervalTask.next s.task (.dispatch i)).running ≠ []
      simp [hrunning]
    obtain ⟨t, hreach, hdestroyed⟩ := ih hless hstill
    exact ⟨t, (Reaches.step he).trans hreach, hdestroyed⟩

/-- A function that takes the pointer gets it when a live wait is dispatched. -/
theorem access_of_restless (h : Restless s.task) : ∃ t, Reaches true s t ∧ Access true t := by
  have hdispatch {u : State} {i : ℕ} {own : Bool} {c : ErrorCode} (hc : c ≠ .operationAborted)
      (hi : u.task.waits[i]? = some ⟨own, .queued c⟩) : ∃ t, Reaches true u t ∧ Access true t := by
    have he : Enabled true u (.task (.dispatch i)) := ⟨⟨_, hi, rfl⟩, fun h => by cases h⟩
    refine ⟨_, Reaches.step he, Or.inr ⟨rfl, ?_⟩⟩
    change (IntervalTask.next u.task (.dispatch i)).running ≠ []
    simp [(dispatch_live hc hi).2]
  obtain ⟨⟨own, stage⟩, hw, hlive⟩ := h
  obtain ⟨i, hi⟩ := List.mem_iff_getElem?.mp hw
  cases stage with
  | dispatched c => cases hlive
  | queued c => exact hdispatch (by simpa [Stage.live] using hlive) hi
  | pending =>
    have hpending : i ∈ pendingWaits s.task := mem_pending.mpr ⟨_, hi, rfl⟩
    have he : Enabled true s (.task (.expire .success)) :=
      ⟨⟨List.ne_nil_of_mem hpending, by decide⟩, fun h => by cases h⟩
    have hqueued : (next s (.task (.expire .success))).task.waits[i]? =
        some ⟨own, .queued .success⟩ := by
      change (s.task.waits.map _)[i]? = _
      rw [List.getElem?_map, hi]
      rfl
    obtain ⟨t, hreach, haccess⟩ := hdispatch (by decide) hqueued
    exact ⟨t, (Reaches.step he).trans hreach, haccess⟩

/-- An interval task can still come to its end exactly if a client holds it, or the bound function
takes the pointer to it, or no wait is left that arms it again. -/
theorem ends_iff (binary : Bool) (s : State) :
    (∃ t, Reaches binary s t ∧ Destroyed t) ↔
      0 < s.handles ∨ binary = true ∨ ¬ Restless s.task := by
  constructor
  · rintro ⟨t, ⟨fs, hrun⟩, hdestroyed⟩
    by_contra hnot
    simp only [not_or, not_not, Bool.not_eq_true] at hnot
    obtain ⟨hhandles, rfl, hrestless⟩ := hnot
    have hend : t.handles = 0 ∧ Restless t.task :=
      hrun.invariant (I := fun u => u.handles = 0 ∧ Restless u.task)
        (fun _ _ hu he => next_restless hu he) ⟨by omega, hrestless⟩
    exact hend.2.not_destroyed hdestroyed
  · rintro (hhandles | rfl | hquiet)
    · exact cancel_all _ rfl (Or.inl hhandles)
    · by_cases hrestless : Restless s.task
      · obtain ⟨t, hreach, haccess⟩ := access_of_restless hrestless
        obtain ⟨u, hmore, hdestroyed⟩ := cancel_all _ rfl haccess
        exact ⟨u, hreach.trans hmore, hdestroyed⟩
      · exact dispatch_all _ rfl hrestless
    · exact dispatch_all _ rfl hquiet

theorem makeIntervalTask_restless (ms : ℤ) : Restless (makeIntervalTask ms).task :=
  ⟨_, List.mem_singleton_self _, rfl⟩

end Ending

end IntervalOwners

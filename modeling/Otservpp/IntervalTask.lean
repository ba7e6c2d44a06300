import Otservpp.TimerWaits

/-! # Interval tasks

`IntervalTask` with its deadline timer. Waits remember whether it was the interval logic that
registered them. The bound function does what it likes: what it calls on its task and what other
clients call are the same events. -/
namespace IntervalTask

open EventSystem TimerWaits
open Connection (ErrorCode)

/-- Whether the interval logic registered it is given with each wait. -/
abbrev Wait := TimerWaits.Wait Bool

/-- `armed i own` is the registration of a wait, `cancelled` what `cancel` returned. -/
inductive Action where
  | armed (i : ℕ) (own : Bool)
  | aborted (i : ℕ)
  | called (i : ℕ) (e : ErrorCode)
  | finished (i : ℕ) (threw : Bool)
  | cancelled (result : Bool)
  deriving DecidableEq, Repr

/-- `running` are the invocations of the bound function that have not ended. -/
structure State where
  ms : ℤ
  expiresIn : ℤ
  waits : List Wait
  running : List (ℕ × ErrorCode)
  log : List Action
  deriving DecidableEq, Repr

def initial (ms : ℤ) : State := ⟨ms, 0, [], [], []⟩

section Timer

/-- The waits in progress, by number. -/
def pendingWaits (s : State) : List ℕ := pending s.waits

def abortPending (s : State) : State :=
  { s with
    waits := s.waits.map (Wait.complete .operationAborted)
    log := s.log ++ (pendingWaits s).map .aborted }

def expiresFromNow (ms : ℤ) (s : State) : State := { abortPending s with expiresIn := ms }

def asyncWait (own : Bool) (s : State) : State :=
  { s with
    waits := s.waits ++ [⟨own, .pending⟩]
    log := s.log ++ [.armed s.waits.length own] }

end Timer

section Task

def schedule (own : Bool) (ms : ℤ) (s : State) : State := asyncWait own (expiresFromNow ms s)

def reschedule (own : Bool) (s : State) : State := schedule own s.ms s

def rescheduleMs (millisec : ℤ) (s : State) : State := reschedule false { s with ms := millisec }

def start (s : State) : State := reschedule false s

/-- The number of waits that the timer cancelled decides what is returned. -/
def cancel (s : State) : State :=
  { abortPending s with log := (abortPending s).log ++ [.cancelled (0 < (pendingWaits s).length)] }

/-- The re-arming at the start of `fn`. -/
def intervalLogic (e : ErrorCode) (s : State) : State :=
  if e = .success ∨ e ≠ .operationAborted then reschedule true s else s

def callFunc (i : ℕ) (e : ErrorCode) (s : State) : State :=
  { s with running := s.running ++ [(i, e)], log := s.log ++ [.called i e] }

/-- `fn`, the handler of every wait. -/
def fn (i : ℕ) (e : ErrorCode) (s : State) : State := callFunc i e (intervalLogic e s)

end Task

/-- `expire` is the timer completing what is in progress, `dispatch` the service running a queued
handler, `finish` the end of an invocation of the bound function. -/
inductive Event where
  | start
  | reschedule
  | rescheduleMs (millisec : ℤ)
  | cancel
  | expire (e : ErrorCode)
  | dispatch (i : ℕ)
  | finish (j : ℕ) (throws : Bool)
  deriving DecidableEq, Repr

/-- Only a cancellation completes a wait with `operation_aborted`. -/
def Enabled (s : State) : Event → Prop
  | .expire e => pendingWaits s ≠ [] ∧ e ≠ .operationAborted
  | .dispatch i => ∃ w ∈ s.waits[i]?, isQueued w.stage = true
  | .finish j _ => j < s.running.length
  | _ => True

def dispatch (i : ℕ) (s : State) : State :=
  match s.waits[i]? with
  | some ⟨own, .queued e⟩ => fn i e { s with waits := s.waits.set i ⟨own, .dispatched e⟩ }
  | _ => s

def finish (j : ℕ) (throws : Bool) (s : State) : State :=
  match s.running[j]? with
  | some (i, _) => { s with running := s.running.eraseIdx j, log := s.log ++ [.finished i throws] }
  | none => s

def next (s : State) : Event → State
  | .start => start s
  | .reschedule => reschedule false s
  | .rescheduleMs millisec => rescheduleMs millisec s
  | .cancel => cancel s
  | .expire e => { s with waits := s.waits.map (Wait.complete e) }
  | .dispatch i => dispatch i s
  | .finish j throws => finish j throws s

def system : System State Event := ⟨Enabled, next⟩

def Reachable (ms : ℤ) (es : List Event) (s : State) : Prop := Run system (initial ms) es s

instance (s : State) : (e : Event) → Decidable (Enabled s e)
  | .start => isTrue trivial
  | .reschedule => isTrue trivial
  | .rescheduleMs _ => isTrue trivial
  | .cancel => isTrue trivial
  | .expire e => inferInstanceAs (Decidable (pendingWaits s ≠ [] ∧ e ≠ .operationAborted))
  | .dispatch i => inferInstanceAs (Decidable (∃ w ∈ s.waits[i]?, isQueued w.stage = true))
  | .finish j _ => inferInstanceAs (Decidable (j < s.running.length))

instance (s : State) (e : Event) : Decidable (system.Enabled s e) :=
  inferInstanceAs (Decidable (Enabled s e))

section Cancelling

variable {s : State} {log ext : List Action} {w : Wait} {e : ErrorCode}

/-- After a `cancel` that returned true the bound function is called with a success code only if a
client armed the task again in between. -/
def StaysCancelled (log : List Action) : Prop :=
  ∀ pre mid post i, log = pre ++ .cancelled true :: mid ++ .called i .success :: post →
    ∃ k, .armed k false ∈ mid

/-- A `cancel` returned true and no client armed the task since. -/
def Quiet (log : List Action) : Prop :=
  ∃ pre mid, log = pre ++ .cancelled true :: mid ∧ ∀ k, .armed k false ∉ mid

/-- A `cancel` that finds a wait in progress while the handler of an expired one is queued. -/
def Overtaken (s : State) : Event → Prop
  | .cancel => pendingWaits s ≠ [] ∧
      ∃ w ∈ s.waits, w.stage.live = true ∧ isQueued w.stage = true
  | _ => False

structure CancelInvariant (s : State) : Prop where
  quiet : Quiet s.log → ∀ w ∈ s.waits, w.stage.live = false
  stays : StaysCancelled s.log

theorem staysCancelled_iff :
    StaysCancelled log ↔ ∀ front i post, log = front ++ .called i .success :: post → ¬ Quiet front := by
  constructor
  · rintro h front i post hlog ⟨pre, mid, hfront, hnone⟩
    obtain ⟨k, hk⟩ := h pre mid post i (by rw [hlog, hfront])
    exact hnone k hk
  · intro h pre mid post i hlog
    by_contra hnone
    push Not at hnone
    exact h (pre ++ .cancelled true :: mid) i post hlog ⟨pre, mid, rfl, hnone⟩

theorem quiet_append (h : Quiet (log ++ ext)) (hext : .cancelled true ∉ ext) :
    Quiet log ∧ ∀ k, .armed k false ∉ ext := by
  obtain ⟨pre, mid, hlog, hnone⟩ := h
  rcases append_split hlog with ⟨rest, hold, hmid⟩ | ⟨front, -, hnew⟩
  · rw [hmid] at hnone
    simp only [List.mem_append, not_or] at hnone
    exact ⟨⟨pre, rest, hold, fun k => (hnone k).1⟩, fun k => (hnone k).2⟩
  · exact absurd (by rw [hnew]; simp) hext

/-- New entries keep the order as long as calls with success come from a task that is not quiet. -/
theorem staysCancelled_append (h : StaysCancelled log)
    (hext : ∀ front i post, ext = front ++ .called i .success :: post → ¬ Quiet (log ++ front)) :
    StaysCancelled (log ++ ext) := by
  rw [staysCancelled_iff] at h ⊢
  intro front i post hlog
  rcases append_split hlog with ⟨rest, hold, -⟩ | ⟨new, hfront, hnew⟩
  · exact h front i rest hold
  · rw [hfront]
    exact hext new i post hnew

theorem staysCancelled_uncalled (h : StaysCancelled log) (hext : ∀ i, .called i .success ∉ ext) :
    StaysCancelled (log ++ ext) := by
  refine staysCancelled_append h fun front i post hsplit => ?_
  exact absurd (by rw [hsplit]; simp) (hext i)

theorem abortPending_log : (abortPending s).log = s.log ++ (pendingWaits s).map .aborted := rfl

theorem abortPending_invariant (h : CancelInvariant s) : CancelInvariant (abortPending s) := by
  refine ⟨fun hquiet w hw => ?_, staysCancelled_uncalled h.stays (by simp)⟩
  rw [abortPending_log] at hquiet
  have hbefore := (quiet_append hquiet (by simp)).1
  by_contra hlive
  obtain ⟨v, hv, hvlive, -⟩ := live_aborted hw (by simpa using hlive)
  rw [h.quiet hbefore v hv] at hvlive
  cases hvlive

/-- A client that arms the task ends its being quiet. -/
theorem reschedule_client_invariant (h : CancelInvariant s) : CancelInvariant (reschedule false s) := by
  have haborted := abortPending_invariant h
  refine ⟨fun hquiet => ?_, staysCancelled_uncalled haborted.stays (by simp)⟩
  have hnone : ∀ k, .armed k false ∉ [Action.armed (abortPending s).waits.length false] :=
    (quiet_append hquiet (by simp)).2
  exact absurd List.mem_cons_self (hnone _)

theorem cancel_invariant (h : CancelInvariant s) (ho : ¬ Overtaken s .cancel) :
    CancelInvariant (cancel s) := by
  have haborted := abortPending_invariant h
  refine ⟨fun hquiet w hw => ?_, staysCancelled_uncalled haborted.stays (by simp)⟩
  by_contra hlive
  have hvlive := live_aborted hw (by simpa using hlive)
  by_cases hpending : pendingWaits s = []
  · have hresult : .cancelled true ∉ [Action.cancelled (0 < (pendingWaits s).length)] := by
      simp [hpending]
    have hbefore : Quiet (abortPending s).log := (quiet_append hquiet hresult).1
    rw [haborted.quiet hbefore w hw] at hlive
    exact hlive rfl
  · exact ho ⟨hpending, hvlive⟩

theorem finish_invariant (h : CancelInvariant s) (j : ℕ) (throws : Bool) :
    CancelInvariant (finish j throws s) := by
  unfold finish
  split
  · refine ⟨fun hquiet => h.quiet (quiet_append hquiet (by simp)).1, ?_⟩
    exact staysCancelled_uncalled h.stays (by simp)
  · exact h

theorem dispatch_queued {i : ℕ} {own : Bool} (hi : s.waits[i]? = some ⟨own, .queued e⟩) :
    dispatch i s = fn i e { s with waits := s.waits.set i ⟨own, .dispatched e⟩ } := by
  rw [dispatch, hi]

/-- The handler of an aborted wait only calls the bound function. -/
theorem dispatch_aborted_invariant (h : CancelInvariant s) {i : ℕ} {own : Bool}
    (hi : s.waits[i]? = some ⟨own, .queued .operationAborted⟩) :
    CancelInvariant (dispatch i s) := by
  have hrun : dispatch i s = callFunc i .operationAborted
      { s with waits := s.waits.set i ⟨own, .dispatched .operationAborted⟩ } := by
    simp [dispatch_queued hi, fn, intervalLogic]
  rw [hrun]
  refine ⟨fun hquiet w hw => ?_, staysCancelled_uncalled h.stays (by simp)⟩
  have hbefore := (quiet_append hquiet (by simp)).1
  rcases List.mem_or_eq_of_mem_set hw with hold | rfl
  · exact h.quiet hbefore w hold
  · rfl

/-- The handler of a wait that completed otherwise re-arms the task and calls the function. -/
theorem dispatch_live_log {i : ℕ} {own : Bool} (he : e ≠ .operationAborted)
    (hi : s.waits[i]? = some ⟨own, .queued e⟩) :
    ∃ is : List ℕ, (dispatch i s).log =
      s.log ++ (is.map .aborted ++ [.armed s.waits.length true, .called i e]) := by
  refine ⟨pendingWaits { s with waits := s.waits.set i ⟨own, .dispatched e⟩ }, ?_⟩
  rw [dispatch_queued hi, fn, intervalLogic, if_pos (Or.inr he)]
  simp [callFunc, reschedule, schedule, asyncWait, expiresFromNow, abortPending]

theorem dispatch_live_armed {i : ℕ} {own : Bool} (he : e ≠ .operationAborted)
    (hi : s.waits[i]? = some ⟨own, .queued e⟩) :
    (dispatch i s).waits[s.waits.length]? = some ⟨true, .pending⟩ := by
  rw [dispatch_queued hi, fn, intervalLogic, if_pos (Or.inr he)]
  simp [callFunc, reschedule, schedule, asyncWait, expiresFromNow, abortPending]

/-- A wait that completed otherwise is dispatched only while the task is not quiet. -/
theorem dispatch_live_invariant (h : CancelInvariant s) {i : ℕ} {own : Bool} (he : e ≠ .operationAborted)
    (hi : s.waits[i]? = some ⟨own, .queued e⟩) : CancelInvariant (dispatch i s) := by
  have hloud : ¬ Quiet s.log := by
    intro hquiet
    have hdead := h.quiet hquiet _ (List.mem_of_getElem? hi)
    simp [Stage.live, he] at hdead
  obtain ⟨is, hlog⟩ := dispatch_live_log he hi
  constructor
  · intro hquiet
    rw [hlog] at hquiet
    exact absurd (quiet_append hquiet (by simp)).1 hloud
  · rw [hlog]
    refine staysCancelled_append h.stays fun front k post hsplit hquiet => ?_
    have hfront : .cancelled true ∉ front := by
      intro hmem
      have hin : Action.cancelled true ∈
          is.map Action.aborted ++ [.armed s.waits.length true, .called i e] := by
        rw [hsplit]
        exact List.mem_append_left _ hmem
      simp at hin
    exact hloud (quiet_append hquiet hfront).1

theorem next_cancelInvariant (h : CancelInvariant s) {event : Event} (he : Enabled s event)
    (ho : ¬ Overtaken s event) : CancelInvariant (next s event) := by
  cases event with
  | start => exact reschedule_client_invariant h
  | reschedule => exact reschedule_client_invariant h
  | rescheduleMs millisec =>
    have hms : CancelInvariant { s with ms := millisec } := ⟨h.quiet, h.stays⟩
    exact reschedule_client_invariant hms
  | cancel => exact cancel_invariant h ho
  | expire e =>
    refine ⟨fun hquiet w hw => ?_, h.stays⟩
    obtain ⟨v, hv, rfl⟩ := List.mem_map.mp hw
    exact complete_live (h.quiet hquiet v hv)
  | dispatch i =>
    obtain ⟨own, e, hi⟩ := queued_of_isQueued he
    by_cases hcode : e = .operationAborted
    · subst hcode
      exact dispatch_aborted_invariant h hi
    · exact dispatch_live_invariant h hcode hi
  | finish j throws => exact finish_invariant h j throws

/-- In every run in which no `cancel` with a wait in progress overtakes a queued handler of an
expired wait: a successful `cancel` stops the calls with success until a client arms the task. -/
theorem cancelled_stays_cancelled {ms : ℤ} {es : List Event}
    (h : Run (system.restrict fun s e => ¬ Overtaken s e) (initial ms) es s) :
    StaysCancelled s.log := by
  have hinitial : CancelInvariant (initial ms) :=
    ⟨fun _ => by simp [initial], fun pre mid post i hlog => by simp [initial] at hlog⟩
  have hrun := Run.invariant (S := system.restrict fun s e => ¬ Overtaken s e) (I := CancelInvariant)
    (fun t e ht he => next_cancelInvariant ht he.1 he.2) hinitial h
  exact hrun.stays

theorem quiet_extend (h : Quiet log) (hext : ∀ k, .armed k false ∉ ext) : Quiet (log ++ ext) := by
  obtain ⟨pre, mid, rfl, hnone⟩ := h
  refine ⟨pre, mid ++ ext, by simp, fun k hk => ?_⟩
  rcases List.mem_append.mp hk with hmid | hnew
  · exact hnone k hmid
  · exact hext k hnew

/-- The condition cannot be spared: whatever came before, a `cancel` that overtakes a queued handler
can be followed by that handler and one more expiry. -/
theorem overtaken_violated {ms : ℤ} {es : List Event} (h : Reachable ms es s)
    (ho : Overtaken s .cancel) :
    ∃ fs t, Reachable ms (es ++ .cancel :: fs) t ∧ ¬ StaysCancelled t.log := by
  obtain ⟨hpending, ⟨own, stage⟩, hw, hlive, hqueued⟩ := ho
  obtain ⟨i, hi⟩ := List.getElem?_of_mem hw
  cases stage with
  | pending => cases hqueued
  | dispatched e => cases hqueued
  | queued e =>
    have he : e ≠ .operationAborted := by simpa [Stage.live] using hlive
    have hcancel : (cancel s).waits[i]? = some ⟨own, .queued e⟩ := by
      simp [cancel, abortPending, hi, Wait.complete]
    have hquiet : Quiet (cancel s).log := by
      have hpositive : 0 < (pendingWaits s).length := List.length_pos_iff.mpr hpending
      exact ⟨(abortPending s).log, [], by simp [cancel, hpositive], by simp⟩
    have hfirst : Reachable ms (es ++ [.cancel] ++ [.dispatch i]) (dispatch i (cancel s)) :=
      (h.tail (e := Event.cancel) trivial).tail (e := Event.dispatch i) ⟨_, hcancel, rfl⟩
    obtain ⟨is, hlog⟩ := dispatch_live_log he hcancel
    have harmed := dispatch_live_armed he hcancel
    generalize dispatch i (cancel s) = t at hfirst hlog harmed
    generalize (cancel s).waits.length = n at hlog harmed
    have hexpired : (next t (.expire .success)).waits[n]? = some ⟨true, .queued .success⟩ := by
      simp [next, harmed, Wait.complete]
    have hpending : pendingWaits t ≠ [] :=
      List.ne_nil_of_mem (mem_pending.mpr ⟨_, harmed, rfl⟩)
    have hsecond : Reachable ms
        (es ++ [.cancel] ++ [.dispatch i] ++ [.expire .success] ++ [.dispatch n])
        (dispatch n (next t (.expire .success))) :=
      (hfirst.tail (e := Event.expire .success) ⟨hpending, by decide⟩).tail (e := Event.dispatch n)
        ⟨_, hexpired, rfl⟩
    obtain ⟨js, hlast⟩ := dispatch_live_log (by decide) hexpired
    refine ⟨_, _, by simpa using hsecond, fun hstays => ?_⟩
    have hstill : Quiet ((next t (.expire .success)).log ++
        (js.map .aborted ++ [.armed (next t (.expire .success)).waits.length true])) := by
      refine quiet_extend ?_ (by simp)
      have hafter : Quiet t.log := by
        rw [hlog]
        exact quiet_extend hquiet (by simp)
      exact hafter
    exact staysCancelled_iff.mp hstays _ n [] (by rw [hlast]; simp) hstill

instance (s : State) : (event : Event) → Decidable (Overtaken s event)
  | .cancel => inferInstanceAs (Decidable (pendingWaits s ≠ [] ∧
      ∃ w ∈ s.waits, w.stage.live = true ∧ isQueued w.stage = true))
  | .start => isFalse id
  | .reschedule => isFalse id
  | .rescheduleMs _ => isFalse id
  | .expire _ => isFalse id
  | .dispatch _ => isFalse id
  | .finish _ _ => isFalse id

instance (s : State) (event : Event) :
    Decidable ((system.restrict fun s e => ¬ Overtaken s e).Enabled s event) :=
  inferInstanceAs (Decidable (Enabled s event ∧ ¬ Overtaken s event))

/-- One interval, a new interval given from outside, and a `cancel` of its wait. -/
def cancelledRun : List Event :=
  [.start, .expire .success, .dispatch 0, .finish 0 false, .rescheduleMs 5, .dispatch 1, .cancel,
    .dispatch 2]

theorem cancelled_stays_cancelled_run :
    StaysCancelled (runTrace (system.restrict fun s e => ¬ Overtaken s e) (initial 3) cancelledRun).log :=
  cancelled_stays_cancelled (valid_trace_run (by decide))

/-- The timer expired before a client rescheduled the task; the `cancel` that follows returns true
and the expired wait calls the bound function all the same. -/
def overtakenRun : List Event := [.start, .expire .success, .reschedule, .cancel, .dispatch 0]

theorem overtaken_cancel_calls :
    Reachable 3 overtakenRun (runTrace system (initial 3) overtakenRun) ∧
      ¬ StaysCancelled (runTrace system (initial 3) overtakenRun).log := by
  refine ⟨valid_trace_run (by decide), fun h => ?_⟩
  have hlog : (runTrace system (initial 3) overtakenRun).log =
      [.armed 0 false, .armed 1 false, .aborted 1] ++ .cancelled true :: [.armed 2 true] ++
        .called 0 .success :: [] := by decide
  obtain ⟨k, hk⟩ := h _ _ _ _ hlog
  simp at hk

end Cancelling

section Failing

variable {s : State} {w : Wait} {e : ErrorCode} {i : ℕ}

/-- An invocation that throws, or was called with an error that is not a cancellation. -/
def Failing (e : ErrorCode) (throws : Bool) : Prop :=
  throws = true ∨ e ≠ .success ∧ e ≠ .operationAborted

/-- No wait that the interval logic registered is in progress or waits for its handler with
another code than `operation_aborted`. -/
def Disarmed (s : State) : Prop := ∀ w ∈ s.waits, w.given = true → w.stage.live = false

/-- Calls of clients take back what the interval logic registered. -/
def recallAfter (recalled : Bool) : Action → Bool
  | .armed _ own => !own
  | .cancelled _ => true
  | .aborted _ => recalled
  | .called _ _ => recalled
  | .finished _ _ => recalled

/-- Since the interval logic last registered a wait, a client called `cancel`, `start` or
`reschedule`. -/
def Recalled (log : List Action) : Prop := log.foldl recallAfter true = true

/-- A wait that the interval logic registered has expired and its handler is still queued. -/
def Expired (s : State) : Prop :=
  ∃ w ∈ s.waits, w.given = true ∧ w.stage.live = true ∧ isQueued w.stage = true

structure RecallInvariant (s : State) : Prop where
  recalled : Recalled s.log → ∀ w ∈ s.waits, w.given = true → w.stage ≠ .pending
  armed : ¬ Recalled s.log → ∃ w ∈ s.waits, w.given = true ∧ w.stage.live = true

theorem recalled_concat (log : List Action) (a : Action) :
    Recalled (log ++ [a]) ↔ recallAfter (log.foldl recallAfter true) a = true := by
  rw [Recalled, List.foldl_append]
  rfl

/-- `Recalled` is decided by the registrations and the calls of `cancel`. -/
theorem RecallInvariant.of_log {t : State} (h : RecallInvariant s) (hwaits : t.waits = s.waits)
    (hlog : Recalled t.log ↔ Recalled s.log) : RecallInvariant t := by
  refine ⟨fun hrecalled => ?_, fun harmed => ?_⟩
  · rw [hwaits]
    exact h.recalled (hlog.mp hrecalled)
  · rw [hwaits]
    exact h.armed (mt hlog.mpr harmed)

theorem reschedule_client_recalled : RecallInvariant (reschedule false s) := by
  have hrecalled : Recalled (reschedule false s).log := (recalled_concat _ _).mpr rfl
  refine ⟨fun _ w hw hown => ?_, fun harmed => absurd hrecalled harmed⟩
  rcases List.mem_append.mp hw with hold | hnew
  · exact none_pending hold
  · obtain rfl := List.mem_singleton.mp hnew
    cases hown

theorem cancel_recalled : RecallInvariant (cancel s) := by
  have hrecalled : Recalled (cancel s).log := (recalled_concat _ _).mpr rfl
  exact ⟨fun _ w hw _ => none_pending hw, fun harmed => absurd hrecalled harmed⟩

/-- The interval logic registers a wait that nobody has called back yet. -/
theorem reschedule_own_armed : RecallInvariant (reschedule true s) := by
  have harmed : ¬ Recalled (reschedule true s).log := by
    intro hrecalled
    cases (recalled_concat _ _).mp hrecalled
  refine ⟨fun hrecalled => absurd hrecalled harmed, fun _ => ?_⟩
  exact ⟨⟨true, .pending⟩, List.mem_append_right _ (List.mem_singleton_self _), rfl, rfl⟩

theorem expire_recallInvariant (h : RecallInvariant s) (he : e ≠ .operationAborted) :
    RecallInvariant { s with waits := s.waits.map (Wait.complete e) } := by
  constructor
  · intro _ w hw _
    exact none_pending hw
  · intro harmed
    obtain ⟨v, hv, hown, hlive⟩ := h.armed harmed
    exact ⟨v.complete e, List.mem_map_of_mem hv, (complete_given e v).trans hown,
      complete_stays_live he hlive⟩

theorem dispatch_recallInvariant (h : RecallInvariant s) {own : Bool}
    (hi : s.waits[i]? = some ⟨own, .queued e⟩) : RecallInvariant (dispatch i s) := by
  rw [dispatch_queued hi, fn, intervalLogic]
  split
  · exact reschedule_own_armed.of_log rfl (recalled_concat _ _)
  · rename_i hcode
    have haborted : e = .operationAborted := by
      by_contra hne
      exact hcode (Or.inr hne)
    subst haborted
    constructor
    · intro hrecalled w hw hown
      rcases List.mem_or_eq_of_mem_set hw with hold | rfl
      · exact h.recalled ((recalled_concat _ _).mp hrecalled) w hold hown
      · simp
    · intro harmed
      have harmed' : ¬ Recalled s.log := fun hrecalled => harmed ((recalled_concat _ _).mpr hrecalled)
      obtain ⟨w, hw, hown, hlive⟩ := h.armed harmed'
      obtain ⟨k, hk⟩ := List.getElem?_of_mem hw
      have hother : i ≠ k := by
        rintro rfl
        obtain rfl := Option.some.inj (hk.symm.trans hi)
        simp [Stage.live] at hlive
      have hkept : (s.waits.set i ⟨own, .dispatched .operationAborted⟩)[k]? = some w := by
        rw [List.getElem?_set_ne hother, hk]
      exact ⟨w, List.mem_of_getElem? hkept, hown, hlive⟩

theorem next_recallInvariant (h : RecallInvariant s) {event : Event} (he : Enabled s event) :
    RecallInvariant (next s event) := by
  cases event with
  | start => exact reschedule_client_recalled
  | reschedule => exact reschedule_client_recalled
  | rescheduleMs millisec => exact reschedule_client_recalled
  | cancel => exact cancel_recalled
  | expire e => exact expire_recallInvariant h he.2
  | dispatch i =>
    obtain ⟨own, e, hi⟩ := queued_of_isQueued he
    exact dispatch_recallInvariant h hi
  | finish j throws =>
    simp only [next, finish]
    split
    · exact h.of_log rfl (recalled_concat _ _)
    · exact h

theorem reachable_recallInvariant {ms : ℤ} {es : List Event} (h : Reachable ms es s) :
    RecallInvariant s := by
  have hinitial : RecallInvariant (initial ms) :=
    ⟨fun _ w hw => by simp [initial] at hw, fun harmed => absurd rfl harmed⟩
  exact Run.invariant (I := RecallInvariant) (fun _ _ ht he => next_recallInvariant ht he) hinitial h

theorem RecallInvariant.disarmed_iff (h : RecallInvariant s) :
    Disarmed s ↔ Recalled s.log ∧ ¬ Expired s := by
  constructor
  · intro hdisarmed
    constructor
    · by_contra harmed
      obtain ⟨w, hw, hown, hlive⟩ := h.armed harmed
      rw [hdisarmed w hw hown] at hlive
      cases hlive
    · rintro ⟨w, hw, hown, hlive, -⟩
      rw [hdisarmed w hw hown] at hlive
      cases hlive
  · rintro ⟨hrecalled, hexpired⟩ w hw hown
    by_contra hlive
    have hwlive : w.stage.live = true := by simpa using hlive
    cases hstage : w.stage with
    | pending => exact h.recalled hrecalled w hw hown hstage
    | queued e => exact hexpired ⟨w, hw, hown, hwlive, by rw [hstage]; rfl⟩
    | dispatched e => simp [hstage, Stage.live] at hlive

/-- What a failing invocation leaves behind. -/
def StopsOnFailure (e : ErrorCode) (throws : Bool) (t : State) : Prop := Failing e throws → Disarmed t

/-- For every bound function and every run: a failing invocation leaves the task disarmed exactly
when, before its end, a client has taken back the last registration of the interval logic and no
handler of an earlier one is queued. -/
theorem stopsOnFailure_iff {ms : ℤ} {es : List Event} (h : Reachable ms es s) {j : ℕ} {throws : Bool}
    (hj : s.running[j]? = some (i, e)) :
    StopsOnFailure e throws (next s (.finish j throws)) ↔
      (Failing e throws → Recalled s.log ∧ ¬ Expired s) := by
  have hfinish : next s (.finish j throws) =
      { s with running := s.running.eraseIdx j, log := s.log ++ [.finished i throws] } := by
    simp [next, finish, hj]
  rw [StopsOnFailure, hfinish]
  exact imp_congr_right fun _ => (reachable_recallInvariant h).disarmed_iff

/-- The bound function cancels its task before it throws. -/
def cancellingCall : List Event := [.start, .expire .success, .dispatch 0, .cancel]

def cancelledCall : State := runTrace system (initial 3) cancellingCall

theorem stopsOnFailure_cancelledCall :
    StopsOnFailure .success true (next cancelledCall (.finish 0 true)) := by
  have hreachable : Reachable 3 cancellingCall cancelledCall := valid_trace_run (by decide)
  have hdead : ∀ w ∈ cancelledCall.waits, w.stage.live = false := by decide
  refine (stopsOnFailure_iff (i := 0) hreachable rfl).mpr fun _ => ⟨rfl, ?_⟩
  rintro ⟨w, hw, -, hlive, -⟩
  rw [hdead w hw] at hlive
  cases hlive

/-- The first interval of a task. -/
def firstCall : List Event := [.start, .expire .success, .dispatch 0]

def firstCalled : State := runTrace system (initial 3) firstCall

theorem firstCall_reachable : Reachable 3 firstCall firstCalled := valid_trace_run (by decide)

/-- The bound function throws; its task is still armed and calls it again. -/
theorem throwing_task_goes_on : Reachable 3 firstCall firstCalled ∧
    ¬ StopsOnFailure .success true (next firstCalled (.finish 0 true)) ∧
    .called 1 .success ∈
      (runTrace system (next firstCalled (.finish 0 true)) [.expire .success, .dispatch 1]).log := by
  refine ⟨firstCall_reachable, fun h => ?_, by decide⟩
  have hlive := h (Or.inl rfl) ⟨true, .pending⟩ (by decide) rfl
  cases hlive

end Failing

end IntervalTask

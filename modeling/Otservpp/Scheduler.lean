import Otservpp.Offload

/-! # The scheduler

The functions that are called later by the thread of the service itself, and those called in
parallel by as many worker threads as the hardware runs at once. A callback is posted to the
service by the worker that ran its function. -/
namespace Scheduler

open EventSystem

/-- What `callInParallel` posts to the workers. -/
structure Task where
  fn : ℕ
  callback : Option ℕ
  deriving DecidableEq, Repr

/-- What is posted to the service. -/
inductive Handler where
  | later (fn : ℕ)
  | callback (fn : ℕ)
  deriving DecidableEq, Repr

/-- `stopped` is the state of the workers' service, `terminated` that of the program. -/
structure State where
  queue : List Task
  hands : List (ℕ × Task)
  taken : List Task
  finished : List (Task × Unit)
  posted : List Handler
  ran : List Handler
  stopped : Bool
  terminated : Bool
  deriving DecidableEq, Repr

inductive Event where
  | callLater (fn : ℕ)
  | callInParallel (fn : ℕ) (callback : Option ℕ)
  | take (i : ℕ)
  | finish (i : ℕ) (throws : Bool)
  | runOne (handler : Handler)
  | stop
  deriving DecidableEq, Repr

section System

def initial : State := ⟨[], [], [], [], [], [], false, false⟩

def Handler.callback? : Handler → Option ℕ
  | .callback fn => some fn
  | .later _ => none

def Handler.later? : Handler → Option ℕ
  | .later fn => some fn
  | .callback _ => none

/-- What a task leaves for the service once its function has returned. -/
def perform (task : Task) (_ : Unit) : Option ℕ := task.callback

/-- The tasks and their callbacks on their own. -/
def State.work (s : State) : Offload.State Task Unit ℕ :=
  ⟨s.queue, s.hands, s.taken, s.finished, s.posted.filterMap Handler.callback?,
    s.ran.filterMap Handler.callback?⟩

def callLater (fn : ℕ) (s : State) : State := { s with posted := s.posted ++ [.later fn] }

def callInParallel (fn : ℕ) (callback : Option ℕ) (s : State) : State :=
  { s with queue := s.queue ++ [⟨fn, callback⟩] }

def take (i : ℕ) (s : State) : State :=
  match s.queue with
  | task :: rest =>
    { s with queue := rest, hands := s.hands ++ [(i, task)], taken := s.taken ++ [task] }
  | [] => s

/-- The end of a task; an exception ends the thread and with it the program. -/
def finish (i : ℕ) (throws : Bool) (s : State) : State :=
  if throws then { s with terminated := true }
  else
    match s.work.job i with
    | some task =>
      { s with
        hands := Offload.letGo i s.hands
        finished := s.finished ++ [(task, ())]
        posted := s.posted ++ (task.callback.map Handler.callback).toList }
    | none => s

def runOne (s : State) : State :=
  match s.posted with
  | handler :: rest => { s with posted := rest, ran := s.ran ++ [handler] }
  | [] => s

/-- `hardwareConcurrency` is the number of the threads in the pool. -/
def Ready (hardwareConcurrency : ℕ) (s : State) : Event → Prop
  | .take i => i < hardwareConcurrency ∧ s.stopped = false ∧ s.queue ≠ [] ∧ s.work.job i = none
  | .finish i _ => s.work.job i ≠ none
  | .runOne handler => s.posted.head? = some handler
  | .callLater _ | .callInParallel .. | .stop => True

def Enabled (hardwareConcurrency : ℕ) (s : State) (e : Event) : Prop :=
  s.terminated = false ∧ Ready hardwareConcurrency s e

def next (s : State) : Event → State
  | .callLater fn => callLater fn s
  | .callInParallel fn callback => callInParallel fn callback s
  | .take i => take i s
  | .finish i throws => finish i throws s
  | .runOne _ => runOne s
  | .stop => { s with stopped := true }

def system (hardwareConcurrency : ℕ) : System State Event := ⟨Enabled hardwareConcurrency, next⟩

def Reachable (hardwareConcurrency : ℕ) (es : List Event) (s : State) : Prop :=
  Run (system hardwareConcurrency) initial es s

instance (n : ℕ) (s : State) : (e : Event) → Decidable (Ready n s e)
  | .take i => inferInstanceAs (Decidable (i < n ∧ s.stopped = false ∧ s.queue ≠ [] ∧ _ = _))
  | .finish i _ => inferInstanceAs (Decidable (s.work.job i ≠ none))
  | .runOne handler => inferInstanceAs (Decidable (s.posted.head? = some handler))
  | .callLater _ | .callInParallel .. | .stop => isTrue trivial

instance (n : ℕ) (s : State) (e : Event) : Decidable ((system n).Enabled s e) :=
  inferInstanceAs (Decidable (s.terminated = false ∧ Ready n s e))

end System

section Calls

variable {n : ℕ} {s t : State} {e : Event} {es : List Event}

/-- The calls of `callInParallel`, in order. -/
def parallelCalls (es : List Event) : List Task :=
  es.filterMap fun
    | .callInParallel fn callback => some ⟨fn, callback⟩
    | _ => none

/-- The calls of `callLater`, in order. -/
def laterCalls (es : List Event) : List ℕ :=
  es.filterMap fun
    | .callLater fn => some fn
    | _ => none

/-- What happens to the tasks in a step: what is called later does not concern them. -/
def workEvent : Event → Option (Offload.Event Task Unit)
  | .callInParallel fn callback => some (.submit ⟨fn, callback⟩)
  | .take i => some (.take i)
  | .finish i throws => if throws then none else some (.finish i ())
  | .runOne (.callback _) => some .deliver
  | .runOne (.later _) | .callLater _ | .stop => none

theorem submitted_workEvent (es : List Event) :
    Offload.submitted (es.filterMap workEvent) = parallelCalls es := by
  rw [Offload.submitted, parallelCalls, List.filterMap_filterMap]
  refine List.filterMap_congr fun e _ => ?_
  cases e with
  | finish i throws => cases throws <;> rfl
  | runOne handler => cases handler <;> rfl
  | callLater | callInParallel | take | stop => rfl

theorem posted_of_head {handler : Handler} (h : s.posted.head? = some handler) :
    ∃ rest, s.posted = handler :: rest ∧
      runOne s = { s with posted := rest, ran := s.ran ++ [handler] } := by
  obtain ⟨rest, hposted⟩ := List.head?_eq_some_iff.mp h
  refine ⟨rest, hposted, ?_⟩
  rw [runOne, hposted]

theorem finish_work {i : ℕ} {task : Task} (hjob : s.work.job i = some task) :
    (finish i false s).work = Offload.finish perform i () s.work := by
  rw [finish, if_neg (by decide), hjob, Offload.finish, hjob]
  cases hcallback : task.callback with
  | none => simp [State.work, perform, hcallback]
  | some fn => simp [State.work, perform, hcallback, Handler.callback?]

theorem next_work (he : Enabled n s e) :
    ((Offload.system perform).restrict (Offload.Among n)).Shows s.work (workEvent e)
      (next s e).work := by
  cases e with
  | callLater fn =>
    change (callLater fn s).work = s.work
    simp [State.work, callLater, Handler.callback?]
  | callInParallel fn callback => exact ⟨⟨trivial, trivial⟩, rfl⟩
  | take i =>
    obtain ⟨hi, -, hqueue, hidle⟩ := he.2
    refine ⟨⟨⟨hqueue, hidle⟩, hi⟩, ?_⟩
    obtain ⟨task, rest, hcons⟩ := List.exists_cons_of_ne_nil hqueue
    change Offload.take i s.work = (take i s).work
    simp only [Offload.take, take, State.work, hcons]
  | finish i throws =>
    cases throws with
    | true => exact rfl
    | false =>
      obtain ⟨task, hjob⟩ := Option.ne_none_iff_exists'.mp he.2
      exact ⟨⟨he.2, trivial⟩, (finish_work hjob).symm⟩
  | runOne handler =>
    obtain ⟨rest, hposted, hrun⟩ := posted_of_head he.2
    cases handler with
    | later fn =>
      change (runOne s).work = s.work
      rw [hrun]
      simp [State.work, hposted, List.filterMap_cons, Handler.callback?]
    | callback fn =>
      have hwork : s.work.posted = fn :: rest.filterMap Handler.callback? := by
        simp [State.work, hposted, Handler.callback?]
      have hne : s.work.posted ≠ [] := by simp [hwork]
      refine ⟨⟨hne, trivial⟩, ?_⟩
      change Offload.deliver s.work = (runOne s).work
      rw [Offload.deliver, hwork, hrun]
      simp [State.work, Handler.callback?]
  | stop => exact rfl

/-- To the tasks happens what happens to jobs that the threads of the pool take. -/
theorem work_run (h : Reachable n es s) :
    Run ((Offload.system perform).restrict (Offload.Among n)) Offload.initial
      (es.filterMap workEvent) s.work :=
  (h.project (I := fun _ => True) State.work workEvent
    (fun _ _ _ he => ⟨trivial, next_work he⟩) trivial).2

/-- What is called later stands in the queue of the service in order. -/
theorem next_later (he : Enabled n s e) :
    ((next s e).ran ++ (next s e).posted).filterMap Handler.later? =
      (s.ran ++ s.posted).filterMap Handler.later? ++ laterCalls [e] := by
  cases e with
  | callLater fn => simp [next, callLater, laterCalls, Handler.later?]
  | callInParallel fn callback => simp [next, callInParallel, laterCalls]
  | take i =>
    rw [next, take]
    split <;> simp [laterCalls]
  | finish i throws =>
    rw [next, finish]
    split
    · simp [laterCalls]
    · split
      · next task _ => cases hcallback : task.callback <;> simp [laterCalls, Handler.later?]
      · simp [laterCalls]
  | runOne handler =>
    obtain ⟨rest, hposted, hrun⟩ := posted_of_head he.2
    rw [next, hrun, hposted]
    simp [laterCalls]
  | stop => simp [next, laterCalls]

/-- Every function called in parallel waits, is run by one thread or has returned, and its callback
was posted once, when it had; every function called later was posted once, in order. -/
theorem calls_once (h : Reachable n es s) :
    (parallelCalls es).Perm (s.finished.map Prod.fst ++ (s.hands.map Prod.snd ++ s.queue)) ∧
      (s.ran ++ s.posted).filterMap Handler.callback? =
        (s.finished.map Prod.fst).filterMap Task.callback ∧
      (s.ran ++ s.posted).filterMap Handler.later? = laterCalls es := by
  have hconserved := Offload.conserved (work_run h).weaken
  refine ⟨?_, ?_, ?_⟩
  · rw [← submitted_workEvent]
    exact hconserved.perm
  · rw [List.filterMap_append, List.filterMap_map]
    exact hconserved.results
  · induction h with
    | refl => rfl
    | @tail es t e hrun he ih =>
      have hold := ih (Offload.conserved (work_run hrun).weaken)
      change ((next t e).ran ++ (next t e).posted).filterMap _ = _
      rw [next_later he, hold, laterCalls, laterCalls, laterCalls, List.filterMap_append]

/-- Two functions that two threads run, the second of which returns first. -/
def overtaking : List Event :=
  [.callInParallel 0 (some 0), .callInParallel 1 (some 1), .take 0, .take 1, .finish 1 false,
    .finish 0 false]

def overtaken : State := runTrace (system 2) initial overtaking

theorem overtaken_reachable : Reachable 2 overtaking overtaken := valid_trace_run (by decide)

theorem calls_once_overtaken :
    [(⟨0, some 0⟩ : Task), ⟨1, some 1⟩].Perm (overtaken.finished.map Prod.fst ++ ([] ++ [])) ∧
      (overtaken.ran ++ overtaken.posted).filterMap Handler.callback? = [1, 0] ∧
      (overtaken.ran ++ overtaken.posted).filterMap Handler.later? = [] :=
  calls_once overtaken_reachable

end Calls

section Threads

variable {n : ℕ} {s t u : State} {e : Event} {es : List Event}
  {w : Offload.State Task Unit ℕ}

/-- What the threads do when nothing more is called, every function returns and the workers'
service is not stopped. -/
def serves : Event → Bool
  | .take _ | .finish _ false | .runOne _ => true
  | _ => false

def Serves (n : ℕ) (s t : State) : Prop :=
  ∃ fs, Run (system n) s fs t ∧ ∀ e ∈ fs, serves e = true

theorem Serves.refl (n : ℕ) (s : State) : Serves n s s := ⟨[], .refl, nofun⟩

theorem Serves.tail (h : Serves n s t) (he : Enabled n t e) (hserves : serves e = true) :
    Serves n s (next t e) := by
  obtain ⟨fs, hrun, hfs⟩ := h
  exact ⟨fs ++ [e], hrun.tail he, List.forall_mem_append.mpr ⟨hfs, by simpa using hserves⟩⟩

/-- The program runs, and so do the workers. -/
def Running (s : State) : Prop := s.terminated = false ∧ s.stopped = false

theorem next_running (h : Running s) (hserves : serves e = true) : Running (next s e) := by
  cases e with
  | callLater | callInParallel | stop => cases hserves
  | take i =>
    rw [next, take]
    split <;> exact h
  | finish i throws =>
    cases throws with
    | true => cases hserves
    | false =>
      rw [next, finish, if_neg (by decide)]
      split <;> exact h
  | runOne handler =>
    rw [next, runOne]
    split <;> exact h

/-- The service runs what is posted until it comes to a callback. -/
theorem serve_callback (posted : List Handler) (hrunning : Running s) (hserves : Serves n u s)
    (hposted : s.posted = posted) (hne : posted.filterMap Handler.callback? ≠ []) :
    ∃ t, Serves n u t ∧ Running t ∧ t.work = Offload.deliver s.work := by
  induction posted generalizing s with
  | nil => exact absurd rfl hne
  | cons handler rest ih =>
    have he : Enabled n s (.runOne handler) := ⟨hrunning.1, by rw [Ready, hposted]; rfl⟩
    have hshows := next_work he
    have hmore := hserves.tail he rfl
    have hstill := next_running (e := .runOne handler) hrunning rfl
    cases handler with
    | callback fn => exact ⟨_, hmore, hstill, hshows.2.symm⟩
    | later fn =>
      have hsame : (next s (.runOne (.later fn))).work = s.work := hshows
      have hrest : (next s (.runOne (.later fn))).posted = rest := by
        rw [next, runOne, hposted]
      obtain ⟨t, ht, hrunning', hwork⟩ := ih hstill hmore hrest hne
      exact ⟨t, ht, hrunning', hwork.trans (congrArg _ hsame)⟩

/-- What the workers and the service can make of the tasks, the threads of the pool can do. -/
theorem serve_work {fs : List (Offload.Event Task Unit)}
    (h : Run ((Offload.system perform).restrict (Offload.Among n)) s.work fs w)
    (hinternal : ∀ e ∈ fs, e.internal = true) (hrunning : Running s) :
    ∃ t, Serves n s t ∧ Running t ∧ t.work = w := by
  induction h with
  | refl => exact ⟨s, Serves.refl n s, hrunning, rfl⟩
  | @tail fs w a _ ha ih =>
    obtain ⟨hfs, hlast⟩ := List.forall_mem_append.mp hinternal
    obtain ⟨t, ht, hrunning', rfl⟩ := ih hfs
    cases a with
    | submit task => cases hlast _ (.head _)
    | take i =>
      have he : Enabled n t (.take i) := ⟨hrunning'.1, ha.2, hrunning'.2, ha.1.1, ha.1.2⟩
      exact ⟨_, ht.tail he rfl, next_running (e := .take i) hrunning' rfl, (next_work he).2.symm⟩
    | finish i answer =>
      have he : Enabled n t (.finish i false) := ⟨hrunning'.1, ha.1⟩
      exact ⟨_, ht.tail he rfl, next_running (e := .finish i false) hrunning' rfl,
        (next_work he).2.symm⟩
    | deliver => exact serve_callback t.posted hrunning' ht rfl ha.1

theorem serves_calls (h : Serves n s t) (hreach : Reachable n es s) :
    ∃ fs, Reachable n fs t ∧ parallelCalls fs = parallelCalls es := by
  obtain ⟨fs, hrun, hfs⟩ := h
  refine ⟨es ++ fs, hreach.trans hrun, ?_⟩
  have hnone : parallelCalls fs = [] := by
    refine List.filterMap_eq_nil_iff.mpr fun e he => ?_
    cases e with
    | callInParallel fn callback => cases hfs _ he
    | callLater | take | finish | runOne | stop => rfl
  rw [parallelCalls, List.filterMap_append]
  exact (congrArg _ hnone).trans (List.append_nil _)

/-- Without threads every task waits for ever. -/
theorem queue_of_no_threads (h : Reachable 0 es s) : s.taken = [] ∧ s.queue = parallelCalls es := by
  have htaken : s.taken = [] := Offload.never_taken (work_run h)
  have horder := (Offload.conserved (work_run h).weaken).order
  rw [submitted_workEvent] at horder
  refine ⟨htaken, ?_⟩
  change s.taken ++ s.queue = _ at horder
  rwa [htaken] at horder

theorem drains_iff (h : Reachable n es s) (hrunning : Running s) :
    (∃ t, Serves n s t ∧ Offload.Drained t.work) ↔ 0 < n ∨ parallelCalls es = [] := by
  constructor
  · rintro ⟨t, hserves, hqueue, -⟩
    rcases Nat.eq_zero_or_pos n with rfl | hpos
    · obtain ⟨fs, hreach, hcalls⟩ := serves_calls hserves h
      rw [← hcalls, ← (queue_of_no_threads hreach).2]
      exact Or.inr hqueue
    · exact Or.inl hpos
  · rintro (hpos | hnone)
    · have hdrains : ∃ w, Offload.Reaches perform n s.work w ∧ Offload.Drained w :=
        Offload.drains hpos s.work
      obtain ⟨w, ⟨fs, hrun, hinternal⟩, hdrained⟩ := hdrains
      obtain ⟨t, hserves, -, rfl⟩ := serve_work hrun hinternal hrunning
      exact ⟨t, hserves, hdrained⟩
    · obtain ⟨hcalls, hcallbacks, -⟩ := calls_once h
      rw [hnone] at hcalls
      obtain ⟨hfinished, hrest⟩ := List.append_eq_nil_iff.mp hcalls.symm.eq_nil
      obtain ⟨hhands, hqueue⟩ := List.append_eq_nil_iff.mp hrest
      rw [hfinished, List.filterMap_append] at hcallbacks
      exact ⟨s, Serves.refl n s, hqueue, List.map_eq_nil_iff.mp hhands,
        (List.append_eq_nil_iff.mp hcallbacks).2⟩

/-- As long as nothing threw and the workers were not stopped, all that was called in parallel can
be run and all callbacks called, unless the hardware reports no threads: then the pool is empty and
what is called in parallel is never run. -/
theorem parallel_iff (h : Reachable n es s) (hrunning : Running s) :
    ((∃ t, Serves n s t ∧ Offload.Drained t.work) ↔ 0 < n ∨ parallelCalls es = []) ∧
      (n = 0 → s.taken = [] ∧ s.queue = parallelCalls es) := by
  refine ⟨drains_iff h hrunning, ?_⟩
  rintro rfl
  exact queue_of_no_threads h

/-- Two threads, and none. -/
theorem parallel_iff_overtaken :
    ((∃ t, Serves 2 overtaken t ∧ Offload.Drained t.work) ↔ 0 < 2 ∨ parallelCalls overtaking = []) ∧
      (runTrace (system 0) initial [.callInParallel 0 none]).taken = [] := by
  have hvalid : ValidTrace (system 0) initial [.callInParallel 0 none] := by decide
  exact ⟨(parallel_iff overtaken_reachable ⟨rfl, rfl⟩).1,
    ((parallel_iff (valid_trace_run hvalid) ⟨rfl, rfl⟩).2 rfl).1⟩

end Threads

section Order

variable {n : ℕ} {s t : State} {e : Event} {es : List Event}

/-- The callbacks that were posted, in order. -/
def callbacks (s : State) : List ℕ := (s.ran ++ s.posted).filterMap Handler.callback?

theorem withKey_unit (tasks : List Task) :
    Offload.withKey (fun _ : Task => ()) () tasks = tasks :=
  List.filter_eq_self.mpr fun _ _ => rfl

theorem callbacks_prefix (hn : n ≤ 1) (h : Reachable n es s) :
    callbacks s <+: (parallelCalls es).filterMap Task.callback := by
  have hexclusive := Offload.exclusive_of_single (fun _ : Task => ()) hn (work_run h)
  have horder := (Offload.ordered hexclusive).order ()
  rw [withKey_unit, withKey_unit, withKey_unit, submitted_workEvent] at horder
  rw [callbacks, (calls_once h).2.1, ← horder, List.filterMap_append]
  exact List.prefix_append _ _

theorem enabled_mono {m : ℕ} (hle : m ≤ n) (h : Enabled m s e) : Enabled n s e := by
  refine ⟨h.1, ?_⟩
  cases e with
  | take i => exact ⟨Nat.lt_of_lt_of_le h.2.1 hle, h.2.2⟩
  | callLater | callInParallel | finish | runOne | stop => exact h.2

theorem valid_mono {m : ℕ} (hle : m ≤ n) (h : ValidTrace (system m) s es) :
    ValidTrace (system n) s es := by
  induction es generalizing s with
  | nil => exact trivial
  | cons e es ih => exact ⟨enabled_mono hle h.1, ih h.2⟩

/-- Callbacks are posted in the order in which their functions were called, whatever the threads do,
exactly when there is at most one thread. -/
theorem callbacks_in_order_iff (n : ℕ) :
    (∀ es s, Reachable n es s →
      callbacks s <+: (parallelCalls es).filterMap Task.callback) ↔ n ≤ 1 := by
  refine ⟨fun horder => ?_, fun hn _ _ h => callbacks_prefix hn h⟩
  by_contra hmany
  have hvalid : ValidTrace (system 2) initial overtaking := by decide
  have hrun := valid_trace_run (valid_mono (Nat.lt_of_not_le hmany) hvalid)
  have hprefix := horder overtaking overtaken hrun
  exact absurd hprefix (by decide)

end Order

end Scheduler

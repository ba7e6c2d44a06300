import Otservpp.SqlOperations

/-! # Which operations can still end

What the threads and the main service can make of the operations that wait when clients do nothing
more: a thread whose connection exists takes one after the other, a thread whose connection is
destroyed takes at most one more, and only if it has not looked at its flag since. -/
namespace SqlProgress

open EventSystem
open SqlOperations
open WorkerThreads (Worker Phase PhaseIs)

section Service

variable {s t u : State} {e : Event} {i : ℕ} {w : Worker}

/-- The steps that are not those of a client. -/
def serves : Event → Bool
  | .take _ | .finish .. | .call => true
  | .thread (.init _) | .thread (.check _) | .thread (.leave _) | .thread (.exit _)
  | .thread (.returnZero _) => true
  | _ => false

def Serves (s t : State) : Prop := ∃ fs, Run system s fs t ∧ ∀ e ∈ fs, serves e = true

theorem Serves.refl (s : State) : Serves s s := ⟨[], .refl, nofun⟩

theorem Serves.trans (h : Serves s t) (k : Serves t u) : Serves s u := by
  obtain ⟨fs, hrun, hfs⟩ := h
  obtain ⟨gs, krun, kgs⟩ := k
  exact ⟨fs ++ gs, hrun.trans krun, List.forall_mem_append.mpr ⟨hfs, kgs⟩⟩

theorem Serves.step (he : Enabled s e) (hserves : serves e = true) : Serves s (next s e) :=
  ⟨[e], Run.tail .refl he, by simpa using hserves⟩

/-- A thread that may start a task before it looks at its flag. -/
def ready (w : Worker) : Bool := w.phase.allowance = 1

/-- How many tasks the threads may start before they look at their flags. -/
def capacity (s : State) : ℕ := s.threads.workers.countP ready

def Attended (s : State) : Prop :=
  ∃ c ∈ WorkerThreads.owners s.threads, (s.threads.stage c).alive = true

structure Sound (s : State) : Prop where
  busy : Busy s
  held : ∀ i, PhaseIs s.threads i .running → ∃ op, s.work.job i = some op
  threads : WorkerThreads.Invariant s.threads

structure Good (s : State) : Prop extends Sound s where
  stopped : s.threads.stopped = false
  crashed : s.crashed = false

end Service

section Phases

variable {u : WorkerThreads.State Operation} {a : WorkerThreads.Event Operation} {i j : ℕ}
  {p q : Phase}

theorem phase_moved {w : Worker} (hi : u.workers[i]? = some w) (hj : PhaseIs u i q) :
    w.phase = q := by
  obtain ⟨v, hv, rfl⟩ := WorkerThreads.phaseIs_iff.mp hj
  rw [Option.some.inj (hi.symm.trans hv)]

/-- A thread that runs a task has just taken it, or ran it before. -/
theorem running_before (hne : a ≠ .take i)
    (h : PhaseIs (WorkerThreads.next u a) i .running) : PhaseIs u i .running := by
  cases hi : u.workers[i]? with
  | none =>
    obtain ⟨w, hw, hphase⟩ := WorkerThreads.phaseIs_iff.mp h
    obtain ⟨temporaries, rfl⟩ := WorkerThreads.new_worker hi hw
    have hlast : [(⟨w.conn, .starting⟩ : Worker)][i - u.workers.length]? = some w :=
      (List.getElem?_append_right (List.getElem?_eq_none_iff.mp hi)).symm.trans hw
    rw [List.mem_singleton.mp (List.mem_of_getElem? hlast)] at hphase
    cases hphase
  | some w =>
    have hphase := phase_moved (WorkerThreads.next_worker hi a) h
    change WorkerThreads.moved u a i w.phase = .running at hphase
    refine WorkerThreads.phaseIs_iff.mpr ⟨w, hi, ?_⟩
    unfold WorkerThreads.moved at hphase
    split at hphase
    · next j q htarget =>
      split at hphase
      · next heq =>
        subst heq hphase
        cases a with
        | take j =>
          obtain ⟨rfl, -⟩ := Prod.mk.inj (Option.some.inj htarget)
          exact absurd rfl hne
        | check j =>
          simp only [WorkerThreads.target, Option.some.injEq, Prod.mk.injEq] at htarget
          split at htarget <;> cases htarget.2
        | init | finish | returnZero | leave | exit | construct | start | returns | throws
        | destroy | post | shutdown => cases htarget
      · exact hphase
    · exact hphase

/-- A step of a thread changes its phase and nothing else of the threads. -/
theorem workers_next (h : WorkerThreads.target u a = some (j, q)) :
    (WorkerThreads.next u a).workers = u.workers.modify j fun w => { w with phase := q } := by
  cases a with
  | init | take | finish | returnZero | check | leave | exit =>
    obtain ⟨rfl, rfl⟩ := Prod.mk.inj (Option.some.inj h)
    rfl
  | construct | start | returns | throws | destroy | post | shutdown => cases h

theorem owners_next (h : WorkerThreads.target u a = some (j, q)) :
    WorkerThreads.owners (WorkerThreads.next u a) = WorkerThreads.owners u :=
  (congrArg (List.map Worker.conn) (workers_next h)).trans (WorkerThreads.owners_move (s := u))

theorem stage_next (h : WorkerThreads.target u a = some (j, q)) :
    (WorkerThreads.next u a).stage = u.stage := by
  cases a with
  | init | take | finish | returnZero | check | leave | exit => rfl
  | construct | start | returns | throws | destroy | post | shutdown => cases h

theorem target_worker (ha : WorkerThreads.Enabled u a)
    (h : WorkerThreads.target u a = some (j, q)) : ∃ w, u.workers[j]? = some w := by
  cases a with
  | init | finish | check | leave | exit =>
    obtain ⟨rfl, -⟩ := Prod.mk.inj (Option.some.inj h)
    exact (WorkerThreads.phaseIs_iff.mp ha).imp fun _ hw => hw.1
  | take | returnZero =>
    obtain ⟨rfl, -⟩ := Prod.mk.inj (Option.some.inj h)
    exact (WorkerThreads.phaseIs_iff.mp ha.1).imp fun _ hw => hw.1
  | construct | start | returns | throws | destroy | post | shutdown => cases h

theorem countP_modify {α : Type} (p : α → Bool) (f : α → α) {xs : List α} {x : α}
    (hi : xs[i]? = some x) :
    (xs.modify i f).countP p + (p x).toNat = xs.countP p + (p (f x)).toNat := by
  induction xs generalizing i with
  | nil => cases hi
  | cons y ys ih =>
    cases i with
    | zero =>
      obtain rfl : y = x := Option.some.inj hi
      simp only [List.modify_zero_cons, List.countP_cons]
      cases p y <;> cases p (f y) <;> simp
    | succ i =>
      have hrest := ih (i := i) hi
      simp only [List.modify_succ_cons, List.countP_cons]
      omega

end Phases

section Steps

variable {s t : State} {e : Event} {i : ℕ} {w : Worker}

theorem job_eq_iff {hands : List (ℕ × Operation)} (hhands : s.hands = hands) {op : Operation} :
    s.work.job i = some op ↔ hands.find? (fun hand => hand.1 = i) = some (i, op) := by
  subst hhands
  refine ⟨fun h => ?_, fun h => congrArg (Option.map Prod.snd) h⟩
  obtain ⟨⟨j, op'⟩, hfind, rfl⟩ := Option.map_eq_some_iff.mp h
  have hj := List.find?_some hfind
  simp only [decide_eq_true_eq] at hj
  subst hj
  exact hfind

theorem next_held (h : Sound s) (he : Enabled s e) {j : ℕ}
    (hj : PhaseIs (next s e).threads j .running) : ∃ op, (next s e).work.job j = some op := by
  cases e with
  | post op => exact h.held j (running_before (a := .post op) (by simp) hj)
  | take i =>
    obtain ⟨op, rest, -, hnext⟩ := take_work he
    by_cases hij : j = i
    · subst hij
      have hnone := h.busy.job_none (PhaseIs.waiting_not_running he.2.1)
      have hold : s.hands.find? (fun hand => hand.1 = j) = none := Option.map_eq_none_iff.mp hnone
      refine ⟨op, (job_eq_iff (congrArg SqlOperations.State.hands hnext)).mpr ?_⟩
      rw [List.find?_append, hold]
      simp
    · obtain ⟨op', hop'⟩ := h.held j (running_before (a := .take i) (by simpa using Ne.symm hij) hj)
      refine ⟨op', (job_eq_iff (congrArg SqlOperations.State.hands hnext)).mpr ?_⟩
      rw [List.find?_append, (job_eq_iff rfl).mp hop']
      rfl
  | finish i answer =>
    by_cases hanswer : answer = .noStatement
    · rw [next, finish, if_pos hanswer] at hj ⊢
      exact h.held j hj
    obtain ⟨op, pre, post, hhands, -, hnext⟩ := finish_work he hanswer
    have hthreads : (next s (.finish i answer)).threads = WorkerThreads.next s.threads (.finish i) :=
      congrArg SqlOperations.State.threads hnext
    rw [hthreads] at hj
    obtain ⟨op', hop'⟩ := h.held j (running_before (by simp) hj)
    have hij : i ≠ j := by
      rintro rfl
      obtain ⟨w, hw, -⟩ := WorkerThreads.phaseIs_iff.mp he.2.1
      have hphase := phase_moved (WorkerThreads.next_worker hw (.finish i)) hj
      rw [show WorkerThreads.moved s.threads (.finish i) i w.phase = .checking from if_pos rfl]
        at hphase
      cases hphase
    have hold := (job_eq_iff hhands).mp hop'
    refine ⟨op', (job_eq_iff (congrArg SqlOperations.State.hands hnext)).mpr ?_⟩
    rw [List.find?_append, List.find?_cons_of_neg] at hold
    · rw [List.find?_append]
      exact hold
    · simpa using hij
  | call =>
    rw [next, Offload.deliver] at hj ⊢
    split <;> exact h.held j hj
  | thread a =>
    refine h.held j (running_before (a := a) ?_ hj)
    rintro rfl
    cases he.2.2

theorem next_sound (h : Sound s) (he : Enabled s e) : Sound (next s e) := by
  refine ⟨next_busy h.busy he, fun _ hj => next_held h he hj, ?_⟩
  have hshows := next_threads he
  cases ha : threadEvent e with
  | none =>
    rw [ha] at hshows
    have hsame : (next s e).threads = s.threads := hshows
    exact hsame ▸ h.threads
  | some a =>
    rw [ha] at hshows
    exact hshows.2 ▸ WorkerThreads.next_invariant h.threads hshows.1

theorem next_stopped (h : Good s) (he : Enabled s e) (hserves : serves e = true) :
    (next s e).threads.stopped = false := by
  have hshows := next_threads he
  cases ha : threadEvent e with
  | none =>
    rw [ha] at hshows
    have hsame : (next s e).threads = s.threads := hshows
    exact hsame ▸ h.stopped
  | some a =>
    rw [ha] at hshows
    rw [← hshows.2]
    refine WorkerThreads.next_stopped h.threads hshows.1 h.stopped ?_
    rintro rfl
    cases e with
    | finish i answer =>
      simp only [threadEvent] at ha
      split at ha <;> cases ha
    | thread b =>
      obtain rfl := Option.some.inj ha
      cases hserves
    | post | take | call => cases ha

theorem next_good (h : Good s) (he : Enabled s e) (hserves : serves e = true)
    (hanswer : ∀ j, e ≠ .finish j .noStatement) : Good (next s e) := by
  refine ⟨next_sound h.toSound he, next_stopped h he hserves, ?_⟩
  cases e with
  | finish i answer =>
    have hne : answer ≠ .noStatement := fun hnone => hanswer i (congrArg _ hnone)
    rw [next, finish, if_neg hne]
    exact h.crashed
  | post | take | call | thread => exact h.crashed

/-- What a step of the service is for the threads: nothing, or a change of one thread's phase. -/
theorem serves_threads (he : Enabled s e) (hserves : serves e = true) :
    (next s e).threads = s.threads ∧ (next s e).taken = s.taken ∨
      ∃ a j q, WorkerThreads.Enabled s.threads a ∧ WorkerThreads.target s.threads a = some (j, q) ∧
        (next s e).threads = WorkerThreads.next s.threads a ∧
        (next s e).taken.length = s.taken.length + (a.takes j).toNat := by
  cases e with
  | post op => cases hserves
  | take i =>
    obtain ⟨op, rest, -, hnext⟩ := take_work he
    refine Or.inr ⟨.take i, i, .running, he.2, rfl, rfl, ?_⟩
    rw [hnext]
    simp [WorkerThreads.Event.takes]
  | finish i answer =>
    by_cases hanswer : answer = .noStatement
    · rw [next, finish, if_pos hanswer]
      exact Or.inl ⟨rfl, rfl⟩
    · obtain ⟨op, pre, post, -, -, hnext⟩ := finish_work he hanswer
      refine Or.inr ⟨.finish i, i, .checking, he.2.1, rfl, ?_, ?_⟩
      · rw [hnext]
      · rw [hnext]
        rfl
  | call =>
    rw [next, Offload.deliver]
    split <;> exact Or.inl ⟨rfl, rfl⟩
  | thread a =>
    cases a with
    | construct | start | returns | throws | destroy | post | shutdown | take | finish =>
      cases hserves
    | init | returnZero | check | leave | exit => exact Or.inr ⟨_, _, _, he.2.1, rfl, rfl, rfl⟩

end Steps

section Bound

variable {s t : State} {e : Event} {fs : List Event} {w : Worker}

theorem ready_toNat (w : Worker) : (ready w).toNat = w.phase.allowance := by
  obtain ⟨conn, phase⟩ := w
  cases phase <;> rfl

/-- The connections of the threads are destroyed, and they take what they may take. -/
structure Leaving (n : ℕ) (s : State) : Prop where
  threads : WorkerThreads.Invariant s.threads
  unattended : ¬ Attended s
  bound : s.taken.length + capacity s ≤ n

theorem Leaving.destroyed {n : ℕ} (h : Leaving n s) (hw : w ∈ s.threads.workers) :
    s.threads.stage w.conn = .destroyed := by
  have hcount := WorkerThreads.mem_owners hw
  have howned := h.threads.owned w.conn
  cases hstage : s.threads.stage w.conn with
  | destroyed => rfl
  | absent | constructing =>
    rw [hstage] at howned
    exact absurd howned hcount.ne'
  | started | constructed =>
    refine absurd ⟨w.conn, List.mem_map_of_mem hw, ?_⟩ h.unattended
    rw [hstage]
    rfl

theorem next_leaving {n : ℕ} (h : Leaving n s) (he : Enabled s e) (hserves : serves e = true) :
    Leaving n (next s e) := by
  rcases serves_threads he hserves with ⟨hthreads, htaken⟩ | ⟨a, j, q, ha, htarget, hthreads, htaken⟩
  · refine ⟨hthreads ▸ h.threads, ?_, ?_⟩
    · rw [Attended, hthreads]
      exact h.unattended
    · rw [capacity, hthreads, htaken]
      exact h.bound
  · refine ⟨hthreads ▸ WorkerThreads.next_invariant h.threads ha, ?_, ?_⟩
    · rw [Attended, hthreads, owners_next htarget, stage_next htarget]
      exact h.unattended
    · obtain ⟨w, hw⟩ := target_worker ha htarget
      have hunique := h.threads.unique_of_destroyed hw (h.destroyed (List.mem_of_getElem? hw))
      have hallowed := WorkerThreads.moved_allowance ha hw hunique
      have hmoved : WorkerThreads.moved s.threads a j w.phase = q := by
        rw [WorkerThreads.moved, htarget]
        exact if_pos rfl
      have hcount := countP_modify ready (fun w => { w with phase := q }) hw
      rw [← workers_next htarget, ← hthreads, ready_toNat, ready_toNat] at hcount
      rw [hmoved] at hallowed
      have hbound := h.bound
      simp only [capacity] at hbound hcount ⊢
      omega

/-- Once no thread has a connection that exists, what may still be taken is counted. -/
theorem taken_le (hgood : WorkerThreads.Invariant s.threads) (hleft : ¬ Attended s)
    (h : Serves s t) : t.taken.length ≤ s.taken.length + capacity s := by
  obtain ⟨fs, hrun, hfs⟩ := h
  have hleaving : Leaving (s.taken.length + capacity s) t := by
    induction hrun with
    | refl => exact ⟨hgood, hleft, le_rfl⟩
    | tail _ he ih =>
      obtain ⟨hfs, hlast⟩ := List.forall_mem_append.mp hfs
      exact next_leaving (ih hfs) he (hlast _ (.head _))
  exact (Nat.le_add_right _ _).trans hleaving.bound

end Bound

section Progress

variable {s t u : State} {e : Event} {i : ℕ} {w : Worker} {op : Operation}

/-- Steps of the service in which no task is taken. -/
structure Kept (s t : State) : Prop where
  serves : Serves s t
  good : Good t
  stage : t.threads.stage = s.threads.stage
  queue : t.threads.queue = s.threads.queue
  taken : t.taken = s.taken
  owners : WorkerThreads.owners t.threads = WorkerThreads.owners s.threads

theorem Kept.refl (h : Good s) : Kept s s := ⟨Serves.refl s, h, rfl, rfl, rfl, rfl⟩

theorem Kept.trans (h : Kept s t) (k : Kept t u) : Kept s u :=
  ⟨h.serves.trans k.serves, k.good, k.stage.trans h.stage, k.queue.trans h.queue,
    k.taken.trans h.taken, k.owners.trans h.owners⟩

theorem thread_kept {a : WorkerThreads.Event Operation} (h : Good s)
    (ha : WorkerThreads.Enabled s.threads a) (hserves : serves (.thread a) = true) :
    Kept s (next s (.thread a)) := by
  have hidle : idle a = true := by
    cases a with
    | post | take | finish => cases hserves
    | construct | start | returns | throws | destroy | init | returnZero | check | leave | exit
    | shutdown => rfl
  have he : Enabled s (.thread a) := ⟨h.crashed, ha, hidle⟩
  have hgood := next_good h he hserves (by simp)
  obtain ⟨j, q, htarget⟩ : ∃ j q, WorkerThreads.target s.threads a = some (j, q) := by
    cases a with
    | construct | start | returns | throws | destroy | post | shutdown => cases hserves
    | init | take | finish | returnZero | check | leave | exit => exact ⟨_, _, rfl⟩
  exact ⟨Serves.step he hserves, hgood, stage_next htarget, idle_queue hidle, rfl,
    owners_next htarget⟩

theorem finish_kept (h : Good s) (hi : PhaseIs s.threads i .running) :
    ∃ answer, Kept s (next s (.finish i answer)) ∧ (next s (.finish i answer)).threads =
      WorkerThreads.next s.threads (.finish i) ∧
      (next s (.finish i answer)).hands.length + 1 = s.hands.length := by
  obtain ⟨op, hop⟩ := h.held i hi
  obtain ⟨answer, hfits, hne⟩ : ∃ answer : Answer, answer.fits op.request = true ∧
      answer ≠ .noStatement := by
    cases op.request with
    | connect => exact ⟨.connected false 0, rfl, by simp⟩
    | executeQuery => exact ⟨.nothing, rfl, by simp⟩
    | prepareQuery => exact ⟨.prepared false 0, rfl, by simp⟩
    | runPrepared => exact ⟨.executed ⟨0, 0⟩, rfl, by simp⟩
  have he : Enabled s (.finish i answer) := ⟨h.crashed, hi, op, hop, hfits⟩
  have hgood := next_good h he rfl (by simpa using hne)
  obtain ⟨op', pre, post, hhands, -, hnext⟩ := finish_work he hne
  have hthreads : (next s (.finish i answer)).threads = WorkerThreads.next s.threads (.finish i) :=
    congrArg SqlOperations.State.threads hnext
  refine ⟨answer, ⟨Serves.step he rfl, hgood, ?_, ?_, ?_, ?_⟩, hthreads, ?_⟩
  · rw [hthreads]
    exact stage_next (a := .finish i) rfl
  · rw [hthreads]
    rfl
  · rw [hnext]
  · rw [hthreads]
    exact owners_next (a := .finish i) rfl
  · rw [hnext, hhands]
    simp only [List.length_append, List.length_cons]
    omega

theorem take_serves (h : Good s) (hi : PhaseIs s.threads i .waiting) {rest : List Operation}
    (hqueue : s.threads.queue = op :: rest) :
    Serves s (next s (.take i)) ∧ Good (next s (.take i)) ∧
      (next s (.take i)).threads = WorkerThreads.next s.threads (.take i) ∧
      (next s (.take i)).threads.queue = rest ∧ (next s (.take i)).taken = s.taken ++ [op] := by
  have hne : s.threads.queue ≠ [] := by simp [hqueue]
  have he : Enabled s (.take i) := ⟨h.crashed, hi, hne, h.stopped⟩
  have hgood := next_good h he rfl (by simp)
  obtain ⟨op', rest', hqueue', hnext⟩ := take_work he
  obtain ⟨rfl, rfl⟩ := List.cons.inj (hqueue'.symm.trans hqueue)
  have hthreads : (next s (.take i)).threads = WorkerThreads.next s.threads (.take i) :=
    congrArg SqlOperations.State.threads hnext
  refine ⟨Serves.step he rfl, hgood, hthreads, ?_, ?_⟩
  · rw [hthreads]
    change s.threads.queue.tail = _
    rw [hqueue]
    rfl
  · rw [hnext]

theorem waiting_of_ready (h : Good s) (hi : s.threads.workers[i]? = some w)
    (hready : ready w = true) :
    ∃ t, Kept s t ∧ PhaseIs t.threads i .waiting ∧ capacity t = capacity s := by
  cases hphase : w.phase with
  | starting =>
    have hkept := thread_kept (a := .init i) h (WorkerThreads.phaseIs_iff.mpr ⟨w, hi, hphase⟩) rfl
    have hnext := WorkerThreads.next_worker hi (.init i)
    refine ⟨_, hkept, WorkerThreads.phaseIs_iff.mpr ⟨_, hnext, if_pos rfl⟩, ?_⟩
    have hcount := countP_modify ready (fun w => { w with phase := .waiting }) hi
    rw [hready] at hcount
    exact Nat.add_right_cancel hcount
  | waiting =>
    exact ⟨s, Kept.refl h, WorkerThreads.phaseIs_iff.mpr ⟨w, hi, hphase⟩, rfl⟩
  | running | checking | leaving | ending | terminated =>
    rw [ready, hphase] at hready
    cases hready

theorem waiting_of_checking (h : Good s) (hi : s.threads.workers[i]? = some w)
    (hphase : w.phase = .checking) (halive : (s.threads.stage w.conn).alive = true) :
    ∃ t, Kept s t ∧ PhaseIs t.threads i .waiting := by
  have hkept := thread_kept (a := .check i) h (WorkerThreads.phaseIs_iff.mpr ⟨w, hi, hphase⟩) rfl
  have hnext := WorkerThreads.next_worker hi (.check i)
  refine ⟨_, hkept, WorkerThreads.phaseIs_iff.mpr ⟨_, hnext, ?_⟩⟩
  have hunique := h.threads.not_unique hi halive
  change WorkerThreads.moved s.threads (.check i) i w.phase = .waiting
  simp [WorkerThreads.moved, WorkerThreads.target, hunique]

theorem waiting_of_alive (h : Good s) (hi : s.threads.workers[i]? = some w)
    (halive : (s.threads.stage w.conn).alive = true) :
    ∃ t, Kept s t ∧ PhaseIs t.threads i .waiting := by
  have hattends := h.threads.attends h.stopped w (List.mem_of_getElem? hi) halive
  cases hphase : w.phase with
  | starting | waiting =>
    obtain ⟨t, hkept, hwaiting, -⟩ := waiting_of_ready h hi (by rw [ready, hphase]; rfl)
    exact ⟨t, hkept, hwaiting⟩
  | running =>
    obtain ⟨answer, hkept, hthreads, -⟩ :=
      finish_kept h (WorkerThreads.phaseIs_iff.mpr ⟨w, hi, hphase⟩)
    have hnext := WorkerThreads.next_worker hi (.finish i)
    rw [← hthreads] at hnext
    have hstill : ((next s (.finish i answer)).threads.stage w.conn).alive = true := by
      rw [hkept.stage]
      exact halive
    obtain ⟨t, hlast, hwaiting⟩ := waiting_of_checking hkept.good hnext (if_pos rfl) hstill
    exact ⟨t, hkept.trans hlast, hwaiting⟩
  | checking => exact waiting_of_checking h hi hphase halive
  | leaving | ending | terminated =>
    rw [hphase] at hattends
    cases hattends

/-- The first task can be taken, and what could be taken after it still can. -/
theorem able_next (h : Good s) {rest : List Operation} (hqueue : s.threads.queue = op :: rest)
    {k : ℕ} (hable : Attended s ∨ k < capacity s) :
    ∃ t, Serves s t ∧ Good t ∧ t.threads.queue = rest ∧ t.taken = s.taken ++ [op] ∧
      ∀ m, k = m + 1 → Attended t ∨ m < capacity t := by
  rcases hable with ⟨c, hc, halive⟩ | hcapacity
  · obtain ⟨w, hw, rfl⟩ := List.mem_map.mp hc
    obtain ⟨i, hi⟩ := List.mem_iff_getElem?.mp hw
    obtain ⟨t, hkept, hwaiting⟩ := waiting_of_alive h hi halive
    obtain ⟨hserves, hgood, hthreads, hrest, htaken⟩ :=
      take_serves hkept.good hwaiting (hkept.queue.trans hqueue)
    refine ⟨_, hkept.serves.trans hserves, hgood, hrest, hkept.taken ▸ htaken, fun m _ => Or.inl ?_⟩
    refine ⟨w.conn, ?_, ?_⟩
    · rw [hthreads, owners_next (a := .take i) rfl, hkept.owners]
      exact hc
    · rw [hthreads, stage_next (a := .take i) rfl, hkept.stage]
      exact halive
  · obtain ⟨w, hw, hready⟩ := List.countP_pos_iff.mp (Nat.zero_lt_of_lt hcapacity)
    obtain ⟨i, hi⟩ := List.mem_iff_getElem?.mp hw
    obtain ⟨t, hkept, hwaiting, hsame⟩ := waiting_of_ready h hi hready
    obtain ⟨hserves, hgood, hthreads, hrest, htaken⟩ :=
      take_serves hkept.good hwaiting (hkept.queue.trans hqueue)
    refine ⟨_, hkept.serves.trans hserves, hgood, hrest, hkept.taken ▸ htaken, fun m hm => Or.inr ?_⟩
    obtain ⟨v, hv, hphase⟩ := WorkerThreads.phaseIs_iff.mp hwaiting
    have hcount := countP_modify ready (fun w => { w with phase := .running }) hv
    rw [← workers_next (a := .take i) rfl, ← hthreads, ready_toNat, ready_toNat, hphase] at hcount
    change capacity (next t (.take i)) + 1 = capacity t + 0 at hcount
    omega

theorem serve_taken (k : ℕ) (h : Good s) (hk : k < s.threads.queue.length)
    (hable : Attended s ∨ k < capacity s) :
    ∃ t, Serves s t ∧ Good t ∧ s.taken.length + k < t.taken.length := by
  induction k generalizing s with
  | zero =>
    obtain ⟨op, rest, hqueue⟩ := List.exists_cons_of_length_pos hk
    obtain ⟨t, hserves, hgood, -, htaken, -⟩ := able_next h hqueue hable
    refine ⟨t, hserves, hgood, ?_⟩
    rw [htaken, List.length_append]
    exact Nat.lt_succ_self _
  | succ k ih =>
    obtain ⟨op, rest, hqueue⟩ := List.exists_cons_of_length_pos (Nat.zero_lt_of_lt hk)
    obtain ⟨t, hserves, hgood, hrest, htaken, hstill⟩ := able_next h hqueue hable
    have hlt : k < t.threads.queue.length := by
      rw [hqueue, List.length_cons] at hk
      rw [hrest]
      exact Nat.lt_of_succ_lt_succ hk
    obtain ⟨u, hmore, hgood', hlength⟩ := ih hgood hlt (hstill k rfl)
    refine ⟨u, hserves.trans hmore, hgood', ?_⟩
    rw [htaken, List.length_append, List.length_singleton] at hlength
    omega

theorem call_handlers (m : ℕ) (h : Good s) (hposted : s.posted.length = m) (hhands : s.hands = []) :
    ∃ t, Serves s t ∧ t.taken = s.taken ∧ t.hands = [] ∧ t.posted = [] := by
  induction m generalizing s with
  | zero => exact ⟨s, Serves.refl s, rfl, hhands, List.length_eq_zero_iff.mp hposted⟩
  | succ m ih =>
    obtain ⟨k, rest, hcons⟩ := List.exists_cons_of_length_eq_add_one hposted
    have hne : s.posted ≠ [] := by simp [hcons]
    have he : Enabled s .call := ⟨h.crashed, hne⟩
    have hwork : s.work.posted = k :: rest := hcons
    have hnext : next s .call = { s with posted := rest, called := s.called ++ [k] } := by
      rw [next, Offload.deliver, hwork]
      rfl
    have hlength : (next s .call).posted.length = m := by
      rw [hcons] at hposted
      rw [hnext]
      exact Nat.succ.inj hposted
    obtain ⟨t, hserves, htaken, hempty⟩ :=
      ih (next_good h he rfl (by simp)) hlength (by rw [hnext]; exact hhands)
    refine ⟨t, (Serves.step he rfl).trans hserves, htaken.trans ?_, hempty⟩
    rw [hnext]

theorem settle (m : ℕ) (h : Good s) (hhands : s.hands.length = m) :
    ∃ t, Serves s t ∧ t.taken = s.taken ∧ t.hands = [] ∧ t.posted = [] := by
  induction m generalizing s with
  | zero => exact call_handlers _ h rfl (List.length_eq_zero_iff.mp hhands)
  | succ m ih =>
    obtain ⟨⟨i, op⟩, rest, hcons⟩ := List.exists_cons_of_length_eq_add_one hhands
    have hi : PhaseIs s.threads i .running := h.busy.running (i, op) (hcons ▸ .head _)
    obtain ⟨answer, hkept, -, hlength⟩ := finish_kept h hi
    obtain ⟨t, hserves, htaken, hempty⟩ := ih hkept.good (by omega)
    exact ⟨t, hkept.serves.trans hserves, htaken.trans hkept.taken, hempty⟩

end Progress

section Reachable

variable {s t : State} {es fs : List Event}

theorem reachable_sound (h : Reachable es s) : Sound s :=
  h.invariant (I := Sound) (fun _ _ hs he => next_sound hs he)
    ⟨initial_busy, fun _ hi => (by cases hi), WorkerThreads.initial_invariant⟩

/-- The service starts no operation itself. -/
theorem started_serves (hfs : ∀ e ∈ fs, serves e = true) : started fs = [] := by
  refine List.filterMap_eq_nil_iff.mpr fun e he => ?_
  cases e with
  | post op => cases hfs _ he
  | take | finish | call | thread => rfl

theorem serves_order (h : Reachable es s) (hserves : Serves s t) :
    t.taken ++ t.threads.queue = s.taken ++ s.threads.queue := by
  obtain ⟨fs, hrun, hfs⟩ := hserves
  have hs := (Offload.conserved (operations_refine h).2).order
  have ht := (Offload.conserved (operations_refine (h.trans hrun)).2).order
  rw [submitted_workEvent] at hs ht
  have hsame : started (es ++ fs) = started es := by
    rw [started, List.filterMap_append]
    exact (congrArg _ (started_serves hfs)).trans (List.append_nil _)
  exact (ht.trans hsame).trans hs.symm

end Reachable

end SqlProgress

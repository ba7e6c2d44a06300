import Otservpp.Offload
import Otservpp.SqlFetch
import Otservpp.WorkerThreads

/-! # Operations on database connections

The operations that clients start are the tasks of the service's threads. Each has captured its
handler; the thread that ran it posts the handler to the main service with what the library
answered. -/
namespace SqlOperations

open EventSystem
open SqlFetch (ErrorCode Post postHandlerOrError)

inductive Request where
  | connect
  | executeQuery
  | prepareQuery
  | runPrepared
  deriving DecidableEq, Repr

/-- What a task captured. -/
structure Operation where
  conn : ℕ
  handler : ℕ
  request : Request
  deriving DecidableEq, Repr

/-- What the library answered while the task ran: `noStatement` is a null pointer from
`mysql_stmt_init`, `executed` what `runPrepared` made of its answers. -/
inductive Answer where
  | connected (failed : Bool) (errno : ErrorCode)
  | nothing
  | prepared (failed : Bool) (errno : ErrorCode)
  | noStatement
  | executed (post : Post)
  deriving DecidableEq, Repr

instance : Inhabited Answer := ⟨.nothing⟩

/-- The call of a handler that was posted. -/
structure Completion where
  handler : ℕ
  post : Post
  deriving DecidableEq, Repr

/-- `taken` are the tasks that threads took, in order, `finished` those that ended. -/
structure State where
  threads : WorkerThreads.State Operation
  hands : List (ℕ × Operation)
  taken : List Operation
  finished : List (Operation × Answer)
  posted : List Completion
  called : List Completion
  crashed : Bool

inductive Event where
  | post (op : Operation)
  | take (i : ℕ)
  | finish (i : ℕ) (answer : Answer)
  | call
  | thread (e : WorkerThreads.Event Operation)

section Operations

def initial : State := ⟨WorkerThreads.initial, [], [], [], [], [], false⟩

def connect (conn handler : ℕ) : Operation := ⟨conn, handler, .connect⟩

def executeQuery (conn handler : ℕ) : Operation := ⟨conn, handler, .executeQuery⟩

def prepareQuery (conn handler : ℕ) : Operation := ⟨conn, handler, .prepareQuery⟩

def runPrepared (conn handler : ℕ) : Operation := ⟨conn, handler, .runPrepared⟩

/-- The answers that a request can get. -/
def Answer.fits : Answer → Request → Bool
  | .connected .., .connect => true
  | .nothing, .executeQuery => true
  | .prepared .., .prepareQuery => true
  | .noStatement, .prepareQuery => true
  | .executed _, .runPrepared => true
  | _, _ => false

/-- What a task posts before it ends; the task of `executeQuery` is empty. -/
def completion (op : Operation) : Answer → Option Completion
  | .connected failed errno => some ⟨op.handler, postHandlerOrError errno failed 0⟩
  | .prepared failed errno => some ⟨op.handler, postHandlerOrError errno failed 0⟩
  | .executed post => some ⟨op.handler, post⟩
  | .nothing | .noStatement => none

/-- The operations and their handlers on their own. -/
def State.work (s : State) : Offload.State Operation Answer Completion :=
  ⟨s.threads.queue, s.hands, s.taken, s.finished, s.posted, s.called⟩

/-- The states in which the threads and the handlers are as given. -/
def State.withWork (s : State) (threads : WorkerThreads.State Operation)
    (w : Offload.State Operation Answer Completion) : State :=
  ⟨threads, w.hands, w.taken, w.finished, w.posted, w.delivered, s.crashed⟩

/-- Without a statement its error is read through the null pointer. -/
def finish (i : ℕ) (answer : Answer) (s : State) : State :=
  if answer = .noStatement then { s with crashed := true }
  else s.withWork (WorkerThreads.next s.threads (.finish i))
    (Offload.finish completion i answer s.work)

def next (s : State) : Event → State
  | .post op => { s with threads := WorkerThreads.next s.threads (.post op) }
  | .take i => s.withWork (WorkerThreads.next s.threads (.take i)) (Offload.take i s.work)
  | .finish i answer => finish i answer s
  | .call => s.withWork s.threads (Offload.deliver s.work)
  | .thread e => { s with threads := WorkerThreads.next s.threads e }

/-- The steps of the threads that have nothing to do with a task. -/
def idle : WorkerThreads.Event Operation → Bool
  | .post _ | .take _ | .finish _ => false
  | _ => true

/-- Operations are started on connections that exist. -/
def Ready (s : State) : Event → Prop
  | .post op => s.threads.stage op.conn = .constructed
  | .take i => WorkerThreads.Enabled s.threads (.take i)
  | .finish i answer => WorkerThreads.Enabled s.threads (.finish i) ∧
      ∃ op ∈ s.work.job i, answer.fits op.request = true
  | .call => s.posted ≠ []
  | .thread e => WorkerThreads.Enabled s.threads e ∧ idle e = true

def Enabled (s : State) (e : Event) : Prop := s.crashed = false ∧ Ready s e

def system : System State Event := ⟨Enabled, next⟩

def Reachable (es : List Event) (s : State) : Prop := Run system initial es s

instance (u : WorkerThreads.State Operation) (a : WorkerThreads.Event Operation) :
    Decidable (WorkerThreads.Enabled u a) := WorkerThreads.decidableEnabled u a

instance (s : State) : (e : Event) → Decidable (Ready s e)
  | .post op => inferInstanceAs (Decidable (s.threads.stage op.conn = .constructed))
  | .take i => inferInstanceAs (Decidable (WorkerThreads.Enabled s.threads (.take i)))
  | .finish i _ => inferInstanceAs (Decidable (WorkerThreads.Enabled s.threads (.finish i) ∧ _))
  | .call => inferInstanceAs (Decidable (s.posted ≠ []))
  | .thread e => inferInstanceAs (Decidable (WorkerThreads.Enabled s.threads e ∧ _))

instance (s : State) (e : Event) : Decidable (Enabled s e) :=
  inferInstanceAs (Decidable (_ ∧ _))

instance (s : State) (e : Event) : Decidable (system.Enabled s e) :=
  inferInstanceAs (Decidable (Enabled s e))

end Operations

section Threads

variable {s t : State} {es : List Event} {e : Event} {i : ℕ} {op : Operation}

/-- A thread runs its task until it has finished it. -/
theorem running_kept {u : WorkerThreads.State Operation} {a : WorkerThreads.Event Operation}
    (ha : WorkerThreads.Enabled u a) (hne : a ≠ .finish i)
    (h : WorkerThreads.PhaseIs u i .running) :
    WorkerThreads.PhaseIs (WorkerThreads.next u a) i .running := by
  obtain ⟨w, hi, hphase⟩ := WorkerThreads.phaseIs_iff.mp h
  have hnext := WorkerThreads.next_worker hi a
  have hother {j : ℕ} {p : WorkerThreads.Phase} (hp : p ≠ .running)
      (hj : WorkerThreads.PhaseIs u j p) : j ≠ i := by
    rintro rfl
    exact hp (Option.some.inj (hj.symm.trans h))
  refine WorkerThreads.phaseIs_iff.mpr ⟨_, hnext, ?_⟩
  change WorkerThreads.moved u a i w.phase = .running
  rw [hphase]
  cases a with
  | construct | start | returns | throws | destroy | post | shutdown => rfl
  | init j => exact if_neg (hother (by decide) ha)
  | take j => exact if_neg (hother (by decide) ha.1)
  | finish j => exact if_neg fun hj => hne (congrArg _ hj)
  | returnZero j => exact if_neg (hother (by decide) ha.1)
  | check j => exact if_neg (hother (by decide) ha)
  | leave j => exact if_neg (hother (by decide) ha)
  | exit j => exact if_neg (hother (by decide) ha)

/-- The threads with a task in hand are those that run one. -/
structure Busy (s : State) : Prop where
  running : ∀ hand ∈ s.hands, WorkerThreads.PhaseIs s.threads hand.1 .running
  distinct : (s.hands.map Prod.fst).Nodup

theorem Busy.job_none (h : Busy s) (hi : ¬ WorkerThreads.PhaseIs s.threads i .running) :
    s.work.job i = none := by
  refine Option.map_eq_none_iff.mpr (List.find?_eq_none.mpr fun hand hhand heq => hi ?_)
  exact of_decide_eq_true heq ▸ h.running hand hhand

theorem PhaseIs.waiting_not_running {u : WorkerThreads.State Operation}
    (h : WorkerThreads.PhaseIs u i .waiting) : ¬ WorkerThreads.PhaseIs u i .running := by
  intro hr
  cases Option.some.inj (h.symm.trans hr)

theorem running_taken {u : WorkerThreads.State Operation}
    (h : WorkerThreads.PhaseIs u i .waiting) :
    WorkerThreads.PhaseIs (WorkerThreads.next u (.take i)) i .running := by
  obtain ⟨w, hi, -⟩ := WorkerThreads.phaseIs_iff.mp h
  have hnext := WorkerThreads.next_worker hi (.take i)
  refine WorkerThreads.phaseIs_iff.mpr ⟨_, hnext, ?_⟩
  exact if_pos rfl

theorem take_work (he : Enabled s (.take i)) : ∃ op rest, s.threads.queue = op :: rest ∧
    next s (.take i) = { s with
      threads := WorkerThreads.next s.threads (.take i)
      hands := s.hands ++ [(i, op)]
      taken := s.taken ++ [op] } := by
  obtain ⟨op, rest, hqueue⟩ := List.exists_cons_of_ne_nil he.2.2.1
  refine ⟨op, rest, hqueue, ?_⟩
  have hwork : s.work.queue = op :: rest := hqueue
  rw [next, Offload.take, hwork]
  rfl

theorem finish_work {answer : Answer} (he : Enabled s (.finish i answer))
    (hanswer : answer ≠ .noStatement) : ∃ op pre post, s.hands = pre ++ (i, op) :: post ∧
      answer.fits op.request = true ∧
      next s (.finish i answer) = { s with
        threads := WorkerThreads.next s.threads (.finish i)
        hands := pre ++ post
        finished := s.finished ++ [(op, answer)]
        posted := s.posted ++ (completion op answer).toList } := by
  obtain ⟨op, hjob, hfits⟩ := he.2.2
  obtain ⟨pre, post, hhands, hlet⟩ := Offload.job_split hjob
  refine ⟨op, pre, post, hhands, hfits, ?_⟩
  rw [next, finish, if_neg hanswer, Offload.finish, show s.work.job i = some op from hjob]
  simp only [hlet]
  rfl

theorem initial_busy : Busy initial := ⟨nofun, .nil⟩

theorem next_busy (h : Busy s) (he : Enabled s e) : Busy (next s e) := by
  have hkept {a : WorkerThreads.Event Operation} (ha : WorkerThreads.Enabled s.threads a)
      (hne : ∀ j, a ≠ .finish j) : ∀ hand ∈ s.hands,
        WorkerThreads.PhaseIs (WorkerThreads.next s.threads a) hand.1 .running :=
    fun hand hhand => running_kept ha (hne hand.1) (h.running hand hhand)
  cases e with
  | post op => exact ⟨hkept trivial (by simp), h.distinct⟩
  | take i =>
    obtain ⟨op, rest, -, hnext⟩ := take_work he
    rw [hnext]
    refine ⟨fun hand hhand => ?_, ?_⟩
    · rcases List.mem_append.mp hhand with hold | hnew
      · exact hkept (a := .take i) he.2 (by simp) hand hold
      · rw [List.mem_singleton.mp hnew]
        exact running_taken he.2.1
    · rw [List.map_append, List.map_singleton, ← List.concat_eq_append]
      refine h.distinct.concat fun hmem => ?_
      obtain ⟨hand, hhand, rfl⟩ := List.mem_map.mp hmem
      exact PhaseIs.waiting_not_running he.2.1 (h.running hand hhand)
  | finish i answer =>
    by_cases hanswer : answer = .noStatement
    · rw [next, finish, if_pos hanswer]
      exact ⟨h.running, h.distinct⟩
    · obtain ⟨op, pre, post, hhands, -, hnext⟩ := finish_work he hanswer
      have hdistinct := h.distinct
      rw [hhands, List.map_append, List.map_cons, List.nodup_middle, List.nodup_cons,
        ← List.map_append] at hdistinct
      rw [hnext]
      refine ⟨fun hand hhand => ?_, hdistinct.2⟩
      have hold : hand ∈ s.hands := by
        rw [hhands]
        exact (List.sublist_cons_self _ _).append_left pre |>.subset hhand
      refine running_kept he.2.1 (fun hfinish => hdistinct.1 ?_) (h.running hand hold)
      rw [WorkerThreads.Event.finish.inj hfinish]
      exact List.mem_map.mpr ⟨hand, hhand, rfl⟩
  | call =>
    rw [next, Offload.deliver]
    split <;> exact ⟨h.running, h.distinct⟩
  | thread a =>
    refine ⟨hkept he.2.1 fun j hj => ?_, h.distinct⟩
    rw [hj] at he
    cases he.2.2

end Threads

section Refinement

variable {s t : State} {es : List Event} {e : Event}

/-- What the threads do in a step; one that crashes takes the process with it. -/
def threadEvent : Event → Option (WorkerThreads.Event Operation)
  | .post op => some (.post op)
  | .take i => some (.take i)
  | .finish i answer => if answer = .noStatement then none else some (.finish i)
  | .call => none
  | .thread e => some e

/-- What happens to the operations in a step. -/
def workEvent : Event → Option (Offload.Event Operation Answer)
  | .post op => some (.submit op)
  | .take i => some (.take i)
  | .finish i answer => if answer = .noStatement then none else some (.finish i answer)
  | .call => some .deliver
  | .thread _ => none

theorem next_threads (he : Enabled s e) :
    (WorkerThreads.service Operation).Shows s.threads (threadEvent e) (next s e).threads := by
  cases e with
  | post op => exact ⟨trivial, rfl⟩
  | take i => exact ⟨he.2, rfl⟩
  | finish i answer =>
    rw [next, finish, threadEvent]
    split
    · exact rfl
    · exact ⟨he.2.1, rfl⟩
  | call => exact rfl
  | thread a => exact ⟨he.2.1, rfl⟩

theorem idle_queue {u : WorkerThreads.State Operation} {a : WorkerThreads.Event Operation}
    (ha : idle a = true) : (WorkerThreads.next u a).queue = u.queue := by
  cases a with
  | post | take | finish => cases ha
  | returns c =>
    rw [WorkerThreads.next, WorkerThreads.returns]
    split <;> rfl
  | construct | start | throws | destroy | init | returnZero | check | leave | exit | shutdown => rfl

theorem next_work (h : Busy s) (he : Enabled s e) :
    (Offload.system completion).Shows s.work (workEvent e) (next s e).work := by
  cases e with
  | post op => exact ⟨trivial, rfl⟩
  | take i =>
    obtain ⟨op, rest, hqueue, hnext⟩ := take_work he
    have hidle := h.job_none (PhaseIs.waiting_not_running he.2.1)
    refine ⟨⟨he.2.2.1, hidle⟩, ?_⟩
    have htail : (WorkerThreads.next s.threads (.take i)).queue = rest := by
      change s.threads.queue.tail = rest
      rw [hqueue]
      rfl
    rw [hnext]
    simp only [Offload.system, Offload.next, Offload.take, State.work, hqueue, htail]
  | finish i answer =>
    rw [workEvent, next, finish]
    split
    · exact rfl
    · obtain ⟨op, hop, -⟩ := he.2.2
      have hheld : s.work.job i ≠ none := fun hnone => by cases hnone.symm.trans hop
      refine ⟨hheld, ?_⟩
      change Offload.finish completion i answer s.work = _
      rw [Offload.finish, show s.work.job i = some op from hop]
      rfl
  | call =>
    refine ⟨he.2, ?_⟩
    change Offload.deliver s.work = (s.withWork s.threads (Offload.deliver s.work)).work
    rw [Offload.deliver]
    split <;> rfl
  | thread a =>
    change (next s (.thread a)).work = s.work
    simp only [State.work, next, idle_queue he.2.2]

/-- The threads do what they do without knowing what their tasks are, and to the operations happens
what happens to jobs that any workers take. -/
theorem operations_refine (h : Reachable es s) :
    Run (WorkerThreads.service Operation) WorkerThreads.initial (es.filterMap threadEvent) s.threads ∧
      Run (Offload.system completion) Offload.initial (es.filterMap workEvent) s.work :=
  ⟨(h.project (I := fun _ => True) State.threads threadEvent
      (fun _ _ _ he => ⟨trivial, next_threads he⟩) trivial).2,
    (h.project (I := Busy) State.work workEvent
      (fun _ _ hs he => ⟨next_busy hs he, next_work hs he⟩) initial_busy).2⟩

/-- A connection is made, and a query is asked whose handler is never called. -/
def connectedEvents : List Event :=
  [.thread (.construct 0), .thread (.start 0 0), .thread (.returns 0), .thread (.init 0),
    .post (connect 0 7), .take 0, .finish 0 (.connected false 0), .call,
    .post (executeQuery 0 8)]

def connectedState : State := runTrace system initial connectedEvents

theorem connected_reachable : Reachable connectedEvents connectedState :=
  valid_trace_run (by decide)

theorem operations_refine_connected :
    Run (WorkerThreads.service Operation) WorkerThreads.initial
      (connectedEvents.filterMap threadEvent) connectedState.threads :=
  (operations_refine connected_reachable).1

end Refinement

section Handlers

variable {s t : State} {es : List Event} {e : Event}

/-- The operations that clients started, in order. -/
def started (es : List Event) : List Operation :=
  es.filterMap fun
    | .post op => some op
    | _ => none

theorem submitted_workEvent (es : List Event) :
    Offload.submitted (es.filterMap workEvent) = started es := by
  rw [Offload.submitted, started, List.filterMap_filterMap]
  refine List.filterMap_congr fun e _ => ?_
  cases e with
  | finish i answer =>
    simp only [workEvent]
    split <;> rfl
  | post | take | call | thread => rfl

/-- What ended a task fits it. -/
theorem next_fits (h : ∀ x ∈ s.finished, x.2.fits x.1.request = true ∧ x.2 ≠ .noStatement)
    (he : Enabled s e) :
    ∀ x ∈ (next s e).finished, x.2.fits x.1.request = true ∧ x.2 ≠ .noStatement := by
  cases e with
  | post | thread => exact h
  | take i =>
    obtain ⟨op, rest, -, hnext⟩ := take_work he
    rw [hnext]
    exact h
  | finish i answer =>
    by_cases hanswer : answer = .noStatement
    · rw [next, finish, if_pos hanswer]
      exact h
    · obtain ⟨op, pre, post, -, hfits, hnext⟩ := finish_work he hanswer
      rw [hnext]
      intro x hx
      rcases List.mem_append.mp hx with hold | hnew
      · exact h x hold
      · rw [List.mem_singleton.mp hnew]
        exact ⟨hfits, hanswer⟩
  | call =>
    rw [next, Offload.deliver]
    split <;> exact h

theorem completion_handler {op : Operation} {answer : Answer}
    (hfits : answer.fits op.request = true) (hanswer : answer ≠ .noStatement) :
    (completion op answer).map Completion.handler =
      if op.request ≠ .executeQuery then some op.handler else none := by
  obtain ⟨conn, handler, request⟩ := op
  cases answer with
  | noStatement => exact absurd rfl hanswer
  | connected | prepared | executed | nothing =>
    cases request <;> first | rfl | cases hfits

theorem completion_handlers (xs : List (Operation × Answer))
    (h : ∀ x ∈ xs, x.2.fits x.1.request = true ∧ x.2 ≠ .noStatement) :
    (xs.filterMap fun x => completion x.1 x.2).map Completion.handler =
      ((xs.map Prod.fst).filter fun op => op.request ≠ .executeQuery).map Operation.handler := by
  induction xs with
  | nil => rfl
  | cons x xs ih =>
    obtain ⟨⟨hfits, hanswer⟩, hrest⟩ := List.forall_mem_cons.mp h
    have hhead := completion_handler hfits hanswer
    simp only [List.map_cons, List.filterMap_cons, List.filter_cons, decide_eq_true_eq]
    split at hhead
    · next hrequest =>
      obtain ⟨c, hc, hhandler⟩ := Option.map_eq_some_iff.mp hhead
      rw [hc, if_pos hrequest, List.map_cons, List.map_cons, hhandler, ih hrest]
    · next hrequest =>
      rw [Option.map_eq_none_iff.mp hhead, if_neg hrequest, ih hrest]

/-- Every operation that was started waits, is run by one thread or has ended, and the handlers
posted are those of the operations that ended, each once and in the order of their ends, except
those given to `executeQuery`, which are never called. -/
theorem handlers_once (h : Reachable es s) :
    (started es).Perm (s.finished.map Prod.fst ++ (s.hands.map Prod.snd ++ s.threads.queue)) ∧
      (s.called ++ s.posted).map Completion.handler =
        ((s.finished.map Prod.fst).filter fun op => op.request ≠ .executeQuery).map
          Operation.handler := by
  have hconserved := Offload.conserved (operations_refine h).2
  have hfits : ∀ x ∈ s.finished, x.2.fits x.1.request = true ∧ x.2 ≠ .noStatement :=
    h.invariant (I := fun u => ∀ x ∈ u.finished, x.2.fits x.1.request = true ∧ x.2 ≠ .noStatement)
      (fun _ _ hs he => next_fits hs he) nofun
  refine ⟨?_, ?_⟩
  · rw [← submitted_workEvent]
    exact hconserved.perm
  · rw [show s.called ++ s.posted = _ from hconserved.results]
    exact completion_handlers s.finished hfits

theorem handlers_once_connected :
    (started connectedEvents).Perm [connect 0 7, executeQuery 0 8] ∧
      (connectedState.called ++ connectedState.posted).map Completion.handler = [7] :=
  handlers_once connected_reachable

end Handlers

section OneOperation

variable {s t : State} {es : List Event} {e : Event} {c : ℕ}

/-- A connection object has one operation running at any given time: none is started on it, and it
is not destroyed, before the task of the last one has ended. -/
def Alone (s : State) : Event → Prop
  | .post op => op.conn ∉ s.work.pending.map Operation.conn
  | .thread (.destroy c) => c ∉ s.work.pending.map Operation.conn
  | _ => True

/-- Only its destructor takes a connection away that `construct` returned. -/
theorem constructed_kept {u : WorkerThreads.State Operation} {a : WorkerThreads.Event Operation}
    (ha : WorkerThreads.Enabled u a) (hc : u.stage c = .constructed) (hne : a ≠ .destroy c) :
    (WorkerThreads.next u a).stage c = .constructed := by
  have hother {d : ℕ} {g : WorkerThreads.Stage} (hd : u.stage d ≠ .constructed) :
      Function.update u.stage d g c = .constructed := by
    rw [Function.update_of_ne]
    · exact hc
    · rintro rfl
      exact hd hc
  cases a with
  | init | take | finish | returnZero | check | leave | exit | post | shutdown => exact hc
  | construct d => exact hother (by rw [show u.stage d = .absent from ha]; decide)
  | start d temporaries => exact hother (by rw [show u.stage d = .constructing from ha]; decide)
  | returns d =>
    obtain ⟨thread, temporaries, hd⟩ := WorkerThreads.Stage.starts_iff.mp ha
    rw [WorkerThreads.next, WorkerThreads.returns, hd]
    exact hother (by simp [hd])
  | throws d =>
    refine hother fun hd => ?_
    rcases ha with h | h
    · cases h.symm.trans hd
    · rw [hd] at h
      cases h
  | destroy d =>
    refine (Function.update_of_ne ?_ _ _).trans hc
    rintro rfl
    exact hne rfl

theorem stage_kept (he : Enabled s e) (hc : s.threads.stage c = .constructed)
    (hne : e ≠ .thread (.destroy c)) : (next s e).threads.stage c = .constructed := by
  cases e with
  | post op => exact constructed_kept (a := .post op) trivial hc (by simp)
  | take i => exact constructed_kept (a := .take i) he.2 hc (by simp)
  | finish i answer =>
    rw [next, finish]
    split
    · exact hc
    · exact constructed_kept (a := .finish i) he.2.1 hc (by simp)
  | call => exact hc
  | thread a => exact constructed_kept he.2.1 hc fun ha => hne (ha ▸ rfl)

/-- No step makes an operation pending but the one that starts it. -/
theorem pending_next {op : Operation} (h : Busy s) (he : Enabled s e)
    (hop : op ∈ (next s e).work.pending) : op ∈ s.work.pending ∨ e = .post op := by
  have hshows := next_work h he
  cases hwork : workEvent e with
  | none =>
    rw [hwork] at hshows
    have hsame : (next s e).work = s.work := hshows
    exact Or.inl (hsame ▸ hop)
  | some a =>
    rw [hwork] at hshows
    rw [← hshows.2] at hop
    refine (Offload.pending_next hop).imp_right fun ha => ?_
    rw [ha] at hwork
    cases e with
    | post new => exact congrArg _ (Offload.Event.submit.inj (Option.some.inj hwork))
    | finish i answer =>
      simp only [workEvent] at hwork
      split at hwork <;> cases hwork
    | take | call | thread => cases hwork

/-- The operations that have not ended are on connections that exist. -/
structure OnLive (s : State) : Prop where
  busy : Busy s
  live : ∀ op ∈ s.work.pending, s.threads.stage op.conn = .constructed

theorem next_onLive (h : OnLive s) (he : Enabled s e) (hs : Alone s e) : OnLive (next s e) := by
  refine ⟨next_busy h.busy he, fun op hop => ?_⟩
  rcases pending_next h.busy he hop with hold | rfl
  · refine stage_kept he (h.live op hold) ?_
    rintro rfl
    exact hs (List.mem_map_of_mem hold)
  · exact stage_kept he he.2 (by simp)

/-- The step keeps to one job for each connection. -/
theorem shows_alone (h : Busy s) (he : Enabled s e) (hs : Alone s e) :
    ((Offload.system completion).restrict (Offload.OneAtATime Operation.conn)).Shows s.work
      (workEvent e) (next s e).work := by
  have hshows := next_work h he
  cases e with
  | post op => exact ⟨⟨hshows.1, hs⟩, hshows.2⟩
  | take i => exact ⟨⟨hshows.1, trivial⟩, hshows.2⟩
  | finish i answer =>
    rw [workEvent] at hshows ⊢
    split
    · next hanswer =>
      rw [if_pos hanswer] at hshows
      exact hshows
    · next hanswer =>
      rw [if_neg hanswer] at hshows
      exact ⟨⟨hshows.1, trivial⟩, hshows.2⟩
  | call => exact ⟨⟨hshows.1, trivial⟩, hshows.2⟩
  | thread a => exact hshows

/-- Where clients have one operation running on a connection at any given time, no two threads use
a connection, no thread uses one that is destroyed, and the operations of each end in the order in
which they were started. -/
theorem one_operation (h : Run (system.restrict Alone) initial es s) :
    (s.hands.map fun hand => hand.2.conn).Nodup ∧
      (∀ op ∈ s.work.pending, s.threads.stage op.conn = .constructed) ∧
      ∀ c, Offload.withKey Operation.conn c (s.finished.map Prod.fst) ++
        Offload.withKey Operation.conn c s.work.pending =
          Offload.withKey Operation.conn c (started es) := by
  have hstep (t : State) (e : Event) (ht : OnLive t) (he : (system.restrict Alone).Enabled t e) :
      OnLive (next t e) ∧ ((Offload.system completion).restrict
        (Offload.OneAtATime Operation.conn)).Shows t.work (workEvent e) (next t e).work :=
    ⟨next_onLive ht he.1 he.2, shows_alone ht.busy he.1 he.2⟩
  obtain ⟨honlive, hrun⟩ := h.project State.work workEvent hstep ⟨initial_busy, nofun⟩
  have hordered := Offload.ordered (Offload.one_at_a_time hrun).2
  refine ⟨hordered.single, honlive.live, fun c => ?_⟩
  rw [← submitted_workEvent]
  exact hordered.order c

instance (s : State) : (e : Event) → Decidable (Alone s e)
  | .post op => inferInstanceAs (Decidable (op.conn ∉ s.work.pending.map Operation.conn))
  | .thread a => by
    cases a
    case destroy c => exact inferInstanceAs (Decidable (c ∉ s.work.pending.map Operation.conn))
    all_goals exact isTrue trivial
  | .take _ | .finish .. | .call => isTrue trivial

instance (s : State) (e : Event) : Decidable ((system.restrict Alone).Enabled s e) :=
  inferInstanceAs (Decidable (Enabled s e ∧ Alone s e))

theorem one_operation_connected : connectedState.threads.stage 0 = .constructed := by
  have hvalid : ValidTrace (system.restrict Alone) initial connectedEvents := by decide
  exact (one_operation (valid_trace_run hvalid)).2.1 (executeQuery 0 8) (.head _)

end OneOperation

end SqlOperations

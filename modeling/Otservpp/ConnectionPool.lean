import Mathlib.Data.List.Perm.Basic
import Otservpp.EventSystem

/-! # The pool of database connections

`ConnectionPool` after start-up: a deque of connections, a queue of requests, and the pointers that
clients hold. Handlers of the strand run one at a time; `dispatch` from inside the strand runs at
once, so a handler that drops its pointer or asks for another one is still on the stack while the
next handler runs. Copies of a `ConnectionPtr` share one owner, whose deleter runs once. -/
namespace ConnectionPool

open EventSystem

/-- Requests are numbered in the order in which the strand executes them. -/
abbrev Ticket := ℕ

abbrev Connection := ℕ

/-- What was dispatched from outside of the strand. -/
inductive Task where
  | getConnection
  | returnToPool (conn : Connection)
  deriving DecidableEq, Repr

/-- A handler has the pointer it was called with until it parts with it, at the latest when its
body is over. -/
inductive Phase where
  | running (own : Option Connection)
  | leaving
  deriving DecidableEq, Repr

def Phase.own : Phase → Option Connection
  | .running own => own
  | .leaving => none

/-- A request handler that was called and is still on the stack. -/
structure Frame where
  ticket : Ticket
  inDeleter : Bool
  phase : Phase
  deriving DecidableEq, Repr

structure State where
  pool : List Connection
  requestQueue : List Ticket
  kept : List Connection
  posted : List Task
  frames : List Frame
  executed : List Ticket
  invoked : List Ticket
  deriving DecidableEq, Repr

def initial (n : ℕ) : State := ⟨List.range n, [], [], [], [], [], []⟩

section Operations

/-- The handler of a request is called with a new `ConnectionPtr`. -/
def invoke (inDeleter : Bool) (ticket : Ticket) (conn : Connection) (s : State) : State :=
  { s with
    frames := ⟨ticket, inDeleter, .running (some conn)⟩ :: s.frames
    invoked := s.invoked ++ [ticket] }

/-- The body of `getConnection` in the strand. -/
def getConnection (ticket : Ticket) (s : State) : State :=
  match s.pool with
  | [] => { s with requestQueue := s.requestQueue ++ [ticket] }
  | conn :: rest => invoke false ticket conn { s with pool := rest }

/-- The strand executes the next request, whose ticket is noted before its body runs. -/
def execute (s : State) : State :=
  getConnection s.executed.length { s with executed := s.executed ++ [s.executed.length] }

/-- The body of `returnToPool` in the strand. -/
def returnToPool (inDeleter : Bool) (conn : Connection) (s : State) : State :=
  match s.requestQueue with
  | [] => { s with pool := s.pool ++ [conn] }
  | ticket :: rest => invoke inDeleter ticket conn { s with requestQueue := rest }

def Task.run : Task → State → State
  | .getConnection => execute
  | .returnToPool conn => ConnectionPool.returnToPool false conn

/-- `OnDeleteReturnToPool` inside the strand. -/
def deletePtr (own : Option Connection) (s : State) : State :=
  match own with
  | some conn => returnToPool true conn s
  | none => s

end Operations

/-- Outside of the strand clients post requests and drop pointers they kept, and the strand takes
up a task. The rest is what the running handler does, `leave` being its return or its exception;
`pop` is the end of its frame, when the pointer it was left with is gone. -/
inductive Event where
  | postRequest
  | postRelease (i : ℕ)
  | runTask (i : ℕ)
  | request
  | keep
  | drop
  | dropKept (i : ℕ)
  | leave (throws : Bool)
  | pop
  deriving DecidableEq, Repr

def Running (s : State) : Prop := ∃ f ∈ s.frames.head?, f.phase ≠ .leaving

/-- A handler called from inside the deleter does not throw. -/
def Enabled (s : State) : Event → Prop
  | .postRequest => True
  | .postRelease i => i < s.kept.length
  | .runTask i => s.frames = [] ∧ i < s.posted.length
  | .request => Running s
  | .keep => Running s
  | .drop => Running s
  | .dropKept i => s.frames ≠ [] ∧ i < s.kept.length
  | .leave throws =>
    ∃ f ∈ s.frames.head?, f.phase ≠ .leaving ∧ ¬ (throws = true ∧ f.inDeleter = true)
  | .pop => ∃ f ∈ s.frames.head?, f.phase = .leaving

def setPhase (phase : Phase) (s : State) : State :=
  { s with frames := s.frames.modifyHead fun f => { f with phase := phase } }

/-- The pointer of the running handler. -/
def ownOf (s : State) : Option Connection := s.frames.head?.bind fun f => f.phase.own

def next (s : State) : Event → State
  | .postRequest => { s with posted := s.posted ++ [.getConnection] }
  | .postRelease i =>
    match s.kept[i]? with
    | some conn => { s with kept := s.kept.eraseIdx i, posted := s.posted ++ [.returnToPool conn] }
    | none => s
  | .runTask i =>
    match s.posted[i]? with
    | some task => task.run { s with posted := s.posted.eraseIdx i }
    | none => s
  | .request => execute s
  | .keep => { setPhase (.running none) s with kept := s.kept ++ (ownOf s).toList }
  | .drop => deletePtr (ownOf s) (setPhase (.running none) s)
  | .dropKept i =>
    match s.kept[i]? with
    | some conn => returnToPool true conn { s with kept := s.kept.eraseIdx i }
    | none => s
  | .leave _ => deletePtr (ownOf s) (setPhase .leaving s)
  | .pop => { s with frames := s.frames.tail }

def system : System State Event := ⟨Enabled, next⟩

instance (s : State) : (e : Event) → Decidable (Enabled s e)
  | .postRequest => isTrue trivial
  | .postRelease i => inferInstanceAs (Decidable (i < s.kept.length))
  | .runTask i => inferInstanceAs (Decidable (s.frames = [] ∧ i < s.posted.length))
  | .request => inferInstanceAs (Decidable (∃ f ∈ s.frames.head?, f.phase ≠ .leaving))
  | .keep => inferInstanceAs (Decidable (∃ f ∈ s.frames.head?, f.phase ≠ .leaving))
  | .drop => inferInstanceAs (Decidable (∃ f ∈ s.frames.head?, f.phase ≠ .leaving))
  | .dropKept i => inferInstanceAs (Decidable (s.frames ≠ [] ∧ i < s.kept.length))
  | .leave throws => inferInstanceAs (Decidable (∃ f ∈ s.frames.head?,
      f.phase ≠ .leaving ∧ ¬ (throws = true ∧ f.inDeleter = true)))
  | .pop => inferInstanceAs (Decidable (∃ f ∈ s.frames.head?, f.phase = .leaving))

instance (s : State) (e : Event) : Decidable (system.Enabled s e) :=
  inferInstanceAs (Decidable (Enabled s e))

def Reachable (n : ℕ) (es : List Event) (s : State) : Prop := Run system (initial n) es s

section Conservation

variable {s t : State} {x : Connection} {n : ℕ} {es : List Event}

def Task.returning : Task → Option Connection
  | .getConnection => none
  | .returnToPool conn => some conn

/-- What live `ConnectionPtr`s own, in the frames of running handlers or elsewhere. -/
def held (s : State) : List Connection := (s.frames.filterMap fun f => f.phase.own) ++ s.kept

/-- What waits for the strand to take it back. -/
def returning (s : State) : List Connection := s.posted.filterMap Task.returning

/-- How many places a connection is in. -/
def total (x : Connection) (s : State) : ℕ :=
  s.pool.count x + (held s).count x + (returning s).count x

theorem total_invoke (d : Bool) (ticket : Ticket) (conn : Connection) :
    total x (invoke d ticket conn s) = total x s + [conn].count x := by
  simp only [total, held, returning, invoke, Phase.own, List.filterMap_cons, List.cons_append,
    List.count_cons, List.count_nil]
  omega

theorem total_returnToPool (d : Bool) (conn : Connection) :
    total x (returnToPool d conn s) = total x s + [conn].count x := by
  unfold returnToPool
  split
  · simp only [total, held, returning, List.count_append]
    omega
  · exact total_invoke d _ conn

theorem total_execute : total x (execute s) = total x s := by
  unfold execute getConnection
  split
  · rfl
  · rename_i conn rest hpool
    replace hpool : s.pool = conn :: rest := hpool
    rw [total_invoke]
    simp only [total, held, returning, hpool, List.count_cons, List.count_nil]
    omega

theorem total_deletePtr (own : Option Connection) :
    total x (deletePtr own s) = total x s + own.toList.count x := by
  cases own with
  | none => rfl
  | some conn => exact total_returnToPool true conn

/-- A handler that goes on without its pointer has parted with the one it had. -/
theorem total_setPhase {phase : Phase} (h : phase.own = none) :
    total x (setPhase phase s) + (ownOf s).toList.count x = total x s := by
  cases hframes : s.frames with
  | nil => simp [total, held, returning, setPhase, ownOf, hframes]
  | cons f rest =>
    cases hown : f.phase.own with
    | none => simp [total, held, returning, setPhase, ownOf, hframes, hown, h]
    | some conn =>
      simp only [total, held, returning, setPhase, ownOf, hframes, hown, h, List.modifyHead_cons,
        List.filterMap_cons, List.count_append, List.head?_cons, Option.bind_some,
        Option.toList_some, List.count_cons, List.count_nil]
      omega

theorem count_eraseIdx {l : List Connection} {i : ℕ} {a : Connection} (h : l[i]? = some a) :
    l.count x = (l.eraseIdx i).count x + [a].count x := by
  obtain ⟨hlt, rfl⟩ := List.getElem?_eq_some_iff.mp h
  rw [← (List.getElem_cons_eraseIdx_perm hlt).count_eq x, List.count_cons, List.count_cons,
    List.count_nil]
  omega

theorem total_eraseKept {i : ℕ} {conn : Connection} (h : s.kept[i]? = some conn) :
    total x { s with kept := s.kept.eraseIdx i } + [conn].count x = total x s := by
  have hcount := count_eraseIdx (x := x) h
  simp only [total, held, returning, List.count_append]
  omega

theorem total_erasePosted {i : ℕ} {task : Task} (h : s.posted[i]? = some task) :
    total x { s with posted := s.posted.eraseIdx i } + task.returning.toList.count x = total x s := by
  obtain ⟨hlt, rfl⟩ := List.getElem?_eq_some_iff.mp h
  have hperm := (List.getElem_cons_eraseIdx_perm hlt).filterMap Task.returning
  have hcount := hperm.count_eq x
  unfold total held returning
  cases htask : s.posted[i].returning with
  | none =>
    rw [List.filterMap_cons_none htask] at hcount
    simp [hcount]
  | some conn =>
    rw [List.filterMap_cons_some htask, List.count_cons] at hcount
    simp only [Option.toList_some, List.count_cons, List.count_nil]
    omega

theorem total_run (task : Task) :
    total x (task.run s) = total x s + task.returning.toList.count x := by
  cases task with
  | getConnection => exact total_execute
  | returnToPool conn => exact total_returnToPool false conn

/-- Every step moves connections from one place to another. -/
theorem next_total {e : Event} (he : Enabled s e) : total x (next s e) = total x s := by
  cases e with
  | postRequest =>
    have hnone : Task.getConnection.returning = none := rfl
    simp [next, total, held, returning, hnone]
  | postRelease i =>
    have hget : s.kept[i]? = some s.kept[i] := List.getElem?_eq_getElem he
    have hkept := total_eraseKept (x := x) hget
    have hposted : total x { s with
        kept := s.kept.eraseIdx i, posted := s.posted ++ [.returnToPool s.kept[i]] } =
        total x { s with kept := s.kept.eraseIdx i } + [s.kept[i]].count x := by
      simp only [total, held, returning, List.filterMap_append, List.count_append]
      exact (Nat.add_assoc _ _ _).symm
    simp only [next, hget]
    exact hposted.trans hkept
  | runTask i =>
    have hlt : i < s.posted.length := he.2
    have hget : s.posted[i]? = some s.posted[i] := List.getElem?_eq_getElem hlt
    simp only [next, hget]
    exact (total_run _).trans (total_erasePosted hget)
  | request => exact total_execute
  | keep =>
    have hphase : total x (setPhase (.running none) s) + (ownOf s).toList.count x = total x s :=
      total_setPhase rfl
    have hkept : total x (next s .keep) =
        total x (setPhase (.running none) s) + (ownOf s).toList.count x := by
      simp only [next, total, held, returning, setPhase, List.count_append]
      omega
    exact hkept.trans hphase
  | drop => exact (total_deletePtr _).trans (total_setPhase rfl)
  | dropKept i =>
    have hlt : i < s.kept.length := he.2
    have hget : s.kept[i]? = some s.kept[i] := List.getElem?_eq_getElem hlt
    simp only [next, hget]
    exact (total_returnToPool true _).trans (total_eraseKept hget)
  | leave throws => exact (total_deletePtr _).trans (total_setPhase rfl)
  | pop =>
    obtain ⟨f, hf, hleaving⟩ := he
    obtain ⟨rest, hframes⟩ := List.head?_eq_some_iff.mp hf
    simp [next, total, held, returning, hframes, hleaving, Phase.own]

/-- In every reachable state, also while handlers are on the stack, each of the `n` connections is
in the pool, held by one `ConnectionPtr` or on its way back, and nothing else is anywhere. -/
theorem connections_conserved (h : Reachable n es s) :
    ∀ x, s.pool.count x + (held s).count x + (returning s).count x = if x < n then 1 else 0 := by
  intro x
  have hrun : total x s = total x (initial n) :=
    Run.invariant (I := fun t => total x t = total x (initial n))
      (fun t e ht he => (next_total he).trans ht) rfl h
  have hinitial : total x (initial n) = if x < n then 1 else 0 := by
    simp [total, held, returning, initial, List.nodup_range.count]
  exact hrun.trans hinitial

/-- A handler that asks again and then drops its pointer: the second handler is called from
inside the deleter, keeps the connection and leaves, and a later release is served by the strand. -/
def reentrantRun : List Event :=
  [.postRequest, .runTask 0, .request, .drop, .keep, .leave false, .pop, .leave true, .pop,
    .postRelease 0, .postRequest, .runTask 1, .runTask 0, .leave true]

theorem reentrantRun_reachable : Reachable 1 reentrantRun (runTrace system (initial 1) reentrantRun) :=
  valid_trace_run (by decide)

theorem connections_conserved_reentrant : (runTrace system (initial 1) reentrantRun).pool.count 0 +
    (held (runTrace system (initial 1) reentrantRun)).count 0 +
    (returning (runTrace system (initial 1) reentrantRun)).count 0 = 1 :=
  connections_conserved reentrantRun_reachable 0

end Conservation

section Order

variable {s t : State} {n : ℕ} {es : List Event}

/-- Nobody waits while a connection is free, and requests are served in their order. -/
structure InOrder (s : State) : Prop where
  noIdle : s.pool = [] ∨ s.requestQueue = []
  served : s.invoked ++ s.requestQueue = s.executed
  numbered : s.executed = List.range s.executed.length

def orderView (s : State) := (s.pool, s.requestQueue, s.invoked, s.executed)

theorem InOrder.of_eq (h : InOrder s) (k : orderView t = orderView s) : InOrder t := by
  simp only [orderView, Prod.mk.injEq] at k
  obtain ⟨hpool, hqueue, hinvoked, hexecuted⟩ := k
  constructor
  · rw [hpool, hqueue]
    exact h.noIdle
  · rw [hinvoked, hqueue, hexecuted]
    exact h.served
  · rw [hexecuted]
    exact h.numbered

theorem numbered_succ {executed : List Ticket} (h : executed = List.range executed.length) :
    executed ++ [executed.length] = List.range (executed ++ [executed.length]).length := by
  rw [List.length_append, List.length_singleton, List.range_succ, ← h]

/-- A connection is only handed out at once when nobody waits, so nobody is overtaken. -/
theorem execute_inOrder (h : InOrder s) : InOrder (execute s) := by
  have hnumbered := numbered_succ h.numbered
  unfold execute getConnection
  split
  · rename_i hpool
    refine ⟨Or.inl hpool, ?_, hnumbered⟩
    rw [← List.append_assoc, h.served]
  · rename_i conn rest hpool
    replace hpool : s.pool = conn :: rest := hpool
    have hqueue : s.requestQueue = [] := by
      rcases h.noIdle with hempty | hqueue
      · rw [hpool] at hempty
        cases hempty
      · exact hqueue
    have hserved : s.invoked = s.executed := by
      have hall := h.served
      rwa [hqueue, List.append_nil] at hall
    refine ⟨Or.inr hqueue, ?_, hnumbered⟩
    simp only [invoke, hqueue, hserved, List.append_nil]

theorem returnToPool_inOrder (h : InOrder s) (d : Bool) (conn : Connection) :
    InOrder (returnToPool d conn s) := by
  unfold returnToPool
  split
  · rename_i hqueue
    exact ⟨Or.inr hqueue, h.served, h.numbered⟩
  · rename_i ticket rest hqueue
    have hpool : s.pool = [] := by
      rcases h.noIdle with hpool | hempty
      · exact hpool
      · rw [hqueue] at hempty
        cases hempty
    refine ⟨Or.inl hpool, ?_, h.numbered⟩
    have hserved := h.served
    rw [hqueue] at hserved
    simpa only [invoke, List.append_assoc, List.singleton_append] using hserved

theorem deletePtr_inOrder (h : InOrder s) (own : Option Connection) : InOrder (deletePtr own s) := by
  cases own with
  | none => exact h
  | some conn => exact returnToPool_inOrder h true conn

theorem next_inOrder (h : InOrder s) {e : Event} (he : Enabled s e) : InOrder (next s e) := by
  have hphase (phase : Phase) : InOrder (setPhase phase s) := h.of_eq rfl
  cases e with
  | postRequest => exact h.of_eq rfl
  | postRelease i =>
    have hget : s.kept[i]? = some s.kept[i] := List.getElem?_eq_getElem he
    simp only [next, hget]
    exact h.of_eq rfl
  | runTask i =>
    have hlt : i < s.posted.length := he.2
    have hget : s.posted[i]? = some s.posted[i] := List.getElem?_eq_getElem hlt
    have htaken : InOrder { s with posted := s.posted.eraseIdx i } := h.of_eq rfl
    simp only [next, hget]
    cases s.posted[i] with
    | getConnection => exact execute_inOrder htaken
    | returnToPool conn => exact returnToPool_inOrder htaken false conn
  | request => exact execute_inOrder h
  | keep => exact (hphase (.running none)).of_eq rfl
  | drop => exact deletePtr_inOrder (hphase (.running none)) _
  | dropKept i =>
    have hlt : i < s.kept.length := he.2
    have hget : s.kept[i]? = some s.kept[i] := List.getElem?_eq_getElem hlt
    have htaken : InOrder { s with kept := s.kept.eraseIdx i } := h.of_eq rfl
    simp only [next, hget]
    exact returnToPool_inOrder htaken true _
  | leave throws => exact deletePtr_inOrder (hphase .leaving) _
  | pop => exact h.of_eq rfl

/-- In every reachable state, also while handlers are on the stack: a free connection and a
waiting request do not meet, and the handlers called so far are those of the first requests. -/
theorem requests_in_order (h : Reachable n es s) :
    (s.pool = [] ∨ s.requestQueue = []) ∧ s.invoked ++ s.requestQueue = s.executed ∧
      s.executed = List.range s.executed.length := by
  have hinitial : InOrder (initial n) := ⟨Or.inr rfl, rfl, rfl⟩
  have hrun := Run.invariant (I := InOrder) (fun _ _ ht he => next_inOrder ht he) hinitial h
  exact ⟨hrun.noIdle, hrun.served, hrun.numbered⟩

theorem requests_in_order_reentrant :
    ((runTrace system (initial 1) reentrantRun).pool = [] ∨
      (runTrace system (initial 1) reentrantRun).requestQueue = []) ∧
    (runTrace system (initial 1) reentrantRun).invoked ++
      (runTrace system (initial 1) reentrantRun).requestQueue =
      (runTrace system (initial 1) reentrantRun).executed ∧
    (runTrace system (initial 1) reentrantRun).executed =
      List.range (runTrace system (initial 1) reentrantRun).executed.length :=
  requests_in_order reentrantRun_reachable

end Order

end ConnectionPool

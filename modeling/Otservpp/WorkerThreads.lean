import Mathlib.Data.Finset.Card
import Mathlib.Data.List.Count
import Mathlib.Logic.Function.Basic
import Otservpp.EventSystem

/-! # The worker threads of the database service

`construct` starts one thread for each connection, and each thread runs the tasks of all of them.
A thread owns a copy of its connection's `threadEndFlag`; between two tasks it looks whether it has
become the only owner. Steps are the accesses to what threads and clients share. -/
namespace WorkerThreads

open EventSystem

/-- Where a thread is in the function that `construct` gave it. -/
inductive Phase where
  | starting
  | waiting
  | running
  | checking
  | leaving
  | ending
  | terminated
  deriving DecidableEq, Repr

/-- The thread is still in its loop, or on the way to it. -/
def Phase.attends : Phase → Bool
  | .starting | .waiting | .running | .checking => true
  | .leaving | .ending | .terminated => false

/-- A `ConnectionImpl`. While `construct` has not returned, the closure that it gave its thread may
have been copied `temporaries` times. -/
inductive Stage where
  | absent
  | constructing
  | started (thread temporaries : ℕ)
  | constructed
  | destroyed
  deriving DecidableEq, Repr

def Stage.holders : Stage → ℕ
  | .absent | .destroyed => 0
  | .constructing | .constructed => 1
  | .started _ temporaries => 1 + temporaries

def Stage.starts : Stage → Bool
  | .started .. => true
  | _ => false

def Stage.alive : Stage → Bool
  | .absent | .destroyed => false
  | .constructing | .started .. | .constructed => true

/-- What the closure of a thread captured: `terminated` is the flag of connection `conn`. -/
structure Worker where
  conn : ℕ
  phase : Phase
  deriving DecidableEq, Repr

structure State (Task : Type) where
  conns : Finset ℕ
  stage : ℕ → Stage
  useCount : ℕ → ℕ
  workers : List Worker
  threadPool : List ℕ
  queue : List Task
  unfinished : ℕ
  dummyWork : Bool
  stopped : Bool

inductive Event (Task : Type) where
  | construct (c : ℕ)
  | start (c temporaries : ℕ)
  | returns (c : ℕ)
  | throws (c : ℕ)
  | destroy (c : ℕ)
  | post (task : Task)
  | init (i : ℕ)
  | take (i : ℕ)
  | finish (i : ℕ)
  | returnZero (i : ℕ)
  | check (i : ℕ)
  | leave (i : ℕ)
  | exit (i : ℕ)
  | shutdown
  deriving DecidableEq, Repr

variable {Task : Type}

def initial : State Task := ⟨∅, fun _ => .absent, fun _ => 0, [], [], [], 0, true, false⟩

section Operations

def outstandingWork (s : State Task) : ℕ := s.dummyWork.toNat + s.unfinished

/-- Thread `i` looks at its copy of the flag. -/
def unique (s : State Task) (i : ℕ) : Bool :=
  s.workers[i]?.any fun w => s.useCount w.conn = 1

def State.move (s : State Task) (i : ℕ) (p : Phase) : State Task :=
  { s with workers := s.workers.modify i fun w => { w with phase := p } }

/-- `mysql_init` succeeded on a new object. -/
def construct (s : State Task) (c : ℕ) : State Task :=
  { s with
    conns := insert c s.conns
    stage := Function.update s.stage c .constructing
    useCount := Function.update s.useCount c 1 }

/-- The thread starts with its closure; as many more copies of it live until the end of the
expression. -/
def start (s : State Task) (c temporaries : ℕ) : State Task :=
  { s with
    stage := Function.update s.stage c (.started s.workers.length temporaries)
    useCount := Function.update s.useCount c (s.useCount c + (1 + temporaries))
    workers := s.workers ++ [⟨c, .starting⟩] }

def returns (s : State Task) (c : ℕ) : State Task :=
  match s.stage c with
  | .started thread temporaries =>
    { s with
      stage := Function.update s.stage c .constructed
      useCount := Function.update s.useCount c (s.useCount c - temporaries)
      threadPool := s.threadPool ++ [thread] }
  | _ => s

/-- The connection's own flag is destroyed, by its destructor or when `construct` throws. -/
def destroy (s : State Task) (c : ℕ) : State Task :=
  { s with
    stage := Function.update s.stage c .destroyed
    useCount := Function.update s.useCount c (s.useCount c - (s.stage c).holders) }

def next (s : State Task) : Event Task → State Task
  | .construct c => construct s c
  | .start c temporaries => start s c temporaries
  | .returns c => returns s c
  | .throws c => destroy s c
  | .destroy c => destroy s c
  | .post task => { s with queue := s.queue ++ [task], unfinished := s.unfinished + 1 }
  | .init i => s.move i .waiting
  | .take i => { s.move i .running with queue := s.queue.tail }
  | .finish i => { s.move i .checking with unfinished := s.unfinished - 1 }
  | .returnZero i => { s.move i .leaving with stopped := true }
  | .check i => s.move i (if unique s i then .leaving else .waiting)
  | .leave i =>
    { s.move i .ending with
      threadPool := if s.stopped then s.threadPool else s.threadPool.erase i }
  | .exit i => s.move i .terminated
  | .shutdown => { s with stopped := true }

def PhaseIs (s : State Task) (i : ℕ) (p : Phase) : Prop := s.workers[i]?.map Worker.phase = some p

/-- `run_one` takes the first task; it returns zero when the service is stopped or out of work. -/
def Enabled (s : State Task) : Event Task → Prop
  | .construct c => s.stage c = .absent
  | .start c _ => s.stage c = .constructing
  | .returns c => (s.stage c).starts
  | .throws c => s.stage c = .constructing ∨ (s.stage c).starts
  | .destroy c => s.stage c = .constructed
  | .post _ => True
  | .init i => PhaseIs s i .starting
  | .take i => PhaseIs s i .waiting ∧ s.queue ≠ [] ∧ s.stopped = false
  | .finish i => PhaseIs s i .running
  | .returnZero i => PhaseIs s i .waiting ∧ (s.stopped = true ∨ outstandingWork s = 0)
  | .check i => PhaseIs s i .checking
  | .leave i => PhaseIs s i .leaving
  | .exit i => PhaseIs s i .ending
  | .shutdown => True

def service (Task : Type) : System (State Task) (Event Task) := ⟨Enabled, next⟩

/-- The flag of the connection is gone after this event. -/
def Event.destroys (c : ℕ) : Event Task → Prop
  | .throws c' | .destroy c' => c' = c
  | _ => False

/-- The connections whose `construct` has returned and whose flag is not destroyed. -/
def live (s : State Task) : Finset ℕ := s.conns.filter fun c => s.stage c = .constructed

def running (s : State Task) : List Worker := s.workers.filter fun w => w.phase ≠ .terminated

/-- The flags that the threads own, one a thread. -/
def owners (s : State Task) : List ℕ := s.workers.map Worker.conn

end Operations

section Invariant

variable {s : State Task} {i c : ℕ} {p : Phase} {w : Worker}

@[simp] theorem owners_move : owners (s.move i p) = owners s := by
  apply List.ext_getElem?
  intro j
  by_cases hj : i = j
  · subst hj
    simp [owners, State.move, Function.comp_def]
  · simp [owners, State.move, hj]

theorem mem_move (h : w ∈ (s.move i p).workers) :
    w ∈ s.workers ∨ ∃ v, s.workers[i]? = some v ∧ w = { v with phase := p } := by
  obtain ⟨j, hj⟩ := List.getElem?_of_mem h
  by_cases hij : i = j
  · subst hij
    rw [State.move, List.getElem?_modify_eq] at hj
    obtain ⟨v, hv, rfl⟩ := Option.map_eq_some_iff.mp hj
    exact Or.inr ⟨v, hv, rfl⟩
  · rw [State.move, List.getElem?_modify_ne _ _ hij] at hj
    exact Or.inl (List.mem_of_getElem? hj)

theorem phaseIs_iff : PhaseIs s i p ↔ ∃ w, s.workers[i]? = some w ∧ w.phase = p :=
  Option.map_eq_some_iff

/-- How many threads a connection has at each stage. -/
def Stage.Owned : Stage → ℕ → Prop
  | .absent, n | .constructing, n => n = 0
  | .started .., n | .constructed, n => n = 1
  | .destroyed, n => n ≤ 1

/-- The use counts are the numbers of owners, each connection has its own thread, and a thread whose
flag has another owner stays in its loop. -/
structure Invariant (s : State Task) : Prop where
  counted : ∀ c, s.useCount c = (s.stage c).holders + (owners s).count c
  owned : ∀ c, (s.stage c).Owned ((owners s).count c)
  attends : s.stopped = false → ∀ w ∈ s.workers, (s.stage w.conn).alive → w.phase.attends
  work : s.dummyWork = true
  known : ∀ c, s.stage c ≠ .absent → c ∈ s.conns

theorem initial_invariant : Invariant (initial : State Task) := by
  constructor <;> simp [initial, owners, Stage.holders, Stage.Owned]

theorem Invariant.move (h : Invariant s) (hi : s.workers[i]? = some w)
    (hp : s.stopped = false → (s.stage w.conn).alive → p.attends) : Invariant (s.move i p) := by
  refine ⟨?_, ?_, ?_, h.work, h.known⟩
  · intro c
    rw [owners_move]
    exact h.counted c
  · intro c
    rw [owners_move]
    exact h.owned c
  · intro hs v hv halive
    rcases mem_move hv with hold | ⟨w', hw', rfl⟩
    · exact h.attends hs v hold halive
    · obtain rfl : w' = w := Option.some.inj (hw'.symm.trans hi)
      exact hp hs halive

theorem mem_owners (h : w ∈ s.workers) : 0 < (owners s).count w.conn :=
  List.count_pos_iff.mpr (List.mem_map_of_mem h)

theorem Stage.starts_iff {g : Stage} :
    g.starts ↔ ∃ thread temporaries, g = .started thread temporaries := by
  cases g <;> simp [Stage.starts]

theorem Invariant.change {t : State Task} {g : Stage} (h : Invariant s)
    (stage : t.stage = Function.update s.stage c g)
    (useCount : ∀ d, d ≠ c → t.useCount d = s.useCount d)
    (others : ∀ d, d ≠ c → (owners t).count d = (owners s).count d)
    (counted : t.useCount c = g.holders + (owners t).count c)
    (owned : g.Owned ((owners t).count c))
    (workers : ∀ w ∈ t.workers, w.conn ≠ c → w ∈ s.workers)
    (attends : s.stopped = false → ∀ w ∈ t.workers, w.conn = c → g.alive → w.phase.attends)
    (stopped : t.stopped = s.stopped) (work : t.dummyWork = s.dummyWork)
    (known : c ∈ t.conns) (conns : s.conns ⊆ t.conns) : Invariant t := by
  have hc : t.stage c = g := by rw [stage, Function.update_self]
  have hother : ∀ d, d ≠ c → t.stage d = s.stage d := fun d hd => by
    rw [stage, Function.update_of_ne hd]
  refine ⟨fun d => ?_, fun d => ?_, fun hs w hw halive => ?_, work.trans h.work, fun d hd => ?_⟩
  · by_cases hd : d = c
    · rw [hd, hc, counted]
    · rw [useCount d hd, hother d hd, others d hd]
      exact h.counted d
  · by_cases hd : d = c
    · rw [hd, hc]
      exact owned
    · rw [hother d hd, others d hd]
      exact h.owned d
  · rw [stopped] at hs
    by_cases hd : w.conn = c
    · rw [hd, hc] at halive
      exact attends hs w hw hd halive
    · rw [hother _ hd] at halive
      exact h.attends hs w (workers w hw hd) halive
  · by_cases hdc : d = c
    · exact hdc ▸ known
    · exact conns (h.known d (by rwa [hother d hdc] at hd))

theorem Invariant.unowned (h : Invariant s) (hc : s.stage c = .absent ∨ s.stage c = .constructing) :
    (owners s).count c = 0 := by
  have howned := h.owned c
  rcases hc with hc | hc
  · rwa [hc] at howned
  · rwa [hc] at howned

theorem ne_of_unowned (hnone : (owners s).count c = 0) (hw : w ∈ s.workers) : w.conn ≠ c := by
  rintro rfl
  exact (mem_owners hw).ne' hnone

theorem construct_invariant (h : Invariant s) (hc : s.stage c = .absent) :
    Invariant (construct s c) := by
  have hnone := h.unowned (Or.inl hc)
  refine h.change rfl (fun d hd => Function.update_of_ne hd _ _) (fun _ _ => rfl) ?_ hnone
    (fun _ hw _ => hw) (fun _ w hw hd _ => absurd hd (ne_of_unowned hnone hw)) rfl rfl
    (Finset.mem_insert_self _ _) (Finset.subset_insert _ _)
  change Function.update s.useCount c 1 c = 1 + (owners s).count c
  rw [Function.update_self, hnone]

theorem start_invariant (h : Invariant s) (hc : s.stage c = .constructing) (temporaries : ℕ) :
    Invariant (start s c temporaries) := by
  have hnone := h.unowned (Or.inr hc)
  have howners : owners (start s c temporaries) = owners s ++ [c] := by simp [owners, start]
  have hone : (owners (start s c temporaries)).count c = 1 := by simp [howners, hnone]
  have hcount := h.counted c
  rw [hc, hnone] at hcount
  refine h.change rfl (fun d hd => Function.update_of_ne hd _ _) (fun d hd => ?_) ?_ hone
    (fun w hw hd => ?_) (fun _ w hw hd _ => ?_) rfl rfl (h.known c (by simp [hc]))
    (Finset.Subset.refl _)
  · simp [howners, Ne.symm hd]
  · rw [hone]
    change Function.update s.useCount c (s.useCount c + (1 + temporaries)) c = 1 + temporaries + 1
    rw [Function.update_self, hcount]
    change 1 + 0 + (1 + temporaries) = _
    omega
  · rcases List.mem_append.mp hw with hold | hnew
    · exact hold
    · exact absurd (congrArg Worker.conn (List.mem_singleton.mp hnew)) hd
  · rcases List.mem_append.mp hw with hold | hnew
    · exact absurd hd (ne_of_unowned hnone hold)
    · rw [List.mem_singleton.mp hnew]
      rfl

theorem returns_invariant (h : Invariant s) (hc : (s.stage c).starts) :
    Invariant (returns s c) := by
  obtain ⟨thread, temporaries, hstage⟩ := Stage.starts_iff.mp hc
  have hcount := h.counted c
  have howned := h.owned c
  rw [hstage] at hcount howned
  have hattends : s.stopped = false → ∀ w ∈ s.workers, w.conn = c → w.phase.attends :=
    fun hs w hw hd => h.attends hs w hw (by rw [hd, hstage]; rfl)
  rw [returns, hstage]
  refine h.change rfl (fun d hd => Function.update_of_ne hd _ _) (fun _ _ => rfl) ?_ howned
    (fun _ hw _ => hw) (fun hs w hw hd _ => hattends hs w hw hd) rfl rfl
    (h.known c (by simp [hstage])) (Finset.Subset.refl _)
  change Function.update s.useCount c (s.useCount c - temporaries) c = 1 + (owners s).count c
  change s.useCount c = 1 + temporaries + (owners s).count c at hcount
  rw [Function.update_self]
  omega

theorem destroy_invariant (h : Invariant s) (hc : (s.stage c).alive) : Invariant (destroy s c) := by
  have hcount := h.counted c
  have hatmost : (owners s).count c ≤ 1 := by
    have howned := h.owned c
    cases hstage : s.stage c with
    | absent | constructing =>
      rw [hstage] at howned
      exact howned.le.trans (Nat.zero_le 1)
    | started | constructed =>
      rw [hstage] at howned
      exact howned.le
    | destroyed =>
      rw [hstage] at howned
      exact howned
  have hknown : s.stage c ≠ .absent := by
    intro habsent
    rw [habsent] at hc
    cases hc
  refine h.change rfl (fun d hd => Function.update_of_ne hd _ _) (fun _ _ => rfl) ?_ hatmost
    (fun _ hw _ => hw) (fun _ _ _ _ halive => by cases halive) rfl rfl (h.known c hknown)
    (Finset.Subset.refl _)
  change Function.update s.useCount c (s.useCount c - (s.stage c).holders) c =
    0 + (owners s).count c
  rw [Function.update_self]
  omega

theorem Stage.holders_pos {g : Stage} (h : g.alive) : 0 < g.holders := by
  cases g with
  | absent | destroyed => cases h
  | constructing | constructed => exact Nat.one_pos
  | started thread temporaries => exact Nat.add_pos_left Nat.one_pos _

/-- A thread whose connection is alive is not the only owner of the flag. -/
theorem Invariant.not_unique (h : Invariant s) (hi : s.workers[i]? = some w)
    (halive : (s.stage w.conn).alive) : unique s i = false := by
  have hholders := Stage.holders_pos halive
  have hthread := mem_owners (List.mem_of_getElem? hi)
  have hcount := h.counted w.conn
  simp only [unique, hi, Option.any_some, decide_eq_false_iff_not]
  omega

theorem Invariant.unique_of_destroyed (h : Invariant s) (hi : s.workers[i]? = some w)
    (hgone : s.stage w.conn = .destroyed) : unique s i = true := by
  have hthread := mem_owners (List.mem_of_getElem? hi)
  have hcount := h.counted w.conn
  have hatmost := h.owned w.conn
  rw [hgone] at hcount hatmost
  change s.useCount w.conn = 0 + _ at hcount
  change (owners s).count w.conn ≤ 1 at hatmost
  simp only [unique, hi, Option.any_some, decide_eq_true_eq]
  omega

theorem Invariant.outstandingWork_pos (h : Invariant s) : 0 < outstandingWork s := by
  rw [outstandingWork, h.work]
  exact Nat.add_pos_left Nat.one_pos _

theorem next_invariant (h : Invariant s) {e : Event Task} (he : Enabled s e) :
    Invariant (next s e) := by
  cases e with
  | construct c => exact construct_invariant h he
  | start c temporaries => exact start_invariant h he temporaries
  | returns c => exact returns_invariant h he
  | throws c =>
    refine destroy_invariant h ?_
    rcases he with hc | hc
    · rw [hc]
      rfl
    · obtain ⟨thread, temporaries, hc⟩ := Stage.starts_iff.mp hc
      rw [hc]
      rfl
  | destroy c =>
    refine destroy_invariant h ?_
    rw [show s.stage c = .constructed from he]
    rfl
  | post task => exact ⟨h.counted, h.owned, h.attends, h.work, h.known⟩
  | init i =>
    obtain ⟨w, hi, -⟩ := phaseIs_iff.mp he
    exact h.move hi fun _ _ => rfl
  | take i =>
    obtain ⟨w, hi, -⟩ := phaseIs_iff.mp he.1
    have hmove := h.move (p := .running) hi fun _ _ => rfl
    exact ⟨hmove.counted, hmove.owned, hmove.attends, hmove.work, hmove.known⟩
  | finish i =>
    obtain ⟨w, hi, -⟩ := phaseIs_iff.mp he
    have hmove := h.move (p := .checking) hi fun _ _ => rfl
    exact ⟨hmove.counted, hmove.owned, hmove.attends, hmove.work, hmove.known⟩
  | returnZero i =>
    obtain ⟨w, hi, -⟩ := phaseIs_iff.mp he.1
    have hstopped : s.stopped = true := he.2.resolve_right h.outstandingWork_pos.ne'
    have hmove := h.move (p := .leaving) hi fun hs => by
      rw [hstopped] at hs
      cases hs
    exact ⟨hmove.counted, hmove.owned, fun hs => (by cases hs), hmove.work, hmove.known⟩
  | check i =>
    obtain ⟨w, hi, -⟩ := phaseIs_iff.mp he
    refine h.move hi fun _ halive => ?_
    rw [h.not_unique hi halive]
    rfl
  | leave i =>
    obtain ⟨w, hi, hp⟩ := phaseIs_iff.mp he
    have hmove := h.move (p := .ending) hi fun hs halive => by
      have hattends := h.attends hs w (List.mem_of_getElem? hi) halive
      rw [hp] at hattends
      cases hattends
    exact ⟨hmove.counted, hmove.owned, hmove.attends, hmove.work, hmove.known⟩
  | exit i =>
    obtain ⟨w, hi, hp⟩ := phaseIs_iff.mp he
    refine h.move hi fun hs halive => ?_
    have hattends := h.attends hs w (List.mem_of_getElem? hi) halive
    rw [hp] at hattends
    cases hattends
  | shutdown => exact ⟨h.counted, h.owned, fun hs => (by cases hs), h.work, h.known⟩

theorem run_invariant {es : List (Event Task)} (h : Run (service Task) initial es s) :
    Invariant s :=
  h.invariant (I := Invariant) (fun _ _ ht he => next_invariant ht he) initial_invariant

/-- The service stops only when it is shut down: `dummyWork` keeps `run_one` from returning zero. -/
theorem next_stopped (h : Invariant s) {e : Event Task} (he : Enabled s e) (hs : s.stopped = false)
    (hne : e ≠ .shutdown) : (next s e).stopped = false := by
  cases e with
  | returns c =>
    obtain ⟨thread, temporaries, hc⟩ := Stage.starts_iff.mp he
    simpa [next, returns, hc] using hs
  | returnZero i =>
    have hstopped : s.stopped = true := he.2.resolve_right h.outstandingWork_pos.ne'
    rw [hstopped] at hs
    cases hs
  | shutdown => exact absurd rfl hne
  | construct | start | throws | destroy | post | init | take | finish | check | leave | exit =>
    exact hs

theorem run_stopped {es : List (Event Task)} (h : Run (service Task) initial es s)
    (hes : .shutdown ∉ es) : s.stopped = false := by
  induction h with
  | refl => rfl
  | tail hrun he ih =>
    rw [List.mem_append, not_or, List.mem_singleton] at hes
    exact next_stopped (run_invariant hrun) he (ih hes.1) (Ne.symm hes.2)

/-- Each live connection has a thread that has not terminated. -/
theorem Invariant.live_le_running (h : Invariant s) (hs : s.stopped = false) :
    (live s).card ≤ (running s).length := by
  have hsub : live s ⊆ ((running s).map Worker.conn).toFinset := by
    intro c hc
    have hstage : s.stage c = .constructed := (Finset.mem_filter.mp hc).2
    have hone := h.owned c
    rw [hstage] at hone
    change (owners s).count c = 1 at hone
    have hmem : c ∈ owners s := List.count_pos_iff.mp (by omega)
    obtain ⟨w, hw, rfl⟩ := List.mem_map.mp hmem
    have hattends := h.attends hs w hw (by rw [hstage]; rfl)
    have hrunning : w ∈ running s := by
      refine List.mem_filter.mpr ⟨hw, decide_eq_true fun hterminated => ?_⟩
      rw [hterminated] at hattends
      cases hattends
    exact List.mem_toFinset.mpr (List.mem_map_of_mem hrunning)
  have hcard := Finset.card_le_card hsub
  have hlength := List.toFinset_card_le ((running s).map Worker.conn)
  rw [List.length_map] at hlength
  exact hcard.trans hlength

end Invariant

section Destroyed

variable {s t : State Task} {i c : ℕ} {w : Worker} {e : Event Task} {es : List (Event Task)}

def target (s : State Task) : Event Task → Option (ℕ × Phase)
  | .init i => some (i, .waiting)
  | .take i => some (i, .running)
  | .finish i => some (i, .checking)
  | .returnZero i => some (i, .leaving)
  | .check i => some (i, if unique s i then .leaving else .waiting)
  | .leave i => some (i, .ending)
  | .exit i => some (i, .terminated)
  | .construct _ | .start .. | .returns _ | .throws _ | .destroy _ | .post _ | .shutdown => none

def moved (s : State Task) (e : Event Task) (i : ℕ) (p : Phase) : Phase :=
  match target s e with
  | some (j, q) => if j = i then q else p
  | none => p

theorem move_worker (hi : s.workers[i]? = some w) (j : ℕ) (q : Phase) :
    (s.move j q).workers[i]? = some { w with phase := if j = i then q else w.phase } := by
  by_cases hj : j = i
  · subst hj
    simp [State.move, hi]
  · simp [State.move, hi, hj]

theorem returns_workers (s : State Task) (c : ℕ) : (returns s c).workers = s.workers := by
  unfold returns
  split <;> rfl

theorem next_worker (hi : s.workers[i]? = some w) (e : Event Task) :
    (next s e).workers[i]? = some { w with phase := moved s e i w.phase } := by
  cases e with
  | init | take | finish | returnZero | check | leave | exit => exact move_worker hi _ _
  | construct | throws | destroy | post | shutdown => exact hi
  | start c temporaries =>
    obtain ⟨hlt, -⟩ := List.getElem?_eq_some_iff.mp hi
    exact (List.getElem?_append_left hlt).trans hi
  | returns c =>
    exact (congrArg (·[i]?) (returns_workers s c)).trans hi

def Event.takes (i : ℕ) : Event Task → Bool
  | .take j => j = i
  | _ => false

def Phase.allowance : Phase → ℕ
  | .starting | .waiting => 1
  | .running | .checking | .leaving | .ending | .terminated => 0

def allowance (i : ℕ) (s : State Task) : ℕ := (s.workers[i]?.map (·.phase.allowance)).getD 0

/-- A thread that is the only owner of its flag leaves when it looks, and no step brings it back. -/
theorem moved_allowance (he : Enabled s e) (hi : s.workers[i]? = some w) (hu : unique s i) :
    (e.takes i).toNat + (moved s e i w.phase).allowance ≤ w.phase.allowance := by
  have hphase : ∀ p, PhaseIs s i p → w.phase = p := fun p hp => by
    obtain ⟨w', hw', rfl⟩ := phaseIs_iff.mp hp
    rw [Option.some.inj (hi.symm.trans hw')]
  cases e with
  | construct | start | returns | throws | destroy | post | shutdown =>
    exact (Nat.zero_add _).le
  | init j | finish j | leave j | exit j =>
    by_cases hj : j = i
    · subst hj
      simp [hphase _ he, moved, target, Event.takes, Phase.allowance]
    · simp [moved, target, Event.takes, hj]
  | take j | returnZero j =>
    by_cases hj : j = i
    · subst hj
      simp [hphase _ he.1, moved, target, Event.takes, Phase.allowance]
    · simp [moved, target, Event.takes, hj]
  | check j =>
    by_cases hj : j = i
    · subst hj
      simp [hphase _ he, hu, moved, target, Event.takes, Phase.allowance]
    · simp [moved, target, Event.takes, hj]

theorem destroyed_kept (hc : s.stage c = .destroyed) (he : Enabled s e) :
    (next s e).stage c = .destroyed := by
  have hother : ∀ {d : ℕ} {f : Stage}, s.stage d ≠ .destroyed →
      Function.update s.stage d f c = .destroyed := by
    intro d f hd
    rwa [Function.update_of_ne]
    rintro rfl
    exact hd hc
  cases e with
  | init | take | finish | returnZero | check | leave | exit | post | shutdown => exact hc
  | construct d => exact hother (by rw [show s.stage d = .absent from he]; decide)
  | start d temporaries => exact hother (by rw [show s.stage d = .constructing from he]; decide)
  | returns d =>
    obtain ⟨thread, temporaries, hd⟩ := Stage.starts_iff.mp he
    rw [next, returns, hd]
    exact hother (by simp [hd])
  | throws d | destroy d =>
    by_cases hd : c = d
    · rw [hd]
      exact Function.update_self ..
    · exact (Function.update_of_ne hd _ _).trans hc

structure Released (c i : ℕ) (s : State Task) : Prop where
  invariant : Invariant s
  destroyed : s.stage c = .destroyed
  thread : ∃ w, s.workers[i]? = some w ∧ w.conn = c

theorem Released.step (h : Released c i s) (he : Enabled s e) :
    Released c i (next s e) ∧ (e.takes i).toNat + allowance i (next s e) ≤ allowance i s := by
  obtain ⟨hinv, hgone, w, hi, rfl⟩ := h
  have hnext := next_worker hi e
  refine ⟨⟨next_invariant hinv he, destroyed_kept hgone he, _, hnext, rfl⟩, ?_⟩
  have hle := moved_allowance he hi (hinv.unique_of_destroyed hi hgone)
  simpa [allowance, hi, hnext] using hle

theorem allowance_le_one (i : ℕ) (s : State Task) : allowance i s ≤ 1 := by
  unfold allowance
  cases s.workers[i]? with
  | none => exact Nat.zero_le 1
  | some w => cases hp : w.phase <;> simp [hp, Phase.allowance]

theorem new_worker (hold : s.workers[i]? = none) (hi : (next s e).workers[i]? = some w) :
    ∃ temporaries, e = .start w.conn temporaries := by
  have hold' : ∀ j q, (s.move j q).workers[i]? = none := fun j q => by
    simpa [State.move] using hold
  cases e with
  | init | take | finish | returnZero | check | leave | exit => cases (hold' _ _).symm.trans hi
  | construct | throws | destroy | post | shutdown => cases hold.symm.trans hi
  | start c temporaries =>
    have hlast : [⟨c, .starting⟩][i - s.workers.length]? = some w :=
      (List.getElem?_append_right (List.getElem?_eq_none_iff.mp hold)).symm.trans hi
    rw [List.mem_singleton.mp (List.mem_of_getElem? hlast)]
    exact ⟨temporaries, rfl⟩
  | returns c =>
    cases hold.symm.trans ((congrArg (·[i]?) (returns_workers s c)).symm.trans hi)

theorem destroyed_threads (h : Run (service Task) s es t) (hc : s.stage c = .destroyed)
    (hi : t.workers[i]? = some w) (hw : w.conn = c) : ∃ v, s.workers[i]? = some v ∧ v.conn = c := by
  have hrun : t.stage c = .destroyed ∧ ∀ w, t.workers[i]? = some w → w.conn = c →
      ∃ v, s.workers[i]? = some v ∧ v.conn = c := by
    clear hi hw
    induction h with
    | refl => exact ⟨hc, fun w hi hw => ⟨w, hi, hw⟩⟩
    | @tail es t e _ he ih =>
      refine ⟨destroyed_kept ih.1 he, fun w hi hw => ?_⟩
      cases hold : t.workers[i]? with
      | some v =>
        have hnext := (next_worker hold e).symm.trans hi
        cases hnext
        exact ih.2 v hold hw
      | none =>
        obtain ⟨temporaries, rfl⟩ := new_worker hold hi
        have hstage : t.stage w.conn = .constructing := he
        rw [hw, ih.1] at hstage
        cases hstage
  exact hrun.2 w hi hw

theorem released_at_most_once (h : Run (service Task) s es t) (hs : Released c i s) :
    es.countP (Event.takes i) ≤ 1 := by
  have hstep : ∀ (u : State Task) (e : Event Task), Released c i u → Enabled u e →
      Released c i (next u e) ∧ (e.takes i).toNat + allowance i (next u e) ≤ allowance i u :=
    fun _ _ hu he => hu.step he
  have hcount := (h.count_le (Event.takes i) (allowance i) hstep hs).2
  exact (Nat.le_of_add_right_le hcount).trans (allowance_le_one i s)

/-- For every run before `shutdown_service`: a thread whose connection's flag exists is still in its
loop, there are at least as many threads as live connections, and once its connection is destroyed
a thread starts at most one further task. -/
theorem workers_follow_connections (h : Run (service Task) initial es s) (hes : .shutdown ∉ es) :
    (∀ w ∈ s.workers, (s.stage w.conn).alive → w.phase.attends) ∧
      (live s).card ≤ (running s).length ∧
      ∀ pre e post c, es = pre ++ e :: post → e.destroys c →
        ∀ i w, s.workers[i]? = some w → w.conn = c → post.countP (Event.takes i) ≤ 1 := by
  have hinv := run_invariant h
  have hstopped := run_stopped h hes
  refine ⟨hinv.attends hstopped, hinv.live_le_running hstopped, ?_⟩
  rintro pre e post c rfl hdestroys i w hi hw
  obtain ⟨t, hpre, he, hpost⟩ := h.split
  have hgone : (next t e).stage c = .destroyed := by
    cases e with
    | throws d | destroy d =>
      obtain rfl : d = c := hdestroys
      exact Function.update_self ..
    | _ => exact hdestroys.elim
  have hthread := destroyed_threads hpost hgone hi hw
  exact released_at_most_once hpost ⟨next_invariant (run_invariant hpre) he, hgone, hthread⟩

end Destroyed

section Trace

instance (s : State Task) (i : ℕ) (p : Phase) : Decidable (PhaseIs s i p) :=
  inferInstanceAs (Decidable (_ = _))

instance decidableEnabled (s : State Task) :
    (e : Event Task) → Decidable ((service Task).Enabled s e)
  | .construct c => inferInstanceAs (Decidable (s.stage c = .absent))
  | .start c _ => inferInstanceAs (Decidable (s.stage c = .constructing))
  | .returns c => inferInstanceAs (Decidable ((s.stage c).starts = true))
  | .throws c => inferInstanceAs (Decidable (s.stage c = .constructing ∨ (s.stage c).starts = true))
  | .destroy c => inferInstanceAs (Decidable (s.stage c = .constructed))
  | .post _ | .shutdown => isTrue trivial
  | .init i => inferInstanceAs (Decidable (PhaseIs s i .starting))
  | .take i => inferInstanceAs (Decidable (PhaseIs s i .waiting ∧ s.queue ≠ [] ∧ s.stopped = false))
  | .finish i => inferInstanceAs (Decidable (PhaseIs s i .running))
  | .returnZero i =>
    inferInstanceAs (Decidable (PhaseIs s i .waiting ∧ (s.stopped = true ∨ outstandingWork s = 0)))
  | .check i => inferInstanceAs (Decidable (PhaseIs s i .checking))
  | .leave i => inferInstanceAs (Decidable (PhaseIs s i .leaving))
  | .exit i => inferInstanceAs (Decidable (PhaseIs s i .ending))

/-- A connection is destroyed while its thread waits, next to one that stays. -/
def waitingThread : List (Event Unit) :=
  [.construct 0, .start 0 1, .returns 0, .init 0, .construct 1, .start 1 0, .returns 1, .init 1]

def furtherTask : List (Event Unit) :=
  [.post (), .post (), .take 0, .finish 0, .check 0, .leave 0, .exit 0]

theorem workers_follow_connections_waiting :
    ∃ s, Run (service Unit) initial (waitingThread ++ .destroy 0 :: furtherTask) s ∧
      (live s).card = 1 ∧ 1 ≤ (running s).length ∧ furtherTask.countP (Event.takes 0) ≤ 1 := by
  have hvalid : ValidTrace (service Unit) initial (waitingThread ++ .destroy 0 :: furtherTask) := by
    decide
  have h := workers_follow_connections (valid_trace_run hvalid) (by decide)
  exact ⟨_, valid_trace_run hvalid, rfl, h.2.1, h.2.2 _ _ _ 0 rfl rfl 0 ⟨0, .terminated⟩ rfl rfl⟩

end Trace

end WorkerThreads

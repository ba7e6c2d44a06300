import Mathlib.Data.List.Nodup
import Otservpp.EventSystem

/-! # Work handed to other threads

Jobs wait in a queue until a worker takes them, first come first served. A worker ends its job with
an answer that comes from outside; what the two leave for the client is posted and delivered in
order. -/
namespace Offload

open EventSystem

/-- `taken`, `finished` and `delivered` are logs. -/
structure State (J A K : Type) where
  queue : List J
  hands : List (ℕ × J)
  taken : List J
  finished : List (J × A)
  posted : List K
  delivered : List K
  deriving DecidableEq, Repr

inductive Event (J A : Type) where
  | submit (job : J)
  | take (worker : ℕ)
  | finish (worker : ℕ) (answer : A)
  | deliver
  deriving DecidableEq, Repr

section System

variable {J A K : Type} (perform : J → A → Option K)

def initial : State J A K := ⟨[], [], [], [], [], []⟩

/-- What a worker has in hand. -/
def State.job (s : State J A K) (worker : ℕ) : Option J :=
  (s.hands.find? fun hand => hand.1 = worker).map Prod.snd

/-- The hands without what this worker held. -/
def letGo (worker : ℕ) (hands : List (ℕ × J)) : List (ℕ × J) :=
  hands.eraseP fun hand => hand.1 = worker

def take (worker : ℕ) (s : State J A K) : State J A K :=
  match s.queue with
  | job :: rest =>
    { s with queue := rest, hands := s.hands ++ [(worker, job)], taken := s.taken ++ [job] }
  | [] => s

def finish (worker : ℕ) (answer : A) (s : State J A K) : State J A K :=
  match s.job worker with
  | some job =>
    { s with
      hands := letGo worker s.hands
      finished := s.finished ++ [(job, answer)]
      posted := s.posted ++ (perform job answer).toList }
  | none => s

def deliver (s : State J A K) : State J A K :=
  match s.posted with
  | k :: rest => { s with posted := rest, delivered := s.delivered ++ [k] }
  | [] => s

def Enabled (s : State J A K) : Event J A → Prop
  | .submit _ => True
  | .take worker => s.queue ≠ [] ∧ s.job worker = none
  | .finish worker _ => s.job worker ≠ none
  | .deliver => s.posted ≠ []

def next (s : State J A K) : Event J A → State J A K
  | .submit job => { s with queue := s.queue ++ [job] }
  | .take worker => take worker s
  | .finish worker answer => finish perform worker answer s
  | .deliver => deliver s

def system : System (State J A K) (Event J A) := ⟨Enabled, next perform⟩

/-- The jobs that were submitted, in order. -/
def submitted (es : List (Event J A)) : List J :=
  es.filterMap fun
    | .submit job => some job
    | _ => none

/-- The jobs that were submitted and are not finished. -/
def State.pending (s : State J A K) : List J := s.hands.map Prod.snd ++ s.queue

end System

section Conservation

variable {J A K : Type} {perform : J → A → Option K} {s : State J A K} {es : List (Event J A)}
  {worker : ℕ} {job : J}

theorem submitted_append (es fs : List (Event J A)) :
    submitted (es ++ fs) = submitted es ++ submitted fs := List.filterMap_append

/-- What a worker has in hand stands once among the hands that remain. -/
theorem job_split (h : s.job worker = some job) :
    ∃ pre post, s.hands = pre ++ (worker, job) :: post ∧ letGo worker s.hands = pre ++ post := by
  obtain ⟨⟨w, j⟩, hfind, rfl⟩ := Option.map_eq_some_iff.mp h
  obtain ⟨hw, pre, post, hhands, hpre⟩ := List.find?_eq_some_iff_append.mp hfind
  simp only [decide_eq_true_eq] at hw
  subst hw
  refine ⟨pre, post, hhands, ?_⟩
  rw [letGo, hhands, List.eraseP_append_right]
  · simp
  · intro hand hmem
    simpa using hpre hand hmem

/-- Every job that was submitted is in one place, and every result was posted once. -/
structure Conserved (perform : J → A → Option K) (es : List (Event J A)) (s : State J A K) :
    Prop where
  order : s.taken ++ s.queue = submitted es
  held : s.taken.Perm (s.finished.map Prod.fst ++ s.hands.map Prod.snd)
  results : s.delivered ++ s.posted = s.finished.filterMap fun x => perform x.1 x.2

theorem finish_conserved (h : Conserved perform es s) (worker : ℕ) (answer : A) :
    Conserved perform (es ++ [.finish worker answer]) (finish perform worker answer s) := by
  have horder : s.taken ++ s.queue = submitted (es ++ [.finish worker answer]) := by
    rw [submitted_append, h.order]
    exact (List.append_nil _).symm
  unfold finish
  split
  · next job hjob =>
    obtain ⟨pre, post, hhands, hlet⟩ := job_split hjob
    refine ⟨horder, ?_, ?_⟩
    · refine h.held.trans ?_
      rw [hlet, hhands]
      simp only [List.map_append, List.map_cons, List.map_nil, List.append_assoc]
      refine List.Perm.append_left _ ?_
      rw [List.singleton_append]
      exact List.perm_middle
    · change s.delivered ++ (s.posted ++ (perform job answer).toList) = _
      rw [← List.append_assoc, h.results, List.filterMap_append]
      cases hperform : perform job answer <;> simp [hperform]
  · exact ⟨horder, h.held, h.results⟩

theorem next_conserved (h : Conserved perform es s) (e : Event J A) :
    Conserved perform (es ++ [e]) (next perform s e) := by
  have hsame (hnone : submitted [e] = []) : submitted (es ++ [e]) = submitted es := by
    rw [submitted_append, hnone, List.append_nil]
  cases e with
  | submit job =>
    refine ⟨?_, h.held, h.results⟩
    rw [submitted_append, ← h.order]
    exact (List.append_assoc ..).symm
  | take worker =>
    rw [next, take]
    split
    · next job rest hqueue =>
      refine ⟨?_, ?_, h.results⟩
      · rw [hsame rfl, ← h.order, hqueue]
        simp
      · simp only [List.map_append, List.map_cons, List.map_nil, ← List.append_assoc]
        exact h.held.append_right _
    · exact ⟨(hsame rfl).symm ▸ h.order, h.held, h.results⟩
  | finish worker answer => exact finish_conserved h worker answer
  | deliver =>
    rw [next, deliver]
    split
    · next k rest hposted =>
      refine ⟨(hsame rfl).symm ▸ h.order, h.held, ?_⟩
      rw [← h.results, hposted]
      simp
    · exact ⟨(hsame rfl).symm ▸ h.order, h.held, h.results⟩

theorem conserved (h : Run (system perform) initial es s) : Conserved perform es s := by
  induction h with
  | refl => exact ⟨rfl, .rfl, rfl⟩
  | tail _ _ ih => exact next_conserved ih _

/-- No job is lost and none is doubled. -/
theorem Conserved.perm (h : Conserved perform es s) :
    (submitted es).Perm (s.finished.map Prod.fst ++ s.pending) := by
  rw [← h.order, State.pending, ← List.append_assoc]
  exact h.held.append_right _

end Conservation

section Keys

variable {J A K κ : Type} {perform : J → A → Option K} (key : J → κ) {s : State J A K}
  {es : List (Event J A)} {worker : ℕ} {job : J}

/-- A job is taken only while no other with its key is in hand. -/
def Exclusive (s : State J A K) : Event J A → Prop
  | .take _ => ∀ job ∈ s.queue.head?, key job ∉ s.hands.map fun hand => key hand.2
  | _ => True

/-- A job is submitted only while no other with its key is pending. -/
def OneAtATime (s : State J A K) : Event J A → Prop
  | .submit job => key job ∉ s.pending.map key
  | _ => True

variable {key}

theorem pending_take (worker : ℕ) (s : State J A K) : (take worker s).pending = s.pending := by
  unfold take
  split
  · next job rest hqueue => simp [State.pending, hqueue]
  · rfl

theorem pending_deliver (s : State J A K) : (deliver s).pending = s.pending := by
  unfold deliver
  split <;> rfl

theorem pending_finish (worker : ℕ) (answer : A) (s : State J A K) :
    (finish perform worker answer s).pending.Sublist s.pending := by
  unfold finish
  split
  · exact ((List.eraseP_sublist (p := fun hand => hand.1 = worker)).map Prod.snd).append_right _
  · exact List.Sublist.refl _

theorem pending_next {e : Event J A} (h : job ∈ (next perform s e).pending) :
    job ∈ s.pending ∨ e = .submit job := by
  cases e with
  | submit new =>
    have hpending : (next perform s (.submit new)).pending = s.pending ++ [new] :=
      (List.append_assoc ..).symm
    rw [hpending, List.mem_append, List.mem_singleton] at h
    exact h.imp_right fun hnew => congrArg _ hnew.symm
  | take worker => exact Or.inl (pending_take worker s ▸ h)
  | finish worker answer => exact Or.inl ((pending_finish worker answer s).subset h)
  | deliver => exact Or.inl (pending_deliver s ▸ h)

/-- Who keeps to one job at a time never has two of a key with the workers. -/
theorem one_at_a_time (h : Run ((system perform).restrict (OneAtATime key)) initial es s) :
    (s.pending.map key).Nodup ∧ Run ((system perform).restrict (Exclusive key)) initial es s := by
  induction h with
  | refl => exact ⟨.nil, .refl⟩
  | @tail es t e _ he ih =>
    refine ⟨?_, ih.2.tail ⟨he.1, ?_⟩⟩
    · cases e with
      | submit job =>
        have hpending : (next perform t (.submit job)).pending = t.pending ++ [job] :=
          (List.append_assoc ..).symm
        change (next perform t (.submit job)).pending.map key |>.Nodup
        rw [hpending, List.map_append, List.map_singleton, ← List.concat_eq_append]
        exact ih.1.concat he.2
      | take worker => exact (pending_take worker t).symm ▸ ih.1
      | finish worker answer => exact ih.1.sublist ((pending_finish worker answer t).map key)
      | deliver => exact (pending_deliver t).symm ▸ ih.1
    · cases e with
      | submit | finish | deliver => exact trivial
      | take worker =>
        intro job hjob hmem
        obtain ⟨rest, hqueue⟩ := List.head?_eq_some_iff.mp hjob
        have hnodup := ih.1
        rw [State.pending, List.map_append, hqueue] at hnodup
        refine (List.nodup_append.mp hnodup).2.2 (key job) ?_ (key job) (.head _) rfl
        simpa using hmem

end Keys

section Order

variable {J A K κ : Type} [DecidableEq κ] {perform : J → A → Option K} {key : J → κ}
  {s : State J A K} {es : List (Event J A)} {worker : ℕ} {job : J}

/-- The jobs with a key. -/
def withKey (key : J → κ) (k : κ) (jobs : List J) : List J := jobs.filter fun job => key job = k

theorem withKey_append (k : κ) (xs ys : List J) :
    withKey key k (xs ++ ys) = withKey key k xs ++ withKey key k ys := List.filter_append _ _

theorem withKey_eq_nil {k : κ} {jobs : List J} (h : k ∉ jobs.map key) : withKey key k jobs = [] := by
  refine List.filter_eq_nil_iff.mpr fun job hjob hkey => h ?_
  exact of_decide_eq_true hkey ▸ List.mem_map_of_mem hjob

/-- The jobs of each key are finished in the order in which they were submitted. -/
structure Ordered (key : J → κ) (es : List (Event J A)) (s : State J A K) : Prop where
  single : (s.hands.map fun hand => key hand.2).Nodup
  order : ∀ k, withKey key k (s.finished.map Prod.fst) ++ withKey key k s.pending =
    withKey key k (submitted es)

theorem finish_ordered (h : Ordered key es s) (worker : ℕ) (answer : A) :
    Ordered key (es ++ [.finish worker answer]) (finish perform worker answer s) := by
  have hsubmitted : submitted (es ++ [Event.finish worker answer]) = submitted es := by
    rw [submitted_append]
    exact List.append_nil _
  unfold finish
  split
  · next job hjob =>
    obtain ⟨pre, post, hhands, hlet⟩ := job_split hjob
    have hsingle := h.single
    have horder := h.order
    rw [hhands, List.map_append, List.map_cons] at hsingle
    rw [List.nodup_middle, List.nodup_cons] at hsingle
    refine ⟨?_, fun k => ?_⟩
    · rw [hlet, List.map_append]
      exact hsingle.2
    · rw [hsubmitted, ← horder k]
      simp only [State.pending, hlet]
      simp only [hhands, List.map_append, List.map_cons, List.map_nil, List.append_assoc,
        withKey_append]
      congr 1
      by_cases hk : key job = k
      · have hnot : k ∉ (pre.map Prod.snd).map key := by
          intro hmem
          refine hsingle.1 (List.mem_append_left _ ?_)
          rw [hk]
          simpa using hmem
        rw [withKey_eq_nil hnot]
        simp [withKey, hk]
      · simp [withKey, hk]
  · exact ⟨h.single, fun k => hsubmitted ▸ h.order k⟩

theorem next_ordered (h : Ordered key es s) (e : Event J A) (he : Exclusive key s e) :
    Ordered key (es ++ [e]) (next perform s e) := by
  have hsame (hnone : submitted [e] = []) : submitted (es ++ [e]) = submitted es := by
    rw [submitted_append, hnone, List.append_nil]
  cases e with
  | submit job =>
    refine ⟨h.single, fun k => ?_⟩
    have hpending : (next perform s (.submit job)).pending = s.pending ++ [job] :=
      (List.append_assoc ..).symm
    rw [hpending, submitted_append, withKey_append, withKey_append, ← h.order k, List.append_assoc]
    rfl
  | take worker =>
    rw [next, take]
    split
    · next job rest hqueue =>
      refine ⟨?_, fun k => ?_⟩
      · simp only [List.map_append, List.map_cons, List.map_nil]
        rw [← List.concat_eq_append]
        exact h.single.concat (he job (by rw [hqueue]; rfl))
      · rw [hsame rfl, ← h.order k]
        simp [State.pending, hqueue]
    · exact ⟨h.single, fun k => (hsame rfl).symm ▸ h.order k⟩
  | finish worker answer => exact finish_ordered h worker answer
  | deliver =>
    rw [next, deliver]
    split
    · exact ⟨h.single, fun k => (hsame rfl).symm ▸ h.order k⟩
    · exact ⟨h.single, fun k => (hsame rfl).symm ▸ h.order k⟩

theorem ordered (h : Run ((system perform).restrict (Exclusive key)) initial es s) :
    Ordered key es s := by
  induction h with
  | refl => exact ⟨.nil, fun _ => rfl⟩
  | tail _ he ih => exact next_ordered ih _ he.2

end Order

section Workers

variable {J A K : Type} {perform : J → A → Option K} {s : State J A K} {es : List (Event J A)}

/-- The workers are those below a number. -/
def Among (n : ℕ) (_ : State J A K) : Event J A → Prop
  | .take worker => worker < n
  | _ => True

theorem mem_letGo {hands : List (ℕ × J)} {worker : ℕ} {hand : ℕ × J}
    (h : hand ∈ letGo worker hands) : hand ∈ hands := List.mem_of_mem_eraseP h

theorem hands_among {n : ℕ} (h : Run ((system perform).restrict (Among n)) initial es s) :
    ∀ hand ∈ s.hands, hand.1 < n := by
  refine h.invariant (I := fun t => ∀ hand ∈ t.hands, hand.1 < n) (fun t e ht he => ?_) nofun
  cases e with
  | submit job => exact ht
  | take worker =>
    change ∀ hand ∈ (take worker t).hands, hand.1 < n
    unfold take
    split
    · intro hand hhand
      rcases List.mem_append.mp hhand with hold | hnew
      · exact ht hand hold
      · rw [List.mem_singleton.mp hnew]
        exact he.2
    · exact ht
  | finish worker answer =>
    change ∀ hand ∈ (finish perform worker answer t).hands, hand.1 < n
    unfold finish
    split
    · exact fun hand hhand => ht hand (mem_letGo hhand)
    · exact ht
  | deliver =>
    change ∀ hand ∈ (deliver t).hands, hand.1 < n
    unfold deliver
    split <;> exact ht

/-- A single worker takes a job only when it has none in hand. -/
theorem exclusive_of_single {κ : Type} (key : J → κ) {n : ℕ} (hn : n ≤ 1)
    (h : Run ((system perform).restrict (Among n)) initial es s) :
    Run ((system perform).restrict (Exclusive key)) initial es s := by
  induction h with
  | refl => exact .refl
  | @tail es t e hrun he ih =>
    refine ih.tail ⟨he.1, ?_⟩
    cases e with
    | submit | finish | deliver => exact trivial
    | take worker =>
      have hempty : t.hands = [] := by
        refine List.eq_nil_iff_forall_not_mem.mpr fun hand hhand => ?_
        have hlt := hands_among hrun hand hhand
        have hworker : worker < n := he.2
        have hnot := List.find?_eq_none.mp (Option.map_eq_none_iff.mp he.1.2) hand hhand
        simp only [decide_eq_true_eq] at hnot
        omega
      simp [Exclusive, hempty]

/-- Without a worker no job is taken. -/
theorem never_taken (h : Run ((system perform).restrict (Among 0)) initial es s) : s.taken = [] := by
  refine h.invariant (I := fun t => t.taken = []) (fun t e ht he => ?_) rfl
  cases e with
  | submit job => exact ht
  | take worker => exact absurd he.2 (Nat.not_lt_zero worker)
  | finish worker answer =>
    change (finish perform worker answer t).taken = []
    unfold finish
    split <;> exact ht
  | deliver =>
    change (deliver t).taken = []
    unfold deliver
    split <;> exact ht

/-- What the workers do and what is delivered. -/
def Event.internal : Event J A → Bool
  | .submit _ => false
  | _ => true

/-- Nothing is left to do. -/
def Drained (s : State J A K) : Prop := s.queue = [] ∧ s.hands = [] ∧ s.posted = []

/-- A run of the workers alone. -/
def Reaches (perform : J → A → Option K) (n : ℕ) (s t : State J A K) : Prop :=
  ∃ fs, Run ((system perform).restrict (Among n)) s fs t ∧ ∀ e ∈ fs, e.internal = true

theorem Reaches.refl (n : ℕ) (s : State J A K) : Reaches perform n s s := ⟨[], .refl, nofun⟩

theorem Reaches.step {n : ℕ} {t : State J A K} {e : Event J A} (he : Enabled s e)
    (hn : Among n s e) (hinternal : e.internal = true)
    (h : Reaches perform n (next perform s e) t) : Reaches perform n s t := by
  obtain ⟨fs, hrun, hfs⟩ := h
  have hfirst : Run ((system perform).restrict (Among n)) s [e] (next perform s e) :=
    Run.tail .refl ⟨he, hn⟩
  exact ⟨[e] ++ fs, hfirst.trans hrun, List.forall_mem_cons.mpr ⟨hinternal, hfs⟩⟩

theorem drain_posted (n : ℕ) (posted : List K) (s : State J A K) (hqueue : s.queue = [])
    (hhands : s.hands = []) (hposted : s.posted = posted) :
    ∃ t, Reaches perform n s t ∧ Drained t := by
  induction posted generalizing s with
  | nil => exact ⟨s, Reaches.refl n s, hqueue, hhands, hposted⟩
  | cons k rest ih =>
    have hnext : deliver s = { s with posted := rest, delivered := s.delivered ++ [k] } := by
      rw [deliver, hposted]
    obtain ⟨t, hreach, hdrained⟩ := ih (deliver s) (by rw [hnext]; exact hqueue)
      (by rw [hnext]; exact hhands) (by rw [hnext])
    have hne : s.posted ≠ [] := by simp [hposted]
    exact ⟨t, Reaches.step (e := .deliver) hne trivial rfl hreach, hdrained⟩

variable [Inhabited A]

theorem drain_queue {n : ℕ} (hn : 0 < n) (queue : List J) (s : State J A K)
    (hqueue : s.queue = queue) (hhands : s.hands = []) :
    ∃ t, Reaches perform n s t ∧ Drained t := by
  induction queue generalizing s with
  | nil => exact drain_posted n s.posted s hqueue hhands rfl
  | cons job rest ih =>
    have htake : take 0 s = { s with
        queue := rest, hands := [(0, job)], taken := s.taken ++ [job] } := by
      rw [take, hqueue, hhands]
      rfl
    have hjob : (take 0 s).job 0 = some job := by
      rw [htake]
      rfl
    have hfinish : (finish perform 0 default (take 0 s)).queue = rest ∧
        (finish perform 0 default (take 0 s)).hands = [] := by
      rw [finish, hjob]
      constructor
      · rw [htake]
      · rw [htake]
        rfl
    obtain ⟨t, hreach, hdrained⟩ := ih _ hfinish.1 hfinish.2
    have hidle : s.job 0 = none := by rw [State.job, hhands]; rfl
    have hne : s.queue ≠ [] := by simp [hqueue]
    have hheld : (take 0 s).job 0 ≠ none := by simp [hjob]
    have htaken : Reaches perform n (take 0 s) t :=
      Reaches.step (e := .finish 0 default) hheld trivial rfl hreach
    exact ⟨t, Reaches.step (e := .take 0) ⟨hne, hidle⟩ hn rfl htaken, hdrained⟩

theorem drain_hands {n : ℕ} (hn : 0 < n) (m : ℕ) (s : State J A K) (hhands : s.hands.length = m) :
    ∃ t, Reaches perform n s t ∧ Drained t := by
  induction m generalizing s with
  | zero => exact drain_queue hn s.queue s rfl (List.length_eq_zero_iff.mp hhands)
  | succ m ih =>
    obtain ⟨⟨worker, job⟩, rest, hcons⟩ := List.exists_cons_of_length_eq_add_one hhands
    have hjob : s.job worker = some job := by simp [State.job, hcons]
    have hfinish : (finish perform worker default s).hands.length = m := by
      rw [finish, hjob]
      simpa [letGo, hcons] using hhands
    obtain ⟨t, hreach, hdrained⟩ := ih _ hfinish
    have hheld : s.job worker ≠ none := by simp [hjob]
    exact ⟨t, Reaches.step (e := .finish worker default) hheld trivial rfl hreach, hdrained⟩

/-- With a worker, everything that was submitted can be finished and delivered. -/
theorem drains {n : ℕ} (hn : 0 < n) (s : State J A K) : ∃ t, Reaches perform n s t ∧ Drained t :=
  drain_hands hn s.hands.length s rfl

end Workers

end Offload

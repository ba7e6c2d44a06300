import Mathlib.Data.Nat.Notation
import Mathlib.Logic.Relation

/-! # Event systems and their runs

A system says which events a state allows and where they lead. A run is a list of events, each
allowed where it happens. Conditions on every step of a run are runs of a restricted system. -/
namespace EventSystem

variable {σ ε : Type}

structure System (σ ε : Type) where
  Enabled : σ → ε → Prop
  next : σ → ε → σ

inductive Run (S : System σ ε) (s : σ) : List ε → σ → Prop where
  | refl : Run S s [] s
  | tail {es t e} : Run S s es t → S.Enabled t e → Run S s (es ++ [e]) (S.next t e)

/-- The same system with fewer events allowed. -/
def System.restrict (S : System σ ε) (C : σ → ε → Prop) : System σ ε :=
  ⟨fun s e => S.Enabled s e ∧ C s e, S.next⟩

variable {S : System σ ε} {s t u : σ} {es fs : List ε}

theorem Run.trans (h : Run S s es t) (k : Run S t fs u) : Run S s (es ++ fs) u := by
  induction k with
  | refl => simpa using h
  | tail _ he ih =>
    rw [← List.append_assoc]
    exact ih.tail he

/-- What holds at the start and is kept by every step holds at the end. -/
theorem Run.invariant {I : σ → Prop} (step : ∀ t e, I t → S.Enabled t e → I (S.next t e))
    (hs : I s) (h : Run S s es t) : I t := by
  induction h with
  | refl => exact hs
  | tail _ he ih => exact step _ _ ih he

theorem Run.weaken {C : σ → ε → Prop} (h : Run (S.restrict C) s es t) : Run S s es t := by
  induction h with
  | refl => exact .refl
  | tail _ he ih => exact ih.tail he.1

/-- A step as it is seen from outside: an event of the system, or nothing. -/
def System.Shows (S : System σ ε) (s : σ) : Option ε → σ → Prop
  | some e, t => S.Enabled s e ∧ S.next s e = t
  | none, t => t = s

/-- Where every step shows as one of another system, every run does. -/
theorem Run.project {τ δ : Type} {T : System τ δ} {I : σ → Prop} (f : σ → τ) (g : ε → Option δ)
    (step : ∀ t e, I t → S.Enabled t e → I (S.next t e) ∧ T.Shows (f t) (g e) (f (S.next t e)))
    (hs : I s) (h : Run S s es t) : I t ∧ Run T (f s) (es.filterMap g) (f t) := by
  induction h with
  | refl => exact ⟨hs, .refl⟩
  | @tail es t e _ he ih =>
    obtain ⟨hnext, hstep⟩ := step t e ih.1 he
    refine ⟨hnext, ?_⟩
    rw [List.filterMap_append]
    cases hg : g e with
    | none =>
      rw [hg] at hstep
      have hsame : f (S.next t e) = f t := hstep
      have hnone : [e].filterMap g = [] := by simp [hg]
      rw [hsame, hnone, List.append_nil]
      exact ih.2
    | some a =>
      rw [hg] at hstep
      have hsome : [e].filterMap g = [a] := by simp [hg]
      rw [hsome, ← hstep.2]
      exact ih.2.tail hstep.1

/-- A run passes through a state before and after each of its events. -/
theorem Run.split {e : ε} {pre post : List ε} (h : Run S s (pre ++ e :: post) u) :
    ∃ t, Run S s pre t ∧ S.Enabled t e ∧ Run S (S.next t e) post u := by
  generalize hes : pre ++ e :: post = es at h
  induction h generalizing post with
  | refl => cases pre <;> cases hes
  | @tail es t last hrun he ih =>
    rcases List.eq_nil_or_concat post with rfl | ⟨post', b, rfl⟩
    · obtain ⟨rfl, hlast⟩ := List.append_inj' hes rfl
      cases hlast
      exact ⟨t, hrun, he, .refl⟩
    · rw [List.concat_eq_append] at hes ⊢
      rw [← List.cons_append, ← List.append_assoc] at hes
      obtain ⟨hpre, hlast⟩ := List.append_inj' hes rfl
      cases hlast
      obtain ⟨v, hv, hev, hrest⟩ := ih hpre
      exact ⟨v, hv, hev, hrest.tail he⟩

/-- Events that use up an allowance happen at most as often as it allows. -/
theorem Run.count_le {I : σ → Prop} (counted : ε → Bool) (allowance : σ → ℕ)
    (step : ∀ t e, I t → S.Enabled t e → I (S.next t e) ∧
      (counted e).toNat + allowance (S.next t e) ≤ allowance t)
    (hs : I s) (h : Run S s es t) : I t ∧ es.countP counted + allowance t ≤ allowance s := by
  induction h with
  | refl => exact ⟨hs, by simp⟩
  | @tail es t e _ he ih =>
    obtain ⟨hinv, hle⟩ := step t e ih.1 he
    have hcount : (es ++ [e]).countP counted = es.countP counted + (counted e).toNat := by
      rw [List.countP_append, List.countP_singleton]
      cases counted e <;> rfl
    exact ⟨hinv, by omega⟩

def runTrace (S : System σ ε) (s : σ) (es : List ε) : σ := es.foldl S.next s

def ValidTrace (S : System σ ε) : σ → List ε → Prop
  | _, [] => True
  | s, e :: es => S.Enabled s e ∧ ValidTrace S (S.next s e) es

instance decidableValidTrace [∀ s e, Decidable (S.Enabled s e)] :
    (s : σ) → (es : List ε) → Decidable (ValidTrace S s es)
  | _, [] => isTrue trivial
  | s, e :: es =>
    haveI := decidableValidTrace (S.next s e) es
    inferInstanceAs (Decidable (_ ∧ _))

theorem valid_trace_run (h : ValidTrace S s es) : Run S s es (runTrace S s es) := by
  induction es generalizing s with
  | nil => exact .refl
  | cons e es ih =>
    have hfirst : Run S s [e] (S.next s e) := Run.tail .refl h.1
    exact hfirst.trans (ih h.2)

/-- An entry of a log is one of the old entries or one of those appended. -/
theorem append_split {α : Type} {xs ys pre post : List α} {a : α}
    (h : xs ++ ys = pre ++ a :: post) :
    (∃ mid, xs = pre ++ a :: mid ∧ post = mid ++ ys) ∨
      ∃ mid, pre = xs ++ mid ∧ ys = mid ++ a :: post := by
  rcases List.append_eq_append_iff.mp h with ⟨mid, hpre, hys⟩ | ⟨mid, hxs, hpost⟩
  · exact Or.inr ⟨mid, hpre, hys⟩
  · cases mid with
    | nil => exact Or.inr ⟨[], by simpa using hxs.symm, by simpa using hpost.symm⟩
    | cons b mid =>
      obtain ⟨rfl, rfl⟩ := List.cons_eq_cons.mp hpost
      exact Or.inl ⟨mid, hxs, rfl⟩

end EventSystem

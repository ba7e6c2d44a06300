import Mathlib.Data.List.Basic
import Mathlib.Data.List.Forall2
import Otservpp.ProgramLogic

/-! # Loops over a list that an exception ends

`forEach` collects results and loses them when it throws; `pushEach` fills a vector that outlives
the exception. -/
namespace Traversal

open ProgramLogic

variable {α β γ ε : Type}

theorem except_bind_eq_ok {x : Except ε α} {f : α → Except ε β} {b : β} :
    (x >>= f) = .ok b ↔ ∃ a, x = .ok a ∧ f a = .ok b := by
  cases x with
  | error e => exact iff_of_false nofun nofun
  | ok a =>
    constructor
    · exact fun h => ⟨a, rfl, h⟩
    · rintro ⟨a', ha, h⟩
      cases ha
      exact h

theorem except_bind_eq_error {x : Except ε α} {f : α → Except ε β} {e : ε} :
    (x >>= f) = .error e ↔ x = .error e ∨ ∃ a, x = .ok a ∧ f a = .error e := by
  cases x with
  | error e' =>
    have hbind : (.error e' >>= f : Except ε β) = .error e' := rfl
    rw [hbind]
    constructor
    · intro h
      cases h
      exact Or.inl rfl
    · rintro (h | ⟨a, ha, -⟩)
      · cases h
        rfl
      · cases ha
  | ok a =>
    constructor
    · exact fun h => Or.inr ⟨a, rfl, h⟩
    · rintro (h | ⟨a', ha, h⟩)
      · cases h
      · cases ha
        exact h

/-- What a computation throws, if it throws. -/
def thrown : Except ε α → Option ε
  | .error e => some e
  | .ok _ => none

section Thrown

variable {x : Except ε α} {y : Except ε β} {e : ε}

theorem thrown_eq_some : thrown x = some e ↔ x = .error e := by
  cases x with
  | error e' => simp [thrown]
  | ok a => simp [thrown]

/-- Of two computations in a row, the second one throws only when the first one does not. -/
theorem thrown_bind : thrown (x >>= fun _ => y) = (thrown x).or (thrown y) := by
  cases x with
  | error e' => rfl
  | ok a => rfl

theorem thrown_pair (f : α → β → γ) :
    thrown (x >>= fun a => y >>= fun b => pure (f a b)) = (thrown x).or (thrown y) := by
  cases x with
  | error e' => rfl
  | ok a =>
    cases y with
    | error e' => rfl
    | ok b => rfl

end Thrown

section FirstSome

/-! Of a list of computations, the first exception is the one that leaves. -/

theorem findSome?_flatMap (f : β → Option γ) (g : α → List β) (l : List α) :
    (l.flatMap g).findSome? f = l.findSome? fun a => (g a).findSome? f := by
  induction l with
  | nil => rfl
  | cons a l ih =>
    rw [List.flatMap_cons, List.findSome?_append, List.findSome?_cons, ih]
    cases (g a).findSome? f with
    | none => rfl
    | some c => rfl

theorem findSome?_congr {f g : α → Option β} {l : List α} (h : ∀ a ∈ l, f a = g a) :
    l.findSome? f = l.findSome? g := by
  induction l with
  | nil => rfl
  | cons a l ih =>
    rw [List.findSome?_cons, List.findSome?_cons, h a List.mem_cons_self,
      ih fun b hb => h b (List.mem_cons_of_mem a hb)]

theorem findSome?_pair (f : α → Option β) (a : α) (l : List α) :
    (a :: l).findSome? f = (f a).or (l.findSome? f) := by
  rw [List.findSome?_cons]
  cases f a with
  | none => rfl
  | some b => rfl

end FirstSome

/-- Elements carry their number, counted from `i`. -/
def forEach (f : ℕ → α → Except ε β) : ℕ → List α → Except ε (List β)
  | _, [] => pure []
  | i, a :: as => do
    let b ← f i a
    let bs ← forEach f (i + 1) as
    pure (b :: bs)

section ForEach

variable {f : ℕ → α → Except ε β} {i : ℕ} {as : List α} {bs : List β}

theorem forEach_ok (h : forEach f i as = .ok bs) :
    List.Forall₂ (fun a b => ∃ i, f i a = .ok b) as bs := by
  induction as generalizing i bs with
  | nil =>
    cases h
    exact .nil
  | cons a as ih =>
    obtain ⟨b, hb, h⟩ := except_bind_eq_ok.mp h
    obtain ⟨bs, hbs, h⟩ := except_bind_eq_ok.mp h
    cases h
    exact .cons ⟨i, hb⟩ (ih hbs)

theorem forEach_cons {a : α} {b : β} (hb : f i a = .ok b) (hbs : forEach f (i + 1) as = .ok bs) :
    forEach f i (a :: as) = .ok (b :: bs) :=
  except_bind_eq_ok.mpr ⟨b, hb, except_bind_eq_ok.mpr ⟨bs, hbs, rfl⟩⟩

theorem forEach_of_forall₂ (h : List.Forall₂ (fun a b => ∀ i, f i a = .ok b) as bs) (i : ℕ) :
    forEach f i as = .ok bs := by
  induction h generalizing i with
  | nil => rfl
  | cons hb _ ih => exact forEach_cons (hb i) (ih (i + 1))

theorem forEach_returns (h : ∀ a ∈ as, ∀ i, ∃ b, f i a = .ok b) (i : ℕ) :
    ∃ bs, forEach f i as = .ok bs := by
  induction as generalizing i with
  | nil => exact ⟨[], rfl⟩
  | cons a as ih =>
    obtain ⟨b, hb⟩ := h a List.mem_cons_self i
    obtain ⟨bs, hbs⟩ := ih (fun a ha => h a (List.mem_cons_of_mem _ ha)) (i + 1)
    exact ⟨b :: bs, forEach_cons hb hbs⟩

/-- What `forEach` throws, one of the elements threw. -/
theorem forEach_error {e : ε} (h : forEach f i as = .error e) :
    ∃ a ∈ as, ∃ i, f i a = .error e := by
  induction as generalizing i with
  | nil => cases h
  | cons a as ih =>
    rcases except_bind_eq_error.mp h with hfirst | ⟨b, -, h⟩
    · exact ⟨a, List.mem_cons_self, i, hfirst⟩
    rcases except_bind_eq_error.mp h with hrest | ⟨bs, -, h⟩
    · obtain ⟨a', ha', hi⟩ := ih hrest
      exact ⟨a', List.mem_cons_of_mem _ ha', hi⟩
    · cases h

/-- The loop throws what the first of its elements that throws does. -/
theorem thrown_forEach :
    thrown (forEach f i as) = (as.zipIdx i).findSome? fun a => thrown (f a.2 a.1) := by
  induction as generalizing i with
  | nil => rfl
  | cons a as ih =>
    rw [forEach, thrown_pair, List.zipIdx_cons, List.findSome?_cons, ih]
    cases thrown (f i a) with
    | none => rfl
    | some e => rfl

end ForEach

/-- Each converted element goes to the end of the vector. -/
def pushEach (f : α → Except ε β) : List α → EStateM ε (List β) Unit
  | [] => pure ()
  | a :: as => do
    match f a with
    | .ok b => modify (· ++ [b])
    | .error e => throw e
    pushEach f as

section PushEach

variable {f : α → Except ε β} {as : List α} {v w : List β} {e : ε}

theorem pushEach_cons_ok {a : α} {b : β} (h : f a = .ok b) :
    pushEach f (a :: as) v = pushEach f as (v ++ [b]) := by
  simp [pushEach, h, bind_run]

theorem pushEach_cons_error {a : α} (h : f a = .error e) :
    pushEach f (a :: as) v = .error e v := by
  simp [pushEach, h, bind_run]

theorem pushEach_of_forall₂ {bs : List β} (h : List.Forall₂ (fun a b => f a = .ok b) as bs) :
    pushEach f as v = .ok () (v ++ bs) := by
  induction h generalizing v with
  | nil => simp [pushEach]
  | cons hb _ ih =>
    rw [pushEach_cons_ok hb, ih, List.append_assoc]
    rfl

/-- Without an exception all elements were converted. -/
theorem pushEach_ok {u : Unit} (h : pushEach f as v = .ok u w) :
    ∃ bs, List.Forall₂ (fun a b => f a = .ok b) as bs ∧ w = v ++ bs := by
  induction as generalizing v with
  | nil =>
    cases h
    exact ⟨[], .nil, (List.append_nil _).symm⟩
  | cons a as ih =>
    cases hb : f a with
    | error e =>
      rw [pushEach_cons_error hb] at h
      cases h
    | ok b =>
      rw [pushEach_cons_ok hb] at h
      obtain ⟨bs, hbs, rfl⟩ := ih h
      exact ⟨b :: bs, .cons hb hbs, List.append_assoc ..⟩

/-- With one, those before the element that threw it stay in the vector. -/
theorem pushEach_error (h : pushEach f as v = .error e w) :
    ∃ pre a post bs, as = pre ++ a :: post ∧ f a = .error e ∧
      List.Forall₂ (fun a b => f a = .ok b) pre bs ∧ w = v ++ bs := by
  induction as generalizing v with
  | nil => cases h
  | cons a as ih =>
    cases hb : f a with
    | error e' =>
      rw [pushEach_cons_error hb] at h
      cases h
      exact ⟨[], a, as, [], rfl, hb, .nil, (List.append_nil _).symm⟩
    | ok b =>
      rw [pushEach_cons_ok hb] at h
      obtain ⟨pre, a', post, bs, rfl, ha', hbs, rfl⟩ := ih h
      exact ⟨a :: pre, a', post, b :: bs, rfl, ha', .cons hb hbs, List.append_assoc ..⟩

end PushEach

end Traversal

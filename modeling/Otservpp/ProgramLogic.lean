import Mathlib.Order.Defs.Unbundled

/-! # Programs with a state and exceptions

Equations and rules for `EStateM`, where a throw keeps the state reached so far. A relation
that a program keeps to is proved along its text, whether it returns or throws: frames,
monotone fields and invariants are all relations of that kind. -/
namespace ProgramLogic

variable {ε σ α β : Type}

@[simp] theorem pure_run (a : α) (s : σ) : (pure a : EStateM ε σ α) s = .ok a s := rfl

@[simp] theorem throw_run (e : ε) (s : σ) : (throw e : EStateM ε σ α) s = .error e s := rfl

@[simp] theorem get_run (s : σ) : (get : EStateM ε σ σ) s = .ok s s := rfl

@[simp] theorem modify_run (f : σ → σ) (s : σ) :
    (modify f : EStateM ε σ PUnit) s = .ok ⟨⟩ (f s) := rfl

theorem bind_run (x : EStateM ε σ α) (f : α → EStateM ε σ β) (s : σ) :
    (x >>= f) s = match x s with
      | .ok a t => f a t
      | .error e t => .error e t := rfl

@[simp] theorem map_run (f : α → β) (x : EStateM ε σ α) (s : σ) :
    (f <$> x) s = match x s with
      | .ok a t => .ok (f a) t
      | .error e t => .error e t := rfl

theorem bind_ok {x : EStateM ε σ α} {s t : σ} {a : α} (h : x s = .ok a t)
    (f : α → EStateM ε σ β) : (x >>= f) s = f a t := by
  rw [bind_run, h]

theorem bind_error {x : EStateM ε σ α} {s t : σ} {e : ε} (h : x s = .error e t)
    (f : α → EStateM ε σ β) : (x >>= f) s = .error e t := by
  rw [bind_run, h]

theorem bind_eq_ok {x : EStateM ε σ α} {f : α → EStateM ε σ β} {s u : σ} {b : β} :
    (x >>= f) s = .ok b u ↔ ∃ a t, x s = .ok a t ∧ f a t = .ok b u := by
  rw [bind_run]
  cases hx : x s with
  | ok a t =>
    constructor
    · intro hf
      exact ⟨a, t, rfl, hf⟩
    · rintro ⟨_, _, h, hf⟩
      cases h
      exact hf
  | error e t => simp

theorem tryCatch_run (x : EStateM ε σ α) (h : ε → EStateM ε σ α) (s : σ) :
    (tryCatch x h) s = match x s with
      | .ok a t => .ok a t
      | .error e t => h e t := by
  change EStateM.tryCatch x h s = _
  delta EStateM.tryCatch
  cases x s <;> rfl

/-- An assertion that is compiled in unless `ndebug`. -/
def check (fault : ε) (ndebug p : Bool) : EStateM ε σ Unit :=
  if ndebug || p then pure () else throw fault

theorem check_run (fault : ε) (ndebug p : Bool) (s : σ) :
    (check fault ndebug p : EStateM ε σ Unit) s =
      if ndebug || p then .ok () s else .error fault s := by
  unfold check
  split <;> rfl

@[simp] theorem check_ndebug (fault : ε) (p : Bool) (s : σ) :
    (check fault true p : EStateM ε σ Unit) s = .ok () s := rfl

/-- The state a program leaves behind, whether it returned or threw. -/
def after (x : EStateM ε σ α) (s : σ) : σ :=
  match x s with
  | .ok _ t => t
  | .error _ t => t

theorem after_ok {x : EStateM ε σ α} {s t : σ} {a : α} (h : x s = .ok a t) : after x s = t := by
  rw [after, h]

theorem after_error {x : EStateM ε σ α} {s t : σ} {e : ε} (h : x s = .error e t) :
    after x s = t := by
  rw [after, h]

/-- However `x` ends, `R` relates the state it leaves to the one it began in. -/
def Evolves (R : σ → σ → Prop) (x : EStateM ε σ α) : Prop := ∀ s, R s (after x s)

theorem Evolves.mono {R R' : σ → σ → Prop} {x : EStateM ε σ α} (h : ∀ s t, R s t → R' s t)
    (hx : Evolves R x) : Evolves R' x := fun s => h s _ (hx s)

section Evolves

variable {R : σ → σ → Prop} [IsPreorder σ R]

theorem evolves_pure (a : α) : Evolves R (pure a : EStateM ε σ α) := fun s => refl s

theorem evolves_throw (e : ε) : Evolves R (throw e : EStateM ε σ α) := fun s => refl s

theorem evolves_get : Evolves R (get : EStateM ε σ σ) := fun s => refl s

omit [IsPreorder σ R] in
theorem evolves_modify {f : σ → σ} (h : ∀ s, R s (f s)) :
    Evolves R (modify f : EStateM ε σ PUnit) := h

theorem Evolves.bind {x : EStateM ε σ α} {f : α → EStateM ε σ β} (hx : Evolves R x)
    (hf : ∀ a, Evolves R (f a)) : Evolves R (x >>= f) := by
  intro s
  have hfirst := hx s
  unfold after at hfirst ⊢
  rw [bind_run]
  cases h : x s with
  | ok a t =>
    rw [h] at hfirst
    exact trans_of R hfirst (hf a t)
  | error e t =>
    rw [h] at hfirst
    exact hfirst

theorem Evolves.tryCatch {x : EStateM ε σ α} {handler : ε → EStateM ε σ α} (hx : Evolves R x)
    (hh : ∀ e, Evolves R (handler e)) : Evolves R (tryCatch x handler) := by
  intro s
  have hfirst := hx s
  unfold after at hfirst ⊢
  rw [tryCatch_run]
  cases h : x s with
  | ok a t =>
    rw [h] at hfirst
    exact hfirst
  | error e t =>
    rw [h] at hfirst
    exact trans_of R hfirst (hh e t)

omit [IsPreorder σ R] in
theorem Evolves.ite {p : Prop} [Decidable p] {x y : EStateM ε σ α} (hx : p → Evolves R x)
    (hy : ¬ p → Evolves R y) : Evolves R (if p then x else y) := by
  split
  · exact hx ‹_›
  · exact hy ‹_›

end Evolves

/-- From a state where `P` holds, `x` returns only where `Q` holds and throws only where `E`
does. -/
def Triple (P : σ → Prop) (x : EStateM ε σ α) (Q : α → σ → Prop) (E : σ → Prop) : Prop :=
  ∀ s, P s → match x s with
    | .ok a t => Q a t
    | .error _ t => E t

section Triple

variable {P P' E E' I : σ → Prop} {Q Q' : α → σ → Prop}

theorem Triple.conseq {x : EStateM ε σ α} (h : Triple P x Q E) (hP : ∀ s, P' s → P s)
    (hQ : ∀ a s, Q a s → Q' a s) (hE : ∀ s, E s → E' s) : Triple P' x Q' E' := by
  intro s hs
  have hx := h s (hP s hs)
  cases hrun : x s with
  | ok a t =>
    rw [hrun] at hx
    exact hQ a t hx
  | error e t =>
    rw [hrun] at hx
    exact hE t hx

theorem Triple.and {x : EStateM ε σ α} (h : Triple P x Q E) (k : Triple P' x Q' E') :
    Triple (fun s => P s ∧ P' s) x (fun a s => Q a s ∧ Q' a s) (fun s => E s ∧ E' s) := by
  intro s hs
  have hx := h s hs.1
  have ky := k s hs.2
  cases hrun : x s with
  | ok a t =>
    rw [hrun] at hx ky
    exact ⟨hx, ky⟩
  | error e t =>
    rw [hrun] at hx ky
    exact ⟨hx, ky⟩

theorem triple_pure (a : α) : Triple (Q a) (pure a : EStateM ε σ α) Q E := fun _ h => h

theorem triple_throw (e : ε) : Triple E (throw e : EStateM ε σ α) Q E := fun _ h => h

theorem triple_get : Triple P (get : EStateM ε σ σ) (fun a s => P s ∧ a = s) E :=
  fun _ h => ⟨h, rfl⟩

theorem triple_modify {f : σ → σ} (h : ∀ s, P s → P' (f s)) :
    Triple P (modify f : EStateM ε σ PUnit) (fun _ => P') E := h

theorem Triple.bind {x : EStateM ε σ α} {f : α → EStateM ε σ β} {R : β → σ → Prop}
    (hx : Triple P x Q E) (hf : ∀ a, Triple (Q a) (f a) R E) : Triple P (x >>= f) R E := by
  intro s hs
  have hfirst := hx s hs
  rw [bind_run]
  cases hrun : x s with
  | ok a t =>
    rw [hrun] at hfirst
    exact hf a t hfirst
  | error e t =>
    rw [hrun] at hfirst
    exact hfirst

theorem Triple.tryCatch {x : EStateM ε σ α} {handler : ε → EStateM ε σ α} (hx : Triple P x Q E)
    (hh : ∀ e, Triple E (handler e) Q E') : Triple P (tryCatch x handler) Q E' := by
  intro s hs
  have hfirst := hx s hs
  rw [tryCatch_run]
  cases hrun : x s with
  | ok a t =>
    rw [hrun] at hfirst
    exact hfirst
  | error e t =>
    rw [hrun] at hfirst
    exact hh e t hfirst

theorem Triple.ite {p : Prop} [Decidable p] {x y : EStateM ε σ α} (hx : p → Triple P x Q E)
    (hy : ¬ p → Triple P y Q E) : Triple P (if p then x else y) Q E := by
  split
  · exact hx ‹_›
  · exact hy ‹_›

/-- Where returning and throwing are to the same end, only the state left behind counts. -/
theorem triple_iff_after {x : EStateM ε σ α} :
    Triple P x (fun _ => I) I ↔ ∀ s, P s → I (after x s) := by
  refine forall_congr' fun s => imp_congr_right fun _ => ?_
  unfold after
  cases x s <;> rfl

/-- A program keeps every property that its relation keeps. -/
theorem Evolves.triple {R : σ → σ → Prop} {x : EStateM ε σ α} (hx : Evolves R x)
    (hP : ∀ s t, R s t → P s → P t) : Triple P x (fun _ => P) P :=
  triple_iff_after.mpr fun s hs => hP s _ (hx s) hs

end Triple

end ProgramLogic

import Otservpp.ProgramLogic

/-! # Instrumented programs

A program is run over a larger state and checked while it runs: beside the errors of its own it
can end with a fault of the instrumentation. Unless it does, its result is that of the plain
program, and where the end of the plain program is a good one there is no fault. Both are proved
along the text of the program. -/
namespace Instrumented

open ProgramLogic

variable {ε φ σ τ α β : Type}

/-- The state at the end of a result, unless it is a fault. -/
def Sound (Q : τ → Prop) : EStateM.Result (ε ⊕ φ) τ α → Prop
  | .ok _ t => Q t
  | .error (.inl _) t => Q t
  | .error (.inr _) _ => True

/-- There is no fault, and the state at the end is as stated. -/
def Safe (Q : τ → Prop) : EStateM.Result (ε ⊕ φ) τ α → Prop
  | .ok _ t => Q t
  | .error (.inl _) t => Q t
  | .error (.inr _) _ => False

/-- The result is a fault or that of the plain program. -/
def Agrees (proj : τ → σ) : EStateM.Result (ε ⊕ φ) τ α → EStateM.Result ε σ α → Prop
  | .ok a t, r => r = .ok a (proj t)
  | .error (.inl e) t, r => r = .error e (proj t)
  | .error (.inr _) _, _ => True

/-- `Keeps` is what every step of the instrumented program does, `Good c` what holds along it when
the plain program ends in `c`. -/
structure Discipline (τ σ : Type) where
  proj : τ → σ
  Keeps : τ → τ → Prop
  Good : σ → τ → Prop

/-- `D` is what the plain program does. -/
structure Simulates (I : Discipline τ σ) (D : σ → σ → Prop) (x : EStateM (ε ⊕ φ) τ α)
    (y : EStateM ε σ α) : Prop where
  evolves : Evolves D y
  agrees : ∀ s, Agrees I.proj (x s) (y (I.proj s))
  keeps : ∀ s, Sound (I.Keeps s) (x s)
  good : ∀ s c, I.Good c s → D (after y (I.proj s)) c → Safe (I.Good c) (x s)

/-- The handler of an exception; faults are not caught. -/
def catching (x : EStateM (ε ⊕ φ) τ α) (handler : ε → EStateM (ε ⊕ φ) τ α) :
    EStateM (ε ⊕ φ) τ α :=
  tryCatch x fun
    | .inl e => handler e
    | .inr f => throw (.inr f)

/-- A step of the plain program, allowed where `p` holds. -/
def guarded (proj : τ → σ) (put : τ → σ → τ) (p : τ → Bool) (f : φ) (y : EStateM ε σ α) :
    EStateM (ε ⊕ φ) τ α := fun s =>
  if p s = true then
    match y (proj s) with
    | .ok a c => .ok a (put s c)
    | .error e c => .error (.inl e) (put s c)
  else .error (.inr f) s

theorem Sound.mono {Q Q' : τ → Prop} {r : EStateM.Result (ε ⊕ φ) τ α} (h : Sound Q r)
    (hQ : ∀ t, Q t → Q' t) : Sound Q' r := by
  match r with
  | .ok _ _ => exact hQ _ h
  | .error (.inl _) _ => exact hQ _ h
  | .error (.inr _) _ => trivial

theorem Safe.mono {Q Q' : τ → Prop} {r : EStateM.Result (ε ⊕ φ) τ α} (h : Safe Q r)
    (hQ : ∀ t, Q t → Q' t) : Safe Q' r := by
  match r with
  | .ok _ _ => exact hQ _ h
  | .error (.inl _) _ => exact hQ _ h

/-- From where `P` holds the program returns to where `Q` does and throws `e` where `E e` does. -/
def Ensures (P : τ → Prop) (x : EStateM (ε ⊕ φ) τ α) (Q : τ → Prop) (E : ε → τ → Prop) : Prop :=
  ∀ s, P s → match x s with
    | .ok _ t => Q t
    | .error (.inl e) t => E e t
    | .error (.inr _) _ => True

section Ensures

variable {P Q R : τ → Prop} {E E' : ε → τ → Prop}

theorem ensures_pure (a : α) : Ensures P (pure a : EStateM (ε ⊕ φ) τ α) P E := fun _ h => h

theorem ensures_throw (e : ε) (h : ∀ s, P s → E e s) :
    Ensures P (throw (.inl e) : EStateM (ε ⊕ φ) τ α) Q E := h

theorem Ensures.bind {x : EStateM (ε ⊕ φ) τ α} {f : α → EStateM (ε ⊕ φ) τ β}
    (hx : Ensures P x Q E) (hf : ∀ a, Ensures Q (f a) R E) : Ensures P (x >>= f) R E := by
  intro s hs
  have hfirst := hx s hs
  rw [bind_run]
  match x s, hfirst with
  | .ok a t, hfirst => exact hf a t hfirst
  | .error (.inl e) t, hfirst => exact hfirst
  | .error (.inr _) _, _ => trivial

theorem Ensures.catching {x : EStateM (ε ⊕ φ) τ α} {handler : ε → EStateM (ε ⊕ φ) τ α}
    (hx : Ensures P x Q E) (hh : ∀ e, Ensures (E e) (handler e) Q E') :
    Ensures P (catching x handler) Q E' := by
  intro s hs
  have hfirst := hx s hs
  rw [Instrumented.catching, tryCatch_run]
  match x s, hfirst with
  | .ok a t, hfirst => exact hfirst
  | .error (.inl e) t, hfirst => exact hh e t hfirst
  | .error (.inr _) _, _ => trivial

theorem Ensures.ite {p : Prop} [Decidable p] {x y : EStateM (ε ⊕ φ) τ α}
    (hx : p → Ensures P x Q E) (hy : ¬ p → Ensures P y Q E) :
    Ensures P (if p then x else y) Q E := by
  split
  · exact hx ‹_›
  · exact hy ‹_›

theorem Ensures.conseq {x : EStateM (ε ⊕ φ) τ α} {P' Q' : τ → Prop} (h : Ensures P x Q E)
    (hP : ∀ s, P' s → P s) (hQ : ∀ s, Q s → Q' s) (hE : ∀ e s, E e s → E' e s) :
    Ensures P' x Q' E' := by
  intro s hs
  have hx := h s (hP s hs)
  match x s, hx with
  | .ok a t, hx => exact hQ t hx
  | .error (.inl e) t, hx => exact hE e t hx
  | .error (.inr _) _, _ => trivial

/-- What the steps of a program keep holds at its end. -/
theorem Simulates.ensures {I : Discipline τ σ} {D : σ → σ → Prop} {x : EStateM (ε ⊕ φ) τ α}
    {y : EStateM ε σ α} (h : Simulates I D x y) (hP : ∀ s t, I.Keeps s t → P s → P t) :
    Ensures P x P fun _ => P := by
  intro s hs
  have hkeeps := h.keeps s
  match x s, hkeeps with
  | .ok a t, hkeeps => exact hP s t hkeeps hs
  | .error (.inl e) t, hkeeps => exact hP s t hkeeps hs
  | .error (.inr _) _, _ => trivial

end Ensures

/-- Where `P` holds there is no fault, and `P` holds in the end. -/
def Secure (P : τ → Prop) (x : EStateM (ε ⊕ φ) τ α) : Prop := ∀ s, P s → Safe P (x s)

section Secure

variable {P : τ → Prop}

theorem secure_pure (a : α) : Secure P (pure a : EStateM (ε ⊕ φ) τ α) := fun _ h => h

theorem secure_throw (e : ε) : Secure P (throw (.inl e) : EStateM (ε ⊕ φ) τ α) := fun _ h => h

theorem secure_modify {f : τ → τ} (h : ∀ s, P s → P (f s)) :
    Secure P (modify f : EStateM (ε ⊕ φ) τ Unit) := h

/-- What follows may need more than holds in the end. -/
theorem Safe.bind {Q : τ → Prop} {s : τ} {x : EStateM (ε ⊕ φ) τ α} {f : α → EStateM (ε ⊕ φ) τ β}
    (hx : Safe P (x s)) (hPQ : ∀ t, P t → Q t) (hf : ∀ a t, P t → Safe Q (f a t)) :
    Safe Q ((x >>= f) s) := by
  rw [bind_run]
  match x s, hx with
  | .ok a t, hx => exact hf a t hx
  | .error (.inl _) t, hx => exact hPQ t hx

theorem Safe.rethrow {s : τ} {x : EStateM (ε ⊕ φ) τ α} (hx : Safe P (x s)) (e : ε) :
    Safe P ((x >>= fun _ => throw (.inl e) : EStateM (ε ⊕ φ) τ β) s) :=
  hx.bind (fun _ => id) fun _ _ => id

theorem Secure.bind {x : EStateM (ε ⊕ φ) τ α} {f : α → EStateM (ε ⊕ φ) τ β} (hx : Secure P x)
    (hf : ∀ a, Secure P (f a)) : Secure P (x >>= f) :=
  fun s hs => (hx s hs).bind (fun _ => id) hf

theorem Secure.catching {x : EStateM (ε ⊕ φ) τ α} {handler : ε → EStateM (ε ⊕ φ) τ α}
    (hx : Secure P x) (hh : ∀ e, Secure P (handler e)) : Secure P (catching x handler) := by
  intro s hs
  have hfirst := hx s hs
  rw [Instrumented.catching, tryCatch_run]
  match x s, hfirst with
  | .ok _ _, hfirst => exact hfirst
  | .error (.inl e) t, hfirst => exact hh e t hfirst

theorem Secure.ite {p : Prop} [Decidable p] {x y : EStateM (ε ⊕ φ) τ α} (hx : p → Secure P x)
    (hy : ¬ p → Secure P y) : Secure P (if p then x else y) := by
  split
  · exact hx ‹_›
  · exact hy ‹_›

theorem secure_guarded {proj : τ → σ} {put : τ → σ → τ} {p : τ → Bool} {f : φ} {y : EStateM ε σ α}
    {E : σ → σ → Prop} (hy : Evolves E y) (hp : ∀ s, P s → p s = true)
    (hput : ∀ s c, P s → E (proj s) c → P (put s c)) : Secure P (guarded proj put p f y) := by
  intro s hs
  have hevolves := hy (proj s)
  rw [guarded, if_pos (hp s hs)]
  unfold after at hevolves
  cases hrun : y (proj s) with
  | ok a c =>
    rw [hrun] at hevolves
    exact hput s c hs hevolves
  | error e c =>
    rw [hrun] at hevolves
    exact hput s c hs hevolves

end Secure

section Rules

variable {I : Discipline τ σ} {D : σ → σ → Prop} [IsPreorder τ I.Keeps] [IsPreorder σ D]

theorem simulates_pure (a : α) : Simulates I D (pure a : EStateM (ε ⊕ φ) τ α) (pure a) where
  evolves := evolves_pure a
  agrees _ := rfl
  keeps s := refl s
  good _ _ h _ := h

theorem simulates_throw (e : ε) :
    Simulates I D (throw (.inl e) : EStateM (ε ⊕ φ) τ α) (throw e) where
  evolves := evolves_throw e
  agrees _ := rfl
  keeps s := refl s
  good _ _ h _ := h

theorem Simulates.bind {x : EStateM (ε ⊕ φ) τ α} {y : EStateM ε σ α}
    {f : α → EStateM (ε ⊕ φ) τ β} {g : α → EStateM ε σ β} (hx : Simulates I D x y)
    (hf : ∀ a, Simulates I D (f a) (g a)) : Simulates I D (x >>= f) (y >>= g) := by
  refine ⟨hx.evolves.bind fun a => (hf a).evolves, fun s => ?_, fun s => ?_, fun s c hs hc => ?_⟩
  · have hfirst := hx.agrees s
    rw [bind_run]
    match x s, hfirst with
    | .ok a t, hfirst =>
      rw [bind_ok hfirst]
      exact (hf a).agrees t
    | .error (.inl e) t, hfirst => exact bind_error hfirst g
    | .error (.inr _) _, _ => trivial
  · have hfirst := hx.keeps s
    rw [bind_run]
    match x s, hfirst with
    | .ok a t, hfirst => exact ((hf a).keeps t).mono fun u hu => trans_of I.Keeps hfirst hu
    | .error (.inl e) t, hfirst => exact hfirst
    | .error (.inr _) _, _ => trivial
  · have hplain := hx.agrees s
    have hfirst := hx.good s c hs
    rw [bind_run]
    match x s, hplain, hfirst with
    | .ok a t, hplain, hfirst =>
      have hlast : after (y >>= g) (I.proj s) = after (g a) (I.proj t) := by
        unfold after
        rw [bind_ok hplain]
      rw [hlast] at hc
      have hgood : I.Good c t := by
        apply hfirst
        rw [after_ok hplain]
        exact trans_of D ((hf a).evolves _) hc
      exact (hf a).good t c hgood hc
    | .error (.inl e) t, hplain, hfirst =>
      rw [after_error (bind_error hplain g)] at hc
      apply hfirst
      rw [after_error hplain]
      exact hc
    | .error (.inr _) _, hplain, hfirst =>
      apply hfirst
      refine trans_of D ?_ hc
      unfold after
      rw [bind_run]
      cases y (I.proj s) with
      | ok a u => exact (hf a).evolves u
      | error e u => exact refl u

theorem Simulates.catching {x : EStateM (ε ⊕ φ) τ α} {y : EStateM ε σ α}
    {handler : ε → EStateM (ε ⊕ φ) τ α} {handler' : ε → EStateM ε σ α} (hx : Simulates I D x y)
    (hh : ∀ e, Simulates I D (handler e) (handler' e)) :
    Simulates I D (catching x handler) (tryCatch y handler') := by
  refine ⟨hx.evolves.tryCatch fun e => (hh e).evolves, fun s => ?_, fun s => ?_,
    fun s c hs hc => ?_⟩
  · have hfirst := hx.agrees s
    rw [Instrumented.catching, tryCatch_run, tryCatch_run]
    match x s, hfirst with
    | .ok a t, hfirst =>
      rw [hfirst]
      rfl
    | .error (.inl e) t, hfirst =>
      rw [hfirst]
      exact (hh e).agrees t
    | .error (.inr _) _, _ => trivial
  · have hfirst := hx.keeps s
    rw [Instrumented.catching, tryCatch_run]
    match x s, hfirst with
    | .ok a t, hfirst => exact hfirst
    | .error (.inl e) t, hfirst =>
      exact ((hh e).keeps t).mono fun u hu => trans_of I.Keeps hfirst hu
    | .error (.inr _) _, _ => trivial
  · have hplain := hx.agrees s
    have hfirst := hx.good s c hs
    have hlast : D (after y (I.proj s)) c := by
      refine trans_of D ?_ hc
      unfold after
      rw [tryCatch_run]
      cases y (I.proj s) with
      | ok a u => exact refl u
      | error e u => exact (hh e).evolves u
    rw [Instrumented.catching, tryCatch_run]
    match x s, hplain, hfirst hlast with
    | .ok a t, hplain, hgood => exact hgood
    | .error (.inl e) t, hplain, hgood =>
      refine (hh e).good t c hgood ?_
      have heq : after (tryCatch y handler') (I.proj s) = after (handler' e) (I.proj t) := by
        unfold after
        rw [tryCatch_run, hplain]
      rwa [heq] at hc

omit [IsPreorder τ I.Keeps] [IsPreorder σ D] in
theorem Simulates.ite {p : Prop} [Decidable p] {x x' : EStateM (ε ⊕ φ) τ α}
    {y y' : EStateM ε σ α} (hx : p → Simulates I D x y) (hx' : ¬ p → Simulates I D x' y') :
    Simulates I D (if p then x else x') (if p then y else y') := by
  split
  · exact hx ‹_›
  · exact hx' ‹_›

omit [IsPreorder τ I.Keeps] [IsPreorder σ D] in
/-- More may be known of the plain program than of its parts. -/
theorem Simulates.strengthen {D' : σ → σ → Prop} {x : EStateM (ε ⊕ φ) τ α} {y : EStateM ε σ α}
    (h : Simulates I D x y) (hD : ∀ c d, D' c d → D c d) (hy : Evolves D' y) :
    Simulates I D' x y :=
  ⟨hy, h.agrees, h.keeps, fun s c hs hc => h.good s c hs (hD _ _ hc)⟩

omit [IsPreorder τ I.Keeps] [IsPreorder σ D] in
/-- A step is known better than what the programs do. -/
theorem simulates_guarded {E : σ → σ → Prop} {put : τ → σ → τ} {p : τ → Bool} {f : φ}
    {y : EStateM ε σ α} (hput : ∀ s c, I.proj (put s c) = c) (hy : Evolves E y)
    (hED : ∀ c d, E c d → D c d)
    (hkeeps : ∀ s c, p s = true → E (I.proj s) c → I.Keeps s (put s c))
    (hgood : ∀ s c d, I.Good d s → E (I.proj s) c → p s = true ∧ I.Good d (put s c)) :
    Simulates I D (guarded I.proj put p f y) y := by
  refine ⟨Evolves.mono hED hy, fun s => ?_, fun s => ?_, fun s c hs _ => ?_⟩
  · unfold guarded
    by_cases hp : p s = true
    · rw [if_pos hp]
      cases y (I.proj s) with
      | ok a c => simp [Agrees, hput]
      | error e c => simp [Agrees, hput]
    · rw [if_neg hp]
      trivial
  · have hevolves := hy (I.proj s)
    unfold guarded
    by_cases hp : p s = true
    · rw [if_pos hp]
      unfold after at hevolves
      cases hrun : y (I.proj s) with
      | ok a c =>
        rw [hrun] at hevolves
        exact hkeeps s c hp hevolves
      | error e c =>
        rw [hrun] at hevolves
        exact hkeeps s c hp hevolves
    · rw [if_neg hp]
      trivial
  · obtain ⟨hp, hgood⟩ := hgood s _ c hs (hy (I.proj s))
    unfold guarded
    rw [if_pos hp]
    unfold after at hgood
    cases hrun : y (I.proj s) with
    | ok a d =>
      rw [hrun] at hgood
      exact hgood
    | error e d =>
      rw [hrun] at hgood
      exact hgood

end Rules

end Instrumented

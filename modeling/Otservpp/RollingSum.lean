import Mathlib.Algebra.BigOperators.Group.List.Basic
import Mathlib.Algebra.Order.BigOperators.Group.List
import Mathlib.Data.Int.ModEq
import Mathlib.Data.Nat.Prime.Int
import Mathlib.Tactic.Linarith
import Mathlib.Tactic.LinearCombination
import Mathlib.Tactic.Ring

/-! # Rolling sums of a list of numbers

Two accumulators, the sum of the numbers and the sum of those sums, kept modulo a number `p`. With
`p` a prime larger than every number and every distance, the first notices every changed number and
the second every exchange of two. -/
namespace RollingSum

structure Sums where
  a : ℕ
  b : ℕ
  deriving DecidableEq, Repr

def Sums.add (s : Sums) (d : ℕ) : Sums := ⟨s.a + d, s.b + (s.a + d)⟩

def Sums.run (s : Sums) (ds : List ℕ) : Sums := ds.foldl Sums.add s

/-- The numbers with how often each is in the sum of sums. -/
def weighted : List ℕ → ℕ
  | [] => 0
  | d :: ds => (ds.length + 1) * d + weighted ds

section Run

variable {s t : Sums} {ds : List ℕ} {p c : ℕ}

theorem run_append (ds es : List ℕ) : s.run (ds ++ es) = (s.run ds).run es := List.foldl_append

theorem run_a : (s.run ds).a = s.a + ds.sum := by
  induction ds generalizing s with
  | nil => rfl
  | cons d ds ih =>
    have hrest : (s.run (d :: ds)).a = (s.add d).a + ds.sum := ih
    rw [hrest, Sums.add, List.sum_cons, Nat.add_assoc]

theorem run_b : (s.run ds).b = s.b + ds.length * s.a + weighted ds := by
  induction ds generalizing s with
  | nil => simp [Sums.run, weighted]
  | cons d ds ih =>
    have hrest : (s.run (d :: ds)).b = (s.add d).b + ds.length * (s.add d).a + weighted ds := ih
    rw [hrest, Sums.add, weighted, List.length_cons]
    ring

theorem sum_le (h : ∀ d ∈ ds, d ≤ c) : ds.sum ≤ ds.length * c := by
  have hsum := List.sum_le_card_nsmul ds c h
  rwa [smul_eq_mul] at hsum

theorem weighted_le (h : ∀ d ∈ ds, d ≤ c) : 2 * weighted ds ≤ ds.length * (ds.length + 1) * c := by
  induction ds with
  | nil => simp [weighted]
  | cons d ds ih =>
    have hrest := ih fun e he => h e (List.mem_cons_of_mem d he)
    have hfirst := Nat.mul_le_mul_left (2 * (ds.length + 1)) (h d List.mem_cons_self)
    rw [weighted, List.length_cons]
    nlinarith [hrest, hfirst]

/-- Accumulators that are equal modulo `p` stay so. -/
theorem run_congr (ha : s.a ≡ t.a [MOD p]) (hb : s.b ≡ t.b [MOD p]) :
    (s.run ds).a ≡ (t.run ds).a [MOD p] ∧ (s.run ds).b ≡ (t.run ds).b [MOD p] := by
  rw [run_a, run_a, run_b, run_b]
  exact ⟨ha.add_right _, (hb.add (ha.mul_left _)).add_right _⟩

end Run

section Detection

variable {s : Sums} {ds : List ℕ} {i j p x y v : ℕ}

theorem sum_set (h : ds[i]? = some x) : (ds.set i v).sum + x = ds.sum + v := by
  induction ds generalizing i with
  | nil => simp at h
  | cons d ds ih =>
    cases i with
    | zero =>
      obtain rfl : d = x := by simpa using h
      simp only [List.set_cons_zero, List.sum_cons]
      omega
    | succ i =>
      have hrest := ih (i := i) (by simpa using h)
      simp only [List.set_cons_succ, List.sum_cons]
      omega

theorem weighted_set (h : ds[i]? = some x) :
    weighted (ds.set i v) + (ds.length - i) * x = weighted ds + (ds.length - i) * v := by
  induction ds generalizing i with
  | nil => simp at h
  | cons d ds ih =>
    cases i with
    | zero =>
      obtain rfl : d = x := by simpa using h
      simp only [List.set_cons_zero, weighted, List.length_cons, Nat.sub_zero]
      omega
    | succ i =>
      have hrest := ih (i := i) (by simpa using h)
      simp only [List.set_cons_succ, weighted, List.length_cons, List.length_set,
        Nat.add_sub_add_right]
      omega

theorem set_detected (h : ds[i]? = some x) (hx : x < p) (hv : v < p) (hne : v ≠ x) :
    ¬ (s.run (ds.set i v)).a ≡ (s.run ds).a [MOD p] := by
  rw [run_a, run_a]
  intro hmod
  have hsum := sum_set (v := v) h
  have hcancel : v ≡ x [MOD p] := by
    have hsame : (ds.set i v).sum ≡ ds.sum [MOD p] := Nat.ModEq.add_left_cancel' s.a hmod
    have hadd : ds.sum + v ≡ ds.sum + x [MOD p] := hsum ▸ hsame.add_right x
    exact Nat.ModEq.add_left_cancel' ds.sum hadd
  exact hne (Nat.ModEq.eq_of_lt_of_lt hcancel hv hx)

theorem swap_detected (hp : p.Prime) (hi : ds[i]? = some x) (hj : ds[j]? = some y)
    (hx : x < p) (hy : y < p) (hne : x ≠ y) (hlength : ds.length < p) :
    ¬ (s.run ((ds.set i y).set j x)).b ≡ (s.run ds).b [MOD p] := by
  obtain ⟨hilt, -⟩ := List.getElem?_eq_some_iff.mp hi
  obtain ⟨hjlt, -⟩ := List.getElem?_eq_some_iff.mp hj
  have hij : i ≠ j := by
    rintro rfl
    rw [hi] at hj
    exact hne (Option.some.inj hj)
  have hfirst := weighted_set (v := y) hi
  have hsecond : weighted ((ds.set i y).set j x) + ((ds.set i y).length - j) * y =
      weighted (ds.set i y) + ((ds.set i y).length - j) * x :=
    weighted_set (by rwa [List.getElem?_set_ne hij])
  rw [List.length_set] at hsecond
  rw [run_b, run_b, List.length_set, List.length_set]
  intro hmod
  have hsame := Nat.modEq_iff_dvd.mp (Nat.ModEq.add_left_cancel' _ hmod)
  have hdvd : (p : ℤ) ∣ (j - i : ℤ) * (x - y) := by
    have hdiff : (weighted ds : ℤ) - weighted ((ds.set i y).set j x) = (j - i) * (x - y) := by
      zify [hilt.le, hjlt.le] at hfirst hsecond
      linear_combination -hfirst - hsecond
    rwa [hdiff] at hsame
  rcases (Nat.prime_iff_prime_int.mp hp).dvd_or_dvd hdvd with hd | hd
  · have hzero := Int.eq_zero_of_abs_lt_dvd hd (by rw [abs_lt]; omega)
    omega
  · have hzero := Int.eq_zero_of_abs_lt_dvd hd (by rw [abs_lt]; omega)
    omega

end Detection

end RollingSum

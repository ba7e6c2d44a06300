import Mathlib.Data.Finset.Max
import Mathlib.Data.List.Perm.Basic

/-! # Erasing from a deque through references to its slots

A deque keeps its elements in consecutive slots. Erasing one moves the elements in front of it one
slot up or those behind it one slot down, so a reference to a slot denotes whatever is in it later.
For elements that started in the slot of their own number: a sequence of erasures through slots
that erases just the numbers of these slots erased each through its own. -/
namespace SlotDeque

structure Slots (α : Type) where
  first : ℕ
  items : List α

section Operations

variable {α : Type}

/-- The element in a slot, if the slot is still in use. -/
def Slots.at (d : Slots α) (slot : ℕ) : Option α :=
  if d.first ≤ slot then d.items[slot - d.first]? else none

/-- `frontMoves` says whether the elements in front of the erased one are moved. -/
def Slots.eraseIdx (frontMoves : Bool) (i : ℕ) (d : Slots α) : Slots α :=
  ⟨if frontMoves then d.first + 1 else d.first, d.items.eraseIdx i⟩

variable {d : Slots α} {slot : ℕ} {a : α}

theorem at_eq_some : d.at slot = some a ↔ d.first ≤ slot ∧ d.items[slot - d.first]? = some a := by
  unfold Slots.at
  split <;> simp_all

/-- Where an element is found again after another one was erased. -/
theorem at_eraseIdx (frontMoves : Bool) (h : d.at slot = some a) (q : ℕ) :
    (d.eraseIdx frontMoves (slot - d.first)).at q =
      if frontMoves then if q ≤ slot then (if q = 0 then none else d.at (q - 1)) else d.at q
      else if q < slot then d.at q else d.at (q + 1) := by
  obtain ⟨hfirst, -⟩ := at_eq_some.mp h
  cases frontMoves <;> simp only [Slots.at, Slots.eraseIdx, List.getElem?_eraseIdx] <;> grind

end Operations

section Layouts

/-- Which number is in which slot. Numbers and slots are integers so that a layout has a mirror
image. -/
abbrev Layout := ℤ → Option ℤ

/-- Numbers grow at least as fast as slots do. -/
def Ascending (l : Layout) : Prop :=
  ∀ p q v w, l p = some v → l q = some w → p ≤ q → v + (q - p) ≤ w

/-- One erasure through the slot `p.1` of what is there, `p.2`. -/
def Erasure (l : Layout) (p : ℤ × ℤ) (l' : Layout) : Prop :=
  l p.1 = some p.2 ∧
    ((∀ q, l' q = if q ≤ p.1 then l (q - 1) else l q) ∨
      ∀ q, l' q = if q < p.1 then l q else l (q + 1))

inductive Erasures : Layout → List (ℤ × ℤ) → Layout → Prop where
  | nil {l} : Erasures l [] l
  | cons {l m k p ps} : Erasure l p m → Erasures m ps k → Erasures l (p :: ps) k

variable {l m : Layout} {p : ℤ × ℤ} {ps : List (ℤ × ℤ)}

theorem Erasure.ascending (h : Erasure l p m) (hl : Ascending l) : Ascending m := by
  intro q r v w hv hw hqr
  rcases h.2 with hm | hm
  · rw [hm] at hv hw
    split_ifs at hv hw with hq hr hr
    · have hgap := hl _ _ _ _ hv hw (by omega)
      omega
    · have hgap := hl _ _ _ _ hv hw (by omega)
      omega
    · omega
    · exact hl _ _ _ _ hv hw hqr
  · rw [hm] at hv hw
    split_ifs at hv hw with hq hr hr
    · exact hl _ _ _ _ hv hw hqr
    · have hgap := hl _ _ _ _ hv hw (by omega)
      omega
    · omega
    · have hgap := hl _ _ _ _ hv hw (by omega)
      omega

/-- A layout seen from the other end. -/
def mirror (l : Layout) : Layout := fun q => (l (-q)).map (- ·)

def flip (p : ℤ × ℤ) : ℤ × ℤ := (-p.1, -p.2)

theorem mirror_eq_some {q v : ℤ} : mirror l q = some v ↔ l (-q) = some (-v) := by
  unfold mirror
  constructor
  · intro h
    obtain ⟨w, hw, rfl⟩ := Option.map_eq_some_iff.mp h
    rw [hw, Int.neg_neg]
  · intro h
    rw [h, Option.map_some, Int.neg_neg]

theorem Ascending.mirror (h : Ascending l) : Ascending (mirror l) := by
  intro p q v w hv hw hpq
  have hgap := h _ _ _ _ (mirror_eq_some.mp hw) (mirror_eq_some.mp hv) (by omega)
  omega

theorem mirror_apply (q : ℤ) : mirror l q = (l (-q)).map (- ·) := rfl

theorem Erasure.mirror (h : Erasure l p m) : Erasure (mirror l) (flip p) (mirror m) := by
  have hslot : (flip p).1 = -p.1 := rfl
  refine ⟨mirror_eq_some.mpr (by simpa [flip] using h.1), ?_⟩
  rcases h.2 with hm | hm
  · refine Or.inr fun q => ?_
    by_cases hq : q < (flip p).1
    · rw [if_pos hq, mirror_apply, mirror_apply, hm, if_neg (by omega)]
    · rw [if_neg hq, mirror_apply, mirror_apply, hm, if_pos (by omega), Int.neg_add,
        Int.sub_eq_add_neg]
  · refine Or.inl fun q => ?_
    by_cases hq : q ≤ (flip p).1
    · rw [if_pos hq, mirror_apply, mirror_apply, hm, if_neg (by omega), Int.neg_sub, Int.add_comm,
        Int.sub_eq_add_neg]
    · rw [if_neg hq, mirror_apply, mirror_apply, hm, if_pos (by omega)]

theorem Erasures.mirror (h : Erasures l ps m) :
    Erasures (mirror l) (ps.map flip) (mirror m) := by
  induction h with
  | nil => exact .nil
  | cons hstep _ ih => exact .cons hstep.mirror ih

/-- From the slot `y` on everything has been moved down, and what is erased from a slot below its
number is at most `y`: then nothing more is erased through the slots from `y` on. -/
theorem erased_below {y : ℤ} (h : Erasures l ps m) (hl : ∀ q v, l q = some v → y ≤ q → q < v)
    (hmax : ∀ p ∈ ps, p.1 < p.2 → p.2 ≤ y) : ∀ p ∈ ps, p.1 < y := by
  induction h with
  | nil => simp
  | @cons l k m p ps hstep _ ih =>
    have hbelow : p.1 < y := by
      by_contra hle
      have hup := hl _ _ hstep.1 (by omega)
      have hbound := hmax p List.mem_cons_self hup
      omega
    intro r hr
    rcases List.mem_cons.mp hr with rfl | hr
    · exact hbelow
    · refine ih (fun q v hv hq => ?_) (fun r hr => hmax r (List.mem_cons_of_mem _ hr)) r hr
      rcases hstep.2 with hk | hk
      · rw [hk, if_neg (by omega)] at hv
        exact hl q v hv hq
      · rw [hk, if_neg (by omega)] at hv
        have hup := hl _ _ hv (by omega)
        omega

/-- Elements that were moved down are never back in the slots of their numbers, so the erasures
that follow through own slots are all on the other side. -/
theorem own_below {y : ℤ} (hl : Ascending l) (hy : l y = some y) {k : Layout}
    (hk : ∀ q, k q = if q < y then l q else l (q + 1)) (h : Erasures k ps m)
    (hown : ∀ p ∈ ps, p.1 = p.2) : ∀ p ∈ ps, p.1 < y := by
  refine erased_below h (fun q v hv hq => ?_) fun p hp hlt => absurd (hown p hp) hlt.ne
  rw [hk, if_neg (by omega)] at hv
  have hgap := hl _ _ _ _ hy hv (by omega)
  omega

theorem own_above {y : ℤ} (hl : Ascending l) (hy : l y = some y) {k : Layout}
    (hk : ∀ q, k q = if q ≤ y then l (q - 1) else l q) (h : Erasures k ps m)
    (hown : ∀ p ∈ ps, p.1 = p.2) : ∀ p ∈ ps, y < p.1 := by
  have hmirror : ∀ q, mirror k q = if q < -y then mirror l q else mirror l (q + 1) := by
    intro q
    by_cases hq : q < -y
    · rw [if_pos hq, mirror_apply, mirror_apply, hk, if_neg (by omega)]
    · rw [if_neg hq, mirror_apply, mirror_apply, hk, if_pos (by omega), Int.neg_add,
        Int.sub_eq_add_neg]
  have hbelow := own_below hl.mirror (mirror_eq_some.mpr (by simpa using hy)) hmirror h.mirror ?_
  · intro p hp
    exact Int.neg_lt_neg_iff.mp (hbelow (flip p) (List.mem_map_of_mem hp))
  · intro p hp
    obtain ⟨r, hr, rfl⟩ := List.mem_map.mp hp
    simp [flip, hown r hr]

/-- An erasure that finds a higher number in its slot is never made up for. -/
theorem never_compensated (hl : Ascending l) (h : Erasures l (p :: ps) m) (hup : p.1 < p.2) :
    ¬ ((p :: ps).map Prod.fst).Perm ((p :: ps).map Prod.snd) := by
  obtain ⟨top, htop, hmax⟩ := ((p :: ps).filter fun r => r.1 < r.2).toFinset.exists_max_image Prod.snd
    ⟨p, by simp [hup]⟩
  simp only [List.mem_toFinset, List.mem_filter, decide_eq_true_eq] at htop hmax
  have hmoved : ∀ q v, l q = some v → top.2 ≤ q → q < v := by
    intro q v hv hq
    cases h with
    | cons hstep _ =>
      have hle := hmax p ⟨List.mem_cons_self, hup⟩
      have hgap := hl _ _ _ _ hstep.1 hv (by omega)
      omega
  have hbelow := erased_below h hmoved fun r hr hlt => hmax r ⟨hr, hlt⟩
  intro hperm
  have hmem : top.2 ∈ (p :: ps).map Prod.fst :=
    hperm.mem_iff.mpr (List.mem_map_of_mem htop.1)
  obtain ⟨r, hr, heq⟩ := List.mem_map.mp hmem
  have hlt := hbelow r hr
  omega

/-- Erasures that leave the right numbers behind each took the number of their own slot. -/
theorem own_slots (hl : Ascending l) (h : Erasures l ps m)
    (hperm : (ps.map Prod.fst).Perm (ps.map Prod.snd)) : ∀ p ∈ ps, p.1 = p.2 := by
  induction h with
  | nil => simp
  | @cons l k m p ps hstep hrest ih =>
    rcases lt_trichotomy p.1 p.2 with hup | hsame | hdown
    · exact absurd hperm (never_compensated hl (.cons hstep hrest) hup)
    · rw [List.map_cons, List.map_cons, hsame, List.perm_cons] at hperm
      intro r hr
      rcases List.mem_cons.mp hr with rfl | hr
      · exact hsame
      · exact ih (hstep.ascending hl) hperm r hr
    · have hflipped : (flip p).1 < (flip p).2 := Int.neg_lt_neg hdown
      have hmirror := (Erasures.cons hstep hrest).mirror
      rw [List.map_cons] at hmirror
      refine absurd ?_ (never_compensated hl.mirror hmirror hflipped)
      have hneg := hperm.map (- ·)
      simpa [flip, Function.comp_def] using hneg

end Layouts

section Numbers

/-- Erasures through the slots `p.1` of the numbers `p.2` found there. -/
inductive Erases : Slots ℕ → List (ℕ × ℕ) → Slots ℕ → Prop where
  | nil {d} : Erases d [] d
  | cons {d k p ps} (frontMoves : Bool) : d.at p.1 = some p.2 →
      Erases (d.eraseIdx frontMoves (p.1 - d.first)) ps k → Erases d (p :: ps) k

def layout (d : Slots ℕ) : Layout := fun q => if 0 ≤ q then (d.at q.toNat).map (↑) else none

def castPair (p : ℕ × ℕ) : ℤ × ℤ := (p.1, p.2)

variable {d k : Slots ℕ} {p : ℕ × ℕ} {ps : List (ℕ × ℕ)}

theorem layout_natCast (slot : ℕ) : layout d slot = (d.at slot).map (↑) := by
  unfold layout
  rw [if_pos (Int.natCast_nonneg slot), Int.toNat_natCast]

theorem layout_neg {q : ℤ} (h : q < 0) : layout d q = none := if_neg (by omega)

theorem layout_eraseIdx_front {slot a : ℕ} (h : d.at slot = some a) (q : ℤ) :
    layout (d.eraseIdx true (slot - d.first)) q =
      if q ≤ slot then layout d (q - 1) else layout d q := by
  by_cases hneg : q < 0
  · rw [layout_neg hneg, layout_neg hneg, layout_neg (show q - 1 < 0 by omega), ite_self]
  · obtain ⟨r, rfl⟩ := Int.eq_ofNat_of_zero_le (Int.not_lt.mp hneg)
    rw [layout_natCast, at_eraseIdx true h, layout_natCast]
    by_cases hr : r ≤ slot
    · rw [if_pos rfl, if_pos hr, if_pos (Int.ofNat_le.mpr hr)]
      by_cases hzero : r = 0
      · rw [if_pos hzero, layout_neg (by omega), Option.map_none]
      · rw [if_neg hzero, ← layout_natCast]
        congr 1
        omega
    · rw [if_pos rfl, if_neg hr, if_neg (fun hle => hr (Int.ofNat_le.mp hle))]

theorem layout_eraseIdx_back {slot a : ℕ} (h : d.at slot = some a) (q : ℤ) :
    layout (d.eraseIdx false (slot - d.first)) q =
      if q < slot then layout d q else layout d (q + 1) := by
  by_cases hneg : q < 0
  · have hbefore : q < slot := Int.lt_of_lt_of_le hneg (Int.natCast_nonneg _)
    rw [layout_neg hneg, layout_neg hneg, if_pos hbefore]
  · obtain ⟨r, rfl⟩ := Int.eq_ofNat_of_zero_le (Int.not_lt.mp hneg)
    rw [layout_natCast, at_eraseIdx false h, layout_natCast]
    by_cases hr : r < slot
    · rw [if_neg Bool.false_ne_true, if_pos hr, if_pos (Int.ofNat_lt.mpr hr)]
    · rw [if_neg Bool.false_ne_true, if_neg hr, if_neg (fun hlt => hr (Int.ofNat_lt.mp hlt)),
        ← layout_natCast]
      rfl

theorem eraseIdx_erasure (frontMoves : Bool) (h : d.at p.1 = some p.2) :
    Erasure (layout d) (castPair p) (layout (d.eraseIdx frontMoves (p.1 - d.first))) := by
  refine ⟨by rw [castPair, layout_natCast, h, Option.map_some], ?_⟩
  cases frontMoves with
  | true => exact Or.inl (layout_eraseIdx_front h)
  | false => exact Or.inr (layout_eraseIdx_back h)

theorem ascending_eraseIdx (frontMoves : Bool) {slot a : ℕ} (h : d.at slot = some a)
    (hd : Ascending (layout d)) : Ascending (layout (d.eraseIdx frontMoves (slot - d.first))) :=
  (eraseIdx_erasure (p := (slot, a)) frontMoves h).ascending hd

/-- An element on the side that is not moved stays in its slot. -/
theorem at_unmoved (frontMoves : Bool) {slot a q : ℕ} (h : d.at slot = some a)
    (hside : if frontMoves then slot < q else q < slot) :
    (d.eraseIdx frontMoves (slot - d.first)).at q = d.at q := by
  rw [at_eraseIdx frontMoves h]
  cases frontMoves with
  | true =>
    have hq : slot < q := hside
    simp [Nat.not_le.mpr hq]
  | false =>
    have hq : q < slot := hside
    simp [hq]

theorem Erases.erasures (h : Erases d ps k) : Erasures (layout d) (ps.map castPair) (layout k) := by
  induction h with
  | nil => exact .nil
  | cons frontMoves hat _ ih => exact .cons (eraseIdx_erasure frontMoves hat) ih

/-- What is left and what was erased is what was there. -/
theorem Erases.items (h : Erases d ps k) : (k.items ++ ps.map Prod.snd).Perm d.items := by
  induction h with
  | nil => simp
  | @cons d k p ps frontMoves hat _ ih =>
    obtain ⟨hlt, hget⟩ := List.getElem?_eq_some_iff.mp (at_eq_some.mp hat).2
    have herased := List.getElem_cons_eraseIdx_perm hlt
    rw [hget] at herased
    exact List.perm_middle.trans ((ih.cons p.2).trans herased)

/-- After an erasure through its own slot, further ones are through their own slots only on the
side that was not moved. -/
theorem own_side (frontMoves : Bool) {y : ℕ} (hd : Ascending (layout d)) (hy : d.at y = some y)
    (h : Erases (d.eraseIdx frontMoves (y - d.first)) ps k) (hown : ∀ p ∈ ps, p.1 = p.2) :
    ∀ p ∈ ps, if frontMoves then y < p.1 else p.1 < y := by
  have hslot : layout d y = some (y : ℤ) := by rw [layout_natCast, hy, Option.map_some]
  have hcast : ∀ p ∈ ps.map castPair, p.1 = p.2 := by
    intro p hp
    obtain ⟨r, hr, rfl⟩ := List.mem_map.mp hp
    exact congrArg Int.ofNat (hown r hr)
  intro p hp
  cases frontMoves with
  | true =>
    have habove := own_above hd hslot (layout_eraseIdx_front hy) h.erasures hcast
    exact Int.ofNat_lt.mp (habove (castPair p) (List.mem_map_of_mem hp))
  | false =>
    have hbelow := own_below hd hslot (layout_eraseIdx_back hy) h.erasures hcast
    exact Int.ofNat_lt.mp (hbelow (castPair p) (List.mem_map_of_mem hp))

theorem range_ascending (n : ℕ) : Ascending (layout ⟨0, List.range n⟩) := by
  intro p q v w hv hw _
  have hnumber {r x : ℤ} (h : layout ⟨0, List.range n⟩ r = some x) : x = r := by
    unfold layout at h
    split_ifs at h with hr
    obtain ⟨i, hi, rfl⟩ := Option.map_eq_some_iff.mp h
    have hget := (at_eq_some.mp hi).2
    obtain ⟨hlt, rfl⟩ := List.getElem?_eq_some_iff.mp hget
    simp only [List.getElem_range]
    omega
  rw [hnumber hv, hnumber hw]
  omega

/-- In a deque of the numbers of its slots: if the erased numbers are those of the slots used,
every one was erased through its own. -/
theorem erases_own_slots {n : ℕ} (h : Erases ⟨0, List.range n⟩ ps d)
    (hperm : (ps.map Prod.fst).Perm (ps.map Prod.snd)) : ∀ p ∈ ps, p.1 = p.2 := by
  intro p hp
  have hcast : ((ps.map castPair).map Prod.fst).Perm ((ps.map castPair).map Prod.snd) := by
    have hmap := hperm.map Int.ofNat
    rw [List.map_map, List.map_map] at hmap ⊢
    exact hmap
  have hown := own_slots (range_ascending n) h.erasures hcast (castPair p) (List.mem_map_of_mem hp)
  exact Int.ofNat.inj hown

end Numbers

end SlotDeque

import Mathlib.Algebra.Group.Int.Defs
import Mathlib.Algebra.Group.Nat.Defs
import Mathlib.Data.List.Basic
import Mathlib.Data.List.Range
import Mathlib.Data.Int.Basic

/-! # Byte memory and little-endian words

Cells carry integer addresses relative to the start of an array, so an access below the
array is an observable event of the model and not an impossible one. Loads and stores are
little-endian. Blockwise transformation works in place on consecutive pairs of words. -/
namespace ByteMemory

abbrev Memory := ℤ → UInt8

def slice (m : Memory) (a : ℤ) (n : ℕ) : List UInt8 :=
  (List.range n).map fun i : ℕ => m (a + i)

def write (m : Memory) (a : ℤ) (bs : List UInt8) : Memory := fun i =>
  if a ≤ i ∧ i < a + bs.length then bs.getD (i - a).toNat 0 else m i

/-- The `w` low-order bytes of `v`, least significant first. -/
def encodeLE : ℕ → ℕ → List UInt8
  | 0, _ => []
  | w + 1, v => UInt8.ofNat v :: encodeLE w (v / 256)

def decodeLE : List UInt8 → ℕ
  | [] => 0
  | b :: bs => b.toNat + 256 * decodeLE bs

@[simp] theorem length_encodeLE (w v : ℕ) : (encodeLE w v).length = w := by
  induction w generalizing v with
  | zero => rfl
  | succ w ih => simp [encodeLE, ih]

theorem decode_encodeLE (w v : ℕ) : decodeLE (encodeLE w v) = v % 256 ^ w := by
  induction w generalizing v with
  | zero => simp [encodeLE, decodeLE, Nat.mod_one]
  | succ w ih =>
    have hb : (UInt8.ofNat v).toNat = v % 256 := by simp
    rw [encodeLE, decodeLE, ih, hb, Nat.pow_succ', Nat.mod_mul]

theorem decode_encodeLE_of_lt {w v : ℕ} (h : v < 256 ^ w) :
    decodeLE (encodeLE w v) = v := by
  rw [decode_encodeLE, Nat.mod_eq_of_lt h]

theorem decodeLE_lt (bs : List UInt8) : decodeLE bs < 256 ^ bs.length := by
  induction bs with
  | nil => simp [decodeLE]
  | cons b bs ih =>
    have hb := b.toNat_lt
    rw [decodeLE, List.length_cons, Nat.pow_succ]
    omega

theorem decodeLE_append (bs cs : List UInt8) :
    decodeLE (bs ++ cs) = decodeLE bs + 256 ^ bs.length * decodeLE cs := by
  induction bs with
  | nil => simp [decodeLE]
  | cons b bs ih =>
    rw [List.cons_append, decodeLE, decodeLE, ih, List.length_cons, Nat.pow_succ', Nat.mul_add,
      Nat.mul_assoc, Nat.add_assoc]

theorem encode_decodeLE (bs : List UInt8) : encodeLE bs.length (decodeLE bs) = bs := by
  induction bs with
  | nil => rfl
  | cons b bs ih =>
    have hb := b.toNat_lt
    have hlow : UInt8.ofNat (b.toNat + 256 * decodeLE bs) = b := by
      apply UInt8.toNat_inj.mp
      simp only [UInt8.toNat_ofNat']
      omega
    have hhigh : (b.toNat + 256 * decodeLE bs) / 256 = decodeLE bs := by omega
    rw [List.length_cons, decodeLE, encodeLE, hlow, hhigh, ih]

@[simp] theorem length_slice (m : Memory) (a : ℤ) (n : ℕ) : (slice m a n).length = n := by
  simp [slice]

@[simp] theorem slice_zero (m : Memory) (a : ℤ) : slice m a 0 = [] := rfl

@[simp] theorem slice_one (m : Memory) (a : ℤ) : slice m a 1 = [m a] := by
  simp [slice]

theorem getElem?_slice (m : Memory) (a : ℤ) {n i : ℕ} (h : i < n) :
    (slice m a n)[i]? = some (m (a + i)) := by
  simp [slice, h]

theorem slice_add (m : Memory) (a : ℤ) (n k : ℕ) :
    slice m a (n + k) = slice m a n ++ slice m (a + n) k := by
  simp only [slice, List.range_add, List.map_append, List.map_map]
  congr 1
  apply List.map_congr_left
  intro i _
  simp only [Function.comp_apply]
  congr 1
  omega

/-- Slices agree exactly when their cells do, also at different addresses. -/
theorem slice_eq_iff {m m' : Memory} {a b : ℤ} {n : ℕ} :
    slice m a n = slice m' b n ↔ ∀ i : ℕ, i < n → m (a + i) = m' (b + i) := by
  constructor
  · intro h i hi
    have hc := congrArg (fun l => l[i]?) h
    simpa only [getElem?_slice _ _ hi, Option.some.injEq] using hc
  · intro h
    apply List.map_congr_left
    intro i hi
    exact h i (List.mem_range.mp hi)

theorem slice_congr {m m' : Memory} {a : ℤ} {n : ℕ}
    (h : ∀ i, a ≤ i → i < a + n → m i = m' i) : slice m a n = slice m' a n :=
  slice_eq_iff.mpr fun i hi => h (a + i) (by omega) (by omega)

theorem write_inside (m : Memory) (a : ℤ) (bs : List UInt8) {i : ℤ}
    (hl : a ≤ i) (hu : i < a + bs.length) : write m a bs i = bs.getD (i - a).toNat 0 := by
  simp [write, hl, hu]

theorem write_outside (m : Memory) (a : ℤ) (bs : List UInt8) {i : ℤ}
    (h : i < a ∨ a + bs.length ≤ i) : write m a bs i = m i := by
  have hn : ¬ (a ≤ i ∧ i < a + bs.length) := by omega
  simp only [write, hn, if_false]

theorem slice_write_same (m : Memory) (a : ℤ) (bs : List UInt8) :
    slice (write m a bs) a bs.length = bs := by
  apply List.ext_getElem?
  intro i
  by_cases hi : i < bs.length
  · rw [getElem?_slice _ _ hi, write_inside _ _ _ (by omega) (by omega),
      show (a + i - a).toNat = i by omega]
    simp [hi]
  · simp [slice, Nat.le_of_not_lt hi]

theorem slice_write_of_length (m : Memory) (a : ℤ) {bs : List UInt8} {n : ℕ} (h : bs.length = n) :
    slice (write m a bs) a n = bs := by
  rw [← h, slice_write_same]

theorem slice_write_disjoint (m : Memory) {a b : ℤ} {bs : List UInt8} {n : ℕ}
    (h : b + n ≤ a ∨ a + bs.length ≤ b) : slice (write m a bs) b n = slice m b n := by
  apply slice_congr
  intro i hl hu
  exact write_outside _ _ _ (by omega)

def loadWord (m : Memory) (a : ℤ) : UInt32 := UInt32.ofNat (decodeLE (slice m a 4))

def storeWord (m : Memory) (a : ℤ) (v : UInt32) : Memory := write m a (encodeLE 4 v.toNat)

theorem encode_loadWord (m : Memory) (a : ℤ) : encodeLE 4 (loadWord m a).toNat = slice m a 4 := by
  have hlt : decodeLE (slice m a 4) < 256 ^ 4 := by
    simpa using decodeLE_lt (slice m a 4)
  have hw : (loadWord m a).toNat = decodeLE (slice m a 4) := by
    simp only [loadWord, UInt32.toNat_ofNat']
    omega
  have he := encode_decodeLE (slice m a 4)
  rw [length_slice] at he
  rw [hw, he]

/-- The first two bytes of a word are its low half. -/
theorem decode_low_half (m : Memory) (a : ℤ) :
    decodeLE (slice m a 2) = (loadWord m a).toNat % 2 ^ 16 := by
  have hsplit : slice m a 4 = slice m a 2 ++ slice m (a + 2) 2 := slice_add m a 2 2
  have hlow : decodeLE (slice m a 2) < 256 ^ 2 := by
    simpa using decodeLE_lt (slice m a 2)
  have hhigh : decodeLE (slice m (a + 2) 2) < 256 ^ 2 := by
    simpa using decodeLE_lt (slice m (a + 2) 2)
  rw [loadWord, hsplit, decodeLE_append, length_slice, UInt32.toNat_ofNat']
  omega

theorem load_store_same (m : Memory) (a : ℤ) (v : UInt32) : loadWord (storeWord m a v) a = v := by
  have hs := slice_write_of_length m a (length_encodeLE 4 v.toNat)
  have hv : v.toNat < 256 ^ 4 := v.toNat_lt
  rw [loadWord, storeWord, hs, decode_encodeLE_of_lt hv, UInt32.ofNat_toNat]

theorem load_store_disjoint (m : Memory) {a b : ℤ} (v : UInt32) (h : b + 4 ≤ a ∨ a + 4 ≤ b) :
    loadWord (storeWord m a v) b = loadWord m b := by
  rw [loadWord, storeWord, slice_write_disjoint _ (by simpa using h), ← loadWord]

theorem storeWord_outside (m : Memory) {a i : ℤ} (v : UInt32) (h : i < a ∨ a + 4 ≤ i) :
    storeWord m a v i = m i :=
  write_outside _ _ _ (by simpa using h)

theorem loadWord_eq_iff {m m' : Memory} {a b : ℤ} :
    loadWord m a = loadWord m' b ↔ slice m a 4 = slice m' b 4 := by
  constructor
  · intro h
    rw [← encode_loadWord m, ← encode_loadWord m', h]
  · intro h
    rw [loadWord, loadWord, h]

/-- One in-place step on the two words at `a`. -/
def mapBlock (f : UInt32 × UInt32 → UInt32 × UInt32) (m : Memory) (a : ℤ) : Memory :=
  let v := f (loadWord m a, loadWord m (a + 4))
  storeWord (storeWord m a v.1) (a + 4) v.2

/-- The blocks at `a`, `a + 8`, ... in ascending order, each read after its predecessors
were written. -/
def mapBlocks (f : UInt32 × UInt32 → UInt32 × UInt32) (m : Memory) (a : ℤ) (n : ℕ) : Memory :=
  (List.range n).foldl (fun m (j : ℕ) => mapBlock f m (a + 8 * j)) m

def blockAt (m : Memory) (a : ℤ) : UInt32 × UInt32 := (loadWord m a, loadWord m (a + 4))

variable {f g : UInt32 × UInt32 → UInt32 × UInt32} {m m' : Memory} {a b i : ℤ} {n j : ℕ}

theorem mapBlocks_succ (f : UInt32 × UInt32 → UInt32 × UInt32) (m : Memory) (a : ℤ) (n : ℕ) :
    mapBlocks f m a (n + 1) = mapBlock f (mapBlocks f m a n) (a + 8 * n) := by
  simp [mapBlocks, List.range_succ]

theorem mapBlock_outside (h : i < a ∨ a + 8 ≤ i) : mapBlock f m a i = m i := by
  rw [mapBlock, storeWord_outside _ _ (by omega), storeWord_outside _ _ (by omega)]

theorem blockAt_eq_iff : blockAt m a = blockAt m' b ↔ slice m a 8 = slice m' b 8 := by
  rw [blockAt, blockAt, Prod.mk.injEq, loadWord_eq_iff, loadWord_eq_iff,
    show (8 : ℕ) = 4 + 4 from rfl, slice_add, slice_add]
  constructor
  · rintro ⟨h₀, h₁⟩
    exact congrArg₂ _ h₀ h₁
  · intro h
    exact List.append_inj h (by simp)

/-- A run of blocks is determined block by block. -/
theorem slice_eq_iff_blocks : slice m a (8 * n) = slice m' b (8 * n) ↔
    ∀ j : ℕ, j < n → blockAt m (a + 8 * j) = blockAt m' (b + 8 * j) := by
  simp only [blockAt_eq_iff, slice_eq_iff]
  constructor
  · intro h j hj i hi
    have := h (8 * j + i) (by omega)
    rwa [show a + ((8 * j + i : ℕ) : ℤ) = a + 8 * j + i by omega,
      show b + ((8 * j + i : ℕ) : ℤ) = b + 8 * j + i by omega] at this
  · intro h i hi
    have := h (i / 8) (by omega) (i % 8) (by omega)
    rwa [show a + 8 * ((i / 8 : ℕ) : ℤ) + ((i % 8 : ℕ) : ℤ) = a + i by omega,
      show b + 8 * ((i / 8 : ℕ) : ℤ) + ((i % 8 : ℕ) : ℤ) = b + i by omega] at this

theorem blockAt_mapBlock_same : blockAt (mapBlock f m a) a = f (blockAt m a) := by
  rw [blockAt, mapBlock, load_store_same, load_store_disjoint _ _ (by omega), load_store_same]
  rfl

theorem blockAt_mapBlock_other (h : b + 8 ≤ a ∨ a + 8 ≤ b) :
    blockAt (mapBlock f m a) b = blockAt m b :=
  blockAt_eq_iff.mpr (slice_congr fun _ _ _ => mapBlock_outside (by omega))

theorem mapBlocks_outside (h : i < a ∨ a + 8 * n ≤ i) : mapBlocks f m a n i = m i := by
  induction n with
  | zero => rfl
  | succ n ih => rw [mapBlocks_succ, mapBlock_outside (by omega), ih (by omega)]

/-- Each block of the result depends on the same block of the input alone. -/
theorem blockAt_mapBlocks (h : j < n) :
    blockAt (mapBlocks f m a n) (a + 8 * j) = f (blockAt m (a + 8 * j)) := by
  induction n with
  | zero => omega
  | succ n ih =>
    rw [mapBlocks_succ]
    by_cases hj : j = n
    · subst j
      rw [blockAt_mapBlock_same]
      congr 1
      exact blockAt_eq_iff.mpr (slice_congr fun _ _ _ => mapBlocks_outside (by omega))
    · rw [blockAt_mapBlock_other (by omega), ih (by omega)]

/-- The transformation commutes with moving the bytes somewhere else. -/
theorem slice_mapBlocks_congr (h : slice m a (8 * n) = slice m' b (8 * n)) :
    slice (mapBlocks f m a n) a (8 * n) = slice (mapBlocks f m' b n) b (8 * n) := by
  rw [slice_eq_iff_blocks] at h ⊢
  intro j hj
  rw [blockAt_mapBlocks hj, blockAt_mapBlocks hj, h j hj]

theorem slice_mapBlocks_inverse (hgf : Function.LeftInverse g f) :
    slice (mapBlocks g (mapBlocks f m a n) a n) a (8 * n) = slice m a (8 * n) := by
  rw [slice_eq_iff_blocks]
  intro j hj
  rw [blockAt_mapBlocks hj, blockAt_mapBlocks hj, hgf]

theorem mapBlocks_inverse (hgf : Function.LeftInverse g f) (m : Memory) (a : ℤ) (n : ℕ) :
    mapBlocks g (mapBlocks f m a n) a n = m := by
  funext i
  by_cases hi : a ≤ i ∧ i < a + 8 * n
  · have hc := slice_eq_iff.mp (slice_mapBlocks_inverse hgf (m := m) (a := a) (n := n))
      (i - a).toNat (by omega)
    rwa [show a + ((i - a).toNat : ℤ) = i by omega] at hc
  · rw [mapBlocks_outside (by omega), mapBlocks_outside (by omega)]

end ByteMemory

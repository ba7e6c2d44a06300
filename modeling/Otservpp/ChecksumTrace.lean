import Mathlib.Algebra.BigOperators.Group.Finset.Basic
import Mathlib.Algebra.BigOperators.Intervals
import Otservpp.Corruption

/-! # The additions of the checksum loop

`adler32` again with every `a += *data++; b += a` recorded: the address read and the accumulators
found there. The reductions are far enough apart only because they are no further apart. -/
namespace ChecksumTrace

open ByteMemory Crypto RollingSum Corruption

structure Addition where
  address : ℤ
  before : Adler
  deriving DecidableEq, Repr

/-- Neither of the two additions leaves the 32 bits of its accumulator. -/
structure Addition.Fits (m : Memory) (e : Addition) : Prop where
  a : e.before.a.toNat + (m e.address).toNat < 2 ^ 32
  b : e.before.b.toNat + (e.before.a.toNat + (m e.address).toNat) < 2 ^ 32

structure Run where
  acc : Adler
  trace : List Addition

def Run.byte (m : Memory) (r : Run) (data : ℤ) : Run :=
  ⟨r.acc.byte (m data), r.trace ++ [⟨data, r.acc⟩]⟩

def Run.reduce (r : Run) : Run := ⟨r.acc.reduce, r.trace⟩

def steps (m : Memory) (data : ℤ) (n : ℕ) (r : Run) : Run :=
  (List.range n).foldl (fun r (i : ℕ) => r.byte m (data + i)) r

def chunk (m : Memory) (data : ℤ) (k : ℕ) (r : Run) : Run :=
  let groups := (List.range (k / 16)).foldl (fun r (g : ℕ) => steps m (data + 16 * g) 16 r) r
  (steps m (data + 16 * (k / 16 : ℕ)) (k % 16) groups).reduce

def loop (m : Memory) : ℕ → ℤ → ℤ → Run → Run
  | 0, _, _, r => r
  | fuel + 1, data, len, r =>
    if 0 < len then
      let k := if 5552 < len then 5552 else len.toNat
      loop m fuel (data + k) (len - k) (chunk m data k r)
    else r

/-- The call with the assertion of a debug build on its length. -/
def adler32 (ndebug : Bool) (m : Memory) (data len : ℤ) : Option (UInt32 × List Addition) :=
  if ndebug || len != 0 then
    let r := loop m len.toNat data len ⟨⟨1, 0⟩, []⟩
    some ((r.acc.b <<< 16) ||| r.acc.a, r.trace)
  else none

/-- The additions of `n` bytes from the accumulators `s`, without any reduction. -/
def additions (m : Memory) (data : ℤ) (n : ℕ) (s : Adler) : List Addition :=
  (List.range n).map fun i : ℕ => ⟨data + i, adlerSteps m data i s⟩

section Recorded

variable {m : Memory} {data len : ℤ} {s : Adler} {t : Sums} {r : Run} {n k : ℕ}

theorem steps_eq : steps m data n r =
    ⟨adlerSteps m data n r.acc, r.trace ++ additions m data n r.acc⟩ := by
  induction n with
  | zero => simp [steps, adlerSteps, additions]
  | succ n ih =>
    have hlast : steps m data (n + 1) r = (steps m data n r).byte m (data + n) := by
      simp [steps, List.range_succ]
    rw [hlast, ih, Run.byte, adlerSteps_add]
    simp [adlerSteps, additions, List.range_succ]

theorem steps_add : steps m data (n + k) r = steps m (data + n) k (steps m data n r) := by
  simp [steps, List.range_add, List.foldl_map, Int.add_assoc]

theorem groups_eq :
    (List.range n).foldl (fun r (g : ℕ) => steps m (data + 16 * g) 16 r) r =
      steps m data (16 * n) r := by
  induction n with
  | zero => rfl
  | succ n ih =>
    rw [List.range_succ, List.foldl_append, ih, Nat.mul_succ, steps_add]
    simp

theorem chunk_eq : chunk m data k r =
    ⟨adlerChunk m data k r.acc, r.trace ++ additions m data k r.acc⟩ := by
  have hk : 16 * (k / 16) + k % 16 = k := Nat.div_add_mod k 16
  have hcast : data + 16 * ((k / 16 : ℕ) : ℤ) = data + ((16 * (k / 16) : ℕ) : ℤ) := by omega
  rw [chunk, groups_eq, hcast, ← steps_add, hk, steps_eq, adlerChunk_eq]
  rfl

theorem additions_addresses :
    (additions m data n s).map Addition.address = (List.range n).map fun i : ℕ => data + i := by
  simp [additions, Function.comp_def]

/-- From reduced accumulators, every byte of a chunk is added without a wrap. -/
theorem additions_fit (h : Reduces s t) (hk : k ≤ 5552) :
    ∀ e ∈ additions m data k s, e.Fits m := by
  intro e he
  obtain ⟨i, hi, rfl⟩ := List.mem_map.mp he
  have hik : i < k := List.mem_range.mp hi
  have hfits (j : ℕ) (hj : j ≤ 5552) : ((sumsOf s).run (numbers (slice m data j))).a < 2 ^ 32 ∧
      ((sumsOf s).run (numbers (slice m data j))).b < 2 ^ 32 :=
    chunk_bounds h (by rw [length_slice]; exact hj)
  obtain ⟨ha, hb⟩ := hfits i (by omega)
  have hbefore : sumsOf (adlerSteps m data i s) = (sumsOf s).run (numbers (slice m data i)) :=
    steps_exact rfl ha hb
  have hnext : (sumsOf s).run (numbers (slice m data (i + 1))) =
      (sumsOf (adlerSteps m data i s)).add (m (data + i)).toNat := by
    rw [slice_add, slice_one, numbers, List.map_append, run_append, hbefore]
    rfl
  have hbounds := hfits (i + 1) (by omega)
  rw [hnext] at hbounds
  exact ⟨hbounds.1, hbounds.2⟩

/-- The loop computes what it computes without the record, and reads one byte after the other. -/
theorem loop_recorded (fuel : ℕ) (data len : ℤ) (r : Run) (hfuel : len.toNat ≤ fuel)
    (h : Reduces r.acc t) :
    ∃ added, loop m fuel data len r = ⟨adlerLoop m fuel data len r.acc, r.trace ++ added⟩ ∧
      added.map Addition.address = ((List.range len.toNat).map fun i : ℕ => data + i) ∧
        ∀ e ∈ added, e.Fits m := by
  induction fuel generalizing data len r t with
  | zero =>
    have hzero : len.toNat = 0 := by omega
    exact ⟨[], by simp [loop, adlerLoop], by simp [hzero], by simp⟩
  | succ fuel ih =>
    by_cases hl : 0 < len
    · simp only [loop, adlerLoop, hl, if_true]
      generalize hk : (if 5552 < len then 5552 else len.toNat) = k
      have hle : k ≤ len.toNat := by split at hk <;> omega
      have hpos : 0 < k := by split at hk <;> omega
      have hsmall : k ≤ 5552 := by split at hk <;> omega
      have hchunk : Reduces (adlerChunk m data k r.acc) (t.run (numbers (slice m data k))) := by
        rw [adlerChunk_eq]
        exact chunk_reduces h (by rw [length_slice]; exact hsmall)
      obtain ⟨rest, hloop, haddresses, hfit⟩ := ih (data + k) (len - k)
        (chunk m data k r) (by omega) (by rw [chunk_eq]; exact hchunk)
      rw [chunk_eq] at hloop
      refine ⟨additions m data k r.acc ++ rest, ?_, ?_, ?_⟩
      · rw [chunk_eq, hloop, List.append_assoc]
      · have hsplit : len.toNat = k + (len - k).toNat := by omega
        rw [List.map_append, additions_addresses, haddresses, hsplit, List.range_add]
        simp [Function.comp_def, Int.add_assoc]
      · intro e he
        rcases List.mem_append.mp he with hfirst | hrest
        · exact additions_fit h hsmall e hfirst
        · exact hfit e hrest
    · have hzero : len.toNat = 0 := by omega
      exact ⟨[], by simp [loop, adlerLoop, hl], by simp [hzero], by simp⟩

end Recorded

section Value

variable (m : Memory) (data : ℤ) (n : ℕ)

theorem slice_cons : slice m data (n + 1) = m data :: slice m (data + 1) n := by
  rw [Nat.add_comm, slice_add, slice_one]
  rfl

theorem sum_numbers :
    (numbers (slice m data n)).sum = ∑ i ∈ Finset.range n, (m (data + i)).toNat := by
  induction n generalizing data with
  | zero => rfl
  | succ n ih =>
    rw [slice_cons, numbers, List.map_cons, List.sum_cons, ← numbers, ih, Finset.sum_range_succ',
      Nat.add_comm]
    simp [Int.add_comm, Int.add_left_comm]

theorem weighted_numbers : weighted (numbers (slice m data n)) =
    ∑ i ∈ Finset.range n, (n - i) * (m (data + i)).toNat := by
  induction n generalizing data with
  | zero => rfl
  | succ n ih =>
    have hlength : (numbers (slice m (data + 1) n)).length = n := by simp [numbers]
    rw [slice_cons, numbers, List.map_cons, ← numbers, weighted, hlength, ih,
      Finset.sum_range_succ', Nat.add_comm]
    simp [Int.add_comm, Int.add_left_comm]

theorem checksum_slice : checksum (slice m data n) =
    (n + ∑ i ∈ Finset.range n, (n - i) * (m (data + i)).toNat) % 65521 * 65536 +
      (1 + ∑ i ∈ Finset.range n, (m (data + i)).toNat) % 65521 := by
  have hlength : (numbers (slice m data n)).length = n := by simp [numbers]
  rw [checksum, run_a, run_b, hlength, sum_numbers, weighted_numbers, modulus]
  simp

end Value

/-- For every admissible length the call answers the two sums, reads the bytes once and in order,
and adds them without a wrap between two reductions. -/
theorem adler32_without_overflow (ndebug : Bool) (m : Memory) (data : ℤ) {n : ℕ} (hpos : 1 ≤ n)
    (hlength : n < 2 ^ 31) :
    ∃ v trace, adler32 ndebug m data (toInt32 n) = some (v, trace) ∧
      v.toNat = (n + ∑ i ∈ Finset.range n, (n - i) * (m (data + i)).toNat) % 65521 * 65536 +
        (1 + ∑ i ∈ Finset.range n, (m (data + i)).toNat) % 65521 ∧
      trace.map Addition.address = ((List.range n).map fun i : ℕ => data + i) ∧
        ∀ e ∈ trace, e.Fits m := by
  obtain ⟨trace, hloop, haddresses, hfit⟩ := loop_recorded (m := m) (t := ⟨1, 0⟩)
    (n : ℤ).toNat data n ⟨⟨1, 0⟩, []⟩ (Nat.le_refl _) ⟨rfl, rfl⟩
  have hassert : (ndebug || (n : ℤ) != 0) = true := by
    have hne : ((n : ℤ) != 0) = true := bne_iff_ne.mpr (by omega)
    rw [hne, Bool.or_true]
  refine ⟨Crypto.adler32 m data n, trace, ?_, ?_, haddresses, hfit⟩
  · rw [toInt32_of_lt hlength, adler32, if_pos hassert, hloop]
    rfl
  · rw [adler32_exact, checksum_slice]

/-- The bytes of `abc`. -/
theorem adler32_without_overflow_three :
    ∃ v trace, adler32 false (fun i => UInt8.ofNat (i.toNat + 97)) 0 (toInt32 3) = some (v, trace) ∧
      v.toNat = 0x24D * 65536 + 0x127 ∧ trace.map Addition.address = [0, 1, 2] ∧
        ∀ e ∈ trace, e.Fits fun i => UInt8.ofNat (i.toNat + 97) := by
  obtain ⟨v, trace, hcall, hvalue, haddresses, hfit⟩ := adler32_without_overflow false
    (fun i => UInt8.ofNat (i.toNat + 97)) 0 (n := 3) (by decide) (by decide)
  exact ⟨v, trace, hcall, hvalue.trans (by decide), haddresses.trans (by decide), hfit⟩

end ChecksumTrace

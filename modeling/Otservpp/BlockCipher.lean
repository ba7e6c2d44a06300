import Otservpp.Crypto

/-! # The word loop of the block cipher

Both directions walk the buffer with a 32-bit word index against a 64-bit length. The pass
records the address of every word it loads or stores, and iterations spend fuel, so that a
call that never returns is one that no fuel completes. -/
namespace BlockCipher

open ByteMemory Crypto

structure Pass where
  memory : Memory
  touched : List ℤ

/-- One iteration loads and stores the words `pos` and `pos + 1`; the index is a `uint`. -/
def step (f : UInt32 × UInt32 → UInt32 × UInt32) (buffer : ℤ) (pos : UInt32) (p : Pass) : Pass :=
  let a₀ := buffer + 4 * pos.toNat
  let a₁ := buffer + 4 * (pos + 1).toNat
  let v := f (loadWord p.memory a₀, loadWord p.memory a₁)
  ⟨storeWord (storeWord p.memory a₀ v.1) a₁ v.2, p.touched ++ [a₀, a₁, a₀, a₁]⟩

def loop (f : UInt32 × UInt32 → UInt32 × UInt32) (buffer : ℤ) (lenght : ℕ) :
    ℕ → UInt32 → Pass → Option Pass
  | 0, _, _ => none
  | fuel + 1, pos, p =>
    if pos.toNat < lenght / 4 then loop f buffer lenght fuel (pos + 2) (step f buffer pos p)
    else some p

def encrypt (x : Xtea) (buffer : ℤ) (lenght fuel : ℕ) (m : Memory) : Option Pass :=
  loop x.encryptBlock buffer lenght fuel 0 ⟨m, []⟩

def decrypt (x : Xtea) (buffer : ℤ) (lenght fuel : ℕ) (m : Memory) : Option Pass :=
  loop x.decryptBlock buffer lenght fuel 0 ⟨m, []⟩

section Loop

variable {f : UInt32 × UInt32 → UInt32 × UInt32} {m : Memory} {buffer : ℤ} {lenght n : ℕ}

/-- The words visited by the first `n` iterations. -/
def visited (buffer : ℤ) (n : ℕ) : List ℤ :=
  (List.range n).flatMap fun j : ℕ =>
    [buffer + 8 * j, buffer + 8 * j + 4, buffer + 8 * j, buffer + 8 * j + 4]

/-- The pass after `n` iterations that did not wrap the index. -/
def after (f : UInt32 × UInt32 → UInt32 × UInt32) (m : Memory) (buffer : ℤ) (n : ℕ) : Pass :=
  ⟨mapBlocks f m buffer n, visited buffer n⟩

theorem visited_succ (buffer : ℤ) (n : ℕ) : visited buffer (n + 1) = visited buffer n ++
    [buffer + 8 * n, buffer + 8 * n + 4, buffer + 8 * n, buffer + 8 * n + 4] := by
  simp [visited, List.range_succ]

theorem visited_inside {a : ℤ} (h : a ∈ visited buffer n) :
    buffer ≤ a ∧ a + 4 ≤ buffer + 8 * n := by
  obtain ⟨j, hj, ha⟩ := List.mem_flatMap.mp h
  have hlt := List.mem_range.mp hj
  simp only [List.mem_cons, List.not_mem_nil, or_false] at ha
  omega

theorem index_toNat {j : ℕ} (h : j < 2 ^ 31) :
    (UInt32.ofNat (2 * j)).toNat = 2 * j ∧ (UInt32.ofNat (2 * j) + 1).toNat = 2 * j + 1 ∧
      UInt32.ofNat (2 * j) + 2 = UInt32.ofNat (2 * (j + 1)) := by
  refine ⟨?_, ?_, ?_⟩
  · simp only [UInt32.toNat_ofNat']
    omega
  · simp only [UInt32.toNat_add, UInt32.toNat_ofNat', UInt32.reduceToNat]
    omega
  · simp [Nat.mul_succ]

theorem step_after {j : ℕ} (h : j < 2 ^ 31) :
    step f buffer (UInt32.ofNat (2 * j)) (after f m buffer j) = after f m buffer (j + 1) := by
  obtain ⟨h₀, h₁, -⟩ := index_toNat h
  have ha₀ : buffer + 4 * ((2 * j : ℕ) : ℤ) = buffer + 8 * j := by omega
  have ha₁ : buffer + 4 * ((2 * j + 1 : ℕ) : ℤ) = buffer + 8 * j + 4 := by omega
  simp only [step, after, h₀, h₁, ha₀, ha₁, mapBlocks_succ, visited_succ, mapBlock]

/-- With a length the index can reach, the remaining iterations complete the pass. -/
theorem loop_completes {k j : ℕ} (hn : n < 2 ^ 31) (hk : j + k = n) :
    loop f buffer (8 * n) (k + 1) (UInt32.ofNat (2 * j)) (after f m buffer j) =
      some (after f m buffer n) := by
  induction k generalizing j with
  | zero =>
    obtain rfl : j = n := by omega
    have hstop : ¬ (UInt32.ofNat (2 * j)).toNat < 8 * j / 4 := by
      rw [(index_toNat hn).1]
      omega
    rw [loop, if_neg hstop]
  | succ k ih =>
    have hj : j < 2 ^ 31 := by omega
    have hgo : (UInt32.ofNat (2 * j)).toNat < 8 * n / 4 := by
      rw [(index_toNat hj).1]
      omega
    rw [loop, if_pos hgo, (index_toNat hj).2.2, step_after hj]
    exact ih (by omega)

theorem loop_mono {fuel : ℕ} {pos : UInt32} {p q : Pass} (k : ℕ)
    (h : loop f buffer lenght fuel pos p = some q) :
    loop f buffer lenght (fuel + k) pos p = some q := by
  induction fuel generalizing pos p with
  | zero => exact absurd h (by simp [loop])
  | succ fuel ih =>
    rw [Nat.add_right_comm, loop]
    rw [loop] at h
    by_cases hpos : pos.toNat < lenght / 4
    · rw [if_pos hpos] at h ⊢
      exact ih h
    · rwa [if_neg hpos] at h ⊢

/-- No 32-bit index reaches a bound of 2^32 words: it wraps to zero and starts over. -/
theorem loop_diverges (h : 2 ^ 32 ≤ lenght / 4) (fuel : ℕ) (pos : UInt32) (p : Pass) :
    loop f buffer lenght fuel pos p = none := by
  induction fuel generalizing pos p with
  | zero => rfl
  | succ fuel ih =>
    have hgo : pos.toNat < lenght / 4 := Nat.lt_of_lt_of_le pos.toNat_lt h
    rw [loop, if_pos hgo]
    exact ih _ _

def Returns (run : ℕ → Memory → Option Pass) (m : Memory) (p : Pass) : Prop :=
  ∃ fuel, run fuel m = some p

theorem returns_iff (hn : n < 2 ^ 31) {p : Pass} :
    Returns (fun fuel m => loop f buffer (8 * n) fuel 0 ⟨m, []⟩) m p ↔ p = after f m buffer n := by
  have hdone : loop f buffer (8 * n) (n + 1) 0 ⟨m, []⟩ = some (after f m buffer n) :=
    loop_completes (j := 0) hn (Nat.zero_add n)
  constructor
  · rintro ⟨fuel, h⟩
    have hp := loop_mono (n + 1) h
    rw [Nat.add_comm, loop_mono fuel hdone] at hp
    exact (Option.some.inj hp).symm
  · rintro rfl
    exact ⟨n + 1, hdone⟩

/-- Below the wrap, the loop is the blockwise transformation of the whole length. -/
theorem returns_memory (hn : n < 2 ^ 31) {p : Pass}
    (h : Returns (fun fuel m => loop f buffer (8 * n) fuel 0 ⟨m, []⟩) m p) :
    p.memory = mapBlocks f m buffer (blockCount (8 * n)) := by
  have hb : blockCount (8 * n) = n := by
    unfold blockCount
    omega
  rw [(returns_iff hn).mp h, hb, after]

end Loop

section Result

variable (x : Xtea) (m : Memory) (buffer : ℤ) (n : ℕ)

/-- What one direction leaves behind on `n` blocks. -/
structure Local (f : UInt32 × UInt32 → UInt32 × UInt32) (m : Memory) (buffer : ℤ) (n : ℕ)
    (p : Pass) : Prop where
  block : ∀ j : ℕ, j < n → blockAt p.memory (buffer + 8 * j) = f (blockAt m (buffer + 8 * j))
  inside : ∀ a ∈ p.touched, buffer ≤ a ∧ a + 4 ≤ buffer + 8 * n
  outside : ∀ i, i < buffer ∨ buffer + 8 * n ≤ i → p.memory i = m i

theorem after_local (f : UInt32 × UInt32 → UInt32 × UInt32) :
    Local f m buffer n (after f m buffer n) :=
  ⟨fun _ hj => blockAt_mapBlocks hj, fun _ ha => visited_inside ha,
    fun _ hi => mapBlocks_outside hi⟩

def EncryptThenDecrypt : Prop :=
  ∃ p q, Returns (encrypt x buffer (8 * n)) m p ∧ Local x.encryptBlock m buffer n p ∧
    Returns (decrypt x buffer (8 * n)) p.memory q ∧ Local x.decryptBlock p.memory buffer n q ∧
      q.memory = m

def DecryptThenEncrypt : Prop :=
  ∃ p q, Returns (decrypt x buffer (8 * n)) m p ∧ Local x.decryptBlock m buffer n p ∧
    Returns (encrypt x buffer (8 * n)) p.memory q ∧ Local x.encryptBlock p.memory buffer n q ∧
      q.memory = m

variable {x m buffer n}

theorem encrypt_returns (hn : n < 2 ^ 31) {p : Pass} (h : Returns (encrypt x buffer (8 * n)) m p) :
    p.memory = x.encrypt m buffer (8 * n) :=
  returns_memory hn h

theorem decrypt_returns (hn : n < 2 ^ 31) {p : Pass} (h : Returns (decrypt x buffer (8 * n)) m p) :
    p.memory = x.decrypt m buffer (8 * n) :=
  returns_memory hn h

theorem encrypt_then_decrypt (hn : n < 2 ^ 31) : EncryptThenDecrypt x m buffer n := by
  have hp : Returns (encrypt x buffer (8 * n)) m (after x.encryptBlock m buffer n) :=
    (returns_iff hn).mpr rfl
  generalize hp' : after x.encryptBlock m buffer n = p at hp
  have hq : Returns (decrypt x buffer (8 * n)) p.memory (after x.decryptBlock p.memory buffer n) :=
    (returns_iff hn).mpr rfl
  refine ⟨p, _, hp, hp' ▸ after_local m buffer n _, hq, after_local _ buffer n _, ?_⟩
  rw [decrypt_returns hn hq, encrypt_returns hn hp, decrypt_encrypt]

theorem decrypt_then_encrypt (hn : n < 2 ^ 31) : DecryptThenEncrypt x m buffer n := by
  have hp : Returns (decrypt x buffer (8 * n)) m (after x.decryptBlock m buffer n) :=
    (returns_iff hn).mpr rfl
  generalize hp' : after x.decryptBlock m buffer n = p at hp
  have hq : Returns (encrypt x buffer (8 * n)) p.memory (after x.encryptBlock p.memory buffer n) :=
    (returns_iff hn).mpr rfl
  refine ⟨p, _, hp, hp' ▸ after_local m buffer n _, hq, after_local _ buffer n _, ?_⟩
  rw [encrypt_returns hn hq, decrypt_returns hn hp, encrypt_decrypt]

theorem encrypt_diverges (hn : 2 ^ 31 ≤ n) (p : Pass) :
    ¬ Returns (encrypt x buffer (8 * n)) m p := by
  rintro ⟨fuel, h⟩
  rw [encrypt, loop_diverges (by omega)] at h
  cases h

/-- Both round trips restore the buffer, blockwise and within its bounds, exactly for the
lengths whose word count a `uint` can hold. -/
theorem inverse_and_local_iff (x : Xtea) (m : Memory) (buffer : ℤ) (n : ℕ) :
    EncryptThenDecrypt x m buffer n ∧ DecryptThenEncrypt x m buffer n ↔ 8 * n < 2 ^ 34 := by
  constructor
  · rintro ⟨⟨p, -, hp, -⟩, -⟩
    by_contra hlong
    exact encrypt_diverges (by omega) p hp
  · intro hlen
    exact ⟨encrypt_then_decrypt (by omega), decrypt_then_encrypt (by omega)⟩

theorem sixteen_gibibytes_never_return :
    ¬ EncryptThenDecrypt ⟨fun _ => 0⟩ (fun _ => 0) 0 (2 ^ 31) := by
  rintro ⟨p, -, hp, -⟩
  exact encrypt_diverges (Nat.le_refl _) p hp

end Result

end BlockCipher

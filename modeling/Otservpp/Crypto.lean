import Otservpp.ByteMemory
import Mathlib.Logic.Function.Iterate

/-! # Checksum and block cipher of the message layer

`adler32` and `Xtea` work on raw memory, as the pointers of the source do. The accumulators
of the checksum are the narrowest `uint_fast32_t`; the word arithmetic wraps at 32 bits. -/
namespace Crypto

open ByteMemory

/-- Conversion of an unsigned length to `int32_t`. -/
def toInt32 (n : ℕ) : ℤ :=
  if n % 2 ^ 32 < 2 ^ 31 then ((n % 2 ^ 32 : ℕ) : ℤ) else ((n % 2 ^ 32 : ℕ) : ℤ) - 2 ^ 32

theorem toInt32_of_lt {n : ℕ} (h : n < 2 ^ 31) : toInt32 n = n := by
  unfold toInt32
  omega

structure Adler where
  a : UInt32
  b : UInt32
  deriving DecidableEq, Repr

def Adler.byte (s : Adler) (d : UInt8) : Adler :=
  let a := s.a + d.toUInt32
  ⟨a, s.b + a⟩

def Adler.reduce (s : Adler) : Adler := ⟨s.a % 65521, s.b % 65521⟩

/-- `n` repetitions of `a += *data++; b += a`. -/
def adlerSteps (m : Memory) (data : ℤ) (n : ℕ) (s : Adler) : Adler :=
  (slice m data n).foldl Adler.byte s

/-- One chunk of `k` bytes: groups of sixteen, the remaining bytes, then the reduction. -/
def adlerChunk (m : Memory) (data : ℤ) (k : ℕ) (s : Adler) : Adler :=
  let groups := (List.range (k / 16)).foldl (fun s (g : ℕ) => adlerSteps m (data + 16 * g) 16 s) s
  (adlerSteps m (data + 16 * (k / 16 : ℕ)) (k % 16) groups).reduce

def adlerLoop (m : Memory) : ℕ → ℤ → ℤ → Adler → Adler
  | 0, _, _, s => s
  | fuel + 1, data, len, s =>
    if 0 < len then
      let k := if 5552 < len then 5552 else len.toNat
      adlerLoop m fuel (data + k) (len - k) (adlerChunk m data k s)
    else s

/-- Every iteration of the outer loop removes at least one byte, so `len` iterations suffice.
A negative `len` reads nothing. -/
def adler32 (m : Memory) (data len : ℤ) : UInt32 :=
  let s := adlerLoop m len.toNat data len ⟨1, 0⟩
  (s.b <<< 16) ||| s.a

theorem adlerSteps_add (m : Memory) (data : ℤ) (n k : ℕ) (s : Adler) :
    adlerSteps m data (n + k) s = adlerSteps m (data + n) k (adlerSteps m data n s) := by
  simp [adlerSteps, slice_add]

theorem adlerGroups_eq (m : Memory) (data : ℤ) (n : ℕ) (s : Adler) :
    (List.range n).foldl (fun s (g : ℕ) => adlerSteps m (data + 16 * g) 16 s) s =
      adlerSteps m data (16 * n) s := by
  induction n with
  | zero => rfl
  | succ n ih =>
    rw [List.range_succ, List.foldl_append, ih, Nat.mul_succ, adlerSteps_add]
    simp

/-- The unrolling is only a grouping: a chunk folds its bytes in order and reduces once. -/
theorem adlerChunk_eq (m : Memory) (data : ℤ) (k : ℕ) (s : Adler) :
    adlerChunk m data k s = (adlerSteps m data k s).reduce := by
  have hk : k = 16 * (k / 16) + k % 16 := by omega
  conv_rhs => rw [hk, adlerSteps_add]
  rw [adlerChunk, adlerGroups_eq]
  simp

theorem adlerLoop_congr {m m' : Memory} (fuel : ℕ) {data data' len : ℤ}
    (h : slice m data len.toNat = slice m' data' len.toNat) (s : Adler) :
    adlerLoop m fuel data len s = adlerLoop m' fuel data' len s := by
  induction fuel generalizing data data' len s with
  | zero => rfl
  | succ fuel ih =>
    by_cases hl : 0 < len
    · simp only [adlerLoop, hl, if_true]
      generalize hk : (if 5552 < len then 5552 else len.toNat) = k
      have hle : k ≤ len.toNat := by split at hk <;> omega
      have hsplit : len.toNat = k + (len - k).toNat := by omega
      rw [hsplit, slice_add, slice_add] at h
      obtain ⟨hfirst, hrest⟩ := List.append_inj h (by simp)
      rw [adlerChunk_eq, adlerChunk_eq, adlerSteps, adlerSteps, hfirst]
      exact ih hrest _
    · simp only [adlerLoop, hl, if_false]

/-- The checksum is a function of the bytes it covers, wherever they are stored. -/
theorem adler32_congr {m m' : Memory} {data data' len : ℤ}
    (h : slice m data len.toNat = slice m' data' len.toNat) :
    adler32 m data len = adler32 m' data' len := by
  rw [adler32, adler32, adlerLoop_congr _ h]

structure Xtea where
  key : Fin 4 → UInt32

def delta : UInt32 := 0x9E3779B9

/-- `(v << 4 ^ v >> 5) + v` -/
def mix (v : UInt32) : UInt32 := ((v <<< 4) ^^^ (v >>> 5)) + v

/-- `k[i & 3]` -/
def Xtea.word (x : Xtea) (i : UInt32) : UInt32 := x.key (Fin.ofNat 4 (i &&& 3).toNat)

structure Round where
  v0 : UInt32
  v1 : UInt32
  sum : UInt32
  deriving DecidableEq, Repr

def Xtea.encryptRound (x : Xtea) (r : Round) : Round :=
  let v0 := r.v0 + (mix r.v1 ^^^ (r.sum + x.word r.sum))
  let sum := r.sum + delta
  let v1 := r.v1 + (mix v0 ^^^ (sum + x.word (sum >>> 11)))
  ⟨v0, v1, sum⟩

def Xtea.decryptRound (x : Xtea) (r : Round) : Round :=
  let v1 := r.v1 - (mix r.v0 ^^^ (r.sum + x.word (r.sum >>> 11)))
  let sum := r.sum - delta
  let v0 := r.v0 - (mix v1 ^^^ (sum + x.word sum))
  ⟨v0, v1, sum⟩

def Xtea.encryptBlock (x : Xtea) (v : UInt32 × UInt32) : UInt32 × UInt32 :=
  let r := x.encryptRound^[32] ⟨v.1, v.2, 0⟩
  (r.v0, r.v1)

def Xtea.decryptBlock (x : Xtea) (v : UInt32 × UInt32) : UInt32 × UInt32 :=
  let r := x.decryptRound^[32] ⟨v.1, v.2, delta <<< 5⟩
  (r.v0, r.v1)

/-- The word index of the source runs over 0, 2, 4, ... below `lenght / 4`. -/
def blockCount (lenght : ℕ) : ℕ := (lenght / 4 + 1) / 2

def Xtea.encrypt (x : Xtea) (m : Memory) (buffer : ℤ) (lenght : ℕ) : Memory :=
  mapBlocks x.encryptBlock m buffer (blockCount lenght)

def Xtea.decrypt (x : Xtea) (m : Memory) (buffer : ℤ) (lenght : ℕ) : Memory :=
  mapBlocks x.decryptBlock m buffer (blockCount lenght)

theorem decryptRound_encryptRound (x : Xtea) :
    Function.LeftInverse x.decryptRound x.encryptRound := by
  intro r
  simp [Xtea.encryptRound, Xtea.decryptRound]

theorem encryptRound_decryptRound (x : Xtea) :
    Function.LeftInverse x.encryptRound x.decryptRound := by
  intro r
  simp [Xtea.encryptRound, Xtea.decryptRound]

theorem encryptRounds_sum (x : Xtea) (n : ℕ) (r : Round) :
    (x.encryptRound^[n] r).sum = r.sum + UInt32.ofNat n * delta := by
  induction n with
  | zero => simp
  | succ n ih =>
    have hn : UInt32.ofNat (n + 1) = UInt32.ofNat n + 1 := by simp
    rw [Function.iterate_succ_apply', Xtea.encryptRound, ih, hn]
    grind

theorem decryptRounds_sum (x : Xtea) (n : ℕ) (r : Round) :
    (x.decryptRound^[n] r).sum = r.sum - UInt32.ofNat n * delta := by
  induction n with
  | zero => simp
  | succ n ih =>
    have hn : UInt32.ofNat (n + 1) = UInt32.ofNat n + 1 := by simp
    rw [Function.iterate_succ_apply', Xtea.decryptRound, ih, hn]
    grind

theorem delta_schedule : UInt32.ofNat 32 * delta = delta <<< 5 := by decide

/-- Decryption starts from the sum that encryption ends with, so the rounds cancel pairwise. -/
theorem decryptBlock_encryptBlock (x : Xtea) :
    Function.LeftInverse x.decryptBlock x.encryptBlock := by
  intro v
  have hsum := encryptRounds_sum x 32 ⟨v.1, v.2, 0⟩
  rw [delta_schedule] at hsum
  simp only [UInt32.zero_add] at hsum
  have hround := (decryptRound_encryptRound x).iterate 32 ⟨v.1, v.2, 0⟩
  simp only [Xtea.decryptBlock, Xtea.encryptBlock]
  rw [← hsum]
  change ((x.decryptRound^[32] (x.encryptRound^[32] ⟨v.1, v.2, 0⟩)).v0, _) = v
  rw [hround]

theorem encryptBlock_decryptBlock (x : Xtea) :
    Function.LeftInverse x.encryptBlock x.decryptBlock := by
  intro v
  have hsum := decryptRounds_sum x 32 ⟨v.1, v.2, delta <<< 5⟩
  rw [delta_schedule] at hsum
  simp only [UInt32.sub_self] at hsum
  have hround := (encryptRound_decryptRound x).iterate 32 ⟨v.1, v.2, delta <<< 5⟩
  simp only [Xtea.decryptBlock, Xtea.encryptBlock]
  rw [← hsum]
  change ((x.encryptRound^[32] (x.decryptRound^[32] ⟨v.1, v.2, delta <<< 5⟩)).v0, _) = v
  rw [hround]

theorem decrypt_encrypt (x : Xtea) (m : Memory) (buffer : ℤ) (lenght : ℕ) :
    x.decrypt (x.encrypt m buffer lenght) buffer lenght = m :=
  mapBlocks_inverse (decryptBlock_encryptBlock x) m buffer (blockCount lenght)

theorem encrypt_decrypt (x : Xtea) (m : Memory) (buffer : ℤ) (lenght : ℕ) :
    x.encrypt (x.decrypt m buffer lenght) buffer lenght = m :=
  mapBlocks_inverse (encryptBlock_decryptBlock x) m buffer (blockCount lenght)

theorem blockCount_mul {lenght : ℕ} (h : lenght % 8 = 0) : 8 * blockCount lenght = lenght := by
  unfold blockCount
  omega

end Crypto

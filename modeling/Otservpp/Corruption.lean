import Mathlib.Tactic.NormNum.Prime
import Otservpp.FrameReads
import Otservpp.RollingSum

/-! # Corrupted frames

`adler32` computes the rolling sums of the bytes it covers modulo 65521, in spite of its deferred
reductions. So `doChecksum` notices a changed byte or two exchanged ones. -/
namespace Corruption

open ByteMemory Crypto InMessage ProgramLogic FrameReads RollingSum

def modulus : ℕ := 65521

theorem modulus_prime : modulus.Prime := by
  unfold modulus
  norm_num

def numbers (bs : List UInt8) : List ℕ := bs.map UInt8.toNat

def sumsOf (s : Adler) : Sums := ⟨s.a.toNat, s.b.toNat⟩

/-- The state of the checksum between two chunks: both accumulators reduced. -/
structure Reduces (s : Adler) (t : Sums) : Prop where
  a : s.a.toNat = t.a % modulus
  b : s.b.toNat = t.b % modulus

section Exact

variable {s : Adler} {t : Sums} {bs : List UInt8}

theorem numbers_le (bs : List UInt8) : ∀ d ∈ numbers bs, d ≤ 255 := by
  intro d hd
  obtain ⟨b, -, rfl⟩ := List.mem_map.mp hd
  exact Nat.le_of_lt_succ b.toNat_lt

/-- As long as the exact sums fit into 32 bits, the words hold them. -/
theorem steps_exact (h : (sumsOf s).run (numbers bs) = t) (ha : t.a < 2 ^ 32) (hb : t.b < 2 ^ 32) :
    sumsOf (bs.foldl Adler.byte s) = t := by
  induction bs generalizing s with
  | nil => exact h
  | cons b bs ih =>
    have hrun : (sumsOf s).run (numbers (b :: bs)) = ((sumsOf s).add b.toNat).run (numbers bs) := rfl
    have hlea : (sumsOf s).a + b.toNat ≤ t.a := by
      rw [← h, hrun, run_a]
      exact Nat.le_add_right _ _
    have hleb : (sumsOf s).b + ((sumsOf s).a + b.toNat) ≤ t.b := by
      rw [← h, hrun, run_b, Nat.add_assoc]
      exact Nat.le_add_right _ _
    have hstep : sumsOf (s.byte b) = (sumsOf s).add b.toNat := by
      simp only [sumsOf, Adler.byte, Sums.add, UInt32.toNat_add, UInt8.toNat_toUInt32,
        Sums.mk.injEq] at hlea hleb ⊢
      omega
    exact ih (by rw [hstep, ← hrun, h])

/-- 5552 is the largest number of bytes after which the sums still fit. -/
theorem chunk_bounds (h : Reduces s t) (hlength : bs.length ≤ 5552) :
    ((sumsOf s).run (numbers bs)).a < 2 ^ 32 ∧ ((sumsOf s).run (numbers bs)).b < 2 ^ 32 := by
  have ha : (sumsOf s).a < 65521 := by
    rw [sumsOf, h.a]
    exact Nat.mod_lt _ (by decide)
  have hb : (sumsOf s).b < 65521 := by
    rw [sumsOf, h.b]
    exact Nat.mod_lt _ (by decide)
  have hsum := sum_le (numbers_le bs)
  have hweighted := weighted_le (numbers_le bs)
  have hnumbers : (numbers bs).length = bs.length := List.length_map _
  rw [hnumbers] at hsum hweighted
  rw [run_a, run_b, hnumbers]
  have hmul := Nat.mul_le_mul hlength (Nat.le_of_lt_succ ha)
  have hsquare := Nat.mul_le_mul hlength (Nat.add_le_add_right hlength 1)
  omega

theorem chunk_reduces (h : Reduces s t) (hlength : bs.length ≤ 5552) :
    Reduces (bs.foldl Adler.byte s).reduce (t.run (numbers bs)) := by
  obtain ⟨ha, hb⟩ := chunk_bounds h hlength
  have hexact := steps_exact rfl ha hb
  have hcongra : (sumsOf s).a ≡ t.a [MOD modulus] := by
    rw [sumsOf, h.a]
    exact Nat.mod_modEq _ _
  have hcongrb : (sumsOf s).b ≡ t.b [MOD modulus] := by
    rw [sumsOf, h.b]
    exact Nat.mod_modEq _ _
  have hsame : ((sumsOf s).run (numbers bs)).a ≡ (t.run (numbers bs)).a [MOD modulus] ∧
      ((sumsOf s).run (numbers bs)).b ≡ (t.run (numbers bs)).b [MOD modulus] :=
    run_congr hcongra hcongrb
  rw [← hexact] at hsame
  exact ⟨hsame.1, hsame.2⟩

theorem loop_reduces (m : Memory) (fuel : ℕ) {data len : ℤ} (hfuel : len.toNat ≤ fuel)
    (h : Reduces s t) :
    Reduces (adlerLoop m fuel data len s) (t.run (numbers (slice m data len.toNat))) := by
  induction fuel generalizing data len s t with
  | zero =>
    have hzero : len.toNat = 0 := by omega
    rw [hzero, slice_zero]
    exact h
  | succ fuel ih =>
    by_cases hl : 0 < len
    · simp only [adlerLoop, hl, if_true]
      generalize hk : (if 5552 < len then 5552 else len.toNat) = k
      have hle : k ≤ len.toNat := by split at hk <;> omega
      have hpos : 0 < k := by split at hk <;> omega
      have hsmall : k ≤ 5552 := by split at hk <;> omega
      have hsplit : len.toNat = k + (len - k).toNat := by omega
      have hchunk : Reduces ((slice m data k).foldl Adler.byte s).reduce
          (t.run (numbers (slice m data k))) :=
        chunk_reduces h (by rw [length_slice]; exact hsmall)
      rw [adlerChunk_eq, hsplit, slice_add, numbers, List.map_append, run_append]
      exact ih (by omega) hchunk
    · have hzero : len.toNat = 0 := by omega
      simp only [adlerLoop, hl, if_false]
      rw [hzero, slice_zero]
      exact h

/-- The checksum of a list of bytes. -/
def checksum (bs : List UInt8) : ℕ :=
  ((⟨1, 0⟩ : Sums).run (numbers bs)).b % modulus * 2 ^ 16 +
    ((⟨1, 0⟩ : Sums).run (numbers bs)).a % modulus

theorem adler32_exact (m : Memory) (data : ℤ) (n : ℕ) :
    (adler32 m data n).toNat = checksum (slice m data n) := by
  have hloop : Reduces (adlerLoop m (n : ℤ).toNat data n ⟨1, 0⟩)
      ((⟨1, 0⟩ : Sums).run (numbers (slice m data (n : ℤ).toNat))) :=
    loop_reduces m (n : ℤ).toNat (le_refl _) ⟨rfl, rfl⟩
  rw [Int.toNat_natCast] at hloop
  have ha := Nat.mod_lt ((⟨1, 0⟩ : Sums).run (numbers (slice m data n))).a modulus_prime.pos
  have hb := Nat.mod_lt ((⟨1, 0⟩ : Sums).run (numbers (slice m data n))).b modulus_prime.pos
  rw [adler32, checksum, Int.toNat_natCast, ← hloop.a, ← hloop.b]
  rw [← hloop.a] at ha
  rw [← hloop.b] at hb
  unfold modulus at ha hb
  generalize adlerLoop m n data n ⟨1, 0⟩ = s at ha hb ⊢
  have hshift : s.b.toNat <<< 16 < 2 ^ 32 := by
    rw [Nat.shiftLeft_eq]
    omega
  rw [UInt32.toNat_or, UInt32.toNat_shiftLeft, show (16 : UInt32).toNat % 32 = 16 from rfl,
    Nat.mod_eq_of_lt hshift, ← Nat.shiftLeft_add_eq_or_of_lt (by omega), Nat.shiftLeft_eq]

end Exact

section Detected

variable {bs : List UInt8} {i j : ℕ} {x y v : UInt8}

theorem checksum_eq {cs : List UInt8} (h : checksum bs = checksum cs) :
    ((⟨1, 0⟩ : Sums).run (numbers bs)).a ≡ ((⟨1, 0⟩ : Sums).run (numbers cs)).a [MOD modulus] ∧
      ((⟨1, 0⟩ : Sums).run (numbers bs)).b ≡ ((⟨1, 0⟩ : Sums).run (numbers cs)).b [MOD modulus] := by
  have hbs := Nat.mod_lt ((⟨1, 0⟩ : Sums).run (numbers bs)).a modulus_prime.pos
  have hcs := Nat.mod_lt ((⟨1, 0⟩ : Sums).run (numbers cs)).a modulus_prime.pos
  unfold checksum modulus at *
  unfold Nat.ModEq
  omega

theorem getElem?_numbers (h : bs[i]? = some x) : (numbers bs)[i]? = some x.toNat := by
  rw [numbers, List.getElem?_map, h, Option.map_some]

theorem byte_lt_modulus (b : UInt8) : b.toNat < modulus := by
  have hlt := b.toNat_lt
  unfold modulus
  omega

theorem checksum_set (h : bs[i]? = some x) (hne : v ≠ x) : checksum (bs.set i v) ≠ checksum bs := by
  intro heq
  have hmod := (checksum_eq heq).1
  rw [numbers, List.map_set] at hmod
  exact set_detected (getElem?_numbers h) (byte_lt_modulus x) (byte_lt_modulus v)
    (fun hsame => hne (UInt8.toNat_inj.mp hsame)) hmod

theorem checksum_swap (hi : bs[i]? = some x) (hj : bs[j]? = some y) (hne : x ≠ y)
    (hlength : bs.length < modulus) : checksum ((bs.set i y).set j x) ≠ checksum bs := by
  intro heq
  have hmod := (checksum_eq heq).2
  rw [numbers, List.map_set, List.map_set] at hmod
  exact swap_detected modulus_prime (getElem?_numbers hi) (getElem?_numbers hj) (byte_lt_modulus x)
    (byte_lt_modulus y) (fun hsame => hne (UInt8.toNat_inj.mp hsame))
    (by rw [numbers, List.length_map]; exact hlength) hmod

/-- What `doChecksum` compares in a body: its first four bytes and the checksum of the rest. -/
def ChecksumMatches (body : List UInt8) : Prop := decodeLE (body.take 4) = checksum (body.drop 4)

instance (body : List UInt8) : Decidable (ChecksumMatches body) :=
  inferInstanceAs (Decidable (_ = _))

/-- One byte changed, in the checksum field or behind it, or two bytes behind it exchanged. -/
inductive Corrupted (body : List UInt8) : List UInt8 → Prop where
  | changed {i : ℕ} {x v : UInt8} : body[i]? = some x → v ≠ x → Corrupted body (body.set i v)
  | exchanged {i j : ℕ} {x y : UInt8} : 4 ≤ i → 4 ≤ j → body[i]? = some x → body[j]? = some y →
      x ≠ y → Corrupted body ((body.set i y).set j x)

variable {body body' : List UInt8}

theorem Corrupted.length (h : Corrupted body body') : body'.length = body.length := by
  cases h with
  | changed | exchanged => simp

theorem decodeLE_inj {cs : List UInt8} (hlength : bs.length = cs.length)
    (h : decodeLE bs = decodeLE cs) : bs = cs := by
  rw [← encode_decodeLE bs, ← encode_decodeLE cs, hlength, h]

/-- A byte behind the checksum field among those that are checksummed. -/
theorem getElem?_covered {i : ℕ} {x : UInt8} (hi4 : 4 ≤ i) (hi : body[i]? = some x) :
    (body.drop 4)[i - 4]? = some x := by
  rw [List.getElem?_drop, Nat.add_sub_of_le hi4, hi]

theorem corrupted_mismatch (hlength : body.length ≤ standardMaxBodySize)
    (hmatch : ChecksumMatches body) (h : Corrupted body body') : ¬ ChecksumMatches body' := by
  unfold ChecksumMatches at hmatch ⊢
  cases h with
  | @changed i x v hi hne =>
    by_cases hfield : i < 4
    · have hrest : (body.set i v).drop 4 = body.drop 4 := List.drop_set_of_lt hfield
      rw [hrest, ← hmatch]
      intro heq
      have hsame := decodeLE_inj (by simp) heq
      have hget := congrArg (fun l => l[i]?) hsame
      obtain ⟨hlt, -⟩ := List.getElem?_eq_some_iff.mp hi
      simp only [List.getElem?_take_of_lt hfield, List.getElem?_set_self hlt, hi] at hget
      exact hne (Option.some.inj hget)
    · have hrest : (body.set i v).drop 4 = (body.drop 4).set (i - 4) v := by
        rw [List.drop_set, if_neg hfield]
      have hhead : (body.set i v).take 4 = body.take 4 := List.take_set_of_le (by omega)
      rw [hrest, hhead, hmatch]
      exact (checksum_set (getElem?_covered (Nat.le_of_not_lt hfield) hi) hne).symm
  | @exchanged i j x y hi4 hj4 hi hj hne =>
    have hrest : ((body.set i y).set j x).drop 4 =
        ((body.drop 4).set (i - 4) y).set (j - 4) x := by
      rw [List.drop_set, if_neg (by omega), List.drop_set, if_neg (by omega)]
    have hhead : ((body.set i y).set j x).take 4 = body.take 4 := by
      rw [List.take_set_of_le (by omega), List.take_set_of_le (by omega)]
    rw [hrest, hhead, hmatch]
    have hshort : (body.drop 4).length < modulus := by
      rw [List.length_drop]
      unfold standardMaxBodySize at hlength
      unfold modulus
      omega
    exact (checksum_swap (getElem?_covered hi4 hi) (getElem?_covered hj4 hj) hne hshort).symm

end Detected

section Frames

variable {ndebug : Bool} {uninitialised : Memory} {header body : List UInt8} {m : Message}

/-- A received frame as `doChecksum` finds it. -/
structure Received (body : List UInt8) (m : Message) : Prop where
  minimum : 8 ≤ body.length
  maximum : body.length ≤ standardMaxBodySize
  cursor : m.pos = 2
  size : m.size = 2 + body.length
  content : slice m.buffer 2 body.length = body

theorem received_of_receive (h : receive ndebug uninitialised header body = some m) :
    Received body m := by
  obtain ⟨hsize, -, -, rfl⟩ := receive_some_iff.mp h
  exact ⟨hsize.1, hsize.2, rfl, rfl, slice_write_same _ _ _⟩

/-- Whether a frame is received depends on its header and the length of its body. -/
theorem receive_same_length {body' : List UInt8} (uninitialised' : Memory)
    (hheader : header.length = 2) (h : receive ndebug uninitialised header body = some m)
    (hlength : body'.length = body.length) :
    ∃ m', receive ndebug uninitialised' header body' = some m' := by
  obtain ⟨hsize, hassert, hfield, -⟩ := receive_some_iff.mp h
  rw [sizeField_header uninitialised hheader] at hfield
  refine ⟨_, receive_some_iff.mpr ⟨?_, ?_, ?_, rfl⟩⟩
  · rwa [hlength]
  · rwa [hlength]
  · rw [sizeField_header uninitialised' hheader, hfield, hlength]

theorem doChecksum_received (ndebug : Bool) (h : Received body m) :
    doChecksum ndebug m = if ChecksumMatches body then .ok () (m.moved 4)
      else .error .packetException (m.moved 4) := by
  obtain ⟨hmin, hmax, hpos, hsize, hcontent⟩ := h
  unfold standardMaxBodySize at hmax
  have hmoved : (m.moved 4).pos = 6 := by
    rw [moved_pos, hpos]
    rfl
  have hsplit : body = slice m.buffer 2 4 ++ slice m.buffer 6 (body.length - 4) := by
    conv_lhs => rw [← hcontent, show body.length = 4 + (body.length - 4) by omega, slice_add]
    rfl
  have hfield : body.take 4 = slice m.buffer 2 4 := by
    conv_lhs => rw [hsplit]
    exact List.take_left' (length_slice _ _ _)
  have hrest : body.drop 4 = slice m.buffer 6 (body.length - 4) := by
    conv_lhs => rw [hsplit]
    exact List.drop_left' (length_slice _ _ _)
  have hgiven : getNumber 4 m = .ok (decodeLE (body.take 4)) (m.moved 4) := by
    rw [getNumber_ok (by omega) (by omega) (by rw [u32_of_lt (by omega)]; omega), hpos, hfield]
    rfl
  have hremaining : getRemainingSize ndebug (m.moved 4) = .ok (body.length - 4) (m.moved 4) := by
    rw [getRemainingSize_ok ndebug (by rw [hmoved, moved_size]; omega) (by rw [moved_size]; omega),
      hmoved, moved_size]
    congr 1
    omega
  have hpeek : peekRawChunckAs (body.length - 4) (m.moved 4) = .ok 6 (m.moved 4) := by
    rw [peekRawChunckAs_ok (by rw [hmoved, moved_size, u32_of_lt (by omega)]; omega), hmoved]
    rfl
  have hassert : InMessage.assert ndebug (body.length - 4 ≠ 0) (m.moved 4) = .ok () (m.moved 4) := by
    have hlong : decide (body.length - 4 ≠ 0) = true := by
      rw [decide_eq_true_eq]
      omega
    rw [InMessage.assert, check_run, hlong, Bool.or_true]
    rfl
  rw [doChecksum, getU32, bind_ok hgiven, bind_ok hremaining, bind_ok hpeek, bind_ok hassert,
    bind_ok (get_run _), moved_buffer, toInt32_of_lt (by omega), adler32_exact, ← hrest]
  by_cases hmatch : ChecksumMatches body
  · have hequal : decodeLE (body.take 4) = checksum (body.drop 4) := hmatch
    rw [if_neg (not_not.mpr hequal), if_pos hmatch]
    rfl
  · have hdiffers : decodeLE (body.take 4) ≠ checksum (body.drop 4) := hmatch
    rw [if_pos hdiffers, if_neg hmatch]
    rfl

/-- For every received frame whose checksum is right: with one byte after the header changed or two
checksummed bytes exchanged it is still received, and `doChecksum` throws. -/
theorem corruption_detected {m' : Message} {body' : List UInt8} (hheader : header.length = 2)
    (h : receive ndebug uninitialised header body = some m)
    (hok : doChecksum ndebug m = .ok () m') (hcorrupted : Corrupted body body')
    (uninitialised' : Memory) :
    ∃ c c', receive ndebug uninitialised' header body' = some c ∧
      doChecksum ndebug c = .error .packetException c' := by
  have hreceived := received_of_receive h
  have hmatch : ChecksumMatches body := by
    rw [doChecksum_received ndebug hreceived] at hok
    split_ifs at hok with hmatch
    exact hmatch
  have hmismatch := corrupted_mismatch hreceived.maximum hmatch hcorrupted
  obtain ⟨c, hc⟩ := receive_same_length uninitialised' hheader h hcorrupted.length
  refine ⟨c, c.moved 4, hc, ?_⟩
  rw [doChecksum_received ndebug (received_of_receive hc), if_neg hmismatch]

/-- Four bytes 1 2 3 4 with their checksum 24, 11. -/
def checksummedBody : List UInt8 := [11, 0, 24, 0, 1, 2, 3, 4]

theorem corruption_detected_exchange :
    ∃ c c', receive true (fun _ => 1) [8, 0] [11, 0, 24, 0, 4, 2, 3, 1] = some c ∧
      doChecksum true c = .error .packetException c' := by
  have hreceived := receive_eq true (fun _ => 0) checksummedBody (by decide) (by decide) (Or.inl rfl)
  have hok := doChecksum_received true (received_of_receive hreceived)
  rw [if_pos (by decide)] at hok
  exact corruption_detected rfl hreceived hok
    (.exchanged (i := 4) (j := 7) (by decide) (by decide) rfl rfl (by decide)) (fun _ => 1)

end Frames

end Corruption

import Otservpp.Corruption

/-! # Assertions within a peer's reach

A frame passes `parseHeaderAndGetBodyBuffer`, `doChecksum` and `xteaDecrypt` before anything else
reads it. Whether an assertion on the way is false is judged in a build that has them. -/
namespace PeerAssertions

open ByteMemory Corruption Crypto FrameReads InMessage ProgramLogic

/-- A frame of a peer: its header, then as many bytes of `content` as the header asks for. -/
def serve (ndebug : Bool) (xtea : Xtea) (header : List UInt8) (content : Memory) : InM Unit := do
  modify (fill (getHeaderBuffer standardHeaderSize) header)
  let buffer ← parseHeaderAndGetBodyBuffer ndebug
  modify (fill buffer (slice content 0 buffer.size))
  doChecksum ndebug
  xteaDecrypt ndebug xtea

def Orderly (r : EStateM.Result Fault Message Unit) : Prop :=
  (∃ m, r = .ok () m) ∨ ∃ m, r = .error .packetException m

/-- A body size that passes the check on the header and not the assertion in `setRemainingSize`,
which counts the header as well. -/
def TripsHeader (bodySize : ℕ) : Prop :=
  bodySize ≤ standardMaxBodySize ∧ standardMaxBodySize < standardHeaderSize + bodySize

/-- The length field of the plaintext: the first two bytes after the checksum, decrypted. -/
def plainLength (xtea : Xtea) (content : Memory) : ℕ :=
  (xtea.decryptBlock (blockAt content 4)).1.toNat % 2 ^ 16

/-- A frame that is decrypted, to a length that the assertion in `setRemainingSize` refuses. -/
structure TripsPlaintext (xtea : Xtea) (bodySize : ℕ) (content : Memory) : Prop where
  minimum : 8 ≤ bodySize
  maximum : standardHeaderSize + bodySize ≤ standardMaxBodySize
  checksum : ChecksumMatches (slice content 0 bodySize)
  blocks : (bodySize - 4) % 8 = 0
  overlong : standardMaxBodySize < 8 + plainLength xtea content

variable {xtea : Xtea} {uninitialised content : Memory} {header : List UInt8}

def complete (uninitialised : Memory) (header : List UInt8) (content : Memory) : Message :=
  let n := decodeLE header
  ⟨write (write uninitialised 0 header) 2 (slice content 0 n), 2, 2 + n⟩

theorem complete_received (hmin : 8 ≤ decodeLE header)
    (hmax : decodeLE header ≤ standardMaxBodySize) :
    Received (slice content 0 (decodeLE header)) (complete uninitialised header content) := by
  refine ⟨?_, ?_, rfl, ?_, ?_⟩
  · rwa [length_slice]
  · rwa [length_slice]
  · rw [length_slice]
    rfl
  · exact slice_write_same _ _ _

theorem serve_run (hheader : header.length = 2) :
    serve false xtea header content (standardInMessage uninitialised) =
      if decodeLE header < 8 ∨ standardMaxBodySize < decodeLE header then
        .error .packetException ⟨write uninitialised 0 header, 2, 2⟩
      else if 2 + decodeLE header ≤ standardMaxBodySize then
        (doChecksum false >>= fun _ => xteaDecrypt false xtea)
          (complete uninitialised header content)
      else .error .assertion ⟨write uninitialised 0 header, 2, 2⟩ := by
  have hparse := parseHeader_at_start false (m := fill (getHeaderBuffer standardHeaderSize) header
    (standardInMessage uninitialised)) rfl (le_refl 2)
  simp only [sizeField_header uninitialised hheader, Bool.false_eq_true, false_or] at hparse
  rw [serve, bind_ok (modify_run _ _)]
  by_cases hsize : decodeLE header < 8 ∨ standardMaxBodySize < decodeLE header
  · rw [if_pos hsize] at hparse ⊢
    exact bind_error hparse _
  rw [if_neg hsize] at hparse ⊢
  by_cases hassert : 2 + decodeLE header ≤ standardMaxBodySize
  · rw [if_pos hassert] at hparse ⊢
    rw [bind_ok hparse, bind_ok (modify_run _ _)]
    rfl
  · rw [if_neg hassert] at hparse ⊢
    exact bind_error hparse _

theorem innerLength_complete (xtea : Xtea) (hmin : 12 ≤ decodeLE header)
    (hblocks : (decodeLE header - 4) % 8 = 0) :
    innerLength xtea ((complete uninitialised header content).moved 4) =
      plainLength xtea content := by
  let m := (complete uninitialised header content).moved 4
  have hpos : m.pos = 6 := rfl
  have hsize : m.size - m.pos = decodeLE header - 4 := by
    change 2 + decodeLE header - 6 = _
    omega
  have hbody : slice m.buffer 2 (decodeLE header) = slice content 0 (decodeLE header) :=
    slice_write_of_length (write uninitialised 0 header) 2 (length_slice content 0 _)
  have hblock : blockAt m.buffer 6 = blockAt content 4 := by
    refine blockAt_eq_iff.mpr (slice_eq_iff.mpr fun i hi => ?_)
    have hcell := slice_eq_iff.mp hbody (4 + i) (by omega)
    rwa [show (2 : ℤ) + (4 + i : ℕ) = 6 + i by omega, show (0 : ℤ) + (4 + i : ℕ) = 4 + i by omega]
      at hcell
  have hdecrypted :
      blockAt (decrypted xtea m).buffer 6 = xtea.decryptBlock (blockAt m.buffer 6) := by
    have hcount : 0 < blockCount (decodeLE header - 4) := by
      unfold blockCount
      omega
    have hfirst := blockAt_mapBlocks (f := xtea.decryptBlock) (m := m.buffer) (a := 6) hcount
    change blockAt (xtea.decrypt m.buffer m.pos (m.size - m.pos)) 6 = _
    rw [hsize]
    exact hfirst
  change decodeLE (slice (decrypted xtea m).buffer 6 2) = _
  rw [decode_low_half, plainLength, ← hblock, ← hdecrypted]
  rfl

theorem decrypt_orderly_iff (xtea : Xtea) (hmin : 8 ≤ decodeLE header)
    (hmax : 2 + decodeLE header ≤ standardMaxBodySize) :
    Orderly ((doChecksum false >>= fun _ => xteaDecrypt false xtea)
        (complete uninitialised header content)) ↔
      ¬ TripsPlaintext xtea (decodeLE header) content := by
  have hbound : decodeLE header ≤ standardMaxBodySize := Nat.le_of_add_left_le hmax
  have hreceived : Received (slice content 0 (decodeLE header))
      (complete uninitialised header content) := complete_received hmin hbound
  have hchecksum := doChecksum_received false hreceived
  by_cases hmatch : ChecksumMatches (slice content 0 (decodeLE header))
  swap
  · rw [if_neg hmatch] at hchecksum
    rw [bind_error hchecksum]
    exact iff_of_true (Or.inr ⟨_, rfl⟩) fun h => hmatch h.checksum
  rw [if_pos hmatch] at hchecksum
  have hpos : ((complete uninitialised header content).moved 4).pos = 6 := rfl
  have hsize : ((complete uninitialised header content).moved 4).size = 2 + decodeLE header := rfl
  have hshort : decodeLE header ≤ 15340 := hbound
  rw [bind_ok hchecksum, xteaDecrypt_asserted false xtea (by omega) (by omega), hpos, hsize,
    show 2 + decodeLE header - 6 = decodeLE header - 4 by omega]
  by_cases hblocks : (decodeLE header - 4) % 8 = 0
  swap
  · rw [if_pos hblocks]
    exact iff_of_true (Or.inr ⟨_, rfl⟩) fun h => hblocks h.blocks
  have hlong : 12 ≤ decodeLE header := by omega
  rw [if_neg (not_not.mpr hblocks), if_neg (by omega),
    innerLength_complete xtea hlong hblocks]
  by_cases hfits : 6 + 2 + plainLength xtea content ≤ standardMaxBodySize
  · rw [if_pos (Or.inr hfits)]
    exact iff_of_true (Or.inl ⟨_, rfl⟩) fun h => absurd hfits (Nat.not_le.mpr h.overlong)
  · rw [if_neg (by simpa using hfits)]
    refine iff_of_false ?_ (not_not.mpr ⟨hmin, ?_, hmatch, hblocks, Nat.lt_of_not_le hfits⟩)
    · rintro (⟨m, h⟩ | ⟨m, h⟩) <;> cases h
    · exact hmax

/-- For every frame, key and uninitialised buffer: the three operations throw `PacketException` or
complete exactly when neither the header nor the plaintext states a size that `setRemainingSize`
refuses. -/
theorem assertion_free_iff (xtea : Xtea) (uninitialised content : Memory) (lo hi : UInt8) :
    Orderly (serve false xtea [lo, hi] content (standardInMessage uninitialised)) ↔
      ¬ TripsHeader (decodeLE [lo, hi]) ∧ ¬ TripsPlaintext xtea (decodeLE [lo, hi]) content := by
  rw [serve_run rfl]
  by_cases hsize : decodeLE [lo, hi] < 8 ∨ standardMaxBodySize < decodeLE [lo, hi]
  · rw [if_pos hsize]
    refine iff_of_true (Or.inr ⟨_, rfl⟩) ⟨?_, ?_⟩
    · rintro ⟨hlow, hhigh⟩
      unfold standardMaxBodySize standardHeaderSize at *
      omega
    · intro h
      have hmin := h.minimum
      have hmax : decodeLE [lo, hi] ≤ standardMaxBodySize := Nat.le_of_add_left_le h.maximum
      omega
  rw [if_neg hsize]
  by_cases hassert : 2 + decodeLE [lo, hi] ≤ standardMaxBodySize
  · have hheader : ¬ TripsHeader (decodeLE [lo, hi]) := fun h => absurd hassert (Nat.not_le.mpr h.2)
    rw [if_pos hassert, decrypt_orderly_iff xtea (by omega) hassert]
    exact (and_iff_right hheader).symm
  · rw [if_neg hassert]
    refine iff_of_false ?_ fun h => h.1 ⟨by omega, Nat.lt_of_not_le hassert⟩
    rintro (⟨m, h⟩ | ⟨m, h⟩) <;> cases h

/-- A header of 15339, and a frame whose plaintext states 65535 bytes. -/
theorem two_frames_trip :
    ¬ Orderly (serve false zeroKey [0xEB, 0x3B] (fun _ => 0) (standardInMessage fun _ => 0)) ∧
      ¬ Orderly (serve false zeroKey [12, 0] (fun i => overlongBody.getD i.toNat 0)
        (standardInMessage fun _ => 0)) := by
  constructor
  · rw [serve_run rfl, if_neg (by decide), if_neg (by decide)]
    rintro (⟨m, h⟩ | ⟨m, h⟩) <;> cases h
  · rw [serve_run rfl, if_neg (by decide), if_pos (by decide),
      decrypt_orderly_iff zeroKey (by decide) (by decide), not_not]
    exact ⟨by decide, by decide, by decide +kernel, by decide, by decide +kernel⟩

end PeerAssertions

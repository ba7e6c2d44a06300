import Otservpp.FrameReads
import Otservpp.OutMessage

/-! # The wire format between the two message classes

The layout that the receiver parses is RawPacketLen(2), Adler32(4), then the packet body. The
sender writes its prefixes backwards, each as wide as the C++ type of its argument. The body is
followed through padding, encryption, checksum and decryption. -/
namespace WireFormat

open ByteMemory Crypto ProgramLogic

/-- The ways of `StandardProtocol` to hand a message to its connection. -/
inductive SendPath where
  | unencrypted
  | encrypted (xtea : Xtea)

/-- What `sendUnencrypted`, `send` and `sendAndStop` do to the message before it is queued. -/
def SendPath.prepare (ndebug : Bool) : SendPath → OutMessage.OutM Unit
  | .unencrypted => OutMessage.addHeader ndebug
  | .encrypted xtea => do
    OutMessage.addHeader ndebug
    OutMessage.xteaEncrypt ndebug xtea

def withLength (p : List UInt8) : List UInt8 := encodeLE 2 p.length ++ p

/-- At least one and at most eight bytes of padding. -/
def padded (bs : List UInt8) : List UInt8 := bs ++ List.replicate (8 - bs.length % 8) 0x33

def place (bs : List UInt8) : Memory := write (fun _ => 0) 0 bs

def encryptBytes (xtea : Xtea) (bs : List UInt8) : List UInt8 :=
  slice (xtea.encrypt (place bs) 0 bs.length) 0 bs.length

def checksum (bs : List UInt8) : UInt32 := adler32 (place bs) 0 bs.length

/-- The packet body that the checksum covers. -/
def SendPath.body : SendPath → List UInt8 → List UInt8
  | .unencrypted, p => withLength p
  | .encrypted xtea, p => encryptBytes xtea (padded (withLength p))

/-- The frame the receiver expects for a packet body. -/
def frame (body : List UInt8) : List UInt8 :=
  encodeLE 2 (4 + body.length) ++ (encodeLE 4 (checksum body).toNat ++ body)

theorem slice_place (bs : List UInt8) : slice (place bs) 0 bs.length = bs :=
  slice_write_same _ _ _

theorem length_withLength (p : List UInt8) : (withLength p).length = 2 + p.length := by
  simp [withLength]

theorem length_padded_mod (bs : List UInt8) : (padded bs).length % 8 = 0 := by
  simp only [padded, List.length_append, List.length_replicate]
  omega

@[simp] theorem length_encryptBytes (xtea : Xtea) (bs : List UInt8) :
    (encryptBytes xtea bs).length = bs.length := by
  simp [encryptBytes]

section Cipher

variable {m : Memory} {a : ℤ} {bs : List UInt8}

theorem checksum_eq (h : slice m a bs.length = bs) : adler32 m a bs.length = checksum bs := by
  apply adler32_congr
  rw [Int.toNat_natCast, h, slice_place]

theorem slice_encrypt (xtea : Xtea) (h8 : bs.length % 8 = 0) (h : slice m a bs.length = bs) :
    slice (xtea.encrypt m a bs.length) a bs.length = encryptBytes xtea bs := by
  have hb := blockCount_mul h8
  have hp := slice_place bs
  rw [encryptBytes, Xtea.encrypt, Xtea.encrypt]
  generalize blockCount bs.length = n at hb ⊢
  rw [← hb] at h hp ⊢
  exact slice_mapBlocks_congr (h.trans hp.symm)

theorem slice_decrypt (xtea : Xtea) (h8 : bs.length % 8 = 0)
    (h : slice m a bs.length = encryptBytes xtea bs) :
    slice (xtea.decrypt m a bs.length) a bs.length = bs := by
  have hp := slice_place bs
  have hb := blockCount_mul h8
  have hinv : slice (xtea.decrypt (xtea.encrypt (place bs) 0 bs.length) 0 bs.length) 0
      bs.length = bs := by
    rw [decrypt_encrypt, hp]
  refine Eq.trans ?_ hinv
  rw [encryptBytes] at h
  rw [Xtea.decrypt, Xtea.decrypt]
  generalize blockCount bs.length = n at hb ⊢
  rw [← hb] at h ⊢
  exact slice_mapBlocks_congr h

end Cipher

section Sender

open OutMessage

variable {m : OutMessage.Message} {p : List UInt8}

theorem addHeader_holds (ndebug : Bool) (h : Holds m 8 p) (hs : 8 + p.length < 2 ^ 31) :
    ∃ m', addHeader ndebug m = .ok () m' ∧ Holds m' 6 (withLength p) := by
  obtain ⟨m', hm, hh⟩ := addPrefix_holds ndebug 6 2 h p.length
  exact ⟨m', by rw [addHeader, bind_ok (getSize_holds ndebug h hs), hm], hh⟩

theorem xteaEncrypt_holds (ndebug : Bool) (xtea : Xtea) {pos : ℕ} {bs : List UInt8}
    (h : Holds m pos bs) (hs : pos + (padded bs).length < 2 ^ 31) :
    ∃ m', xteaEncrypt ndebug xtea m = .ok () m' ∧ Holds m' pos (encryptBytes xtea (padded bs)) := by
  have hle : bs.length ≤ (padded bs).length := by simp [padded]
  obtain ⟨m₁, h₁, hh₁⟩ := append_holds h (List.replicate (8 - bs.length % 8) 0x33)
  refine ⟨{ m₁ with cells := xtea.encrypt m₁.cells m₁.prefixPos (padded bs).length }, ?_,
    hh₁.cursor, ?_, ?_⟩
  · rw [xteaEncrypt, bind_ok (getSize_holds ndebug h (by omega)), addPadding, bind_ok h₁,
      bind_ok (getSize_holds ndebug hh₁ hs)]
    rfl
  · rw [length_encryptBytes]
    exact hh₁.size
  · rw [length_encryptBytes, hh₁.cursor]
    exact slice_encrypt xtea (length_padded_mod bs) hh₁.content

theorem prepare_holds (ndebug : Bool) (path : SendPath) (h : Holds m 8 p)
    (hs : 8 + (path.body p).length < 2 ^ 31) :
    ∃ m', path.prepare ndebug m = .ok () m' ∧ Holds m' 6 (path.body p) := by
  cases path with
  | unencrypted =>
    rw [SendPath.body, length_withLength] at hs
    exact addHeader_holds ndebug h (by omega)
  | encrypted xtea =>
    rw [SendPath.body, length_encryptBytes] at hs
    have hl := length_withLength p
    have hle : (withLength p).length ≤ (padded (withLength p)).length := by simp [padded]
    obtain ⟨m₁, h₁, hh₁⟩ := addHeader_holds ndebug h (by omega)
    obtain ⟨m₂, h₂, hh₂⟩ := xteaEncrypt_holds ndebug xtea hh₁ (by omega)
    exact ⟨m₂, by rw [SendPath.prepare, bind_ok h₁, h₂], hh₂⟩

/-- The size prefix takes eight bytes where two are left: the cursor ends six bytes below the
vector, and the bytes from there on are what is sent. -/
theorem encode_result (ndebug : Bool) {body : List UInt8} (h : Holds m 6 body)
    (hpos : 0 < body.length) (hs : 4 + body.length < 2 ^ 16) :
    ∃ m', encode ndebug m = .ok () m' ∧ m'.prefixPos = -6 ∧
      getBuffer m' = encodeLE 8 (4 + body.length) ++
        (encodeLE 4 (checksum body).toNat ++ body) := by
  have hsize := getSize_holds ndebug h (by omega)
  have hsum : adler32 m.cells m.prefixPos (toInt32 body.length) = checksum body := by
    rw [toInt32_of_lt (by omega), h.cursor]
    exact checksum_eq h.content
  have hne : toInt32 body.length ≠ 0 := by
    rw [toInt32_of_lt (by omega)]
    omega
  obtain ⟨m₁, h₁, hh₁⟩ := addPrefix_holds ndebug 2 4 h (checksum body).toNat
  have hsize₁ := getSize_holds ndebug hh₁ (by
    rw [List.length_append, length_encodeLE]
    omega)
  rw [List.length_append, length_encodeLE] at hsize₁
  have hc₁ : m₁.prefixPos = 2 := hh₁.cursor
  have hz₁ : (m₁.size : ℤ) = 2 + (4 + body.length) := by
    have := hh₁.size
    rw [List.length_append, length_encodeLE] at this
    omega
  refine ⟨{ m₁ with
    cells := write m₁.cells (-6) (encodeLE 8 (4 + body.length))
    prefixPos := -6 }, ?_, rfl, ?_⟩
  · rw [encode, bind_ok hsize, bind_ok (check_run _ _ _ _ |>.trans (if_pos (by simp [hne]))),
      bind_ok (get_run _), hsum, bind_ok h₁, bind_ok hsize₁]
    simp [addPrefix, bind_run, check_run, hc₁]
  · have hlen : u64 (m₁.size - (-6)) = 8 + (4 + body.length) :=
      u64_of_nat (by omega) (by omega)
    have hlow := slice_write_of_length m₁.cells (-6) (length_encodeLE 8 (4 + body.length))
    have hrest := hh₁.content
    rw [List.length_append, length_encodeLE] at hrest
    rw [getBuffer, hlen, slice_add]
    simp only
    rw [hlow, slice_write_disjoint _ (by rw [length_encodeLE]; omega)]
    exact congrArg _ hrest

/-- What the sender is meant to produce: the frame of the body, with the prefix cursor still in
the reserved cells. -/
def OnWire (body : List UInt8) (m : OutMessage.Message) : Prop :=
  getBuffer m = frame body ∧ 0 ≤ m.prefixPos ∧ m.prefixPos ≤ standardPrefixSize

theorem length_body_pos (path : SendPath) (p : List UInt8) : 0 < (path.body p).length := by
  cases path with
  | unencrypted =>
    rw [SendPath.body, length_withLength]
    omega
  | encrypted xtea =>
    rw [SendPath.body, length_encryptBytes, padded, List.length_append, length_withLength]
    omega

theorem not_onWire_of_underflow {body : List UInt8} (h : m.prefixPos = -6) : ¬ OnWire body m := by
  rintro ⟨_, hlow, _⟩
  omega

/-- Building, preparing and encoding a message, with every intermediate message named. -/
theorem transmit_result (ndebug : Bool) (uninitialised : Memory) (ops : List AddOp)
    (path : SendPath) (hs : 4 + (path.body (payload ops)).length < 2 ^ 16) :
    ∃ m m', (do build ops; path.prepare ndebug : OutM Unit) (standardOutMessage uninitialised) =
        .ok () m ∧
      getBuffer m = path.body (payload ops) ∧ encode ndebug m = .ok () m' ∧
      m'.prefixPos = -6 ∧
      getBuffer m' = encodeLE 8 (4 + (path.body (payload ops)).length) ++
        (encodeLE 4 (checksum (path.body (payload ops))).toNat ++ path.body (payload ops)) := by
  obtain ⟨m₁, h₁, hh₁⟩ := build_holds (standardOutMessage_holds uninitialised) ops
  obtain ⟨m₂, h₂, hh₂⟩ := prepare_holds ndebug path hh₁ (by simp only [List.nil_append]; omega)
  rw [List.nil_append] at hh₂
  obtain ⟨m₃, h₃, hp, hb⟩ := encode_result ndebug hh₂ (length_body_pos _ _) hs
  exact ⟨m₂, m₃, by rw [bind_ok h₁, h₂], hh₂.getBuffer (by omega), h₃, hp, hb⟩

/-- No packet, of any payload and on either path, leaves `encode` in the wire format. -/
theorem encode_never_on_wire (ndebug : Bool) (uninitialised : Memory) (ops : List AddOp)
    (path : SendPath) (hs : 4 + (path.body (payload ops)).length < 2 ^ 16) :
    ∃ m m', (do build ops; path.prepare ndebug : OutM Unit) (standardOutMessage uninitialised) =
        .ok () m ∧
      getBuffer m = path.body (payload ops) ∧ encode ndebug m = .ok () m' ∧
      getBuffer m' ≠ frame (path.body (payload ops)) ∧ m'.prefixPos < 0 ∧
      ¬ OnWire (path.body (payload ops)) m' := by
  obtain ⟨m, m', hm, hbuf, hm', hp, hb⟩ := transmit_result ndebug uninitialised ops path hs
  refine ⟨m, m', hm, hbuf, hm', ?_, by omega, not_onWire_of_underflow hp⟩
  intro hf
  rw [hb, frame] at hf
  have hlen := congrArg List.length hf
  simp only [List.length_append, length_encodeLE] at hlen
  omega

theorem encode_never_on_wire_example :
    ∃ m m', (do build [.addByte 0x0A]; SendPath.unencrypted.prepare true : OutM Unit)
        (standardOutMessage fun _ => 0) = .ok () m ∧
      getBuffer m = [1, 0, 0x0A] ∧ encode true m = .ok () m' ∧
      getBuffer m' ≠ frame [1, 0, 0x0A] ∧ m'.prefixPos < 0 ∧ ¬ OnWire [1, 0, 0x0A] m' :=
  encode_never_on_wire true (fun _ => 0) [.addByte 0x0A] .unencrypted (by decide)

/-- One byte sent without encryption: the two-byte size becomes eight bytes and the cursor
leaves the vector. -/
theorem one_byte_packet_underflows :
    ∃ m', (do build [.addByte 0x0A]; SendPath.unencrypted.prepare true; encode true : OutM Unit)
        (standardOutMessage fun _ => 0) = .ok () m' ∧
      getBuffer m' = [7, 0, 0, 0, 0, 0, 0, 0] ++
        (encodeLE 4 (checksum [1, 0, 0x0A]).toNat ++ [1, 0, 0x0A]) ∧
      ¬ OnWire [1, 0, 0x0A] m' := by
  obtain ⟨m, m', hm, -, hm', hp, hb⟩ :=
    transmit_result true (fun _ => 0) [.addByte 0x0A] .unencrypted (by decide)
  obtain ⟨u, t, hbuild, hprep⟩ := bind_eq_ok.mp hm
  exact ⟨m', by rw [bind_ok hbuild, bind_ok hprep, hm'], hb, not_onWire_of_underflow hp⟩

end Sender

section Receiver

open InMessage FrameReads

/-- A received packet before its checksum is read. -/
def arrived (uninitialised : Memory) (body : List UInt8) : InMessage.Message :=
  ⟨write (write uninitialised 0 (encodeLE 2 (4 + body.length))) 2
    (encodeLE 4 (checksum body).toNat ++ body), 2, 2 + (4 + body.length)⟩

variable (uninitialised : Memory) {body : List UInt8}

theorem receive_frame (hmin : 4 ≤ body.length) (hmax : 4 + body.length ≤ standardMaxBodySize) :
    receive true uninitialised (encodeLE 2 (4 + body.length))
      (encodeLE 4 (checksum body).toNat ++ body) = some (arrived uninitialised body) := by
  have hlen : (encodeLE 4 (checksum body).toNat ++ body).length = 4 + body.length := by
    rw [List.length_append, length_encodeLE]
  have hr := receive_eq true uninitialised (encodeLE 4 (checksum body).toNat ++ body)
    (by omega) (by omega) (Or.inl rfl)
  rw [hlen] at hr
  exact hr

theorem arrived_slices (body : List UInt8) :
    slice (arrived uninitialised body).buffer 2 4 = encodeLE 4 (checksum body).toNat ∧
      slice (arrived uninitialised body).buffer 6 body.length = body := by
  have hs := slice_write_same (write uninitialised 0 (encodeLE 2 (4 + body.length))) 2
    (encodeLE 4 (checksum body).toNat ++ body)
  rw [List.length_append, length_encodeLE, slice_add] at hs
  exact List.append_inj hs (by simp)

/-- The checksum that travels with a body is the one `doChecksum` computes. -/
theorem doChecksum_arrived (hmax : 4 + body.length ≤ standardMaxBodySize) :
    doChecksum true (arrived uninitialised body) =
      .ok () { arrived uninitialised body with pos := 6 } := by
  obtain ⟨hfield, hbody⟩ := arrived_slices uninitialised body
  have hp : (arrived uninitialised body).pos = 2 := rfl
  have hz : (arrived uninitialised body).size = 2 + (4 + body.length) := rfl
  have hv : (checksum body).toNat < 256 ^ 4 := (checksum body).toNat_lt
  have hsum := checksum_eq hbody
  unfold standardMaxBodySize at hmax
  rw [doChecksum_run (by omega) (by omega), if_neg (by omega), hp, hz,
    show 2 + (4 + body.length) - (2 + 4) = body.length by omega]
  change (if decodeLE (slice _ 2 4) ≠ (adler32 _ 6 _).toNat then _ else _) = _
  rw [hfield, hsum, decode_encodeLE_of_lt hv, if_neg (by simp)]
  rfl

theorem length_padded_withLength (p : List UInt8) :
    (padded (withLength p)).length = 2 + (p.length + (8 - (2 + p.length) % 8)) := by
  simp only [padded, List.length_append, List.length_replicate, length_withLength]
  omega

theorem padded_slices {m : Memory} {a : ℤ} {p : List UInt8}
    (h : slice m a (padded (withLength p)).length = padded (withLength p)) :
    slice m a 2 = encodeLE 2 p.length ∧ slice m (a + 2) p.length = p := by
  have hparts : padded (withLength p) = encodeLE 2 p.length ++
      (p ++ List.replicate (8 - (2 + p.length) % 8) 0x33) := by
    rw [padded, length_withLength, withLength, List.append_assoc]
  rw [length_padded_withLength, slice_add, slice_add, hparts] at h
  obtain ⟨hl, hrest⟩ := List.append_inj h (by simp)
  exact ⟨hl, (List.append_inj hrest (by simp)).1⟩

/-- Decryption of the body of an encrypted packet leaves its payload and drops the padding. -/
theorem xteaDecrypt_arrived (xtea : Xtea) {p : List UInt8}
    (hbody : body = encryptBytes xtea (padded (withLength p)))
    (hmax : 4 + body.length ≤ standardMaxBodySize) :
    ∃ m, xteaDecrypt true xtea { arrived uninitialised body with pos := 6 } = .ok () m ∧
      m.pos = 8 ∧ m.size = 8 + p.length ∧ slice m.buffer 8 p.length = p := by
  have hlen : body.length = (padded (withLength p)).length := by rw [hbody, length_encryptBytes]
  have h8 := length_padded_mod (withLength p)
  have hsplit := length_padded_withLength p
  obtain ⟨hl, hp⟩ := padded_slices (slice_decrypt xtea h8 (m := (arrived uninitialised body).buffer)
    (a := 6) (by rw [← hlen, (arrived_slices uninitialised _).2, hbody]))
  unfold standardMaxBodySize at hmax
  have hz : (arrived uninitialised body).size = 2 + (4 + body.length) := rfl
  have hrem : (arrived uninitialised body).size - 6 = (padded (withLength p)).length := by omega
  have hinner : innerLength xtea { arrived uninitialised body with pos := 6 } = p.length := by
    simp only [innerLength, decrypted, hrem]
    rw [show ((6 : ℕ) : ℤ) = 6 from rfl, hl, decode_encodeLE_of_lt (by omega)]
  rw [xteaDecrypt_run xtea (by dsimp only; omega) (by dsimp only; omega),
    if_neg (by dsimp only; omega), if_neg (by dsimp only; omega), hinner]
  refine ⟨_, rfl, rfl, rfl, ?_⟩
  simp only [decrypted, hrem]
  exact hp

end Receiver

open OutMessage in
/-- Decoding undoes encoding: for every key and payload, the frame of the encrypted body passes
the receiver's header check, checksum and decryption, which leave exactly the payload. -/
theorem decode_undoes_encode (ndebug : Bool) (uninitialisedOut uninitialisedIn : Memory)
    (xtea : Xtea) (ops : List AddOp)
    (hs : 4 + ((SendPath.encrypted xtea).body (payload ops)).length ≤ 15340) :
    ∃ out, (do build ops; addHeader ndebug; xteaEncrypt ndebug xtea : OutM Unit)
        (standardOutMessage uninitialisedOut) = .ok () out ∧
      getBuffer out = (SendPath.encrypted xtea).body (payload ops) ∧
      ∃ m₁ m₂ m₃,
        FrameReads.receive true uninitialisedIn (encodeLE 2 (4 + (getBuffer out).length))
          (encodeLE 4 (checksum (getBuffer out)).toNat ++ getBuffer out) = some m₁ ∧
        InMessage.doChecksum true m₁ = .ok () m₂ ∧
        InMessage.xteaDecrypt true xtea m₂ = .ok () m₃ ∧
        InMessage.getRemainingSize true m₃ = .ok (payload ops).length m₃ ∧
        slice m₃.buffer m₃.pos (payload ops).length = payload ops := by
  obtain ⟨m₁, h₁, hh₁⟩ := build_holds (standardOutMessage_holds uninitialisedOut) ops
  obtain ⟨out, hout, hh⟩ := prepare_holds ndebug (.encrypted xtea) hh₁
    (by simp only [List.nil_append]; omega)
  rw [List.nil_append] at hh
  have hbuf := hh.getBuffer (by omega)
  have hlen : ((SendPath.encrypted xtea).body (payload ops)).length =
      (padded (withLength (payload ops))).length := length_encryptBytes _ _
  rw [length_padded_withLength] at hlen
  refine ⟨out, by rw [bind_ok h₁]; exact hout, hbuf, ?_⟩
  rw [hbuf]
  obtain ⟨m₃, h₃, hp, hz, hslice⟩ := xteaDecrypt_arrived uninitialisedIn xtea rfl hs
  refine ⟨_, _, m₃, receive_frame uninitialisedIn (by omega) hs,
    doChecksum_arrived uninitialisedIn hs, h₃, ?_, ?_⟩
  · rw [InMessage.getRemainingSize_ok true (by omega) (by omega), hz, hp, Nat.add_sub_cancel_left]
  · rw [hp]
    exact hslice

open OutMessage in
/-- Six payload bytes fill the first block with their length, so a whole block is padding. -/
theorem decode_undoes_encode_full_block :
    ∃ out, (do build [.addRaw [1, 2, 3, 4, 5, 6]]; addHeader true
               xteaEncrypt true ⟨fun _ => 7⟩ : OutM Unit)
        (standardOutMessage fun _ => 0) = .ok () out ∧
      getBuffer out = (SendPath.encrypted ⟨fun _ => 7⟩).body [1, 2, 3, 4, 5, 6] ∧
      ∃ m₁ m₂ m₃,
        FrameReads.receive true (fun _ => 0) (encodeLE 2 (4 + (getBuffer out).length))
          (encodeLE 4 (checksum (getBuffer out)).toNat ++ getBuffer out) = some m₁ ∧
        InMessage.doChecksum true m₁ = .ok () m₂ ∧
        InMessage.xteaDecrypt true ⟨fun _ => 7⟩ m₂ = .ok () m₃ ∧
        InMessage.getRemainingSize true m₃ = .ok 6 m₃ ∧
        slice m₃.buffer m₃.pos 6 = [1, 2, 3, 4, 5, 6] :=
  decode_undoes_encode true (fun _ => 0) (fun _ => 0) ⟨fun _ => 7⟩ [.addRaw [1, 2, 3, 4, 5, 6]]
    (by decide)

end WireFormat

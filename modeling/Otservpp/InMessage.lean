import Otservpp.Crypto
import Otservpp.ProgramLogic

/-! # Incoming messages

The read cursor of `BasicInMessage` and the operations of `StandardInMessage`. A throw keeps
the cursor where the failed operation left it, as in the source. `ndebug` says whether
assertions are compiled out; the buffer is uninitialised memory, and cells past its end are
what a read beyond the array would see. -/
namespace InMessage

open ByteMemory Crypto ProgramLogic

inductive Fault where
  | packetException
  | assertion
  deriving DecidableEq, Repr

structure Message where
  buffer : Memory
  pos : ℕ
  size : ℕ

abbrev InM := EStateM Fault Message

/-- `unsigned int` arithmetic -/
def u32 (n : ℕ) : ℕ := n % 2 ^ 32

structure Buffer where
  data : ℤ
  size : ℕ
  deriving DecidableEq, Repr

def assert (ndebug p : Bool) : InM Unit := check .assertion ndebug p

section BasicInMessage

variable (ndebug : Bool) (headerSize maxBodySize : ℕ)

def basicInMessage (uninitialised : Memory) : Message := ⟨uninitialised, 0, headerSize⟩

def getHeaderBuffer : Buffer := ⟨0, headerSize⟩

def getBodyBuffer : InM Buffer := do
  let m ← get
  assert ndebug (headerSize < m.size)
  pure ⟨headerSize, u32 (m.size + 2 ^ 32 - headerSize)⟩

def getRemainingSize : InM ℕ := do
  let m ← get
  assert ndebug (m.pos ≤ m.size)
  pure (u32 (m.size + 2 ^ 32 - m.pos))

def isAvailable (bytesRequired : ℕ) (m : Message) : Bool := u32 (m.pos + bytesRequired) ≤ m.size

def movePos (bytes : ℕ) : InM Unit := do
  modify fun m => { m with pos := u32 (m.pos + bytes) }
  let m ← get
  if m.size < m.pos then throw .packetException

def getRawChunckAs (bytes : ℕ) : InM ℤ := do
  movePos bytes
  let m ← get
  pure (u32 (m.pos + 2 ^ 32 - bytes))

def peekRawChunckAs (bytes : ℕ) : InM ℤ := do
  let m ← get
  if m.size < u32 (m.pos + bytes) then throw .packetException else pure m.pos

def setRemainingSize (bytes : ℕ) : InM Unit := do
  let m ← get
  assert ndebug (u32 (m.pos + bytes) ≤ maxBodySize)
  modify fun m => { m with size := u32 (m.pos + bytes) }

def getNumber (width : ℕ) : InM ℕ := do
  let p ← getRawChunckAs width
  let m ← get
  pure (decodeLE (slice m.buffer p width))

def getByte : InM UInt8 := do
  movePos 1
  let m ← get
  pure (m.buffer (u32 (m.pos + 2 ^ 32 - 1)))

def getU16 : InM ℕ := getNumber 2
def getU32 : InM ℕ := getNumber 4
def getU64 : InM ℕ := getNumber 8

def getRawChunck (bytes : ℕ) : InM ℤ := getRawChunckAs bytes

def getStrChunck (bytes : ℕ) : InM (List UInt8) := do
  let p ← getRawChunckAs bytes
  let m ← get
  pure (slice m.buffer p bytes)

def skipBytes (delta : ℕ) : InM Unit := movePos delta

end BasicInMessage

def standardHeaderSize : ℕ := 2
def standardMaxBodySize : ℕ := 15340

section StandardInMessage

variable (ndebug : Bool)

def standardInMessage (uninitialised : Memory) : Message :=
  basicInMessage standardHeaderSize uninitialised

def parseHeaderAndGetBodyBuffer : InM Buffer := do
  let bodySize ← getU16
  if bodySize < 8 ∨ standardMaxBodySize < bodySize then throw .packetException
  setRemainingSize ndebug standardMaxBodySize bodySize
  getBodyBuffer ndebug standardHeaderSize

def getString : InM (List UInt8) := do
  let n ← getU16
  getStrChunck n

def doChecksum : InM Unit := do
  let givenChecksum ← getU32
  let size ← getRemainingSize ndebug
  let p ← peekRawChunckAs size
  assert ndebug (size ≠ 0) -- the first statement of `adler32`
  let m ← get
  if givenChecksum ≠ (adler32 m.buffer p (toInt32 size)).toNat then throw .packetException

def getXtea : InM Xtea := do
  let k0 ← getU32
  let k1 ← getU32
  let k2 ← getU32
  let k3 ← getU32
  pure ⟨fun i => UInt32.ofNat ([k0, k1, k2, k3].getD i 0)⟩

def xteaDecrypt (xtea : Xtea) : InM Unit := do
  let size ← getRemainingSize ndebug
  if size % 8 ≠ 0 then throw .packetException
  let p ← peekRawChunckAs size
  modify fun m => { m with buffer := xtea.decrypt m.buffer p size }
  let n ← getU16
  setRemainingSize ndebug standardMaxBodySize n

end StandardInMessage

/-- The message after its cursor moved by `bytes`, successfully or not. -/
def Message.moved (m : Message) (bytes : ℕ) : Message := { m with pos := u32 (m.pos + bytes) }

@[simp] theorem moved_buffer (m : Message) (bytes : ℕ) : (m.moved bytes).buffer = m.buffer := rfl

@[simp] theorem moved_size (m : Message) (bytes : ℕ) : (m.moved bytes).size = m.size := rfl

@[simp] theorem moved_pos (m : Message) (bytes : ℕ) : (m.moved bytes).pos = u32 (m.pos + bytes) := rfl

theorem u32_of_lt {n : ℕ} (h : n < 2 ^ 32) : u32 n = n := Nat.mod_eq_of_lt h

theorem u32_lt (n : ℕ) : u32 n < 2 ^ 32 := Nat.mod_lt _ (by decide)

/-- Moving the cursor and stepping back gives the old cursor, also across a wrap-around. -/
theorem u32_move_back {pos bytes : ℕ} (hp : pos < 2 ^ 32) (hb : bytes < 2 ^ 32) :
    u32 (u32 (pos + bytes) + 2 ^ 32 - bytes) = pos := by
  unfold u32
  omega

theorem movePos_run (bytes : ℕ) (m : Message) :
    movePos bytes m = if m.size < u32 (m.pos + bytes) then .error .packetException (m.moved bytes)
      else .ok () (m.moved bytes) := by
  by_cases h : m.size < u32 (m.pos + bytes) <;> simp [movePos, bind_run, Message.moved, h]

section Reads

variable {m : Message} {bytes : ℕ}

theorem getRawChunckAs_ok (hp : m.pos < 2 ^ 32) (hb : bytes < 2 ^ 32)
    (h : u32 (m.pos + bytes) ≤ m.size) : getRawChunckAs bytes m = .ok m.pos (m.moved bytes) := by
  have hm : movePos bytes m = .ok () (m.moved bytes) := by
    rw [movePos_run, if_neg (by omega)]
  rw [getRawChunckAs, bind_ok hm, bind_ok (get_run _), moved_pos, u32_move_back hp hb]
  rfl

theorem getRawChunckAs_error (h : m.size < u32 (m.pos + bytes)) :
    getRawChunckAs bytes m = .error .packetException (m.moved bytes) := by
  have hm : movePos bytes m = .error .packetException (m.moved bytes) := by
    rw [movePos_run, if_pos h]
  rw [getRawChunckAs, bind_error hm]

theorem getNumber_ok (hp : m.pos < 2 ^ 32) (hb : bytes < 2 ^ 32)
    (h : u32 (m.pos + bytes) ≤ m.size) :
    getNumber bytes m = .ok (decodeLE (slice m.buffer m.pos bytes)) (m.moved bytes) := by
  rw [getNumber, bind_ok (getRawChunckAs_ok hp hb h)]
  rfl

theorem getNumber_error (h : m.size < u32 (m.pos + bytes)) :
    getNumber bytes m = .error .packetException (m.moved bytes) := by
  rw [getNumber, bind_error (getRawChunckAs_error h)]

theorem getStrChunck_ok (hp : m.pos < 2 ^ 32) (hb : bytes < 2 ^ 32)
    (h : u32 (m.pos + bytes) ≤ m.size) :
    getStrChunck bytes m = .ok (slice m.buffer m.pos bytes) (m.moved bytes) := by
  rw [getStrChunck, bind_ok (getRawChunckAs_ok hp hb h)]
  rfl

theorem getStrChunck_error (h : m.size < u32 (m.pos + bytes)) :
    getStrChunck bytes m = .error .packetException (m.moved bytes) := by
  rw [getStrChunck, bind_error (getRawChunckAs_error h)]

theorem getByte_ok (hp : m.pos < 2 ^ 32) (h : u32 (m.pos + 1) ≤ m.size) :
    getByte m = .ok (m.buffer m.pos) (m.moved 1) := by
  have hm : movePos 1 m = .ok () (m.moved 1) := by
    rw [movePos_run, if_neg (by omega)]
  rw [getByte, bind_ok hm, bind_ok (get_run _), moved_pos, u32_move_back hp (by omega)]
  rfl

theorem getByte_error (h : m.size < u32 (m.pos + 1)) :
    getByte m = .error .packetException (m.moved 1) := by
  have hm : movePos 1 m = .error .packetException (m.moved 1) := by
    rw [movePos_run, if_pos h]
  rw [getByte, bind_error hm]

theorem getRemainingSize_ok (ndebug : Bool) (h : m.pos ≤ m.size) (hs : m.size < 2 ^ 32) :
    getRemainingSize ndebug m = .ok (m.size - m.pos) m := by
  have hu : u32 (m.size + 2 ^ 32 - m.pos) = m.size - m.pos := by
    unfold u32
    omega
  have hassert : assert ndebug (m.pos ≤ m.size) m = .ok () m := by simp [assert, check_run, h]
  rw [getRemainingSize, bind_ok (get_run _), bind_ok hassert, hu]
  rfl

theorem peekRawChunckAs_ok (h : u32 (m.pos + bytes) ≤ m.size) :
    peekRawChunckAs bytes m = .ok m.pos m := by
  simp [peekRawChunckAs, bind_run, Nat.not_lt.mpr h]

theorem setRemainingSize_run (ndebug : Bool) (maxBodySize : ℕ) :
    setRemainingSize ndebug maxBodySize bytes m =
      if ndebug ∨ u32 (m.pos + bytes) ≤ maxBodySize then
        .ok () { m with size := u32 (m.pos + bytes) }
      else .error .assertion m := by
  by_cases h : ndebug = true ∨ u32 (m.pos + bytes) ≤ maxBodySize
  · simp [setRemainingSize, bind_run, assert, check_run, h]
  · simp [setRemainingSize, bind_run, assert, check_run, h]

theorem getBodyBuffer_ok (ndebug : Bool) {headerSize : ℕ} (h : headerSize < m.size)
    (hs : m.size < 2 ^ 32) :
    getBodyBuffer ndebug headerSize m = .ok ⟨headerSize, m.size - headerSize⟩ m := by
  have hu : u32 (m.size + 2 ^ 32 - headerSize) = m.size - headerSize := by
    unfold u32
    omega
  have hassert : assert ndebug (headerSize < m.size) m = .ok () m := by simp [assert, check_run, h]
  rw [getBodyBuffer, bind_ok (get_run _), bind_ok hassert, hu]
  rfl

/-- The size field at the start of the buffer. -/
def sizeField (m : Message) : ℕ := decodeLE (slice m.buffer 0 2)

/-- A header parsed with the cursor at the start of the buffer. -/
theorem parseHeader_at_start (ndebug : Bool) (hp : m.pos = 0) (hs : 2 ≤ m.size) :
    parseHeaderAndGetBodyBuffer ndebug m =
      if sizeField m < 8 ∨ standardMaxBodySize < sizeField m then
        .error .packetException { m with pos := 2 }
      else if ndebug ∨ 2 + sizeField m ≤ standardMaxBodySize then
        .ok ⟨2, sizeField m⟩ { m with pos := 2, size := 2 + sizeField m }
      else .error .assertion { m with pos := 2 } := by
  have hu : u32 (m.pos + 2) = 2 := by rw [hp]; rfl
  have hnum : getNumber 2 m = .ok (sizeField m) { m with pos := 2 } := by
    rw [getNumber_ok (by omega) (by omega) (by omega), Message.moved, hu, sizeField, hp]
    rfl
  rw [parseHeaderAndGetBodyBuffer, getU16, bind_ok hnum]
  generalize sizeField m = n
  by_cases hn : n < 8 ∨ standardMaxBodySize < n
  · rw [if_pos hn, bind_error (throw_run _ _), if_pos hn]
  · have hmax : n ≤ 15340 := by
      unfold standardMaxBodySize at hn
      omega
    have hset : setRemainingSize ndebug standardMaxBodySize n { m with pos := 2 } = _ :=
      setRemainingSize_run ndebug standardMaxBodySize
    simp only [u32_of_lt (show 2 + n < 2 ^ 32 by omega)] at hset
    rw [if_neg hn, if_neg hn]
    change (setRemainingSize _ _ _ >>= _) _ = _
    by_cases hd : ndebug = true ∨ 2 + n ≤ standardMaxBodySize
    · rw [if_pos hd] at hset ⊢
      have hlow : standardHeaderSize < 2 + n := by
        unfold standardHeaderSize
        omega
      rw [bind_ok hset, getBodyBuffer_ok ndebug hlow (show 2 + n < 2 ^ 32 by omega)]
      simp [standardHeaderSize]
    · rw [if_neg hd] at hset ⊢
      rw [bind_error hset]

/-- `doChecksum` of a message in its ordinary range, assertions compiled out. -/
theorem doChecksum_run (hc : m.pos ≤ m.size) (hs : m.size < 2 ^ 31) :
    doChecksum true m =
      if m.size < m.pos + 4 then .error .packetException (m.moved 4)
      else if decodeLE (slice m.buffer m.pos 4) ≠
          (adler32 m.buffer (m.pos + 4 : ℕ) (m.size - (m.pos + 4) : ℕ)).toNat then
        .error .packetException (m.moved 4)
      else .ok () (m.moved 4) := by
  have h4 : u32 (m.pos + 4) = m.pos + 4 := u32_of_lt (by omega)
  by_cases hshort : m.size < m.pos + 4
  · rw [if_pos hshort, doChecksum, getU32, bind_error (getNumber_error (by omega))]
  · have hrem : getRemainingSize true (m.moved 4) = .ok (m.size - (m.pos + 4)) (m.moved 4) := by
      rw [getRemainingSize_ok true (by rw [moved_pos, moved_size]; omega) (by rw [moved_size]; omega),
        moved_size, moved_pos, h4]
    have hpeek : peekRawChunckAs (m.size - (m.pos + 4)) (m.moved 4) =
        .ok ((m.pos + 4 : ℕ) : ℤ) (m.moved 4) := by
      rw [peekRawChunckAs_ok (by rw [moved_pos, moved_size, h4, u32_of_lt (by omega)]; omega),
        moved_pos, h4]
    rw [if_neg hshort, doChecksum, getU32, bind_ok (getNumber_ok (by omega) (by omega) (by omega)),
      bind_ok hrem, bind_ok hpeek, assert, bind_ok (check_ndebug _ _ _), bind_ok (get_run _),
      moved_buffer, toInt32_of_lt (by omega)]
    split <;> rfl

/-- The message after its rest was decrypted, before the inner length is read. -/
def decrypted (xtea : Xtea) (m : Message) : Message :=
  { m with buffer := xtea.decrypt m.buffer m.pos (m.size - m.pos) }

/-- The two bytes at the cursor after decryption of the rest of the message. -/
def innerLength (xtea : Xtea) (m : Message) : ℕ :=
  decodeLE (slice (decrypted xtea m).buffer m.pos 2)

/-- `xteaDecrypt` of a message in its ordinary range: the inner length is asserted, not checked. -/
theorem xteaDecrypt_asserted (ndebug : Bool) (xtea : Xtea) (hc : m.pos ≤ m.size)
    (hs : m.size < 2 ^ 31) :
    xteaDecrypt ndebug xtea m =
      if (m.size - m.pos) % 8 ≠ 0 then .error .packetException m
      else if m.size < m.pos + 2 then .error .packetException ((decrypted xtea m).moved 2)
      else if ndebug ∨ m.pos + 2 + innerLength xtea m ≤ standardMaxBodySize then
        .ok () { decrypted xtea m with
          pos := m.pos + 2
          size := m.pos + 2 + innerLength xtea m }
      else .error .assertion ((decrypted xtea m).moved 2) := by
  rw [xteaDecrypt, bind_ok (getRemainingSize_ok ndebug hc (by omega))]
  by_cases h8 : (m.size - m.pos) % 8 ≠ 0
  · rw [if_pos h8, if_pos h8, bind_error (throw_run _ _)]
  · rw [if_neg h8, if_neg h8]
    change (peekRawChunckAs _ >>= _) m = _
    rw [bind_ok (peekRawChunckAs_ok (by rw [u32_of_lt (by omega)]; omega)),
      bind_ok (modify_run _ _)]
    change (getU16 >>= _) (decrypted xtea m) = _
    have hp : (decrypted xtea m).pos = m.pos := rfl
    have hz : (decrypted xtea m).size = m.size := rfl
    have h2 : u32 ((decrypted xtea m).pos + 2) = m.pos + 2 := u32_of_lt (by omega)
    by_cases hshort : m.size < m.pos + 2
    · rw [if_pos hshort, getU16, bind_error (getNumber_error (by omega))]
    · have hlen : innerLength xtea m < 256 ^ 2 := by
        simpa [innerLength] using decodeLE_lt (slice (decrypted xtea m).buffer m.pos 2)
      rw [if_neg hshort, getU16, bind_ok (getNumber_ok (by omega) (by omega) (by omega)),
        setRemainingSize_run]
      simp only [Message.moved, h2]
      rw [hp, ← innerLength, u32_of_lt (by omega)]

/-- `xteaDecrypt` of a message in its ordinary range, assertions compiled out. -/
theorem xteaDecrypt_run (xtea : Xtea) (hc : m.pos ≤ m.size) (hs : m.size < 2 ^ 31) :
    xteaDecrypt true xtea m =
      if (m.size - m.pos) % 8 ≠ 0 then .error .packetException m
      else if m.size < m.pos + 2 then .error .packetException ((decrypted xtea m).moved 2)
      else .ok () { decrypted xtea m with
        pos := m.pos + 2
        size := m.pos + 2 + innerLength xtea m } := by
  rw [xteaDecrypt_asserted true xtea hc hs, if_pos (Or.inl rfl)]

end Reads

end InMessage

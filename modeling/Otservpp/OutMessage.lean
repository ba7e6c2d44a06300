import Otservpp.Crypto
import Otservpp.ProgramLogic

/-! # Outgoing messages

`BasicOutMessage` keeps a vector whose first cells are reserved for prefixes and a cursor that
moves down over them. Addresses are relative to `buffer.data()`; a write below zero is outside
the vector and is kept as such. Reallocation of the vector is not modelled. -/
namespace OutMessage

open ByteMemory Crypto ProgramLogic

inductive Fault where
  | assertion
  deriving DecidableEq, Repr

structure Message where
  cells : Memory
  size : ℕ
  prefixPos : ℤ

abbrev OutM := EStateM Fault Message

/-- `std::size_t` arithmetic on a 64-bit target; negative integers convert modulo 2^64. -/
def u64 (n : ℤ) : ℕ := (n % 2 ^ 64).toNat

section BasicOutMessage

variable (ndebug : Bool) (maxPrefixSize : ℕ)

/-- The vector is created with zeroed cells for prefixes and capacity, then cut to the prefixes. -/
def basicOutMessage (capacity : ℕ) (uninitialised : Memory) : Message :=
  ⟨write uninitialised 0 (List.replicate (maxPrefixSize + capacity) 0), maxPrefixSize, maxPrefixSize⟩

def getBuffer (m : Message) : List UInt8 := slice m.cells m.prefixPos (u64 (m.size - m.prefixPos))

def getSize : OutM ℕ := do
  let m ← get
  check .assertion ndebug (m.prefixPos ≤ toInt32 m.size)
  pure (u64 (m.size - m.prefixPos))

/-- `width` is the size of the type of `v`. The assertion subtracts in `std::size_t`. -/
def addPrefix (width v : ℕ) : OutM Unit := do
  let m ← get
  check .assertion ndebug (0 ≤ u64 (m.prefixPos - width))
  modify fun m => { m with
    cells := write m.cells (m.prefixPos - width) (encodeLE width v)
    prefixPos := m.prefixPos - width }

/-- Growth at the end: `push_back`, `resize` followed by a store, `insert`. -/
def append (bytes : List UInt8) : OutM Unit :=
  modify fun m => { m with
    cells := write m.cells m.size bytes
    size := m.size + bytes.length }

def add (width v : ℕ) : OutM Unit := append (encodeLE width v)

def addByte (v : UInt8) : OutM Unit := append [v]
def addU16 (v : UInt16) : OutM Unit := add 2 v.toNat
def addU32 (v : UInt32) : OutM Unit := add 4 v.toNat
def addU64 (v : UInt64) : OutM Unit := add 8 v.toNat

/-- A `float` by its bit pattern. -/
def addFloat (bits : UInt32) : OutM Unit := add 4 bits.toNat

/-- A `double` by its bit pattern. -/
def addDouble (bits : UInt64) : OutM Unit := add 8 bits.toNat

/-- The length prefix is cut to 16 bits, the characters are all inserted. -/
def addString (str : List UInt8) : OutM Unit := do
  add 2 str.length
  append str

/-- Characters and an explicit 16-bit length, as in `add(const char*, uint16_t)`. -/
def addChars (str : List UInt8) (strSize : UInt16) : OutM Unit := do
  add 2 strSize.toNat
  append (str.take strSize.toNat)

/-- The characters of a C string: everything before the first NUL. -/
def cString (str : List UInt8) : List UInt8 := str.takeWhile (· ≠ 0)

def addCString (str : List UInt8) : OutM Unit :=
  addChars (cString str) (UInt16.ofNat (cString str).length)

def addRaw (raw : List UInt8) : OutM Unit := append raw

def addCRaw (raw : List UInt8) : OutM Unit := addRaw (cString raw)

def addPadding (count : ℕ) (value : UInt8) : OutM Unit := append (List.replicate count value)

end BasicOutMessage

def standardPrefixSize : ℕ := 8

section StandardOutMessage

variable (ndebug : Bool)

def standardOutMessage (uninitialised : Memory) : Message :=
  basicOutMessage standardPrefixSize 1024 uninitialised

def addHeader : OutM Unit := do
  let size ← getSize ndebug
  addPrefix ndebug 2 size

def xteaEncrypt (xtea : Xtea) : OutM Unit := do
  let size ← getSize ndebug
  addPadding (8 - size % 8) 0x33
  let size ← getSize ndebug
  modify fun m => { m with cells := xtea.encrypt m.cells m.prefixPos size }

/-- The first prefix has the width of `uint32_t`, the second that of `std::size_t`. -/
def encode : OutM Unit := do
  let size ← getSize ndebug
  check .assertion ndebug (toInt32 size ≠ 0) -- the first statement of `adler32`
  let m ← get
  addPrefix ndebug 4 (adler32 m.cells m.prefixPos (toInt32 size)).toNat
  let size ← getSize ndebug
  addPrefix ndebug 8 size

end StandardOutMessage

/-- The public append operations; `operator<<` is an alias of the typed ones. A call with a
pointer and a length is given by the characters it covers. -/
inductive AddOp where
  | addByte (v : UInt8)
  | addU16 (v : UInt16)
  | addU32 (v : UInt32)
  | addU64 (v : UInt64)
  | addFloat (bits : UInt32)
  | addDouble (bits : UInt64)
  | addString (str : List UInt8)
  | addCString (str : List UInt8)
  | addChars (str : List UInt8) (h : str.length < 2 ^ 16)
  | addRaw (raw : List UInt8)
  | addCRaw (raw : List UInt8)

def AddOp.exec : AddOp → OutM Unit
  | .addByte v => OutMessage.addByte v
  | .addU16 v => OutMessage.addU16 v
  | .addU32 v => OutMessage.addU32 v
  | .addU64 v => OutMessage.addU64 v
  | .addFloat bits => OutMessage.addFloat bits
  | .addDouble bits => OutMessage.addDouble bits
  | .addString str => OutMessage.addString str
  | .addCString str => OutMessage.addCString str
  | .addChars str _ => OutMessage.addChars str (UInt16.ofNat str.length)
  | .addRaw raw => OutMessage.addRaw raw
  | .addCRaw raw => OutMessage.addCRaw raw

/-- What an append operation puts at the end of the message. -/
def AddOp.bytes : AddOp → List UInt8
  | .addByte v => [v]
  | .addU16 v => encodeLE 2 v.toNat
  | .addU32 v => encodeLE 4 v.toNat
  | .addU64 v => encodeLE 8 v.toNat
  | .addFloat bits => encodeLE 4 bits.toNat
  | .addDouble bits => encodeLE 8 bits.toNat
  | .addString str => encodeLE 2 str.length ++ str
  | .addCString str =>
    encodeLE 2 (UInt16.ofNat (cString str).length).toNat ++
      (cString str).take (UInt16.ofNat (cString str).length).toNat
  | .addChars str _ => encodeLE 2 (UInt16.ofNat str.length).toNat ++
      str.take (UInt16.ofNat str.length).toNat
  | .addRaw raw => raw
  | .addCRaw raw => cString raw

def build : List AddOp → OutM Unit
  | [] => pure ()
  | op :: ops => do
    op.exec
    build ops

def payload (ops : List AddOp) : List UInt8 := ops.flatMap AddOp.bytes

section Specification

variable {m : Message}

/-- A message in its ordinary range: the cursor has not left the vector. -/
structure Holds (m : Message) (pos : ℕ) (bytes : List UInt8) : Prop where
  cursor : m.prefixPos = pos
  size : m.size = pos + bytes.length
  content : slice m.cells pos bytes.length = bytes

theorem u64_of_nat {n : ℤ} {k : ℕ} (h : n = k) (hk : k < 2 ^ 64) : u64 n = k := by
  subst h
  unfold u64
  omega

theorem Holds.getBuffer {pos : ℕ} {bytes : List UInt8} (h : Holds m pos bytes)
    (hs : bytes.length < 2 ^ 64) : getBuffer m = bytes := by
  have hc := h.cursor
  have hz := h.size
  rw [OutMessage.getBuffer, u64_of_nat (k := bytes.length) (by omega) hs, hc, h.content]

theorem append_holds {pos : ℕ} {bytes : List UInt8} (h : Holds m pos bytes) (more : List UInt8) :
    ∃ m', append more m = .ok () m' ∧ Holds m' pos (bytes ++ more) := by
  refine ⟨{ m with cells := write m.cells m.size more, size := m.size + more.length }, rfl,
    h.cursor, ?_, ?_⟩
  · simp only [List.length_append, h.size]
    omega
  · have hz : ((m.size : ℕ) : ℤ) = pos + bytes.length := by
      have := h.size
      omega
    rw [List.length_append, slice_add, hz, slice_write_same, slice_write_disjoint _ (by omega),
      h.content]

/-- A prefix that still fits extends the content on the left. -/
theorem addPrefix_holds (ndebug : Bool) (pos width : ℕ) {bytes : List UInt8}
    (h : Holds m (pos + width) bytes) (v : ℕ) :
    ∃ m', addPrefix ndebug width v m = .ok () m' ∧ Holds m' pos (encodeLE width v ++ bytes) := by
  have hc := h.cursor
  have hp : m.prefixPos - width = pos := by omega
  refine ⟨{ m with cells := write m.cells pos (encodeLE width v), prefixPos := pos }, ?_, rfl, ?_, ?_⟩
  · simp [addPrefix, bind_run, check_run, hp]
  · simp only [List.length_append, length_encodeLE, h.size]
    omega
  · have hsame := slice_write_of_length m.cells pos (length_encodeLE width v)
    have hrest : slice (write m.cells pos (encodeLE width v)) (pos + width) bytes.length = bytes := by
      rw [slice_write_disjoint _ (by rw [length_encodeLE]; omega)]
      simpa using h.content
    rw [List.length_append, length_encodeLE, slice_add, hsame, hrest]

theorem getSize_holds (ndebug : Bool) {pos : ℕ} {bytes : List UInt8} (h : Holds m pos bytes)
    (hs : pos + bytes.length < 2 ^ 31) : getSize ndebug m = .ok bytes.length m := by
  have hc := h.cursor
  have hz := h.size
  have ha : m.prefixPos ≤ toInt32 m.size := by
    rw [toInt32_of_lt (by omega)]
    omega
  simp [getSize, bind_run, check_run, ha, u64_of_nat (k := bytes.length)
    (show (m.size : ℤ) - m.prefixPos = bytes.length by omega) (by omega)]

theorem standardOutMessage_holds (uninitialised : Memory) :
    Holds (standardOutMessage uninitialised) standardPrefixSize [] :=
  ⟨rfl, rfl, rfl⟩

theorem two_appends_holds {pos : ℕ} {bytes : List UInt8} (h : Holds m pos bytes)
    (first second : List UInt8) :
    ∃ m', (do append first; append second : OutM Unit) m = .ok () m' ∧
      Holds m' pos (bytes ++ (first ++ second)) := by
  obtain ⟨m₁, h₁, hh₁⟩ := append_holds h first
  obtain ⟨m₂, h₂, hh₂⟩ := append_holds hh₁ second
  exact ⟨m₂, by rw [bind_ok h₁, h₂], by simpa using hh₂⟩

theorem exec_holds {pos : ℕ} {bytes : List UInt8} (h : Holds m pos bytes) (op : AddOp) :
    ∃ m', op.exec m = .ok () m' ∧ Holds m' pos (bytes ++ op.bytes) := by
  cases op with
  | addByte | addU16 | addU32 | addU64 | addFloat | addDouble | addRaw | addCRaw =>
    exact append_holds h _
  | addString | addCString | addChars => exact two_appends_holds h _ _

theorem build_holds {pos : ℕ} {bytes : List UInt8} (h : Holds m pos bytes) (ops : List AddOp) :
    ∃ m', build ops m = .ok () m' ∧ Holds m' pos (bytes ++ payload ops) := by
  induction ops generalizing m bytes with
  | nil => exact ⟨m, rfl, by simpa [payload] using h⟩
  | cons op ops ih =>
    obtain ⟨m₁, h₁, hh₁⟩ := exec_holds h op
    obtain ⟨m₂, h₂, hh₂⟩ := ih hh₁
    exact ⟨m₂, by rw [build, bind_ok h₁, h₂], by simpa [payload] using hh₂⟩

end Specification

end OutMessage

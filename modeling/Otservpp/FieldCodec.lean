import Mathlib.Data.List.TakeDrop
import Otservpp.FrameReads
import Otservpp.OutMessage

/-! # Fields written to one message and read from another

The typed `add` operations of outgoing messages against the getters of incoming ones, for any
sequence of fields that make up the rest of an incoming message. -/
namespace FieldCodec

open ByteMemory InMessage OutMessage ProgramLogic FrameReads

inductive Kind where
  | uint8
  | uint16
  | uint32
  | uint64
  | string
  deriving DecidableEq, Repr

inductive Value where
  | uint8 (v : UInt8)
  | uint16 (v : UInt16)
  | uint32 (v : UInt32)
  | uint64 (v : UInt64)
  | string (v : List UInt8)
  deriving DecidableEq, Repr

/-- A value and the overload that writes it. -/
inductive Field where
  | uint8 (v : UInt8)
  | uint16 (v : UInt16)
  | uint32 (v : UInt32)
  | uint64 (v : UInt64)
  | string (v : List UInt8)
  | chars (v : List UInt8) (h : v.length < 2 ^ 16)
  | cString (v : List UInt8)

def Field.op : Field → AddOp
  | .uint8 v => .addByte v
  | .uint16 v => .addU16 v
  | .uint32 v => .addU32 v
  | .uint64 v => .addU64 v
  | .string v => .addString v
  | .chars v h => .addChars v h
  | .cString v => .addCString v

def Field.value : Field → Value
  | .uint8 v => .uint8 v
  | .uint16 v => .uint16 v
  | .uint32 v => .uint32 v
  | .uint64 v => .uint64 v
  | .string v => .string v
  | .chars v _ => .string v
  | .cString v => .string (OutMessage.cString v)

def Field.kind : Field → Kind
  | .uint8 _ => .uint8
  | .uint16 _ => .uint16
  | .uint32 _ => .uint32
  | .uint64 _ => .uint64
  | .string _ => .string
  | .chars _ _ => .string
  | .cString _ => .string

def Kind.read : Kind → InM Value
  | .uint8 => do
    let v ← getByte
    pure (.uint8 v)
  | .uint16 => do
    let v ← getU16
    pure (.uint16 (UInt16.ofNat v))
  | .uint32 => do
    let v ← getU32
    pure (.uint32 (UInt32.ofNat v))
  | .uint64 => do
    let v ← getU64
    pure (.uint64 (UInt64.ofNat v))
  | .string => do
    let v ← getString
    pure (.string v)

def readAll : List Kind → InM (List Value)
  | [] => pure []
  | kind :: kinds => do
    let v ← kind.read
    let vs ← readAll kinds
    pure (v :: vs)

/-- The characters of a C string are cut like its length is. -/
def Field.written : Field → Value
  | .cString v => .string
      ((OutMessage.cString v).take (UInt16.ofNat (OutMessage.cString v).length).toNat)
  | f => f.value

section Reading

variable {m : InMessage.Message} {bytes xs ys : List UInt8}

/-- What is left to read of a message is a given sequence of bytes. -/
structure Remaining (m : InMessage.Message) (bytes : List UInt8) : Prop where
  content : slice m.buffer m.pos bytes.length = bytes
  extent : m.pos + bytes.length = m.size
  inBuffer : m.size ≤ bufferSize

theorem Remaining.bound (h : Remaining m bytes) : m.size ≤ 15342 := h.inBuffer

theorem Remaining.moved (h : Remaining m (xs ++ ys)) :
    slice m.buffer m.pos xs.length = xs ∧ Remaining (m.moved xs.length) ys := by
  have hsize := h.bound
  have hextent := h.extent
  have hcontent := h.content
  rw [List.length_append] at hextent hcontent
  rw [slice_add] at hcontent
  obtain ⟨hfirst, hrest⟩ := List.append_inj hcontent (length_slice _ _ _)
  have hpos : u32 (m.pos + xs.length) = m.pos + xs.length := u32_of_lt (by omega)
  refine ⟨hfirst, ?_, ?_, h.inBuffer⟩
  · rw [moved_buffer, moved_pos, hpos, Int.natCast_add]
    exact hrest
  · rw [moved_pos, hpos, moved_size]
    omega

theorem getNumber_remaining {w v : ℕ} (hv : v < 256 ^ w)
    (h : Remaining m (encodeLE w v ++ ys)) :
    getNumber w m = .ok v (m.moved w) ∧ Remaining (m.moved w) ys := by
  have hsize := h.bound
  have hextent := h.extent
  obtain ⟨hslice, hrest⟩ := h.moved
  rw [length_encodeLE] at hslice hrest
  rw [List.length_append, length_encodeLE] at hextent
  have hread : getNumber w m = .ok (decodeLE (slice m.buffer m.pos w)) (m.moved w) :=
    getNumber_ok (by omega) (by omega) (by rw [u32_of_lt (by omega)]; omega)
  rw [hslice, decode_encodeLE_of_lt hv] at hread
  exact ⟨hread, hrest⟩

theorem getByte_remaining {v : UInt8} (h : Remaining m (v :: ys)) :
    getByte m = .ok v (m.moved 1) ∧ Remaining (m.moved 1) ys := by
  have hsize := h.bound
  have hextent := h.extent
  rw [List.length_cons] at hextent
  have hfront : Remaining m ([v] ++ ys) := h
  obtain ⟨hslice, hrest⟩ := hfront.moved
  have hread := getByte_ok (m := m) (by omega) (by rw [u32_of_lt (by omega)]; omega)
  rw [List.length_singleton, slice_one, List.singleton_inj] at hslice
  rw [hslice] at hread
  exact ⟨hread, hrest⟩

theorem getString_remaining {cs : List UInt8} (hcs : cs.length < 2 ^ 16)
    (h : Remaining m (encodeLE 2 cs.length ++ cs ++ ys)) :
    ∃ m', getString m = .ok cs m' ∧ Remaining m' ys ∧ m'.size = m.size := by
  rw [List.append_assoc] at h
  obtain ⟨hlength, hrest⟩ := getNumber_remaining (w := 2) (by simpa using hcs) h
  have hsize := hrest.bound
  have hextent := hrest.extent
  rw [List.length_append] at hextent
  obtain ⟨hslice, hend⟩ := hrest.moved
  have hread : getStrChunck cs.length (m.moved 2) =
      .ok (slice (m.moved 2).buffer (m.moved 2).pos cs.length) ((m.moved 2).moved cs.length) :=
    getStrChunck_ok (by omega) (by omega) (by rw [u32_of_lt (by omega)]; omega)
  rw [hslice] at hread
  refine ⟨(m.moved 2).moved cs.length, ?_, hend, rfl⟩
  rw [getString, getU16, bind_ok hlength, hread]

/-- The getter of a field's kind undoes the field's `add` operation. -/
theorem read_field {f : Field} (h : Remaining m (f.op.bytes ++ ys)) :
    ∃ m', f.kind.read m = .ok f.written m' ∧ Remaining m' ys ∧ m'.size = m.size := by
  have hsize := h.bound
  have hextent := h.extent
  cases f with
  | uint8 v =>
    obtain ⟨hread, hrest⟩ := getByte_remaining h
    exact ⟨_, by rw [Field.kind, Kind.read, bind_ok hread]; rfl, hrest, rfl⟩
  | uint16 v =>
    obtain ⟨hread, hrest⟩ := getNumber_remaining (w := 2) v.toNat_lt h
    refine ⟨_, ?_, hrest, rfl⟩
    rw [Field.kind, Kind.read, getU16, bind_ok hread, UInt16.ofNat_toNat]
    rfl
  | uint32 v =>
    obtain ⟨hread, hrest⟩ := getNumber_remaining (w := 4) v.toNat_lt h
    refine ⟨_, ?_, hrest, rfl⟩
    rw [Field.kind, Kind.read, getU32, bind_ok hread, UInt32.ofNat_toNat]
    rfl
  | uint64 v =>
    obtain ⟨hread, hrest⟩ := getNumber_remaining (w := 8) v.toNat_lt h
    refine ⟨_, ?_, hrest, rfl⟩
    rw [Field.kind, Kind.read, getU64, bind_ok hread, UInt64.ofNat_toNat]
    rfl
  | string v =>
    have hlt : v.length < 2 ^ 16 := by
      simp only [Field.op, AddOp.bytes, List.length_append] at hextent
      omega
    obtain ⟨m', hread, hrest⟩ := getString_remaining hlt h
    exact ⟨m', by rw [Field.kind, Kind.read, bind_ok hread]; rfl, hrest⟩
  | chars v hv =>
    have hlength : (UInt16.ofNat v.length).toNat = v.length := UInt16.toNat_ofNat_of_lt' hv
    simp only [Field.op, AddOp.bytes, hlength, List.take_length] at h
    obtain ⟨m', hread, hrest⟩ := getString_remaining hv h
    exact ⟨m', by rw [Field.kind, Kind.read, bind_ok hread]; rfl, hrest⟩
  | cString v =>
    have hle : (UInt16.ofNat (OutMessage.cString v).length).toNat ≤ (OutMessage.cString v).length := by
      rw [UInt16.toNat_ofNat']
      exact Nat.mod_le _ _
    have hlength := List.length_take_of_le hle
    have hlt := (UInt16.ofNat (OutMessage.cString v).length).toNat_lt
    rw [Field.op, AddOp.bytes] at h
    generalize hcut : (OutMessage.cString v).take (UInt16.ofNat (OutMessage.cString v).length).toNat = cut at h hlength
    rw [← hlength] at h hlt
    obtain ⟨m', hread, hrest⟩ := getString_remaining hlt h
    exact ⟨m', by rw [Field.kind, Kind.read, bind_ok hread, Field.written, hcut]; rfl, hrest⟩

theorem readAll_fields {fs : List Field} (h : Remaining m (payload (fs.map Field.op) ++ ys)) :
    ∃ m', readAll (fs.map Field.kind) m = .ok (fs.map Field.written) m' ∧ Remaining m' ys ∧
      m'.size = m.size := by
  induction fs generalizing m with
  | nil => exact ⟨m, rfl, h, rfl⟩
  | cons f fs ih =>
    have hsplit : payload ((f :: fs).map Field.op) ++ ys =
        f.op.bytes ++ (payload (fs.map Field.op) ++ ys) := by
      simp [payload]
    rw [hsplit] at h
    obtain ⟨m₁, hfirst, hrest, hsize₁⟩ := read_field h
    obtain ⟨m₂, hall, hend, hsize₂⟩ := ih hrest
    refine ⟨m₂, ?_, hend, hsize₂.trans hsize₁⟩
    rw [List.map_cons, readAll, bind_ok hfirst, bind_ok hall]
    rfl

end Reading

section FurtherRead

variable {m : InMessage.Message}

/-- How far an operation first moves the cursor of a message that is read to its end. -/
def requested : Op → ℕ
  | .doChecksum => 4
  | .xteaDecrypt _ => 2
  | .getByte => 1
  | .getU16 => 2
  | .getU32 => 4
  | .getU64 => 8
  | .getString => 2
  | .getStrChunck bytes => bytes.toNat
  | .getRawChunck bytes => bytes.toNat
  | .skipBytes delta => delta.toNat

theorem past_end (h : Remaining m []) {n : ℕ} (hn : n < 2 ^ 32) :
    m.size < u32 (m.pos + n) ↔ 1 ≤ n ∧ m.size + n < 2 ^ 32 := by
  have hsize := h.bound
  have hextent := h.extent
  rw [List.length_nil] at hextent
  unfold u32
  omega

def Throws {α : Type} (x : InM α) (m : InMessage.Message) : Prop :=
  ∃ m', x m = .error .packetException m'

theorem Throws.bind {α β : Type} {x : InM α} (h : Throws x m) (f : α → InM β) :
    Throws (x >>= f) m := by
  obtain ⟨m', hx⟩ := h
  exact ⟨m', bind_error hx f⟩

theorem getNumber_throws (h : Remaining m []) {w : ℕ} (hw : 1 ≤ w ∧ w ≤ 8) :
    Throws (getNumber w) m := by
  have hsize := h.bound
  exact ⟨_, getNumber_error ((past_end h (by omega)).mpr (by omega))⟩

theorem xteaDecrypt_throws (ndebug : Bool) (xtea : Crypto.Xtea) (h : Remaining m []) :
    Throws (InMessage.xteaDecrypt ndebug xtea) m := by
  have hsize := h.bound
  have hextent := h.extent
  rw [List.length_nil] at hextent
  refine ⟨(decrypted xtea m).moved 2, ?_⟩
  rw [xteaDecrypt_asserted ndebug xtea (by omega) (by omega), if_neg (by omega), if_pos (by omega)]

/-- A request of at least one byte past the end throws unless it wraps the cursor around. -/
theorem further_read_throws (ndebug : Bool) (h : Remaining m []) (op : Op) :
    Throws (op.exec ndebug) m ↔ 1 ≤ requested op ∧ m.size + requested op < 2 ^ 32 := by
  have hsize := h.bound
  have hextent := h.extent
  rw [List.length_nil] at hextent
  have hfixed {n : ℕ} (hn : 1 ≤ n ∧ n ≤ 8) (hop : requested op = n)
      (hthrows : Throws (op.exec ndebug) m) :
      Throws (op.exec ndebug) m ↔ 1 ≤ requested op ∧ m.size + requested op < 2 ^ 32 := by
    rw [hop]
    exact iff_of_true hthrows (by omega)
  have hchunk {n : UInt32} (hop : requested op = n.toNat)
      (hok : u32 (m.pos + n.toNat) ≤ m.size → ¬ Throws (op.exec ndebug) m)
      (herror : m.size < u32 (m.pos + n.toNat) → Throws (op.exec ndebug) m) :
      Throws (op.exec ndebug) m ↔ 1 ≤ requested op ∧ m.size + requested op < 2 ^ 32 := by
    rw [hop, ← past_end h n.toNat_lt]
    exact ⟨fun hthrows => Nat.lt_of_not_le fun hle => hok hle hthrows, herror⟩
  cases op with
  | doChecksum =>
    exact hfixed (n := 4) (by omega) rfl
      (((getNumber_throws h (w := 4) (by omega)).bind _).bind _)
  | xteaDecrypt xtea => exact hfixed (n := 2) (by omega) rfl ((xteaDecrypt_throws ndebug xtea h).bind _)
  | getByte =>
    have hbyte : Throws InMessage.getByte m :=
      ⟨_, getByte_error ((past_end h (by omega)).mpr (by omega))⟩
    exact hfixed (n := 1) (by omega) rfl (hbyte.bind _)
  | getU16 => exact hfixed (n := 2) (by omega) rfl ((getNumber_throws h (by omega)).bind _)
  | getU32 => exact hfixed (n := 4) (by omega) rfl ((getNumber_throws h (by omega)).bind _)
  | getU64 => exact hfixed (n := 8) (by omega) rfl ((getNumber_throws h (by omega)).bind _)
  | getString => exact hfixed (n := 2) (by omega) rfl ((getNumber_throws h (by omega)).bind _)
  | getStrChunck n =>
    refine hchunk (n := n) rfl (fun hle => ?_) fun hlt => ⟨_, getStrChunck_error hlt⟩
    rintro ⟨m', hthrows⟩
    rw [Op.exec, getStrChunck_ok (by omega) n.toNat_lt hle] at hthrows
    cases hthrows
  | getRawChunck n =>
    refine hchunk (n := n) rfl (fun hle => ?_) fun hlt => ⟨_, bind_error (getRawChunckAs_error hlt) _⟩
    rintro ⟨m', hthrows⟩
    have hchunk := getRawChunckAs_ok (by omega) n.toNat_lt hle
    rw [Op.exec, InMessage.getRawChunck, bind_ok hchunk] at hthrows
    cases hthrows
  | skipBytes n =>
    have hmove := movePos_run n.toNat m
    refine hchunk (n := n) rfl (fun hle => ?_) fun hlt => ?_
    · rintro ⟨m', hthrows⟩
      rw [if_neg (by omega)] at hmove
      rw [Op.exec, InMessage.skipBytes, bind_ok hmove] at hthrows
      cases hthrows
    · rw [if_pos hlt] at hmove
      exact ⟨_, bind_error hmove _⟩

end FurtherRead

section RoundTrip

variable {fs : List Field} {out : OutMessage.Message} {m : InMessage.Message} {op : Op}

/-- The fields were written to a fresh message, whose size is a `std::size_t`, and what it holds
is all that is left to read of another. -/
structure Delivered (fs : List Field) (out : OutMessage.Message) (m : InMessage.Message) : Prop where
  built : ∃ maxPrefixSize capacity uninitialised,
    build (fs.map Field.op) (basicOutMessage maxPrefixSize capacity uninitialised) = .ok () out
  sized : out.size < 2 ^ 64
  remaining : Remaining m (getBuffer out)

/-- Reading gives the values back and leaves nothing, and whatever is read next throws. -/
def RoundTrips (ndebug : Bool) (fs : List Field) (m : InMessage.Message) (op : Op) : Prop :=
  ∃ m', readAll (fs.map Field.kind) m = .ok (fs.map Field.value) m' ∧
    getRemainingSize ndebug m' = .ok 0 m' ∧ Throws (op.exec ndebug) m'

theorem delivered_payload (h : Delivered fs out m) : getBuffer out = payload (fs.map Field.op) := by
  obtain ⟨maxPrefixSize, capacity, uninitialised, hbuild⟩ := h.built
  have hempty : Holds (basicOutMessage maxPrefixSize capacity uninitialised) maxPrefixSize [] :=
    ⟨rfl, rfl, rfl⟩
  obtain ⟨out', hrun, hholds⟩ := build_holds hempty (fs.map Field.op)
  rw [hbuild] at hrun
  cases hrun
  have hsize := hholds.size
  have hsized := h.sized
  exact hholds.getBuffer (by simp only [List.nil_append] at hsize ⊢; omega)

/-- A C string whose length does not fit into the length field. -/
def Field.Overlong : Field → Prop
  | .cString v => 2 ^ 16 ≤ (OutMessage.cString v).length
  | _ => False

theorem value_eq_written {f : Field} : f.value = f.written ↔ ¬ f.Overlong := by
  cases f with
  | cString v =>
    rw [Field.value, Field.written, Field.Overlong, Value.string.injEq, eq_comm,
      List.take_eq_self_iff, UInt16.toNat_ofNat']
    constructor
    · intro h hlong
      have hmod := Nat.mod_lt (OutMessage.cString v).length (show 0 < 2 ^ 16 by omega)
      omega
    · intro h
      rw [Nat.mod_eq_of_lt (by omega)]
  | uint8 | uint16 | uint32 | uint64 | string | chars => simp [Field.value, Field.written, Field.Overlong]

/-- For every sequence of fields that makes up the rest of a message, and every further read: the
round trip holds exactly when no C string is too long for its length field and the further read
asks for at least one byte without wrapping the cursor around. -/
theorem roundTrips_iff (ndebug : Bool) (h : Delivered fs out m) :
    RoundTrips ndebug fs m op ↔
      (∀ f ∈ fs, ¬ f.Overlong) ∧ 1 ≤ requested op ∧ m.size + requested op < 2 ^ 32 := by
  have hremaining := h.remaining
  rw [delivered_payload h, ← List.append_nil (payload _)] at hremaining
  obtain ⟨m', hread, hend, hsize⟩ := readAll_fields hremaining
  have hvalues : fs.map Field.value = fs.map Field.written ↔ ∀ f ∈ fs, ¬ f.Overlong := by
    rw [List.map_inj_left]
    exact forall₂_congr fun f _ => value_eq_written
  have hbound := hend.bound
  have hextent := hend.extent
  rw [List.length_nil] at hextent
  have hrem : getRemainingSize ndebug m' = .ok 0 m' := by
    rw [getRemainingSize_ok ndebug (by omega) (by omega)]
    congr 1
    omega
  rw [← hvalues, ← hsize, ← further_read_throws ndebug hend op]
  constructor
  · rintro ⟨m'', hall, -, hthrows⟩
    rw [hread] at hall
    injection hall with hsame hstate
    exact ⟨hsame.symm, hstate ▸ hthrows⟩
  · rintro ⟨hsame, hthrows⟩
    exact ⟨m', by rw [hread, hsame], hrem, hthrows⟩

def exampleFields : List Field := [.uint8 7, .string [97, 98], .uint32 5]

def exampleOut (fs : List Field) : OutMessage.Message :=
  after (build (fs.map Field.op)) (standardOutMessage fun _ => 0)

/-- A message whose first six bytes are read already. -/
def exampleIn (fs : List Field) : InMessage.Message :=
  ⟨write (fun _ => 0) 6 (getBuffer (exampleOut fs)), 6, 6 + (getBuffer (exampleOut fs)).length⟩

theorem exampleFields_delivered :
    Delivered exampleFields (exampleOut exampleFields) (exampleIn exampleFields) where
  built := ⟨8, 1024, fun _ => 0, rfl⟩
  sized := by decide +kernel
  remaining := ⟨slice_write_same _ _ _, rfl, by decide +kernel⟩

theorem roundTrips_iff_example : RoundTrips true exampleFields (exampleIn exampleFields) .getU16 ↔
    (∀ f ∈ exampleFields, ¬ f.Overlong) ∧ 1 ≤ requested .getU16 ∧
      (exampleIn exampleFields).size + requested .getU16 < 2 ^ 32 :=
  roundTrips_iff true exampleFields_delivered

/-- One byte was written and read. A request for all but one of 2 ^ 32 bytes then moves the cursor
back by one. -/
theorem wrapped_read_succeeds :
    Delivered [.uint8 7] (exampleOut [.uint8 7]) (exampleIn [.uint8 7]) ∧
      ¬ RoundTrips true [.uint8 7] (exampleIn [.uint8 7]) (.getRawChunck 0xFFFFFFFF) := by
  constructor
  · exact ⟨⟨8, 1024, fun _ => 0, rfl⟩, by decide +kernel, slice_write_same _ _ _, rfl,
      by decide +kernel⟩
  · rintro ⟨m', hread, -, m'', hthrows⟩
    have hone : Remaining (exampleIn [.uint8 7]) (payload ([Field.uint8 7].map Field.op) ++ []) :=
      ⟨by decide +kernel, by decide +kernel, by decide +kernel⟩
    obtain ⟨m₀, hread₀, hend, hsize⟩ := readAll_fields hone
    rw [hread₀] at hread
    injection hread with _ hstate
    subst hstate
    have hseven : (exampleIn [.uint8 7]).size = 7 := by decide +kernel
    have hextent := hend.extent
    rw [List.length_nil, hsize, hseven] at hextent
    have hpos : m₀.pos = 7 := hextent
    have hchunk : getRawChunckAs 4294967295 m₀ = .ok m₀.pos (m₀.moved 4294967295) :=
      getRawChunckAs_ok (by omega) (by omega) (by rw [hpos, hsize, hseven]; decide)
    rw [Op.exec, InMessage.getRawChunck, show (0xFFFFFFFF : UInt32).toNat = 4294967295 from rfl,
      bind_ok hchunk] at hthrows
    cases hthrows

end RoundTrip

end FieldCodec

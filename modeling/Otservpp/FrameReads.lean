import Otservpp.InMessage

/-! # Reads of one received frame

A frame is the two header bytes and the body that `async_read` stored. Clients then apply any
sequence of message operations until one throws. Assertions are compiled out here. The cursor
is attacker-independent only as far as the decrypted inner length is: the results below say
exactly which operations keep every read inside the frame. -/
namespace FrameReads

open ByteMemory Crypto ProgramLogic InMessage

inductive Op where
  | doChecksum
  | xteaDecrypt (xtea : Xtea)
  | getByte
  | getU16
  | getU32
  | getU64
  | getString
  | getStrChunck (bytes : UInt32)
  | getRawChunck (bytes : UInt32)
  | skipBytes (delta : UInt32)

/-- The operation together with the bytes it hands to its caller: those of a number in its
little-endian form, those a raw pointer gives access to. -/
def Op.exec (ndebug : Bool) : Op → InM (List UInt8)
  | .doChecksum => do InMessage.doChecksum ndebug; pure []
  | .xteaDecrypt xtea => do InMessage.xteaDecrypt ndebug xtea; pure []
  | .getByte => do let v ← InMessage.getByte; pure [v]
  | .getU16 => do let v ← InMessage.getU16; pure (encodeLE 2 v)
  | .getU32 => do let v ← InMessage.getU32; pure (encodeLE 4 v)
  | .getU64 => do let v ← InMessage.getU64; pure (encodeLE 8 v)
  | .getString => InMessage.getString
  | .getStrChunck bytes => InMessage.getStrChunck bytes.toNat
  | .getRawChunck bytes => do
    let p ← InMessage.getRawChunck bytes.toNat
    let m ← get
    pure (slice m.buffer p bytes.toNat)
  | .skipBytes delta => do InMessage.skipBytes delta.toNat; pure []

/-- `async_read` fills the given buffer exactly. -/
def fill (b : Buffer) (bs : List UInt8) (m : Message) : Message :=
  { m with buffer := write m.buffer b.data bs }

def bufferSize : ℕ := standardHeaderSize + standardMaxBodySize

structure FrameInvariant (n : ℕ) (m : Message) : Prop where
  cursor : m.pos ≤ m.size
  extent : m.size ≤ standardHeaderSize + n
  fits : standardHeaderSize + n ≤ bufferSize

/-- The returned bytes are those the frame holds at some place at or after the cursor. -/
def Inside (n : ℕ) (m : Message) (bytes : List UInt8) : Prop :=
  ∃ a, m.pos ≤ a ∧ a + bytes.length ≤ standardHeaderSize + n ∧
    bytes = slice m.buffer a bytes.length

/-- Every state of the run is inside the frame and so is every returned byte, until an
operation throws. -/
def ReadsInside (n : ℕ) : Message → List Op → Prop
  | m, [] => FrameInvariant n m
  | m, op :: ops => FrameInvariant n m ∧
    match op.exec true m with
    | .ok bytes m' => Inside n m bytes ∧ ReadsInside n m' ops
    | .error _ _ => True

/-- What an operation needs of the state before it. -/
def Guard (n : ℕ) (m : Message) : Op → Prop
  | .xteaDecrypt xtea => m.pos + innerLength xtea m ≤ n
  | .getStrChunck bytes => m.pos + bytes.toNat < 2 ^ 32
  | .getRawChunck bytes => m.pos + bytes.toNat < 2 ^ 32
  | _ => True

def Guarded (n : ℕ) : Message → List Op → Prop
  | _, [] => True
  | m, op :: ops =>
    match op.exec true m with
    | .ok _ m' => Guard n m op ∧ Guarded n m' ops
    | .error _ _ => True

section Step

variable {n : ℕ} {m m' : Message} {bytes : List UInt8}

theorem invariant_bounds (h : FrameInvariant n m) :
    m.pos ≤ m.size ∧ m.size ≤ 2 + n ∧ 2 + n ≤ 15342 :=
  ⟨h.cursor, h.extent, h.fits⟩

/-- A cursor move by `k` bytes that does not wrap stays inside. -/
theorem invariant_moved (h : FrameInvariant n m) {k : ℕ} (hk : u32 (m.pos + k) ≤ m.size) :
    FrameInvariant n (m.moved k) :=
  ⟨hk, h.extent, h.fits⟩

theorem inside_slice (h : FrameInvariant n m) {k : ℕ} (hw : m.pos + k < 2 ^ 32)
    (hk : u32 (m.pos + k) ≤ m.size) : Inside n m (slice m.buffer m.pos k) := by
  have hb := h.extent
  rw [u32_of_lt hw] at hk
  refine ⟨m.pos, le_rfl, ?_, ?_⟩
  · rw [length_slice]
    omega
  · rw [length_slice]

theorem inside_nil (h : FrameInvariant n m) : Inside n m [] :=
  ⟨m.pos, le_rfl, h.cursor.trans h.extent, rfl⟩

/-- The last byte a chunk request covers lies inside only if the request did not wrap. -/
theorem inside_length (h : Inside n m bytes) : m.pos + bytes.length ≤ standardHeaderSize + n := by
  obtain ⟨a, ha, hb, _⟩ := h
  omega

theorem number_step (h : FrameInvariant n m) {w : ℕ} (hw : w ≤ 8)
    (hx : (do let v ← getNumber w; pure (encodeLE w v) : InM (List UInt8)) m = .ok bytes m') :
    FrameInvariant n m' ∧ Inside n m bytes := by
  obtain ⟨hc, he, hf⟩ := invariant_bounds h
  by_cases hs : u32 (m.pos + w) ≤ m.size
  · rw [bind_ok (getNumber_ok (by omega) (by omega) hs)] at hx
    have hv := encode_decodeLE (slice m.buffer m.pos w)
    rw [length_slice] at hv
    rw [hv] at hx
    cases hx
    exact ⟨invariant_moved h hs, inside_slice h (by omega) hs⟩
  · rw [bind_error (getNumber_error (by omega))] at hx
    cases hx

theorem chunk_step (h : FrameInvariant n m) {k : UInt32}
    (hx : InMessage.getStrChunck k.toNat m = .ok bytes m') :
    (FrameInvariant n m' ∧ Inside n m bytes ↔ m.pos + k.toNat < 2 ^ 32) := by
  obtain ⟨hc, he, hf⟩ := invariant_bounds h
  have hk := k.toNat_lt
  by_cases hs : u32 (m.pos + k.toNat) ≤ m.size
  · rw [getStrChunck_ok (by omega) hk hs] at hx
    cases hx
    constructor
    · rintro ⟨_, hin⟩
      have hl := inside_length hin
      rw [length_slice, standardHeaderSize] at hl
      omega
    · intro hw
      exact ⟨invariant_moved h hs, inside_slice h hw hs⟩
  · rw [getStrChunck_error (by omega)] at hx
    cases hx

/-- The pointer of `getRawChunck` gives access to what `getStrChunck` would copy. -/
theorem exec_getRawChunck (k : UInt32) :
    (Op.getRawChunck k).exec true = (Op.getStrChunck k).exec true := rfl

theorem skip_step (h : FrameInvariant n m) {k : ℕ} {u : Unit}
    (hx : InMessage.skipBytes k m = .ok u m') : FrameInvariant n m' := by
  rw [skipBytes, movePos_run] at hx
  split at hx
  · cases hx
  · rename_i hs
    cases hx
    exact invariant_moved h (by omega)

theorem byte_step (h : FrameInvariant n m) {v : UInt8}
    (hx : InMessage.getByte m = .ok v m') : FrameInvariant n m' ∧ Inside n m [v] := by
  obtain ⟨hc, he, hf⟩ := invariant_bounds h
  by_cases hs : u32 (m.pos + 1) ≤ m.size
  · rw [getByte_ok (by omega) hs] at hx
    cases hx
    have hin := inside_slice h (k := 1) (by omega) hs
    rw [slice_one] at hin
    exact ⟨invariant_moved h hs, hin⟩
  · rw [getByte_error (by omega)] at hx
    cases hx

theorem string_step (h : FrameInvariant n m)
    (hx : InMessage.getString m = .ok bytes m') : FrameInvariant n m' ∧ Inside n m bytes := by
  obtain ⟨hc, he, hf⟩ := invariant_bounds h
  by_cases hs : u32 (m.pos + 2) ≤ m.size
  · have hlen := decodeLE_lt (slice m.buffer m.pos 2)
    rw [length_slice] at hlen
    rw [InMessage.getString, getU16, bind_ok (getNumber_ok (by omega) (by omega) hs)] at hx
    generalize hk : decodeLE (slice m.buffer m.pos 2) = k at hx hlen
    have h2 := invariant_moved h hs
    have hp : (m.moved 2).pos = m.pos + 2 := u32_of_lt (by omega)
    by_cases hs' : u32 ((m.moved 2).pos + k) ≤ (m.moved 2).size
    · rw [getStrChunck_ok (u32_lt _) (by omega) hs'] at hx
      cases hx
      refine ⟨invariant_moved h2 hs', ?_⟩
      obtain ⟨a, ha, hb, hbytes⟩ := inside_slice h2 (by rw [hp]; omega) hs'
      exact ⟨a, by omega, hb, hbytes⟩
    · rw [getStrChunck_error (by omega)] at hx
      cases hx
  · rw [InMessage.getString, getU16, bind_error (getNumber_error (by omega))] at hx
    cases hx

theorem checksum_step (h : FrameInvariant n m) {u : Unit}
    (hx : InMessage.doChecksum true m = .ok u m') : FrameInvariant n m' := by
  obtain ⟨hc, he, hf⟩ := invariant_bounds h
  rw [doChecksum_run hc (by omega)] at hx
  split at hx
  · cases hx
  · rename_i hs
    split at hx
    · cases hx
    · cases hx
      exact invariant_moved h (by rw [u32_of_lt (by omega)]; omega)

theorem decrypt_step (h : FrameInvariant n m) {xtea : Xtea} {u : Unit}
    (hx : InMessage.xteaDecrypt true xtea m = .ok u m') :
    FrameInvariant n m' ↔ m.pos + innerLength xtea m ≤ n := by
  obtain ⟨hc, he, hf⟩ := invariant_bounds h
  rw [xteaDecrypt_run xtea hc (by omega)] at hx
  split at hx
  · cases hx
  · split at hx
    · cases hx
    · cases hx
      constructor
      · intro h'
        have hext : m.pos + 2 + innerLength xtea m ≤ 2 + n := h'.extent
        omega
      · intro hg
        exact ⟨Nat.le_add_right _ _, show m.pos + 2 + innerLength xtea m ≤ 2 + n by omega, h.fits⟩

/-- One successful operation stays inside exactly when its guard held before it. -/
theorem exec_step (h : FrameInvariant n m) (op : Op) (hx : op.exec true m = .ok bytes m') :
    (FrameInvariant n m' ∧ Inside n m bytes ↔ Guard n m op) := by
  cases op with
  | doChecksum =>
    obtain ⟨u, t, hx, ht⟩ := bind_eq_ok.mp hx
    cases ht
    exact iff_of_true ⟨checksum_step h hx, inside_nil h⟩ trivial
  | xteaDecrypt xtea =>
    obtain ⟨u, t, hx, ht⟩ := bind_eq_ok.mp hx
    cases ht
    rw [decrypt_step h hx, Guard, and_iff_left (inside_nil h)]
  | getByte =>
    obtain ⟨v, t, hx, ht⟩ := bind_eq_ok.mp hx
    cases ht
    exact iff_of_true (byte_step h hx) trivial
  | getU16 => exact iff_of_true (number_step h (by omega) hx) trivial
  | getU32 => exact iff_of_true (number_step h (by omega) hx) trivial
  | getU64 => exact iff_of_true (number_step h (by omega) hx) trivial
  | getString => exact iff_of_true (string_step h hx) trivial
  | getStrChunck k => exact chunk_step h hx
  | getRawChunck k =>
    rw [exec_getRawChunck] at hx
    exact chunk_step h hx
  | skipBytes k =>
    obtain ⟨u, t, hx, ht⟩ := bind_eq_ok.mp hx
    cases ht
    exact iff_of_true ⟨skip_step h hx, inside_nil h⟩ trivial

/-- Over a whole run: the invariant and the returned bytes stay inside the frame exactly when
every operation that succeeds met its guard. -/
theorem run_inside_iff (h : FrameInvariant n m) (ops : List Op) :
    ReadsInside n m ops ↔ Guarded n m ops := by
  induction ops generalizing m with
  | nil => exact iff_of_true h trivial
  | cons op ops ih =>
    rw [ReadsInside, Guarded]
    cases hx : op.exec true m with
    | error e t => exact iff_of_true ⟨h, trivial⟩ trivial
    | ok bytes t =>
      have hstep := exec_step h op hx
      constructor
      · rintro ⟨_, hin, hrest⟩
        have ht : FrameInvariant n t := by
          cases ops with
          | nil => exact hrest
          | cons => exact hrest.1
        exact ⟨hstep.mp ⟨ht, hin⟩, (ih ht).mp hrest⟩
      · rintro ⟨hg, hrest⟩
        obtain ⟨ht, hin⟩ := hstep.mpr hg
        exact ⟨h, hin, (ih ht).mpr hrest⟩

end Step

/-- The message after all operations, when none of them throws. -/
def finish : List Op → Message → Option Message
  | [], m => some m
  | op :: ops, m =>
    match op.exec true m with
    | .ok _ m' => finish ops m'
    | .error _ _ => none

theorem finish_invariant {n : ℕ} {m m' : Message} {ops : List Op}
    (h : ReadsInside n m ops) (hf : finish ops m = some m') : FrameInvariant n m' := by
  induction ops generalizing m with
  | nil =>
    cases hf
    exact h
  | cons op ops ih =>
    rw [ReadsInside] at h
    rw [finish] at hf
    cases hx : op.exec true m with
    | error e t =>
      rw [hx] at hf
      cases hf
    | ok bytes t =>
      rw [hx] at h hf
      exact ih h.2.2 hf

/-- A fresh message after a header that `parseHeaderAndGetBodyBuffer` accepts and a body of
the size it asks for. -/
def receive (ndebug : Bool) (uninitialised : Memory) (header body : List UInt8) : Option Message :=
  match parseHeaderAndGetBodyBuffer ndebug
    (fill (getHeaderBuffer standardHeaderSize) header (standardInMessage uninitialised)) with
  | .ok buffer m => if body.length = buffer.size then some (fill buffer body m) else none
  | .error _ _ => none

theorem sizeField_header (uninitialised : Memory) {header : List UInt8}
    (hheader : header.length = 2) :
    sizeField (fill (getHeaderBuffer standardHeaderSize) header (standardInMessage uninitialised)) =
      decodeLE header :=
  congrArg decodeLE (slice_write_of_length uninitialised 0 hheader)

/-- A frame is received when its header asks for the body and passes the checks on its size. -/
theorem receive_some_iff {ndebug : Bool} {uninitialised : Memory} {header body : List UInt8}
    {m : Message} :
    receive ndebug uninitialised header body = some m ↔
      (8 ≤ body.length ∧ body.length ≤ standardMaxBodySize) ∧
        (ndebug ∨ 2 + body.length ≤ standardMaxBodySize) ∧
        sizeField (fill (getHeaderBuffer standardHeaderSize) header
          (standardInMessage uninitialised)) = body.length ∧
        m = ⟨write (write uninitialised 0 header) 2 body, 2, 2 + body.length⟩ := by
  rw [receive, parseHeader_at_start ndebug rfl (le_refl 2)]
  constructor
  · intro h
    split_ifs at h with hsize hassert
    · simp only at h
      split_ifs at h with hlen
      cases h
      rw [← hlen] at hsize hassert
      exact ⟨by omega, hassert, hlen.symm, by rw [hlen]; rfl⟩
  · rintro ⟨hsize, hassert, hfield, rfl⟩
    rw [hfield, if_neg (by omega), if_pos hassert]
    exact if_pos rfl

theorem receive_invariant {ndebug : Bool} {uninitialised : Memory} {header body : List UInt8}
    {m : Message} (h : receive ndebug uninitialised header body = some m) :
    FrameInvariant body.length m := by
  obtain ⟨hsize, -, -, rfl⟩ := receive_some_iff.mp h
  exact ⟨Nat.le_add_right 2 _, le_refl _, Nat.add_le_add_left hsize.2 2⟩

/-- A frame whose header states the size of its body is accepted and stored as it is. -/
theorem receive_eq (ndebug : Bool) (uninitialised : Memory) (body : List UInt8)
    (hmin : 8 ≤ body.length) (hmax : body.length ≤ standardMaxBodySize)
    (hassert : ndebug ∨ 2 + body.length ≤ standardMaxBodySize) :
    receive ndebug uninitialised (encodeLE 2 body.length) body = some
      ⟨write (write uninitialised 0 (encodeLE 2 body.length)) 2 body, 2, 2 + body.length⟩ := by
  refine receive_some_iff.mpr ⟨⟨hmin, hmax⟩, hassert, ?_, rfl⟩
  unfold standardMaxBodySize at hmax
  rw [sizeField_header uninitialised (length_encodeLE 2 _), decode_encodeLE_of_lt (by omega)]

/-- For every received frame, key and sequence of operations: the reads stay inside the frame
exactly when no successful `xteaDecrypt` found an inner length past the end of the frame and
no successful chunk request wrapped the cursor around. -/
theorem reads_inside_frame_iff {uninitialised : Memory} {header body : List UInt8} {m : Message}
    (h : receive true uninitialised header body = some m) (ops : List Op) :
    ReadsInside body.length m ops ↔ Guarded body.length m ops :=
  run_inside_iff (receive_invariant h) ops

/-- Twelve body bytes whose checksum is right and whose one cipher block decrypts under the
zero key to the inner length 65535. -/
def overlongBody : List UInt8 := [247, 1, 127, 10, 172, 12, 80, 19, 121, 10, 42, 46]

def zeroKey : Xtea := ⟨fun _ => 0⟩

def overlongMessage : Message :=
  ⟨write (write (fun _ => 0) 0 [12, 0]) 2 overlongBody, 2, 14⟩

theorem overlong_received :
    receive true (fun _ => 0) [12, 0] overlongBody = some overlongMessage :=
  receive_eq true (fun _ => 0) overlongBody (by decide) (by decide) (Or.inl rfl)

theorem reads_inside_frame_iff_example :
    receive true (fun _ => 0) [12, 0] overlongBody = some overlongMessage ∧
      ReadsInside 12 overlongMessage [.getU32, .getStrChunck 8] :=
  ⟨overlong_received, (reads_inside_frame_iff overlong_received _).mpr
    ⟨trivial, show 6 + 8 < 2 ^ 32 by decide, trivial⟩⟩

theorem overlong_finish :
    (finish [.doChecksum, .xteaDecrypt zeroKey] overlongMessage).map (·.size) = some 65543 := by
  decide +kernel

/-- The decrypted length is trusted: after it the message claims 65529 bytes past its frame. -/
theorem overlong_inner_length_leaves_frame :
    receive true (fun _ => 0) [12, 0] overlongBody = some overlongMessage ∧
      ¬ ReadsInside 12 overlongMessage [.doChecksum, .xteaDecrypt zeroKey] := by
  refine ⟨overlong_received, ?_⟩
  intro h
  obtain ⟨m', hm, hs⟩ := Option.map_eq_some_iff.mp overlong_finish
  have he := (finish_invariant h hm).extent
  rw [hs] at he
  exact absurd he (by decide)

section Cursor

/-- The cursor is a 32-bit number, whatever is read. -/
def CursorKept (m m' : Message) : Prop := m.pos < 2 ^ 32 → m'.pos < 2 ^ 32

instance : IsPreorder Message CursorKept where
  refl _ := id
  trans _ _ _ h k := fun hm => k (h hm)

theorem assert_cursor (ndebug p : Bool) : Evolves CursorKept (assert ndebug p) :=
  Evolves.ite (fun _ => evolves_pure _) (fun _ => evolves_throw _)

theorem movePos_cursor (bytes : ℕ) : Evolves CursorKept (movePos bytes) := by
  intro m hm
  unfold after
  rw [movePos_run]
  split_ifs
  · exact u32_lt _
  · exact u32_lt _

theorem getRawChunckAs_cursor (bytes : ℕ) : Evolves CursorKept (getRawChunckAs bytes) :=
  (movePos_cursor bytes).bind fun _ => evolves_get.bind fun _ => evolves_pure _

theorem getNumber_cursor (width : ℕ) : Evolves CursorKept (getNumber width) :=
  (getRawChunckAs_cursor width).bind fun _ => evolves_get.bind fun _ => evolves_pure _

theorem getStrChunck_cursor (bytes : ℕ) : Evolves CursorKept (getStrChunck bytes) :=
  (getRawChunckAs_cursor bytes).bind fun _ => evolves_get.bind fun _ => evolves_pure _

theorem getRemainingSize_cursor (ndebug : Bool) : Evolves CursorKept (getRemainingSize ndebug) :=
  evolves_get.bind fun _ => (assert_cursor _ _).bind fun _ => evolves_pure _

theorem peekRawChunckAs_cursor (bytes : ℕ) : Evolves CursorKept (peekRawChunckAs bytes) :=
  evolves_get.bind fun _ => Evolves.ite (fun _ => evolves_throw _) (fun _ => evolves_pure _)

theorem setRemainingSize_cursor (ndebug : Bool) (maxBodySize bytes : ℕ) :
    Evolves CursorKept (setRemainingSize ndebug maxBodySize bytes) :=
  evolves_get.bind fun _ => (assert_cursor _ _).bind fun _ => evolves_modify fun _ => id

theorem doChecksum_cursor (ndebug : Bool) : Evolves CursorKept (doChecksum ndebug) :=
  (getNumber_cursor 4).bind fun _ => (getRemainingSize_cursor ndebug).bind fun _ =>
    (peekRawChunckAs_cursor _).bind fun _ => (assert_cursor _ _).bind fun _ =>
      evolves_get.bind fun _ => Evolves.ite (fun _ => evolves_throw _) (fun _ => evolves_pure _)

theorem xteaDecrypt_cursor (ndebug : Bool) (xtea : Xtea) :
    Evolves CursorKept (xteaDecrypt ndebug xtea) := by
  have hrest (size : ℕ) : Evolves CursorKept (do
      let p ← peekRawChunckAs size
      modify fun m => { m with buffer := xtea.decrypt m.buffer p size }
      let n ← getU16
      setRemainingSize ndebug standardMaxBodySize n) :=
    (peekRawChunckAs_cursor size).bind fun _ => Evolves.bind (evolves_modify fun _ => id) fun _ =>
      (getNumber_cursor 2).bind fun _ => setRemainingSize_cursor ndebug _ _
  exact (getRemainingSize_cursor ndebug).bind fun _ =>
    Evolves.ite (fun _ => Evolves.bind (evolves_throw _) fun _ => hrest _) (fun _ => hrest _)

theorem exec_cursor (ndebug : Bool) (op : Op) : Evolves CursorKept (op.exec ndebug) := by
  cases op with
  | doChecksum => exact (doChecksum_cursor ndebug).bind fun _ => evolves_pure _
  | xteaDecrypt xtea => exact (xteaDecrypt_cursor ndebug xtea).bind fun _ => evolves_pure _
  | getByte =>
    exact ((movePos_cursor 1).bind fun _ => evolves_get.bind fun _ => evolves_pure _).bind fun _ =>
      evolves_pure _
  | getU16 => exact (getNumber_cursor 2).bind fun _ => evolves_pure _
  | getU32 => exact (getNumber_cursor 4).bind fun _ => evolves_pure _
  | getU64 => exact (getNumber_cursor 8).bind fun _ => evolves_pure _
  | getString => exact (getNumber_cursor 2).bind fun _ => getStrChunck_cursor _
  | getStrChunck bytes => exact getStrChunck_cursor _
  | getRawChunck bytes =>
    exact (getRawChunckAs_cursor _).bind fun _ => evolves_get.bind fun _ => evolves_pure _
  | skipBytes delta => exact (movePos_cursor _).bind fun _ => evolves_pure _

/-- The cursor after a header that parses. -/
theorem parse_cursor {ndebug : Bool} {m m' : Message} {buffer : Buffer} (hm : m.pos < 2 ^ 32)
    (h : parseHeaderAndGetBodyBuffer ndebug m = .ok buffer m') :
    m'.pos = u32 (m.pos + 2) ∧ u32 (m.pos + 2) ≤ m.size := by
  by_cases hs : u32 (m.pos + 2) ≤ m.size
  · refine ⟨?_, hs⟩
    rw [parseHeaderAndGetBodyBuffer, getU16, bind_ok (getNumber_ok hm (by omega) hs)] at h
    split_ifs at h
    · cases h
    · obtain ⟨_, t, hset, hbuffer⟩ := bind_eq_ok.mp h
      rw [setRemainingSize_run] at hset
      split_ifs at hset
      cases hset
      rw [getBodyBuffer, bind_ok (get_run _)] at hbuffer
      obtain ⟨_, t, hassert, hpure⟩ := bind_eq_ok.mp hbuffer
      rw [assert, check_run] at hassert
      split_ifs at hassert
      cases hassert
      cases hpure
      rfl
  · rw [parseHeaderAndGetBodyBuffer, getU16, bind_error (getNumber_error (by omega))] at h
    cases h

end Cursor

end FrameReads

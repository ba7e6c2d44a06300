import Otservpp.WireFormat

/-! # Prefixes in front of the appended bytes

A sequence of `addPrefix` and append operations on one message: what the buffer then is, when
its length fields are true, and when the reserved cells are kept. -/
namespace OutPrefixes

open ByteMemory Crypto ProgramLogic OutMessage WireFormat

/-- Everything that changes a `BasicOutMessage`; `width` is the size of the prefix's type. -/
inductive Op where
  | addPrefix (width v : ℕ)
  | append (op : AddOp)
  | addPadding (count : ℕ) (value : UInt8)

def Op.exec (ndebug : Bool) : Op → OutM Unit
  | .addPrefix width v => OutMessage.addPrefix ndebug width v
  | .append op => op.exec
  | .addPadding count value => OutMessage.addPadding count value

def run (ndebug : Bool) : List Op → OutM Unit
  | [] => pure ()
  | op :: ops => do
    op.exec ndebug
    run ndebug ops

def Op.width : Op → ℕ
  | .addPrefix width _ => width
  | .append _ | .addPadding _ _ => 0

def Op.prefixed : Op → List UInt8
  | .addPrefix width v => encodeLE width v
  | .append _ | .addPadding _ _ => []

def Op.appended : Op → List UInt8
  | .addPrefix _ _ => []
  | .append op => op.bytes
  | .addPadding count value => List.replicate count value

def prefixTotal : List Op → ℕ
  | [] => 0
  | op :: ops => op.width + prefixTotal ops

def appendedBytes (ops : List Op) : List UInt8 := ops.flatMap Op.appended

/-- The last prefix comes first, the appended bytes follow in their order. -/
def representation (ops : List Op) : List UInt8 :=
  ops.reverse.flatMap Op.prefixed ++ appendedBytes ops

section Representation

variable {m : Message} {ndebug : Bool} {ops : List Op}

theorem length_prefixed (op : Op) : op.prefixed.length = op.width := by
  cases op with
  | addPrefix => exact length_encodeLE _ _
  | append | addPadding => rfl

theorem length_representation (ops : List Op) :
    (representation ops).length = prefixTotal ops + (appendedBytes ops).length := by
  have hprefixes : (ops.reverse.flatMap Op.prefixed).length = prefixTotal ops := by
    induction ops with
    | nil => rfl
    | cons op ops ih =>
      rw [List.reverse_cons, List.flatMap_append, List.length_append, ih, List.flatMap_singleton,
        length_prefixed, prefixTotal, Nat.add_comm]
  rw [representation, List.length_append, hprefixes]

theorem exec_holds (ndebug : Bool) {pos : ℕ} {bytes : List UInt8} (op : Op)
    (h : Holds m (pos + op.width) bytes) :
    ∃ m', op.exec ndebug m = .ok () m' ∧ Holds m' pos (op.prefixed ++ bytes ++ op.appended) := by
  cases op with
  | addPrefix width v =>
    obtain ⟨m', hm, hh⟩ := addPrefix_holds ndebug pos width h v
    exact ⟨m', hm, by simpa [Op.prefixed, Op.appended] using hh⟩
  | append op => exact OutMessage.exec_holds h op
  | addPadding count value => exact append_holds h _

theorem run_holds (ndebug : Bool) {pos : ℕ} {bytes : List UInt8}
    (h : Holds m (pos + prefixTotal ops) bytes) :
    ∃ m', run ndebug ops m = .ok () m' ∧
      Holds m' pos (ops.reverse.flatMap Op.prefixed ++ bytes ++ appendedBytes ops) := by
  induction ops generalizing m bytes with
  | nil => exact ⟨m, rfl, by simpa [appendedBytes, prefixTotal] using h⟩
  | cons op ops ih =>
    have htotal : pos + prefixTotal (op :: ops) = pos + prefixTotal ops + op.width := by
      rw [prefixTotal]
      omega
    rw [htotal] at h
    obtain ⟨m₁, h₁, hh₁⟩ := exec_holds ndebug op h
    obtain ⟨m₂, h₂, hh₂⟩ := ih hh₁
    refine ⟨m₂, by rw [run, bind_ok h₁, h₂], ?_⟩
    simpa [appendedBytes] using hh₂

/-- `getSize` narrows the size of the vector to `int` before it compares. -/
theorem getSize_iff {pos : ℕ} {bytes : List UInt8} (h : Holds m pos bytes)
    (hsized : pos + bytes.length < 2 ^ 64) :
    getSize ndebug m = .ok bytes.length m ↔
      ndebug = true ∨ (pos : ℤ) ≤ toInt32 (pos + bytes.length) := by
  have hsize := h.size
  have hlength : u64 ((m.size : ℤ) - pos) = bytes.length := u64_of_nat (by omega) (by omega)
  have hrun : getSize ndebug m =
      if ndebug || decide ((pos : ℤ) ≤ toInt32 (pos + bytes.length)) then .ok bytes.length m
      else .error .assertion m := by
    rw [getSize, bind_ok (get_run m), h.cursor, hlength, hsize, bind_run, check_run]
    cases ndebug || decide ((pos : ℤ) ≤ toInt32 (pos + bytes.length)) with
    | false | true => rfl
  rw [hrun]
  split
  · next hpass => simpa using hpass
  · next hfail => simpa using hfail

structure Represents (ndebug : Bool) (ops : List Op) (m : Message) : Prop where
  buffer : getBuffer m = representation ops
  size : getSize ndebug m = .ok (representation ops).length m

theorem exists_represents_iff {pos : ℕ} (h : Holds m (pos + prefixTotal ops) [])
    (hsized : pos + (representation ops).length < 2 ^ 64) :
    (∃ m', run ndebug ops m = .ok () m' ∧ Represents ndebug ops m') ↔
      ndebug = true ∨ (pos : ℤ) ≤ toInt32 (pos + (representation ops).length) := by
  obtain ⟨m', hrun, hholds⟩ := run_holds ndebug h
  rw [List.append_nil, ← representation] at hholds
  rw [← getSize_iff hholds hsized]
  constructor
  · rintro ⟨m'', hrun', hrepresents⟩
    rw [hrun] at hrun'
    cases hrun'
    exact hrepresents.size
  · intro hsize
    exact ⟨m', hrun, hholds.getBuffer (by omega), hsize⟩

/-- For every interleaving: the message is what was put into it, except that in a debug build the
assertion of `getSize` must still find the vector's size in an `int`. -/
theorem represented_iff (ndebug : Bool) {maxPrefixSize : ℕ} (capacity : ℕ)
    (uninitialised : Memory) {ops : List Op} (htotal : prefixTotal ops ≤ maxPrefixSize)
    (hsized : maxPrefixSize + (appendedBytes ops).length < 2 ^ 64) :
    (∃ m, run ndebug ops (basicOutMessage maxPrefixSize capacity uninitialised) = .ok () m ∧
      Represents ndebug ops m) ↔
    ndebug = true ∨ ((maxPrefixSize - prefixTotal ops : ℕ) : ℤ) ≤
      toInt32 (maxPrefixSize + (appendedBytes ops).length) := by
  have hstart : Holds (basicOutMessage maxPrefixSize capacity uninitialised)
      (maxPrefixSize - prefixTotal ops + prefixTotal ops) [] := by
    rw [Nat.sub_add_cancel htotal]
    exact ⟨rfl, rfl, rfl⟩
  have hlength := length_representation ops
  have hsum : maxPrefixSize - prefixTotal ops + (representation ops).length =
      maxPrefixSize + (appendedBytes ops).length := by omega
  rw [← hsum]
  exact exists_represents_iff hstart (by omega)

def mixedOps : List Op :=
  [.append (.addByte 1), .addPrefix 2 2, .append (.addU16 3), .addPrefix 4 4, .addPadding 1 5]

theorem represented_mixed : ∃ m, run false mixedOps (basicOutMessage 8 1024 fun _ => 0) = .ok () m ∧
    Represents false mixedOps m :=
  (represented_iff false 1024 (fun _ => 0) (by decide) (by decide)).mpr (Or.inr (by decide))

/-- 2 GiB appended to an empty message: the size reads as negative. -/
theorem two_gibibytes_fail_assertion :
    ¬ ∃ m, run false [.append (.addRaw (List.replicate (2 ^ 31) 0))]
        (basicOutMessage 8 1024 fun _ => 0) = .ok () m ∧
      Represents false [.append (.addRaw (List.replicate (2 ^ 31) 0))] m := by
  have hlength (raw : List UInt8) :
      (representation [.append (.addRaw raw)]).length = raw.length := by
    simp [length_representation, prefixTotal, appendedBytes, Op.width, Op.appended, AddOp.bytes]
  have hstart (raw : List UInt8) : Holds (basicOutMessage 8 1024 fun _ => 0)
      (8 + prefixTotal [.append (.addRaw raw)]) [] := ⟨rfl, rfl, rfl⟩
  have hraw := hlength (List.replicate (2 ^ 31) 0)
  rw [List.length_replicate] at hraw
  rw [exists_represents_iff (hstart _) (by rw [hraw]; decide), hraw]
  decide

end Representation

section LengthFields

def WritesLength : AddOp → Prop
  | .addString _ | .addCString _ | .addChars _ _ => True
  | _ => False

/-- After `addHeader`: the header counts the bytes behind it, and so does the length field of every
string that was appended. -/
structure LengthsTrue (ops : List AddOp) (m : Message) : Prop where
  header : (decodeLE (slice m.cells m.prefixPos 2) : ℤ) = m.size - (m.prefixPos + 2)
  strings : ∀ before op after, ops = before ++ op :: after → WritesLength op →
    decodeLE (slice m.cells (m.prefixPos + 2 + (payload before).length) 2) + 2 = op.bytes.length

variable {ndebug : Bool} {uninitialised : Memory} {ops : List AddOp} {m m' : Message}

theorem length_field {op : AddOp} (h : WritesLength op) :
    ∃ cs : List UInt8, op.bytes = encodeLE 2 cs.length ++ cs := by
  have hcut (n : ℕ) : (UInt16.ofNat n).toNat ≤ n := by
    rw [UInt16.toNat_ofNat']
    exact Nat.mod_le _ _
  cases op with
  | addString str => exact ⟨str, rfl⟩
  | addCString str => exact ⟨_, by rw [AddOp.bytes, List.length_take_of_le (hcut _)]⟩
  | addChars str => exact ⟨_, by rw [AddOp.bytes, List.length_take_of_le (hcut _)]⟩
  | addByte | addU16 | addU32 | addU64 | addFloat | addDouble | addRaw | addCRaw => exact h.elim

theorem payload_split (before after : List AddOp) (op : AddOp) :
    payload (before ++ op :: after) = payload before ++ (op.bytes ++ payload after) := by
  rw [payload, List.flatMap_append, List.flatMap_cons]
  rfl

/-- The guard of `addPrefix` compares an unsigned difference with zero. -/
theorem addPrefix_run (ndebug : Bool) (width v : ℕ) (m : Message) :
    addPrefix ndebug width v m = .ok () { m with
      cells := write m.cells (m.prefixPos - width) (encodeLE width v)
      prefixPos := m.prefixPos - width } := by
  rw [addPrefix, bind_ok (get_run m), bind_run, check_run, decide_eq_true (Nat.zero_le _),
    Bool.or_true]
  rfl

theorem addHeader_moves (h : addHeader ndebug m = .ok () m') :
    m'.prefixPos = m.prefixPos - 2 ∧ m'.size = m.size := by
  obtain ⟨size, t, hsize, hprefix⟩ := bind_eq_ok.mp h
  obtain ⟨_, u, hcheck, hpure⟩ := bind_eq_ok.mp hsize
  obtain ⟨_, w, hassert, hlast⟩ := bind_eq_ok.mp hpure
  cases hcheck
  rw [check_run] at hassert
  split at hassert
  · cases hassert
    cases hlast
    rw [addPrefix_run] at hprefix
    cases hprefix
    exact ⟨rfl, rfl⟩
  · cases hassert

/-- A 16-bit header can only be true of a payload below 64 KiB. -/
theorem payload_short (h : (do build ops; addHeader ndebug : OutM Unit)
      (standardOutMessage uninitialised) = .ok () m) (htrue : LengthsTrue ops m) :
    (payload ops).length < 2 ^ 16 := by
  obtain ⟨m₁, hbuild, hholds⟩ := build_holds (standardOutMessage_holds uninitialised) ops
  rw [bind_ok hbuild] at h
  obtain ⟨hpos, hsize⟩ := addHeader_moves h
  have hcursor := hholds.cursor
  have hextent := hholds.size
  have hheader := htrue.header
  have hbound := decodeLE_lt (slice m.cells m.prefixPos 2)
  rw [length_slice] at hbound
  rw [List.nil_append] at hextent
  omega

theorem lengths_true (h : Holds m 6 (withLength (payload ops)))
    (hshort : (payload ops).length < 2 ^ 16) : LengthsTrue ops m := by
  have hcursor := h.cursor
  have hsize := h.size
  have hcontent := h.content
  rw [length_withLength] at hsize hcontent
  rw [withLength, slice_add] at hcontent
  obtain ⟨hheader, hpayload⟩ := List.append_inj hcontent (by simp)
  constructor
  · rw [hcursor, hheader, decode_encodeLE_of_lt (by simpa using hshort)]
    omega
  · rintro before op after rfl hop
    obtain ⟨cs, hcs⟩ := length_field hop
    rw [payload_split, hcs] at hpayload hshort
    rw [hcs]
    simp only [List.length_append, length_encodeLE, slice_add, List.append_assoc]
      at hpayload hshort ⊢
    have hfield := (List.append_inj (List.append_inj hpayload (by simp)).2 (by simp)).1
    rw [hcursor, show ((6 : ℕ) : ℤ) + 2 = (6 : ℕ) + (2 : ℕ) by rfl, hfield,
      decode_encodeLE_of_lt (by omega)]
    omega

/-- For every sequence of appended fields closed by `addHeader`: every length field tells how many
bytes follow it exactly when the payload stays below 64 KiB. -/
theorem lengths_true_iff (ndebug : Bool) (uninitialised : Memory) (ops : List AddOp) :
    (∃ m, (do build ops; addHeader ndebug : OutM Unit) (standardOutMessage uninitialised) =
        .ok () m ∧ LengthsTrue ops m) ↔ (payload ops).length < 2 ^ 16 := by
  constructor
  · rintro ⟨m, hrun, htrue⟩
    exact payload_short hrun htrue
  · intro hshort
    obtain ⟨m₁, hbuild, hholds⟩ := build_holds (standardOutMessage_holds uninitialised) ops
    rw [List.nil_append] at hholds
    obtain ⟨m₂, hheader, hclosed⟩ := addHeader_holds ndebug hholds (by omega)
    exact ⟨m₂, by rw [bind_ok hbuild, hheader], lengths_true hclosed hshort⟩

/-- A string of 65536 characters is announced as empty, in a message announced as two bytes long. -/
theorem long_string_lies :
    ¬ ∃ m, (do build [.addString (List.replicate (2 ^ 16) 0x41)]; addHeader true : OutM Unit)
        (standardOutMessage fun _ => 0) = .ok () m ∧
      LengthsTrue [.addString (List.replicate (2 ^ 16) 0x41)] m := by
  rintro ⟨m, hrun, htrue⟩
  have hlength (str : List UInt8) : (payload [.addString str]).length = 2 + str.length := by
    simp [payload, AddOp.bytes]
  have hshort := payload_short hrun htrue
  rw [hlength, List.length_replicate] at hshort
  omega

end LengthFields

section Guard

/-- What the assertion of `addPrefix` is there for: where it lets the call pass, the cursor stays
among the reserved cells and the prefix inside the vector. -/
def Guards (maxPrefixSize : ℕ) (m : Message) : Op → Prop
  | .addPrefix width v => ∀ m', addPrefix false width v m = .ok () m' →
    (0 ≤ m'.prefixPos ∧ m'.prefixPos ≤ maxPrefixSize) ∧
      0 ≤ m'.prefixPos ∧ m'.prefixPos + width ≤ m'.size
  | .append _ | .addPadding _ _ => True

/-- The guard is effective in every state that the operations pass through. -/
def GuardsAlong (maxPrefixSize : ℕ) : List Op → Message → Prop
  | [], _ => True
  | op :: ops, m => Guards maxPrefixSize m op ∧
    ∀ m', op.exec false m = .ok () m' → GuardsAlong maxPrefixSize ops m'

/-- More prefix bytes than were reserved end in a failed assertion. -/
def StopsOverflow (maxPrefixSize : ℕ) (ops : List Op) (m : Message) : Prop :=
  maxPrefixSize < prefixTotal ops → ∀ m', run false ops m ≠ .ok () m'

/-- The cursor is among the reserved cells of the vector. -/
structure Reserved (maxPrefixSize : ℕ) (m : Message) : Prop where
  nonneg : 0 ≤ m.prefixPos
  below : m.prefixPos ≤ maxPrefixSize
  inside : maxPrefixSize ≤ m.size

variable {ndebug : Bool} {maxPrefixSize : ℕ} {m m' : Message} {ops : List Op}

theorem prefixTotal_cons (op : Op) (ops : List Op) :
    prefixTotal (op :: ops) = op.width + prefixTotal ops := rfl

theorem exec_moves (ndebug : Bool) (op : Op) (m : Message) : ∃ m', op.exec ndebug m = .ok () m' ∧
    m'.prefixPos = m.prefixPos - op.width ∧ m'.size = m.size + op.appended.length := by
  cases op with
  | addPrefix width v => exact ⟨_, addPrefix_run ndebug width v m, rfl, rfl⟩
  | append op =>
    cases op with
    | addByte | addU16 | addU32 | addU64 | addFloat | addDouble | addRaw | addCRaw =>
      exact ⟨_, rfl, (Int.sub_zero _).symm, rfl⟩
    | addString | addCString | addChars =>
      refine ⟨_, rfl, (Int.sub_zero _).symm, ?_⟩
      simp [Op.appended, AddOp.bytes, Nat.add_assoc]
  | addPadding count value => exact ⟨_, rfl, (Int.sub_zero _).symm, rfl⟩

theorem run_returns (ndebug : Bool) (ops : List Op) (m : Message) :
    ∃ m', run ndebug ops m = .ok () m' := by
  induction ops generalizing m with
  | nil => exact ⟨m, rfl⟩
  | cons op ops ih =>
    obtain ⟨m₁, h₁, -, -⟩ := exec_moves ndebug op m
    obtain ⟨m₂, h₂⟩ := ih m₁
    exact ⟨m₂, by rw [run, bind_ok h₁, h₂]⟩

theorem guards_iff (h : Reserved maxPrefixSize m) (op : Op) :
    Guards maxPrefixSize m op ↔ (op.width : ℤ) ≤ m.prefixPos := by
  obtain ⟨hnonneg, hbelow, hinside⟩ := h
  cases op with
  | addPrefix width v =>
    simp only [Guards, addPrefix_run, EStateM.Result.ok.injEq, true_and, forall_eq', Op.width]
    omega
  | append | addPadding => exact iff_of_true trivial hnonneg

theorem Reserved.exec {op : Op} (h : Reserved maxPrefixSize m)
    (hwidth : (op.width : ℤ) ≤ m.prefixPos) (hexec : op.exec ndebug m = .ok () m') :
    Reserved maxPrefixSize m' := by
  obtain ⟨hnonneg, hbelow, hinside⟩ := h
  obtain ⟨m₁, hm₁, hpos, hsize⟩ := exec_moves ndebug op m
  rw [hexec] at hm₁
  cases hm₁
  exact ⟨by omega, by omega, by omega⟩

theorem guardsAlong_iff (h : Reserved maxPrefixSize m) :
    GuardsAlong maxPrefixSize ops m ↔ (prefixTotal ops : ℤ) ≤ m.prefixPos := by
  induction ops generalizing m with
  | nil => exact iff_of_true trivial h.nonneg
  | cons op ops ih =>
    obtain ⟨m₁, hm₁, hpos, -⟩ := exec_moves false op m
    have honly : (∀ m', op.exec false m = .ok () m' → GuardsAlong maxPrefixSize ops m') ↔
        GuardsAlong maxPrefixSize ops m₁ := by
      simp only [hm₁, EStateM.Result.ok.injEq, true_and, forall_eq']
    rw [GuardsAlong, guards_iff h, honly, prefixTotal_cons, Int.natCast_add]
    constructor
    · rintro ⟨hwidth, halong⟩
      have hrest := (ih (h.exec hwidth hm₁)).mp halong
      omega
    · intro htotal
      have hwidth : (op.width : ℤ) ≤ m.prefixPos := by omega
      exact ⟨hwidth, (ih (h.exec hwidth hm₁)).mpr (by omega)⟩

theorem reserved_start (capacity : ℕ) (uninitialised : Memory) :
    Reserved maxPrefixSize (basicOutMessage maxPrefixSize capacity uninitialised) :=
  ⟨Int.natCast_nonneg _, Int.le_refl _, Nat.le_refl _⟩

theorem stopsOverflow_iff :
    StopsOverflow maxPrefixSize ops m ↔ prefixTotal ops ≤ maxPrefixSize := by
  constructor
  · intro hstops
    obtain ⟨m', hrun⟩ := run_returns false ops m
    by_contra hover
    exact hstops (Nat.lt_of_not_le hover) m' hrun
  · intro hle hover
    exact absurd hle (Nat.not_le.mpr hover)

/-- For every sequence of operations on a new message: the assertion keeps every prefix in its
place, and stops what does not fit, exactly when everything fits. -/
theorem prefix_guard_iff (maxPrefixSize capacity : ℕ) (uninitialised : Memory) (ops : List Op) :
    (GuardsAlong maxPrefixSize ops (basicOutMessage maxPrefixSize capacity uninitialised) ↔
      prefixTotal ops ≤ maxPrefixSize) ∧
    (StopsOverflow maxPrefixSize ops (basicOutMessage maxPrefixSize capacity uninitialised) ↔
      prefixTotal ops ≤ maxPrefixSize) := by
  refine ⟨?_, stopsOverflow_iff⟩
  rw [guardsAlong_iff (reserved_start capacity uninitialised)]
  exact Int.ofNat_le

theorem three_prefixes_pass_the_guard :
    ¬ (GuardsAlong standardPrefixSize [.addPrefix 2 0, .addPrefix 4 0, .addPrefix 8 0]
        (standardOutMessage fun _ => 0) ∧
      StopsOverflow standardPrefixSize [.addPrefix 2 0, .addPrefix 4 0, .addPrefix 8 0]
        (standardOutMessage fun _ => 0)) := by
  rintro ⟨-, hstops⟩
  exact absurd (stopsOverflow_iff.mp hstops) (by decide)

end Guard

end OutPrefixes

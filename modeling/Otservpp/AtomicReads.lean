import Otservpp.FieldCodec

/-! # Reads that fail

`movePos` moves the cursor before it tests it, in arithmetic that wraps. A read that fits is exact;
of one that does not, neither the answer of `isAvailable` nor the state it leaves can be trusted. -/
namespace AtomicReads

open FieldCodec FrameReads InMessage ProgramLogic

/-- The reads of `BasicInMessage`: each moves the cursor once. -/
def SingleRead : Op → Prop
  | .doChecksum | .xteaDecrypt _ | .getString => False
  | .getByte | .getU16 | .getU32 | .getU64 => True
  | .getStrChunck _ | .getRawChunck _ | .skipBytes _ => True

variable {ndebug : Bool} {m : Message} {op : Op} {ops : List Op}

/-- A read of `n` bytes succeeds exactly when `n` bytes remain, and else changes nothing. -/
structure Exact (ndebug : Bool) (op : Op) (m : Message) : Prop where
  remaining : getRemainingSize ndebug m = .ok (m.size - m.pos) m
  available : isAvailable (requested op) m = true ↔ requested op ≤ m.size - m.pos
  reads : requested op ≤ m.size - m.pos → ∃ bytes m', op.exec ndebug m = .ok bytes m' ∧
    m'.pos = m.pos + requested op ∧ m'.size = m.size
  throws : m.size - m.pos < requested op → ∃ m', op.exec ndebug m = .error .packetException m' ∧
    m'.pos = m.pos ∧ m'.size = m.size

/-- Every read of the sequence is exact, and the cursor never passes the size; a sequence continues
after a caught exception. -/
def ExactAlong (ndebug : Bool) : List Op → Message → Prop
  | [], m => m.pos ≤ m.size
  | op :: ops, m => m.pos ≤ m.size ∧ Exact ndebug op m ∧
    ExactAlong ndebug ops (after (op.exec ndebug) m)

def totalRequested : List Op → ℕ
  | [] => 0
  | op :: ops => requested op + totalRequested ops

theorem requested_lt (h : SingleRead op) : requested op < 2 ^ 32 := by
  cases op with
  | doChecksum | xteaDecrypt | getString => exact h.elim
  | getByte | getU16 | getU32 | getU64 => simp [requested]
  | getStrChunck n | getRawChunck n | skipBytes n => exact n.toNat_lt

theorem read_throws (h : SingleRead op) (hover : m.size < u32 (m.pos + requested op)) :
    op.exec ndebug m = .error .packetException (m.moved (requested op)) := by
  cases op with
  | doChecksum | xteaDecrypt | getString => exact h.elim
  | getByte => exact bind_error (getByte_error hover) _
  | getU16 | getU32 | getU64 => exact bind_error (getNumber_error hover) _
  | getStrChunck n => exact getStrChunck_error hover
  | getRawChunck n => exact bind_error (getRawChunckAs_error hover) _
  | skipBytes n => exact bind_error ((movePos_run _ m).trans (if_pos hover)) _

theorem read_returns (ndebug : Bool) (h : SingleRead op) (hpos : m.pos < 2 ^ 32)
    (hin : u32 (m.pos + requested op) ≤ m.size) :
    ∃ bytes, op.exec ndebug m = .ok bytes (m.moved (requested op)) := by
  have hlt := requested_lt h
  cases op with
  | doChecksum | xteaDecrypt | getString => exact h.elim
  | getByte => exact ⟨_, bind_ok (getByte_ok hpos hin) _⟩
  | getU16 | getU32 | getU64 => exact ⟨_, bind_ok (getNumber_ok hpos hlt hin) _⟩
  | getStrChunck n => exact ⟨_, getStrChunck_ok hpos hlt hin⟩
  | getRawChunck n => exact ⟨_, bind_ok (getRawChunckAs_ok hpos hlt hin) _⟩
  | skipBytes n => exact ⟨[], bind_ok ((movePos_run _ m).trans (if_neg (Nat.not_lt.mpr hin))) _⟩

theorem moved_fits (hsize : m.size < 2 ^ 32) (hcursor : m.pos ≤ m.size) {n : ℕ}
    (hfits : n ≤ m.size - m.pos) : (m.moved n).pos = m.pos + n := by
  rw [moved_pos, u32_of_lt (by omega)]

/-- A cursor that was moved by a request beyond the end is not where it was. -/
theorem moved_over {n : ℕ} (hn : n < 2 ^ 32) (hover : m.size - m.pos < n) :
    (m.moved n).pos ≠ m.pos := by
  rw [moved_pos]
  unfold u32
  omega

theorem exact_iff (hread : SingleRead op) (hsize : m.size < 2 ^ 32) (hcursor : m.pos ≤ m.size) :
    Exact ndebug op m ↔ requested op ≤ m.size - m.pos := by
  have hlt := requested_lt hread
  constructor
  · intro hexact
    by_contra hover
    obtain ⟨m', hexec, hpos, -⟩ := hexact.throws (Nat.lt_of_not_le hover)
    by_cases hin : u32 (m.pos + requested op) ≤ m.size
    · obtain ⟨bytes, hreturns⟩ := read_returns ndebug hread (by omega) hin
      rw [hreturns] at hexec
      cases hexec
    · rw [read_throws hread (Nat.lt_of_not_le hin)] at hexec
      cases hexec
      exact moved_over hlt (Nat.lt_of_not_le hover) hpos
  · intro hfits
    have hmoved := moved_fits hsize hcursor hfits
    have hin : u32 (m.pos + requested op) ≤ m.size := by
      rw [← moved_pos, hmoved]
      omega
    obtain ⟨bytes, hreturns⟩ := read_returns ndebug hread (by omega) hin
    refine ⟨getRemainingSize_ok ndebug hcursor hsize, ?_, ?_, ?_⟩
    · exact iff_of_true (decide_eq_true hin) hfits
    · exact fun _ => ⟨bytes, _, hreturns, hmoved, rfl⟩
    · exact fun hover => absurd hfits (Nat.not_le.mpr hover)

/-- For every message whose cursor is inside, and every sequence of reads of it: all reads are exact
and the cursor stays inside exactly when together they ask for no more than remains. -/
theorem exact_along_iff (ndebug : Bool) (hsize : m.size < 2 ^ 32) (hcursor : m.pos ≤ m.size)
    (hreads : ∀ op ∈ ops, SingleRead op) :
    ExactAlong ndebug ops m ↔ totalRequested ops ≤ m.size - m.pos := by
  induction ops generalizing m with
  | nil => exact iff_of_true hcursor (Nat.zero_le _)
  | cons op ops ih =>
    have hread := hreads op List.mem_cons_self
    rw [ExactAlong, exact_iff hread hsize hcursor, totalRequested]
    by_cases hfits : requested op ≤ m.size - m.pos
    · have hmoved := moved_fits hsize hcursor hfits
      obtain ⟨bytes, hreturns⟩ := read_returns ndebug hread (m := m) (by omega)
        (by rw [← moved_pos, hmoved]; omega)
      have hsize' : (m.moved (requested op)).size = m.size := rfl
      rw [after_ok hreturns, ih (m := m.moved (requested op)) hsize (by omega) fun o ho =>
        hreads o (List.mem_cons_of_mem op ho)]
      rw [hmoved, hsize']
      constructor
      · rintro ⟨-, -, hrest⟩
        omega
      · intro htotal
        exact ⟨hcursor, hfits, by omega⟩
    · constructor
      · rintro ⟨-, hfits', -⟩
        exact absurd hfits' hfits
      · intro htotal
        omega

/-- Ten bytes, of which the header is read. -/
def tenBytes : Message := ⟨fun _ => 0, 2, 10⟩

theorem exact_along_four : ExactAlong false [.getU16, .skipBytes 5, .getByte] tenBytes :=
  (exact_along_iff false (by decide) (by decide) (by simp [SingleRead])).mpr (by decide)

/-- One byte too many: the exception leaves the cursor behind the end. -/
theorem failed_skip_moves : ¬ ExactAlong false [.skipBytes 9] tenBytes := by
  rintro ⟨-, hexact, -⟩
  have hread : SingleRead (.skipBytes 9) := trivial
  exact absurd ((exact_iff hread (by decide) (by decide)).mp hexact) (by decide)

end AtomicReads

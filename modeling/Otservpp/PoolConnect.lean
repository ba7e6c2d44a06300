import Otservpp.ConnectionPool
import Otservpp.SlotDeque

/-! # Starting the connections of a pool

`ConnectionPool::connect`. Each attempt is given a reference to the slot of its connection in the
deque; a completion that failed erases what it finds in that slot. -/
namespace PoolConnect

open ConnectionPool SlotDeque

/-- Zero is no error. -/
abbrev ErrorCode := ℤ

/-- A connection is named by the slot it was created in. -/
structure Completion where
  conn : Connection
  error : ErrorCode
  deriving DecidableEq, Repr

/-- The pool with its `ConnectControl`. `sharers` counts the completions that still have a copy of
the control, `reports` the calls of the connect handler, and `undefined` says that a slot was read
which is no longer part of the deque; nothing is said of what follows. -/
structure Starting where
  pool : Slots Connection
  firstError : ErrorCode
  sharers : ℕ
  reports : List (ErrorCode × ℕ)
  undefined : Bool

section Operations

variable (frontMoves : ℕ → ℕ → Bool)

def initial (n : ℕ) : Starting := ⟨⟨0, List.range n⟩, 0, n, [], false⟩

/-- `erase(find(begin, end, conn))`; `frontMoves i len` says on which side `std::deque::erase` moves
the elements when it erases the `i`-th of `len`. -/
def erase (conn : Connection) (pool : Slots Connection) : Slots Connection :=
  pool.eraseIdx (frontMoves (pool.items.idxOf conn) pool.items.length) (pool.items.idxOf conn)

/-- The body of `if(e)`. -/
def eraseFailed (c : Completion) (s : Starting) : Starting :=
  match s.pool.at c.conn with
  | some conn =>
    { s with
      pool := erase frontMoves conn s.pool
      firstError := if s.firstError = 0 then c.error else s.firstError }
  | none => { s with undefined := true }

/-- The handler is called by the completion that has the last copy of the control. -/
def report (s : Starting) : Starting :=
  { s with
    sharers := s.sharers - 1
    reports := if s.sharers = 1 then s.reports ++ [(s.firstError, s.pool.items.length)]
      else s.reports }

def complete (c : Completion) (s : Starting) : Starting :=
  report (if c.error ≠ 0 then eraseFailed frontMoves c s else s)

def run (cs : List Completion) (s : Starting) : Starting :=
  cs.foldl (fun s c => complete frontMoves c s) s

end Operations

section Specification

def failed (cs : List Completion) : List Connection :=
  (cs.filter fun c => c.error ≠ 0).map Completion.conn

def succeeded (cs : List Completion) : List Connection :=
  (cs.filter fun c => c.error = 0).map Completion.conn

/-- The error of the first failing completion, if there is one. -/
def firstFailure (cs : List Completion) : ErrorCode :=
  ((cs.find? fun c => c.error ≠ 0).map Completion.error).getD 0

/-- Each connection was attempted once. -/
def AllAttempted (n : ℕ) (cs : List Completion) : Prop :=
  (cs.map Completion.conn).Perm (List.range n)

structure StartedUp (cs : List Completion) (s : Starting) : Prop where
  wellDefined : s.undefined = false
  pool : s.pool.items.Perm (succeeded cs)
  reported : s.reports = [(firstFailure cs, (succeeded cs).length)]

/-- Every failing completion finds its own connection in its slot. -/
def OwnSlots (frontMoves : ℕ → ℕ → Bool) : List Completion → Starting → Prop
  | [], _ => True
  | c :: cs, s => (c.error ≠ 0 → s.pool.at c.conn = some c.conn) ∧
      OwnSlots frontMoves cs (complete frontMoves c s)

/-- Of the failing connections in the order of their completions: no erasure moves one whose
completion is yet to come. `first` is the slot at the front of the deque and `len` its length. -/
def Undisturbed (frontMoves : ℕ → ℕ → Bool) : List Connection → ℕ → ℕ → Prop
  | [], _, _ => True
  | conn :: conns, first, len =>
    (∀ later ∈ conns, if frontMoves (conn - first) len then conn < later else later < conn) ∧
      Undisturbed frontMoves conns
        (if frontMoves (conn - first) len then first + 1 else first) (len - 1)

end Specification

section Runs

variable {frontMoves : ℕ → ℕ → Bool} {n : ℕ} {c : Completion} {cs : List Completion} {s : Starting}

/-- What is searched for is in the slot that the search started from. -/
theorem idxOf_slot {pool : Slots Connection} {slot : ℕ} {conn : Connection}
    (hnodup : pool.items.Nodup) (h : pool.at slot = some conn) :
    pool.items.idxOf conn = slot - pool.first := by
  obtain ⟨hlt, hget⟩ := List.getElem?_eq_some_iff.mp (at_eq_some.mp h).2
  rw [← hget, hnodup.idxOf_getElem]

@[simp] theorem complete_success (h : c.error = 0) : complete frontMoves c s = report s := by
  rw [complete, if_neg (by simpa using h)]

@[simp] theorem report_pool : (report s).pool = s.pool := rfl

theorem run_cons : run frontMoves (c :: cs) s = run frontMoves cs (complete frontMoves c s) := rfl

theorem eraseFailed_undefined (h : s.undefined = true) :
    (eraseFailed frontMoves c s).undefined = true := by
  unfold eraseFailed
  split
  · exact h
  · rfl

theorem complete_undefined (h : s.undefined = true) :
    (complete frontMoves c s).undefined = true := by
  unfold complete
  by_cases he : c.error ≠ 0
  · rw [if_pos he]
    exact eraseFailed_undefined h
  · rw [if_neg he]
    exact h

theorem undefined_stays (h : s.undefined = true) : (run frontMoves cs s).undefined = true := by
  induction cs generalizing s with
  | nil => exact h
  | cons c cs ih => exact ih (complete_undefined h)

theorem complete_slot {conn : Connection} (he : c.error ≠ 0) (h : s.pool.at c.conn = some conn) :
    complete frontMoves c s = report { s with
      pool := erase frontMoves conn s.pool
      firstError := if s.firstError = 0 then c.error else s.firstError } := by
  rw [complete, if_pos he, eraseFailed, h]

/-- A failing completion of a defined run found something in its slot. -/
theorem slot_in_use (he : c.error ≠ 0) (h : (run frontMoves (c :: cs) s).undefined = false) :
    ∃ conn, s.pool.at c.conn = some conn := by
  cases hslot : s.pool.at c.conn with
  | some conn => exact ⟨conn, rfl⟩
  | none =>
    have hnow : (complete frontMoves c s).undefined = true := by
      rw [complete, if_pos he, eraseFailed, hslot]
      rfl
    have hstays : (run frontMoves cs (complete frontMoves c s)).undefined = true :=
      undefined_stays hnow
    have hdefined : (run frontMoves cs (complete frontMoves c s)).undefined = false := h
    rw [hdefined] at hstays
    cases hstays

/-- A run that stays defined is a sequence of erasures through the slots of the failed attempts. -/
theorem run_erases (hnodup : s.pool.items.Nodup) (h : (run frontMoves cs s).undefined = false) :
    ∃ ps, Erases s.pool ps (run frontMoves cs s).pool ∧ ps.map Prod.fst = failed cs ∧
      (OwnSlots frontMoves cs s ↔ ∀ p ∈ ps, p.1 = p.2) := by
  induction cs generalizing s with
  | nil => exact ⟨[], .nil, rfl, by simp [OwnSlots]⟩
  | cons c cs ih =>
    by_cases he : c.error = 0
    · have hsame : complete frontMoves c s = report s := complete_success he
      obtain ⟨ps, hrun, hfailed, hown⟩ := ih (s := complete frontMoves c s) (by rwa [hsame]) h
      rw [hsame, report_pool, ← hsame] at hrun
      refine ⟨ps, hrun, ?_, ?_⟩
      · simp [hfailed, failed, he]
      · rw [OwnSlots, hown]
        simp [he]
    · obtain ⟨conn, hslot⟩ := slot_in_use he h
      have hidx := idxOf_slot hnodup hslot
      have hpool : (complete frontMoves c s).pool = erase frontMoves conn s.pool := by
        rw [complete_slot he hslot]
        rfl
      have hrest : (complete frontMoves c s).pool.items.Nodup := by
        rw [hpool]
        exact hnodup.eraseIdx _
      obtain ⟨ps, hrun, hfailed, hown⟩ := ih hrest h
      rw [hpool, erase, hidx] at hrun
      refine ⟨(c.conn, conn) :: ps, .cons _ hslot hrun, ?_, ?_⟩
      · simp [hfailed, failed, he]
      · rw [OwnSlots, hown]
        simp only [hslot, Option.some.injEq, List.forall_mem_cons]
        constructor
        · rintro ⟨hfirst, hall⟩
          exact ⟨(hfirst he).symm, hall⟩
        · rintro ⟨hfirst, hall⟩
          exact ⟨fun _ => hfirst.symm, hall⟩

theorem ownSlots_defined (h : s.undefined = false) (hown : OwnSlots frontMoves cs s) :
    (run frontMoves cs s).undefined = false := by
  induction cs generalizing s with
  | nil => exact h
  | cons c cs ih =>
    have hnow : (complete frontMoves c s).undefined = false := by
      by_cases he : c.error = 0
      · rw [complete_success he]
        exact h
      · rw [complete_slot he (hown.1 he)]
        exact h
    exact ih hnow hown.2

theorem run_firstError (h : (run frontMoves cs s).undefined = false) :
    (run frontMoves cs s).firstError = if s.firstError = 0 then firstFailure cs else s.firstError := by
  induction cs generalizing s with
  | nil =>
    rw [firstFailure, List.find?_nil]
    split <;> simp_all [run]
  | cons c cs ih =>
    have hrest : (run frontMoves (c :: cs) s).firstError = _ := ih (s := complete frontMoves c s) h
    rw [hrest]
    by_cases he : c.error = 0
    · simp [firstFailure, he, report]
    · obtain ⟨conn, hslot⟩ := slot_in_use he h
      rw [complete_slot he hslot]
      by_cases hs : s.firstError = 0
      · simp [report, hs, he, firstFailure]
      · simp [report, hs]

theorem complete_report (frontMoves : ℕ → ℕ → Bool) (c : Completion) (s : Starting) :
    ∃ t, complete frontMoves c s = report t ∧ t.sharers = s.sharers ∧ t.reports = s.reports := by
  by_cases he : c.error = 0
  · exact ⟨s, complete_success he, rfl, rfl⟩
  · refine ⟨eraseFailed frontMoves c s, by rw [complete, if_pos he], ?_⟩
    unfold eraseFailed
    split <;> exact ⟨rfl, rfl⟩

/-- The last completion, and no other, calls the handler. -/
theorem run_reports (hne : cs ≠ []) (hs : s.sharers = cs.length) :
    (run frontMoves cs s).reports = s.reports ++
      [((run frontMoves cs s).firstError, (run frontMoves cs s).pool.items.length)] := by
  induction cs generalizing s with
  | nil => exact absurd rfl hne
  | cons c cs ih =>
    obtain ⟨t, hcomplete, hsharers, hreports⟩ := complete_report frontMoves c s
    rw [run_cons, hcomplete, ← hreports]
    rw [← hsharers] at hs
    cases cs with
    | nil => exact if_pos hs
    | cons d ds =>
      have hmore : t.sharers ≠ 1 := by
        rw [hs]
        simp
      have hkept : (report t).reports = t.reports := if_neg hmore
      have hleft : (report t).sharers = (d :: ds).length := by
        rw [report, hs]
        rfl
      rw [← hkept]
      exact ih (by simp) hleft

theorem attempted_split (cs : List Completion) :
    (succeeded cs ++ failed cs).Perm (cs.map Completion.conn) := by
  have hsplit := (List.filter_append_perm (fun c : Completion => decide (c.error = 0)) cs).map
    Completion.conn
  rw [List.map_append] at hsplit
  simpa [succeeded, failed] using hsplit

theorem startedUp_iff_ownSlots (hn : 1 ≤ n) (hcs : AllAttempted n cs) :
    StartedUp cs (run frontMoves cs (initial n)) ↔ OwnSlots frontMoves cs (initial n) := by
  have hsplit : (succeeded cs ++ failed cs).Perm (List.range n) := (attempted_split cs).trans hcs
  have hlength : cs.length = n := by simpa using hcs.length_eq
  have hne : cs ≠ [] := by
    rintro rfl
    simp at hlength
    omega
  constructor
  · intro h
    obtain ⟨ps, herases, hfailed, hown⟩ := run_erases List.nodup_range h.wellDefined
    refine hown.mpr (erases_own_slots herases ?_)
    have hleft : (succeeded cs ++ ps.map Prod.snd).Perm (List.range n) :=
      ((h.pool.symm.append_right _).trans herases.items)
    rw [hfailed]
    exact (List.perm_append_left_iff _).mp (hsplit.trans hleft.symm)
  · intro h
    have hdefined := ownSlots_defined rfl h
    obtain ⟨ps, herases, hfailed, hown⟩ := run_erases List.nodup_range hdefined
    have hsame : ps.map Prod.snd = failed cs := by
      rw [← hfailed]
      exact List.map_congr_left fun p hp => (hown.mp h p hp).symm
    have hpool : (run frontMoves cs (initial n)).pool.items.Perm (succeeded cs) := by
      have hitems := herases.items
      rw [hsame] at hitems
      exact (List.perm_append_right_iff _).mp (hitems.trans hsplit.symm)
    refine ⟨hdefined, hpool, ?_⟩
    rw [run_reports hne hlength.symm, run_firstError hdefined, hpool.length_eq]
    simp [initial]

/-- What is still to fail is in its own slot of a deque that no erasure has disordered. -/
structure Settled (cs : List Completion) (s : Starting) : Prop where
  ascending : Ascending (layout s.pool)
  nodup : s.pool.items.Nodup
  defined : s.undefined = false
  own : ∀ conn ∈ failed cs, s.pool.at conn = some conn

theorem failed_success (he : c.error = 0) : failed (c :: cs) = failed cs := by simp [failed, he]

theorem failed_failure (he : c.error ≠ 0) : failed (c :: cs) = c.conn :: failed cs := by
  simp [failed, he]

theorem Settled.at_failure (h : Settled (c :: cs) s) (he : c.error ≠ 0) :
    s.pool.at c.conn = some c.conn := by
  apply h.own
  rw [failed_failure he]
  exact List.mem_cons_self

theorem Settled.pool (h : Settled (c :: cs) s) (he : c.error ≠ 0) :
    (complete frontMoves c s).pool = s.pool.eraseIdx
      (frontMoves (c.conn - s.pool.first) s.pool.items.length) (c.conn - s.pool.first) := by
  have hat := h.at_failure he
  rw [complete_slot he hat, report_pool, erase, idxOf_slot h.nodup hat]

theorem Settled.still_defined (h : Settled (c :: cs) s) (he : c.error ≠ 0) :
    (complete frontMoves c s).undefined = false := by
  rw [complete_slot he (h.at_failure he)]
  exact h.defined

theorem Settled.success (h : Settled (c :: cs) s) (he : c.error = 0) :
    Settled cs (complete frontMoves c s) := by
  rw [complete_success he]
  exact ⟨h.ascending, h.nodup, h.defined, failed_success he ▸ h.own⟩

/-- The erasures of later failures through their own slots are all on the unmoved side. -/
theorem Settled.later_unmoved (h : Settled (c :: cs) s) (he : c.error ≠ 0)
    (hown : OwnSlots frontMoves cs (complete frontMoves c s)) :
    ∀ later ∈ failed cs, if frontMoves (c.conn - s.pool.first) s.pool.items.length
      then c.conn < later else later < c.conn := by
  have hrest : (complete frontMoves c s).pool.items.Nodup := by
    rw [h.pool he]
    exact h.nodup.eraseIdx _
  obtain ⟨ps, herases, hfailed, hiff⟩ :=
    run_erases hrest (ownSlots_defined (h.still_defined he) hown)
  rw [h.pool he] at herases
  have hside := own_side _ h.ascending (h.at_failure he) herases (hiff.mp hown)
  intro later hlater
  rw [← hfailed] at hlater
  obtain ⟨p, hp, rfl⟩ := List.mem_map.mp hlater
  exact hside p hp

theorem Settled.failure (h : Settled (c :: cs) s) (he : c.error ≠ 0)
    (hside : ∀ later ∈ failed cs, if frontMoves (c.conn - s.pool.first) s.pool.items.length
      then c.conn < later else later < c.conn) :
    Settled cs (complete frontMoves c s) := by
  have hat := h.at_failure he
  refine ⟨?_, ?_, h.still_defined he, fun conn hmem => ?_⟩
  · rw [h.pool he]
    exact ascending_eraseIdx _ hat h.ascending
  · rw [h.pool he]
    exact h.nodup.eraseIdx _
  · rw [h.pool he, at_unmoved _ hat (hside conn hmem)]
    apply h.own
    rw [failed_failure he]
    exact List.mem_cons_of_mem _ hmem

theorem ownSlots_iff (h : Settled cs s) : OwnSlots frontMoves cs s ↔
    Undisturbed frontMoves (failed cs) s.pool.first s.pool.items.length := by
  induction cs generalizing s with
  | nil => simp [OwnSlots, Undisturbed, failed]
  | cons c cs ih =>
    by_cases he : c.error = 0
    · have hsettled : Settled cs (complete frontMoves c s) := h.success he
      have hrest := ih hsettled
      rw [complete_success he] at hrest
      rw [failed_success he]
      simpa [OwnSlots, he] using hrest
    · obtain ⟨hlt, -⟩ := List.getElem?_eq_some_iff.mp (at_eq_some.mp (h.at_failure he)).2
      have hlength : (complete frontMoves c s).pool.items.length = s.pool.items.length - 1 := by
        rw [h.pool he]
        exact List.length_eraseIdx_of_lt hlt
      have hfirst : (complete frontMoves c s).pool.first =
          if frontMoves (c.conn - s.pool.first) s.pool.items.length then s.pool.first + 1
            else s.pool.first := by
        rw [h.pool he]
        rfl
      rw [failed_failure he, OwnSlots, Undisturbed, ← hfirst, ← hlength]
      constructor
      · rintro ⟨-, hown⟩
        have hside := h.later_unmoved he hown
        exact ⟨hside, (ih (h.failure he hside)).mp hown⟩
      · rintro ⟨hside, hrest⟩
        exact ⟨fun _ => h.at_failure he, (ih (h.failure he hside)).mpr hrest⟩

/-- For every number of connections, every outcome of the attempts and every order of their
completions: the pool starts up as documented exactly when no erasure moves a connection that fails
later. -/
theorem startedUp_iff (hn : 1 ≤ n) (hcs : AllAttempted n cs) :
    StartedUp cs (run frontMoves cs (initial n)) ↔ Undisturbed frontMoves (failed cs) 0 n := by
  have hat : ∀ conn ∈ failed cs, (initial n).pool.at conn = some conn := by
    intro conn hmem
    have hlt : conn < n := by
      have hattempted := (attempted_split cs).trans hcs
      exact List.mem_range.mp (hattempted.mem_iff.mp (List.mem_append_right _ hmem))
    simp [initial, at_eq_some, hlt]
  have hown : OwnSlots frontMoves cs (initial n) ↔
      Undisturbed frontMoves (failed cs) 0 (List.range n).length :=
    ownSlots_iff ⟨range_ascending n, List.nodup_range, rfl, hat⟩
  rw [startedUp_iff_ownSlots hn hcs, hown, List.length_range]

/-- GNU's `deque::erase` moves the elements in front when they are fewer than half. -/
def gnuFrontMoves (i len : ℕ) : Bool := i < len / 2

/-- The second failure is behind the first, which was in the first half. -/
def undisturbedFailures : List Completion := [⟨1, 2003⟩, ⟨3, 2002⟩, ⟨0, 0⟩, ⟨2, 0⟩]

theorem startedUp_iff_undisturbedFailures :
    StartedUp undisturbedFailures (run gnuFrontMoves undisturbedFailures (initial 4)) := by
  refine (startedUp_iff (by decide) (by unfold AllAttempted; decide)).mpr ?_
  simp [Undisturbed, undisturbedFailures, failed, gnuFrontMoves]

/-- The second failure finds the last connection in the slot of the fourth. -/
def twoFailures : List Completion := [⟨2, 2003⟩, ⟨3, 2003⟩, ⟨0, 0⟩, ⟨1, 0⟩, ⟨4, 0⟩]

theorem twoFailures_keep_failed : AllAttempted 5 twoFailures ∧
    (run gnuFrontMoves twoFailures (initial 5)).pool.items = [0, 1, 3] ∧
    succeeded twoFailures = [0, 1, 4] ∧
    ¬ StartedUp twoFailures (run gnuFrontMoves twoFailures (initial 5)) := by
  have hitems : (run gnuFrontMoves twoFailures (initial 5)).pool.items = [0, 1, 3] := by decide
  have hsucceeded : succeeded twoFailures = [0, 1, 4] := by decide
  refine ⟨by unfold AllAttempted; decide, hitems, hsucceeded, fun h => ?_⟩
  have hpool := h.pool
  rw [hitems, hsucceeded] at hpool
  exact absurd hpool (by decide)

end Runs

end PoolConnect

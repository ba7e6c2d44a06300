import Otservpp.SqlFetch

/-! # The result that a prepared statement leaves behind

The calls that `runPrepared` makes on the statement, in their order and with their answers, and
what libmysql documents of each of them: a successful execution of a statement with columns opens
an unbuffered result, `mysql_stmt_store_result` buffers it, a fetch that returns `MYSQL_NO_DATA`
closes an unbuffered result, and `mysql_stmt_free_result` closes every result. -/
namespace SqlRelease

open SqlFetch

section Library

variable {n : ℕ} (schema : Fin n → ColumnType)

inductive FetchStatus where
  | row (cells : Cells schema)
  | noData
  | failed (error : ErrorCode)

/-- The calls that matter to a result; an error of zero is success. -/
inductive Call where
  | execute (error : ErrorCode)
  | bindResult (error : ErrorCode)
  | storeResult (error : ErrorCode)
  | fetch (status : FetchStatus schema)
  | freeResult

inductive ResultState where
  | closed
  | unbuffered
  | stored
  deriving DecidableEq, Repr

variable {schema}

def effect (fieldCount : ℕ) : ResultState → Call schema → ResultState
  | r, .execute error =>
    if error ≠ 0 then r else if fieldCount = 0 then .closed else .unbuffered
  | .unbuffered, .storeResult error => if error ≠ 0 then .unbuffered else .stored
  | .unbuffered, .fetch .noData => .closed
  | _, .freeResult => .closed
  | r, _ => r

def resultState (fieldCount : ℕ) (calls : List (Call schema)) : ResultState :=
  calls.foldl (effect fieldCount) .closed

def fetchedRows (calls : List (Call schema)) : List (Cells schema) :=
  calls.filterMap fun
    | .fetch (.row cells) => some cells
    | _ => none

end Library

section Service

variable {n : ℕ} {schema : Fin n → ColumnType}

def lastFetch (ending : ErrorCode) : Call schema :=
  .fetch (if ending ≠ 0 then .failed ending else .noData)

def loopCalls (ending : ErrorCode) : List (Cells schema) → State schema → List (Call schema)
  | [], _ => [lastFetch ending, .freeResult]
  | cells :: rows, s =>
    let stored := storeRowSet cells (stmtFetch cells s)
    .fetch (.row cells) ::
      if stored.1 then loopCalls ending rows stored.2 else [.freeResult]

/-- `bindStmtOutput` for a `RowSet`. -/
def setCalls (x : Execution schema) (out : List (Row schema)) : List (Call schema) :=
  .bindResult x.bindError ::
    if x.bindError ≠ 0 then []
    else .storeResult x.storeError ::
      if x.storeError ≠ 0 then []
      else if x.maxSize < out.length + x.rows.length then []
      else if !x.reserves then [.freeResult]
      else loopCalls x.ending x.rows (bindResult .holder out)

/-- `bindStmtOutput` for a `Row`. -/
def rowCalls (x : Execution schema) : List (Call schema) :=
  .bindResult x.bindError ::
    if x.bindError ≠ 0 then []
    else
      match x.rows with
      | cells :: _ => [.fetch (.row cells)]
      | [] => [lastFetch x.ending]

def outputCalls (x : Execution schema) : Output schema → List (Call schema)
  | .row _ => rowCalls x
  | .rowSet out => setCalls x out

/-- The calls up to the moment at which the handler is posted. -/
def calls (x : Execution schema) (out : Output schema) : List (Call schema) :=
  if x.fieldCount ≠ n then []
  else .execute x.executeError ::
    if x.executeError ≠ 0 then [] else outputCalls x out

end Service

section Specification

variable {n : ℕ} {schema : Fin n → ColumnType}

def ProducesResult (x : Execution schema) (out : Output schema) : Prop :=
  .execute 0 ∈ calls x out ∧ x.fieldCount ≠ 0

def Released (x : Execution schema) (out : Output schema) : Prop :=
  ¬ ProducesResult x out ∨ .freeResult ∈ calls x out ∨
    (.fetch .noData ∈ calls x out ∧ .storeResult 0 ∉ calls x out)

/-- The single-row overload has to meet the end of the result with its only fetch, the other one
has to get past the size of the vector. -/
def Closes (x : Execution schema) : Output schema → Prop
  | .row _ => x.bindError = 0 ∧ x.rows = [] ∧ x.ending = 0
  | .rowSet out => x.bindError = 0 ∧ x.storeError = 0 ∧ out.length + x.rows.length ≤ x.maxSize

def Opens (x : Execution schema) : Prop := x.fieldCount = n ∧ x.executeError = 0 ∧ n ≠ 0

end Specification

section Tracing

variable {n : ℕ} {schema : Fin n → ColumnType}

theorem loopCalls_fetched (ending : ErrorCode) (rows : List (Cells schema)) (s : State schema) :
    (fetchLoop ending rows s).fetched = s.fetched ++ fetchedRows (loopCalls ending rows s) := by
  induction rows generalizing s with
  | nil =>
    by_cases ended : ending = 0
    · simp [fetchLoop, loopCalls, lastFetch, fetchedRows, ended]
    · simp [fetchLoop, loopCalls, lastFetch, fetchedRows, ended]
  | cons cells rows ih =>
    have fetched : (storeRowSet cells (stmtFetch cells s)).2.fetched = s.fetched ++ [cells] := rfl
    by_cases ok : (storeRowSet cells (stmtFetch cells s)).1 = true
    · simp only [fetchLoop, loopCalls, ok, if_true, ih, fetched, List.append_assoc]
      rfl
    · simp only [fetchLoop, loopCalls, ok, fetched]
      rfl

theorem rowCalls_fetched (x : Execution schema) (out : Row schema) :
    fetchedRows (rowCalls x) = (bindStmtOutputRow x out).fetched := by
  unfold rowCalls bindStmtOutputRow
  by_cases bound : x.bindError = 0
  swap
  · simp [bound, fetchedRows]
  cases x.rows with
  | nil =>
    by_cases ended : x.ending = 0
    · simp [bound, lastFetch, fetchedRows, ended]
    · simp [bound, lastFetch, fetchedRows, ended]
  | cons cells rest =>
    have single : fetchedRows [.bindResult 0, .fetch (.row cells)] = [cells] := rfl
    simp only [bound, ne_eq, not_true_eq_false, if_false]
    exact single

theorem setCalls_fetched (x : Execution schema) (out : List (Row schema)) :
    fetchedRows (setCalls x out) = (bindStmtOutputSet x out).fetched := by
  unfold setCalls bindStmtOutputSet
  by_cases bound : x.bindError = 0
  swap
  · simp [bound, fetchedRows]
  by_cases stored : x.storeError = 0
  swap
  · simp [bound, stored, fetchedRows]
  by_cases fits : out.length + x.rows.length ≤ x.maxSize
  swap
  · simp [bound, stored, Nat.lt_of_not_le fits, fetchedRows]
  cases x.reserves with
  | false => simp [bound, stored, Nat.not_lt.mpr fits, fetchedRows]
  | true =>
    have loop := loopCalls_fetched x.ending x.rows (bindResult .holder out)
    simp only [bound, stored, Nat.not_lt.mpr fits, ne_eq, not_true_eq_false, if_false,
      Bool.not_true, Bool.false_eq_true, loop]
    rfl

theorem calls_fetched (x : Execution schema) (out : Output schema) :
    fetchedRows (calls x out) = (runPrepared x out).fetched := by
  unfold calls runPrepared
  by_cases count : x.fieldCount = n
  swap
  · simp [count, fetchedRows]
  by_cases executed : x.executeError = 0
  swap
  · simp [count, executed, fetchedRows]
  have output : fetchedRows (outputCalls x out) = (bindStmtOutput x out).fetched := by
    cases out with
    | row out => exact rowCalls_fetched x out
    | rowSet out => exact setCalls_fetched x out
  simp only [count, executed, ne_eq, not_true_eq_false, if_false]
  exact output

/-- However the loop ends, it frees the result, and nothing before that changes a stored one. -/
theorem loopCalls_frees (ending : ErrorCode) (rows : List (Cells schema)) (s : State schema) :
    .freeResult ∈ loopCalls ending rows s ∧
      ∀ fieldCount, (loopCalls ending rows s).foldl (effect fieldCount) .stored = .closed := by
  induction rows generalizing s with
  | nil => exact ⟨by simp [loopCalls], fun _ => rfl⟩
  | cons cells rows ih =>
    by_cases ok : (storeRowSet cells (stmtFetch cells s)).1 = true
    · obtain ⟨freed, state⟩ := ih (storeRowSet cells (stmtFetch cells s)).2
      exact ⟨by simp [loopCalls, ok, freed], fun f => by simpa [loopCalls, ok, effect] using state f⟩
    · exact ⟨by simp [loopCalls, ok], fun f => by simp [loopCalls, ok, effect]⟩

theorem setCalls_closing {x : Execution schema} {out : List (Row schema)}
    (closes : Closes x (.rowSet out)) :
    ∃ tail, setCalls x out = .bindResult 0 :: .storeResult 0 :: tail ∧ .freeResult ∈ tail ∧
      ∀ fieldCount, tail.foldl (effect fieldCount) .stored = .closed := by
  obtain ⟨bound, stored, fits⟩ := closes
  cases reserved : x.reserves with
  | false =>
    refine ⟨[.freeResult], ?_, List.mem_singleton_self _, fun _ => rfl⟩
    simp [setCalls, bound, stored, Nat.not_lt.mpr fits, reserved]
  | true =>
    refine ⟨loopCalls x.ending x.rows (bindResult .holder out), ?_, loopCalls_frees _ _ _⟩
    simp [setCalls, bound, stored, Nat.not_lt.mpr fits, reserved]

theorem setCalls_leaving {x : Execution schema} {out : List (Row schema)}
    (leaves : ¬ Closes x (.rowSet out)) :
    setCalls x out = [.bindResult x.bindError] ∨
      setCalls x out = [.bindResult 0, .storeResult x.storeError] := by
  by_cases bound : x.bindError = 0
  swap
  · simp [setCalls, bound]
  right
  by_cases stored : x.storeError = 0
  swap
  · simp [setCalls, bound, stored]
  have big : x.maxSize < out.length + x.rows.length :=
    Nat.lt_of_not_le fun fits => leaves ⟨bound, stored, fits⟩
  simp [setCalls, bound, stored, big]

theorem free_mem_setCalls (x : Execution schema) (out : List (Row schema)) :
    .freeResult ∈ setCalls x out ↔ Closes x (.rowSet out) := by
  by_cases closes : Closes x (.rowSet out)
  · obtain ⟨tail, calls, freed, -⟩ := setCalls_closing closes
    simp [calls, freed, closes]
  · rcases setCalls_leaving closes with calls | calls <;> simp [calls, closes]

theorem stored_of_fetch {x : Execution schema} {out : List (Row schema)}
    {status : FetchStatus schema} (fetch : .fetch status ∈ setCalls x out) :
    .storeResult 0 ∈ setCalls x out := by
  by_cases closes : Closes x (.rowSet out)
  · obtain ⟨tail, calls, -⟩ := setCalls_closing closes
    simp [calls]
  · rcases setCalls_leaving closes with calls | calls <;> simp [calls] at fetch

theorem rowCalls_closed (x : Execution schema) (out : Row schema) :
    .fetch .noData ∈ rowCalls x ↔ Closes x (.row out) := by
  unfold rowCalls Closes
  by_cases bound : x.bindError = 0
  swap
  · simp [bound]
  cases rows : x.rows with
  | nil =>
    by_cases ended : x.ending = 0 <;> simp [bound, lastFetch, ended]
  | cons cells rest => simp [bound]

theorem rowCalls_unbuffered (x : Execution schema) :
    .freeResult ∉ rowCalls x ∧ .storeResult 0 ∉ rowCalls x := by
  unfold rowCalls
  by_cases bound : x.bindError = 0
  swap
  · simp [bound]
  cases rows : x.rows with
  | nil => simp [bound, lastFetch]
  | cons cells rest => simp [bound]

theorem producesResult_iff (x : Execution schema) (out : Output schema) :
    ProducesResult x out ↔ Opens x := by
  unfold ProducesResult Opens calls
  by_cases count : x.fieldCount = n
  swap
  · simp [count]
  by_cases executed : x.executeError = 0
  · simp [count, executed]
  · simp [count, executed, Ne.symm executed]

theorem calls_opened {x : Execution schema} (opens : Opens x) (out : Output schema) :
    calls x out = .execute 0 :: outputCalls x out := by
  obtain ⟨count, executed, -⟩ := opens
  simp [calls, count, executed]

/-- The result is released exactly on the paths that reach its end or the call that frees it. -/
theorem released_iff (x : Execution schema) (out : Output schema) :
    Released x out ↔ (Opens x → Closes x out) := by
  unfold Released
  rw [producesResult_iff]
  by_cases opens : Opens x
  swap
  · simp [opens]
  rw [calls_opened opens out]
  simp only [opens, not_true_eq_false, false_or, forall_const]
  cases out with
  | row out =>
    obtain ⟨unfreed, unstored⟩ := rowCalls_unbuffered x
    simp [outputCalls, unfreed, unstored, rowCalls_closed x out]
  | rowSet out =>
    simp only [outputCalls, List.mem_cons, reduceCtorEq, false_or, free_mem_setCalls]
    constructor
    · rintro (closes | ⟨fetch, unstored⟩)
      · exact closes
      · exact absurd (stored_of_fetch fetch) unstored
    · exact Or.inl

end Tracing

section Reached

variable {n : ℕ} {schema : Fin n → ColumnType}

theorem outputCalls_state (x : Execution schema) (out : Output schema) :
    (outputCalls x out).foldl (effect x.fieldCount) .unbuffered = .closed ↔ Closes x out := by
  cases out with
  | row out =>
    by_cases bound : x.bindError = 0
    swap
    · simp [outputCalls, rowCalls, Closes, bound, effect]
    cases rows : x.rows with
    | nil =>
      by_cases ended : x.ending = 0 <;>
        simp [outputCalls, rowCalls, Closes, bound, rows, lastFetch, ended, effect]
    | cons cells rest => simp [outputCalls, rowCalls, Closes, bound, rows, effect]
  | rowSet out =>
    by_cases closes : Closes x (.rowSet out)
    · obtain ⟨tail, calls, -, state⟩ := setCalls_closing closes
      simp [outputCalls, calls, effect, state, closes]
    · rcases setCalls_leaving closes with calls | calls
      · simp [outputCalls, calls, effect, closes]
      · by_cases stored : x.storeError = 0 <;> simp [outputCalls, calls, effect, closes, stored]

theorem resultState_no_columns (calls : List (Call schema)) : resultState 0 calls = .closed := by
  unfold resultState
  induction calls with
  | nil => rfl
  | cons call calls ih =>
    have stays : effect 0 .closed call = .closed := by cases call <;> simp [effect]
    rw [List.foldl_cons, stays, ih]

/-- What is left open is what the library documents to be open. -/
theorem released_iff_closed (x : Execution schema) (out : Output schema) :
    Released x out ↔ resultState x.fieldCount (calls x out) = .closed := by
  rw [released_iff]
  by_cases columns : x.fieldCount = 0
  · have unopened : ¬ Opens x := fun opens => opens.2.2 (opens.1.symm.trans columns)
    simp [unopened, columns, resultState_no_columns]
  by_cases opens : Opens x
  · simp [opens, calls_opened opens, resultState, effect, columns, outputCalls_state]
  · simp only [opens, false_implies, true_iff]
    by_cases count : x.fieldCount = n
    swap
    · simp [calls, count, resultState]
    have failed : x.executeError ≠ 0 := fun executed =>
      opens ⟨count, executed, fun empty => columns (count.trans empty)⟩
    simp [calls, count, failed, resultState, effect]

/-- When the handler is posted no result is left open, by the calls that were made and by the state
of the statement, exactly if the execution opened none or the overload closed it. -/
theorem nothing_left_open_iff (x : Execution schema) (out : Output schema) :
    (Released x out ∧ resultState x.fieldCount (calls x out) = .closed) ↔
      (Opens x → Closes x out) := by
  rw [← released_iff_closed, and_self, released_iff]

theorem oneInt_left_open :
    (runPrepared oneInt (.row (emptyRow intColumn))).post.error = 0 ∧
      ¬ Released oneInt (.row (emptyRow intColumn)) := by
  refine ⟨rfl, ?_⟩
  intro released
  have opens : Opens oneInt := ⟨rfl, rfl, by decide⟩
  obtain ⟨-, rows, -⟩ := (released_iff oneInt (.row (emptyRow intColumn))).mp released opens
  cases rows

end Reached

end SqlRelease

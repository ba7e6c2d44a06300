import Mathlib.Algebra.Group.Int.Defs
import Mathlib.Algebra.Group.Nat.Defs
import Mathlib.Data.List.FinRange
import Mathlib.Data.List.TakeDrop
import Mathlib.Logic.Function.Basic

/-! # Fetching the result of a prepared statement

`runPrepared` with an output, over what libmysql documents: a fetch writes to the buffers that the
last `mysql_stmt_bind_result` was given. A buffer is named by the tuple in which it lies; the
buffer of a column is always the element of that column. -/
namespace SqlFetch

/-- The value of an `error_code`; it tests as an error when it is not zero. -/
abbrev ErrorCode := ℕ

inductive ColumnType where
  | integer (size : ℕ) (isUnsigned : Bool)
  | floating (size : ℕ)
  | string
  deriving DecidableEq, Repr

abbrev Value : ColumnType → Type
  | .integer _ _ => ℤ
  | .floating _ => ℕ
  | .string => List UInt8

/-- What the server sends for a column: a floating-point number as the image it is converted to,
with the truncation that the conversion reports. -/
abbrev Field : ColumnType → Type
  | .integer _ _ => ℤ
  | .floating _ => ℕ × Bool
  | .string => List UInt8

def zero : (t : ColumnType) → Value t
  | .integer _ _ => (0 : ℤ)
  | .floating _ => (0 : ℕ)
  | .string => []

section Library

/-- An integer column keeps the low bytes of an integer. -/
def wrap (size : ℕ) (isUnsigned : Bool) (k : ℤ) : ℤ :=
  if isUnsigned then k % 2 ^ (8 * size) else k.bmod (2 ^ (8 * size))

def convert : (t : ColumnType) → Field t → Value t
  | .integer size isUnsigned, k => wrap size isUnsigned k
  | .floating _, field => field.1
  | .string, bytes => bytes

/-- A string is bound to a buffer of no length. -/
def truncated : (t : ColumnType) → Field t → Bool
  | .integer size isUnsigned, k => wrap size isUnsigned k ≠ k
  | .floating _, field => field.2
  | .string, bytes => bytes ≠ []

def fieldLength : (t : ColumnType) → Field t → ℕ
  | .integer size _, _ => size
  | .floating size, _ => size
  | .string, bytes => bytes.length

structure BindOutReg where
  error : Bool
  null : Bool
  length : ℕ
  deriving DecidableEq, Repr

/-- What `mysql_stmt_fetch` leaves in the registers of a column; `none` is NULL. -/
def fetchReg (t : ColumnType) (cell : Option (Field t)) (reg : BindOutReg) : BindOutReg :=
  match cell with
  | none => { reg with error := false, null := true }
  | some field => ⟨truncated t field, false, fieldLength t field⟩

def fetchValue (t : ColumnType) (cell : Option (Field t)) (old : Value t) : Value t :=
  match cell with
  | none => old
  | some field => convert t field

/-- `mysql_stmt_fetch_column` into a buffer of zero bytes. -/
def fetchColumn (cell : Option (List UInt8)) (length : ℕ) : List UInt8 :=
  (cell.getD []).takeD length 0

def fetchColumnReg (cell : Option (List UInt8)) (reg : BindOutReg) : BindOutReg :=
  match cell with
  | none => { reg with error := false, null := true }
  | some bytes => ⟨false, false, bytes.length⟩

end Library

section Binding

/-- `row k` is the tuple at position `k` of the output, `temporary` the vector that
`storeOneResult` fetches a string into. -/
inductive Location where
  | holder
  | row (k : ℕ)
  | temporary
  deriving DecidableEq, Repr

structure Bind where
  buffer : Option Location
  bufferLength : ℕ
  deriving DecidableEq, Repr

/-- The buffer of a string is fetched after its size is known. -/
def bindBuffer (loc : Location) (t : ColumnType) (bind : Bind) : Bind :=
  match t with
  | .string => ⟨none, 0⟩
  | _ => { bind with buffer := some loc }

structure Column (t : ColumnType) where
  bind : Bind
  reg : BindOutReg
  value : Value t

/-- The overloads for numbers and for strings. -/
def storeOneResult : (t : ColumnType) → Option (Field t) → Column t → Bool × Column t
  | .integer _ _, _, c => (!c.reg.null && !c.reg.error, c)
  | .floating _, _, c => (!c.reg.null && !c.reg.error, c)
  | .string, cell, c =>
    if 0 < c.reg.length then
      (true, ⟨⟨some .temporary, c.reg.length⟩, fetchColumnReg cell c.reg,
        fetchColumn cell c.reg.length⟩)
    else (true, c)

end Binding

section Fetching

variable {n : ℕ} (schema : Fin n → ColumnType)

abbrev Row := (i : Fin n) → Value (schema i)

abbrev Cells := (i : Fin n) → Option (Field (schema i))

def emptyRow : Row schema := fun i => zero (schema i)

variable {schema}

def storeColumns (cells : Cells schema) :
    List (Fin n) → ((i : Fin n) → Column (schema i)) → Bool × ((i : Fin n) → Column (schema i))
  | [], cs => (true, cs)
  | i :: is, cs =>
    if (storeOneResult (schema i) (cells i) (cs i)).1 then
      storeColumns cells is (Function.update cs i (storeOneResult (schema i) (cells i) (cs i)).2)
    else (false, Function.update cs i (storeOneResult (schema i) (cells i) (cs i)).2)

/-- From the last column down to the first. -/
def storeResult (cells : Cells schema) (cs : (i : Fin n) → Column (schema i)) :
    Bool × ((i : Fin n) → Column (schema i)) :=
  storeColumns cells (List.finRange n).reverse cs

variable (schema)

/-- The `BindOutHelper` with its output, and the statement: `bound` is the copy that the library
made of `it`, and `errno` what `mysql_stmt_errno` returns. `fetched` are the rows fetched. -/
structure State where
  holder : Row schema
  result : List (Row schema)
  it : Fin n → Bind
  bound : Fin n → Bind
  reg : Fin n → BindOutReg
  errno : ErrorCode
  fetched : List (Cells schema)

variable {schema}

/-- The constructor of the helper and `mysql_stmt_bind_result`. -/
def bindResult (loc : Location) (result : List (Row schema)) : State schema :=
  { holder := emptyRow schema
    result := result
    it := fun i => bindBuffer loc (schema i) ⟨none, 0⟩
    bound := fun i => bindBuffer loc (schema i) ⟨none, 0⟩
    reg := fun _ => ⟨false, false, 0⟩
    errno := 0
    fetched := [] }

def writeBuffers (bound : Fin n → Bind) (cells : Cells schema) (loc : Location)
    (row : Row schema) : Row schema := fun i =>
  if (bound i).buffer = some loc then fetchValue (schema i) (cells i) (row i) else row i

/-- `mysql_stmt_fetch` returning 0 or `MYSQL_DATA_TRUNCATED`. -/
def stmtFetch (cells : Cells schema) (s : State schema) : State schema :=
  { s with
    holder := writeBuffers s.bound cells .holder s.holder
    result := s.result.mapIdx fun k row => writeBuffers s.bound cells (.row k) row
    reg := fun i => fetchReg (schema i) (cells i) (s.reg i)
    errno := 0
    fetched := s.fetched ++ [cells] }

def storeInto (k : ℕ) (cells : Cells schema) (s : State schema) : Bool × State schema :=
  let row := (s.result[k]?).getD (emptyRow schema)
  let stored := storeResult cells fun i => ⟨s.it i, s.reg i, row i⟩
  (stored.1,
    { s with
      it := fun i => (stored.2 i).bind
      reg := fun i => (stored.2 i).reg
      result := s.result.set k fun i => (stored.2 i).value })

/-- `BindOutHelper<Row<Out...>>::store`. -/
def storeRow (cells : Cells schema) (s : State schema) : Bool × State schema :=
  storeInto 0 cells s

def emplace (s : State schema) : State schema :=
  { s with result := s.result ++ [emptyRow schema] }

def bindResultBuffer (k : ℕ) (s : State schema) : State schema :=
  { s with it := fun i => bindBuffer (.row k) (schema i) (s.it i) }

/-- `BindOutHelper<RowSet<Out...>>::store`. -/
def storeRowSet (cells : Cells schema) (s : State schema) : Bool × State schema :=
  storeInto s.result.length cells (bindResultBuffer s.result.length (emplace s))

end Fetching

section Service

/-- What the handler is called with; `rows` is for a handler that takes a second argument. -/
structure Post where
  error : ErrorCode
  rows : ℕ
  deriving DecidableEq, Repr

/-- `e` says whether the operation failed, and `errno` is read only then. -/
def postHandlerOrError (errno : ErrorCode) (e : Bool) (rows : ℕ) : Post :=
  if e then ⟨errno, rows⟩ else ⟨0, rows⟩

def postError (error : ErrorCode) : Post := ⟨error, 0⟩

variable {n : ℕ} (schema : Fin n → ColumnType)

/-- What the execution of a statement meets: the answers of the library, zero where a call
succeeds, and of the vector. `crErrorLast` is the last error number of the library, and `ending`
is the error of the fetch after the last row, zero for `MYSQL_NO_DATA`. -/
structure Execution where
  crErrorLast : ℕ
  fieldCount : ℕ
  executeError : ErrorCode
  bindError : ErrorCode
  storeError : ErrorCode
  maxSize : ℕ
  reserves : Bool
  rows : List (Cells schema)
  ending : ErrorCode

structure Outcome where
  post : Post
  result : List (Row schema)
  fetched : List (Cells schema)

inductive Output where
  | row (out : Row schema)
  | rowSet (out : List (Row schema))

variable {schema}

def badFieldCount (x : Execution schema) : ErrorCode := x.crErrorLast + 1

def resultIsTooBig (x : Execution schema) : ErrorCode := x.crErrorLast + 2

/-- `CR_OUT_OF_MEMORY`. -/
def outOfMemory : ErrorCode := 2008

/-- The loop over the rows; `mysql_stmt_free_result` leaves the error number as it is. -/
def fetchLoop (ending : ErrorCode) : List (Cells schema) → State schema → Outcome schema
  | [], s => ⟨postHandlerOrError ending (ending ≠ 0) 0, s.result, s.fetched⟩
  | cells :: rows, s =>
    let stored := storeRowSet cells (stmtFetch cells s)
    if stored.1 then fetchLoop ending rows stored.2
    else ⟨postError stored.2.errno, stored.2.result, stored.2.fetched⟩

/-- `bindStmtOutput` for a `RowSet`. -/
def bindStmtOutputSet (x : Execution schema) (out : List (Row schema)) : Outcome schema :=
  if x.bindError ≠ 0 then ⟨postError x.bindError, out, []⟩
  else if x.storeError ≠ 0 then ⟨postError x.storeError, out, []⟩
  else if x.maxSize < out.length + x.rows.length then ⟨postError (resultIsTooBig x), out, []⟩
  else if !x.reserves then ⟨postError outOfMemory, out, []⟩
  else fetchLoop x.ending x.rows (bindResult .holder out)

/-- `bindStmtOutput` for a `Row`. -/
def bindStmtOutputRow (x : Execution schema) (out : Row schema) : Outcome schema :=
  if x.bindError ≠ 0 then ⟨postError x.bindError, [out], []⟩
  else
    match x.rows with
    | cells :: _ =>
      let stored := storeRow cells (stmtFetch cells (bindResult (.row 0) [out]))
      ⟨postHandlerOrError stored.2.errno (!stored.1) 1, stored.2.result, stored.2.fetched⟩
    | [] => ⟨postHandlerOrError x.ending (x.ending ≠ 0) 0, [out], []⟩

def bindStmtOutput (x : Execution schema) : Output schema → Outcome schema
  | .row out => bindStmtOutputRow x out
  | .rowSet out => bindStmtOutputSet x out

def Output.tuples : Output schema → List (Row schema)
  | .row out => [out]
  | .rowSet out => out

def runPrepared (x : Execution schema) (out : Output schema) : Outcome schema :=
  if x.fieldCount ≠ n then ⟨postError (badFieldCount x), out.tuples, []⟩
  else if x.executeError ≠ 0 then ⟨postError x.executeError, out.tuples, []⟩
  else bindStmtOutput x out

end Service

section Specification

def isNumber : ColumnType → Bool
  | .string => false
  | _ => true

/-- What `storeOneResult` is to reject: a number that is NULL or does not fit. -/
def rejects (t : ColumnType) (cell : Option (Field t)) : Bool :=
  match cell with
  | none => isNumber t
  | some field => isNumber t && truncated t field

def columnValue : (t : ColumnType) → Option (Field t) → Value t
  | .integer _ _, some k => k
  | .floating _, some field => field.1
  | .string, some bytes => bytes
  | t, none => zero t

variable {n : ℕ} {schema : Fin n → ColumnType}

def tuple (cells : Cells schema) : Row schema := fun i => columnValue (schema i) (cells i)

/-- No NULL and no number that is truncated. -/
def Complete (cells : Cells schema) : Prop :=
  ∀ i, (cells i).isSome ∧ rejects (schema i) (cells i) = false

def Rejected (cells : Cells schema) : Prop := ∃ i, rejects (schema i) (cells i) = true

def RowsIntact (x : Execution schema) (out : List (Row schema)) : Prop :=
  (runPrepared x (.rowSet out)).result = out ++ x.rows.map tuple

/-- What the loop makes of a row: the numbers stay where the first binding has put them. -/
def storedTuple (cells : Cells schema) : Row schema := fun i =>
  if isNumber (schema i) then zero (schema i) else tuple cells i

def NumbersZero (cells : Cells schema) : Prop :=
  ∀ i, isNumber (schema i) = true → tuple cells i = zero (schema i)

/-- The calls before the first fetch succeed. -/
def Reaches (x : Execution schema) : Output schema → Prop
  | .row _ => x.fieldCount = n ∧ x.executeError = 0 ∧ x.bindError = 0
  | .rowSet out => x.fieldCount = n ∧ x.executeError = 0 ∧ x.bindError = 0 ∧ x.storeError = 0 ∧
      out.length + x.rows.length ≤ x.maxSize ∧ x.reserves = true

def rowsToFetch (x : Execution schema) : Output schema → List (Cells schema)
  | .row _ => x.rows.take 1
  | .rowSet _ => x.rows

def ReportsRejection (o : Outcome schema) : Prop :=
  (∃ cells ∈ o.fetched, Rejected cells) → o.post.error ≠ 0

end Specification

section Storing

theorem storeOneResult_fetched (t : ColumnType) (cell : Option (Field t)) (bind : Bind)
    (reg : BindOutReg) (v : Value t) :
    (storeOneResult t cell ⟨bind, fetchReg t cell reg, v⟩).1 = !rejects t cell := by
  cases t with
  | integer size isUnsigned => cases cell <;> simp [storeOneResult, fetchReg, rejects, isNumber]
  | floating size => cases cell <;> simp [storeOneResult, fetchReg, rejects, isNumber]
  | string => cases cell <;> simp [storeOneResult, rejects, isNumber] <;> split <;> rfl

theorem storeOneResult_number {t : ColumnType} (number : isNumber t = true)
    (cell : Option (Field t)) (c : Column t) : (storeOneResult t cell c).2 = c := by
  cases t with
  | integer size isUnsigned => rfl
  | floating size => rfl
  | string => simp [isNumber] at number

theorem storeOneResult_string {t : ColumnType} (string : isNumber t = false) (field : Field t)
    (bind : Bind) (reg : BindOutReg) :
    (storeOneResult t (some field) ⟨bind, fetchReg t (some field) reg, zero t⟩).2.value =
      columnValue t (some field) := by
  cases t with
  | integer size isUnsigned => simp [isNumber] at string
  | floating size => simp [isNumber] at string
  | string =>
    by_cases empty : field = []
    · subst empty
      rfl
    · have positive : 0 < field.length := List.length_pos_iff.mpr empty
      simp [storeOneResult, fetchReg, fieldLength, positive, fetchColumn, columnValue,
        List.takeD_eq_take]

variable {n : ℕ} {schema : Fin n → ColumnType} {cells : Cells schema}

theorem storeColumns_ok {is : List (Fin n)} (distinct : is.Nodup)
    (cs : (i : Fin n) → Column (schema i)) :
    (storeColumns cells is cs).1 = true ↔
      ∀ i ∈ is, (storeOneResult (schema i) (cells i) (cs i)).1 = true := by
  induction is generalizing cs with
  | nil => simp [storeColumns]
  | cons i is ih =>
    obtain ⟨fresh, distinct⟩ := List.nodup_cons.mp distinct
    simp only [storeColumns, List.forall_mem_cons]
    split
    · rename_i ok
      simp only [ih distinct, ok, true_and]
      refine forall₂_congr fun j hj => ?_
      rw [Function.update_of_ne (ne_of_mem_of_not_mem hj fresh)]
    · rename_i ok
      simp [ok]

theorem storeColumns_columns {is : List (Fin n)} (distinct : is.Nodup)
    {cs : (i : Fin n) → Column (schema i)}
    (ok : ∀ i ∈ is, (storeOneResult (schema i) (cells i) (cs i)).1 = true) (i : Fin n) :
    (storeColumns cells is cs).2 i =
      if i ∈ is then (storeOneResult (schema i) (cells i) (cs i)).2 else cs i := by
  induction is generalizing cs with
  | nil => simp [storeColumns]
  | cons j is ih =>
    obtain ⟨fresh, distinct⟩ := List.nodup_cons.mp distinct
    obtain ⟨okj, ok⟩ := List.forall_mem_cons.mp ok
    have others : ∀ k ∈ is, Function.update cs j (storeOneResult (schema j) (cells j) (cs j)).2 k =
        cs k := fun k hk => Function.update_of_ne (ne_of_mem_of_not_mem hk fresh) _ _
    simp only [storeColumns, okj, if_true]
    rw [ih distinct fun k hk => by rw [others k hk]; exact ok k hk]
    by_cases hi : i ∈ is
    · simp [hi, others i hi]
    · by_cases same : i = j
      · subst same
        simp [fresh]
      · simp [hi, same]

theorem storeResult_ok (cs : (i : Fin n) → Column (schema i)) :
    (storeResult cells cs).1 = true ↔
      ∀ i, (storeOneResult (schema i) (cells i) (cs i)).1 = true := by
  simp [storeResult, storeColumns_ok (List.nodup_reverse.mpr (List.nodup_finRange n))]

theorem storeResult_columns {cs : (i : Fin n) → Column (schema i)}
    (ok : ∀ i, (storeOneResult (schema i) (cells i) (cs i)).1 = true) (i : Fin n) :
    (storeResult cells cs).2 i = (storeOneResult (schema i) (cells i) (cs i)).2 := by
  have columns := storeColumns_columns (List.nodup_reverse.mpr (List.nodup_finRange n))
    (fun j _ => ok j) i
  simpa [storeResult] using columns

end Storing

section Fetched

variable {n : ℕ} {schema : Fin n → ColumnType}

def AtRow (cells : Cells schema) (s : State schema) : Prop :=
  ∃ reg : Fin n → BindOutReg, s.reg = fun i => fetchReg (schema i) (cells i) (reg i)

theorem stmtFetch_atRow (cells : Cells schema) (s : State schema) :
    AtRow cells (stmtFetch cells s) := ⟨s.reg, rfl⟩

theorem storeInto_ok {cells : Cells schema} {s : State schema} (at_row : AtRow cells s) (k : ℕ) :
    (storeInto k cells s).1 = true ↔ ¬ Rejected cells := by
  obtain ⟨reg, hreg⟩ := at_row
  simp [storeInto, storeResult_ok, hreg, storeOneResult_fetched, Rejected]

theorem storeRowSet_ok (cells : Cells schema) (s : State schema) :
    (storeRowSet cells (stmtFetch cells s)).1 = true ↔ ¬ Rejected cells :=
  storeInto_ok (s := bindResultBuffer _ (emplace (stmtFetch cells s))) ⟨s.reg, rfl⟩ _

@[simp] theorem storeRow_errno (cells : Cells schema) (s : State schema) :
    (storeRow cells (stmtFetch cells s)).2.errno = 0 := rfl

@[simp] theorem storeRowSet_errno (cells : Cells schema) (s : State schema) :
    (storeRowSet cells (stmtFetch cells s)).2.errno = 0 := rfl

end Fetched

section Reporting

variable {n : ℕ} {schema : Fin n → ColumnType}

theorem fetchLoop_fetched (ending : ErrorCode) (rows : List (Cells schema)) (s : State schema)
    (accepted : ∀ cells ∈ s.fetched, ¬ Rejected cells) :
    (∃ cells ∈ (fetchLoop ending rows s).fetched, Rejected cells) ↔
      ∃ cells ∈ rows, Rejected cells := by
  induction rows generalizing s with
  | nil => simpa [fetchLoop] using accepted
  | cons cells rows ih =>
    have fetched : (storeRowSet cells (stmtFetch cells s)).2.fetched = s.fetched ++ [cells] := rfl
    by_cases bad : Rejected cells
    · have ok := mt (storeRowSet_ok cells s).mp (not_not.mpr bad)
      simp [fetchLoop, ok, fetched, bad]
    · have ok := (storeRowSet_ok cells s).mpr bad
      have accepted' : ∀ row ∈ (storeRowSet cells (stmtFetch cells s)).2.fetched,
          ¬ Rejected row := by
        intro row hrow
        rcases List.mem_append.mp (fetched ▸ hrow) with earlier | now
        · exact accepted row earlier
        · obtain rfl := List.mem_singleton.mp now
          exact bad
      simp [fetchLoop, ok, bad, ih _ accepted']

/-- The loop ends at a rejected row with the error number of a fetch that succeeded. -/
theorem fetchLoop_rejected (ending : ErrorCode) (rows : List (Cells schema)) (s : State schema)
    (rejected : ∃ cells ∈ rows, Rejected cells) :
    (fetchLoop ending rows s).post.error = 0 := by
  induction rows generalizing s with
  | nil => simp at rejected
  | cons cells rows ih =>
    by_cases bad : Rejected cells
    · have ok := mt (storeRowSet_ok cells s).mp (not_not.mpr bad)
      simp [fetchLoop, ok, postError]
    · have ok := (storeRowSet_ok cells s).mpr bad
      simp only [fetchLoop, ok, if_true]
      exact ih _ (by simpa [bad] using rejected)

theorem runPrepared_row {x : Execution schema} {out : Row schema} (reaches : Reaches x (.row out)) :
    runPrepared x (.row out) = bindStmtOutputRow x out := by
  obtain ⟨count, executed, -⟩ := reaches
  simp [runPrepared, count, executed, bindStmtOutput]

theorem runPrepared_rowSet {x : Execution schema} {out : List (Row schema)}
    (reaches : Reaches x (.rowSet out)) :
    runPrepared x (.rowSet out) = fetchLoop x.ending x.rows (bindResult .holder out) := by
  obtain ⟨count, executed, bound, stored, fits, reserved⟩ := reaches
  simp [runPrepared, count, executed, bindStmtOutput, bindStmtOutputSet, bound, stored,
    Nat.not_lt.mpr fits, reserved]

theorem runPrepared_unreached {x : Execution schema} {out : Output schema}
    (unreached : ¬ Reaches x out) :
    (runPrepared x out).post.error ≠ 0 ∧ (runPrepared x out).fetched = [] := by
  by_cases count : x.fieldCount = n
  swap
  · simp [runPrepared, count, postError, badFieldCount]
  by_cases executed : x.executeError = 0
  swap
  · simp [runPrepared, count, executed, postError]
  by_cases bound : x.bindError = 0
  swap
  · cases out <;> simp [runPrepared, count, executed, bindStmtOutput, bindStmtOutputRow,
      bindStmtOutputSet, bound, postError]
  cases out with
  | row out => exact absurd ⟨count, executed, bound⟩ unreached
  | rowSet out =>
    by_cases stored : x.storeError = 0
    swap
    · simp [runPrepared, count, executed, bindStmtOutput, bindStmtOutputSet, bound, stored,
        postError]
    by_cases fits : out.length + x.rows.length ≤ x.maxSize
    swap
    · simp [runPrepared, count, executed, bindStmtOutput, bindStmtOutputSet, bound, stored,
        Nat.lt_of_not_le fits, postError, resultIsTooBig]
    have unreserved : x.reserves ≠ true := fun reserved =>
      unreached ⟨count, executed, bound, stored, fits, reserved⟩
    simp [runPrepared, count, executed, bindStmtOutput, bindStmtOutputSet, bound, stored,
      Nat.not_lt.mpr fits, unreserved, postError, outOfMemory]

theorem rejected_fetched_iff (x : Execution schema) (out : Output schema) :
    (∃ cells ∈ (runPrepared x out).fetched, Rejected cells) ↔
      Reaches x out ∧ ∃ cells ∈ rowsToFetch x out, Rejected cells := by
  by_cases reaches : Reaches x out
  · simp only [reaches, true_and]
    cases out with
    | row out =>
      rw [runPrepared_row reaches]
      cases rows : x.rows with
      | nil => simp [bindStmtOutputRow, rowsToFetch, rows, reaches.2.2]
      | cons cells rest =>
        have fetched : (bindStmtOutputRow x out).fetched = [cells] := by
          simp [bindStmtOutputRow, rows, reaches.2.2]
          rfl
        simp [fetched, rowsToFetch, rows]
    | rowSet out =>
      rw [runPrepared_rowSet reaches]
      exact fetchLoop_fetched x.ending x.rows _ (by simp [bindResult])
  · simp [reaches, (runPrepared_unreached reaches).2]

theorem runPrepared_rejected {x : Execution schema} {out : Output schema}
    (reaches : Reaches x out) (rejected : ∃ cells ∈ rowsToFetch x out, Rejected cells) :
    (runPrepared x out).post.error = 0 := by
  cases out with
  | row out =>
    rw [runPrepared_row reaches]
    cases rows : x.rows with
    | nil => simp [rowsToFetch, rows] at rejected
    | cons cells rest => simp [bindStmtOutputRow, rows, reaches.2.2, postHandlerOrError]
  | rowSet out =>
    rw [runPrepared_rowSet reaches]
    exact fetchLoop_rejected x.ending x.rows _ rejected

/-- A rejection is never reported: the posted code is the error number of a successful fetch. -/
theorem reportsRejection_iff (x : Execution schema) (out : Output schema) :
    ReportsRejection (runPrepared x out) ↔
      (Reaches x out → ∀ cells ∈ rowsToFetch x out, ¬ Rejected cells) := by
  constructor
  · intro reports reaches cells fetched bad
    have rejected : ∃ cells ∈ rowsToFetch x out, Rejected cells := ⟨cells, fetched, bad⟩
    exact reports ((rejected_fetched_iff x out).mpr ⟨reaches, rejected⟩)
      (runPrepared_rejected reaches rejected)
  · intro accepted rejected
    obtain ⟨reaches, cells, fetched, bad⟩ := (rejected_fetched_iff x out).mp rejected
    exact absurd bad (accepted reaches cells fetched)

abbrev intColumn : Fin 1 → ColumnType := fun _ => .integer 4 false

def successful {n : ℕ} {schema : Fin n → ColumnType} (rows : List (Cells schema)) :
    Execution schema :=
  { crErrorLast := 2061
    fieldCount := n
    executeError := 0
    bindError := 0
    storeError := 0
    maxSize := 2 ^ 32
    reserves := true
    rows := rows
    ending := 0 }

def nullInt : Execution intColumn := successful [fun _ => none]

/-- A NULL in an `int` column is rejected by both overloads, and the handler is told of success. -/
theorem null_int_not_reported :
    ¬ ReportsRejection (runPrepared nullInt (.rowSet [])) ∧
      ¬ ReportsRejection (runPrepared nullInt (.row (emptyRow intColumn))) := by
  have rejected : Rejected (fun _ => none : Cells intColumn) := ⟨0, rfl⟩
  constructor
  · intro reports
    exact reports ⟨_, List.mem_singleton_self _, rejected⟩ rfl
  · intro reports
    exact reports ⟨_, List.mem_singleton_self _, rejected⟩ rfl

end Reporting

section Intact

variable {n : ℕ} {schema : Fin n → ColumnType} {cells : Cells schema}

theorem complete_not_rejected (complete : Complete cells) : ¬ Rejected cells := by
  rintro ⟨i, bad⟩
  simp [(complete i).2] at bad

theorem convert_of_accepted {t : ColumnType} (number : isNumber t = true) (field : Field t)
    (accepted : rejects t (some field) = false) : convert t field = columnValue t (some field) := by
  cases t with
  | integer size isUnsigned =>
    have fits : wrap size isUnsigned field = field := by
      simpa [rejects, isNumber, truncated] using accepted
    exact fits
  | floating size => rfl
  | string => simp [isNumber] at number

theorem storeInto_result (complete : Complete cells) {s : State schema} (at_row : AtRow cells s)
    {front : List (Row schema)} {row : Row schema} (result : s.result = front ++ [row])
    (blank : ∀ i, isNumber (schema i) = false → row i = zero (schema i)) :
    (storeInto front.length cells s).2.result =
      front ++ [fun i => if isNumber (schema i) then row i else tuple cells i] := by
  have ok := (storeInto_ok at_row front.length).mpr (complete_not_rejected complete)
  obtain ⟨reg, hreg⟩ := at_row
  simp only [storeInto, result, List.getElem?_concat_length, Option.getD_some,
    storeResult_ok] at ok ⊢
  rw [List.set_append_right _ _ le_rfl, Nat.sub_self, List.set_cons_zero]
  congr 2
  funext i
  rw [storeResult_columns ok i]
  obtain ⟨field, hfield⟩ := Option.isSome_iff_exists.mp (complete i).1
  cases number : isNumber (schema i) with
  | true => simp [storeOneResult_number number]
  | false =>
    simp only [hreg, blank i number, tuple, hfield, Bool.false_eq_true, if_false]
    exact storeOneResult_string number field (s.it i) (reg i)

def Unbound (s : State schema) : Prop := ∀ i k, (s.bound i).buffer ≠ some (.row k)

theorem stmtFetch_result {s : State schema} (unbound : Unbound s) (cells : Cells schema) :
    (stmtFetch cells s).result = s.result := by
  have untouched : ∀ (k : ℕ) (row : Row schema),
      writeBuffers s.bound cells (.row k) row = row := by
    intro k row
    funext i
    simp [writeBuffers, unbound i k]
  apply List.ext_getElem
  · simp [stmtFetch]
  · intro k _ _
    simp [stmtFetch, untouched]

theorem storeRowSet_result (complete : Complete cells) {s : State schema} (unbound : Unbound s) :
    (storeRowSet cells (stmtFetch cells s)).2.result = s.result ++ [storedTuple cells] := by
  have at_row : AtRow cells
      (bindResultBuffer s.result.length (emplace (stmtFetch cells s))) := ⟨s.reg, rfl⟩
  have emplaced : (bindResultBuffer s.result.length (emplace (stmtFetch cells s))).result =
      s.result ++ [emptyRow schema] := by
    simp [bindResultBuffer, emplace, stmtFetch_result unbound]
  have stored : (storeInto s.result.length cells
      (bindResultBuffer s.result.length (emplace (stmtFetch cells s)))).2.result =
      s.result ++ [storedTuple cells] :=
    storeInto_result complete at_row emplaced fun _ _ => rfl
  simpa only [storeRowSet, stmtFetch_result unbound] using stored

/-- The buffers of the library stay where they were bound, so each row comes out as the first. -/
theorem fetchLoop_complete (ending : ErrorCode) (rows : List (Cells schema))
    (complete : ∀ cells ∈ rows, Complete cells) (s : State schema) (unbound : Unbound s) :
    (fetchLoop ending rows s).result = s.result ++ rows.map storedTuple := by
  induction rows generalizing s with
  | nil => simp [fetchLoop]
  | cons cells rows ih =>
    obtain ⟨first, rest⟩ := List.forall_mem_cons.mp complete
    have ok := (storeRowSet_ok cells s).mpr (complete_not_rejected first)
    have unbound' : Unbound (storeRowSet cells (stmtFetch cells s)).2 := unbound
    simp only [fetchLoop, ok, if_true]
    rw [ih rest _ unbound', storeRowSet_result first unbound]
    simp

theorem bindBuffer_buffer (loc : Location) (t : ColumnType) :
    (bindBuffer loc t ⟨none, 0⟩).buffer = if isNumber t then some loc else none := by
  cases t <;> rfl

theorem bindResult_unbound (out : List (Row schema)) : Unbound (bindResult .holder out) := by
  intro i k
  simp only [bindResult, bindBuffer_buffer]
  split <;> simp

theorem storedTuple_eq_iff (cells : Cells schema) :
    storedTuple cells = tuple cells ↔ NumbersZero cells := by
  constructor
  · intro same i number
    simpa [storedTuple, number] using (congrFun same i).symm
  · intro zeros
    funext i
    cases number : isNumber (schema i) with
    | true => simp [storedTuple, number, zeros i number]
    | false => simp [storedTuple, number]

/-- A row set is fetched intact when all its numbers are zero, and only then. -/
theorem rowsIntact_iff (x : Execution schema) (out : List (Row schema))
    (complete : ∀ cells ∈ x.rows, Complete cells)
    (posted : (runPrepared x (.rowSet out)).post.error = 0) :
    RowsIntact x out ↔ ∀ cells ∈ x.rows, NumbersZero cells := by
  have reaches : Reaches x (.rowSet out) := by
    by_contra unreached
    exact (runPrepared_unreached unreached).1 posted
  have fetched : (runPrepared x (.rowSet out)).result = out ++ x.rows.map storedTuple := by
    rw [runPrepared_rowSet reaches]
    exact fetchLoop_complete x.ending x.rows complete _ (bindResult_unbound out)
  simp only [RowsIntact, fetched, List.append_cancel_left_eq, List.map_inj_left,
    storedTuple_eq_iff]

def oneString : Execution fun _ : Fin 1 => .string := successful [fun _ => some [65, 66]]

theorem rowsIntact_oneString : RowsIntact oneString [] := by
  refine (rowsIntact_iff oneString [] ?_ rfl).mpr ?_
  · intro cells h
    obtain rfl := List.mem_singleton.mp h
    exact fun _ => ⟨rfl, rfl⟩
  · intro cells _ i number
    cases number

def oneInt : Execution intColumn := successful [fun _ => some 7]

theorem oneInt_lost :
    (runPrepared oneInt (.rowSet [])).post.error = 0 ∧ (∀ cells ∈ oneInt.rows, Complete cells) ∧
      ¬ RowsIntact oneInt [] := by
  refine ⟨rfl, ?_, ?_⟩
  · intro cells h
    obtain rfl := List.mem_singleton.mp h
    exact fun _ => ⟨rfl, rfl⟩
  · intro intact
    have column := congrArg (List.map fun row => (row 0 : ℤ)) intact
    have lost : (0 : ℤ) = 7 := (List.cons.inj column).1
    exact absurd lost (by decide)

theorem row_intact (x : Execution schema) (reaches : Reaches x (.row (emptyRow schema)))
    {rest : List (Cells schema)} (rows : x.rows = cells :: rest) (complete : Complete cells) :
    (runPrepared x (.row (emptyRow schema))).result = [tuple cells] := by
  rw [runPrepared_row reaches]
  simp only [bindStmtOutputRow, reaches.2.2, rows, ne_eq, not_true_eq_false, if_false]
  have written : (stmtFetch cells (bindResult (.row 0) [emptyRow schema])).result =
      [] ++ [writeBuffers (bindResult (.row 0) [emptyRow schema]).bound cells (.row 0)
        (emptyRow schema)] := rfl
  have stored := storeInto_result complete (stmtFetch_atRow cells _) written fun i string => by
    simp [writeBuffers, bindResult, bindBuffer_buffer, string, emptyRow]
  refine stored.trans (congrArg (fun row => [row]) (funext fun i => ?_))
  obtain ⟨field, hfield⟩ := Option.isSome_iff_exists.mp (complete i).1
  cases number : isNumber (schema i) with
  | true =>
    have accepted := (complete i).2
    rw [hfield] at accepted
    simpa [writeBuffers, bindResult, bindBuffer_buffer, number, tuple, hfield, fetchValue]
      using convert_of_accepted number field accepted
  | false => simp

end Intact

end SqlFetch

import Mathlib.Data.Int.Notation
import Otservpp.Traversal

/-! # Translation of Lua tables into tuples

`ObjectToTuple::translate` reads the fields of a result out of a table, last field first. A result
type and its mirrored keys are one schema here. Lua objects and their conversions are parameters; a
field that is absent is the object nil, which a conversion accepts or refuses like any other. -/
namespace ObjectToTuple

open ProgramLogic Traversal

inductive LuaType where
  | nil
  | boolean
  | lightuserdata
  | number
  | string
  | table
  | function
  | userdata
  | thread
  deriving DecidableEq, Repr

def LuaType.name : LuaType → String
  | .nil => "nil"
  | .boolean => "boolean"
  | .lightuserdata | .userdata => "userdata"
  | .number => "number"
  | .string => "string"
  | .table => "table"
  | .function => "function"
  | .thread => "thread"

/-- What luabind offers. `cast` is `object_cast`; when the cast of an object has failed, `stackTop`
is the string that `lua_tostring` finds on top of the stack, if it finds one. -/
structure Lua (Object Key Ty : Type) (Val : Ty → Type) where
  type : Object → LuaType
  index : Object → Key → Object
  entries : Object → List Object
  cast : (τ : Ty) → Object → Option (Val τ)
  castFailed : String
  stackTop : Object → Option String
  keyString : Key → String

mutual

/-- An element of the result tuple and its key: a value, a vector of values or one of tuples. -/
inductive Field (Key Ty : Type) where
  | single (key : Key) (τ : Ty)
  | vector (key : Key) (τ : Ty)
  | tuples (key : Key) (inner : Fields Key Ty)

/-- The elements of a tuple, which has at least one. -/
inductive Fields (Key Ty : Type) where
  | one (field : Field Key Ty)
  | snoc (fields : Fields Key Ty) (last : Field Key Ty)

end

variable {Object Key Ty : Type} {Val : Ty → Type}

mutual

def Field.Result (Val : Ty → Type) : Field Key Ty → Type
  | .single _ τ => Val τ
  | .vector _ τ => List (Val τ)
  | .tuples _ inner => List (inner.Result Val)

def Fields.Result (Val : Ty → Type) : Fields Key Ty → Type
  | .one field => field.Result Val
  | .snoc fields last => fields.Result Val × last.Result Val

end

def Field.key : Field Key Ty → Key
  | .single key _ | .vector key _ | .tuples key _ => key

/-- The key at the last position of a tuple. -/
def Fields.lastKey : Fields Key Ty → Key
  | .one field => field.key
  | .snoc _ last => last.key

/-- An `Exception` carries its texts; `std::string` of a null pointer throws something else. -/
inductive Thrown where
  | invalidScriptArgument (argument : String) (translationKey : Option String)
  | logicError
  deriving DecidableEq, Repr

/-- Where a tuple lies: the result itself, or the `i`-th element of the vector at a key. -/
inductive KeyRecorder (Key : Type) where
  | root
  | index (parent : KeyRecorder Key) (key : Key) (i : ℕ)

section Translation

variable (lua : Lua Object Key Ty Val)

def indexToString (i : ℕ) : String := "[" ++ toString i ++ "]"

def KeyRecorder.path : KeyRecorder Key → Key → String
  | .root, key => lua.keyString key
  | .index parent vector i, key =>
    parent.path vector ++ indexToString i ++ "." ++ lua.keyString key

def objectCast (τ : Ty) (obj : Object) : Except Thrown (Val τ) :=
  match lua.cast τ obj with
  | some value => .ok value
  | none =>
    match lua.stackTop obj with
    | some top =>
      .error (.invalidScriptArgument ("[from objectCast] " ++ lua.castFailed ++ "  " ++ top) none)
    | none => .error .logicError

def expectTable (given : Object) : Except Thrown Unit :=
  if lua.type given = .table then .ok ()
  else .error (.invalidScriptArgument ("value of type [" ++ LuaType.table.name ++
    "] expected; given value is of type [" ++ (lua.type given).name ++ "]") none)

/-- The handler of an `Exception` that adds the key and throws again. -/
def appendKey {α : Type} (key : String) : Except Thrown α → Except Thrown α
  | .error (.invalidScriptArgument argument _) =>
    .error (.invalidScriptArgument argument (some key))
  | result => result

def expectTableAndAppendKey (table : Object) (key : String) : Except Thrown Unit :=
  appendKey key (expectTable lua table)

/-- The handler of an `Exception` around the loop over a vector of values: it adds the key and ends,
so that the vector stays as the loop left it. -/
def addKeyAndReturn {σ : Type} : Thrown → EStateM Thrown σ Unit
  | .invalidScriptArgument _ _ => pure ()
  | .logicError => throw .logicError

/-- The loop of the `put` for vectors of values, on an empty vector. -/
def fillVector (τ : Ty) (its : List Object) : Except Thrown (List (Val τ)) :=
  match tryCatch (pushEach (objectCast lua τ) its) addKeyAndReturn [] with
  | .ok _ v => .ok v
  | .error e _ => .error e

mutual

def put (krec : KeyRecorder Key) (table : Object) :
    (field : Field Key Ty) → Except Thrown (field.Result Val)
  | .single key τ => appendKey (krec.path lua key) (objectCast lua τ (lua.index table key))
  | .vector key τ => do
    expectTableAndAppendKey lua (lua.index table key) (krec.path lua key)
    fillVector lua τ (lua.entries (lua.index table key))
  | .tuples key inner => do
    expectTableAndAppendKey lua (lua.index table key) (krec.path lua key)
    forEach (fun i it => do
      expectTableAndAppendKey lua it (KeyRecorder.path lua (.index krec key i) inner.lastKey)
      fill (.index krec key i) it inner) 1 (lua.entries (lua.index table key))
termination_by structural field => field

/-- The position `pos` counts down, so the last element is put first. -/
def fill (krec : KeyRecorder Key) (table : Object) :
    (fields : Fields Key Ty) → Except Thrown (fields.Result Val)
  | .one field => put krec table field
  | .snoc fields last => do
    let item ← put krec table last
    let items ← fill krec table fields
    pure (items, item)
termination_by structural fields => fields

end

def translate (obj : Object) (fields : Fields Key Ty) : Except Thrown (fields.Result Val) := do
  expectTable lua obj
  fill lua .root obj fields

end Translation

section Specification

variable (lua : Lua Object Key Ty Val)

/-- Each entry of a vector and its conversion, in the order of the iterator. -/
def Converts (τ : Ty) (its : List Object) (values : List (Val τ)) : Prop :=
  List.Forall₂ (fun it value => lua.cast τ it = some value) its values

mutual

/-- The element is the conversion of the field at its key. -/
def Field.Holds : (field : Field Key Ty) → Object → field.Result Val → Prop
  | .single key τ, table, value => lua.cast τ (lua.index table key) = some value
  | .vector key τ, table, values =>
    lua.type (lua.index table key) = .table ∧
      Converts lua τ (lua.entries (lua.index table key)) values
  | .tuples key inner, table, values =>
    lua.type (lua.index table key) = .table ∧
      List.Forall₂ (fun it value => lua.type it = .table ∧ inner.Holds it value)
        (lua.entries (lua.index table key)) values

def Fields.Holds : (fields : Fields Key Ty) → Object → fields.Result Val → Prop
  | .one field, table, item => field.Holds table item
  | .snoc fields last, table, items => fields.Holds table items.1 ∧ last.Holds table items.2

end

/-- A result, or an exception exactly when no result holds the conversions of a table. -/
structure AllOrNothing (obj : Object) (fields : Fields Key Ty) : Prop where
  sound : ∀ r, translate lua obj fields = .ok r → lua.type obj = .table ∧ fields.Holds lua obj r
  complete : ∀ r, lua.type obj = .table → fields.Holds lua obj r → translate lua obj fields = .ok r
  throws : (∀ r, ¬ (lua.type obj = .table ∧ fields.Holds lua obj r)) →
    ∃ e, translate lua obj fields = .error e

/-- The first entry that does not convert is reported by an `Exception`. -/
def Reported (τ : Ty) (its : List Object) : Prop :=
  ∀ it, its.find? (fun it => (lua.cast τ it).isNone) = some it → (lua.stackTop it).isSome

mutual

/-- Everything but the entries of vectors of values converts. -/
def Field.Accepted : Field Key Ty → Object → Prop
  | .single key τ, table => (lua.cast τ (lua.index table key)).isSome
  | .vector key τ, table =>
    lua.type (lua.index table key) = .table ∧ Reported lua τ (lua.entries (lua.index table key))
  | .tuples key inner, table =>
    lua.type (lua.index table key) = .table ∧
      ∀ it ∈ lua.entries (lua.index table key), lua.type it = .table ∧ inner.Accepted it

def Fields.Accepted : Fields Key Ty → Object → Prop
  | .one field, table => field.Accepted table
  | .snoc fields last, table => fields.Accepted table ∧ last.Accepted table

end

mutual

/-- All entries of vectors of values convert. -/
def Field.VectorsConvert : Field Key Ty → Object → Prop
  | .single _ _, _ => True
  | .vector key τ, table => ∀ it ∈ lua.entries (lua.index table key), (lua.cast τ it).isSome
  | .tuples key inner, table => ∀ it ∈ lua.entries (lua.index table key), inner.VectorsConvert it

def Fields.VectorsConvert : Fields Key Ty → Object → Prop
  | .one field, table => field.VectorsConvert table
  | .snoc fields last, table => fields.VectorsConvert table ∧ last.VectorsConvert table

end

end Specification

section Values

variable {lua : Lua Object Key Ty Val} {τ : Ty} {its : List Object} {obj : Object} {e : Thrown}

theorem objectCast_ok {value : Val τ} :
    objectCast lua τ obj = .ok value ↔ lua.cast τ obj = some value := by
  unfold objectCast
  split
  · rename_i x hx
    simp [hx]
  · rename_i hx
    split <;> simp [hx]

theorem objectCast_error (h : objectCast lua τ obj = .error e) :
    lua.cast τ obj = none ∧ (e = .logicError → lua.stackTop obj = none) ∧
      (e ≠ .logicError → (lua.stackTop obj).isSome) := by
  unfold objectCast at h
  split at h
  · cases h
  · rename_i hcast
    split at h
    · rename_i top htop
      cases h
      exact ⟨hcast, nofun, fun _ => by rw [htop]; rfl⟩
    · rename_i htop
      cases h
      exact ⟨hcast, fun _ => htop, fun h => absurd rfl h⟩

theorem expectTable_ok {u : Unit} : expectTable lua obj = .ok u ↔ lua.type obj = .table := by
  unfold expectTable
  split <;> simp [*]

theorem appendKey_ok {α : Type} {key : String} {x : Except Thrown α} {a : α} :
    appendKey key x = .ok a ↔ x = .ok a := by
  unfold appendKey
  split <;> simp

theorem expectTableAndAppendKey_ok {key : String} {u : Unit} :
    expectTableAndAppendKey lua obj key = .ok u ↔ lua.type obj = .table :=
  appendKey_ok.trans expectTable_ok

theorem Converts.isSome {values : List (Val τ)} (h : Converts lua τ its values) :
    ∀ it ∈ its, (lua.cast τ it).isSome := by
  induction h with
  | nil => exact fun _ hit => absurd hit List.not_mem_nil
  | cons hcast _ ih =>
    intro it hit
    rcases List.mem_cons.mp hit with rfl | hrest
    · rw [hcast]
      rfl
    · exact ih it hrest

/-- The entry that ended the loop is the first one that does not convert. -/
theorem find_failed {before after : List Object} {values : List (Val τ)}
    (hbefore : Converts lua τ before values) (hcast : lua.cast τ obj = none) :
    (before ++ obj :: after).find? (fun it => (lua.cast τ it).isNone) = some obj := by
  have hnone : before.find? (fun it => (lua.cast τ it).isNone) = none := by
    refine List.find?_eq_none.mpr fun it hit => ?_
    have hsome := hbefore.isSome it hit
    rw [Option.isSome_iff_ne_none] at hsome
    simpa using hsome
  rw [List.find?_append, hnone, List.find?_cons_of_pos (by rw [hcast]; rfl)]
  rfl

/-- The vector is returned also when an `Exception` ended the loop. -/
theorem fillVector_ok {values : List (Val τ)} (h : fillVector lua τ its = .ok values) :
    Reported lua τ its ∧ ((∀ it ∈ its, (lua.cast τ it).isSome) → Converts lua τ its values) := by
  rw [fillVector, tryCatch_run] at h
  cases hloop : pushEach (objectCast lua τ) its [] with
  | ok u v =>
    rw [hloop] at h
    cases h
    obtain ⟨converted, hconverted, hv⟩ := pushEach_ok hloop
    rw [List.nil_append] at hv
    have hconverts : Converts lua τ its converted := hconverted.imp fun _ _ => objectCast_ok.mp
    refine ⟨fun it hfind => ?_, fun _ => hv ▸ hconverts⟩
    have hsome := hconverts.isSome it (List.mem_of_find?_eq_some hfind)
    have hfails := List.find?_some hfind
    simp [Option.isNone_iff_eq_none.mp hfails] at hsome
  | error e v =>
    rw [hloop] at h
    obtain ⟨before, failed, rest, converted, rfl, hfailed, hconverted, -⟩ := pushEach_error hloop
    have hbefore : Converts lua τ before converted := hconverted.imp fun _ _ => objectCast_ok.mp
    obtain ⟨hcast, -, hreported⟩ := objectCast_error hfailed
    cases e with
    | logicError => cases h
    | invalidScriptArgument argument key =>
      refine ⟨fun it hfind => ?_, fun hall => ?_⟩
      · rw [find_failed hbefore hcast] at hfind
        obtain rfl := Option.some.inj hfind
        exact hreported nofun
      · have hsome := hall failed (List.mem_append_right _ List.mem_cons_self)
        rw [hcast] at hsome
        cases hsome

theorem fillVector_of_converts {values : List (Val τ)} (h : Converts lua τ its values) :
    fillVector lua τ its = .ok values := by
  have hloop := pushEach_of_forall₂ (v := []) (h.imp fun _ _ => objectCast_ok.mpr)
  rw [fillVector, tryCatch_run, hloop]
  rfl

theorem fillVector_returns (h : Reported lua τ its) :
    ∃ values, fillVector lua τ its = .ok values := by
  rw [fillVector, tryCatch_run]
  cases hloop : pushEach (objectCast lua τ) its [] with
  | ok u v => exact ⟨v, rfl⟩
  | error e v =>
    obtain ⟨before, failed, rest, converted, rfl, hfailed, hconverted, -⟩ := pushEach_error hloop
    have hbefore : Converts lua τ before converted := hconverted.imp fun _ _ => objectCast_ok.mp
    obtain ⟨hcast, hunreported, -⟩ := objectCast_error hfailed
    cases e with
    | invalidScriptArgument argument key => exact ⟨v, rfl⟩
    | logicError =>
      have htop := h failed (find_failed hbefore hcast)
      rw [hunreported rfl] at htop
      cases htop

/-- Of the exceptions of the loop only one that is no `Exception` gets out. -/
theorem fillVector_error (h : fillVector lua τ its = .error e) : e = .logicError := by
  rw [fillVector, tryCatch_run] at h
  cases hloop : pushEach (objectCast lua τ) its [] with
  | ok u v =>
    rw [hloop] at h
    cases h
  | error e' v =>
    rw [hloop] at h
    cases e' with
    | invalidScriptArgument argument key => cases h
    | logicError =>
      cases h
      rfl

/-- An `Exception` that says at which key it occurred. -/
def Thrown.Named : Thrown → Prop
  | .invalidScriptArgument _ translationKey => translationKey.isSome
  | .logicError => True

theorem appendKey_named {α : Type} {key : String} {x : Except Thrown α}
    (h : appendKey key x = .error e) : e.Named := by
  rcases x with e' | a
  · cases e' with
    | invalidScriptArgument argument translationKey =>
      cases h
      rfl
    | logicError =>
      cases h
      trivial
  · cases h

end Values

section Schema

variable {lua : Lua Object Key Ty Val}

mutual

/-- What the translation of an element accepts, and what it then returns. -/
theorem put_ok : (field : Field Key Ty) → {krec : KeyRecorder Key} → {table : Object} →
    {r : field.Result Val} → put lua krec table field = .ok r →
      field.Accepted lua table ∧ (field.VectorsConvert lua table → field.Holds lua table r)
  | .single key τ, krec, table, r, h => by
    rw [put] at h
    have hcast : lua.cast τ (lua.index table key) = some r := objectCast_ok.mp (appendKey_ok.mp h)
    exact ⟨Option.isSome_iff_exists.mpr ⟨r, hcast⟩, fun _ => hcast⟩
  | .vector key τ, krec, table, r, h => by
    obtain ⟨_, htable, h⟩ := except_bind_eq_ok.mp h
    have htable := expectTableAndAppendKey_ok.mp htable
    obtain ⟨hreported, hconverts⟩ := fillVector_ok h
    exact ⟨⟨htable, hreported⟩, fun hall => ⟨htable, hconverts hall⟩⟩
  | .tuples key inner, krec, table, rs, h => by
    obtain ⟨_, htable, h⟩ := except_bind_eq_ok.mp h
    have htable := expectTableAndAppendKey_ok.mp htable
    have hentries : List.Forall₂ (fun it r => (lua.type it = .table ∧ inner.Accepted lua it) ∧
        (inner.VectorsConvert lua it → lua.type it = .table ∧ inner.Holds lua it r))
        (lua.entries (lua.index table key)) rs := by
      refine (forEach_ok h).imp fun it r ⟨i, hi⟩ => ?_
      obtain ⟨_, hit, hi⟩ := except_bind_eq_ok.mp hi
      have hit := expectTableAndAppendKey_ok.mp hit
      obtain ⟨haccepted, hholds⟩ := fill_ok inner hi
      exact ⟨⟨hit, haccepted⟩, fun hall => ⟨hit, hholds hall⟩⟩
    obtain ⟨haccepted, hholds⟩ := (List.forall₂_and_left _ _).mp hentries
    refine ⟨⟨htable, haccepted⟩, fun hall => ⟨htable, ?_⟩⟩
    exact ((List.forall₂_and_left _ _).mpr ⟨hall, hholds⟩).imp fun _ _ h => h.2 h.1

theorem fill_ok : (fields : Fields Key Ty) → {krec : KeyRecorder Key} → {table : Object} →
    {r : fields.Result Val} → fill lua krec table fields = .ok r →
      fields.Accepted lua table ∧ (fields.VectorsConvert lua table → fields.Holds lua table r)
  | .one field, krec, table, r, h => put_ok field h
  | .snoc fields last, krec, table, r, h => by
    obtain ⟨item, hitem, h⟩ := except_bind_eq_ok.mp h
    obtain ⟨items, hitems, h⟩ := except_bind_eq_ok.mp h
    cases h
    obtain ⟨haccepted, hholds⟩ := put_ok last hitem
    obtain ⟨haccepted', hholds'⟩ := fill_ok fields hitems
    exact ⟨⟨haccepted', haccepted⟩, fun hall => ⟨hholds' hall.1, hholds hall.2⟩⟩

end

mutual

theorem put_of_holds : (field : Field Key Ty) → {table : Object} → {r : field.Result Val} →
    field.Holds lua table r → ∀ krec, put lua krec table field = .ok r
  | .single _ _, _, _, h, krec => by
    rw [put]
    exact appendKey_ok.mpr (objectCast_ok.mpr h)
  | .vector _ _, _, _, h, krec =>
    except_bind_eq_ok.mpr ⟨(), expectTableAndAppendKey_ok.mpr h.1, fillVector_of_converts h.2⟩
  | .tuples _ inner, _, _, h, krec => by
    refine except_bind_eq_ok.mpr ⟨(), expectTableAndAppendKey_ok.mpr h.1, ?_⟩
    refine forEach_of_forall₂ (h.2.imp fun it r hit i => ?_) 1
    exact except_bind_eq_ok.mpr
      ⟨(), expectTableAndAppendKey_ok.mpr hit.1, fill_of_holds inner hit.2 _⟩

theorem fill_of_holds : (fields : Fields Key Ty) → {table : Object} → {r : fields.Result Val} →
    fields.Holds lua table r → ∀ krec, fill lua krec table fields = .ok r
  | .one field, _, _, h, krec => put_of_holds field h krec
  | .snoc fields last, _, r, h, krec =>
    except_bind_eq_ok.mpr ⟨r.2, put_of_holds last h.2 krec,
      except_bind_eq_ok.mpr ⟨r.1, fill_of_holds fields h.1 krec, rfl⟩⟩

end

mutual

theorem put_returns : (field : Field Key Ty) → {table : Object} → field.Accepted lua table →
    ∀ krec, ∃ r, put lua krec table field = .ok r
  | .single key τ, table, h, krec => by
    obtain ⟨value, hcast⟩ := Option.isSome_iff_exists.mp h
    refine ⟨value, ?_⟩
    rw [put]
    exact appendKey_ok.mpr (objectCast_ok.mpr hcast)
  | .vector key τ, table, h, krec => by
    obtain ⟨values, hvalues⟩ := fillVector_returns h.2
    exact ⟨values, except_bind_eq_ok.mpr ⟨(), expectTableAndAppendKey_ok.mpr h.1, hvalues⟩⟩
  | .tuples key inner, table, h, krec => by
    have hentries : ∀ it ∈ lua.entries (lua.index table key), ∀ i : ℕ, ∃ r, (do
        expectTableAndAppendKey lua it (KeyRecorder.path lua (.index krec key i) inner.lastKey)
        fill lua (.index krec key i) it inner) = .ok r := by
      intro it hit i
      obtain ⟨htable, haccepted⟩ := h.2 it hit
      obtain ⟨r, hr⟩ := fill_returns inner haccepted (.index krec key i)
      exact ⟨r, except_bind_eq_ok.mpr ⟨(), expectTableAndAppendKey_ok.mpr htable, hr⟩⟩
    obtain ⟨rs, hrs⟩ := forEach_returns hentries 1
    exact ⟨rs, except_bind_eq_ok.mpr ⟨(), expectTableAndAppendKey_ok.mpr h.1, hrs⟩⟩

theorem fill_returns : (fields : Fields Key Ty) → {table : Object} → fields.Accepted lua table →
    ∀ krec, ∃ r, fill lua krec table fields = .ok r
  | .one field, table, h, krec => put_returns field h krec
  | .snoc fields last, table, h, krec => by
    obtain ⟨item, hitem⟩ := put_returns last h.2 krec
    obtain ⟨items, hitems⟩ := fill_returns fields h.1 krec
    exact ⟨(items, item), except_bind_eq_ok.mpr ⟨item, hitem,
      except_bind_eq_ok.mpr ⟨items, hitems, rfl⟩⟩⟩

end

mutual

theorem Field.Holds.vectorsConvert : (field : Field Key Ty) → {t : Object} →
    {r : field.Result Val} → field.Holds lua t r → field.VectorsConvert lua t
  | .single _ _, _, _, _ => trivial
  | .vector _ _, _, _, h => h.2.isSome
  | .tuples _ inner, _, _, h => by
    have hentries := h.2.imp fun it r (hit : lua.type it = .table ∧ inner.Holds lua it r) =>
      And.intro (Fields.Holds.vectorsConvert inner hit.2) trivial
    exact ((List.forall₂_and_left _ _).mp hentries).1

theorem Fields.Holds.vectorsConvert : (fields : Fields Key Ty) → {t : Object} →
    {r : fields.Result Val} → fields.Holds lua t r → fields.VectorsConvert lua t
  | .one field, _, _, h => Field.Holds.vectorsConvert field h
  | .snoc fields last, _, _, h =>
    ⟨Fields.Holds.vectorsConvert fields h.1, Field.Holds.vectorsConvert last h.2⟩

end

mutual

/-- Every `Exception` of the translation of an element names a key. -/
theorem put_named : (field : Field Key Ty) → {krec : KeyRecorder Key} → {table : Object} →
    {e : Thrown} → put lua krec table field = .error e → e.Named
  | .single _ _, _, _, _, h => appendKey_named h
  | .vector _ _, _, _, _, h => by
    rcases except_bind_eq_error.mp h with htable | ⟨_, -, h⟩
    · exact appendKey_named htable
    · exact fillVector_error h ▸ trivial
  | .tuples _ inner, _, _, _, h => by
    rcases except_bind_eq_error.mp h with htable | ⟨_, -, h⟩
    · exact appendKey_named htable
    · obtain ⟨it, -, i, hi⟩ := forEach_error h
      rcases except_bind_eq_error.mp hi with htable | ⟨_, -, hi⟩
      · exact appendKey_named htable
      · exact fill_named inner hi

theorem fill_named : (fields : Fields Key Ty) → {krec : KeyRecorder Key} → {table : Object} →
    {e : Thrown} → fill lua krec table fields = .error e → e.Named
  | .one field, _, _, _, h => put_named field h
  | .snoc fields last, _, _, _, h => by
    rcases except_bind_eq_error.mp h with hlast | ⟨_, -, h⟩
    · exact put_named last hlast
    rcases except_bind_eq_error.mp h with hfront | ⟨_, -, h⟩
    · exact fill_named fields hfront
    · cases h

end

theorem translate_ok {obj : Object} {fields : Fields Key Ty} {r : fields.Result Val} :
    translate lua obj fields = .ok r ↔
      lua.type obj = .table ∧ fill lua .root obj fields = .ok r := by
  constructor
  · intro h
    obtain ⟨_, htable, h⟩ := except_bind_eq_ok.mp h
    exact ⟨expectTable_ok.mp htable, h⟩
  · rintro ⟨htable, h⟩
    exact except_bind_eq_ok.mpr ⟨(), expectTable_ok.mpr htable, h⟩

end Schema

section Swallowed

/-- A table whose field `nums` is the list 1, "x", 3. -/
inductive Sample where
  | result
  | nums
  | one
  | x
  | three
  | nil
  deriving DecidableEq

def sampleLua : Lua Sample String Unit fun _ => ℤ where
  type
    | .result | .nums => .table
    | .one | .three => .number
    | .x => .string
    | .nil => .nil
  index obj key := if obj = .result ∧ key = "nums" then .nums else .nil
  entries
    | .result => [.nums]
    | .nums => [.one, .x, .three]
    | _ => []
  cast
    | _, .one => some 1
    | _, .three => some 3
    | _, _ => none
  castFailed := "unable to make cast"
  stackTop _ := some "nums"
  keyString key := key

end Swallowed

end ObjectToTuple

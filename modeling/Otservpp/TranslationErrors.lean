import Otservpp.ObjectToTuple

/-! # What the errors of scripted hooks say

A hook that returns a table reports a failed translation in one log line, which quotes the key that
the translation attached to its exception. The key is read here as directions from the returned
table to what was wrong in it. -/
namespace TranslationErrors

open ObjectToTuple ProgramLogic Traversal

variable {Object Key Ty : Type} {Val : Ty → Type}

section Places

variable (lua : Lua Object Key Ty Val)

/-- The table that a recorder speaks of, looked up from the result; entries are counted from 1. -/
def tableAt (obj : Object) : KeyRecorder Key → Option Object
  | .root => some obj
  | .index _ _ 0 => none
  | .index parent key (i + 1) =>
    (tableAt obj parent).bind fun table => (lua.entries (lua.index table key))[i]?

/-- What the translation requires somewhere: a value, the table of a vector, that what does not
convert among a vector's values is reported, or the table of one entry. -/
inductive Spot (Key Ty : Type) where
  | value (krec : KeyRecorder Key) (key : Key) (τ : Ty)
  | vector (krec : KeyRecorder Key) (key : Key)
  | values (krec : KeyRecorder Key) (key : Key) (τ : Ty)
  | element (krec : KeyRecorder Key) (lastKey : Key)

abbrev Place (Key : Type) := KeyRecorder Key × Key

/-- The place named in the error. That of an entry is the last key which the entry should have. -/
def Spot.place : Spot Key Ty → Place Key
  | .value krec key _ | .vector krec key | .values krec key _ | .element krec key => (krec, key)

def Place.text (place : Place Key) : String := place.1.path lua place.2

def Spot.object (obj : Object) : Spot Key Ty → Option Object
  | .value krec key _ | .vector krec key | .values krec key _ =>
    (tableAt lua obj krec).map fun table => lua.index table key
  | .element krec _ => tableAt lua obj krec

/-- The exception for an object that does not meet the requirement. -/
def Spot.refuses (spot : Spot Key Ty) (found : Object) : Option Thrown :=
  match spot with
  | .value _ _ τ => thrown (appendKey (spot.place.text lua) (objectCast lua τ found))
  | .vector _ _ | .element _ _ => thrown (expectTableAndAppendKey lua found (spot.place.text lua))
  | .values _ _ τ => thrown (fillVector lua τ (lua.entries found))

def Spot.refused (obj : Object) (spot : Spot Key Ty) : Option Thrown :=
  (spot.object lua obj).bind (spot.refuses lua)

mutual

def fieldSpots (krec : KeyRecorder Key) (table : Object) : Field Key Ty → List (Spot Key Ty)
  | .single key τ => [.value krec key τ]
  | .vector key τ => [.vector krec key, .values krec key τ]
  | .tuples key inner =>
    .vector krec key :: ((lua.entries (lua.index table key)).zipIdx 1).flatMap fun it =>
      .element (.index krec key it.2) inner.lastKey ::
        tupleSpots (.index krec key it.2) it.1 inner
termination_by structural field => field

/-- The last element of a tuple comes first. -/
def tupleSpots (krec : KeyRecorder Key) (table : Object) : Fields Key Ty → List (Spot Key Ty)
  | .one field => fieldSpots krec table field
  | .snoc fields last => fieldSpots krec table last ++ tupleSpots krec table fields
termination_by structural fields => fields

end

/-- The place at which a translation fails, unless the result itself is no table. -/
def failedPlace (obj : Object) (fields : Fields Key Ty) : Option (Place Key) :=
  if lua.type obj = .table then
    ((tupleSpots lua .root obj fields).find? fun spot => (spot.refused lua obj).isSome).map Spot.place
  else none

end Places

section Traversing

variable {lua : Lua Object Key Ty Val} {obj table : Object} {krec : KeyRecorder Key}

theorem tableAt_entry {key : Key} {it : Object × ℕ} (h : tableAt lua obj krec = some table)
    (hit : it ∈ (lua.entries (lua.index table key)).zipIdx 1) :
    tableAt lua obj (.index krec key it.2) = some it.1 := by
  obtain ⟨entry, i⟩ := it
  obtain ⟨hle, hentry⟩ := List.mk_mem_zipIdx_iff_le_and_getElem?_sub.mp hit
  obtain ⟨j, rfl⟩ : ∃ j, i = j + 1 := ⟨i - 1, by omega⟩
  rw [tableAt, h]
  exact hentry

theorem refused_of_object {spot : Spot Key Ty} {found : Object}
    (h : spot.object lua obj = some found) : spot.refused lua obj = spot.refuses lua found := by
  rw [Spot.refused, h]
  rfl

mutual

theorem fieldSpots_object : (field : Field Key Ty) → {krec : KeyRecorder Key} → {table : Object} →
    tableAt lua obj krec = some table →
      ∀ spot ∈ fieldSpots lua krec table field, (spot.object lua obj).isSome
  | .single key τ, krec, table, h, spot, hspot => by
    rw [fieldSpots, List.mem_singleton] at hspot
    subst hspot
    simp [Spot.object, h]
  | .vector key τ, krec, table, h, spot, hspot => by
    rw [fieldSpots, List.mem_pair] at hspot
    rcases hspot with rfl | rfl
    · simp [Spot.object, h]
    · simp [Spot.object, h]
  | .tuples key inner, krec, table, h, spot, hspot => by
    rw [fieldSpots] at hspot
    rcases List.mem_cons.mp hspot with rfl | hspot
    · simp [Spot.object, h]
    obtain ⟨it, hit, hspot⟩ := List.mem_flatMap.mp hspot
    have hentry := tableAt_entry h hit
    rcases List.mem_cons.mp hspot with rfl | hspot
    · simp [Spot.object, hentry]
    · exact tupleSpots_object inner hentry spot hspot

theorem tupleSpots_object : (fields : Fields Key Ty) → {krec : KeyRecorder Key} →
    {table : Object} → tableAt lua obj krec = some table →
      ∀ spot ∈ tupleSpots lua krec table fields, (spot.object lua obj).isSome
  | .one field, krec, table, h, spot, hspot => by
    rw [tupleSpots] at hspot
    exact fieldSpots_object field h spot hspot
  | .snoc fields last, krec, table, h, spot, hspot => by
    rw [tupleSpots] at hspot
    rcases List.mem_append.mp hspot with hspot | hspot
    · exact fieldSpots_object last h spot hspot
    · exact tupleSpots_object fields h spot hspot

end

mutual

theorem put_thrown : (field : Field Key Ty) → {krec : KeyRecorder Key} → {table : Object} →
    tableAt lua obj krec = some table →
      thrown (put lua krec table field) =
        (fieldSpots lua krec table field).findSome? (Spot.refused lua obj)
  | .single key τ, krec, table, h => by
    have hobject : (Spot.value krec key τ).object lua obj = some (lua.index table key) := by
      simp [Spot.object, h]
    rw [put, fieldSpots, findSome?_pair, refused_of_object hobject]
    exact (Option.or_none).symm
  | .vector key τ, krec, table, h => by
    have hvector : (Spot.vector krec key : Spot Key Ty).object lua obj =
        some (lua.index table key) := by simp [Spot.object, h]
    have hvalues : (Spot.values krec key τ).object lua obj = some (lua.index table key) := by
      simp [Spot.object, h]
    have hput : thrown (put lua krec table (.vector key τ)) =
        (thrown (expectTableAndAppendKey lua (lua.index table key) (krec.path lua key))).or
          (thrown (fillVector lua τ (lua.entries (lua.index table key)))) := thrown_bind
    rw [hput, fieldSpots, findSome?_pair, findSome?_pair, refused_of_object hvector,
      refused_of_object hvalues, List.findSome?_nil, Option.or_none]
    rfl
  | .tuples key inner, krec, table, h => by
    have hvector : (Spot.vector krec key : Spot Key Ty).object lua obj =
        some (lua.index table key) := by simp [Spot.object, h]
    let put_entry (i : ℕ) (it : Object) : Except Thrown (inner.Result Val) := do
      expectTableAndAppendKey lua it (KeyRecorder.path lua (.index krec key i) inner.lastKey)
      fill lua (.index krec key i) it inner
    have hput : thrown (put lua krec table (.tuples key inner)) =
        (thrown (expectTableAndAppendKey lua (lua.index table key) (krec.path lua key))).or
          (thrown (forEach put_entry 1 (lua.entries (lua.index table key)))) := thrown_bind
    rw [hput, thrown_forEach, fieldSpots, findSome?_pair, refused_of_object hvector,
      findSome?_flatMap]
    congr 1
    refine findSome?_congr fun it hit => ?_
    have hentry := tableAt_entry h hit
    have helement : (Spot.element (.index krec key it.2) inner.lastKey : Spot Key Ty).object
        lua obj = some it.1 := hentry
    have hboth : thrown (put_entry it.2 it.1) = _ := thrown_bind
    rw [hboth, findSome?_pair, refused_of_object helement, fill_thrown inner hentry]
    rfl

theorem fill_thrown : (fields : Fields Key Ty) → {krec : KeyRecorder Key} → {table : Object} →
    tableAt lua obj krec = some table →
      thrown (fill lua krec table fields) =
        (tupleSpots lua krec table fields).findSome? (Spot.refused lua obj)
  | .one field, krec, table, h => by
    rw [fill, tupleSpots]
    exact put_thrown field h
  | .snoc fields last, krec, table, h => by
    have hfill : thrown (fill lua krec table (.snoc fields last)) =
        (thrown (put lua krec table last)).or (thrown (fill lua krec table fields)) :=
      thrown_pair fun item items => (items, item)
    rw [hfill, tupleSpots, List.findSome?_append, put_thrown last h, fill_thrown fields h]

end

variable (lua obj)

/-- `spot` is the first requirement that is not met, and `e` the exception for what lies there. -/
def FirstRefused (fields : Fields Key Ty) (spot : Spot Key Ty) (e : Thrown) : Prop :=
  ∃ before behind, tupleSpots lua .root obj fields = before ++ spot :: behind ∧
    (∃ found, spot.object lua obj = some found ∧ spot.refuses lua found = some e) ∧
    ∀ met ∈ before, ∃ found, met.object lua obj = some found ∧ met.refuses lua found = none

def notTable (given : Object) : Thrown :=
  .invalidScriptArgument ("value of type [" ++ LuaType.table.name ++
    "] expected; given value is of type [" ++ (lua.type given).name ++ "]") none

variable {lua obj}

theorem refused_iff {spot : Spot Key Ty} {e : Thrown} : spot.refused lua obj = some e ↔
    ∃ found, spot.object lua obj = some found ∧ spot.refuses lua found = some e :=
  Option.bind_eq_some_iff

/-- For every result, schema and behaviour of `cast`: what the translation throws is the exception
of the first requirement that is not met, of what lies at its place. -/
theorem translate_error_iff {fields : Fields Key Ty} {e : Thrown} :
    translate lua obj fields = .error e ↔
      lua.type obj ≠ .table ∧ e = notTable lua obj ∨
      lua.type obj = .table ∧ ∃ spot, FirstRefused lua obj fields spot e := by
  have htranslate : thrown (translate lua obj fields) =
      (thrown (expectTable lua obj)).or (thrown (fill lua .root obj fields)) := thrown_bind
  rw [← thrown_eq_some, htranslate, fill_thrown fields rfl]
  by_cases htable : lua.type obj = .table
  · have hchecked : thrown (expectTable lua obj) = none := by
      rw [expectTable, if_pos htable]
      rfl
    rw [hchecked, Option.none_or, List.findSome?_eq_some_iff]
    constructor
    · rintro ⟨before, spot, behind, hspots, hspot, hbefore⟩
      refine Or.inr ⟨htable, spot, before, behind, hspots, refused_iff.mp hspot, ?_⟩
      intro met hmet
      have hmem : met ∈ tupleSpots lua .root obj fields :=
        hspots ▸ List.mem_append_left _ hmet
      obtain ⟨found, hfound⟩ := Option.isSome_iff_exists.mp
        (tupleSpots_object fields rfl met hmem)
      exact ⟨found, hfound, (refused_of_object hfound).symm.trans (hbefore met hmet)⟩
    · rintro (⟨hno, -⟩ | ⟨-, spot, before, behind, hspots, hspot, hbefore⟩)
      · exact absurd htable hno
      refine ⟨before, spot, behind, hspots, refused_iff.mpr hspot, fun met hmet => ?_⟩
      obtain ⟨found, hfound, hmeets⟩ := hbefore met hmet
      exact (refused_of_object hfound).trans hmeets
  · have hchecked : thrown (expectTable lua obj) = some (notTable lua obj) := by
      rw [expectTable, if_neg htable]
      rfl
    rw [hchecked, Option.some_or]
    constructor
    · intro h
      exact Or.inl ⟨htable, (Option.some.inj h).symm⟩
    · rintro (⟨-, rfl⟩ | ⟨h, -⟩)
      · rfl
      · exact absurd h htable

end Traversing

section Texts

/-- Keys whose text can be told from what the translation puts around it. -/
structure PlainKeys (lua : Lua Object Key Ty Val) : Prop where
  injective : Function.Injective lua.keyString
  bracket : ∀ key, '[' ∉ (lua.keyString key).toList
  quote : ∀ key, '"' ∉ (lua.keyString key).toList

theorem split_first {α : Type} {c : α} {xs ys us vs : List α} (hxs : c ∉ xs) (hys : c ∉ ys)
    (h : xs ++ c :: us = ys ++ c :: vs) : xs = ys ∧ us = vs := by
  induction xs generalizing ys with
  | nil =>
    cases ys with
    | nil => exact ⟨rfl, (List.cons.inj h).2⟩
    | cons y ys => exact absurd ((List.cons.inj h).1 ▸ List.mem_cons_self) hys
  | cons x xs ih =>
    cases ys with
    | nil => exact absurd ((List.cons.inj h).1 ▸ List.mem_cons_self) hxs
    | cons y ys =>
      obtain ⟨rfl, htail⟩ := List.cons.inj h
      obtain ⟨rfl, hrest⟩ := ih (fun hc => hxs (List.mem_cons_of_mem x hc))
        (fun hc => hys (List.mem_cons_of_mem x hc)) htail
      exact ⟨rfl, hrest⟩

theorem digit_of_mem {i : ℕ} {c : Char} (h : c ∈ (toString i).toList) : c.isDigit := by
  rw [Nat.toString_eq_repr, Nat.toList_repr] at h
  exact Nat.isDigit_of_mem_toDigits (by decide) (by decide) h

theorem digits_injective {i j : ℕ} (h : (toString i).toList = (toString j).toList) : i = j := by
  rw [Nat.toString_eq_repr, Nat.toList_repr, Nat.toString_eq_repr, Nat.toList_repr] at h
  have hback := congrArg (fun cs => Nat.ofDigitChars 10 cs 0) h
  simpa only [Nat.ofDigitChars_ten_toDigits] using hback

/-- The keys and numbers that a recorder passes on the way from the result, outermost first. -/
def steps : KeyRecorder Key → List (Key × ℕ)
  | .root => []
  | .index parent key i => steps parent ++ [(key, i)]

theorem steps_injective : Function.Injective (steps : KeyRecorder Key → List (Key × ℕ)) := by
  intro krec krec' h
  induction krec generalizing krec' with
  | root =>
    cases krec' with
    | root => rfl
    | index parent key i => simp [steps] at h
  | index parent key i ih =>
    cases krec' with
    | root => simp [steps] at h
    | index parent' key' i' =>
      obtain ⟨hparent, hlast⟩ := List.append_inj' h rfl
      obtain ⟨rfl, rfl⟩ := Prod.mk.inj (List.cons.inj hlast).1
      rw [ih hparent]

variable (lua : Lua Object Key Ty Val)

def chars : List (Key × ℕ) → Key → List Char
  | [], key => (lua.keyString key).toList
  | (vector, i) :: rest, key =>
    (lua.keyString vector).toList ++ '[' :: ((toString i).toList ++ ']' :: '.' :: chars rest key)

theorem chars_below (above : List (Key × ℕ)) (vector : Key) (i : ℕ) (key : Key) :
    chars lua (above ++ [(vector, i)]) key = chars lua above vector ++
      '[' :: ((toString i).toList ++ ']' :: '.' :: (lua.keyString key).toList) := by
  induction above with
  | nil => rfl
  | cons entry above ih =>
    rw [List.cons_append, chars, chars, ih]
    simp only [List.append_assoc, List.cons_append]

theorem path_chars (krec : KeyRecorder Key) (key : Key) :
    (krec.path lua key).toList = chars lua (steps krec) key := by
  induction krec generalizing key with
  | root => rfl
  | index parent vector i ih =>
    rw [steps, chars_below, ← ih, KeyRecorder.path, indexToString]
    simp

variable {lua}

theorem chars_injective (hkeys : PlainKeys lua) {above above' : List (Key × ℕ)} {key key' : Key}
    (h : chars lua above key = chars lua above' key') : above = above' ∧ key = key' := by
  induction above generalizing above' with
  | nil =>
    cases above' with
    | nil => exact ⟨rfl, hkeys.injective (String.toList_injective h)⟩
    | cons entry above' =>
      have hmem : '[' ∈ (lua.keyString key).toList := by
        rw [show (lua.keyString key).toList = _ from h, chars]
        simp
      exact absurd hmem (hkeys.bracket key)
  | cons entry above ih =>
    cases above' with
    | nil =>
      have hmem : '[' ∈ (lua.keyString key').toList := by
        rw [show (lua.keyString key').toList = _ from h.symm, chars]
        simp
      exact absurd hmem (hkeys.bracket key')
    | cons entry' above' =>
      obtain ⟨hvector, hrest⟩ := split_first (hkeys.bracket _) (hkeys.bracket _) h
      have hdigits (i : ℕ) : ']' ∉ (toString i).toList := by
        intro hmem
        exact absurd (digit_of_mem hmem) (by decide)
      obtain ⟨hnumber, hrest⟩ := split_first (hdigits _) (hdigits _) hrest
      obtain ⟨rfl, rfl⟩ := ih (List.cons.inj hrest).2
      have hentry : entry = entry' := Prod.ext
        (hkeys.injective (String.toList_injective hvector)) (digits_injective hnumber)
      exact ⟨by rw [hentry], rfl⟩

theorem text_injective (hkeys : PlainKeys lua) :
    Function.Injective (Place.text lua : Place Key → String) := by
  rintro ⟨krec, key⟩ ⟨krec', key'⟩ h
  have hchars : chars lua (steps krec) key = chars lua (steps krec') key' := by
    rw [← path_chars, ← path_chars]
    exact congrArg String.toList h
  obtain ⟨hsteps, rfl⟩ := chars_injective hkeys hchars
  rw [steps_injective hsteps]

theorem quote_not_mem_chars (hkeys : PlainKeys lua) (above : List (Key × ℕ)) (key : Key) :
    '"' ∉ chars lua above key := by
  induction above with
  | nil => exact hkeys.quote key
  | cons entry above ih =>
    intro hmem
    rw [chars] at hmem
    simp only [List.mem_append, List.mem_cons] at hmem
    rcases hmem with hvector | hbracket | hdigit | hbracket | hdot | hrest
    · exact hkeys.quote _ hvector
    · exact absurd hbracket (by decide)
    · exact absurd (digit_of_mem hdigit) (by decide)
    · exact absurd hbracket (by decide)
    · exact absurd hdot (by decide)
    · exact ih hrest

end Texts

section Hooks

variable (lua : Lua Object Key Ty Val)

/-- What leaves a hook: an `Exception` with the texts attached to it, or something of another type. -/
inductive HookError where
  | exception (argument : String) (translationKey valueTranslation : Option String)
  | logicError
  | luaError
  deriving DecidableEq, Repr

abbrev HookM := EStateM HookError (List String)

def getHumanReadableFormat : String := ">>error<<"

def structureText : String :=
  "expected a return value with the following the structure \n\"" ++ getHumanReadableFormat

def keyText (key : String) : String := "\"\nerror at key \"" ++ key ++ "\" "

/-- `BasicHook::translate` -/
def translateSingle (τ : Ty) (obj : Object) : Except HookError (Val τ) :=
  match objectCast lua τ obj with
  | .ok value => .ok value
  | .error (.invalidScriptArgument argument key) => .error (.exception argument key none)
  | .error .logicError => .error .logicError

/-- `BasicKeyedHook::translate` -/
def translateKeyed (fields : Fields Key Ty) (obj : Object) : Except HookError (fields.Result Val) :=
  match translate lua obj fields with
  | .ok result => .ok result
  | .error (.invalidScriptArgument argument key) =>
    .error (.exception argument key (some (structureText ++ (key.map keyText).getD "")))
  | .error .logicError => .error .logicError

/-- The location of the script function is not looked up. -/
def hookFront : String := "in execution of script hook \"" ++ "<todo>" ++ "\"\n"

def hookLine (valueTranslation : Option String) (argument : String) : String :=
  hookFront ++ valueTranslation.getD "" ++ argument

/-- `operator()` of a hook; `returned` is what the script returns, if it does not fail. -/
def callHook {α : Type} (translated : Object → Except HookError α) (returned : Option Object) :
    HookM α := fun log =>
  match returned with
  | none => .error .luaError log
  | some obj =>
    match translated obj with
    | .ok value => .ok value log
    | .error (.exception argument key valueTranslation) =>
      .error (.exception argument key valueTranslation) (log ++ [hookLine valueTranslation argument])
    | .error e => .error e log

variable {lua} {obj obj' : Object} {fields fields' : Fields Key Ty}

theorem failedPlace_of_refused {spot : Spot Key Ty} {e : Thrown} (htable : lua.type obj = .table)
    (h : FirstRefused lua obj fields spot e) : failedPlace lua obj fields = some spot.place := by
  obtain ⟨before, behind, hspots, hspot, hbefore⟩ := h
  have hfind : (tupleSpots lua .root obj fields).find?
      (fun spot => (spot.refused lua obj).isSome) = some spot := by
    refine List.find?_eq_some_iff_append.mpr ⟨?_, before, behind, hspots, ?_⟩
    · rw [refused_iff.mpr hspot]
      rfl
    · intro met hmet
      obtain ⟨found, hfound, hmeets⟩ := hbefore met hmet
      rw [refused_of_object hfound, hmeets]
      rfl
  rw [failedPlace, if_pos htable, hfind]
  rfl

theorem key_of_appendKey {α : Type} {x : Except Thrown α} {text argument : String}
    {key : Option String} (h : thrown (appendKey text x) = some (.invalidScriptArgument argument key)) :
    key = some text := by
  cases x with
  | ok a => cases h
  | error e =>
    cases e with
    | logicError => cases h
    | invalidScriptArgument argument' key' =>
      cases h
      rfl

/-- The key attached to the exception is the text of the place, and only the exception of a result
that is no table has none. -/
theorem key_of_failure {argument : String} {key : Option String}
    (h : translate lua obj fields = .error (.invalidScriptArgument argument key)) :
    key = (failedPlace lua obj fields).map (Place.text lua) ∧
      (key = none → argument.toList.head? = some 'v') := by
  rcases translate_error_iff.mp h with ⟨hno, hnot⟩ | ⟨htable, spot, hfirst⟩
  · cases hnot
    rw [failedPlace, if_neg hno]
    exact ⟨rfl, fun _ => by simp⟩
  · rw [failedPlace_of_refused htable hfirst]
    obtain ⟨-, -, -, ⟨found, -, hrefuses⟩, -⟩ := hfirst
    have hkey : key = some (spot.place.text lua) := by
      cases spot with
      | value krec k τ => exact key_of_appendKey hrefuses
      | vector krec k => exact key_of_appendKey hrefuses
      | element krec k => exact key_of_appendKey hrefuses
      | values krec k τ => cases fillVector_error (thrown_eq_some.mp hrefuses)
    exact ⟨hkey, fun hnone => by rw [hkey] at hnone; cases hnone⟩

/-- Where a hook writes a line, the translation threw an `Exception`. -/
theorem line_of_exception {α : Type} {translated : Object → Except HookError α}
    {log : List String} {line : String} {e : HookError}
    (h : callHook translated (some obj) log = .error e (log ++ [line])) :
    ∃ argument key what, translated obj = .error (.exception argument key what) ∧
      line = hookLine what argument := by
  rw [callHook] at h
  cases htranslate : translated obj with
  | ok value => simp [htranslate] at h
  | error thrown =>
    rw [htranslate] at h
    cases thrown with
    | logicError => simp at h
    | luaError => simp at h
    | exception argument key what =>
      simp only [EStateM.Result.error.injEq, List.append_cancel_left_eq, List.cons.injEq,
        and_true] at h
      exact ⟨argument, key, what, rfl, h.2.symm⟩

theorem line_of_call {log : List String} {line : String} {e : HookError}
    (h : callHook (translateKeyed lua fields) (some obj) log = .error e (log ++ [line])) :
    ∃ argument key, translate lua obj fields = .error (.invalidScriptArgument argument key) ∧
      line = hookLine (some (structureText ++ (key.map keyText).getD "")) argument := by
  obtain ⟨argument, key, what, hthrown, rfl⟩ := line_of_exception h
  rw [translateKeyed] at hthrown
  cases htranslate : translate lua obj fields with
  | ok result => simp [htranslate] at hthrown
  | error thrown =>
    rw [htranslate] at hthrown
    cases thrown with
    | logicError => cases hthrown
    | invalidScriptArgument argument key =>
      cases hthrown
      exact ⟨argument, key, rfl, rfl⟩

/-- A hook for a single value writes what the cast says of it, and nothing of a key. -/
theorem line_of_single {τ : Ty} {log : List String} {line : String} {e : HookError}
    (h : callHook (translateSingle lua τ) (some obj) log = .error e (log ++ [line])) :
    ∃ argument key, objectCast lua τ obj = .error (.invalidScriptArgument argument key) ∧
      line = hookFront ++ argument := by
  obtain ⟨argument, key, what, hthrown, rfl⟩ := line_of_exception h
  rw [translateSingle] at hthrown
  cases hcast : objectCast lua τ obj with
  | ok value => simp [hcast] at hthrown
  | error thrown =>
    rw [hcast] at hthrown
    cases thrown with
    | logicError => cases hthrown
    | invalidScriptArgument argument key =>
      cases hthrown
      exact ⟨argument, key, rfl, by simp [hookLine]⟩

theorem hookLine_front (what argument : String) :
    hookLine (some (structureText ++ what)) argument =
      hookFront ++ (structureText ++ (what ++ argument)) := by
  have hline : hookLine (some (structureText ++ what)) argument =
      hookFront ++ (structureText ++ what) ++ argument := rfl
  rw [hline, String.append_assoc, String.append_assoc]

theorem hookLine_cancel {what what' argument argument' : String}
    (h : hookLine (some (structureText ++ what)) argument =
      hookLine (some (structureText ++ what')) argument') :
    what.toList ++ argument.toList = what'.toList ++ argument'.toList := by
  rw [hookLine_front, hookLine_front] at h
  have hlist := congrArg String.toList h
  simp only [String.toList_append] at hlist
  exact List.append_cancel_left (List.append_cancel_left hlist)

theorem keyText_chars (key : String) : (keyText key).toList =
    "\"\nerror at key \"".toList ++ (key.toList ++ '\"' :: [' ']) := by
  simp [keyText]

theorem key_of_line {key key' : Option String} {argument argument' : String}
    (hquote : ∀ k ∈ key, '\"' ∉ k.toList) (hquote' : ∀ k ∈ key', '\"' ∉ k.toList)
    (hnone : key = none → argument.toList.head? = some 'v')
    (hnone' : key' = none → argument'.toList.head? = some 'v')
    (h : hookLine (some (structureText ++ (key.map keyText).getD "")) argument =
      hookLine (some (structureText ++ (key'.map keyText).getD "")) argument') : key = key' := by
  have hchars := hookLine_cancel h
  cases key with
  | none =>
    cases key' with
    | none => rfl
    | some k' =>
      have hhead := hnone rfl
      rw [show argument.toList = _ from hchars, Option.map_some, Option.getD_some,
        keyText_chars] at hhead
      cases hhead
  | some k =>
    cases key' with
    | none =>
      have hhead := hnone' rfl
      rw [show argument'.toList = _ from hchars.symm, Option.map_some, Option.getD_some,
        keyText_chars] at hhead
      cases hhead
    | some k' =>
      rw [Option.map_some, Option.getD_some, Option.map_some, Option.getD_some, keyText_chars,
        keyText_chars] at hchars
      simp only [List.append_assoc, List.cons_append] at hchars
      have hsame := (split_first (hquote k rfl) (hquote' k' rfl)
        (List.append_cancel_left hchars)).1
      rw [String.toList_injective hsame]

theorem quote_not_mem_key (hkeys : PlainKeys lua) {place : Option (Place Key)} :
    ∀ k ∈ place.map (Place.text lua), '\"' ∉ k.toList := by
  intro k hk
  obtain ⟨⟨krec, key⟩, -, rfl⟩ := Option.map_eq_some_iff.mp hk
  rw [Place.text, path_chars]
  exact quote_not_mem_chars hkeys (steps krec) key

/-- Whatever two calls of hooks returned and whatever was expected of them: if both write the same
line, both failed at the same place. -/
theorem same_line_same_place (hkeys : PlainKeys lua) {log log' : List String} {line : String}
    {e e' : HookError}
    (h : callHook (translateKeyed lua fields) (some obj) log = .error e (log ++ [line]))
    (h' : callHook (translateKeyed lua fields') (some obj') log' = .error e' (log' ++ [line])) :
    failedPlace lua obj fields = failedPlace lua obj' fields' := by
  obtain ⟨argument, key, hthrown, hline⟩ := line_of_call h
  obtain ⟨argument', key', hthrown', hline'⟩ := line_of_call h'
  obtain ⟨hkey, hnone⟩ := key_of_failure hthrown
  obtain ⟨hkey', hnone'⟩ := key_of_failure hthrown'
  have hquote : ∀ k ∈ key, '\"' ∉ k.toList := by
    rw [hkey]
    exact quote_not_mem_key hkeys
  have hquote' : ∀ k ∈ key', '\"' ∉ k.toList := by
    rw [hkey']
    exact quote_not_mem_key hkeys
  have hsame : key = key' := key_of_line hquote hquote' hnone hnone' (hline.symm.trans hline')
  apply Option.map_injective (text_injective hkeys)
  rw [← hkey, ← hkey', hsame]

end Hooks

section Sample

inductive SampleKey where
  | characters
  | name
  deriving DecidableEq

inductive SampleObject where
  | result
  | list
  | entry
  | nameless
  | text
  | nil
  deriving DecidableEq

def hookLua : Lua SampleObject SampleKey Unit fun _ => Unit where
  type
    | .result | .list | .entry | .nameless => .table
    | .text => .string
    | .nil => .nil
  index
    | .result, .characters => .list
    | .entry, .name => .text
    | _, _ => .nil
  entries
    | .list => [.entry, .nameless]
    | _ => []
  cast
    | _, .text => some ()
    | _, _ => none
  castFailed := "unable to make cast"
  stackTop _ := some "characters"
  keyString
    | .characters => "characters"
    | .name => "name"

theorem hookLua_plainKeys : PlainKeys hookLua where
  injective key key' h := by
    cases key <;> cases key' <;> first | rfl | exact absurd h (by decide)
  bracket key := by
    cases key <;> decide
  quote key := by
    cases key <;> decide

def characterNames : Fields SampleKey Unit :=
  .one (.tuples .characters (.one (.single .name ())))

def namesTwice : Fields SampleKey Unit :=
  .snoc characterNames (.tuples .characters (.one (.single .name ())))

def namelessLine : String :=
  hookLine (some (structureText ++ ((some (hookLua.keyString .characters ++ indexToString 2 ++ "." ++
    hookLua.keyString .name)).map keyText).getD ""))
    ("[from objectCast] " ++ hookLua.castFailed ++ "  " ++ "characters")

theorem same_line_same_place_nameless :
    failedPlace hookLua .result characterNames = failedPlace hookLua .result namesTwice := by
  have hline : callHook (translateKeyed hookLua characterNames) (some .result) [] =
      .error _ ([] ++ [namelessLine]) := rfl
  have hline' : callHook (translateKeyed hookLua namesTwice) (some .result) [] =
      .error _ ([] ++ [namelessLine]) := rfl
  exact same_line_same_place hookLua_plainKeys hline hline'

end Sample

end TranslationErrors

import Mathlib.Data.String.Basic
import NotK8s.Library.Keyed

namespace NotK8s.Patch

open Library

/-!
# JSON values

The decoded documents the field managers work on.  An object is the list of
its fields, kept in name order by `insert`.
-/

inductive Number where
  | int (n : Int)
  | float (q : Rat)
  deriving DecidableEq

inductive Value where
  | null
  | bool (b : Bool)
  | number (n : Number)
  | string (s : String)
  | array (elements : List Value)
  | object (fields : List (String × Value))

abbrev Fields := List (String × Value)

namespace Value

mutual

def decEq : (v w : Value) -> Decidable (v = w)
  | .null, .null => isTrue rfl
  | .bool b, .bool c =>
    if same : b = c then isTrue (congrArg _ same) else isFalse fun whole => same (Value.bool.inj whole)
  | .number n, .number m =>
    if same : n = m then isTrue (congrArg _ same) else isFalse fun whole => same (Value.number.inj whole)
  | .string s, .string t =>
    if same : s = t then isTrue (congrArg _ same) else isFalse fun whole => same (Value.string.inj whole)
  | .array elements, .array others =>
    match decEqElements elements others with
    | isTrue same => isTrue (congrArg _ same)
    | isFalse different => isFalse fun whole => different (Value.array.inj whole)
  | .object fields, .object others =>
    match decEqFields fields others with
    | isTrue same => isTrue (congrArg _ same)
    | isFalse different => isFalse fun whole => different (Value.object.inj whole)
  | .null, .bool _ | .null, .number _ | .null, .string _ | .null, .array _ | .null, .object _ => isFalse nofun
  | .bool _, .null | .bool _, .number _ | .bool _, .string _ | .bool _, .array _ | .bool _, .object _ =>
    isFalse nofun
  | .number _, .null | .number _, .bool _ | .number _, .string _ | .number _, .array _ | .number _, .object _ =>
    isFalse nofun
  | .string _, .null | .string _, .bool _ | .string _, .number _ | .string _, .array _ | .string _, .object _ =>
    isFalse nofun
  | .array _, .null | .array _, .bool _ | .array _, .number _ | .array _, .string _ | .array _, .object _ =>
    isFalse nofun
  | .object _, .null | .object _, .bool _ | .object _, .number _ | .object _, .string _ | .object _, .array _ =>
    isFalse nofun

def decEqElements : (elements others : List Value) -> Decidable (elements = others)
  | [], [] => isTrue rfl
  | [], _ :: _ | _ :: _, [] => isFalse nofun
  | v :: elements, w :: others =>
    match decEq v w, decEqElements elements others with
    | isTrue first, isTrue rest => isTrue (by rw [first, rest])
    | isFalse different, _ => isFalse fun whole => different (List.cons.inj whole).1
    | _, isFalse different => isFalse fun whole => different (List.cons.inj whole).2

def decEqFields : (fields others : Fields) -> Decidable (fields = others)
  | [], [] => isTrue rfl
  | [], _ :: _ | _ :: _, [] => isFalse nofun
  | (name, v) :: fields, (other, w) :: others =>
    if named : name = other then
      match decEq v w, decEqFields fields others with
      | isTrue first, isTrue rest => isTrue (by rw [first, rest, named])
      | isFalse different, _ => isFalse fun whole => different (Prod.mk.inj (List.cons.inj whole).1).2
      | _, isFalse different => isFalse fun whole => different (List.cons.inj whole).2
    else isFalse fun whole => named (Prod.mk.inj (List.cons.inj whole).1).1

end

instance : DecidableEq Value := decEq

def isObject : Value -> Bool
  | .object _ => true
  | _ => false

def asObject : Value -> Option Fields
  | .object fields => some fields
  | _ => none

def isScalar : Value -> Bool
  | .null | .bool _ | .number _ | .string _ => true
  | .array _ | .object _ => false

def asStr : Value -> Option String
  | .string s => some s
  | .null | .bool _ | .number _ | .array _ | .object _ => none

end Value

namespace Fields

def get : Fields -> String -> Option Value
  | [], _ => none
  | (stored, v) :: fields, name => if stored = name then some v else get fields name

/-- Replaces the field under the name, or puts it in its place. -/
def insert : Fields -> String -> Value -> Fields
  | [], name, v => [(name, v)]
  | (stored, w) :: fields, name, v =>
    if stored = name then (name, v) :: fields
    else if (get fields name).isNone && decide (name < stored) then (name, v) :: (stored, w) :: fields
    else (stored, w) :: insert fields name v

def remove (fields : Fields) (name : String) : Fields :=
  fields.filter fun field => decide (field.1 ≠ name)

/-- The fields of `later` put over those of `fields`. -/
def overlay (fields later : Fields) : Fields :=
  later.foldl (fun result field => insert result field.1 field.2) fields

def names (fields : Fields) : List String :=
  fields.map Prod.fst

variable {fields later : Fields} {name other : String} {v : Value}

theorem mem_of_get (found : get fields name = some v) : (name, v) ∈ fields := by
  induction fields with
  | nil => cases found
  | cons head rest ih =>
    rcases head with ⟨stored, first⟩
    rw [get] at found
    split_ifs at found with same
    · cases found
      rw [same]
      exact .head _
    · exact .tail _ (ih found)

theorem get_of_mem (distinct : (names fields).Nodup) (listed : (name, v) ∈ fields) :
    get fields name = some v := by
  induction fields with
  | nil => cases listed
  | cons head rest ih =>
    rcases head with ⟨stored, first⟩
    have parts := List.nodup_cons.mp distinct
    rcases List.mem_cons.mp listed with here | later
    · cases here
      rw [get, if_pos rfl]
    · have different : stored ≠ name := by
        intro same
        subst same
        exact parts.1 (List.mem_map.mpr ⟨_, later, rfl⟩)
      rw [get, if_neg different]
      exact ih parts.2 later

theorem get_eq_none : get fields name = none <-> name ∉ names fields := by
  induction fields with
  | nil => simp [get, names]
  | cons head rest ih =>
    rcases head with ⟨stored, first⟩
    rw [get]
    by_cases same : stored = name
    · simp [same, names]
    · rw [if_neg same, ih]
      simp [names, eq_comm (a := name), same]

theorem get_insert : get (insert fields name v) other = if name = other then some v else get fields other := by
  induction fields with
  | nil => rfl
  | cons head rest ih =>
    rcases head with ⟨stored, first⟩
    rw [insert]
    by_cases here : stored = name
    · subst here
      rw [if_pos rfl, get, get]
      split_ifs <;> rfl
    · rw [if_neg here]
      by_cases before : ((get rest name).isNone && decide (name < stored)) = true
      · rw [if_pos before, get]
      · rw [if_neg before, get, ih, get]
        by_cases same : stored = other
        · rw [if_pos same, if_pos same, if_neg]
          intro there
          exact here (same.trans there.symm)
        · rw [if_neg same, if_neg same]

theorem get_filter {keep : String -> Bool} :
    get (fields.filter fun field => keep field.1) name = if keep name then get fields name else none := by
  induction fields with
  | nil => split_ifs <;> rfl
  | cons head rest ih =>
    rcases head with ⟨stored, first⟩
    rw [List.filter_cons, get]
    by_cases same : stored = name
    · subst same
      cases kept : keep stored with
      | true => rw [if_pos rfl, if_pos rfl, if_pos rfl, get, if_pos rfl]
      | false =>
        rw [kept] at ih
        exact ih
    · rw [if_neg same, ← ih]
      split_ifs with kept
      · rw [get, if_neg same]
      · rfl

theorem get_remove : get (remove fields name) other = if name = other then none else get fields other := by
  refine (@get_filter _ _ fun stored => decide (stored ≠ name)).trans ?_
  by_cases same : name = other
  · rw [if_pos same, if_neg (by simp [same])]
  · rw [if_neg same, if_pos (by simp [eq_comm (a := other), same])]

end Fields

/-- The value of an object under a name; no other value has one. -/
def Value.field (name : String) : Value -> Option Value
  | .object fields => Fields.get fields name
  | .null | .bool _ | .number _ | .string _ | .array _ => none

end NotK8s.Patch

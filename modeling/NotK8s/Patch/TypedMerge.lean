import NotK8s.Patch.FieldSet

namespace NotK8s.Patch

/-!
# Merging an apply configuration

The configuration is merged over the live object along the schema.  What
only one side has is taken from that side; where both have a granular
container it is merged, and anything else is the configuration's.
-/

variable (api : OpenApi)

/-- Whether two elements agree on every key field, a missing one included. -/
def keysMatch (listMapKeys : List String) (element other : Fields) : Bool :=
  listMapKeys.all fun key => element.get key = other.get key

/-- The first element that matches is replaced; without one, `element` is appended. -/
def placeElement (listMapKeys : List String) (merged : Fields -> Fields) (element : Fields) :
    List Value -> List Value
  | [] => [.object element]
  | .object existing :: elements =>
    if keysMatch listMapKeys existing element then .object (merged existing) :: elements
    else .object existing :: placeElement listMapKeys merged element elements
  | .null :: elements => .null :: placeElement listMapKeys merged element elements
  | .bool b :: elements => .bool b :: placeElement listMapKeys merged element elements
  | .number n :: elements => .number n :: placeElement listMapKeys merged element elements
  | .string s :: elements => .string s :: placeElement listMapKeys merged element elements
  | .array inner :: elements => .array inner :: placeElement listMapKeys merged element elements

def mergeSetList (lhs rhs : List Value) : List Value :=
  rhs.foldl (fun result element => if result.contains element then result else result ++ [element]) lhs

mutual

/-- `merge_field`, both sides being there. -/
def mergeField (info : Option FieldMeta) (lhs : Value) : Value -> Value
  | .object rhs =>
    match lhs with
    | .object fields =>
      if isAtomicMap info then .object rhs
      else match refSchemaOf info with
        | some schema => .object (Fields.overlay fields (mergedFields schema fields rhs))
        | none => .object (Fields.overlay fields rhs)
    | .null | .bool _ | .number _ | .string _ | .array _ => .object rhs
  | .array rhs =>
    match lhs with
    | .array elements =>
      match listTypeOf info with
      | some .map =>
        if (listMapKeysOf info).isEmpty then .array rhs
        else .array (mergeElements (listMapKeysOf info) (refSchemaOf info) elements rhs)
      | some .set => .array (mergeSetList elements rhs)
      | some .atomic | none => .array rhs
    | .null | .bool _ | .number _ | .string _ | .object _ => .array rhs
  | .null => .null
  | .bool b => .bool b
  | .number n => .number n
  | .string s => .string s

/-- The fields of the right side, each merged with its counterpart on the left. -/
def mergedFields (schema : String) (lhs : Fields) : Fields -> Fields
  | [] => []
  | (name, v) :: rhs =>
    (name, match lhs.get name with
      | some w => mergeField (api.fieldMeta schema name) w v
      | none => v) :: mergedFields schema lhs rhs

def mergeElements (listMapKeys : List String) (elementSchema : Option String) (result : List Value) :
    List Value -> List Value
  | [] => result
  | .object fields :: rhs =>
    mergeElements listMapKeys elementSchema
      (placeElement listMapKeys
        (fun existing => existing.overlay (mergedFields (elementSchema.getD "") existing fields))
        fields result) rhs
  | .null :: rhs => mergeElements listMapKeys elementSchema (result ++ [.null]) rhs
  | .bool b :: rhs => mergeElements listMapKeys elementSchema (result ++ [.bool b]) rhs
  | .number n :: rhs => mergeElements listMapKeys elementSchema (result ++ [.number n]) rhs
  | .string s :: rhs => mergeElements listMapKeys elementSchema (result ++ [.string s]) rhs
  | .array inner :: rhs => mergeElements listMapKeys elementSchema (result ++ [.array inner]) rhs

end

def mergeObjects (schema : String) (lhs rhs : Fields) : Fields :=
  lhs.overlay (mergedFields api schema lhs rhs)

def merge (schema : String) (lhs rhs : Value) : Value :=
  match lhs, rhs with
  | .object fields, .object later => .object (mergeObjects api schema fields later)
  | _, other => other

open Library

/-!
# Comparing two values along the schema

Every path that only one side has is removed or added, at every depth; a path
that both have as a leaf is modified when the two values differ.
-/

inductive Side where
  | removed
  | modified
  | added
  deriving DecidableEq

/-- The paths inserted in the course of a comparison, each with its set. -/
abbrev Changes := List (Side × Path)

def Changes.under (e : PathElement) (changes : Changes) : Changes :=
  changes.map fun change => (change.1, e :: change.2)

variable (api : OpenApi)

section MarkOneSided

mutual

/-- The paths `mark_one_sided` inserts, from the field on. -/
def markOneSided (info : Option FieldMeta) : Value -> List Path
  | .object fields =>
    if isAtomicMap info then [[]]
    else [] :: match refSchemaOf info with
      | some schema => markObjectFields schema fields
      | none => fields.map fun field => [.field field.1]
  | .array elements =>
    match listTypeOf info with
    | some .map => [] :: markElements (listMapKeysOf info) (refSchemaOf info) elements
    | some .set => [] :: elements.map fun element => [.value element]
    | some .atomic | none => [[]]
  | .null | .bool _ | .number _ | .string _ => [[]]

def markObjectFields (schema : String) : Fields -> List Path
  | [] => []
  | (name, v) :: fields =>
    (markOneSided (api.fieldMeta schema name) v).map (.field name :: ·) ++ markObjectFields schema fields

def markElements (listMapKeys : List String) (elementSchema : Option String) : List Value -> List Path
  | [] => []
  | .object fields :: elements =>
    ([] :: match elementSchema with
      | some schema => markObjectFields schema fields
      | none => []).map (.key (keyFields listMapKeys fields) :: ·) ++
      markElements listMapKeys elementSchema elements
  | .null :: elements | .bool _ :: elements | .number _ :: elements | .string _ :: elements
  | .array _ :: elements => markElements listMapKeys elementSchema elements

end

def markOneSidedElement (elementSchema : Option String) (element : Fields) : List Path :=
  [] :: match elementSchema with
    | some schema => markObjectFields api schema element
    | none => []

end MarkOneSided

section Compare

def compareLeaf (lhs rhs : Value) : Changes :=
  if lhs = rhs then [] else [(.modified, [])]

def compareSetList (lhs rhs : List Value) : Changes :=
  (lhs.filter fun element => !rhs.contains element).map (fun element => (.removed, [.value element])) ++
    (rhs.filter fun element => !lhs.contains element).map fun element => (.added, [.value element])

/-- The first element under the key fields. -/
def elementUnder (listMapKeys : List String) (identity : Fields) : List Value -> Option Fields
  | [] => none
  | .object fields :: elements =>
    if keyFields listMapKeys fields = identity then some fields
    else elementUnder listMapKeys identity elements
  | .null :: elements | .bool _ :: elements | .number _ :: elements | .string _ :: elements
  | .array _ :: elements => elementUnder listMapKeys identity elements

/-- What only the right side has, object field by object field. -/
def addedFields (info : String -> Option FieldMeta) (lhs rhs : Fields) : Changes :=
  (rhs.filter fun field => (lhs.get field.1).isNone).flatMap fun field =>
    Changes.under (.field field.1) ((markOneSided api (info field.1) field.2).map fun path => (.added, path))

/-- The fields of a map without a schema for its values. -/
def compareMapFields (lhs rhs : Fields) : Changes :=
  (lhs.flatMap fun field =>
    Changes.under (.field field.1) (match rhs.get field.1 with
      | some v => compareLeaf field.2 v
      | none => (markOneSided api none field.2).map fun path => (.removed, path))) ++
    addedFields api (fun _ => none) lhs rhs

/-- The elements under key fields the left side lacks, the first of each. -/
def addedElements (listMapKeys : List String) (elementSchema : Option String) (lhs : List Value) :
    List Fields -> List Value -> Changes
  | _, [] => []
  | seen, .object fields :: rhs =>
    if keyFields listMapKeys fields ∈ seen then addedElements listMapKeys elementSchema lhs seen rhs
    else
      (match elementUnder listMapKeys (keyFields listMapKeys fields) lhs with
        | some _ => []
        | none => Changes.under (.key (keyFields listMapKeys fields))
            ((markOneSidedElement api elementSchema fields).map fun path => (.added, path))) ++
        addedElements listMapKeys elementSchema lhs (keyFields listMapKeys fields :: seen) rhs
  | seen, .null :: rhs | seen, .bool _ :: rhs | seen, .number _ :: rhs | seen, .string _ :: rhs
  | seen, .array _ :: rhs => addedElements listMapKeys elementSchema lhs seen rhs

mutual

/-- `compare_present`, both sides being there. -/
def comparePresent (info : Option FieldMeta) : Value -> Value -> Changes
  | .object lhs, .object rhs =>
    if isAtomicMap info then compareLeaf (.object lhs) (.object rhs)
    else match refSchemaOf info with
      | some schema => compareFields schema rhs lhs ++ addedFields api (api.fieldMeta schema) lhs rhs
      | none => compareMapFields api lhs rhs
  | .array lhs, .array rhs =>
    match listTypeOf info with
    | some .map =>
      if (listMapKeysOf info).isEmpty then compareLeaf (.array lhs) (.array rhs)
      else compareElements (listMapKeysOf info) (refSchemaOf info) rhs [] lhs ++
        addedElements api (listMapKeysOf info) (refSchemaOf info) lhs [] rhs
    | some .set => compareSetList lhs rhs
    | some .atomic | none => compareLeaf (.array lhs) (.array rhs)
  | lhs, rhs => compareLeaf lhs rhs

def compareFields (schema : String) (rhs : Fields) : Fields -> Changes
  | [] => []
  | (name, v) :: lhs =>
    Changes.under (.field name) (match Fields.get rhs name with
      | some w => comparePresent (api.fieldMeta schema name) v w
      | none => (markOneSided api (api.fieldMeta schema name) v).map fun path => (.removed, path)) ++
      compareFields schema rhs lhs

/-- The elements of the left side, the first under each key fields. -/
def compareElements (listMapKeys : List String) (elementSchema : Option String) (rhs : List Value)
    (seen : List Fields) : List Value -> Changes
  | [] => []
  | .object fields :: lhs =>
    if keyFields listMapKeys fields ∈ seen then compareElements listMapKeys elementSchema rhs seen lhs
    else
      Changes.under (.key (keyFields listMapKeys fields))
        (match elementUnder listMapKeys (keyFields listMapKeys fields) rhs with
          | some other =>
            match elementSchema with
            | some schema => compareFields schema other fields ++ addedFields api (api.fieldMeta schema) fields other
            | none => compareLeaf (.object fields) (.object other)
          | none => (markOneSidedElement api elementSchema fields).map fun path => (.removed, path)) ++
        compareElements listMapKeys elementSchema rhs (keyFields listMapKeys fields :: seen) lhs
  | .null :: lhs | .bool _ :: lhs | .number _ :: lhs | .string _ :: lhs | .array _ :: lhs =>
    compareElements listMapKeys elementSchema rhs seen lhs

end

structure Comparison where
  removed : FieldSet
  modified : FieldSet
  added : FieldSet

def Changes.paths (changes : Changes) (side : Side) : FieldSet :=
  PathTree.ofPaths ((changes.filter fun change => change.1 = side).map Prod.snd)

def compareObjects (schema : String) (lhs rhs : Fields) : Changes :=
  compareFields api schema rhs lhs ++ addedFields api (api.fieldMeta schema) lhs rhs

def compareValues (schema : String) (lhs rhs : Value) : Changes :=
  match lhs, rhs with
  | .object fields, .object others => compareObjects api schema fields others
  | _, _ => compareLeaf lhs rhs

def compare (schema : String) (lhs rhs : Value) : Comparison where
  removed := (compareValues api schema lhs rhs).paths .removed
  modified := (compareValues api schema lhs rhs).paths .modified
  added := (compareValues api schema lhs rhs).paths .added

def Comparison.excludeFields (c : Comparison) (ignored : FieldSet) : Comparison where
  removed := c.removed.recursiveDifference ignored
  modified := c.modified.recursiveDifference ignored
  added := c.added.recursiveDifference ignored

end Compare

end NotK8s.Patch

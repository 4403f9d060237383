import NotK8s.Library.PathTree
import NotK8s.Patch.Value

namespace NotK8s.Patch

open Library

/-!
# Field sets of schema-shaped values

The schema of a built-in type is read from two compiled tables.  Along it a
value is taken apart into the paths of its leaves: a field of an object, an
element of an associative list under its key fields, an element of a set
under its own value.  An atomic map or list, and a list nobody annotated, is
one leaf.
-/

inductive ListType where
  | atomic
  | set
  | map
  deriving DecidableEq

inductive MapType where
  | atomic
  | granular
  deriving DecidableEq

structure FieldMeta where
  listType : Option ListType := none
  listMapKeys : List String := []
  mapType : Option MapType := none
  refSchema : Option String := none
  deriving DecidableEq

/-- The tables `FIELD_META` and `TYPE_INFO`; no schema is named by the empty string. -/
structure OpenApi where
  fieldMeta : String -> String -> Option FieldMeta
  typeInfo : String -> String -> Bool
  unnamed : forall field, fieldMeta "" field = none ∧ typeInfo "" field = false

inductive PathElement where
  | field (name : String)
  | key (fields : Fields)
  | value (v : Value)
  | index (i : Int)
  deriving DecidableEq

abbrev Path := List PathElement

abbrev FieldSet := PathTree PathElement

def isAtomicMap (info : Option FieldMeta) : Bool :=
  info.bind FieldMeta.mapType = some .atomic

def listTypeOf (info : Option FieldMeta) : Option ListType :=
  info.bind FieldMeta.listType

def listMapKeysOf (info : Option FieldMeta) : List String :=
  (info.map FieldMeta.listMapKeys).getD []

def refSchemaOf (info : Option FieldMeta) : Option String :=
  info.bind FieldMeta.refSchema

/-- The key fields an element has, by name. -/
def keyFields (listMapKeys : List String) (element : Fields) : Fields :=
  (listMapKeys.filterMap fun key => (element.get key).map fun v => (key, v)).insertionSort
    fun first second => first.1 ≤ second.1

variable (api : OpenApi)

section SetFromObject

mutual

/-- The leaves `collect_field_value` inserts, from the field on. -/
def collectFieldValue (info : Option FieldMeta) : Value -> List Path
  | .object fields =>
    if isAtomicMap info then [[]]
    else match refSchemaOf info with
      | some schema => collectObjectFields schema fields
      | none => fields.map fun field => [.field field.1]
  | .array elements =>
    match listTypeOf info with
    | some .map => collectElements (listMapKeysOf info) (refSchemaOf info) elements
    | some .set => elements.map fun element => [.value element]
    | some .atomic | none => [[]]
  | .null | .bool _ | .number _ | .string _ => [[]]

def collectObjectFields (schema : String) : Fields -> List Path
  | [] => []
  | (name, v) :: fields =>
    (collectFieldValue (api.fieldMeta schema name) v).map (.field name :: ·) ++
      collectObjectFields schema fields

/-- An element that is no object is passed over. -/
def collectElements (listMapKeys : List String) (elementSchema : Option String) : List Value -> List Path
  | [] => []
  | .object fields :: elements =>
    (match elementSchema with
      | some schema => collectObjectFields schema fields
      | none => [[]]).map (.key (keyFields listMapKeys fields) :: ·) ++
      collectElements listMapKeys elementSchema elements
  | .null :: elements | .bool _ :: elements | .number _ :: elements | .string _ :: elements
  | .array _ :: elements => collectElements listMapKeys elementSchema elements

end

def collectObject (schema : String) : Value -> List Path
  | .object fields => collectObjectFields api schema fields
  | .null | .bool _ | .number _ | .string _ | .array _ => []

def setFromObject (schema : String) (v : Value) : FieldSet :=
  PathTree.ofPaths (collectObject api schema v)

end SetFromObject

section RemoveItems

/-- What is left of a container that was removed as a whole is the empty container. -/
def keepContainer (before : Value) (removed : Value) : Value :=
  match removed, before with
  | .null, .object _ => .object []
  | .null, .array _ => .array []
  | other, _ => other

mutual

def removeFieldValue (info : Option FieldMeta) : Value -> FieldSet -> Value
  | .object fields, subset =>
    if isAtomicMap info then .null
    else match refSchemaOf info with
      | some schema => .object (removeObjectFields schema fields subset)
      | none => .object (fields.filter fun field => !subset.members.contains (.field field.1))
  | .array elements, subset =>
    match listTypeOf info with
    | some .map => .array (removeElements (listMapKeysOf info) (refSchemaOf info) elements subset)
    | some .set => .array (elements.filter fun element => !subset.members.contains (.value element))
    | some .atomic | none => .null
  | .null, _ => .null
  | .bool b, _ => .bool b
  | .number n, _ => .number n
  | .string s, _ => .string s

def removeObjectFields (schema : String) : Fields -> FieldSet -> Fields
  | [], _ => []
  | (name, v) :: fields, toRemove =>
    if toRemove.members.contains (.field name) then removeObjectFields schema fields toRemove
    else
      (name, match toRemove.get (.field name) with
        | some subset =>
          if subset.isEmpty then v
          else keepContainer v (removeFieldValue (api.fieldMeta schema name) v subset)
        | none => v) :: removeObjectFields schema fields toRemove

def removeElements (listMapKeys : List String) (elementSchema : Option String) :
    List Value -> FieldSet -> List Value
  | [], _ => []
  | .object fields :: elements, subset =>
    if subset.members.contains (.key (keyFields listMapKeys fields)) then
      removeElements listMapKeys elementSchema elements subset
    else
      (match subset.get (.key (keyFields listMapKeys fields)) with
        | some elementSubset =>
          if elementSubset.isEmpty then .object fields
          else match elementSchema with
            | some schema => .object (removeObjectFields schema fields elementSubset)
            | none => .object fields
        | none => .object fields) :: removeElements listMapKeys elementSchema elements subset
  | .null :: elements, subset => .null :: removeElements listMapKeys elementSchema elements subset
  | .bool b :: elements, subset => .bool b :: removeElements listMapKeys elementSchema elements subset
  | .number n :: elements, subset => .number n :: removeElements listMapKeys elementSchema elements subset
  | .string s :: elements, subset => .string s :: removeElements listMapKeys elementSchema elements subset
  | .array inner :: elements, subset => .array inner :: removeElements listMapKeys elementSchema elements subset

end

def removeItems (schema : String) (toRemove : FieldSet) : Value -> Value
  | .object fields => .object (removeObjectFields api schema fields toRemove)
  | .null => .null
  | .bool b => .bool b
  | .number n => .number n
  | .string s => .string s
  | .array elements => .array elements

end RemoveItems

section EnsureNamed

def isDeclaredField (schema name : String) : Bool :=
  (api.fieldMeta schema name).isSome || api.typeInfo schema name

/-- The schema one path element further on: an element of a list keeps the
schema the list's own field led to. -/
def nextSchema (schema : String) : PathElement -> String
  | .field name => (refSchemaOf (api.fieldMeta schema name)).getD ""
  | .key _ | .value _ | .index _ => schema

/-- Whether the element names a declared field of the schema. -/
def declares (schema : String) : PathElement -> Bool
  | .field name => isDeclaredField api schema name
  | .key _ | .value _ | .index _ => false

def ensureNamedFieldsAreMembers (schema : String) : FieldSet -> FieldSet
  | .node members keys child =>
    .node (members ++ keys.filter fun e => declares api schema e && !members.contains e) keys
      fun e => ensureNamedFieldsAreMembers (nextSchema api schema e.1) (child e)

end EnsureNamed

end NotK8s.Patch

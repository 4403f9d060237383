import Mathlib
import NotK8s.Library.Text
import NotK8s.Patch.FieldSet

namespace NotK8s.Patch

open Library

/-!
# Decoding managed fields

`metadata.managedFields` comes from the client.  Its keys are path elements
written as text: a kind, a colon, and the rest.  The two bytes of the kind
and the colon are cut off with `split_at`, which panics when the cut would
fall inside a character; a panic ends the process.

The keys are met in document order and the first malformed one ends the
decoding with an error, so a key that cannot be cut does harm exactly when
no malformed key comes before it.
-/

inductive DeserializeError where
  | tooShort (s : String)
  | missingColon (s : String)
  | unknownType (s : String)
  | invalidJson (s message : String)
  | keyNotAnObject (s : String)
  | invalidIndex (s : String)
  deriving DecidableEq

/-- What a decoder comes to: it returns, or it panics. -/
inductive Decoded (Failure Result : Type) where
  | panicked
  | refused (failure : Failure)
  | ok (result : Result)

/-- A 64-bit integer in decimal. -/
def parseI64 (text : List Char) : Option Int :=
  (Text.integer text).filter fun n => decide (-2 ^ 63 ≤ n ∧ n < 2 ^ 63)

/-- `serde_json::from_str`: a value or the text of the error. -/
abbrev JsonReader := String -> Except String Value

variable (fromStr : JsonReader)

def deserializePathElement (s : String) : Decoded DeserializeError PathElement :=
  if Utf8.byteLength s.toList < 2 then .refused (.tooShort s)
  else match Utf8.splitAtByte 2 s.toList with
    | none => .panicked
    | some ([], _) => .refused (.tooShort s)
    | some (kind :: more, rest) =>
      if more.head? ≠ some ':' then .refused (.missingColon s)
      else match kind with
        | 'f' => .ok (.field (String.ofList rest))
        | 'v' => match fromStr (String.ofList rest) with
          | .error message => .refused (.invalidJson s message)
          | .ok v => .ok (.value v)
        | 'i' => match parseI64 rest with
          | some i => .ok (.index i)
          | none => .refused (.invalidIndex s)
        | 'k' => match fromStr (String.ofList rest) with
          | .error message => .refused (.invalidJson s message)
          | .ok (.object fields) => .ok (.key (fields.insertionSort fun first second => first.1 ≤ second.1))
          | .ok _ => .refused (.keyNotAnObject s)
        | _ => .refused (.unknownType s)

namespace FieldSet

def pushMember (set : FieldSet) (pe : PathElement) : FieldSet :=
  PathTree.ofChildren (set.members ++ [pe]) set.keys set.get

/-- `members.is_empty() && children.is_empty()` -/
def isBare (set : FieldSet) : Bool :=
  set.members.isEmpty && set.keys.isEmpty

end FieldSet

mutual

def setFromJson : Value -> Decoded DeserializeError FieldSet
  | .object fields => setFromFields fields PathTree.empty
  | .null | .bool _ | .number _ | .string _ | .array _ => .ok PathTree.empty

def setFromFields : Fields -> FieldSet -> Decoded DeserializeError FieldSet
  | [], set => .ok set
  | (key, nested) :: fields, set =>
    if key = "." then setFromFields fields set
    else match deserializePathElement fromStr key with
      | .panicked => .panicked
      | .refused (.unknownType _) => setFromFields fields set
      | .refused failure => .refused failure
      | .ok pe => match setFromJson nested with
        | .panicked => .panicked
        | .refused failure => .refused failure
        | .ok child =>
          let isMember := (nested.field ".").isSome || FieldSet.isBare child
          let set := if isMember then FieldSet.pushMember set pe else set
          let set := if FieldSet.isBare child then set else set.setChild pe child
          setFromFields fields set

end

structure ManagedFieldsEntry where
  manager : String
  operation : String
  apiVersion : String
  time : Option String
  fields : FieldSet
  subresource : String

inductive ManagedFieldsError where
  | notAnArray
  | entryNotAnObject
  | fields (failure : DeserializeError)
  deriving DecidableEq

def stringField (fields : Fields) (name : String) : String :=
  ((Fields.get fields name).bind Value.asStr).getD ""

def parseEntries : List Value -> Decoded ManagedFieldsError (List ManagedFieldsEntry)
  | [] => .ok []
  | .object entry :: entries =>
    if stringField entry "fieldsType" ≠ "FieldsV1" then parseEntries entries
    else
      match ((Fields.get entry "fieldsV1").map (setFromJson fromStr)).getD (.ok PathTree.empty) with
      | .panicked => .panicked
      | .refused failure => .refused (.fields failure)
      | .ok fields => match parseEntries entries with
        | .panicked => .panicked
        | .refused failure => .refused failure
        | .ok later => .ok
            ({ manager := stringField entry "manager"
               operation := stringField entry "operation"
               apiVersion := stringField entry "apiVersion"
               time := (Fields.get entry "time").bind Value.asStr
               fields := fields
               subresource := stringField entry "subresource" } :: later)
  | .null :: _ | .bool _ :: _ | .number _ :: _ | .string _ :: _ | .array _ :: _ => .refused .entryNotAnObject

def parseManagedFields : Value -> Decoded ManagedFieldsError (List ManagedFieldsEntry)
  | .array entries => parseEntries fromStr entries
  | .null | .bool _ | .number _ | .string _ | .object _ => .refused .notAnArray

/-! ## Where decoding stops -/

/-- What is wrong with a key. -/
inductive Fault where
  /-- Its second byte does not end a character. -/
  | uncuttable
  /-- It is refused with an error that is passed on. -/
  | malformed
  deriving DecidableEq

/-- The key is long enough to be cut, and the cut falls inside a character. -/
def Uncuttable (s : String) : Prop :=
  2 ≤ Utf8.byteLength s.toList ∧ ¬Utf8.IsBoundary s.toList 2

instance : DecidablePred Uncuttable := fun s =>
  inferInstanceAs (Decidable (2 ≤ Utf8.byteLength s.toList ∧ ¬Utf8.IsBoundary s.toList 2))

/-- The fault of one key.  A kind nobody knows is passed over. -/
def faultOf (key : String) : Option Fault :=
  if Uncuttable key then some .uncuttable
  else match deserializePathElement fromStr key with
    | .refused (.unknownType _) | .ok _ => none
    | .refused _ | .panicked => some .malformed

/-- What lies below a key is looked at if the key is a path element. -/
def entersBelow (key : String) : Bool :=
  match deserializePathElement fromStr key with
  | .ok _ => true
  | .panicked | .refused _ => false

mutual

/-- The keys of a field set in the order in which decoding meets them. -/
def keysMet : Value -> List String
  | .object fields => keysMetIn fields
  | .null | .bool _ | .number _ | .string _ | .array _ => []

def keysMetIn : Fields -> List String
  | [] => []
  | (key, nested) :: fields =>
    if key = "." then keysMetIn fields
    else key :: ((if entersBelow fromStr key then keysMet nested else []) ++ keysMetIn fields)

end

/-- The first fault among the keys met. -/
def firstFault (keys : List String) : Option Fault :=
  keys.findSome? (faultOf fromStr)

/-- The first fault among the entries of a `managedFields` array. -/
def firstEntryFault : List Value -> Option Fault
  | [] => none
  | .object entry :: entries =>
    if stringField entry "fieldsType" ≠ "FieldsV1" then firstEntryFault entries
    else (firstFault fromStr (((Fields.get entry "fieldsV1").map (keysMet fromStr)).getD [])).or (firstEntryFault entries)
  | .null :: _ | .bool _ :: _ | .number _ :: _ | .string _ :: _ | .array _ :: _ => some .malformed

namespace Decoded

variable {Failure Result : Type}

/-- What stopped a decoder. -/
def fault : Decoded Failure Result -> Option Fault
  | .panicked => some .uncuttable
  | .refused _ => some .malformed
  | .ok _ => none

theorem panicked_iff {decoded : Decoded Failure Result} : decoded = .panicked <-> decoded.fault = some .uncuttable := by
  cases decoded with
  | panicked => exact ⟨fun _ => rfl, fun _ => rfl⟩
  | refused failure | ok result => exact ⟨nofun, nofun⟩

end Decoded

variable {fromStr}

theorem deserializePathElement_panicked_iff {s : String} :
    deserializePathElement fromStr s = .panicked <-> Uncuttable s := by
  rw [deserializePathElement, Uncuttable, ← Utf8.splitAtByte_isSome_iff]
  by_cases short : Utf8.byteLength s.toList < 2
  · rw [if_pos short]
    exact ⟨nofun, fun uncuttable => absurd short (Nat.not_lt.mpr uncuttable.1)⟩
  · rw [if_neg short]
    cases cut : Utf8.splitAtByte 2 s.toList with
    | none => exact ⟨fun _ => ⟨Nat.not_lt.mp short, nofun⟩, fun _ => rfl⟩
    | some parts =>
      refine ⟨fun stopped => ?_, fun uncuttable => absurd rfl uncuttable.2⟩
      rcases parts with ⟨front, rest⟩
      cases front with
      | nil => cases stopped
      | cons kind more =>
        dsimp only at stopped
        split_ifs at stopped with colon
        split at stopped
        · cases stopped
        · split at stopped <;> cases stopped
        · split at stopped <;> cases stopped
        · split at stopped <;> cases stopped
        · cases stopped

theorem faultOf_uncuttable {key : String} (uncuttable : Uncuttable key) : faultOf fromStr key = some .uncuttable :=
  if_pos uncuttable

theorem faultOf_cuttable {key : String} (cuttable : ¬Uncuttable key) :
    faultOf fromStr key = match deserializePathElement fromStr key with
      | .refused (.unknownType _) | .ok _ => none
      | .refused _ | .panicked => some .malformed :=
  if_neg cuttable

theorem firstFault_cons {key : String} {keys : List String} :
    firstFault fromStr (key :: keys) = (faultOf fromStr key).or (firstFault fromStr keys) := by
  rw [firstFault, List.findSome?_cons, firstFault]
  cases faultOf fromStr key with
  | none => rfl
  | some fault => rfl

theorem firstFault_append {keys others : List String} :
    firstFault fromStr (keys ++ others) = (firstFault fromStr keys).or (firstFault fromStr others) :=
  List.findSome?_append

mutual

theorem setFromJson_fault : (v : Value) -> (setFromJson fromStr v).fault = firstFault fromStr (keysMet fromStr v)
  | .object fields => by
    rw [setFromJson, keysMet]
    exact setFromFields_fault fields PathTree.empty
  | .null | .bool _ | .number _ | .string _ | .array _ => by
    rw [setFromJson, keysMet]
    rfl

theorem setFromFields_fault :
    (fields : Fields) -> (set : FieldSet) ->
      (setFromFields fromStr fields set).fault = firstFault fromStr (keysMetIn fromStr fields)
  | [], set => by
    rw [setFromFields, keysMetIn]
    rfl
  | (key, nested) :: fields, set => by
    rw [setFromFields, keysMetIn]
    by_cases marker : key = "."
    · rw [if_pos marker, if_pos marker]
      exact setFromFields_fault fields set
    · rw [if_neg marker, if_neg marker, firstFault_cons, firstFault_append]
      by_cases uncuttable : Uncuttable key
      · rw [deserializePathElement_panicked_iff.mpr uncuttable, faultOf_uncuttable uncuttable]
        rfl
      · rw [faultOf_cuttable uncuttable, entersBelow]
        cases decoded : deserializePathElement fromStr key with
        | panicked => exact absurd (deserializePathElement_panicked_iff.mp decoded) uncuttable
        | refused failure =>
          cases failure with
          | unknownType s => exact setFromFields_fault fields set
          | tooShort s | missingColon s | keyNotAnObject s | invalidIndex s => rfl
          | invalidJson s message => rfl
        | ok pe =>
          have below := setFromJson_fault nested
          rw [if_pos rfl, ← below]
          cases child : setFromJson fromStr nested with
          | panicked => rfl
          | refused failure => rfl
          | ok child => exact setFromFields_fault fields _

end

theorem parseEntries_fault {entries : List Value} :
    (parseEntries fromStr entries).fault = firstEntryFault fromStr entries := by
  induction entries with
  | nil => rfl
  | cons entry entries ih =>
    cases entry with
    | object entry =>
      rw [parseEntries, firstEntryFault]
      by_cases other : stringField entry "fieldsType" ≠ "FieldsV1"
      · rw [if_pos other, if_pos other]
        exact ih
      · rw [if_neg other, if_neg other, ← ih]
        have decoded : ((((Fields.get entry "fieldsV1").map (setFromJson fromStr)).getD (.ok PathTree.empty)).fault) =
            firstFault fromStr (((Fields.get entry "fieldsV1").map (keysMet fromStr)).getD []) := by
          cases Fields.get entry "fieldsV1" with
          | none => rfl
          | some fieldsV1 => exact setFromJson_fault fieldsV1
        rw [← decoded]
        cases ((Fields.get entry "fieldsV1").map (setFromJson fromStr)).getD (.ok PathTree.empty) with
        | panicked => rfl
        | refused failure => rfl
        | ok fields =>
          cases parseEntries fromStr entries with
          | panicked => rfl
          | refused failure => rfl
          | ok later => rfl
    | null | bool b | number n | string s | array elements => rfl

/-- Decoding panics exactly when the first faulty key it meets cannot be cut
after its second byte. -/
theorem decoding_never_panics_iff (fromStr : JsonReader) :
    (forall s, deserializePathElement fromStr s ≠ .panicked <-> ¬Uncuttable s) ∧
      (forall v, setFromJson fromStr v ≠ .panicked <->
        firstFault fromStr (keysMet fromStr v) ≠ some .uncuttable) ∧
      forall entries, parseManagedFields fromStr (.array entries) ≠ .panicked <->
        firstEntryFault fromStr entries ≠ some .uncuttable := by
  refine ⟨fun s => not_congr deserializePathElement_panicked_iff, fun v => not_congr ?_, fun entries => not_congr ?_⟩
  · rw [Decoded.panicked_iff, setFromJson_fault]
  · rw [parseManagedFields, Decoded.panicked_iff, parseEntries_fault]

theorem firstFault_uncuttable {key : String} {keys : List String} (uncuttable : Uncuttable key) :
    firstFault fromStr (key :: keys) = some .uncuttable := by
  rw [firstFault_cons, faultOf_uncuttable uncuttable]
  rfl

/-- A key of one character of three bytes, in the only entry of a request. -/
theorem euroKey_panics :
    deserializePathElement (fun _ => .ok .null) "€" = .panicked ∧
      setFromJson (fun _ => .ok .null) (.object [("€", .object [])]) = .panicked ∧
      parseManagedFields (fun _ => .ok .null)
        (.array [.object [("fieldsType", .string "FieldsV1"), ("fieldsV1", .object [("€", .object [])])]]) = .panicked := by
  have uncuttable : Uncuttable "€" := by decide +kernel
  have met (fromStr : JsonReader) : keysMet fromStr (.object [("€", .object [])]) = ["€"] := by
    rw [keysMet, keysMetIn, if_neg (by decide), keysMet, keysMetIn, ite_self]
    rfl
  refine ⟨deserializePathElement_panicked_iff.mpr uncuttable, ?_, ?_⟩
  · rw [Decoded.panicked_iff, setFromJson_fault, met, firstFault_uncuttable uncuttable]
  · rw [parseManagedFields, Decoded.panicked_iff, parseEntries_fault, firstEntryFault]
    simp [stringField, Fields.get, Value.asStr, met, firstFault_uncuttable uncuttable]

end NotK8s.Patch

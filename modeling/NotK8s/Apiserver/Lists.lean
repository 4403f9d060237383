import NotK8s.Apiserver.StorageKeys
import NotK8s.Cacher.Contents
import NotK8s.Library.Base64
import NotK8s.Library.Text
import NotK8s.Nodestore.Readers

namespace NotK8s.Apiserver

open Library

/-!
# Continue tokens

A page that is not the last one of its list ends in a token: the key to go on
from and the revision to read at, with a zero byte between them, in Base64.
A token is whatever a client sends, so decoding it may give any key and any
revision.
-/

def encodeContinueToken (resumeKey : Bytes) (revision : Int) : String :=
  String.ofList (Base64.encode (resumeKey ++ [0] ++ (Text.ofInt revision).map fun c => c.toNat.toUInt8))

/-- The revision that a list reports.  The store's own may be later than the
one that was read. -/
def listSnapshotRevision (requested current : Int) : Int :=
  if 0 < requested then requested else current

/-- A 64-bit integer in decimal. -/
def parseRevision (text : Bytes) : Option Int :=
  (Text.integer (text.map fun byte => Char.ofNat byte.toNat)).filter fun revision =>
    decide (-2 ^ 63 ≤ revision ∧ revision < 2 ^ 63)

/-- The last zero byte separates the key from the revision. -/
def decodeContinueToken (token : String) : Option (Bytes × Int) := do
  let buf ← Base64.decode token.toList
  match buf.reverse.dropWhile (· ≠ 0) with
  | [] => none
  | _ :: key => do
      let revision ← parseRevision (buf.reverse.takeWhile (· ≠ 0)).reverse
      pure (key.reverse, revision)

section
variable {resumeKey : Bytes} {revision : Int}

theorem ascii_roundTrip {c : Char} (plain : c = '-' ∨ c.isDigit = true) :
    c.toNat.toUInt8 ≠ 0 ∧ Char.ofNat c.toNat.toUInt8.toNat = c := by
  have bounds : 45 ≤ c.toNat ∧ c.toNat ≤ 57 := by
    rcases plain with rfl | digit
    · exact ⟨by decide, by decide⟩
    · unfold Char.isDigit at digit
      rw [Bool.and_eq_true, decide_eq_true_eq, decide_eq_true_eq] at digit
      have lower : 48 ≤ c.toNat := digit.1
      have upper : c.toNat ≤ 57 := digit.2
      exact ⟨by omega, upper⟩
  have small : c.toNat.toUInt8.toNat = c.toNat := UInt8.toNat_ofNat_of_lt' (Nat.lt_of_le_of_lt bounds.2 (by decide))
  refine ⟨fun zero => ?_, ?_⟩
  · rw [zero] at small
    have none_ : (0 : UInt8).toNat = 0 := rfl
    omega
  · rw [small, Char.ofNat_toNat]

theorem ofInt_plain {c : Char} (member : c ∈ Text.ofInt revision) : c = '-' ∨ c.isDigit = true := by
  unfold Text.ofInt at member
  split_ifs at member
  · rcases List.mem_cons.mp member with sign | digit
    · exact Or.inl sign
    · exact Or.inr (Nat.isDigit_of_mem_toDigits (by decide) (by decide) digit)
  · exact Or.inr (Nat.isDigit_of_mem_toDigits (by decide) (by decide) member)

theorem decode_encodeContinueToken (lower : -2 ^ 63 ≤ revision) (upper : revision < 2 ^ 63) :
    decodeContinueToken (encodeContinueToken resumeKey revision) = some (resumeKey, revision) := by
  let digits := (Text.ofInt revision).map fun c => c.toNat.toUInt8
  have plain : forall byte, byte ∈ digits.reverse -> decide (byte ≠ 0) = true := by
    intro byte member
    rcases List.mem_map.mp (List.mem_reverse.mp member) with ⟨c, written, rfl⟩
    exact decide_eq_true (ascii_roundTrip (ofInt_plain written)).1
  have back : digits.map (fun byte => Char.ofNat byte.toNat) = Text.ofInt revision := by
    rw [List.map_map]
    refine (List.map_congr_left fun c written => ?_).trans (List.map_id _)
    exact (ascii_roundTrip (ofInt_plain written)).2
  have reversed : (resumeKey ++ [0] ++ digits).reverse = digits.reverse ++ 0 :: resumeKey.reverse := by simp
  have dropped : (digits.reverse ++ 0 :: resumeKey.reverse).dropWhile (· ≠ 0) = 0 :: resumeKey.reverse := by
    rw [List.dropWhile_append_of_pos plain]
    rfl
  have taken : (digits.reverse ++ 0 :: resumeKey.reverse).takeWhile (· ≠ 0) = digits.reverse := by
    rw [List.takeWhile_append_of_pos plain]
    simp
  have parsed : parseRevision digits = some revision := by
    unfold parseRevision
    rw [back, Text.integer_ofInt, Option.filter_some, if_pos (decide_eq_true ⟨lower, upper⟩)]
  unfold decodeContinueToken encodeContinueToken
  rw [String.toList_ofList, Base64.decode_encode]
  change (match (resumeKey ++ [0] ++ digits).reverse.dropWhile (· ≠ 0) with
    | [] => none
    | _ :: key => (parseRevision ((resumeKey ++ [0] ++ digits).reverse.takeWhile (· ≠ 0)).reverse).bind fun revision =>
      some (key.reverse, revision)) = _
  rw [reversed, dropped, taken, List.reverse_reverse, parsed]
  change some (resumeKey.reverse.reverse, revision) = _
  rw [List.reverse_reverse]

end

open Library Nodestore Cacher

/-!
# Lists of objects

A list is served whole from a synced watch cache, or from the store, page by
page if the client asks for pages.  Selectors are applied after a page is
read.  What a resource is called, what the selectors select and how a stored
value becomes an object are given with the request.
-/

/-- A watch cache, and whether its first list has arrived. -/
structure SharedCache where
  synced : Bool
  cache : WatchCache

/-- The resource, version and namespace of a request. -/
structure Listing where
  resource : Resource
  version : Bytes
  scope : Option Bytes

/-- What the rest of the server makes of a request and of stored values. -/
structure Serving (Object : Type) where
  /-- The resource's kind, if there is such a resource. -/
  kind : Option Bytes
  /-- The label and field selectors, if they are well formed. -/
  selectors : Option (Object -> Bool)
  /-- Decryption, decoding and conversion of the value of a key. -/
  decode : Bytes -> CacheEntry -> Option Object

/-- An object, with the key it was read from. -/
structure ListItem (Object : Type) where
  key : Bytes
  object : Object
  deriving DecidableEq

structure Page (Object : Type) where
  kind : Bytes
  apiVersion : Bytes
  resourceVersion : Int
  next : Option String
  items : List (ListItem Object)

inductive ListOutcome (Object : Type) where
  | found (page : Page Object)
  | unknownResource
  | invalidContinueToken

inductive ListError where
  | selector
  | storage (refusal : Nodestore.Error)
  | decode (key : Bytes)

def listKind (kind : Bytes) : Bytes :=
  kind ++ ascii "List"

namespace Listing

def groupVersion (l : Listing) : Bytes :=
  if l.resource.group.isEmpty then l.version else l.resource.group ++ [slash] ++ l.version

def lead (l : Listing) : Bytes :=
  listPrefix l.resource.group l.resource.resource l.scope

def rangeEnd (l : Listing) : Bytes :=
  prefixRangeEnd l.lead

/-- The read of one page. -/
def query (l : Listing) (start : Bytes) (revision limit : Int) : RangeQuery where
  range := .decode start l.rangeEnd
  revision := revision
  limit := max limit 0
  keysOnly := false
  countOnly := false
  sort := none

/-- Where the read starts, and at which revision. -/
def start (l : Listing) (continueToken : String) (resourceVersion : Int) : Option (Bytes × Int) :=
  if continueToken.isEmpty then some (l.lead, max resourceVersion 0) else decodeContinueToken continueToken

end Listing

section
variable {Object : Type}

/-- The selected objects, unless one of the values is not an object. -/
def listItems (decode : Bytes -> CacheEntry -> Option Object) (selects : Object -> Bool) :
    List (Bytes × CacheEntry) -> Except ListError (List (ListItem Object))
  | [] => .ok []
  | (key, entry) :: rest =>
    match decode key entry with
    | none => .error (.decode key)
    | some object =>
      (listItems decode selects rest).map fun items =>
        if selects object then { key := key, object := object } :: items else items

def paginated (limit : Int) (continueToken : String) (resourceVersion : Int) : Bool :=
  decide (0 < limit) || !continueToken.isEmpty || decide (0 < resourceVersion)

/-- The watch cache that answers, if one does. -/
def answering (cache : Option SharedCache) (limit : Int) (continueToken : String) (resourceVersion : Int) :
    Option SharedCache :=
  cache.filter fun shared => shared.synced && !paginated limit continueToken resourceVersion

def cachedPage (serving : Serving Object) (kind : Bytes) (selects : Object -> Bool) (shared : SharedCache) (l : Listing) :
    Except ListError (ListOutcome Object) :=
  let (entries, revision) := shared.cache.list
  (listItems serving.decode selects (entries.filter fun entry => l.lead.isPrefixOf entry.1)).map fun items =>
    .found { kind := listKind kind, apiVersion := l.groupVersion, resourceVersion := revision, next := none, items := items }

/-- The page that a read of the store gives.  It goes on after its last key. -/
def storedPage (serving : Serving Object) (kind : Bytes) (selects : Object -> Bool) (l : Listing) (revision : Int)
    (result : RangeResult) : Except ListError (ListOutcome Object) :=
  let next :=
    if result.more then result.kvs.getLast?.map fun kv => encodeContinueToken (kv.key ++ [0]) revision else none
  (listItems serving.decode selects (result.kvs.map listed)).map fun items =>
    .found { kind := listKind kind, apiVersion := l.groupVersion, resourceVersion := revision, next := next, items := items }

def listAtRevision (serving : Serving Object) (cache : Option SharedCache) (s : Store) (l : Listing) (limit : Int)
    (continueToken : String) (resourceVersion : Int) : Except ListError (ListOutcome Object) × Store :=
  match serving.kind, serving.selectors with
  | none, _ => (.ok .unknownResource, s)
  | some _, none => (.error .selector, s)
  | some kind, some selects =>
    match answering cache limit continueToken resourceVersion with
    | some shared => (cachedPage serving kind selects shared l, s)
    | none =>
      match l.start continueToken resourceVersion with
      | none => (.ok .invalidContinueToken, s)
      | some (start, revision) =>
        match s.range (l.query start revision limit) with
        | (.error refusal, s) => (.error (.storage refusal), s)
        | (.ok result, s) => (storedPage serving kind selects l (listSnapshotRevision revision s.db.revision) result, s)

end

/-! ## The keys of a list -/

namespace Listing

variable (l : Listing) {start key : Bytes}

theorem lead_shape : Exists fun front : Bytes => front ≠ [] ∧ l.lead = front ++ [slash] ∧ l.rangeEnd = front ++ [slash + 1] := by
  have shape := l.resource.listPrefix_eq l.scope
  have below : slash < 255 := by decide
  refine ⟨registryRoot ++ [slash] ++ l.resource.place l.scope, by simp, shape, ?_⟩
  unfold rangeEnd
  rw [show l.lead = _ from shape, Resource.prefixRangeEnd_concat below]

theorem query_range (revision limit : Int) : (l.query start revision limit).range = .between start l.rangeEnd := by
  rcases l.lead_shape with ⟨front, filled, _, ends⟩
  have longer : l.rangeEnd ≠ [0] := by
    rw [ends]
    exact fun same => filled (by simpa using congrArg List.length same)
  unfold query KeyRange.decode
  rw [if_neg (by rw [ends]; exact List.concat_ne_nil _ _), if_neg fun both => longer both.2, if_neg longer]

theorem lead_isPrefix_iff : l.lead <+: key <-> l.lead ≤ key ∧ key < l.rangeEnd := by
  rcases l.lead_shape with ⟨front, _, starts, ends⟩
  rw [starts, ends]
  exact (between_iff_isPrefix (by decide)).symm

theorem lead_lt_rangeEnd : l.lead < l.rangeEnd :=
  (l.lead_isPrefix_iff.mp List.prefix_rfl).2

theorem contains_between : (KeyRange.between start l.rangeEnd).contains key = true <-> start ≤ key ∧ key < l.rangeEnd := by
  simp only [KeyRange.contains, Bool.and_eq_true, decide_eq_true_eq]

end Listing

end NotK8s.Apiserver

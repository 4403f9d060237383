import Mathlib.Data.List.TakeWhile
import NotK8s.Nodestore.Table

namespace NotK8s.Apiserver

open Library Nodestore

/-!
# The storage key layout

Where the API server keeps an object: under its resource's directory, then
the namespace if it has one, then the name.  A resource's directory is its
plural in lower case, unless the override table has another for its group.

Text is modelled by its bytes.  Only ASCII letters change case.
-/

/-- The separator of key segments. -/
def slash : UInt8 := 47

def toAsciiLowercase (text : Bytes) : Bytes :=
  text.map fun byte => if 65 ≤ byte ∧ byte ≤ 90 then byte + 32 else byte

/-- The directories of resources that are not kept under their plural. -/
def overrides : List ((Bytes × Bytes) × Bytes) :=
  [((ascii "", ascii "replicationcontrollers"), ascii "controllers"),
    ((ascii "", ascii "endpoints"), ascii "services/endpoints"),
    ((ascii "", ascii "nodes"), ascii "minions"),
    ((ascii "", ascii "services"), ascii "services/specs"),
    ((ascii "extensions", ascii "ingresses"), ascii "ingress"),
    ((ascii "networking.k8s.io", ascii "ingresses"), ascii "ingress")]

def registryRoot : Bytes := ascii "/registry"

def resourcePrefix (group resource : Bytes) : Bytes :=
  let lower := toAsciiLowercase resource
  match overrides.find? fun entry => entry.1.1 = group ∧ entry.1.2 = lower with
  | some entry => entry.2
  | none => lower

/-- The key of one object.  An empty namespace counts as none. -/
def objectKey (group resource : Bytes) (scope : Option Bytes) (name : Bytes) : Bytes :=
  match scope with
  | some ns =>
    if ns ≠ [] then registryRoot ++ [slash] ++ resourcePrefix group resource ++ [slash] ++ ns ++ [slash] ++ name
    else registryRoot ++ [slash] ++ resourcePrefix group resource ++ [slash] ++ name
  | none => registryRoot ++ [slash] ++ resourcePrefix group resource ++ [slash] ++ name

/-- What the keys of a list start with: a whole resource, or one namespace of
it. -/
def listPrefix (group resource : Bytes) (scope : Option Bytes) : Bytes :=
  match scope with
  | some ns =>
    if ns ≠ [] then registryRoot ++ [slash] ++ resourcePrefix group resource ++ [slash] ++ ns ++ [slash]
    else registryRoot ++ [slash] ++ resourcePrefix group resource ++ [slash]
  | none => registryRoot ++ [slash] ++ resourcePrefix group resource ++ [slash]

/-- The end of the range of keys with a common start: the start with its last
byte that is not the highest one raised, or no end. -/
def prefixRangeEnd (lead : Bytes) : Bytes :=
  match lead.reverse.dropWhile (· = 255) with
  | [] => [0]
  | last :: before => before.reverse ++ [last + 1]

/-- The range a list, a watch or the deletion of a collection reads. -/
def listRange (group resource : Bytes) (scope : Option Bytes) : KeyRange :=
  .decode (listPrefix group resource scope) (prefixRangeEnd (listPrefix group resource scope))

/-- A resource as requests name it.  The plural is one segment of a path. -/
structure Resource where
  group : Bytes
  resource : Bytes
  named : resource ≠ []
  segment : slash ∉ resource

namespace Resource

/-- Where the keys of a list are, below the root. -/
def place (r : Resource) : Option Bytes -> Bytes
  | some ns => if ns ≠ [] then resourcePrefix r.group r.resource ++ [slash] ++ ns else resourcePrefix r.group r.resource
  | none => resourcePrefix r.group r.resource

variable (r : Resource) (scope : Option Bytes) (name : Bytes)

theorem listPrefix_eq :
    listPrefix r.group r.resource scope = registryRoot ++ [slash] ++ r.place scope ++ [slash] := by
  unfold listPrefix place
  cases scope with
  | none => rfl
  | some ns =>
    dsimp only
    split_ifs <;> simp

theorem objectKey_eq : objectKey r.group r.resource scope name = listPrefix r.group r.resource scope ++ name := by
  unfold objectKey listPrefix
  cases scope with
  | none => rfl
  | some ns =>
    dsimp only
    split_ifs <;> rfl

theorem prefixRangeEnd_concat {lead : Bytes} {last : UInt8} (below : last < 255) :
    prefixRangeEnd (lead ++ [last]) = lead ++ [last + 1] := by
  have kept : decide (last = 255) = false := decide_eq_false (ne_of_lt below)
  simp [prefixRangeEnd, kept]

theorem contains_listRange (key : Bytes) :
    (listRange r.group r.resource scope).contains key = true <-> listPrefix r.group r.resource scope <+: key := by
  have below : slash < 255 := by decide
  unfold listRange
  rw [listPrefix_eq, prefixRangeEnd_concat below]
  have range : forall lead : Bytes, lead ≠ [] ->
      KeyRange.decode (lead ++ [slash]) (lead ++ [slash + 1]) = .between (lead ++ [slash]) (lead ++ [slash + 1]) := by
    intro lead nonempty
    have longer : lead ++ [slash + 1] ≠ [0] := fun same => nonempty (by simpa using congrArg List.length same)
    unfold KeyRange.decode
    rw [if_neg (List.concat_ne_nil _ _), if_neg fun both => longer both.2, if_neg longer]
  rw [range _ (by simp)]
  simp only [KeyRange.contains, Bool.and_eq_true, decide_eq_true_iff]
  exact between_iff_isPrefix below

/-! ## Whose directories meet -/

def directory : Bytes :=
  resourcePrefix r.group r.resource ++ [slash]

theorem directory_prefix : r.directory <+: r.place scope ++ [slash] := by
  unfold directory place
  cases scope with
  | none => exact List.prefix_rfl
  | some ns =>
    dsimp only
    split_ifs with named
    · exact ⟨ns ++ [slash], by simp⟩
    · exact List.prefix_rfl

/-- No object of one resource is kept where the other keeps one of its own or
looks for them. -/
structure Separated (a b : Resource) : Prop where
  distinct : forall (scope scope' : Option Bytes) (name name' : Bytes), name ≠ [] -> name' ≠ [] ->
    objectKey a.group a.resource scope name ≠ objectKey b.group b.resource scope' name'
  unlisted : forall (scope scope' : Option Bytes) (name : Bytes), name ≠ [] ->
    (listRange b.group b.resource scope').contains (objectKey a.group a.resource scope name) = false
  unlisting : forall (scope scope' : Option Bytes) (name : Bytes), name ≠ [] ->
    (listRange a.group a.resource scope').contains (objectKey b.group b.resource scope name) = false

theorem directory_objectKey : registryRoot ++ [slash] ++ r.directory <+: objectKey r.group r.resource scope name := by
  rw [objectKey_eq, listPrefix_eq, List.append_assoc _ (r.place scope)]
  exact ((List.prefix_append_right_inj _).mpr (r.directory_prefix scope)).trans (List.prefix_append _ _)

theorem directory_listPrefix : registryRoot ++ [slash] ++ r.directory <+: listPrefix r.group r.resource scope := by
  rw [listPrefix_eq, List.append_assoc _ (r.place scope)]
  exact (List.prefix_append_right_inj _).mpr (r.directory_prefix scope)

variable {r} {a b : Resource}

theorem directories_meet {key : Bytes} (first : registryRoot ++ [slash] ++ a.directory <+: key)
    (second : registryRoot ++ [slash] ++ b.directory <+: key) :
    a.directory <+: b.directory ∨ b.directory <+: a.directory := by
  rcases List.prefix_or_prefix_of_prefix first second with inside | inside
  · exact Or.inl ((List.prefix_append_right_inj _).mp inside)
  · exact Or.inr ((List.prefix_append_right_inj _).mp inside)

theorem listed_of_directory (inside : b.directory <+: a.directory) (scope : Option Bytes) (name : Bytes) :
    (listRange b.group b.resource none).contains (objectKey a.group a.resource scope name) = true := by
  apply (b.contains_listRange none _).mpr
  rw [listPrefix_eq]
  exact ((List.prefix_append_right_inj _).mpr inside).trans (a.directory_objectKey scope name)

theorem separated_iff_directories :
    Separated a b <-> ¬ (a.directory <+: b.directory ∨ b.directory <+: a.directory) := by
  have named : ascii "a" ≠ [] := by decide
  constructor
  · rintro separated (inside | inside)
    · have listed := listed_of_directory inside none (ascii "a")
      rw [separated.unlisting none none _ named] at listed
      cases listed
    · have listed := listed_of_directory inside none (ascii "a")
      rw [separated.unlisted none none _ named] at listed
      cases listed
  · intro apart
    refine ⟨?_, ?_, ?_⟩
    · intro scope scope' name name' _ _ same
      apply apart
      apply directories_meet (a.directory_objectKey scope name)
      rw [same]
      exact b.directory_objectKey scope' name'
    · intro scope scope' name _
      apply Bool.eq_false_iff.mpr
      intro listed
      have under := (b.contains_listRange scope' _).mp listed
      exact apart (directories_meet (a.directory_objectKey scope name) ((b.directory_listPrefix scope').trans under))
    · intro scope scope' name _
      apply Bool.eq_false_iff.mpr
      intro listed
      have under := (a.contains_listRange scope' _).mp listed
      exact apart (directories_meet ((a.directory_listPrefix scope').trans under) (b.directory_objectKey scope name))

/-! ## Which resources those are -/

/-- The resources with a directory of their own choice, and the name each
takes among the directories. -/
def reserved : List ((Bytes × Bytes) × Bytes) :=
  [((ascii "", ascii "replicationcontrollers"), ascii "controllers"),
    ((ascii "", ascii "endpoints"), ascii "services"),
    ((ascii "", ascii "nodes"), ascii "minions"),
    ((ascii "", ascii "services"), ascii "services"),
    ((ascii "extensions", ascii "ingresses"), ascii "ingress"),
    ((ascii "networking.k8s.io", ascii "ingresses"), ascii "ingress")]

/-- The plural in lower case. -/
def plural (r : Resource) : Bytes :=
  toAsciiLowercase r.resource

def reservedName (r : Resource) : Option Bytes :=
  (reserved.find? fun entry => entry.1.1 = r.group ∧ entry.1.2 = r.plural).map Prod.snd

/-- Two resources have different plurals, and neither has the name that the
other, with a directory of its own choice, takes. -/
def Apart (a b : Resource) : Prop :=
  match a.reservedName, b.reservedName with
  | some name, none => b.plural ≠ name
  | none, some name => a.plural ≠ name
  | _, _ => a.plural ≠ b.plural

/-- The first segment of a path. -/
def topSegment (path : Bytes) : Bytes :=
  path.takeWhile (· ≠ slash)

theorem topSegment_of_segment {path : Bytes} (segment : slash ∉ path) : topSegment path = path := by
  apply List.takeWhile_eq_self_iff.mpr
  intro byte listed
  exact decide_eq_true fun same => segment (same ▸ listed)

theorem topSegment_below (path rest : Bytes) : topSegment (path ++ [slash] ++ rest) = topSegment path := by
  unfold topSegment
  rw [List.append_assoc, List.takeWhile_append]
  split_ifs with whole
  · have complete := (List.takeWhile_sublist (· ≠ slash)).eq_of_length whole
    rw [complete]
    simp
  · rfl

theorem segment_meets {segment path : Bytes} (single : slash ∉ segment) :
    (segment ++ [slash] <+: path ++ [slash] ∨ path ++ [slash] <+: segment ++ [slash]) <->
      segment = topSegment path := by
  constructor
  · rintro (⟨rest, whole⟩ | ⟨rest, whole⟩)
    · have tops := congrArg topSegment whole
      rw [topSegment_below, topSegment_of_segment single, ← List.append_nil (path ++ [slash]), topSegment_below] at tops
      exact tops
    · have tops := congrArg topSegment whole
      rw [topSegment_below, ← List.append_nil (segment ++ [slash]), topSegment_below,
        topSegment_of_segment single] at tops
      exact tops.symm
  · intro top
    left
    have parts : topSegment path ++ path.dropWhile (· ≠ slash) = path := List.takeWhile_append_dropWhile
    have stops := List.head?_dropWhile_not (· ≠ slash) path
    rw [← top] at parts
    cases below : path.dropWhile (· ≠ slash) with
    | nil =>
      rw [below, List.append_nil] at parts
      exact ⟨[], by rw [List.append_nil, parts]⟩
    | cons first rest =>
      rw [below] at stops parts
      have separator : first = slash := by simpa using stops
      rw [← parts, separator]
      exact ⟨rest ++ [slash], by simp⟩

theorem slash_not_mem_plural (r : Resource) : slash ∉ r.plural := by
  intro listed
  rcases List.mem_map.mp listed with ⟨byte, present, lowered⟩
  split_ifs at lowered with upper
  · have values := congrArg UInt8.toNat lowered
    have low := UInt8.le_iff_toNat_le.mp upper.1
    have high := UInt8.le_iff_toNat_le.mp upper.2
    rw [UInt8.toNat_add] at values
    simp only [slash, UInt8.reduceToNat] at values low high
    omega
  · exact r.segment (lowered ▸ present)

theorem reserved_eq_overrides : reserved = overrides.map fun entry => (entry.1, topSegment entry.2) := by
  decide

/-- Among the resources with a directory of their own choice, those with
different plurals have directories apart. -/
theorem overrides_apart :
    forall first, first ∈ overrides -> forall second, second ∈ overrides ->
      ((first.2 ++ [slash] <+: second.2 ++ [slash] ∨ second.2 ++ [slash] <+: first.2 ++ [slash]) <->
        first.1.2 = second.1.2) := by
  decide

theorem directory_cases (r : Resource) :
    (r.reservedName = none ∧ r.directory = r.plural ++ [slash]) ∨
      Exists fun entry : (Bytes × Bytes) × Bytes => entry ∈ overrides ∧ entry.1.2 = r.plural ∧
        r.reservedName = some (topSegment entry.2) ∧ r.directory = entry.2 ++ [slash] := by
  have renamed : r.reservedName =
      ((overrides.find? fun entry => decide (entry.1.1 = r.group ∧ entry.1.2 = r.plural)).map fun entry =>
        (entry.1, topSegment entry.2)).map Prod.snd := by
    unfold reservedName
    rw [reserved_eq_overrides, List.find?_map]
    rfl
  have kept : r.directory =
      (match overrides.find? fun entry => decide (entry.1.1 = r.group ∧ entry.1.2 = r.plural) with
        | some entry => entry.2
        | none => r.plural) ++ [slash] :=
    rfl
  rw [renamed, kept]
  cases found : overrides.find? fun entry => decide (entry.1.1 = r.group ∧ entry.1.2 = r.plural) with
  | none => exact Or.inl ⟨rfl, rfl⟩
  | some entry =>
    have matched : entry.1.1 = r.group ∧ entry.1.2 = r.plural := by simpa using List.find?_some found
    exact Or.inr ⟨entry, List.mem_of_find?_eq_some found, matched.2, rfl, rfl⟩

theorem directories_meet_iff : (a.directory <+: b.directory ∨ b.directory <+: a.directory) <-> ¬ Apart a b := by
  unfold Apart
  rcases directory_cases a with ⟨free, here⟩ | ⟨entry, listed, named, taken, here⟩
  · rcases directory_cases b with ⟨free', there⟩ | ⟨entry', listed', named', taken', there⟩
    · rw [free, free', here, there]
      simp only [segment_meets a.slash_not_mem_plural, topSegment_of_segment b.slash_not_mem_plural, ne_eq, not_not]
    · rw [free, taken', here, there]
      simp only [segment_meets a.slash_not_mem_plural, ne_eq, not_not]
  · rcases directory_cases b with ⟨free', there⟩ | ⟨entry', listed', named', taken', there⟩
    · rw [taken, free', here, there, or_comm]
      simp only [segment_meets b.slash_not_mem_plural, ne_eq, not_not]
    · rw [taken, taken', here, there]
      simp only [overrides_apart entry listed entry' listed', named, named', ne_eq, not_not]

/-- Two resources are kept apart, whatever the namespaces and the names of
their objects, exactly when they have different plurals and neither takes the
name of the other's directory.  The group plays no part otherwise. -/
theorem separated_iff_apart (a b : Resource) : Separated a b <-> Apart a b := by
  rw [separated_iff_directories, directories_meet_iff, not_not]

/-- A custom resource. -/
def widgets (group : String) : Resource where
  group := ascii group
  resource := ascii "widgets"
  named := by decide
  segment := by decide

/-- Two groups that both define widgets keep them under the same keys. -/
theorem widgets_not_separated : ¬ Separated (widgets "a.example.com") (widgets "b.example.com") := by
  intro separated
  have name : ascii "w" ≠ [] := by decide
  exact separated.distinct (some (ascii "default")) (some (ascii "default")) _ _ name name (by decide)

end Resource

end NotK8s.Apiserver

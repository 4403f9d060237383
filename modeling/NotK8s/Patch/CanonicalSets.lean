import Mathlib.Data.List.Lex
import Mathlib.Data.Prod.Lex
import Mathlib.Data.String.Basic
import NotK8s.Library.PathTree
import NotK8s.Library.SortedTree

namespace NotK8s.Patch

open Library

/-!
# Field sets with the order and the equality of path elements

The elements of a path are ordered by their kind and then by name, value
or position; two JSON values are ordered by their text.  The equality of
elements is derived and compares JSON values by value.  The order and the
equality part where two values are equal and their texts differ.
-/

/-- What `serde_json` says of JSON values: their compact text, which tells
any two of them apart, and an equality, which may not. -/
structure Serde where
  Json : Type
  toText : Json -> String
  equal : Json -> Json -> Bool
  toText_injective : Function.Injective toText
  equal_refl : forall v, equal v v = true
  equal_symm : forall v w, equal v w = true -> equal w v = true
  equal_trans : forall u v w, equal u v = true -> equal v w = true -> equal u w = true

variable {serde : Serde}

/-- `PathElement` -/
inductive Element (serde : Serde) where
  | field (name : String)
  | key (fields : List (String × serde.Json))
  | value (v : serde.Json)
  | index (i : Int)

namespace Element

def variantRank : Element serde -> Nat
  | field _ => 0
  | key _ => 1
  | value _ => 2
  | index _ => 3

def compareValues (a b : serde.Json) : Ordering :=
  compare (serde.toText a) (serde.toText b)

/-- Pairwise by name and value; the shorter is less on a common beginning. -/
def compareFields : List (String × serde.Json) -> List (String × serde.Json) -> Ordering
  | (an, av) :: a, (bn, bv) :: b => (compare an bn).then ((compareValues av bv).then (compareFields a b))
  | [], [] => .eq
  | [], _ :: _ => .lt
  | _ :: _, [] => .gt

def cmp (a b : Element serde) : Ordering :=
  (compare a.variantRank b.variantRank).then <|
    match a, b with
    | field a, field b => compare a b
    | key a, key b => compareFields a b
    | value a, value b => compareValues a b
    | index a, index b => compare a b
    | _, _ => .eq

def equalFields : List (String × serde.Json) -> List (String × serde.Json) -> Bool
  | (an, av) :: a, (bn, bv) :: b => an == bn && serde.equal av bv && equalFields a b
  | [], [] => true
  | [], _ :: _ | _ :: _, [] => false

/-- The derived equality. -/
def equal : Element serde -> Element serde -> Bool
  | field a, field b => a == b
  | key a, key b => equalFields a b
  | value a, value b => serde.equal a b
  | index a, index b => a == b
  | _, _ => false

instance : BEq (Element serde) := ⟨equal⟩

/-! ## The order is linear -/

abbrev SortKey := Nat ×ₗ List (String ×ₗ String) ×ₗ Int

def fieldKeys (fields : List (String × serde.Json)) : List (String ×ₗ String) :=
  fields.map fun field => toLex (field.1, serde.toText field.2)

/-- What the order looks at. -/
def sortKey : Element serde -> SortKey
  | field name => toLex (0, toLex ([toLex (name, "")], 0))
  | key fields => toLex (1, toLex (fieldKeys fields, 0))
  | value v => toLex (2, toLex ([toLex ("", serde.toText v)], 0))
  | index i => toLex (3, toLex ([], i))

theorem fieldKeys_injective : Function.Injective (fieldKeys : List (String × serde.Json) -> _) := by
  refine List.map_injective_iff.mpr fun first second same => ?_
  have parts := Prod.mk.inj (toLex_inj.mp same)
  exact Prod.ext parts.1 (serde.toText_injective parts.2)

theorem sortKey_injective : Function.Injective (sortKey : Element serde -> SortKey) := by
  intro a b same
  have ranks := congrArg (fun key => (ofLex key).1) same
  have lists := congrArg (fun key => (ofLex (ofLex key).2).1) same
  have numbers := congrArg (fun key => (ofLex (ofLex key).2).2) same
  cases a with
  | field a =>
    cases b with
    | field b => exact congrArg field (Prod.mk.inj (toLex_inj.mp (List.cons.inj lists).1)).1
    | key b | value b | index b => cases ranks
  | key a =>
    cases b with
    | key b => exact congrArg key (fieldKeys_injective lists)
    | field b | value b | index b => cases ranks
  | value a =>
    cases b with
    | value b =>
      exact congrArg value (serde.toText_injective (Prod.mk.inj (toLex_inj.mp (List.cons.inj lists).1)).2)
    | field b | key b | index b => cases ranks
  | index a =>
    cases b with
    | index b => exact congrArg index numbers
    | field b | key b | value b => cases ranks

instance : LinearOrder (Element serde) :=
  LinearOrder.lift' sortKey sortKey_injective

/-! ## The equality is an equivalence -/

theorem equalFields_refl (a : List (String × serde.Json)) : equalFields a a = true := by
  induction a with
  | nil => rfl
  | cons head rest ih =>
    rw [equalFields, ih, serde.equal_refl, BEq.rfl]
    rfl

theorem equalFields_symm {a b : List (String × serde.Json)} (same : equalFields a b = true) : equalFields b a = true := by
  induction a generalizing b with
  | nil =>
    cases b with
    | nil => rfl
    | cons _ _ => cases same
  | cons first a ih =>
    cases b with
    | nil => cases same
    | cons second b =>
      rw [equalFields, Bool.and_eq_true, Bool.and_eq_true] at same ⊢
      exact ⟨⟨BEq.symm same.1.1, serde.equal_symm _ _ same.1.2⟩, ih same.2⟩

theorem equalFields_trans {a b c : List (String × serde.Json)} (first : equalFields a b = true)
    (second : equalFields b c = true) : equalFields a c = true := by
  induction a generalizing b c with
  | nil =>
    cases b with
    | nil => exact second
    | cons _ _ => cases first
  | cons head a ih =>
    cases b with
    | nil => cases first
    | cons middle b =>
      cases c with
      | nil => cases second
      | cons last c =>
        rw [equalFields, Bool.and_eq_true, Bool.and_eq_true] at first second ⊢
        exact ⟨⟨BEq.trans first.1.1 second.1.1, serde.equal_trans _ _ _ first.1.2 second.1.2⟩,
          ih first.2 second.2⟩

instance : EquivBEq (Element serde) where
  rfl := by
    intro a
    change equal a a = true
    cases a with
    | field a | index a => exact BEq.rfl
    | key a => exact equalFields_refl a
    | value a => exact serde.equal_refl a
  symm := by
    intro a b same
    change equal b a = true
    change equal a b = true at same
    cases a <;> cases b <;> try cases same
    · exact BEq.symm same
    · exact equalFields_symm same
    · exact serde.equal_symm _ _ same
    · exact BEq.symm same
  trans := by
    intro a b c first second
    change equal a c = true
    change equal a b = true at first
    change equal b c = true at second
    cases a <;> cases b <;> try cases first
    all_goals cases c <;> try cases second
    · exact BEq.trans first second
    · exact equalFields_trans first second
    · exact serde.equal_trans _ _ _ first second
    · exact BEq.trans first second

end Element

abbrev PathSet (serde : Serde) := SortedTree (Element serde)

/-- The operations obey the laws of sets of paths and keep canonical form.
Derived equality of canonical sets over some path elements is equality of
their paths exactly if no two of these elements are equal without being the
same in the order. -/
theorem pathSet_operations (serde : Serde) :
    (forall a b : PathSet serde, a.Canonical -> b.Canonical ->
      ((a.union b).Canonical ∧ forall p, (a.union b).has p = true <-> a.has p = true ∨ b.has p = true) ∧
      ((a.intersection b).Canonical ∧ forall p, (a.intersection b).has p = true <-> a.has p = true ∧ b.has p = true) ∧
      ((a.difference b).Canonical ∧ forall p, (a.difference b).has p = true <-> a.has p = true ∧ b.has p = false) ∧
      ((a.recursiveDifference b).Canonical ∧ forall p, (a.recursiveDifference b).has p = true <->
        a.has p = true ∧ forall q, q ≠ [] -> q <+: p -> b.has q = false)) ∧
      (forall a : PathSet serde, a.Canonical ->
        (forall p, (a.insert p).Canonical) ∧ (a.isEmpty = true <-> forall p, a.has p = false)) ∧
      forall given : Element serde -> Prop,
        (forall a b : PathSet serde, a.Canonical -> b.Canonical -> a.Over given -> b.Over given ->
          (a.beq b = true <-> forall p, a.has p = b.has p)) <->
        forall e f, given e -> given f -> (e == f) = true -> e = f := by
  refine ⟨fun a b canonical other => ⟨⟨SortedTree.canonical_union canonical other, fun p => ?_⟩,
      ⟨SortedTree.canonical_intersection canonical, fun p => ?_⟩, ⟨SortedTree.canonical_difference canonical, fun p => ?_⟩,
      SortedTree.canonical_recursiveDifference canonical, fun p => ?_⟩,
    fun a canonical => ⟨fun p => SortedTree.canonical_insert canonical, SortedTree.isEmpty_iff canonical⟩,
    SortedTree.beq_iff_has_iff⟩
  · rw [SortedTree.has_union canonical other, Bool.or_eq_true]
  · rw [SortedTree.has_intersection canonical, Bool.and_eq_true]
  · rw [SortedTree.has_difference canonical, Bool.and_eq_true, Bool.not_eq_true']
  · rw [SortedTree.has_recursiveDifference canonical]
    refine and_congr_right fun _ => ⟨fun free q _ before => free q before, fun free q before => ?_⟩
    cases q with
    | nil => exact SortedTree.has_nil
    | cons e q => exact free _ (List.cons_ne_nil _ _) before

/-! ## Two zeros -/

/-- Three numbers as JSON has them: the zeros are equal and have two texts. -/
inductive Scalar where
  | minusZero
  | minusOne
  | zero
  deriving DecidableEq

def Scalar.toText : Scalar -> String
  | minusZero => "-0.0"
  | minusOne => "-1"
  | zero => "0.0"

def Scalar.toInt : Scalar -> Int
  | minusZero | zero => 0
  | minusOne => -1

def zeros : Serde where
  Json := Scalar
  toText := Scalar.toText
  equal := fun v w => decide (v.toInt = w.toInt)
  toText_injective := by
    intro v w same
    cases v <;> cases w <;> first | rfl | exact absurd same (by decide +kernel)
  equal_refl := fun v => decide_eq_true rfl
  equal_symm := fun v w same => decide_eq_true (of_decide_eq_true same).symm
  equal_trans := fun u v w first second => decide_eq_true ((of_decide_eq_true first).trans (of_decide_eq_true second))

/-- The set of the elements `v:-1` and `v:0.0`. -/
def withZero : PathSet zeros := .node [.value Scalar.minusOne, .value Scalar.zero] []

/-- The set of the elements `v:-0.0` and `v:-1`. -/
def withMinusZero : PathSet zeros := .node [.value Scalar.minusZero, .value Scalar.minusOne] []

/-- Two sets with the same paths that differ, and two that are equal and have
different paths. -/
theorem zeros_confused :
    (withZero.Canonical ∧ withMinusZero.Canonical ∧ (forall p, withZero.has p = withMinusZero.has p) ∧
        withZero.beq withMinusZero = false) ∧
      (SortedTree.chain (.value Scalar.zero) (.field "a") : PathSet zeros).beq
          (SortedTree.chain (.value Scalar.minusZero) (.field "a")) = true ∧
        (SortedTree.chain (.value Scalar.zero) (.field "a") : PathSet zeros).has [.value Scalar.zero, .field "a"] = true ∧
        (SortedTree.chain (.value Scalar.minusZero) (.field "a") : PathSet zeros).has [.value Scalar.zero, .field "a"] =
          false := by
  have childless {members : List (Element zeros)} (ordered : members.Pairwise (· < ·))
      (distinct : members.Pairwise fun e f => (e == f) = false) : (SortedTree.node members [] : PathSet zeros).Canonical :=
    .node ordered distinct .nil nofun nofun
  refine ⟨⟨childless (by decide +kernel) (by decide +kernel), childless (by decide +kernel) (by decide +kernel),
    fun p => ?_, by decide +kernel⟩, by decide +kernel, by decide +kernel, by decide +kernel⟩
  rcases p with _ | ⟨e, _ | ⟨f, p⟩⟩
  · exact SortedTree.has_nil.trans SortedTree.has_nil.symm
  · have alike : ((Element.value Scalar.zero : Element zeros) == .value Scalar.minusZero) = true := by decide +kernel
    rw [SortedTree.has_single, SortedTree.has_single, withZero, withMinusZero, SortedTree.members, SortedTree.members,
      List.contains_cons, List.contains_cons, List.contains_cons, List.contains_cons, List.contains_nil, Bool.or_false,
      Bool.or_false, Bool.or_comm, BEq.congr_right alike]
  · rw [SortedTree.has_deep (List.cons_ne_nil _ _), SortedTree.has_deep (List.cons_ne_nil _ _)]
    rfl

end NotK8s.Patch

import Mathlib.Data.List.Lex
import Mathlib.Order.Lattice

namespace NotK8s.Library

/-!
# Byte strings

Keys and values are byte strings, compared bytewise with a proper prefix
below its extensions.  That is the order of `memcmp` followed by length, and
it is the lexicographic order of lists once bytes are ordered as numbers.
-/

instance byteLinearOrder : LinearOrder UInt8 where
  le_refl := UInt8.le_refl
  le_trans := fun _ _ _ => UInt8.le_trans
  le_antisymm := fun _ _ => UInt8.le_antisymm
  le_total := UInt8.le_total
  lt_iff_le_not_ge := fun first second => by
    simp only [UInt8.lt_iff_toNat_lt, UInt8.le_iff_toNat_le]
    omega
  toDecidableLE := inferInstance
  toDecidableLT := inferInstance

abbrev Bytes := List UInt8

/-- The bytes of a string of ASCII characters. -/
def ascii (text : String) : Bytes :=
  text.toList.map fun character => character.toNat.toUInt8

/-- The byte strings from `lead ++ [last]` up to its successor are those that
start with it. -/
theorem between_iff_isPrefix {lead key : Bytes} {last : UInt8} (below : last < 255) :
    lead ++ [last] ≤ key ∧ key < lead ++ [last + 1] <-> lead ++ [last] <+: key := by
  have next : forall other : UInt8, last ≤ other -> other < last + 1 -> last = other := by
    intro other above beneath
    apply UInt8.toNat_inj.mp
    rw [UInt8.le_iff_toNat_le] at above
    rw [UInt8.lt_iff_toNat_lt] at below beneath
    rw [UInt8.toNat_add] at beneath
    have one : (1 : UInt8).toNat = 1 := rfl
    omega
  rw [← not_lt]
  induction lead generalizing key with
  | nil =>
    cases key with
    | nil => simp
    | cons first rest =>
      simp only [List.nil_append, List.cons_lt_cons_iff, List.not_lt_nil, and_false, or_false, not_lt,
        List.cons_prefix_cons, List.nil_prefix, and_true]
      constructor
      · rintro ⟨above, beneath⟩
        exact next first above beneath
      · rintro rfl
        refine ⟨le_rfl, ?_⟩
        rw [UInt8.lt_iff_toNat_lt] at below ⊢
        rw [UInt8.toNat_add]
        have small : (255 : UInt8).toNat = 255 := rfl
        have one : (1 : UInt8).toNat = 1 := rfl
        omega
  | cons byte lead ih =>
    cases key with
    | nil => simp
    | cons first rest =>
      simp only [List.cons_append, List.cons_lt_cons_iff, List.cons_prefix_cons, ← @ih rest]
      constructor
      · rintro ⟨above, beneath | ⟨same, beneath⟩⟩
        · exact absurd (Or.inl beneath) above
        · exact ⟨same.symm, fun lower => above (Or.inr ⟨same, lower⟩), beneath⟩
      · rintro ⟨rfl, above, beneath⟩
        refine ⟨?_, Or.inr ⟨rfl, beneath⟩⟩
        rintro (lower | ⟨_, lower⟩)
        · exact lt_irrefl _ lower
        · exact above lower

theorem concat_zero_le_iff {lead key : Bytes} : lead ++ [0] ≤ key <-> lead < key := by
  rw [← not_lt]
  induction lead generalizing key with
  | nil =>
    cases key with
    | nil => simp
    | cons first rest =>
      have least : ¬ first < 0 := not_lt.mpr (UInt8.le_iff_toNat_le.mpr (Nat.zero_le _))
      simp [List.cons_lt_cons_iff, least]
  | cons byte lead ih =>
    cases key with
    | nil => simp
    | cons first rest =>
      rw [List.cons_append, List.cons_lt_cons_iff, List.cons_lt_cons_iff, ← @ih rest]
      constructor
      · intro notBelow
        rcases lt_trichotomy byte first with less | same | greater
        · exact Or.inl less
        · exact Or.inr ⟨same, fun below => notBelow (Or.inr ⟨same.symm, below⟩)⟩
        · exact absurd (Or.inl greater) notBelow
      · rintro (less | ⟨same, notBelow⟩) (less' | ⟨same', below⟩)
        · exact lt_asymm less less'
        · exact ne_of_gt less same'
        · exact ne_of_gt less' same
        · exact notBelow below

end NotK8s.Library

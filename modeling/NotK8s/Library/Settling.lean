import Mathlib.Order.Bounds.Basic
import Mathlib.Order.MinMax
import Mathlib.Tactic.Common

namespace NotK8s.Library

/-!
# Settling between a value and a target

A controller moves a value towards a target below it, but no further than the
greatest of the targets it keeps from before, and no further than a limit.
It may have dropped some of those it needs.  One lemma says when the value it
settles at is still right, and the order dual of it is about a target above
the value.
-/

variable {α : Type*} [LinearOrder α]

/-- What a settled value has to respect: a value moved down stays above every
target needed from below, one moved up stays below every target needed from
above, and the held value lies between the target and the value. -/
def Respects (lower upper : Set α) (value target held settled : α) : Prop :=
  (settled < value -> forall x, x ∈ insert target lower -> x ≤ settled) ∧
    (value < settled -> forall x, x ∈ insert target upper -> settled ≤ x) ∧ target ≤ held ∧ held ≤ value

/-- Nothing kept is above the value.  Either the value itself is kept, or the
limit is not above it either, and a limit that lets the value go down lets it
go no lower than some bound of every needed target. -/
def WellKept (kept needed : Set α) (value target limit : α) : Prop :=
  (forall x, x ∈ kept -> x ≤ value) ∧
    (value ∈ kept ∨ (limit ≤ value ∧ (limit = value ∨
      forall x, x ∈ needed -> Exists fun y => y ∈ insert limit (insert target kept) ∧ x ≤ y)))

theorem respects_iff_wellKept {kept needed upper : Set α} {value target limit held settled : α} (below : target < value)
    (greatest : IsGreatest (insert target kept) held) (still : held = value -> settled = value)
    (moved : held < value -> settled = max held limit) :
    Respects needed upper value target held settled <-> WellKept kept needed value target limit := by
  have above : target ≤ held := greatest.2 (Set.mem_insert _ _)
  constructor
  · rintro ⟨lowered, raised, -, most⟩
    refine ⟨fun x listed => (greatest.2 (Set.mem_insert_of_mem _ listed)).trans most, ?_⟩
    rcases most.eq_or_lt with same | less
    · refine Or.inl ?_
      rcases greatest.1 with isTarget | listed
      · exact absurd (isTarget.symm.trans same) below.ne
      · exact same ▸ listed
    · have settles := moved less
      have within : limit ≤ value := by
        by_contra beyond
        have over_ : value < settled := settles ▸ (not_le.mp beyond).trans_le (le_max_right _ _)
        exact absurd (over_.trans_le (raised over_ _ (Set.mem_insert _ _))) below.asymm
      refine Or.inr ⟨within, ?_⟩
      rcases within.eq_or_lt with same | under
      · exact Or.inl same
      · refine Or.inr fun x needs => ?_
        have bound := lowered (settles ▸ max_lt less under) x (Set.mem_insert_of_mem _ needs)
        rw [settles] at bound
        rcases le_max_iff.mp bound with byHeld | byLimit
        · exact ⟨held, Set.mem_insert_of_mem _ greatest.1, byHeld⟩
        · exact ⟨limit, Set.mem_insert _ _, byLimit⟩
  · rintro ⟨within, holds⟩
    have most : held ≤ value := by
      rcases greatest.1 with isTarget | listed
      · exact isTarget.le.trans below.le
      · exact within _ listed
    rcases most.eq_or_lt with same | less
    · have settles := still same
      exact ⟨fun lower => absurd settles lower.ne, fun higher => absurd settles higher.ne', above, most⟩
    · have settles := moved less
      rcases holds with listed | ⟨most_, bounded⟩
      · exact absurd (greatest.2 (Set.mem_insert_of_mem _ listed)) (not_le.mpr less)
      · refine ⟨fun lower x needs => ?_, fun higher => ?_, above, most⟩
        · have high : max held limit ≤ settled := settles.ge
          rcases needs with rfl | needs
          · exact above.trans ((le_max_left _ _).trans high)
          · rcases bounded with same | bounded
            · exact absurd (same ▸ (le_max_right _ _).trans high) (not_le.mpr lower)
            · rcases bounded x needs with ⟨y, bounds, less_⟩
              refine less_.trans (le_trans ?_ high)
              rcases bounds with rfl | kept_
              · exact le_max_right _ _
              · exact (greatest.2 kept_).trans (le_max_left _ _)
        · exact absurd (settles ▸ max_le less.le most_) (not_le.mpr higher)

theorem respects_iff_wellKept_dual {kept needed lower : Set α} {value target limit held settled : α} (above : value < target)
    (least : IsLeast (insert target kept) held) (still : held = value -> settled = value)
    (moved : value < held -> settled = min held limit) :
    Respects (α := αᵒᵈ) needed lower value target held settled <-> WellKept (α := αᵒᵈ) kept needed value target limit :=
  respects_iff_wellKept (α := αᵒᵈ) above least still moved

end NotK8s.Library

import Mathlib.Tactic.SplitIfs
import NotK8s.Library.Keyed

namespace NotK8s.Library

/-!
# Rows with consecutive numbers

A log keeps its rows under consecutive numbers.  Cutting it from below or
from above leaves consecutive numbers, and rows appended at the end continue
them.
-/

variable {Row : Type*} (number : Row -> Nat)

/-- The rows carry the numbers from `first` on, one after the other. -/
def Numbered : Nat -> List Row -> Prop
  | _, [] => True
  | first, row :: rest => number row = first ∧ Numbered (first + 1) rest

instance Numbered.decidable : forall (first : Nat) (rows : List Row), Decidable (Numbered number first rows)
  | _, [] => isTrue True.intro
  | first, row :: rest =>
    have := Numbered.decidable (first + 1) rest
    inferInstanceAs (Decidable (number row = first ∧ Numbered number (first + 1) rest))

variable {number} {first : Nat} {rows : List Row}

theorem numbered_iff_map : Numbered number first rows <-> rows.map number = List.range' first rows.length := by
  induction rows generalizing first with
  | nil => simp [Numbered]
  | cons row rest ih => simp [Numbered, ih, List.range'_succ]

theorem numbered_append {front back : List Row} :
    Numbered number first (front ++ back) <->
      Numbered number first front ∧ Numbered number (first + front.length) back := by
  induction front generalizing first with
  | nil => simp [Numbered]
  | cons row rest ih =>
    have shifted : first + (rest.length + 1) = first + 1 + rest.length := by omega
    simp [Numbered, ih, and_assoc, shifted]

namespace Numbered

section

variable (numbered : Numbered number first rows)
include numbered

theorem mem_bounds {row : Row} (member : row ∈ rows) :
    first ≤ number row ∧ number row < first + rows.length := by
  induction rows generalizing first with
  | nil => simp at member
  | cons head rest ih =>
    simp only [List.length_cons]
    rcases List.mem_cons.mp member with rfl | later
    · have here := numbered.1
      omega
    · have bounds := ih numbered.2 later
      omega

theorem keySorted : KeySorted number rows := by
  induction rows generalizing first with
  | nil => exact List.Pairwise.nil
  | cons head rest ih =>
    refine List.Pairwise.cons ?_ (ih numbered.2)
    intro row member
    have here := numbered.1
    have bounds := numbered.2.mem_bounds member
    omega

/-- The row of every number in the range is there, and `find?` finds it. -/
theorem find_some {wanted : Nat} (low : first ≤ wanted)
    (high : wanted < first + rows.length) :
    Exists fun row : Row => rows.find? (fun other => decide (number other = wanted)) = some row ∧
      row ∈ rows ∧ number row = wanted := by
  induction rows generalizing first with
  | nil => simp at high; omega
  | cons head rest ih =>
    have here := numbered.1
    by_cases same : number head = wanted
    · exact ⟨head, by simp [same], .head _, same⟩
    · simp only [List.length_cons] at high
      rcases ih numbered.2 (by omega) (by omega) with ⟨row, found, member, equal⟩
      exact ⟨row, by simp [same, found], .tail _ member, equal⟩

theorem filter_above {cut : Nat} (low : first ≤ cut + 1) :
    Numbered number (cut + 1) (rows.filter fun row => !decide (number row ≤ cut)) := by
  induction rows generalizing first with
  | nil => exact True.intro
  | cons head rest ih =>
    have here := numbered.1
    by_cases covered : number head ≤ cut
    · simp only [List.filter_cons, covered, decide_true, Bool.not_true, Bool.false_eq_true, if_false]
      exact ih numbered.2 (by omega)
    · have all : forall row, row ∈ head :: rest -> (!decide (number row ≤ cut)) = true := by
        intro row member
        have bounds := numbered.mem_bounds member
        simp only [Bool.not_eq_true', decide_eq_false_iff_not]
        omega
      have starts : cut + 1 = first := by omega
      rw [List.filter_eq_self.mpr all, starts]
      exact numbered

theorem filter_below {cut : Nat} :
    Numbered number first (rows.filter fun row => !decide (number row ≥ cut)) ∧
      (rows.filter fun row => !decide (number row ≥ cut)).length = min rows.length (cut - first) := by
  induction rows generalizing first with
  | nil => simp [Numbered]
  | cons head rest ih =>
    have here := numbered.1
    by_cases above : number head ≥ cut
    · have none : (head :: rest).filter (fun row => !decide (number row ≥ cut)) = [] := by
        apply List.filter_eq_nil_iff.mpr
        intro row member
        have bounds := numbered.mem_bounds member
        simp only [Bool.not_eq_true', decide_eq_false_iff_not]
        omega
      rw [none]
      refine ⟨True.intro, ?_⟩
      simp only [List.length_nil]
      omega
    · rcases ih numbered.2 with ⟨kept, length⟩
      simp only [List.filter_cons, above, decide_false, Bool.not_false, if_true, List.length_cons, length]
      exact ⟨⟨here, kept⟩, by omega⟩

end

end Numbered

end NotK8s.Library

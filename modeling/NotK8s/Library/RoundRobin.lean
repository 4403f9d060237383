import Mathlib.Data.List.Perm.Basic
import Mathlib.Data.List.Flatten

namespace NotK8s.Library

/-!
# Taking turns

Several lists merged by turns: the first items of all of them, then the
second items, until nothing is left.  The result has every item once, and
renaming the items before or after is the same.
-/

variable {Item Other : Type*}

/-- The items at one position, of the lists that are long enough. -/
def turn (buckets : List (List Item)) (i : Nat) : List Item :=
  buckets.filterMap fun bucket => bucket[i]?

/-- Turns from the given one on, until the wanted number of items is out or a
turn brings nothing. -/
def takeTurns (buckets : List (List Item)) (wanted : Nat) : Nat -> Nat -> List Item -> List Item
  | 0, _, out => out
  | fuel + 1, i, out =>
    if out.length < wanted then
      if (turn buckets i).isEmpty then out
      else takeTurns buckets wanted fuel (i + 1) (out ++ turn buckets i)
    else out

/-- What is left of the lists from one turn on. -/
def leftover (buckets : List (List Item)) (i : Nat) : List Item :=
  buckets.flatMap fun bucket => bucket.drop i

variable {buckets : List (List Item)} {wanted fuel i : Nat} {out : List Item}

theorem turn_map {f : Item -> Other} : turn (buckets.map (List.map f)) i = (turn buckets i).map f := by
  unfold turn
  rw [List.filterMap_map, List.map_filterMap]
  apply List.filterMap_congr
  intro bucket _
  exact List.getElem?_map

theorem takeTurns_map {f : Item -> Other} :
    takeTurns (buckets.map (List.map f)) wanted fuel i (out.map f) = (takeTurns buckets wanted fuel i out).map f := by
  induction fuel generalizing i out with
  | zero => rfl
  | succ fuel ih =>
    unfold takeTurns
    rw [List.length_map, turn_map, List.isEmpty_map, ← List.map_append, ih]
    split_ifs <;> rfl

theorem turn_append_leftover : (turn buckets i ++ leftover buckets (i + 1)).Perm (leftover buckets i) := by
  induction buckets with
  | nil => exact List.Perm.refl _
  | cons bucket rest ih =>
    unfold turn leftover at *
    rw [List.flatMap_cons, List.flatMap_cons]
    cases first : bucket[i]? with
    | none =>
      have short := List.getElem?_eq_none_iff.mp first
      rw [@List.filterMap_cons_none _ _ (fun held : List Item => held[i]?) bucket rest first,
        List.drop_eq_nil_of_le short,
        List.drop_eq_nil_of_le (Nat.le_succ_of_le short)]
      exact ih
    | some item =>
      rcases List.getElem?_eq_some_iff.mp first with ⟨long, here⟩
      rw [@List.filterMap_cons_some _ _ (fun held : List Item => held[i]?) bucket rest item first,
        List.drop_eq_getElem_cons long, here, List.cons_append, List.cons_append]
      apply List.Perm.cons
      refine (List.perm_append_comm_assoc _ _ _).trans ?_
      exact ih.append_left _

theorem leftover_of_turn_nil (none : turn buckets i = []) : leftover buckets i = [] := by
  unfold turn leftover at *
  rw [List.filterMap_eq_nil_iff] at none
  rw [List.flatMap_eq_nil_iff]
  intro bucket listed
  exact List.drop_eq_nil_of_le (List.getElem?_eq_none_iff.mp (none bucket listed))

theorem takeTurns_perm (whole : wanted = out.length + (leftover buckets i).length)
    (enough : (leftover buckets i).length ≤ fuel) :
    (takeTurns buckets wanted fuel i out).Perm (out ++ leftover buckets i) := by
  induction fuel generalizing i out with
  | zero =>
    have done : leftover buckets i = [] := List.length_eq_zero_iff.mp (Nat.le_zero.mp enough)
    exact List.Perm.of_eq (by rw [done, List.append_nil]; rfl)
  | succ fuel ih =>
    have step := @turn_append_leftover _ buckets i
    have sizes := step.length_eq
    rw [List.length_append] at sizes
    unfold takeTurns
    split_ifs with more stuck
    · exact List.Perm.of_eq (by rw [leftover_of_turn_nil (List.isEmpty_iff.mp stuck), List.append_nil])
    · have taken : 0 < (turn buckets i).length := List.length_pos_iff.mpr (by simpa using stuck)
      have rest : (leftover buckets (i + 1)).length ≤ fuel := by omega
      have longer : wanted = (out ++ turn buckets i).length + (leftover buckets (i + 1)).length := by
        rw [List.length_append]
        omega
      refine (ih longer rest).trans ?_
      rw [List.append_assoc]
      exact step.append_left out
    · have done : leftover buckets i = [] := List.length_eq_zero_iff.mp (by omega)
      exact List.Perm.of_eq (by rw [done, List.append_nil])

theorem takeTurns_flatten : (takeTurns buckets buckets.flatten.length buckets.flatten.length 0 []).Perm
    buckets.flatten := by
  have all : leftover buckets 0 = buckets.flatten := by
    unfold leftover
    rw [List.flatMap_def]
    exact congrArg List.flatten (List.map_id _)
  have merged := @takeTurns_perm _ buckets buckets.flatten.length buckets.flatten.length 0 []
    (by rw [all, List.length_nil, Nat.zero_add]) (Nat.le_of_eq (congrArg List.length all))
  rwa [all, List.nil_append] at merged

end NotK8s.Library

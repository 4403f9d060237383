import Mathlib.Algebra.BigOperators.Group.List.Basic
import Mathlib.Algebra.Order.Field.Rat
import Mathlib.Data.Nat.Cast.Basic
import Mathlib.Tactic.ByContra
import Mathlib.Tactic.FieldSimp
import Mathlib.Tactic.Ring

namespace NotK8s.Library

/-!
# Copies of the elements of a list

Every element of a list is written down some number of times.  What the
elements give, when those written down nowhere give nothing, is settled by
the copies alone.
-/

variable {α β : Type*}

/-- The elements of a list, each as often as it is counted. -/
def copied (count : α -> Nat) (list : List α) : List α :=
  list.flatMap fun x => List.replicate (count x) x

variable {count : α -> Nat} {list : List α}

@[simp] theorem copied_cons (x : α) (rest : List α) :
    copied count (x :: rest) = List.replicate (count x) x ++ copied count rest :=
  List.flatMap_cons

theorem mem_copied {x : α} : x ∈ copied count list <-> x ∈ list ∧ 0 < count x := by
  simp only [copied, List.mem_flatMap, List.mem_replicate]
  constructor
  · rintro ⟨y, member, counted, rfl⟩
    exact ⟨member, Nat.pos_of_ne_zero counted⟩
  · rintro ⟨member, counted⟩
    exact ⟨x, member, Nat.ne_of_gt counted, rfl⟩

theorem copied_eq_nil : copied count list = [] <-> forall x, x ∈ list -> count x = 0 := by
  rw [List.eq_nil_iff_forall_not_mem]
  constructor
  · intro none x member
    by_contra counted
    exact none x (mem_copied.mpr ⟨member, Nat.pos_of_ne_zero counted⟩)
  · intro uncounted x member
    have present := mem_copied.mp member
    exact Nat.ne_of_gt present.2 (uncounted x present.1)

theorem flatMap_of_uncounted {give : α -> List β} (settled : forall x, count x = 0 -> give x = [])
    (none : copied count list = []) : list.flatMap give = [] :=
  List.flatMap_eq_nil_iff.mpr fun x member => settled x (copied_eq_nil.mp none x member)

/-- Where one copy of one element is all there is, it alone gives anything. -/
theorem flatMap_of_copied {give : α -> List β} {x : α} (settled : forall y, count y = 0 -> give y = [])
    (single : copied count list = [x]) : count x = 1 ∧ list.flatMap give = give x := by
  induction list with
  | nil => cases single
  | cons y rest ih =>
    rw [copied_cons] at single
    cases counted : count y with
    | zero =>
      rw [counted, List.replicate_zero, List.nil_append] at single
      rcases ih single with ⟨once, given⟩
      rw [List.flatMap_cons, settled y counted, given]
      exact ⟨once, rfl⟩
    | succ n =>
      rw [counted, List.replicate_succ, List.cons_append, List.cons.injEq, List.append_eq_nil_iff] at single
      rcases single with ⟨rfl, noMore, nowhere⟩
      have last : n = 0 := by simpa using noMore
      rw [List.flatMap_cons, flatMap_of_uncounted settled nowhere, List.append_nil, counted, last]
      exact ⟨rfl, rfl⟩

/-- A sum over the copies counts every element as often as it is copied. -/
theorem sum_copied (count share : α -> Nat) (list : List α) :
    ((copied count list).map share).sum = (list.map fun x => count x * share x).sum := by
  induction list with
  | nil => rfl
  | cons y rest ih =>
    rw [copied_cons, List.map_append, List.sum_append, List.map_replicate, List.sum_replicate, nsmul_eq_mul,
      Nat.cast_id, ih, List.map_cons, List.sum_cons]

theorem eq_nil_of_sum {share : α -> Nat} (positive : forall y, y ∈ list -> 0 < share y)
    (total : (list.map share).sum = 0) : list = [] := by
  cases list with
  | nil => rfl
  | cons y rest =>
    have head := positive y (.head _)
    rw [List.map_cons, List.sum_cons] at total
    omega

/-- When the shares are positive and add up to one of them, that is the only
one. -/
theorem eq_singleton_of_sum {share : α -> Nat} {x : α} (positive : forall y, y ∈ list -> 0 < share y)
    (member : x ∈ list) (total : (list.map share).sum = share x) : list = [x] := by
  rcases List.append_of_mem member with ⟨before, after, rfl⟩
  rw [List.map_append, List.map_cons, List.sum_append, List.sum_cons] at total
  rw [eq_nil_of_sum (fun y inside => positive y (List.mem_append_left _ inside)) (by omega),
    eq_nil_of_sum (fun y inside => positive y (List.mem_append_right _ (List.mem_cons_of_mem x inside))) (by omega)]
  rfl

/-!
# Trials in turn

A list of trials is gone through in order, and the first that succeeds ends
it.  If the trial before which `n` are left succeeds with probability `1 / n`,
every trial is the successful one with the same probability.
-/

/-- The probability that the trial at a position is the one that succeeds. -/
def reach : List ℚ -> Nat -> ℚ
  | [], _ => 0
  | p :: _, 0 => p
  | p :: rest, i + 1 => (1 - p) * reach rest i

/-- The last of `n` trials succeeds for certain, and each one before it with
one over the number of those left. -/
def evenly : Nat -> List ℚ
  | 0 => []
  | n + 1 => 1 / ((n : ℚ) + 1) :: evenly n

theorem reach_evenly {n i : Nat} (inside : i < n) : reach (evenly n) i = 1 / n := by
  induction n generalizing i with
  | zero => exact absurd inside (Nat.not_lt_zero i)
  | succ n ih =>
    cases i with
    | zero =>
      push_cast
      rfl
    | succ i =>
      have smaller : i < n := Nat.lt_of_succ_lt_succ inside
      have positive : (n : ℚ) ≠ 0 := Nat.cast_ne_zero.mpr (Nat.ne_of_gt (Nat.zero_lt_of_lt smaller))
      rw [evenly, reach, ih smaller]
      push_cast
      field_simp
      ring

theorem evenly_eq_map (n : Nat) : evenly n = (List.range n).map fun i => 1 / ((n - i : Nat) : ℚ) := by
  induction n with
  | zero => rfl
  | succ n ih =>
    rw [List.range_succ_eq_map, List.map_cons, List.map_map, evenly, ih]
    simp

end NotK8s.Library

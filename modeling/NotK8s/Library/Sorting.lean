import Mathlib.Data.List.Perm.Basic

namespace NotK8s.Library

/-!
# Sorting with a comparison that may change its mind

A comparison that reads something outside its two arguments can answer one way
the first time it is asked and another way the next.  The sort here is a
stable insertion, and its comparison is told how many have been asked before.
Whatever the answers are, the result is a permutation.  Where the answers
about different members are those of one preorder, the result is the stable
sort by that preorder.
-/

section
variable {Item : Type*} (compare : Nat -> Item -> Item -> Ordering)

/-- Puts an item before the first one that it is not found greater than. -/
def insertBy (item : Item) : Nat -> List Item -> List Item × Nat
  | asked, [] => ([item], asked)
  | asked, held :: rest =>
    match compare asked item held with
    | .gt => ((held :: (insertBy item (asked + 1) rest).1), (insertBy item (asked + 1) rest).2)
    | _ => (item :: held :: rest, asked + 1)

def sortCounted : List Item -> List Item × Nat
  | [] => ([], 0)
  | item :: rest => insertBy compare item (sortCounted rest).2 (sortCounted rest).1

def sortBy (items : List Item) : List Item :=
  (sortCounted compare items).1

variable {compare}

theorem insertBy_perm {item : Item} {items : List Item} {asked : Nat} :
    (insertBy compare item asked items).1.Perm (item :: items) := by
  induction items generalizing asked with
  | nil => exact List.Perm.refl _
  | cons held rest ih =>
    unfold insertBy
    split
    · exact (ih.cons held).trans (List.Perm.swap item held rest)
    · exact List.Perm.refl _

theorem sortBy_perm {items : List Item} : (sortBy compare items).Perm items := by
  induction items with
  | nil => exact List.Perm.refl _
  | cons item rest ih =>
    exact insertBy_perm.trans (ih.cons item)

variable {le : Item -> Item -> Bool} {item : Item} {before after : List Item} {asked : Nat}

theorem insertBy_between (passes : forall i, forall held, held ∈ before -> compare i item held = .gt)
    (stops : forall i, forall held, held ∈ after.head? -> compare i item held ≠ .gt) :
    (insertBy compare item asked (before ++ after)).1 = before ++ item :: after := by
  induction before generalizing asked with
  | nil =>
    cases after with
    | nil => rfl
    | cons held rest =>
      have answer := stops asked held rfl
      rw [List.nil_append, List.nil_append]
      unfold insertBy
      split
      · contradiction
      · rfl
  | cons held rest ih =>
    have further := @ih (asked + 1) fun i other listed => passes i other (.tail _ listed)
    rw [List.cons_append]
    unfold insertBy
    rw [passes asked held (.head _)]
    rw [further]
    rfl

/-- A comparison that answers by one preorder, whenever it is asked, sorts by
that preorder. -/
theorem sortBy_eq_mergeSort {items : List Item}
    (trans : forall first second third, le first second -> le second third -> le first third)
    (total : forall first second, le first second || le second first)
    (distinct : items.Nodup)
    (answers : forall i first second, first ∈ items -> second ∈ items -> first ≠ second ->
      (compare i first second = .gt <-> le first second = false)) :
    sortBy compare items = items.mergeSort le := by
  induction items with
  | nil => exact List.mergeSort_nil.symm
  | cons item rest ih =>
    have ⟨fresh, distinctRest⟩ := List.nodup_cons.mp distinct
    have sorted := ih distinctRest fun i first second one two =>
      answers i first second (.tail _ one) (.tail _ two)
    rcases List.mergeSort_cons trans total item rest with ⟨before, after, whole, part, below⟩
    have listed : forall held, held ∈ before ++ after -> held ∈ rest := by
      intro held found
      rw [← part] at found
      exact List.mem_mergeSort.mp found
    have different : forall held, held ∈ before ++ after -> item ≠ held :=
      fun held found same => fresh (same ▸ listed held found)
    rw [whole]
    change (insertBy compare item _ (sortBy compare rest)).1 = _
    rw [sorted, part]
    apply insertBy_between
    · intro i held found
      have here := List.mem_append_left after found
      rw [answers i item held (.head _) (.tail _ (listed held here)) (different held here)]
      simpa using below held found
    · intro i held found
      have here := List.mem_append_right before (List.mem_of_mem_head? found)
      rw [Ne, answers i item held (.head _) (.tail _ (listed held here)) (different held here), Bool.not_eq_false]
      have order := @List.pairwise_mergeSort _ le trans total (item :: rest)
      rw [whole] at order
      exact List.rel_of_pairwise_cons (List.pairwise_append.mp order).2.1 (List.mem_of_mem_head? found)

end

end NotK8s.Library

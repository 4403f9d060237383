import Mathlib.Data.List.MinMax
import Mathlib.Data.List.Sort

namespace NotK8s.Library

/-!
# Newest versions in an append-only table

A versioned table is a list of rows, each with a stamp in a linear order.
A read never looks at the position of a row: it selects the rows it may see
and answers from the one with the greatest stamp.  The lemmas below say when
that answer survives the two ways such a table changes, namely appending a
row with a fresh stamp and pruning rows that are not the newest.

Nothing here depends on what a row contains.  Stamps are required to be
distinct, not increasing along the list, because a table that was rebuilt
from a snapshot need not list its rows in the order of their stamps.
-/

variable {Row Stamp : Type*} [LinearOrder Stamp]

/-- The row with the greatest stamp among those the read may see. -/
def newest (stamp : Row -> Stamp) (sees : Row -> Bool) (rows : List Row) : Option Row :=
  (rows.filter sees).argmax stamp

/-- No two rows share a stamp. -/
def DistinctStamps (stamp : Row -> Stamp) (rows : List Row) : Prop :=
  rows.Pairwise fun first second => stamp first ≠ stamp second

instance (stamp : Row -> Stamp) (rows : List Row) : Decidable (DistinctStamps stamp rows) :=
  inferInstanceAs (Decidable (rows.Pairwise fun first second => stamp first ≠ stamp second))

section
variable {stamp : Row -> Stamp} {sees : Row -> Bool} {rows : List Row}

omit [LinearOrder Stamp] in
theorem DistinctStamps.injective (distinct : DistinctStamps stamp rows) {first second : Row}
    (firstMem : first ∈ rows) (secondMem : second ∈ rows)
    (same : stamp first = stamp second) : first = second := by
  induction rows with
  | nil => cases firstMem
  | cons head tail ih =>
    have parts := List.pairwise_cons.mp distinct
    rcases List.mem_cons.mp firstMem with atHead | inTail
    · rcases List.mem_cons.mp secondMem with atHead' | inTail'
      · rw [atHead, atHead']
      · exact absurd (atHead ▸ same) (parts.1 second inTail')
    · rcases List.mem_cons.mp secondMem with atHead' | inTail'
      · exact absurd (atHead' ▸ same.symm) (parts.1 first inTail)
      · exact ih parts.2 inTail inTail'

omit [LinearOrder Stamp] in
theorem DistinctStamps.filter (distinct : DistinctStamps stamp rows) (keep : Row -> Bool) :
    DistinctStamps stamp (rows.filter keep) :=
  List.Pairwise.filter keep distinct

omit [LinearOrder Stamp] in
theorem nodup_of_distinct (distinct : DistinctStamps stamp rows) : rows.Nodup :=
  distinct.imp fun differ same => differ (congrArg stamp same)

theorem DistinctStamps.concat (distinct : DistinctStamps stamp rows) {row : Row}
    (fresh : forall stored, stored ∈ rows -> stamp stored < stamp row) :
    DistinctStamps stamp (rows ++ [row]) := by
  refine List.pairwise_append.mpr ⟨distinct, List.pairwise_singleton _ _, ?_⟩
  intro stored storedMem last lastMem
  rw [List.mem_singleton] at lastMem
  subst last
  exact ne_of_lt (fresh stored storedMem)

theorem newest_mem {row : Row} (found : newest stamp sees rows = some row) :
    row ∈ rows ∧ sees row = true :=
  List.mem_filter.mp (List.argmax_mem (Option.mem_def.mpr found))

theorem newest_ge {row other : Row} (found : newest stamp sees rows = some row)
    (member : other ∈ rows) (seen : sees other = true) : stamp other ≤ stamp row :=
  List.le_of_mem_argmax (List.mem_filter.mpr ⟨member, seen⟩) (Option.mem_def.mpr found)

theorem newest_eq_none_iff :
    newest stamp sees rows = none <-> forall row, row ∈ rows -> sees row = false := by
  unfold newest
  rw [List.argmax_eq_none, List.filter_eq_nil_iff]
  constructor
  · intro unseen row member
    exact Bool.eq_false_iff.mpr (unseen row member)
  · intro unseen row member
    rw [unseen row member]
    exact Bool.false_ne_true

theorem exists_newest {row : Row} (member : row ∈ rows) (seen : sees row = true) :
    Exists fun found : Row => newest stamp sees rows = some found := by
  cases answer : newest stamp sees rows with
  | some found => exact ⟨found, rfl⟩
  | none =>
    have unseen := newest_eq_none_iff.mp answer row member
    exact absurd (seen.symm.trans unseen) (Bool.false_ne_true ∘ Eq.symm)

/-- With distinct stamps the answer is characterized by membership and
domination alone, whatever the order of the list. -/
theorem newest_eq_some_iff (distinct : DistinctStamps stamp rows) {row : Row} :
    newest stamp sees rows = some row <->
      row ∈ rows ∧ sees row = true ∧
        forall other, other ∈ rows -> sees other = true -> stamp other ≤ stamp row := by
  constructor
  · intro found
    have parts := newest_mem found
    exact ⟨parts.1, parts.2, fun other member seen => newest_ge found member seen⟩
  · rintro ⟨member, seen, greatest⟩
    rcases (exists_newest member seen : Exists fun found => newest stamp sees rows = some found) with
      ⟨found, answer⟩
    have parts := newest_mem answer
    have same : stamp found = stamp row :=
      le_antisymm (greatest found parts.1 parts.2) (newest_ge answer member seen)
    rw [answer, distinct.injective parts.1 member same]

theorem newest_congr {other : Row -> Bool} (same : forall row, row ∈ rows -> sees row = other row) :
    newest stamp sees rows = newest stamp other rows := by
  unfold newest
  rw [List.filter_congr same]

theorem newest_eq_of_mem_iff {left right : List Row}
    (leftDistinct : DistinctStamps stamp left) (rightDistinct : DistinctStamps stamp right)
    (same : forall row, sees row = true -> (row ∈ left <-> row ∈ right)) :
    newest stamp sees left = newest stamp sees right := by
  cases answer : newest stamp sees right with
  | none =>
    rw [newest_eq_none_iff] at answer ⊢
    intro row member
    by_contra seen
    have visible : sees row = true := by simpa only [Bool.not_eq_false] using seen
    exact seen (answer row ((same row visible).mp member))
  | some found =>
    rw [newest_eq_some_iff rightDistinct] at answer
    rw [newest_eq_some_iff leftDistinct]
    refine ⟨(same found answer.2.1).mpr answer.1, answer.2.1, ?_⟩
    intro row member seen
    exact answer.2.2 row ((same row seen).mp member) seen

/-- Appending a row above every stored stamp answers the reads that see it
and changes no other read. -/
theorem newest_concat {row : Row}
    (fresh : forall stored, stored ∈ rows -> stamp stored < stamp row) :
    newest stamp sees (rows ++ [row]) = if sees row = true then some row else newest stamp sees rows := by
  unfold newest
  rw [List.filter_append]
  by_cases seen : sees row = true
  · rw [if_pos seen, List.filter_cons_of_pos seen, List.filter_nil, List.argmax_concat]
    cases answer : (rows.filter sees).argmax stamp with
    | none => rfl
    | some found =>
      have member := (List.mem_filter.mp (List.argmax_mem (Option.mem_def.mpr answer))).1
      exact if_pos (fresh found member)
  · rw [if_neg seen, List.filter_cons_of_neg seen, List.filter_nil, List.append_nil]

end

/-! ## Sorting what a read returns -/

section
variable {Item : Type*} {order : Item -> Item -> Prop} [DecidableRel order]

/-- Sorting depends only on which items are listed, provided the order
leaves no two of them incomparable or tied. -/
theorem insertionSort_eq_of_mem_iff [Std.Total order] [IsTrans Item order] {left right : List Item}
    (leftNodup : left.Nodup) (rightNodup : right.Nodup)
    (same : forall item, item ∈ left <-> item ∈ right)
    (tieless : forall first second, first ∈ left -> second ∈ left ->
      order first second -> order second first -> first = second) :
    left.insertionSort order = right.insertionSort order := by
  have permutation : (left.insertionSort order).Perm (right.insertionSort order) :=
    (left.perm_insertionSort order).trans
      (((List.perm_ext_iff_of_nodup leftNodup rightNodup).mpr same).trans
        (right.perm_insertionSort order).symm)
  refine permutation.eq_of_pairwise ?_ (left.pairwise_insertionSort order)
    (right.pairwise_insertionSort order)
  intro first second firstMem secondMem
  refine tieless first second ((List.mem_insertionSort order).mp firstMem) ?_
  exact (same second).mpr ((List.mem_insertionSort order).mp secondMem)

end

end NotK8s.Library

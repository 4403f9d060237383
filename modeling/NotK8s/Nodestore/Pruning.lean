import NotK8s.Nodestore.Store
import NotK8s.Nodestore.Queries

namespace NotK8s.Nodestore

open Library

/-!
# What a compaction removes

The two deletes of a compaction keep a row exactly when it lies above the
compaction point or is the live version of its key there.  Reads at or above
the point therefore see the table unchanged, and reads below it may only
lose versions.
-/

section
variable {kv : List KvRow} {c : Int}

theorem mem_pruneRows {row : KvRow} :
    row ∈ pruneRows kv c <->
      row ∈ kv ∧ (row.revision ≤ c -> newestOf kv (some c) row.key = some row ∧ row.deleted = false) := by
  unfold pruneRows
  rw [List.mem_filter, List.mem_filter, and_assoc]
  refine and_congr_right fun _ => ?_
  by_cases below : row.revision ≤ c
  · simp [below]
  · simp [below]

theorem pruneRows_sublist (kv : List KvRow) (c : Int) : (pruneRows kv c).Sublist kv :=
  List.filter_sublist.trans List.filter_sublist

theorem mem_of_mem_pruneRows {row : KvRow} (member : row ∈ pruneRows kv c) : row ∈ kv :=
  (mem_pruneRows.mp member).1

theorem mem_pruneRows_of_lt {row : KvRow} (above : c < row.revision) :
    row ∈ pruneRows kv c <-> row ∈ kv := by
  rw [mem_pruneRows]
  constructor
  · intro parts
    exact parts.1
  · intro member
    exact ⟨member, fun below => absurd below (not_le.mpr above)⟩

theorem distinct_pruneRows (distinct : DistinctStamps KvRow.stamp kv) (c : Int) :
    DistinctStamps KvRow.stamp (pruneRows kv c) :=
  (distinct.filter _).filter _

/-- A condition covers the compaction point when it admits every row up to
it. -/
def Covers (inside : KvRow -> Bool) (c : Int) : Prop :=
  forall row : KvRow, row.revision ≤ c -> inside row = true

theorem covers_within_none (c : Int) : Covers (KvRow.within none) c :=
  fun _ _ => rfl

theorem covers_within_some {r : Int} (atLeast : c ≤ r) : Covers (KvRow.within (some r)) c :=
  fun _ below => decide_eq_true (below.trans atLeast)

section

variable (distinct : DistinctStamps KvRow.stamp kv)
include distinct

/-- Among the rows a covering read sees, the newest one is the newest up to
the compaction point if it lies there at all. -/
theorem newestOf_at_point {inside : KvRow -> Bool}
    (covers : Covers inside c) {key : Bytes} {row : KvRow} (found : newestWhere kv inside key = some row)
    (below : row.revision ≤ c) : newestOf kv (some c) key = some row := by
  rw [newestWhere_eq_some_iff distinct] at found
  rw [newestOf_eq_some_iff distinct]
  rcases found with ⟨member, same, _, greatest⟩
  refine ⟨member, same, decide_eq_true below, ?_⟩
  intro other otherMem otherKey within
  exact greatest other otherMem otherKey (covers other (of_decide_eq_true within))

theorem newestWhere_pruneRows_of_mem {inside : KvRow -> Bool}
    {key : Bytes} {row : KvRow} (found : newestWhere kv inside key = some row)
    (kept : row ∈ pruneRows kv c) : newestWhere (pruneRows kv c) inside key = some row := by
  rw [newestWhere_eq_some_iff distinct] at found
  rw [newestWhere_eq_some_iff (distinct_pruneRows distinct c)]
  refine ⟨kept, found.2.1, found.2.2.1, ?_⟩
  intro other member
  exact found.2.2.2 other (mem_of_mem_pruneRows member)

theorem newestWhere_pruneRows_iff {inside : KvRow -> Bool}
    (covers : Covers inside c) {key : Bytes} {row : KvRow} (alive : row.deleted = false) :
    newestWhere (pruneRows kv c) inside key = some row <-> newestWhere kv inside key = some row := by
  constructor
  · intro survivor
    have spec := newestWhere_spec survivor
    have member := mem_of_mem_pruneRows spec.1
    cases found : newestWhere kv inside key with
    | none =>
      have hidden := newestWhere_eq_none_iff.mp found row member spec.2.1
      exact absurd (spec.2.2.symm.trans hidden) (Bool.false_ne_true ∘ Eq.symm)
    | some top =>
      by_cases kept : top ∈ pruneRows kv c
      · rw [← newestWhere_pruneRows_of_mem distinct found kept, survivor]
      · have topSpec := newestWhere_spec found
        have below : top.revision ≤ c := by
          by_contra above
          exact kept ((mem_pruneRows_of_lt (not_le.mp above)).mpr topSpec.1)
        have atPoint := newestOf_at_point distinct covers found below
        have older := ((newestWhere_eq_some_iff distinct).mp found).2.2.2 row member spec.2.1 spec.2.2
        have newestRow := (mem_pruneRows.mp spec.1).2 ((KvRow.revision_le_of_stamp_le older).trans below)
        rw [spec.2.1, atPoint] at newestRow
        exact newestRow.1
  · intro found
    refine newestWhere_pruneRows_of_mem distinct found
      (mem_pruneRows.mpr ⟨(newestWhere_spec found).1, ?_⟩)
    intro below
    rw [(newestWhere_spec found).2.1]
    exact ⟨newestOf_at_point distinct covers found below, alive⟩

theorem newestWhere_pruneRows_live {inside : KvRow -> Bool}
    (covers : Covers inside c) (key : Bytes) :
    (newestWhere (pruneRows kv c) inside key).bind KvRow.live =
      (newestWhere kv inside key).bind KvRow.live := by
  refine Option.ext fun pair => ?_
  rw [Option.bind_eq_some_iff, Option.bind_eq_some_iff]
  refine exists_congr fun row => and_congr_left fun alive => ?_
  exact newestWhere_pruneRows_iff distinct covers ((KvRow.live_eq_some_iff row pair).mp alive).1

theorem visible_pruneRows {asOf : Option Int}
    (covers : Covers (KvRow.within asOf) c) (key : Bytes) :
    visible (pruneRows kv c) asOf key = visible kv asOf key :=
  newestWhere_pruneRows_live distinct covers key

/-- Below the point a read sees a version of the pruned table only where it
saw it before. -/
theorem visible_of_visible_pruneRows {r : Int} (atMost : r ≤ c)
    {key : Bytes} {pair : KeyValue} (seen : visible (pruneRows kv c) (some r) key = some pair) :
    visible kv (some r) key = some pair := by
  rcases Option.bind_eq_some_iff.mp seen with ⟨row, found, alive⟩
  have spec := newestOf_spec found
  have inside : row.revision ≤ r := of_decide_eq_true spec.2.2
  have kept := (mem_pruneRows.mp spec.1).2 (inside.trans atMost)
  rw [spec.2.1] at kept
  refine Option.bind_eq_some_iff.mpr ⟨row, ?_, alive⟩
  have atPoint := (newestOf_eq_some_iff distinct).mp kept.1
  rw [newestOf_eq_some_iff distinct]
  refine ⟨atPoint.1, spec.2.1, spec.2.2, ?_⟩
  intro other member same within
  exact atPoint.2.2.2 other member same (decide_eq_true ((of_decide_eq_true within).trans atMost))

theorem rangeIn_pruneRows {asOf : Option Int}
    (covers : Covers (KvRow.within asOf) c) (range : KeyRange) (query : RangeQuery) :
    rangeIn (pruneRows kv c) range asOf query = rangeIn kv range asOf query :=
  rangeIn_congr (distinct_pruneRows distinct c) distinct range query
    fun key _ => visible_pruneRows distinct covers key

end

/-- A filter that admits rows above the point only does not notice its
compaction. -/
theorem filter_pruneRows {keep : KvRow -> Bool}
    (above : forall row, keep row = true -> c < row.revision) :
    (pruneRows kv c).filter keep = kv.filter keep := by
  unfold pruneRows
  rw [List.filter_filter, List.filter_filter]
  refine List.filter_congr fun row _ => ?_
  by_cases kept : keep row = true
  · simp [kept, not_le.mpr (above row kept)]
  · simp [Bool.eq_false_iff.mpr kept]

theorem pruneRows_append {rows : List KvRow} (distinct : DistinctStamps KvRow.stamp (kv ++ rows))
    (above : forall row, row ∈ rows -> c < row.revision) :
    pruneRows (kv ++ rows) c = pruneRows kv c ++ rows := by
  have same : forall key, newestOf (kv ++ rows) (some c) key = newestOf kv (some c) key := by
    intro key
    apply newest_eq_of_mem_iff distinct (List.Pairwise.sublist (List.sublist_append_left _ _) distinct)
    intro row seen
    have below : row.revision ≤ c := of_decide_eq_true (Bool.and_eq_true_iff.mp seen).2
    rw [List.mem_append, or_iff_left fun member => absurd below (not_le.mpr (above row member))]
  unfold pruneRows
  simp only [same, List.filter_append]
  congr 1
  rw [List.filter_filter, List.filter_eq_self]
  intro row member
  have aboveRow := above row member
  simp [not_le.mpr aboveRow]

theorem pruneRows_pruneRows (distinct : DistinctStamps KvRow.stamp kv) {later : Int} (order : c ≤ later) :
    pruneRows (pruneRows kv c) later = pruneRows kv later := by
  have once : forall rows : List KvRow, forall bound : Int, pruneRows rows bound =
      rows.filter fun row => decide (row.revision ≤ bound ->
        newestOf rows (some bound) row.key = some row ∧ row.deleted = false) := by
    intro rows bound
    unfold pruneRows
    rw [List.filter_filter]
    refine List.filter_congr fun row _ => ?_
    by_cases below : row.revision ≤ bound
    · simp [below, and_comm]
    · simp [below]
  rw [once (pruneRows kv c) later, once kv later]
  conv_lhs => rw [once kv c]
  rw [List.filter_filter]
  refine List.filter_congr fun row member => ?_
  rw [← once kv c, ← Bool.decide_and]
  refine decide_eq_decide.mpr ⟨?_, ?_⟩
  · rintro ⟨kept, _⟩ below
    have parts := kept below
    exact ⟨(newestWhere_pruneRows_iff distinct (covers_within_some order) parts.2).mp parts.1, parts.2⟩
  · intro kept
    refine ⟨fun below => ?_, fun below => ?_⟩
    · have parts := kept below
      exact ⟨(newestWhere_pruneRows_iff distinct (covers_within_some order) parts.2).mpr parts.1, parts.2⟩
    · have parts := kept (below.trans order)
      exact ⟨newestOf_at_point distinct (covers_within_some order) parts.1 below, parts.2⟩

theorem pruneRows_of_pruned (distinct : DistinctStamps KvRow.stamp kv) {later : Int} (order : c ≤ later) :
    pruneRows (pruneRows kv later) c = pruneRows kv later := by
  have kept : forall row, row ∈ pruneRows kv later -> row ∈ pruneRows (pruneRows kv later) c := by
    intro row member
    refine mem_pruneRows.mpr ⟨member, fun below => ?_⟩
    have parts := (mem_pruneRows.mp member).2 (below.trans order)
    have atPoint := newestOf_at_point distinct (covers_within_some order) parts.1 below
    exact ⟨newestWhere_pruneRows_of_mem distinct atPoint member, parts.2⟩
  exact (pruneRows_sublist _ c).eq_of_length_le
    (((List.subperm_of_subset (nodup_of_distinct (distinct_pruneRows distinct later)) kept).length_le))

end
end NotK8s.Nodestore

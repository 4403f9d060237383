import NotK8s.Nodestore.Table

namespace NotK8s.Nodestore

open Library

/-!
# What the queries answer

`visible kv asOf key` is the meaning of every read: the live value of a key
as of a bound.  A range read is the page made from the visible pairs of its
keys, so two tables with the same visible pairs answer every range query
alike, and a plain read determines the visible pairs it covers.

Only distinct stamps are assumed of a table.  In particular the rows need
not be listed in the order in which they were written.
-/

/-- The live value of `key` as of `asOf`. -/
def visible (kv : List KvRow) (asOf : Option Int) (key : Bytes) : Option KeyValue :=
  (newestOf kv asOf key).bind KvRow.live

theorem currentIn_eq_visible (kv : List KvRow) (key : Bytes) :
    currentIn kv key = visible kv none key := rfl

theorem rangePredicate_eq_contains (range : KeyRange) (key : Bytes) :
    rangePredicate range key = range.contains key := by
  cases range <;> rfl

namespace KvRow

theorem live_eq_some_iff (row : KvRow) (pair : KeyValue) :
    row.live = some pair <-> row.deleted = false ∧ row.toKeyValue = pair := by
  unfold live
  cases row.deleted <;> simp

theorem live_of_deleted {row : KvRow} (deleted : row.deleted = true) : row.live = none :=
  if_pos deleted

theorem live_of_not_deleted {row : KvRow} (kept : row.deleted = false) :
    row.live = some row.toKeyValue :=
  (live_eq_some_iff row _).mpr ⟨kept, rfl⟩

theorem live_key {row : KvRow} {pair : KeyValue} (alive : row.live = some pair) :
    pair.key = row.key ∧ pair.modRevision = row.revision := by
  have parts := (live_eq_some_iff row pair).mp alive
  rw [← parts.2]
  exact ⟨rfl, rfl⟩

@[simp] theorem within_none (row : KvRow) : row.within none = true := rfl

@[simp] theorem within_some (row : KvRow) (bound : Int) :
    row.within (some bound) = decide (row.revision ≤ bound) := rfl

theorem stamp_le_iff (first second : KvRow) :
    first.stamp ≤ second.stamp <->
      first.revision < second.revision ∨
        first.revision = second.revision ∧ first.sub ≤ second.sub :=
  Prod.Lex.toLex_le_toLex

theorem stamp_lt_iff (first second : KvRow) :
    first.stamp < second.stamp <->
      first.revision < second.revision ∨
        first.revision = second.revision ∧ first.sub < second.sub :=
  Prod.Lex.toLex_lt_toLex

theorem stamp_eq_iff (first second : KvRow) :
    first.stamp = second.stamp <->
      first.revision = second.revision ∧ first.sub = second.sub := by
  unfold stamp
  rw [toLex_inj, Prod.mk.injEq]

theorem revision_le_of_stamp_le {first second : KvRow} (ordered : first.stamp ≤ second.stamp) :
    first.revision ≤ second.revision := by
  rcases (stamp_le_iff first second).mp ordered with less | equal
  · exact less.le
  · exact equal.1.le

end KvRow

/-! ## The newest row of a key -/

section
variable {kv : List KvRow} {asOf : Option Int}

/-- The newest row of a key among those a condition admits. -/
def newestWhere (kv : List KvRow) (inside : KvRow -> Bool) (key : Bytes) : Option KvRow :=
  newest KvRow.stamp (fun row => row.key = key && inside row) kv

theorem newestWhere_spec {inside : KvRow -> Bool} {key : Bytes} {row : KvRow}
    (found : newestWhere kv inside key = some row) :
    row ∈ kv ∧ row.key = key ∧ inside row = true := by
  have parts := newest_mem found
  simp only [Bool.and_eq_true, decide_eq_true_eq] at parts
  exact parts

theorem newestWhere_eq_some_iff (distinct : DistinctStamps KvRow.stamp kv) {inside : KvRow -> Bool}
    {key : Bytes} {row : KvRow} :
    newestWhere kv inside key = some row <->
      row ∈ kv ∧ row.key = key ∧ inside row = true ∧
        forall other, other ∈ kv -> other.key = key -> inside other = true ->
          other.stamp ≤ row.stamp := by
  unfold newestWhere
  rw [newest_eq_some_iff distinct]
  simp only [Bool.and_eq_true, decide_eq_true_eq, and_assoc, and_imp]

theorem newestWhere_eq_none_iff {inside : KvRow -> Bool} {key : Bytes} :
    newestWhere kv inside key = none <->
      forall row, row ∈ kv -> row.key = key -> inside row = false := by
  unfold newestWhere
  rw [newest_eq_none_iff]
  refine forall_congr' fun row => imp_congr_right fun _ => ?_
  by_cases same : row.key = key <;> simp [same]

theorem newestOf_spec {key : Bytes} {row : KvRow} (found : newestOf kv asOf key = some row) :
    row ∈ kv ∧ row.key = key ∧ row.within asOf = true :=
  newestWhere_spec found

theorem newestOf_eq_some_iff (distinct : DistinctStamps KvRow.stamp kv) {key : Bytes} {row : KvRow} :
    newestOf kv asOf key = some row <->
      row ∈ kv ∧ row.key = key ∧ row.within asOf = true ∧
        forall other, other ∈ kv -> other.key = key -> other.within asOf = true ->
          other.stamp ≤ row.stamp :=
  newestWhere_eq_some_iff distinct

theorem exists_newestOf {row : KvRow} (member : row ∈ kv) (inside : row.within asOf = true) :
    Exists fun top : KvRow => newestOf kv asOf row.key = some top :=
  exists_newest member (Bool.and_eq_true_iff.mpr ⟨decide_eq_true rfl, inside⟩)

theorem visible_key {key : Bytes} {pair : KeyValue} (seen : visible kv asOf key = some pair) :
    pair.key = key := by
  rcases Option.bind_eq_some_iff.mp seen with ⟨row, found, alive⟩
  exact (KvRow.live_key alive).1.trans (newestOf_spec found).2.1

theorem visible_modRevision_le {key : Bytes} {pair : KeyValue} {bound : Int}
    (seen : visible kv (some bound) key = some pair) : pair.modRevision ≤ bound := by
  rcases Option.bind_eq_some_iff.mp seen with ⟨row, found, alive⟩
  rw [(KvRow.live_key alive).2]
  exact of_decide_eq_true (newestOf_spec found).2.2

theorem newestOf_unbounded {bound : Int} (below : forall row, row ∈ kv -> row.revision ≤ bound)
    (key : Bytes) : newestOf kv (some bound) key = newestOf kv none key := by
  refine newest_congr fun row member => ?_
  simp only [KvRow.within_none, KvRow.within_some, decide_eq_true (below row member)]

theorem visible_unbounded {bound : Int} (below : forall row, row ∈ kv -> row.revision ≤ bound)
    (key : Bytes) : visible kv (some bound) key = visible kv none key := by
  unfold visible
  rw [newestOf_unbounded below]

/-! ## The rows of a range -/

theorem mem_latestIn {range : KeyRange} {row : KvRow} :
    row ∈ latestIn kv range asOf <->
      range.contains row.key = true ∧ newestOf kv asOf row.key = some row := by
  have enumerated : row ∈
      ((kv.filter fun row => rangePredicate range row.key && row.within asOf).map KvRow.key).dedup.filterMap
        (newestOf kv asOf) <->
      range.contains row.key = true ∧ newestOf kv asOf row.key = some row := by
    rw [List.mem_filterMap]
    constructor
    · rintro ⟨key, listed, found⟩
      rcases List.mem_map.mp (List.mem_dedup.mp listed) with ⟨other, otherMem, rfl⟩
      have inRange := (Bool.and_eq_true_iff.mp (List.mem_filter.mp otherMem).2).1
      have spec := newestOf_spec found
      rw [rangePredicate_eq_contains] at inRange
      rw [spec.2.1]
      exact ⟨inRange, found⟩
    · rintro ⟨inRange, found⟩
      refine ⟨row.key, List.mem_dedup.mpr (List.mem_map.mpr ⟨row, ?_, rfl⟩), found⟩
      have spec := newestOf_spec found
      rw [← rangePredicate_eq_contains] at inRange
      exact List.mem_filter.mpr ⟨spec.1, Bool.and_eq_true_iff.mpr ⟨inRange, spec.2.2⟩⟩
  cases range with
  | single key =>
    change row ∈ (newestOf kv asOf key).toList <-> _
    rw [Option.mem_toList]
    constructor
    · intro found
      have spec := newestOf_spec found
      rw [spec.2.1]
      exact ⟨decide_eq_true rfl, found⟩
    · rintro ⟨same, found⟩
      rwa [of_decide_eq_true same] at found
  | all | fromKey lower | between lower upper => exact enumerated

theorem mem_selectIn {range : KeyRange} {row : KvRow} :
    row ∈ selectIn kv range asOf <->
      range.contains row.key = true ∧ newestOf kv asOf row.key = some row ∧ row.deleted = false := by
  unfold selectIn
  rw [List.mem_filter, Bool.and_eq_true, decide_eq_true_eq, mem_latestIn, Bool.not_eq_true']
  constructor
  · rintro ⟨_, ⟨inRange, found⟩, kept⟩
    exact ⟨inRange, found, kept⟩
  · rintro ⟨inRange, found, kept⟩
    exact ⟨(newestOf_spec found).1, ⟨inRange, found⟩, kept⟩

theorem mem_selectIn_map {range : KeyRange} {pair : KeyValue} :
    pair ∈ (selectIn kv range asOf).map KvRow.toKeyValue <->
      range.contains pair.key = true ∧ visible kv asOf pair.key = some pair := by
  rw [List.mem_map]
  constructor
  · rintro ⟨row, selected, rfl⟩
    have parts := mem_selectIn.mp selected
    exact ⟨parts.1, Option.bind_eq_some_iff.mpr ⟨row, parts.2.1, KvRow.live_of_not_deleted parts.2.2⟩⟩
  · rintro ⟨inRange, seen⟩
    rcases Option.bind_eq_some_iff.mp seen with ⟨row, found, alive⟩
    have parts := (KvRow.live_eq_some_iff row pair).mp alive
    have key := (newestOf_spec found).2.1
    refine ⟨row, mem_selectIn.mpr ⟨?_, ?_, parts.1⟩, parts.2⟩
    · rwa [key]
    · rwa [key]

theorem selectIn_keys_nodup (distinct : DistinctStamps KvRow.stamp kv) (range : KeyRange)
    (asOf : Option Int) :
    ((selectIn kv range asOf).map KvRow.key).Nodup := by
  refine List.pairwise_map.mpr ((distinct.filter _).imp_of_mem ?_)
  intro first second firstMem secondMem differ same
  have firstFound := (mem_selectIn.mp firstMem).2.1
  have secondFound := (mem_selectIn.mp secondMem).2.1
  rw [same, secondFound] at firstFound
  exact differ (congrArg KvRow.stamp (Option.some.inj firstFound).symm)

theorem selectIn_pairs_nodup (distinct : DistinctStamps KvRow.stamp kv) (range : KeyRange)
    (asOf : Option Int) :
    ((selectIn kv range asOf).map KvRow.toKeyValue).Nodup := by
  have keys := selectIn_keys_nodup distinct range asOf
  refine List.Nodup.of_map KeyValue.key ?_
  rw [List.map_map]
  exact keys

end

/-! ## Result pages -/

/-- The order of a page is total, transitive and, on pairs of distinct keys,
without ties. -/
instance (sort : Option SortOrder) : Std.Total (orderBy sort) where
  total first second := by
    cases sort with
    | none => exact le_total first.key second.key
    | some sort =>
      rcases lt_trichotomy (column sort.target first) (column sort.target second) with
        less | equal | greater
      · by_cases up : sort.ascending = true
        · exact Or.inl (Or.inl (by rwa [if_pos up]))
        · exact Or.inr (Or.inl (by rwa [if_neg up]))
      · rcases le_total first.key second.key with before | after
        · exact Or.inl (Or.inr ⟨equal, before⟩)
        · exact Or.inr (Or.inr ⟨equal.symm, after⟩)
      · by_cases up : sort.ascending = true
        · exact Or.inr (Or.inl (by rwa [if_pos up]))
        · exact Or.inl (Or.inl (by rwa [if_neg up]))

instance (sort : Option SortOrder) : IsTrans KeyValue (orderBy sort) where
  trans first second third := by
    cases sort with
    | none => exact le_trans
    | some sort =>
      intro before after
      rcases before with less | equal
      · rcases after with less' | equal'
        · refine Or.inl ?_
          by_cases up : sort.ascending = true
          · rw [if_pos up] at less less' ⊢
            exact less.trans less'
          · rw [if_neg up] at less less' ⊢
            exact less'.trans less
        · rw [equal'.1] at less
          exact Or.inl less
      · rcases after with less' | equal'
        · rw [← equal.1] at less'
          exact Or.inl less'
        · exact Or.inr ⟨equal.1.trans equal'.1, equal.2.trans equal'.2⟩

theorem orderBy_tie {sort : Option SortOrder} {first second : KeyValue}
    (before : orderBy sort first second) (after : orderBy sort second first) :
    first.key = second.key := by
  cases sort with
  | none => exact le_antisymm before after
  | some sort =>
    rcases before with less | equal
    · rcases after with less' | equal'
      · by_cases up : sort.ascending = true
        · rw [if_pos up] at less less'
          exact absurd less' less.asymm
        · rw [if_neg up] at less less'
          exact absurd less' less.asymm
      · rw [equal'.1] at less
        by_cases up : sort.ascending = true
        · rw [if_pos up] at less
          exact absurd less (lt_irrefl _)
        · rw [if_neg up] at less
          exact absurd less (lt_irrefl _)
    · rcases after with less' | equal'
      · rw [equal.1] at less'
        by_cases up : sort.ascending = true
        · rw [if_pos up] at less'
          exact absurd less' (lt_irrefl _)
        · rw [if_neg up] at less'
          exact absurd less' (lt_irrefl _)
      · exact le_antisymm equal.2 equal'.2

/-- A page depends on the set of selected pairs, not on the order in which
the table lists them. -/
theorem pageOf_congr (query : RangeQuery) {left right : List KeyValue}
    (leftKeys : (left.map KeyValue.key).Nodup) (rightKeys : (right.map KeyValue.key).Nodup)
    (same : forall pair, pair ∈ left <-> pair ∈ right) : pageOf query left = pageOf query right := by
  have leftNodup := List.Nodup.of_map KeyValue.key leftKeys
  have rightNodup := List.Nodup.of_map KeyValue.key rightKeys
  have sorted : left.insertionSort (orderBy query.sort) = right.insertionSort (orderBy query.sort) :=
    insertionSort_eq_of_mem_iff leftNodup rightNodup same fun first second firstMem secondMem before after =>
      List.inj_on_of_nodup_map leftKeys firstMem secondMem (orderBy_tie before after)
  have length : left.length = right.length :=
    ((List.perm_ext_iff_of_nodup leftNodup rightNodup).mpr same).length_eq
  unfold pageOf
  rw [sorted, length]

/-- Drop the value of a pair when only keys were asked for. -/
def trim (query : RangeQuery) (pair : KeyValue) : KeyValue :=
  if query.keysOnly then { pair with value := [] } else pair

/-- A page that lists pairs: the first `limit` of them in order, the number
of all of them, and whether some were cut. -/
theorem pageOf_listing {query : RangeQuery} (listing : query.countOnly = false) (rows : List KeyValue) :
    pageOf query rows =
      { kvs := ((if query.limit > 0 then (rows.insertionSort (orderBy query.sort)).take query.limit.toNat
          else rows.insertionSort (orderBy query.sort))).map (trim query)
        count := rows.length
        more := decide (query.limit > 0) && decide ((rows.length : Int) > query.limit) } := by
  have length := List.length_insertionSort (orderBy query.sort) rows
  unfold pageOf
  rw [listing, if_neg Bool.false_ne_true]
  by_cases limited : query.limit > 0
  · simp only [if_pos limited, List.length_map, List.length_take, length, decide_eq_true limited,
      Bool.true_and, decide_eq_true_eq, ← List.map_take, List.take_take]
    have count : (if (List.take (query.limit + 1).toNat (rows.insertionSort (orderBy query.sort))).isEmpty
        then (0 : Int) else rows.length) = rows.length := by
      by_cases empty : rows.length = 0
      · simp [empty]
      · refine if_neg ?_
        rw [List.isEmpty_iff_length_eq_zero, List.length_take, length]
        omega
    have cut : ((min (query.limit + 1).toNat rows.length : Nat) : Int) > query.limit <->
        (rows.length : Int) > query.limit := by omega
    rw [count, decide_eq_decide.mpr cut]
    congr 1
    by_cases more : (rows.length : Int) > query.limit
    · rw [if_pos (cut.mpr more), Nat.min_eq_left (by omega)]
      rfl
    · rw [if_neg (fun found => more (cut.mp found)), List.take_of_length_le (by omega),
        List.take_of_length_le (by omega)]
      rfl
  · simp only [if_neg limited, decide_eq_false limited, Bool.false_and, if_neg Bool.false_ne_true]
    congr 1
    by_cases empty : rows.length = 0
    · simp [empty]
    · refine if_neg ?_
      rw [List.isEmpty_iff_length_eq_zero, length]
      exact empty

theorem pageOf_current (range : KeyRange) (rows : List KeyValue) :
    pageOf (RangeQuery.current range) rows =
      { kvs := rows.insertionSort (orderBy none), count := rows.length, more := false } := by
  rw [pageOf_listing rfl]
  have same : trim (RangeQuery.current range) = id := rfl
  rw [same, List.map_id]
  rfl

section
variable {left right : List KvRow} {leftBound rightBound : Option Int}

/-- Tables with the same visible pairs answer every query of the range
alike. -/
theorem rangeIn_congr (leftDistinct : DistinctStamps KvRow.stamp left)
    (rightDistinct : DistinctStamps KvRow.stamp right) (range : KeyRange) (query : RangeQuery)
    (same : forall key, range.contains key = true -> visible left leftBound key = visible right rightBound key) :
    rangeIn left range leftBound query = rangeIn right range rightBound query := by
  refine pageOf_congr query ?_ ?_ fun pair => ?_
  · rw [List.map_map]
    exact selectIn_keys_nodup leftDistinct range leftBound
  · rw [List.map_map]
    exact selectIn_keys_nodup rightDistinct range rightBound
  · rw [mem_selectIn_map, mem_selectIn_map]
    refine and_congr_right fun inRange => ?_
    rw [same pair.key inRange]

/-- A plain read of a range at a revision. -/
def plainRead (range : KeyRange) (revision : Int) : RangeQuery :=
  { RangeQuery.current range with revision := revision }

theorem mem_rangeIn_plain {kv : List KvRow} {asOf : Option Int} {range : KeyRange} {revision : Int}
    {pair : KeyValue} :
    pair ∈ (rangeIn kv range asOf (plainRead range revision)).kvs <->
      range.contains pair.key = true ∧ visible kv asOf pair.key = some pair := by
  change pair ∈ (pageOf (RangeQuery.current range) _).kvs <-> _
  rw [pageOf_current, List.mem_insertionSort, mem_selectIn_map]

theorem mem_currentRangeIn {kv : List KvRow} {range : KeyRange} {pair : KeyValue} :
    pair ∈ currentRangeIn kv range <->
      range.contains pair.key = true ∧ currentIn kv pair.key = some pair :=
  (mem_rangeIn_plain : _ ∈ (rangeIn kv range none (plainRead range 0)).kvs <-> _)

theorem visible_iff_listed {kv : List KvRow} {asOf : Option Int} {range : KeyRange} {revision : Int}
    {key : Bytes} (inRange : range.contains key = true) {pair : KeyValue} :
    visible kv asOf key = some pair <->
      pair.key = key ∧ pair ∈ (rangeIn kv range asOf (plainRead range revision)).kvs := by
  rw [mem_rangeIn_plain]
  constructor
  · intro seen
    have same := visible_key seen
    subst same
    exact ⟨rfl, inRange, seen⟩
  · rintro ⟨rfl, _, seen⟩
    exact seen

theorem visible_eq_of_rangeIn_eq {range : KeyRange} {leftRevision rightRevision : Int}
    (same : (rangeIn left range leftBound (plainRead range leftRevision)).kvs =
      (rangeIn right range rightBound (plainRead range rightRevision)).kvs)
    {key : Bytes} (inRange : range.contains key = true) :
    visible left leftBound key = visible right rightBound key := by
  refine Option.ext fun pair => ?_
  rw [visible_iff_listed inRange, visible_iff_listed inRange, same]

end
end NotK8s.Nodestore

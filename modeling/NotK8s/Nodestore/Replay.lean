import NotK8s.Nodestore.History

namespace NotK8s.Nodestore

open Library

/-!
# Replay against live delivery

A live event carries the value its write replaced, read inside the
transaction.  A replayed event looks that value up again, by the revision the
row names and without the `sub`, and takes the first row the table lists.
The two agree exactly when, for every replayed row, that first row holds the
replaced value.  It does not when a transaction wrote the key more than once
with different results and a later write replaced the last of them.
-/

/-- The event a row was published as. -/
def trueEvent (kv : List KvRow) (row : KvRow) : Event where
  kind := if row.deleted then .delete else .put
  kv :=
    if row.deleted then { (default : KeyValue) with key := row.key, modRevision := row.revision }
    else row.toKeyValue
  prevKv := (olderOf kv row).bind KvRow.live

/-- The first row stored for a key at a revision. -/
def firstRowAt (kv : List KvRow) (key : Bytes) (revision : Int) : Option KvRow :=
  kv.find? fun row => row.key = key && row.revision = revision

/-- The live version a row replaced is the first one its revision stored. -/
def ReplacesFirst (kv : List KvRow) (row : KvRow) : Prop :=
  forall older, older ∈ olderOf kv row -> older.deleted = false ->
    (firstRowAt kv row.key older.revision).bind KvRow.live = some older.toKeyValue

instance (kv : List KvRow) (row : KvRow) : Decidable (ReplacesFirst kv row) :=
  inferInstanceAs (Decidable (forall older, older ∈ olderOf kv row -> older.deleted = false ->
    (firstRowAt kv row.key older.revision).bind KvRow.live = some older.toKeyValue))

theorem rowEvent_eq_iff (kv : List KvRow) (row : KvRow) :
    rowEvent kv row = trueEvent kv row <->
      rowAt kv row.key row.prevRevision = (olderOf kv row).bind KvRow.live := by
  unfold rowEvent trueEvent
  by_cases buried : row.deleted = true
  · simp [buried]
  · simp [buried]

/-- A linked row replays as it was published exactly when it replaces the
first version of the revision it names. -/
theorem rowEvent_eq_trueEvent_iff {kv : List KvRow} (positive : forall row, row ∈ kv -> 1 < row.revision)
    {row : KvRow} (linked : row.prevRevision = linkOf kv row) :
    rowEvent kv row = trueEvent kv row <-> ReplacesFirst kv row := by
  rw [rowEvent_eq_iff, linked, linkOf]
  unfold ReplacesFirst
  cases found : olderOf kv row with
  | none => exact iff_of_true rfl fun _ no => by cases no
  | some older =>
    change rowAt kv row.key ((older.live.map KeyValue.modRevision).getD 0) = older.live <-> _
    by_cases buried : older.deleted = true
    · rw [KvRow.live_of_deleted buried]
      refine iff_of_true rfl fun other same kept => ?_
      rw [← Option.mem_some.mp same, buried] at kept
      cases kept
    · have kept : older.deleted = false := Bool.eq_false_iff.mpr buried
      have revision := positive older (newestWhere_spec found).1
      rw [KvRow.live_of_not_deleted kept]
      change (if older.revision = 0 then none else _) = some older.toKeyValue <-> _
      rw [if_neg (by omega)]
      constructor
      · intro resolved other same _
        rw [← Option.mem_some.mp same]
        exact resolved
      · intro first
        exact first older rfl kept

/-! ## The rows of a replay -/

/-- The rows a replay reads, in apply order. -/
def replayOrder (kv : List KvRow) (since : Int) (range : KeyRange) : List KvRow :=
  (kv.filter fun row => rangePredicate range row.key && decide (row.revision > since)).insertionSort
    fun first second => first.stamp ≤ second.stamp

theorem mem_replayOrder {kv : List KvRow} {since : Int} {range : KeyRange} {row : KvRow} :
    row ∈ replayOrder kv since range <->
      row ∈ kv ∧ range.contains row.key = true ∧ since < row.revision := by
  unfold replayOrder
  rw [List.mem_insertionSort, List.mem_filter, Bool.and_eq_true, decide_eq_true_eq, rangePredicate_eq_contains]

theorem replayOrder_sorted {kv : List KvRow} (distinct : DistinctStamps KvRow.stamp kv) (since : Int)
    (range : KeyRange) : KeySorted KvRow.stamp (replayOrder kv since range) := by
  have ordered := List.pairwise_insertionSort (fun first second : KvRow => first.stamp ≤ second.stamp)
    (kv.filter fun row => rangePredicate range row.key && decide (row.revision > since))
  have different : DistinctStamps KvRow.stamp (replayOrder kv since range) := by
    have permutation := List.perm_insertionSort (fun first second : KvRow => first.stamp ≤ second.stamp)
      (kv.filter fun row => rangePredicate range row.key && decide (row.revision > since))
    exact (permutation.pairwise_iff fun differ => differ.symm).mpr (distinct.filter _)
  exact (ordered.and different).imp fun both => lt_of_le_of_ne both.1 both.2

theorem replayOrder_pruneRows {kv : List KvRow} {c since : Int} (above : c ≤ since) (range : KeyRange) :
    replayOrder (pruneRows kv c) since range = replayOrder kv since range := by
  unfold replayOrder
  rw [filter_pruneRows]
  intro row kept
  exact lt_of_le_of_lt above (of_decide_eq_true (Bool.and_eq_true_iff.mp kept).2)

theorem eventsSince_available {db : Db} {since : Int} (available : db.compactRevision ≤ since)
    (range : KeyRange) :
    db.eventsSince since range =
      .ok ((replayOrder db.kv since range).map fun row => (row.revision, rowEvent db.kv row)) :=
  if_neg (not_lt.mpr available)

theorem rowEvent_key (kv : List KvRow) (row : KvRow) : (rowEvent kv row).kv.key = row.key := by
  unfold rowEvent
  cases row.deleted <;> rfl

theorem rowEvent_prevKv (kv : List KvRow) (row : KvRow) :
    (rowEvent kv row).prevKv = rowAt kv row.key row.prevRevision := by
  unfold rowEvent
  cases row.deleted <;> rfl

theorem rowEvent_kind_put {kv : List KvRow} {row : KvRow} (put : (rowEvent kv row).kind = .put) :
    row.deleted = false := by
  unfold rowEvent at put
  cases kept : row.deleted with
  | false => rfl
  | true =>
    rw [kept] at put
    cases put

/-! ## The published events -/

/-- Above the compaction point the published events are those of the stored
rows, in the order of the table. -/
def Publishes (kv : List KvRow) (compactRevision : Int) (events : List (Int × Event)) : Prop :=
  (events.filter fun stamped => decide (compactRevision < stamped.1)) =
    (kv.filter fun row => decide (compactRevision < row.revision)).map fun row =>
      (row.revision, trueEvent kv row)

theorem trueEvent_concat {kv : List KvRow} {row stored : KvRow}
    (fresh : forall stored, stored ∈ kv -> stored.stamp < row.stamp) (member : stored ∈ kv) :
    trueEvent (kv ++ [row]) stored = trueEvent kv stored := by
  unfold trueEvent
  rw [olderOf_concat fresh member]

theorem WriteStep.publishes {kv kv' : List KvRow} {w w' : Writer} (step : WriteStep kv w kv' w')
    (fresh : FreshWriter kv w) :
    Exists fun row : KvRow => kv' = kv ++ [row] ∧ row.revision = w.next ∧ row.sub = w.sub ∧
      w' = w.wrote (trueEvent kv' row) := by
  cases step with
  | put key value lease =>
    refine ⟨_, rfl, rfl, rfl, congrArg w.wrote ?_⟩
    unfold trueEvent
    rw [olderOf_newest fun stored member => fresh.stamp_lt rfl rfl member]
    rfl
  | delete prev current =>
    refine ⟨_, rfl, rfl, rfl, congrArg w.wrote ?_⟩
    unfold trueEvent
    rw [olderOf_newest fun stored member => fresh.stamp_lt rfl rfl member]
    change deleteEvent w prev = { kind := .delete, kv := _, prevKv := currentIn kv prev.key }
    rw [current]
    rfl

theorem Publishes.writes {kv kv' : List KvRow} {w w' : Writer} {c : Int} {earlier : List (Int × Event)}
    (fresh : FreshWriter kv w) (below : c < w.next)
    (publishes : Publishes kv c (earlier ++ w.events.map fun event => (w.next, event)))
    (writes : Writes kv w kv' w') :
    Publishes kv' c (earlier ++ w'.events.map fun event => (w'.next, event)) := by
  induction writes with
  | refl => exact publishes
  | tail sofar step ih =>
    have freshNow := fresh.writes sofar
    have next := sofar.next_eq
    rcases step.publishes freshNow with ⟨row, rfl, revision, sub, rfl⟩
    have above : forall stored : KvRow, stored ∈ _ -> stored.stamp < row.stamp := fun _ member =>
      freshNow.stamp_lt revision sub member
    unfold Publishes at ih ⊢
    rw [Writer.wrote_events, Writer.wrote_next, List.map_append, ← List.append_assoc, List.filter_append,
      ih, List.filter_append, List.map_append]
    have shown : c < row.revision := by
      rw [revision, next]
      exact below
    congr 1
    · refine List.map_congr_left fun stored member => ?_
      rw [trueEvent_concat above (List.mem_of_mem_filter member)]
    · rw [List.map_singleton, List.filter_cons_of_pos, List.filter_cons_of_pos, List.filter_nil,
        List.filter_nil, List.map_singleton, revision]
      · exact decide_eq_true shown
      · rw [← revision]
        exact decide_eq_true shown

theorem trueEvent_pruneRows {kv : List KvRow} {c : Int} (distinct : DistinctStamps KvRow.stamp kv)
    {row : KvRow} (above : c < row.revision) : trueEvent (pruneRows kv c) row = trueEvent kv row := by
  unfold trueEvent olderOf
  rw [newestWhere_pruneRows_live distinct]
  intro other below
  apply decide_eq_true
  exact (KvRow.stamp_lt_iff other row).mpr (Or.inl (lt_of_le_of_lt below above))

/-- What is kept of the events above the point is what is kept of the rows. -/
theorem Publishes.restrict {kv : List KvRow} {c : Int} {events : List (Int × Event)}
    (publishes : Publishes kv c events) {keep : Int × Event -> Bool} {keepRow : KvRow -> Bool}
    (same : forall row, keep (row.revision, trueEvent kv row) = keepRow row)
    (above : forall stamped, keep stamped = true -> c < stamped.1) :
    events.filter keep = (kv.filter keepRow).map fun row => (row.revision, trueEvent kv row) := by
  have stamped : events.filter keep =
      (events.filter fun stamped => decide (c < stamped.1)).filter keep := by
    rw [List.filter_filter]
    refine List.filter_congr fun stamped _ => ?_
    by_cases kept : keep stamped = true
    · rw [kept, decide_eq_true (above stamped kept)]
      rfl
    · rw [Bool.eq_false_iff.mpr kept, Bool.false_and]
  rw [stamped, publishes, List.filter_map, List.filter_filter]
  refine congrArg (List.map _) (List.filter_congr fun row _ => ?_)
  rw [← same row]
  by_cases kept : keep (row.revision, trueEvent kv row) = true
  · have shown : c < row.revision := above _ kept
    simp only [Function.comp, kept, decide_eq_true shown, Bool.and_self]
  · simp only [Function.comp, Bool.eq_false_iff.mpr kept, Bool.false_and]

theorem Publishes.mono {kv : List KvRow} {c later : Int} {events : List (Int × Event)}
    (publishes : Publishes kv c events) (order : c ≤ later) : Publishes kv later events :=
  publishes.restrict (fun _ => rfl) fun _ shown => lt_of_le_of_lt order (of_decide_eq_true shown)

theorem Publishes.pruneRows {kv : List KvRow} {c later : Int} {events : List (Int × Event)}
    (distinct : DistinctStamps KvRow.stamp kv) (publishes : Publishes kv c events) (order : c ≤ later) :
    Publishes (pruneRows kv later) later events := by
  have before := publishes.mono order
  unfold Publishes at before ⊢
  rw [before, filter_pruneRows fun row shown => of_decide_eq_true shown]
  refine List.map_congr_left fun row member => ?_
  rw [trueEvent_pruneRows distinct (of_decide_eq_true (List.mem_filter.mp member).2)]

theorem history_publishes (entries : List (Nat × Command)) :
    KeySorted KvRow.stamp (history entries).store.db.kv ∧
      Publishes (history entries).store.db.kv (history entries).store.db.compactRevision
        (history entries).published := by
  refine @history_induction
    (fun h => KeySorted KvRow.stamp h.store.db.kv ∧
      Publishes h.store.db.kv h.store.db.compactRevision h.published) ?_ ?_ entries
  · exact ⟨List.Pairwise.nil, rfl⟩
  · rintro h index cmd applied store reachable ⟨sorted, publishes⟩ success
    have wellFormed := reachable.wellFormed
    rcases wellFormed.accepted success with ⟨tx, w, accepted⟩
    rw [accepted.stamped_eq, accepted.db]
    cases accepted.effect with
    | writes written same =>
      refine ⟨written.sorted wellFormed.freshWriter sorted, ?_⟩
      rw [same.compactRevision]
      refine Publishes.writes wellFormed.freshWriter (Int.lt_add_one_of_le wellFormed.compactLe) ?_ written
      rw [Writer.opened, List.map_nil, List.append_nil]
      exact publishes
    | compact above reached =>
      refine ⟨sorted.sublist (pruneRows_sublist _ _), ?_⟩
      rw [Writer.opened, List.map_nil, List.append_nil]
      exact publishes.pruneRows wellFormed.distinct above.le

/-! ## Replay -/

/-- The events of a range after a revision, out of those published. -/
def publishedSince (events : List (Int × Event)) (since : Int) (range : KeyRange) : List (Int × Event) :=
  events.filter fun stamped => range.contains stamped.2.kv.key && decide (since < stamped.1)

theorem trueEvent_key (kv : List KvRow) (row : KvRow) : (trueEvent kv row).kv.key = row.key := by
  unfold trueEvent
  by_cases buried : row.deleted = true
  · simp [buried]
  · simp [buried]
    rfl

/-- In a table in stamp order a replay reads the rows as they are listed. -/
theorem replayOrder_of_sorted {kv : List KvRow} (sorted : KeySorted KvRow.stamp kv) (since : Int)
    (range : KeyRange) :
    replayOrder kv since range =
      kv.filter fun row => range.contains row.key && decide (since < row.revision) := by
  have rows : (kv.filter fun row => rangePredicate range row.key && decide (row.revision > since)) =
      kv.filter fun row => range.contains row.key && decide (since < row.revision) :=
    List.filter_congr fun row _ => by rw [rangePredicate_eq_contains]
  unfold replayOrder
  rw [rows]
  exact List.Pairwise.insertionSort_eq ((sorted.filter _).imp le_of_lt)

/-- What was published of a range is the rows a replay reads, each as it was
published. -/
theorem publishedSince_eq {db : Db} (sorted : KeySorted KvRow.stamp db.kv) {events : List (Int × Event)}
    (publishes : Publishes db.kv db.compactRevision events) {since : Int}
    (available : db.compactRevision ≤ since) (range : KeyRange) :
    publishedSince events since range =
      (replayOrder db.kv since range).map fun row => (row.revision, trueEvent db.kv row) := by
  rw [replayOrder_of_sorted sorted]
  refine publishes.restrict (fun row => ?_) fun stamped kept => ?_
  · rw [trueEvent_key]
  · exact lt_of_le_of_lt available (of_decide_eq_true (Bool.and_eq_true_iff.mp kept).2)

/-- A replay of a range equals what was published exactly when every row it
reads replaced the first version of the revision it names. -/
theorem eventsSince_eq_published_iff {db : Db} (wellFormed : db.WellFormed)
    (sorted : KeySorted KvRow.stamp db.kv) {events : List (Int × Event)}
    (publishes : Publishes db.kv db.compactRevision events) {since : Int}
    (available : db.compactRevision ≤ since) (range : KeyRange) :
    db.eventsSince since range = .ok (publishedSince events since range) <->
      forall row, row ∈ db.kv -> range.contains row.key = true -> since < row.revision ->
        ReplacesFirst db.kv row := by
  have live := publishedSince_eq sorted publishes available range
  rw [eventsSince_available available, live, Except.ok.injEq, List.map_inj_left]
  constructor
  · intro equal row member inside shown
    have linked := wellFormed.linked row member (lt_of_le_of_lt available shown)
    refine (rowEvent_eq_trueEvent_iff wellFormed.positive linked).mp ?_
    exact (Prod.mk.inj (equal row (mem_replayOrder.mpr ⟨member, inside, shown⟩))).2
  · intro first row replayed
    have parts := mem_replayOrder.mp replayed
    have linked := wellFormed.linked row parts.1 (lt_of_le_of_lt available parts.2.2)
    rw [(rowEvent_eq_trueEvent_iff wellFormed.positive linked).mpr
      (first row parts.1 parts.2.1 parts.2.2)]

/-- For every command sequence and every revision not compacted away, a
replay is the published events exactly when each replayed row replaced the
first version of the revision it names. -/
theorem replay_eq_published_iff (entries : List (Nat × Command)) (since : Int)
    (available : (history entries).store.db.compactRevision ≤ since) :
    (history entries).store.db.eventsSince since .all =
        .ok ((history entries).published.filter fun stamped => decide (since < stamped.1)) <->
      forall row, row ∈ (history entries).store.db.kv -> since < row.revision ->
        ReplacesFirst (history entries).store.db.kv row := by
  have facts := history_publishes entries
  have iff := eventsSince_eq_published_iff (history_wellFormed entries) facts.1 facts.2 available .all
  simp only [publishedSince, KeyRange.contains, Bool.true_and, true_imp_iff] at iff
  exact iff

/-- Three commands whose rows all replace the first version. -/
theorem overwrittenKey_replay_eq_published :
    let put (value : String) : Command :=
      .put { key := ascii "/a", value := ascii value, lease := 0, prevKv := false,
             ignoreValue := false, ignoreLease := false }
    let entries : List (Nat × Command) :=
      [(1, put "one"), (2, put "two"), (3, .delete { range := .all, prevKv := false })]
    (history entries).store.db.eventsSince 2 .all =
      .ok ((history entries).published.filter fun stamped => decide (2 < stamped.1)) :=
  (replay_eq_published_iff _ 2 (by decide)).mpr (by decide)

/-- A transaction writes a key twice and a later put replaces the second
value. -/
def rewrittenKey : List (Nat × Command) :=
  let put (value : String) : PutOp :=
    { key := ascii "/a", value := ascii value, lease := 0, prevKv := false,
      ignoreValue := false, ignoreLease := false }
  [(1, .txn { compare := [], success := [.put (put "one"), .put (put "two")], failure := [] }),
    (2, .put (put "three"))]

/-- The replay then reports the first value as the previous one. -/
theorem rewrittenKey_replay_differs :
    (history rewrittenKey).store.db.compactRevision ≤ 2 ∧
      (history rewrittenKey).store.db.eventsSince 2 .all ≠
        .ok ((history rewrittenKey).published.filter fun stamped => decide (2 < stamped.1)) := by
  decide

end NotK8s.Nodestore

import NotK8s.Nodestore.Compaction

namespace NotK8s.Nodestore

open Library

/-!
# When a compaction is invisible

Everything a client can ask of a store is asked of a store that accepted a
compaction and of the same store without it.  Reads above the point and
current values agree always.  Replays agree exactly when every row above the
point that replaced a version up to it replaced the first one of its
revision, and later commands exactly when the reads their transactions make
up to the point see nothing that was removed.
-/

/-- A row above the point that replaced a version up to it replaced the first
version of that revision. -/
def ReplacesFirstBelow (kv : List KvRow) (c : Int) (row : KvRow) : Prop :=
  forall older, older ∈ olderOf kv row -> older.deleted = false -> older.revision ≤ c ->
    (firstRowAt kv row.key older.revision).bind KvRow.live = some older.toKeyValue

instance (kv : List KvRow) (c : Int) (row : KvRow) : Decidable (ReplacesFirstBelow kv c row) :=
  inferInstanceAs (Decidable (forall older, older ∈ olderOf kv row -> older.deleted = false ->
    older.revision ≤ c -> (firstRowAt kv row.key older.revision).bind KvRow.live = some older.toKeyValue))

/-- One command on a pair of stores. -/
def pairAfter (stores : Store × Store) (entry : Nat × Command) : Store × Store :=
  (stores.1.after entry, stores.2.after entry)

/-- What must agree between a store `s` and the store `t` it becomes by a
compaction at `c`, with `later` the commands applied to both afterwards. -/
structure Invisible (s t : Store) (c : Int) (later : List (Nat × Command)) : Prop where
  reads : forall q : RangeQuery, q.revision ≤ 0 ∨ c < q.revision -> (t.range q).1 = (s.range q).1
  replays : forall since range, c ≤ since -> t.db.eventsSince since range = s.db.eventsSince since range
  current : forall key, currentIn t.db.kv key = currentIn s.db.kv key
  commands : EveryStep pairAfter (fun stores entry => SameOutcome stores.1 stores.2 entry) (s, t) later

section
variable {s t : Store} {c : Int}

/-! ## Replays -/

theorem firstRowAt_pruneRows_above {kv : List KvRow} {revision : Int} (above : c < revision) (key : Bytes) :
    firstRowAt (pruneRows kv c) key revision = firstRowAt kv key revision := by
  unfold firstRowAt
  rw [← List.head?_filter, ← List.head?_filter, filter_pruneRows]
  intro row kept
  have same : row.revision = revision := of_decide_eq_true (Bool.and_eq_true_iff.mp kept).2
  rw [same]
  exact above

/-- The version a row above the point replaced is the only one the pruned
table has at its revision. -/
theorem firstRowAt_pruneRows_below {kv : List KvRow} {key : Bytes} {older : KvRow}
    (newest : newestOf kv (some c) key = some older)
    (alive : older.deleted = false) : firstRowAt (pruneRows kv c) key older.revision = some older := by
  have spec := newestOf_spec newest
  have below : older.revision ≤ c := of_decide_eq_true spec.2.2
  have kept : older ∈ pruneRows kv c := by
    refine mem_pruneRows.mpr ⟨spec.1, fun _ => ⟨?_, alive⟩⟩
    rw [spec.2.1]
    exact newest
  cases found : firstRowAt (pruneRows kv c) key older.revision with
  | none =>
    have missing := List.find?_eq_none.mp found older kept
    simp [spec.2.1] at missing
  | some row =>
    have member := List.mem_of_find?_eq_some found
    have place := List.find?_some found
    rw [Bool.and_eq_true, decide_eq_true_eq, decide_eq_true_eq] at place
    have top := ((mem_pruneRows.mp member).2 (place.2.le.trans below)).1
    rw [place.1, newest] at top
    exact top.symm

/-- A row above the point resolves its previous value alike before and after
exactly when it replaced the first version of the revision it names. -/
theorem rowAt_pruneRows_iff {kv : List KvRow} (distinct : DistinctStamps KvRow.stamp kv)
    (positive : forall row, row ∈ kv -> 1 < row.revision) {row : KvRow}
    (linked : row.prevRevision = linkOf kv row) (above : c < row.revision) :
    rowAt (pruneRows kv c) row.key row.prevRevision = rowAt kv row.key row.prevRevision <->
      ReplacesFirstBelow kv c row := by
  rw [linked, linkOf]
  unfold ReplacesFirstBelow
  cases found : olderOf kv row with
  | none => exact iff_of_true rfl fun _ no => by cases no
  | some older =>
    change rowAt (pruneRows kv c) row.key ((older.live.map KeyValue.modRevision).getD 0) =
      rowAt kv row.key ((older.live.map KeyValue.modRevision).getD 0) <-> _
    by_cases buried : older.deleted = true
    · rw [KvRow.live_of_deleted buried]
      refine iff_of_true rfl fun other same kept _ => ?_
      rw [← Option.mem_some.mp same, buried] at kept
      cases kept
    · have alive : older.deleted = false := Bool.eq_false_iff.mpr buried
      have revision := positive older (newestWhere_spec found).1
      have lookup : forall table : List KvRow, rowAt table row.key older.revision =
          (firstRowAt table row.key older.revision).bind KvRow.live :=
        fun table => if_neg (by omega)
      rw [KvRow.live_of_not_deleted alive]
      change rowAt (pruneRows kv c) row.key older.revision = rowAt kv row.key older.revision <-> _
      rw [lookup, lookup]
      by_cases below : older.revision ≤ c
      · have covers : Covers (fun other => decide (other.stamp < row.stamp)) c := fun other inside =>
          decide_eq_true ((KvRow.stamp_lt_iff other row).mpr (Or.inl (lt_of_le_of_lt inside above)))
        rw [firstRowAt_pruneRows_below (newestOf_at_point distinct covers found below) alive]
        change older.live = _ <-> _
        rw [KvRow.live_of_not_deleted alive]
        constructor
        · intro same other member _ _
          rw [← Option.mem_some.mp member]
          exact same.symm
        · intro first
          exact (first older rfl alive below).symm
      · rw [firstRowAt_pruneRows_above (not_le.mp below)]
        refine iff_of_true rfl fun other member _ inside => ?_
        rw [← Option.mem_some.mp member] at inside
        exact absurd inside below

theorem rowEvent_eq_rowEvent_iff (kv kv' : List KvRow) (row : KvRow) :
    rowEvent kv' row = rowEvent kv row <->
      rowAt kv' row.key row.prevRevision = rowAt kv row.key row.prevRevision := by
  unfold rowEvent
  cases row.deleted <;> simp

theorem replays_iff (wellFormed : s.db.WellFormed) (above : s.db.compactRevision < c)
    (follows : Follows c s.db t.db) :
    (forall since range, c ≤ since -> t.db.eventsSince since range = s.db.eventsSince since range) <->
      forall row, row ∈ s.db.kv -> c < row.revision -> ReplacesFirstBelow s.db.kv c row := by
  have sameReplay : forall since range, c ≤ since ->
      (t.db.eventsSince since range = s.db.eventsSince since range <->
        forall row, row ∈ replayOrder s.db.kv since range -> ReplacesFirstBelow s.db.kv c row) := by
    intro since range available
    have availableThere : t.db.compactRevision ≤ since := by
      rw [follows.compactRevision, max_eq_right above.le]
      exact available
    rw [eventsSince_available availableThere, eventsSince_available (above.le.trans available), follows.kv,
      replayOrder_pruneRows available, Except.ok.injEq, List.map_inj_left]
    refine forall_congr' fun row => forall_congr' fun replayed => ?_
    have parts := mem_replayOrder.mp replayed
    have shown := lt_of_le_of_lt available parts.2.2
    rw [Prod.mk.injEq, and_iff_right rfl, rowEvent_eq_rowEvent_iff]
    exact rowAt_pruneRows_iff wellFormed.distinct wellFormed.positive
      (wellFormed.linked row parts.1 (above.trans shown)) shown
  constructor
  · intro same row member shown
    exact (sameReplay c .all le_rfl).mp (same c .all le_rfl) row (mem_replayOrder.mpr ⟨member, rfl, shown⟩)
  · intro first since range available
    refine (sameReplay since range available).mpr fun row replayed => ?_
    have parts := mem_replayOrder.mp replayed
    exact first row parts.1 (lt_of_le_of_lt available parts.2.2)

/-! ## Reads -/

theorem range_eq_of_follows (wellFormed : s.db.WellFormed) (above : s.db.compactRevision < c)
    (reached : c ≤ s.db.revision) (follows : Follows c s.db t.db) (cache : t.rbacCache = s.rbacCache)
    {q : RangeQuery} (retained : q.revision ≤ 0 ∨ c < q.revision) : (t.range q).1 = (s.range q).1 := by
  have selection : t.db.readRevision q = s.db.readRevision q := by
    unfold Db.readRevision
    rw [follows.revision, follows.compactRevision, max_eq_right above.le]
    rcases retained with now | later
    · rw [if_neg (not_lt.mpr now), if_neg (not_lt.mpr now)]
    · rw [if_neg (not_le.mpr later), if_neg (not_le.mpr (above.trans later))]
  have hits : forall asOf, t.cachedList q asOf = s.cachedList q asOf := by
    intro asOf
    unfold Store.cachedList
    rw [cache]
  unfold Store.range
  rw [selection]
  cases selected : s.db.readRevision q with
  | error refusal => rfl
  | ok asOf =>
    dsimp only
    rw [hits]
    cases s.cachedList q asOf with
    | some result => rfl
    | none =>
      have covered : c ≤ asOf := by
        rcases retained with now | later
        · rw [readRevision_current now] at selected
          cases selected
          exact reached
        · exact le_readRevision selected later.le reached
      rw [follows.kv, rangeIn_pruneRows wellFormed.distinct (covers_within_some covered)]

/-! ## Later commands -/

theorem sameOutcomes_iff (wellFormed : s.db.WellFormed) (reached : c ≤ s.db.revision)
    (follows : Follows c s.db t.db) (later : List (Nat × Command)) :
    EveryStep pairAfter (fun stores entry => SameOutcome stores.1 stores.2 entry) (s, t) later <->
      EveryStep Store.after (KeptEntry c) s later := by
  induction later generalizing s t with
  | nil => exact Iff.rfl
  | cons entry rest ih =>
    have now := sameOutcome_iff wellFormed reached follows entry
    have next := after_wellFormed wellFormed entry
    exact and_congr now.1 (ih next.1 (reached.trans next.2) now.2)

end

end NotK8s.Nodestore

import NotK8s.Library.Grouping
import NotK8s.Nodestore.History

namespace NotK8s.Nodestore

open Library

/-!
# When a snapshot can be restored

`export_snapshot` lists live pairs in key order and `restore_snapshot` counts
`sub` up only while consecutive pairs share a revision.  Pairs of one
revision that another revision interleaves are numbered from zero twice, the
second insert violates the primary key, and the whole restore rolls back.
Nothing else can go wrong, so a snapshot restores, and reproduces the current
state, exactly when in key order equal revisions are adjacent.
-/

/-- Two stores hold the same current state. -/
structure SameCurrent (s t : Store) : Prop where
  reads : forall q : RangeQuery, q.revision ≤ 0 -> (t.range q).1 = (s.range q).1
  revision : t.db.revision = s.db.revision
  leases : t.db.leases = s.db.leases
  members : t.db.members = s.db.members
  appliedIndex : t.db.appliedIndex = s.db.appliedIndex

/-- In key order, live pairs with equal revisions are adjacent. -/
def ContiguousRevisions (kv : List KvRow) : Prop :=
  forall first middle last : KeyValue,
    currentIn kv first.key = some first -> currentIn kv middle.key = some middle ->
    currentIn kv last.key = some last -> first.key < middle.key -> middle.key < last.key ->
    first.modRevision = last.modRevision -> middle.modRevision = first.modRevision

theorem restoredRows_stamps (pairs : List KeyValue) (lastRevision : Int) (sub : Nat) :
    (restoredRows pairs lastRevision sub).map (fun row => (row.revision, row.sub)) =
      numbered (pairs.map KeyValue.modRevision) lastRevision sub := by
  induction pairs generalizing lastRevision sub with
  | nil => rfl
  | cons pair rest ih =>
    simp only [restoredRows, List.map_cons, numbered, ih, restoredRow, nextSub]

theorem distinct_restored_iff_grouped {db : Db} (wellFormed : db.WellFormed) :
    DistinctStamps KvRow.stamp db.exportSnapshot.restored.kv <->
      Grouped (db.exportSnapshot.kvs.map KeyValue.modRevision) := by
  have stamps : DistinctStamps KvRow.stamp db.exportSnapshot.restored.kv <->
      (numbered (db.exportSnapshot.kvs.map KeyValue.modRevision) i64Min 0).Nodup := by
    rw [← restoredRows_stamps, List.Nodup, List.pairwise_map]
    refine List.Pairwise.iff fun first second => not_congr ?_
    rw [KvRow.stamp_eq_iff, Prod.mk.injEq]
  have absent : i64Min ∉ db.exportSnapshot.kvs.map KeyValue.modRevision := by
    intro member
    rcases List.mem_map.mp member with ⟨pair, listed, equal⟩
    rcases Option.bind_eq_some_iff.mp ((mem_export wellFormed.below).mp listed) with ⟨row, found, alive⟩
    have positive := wellFormed.positive row (newestOf_spec found).1
    rw [← (KvRow.live_key alive).2, equal] at positive
    exact absurd positive (by decide)
  rw [stamps, numbered_nodup_iff absent]

theorem distinct_restored_iff {db : Db} (wellFormed : db.WellFormed) :
    DistinctStamps KvRow.stamp db.exportSnapshot.restored.kv <-> ContiguousRevisions db.kv := by
  rw [distinct_restored_iff_grouped wellFormed, grouped_map_iff (export_sorted wellFormed.distinct)]
  simp only [mem_export wellFormed.below]
  exact Iff.rfl

theorem restored_sameCurrent {s t : Store} (wellFormed : s.db.WellFormed)
    (uncached : s.rbacCache = fun _ => none) (empty : t.rbacCache = fun _ => none)
    (db : t.db = s.db.exportSnapshot.restored)
    (distinct : DistinctStamps KvRow.stamp s.db.exportSnapshot.restored.kv) : SameCurrent s t := by
  refine ⟨fun q current => ?_, ?_, ?_, ?_, ?_⟩
  · rw [range_of_not_cached fun asOf _ => cachedList_empty uncached q asOf,
      range_of_not_cached fun asOf _ => cachedList_empty empty q asOf]
    unfold Db.uncachedRange
    rw [readRevision_current current, readRevision_current current, db]
    refine congrArg Except.ok (rangeIn_congr distinct wellFormed.distinct q.range q fun key _ => ?_)
    refine Option.ext fun pair => ?_
    have sorted := export_sorted wellFormed.distinct
    change visible (restoredRows s.db.exportSnapshot.kvs i64Min 0) (some s.db.revision) key = some pair <-> _
    rw [visible_restored sorted distinct, mem_export wellFormed.below, visible_unbounded wellFormed.below,
      ← currentIn_eq_visible]
    constructor
    · rintro ⟨listed, rfl, _⟩
      exact listed
    · intro seen
      have same := visible_key seen
      subst same
      refine ⟨seen, rfl, decide_eq_true ?_⟩
      rw [currentIn_eq_visible, ← visible_unbounded wellFormed.below] at seen
      exact visible_modRevision_le seen
  · rw [db]
    rfl
  · rw [db]
    rfl
  · rw [db]
    rfl
  · rw [db]
    rfl

/-- After any commands, on any target, a snapshot restores and reproduces
the current state exactly when equal revisions are adjacent in key order. -/
theorem restoreSnapshot_roundTrip_iff (entries : List (Nat × Command)) (target : Store) :
    (Exists fun restored : Store =>
      target.restoreSnapshot (history entries).store.db.exportSnapshot = .ok restored ∧
        SameCurrent (history entries).store restored) <->
      ContiguousRevisions (history entries).store.db.kv := by
  have wellFormed := history_wellFormed entries
  rw [← distinct_restored_iff wellFormed]
  constructor
  · rintro ⟨restored, success, _⟩
    exact ((restoreSnapshot_ok_iff wellFormed.leases wellFormed.members).mp success).1
  · intro distinct
    refine ⟨_, (restoreSnapshot_ok_iff wellFormed.leases wellFormed.members).mpr ⟨distinct, rfl⟩, ?_⟩
    exact restored_sameCurrent wellFormed (history_uncached entries) rfl rfl distinct

/-- One transaction writes `/a` and `/c`, and a later command writes `/b`. -/
def interleavedWrites : List (Nat × Command) :=
  let put (key : String) : PutOp :=
    { key := ascii key, value := ascii "v", lease := 0, prevKv := false,
      ignoreValue := false, ignoreLease := false }
  [(1, .txn { compare := [], success := [.put (put "/a"), .put (put "/c")], failure := [] }),
    (2, .put (put "/b"))]

/-- The snapshot of the interleaved writes fails to restore on the `UNIQUE`
constraint. -/
theorem interleavedWrites_not_restored :
    ¬ Exists fun restored : Store =>
      Store.fresh.restoreSnapshot (history interleavedWrites).store.db.exportSnapshot = .ok restored ∧
        SameCurrent (history interleavedWrites).store restored := by
  rintro ⟨restored, success, _⟩
  have wellFormed := history_wellFormed interleavedWrites
  have distinct := ((restoreSnapshot_ok_iff wellFormed.leases wellFormed.members).mp success).1
  exact absurd distinct (by decide)

end NotK8s.Nodestore

import NotK8s.Library.Keyed
import NotK8s.Nodestore.Store
import NotK8s.Nodestore.Queries

namespace NotK8s.Nodestore

open Library

/-!
# Restoring a snapshot

A snapshot lists the live pairs in key order.  Restoring it inserts one row
for each, so the restored table holds one version of every live key and its
reads are read off the list.  Whether the inserts succeed depends only on the
`sub` numbers handed out along the way.
-/

section
variable {kv : List KvRow} {asOf : Option Int}

theorem rangeIn_plain_sorted (distinct : DistinctStamps KvRow.stamp kv) (range : KeyRange) (revision : Int) :
    KeySorted KeyValue.key (rangeIn kv range asOf (plainRead range revision)).kvs := by
  change KeySorted KeyValue.key (pageOf (RangeQuery.current range) _).kvs
  rw [pageOf_current]
  have permutation := ((selectIn kv range asOf).map KvRow.toKeyValue).perm_insertionSort (orderBy none)
  have keys : ((((selectIn kv range asOf).map KvRow.toKeyValue).insertionSort (orderBy none)).map
      KeyValue.key).Nodup := by
    rw [(permutation.map KeyValue.key).nodup_iff, List.map_map]
    exact selectIn_keys_nodup distinct range asOf
  have ordered := List.pairwise_insertionSort (orderBy none) ((selectIn kv range asOf).map KvRow.toKeyValue)
  exact (ordered.and (List.pairwise_map.mp keys)).imp fun both => lt_of_le_of_ne both.1 both.2

theorem export_sorted {db : Db} (distinct : DistinctStamps KvRow.stamp db.kv) :
    KeySorted KeyValue.key db.exportSnapshot.kvs :=
  rangeIn_plain_sorted distinct .all 0

theorem mem_export {db : Db} (below : forall row, row ∈ db.kv -> row.revision ≤ db.revision)
    {pair : KeyValue} :
    pair ∈ db.exportSnapshot.kvs <-> currentIn db.kv pair.key = some pair := by
  have listed : pair ∈ db.exportSnapshot.kvs <->
      KeyRange.all.contains pair.key = true ∧ visible db.kv (some db.revision) pair.key = some pair :=
    (mem_rangeIn_plain : _ ∈ (rangeIn db.kv .all (some db.revision) (plainRead .all 0)).kvs <-> _)
  rw [listed, visible_unbounded below, currentIn_eq_visible]
  exact and_iff_right rfl

end

/-! ## The inserted rows -/

/-- The row a restored pair is stored as. -/
def restoredRow (pair : KeyValue) (sub : Nat) : KvRow where
  revision := pair.modRevision
  sub := sub
  key := pair.key
  value := some pair.value
  createRevision := pair.createRevision
  version := pair.version
  lease := pair.lease
  deleted := false
  prevRevision := 0

@[simp] theorem restoredRow_toKeyValue (pair : KeyValue) (sub : Nat) :
    (restoredRow pair sub).toKeyValue = pair := rfl

/-- The `sub` the next pair gets. -/
def nextSub (pair : KeyValue) (lastRevision : Int) (sub : Nat) : Nat :=
  if pair.modRevision = lastRevision then sub + 1 else 0

/-- The rows of a snapshot, whether or not their stamps clash. -/
def restoredRows : List KeyValue -> Int -> Nat -> List KvRow
  | [], _, _ => []
  | pair :: rest, lastRevision, sub =>
    restoredRow pair (nextSub pair lastRevision sub) ::
      restoredRows rest pair.modRevision (nextSub pair lastRevision sub)

theorem restoredRows_toKeyValue (pairs : List KeyValue) (lastRevision : Int) (sub : Nat) :
    (restoredRows pairs lastRevision sub).map KvRow.toKeyValue = pairs := by
  induction pairs generalizing lastRevision sub with
  | nil => rfl
  | cons pair rest ih =>
    simp only [restoredRows, List.map_cons, restoredRow_toKeyValue, ih]

theorem mem_restoredRows {pairs : List KeyValue} {lastRevision : Int} {sub : Nat} {row : KvRow}
    (member : row ∈ restoredRows pairs lastRevision sub) :
    row.toKeyValue ∈ pairs ∧ row.deleted = false ∧ row.prevRevision = 0 := by
  refine ⟨?_, ?_⟩
  · rw [← restoredRows_toKeyValue pairs lastRevision sub]
    exact List.mem_map_of_mem member
  · induction pairs generalizing lastRevision sub with
    | nil => cases member
    | cons pair rest ih =>
      rcases List.mem_cons.mp member with atHead | inTail
      · rw [atHead]
        exact ⟨rfl, rfl⟩
      · exact ih inTail

theorem insertKv_ok_iff {kv kv' : List KvRow} {row : KvRow} :
    insertKv kv row = .ok kv' <->
      (forall stored, stored ∈ kv -> stored.stamp ≠ row.stamp) ∧ kv' = kv ++ [row] := by
  unfold insertKv
  by_cases clash : (kv.any fun stored =>
      decide (stored.revision = row.revision) && decide (stored.sub = row.sub)) = true
  · rw [if_pos clash]
    rcases List.any_eq_true.mp clash with ⟨stored, member, same⟩
    simp only [Bool.and_eq_true, decide_eq_true_eq] at same
    refine iff_of_false nofun fun both => ?_
    exact both.1 stored member ((KvRow.stamp_eq_iff stored row).mpr same)
  · rw [if_neg clash]
    have different : forall stored, stored ∈ kv -> stored.stamp ≠ row.stamp := by
      intro stored member same
      refine clash (List.any_eq_true.mpr ⟨stored, member, ?_⟩)
      simpa only [Bool.and_eq_true, decide_eq_true_eq] using (KvRow.stamp_eq_iff stored row).mp same
    constructor
    · intro inserted
      exact ⟨different, (Except.ok.inj inserted).symm⟩
    · rintro ⟨_, rfl⟩
      rfl

theorem restoreRows_ok_iff {pairs : List KeyValue} {lastRevision : Int} {sub : Nat} {kv kv' : List KvRow}
    (distinct : DistinctStamps KvRow.stamp kv) :
    restoreRows pairs lastRevision sub kv = .ok kv' <->
      DistinctStamps KvRow.stamp (kv ++ restoredRows pairs lastRevision sub) ∧
        kv' = kv ++ restoredRows pairs lastRevision sub := by
  induction pairs generalizing kv lastRevision sub with
  | nil =>
    simp only [restoredRows, List.append_nil, restoreRows, Except.ok.injEq]
    rw [eq_comm, and_iff_right distinct]
  | cons pair rest ih =>
    have row : insertKv kv (restoredRow pair (nextSub pair lastRevision sub)) =
      insertKv kv (restoredRow pair (nextSub pair lastRevision sub)) := rfl
    have unfolded : restoreRows (pair :: rest) lastRevision sub kv =
        (insertKv kv (restoredRow pair (nextSub pair lastRevision sub)) >>= fun kv =>
          restoreRows rest pair.modRevision (nextSub pair lastRevision sub) kv) := rfl
    rw [unfolded]
    have shape : kv ++ restoredRows (pair :: rest) lastRevision sub =
        (kv ++ [restoredRow pair (nextSub pair lastRevision sub)]) ++
          restoredRows rest pair.modRevision (nextSub pair lastRevision sub) := by
      rw [List.append_assoc]
      rfl
    rw [shape]
    constructor
    · intro accepted
      cases inserted : insertKv kv (restoredRow pair (nextSub pair lastRevision sub)) with
      | error failure =>
        rw [inserted] at accepted
        cases accepted
      | ok grown =>
        rw [inserted] at accepted
        have parts := insertKv_ok_iff.mp inserted
        have grownDistinct : DistinctStamps KvRow.stamp grown := by
          rw [parts.2]
          refine List.pairwise_append.mpr ⟨distinct, List.pairwise_singleton _ _, ?_⟩
          intro stored member last lastMem
          rw [List.mem_singleton.mp lastMem]
          exact parts.1 stored member
        have answer := (ih grownDistinct).mp accepted
        rwa [parts.2] at answer
    · rintro ⟨allDistinct, rfl⟩
      have grownDistinct := (List.pairwise_append.mp allDistinct).1
      have different := (List.pairwise_append.mp grownDistinct).2.2
      have inserted : insertKv kv (restoredRow pair (nextSub pair lastRevision sub)) =
          .ok (kv ++ [restoredRow pair (nextSub pair lastRevision sub)]) :=
        insertKv_ok_iff.mpr ⟨fun stored member =>
          different stored member _ (.head _), rfl⟩
      rw [inserted]
      exact (ih grownDistinct).mpr ⟨allDistinct, rfl⟩

/-! ## The lease and member tables -/

theorem insertLease_last {leases : List Lease} {lease : Lease}
    (above : forall stored, stored ∈ leases -> stored.id < lease.id) :
    insertLease leases lease = .ok (leases ++ [lease]) := by
  unfold insertLease
  rw [if_neg, orderedInsert_last above]
  intro found
  rcases List.any_eq_true.mp found with ⟨stored, member, same⟩
  exact absurd (of_decide_eq_true same) (ne_of_lt (above stored member))

theorem memberKey_injective {first second : Member} (same : memberKey first = memberKey second) :
    first.id = second.id :=
  congrArg Int64.toUInt64 (Int64.toInt.inj same)

theorem insertMember_last {members : List Member} {member : Member}
    (above : forall stored, stored ∈ members -> memberKey stored < memberKey member) :
    insertMember members member = .ok (members ++ [member]) := by
  unfold insertMember
  rw [if_neg, orderedInsert_last above]
  intro found
  rcases List.any_eq_true.mp found with ⟨stored, stored_mem, same⟩
  have keys : memberKey stored = memberKey member := by
    unfold memberKey
    rw [of_decide_eq_true same]
  exact absurd keys (ne_of_lt (above stored stored_mem))

/-! ## The restored store -/

/-- The database a snapshot describes. -/
def SnapshotState.restored (snapshot : SnapshotState) : Db where
  kv := restoredRows snapshot.kvs i64Min 0
  revision := snapshot.revision
  compactRevision := snapshot.compactRevision
  appliedIndex := snapshot.appliedIndex
  leases := snapshot.leases
  members := snapshot.members

theorem restoreSnapshot_ok_iff {s s' : Store} {snapshot : SnapshotState}
    (leases : KeySorted Lease.id snapshot.leases) (members : KeySorted memberKey snapshot.members) :
    s.restoreSnapshot snapshot = .ok s' <->
      DistinctStamps KvRow.stamp snapshot.restored.kv ∧
        s' = { db := snapshot.restored, rbacCache := fun _ => none } := by
  have rebuiltLeases : snapshot.leases.foldlM insertLease [] = .ok snapshot.leases :=
    foldlM_insert insertLease_last leases fun _ no => absurd no List.not_mem_nil
  have rebuiltMembers : snapshot.members.foldlM insertMember [] = .ok snapshot.members :=
    foldlM_insert insertMember_last members fun _ no => absurd no List.not_mem_nil
  have empty : DistinctStamps KvRow.stamp ([] : List KvRow) := List.Pairwise.nil
  unfold Store.restoreSnapshot
  rw [rebuiltLeases, rebuiltMembers]
  cases rows : restoreRows snapshot.kvs i64Min 0 [] with
  | error failure =>
    refine iff_of_false nofun fun both => ?_
    have accepted := (restoreRows_ok_iff empty).mpr ⟨both.1, rfl⟩
    rw [rows] at accepted
    cases accepted
  | ok kv =>
    have parts := (restoreRows_ok_iff empty).mp rows
    rw [List.nil_append] at parts
    constructor
    · intro accepted
      cases accepted
      rw [parts.2]
      exact ⟨parts.1, rfl⟩
    · rintro ⟨_, rfl⟩
      rw [parts.2]
      rfl

section
variable {pairs : List KeyValue} {lastRevision : Int} {sub : Nat}

theorem restoredRows_keys (pairs : List KeyValue) (lastRevision : Int) (sub : Nat) :
    (restoredRows pairs lastRevision sub).map KvRow.key = pairs.map KeyValue.key := by
  have same : (restoredRows pairs lastRevision sub).map KvRow.key =
      ((restoredRows pairs lastRevision sub).map KvRow.toKeyValue).map KeyValue.key := by
    rw [List.map_map]
    rfl
  rw [same, restoredRows_toKeyValue]

theorem restoredRows_key_injective (sorted : KeySorted KeyValue.key pairs) {first second : KvRow}
    (firstMem : first ∈ restoredRows pairs lastRevision sub)
    (secondMem : second ∈ restoredRows pairs lastRevision sub) (same : first.key = second.key) :
    first = second := by
  have keys : ((restoredRows pairs lastRevision sub).map KvRow.key).Nodup := by
    rw [restoredRows_keys]
    exact List.pairwise_map.mpr (sorted.imp ne_of_lt)
  exact List.inj_on_of_nodup_map keys firstMem secondMem same

theorem newestOf_restored (sorted : KeySorted KeyValue.key pairs)
    (distinct : DistinctStamps KvRow.stamp (restoredRows pairs lastRevision sub))
    {asOf : Option Int} {key : Bytes} {row : KvRow} :
    newestOf (restoredRows pairs lastRevision sub) asOf key = some row <->
      row ∈ restoredRows pairs lastRevision sub ∧ row.key = key ∧ row.within asOf = true := by
  rw [newestOf_eq_some_iff distinct]
  constructor
  · rintro ⟨member, same, inside, _⟩
    exact ⟨member, same, inside⟩
  · rintro ⟨member, same, inside⟩
    refine ⟨member, same, inside, ?_⟩
    intro other otherMem otherKey _
    rw [restoredRows_key_injective sorted otherMem member (otherKey.trans same.symm)]

theorem visible_restored (sorted : KeySorted KeyValue.key pairs)
    (distinct : DistinctStamps KvRow.stamp (restoredRows pairs lastRevision sub))
    {asOf : Option Int} {key : Bytes} {pair : KeyValue} :
    visible (restoredRows pairs lastRevision sub) asOf key = some pair <->
      pair ∈ pairs ∧ pair.key = key ∧ (asOf.all fun bound => pair.modRevision ≤ bound) = true := by
  unfold visible
  rw [Option.bind_eq_some_iff]
  constructor
  · rintro ⟨row, found, alive⟩
    have spec := (newestOf_restored sorted distinct).mp found
    have parts := mem_restoredRows spec.1
    have value := ((KvRow.live_eq_some_iff row pair).mp alive).2
    rw [← value]
    exact ⟨parts.1, spec.2.1, spec.2.2⟩
  · rintro ⟨member, same, inside⟩
    rw [← restoredRows_toKeyValue pairs lastRevision sub] at member
    rcases List.mem_map.mp member with ⟨row, rowMem, value⟩
    subst value
    exact ⟨row, (newestOf_restored sorted distinct).mpr ⟨rowMem, same, inside⟩,
      KvRow.live_of_not_deleted (mem_restoredRows rowMem).2.1⟩

end
end NotK8s.Nodestore

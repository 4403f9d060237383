import NotK8s.Nodestore.Apply
import NotK8s.Nodestore.Pruning
import NotK8s.Nodestore.Restore

namespace NotK8s.Nodestore

open Library

/-!
# Reachable stores

The invariant of the database, and the stores that commands, restores and
reads can lead to.  Above the compaction point a row names the revision of
the live version it replaced, or zero when it replaced none; this link is
what a replay resolves previous values with.  Compaction may remove the named
version only together with every row that names it, except for rows above
the point, whose replaced version is the one it keeps.
-/

/-- The version of the same key that a row replaced. -/
def olderOf (kv : List KvRow) (row : KvRow) : Option KvRow :=
  newestWhere kv (fun other => decide (other.stamp < row.stamp)) row.key

/-- The revision of the live pair a row replaced, or zero. -/
def linkOf (kv : List KvRow) (row : KvRow) : Int :=
  (((olderOf kv row).bind KvRow.live).map KeyValue.modRevision).getD 0

structure Db.WellFormed (db : Db) : Prop where
  distinct : DistinctStamps KvRow.stamp db.kv
  positive : forall row, row ∈ db.kv -> 1 < row.revision
  below : forall row, row ∈ db.kv -> row.revision ≤ db.revision
  started : 1 ≤ db.revision
  compactNonneg : 0 ≤ db.compactRevision
  compactLe : db.compactRevision ≤ db.revision
  linked : forall row, row ∈ db.kv -> db.compactRevision < row.revision -> row.prevRevision = linkOf db.kv row
  leases : KeySorted Lease.id db.leases
  members : KeySorted memberKey db.members

/-! ## Links under writes -/

section
variable {kv kv' : List KvRow} {w w' : Writer}

theorem olderOf_newest {row : KvRow} (fresh : forall stored, stored ∈ kv -> stored.stamp < row.stamp) :
    olderOf (kv ++ [row]) row = newestOf kv none row.key := by
  unfold olderOf newestWhere
  rw [newest_concat fresh, if_neg (by simp)]
  apply newest_congr
  intro stored member
  simp only [decide_eq_true (fresh stored member), KvRow.within_none]

theorem linkOf_newest {row : KvRow} (fresh : forall stored, stored ∈ kv -> stored.stamp < row.stamp) :
    linkOf (kv ++ [row]) row = ((currentIn kv row.key).map KeyValue.modRevision).getD 0 := by
  unfold linkOf
  rw [olderOf_newest fresh]
  rfl

theorem olderOf_concat {row stored : KvRow} (fresh : forall stored, stored ∈ kv -> stored.stamp < row.stamp)
    (member : stored ∈ kv) : olderOf (kv ++ [row]) stored = olderOf kv stored := by
  unfold olderOf newestWhere
  rw [newest_concat fresh, if_neg]
  have later := fresh stored member
  simp [later.le]

theorem linkOf_concat {row stored : KvRow} (fresh : forall stored, stored ∈ kv -> stored.stamp < row.stamp)
    (member : stored ∈ kv) : linkOf (kv ++ [row]) stored = linkOf kv stored := by
  unfold linkOf
  rw [olderOf_concat fresh member]

theorem WriteStep.linked (step : WriteStep kv w kv' w') (fresh : FreshWriter kv w) :
    Exists fun row : KvRow => kv' = kv ++ [row] ∧ row.revision = w.next ∧ row.sub = w.sub ∧
      row.prevRevision = linkOf kv' row := by
  cases step with
  | put key value lease =>
    refine ⟨_, rfl, rfl, rfl, ?_⟩
    rw [linkOf_newest fun stored member => fresh.stamp_lt rfl rfl member]
    rfl
  | delete prev current =>
    refine ⟨_, rfl, rfl, rfl, ?_⟩
    rw [linkOf_newest fun stored member => fresh.stamp_lt rfl rfl member]
    change prev.modRevision = ((currentIn kv prev.key).map KeyValue.modRevision).getD 0
    rw [current]
    rfl

/-- Links survive any sequence of writes, and the written rows are linked. -/
theorem Writes.linked (writes : Writes kv w kv' w') (fresh : FreshWriter kv w) {c : Int}
    (links : forall row, row ∈ kv -> c < row.revision -> row.prevRevision = linkOf kv row) :
    forall row, row ∈ kv' -> c < row.revision -> row.prevRevision = linkOf kv' row := by
  induction writes with
  | refl => exact links
  | tail earlier step ih =>
    have freshNow := fresh.writes earlier
    rcases step.linked freshNow with ⟨row, rfl, revision, sub, link⟩
    have above : forall stored : KvRow, stored ∈ _ -> stored.stamp < row.stamp := fun _ member =>
      freshNow.stamp_lt revision sub member
    intro stored member aboveCompaction
    rcases List.mem_append.mp member with old | new
    · rw [linkOf_concat above old]
      exact ih stored old aboveCompaction
    · rw [List.mem_singleton.mp new]
      exact link

end

theorem linkOf_pruneRows {kv : List KvRow} {c : Int} (distinct : DistinctStamps KvRow.stamp kv)
    {row : KvRow} (above : c < row.revision) : linkOf (pruneRows kv c) row = linkOf kv row := by
  unfold linkOf olderOf
  rw [newestWhere_pruneRows_live distinct]
  intro other below
  apply decide_eq_true
  exact (KvRow.stamp_lt_iff other row).mpr (Or.inl (lt_of_le_of_lt below above))

/-! ## The lease and member tables -/

theorem replaceLease_sorted {leases : List Lease} (sorted : KeySorted Lease.id leases) (lease : Lease) :
    KeySorted Lease.id (replaceLease leases lease) := by
  apply (sorted.filter _).orderedInsert
  intro stored member
  exact of_decide_eq_true (List.mem_filter.mp member).2

theorem upsertMember_sorted {members : List Member} (sorted : KeySorted memberKey members) (member : Member) :
    KeySorted memberKey (upsertMember members member) := by
  apply (sorted.filter _).orderedInsert
  intro stored storedMem same
  exact of_decide_eq_true (List.mem_filter.mp storedMem).2 (memberKey_injective same)

theorem revokeLease_tables {tx tx' : Db} {w w' : Writer} {id : Int}
    (revoked : revokeLease tx w id = .ok (tx', w')) :
    tx'.leases = (tx.leases.filter fun lease => lease.id ≠ id) ∧ tx'.members = tx.members := by
  rcases bind_eq_ok revoked with ⟨⟨kv, w₁⟩, deleted, result⟩
  cases result
  exact ⟨rfl, rfl⟩

theorem revokeLeases_tables {ids : List Int} {tx tx' : Db} {w w' : Writer}
    (sorted : KeySorted Lease.id tx.leases) (revoked : revokeLeases ids tx w = .ok (tx', w')) :
    KeySorted Lease.id tx'.leases ∧ tx'.members = tx.members := by
  induction ids generalizing tx w with
  | nil =>
    cases revoked
    exact ⟨sorted, rfl⟩
  | cons id rest ih =>
    rcases bind_eq_ok revoked with ⟨⟨tx₁, w₁⟩, first, others⟩
    have parts := revokeLease_tables first
    have later := ih (parts.1 ▸ sorted.filter _) others
    exact ⟨later.1, later.2.trans parts.2⟩

theorem runCommand_tables {tx tx' : Db} {w w' : Writer} {current : Int} {cmd : Command}
    {response : CommandResponse} (leases : KeySorted Lease.id tx.leases)
    (members : KeySorted memberKey tx.members)
    (accepted : runCommand tx w current cmd = .ok (response, tx', w')) :
    KeySorted Lease.id tx'.leases ∧ KeySorted memberKey tx'.members := by
  cases cmd with
  | put op | delete op | txn op =>
    rcases bind_eq_ok accepted with ⟨_, _, result⟩
    cases result
    exact ⟨leases, members⟩
  | compact c =>
    rcases bind_eq_ok accepted with ⟨tx₁, compacted, result⟩
    cases result
    rcases applyCompact_ok compacted with ⟨_, _, rfl⟩
    exact ⟨leases, members⟩
  | leaseGrant id ttlSecs nowUnixSecs =>
    cases accepted
    exact ⟨replaceLease_sorted leases _, members⟩
  | leaseRevoke id =>
    rcases bind_eq_ok accepted with ⟨⟨tx₁, w₁⟩, revoked, result⟩
    cases result
    have parts := revokeLease_tables revoked
    rw [parts.1, parts.2]
    exact ⟨leases.filter _, members⟩
  | leaseKeepAlive id nowUnixSecs =>
    simp only [runCommand] at accepted
    cases held : tx.leases.find? fun lease => lease.id = id with
    | none =>
      rw [held] at accepted
      cases accepted
      exact ⟨leases, members⟩
    | some lease =>
      rw [held] at accepted
      cases accepted
      refine ⟨List.pairwise_map.mpr (leases.imp fun less => ?_), members⟩
      split_ifs <;> exact less
  | expireLeases nowUnixSecs =>
    rcases bind_eq_ok accepted with ⟨⟨tx₁, w₁⟩, revoked, result⟩
    cases result
    have parts := revokeLeases_tables leases revoked
    rw [parts.2]
    exact ⟨parts.1, members⟩
  | setMember member =>
    cases accepted
    exact ⟨leases, upsertMember_sorted members member⟩
  | removeMember id =>
    cases accepted
    exact ⟨leases, members.filter _⟩

/-! ## The invariant -/

theorem Db.initSchema_wellFormed : Db.initSchema.WellFormed where
  distinct := List.Pairwise.nil
  positive := nofun
  below := nofun
  started := le_refl 1
  compactNonneg := le_refl 0
  compactLe := zero_le_one
  linked := nofun
  leases := List.Pairwise.nil
  members := List.Pairwise.nil

theorem Db.WellFormed.accepted {s s' : Store} {index : Nat} {cmd : Command} {applied : Applied}
    (wellFormed : s.db.WellFormed) (success : s.applyAt index cmd = .ok (applied, s')) :
    Exists fun tx : Db => Exists fun w : Writer => Accepted s index cmd applied s' tx w :=
  applyAt_ok wellFormed.distinct wellFormed.below success

theorem Db.WellFormed.freshWriter {db : Db} (wellFormed : db.WellFormed) :
    FreshWriter db.kv (Writer.opened db.revision) :=
  FreshWriter.of_revision_le wellFormed.below

theorem applyAt_wellFormed {s s' : Store} {index : Nat} {cmd : Command} {applied : Applied}
    (wellFormed : s.db.WellFormed) (success : s.applyAt index cmd = .ok (applied, s')) :
    s'.db.WellFormed := by
  rcases wellFormed.accepted success with ⟨tx, w, accepted⟩
  have tables := runCommand_tables wellFormed.leases wellFormed.members accepted.ran
  have fresh := wellFormed.freshWriter
  have grows : s.db.revision ≤ applied.revision := by
    rw [accepted.revision]
    split_ifs <;> omega
  rw [accepted.db]
  cases accepted.effect with
  | writes written same =>
    refine ⟨distinct_of_writes wellFormed.distinct fresh written, ?_, ?_, ?_, ?_, ?_, ?_,
      tables.1, tables.2⟩
    · intro row member
      rcases written.rows with ⟨rows, grown, revisions⟩
      rw [grown] at member
      rcases List.mem_append.mp member with old | new
      · exact wellFormed.positive row old
      · rw [revisions row new]
        have started := wellFormed.started
        change 1 < s.db.revision + 1
        omega
    · intro row member
      rw [accepted.revision]
      by_cases used : w.used = true
      · rw [if_pos used]
        rcases written.rows with ⟨rows, grown, revisions⟩
        rw [grown] at member
        rcases List.mem_append.mp member with old | new
        · exact (wellFormed.below row old).trans (Int.le_add_one le_rfl)
        · exact (revisions row new).le
      · rw [if_neg used]
        rw [(written.eq_of_unused (Bool.eq_false_iff.mpr used)).1] at member
        exact wellFormed.below row member
    · exact wellFormed.started.trans grows
    · rw [same.compactRevision]
      exact wellFormed.compactNonneg
    · rw [same.compactRevision]
      exact wellFormed.compactLe.trans grows
    · rw [same.compactRevision]
      exact written.linked fresh wellFormed.linked
  | compact above reached =>
    refine ⟨distinct_pruneRows wellFormed.distinct _, ?_, ?_, ?_, ?_, ?_, ?_, tables.1, tables.2⟩
    · exact fun row member => wellFormed.positive row (mem_of_mem_pruneRows member)
    · exact fun row member => (wellFormed.below row (mem_of_mem_pruneRows member)).trans grows
    · exact wellFormed.started.trans grows
    · exact wellFormed.compactNonneg.trans above.le
    · exact reached.trans grows
    · intro row member aboveNow
      rw [linkOf_pruneRows wellFormed.distinct aboveNow]
      exact wellFormed.linked row (mem_of_mem_pruneRows member) (above.trans aboveNow)

theorem restoreSnapshot_wellFormed {s s' : Store} {source : Db} (wellFormed : source.WellFormed)
    (success : s.restoreSnapshot source.exportSnapshot = .ok s') : s'.db.WellFormed := by
  have parts := (restoreSnapshot_ok_iff wellFormed.leases wellFormed.members).mp success
  have sorted := export_sorted wellFormed.distinct
  have stored : forall row, row ∈ s'.db.kv ->
      Exists fun original : KvRow => original ∈ source.kv ∧ original.revision = row.revision := by
    intro row member
    rw [parts.2] at member
    have listed := (mem_export wellFormed.below).mp (mem_restoredRows member).1
    rcases Option.bind_eq_some_iff.mp listed with ⟨original, found, alive⟩
    exact ⟨original, (newestOf_spec found).1, (KvRow.live_key alive).2.symm⟩
  have distinct : DistinctStamps KvRow.stamp s'.db.kv := by
    rw [parts.2]
    exact parts.1
  have revision : s'.db.revision = source.revision := by
    rw [parts.2]
    rfl
  refine ⟨distinct, ?_, ?_, ?_, ?_, ?_, ?_, ?_, ?_⟩
  · intro row member
    rcases stored row member with ⟨original, originalMem, same⟩
    rw [← same]
    exact wellFormed.positive original originalMem
  · intro row member
    rcases stored row member with ⟨original, originalMem, same⟩
    rw [← same, revision]
    exact wellFormed.below original originalMem
  · rw [revision]
    exact wellFormed.started
  · rw [parts.2]
    exact wellFormed.compactNonneg
  · rw [parts.2]
    exact wellFormed.compactLe
  · intro row member _
    rw [parts.2] at member ⊢
    have alone : olderOf source.exportSnapshot.restored.kv row = none := by
      rw [olderOf, newestWhere_eq_none_iff]
      intro other otherMem same
      rw [restoredRows_key_injective sorted otherMem member same]
      exact decide_eq_false (lt_irrefl _)
    rw [(mem_restoredRows member).2.2, linkOf, alone]
    rfl
  · rw [parts.2]
    exact wellFormed.leases
  · rw [parts.2]
    exact wellFormed.members

theorem range_db (s : Store) (q : RangeQuery) : (s.range q).2.db = s.db := by
  unfold Store.range
  cases s.db.readRevision q with
  | error refusal => rfl
  | ok asOf =>
    dsimp only
    cases s.cachedList q asOf with
    | some result => rfl
    | none =>
      unfold Store.fillCache
      cases rbacListPrefix q.range with
      | none => rfl
      | some stem =>
        split_ifs <;> rfl

/-- What the query answers without the cache. -/
def Db.uncachedRange (db : Db) (q : RangeQuery) : Except Error RangeResult :=
  (db.readRevision q).map fun asOf => rangeIn db.kv q.range (some asOf) q

theorem range_of_not_cached {s : Store} {q : RangeQuery}
    (missed : forall asOf, s.db.readRevision q = .ok asOf -> s.cachedList q asOf = none) :
    (s.range q).1 = s.db.uncachedRange q := by
  unfold Store.range Db.uncachedRange
  cases selected : s.db.readRevision q with
  | error refusal => rfl
  | ok asOf =>
    simp only [missed asOf selected]
    rfl

theorem cachedList_empty {s : Store} (empty : s.rbacCache = fun _ => none) (q : RangeQuery) (asOf : Int) :
    s.cachedList q asOf = none := by
  unfold Store.cachedList
  cases rbacListPrefix q.range with
  | none => rfl
  | some stem => simp only [empty, ite_self]

theorem readRevision_current {db : Db} {q : RangeQuery} (current : q.revision ≤ 0) :
    db.readRevision q = .ok db.revision :=
  if_neg (not_lt.mpr current)

theorem readRevision_explicit {db : Db} {q : RangeQuery} (historical : 0 < q.revision)
    (retained : db.compactRevision < q.revision) (reached : q.revision ≤ db.revision) :
    db.readRevision q = .ok q.revision := by
  unfold Db.readRevision
  rw [if_pos historical, if_neg (not_le.mpr retained), if_neg (not_lt.mpr reached)]

/-- A query that names a revision selects it, so what is below both the
named and the current revision is below the selected one. -/
theorem le_readRevision {db : Db} {q : RangeQuery} {asOf bound : Int} (selected : db.readRevision q = .ok asOf)
    (named : bound ≤ q.revision) (reached : bound ≤ db.revision) : bound ≤ asOf := by
  unfold Db.readRevision at selected
  split_ifs at selected <;> cases selected
  · exact named
  · exact reached

/-- The revision a query selects lies between the compaction point and the
current revision. -/
theorem readRevision_bounds {db : Db} (wellFormed : db.WellFormed) {q : RangeQuery} {asOf : Int}
    (selected : db.readRevision q = .ok asOf) :
    db.compactRevision ≤ asOf ∧ asOf ≤ db.revision ∧ 1 ≤ asOf ∧
      (asOf = db.revision ∨ db.compactRevision < asOf) := by
  unfold Db.readRevision at selected
  by_cases explicit : q.revision > 0
  · rw [if_pos explicit] at selected
    by_cases compacted : q.revision ≤ db.compactRevision
    · rw [if_pos compacted] at selected
      cases selected
    · rw [if_neg compacted] at selected
      by_cases future : q.revision > db.revision
      · rw [if_pos future] at selected
        cases selected
      · rw [if_neg future] at selected
        cases selected
        exact ⟨by omega, by omega, by omega, Or.inr (by omega)⟩
  · rw [if_neg explicit] at selected
    cases selected
    exact ⟨wellFormed.compactLe, le_refl _, wellFormed.started, Or.inl rfl⟩

/-- The store after a command, accepted or not. -/
def Store.after (s : Store) (entry : Nat × Command) : Store :=
  match s.applyAt entry.1 entry.2 with
  | .ok (_, s') => s'
  | .error _ => s

theorem Store.after_ok {s : Store} {entry : Nat × Command} {result : Applied × Store}
    (success : s.applyAt entry.1 entry.2 = .ok result) : s.after entry = result.2 := by
  unfold Store.after
  rw [success]

theorem Store.after_error {s : Store} {entry : Nat × Command} {refusal : Error}
    (refused : s.applyAt entry.1 entry.2 = .error refusal) : s.after entry = s := by
  unfold Store.after
  rw [refused]

/-- A command keeps the invariant, whether it is accepted or refused, and
never takes the revision back. -/
theorem after_wellFormed {s : Store} (wellFormed : s.db.WellFormed) (entry : Nat × Command) :
    (s.after entry).db.WellFormed ∧ s.db.revision ≤ (s.after entry).db.revision := by
  cases outcome : s.applyAt entry.1 entry.2 with
  | error refusal =>
    rw [Store.after_error outcome]
    exact ⟨wellFormed, le_rfl⟩
  | ok result =>
    rw [Store.after_ok outcome]
    refine ⟨applyAt_wellFormed wellFormed outcome, ?_⟩
    rcases wellFormed.accepted outcome with ⟨tx, w, accepted⟩
    rw [accepted.db]
    change s.db.revision ≤ result.1.revision
    rw [accepted.revision]
    split_ifs <;> omega

/-- Stores that commands, restores of other replicas' snapshots and reads
lead to. -/
inductive Reachable : Store -> Prop where
  | fresh : Reachable Store.fresh
  | apply {s s' : Store} {index : Nat} {cmd : Command} {applied : Applied} :
      Reachable s -> s.applyAt index cmd = .ok (applied, s') -> Reachable s'
  | restore {s s' source : Store} :
      Reachable s -> Reachable source -> s.restoreSnapshot source.db.exportSnapshot = .ok s' -> Reachable s'
  | read {s : Store} (q : RangeQuery) : Reachable s -> Reachable (s.range q).2

theorem Reachable.wellFormed {s : Store} (reachable : Reachable s) : s.db.WellFormed := by
  induction reachable with
  | fresh => exact Db.initSchema_wellFormed
  | apply _ success ih => exact applyAt_wellFormed ih success
  | restore _ _ success _ ih => exact restoreSnapshot_wellFormed ih success
  | read q _ ih =>
    rw [range_db]
    exact ih

end NotK8s.Nodestore

import NotK8s.Nodestore.Compaction

namespace NotK8s.Nodestore

open Library

/-!
# Leases and the keys they hold

Revoking leases deletes the keys they hold, one tombstone and one event for
each.  Whatever the order of the leases, the deletions come down to one
burial of the live pairs whose lease is among those revoked; what an expiry
does is read off that.

A key refers to its lease by number.  The reference is kept by every command
except a put that brings in a number of its own.
-/

section
variable {kv : List KvRow} {w : Writer}

theorem currentIn_key {key : Bytes} {pair : KeyValue} (current : currentIn kv key = some pair) : pair.key = key := by
  rw [currentIn_eq_visible] at current
  exact visible_key current

/-! ## Burials -/

theorem bury_append (first second : List KeyValue) (kv : List KvRow) (w : Writer) :
    bury (first ++ second) kv w = bury second (bury first kv w).1 (bury first kv w).2 := by
  induction first generalizing kv w with
  | nil => rfl
  | cons prev rest ih => exact ih _ _

theorem bury_events (victims : List KeyValue) (kv : List KvRow) (w : Writer) :
    (bury victims kv w).2.events = w.events ++ victims.map (deleteEvent w) := by
  induction victims generalizing kv w with
  | nil => exact (List.append_nil _).symm
  | cons prev rest ih =>
    have later := ih (kv ++ [tombstoneRow w prev]) (w.wrote (deleteEvent w prev))
    rw [Writer.wrote_events, List.append_assoc] at later
    exact later

theorem currentIn_bury (fresh : FreshWriter kv w) (victims : List KeyValue) (key : Bytes) :
    currentIn (bury victims kv w).1 key =
      if key ∈ victims.map KeyValue.key then none else currentIn kv key := by
  induction victims generalizing kv w with
  | nil => rfl
  | cons prev rest ih =>
    have later := ih (fresh.tombstone prev)
    rw [currentIn_tombstone fresh] at later
    refine later.trans ?_
    by_cases same : prev.key = key
    · rw [if_pos same, ite_self, if_pos]
      exact List.mem_cons.mpr (Or.inl same.symm)
    · rw [if_neg same]
      have different : ¬ key = prev.key := fun equal => same equal.symm
      simp only [List.map_cons, List.mem_cons, different, false_or]

theorem buryRange_single (distinct : DistinctStamps KvRow.stamp kv) (key : Bytes) :
    buryRange kv w (.single key) = bury (currentIn kv key).toList kv w := by
  have listed : forall pair, pair ∈ currentRangeIn kv (.single key) <-> currentIn kv key = some pair := by
    intro pair
    rw [mem_currentRangeIn]
    constructor
    · rintro ⟨named, current⟩
      have same : pair.key = key := of_decide_eq_true named
      rwa [same] at current
    · intro current
      have named := currentIn_key current
      rw [named]
      exact ⟨decide_eq_true rfl, current⟩
  have distinctPairs : (currentRangeIn kv (.single key)).Nodup :=
    List.Nodup.of_map _ (currentRangeIn_keys_nodup distinct (.single key))
  have victims : currentRangeIn kv (.single key) = (currentIn kv key).toList := by
    cases current : currentIn kv key with
    | none =>
      apply List.eq_nil_iff_forall_not_mem.mpr
      intro pair member
      have found := (listed pair).mp member
      rw [current] at found
      cases found
    | some pair =>
      apply List.perm_singleton.mp
      apply (List.perm_ext_iff_of_nodup distinctPairs (List.nodup_singleton pair)).mpr
      intro other
      rw [listed, current, List.mem_singleton, Option.some.injEq, eq_comm]
  unfold buryRange
  rw [victims]

theorem buryKeys_eq {keys : List Bytes} (distinct : DistinctStamps KvRow.stamp kv) (fresh : FreshWriter kv w)
    (apart : keys.Nodup) : buryKeys keys kv w = bury (keys.filterMap (currentIn kv)) kv w := by
  induction keys generalizing kv w with
  | nil => rfl
  | cons key rest ih =>
    have parts := List.nodup_cons.mp apart
    have written := buryRange_writes distinct fresh (.single key)
    have later := ih (distinct_of_writes distinct fresh written) (fresh.writes written) parts.2
    rw [buryKeys, later, buryRange_single distinct]
    have others : rest.filterMap (currentIn (bury (currentIn kv key).toList kv w).1) =
        rest.filterMap (currentIn kv) := by
      apply List.filterMap_congr
      intro other member
      rw [currentIn_bury fresh, if_neg]
      intro buried
      rcases List.mem_map.mp buried with ⟨pair, found, named⟩
      have same := currentIn_key (Option.mem_toList.mp found)
      rw [named] at same
      exact parts.1 (same ▸ member)
    rw [others, ← bury_append, List.filterMap_cons]
    cases currentIn kv key with
    | none => rfl
    | some pair => rfl

theorem mem_leaseKeysIn {id : Int} {key : Bytes} :
    key ∈ leaseKeysIn kv id <-> Exists fun pair => currentIn kv key = some pair ∧ pair.lease = id := by
  unfold leaseKeysIn
  rw [List.mem_insertionSort, List.mem_map]
  constructor
  · rintro ⟨row, member, rfl⟩
    have parts := (List.mem_filter.mp member).2
    simp only [Bool.and_eq_true, decide_eq_true_eq, Bool.not_eq_true'] at parts
    refine ⟨row.toKeyValue, ?_, parts.2⟩
    exact Option.bind_eq_some_iff.mpr ⟨row, parts.1.1, KvRow.live_of_not_deleted parts.1.2⟩
  · rintro ⟨pair, current, held⟩
    rcases Option.bind_eq_some_iff.mp current with ⟨row, found, alive⟩
    have value := (KvRow.live_eq_some_iff row pair).mp alive
    have spec := newestOf_spec found
    refine ⟨row, List.mem_filter.mpr ⟨spec.1, ?_⟩, spec.2.1⟩
    have lease : row.lease = id := by
      rw [← held, ← value.2]
      rfl
    rw [spec.2.1, found, value.1, lease]
    simp

theorem leaseKeysIn_nodup (distinct : DistinctStamps KvRow.stamp kv) (id : Int) : (leaseKeysIn kv id).Nodup :=
  (List.perm_insertionSort _ _).nodup_iff.mpr (leaseRows_keys_nodup distinct id)

/-- The pairs a lease holds. -/
def heldPairs (kv : List KvRow) (id : Int) : List KeyValue :=
  (leaseKeysIn kv id).filterMap (currentIn kv)

theorem mem_heldPairs {id : Int} {pair : KeyValue} :
    pair ∈ heldPairs kv id <-> currentIn kv pair.key = some pair ∧ pair.lease = id := by
  unfold heldPairs
  rw [List.mem_filterMap]
  constructor
  · rintro ⟨key, member, current⟩
    have named := currentIn_key current
    subst named
    rcases mem_leaseKeysIn.mp member with ⟨other, found, held⟩
    rw [current] at found
    cases found
    exact ⟨current, held⟩
  · rintro ⟨current, held⟩
    exact ⟨pair.key, mem_leaseKeysIn.mpr ⟨pair, current, held⟩, current⟩

theorem heldPairs_keys_nodup (distinct : DistinctStamps KvRow.stamp kv) (id : Int) :
    ((heldPairs kv id).map KeyValue.key).Nodup := by
  have same : (heldPairs kv id).map KeyValue.key = leaseKeysIn kv id := by
    unfold heldPairs
    rw [List.map_filterMap]
    refine (List.filterMap_congr fun key member => ?_).trans List.filterMap_some
    rcases mem_leaseKeysIn.mp member with ⟨pair, current, held⟩
    rw [current, Option.map_some, currentIn_key current]
  rw [same]
  exact leaseKeysIn_nodup distinct id

end

/-- Revoking one lease buries the pairs it holds and drops it from the table. -/
theorem revokeLease_bury {tx : Db} {w : Writer} (distinct : DistinctStamps KvRow.stamp tx.kv)
    (fresh : FreshWriter tx.kv w) (id : Int) :
    revokeLease tx w id =
      .ok ({ tx with
          kv := (bury (heldPairs tx.kv id) tx.kv w).1
          leases := tx.leases.filter fun lease => lease.id ≠ id },
        (bury (heldPairs tx.kv id) tx.kv w).2) := by
  rw [revokeLease_eq distinct fresh, buryKeys_eq distinct fresh (leaseKeysIn_nodup distinct id)]
  rfl

/-- What revoking some leases leaves: the pairs they hold are buried, each
once, and they are gone from the table. -/
structure Revoked (ids : List Int) (tx : Db) (w : Writer) (victims : List KeyValue) (tx' : Db) (w' : Writer) :
    Prop where
  apart : (victims.map KeyValue.key).Nodup
  held : forall pair, pair ∈ victims <-> currentIn tx.kv pair.key = some pair ∧ pair.lease ∈ ids
  table : tx' =
    { tx with kv := (bury victims tx.kv w).1, leases := tx.leases.filter fun lease => lease.id ∉ ids }
  writer : w' = (bury victims tx.kv w).2

theorem revokeLeases_revoked {tx : Db} {w : Writer} (distinct : DistinctStamps KvRow.stamp tx.kv)
    (fresh : FreshWriter tx.kv w) (ids : List Int) :
    Exists fun victims => Exists fun tx' => Exists fun w' =>
      revokeLeases ids tx w = .ok (tx', w') ∧ Revoked ids tx w victims tx' w' := by
  induction ids generalizing tx w with
  | nil =>
    refine ⟨[], tx, w, rfl, List.nodup_nil, ?_, ?_, rfl⟩
    · intro pair
      simp
    · simp [bury]
  | cons id rest ih =>
    have apart := heldPairs_keys_nodup distinct id
    have written := bury_writes fresh apart fun pair member => (mem_heldPairs.mp member).1
    rcases @ih
        { tx with
          kv := (bury (heldPairs tx.kv id) tx.kv w).1
          leases := tx.leases.filter fun lease => lease.id ≠ id }
        (bury (heldPairs tx.kv id) tx.kv w).2
        (distinct_of_writes distinct fresh written) (fresh.writes written) with
      ⟨victims, tx', w', ran, revoked⟩
    have later : forall pair, pair ∈ victims <->
        pair.key ∉ (heldPairs tx.kv id).map KeyValue.key ∧ currentIn tx.kv pair.key = some pair ∧
          pair.lease ∈ rest := by
      intro pair
      refine (revoked.held pair).trans ?_
      rw [currentIn_bury fresh]
      split_ifs with buried
      · simp [buried]
      · simp [buried]
    refine ⟨heldPairs tx.kv id ++ victims, tx', w', ?_, ?_, ?_, ?_, ?_⟩
    · unfold revokeLeases
      rw [revokeLease_bury distinct fresh]
      exact ran
    · rw [List.map_append]
      refine List.nodup_append.mpr ⟨apart, revoked.apart, ?_⟩
      intro key first other second same
      subst same
      rcases List.mem_map.mp second with ⟨pair, member, named⟩
      rw [← named] at first
      exact ((later pair).mp member).1 first
    · intro pair
      rw [List.mem_append, mem_heldPairs, later, List.mem_cons]
      constructor
      · rintro (⟨current, held⟩ | ⟨_, current, held⟩)
        · exact ⟨current, Or.inl held⟩
        · exact ⟨current, Or.inr held⟩
      · rintro ⟨current, held⟩
        by_cases first : pair.lease = id
        · exact Or.inl ⟨current, first⟩
        · refine Or.inr ⟨?_, current, held.resolve_left first⟩
          intro buried
          rcases List.mem_map.mp buried with ⟨other, member, named⟩
          have parts := mem_heldPairs.mp member
          rw [named, current] at parts
          exact first ((congrArg KeyValue.lease (Option.some.inj parts.1)).trans parts.2)
    · rw [revoked.table, bury_append]
      have leases : (tx.leases.filter fun lease => lease.id ≠ id).filter (fun lease => lease.id ∉ rest) =
          tx.leases.filter fun lease => lease.id ∉ id :: rest := by
        rw [List.filter_filter]
        apply List.filter_congr
        intro lease _
        rw [Bool.eq_iff_iff, Bool.and_eq_true, decide_eq_true_eq, decide_eq_true_eq, decide_eq_true_eq,
          List.mem_cons, not_or, and_comm]
      rw [← leases]
    · rw [revoked.writer, bury_append]

/-! ## The lease table -/

theorem mem_replaceLease {leases : List Lease} {lease other : Lease} :
    other ∈ replaceLease leases lease <-> other = lease ∨ other ∈ leases ∧ other.id ≠ lease.id := by
  unfold replaceLease
  rw [(List.perm_orderedInsert _ lease _).mem_iff, List.mem_cons, List.mem_filter, decide_eq_true_eq]

theorem eq_of_same_id {leases : List Lease} (sorted : KeySorted Lease.id leases) {first second : Lease}
    (firstMem : first ∈ leases) (secondMem : second ∈ leases) (same : first.id = second.id) : first = second := by
  by_contra different
  rcases related_of_mem sorted firstMem secondMem different with less | less
  · exact absurd same (ne_of_lt less)
  · exact absurd same.symm (ne_of_lt less)

/-! ## Expiry -/

/-- A lease of this id is in the table and its time is up. -/
def Expired (leases : List Lease) (nowUnixSecs id : Int) : Prop :=
  Exists fun lease => lease ∈ leases ∧ lease.id = id ∧ lease.expiresAt ≤ nowUnixSecs

theorem mem_expiredLeases {leases : List Lease} {nowUnixSecs id : Int} :
    id ∈ expiredLeases leases nowUnixSecs <-> Expired leases nowUnixSecs id := by
  unfold expiredLeases Expired
  rw [List.mem_map]
  refine exists_congr fun lease => ?_
  rw [List.mem_insertionSort, List.mem_filter, decide_eq_true_eq, and_assoc, and_comm (a := lease.id = id)]

theorem expired_iff {leases : List Lease} (sorted : KeySorted Lease.id leases) {lease : Lease}
    (member : lease ∈ leases) (nowUnixSecs : Int) :
    Expired leases nowUnixSecs lease.id <-> lease.expiresAt ≤ nowUnixSecs := by
  constructor
  · rintro ⟨other, otherMem, same, past⟩
    rwa [eq_of_same_id sorted otherMem member same] at past
  · intro past
    exact ⟨lease, member, rfl, past⟩

/-- What an expiry does to a database, no more and no less. -/
structure ExpiresExactly (db : Db) (nowUnixSecs : Int) (events : List Event) (db' : Db) : Prop where
  deleted : forall key pair, currentIn db.kv key = some pair -> Expired db.leases nowUnixSecs pair.lease ->
    currentIn db'.kv key = none
  kept : forall key, (forall pair, currentIn db.kv key = some pair -> ¬ Expired db.leases nowUnixSecs pair.lease) ->
    currentIn db'.kv key = currentIn db.kv key
  /-- One event for each deleted key, with its last value. -/
  told : forall event, event ∈ events <-> Exists fun pair =>
    currentIn db.kv pair.key = some pair ∧ Expired db.leases nowUnixSecs pair.lease ∧
      event =
        { kind := .delete
          kv := { (default : KeyValue) with key := pair.key, modRevision := db.revision + 1 }
          prevKv := some pair }
  once : (events.map fun event => event.kv.key).Nodup
  leases : db'.leases = db.leases.filter fun lease => nowUnixSecs < lease.expiresAt
  members : db'.members = db.members
  compactRevision : db'.compactRevision = db.compactRevision

theorem applyAt_expireLeases {s : Store} (wellFormed : s.db.WellFormed) (index : Nat) (nowUnixSecs : Int) :
    Exists fun applied => Exists fun s' =>
      s.applyAt index (.expireLeases nowUnixSecs) = .ok (applied, s') ∧
        ExpiresExactly s.db nowUnixSecs applied.events s'.db := by
  have fresh := wellFormed.freshWriter
  rcases revokeLeases_revoked wellFormed.distinct fresh (expiredLeases s.db.leases nowUnixSecs) with
    ⟨victims, tx, w, ran, revoked⟩
  have command : runCommand s.db (Writer.opened s.db.revision) s.db.revision (.expireLeases nowUnixSecs) =
      .ok (.empty, tx, w) := by
    change (revokeLeases _ s.db _ >>= _) = _
    rw [ran]
    rfl
  refine ⟨(s.commit index (.expireLeases nowUnixSecs) (.empty, tx, w)).1,
    (s.commit index (.expireLeases nowUnixSecs) (.empty, tx, w)).2, ?_, ?_⟩
  · rw [applyAt_eq, command]
    rfl
  have held : forall pair, pair ∈ victims <->
      currentIn s.db.kv pair.key = some pair ∧ Expired s.db.leases nowUnixSecs pair.lease := by
    intro pair
    rw [revoked.held, mem_expiredLeases]
  have current : forall key, currentIn tx.kv key =
      if key ∈ victims.map KeyValue.key then none else currentIn s.db.kv key := by
    intro key
    rw [revoked.table]
    exact currentIn_bury fresh victims key
  have events : w.events = victims.map (deleteEvent (Writer.opened s.db.revision)) := by
    rw [revoked.writer, bury_events]
    rfl
  refine ⟨?_, ?_, ?_, ?_, ?_, ?_, ?_⟩
  · intro key pair found past
    change currentIn tx.kv key = none
    have named := currentIn_key found
    subst named
    rw [current, if_pos (List.mem_map_of_mem ((held pair).mpr ⟨found, past⟩))]
  · intro key spared
    change currentIn tx.kv key = _
    rw [current, if_neg]
    intro buried
    rcases List.mem_map.mp buried with ⟨pair, member, rfl⟩
    have parts := (held pair).mp member
    exact spared pair parts.1 parts.2
  · intro event
    change event ∈ w.events <-> _
    rw [events, List.mem_map]
    refine exists_congr fun pair => ?_
    rw [held, and_assoc]
    exact and_congr_right fun _ => and_congr_right fun _ => eq_comm
  · change (w.events.map fun event => event.kv.key).Nodup
    rw [events, List.map_map]
    exact revoked.apart
  · rw [revoked.table]
    apply List.filter_congr
    intro lease member
    rw [decide_eq_decide, mem_expiredLeases, expired_iff wellFormed.leases member, not_le]
  · change tx.members = _
    rw [revoked.table]
  · change tx.compactRevision = _
    rw [revoked.table]

end NotK8s.Nodestore

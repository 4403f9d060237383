import NotK8s.Nodestore.Writes

namespace NotK8s.Nodestore

open Library

/-!
# Applying a command

Each function of the apply path is given by what it writes.  A put, delete
or lease revocation only ever appends rows, so an insert cannot violate the
primary key while the writer is fresh.  `applyAt_ok` is the inversion all
later invariants start from: a command that is accepted either performs a
sequence of writes or compacts the table.
-/

theorem bind_eq_ok {Failure Value Result : Type} {first : Except Failure Value}
    {next : Value -> Except Failure Result} {result : Result}
    (success : (first >>= next) = .ok result) :
    Exists fun value : Value => first = .ok value ∧ next value = .ok result := by
  cases first with
  | error failure => cases success
  | ok value => exact ⟨value, rfl, success⟩

section
variable {kv kv' : List KvRow} {w w' : Writer}

section

variable (fresh : FreshWriter kv w)
include fresh

theorem insertKv_fresh {row : KvRow} (revision : row.revision = w.next)
    (sub : row.sub = w.sub) : insertKv kv row = .ok (kv ++ [row]) := by
  refine if_neg fun found => ?_
  rcases List.any_eq_true.mp found with ⟨stored, member, clash⟩
  have stamp := fresh.stamp_lt revision sub member
  simp only [Bool.and_eq_true, decide_eq_true_eq] at clash
  exact absurd ((KvRow.stamp_eq_iff stored row).mpr clash) (ne_of_lt stamp)

/-! ## Puts -/

def putValue (kv : List KvRow) (op : PutOp) : Bytes :=
  if op.ignoreValue then ((currentIn kv op.key).map KeyValue.value).getD [] else op.value

def putLease (kv : List KvRow) (op : PutOp) : Int :=
  if op.ignoreLease then ((currentIn kv op.key).map KeyValue.lease).getD 0 else op.lease

/-- A put is refused when it must keep a field of a key that is not live. -/
def putRefused (kv : List KvRow) (op : PutOp) : Bool :=
  (op.ignoreValue || op.ignoreLease) && (currentIn kv op.key).isNone

theorem applyPut_eq (op : PutOp) :
    applyPut kv w op =
      if putRefused kv op = true then .error .keyNotFound
      else .ok (if op.prevKv then currentIn kv op.key else none,
        kv ++ [putRow kv w op.key (putValue kv op) (putLease kv op)],
        w.wrote (putEvent kv w op.key (putValue kv op) (putLease kv op))) := by
  refine ite_congr rfl (fun _ => rfl) fun _ => ?_
  have inserted : insertKv kv (putRow kv w op.key (putValue kv op) (putLease kv op)) =
      .ok (kv ++ [putRow kv w op.key (putValue kv op) (putLease kv op)]) :=
    insertKv_fresh fresh rfl rfl
  simp only [putEvent, putRow, putValue, putLease] at inserted ⊢
  cases prev : currentIn kv op.key with
  | none =>
    simp only [prev, Option.map_none, Option.getD_none] at inserted ⊢
    rw [inserted]
    rfl
  | some p =>
    simp only [prev, Option.map_some, Option.getD_some] at inserted ⊢
    rw [inserted]
    rfl

theorem applyPut_writes {op : PutOp} {prevKv : Option KeyValue}
    (accepted : applyPut kv w op = .ok (prevKv, kv', w')) : Writes kv w kv' w' := by
  rw [applyPut_eq fresh] at accepted
  by_cases refused : putRefused kv op = true
  · rw [if_pos refused] at accepted
    cases accepted
  · rw [if_neg refused] at accepted
    cases accepted
    exact .single (.put _ _ _)

/-! ## Deletes -/

/-- The rows and the writer after deleting each victim. -/
def bury : List KeyValue -> List KvRow -> Writer -> List KvRow × Writer
  | [], kv, w => (kv, w)
  | prev :: rest, kv, w => bury rest (kv ++ [tombstoneRow w prev]) (w.wrote (deleteEvent w prev))

theorem FreshWriter.tombstone (prev : KeyValue) :
    FreshWriter (kv ++ [tombstoneRow w prev]) (w.wrote (deleteEvent w prev)) :=
  fresh.concat rfl rfl _

theorem deleteVictims_eq (prevKv : Bool) (victims : List KeyValue) :
    deleteVictims prevKv victims kv w =
      .ok (if prevKv then victims else [], (bury victims kv w).1, (bury victims kv w).2) := by
  induction victims generalizing kv w with
  | nil => cases prevKv <;> rfl
  | cons prev rest ih =>
    have inserted : insertKv kv (tombstoneRow w prev) = .ok (kv ++ [tombstoneRow w prev]) :=
      insertKv_fresh fresh rfl rfl
    have later := ih (fresh.tombstone prev)
    unfold tombstoneRow at inserted
    simp only [deleteVictims, Writer.takeSub, inserted]
    change (deleteVictims prevKv rest (kv ++ [tombstoneRow w prev]) (w.wrote (deleteEvent w prev)) >>= _) = _
    rw [later]
    cases prevKv <;> rfl

theorem currentIn_tombstone (prev : KeyValue) (key : Bytes) :
    currentIn (kv ++ [tombstoneRow w prev]) key = if prev.key = key then none else currentIn kv key :=
  currentIn_concat fresh rfl rfl key

/-- Deleting live pairs of distinct keys is a sequence of writes: each is
still live when its turn comes. -/
theorem bury_writes {victims : List KeyValue}
    (keys : (victims.map KeyValue.key).Nodup)
    (live : forall pair, pair ∈ victims -> currentIn kv pair.key = some pair) :
    Writes kv w (bury victims kv w).1 (bury victims kv w).2 := by
  induction victims generalizing kv w with
  | nil => exact .refl
  | cons prev rest ih =>
    have parts := List.nodup_cons.mp keys
    refine (Writes.single (.delete prev (live prev (.head _)))).trans ?_
    refine ih (fresh.tombstone prev) parts.2 fun pair member => ?_
    have other : prev.key ≠ pair.key := by
      intro same
      exact parts.1 (same ▸ List.mem_map.mpr ⟨pair, member, rfl⟩)
    rw [currentIn_tombstone fresh, if_neg other]
    exact live pair (.tail _ member)

end

theorem currentRangeIn_keys_nodup (distinct : DistinctStamps KvRow.stamp kv) (range : KeyRange) :
    ((currentRangeIn kv range).map KeyValue.key).Nodup := by
  have same : currentRangeIn kv range =
      ((selectIn kv range none).map KvRow.toKeyValue).insertionSort (orderBy none) :=
    congrArg RangeResult.kvs (pageOf_current range _)
  have permutation := (((selectIn kv range none).map KvRow.toKeyValue).perm_insertionSort
    (orderBy none)).map KeyValue.key
  rw [same, permutation.nodup_iff, List.map_map]
  exact selectIn_keys_nodup distinct range none

/-- The writes of a delete over a range. -/
def buryRange (kv : List KvRow) (w : Writer) (range : KeyRange) : List KvRow × Writer :=
  bury (currentRangeIn kv range) kv w

theorem buryRange_writes (distinct : DistinctStamps KvRow.stamp kv) (fresh : FreshWriter kv w)
    (range : KeyRange) : Writes kv w (buryRange kv w range).1 (buryRange kv w range).2 :=
  bury_writes fresh (currentRangeIn_keys_nodup distinct range)
    fun _ member => (mem_currentRangeIn.mp member).2

theorem applyDelete_eq (fresh : FreshWriter kv w) (op : DeleteOp) :
    applyDelete kv w op =
      .ok (((currentRangeIn kv op.range).length : Int),
        if op.prevKv then currentRangeIn kv op.range else [],
        (buryRange kv w op.range).1, (buryRange kv w op.range).2) := by
  change (deleteVictims op.prevKv (currentRangeIn kv op.range) kv w >>= _) = _
  rw [deleteVictims_eq fresh]
  rfl

/-! ## Transactions -/

section

variable (distinct : DistinctStamps KvRow.stamp kv)
include distinct

theorem runRequests_writes {current : Int} {requests : List RequestOp}
    {responses : List OpResponse} (fresh : FreshWriter kv w)
    (accepted : runRequests current requests kv w = .ok (responses, kv', w')) : Writes kv w kv' w' := by
  induction requests generalizing kv w responses with
  | nil =>
    cases accepted
    exact .refl
  | cons request rest ih =>
    cases request with
    | range q =>
      rcases bind_eq_ok accepted with ⟨⟨later, kv₁, w₁⟩, ran, result⟩
      cases result
      exact ih distinct fresh ran
    | put op =>
      rcases bind_eq_ok accepted with ⟨⟨prevKv, kv₁, w₁⟩, put, continued⟩
      rcases bind_eq_ok continued with ⟨⟨later, kv₂, w₂⟩, ran, result⟩
      cases result
      have written := applyPut_writes fresh put
      exact written.trans (ih (distinct_of_writes distinct fresh written)
        (fresh.writes written) ran)
    | delete op =>
      rcases bind_eq_ok accepted with ⟨⟨deleted, prevKvs, kv₁, w₁⟩, removed, continued⟩
      rcases bind_eq_ok continued with ⟨⟨later, kv₂, w₂⟩, ran, result⟩
      cases result
      rw [applyDelete_eq fresh] at removed
      cases removed
      have written := buryRange_writes distinct fresh op.range
      exact written.trans (ih (distinct_of_writes distinct fresh written)
        (fresh.writes written) ran)

/-! ## Leases -/

/-- The rows and the writer after deleting each key. -/
def buryKeys : List Bytes -> List KvRow -> Writer -> List KvRow × Writer
  | [], kv, w => (kv, w)
  | key :: rest, kv, w =>
    buryKeys rest (buryRange kv w (.single key)).1 (buryRange kv w (.single key)).2

theorem deleteKeys_eq (fresh : FreshWriter kv w)
    (keys : List Bytes) : deleteKeys keys kv w = .ok (buryKeys keys kv w) := by
  induction keys generalizing kv w with
  | nil => rfl
  | cons key rest ih =>
    have written := buryRange_writes distinct fresh (.single key)
    unfold deleteKeys
    rw [applyDelete_eq fresh]
    exact ih (distinct_of_writes distinct fresh written) (fresh.writes written)

theorem buryKeys_writes (fresh : FreshWriter kv w)
    (keys : List Bytes) : Writes kv w (buryKeys keys kv w).1 (buryKeys keys kv w).2 := by
  induction keys generalizing kv w with
  | nil => exact .refl
  | cons key rest ih =>
    have written := buryRange_writes distinct fresh (.single key)
    exact written.trans
      (ih (distinct_of_writes distinct fresh written) (fresh.writes written))

end

theorem revokeLease_eq {tx : Db} (distinct : DistinctStamps KvRow.stamp tx.kv) (fresh : FreshWriter tx.kv w)
    (id : Int) :
    revokeLease tx w id =
      .ok ({ tx with
          kv := (buryKeys (leaseKeysIn tx.kv id) tx.kv w).1
          leases := tx.leases.filter fun lease => lease.id ≠ id },
        (buryKeys (leaseKeysIn tx.kv id) tx.kv w).2) := by
  unfold revokeLease
  rw [deleteKeys_eq distinct fresh]
  rfl

end

/-- A database differs from another in its rows and leases alone. -/
structure SameMeta (tx tx' : Db) : Prop where
  revision : tx'.revision = tx.revision
  compactRevision : tx'.compactRevision = tx.compactRevision
  appliedIndex : tx'.appliedIndex = tx.appliedIndex

theorem revokeLeases_writes {ids : List Int} {tx tx' : Db} {w w' : Writer}
    (distinct : DistinctStamps KvRow.stamp tx.kv) (fresh : FreshWriter tx.kv w)
    (accepted : revokeLeases ids tx w = .ok (tx', w')) :
    Writes tx.kv w tx'.kv w' ∧ SameMeta tx tx' := by
  induction ids generalizing tx w with
  | nil =>
    cases accepted
    exact ⟨.refl, rfl, rfl, rfl⟩
  | cons id rest ih =>
    rcases bind_eq_ok accepted with ⟨⟨tx₁, w₁⟩, revoked, ran⟩
    rw [revokeLease_eq distinct fresh] at revoked
    cases revoked
    have written := buryKeys_writes distinct fresh (leaseKeysIn tx.kv id)
    have later := ih (distinct_of_writes distinct fresh written)
      (fresh.writes written) ran
    exact ⟨written.trans later.1, later.2.revision, later.2.compactRevision, later.2.appliedIndex⟩

/-! ## Commands -/

/-- The effect of an accepted command on the version table: a sequence of
writes, or one compaction that writes nothing. -/
inductive Effect (tx : Db) (w : Writer) (current : Int) : Command -> Db -> Writer -> Prop where
  | writes {cmd : Command} {tx' : Db} {w' : Writer} (written : Writes tx.kv w tx'.kv w')
      (same : SameMeta tx tx') : Effect tx w current cmd tx' w'
  | compact {c : Int} (above : tx.compactRevision < c) (reached : c ≤ current) :
      Effect tx w current (.compact c) { tx with kv := pruneRows tx.kv c, compactRevision := c } w

theorem runCommand_effect {tx tx' : Db} {w w' : Writer} {current : Int} {cmd : Command}
    {response : CommandResponse} (distinct : DistinctStamps KvRow.stamp tx.kv)
    (fresh : FreshWriter tx.kv w)
    (accepted : runCommand tx w current cmd = .ok (response, tx', w')) :
    Effect tx w current cmd tx' w' := by
  cases cmd with
  | put op =>
    rcases bind_eq_ok accepted with ⟨⟨prevKv, kv₁, w₁⟩, put, result⟩
    cases result
    exact .writes (applyPut_writes fresh put) ⟨rfl, rfl, rfl⟩
  | delete op =>
    rcases bind_eq_ok accepted with ⟨⟨deleted, prevKvs, kv₁, w₁⟩, removed, result⟩
    rw [applyDelete_eq fresh] at removed
    cases removed
    cases result
    exact .writes (buryRange_writes distinct fresh op.range) ⟨rfl, rfl, rfl⟩
  | txn op =>
    rcases bind_eq_ok accepted with ⟨⟨succeeded, responses, kv₁, w₁⟩, txn, result⟩
    rcases bind_eq_ok txn with ⟨⟨responses', kv₂, w₂⟩, ran, result'⟩
    cases result'
    cases result
    exact .writes (runRequests_writes distinct fresh ran) ⟨rfl, rfl, rfl⟩
  | compact c =>
    rcases bind_eq_ok accepted with ⟨tx₁, compacted, result⟩
    cases result
    rcases applyCompact_ok compacted with ⟨newer, reached, rfl⟩
    exact .compact newer reached
  | leaseGrant id ttlSecs nowUnixSecs | setMember member | removeMember id =>
    cases accepted
    exact .writes .refl ⟨rfl, rfl, rfl⟩
  | leaseRevoke id =>
    rcases bind_eq_ok accepted with ⟨⟨tx₁, w₁⟩, revoked, result⟩
    rw [revokeLease_eq distinct fresh] at revoked
    cases revoked
    cases result
    exact .writes (buryKeys_writes distinct fresh (leaseKeysIn tx.kv id)) ⟨rfl, rfl, rfl⟩
  | leaseKeepAlive id nowUnixSecs =>
    simp only [runCommand] at accepted
    cases held : tx.leases.find? fun lease => lease.id = id with
    | none | some lease =>
      rw [held] at accepted
      cases accepted
      exact .writes .refl ⟨rfl, rfl, rfl⟩
  | expireLeases nowUnixSecs =>
    rcases bind_eq_ok accepted with ⟨⟨tx₁, w₁⟩, revoked, result⟩
    cases result
    have written := revokeLeases_writes distinct fresh revoked
    exact .writes written.1 written.2

/-- The writer a command starts with. -/
def Writer.opened (current : Int) : Writer where
  next := current + 1
  sub := 0
  used := false
  events := []

/-- What an accepted command leaves behind, in terms of its effect. -/
structure Accepted (s : Store) (index : Nat) (cmd : Command) (applied : Applied) (s' : Store)
    (tx : Db) (w : Writer) : Prop where
  effect : Effect s.db (Writer.opened s.db.revision) s.db.revision cmd tx w
  ran : runCommand s.db (Writer.opened s.db.revision) s.db.revision cmd = .ok (applied.response, tx, w)
  events : applied.events = w.events
  revision : applied.revision = if w.used then s.db.revision + 1 else s.db.revision
  db : s'.db =
    { tx with
      revision := applied.revision
      appliedIndex := if index > 0 then index else s.db.appliedIndex }
  cache : s'.rbacCache =
    if commandTouchesRbac cmd || w.events.any fun event => rbacKey event.kv.key then fun _ => none
    else s.rbacCache

theorem applyAt_ok {s s' : Store} {index : Nat} {cmd : Command} {applied : Applied}
    (distinct : DistinctStamps KvRow.stamp s.db.kv)
    (below : forall row, row ∈ s.db.kv -> row.revision ≤ s.db.revision)
    (accepted : s.applyAt index cmd = .ok (applied, s')) :
    Exists fun tx : Db => Exists fun w : Writer => Accepted s index cmd applied s' tx w := by
  rcases bind_eq_ok accepted with ⟨⟨response, tx, w⟩, ran, result⟩
  have effect := runCommand_effect distinct (FreshWriter.of_revision_le below) ran
  have next : w.next = s.db.revision + 1 := by
    cases effect with
    | writes written same => exact written.next_eq
    | compact above reached => rfl
  have applied_index : tx.appliedIndex = s.db.appliedIndex := by
    cases effect with
    | writes written same => exact same.appliedIndex
    | compact above reached => rfl
  rcases result with ⟨rfl, rfl⟩
  refine ⟨tx, w, ⟨effect, ran, rfl, ?_, ?_, rfl⟩⟩
  · simp only [next]
  · by_cases recorded : index > 0
    · simp only [if_pos recorded]
    · simp only [if_neg recorded, ← applied_index]

/-- What a successful command makes of a store. -/
def Store.commit (s : Store) (index : Nat) (cmd : Command) (result : CommandResponse × Db × Writer) :
    Applied × Store :=
  let (response, tx, w) := result
  let revision := if w.used then w.next else s.db.revision
  ({ revision := revision, response := response, events := w.events },
    { db := { tx with revision := revision, appliedIndex := if index > 0 then index else tx.appliedIndex }
      rbacCache :=
        if commandTouchesRbac cmd || w.events.any fun event => rbacKey event.kv.key then fun _ => none
        else s.rbacCache })

theorem applyAt_eq (s : Store) (index : Nat) (cmd : Command) :
    s.applyAt index cmd =
      (runCommand s.db (Writer.opened s.db.revision) s.db.revision cmd).map (s.commit index cmd) := by
  change (runCommand s.db (Writer.opened s.db.revision) s.db.revision cmd >>= _) = _
  cases runCommand s.db (Writer.opened s.db.revision) s.db.revision cmd with
  | error refusal => rfl
  | ok result =>
    by_cases recorded : index > 0
    · simp only [bind, Except.bind, Except.map, Store.commit, if_pos recorded]
    · simp only [bind, Except.bind, Except.map, Store.commit, if_neg recorded]

theorem applyAt_appliedIndex {s s' : Store} {index : Nat} {cmd : Command} {applied : Applied}
    (success : s.applyAt index cmd = .ok (applied, s')) (counted : 0 < index) :
    s'.db.appliedIndex = index := by
  rw [applyAt_eq] at success
  cases ran : runCommand s.db (Writer.opened s.db.revision) s.db.revision cmd with
  | error refusal =>
    rw [ran] at success
    cases success
  | ok result =>
    rw [ran] at success
    cases success
    exact if_pos counted

end NotK8s.Nodestore

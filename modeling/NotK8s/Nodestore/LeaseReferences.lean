import NotK8s.Nodestore.Leases

namespace NotK8s.Nodestore

open Library

/-!
# No key outlives its lease

`apply_put` stores the lease number a client sends without looking it up.  A
key attached to a number nobody was granted belongs to no lease: no expiry
and no revocation ever deletes it.  While every put names a lease of the
table, or none, each live key's lease is there in every state, whatever is
granted again, renewed, revoked, compacted or restored in between.
-/

/-- A lease of this id is in the table. -/
def Granted (leases : List Lease) (id : Int) : Prop :=
  Exists fun lease => lease ∈ leases ∧ lease.id = id

instance (leases : List Lease) (id : Int) : Decidable (Granted leases id) :=
  decidable_of_iff (leases.any fun lease => lease.id = id) (by simp [Granted, List.any_eq_true])

/-- A number a key may carry: none, or a lease of the table. -/
def Attachable (leases : List Lease) (id : Int) : Prop :=
  id ≠ 0 -> Granted leases id

instance (leases : List Lease) (id : Int) : Decidable (Attachable leases id) :=
  inferInstanceAs (Decidable (id ≠ 0 -> Granted leases id))

/-- Every live key with a lease names one of the table. -/
def KeysLeased (leases : List Lease) (kv : List KvRow) : Prop :=
  forall key pair, currentIn kv key = some pair -> Attachable leases pair.lease

/-- The operations a command carries out: those of a transaction are in the
branch it takes. -/
def Command.operations (kv : List KvRow) : Command -> List RequestOp
  | .put op => [.put op]
  | .delete op => [.delete op]
  | .txn op => op.branch kv
  | .compact _ | .leaseGrant _ _ _ | .leaseRevoke _ | .leaseKeepAlive _ _ | .expireLeases _ | .setMember _
  | .removeMember _ => []

/-- The operation brings in no lease number from outside the table. -/
def RequestOp.attachesGranted (leases : List Lease) : RequestOp -> Prop
  | .put op => op.ignoreLease = false -> Attachable leases op.lease
  | .delete _ | .range _ => True

instance (leases : List Lease) : DecidablePred (RequestOp.attachesGranted leases)
  | .put op => inferInstanceAs (Decidable (op.ignoreLease = false -> Attachable leases op.lease))
  | .delete _ | .range _ => inferInstanceAs (Decidable True)

/-- Every put the command carries out names a lease of the table, or none. -/
def AttachesGranted (db : Db) (cmd : Command) : Prop :=
  forall op, op ∈ cmd.operations db.kv -> op.attachesGranted db.leases

instance (db : Db) (cmd : Command) : Decidable (AttachesGranted db cmd) :=
  inferInstanceAs (Decidable (forall op, op ∈ cmd.operations db.kv -> op.attachesGranted db.leases))

/-- The stores that are reached when every command meets a condition in the
state it is applied to, here and on the replicas snapshots come from. -/
inductive ReachableBy (good : Db -> Command -> Prop) : Store -> Prop where
  | fresh : ReachableBy good Store.fresh
  | apply {s s' : Store} {index : Nat} {cmd : Command} {applied : Applied} :
      ReachableBy good s -> good s.db cmd -> s.applyAt index cmd = .ok (applied, s') -> ReachableBy good s'
  | restore {s s' source : Store} :
      ReachableBy good s -> ReachableBy good source -> s.restoreSnapshot source.db.exportSnapshot = .ok s' ->
        ReachableBy good s'
  | read {s : Store} (q : RangeQuery) : ReachableBy good s -> ReachableBy good (s.range q).2

theorem ReachableBy.reachable {good : Db -> Command -> Prop} {s : Store} (reached : ReachableBy good s) :
    Reachable s := by
  induction reached with
  | fresh => exact .fresh
  | apply _ _ success ih => exact .apply ih success
  | restore _ _ success first second => exact .restore first second success
  | read q _ ih => exact .read q ih

theorem ReachableBy.after {good : Db -> Command -> Prop} {s : Store} (reached : ReachableBy good s) (index : Nat)
    {cmd : Command} (allowed : good s.db cmd) : ReachableBy good (s.after (index, cmd)) := by
  cases outcome : s.applyAt index cmd with
  | error refusal =>
    rw [Store.after_error outcome]
    exact reached
  | ok result =>
    rw [Store.after_ok outcome]
    exact .apply reached allowed outcome

/-! ## One command -/

section
variable {kv kv' : List KvRow} {w w' : Writer} {leases leases' : List Lease}

section

variable (leased : KeysLeased leases kv)
include leased

theorem KeysLeased.grown
    (grows : forall id, Granted leases id -> Granted leases' id) : KeysLeased leases' kv :=
  fun key pair current attached => grows _ (leased key pair current attached)

theorem KeysLeased.bury (fresh : FreshWriter kv w) (victims : List KeyValue) :
    KeysLeased leases (bury victims kv w).1 := by
  intro key pair current
  rw [currentIn_bury fresh] at current
  split_ifs at current with buried
  exact leased key pair current

theorem KeysLeased.applyPut (fresh : FreshWriter kv w) {op : PutOp}
    {prevKv : Option KeyValue} (good : op.ignoreLease = false -> Attachable leases op.lease)
    (accepted : applyPut kv w op = .ok (prevKv, kv', w')) : KeysLeased leases kv' := by
  rw [applyPut_eq fresh] at accepted
  by_cases refused : putRefused kv op = true
  · rw [if_pos refused] at accepted
    cases accepted
  rw [if_neg refused] at accepted
  cases accepted
  intro key pair current
  rw [currentIn_concat fresh rfl rfl] at current
  split_ifs at current
  · have carried : pair.lease = putLease kv op := by
      rw [← Option.some.inj ((KvRow.live_of_not_deleted rfl).symm.trans current)]
      rfl
    rw [carried, putLease]
    cases keeps : op.ignoreLease with
    | false => exact good keeps
    | true =>
      rw [if_pos rfl]
      cases before : currentIn kv op.key with
      | none => exact fun impossible => absurd rfl impossible
      | some prev => exact leased op.key prev before
  · exact leased key pair current

theorem KeysLeased.runRequests {current : Int} {requests : List RequestOp} {responses : List OpResponse}
    (distinct : DistinctStamps KvRow.stamp kv) (fresh : FreshWriter kv w)
    (good : forall op, op ∈ requests -> op.attachesGranted leases)
    (accepted : runRequests current requests kv w = .ok (responses, kv', w')) : KeysLeased leases kv' := by
  induction requests generalizing kv w responses with
  | nil =>
    cases accepted
    exact leased
  | cons request rest ih =>
    have here := good request (.head _)
    have later : forall op, op ∈ rest -> op.attachesGranted leases :=
      fun op member => good op (.tail _ member)
    cases request with
    | range q =>
      rcases bind_eq_ok accepted with ⟨⟨others, kv₁, w₁⟩, ran, result⟩
      cases result
      exact ih leased distinct fresh later ran
    | put op =>
      rcases bind_eq_ok accepted with ⟨⟨prevKv, kv₁, w₁⟩, put, continued⟩
      rcases bind_eq_ok continued with ⟨⟨others, kv₂, w₂⟩, ran, result⟩
      cases result
      have written := applyPut_writes fresh put
      exact ih (leased.applyPut fresh here put)
        (distinct_of_writes distinct fresh written) (fresh.writes written) later ran
    | delete op =>
      rcases bind_eq_ok accepted with ⟨⟨deleted, prevKvs, kv₁, w₁⟩, removed, continued⟩
      rcases bind_eq_ok continued with ⟨⟨others, kv₂, w₂⟩, ran, result⟩
      cases result
      rw [applyDelete_eq fresh] at removed
      cases removed
      have written := buryRange_writes distinct fresh op.range
      exact ih (leased.bury fresh _)
        (distinct_of_writes distinct fresh written) (fresh.writes written) later ran

end

end

theorem granted_replaceLease {leases : List Lease} {id : Int} (lease : Lease) (granted : Granted leases id) :
    Granted (replaceLease leases lease) id := by
  rcases granted with ⟨held, member, named⟩
  by_cases same : held.id = lease.id
  · exact ⟨lease, mem_replaceLease.mpr (Or.inl rfl), same.symm.trans named⟩
  · exact ⟨held, mem_replaceLease.mpr (Or.inr ⟨member, same⟩), named⟩

theorem KeysLeased.revoked {tx tx' : Db} {w w' : Writer} {ids : List Int} {victims : List KeyValue}
    (leased : KeysLeased tx.leases tx.kv) (fresh : FreshWriter tx.kv w)
    (revoked : Revoked ids tx w victims tx' w') : KeysLeased tx'.leases tx'.kv := by
  intro key pair current attached
  rw [revoked.table, currentIn_bury fresh] at current
  split_ifs at current with buried
  have named := currentIn_key current
  subst named
  rcases leased pair.key pair current attached with ⟨lease, member, same⟩
  rw [revoked.table]
  refine ⟨lease, List.mem_filter.mpr ⟨member, decide_eq_true ?_⟩, same⟩
  intro listed
  rw [same] at listed
  exact buried (List.mem_map_of_mem ((revoked.held pair).mpr ⟨current, listed⟩))

theorem KeysLeased.runCommand {tx tx' : Db} {w w' : Writer} {current : Int} {cmd : Command}
    {response : CommandResponse} (leased : KeysLeased tx.leases tx.kv)
    (distinct : DistinctStamps KvRow.stamp tx.kv) (fresh : FreshWriter tx.kv w) (good : AttachesGranted tx cmd)
    (accepted : runCommand tx w current cmd = .ok (response, tx', w')) : KeysLeased tx'.leases tx'.kv := by
  cases cmd with
  | put op =>
    rcases bind_eq_ok accepted with ⟨⟨prevKv, kv₁, w₁⟩, put, result⟩
    cases result
    exact leased.applyPut fresh (good _ (.head _)) put
  | delete op =>
    rcases bind_eq_ok accepted with ⟨⟨deleted, prevKvs, kv₁, w₁⟩, removed, result⟩
    rw [applyDelete_eq fresh] at removed
    cases removed
    cases result
    exact leased.bury fresh _
  | txn op =>
    rcases bind_eq_ok accepted with ⟨⟨succeeded, responses, kv₁, w₁⟩, txn, result⟩
    rcases bind_eq_ok txn with ⟨⟨responses', kv₂, w₂⟩, ran, result'⟩
    cases result'
    cases result
    exact leased.runRequests distinct fresh good ran
  | compact c =>
    rcases bind_eq_ok accepted with ⟨tx₁, compacted, result⟩
    cases result
    rcases applyCompact_ok compacted with ⟨_, _, rfl⟩
    intro key pair found
    rw [currentIn_pruneRows distinct] at found
    exact leased key pair found
  | leaseGrant id ttlSecs nowUnixSecs =>
    cases accepted
    exact leased.grown fun _ => granted_replaceLease _
  | leaseRevoke id =>
    rcases bind_eq_ok accepted with ⟨⟨tx₁, w₁⟩, ran, result⟩
    cases result
    rcases revokeLeases_revoked distinct fresh [id] with ⟨victims, tx₂, w₂, all, revoked⟩
    change (revokeLease tx w id >>= _) = _ at all
    rw [ran] at all
    cases all
    exact leased.revoked fresh revoked
  | leaseKeepAlive id nowUnixSecs =>
    simp only [Nodestore.runCommand] at accepted
    cases held : tx.leases.find? fun lease => lease.id = id with
    | none =>
      rw [held] at accepted
      cases accepted
      exact leased
    | some lease =>
      rw [held] at accepted
      cases accepted
      refine leased.grown fun other granted => ?_
      rcases granted with ⟨stored, member, named⟩
      refine ⟨_, List.mem_map_of_mem member, ?_⟩
      rw [← named]
      split_ifs <;> rfl
  | expireLeases nowUnixSecs =>
    rcases bind_eq_ok accepted with ⟨⟨tx₁, w₁⟩, ran, result⟩
    cases result
    rcases revokeLeases_revoked distinct fresh (expiredLeases tx.leases nowUnixSecs) with
      ⟨victims, tx₂, w₂, all, revoked⟩
    rw [ran] at all
    cases all
    exact leased.revoked fresh revoked
  | setMember member | removeMember id =>
    cases accepted
    exact leased

/-! ## Runs -/

theorem ReachableBy.keysLeased {s : Store} (reached : ReachableBy AttachesGranted s) :
    KeysLeased s.db.leases s.db.kv := by
  induction reached with
  | fresh =>
    intro key pair current
    cases current
  | @apply s s' index cmd applied before good success ih =>
    have wellFormed := before.reachable.wellFormed
    rcases wellFormed.accepted success with ⟨tx, w, accepted⟩
    rw [accepted.db]
    change KeysLeased tx.leases tx.kv
    exact ih.runCommand wellFormed.distinct wellFormed.freshWriter good accepted.ran
  | @restore s s' source _ sourceReached success _ ih =>
    have wellFormed := sourceReached.reachable.wellFormed
    have parts := (restoreSnapshot_ok_iff wellFormed.leases wellFormed.members).mp success
    intro key pair current
    rw [parts.2] at current ⊢
    have seen := (visible_restored (export_sorted wellFormed.distinct) parts.1).mp
      ((currentIn_eq_visible _ key).symm.trans current)
    exact ih pair.key pair ((mem_export wellFormed.below).mp seen.1)
  | read q _ ih =>
    rw [range_db]
    exact ih

/-- While puts name leases of the table only, no key outlives its lease; and
in every reachable store an expiry deletes exactly the keys of the leases
whose time is up. -/
theorem leases_own_their_keys (s : Store) :
    (ReachableBy AttachesGranted s -> KeysLeased s.db.leases s.db.kv) ∧
      (Reachable s -> forall index nowUnixSecs, Exists fun applied => Exists fun s' =>
        s.applyAt index (.expireLeases nowUnixSecs) = .ok (applied, s') ∧
          ExpiresExactly s.db nowUnixSecs applied.events s'.db) :=
  ⟨fun reached => reached.keysLeased, fun reached index nowUnixSecs =>
    applyAt_expireLeases reached.wellFormed index nowUnixSecs⟩

/-- A put under lease 7. -/
def leasedPut : Command :=
  .put
    { key := ascii "/a"
      value := ascii "v"
      lease := 7
      prevKv := false
      ignoreValue := false
      ignoreLease := false }

/-- Nobody granted lease 7, and the key is stored under it. -/
theorem leasedPut_unowned : ¬ forall s, Reachable s -> KeysLeased s.db.leases s.db.kv := by
  intro leased
  have reached : ReachableBy (fun _ _ => True) (Store.fresh.after (1, leasedPut)) :=
    ReachableBy.fresh.after 1 True.intro
  have attached := leased _ reached.reachable (ascii "/a")
    { key := ascii "/a", createRevision := 2, modRevision := 2, version := 1, value := ascii "v", lease := 7 }
  exact absurd (attached (by decide +kernel) (by decide)) (by decide +kernel)

/-- The same put after the lease was granted. -/
theorem grantedPut_owned :
    KeysLeased ((Store.fresh.after (1, .leaseGrant 7 60 1000)).after (2, leasedPut)).db.leases
        ((Store.fresh.after (1, .leaseGrant 7 60 1000)).after (2, leasedPut)).db.kv ∧
      Exists fun applied => Exists fun s' =>
        ((Store.fresh.after (1, .leaseGrant 7 60 1000)).after (2, leasedPut)).applyAt 3 (.expireLeases 1060) =
            .ok (applied, s') ∧
          ExpiresExactly ((Store.fresh.after (1, .leaseGrant 7 60 1000)).after (2, leasedPut)).db 1060 applied.events
            s'.db := by
  have granted : ReachableBy AttachesGranted (Store.fresh.after (1, .leaseGrant 7 60 1000)) :=
    ReachableBy.fresh.after 1 (by decide +kernel)
  have put : ReachableBy AttachesGranted ((Store.fresh.after (1, .leaseGrant 7 60 1000)).after (2, leasedPut)) :=
    granted.after 2 (by decide +kernel)
  exact ⟨(leases_own_their_keys _).1 put, (leases_own_their_keys _).2 put.reachable 3 1060⟩

end NotK8s.Nodestore

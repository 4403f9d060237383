import NotK8s.Nodestore.LeaseReferences

namespace NotK8s.Nodestore

open Library

/-!
# The clock of a lease

A grant and a keepalive add the lease's time to live to the clock reading
they carry.  Both are 64-bit integers, the time to live comes from the client
and is only bounded from below, and the sum wraps.  A lease whose sum fits
lies in the future until the clock gets there; one whose sum wraps has
already expired.
-/

def i64Max : Int := 9223372036854775807

theorem i64Add_fits {first second : Int} (lower : i64Min ≤ first + second) (upper : first + second ≤ i64Max) :
    i64Add first second = first + second := by
  unfold i64Min at lower
  unfold i64Max at upper
  unfold i64Add
  rw [Int.bmod_eq_iff (by decide)]
  omega

theorem i64Add_le (first second : Int) : i64Add first second ≤ i64Max := by
  have bound := @Int.bmod_lt (first + second) 18446744073709551616 (by decide)
  unfold i64Add i64Max
  omega

/-! ## Renewals -/

/-- The time to live a client asks for is a 64-bit integer. -/
def WireSized (_db : Db) : Command -> Prop
  | .leaseGrant _ ttlSecs _ => ttlSecs ≤ i64Max
  | .put _ | .delete _ | .txn _ | .compact _ | .leaseRevoke _ | .leaseKeepAlive _ _ | .expireLeases _ | .setMember _
  | .removeMember _ => True

/-- The command starts the clock of a lease: it reads `nowUnixSecs` and the
lease lives for `ttl` seconds from there. -/
inductive Renews (leases : List Lease) (id ttl nowUnixSecs : Int) : Command -> Prop where
  | grant (requested : Int) (clamped : ttl = max requested 1) :
      Renews leases id ttl nowUnixSecs (.leaseGrant id requested nowUnixSecs)
  | keepAlive (lease : Lease) (member : lease ∈ leases) (named : lease.id = id) (granted : lease.ttlSecs = ttl) :
      Renews leases id ttl nowUnixSecs (.leaseKeepAlive id nowUnixSecs)

/-- The command does not touch the clock of the lease, nor runs it out
before `nowUnixSecs` is over. -/
def LeavesLease (id nowUnixSecs : Int) (_s : Store) (entry : Nat × Command) : Prop :=
  match entry.2 with
  | .leaseGrant other _ _ | .leaseKeepAlive other _ | .leaseRevoke other => other ≠ id
  | .expireLeases time => time ≤ nowUnixSecs
  | .put _ | .delete _ | .txn _ | .compact _ | .setMember _ | .removeMember _ => True

/-- An expiry that carries any time up to `nowUnixSecs` keeps every key of
the lease. -/
def SparesKeys (id nowUnixSecs : Int) (s : Store) : Prop :=
  forall index time, time ≤ nowUnixSecs -> forall key pair, currentIn s.db.kv key = some pair -> pair.lease = id ->
    currentIn (s.after (index, .expireLeases time)).db.kv key = some pair

/-- A lease that was just renewed lies in the future, and no expiry up to
the time of the renewal takes its keys. -/
structure InTheFuture (s : Store) (id ttl nowUnixSecs : Int) : Prop where
  /-- The addition did not wrap. -/
  stored : Exists fun lease => lease ∈ s.db.leases ∧ lease.id = id ∧ lease.expiresAt = nowUnixSecs + ttl ∧
    nowUnixSecs < lease.expiresAt
  spared : forall entries, EveryStep Store.after (LeavesLease id nowUnixSecs) s entries ->
    AlongRun Store.after (SparesKeys id nowUnixSecs) s entries

/-! ## The lease table under commands -/

/-- The lease is in the table, running until some time after `nowUnixSecs`. -/
def Running (id nowUnixSecs : Int) (leases : List Lease) : Prop :=
  Exists fun lease => lease ∈ leases ∧ lease.id = id ∧ nowUnixSecs < lease.expiresAt

theorem find_lease {leases : List Lease} (sorted : KeySorted Lease.id leases) {lease : Lease}
    (member : lease ∈ leases) : leases.find? (fun stored => stored.id = lease.id) = some lease := by
  cases found : leases.find? fun stored => decide (stored.id = lease.id) with
  | none =>
    have nowhere := List.find?_eq_none.mp found lease member
    exact absurd (decide_eq_true rfl) nowhere
  | some other =>
    have seen := List.find?_some found
    have named : other.id = lease.id := of_decide_eq_true seen
    rw [eq_of_same_id sorted (List.mem_of_find?_eq_some found) member named]

theorem revokeLeases_leases {ids : List Int} {tx tx' : Db} {w w' : Writer}
    (revoked : revokeLeases ids tx w = .ok (tx', w')) :
    tx'.leases = tx.leases.filter fun lease => lease.id ∉ ids := by
  induction ids generalizing tx w with
  | nil =>
    cases revoked
    simp
  | cons id rest ih =>
    rcases bind_eq_ok revoked with ⟨⟨tx₁, w₁⟩, first, others⟩
    rw [ih others, (revokeLease_tables first).1, List.filter_filter]
    apply List.filter_congr
    intro lease _
    rw [Bool.eq_iff_iff, Bool.and_eq_true, decide_eq_true_eq, decide_eq_true_eq, decide_eq_true_eq, List.mem_cons,
      not_or, and_comm]

/-- The lease under a keepalive that found one. -/
def renewedFor (id nowUnixSecs ttl : Int) (lease : Lease) : Lease :=
  if lease.id = id then { lease with expiresAt := i64Add nowUnixSecs ttl } else lease

theorem renewedFor_ttlSecs (id nowUnixSecs ttl : Int) (lease : Lease) :
    (renewedFor id nowUnixSecs ttl lease).ttlSecs = lease.ttlSecs := by
  unfold renewedFor
  split_ifs <;> rfl

def Command.isLeaseCommand : Command -> Bool
  | .leaseGrant _ _ _ | .leaseRevoke _ | .leaseKeepAlive _ _ | .expireLeases _ => true
  | .put _ | .delete _ | .txn _ | .compact _ | .setMember _ | .removeMember _ => false

/-- What a command can do to the lease table. -/
inductive LeaseChange (leases : List Lease) : Command -> List Lease -> Prop where
  | unrelated (cmd : Command) (other : cmd.isLeaseCommand = false) : LeaseChange leases cmd leases
  | gone (id nowUnixSecs : Int) (missing : leases.find? (fun lease => lease.id = id) = none) :
      LeaseChange leases (.leaseKeepAlive id nowUnixSecs) leases
  | grant (id ttlSecs nowUnixSecs : Int) :
      LeaseChange leases (.leaseGrant id ttlSecs nowUnixSecs)
        (replaceLease leases
          { id := id, ttlSecs := max ttlSecs 1, expiresAt := i64Add nowUnixSecs (max ttlSecs 1) })
  | keepAlive (id nowUnixSecs : Int) (held : Lease)
      (found : leases.find? (fun lease => lease.id = id) = some held) :
      LeaseChange leases (.leaseKeepAlive id nowUnixSecs) (leases.map (renewedFor id nowUnixSecs held.ttlSecs))
  | revoke (id : Int) : LeaseChange leases (.leaseRevoke id) (leases.filter fun lease => lease.id ≠ id)
  | expire (nowUnixSecs : Int) :
      LeaseChange leases (.expireLeases nowUnixSecs)
        (leases.filter fun lease => lease.id ∉ expiredLeases leases nowUnixSecs)

theorem runCommand_leases {tx tx' : Db} {w w' : Writer} {current : Int} {cmd : Command} {response : CommandResponse}
    (accepted : runCommand tx w current cmd = .ok (response, tx', w')) : LeaseChange tx.leases cmd tx'.leases := by
  cases cmd with
  | put op | delete op | txn op =>
    rcases bind_eq_ok accepted with ⟨_, _, result⟩
    cases result
    exact .unrelated _ rfl
  | compact c =>
    rcases bind_eq_ok accepted with ⟨tx₁, compacted, result⟩
    cases result
    rcases applyCompact_ok compacted with ⟨_, _, rfl⟩
    exact .unrelated _ rfl
  | leaseGrant id ttlSecs nowUnixSecs =>
    cases accepted
    exact .grant id ttlSecs nowUnixSecs
  | leaseRevoke id =>
    rcases bind_eq_ok accepted with ⟨⟨tx₁, w₁⟩, revoked, result⟩
    cases result
    rw [(revokeLease_tables revoked).1]
    exact .revoke id
  | leaseKeepAlive id nowUnixSecs =>
    simp only [runCommand] at accepted
    cases held : tx.leases.find? fun stored => stored.id = id with
    | none =>
      rw [held] at accepted
      cases accepted
      exact .gone id nowUnixSecs held
    | some renewed =>
      rw [held] at accepted
      cases accepted
      exact .keepAlive id nowUnixSecs renewed held
  | expireLeases nowUnixSecs =>
    rcases bind_eq_ok accepted with ⟨⟨tx₁, w₁⟩, ran, result⟩
    cases result
    rw [revokeLeases_leases ran]
    exact .expire nowUnixSecs
  | setMember _ | removeMember _ =>
    cases accepted
    exact .unrelated _ rfl

theorem Accepted.leases {s s' : Store} {index : Nat} {cmd : Command} {applied : Applied} {tx : Db} {w : Writer}
    (accepted : Accepted s index cmd applied s' tx w) : LeaseChange s.db.leases cmd s'.db.leases := by
  rw [accepted.db]
  change LeaseChange s.db.leases cmd tx.leases
  exact runCommand_leases accepted.ran

section
variable {leases leases' : List Lease} {cmd : Command} {id ttl nowUnixSecs : Int}

theorem Renews.stored (renews : Renews leases id ttl nowUnixSecs cmd) (sorted : KeySorted Lease.id leases)
    (change : LeaseChange leases cmd leases') :
    { id := id, ttlSecs := ttl, expiresAt := i64Add nowUnixSecs ttl } ∈ leases' := by
  cases renews with
  | grant requested clamped =>
    cases change with
    | unrelated _ other => cases other
    | grant =>
      rw [clamped]
      exact mem_replaceLease.mpr (Or.inl rfl)
  | keepAlive lease member named granted =>
    have answer := find_lease sorted member
    rw [named] at answer
    cases change with
    | unrelated _ other => cases other
    | gone _ _ missing =>
      rw [missing] at answer
      cases answer
    | keepAlive _ _ held found =>
      rw [found] at answer
      cases answer
      refine List.mem_map.mpr ⟨lease, member, ?_⟩
      unfold renewedFor
      rw [if_pos named, ← named, ← granted]

theorem Running.change (running : Running id nowUnixSecs leases) (sorted : KeySorted Lease.id leases)
    {s : Store} {index : Nat} (leaves : LeavesLease id nowUnixSecs s (index, cmd))
    (change : LeaseChange leases cmd leases') : Running id nowUnixSecs leases' := by
  rcases running with ⟨lease, member, named, later⟩
  have other : forall number, number ≠ id -> lease.id ≠ number := fun number different same =>
    different (same.symm.trans named)
  cases change with
  | unrelated | gone => exact ⟨lease, member, named, later⟩
  | grant number => exact ⟨lease, mem_replaceLease.mpr (Or.inr ⟨member, other number leaves⟩), named, later⟩
  | keepAlive number clock =>
    refine ⟨lease, List.mem_map.mpr ⟨lease, member, ?_⟩, named, later⟩
    exact if_neg (other number leaves)
  | revoke number =>
    exact ⟨lease, List.mem_filter.mpr ⟨member, decide_eq_true (other number leaves)⟩, named, later⟩
  | expire time =>
    refine ⟨lease, List.mem_filter.mpr ⟨member, decide_eq_true ?_⟩, named, later⟩
    rw [mem_expiredLeases, expired_iff sorted member]
    exact not_le.mpr (lt_of_le_of_lt leaves later)

/-- Every stored time to live is positive and fits. -/
def TtlsBounded (leases : List Lease) : Prop :=
  forall lease, lease ∈ leases -> 1 ≤ lease.ttlSecs ∧ lease.ttlSecs ≤ i64Max

theorem TtlsBounded.change (bounded : TtlsBounded leases) {db : Db} (sized : WireSized db cmd)
    (change : LeaseChange leases cmd leases') : TtlsBounded leases' := by
  intro lease member
  cases change with
  | unrelated | gone => exact bounded lease member
  | grant =>
    rcases mem_replaceLease.mp member with rfl | ⟨old, _⟩
    · exact ⟨le_max_right _ _, max_le sized (by decide)⟩
    · exact bounded lease old
  | keepAlive =>
    rcases List.mem_map.mp member with ⟨stored, old, rfl⟩
    rw [renewedFor_ttlSecs]
    exact bounded stored old
  | revoke | expire => exact bounded lease (List.mem_filter.mp member).1

end

theorem ReachableBy.ttlsBounded {s : Store} (reached : ReachableBy WireSized s) : TtlsBounded s.db.leases := by
  induction reached with
  | fresh => nofun
  | @apply s s' index cmd applied before good success ih =>
    rcases before.reachable.wellFormed.accepted success with ⟨tx, w, accepted⟩
    exact ih.change good accepted.leases
  | @restore s s' source _ sourceReached success _ ih =>
    have wellFormed := sourceReached.reachable.wellFormed
    have parts := (restoreSnapshot_ok_iff wellFormed.leases wellFormed.members).mp success
    rw [parts.2]
    exact ih
  | read q _ ih =>
    rw [range_db]
    exact ih

/-! ## Runs -/

/-- A running lease keeps running while its clock is left alone, and no
expiry on the way takes its keys. -/
theorem Running.alongRun {s : Store} {id nowUnixSecs : Int} (wellFormed : s.db.WellFormed)
    (running : Running id nowUnixSecs s.db.leases) {entries : List (Nat × Command)}
    (leaves : EveryStep Store.after (LeavesLease id nowUnixSecs) s entries) :
    AlongRun Store.after (SparesKeys id nowUnixSecs) s entries := by
  have keeps : forall (u : Store) (entry : Nat × Command),
      u.db.WellFormed ∧ Running id nowUnixSecs u.db.leases -> LeavesLease id nowUnixSecs u entry ->
        (u.after entry).db.WellFormed ∧ Running id nowUnixSecs (u.after entry).db.leases := by
    rintro u ⟨index, cmd⟩ ⟨sound, there⟩ alone
    refine ⟨(after_wellFormed sound _).1, ?_⟩
    cases outcome : u.applyAt index cmd with
    | error refusal =>
      rw [Store.after_error outcome]
      exact there
    | ok result =>
      rw [Store.after_ok outcome]
      rcases sound.accepted outcome with ⟨tx, w, accepted⟩
      exact there.change sound.leases alone accepted.leases
  refine (AlongRun.of_invariant keeps ⟨wellFormed, running⟩ leaves).mono ?_
  rintro u ⟨sound, lease, member, named, later⟩ index time early key pair current held
  rcases applyAt_expireLeases sound index time with ⟨applied, u', success, exactly⟩
  rw [Store.after_ok success]
  refine (exactly.kept key ?_).trans current
  intro other found past
  rw [current] at found
  cases found
  rw [held, ← named, expired_iff sound.leases member] at past
  exact absurd past (not_le.mpr (lt_of_le_of_lt early later))

/-- A renewed lease lies in the future exactly when the clock reading and
the time to live add up to a 64-bit integer. -/
theorem renewed_inTheFuture_iff {s s' : Store} {index : Nat} {cmd : Command} {applied : Applied}
    {id ttl nowUnixSecs : Int} (reached : ReachableBy WireSized s) (sized : WireSized s.db cmd)
    (clock : 0 ≤ nowUnixSecs) (renews : Renews s.db.leases id ttl nowUnixSecs cmd)
    (success : s.applyAt index cmd = .ok (applied, s')) :
    InTheFuture s' id ttl nowUnixSecs <-> nowUnixSecs + ttl ≤ i64Max := by
  have wellFormed := reached.reachable.wellFormed
  have wellFormed' := applyAt_wellFormed wellFormed success
  rcases wellFormed.accepted success with ⟨tx, w, accepted⟩
  have member : { id := id, ttlSecs := ttl, expiresAt := i64Add nowUnixSecs ttl } ∈ s'.db.leases :=
    renews.stored wellFormed.leases accepted.leases
  have positive : 1 ≤ ttl := (ReachableBy.ttlsBounded (.apply reached sized success) _ member).1
  constructor
  · intro future
    rcases future.stored with ⟨lease, stored, named, sum, _⟩
    have same := eq_of_same_id wellFormed'.leases stored member named
    rw [← sum, same]
    exact i64Add_le nowUnixSecs ttl
  · intro fits
    have sum : i64Add nowUnixSecs ttl = nowUnixSecs + ttl := by
      refine i64Add_fits ?_ fits
      unfold i64Min
      omega
    have later : nowUnixSecs < i64Add nowUnixSecs ttl := by
      rw [sum]
      omega
    exact ⟨⟨_, member, rfl, sum, later⟩, fun entries leaves =>
      Running.alongRun wellFormed' ⟨_, member, rfl, later⟩ leaves⟩

/-- The longest time to live a client can ask for wraps on any clock that
has started. -/
theorem longestLease_expired :
    ¬ forall (s s' : Store) (index : Nat) (applied : Applied) (id requested nowUnixSecs : Int),
      ReachableBy WireSized s -> requested ≤ i64Max -> 0 ≤ nowUnixSecs -> nowUnixSecs ≤ i64Max ->
        s.applyAt index (.leaseGrant id requested nowUnixSecs) = .ok (applied, s') ->
          InTheFuture s' id (max requested 1) nowUnixSecs := by
  intro always
  have outcome : Store.fresh.applyAt 1 (.leaseGrant 7 i64Max 1000) = .ok _ := rfl
  have future := always Store.fresh _ 1 _ 7 i64Max 1000 .fresh le_rfl (by decide) (by decide) outcome
  rcases future.stored with ⟨lease, member, _, _, later⟩
  have only := List.mem_singleton.mp member
  rw [only] at later
  exact absurd later (by decide)

/-- A lease of a minute. -/
theorem minuteLease_inTheFuture : InTheFuture (Store.fresh.after (1, .leaseGrant 7 60 1000)) 7 60 1000 := by
  have outcome : Store.fresh.applyAt 1 (.leaseGrant 7 60 1000) = .ok _ := rfl
  have sized : WireSized Store.fresh.db (.leaseGrant 7 60 1000) := show (60 : Int) ≤ i64Max by decide
  exact (renewed_inTheFuture_iff ReachableBy.fresh sized (by decide) (.grant 60 (by decide)) outcome).mpr (by decide)

end NotK8s.Nodestore

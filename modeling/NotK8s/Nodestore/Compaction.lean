import NotK8s.Library.Programs
import NotK8s.Nodestore.RbacCache
import NotK8s.Nodestore.Replay

namespace NotK8s.Nodestore

open Library

/-!
# What a compaction changes

A store that accepted a compaction is compared with the store it would have
been without.  Reads above the point, current values and every command see
the same rows, because they read the newest rows and write above the point.
Two things do tell the stores apart.  A replay takes the first row of the
revision a row names, and compaction may remove that row and keep a later one
of the same revision.  A read inside a transaction names its own revision
and is not checked against the compaction point.
-/

/-! ## Commands on a pruned table -/

section
variable {kv kv' : List KvRow} {w w' : Writer} {c : Int}

theorem currentIn_pruneRows (distinct : DistinctStamps KvRow.stamp kv) (c : Int) (key : Bytes) :
    currentIn (pruneRows kv c) key = currentIn kv key :=
  visible_pruneRows distinct (covers_within_none c) key

theorem currentRangeIn_pruneRows (distinct : DistinctStamps KvRow.stamp kv) (c : Int) (range : KeyRange) :
    currentRangeIn (pruneRows kv c) range = currentRangeIn kv range :=
  congrArg RangeResult.kvs (rangeIn_pruneRows distinct (covers_within_none c) range _)

/-- A transaction on the pruned table follows one on the whole table. -/
structure PrunedTable (c : Int) (kv : List KvRow) (w : Writer) (kv' : List KvRow) (w' : Writer) : Prop where
  distinct : DistinctStamps KvRow.stamp kv
  fresh : FreshWriter kv w
  above : c < w.next
  rows : kv' = pruneRows kv c
  writer : w' = w

section

variable (pruned : PrunedTable c kv w kv' w')
include pruned

theorem PrunedTable.write {row : KvRow} (revision : row.revision = w.next)
    (sub : row.sub = w.sub) (event : Event) :
    PrunedTable c (kv ++ [row]) (w.wrote event) (kv' ++ [row]) (w'.wrote event) := by
  have distinct := pruned.fresh.distinct_concat pruned.distinct revision sub
  refine ⟨distinct, pruned.fresh.concat revision sub event, pruned.above, ?_, ?_⟩
  · rw [pruned.rows, pruneRows_append distinct]
    intro last member
    rw [List.mem_singleton.mp member, revision]
    exact pruned.above
  · rw [pruned.writer]

theorem PrunedTable.current (key : Bytes) :
    currentIn kv' key = currentIn kv key := by
  rw [pruned.rows]
  exact currentIn_pruneRows pruned.distinct c key

theorem PrunedTable.freshThere : FreshWriter kv' w' := by
  rw [pruned.rows, pruned.writer]
  exact fun row member => pruned.fresh row (mem_of_mem_pruneRows member)

theorem PrunedTable.distinctThere : DistinctStamps KvRow.stamp kv' := by
  rw [pruned.rows]
  exact distinct_pruneRows pruned.distinct c

theorem applyPut_lockstep (op : PutOp) :
    Lockstep (fun left right => right.1 = left.1 ∧ PrunedTable c left.2.1 left.2.2 right.2.1 right.2.2)
      (applyPut kv w op) (applyPut kv' w' op) := by
  have refused : putRefused kv' op = putRefused kv op := by
    unfold putRefused
    rw [pruned.current]
  have value : putValue kv' op = putValue kv op := by
    unfold putValue
    rw [pruned.current]
  have lease : putLease kv' op = putLease kv op := by
    unfold putLease
    rw [pruned.current]
  have row : putRow kv' w' op.key (putValue kv op) (putLease kv op) =
      putRow kv w op.key (putValue kv op) (putLease kv op) := by
    unfold putRow
    rw [pruned.current, pruned.writer]
  have event : putEvent kv' w' op.key (putValue kv op) (putLease kv op) =
      putEvent kv w op.key (putValue kv op) (putLease kv op) := by
    unfold putEvent
    rw [row, pruned.current]
  rw [applyPut_eq pruned.fresh, applyPut_eq pruned.freshThere, refused, value, lease, row, event]
  by_cases refusal : putRefused kv op = true
  · rw [if_pos refusal, if_pos refusal]
    exact Lockstep.refused _
  · rw [if_neg refusal, if_neg refusal]
    refine ⟨?_, pruned.write rfl rfl _⟩
    rw [pruned.current]

theorem bury_lockstep (victims : List KeyValue) :
    PrunedTable c (bury victims kv w).1 (bury victims kv w).2 (bury victims kv' w').1 (bury victims kv' w').2 := by
  induction victims generalizing kv w kv' w' with
  | nil => exact pruned
  | cons prev rest ih =>
    have written := @PrunedTable.write _ _ _ _ _ pruned (tombstoneRow w prev) rfl rfl (deleteEvent w prev)
    have writer := pruned.writer
    subst writer
    exact ih written

theorem buryRange_lockstep (range : KeyRange) :
    PrunedTable c (buryRange kv w range).1 (buryRange kv w range).2
      (buryRange kv' w' range).1 (buryRange kv' w' range).2 := by
  unfold buryRange
  have victims : currentRangeIn kv' range = currentRangeIn kv range := by
    rw [pruned.rows]
    exact currentRangeIn_pruneRows pruned.distinct c range
  rw [victims]
  exact bury_lockstep pruned _

theorem buryKeys_lockstep (keys : List Bytes) :
    PrunedTable c (buryKeys keys kv w).1 (buryKeys keys kv w).2 (buryKeys keys kv' w').1 (buryKeys keys kv' w').2 := by
  induction keys generalizing kv w kv' w' with
  | nil => exact pruned
  | cons key rest ih => exact ih (buryRange_lockstep pruned (.single key))

theorem applyDelete_lockstep (op : DeleteOp) :
    Lockstep (fun left right => right.1 = left.1 ∧ right.2.1 = left.2.1 ∧
        PrunedTable c left.2.2.1 left.2.2.2 right.2.2.1 right.2.2.2)
      (applyDelete kv w op) (applyDelete kv' w' op) := by
  have victims : currentRangeIn kv' op.range = currentRangeIn kv op.range := by
    rw [pruned.rows]
    exact currentRangeIn_pruneRows pruned.distinct c op.range
  rw [applyDelete_eq pruned.fresh, applyDelete_eq pruned.freshThere, victims]
  exact ⟨rfl, rfl, buryRange_lockstep pruned op.range⟩

end

/-- The rows that hold a lease's keys have different keys: each is the newest of its own. -/
theorem leaseRows_keys_nodup (distinct : DistinctStamps KvRow.stamp kv) (id : Int) :
    ((kv.filter fun row => decide (newestOf kv none row.key = some row) && !row.deleted &&
      decide (row.lease = id)).map KvRow.key).Nodup := by
  refine List.pairwise_map.mpr ((distinct.filter _).imp_of_mem fun {first second} firstMem secondMem differ same => ?_)
  have firstParts := (List.mem_filter.mp firstMem).2
  have secondParts := (List.mem_filter.mp secondMem).2
  simp only [Bool.and_eq_true, decide_eq_true_eq] at firstParts secondParts
  have found := firstParts.1.1
  rw [same, secondParts.1.1] at found
  exact differ (congrArg KvRow.stamp (Option.some.inj found).symm)

theorem leaseKeysIn_pruneRows (distinct : DistinctStamps KvRow.stamp kv) (c id : Int) :
    leaseKeysIn (pruneRows kv c) id = leaseKeysIn kv id := by
  refine insertionSort_eq_of_mem_iff (leaseRows_keys_nodup (distinct_pruneRows distinct c) id)
    (leaseRows_keys_nodup distinct id)
    (fun key => ?_) fun first second _ _ before after => le_antisymm before after
  rw [List.mem_map, List.mem_map]
  refine exists_congr fun row => and_congr_left fun _ => ?_
  simp only [List.mem_filter, Bool.and_eq_true, decide_eq_true_eq, Bool.not_eq_true']
  constructor
  · rintro ⟨member, ⟨found, alive⟩, held⟩
    exact ⟨mem_of_mem_pruneRows member,
      ⟨(newestWhere_pruneRows_iff distinct (covers_within_none c) alive).mp found, alive⟩, held⟩
  · rintro ⟨member, ⟨found, alive⟩, held⟩
    have kept : newestOf (pruneRows kv c) none row.key = some row :=
      (newestWhere_pruneRows_iff distinct (covers_within_none c) alive).mpr found
    exact ⟨(newestOf_spec kept).1, ⟨kept, alive⟩, held⟩

theorem evaluateCompare_lockstep (pruned : PrunedTable c kv w kv' w') (compare : Compare) :
    evaluateCompare kv' compare = evaluateCompare kv compare := by
  unfold evaluateCompare
  rw [pruned.current]

theorem branch_lockstep (pruned : PrunedTable c kv w kv' w') (op : TxnOp) :
    op.branch kv' = op.branch kv ∧ op.compare.all (evaluateCompare kv') = op.compare.all (evaluateCompare kv) := by
  have compares : evaluateCompare kv' = evaluateCompare kv := by
    funext compare
    exact evaluateCompare_lockstep pruned compare
  unfold TxnOp.branch
  rw [compares]
  exact ⟨rfl, rfl⟩

/-! ## Reads inside a transaction -/

/-- What a transaction's read at a revision up to the point sees is still
there after the compaction. -/
def KeptRead (kv : List KvRow) (c : Int) (q : RangeQuery) : Prop :=
  0 < q.revision -> q.revision ≤ c -> forall key, q.range.contains key = true ->
    visible (pruneRows kv c) (some q.revision) key = visible kv (some q.revision) key

theorem pageOf_count (query : RangeQuery) (rows : List KeyValue) : (pageOf query rows).count = rows.length := by
  by_cases counting : query.countOnly = true
  · unfold pageOf
    rw [if_pos counting]
  · rw [pageOf_listing (Bool.eq_false_iff.mpr counting)]

/-- Pruning can only lose pairs of a read, so equal pages list the same
pairs. -/
theorem visible_eq_of_page_eq (distinct : DistinctStamps KvRow.stamp kv) {r : Int} (atMost : r ≤ c)
    {range : KeyRange} {query : RangeQuery}
    (same : rangeIn (pruneRows kv c) range (some r) query = rangeIn kv range (some r) query)
    {key : Bytes} (inside : range.contains key = true) :
    visible (pruneRows kv c) (some r) key = visible kv (some r) key := by
  have subset : (selectIn (pruneRows kv c) range (some r)).map KvRow.toKeyValue ⊆
      (selectIn kv range (some r)).map KvRow.toKeyValue := by
    intro pair member
    rw [mem_selectIn_map] at member ⊢
    exact ⟨member.1, visible_of_visible_pruneRows distinct atMost member.2⟩
  have counts := congrArg RangeResult.count same
  unfold rangeIn at counts
  rw [pageOf_count, pageOf_count, Int.natCast_inj] at counts
  have permutation : ((selectIn (pruneRows kv c) range (some r)).map KvRow.toKeyValue).Perm
      ((selectIn kv range (some r)).map KvRow.toKeyValue) :=
    (List.subperm_of_subset (selectIn_pairs_nodup (distinct_pruneRows distinct c) range (some r))
      subset).perm_of_length_le counts.ge
  refine Option.ext fun pair => ?_
  constructor
  · exact visible_of_visible_pruneRows distinct atMost
  · intro seen
    have key := visible_key seen
    subst key
    have listed := permutation.mem_iff.mpr (mem_selectIn_map.mpr ⟨inside, seen⟩)
    exact (mem_selectIn_map.mp listed).2

/-- A read inside a transaction answers alike exactly when what it sees is
kept. -/
theorem txnRead_eq_iff (pruned : PrunedTable c kv w kv' w') {current : Int} (reached : c ≤ current)
    (q : RangeQuery) :
    rangeIn kv' q.range (some (txnReadRevision w' current q)) q =
        rangeIn kv q.range (some (txnReadRevision w current q)) q <-> KeptRead kv c q := by
  rw [pruned.rows, pruned.writer]
  have above := pruned.above
  unfold txnReadRevision KeptRead
  by_cases explicit : q.revision > 0
  · rw [if_pos explicit]
    by_cases below : q.revision ≤ c
    · constructor
      · intro same _ _ key inside
        exact visible_eq_of_page_eq pruned.distinct below same inside
      · intro kept
        exact rangeIn_congr (distinct_pruneRows pruned.distinct c) pruned.distinct q.range q
          fun key inside => kept explicit below key inside
    · refine iff_of_true ?_ fun _ impossible => absurd impossible below
      exact rangeIn_pruneRows pruned.distinct (covers_within_some (not_le.mp below).le) q.range q
  · rw [if_neg explicit]
    refine iff_of_true ?_ fun impossible => absurd impossible explicit
    apply rangeIn_pruneRows pruned.distinct
    apply covers_within_some
    split_ifs <;> omega

theorem keptRead_of_writes {kv₁ : List KvRow} {w₁ : Writer} (distinct : DistinctStamps KvRow.stamp kv)
    (fresh : FreshWriter kv w) (above : c < w.next) (written : Writes kv w kv₁ w₁) (q : RangeQuery) :
    KeptRead kv₁ c q <-> KeptRead kv c q := by
  have grown := distinct_of_writes distinct fresh written
  rcases written.rows with ⟨rows, shape, revisions⟩
  refine forall_congr' fun _ => forall_congr' fun below => forall_congr' fun key => forall_congr' fun _ => ?_
  have earlier : q.revision < w.next := lt_of_le_of_lt below above
  have later : pruneRows kv₁ c = pruneRows kv c ++ rows := by
    rw [shape] at grown ⊢
    refine pruneRows_append grown fun row member => ?_
    rw [revisions row member]
    exact above
  have pruned : visible (pruneRows kv₁ c) (some q.revision) key =
      visible (pruneRows kv c) (some q.revision) key := by
    unfold visible newestOf newest
    rw [later, List.filter_append]
    have none_seen : (rows.filter fun row => decide (row.key = key) && row.within (some q.revision)) = [] := by
      refine List.filter_eq_nil_iff.mpr fun row member seen => ?_
      have inside : row.revision ≤ q.revision := of_decide_eq_true (Bool.and_eq_true_iff.mp seen).2
      rw [revisions row member] at inside
      exact absurd earlier (not_lt.mpr inside)
    rw [none_seen, List.append_nil]
  rw [pruned, written.visible_earlier fresh earlier]

/-- A transaction branch answers alike exactly when all its reads are kept,
and writes the same rows either way. -/
theorem runRequests_lockstep (pruned : PrunedTable c kv w kv' w') {current : Int} (reached : c ≤ current)
    (requests : List RequestOp) :
    Lockstep (fun left right => PrunedTable c left.2.1 left.2.2 right.2.1 right.2.2 ∧
        (right.1 = left.1 <-> forall q, .range q ∈ requests -> KeptRead kv c q))
      (runRequests current requests kv w) (runRequests current requests kv' w') := by
  induction requests generalizing kv w kv' w' with
  | nil => exact ⟨pruned, iff_of_true rfl nofun⟩
  | cons request rest ih =>
    have head : forall q : RangeQuery, (forall other, .range other ∈ .range q :: rest -> KeptRead kv c other) <->
        KeptRead kv c q ∧ forall other, .range other ∈ rest -> KeptRead kv c other := by
      intro q
      simp only [List.mem_cons, RequestOp.range.injEq]
      constructor
      · intro kept
        exact ⟨kept q (Or.inl rfl), fun other member => kept other (Or.inr member)⟩
      · rintro ⟨kept, others⟩ other (rfl | member)
        · exact kept
        · exact others other member
    have skip : forall request : RequestOp, (forall q, request ≠ .range q) ->
        ((forall other, .range other ∈ request :: rest -> KeptRead kv c other) <->
          forall other, .range other ∈ rest -> KeptRead kv c other) := by
      intro request notRead
      refine forall_congr' fun other => imp_congr_left ?_
      rw [List.mem_cons, or_iff_right fun same => notRead other same.symm]
    cases request with
    | range q =>
      have answer := txnRead_eq_iff pruned reached q
      refine (ih pruned).bind fun left right _ related => ?_
      refine ⟨related.1, ?_⟩
      rw [List.cons.injEq, OpResponse.range.injEq, answer, related.2, head q]
    | put op =>
      refine (applyPut_lockstep pruned op).bind fun left right accepted related => ?_
      have kept := fun q => keptRead_of_writes pruned.distinct pruned.fresh pruned.above
        (applyPut_writes pruned.fresh accepted) q
      refine (ih related.2).bind fun left' right' _ related' => ?_
      refine ⟨related'.1, ?_⟩
      have others := skip (.put op) (by intro q impossible; cases impossible)
      rw [others, List.cons.injEq, related.1,
        and_iff_right rfl, related'.2]
      simp only [kept]
    | delete op =>
      refine (applyDelete_lockstep pruned op).bind fun left right accepted related => ?_
      have written : Writes kv w left.2.2.1 left.2.2.2 := by
        rw [applyDelete_eq pruned.fresh] at accepted
        cases accepted
        exact buryRange_writes pruned.distinct pruned.fresh op.range
      have kept := fun q => keptRead_of_writes pruned.distinct pruned.fresh pruned.above written q
      refine (ih related.2.2).bind fun left' right' _ related' => ?_
      refine ⟨related'.1, ?_⟩
      have others := skip (.delete op) (by intro q impossible; cases impossible)
      rw [others, List.cons.injEq, related.1, related.2.1,
        and_iff_right rfl, related'.2]
      simp only [kept]

/-- A transaction takes the same branch and answers alike exactly when the
reads of that branch are kept. -/
theorem applyTxn_lockstep (pruned : PrunedTable c kv w kv' w') {current : Int} (reached : c ≤ current)
    (op : TxnOp) :
    Lockstep (fun left right => right.1 = left.1 ∧
        PrunedTable c left.2.2.1 left.2.2.2 right.2.2.1 right.2.2.2 ∧
          (right.2.1 = left.2.1 <-> forall q, .range q ∈ op.branch kv -> KeptRead kv c q))
      (applyTxn kv w op current) (applyTxn kv' w' op current) := by
  have branch := branch_lockstep pruned op
  unfold applyTxn
  rw [branch.1, branch.2]
  refine (runRequests_lockstep pruned reached (op.branch kv)).bind fun left right _ related => ?_
  exact ⟨rfl, related⟩

end

/-! ## Commands -/

/-- A database follows another that was not compacted at `c`. -/
structure Follows (c : Int) (db db' : Db) : Prop where
  kv : db'.kv = pruneRows db.kv c
  revision : db'.revision = db.revision
  compactRevision : db'.compactRevision = max db.compactRevision c
  leases : db'.leases = db.leases
  members : db'.members = db.members

/-- The reads a command would do inside a transaction are kept. -/
def KeptBranch (c : Int) (db : Db) : Command -> Prop
  | .txn op => forall q, .range q ∈ op.branch db.kv -> KeptRead db.kv c q
  | _ => True

/-- The results of a command on the two databases. -/
def FollowsResult (c : Int) (kept : Prop) (left right : CommandResponse × Db × Writer) : Prop :=
  right.2.2 = left.2.2 ∧ Follows c left.2.1 right.2.1 ∧ (right.1 = left.1 <-> kept)

theorem revokeLease_lockstep {c : Int} {tx tx' : Db} {w w' : Writer} (follows : Follows c tx tx')
    (pruned : PrunedTable c tx.kv w tx'.kv w') (id : Int) :
    Lockstep (fun left right => Follows c left.1 right.1 ∧ PrunedTable c left.1.kv left.2 right.1.kv right.2)
      (revokeLease tx w id) (revokeLease tx' w' id) := by
  have keys : leaseKeysIn tx'.kv id = leaseKeysIn tx.kv id := by
    rw [follows.kv]
    exact leaseKeysIn_pruneRows pruned.distinct c id
  rw [revokeLease_eq pruned.distinct pruned.fresh, revokeLease_eq pruned.distinctThere pruned.freshThere, keys]
  have buried := buryKeys_lockstep pruned (leaseKeysIn tx.kv id)
  refine ⟨⟨buried.rows, follows.revision, follows.compactRevision, ?_, follows.members⟩, buried⟩
  rw [follows.leases]

theorem revokeLeases_lockstep {c : Int} {tx tx' : Db} {w w' : Writer} (follows : Follows c tx tx')
    (pruned : PrunedTable c tx.kv w tx'.kv w') (ids : List Int) :
    Lockstep (fun left right => Follows c left.1 right.1 ∧ right.2 = left.2)
      (revokeLeases ids tx w) (revokeLeases ids tx' w') := by
  induction ids generalizing tx tx' w w' with
  | nil => exact ⟨follows, pruned.writer⟩
  | cons id rest ih =>
    refine (revokeLease_lockstep follows pruned id).bind fun left right _ related => ?_
    exact ih related.1 related.2

/-- Compacting both databases further keeps one following the other; the
compacted one may refuse what the other accepts. -/
theorem applyCompact_lockstep {c : Int} {tx tx' : Db} {current later : Int} (follows : Follows c tx tx')
    (distinct : DistinctStamps KvRow.stamp tx.kv) :
    later ≤ tx'.compactRevision ∨
      Lockstep (Follows c) (applyCompact tx later current) (applyCompact tx' later current) := by
  unfold applyCompact
  by_cases refused : later ≤ tx'.compactRevision
  · exact Or.inl refused
  · have bounds := not_le.mp refused
    rw [follows.compactRevision, max_lt_iff] at bounds
    refine Or.inr ?_
    rw [if_neg refused, if_neg (not_le.mpr bounds.1)]
    by_cases future : later > current
    · rw [if_pos future, if_pos future]
      exact Lockstep.refused _
    · rw [if_neg future, if_neg future]
      refine ⟨?_, follows.revision, ?_, follows.leases, follows.members⟩
      · rw [follows.kv, pruneRows_pruneRows distinct bounds.2.le, pruneRows_of_pruned distinct bounds.2.le]
      · exact (max_eq_left bounds.2.le).symm

theorem runCommand_lockstep {c : Int} {tx tx' : Db} {w w' : Writer} {current : Int} (follows : Follows c tx tx')
    (pruned : PrunedTable c tx.kv w tx'.kv w') (reached : c ≤ current) (cmd : Command) :
    (Exists fun later : Int => cmd = .compact later ∧ later ≤ tx'.compactRevision) ∨
      Lockstep (FollowsResult c (KeptBranch c tx cmd)) (runCommand tx w current cmd)
        (runCommand tx' w' current cmd) := by
  cases cmd with
  | put op =>
    refine Or.inr ((applyPut_lockstep pruned op).bind fun left right _ related => ?_)
    refine ⟨related.2.writer, ⟨related.2.rows, follows.revision, follows.compactRevision, follows.leases,
      follows.members⟩, iff_of_true ?_ True.intro⟩
    exact congrArg CommandResponse.put related.1
  | delete op =>
    refine Or.inr ((applyDelete_lockstep pruned op).bind fun left right _ related => ?_)
    refine ⟨related.2.2.writer, ⟨related.2.2.rows, follows.revision, follows.compactRevision,
      follows.leases, follows.members⟩, iff_of_true ?_ True.intro⟩
    rw [related.1, related.2.1]
  | txn op =>
    refine Or.inr ((applyTxn_lockstep pruned reached op).bind fun left right _ related => ?_)
    refine ⟨related.2.1.writer, ⟨related.2.1.rows, follows.revision, follows.compactRevision,
      follows.leases, follows.members⟩, ?_⟩
    rw [CommandResponse.txn.injEq, related.1, and_iff_right rfl]
    exact related.2.2
  | compact later =>
    rcases @applyCompact_lockstep _ _ _ current later follows pruned.distinct with
      refused | lockstep
    · exact Or.inl ⟨later, rfl, refused⟩
    · refine Or.inr (lockstep.bind fun left right _ related => ?_)
      exact ⟨pruned.writer, related, iff_of_true rfl True.intro⟩
  | leaseGrant id ttlSecs nowUnixSecs =>
    refine Or.inr ⟨pruned.writer, ⟨follows.kv, follows.revision, follows.compactRevision, ?_,
      follows.members⟩, iff_of_true rfl True.intro⟩
    rw [follows.leases]
  | leaseRevoke id =>
    refine Or.inr ((revokeLease_lockstep follows pruned id).bind fun left right _ related => ?_)
    exact ⟨related.2.writer, related.1, iff_of_true rfl True.intro⟩
  | leaseKeepAlive id nowUnixSecs =>
    refine Or.inr ?_
    simp only [runCommand, follows.leases]
    cases held : tx.leases.find? fun lease => lease.id = id with
    | none => exact ⟨pruned.writer, follows, iff_of_true rfl True.intro⟩
    | some lease =>
      exact ⟨pruned.writer, ⟨follows.kv, follows.revision, follows.compactRevision, rfl,
        follows.members⟩, iff_of_true rfl True.intro⟩
  | expireLeases nowUnixSecs =>
    refine Or.inr ?_
    simp only [runCommand, follows.leases]
    refine (revokeLeases_lockstep follows pruned _).bind fun left right _ related => ?_
    exact ⟨related.2, related.1, iff_of_true rfl True.intro⟩
  | setMember member | removeMember id =>
    refine Or.inr ⟨pruned.writer, ⟨follows.kv, follows.revision, follows.compactRevision, follows.leases,
      ?_⟩, iff_of_true rfl True.intro⟩
    rw [follows.members]

/-! ## Stores -/

theorem applyAt_compact_ok {s s' : Store} {index : Nat} {later : Int} {applied : Applied}
    (success : s.applyAt index (.compact later) = .ok (applied, s')) :
    s.db.compactRevision < later ∧ later ≤ s.db.revision ∧
      s' =
        { db :=
            { s.db with
              kv := pruneRows s.db.kv later
              compactRevision := later
              appliedIndex := if index > 0 then index else s.db.appliedIndex }
          rbacCache := s.rbacCache } := by
  rw [applyAt_eq] at success
  simp only [runCommand, applyCompact] at success
  by_cases below : later ≤ s.db.compactRevision
  · rw [if_pos below] at success
    cases success
  · rw [if_neg below] at success
    by_cases future : later > s.db.revision
    · rw [if_pos future] at success
      cases success
    · rw [if_neg future] at success
      cases success
      exact ⟨not_le.mp below, not_lt.mp future, rfl⟩

theorem applyAt_compact_refused {s : Store} {index : Nat} {later : Int}
    (below : later ≤ s.db.compactRevision) :
    s.applyAt index (.compact later) = .error (.compacted s.db.compactRevision) := by
  rw [applyAt_eq]
  simp only [runCommand, applyCompact]
  rw [if_pos below]
  rfl

/-- The compacted store refuses the command as compacted, or both answer it
alike. -/
def SameOutcome (s t : Store) (entry : Nat × Command) : Prop :=
  t.applyAt entry.1 entry.2 = .error (.compacted t.db.compactRevision) ∨
    (t.applyAt entry.1 entry.2).map Prod.fst = (s.applyAt entry.1 entry.2).map Prod.fst

/-- Every read of an accepted transaction is kept. -/
def KeptEntry (c : Int) (s : Store) (entry : Nat × Command) : Prop :=
  (Exists fun result : Applied × Store => s.applyAt entry.1 entry.2 = .ok result) ->
    KeptBranch c s.db entry.2

theorem Follows.commit {c : Int} {s t : Store} {index : Nat} {cmd : Command} {kept : Prop}
    {left right : CommandResponse × Db × Writer} (revision : t.db.revision = s.db.revision)
    (related : FollowsResult c kept left right) :
    ((t.commit index cmd right).1 = (s.commit index cmd left).1 <-> kept) ∧
      Follows c (s.commit index cmd left).2.db (t.commit index cmd right).2.db := by
  rcases right with ⟨response', tx', w'⟩
  rcases related with ⟨writer, follows, answers⟩
  subst writer
  refine ⟨?_, follows.kv, ?_, follows.compactRevision, follows.leases, follows.members⟩
  · simp only [Store.commit, Applied.mk.injEq, revision, true_and, and_true]
    exact answers
  · simp only [Store.commit, revision]

theorem sameOutcome_iff {c : Int} {s t : Store} (wellFormed : s.db.WellFormed) (reached : c ≤ s.db.revision)
    (follows : Follows c s.db t.db) (entry : Nat × Command) :
    (SameOutcome s t entry <-> KeptEntry c s entry) ∧ Follows c (s.after entry).db (t.after entry).db := by
  have pruned : PrunedTable c s.db.kv (Writer.opened s.db.revision) t.db.kv (Writer.opened s.db.revision) :=
    ⟨wellFormed.distinct, wellFormed.freshWriter, Int.lt_add_one_of_le reached, follows.kv, rfl⟩
  have left := applyAt_eq s entry.1 entry.2
  have right := applyAt_eq t entry.1 entry.2
  rw [follows.revision] at right
  rcases runCommand_lockstep follows pruned reached entry.2 with ⟨later, command, below⟩ | lockstep
  · have refused : t.applyAt entry.1 entry.2 = .error (.compacted t.db.compactRevision) := by
      rw [command]
      exact applyAt_compact_refused below
    refine ⟨iff_of_true (Or.inl refused) fun _ => ?_, ?_⟩
    · rw [command]
      exact True.intro
    · rw [t.after_error refused]
      cases outcome : s.applyAt entry.1 entry.2 with
      | error refusal =>
        rw [s.after_error outcome]
        exact follows
      | ok result =>
        rw [s.after_ok outcome]
        rw [command] at outcome
        rcases applyAt_compact_ok outcome with ⟨above, _, store⟩
        rw [follows.compactRevision, le_max_iff] at below
        have belowPoint : later ≤ c := below.resolve_left (not_le.mpr above)
        rw [store]
        refine ⟨?_, follows.revision, ?_, follows.leases, follows.members⟩
        · rw [follows.kv, pruneRows_pruneRows wellFormed.distinct belowPoint]
        · rw [follows.compactRevision, max_eq_right belowPoint, max_eq_right (above.le.trans belowPoint)]
  · rcases lockstep.cases with ⟨failure, refused, refusedThere⟩ | ⟨result, result', ran, ranThere, related⟩
    · rw [refused] at left
      rw [refusedThere] at right
      refine ⟨iff_of_true (Or.inr ?_) ?_, ?_⟩
      · rw [left, right]
        rfl
      · rintro ⟨result, accepted⟩
        rw [left] at accepted
        cases accepted
      · rw [s.after_error left, t.after_error right]
        exact follows
    · rw [ran] at left
      rw [ranThere] at right
      have committed := @Follows.commit _ _ _ entry.1 entry.2 _ _ _ follows.revision related
      rw [s.after_ok left, t.after_ok right]
      refine ⟨?_, committed.2⟩
      unfold SameOutcome KeptEntry
      rw [left, right, ← committed.1]
      constructor
      · intro either _
        exact Except.ok.inj (either.resolve_left nofun)
      · intro same
        exact Or.inr (congrArg Except.ok (same ⟨_, rfl⟩))

end NotK8s.Nodestore

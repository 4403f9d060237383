import NotK8s.Replication.RestartSafety

namespace NotK8s.Replication

open Library Nodestore

/-!
# How far the log of a restarted member reaches

A member can be started from a disk only if its log reaches the index the
state machine has recorded.  Raft hands over an entry as committed once the
log holds it, so applying entries keeps that.  A received snapshot is
written to the state machine first and to the log second.  In between the
log reaches what it reached before.
-/

/-- The commit index on the disk. -/
def RaftLog.commit (log : RaftLog) : Nat :=
  (log.hardState.getD HardState.default).commit

/-- A start finds a log that reaches the recorded index, and leaves a commit
index between the two. -/
def Disk.Reconciles (disk : Disk) : Prop :=
  Exists fun raised : Bool => Exists fun log : RaftLog =>
    disk.log.reconcileCommitWithApplied disk.db.appliedIndex = .ok (raised, log) ∧
      disk.db.appliedIndex ≤ log.commit ∧ log.commit ≤ log.lastIndexOf

/-- The log is in index order too. -/
structure Disk.Startable (disk : Disk) : Prop where
  reconciles : disk.Reconciles
  sorted : KeySorted Entry.index disk.log.entries

namespace RaftLog
variable {log log' : RaftLog}

theorem reconcile_unchanged {applied : Nat} (reached : applied ≤ log.commit) :
    log.reconcileCommitWithApplied applied = .ok (false, log) := by
  by_cases zero : applied = 0
  · exact if_pos zero
  · exact (if_neg zero).trans (if_pos reached)

theorem reconcile_raised {applied : Nat} (trails : log.commit < applied) (reached : applied ≤ log.lastIndexOf) :
    log.reconcileCommitWithApplied applied =
      .ok (true, log.setHardState { log.hardState.getD HardState.default with commit := applied }) := by
  have positive : applied ≠ 0 := by omega
  exact (if_neg positive).trans ((if_neg (not_le.mpr trails)).trans (if_neg (not_lt.mpr reached)))

theorem reconcile_refused {applied : Nat} (trails : log.commit < applied) (behind : log.lastIndexOf < applied) :
    Exists fun refusal : Error => log.reconcileCommitWithApplied applied = .error refusal := by
  have positive : applied ≠ 0 := by omega
  exact ⟨_, (if_neg positive).trans ((if_neg (not_le.mpr trails)).trans (if_pos behind))⟩

/-- A successful reconciliation leaves the entries alone and raises the
commit index at most to the applied one. -/
theorem reconcile_spec {applied : Nat} {raised : Bool}
    (success : log.reconcileCommitWithApplied applied = .ok (raised, log')) :
    log'.entries = log.entries ∧ log'.snapshotMeta = log.snapshotMeta ∧ log'.snapshot = log.snapshot ∧
      log'.commit = max log.commit applied ∧ (log.commit < applied -> applied ≤ log.lastIndexOf) := by
  by_cases reached : applied ≤ log.commit
  · rw [reconcile_unchanged reached] at success
    cases success
    exact ⟨rfl, rfl, rfl, (max_eq_left reached).symm, fun trails => absurd reached (not_le.mpr trails)⟩
  · by_cases within : applied ≤ log.lastIndexOf
    · rw [reconcile_raised (not_le.mp reached) within] at success
      cases success
      exact ⟨rfl, rfl, rfl, (max_eq_right (not_le.mp reached).le).symm, fun _ => within⟩
    · rcases reconcile_refused (not_le.mp reached) (not_le.mp within) with ⟨refusal, refused⟩
      rw [refused] at success
      cases success

end RaftLog

theorem Disk.reconciles_iff (disk : Disk) :
    disk.Reconciles <-> disk.db.appliedIndex ≤ disk.log.lastIndexOf ∧ disk.log.commit ≤ disk.log.lastIndexOf := by
  constructor
  · rintro ⟨raised, log, success, below, within⟩
    rcases RaftLog.reconcile_spec success with ⟨entries, recorded, _, commit, _⟩
    have same : log.lastIndexOf = disk.log.lastIndexOf := by
      rw [RaftLog.lastIndexOf, RaftLog.lastIndexOf, RaftLog.snapshotIndex, RaftLog.snapshotIndex, entries,
        recorded]
    rw [same] at within
    refine ⟨below.trans within, ?_⟩
    rw [commit] at within
    exact (le_max_left _ _).trans within
  · rintro ⟨reached, committed⟩
    by_cases below : disk.db.appliedIndex ≤ disk.log.commit
    · exact ⟨false, disk.log, RaftLog.reconcile_unchanged below, below, committed⟩
    · exact ⟨true, _, RaftLog.reconcile_raised (not_le.mp below) reached, le_refl _, reached⟩

/-! ## The last index -/

namespace RaftLog
variable {log : RaftLog}

theorem le_lastIndexOf (sorted : KeySorted Entry.index log.entries) {entry : Entry}
    (member : entry ∈ log.entries) : entry.index ≤ log.lastIndexOf := by
  rcases List.eq_nil_or_concat log.entries with empty | ⟨front, last, split⟩
  · rw [empty] at member
    cases member
  · rw [split] at sorted member
    have ends : log.lastIndexOf = last.index := by
      rw [lastIndexOf, split, List.concat_eq_append, List.getLast?_append]
      rfl
    rw [List.concat_eq_append] at sorted member
    rw [ends]
    rcases List.mem_append.mp member with earlier | same
    · exact ((List.pairwise_append.mp sorted).2.2 entry earlier last (.head _)).le
    · rw [List.mem_singleton.mp same]

theorem insertEntry_last {stored : List Entry} {entry : Entry} (above : forall row, row ∈ stored -> row.index < entry.index) :
    insertEntry stored entry = .ok (stored ++ [entry]) := by
  have free : ¬(stored.any fun row => decide (row.index = entry.index)) = true := by
    simp only [List.any_eq_true, decide_eq_true_eq, not_exists, not_and]
    exact fun row member => Nat.ne_of_lt (above row member)
  rw [insertEntry, if_neg free, orderedInsert_last above]

theorem append_eq {first : Entry} {rest : List Entry} (sorted : KeySorted Entry.index (first :: rest)) :
    log.append (first :: rest) =
      .ok { log with
        entries := (log.entries.filter fun stored => !decide (stored.index ≥ first.index)) ++ first :: rest } := by
  have above : forall row, row ∈ (log.entries.filter fun stored => !decide (stored.index ≥ first.index)) ->
      forall entry, entry ∈ first :: rest -> row.index < entry.index := by
    intro row kept entry member
    have below : row.index < first.index := by simpa using (List.mem_filter.mp kept).2
    rcases List.mem_cons.mp member with rfl | later
    · exact below
    · exact below.trans ((List.pairwise_cons.mp sorted).1 entry later)
  change ((first :: rest).foldlM insertEntry _ >>= _) = _
  rw [foldlM_insert insertEntry_last sorted above]
  rfl

/-- The index a log reaches after entries are appended to one that reaches
`top`. -/
def topAfter (top : Nat) (entries : List Entry) : Nat :=
  (entries.getLast?.map Entry.index).getD top

theorem append_lastIndexOf {first : Entry} {rest kept : List Entry} :
    ({ log with entries := kept ++ first :: rest } : RaftLog).lastIndexOf = topAfter 0 (first :: rest) := by
  rw [lastIndexOf, topAfter, List.getLast?_append_of_ne_nil _ (List.cons_ne_nil _ _),
    List.getLast?_eq_getLast_of_ne_nil (List.cons_ne_nil first rest)]
  rfl

theorem le_installSnapshot_lastIndexOf (log : RaftLog) (snapshot : Snapshot) :
    snapshot.metadata.index ≤ (log.installSnapshot snapshot).lastIndexOf := by
  cases last : (log.installSnapshot snapshot).entries.getLast? with
  | none =>
    rw [lastIndexOf, last]
    exact le_refl _
  | some entry =>
    have kept : entry ∈ (log.installSnapshot snapshot).entries := List.mem_of_getLast? last
    rw [lastIndexOf, last]
    have above : snapshot.metadata.index < entry.index := by
      simpa [installSnapshot] using (List.mem_filter.mp kept).2
    exact above.le

theorem lastIndexOf_installSnapshot {snapshot : Snapshot} (sorted : KeySorted Entry.index log.entries)
    (forward : log.snapshotIndex ≤ snapshot.metadata.index) :
    log.lastIndexOf ≤ (log.installSnapshot snapshot).lastIndexOf := by
  cases last : log.entries.getLast? with
  | none =>
    have ends : log.lastIndexOf = log.snapshotIndex := by rw [lastIndexOf, last]
    rw [ends]
    exact forward.trans (log.le_installSnapshot_lastIndexOf snapshot)
  | some entry =>
    have ends : log.lastIndexOf = entry.index := by rw [lastIndexOf, last]
    rw [ends]
    by_cases covered : entry.index ≤ snapshot.metadata.index
    · exact covered.trans (log.le_installSnapshot_lastIndexOf snapshot)
    · have kept : entry ∈ (log.installSnapshot snapshot).entries := by
        simpa [installSnapshot] using ⟨List.mem_of_getLast? last, not_le.mp covered⟩
      exact le_lastIndexOf (sorted.filter _) kept

end RaftLog

/-! ## Programs -/

namespace Driver

variable {Waiter : Type} {raft : RaftCrate} {d : Driver Waiter}

/-- Every durable write so far left a disk the member can be started from. -/
def Recoverable (d : Driver Waiter) : Prop :=
  forall disk, disk ∈ d.written -> disk.Startable

/-- The snapshot at hand embeds no more than the index it claims. -/
def CachedWithin (d : Driver Waiter) : Prop :=
  forall snapshot, snapshot ∈ d.log.snapshot -> snapshot.data.appliedIndex ≤ snapshot.metadata.index

/-- Where a log's snapshot is, up to where entries may have been applied and
committed, and a place the log reaches. -/
structure Marks where
  low : Nat
  bound : Nat
  commit : Nat
  top : Nat

/-- A running driver within marks. -/
structure Reaches (m : Marks) (d : Driver Waiter) : Prop where
  recoverable : d.Recoverable
  cached : d.CachedWithin
  sorted : KeySorted Entry.index d.log.entries
  snapshot : d.log.snapshotIndex = m.low
  recorded : d.node.store.db.appliedIndex ≤ m.bound
  floor : m.bound = 0 ∨ m.low ≤ m.bound
  applied : m.bound ≤ m.top
  committed : d.log.commit ≤ m.commit
  within : m.commit ≤ m.top
  reached : m.top ≤ d.log.lastIndexOf

/-- A log nothing was ever written to. -/
structure Unseeded (d : Driver Waiter) : Prop where
  entries : d.log.entries = []
  snapshot : d.log.snapshotMeta = none
  hardState : d.log.hardState = none

/-- A driver that is not running: its disk can be started from, or its member
has not yet become one of a cluster. -/
structure Resting (d : Driver Waiter) : Prop where
  recoverable : d.Recoverable
  cached : d.CachedWithin
  sorted : KeySorted Entry.index d.log.entries
  ready : d.disk.Reconciles ∨ d.Unseeded

/-- Between passes the applied index in memory is the bound. -/
structure ReachesAt (m : Marks) (d : Driver Waiter) : Prop where
  reaches : Reaches m d
  applied : d.appliedIndex = m.bound

section
variable {m : Marks}

theorem Reaches.reconciles (reaches : Reaches m d) : d.disk.Reconciles :=
  (Disk.reconciles_iff d.disk).mpr
    ⟨reaches.recorded.trans (reaches.applied.trans reaches.reached),
      reaches.committed.trans (reaches.within.trans reaches.reached)⟩

theorem Reaches.resting (reaches : Reaches m d) : d.Resting :=
  ⟨reaches.recoverable, reaches.cached, reaches.sorted, Or.inl reaches.reconciles⟩

theorem Recoverable.persist (recoverable : d.Recoverable) (now : d.disk.Startable) :
    Recoverable { d with written := d.written ++ [d.disk] } := by
  intro disk member
  rcases List.mem_append.mp member with earlier | last
  · exact recoverable disk earlier
  · rw [List.mem_singleton.mp last]
    exact now

theorem Reaches.persisted (reaches : Reaches m d)
    {written : List Disk} (before : forall disk, disk ∈ written -> disk.Startable) :
    Reaches m { d with written := written ++ [d.disk] } := by
  refine { reaches with recoverable := ?_ }
  intro disk member
  rcases List.mem_append.mp member with earlier | last
  · exact before disk earlier
  · rw [List.mem_singleton.mp last]
    exact ⟨reaches.reconciles, reaches.sorted⟩

theorem Reaches.setConfState_triple {failed : Driver Waiter -> Prop} (cs : ConfState) (atIndex : Nat) :
    Triple (Reaches m) (setConfState cs atIndex : Program Waiter Unit)
      (fun _ => Reaches m) failed := by
  have second : Triple (Reaches m)
      (get >>= fun d : Driver Waiter => writeLog { d.log with confStateIndex := atIndex })
      (fun _ => Reaches m) failed := by
    apply Triple.readState
    intro start reaches
    apply writeLog_triple
    rintro here rfl
    exact @Reaches.persisted Waiter { here with log := { here.log with confStateIndex := atIndex } } m
      { reaches with } here.written reaches.recoverable
  apply Triple.readState
  intro start reaches
  have first : Triple (fun d => d = start)
      (writeLog { start.log with confState := some cs } : Program Waiter Unit)
      (fun _ => Reaches m) failed := by
    apply writeLog_triple
    rintro here rfl
    exact @Reaches.persisted Waiter { here with log := { here.log with confState := some cs } } m
      { reaches with } here.written reaches.recoverable
  exact first.sequence fun _ => second

theorem ReachesAt.setHardState_triple {failed : Driver Waiter -> Prop} {hs : Option HardState}
    (reachable : forall state, state ∈ hs -> state.commit ≤ m.top) :
    Triple (ReachesAt m) (setHardState hs : Program Waiter Unit)
      (fun _ => ReachesAt { m with commit := m.top }) failed := by
  cases hs with
  | none =>
    apply Triple.returning
    intro d reached
    exact ⟨{ reached.reaches with
      committed := reached.reaches.committed.trans reached.reaches.within, within := le_refl _ }, reached.applied⟩
  | some state =>
    apply Triple.readState
    intro start reached
    apply writeLog_triple
    rintro here rfl
    refine ⟨?_, reached.applied⟩
    exact @Reaches.persisted Waiter { here with log := here.log.setHardState state } { m with commit := m.top }
      { reached.reaches with committed := reachable state rfl, within := le_refl _ } here.written
      reached.reaches.recoverable

theorem Reaches.complete_triple {failed : Driver Waiter -> Prop} (id : UInt64) (result : ProposalResult) :
    Triple (Reaches m) (complete id result : Program Waiter Unit) (fun _ => Reaches m)
      failed := by
  apply Triple.writing
  intro d reaches
  exact { reaches with }

theorem Reaches.setAppliedIndex_triple {failed : Driver Waiter -> Prop} :
    Triple (Reaches m) (setAppliedIndex m.bound : Program Waiter Unit)
      (fun _ => ReachesAt m) failed := by
  apply Triple.writing
  intro d reaches
  exact ⟨{ reaches with }, rfl⟩

theorem Reaches.mono {index : Nat} (reaches : Reaches m d) (next : m.bound < index)
    (inLog : m.low < index ∧ index ≤ m.top) : Reaches { m with bound := index } d :=
  { reaches with
    recorded := reaches.recorded.trans next.le
    floor := Or.inr inLog.1.le
    applied := inLog.2 }

theorem Reaches.writeNode_triple {index : Nat} {cmd : Command} {applied : Applied} {node : Node}
    {failed : Driver Waiter -> Prop} (reaches : Reaches m d) (next : m.bound < index)
    (inLog : m.low < index ∧ index ≤ m.top) (success : d.node.applyCommitted index cmd = .ok (applied, node)) :
    Triple (fun start => start = d) (writeNode node : Program Waiter Unit) (fun _ => Reaches { m with bound := index })
      failed := by
  have recorded : node.store.db.appliedIndex = index :=
    applyAt_appliedIndex (Node.applyCommitted_ok success) (by omega)
  apply Driver.writeNode_triple
  rintro here rfl
  exact @Reaches.persisted Waiter { here with node := node } { m with bound := index }
    { reaches.mono next inLog with recorded := recorded.le } here.written reaches.recoverable

theorem Reaches.applyPayload_triple {index : Nat} (next : m.bound < index) (inLog : m.low < index ∧ index ≤ m.top)
    (data : EntryData) {refused : UInt64 -> Error -> Program Waiter Unit}
    (kept : forall id refusal,
      Triple (Reaches m) (refused id refusal) (fun _ => Reaches m) Resting) :
    Triple (Reaches m) (applyPayload refused data index) (fun _ => Reaches { m with bound := index })
      Resting := by
  unfold applyPayload
  by_cases empty : data.isEmpty = true
  · rw [if_pos empty]
    apply Triple.returning
    intro d reaches
    exact reaches.mono next inLog
  · rw [if_neg empty]
    have decoded : Triple (Reaches m)
        (MonadExcept.ofExcept (decodeEntry data) : Program Waiter (UInt64 × Command))
        (fun _ => Reaches m) Resting :=
      Triple.ofExcept (fun _ _ _ reaches => reaches) fun _ reaches => reaches.resting
    apply decoded.sequence
    rintro ⟨proposalId, cmd⟩
    apply Triple.readState
    intro start reaches
    cases outcome : start.node.applyCommitted index cmd with
    | ok result =>
      exact (reaches.writeNode_triple next inLog outcome).sequence fun _ => Reaches.complete_triple proposalId _
    | error refusal =>
      apply ((kept proposalId refusal).start reaches).consequence (fun _ same => same) _ fun _ broken => broken
      intro _ d after
      exact after.mono next inLog

theorem Reaches.haltRefused_triple (index : Nat) (id : UInt64) (refusal : Error) :
    Triple (Reaches m) (haltRefused index id refusal : Program Waiter Unit)
      (fun _ => Reaches m) Resting := by
  apply (Reaches.complete_triple id _).sequence
  intro _
  apply Triple.failing
  intro d reaches
  exact reaches.resting

theorem Reaches.applyConfChange_triple {index : Nat} (next : m.bound < index)
    (inLog : m.low < index ∧ index ≤ m.top) (change : Except Error ConfChangeV2) (context : EntryData) :
    Triple (Reaches m) (applyConfChange raft change context index : Program Waiter Unit)
      (fun _ => Reaches { m with bound := index }) Resting := by
  have parsed : Triple (Reaches m) (MonadExcept.ofExcept change : Program Waiter ConfChangeV2)
      (fun _ => Reaches m) Resting :=
    Triple.ofExcept (fun _ _ _ reaches => reaches) fun _ reaches => reaches.resting
  apply parsed.sequence
  intro cc
  apply Triple.readState
  intro start reaches
  cases raft.applyConfChange start.conf cc with
  | error reason =>
    apply Triple.failing
    rintro _ rfl
    exact reaches.resting
  | ok confState =>
    have changed : Triple (fun d => d = start)
        (modify fun d => { d with conf := confState } : Program Waiter Unit)
        (fun _ => Reaches m) Resting := by
      apply Triple.writing
      rintro _ rfl
      exact { reaches with }
    apply changed.sequence
    intro _
    apply (Reaches.setConfState_triple confState index).sequence
    intro _
    exact Reaches.applyPayload_triple next inLog context fun id refusal => Reaches.complete_triple id _

theorem Reaches.applyEntry_triple {entry : Entry} (next : m.bound < entry.index)
    (inLog : m.low < entry.index ∧ entry.index ≤ m.top) :
    Triple (Reaches m) (applyEntry raft entry : Program Waiter Unit)
      (fun _ => ReachesAt { m with bound := entry.index }) Resting := by
  unfold applyEntry
  cases entry.body with
  | normal data =>
    exact (Reaches.applyPayload_triple next inLog data (Reaches.haltRefused_triple entry.index)).sequence
      fun _ => Reaches.setAppliedIndex_triple
  | confChange change context =>
    exact (Reaches.applyConfChange_triple next inLog (widenConfChange change) context).sequence
      fun _ => Reaches.setAppliedIndex_triple
  | confChangeV2 change context =>
    exact (Reaches.applyConfChange_triple next inLog (parsedConfChange change) context).sequence
      fun _ => Reaches.setAppliedIndex_triple

theorem ReachesAt.applyEntries_triple {base : Nat} {entries rest : List Entry}
    (ascends : Ascends base (entries ++ rest))
    (inLog : forall entry, entry ∈ entries -> m.low < entry.index ∧ entry.index ≤ m.top) :
    Triple (ReachesAt { m with bound := base }) (applyEntries raft entries : Program Waiter Unit)
      (fun _ d => Exists fun index : Nat => ReachesAt { m with bound := index } d ∧ Ascends index rest ∧
        (index = base ∨ index ∈ entries.map Entry.index)) Resting := by
  induction entries generalizing base with
  | nil =>
    apply Triple.returning
    intro d reached
    exact ⟨base, reached, ascends, Or.inl rfl⟩
  | cons entry later ih =>
    have parts := List.isChain_cons_cons.mp ascends
    have applied : Triple (ReachesAt { m with bound := base }) (applyEntry raft entry : Program Waiter Unit)
        (fun _ => ReachesAt { m with bound := entry.index }) Resting :=
      (@Reaches.applyEntry_triple Waiter raft { m with bound := base } entry parts.1
        (inLog entry (.head _))).consequence
        (fun _ reached => reached.reaches) (fun _ _ after => after) fun _ broken => broken
    apply applied.sequence
    intro _
    apply (ih parts.2 fun other member => inLog other (.tail _ member)).consequence
      (fun _ reached => reached) _ fun _ broken => broken
    rintro _ d ⟨index, reached, ascending, origin⟩
    refine ⟨index, reached, ascending, Or.inr ?_⟩
    rcases origin with same | inLater
    · rw [same]
      exact .head _
    · exact .tail _ inLater

theorem ReachesAt.append_triple {entries : List Entry} (sorted : KeySorted Entry.index entries)
    (above : forall entry, entry ∈ entries -> m.bound < entry.index ∧ m.commit < entry.index) :
    Triple (ReachesAt m : Driver Waiter -> Prop) (append entries)
      (fun _ => ReachesAt { m with top := RaftLog.topAfter m.top entries }) Resting := by
  cases entries with
  | nil => exact Triple.returning fun _ before => before
  | cons first rest =>
    apply Triple.readState
    intro start reached
    rw [RaftLog.append_eq sorted]
    apply writeLog_triple
    rintro here rfl
    have top : RaftLog.topAfter m.top (first :: rest) = RaftLog.topAfter 0 (first :: rest) := by
      rw [RaftLog.topAfter, RaftLog.topAfter, List.getLast?_eq_getLast_of_ne_nil (List.cons_ne_nil first rest)]
      rfl
    have last : forall least : Nat, (forall entry, entry ∈ first :: rest -> least < entry.index) ->
        least ≤ RaftLog.topAfter 0 (first :: rest) := by
      intro least below
      rw [RaftLog.topAfter, List.getLast?_eq_getLast_of_ne_nil (List.cons_ne_nil first rest)]
      exact (below _ (List.getLast_mem _)).le
    have keptSorted : KeySorted Entry.index
        ((here.log.entries.filter fun stored => !decide (stored.index ≥ first.index)) ++ first :: rest) := by
      refine List.pairwise_append.mpr ⟨reached.reaches.sorted.filter _, sorted, ?_⟩
      intro row kept entry member
      have below : row.index < first.index := by simpa using (List.mem_filter.mp kept).2
      rcases List.mem_cons.mp member with rfl | later
      · exact below
      · exact below.trans ((List.pairwise_cons.mp sorted).1 entry later)
    rw [top]
    refine ⟨?_, reached.applied⟩
    exact @Reaches.persisted Waiter
      { here with
        log := { here.log with
          entries := (here.log.entries.filter fun stored => !decide (stored.index ≥ first.index)) ++
            first :: rest } } { m with top := RaftLog.topAfter 0 (first :: rest) }
      { reached.reaches with
        sorted := keptSorted
        applied := last m.bound fun entry member => (above entry member).1
        within := last m.commit fun entry member => (above entry member).2
        reached := RaftLog.append_lastIndexOf.ge } here.written reached.reaches.recoverable

end

end Driver

end NotK8s.Replication

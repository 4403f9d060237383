import NotK8s.Replication.RestartReach

namespace NotK8s.Replication

open Library Nodestore

/-!
# Passes, snapshots and starts within the log

A pass of the Ready loop keeps the log ahead of the state machine when raft
hands over indices as it promises and a received snapshot embeds no index
the log does not reach.  Snapshots a member takes and starts keep it
unconditionally.
-/

namespace Driver

variable {Waiter : Type} {raft : RaftCrate} {d : Driver Waiter}

/-- Where the log's snapshot is and what the log reaches once a pass has
installed its snapshot, and what is applied then. -/
def marksOf (d : Driver Waiter) (snapshot : Option Snapshot) : Marks :=
  match snapshot with
  | none =>
    { low := d.log.snapshotIndex, bound := d.appliedIndex, commit := d.log.commit, top := d.log.lastIndexOf }
  | some snapshot =>
    { low := snapshot.metadata.index, bound := snapshot.metadata.index, commit := d.log.commit
      top := snapshot.metadata.index }

/-- What raft promises about the indices of a pass: a snapshot is not behind
the commit index; committed entries are in the log, past its snapshot; new
entries replace nothing committed or applied; and a hard state commits no
more than the log holds once the new entries are in it. -/
structure Backed (d : Driver Waiter) (ready : Ready) : Prop where
  snapshot : forall snapshot, snapshot ∈ ready.snapshot -> d.log.commit ≤ snapshot.metadata.index
  committed : forall entry, entry ∈ ready.committedEntries ->
    (d.marksOf ready.snapshot).low < entry.index ∧ entry.index ≤ (d.marksOf ready.snapshot).top
  sorted : KeySorted Entry.index ready.entries
  above : forall entry, entry ∈ ready.entries ->
    d.log.commit < entry.index ∧ (d.marksOf ready.snapshot).bound < entry.index ∧
      forall earlier, earlier ∈ ready.committedEntries -> earlier.index < entry.index
  hardState : forall hs, hs ∈ ready.hardState ->
    hs.commit ≤ RaftLog.topAfter (d.marksOf ready.snapshot).top ready.entries
  lightHardState : forall hs, hs ∈ ready.light.hardState ->
    hs.commit ≤ RaftLog.topAfter (d.marksOf ready.snapshot).top ready.entries
  light : forall entry, entry ∈ ready.light.committedEntries ->
    (d.marksOf ready.snapshot).low < entry.index ∧
      entry.index ≤ RaftLog.topAfter (d.marksOf ready.snapshot).top ready.entries

/-- A snapshot that restores finds the log reaching what it embeds. -/
def SnapshotReached (d : Driver Waiter) (ready : Ready) : Prop :=
  forall snapshot, snapshot ∈ ready.snapshot -> forall node, d.node.restoreSnapshot snapshot.data = .ok node ->
    snapshot.data.appliedIndex ≤ d.log.lastIndexOf

/-- A running driver. -/
def Running (d : Driver Waiter) : Prop :=
  Exists fun m : Marks => ReachesAt m d

theorem Running.resting (running : d.Running) : d.Resting :=
  running.elim fun _ reached => reached.reaches.resting

theorem Running.marks (running : d.Running) : ReachesAt (d.marksOf none) d := by
  rcases running with ⟨m, reached⟩
  refine ⟨?_, rfl⟩
  have bound : (d.marksOf none).bound = m.bound := reached.applied
  have low : (d.marksOf none).low = m.low := reached.reaches.snapshot
  exact
    { reached.reaches with
      snapshot := rfl
      recorded := bound ▸ reached.reaches.recorded
      floor := by
        rw [bound, low]
        exact reached.reaches.floor
      applied := bound ▸ reached.reaches.applied.trans reached.reaches.reached
      committed := le_refl _
      within := reached.reaches.committed.trans (reached.reaches.within.trans reached.reaches.reached)
      reached := le_refl _ }

theorem ReachesAt.installReceivedSnapshot_triple {snapshot : Snapshot} {start : Driver Waiter}
    (reached : ReachesAt (start.marksOf none) start)
    (embedded : snapshot.data.appliedIndex ≤ snapshot.metadata.index)
    (committed : start.log.commit ≤ snapshot.metadata.index)
    (inReach : forall node, start.node.restoreSnapshot snapshot.data = .ok node ->
      snapshot.data.appliedIndex ≤ start.log.lastIndexOf) :
    Triple (fun d => d = start) (installReceivedSnapshot snapshot : Program Waiter Unit)
      (fun _ => ReachesAt (start.marksOf (some snapshot))) Resting := by
  apply Triple.readState
  rintro here rfl
  cases outcome : here.node.restoreSnapshot snapshot.data with
  | error refusal =>
    apply Triple.failing
    rintro _ rfl
    exact reached.reaches.resting
  | ok node =>
    have recorded := Node.restoreSnapshot_appliedIndex outcome
    have restored : Disk.Startable ⟨here.log, node.store.db⟩ := by
      refine ⟨?_, reached.reaches.sorted⟩
      exact (Disk.reconciles_iff ⟨here.log, node.store.db⟩).mpr
        ⟨recorded.trans_le (inReach node outcome), reached.reaches.within⟩
    have written : forall disk, disk ∈ here.written ++ [⟨here.log, node.store.db⟩] -> disk.Startable := by
      intro disk member
      rcases List.mem_append.mp member with earlier | last
      · exact reached.reaches.recoverable disk earlier
      · rw [List.mem_singleton.mp last]
        exact restored
    have ends := here.log.le_installSnapshot_lastIndexOf snapshot
    rintro finish rfl
    refine ⟨?_, rfl⟩
    have installed := @Reaches.persisted Waiter
      { finish with node := node, log := finish.log.installSnapshot snapshot } (finish.marksOf (some snapshot))
      { recoverable := reached.reaches.recoverable
        cached := by
          rintro cached same
          cases Option.mem_some.mp same
          exact embedded
        sorted := reached.reaches.sorted.filter _
        snapshot := rfl
        recorded := recorded.trans_le embedded
        floor := Or.inr (le_refl _)
        applied := le_refl _
        committed := le_refl _
        within := committed
        reached := ends } _ written
    exact { installed with }

theorem ReachesAt.pass_triple {m : Marks} {ready : Ready}
    (ascends : Ascends m.bound (ready.committedEntries ++ ready.light.committedEntries))
    (committed : forall entry, entry ∈ ready.committedEntries -> m.low < entry.index ∧ entry.index ≤ m.top)
    (sorted : KeySorted Entry.index ready.entries)
    (above : forall entry, entry ∈ ready.entries -> m.commit < entry.index ∧ m.bound < entry.index ∧
      forall earlier, earlier ∈ ready.committedEntries -> earlier.index < entry.index)
    (hardState : forall hs, hs ∈ ready.hardState -> hs.commit ≤ RaftLog.topAfter m.top ready.entries)
    (lightHardState : forall hs, hs ∈ ready.light.hardState -> hs.commit ≤ RaftLog.topAfter m.top ready.entries)
    (light : forall entry, entry ∈ ready.light.committedEntries ->
      m.low < entry.index ∧ entry.index ≤ RaftLog.topAfter m.top ready.entries) :
    Triple (ReachesAt m) (do
      applyEntries raft ready.committedEntries
      append ready.entries
      setHardState ready.hardState
      setHardState ready.light.hardState
      applyEntries raft ready.light.committedEntries : Program Waiter Unit)
      (fun _ => Running) Resting := by
  apply (@ReachesAt.applyEntries_triple Waiter raft m m.bound _ _ ascends committed).sequence
  intro _
  apply Triple.choose
  intro index
  rintro d ⟨reached, ascending, origin⟩
  have fresh : forall entry, entry ∈ ready.entries -> index < entry.index ∧ m.commit < entry.index := by
    intro entry member
    rcases above entry member with ⟨pastCommit, pastBase, pastCommitted⟩
    refine ⟨?_, pastCommit⟩
    rcases origin with same | applied
    · rw [same]
      exact pastBase
    · rcases List.mem_map.mp applied with ⟨earlier, isCommitted, equal⟩
      rw [← equal]
      exact pastCommitted earlier isCommitted
  have later : Ascends index (ready.light.committedEntries ++ []) := by
    rw [List.append_nil]
    exact ascending
  have appended := @ReachesAt.append_triple Waiter { m with bound := index } ready.entries sorted fresh
  have first := @ReachesAt.setHardState_triple Waiter
    { m with bound := index, top := RaftLog.topAfter m.top ready.entries } Resting ready.hardState hardState
  have second := @ReachesAt.setHardState_triple Waiter
    { m with
      bound := index
      commit := RaftLog.topAfter m.top ready.entries
      top := RaftLog.topAfter m.top ready.entries } Resting ready.light.hardState lightHardState
  have last := @ReachesAt.applyEntries_triple Waiter raft
    { m with
      bound := index
      commit := RaftLog.topAfter m.top ready.entries
      top := RaftLog.topAfter m.top ready.entries } index ready.light.committedEntries [] later light
  have finish := last.consequence (fun _ same => same)
    (fun _ _ reached => reached.elim fun _ parts => (⟨_, parts.1⟩ : Running _)) fun _ broken => broken
  exact (appended.sequence fun _ => first.sequence fun _ => second.sequence fun _ => finish) d reached

theorem Running.onReady_triple {ready : Ready} {start : Driver Waiter} (running : start.Running)
    (embedded : forall snapshot, snapshot ∈ ready.snapshot ->
      snapshot.data.appliedIndex ≤ snapshot.metadata.index)
    (ascends : Ascends (start.marksOf ready.snapshot).bound
      (ready.committedEntries ++ ready.light.committedEntries))
    (backed : start.Backed ready) (inReach : start.SnapshotReached ready) :
    Triple (fun d => d = start) (onReady raft ready : Program Waiter Unit) (fun _ => Running) Resting := by
  have commit : (start.marksOf ready.snapshot).commit = start.log.commit := by
    cases ready.snapshot <;> rfl
  have above : forall entry, entry ∈ ready.entries ->
      (start.marksOf ready.snapshot).commit < entry.index ∧ (start.marksOf ready.snapshot).bound < entry.index ∧
        forall earlier, earlier ∈ ready.committedEntries -> earlier.index < entry.index := by
    rw [commit]
    exact backed.above
  have passed := @ReachesAt.pass_triple Waiter raft (start.marksOf ready.snapshot) ready ascends backed.committed
    backed.sorted above backed.hardState backed.lightHardState backed.light
  unfold onReady
  cases found : ready.snapshot with
  | none =>
    rw [found] at passed
    exact passed.start running.marks
  | some snapshot =>
    rw [found] at passed
    exact (running.marks.installReceivedSnapshot_triple (embedded snapshot found)
      (backed.snapshot snapshot found) (inReach snapshot found)).sequence fun _ => passed

/-! ## Snapshots and starts -/

theorem Running.maintainSnapshot_triple (term : Option Nat) :
    Triple Running (maintainSnapshot term : Program Waiter Unit) (fun _ => Running) Resting := by
  intro d running
  have reached := running.marks
  cases takes : d.takesSnapshot term with
  | false =>
    rw [maintainSnapshot_idle takes]
    exact running
  | true =>
    rcases maintainSnapshot_takes takes with ⟨known, outcome⟩
    rw [outcome]
    have positive : d.appliedIndex ≠ 0 := by
      unfold takesSnapshot snapshotNeeded at takes
      simp only [Bool.and_eq_true, decide_eq_true_eq] at takes
      exact takes.1.2
    have forward : d.log.snapshotIndex ≤ d.appliedIndex :=
      reached.reaches.floor.resolve_left positive
    have ends := @RaftLog.lastIndexOf_installSnapshot d.log (d.ownSnapshot known) reached.reaches.sorted forward
    have written := @Reaches.persisted Waiter { d with log := d.log.installSnapshot (d.ownSnapshot known) }
      { d.marksOf none with low := d.appliedIndex }
      { recoverable := reached.reaches.recoverable
        cached := by
          rintro cached same
          cases Option.mem_some.mp same
          exact reached.reaches.recorded
        sorted := reached.reaches.sorted.filter _
        snapshot := rfl
        recorded := reached.reaches.recorded
        floor := Or.inr (le_refl _)
        applied := reached.reaches.applied
        committed := le_refl _
        within := reached.reaches.within
        reached := ends } d.written reached.reaches.recoverable
    exact ⟨_, written, rfl⟩

theorem Running.requestSnapshot_triple (requestIndex : Nat) :
    Triple Running (requestSnapshot requestIndex : Program Waiter (List Snapshot))
      (fun sent d => Running d ∧
        forall snapshot, snapshot ∈ sent -> snapshot.data.appliedIndex ≤ snapshot.metadata.index) Resting := by
  apply Triple.readState
  rintro _ ⟨m, reached⟩ here rfl
  have served := RaftLog.serveSnapshot_spec here.log requestIndex
  have same := RaftLog.serveSnapshot_rest here.log requestIndex
  have ends : (here.log.serveSnapshot requestIndex).2.lastIndexOf = here.log.lastIndexOf := by
    rw [RaftLog.lastIndexOf, RaftLog.lastIndexOf, RaftLog.snapshotIndex, RaftLog.snapshotIndex, served.1, same.1]
  have commit : (here.log.serveSnapshot requestIndex).2.commit = here.log.commit := by
    rw [RaftLog.commit, RaftLog.commit, same.2]
  have reaches := reached.reaches
  refine ⟨⟨m, ?_, reached.applied⟩, ?_⟩
  · exact
      { reaches with
        cached := by
          intro snapshot held
          refine reaches.cached snapshot ?_
          rw [← served.2.1]
          exact held
        sorted := by
          change KeySorted Entry.index (here.log.serveSnapshot requestIndex).2.entries
          rw [same.1]
          exact reaches.sorted
        snapshot := by
          change (here.log.serveSnapshot requestIndex).2.snapshotIndex = m.low
          rw [RaftLog.snapshotIndex, served.1]
          exact reaches.snapshot
        committed := commit.trans_le reaches.committed
        reached := reaches.reached.trans ends.ge }
  · intro snapshot member
    apply reaches.cached
    apply served.2.2
    exact Option.mem_toList.mp member

/-- A driver whose log reaches the index its state machine has recorded. -/
structure Seeded (applied : Nat) (d : Driver Waiter) : Prop where
  recoverable : d.Recoverable
  cached : d.CachedWithin
  sorted : KeySorted Entry.index d.log.entries
  recorded : d.node.store.db.appliedIndex = applied
  reached : applied ≤ d.log.lastIndexOf
  committed : d.log.commit ≤ d.log.lastIndexOf

theorem Seeded.reconciles {applied : Nat} (seeded : Seeded applied d) : d.disk.Reconciles :=
  (Disk.reconciles_iff d.disk).mpr ⟨seeded.recorded.trans_le seeded.reached, seeded.committed⟩

theorem Seeded.resting {applied : Nat} (seeded : Seeded applied d) : d.Resting :=
  ⟨seeded.recoverable, seeded.cached, seeded.sorted, Or.inl seeded.reconciles⟩

theorem Seeded.writeLog_triple {applied : Nat} {failed : Driver Waiter -> Prop} {start : Driver Waiter}
    (seeded : Seeded applied start) {log : RaftLog} (entries : log.entries = start.log.entries)
    (recorded : log.snapshotMeta = start.log.snapshotMeta) (snapshot : log.snapshot = start.log.snapshot)
    (committed : log.commit ≤ start.log.lastIndexOf) :
    Triple (fun d => d = start) (writeLog log : Program Waiter Unit) (fun _ => Seeded applied) failed := by
  have ends : log.lastIndexOf = start.log.lastIndexOf := by
    rw [RaftLog.lastIndexOf, RaftLog.lastIndexOf, RaftLog.snapshotIndex, RaftLog.snapshotIndex, recorded, entries]
  apply Driver.writeLog_triple
  rintro here rfl
  have now : Seeded applied { here with log := log } :=
    { seeded with
      cached := by
        intro cached held
        refine seeded.cached cached ?_
        rw [← snapshot]
        exact held
      sorted := by
        rw [entries]
        exact seeded.sorted
      reached := seeded.reached.trans ends.ge
      committed := committed.trans ends.ge }
  exact { now with recoverable := now.recoverable.persist ⟨now.reconciles, now.sorted⟩ }

theorem Seeded.setConfState_triple {applied : Nat} {failed : Driver Waiter -> Prop} (cs : ConfState)
    (atIndex : Nat) :
    Triple (Seeded applied) (setConfState cs atIndex : Program Waiter Unit) (fun _ => Seeded applied) failed := by
  have second : Triple (Seeded applied)
      (get >>= fun d : Driver Waiter => writeLog { d.log with confStateIndex := atIndex })
      (fun _ => Seeded applied) failed := by
    apply Triple.readState
    intro start seeded
    exact seeded.writeLog_triple rfl rfl rfl seeded.committed
  apply Triple.readState
  intro start seeded
  have first : Triple (fun d => d = start)
      (writeLog { start.log with confState := some cs } : Program Waiter Unit) (fun _ => Seeded applied) failed :=
    seeded.writeLog_triple rfl rfl rfl seeded.committed
  exact first.sequence fun _ => second

theorem Seeded.reconcile_triple {applied : Nat} :
    Triple (Seeded applied) (reconcile applied : Program Waiter Unit) (fun _ => Seeded applied) Resting := by
  apply Triple.readState
  intro start seeded
  cases outcome : start.log.reconcileCommitWithApplied applied with
  | error refusal =>
    apply Triple.failing
    rintro _ rfl
    exact seeded.resting
  | ok result =>
    rcases result with ⟨raised, log⟩
    rcases RaftLog.reconcile_spec outcome with ⟨entries, recorded, snapshot, commit, _⟩
    cases raised with
    | true =>
      exact seeded.writeLog_triple entries recorded snapshot
        (commit.trans_le (max_le seeded.committed seeded.reached))
    | false =>
      rintro _ rfl
      exact seeded

theorem adoptExistingState_seeded {applied : Nat} (peers : List Member) :
    Triple (fun d : Driver Waiter => d.Resting ∧ d.Unseeded ∧ d.node.store.db.appliedIndex = applied)
      (adoptExistingState peers applied) (fun _ => Seeded applied) Resting := by
  apply Triple.readState
  rintro start ⟨resting, unseeded, recorded⟩
  by_cases alone : ((peers.map Member.id).filter fun id => id ≠ start.memberId).isEmpty = true
  · rw [if_pos alone]
    have seeded : Triple (fun d => d = start)
        (writeLog (start.log.installSnapshot (snapshotWith applied seedTerm
          { voters := [start.memberId], learners := [] } start.node.store.db.exportSnapshot)) : Program Waiter Unit)
        (fun _ => Seeded applied) Resting := by
      apply Driver.writeLog_triple
      rintro here rfl
      have ends := here.log.le_installSnapshot_lastIndexOf (snapshotWith applied seedTerm
          { voters := [here.memberId], learners := [] } here.node.store.db.exportSnapshot)
      have now : Seeded applied { here with log := here.log.installSnapshot (snapshotWith applied seedTerm
          { voters := [here.memberId], learners := [] } here.node.store.db.exportSnapshot) } :=
        { recoverable := resting.recoverable
          cached := by
            rintro cached same
            cases Option.mem_some.mp same
            exact recorded.le
          sorted := resting.sorted.filter _
          recorded := recorded
          reached := ends
          committed := by
            change (here.log.hardState.getD HardState.default).commit ≤ _
            rw [unseeded.hardState]
            exact Nat.zero_le _ }
      exact { now with recoverable := now.recoverable.persist ⟨now.reconciles, now.sorted⟩ }
    apply seeded.sequence
    intro _
    apply (Seeded.setConfState_triple _ applied).sequence
    intro _
    apply Triple.readState
    intro here reached
    exact reached.writeLog_triple rfl rfl rfl reached.reached
  · rw [if_neg alone]
    apply Triple.failing
    rintro _ rfl
    exact resting

/-- Whatever the disk held, what is left to start from reaches the recorded
index. -/
theorem seedEmptyLog_seeded {start : Driver Waiter} (resting : start.Resting) (peers : List Member) :
    Triple (fun d => d = start) (seedEmptyLog peers start.node.store.db.appliedIndex : Program Waiter Unit)
      (fun _ => Seeded start.node.store.db.appliedIndex) Resting := by
  apply Triple.readState
  rintro here rfl
  by_cases empty : (decide (here.node.store.db.appliedIndex > 0) && decide (here.log.lastIndexOf = 0) &&
      decide (here.log.snapshotIndex = 0)) = true
  · rw [if_pos empty]
    simp only [Bool.and_eq_true, decide_eq_true_eq] at empty
    have unseeded : here.Unseeded := by
      refine resting.ready.resolve_left fun reconciles => ?_
      have reached := ((Disk.reconciles_iff here.disk).mp reconciles).1
      have ends : here.disk.log.lastIndexOf = 0 := empty.1.2
      change here.node.store.db.appliedIndex ≤ _ at reached
      omega
    exact (adoptExistingState_seeded peers).start ⟨resting, unseeded, rfl⟩
  · rw [if_neg empty]
    rintro finish rfl
    rcases resting.ready with reconciles | unseeded
    · have both := (Disk.reconciles_iff finish.disk).mp reconciles
      exact ⟨resting.recoverable, resting.cached, resting.sorted, rfl, both.1, both.2⟩
    · have ends : finish.log.lastIndexOf = 0 := by
        rw [RaftLog.lastIndexOf, unseeded.entries, RaftLog.snapshotIndex, unseeded.snapshot]
        rfl
      have none : finish.log.snapshotIndex = 0 := by
        rw [RaftLog.snapshotIndex, unseeded.snapshot]
        rfl
      simp only [ends, none, decide_true, Bool.and_true, decide_eq_true_eq] at empty
      refine ⟨resting.recoverable, resting.cached, resting.sorted, rfl, ?_, ?_⟩
      · omega
      · rw [RaftLog.commit, unseeded.hardState]
        exact Nat.zero_le _

/-- Raft does not start on an applied index behind the log's snapshot. -/
def RangeChecked (raft : RaftCrate) : Prop :=
  forall log applied, raft.newNode log applied = .ok () -> 0 < applied -> log.snapshotIndex ≤ applied

theorem newNode_reaches (checked : RangeChecked raft) {applied : Nat} (doing : String) :
    Triple (Seeded applied) (newNode raft applied doing : Program Waiter Unit)
      (fun _ d => Exists fun m : Marks => Reaches m d ∧ m.bound = applied) Resting := by
  apply Triple.readState
  intro start seeded
  cases accepted : raft.newNode start.log applied with
  | error reason =>
    apply Triple.failing
    rintro _ rfl
    exact seeded.resting
  | ok _ =>
    have range := checked start.log applied accepted
    rintro _ rfl
    refine ⟨{ low := _, bound := applied, commit := _, top := _ }, ⟨seeded.recoverable, seeded.cached, seeded.sorted,
      rfl, seeded.recorded.le, ?_, seeded.reached, le_refl _, seeded.committed, le_refl _⟩, rfl⟩
    rcases Nat.eq_zero_or_pos applied with zero | positive
    · exact Or.inl zero
    · exact Or.inr (range positive)

theorem Reaches.newNode_triple {m : Marks} (applied : Nat) (doing : String) :
    Triple (Reaches m) (newNode raft applied doing : Program Waiter Unit) (fun _ => Reaches m) Resting := by
  apply Triple.readState
  intro start reaches
  cases raft.newNode start.log applied with
  | error reason =>
    apply Triple.failing
    rintro _ rfl
    exact reaches.resting
  | ok _ =>
    rintro _ rfl
    exact { reaches with }

theorem Reaches.bootstrap_triple {m : Marks} (peers : List Member) (probe : ClusterProbe) (applied : Nat) :
    Triple (Reaches m) (bootstrap raft peers probe applied : Program Waiter Unit) (fun _ => Reaches m)
      Resting :=
  bootstrap_rule (fun cs doing =>
    (Reaches.setConfState_triple cs 0).sequence fun _ => Reaches.newNode_triple applied doing)
    (fun _ reaches => reaches.resting) peers probe

/-- A start from any disk of a resting driver leads to a running one or
leaves the disk as startable as it was. -/
theorem start_running (checked : RangeChecked raft) (peers : List Member) (probe : ClusterProbe) :
    Triple Resting (start raft peers probe : Program Waiter Unit) (fun _ => Running) Resting := by
  apply Triple.readState
  intro opened resting
  apply (seedEmptyLog_seeded resting peers).sequence
  intro _
  apply Seeded.reconcile_triple.sequence
  intro _
  apply (newNode_reaches checked _).sequence
  intro _
  apply Triple.choose
  intro m
  apply Triple.assuming
  intro bound
  apply (Reaches.bootstrap_triple peers probe _).sequence
  intro _
  apply Triple.writing
  intro d reaches
  exact ⟨m, { reaches with }, bound.symm⟩

end Driver

end NotK8s.Replication

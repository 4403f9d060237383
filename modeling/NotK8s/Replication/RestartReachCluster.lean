import NotK8s.Replication.RestartCluster
import NotK8s.Replication.RestartReachPass

namespace NotK8s.Replication

open Library Nodestore

/-!
# Restarts against the end of the log

Every disk a member leaves behind, after any of its durable writes, is one
the next start reconciles, exactly when no received snapshot is restored
into the state machine before the log reaches what it embeds.
-/

namespace Driver

variable {Waiter A B : Type} {raft : RaftCrate}

/-! ## Programs only add disks -/

/-- The disks recorded so far begin with these. -/
def Grown (earlier : List Disk) (d : Driver Waiter) : Prop :=
  earlier <+: d.written

/-- A program that forgets no recorded disk. -/
def Appends (program : Program Waiter A) : Prop :=
  forall earlier, Triple (Grown earlier) program (fun _ => Grown earlier) (Grown earlier)

theorem Appends.sequence {first : Program Waiter A} {next : A -> Program Waiter B} (firstAppends : Appends first)
    (nextAppends : forall value, Appends (next value)) : Appends (first >>= next) :=
  fun earlier => Triple.sequence (firstAppends earlier) fun value => nextAppends value earlier

theorem Appends.returning (value : A) : Appends (pure value : Program Waiter A) :=
  fun _ => Triple.returning fun _ grown => grown

theorem Appends.failing (refusal : Error) : Appends (throw refusal : Program Waiter A) :=
  fun _ => Triple.failing fun _ grown => grown

theorem Appends.reading : Appends (get : Program Waiter (Driver Waiter)) :=
  fun _ => Triple.reading fun _ grown => grown

theorem Appends.ofExcept (outcome : Except Error A) : Appends (MonadExcept.ofExcept outcome : Program Waiter A) :=
  fun _ => Triple.ofExcept (fun _ _ _ grown => grown) fun _ grown => grown

theorem Appends.writing {change : Driver Waiter -> Driver Waiter}
    (same : forall d, (change d).written = d.written) : Appends (modify change : Program Waiter PUnit) := by
  intro earlier
  apply Triple.writing
  intro d grown
  rw [Grown, same]
  exact grown

theorem Appends.writeLog (log : RaftLog) : Appends (writeLog log : Program Waiter Unit) :=
  fun _ => writeLog_triple fun _ grown => grown.trans (List.prefix_append _ _)

theorem Appends.writeNode (node : Node) : Appends (writeNode node : Program Waiter Unit) :=
  fun _ => writeNode_triple fun _ grown => grown.trans (List.prefix_append _ _)

theorem Appends.complete (id : UInt64) (result : ProposalResult) :
    Appends (complete id result : Program Waiter Unit) :=
  Appends.writing fun _ => rfl

theorem Appends.setConfState (cs : ConfState) (atIndex : Nat) :
    Appends (setConfState cs atIndex : Program Waiter Unit) := by
  apply Appends.reading.sequence
  intro _
  apply (Appends.writeLog _).sequence
  intro _
  apply Appends.reading.sequence
  intro _
  exact Appends.writeLog _

theorem Appends.setHardState (hs : Option HardState) : Appends (setHardState hs : Program Waiter Unit) := by
  cases hs with
  | none => exact Appends.returning _
  | some state => exact Appends.reading.sequence fun _ => Appends.writeLog _

theorem Appends.append (entries : List Entry) : Appends (append entries : Program Waiter Unit) := by
  unfold Driver.append
  split
  · exact Appends.returning _
  · apply Appends.reading.sequence
    intro _
    exact (Appends.ofExcept _).sequence Appends.writeLog

theorem Appends.applyPayload {refused : UInt64 -> Error -> Program Waiter Unit}
    (kept : forall id refusal, Appends (refused id refusal)) (data : EntryData) (index : Nat) :
    Appends (applyPayload refused data index) := by
  unfold Driver.applyPayload
  split
  · exact Appends.returning _
  · apply (Appends.ofExcept (decodeEntry data)).sequence
    rintro ⟨proposalId, cmd⟩
    apply Appends.reading.sequence
    intro d
    cases d.node.applyCommitted index cmd with
    | ok result => exact (Appends.writeNode result.2).sequence fun _ => Appends.complete proposalId _
    | error refusal => exact kept proposalId refusal

theorem Appends.applyConfChange (change : Except Error ConfChangeV2) (context : EntryData) (index : Nat) :
    Appends (applyConfChange raft change context index : Program Waiter Unit) := by
  apply (Appends.ofExcept change).sequence
  intro cc
  apply Appends.reading.sequence
  intro d
  cases raft.applyConfChange d.conf cc with
  | error reason => exact Appends.failing _
  | ok confState =>
    have changed : Appends
        (modify fun d => { d with conf := confState } : Program Waiter PUnit) := Appends.writing fun _ => rfl
    apply changed.sequence
    intro _
    apply (Appends.setConfState confState index).sequence
    intro _
    exact Appends.applyPayload (fun id refusal => Appends.complete id _) context index

theorem Appends.applyEntry (entry : Entry) : Appends (applyEntry raft entry : Program Waiter Unit) := by
  have applied : Appends (setAppliedIndex entry.index : Program Waiter Unit) := Appends.writing fun _ => rfl
  have halted : forall id refusal, Appends (haltRefused entry.index id refusal : Program Waiter Unit) :=
    fun id refusal => (Appends.complete id _).sequence fun _ => Appends.failing refusal
  unfold Driver.applyEntry
  cases entry.body with
  | normal data => exact (Appends.applyPayload halted data entry.index).sequence fun _ => applied
  | confChange change context => exact (Appends.applyConfChange _ context entry.index).sequence fun _ => applied
  | confChangeV2 change context => exact (Appends.applyConfChange _ context entry.index).sequence fun _ => applied

theorem Appends.applyEntries (entries : List Entry) :
    Appends (applyEntries raft entries : Program Waiter Unit) := by
  induction entries with
  | nil => exact Appends.returning _
  | cons entry rest ih => exact (Appends.applyEntry entry).sequence fun _ => ih

/-- A pass that restores a snapshot first records the restored state machine
beside the old log. -/
theorem onReady_records {ready : Ready} {snapshot : Snapshot} (received : ready.snapshot = some snapshot)
    {d : Driver Waiter} {node : Node} (restored : d.node.restoreSnapshot snapshot.data = .ok node) :
    Triple (fun other => other = d) (onReady raft ready : Program Waiter Unit)
      (fun _ => Grown (d.written ++ [⟨d.log, node.store.db⟩])) (Grown (d.written ++ [⟨d.log, node.store.db⟩])) := by
  have installed : Triple (fun other => other = d) (installReceivedSnapshot snapshot : Program Waiter Unit)
      (fun _ => Grown (d.written ++ [⟨d.log, node.store.db⟩]))
      (Grown (d.written ++ [⟨d.log, node.store.db⟩])) := by
    apply Triple.readState
    rintro here rfl
    rw [restored]
    rintro _ rfl
    exact List.prefix_append _ _
  have rest : Appends (do
      applyEntries raft ready.committedEntries
      append ready.entries
      setHardState ready.hardState
      setHardState ready.light.hardState
      applyEntries raft ready.light.committedEntries : Program Waiter Unit) := by
    apply (Appends.applyEntries _).sequence
    intro _
    apply (Appends.append _).sequence
    intro _
    apply (Appends.setHardState _).sequence
    intro _
    apply (Appends.setHardState _).sequence
    intro _
    exact Appends.applyEntries _
  unfold onReady
  rw [received]
  exact installed.sequence fun _ => rest _

end Driver

open Driver

/-! ## One action -/

/-- What an action needs of its driver and of raft to keep the log ahead. -/
def Action.Reached (action : Action) (inFlight : List Snapshot) (d : Driver Unit) : Prop :=
  match action with
  | .ready pass => d.Promised inFlight pass ∧ d.Backed pass ∧ d.SnapshotReached pass
  | _ => True

/-- A snapshot that embeds no more than the index it claims. -/
def EmbedsWithin (snapshot : Snapshot) : Prop :=
  snapshot.data.appliedIndex ≤ snapshot.metadata.index

section
variable {raft : RaftCrate} {action : Action} {inFlight : List Snapshot} {d : Driver Unit}

theorem Driver.Resting.opened (memberId : UInt64) {disk : Disk} {written : List Disk}
    (recoverable : forall disk, disk ∈ written -> disk.Startable)
    (sorted : KeySorted Entry.index disk.log.entries)
    (ready : disk.Reconciles ∨ disk.log.entries = [] ∧ disk.log.snapshotMeta = none ∧ disk.log.hardState = none) :
    (Driver.opened memberId disk written : Driver Unit).Resting := by
  refine ⟨recoverable, nofun, sorted, ?_⟩
  rcases ready with reconciles | ⟨entries, snapshot, hardState⟩
  · left
    have both := (Disk.reconciles_iff disk).mp reconciles
    exact (Disk.reconciles_iff _).mpr both
  · exact Or.inr ⟨entries, snapshot, hardState⟩

theorem Driver.Resting.reopened (resting : d.Resting) {written : List Disk}
    (recoverable : forall disk, disk ∈ written -> disk.Startable) :
    (Driver.opened d.memberId d.disk written : Driver Unit).Resting := by
  apply Driver.Resting.opened d.memberId recoverable resting.sorted
  exact resting.ready.imp_right fun unseeded => ⟨unseeded.entries, unseeded.snapshot, unseeded.hardState⟩

theorem Action.perform_running (checked : RangeChecked raft)
    (embedded : forall snapshot, snapshot ∈ inFlight -> EmbedsWithin snapshot) (resting : d.Resting)
    (running : d.running = true -> d.Running) (enabled : action.enabled d = true)
    (reached : action.Reached inFlight d) :
    Triple (fun other => other = action.base d) (action.perform raft)
      (fun sent d' => Running d' ∧ forall snapshot, snapshot ∈ sent -> EmbedsWithin snapshot) Resting := by
  have nothing : Triple Running (pure [] : Program Unit (List Snapshot))
      (fun sent d' => Running d' ∧ forall snapshot, snapshot ∈ sent -> EmbedsWithin snapshot) Resting :=
    Triple.returning fun _ running => ⟨running, nofun⟩
  cases action with
  | start peers probe =>
    exact ((start_running checked peers probe).start (resting.reopened resting.recoverable)).sequence
      fun _ => nothing
  | ready pass =>
    rcases reached with ⟨promised, backed, inReach⟩
    have ascends : Ascends (d.marksOf pass.snapshot).bound
        (pass.committedEntries ++ pass.light.committedEntries) := by
      have given := promised.ascends
      cases found : pass.snapshot with
      | none | some snapshot =>
        rw [found] at given
        exact given
    have passed := @Running.onReady_triple Unit raft pass d (running enabled)
      (fun snapshot member => embedded snapshot (promised.sent snapshot member)) ascends backed inReach
    exact passed.sequence fun _ => nothing
  | maintain term =>
    exact ((Running.maintainSnapshot_triple term).start (running enabled)).sequence fun _ => nothing
  | request requestIndex => exact (Running.requestSnapshot_triple requestIndex).start (running enabled)

theorem Action.outcome_resting (checked : RangeChecked raft)
    (embedded : forall snapshot, snapshot ∈ inFlight -> EmbedsWithin snapshot) (resting : d.Resting)
    (running : d.running = true -> d.Running) (enabled : action.enabled d = true)
    (reached : action.Reached inFlight d) :
    (action.outcome raft d).1.Resting ∧
      ((action.outcome raft d).1.running = true -> (action.outcome raft d).1.Running) ∧
      forall snapshot, snapshot ∈ (action.outcome raft d).2 -> EmbedsWithin snapshot := by
  have holds := Action.perform_running checked embedded resting running enabled reached
  unfold Action.outcome
  cases performed : action.perform raft (action.base d) with
  | ok sent d' =>
    have finished := holds.returns rfl performed
    exact ⟨finished.1.resting, fun _ => finished.1, finished.2⟩
  | error refusal d' =>
    have broken := holds.fails rfl performed
    refine ⟨⟨broken.recoverable, broken.cached, broken.sorted, ?_⟩, nofun,
      nofun⟩
    exact broken.ready.imp_right fun unseeded => ⟨unseeded.entries, unseeded.snapshot, unseeded.hardState⟩

theorem Action.cut_resting (resting : d.Resting) (outcome : (action.outcome raft d).1.Recoverable)
    (writes : Nat) : (action.cut raft d writes).Resting := by
  have kept : forall disk,
      disk ∈ ((action.outcome raft d).1.written.drop d.written.length).take writes -> disk.Startable := by
    intro disk member
    apply outcome
    exact List.mem_of_mem_drop (List.mem_of_mem_take member)
  have recoverable : forall disk, disk ∈ d.written ++
      ((action.outcome raft d).1.written.drop d.written.length).take writes -> disk.Startable := by
    intro disk member
    rcases List.mem_append.mp member with earlier | later
    · exact resting.recoverable disk earlier
    · exact kept disk later
  apply Driver.Resting.opened d.memberId recoverable
  · cases last : (((action.outcome raft d).1.written.drop d.written.length).take writes).getLast? with
    | none => exact resting.sorted
    | some disk => exact (kept disk (List.mem_of_getLast? last)).sorted
  · cases last : (((action.outcome raft d).1.written.drop d.written.length).take writes).getLast? with
    | none => exact resting.ready.imp_right fun unseeded => ⟨unseeded.entries, unseeded.snapshot, unseeded.hardState⟩
    | some disk => exact Or.inl (kept disk (List.mem_of_getLast? last)).reconciles

theorem Action.cut_zero_resting (resting : d.Resting) : (action.cut raft d 0).Resting := by
  have same : action.cut raft d 0 = .opened d.memberId d.disk (d.written ++ []) := rfl
  rw [same, List.append_nil]
  exact resting.reopened resting.recoverable

/-- A pass that restores a snapshot records, before anything else, the
restored state machine beside the log as it was. -/
theorem ready_outcome_records {pass : Ready} {snapshot : Snapshot} (received : pass.snapshot = some snapshot)
    {node : Node} (restored : d.node.restoreSnapshot snapshot.data = .ok node) :
    Exists fun later : List Disk =>
      ((Action.ready pass).outcome raft d).1.written = d.written ++ ⟨d.log, node.store.db⟩ :: later := by
  have recorded : d.written ++ [⟨d.log, node.store.db⟩] <+: ((Action.ready pass).outcome raft d).1.written := by
    have holds := (@onReady_records Unit raft pass snapshot received d node restored).sequence
      fun _ => (Appends.returning [] : Appends (pure [] : Program Unit (List Snapshot))) _
    unfold Action.outcome
    cases performed : (Action.ready pass).perform raft ((Action.ready pass).base d) with
    | ok sent d' => exact holds.returns rfl performed
    | error refusal d' =>
      have broken := holds.fails rfl performed
      exact broken
  rcases recorded with ⟨later, split⟩
  refine ⟨later, ?_⟩
  rw [← split, List.append_assoc]
  rfl

end

namespace Cluster

/-! ## Runs -/

/-- After every durable write so far, every member left a disk its next start
reconciles. -/
def LogsReach (c : Cluster) : Prop :=
  forall member disk, disk ∈ (c.members member).written -> disk.Reconciles

/-- Raft keeps its promises, those about indices included. -/
def BackedPasses (c : Cluster) (label : Label) : Prop :=
  c.Promised label ∧
    match label with
    | .act member (.ready ready) => (c.members member).Backed ready
    | .crash member (.ready ready) _ => (c.members member).Backed ready
    | _ => True

/-- Every snapshot restored into a state machine finds the log reaching what
it embeds. -/
def SnapshotsReached (c : Cluster) : Label -> Prop
  | .act member (.ready ready) =>
    (c.members member).running = true -> (c.members member).SnapshotReached ready
  | .crash member (.ready ready) writes =>
    0 < writes -> (c.members member).running = true -> (c.members member).SnapshotReached ready
  | _ => True

/-- The invariant of the runs whose snapshots are all reached. -/
structure Ahead (c : Cluster) : Prop where
  resting : forall member, (c.members member).Resting
  running : forall member, (c.members member).running = true -> (c.members member).Running
  embedded : forall snapshot, snapshot ∈ c.inFlight -> EmbedsWithin snapshot

theorem Ahead.initial (databases : UInt64 -> Db) : Ahead (Cluster.initial databases) := by
  refine ⟨fun member => ?_, nofun, nofun⟩
  exact Driver.Resting.opened member nofun List.Pairwise.nil
    (Or.inr ⟨rfl, rfl, rfl⟩)

theorem Ahead.logsReach {c : Cluster} (ahead : c.Ahead) : c.LogsReach :=
  fun member disk recorded => ((ahead.resting member).recoverable disk recorded).reconciles

variable {raft : RaftCrate} {c : Cluster}

theorem Ahead.update {member : UInt64} {d : Driver Unit} {sent : List Snapshot} (ahead : c.Ahead)
    (resting : d.Resting) (running : d.running = true -> d.Running)
    (embedded : forall snapshot, snapshot ∈ sent -> EmbedsWithin snapshot) :
    Ahead { members := Function.update c.members member d, inFlight := c.inFlight ++ sent } := by
  refine ⟨?_, ?_, fun snapshot held => ?_⟩
  · exact (Function.forall_update_iff _ fun _ => Driver.Resting).mpr ⟨resting, fun other _ => ahead.resting other⟩
  · exact (Function.forall_update_iff _ fun _ (d : Driver Unit) => d.running = true -> d.Running).mpr
      ⟨running, fun other _ => ahead.running other⟩
  · rcases List.mem_append.mp held with earlier | later
    · exact ahead.embedded snapshot earlier
    · exact embedded snapshot later

theorem reached_act {member : UInt64} {action : Action} (backed : c.BackedPasses (.act member action))
    (reached : c.SnapshotsReached (.act member action))
    (enabled : action.enabled (c.members member) = true) : action.Reached c.inFlight (c.members member) := by
  cases action with
  | ready pass => exact ⟨backed.1, backed.2, reached enabled⟩
  | _ => exact True.intro

theorem reached_crash {member : UInt64} {action : Action} {writes : Nat} (some : 0 < writes)
    (backed : c.BackedPasses (.crash member action writes))
    (reached : c.SnapshotsReached (.crash member action writes))
    (enabled : action.enabled (c.members member) = true) : action.Reached c.inFlight (c.members member) := by
  cases action with
  | ready pass => exact ⟨backed.1, backed.2, reached some enabled⟩
  | _ => exact True.intro

theorem Ahead.step (checked : RangeChecked raft) (ahead : c.Ahead) {label : Label}
    (backed : c.BackedPasses label) (reached : c.SnapshotsReached label) : Ahead (c.step raft label) := by
  cases label with
  | act member action =>
    by_cases enabled : action.enabled (c.members member) = true
    · have outcome := Action.outcome_resting checked ahead.embedded (ahead.resting member)
        (ahead.running member) enabled (reached_act backed reached enabled)
      rw [step_act enabled]
      exact ahead.update outcome.1 outcome.2.1 outcome.2.2
    · rw [step_act_disabled enabled]
      exact ahead
  | crash member action writes =>
    by_cases enabled : action.enabled (c.members member) = true
    · have cut : (action.cut raft (c.members member) writes).Resting := by
        rcases Nat.eq_zero_or_pos writes with none | some
        · rw [none]
          exact Action.cut_zero_resting (ahead.resting member)
        · have outcome := Action.outcome_resting checked ahead.embedded (ahead.resting member)
            (ahead.running member) enabled (reached_crash some backed reached enabled)
          exact Action.cut_resting (ahead.resting member) outcome.1.recoverable writes
      have stopped : (action.cut raft (c.members member) writes).running = true ->
          (action.cut raft (c.members member) writes).Running := nofun
      have updated := @Ahead.update c member _ [] ahead cut stopped nofun
      rw [List.append_nil] at updated
      rw [step_crash enabled]
      exact updated
    · rw [step_crash_disabled enabled]
      exact ahead

/-- A step whose disks can all be started from restored no snapshot out of
reach. -/
theorem reached_of_logsReach {label : Label} (reach : (c.step raft label).LogsReach) : c.SnapshotsReached label := by
  have inReach : forall (member : UInt64) (snapshot : Snapshot) (node : Node),
      (c.members member).node.restoreSnapshot snapshot.data = .ok node ->
      Disk.Reconciles ⟨(c.members member).log, node.store.db⟩ ->
      snapshot.data.appliedIndex ≤ (c.members member).log.lastIndexOf := by
    intro member snapshot node restored reconciles
    have both := (Disk.reconciles_iff _).mp reconciles
    rw [← Node.restoreSnapshot_appliedIndex restored]
    exact both.1
  cases label with
  | act member action =>
    cases action with
    | ready pass =>
      intro running snapshot received node restored
      rcases @ready_outcome_records raft (c.members member) pass snapshot received node restored with
        ⟨later, written⟩
      refine inReach member snapshot node restored (reach member _ ?_)
      rw [@step_act raft c member (.ready pass) running]
      change _ ∈ (Function.update c.members member _ member).written
      rw [Function.update_self, written]
      exact List.mem_append_right _ (.head _)
    | _ => exact True.intro
  | crash member action writes =>
    cases action with
    | ready pass =>
      intro some running snapshot received node restored
      rcases @ready_outcome_records raft (c.members member) pass snapshot received node restored with
        ⟨later, written⟩
      refine inReach member snapshot node restored (reach member _ ?_)
      rw [@step_crash raft c member (.ready pass) writes running]
      change _ ∈ (Function.update c.members member _ member).written
      rw [Function.update_self]
      change _ ∈ _ ++ _
      rw [written, List.drop_left]
      obtain ⟨more, rfl⟩ := Nat.exists_eq_succ_of_ne_zero (Nat.ne_of_gt some)
      exact List.mem_append_right _ (.head _)
    | _ => exact True.intro

/-- In every run of a cluster, whatever the network and the crashes do, every
durable write leaves a disk whose log reaches the recorded index exactly when
every restored snapshot finds the log reaching what it embeds. -/
theorem logs_reach_iff (raft : RaftCrate) (checked : RangeChecked raft) (databases : UInt64 -> Db)
    (labels : List Label)
    (backed : EveryStep (Cluster.step raft) Cluster.BackedPasses (Cluster.initial databases) labels) :
    AlongRun (Cluster.step raft) Cluster.LogsReach (Cluster.initial databases) labels <->
      EveryStep (Cluster.step raft) Cluster.SnapshotsReached (Cluster.initial databases) labels := by
  apply alongRun_iff_everyStep
  · intro c label ahead backed reached
    exact Ahead.step checked ahead backed reached
  · intro c ahead
    exact Ahead.logsReach ahead
  · intro c label _ _ reach
    exact reached_of_logsReach reach
  · exact Ahead.initial databases
  · exact backed

/-! ## Two runs -/

/-- A raft that checks the applied index it is started with. -/
def rangeCheckedRaft : RaftCrate :=
  { plainRaft with
    newNode := fun log applied =>
      if 0 < applied ∧ applied < log.snapshotIndex then .error s!"applied({applied}) is out of range" else .ok () }

theorem rangeCheckedRaft_checked : RangeChecked rangeCheckedRaft := by
  intro log applied accepted positive
  by_contra behind
  have refused : rangeCheckedRaft.newNode log applied = .error s!"applied({applied}) is out of range" :=
    if_pos ⟨positive, not_le.mp behind⟩
  rw [refused] at accepted
  cases accepted

/-- A pass that persists entries nobody has committed. -/
def stalePass (entries : List Entry) : Ready where
  snapshot := none
  committedEntries := []
  entries := entries
  hardState := none
  light := { hardState := none, committedEntries := [] }

/-- A pass that brings a leader's snapshot. -/
def snapshotPass (snapshot : Snapshot) : Ready where
  snapshot := some snapshot
  committedEntries := []
  entries := []
  hardState := some { term := 2, vote := 0, commit := snapshot.metadata.index }
  light := { hardState := none, committedEntries := [] }

/-- The snapshot the converted member 1 starts from. -/
def convertedSnapshot : Snapshot :=
  snapshotWith 1 seedTerm { voters := [1], learners := [] } (convertedDatabases 1).exportSnapshot

/-- Member 2 persists what it is given and then crashes while it installs
member 1's snapshot, after the first of the durable writes. -/
def installRun (stale : List Entry) : List Label :=
  let probe : ClusterProbe := { alreadyRunning := false, voters := [] }
  [.act 1 (.start [address 1] probe),
    .act 1 (.request 0),
    .act 2 (.start [address 1, address 2] probe),
    .act 2 (.ready (stalePass stale)),
    .crash 2 (.ready (snapshotPass convertedSnapshot)) 1]

/-- An entry of a term that lost. -/
def staleEntry : Entry where
  index := 1
  term := 2
  body := .normal .empty

theorem installRun_backed (stale : List Entry) (single : stale = [] ∨ stale = [staleEntry]) :
    EveryStep (Cluster.step rangeCheckedRaft) Cluster.BackedPasses (Cluster.initial convertedDatabases)
      (installRun stale) := by
  refine ⟨⟨True.intro, True.intro⟩, ⟨True.intro, True.intro⟩, ⟨True.intro, True.intro⟩, ⟨?_, ?_⟩, ⟨?_, ?_⟩, True.intro⟩
  · exact ⟨nofun, nofun, List.isChain_singleton _⟩
  · rcases single with rfl | rfl
    · constructor <;> decide
    · constructor <;> decide
  · rcases single with rfl | rfl
    · constructor <;> decide
    · constructor <;> decide
  · rcases single with rfl | rfl
    · constructor <;> decide
    · constructor <;> decide

/-- With an entry of its own, the log reaches what the snapshot embeds. -/
theorem installRun_reached :
    AlongRun (Cluster.step rangeCheckedRaft) Cluster.LogsReach (Cluster.initial convertedDatabases)
      (installRun [staleEntry]) := by
  apply (logs_reach_iff rangeCheckedRaft rangeCheckedRaft_checked convertedDatabases _
    (installRun_backed [staleEntry] (Or.inr rfl))).mpr
  refine ⟨True.intro, True.intro, True.intro, ?_, ?_, True.intro⟩
  · intro _ _ impossible
    cases impossible
  · intro _ _ snapshot received _ _
    cases Option.mem_some.mp received
    decide

/-- A new member's log is empty, and the crash leaves a state machine ahead
of it. -/
theorem installRun_not_reached :
    EveryStep (Cluster.step rangeCheckedRaft) Cluster.BackedPasses (Cluster.initial convertedDatabases)
        (installRun []) ∧
      ¬AlongRun (Cluster.step rangeCheckedRaft) Cluster.LogsReach (Cluster.initial convertedDatabases)
        (installRun []) := by
  refine ⟨installRun_backed [] (Or.inl rfl), fun along => ?_⟩
  have reach : forall disk,
      disk ∈ ((run (Cluster.step rangeCheckedRaft) (Cluster.initial convertedDatabases) (installRun [])).members
        2).written -> disk.db.appliedIndex ≤ disk.log.lastIndexOf := by
    intro disk recorded
    exact ((Disk.reconciles_iff disk).mp (along.finish 2 disk recorded)).1
  revert reach
  decide

end Cluster

end NotK8s.Replication

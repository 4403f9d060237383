import NotK8s.Replication.RestartSafety

namespace NotK8s.Replication

open Library Nodestore

/-!
# Restarts in a cluster

The members of a cluster and the snapshots on their way between them.  A step
is one member's start, Ready pass, snapshot maintenance or snapshot request,
run to its end or cut short by a crash after some of its durable writes.

Every disk of every member is restartable along a run exactly when every
snapshot a member takes finds its applied index in memory recorded by the
state machine.
-/

inductive Action where
  /-- A new process on the member's disk. -/
  | start (peers : List Member) (probe : ClusterProbe)
  | ready (ready : Ready)
  | maintain (term : Option Nat)
  | request (requestIndex : Nat)

/-- The driver an action runs on. -/
def Action.base (d : Driver Unit) : Action -> Driver Unit
  | .start _ _ => .opened d.memberId d.disk d.written
  | _ => d

/-- Everything but a start needs a running driver. -/
def Action.enabled (d : Driver Unit) : Action -> Bool
  | .start _ _ => true
  | _ => d.running

/-- Run an action; the result is the snapshots it sends. -/
def Action.perform (raft : RaftCrate) : Action -> Driver.Program Unit (List Snapshot)
  | .start peers probe => do
      Driver.start raft peers probe
      pure []
  | .ready pass => do
      Driver.onReady raft pass
      pure []
  | .maintain term => do
      Driver.maintainSnapshot term
      pure []
  | .request requestIndex => Driver.requestSnapshot requestIndex

/-- The driver an action leads to, stopped when it failed, and what it sent. -/
def Action.outcome (raft : RaftCrate) (action : Action) (d : Driver Unit) : Driver Unit × List Snapshot :=
  match action.perform raft (action.base d) with
  | .ok sent d' => (d', sent)
  | .error _ d' => (d'.stop, [])

/-- The process that opens the disk an action left behind after so many of
its durable writes. -/
def Action.cut (raft : RaftCrate) (action : Action) (d : Driver Unit) (writes : Nat) : Driver Unit :=
  let kept := ((action.outcome raft d).1.written.drop d.written.length).take writes
  .opened d.memberId (kept.getLast?.getD d.disk) (d.written ++ kept)

inductive Label where
  | act (member : UInt64) (action : Action)
  | crash (member : UInt64) (action : Action) (writes : Nat)

structure Cluster where
  members : UInt64 -> Driver Unit
  inFlight : List Snapshot

namespace Cluster

/-- Members that have no raft log yet, each with a database of its own. -/
def initial (databases : UInt64 -> Db) : Cluster where
  members := fun id => .opened id { log := .empty, db := databases id } []
  inFlight := []

def step (raft : RaftCrate) (c : Cluster) : Label -> Cluster
  | .act member action =>
    let d := c.members member
    if action.enabled d then
      let (d', sent) := action.outcome raft d
      { members := Function.update c.members member d', inFlight := c.inFlight ++ sent }
    else c
  | .crash member action writes =>
    let d := c.members member
    if action.enabled d then
      { c with members := Function.update c.members member (action.cut raft d writes) }
    else c

/-- Every member's disk can be restarted from, now and after every durable
write so far. -/
def RestartSafe (c : Cluster) : Prop :=
  forall member, (c.members member).Sound

/-- Raft keeps its promises to the member that runs a Ready pass. -/
def Promised (c : Cluster) : Label -> Prop
  | .act member (.ready ready) => (c.members member).Promised c.inFlight ready
  | .crash member (.ready ready) _ => (c.members member).Promised c.inFlight ready
  | _ => True

/-- The state machine has recorded the applied index a snapshot is stamped
with. -/
def StampRecorded (d : Driver Unit) (term : Option Nat) : Prop :=
  d.running = true -> d.takesSnapshot term = true -> d.appliedIndex = d.node.store.db.appliedIndex

instance (d : Driver Unit) (term : Option Nat) : Decidable (StampRecorded d term) :=
  inferInstanceAs (Decidable (_ -> _ -> _))

/-- Every snapshot that reaches the disk is stamped with a recorded index. -/
def SnapshotsRecorded (c : Cluster) : Label -> Prop
  | .act member (.maintain term) => StampRecorded (c.members member) term
  | .crash member (.maintain term) writes => 0 < writes -> StampRecorded (c.members member) term
  | _ => True

end Cluster

/-! ## One action -/

namespace Driver

variable {raft : RaftCrate} {d : Driver Unit}

theorem opened_sound (memberId : UInt64) {disk : Disk} (restartable : disk.Restartable) {written : List Disk} (before : forall disk, disk ∈ written -> disk.Restartable) :
    Sound (Driver.opened memberId disk written : Driver Unit) := by
  refine ⟨⟨restartable.1, ?_⟩, before⟩
  intro snapshot impossible
  cases impossible

/-- Between actions the recorded index is not ahead of the one in memory. -/
def Settled (d : Driver Unit) : Prop :=
  Exists fun index : Nat => At index d

theorem Settled.sound (settled : d.Settled) : d.Sound :=
  settled.elim fun _ reached => reached.upTo.sound

def Embeds (snapshot : Snapshot) : Prop :=
  snapshot.data.appliedIndex = snapshot.metadata.index

theorem requestSnapshot_triple (requestIndex : Nat) :
    Triple Settled (requestSnapshot requestIndex)
      (fun sent d => Settled d ∧ forall snapshot, snapshot ∈ sent -> Embeds snapshot) Sound := by
  apply Triple.readState
  rintro _ ⟨index, reached⟩ here rfl
  have served := RaftLog.serveSnapshot_spec here.log requestIndex
  refine ⟨⟨index, ⟨⟨⟨?_, reached.upTo.sound.before⟩, reached.upTo.recorded⟩, reached.applied⟩⟩, ?_⟩
  · have now := reached.upTo.sound.now
    change ((here.log.serveSnapshot requestIndex).2.snapshotMeta.map SnapshotMetadata.index).getD 0 ≤ _ ∧
      forall snapshot, snapshot ∈ (here.log.serveSnapshot requestIndex).2.snapshot -> _
    rw [served.1, served.2.1]
    exact now
  · intro snapshot member
    apply reached.upTo.sound.now.2
    apply served.2.2
    exact Option.mem_toList.mp member

theorem maintainSnapshot_triple {term : Option Nat}
    (recorded : d.takesSnapshot term = true -> d.appliedIndex = d.node.store.db.appliedIndex)
    (settled : d.Settled) :
    Triple (fun other => other = d) (maintainSnapshot term : Program Unit Unit) (fun _ => Settled) Sound := by
  rintro _ rfl
  rcases settled with ⟨index, reached⟩
  cases takes : takesSnapshot _ term with
  | false =>
    rw [maintainSnapshot_idle takes]
    exact ⟨index, reached⟩
  | true =>
    rcases maintainSnapshot_takes takes with ⟨known, outcome⟩
    rw [outcome]
    have same := recorded takes
    exact ⟨index, ⟨⟨reached.upTo.sound.installSnapshot same.symm same.le, reached.upTo.recorded⟩,
      reached.applied⟩⟩

end Driver

open Driver

/-- What an action needs of its driver and of raft to keep the disk sound. -/
def Action.Careful (action : Action) (inFlight : List Snapshot) (d : Driver Unit) : Prop :=
  match action with
  | .ready pass => d.Promised inFlight pass
  | .maintain term => Cluster.StampRecorded d term
  | _ => True

theorem Action.perform_triple (raft : RaftCrate) {action : Action} {inFlight : List Snapshot} {d : Driver Unit}
    (embedded : forall snapshot, snapshot ∈ inFlight -> Embeds snapshot) (sound : d.Sound)
    (settled : d.running = true -> d.Settled) (enabled : action.enabled d = true)
    (careful : action.Careful inFlight d) :
    Triple (fun other => other = action.base d) (action.perform raft)
      (fun sent d' => Settled d' ∧ forall snapshot, snapshot ∈ sent -> Embeds snapshot) Sound := by
  have nothing : Triple Settled (pure [] : Program Unit (List Snapshot))
      (fun sent d' => Settled d' ∧ forall snapshot, snapshot ∈ sent -> Embeds snapshot) Sound :=
    Triple.returning fun _ settled => ⟨settled, nofun⟩
  cases action with
  | start peers probe =>
    have opened := opened_sound d.memberId sound.now sound.before
    exact ((start_triple raft peers probe).start opened).sequence fun _ => nothing
  | ready pass =>
    rcases settled enabled with ⟨index, reached⟩
    have passed := @onReady_triple Unit raft index pass
      (fun snapshot member => embedded snapshot (careful.sent snapshot member))
      (fun snapshot member => reached.applied ▸ careful.ahead snapshot member)
      (reached.applied ▸ careful.ascends)
    exact (passed.start reached).sequence fun _ => nothing
  | maintain term =>
    exact (maintainSnapshot_triple (careful enabled) (settled enabled)).sequence fun _ => nothing
  | request requestIndex => exact (requestSnapshot_triple requestIndex).start (settled enabled)

section
variable {raft : RaftCrate} {action : Action} {inFlight : List Snapshot} {d : Driver Unit}

theorem Action.outcome_sound (embedded : forall snapshot, snapshot ∈ inFlight -> Embeds snapshot) (sound : d.Sound)
    (settled : d.running = true -> d.Settled) (enabled : action.enabled d = true)
    (careful : action.Careful inFlight d) :
    (action.outcome raft d).1.Sound ∧
      ((action.outcome raft d).1.running = true -> (action.outcome raft d).1.Settled) ∧
      forall snapshot, snapshot ∈ (action.outcome raft d).2 -> Embeds snapshot := by
  have holds := Action.perform_triple raft embedded sound settled enabled careful
  unfold Action.outcome
  cases performed : action.perform raft (action.base d) with
  | ok sent d' =>
    have finished := holds.returns rfl performed
    exact ⟨finished.1.sound, fun _ => finished.1, finished.2⟩
  | error refusal d' =>
    have broken := holds.fails rfl performed
    exact ⟨⟨broken.now, broken.before⟩, nofun, nofun⟩

theorem Action.cut_sound (sound : d.Sound) (outcome : (action.outcome raft d).1.Sound) (writes : Nat) :
    (action.cut raft d writes).Sound := by
  have kept : forall disk,
      disk ∈ ((action.outcome raft d).1.written.drop d.written.length).take writes -> disk.Restartable := by
    intro disk member
    apply outcome.before
    exact List.mem_of_mem_drop (List.mem_of_mem_take member)
  apply opened_sound
  · cases last : (((action.outcome raft d).1.written.drop d.written.length).take writes).getLast? with
    | none => exact sound.now
    | some disk => exact kept disk (List.mem_of_getLast? last)
  · intro disk member
    rcases List.mem_append.mp member with earlier | later
    · exact sound.before disk earlier
    · exact kept disk later

theorem Action.cut_zero_sound (sound : d.Sound) : (action.cut raft d 0).Sound := by
  have same : action.cut raft d 0 = .opened d.memberId d.disk (d.written ++ []) := rfl
  rw [same, List.append_nil]
  exact opened_sound d.memberId sound.now sound.before

theorem Action.cut_settled {writes : Nat} (running : (action.cut raft d writes).running = true) :
    (action.cut raft d writes).Settled :=
  nomatch running

/-- A snapshot that is taken and leaves a restartable disk was stamped with
the recorded index. -/
theorem maintain_outcome_recorded {term : Option Nat} (takes : d.takesSnapshot term = true) :
    Exists fun disk : Disk => ((Action.maintain term).outcome raft d).1.written = d.written ++ [disk] ∧
      ((Action.maintain term).outcome raft d).1.disk = disk ∧
      (disk.Restartable -> d.appliedIndex = d.node.store.db.appliedIndex) := by
  rcases maintainSnapshot_takes takes with ⟨known, taken⟩
  let finish (result : EStateM.Result Error (Driver Unit) (List Snapshot)) : Driver Unit × List Snapshot :=
    match result with
    | .ok sent d' => (d', sent)
    | .error _ d' => (d'.stop, [])
  have performed : (Action.maintain term).perform raft d = .ok []
      { d with
        log := d.log.installSnapshot (d.ownSnapshot known)
        written := d.written ++ [⟨d.log.installSnapshot (d.ownSnapshot known), d.node.store.db⟩] } := by
    change EStateM.bind (Driver.maintainSnapshot term) _ d = _
    unfold EStateM.bind
    rw [taken]
    rfl
  have outcome : (Action.maintain term).outcome raft d = _ := congrArg finish performed
  refine ⟨⟨d.log.installSnapshot (d.ownSnapshot known), d.node.store.db⟩, ?_, ?_, ?_⟩
  · rw [outcome]
  · rw [outcome]
    rfl
  · intro restartable
    exact (restartable.2 (d.ownSnapshot known) rfl).symm

end

namespace Cluster

/-- The invariant of the runs whose snapshots are all recorded. -/
structure Steady (c : Cluster) : Prop where
  sound : forall member, (c.members member).Sound
  settled : forall member, (c.members member).running = true -> (c.members member).Settled
  embedded : forall snapshot, snapshot ∈ c.inFlight -> Embeds snapshot

theorem Steady.initial (databases : UInt64 -> Db) : Steady (Cluster.initial databases) := by
  refine ⟨fun member => ?_, nofun, nofun⟩
  apply opened_sound member
  · exact ⟨Nat.zero_le _, nofun⟩
  · nofun

variable {raft : RaftCrate} {c : Cluster}

section
variable {member : UInt64} {action : Action}

theorem step_act (enabled : action.enabled (c.members member) = true) :
    c.step raft (.act member action) =
      { members := Function.update c.members member (action.outcome raft (c.members member)).1
        inFlight := c.inFlight ++ (action.outcome raft (c.members member)).2 } :=
  if_pos enabled

theorem step_act_disabled (disabled : ¬ action.enabled (c.members member) = true) :
    c.step raft (.act member action) = c :=
  if_neg disabled

theorem step_crash {writes : Nat} (enabled : action.enabled (c.members member) = true) :
    c.step raft (.crash member action writes) =
      { c with members := Function.update c.members member (action.cut raft (c.members member) writes) } :=
  if_pos enabled

theorem step_crash_disabled {writes : Nat} (disabled : ¬ action.enabled (c.members member) = true) :
    c.step raft (.crash member action writes) = c :=
  if_neg disabled

end

theorem Steady.update {member : UInt64} {d : Driver Unit} {sent : List Snapshot} (steady : c.Steady)
    (sound : d.Sound) (settled : d.running = true -> d.Settled)
    (embedded : forall snapshot, snapshot ∈ sent -> Embeds snapshot) :
    Steady { members := Function.update c.members member d, inFlight := c.inFlight ++ sent } := by
  refine ⟨?_, ?_, fun snapshot held => ?_⟩
  · exact (Function.forall_update_iff _ fun _ => Driver.Sound).mpr ⟨sound, fun other _ => steady.sound other⟩
  · exact (Function.forall_update_iff _ fun _ (d : Driver Unit) => d.running = true -> d.Settled).mpr
      ⟨settled, fun other _ => steady.settled other⟩
  · rcases List.mem_append.mp held with earlier | later
    · exact steady.embedded snapshot earlier
    · exact embedded snapshot later

theorem careful_act {member : UInt64} {action : Action} (promised : c.Promised (.act member action))
    (recorded : c.SnapshotsRecorded (.act member action)) : action.Careful c.inFlight (c.members member) := by
  cases action with
  | start peers probe | request requestIndex => exact True.intro
  | ready pass => exact promised
  | maintain term => exact recorded

theorem careful_crash {member : UInt64} {action : Action} {writes : Nat} (some : 0 < writes)
    (promised : c.Promised (.crash member action writes))
    (recorded : c.SnapshotsRecorded (.crash member action writes)) :
    action.Careful c.inFlight (c.members member) := by
  cases action with
  | start peers probe | request requestIndex => exact True.intro
  | ready pass => exact promised
  | maintain term => exact recorded some

theorem Steady.step (steady : c.Steady) {label : Label} (promised : c.Promised label)
    (recorded : c.SnapshotsRecorded label) : Steady (c.step raft label) := by
  cases label with
  | act member action =>
    by_cases enabled : action.enabled (c.members member) = true
    · have outcome := @Action.outcome_sound raft action c.inFlight (c.members member) steady.embedded
        (steady.sound member) (steady.settled member) enabled (careful_act promised recorded)
      rw [step_act enabled]
      exact steady.update outcome.1 outcome.2.1 outcome.2.2
    · rw [step_act_disabled enabled]
      exact steady
  | crash member action writes =>
    by_cases enabled : action.enabled (c.members member) = true
    · have cut : (action.cut raft (c.members member) writes).Sound := by
        rcases Nat.eq_zero_or_pos writes with none | some
        · rw [none]
          exact Action.cut_zero_sound (steady.sound member)
        · have outcome := @Action.outcome_sound raft action c.inFlight (c.members member) steady.embedded
            (steady.sound member) (steady.settled member) enabled (careful_crash some promised recorded)
          exact Action.cut_sound (steady.sound member) outcome.1 writes
      have updated := @Steady.update c member _ [] steady cut Action.cut_settled nofun
      rw [List.append_nil] at updated
      rw [step_crash enabled]
      exact updated
    · rw [step_crash_disabled enabled]
      exact steady

/-- A step that leaves every disk restartable took no unrecorded snapshot. -/
theorem recorded_of_safe {label : Label} (safe : (c.step raft label).RestartSafe) : c.SnapshotsRecorded label := by
  cases label with
  | act member action =>
    cases action with
    | maintain term =>
      intro running takes
      rcases @maintain_outcome_recorded raft (c.members member) term takes with ⟨disk, _, current, stamped⟩
      have now := (safe member).now
      rw [@step_act raft c member (.maintain term) running] at now
      change (Driver.disk (Function.update c.members member _ member)).Restartable at now
      rw [Function.update_self, current] at now
      exact stamped now
    | _ => exact True.intro
  | crash member action writes =>
    cases action with
    | maintain term =>
      intro some running takes
      rcases @maintain_outcome_recorded raft (c.members member) term takes with ⟨disk, written, _, stamped⟩
      apply stamped
      apply (safe member).before
      rw [@step_crash raft c member (.maintain term) writes running]
      change disk ∈ (Function.update c.members member _ member).written
      rw [Function.update_self]
      change disk ∈ _ ++ _
      rw [written, List.drop_left, List.take_of_length_le some]
      exact List.mem_append_right _ (List.mem_singleton_self disk)
    | _ => exact True.intro

/-- In every run of a cluster, whatever raft, the network and the crashes do,
every disk stays one its member can be restarted from exactly when every
snapshot that reaches a disk was stamped with an applied index its state
machine had recorded. -/
theorem restart_safe_iff (raft : RaftCrate) (databases : UInt64 -> Db) (labels : List Label)
    (promised : EveryStep (Cluster.step raft) Cluster.Promised (Cluster.initial databases) labels) :
    AlongRun (Cluster.step raft) Cluster.RestartSafe (Cluster.initial databases) labels <->
      EveryStep (Cluster.step raft) Cluster.SnapshotsRecorded (Cluster.initial databases) labels := by
  apply alongRun_iff_everyStep
  · intro c label steady promised recorded
    exact Steady.step steady promised recorded
  · intro c steady
    exact steady.sound
  · intro c label _ _ safe
    exact recorded_of_safe safe
  · exact Steady.initial databases
  · exact promised

/-! ## Two runs -/

/-- Databases of members that never ran, except that member 1 has applied
one command on its own. -/
def convertedDatabases : UInt64 -> Db := fun id =>
  if id = 1 then { Db.initSchema with appliedIndex := 1 } else Db.initSchema

def address (id : UInt64) : Member where
  id := id
  peerUrl := s!"http://{id}:2380"
  clientUrl := ""
  name := s!"member-{id}"
  isLearner := false

/-- Raft hands over entries it appends and commits in one pass. -/
def commitPass (term commit : Nat) (entries : List Entry) : Ready where
  snapshot := none
  committedEntries := []
  entries := entries
  hardState := some { term := term, vote := 1, commit := commit }
  light := { hardState := none, committedEntries := entries }

/-- Member 1 is converted to a cluster of its own, wins its election, adds
member 2 as a learner and restarts.  After one more entry the learner asks
for a snapshot, and the one the conversion installed is no longer at hand. -/
def learnerRun (last : EntryBody) : List Label :=
  let probe : ClusterProbe := { alreadyRunning := false, voters := [] }
  let added : EntryBody :=
    .confChangeV2 (.ok { changes := [{ changeType := .addLearnerNode, nodeId := 2 }] })
      (encodeEntry 1 (.setMember (address 2)))
  [.act 1 (.start [address 1] probe),
    .act 1 (.ready (commitPass 2 3
      [{ index := 2, term := 2, body := .normal .empty }, { index := 3, term := 2, body := added }])),
    .act 1 (.start [address 1] probe),
    .act 1 (.ready (commitPass 3 4 [{ index := 4, term := 3, body := last }])),
    .act 1 (.request 0),
    .act 1 (.maintain (some 3))]

theorem learnerRun_promised (last : EntryBody) :
    EveryStep (Cluster.step plainRaft) Cluster.Promised (Cluster.initial convertedDatabases) (learnerRun last) := by
  refine ⟨True.intro, ⟨?_, ?_, ?_⟩, True.intro, ⟨?_, ?_, ?_⟩, True.intro, True.intro, True.intro⟩
  · nofun
  · nofun
  · decide +kernel
  · nofun
  · nofun
  · refine List.isChain_cons_cons.mpr ⟨?_, List.isChain_singleton _⟩
    dsimp only [commitPass, Option.map_none, Option.getD_none]
    decide +kernel

/-- The last entry is a put, so the learner's snapshot is recorded. -/
theorem learnerRun_put_restart_safe :
    let put : Command :=
      .put { key := ascii "/a", value := ascii "one", lease := 0, prevKv := false,
             ignoreValue := false, ignoreLease := false }
    AlongRun (Cluster.step plainRaft) Cluster.RestartSafe (Cluster.initial convertedDatabases)
      (learnerRun (.normal (encodeEntry 1 put))) := by
  intro put
  apply (restart_safe_iff plainRaft convertedDatabases _ (learnerRun_promised _)).mpr
  refine ⟨True.intro, True.intro, True.intro, True.intro, True.intro, ?_, True.intro⟩
  intro _ _
  decide +kernel

/-- The last entry is the empty one of the election after the restart: the
snapshot claims index 4 and embeds index 3, and the log begins above the
recorded index. -/
theorem learnerRun_election_not_restart_safe :
    EveryStep (Cluster.step plainRaft) Cluster.Promised (Cluster.initial convertedDatabases)
        (learnerRun (.normal .empty)) ∧
      ¬ AlongRun (Cluster.step plainRaft) Cluster.RestartSafe (Cluster.initial convertedDatabases)
        (learnerRun (.normal .empty)) := by
  refine ⟨learnerRun_promised _, fun along => ?_⟩
  have compacted := (along.finish 1).now.1
  revert compacted
  decide +kernel

end Cluster

end NotK8s.Replication

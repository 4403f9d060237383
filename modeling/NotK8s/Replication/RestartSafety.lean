import NotK8s.Library.Run
import NotK8s.Replication.DriverRules

namespace NotK8s.Replication

open Library Nodestore

/-!
# What a restart finds

A member can be restarted from a disk whose log begins no later than the
index its state machine has recorded, and a snapshot can be handed to others
when the state it embeds is at the index it claims.  The driver keeps both
through every durable write but one: `maintainSnapshot` stamps the applied
index in memory, which counts entries the state machine never records.
-/

/-- A disk a member can be restarted from. -/
def Disk.Restartable (disk : Disk) : Prop :=
  disk.log.snapshotIndex ≤ disk.db.appliedIndex ∧
    forall snapshot, snapshot ∈ disk.log.snapshot -> snapshot.data.appliedIndex = snapshot.metadata.index

namespace Driver

variable {Waiter : Type} {raft : RaftCrate} {d : Driver Waiter}

/-- The disk is restartable now and was after every durable write. -/
structure Sound (d : Driver Waiter) : Prop where
  now : d.disk.Restartable
  before : forall disk, disk ∈ d.written -> disk.Restartable

/-- A sound driver whose state machine has recorded no index above `bound`. -/
structure SoundUpTo (bound : Nat) (d : Driver Waiter) : Prop where
  sound : d.Sound
  recorded : d.node.store.db.appliedIndex ≤ bound

theorem SoundUpTo.mono {bound later : Nat} (upTo : SoundUpTo bound d) (order : bound ≤ later) :
    SoundUpTo later d :=
  ⟨upTo.sound, upTo.recorded.trans order⟩

/-- Between passes the applied index in memory bounds the recorded one. -/
structure At (index : Nat) (d : Driver Waiter) : Prop where
  upTo : SoundUpTo index d
  applied : d.appliedIndex = index

/-! ## Durable writes -/

theorem persist_sound (now : d.disk.Restartable) (before : forall disk, disk ∈ d.written -> disk.Restartable) :
    Sound { d with written := d.written ++ [d.disk] } := by
  refine ⟨now, fun disk member => ?_⟩
  rcases List.mem_append.mp member with earlier | last
  · exact before disk earlier
  · rw [List.mem_singleton.mp last]
    exact now

theorem Sound.writeLog {log : RaftLog} (sound : d.Sound) (sameMeta : log.snapshotMeta = d.log.snapshotMeta)
    (sameSnapshot : log.snapshot = d.log.snapshot) :
    Sound { d with log := log, written := d.written ++ [⟨log, d.node.store.db⟩] } := by
  apply @persist_sound Waiter { d with log := log }
  · have now := sound.now
    change (log.snapshotMeta.map SnapshotMetadata.index).getD 0 ≤ d.node.store.db.appliedIndex ∧
      forall snapshot, snapshot ∈ log.snapshot -> snapshot.data.appliedIndex = snapshot.metadata.index
    rw [sameMeta, sameSnapshot]
    exact now
  · exact sound.before

theorem Sound.installSnapshot {snapshot : Snapshot} (sound : d.Sound)
    (embedded : snapshot.data.appliedIndex = snapshot.metadata.index)
    (reached : snapshot.metadata.index ≤ d.node.store.db.appliedIndex) :
    Sound { d with
      log := d.log.installSnapshot snapshot
      written := d.written ++ [⟨d.log.installSnapshot snapshot, d.node.store.db⟩] } := by
  apply @persist_sound Waiter { d with log := d.log.installSnapshot snapshot }
  · refine ⟨reached, fun served same => ?_⟩
    cases Option.mem_some.mp same
    exact embedded
  · exact sound.before

theorem Sound.writeNode {node : Node} (sound : d.Sound)
    (forward : d.node.store.db.appliedIndex ≤ node.store.db.appliedIndex) :
    Sound { d with node := node, written := d.written ++ [⟨d.log, node.store.db⟩] } := by
  apply @persist_sound Waiter { d with node := node }
  · exact ⟨sound.now.1.trans forward, sound.now.2⟩
  · exact sound.before

theorem soundUpTo_logStable (bound : Nat) : LogStable (SoundUpTo bound : Driver Waiter -> Prop) :=
  fun _ _ upTo sameMeta sameSnapshot => ⟨upTo.sound.writeLog sameMeta sameSnapshot, upTo.recorded⟩

theorem at_logStable (index : Nat) : LogStable (At index : Driver Waiter -> Prop) :=
  fun d log reached sameMeta sameSnapshot =>
    ⟨soundUpTo_logStable index d log reached.upTo sameMeta sameSnapshot, reached.applied⟩

theorem complete_triple {bound : Nat} {failed : Driver Waiter -> Prop} (id : UInt64) (result : ProposalResult) :
    Triple (SoundUpTo bound) (complete id result : Program Waiter Unit) (fun _ => SoundUpTo bound) failed := by
  apply Triple.writing
  intro d upTo
  exact ⟨⟨upTo.sound.now, upTo.sound.before⟩, upTo.recorded⟩

theorem setAppliedIndex_triple {index : Nat} {failed : Driver Waiter -> Prop} :
    Triple (SoundUpTo index) (setAppliedIndex index : Program Waiter Unit) (fun _ => At index) failed := by
  apply Triple.writing
  intro d upTo
  exact ⟨⟨⟨upTo.sound.now, upTo.sound.before⟩, upTo.recorded⟩, rfl⟩

/-! ## Entries -/

theorem SoundUpTo.applyCommitted {bound index : Nat} {cmd : Command} {applied : Applied} {node : Node}
    (upTo : SoundUpTo bound d) (next : bound < index)
    (success : d.node.applyCommitted index cmd = .ok (applied, node)) :
    SoundUpTo index { d with node := node, written := d.written ++ [⟨d.log, node.store.db⟩] } := by
  have recorded : node.store.db.appliedIndex = index :=
    applyAt_appliedIndex (Node.applyCommitted_ok success) (by omega)
  refine ⟨upTo.sound.writeNode ?_, recorded.le⟩
  rw [recorded]
  exact upTo.recorded.trans next.le

theorem SoundUpTo.writeNode_triple {bound index : Nat} {cmd : Command} {applied : Applied} {node : Node}
    (upTo : SoundUpTo bound d) (next : bound < index)
    (success : d.node.applyCommitted index cmd = .ok (applied, node)) :
    Triple (fun start => start = d) (writeNode node : Program Waiter Unit) (fun _ => SoundUpTo index) Sound := by
  apply Driver.writeNode_triple
  rintro _ rfl
  exact upTo.applyCommitted next success

theorem decode_triple {bound : Nat} (data : EntryData) :
    Triple (SoundUpTo bound) (MonadExcept.ofExcept (decodeEntry data) : Program Waiter (UInt64 × Command))
      (fun _ => SoundUpTo bound) Sound := by
  apply Triple.ofExcept
  · intro _ _ d upTo
    exact upTo
  · intro d upTo
    exact upTo.sound

theorem applyPayload_triple {bound index : Nat} (next : bound < index) (data : EntryData)
    {refused : UInt64 -> Error -> Program Waiter Unit}
    (kept : forall id refusal, Triple (SoundUpTo bound) (refused id refusal) (fun _ => SoundUpTo bound) Sound) :
    Triple (SoundUpTo bound) (applyPayload refused data index) (fun _ => SoundUpTo index) Sound := by
  unfold applyPayload
  by_cases empty : data.isEmpty = true
  · rw [if_pos empty]
    apply Triple.returning
    intro d upTo
    exact upTo.mono next.le
  · rw [if_neg empty]
    apply (decode_triple data).sequence
    rintro ⟨proposalId, cmd⟩
    apply Triple.readState
    intro start upTo
    cases outcome : start.node.applyCommitted index cmd with
    | ok result =>
      exact (upTo.writeNode_triple next outcome).sequence fun _ => complete_triple proposalId _
    | error refusal =>
      apply (kept proposalId refusal).consequence
      · rintro _ rfl
        exact upTo
      · intro _ d after
        exact after.mono next.le
      · exact fun _ broken => broken

theorem haltRefused_triple {bound : Nat} (index : Nat) (id : UInt64) (refusal : Error) :
    Triple (SoundUpTo bound) (haltRefused index id refusal : Program Waiter Unit) (fun _ => SoundUpTo bound)
      Sound := by
  apply (complete_triple id _).sequence
  intro _
  apply Triple.failing
  intro d upTo
  exact upTo.sound

theorem applyConfChange_triple {bound index : Nat} (next : bound < index) (change : Except Error ConfChangeV2)
    (context : EntryData) :
    Triple (SoundUpTo bound) (applyConfChange raft change context index : Program Waiter Unit)
      (fun _ => SoundUpTo index) Sound := by
  have parsed : Triple (SoundUpTo bound) (MonadExcept.ofExcept change : Program Waiter ConfChangeV2)
      (fun _ => SoundUpTo bound) Sound :=
    Triple.ofExcept (fun _ _ _ upTo => upTo) fun _ upTo => upTo.sound
  apply parsed.sequence
  intro cc
  apply Triple.readState
  intro start upTo
  cases raft.applyConfChange start.conf cc with
  | error reason =>
    apply Triple.failing
    rintro _ rfl
    exact upTo.sound
  | ok confState =>
    have changed : Triple (fun d => d = start)
        (modify fun d => { d with conf := confState } : Program Waiter Unit) (fun _ => SoundUpTo bound) Sound := by
      apply Triple.writing
      rintro _ rfl
      exact ⟨⟨upTo.sound.now, upTo.sound.before⟩, upTo.recorded⟩
    apply changed.sequence
    intro _
    apply ((soundUpTo_logStable bound).setConfState confState index).sequence
    intro _
    exact applyPayload_triple next context fun id refusal => complete_triple id _

theorem applyEntry_triple {bound : Nat} {entry : Entry} (next : bound < entry.index) :
    Triple (SoundUpTo bound) (applyEntry raft entry : Program Waiter Unit) (fun _ => At entry.index) Sound := by
  unfold applyEntry
  cases entry.body with
  | normal data =>
    exact (applyPayload_triple next data (haltRefused_triple entry.index)).sequence fun _ => setAppliedIndex_triple
  | confChange change context =>
    exact (applyConfChange_triple next (widenConfChange change) context).sequence fun _ => setAppliedIndex_triple
  | confChangeV2 change context =>
    exact (applyConfChange_triple next (parsedConfChange change) context).sequence fun _ => setAppliedIndex_triple

/-- The indices of entries grow, starting above `base`. -/
def Ascends (base : Nat) (entries : List Entry) : Prop :=
  List.IsChain (fun first second => first < second) (base :: entries.map Entry.index)

instance (base : Nat) (entries : List Entry) : Decidable (Ascends base entries) :=
  inferInstanceAs (Decidable (List.IsChain (fun first second => first < second) (base :: entries.map Entry.index)))

theorem applyEntries_triple {base : Nat} {entries rest : List Entry} (ascends : Ascends base (entries ++ rest)) :
    Triple (At base) (applyEntries raft entries : Program Waiter Unit)
      (fun _ d => Exists fun index : Nat => At index d ∧ Ascends index rest) Sound := by
  induction entries generalizing base with
  | nil =>
    apply Triple.returning
    intro d reached
    exact ⟨base, reached, ascends⟩
  | cons entry later ih =>
    have parts := List.isChain_cons_cons.mp ascends
    have applied : Triple (At base) (applyEntry raft entry : Program Waiter Unit)
        (fun _ => At entry.index) Sound :=
      (applyEntry_triple parts.1).consequence (fun _ reached => reached.upTo) (fun _ _ after => after)
        fun _ broken => broken
    exact applied.sequence fun _ => ih parts.2

/-! ## One pass -/

/-- What raft promises about a pass: a snapshot it hands over was sent by a
member and is not behind what is applied, and the committed entries ascend
from the snapshot or from what is applied. -/
structure Promised (inFlight : List Snapshot) (d : Driver Waiter) (ready : Ready) : Prop where
  sent : forall snapshot, snapshot ∈ ready.snapshot -> snapshot ∈ inFlight
  ahead : forall snapshot, snapshot ∈ ready.snapshot -> d.appliedIndex ≤ snapshot.metadata.index
  ascends : Ascends ((ready.snapshot.map fun snapshot => snapshot.metadata.index).getD d.appliedIndex)
    (ready.committedEntries ++ ready.light.committedEntries)

theorem installReceivedSnapshot_triple {base : Nat} {snapshot : Snapshot}
    (embedded : snapshot.data.appliedIndex = snapshot.metadata.index) (ahead : base ≤ snapshot.metadata.index) :
    Triple (At base) (installReceivedSnapshot snapshot : Program Waiter Unit)
      (fun _ => At snapshot.metadata.index) Sound := by
  apply Triple.readState
  intro start reached
  cases outcome : start.node.restoreSnapshot snapshot.data with
  | error refusal =>
    apply Triple.failing
    rintro _ rfl
    exact reached.upTo.sound
  | ok node =>
    have recorded : node.store.db.appliedIndex = snapshot.metadata.index :=
      (Node.restoreSnapshot_appliedIndex outcome).trans embedded
    rintro _ rfl
    have restored := @Sound.writeNode Waiter _ node reached.upTo.sound (by
      rw [recorded]
      exact reached.upTo.recorded.trans ahead)
    have installed := restored.installSnapshot embedded recorded.ge
    exact ⟨⟨⟨installed.now, installed.before⟩, recorded.le⟩, rfl⟩

theorem onReady_triple {base : Nat} {ready : Ready}
    (embedded : forall snapshot, snapshot ∈ ready.snapshot -> snapshot.data.appliedIndex = snapshot.metadata.index)
    (ahead : forall snapshot, snapshot ∈ ready.snapshot -> base ≤ snapshot.metadata.index)
    (ascends : Ascends ((ready.snapshot.map fun snapshot => snapshot.metadata.index).getD base)
      (ready.committedEntries ++ ready.light.committedEntries)) :
    Triple (At base) (onReady raft ready : Program Waiter Unit)
      (fun _ d => Exists fun index : Nat => At index d) Sound := by
  have passed : forall reached : Nat,
      Ascends reached (ready.committedEntries ++ ready.light.committedEntries) ->
      Triple (At reached) (do
        applyEntries raft ready.committedEntries
        append ready.entries
        setHardState ready.hardState
        setHardState ready.light.hardState
        applyEntries raft ready.light.committedEntries : Program Waiter Unit)
        (fun _ d => Exists fun index : Nat => At index d) Sound := by
    intro reached ascends
    apply (applyEntries_triple ascends).sequence
    intro _
    apply Triple.choose
    intro index
    apply Triple.assuming
    intro later
    apply ((at_logStable index).append (fun _ reached => reached.upTo.sound) ready.entries).sequence
    intro _
    apply ((at_logStable index).setHardState ready.hardState).sequence
    intro _
    apply ((at_logStable index).setHardState ready.light.hardState).sequence
    intro _
    rw [← List.append_nil ready.light.committedEntries] at later
    apply (applyEntries_triple later).consequence (fun _ reached => reached) _ fun _ broken => broken
    rintro _ d ⟨last, reached, _⟩
    exact ⟨last, reached⟩
  unfold onReady
  cases found : ready.snapshot with
  | none =>
    rw [found] at ascends
    exact passed base ascends
  | some snapshot =>
    rw [found] at ascends embedded ahead
    have installed := @installReceivedSnapshot_triple Waiter base snapshot
      (embedded snapshot rfl) (ahead snapshot rfl)
    exact installed.sequence fun _ => passed snapshot.metadata.index ascends

/-! ## Snapshots and starts -/

/-- Whether a snapshot is taken: one is due, and raft knows the term. -/
def takesSnapshot (d : Driver Waiter) (term : Option Nat) : Bool :=
  d.snapshotNeeded && term.isSome

theorem maintainSnapshot_idle {term : Option Nat} (idle : d.takesSnapshot term = false) :
    maintainSnapshot term d = .ok () d := by
  unfold takesSnapshot at idle
  change (if d.snapshotNeeded = true then _ else _ : Program Waiter Unit) d = _
  cases needed : d.snapshotNeeded with
  | false => rfl
  | true =>
    rw [needed] at idle
    cases term with
    | none => rfl
    | some value => cases idle

/-- The snapshot a member takes. -/
def ownSnapshot (d : Driver Waiter) (term : Nat) : Snapshot :=
  snapshotWith d.appliedIndex term d.conf d.node.store.db.exportSnapshot

theorem maintainSnapshot_takes {term : Option Nat} (takes : d.takesSnapshot term = true) :
    Exists fun known : Nat =>
      maintainSnapshot term d = .ok ()
        { d with
          log := d.log.installSnapshot (d.ownSnapshot known)
          written := d.written ++ [⟨d.log.installSnapshot (d.ownSnapshot known), d.node.store.db⟩] } := by
  unfold takesSnapshot at takes
  rw [Bool.and_eq_true] at takes
  cases term with
  | none => cases takes.2
  | some known =>
    refine ⟨known, ?_⟩
    change (if d.snapshotNeeded = true then _ else _ : Program Waiter Unit) d = _
    rw [if_pos takes.1]
    rfl

theorem adoptExistingState_triple {applied : Nat} (peers : List Member) :
    Triple (fun d : Driver Waiter => SoundUpTo applied d ∧ d.node.store.db.appliedIndex = applied)
      (adoptExistingState peers applied) (fun _ => SoundUpTo applied) Sound := by
  apply Triple.readState
  rintro start ⟨upTo, recorded⟩
  by_cases alone : ((peers.map Member.id).filter fun id => id ≠ start.memberId).isEmpty = true
  · rw [if_pos alone]
    have seeded : Triple (fun d => d = start)
        (writeLog (start.log.installSnapshot (snapshotWith applied seedTerm
          { voters := [start.memberId], learners := [] } start.node.store.db.exportSnapshot)) : Program Waiter Unit)
        (fun _ => SoundUpTo applied) Sound := by
      apply writeLog_triple
      rintro _ rfl
      exact ⟨upTo.sound.installSnapshot recorded recorded.ge, upTo.recorded⟩
    apply seeded.sequence
    intro _
    apply ((soundUpTo_logStable applied).setConfState _ applied).sequence
    intro _
    exact (soundUpTo_logStable applied).setHardState _
  · rw [if_neg alone]
    apply Triple.failing
    rintro _ rfl
    exact upTo.sound

theorem newNode_triple {bound : Nat} (raft : RaftCrate) (applied : Nat) (doing : String) :
    Triple (SoundUpTo bound) (newNode raft applied doing : Program Waiter Unit) (fun _ => SoundUpTo bound)
      Sound := by
  apply Triple.readState
  intro start upTo
  cases raft.newNode start.log applied with
  | error reason =>
    apply Triple.failing
    rintro _ rfl
    exact upTo.sound
  | ok _ =>
    rintro _ rfl
    exact ⟨⟨upTo.sound.now, upTo.sound.before⟩, upTo.recorded⟩

/-- A bootstrap seeds the voters, refuses or leaves the driver alone. -/
theorem bootstrap_rule {pre failed : Driver Waiter -> Prop} {raft : RaftCrate} {applied : Nat}
    (seed : forall (cs : ConfState) (doing : String), Triple pre (do
      setConfState cs 0
      newNode raft applied doing : Program Waiter Unit) (fun _ => pre) failed)
    (stops : forall d, pre d -> failed d) (peers : List Member) (probe : ClusterProbe) :
    Triple pre (bootstrap raft peers probe applied : Program Waiter Unit) (fun _ => pre) failed := by
  have same : Triple pre (pure () : Program Waiter Unit) (fun _ => pre) failed := Triple.returning fun _ holds => holds
  apply Triple.readState
  intro start holds
  by_cases fresh : start.conf.voters.isEmpty = true
  · rw [if_pos fresh]
    have allowed : Triple (fun d => d = start)
        (MonadExcept.ofExcept (refuseEmptyRestartIntoALiveCluster start.memberId probe) : Program Waiter Unit)
        (fun _ => pre) failed :=
      Triple.ofExcept (fun _ _ _ equal => equal ▸ holds) fun _ equal => equal ▸ stops start holds
    apply allowed.sequence
    intro _
    by_cases joining : (probe.alreadyRunning && !probe.voters.contains start.memberId) = true
    · rw [if_pos joining]
      cases joiningClusterConfState start.memberId probe with
      | none => exact same
      | some cs => exact seed cs _
    · rw [if_neg joining]
      by_cases alone : peers.isEmpty = true
      · rw [if_pos alone]
        exact same
      · rw [if_neg alone]
        exact seed _ _
  · rw [if_neg fresh]
    exact same.start holds

theorem bootstrap_triple {bound : Nat} (raft : RaftCrate) (peers : List Member) (probe : ClusterProbe)
    (applied : Nat) :
    Triple (SoundUpTo bound) (bootstrap raft peers probe applied : Program Waiter Unit)
      (fun _ => SoundUpTo bound) Sound :=
  bootstrap_rule (fun cs doing =>
    ((soundUpTo_logStable bound).setConfState cs 0).sequence fun _ => newNode_triple raft applied doing)
    (fun _ upTo => upTo.sound) peers probe

/-- A start on a sound disk leaves it sound, and takes the recorded index
into memory. -/
theorem start_triple (raft : RaftCrate) (peers : List Member) (probe : ClusterProbe) :
    Triple Sound (start raft peers probe : Program Waiter Unit)
      (fun _ d => Exists fun index : Nat => At index d) Sound := by
  apply Triple.readState
  intro opened sound
  have upTo : SoundUpTo opened.node.store.db.appliedIndex opened := ⟨sound, le_rfl⟩
  have seeded : Triple (fun d => d = opened)
      (seedEmptyLog peers opened.node.store.db.appliedIndex : Program Waiter Unit)
      (fun _ => SoundUpTo opened.node.store.db.appliedIndex) Sound := by
    apply Triple.readState
    rintro start rfl
    split_ifs
    · exact (adoptExistingState_triple peers).start ⟨upTo, rfl⟩
    · rintro _ rfl
      exact upTo
  apply seeded.sequence
  intro _
  apply ((soundUpTo_logStable _).reconcile (fun _ upTo => upTo.sound) _).sequence
  intro _
  apply (newNode_triple raft _ _).sequence
  intro _
  apply (bootstrap_triple raft peers probe _).sequence
  intro _
  apply Triple.writing
  intro d upTo
  exact ⟨opened.node.store.db.appliedIndex, ⟨⟨upTo.sound.now, upTo.sound.before⟩, upTo.recorded⟩, rfl⟩

end Driver

end NotK8s.Replication

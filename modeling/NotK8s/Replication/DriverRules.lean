import Mathlib
import NotK8s.Library.Programs
import NotK8s.Replication.Driver

namespace NotK8s.Replication

open Library Nodestore

/-!
# Rules for the driver's programs

A durable write changes one of the databases and records the disk.  Most
writes to the log leave its snapshot alone, and what such writes keep is kept
by every method that makes no others.
-/

namespace Driver

variable {Waiter : Type}

theorem writeLog_triple {log : RaftLog} {pre : Driver Waiter -> Prop} {post : Driver Waiter -> Prop}
    {failed : Driver Waiter -> Prop}
    (holds : forall d, pre d -> post { d with log := log, written := d.written ++ [⟨log, d.node.store.db⟩] }) :
    Triple pre (writeLog log : Program Waiter Unit) (fun _ => post) failed :=
  holds

theorem writeNode_triple {node : Node} {pre : Driver Waiter -> Prop} {post : Driver Waiter -> Prop}
    {failed : Driver Waiter -> Prop}
    (holds : forall d, pre d -> post { d with node := node, written := d.written ++ [⟨d.log, node.store.db⟩] }) :
    Triple pre (writeNode node : Program Waiter Unit) (fun _ => post) failed :=
  holds

/-- Kept by writes to the log that leave its snapshot alone. -/
def LogStable (invariant : Driver Waiter -> Prop) : Prop :=
  forall (d : Driver Waiter) (log : RaftLog), invariant d -> log.snapshotMeta = d.log.snapshotMeta ->
    log.snapshot = d.log.snapshot ->
      invariant { d with log := log, written := d.written ++ [⟨log, d.node.store.db⟩] }

section
variable {invariant : Driver Waiter -> Prop} {failed : Driver Waiter -> Prop}

section

variable (stable : LogStable invariant)
include stable

theorem LogStable.write {start : Driver Waiter} (before : invariant start)
    {log : RaftLog} (sameMeta : log.snapshotMeta = start.log.snapshotMeta)
    (sameSnapshot : log.snapshot = start.log.snapshot) :
    Triple (fun d => d = start) (Driver.writeLog log : Program Waiter Unit) (fun _ => invariant) failed := by
  apply writeLog_triple
  rintro _ rfl
  exact stable _ log before sameMeta sameSnapshot

theorem LogStable.setConfState (cs : ConfState) (atIndex : Nat) :
    Triple invariant (Driver.setConfState cs atIndex : Program Waiter Unit) (fun _ => invariant) failed := by
  have second : Triple invariant
      (get >>= fun d : Driver Waiter => Driver.writeLog { d.log with confStateIndex := atIndex })
      (fun _ => invariant) failed := by
    apply Triple.readState
    intro start before
    exact stable.write before rfl rfl
  apply Triple.readState
  intro start before
  have first : Triple (fun d => d = start)
      (Driver.writeLog { start.log with confState := some cs } : Program Waiter Unit) (fun _ => invariant) failed :=
    stable.write before rfl rfl
  exact first.sequence fun _ => second

theorem LogStable.setHardState (hs : Option HardState) :
    Triple invariant (Driver.setHardState hs : Program Waiter Unit) (fun _ => invariant) failed := by
  cases hs with
  | none => exact Triple.returning fun _ before => before
  | some hs =>
    apply Triple.readState
    intro start before
    exact stable.write before rfl rfl

theorem LogStable.append (broken : forall d, invariant d -> failed d)
    (entries : List Entry) :
    Triple invariant (Driver.append entries : Program Waiter Unit) (fun _ => invariant) failed := by
  unfold Driver.append
  by_cases empty : entries.isEmpty = true
  · rw [if_pos empty]
    exact Triple.returning fun _ before => before
  · rw [if_neg empty]
    apply Triple.readState
    intro start before
    cases outcome : start.log.append entries with
    | error refusal =>
      apply Triple.failing
      rintro _ rfl
      exact broken _ before
    | ok log =>
      have same := RaftLog.append_snapshot outcome
      exact stable.write before same.1 same.2

theorem LogStable.reconcile (broken : forall d, invariant d -> failed d)
    (applied : Nat) :
    Triple invariant (Driver.reconcile applied : Program Waiter Unit) (fun _ => invariant) failed := by
  apply Triple.readState
  intro start before
  cases outcome : start.log.reconcileCommitWithApplied applied with
  | error refusal =>
    apply Triple.failing
    rintro _ rfl
    exact broken _ before
  | ok result =>
    rcases result with ⟨raised, log⟩
    have same := RaftLog.reconcile_snapshot outcome
    cases raised with
    | true => exact stable.write before same.1 same.2
    | false =>
      rintro _ rfl
      exact before

end

end

end Driver

open Nodestore

/-!
# Refused commands

A committed command that the state machine refuses stops the member that
applies it.  The refusal is the same on every replica, so the entry stops
each of them, and again after every restart, because the store it was refused
by is the store the next process opens.
-/

variable {Waiter : Type}

/-- A replica survives a refused entry: the proposer is told, the state is
kept, the entry counts as applied, and the entries after it are applied. -/
def SurvivesRefusal (raft : RaftCrate) (d : Driver Waiter) (entry : Entry) (proposalId : UInt64)
    (refusal : Error) (later : List Entry) : Prop :=
  Exists fun d' : Driver Waiter =>
    Driver.applyEntry raft entry d = .ok () d' ∧
      d'.proposals = d.proposals.complete proposalId (.error refusal) ∧
      d'.node.store.db.kv = d.node.store.db.kv ∧
      d'.node.store.db.revision = d.node.store.db.revision ∧
      d'.appliedIndex = entry.index ∧
      Driver.applyEntries raft (entry :: later) d = Driver.applyEntries raft later d'

/-- The driver after it stopped at a refused entry. -/
def Driver.refusedAt (d : Driver Waiter) (index : Nat) (proposalId : UInt64) (refusal : Error) : Driver Waiter :=
  { d with
    proposals := d.proposals.complete proposalId
      (.error (.unavailable s!"failed to apply committed entry {index}: {errorText refusal}")) }

section
variable {d : Driver Waiter} {index term : Nat} {proposalId : UInt64} {cmd : Command} {refusal : Error}

theorem applyEntry_refused (raft : RaftCrate) (refused : d.node.store.applyAt index cmd = .error refusal) :
    Driver.applyEntry raft { index := index, term := term, body := .normal (encodeEntry proposalId cmd) } d =
      .error refusal (d.refusedAt index proposalId refusal) := by
  have stopped := Node.applyCommitted_error.mpr refused
  simp [Driver.applyEntry, Driver.applyNormal, Driver.applyPayload, Driver.haltRefused, encodeEntry, decodeEntry, EntryData.isEmpty, Driver.complete,
    Driver.refusedAt, MonadExcept.ofExcept, bind, EStateM.bind, pure, EStateM.pure, get, getThe,
    MonadStateOf.get, EStateM.get, modify, modifyGet, MonadStateOf.modifyGet, EStateM.modifyGet, throw,
    throwThe, MonadExceptOf.throw, EStateM.throw, stopped]

theorem applyEntries_refused (raft : RaftCrate) (refused : d.node.store.applyAt index cmd = .error refusal)
    (later : List Entry) :
    Driver.applyEntries raft
        ({ index := index, term := term, body := .normal (encodeEntry proposalId cmd) } :: later) d =
      .error refusal (d.refusedAt index proposalId refusal) := by
  simp only [Driver.applyEntries, bind, EStateM.bind, applyEntry_refused raft refused]

/-- No refused entry is survived: applying it, alone or before others,
fails, and leaves the store and the applied index where they were. -/
theorem refused_entry_not_survived (raft : RaftCrate) (d : Driver Waiter) (index term : Nat)
    (proposalId : UInt64) (cmd : Command) (refusal : Error) (later : List Entry)
    (refused : d.node.store.applyAt index cmd = .error refusal) :
    let entry : Entry := { index := index, term := term, body := .normal (encodeEntry proposalId cmd) }
    let stopped := d.refusedAt index proposalId refusal
    ¬ SurvivesRefusal raft d entry proposalId refusal later ∧
      Driver.applyEntries raft (entry :: later) d = .error refusal stopped ∧
      stopped.node = d.node ∧ stopped.appliedIndex = d.appliedIndex := by
  intro entry stopped
  refine ⟨?_, applyEntries_refused raft refused later, rfl, rfl⟩
  rintro ⟨d', applied, _⟩
  rw [applyEntry_refused raft refused] at applied
  cases applied

end

/-- A driver that has applied nothing, with one waiter. -/
def waitingDriver : Driver Unit :=
  let opened : Driver Unit := .opened 1 { log := .empty, db := Db.initSchema } []
  { opened with running := true, proposals := (ProposalTracker.new.register ()).2 }

/-- A compaction above the current revision is not survived. -/
theorem futureCompaction_not_survived :
    let entry : Entry := { index := 1, term := 1, body := .normal (encodeEntry 1 (.compact 5)) }
    let stopped := waitingDriver.refusedAt 1 1 (.futureRevision 5 1)
    ¬ SurvivesRefusal plainRaft waitingDriver entry 1 (.futureRevision 5 1) [] ∧
      Driver.applyEntries plainRaft [entry] waitingDriver = .error (.futureRevision 5 1) stopped ∧
      stopped.node = waitingDriver.node ∧ stopped.appliedIndex = waitingDriver.appliedIndex :=
  refused_entry_not_survived plainRaft waitingDriver 1 1 1 (.compact 5) (.futureRevision 5 1) [] rfl

/-- One such request stops a member that a later entry would have moved on. -/
theorem futureCompaction_stops_driver :
    let entry : Entry := { index := 1, term := 1, body := .normal (encodeEntry 1 (.compact 5)) }
    let next : Entry := { index := 2, term := 1, body := .normal .empty }
    waitingDriver.node.store.applyAt 1 (.compact 5) = .error (.futureRevision 5 1) ∧
      ¬ SurvivesRefusal plainRaft waitingDriver entry 1 (.futureRevision 5 1) [next] := by
  refine ⟨rfl, ?_⟩
  rintro ⟨d', applied, _⟩
  rw [@applyEntry_refused _ waitingDriver 1 1 1 (.compact 5) (.futureRevision 5 1) plainRaft rfl] at applied
  cases applied

end NotK8s.Replication

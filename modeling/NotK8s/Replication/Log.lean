import NotK8s.Nodestore.Apply

namespace NotK8s.Replication

open Nodestore

/-!
# The raft log

The log a member keeps in a database of its own, as raft's storage reads it.
A row's `data` and `context` are kept decoded: the bytes of an entry are read
in one place only, and what they say is fixed when the entry is written.

The cached snapshot and the pending request are in memory, so `reopen` loses
them.
-/

/-- The bytes of a log entry: none, an encoded command with its proposal
identity, or bytes that do not decode. -/
inductive EntryData where
  | empty
  | encoded (proposalId : UInt64) (cmd : Command)
  | malformed (reason : String)
  deriving DecidableEq

def EntryData.isEmpty : EntryData -> Bool
  | .empty => true
  | _ => false

def encodeEntry (proposalId : UInt64) (cmd : Command) : EntryData :=
  .encoded proposalId cmd

def decodeEntry : EntryData -> Except Error (UInt64 × Command)
  | .empty => .error (.invalidRequest "raft log entry carries no command")
  | .encoded proposalId cmd => .ok (proposalId, cmd)
  | .malformed reason => .error (.invalidRequest reason)

inductive ConfChangeType where
  | addNode | removeNode | addLearnerNode
  deriving DecidableEq

structure ConfChangeSingle where
  changeType : ConfChangeType
  nodeId : UInt64
  deriving DecidableEq

/-- A membership change, in the form raft applies. -/
structure ConfChangeV2 where
  changes : List ConfChangeSingle
  deriving DecidableEq

/-- An entry's type with what its bytes hold.  The data of a membership
change is the change itself, or why it does not parse. -/
inductive EntryBody where
  | normal (data : EntryData)
  | confChange (change : Except String ConfChangeSingle) (context : EntryData)
  | confChangeV2 (change : Except String ConfChangeV2) (context : EntryData)
  deriving DecidableEq

/-- The part of an entry that can carry a command. -/
def EntryBody.payload : EntryBody -> EntryData
  | .normal data => data
  | .confChange _ context => context
  | .confChangeV2 _ context => context

structure Entry where
  index : Nat
  term : Nat
  body : EntryBody
  deriving DecidableEq

structure HardState where
  term : Nat
  vote : UInt64
  commit : Nat
  deriving DecidableEq

def HardState.default : HardState where
  term := 0
  vote := 0
  commit := 0

structure ConfState where
  voters : List UInt64
  learners : List UInt64
  deriving DecidableEq

def ConfState.default : ConfState where
  voters := []
  learners := []

structure SnapshotMetadata where
  index : Nat
  term : Nat
  confState : ConfState
  deriving DecidableEq

/-- A snapshot: its metadata and the encoded state machine. -/
structure Snapshot where
  metadata : SnapshotMetadata
  data : SnapshotState
  deriving DecidableEq

def snapshotWith (index term : Nat) (confState : ConfState) (data : SnapshotState) : Snapshot where
  metadata := { index := index, term := term, confState := confState }
  data := data

structure RaftLog where
  /-- The rows, in primary key order. -/
  entries : List Entry
  hardState : Option HardState
  confState : Option ConfState
  confStateIndex : Nat
  snapshotMeta : Option SnapshotMetadata
  snapshot : Option Snapshot
  snapshotRequested : Option Nat
  deriving DecidableEq

namespace RaftLog

def empty : RaftLog where
  entries := []
  hardState := none
  confState := none
  confStateIndex := 0
  snapshotMeta := none
  snapshot := none
  snapshotRequested := none

/-- What another process finds on the disk. -/
def reopen (log : RaftLog) : RaftLog :=
  { log with snapshot := none, snapshotRequested := none }

def snapshotIndex (log : RaftLog) : Nat :=
  (log.snapshotMeta.map SnapshotMetadata.index).getD 0

def lastIndexOf (log : RaftLog) : Nat :=
  match log.entries.getLast? with
  | some entry => entry.index
  | none => log.snapshotIndex

def setHardState (log : RaftLog) (hs : HardState) : RaftLog :=
  { log with hardState := some hs }

/-- Raise the persisted commit index to `applied` if it trails. -/
def reconcileCommitWithApplied (log : RaftLog) (applied : Nat) : Except Error (Bool × RaftLog) :=
  if applied = 0 then .ok (false, log)
  else
    let hs := log.hardState.getD HardState.default
    if hs.commit ≥ applied then .ok (false, log)
    else
      let last := log.lastIndexOf
      if applied > last then
        .error (.invalidRequest
          s!"raft log is behind the state machine: applied={applied} but the log ends at {last}. The state machine has applied entries the log no longer has, so they cannot be replayed and this replica cannot be made consistent with the cluster. Recover it by removing this member's data directory and letting it rejoin as a new member, which refills it from a peer.")
      else .ok (true, log.setHardState { hs with commit := applied })

/-- Insert a row; the primary key is the index. -/
def insertEntry (entries : List Entry) (entry : Entry) : Except Error (List Entry) :=
  if entries.any fun stored => stored.index = entry.index then
    .error (.sqlite "UNIQUE constraint failed: entries.idx")
  else .ok (entries.orderedInsert (fun first second => first.index ≤ second.index) entry)

/-- Append entries, truncating any conflicting suffix first. -/
def append (log : RaftLog) (entries : List Entry) : Except Error RaftLog :=
  match entries with
  | [] => .ok log
  | first :: _ => do
      let kept := log.entries.filter fun stored => !decide (stored.index ≥ first.index)
      let stored ← entries.foldlM insertEntry kept
      .ok { log with entries := stored }

/-- Record a snapshot, and the compaction point it establishes. -/
def installSnapshot (log : RaftLog) (snapshot : Snapshot) : RaftLog :=
  { log with
    snapshotMeta := some snapshot.metadata
    entries := log.entries.filter fun stored => !decide (stored.index ≤ snapshot.metadata.index)
    snapshot := some snapshot
    snapshotRequested := none }

/-- The membership raft starts from: whichever was observed later. -/
def initialConfState (log : RaftLog) : ConfState :=
  match log.snapshotMeta, log.confState with
  | some recorded, some stored =>
    if log.confStateIndex > recorded.index then stored else recorded.confState
  | some recorded, none => recorded.confState
  | none, some stored => stored
  | none, none => ConfState.default

/-- Raft asks for a snapshot at least as new as `requestIndex`.  One that is
not at hand is remembered as requested, and raft is told to ask again. -/
def serveSnapshot (log : RaftLog) (requestIndex : Nat) : Option Snapshot × RaftLog :=
  match log.snapshot with
  | some snapshot =>
    if snapshot.metadata.index ≥ requestIndex then (some snapshot, log)
    else (none, { log with snapshotRequested := some requestIndex })
  | none => (none, { log with snapshotRequested := some requestIndex })

theorem append_snapshot {log log' : RaftLog} {entries : List Entry} (success : log.append entries = .ok log') :
    log'.snapshotMeta = log.snapshotMeta ∧ log'.snapshot = log.snapshot := by
  cases entries with
  | nil =>
    cases success
    exact ⟨rfl, rfl⟩
  | cons first rest =>
    rcases bind_eq_ok success with ⟨stored, _, last⟩
    cases last
    exact ⟨rfl, rfl⟩

theorem reconcile_snapshot {log log' : RaftLog} {applied : Nat} {raised : Bool}
    (success : log.reconcileCommitWithApplied applied = .ok (raised, log')) :
    log'.snapshotMeta = log.snapshotMeta ∧ log'.snapshot = log.snapshot := by
  unfold reconcileCommitWithApplied at success
  dsimp only at success
  split_ifs at success <;> cases success <;> exact ⟨rfl, rfl⟩

theorem serveSnapshot_spec (log : RaftLog) (requestIndex : Nat) :
    (log.serveSnapshot requestIndex).2.snapshotMeta = log.snapshotMeta ∧
      (log.serveSnapshot requestIndex).2.snapshot = log.snapshot ∧
      forall snapshot, (log.serveSnapshot requestIndex).1 = some snapshot -> log.snapshot = some snapshot := by
  unfold serveSnapshot
  cases found : log.snapshot with
  | none => exact ⟨rfl, rfl, nofun⟩
  | some cached =>
    dsimp only
    split_ifs
    · exact ⟨rfl, found, fun _ same => same⟩
    · exact ⟨rfl, rfl, nofun⟩

theorem serveSnapshot_rest (log : RaftLog) (requestIndex : Nat) :
    (log.serveSnapshot requestIndex).2.entries = log.entries ∧
      (log.serveSnapshot requestIndex).2.hardState = log.hardState := by
  unfold serveSnapshot
  cases log.snapshot with
  | none => exact ⟨rfl, rfl⟩
  | some cached =>
    dsimp only
    split_ifs <;> exact ⟨rfl, rfl⟩

end RaftLog

end NotK8s.Replication

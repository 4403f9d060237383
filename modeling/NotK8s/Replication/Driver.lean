import NotK8s.Nodestore.Node
import NotK8s.Replication.Log
import NotK8s.Replication.Proposals

namespace NotK8s.Replication

open Nodestore

/-!
# The raft driver

One member's driver: the Ready loop, applying committed entries, snapshots in
both directions, and starting on what an earlier process left on the disk.
Raft itself is not modelled.  What it hands the driver arrives as arguments,
and `RaftCrate` holds the two of its functions whose results the driver uses.

The driver's methods keep what they did when they fail, so they are programs
over `EStateM`.  Every durable write is followed by `persist`, which records
what the disk then holds; nothing reads that record back.
-/

inductive StateRole where
  | follower | candidate | leader | preCandidate
  deriving DecidableEq

/-- What raft decides from its own state: whether it starts on a log and an
applied index, and the membership a change leads to. -/
structure RaftCrate where
  newNode : RaftLog -> Nat -> Except String Unit
  applyConfChange : ConfState -> ConfChangeV2 -> Except String ConfState

/-- The membership one change leads to, outside a joint configuration. -/
def ConfState.change (cs : ConfState) (single : ConfChangeSingle) : ConfState :=
  let others : ConfState :=
    { voters := cs.voters.filter fun id => id ≠ single.nodeId
      learners := cs.learners.filter fun id => id ≠ single.nodeId }
  match single.changeType with
  | .addNode => { others with voters := others.voters ++ [single.nodeId] }
  | .addLearnerNode => { others with learners := others.learners ++ [single.nodeId] }
  | .removeNode => others

/-- A raft that starts on everything and makes the changes it is given. -/
def plainRaft : RaftCrate where
  newNode := fun _ _ => .ok ()
  applyConfChange := fun cs cc => .ok (cc.changes.foldl ConfState.change cs)

/-- What the peers said before raft was built. -/
structure ClusterProbe where
  alreadyRunning : Bool
  voters : List UInt64
  deriving DecidableEq

/-- A member's two databases, and the snapshot its log serves. -/
structure Disk where
  log : RaftLog
  db : Db
  deriving DecidableEq

structure Driver (Waiter : Type) where
  memberId : UInt64
  running : Bool
  /-- Raft's current membership. -/
  conf : ConfState
  log : RaftLog
  node : Node
  proposals : ProposalTracker Waiter
  /-- The applied index in memory. -/
  appliedIndex : Nat
  role : StateRole
  lastRole : StateRole
  /-- The disk after each durable write, oldest first. -/
  written : List Disk

/-- What raft hands over in one pass once the new entries are persisted. -/
structure LightReady where
  hardState : Option HardState
  committedEntries : List Entry
  deriving DecidableEq

/-- What raft hands over in one pass. -/
structure Ready where
  snapshot : Option Snapshot
  committedEntries : List Entry
  entries : List Entry
  hardState : Option HardState
  light : LightReady
  deriving DecidableEq

/-- The message of an error. -/
def errorText : Error -> String
  | .compacted compactRevision =>
    s!"required revision has been compacted (compact revision {compactRevision})"
  | .futureRevision requested current =>
    s!"required revision {requested} is a future revision (current {current})"
  | .keyNotFound => "key not found"
  | .invalidRequest message => message
  | .sqlite message => s!"sqlite: {message}"
  | .unavailable message => s!"store is unavailable: {message}"

/-- How far the applied index may run beyond the last snapshot. -/
def logCompactThreshold : Nat := 5000

/-- The term of a converted single member's synthetic snapshot. -/
def seedTerm : Nat := 1

namespace Driver

variable {Waiter : Type}

abbrev Program (Waiter : Type) := EStateM Error (Driver Waiter)

def disk (d : Driver Waiter) : Disk where
  log := d.log
  db := d.node.store.db

/-- A process that has opened its databases and not yet started. -/
def opened (memberId : UInt64) (disk : Disk) (written : List Disk) : Driver Waiter where
  memberId := memberId
  running := false
  conf := ConfState.default
  log := disk.log.reopen
  node := { store := { db := disk.db, rbacCache := fun _ => none }, published := [] }
  proposals := .new
  appliedIndex := 0
  role := .follower
  lastRole := .follower
  written := written

/-- Record the disk after a durable write. -/
def persist : Program Waiter Unit :=
  modify fun d => { d with written := d.written ++ [d.disk] }

def writeLog (log : RaftLog) : Program Waiter Unit := do
  modify fun d => { d with log := log }
  persist

def writeNode (node : Node) : Program Waiter Unit := do
  modify fun d => { d with node := node }
  persist

/-- Record the membership and the index it was observed at, one after the
other. -/
def setConfState (cs : ConfState) (atIndex : Nat) : Program Waiter Unit := do
  let d ← get
  writeLog { d.log with confState := some cs }
  let d ← get
  writeLog { d.log with confStateIndex := atIndex }

def complete (id : UInt64) (result : ProposalResult) : Program Waiter Unit :=
  modify fun d => { d with proposals := d.proposals.complete id result }

def setAppliedIndex (index : Nat) : Program Waiter Unit :=
  modify fun d => { d with appliedIndex := index }

/-! ## Applying entries -/

/-- A parsed membership change of the old single form, widened to the new. -/
def widenConfChange : Except String ConfChangeSingle -> Except Error ConfChangeV2
  | .ok single => .ok { changes := [single] }
  | .error reason => .error (.invalidRequest s!"bad conf change: {reason}")

def parsedConfChange : Except String ConfChangeV2 -> Except Error ConfChangeV2
  | .ok change => .ok change
  | .error reason => .error (.invalidRequest s!"bad conf change v2: {reason}")

/-- Apply the command that bytes carry, if they carry one, and complete its
proposal.  `refused` is what a refusal leads to. -/
def applyPayload (refused : UInt64 -> Error -> Program Waiter Unit) (data : EntryData) (index : Nat) :
    Program Waiter Unit :=
  if data.isEmpty then pure ()
  else do
    let (proposalId, cmd) ← MonadExcept.ofExcept (decodeEntry data)
    let d ← get
    match d.node.applyCommitted index cmd with
    | .ok (applied, node) =>
      writeNode node
      complete proposalId (.ok applied)
    | .error refusal => refused proposalId refusal

/-- A refused command entry is reported to its proposer and stops the
member. -/
def haltRefused (index : Nat) (proposalId : UInt64) (refusal : Error) : Program Waiter Unit := do
  complete proposalId (.error (.unavailable s!"failed to apply committed entry {index}: {errorText refusal}"))
  throw refusal

/-- A refused address-book update is handed to its proposer. -/
def reportRefused (proposalId : UInt64) (refusal : Error) : Program Waiter Unit :=
  complete proposalId (.error refusal)

/-- Apply a command entry.  Raft appends an empty one when a leader takes
office. -/
def applyNormal (data : EntryData) (index : Nat) : Program Waiter Unit :=
  applyPayload (haltRefused index) data index

/-- Apply a membership change, and the address-book update in its context. -/
def applyConfChange (raft : RaftCrate) (change : Except Error ConfChangeV2) (context : EntryData)
    (index : Nat) : Program Waiter Unit := do
  let cc ← MonadExcept.ofExcept change
  let d ← get
  match raft.applyConfChange d.conf cc with
  | .error reason => throw (.unavailable s!"applying conf change: {reason}")
  | .ok confState =>
    modify fun d => { d with conf := confState }
    setConfState confState index
    applyPayload reportRefused context index

def applyEntry (raft : RaftCrate) (entry : Entry) : Program Waiter Unit := do
  match entry.body with
  | .normal data => applyNormal data entry.index
  | .confChange change context => applyConfChange raft (widenConfChange change) context entry.index
  | .confChangeV2 change context => applyConfChange raft (parsedConfChange change) context entry.index
  setAppliedIndex entry.index

def applyEntries (raft : RaftCrate) : List Entry -> Program Waiter Unit
  | [] => pure ()
  | entry :: rest => do
      applyEntry raft entry
      applyEntries raft rest

/-! ## Requests -/

/-- What the driver accepts from the outside. -/
inductive Request where
  | propose (data : EntryData) (id : UInt64)
  | confChange (cc : ConfChangeV2) (context : EntryData) (id : UInt64)
  | promoteLearner (learnerId : UInt64) (cc : ConfChangeV2) (context : EntryData) (id : UInt64)

def Request.id : Request -> UInt64
  | .propose _ id => id
  | .confChange _ _ id => id
  | .promoteLearner _ _ _ id => id

/-- The encoded command a request carries. -/
def Request.payload : Request -> EntryData
  | .propose data _ => data
  | .confChange _ context _ => context
  | .promoteLearner _ _ context _ => context

structure Progress where
  matched : Nat
  recentActive : Bool

/-- What raft says to a proposal: what it tracks of a learner, where its log
ends, and whether it takes the entry. -/
structure ProposeAnswer where
  progress : Option Progress
  lastIndex : Nat
  taken : Except String Unit

def learnerIsCaughtUp (matched leaderLastIndex : Nat) (recentActive : Bool) : Bool :=
  recentActive && decide (matched ≥ leaderLastIndex)

def notTheLeader : Error :=
  .unavailable "membership changes must go to the leader"

/-- The entry a request puts in the leader's log, or why it puts none. -/
def Request.proposal (role : StateRole) (answer : ProposeAnswer) : Request -> Except Error EntryBody
  | .propose data _ =>
    if role ≠ .leader then
      .error (.unavailable "this member is not the leader; the write was not proposed")
    else
      match answer.taken with
      | .error e => .error (.unavailable s!"propose: {e}")
      | .ok _ => .ok (.normal data)
  | .confChange cc context _ =>
    if role ≠ .leader then .error notTheLeader
    else
      match answer.taken with
      | .error e => .error (.unavailable s!"propose conf change: {e}")
      | .ok _ => .ok (.confChangeV2 (.ok cc) context)
  | .promoteLearner learnerId cc context _ =>
    if role ≠ .leader then .error notTheLeader
    else
      match answer.progress with
      | none =>
        .error (.invalidRequest
          s!"cannot promote member {learnerId}: it is not tracked by this Raft leader")
      | some progress =>
        if !learnerIsCaughtUp progress.matched answer.lastIndex progress.recentActive then
          .error (.unavailable
            s!"cannot promote learner {learnerId}: replicated through {progress.matched}, leader log ends at {answer.lastIndex}, active={progress.recentActive}")
        else
          match answer.taken with
          | .error e => .error (.unavailable s!"propose learner promotion: {e}")
          | .ok _ => .ok (.confChangeV2 (.ok cc) context)

/-- Hand a request to raft.  One that puts nothing in the log fails its
proposal at once. -/
def handle (d : Driver Waiter) (request : Request) (answer : ProposeAnswer) : Option EntryBody × Driver Waiter :=
  match request.proposal d.role answer with
  | .ok body => (some body, d)
  | .error refusal => (none, { d with proposals := d.proposals.complete request.id (.error refusal) })

/-! ## The Ready loop -/

/-- Replace this member's state with a snapshot from the leader. -/
def installReceivedSnapshot (snapshot : Snapshot) : Program Waiter Unit := do
  let d ← get
  let node ← MonadExcept.ofExcept (d.node.restoreSnapshot snapshot.data)
  writeNode node
  writeLog (d.log.installSnapshot snapshot)
  setAppliedIndex snapshot.metadata.index

/-- Persist entries. -/
def append (entries : List Entry) : Program Waiter Unit := do
  if entries.isEmpty then pure ()
  else
    let d ← get
    let log ← MonadExcept.ofExcept (d.log.append entries)
    writeLog log

def setHardState (hs : Option HardState) : Program Waiter Unit := do
  match hs with
  | none => pure ()
  | some hs =>
    let d ← get
    writeLog (d.log.setHardState hs)

/-- One pass of the Ready loop. -/
def onReady (raft : RaftCrate) (ready : Ready) : Program Waiter Unit := do
  match ready.snapshot with
  | none => pure ()
  | some snapshot => installReceivedSnapshot snapshot
  applyEntries raft ready.committedEntries
  -- entries before the hard state
  append ready.entries
  setHardState ready.hardState
  setHardState ready.light.hardState
  applyEntries raft ready.light.committedEntries

/-- Whether a snapshot is due: raft asked for one, or the log has grown. -/
def snapshotNeeded (d : Driver Waiter) : Bool :=
  (d.log.snapshotRequested.isSome || decide (d.appliedIndex - d.log.snapshotIndex > logCompactThreshold)) &&
    decide (d.appliedIndex ≠ 0)

/-- Build a snapshot when one is due.  `term` is the term raft knows for the
applied index, when it knows one. -/
def maintainSnapshot (term : Option Nat) : Program Waiter Unit := do
  let d ← get
  if d.snapshotNeeded then
    match term with
    | none => pure ()
    | some term =>
      let state := d.node.store.db.exportSnapshot
      writeLog (d.log.installSnapshot (snapshotWith d.appliedIndex term d.conf state))
  else pure ()

/-- Raft asks for a snapshot to send. -/
def requestSnapshot (requestIndex : Nat) : Program Waiter (List Snapshot) := do
  let d ← get
  let (served, log) := d.log.serveSnapshot requestIndex
  modify fun d => { d with log := log }
  pure served.toList

/-- Publish the role, and fail proposals a lost leadership invalidated. -/
def observeRole (d : Driver Waiter) : Driver Waiter :=
  if d.role = d.lastRole then d
  else if d.lastRole = .leader then
    { d with
      lastRole := d.role
      proposals := d.proposals.failAll "leadership was lost before this write committed; it did not happen" }
  else { d with lastRole := d.role }

/-- Stop after a failed pass. -/
def stop (d : Driver Waiter) : Driver Waiter :=
  { d with running := false, proposals := d.proposals.failAll "the raft driver stopped after a storage failure" }

/-! ## Starting -/

/-- Turn a populated single member into the seed of a raft cluster. -/
def adoptExistingState (peers : List Member) (applied : Nat) : Program Waiter Unit := do
  let d ← get
  let memberId := d.memberId
  let others := (peers.map Member.id).filter fun id => id ≠ memberId
  if others.isEmpty then
    let cs : ConfState := { voters := [memberId], learners := [] }
    let state := d.node.store.db.exportSnapshot
    writeLog (d.log.installSnapshot (snapshotWith applied seedTerm cs state))
    setConfState cs applied
    setHardState (some { HardState.default with term := seedTerm, commit := applied })
  else
    throw (.invalidRequest
      s!"this member has {applied} applied entries but no raft log, because it has been running as a single member — and single-member mode keeps no log. It cannot join a cluster that also configures members {others}: those start empty, and two empty members are a majority that can elect each other and overwrite everything this one holds. Convert it first by setting NODESTORE_INITIAL_CLUSTER to this member alone ({memberId}=<its peer URL>), start it, and then add the others one at a time with MemberAdd — each is then caught up from this member's data instead of voting it away.")

/-- A member with state and no log seeds one from the state. -/
def seedEmptyLog (peers : List Member) (applied : Nat) : Program Waiter Unit := do
  let d ← get
  if applied > 0 && d.log.lastIndexOf = 0 && d.log.snapshotIndex = 0 then adoptExistingState peers applied
  else pure ()

def refuseEmptyRestartIntoALiveCluster (memberId : UInt64) (probe : ClusterProbe) : Except Error Unit :=
  if !probe.alreadyRunning || !probe.voters.contains memberId then .ok ()
  else
    .error (.invalidRequest
      s!"this member's data directory is empty, but the cluster is already running and still counts member {memberId} as a voter — so its leader holds a replication position for an id with nothing behind it, and would drive it past the end of its own log. Remove it from the cluster with MemberRemove and add it back with MemberAdd, which issues a new id and makes the leader send a snapshot instead. (Restarting a member with the same id and an empty directory is what etcd forbids for this reason.)")

/-- The membership a fresh learner starts from when it joins a live cluster. -/
def joiningClusterConfState (memberId : UInt64) (probe : ClusterProbe) : Option ConfState :=
  if !probe.alreadyRunning || probe.voters.isEmpty || probe.voters.contains memberId then none
  else some { voters := probe.voters, learners := [] }

/-- Raise a persisted commit index that trails the applied index. -/
def reconcile (applied : Nat) : Program Waiter Unit := do
  let d ← get
  let (raised, log) ← MonadExcept.ofExcept (d.log.reconcileCommitWithApplied applied)
  if raised then writeLog log else pure ()

def newNode (raft : RaftCrate) (applied : Nat) (doing : String) : Program Waiter Unit := do
  let d ← get
  match raft.newNode d.log applied with
  | .error reason => throw (.unavailable s!"{doing}: {reason}")
  | .ok _ => modify fun d => { d with conf := d.log.initialConfState }

/-- Seed the membership of a member that has none. -/
def bootstrap (raft : RaftCrate) (peers : List Member) (probe : ClusterProbe) (applied : Nat) :
    Program Waiter Unit := do
  let d ← get
  if d.conf.voters.isEmpty then
    MonadExcept.ofExcept (refuseEmptyRestartIntoALiveCluster d.memberId probe)
    if probe.alreadyRunning && !probe.voters.contains d.memberId then
      match joiningClusterConfState d.memberId probe with
      | none => pure ()
      | some cs =>
        setConfState cs 0
        newNode raft applied "restarting raft with probed voters"
    else if peers.isEmpty then pure ()
    else
      let voters := (peers.filter fun m => !m.isLearner).map Member.id
      let learners := (peers.filter fun m => m.isLearner).map Member.id
      setConfState { voters := voters, learners := learners } 0
      newNode raft applied "restarting raft after bootstrap"
  else pure ()

/-- Start the driver on what is on the disk. -/
def start (raft : RaftCrate) (peers : List Member) (probe : ClusterProbe) : Program Waiter Unit := do
  let d ← get
  let applied := d.node.store.db.appliedIndex
  seedEmptyLog peers applied
  reconcile applied
  newNode raft applied "starting raft"
  bootstrap raft peers probe applied
  modify fun d =>
    { d with running := true, proposals := .new, appliedIndex := applied, role := .follower,
             lastRole := .follower }

end Driver

end NotK8s.Replication

import NotK8s.Library.Run
import NotK8s.Replication.Completions

namespace NotK8s.Replication

open Library Nodestore

/-!
# Whose entry completes a waiter

The members of a cluster, their proposals on the way into the log, and the
log they all apply.  Raft appears as what it may do: it takes a proposal or
does not, changes roles, commits any proposal it took or an entry of its own,
and hands each member the committed entries in order.

A call is one use of a handle: the member, which of its processes, the number
of the call within that process, and what was submitted.  Calls are what
waiters stand for, and every entry carries the call that encoded it.  The
code sees neither; it sees the identity, which is the call's number in 64
bits.

Registering a waiter touches nothing that applying an entry reads, so an
entry's application and the completion of its waiter are one step.
-/

/-- What a caller submits through a handle. -/
inductive Submission where
  | propose (cmd : Command)
  | confChange (cc : ConfChangeV2) (cmd : Command)
  | promoteLearner (learnerId : UInt64) (cc : ConfChangeV2) (cmd : Command)
  deriving DecidableEq

namespace Submission

def command : Submission -> Command
  | .propose cmd => cmd
  | .confChange _ cmd => cmd
  | .promoteLearner _ _ cmd => cmd

/-- Submitted through `propose`. -/
def Proposes : Submission -> Prop
  | .propose _ => True
  | _ => False

instance (submission : Submission) : Decidable submission.Proposes :=
  match submission with
  | .propose _ => .isTrue True.intro
  | .confChange _ _ => .isFalse id
  | .promoteLearner _ _ _ => .isFalse id

/-- The request sent to the driver, with the command encoded under its
identity. -/
def request (id : UInt64) : Submission -> Driver.Request
  | .propose cmd => .propose (encodeEntry id cmd) id
  | .confChange cc cmd => .confChange cc (encodeEntry id cmd) id
  | .promoteLearner learnerId cc cmd => .promoteLearner learnerId cc (encodeEntry id cmd) id

end Submission

structure Call where
  member : UInt64
  incarnation : Nat
  serial : Nat
  submission : Submission
  deriving DecidableEq

/-- The identity a call is given. -/
def Call.id (call : Call) : UInt64 :=
  UInt64.ofNat call.serial

/-- A member's process: its driver, what was submitted to it so far, and the
requests on the way to the driver. -/
structure Process where
  driver : Driver Call
  incarnation : Nat
  calls : List Submission
  queue : List (Call × Driver.Request)

inductive Move where
  | submit (member : UInt64) (submission : Submission)
  /-- A caller times out or goes away. -/
  | forget (member : UInt64) (id : UInt64)
  /-- The driver takes a request, in any order. -/
  | handle (member : UInt64) (position : Nat) (answer : Driver.ProposeAnswer)
  | role (member : UInt64) (role : StateRole)
  | observe (member : UInt64)
  /-- Raft commits a proposal it took. -/
  | commit (position term : Nat)
  /-- Raft commits an entry of its own, which carries no command. -/
  | commitOwn (body : EntryBody) (term : Nat)
  | apply (member : UInt64)
  | install (member : UInt64) (snapshot : Snapshot)
  | restart (member : UInt64) (peers : List Member) (probe : ClusterProbe)

/-- The processes, the proposals raft has taken, the committed log, and who
was told that a proposal was applied, with the call of the applied entry. -/
structure Routing where
  process : UInt64 -> Process
  logStart : Nat
  proposed : List (EntryBody × Call)
  committed : List (Entry × Option Call)
  acknowledged : List (Call × Option Call)

namespace Routing

/-- Members yet to be started on databases of their own, and a log yet to
begin. -/
def initial (logStart : Nat) (databases : UInt64 -> Db) : Routing where
  process := fun id =>
    { driver := .opened id { log := .empty, db := databases id } []
      incarnation := 0
      calls := []
      queue := [] }
  logStart := logStart
  proposed := []
  committed := []
  acknowledged := []

/-- Replace a member's process.  The completions it made are told apart by
the call of the entry that was applied, if one was. -/
def advance (c : Routing) (member : UInt64) (origin : Option Call) (p : Process) : Routing :=
  let before := (c.process member).driver.proposals.completed
  let told := ProposalTracker.toldOk (p.driver.proposals.completed.drop before.length)
  { c with
    process := Function.update c.process member p
    acknowledged := c.acknowledged ++ told.map fun call => (call, origin) }

/-- The committed entry raft hands a member next. -/
def nextEntry (c : Routing) (member : UInt64) : Option (Entry × Option Call) :=
  c.committed.find? fun stored => stored.1.index = (c.process member).driver.appliedIndex + 1

def commitEntry (c : Routing) (term : Nat) (body : EntryBody) (origin : Option Call) : Routing :=
  let entry : Entry := { index := c.logStart + c.committed.length + 1, term := term, body := body }
  { c with committed := c.committed ++ [(entry, origin)] }

/-- The driver a pass leaves: stopped when the pass failed. -/
def finish (result : EStateM.Result Error (Driver Call) Unit) : Driver Call :=
  match result with
  | .ok _ d => d
  | .error _ d => d.stop

/-- The driver of a new process on a member's disk.  One that fails to start
never comes to be. -/
def relaunch (raft : RaftCrate) (peers : List Member) (probe : ClusterProbe) (d : Driver Call) : Driver Call :=
  match Driver.start raft peers probe (.opened d.memberId d.disk d.written) with
  | .ok _ d' => d'
  | .error _ d' => .opened d'.memberId d'.disk d'.written

def step (raft : RaftCrate) (c : Routing) : Move -> Routing
  | .submit member submission =>
    let p := c.process member
    let call : Call :=
      { member := member, incarnation := p.incarnation, serial := p.calls.length + 1, submission := submission }
    let (id, proposals) := p.driver.proposals.register call
    if p.driver.running then
      c.advance member none
        { p with
          driver := { p.driver with proposals := proposals }
          calls := p.calls ++ [submission]
          queue := p.queue ++ [(call, submission.request id)] }
    else
      c.advance member none
        { p with
          driver := { p.driver with proposals := proposals.forget id }
          calls := p.calls ++ [submission] }
  | .forget member id =>
    let p := c.process member
    c.advance member none { p with driver := { p.driver with proposals := p.driver.proposals.forget id } }
  | .handle member position answer =>
    let p := c.process member
    match p.queue[position]? with
    | none => c
    | some (call, request) =>
      if p.driver.running then
        let (body, d) := p.driver.handle request answer
        let c' := c.advance member none { p with driver := d, queue := p.queue.eraseIdx position }
        { c' with proposed := c'.proposed ++ body.toList.map fun body => (body, call) }
      else c
  | .role member role =>
    let p := c.process member
    c.advance member none { p with driver := { p.driver with role := role } }
  | .observe member =>
    let p := c.process member
    c.advance member none { p with driver := p.driver.observeRole }
  | .commit position term =>
    match c.proposed[position]? with
    | none => c
    | some (body, call) => c.commitEntry term body (some call)
  | .commitOwn body term => if body.payload.isEmpty then c.commitEntry term body none else c
  | .apply member =>
    let p := c.process member
    match c.nextEntry member with
    | none => c
    | some (entry, origin) =>
      if p.driver.running then
        c.advance member origin { p with driver := finish (Driver.applyEntry raft entry p.driver) }
      else c
  | .install member snapshot =>
    let p := c.process member
    if p.driver.running then
      c.advance member none { p with driver := finish (Driver.installReceivedSnapshot snapshot p.driver) }
    else c
  | .restart member peers probe =>
    let p := c.process member
    c.advance member none
      { driver := relaunch raft peers probe p.driver
        incarnation := p.incarnation + 1
        calls := []
        queue := [] }

/-- A waiter of `propose` is told of success only when the entry its own
call encoded is applied. -/
def Honest (c : Routing) : Prop :=
  forall told, told ∈ c.acknowledged -> told.1.submission.Proposes -> told.2 = some told.1

/-- An entry was encoded by the running process of a member, in one of its
last 2^64 calls. -/
def FromProcess (c : Routing) (member : UInt64) (origin : Option Call) : Prop :=
  Exists fun call : Call => origin = some call ∧ call.member = member ∧
    call.incarnation = (c.process member).incarnation ∧
    (c.process member).calls.length < call.serial + 2 ^ 64

/-- No member applies, with success, an entry of another process under whose
identity one of its own proposals is waiting. -/
def Unmistaken (raft : RaftCrate) (c : Routing) : Move -> Prop
  | .apply member =>
    forall (entry : Entry) (origin : Option Call) (id : UInt64) (cmd : Command) (call : Call),
      c.nextEntry member = some (entry, origin) -> (c.process member).driver.running = true ->
        entry.body.payload = .encoded id cmd -> id ≠ 0 ->
          (c.process member).driver.accepts raft entry = true ->
            (c.process member).driver.proposals.waiter id = some call -> call.submission.Proposes ->
              c.FromProcess member origin
  | _ => True

end Routing

end NotK8s.Replication

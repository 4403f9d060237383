import NotK8s.Nodestore.Node

namespace NotK8s.Watch

open Library Nodestore

/-!
# A watch stream

One task serves every watcher of a stream from one subscription to the hub.
It waits for a request or for a batch and handles one at a time, but a
creation and a resync read the store more than once, with sends in between,
so commands apply while they run.  The task is therefore a state machine and
each of its steps reads the store under the lock at most once.  A label of a
run says whose turn it is: the applier's, the channel's or the task's.

The client is taken to be connected: a send that fails ends the stream.
-/

/-- One live watcher on a stream. -/
structure Watcher where
  id : Int
  range : KeyRange
  prevKv : Bool
  /-- Highest revision delivered so far. -/
  lastRevision : Int
  filterPut : Bool
  filterDelete : Bool
  deriving DecidableEq

def Watcher.wants (watcher : Watcher) (event : Event) : Bool :=
  if !watcher.range.contains event.kv.key then false
  else
    match event.kind with
    | .put => !watcher.filterPut
    | .delete => !watcher.filterDelete

/-- An event on the wire. -/
structure PbEvent where
  type : EventKind
  kv : Option KeyValue
  prevKv : Option KeyValue
  deriving DecidableEq

def eventToPb (event : Event) (wantPrevKv : Bool) : PbEvent where
  type := event.kind
  kv := some event.kv
  prevKv := if wantPrevKv then event.prevKv else none

/-- A response; of its header only the revision. -/
structure WatchResponse where
  header : Int
  watchId : Int := 0
  created : Bool := false
  canceled : Bool := false
  compactRevision : Int := 0
  cancelReason : String := ""
  events : List PbEvent := []
  deriving DecidableEq

/-- The wire numbers of the filter types. -/
def noput : Int := 0

def nodelete : Int := 1

structure WatchCreateRequest where
  key : Bytes
  rangeEnd : Bytes
  startRevision : Int
  filters : List Int
  prevKv : Bool
  watchId : Int
  deriving DecidableEq

inductive WatchRequest where
  | create (request : WatchCreateRequest)
  | cancel (watchId : Int)
  | progress
  | empty
  deriving DecidableEq

/-! ## Sending to one watcher -/

/-- The watcher with its position moved. -/
def Watcher.moved (watcher : Watcher) (revision : Int) : Watcher :=
  { watcher with lastRevision := revision }

def flush (watcher : Watcher) (revision : Int) (events : List PbEvent) : Watcher × WatchResponse :=
  (watcher.moved (max watcher.lastRevision revision),
    { header := revision, watchId := watcher.id, events := events })

/-- The variables of the loop that sends a replay, and the responses so far. -/
structure Sending where
  watcher : Watcher
  currentRevision : Int
  group : List PbEvent
  responses : List WatchResponse

def Sending.flushed (loop : Sending) : Sending :=
  let (watcher, response) := flush loop.watcher loop.currentRevision loop.group
  { loop with watcher := watcher, group := [], responses := loop.responses ++ [response] }

/-- Take the next event of the replay. -/
def Sending.take (loop : Sending) (stamped : Int × Event) : Sending :=
  if !loop.watcher.wants stamped.2 then
    { loop with watcher := loop.watcher.moved (max loop.watcher.lastRevision stamped.1) }
  else
    let loop := if stamped.1 ≠ loop.currentRevision ∧ loop.group ≠ [] then loop.flushed else loop
    { loop with
      currentRevision := stamped.1
      group := loop.group ++ [eventToPb stamped.2 loop.watcher.prevKv] }

/-- Send a replayed batch, one response per revision. -/
def sendEvents (watcher : Watcher) (history : List (Int × Event)) : Watcher × List WatchResponse :=
  let loop := history.foldl Sending.take
    { watcher := watcher, currentRevision := 0, group := [], responses := [] }
  let loop := if loop.group ≠ [] then loop.flushed else loop
  (loop.watcher, loop.responses)

/-- Deliver one applied command's events to one watcher. -/
def dispatchTo (batch : WatchBatch) (watcher : Watcher) : Watcher × List WatchResponse :=
  if batch.revision ≤ watcher.lastRevision then (watcher, [])
  else
    let events := (batch.events.filter watcher.wants).map fun event => eventToPb event watcher.prevKv
    let watcher := watcher.moved batch.revision
    if events = [] then (watcher, [])
    else
      let (watcher, response) := flush watcher batch.revision events
      (watcher, [response])

/-! ## The stream -/

/-- A creation as the client asked for it, with the id it got and the
revision current when it was handled. -/
structure Creation where
  request : WatchCreateRequest
  watchId : Int
  current : Int
  deriving DecidableEq

/-- The watcher a creation starts with. -/
def Creation.watcher (creation : Creation) : Watcher where
  id := creation.watchId
  range := KeyRange.decode creation.request.key creation.request.rangeEnd
  prevKv := creation.request.prevKv
  -- The start revision is inclusive, and 0 means "from now on".
  lastRevision :=
    if creation.request.startRevision ≤ 0 then creation.current else creation.request.startRevision - 1
  filterPut := creation.request.filters.contains noput
  filterDelete := creation.request.filters.contains nodelete

/-- A watcher and the number of the creation it came from. -/
structure Live where
  number : Nat
  watcher : Watcher
  deriving DecidableEq

/-- Something sent to the client, with the number of the creation it is
about. -/
structure Delivery where
  number : Option Nat
  item : Except Error WatchResponse
  deriving DecidableEq

inductive Task where
  /-- Waiting for a request or a batch. -/
  | idle
  /-- The created response is out, the watcher not yet in the map. -/
  | creating (live : Live) (creation : Creation)
  /-- Reading the store again for these watchers, for a progress request or
  after a lag. -/
  | resyncing (pending : List Int) (progress : Bool)
  deriving DecidableEq

structure Stream where
  node : Node
  /-- The batches the receiver has not read. -/
  buffer : List WatchBatch
  /-- How many unread batches the channel has overwritten and not reported. -/
  missed : Nat
  /-- The map from ids to watchers. -/
  watchers : List Live
  nextWatchId : Int
  task : Task
  sent : List Delivery
  /-- Every creation so far, in order. -/
  creations : List Creation
  /-- The creations whose watcher a cancel request removed. -/
  withdrawn : List Nat

namespace Stream

/-- Subscribe to a node. -/
def opened (node : Node) : Stream where
  node := node
  buffer := []
  missed := 0
  watchers := []
  nextWatchId := 0
  task := .idle
  sent := []
  creations := []
  withdrawn := []

def get (s : Stream) (id : Int) : Option Live :=
  s.watchers.find? fun live => live.watcher.id = id

def remove (s : Stream) (id : Int) : Stream :=
  { s with watchers := s.watchers.filter fun live => live.watcher.id ≠ id }

/-- Map insertion: an entry under the same id is replaced. -/
def insert (s : Stream) (live : Live) : Stream :=
  { s with watchers := (s.watchers.filter fun other => other.watcher.id ≠ live.watcher.id) ++ [live] }

def send (s : Stream) (number : Option Nat) (item : Except Error WatchResponse) : Stream :=
  { s with sent := s.sent ++ [{ number := number, item := item }] }

/-- Send the responses of one watcher. -/
def sendAll (s : Stream) (number : Nat) (responses : List WatchResponse) : Stream :=
  { s with sent := s.sent ++ responses.map fun response => { number := some number, item := .ok response } }

/-- The answer to a watcher whose history is gone. -/
def compactedResponse (header watchId compactRevision : Int) : WatchResponse where
  header := header
  watchId := watchId
  canceled := true
  compactRevision := compactRevision
  cancelReason := "etcdserver: mvcc: required revision has been compacted"

/-- The id a creation gets, and the counter after it. -/
def allocateId (s : Stream) (request : WatchCreateRequest) : Int × Int :=
  if request.watchId ≠ 0 then (request.watchId, s.nextWatchId) else (s.nextWatchId, s.nextWatchId + 1)

/-- First half of a creation: read the current revision and send the created
response. -/
def beginCreate (s : Stream) (request : WatchCreateRequest) : Stream :=
  let (watchId, nextWatchId) := s.allocateId request
  let creation : Creation := { request := request, watchId := watchId, current := s.node.store.db.revision }
  let live : Live := { number := s.creations.length, watcher := creation.watcher }
  let s := { s with
    nextWatchId := nextWatchId
    task := .creating live creation
    creations := s.creations ++ [creation] }
  s.send (some live.number) (.ok { header := creation.current, watchId := watchId, created := true })

/-- Second half: replay whatever the client has already missed, and insert. -/
def finishCreate (s : Stream) (live : Live) (creation : Creation) : Stream :=
  let s := { s with task := .idle }
  if creation.request.startRevision > 0 then
    match s.node.store.db.eventsSince live.watcher.lastRevision live.watcher.range with
    | .ok history =>
      let (watcher, responses) := sendEvents live.watcher history
      (s.sendAll live.number responses).insert { live with watcher := watcher }
    | .error (.compacted compactRevision) =>
      s.send (some live.number) (.ok (compactedResponse creation.current creation.watchId compactRevision))
    | .error refusal => s.send (some live.number) (.error refusal)
  else s.insert live

/-- A cancel request. -/
def cancelWatch (s : Stream) (id : Int) : Stream :=
  let live := s.get id
  let s := { s.remove id with withdrawn := s.withdrawn ++ (live.map Live.number).toList }
  s.send (live.map Live.number)
    (.ok { header := s.node.store.db.revision, watchId := id, canceled := true })

/-- Read the store again from the position of one watcher. -/
def resyncOne (s : Stream) (id : Int) (rest : List Int) (progress : Bool) : Stream :=
  let s := { s with task := .resyncing rest progress }
  match s.get id with
  | none => s
  | some live =>
    match s.node.store.db.eventsSince live.watcher.lastRevision live.watcher.range with
    | .ok history =>
      let (watcher, responses) := sendEvents live.watcher history
      -- Caught up to the revision of the same locked read.
      let watcher := watcher.moved (max watcher.lastRevision s.node.store.db.revision)
      (s.sendAll live.number responses).insert { live with watcher := watcher }
    | .error (.compacted compactRevision) =>
      (s.send (some live.number)
        (.ok (compactedResponse s.node.store.db.revision id compactRevision))).remove id
    | .error refusal =>
      { s.send (some live.number) (.error refusal) with task := .resyncing [] progress }

/-- Begin a resync of every watcher. -/
def beginResync (s : Stream) (progress : Bool) : Stream :=
  { s with task := .resyncing (s.watchers.map fun live => live.watcher.id) progress }

/-- The least position of the watchers, or 0 without watchers. -/
def progressRevision (s : Stream) : Int :=
  ((s.watchers.map fun live => live.watcher.lastRevision).min?).getD 0

/-- A progress request is answered with `-1` for the whole stream. -/
def finishResync (s : Stream) (progress : Bool) : Stream :=
  let s := { s with task := .idle }
  if progress then s.send none (.ok { header := s.progressRevision, watchId := -1 }) else s

def handleRequest (s : Stream) : WatchRequest -> Stream
  | .create request => s.beginCreate request
  | .cancel watchId => s.cancelWatch watchId
  | .progress => s.beginResync true
  | .empty => s

/-- Deliver one applied command's events to every watcher that wants them. -/
def dispatch (s : Stream) (batch : WatchBatch) : Stream :=
  { s with
    watchers := s.watchers.map fun live => { live with watcher := (dispatchTo batch live.watcher).1 }
    sent := s.sent ++ s.watchers.flatMap fun live =>
      (dispatchTo batch live.watcher).2.map fun response =>
        { number := some live.number, item := .ok response } }

/-- Take from the subscription: a lag is reported before the batches that
are left. -/
def receive (s : Stream) : Stream :=
  if s.missed > 0 then ({ s with missed := 0 }).beginResync false
  else
    match s.buffer with
    | [] => s
    | batch :: rest => ({ s with buffer := rest }).dispatch batch

/-- The applier's turn.  The receiver gets what was published. -/
def applyCommitted (s : Stream) (index : Nat) (cmd : Command) : Stream :=
  match s.node.applyCommitted index cmd with
  | .error _ => s
  | .ok (_, node) =>
    { s with node := node, buffer := s.buffer ++ node.published.drop s.node.published.length }

/-- The channel overwrites the oldest unread batch. -/
def overwrite (s : Stream) : Stream :=
  match s.buffer with
  | [] => s
  | _ :: rest => { s with buffer := rest, missed := s.missed + 1 }

end Stream

inductive Label where
  | apply (index : Nat) (cmd : Command)
  | overwrite
  | request (request : WatchRequest)
  | receive
  /-- A task in the middle of something goes on; a resync goes on with the
  watcher named. -/
  | proceed (next : Int)
  deriving DecidableEq

/-- One step.  The task takes a request or a batch only when it is idle. -/
def Stream.step (s : Stream) : Label -> Stream
  | .apply index cmd => s.applyCommitted index cmd
  | .overwrite => s.overwrite
  | .request request => if s.task = .idle then s.handleRequest request else s
  | .receive => if s.task = .idle then s.receive else s
  | .proceed next =>
    match s.task with
    | .idle => s
    | .creating live creation => s.finishCreate live creation
    | .resyncing [] progress => s.finishResync progress
    | .resyncing pending progress =>
      if next ∈ pending then s.resyncOne next (pending.erase next) progress else s

end NotK8s.Watch

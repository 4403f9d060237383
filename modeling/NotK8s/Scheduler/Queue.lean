import NotK8s.Scheduler.NodeInfo

namespace NotK8s.Scheduler

open Library

/-!
# The scheduling queue

Pods ready for a cycle wait in the active queue, pods that failed one serve a
backoff, and rejected pods are parked until a change that a plugin subscribed
to.  Every function here is one critical section of the queue's locks.  What
an operation does between two of them is in `Dispatch`.
-/

/-! ## Events and hints -/

inductive EventResource where
  | pod
  | assignedPod
  | unschedulablePod
  | node
  | namespaces
  | persistentVolume
  | persistentVolumeClaim
  | csiNode
  | csiDriver
  | csiStorageCapacity
  | volumeAttachment
  | storageClass
  | resourceClaim
  | resourceSlice
  | deviceClass
  | wildCard
  deriving DecidableEq

/-- The action is a mask with one bit for each kind of change. -/
structure ClusterEvent where
  resource : EventResource
  action : BitVec 32
  deriving DecidableEq

/-- An event with the object before and after it. -/
structure Change (Obj : Type) where
  event : ClusterEvent
  old : Option Obj
  new : Option Obj

/-- A hint says whether the pod is worth another cycle. -/
structure ClusterEventWithHint (Obj : Type) where
  event : ClusterEvent
  hint : Option (PodInfo -> Option Obj -> Option Obj -> Bool)

inductive RequeueDecision where
  | skip
  | afterBackoff
  | immediately
  deriving DecidableEq

/-- What each plugin subscribed to. -/
structure HintRegistry (Obj : Type) where
  byPlugin : SortedMap String (List (ClusterEventWithHint Obj))

/-- A pod that a cycle rejected, and what it waits for. -/
structure Rejection where
  pod : PodInfo
  unschedulablePlugins : List String
  pendingPlugins : List String

def ClusterEvent.covers (subscribed event : ClusterEvent) : Bool :=
  (subscribed.resource = .wildCard || event.resource = .wildCard || subscribed.resource = event.resource ||
    (subscribed.resource = .pod && (event.resource = .assignedPod || event.resource = .unschedulablePod))) &&
  subscribed.action &&& event.action ≠ 0

namespace HintRegistry

variable {Obj : Type}

def pluginWantsRequeue (hints : HintRegistry Obj) (plugin : String) (pod : PodInfo) (change : Change Obj) : Bool :=
  match hints.byPlugin.get plugin with
  | none => false
  | some subscriptions => subscriptions.any fun sub =>
    sub.event.covers change.event &&
      match sub.hint with
      | none => true
      | some hint => hint pod change.old change.new

def decide (hints : HintRegistry Obj) (rejection : Rejection) (change : Change Obj) : RequeueDecision :=
  if rejection.pendingPlugins.any fun plugin => hints.pluginWantsRequeue plugin rejection.pod change then .immediately
  else if rejection.unschedulablePlugins.any fun plugin => hints.pluginWantsRequeue plugin rejection.pod change then
    .afterBackoff
  else .skip

/-- Storage events wake a pod that VolumeBinding rejected whatever the hints
say. -/
def isStorage : EventResource -> Bool
  | .persistentVolume => true
  | .persistentVolumeClaim => true
  | .storageClass => true
  | .csiStorageCapacity => true
  | .volumeAttachment => true
  | _ => false

/-- The decision about a parked pod. -/
def decideParked (hints : HintRegistry Obj) (rejection : Rejection) (change : Change Obj) : RequeueDecision :=
  if isStorage change.event.resource && rejection.unschedulablePlugins.contains "VolumeBinding" then .afterBackoff
  else hints.decide rejection change

/-- The first decision of a replay that is not to skip. -/
def replay (hints : HintRegistry Obj) (rejection : Rejection) (changes : List (Change Obj)) : RequeueDecision :=
  ((changes.map (hints.decide rejection)).find? fun decision => decision ≠ .skip).getD .skip

end HintRegistry

/-! ## The backoff queue -/

structure Entry where
  expiry : Nat
  seq : Nat
  pod : PodInfo

/-- The heap is a list in the order in which it is emptied. -/
structure BackoffQueue where
  heap : List Entry
  nextSeq : Nat

def backoffDuration (attempts initial max : Nat) : Nat :=
  let shift := attempts - 1
  if 32 ≤ shift then max else min (initial * 2 ^ shift) max

namespace BackoffQueue

def pushAt (b : BackoffQueue) (pod : PodInfo) (expiry : Nat) : BackoffQueue where
  heap := b.heap.orderedInsert
    (fun first second => first.expiry < second.expiry ∨ (first.expiry = second.expiry ∧ first.seq ≤ second.seq))
    ⟨expiry, b.nextSeq, pod⟩
  nextSeq := b.nextSeq + 1

def popExpired (b : BackoffQueue) (now : Nat) : List PodInfo × BackoffQueue :=
  ((b.heap.takeWhile fun entry => entry.expiry ≤ now).map Entry.pod,
    { b with heap := b.heap.dropWhile fun entry => entry.expiry ≤ now })

def remove (b : BackoffQueue) (uid : String) : BackoffQueue :=
  { b with heap := b.heap.filter fun entry => entry.pod.uid ≠ uid }

def contains (b : BackoffQueue) (uid : String) : Bool :=
  b.heap.any fun entry => entry.pod.uid = uid

end BackoffQueue

/-! ## The queue -/

/-- What the plugins supply. -/
structure QueueConfig (Obj : Type) where
  hints : HintRegistry Obj
  less : PodInfo -> PodInfo -> Bool
  preEnqueue : PodInfo -> Bool
  /-- PreEnqueue plugins read nothing that belongs to the queue. -/
  preEnqueue_spec : forall (pod : PodInfo) (queuedAt : Int) (attempts : Nat),
    preEnqueue { pod with queuedAt := queuedAt, attempts := attempts } = preEnqueue pod
  initialBackoff : Nat
  maxBackoff : Nat
  maxInUnschedulable : Nat

structure Unschedulable where
  rejection : Rejection
  heldByPreEnqueue : Bool
  since : Nat

def Unschedulable.holding (entry : Unschedulable) (pod : PodInfo) : Unschedulable :=
  { entry with rejection := { entry.rejection with pod := pod } }

/-- One entry of the timeline of cycles and events. -/
inductive InFlight (Obj : Type) where
  | podMarker (uid : String)
  | event (change : Change Obj)

namespace InFlight

variable {Obj : Type}

def isMarker : InFlight Obj -> Bool
  | .podMarker _ => true
  | .event _ => false

def isMarkerOf (uid : String) : InFlight Obj -> Bool
  | .podMarker marked => marked = uid
  | .event _ => false

def change? : InFlight Obj -> Option (Change Obj)
  | .podMarker _ => none
  | .event change => some change

end InFlight

/-- The fields up to the last are under one lock, the backoff queue is under
another. -/
structure SchedulingQueue (Obj : Type) where
  active : List PodInfo
  unschedulable : SortedMap String Unschedulable
  inFlight : List (InFlight Obj)
  inFlightUids : List String
  rescuedByTimeout : Nat
  backoff : BackoffQueue

/-- The new object with the queue's own fields of the old one. -/
def carryQueueState (previous updated : PodInfo) : PodInfo :=
  { updated with queuedAt := previous.queuedAt, attempts := previous.attempts }

/-- The pod after one more failed cycle.  The count stays at its greatest
value. -/
def PodInfo.charged (pod : PodInfo) : PodInfo :=
  { pod with attempts := if pod.attempts < 2 ^ 32 - 1 then pod.attempts + 1 else pod.attempts }

def BackoffQueue.update (b : BackoffQueue) (updated : PodInfo) : Option BackoffQueue :=
  if b.contains updated.uid then
    some { b with heap := b.heap.map fun entry =>
      if entry.pod.uid = updated.uid then { entry with pod := carryQueueState entry.pod updated } else entry }
  else none

/-- The pod in the active queue, if it is there, is replaced where it is. -/
def updateActive (pod : PodInfo) : List PodInfo -> Option (List PodInfo)
  | [] => none
  | held :: rest =>
    if held.uid = pod.uid then some (carryQueueState held pod :: rest)
    else (updateActive pod rest).map fun rest => held :: rest

/-- What an update found. -/
inductive Found where
  /-- Replaced where it was. -/
  | replaced
  /-- Parked by PreEnqueue, which no longer rejects it. -/
  | released (pod : PodInfo)
  | missing

namespace SchedulingQueue

variable {Obj : Type}

def new : SchedulingQueue Obj where
  active := []
  unschedulable := .empty
  inFlight := []
  inFlightUids := []
  rescuedByTimeout := 0
  backoff := ⟨[], 0⟩

def pushActive (cfg : QueueConfig Obj) (q : SchedulingQueue Obj) (pod : PodInfo) : SchedulingQueue Obj :=
  if q.active.any fun held => held.uid = pod.uid then q
  else { q with active := q.active.orderedInsert (fun first second => cfg.less first second = true) pod }

def pushBackoff (cfg : QueueConfig Obj) (q : SchedulingQueue Obj) (pod : PodInfo) (now : Nat) : SchedulingQueue Obj :=
  { q with backoff := q.backoff.pushAt pod (now + backoffDuration pod.attempts cfg.initialBackoff cfg.maxBackoff) }

def park (q : SchedulingQueue Obj) (rejection : Rejection) (held : Bool) (now : Nat) : SchedulingQueue Obj :=
  { q with unschedulable := q.unschedulable.insert rejection.pod.uid ⟨rejection, held, now⟩ }

/-- Held without being counted as a failure. -/
def hold (q : SchedulingQueue Obj) (pod : PodInfo) (now : Nat) : SchedulingQueue Obj :=
  q.park ⟨pod, [], []⟩ true now

def add (cfg : QueueConfig Obj) (q : SchedulingQueue Obj) (pod : PodInfo) (now : Nat) : SchedulingQueue Obj :=
  if cfg.preEnqueue pod then q.pushActive cfg pod else q.hold pod now

/-- The first critical section of `update`. -/
def update (cfg : QueueConfig Obj) (q : SchedulingQueue Obj) (pod : PodInfo) : Found × SchedulingQueue Obj :=
  match q.unschedulable.get pod.uid with
  | some entry =>
    let merged := carryQueueState entry.rejection.pod pod
    if entry.heldByPreEnqueue && cfg.preEnqueue merged then
      (.released merged, { q with unschedulable := q.unschedulable.erase pod.uid })
    else
      (.replaced, { q with unschedulable := q.unschedulable.insert pod.uid (entry.holding merged) })
  | none =>
    match updateActive pod q.active with
    | some active => (.replaced, { q with active := active })
    | none => (.missing, q)

/-- The second one, for a pod that serves a backoff. -/
def updateBackoff (q : SchedulingQueue Obj) (pod : PodInfo) : Found × SchedulingQueue Obj :=
  match q.backoff.update pod with
  | some backoff => (.replaced, { q with backoff := backoff })
  | none => (.missing, q)

def drainExpired (q : SchedulingQueue Obj) (now : Nat) : List PodInfo × SchedulingQueue Obj :=
  ((q.backoff.popExpired now).1, { q with backoff := (q.backoff.popExpired now).2 })

/-- The critical section of `pop`. -/
def take (q : SchedulingQueue Obj) : Option PodInfo × SchedulingQueue Obj :=
  match q.active with
  | [] => (none, q)
  | pod :: rest => (some pod, { q with
      active := rest
      inFlightUids := q.inFlightUids ++ [pod.uid]
      inFlight := q.inFlight ++ [.podMarker pod.uid] })

/-- Events ahead of the first marker are dropped with the marker of the pod. -/
def done (q : SchedulingQueue Obj) (uid : String) : SchedulingQueue Obj :=
  let uids := q.inFlightUids.filter fun marked => marked ≠ uid
  let timeline := q.inFlight.filter fun entry => !entry.isMarkerOf uid
  { q with
    inFlightUids := uids
    inFlight :=
      if uids.isEmpty then []
      else if timeline.any InFlight.isMarker then timeline.dropWhile fun entry => !entry.isMarker
      else timeline }

/-- The events recorded since the marker of the pod. -/
def recorded (q : SchedulingQueue Obj) (uid : String) : List (Change Obj) :=
  ((q.inFlight.dropWhile fun entry => !entry.isMarkerOf uid).drop 1).filterMap InFlight.change?

/-- An event is recorded when a cycle runs. -/
def record (q : SchedulingQueue Obj) (change : Change Obj) : SchedulingQueue Obj :=
  if q.inFlightUids.isEmpty then q else { q with inFlight := q.inFlight ++ [.event change] }

/-- The parked pods of one decision. -/
def parkedFor (cfg : QueueConfig Obj) (q : SchedulingQueue Obj) (change : Change Obj) (decision : RequeueDecision) :
    List PodInfo :=
  (q.unschedulable.entries.filter fun entry =>
    cfg.hints.decideParked entry.2.rejection change = decision).map fun entry => entry.2.rejection.pod

/-- The look at every parked pod when an event arrives. -/
def sweep (cfg : QueueConfig Obj) (q : SchedulingQueue Obj) (change : Change Obj) : SchedulingQueue Obj :=
  { q with unschedulable := q.unschedulable.filter fun _ entry =>
      cfg.hints.decideParked entry.rejection change = .skip }

/-- Parked for too long. -/
def isExpired (cfg : QueueConfig Obj) (now : Nat) (entry : Unschedulable) : Bool :=
  cfg.maxInUnschedulable ≤ now - entry.since

def flushTimedOut (cfg : QueueConfig Obj) (q : SchedulingQueue Obj) (now : Nat) : List PodInfo × SchedulingQueue Obj :=
  ((q.unschedulable.entries.filter fun entry => isExpired cfg now entry.2).map fun entry => entry.2.rejection.pod,
    { q with unschedulable := q.unschedulable.filter fun _ entry => !isExpired cfg now entry })

def activate : SchedulingQueue Obj -> List String -> List PodInfo × SchedulingQueue Obj
  | q, [] => ([], q)
  | q, uid :: rest =>
    let taken := activate { q with unschedulable := q.unschedulable.erase uid } rest
    match q.unschedulable.get uid with
    | some entry => (entry.rejection.pod :: taken.1, taken.2)
    | none => taken

/-- The first critical section of `remove`. -/
def removeInner (q : SchedulingQueue Obj) (uid : String) : SchedulingQueue Obj :=
  { q with
    active := q.active.filter fun pod => pod.uid ≠ uid
    unschedulable := q.unschedulable.erase uid }

def removeBackoff (q : SchedulingQueue Obj) (uid : String) : SchedulingQueue Obj :=
  { q with backoff := q.backoff.remove uid }

end SchedulingQueue
end NotK8s.Scheduler

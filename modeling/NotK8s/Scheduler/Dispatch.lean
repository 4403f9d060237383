import NotK8s.Scheduler.Cache
import NotK8s.Scheduler.Queue

namespace NotK8s.Scheduler

open Library

/-!
# The scheduler at work

The scheduling loop, the watch loop, the safety net and the bindings share the
queue, the cache, the assumed pods and the nominations.  Each of them is a
thread: a list of critical sections still to be performed.  A step performs
the next section of one thread, so that a run is an interleaving of sections.
What a cycle or a binding comes to, when an event arrives and what time it is
are choices of the environment.
-/

/-! ## Assumed and nominated pods -/

structure Assumed where
  pod : PodInfo
  nodeName : String
  bindingFinished : Bool

/-- The assumed pods by uid. -/
structure AssumedPods where
  byUid : SortedMap String Assumed

namespace AssumedPods

def assume (a : AssumedPods) (pod : PodInfo) (nodeName : String) : AssumedPods :=
  ⟨a.byUid.insert pod.uid ⟨{ pod with nodeName := some nodeName }, nodeName, false⟩⟩

/-- Forgetting an assumption and having it confirmed are the same. -/
def forget (a : AssumedPods) (uid : String) : AssumedPods :=
  ⟨a.byUid.erase uid⟩

def finishBinding (a : AssumedPods) (uid : String) : AssumedPods :=
  match a.byUid.get uid with
  | none => a
  | some assumed => ⟨a.byUid.insert uid { assumed with bindingFinished := true }⟩

end AssumedPods

structure Nominator where
  byPod : SortedMap String String
  pods : SortedMap String PodInfo
  byNode : SortedMap String (List String)

namespace Nominator

def remove (n : Nominator) (uid : String) : Nominator :=
  match n.byPod.get uid with
  | none => { n with pods := n.pods.erase uid }
  | some node =>
    { byPod := n.byPod.erase uid
      pods := n.pods.erase uid
      byNode :=
        match n.byNode.get node with
        | none => n.byNode
        | some uids =>
          let kept := uids.filter fun held => held ≠ uid
          if kept.isEmpty then n.byNode.erase node else n.byNode.insert node kept }

def nominate (n : Nominator) (pod : PodInfo) (node : String) : Nominator :=
  let cleared := n.remove pod.uid
  { byPod := cleared.byPod.insert pod.uid node
    pods := cleared.pods.insert pod.uid pod
    byNode := cleared.byNode.insert node ((cleared.byNode.get node).getD [] ++ [pod.uid]) }

end Nominator

/-! ## Sections -/

/-- A pod in a cycle, and how many events there had been when it was popped. -/
structure Popped where
  pod : PodInfo
  popped : Nat

/-- The next critical section of a thread. -/
inductive Task (Obj : Type) where
  | add (pod : PodInfo)
  /-- `add` for a pod that the watch sees for the first time. -/
  | arrive (pod : PodInfo)
  | pushActive (pod : PodInfo)
  | pushBackoff (pod : PodInfo)
  /-- Into backoff, unless PreEnqueue rejects the pod. -/
  | offerBackoff (pod : PodInfo)
  | update (pod : PodInfo)
  | updateBackoff (pod : PodInfo)
  | drainExpiredBackoff
  | take
  | done (uid : String)
  /-- Reading the events since the pod was popped.  How many events there had
  been by then is kept for the statements only. -/
  | addUnschedulable (rejection : Rejection) (popped : Nat)
  /-- The last section of `add_unschedulable`. -/
  | settle (rejection : Rejection) (popped : Nat) (decision : RequeueDecision)
  | record (change : Change Obj)
  | sweep (change : Change Obj)
  | flushTimedOut
  | countRescued (count : Nat)
  | activate (uids : List String)
  | removeInner (uid : String)
  | removeBackoff (uid : String)
  | assume (pod : PodInfo) (node : String)
  | forget (uid : String)
  | finishBinding (uid : String)
  | addPod (pod : PodInfo)
  | removePod (uid : String)
  | upsertNode (node : ApiNode) (preserveApiObject : Bool)
  | removeNode (name : String)
  | nominate (pod : PodInfo) (node : String)
  | withdraw (uid : String)
  /-- The binding cycle goes on in a thread of its own. -/
  | startBinding (pod : PodInfo) (popped : Nat)

/-- What the threads share. -/
structure World (Obj : Type) (P : Payloads) where
  queue : SchedulingQueue Obj
  assumed : AssumedPods
  cache : Cache P
  nominator : Nominator

/-- What a section does and what its thread does next. -/
structure Effect (Obj : Type) (P : Payloads) where
  world : World Obj P
  next : List (Task Obj)
  popped : Option PodInfo
  binding : Option Popped

variable {Obj : Type} {P : Payloads}

namespace World

def new : World Obj P where
  queue := .new
  assumed := ⟨.empty⟩
  cache := .new
  nominator := ⟨.empty, .empty, .empty⟩

/-- A section that only changes the queue and leaves its thread with more
to do. -/
def queued (w : World Obj P) (queue : SchedulingQueue Obj) (next : List (Task Obj)) : Effect Obj P :=
  ⟨{ w with queue := queue }, next, none, none⟩

/-- A section with nothing more to do. -/
def only (w : World Obj P) : Effect Obj P :=
  ⟨w, [], none, none⟩

def perform (cfg : QueueConfig Obj) (now : Nat) (w : World Obj P) : Task Obj -> Effect Obj P
  | .add pod => w.queued (w.queue.add cfg pod now) []
  | .arrive pod => w.queued (w.queue.add cfg pod now) []
  | .pushActive pod => w.queued (w.queue.pushActive cfg pod) []
  | .pushBackoff pod => w.queued (w.queue.pushBackoff cfg pod now) []
  | .offerBackoff pod =>
    if cfg.preEnqueue pod then w.queued (w.queue.pushBackoff cfg pod now) []
    else w.queued (w.queue.add cfg pod now) []
  | .update pod =>
    match w.queue.update cfg pod with
    | (.replaced, queue) => w.queued queue []
    | (.released merged, queue) => w.queued queue [.pushActive merged]
    | (.missing, queue) => w.queued queue [.updateBackoff pod]
  | .updateBackoff pod =>
    match w.queue.updateBackoff pod with
    | (.missing, queue) => w.queued queue [.add pod]
    | (_, queue) => w.queued queue []
  | .drainExpiredBackoff => w.queued (w.queue.drainExpired now).2 ((w.queue.drainExpired now).1.map .pushActive)
  | .take =>
    match w.queue.take with
    | (none, queue) => w.queued queue [.drainExpiredBackoff, .take]
    | (some pod, queue) => { w.queued queue [] with popped := some pod }
  | .done uid => w.queued (w.queue.done uid) []
  | .addUnschedulable rejection popped =>
    w.queued w.queue [.settle rejection popped (cfg.hints.replay rejection (w.queue.recorded rejection.pod.uid))]
  | .settle rejection _ decision =>
    match decision with
    | .immediately => w.queued (w.queue.pushActive cfg rejection.pod) []
    | .afterBackoff => w.queued (w.queue.pushBackoff cfg rejection.pod now) []
    | .skip => w.queued (w.queue.park rejection false now) []
  | .record change => w.queued (w.queue.record change) []
  | .sweep change => w.queued (w.queue.sweep cfg change)
      ((w.queue.parkedFor cfg change .immediately).map .add ++
        (w.queue.parkedFor cfg change .afterBackoff).map .offerBackoff)
  | .flushTimedOut =>
    match w.queue.flushTimedOut cfg now with
    | ([], queue) => w.queued queue []
    | (expired, queue) => w.queued queue (.countRescued expired.length :: expired.map .pushBackoff)
  | .countRescued count => w.queued { w.queue with rescuedByTimeout := w.queue.rescuedByTimeout + count } []
  | .activate uids => w.queued (w.queue.activate uids).2 ((w.queue.activate uids).1.map .add)
  | .removeInner uid => w.queued (w.queue.removeInner uid) []
  | .removeBackoff uid => w.queued (w.queue.removeBackoff uid) []
  | .assume pod node => only { w with assumed := w.assumed.assume pod node }
  | .forget uid => only { w with assumed := w.assumed.forget uid }
  | .finishBinding uid => only { w with assumed := w.assumed.finishBinding uid }
  | .addPod pod => only { w with cache := w.cache.addPod pod }
  | .removePod uid => only { w with cache := w.cache.removePod uid }
  | .upsertNode node preserve => only { w with cache := w.cache.upsertNode node preserve }
  | .removeNode name => only { w with cache := w.cache.removeNode name }
  | .nominate pod node => only { w with nominator := w.nominator.nominate pod node }
  | .withdraw uid => only { w with nominator := w.nominator.remove uid }
  | .startBinding pod popped => ⟨w, [], none, some ⟨pod, popped⟩⟩

end World

/-! ## Operations -/

/-- `move_all_to_active_or_backoff`. -/
def moveAllToActiveOrBackoff (change : Change Obj) : List (Task Obj) :=
  [.record change, .sweep change]

/-- `SchedulingQueue::remove`. -/
def removeFromQueue (uid : String) : List (Task Obj) :=
  [.removeInner uid, .removeBackoff uid]

/-- The event for capacity that is free again. -/
def assignedPodDeleted (old : Option Obj) : Change Obj :=
  ⟨⟨.assignedPod, 2⟩, old, none⟩

inductive PodRoute where
  | cache
  | queue
  | ignore

def routePod (pod : PodInfo) (profileNames : List String) : PodRoute :=
  if pod.nodeName.isSome then .cache
  else if pod.deleting then .ignore
  else if profileNames.contains pod.schedulerName then .queue
  else .ignore

/-- What the watch reports of a pod. -/
inductive PodEvent (Obj : Type) where
  /-- An object that is seen for the first time. -/
  | added (pod : PodInfo)
  /-- A new version, with the event it makes when it makes one. -/
  | modified (pod : PodInfo) (change : Option (Change Obj))
  | deleted (pod : PodInfo) (old : Obj)

def changeTasks (change : Option (Change Obj)) : List (Task Obj) :=
  match change with
  | none => []
  | some change => moveAllToActiveOrBackoff change

/-- A nomination that the status of the pod records. -/
def nominateFromStatus (pod : PodInfo) : List (Task Obj) :=
  match pod.nominatedNodeName with
  | none => []
  | some node => [.nominate pod node]

def handlePodEvent (profileNames : List String) : PodEvent Obj -> List (Task Obj)
  | .added pod =>
    match routePod pod profileNames with
    | .cache => removeFromQueue pod.uid ++ [.withdraw pod.uid, .forget pod.uid, .addPod pod]
    | .queue => nominateFromStatus pod ++ [.arrive pod]
    | .ignore => removeFromQueue pod.uid ++ [.withdraw pod.uid]
  | .modified pod change =>
    match routePod pod profileNames with
    | .cache =>
      removeFromQueue pod.uid ++ [.withdraw pod.uid, .forget pod.uid, .addPod pod] ++ changeTasks change
    | .queue => nominateFromStatus pod ++ [.update pod] ++ changeTasks change
    | .ignore => removeFromQueue pod.uid ++ [.withdraw pod.uid]
  | .deleted pod old =>
    removeFromQueue pod.uid ++ [.forget pod.uid, .withdraw pod.uid] ++
      if pod.nodeName.isSome then .removePod pod.uid :: moveAllToActiveOrBackoff (assignedPodDeleted (some old))
      else []

/-- What a scheduling cycle comes to. -/
inductive CycleOutcome where
  /-- The profile of the pod is not served any more. -/
  | unserved
  | reserveRejected (plugins : List String)
  | scheduled (node : String)
  /-- With the node that preemption makes room on. -/
  | unschedulable (unschedulablePlugins pendingPlugins : List String) (preempting : Option String)
  | error

def CycleOutcome.tasks (p : Popped) : CycleOutcome -> List (Task Obj)
  | .unserved => [.done p.pod.uid]
  | .reserveRejected plugins => [.addUnschedulable ⟨p.pod.charged, plugins, []⟩ p.popped, .done p.pod.uid]
  | .scheduled node =>
    [.assume p.pod node, .addPod { p.pod with nodeName := some node }, .withdraw p.pod.uid, .done p.pod.uid,
      .startBinding p.pod p.popped]
  | .unschedulable unschedulablePlugins pendingPlugins preempting =>
    (match preempting with
      | none => []
      | some node => [.nominate p.pod node]) ++
    [.addUnschedulable ⟨p.pod.charged, unschedulablePlugins, pendingPlugins⟩ p.popped, .done p.pod.uid]
  | .error => [.pushBackoff p.pod.charged, .done p.pod.uid]

inductive BindOutcome where
  | bound
  | cancelled
  | rejected (plugins : List String)
  | failed

/-- Undo the assumption. -/
def release (uid : String) : List (Task Obj) :=
  [.forget uid, .removePod uid]

/-- `handle_outcome`. -/
def BindOutcome.tasks (p : Popped) : BindOutcome -> List (Task Obj)
  | .bound => [.finishBinding p.pod.uid]
  | .cancelled =>
    release p.pod.uid ++ removeFromQueue p.pod.uid ++ moveAllToActiveOrBackoff (assignedPodDeleted none)
  | .rejected plugins =>
    release p.pod.uid ++ [.addUnschedulable ⟨p.pod.charged, plugins, []⟩ p.popped] ++
      moveAllToActiveOrBackoff (assignedPodDeleted none)
  | .failed =>
    release p.pod.uid ++ [.pushBackoff p.pod.charged] ++ moveAllToActiveOrBackoff (assignedPodDeleted none)

/-! ## Runs -/

/-- The first three threads are the scheduling loop, the watch loop and the
safety net.  The events so far and the pods last delivered are kept for the
statements only. -/
structure Dispatch (Obj : Type) (P : Payloads) where
  world : World Obj P
  threads : List (List (Task Obj))
  cycle : Option Popped
  bindings : List Popped
  arrived : List (Change Obj)
  delivered : SortedMap String PodInfo

/-- One step, with the choices of the environment. -/
inductive Step (Obj : Type) where
  | run (thread now : Nat)
  /-- The loop goes on to the next pod. -/
  | pop
  | concludeCycle (outcome : CycleOutcome)
  | concludeBinding (binding : Nat) (outcome : BindOutcome)
  | podEvent (event : PodEvent Obj)
  | nodeApplied (node : ApiNode) (preserveApiObject : Bool) (change : Option (Change Obj))
  | nodeDeleted (name : String)
  /-- Of an object that the scheduler only keeps for its plugins. -/
  | otherEvent (change : Change Obj)
  | safetyNet
  | activate (uids : List String)

/-- The event that a section makes known. -/
def Task.change? : Task Obj -> Option (Change Obj)
  | .record change => some change
  | _ => none

/-- The object that a section delivers to the queue. -/
def Task.delivers? : Task Obj -> Option PodInfo
  | .arrive pod => some pod
  | .update pod => some pod
  | _ => none

namespace Dispatch

def new : Dispatch Obj P where
  world := .new
  threads := [[], [], []]
  cycle := none
  bindings := []
  arrived := []
  delivered := .empty

def spawn (d : Dispatch Obj P) (tasks : List (Task Obj)) : Dispatch Obj P :=
  { d with threads := d.threads ++ [tasks] }

/-- After what the thread has to do already. -/
def enqueue (d : Dispatch Obj P) (thread : Nat) (tasks : List (Task Obj)) : Dispatch Obj P :=
  match d.threads[thread]? with
  | none => d
  | some pending => { d with threads := d.threads.set thread (pending ++ tasks) }

/-- The next section of a thread, whose later ones are given. -/
def performTask (cfg : QueueConfig Obj) (d : Dispatch Obj P) (thread now : Nat) (task : Task Obj)
    (rest : List (Task Obj)) : Dispatch Obj P :=
  let effect := d.world.perform cfg now task
  let arrived := d.arrived ++ task.change?.toList
  { world := effect.world
    threads := d.threads.set thread (effect.next ++ rest)
    cycle :=
      match effect.popped with
      | some pod => some ⟨pod, arrived.length⟩
      | none => d.cycle
    bindings := d.bindings ++ effect.binding.toList
    arrived := arrived
    delivered :=
      match task.delivers? with
      | some pod => d.delivered.insert pod.uid pod
      | none => d.delivered }

/-- A step that is not possible leaves the state as it is. -/
def step (cfg : QueueConfig Obj) (profileNames : List String) (d : Dispatch Obj P) : Step Obj -> Dispatch Obj P
  | .run thread now =>
    match d.threads[thread]? with
    | some (task :: rest) => d.performTask cfg thread now task rest
    | _ => d
  | .pop =>
    match d.threads[0]?, d.cycle with
    | some [], none => { d with threads := d.threads.set 0 [.drainExpiredBackoff, .take] }
    | _, _ => d
  | .concludeCycle outcome =>
    match d.cycle with
    | none => d
    | some popped => { d with cycle := none }.enqueue 0 (outcome.tasks popped)
  | .concludeBinding binding outcome =>
    match d.bindings[binding]? with
    | none => d
    | some popped => { d with bindings := d.bindings.eraseIdx binding }.spawn (outcome.tasks popped)
  | .podEvent event => d.enqueue 1 (handlePodEvent profileNames event)
  | .nodeApplied node preserve change => d.enqueue 1 (.upsertNode node preserve :: changeTasks change)
  | .nodeDeleted name => d.enqueue 1 [.removeNode name]
  | .otherEvent change => d.enqueue 1 (moveAllToActiveOrBackoff change)
  | .safetyNet => d.enqueue 2 [.flushTimedOut]
  | .activate uids => d.spawn [.activate uids]

end Dispatch
end NotK8s.Scheduler

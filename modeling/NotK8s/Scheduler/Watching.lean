import Mathlib.Data.Prod.Lex
import NotK8s.Scheduler.Placement
import NotK8s.Scheduler.RelistSweep

namespace NotK8s.Scheduler
namespace Watching

open Library

/-!
# The scheduler's watches

Every resource the scheduler watches has a stream of its own with a sweep of
its own.  Most handlers put objects into a map of the cache.  Pods and nodes
are mirrored as well, since a sweep knows only their keys, and two kinds are
handed over as whole lists that are rebuilt from a mirror.  What the handlers
tell the queue is left out.
-/

inductive WorkloadKind where
  | svc
  | rs
  | sts
  | rc
  deriving DecidableEq

def WorkloadKind.tag : WorkloadKind -> String
  | .svc => "svc"
  | .rs => "rs"
  | .sts => "sts"
  | .rc => "rc"

inductive WatchKind where
  | object (kind : ObjectKind)
  | workload (kind : WorkloadKind)
  | storageCapacity
  | budget
  | node
  | pod
  deriving DecidableEq

/-- An object with what the scheduler keeps of it. -/
structure Listed (Payload : Type) where
  inNamespace : Option String
  name : String
  payload : Payload

/-- Every node of the API has a name. -/
structure NamedNode where
  node : ApiNode
  name : String
  named : node.name = some name

/-! ## Keys -/

namespace Listed

variable {Payload : Type}

def namespacedKey (object : Listed Payload) : String :=
  object.inNamespace.getD "" ++ "/" ++ object.name

def workloadKey (kind : WorkloadKind) (object : Listed Payload) : String :=
  kind.tag ++ "/" ++ object.namespacedKey

end Listed

def podKey (pod : PodInfo) : String :=
  pod.podNamespace ++ "/" ++ pod.name

/-! ## The handlers -/

section
variable {P : Payloads} {Budget : Type}

def handleCachedEvent (kind : ObjectKind) (keyOf : Listed (P.object kind) -> String) (event : WatchEvent (Listed (P.object kind)))
    (sweep : RelistSweep) (cache : Cache P) : RelistSweep × Cache P :=
  match event with
  | .init => (sweep.begin, cache)
  | .initDone => (sweep.finish.1, sweep.finish.2.foldl (fun cache key => cache.removeObject kind key) cache)
  | .initApply object | .apply object =>
    (sweep.observe (keyOf object), (cache.upsertObject kind (keyOf object) object.payload).2)
  | .delete object => (sweep.forget (keyOf object), cache.removeObject kind (keyOf object))

def handleNamespaceEvent := @handleCachedEvent P .namespaces Listed.name
def handlePvEvent := @handleCachedEvent P .pvs Listed.name
def handlePvcEvent := @handleCachedEvent P .pvcs Listed.namespacedKey
def handleStorageClassEvent := @handleCachedEvent P .storageClasses Listed.name
def handleCsiNodeEvent := @handleCachedEvent P .csiNodes Listed.name
def handleCsiDriverEvent := @handleCachedEvent P .csiDrivers Listed.name
def handleVolumeAttachmentEvent := @handleCachedEvent P .volumeAttachments Listed.name
def handleResourceClaimEvent := @handleCachedEvent P .resourceClaims Listed.namespacedKey
def handleDeviceClassEvent := @handleCachedEvent P .deviceClasses Listed.name
def handleResourceSliceEvent := @handleCachedEvent P .resourceSlices Listed.name

def handleObjectEvent : (kind : ObjectKind) -> WatchEvent (Listed (P.object kind)) -> RelistSweep -> Cache P ->
    RelistSweep × Cache P
  | .namespaces => handleNamespaceEvent
  | .pvs => handlePvEvent
  | .pvcs => handlePvcEvent
  | .storageClasses => handleStorageClassEvent
  | .csiNodes => handleCsiNodeEvent
  | .csiDrivers => handleCsiDriverEvent
  | .volumeAttachments => handleVolumeAttachmentEvent
  | .resourceClaims => handleResourceClaimEvent
  | .deviceClasses => handleDeviceClassEvent
  | .resourceSlices => handleResourceSliceEvent

/-- A workload that selects nothing is not kept. -/
def handleWorkloadEvent (kind : WorkloadKind) (event : WatchEvent (Listed (Option P.workload))) (sweep : RelistSweep)
    (cache : Cache P) : RelistSweep × Cache P :=
  match event with
  | .init => (sweep.begin, cache)
  | .initDone => (sweep.finish.1, sweep.finish.2.foldl Cache.removeWorkload cache)
  | .initApply object | .apply object =>
    let key := object.workloadKey kind
    (sweep.observe key,
      match object.payload with
      | some selector => cache.upsertWorkload key selector
      | none => cache.removeWorkload key)
  | .delete object => (sweep.forget (object.workloadKey kind), cache.removeWorkload (object.workloadKey kind))

abbrev CapacityMirror (P : Payloads) :=
  SortedMap String (Listed P.storageCapacity)

def rebuiltCapacities (mirror : CapacityMirror P) : List P.storageCapacity :=
  mirror.entries.map fun entry => entry.2.payload

/-- Nothing is handed over while a list is delivered. -/
def handleCsiStorageCapacityEvent (event : WatchEvent (Listed P.storageCapacity)) (mirror : CapacityMirror P)
    (sweep : RelistSweep) (cache : Cache P) : CapacityMirror P × RelistSweep × Cache P :=
  match event with
  | .init => (mirror, sweep.begin, cache)
  | .initDone =>
    let mirror := sweep.finish.2.foldl SortedMap.erase mirror
    (mirror, sweep.finish.1, cache.setStorageCapacities (rebuiltCapacities mirror))
  | .initApply capacity | .apply capacity =>
    let rebuild := !sweep.relisting
    let mirror := mirror.insert capacity.name capacity
    (mirror, sweep.observe capacity.name,
      if rebuild then cache.setStorageCapacities (rebuiltCapacities mirror) else cache)
  | .delete capacity =>
    let mirror := mirror.erase capacity.name
    (mirror, sweep.forget capacity.name, cache.setStorageCapacities (rebuiltCapacities mirror))

abbrev BudgetMirror (Budget : Type) :=
  SortedMap String (Listed Budget)

def rebuiltBudgets (mirror : BudgetMirror Budget) : List Budget :=
  mirror.entries.map fun entry => entry.2.payload

def handlePdbEvent (event : WatchEvent (Listed Budget)) (mirror : BudgetMirror Budget) (sweep : RelistSweep) :
    BudgetMirror Budget × RelistSweep × List Budget :=
  let (mirror, sweep) :=
    match event with
    | .init => (mirror, sweep.begin)
    | .initDone => (sweep.finish.2.foldl SortedMap.erase mirror, sweep.finish.1)
    | .initApply budget | .apply budget => (mirror.insert budget.namespacedKey budget, sweep.observe budget.namespacedKey)
    | .delete budget => (mirror.erase budget.namespacedKey, sweep.forget budget.namespacedKey)
  (mirror, sweep, rebuiltBudgets mirror)

abbrev NodeMirror :=
  SortedMap String NamedNode

def removeNode (held : NodeMirror × Cache P) (name : String) : NodeMirror × Cache P :=
  (held.1.erase name, held.2.removeNode name)

def handleNodeEvent (preserveExtenderObjects : Bool) (event : WatchEvent NamedNode) (mirror : NodeMirror) (sweep : RelistSweep)
    (cache : Cache P) : RelistSweep × NodeMirror × Cache P :=
  match event with
  | .init => (sweep.begin, mirror, cache)
  | .initDone => (sweep.finish.1, sweep.finish.2.foldl removeNode (mirror, cache))
  | .initApply node | .apply node =>
    (sweep.observe node.name, mirror.insert node.name node, cache.upsertNode node.node preserveExtenderObjects)
  | .delete node => (sweep.forget node.name, removeNode (mirror, cache) node.name)

abbrev PodMirror :=
  SortedMap String PodInfo

/-- A pod that names no node is not in the cache. -/
def removePod (cache : Cache P) (pod : PodInfo) : Cache P :=
  if pod.nodeName.isSome then cache.removePod pod.uid else cache

/-- What is left when a mirrored pod is gone. -/
def dropPod (held : PodMirror × Cache P) (key : String) : PodMirror × Cache P :=
  (held.1.erase key, (held.1.get key).elim held.2 (removePod held.2))

/-- A pod under the same name with another uid has replaced the old one. -/
def applyPod (cache : Cache P) (previous : Option PodInfo) (pod : PodInfo) : Cache P :=
  let cleared := (previous.filter fun old => old.uid != pod.uid).elim cache (removePod cache)
  if pod.nodeName.isSome then cleared.addPod pod else cleared

def staleDelete (held : Option PodInfo) (pod : PodInfo) : Bool :=
  held.any fun current => current.uid != pod.uid

def handlePodEvent (event : WatchEvent PodInfo) (mirror : PodMirror) (sweep : RelistSweep) (cache : Cache P) :
    RelistSweep × PodMirror × Cache P :=
  match event with
  | .init => (sweep.begin, mirror, cache)
  | .initDone => (sweep.finish.1, sweep.finish.2.foldl dropPod (mirror, cache))
  | .initApply pod | .apply pod =>
    (sweep.observe (podKey pod), mirror.insert (podKey pod) pod, applyPod cache (mirror.get (podKey pod)) pod)
  | .delete pod =>
    if staleDelete (mirror.get (podKey pod)) pod then (sweep, mirror, removePod cache pod)
    else (sweep.forget (podKey pod), mirror.erase (podKey pod), removePod cache pod)

end

/-! ## What the watches deliver -/

abbrev Identity :=
  String ×ₗ String

@[reducible] def Watched (P : Payloads) (Budget : Type) : WatchKind -> Type
  | .object kind => Listed (P.object kind)
  | .workload _ => Listed (Option P.workload)
  | .storageCapacity => Listed P.storageCapacity
  | .budget => Listed Budget
  | .node => NamedNode
  | .pod => PodInfo

/-- What the cache or a mirror has under a key. -/
@[reducible] def Shown (P : Payloads) (Budget : Type) : WatchKind -> Type
  | .object kind => P.object kind
  | .workload _ => P.workload
  | .storageCapacity => Listed P.storageCapacity
  | .budget => Listed Budget
  | .node => NamedNode
  | .pod => PodInfo

/-- Claims of volumes and of devices are the only kinds among these that live
in namespaces. -/
def namespaced : ObjectKind -> Bool
  | .pvcs | .resourceClaims => true
  | _ => false

def keyOf {Payload : Type} (kind : ObjectKind) (object : Listed Payload) : String :=
  if namespaced kind then object.namespacedKey else object.name

namespace Listed

variable {Payload : Type}

/-- Namespace and name tell objects apart. -/
def identity (object : Listed Payload) : Identity :=
  toLex (object.inNamespace.getD "", object.name)

def clusterIdentity (object : Listed Payload) : Identity :=
  toLex ("", object.name)

theorem namespacedKey_of_identity {object other : Listed Payload} (same : object.identity = other.identity) :
    object.namespacedKey = other.namespacedKey := by
  have parts := Prod.mk.inj (toLex.injective same)
  unfold namespacedKey
  rw [parts.1, parts.2]

end Listed

/-- Each watch with the key its handler uses. -/
def watch (P : Payloads) (Budget : Type) : (kind : WatchKind) -> Watch Identity (Watched P Budget kind) (Shown P Budget kind)
  | .object kind =>
    { identity := fun object : Listed (P.object kind) => if namespaced kind then object.identity else object.clusterIdentity
      key := fun object : Listed (P.object kind) => keyOf kind object
      project := fun object : Listed (P.object kind) => some object.payload
      determined := by
        intro object other same
        unfold keyOf
        cases scope : namespaced kind with
        | true =>
          rw [scope] at same
          exact Listed.namespacedKey_of_identity same
        | false =>
          rw [scope] at same
          exact (Prod.mk.inj (toLex.injective same)).2 }
  | .workload kind =>
    { identity := fun object : Listed (Option P.workload) => object.identity
      key := fun object : Listed (Option P.workload) => object.workloadKey kind
      project := fun object : Listed (Option P.workload) => object.payload
      determined := by
        intro object other same
        exact congrArg (fun key => kind.tag ++ "/" ++ key) (Listed.namespacedKey_of_identity same) }
  | .storageCapacity =>
    { identity := fun capacity : Listed P.storageCapacity => capacity.identity
      key := fun capacity : Listed P.storageCapacity => capacity.name
      project := fun capacity : Listed P.storageCapacity => some capacity
      determined := by
        intro capacity other same
        exact (Prod.mk.inj (toLex.injective same)).2 }
  | .budget =>
    { identity := fun budget : Listed Budget => budget.identity
      key := fun budget : Listed Budget => budget.namespacedKey
      project := fun budget : Listed Budget => some budget
      determined := Listed.namespacedKey_of_identity }
  | .node =>
    { identity := fun node : NamedNode => toLex ("", node.name)
      key := NamedNode.name
      project := fun node : NamedNode => some node
      determined := by
        intro node other same
        exact (Prod.mk.inj (toLex.injective same)).2 }
  | .pod =>
    { identity := fun pod : PodInfo => toLex (pod.podNamespace, pod.name)
      key := podKey
      project := fun pod : PodInfo => some pod
      determined := by
        intro pod other same
        have parts := Prod.mk.inj (toLex.injective same)
        unfold podKey
        rw [parts.1, parts.2] }

/-- A notification of one of the watches. -/
structure Notification (P : Payloads) (Budget : Type) where
  kind : WatchKind
  event : WatchEvent (Watched P Budget kind)

/-- What the watches keep and write.  What each watcher has reported is kept
for the statements only. -/
structure WatchState (P : Payloads) (Budget : Type) where
  preserveExtenderObjects : Bool
  cache : Cache P
  budgets : List Budget
  nodes : NodeMirror
  pods : PodMirror
  capacities : CapacityMirror P
  pdbs : BudgetMirror Budget
  sweeps : WatchKind -> RelistSweep
  lists : (kind : WatchKind) -> Reflected Identity (Watched P Budget kind)

variable {P : Payloads} {Budget : Type}

/-- A deletion of an older pod of the same name says nothing about the newer
one. -/
def reported : (kind : WatchKind) -> Reflected Identity (Watched P Budget kind) -> WatchEvent (Watched P Budget kind) ->
    Reflected Identity (Watched P Budget kind)
  | .pod, lists, .delete pod =>
    if staleDelete (lists.complete.bind fun complete => complete.get ((watch P Budget .pod).identity pod)) pod then lists
    else lists.reflect (watch P Budget .pod).identity (.delete pod)
  | kind, lists, event => lists.reflect (watch P Budget kind).identity event

namespace WatchState

def new (preserveExtenderObjects : Bool) : WatchState P Budget where
  preserveExtenderObjects := preserveExtenderObjects
  cache := .new
  budgets := []
  nodes := .empty
  pods := .empty
  capacities := .empty
  pdbs := .empty
  sweeps _ := .default
  lists _ := .new

/-- What the handler of the watch does. -/
def handle (s : WatchState P Budget) : (kind : WatchKind) -> WatchEvent (Watched P Budget kind) -> WatchState P Budget
  | .object kind, event =>
    let (sweep, cache) := handleObjectEvent kind event (s.sweeps (.object kind)) s.cache
    { s with sweeps := Function.update s.sweeps (.object kind) sweep, cache := cache }
  | .workload kind, event =>
    let (sweep, cache) := handleWorkloadEvent kind event (s.sweeps (.workload kind)) s.cache
    { s with sweeps := Function.update s.sweeps (.workload kind) sweep, cache := cache }
  | .storageCapacity, event =>
    let (capacities, sweep, cache) := handleCsiStorageCapacityEvent event s.capacities (s.sweeps .storageCapacity) s.cache
    { s with sweeps := Function.update s.sweeps .storageCapacity sweep, cache := cache, capacities := capacities }
  | .budget, event =>
    let (pdbs, sweep, budgets) := handlePdbEvent event s.pdbs (s.sweeps .budget)
    { s with sweeps := Function.update s.sweeps .budget sweep, pdbs := pdbs, budgets := budgets }
  | .node, event =>
    let (sweep, nodes, cache) := handleNodeEvent s.preserveExtenderObjects event s.nodes (s.sweeps .node) s.cache
    { s with sweeps := Function.update s.sweeps .node sweep, nodes := nodes, cache := cache }
  | .pod, event =>
    let (sweep, pods, cache) := handlePodEvent event s.pods (s.sweeps .pod) s.cache
    { s with sweeps := Function.update s.sweeps .pod sweep, pods := pods, cache := cache }

def step (s : WatchState P Budget) (n : Notification P Budget) : WatchState P Budget :=
  { s.handle n.kind n.event with
    lists := Function.update s.lists n.kind (reported n.kind (s.lists n.kind) n.event) }

/-- What is kept under the keys of a watch. -/
def view (s : WatchState P Budget) : (kind : WatchKind) -> String -> Option (Shown P Budget kind)
  | .object kind, key => (s.cache.objects kind).get key
  | .workload kind, key =>
    if (kind.tag.toList ++ ['/']).isPrefixOf key.toList then s.cache.workloadSelectors.get key else none
  | .storageCapacity, key => s.capacities.get key
  | .budget, key => s.pdbs.get key
  | .node, key => s.nodes.get key
  | .pod, key => s.pods.get key

end WatchState
end Watching
end NotK8s.Scheduler

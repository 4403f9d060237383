import NotK8s.Scheduler.NodeInfo

namespace NotK8s.Scheduler

open Library

/-!
# The scheduler cache

The cluster as the scheduler's watches have delivered it.  Every mutation
moves the generation, and a node it touches goes to the front of the list of
names, most recently modified first.  The objects that are copied wholesale
into a snapshot are kept by kind, with their payloads as parameters.
-/

/-- The kinds of object that are kept by key and not otherwise looked at. -/
inductive ObjectKind where
  | namespaces
  | pvs
  | pvcs
  | storageClasses
  | csiNodes
  | csiDrivers
  | volumeAttachments
  | resourceClaims
  | deviceClasses
  | resourceSlices
  deriving DecidableEq

structure Payloads where
  object : ObjectKind -> Type
  workload : Type
  storageCapacity : Type

structure Cache (P : Payloads) where
  nodes : SortedMap String NodeInfo
  mru : List String
  generation : Nat
  podLocations : SortedMap String String
  objects : (kind : ObjectKind) -> SortedMap String (P.object kind)
  workloadSelectors : SortedMap String P.workload
  storageCapacities : List P.storageCapacity
  imageNodeCounts : SortedMap String Int

variable {P : Payloads}

namespace Cache

def new : Cache P where
  nodes := .empty
  mru := []
  generation := 0
  podLocations := .empty
  objects _ := .empty
  workloadSelectors := .empty
  storageCapacities := []
  imageNodeCounts := .empty

def bumped (c : Cache P) : Cache P :=
  { c with generation := c.generation + 1 }

/-- Moves a name to the front. -/
def touch (c : Cache P) (name : String) : Cache P :=
  { c with mru := name :: c.mru.erase name }

/-- Writes a node and moves it to the front. -/
def store (c : Cache P) (name : String) (info : NodeInfo) : Cache P :=
  { c with nodes := c.nodes.insert name info }.touch name

/-- One node fewer has the image. -/
def forgetImage (counts : SortedMap String Int) (image : String) : SortedMap String Int :=
  match counts.get image with
  | none => counts
  | some count => if count - 1 = 0 then counts.erase image else counts.insert image (count - 1)

def countImage (counts : SortedMap String Int) (image : String) : SortedMap String Int :=
  counts.insert image ((counts.get image).getD 0 + 1)

def upsertNode (c : Cache P) (node : ApiNode) (preserveApiObject : Bool) : Cache P :=
  match node.name with
  | none => c
  | some name =>
    let c := c.bumped
    let previous := (c.nodes.get name).getD .default
    let updated := previous.updateFromNode node c.generation
    let previousImages := previous.images.entries.map Prod.fst
    let nextImages := updated.images.entries.map Prod.fst
    let counts :=
      if previousImages = nextImages then c.imageNodeCounts
      else nextImages.foldl countImage (previousImages.foldl forgetImage c.imageNodeCounts)
    { c with imageNodeCounts := counts }.store name
      { updated with apiObject := if preserveApiObject then some node else none }

/-- The pods of the node go with it. -/
def removeNode (c : Cache P) (name : String) : Cache P :=
  let dropped :=
    match c.nodes.get name with
    | none => c
    | some node => { c with
        nodes := c.nodes.erase name
        imageNodeCounts := (node.images.entries.map Prod.fst).foldl forgetImage c.imageNodeCounts
        podLocations := node.pods.foldl (fun locations (pod : PodInfo) => locations.erase pod.uid) c.podLocations }
  { dropped with mru := dropped.mru.filter fun held => held ≠ name }.bumped

theorem removeNode_get {c : Cache P} {name other : String} :
    (c.removeNode name).nodes.get other = if other = name then none else c.nodes.get other := by
  unfold removeNode
  cases found : c.nodes.get name with
  | none =>
    change c.nodes.get other = _
    split_ifs with same
    · rw [same, found]
    · rfl
  | some info => exact SortedMap.get_erase

/-- The generation moves even when the node is unknown. -/
def removePodFrom (c : Cache P) (name uid : String) : Cache P :=
  let c := c.bumped
  match c.nodes.get name with
  | none => c
  | some info => c.store name (info.removePod uid c.generation)

def removePod (c : Cache P) (uid : String) : Cache P :=
  match c.podLocations.get uid with
  | none => c
  | some name => { c with podLocations := c.podLocations.erase uid }.removePodFrom name uid

/-- Takes the pod off the node it is recorded on, when it names another. -/
def releaseMoved (c : Cache P) (uid name : String) : Cache P :=
  match c.podLocations.get uid with
  | none => c
  | some old => if old ≠ name then c.removePodFrom old uid else c

/-- A pod whose node is unknown is dropped. -/
def addPod (c : Cache P) (pod : PodInfo) : Cache P :=
  match pod.nodeName with
  | none => c
  | some name =>
    let c := (c.releaseMoved pod.uid name).bumped
    match c.nodes.get name with
    | none => c
    | some info =>
      { c with podLocations := c.podLocations.insert pod.uid name }.store name
        (info.addPod pod c.generation)

/-- Says whether the key is new. -/
def upsertObject (c : Cache P) (kind : ObjectKind) (key : String) (object : P.object kind) : Bool × Cache P :=
  (((c.objects kind).get key).isNone,
    { c with objects := Function.update c.objects kind ((c.objects kind).insert key object) }.bumped)

def removeObject (c : Cache P) (kind : ObjectKind) (key : String) : Cache P :=
  { c with objects := Function.update c.objects kind ((c.objects kind).erase key) }.bumped

def upsertNamespace (c : Cache P) := c.upsertObject .namespaces
def removeNamespace (c : Cache P) := c.removeObject .namespaces
def upsertPv (c : Cache P) := c.upsertObject .pvs
def removePv (c : Cache P) := c.removeObject .pvs
def upsertPvc (c : Cache P) := c.upsertObject .pvcs
def removePvc (c : Cache P) := c.removeObject .pvcs
def upsertStorageClass (c : Cache P) := c.upsertObject .storageClasses
def removeStorageClass (c : Cache P) := c.removeObject .storageClasses
def upsertCsiNode (c : Cache P) := c.upsertObject .csiNodes
def removeCsiNode (c : Cache P) := c.removeObject .csiNodes
def upsertCsiDriver (c : Cache P) := c.upsertObject .csiDrivers
def removeCsiDriver (c : Cache P) := c.removeObject .csiDrivers
def upsertVolumeAttachment (c : Cache P) := c.upsertObject .volumeAttachments
def removeVolumeAttachment (c : Cache P) := c.removeObject .volumeAttachments
def upsertResourceClaim (c : Cache P) := c.upsertObject .resourceClaims
def removeResourceClaim (c : Cache P) := c.removeObject .resourceClaims
def upsertDeviceClass (c : Cache P) := c.upsertObject .deviceClasses
def removeDeviceClass (c : Cache P) := c.removeObject .deviceClasses
def upsertResourceSlice (c : Cache P) := c.upsertObject .resourceSlices
def removeResourceSlice (c : Cache P) := c.removeObject .resourceSlices

def upsertWorkload (c : Cache P) (key : String) (workload : P.workload) : Cache P :=
  { c with workloadSelectors := c.workloadSelectors.insert key workload }.bumped

def removeWorkload (c : Cache P) (key : String) : Cache P :=
  { c with workloadSelectors := c.workloadSelectors.erase key }.bumped

def setStorageCapacities (c : Cache P) (capacities : List P.storageCapacity) : Cache P :=
  { c with storageCapacities := capacities }.bumped

end Cache

/-- Everything that is done to the cache. -/
inductive Mutation (P : Payloads) where
  | upsertNode (node : ApiNode) (preserveApiObject : Bool)
  | removeNode (name : String)
  | addPod (pod : PodInfo)
  | removePod (uid : String)
  | upsertObject (kind : ObjectKind) (key : String) (object : P.object kind)
  | removeObject (kind : ObjectKind) (key : String)
  | upsertWorkload (key : String) (workload : P.workload)
  | removeWorkload (key : String)
  | setStorageCapacities (capacities : List P.storageCapacity)

def Cache.mutate (c : Cache P) : Mutation P -> Cache P
  | .upsertNode node preserveApiObject => c.upsertNode node preserveApiObject
  | .removeNode name => c.removeNode name
  | .addPod pod => c.addPod pod
  | .removePod uid => c.removePod uid
  | .upsertObject kind key object => (c.upsertObject kind key object).2
  | .removeObject kind key => c.removeObject kind key
  | .upsertWorkload key workload => c.upsertWorkload key workload
  | .removeWorkload key => c.removeWorkload key
  | .setStorageCapacities capacities => c.setStorageCapacities capacities

end NotK8s.Scheduler

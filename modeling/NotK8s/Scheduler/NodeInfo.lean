import NotK8s.Scheduler.Resources

namespace NotK8s.Scheduler

open Library

/-!
# The scheduler's view of a pod

The projection of an API pod that the queue and the cache keep.  The time of
queueing and the count of attempts belong to the queue, everything else comes
from the API object.
-/

structure HostPort where
  protocol : String
  ip : String
  port : Int
  deriving DecidableEq

structure PodAffinityTerm where
  topologyKey : String
  namespaces : List String
  deriving DecidableEq

/-- Affinity and anti-affinity have the same shape. -/
structure PodAffinity where
  requiredDuringSchedulingIgnoredDuringExecution : Option (List PodAffinityTerm)
  deriving DecidableEq

structure Affinity where
  podAffinity : Option PodAffinity
  podAntiAffinity : Option PodAffinity
  deriving DecidableEq

structure PodInfo where
  podNamespace : String
  name : String
  uid : String
  nodeName : Option String
  schedulerName : String
  priority : Int
  affinity : Option Affinity
  schedulingGates : List String
  hostPorts : List HostPort
  requests : Resources
  nominatedNodeName : Option String
  deleting : Bool
  queuedAt : Int
  attempts : Nat
  deriving DecidableEq

/-- Processor time that scoring substitutes for a pod that asks for none. -/
def defaultMilliCpuRequest : I64 :=
  .saturate 100

/-- Memory that scoring substitutes for a pod that asks for none. -/
def defaultMemoryRequest : I64 :=
  .saturate (200 * 1024 * 1024)

namespace PodInfo

def nonZeroRequests (pod : PodInfo) : Resources :=
  { pod.requests with
    milliCpu := if pod.requests.milliCpu = 0 then defaultMilliCpuRequest else pod.requests.milliCpu
    memory := if pod.requests.memory = 0 then defaultMemoryRequest else pod.requests.memory }

def hasAffinity (pod : PodInfo) : Bool :=
  match pod.affinity with
  | none => false
  | some affinity => affinity.podAffinity.isSome || affinity.podAntiAffinity.isSome

def hasRequiredAntiAffinity (pod : PodInfo) : Bool :=
  match pod.affinity.bind fun affinity => affinity.podAntiAffinity.bind
      fun anti => anti.requiredDuringSchedulingIgnoredDuringExecution with
  | none => false
  | some terms => !terms.isEmpty

end PodInfo

/-!
# A node and what is committed to it

A node's totals are not recomputed from its pods.  They are adjusted whenever
a pod is added or removed, so they are right only as long as each removal
gives back what the addition took.
-/

structure Taint where
  key : String
  value : Option String
  effect : String
  deriving DecidableEq

structure NodeStatus where
  allocatable : Option (SortedMap String String)
  conditions : List (String × String)
  /-- The names of each image, and its size. -/
  images : List (List String × Option Int)
  deriving DecidableEq

/-- What the node watch delivers. -/
structure ApiNode where
  name : Option String
  labels : SortedMap String String
  taints : List Taint
  unschedulable : Bool
  status : Option NodeStatus
  deriving DecidableEq

structure NodeInfo where
  apiObject : Option ApiNode
  name : String
  labels : SortedMap String String
  taints : List Taint
  unschedulable : Bool
  conditions : SortedMap String String
  allocatable : Resources
  requested : Resources
  nonZeroRequested : Resources
  allocatablePods : I64
  usedPorts : List HostPort
  images : SortedMap String Int
  pods : List PodInfo
  podsWithAffinity : List PodInfo
  podsWithRequiredAntiAffinity : List PodInfo
  generation : Nat
  deriving DecidableEq

namespace NodeInfo

def default : NodeInfo where
  apiObject := none
  name := ""
  labels := .empty
  taints := []
  unschedulable := false
  conditions := .empty
  allocatable := .zero
  requested := .zero
  nonZeroRequested := .zero
  allocatablePods := 0
  usedPorts := []
  images := .empty
  pods := []
  podsWithAffinity := []
  podsWithRequiredAntiAffinity := []
  generation := 0

/-- Projects an API node and leaves everything that comes from pods alone. -/
def updateFromNode (info : NodeInfo) (node : ApiNode) (generation : Nat) : NodeInfo :=
  let projected := { info with
    name := node.name.getD ""
    labels := node.labels
    taints := node.taints
    unschedulable := node.unschedulable
    generation := generation }
  match node.status with
  | none => projected
  | some status =>
    let listed := { projected with
      conditions := .ofList status.conditions
      images := .ofList (status.images.flatMap fun image => image.1.map fun name => (name, image.2.getD 0)) }
    match status.allocatable with
    | none => listed
    | some allocatable => { listed with
        allocatable := .fromQuantities allocatable
        allocatablePods := match allocatable.get "pods" with
          | some text => parseQuantity text
          | none => 0 }

/-- Takes the first pod with the uid off the node. -/
def removePod (info : NodeInfo) (uid : String) (generation : Nat) : NodeInfo :=
  match info.pods.find? fun pod => pod.uid = uid with
  | none => info
  | some pod => { info with
      pods := info.pods.eraseP fun pod => pod.uid = uid
      requested := info.requested.sub pod.requests
      nonZeroRequested := info.nonZeroRequested.sub pod.nonZeroRequests
      usedPorts := pod.hostPorts.foldl List.erase info.usedPorts
      podsWithAffinity := info.podsWithAffinity.filter fun pod => pod.uid ≠ uid
      podsWithRequiredAntiAffinity := info.podsWithRequiredAntiAffinity.filter fun pod => pod.uid ≠ uid
      generation := generation }

/-- Commits a pod.  A pod that is here already is replaced. -/
def addPod (info : NodeInfo) (pod : PodInfo) (generation : Nat) : NodeInfo :=
  let cleared := if info.pods.any fun held => held.uid = pod.uid then info.removePod pod.uid generation else info
  { cleared with
    requested := cleared.requested.add pod.requests
    nonZeroRequested := cleared.nonZeroRequested.add pod.nonZeroRequests
    usedPorts := cleared.usedPorts ++ pod.hostPorts
    podsWithAffinity := if pod.hasAffinity then cleared.podsWithAffinity ++ [pod] else cleared.podsWithAffinity
    podsWithRequiredAntiAffinity :=
      if pod.hasRequiredAntiAffinity then cleared.podsWithRequiredAntiAffinity ++ [pod]
      else cleared.podsWithRequiredAntiAffinity
    pods := cleared.pods ++ [pod]
    generation := generation }

variable {info : NodeInfo} {node : ApiNode} {pod : PodInfo} {uid : String} {generation : Nat}

theorem updateFromNode_spec : (info.updateFromNode node generation).name = node.name.getD "" ∧
    (info.updateFromNode node generation).generation = generation ∧
    (info.updateFromNode node generation).pods = info.pods ∧
    (info.updateFromNode node generation).requested = info.requested ∧
    (info.updateFromNode node generation).nonZeroRequested = info.nonZeroRequested ∧
    (info.updateFromNode node generation).usedPorts = info.usedPorts := by
  unfold updateFromNode
  cases node.status with
  | none => exact ⟨rfl, rfl, rfl, rfl, rfl, rfl⟩
  | some status =>
    cases shown : status.allocatable with
    | none | some allocatable =>
      dsimp only
      rw [shown]
      exact ⟨rfl, rfl, rfl, rfl, rfl, rfl⟩

theorem removePod_name : (info.removePod uid generation).name = info.name := by
  unfold removePod
  split <;> rfl

theorem removePod_generation (present : Exists fun pod => pod ∈ info.pods ∧ pod.uid = uid) :
    (info.removePod uid generation).generation = generation := by
  unfold removePod
  split
  · rename_i missing
    rcases present with ⟨pod, listed, same⟩
    exact absurd same (by simpa using List.find?_eq_none.mp missing pod listed)
  · rfl

theorem addPod_name : (info.addPod pod generation).name = info.name := by
  unfold addPod
  dsimp only
  split_ifs
  · exact removePod_name
  · rfl

end NodeInfo
end NotK8s.Scheduler

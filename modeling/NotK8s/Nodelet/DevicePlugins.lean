import Mathlib.Data.List.Basic
import Mathlib.Logic.Function.Basic

namespace NotK8s.Nodelet

/-!
# Device plugins

What the node knows of the devices of each registered plugin, and which of
them are given out.  The set of the allocated devices is part of the record
of the registration.
-/

structure DeviceInfo where
  id : String
  healthy : Bool
  numaNode : Option Nat
  deriving DecidableEq

structure PluginState where
  endpoint : String
  devices : List DeviceInfo
  allocated : List String
  preStartRequired : Bool
  getPreferredAllocationAvailable : Bool
  deriving DecidableEq

def freeDevices (devices : List DeviceInfo) (allocated : List String) : List DeviceInfo :=
  devices.filter fun d => d.healthy && !allocated.contains d.id

/-- Take free devices until there are `count`. -/
def topUp (count : Nat) : List String -> List DeviceInfo -> List String
  | picked, [] => picked
  | picked, d :: rest =>
    if picked.length ≥ count then picked
    else topUp count (if picked.contains d.id then picked else picked ++ [d.id]) rest

/-- The free devices of the preferred NUMA node, at most `count` of them. -/
def pickOnNode (free : List DeviceInfo) (count : Nat) : Option Nat -> List String
  | some node => ((free.filter fun d => d.numaNode.all fun n => n = node).take count).map DeviceInfo.id
  | none => []

/-- The first `count` healthy devices that are not allocated, those of the
preferred NUMA node first. -/
def pickDevicesPreferring (devices : List DeviceInfo) (allocated : List String) (count : Nat)
    (preferredNumaNode : Option Nat) : Option (List String) :=
  let free := freeDevices devices allocated
  let picked := pickOnNode free count preferredNumaNode
  let picked := if picked.length < count then topUp count picked free else picked
  if picked.length ≥ count then some picked else none

/-- What a plugin prefers is used only if it is `count` different devices,
each of them healthy and not allocated. -/
def isValidPreferredAllocation (ids : List String) (devices : List DeviceInfo) (allocated : List String)
    (count : Nat) : Bool :=
  if ids.length ≠ count then false
  else if ids.dedup.length ≠ ids.length then false
  else ids.all fun id => (devices.any fun d => d.id = id && d.healthy) && !allocated.contains id

/-- The devices a reservation takes, if it finds enough. -/
def choose (state : PluginState) (preferred : Option (List String)) (count : Nat) (preferredNumaNode : Option Nat) :
    Option (List String) :=
  match preferred with
  | some ids =>
    if isValidPreferredAllocation ids state.devices state.allocated count then some ids
    else pickDevicesPreferring state.devices state.allocated count preferredNumaNode
  | none => pickDevicesPreferring state.devices state.allocated count preferredNumaNode

/-- The checkpoint of a container's allocation on the disk. -/
structure DeviceAllocMeta where
  resourceName : String
  deviceIds : List String
  podKey : String
  deriving DecidableEq

structure DevicePlugins where
  plugins : String -> Option PluginState
  owners : String × String -> Option String
  /-- The pods that the status channel was poked with. -/
  notified : List String

namespace DevicePlugins

def new : DevicePlugins where
  plugins := fun _ => none
  owners := fun _ => none
  notified := []

/-- The devices of a resource that the manager has marked as allocated. -/
def allocatedOf (m : DevicePlugins) (resourceName : String) : List String :=
  ((m.plugins resourceName).map PluginState.allocated).getD []

/-- Change the record of a resource, if there is one. -/
def modify (m : DevicePlugins) (resourceName : String) (change : PluginState -> PluginState) : DevicePlugins :=
  { m with plugins := Function.update m.plugins resourceName ((m.plugins resourceName).map change) }

/-- The first step of a registration: a new record. -/
def register (m : DevicePlugins) (resourceName endpoint : String) : DevicePlugins :=
  let state : PluginState :=
    { endpoint := endpoint, devices := [], allocated := [], preStartRequired := false,
      getPreferredAllocationAvailable := false }
  { m with plugins := Function.update m.plugins resourceName (some state) }

/-- Mark devices as allocated. -/
def markAllocated (m : DevicePlugins) (resourceName : String) (deviceIds : List String) : DevicePlugins :=
  m.modify resourceName fun state => { state with allocated := state.allocated ++ deviceIds }

def recordOwner (m : DevicePlugins) (resourceName : String) (deviceIds : List String) (podKey : String) :
    DevicePlugins :=
  { m with
    owners := fun device =>
      if device.1 = resourceName && deviceIds.contains device.2 then some podKey else m.owners device }

def deregister (m : DevicePlugins) (resourceName : String) : DevicePlugins :=
  { m with plugins := Function.update m.plugins resourceName none }

/-- The owners of the devices whose health differs from what was known. -/
def changedOwners (m : DevicePlugins) (resourceName : String) (old newDevices : List DeviceInfo) : List String :=
  (newDevices.filter fun d => old.any fun known => known.id = d.id && known.healthy != d.healthy).filterMap
    fun d => m.owners (resourceName, d.id)

/-- A new inventory, unless the watcher's registration is no longer the
current one. -/
def updateDevices (m : DevicePlugins) (resourceName endpoint : String) (newDevices : List DeviceInfo) :
    DevicePlugins :=
  match m.plugins resourceName with
  | some state =>
    if state.endpoint = endpoint then
      let updated := m.modify resourceName fun state => { state with devices := newDevices }
      { updated with notified := m.notified ++ m.changedOwners resourceName state.devices newDevices }
    else m
  | none => m

def setOptions (m : DevicePlugins) (resourceName endpoint : String)
    (preStartRequired getPreferredAllocationAvailable : Bool) : DevicePlugins :=
  match m.plugins resourceName with
  | some state =>
    if state.endpoint = endpoint then
      m.modify resourceName fun state =>
        { state with
          preStartRequired := preStartRequired
          getPreferredAllocationAvailable := getPreferredAllocationAvailable }
    else m
  | none => m

/-- Choose devices and mark them, under one lock. -/
def reserve (m : DevicePlugins) (resourceName : String) (preferred : Option (List String)) (count : Nat)
    (preferredNumaNode : Option Nat) : Option (List String × DevicePlugins) := do
  let state ← m.plugins resourceName
  let picked ← choose state preferred count preferredNumaNode
  some (picked, m.markAllocated resourceName picked)

/-- The first half of a release: the devices are free again. -/
def release (m : DevicePlugins) (resourceName : String) (deviceIds : List String) : DevicePlugins :=
  m.modify resourceName fun state =>
    { state with allocated := state.allocated.filter fun id => !deviceIds.contains id }

/-- The second half of a release. -/
def forgetOwners (m : DevicePlugins) (resourceName : String) (deviceIds : List String) : DevicePlugins :=
  { m with
    owners := fun device => if device.1 = resourceName && deviceIds.contains device.2 then none else m.owners device }

end DevicePlugins

/-! ## What is picked -/

section
variable {devices : List DeviceInfo} {allocated : List String} {count : Nat}

/-- A device that may be given out. -/
def Free (devices : List DeviceInfo) (allocated : List String) (id : String) : Prop :=
  (Exists fun d : DeviceInfo => d ∈ devices ∧ d.id = id ∧ d.healthy = true) ∧ id ∉ allocated

theorem free_of_mem {d : DeviceInfo} (member : d ∈ freeDevices devices allocated) : Free devices allocated d.id := by
  have parts := List.mem_filter.mp member
  simp only [Bool.and_eq_true, Bool.not_eq_true', List.contains_eq_mem, decide_eq_false_iff_not] at parts
  exact ⟨⟨d, parts.1, rfl, parts.2.1⟩, parts.2.2⟩

theorem mem_topUp {picked : List String} {pool : List DeviceInfo} {id : String} (member : id ∈ topUp count picked pool) :
    id ∈ picked ∨ id ∈ pool.map DeviceInfo.id := by
  induction pool generalizing picked with
  | nil => exact Or.inl member
  | cons d rest ih =>
    rw [topUp] at member
    split_ifs at member with enough known
    · exact Or.inl member
    · rcases ih member with old | later
      · exact Or.inl old
      · exact Or.inr (.tail _ later)
    · rcases ih member with old | later
      · rcases List.mem_append.mp old with before | new
        · exact Or.inl before
        · rw [List.mem_singleton.mp new]
          exact Or.inr (.head _)
      · exact Or.inr (.tail _ later)

theorem mem_pickOnNode {free : List DeviceInfo} {preferredNumaNode : Option Nat} {id : String}
    (member : id ∈ pickOnNode free count preferredNumaNode) : id ∈ free.map DeviceInfo.id := by
  cases preferredNumaNode with
  | none => simp [pickOnNode] at member
  | some node =>
    rcases List.mem_map.mp member with ⟨d, taken, same⟩
    exact List.mem_map.mpr ⟨d, List.mem_of_mem_filter (List.mem_of_mem_take taken), same⟩

theorem free_of_picked {preferredNumaNode : Option Nat} {picked : List String} {id : String}
    (picks : pickDevicesPreferring devices allocated count preferredNumaNode = some picked) (member : id ∈ picked) :
    Free devices allocated id := by
  have named : id ∈ (freeDevices devices allocated).map DeviceInfo.id := by
    simp only [pickDevicesPreferring] at picks
    by_cases short : (pickOnNode (freeDevices devices allocated) count preferredNumaNode).length < count
    · split_ifs at picks
      cases picks
      rcases mem_topUp member with old | new
      · exact mem_pickOnNode old
      · exact new
    · split_ifs at picks
      cases picks
      exact mem_pickOnNode member
  rcases List.mem_map.mp named with ⟨d, inPool, same⟩
  rw [← same]
  exact free_of_mem inPool

theorem free_of_valid {ids : List String} {id : String}
    (valid : isValidPreferredAllocation ids devices allocated count = true) (member : id ∈ ids) :
    Free devices allocated id := by
  unfold isValidPreferredAllocation at valid
  split_ifs at valid
  have each := List.all_eq_true.mp valid id member
  simp only [Bool.and_eq_true, List.any_eq_true, decide_eq_true_eq, Bool.not_eq_true', List.contains_eq_mem,
    decide_eq_false_iff_not] at each
  rcases each with ⟨⟨d, listed, same, healthy⟩, unallocated⟩
  exact ⟨⟨d, listed, same, healthy⟩, unallocated⟩

theorem free_of_chosen {state : PluginState} {preferred : Option (List String)} {preferredNumaNode : Option Nat}
    {picked : List String} {id : String} (chosen : choose state preferred count preferredNumaNode = some picked)
    (member : id ∈ picked) : Free state.devices state.allocated id := by
  unfold choose at chosen
  cases preferred with
  | none => exact free_of_picked chosen member
  | some ids =>
    dsimp only at chosen
    split_ifs at chosen with valid
    · cases chosen
      exact free_of_valid valid member
    · exact free_of_picked chosen member

end

namespace DevicePlugins
variable {m m' : DevicePlugins} {resourceName other : String}

theorem allocatedOf_modify (m : DevicePlugins) (resourceName other : String) (change : PluginState -> PluginState) :
    (m.modify resourceName change).allocatedOf other =
      if other = resourceName then ((m.plugins resourceName).map fun state => (change state).allocated).getD []
      else m.allocatedOf other := by
  unfold allocatedOf modify
  by_cases same : other = resourceName
  · subst same
    simp [Option.map_map, Function.comp_def]
  · simp [same]

theorem allocatedOf_modify_same {change : PluginState -> PluginState}
    (leaves : forall state, (change state).allocated = state.allocated) :
    (m.modify resourceName change).allocatedOf other = m.allocatedOf other := by
  rw [allocatedOf_modify]
  by_cases same : other = resourceName
  · subst same
    simp [leaves, allocatedOf]
  · simp [same]

theorem mem_allocatedOf_markAllocated {deviceIds : List String} {id : String} :
    id ∈ (m.markAllocated resourceName deviceIds).allocatedOf other <->
      id ∈ m.allocatedOf other ∨ other = resourceName ∧ id ∈ deviceIds ∧ (m.plugins resourceName).isSome = true := by
  rw [markAllocated, allocatedOf_modify]
  by_cases same : other = resourceName
  · subst same
    cases registered : m.plugins other with
    | none | some state => simp [allocatedOf, registered]
  · simp [same]

theorem mem_allocatedOf_release {deviceIds : List String} {id : String} :
    id ∈ (m.release resourceName deviceIds).allocatedOf other <->
      id ∈ m.allocatedOf other ∧ ¬(other = resourceName ∧ id ∈ deviceIds) := by
  rw [release, allocatedOf_modify]
  by_cases same : other = resourceName
  · subst same
    cases registered : m.plugins other with
    | none | some state => simp [allocatedOf, registered]
  · simp [same]

theorem allocatedOf_updateDevices {endpoint : String} {newDevices : List DeviceInfo} :
    (m.updateDevices resourceName endpoint newDevices).allocatedOf other = m.allocatedOf other := by
  unfold updateDevices
  split
  · split_ifs
    · exact allocatedOf_modify_same fun _ => rfl
    · rfl
  · rfl

theorem allocatedOf_setOptions {endpoint : String} {preStart preferring : Bool} :
    (m.setOptions resourceName endpoint preStart preferring).allocatedOf other = m.allocatedOf other := by
  unfold setOptions
  split
  · split_ifs
    · exact allocatedOf_modify_same fun _ => rfl
    · rfl
  · rfl

theorem allocatedOf_register {endpoint : String} :
    (m.register resourceName endpoint).allocatedOf other =
      if other = resourceName then [] else m.allocatedOf other := by
  unfold register allocatedOf
  by_cases same : other = resourceName
  · subst same
    simp
  · simp [same]

theorem allocatedOf_deregister :
    (m.deregister resourceName).allocatedOf other = if other = resourceName then [] else m.allocatedOf other := by
  unfold deregister allocatedOf
  by_cases same : other = resourceName
  · subst same
    simp
  · simp [same]

/-- A reservation takes devices that were not allocated, and marks them. -/
theorem reserve_spec {preferred : Option (List String)} {count : Nat} {preferredNumaNode : Option Nat}
    {picked : List String} (reserved : m.reserve resourceName preferred count preferredNumaNode = some (picked, m')) :
    (forall id, id ∈ picked -> id ∉ m.allocatedOf resourceName) ∧
      forall other id, id ∈ m'.allocatedOf other <->
        id ∈ m.allocatedOf other ∨ other = resourceName ∧ id ∈ picked := by
  rcases Option.bind_eq_some_iff.mp reserved with ⟨state, registered, rest⟩
  rcases Option.bind_eq_some_iff.mp rest with ⟨ids, chosen, last⟩
  cases last
  constructor
  · intro id member
    have free := free_of_chosen chosen member
    rw [allocatedOf, registered]
    exact free.2
  · intro other id
    rw [mem_allocatedOf_markAllocated]
    simp [registered]

end DevicePlugins

end NotK8s.Nodelet

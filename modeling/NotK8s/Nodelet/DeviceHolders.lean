import NotK8s.Library.Run
import NotK8s.Nodelet.DevicePlugins

namespace NotK8s.Nodelet

open Library

/-!
# Who holds a device

An allocation reserves devices under a lock, asks the plugin without one, and
keeps or gives back what it reserved.  Meanwhile the plugin may report other
devices, go away, and register again.  A registration begins with an empty
record, and then reads back what is checkpointed on the disk.  The record
that it replaces is gone, and with it what was reserved there and not
checkpointed yet.
-/

/-- Where an allocation and the container it is for have got to. -/
inductive Stage where
  /-- The plugin may be asked which devices it prefers. -/
  | asked (preferring preStartRequired : Bool)
  | answered (preferred : Option (List String)) (preStartRequired : Bool)
  /-- The plugin's `Allocate` is to answer. -/
  | reserved (deviceIds : List String) (preStartRequired : Bool)
  /-- The plugin's `PreStartContainer` is to answer. -/
  | allocated (deviceIds : List String)
  /-- A call of the plugin failed. -/
  | failed (deviceIds : List String)
  /-- The container has its devices. -/
  | live (deviceIds : List String)
  /-- The devices are free again, and the owners still to be forgotten. -/
  | released (deviceIds : List String) (tornDown : Bool)
  | finished
  deriving DecidableEq

/-- The devices that are held at a stage. -/
def Stage.held : Stage -> List String
  | .reserved deviceIds _ => deviceIds
  | .allocated deviceIds => deviceIds
  | .failed deviceIds => deviceIds
  | .live deviceIds => deviceIds
  | _ => []

/-- A call of `allocate_preferring`, and the container it is made for. -/
structure Allocation where
  resourceName : String
  count : Nat
  preferredNumaNode : Option Nat
  podKey : String
  /-- Where the container's allocation is checkpointed. -/
  path : String
  stage : Stage
  deriving DecidableEq

/-- The next step of an allocation or its container, with what the plugin
answers. -/
inductive CallStep where
  | preferredAnswer (answer : Option (List String))
  | reserve
  | allocateAnswer (success : Bool)
  | preStartAnswer (success : Bool)
  | recordOwner
  | checkpoint
  /-- Give the devices back: after a failed call, or when the container is
  torn down. -/
  | release
  | forgetOwners

/-- One step at lock granularity. -/
inductive Move where
  | register (resourceName endpoint : String)
  /-- A registration reads a checkpoint back: the devices, then the owners. -/
  | restoreAllocated (resourceName : String) (file : Nat)
  | restoreOwners (resourceName : String) (file : Nat)
  | deregister (resourceName : String)
  | updateDevices (resourceName endpoint : String) (newDevices : List DeviceInfo)
  | setOptions (resourceName endpoint : String) (preStartRequired getPreferredAllocationAvailable : Bool)
  | allocatePreferring (resourceName : String) (count : Nat) (preferredNumaNode : Option Nat) (podKey path : String)
  | call (position : Nat) (step : CallStep)

structure DeviceWorld where
  manager : DevicePlugins
  disk : List (String × DeviceAllocMeta)
  calls : List Allocation

namespace DeviceWorld

/-- The manager of a new process, with what an earlier one left on the disk. -/
def started (disk : List (String × DeviceAllocMeta)) : DeviceWorld where
  manager := .new
  disk := disk
  calls := []

/-- The checkpoint that a registration of the resource reads in a file. -/
def restored (w : DeviceWorld) (resourceName : String) (file : Nat) : Option DeviceAllocMeta :=
  (w.disk[file]?.map Prod.snd).filter fun stored => stored.resourceName = resourceName

def setStage (w : DeviceWorld) (position : Nat) (entry : Allocation) (stage : Stage) : DeviceWorld :=
  { w with calls := w.calls.set position { entry with stage := stage } }

def proceed (w : DeviceWorld) (position : Nat) (entry : Allocation) (step : CallStep) : DeviceWorld :=
  match step, entry.stage with
  | .preferredAnswer answer, .asked preferring preStartRequired =>
    w.setStage position entry (.answered (if preferring then answer else none) preStartRequired)
  | .reserve, .answered preferred preStartRequired =>
    match w.manager.reserve entry.resourceName preferred entry.count entry.preferredNumaNode with
    | some (picked, manager) =>
      { w with manager := manager }.setStage position entry (.reserved picked preStartRequired)
    | none => w.setStage position entry .finished
  | .allocateAnswer success, .reserved deviceIds preStartRequired =>
    w.setStage position entry
      (if !success then .failed deviceIds else if preStartRequired then .allocated deviceIds else .live deviceIds)
  | .preStartAnswer success, .allocated deviceIds =>
    w.setStage position entry (if success then .live deviceIds else .failed deviceIds)
  | .recordOwner, .live deviceIds =>
    { w with manager := w.manager.recordOwner entry.resourceName deviceIds entry.podKey }
  | .checkpoint, .live deviceIds =>
    let stored : DeviceAllocMeta :=
      { resourceName := entry.resourceName, deviceIds := deviceIds, podKey := entry.podKey }
    { w with disk := (w.disk.filter fun file => file.1 ≠ entry.path) ++ [(entry.path, stored)] }
  | .release, .failed deviceIds =>
    { w with manager := w.manager.release entry.resourceName deviceIds }.setStage position entry
      (.released deviceIds false)
  | .release, .live deviceIds =>
    { w with manager := w.manager.release entry.resourceName deviceIds }.setStage position entry
      (.released deviceIds true)
  | .forgetOwners, .released deviceIds tornDown =>
    { w with
      manager := w.manager.forgetOwners entry.resourceName deviceIds
      disk := if tornDown then w.disk.filter fun file => file.1 ≠ entry.path else w.disk
    }.setStage position entry .finished
  | _, _ => w

def act (w : DeviceWorld) : Move -> DeviceWorld
  | .register resourceName endpoint => { w with manager := w.manager.register resourceName endpoint }
  | .restoreAllocated resourceName file =>
    match w.restored resourceName file with
    | some stored => { w with manager := w.manager.markAllocated resourceName stored.deviceIds }
    | none => w
  | .restoreOwners resourceName file =>
    match w.restored resourceName file with
    | some stored => { w with manager := w.manager.recordOwner resourceName stored.deviceIds stored.podKey }
    | none => w
  | .deregister resourceName => { w with manager := w.manager.deregister resourceName }
  | .updateDevices resourceName endpoint newDevices =>
    { w with manager := w.manager.updateDevices resourceName endpoint newDevices }
  | .setOptions resourceName endpoint preStartRequired getPreferredAllocationAvailable =>
    { w with manager := w.manager.setOptions resourceName endpoint preStartRequired getPreferredAllocationAvailable }
  | .allocatePreferring resourceName count preferredNumaNode podKey path =>
    match w.manager.plugins resourceName with
    | some state =>
      let entry : Allocation :=
        { resourceName := resourceName, count := count, preferredNumaNode := preferredNumaNode, podKey := podKey,
          path := path, stage := .asked state.getPreferredAllocationAvailable state.preStartRequired }
      { w with calls := w.calls ++ [entry] }
    | none => w
  | .call position step =>
    match w.calls[position]? with
    | some entry => w.proceed position entry step
    | none => w

/-- Each device of a resource is held by at most one allocation in progress
or live container, and the manager has it marked as allocated. -/
structure Safe (w : DeviceWorld) : Prop where
  exclusive : forall (i j : Nat) (first second : Allocation) (id : String), w.calls[i]? = some first ->
    w.calls[j]? = some second -> first.resourceName = second.resourceName -> id ∈ first.stage.held ->
      id ∈ second.stage.held -> i = j
  recorded : forall (i : Nat) (entry : Allocation) (id : String), w.calls[i]? = some entry ->
    id ∈ entry.stage.held -> id ∈ w.manager.allocatedOf entry.resourceName

/-- No device of the resource is held. -/
def Unheld (w : DeviceWorld) (resourceName : String) : Prop :=
  forall entry, entry ∈ w.calls -> entry.resourceName = resourceName -> entry.stage.held = []

/-- A plugin's record is made and removed only while nothing is held in it. -/
def Quiet (w : DeviceWorld) : Move -> Prop
  | .register resourceName _ => w.Unheld resourceName
  | .deregister resourceName => w.Unheld resourceName
  | _ => True

/-! ## What a step does to the holders -/

section
variable {w w' : DeviceWorld} {position : Nat} {entry : Allocation}

section

variable (safe : w.Safe)
include safe

theorem Safe.of_calls (calls : w'.calls = w.calls)
    (kept : forall resourceName id, id ∈ w.manager.allocatedOf resourceName ->
      id ∈ w'.manager.allocatedOf resourceName) : w'.Safe := by
  constructor
  · rw [calls]
    exact safe.exclusive
  · rw [calls]
    exact fun i entry id there held => kept _ _ (safe.recorded i entry id there held)

section

variable (there : w.calls[position]? = some entry)
include there

/-- The other calls hold what they held, and this one nothing that they
hold. -/
theorem Safe.of_set {stage : Stage}
    (calls : w'.calls = w.calls.set position { entry with stage := stage })
    (others : forall (i : Nat) (other : Allocation) (id : String), w.calls[i]? = some other -> i ≠ position -> id ∈ other.stage.held ->
      id ∈ w'.manager.allocatedOf other.resourceName)
    (own : forall id, id ∈ stage.held -> id ∈ w'.manager.allocatedOf entry.resourceName)
    (apart : forall (i : Nat) (other : Allocation) (id : String), w.calls[i]? = some other -> i ≠ position ->
      other.resourceName = entry.resourceName -> id ∈ other.stage.held -> id ∉ stage.held) : w'.Safe := by
  have inside : position < w.calls.length := (List.getElem?_eq_some_iff.mp there).1
  have here : w'.calls[position]? = some { entry with stage := stage } := by
    rw [calls]
    simp [inside]
  have elsewhere : forall i, i ≠ position -> w'.calls[i]? = w.calls[i]? := by
    intro i different
    rw [calls, List.getElem?_set_ne different.symm]
  constructor
  · intro i j first second id isFirst isSecond same heldFirst heldSecond
    by_cases atFirst : i = position
    · by_cases atSecond : j = position
      · rw [atFirst, atSecond]
      · rw [elsewhere j atSecond] at isSecond
        subst atFirst
        rw [here] at isFirst
        cases isFirst
        exact absurd heldFirst (apart j second id isSecond atSecond same.symm heldSecond)
    · rw [elsewhere i atFirst] at isFirst
      by_cases atSecond : j = position
      · subst atSecond
        rw [here] at isSecond
        cases isSecond
        exact absurd heldSecond (apart i first id isFirst atFirst same heldFirst)
      · rw [elsewhere j atSecond] at isSecond
        exact safe.exclusive i j first second id isFirst isSecond same heldFirst heldSecond
  · intro i other id isOther held
    by_cases atPosition : i = position
    · subst atPosition
      rw [here] at isOther
      cases isOther
      exact own id held
    · rw [elsewhere i atPosition] at isOther
      exact others i other id isOther atPosition held

theorem Safe.setStage {stage : Stage}
    (less : forall id, id ∈ stage.held -> id ∈ entry.stage.held) : (w.setStage position entry stage).Safe := by
  apply safe.of_set there rfl
  · exact fun i other id isOther _ held => safe.recorded i other id isOther held
  · exact fun id held => safe.recorded position entry id there (less id held)
  · intro i other id isOther different same held mine
    exact different (safe.exclusive i position other entry id isOther there same held (less id mine))

/-- A reservation takes devices that nobody holds, since what is held is
marked as allocated. -/
theorem Safe.reserve {preferred : Option (List String)}
    {preStartRequired : Bool} {picked : List String} {manager : DevicePlugins}
    (reserved : w.manager.reserve entry.resourceName preferred entry.count entry.preferredNumaNode =
      some (picked, manager)) :
    ({ w with manager := manager }.setStage position entry (.reserved picked preStartRequired)).Safe := by
  rcases DevicePlugins.reserve_spec reserved with ⟨fresh, marks⟩
  apply safe.of_set there rfl
  · intro i other id isOther _ held
    exact (marks _ id).mpr (Or.inl (safe.recorded i other id isOther held))
  · exact fun id held => (marks _ id).mpr (Or.inr ⟨rfl, held⟩)
  · intro i other id isOther _ same held mine
    have marked := safe.recorded i other id isOther held
    rw [same] at marked
    exact fresh id mine marked

theorem Safe.release {tornDown : Bool} :
    ({ w with manager := w.manager.release entry.resourceName entry.stage.held }.setStage position entry
      (.released entry.stage.held tornDown)).Safe := by
  apply safe.of_set there rfl
  · intro i other id isOther different held
    refine DevicePlugins.mem_allocatedOf_release.mpr ⟨safe.recorded i other id isOther held, ?_⟩
    rintro ⟨same, mine⟩
    exact different (safe.exclusive i position other entry id isOther there same held mine)
  · simp [Stage.held]
  · simp [Stage.held]

theorem Safe.proceed (step : CallStep) :
    (w.proceed position entry step).Safe := by
  unfold DeviceWorld.proceed
  split
  case h_1 => exact safe.setStage there nofun
  case h_2 =>
    split
    case h_1 reserved => exact safe.reserve there reserved
    case h_2 => exact safe.setStage there nofun
  case h_3 success deviceIds preStartRequired atStage =>
    apply safe.setStage there
    rw [atStage]
    cases success <;> cases preStartRequired <;> exact fun _ held => held
  case h_4 success deviceIds atStage =>
    apply safe.setStage there
    rw [atStage]
    cases success <;> exact fun _ held => held
  case h_5 => exact safe.of_calls rfl fun _ _ marked => marked
  case h_6 => exact safe.of_calls rfl fun _ _ marked => marked
  case h_7 deviceIds atStage =>
    have freed := @Safe.release w position entry safe there false
    rw [atStage] at freed
    exact freed
  case h_8 deviceIds atStage =>
    have freed := @Safe.release w position entry safe there true
    rw [atStage] at freed
    exact freed
  case h_9 =>
    apply safe.of_set there rfl
    · exact fun i other id isOther _ held => safe.recorded i other id isOther held
    · simp [Stage.held]
    · simp [Stage.held]
  case h_10 => exact safe

end

theorem Safe.allocatePreferring (idle : entry.stage.held = []) :
    ({ w with calls := w.calls ++ [entry] } : DeviceWorld).Safe := by
  have old : forall (i : Nat) (other : Allocation) (id : String), (w.calls ++ [entry])[i]? = some other -> id ∈ other.stage.held ->
      w.calls[i]? = some other := by
    intro i other id there held
    by_cases inside : i < w.calls.length
    · rw [List.getElem?_append_left inside] at there
      exact there
    · rw [List.getElem?_append_right (Nat.not_lt.mp inside)] at there
      have same := List.mem_singleton.mp (List.mem_of_getElem? there)
      rw [same, idle] at held
      cases held
  constructor
  · intro i j first second id isFirst isSecond same heldFirst heldSecond
    exact safe.exclusive i j first second id (old i first id isFirst heldFirst) (old j second id isSecond heldSecond)
      same heldFirst heldSecond
  · exact fun i other id there held => safe.recorded i other id (old i other id there held) held

theorem Safe.emptied {resourceName : String} (unheld : w.Unheld resourceName) {manager : DevicePlugins}
    (emptied : forall other, manager.allocatedOf other =
      if other = resourceName then [] else w.manager.allocatedOf other) :
    ({ w with manager := manager } : DeviceWorld).Safe := by
  refine ⟨safe.exclusive, ?_⟩
  intro i entry id there held
  rw [emptied]
  by_cases same : entry.resourceName = resourceName
  · rw [unheld entry (List.mem_of_getElem? there) same] at held
    cases held
  · rw [if_neg same]
    exact safe.recorded i entry id there held

end

theorem unheld_of_emptied {resourceName : String} {manager : DevicePlugins}
    (emptied : manager.allocatedOf resourceName = []) (safe : ({ w with manager := manager } : DeviceWorld).Safe) :
    w.Unheld resourceName := by
  intro entry member same
  apply List.eq_nil_iff_forall_not_mem.mpr
  intro id held
  rcases List.mem_iff_getElem?.mp member with ⟨i, there⟩
  have marked := safe.recorded i entry id there held
  rw [same, emptied] at marked
  cases marked

theorem safe_act {label : Move} (safe : w.Safe) (quiet : w.Quiet label) : (w.act label).Safe := by
  cases label with
  | register resourceName endpoint =>
    exact safe.emptied quiet fun _ => DevicePlugins.allocatedOf_register
  | deregister resourceName => exact safe.emptied quiet fun _ => DevicePlugins.allocatedOf_deregister
  | restoreAllocated resourceName file =>
    rw [act]
    split
    · refine safe.of_calls ?_ fun _ _ marked => ?_
      · rfl
      · exact DevicePlugins.mem_allocatedOf_markAllocated.mpr (Or.inl marked)
    · exact safe
  | restoreOwners resourceName file =>
    rw [act]
    split
    · exact safe.of_calls rfl fun _ _ marked => marked
    · exact safe
  | updateDevices resourceName endpoint newDevices =>
    refine safe.of_calls ?_ fun other id marked => ?_
    · rfl
    · change id ∈ (w.manager.updateDevices resourceName endpoint newDevices).allocatedOf other
      rw [DevicePlugins.allocatedOf_updateDevices]
      exact marked
  | setOptions resourceName endpoint preStart preferring =>
    refine safe.of_calls ?_ fun other id marked => ?_
    · rfl
    · change id ∈ (w.manager.setOptions resourceName endpoint preStart preferring).allocatedOf other
      rw [DevicePlugins.allocatedOf_setOptions]
      exact marked
  | allocatePreferring resourceName count preferredNumaNode podKey path =>
    rw [act]
    split
    · exact safe.allocatePreferring rfl
    · exact safe
  | call position step =>
    rw [act]
    split
    case h_1 entry there => exact safe.proceed there step
    case h_2 => exact safe

theorem quiet_of_safe {label : Move} (after : (w.act label).Safe) : w.Quiet label := by
  cases label with
  | register resourceName endpoint =>
    apply unheld_of_emptied _ after
    rw [DevicePlugins.allocatedOf_register, if_pos rfl]
  | deregister resourceName =>
    apply unheld_of_emptied _ after
    rw [DevicePlugins.allocatedOf_deregister, if_pos rfl]
  | _ => exact True.intro

end

theorem safe_started (disk : List (String × DeviceAllocMeta)) : (started disk).Safe := by
  constructor <;> simp [started]

/-- A plugin registers again while the first of two allocations waits for its
answer. -/
def pluginRestart : List Move :=
  let inventory : List DeviceInfo := [{ id := "gpu-0", healthy := true, numaNode := none }]
  [.register "gpu" "first.sock", .updateDevices "gpu" "first.sock" inventory,
    .allocatePreferring "gpu" 1 none "team/a" "a", .call 0 (.preferredAnswer none), .call 0 .reserve,
    .register "gpu" "second.sock", .updateDevices "gpu" "second.sock" inventory,
    .allocatePreferring "gpu" 1 none "team/b" "b", .call 1 (.preferredAnswer none), .call 1 .reserve,
    .call 0 (.allocateAnswer true), .call 1 (.allocateAnswer true)]

end DeviceWorld

end NotK8s.Nodelet

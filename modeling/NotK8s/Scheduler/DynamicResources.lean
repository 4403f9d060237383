import Mathlib.Data.Finset.Basic
import NotK8s.Scheduler.DeviceAllocator
import NotK8s.Scheduler.Status

namespace NotK8s.Scheduler

open Library

/-!
# The plugin that allocates devices

A cycle plans in PreFilter, for every node, which devices each claim of the
pod would get there.  Reserve assumes the plan for the chosen node in memory,
the binding cycle writes it to the claims one after the other, and the
assumption is dropped when the pod is bound or given up.

Every read and every write of the API server is a step of its own, and so is
each claim that the informer hears of.  A reply can be lost after the server
has done what it was asked.
-/

namespace DynamicResources

def name : String :=
  "DynamicResources"

structure PodClaimRef where
  name : String
  resourceClaimName : Option String
  resourceClaimTemplateName : Option String
  deriving DecidableEq

def PodClaimRef.objectName (pc : PodClaimRef) (statuses : SortedMap String (Option String)) : Option String :=
  match pc.resourceClaimName with
  | some name => some name
  | none => (statuses.get pc.name).join

/-- What the plugin reads of a pod. -/
structure ClaimingPod where
  podNamespace : String
  name : String
  uid : String
  resourceClaims : List PodClaimRef
  resourceClaimStatuses : SortedMap String (Option String)
  deriving DecidableEq

namespace ClaimingPod

def key (pod : ClaimingPod) : String :=
  pod.podNamespace ++ "/" ++ pod.name

/-- The keys of the claims that the pod names. -/
def claimKeys (pod : ClaimingPod) : List String :=
  pod.resourceClaims.filterMap fun pc =>
    (pc.objectName pod.resourceClaimStatuses).map fun claimName => pod.podNamespace ++ "/" ++ claimName

end ClaimingPod

/-! ## Planning -/

structure PendingAllocation where
  devices : List DeviceRequestAllocationResult
  config : List DeviceAllocationConfiguration
  deriving DecidableEq

inductive ClaimPlan where
  | reserved (claimKey : String) (nodeSelector : Option NodeSelector)
  | allocate (claimKey : String) (byNode : SortedMap String PendingAllocation)
  deriving DecidableEq

/-- The nodes, slices and classes of a snapshot. -/
structure Inventory where
  nodes : List NodeInfo
  slices : List ResourceSlice
  deviceClasses : SortedMap String DeviceClass
  deriving DecidableEq

/-- The generated name, in quotes. -/
def quoted (text : String) : String :=
  "\"" ++ text ++ "\""

/-- A claim that the pod names, as it is before the nodes are walked. -/
inductive WantedClaim where
  | reserved (claimKey : String) (nodeSelector : Option NodeSelector)
  | pending (claimKey : String) (input : ClaimAllocationInput)

def ownedBy (claim : ResourceClaim) (pod : ClaimingPod) : Bool :=
  (claim.ownerReferences.getD []).any fun owner => owner.controller = some true && owner.uid = pod.uid

def wantedClaim (pod : ClaimingPod) (claims : SortedMap String ResourceClaim) (pc : PodClaimRef) :
    Except Status WantedClaim :=
  match pc.objectName pod.resourceClaimStatuses with
  | none => .error (.unschedulable name ("resourceclaim for " ++ quoted pc.name ++ " does not exist"))
  | some claimName =>
    match claims.get (pod.podNamespace ++ "/" ++ claimName) with
    | none => .error (.unschedulable name ("resourceclaim " ++ quoted claimName ++ " not found"))
    | some claim =>
      if claim.deletionTimestamp.isSome then
        .error (.unschedulable name ("resourceclaim " ++ quoted claimName ++ " is being deleted"))
      else if pc.resourceClaimTemplateName.isSome && !ownedBy claim pod then
        .error (.unresolvable name ("resourceclaim " ++ quoted claimName ++ " was not created for pod " ++ pod.key ++
          " (pod is not owner)"))
      else if claim.bound then
        .ok (.reserved claim.key (claim.allocation.bind AllocationResult.nodeSelector))
      else
        let requests := (claim.devices.bind DeviceClaim.requests).getD []
        if requests.any fun r => (effectiveRequests r).isNone then
          .error (.unresolvable name ("resourceclaim " ++ quoted claimName ++
            " has a malformed device request (neither exactly nor firstAvailable set, a missing deviceClassName, or " ++
            "an unrecognized allocationMode)"))
        else
          .ok (.pending claim.key
            ⟨requests, (claim.devices.bind DeviceClaim.constraints).getD [], (claim.devices.bind DeviceClaim.config).getD []⟩)

def WantedClaim.input? : WantedClaim -> Option ClaimAllocationInput
  | .reserved _ _ => none
  | .pending _ input => some input

/-- The plans in the order of the pod's claims; the tables of the pending ones
are taken in turn. -/
def plansOf : List WantedClaim -> (Nat -> SortedMap String PendingAllocation) -> List ClaimPlan
  | [], _ => []
  | .reserved claimKey nodeSelector :: rest, tables => .reserved claimKey nodeSelector :: plansOf rest tables
  | .pending claimKey _ :: rest, tables =>
    .allocate claimKey (tables 0) :: plansOf rest fun index => tables (index + 1)

section
variable (selects : String -> Candidate -> Bool)

/-- What the pending claims get on each node that can serve all of them. -/
def allocations (inventory : Inventory) (excluded : Finset DeviceId) (pending : List ClaimAllocationInput) :
    List (String × List PendingAllocation) :=
  inventory.nodes.filterMap fun node =>
    (allocateClaimsOnNode selects inventory.deviceClasses (candidatesForNode inventory.slices node) excluded pending).map
      fun perClaim =>
        (node.name, (pending.zip perClaim).map fun pair =>
          ⟨pair.2, allocationConfig pair.1 pair.2 inventory.deviceClasses⟩)

/-- The share of one claim; a later node replaces an earlier one of its name. -/
def shareOf (perNode : List (String × List PendingAllocation)) (index : Nat) : SortedMap String PendingAllocation :=
  .ofList (perNode.map fun entry => (entry.1, entry.2.getD index ⟨[], []⟩))

def preFilterImpl (pod : ClaimingPod) (claims : SortedMap String ResourceClaim) (inventory : Inventory)
    (excluded : Finset DeviceId) : Except Status (List ClaimPlan) :=
  if pod.resourceClaims.isEmpty then .error .skip
  else
    (pod.resourceClaims.mapM (wantedClaim pod claims)).map fun wanted =>
      plansOf wanted (shareOf (allocations selects inventory excluded (wanted.filterMap WantedClaim.input?)))

end

/-- What one plan has against a node. -/
def refusal (node : NodeInfo) : ClaimPlan -> Option Status
  | .reserved _ none => none
  | .reserved _ (some selector) =>
    if matchesNodeSelector selector node then none
    else some (.unresolvable name "node(s) not in the claim's allocated topology")
  | .allocate _ byNode =>
    if (byNode.get node.name).isSome then none
    else some (.unschedulable name "node(s) did not have available devices for a resource claim")

def filterImpl (wanted : Option (List ClaimPlan)) (node : NodeInfo) : Status :=
  match wanted with
  | none => .success
  | some plans => (plans.findSome? (refusal node)).getD .success

def onlyUs (pod : ClaimingPod) (claim : ResourceClaim) : Bool :=
  match claim.status.bind ResourceClaimStatus.reservedFor with
  | none => true
  | some [] => true
  | some [r] => r.resource = "pods" && r.name = pod.name && r.uid = pod.uid
  | some _ => false

/-- The key of the claim to deallocate, if any. -/
def postFilterImpl (wanted : List ClaimPlan) (pod : ClaimingPod) (claims : SortedMap String ResourceClaim)
    (nodes : List NodeInfo) : Option String :=
  wanted.findSome? fun plan =>
    match plan with
    | .reserved claimKey (some selector) =>
      if nodes.all fun n => !matchesNodeSelector selector n then
        (claims.get claimKey).bind fun claim => if onlyUs pod claim then some claimKey else none
      else none
    | _ => none

/-! ## Assuming and committing -/

structure AssumedClaim where
  claimKey : String
  newDevices : List DeviceRequestAllocationResult
  newConfig : List DeviceAllocationConfiguration
  deriving DecidableEq

def assume (node : String) : ClaimPlan -> Option AssumedClaim
  | .reserved claimKey _ => some ⟨claimKey, [], []⟩
  | .allocate claimKey byNode => (byNode.get node).map fun allocation => ⟨claimKey, allocation.devices, allocation.config⟩

def reservedFor (pod : ClaimingPod) (current : ResourceClaim) : List ConsumerReference :=
  let consumers := (current.status.bind ResourceClaimStatus.reservedFor).getD []
  if consumers.any fun r => r.resource = "pods" && r.name = pod.name && r.uid = pod.uid then consumers
  else consumers ++ [⟨none, "pods", pod.name, pod.uid⟩]

/-- The allocation that is written: one that is already there is kept,
whatever node it names. -/
def committedAllocation (node : String) (assumed : AssumedClaim) (current : ResourceClaim) : AllocationResult :=
  match current.allocation with
  | some existing => existing
  | none =>
    { devices := some ⟨some assumed.newDevices, if assumed.newConfig.isEmpty then none else some assumed.newConfig⟩
      nodeSelector := some (singleNodeSelector node) }

def committed (pod : ClaimingPod) (node : String) (assumed : AssumedClaim) (current : ResourceClaim) : ResourceClaimStatus where
  allocation := some (committedAllocation node assumed current)
  reservedFor := some (reservedFor pod current)

def maxConflictRetries : Nat :=
  5

/-! ## The world -/

structure Cycle where
  pod : ClaimingPod
  wanted : Option (List ClaimPlan)
  claims : SortedMap String ResourceClaim
  nodes : List NodeInfo
  deriving DecidableEq

inductive Stage where
  | reserved
  /-- The claims that are left, and the first of them as it was read. -/
  | preBind (left : List AssumedClaim) (attempt : Nat) (current : Option ResourceClaim)
  | binding
  | bound
  deriving DecidableEq

structure BindingCycle where
  pod : ClaimingPod
  node : String
  stage : Stage
  deriving DecidableEq

structure DeviceWorld where
  /-- The claims of the API server. -/
  claims : SortedMap String ResourceClaim
  revision : Nat
  /-- What the informer has still to hear. -/
  feed : List ResourceClaim
  seen : SortedMap String ResourceClaim
  assumedDevices : Finset DeviceId
  assumedByPod : SortedMap String (List AssumedClaim)
  cycle : Option Cycle
  bindings : List BindingCycle
  /-- The pods that the API server has bound, and where. -/
  bound : List (ClaimingPod × String)
  deriving DecidableEq

inductive Reply where
  | answered
  /-- The server has done it, and the answer is lost. -/
  | lost
  | refused
  deriving DecidableEq

inductive DeviceStep where
  | create (claim : ResourceClaim)
  | deliver
  | preFilter (pod : ClaimingPod) (inventory : Inventory)
  | abandon
  | postFilter (reply : Reply)
  | reserve (node : NodeInfo)
  | startPreBind (binding : Nat)
  | readClaim (binding : Nat)
  | writeClaim (binding : Nat) (reply : Reply)
  | unreserve (binding : Nat)
  | bind (binding : Nat) (reply : Reply)
  | postBind (binding : Nat)
  deriving DecidableEq

namespace DeviceWorld

def new : DeviceWorld where
  claims := .empty
  revision := 0
  feed := []
  seen := .empty
  assumedDevices := ∅
  assumedByPod := .empty
  cycle := none
  bindings := []
  bound := []

/-- The API server stores a claim under a version of its own. -/
def store (w : DeviceWorld) (claim : ResourceClaim) : DeviceWorld :=
  let stored := { claim with resourceVersion := some (w.revision + 1) }
  { w with
    claims := w.claims.insert stored.key stored
    revision := w.revision + 1
    feed := w.feed ++ [stored] }

def create (w : DeviceWorld) (claim : ResourceClaim) : DeviceWorld :=
  match w.claims.get claim.key with
  | some _ => w
  | none => w.store { claim with status := none }

def deliver (w : DeviceWorld) : DeviceWorld :=
  match w.feed with
  | [] => w
  | claim :: rest => { w with feed := rest, seen := w.seen.insert claim.key claim }

def release (w : DeviceWorld) (podUid : String) : DeviceWorld :=
  match w.assumedByPod.get podUid with
  | none => w
  | some assumed => { w with
      assumedByPod := w.assumedByPod.erase podUid
      assumedDevices := (assumed.flatMap fun a => exclusive a.newDevices).foldl Finset.erase w.assumedDevices }

def preFilter (selects : String -> Candidate -> Bool) (w : DeviceWorld) (pod : ClaimingPod) (inventory : Inventory) :
    DeviceWorld :=
  match w.cycle with
  | some _ => w
  | none =>
    match preFilterImpl selects pod w.seen inventory w.assumedDevices with
    | .ok plans => { w with cycle := some ⟨pod, some plans, w.seen, inventory.nodes⟩ }
    | .error status => if status.isSkip then { w with cycle := some ⟨pod, none, w.seen, inventory.nodes⟩ } else w

/-- The claim that PostFilter would deallocate. -/
def stuckClaim (w : DeviceWorld) : Option String :=
  w.cycle.bind fun c => c.wanted.bind fun wanted => postFilterImpl wanted c.pod c.claims c.nodes

/-- The patch carries no version. -/
def deallocate (w : DeviceWorld) (claimKey : String) : DeviceWorld :=
  match w.claims.get claimKey with
  | none => w
  | some claim => w.store { claim with status := some ⟨none, none⟩ }

def postFilter (w : DeviceWorld) (reply : Reply) : DeviceWorld :=
  let ended := { w with cycle := none }
  match w.stuckClaim with
  | none => ended
  | some claimKey => if reply = .refused then ended else ended.deallocate claimKey

def reserve (w : DeviceWorld) (node : NodeInfo) : DeviceWorld :=
  match w.cycle with
  | none => w
  | some c =>
    if !(filterImpl c.wanted node).isSuccess then w
    else
      let spawned := { w with cycle := none, bindings := w.bindings ++ [⟨c.pod, node.name, .reserved⟩] }
      match c.wanted with
      | none => spawned
      | some wanted =>
        match wanted.mapM (assume node.name) with
        | none => { w with cycle := none }
        | some assumed => { spawned with
            assumedDevices := w.assumedDevices ∪ (assumed.flatMap fun a => exclusive a.newDevices).toFinset
            assumedByPod := w.assumedByPod.insert c.pod.uid assumed }

def setStage (w : DeviceWorld) (binding : Nat) (b : BindingCycle) (stage : Stage) : DeviceWorld :=
  { w with bindings := w.bindings.set binding { b with stage := stage } }

/-- The binding cycle ends, and what it assumed is dropped. -/
def finish (w : DeviceWorld) (binding : Nat) (b : BindingCycle) : DeviceWorld :=
  { w.release b.pod.uid with bindings := w.bindings.eraseIdx binding }

def startPreBind (w : DeviceWorld) (binding : Nat) : DeviceWorld :=
  match w.bindings[binding]? with
  | some b =>
    match b.stage with
    | .reserved =>
      match (w.assumedByPod.get b.pod.uid).getD [] with
      | [] => w.setStage binding b .binding
      | assumed => w.setStage binding b (.preBind assumed 0 none)
    | _ => w
  | none => w

def readClaim (w : DeviceWorld) (binding : Nat) : DeviceWorld :=
  match w.bindings[binding]? with
  | some b =>
    match b.stage with
    | .preBind (a :: left) attempt none =>
      match w.claims.get a.claimKey with
      | none => w.finish binding b
      | some current => w.setStage binding b (.preBind (a :: left) attempt (some current))
    | _ => w
  | none => w

def writeClaim (w : DeviceWorld) (binding : Nat) (reply : Reply) : DeviceWorld :=
  match w.bindings[binding]? with
  | some b =>
    match b.stage with
    | .preBind (a :: left) attempt (some current) =>
      if reply = .refused then w.finish binding b
      else
        match w.claims.get a.claimKey with
        | none => w.finish binding b
        | some claim =>
          if current.resourceVersion.isSome && claim.resourceVersion ≠ current.resourceVersion then
            -- The write lost a race and is tried again on a fresh read.
            if reply = .lost || attempt + 1 = maxConflictRetries then w.finish binding b
            else w.setStage binding b (.preBind (a :: left) (attempt + 1) none)
          else
            let written := w.store { claim with status := some (committed b.pod b.node a current) }
            if reply = .lost then written.finish binding b
            else
              match left with
              | [] => written.setStage binding b .binding
              | left => written.setStage binding b (.preBind left 0 none)
    | _ => w
  | none => w

/-- Another plugin of the binding cycle refuses, or this one's read fails. -/
def unreserve (w : DeviceWorld) (binding : Nat) : DeviceWorld :=
  match w.bindings[binding]? with
  | some b => if b.stage = .bound then w else w.finish binding b
  | none => w

def bind (w : DeviceWorld) (binding : Nat) (reply : Reply) : DeviceWorld :=
  match w.bindings[binding]? with
  | some b =>
    if b.stage = .binding then
      match reply with
      | .refused => w.finish binding b
      | .lost => ({ w with bound := w.bound ++ [(b.pod, b.node)] } : DeviceWorld).finish binding b
      | .answered => ({ w with bound := w.bound ++ [(b.pod, b.node)] } : DeviceWorld).setStage binding b .bound
    else w
  | none => w

def postBind (w : DeviceWorld) (binding : Nat) : DeviceWorld :=
  match w.bindings[binding]? with
  | some b => if b.stage = .bound then w.finish binding b else w
  | none => w

def step (selects : String -> Candidate -> Bool) (w : DeviceWorld) : DeviceStep -> DeviceWorld
  | .create claim => w.create claim
  | .deliver => w.deliver
  | .preFilter pod inventory => w.preFilter selects pod inventory
  | .abandon => { w with cycle := none }
  | .postFilter reply => w.postFilter reply
  | .reserve node => w.reserve node
  | .startPreBind binding => w.startPreBind binding
  | .readClaim binding => w.readClaim binding
  | .writeClaim binding reply => w.writeClaim binding reply
  | .unreserve binding => w.unreserve binding
  | .bind binding reply => w.bind binding reply
  | .postBind binding => w.postBind binding

end DeviceWorld

end DynamicResources

end NotK8s.Scheduler

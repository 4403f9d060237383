import NotK8s.Scheduler.Selector

namespace NotK8s.Scheduler

open Library

/-!
# Claims, classes and inventories of devices

A claim asks for devices of classes, slices list what devices there are, and
the status of a claim says which of them it was given and on which node.
-/

/-! ## What selects devices -/

structure DeviceSelector where
  cel : Option String
  deriving DecidableEq

/-- What a driver is told with an allocation. -/
structure DriverConfiguration where
  driver : String
  parameters : String
  deriving DecidableEq

structure DeviceClass where
  selectors : Option (List DeviceSelector)
  config : Option (List (Option DriverConfiguration))
  deriving DecidableEq

structure DeviceSubRequest where
  name : String
  deviceClassName : Option String
  selectors : Option (List DeviceSelector)
  allocationMode : Option String
  count : Option Int
  deriving DecidableEq

structure ExactDeviceRequest where
  deviceClassName : Option String
  selectors : Option (List DeviceSelector)
  allocationMode : Option String
  count : Option Int
  adminAccess : Option Bool
  deriving DecidableEq

structure DeviceRequest where
  name : String
  exactly : Option ExactDeviceRequest
  firstAvailable : Option (List DeviceSubRequest)
  deriving DecidableEq

structure DeviceConstraint where
  matchAttribute : Option String
  requests : List String
  deriving DecidableEq

structure DeviceClaimConfiguration where
  requests : List String
  configuration : Option DriverConfiguration
  deriving DecidableEq

structure DeviceClaim where
  requests : Option (List DeviceRequest)
  constraints : Option (List DeviceConstraint)
  config : Option (List DeviceClaimConfiguration)
  deriving DecidableEq

/-! ## Allocations -/

/-- Driver, pool and name of a device. -/
abbrev DeviceId : Type :=
  String × String × String

structure DeviceRequestAllocationResult where
  request : String
  driver : String
  pool : String
  device : String
  adminAccess : Bool
  deriving DecidableEq

def deviceId (r : DeviceRequestAllocationResult) : DeviceId :=
  (r.driver, r.pool, r.device)

/-- The devices that are not shared with administrators' access. -/
def exclusive (results : List DeviceRequestAllocationResult) : List DeviceId :=
  (results.filter fun d => !d.adminAccess).map deviceId

structure DeviceAllocationConfiguration where
  source : String
  requests : List String
  configuration : Option DriverConfiguration
  deriving DecidableEq

structure DeviceAllocationResult where
  results : Option (List DeviceRequestAllocationResult)
  config : Option (List DeviceAllocationConfiguration)
  deriving DecidableEq

structure AllocationResult where
  devices : Option DeviceAllocationResult
  nodeSelector : Option NodeSelector
  deriving DecidableEq

structure ConsumerReference where
  apiGroup : Option String
  resource : String
  name : String
  uid : String
  deriving DecidableEq

structure ResourceClaimStatus where
  allocation : Option AllocationResult
  reservedFor : Option (List ConsumerReference)
  deriving DecidableEq

structure ClaimOwner where
  controller : Option Bool
  uid : String
  deriving DecidableEq

structure ResourceClaim where
  inNamespace : Option String
  name : Option String
  resourceVersion : Option Nat
  deletionTimestamp : Option String
  ownerReferences : Option (List ClaimOwner)
  devices : Option DeviceClaim
  status : Option ResourceClaimStatus
  deriving DecidableEq

namespace ResourceClaim

def key (claim : ResourceClaim) : String :=
  claim.inNamespace.getD "" ++ "/" ++ claim.name.getD ""

def allocation (claim : ResourceClaim) : Option AllocationResult :=
  claim.status.bind ResourceClaimStatus.allocation

def bound (claim : ResourceClaim) : Bool :=
  claim.allocation.isSome

/-- The devices that the claim has for itself. -/
def allocated (claim : ResourceClaim) : List DeviceId :=
  exclusive ((claim.allocation.bind fun a => a.devices.bind DeviceAllocationResult.results).getD [])

end ResourceClaim

/-! ## Inventories -/

structure DeviceAttribute where
  bool : Option Bool
  int : Option Int
  string : Option String
  version : Option String
  deriving DecidableEq

structure BasicDevice where
  attributes : Option (SortedMap String DeviceAttribute)
  capacity : Option (SortedMap String String)
  nodeName : Option String
  nodeSelector : Option NodeSelector
  allNodes : Option Bool
  deriving DecidableEq

structure Device where
  name : String
  basic : BasicDevice
  deriving DecidableEq

structure ResourceSlice where
  driver : String
  pool : String
  nodeName : Option String
  allNodes : Option Bool
  nodeSelector : Option NodeSelector
  perDeviceNodeSelection : Option Bool
  devices : Option (List Device)
  deriving DecidableEq

structure Candidate where
  driver : String
  pool : String
  name : String
  basic : BasicDevice
  deriving DecidableEq

def Candidate.id (c : Candidate) : DeviceId :=
  (c.driver, c.pool, c.name)

def deviceAppliesToNode (basic : BasicDevice) (node : NodeInfo) : Bool :=
  if basic.allNodes = some true then true
  else
    match basic.nodeName with
    | some name => name = node.name
    | none => basic.nodeSelector.any fun selector => matchesNodeSelector selector node

def resourceSlicesForNode (slices : List ResourceSlice) (node : NodeInfo) : List ResourceSlice :=
  slices.filter fun slice =>
    slice.nodeName = some node.name || slice.allNodes = some true || slice.perDeviceNodeSelection = some true ||
      slice.nodeSelector.any fun selector => matchesNodeSelector selector node

def candidatesForNode (slices : List ResourceSlice) (node : NodeInfo) : List Candidate :=
  (resourceSlicesForNode slices node).flatMap fun slice =>
    (slice.devices.getD []).filterMap fun d =>
      if slice.perDeviceNodeSelection = some true && !deviceAppliesToNode d.basic node then none
      else some ⟨slice.driver, slice.pool, d.name, d.basic⟩

/-! ## Requests -/

structure EffectiveRequest where
  resultName : String
  deviceClassName : String
  selectors : List DeviceSelector
  allDevices : Bool
  count : Nat
  adminAccess : Bool
  deriving DecidableEq

/-- Whether all devices are asked for, when the mode is known at all. -/
def allocatesAll (mode : Option String) : Option Bool :=
  match mode with
  | some "All" => some true
  | none => some false
  | some "ExactCount" => some false
  | some _ => none

def effectiveRequest (resultName : String) (deviceClassName : Option String) (selectors : Option (List DeviceSelector))
    (allocationMode : Option String) (count : Option Int) (adminAccess : Bool) : Option EffectiveRequest :=
  deviceClassName.bind fun deviceClassName => (allocatesAll allocationMode).map fun allDevices =>
    { resultName := resultName
      deviceClassName := deviceClassName
      selectors := selectors.getD []
      allDevices := allDevices
      count := if allDevices then 0 else (count.getD 1).toNat
      adminAccess := adminAccess }

/-- The alternatives of a request, unless it is malformed. -/
def effectiveRequests (req : DeviceRequest) : Option (List EffectiveRequest) :=
  match req.exactly with
  | some exactly =>
    (effectiveRequest req.name exactly.deviceClassName exactly.selectors exactly.allocationMode exactly.count
      (exactly.adminAccess = some true)).map fun request => [request]
  | none =>
    match req.firstAvailable with
    | none => none
    | some [] => none
    | some subs => subs.mapM fun sub =>
      -- A subrequest has no administrators' access.
      effectiveRequest (req.name ++ "/" ++ sub.name) sub.deviceClassName sub.selectors sub.allocationMode sub.count false

/-! ## Constraints -/

inductive AttributeValue where
  | bool (value : Bool)
  | int (value : Int)
  | str (value : String)
  deriving DecidableEq

def attributeValue (raw : DeviceAttribute) : Option AttributeValue :=
  match raw.bool, raw.int with
  | some b, _ => some (.bool b)
  | none, some i => some (.int i)
  | none, none => (raw.string.or raw.version).map .str

/-- The value under the qualified name, or under the plain name in the
driver's own domain. -/
def lookupAttribute (basic : BasicDevice) (driver qualifiedName : String) : Option AttributeValue :=
  basic.attributes.bind fun attributes =>
    match attributes.get qualifiedName with
    | some raw => attributeValue raw
    | none =>
      (Text.splitOnce '/' qualifiedName.toList).bind fun parts =>
        if String.ofList parts.1 ≠ driver then none else (attributes.get (String.ofList parts.2)).bind attributeValue

structure ConstraintState where
  constraint : DeviceConstraint
  value : Option AttributeValue
  deriving DecidableEq

def constraintStates (constraints : List DeviceConstraint) : List ConstraintState :=
  constraints.map fun constraint => ⟨constraint, none⟩

def constraintApplies (requests : List String) (resultName : String) : Bool :=
  requests.isEmpty || requests.any fun r => r = resultName || (r ++ "/").toList.isPrefixOf resultName.toList

/-- The constraints after one more pick, unless one of them forbids it. -/
def constraintAllows (states : List ConstraintState) (resultName driver : String) (basic : BasicDevice) :
    Option (List ConstraintState) :=
  states.mapM fun state =>
    match state.constraint.matchAttribute with
    | none => some state
    | some attributeName =>
      if !constraintApplies state.constraint.requests resultName then some state
      else
        (lookupAttribute basic driver attributeName).bind fun value =>
          match state.value with
          | none => some { state with value := some value }
          | some existing => if existing = value then some state else none

end NotK8s.Scheduler

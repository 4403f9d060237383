import NotK8s.Controllers.SharedWatch
import NotK8s.Library.Text
import NotK8s.Library.Integers

namespace NotK8s.Controllers

open Library

/-!
# Deployments

One pass reads a Deployment and the cached ReplicaSets and decides on a list
of writes.  A write takes effect or not, and it may take effect although the
pass is told that it failed.  Nothing in a pass after the creation of a
ReplicaSet depends on how an earlier write went.
-/

/-! ## Objects -/

structure OwnerReference where
  uid : String
  controller : Option Bool
  deriving DecidableEq

structure ReplicaSetStatus where
  replicas : Int
  readyReplicas : Option Int
  availableReplicas : Option Int
  deriving DecidableEq

structure ReplicaSet where
  inNamespace : Option String
  name : String
  creationTimestamp : Option Int
  ownerReferences : List OwnerReference
  podTemplateHash : Option String
  replicas : Option Int
  status : Option ReplicaSetStatus
  deriving DecidableEq

inductive IntOrString where
  | int (n : Int)
  | string (s : String)

structure RollingUpdate where
  maxSurge : Option IntOrString
  maxUnavailable : Option IntOrString

structure DeploymentStrategy where
  type : Option String
  rollingUpdate : Option RollingUpdate

/-- The template is the bytes of its canonical JSON. -/
structure DeploymentSpec where
  paused : Option Bool
  replicas : Option Int
  template : List UInt8
  strategy : Option DeploymentStrategy
  revisionHistoryLimit : Option Int

structure DeploymentStatus where
  replicas : Option Int
  updatedReplicas : Option Int
  readyReplicas : Option Int
  availableReplicas : Option Int
  unavailableReplicas : Option Int
  observedGeneration : Option Int
  deriving DecidableEq

structure Deployment where
  inNamespace : Option String
  name : String
  uid : Option String
  deletionTimestamp : Option Int
  generation : Option Int
  spec : Option DeploymentSpec
  status : Option DeploymentStatus

instance : Resource ReplicaSet where
  namespaceOf := ReplicaSet.inNamespace
  nameAny := ReplicaSet.name

instance : Resource Deployment where
  namespaceOf := Deployment.inNamespace
  nameAny := Deployment.name

/-- The namespace of an object, or the empty one. -/
def nsOf {Obj : Type} [Resource Obj] (object : Obj) : String :=
  (Resource.namespaceOf object).getD ""

/-- FNV-1a in hexadecimal. -/
def computeTemplateHash (template : List UInt8) : String :=
  let hash := template.foldl (fun hash byte => (hash ^^^ byte.toUInt64) * 0x100000001b3) (0xcbf29ce484222325 : UInt64)
  String.ofList (Nat.toDigits 16 hash.toNat)

/-! ## Budgets -/

abbrev i32 (n : Int) : Int :=
  wrapped 32 n

def parseI32 (text : List Char) : Option Int :=
  (Text.integer text).filter fun n => decide (Fits 32 n)

/-- Whether the value is a percentage, and the number in it. -/
def intOrPercent (defaultPercent : Int) : Option IntOrString -> Bool × Int
  | some (.int n) => (false, n)
  | some (.string s) =>
    match s.toList.reverse with
    | '%' :: reversed => (true, (parseI32 reversed.reverse).getD defaultPercent)
    | _ => (false, (parseI32 s.toList).getD 0)
  | none => (true, defaultPercent)

def resolveIntOrStr (v : Option IntOrString) (total : Int) (roundUp : Bool) (defaultPercent : Int) : Int :=
  let (isPercent, num) := intOrPercent defaultPercent v
  let resolved :=
    if isPercent then
      if roundUp then (i32 (i32 (total * num) + 99)).tdiv 100 else (i32 (total * num)).tdiv 100
    else num
  max resolved 0

def resolveFenceposts (maxSurge maxUnavailable desired : Int) : Int × Int :=
  if maxSurge = 0 ∧ maxUnavailable = 0 ∧ 0 < desired then (1, maxUnavailable) else (maxSurge, maxUnavailable)

def newRsDesiredReplicas (desired maxSurge currentTotal newRsCurrent : Int) : Int :=
  if desired < newRsCurrent then desired
  else
    let maxTotal := i32 (desired + maxSurge)
    if maxTotal ≤ currentTotal then newRsCurrent
    else
      let scaleUp := max (min (i32 (maxTotal - currentTotal)) (i32 (desired - newRsCurrent))) 0
      i32 (newRsCurrent + scaleUp)

def scaleDownBudget (desired maxUnavailable availableTotal newRsReplicas newRsAvailable : Int) : Int :=
  let minAvailable := i32 (desired - maxUnavailable)
  let newRsUnavailable := max (i32 (newRsReplicas - newRsAvailable)) 0
  max (i32 (i32 (availableTotal - minAvailable) - newRsUnavailable)) 0

/-- The ReplicaSets to cut, with the counts they are cut to. -/
def scaleDownOld : List (String × Int) -> Int -> List (String × Int)
  | [], _ => []
  | (name, replicas) :: old, remaining =>
    if remaining ≤ 0 ∨ replicas = 0 then scaleDownOld old remaining
    else
      let cut := min replicas remaining
      (name, i32 (replicas - cut)) :: scaleDownOld old (i32 (remaining - cut))

/-! ## One pass -/

def isRecreate (spec : DeploymentSpec) : Bool :=
  (spec.strategy.bind DeploymentStrategy.type) == some "Recreate"

def ownerReference (uid : String) : OwnerReference :=
  ⟨uid, some true⟩

def ownedBy (rs : ReplicaSet) (deploymentUid : String) : Bool :=
  rs.ownerReferences.any fun o => o.controller == some true && o.uid == deploymentUid

def rsReplicas (rs : ReplicaSet) : Int :=
  rs.replicas.getD 0

def rsAvailable (rs : ReplicaSet) : Int :=
  (rs.status.bind ReplicaSetStatus.availableReplicas).getD 0

def rsReady (rs : ReplicaSet) : Int :=
  (rs.status.bind ReplicaSetStatus.readyReplicas).getD 0

def rsStatusReplicas (rs : ReplicaSet) : Int :=
  (rs.status.map ReplicaSetStatus.replicas).getD 0

def buildNewReplicaSet (d : Deployment) (uid hash : String) (replicas : Int) : ReplicaSet where
  inNamespace := d.inNamespace
  name := d.name ++ "-" ++ hash
  creationTimestamp := none
  ownerReferences := [ownerReference uid]
  podTemplateHash := some hash
  replicas := some replicas
  status := none

inductive Write where
  | create (rs : ReplicaSet)
  | scale (name : String) (replicas : Int)
  | delete (name : String)
  | status (status : DeploymentStatus)

/-- What the API says about the Deployment before a ReplicaSet is created. -/
inductive Authority where
  | same
  | changed
  | failed

inductive CreateReply where
  | created (rs : ReplicaSet)
  | alreadyExists
  | failed

/-- What a pass writes, and whether it asks for a retry even if every write
succeeds. -/
structure Decision where
  writes : List Write
  needsRetry : Bool

def createdBefore (one other : ReplicaSet) : Prop :=
  match one.creationTimestamp, other.creationTimestamp with
  | none, _ => True
  | some _, none => False
  | some first, some second => first ≤ second

instance : DecidableRel createdBefore := fun one other => by
  unfold createdBefore
  split <;> infer_instance

/-- The ReplicaSets of the Deployment, oldest first. -/
def ownedReplicaSets (d : Deployment) (uid : String) (rsCache : SortedMap String ReplicaSet) : List ReplicaSet :=
  (((rsCache.entries.map Prod.snd).filter fun rs => rs.inNamespace == some (nsOf d)).filter
    fun rs => ownedBy rs uid).insertionSort createdBefore

def newReplicaSet (hash : String) (owned : List ReplicaSet) : Option ReplicaSet :=
  owned.find? fun rs => rs.podTemplateHash == some hash

def oldReplicaSets (owned : List ReplicaSet) (newRs : ReplicaSet) : List ReplicaSet :=
  owned.filter fun rs => rs.name != newRs.name

def desiredReplicas (spec : DeploymentSpec) : Int :=
  spec.replicas.getD 1

/-- The budgets after fenceposts. -/
def resolvedBudgets (spec : DeploymentSpec) : Int × Int :=
  let rolling := spec.strategy.bind DeploymentStrategy.rollingUpdate
  let desired := desiredReplicas spec
  let maxSurge := resolveIntOrStr (rolling.bind RollingUpdate.maxSurge) desired true 25
  let maxUnavailable := resolveIntOrStr (rolling.bind RollingUpdate.maxUnavailable) desired false 25
  resolveFenceposts maxSurge maxUnavailable desired

/-- A scale only when the count differs. -/
def scaleTo (rs : ReplicaSet) (target : Int) : List Write :=
  if rsReplicas rs = target then [] else [.scale rs.name target]

def recreate (desired : Int) (old : List ReplicaSet) (newRs : ReplicaSet) : List Write :=
  let oldSettled := old.all fun rs => rsStatusReplicas rs == 0
  old.flatMap (scaleTo · 0) ++ scaleTo newRs (if oldSettled then desired else 0)

def rollingUpdate (spec : DeploymentSpec) (old : List ReplicaSet) (newRs : ReplicaSet) : List Write :=
  let desired := desiredReplicas spec
  let (maxSurge, maxUnavailable) := resolvedBudgets spec
  let oldTotal := wrappedSum 32 (old.map rsReplicas)
  let oldAvailable := wrappedSum 32 (old.map rsAvailable)
  let currentTotal := i32 (oldTotal + rsReplicas newRs)
  let newTarget := newRsDesiredReplicas desired maxSurge currentTotal (rsReplicas newRs)
  let availableTotal := i32 (oldAvailable + rsAvailable newRs)
  let budget := scaleDownBudget desired maxUnavailable availableTotal newTarget (rsAvailable newRs)
  scaleTo newRs newTarget ++
    (scaleDownOld (old.map fun rs => (rs.name, rsReplicas rs)) budget).map fun cut => .scale cut.1 cut.2

/-- Old ReplicaSets past the history limit that have nothing left. -/
def cleanup (spec : DeploymentSpec) (old : List ReplicaSet) : List Write :=
  let limit := (max (spec.revisionHistoryLimit.getD 10) 0).toNat
  let drained := (old.filter fun rs => rsReplicas rs == 0 && rsStatusReplicas rs == 0).insertionSort createdBefore
  (drained.take (drained.length - limit)).map fun rs => .delete rs.name

def deploymentStatus (d : Deployment) (desired : Int) (owned : List ReplicaSet) (newRs : ReplicaSet) : DeploymentStatus :=
  let availableReplicas := wrappedSum 32 (owned.map rsAvailable)
  { replicas := some (wrappedSum 32 (owned.map rsStatusReplicas))
    updatedReplicas := some (rsStatusReplicas newRs)
    readyReplicas := some (wrappedSum 32 (owned.map rsReady))
    availableReplicas := some availableReplicas
    unavailableReplicas := some (max (i32 (desired - availableReplicas)) 0)
    observedGeneration := d.generation }

/-- The pass from the point where the new ReplicaSet is known. -/
def rollout (d : Deployment) (spec : DeploymentSpec) (owned : List ReplicaSet) (newRs : ReplicaSet) : List Write :=
  let desired := desiredReplicas spec
  let old := oldReplicaSets owned newRs
  let status := deploymentStatus d desired owned newRs
  (if isRecreate spec then recreate desired old newRs else rollingUpdate spec old newRs) ++ cleanup spec old ++
    if d.status = some status then [] else [.status status]

def reconcileDeployment (d : Deployment) (rsCache : SortedMap String ReplicaSet) (authority : Authority)
    (create : ReplicaSet -> CreateReply) : Decision :=
  if d.deletionTimestamp.isSome then ⟨[], false⟩
  else
    match d.uid, d.spec with
    | some uid, some spec =>
      if spec.paused = some true then ⟨[], false⟩
      else
        let hash := computeTemplateHash spec.template
        let owned := ownedReplicaSets d uid rsCache
        match newReplicaSet hash owned with
        | some newRs => ⟨rollout d spec owned newRs, false⟩
        | none =>
          match authority with
          | .changed => ⟨[], false⟩
          | .failed => ⟨[], true⟩
          | .same =>
            let new := buildNewReplicaSet d uid hash 0
            match create new with
            | .created newRs => ⟨.create new :: rollout d spec owned newRs, false⟩
            | .alreadyExists => ⟨[.create new], false⟩
            | .failed => ⟨[.create new], true⟩
    | _, _ => ⟨[], false⟩

end NotK8s.Controllers

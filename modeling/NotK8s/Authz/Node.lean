import NotK8s.Authz.FieldSelector

namespace NotK8s.Authz

open FieldSelector

/-!
# The Node authorizer

The branches whose answer depends on the stored Pods.  A Pod is modelled by
what refers to other objects, and by the fields that can be selected on.
-/

inductive Decision where
  | allow | noOpinion | deny
  deriving DecidableEq

structure Identity where
  name : String
  groups : List String

/-- The objects a Pod can refer to. -/
inductive Referent where
  | secrets
  | configMaps
  | persistentVolumeClaims
  | resourceClaims
  deriving DecidableEq

/-! ## Pods -/

/-- The names in the two references that an entry may have. -/
structure ObjectRefs where
  secret : Option String
  configMap : Option String
  deriving DecidableEq

def ObjectRefs.get (refs : ObjectRefs) : Referent -> Option String
  | .secrets => refs.secret
  | .configMaps => refs.configMap
  | .persistentVolumeClaims | .resourceClaims => none

/-- `env` has the key references of the variables, `envFrom` its entries. -/
structure Container where
  env : List ObjectRefs
  envFrom : List ObjectRefs
  deriving DecidableEq

/-- `refs` are the Secret or ConfigMap that the volume itself is made of. -/
structure Volume where
  name : String
  refs : ObjectRefs
  projected : List ObjectRefs
  claimName : Option String
  ephemeral : Bool
  deriving DecidableEq

structure PodResourceClaim where
  name : String
  resourceClaimName : Option String
  deriving DecidableEq

structure Pod where
  inNamespace : String
  name : String
  nodeName : Option String
  volumes : List Volume
  imagePullSecrets : List String
  containers : List Container
  initContainers : List Container
  ephemeralContainers : List Container
  resourceClaims : List PodResourceClaim
  resourceClaimStatuses : List PodResourceClaim
  /-- The scalars at all other paths. -/
  otherField : String -> Option String

namespace Pod
variable (pod : Pod)

def fieldValue (field : String) : Option String :=
  if field = "metadata.name" then some pod.name
  else if field = "metadata.namespace" then some pod.inNamespace
  else if field = "spec.nodeName" then pod.nodeName
  else pod.otherField field

def allContainers : List Container :=
  pod.containers ++ pod.initContainers ++ pod.ephemeralContainers

def referencedNames (referent : Referent) : List String :=
  match referent with
  | .persistentVolumeClaims => pod.volumes.filterMap Volume.claimName
  | .resourceClaims => pod.resourceClaims.map PodResourceClaim.name
  | .secrets | .configMaps =>
    pod.volumes.filterMap (fun volume => volume.refs.get referent) ++
      (if referent = .secrets then pod.imagePullSecrets else []) ++
      pod.allContainers.flatMap fun container =>
        container.envFrom.filterMap (fun refs => refs.get referent) ++
          container.env.filterMap fun refs => refs.get referent

def podReferences (referent : Referent) (name : String) : Bool :=
  (pod.referencedNames referent).any fun candidate => candidate == name

end Pod

/-! ## Requests -/

structure RequestInfo where
  verb : String
  subresource : String
  inNamespace : String
  name : String
  fieldSelector : String

def nodePrefix : String :=
  "system:node:"

/-- The node that an identity is, if it is one. -/
def nodeName (identity : Option Identity) : Option String := do
  let identity ← identity
  let name ← nodePrefix.toList.isPrefixOf? identity.name.toList
  if name.isEmpty || !identity.groups.contains "system:nodes" then none else some (String.ofList name)

def isValidPathSegmentName (name : String) : Bool :=
  name != "" && name != "." && name != ".." && !name.toList.contains '/'

/-- A list of exactly one object by its name is a request with that name. -/
def nameOfSelector (fieldSelector : String) : String :=
  match parseFieldSelector fieldSelector with
  | some [r] => if r.field = "metadata.name" ∧ r.negated = false ∧ isValidPathSegmentName r.value = true then r.value else ""
  | some _ | none => ""

/-- A list or watch of Pods.  The second way to ask for a watch has the name
in the path, and its query is not read. -/
inductive PodsRequest where
  | collection (watch : Bool) (inNamespace fieldSelector : String)
  | watchPath (inNamespace name : String)

def PodsRequest.info : PodsRequest -> RequestInfo
  | .collection watch inNamespace fieldSelector =>
    { verb := if watch then "watch" else "list", subresource := "", inNamespace := inNamespace,
      name := nameOfSelector fieldSelector, fieldSelector := fieldSelector }
  | .watchPath inNamespace name =>
    { verb := "watch", subresource := "", inNamespace := inNamespace, name := name, fieldSelector := "" }

/-! ## The authorizer -/

section
variable (stored : List Pod) (node : String) (info : RequestInfo)

def relatedPod (inNamespace name : String) : Bool :=
  match stored.find? fun pod => pod.inNamespace = inNamespace ∧ pod.name = name with
  | some pod => pod.nodeName == some node
  | none => false

/-- The Pods of a node as a list by field selector gives them.  None is an
error. -/
def podsOnNode (inNamespace : String) : Option (List Pod) :=
  match parseFieldSelector ("spec.nodeName=" ++ node) with
  | none => none
  | some requirements =>
    if !validateFieldSelector requirements then none
    else
      some (((stored.filter fun pod => pod.inNamespace = inNamespace).filter fun pod =>
        matchesFields requirements pod.fieldValue).filter fun pod => pod.nodeName = some node)

def hasExactFieldSelector (selector field value : String) : Bool :=
  match parseFieldSelector selector with
  | some requirements => requirements.any fun r => r.field = field ∧ r.negated = false ∧ r.value = value
  | none => false

def permit (related : Bool) : Decision :=
  if related then .allow else .deny

/-- Whether a Pod on the node refers to the object. -/
def referenceAccess (referent : Referent) : Option Decision :=
  (podsOnNode stored node info.inNamespace).map fun pods =>
    permit (pods.any fun pod => pod.podReferences referent info.name)

def namedPodReferenceAccess (referent : Referent) : Option Decision :=
  if !(["get", "list", "watch"].contains info.verb) || info.subresource != "" || info.inNamespace == "" || info.name == "" then
    some .deny
  else referenceAccess stored node info referent

def pvcAccess : Option Decision :=
  if info.inNamespace == "" || info.name == "" then some .deny
  else if info.subresource == "status" then
    if !(["update", "patch"].contains info.verb) then some .deny
    else referenceAccess stored node info .persistentVolumeClaims
  else if info.subresource == "" && info.verb == "get" then referenceAccess stored node info .persistentVolumeClaims
  else some .deny

def resourceClaimAccess : Option Decision :=
  if info.verb != "get" || info.subresource != "" || info.inNamespace == "" || info.name == "" then some .deny
  else referenceAccess stored node info .resourceClaims

def podAccess : Decision :=
  if info.subresource == "status" then
    if ["update", "patch"].contains info.verb && info.name != "" then
      permit (relatedPod stored node info.inNamespace info.name)
    else .deny
  else if info.subresource != "" then .noOpinion
  else if ["list", "watch"].contains info.verb && hasExactFieldSelector info.fieldSelector "spec.nodeName" node then .allow
  else if ["get", "list", "watch"].contains info.verb && info.name != "" then
    permit (relatedPod stored node info.inNamespace info.name)
  else if ["create", "delete"].contains info.verb then .allow
  else .deny

end

/-- The answer to a request for an object that a Pod can refer to. -/
def authorizeReferent (stored : List Pod) (identity : Option Identity) (referent : Referent) (info : RequestInfo) :
    Option Decision :=
  match nodeName identity with
  | none => some .noOpinion
  | some node =>
    match referent with
    | .secrets | .configMaps => namedPodReferenceAccess stored node info referent
    | .persistentVolumeClaims => pvcAccess stored node info
    | .resourceClaims => resourceClaimAccess stored node info

/-- The answer to a request for Pods. -/
def authorizePods (stored : List Pod) (identity : Option Identity) (info : RequestInfo) : Decision :=
  match nodeName identity with
  | none => .noOpinion
  | some node => podAccess stored node info

/-! ## What a Pod needs -/

def ephemeralPvcName (podName volumeName : String) : String :=
  podName ++ "-" ++ volumeName

/-- The object that an entry for a resource claim stands for: the one it
names, or the one generated for it. -/
def resourceClaimObjectName (claim : PodResourceClaim) (statuses : List PodResourceClaim) : Option String :=
  match claim.resourceClaimName with
  | some name => some name
  | none => (statuses.find? fun status => status.name = claim.name).bind PodResourceClaim.resourceClaimName

namespace Pod
variable (pod : Pod) (referent : Referent) (name : String)

/-- A volume, a container or the image pull secrets have the name itself. -/
def Names : Prop :=
  (Exists fun volume => volume ∈ pod.volumes ∧ volume.refs.get referent = some name) ∨
    (referent = .secrets ∧ name ∈ pod.imagePullSecrets) ∨
    Exists fun container => container ∈ pod.allContainers ∧ Exists fun refs =>
      (refs ∈ container.env ∨ refs ∈ container.envFrom) ∧ refs.get referent = some name

def Projects : Prop :=
  Exists fun volume => volume ∈ pod.volumes ∧ Exists fun refs => refs ∈ volume.projected ∧ refs.get referent = some name

def Claims : Prop :=
  Exists fun volume => volume ∈ pod.volumes ∧ volume.claimName = some name

def Generates : Prop :=
  Exists fun volume => volume ∈ pod.volumes ∧ volume.ephemeral = true ∧ ephemeralPvcName pod.name volume.name = name

def Reserves : Prop :=
  Exists fun claim => claim ∈ pod.resourceClaims ∧
    resourceClaimObjectName claim pod.resourceClaimStatuses = some name

/-- The Pod refers to the object, in any way that the Pod API has. -/
def Uses : Prop :=
  match referent with
  | .secrets | .configMaps => pod.Names referent name ∨ pod.Projects referent name
  | .persistentVolumeClaims => pod.Claims name ∨ pod.Generates name
  | .resourceClaims => pod.Reserves name

end Pod

end NotK8s.Authz

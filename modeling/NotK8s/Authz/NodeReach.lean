import Mathlib.Logic.Basic
import NotK8s.Authz.Node

namespace NotK8s.Authz

open FieldSelector

/-!
# What a node reaches

The answer of the authorizer against what the Pods of the node refer to.
-/

/-! ## References -/

section
variable {pod : Pod} {referent : Referent} {name : String}

theorem podReferences_iff : pod.podReferences referent name = true <-> name ∈ pod.referencedNames referent := by
  simp [Pod.podReferences]

theorem mem_referencedNames_object (object : referent = .secrets ∨ referent = .configMaps) :
    name ∈ pod.referencedNames referent <-> pod.Names referent name := by
  have same : pod.referencedNames referent =
      pod.volumes.filterMap (fun volume => volume.refs.get referent) ++
        (if referent = .secrets then pod.imagePullSecrets else []) ++
        pod.allContainers.flatMap fun container =>
          container.envFrom.filterMap (fun refs => refs.get referent) ++
            container.env.filterMap fun refs => refs.get referent := by
    rcases object with rfl | rfl <;> rfl
  rw [same, Pod.Names]
  simp only [List.mem_append, List.mem_filterMap, List.mem_flatMap, or_assoc]
  apply or_congr Iff.rfl
  apply or_congr
  · by_cases secrets : referent = .secrets
    · simp [secrets]
    · simp [secrets]
  · constructor
    · rintro ⟨container, member, ⟨refs, inList, isName⟩ | ⟨refs, inList, isName⟩⟩
      · exact ⟨container, member, refs, Or.inr inList, isName⟩
      · exact ⟨container, member, refs, Or.inl inList, isName⟩
    · rintro ⟨container, member, refs, inList | inList, isName⟩
      · exact ⟨container, member, Or.inr ⟨refs, inList, isName⟩⟩
      · exact ⟨container, member, Or.inl ⟨refs, inList, isName⟩⟩

theorem mem_referencedNames_pvc : name ∈ pod.referencedNames .persistentVolumeClaims <-> pod.Claims name := by
  simp [Pod.referencedNames, Pod.Claims]

theorem mem_referencedNames_resourceClaim :
    name ∈ pod.referencedNames .resourceClaims <->
      Exists fun claim => claim ∈ pod.resourceClaims ∧ claim.name = name := by
  simp [Pod.referencedNames]

end

/-! ## The Pods of a node -/

section
variable (stored : List Pod) (node inNamespace : String)

/-- The Pods of the node in a namespace. -/
def onNode : List Pod :=
  stored.filter fun pod => pod.inNamespace = inNamespace ∧ pod.nodeName = some node

/-- The selector that the authorizer makes of the node's name. -/
def nodeSelector : Option (List FieldRequirement) :=
  (parseFieldSelector ("spec.nodeName=" ++ node)).filter validateFieldSelector

/-- Those Pods of the node that its selector finds. -/
def found (requirements : List FieldRequirement) : List Pod :=
  (onNode stored node inNamespace).filter fun pod => matchesFields requirements pod.fieldValue

theorem podsOnNode_eq :
    podsOnNode stored node inNamespace = (nodeSelector node).map (found stored node inNamespace) := by
  unfold podsOnNode nodeSelector
  cases parsed : parseFieldSelector ("spec.nodeName=" ++ node) with
  | none => rfl
  | some requirements =>
    cases valid : validateFieldSelector requirements with
    | false => simp [valid, Option.filter_some]
    | true =>
      simp only [valid, Bool.not_true, Bool.false_eq_true, if_false, Option.filter_some, if_true, Option.map_some,
        found, onNode, List.filter_filter]
      congr 1
      apply List.filter_congr
      intro pod _
      simp only [Bool.decide_and]
      cases decide (pod.inNamespace = inNamespace) <;> cases decide (pod.nodeName = some node) <;>
        cases matchesFields requirements pod.fieldValue <;> rfl

end

section
variable {stored : List Pod} {node inNamespace : String} {requirements : List FieldRequirement} {pod : Pod}

theorem onNode_of_found (member : pod ∈ found stored node inNamespace requirements) :
    pod ∈ onNode stored node inNamespace :=
  List.mem_of_mem_filter member

end

/-! ## What is promised -/

/-- The requests that a node may make for an object by its name. -/
def Served (referent : Referent) (info : RequestInfo) : Prop :=
  info.inNamespace ≠ "" ∧ info.name ≠ "" ∧
    match referent with
    | .secrets | .configMaps => info.subresource = "" ∧ info.verb ∈ ["get", "list", "watch"]
    | .persistentVolumeClaims =>
      (info.subresource = "" ∧ info.verb = "get") ∨ (info.subresource = "status" ∧ info.verb ∈ ["update", "patch"])
    | .resourceClaims => info.subresource = "" ∧ info.verb = "get"

/-- The node is allowed exactly what its Pods refer to, and denied the
rest. -/
def Sees (stored : List Pod) (identity : Option Identity) (node : String) (referent : Referent) (info : RequestInfo) :
    Prop :=
  (authorizeReferent stored identity referent info = some .allow <->
    Served referent info ∧ Exists fun pod => pod ∈ onNode stored node info.inNamespace ∧ pod.Uses referent info.name) ∧
  (authorizeReferent stored identity referent info ≠ some .allow ->
    authorizeReferent stored identity referent info = some .deny)

/-- The Pods that a list or watch can show. -/
def PodsRequest.Shows (pod : Pod) : PodsRequest -> Prop
  | .collection _ inNamespace fieldSelector =>
    (inNamespace = "" ∨ pod.inNamespace = inNamespace) ∧
      Exists fun requirements => parseFieldSelector fieldSelector = some requirements ∧
        matchesFields requirements pod.fieldValue = true
  | .watchPath inNamespace _ => inNamespace = "" ∨ pod.inNamespace = inNamespace

/-- Pods are shown only if all that can be are the node's own. -/
def Scoped (stored : List Pod) (identity : Option Identity) (node : String) (request : PodsRequest) : Prop :=
  authorizePods stored identity request.info = .allow -> forall pod, request.Shows pod -> pod.nodeName = some node

/-! ## When it holds -/

/-- The node's selector can be read, and what its Pods refer to is also
referred to in a way that is looked at. -/
def Complete (stored : List Pod) (node : String) (referent : Referent) (info : RequestInfo) : Prop :=
  Exists fun requirements => nodeSelector node = some requirements ∧
    match referent with
    | .secrets | .configMaps =>
      (Exists fun pod => pod ∈ onNode stored node info.inNamespace ∧
        (pod.Names referent info.name ∨ pod.Projects referent info.name)) ->
      Exists fun pod => pod ∈ found stored node info.inNamespace requirements ∧ pod.Names referent info.name
    | .persistentVolumeClaims =>
      (Exists fun pod => pod ∈ onNode stored node info.inNamespace ∧ (pod.Claims info.name ∨ pod.Generates info.name)) ->
      Exists fun pod => pod ∈ found stored node info.inNamespace requirements ∧ pod.Claims info.name
    | .resourceClaims =>
      (Exists fun pod => pod ∈ onNode stored node info.inNamespace ∧ pod.Reserves info.name) <->
      Exists fun pod => pod ∈ found stored node info.inNamespace requirements ∧
        Exists fun claim => claim ∈ pod.resourceClaims ∧ claim.name = info.name

/-- A list or watch that is allowed for the sake of one Pod. -/
def ByName (stored : List Pod) (node : String) (request : PodsRequest) : Prop :=
  request.info.name ≠ "" ∧ relatedPod stored node request.info.inNamespace request.info.name = true

section
variable {stored : List Pod} {identity : Option Identity} {node : String} {referent : Referent} {info : RequestInfo}

theorem permit_eq_allow {related : Bool} : permit related = .allow <-> related = true := by
  cases related <;> simp [permit]

theorem permit_ne_allow {related : Bool} (refused : permit related ≠ .allow) : permit related = .deny := by
  cases related with
  | true => exact absurd rfl refused
  | false => rfl

theorem authorizeReferent_of_served (isNode : nodeName identity = some node) (served : Served referent info) :
    authorizeReferent stored identity referent info = referenceAccess stored node info referent := by
  rcases served with ⟨inNamespace, named, verb⟩
  unfold authorizeReferent
  simp only [isNode]
  cases referent with
  | secrets | configMaps => simp_all [namedPodReferenceAccess]
  | persistentVolumeClaims =>
    rcases verb with ⟨whole, isGet⟩ | ⟨isStatus, writes⟩
    · simp [pvcAccess, inNamespace, named, whole, isGet]
    · simp_all [pvcAccess]
  | resourceClaims => simp_all [resourceClaimAccess]

theorem authorizeReferent_of_not_served (isNode : nodeName identity = some node) (served : ¬ Served referent info) :
    authorizeReferent stored identity referent info = some .deny := by
  unfold authorizeReferent
  simp only [isNode]
  cases referent with
  | secrets | configMaps =>
    apply if_pos
    by_contra guard
    simp only [Bool.or_eq_true, Bool.not_eq_true', bne_iff_ne, beq_iff_eq, not_or, not_not, Bool.not_eq_false,
      List.contains_iff_mem] at guard
    exact served ⟨guard.1.2, guard.2, guard.1.1.2, guard.1.1.1⟩
  | persistentVolumeClaims =>
    simp only [pvcAccess, Bool.or_eq_true, Bool.and_eq_true, beq_iff_eq, Bool.not_eq_true',
      ← Bool.not_eq_true, List.contains_iff_mem]
    split
    · rfl
    · rename_i named
      rw [not_or] at named
      split
      · rename_i isStatus
        apply if_pos
        intro writes
        exact served ⟨named.1, named.2, Or.inr ⟨isStatus, writes⟩⟩
      · apply if_neg
        intro whole
        exact served ⟨named.1, named.2, Or.inl whole⟩
  | resourceClaims =>
    apply if_pos
    by_contra guard
    simp only [Bool.or_eq_true, bne_iff_ne, beq_iff_eq, not_or, not_not] at guard
    exact served ⟨guard.1.2, guard.2, guard.1.1.2, guard.1.1.1⟩

theorem any_podReferences {pods : List Pod} {name : String} :
    (pods.any fun pod => pod.podReferences referent name) = true <->
      Exists fun pod => pod ∈ pods ∧ name ∈ pod.referencedNames referent := by
  simp only [List.any_eq_true, podReferences_iff]

theorem sees_iff_of_served (isNode : nodeName identity = some node) (served : Served referent info) :
    Sees stored identity node referent info <->
      Exists fun requirements => nodeSelector node = some requirements ∧
        ((Exists fun pod => pod ∈ onNode stored node info.inNamespace ∧ pod.Uses referent info.name) <->
          Exists fun pod => pod ∈ found stored node info.inNamespace requirements ∧
            info.name ∈ pod.referencedNames referent) := by
  unfold Sees
  rw [authorizeReferent_of_served isNode served, referenceAccess, podsOnNode_eq]
  cases selector : nodeSelector node with
  | none =>
    constructor
    · rintro ⟨_, denied⟩
      have answered := denied (by simp)
      simp at answered
    · rintro ⟨requirements, impossible, _⟩
      cases impossible
  | some requirements =>
    simp only [Option.map_some, Option.some.injEq, permit_eq_allow, any_podReferences, exists_eq_left', served,
      true_and]
    constructor
    · rintro ⟨same, _⟩
      exact same.symm
    · intro same
      refine ⟨same.symm, fun refused => ?_⟩
      apply permit_ne_allow
      intro allowed
      exact refused (congrArg some allowed)

theorem complete_iff :
    Complete stored node referent info <->
      Exists fun requirements => nodeSelector node = some requirements ∧
        ((Exists fun pod => pod ∈ onNode stored node info.inNamespace ∧ pod.Uses referent info.name) <->
          Exists fun pod => pod ∈ found stored node info.inNamespace requirements ∧
            info.name ∈ pod.referencedNames referent) := by
  apply exists_congr
  intro requirements
  apply and_congr_right
  intro _
  cases referent with
  | secrets =>
    simp only [Pod.Uses, mem_referencedNames_object (Or.inl rfl)]
    exact (iff_iff_implies_and_implies.trans (and_iff_left fun ⟨pod, member, names⟩ =>
      ⟨pod, onNode_of_found member, Or.inl names⟩)).symm
  | configMaps =>
    simp only [Pod.Uses, mem_referencedNames_object (Or.inr rfl)]
    exact (iff_iff_implies_and_implies.trans (and_iff_left fun ⟨pod, member, names⟩ =>
      ⟨pod, onNode_of_found member, Or.inl names⟩)).symm
  | persistentVolumeClaims =>
    simp only [Pod.Uses, mem_referencedNames_pvc]
    exact (iff_iff_implies_and_implies.trans (and_iff_left fun ⟨pod, member, claims⟩ =>
      ⟨pod, onNode_of_found member, Or.inl claims⟩)).symm
  | resourceClaims =>
    simp only [Pod.Uses, mem_referencedNames_resourceClaim]

theorem sees_iff (isNode : nodeName identity = some node) :
    Sees stored identity node referent info <-> (Served referent info -> Complete stored node referent info) := by
  by_cases served : Served referent info
  · rw [sees_iff_of_served isNode served, complete_iff]
    exact ⟨fun complete _ => complete, fun complete => complete served⟩
  · have denied : authorizeReferent stored identity referent info = some .deny :=
      authorizeReferent_of_not_served isNode served
    refine iff_of_true ⟨?_, fun _ => denied⟩ fun impossible => absurd impossible served
    rw [denied]
    exact iff_of_false (by simp) fun allowed => served allowed.1

/-! ## Lists and watches -/

theorem hasExact_scoped {selector : String} {pod : Pod} {requirements : List FieldRequirement}
    (exact_ : hasExactFieldSelector selector "spec.nodeName" node = true)
    (parsed : parseFieldSelector selector = some requirements)
    (selected : matchesFields requirements pod.fieldValue = true) : pod.nodeName = some node := by
  unfold hasExactFieldSelector at exact_
  simp only [parsed, List.any_eq_true, decide_eq_true_eq] at exact_
  rcases exact_ with ⟨r, member, field, positive, value⟩
  have met := getField_of_matches selected member positive
  rw [field, value] at met
  exact met

theorem nameOfSelector_spec {selector : String} (named : nameOfSelector selector ≠ "") :
    parseFieldSelector selector = some [⟨"metadata.name", nameOfSelector selector, false⟩] := by
  unfold nameOfSelector at named ⊢
  cases parsed : parseFieldSelector selector with
  | none => simp [parsed] at named
  | some requirements =>
    rcases requirements with _ | ⟨r, _ | ⟨second, rest⟩⟩
    · simp [parsed] at named
    · simp only [parsed, ne_eq, ite_eq_right_iff, not_forall] at named ⊢
      rcases named with ⟨isName, _⟩
      rw [if_pos isName]
      cases r
      rcases isName with ⟨rfl, rfl, _⟩
      rfl
    · simp [parsed] at named

theorem authorizePods_allow_iff {request : PodsRequest} (isNode : nodeName identity = some node) :
    authorizePods stored identity request.info = .allow <->
      hasExactFieldSelector request.info.fieldSelector "spec.nodeName" node = true ∨ ByName stored node request := by
  have verbs : request.info.subresource = "" ∧ (request.info.verb = "list" ∨ request.info.verb = "watch") := by
    rcases request with ⟨watch, inNamespace, fieldSelector⟩ | ⟨inNamespace, name⟩
    · cases watch
      · exact ⟨rfl, Or.inl rfl⟩
      · exact ⟨rfl, Or.inr rfl⟩
    · exact ⟨rfl, Or.inr rfl⟩
  rcases verbs with ⟨whole, verb⟩
  unfold authorizePods podAccess ByName
  simp only [isNode, whole]
  cases hasExactFieldSelector request.info.fieldSelector "spec.nodeName" node with
  | true => rcases verb with verb | verb <;> simp [verb]
  | false =>
    by_cases named : request.info.name = ""
    · rcases verb with verb | verb <;> simp [verb, named]
    · rcases verb with verb | verb <;> simp [verb, named, permit_eq_allow]

/-- A Pod of the name that is on no node. -/
def unassigned (inNamespace name : String) : Pod where
  inNamespace := inNamespace
  name := name
  nodeName := none
  volumes := []
  imagePullSecrets := []
  containers := []
  initContainers := []
  ephemeralContainers := []
  resourceClaims := []
  resourceClaimStatuses := []
  otherField := fun _ => none

theorem shows_unassigned {request : PodsRequest} (byName : ByName stored node request) :
    request.Shows (unassigned request.info.inNamespace request.info.name) := by
  rcases request with ⟨watch, inNamespace, fieldSelector⟩ | ⟨inNamespace, name⟩
  · have only := nameOfSelector_spec byName.1
    refine ⟨Or.inr rfl, _, only, ?_⟩
    simp [matchesFields, Pod.fieldValue, unassigned, PodsRequest.info]
  · exact Or.inr rfl

theorem scoped_iff {request : PodsRequest} (isNode : nodeName identity = some node) :
    Scoped stored identity node request <-> ¬ ByName stored node request := by
  unfold Scoped
  rw [authorizePods_allow_iff isNode]
  constructor
  · intro own byName
    have assigned := own (Or.inr byName) _ (shows_unassigned byName)
    cases assigned
  · intro notByName allowed pod shown
    rcases allowed with exact_ | byName
    · rcases request with ⟨watch, inNamespace, fieldSelector⟩ | ⟨inNamespace, name⟩
      · rcases shown with ⟨_, requirements, parsed, selected⟩
        exact hasExact_scoped exact_ parsed selected
      · cases exact_
    · exact absurd byName notByName

/-- A node sees exactly what its Pods need exactly when its selector can be
read and every object its Pods need is referred to in a way that is looked at,
and no list or watch is allowed for the sake of one Pod. -/
theorem sees_and_scoped_iff {request : PodsRequest} (isNode : nodeName identity = some node) :
    (Sees stored identity node referent info ∧ Scoped stored identity node request) <->
      (Served referent info -> Complete stored node referent info) ∧ ¬ ByName stored node request :=
  and_congr (sees_iff isNode) (scoped_iff isNode)

end

/-! ## Plain names -/

section
variable {node : String}

/-- A name without the characters that selectors are made of. -/
def PlainName (node : String) : Prop :=
  forall c, c ∈ node.toList -> c ≠ ',' ∧ c ≠ '\\' ∧ c ≠ '=' ∧ c ≠ '!'

theorem splitFieldTerms_plain {chars : List Char} (plain : forall c, c ∈ chars -> c ≠ ',' ∧ c ≠ '\\') :
    splitFieldTerms false chars = [chars] := by
  induction chars with
  | nil => rfl
  | cons c rest ih =>
    have here := plain c (.head _)
    have later := ih fun d member => plain d (List.mem_cons_of_mem c member)
    have noSlash : (c == '\\') = false := beq_eq_false_iff_ne.mpr here.2
    simp [splitFieldTerms, here.1, noSlash, later]

theorem splitAt?_none {op : Char} {more chars : List Char} (absent : op ∉ chars) :
    splitAt? (op :: more) chars = none := by
  induction chars with
  | nil => rfl
  | cons c rest ih =>
    rw [List.mem_cons, not_or] at absent
    simp [splitAt?, List.isPrefixOf, absent.1, ih absent.2]

theorem splitAt?_append {op : List Char} {first : Char} {lead chars : List Char} (absent : first ∉ lead) :
    splitAt? (first :: op) (lead ++ chars) =
      (splitAt? (first :: op) chars).map fun parts => (lead ++ parts.1, parts.2) := by
  induction lead with
  | nil => simp
  | cons c rest ih =>
    rw [List.mem_cons, not_or] at absent
    simp [splitAt?, List.isPrefixOf, absent.1, ih absent.2, Option.map_map, Function.comp_def]

theorem plainName_of_all {name : String}
    (all : (name.toList.all fun c => c != ',' && c != '\\' && c != '=' && c != '!') = true) : PlainName name := by
  intro c member
  have apart := List.all_eq_true.mp all c member
  simp only [Bool.and_eq_true, bne_iff_ne] at apart
  exact ⟨apart.1.1.1, apart.1.1.2, apart.1.2, apart.2⟩

theorem nodeSelector_plain (plain : PlainName node) :
    nodeSelector node = some [⟨"spec.nodeName", node, false⟩] := by
  have equals : '=' ∉ node.toList := fun member => (plain '=' member).2.2.1 rfl
  have bang : '!' ∉ node.toList := fun member => (plain '!' member).2.2.2 rfl
  have field : PlainName "spec.nodeName" := plainName_of_all (by decide)
  have lead : '=' ∉ "spec.nodeName".toList := fun member => (field '=' member).2.2.1 rfl
  have chars : ("spec.nodeName=" ++ node).toList = "spec.nodeName".toList ++ '=' :: node.toList := by
    simp
  have filled : ("spec.nodeName=" ++ node).isEmpty = false := by
    rw [Bool.eq_false_iff]
    intro empty
    rw [String.isEmpty_iff.mp empty] at chars
    cases chars
  have oneTerm : splitFieldTerms false ("spec.nodeName".toList ++ '=' :: node.toList) =
      ["spec.nodeName".toList ++ '=' :: node.toList] := by
    apply splitFieldTerms_plain
    intro c member
    rcases List.mem_append.mp member with inField | later
    · exact ⟨(field c inField).1, (field c inField).2.1⟩
    · rcases List.mem_cons.mp later with rfl | inName
      · decide
      · exact ⟨(plain c inName).1, (plain c inName).2.1⟩
  have noBang : splitAt? ['!', '='] ("spec.nodeName".toList ++ '=' :: node.toList) = none := by
    apply splitAt?_none
    intro member
    rcases List.mem_append.mp member with inField | later
    · exact (field '!' inField).2.2.2 rfl
    · rcases List.mem_cons.mp later with impossible | inName
      · cases impossible
      · exact bang inName
  have noDouble : splitAt? ['=', '='] ("spec.nodeName".toList ++ '=' :: node.toList) = none := by
    have alone : ['=', '='].isPrefixOf ('=' :: node.toList) = false := by
      cases start : node.toList with
      | nil => rfl
      | cons c rest =>
        have other : '=' ≠ c := fun equal => equals (by rw [start, equal]; exact .head _)
        simp [List.isPrefixOf, other]
    rw [splitAt?_append lead, splitAt?, alone, splitAt?_none equals]
    rfl
  have single : splitAt? ['='] ("spec.nodeName".toList ++ '=' :: node.toList) =
      some ("spec.nodeName".toList, node.toList) := by
    rw [splitAt?_append lead, splitAt?]
    simp [List.isPrefixOf]
  have parsed : parseFieldSelector ("spec.nodeName=" ++ node) = some [⟨"spec.nodeName", node, false⟩] := by
    unfold parseFieldSelector
    simp only [filled, Bool.false_eq_true, if_false, chars, oneTerm, List.mapM_cons, List.mapM_nil, parseFieldTerm, noBang,
      noDouble, single, Option.map_none, Option.map_some, Option.none_or, requirement, String.ofList_toList]
    rfl
  rw [nodeSelector, parsed, Option.filter_some]
  rfl

theorem found_plain (stored : List Pod) (inNamespace : String) :
    found stored node inNamespace [⟨"spec.nodeName", node, false⟩] = onNode stored node inNamespace := by
  apply List.filter_eq_self.mpr
  intro pod member
  have assigned := (List.mem_filter.mp member).2
  rw [decide_eq_true_eq] at assigned
  simp [matchesFields, Pod.fieldValue, assigned.2]

end

/-! ## A Pod with a projected volume -/

def workerIdentity : Option Identity :=
  some { name := "system:node:worker-1", groups := ["system:nodes"] }

def projectedPod : Pod :=
  { unassigned "shop" "web" with
    nodeName := some "worker-1"
    volumes :=
      [{ name := "keys", refs := ⟨none, none⟩, projected := [⟨some "tls", none⟩], claimName := none, ephemeral := false }] }

def mountingPod : Pod :=
  { projectedPod with
    volumes :=
      [{ name := "keys", refs := ⟨some "tls", none⟩, projected := [], claimName := none, ephemeral := false }] }

def getTls : RequestInfo where
  verb := "get"
  subresource := ""
  inNamespace := "shop"
  name := "tls"
  fieldSelector := ""

def ownPods : PodsRequest :=
  .collection true "" "spec.nodeName=worker-1"

theorem worker_nodeName : nodeName workerIdentity = some "worker-1" := by
  decide +kernel

/-- A Secret that a volume is made of is seen. -/
theorem mountingPod_seen :
    Sees [mountingPod] workerIdentity "worker-1" .secrets getTls ∧ Scoped [mountingPod] workerIdentity "worker-1" ownPods := by
  have plain : PlainName "worker-1" := plainName_of_all (by decide)
  have mounts : mountingPod.Names .secrets "tls" := Or.inl ⟨_, .head _, rfl⟩
  refine (sees_and_scoped_iff worker_nodeName).mpr ⟨fun _ => ?_, ?_⟩
  · refine ⟨_, nodeSelector_plain plain, fun _ => ⟨mountingPod, ?_, mounts⟩⟩
    rw [found_plain]
    exact List.mem_filter.mpr ⟨.head _, by decide⟩
  · rintro ⟨named, _⟩
    exact named (by decide +kernel)

/-- One that a projected volume is made of is not. -/
theorem projectedPod_not_seen : ¬ Sees [projectedPod] workerIdentity "worker-1" .secrets getTls := by
  rintro ⟨seen, _⟩
  have uses : projectedPod.Uses .secrets "tls" :=
    Or.inr ⟨_, .head _, _, .head _, rfl⟩
  have assigned : projectedPod ∈ onNode [projectedPod] "worker-1" "shop" :=
    List.mem_filter.mpr ⟨.head _, by decide⟩
  have allowed := seen.mpr ⟨⟨by decide, by decide, rfl, by decide⟩, projectedPod, assigned, uses⟩
  exact absurd allowed (by decide +kernel)

end NotK8s.Authz

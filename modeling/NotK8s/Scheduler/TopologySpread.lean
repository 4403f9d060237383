import NotK8s.Scheduler.Selector
import NotK8s.Scheduler.Status

namespace NotK8s.Scheduler
namespace TopologySpread

open Library
open Controllers (LabelSelector Labels SelectorRequirement)

/-!
# Spreading pods over domains

Nodes with one value of a label are a domain.  A constraint counts the
matching pods of each domain that has an eligible node, and a pod may go where
its domain stays within so many of the least.
-/

def pluginName : String :=
  "PodTopologySpread"

structure Toleration where
  key : Option String
  operator : Option String
  value : Option String
  effect : Option String
  deriving DecidableEq

structure Constraint where
  maxSkew : Int
  topologyKey : String
  whenUnsatisfiable : String
  minDomains : Option Int
  labelSelector : Option LabelSelector
  matchLabelKeys : Option (List String)
  nodeAffinityPolicy : Option String
  nodeTaintsPolicy : Option String
  deriving DecidableEq

/-- What the plugin reads of a pod on a node. -/
structure PlacedPod where
  podNamespace : String
  uid : String
  labels : Labels
  deriving DecidableEq

/-- What it reads of the pod that is to be placed. -/
structure IncomingPod extends PlacedPod where
  nodeSelector : SortedMap String String
  nodeAffinity : Option NodeSelector
  tolerations : List Toleration
  topologySpreadConstraints : List Constraint

structure Node where
  name : String
  labels : Labels
  taints : List Taint
  pods : List PlacedPod

/-- The part of the node that node selectors read. -/
def Node.toInfo (node : Node) : NodeInfo :=
  { NodeInfo.default with name := node.name, labels := node.labels }

/-! ## Eligible nodes -/

def tolerationToleratesTaint (tol : Toleration) (taint : Taint) : Bool :=
  if tol.effect.any fun effect => effect ≠ "" && effect ≠ taint.effect then false
  else if tol.operator.getD "Equal" = "Exists" then (tol.key.getD "" = "" || tol.key.getD "" = taint.key)
  else tol.key.getD "" = taint.key && tol.value.getD "" = taint.value.getD ""

def findUntoleratedTaint (taints : List Taint) (tolerations : List Toleration) (effects : List String) : Option Taint :=
  taints.find? fun taint => effects.contains taint.effect && !tolerations.any fun t => tolerationToleratesTaint t taint

def nodeIsEligible (constraint : Constraint) (pod : IncomingPod) (node : Node) : Bool :=
  let affine :=
    pod.nodeSelector.entries.all (fun entry => node.labels.get entry.1 == some entry.2) &&
      pod.nodeAffinity.all fun required => matchesNodeSelector required node.toInfo
  let tolerated := (findUntoleratedTaint node.taints pod.tolerations ["NoSchedule", "NoExecute"]).isNone
  (constraint.nodeAffinityPolicy.getD "Honor" ≠ "Honor" || affine) &&
    (constraint.nodeTaintsPolicy.getD "Ignore" ≠ "Honor" || tolerated)

/-! ## Counting -/

/-- The keys that the pod has are added to the constraint's selector. -/
def effectiveSelector (constraint : Constraint) (pod : IncomingPod) : Option LabelSelector :=
  constraint.labelSelector.map fun base =>
    if (constraint.matchLabelKeys.getD []).isEmpty then base
    else
      let extra := (constraint.matchLabelKeys.getD []).filterMap fun key =>
        (pod.labels.get key).map fun value => ({ key := key, operator := "In", values := some [value] } : SelectorRequirement)
      { base with matchExpressions := some (base.matchExpressions.getD [] ++ extra) }

def podMatches (selector : Option LabelSelector) (podNamespace : String) (existing : PlacedPod) : Bool :=
  existing.podNamespace = podNamespace && matchesSelector selector existing.labels

/-- One node counted into the domains. -/
def countNode (constraint : Constraint) (selector : Option LabelSelector) (pod : IncomingPod)
    (counts : SortedMap String Int) (node : Node) : SortedMap String Int :=
  match node.labels.get constraint.topologyKey with
  | none => counts
  | some value =>
    if nodeIsEligible constraint pod node then
      counts.insert value ((counts.get value).getD 0 + node.pods.countP (podMatches selector pod.podNamespace))
    else counts

def countDomains (constraint : Constraint) (selector : Option LabelSelector) (pod : IncomingPod) (nodes : List Node) :
    SortedMap String Int :=
  nodes.foldl (countNode constraint selector pod) .empty

structure ResolvedConstraint where
  maxSkew : Int
  topologyKey : String
  hard : Bool
  minDomains : Int
  selector : Option LabelSelector
  counts : SortedMap String Int

/-- The least count, or zero while there are too few domains. -/
def ResolvedConstraint.globalMin (c : ResolvedConstraint) : Int :=
  if c.counts.entries.length < c.minDomains then 0
  else (c.counts.entries.map Prod.snd).min?.getD 0

def resolve (nodes : List Node) (pod : IncomingPod) (c : Constraint) (selector : Option LabelSelector) :
    ResolvedConstraint where
  maxSkew := max c.maxSkew 1
  topologyKey := c.topologyKey
  hard := c.whenUnsatisfiable = "DoNotSchedule"
  minDomains := c.minDomains.getD 1
  selector := selector
  counts := countDomains c selector pod nodes

/-- The constraints of a pod that has none of its own. -/
def systemDefaultConstraints : List Constraint :=
  [⟨3, "topology.kubernetes.io/zone", "ScheduleAnyway", none, none, none, none, none⟩,
    ⟨5, "kubernetes.io/hostname", "ScheduleAnyway", none, none, none, none, none⟩]

/-! ## The plugin -/

/-- The state that the plugin keeps, and its answer.  Without own constraints
the default ones are used with the selector of the workloads, if there is
one. -/
def preFilter (workloads : Option LabelSelector) (pod : IncomingPod) (nodes : List Node) :
    Option (List ResolvedConstraint) × Status :=
  let resolved :=
    if !pod.topologySpreadConstraints.isEmpty then
      pod.topologySpreadConstraints.map fun c => resolve nodes pod c (effectiveSelector c pod)
    else
      match workloads with
      | some selector => systemDefaultConstraints.map fun c => resolve nodes pod c (some selector)
      | none => []
  if resolved.isEmpty then (none, .skip)
  else
    match resolved.find? fun c => c.hard && c.counts.entries.isEmpty with
    | some c => (some resolved, .unresolvable pluginName ("no eligible domain for topology key " ++ c.topologyKey))
    | none => (some resolved, .success)

/-- What one constraint says of a node. -/
def check (c : ResolvedConstraint) (node : Node) : Status :=
  if !c.hard then .success
  else
    match node.labels.get c.topologyKey with
    | none => .unresolvable pluginName ("node(s) didn't have label " ++ c.topologyKey)
    | some value =>
      match c.counts.get value with
      | none => .unschedulable pluginName "node(s) didn't match pod topology spread constraints"
      | some current =>
        if c.maxSkew < current + 1 - c.globalMin then
          .unschedulable pluginName "node(s) didn't satisfy pod topology spread constraints (maxSkew exceeded)"
        else .success

/-- The answer of the first constraint that refuses. -/
def filter (state : Option (List ResolvedConstraint)) (node : Node) : Status :=
  match state with
  | none => .success
  | some constraints => (((constraints.map fun c => check c node).find? fun status => !status.isSuccess)).getD .success

/-- Whether the plugin lets the pod on the node. -/
def accepts (workloads : Option LabelSelector) (pod : IncomingPod) (nodes : List Node) (node : Node) : Bool :=
  let before := preFilter workloads pod nodes
  (before.2.isSkip || before.2.isSuccess) && (filter before.1 node).isSuccess

/-- A pod more or less on a node. -/
def adjust (pod : IncomingPod) (other : PlacedPod) (node : Node) (sign : Int) (c : ResolvedConstraint) :
    ResolvedConstraint :=
  match node.labels.get c.topologyKey with
  | none => c
  | some value =>
    if podMatches c.selector pod.podNamespace other then
      match c.counts.get value with
      | none => c
      | some entry => { c with counts := c.counts.insert value (entry + sign) }
    else c

end TopologySpread
end NotK8s.Scheduler

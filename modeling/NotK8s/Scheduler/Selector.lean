import NotK8s.Controllers.Disruption
import NotK8s.Scheduler.NodeInfo

namespace NotK8s.Scheduler

open Library

/-!
# Node selectors

Terms are alternatives, the requirements of one term all hold.  A selector
without terms matches nothing, a term without requirements everything.
-/

structure NodeSelectorRequirement where
  key : String
  operator : String
  values : Option (List String)
  deriving DecidableEq

structure NodeSelectorTerm where
  matchExpressions : Option (List NodeSelectorRequirement)
  matchFields : Option (List NodeSelectorRequirement)
  deriving DecidableEq

structure NodeSelector where
  nodeSelectorTerms : List NodeSelectorTerm
  deriving DecidableEq

/-- A 64-bit integer as the standard parser reads it. -/
def parseI64 (text : String) : Option Int :=
  (Text.integer text.toList).filter fun n => -2 ^ 63 ≤ n && n < 2 ^ 63

def matchesRequirement (req : NodeSelectorRequirement) (values : SortedMap String String) : Bool :=
  let actual := values.get req.key
  let wanted := req.values.getD []
  let compared (holds : Int -> Int -> Bool) : Bool :=
    match actual.bind parseI64, wanted.head?.bind parseI64 with
    | some a, some w => holds a w
    | _, _ => false
  match req.operator with
  | "In" => actual.any wanted.contains
  | "NotIn" => actual.all fun a => !wanted.contains a
  | "Exists" => actual.isSome
  | "DoesNotExist" => actual.isNone
  | "Gt" => compared fun a w => w < a
  | "Lt" => compared fun a w => a < w
  | _ => false

def matchesTerm (term : NodeSelectorTerm) (node : NodeInfo) : Bool :=
  let fields : SortedMap String String := SortedMap.empty.insert "metadata.name" node.name
  (term.matchExpressions.getD []).all (fun req => matchesRequirement req node.labels) &&
    (term.matchFields.getD []).all fun req => matchesRequirement req fields

def matchesNodeSelector (selector : NodeSelector) (node : NodeInfo) : Bool :=
  selector.nodeSelectorTerms.any fun term => matchesTerm term node

/-- The selector that ties an allocation to the node it was made for. -/
def singleNodeSelector (node : String) : NodeSelector :=
  ⟨[⟨some [⟨"kubernetes.io/hostname", "In", some [node]⟩], none⟩]⟩

open Controllers (LabelSelector Labels pdbSelectsPod)

/-!
# Label selectors, as the scheduler reads them

An empty selector matches every pod, a missing one matches none.  Both
topology plugins and preemption ask with it which pods are meant.
-/

def matchesSelector (selector : Option LabelSelector) (labels : Labels) : Bool :=
  match selector with
  | none => false
  | some selector => pdbSelectsPod selector (some labels)

/-- The namespaces that a term of a pod applies to. -/
inductive NamespaceScope where
  /-- Only the incoming pod's own namespace. -/
  | ownOnly
  | explicit (names : List String)
  | all
  /-- A selector with real requirements, read against the namespaces' labels. -/
  | selected (selector : LabelSelector)
  deriving DecidableEq

def namespaceScope (namespaces : Option (List String)) (namespaceSelector : Option LabelSelector) : NamespaceScope :=
  match namespaceSelector with
  | none => if (namespaces.getD []).isEmpty then .ownOnly else .explicit (namespaces.getD [])
  | some sel =>
    if sel.matchLabels.all List.isEmpty && sel.matchExpressions.all List.isEmpty then .all else .selected sel

def namespaceInScope (scope : NamespaceScope) (ownNamespace podNamespace : String)
    (namespaceLabels : SortedMap String Labels) : Bool :=
  match scope with
  | .ownOnly => podNamespace = ownNamespace
  | .explicit list => list.any fun n => n = podNamespace
  | .all => true
  | .selected sel => (namespaceLabels.get podNamespace).any fun labels => matchesSelector (some sel) labels

end NotK8s.Scheduler

import NotK8s.Scheduler.Selector
import NotK8s.Scheduler.Status

namespace NotK8s.Scheduler
namespace InterPodAffinity

open Library
open Controllers (LabelSelector Labels)

/-!
# Affinity between pods

A term of a pod asks for pods in the domain of a node, the nodes with its
value of a label.  The cluster is walked once: for each kind of term the
matching pods are counted under the text `key=value` of their domain, and a
node is judged by the counts under its own labels.
-/

def pluginName : String :=
  "InterPodAffinity"

structure PodAffinityTerm where
  labelSelector : Option LabelSelector
  namespaces : Option (List String)
  namespaceSelector : Option LabelSelector
  topologyKey : String

structure WeightedPodAffinityTerm where
  weight : Int
  podAffinityTerm : PodAffinityTerm

/-- Affinity and anti-affinity have the same shape. -/
structure PodAffinity where
  requiredDuringSchedulingIgnoredDuringExecution : Option (List PodAffinityTerm)
  preferredDuringSchedulingIgnoredDuringExecution : Option (List WeightedPodAffinityTerm)

structure Affinity where
  podAffinity : Option PodAffinity
  podAntiAffinity : Option PodAffinity

structure Pod where
  podNamespace : String
  uid : String
  labels : Labels
  affinity : Option Affinity

/-- A node, with label keys as the API server admits them. -/
structure Node where
  name : String
  labels : Labels
  pods : List Pod
  plainKeys : forall key, (labels.get key).isSome -> '=' ∉ key.toList

namespace PodAffinity

def required (affinity : Option PodAffinity) : List PodAffinityTerm :=
  (affinity.bind fun a => a.requiredDuringSchedulingIgnoredDuringExecution).getD []

def preferred (affinity : Option PodAffinity) : List WeightedPodAffinityTerm :=
  (affinity.bind fun a => a.preferredDuringSchedulingIgnoredDuringExecution).getD []

end PodAffinity

namespace Pod

def requiredAffinity (pod : Pod) : List PodAffinityTerm :=
  PodAffinity.required (pod.affinity.bind fun a => a.podAffinity)

def requiredAntiAffinity (pod : Pod) : List PodAffinityTerm :=
  PodAffinity.required (pod.affinity.bind fun a => a.podAntiAffinity)

def preferredAffinity (pod : Pod) : List WeightedPodAffinityTerm :=
  PodAffinity.preferred (pod.affinity.bind fun a => a.podAffinity)

def preferredAntiAffinity (pod : Pod) : List WeightedPodAffinityTerm :=
  PodAffinity.preferred (pod.affinity.bind fun a => a.podAntiAffinity)

end Pod

def Node.podsWithRequiredAntiAffinity (node : Node) : List Pod :=
  node.pods.filter fun pod => !pod.requiredAntiAffinity.isEmpty

structure Snapshot where
  nodes : List Node
  namespaces : SortedMap String Labels

def Snapshot.nodesWithPodsWithRequiredAntiAffinity (snapshot : Snapshot) : List Node :=
  snapshot.nodes.filter fun node => !node.podsWithRequiredAntiAffinity.isEmpty

/-! ## Counting -/

def domainKey (topologyKey value : String) : String :=
  topologyKey ++ "=" ++ value

/-- Whether a pod matches a term of a pod in the namespace. -/
def podMatchesTerm (term : PodAffinityTerm) (existing : Pod) (ownNamespace : String)
    (namespaceLabels : SortedMap String Labels) : Bool :=
  namespaceInScope (namespaceScope term.namespaces term.namespaceSelector) ownNamespace existing.podNamespace
      namespaceLabels &&
    matchesSelector term.labelSelector existing.labels

def bump (counts : SortedMap String Int) (key : String) : SortedMap String Int :=
  counts.insert key ((counts.get key).getD 0 + 1)

/-- One more in every domain of the node in which the pod matches one of the
terms. -/
def tally (counts : SortedMap String Int) (terms : List PodAffinityTerm) (existing : Pod) (node : Node)
    (ownNamespace : String) (namespaceLabels : SortedMap String Labels) : SortedMap String Int :=
  terms.foldl (fun counts term =>
    match node.labels.get term.topologyKey with
    | none => counts
    | some value =>
      if podMatchesTerm term existing ownNamespace namespaceLabels then
        bump counts (domainKey term.topologyKey value)
      else counts) counts

/-- All pods of the cluster counted by some terms of the incoming pod. -/
def tallyAll (snapshot : Snapshot) (pod : Pod) (terms : List PodAffinityTerm) : SortedMap String Int :=
  snapshot.nodes.foldl (fun counts node => node.pods.foldl (fun counts existing =>
    tally counts terms existing node pod.podNamespace snapshot.namespaces) counts) .empty

/-- The rules of pods that run already against the incoming one. -/
def tallyExisting (snapshot : Snapshot) (pod : Pod) : SortedMap String Int :=
  snapshot.nodesWithPodsWithRequiredAntiAffinity.foldl (fun counts node =>
    node.podsWithRequiredAntiAffinity.foldl (fun counts existing =>
      tally counts existing.requiredAntiAffinity pod node existing.podNamespace snapshot.namespaces) counts) .empty

structure AffinityState where
  requiredAffinity : List PodAffinityTerm
  requiredAntiAffinity : List PodAffinityTerm
  preferredAffinity : List WeightedPodAffinityTerm
  preferredAntiAffinity : List WeightedPodAffinityTerm
  affinityCounts : SortedMap String Int
  antiAffinityCounts : SortedMap String Int
  existingAntiAffinity : SortedMap String Int
  preferredAffinityCounts : SortedMap String Int
  preferredAntiAffinityCounts : SortedMap String Int

namespace AffinityState

def hasRequired (s : AffinityState) : Bool :=
  !s.requiredAffinity.isEmpty || !s.requiredAntiAffinity.isEmpty

def hasPreferred (s : AffinityState) : Bool :=
  !s.preferredAffinity.isEmpty || !s.preferredAntiAffinity.isEmpty

end AffinityState

/-! ## The plugin -/

/-- The state that is kept, whether filter and score are skipped, and the
answer. -/
structure PreFiltered where
  state : AffinityState
  skipFilter : Bool
  skipScore : Bool
  status : Status

def preFilter (pod : Pod) (snapshot : Snapshot) : PreFiltered :=
  let rules : AffinityState :=
    { requiredAffinity := pod.requiredAffinity
      requiredAntiAffinity := pod.requiredAntiAffinity
      preferredAffinity := pod.preferredAffinity
      preferredAntiAffinity := pod.preferredAntiAffinity
      affinityCounts := .empty
      antiAffinityCounts := .empty
      existingAntiAffinity := tallyExisting snapshot pod
      preferredAffinityCounts := .empty
      preferredAntiAffinityCounts := .empty }
  let s :=
    if rules.hasRequired || rules.hasPreferred then
      { rules with
        affinityCounts := tallyAll snapshot pod rules.requiredAffinity
        antiAffinityCounts := tallyAll snapshot pod rules.requiredAntiAffinity
        preferredAffinityCounts := tallyAll snapshot pod (rules.preferredAffinity.map fun w => w.podAffinityTerm)
        preferredAntiAffinityCounts := tallyAll snapshot pod (rules.preferredAntiAffinity.map fun w => w.podAffinityTerm) }
    else rules
  { state := s
    skipFilter := !s.hasRequired && s.existingAntiAffinity.entries.isEmpty
    skipScore := !s.hasPreferred
    status :=
      if !s.hasRequired && !s.hasPreferred && s.existingAntiAffinity.entries.isEmpty then .skip else .success }

/-- The count for the node's domain, or none without the label. -/
def countInDomain (counts : SortedMap String Int) (topologyKey : String) (node : Node) : Option Int :=
  (node.labels.get topologyKey).map fun value => (counts.get (domainKey topologyKey value)).getD 0

def checkAffinity (s : AffinityState) (node : Node) (term : PodAffinityTerm) : Status :=
  match countInDomain s.affinityCounts term.topologyKey node with
  | none => .unschedulable pluginName ("node(s) had no " ++ term.topologyKey ++ " label")
  | some n => if n ≤ 0 then .unschedulable pluginName "node(s) didn't match pod affinity rules" else .success

def checkAntiAffinity (s : AffinityState) (node : Node) (term : PodAffinityTerm) : Status :=
  match countInDomain s.antiAffinityCounts term.topologyKey node with
  | none => .unschedulable pluginName ("node(s) had no " ++ term.topologyKey ++ " label")
  | some n => if 0 < n then .unschedulable pluginName "node(s) didn't match pod anti-affinity rules" else .success

/-- A running pod's own rule, found again from the text of its domain. -/
def checkExisting (node : Node) (entry : String × Int) : Status :=
  if entry.2 ≤ 0 then .success
  else
    match Text.splitOnce '=' entry.1.toList with
    | none => .success
    | some (topologyKey, value) =>
      if (node.labels.get (String.ofList topologyKey)).any fun held => held.toList = value then
        .unschedulable pluginName "node(s) didn't satisfy existing pods' anti-affinity rules"
      else .success

/-- The answer of the first rule that refuses. -/
def filter (s : AffinityState) (node : Node) : Status :=
  ((s.requiredAffinity.map (checkAffinity s node) ++ s.requiredAntiAffinity.map (checkAntiAffinity s node) ++
    s.existingAntiAffinity.entries.map (checkExisting node)).find? fun status => !status.isSuccess).getD .success

/-- Whether the plugin lets the pod on the node. -/
def accepts (pod : Pod) (snapshot : Snapshot) (node : Node) : Bool :=
  let before := preFilter pod snapshot
  before.skipFilter || (filter before.state node).isSuccess

def weightIfCounted (counts : SortedMap String Int) (node : Node) (weighted : WeightedPodAffinityTerm) : Int :=
  match countInDomain counts weighted.podAffinityTerm.topologyKey node with
  | none => 0
  | some n => if 0 < n then weighted.weight else 0

def score (s : AffinityState) (node : Node) : Int :=
  (s.preferredAffinity.map (weightIfCounted s.preferredAffinityCounts node)).sum -
    (s.preferredAntiAffinity.map (weightIfCounted s.preferredAntiAffinityCounts node)).sum

/-- What the plugin adds for the node before the scores are normalized. -/
def scoreOf (pod : Pod) (snapshot : Snapshot) (node : Node) : Int :=
  let before := preFilter pod snapshot
  if before.skipScore then 0 else score before.state node

/-!
# Affinity, term by term

The counts under the text of a domain are read back as pods in the domain.
Terms with one topology key share a count, so a term is taken as satisfied by
a pod that matches another.  The counts say nothing of a pod that would be its
own neighbour, nor of what running pods prefer.
-/

/-! ## Domains as text -/

section
variable {key other value held : String}

theorem splitOnce_domainKey (plain : '=' ∉ key.toList) :
    Text.splitOnce '=' (domainKey key value).toList = some (key.toList, value.toList) := by
  have text : (domainKey key value).toList = key.toList ++ '=' :: value.toList := by
    unfold domainKey
    rw [String.toList_append, String.toList_append, List.append_assoc]
    rfl
  rw [text]
  exact Text.splitOnce_append plain

theorem domainKey_injective (plain : '=' ∉ key.toList) (also : '=' ∉ other.toList)
    (same : domainKey key value = domainKey other held) : key = other ∧ value = held := by
  have one := @splitOnce_domainKey key value plain
  have two := @splitOnce_domainKey other held also
  rw [same, two] at one
  have parts := Prod.mk.inj (Option.some.inj one)
  exact ⟨(String.toList_inj.mp parts.1).symm, (String.toList_inj.mp parts.2).symm⟩

end

/-! ## The counts -/

theorem get_bumps {keys : List String} {key : String} :
    (keys.foldl bump .empty).get key = if key ∈ keys then some (keys.count key : Int) else none := by
  induction keys using List.reverseRecOn with
  | nil => rfl
  | append_singleton keys last ih =>
    rw [List.foldl_append, List.foldl_cons, List.foldl_nil, bump, SortedMap.get_insert, List.count_append]
    by_cases same : key = last
    · subst same
      have last : key ∈ keys ++ [key] := List.mem_append_right _ (List.mem_singleton_self key)
      rw [if_pos rfl, ih, if_pos last, List.count_singleton_self]
      by_cases before : key ∈ keys
      · rw [if_pos before]
        rfl
      · rw [if_neg before, List.count_eq_zero.mpr before]
        rfl
    · have apart : key ∈ keys ++ [last] <-> key ∈ keys := by simp [same]
      have none : [last].count key = 0 := by simp [Ne.symm same]
      rw [if_neg same, ih, none]
      simp only [apart, Nat.add_zero]

/-- The domains in which a pod on the node is counted. -/
def termKeys (terms : List PodAffinityTerm) (existing : Pod) (node : Node) (ownNamespace : String)
    (namespaceLabels : SortedMap String Labels) : List String :=
  terms.filterMap fun term => (node.labels.get term.topologyKey).bind fun value =>
    if podMatchesTerm term existing ownNamespace namespaceLabels then some (domainKey term.topologyKey value) else none

theorem tally_eq {counts : SortedMap String Int} {terms : List PodAffinityTerm} {existing : Pod} {node : Node}
    {ownNamespace : String} {namespaceLabels : SortedMap String Labels} :
    tally counts terms existing node ownNamespace namespaceLabels =
      (termKeys terms existing node ownNamespace namespaceLabels).foldl bump counts := by
  unfold tally termKeys
  induction terms generalizing counts with
  | nil => rfl
  | cons term rest ih =>
    rw [List.foldl_cons, List.filterMap_cons]
    cases node.labels.get term.topologyKey with
    | none => exact ih
    | some value =>
      split_ifs
      · exact ih
      · exact ih

theorem tallyAll_eq {snapshot : Snapshot} {pod : Pod} {terms : List PodAffinityTerm} :
    tallyAll snapshot pod terms = (snapshot.nodes.flatMap fun node => node.pods.flatMap fun existing =>
      termKeys terms existing node pod.podNamespace snapshot.namespaces).foldl bump .empty := by
  unfold tallyAll
  rw [List.foldl_flatMap]
  congr 1
  funext counts node
  rw [List.foldl_flatMap]
  congr 1
  funext counts existing
  exact tally_eq

theorem tallyExisting_eq {snapshot : Snapshot} {pod : Pod} :
    tallyExisting snapshot pod = (snapshot.nodesWithPodsWithRequiredAntiAffinity.flatMap fun node =>
      node.podsWithRequiredAntiAffinity.flatMap fun existing =>
        termKeys existing.requiredAntiAffinity pod node existing.podNamespace snapshot.namespaces).foldl bump .empty := by
  unfold tallyExisting
  rw [List.foldl_flatMap]
  congr 1
  funext counts node
  rw [List.foldl_flatMap]
  congr 1
  funext counts existing
  exact tally_eq

theorem mem_termKeys {terms : List PodAffinityTerm} {existing : Pod} {node : Node} {ownNamespace key : String}
    {namespaceLabels : SortedMap String Labels} :
    key ∈ termKeys terms existing node ownNamespace namespaceLabels <-> Exists fun term => term ∈ terms ∧
      podMatchesTerm term existing ownNamespace namespaceLabels ∧ Exists fun value =>
        node.labels.get term.topologyKey = some value ∧ key = domainKey term.topologyKey value := by
  unfold termKeys
  rw [List.mem_filterMap]
  refine exists_congr fun term => and_congr_right fun _ => ?_
  rw [Option.bind_eq_some_iff]
  constructor
  · rintro ⟨value, label, given⟩
    split_ifs at given with matched
    exact ⟨matched, value, label, (Option.some.inj given).symm⟩
  · rintro ⟨matched, value, label, rfl⟩
    exact ⟨value, label, if_pos matched⟩

theorem bumps_pos {keys : List String} {key : String} :
    0 < ((keys.foldl bump .empty).get key).getD 0 <-> key ∈ keys := by
  rw [get_bumps]
  by_cases listed : key ∈ keys
  · rw [if_pos listed]
    exact iff_of_true (Int.natCast_pos.mpr (List.count_pos_iff.mpr listed)) listed
  · rw [if_neg listed]
    exact iff_of_false (lt_irrefl 0) listed

theorem tallyAll_nil {snapshot : Snapshot} {pod : Pod} : tallyAll snapshot pod [] = .empty := by
  rw [tallyAll_eq]
  have no : (snapshot.nodes.flatMap fun node => node.pods.flatMap fun existing =>
      termKeys [] existing node pod.podNamespace snapshot.namespaces) = [] := by
    rw [List.flatMap_eq_nil_iff]
    intro node _
    rw [List.flatMap_eq_nil_iff]
    intro existing _
    rfl
  rw [no]
  rfl

/-! ## The rules, pod by pod -/

/-- Both nodes are in one domain of the key. -/
def inDomain (topologyKey : String) (node other : Node) : Bool :=
  (node.labels.get topologyKey).any fun value => other.labels.get topologyKey == some value

/-- One of these pods is in the node's domain. -/
def someoneIn (snapshot : Snapshot) (topologyKey : String) (node : Node) (wanted : Pod -> Bool) : Bool :=
  snapshot.nodes.any fun other => inDomain topologyKey node other && other.pods.any wanted

/-- A term of the incoming pod matches a pod. -/
def matchesOwn (pod : Pod) (snapshot : Snapshot) (term : PodAffinityTerm) (existing : Pod) : Bool :=
  podMatchesTerm term existing pod.podNamespace snapshot.namespaces

/-- A pod in the node's domain matches one of the terms that have the key. -/
def sharesCount (pod : Pod) (snapshot : Snapshot) (node : Node) (terms : List PodAffinityTerm) (topologyKey : String) :
    Bool :=
  someoneIn snapshot topologyKey node fun existing =>
    terms.any fun term => term.topologyKey == topologyKey && matchesOwn pod snapshot term existing

/-- The node has the topology key of every required term. -/
def carriesKeys (pod : Pod) (node : Node) : Bool :=
  (pod.requiredAffinity ++ pod.requiredAntiAffinity).all fun term => (node.labels.get term.topologyKey).isSome

/-- No pod in the node's domain matches a required anti-affinity term. -/
def keepsAway (pod : Pod) (snapshot : Snapshot) (node : Node) : Bool :=
  pod.requiredAntiAffinity.all fun term => !someoneIn snapshot term.topologyKey node (matchesOwn pod snapshot term)

/-- No running pod in the node's domain has a required anti-affinity term that
matches the incoming one. -/
def tolerated (pod : Pod) (snapshot : Snapshot) (node : Node) : Bool :=
  snapshot.nodes.all fun other => other.pods.all fun existing => existing.requiredAntiAffinity.all fun term =>
    !(inDomain term.topologyKey node other && podMatchesTerm term pod existing.podNamespace snapshot.namespaces)

/-- Each required affinity term has a neighbour, its own or that of a term
with the same key. -/
def sharesNeighbours (pod : Pod) (snapshot : Snapshot) (node : Node) : Bool :=
  pod.requiredAffinity.all fun term => sharesCount pod snapshot node pod.requiredAffinity term.topologyKey

/-- What a neighbour has to match: the term it is a neighbour for, or all of
the pod's required affinity terms. -/
inductive Reading where
  | eachTerm
  | allTerms

def Reading.isNeighbour (reading : Reading) (pod : Pod) (snapshot : Snapshot) (term : PodAffinityTerm) (existing : Pod) :
    Bool :=
  match reading with
  | .eachTerm => matchesOwn pod snapshot term existing
  | .allTerms => pod.requiredAffinity.all fun term => matchesOwn pod snapshot term existing

/-- Each required affinity term has a neighbour of its own. -/
def hasNeighbours (reading : Reading) (pod : Pod) (snapshot : Snapshot) (node : Node) : Bool :=
  pod.requiredAffinity.all fun term => someoneIn snapshot term.topologyKey node (reading.isNeighbour pod snapshot term)

/-- No pod anywhere is a neighbour, and the incoming pod would be its own. -/
def isFirst (reading : Reading) (pod : Pod) (snapshot : Snapshot) : Bool :=
  pod.requiredAffinity.all fun term =>
    (snapshot.nodes.all fun other => other.pods.all fun existing => !reading.isNeighbour pod snapshot term existing) &&
      matchesOwn pod snapshot term pod

/-- What the rules say of the node. -/
def mayHost (reading : Reading) (pod : Pod) (snapshot : Snapshot) (node : Node) : Bool :=
  carriesKeys pod node && (hasNeighbours reading pod snapshot node || isFirst reading pod snapshot) &&
    keepsAway pod snapshot node && tolerated pod snapshot node

section
variable {pod : Pod} {snapshot : Snapshot} {node other : Node} {terms : List PodAffinityTerm} {key : String}

theorem inDomain_iff : inDomain key node other = true <-> Exists fun value =>
    node.labels.get key = some value ∧ other.labels.get key = some value := by
  unfold inDomain
  rw [Option.any_eq_true]
  simp only [beq_iff_eq]

theorem someoneIn_iff {wanted : Pod -> Bool} : someoneIn snapshot key node wanted = true <->
    Exists fun other => other ∈ snapshot.nodes ∧ inDomain key node other = true ∧
      Exists fun existing => existing ∈ other.pods ∧ wanted existing = true := by
  unfold someoneIn
  simp only [List.any_eq_true, Bool.and_eq_true]

/-- A count is positive exactly when a term with the key has a neighbour. -/
theorem countInDomain_tallyAll {count : Int} (counted : countInDomain (tallyAll snapshot pod terms) key node = some count) :
    0 < count <-> sharesCount pod snapshot node terms key = true := by
  unfold countInDomain at counted
  rw [Option.map_eq_some_iff] at counted
  rcases counted with ⟨value, label, rfl⟩
  have plain := node.plainKeys key (by rw [label]; rfl)
  unfold sharesCount
  rw [tallyAll_eq, bumps_pos, someoneIn_iff]
  simp only [List.mem_flatMap, mem_termKeys, List.any_eq_true, Bool.and_eq_true, beq_iff_eq]
  constructor
  · rintro ⟨other, member, existing, runs, term, listed, matched, held, there, same⟩
    have also := other.plainKeys term.topologyKey (by rw [there]; rfl)
    obtain ⟨sameKey, sameValue⟩ := domainKey_injective plain also same
    refine ⟨other, member, inDomain_iff.mpr ⟨value, label, ?_⟩, existing, runs, term, listed, sameKey.symm, matched⟩
    rw [sameKey, sameValue]
    exact there
  · rintro ⟨other, member, near, existing, runs, term, listed, rfl, matched⟩
    obtain ⟨held, here, there⟩ := inDomain_iff.mp near
    obtain rfl := Option.some.inj (label.symm.trans here)
    exact ⟨other, member, existing, runs, term, listed, matched, value, there, rfl⟩

/-- The rules of the running pods, read back from the text of their domains. -/
theorem existing_all_success : ((tallyExisting snapshot pod).entries.all fun entry => (checkExisting node entry).isSuccess) =
    tolerated pod snapshot node := by
  rw [Bool.eq_iff_iff, List.all_eq_true]
  unfold tolerated
  simp only [List.all_eq_true, Bool.not_eq_true', Bool.and_eq_false_imp]
  constructor
  · intro clear other member existing runs term listed near
    by_contra matched
    rw [Bool.not_eq_false] at matched
    have ⟨value, here, there⟩ := inDomain_iff.mp near
    have plain := other.plainKeys term.topologyKey (by rw [there]; rfl)
    have rules : existing.requiredAntiAffinity.isEmpty = false := by
      rw [List.isEmpty_eq_false_iff]
      exact List.ne_nil_of_mem listed
    have kept : existing ∈ other.podsWithRequiredAntiAffinity :=
      List.mem_filter.mpr ⟨runs, by rw [rules]; rfl⟩
    have carries : other ∈ snapshot.nodesWithPodsWithRequiredAntiAffinity := by
      refine List.mem_filter.mpr ⟨member, ?_⟩
      rw [List.isEmpty_eq_false_iff.mpr (List.ne_nil_of_mem kept)]
      rfl
    have counted : 0 < ((tallyExisting snapshot pod).get (domainKey term.topologyKey value)).getD 0 := by
      rw [tallyExisting_eq, bumps_pos]
      simp only [List.mem_flatMap, mem_termKeys]
      exact ⟨other, carries, existing, kept, term, listed, matched, value, there, rfl⟩
    cases found : (tallyExisting snapshot pod).get (domainKey term.topologyKey value) with
    | none =>
      rw [found] at counted
      exact lt_irrefl 0 counted
    | some count =>
      rw [found, Option.getD_some] at counted
      have refused := clear _ (SortedMap.mem_entries.mpr found)
      unfold checkExisting at refused
      rw [if_neg (not_le.mpr counted), splitOnce_domainKey plain] at refused
      dsimp only at refused
      rw [String.ofList_toList, here, if_pos (by simp)] at refused
      exact Bool.false_ne_true refused
  · rintro free ⟨text, count⟩ listed
    have counted := SortedMap.mem_entries.mp listed
    rw [tallyExisting_eq, get_bumps] at counted
    split_ifs at counted with among
    simp only [List.mem_flatMap, mem_termKeys] at among
    rcases among with ⟨other, member, existing, kept, term, asked, matched, value, there, rfl⟩
    have plain := other.plainKeys term.topologyKey (by rw [there]; rfl)
    have apart : inDomain term.topologyKey node other = false := by
      by_contra near
      rw [Bool.not_eq_false] at near
      have no := free other (List.mem_filter.mp member).1 existing (List.mem_filter.mp kept).1 term asked near
      rw [matched] at no
      exact Bool.noConfusion no
    unfold checkExisting
    split_ifs
    · rfl
    · rw [splitOnce_domainKey plain]
      dsimp only
      rw [String.ofList_toList, if_neg]
      · rfl
      · intro held
        rw [Option.any_eq_true] at held
        rcases held with ⟨label, here, same⟩
        have equal := String.toList_inj.mp (of_decide_eq_true same)
        rw [inDomain_iff.mpr ⟨value, by rw [here, equal], there⟩] at apart
        exact Bool.noConfusion apart

/-! ## What the filter decides -/

theorem countInDomain_isSome {counts : SortedMap String Int} :
    (countInDomain counts key node).isSome = (node.labels.get key).isSome :=
  Option.isSome_map

theorem checkAffinity_isSuccess {s : AffinityState} {term : PodAffinityTerm}
    (counts : s.affinityCounts = tallyAll snapshot pod terms) : (checkAffinity s node term).isSuccess =
      ((node.labels.get term.topologyKey).isSome && sharesCount pod snapshot node terms term.topologyKey) := by
  unfold checkAffinity
  rw [counts]
  cases counted : countInDomain (tallyAll snapshot pod terms) term.topologyKey node with
  | none =>
    rw [← countInDomain_isSome, counted]
    rfl
  | some count =>
    have shared := countInDomain_tallyAll counted
    rw [← countInDomain_isSome, counted, Option.isSome_some, Bool.true_and]
    dsimp only
    by_cases positive : 0 < count
    · rw [if_neg (not_le.mpr positive), shared.mp positive]
      rfl
    · rw [if_pos (not_lt.mp positive), Bool.eq_false_iff.mpr (fun counts => positive (shared.mpr counts))]
      rfl

theorem checkAntiAffinity_isSuccess {s : AffinityState} {term : PodAffinityTerm}
    (counts : s.antiAffinityCounts = tallyAll snapshot pod terms) : (checkAntiAffinity s node term).isSuccess =
      ((node.labels.get term.topologyKey).isSome && !sharesCount pod snapshot node terms term.topologyKey) := by
  unfold checkAntiAffinity
  rw [counts]
  cases counted : countInDomain (tallyAll snapshot pod terms) term.topologyKey node with
  | none =>
    rw [← countInDomain_isSome, counted]
    rfl
  | some count =>
    have shared := countInDomain_tallyAll counted
    rw [← countInDomain_isSome, counted, Option.isSome_some, Bool.true_and]
    dsimp only
    by_cases positive : 0 < count
    · rw [if_pos positive, shared.mp positive]
      rfl
    · rw [if_neg positive, Bool.eq_false_iff.mpr (fun counts => positive (shared.mpr counts))]
      rfl

theorem preFilter_state : (preFilter pod snapshot).state =
    { requiredAffinity := pod.requiredAffinity
      requiredAntiAffinity := pod.requiredAntiAffinity
      preferredAffinity := pod.preferredAffinity
      preferredAntiAffinity := pod.preferredAntiAffinity
      affinityCounts := tallyAll snapshot pod pod.requiredAffinity
      antiAffinityCounts := tallyAll snapshot pod pod.requiredAntiAffinity
      existingAntiAffinity := tallyExisting snapshot pod
      preferredAffinityCounts := tallyAll snapshot pod (pod.preferredAffinity.map fun w => w.podAffinityTerm)
      preferredAntiAffinityCounts :=
        tallyAll snapshot pod (pod.preferredAntiAffinity.map fun w => w.podAffinityTerm) } := by
  unfold preFilter
  dsimp only
  split_ifs with asks
  · rfl
  · simp only [AffinityState.hasRequired, AffinityState.hasPreferred, Bool.or_eq_true, Bool.not_eq_true', not_or,
      Bool.not_eq_false, List.isEmpty_iff] at asks
    rcases asks with ⟨⟨noAffinity, noAntiAffinity⟩, noPreferred, noPreferredAnti⟩
    rw [noAffinity, noAntiAffinity, noPreferred, noPreferredAnti, List.map_nil, tallyAll_nil]

theorem filter_isSuccess {s : AffinityState} : (filter s node).isSuccess =
    ((s.requiredAffinity.all fun term => (checkAffinity s node term).isSuccess) &&
      (s.requiredAntiAffinity.all fun term => (checkAntiAffinity s node term).isSuccess) &&
      s.existingAntiAffinity.entries.all fun entry => (checkExisting node entry).isSuccess) := by
  have first {answers : List Status} : ((answers.find? fun status => !status.isSuccess).getD .success).isSuccess =
      answers.all Status.isSuccess := by
    induction answers with
    | nil => rfl
    | cons answer rest ih =>
      rw [List.find?_cons, List.all_cons]
      cases agreed : answer.isSuccess with
      | true => exact ih
      | false => exact agreed
  unfold filter
  rw [first, List.all_append, List.all_append, List.all_map, List.all_map, List.all_map]
  rfl

/-- A required anti-affinity term keeps away from the pods that match the
others of its key, which it would anyway. -/
theorem keepsAway_eq : (pod.requiredAntiAffinity.all fun term =>
    !sharesCount pod snapshot node pod.requiredAntiAffinity term.topologyKey) = keepsAway pod snapshot node := by
  rw [Bool.eq_iff_iff]
  unfold keepsAway sharesCount
  simp only [List.all_eq_true, Bool.not_eq_true', Bool.eq_false_iff, ne_eq, someoneIn_iff]
  constructor
  · rintro clear term listed ⟨other, member, near, existing, runs, matched⟩
    refine clear term listed ⟨other, member, near, existing, runs, ?_⟩
    rw [List.any_eq_true]
    exact ⟨term, listed, by rw [matched, beq_self_eq_true]; rfl⟩
  · rintro clear term listed ⟨other, member, near, existing, runs, matched⟩
    rw [List.any_eq_true] at matched
    rcases matched with ⟨sharer, asked, both⟩
    rw [Bool.and_eq_true, beq_iff_eq] at both
    refine clear sharer asked ⟨other, member, ?_, existing, runs, both.2⟩
    rw [both.1]
    exact near

theorem accepts_eq : accepts pod snapshot node = (carriesKeys pod node && sharesNeighbours pod snapshot node &&
    keepsAway pod snapshot node && tolerated pod snapshot node) := by
  have decided : (filter (preFilter pod snapshot).state node).isSuccess = (carriesKeys pod node &&
      sharesNeighbours pod snapshot node && keepsAway pod snapshot node && tolerated pod snapshot node) := by
    have state := @preFilter_state pod snapshot
    generalize (preFilter pod snapshot).state = s at state ⊢
    have affinity : s.affinityCounts = tallyAll snapshot pod pod.requiredAffinity := by rw [state]
    have antiAffinity : s.antiAffinityCounts = tallyAll snapshot pod pod.requiredAntiAffinity := by rw [state]
    rw [filter_isSuccess]
    simp only [checkAffinity_isSuccess affinity, checkAntiAffinity_isSuccess antiAffinity]
    rw [state]
    rw [existing_all_success, ← keepsAway_eq]
    unfold carriesKeys sharesNeighbours
    rw [Bool.eq_iff_iff, List.all_append]
    simp only [Bool.and_eq_true, List.all_eq_true, imp_and, forall_and]
    tauto
  unfold accepts
  dsimp only
  cases skips : (preFilter pod snapshot).skipFilter with
  | false => rw [Bool.false_or, decided]
  | true =>
    rw [← decided, filter_isSuccess]
    have idle : (!(preFilter pod snapshot).state.hasRequired &&
        (preFilter pod snapshot).state.existingAntiAffinity.entries.isEmpty) = true := skips
    simp only [AffinityState.hasRequired, Bool.and_eq_true, Bool.not_eq_true', Bool.or_eq_false_iff,
      Bool.not_eq_false', List.isEmpty_iff] at idle
    rw [idle.1.1, idle.1.2, idle.2]
    rfl

theorem shares_of_hasNeighbours {reading : Reading} (has : hasNeighbours reading pod snapshot node = true) :
    sharesNeighbours pod snapshot node = true := by
  unfold hasNeighbours at has
  unfold sharesNeighbours sharesCount
  rw [List.all_eq_true] at has ⊢
  intro term listed
  have ⟨other, member, near, existing, runs, wanted⟩ := someoneIn_iff.mp (has term listed)
  refine someoneIn_iff.mpr ⟨other, member, near, existing, runs, ?_⟩
  rw [List.any_eq_true]
  refine ⟨term, listed, ?_⟩
  rw [beq_self_eq_true, Bool.true_and]
  cases reading with
  | eachTerm => exact wanted
  | allTerms => exact List.all_eq_true.mp wanted term listed

/-- The plugin decides by the rules exactly where sharing a count does no harm
and no pod could be the first of its kind. -/
theorem accepts_as_meant (reading : Reading) : accepts pod snapshot node = mayHost reading pod snapshot node <->
    (carriesKeys pod node = true -> keepsAway pod snapshot node = true -> tolerated pod snapshot node = true ->
      (sharesNeighbours pod snapshot node = true ->
        hasNeighbours reading pod snapshot node = true ∨ isFirst reading pod snapshot = true) ∧
      (isFirst reading pod snapshot = true -> sharesNeighbours pod snapshot node = true)) := by
  have shares := @shares_of_hasNeighbours pod snapshot node reading
  rw [accepts_eq, Bool.eq_iff_iff]
  unfold mayHost
  simp only [Bool.and_eq_true, Bool.or_eq_true]
  tauto

end

/-! ## What the score adds up -/

/-- The weights of the incoming pod's terms that a neighbour matches. -/
def ownScore (pod : Pod) (snapshot : Snapshot) (node : Node) : Int :=
  let weightIfNear weighted :=
    if someoneIn snapshot weighted.podAffinityTerm.topologyKey node (matchesOwn pod snapshot weighted.podAffinityTerm) then
      weighted.weight
    else 0
  (pod.preferredAffinity.map weightIfNear).sum - (pod.preferredAntiAffinity.map weightIfNear).sum

/-- The weights of the running pods' terms that match the incoming pod in the
node's domain. -/
def runningScore (pod : Pod) (snapshot : Snapshot) (node : Node) : Int :=
  (snapshot.nodes.map fun other => (other.pods.map fun existing =>
    let weightIfNear weighted :=
      if inDomain weighted.podAffinityTerm.topologyKey node other &&
          podMatchesTerm weighted.podAffinityTerm pod existing.podNamespace snapshot.namespaces then weighted.weight
      else 0
    (existing.preferredAffinity.map weightIfNear).sum - (existing.preferredAntiAffinity.map weightIfNear).sum).sum).sum

/-- The weights of the incoming pod's terms that only a term with the same key
has a neighbour for. -/
def borrowedScore (pod : Pod) (snapshot : Snapshot) (node : Node) : Int :=
  let weightIfShared (weights : List WeightedPodAffinityTerm) weighted :=
    if sharesCount pod snapshot node (weights.map fun w => w.podAffinityTerm) weighted.podAffinityTerm.topologyKey &&
        !someoneIn snapshot weighted.podAffinityTerm.topologyKey node
          (matchesOwn pod snapshot weighted.podAffinityTerm) then weighted.weight
    else 0
  (pod.preferredAffinity.map (weightIfShared pod.preferredAffinity)).sum -
    (pod.preferredAntiAffinity.map (weightIfShared pod.preferredAntiAffinity)).sum

section
variable {pod : Pod} {snapshot : Snapshot} {node : Node} {terms : List PodAffinityTerm} {weights : List WeightedPodAffinityTerm}

theorem weightIfCounted_eq {weighted : WeightedPodAffinityTerm} :
    weightIfCounted (tallyAll snapshot pod terms) node weighted =
      if sharesCount pod snapshot node terms weighted.podAffinityTerm.topologyKey then weighted.weight else 0 := by
  unfold weightIfCounted
  cases counted : countInDomain (tallyAll snapshot pod terms) weighted.podAffinityTerm.topologyKey node with
  | some count =>
    simp only [countInDomain_tallyAll counted]
  | none =>
    have absent : (node.labels.get weighted.podAffinityTerm.topologyKey).isSome = false := by
      rw [← countInDomain_isSome, counted]
      rfl
    rw [if_neg]
    intro shared
    have ⟨other, _, near, _⟩ := someoneIn_iff.mp shared
    have ⟨value, here, _⟩ := inDomain_iff.mp near
    rw [here] at absent
    exact Bool.noConfusion absent

/-- The weights that are counted are those of terms with a neighbour and those
of terms that share one. -/
theorem sum_weightIfCounted :
    (weights.map (weightIfCounted (tallyAll snapshot pod (weights.map fun w => w.podAffinityTerm)) node)).sum =
      (weights.map fun weighted => if someoneIn snapshot weighted.podAffinityTerm.topologyKey node
        (matchesOwn pod snapshot weighted.podAffinityTerm) then weighted.weight else 0).sum +
      (weights.map fun weighted =>
        if sharesCount pod snapshot node (weights.map fun w => w.podAffinityTerm) weighted.podAffinityTerm.topologyKey &&
          !someoneIn snapshot weighted.podAffinityTerm.topologyKey node
            (matchesOwn pod snapshot weighted.podAffinityTerm) then weighted.weight else 0).sum := by
  rw [← List.sum_map_add]
  congr 1
  refine List.map_congr_left fun weighted listed => ?_
  rw [weightIfCounted_eq]
  cases near : someoneIn snapshot weighted.podAffinityTerm.topologyKey node
      (matchesOwn pod snapshot weighted.podAffinityTerm) with
  | false => simp only [Bool.not_false, Bool.and_true, Bool.false_eq_true, if_false, zero_add]
  | true =>
    have ⟨other, member, there, existing, runs, wanted⟩ := someoneIn_iff.mp near
    have shared : sharesCount pod snapshot node (weights.map fun w => w.podAffinityTerm)
        weighted.podAffinityTerm.topologyKey = true := by
      refine someoneIn_iff.mpr ⟨other, member, there, existing, runs, ?_⟩
      rw [List.any_eq_true]
      exact ⟨weighted.podAffinityTerm, List.mem_map_of_mem listed, by rw [wanted, beq_self_eq_true]; rfl⟩
    rw [shared]
    simp

theorem scoreOf_eq : scoreOf pod snapshot node = ownScore pod snapshot node + borrowedScore pod snapshot node := by
  have added : score (preFilter pod snapshot).state node =
      ownScore pod snapshot node + borrowedScore pod snapshot node := by
    rw [preFilter_state]
    unfold score ownScore borrowedScore
    rw [sum_weightIfCounted, sum_weightIfCounted]
    ring
  unfold scoreOf
  dsimp only
  cases skips : (preFilter pod snapshot).skipScore with
  | false => exact added
  | true =>
    have idle : (!(preFilter pod snapshot).state.hasPreferred) = true := skips
    rw [← added, if_pos rfl]
    rw [preFilter_state] at idle ⊢
    simp only [AffinityState.hasPreferred, Bool.not_eq_true', Bool.or_eq_false_iff, Bool.not_eq_false',
      List.isEmpty_iff] at idle
    unfold score
    rw [idle.1, idle.2]
    rfl

end

/-- The plugin decides by the rules, under either reading of them, exactly
where sharing a count does no harm and no pod could be the first of its kind.
Its score is the one of both sides exactly where the borrowed weights make up
for what the running pods prefer, and the one of the incoming pod where they
cancel. -/
theorem affinity_term_by_term (pod : Pod) (snapshot : Snapshot) (node : Node) :
    (forall reading, accepts pod snapshot node = mayHost reading pod snapshot node <->
      (carriesKeys pod node = true -> keepsAway pod snapshot node = true -> tolerated pod snapshot node = true ->
        (sharesNeighbours pod snapshot node = true ->
          hasNeighbours reading pod snapshot node = true ∨ isFirst reading pod snapshot = true) ∧
        (isFirst reading pod snapshot = true -> sharesNeighbours pod snapshot node = true))) ∧
    (scoreOf pod snapshot node = ownScore pod snapshot node + runningScore pod snapshot node <->
      borrowedScore pod snapshot node = runningScore pod snapshot node) ∧
    (scoreOf pod snapshot node = ownScore pod snapshot node <-> borrowedScore pod snapshot node = 0) := by
  refine ⟨accepts_as_meant, ?_, ?_⟩
  · rw [scoreOf_eq]
    exact add_right_inj _
  · rw [scoreOf_eq]
    exact add_eq_left

theorem zone_plain {key : String} (held : ((SortedMap.ofList [("zone", "a")] : Labels).get key).isSome) :
    '=' ∉ key.toList := by
  cases found : (SortedMap.ofList [("zone", "a")] : Labels).get key with
  | none =>
    rw [found] at held
    exact Bool.noConfusion held
  | some value =>
    have listed := List.mem_singleton.mp (SortedMap.mem_of_get_ofList found)
    rw [(Prod.mk.inj listed).1]
    decide

/-- A database in the zone stands in for the cache that is asked for as well,
the first pod of its kind finds no node, and what a running pod prefers does
not count. -/
theorem cache_missing_and_first_pod_refused :
    (Exists fun pod => Exists fun snapshot => Exists fun node =>
      accepts pod snapshot node = true ∧ forall reading, mayHost reading pod snapshot node = false) ∧
    (Exists fun pod => Exists fun snapshot => Exists fun node =>
      accepts pod snapshot node = false ∧ forall reading, mayHost reading pod snapshot node = true) ∧
    Exists fun pod => Exists fun snapshot => Exists fun node =>
      scoreOf pod snapshot node ≠ ownScore pod snapshot node + runningScore pod snapshot node := by
  let nextTo (app : String) : PodAffinityTerm := ⟨some ⟨some [("app", app)], none⟩, none, none, "zone"⟩
  let labelled (app : String) (affinity : Option Affinity) : Pod :=
    ⟨"default", app, .ofList [("app", app)], affinity⟩
  let requires (apps : List String) : Option Affinity := some ⟨some ⟨some (apps.map nextTo), none⟩, none⟩
  let prefers (app : String) : Option Affinity := some ⟨some ⟨none, some [⟨10, nextTo app⟩]⟩, none⟩
  let runningOn (pods : List Pod) : Node := ⟨"n1", .ofList [("zone", "a")], pods, fun _ => zone_plain⟩
  refine ⟨?_, ?_, ?_⟩
  · refine ⟨labelled "web" (requires ["db", "cache"]), ⟨[runningOn [labelled "db" none]], .empty⟩,
      runningOn [labelled "db" none], by decide +kernel, fun reading => ?_⟩
    cases reading with
    | eachTerm => decide +kernel
    | allTerms => decide +kernel
  · refine ⟨labelled "web" (requires ["web"]), ⟨[runningOn []], .empty⟩, runningOn [], by decide +kernel,
      fun reading => ?_⟩
    cases reading with
    | eachTerm => decide +kernel
    | allTerms => decide +kernel
  · exact ⟨labelled "web" none, ⟨[runningOn [labelled "db" (prefers "web")]], .empty⟩,
      runningOn [labelled "db" (prefers "web")], by decide +kernel⟩

end InterPodAffinity
end NotK8s.Scheduler

import NotK8s.Scheduler.TopologySpread

namespace NotK8s.Scheduler
namespace TopologySpread

open Library
open Controllers (LabelSelector Labels)

/-!
# Skew

What the counts of a constraint are, node by node, and what the plugin decides
from them.  A pod that does not match its own constraint would not add to any
count, but it is counted all the same.
-/

variable {constraint : Constraint} {selector : Option LabelSelector} {pod : IncomingPod} {nodes : List Node}
  {node : Node} {value : String}

/-! ## The counts -/

/-- The node is eligible and has this value of the topology key. -/
def nodeIn (constraint : Constraint) (pod : IncomingPod) (value : String) (node : Node) : Bool :=
  node.labels.get constraint.topologyKey == some value && nodeIsEligible constraint pod node

/-- What the node has of matching pods, if it counts for the domain. -/
def share (constraint : Constraint) (selector : Option LabelSelector) (pod : IncomingPod) (value : String) (node : Node) :
    Int :=
  if nodeIn constraint pod value node then node.pods.countP (podMatches selector pod.podNamespace) else 0

/-- The matching pods on eligible nodes of a domain. -/
def domainCount (constraint : Constraint) (selector : Option LabelSelector) (pod : IncomingPod) (nodes : List Node)
    (value : String) : Int :=
  (nodes.map (share constraint selector pod value)).sum

theorem get_countNode {counts : SortedMap String Int} : (countNode constraint selector pod counts node).get value =
    if nodeIn constraint pod value node then some ((counts.get value).getD 0 + share constraint selector pod value node)
    else counts.get value := by
  unfold countNode share nodeIn
  cases label : node.labels.get constraint.topologyKey with
  | none => rfl
  | some held =>
    dsimp only
    cases eligible : nodeIsEligible constraint pod node with
    | false => simp
    | true =>
      rw [if_pos rfl, SortedMap.get_insert, Bool.and_true]
      by_cases same : value = held
      · subst same
        simp
      · have apart : (some held == some value) = false := by simpa using Ne.symm same
        rw [if_neg same, apart]
        rfl

theorem get_countDomains : (countDomains constraint selector pod nodes).get value =
    if nodes.any (nodeIn constraint pod value) then some (domainCount constraint selector pod nodes value) else none := by
  unfold countDomains domainCount
  induction nodes using List.reverseRecOn with
  | nil => rfl
  | append_singleton nodes node ih =>
    rw [List.foldl_append, List.foldl_cons, List.foldl_nil, get_countNode, ih, List.any_append,
      List.map_append, List.sum_append, List.map_singleton, List.sum_singleton, List.any_cons, List.any_nil,
      Bool.or_false]
    cases here : nodeIn constraint pod value node with
    | false =>
      have none : share constraint selector pod value node = 0 := by
        unfold share
        rw [here]
        rfl
      simp only [none, add_zero, Bool.or_false, Bool.false_eq_true, if_false]
    | true =>
      rw [Bool.or_true, if_pos rfl, if_pos rfl]
      cases before : nodes.any (nodeIn constraint pod value) with
      | true => rfl
      | false =>
        have empty : (nodes.map (share constraint selector pod value)).sum = 0 := by
          refine List.sum_eq_zero fun amount listed => ?_
          rcases List.mem_map.mp listed with ⟨other, member, rfl⟩
          have out := List.any_eq_false.mp before other member
          unfold share
          rw [if_neg out]
        rw [empty]
        rfl

/-! ## The least count -/

/-- The domains with an eligible node. -/
def eligibleDomains (constraint : Constraint) (pod : IncomingPod) (nodes : List Node) : List String :=
  ((nodes.filter (nodeIsEligible constraint pod)).filterMap fun node => node.labels.get constraint.topologyKey).dedup

/-- The least count over the eligible domains, or zero when these are fewer
than the constraint wants. -/
def leastCount (constraint : Constraint) (selector : Option LabelSelector) (pod : IncomingPod) (nodes : List Node) : Int :=
  if ((eligibleDomains constraint pod nodes).length : Int) < constraint.minDomains.getD 1 then 0
  else ((eligibleDomains constraint pod nodes).map (domainCount constraint selector pod nodes)).min?.getD 0

theorem mem_eligibleDomains :
    value ∈ eligibleDomains constraint pod nodes <-> nodes.any (nodeIn constraint pod value) = true := by
  unfold eligibleDomains nodeIn
  rw [List.mem_dedup, List.mem_filterMap, List.any_eq_true]
  constructor
  · rintro ⟨node, listed, label⟩
    have ⟨member, eligible⟩ := List.mem_filter.mp listed
    exact ⟨node, member, by rw [label, eligible]; simp⟩
  · rintro ⟨node, member, both⟩
    rw [Bool.and_eq_true, beq_iff_eq] at both
    exact ⟨node, List.mem_filter.mpr ⟨member, both.2⟩, both.1⟩

theorem countDomains_perm : ((countDomains constraint selector pod nodes).entries.map Prod.fst).Perm
    (eligibleDomains constraint pod nodes) := by
  refine (List.perm_ext_iff_of_nodup ?_ (List.nodup_dedup _)).mpr fun value => ?_
  · exact List.Pairwise.map _ (fun _ _ ordered => ne_of_lt ordered) (countDomains constraint selector pod nodes).sorted
  · change value ∈ _ <-> value ∈ eligibleDomains constraint pod nodes
    rw [mem_eligibleDomains, List.mem_map]
    constructor
    · rintro ⟨⟨held, count⟩, listed, rfl⟩
      have found := SortedMap.mem_entries.mp listed
      rw [get_countDomains] at found
      split_ifs at found with counted
      exact counted
    · intro counted
      refine ⟨(value, domainCount constraint selector pod nodes value), SortedMap.mem_entries.mpr ?_, rfl⟩
      rw [get_countDomains, if_pos counted]

theorem min?_of_perm {first second : List Int} (same : first.Perm second) : first.min? = second.min? := by
  cases least : second.min? with
  | none =>
    rw [List.min?_eq_none_iff] at least ⊢
    rw [least] at same
    exact same.eq_nil
  | some best =>
    rw [List.min?_eq_some_iff] at least ⊢
    exact ⟨same.mem_iff.mpr least.1, fun other listed => least.2 other (same.mem_iff.mp listed)⟩

theorem resolve_globalMin :
    (resolve nodes pod constraint selector).globalMin = leastCount constraint selector pod nodes := by
  have keys := @countDomains_perm constraint selector pod nodes
  have length : (countDomains constraint selector pod nodes).entries.length =
      (eligibleDomains constraint pod nodes).length := by
    rw [← keys.length_eq, List.length_map]
  have counts : (countDomains constraint selector pod nodes).entries.map Prod.snd =
      ((countDomains constraint selector pod nodes).entries.map Prod.fst).map (domainCount constraint selector pod nodes) := by
    rw [List.map_map]
    refine List.map_congr_left fun entry listed => ?_
    have found := SortedMap.mem_entries.mp listed
    rw [get_countDomains] at found
    split_ifs at found
    exact (Option.some.inj found).symm
  unfold ResolvedConstraint.globalMin leastCount resolve
  rw [length, counts, min?_of_perm (keys.map _)]

/-! ## The decision -/

/-- The pod matches the constraint's own selector. -/
def selfMatches (constraint : Constraint) (pod : IncomingPod) : Bool :=
  podMatches (effectiveSelector constraint pod) pod.podNamespace pod.toPlacedPod

def Constraint.Hard (constraint : Constraint) : Prop :=
  constraint.whenUnsatisfiable = "DoNotSchedule"

/-- With the pod on the node, the node's domain is within the skew. -/
def Within (constraint : Constraint) (pod : IncomingPod) (nodes : List Node) (node : Node) : Prop :=
  Exists fun value => node.labels.get constraint.topologyKey = some value ∧
    domainCount constraint (effectiveSelector constraint pod) pod nodes value + (if selfMatches constraint pod then 1 else 0) -
      leastCount constraint (effectiveSelector constraint pod) pod nodes ≤ max constraint.maxSkew 1

/-- There is room for one more, whether or not the pod is one. -/
def HasRoom (constraint : Constraint) (pod : IncomingPod) (nodes : List Node) (node : Node) : Prop :=
  Exists fun value => node.labels.get constraint.topologyKey = some value ∧ value ∈ eligibleDomains constraint pod nodes ∧
    (selfMatches constraint pod ∨
      domainCount constraint (effectiveSelector constraint pod) pod nodes value -
        leastCount constraint (effectiveSelector constraint pod) pod nodes < max constraint.maxSkew 1)

theorem check_isSuccess : (check (resolve nodes pod constraint selector) node).isSuccess <->
    (constraint.Hard -> Exists fun value => node.labels.get constraint.topologyKey = some value ∧
      value ∈ eligibleDomains constraint pod nodes ∧
      domainCount constraint selector pod nodes value + 1 - leastCount constraint selector pod nodes ≤
        max constraint.maxSkew 1) := by
  unfold check
  rw [resolve_globalMin]
  by_cases hard : constraint.whenUnsatisfiable = "DoNotSchedule"
  · have asked : (resolve nodes pod constraint selector).hard = true := decide_eq_true hard
    have key : (resolve nodes pod constraint selector).topologyKey = constraint.topologyKey := rfl
    rw [asked, key, Bool.not_true, if_neg Bool.false_ne_true]
    cases label : node.labels.get constraint.topologyKey with
    | none => exact iff_of_false Bool.false_ne_true fun some => by cases (some hard).choose_spec.1
    | some value =>
      have found : (resolve nodes pod constraint selector).counts.get value = _ := get_countDomains
      dsimp only
      rw [found]
      split_ifs with counted
      · rw [← mem_eligibleDomains] at counted
        change (if max constraint.maxSkew 1 < _ then _ else _ : Status).isSuccess <-> _
        split_ifs with over_
        · refine iff_of_false Bool.false_ne_true fun some => ?_
          rcases some hard with ⟨other, same, _, within⟩
          cases same
          exact absurd over_ (not_lt.mpr within)
        · exact iff_of_true rfl fun _ => ⟨value, rfl, counted, not_lt.mp over_⟩
      · refine iff_of_false Bool.false_ne_true fun some => ?_
        rcases some hard with ⟨other, same, eligible, _⟩
        cases same
        exact counted (mem_eligibleDomains.mp eligible)
  · have soft : (resolve nodes pod constraint selector).hard = false := decide_eq_false hard
    rw [soft]
    exact iff_of_true rfl fun asked => absurd asked hard

theorem filter_isSuccess {constraints : List ResolvedConstraint} :
    (filter (some constraints) node).isSuccess <-> forall c, c ∈ constraints -> (check c node).isSuccess := by
  unfold filter
  dsimp only
  cases refused : (constraints.map fun c => check c node).find? fun status => !status.isSuccess with
  | none =>
    refine iff_of_true rfl fun c listed => ?_
    simpa using List.find?_eq_none.mp refused (check c node) (List.mem_map_of_mem listed)
  | some status =>
    have bad : status.isSuccess = false := by simpa using List.find?_some refused
    rw [Option.getD_some, bad]
    refine iff_of_false Bool.false_ne_true fun every => ?_
    rcases List.mem_map.mp (List.mem_of_find?_eq_some refused) with ⟨c, listed, rfl⟩
    rw [every c listed] at bad
    exact Bool.noConfusion bad

/-- The plugin lets a pod on a node when each of its hard constraints has room
for one more in the node's domain, which has to have an eligible node. -/
theorem accepts_iff {workloads : Option LabelSelector} : accepts workloads pod nodes node <->
    forall c, c ∈ pod.topologySpreadConstraints -> c.Hard ->
      Exists fun value => node.labels.get c.topologyKey = some value ∧ value ∈ eligibleDomains c pod nodes ∧
        domainCount c (effectiveSelector c pod) pod nodes value + 1 - leastCount c (effectiveSelector c pod) pod nodes ≤
          max c.maxSkew 1 := by
  cases own : pod.topologySpreadConstraints with
  | nil =>
    refine iff_of_true ?_ nofun
    unfold accepts preFilter
    rw [own]
    cases workloads with
    | none => rfl
    | some selector => rfl
  | cons first rest =>
    rw [← own]
    have some : pod.topologySpreadConstraints.isEmpty = false := by
      rw [own]
      rfl
    have nonempty : (pod.topologySpreadConstraints.map fun c =>
        resolve nodes pod c (effectiveSelector c pod)).isEmpty = false := by
      rw [own]
      rfl
    unfold accepts preFilter
    rw [some]
    dsimp only
    rw [Bool.not_false, if_pos rfl, nonempty, if_neg Bool.false_ne_true]
    cases refused : (pod.topologySpreadConstraints.map fun c =>
        resolve nodes pod c (effectiveSelector c pod)).find? fun c => c.hard && c.counts.entries.isEmpty with
    | none =>
      change (filter (Option.some _) node).isSuccess <-> _
      rw [filter_isSuccess]
      constructor
      · intro every c listed
        exact check_isSuccess.mp (every _ (List.mem_map_of_mem listed))
      · intro every c listed
        rcases List.mem_map.mp listed with ⟨own, member, rfl⟩
        exact check_isSuccess.mpr (every own member)
    | some c =>
      refine iff_of_false Bool.false_ne_true fun every => ?_
      rcases List.mem_map.mp (List.mem_of_find?_eq_some refused) with ⟨own, member, rfl⟩
      have bad := List.find?_some refused
      rw [Bool.and_eq_true, List.isEmpty_iff] at bad
      have hard : own.whenUnsatisfiable = "DoNotSchedule" := of_decide_eq_true bad.1
      rcases every own member hard with ⟨value, _, eligible, _⟩
      have keys := @countDomains_perm own (effectiveSelector own pod) pod nodes
      have none : (countDomains own (effectiveSelector own pod) pod nodes).entries = [] := bad.2
      rw [none] at keys
      exact List.not_mem_nil (keys.mem_iff.mpr eligible)

/-- The plugin agrees with the skew as it is meant exactly when, on a node
that is within the skew of every constraint, the domain is eligible and has
room for a pod that would not count. -/
theorem accepts_agrees_iff {workloads : Option LabelSelector} :
    (accepts workloads pod nodes node <-> forall c, c ∈ pod.topologySpreadConstraints -> c.Hard -> Within c pod nodes node) <->
      ((forall c, c ∈ pod.topologySpreadConstraints -> c.Hard -> Within c pod nodes node) ->
        forall c, c ∈ pod.topologySpreadConstraints -> c.Hard -> HasRoom c pod nodes node) := by
  rw [accepts_iff]
  constructor
  · intro agrees within c listed hard
    rcases agrees.mpr within c listed hard with ⟨value, label, eligible, room⟩
    exact ⟨value, label, eligible, Or.inr (by omega)⟩
  · intro room
    constructor
    · intro charged c listed hard
      rcases charged c listed hard with ⟨value, label, _, fits⟩
      refine ⟨value, label, ?_⟩
      split_ifs
      · exact fits
      · omega
    · intro within c listed hard
      rcases room within c listed hard with ⟨value, label, eligible, own⟩
      rcases within c listed hard with ⟨also, same, fits⟩
      rw [label] at same
      cases same
      refine ⟨value, label, eligible, ?_⟩
      rcases own with itself | less
      · rwa [if_pos itself] at fits
      · omega

/-! ## Pods that come and go -/

/-- A pod put on a node, or taken from it. -/
structure Change where
  index : Nat
  other : PlacedPod
  added : Bool

/-- The nodes after the change. -/
def Change.apply (change : Change) (nodes : List Node) : List Node :=
  match nodes[change.index]? with
  | none => nodes
  | some node => nodes.set change.index { node with
      pods := if change.added then node.pods ++ [change.other] else node.pods.erase change.other }

/-- The plugin told of the change. -/
def Change.adjust (change : Change) (pod : IncomingPod) (nodes : List Node) (c : ResolvedConstraint) : ResolvedConstraint :=
  match nodes[change.index]? with
  | none => c
  | some node => TopologySpread.adjust pod change.other node (if change.added then 1 else -1) c

/-- A pod is put on a node that there is, and taken from one that it is on. -/
def Change.Valid (change : Change) (nodes : List Node) : Prop :=
  Exists fun node => nodes[change.index]? = some node ∧ (change.added = false -> change.other ∈ node.pods)

/-- A matching pod is on an eligible node, or in no domain that counts. -/
def Change.Harmless (change : Change) (constraint : Constraint) (pod : IncomingPod) (nodes : List Node) : Prop :=
  forall node, nodes[change.index]? = some node -> forall value, node.labels.get constraint.topologyKey = some value ->
    podMatches (effectiveSelector constraint pod) pod.podNamespace change.other ->
      nodeIsEligible constraint pod node ∨ value ∉ eligibleDomains constraint pod nodes

/-- What the change is worth to a domain. -/
def Change.shift (change : Change) (constraint : Constraint) (pod : IncomingPod) (node : Node) (value : String) : Int :=
  if nodeIn constraint pod value node ∧ podMatches (effectiveSelector constraint pod) pod.podNamespace change.other
  then (if change.added then 1 else -1) else 0

theorem set_split {Item : Type} {items : List Item} {i : Nat} {item : Item} (here : items[i]? = some item) :
    Exists fun before => Exists fun after => items = before ++ item :: after ∧
      forall other, items.set i other = before ++ other :: after := by
  induction items generalizing i with
  | nil => cases here
  | cons first rest ih =>
    cases i with
    | zero =>
      have same : first = item := Option.some.inj here
      exact ⟨[], rest, by rw [same]; rfl, fun _ => rfl⟩
    | succ i =>
      rcases ih here with ⟨before, after, whole, changed⟩
      exact ⟨first :: before, after, by rw [whole]; rfl, fun other => congrArg (first :: ·) (changed other)⟩

section
variable {change : Change}

theorem count_added {p : PlacedPod -> Bool} {held : List PlacedPod} {other : PlacedPod} {added : Bool}
    (present : added = false -> other ∈ held) :
    ((if added then held ++ [other] else held.erase other).countP p : Int) =
      held.countP p + if p other then (if added then 1 else -1) else 0 := by
  cases added with
  | true =>
    rw [if_pos rfl, List.countP_append, List.countP_singleton]
    cases p other with
    | true => simp
    | false => simp
  | false =>
    have parts := (List.perm_cons_erase (present rfl)).countP_eq p
    rw [List.countP_cons] at parts
    rw [if_neg Bool.false_ne_true, if_neg Bool.false_ne_true]
    split_ifs at parts ⊢
    · omega
    · omega

theorem domains_of_change (valid : change.Valid nodes) :
    (change.apply nodes).any (nodeIn constraint pod value) = nodes.any (nodeIn constraint pod value) := by
  rcases valid with ⟨node, here, _⟩
  rcases set_split here with ⟨before, after, whole, changed⟩
  unfold Change.apply
  rw [here]
  dsimp only
  rw [changed, whole, List.any_append, List.any_append, List.any_cons, List.any_cons]
  rfl

theorem domainCount_of_change (valid : change.Valid nodes) {node : Node} (here : nodes[change.index]? = some node) :
    domainCount constraint (effectiveSelector constraint pod) pod (change.apply nodes) value =
      domainCount constraint (effectiveSelector constraint pod) pod nodes value +
        change.shift constraint pod node value := by
  rcases valid with ⟨also, same, present⟩
  rw [here] at same
  cases same
  rcases set_split here with ⟨before, after, whole, changed⟩
  unfold domainCount Change.apply
  rw [here]
  dsimp only
  rw [changed, whole, List.map_append, List.map_append, List.sum_append, List.sum_append, List.map_cons, List.map_cons,
    List.sum_cons, List.sum_cons]
  have own : share constraint (effectiveSelector constraint pod) pod value { node with
      pods := if change.added then node.pods ++ [change.other] else node.pods.erase change.other } =
      share constraint (effectiveSelector constraint pod) pod value node + change.shift constraint pod node value := by
    unfold share Change.shift
    change (if nodeIn constraint pod value node then _ else _) = _
    by_cases counted : nodeIn constraint pod value node = true
    · rw [if_pos counted, if_pos counted, count_added present]
      simp only [counted, true_and]
    · rw [if_neg counted, if_neg counted, if_neg (fun both => counted both.1)]
      rfl
  rw [own]
  omega

theorem get_countDomains_of_change (valid : change.Valid nodes) {node : Node} (here : nodes[change.index]? = some node) :
    (countDomains constraint (effectiveSelector constraint pod) pod (change.apply nodes)).get value =
      ((countDomains constraint (effectiveSelector constraint pod) pod nodes).get value).map fun count =>
        count + change.shift constraint pod node value := by
  rw [get_countDomains, get_countDomains, domains_of_change valid, domainCount_of_change valid here]
  split_ifs <;> rfl

theorem nodeIn_iff : nodeIn constraint pod value node <->
    node.labels.get constraint.topologyKey = some value ∧ nodeIsEligible constraint pod node := by
  unfold nodeIn
  rw [Bool.and_eq_true, beq_iff_eq]

/-- The counts that are kept go the way of those that would be counted anew
exactly when the change is harmless. -/
theorem adjust_counts_iff (valid : change.Valid nodes) {c : ResolvedConstraint}
    (key : c.topologyKey = constraint.topologyKey) (own : c.selector = effectiveSelector constraint pod)
    (right : c.counts = countDomains constraint (effectiveSelector constraint pod) pod nodes) :
    (change.adjust pod nodes c).counts = countDomains constraint (effectiveSelector constraint pod) pod (change.apply nodes) <->
      change.Harmless constraint pod nodes := by
  rcases id valid with ⟨node, here, _⟩
  have anew := fun value => @get_countDomains_of_change constraint pod nodes value change valid node here
  -- when the node counts for no domain that the pod is in, nothing changes
  have unchanged : (forall value, ¬ (nodeIn constraint pod value node ∧
      podMatches (effectiveSelector constraint pod) pod.podNamespace change.other)) ->
      countDomains constraint (effectiveSelector constraint pod) pod (change.apply nodes) =
        countDomains constraint (effectiveSelector constraint pod) pod nodes := by
    intro apart
    refine SortedMap.ext_get fun value => ?_
    rw [anew, Change.shift, if_neg (apart value)]
    cases (countDomains constraint (effectiveSelector constraint pod) pod nodes).get value with
    | none => rfl
    | some count => exact congrArg some (Int.add_zero count)
  unfold Change.adjust adjust Change.Harmless
  rw [here, key, own, right]
  dsimp only
  cases label : node.labels.get constraint.topologyKey with
  | none =>
    have apart := unchanged fun value both => by
      rw [nodeIn_iff, label] at both
      cases both.1.1
    refine iff_of_true (right.trans apart.symm) fun other same value labelled _ => ?_
    cases same
    rw [label] at labelled
    cases labelled
  | some held =>
    dsimp only
    by_cases matched : podMatches (effectiveSelector constraint pod) pod.podNamespace change.other = true
    · rw [if_pos matched]
      cases counted : (countDomains constraint (effectiveSelector constraint pod) pod nodes).get held with
      | none =>
        have missing : held ∉ eligibleDomains constraint pod nodes := by
          intro eligible
          rw [get_countDomains, if_pos (mem_eligibleDomains.mp eligible)] at counted
          cases counted
        have apart := unchanged fun value both => by
          have inDomain := nodeIn_iff.mp both.1
          rw [label] at inDomain
          have same : held = value := Option.some.inj inDomain.1
          subst same
          exact missing (mem_eligibleDomains.mpr (List.any_eq_true.mpr ⟨node, List.mem_of_getElem? here, both.1⟩))
        refine iff_of_true (right.trans apart.symm) fun other same value labelled _ => Or.inr ?_
        cases same
        rw [label] at labelled
        cases labelled
        exact missing
      | some count =>
        have present : held ∈ eligibleDomains constraint pod nodes := by
          by_contra missing
          rw [get_countDomains, if_neg (fun eligible => missing (mem_eligibleDomains.mpr eligible))] at counted
          cases counted
        constructor
        · intro equal other same value labelled _
          cases same
          rw [label] at labelled
          cases labelled
          refine Or.inl ?_
          by_contra ineligible
          have still : change.shift constraint pod node held = 0 :=
            if_neg fun both => ineligible (nodeIn_iff.mp both.1).2
          have atDomain := anew held
          rw [← equal, SortedMap.get_insert, if_pos rfl, counted, Option.map_some, still] at atDomain
          have sum := Option.some.inj atDomain
          cases added : change.added with
          | true =>
            rw [added, if_pos rfl] at sum
            omega
          | false =>
            rw [added, if_neg Bool.false_ne_true] at sum
            omega
        · intro harmless
          have eligible := (harmless node rfl held label matched).resolve_right (fun missing => missing present)
          refine SortedMap.ext_get fun value => ?_
          rw [anew, SortedMap.get_insert]
          by_cases same : value = held
          · subst same
            rw [if_pos rfl, counted, Option.map_some, Change.shift]
            exact congrArg (fun more => some (count + more)) (if_pos ⟨nodeIn_iff.mpr ⟨label, eligible⟩, matched⟩).symm
          · have apart : change.shift constraint pod node value = 0 := by
              refine if_neg fun both => ?_
              have inDomain := (nodeIn_iff.mp both.1).1
              rw [label] at inDomain
              exact same (Option.some.inj inDomain).symm
            rw [if_neg same, apart]
            cases (countDomains constraint (effectiveSelector constraint pod) pod nodes).get value with
            | none => rfl
            | some other => exact congrArg some (Int.add_zero other).symm
    · rw [if_neg matched]
      have apart := unchanged fun value both => matched both.2
      exact iff_of_true (right.trans apart.symm) fun _ _ _ _ also => absurd also matched

/-! ## Runs -/

/-- The constraint as it is kept, and the nodes, after some changes. -/
def runChanges (pod : IncomingPod) (start : ResolvedConstraint × List Node) (changes : List Change) :
    ResolvedConstraint × List Node :=
  changes.foldl (fun state change => (change.adjust pod state.2 state.1, change.apply state.2)) start

/-- Each change is valid where it is made. -/
def AllValid (nodes : List Node) : List Change -> Prop
  | [] => True
  | change :: rest => change.Valid nodes ∧ AllValid (change.apply nodes) rest

/-- Each change is harmless where it is made. -/
def AllHarmless (constraint : Constraint) (pod : IncomingPod) (nodes : List Node) : List Change -> Prop
  | [] => True
  | change :: rest => change.Harmless constraint pod nodes ∧ AllHarmless constraint pod (change.apply nodes) rest

theorem adjust_rest {c : ResolvedConstraint} : (change.adjust pod nodes c).topologyKey = c.topologyKey ∧
    (change.adjust pod nodes c).selector = c.selector := by
  unfold Change.adjust adjust
  cases nodes[change.index]? with
  | none => exact ⟨rfl, rfl⟩
  | some node =>
    dsimp only
    cases node.labels.get c.topologyKey with
    | none => exact ⟨rfl, rfl⟩
    | some value =>
      dsimp only
      by_cases matched : podMatches c.selector pod.podNamespace change.other = true
      · rw [if_pos matched]
        cases c.counts.get value with
        | none | some entry => exact ⟨rfl, rfl⟩
      · rw [if_neg matched]
        exact ⟨rfl, rfl⟩

theorem runChanges_iff {changes : List Change} (valid : AllValid nodes changes) {c : ResolvedConstraint}
    (key : c.topologyKey = constraint.topologyKey) (own : c.selector = effectiveSelector constraint pod)
    (right : c.counts = countDomains constraint (effectiveSelector constraint pod) pod nodes) :
    (forall k, (runChanges pod (c, nodes) (changes.take k)).1.counts =
        countDomains constraint (effectiveSelector constraint pod) pod (runChanges pod (c, nodes) (changes.take k)).2) <->
      AllHarmless constraint pod nodes changes := by
  induction changes generalizing c nodes with
  | nil =>
    refine iff_of_true (fun k => ?_) trivial
    rw [List.take_nil]
    exact right
  | cons change rest ih =>
    rcases valid with ⟨here, later⟩
    have step := adjust_counts_iff here key own right
    have ⟨sameKey, sameSelector⟩ := @adjust_rest pod nodes change c
    constructor
    · intro every
      have next := every 1
      have harmless := step.mp next
      refine ⟨harmless, (ih later (sameKey.trans key) (sameSelector.trans own) next).mp fun k => ?_⟩
      exact every (k + 1)
    · rintro ⟨harmless, others⟩ k
      cases k with
      | zero => exact right
      | succ k =>
        exact (ih later (sameKey.trans key) (sameSelector.trans own) (step.mpr harmless)).mpr others k

end

/-- The plugin agrees with the skew as it is meant, and its counts with those
counted anew after every change, under these conditions exactly. -/
theorem topology_spread (workloads : Option LabelSelector) (pod : IncomingPod) (nodes : List Node) (node : Node)
    (changes : List Change) :
    ((accepts workloads pod nodes node <->
        forall c, c ∈ pod.topologySpreadConstraints -> c.Hard -> Within c pod nodes node) <->
      ((forall c, c ∈ pod.topologySpreadConstraints -> c.Hard -> Within c pod nodes node) ->
        forall c, c ∈ pod.topologySpreadConstraints -> c.Hard -> HasRoom c pod nodes node)) ∧
    (AllValid nodes changes -> forall c, c ∈ pod.topologySpreadConstraints ->
      ((forall k, (runChanges pod (resolve nodes pod c (effectiveSelector c pod), nodes) (changes.take k)).1.counts =
          countDomains c (effectiveSelector c pod) pod
            (runChanges pod (resolve nodes pod c (effectiveSelector c pod), nodes) (changes.take k)).2) <->
        AllHarmless c pod nodes changes)) :=
  ⟨accepts_agrees_iff, fun valid _ _ => runChanges_iff valid rfl rfl rfl⟩

/-- A pod that does not match its own constraint is refused where it changes
no count, and a victim on a node that does not count lowers the count. -/
theorem own_pod_counted_and_ineligible_victim_taken :
    (Exists fun pod : IncomingPod => Exists fun node : Node => accepts none pod [node, { node with
      labels := .ofList [("zone", "b")], pods := [] }] node = false ∧
      forall c, c ∈ pod.topologySpreadConstraints -> c.Hard -> Within c pod [node, { node with
        labels := .ofList [("zone", "b")], pods := [] }] node) ∧
    Exists fun pod : IncomingPod => Exists fun nodes : List Node => Exists fun change : Change => change.Valid nodes ∧
      Exists fun c => c ∈ pod.topologySpreadConstraints ∧
        (change.adjust pod nodes (resolve nodes pod c (effectiveSelector c pod))).counts ≠
          countDomains c (effectiveSelector c pod) pod (change.apply nodes) := by
  let web : Labels := .ofList [("app", "web")]
  let constraint : Constraint := ⟨1, "zone", "DoNotSchedule", none, some ⟨some [("app", "web")], none⟩, none, none, none⟩
  let incoming (selector : SortedMap String String) (labels : Labels) : IncomingPod :=
    { podNamespace := "default", uid := "new", labels := labels, nodeSelector := selector, nodeAffinity := none,
      tolerations := [], topologySpreadConstraints := [constraint] }
  let running : PlacedPod := ⟨"default", "old", web⟩
  let first : Node := ⟨"a1", .ofList [("zone", "a")], [], [running]⟩
  constructor
  · refine ⟨incoming .empty .empty, first, by decide +kernel, ?_⟩
    intro c listed _
    rw [List.mem_singleton.mp listed]
    refine ⟨"a", by decide +kernel, ?_⟩
    decide +kernel
  · let ssd : Node := ⟨"a2", .ofList [("disk", "ssd"), ("zone", "a")], [], []⟩
    refine ⟨incoming (.ofList [("disk", "ssd")]) web, [first, ssd], ⟨0, running, false⟩, ?_, constraint, .head _, ?_⟩
    · exact ⟨first, rfl, fun _ => .head _⟩
    · decide +kernel

end TopologySpread
end NotK8s.Scheduler

import Mathlib.Algebra.Order.BigOperators.Group.List
import NotK8s.Scheduler.NodeInfo

namespace NotK8s.Scheduler

open Library

/-!
# The accounts of a node

A node is accounted for when each pod is listed once, and its totals and
ports are those of the listed pods.  Removing a pod always keeps that.  Adding
one keeps it when the new sum stays inside 64 bits.
-/

/-- What the pods ask of one resource together. -/
def sumOf (weigh : PodInfo -> Resources) (resource : String) (pods : List PodInfo) : Int :=
  (pods.map fun pod => ((weigh pod).get resource).val).sum

structure NodeInfo.Accounted (info : NodeInfo) : Prop where
  distinct : (info.pods.map PodInfo.uid).Nodup
  ports : info.usedPorts.Perm (info.pods.flatMap PodInfo.hostPorts)
  requested : forall resource, (info.requested.get resource).val = sumOf PodInfo.requests resource info.pods
  nonZeroRequested : forall resource,
    (info.nonZeroRequested.get resource).val = sumOf PodInfo.nonZeroRequests resource info.pods

/-- No pod asks for less than nothing. -/
def NonNegative (pods : List PodInfo) : Prop :=
  forall pod, pod ∈ pods -> forall resource, 0 ≤ (pod.requests.get resource).val

section
variable {weigh : PodInfo -> Resources} {resource uid : String} {pods : List PodInfo} {pod : PodInfo}

theorem sumOf_perm {other : List PodInfo} (same : pods.Perm other) : sumOf weigh resource pods = sumOf weigh resource other :=
  (same.map _).sum_eq

theorem sumOf_cons : sumOf weigh resource (pod :: pods) = ((weigh pod).get resource).val + sumOf weigh resource pods :=
  List.sum_cons

theorem sumOf_concat :
    sumOf weigh resource (pods ++ [pod]) = sumOf weigh resource pods + ((weigh pod).get resource).val := by
  rw [sumOf_perm (@List.perm_append_comm _ pods [pod]), List.singleton_append, sumOf_cons, add_comm]

theorem sumOf_nonneg (positive : forall pod, pod ∈ pods -> 0 ≤ ((weigh pod).get resource).val) :
    0 ≤ sumOf weigh resource pods := by
  apply List.sum_nonneg
  intro amount listed
  rcases List.mem_map.mp listed with ⟨pod, member, rfl⟩
  exact positive pod member

theorem get_nonZeroRequests_nonneg (positive : 0 ≤ (pod.requests.get resource).val) :
    0 ≤ (pod.nonZeroRequests.get resource).val := by
  by_cases cpu : resource = "cpu"
  · subst cpu
    change 0 ≤ (if pod.requests.milliCpu = 0 then defaultMilliCpuRequest else pod.requests.milliCpu).val
    split_ifs
    · decide
    · exact positive
  · by_cases memory : resource = "memory"
    · subst memory
      change 0 ≤ (if pod.requests.memory = 0 then defaultMemoryRequest else pod.requests.memory).val
      split_ifs
      · decide
      · exact positive
    · have same : pod.nonZeroRequests.get resource = pod.requests.get resource := by
        unfold Resources.get
        rw [if_neg cpu, if_neg cpu, if_neg memory, if_neg memory]
        rfl
      rwa [same]

theorem eraseP_eq_filter (distinct : (pods.map PodInfo.uid).Nodup) :
    (pods.eraseP fun held => held.uid = uid) = pods.filter fun held => held.uid ≠ uid := by
  induction pods with
  | nil => rfl
  | cons head rest ih =>
    rw [List.map_cons, List.nodup_cons] at distinct
    by_cases same : head.uid = uid
    · rw [List.eraseP_cons_of_pos (by simpa using same), List.filter_cons_of_neg (by simpa using same)]
      refine (List.filter_eq_self.mpr fun held listed => decide_eq_true ?_).symm
      intro equal
      exact distinct.1 (List.mem_map.mpr ⟨held, listed, equal.trans same.symm⟩)
    · rw [List.eraseP_cons_of_neg (by simpa using same), List.filter_cons_of_pos (by simpa using same),
        ih distinct.2]

theorem foldl_erase_perm {claimed used rest : List HostPort} (whole : used.Perm (claimed ++ rest)) :
    (claimed.foldl List.erase used).Perm rest := by
  induction claimed generalizing used with
  | nil => exact whole
  | cons port more ih =>
    apply ih
    have given := whole.erase port
    rwa [List.cons_append, List.erase_cons_head] at given

end

namespace NodeInfo

variable {info : NodeInfo} {pod : PodInfo} {uid : String} {generation : Nat}

/-! ## Which pods are listed -/

/-- The pods of the node once a pod is added. -/
def podsWith (info : NodeInfo) (pod : PodInfo) : List PodInfo :=
  (info.pods.filter fun held => held.uid ≠ pod.uid) ++ [pod]

/-- Each pod is listed once. -/
def Distinct (info : NodeInfo) : Prop :=
  (info.pods.map PodInfo.uid).Nodup

theorem Distinct.removePod_pods (distinct : info.Distinct) :
    (info.removePod uid generation).pods = info.pods.filter fun held => held.uid ≠ uid := by
  unfold NodeInfo.removePod
  cases found : info.pods.find? fun held => held.uid = uid with
  | none =>
    have absent := List.find?_eq_none.mp found
    refine (List.filter_eq_self.mpr fun held listed => ?_).symm
    simpa using absent held listed
  | some pod => exact eraseP_eq_filter distinct

theorem Distinct.removePod (distinct : info.Distinct) : (info.removePod uid generation).Distinct := by
  unfold Distinct
  rw [distinct.removePod_pods]
  exact (List.filter_sublist.map _).nodup distinct

theorem Distinct.addPod_pods (distinct : info.Distinct) : (info.addPod pod generation).pods = info.podsWith pod := by
  unfold NodeInfo.addPod podsWith
  dsimp only
  split_ifs with present
  · rw [distinct.removePod_pods]
  · have absent : (info.pods.filter fun held => held.uid ≠ pod.uid) = info.pods := by
      refine List.filter_eq_self.mpr fun held listed => ?_
      have apart : held.uid ≠ pod.uid :=
        fun same => present (List.any_eq_true.mpr ⟨held, listed, decide_eq_true same⟩)
      exact decide_eq_true apart
    rw [absent]

theorem Distinct.addPod (distinct : info.Distinct) : (info.addPod pod generation).Distinct := by
  unfold Distinct
  rw [distinct.addPod_pods]
  unfold podsWith
  rw [List.map_append, List.nodup_append]
  refine ⟨(List.filter_sublist.map _).nodup distinct, List.nodup_singleton _, ?_⟩
  intro uid listed other single
  rcases List.mem_map.mp listed with ⟨held, member, rfl⟩
  rw [List.map_singleton, List.mem_singleton] at single
  rw [single]
  exact of_decide_eq_true (List.mem_filter.mp member).2

theorem removePod_of_found (found : (info.pods.find? fun held => held.uid = uid) = some pod) :
    info.removePod uid generation = { info with
      pods := info.pods.eraseP fun held => held.uid = uid
      requested := info.requested.sub pod.requests
      nonZeroRequested := info.nonZeroRequested.sub pod.nonZeroRequests
      usedPorts := pod.hostPorts.foldl List.erase info.usedPorts
      podsWithAffinity := info.podsWithAffinity.filter fun held => held.uid ≠ uid
      podsWithRequiredAntiAffinity := info.podsWithRequiredAntiAffinity.filter fun held => held.uid ≠ uid
      generation := generation } := by
  unfold NodeInfo.removePod
  rw [found]

theorem perm_of_found (distinct : info.Distinct) (found : (info.pods.find? fun held => held.uid = uid) = some pod) :
    info.pods.Perm (pod :: info.pods.eraseP fun held => held.uid = uid) := by
  have here : pod.uid = uid := by simpa using List.find?_some found
  have listed := List.mem_of_find?_eq_some found
  rw [eraseP_eq_filter distinct]
  apply (List.perm_ext_iff_of_nodup distinct.of_map ?_).mpr
  · intro held
    rw [List.mem_cons, List.mem_filter]
    constructor
    · intro member
      by_cases same : held.uid = uid
      · exact Or.inl (List.inj_on_of_nodup_map distinct member listed (same.trans here.symm))
      · exact Or.inr ⟨member, decide_eq_true same⟩
    · rintro (rfl | ⟨member, _⟩)
      · exact listed
      · exact member
  · refine List.nodup_cons.mpr ⟨?_, distinct.of_map.filter _⟩
    rw [List.mem_filter]
    exact fun member => of_decide_eq_true member.2 here

/-! ## The accounts -/

theorem Accounted.default : NodeInfo.default.Accounted where
  distinct := List.nodup_nil
  ports := List.Perm.refl _
  requested _ := congrArg I64.val Resources.get_zero
  nonZeroRequested _ := congrArg I64.val Resources.get_zero

section

variable (accounted : info.Accounted)
include accounted

theorem Accounted.listed : info.Distinct :=
  accounted.distinct

theorem Accounted.updateFromNode {node : ApiNode} {object : Option ApiNode} :
    ({ info.updateFromNode node generation with apiObject := object } : NodeInfo).Accounted := by
  rcases @updateFromNode_spec info node generation with ⟨_, _, pods, requested, nonZero, ports⟩
  constructor
  · rw [pods]
    exact accounted.distinct
  · rw [ports]
    rw [pods]
    exact accounted.ports
  · intro resource
    change ((info.updateFromNode node generation).requested.get resource).val =
      sumOf _ _ (info.updateFromNode node generation).pods
    rw [requested, pods]
    exact accounted.requested resource
  · intro resource
    change ((info.updateFromNode node generation).nonZeroRequested.get resource).val =
      sumOf _ _ (info.updateFromNode node generation).pods
    rw [nonZero, pods]
    exact accounted.nonZeroRequested resource

theorem Accounted.removePod (positive : NonNegative info.pods) :
    (info.removePod uid generation).Accounted := by
  cases found : info.pods.find? fun held => held.uid = uid with
  | none =>
    have unchanged : info.removePod uid generation = info := by
      unfold NodeInfo.removePod
      rw [found]
    rw [unchanged]
    exact accounted
  | some pod =>
    have listed := List.mem_of_find?_eq_some found
    have parts := perm_of_found accounted.distinct found
    have restPositive : NonNegative (info.pods.eraseP fun held => held.uid = uid) :=
      fun held member => positive held (List.eraseP_subset member)
    rw [removePod_of_found found]
    constructor
    · exact (List.eraseP_sublist.map _).nodup accounted.distinct
    · exact foldl_erase_perm (accounted.ports.trans (parts.flatMap_right _))
    · intro resource
      have total := accounted.requested resource
      rw [sumOf_perm parts, sumOf_cons] at total
      have rest := sumOf_nonneg fun held member => restPositive held member resource
      have own := positive pod listed resource
      dsimp only
      rw [Resources.val_get_sub own (by omega)]
      omega
    · intro resource
      have total := accounted.nonZeroRequested resource
      rw [sumOf_perm parts, sumOf_cons] at total
      have rest : 0 ≤ sumOf PodInfo.nonZeroRequests resource (info.pods.eraseP fun held => held.uid = uid) :=
        sumOf_nonneg fun held member => get_nonZeroRequests_nonneg (restPositive held member resource)
      have own := get_nonZeroRequests_nonneg (positive pod listed resource)
      dsimp only
      rw [Resources.val_get_sub own (by omega)]
      omega

/-- The sum of the pods stays inside 64 bits. -/
def Bounded (pods : List PodInfo) : Prop :=
  forall resource, sumOf PodInfo.requests resource pods < 2 ^ 63 ∧
    sumOf PodInfo.nonZeroRequests resource pods < 2 ^ 63

theorem Accounted.addPod (positive : NonNegative (info.podsWith pod))
    (held : NonNegative info.pods) (bounded : Bounded (info.podsWith pod)) :
    (info.addPod pod generation).Accounted := by
  -- the node without an older version of the pod
  have clearing : Exists fun cleared : NodeInfo => cleared.Accounted ∧
      (cleared.pods = info.pods.filter fun other => other.uid ≠ pod.uid) ∧
      (info.addPod pod generation).requested = cleared.requested.add pod.requests ∧
      (info.addPod pod generation).nonZeroRequested = cleared.nonZeroRequested.add pod.nonZeroRequests ∧
      (info.addPod pod generation).usedPorts = cleared.usedPorts ++ pod.hostPorts := by
    by_cases present : (info.pods.any fun other => other.uid = pod.uid) = true
    · refine ⟨info.removePod pod.uid generation, accounted.removePod held, accounted.listed.removePod_pods, ?_⟩
      unfold NodeInfo.addPod
      rw [if_pos present]
      exact ⟨rfl, rfl, rfl⟩
    · refine ⟨info, accounted, ?_, ?_⟩
      · refine (List.filter_eq_self.mpr fun other listed => ?_).symm
        have apart : other.uid ≠ pod.uid :=
          fun same => present (List.any_eq_true.mpr ⟨other, listed, decide_eq_true same⟩)
        exact decide_eq_true apart
      · unfold NodeInfo.addPod
        rw [if_neg present]
        exact ⟨rfl, rfl, rfl⟩
  rcases clearing with ⟨cleared, clear, rest, requested, nonZero, ports⟩
  have pods : (info.addPod pod generation).pods = cleared.pods ++ [pod] := by
    rw [accounted.listed.addPod_pods, rest]
    rfl
  have whole : info.podsWith pod = cleared.pods ++ [pod] := by
    rw [rest]
    rfl
  rw [whole] at positive bounded
  constructor
  · exact accounted.listed.addPod
  · rw [ports, pods, List.flatMap_append, List.flatMap_singleton]
    exact clear.ports.append_right _
  · intro resource
    have bound := (bounded resource).1
    have earlier := sumOf_nonneg fun other member => positive other (List.mem_append_left [pod] member) resource
    have own := positive pod (List.mem_append_right _ (List.mem_singleton_self pod)) resource
    rw [sumOf_concat] at bound
    rw [requested, pods, sumOf_concat, ← clear.requested resource] at *
    exact Resources.val_get_add (by omega) bound
  · intro resource
    have bound := (bounded resource).2
    have earlier : 0 ≤ sumOf PodInfo.nonZeroRequests resource cleared.pods := sumOf_nonneg fun other member =>
      get_nonZeroRequests_nonneg (positive other (List.mem_append_left [pod] member) resource)
    have own := get_nonZeroRequests_nonneg
      (positive pod (List.mem_append_right _ (List.mem_singleton_self pod)) resource)
    rw [sumOf_concat] at bound
    rw [nonZero, pods, sumOf_concat, ← clear.nonZeroRequested resource] at *
    exact Resources.val_get_add (by omega) bound

end

end NodeInfo

/-!
# When a node's totals are right

A node's totals are right when they are the sums of what its pods ask, as near
as 64 bits come to them.  Addition saturates, so a total that has reached the
end of the range does not say how far beyond it the sum is, and taking a pod's
amount away from it gives too little.
-/

/-- The vector has an amount under the name, if only zero. -/
def Resources.lists (r : Resources) (name : String) : Bool :=
  name = "cpu" || name = "memory" || name = "ephemeral-storage" ||
    if isHugepages name then (r.hugepages.get name).isSome else (r.extended.get name).isSome

theorem Resources.get_sub {r other : Resources} {name : String} : (r.sub other).get name =
    if other.lists name then max ((r.get name).wrappingSub (other.get name)) 0 else r.get name := by
  unfold Resources.sub Resources.combine Resources.get Resources.lists
  by_cases cpu : name = "cpu"
  · simp [cpu]
  by_cases memory : name = "memory"
  · simp [memory]
  by_cases storage : name = "ephemeral-storage"
  · simp [storage]
  by_cases huge : isHugepages name
  · simp only [cpu, memory, storage, huge, if_false, if_true, decide_false, Bool.false_or]
    rw [SortedMap.get_fold]
    cases other.hugepages.get name with
    | none => rfl
    | some v => rfl
  · simp only [cpu, memory, storage, huge, if_false, decide_false, Bool.false_or, Bool.false_eq_true]
    rw [SortedMap.get_fold]
    cases other.extended.get name with
    | none => rfl
    | some v => rfl

/-! ## One amount -/

/-- Adding an amount brings a sum that is beyond the range no nearer to it. -/
def AddKeeps (sum own : Int) : Prop :=
  (2 ^ 63 ≤ sum -> 0 ≤ own) ∧ (sum < -2 ^ 63 -> own ≤ 0)

/-- The sum and what remains of it are in the range, and what remains is not
negative; or nothing is taken from a sum beyond the range. -/
def RemoveKeeps (sum own : Int) : Prop :=
  (sum < 2 ^ 63 ∧ 0 ≤ sum - own ∧ sum - own < 2 ^ 63) ∨ (2 ^ 63 ≤ sum ∧ own = 0)

theorem saturatingAdd_saturate {sum : Int} {own : I64} :
    (I64.saturate sum).saturatingAdd own = I64.saturate (sum + own.val) <-> AddKeeps sum own.val := by
  have lower := own.lower
  have upper := own.upper
  have same : (I64.saturate sum).saturatingAdd own = I64.saturate (sum + own.val) <->
      ((I64.saturate sum).saturatingAdd own).val = (I64.saturate (sum + own.val)).val := ⟨congrArg I64.val, I64.ext⟩
  rw [same]
  unfold I64.saturatingAdd I64.saturate AddKeeps
  dsimp only
  omega

theorem wrappingSub_saturate {sum : Int} {own : I64} :
    max ((I64.saturate sum).wrappingSub own) 0 = I64.saturate (sum - own.val) <-> RemoveKeeps sum own.val := by
  have lower := own.lower
  have upper := own.upper
  have same : max ((I64.saturate sum).wrappingSub own) 0 = I64.saturate (sum - own.val) <->
      (max ((I64.saturate sum).wrappingSub own) 0).val = (I64.saturate (sum - own.val)).val :=
    ⟨congrArg I64.val, I64.ext⟩
  rw [same, I64.val_max]
  unfold I64.wrappingSub I64.saturate I64.wrap RemoveKeeps
  rw [I64.val_zero]
  dsimp only
  omega

/-! ## One vector -/

theorem Resources.get_of_not_lists {r : Resources} {name : String} (missing : r.lists name = false) : r.get name = 0 := by
  unfold Resources.lists at missing
  rw [Bool.or_eq_false_iff, Bool.or_eq_false_iff, Bool.or_eq_false_iff] at missing
  rcases missing with ⟨⟨⟨cpu, memory⟩, storage⟩, missing⟩
  unfold Resources.get
  rw [if_neg (of_decide_eq_false cpu), if_neg (of_decide_eq_false memory), if_neg (of_decide_eq_false storage)]
  split_ifs at missing ⊢
  · rw [Option.isSome_eq_false_iff, Option.isNone_iff_eq_none] at missing
    rw [missing]
    rfl
  · rw [Option.isSome_eq_false_iff, Option.isNone_iff_eq_none] at missing
    rw [missing]
    rfl

/-- The vector holds the sums of what the pods ask, as near as it can. -/
def Totals (weigh : PodInfo -> Resources) (held : Resources) (pods : List PodInfo) : Prop :=
  forall resource, held.get resource = I64.saturate (sumOf weigh resource pods)

section
variable {weigh : PodInfo -> Resources} {held : Resources} {pods rest : List PodInfo} {pod : PodInfo}

theorem totals_add (totals : Totals weigh held pods) : Totals weigh (held.add (weigh pod)) (pods ++ [pod]) <->
    forall resource, AddKeeps (sumOf weigh resource pods) ((weigh pod).get resource).val := by
  refine forall_congr' fun resource => ?_
  rw [Resources.get_add, totals resource, sumOf_concat]
  exact saturatingAdd_saturate

theorem totals_sub (totals : Totals weigh held pods) (parts : pods.Perm (pod :: rest)) :
    Totals weigh (held.sub (weigh pod)) rest <-> forall resource, (weigh pod).lists resource ->
      RemoveKeeps (sumOf weigh resource pods) ((weigh pod).get resource).val := by
  refine forall_congr' fun resource => ?_
  have remains : sumOf weigh resource rest = sumOf weigh resource pods - ((weigh pod).get resource).val := by
    rw [sumOf_perm parts, sumOf_cons]
    omega
  rw [Resources.get_sub, totals resource, remains]
  cases listed : (weigh pod).lists resource with
  | false =>
    rw [Resources.get_of_not_lists listed, I64.val_zero, Int.sub_zero]
    exact iff_of_true rfl Bool.noConfusion
  | true =>
    rw [if_pos rfl, wrappingSub_saturate]
    exact ⟨fun keeps _ => keeps, fun keeps => keeps rfl⟩

end

/-! ## The node -/

namespace NodeInfo

variable {info : NodeInfo} {pod : PodInfo} {uid : String} {generation : Nat}

/-- What is listed for the pods of the node is right. -/
structure Listed (info : NodeInfo) : Prop where
  distinct : info.Distinct
  ports : info.usedPorts.Perm (info.pods.flatMap PodInfo.hostPorts)
  affinity : info.podsWithAffinity = info.pods.filter PodInfo.hasAffinity
  antiAffinity : info.podsWithRequiredAntiAffinity = info.pods.filter PodInfo.hasRequiredAntiAffinity

/-- Everything kept about the pods is what their list says. -/
structure Exact (info : NodeInfo) : Prop extends Listed info where
  requested : Totals PodInfo.requests info.requested info.pods
  nonZeroRequested : Totals PodInfo.nonZeroRequests info.nonZeroRequested info.pods

def AdditionAllowed (pods : List PodInfo) (pod : PodInfo) : Prop :=
  forall resource, AddKeeps (sumOf PodInfo.requests resource pods) (pod.requests.get resource).val ∧
    AddKeeps (sumOf PodInfo.nonZeroRequests resource pods) (pod.nonZeroRequests.get resource).val

def RemovalAllowed (pods : List PodInfo) (pod : PodInfo) : Prop :=
  forall resource, pod.requests.lists resource ->
    RemoveKeeps (sumOf PodInfo.requests resource pods) (pod.requests.get resource).val ∧
      RemoveKeeps (sumOf PodInfo.nonZeroRequests resource pods) (pod.nonZeroRequests.get resource).val

/-- What `addPod` does once no pod has the uid. -/
def commit (info : NodeInfo) (pod : PodInfo) (generation : Nat) : NodeInfo :=
  { info with
    requested := info.requested.add pod.requests
    nonZeroRequested := info.nonZeroRequested.add pod.nonZeroRequests
    usedPorts := info.usedPorts ++ pod.hostPorts
    podsWithAffinity := if pod.hasAffinity then info.podsWithAffinity ++ [pod] else info.podsWithAffinity
    podsWithRequiredAntiAffinity :=
      if pod.hasRequiredAntiAffinity then info.podsWithRequiredAntiAffinity ++ [pod]
      else info.podsWithRequiredAntiAffinity
    pods := info.pods ++ [pod]
    generation := generation }

theorem addPod_eq : info.addPod pod generation =
    (if info.pods.any fun held => held.uid = pod.uid then info.removePod pod.uid generation else info).commit
      pod generation := rfl

theorem Exact.default : NodeInfo.default.Exact where
  distinct := List.nodup_nil
  ports := List.Perm.refl _
  affinity := rfl
  antiAffinity := rfl
  requested _ := Resources.get_zero
  nonZeroRequested _ := Resources.get_zero

theorem filter_concat (keep : PodInfo -> Bool) {pods subset : List PodInfo} (same : subset = pods.filter keep) :
    (if keep pod then subset ++ [pod] else subset) = (pods ++ [pod]).filter keep := by
  rw [same, List.filter_append]
  split_ifs with kept
  · rw [List.filter_cons_of_pos kept]
    rfl
  · rw [List.filter_cons_of_neg kept, List.filter_nil, List.append_nil]

theorem Listed.commit (listed : info.Listed) (fresh : forall held, held ∈ info.pods -> held.uid ≠ pod.uid) :
    (info.commit pod generation).Listed := by
  refine ⟨?_, ?_, filter_concat _ listed.affinity, filter_concat _ listed.antiAffinity⟩
  · change ((info.pods ++ [pod]).map PodInfo.uid).Nodup
    rw [List.map_append, List.nodup_append]
    refine ⟨listed.distinct, List.nodup_singleton _, ?_⟩
    intro uid member other single
    rcases List.mem_map.mp member with ⟨held, present, rfl⟩
    rw [List.mem_singleton.mp single]
    exact fresh held present
  · change (info.usedPorts ++ pod.hostPorts).Perm ((info.pods ++ [pod]).flatMap PodInfo.hostPorts)
    rw [List.flatMap_append, List.flatMap_singleton]
    exact listed.ports.append_right _

theorem Exact.commit_iff (exact_ : info.Exact) (fresh : forall held, held ∈ info.pods -> held.uid ≠ pod.uid) :
    (info.commit pod generation).Exact <-> AdditionAllowed info.pods pod := by
  have requested := @totals_add _ _ _ pod exact_.requested
  have nonZero := @totals_add _ _ _ pod exact_.nonZeroRequested
  constructor
  · intro after
    exact fun resource => ⟨requested.mp after.requested resource, nonZero.mp after.nonZeroRequested resource⟩
  · intro allowed
    exact ⟨exact_.toListed.commit fresh, requested.mpr fun resource => (allowed resource).1,
      nonZero.mpr fun resource => (allowed resource).2⟩

theorem removePod_of_missing (missing : (info.pods.find? fun held => held.uid = uid) = none) :
    info.removePod uid generation = info := by
  unfold NodeInfo.removePod
  rw [missing]

theorem Listed.removePod (listed : info.Listed) : (info.removePod uid generation).Listed := by
  cases found : info.pods.find? fun held => held.uid = uid with
  | none =>
    rw [removePod_of_missing found]
    exact listed
  | some pod =>
    rw [removePod_of_found found]
    have rest := @eraseP_eq_filter uid info.pods listed.distinct
    refine ⟨(List.eraseP_sublist.map _).nodup listed.distinct,
      foldl_erase_perm (listed.ports.trans ((perm_of_found listed.distinct found).flatMap_right _)), ?_, ?_⟩
    · rw [rest, listed.affinity, List.filter_comm]
    · rw [rest, listed.antiAffinity, List.filter_comm]

theorem Exact.removePod_iff (exact_ : info.Exact) (found : (info.pods.find? fun held => held.uid = uid) = some pod) :
    (info.removePod uid generation).Exact <-> RemovalAllowed info.pods pod := by
  have parts := perm_of_found exact_.distinct found
  have requested := totals_sub exact_.requested parts
  have nonZero := totals_sub exact_.nonZeroRequested parts
  have after := @Listed.removePod info uid generation exact_.toListed
  rw [removePod_of_found found] at *
  constructor
  · intro known
    exact fun resource named => ⟨requested.mp known.requested resource named,
      nonZero.mp known.nonZeroRequested resource named⟩
  · intro allowed
    exact ⟨after, requested.mpr fun resource named => (allowed resource named).1,
      nonZero.mpr fun resource named => (allowed resource named).2⟩

/-! ## Runs -/

inductive PodOperation where
  | add (pod : PodInfo) (generation : Nat)
  | remove (uid : String) (generation : Nat)

def PodOperation.apply (info : NodeInfo) : PodOperation -> NodeInfo
  | .add pod generation => info.addPod pod generation
  | .remove uid generation => info.removePod uid generation

/-- The condition on the pods that are on the node and the one the step is
about. -/
def StepAllowed (info : NodeInfo) : PodOperation -> Prop
  | .add pod _ =>
    (forall held, held ∈ info.pods -> held.uid = pod.uid -> RemovalAllowed info.pods held) ∧
      AdditionAllowed (info.pods.filter fun held => held.uid ≠ pod.uid) pod
  | .remove uid _ => forall held, held ∈ info.pods -> held.uid = uid -> RemovalAllowed info.pods held

def StepsAllowed (info : NodeInfo) : List PodOperation -> Prop
  | [] => True
  | step :: rest => StepAllowed info step ∧ StepsAllowed (step.apply info) rest

theorem Exact.removePod (exact_ : info.Exact)
    (allowed : forall held, held ∈ info.pods -> held.uid = uid -> RemovalAllowed info.pods held) :
    (info.removePod uid generation).Exact := by
  cases found : info.pods.find? fun held => held.uid = uid with
  | none =>
    rw [removePod_of_missing found]
    exact exact_
  | some held =>
    refine (exact_.removePod_iff found).mpr (allowed held (List.mem_of_find?_eq_some found) ?_)
    simpa using List.find?_some found

theorem addPod_of_fresh (fresh : forall held, held ∈ info.pods -> held.uid ≠ pod.uid) :
    info.addPod pod generation = info.commit pod generation := by
  have absent : (info.pods.any fun held => held.uid = pod.uid) = false :=
    List.any_eq_false.mpr fun held listed => by simpa using fresh held listed
  rw [addPod_eq, absent]
  rfl

theorem Exact.step (exact_ : info.Exact) {step : PodOperation} (allowed : StepAllowed info step) :
    (step.apply info).Exact := by
  cases step with
  | remove uid generation => exact exact_.removePod allowed
  | add pod generation =>
    rcases allowed with ⟨removal, addition⟩
    change (info.addPod pod generation).Exact
    by_cases present : (info.pods.any fun held => held.uid = pod.uid) = true
    · have cleared := @Exact.removePod info pod.uid generation exact_ removal
      have rest := @Distinct.removePod_pods info pod.uid generation exact_.distinct
      rw [addPod_eq, if_pos present]
      refine (cleared.commit_iff fun held listed => ?_).mpr (rest.symm ▸ addition)
      rw [rest] at listed
      exact of_decide_eq_true (List.mem_filter.mp listed).2
    · have fresh : forall held, held ∈ info.pods -> held.uid ≠ pod.uid := fun held listed same =>
        present (List.any_eq_true.mpr ⟨held, listed, decide_eq_true same⟩)
      have rest : (info.pods.filter fun held => held.uid ≠ pod.uid) = info.pods :=
        List.filter_eq_self.mpr fun held listed => decide_eq_true (fresh held listed)
      rw [rest] at addition
      rw [addPod_of_fresh fresh]
      exact (exact_.commit_iff fresh).mpr addition

theorem Exact.run (exact_ : info.Exact) {steps : List PodOperation} (allowed : StepsAllowed info steps) (n : Nat) :
    ((steps.take n).foldl PodOperation.apply info).Exact := by
  induction steps generalizing info n with
  | nil =>
    rw [List.take_nil]
    exact exact_
  | cons step rest ih =>
    cases n with
    | zero => exact exact_
    | succ n => exact ih (exact_.step allowed.1) allowed.2 n

/-- Two nodes with the same pods, the same amount of everything, and the same
ports and subsets. -/
structure SameAccounts (first second : NodeInfo) : Prop where
  pods : first.pods = second.pods
  requested : forall resource, first.requested.get resource = second.requested.get resource
  nonZeroRequested : forall resource, first.nonZeroRequested.get resource = second.nonZeroRequested.get resource
  ports : first.usedPorts.Perm second.usedPorts
  affinity : first.podsWithAffinity = second.podsWithAffinity
  antiAffinity : first.podsWithRequiredAntiAffinity = second.podsWithRequiredAntiAffinity

theorem Exact.same {other : NodeInfo} (one : info.Exact) (two : other.Exact) (pods : info.pods = other.pods) :
    SameAccounts info other where
  pods := pods
  requested resource := by rw [one.requested resource, two.requested resource, pods]
  nonZeroRequested resource := by rw [one.nonZeroRequested resource, two.nonZeroRequested resource, pods]
  ports := one.ports.trans (pods ▸ two.ports.symm)
  affinity := by rw [one.affinity, two.affinity, pods]
  antiAffinity := by rw [one.antiAffinity, two.antiAffinity, pods]

theorem undo_pods (distinct : info.Distinct) (fresh : forall held, held ∈ info.pods -> held.uid ≠ pod.uid) {later : Nat} :
    ((info.addPod pod generation).removePod pod.uid later).pods = info.pods := by
  have after : (info.addPod pod generation).Distinct := distinct.addPod
  have rest : (info.pods.filter fun held => held.uid ≠ pod.uid) = info.pods :=
    List.filter_eq_self.mpr fun held listed => decide_eq_true (fresh held listed)
  rw [after.removePod_pods, addPod_of_fresh fresh]
  change (info.pods ++ [pod]).filter _ = _
  rw [List.filter_append, rest, List.filter_cons_of_neg (by simp), List.filter_nil, List.append_nil]

/-- In a run whose steps are allowed the accounts are right in every state.
From right accounts a step leads to right ones exactly when it is allowed,
and an allowed removal undoes the addition. -/
theorem accounts_exact (steps : List PodOperation) (info : NodeInfo) (pod : PodInfo) (generation later : Nat) :
    (StepsAllowed .default steps -> forall n, ((steps.take n).foldl PodOperation.apply .default).Exact) ∧
    (info.Exact ->
      (pod ∈ info.pods -> ((info.removePod pod.uid generation).Exact <-> RemovalAllowed info.pods pod)) ∧
      ((forall held, held ∈ info.pods -> held.uid ≠ pod.uid) ->
        ((info.addPod pod generation).Exact <-> AdditionAllowed info.pods pod) ∧
        (AdditionAllowed info.pods pod -> RemovalAllowed (info.pods ++ [pod]) pod ->
          SameAccounts ((info.addPod pod generation).removePod pod.uid later) info))) := by
  refine ⟨Exact.default.run, fun exact_ => ⟨?_, ?_⟩⟩
  · intro listed
    cases found : info.pods.find? fun held => held.uid = pod.uid with
    | none => exact absurd (decide_eq_true rfl) (List.find?_eq_none.mp found pod listed)
    | some held =>
      have same : held.uid = pod.uid := by simpa using List.find?_some found
      have one := List.inj_on_of_nodup_map exact_.distinct (List.mem_of_find?_eq_some found) listed same
      rw [one] at found
      exact exact_.removePod_iff found
  · intro fresh
    have added : (info.addPod pod generation).Exact <-> AdditionAllowed info.pods pod := by
      rw [addPod_of_fresh fresh]
      exact exact_.commit_iff fresh
    refine ⟨added, fun addition removal => ?_⟩
    have full := added.mpr addition
    have pods : (info.addPod pod generation).pods = info.pods ++ [pod] := by
      rw [addPod_of_fresh fresh]
      rfl
    refine Exact.same (full.removePod ?_) exact_ (undo_pods exact_.distinct fresh)
    intro held listed same
    have one : held = pod :=
      List.inj_on_of_nodup_map full.distinct listed (by rw [pods]; exact List.mem_append_right _ (.head _)) same
    rw [one, pods]
    exact removal

/-- After a pod that asks for more than there can be is gone, what the other
asks is forgotten. -/
theorem removed_giant_takes_all : ¬ forall (steps : List PodOperation) (n : Nat),
    ((steps.take n).foldl PodOperation.apply NodeInfo.default).Exact := by
  intro always
  let asking (name : String) (milliCpu : Int) : PodInfo :=
    { podNamespace := "default", name := name, uid := name, nodeName := some "worker",
      schedulerName := "default-scheduler", priority := 0, affinity := none, schedulingGates := [], hostPorts := [],
      requests := { Resources.zero with milliCpu := .saturate milliCpu }, nominatedNodeName := none,
      deleting := false, queuedAt := 0, attempts := 0 }
  have total := (always [.add (asking "giant" (10 ^ 21)) 1, .add (asking "web" 500) 2, .remove "giant" 3] 3).requested "cpu"
  exact absurd total (by decide +kernel)

end NodeInfo

end NotK8s.Scheduler

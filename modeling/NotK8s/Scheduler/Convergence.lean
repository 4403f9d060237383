import NotK8s.Library.Run
import NotK8s.Scheduler.Custody

namespace NotK8s.Scheduler
namespace Watching

open Library

/-!
# Lists converge

Each handler changes the view of its own watch as a sweep asks, and no other
view.  So after every list the cache holds what was listed, for every watch,
unless keys collide or pods and nodes come in the wrong order.
-/

variable {P : Payloads} {Budget : Type} {s : WatchState P Budget}

/-! ## The handlers of objects -/

section Objects
variable {cache : Cache P} {sweep : RelistSweep} {kind : ObjectKind} {keyOf' : Listed (P.object kind) -> String}
  {event : WatchEvent (Listed (P.object kind))}

theorem handleObjectEvent_eq : handleObjectEvent kind event sweep cache = handleCachedEvent kind (keyOf kind) event sweep cache := by
  cases kind <;> rfl

theorem removeObject_get {key other : String} :
    ((cache.removeObject kind key).objects kind).get other = if other = key then none else (cache.objects kind).get other := by
  change ((Function.update cache.objects kind _) kind).get other = _
  rw [Function.update_self]
  exact SortedMap.get_erase

theorem handleCachedEvent_spec :
    (handleCachedEvent kind (keyOf kind) event sweep cache).1 = (watch P Budget (.object kind)).sweeping sweep event ∧
    ((handleCachedEvent kind (keyOf kind) event sweep cache).2.objects kind).get =
      (watch P Budget (.object kind)).showing sweep (cache.objects kind).get event := by
  have inserted : forall object : Listed (P.object kind),
      ((cache.upsertObject kind (keyOf kind object) object.payload).2.objects kind).get =
        Function.update (cache.objects kind).get (keyOf kind object) (some object.payload) := by
    intro object
    funext key
    change ((Function.update cache.objects kind _) kind).get key = _
    rw [Function.update_self, SortedMap.get_insert, Function.update_apply]
  cases event with
  | init => exact ⟨rfl, rfl⟩
  | initDone =>
    refine ⟨rfl, funext fun key => ?_⟩
    exact look_drops (fun (cache : Cache P) => (cache.objects kind).get) fun _ _ _ => removeObject_get
  | initApply object | apply object => exact ⟨rfl, inserted object⟩
  | delete object =>
    refine ⟨rfl, funext fun key => ?_⟩
    exact removeObject_get.trans (Function.update_apply ..).symm

/-- All but the objects of one kind. -/
def besideObjects (kind : ObjectKind) (cache : Cache P) :=
  (cache.nodes, cache.podLocations, cache.workloadSelectors, cache.storageCapacities,
    fun other : { other // other ≠ kind } => cache.objects other)

theorem handleCachedEvent_beside :
    besideObjects kind (handleCachedEvent kind keyOf' event sweep cache).2 = besideObjects kind cache := by
  have updated : forall (cache : Cache P) objects,
      besideObjects kind { cache with objects := Function.update cache.objects kind objects }.bumped = besideObjects kind cache := by
    intro cache objects
    have others : (fun other : { other // other ≠ kind } => Function.update cache.objects kind objects other.1) =
        fun other : { other // other ≠ kind } => cache.objects other.1 :=
      funext fun other => Function.update_of_ne other.2 _ _
    exact congrArg (fun objects => (cache.nodes, cache.podLocations, cache.workloadSelectors, cache.storageCapacities, objects)) others
  cases event with
  | init => rfl
  | initDone => exact same_foldl fun _ _ => updated _ _
  | initApply object | apply object | delete object => exact updated _ _

end Objects

/-! ## The handlers of workloads -/

/-- The key begins with the tag of the kind. -/
def Owns (kind : WorkloadKind) (key : String) : Prop :=
  (kind.tag.toList ++ ['/']).isPrefixOf key.toList = true

instance (kind : WorkloadKind) (key : String) : Decidable (Owns kind key) :=
  inferInstanceAs (Decidable ((kind.tag.toList ++ ['/']).isPrefixOf key.toList = true))

theorem owns_workloadKey {Payload : Type} (kind : WorkloadKind) (object : Listed Payload) : Owns kind (object.workloadKey kind) := by
  unfold Owns Listed.workloadKey
  rw [String.toList_append, String.toList_append, List.isPrefixOf_iff_prefix]
  exact List.prefix_append _ _

theorem Owns.unique {kind other : WorkloadKind} {key : String} (owns : Owns kind key) (also : Owns other key) : kind = other := by
  unfold Owns at owns also
  rw [List.isPrefixOf_iff_prefix] at owns also
  rcases owns with ⟨rest, whole⟩
  rcases also with ⟨rest', whole'⟩
  rw [← whole'] at whole
  cases kind <;> cases other <;> first | rfl | simp [WorkloadKind.tag] at whole

section Workloads
variable {cache : Cache P} {sweep : RelistSweep} {kind : WorkloadKind} {event : WatchEvent (Listed (Option P.workload))}

/-- The selectors under the keys of one kind. -/
def selectors (kind : WorkloadKind) (cache : Cache P) (key : String) : Option P.workload :=
  if Owns kind key then cache.workloadSelectors.get key else none

theorem workloadsApplied (object : Listed (Option P.workload)) (other : String) :
    (match object.payload with
      | some selector => cache.upsertWorkload (object.workloadKey kind) selector
      | none => cache.removeWorkload (object.workloadKey kind)).workloadSelectors.get other =
      if other = object.workloadKey kind then object.payload else cache.workloadSelectors.get other := by
  cases object.payload with
  | some selector => exact SortedMap.get_insert
  | none => exact SortedMap.get_erase

theorem handleWorkloadEvent_spec :
    (handleWorkloadEvent kind event sweep cache).1 = (watch P Budget (.workload kind)).sweeping sweep event ∧
    selectors kind (handleWorkloadEvent kind event sweep cache).2 =
      (watch P Budget (.workload kind)).showing sweep (selectors kind cache) event := by
  have applied : forall object : Listed (Option P.workload), selectors kind (match object.payload with
      | some selector => cache.upsertWorkload (object.workloadKey kind) selector
      | none => cache.removeWorkload (object.workloadKey kind)) =
      Function.update (selectors kind cache) (object.workloadKey kind) object.payload := by
    intro object
    funext key
    unfold selectors
    rw [workloadsApplied, Function.update_apply]
    by_cases here : key = object.workloadKey kind
    · rw [if_pos here, if_pos here, if_pos (here ▸ owns_workloadKey kind object)]
    · rw [if_neg here, if_neg here]
  cases event with
  | init => exact ⟨rfl, rfl⟩
  | initDone =>
    refine ⟨rfl, funext fun key => ?_⟩
    have left : (sweep.gone.foldl Cache.removeWorkload cache).workloadSelectors.get key =
        if key ∈ sweep.gone then none else cache.workloadSelectors.get key :=
      look_drops (fun (cache : Cache P) => cache.workloadSelectors.get) fun _ _ _ => SortedMap.get_erase
    change (if Owns kind key then (sweep.gone.foldl Cache.removeWorkload cache).workloadSelectors.get key else none) =
      if key ∈ sweep.gone then none else selectors kind cache key
    unfold selectors
    rw [left]
    split_ifs <;> rfl
  | initApply object | apply object => exact ⟨rfl, applied object⟩
  | delete object =>
    refine ⟨rfl, funext fun key => ?_⟩
    change (if Owns kind key then (cache.workloadSelectors.erase (object.workloadKey kind)).get key else none) =
      Function.update (selectors kind cache) (object.workloadKey kind) none key
    rw [SortedMap.get_erase, Function.update_apply]
    unfold selectors
    split_ifs <;> rfl

theorem handleWorkloadEvent_others {other : WorkloadKind} (others : other ≠ kind)
    (own : forall key, sweep.Knows key -> Owns kind key) :
    selectors other (handleWorkloadEvent kind event sweep cache).2 = selectors other cache := by
  funext key
  unfold selectors
  split_ifs with owned
  swap
  · rfl
  have apart : forall key', Owns kind key' -> key ≠ key' := by
    rintro key' owns rfl
    exact others (owned.unique owns)
  cases event with
  | init => rfl
  | initDone =>
    refine (look_drops (fun (cache : Cache P) => cache.workloadSelectors.get) fun _ _ _ => SortedMap.get_erase).trans ?_
    rw [if_neg]
    exact fun swept => apart key (own key (RelistSweep.mem_gone.mp swept).1) rfl
  | initApply object => exact (workloadsApplied object key).trans (if_neg (apart _ (owns_workloadKey kind object)))
  | apply object => exact (workloadsApplied object key).trans (if_neg (apart _ (owns_workloadKey kind object)))
  | delete object => exact SortedMap.get_erase.trans (if_neg (apart _ (owns_workloadKey kind object)))

/-- All but the selectors. -/
def besideWorkloads (cache : Cache P) :=
  (cache.nodes, cache.podLocations, cache.objects, cache.storageCapacities)

theorem handleWorkloadEvent_beside :
    besideWorkloads (handleWorkloadEvent kind event sweep cache).2 = besideWorkloads cache := by
  have applied : forall object : Listed (Option P.workload), besideWorkloads (match object.payload with
      | some selector => cache.upsertWorkload (object.workloadKey kind) selector
      | none => cache.removeWorkload (object.workloadKey kind)) = besideWorkloads cache := by
    intro object
    cases object.payload <;> rfl
  cases event with
  | init => rfl
  | initDone => exact @same_foldl _ _ besideWorkloads Cache.removeWorkload (fun _ _ => rfl) sweep.gone cache
  | initApply object | apply object => exact applied object
  | delete object => rfl

end Workloads

/-! ## The handlers with mirrors -/

section Mirrors
variable {sweep : RelistSweep}

private theorem foldl_erase {Value : Type} {mirror : SortedMap String Value} :
    (sweep.gone.foldl SortedMap.erase mirror).get = fun key => if key ∈ sweep.gone then none else mirror.get key :=
  funext fun _ => look_drops (fun mirror : SortedMap String Value => mirror.get) fun _ _ _ => SortedMap.get_erase

private theorem insert_update {Value : Type} {mirror : SortedMap String Value} {key : String} {value : Value} :
    (mirror.insert key value).get = Function.update mirror.get key (some value) :=
  funext fun _ => SortedMap.get_insert.trans (Function.update_apply ..).symm

private theorem erase_update {Value : Type} {mirror : SortedMap String Value} {key : String} :
    (mirror.erase key).get = Function.update mirror.get key none :=
  funext fun _ => SortedMap.get_erase.trans (Function.update_apply ..).symm

theorem handleCsiStorageCapacityEvent_spec {mirror : CapacityMirror P} {cache : Cache P}
    {event : WatchEvent (Listed P.storageCapacity)} :
    (handleCsiStorageCapacityEvent event mirror sweep cache).2.1 = (watch P Budget .storageCapacity).sweeping sweep event ∧
    (handleCsiStorageCapacityEvent event mirror sweep cache).1.get =
      (watch P Budget .storageCapacity).showing sweep mirror.get event := by
  cases event with
  | init => exact ⟨rfl, rfl⟩
  | initDone => exact ⟨rfl, foldl_erase⟩
  | initApply capacity | apply capacity => exact ⟨rfl, insert_update⟩
  | delete capacity => exact ⟨rfl, erase_update⟩

/-- All but the capacities. -/
def besideCapacities (cache : Cache P) :=
  (cache.nodes, cache.podLocations, cache.objects, cache.workloadSelectors)

theorem handleCsiStorageCapacityEvent_beside {mirror : CapacityMirror P} {cache : Cache P}
    {event : WatchEvent (Listed P.storageCapacity)} :
    besideCapacities (handleCsiStorageCapacityEvent event mirror sweep cache).2.2 = besideCapacities cache := by
  have applied : forall capacities, besideCapacities (if !sweep.relisting then cache.setStorageCapacities capacities else cache) =
      besideCapacities cache := by
    intro capacities
    split_ifs <;> rfl
  cases event with
  | initApply capacity | apply capacity => exact applied _
  | _ => rfl

theorem handlePdbEvent_spec {mirror : BudgetMirror Budget} {event : WatchEvent (Listed Budget)} :
    (handlePdbEvent event mirror sweep).2.1 = (watch P Budget .budget).sweeping sweep event ∧
    (handlePdbEvent event mirror sweep).1.get = (watch P Budget .budget).showing sweep mirror.get event := by
  cases event with
  | init => exact ⟨rfl, rfl⟩
  | initDone => exact ⟨rfl, foldl_erase⟩
  | initApply budget | apply budget => exact ⟨rfl, insert_update⟩
  | delete budget => exact ⟨rfl, erase_update⟩

theorem handleNodeEvent_spec {preserve : Bool} {mirror : NodeMirror} {cache : Cache P} {event : WatchEvent NamedNode} :
    (handleNodeEvent preserve event mirror sweep cache).1 = (watch P Budget .node).sweeping sweep event ∧
    (handleNodeEvent preserve event mirror sweep cache).2.1.get = (watch P Budget .node).showing sweep mirror.get event := by
  cases event with
  | init => exact ⟨rfl, rfl⟩
  | initDone =>
    refine ⟨rfl, funext fun _ => ?_⟩
    exact look_drops (fun held : NodeMirror × Cache P => held.1.get) fun _ _ _ => SortedMap.get_erase
  | initApply node | apply node => exact ⟨rfl, insert_update⟩
  | delete node => exact ⟨rfl, erase_update⟩

/-- A deletion that is not about the mirrored pod changes nothing. -/
def Ignored (mirror : PodMirror) : WatchEvent PodInfo -> Prop
  | .delete pod => staleDelete (mirror.get (podKey pod)) pod = true
  | _ => False

theorem handlePodEvent_spec {mirror : PodMirror} {cache : Cache P} {event : WatchEvent PodInfo}
    (counts : ¬ Ignored mirror event) :
    (handlePodEvent event mirror sweep cache).1 = (watch P Budget .pod).sweeping sweep event ∧
    (handlePodEvent event mirror sweep cache).2.1.get = (watch P Budget .pod).showing sweep mirror.get event := by
  cases event with
  | init => exact ⟨rfl, rfl⟩
  | initDone =>
    refine ⟨rfl, funext fun _ => ?_⟩
    exact look_drops (fun held : PodMirror × Cache P => held.1.get) fun _ _ _ => SortedMap.get_erase
  | initApply pod | apply pod => exact ⟨rfl, insert_update⟩
  | delete pod =>
    have kept : handlePodEvent (.delete pod) mirror sweep cache =
        (sweep.forget (podKey pod), mirror.erase (podKey pod), removePod cache pod) := if_neg counts
    rw [kept]
    exact ⟨rfl, erase_update⟩

theorem handlePodEvent_ignored {mirror : PodMirror} {cache : Cache P} {event : WatchEvent PodInfo}
    (ignored : Ignored mirror event) :
    (handlePodEvent event mirror sweep cache).1 = sweep ∧ (handlePodEvent event mirror sweep cache).2.1 = mirror := by
  cases event with
  | delete pod =>
    have kept : handlePodEvent (.delete pod) mirror sweep cache = (sweep, mirror, removePod cache pod) := if_pos ignored
    rw [kept]
    exact ⟨rfl, rfl⟩
  | _ => exact absurd ignored id

theorem handleNodeEvent_records {preserve : Bool} {mirror : NodeMirror} {cache : Cache P} {event : WatchEvent NamedNode} :
    (handleNodeEvent preserve event mirror sweep cache).2.2.records = cache.records := by
  cases event with
  | init => rfl
  | initDone =>
    exact @same_foldl (NodeMirror × Cache P) _ (fun held => held.2.records) removeNode
      (fun _ _ => Cache.records_removeNode) sweep.gone (mirror, cache)
  | initApply node | apply node => exact Cache.records_upsertNode
  | delete node => exact Cache.records_removeNode

theorem removePod_records {cache : Cache P} {pod : PodInfo} : (removePod cache pod).records = cache.records := by
  unfold removePod
  split_ifs
  · exact Cache.records_removePod
  · rfl

theorem handlePodEvent_records {mirror : PodMirror} {cache : Cache P} {event : WatchEvent PodInfo} :
    (handlePodEvent event mirror sweep cache).2.2.records = cache.records := by
  have applied : forall previous pod, (applyPod cache previous pod).records = cache.records := by
    intro previous pod
    have cleared : ((previous.filter fun old => old.uid != pod.uid).elim cache (removePod cache)).records = cache.records := by
      cases previous.filter fun old => old.uid != pod.uid with
      | none => rfl
      | some old => exact removePod_records
    unfold applyPod
    split_ifs
    · exact Cache.records_addPod.trans cleared
    · exact cleared
  cases event with
  | init => rfl
  | initDone =>
    refine @same_foldl (PodMirror × Cache P) _ (fun held => held.2.records) dropPod (fun held key => ?_) sweep.gone (mirror, cache)
    change ((held.1.get key).elim held.2 (removePod held.2)).records = held.2.records
    cases held.1.get key with
    | none => rfl
    | some pod => exact removePod_records
  | initApply pod | apply pod => exact applied _ pod
  | delete pod =>
    unfold handlePodEvent
    dsimp only
    split_ifs
    · exact removePod_records
    · exact removePod_records

end Mirrors

/-! ## One notification -/

variable {kind other : WatchKind}

/-- A deletion of a pod that is not the one mirrored. -/
def WatchState.Ignores (s : WatchState P Budget) : (kind : WatchKind) -> WatchEvent (Watched P Budget kind) -> Prop
  | .pod, event => Ignored s.pods event
  | _, _ => False

/-- The sweep that the handler leaves. -/
def WatchState.swept (s : WatchState P Budget) : (kind : WatchKind) -> WatchEvent (Watched P Budget kind) -> RelistSweep
  | .object kind, event => (handleObjectEvent kind event (s.sweeps (.object kind)) s.cache).1
  | .workload kind, event => (handleWorkloadEvent kind event (s.sweeps (.workload kind)) s.cache).1
  | .storageCapacity, event => (handleCsiStorageCapacityEvent event s.capacities (s.sweeps .storageCapacity) s.cache).2.1
  | .budget, event => (handlePdbEvent event s.pdbs (s.sweeps .budget)).2.1
  | .node, event => (handleNodeEvent s.preserveExtenderObjects event s.nodes (s.sweeps .node) s.cache).1
  | .pod, event => (handlePodEvent event s.pods (s.sweeps .pod) s.cache).1

theorem handle_sweeps {event : WatchEvent (Watched P Budget kind)} :
    (s.handle kind event).sweeps = Function.update s.sweeps kind (s.swept kind event) := by
  cases kind <;> rfl

theorem handle_own {event : WatchEvent (Watched P Budget kind)} (counts : ¬ s.Ignores kind event) :
    (s.handle kind event).sweeps kind = (watch P Budget kind).sweeping (s.sweeps kind) event ∧
    (s.handle kind event).view kind = (watch P Budget kind).showing (s.sweeps kind) (s.view kind) event := by
  rw [handle_sweeps, Function.update_self]
  cases kind with
  | object kind =>
    have spec := @handleCachedEvent_spec P Budget s.cache (s.sweeps (.object kind)) kind event
    have same := @handleObjectEvent_eq P s.cache (s.sweeps (.object kind)) kind event
    exact ⟨(congrArg Prod.fst same).trans spec.1, (congrArg (fun after => (after.2.objects kind).get) same).trans spec.2⟩
  | workload kind => exact @handleWorkloadEvent_spec P Budget s.cache (s.sweeps (.workload kind)) kind event
  | storageCapacity => exact @handleCsiStorageCapacityEvent_spec P Budget (s.sweeps .storageCapacity) s.capacities s.cache event
  | budget => exact @handlePdbEvent_spec P Budget (s.sweeps .budget) s.pdbs event
  | node => exact @handleNodeEvent_spec P Budget (s.sweeps .node) s.preserveExtenderObjects s.nodes s.cache event
  | pod => exact @handlePodEvent_spec P Budget (s.sweeps .pod) s.pods s.cache event counts

theorem handle_ignored {event : WatchEvent (Watched P Budget kind)} (ignored : s.Ignores kind event) :
    (s.handle kind event).sweeps kind = s.sweeps kind ∧ (s.handle kind event).view kind = s.view kind := by
  rw [handle_sweeps, Function.update_self]
  cases kind with
  | pod =>
    have spec := @handlePodEvent_ignored P (s.sweeps .pod) s.pods s.cache event ignored
    exact ⟨spec.1, congrArg SortedMap.get spec.2⟩
  | _ => exact absurd ignored id

theorem handle_sweeps_others {event : WatchEvent (Watched P Budget kind)} (others : other ≠ kind) :
    (s.handle kind event).sweeps other = s.sweeps other := by
  rw [handle_sweeps, Function.update_of_ne others]

theorem handle_view_others {event : WatchEvent (Watched P Budget kind)} (others : other ≠ kind)
    (own : forall workload, kind = .workload workload -> forall key, (s.sweeps kind).Knows key -> Owns workload key) :
    (s.handle kind event).view other = s.view other := by
  cases kind with
  | object kind =>
    have equal := @handleObjectEvent_eq P s.cache (s.sweeps (.object kind)) kind event
    have same := (congrArg (fun after => besideObjects kind after.2) equal).trans
      (@handleCachedEvent_beside P s.cache (s.sweeps (.object kind)) kind (keyOf kind) event)
    cases other with
    | object other =>
      have apart : other ≠ kind := fun equal => others (congrArg WatchKind.object equal)
      have objects := congrFun (congrArg (fun beside => beside.2.2.2.2) same) ⟨other, apart⟩
      exact congrArg SortedMap.get objects
    | workload other =>
      have workloads : (handleObjectEvent kind event (s.sweeps (.object kind)) s.cache).2.workloadSelectors =
          s.cache.workloadSelectors := congrArg (fun beside => beside.2.2.1) same
      funext key
      exact congrArg (fun held : SortedMap String P.workload => if Owns other key then held.get key else none) workloads
    | _ => rfl
  | workload kind =>
    have same := @handleWorkloadEvent_beside P s.cache (s.sweeps (.workload kind)) kind event
    cases other with
    | object other =>
      have objects := congrFun (congrArg (fun beside => beside.2.2.1) same) other
      exact congrArg SortedMap.get objects
    | workload other =>
      have apart : other ≠ kind := fun equal => others (congrArg WatchKind.workload equal)
      exact handleWorkloadEvent_others apart (own kind rfl)
    | _ => rfl
  | storageCapacity =>
    have same := @handleCsiStorageCapacityEvent_beside P (s.sweeps .storageCapacity) s.capacities s.cache event
    cases other with
    | object other => exact congrArg SortedMap.get (congrFun (congrArg (fun beside => beside.2.2.1) same) other)
    | workload other =>
      have workloads := congrArg (fun beside => beside.2.2.2) same
      funext key
      exact congrArg (fun held : SortedMap String P.workload => if Owns other key then held.get key else none) workloads
    | storageCapacity => exact absurd rfl others
    | _ => rfl
  | budget =>
    cases other with
    | budget => exact absurd rfl others
    | _ => rfl
  | node =>
    have same := @handleNodeEvent_records P (s.sweeps .node) s.preserveExtenderObjects s.nodes s.cache event
    cases other with
    | object other => exact congrArg SortedMap.get (congrFun (congrArg Prod.fst same) other)
    | workload other =>
      have workloads := congrArg (fun records => records.2.1) same
      funext key
      exact congrArg (fun held : SortedMap String P.workload => if Owns other key then held.get key else none) workloads
    | node => exact absurd rfl others
    | _ => rfl
  | pod =>
    have same := @handlePodEvent_records P (s.sweeps .pod) s.pods s.cache event
    cases other with
    | object other => exact congrArg SortedMap.get (congrFun (congrArg Prod.fst same) other)
    | workload other =>
      have workloads := congrArg (fun records => records.2.1) same
      funext key
      exact congrArg (fun held : SortedMap String P.workload => if Owns other key then held.get key else none) workloads
    | pod => exact absurd rfl others
    | _ => rfl

/-! ## Runs -/

/-- No pod that is mirrored names the node. -/
def Free (pods : PodMirror) (name : String) : Prop :=
  forall entry, entry ∈ pods.entries -> entry.2.nodeName ≠ some name

instance (pods : PodMirror) (name : String) : Decidable (Free pods name) :=
  inferInstanceAs (Decidable (forall entry, entry ∈ pods.entries -> _))

instance (pods : PodMirror) (pod : PodInfo) : Decidable (Genuine pods pod) :=
  inferInstanceAs (Decidable (forall entry, entry ∈ pods.entries -> _))

/-- Pods come after their nodes and go before them. -/
def WatchState.InTurn (s : WatchState P Budget) : (kind : WatchKind) -> WatchEvent (Watched P Budget kind) -> Prop
  | .node, .delete node => Free s.pods (NamedNode.name node)
  | .node, .initDone => forall name, name ∈ (s.sweeps .node).gone -> Free s.pods name
  | .pod, .initApply pod | .pod, .apply pod =>
    Genuine s.pods pod ∧ (PodInfo.nodeName pod).all fun name => (s.nodes.get name).isSome
  | .pod, .delete pod => Genuine s.pods pod
  | _, _ => True

instance (s : WatchState P Budget) : forall kind event, Decidable (s.InTurn kind event)
  | .node, .delete node => inferInstanceAs (Decidable (Free s.pods (NamedNode.name node)))
  | .node, .initDone => inferInstanceAs (Decidable (forall name, name ∈ (s.sweeps .node).gone -> Free s.pods name))
  | .pod, .initApply pod | .pod, .apply pod =>
    inferInstanceAs (Decidable (Genuine s.pods pod ∧ (PodInfo.nodeName pod).all fun name => (s.nodes.get name).isSome))
  | .pod, .delete pod => inferInstanceAs (Decidable (Genuine s.pods pod))
  | .node, .init | .node, .initApply _ | .node, .apply _ | .pod, .init | .pod, .initDone => isTrue True.intro
  | .object _, _ | .workload _, _ | .storageCapacity, _ | .budget, _ => isTrue True.intro

/-- The notification is one a watcher sends in this place, its object shares
its key with no other, and pods and nodes come in turn. -/
def Orderly (s : WatchState P Budget) (n : Notification P Budget) : Prop :=
  Watch.Reports (s.lists n.kind) n.event ∧ (watch P Budget n.kind).Apart (s.lists n.kind) n.event ∧ s.InTurn n.kind n.event

instance (s : WatchState P Budget) (n : Notification P Budget) : Decidable (Orderly s n) :=
  inferInstanceAs (Decidable (Watch.Reports (s.lists n.kind) n.event ∧
    (watch P Budget n.kind).Apart (s.lists n.kind) n.event ∧ s.InTurn n.kind n.event))

/-- Every watch converges, and what is made of the mirrors is made of exactly
what they hold. -/
structure Converged (s : WatchState P Budget) : Prop where
  each : forall kind, (watch P Budget kind).Converges (s.lists kind) (s.view kind)
  nodes : forall name, (s.nodes.get name = none -> s.cache.nodes.get name = none) ∧
    forall node, s.nodes.get name = some node -> Exists fun info => s.cache.nodes.get name = some info ∧ info.Shows node.node
  pods : forall name pod, s.cache.Lists name pod <-> (Exists fun key => s.pods.get key = some pod) ∧ pod.nodeName = some name
  capacities : forall complete : SortedMap Identity (Listed P.storageCapacity), (s.lists .storageCapacity).complete = some complete ->
    forall capacity, capacity ∈ s.cache.storageCapacities <->
      Exists fun id => Exists fun object => complete.get id = some object ∧ object.payload = capacity
  budgets : s.budgets = rebuiltBudgets s.pdbs

structure Follows (s : WatchState P Budget) : Prop where
  tracks : forall kind, (watch P Budget kind).Tracks (s.lists kind) (s.sweeps kind) (s.view kind)
  custody : Custody s.cache s.nodes s.pods
  capacities : forall complete : SortedMap Identity (Listed P.storageCapacity), (s.lists .storageCapacity).complete = some complete ->
    forall capacity, capacity ∈ s.cache.storageCapacities <->
      Exists fun id => Exists fun object => complete.get id = some object ∧ object.payload = capacity
  budgets : s.budgets = rebuiltBudgets s.pdbs

theorem Follows.new {preserve : Bool} : Follows (WatchState.new preserve : WatchState P Budget) where
  tracks kind := by
    have empty : (WatchState.new preserve : WatchState P Budget).view kind = fun _ => none := by
      cases kind with
      | workload kind =>
        funext key
        change (if Owns kind key then none else none) = none
        split_ifs <;> rfl
      | _ => rfl
    rw [empty]
    exact Watch.Tracks.new
  custody := Custody.new
  capacities _ absent := nomatch absent
  budgets := rfl

theorem Follows.converged (follows : Follows s) : Converged s where
  each kind := (follows.tracks kind).converges
  nodes name := ⟨follows.custody.unknown name, follows.custody.shown name⟩
  pods := follows.custody.listed
  capacities := follows.capacities
  budgets := follows.budgets

theorem Follows.owns (follows : Follows s) (kind : WatchKind) (workload : WorkloadKind) (is : kind = .workload workload)
    (key : String) (known : (s.sweeps kind).Knows key) : Owns workload key := by
  subst is
  rcases (follows.tracks (.workload workload)).shown key known with ⟨object, rfl, _⟩
  exact owns_workloadKey workload object

/-- Whether a deletion counts is the same for the mirror and for the set that
was reported. -/
theorem Follows.ignores (follows : Follows s) {pod : PodInfo} (between : (s.lists .pod).Complete)
    (apart : (watch P Budget .pod).Apart (s.lists .pod) (.delete pod)) :
    staleDelete ((s.lists .pod).complete.bind fun complete => complete.get ((watch P Budget .pod).identity pod)) pod =
      staleDelete (s.pods.get (podKey pod)) pod := by
  rcases Option.isSome_iff_exists.mp between.2 with ⟨complete, is⟩
  have exactly := (follows.tracks .pod).between between.1 complete is
  have converges := ((follows.tracks .pod).converges.between between.1 complete is).2
  rw [is, Option.bind_some]
  congr 1
  cases found : complete.get ((watch P Budget .pod).identity pod) with
  | some held =>
    have shown := (exactly.shows _ held found).2
    have key : podKey held = podKey pod := (watch P Budget .pod).determined (exactly.own _ held found)
    change s.pods.get (podKey held) = some held at shown
    rw [← key, shown]
  | none =>
    cases mirrored : s.pods.get (podKey pod) with
    | none => rfl
    | some held =>
      rcases converges (podKey pod) held mirrored with ⟨id, object, there, sameKey, _⟩
      have here := apart complete is (id, object) (SortedMap.mem_entries.mpr there) sameKey
      change id = _ at here
      rw [here, found] at there
      cases there

theorem Follows.tracks_step (follows : Follows s) {n : Notification P Budget} (orderly : Orderly s n) (kind : WatchKind) :
    (watch P Budget kind).Tracks ((s.step n).lists kind) ((s.step n).sweeps kind) ((s.step n).view kind) := by
  rcases n with ⟨noticed, event⟩
  rcases orderly with ⟨reports, apart, _⟩
  change (watch P Budget kind).Tracks (Function.update s.lists noticed (reported noticed (s.lists noticed) event) kind)
    ((s.handle noticed event).sweeps kind) ((s.handle noticed event).view kind)
  by_cases here : kind = noticed
  · subst here
    rw [Function.update_self]
    by_cases ignored : s.Ignores kind event
    · rw [(handle_ignored ignored).1, (handle_ignored ignored).2]
      have same : reported kind (s.lists kind) event = s.lists kind := by
        cases kind with
        | pod =>
          cases event with
          | delete pod => exact if_pos ((follows.ignores reports apart).trans ignored)
          | _ => exact absurd ignored id
        | _ => exact absurd ignored id
      rw [same]
      exact follows.tracks kind
    · rw [(handle_own ignored).1, (handle_own ignored).2]
      have same : reported kind (s.lists kind) event = (s.lists kind).reflect (watch P Budget kind).identity event := by
        cases kind with
        | pod =>
          cases event with
          | delete pod => exact if_neg fun stale => ignored ((follows.ignores reports apart).symm.trans stale)
          | _ => rfl
        | _ => rfl
      rw [same]
      exact (follows.tracks kind).step reports apart
  · rw [Function.update_of_ne here, handle_sweeps_others here, handle_view_others here (follows.owns noticed)]
    exact follows.tracks kind

theorem Free.pods {pods : PodMirror} {name : String} (free : Free pods name) (key : String) (pod : PodInfo)
    (found : pods.get key = some pod) : pod.nodeName ≠ some name :=
  free (key, pod) (SortedMap.mem_entries.mpr found)

theorem Custody.handleNodeEvent (custody : Custody s.cache s.nodes s.pods) {event : WatchEvent NamedNode}
    (turn : s.InTurn .node event) : Custody (s.handle .node event).cache (s.handle .node event).nodes s.pods := by
  cases event with
  | init => exact custody
  | initDone => exact custody.removeNodes fun name swept => (turn name swept).pods
  | initApply node | apply node => exact custody.upsertNode node _
  | delete node => exact custody.removeNode (Free.pods turn)

theorem Custody.handlePodEvent (custody : Custody s.cache s.nodes s.pods) {event : WatchEvent PodInfo}
    (turn : s.InTurn .pod event) : Custody (s.handle .pod event).cache s.nodes (s.handle .pod event).pods := by
  have known : forall pod : PodInfo, (pod.nodeName.all fun name => (s.nodes.get name).isSome) = true ->
      forall name, pod.nodeName = some name -> (s.nodes.get name).isSome = true := by
    intro pod all name bound
    rw [bound, Option.all_some] at all
    exact all
  cases event with
  | init => exact custody
  | initDone => exact custody.dropPods
  | initApply pod | apply pod => exact custody.applyPod turn.1 (known pod turn.2)
  | delete pod =>
    have outcome : (s.handle .pod (.delete pod)).cache = removePod s.cache pod ∧ (s.handle .pod (.delete pod)).pods =
        if staleDelete (s.pods.get (podKey pod)) pod then s.pods else s.pods.erase (podKey pod) := by
      unfold WatchState.handle Watching.handlePodEvent
      dsimp only
      split <;> exact ⟨rfl, rfl⟩
    rw [outcome.1, outcome.2]
    split_ifs with stale
    · exact custody.deleteStalePod turn stale
    · exact custody.deletePod turn (Bool.eq_false_of_not_eq_true stale)

theorem Follows.custody_step (follows : Follows s) {n : Notification P Budget} (orderly : Orderly s n) :
    Custody (s.step n).cache (s.step n).nodes (s.step n).pods := by
  rcases n with ⟨kind, event⟩
  have turn := orderly.2.2
  cases kind with
  | object kind =>
    have equal := @handleObjectEvent_eq P s.cache (s.sweeps (.object kind)) kind event
    have same := (congrArg (fun after => besideObjects kind after.2) equal).trans
      (@handleCachedEvent_beside P s.cache (s.sweeps (.object kind)) kind (keyOf kind) event)
    exact follows.custody.of_same (congrArg Prod.fst same) (congrArg (fun beside => beside.2.1) same)
  | workload kind =>
    have same := @handleWorkloadEvent_beside P s.cache (s.sweeps (.workload kind)) kind event
    exact follows.custody.of_same (congrArg Prod.fst same) (congrArg (fun beside => beside.2.1) same)
  | storageCapacity =>
    have same := @handleCsiStorageCapacityEvent_beside P (s.sweeps .storageCapacity) s.capacities s.cache event
    exact follows.custody.of_same (congrArg Prod.fst same) (congrArg (fun beside => beside.2.1) same)
  | budget => exact follows.custody
  | node => exact follows.custody.handleNodeEvent turn
  | pod => exact follows.custody.handlePodEvent turn

/-- A mirror that shows the complete set is rebuilt into its capacities. -/
theorem mem_rebuiltCapacities {complete : SortedMap Identity (Listed P.storageCapacity)} {mirror : CapacityMirror P}
    {keys : String -> Prop} (exactly : (watch P Budget .storageCapacity).Exactly complete keys mirror.get)
    (only : forall key object, mirror.get key = some object -> keys key) (capacity : P.storageCapacity) :
    capacity ∈ rebuiltCapacities mirror <->
      Exists fun id => Exists fun object => complete.get id = some object ∧ object.payload = capacity := by
  unfold rebuiltCapacities
  rw [List.mem_map]
  constructor
  · rintro ⟨⟨key, object⟩, listed, rfl⟩
    have found := SortedMap.mem_entries.mp listed
    rcases exactly.only key (only key object found) with ⟨id, stored, there, rfl⟩
    have shown : mirror.get (Listed.name stored) = some stored := (exactly.shows id stored there).2
    have same : some stored = some object := shown.symm.trans found
    exact ⟨id, stored, there, congrArg Listed.payload (Option.some.inj same)⟩
  · rintro ⟨id, object, there, rfl⟩
    have shown : mirror.get object.name = some object := (exactly.shows id object there).2
    exact ⟨(object.name, object), SortedMap.mem_entries.mpr shown, rfl⟩

theorem Follows.capacities_step (follows : Follows s) {n : Notification P Budget} (orderly : Orderly s n)
    (complete : SortedMap Identity (Listed P.storageCapacity)) (is : ((s.step n).lists .storageCapacity).complete = some complete)
    (capacity : P.storageCapacity) : capacity ∈ (s.step n).cache.storageCapacities <->
      Exists fun id => Exists fun object => complete.get id = some object ∧ object.payload = capacity := by
  have tracks := follows.tracks_step orderly .storageCapacity
  rcases n with ⟨kind, event⟩
  rcases orderly with ⟨reports, apart, turn⟩
  by_cases other : WatchKind.storageCapacity = kind
  · subst other
    have listed : ((s.step ⟨.storageCapacity, event⟩).lists .storageCapacity) =
        (s.lists .storageCapacity).reflect (watch P Budget .storageCapacity).identity event := by
      have own : (s.step ⟨.storageCapacity, event⟩).lists = Function.update s.lists .storageCapacity
          (reported .storageCapacity (s.lists .storageCapacity) event) := rfl
      rw [own, Function.update_self]
      rfl
    -- after a list and after a change the cache is rebuilt
    have rebuilt : ((s.step ⟨.storageCapacity, event⟩).lists .storageCapacity).building = none ->
        (s.step ⟨.storageCapacity, event⟩).cache.storageCapacities =
          rebuiltCapacities (s.step ⟨.storageCapacity, event⟩).capacities ->
        (capacity ∈ (s.step ⟨.storageCapacity, event⟩).cache.storageCapacities <->
          Exists fun id => Exists fun object => complete.get id = some object ∧ object.payload = capacity) := by
      intro between written
      rw [written]
      refine mem_rebuiltCapacities (tracks.between between complete is) (fun key object found => ?_) capacity
      by_contra unknown
      have hidden := tracks.hidden key unknown
      change (s.step ⟨.storageCapacity, event⟩).capacities.get key = none at hidden
      rw [found] at hidden
      cases hidden
    -- while a list is delivered it stays
    have stays : (s.step ⟨.storageCapacity, event⟩).cache.storageCapacities = s.cache.storageCapacities ->
        ((s.lists .storageCapacity).reflect (watch P Budget .storageCapacity).identity event).complete =
          (s.lists .storageCapacity).complete ->
        (capacity ∈ (s.step ⟨.storageCapacity, event⟩).cache.storageCapacities <->
          Exists fun id => Exists fun object => complete.get id = some object ∧ object.payload = capacity) := by
      intro untouched same
      rw [listed, same] at is
      rw [untouched]
      exact follows.capacities complete is capacity
    have relisting := (follows.tracks .storageCapacity).relisting
    cases event with
    | init => exact stays rfl rfl
    | initDone =>
      rcases Option.isSome_iff_exists.mp reports with ⟨building, under⟩
      refine rebuilt ?_ rfl
      rw [listed]
      unfold Reflected.reflect
      rw [under]
    | initApply object =>
      rcases Option.isSome_iff_exists.mp reports with ⟨building, under⟩
      rw [under, Option.isSome_some] at relisting
      refine stays ?_ ?_
      · change (if !(s.sweeps .storageCapacity).relisting then _ else s.cache).storageCapacities = _
        rw [relisting]
        rfl
      · unfold Reflected.reflect
        rw [under]
    | apply object =>
      rw [reports.1, Option.isSome_none] at relisting
      refine rebuilt ?_ ?_
      · rw [listed]
        unfold Reflected.reflect Reflected.changed
        dsimp only
        rw [reports.1]
        rfl
      · change (if !(s.sweeps .storageCapacity).relisting then _ else s.cache).storageCapacities = _
        rw [relisting]
        rfl
    | delete object =>
      refine rebuilt ?_ rfl
      rw [listed]
      unfold Reflected.reflect Reflected.changed
      dsimp only
      rw [reports.1]
      rfl
  · have listed : (s.step ⟨kind, event⟩).lists .storageCapacity = s.lists .storageCapacity := Function.update_of_ne other _ _
    rw [listed] at is
    have same : (s.step ⟨kind, event⟩).cache.storageCapacities = s.cache.storageCapacities := by
      cases kind with
      | object kind =>
        have equal := @handleObjectEvent_eq P s.cache (s.sweeps (.object kind)) kind event
        have beside := (congrArg (fun after => besideObjects kind after.2) equal).trans
          (@handleCachedEvent_beside P s.cache (s.sweeps (.object kind)) kind (keyOf kind) event)
        exact congrArg (fun beside => beside.2.2.2.1) beside
      | workload kind =>
        exact congrArg (fun beside => beside.2.2.2) (@handleWorkloadEvent_beside P s.cache (s.sweeps (.workload kind)) kind event)
      | storageCapacity => exact absurd rfl other
      | budget => rfl
      | node =>
        exact congrArg (fun records => records.2.2)
          (@handleNodeEvent_records P (s.sweeps .node) s.preserveExtenderObjects s.nodes s.cache event)
      | pod => exact congrArg (fun records => records.2.2) (@handlePodEvent_records P (s.sweeps .pod) s.pods s.cache event)
    rw [same]
    exact follows.capacities complete is capacity

theorem Follows.step (follows : Follows s) {n : Notification P Budget} (orderly : Orderly s n) : Follows (s.step n) where
  tracks := follows.tracks_step orderly
  custody := follows.custody_step orderly
  capacities := follows.capacities_step orderly
  budgets := by
    rcases n with ⟨kind, event⟩
    cases kind with
    | budget => rfl
    | _ => exact follows.budgets

private abbrev Small : Payloads :=
  ⟨fun _ => Unit, Unit, Nat⟩

private def capacityEvent (event : WatchEvent (Listed Nat)) : Notification Small Unit :=
  ⟨.storageCapacity, event⟩

private def nodeEvent (event : WatchEvent NamedNode) : Notification Small Unit :=
  ⟨.node, event⟩

private def podEvent (event : WatchEvent PodInfo) : Notification Small Unit :=
  ⟨.pod, event⟩

private def homeNode : NamedNode :=
  ⟨⟨some "home", .empty, [], false, none⟩, "home", rfl⟩

private def homePod : PodInfo :=
  ⟨"default", "web", "u", some "home", "default-scheduler", 0, none, [], [], .zero, none, false, 0, 0⟩

/-- A node and its pod are listed.  Then capacities are listed twice, and one
of them has gone in between. -/
private def inTurn : List (Notification Small Unit) :=
  [nodeEvent .init, nodeEvent (.initApply homeNode), nodeEvent .initDone, podEvent .init, podEvent (.initApply homePod),
    podEvent .initDone, capacityEvent .init, capacityEvent (.initApply ⟨some "a", "fast", 10⟩),
    capacityEvent (.initApply ⟨some "b", "slow", 20⟩), capacityEvent .initDone, capacityEvent .init,
    capacityEvent (.initApply ⟨some "b", "slow", 20⟩), capacityEvent .initDone]

/-- Two capacities of one name in two namespaces are listed. -/
private def sharedName : List (Notification Small Unit) :=
  [capacityEvent .init, capacityEvent (.initApply ⟨some "a", "fast", 10⟩), capacityEvent (.initApply ⟨some "b", "fast", 20⟩),
    capacityEvent .initDone]

end Watching
end NotK8s.Scheduler

import NotK8s.Scheduler.Watching

namespace NotK8s.Scheduler

open Library

/-!
# Mirrors and the cache

The cache shows every mirrored node, and lists exactly the mirrored pods that
name a node.  That lasts as long as pods come after their nodes and go before
them.
-/

/-! ## What a node's entry says about the node itself -/

namespace NodeInfo

variable {info other : NodeInfo} {node : ApiNode} {pod : PodInfo} {uid : String} {generation : Nat}

/-- The part that comes from the node, not from its pods. -/
def described (info : NodeInfo) : NodeInfo :=
  { NodeInfo.default with
    name := info.name
    labels := info.labels
    taints := info.taints
    unschedulable := info.unschedulable
    conditions := info.conditions
    allocatable := info.allocatable
    allocatablePods := info.allocatablePods
    images := info.images }

/-- Everything the node says is in its entry. -/
def Shows (info : NodeInfo) (node : ApiNode) : Prop :=
  (info.updateFromNode node 0).described = info.described

theorem described_updateFromNode :
    (info.updateFromNode node generation).described = (info.described.updateFromNode node 0).described := by
  unfold updateFromNode
  cases node.status with
  | none => rfl
  | some status =>
    cases shown : status.allocatable with
    | none | some allocatable =>
      dsimp only
      rw [shown]
      rfl

theorem described_twice :
    ((info.updateFromNode node generation).updateFromNode node 0).described = (info.updateFromNode node generation).described := by
  unfold updateFromNode
  cases node.status with
  | none => rfl
  | some status =>
    cases shown : status.allocatable with
    | none | some allocatable =>
      dsimp only
      rw [shown]
      rfl

theorem Shows.congr (shows : info.Shows node) (same : other.described = info.described) : other.Shows node := by
  unfold Shows at shows ⊢
  rw [described_updateFromNode, same, ← described_updateFromNode]
  exact shows

theorem shows_updateFromNode {object : Option ApiNode} :
    ({ info.updateFromNode node generation with apiObject := object } : NodeInfo).Shows node := by
  have shows : (info.updateFromNode node generation).Shows node := described_twice
  exact shows.congr rfl

theorem described_removePod : (info.removePod uid generation).described = info.described := by
  unfold removePod
  split <;> rfl

theorem described_addPod : (info.addPod pod generation).described = info.described := by
  have cleared : (if (info.pods.any fun held => held.uid = pod.uid) = true then info.removePod pod.uid generation
      else info).described = info.described := by
    split_ifs
    · exact described_removePod
    · rfl
  exact cleared

end NodeInfo

namespace Cache

variable {P : Payloads} {c : Cache P} {name uid other : String} {pod : PodInfo}

theorem described_removePodFrom :
    ((c.removePodFrom name uid).nodes.get other).map NodeInfo.described = (c.nodes.get other).map NodeInfo.described := by
  rw [removePodFrom_get]
  split_ifs with here
  · rw [here, Option.map_map]
    exact Option.map_congr fun _ _ => NodeInfo.described_removePod
  · rfl

theorem described_removePod :
    ((c.removePod uid).nodes.get other).map NodeInfo.described = (c.nodes.get other).map NodeInfo.described := by
  unfold removePod
  cases c.podLocations.get uid with
  | none => rfl
  | some name =>
    exact described_removePodFrom

theorem described_releaseMoved :
    ((c.releaseMoved uid name).nodes.get other).map NodeInfo.described = (c.nodes.get other).map NodeInfo.described := by
  unfold releaseMoved
  cases c.podLocations.get uid with
  | none => rfl
  | some old =>
    dsimp only
    split_ifs
    · exact described_removePodFrom
    · rfl

theorem described_addPod :
    ((c.addPod pod).nodes.get other).map NodeInfo.described = (c.nodes.get other).map NodeInfo.described := by
  unfold addPod
  cases pod.nodeName with
  | none => rfl
  | some name =>
    dsimp only
    have kept : (c.releaseMoved pod.uid name).bumped.nodes.get name = c.nodes.get name := releaseMoved_get
    rw [kept]
    cases found : c.nodes.get name with
    | none => exact described_releaseMoved
    | some info =>
      have written : forall info', (({ (c.releaseMoved pod.uid name).bumped with
          podLocations := (c.releaseMoved pod.uid name).bumped.podLocations.insert pod.uid name }.store name info').nodes.get
          other) = if other = name then some info' else (c.releaseMoved pod.uid name).nodes.get other :=
        fun _ => SortedMap.get_insert
      rw [written]
      split_ifs with here
      · rw [here, found]
        exact congrArg some NodeInfo.described_addPod
      · exact described_releaseMoved

/-- What a watch of nodes or pods leaves alone. -/
def records (c : Cache P) : ((kind : ObjectKind) -> SortedMap String (P.object kind)) × SortedMap String P.workload ×
    List P.storageCapacity :=
  (c.objects, c.workloadSelectors, c.storageCapacities)

theorem records_removeNode : (c.removeNode name).records = c.records := by
  unfold removeNode
  cases c.nodes.get name <;> rfl

theorem records_upsertNode {node : ApiNode} {preserve : Bool} : (c.upsertNode node preserve).records = c.records := by
  unfold upsertNode
  cases node.name <;> rfl

theorem records_removePodFrom : (c.removePodFrom name uid).records = c.records := by
  unfold removePodFrom
  dsimp only
  cases c.bumped.nodes.get name <;> rfl

theorem records_removePod : (c.removePod uid).records = c.records := by
  unfold removePod
  cases c.podLocations.get uid with
  | none => rfl
  | some name => exact records_removePodFrom

theorem records_addPod : (c.addPod pod).records = c.records := by
  have released : forall name, (c.releaseMoved pod.uid name).records = c.records := by
    intro name
    unfold releaseMoved
    cases c.podLocations.get pod.uid with
    | none => rfl
    | some old =>
      dsimp only
      split_ifs
      · exact records_removePodFrom
      · rfl
  unfold addPod
  cases pod.nodeName with
  | none => rfl
  | some name =>
    dsimp only
    split
    · exact released name
    · exact released name

end Cache

/-! ## Custody -/

namespace Watching

variable {P : Payloads} {cache cache' : Cache P} {nodes : NodeMirror} {pods : PodMirror} {pod : PodInfo} {key : String}

structure Custody (cache : Cache P) (nodes : NodeMirror) (pods : PodMirror) : Prop where
  placed : cache.Placed
  unknown : forall name, nodes.get name = none -> cache.nodes.get name = none
  shown : forall name node, nodes.get name = some node -> Exists fun info => cache.nodes.get name = some info ∧ info.Shows node.node
  listed : forall name pod, cache.Lists name pod <-> (Exists fun key => pods.get key = some pod) ∧ pod.nodeName = some name
  uids : forall key key' pod pod', pods.get key = some pod -> pods.get key' = some pod' -> pod.uid = pod'.uid -> key = key'

theorem Custody.of_same (custody : Custody cache nodes pods) (sameNodes : cache'.nodes = cache.nodes)
    (sameLocations : cache'.podLocations = cache.podLocations) : Custody cache' nodes pods := by
  have lists : forall name pod, cache'.Lists name pod <-> cache.Lists name pod := by
    intro name pod
    unfold Cache.Lists
    rw [sameNodes]
  refine ⟨⟨?_, ?_⟩, ?_, ?_, ?_, custody.uids⟩
  · rw [sameNodes]
    exact custody.placed.distinct
  · intro name pod listed
    rw [sameLocations]
    exact custody.placed.located name pod ((lists name pod).mp listed)
  · rw [sameNodes]
    exact custody.unknown
  · rw [sameNodes]
    exact custody.shown
  · exact fun name pod => (lists name pod).trans (custody.listed name pod)

theorem Custody.new : Custody (Cache.new : Cache P) .empty .empty where
  placed := Cache.Placed.new
  unknown _ _ := rfl
  shown _ _ absent := nomatch absent
  listed _ _ := iff_of_false (fun listed => nomatch listed.choose_spec.1) fun held => nomatch held.1.choose_spec
  uids _ _ _ _ absent := nomatch absent

/-! ### Nodes -/

section

variable (custody : Custody cache nodes pods)
include custody

theorem Custody.upsertNode (node : NamedNode) (preserve : Bool) :
    Custody (cache.upsertNode node.node preserve) (nodes.insert node.name node) pods := by
  rcases @Cache.Placed.upsertNode P cache node.name custody.placed node.node preserve node.named with ⟨placed, _, lists⟩
  refine ⟨placed, ?_, ?_, fun name pod => (lists name pod).trans (custody.listed name pod), custody.uids⟩
  · intro name absent
    rw [SortedMap.get_insert] at absent
    rw [Cache.upsertNode_get node.named]
    split_ifs at absent ⊢
    exact custody.unknown name absent
  · intro name stored found
    rw [SortedMap.get_insert] at found
    rw [Cache.upsertNode_get node.named]
    split_ifs at found ⊢
    · cases found
      exact ⟨_, rfl, NodeInfo.shows_updateFromNode⟩
    · exact custody.shown name stored found

theorem Custody.removeNode {name : String}
    (free : forall key pod, pods.get key = some pod -> pod.nodeName ≠ some name) :
    Custody (cache.removeNode name) (nodes.erase name) pods := by
  rcases @Cache.Placed.removeNode P cache name custody.placed with ⟨placed, _, lists⟩
  refine ⟨placed, ?_, ?_, ?_, custody.uids⟩
  · intro other absent
    rw [SortedMap.get_erase] at absent
    rw [Cache.removeNode_get]
    split_ifs at absent ⊢
    · rfl
    · exact custody.unknown other absent
  · intro other stored found
    rw [SortedMap.get_erase] at found
    rw [Cache.removeNode_get]
    split_ifs at found ⊢
    exact custody.shown other stored found
  · intro other pod
    rw [lists, custody.listed]
    refine ⟨fun held => held.1, fun held => ⟨held, ?_⟩⟩
    rintro rfl
    rcases held with ⟨⟨key, found⟩, bound⟩
    exact free key pod found bound

theorem Custody.removeNodes {names : List String}
    (free : forall name, name ∈ names -> forall key pod, pods.get key = some pod -> pod.nodeName ≠ some name) :
    Custody (names.foldl Watching.removeNode (nodes, cache)).2 (names.foldl Watching.removeNode (nodes, cache)).1 pods := by
  exact List.foldlRecOn (motive := fun held : NodeMirror × Cache P => Custody held.2 held.1 pods) names _ custody
    fun _ custody name listed => custody.removeNode (free name listed)

/-! ### Pods -/

theorem Custody.of_described {pods' : PodMirror} (placed : cache'.Placed)
    (same : forall name, (cache'.nodes.get name).map NodeInfo.described = (cache.nodes.get name).map NodeInfo.described)
    (listed : forall name pod, cache'.Lists name pod <-> (Exists fun key => pods'.get key = some pod) ∧ pod.nodeName = some name)
    (uids : forall key key' pod pod', pods'.get key = some pod -> pods'.get key' = some pod' -> pod.uid = pod'.uid -> key = key') :
    Custody cache' nodes pods' := by
  refine ⟨placed, fun name absent => ?_, fun name node found => ?_, listed, uids⟩
  · have none := same name
    rw [custody.unknown name absent, Option.map_none, Option.map_eq_none_iff] at none
    exact none
  · rcases custody.shown name node found with ⟨info, there, shows⟩
    have some := same name
    rw [there, Option.map_some, Option.map_eq_some_iff] at some
    rcases some with ⟨after, here, alike⟩
    exact ⟨after, here, shows.congr alike⟩

end

theorem removePod_spec (placed : cache.Placed) (assigned : forall name held, cache.Lists name held -> held.uid = pod.uid ->
      pod.nodeName.isSome = true) :
    (removePod cache pod).Placed ∧
    (forall name, ((removePod cache pod).nodes.get name).map NodeInfo.described = (cache.nodes.get name).map NodeInfo.described) ∧
    forall name held, (removePod cache pod).Lists name held <-> cache.Lists name held ∧ held.uid ≠ pod.uid := by
  unfold removePod
  split_ifs with bound
  · rcases @Cache.Placed.removePod P cache pod.uid placed with ⟨after, _, lists⟩
    exact ⟨after, fun _ => Cache.described_removePod, lists⟩
  · refine ⟨placed, fun _ => rfl, fun name held => ⟨fun listed => ⟨listed, ?_⟩, fun both => both.1⟩⟩
    exact fun same => bound (assigned name held listed same)

section

variable (custody : Custody cache nodes pods)
include custody

theorem Custody.dropPod (key : String) :
    Custody (dropPod (pods, cache) key).2 nodes (dropPod (pods, cache) key).1 := by
  have rest : forall other held, (pods.erase key).get other = some held <-> pods.get other = some held ∧ other ≠ key := by
    intro other held
    rw [SortedMap.get_erase]
    split_ifs with here
    · exact iff_of_false nofun fun both => both.2 here
    · exact ⟨fun found => ⟨found, here⟩, fun both => both.1⟩
  have uids : forall other other' held held', (pods.erase key).get other = some held -> (pods.erase key).get other' = some held' ->
      held.uid = held'.uid -> other = other' :=
    fun other other' held held' found found' => custody.uids other other' held held' ((rest other held).mp found).1
      ((rest other' held').mp found').1
  unfold Watching.dropPod
  cases found : pods.get key with
  | none =>
    refine custody.of_described custody.placed (fun _ => rfl) (fun name held => ?_) uids
    rw [Option.elim_none, custody.listed]
    refine and_congr_left fun _ => exists_congr fun other => ?_
    rw [rest]
    refine ⟨fun there => ⟨there, ?_⟩, fun both => both.1⟩
    rintro rfl
    rw [found] at there
    cases there
  | some old =>
    have assigned : forall name held, cache.Lists name held -> held.uid = old.uid -> old.nodeName.isSome = true := by
      intro name held listed same
      rcases (custody.listed name held).mp listed with ⟨⟨other, there⟩, bound⟩
      have here := custody.uids other key held old there found same
      rw [here, found] at there
      rw [Option.some.inj there, bound]
      rfl
    rcases removePod_spec custody.placed assigned with ⟨placed, described, lists⟩
    refine custody.of_described placed described (fun name held => ?_) uids
    rw [Option.elim_some, lists, custody.listed, and_right_comm]
    refine and_congr_left fun _ => ?_
    constructor
    · rintro ⟨⟨other, there⟩, apart⟩
      refine ⟨other, (rest other held).mpr ⟨there, ?_⟩⟩
      rintro rfl
      rw [found] at there
      exact apart (congrArg PodInfo.uid (Option.some.inj there)).symm
    · rintro ⟨other, there⟩
      rcases (rest other held).mp there with ⟨before, elsewhere⟩
      exact ⟨⟨other, before⟩, fun same => elsewhere (custody.uids other key held old before found same)⟩

theorem Custody.dropPods {keys : List String} :
    Custody (keys.foldl Watching.dropPod (pods, cache)).2 nodes (keys.foldl Watching.dropPod (pods, cache)).1 := by
  exact List.foldlRecOn (motive := fun held : PodMirror × Cache P => Custody held.2 nodes held.1) keys _ custody
    fun _ custody key _ => custody.dropPod key

/-- What the API promises of a pod that is delivered: its uid is no other
pod's, and once it names a node it always does. -/
def Genuine (pods : PodMirror) (pod : PodInfo) : Prop :=
  forall entry, entry ∈ pods.entries -> entry.2.uid = pod.uid ->
    entry.1 = podKey pod ∧ (entry.2.nodeName.isSome = true -> pod.nodeName.isSome = true)

section

variable (genuine : Genuine pods pod)
include genuine

theorem Custody.assigned (name : String) (held : PodInfo)
    (listed : cache.Lists name held) (same : held.uid = pod.uid) : pod.nodeName.isSome = true := by
  rcases (custody.listed name held).mp listed with ⟨⟨other, there⟩, bound⟩
  apply (genuine (other, held) (SortedMap.mem_entries.mpr there) same).2
  rw [bound]
  rfl

theorem Custody.deletePod
    (mirrored : staleDelete (pods.get (podKey pod)) pod = false) :
    Custody (removePod cache pod) nodes (pods.erase (podKey pod)) := by
  rcases removePod_spec custody.placed (custody.assigned genuine) with ⟨placed, described, lists⟩
  have apart : forall key held, pods.get key = some held -> (held.uid ≠ pod.uid <-> key ≠ podKey pod) := by
    intro key held found
    constructor
    · rintro other rfl
      rw [found] at mirrored
      exact other (by simpa [staleDelete] using mirrored)
    · intro elsewhere same
      exact elsewhere (genuine (key, held) (SortedMap.mem_entries.mpr found) same).1
  have rest : forall key held, (pods.erase (podKey pod)).get key = some held <-> pods.get key = some held ∧ held.uid ≠ pod.uid := by
    intro key held
    rw [SortedMap.get_erase]
    split_ifs with here
    · exact iff_of_false nofun fun both => (apart key held both.1).mp both.2 here
    · exact ⟨fun found => ⟨found, (apart key held found).mpr here⟩, fun both => both.1⟩
  refine custody.of_described placed described (fun name held => ?_) ?_
  · rw [lists, custody.listed, and_right_comm, exists_and_right.symm]
    exact and_congr_left fun _ => exists_congr fun key => (rest key held).symm
  · intro key key' held held' found found'
    exact custody.uids key key' held held' ((rest key held).mp found).1 ((rest key' held').mp found').1

theorem Custody.deleteStalePod
    (stale : staleDelete (pods.get (podKey pod)) pod = true) : Custody (removePod cache pod) nodes pods := by
  rcases removePod_spec custody.placed (custody.assigned genuine) with ⟨placed, described, lists⟩
  refine custody.of_described placed described (fun name held => ?_) custody.uids
  rw [lists]
  refine (and_iff_left_of_imp fun listed same => ?_).trans (custody.listed name held)
  rcases (custody.listed name held).mp listed with ⟨⟨key, found⟩, _⟩
  have here := (genuine (key, held) (SortedMap.mem_entries.mpr found) same).1
  rw [← here, found] at stale
  have other : held.uid ≠ pod.uid := by simpa [staleDelete] using stale
  exact other same

theorem Custody.applyPod
    (known : forall name, pod.nodeName = some name -> (nodes.get name).isSome = true) :
    Custody (applyPod cache (pods.get (podKey pod)) pod) nodes (pods.insert (podKey pod) pod) := by
  have here : forall key held, pods.get key = some held -> held.uid = pod.uid -> key = podKey pod :=
    fun key held found same => (genuine (key, held) (SortedMap.mem_entries.mpr found) same).1
  -- the cache without an older pod of the same name
  have clearing : Exists fun cleared : Cache P => cleared.Placed ∧
      (forall name, (cleared.nodes.get name).map NodeInfo.described = (cache.nodes.get name).map NodeInfo.described) ∧
      (forall name held, cleared.Lists name held <-> ((Exists fun key => pods.get key = some held ∧
        (key = podKey pod -> held.uid = pod.uid)) ∧ held.nodeName = some name)) ∧
      Watching.applyPod cache (pods.get (podKey pod)) pod = if pod.nodeName.isSome then cleared.addPod pod else cleared := by
    cases found : pods.get (podKey pod) with
    | none =>
      refine ⟨cache, custody.placed, fun _ => rfl, fun name held => ?_, rfl⟩
      rw [custody.listed]
      refine and_congr_left fun _ => exists_congr fun key => (and_iff_left_of_imp fun there same => ?_).symm
      rw [same, found] at there
      cases there
    | some old =>
      by_cases replaced : old.uid = pod.uid
      · refine ⟨cache, custody.placed, fun _ => rfl, fun name held => ?_, ?_⟩
        · rw [custody.listed]
          refine and_congr_left fun _ => exists_congr fun key => (and_iff_left_of_imp fun there same => ?_).symm
          rw [same, found] at there
          rw [← Option.some.inj there, replaced]
        · have kept : (some old).filter (fun old => old.uid != pod.uid) = none := by
            rw [Option.filter_some, if_neg (by simpa using replaced)]
          unfold Watching.applyPod
          rw [kept]
          rfl
      · have dropped := custody.dropPod (podKey pod)
        unfold Watching.dropPod at dropped
        rw [found, Option.elim_some] at dropped
        refine ⟨removePod cache old, dropped.placed, ?_, fun name held => ?_, ?_⟩
        · intro name
          unfold removePod
          split_ifs
          · exact Cache.described_removePod
          · rfl
        · rw [dropped.listed]
          refine and_congr_left fun _ => exists_congr fun key => ?_
          rw [SortedMap.get_erase]
          split_ifs with same
          · refine iff_of_false nofun fun both => replaced ?_
            have there := both.1
            rw [same, found] at there
            rw [Option.some.inj there]
            exact both.2 same
          · exact ⟨fun there => ⟨there, fun here => absurd here same⟩, fun both => both.1⟩
        · have kept : (some old).filter (fun old => old.uid != pod.uid) = some old := by
            rw [Option.filter_some, if_pos (by simpa using replaced)]
          unfold Watching.applyPod
          rw [kept]
          rfl
  rcases clearing with ⟨cleared, placed, described, lists, same⟩
  have uids : forall key key' held held', (pods.insert (podKey pod) pod).get key = some held ->
      (pods.insert (podKey pod) pod).get key' = some held' -> held.uid = held'.uid -> key = key' := by
    intro key key' held held' found found' alike
    rw [SortedMap.get_insert] at found found'
    by_cases atKey : key = podKey pod
    · rw [if_pos atKey] at found
      cases found
      by_cases atKey' : key' = podKey pod
      · exact atKey.trans atKey'.symm
      · rw [if_neg atKey'] at found'
        exact atKey.trans (here key' held' found' alike.symm).symm
    · rw [if_neg atKey] at found
      by_cases atKey' : key' = podKey pod
      · rw [if_pos atKey'] at found'
        cases found'
        exact absurd (here key held found alike) atKey
      · rw [if_neg atKey'] at found'
        exact custody.uids key key' held held' found found' alike
  rw [same]
  split_ifs with bound
  · rcases Option.isSome_iff_exists.mp bound with ⟨node, bound⟩
    rcases placed.addPod bound with ⟨after, _, listsAfter⟩
    have nodeKnown : cleared.Knows node := by
      rcases Option.isSome_iff_exists.mp (known node bound) with ⟨mirrored, isMirrored⟩
      rcases custody.shown node mirrored isMirrored with ⟨info, there, _⟩
      have described := described node
      rw [there, Option.map_some, Option.map_eq_some_iff] at described
      rcases described with ⟨info', there', _⟩
      exact ⟨info', there'⟩
    refine custody.of_described after (fun name => Cache.described_addPod.trans (described name)) (fun name held => ?_) uids
    rw [listsAfter, lists]
    constructor
    · rintro (⟨rfl, rfl, _⟩ | ⟨⟨⟨key, found, only⟩, assigned⟩, apart⟩)
      · exact ⟨⟨podKey held, by rw [SortedMap.get_insert, if_pos rfl]⟩, bound⟩
      · refine ⟨⟨key, ?_⟩, assigned⟩
        rw [SortedMap.get_insert, if_neg, found]
        exact fun atKey => apart (only atKey)
    · rintro ⟨⟨key, found⟩, assigned⟩
      rw [SortedMap.get_insert] at found
      split_ifs at found with atKey
      · cases found
        rw [bound] at assigned
        exact Or.inl ⟨(Option.some.inj assigned).symm, rfl, nodeKnown⟩
      · refine Or.inr ⟨⟨⟨key, found, fun same => absurd same atKey⟩, assigned⟩, fun alike => atKey (here key held found alike)⟩
  · refine custody.of_described placed described (fun name held => ?_) uids
    rw [lists]
    refine and_congr_left fun assigned => exists_congr fun key => ?_
    rw [SortedMap.get_insert]
    split_ifs with atKey
    · constructor
      · rintro ⟨found, only⟩
        have promised := (genuine (key, held) (SortedMap.mem_entries.mpr found) (only atKey)).2
        refine absurd (promised ?_) bound
        change held.nodeName.isSome = true
        rw [assigned]
        rfl
      · intro found
        cases found
        rw [assigned] at bound
        exact absurd rfl bound
    · exact ⟨fun both => both.1, fun found => ⟨found, fun same => absurd same atKey⟩⟩

end

end

end Watching
end NotK8s.Scheduler

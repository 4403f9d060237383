import NotK8s.Library.Run
import NotK8s.Scheduler.Cache
import NotK8s.Scheduler.NodeAccounts

namespace NotK8s.Scheduler

open Library

/-!
# Which pods the cache lists

A node of the cache lists pods, and the cache records for each pod the node
that lists it.  One lemma for each operation says which nodes are known after
it and which pods they list.
-/

variable {P : Payloads}

namespace Cache

def Knows (c : Cache P) (name : String) : Prop :=
  Exists fun info => c.nodes.get name = some info

def Lists (c : Cache P) (name : String) (pod : PodInfo) : Prop :=
  Exists fun info => c.nodes.get name = some info ∧ pod ∈ info.pods

/-- Each node lists a pod once, and every listed pod is recorded on the node
that lists it. -/
structure Placed (c : Cache P) : Prop where
  distinct : forall name info, c.nodes.get name = some info -> info.Distinct
  located : forall name pod, c.Lists name pod -> c.podLocations.get pod.uid = some name

variable {c : Cache P} {name uid : String} {pod : PodInfo}

theorem Placed.new : (Cache.new : Cache P).Placed where
  distinct _ _ found := nomatch found
  located _ _ listed := nomatch listed.choose_spec.1

/-! ## Taking a pod off a node -/

theorem removePodFrom_get {other : String} : (c.removePodFrom name uid).nodes.get other =
    if other = name then (c.nodes.get name).map fun info => info.removePod uid (c.generation + 1)
    else c.nodes.get other := by
  unfold Cache.removePodFrom
  dsimp only
  have same : c.bumped.nodes.get name = c.nodes.get name := rfl
  rw [same]
  cases found : c.nodes.get name with
  | none =>
    change c.nodes.get other = _
    split_ifs with here
    · rw [here, found]
      rfl
    · rfl
  | some info => exact SortedMap.get_insert

theorem removePodFrom_locations : (c.removePodFrom name uid).podLocations = c.podLocations := by
  unfold Cache.removePodFrom
  dsimp only
  cases c.bumped.nodes.get name <;> rfl

theorem removePodFrom_knows {other : String} : (c.removePodFrom name uid).Knows other <-> c.Knows other := by
  unfold Knows
  rw [removePodFrom_get]
  split_ifs with here
  · rw [here]
    cases c.nodes.get name with
    | none => exact Iff.rfl
    | some info => exact iff_of_true ⟨_, rfl⟩ ⟨_, rfl⟩
  · exact Iff.rfl

theorem removePodFrom_lists (placed : c.Placed) {other : String} :
    (c.removePodFrom name uid).Lists other pod <-> c.Lists other pod ∧ (other = name -> pod.uid ≠ uid) := by
  unfold Lists
  rw [removePodFrom_get]
  split_ifs with here
  · rw [here]
    cases found : c.nodes.get name with
    | none => exact iff_of_false (fun h => nomatch h.choose_spec.1) (fun h => nomatch h.1.choose_spec.1)
    | some info =>
      have pods := @NodeInfo.Distinct.removePod_pods info uid (c.generation + 1) (placed.distinct name info found)
      constructor
      · rintro ⟨_, same, listed⟩
        cases same
        rw [pods, List.mem_filter] at listed
        exact ⟨⟨info, rfl, listed.1⟩, fun _ => of_decide_eq_true listed.2⟩
      · rintro ⟨⟨_, same, listed⟩, apart⟩
        cases same
        refine ⟨_, rfl, ?_⟩
        rw [pods, List.mem_filter]
        exact ⟨listed, decide_eq_true (apart rfl)⟩
  · exact ⟨fun listed => ⟨listed, fun same => absurd same here⟩, fun h => h.1⟩

theorem Placed.removePodFrom (placed : c.Placed) : (c.removePodFrom name uid).Placed where
  distinct other info found := by
    rw [removePodFrom_get] at found
    split_ifs at found with here
    · rcases Option.map_eq_some_iff.mp found with ⟨old, there, same⟩
      rw [← same]
      exact (placed.distinct name old there).removePod
    · exact placed.distinct other info found
  located other pod listed := by
    rw [removePodFrom_locations]
    exact placed.located other pod ((removePodFrom_lists placed).mp listed).1

/-- Forgetting where a pod is keeps the cache placed once no node lists it. -/
theorem Placed.forget {c' : Cache P} (placed : c.Placed) (nodes : c'.nodes = c.nodes)
    (locations : c'.podLocations = c.podLocations.erase uid) (gone : forall name pod, c.Lists name pod -> pod.uid ≠ uid) :
    c'.Placed := by
  have same : forall name pod, c'.Lists name pod <-> c.Lists name pod := by
    intro name pod
    unfold Lists
    rw [nodes]
  refine ⟨fun other info found => placed.distinct other info (nodes ▸ found), ?_⟩
  intro other pod listed
  have before := (same other pod).mp listed
  rw [locations, SortedMap.get_erase, if_neg (gone other pod before)]
  exact placed.located other pod before

theorem Placed.removePod (placed : c.Placed) : (c.removePod uid).Placed ∧
    (forall name, (c.removePod uid).Knows name <-> c.Knows name) ∧
    forall name pod, (c.removePod uid).Lists name pod <-> c.Lists name pod ∧ pod.uid ≠ uid := by
  unfold Cache.removePod
  cases recorded : c.podLocations.get uid with
  | none =>
    refine ⟨placed, fun _ => Iff.rfl, fun name pod => ⟨fun listed => ⟨listed, ?_⟩, fun h => h.1⟩⟩
    intro same
    have there := placed.located name pod listed
    rw [same, recorded] at there
    cases there
  | some old =>
    have taken : forall name pod, (c.removePodFrom old uid).Lists name pod <-> c.Lists name pod ∧ pod.uid ≠ uid := by
      intro name pod
      rw [removePodFrom_lists placed]
      refine and_congr_right fun listed => ⟨fun apart same => ?_, fun apart _ => apart⟩
      have there := placed.located name pod listed
      rw [same, recorded] at there
      exact apart (Option.some.inj there).symm same
    have nodes : ({ c with podLocations := c.podLocations.erase uid }.removePodFrom old uid).nodes =
        (c.removePodFrom old uid).nodes := by
      apply SortedMap.ext_get
      intro other
      rw [removePodFrom_get, removePodFrom_get]
    have locations : ({ c with podLocations := c.podLocations.erase uid }.removePodFrom old uid).podLocations =
        (c.removePodFrom old uid).podLocations.erase uid := by
      rw [removePodFrom_locations, removePodFrom_locations]
    refine ⟨placed.removePodFrom.forget nodes locations fun name pod listed => ((taken name pod).mp listed).2, ?_, ?_⟩
    · intro name
      unfold Knows
      rw [nodes]
      exact removePodFrom_knows
    · intro name pod
      rw [← taken]
      unfold Lists
      rw [nodes]

theorem Placed.releaseMoved (placed : c.Placed) : (c.releaseMoved uid name).Placed ∧
    (forall other, (c.releaseMoved uid name).Knows other <-> c.Knows other) ∧
    forall other pod, (c.releaseMoved uid name).Lists other pod <->
      c.Lists other pod ∧ (other ≠ name -> pod.uid ≠ uid) := by
  unfold Cache.releaseMoved
  cases recorded : c.podLocations.get uid with
  | none =>
    refine ⟨placed, fun _ => Iff.rfl, fun other pod => ⟨fun listed => ⟨listed, ?_⟩, fun h => h.1⟩⟩
    intro _ same
    have there := placed.located other pod listed
    rw [same, recorded] at there
    cases there
  | some old =>
    have elsewhere : forall other pod, c.Lists other pod -> pod.uid = uid -> old = other := by
      intro other pod listed same
      have there := placed.located other pod listed
      rw [same, recorded] at there
      exact Option.some.inj there
    dsimp only
    split_ifs with moved
    · refine ⟨placed.removePodFrom, fun _ => removePodFrom_knows, fun other pod => ?_⟩
      rw [removePodFrom_lists placed]
      refine and_congr_right fun listed => ⟨fun apart _ same => ?_, fun apart here same => ?_⟩
      · exact apart (elsewhere other pod listed same).symm same
      · exact apart (fun back => moved (here.symm.trans back)) same
    · refine ⟨placed, fun _ => Iff.rfl, fun other pod => ⟨fun listed => ⟨listed, ?_⟩, fun h => h.1⟩⟩
      intro apart same
      exact apart ((elsewhere other pod listed same).symm.trans (not_not.mp moved))

theorem releaseMoved_get : (c.releaseMoved uid name).nodes.get name = c.nodes.get name := by
  unfold Cache.releaseMoved
  cases c.podLocations.get uid with
  | none => rfl
  | some old =>
    dsimp only
    split_ifs with moved
    · rw [removePodFrom_get, if_neg (Ne.symm moved)]
    · rfl

/-! ## The four deliveries -/

theorem Placed.addPod (placed : c.Placed) (bound : pod.nodeName = some name) :
    (c.addPod pod).Placed ∧ (forall other, (c.addPod pod).Knows other <-> c.Knows other) ∧
    forall other held, (c.addPod pod).Lists other held <->
      (other = name ∧ held = pod ∧ c.Knows name) ∨ (c.Lists other held ∧ held.uid ≠ pod.uid) := by
  rcases @Placed.releaseMoved P c name pod.uid placed with ⟨released, known, lists⟩
  unfold Cache.addPod
  rw [bound]
  dsimp only
  have bumped : (c.releaseMoved pod.uid name).bumped.nodes.get name = c.nodes.get name := releaseMoved_get
  rw [bumped]
  cases found : c.nodes.get name with
  | none =>
    refine ⟨⟨released.distinct, released.located⟩, known, fun other held => ?_⟩
    refine (lists other held).trans ⟨fun h => Or.inr ⟨h.1, ?_⟩, ?_⟩
    · apply h.2
      intro here
      rw [here] at h
      rcases h.1 with ⟨info, there, _⟩
      rw [found] at there
      cases there
    · rintro (⟨_, _, info, there⟩ | ⟨listed, apart⟩)
      · rw [found] at there
        cases there
      · exact ⟨listed, fun _ => apart⟩
  | some info =>
    have distinct := placed.distinct name info found
    have newPods := @NodeInfo.Distinct.addPod_pods info pod (c.releaseMoved pod.uid name).bumped.generation distinct
    have get : forall other, ({ (c.releaseMoved pod.uid name).bumped with
        podLocations := (c.releaseMoved pod.uid name).bumped.podLocations.insert pod.uid name }.store name
        (info.addPod pod (c.releaseMoved pod.uid name).bumped.generation)).nodes.get other =
        if other = name then some (info.addPod pod (c.releaseMoved pod.uid name).bumped.generation)
        else (c.releaseMoved pod.uid name).nodes.get other := fun other => SortedMap.get_insert
    have after : forall other held, ({ (c.releaseMoved pod.uid name).bumped with
        podLocations := (c.releaseMoved pod.uid name).bumped.podLocations.insert pod.uid name }.store name
        (info.addPod pod (c.releaseMoved pod.uid name).bumped.generation)).Lists other held <->
        (other = name ∧ held = pod ∧ c.Knows name) ∨ (c.Lists other held ∧ held.uid ≠ pod.uid) := by
      intro other held
      unfold Lists
      rw [get]
      split_ifs with here
      · subst here
        constructor
        · rintro ⟨_, same, listed⟩
          cases same
          rw [newPods] at listed
          rcases List.mem_append.mp listed with earlier | last
          · have parts := List.mem_filter.mp earlier
            exact Or.inr ⟨⟨info, found, parts.1⟩, of_decide_eq_true parts.2⟩
          · exact Or.inl ⟨rfl, List.mem_singleton.mp last, info, found⟩
        · rintro (⟨_, same, _⟩ | ⟨⟨old, there, listed⟩, apart⟩)
          · refine ⟨_, rfl, ?_⟩
            rw [newPods, same]
            exact List.mem_append_right _ (List.mem_singleton_self pod)
          · rw [found] at there
            cases there
            refine ⟨_, rfl, ?_⟩
            rw [newPods]
            exact List.mem_append_left _ (List.mem_filter.mpr ⟨listed, decide_eq_true apart⟩)
      · refine (lists other held).trans ⟨fun h => Or.inr ⟨h.1, h.2 here⟩, ?_⟩
        rintro (⟨same, _⟩ | ⟨listed, apart⟩)
        · exact absurd same here
        · exact ⟨listed, fun _ => apart⟩
    refine ⟨⟨?_, ?_⟩, ?_, after⟩
    · intro other held there
      rw [get] at there
      split_ifs at there with here
      · cases there
        exact distinct.addPod
      · exact released.distinct other held there
    · intro other held listed
      change ((c.releaseMoved pod.uid name).podLocations.insert pod.uid name).get held.uid = some other
      rw [SortedMap.get_insert]
      rcases (after other held).mp listed with ⟨here, same, _⟩ | ⟨before, apart⟩
      · rw [same, if_pos rfl, here]
      · rw [if_neg apart]
        have there : (c.releaseMoved pod.uid name).podLocations = c.podLocations := by
          unfold Cache.releaseMoved
          cases c.podLocations.get pod.uid with
          | none => rfl
          | some old =>
            dsimp only
            split_ifs
            · exact removePodFrom_locations
            · rfl
        rw [there]
        exact placed.located other held before
    · intro other
      unfold Knows
      rw [get]
      split_ifs with here
      · exact iff_of_true ⟨_, rfl⟩ (here ▸ ⟨info, found⟩)
      · exact known other

theorem Placed.removeNode (placed : c.Placed) : (c.removeNode name).Placed ∧
    (forall other, (c.removeNode name).Knows other <-> c.Knows other ∧ other ≠ name) ∧
    forall other pod, (c.removeNode name).Lists other pod <-> c.Lists other pod ∧ other ≠ name := by
  have lists : forall other pod, (c.removeNode name).Lists other pod <-> c.Lists other pod ∧ other ≠ name := by
    intro other pod
    unfold Lists
    rw [removeNode_get]
    split_ifs with here
    · exact iff_of_false (fun h => nomatch h.choose_spec.1) fun h => h.2 here
    · exact ⟨fun listed => ⟨listed, here⟩, fun h => h.1⟩
  refine ⟨⟨?_, ?_⟩, ?_, lists⟩
  · intro other info found
    rw [removeNode_get] at found
    split_ifs at found
    exact placed.distinct other info found
  · intro other pod listed
    have before := (lists other pod).mp listed
    have there := placed.located other pod before.1
    unfold Cache.removeNode
    cases found : c.nodes.get name with
    | none => exact there
    | some info =>
      have erased : (info.pods.foldl (fun locations (pod : PodInfo) => locations.erase pod.uid) c.podLocations).get
          pod.uid = if pod.uid ∈ info.pods.map PodInfo.uid then none else c.podLocations.get pod.uid :=
        look_foldl SortedMap.get (fun _ => none) fun _ _ _ _ => SortedMap.get_erase
      refine erased.trans ?_
      rw [if_neg, there]
      intro member
      rcases List.mem_map.mp member with ⟨held, inNode, same⟩
      have here := placed.located name held ⟨info, found, inNode⟩
      rw [same, there] at here
      exact before.2 (Option.some.inj here)
  · intro other
    unfold Knows
    rw [removeNode_get]
    split_ifs with here
    · exact iff_of_false (fun h => nomatch h.choose_spec) fun h => h.2 here
    · exact ⟨fun known => ⟨known, here⟩, fun h => h.1⟩

/-- The node's entry after an update. -/
def upserted (c : Cache P) (node : ApiNode) (preserve : Bool) (name : String) : NodeInfo :=
  { ((c.nodes.get name).getD .default).updateFromNode node (c.generation + 1) with
    apiObject := if preserve then some node else none }

theorem upsertNode_get {node : ApiNode} {preserve : Bool} (named : node.name = some name) {other : String} :
    (c.upsertNode node preserve).nodes.get other =
      if other = name then some (c.upserted node preserve name) else c.nodes.get other := by
  unfold Cache.upsertNode
  rw [named]
  exact SortedMap.get_insert

theorem upsertNode_locations {node : ApiNode} {preserve : Bool} :
    (c.upsertNode node preserve).podLocations = c.podLocations := by
  unfold Cache.upsertNode
  cases node.name <;> rfl

theorem Placed.upsertNode (placed : c.Placed) {node : ApiNode} {preserve : Bool} (named : node.name = some name) :
    (c.upsertNode node preserve).Placed ∧
    (forall other, (c.upsertNode node preserve).Knows other <-> other = name ∨ c.Knows other) ∧
    forall other pod, (c.upsertNode node preserve).Lists other pod <-> c.Lists other pod := by
  have pods : (c.upserted node preserve name).pods = ((c.nodes.get name).getD .default).pods :=
    NodeInfo.updateFromNode_spec.2.2.1
  have lists : forall other pod, (c.upsertNode node preserve).Lists other pod <-> c.Lists other pod := by
    intro other pod
    unfold Lists
    rw [upsertNode_get named]
    split_ifs with here
    · rw [here]
      cases found : c.nodes.get name with
      | none =>
        rw [found] at pods
        refine iff_of_false ?_ fun h => nomatch h.choose_spec.1
        rintro ⟨_, same, listed⟩
        cases same
        rw [pods] at listed
        exact List.not_mem_nil listed
      | some info =>
        rw [found] at pods
        constructor
        · rintro ⟨_, same, listed⟩
          cases same
          exact ⟨info, rfl, pods ▸ listed⟩
        · rintro ⟨_, same, listed⟩
          cases same
          refine ⟨_, rfl, ?_⟩
          rw [pods]
          exact listed
    · exact Iff.rfl
  refine ⟨⟨?_, ?_⟩, ?_, lists⟩
  · intro other info found
    rw [upsertNode_get named] at found
    split_ifs at found with here
    · cases found
      unfold NodeInfo.Distinct
      rw [pods]
      cases before : c.nodes.get name with
      | none => exact List.nodup_nil
      | some old => exact placed.distinct name old before
    · exact placed.distinct other info found
  · intro other pod listed
    rw [upsertNode_locations]
    exact placed.located other pod ((lists other pod).mp listed)
  · intro other
    unfold Knows
    rw [upsertNode_get named]
    split_ifs with here
    · exact iff_of_true ⟨_, rfl⟩ (Or.inl here)
    · exact ⟨Or.inr, fun known => known.resolve_left here⟩

/-! ## Any mutations -/

theorem Placed.mutate (placed : c.Placed) (m : Mutation P) : (c.mutate m).Placed := by
  cases m with
  | upsertNode node preserve =>
    cases named : node.name with
    | none =>
      have same : c.upsertNode node preserve = c := by
        unfold Cache.upsertNode
        rw [named]
      change (c.upsertNode node preserve).Placed
      rwa [same]
    | some name => exact (placed.upsertNode named).1
  | removeNode name => exact placed.removeNode.1
  | addPod pod =>
    cases bound : pod.nodeName with
    | none =>
      have same : c.addPod pod = c := by
        unfold Cache.addPod
        rw [bound]
      change (c.addPod pod).Placed
      rwa [same]
    | some name => exact (placed.addPod bound).1
  | removePod uid => exact placed.removePod.1
  | _ => exact ⟨placed.distinct, placed.located⟩

/-- Whatever the watches deliver and in whatever order, no pod is listed
twice, and a listed pod is recorded on the node that lists it. -/
theorem listed_once (mutations : List (Mutation P)) :
    AlongRun Cache.mutate (fun c => forall name info, c.nodes.get name = some info ->
        (info.pods.map PodInfo.uid).Nodup ∧ forall pod, pod ∈ info.pods -> c.podLocations.get pod.uid = some name ∧
          forall other pod', c.Lists other pod' -> pod'.uid = pod.uid -> other = name ∧ pod' = pod)
      .new mutations := by
  have along := @AlongRun.of_invariant _ _ Cache.mutate Placed (fun _ _ => True) (fun _ m placed _ => placed.mutate m) _ _
    Placed.new (EveryStep.unconditional (Cache.new : Cache P) mutations)
  refine along.mono fun c placed name info found => ⟨placed.distinct name info found, fun pod listed => ?_⟩
  have here := placed.located name pod ⟨info, found, listed⟩
  refine ⟨here, fun other pod' elsewhere same => ?_⟩
  have there := placed.located other pod' elsewhere
  rw [same, here] at there
  cases there
  rcases elsewhere with ⟨info', found', listed'⟩
  rw [found] at found'
  cases found'
  exact ⟨rfl, List.inj_on_of_nodup_map (placed.distinct name info found) listed' listed same⟩

end Cache
end NotK8s.Scheduler

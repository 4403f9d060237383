import NotK8s.Scheduler.Cache

namespace NotK8s.Scheduler

open Library

/-!
# The order of the cache

A refresh of a snapshot stops at the first name whose node its generation
covers, so it relies on the names being in the order of the generations.
Every mutation writes the node it moves to the front with the newest
generation, except one: taking a pod off a node that does not list it moves
the node and writes nothing.
-/

variable {P : Payloads}

/-- The list of names is in the order of the generations, newest first. -/
structure Cache.Ordered (c : Cache P) : Prop where
  listed : forall name, name ∈ c.mru <-> Exists fun info => c.nodes.get name = some info
  distinct : c.mru.Nodup
  descending : c.mru.Pairwise fun first second => forall info other,
    c.nodes.get first = some info -> c.nodes.get second = some other -> other.generation < info.generation
  bounded : forall name info, c.nodes.get name = some info -> 0 < info.generation ∧ info.generation ≤ c.generation
  named : forall name info, c.nodes.get name = some info -> info.name = name

/-- Nothing is written without a newer generation. -/
structure Cache.Grown (before after : Cache P) : Prop where
  later : before.generation ≤ after.generation
  kept : forall name info, after.nodes.get name = some info -> info.generation ≤ before.generation ->
    before.nodes.get name = some info

namespace Cache

variable {c c' : Cache P} {name uid : String} {info : NodeInfo}

theorem Grown.refl : Grown c c :=
  ⟨le_refl _, fun _ _ found _ => found⟩

theorem Grown.trans {c'' : Cache P} (first : Grown c c') (second : Grown c' c'') : Grown c c'' :=
  ⟨le_trans first.later second.later, fun name info found old =>
    first.kept name info (second.kept name info found (le_trans old first.later)) old⟩

theorem Ordered.new : Ordered (Cache.new : Cache P) where
  listed _ := iff_of_false List.not_mem_nil fun ⟨_, found⟩ => nomatch found
  distinct := List.nodup_nil
  descending := List.Pairwise.nil
  bounded _ _ found := nomatch found
  named _ _ found := nomatch found

/-- The nodes and the list are the same, and the generation is not lower. -/
theorem Ordered.of_same (ordered : Ordered c) (nodes : c'.nodes = c.nodes) (mru : c'.mru = c.mru)
    (later : c.generation ≤ c'.generation) : Ordered c' where
  listed := by
    rw [nodes, mru]
    exact ordered.listed
  distinct := by
    rw [mru]
    exact ordered.distinct
  descending := by
    rw [nodes, mru]
    exact ordered.descending
  bounded := by
    rw [nodes]
    exact fun name info found =>
      ⟨(ordered.bounded name info found).1, le_trans (ordered.bounded name info found).2 later⟩
  named := by
    rw [nodes]
    exact ordered.named

theorem Grown.of_same (nodes : c'.nodes = c.nodes) (later : c.generation ≤ c'.generation) : Grown c c' :=
  ⟨later, fun _ _ found _ => nodes ▸ found⟩

theorem store_nodes_get {other : String} :
    (c.store name info).nodes.get other = if other = name then some info else c.nodes.get other :=
  SortedMap.get_insert

/-- A node written with a generation past every other goes to the front. -/
theorem Ordered.store (ordered : Ordered c) (newest : c.generation < info.generation)
    (current : info.generation = c'.generation) (nodes : c'.nodes = c.nodes) (mru : c'.mru = c.mru)
    (here : info.name = name) : Ordered (c'.store name info) := by
  have front : (c'.store name info).mru = name :: c.mru.erase name := by
    rw [← mru]
    rfl
  have found : forall other, (c'.store name info).nodes.get other =
      if other = name then some info else c.nodes.get other := by
    intro other
    rw [store_nodes_get, nodes]
  constructor
  · intro other
    rw [front, found, List.mem_cons]
    split_ifs with same
    · exact iff_of_true (Or.inl same) ⟨info, rfl⟩
    · rw [← ordered.listed, or_iff_right same, ordered.distinct.mem_erase_iff, and_iff_right same]
  · rw [front]
    exact List.nodup_cons.mpr ⟨ordered.distinct.not_mem_erase, ordered.distinct.erase name⟩
  · rw [front, List.pairwise_cons]
    constructor
    · intro second inRest x y atFirst atSecond
      have different := (ordered.distinct.mem_erase_iff.mp inRest).1
      rw [found, if_pos rfl] at atFirst
      rw [found, if_neg different] at atSecond
      cases atFirst
      exact lt_of_le_of_lt (ordered.bounded second y atSecond).2 newest
    · have kept := ordered.descending.sublist (@List.erase_sublist _ _ name c.mru)
      apply List.Pairwise.imp_of_mem _ kept
      intro first second inFirst inSecond relation x y atFirst atSecond
      rw [found, if_neg (ordered.distinct.mem_erase_iff.mp inFirst).1] at atFirst
      rw [found, if_neg (ordered.distinct.mem_erase_iff.mp inSecond).1] at atSecond
      exact relation x y atFirst atSecond
  · intro other x atOther
    change 0 < x.generation ∧ x.generation ≤ c'.generation
    rw [found] at atOther
    split_ifs at atOther with same
    · cases atOther
      omega
    · have bounds := ordered.bounded other x atOther
      omega
  · intro other x atOther
    rw [found] at atOther
    split_ifs at atOther with same
    · cases atOther
      rw [here, same]
    · exact ordered.named other x atOther

theorem Grown.store (newest : c.generation < info.generation) (current : info.generation = c'.generation)
    (nodes : c'.nodes = c.nodes) : Grown c (c'.store name info) := by
  constructor
  · change c.generation ≤ c'.generation
    omega
  · intro other x atOther old
    rw [store_nodes_get, nodes] at atOther
    split_ifs at atOther with same
    · cases atOther
      omega
    · exact atOther

/-- What a mutation that is not a slip does to the nodes. -/
structure Advances (before after : Cache P) : Prop where
  ordered : Ordered after
  grown : Grown before after
  moved : after = before ∨ before.generation < after.generation

theorem Advances.same (ordered : Ordered c) : Advances c c :=
  ⟨ordered, Grown.refl, Or.inl rfl⟩

theorem Advances.of_same (ordered : Ordered c) (nodes : c'.nodes = c.nodes) (mru : c'.mru = c.mru)
    (later : c.generation < c'.generation) : Advances c c' :=
  ⟨ordered.of_same nodes mru later.le, Grown.of_same nodes later.le, Or.inr later⟩

theorem Advances.store (ordered : Ordered c) (newest : c.generation < info.generation)
    (current : info.generation = c'.generation) (nodes : c'.nodes = c.nodes) (mru : c'.mru = c.mru)
    (here : info.name = name) : Advances c (c'.store name info) :=
  ⟨ordered.store newest current nodes mru here, Grown.store newest current nodes,
    Or.inr (current ▸ newest)⟩

theorem Advances.trans {c'' : Cache P} (first : Advances c c') (second : Advances c' c'') : Advances c c'' := by
  refine ⟨second.ordered, first.grown.trans second.grown, ?_⟩
  rcases first.moved with same | less
  · rw [← same]
    exact second.moved
  · right
    exact lt_of_lt_of_le less second.grown.later

theorem Advances.upsertNode (ordered : Ordered c) (node : ApiNode) (preserve : Bool) :
    Advances c (c.upsertNode node preserve) := by
  unfold Cache.upsertNode
  cases known : node.name with
  | none => exact Advances.same ordered
  | some name =>
    have spec := @NodeInfo.updateFromNode_spec ((c.bumped.nodes.get name).getD .default) node c.bumped.generation
    have current : (((c.bumped.nodes.get name).getD .default).updateFromNode node c.bumped.generation).generation =
        c.generation + 1 := spec.2.1
    refine Advances.store ordered ?_ ?_ rfl rfl ?_
    · exact lt_of_lt_of_eq (Nat.lt_succ_self _) current.symm
    · exact current
    · refine spec.1.trans ?_
      rw [known]
      rfl

theorem removeNode_mru : (c.removeNode name).mru = c.mru.filter fun held => held ≠ name := by
  unfold Cache.removeNode
  cases c.nodes.get name <;> rfl

theorem removeNode_generation : (c.removeNode name).generation = c.generation + 1 := by
  unfold Cache.removeNode
  cases c.nodes.get name <;> rfl

section

variable (ordered : Ordered c)
include ordered

theorem Advances.removeNode : Advances c (c.removeNode name) := by
  have found : forall other x, (c.removeNode name).nodes.get other = some x ->
      other ≠ name ∧ c.nodes.get other = some x := by
    intro other x atOther
    rw [removeNode_get] at atOther
    split_ifs at atOther with same
    exact ⟨same, atOther⟩
  have newer : c.generation ≤ (c.removeNode name).generation := by
    rw [removeNode_generation]
    exact Nat.le_succ _
  refine ⟨⟨?_, ?_, ?_, ?_, ?_⟩, ⟨newer, fun other x atOther _ => (found other x atOther).2⟩, ?_⟩
  · intro other
    rw [removeNode_mru, List.mem_filter, ordered.listed, removeNode_get]
    split_ifs with same <;> simp [same]
  · rw [removeNode_mru]
    exact ordered.distinct.filter _
  · rw [removeNode_mru]
    apply (ordered.descending.filter _).imp
    intro first second relation x y atFirst atSecond
    exact relation x y (found first x atFirst).2 (found second y atSecond).2
  · intro other x atOther
    have bounds := ordered.bounded other x (found other x atOther).2
    exact ⟨bounds.1, le_trans bounds.2 newer⟩
  · exact fun other x atOther => ordered.named other x (found other x atOther).2
  · right
    rw [removeNode_generation]
    exact Nat.lt_succ_self _

/-- The node the pod is recorded on, if the cache has it, lists the pod. -/
def Recorded (c : Cache P) (uid : String) : Prop :=
  forall name info, c.podLocations.get uid = some name -> c.nodes.get name = some info ->
    Exists fun pod => pod ∈ info.pods ∧ pod.uid = uid

instance : Decidable (Recorded c uid) :=
  decidable_of_iff (forall name, name ∈ c.podLocations.get uid -> forall info, info ∈ c.nodes.get name ->
      Exists fun pod => pod ∈ info.pods ∧ pod.uid = uid)
    ⟨fun held name info located found => held name located info found,
      fun held name located info found => held name info located found⟩

theorem Advances.removePodFrom (nodes : c'.nodes = c.nodes) (mru : c'.mru = c.mru)
    (same : c'.generation = c.generation)
    (present : forall info, c.nodes.get name = some info -> Exists fun pod => pod ∈ info.pods ∧ pod.uid = uid) :
    Advances c (c'.removePodFrom name uid) := by
  unfold Cache.removePodFrom
  have bumped : c'.bumped.nodes.get name = c.nodes.get name := congrArg (fun held => held.get name) nodes
  have newest : c'.bumped.generation = c.generation + 1 := congrArg (· + 1) same
  dsimp only
  rw [bumped]
  cases found : c.nodes.get name with
  | none =>
    refine Advances.of_same ordered nodes mru ?_
    rw [newest]
    exact Nat.lt_succ_self _
  | some info =>
    have current := @NodeInfo.removePod_generation info uid c'.bumped.generation (present info found)
    refine Advances.store ordered ?_ current nodes mru ?_
    · rw [current, newest]
      exact Nat.lt_succ_self _
    · rw [NodeInfo.removePod_name]
      exact ordered.named name info found

theorem Advances.removePod (recorded : Recorded c uid) : Advances c (c.removePod uid) := by
  unfold Cache.removePod
  cases located : c.podLocations.get uid with
  | none => exact Advances.same ordered
  | some name => exact Advances.removePodFrom ordered rfl rfl rfl fun info found => recorded name info located found

theorem Advances.releaseMoved
    (recorded : c.podLocations.get uid ≠ some name -> Recorded c uid) : Advances c (c.releaseMoved uid name) := by
  unfold Cache.releaseMoved
  cases located : c.podLocations.get uid with
  | none => exact Advances.same ordered
  | some old =>
    dsimp only
    split_ifs with moved
    · exact Advances.removePodFrom ordered rfl rfl rfl fun info found =>
        recorded (fun same => moved (Option.some.inj (located.symm.trans same))) old info located found
    · exact Advances.same ordered

theorem Advances.addPod {pod : PodInfo}
    (recorded : pod.nodeName ≠ none -> c.podLocations.get pod.uid ≠ pod.nodeName -> Recorded c pod.uid) :
    Advances c (c.addPod pod) := by
  unfold Cache.addPod
  cases placed : pod.nodeName with
  | none => exact Advances.same ordered
  | some name =>
    have released : Advances c (c.releaseMoved pod.uid name) := by
      apply Advances.releaseMoved ordered
      rw [placed] at recorded
      exact recorded (Option.some_ne_none name)
    refine released.trans ?_
    dsimp only
    rw [bumped]
    cases found : (c.releaseMoved pod.uid name).nodes.get name with
    | none => exact Advances.of_same released.ordered rfl rfl (Nat.lt_succ_self _)
    | some info =>
      refine Advances.store released.ordered (Nat.lt_succ_self _) rfl rfl rfl ?_
      rw [NodeInfo.addPod_name]
      exact released.ordered.named name info found

/-- The mutation takes no pod off a node that does not list it. -/
def Steady (c : Cache P) : Mutation P -> Prop
  | .removePod uid => Recorded c uid
  | .addPod pod => pod.nodeName ≠ none -> c.podLocations.get pod.uid ≠ pod.nodeName -> Recorded c pod.uid
  | _ => True

instance : forall m : Mutation P, Decidable (Steady c m)
  | .removePod uid => inferInstanceAs (Decidable (Recorded c uid))
  | .addPod _ => inferInstanceAs (Decidable (_ -> _ -> _))
  | .upsertNode _ _ | .removeNode _ | .upsertObject _ _ _ | .removeObject _ _ | .upsertWorkload _ _
  | .removeWorkload _ | .setStorageCapacities _ => isTrue True.intro

theorem Advances.mutate {m : Mutation P} (steady : Steady c m) : Advances c (c.mutate m) := by
  cases m with
  | upsertNode node preserve => exact Advances.upsertNode ordered node preserve
  | removeNode name => exact Advances.removeNode ordered
  | addPod pod => exact Advances.addPod ordered steady
  | removePod uid => exact Advances.removePod ordered steady
  | upsertObject kind key object | removeWorkload key => exact Advances.of_same ordered rfl rfl (Nat.lt_succ_self _)
  | removeObject kind key | upsertWorkload key workload => exact Advances.of_same ordered rfl rfl (Nat.lt_succ_self _)
  | setStorageCapacities capacities => exact Advances.of_same ordered rfl rfl (Nat.lt_succ_self _)

end

end Cache
end NotK8s.Scheduler

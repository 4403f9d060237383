import NotK8s.Library.Run
import NotK8s.Scheduler.CacheOrder
import NotK8s.Scheduler.Snapshot

namespace NotK8s.Scheduler

open Library

/-!
# Refreshing a snapshot

A snapshot in use is the view of some earlier state of the cache.  As long as
the cache keeps its order, a refresh finds every node that was written since,
and the parts it does not compute again are the ones that did not change.
-/

variable {P : Payloads}

/-- What every snapshot of a cache should be. -/
def Cache.view (c : Cache P) : Snapshot P where
  nodes := zoneRoundRobin c.nodes
  nodePositions := positionsOf (zoneRoundRobin c.nodes)
  byName := c.nodes
  nodesWithPodsWithAffinity := (zoneRoundRobin c.nodes).filter fun node => !node.podsWithAffinity.isEmpty
  nodesWithPodsWithRequiredAntiAffinity :=
    (zoneRoundRobin c.nodes).filter fun node => !node.podsWithRequiredAntiAffinity.isEmpty
  imageNodeCounts := c.imageNodeCounts
  generation := c.generation
  objects := c.objects
  workloadSelectors := c.workloadSelectors.entries.map Prod.snd
  storageCapacities := c.storageCapacities

theorem Cache.Ordered.mem_changedNodes {c : Cache P} (ordered : c.Ordered) {generation : Nat} {info : NodeInfo} :
    info ∈ changedNodes c.nodes generation c.mru <->
      c.nodes.get info.name = some info ∧ generation < info.generation := by
  have general : forall names : List String,
      (names.Pairwise fun first second => forall x y, c.nodes.get first = some x ->
        c.nodes.get second = some y -> y.generation < x.generation) ->
      (info ∈ changedNodes c.nodes generation names <->
        info.name ∈ names ∧ c.nodes.get info.name = some info ∧ generation < info.generation) := by
    intro names
    induction names with
    | nil => exact fun _ => iff_of_false List.not_mem_nil fun h => List.not_mem_nil h.1
    | cons name rest ih =>
      intro descending
      have parts := List.pairwise_cons.mp descending
      unfold changedNodes
      cases found : c.nodes.get name with
      | none =>
        rw [ih parts.2, List.mem_cons]
        constructor
        · rintro ⟨inRest, held⟩
          exact ⟨Or.inr inRest, held⟩
        · rintro ⟨same | inRest, held⟩
          · rw [same, found] at held
            cases held.1
          · exact ⟨inRest, held⟩
      | some head =>
        have headName := ordered.named name head found
        dsimp only
        split_ifs with covered
        · apply iff_of_false List.not_mem_nil
          rintro ⟨member, held, newer⟩
          rcases List.mem_cons.mp member with same | inRest
          · rw [same, found] at held
            cases held
            exact absurd newer (not_lt.mpr covered)
          · exact absurd newer (not_lt.mpr (le_trans (parts.1 _ inRest head info found held).le covered))
        · rw [List.mem_cons, ih parts.2, List.mem_cons]
          constructor
          · rintro (same | ⟨inRest, held⟩)
            · rw [same, headName]
              exact ⟨Or.inl rfl, found, not_le.mp covered⟩
            · exact ⟨Or.inr inRest, held⟩
          · rintro ⟨same | inRest, held⟩
            · rw [same, found] at held
              exact Or.inl (Option.some.inj held.1).symm
            · exact Or.inr ⟨inRest, held⟩
  rw [general c.mru ordered.descending]
  exact ⟨fun h => h.2, fun h => ⟨(ordered.listed _).mpr ⟨info, h.1⟩, h⟩⟩

/-- Nodes written one after another, each of them what the table has under
its name. -/
theorem get_foldl_insert {table base : SortedMap String NodeInfo} {changed : List NodeInfo} {name : String}
    (current : forall node, node ∈ changed -> table.get node.name = some node) :
    (changed.foldl (fun held node => held.insert node.name node) base).get name =
      if name ∈ changed.map NodeInfo.name then table.get name else base.get name := by
  refine look_foldl SortedMap.get table.get fun node listed held name => ?_
  rw [SortedMap.get_insert]
  split_ifs with same
  · rw [same, current node listed]
  · rfl

theorem latest_eq {table : SortedMap String NodeInfo} {changed : List NodeInfo} {old : NodeInfo}
    (current : forall node, node ∈ changed -> table.get node.name = some node) :
    some (latest changed old) = if old.name ∈ changed.map NodeInfo.name then table.get old.name else some old := by
  induction changed generalizing old with
  | nil => exact (if_neg List.not_mem_nil).symm
  | cons node rest ih =>
    have step : latest (node :: rest) old = latest rest (if node.name = old.name then node else old) := rfl
    have later := fun other listed => current other (List.mem_cons_of_mem node listed)
    rw [step, ih later, List.map_cons]
    by_cases same : node.name = old.name
    · have found := current node (.head _)
      rw [if_pos same, if_pos (List.mem_cons.mpr (Or.inl same.symm)), ← same]
      split_ifs
      · rfl
      · exact found.symm
    · rw [if_neg same]
      by_cases inRest : old.name ∈ rest.map NodeInfo.name
      · rw [if_pos inRest, if_pos (List.mem_cons_of_mem _ inRest)]
      · rw [if_neg inRest, if_neg (fun listed => (List.mem_cons.mp listed).elim (Ne.symm same) inRest)]

/-- The snapshot is right about everything its generation covers. -/
structure Synced (c : Cache P) (s : Snapshot P) : Prop where
  behind : s.generation ≤ c.generation
  known : forall name info, c.nodes.get name = some info -> info.generation ≤ s.generation ->
    s.byName.get name = some info
  whole : s.generation = c.generation -> s = c.view
  order : s.nodes = zoneRoundRobin s.byName
  positions : s.nodePositions = positionsOf s.nodes
  named : forall name info, s.byName.get name = some info -> info.name = name

section
variable {c : Cache P} {s : Snapshot P}

theorem Synced.view (ordered : c.Ordered) : Synced c c.view where
  behind := le_refl _
  known _ _ found _ := found
  whole _ := rfl
  order := rfl
  positions := rfl
  named := ordered.named

theorem Synced.new : Synced (.new : Cache P) .default where
  behind := le_refl _
  known _ _ found _ := found
  whole _ := rfl
  order := rfl
  positions := rfl
  named _ _ found := nomatch found

/-- A snapshot stays right about what it covers while the cache moves on. -/
theorem Synced.advance (synced : Synced c s) {c' : Cache P} (advances : Cache.Advances c c') : Synced c' s := by
  rcases advances.moved with same | later
  · rw [same]
    exact synced
  · refine ⟨le_trans synced.behind later.le, ?_, ?_, synced.order, synced.positions, synced.named⟩
    · intro name info found old
      exact synced.known name info (advances.grown.kept name info found (le_trans old synced.behind)) old
    · intro same
      have behind := synced.behind
      omega

theorem Synced.refreshed_byName (synced : Synced c s) (ordered : c.Ordered) :
    let refreshed := (changedNodes c.nodes s.generation c.mru).foldl
      (fun held node => held.insert node.name node) s.byName
    (if (s.byName.entries.any fun entry => (c.nodes.get entry.1).isNone) = true then
        refreshed.filter fun name _ => (c.nodes.get name).isSome
      else refreshed) = c.nodes := by
  intro refreshed
  have read : forall name, refreshed.get name =
      if name ∈ (changedNodes c.nodes s.generation c.mru).map NodeInfo.name then c.nodes.get name
      else s.byName.get name :=
    fun name => get_foldl_insert fun node listed => (ordered.mem_changedNodes.mp listed).1
  have present : forall name info, c.nodes.get name = some info -> refreshed.get name = some info := by
    intro name info found
    rw [read]
    split_ifs with listed
    · exact found
    · apply synced.known name info found
      by_contra newer
      apply listed
      have here := ordered.named name info found
      refine List.mem_map.mpr ⟨info, ordered.mem_changedNodes.mpr ⟨?_, not_le.mp newer⟩, here⟩
      rw [here, found]
  have gone : forall name, c.nodes.get name = none -> refreshed.get name = s.byName.get name := by
    intro name missing
    rw [read]
    split_ifs with listed
    · rcases List.mem_map.mp listed with ⟨info, changed, here⟩
      rw [← here, (ordered.mem_changedNodes.mp changed).1] at missing
      cases missing
    · rfl
  apply SortedMap.ext_get
  intro name
  split_ifs with dropped
  · rw [SortedMap.get_filter]
    cases found : c.nodes.get name with
    | some info =>
      rw [present name info found]
      exact Option.filter_some_pos rfl
    | none =>
      cases refreshed.get name <;> rfl
  · cases found : c.nodes.get name with
    | some info => exact present name info found
    | none =>
      rw [gone name found]
      cases held : s.byName.get name with
      | none => rfl
      | some info =>
        have lost : (s.byName.entries.any fun entry => (c.nodes.get entry.1).isNone) = true :=
          List.any_eq_true.mpr ⟨(name, info), SortedMap.mem_entries.mpr held, by rw [found]; rfl⟩
        exact absurd lost dropped

theorem Synced.patched_nodes (synced : Synced c s) (ordered : c.Ordered)
    (kept : forall name info, s.byName.get name = some info -> Exists fun new => c.nodes.get name = some new)
    (stayed : forall node, node ∈ changedNodes c.nodes s.generation c.mru ->
      Exists fun previous => s.byName.get node.name = some previous ∧ previous.zone = node.zone) :
    patchNodes s.nodePositions (changedNodes c.nodes s.generation c.mru) s.nodes = zoneRoundRobin c.nodes ∧
      positionsOf (zoneRoundRobin c.nodes) = s.nodePositions := by
  have current : forall node, node ∈ changedNodes c.nodes s.generation c.mru -> c.nodes.get node.name = some node :=
    fun node listed => (ordered.mem_changedNodes.mp listed).1
  have names : ((zoneRoundRobin s.byName).map NodeInfo.name).Nodup := zoneRoundRobin_names synced.named
  -- every node of the snapshot is replaced by what the cache has under its name
  have replaced : forall name old, s.byName.get name = some old ->
      c.nodes.get name = some (latest (changedNodes c.nodes s.generation c.mru) old) := by
    intro name old held
    have here := synced.named name old held
    rw [latest_eq current, here]
    split_ifs with listed
    · rfl
    · rcases kept name old held with ⟨new, found⟩
      have newName := ordered.named name new found
      have covered : new.generation ≤ s.generation := by
        by_contra newer
        apply listed
        refine List.mem_map.mpr ⟨new, ordered.mem_changedNodes.mpr ⟨?_, not_le.mp newer⟩, newName⟩
        rw [newName, found]
      rw [found, ← held, synced.known name new found covered]
  have mapped : s.byName.mapValues (latest (changedNodes c.nodes s.generation c.mru)) = c.nodes := by
    apply SortedMap.ext_get
    intro name
    rw [SortedMap.get_mapValues]
    cases held : s.byName.get name with
    | some old => exact (replaced name old held).symm
    | none =>
      cases found : c.nodes.get name with
      | none => rfl
      | some info =>
        by_cases newer : s.generation < info.generation
        · have here := ordered.named name info found
          have listed := ordered.mem_changedNodes.mpr ⟨by rw [here, found], newer⟩
          rcases stayed info listed with ⟨previous, there, _⟩
          rw [here, held] at there
          cases there
        · rw [synced.known name info found (not_lt.mp newer)] at held
          cases held
  have zoneKept : forall name old, s.byName.get name = some old ->
      (latest (changedNodes c.nodes s.generation c.mru) old).zone = old.zone := by
    intro name old held
    have found := replaced name old held
    by_cases newer : s.generation < (latest (changedNodes c.nodes s.generation c.mru) old).generation
    · have here := ordered.named name _ found
      have listed := ordered.mem_changedNodes.mpr ⟨by rw [here, found], newer⟩
      rcases stayed _ listed with ⟨previous, there, same⟩
      rw [here, held] at there
      cases there
      exact same.symm
    · have known := synced.known name _ found (not_lt.mp newer)
      rw [held] at known
      exact congrArg NodeInfo.zone (Option.some.inj known).symm
  have order : zoneRoundRobin c.nodes =
      (zoneRoundRobin s.byName).map (latest (changedNodes c.nodes s.generation c.mru)) := by
    rw [← zoneRoundRobin_mapValues zoneKept, mapped]
  have sameNames : (zoneRoundRobin c.nodes).map NodeInfo.name = (zoneRoundRobin s.byName).map NodeInfo.name := by
    rw [order, List.map_map]
    exact List.map_congr_left fun old _ => latest_name
  constructor
  · rw [synced.positions, synced.order, patchNodes_eq names rfl, order]
  · rw [synced.positions, synced.order]
    exact positionsOf_congr sameNames

theorem Synced.updateSnapshot (synced : Synced c s) (ordered : c.Ordered) : c.updateSnapshot s = c.view := by
  have names := synced.refreshed_byName ordered
  unfold Cache.updateSnapshot
  dsimp only at names ⊢
  by_cases settled : ((changedNodes c.nodes s.generation c.mru).isEmpty &&
      !(s.byName.entries.any fun entry => (c.nodes.get entry.1).isNone) && s.generation == c.generation) = true
  · rw [if_pos settled]
    rw [Bool.and_eq_true, Bool.and_eq_true] at settled
    exact synced.whole (beq_iff_eq.mp settled.2)
  · rw [if_neg settled, names]
    generalize reordered : ((s.byName.entries.any fun entry => (c.nodes.get entry.1).isNone) ||
      (changedNodes c.nodes s.generation c.mru).any _) = reorder
    cases reorder with
    | true => rfl
    | false =>
      rw [Bool.or_eq_false_iff] at reordered
      have kept : forall name info, s.byName.get name = some info ->
          Exists fun new => c.nodes.get name = some new := by
        intro name info held
        have found := List.any_eq_false.mp reordered.1 (name, info) (SortedMap.mem_entries.mpr held)
        rw [Bool.not_eq_true, Option.isNone_eq_false_iff] at found
        exact Option.isSome_iff_exists.mp found
      have stayed : forall node, node ∈ changedNodes c.nodes s.generation c.mru ->
          Exists fun previous => s.byName.get node.name = some previous ∧ previous.zone = node.zone := by
        intro node listed
        have same := List.any_eq_false.mp reordered.2 node listed
        cases held : s.byName.get node.name with
        | none =>
          rw [held] at same
          exact absurd rfl same
        | some previous =>
          rw [held] at same
          have labels : previous.labels.get "topology.kubernetes.io/zone" =
              node.labels.get "topology.kubernetes.io/zone" := by simpa using same
          exact ⟨previous, rfl, congrArg (Option.getD · "") labels⟩
      have patched := synced.patched_nodes ordered kept stayed
      simp only [Bool.false_eq_true, if_false]
      rw [patched.1]
      unfold Cache.view
      rw [patched.2]

end

/-! ## Runs -/

/-- The cache and the one snapshot that the scheduling loop keeps. -/
structure Refreshing (P : Payloads) where
  cache : Cache P
  snapshot : Snapshot P

inductive Call (P : Payloads) where
  | mutate (m : Mutation P)
  | updateSnapshot

namespace Refreshing

def start : Refreshing P where
  cache := .new
  snapshot := .default

def step (state : Refreshing P) : Call P -> Refreshing P
  | .mutate m => { state with cache := state.cache.mutate m }
  | .updateSnapshot => { state with snapshot := state.cache.updateSnapshot state.snapshot }

/-- A call takes no pod off a node that does not list it. -/
def Steady (state : Refreshing P) : Call P -> Prop
  | .mutate m => state.cache.Steady m
  | .updateSnapshot => True

instance (state : Refreshing P) : forall call : Call P, Decidable (Steady state call)
  | .mutate m => inferInstanceAs (Decidable (state.cache.Steady m))
  | .updateSnapshot => isTrue True.intro

/-- What every call that is not a slip keeps. -/
structure Good (state : Refreshing P) : Prop where
  ordered : state.cache.Ordered
  synced : Synced state.cache state.snapshot
  fresh : Synced state.cache .default

theorem Good.step {state : Refreshing P} {call : Call P} (good : Good state) (steady : Steady state call) :
    Good (state.step call) := by
  cases call with
  | mutate m =>
    have advances := Cache.Advances.mutate good.ordered steady
    exact ⟨advances.ordered, good.synced.advance advances, good.fresh.advance advances⟩
  | updateSnapshot =>
    refine ⟨good.ordered, ?_, good.fresh⟩
    change Synced state.cache (state.cache.updateSnapshot state.snapshot)
    rw [good.synced.updateSnapshot good.ordered]
    exact Synced.view good.ordered

/-- In every run whose calls take no pod off a node that does not list it,
each refresh gives what a fresh snapshot gives. -/
theorem updateSnapshot_eq_snapshot (calls : List (Call P)) (steady : EveryStep step Steady start calls) :
    (run step start (calls ++ [.updateSnapshot])).snapshot =
      (run step start (calls ++ [.updateSnapshot])).cache.snapshot := by
  have initial : Good (start : Refreshing P) := ⟨Cache.Ordered.new, Synced.new, Synced.new⟩
  have good := (AlongRun.of_invariant (fun _ _ good steady => good.step steady) initial steady).finish
  rw [run_concat]
  change (run step start calls).cache.updateSnapshot (run step start calls).snapshot = _
  rw [good.synced.updateSnapshot good.ordered]
  exact (good.fresh.updateSnapshot good.ordered).symm

section
variable (P)

private def worker (name : String) (unschedulable : Bool) : Call P :=
  .mutate (.upsertNode ⟨some name, .empty, [], unschedulable, none⟩ false)

private def placed (nodeName : String) : Call P :=
  .mutate (.addPod ⟨"default", "web", "u", some nodeName, "default-scheduler", 0, none, [], [], .zero, none,
    false, 0, 0⟩)

end

/-- A pod comes and goes between two refreshes. -/
theorem updateSnapshot_eq_snapshot_placed :
    let calls : List (Call ⟨fun _ => Unit, Unit, Unit⟩) :=
      [worker _ "a" false, .updateSnapshot, placed _ "a", .mutate (.removePod "u")]
    (run step start (calls ++ [.updateSnapshot])).snapshot =
      (run step start (calls ++ [.updateSnapshot])).cache.snapshot :=
  updateSnapshot_eq_snapshot _ (by decide)

/-- A pod that was taken off its node because it is bound to a node the cache
does not know is still recorded there.  Removing it moves that node to the
front as it is, and the refresh stops before the node that was cordoned. -/
theorem updateSnapshot_misses_cordon : Exists fun calls : List (Call ⟨fun _ => Unit, Unit, Unit⟩) =>
    (run step start (calls ++ [.updateSnapshot])).snapshot ≠
      (run step start (calls ++ [.updateSnapshot])).cache.snapshot := by
  refine ⟨[worker _ "a" false, worker _ "b" false, placed _ "a", placed _ "unknown", .updateSnapshot,
    worker _ "b" true, .mutate (.removePod "u")], fun same => ?_⟩
  have cordoned := congrArg (fun s => (s.byName.get "b").map NodeInfo.unschedulable) same
  revert cordoned
  decide

end Refreshing
end NotK8s.Scheduler

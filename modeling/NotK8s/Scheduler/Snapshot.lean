import NotK8s.Library.RoundRobin
import NotK8s.Scheduler.Cache

namespace NotK8s.Scheduler

open Library

/-!
# The snapshot of a scheduling cycle

A cycle reads a snapshot that is refreshed in place.  Only nodes whose
generation is past the snapshot's are copied, and the order of the nodes is
computed again only when a node came or went or changed its zone.
-/

structure Snapshot (P : Payloads) where
  nodes : List NodeInfo
  /-- Where each node is in `nodes`. -/
  nodePositions : SortedMap String Nat
  byName : SortedMap String NodeInfo
  nodesWithPodsWithAffinity : List NodeInfo
  nodesWithPodsWithRequiredAntiAffinity : List NodeInfo
  imageNodeCounts : SortedMap String Int
  generation : Nat
  objects : (kind : ObjectKind) -> SortedMap String (P.object kind)
  workloadSelectors : List P.workload
  storageCapacities : List P.storageCapacity

variable {P : Payloads}

def Snapshot.default : Snapshot P where
  nodes := []
  nodePositions := .empty
  byName := .empty
  nodesWithPodsWithAffinity := []
  nodesWithPodsWithRequiredAntiAffinity := []
  imageNodeCounts := .empty
  generation := 0
  objects _ := .empty
  workloadSelectors := []
  storageCapacities := []

def NodeInfo.zone (info : NodeInfo) : String :=
  (info.labels.get "topology.kubernetes.io/zone").getD ""

/-- The nodes of each zone, in the order of their names. -/
def zones (byName : SortedMap String NodeInfo) : SortedMap String (List NodeInfo) :=
  byName.entries.foldl (fun held entry =>
    held.insert entry.2.zone ((held.get entry.2.zone).getD [] ++ [entry.2])) .empty

/-- Consecutive nodes come from different zones. -/
def zoneRoundRobin (byName : SortedMap String NodeInfo) : List NodeInfo :=
  takeTurns ((zones byName).entries.map Prod.snd) byName.entries.length byName.entries.length 0 []

def positionsOf (nodes : List NodeInfo) : SortedMap String Nat :=
  .ofList (nodes.zipIdx.map fun entry => (entry.1.name, entry.2))

/-- The nodes at the head of the list that the generation does not cover. -/
def changedNodes (nodes : SortedMap String NodeInfo) (generation : Nat) : List String -> List NodeInfo
  | [] => []
  | name :: rest =>
    match nodes.get name with
    | none => changedNodes nodes generation rest
    | some node => if node.generation ≤ generation then [] else node :: changedNodes nodes generation rest

/-- Puts the changed nodes where their old versions are. -/
def patchNodes (positions : SortedMap String Nat) (changed nodes : List NodeInfo) : List NodeInfo :=
  changed.foldl (fun held node =>
    match positions.get node.name with
    | none => held
    | some i => held.set i node) nodes

namespace Cache

def updateSnapshot (c : Cache P) (s : Snapshot P) : Snapshot P :=
  let changed := changedNodes c.nodes s.generation c.mru
  let droppedAny := s.byName.entries.any fun entry => (c.nodes.get entry.1).isNone
  if changed.isEmpty && !droppedAny && s.generation == c.generation then s
  else
    let zoneLabel := "topology.kubernetes.io/zone"
    let reorderNeeded := droppedAny || changed.any fun node =>
      match s.byName.get node.name with
      | none => true
      | some previous => previous.labels.get zoneLabel != node.labels.get zoneLabel
    let refreshed := changed.foldl (fun held node => held.insert node.name node) s.byName
    let byName := if droppedAny then refreshed.filter fun name _ => (c.nodes.get name).isSome else refreshed
    let nodes := if reorderNeeded then zoneRoundRobin byName else patchNodes s.nodePositions changed s.nodes
    { nodes := nodes
      nodePositions := if reorderNeeded then positionsOf nodes else s.nodePositions
      byName := byName
      nodesWithPodsWithAffinity := nodes.filter fun node => !node.podsWithAffinity.isEmpty
      nodesWithPodsWithRequiredAntiAffinity :=
        nodes.filter fun node => !node.podsWithRequiredAntiAffinity.isEmpty
      imageNodeCounts := c.imageNodeCounts
      generation := c.generation
      objects := c.objects
      workloadSelectors := c.workloadSelectors.entries.map Prod.snd
      storageCapacities := c.storageCapacities }

/-- A fresh snapshot. -/
def snapshot (c : Cache P) : Snapshot P :=
  c.updateSnapshot .default

end Cache

/-!
# The order of the nodes

The order takes a node from each zone in turn.  It lists every node once, and
it depends on the names and the zones of the nodes only.  So when nodes
change in any other way, putting each new version where the old one was gives
the order computed from scratch.
-/

variable {byName : SortedMap String NodeInfo} {nodes changed : List NodeInfo}

private def intoZone (held : SortedMap String (List NodeInfo)) (entry : String × NodeInfo) :
    SortedMap String (List NodeInfo) :=
  held.insert entry.2.zone ((held.get entry.2.zone).getD [] ++ [entry.2])

private theorem intoZone_perm {held : SortedMap String (List NodeInfo)} {entry : String × NodeInfo} :
    ((intoZone held entry).entries.map Prod.snd).flatten.Perm
      ((held.entries.map Prod.snd).flatten ++ [entry.2]) := by
  unfold intoZone
  cases found : held.get entry.2.zone with
  | none =>
    have added := (@SortedMap.insert_perm_of_none _ _ _ held entry.2.zone (none.getD [] ++ [entry.2]) found).map Prod.snd
    refine added.flatten.trans ?_
    exact List.perm_append_comm
  | some bucket =>
    rcases @SortedMap.insert_perm _ _ _ held entry.2.zone ((some bucket).getD [] ++ [entry.2]) bucket found with ⟨rest, before, after⟩
    refine (after.map Prod.snd).flatten.trans ?_
    refine List.Perm.trans ?_ ((before.map Prod.snd).flatten.append_right [entry.2]).symm
    change ((bucket ++ [entry.2]) ++ (rest.map Prod.snd).flatten).Perm
      ((bucket ++ (rest.map Prod.snd).flatten) ++ [entry.2])
    rw [List.append_assoc, List.append_assoc]
    exact List.perm_append_comm.append_left bucket

theorem zones_perm : ((zones byName).entries.map Prod.snd).flatten.Perm (byName.entries.map Prod.snd) := by
  have general : forall (entries : List (String × NodeInfo)) (held : SortedMap String (List NodeInfo)),
      ((entries.foldl intoZone held).entries.map Prod.snd).flatten.Perm
        ((held.entries.map Prod.snd).flatten ++ entries.map Prod.snd) := by
    intro entries
    induction entries with
    | nil =>
      intro held
      exact List.Perm.of_eq (List.append_nil _).symm
    | cons entry rest ih =>
      intro held
      refine (ih (intoZone held entry)).trans ?_
      refine (intoZone_perm.append_right _).trans ?_
      rw [List.append_assoc]
      exact List.Perm.refl _
  exact general byName.entries .empty

theorem zoneRoundRobin_perm : (zoneRoundRobin byName).Perm (byName.entries.map Prod.snd) := by
  have size : byName.entries.length = ((zones byName).entries.map Prod.snd).flatten.length := by
    rw [zones_perm.length_eq, List.length_map]
  unfold zoneRoundRobin
  rw [size]
  exact takeTurns_flatten.trans zones_perm

/-- The names in the order are distinct when each node is under its name. -/
theorem zoneRoundRobin_names (named : forall name info, byName.get name = some info -> info.name = name) :
    ((zoneRoundRobin byName).map NodeInfo.name).Nodup := by
  have keys : (byName.entries.map Prod.snd).map NodeInfo.name = byName.entries.map Prod.fst := by
    rw [List.map_map]
    apply List.map_congr_left
    intro entry listed
    exact named entry.1 entry.2 (SortedMap.mem_entries.mp listed)
  rw [(zoneRoundRobin_perm.map NodeInfo.name).nodup_iff, keys]
  exact (List.pairwise_map.mpr byName.sorted).imp ne_of_lt

theorem zoneRoundRobin_mapValues {f : NodeInfo -> NodeInfo}
    (same : forall name info, byName.get name = some info -> (f info).zone = info.zone) :
    zoneRoundRobin (byName.mapValues f) = (zoneRoundRobin byName).map f := by
  have general : forall (entries : List (String × NodeInfo)) (held : SortedMap String (List NodeInfo)),
      (forall entry, entry ∈ entries -> (f entry.2).zone = entry.2.zone) ->
      (entries.map fun entry => (entry.1, f entry.2)).foldl intoZone (held.mapValues (List.map f)) =
        (entries.foldl intoZone held).mapValues (List.map f) := by
    intro entries
    induction entries with
    | nil => exact fun _ _ => rfl
    | cons entry rest ih =>
      intro held keeps
      have step : intoZone (held.mapValues (List.map f)) (entry.1, f entry.2) =
          (intoZone held entry).mapValues (List.map f) := by
        unfold intoZone
        rw [keeps entry List.mem_cons_self, SortedMap.mapValues_insert, SortedMap.get_mapValues,
          List.map_append, List.map_singleton]
        cases held.get entry.2.zone <;> rfl
      rw [List.map_cons, List.foldl_cons, step]
      exact ih _ fun entry listed => keeps entry (.tail _ listed)
  have mapped : zones (byName.mapValues f) = (zones byName).mapValues (List.map f) :=
    general byName.entries .empty fun entry listed => same entry.1 entry.2 (SortedMap.mem_entries.mp listed)
  have buckets : (zones (byName.mapValues f)).entries.map Prod.snd =
      ((zones byName).entries.map Prod.snd).map (List.map f) := by
    rw [mapped]
    change ((zones byName).entries.map fun entry => (entry.1, entry.2.map f)).map Prod.snd = _
    rw [List.map_map, List.map_map]
    rfl
  have size : (byName.mapValues f).entries.length = byName.entries.length := List.length_map ..
  unfold zoneRoundRobin
  rw [buckets, size]
  exact @takeTurns_map NodeInfo NodeInfo _ _ _ _ [] f

theorem positionsOf_get {name : String} {i : Nat} (distinct : (nodes.map NodeInfo.name).Nodup) :
    (positionsOf nodes).get name = some i <-> (nodes.map NodeInfo.name)[i]? = some name := by
  have keys : (nodes.zipIdx.map fun entry => (entry.1.name, entry.2)).map Prod.fst = nodes.map NodeInfo.name := by
    rw [List.map_map]
    have firsts : nodes.zipIdx.map Prod.fst = nodes := List.zipIdx_map_fst 0 nodes
    conv_rhs => rw [← firsts, List.map_map]
    rfl
  unfold positionsOf
  rw [SortedMap.get_ofList (by rw [keys]; exact distinct), List.mem_map, List.getElem?_map, Option.map_eq_some_iff]
  constructor
  · rintro ⟨⟨info, j⟩, listed, same⟩
    cases same
    exact ⟨info, List.mem_zipIdx_iff_getElem?.mp listed, rfl⟩
  · rintro ⟨info, found, rfl⟩
    exact ⟨(info, i), List.mem_zipIdx_iff_getElem?.mpr found, rfl⟩

theorem positionsOf_congr {other : List NodeInfo} (same : other.map NodeInfo.name = nodes.map NodeInfo.name) :
    positionsOf other = positionsOf nodes := by
  have pairs : forall (held : List NodeInfo), held.zipIdx.map (fun entry => (entry.1.name, entry.2)) =
      (held.map NodeInfo.name).zipIdx := by
    intro held
    rw [List.zipIdx_map]
    apply List.map_congr_left
    intro entry _
    rfl
  unfold positionsOf
  rw [pairs, pairs, same]

/-- The last changed version of a node. -/
def latest (changed : List NodeInfo) (old : NodeInfo) : NodeInfo :=
  changed.foldl (fun held node => if node.name = held.name then node else held) old

theorem latest_name {old : NodeInfo} : (latest changed old).name = old.name := by
  unfold latest
  induction changed generalizing old with
  | nil => rfl
  | cons node rest ih =>
    rw [List.foldl_cons, ih]
    split_ifs with same
    · exact same
    · rfl

private theorem set_eq_map {node : NodeInfo} {i : Nat} (distinct : (nodes.map NodeInfo.name).Nodup)
    (here : (nodes.map NodeInfo.name)[i]? = some node.name) :
    nodes.set i node = nodes.map fun old => if node.name = old.name then node else old := by
  apply List.ext_getElem?
  intro j
  rw [List.getElem?_set, List.getElem?_map]
  rw [List.getElem?_map, Option.map_eq_some_iff] at here
  rcases here with ⟨old, found, same⟩
  split_ifs with at_i long
  · rw [← at_i, found, Option.map_some, if_pos same.symm]
  · exact absurd (List.getElem?_eq_some_iff.mp found).1 long
  · cases there : nodes[j]? with
    | none => rfl
    | some other =>
      have different : node.name ≠ other.name := by
        intro equal
        apply at_i
        have long : i < (nodes.map NodeInfo.name).length := by
          simpa using (List.getElem?_eq_some_iff.mp found).1
        apply (List.getElem?_inj long distinct).mp
        rw [List.getElem?_map, List.getElem?_map, found, there, Option.map_some, Option.map_some, same, equal]
      rw [Option.map_some, if_neg different]

theorem patchNodes_eq {current : List NodeInfo} (distinct : (nodes.map NodeInfo.name).Nodup)
    (same : current.map NodeInfo.name = nodes.map NodeInfo.name) :
    patchNodes (positionsOf nodes) changed current = current.map (latest changed) := by
  induction changed generalizing current with
  | nil => exact (List.map_id _).symm
  | cons node rest ih =>
    have once : (match (positionsOf nodes).get node.name with
        | none => current
        | some i => current.set i node) =
        current.map fun old => if node.name = old.name then node else old := by
      cases found : (positionsOf nodes).get node.name with
      | none =>
        refine ((List.map_id _).symm.trans ?_)
        apply List.map_congr_left
        intro old listed
        have elsewhere : node.name ≠ old.name := by
          intro equal
          have there : old.name ∈ nodes.map NodeInfo.name := same ▸ List.mem_map.mpr ⟨old, listed, rfl⟩
          rcases List.mem_iff_getElem?.mp there with ⟨i, position⟩
          rw [← equal] at position
          rw [(positionsOf_get distinct).mpr position] at found
          cases found
        exact (if_neg elsewhere).symm
      | some i =>
        have position := (positionsOf_get distinct).mp found
        rw [← same] at position distinct
        exact set_eq_map distinct position
    have names : (current.map fun old => if node.name = old.name then node else old).map NodeInfo.name =
        nodes.map NodeInfo.name := by
      rw [List.map_map, ← same]
      apply List.map_congr_left
      intro old _
      dsimp only [Function.comp_apply]
      split_ifs with equal
      · exact equal
      · rfl
    refine (congrArg (patchNodes (positionsOf nodes) rest) once).trans ?_
    rw [ih names, List.map_map]
    rfl

end NotK8s.Scheduler

import NotK8s.Library.Run
import NotK8s.Scheduler.Cache

namespace NotK8s.Scheduler

open Library

/-!
# How many nodes have an image

The cache counts the nodes of each image, and ImageLocality scales its score by
that count.  A node that is written gives back the images it had and counts the
ones it has.
-/

namespace NodeInfo

variable {info : NodeInfo} {pod : PodInfo} {uid : String} {generation : Nat}

def imageNames (info : NodeInfo) : List String :=
  info.images.entries.map Prod.fst

theorem removePod_imageNames : (info.removePod uid generation).imageNames = info.imageNames := by
  unfold removePod
  split <;> rfl

theorem addPod_imageNames : (info.addPod pod generation).imageNames = info.imageNames := by
  unfold addPod imageNames
  dsimp only
  split_ifs
  · exact removePod_imageNames
  · rfl

end NodeInfo

namespace Cache

variable {P : Payloads} {c c' : Cache P} {name image uid : String} {info : NodeInfo} {counts : SortedMap String Int}
  {n : Nat}

/-- The nodes that have the image. -/
def nodesWith (c : Cache P) (image : String) : Nat :=
  c.nodes.entries.countP fun entry => (entry.2.images.get image).isSome

/-- A count of zero is not kept. -/
def kept (n : Nat) : Option Int :=
  if n = 0 then none else some n

/-- An image has a counter exactly when a node has it, and the counter is the
number of such nodes. -/
def ImagesCounted (c : Cache P) : Prop :=
  forall image, c.imageNodeCounts.get image = kept (c.nodesWith image)

/-! ## Counters -/

theorem forgetImages_get (images : List String) (counted : counts.get image = kept n) :
    (images.foldl forgetImage counts).get image = kept (n - images.count image) := by
  induction images generalizing counts n with
  | nil => exact counted
  | cons first rest ih =>
    have one : (forgetImage counts first).get image = kept (n - if first = image then 1 else 0) := by
      unfold forgetImage
      by_cases same : first = image
      · rw [same, counted, if_pos rfl, kept]
        rcases n with _ | _ | n
        · exact counted
        · exact SortedMap.get_erase.trans (if_pos rfl)
        · rw [if_neg (Nat.succ_ne_zero _)]
          dsimp only
          rw [if_neg (by omega)]
          refine SortedMap.get_insert.trans ((if_pos rfl).trans ?_)
          rw [kept, if_neg (by omega)]
          congr 1
          omega
      · rw [if_neg same, Nat.sub_zero, ← counted]
        cases counts.get first with
        | none => rfl
        | some count =>
          dsimp only
          split_ifs
          · exact SortedMap.get_erase.trans (if_neg (Ne.symm same))
          · exact SortedMap.get_insert.trans (if_neg (Ne.symm same))
    rw [List.foldl_cons, ih one, List.count_cons, Nat.sub_sub, Nat.add_comm]
    simp only [beq_iff_eq]

theorem countImages_get (images : List String) (counted : counts.get image = kept n) :
    (images.foldl countImage counts).get image = kept (n + images.count image) := by
  induction images generalizing counts n with
  | nil => exact counted
  | cons first rest ih =>
    have one : (countImage counts first).get image = kept (n + if first = image then 1 else 0) := by
      unfold countImage
      rw [SortedMap.get_insert]
      by_cases same : first = image
      · rw [same, if_pos rfl, if_pos rfl, counted, kept, kept, if_neg (Nat.succ_ne_zero n)]
        split_ifs with none
        · rw [none]
          rfl
        · rfl
      · rw [if_neg (Ne.symm same), if_neg same]
        exact counted
    rw [List.foldl_cons, ih one, List.count_cons, Nat.add_assoc, Nat.add_comm (List.count _ _)]
    simp only [beq_iff_eq]

theorem count_imageNames : info.imageNames.count image = if (info.images.get image).isSome then 1 else 0 := by
  have distinct : info.imageNames.Nodup :=
    List.Pairwise.map _ (fun _ _ ordered => ne_of_lt ordered) info.images.sorted
  rw [distinct.count]
  refine if_congr ?_ rfl rfl
  rw [NodeInfo.imageNames, List.mem_map, Option.isSome_iff_exists]
  constructor
  · rintro ⟨⟨_, size⟩, listed, rfl⟩
    exact ⟨size, SortedMap.mem_entries.mp listed⟩
  · rintro ⟨size, found⟩
    exact ⟨(image, size), SortedMap.mem_entries.mpr found, rfl⟩

/-! ## Nodes -/

/-- The nodes other than one that have the image. -/
def othersWith (c : Cache P) (name image : String) : Nat :=
  (c.nodes.erase name).entries.countP fun entry => (entry.2.images.get image).isSome

theorem nodesWith_eq : c.nodesWith image =
    c.othersWith name image + ((c.nodes.get name).getD .default).imageNames.count image := by
  rw [count_imageNames]
  cases found : c.nodes.get name with
  | none =>
    rw [othersWith, SortedMap.erase_of_none found]
    rfl
  | some old => exact ((SortedMap.erase_perm found).countP_eq _).trans List.countP_cons

theorem nodesWith_store (nodes : c'.nodes = c.nodes) :
    (c'.store name info).nodesWith image = c.othersWith name image + info.imageNames.count image := by
  rw [count_imageNames, othersWith, ← nodes]
  exact (SortedMap.insert_perm_erase.countP_eq _).trans List.countP_cons

section
variable (counted : c.ImagesCounted)
include counted

theorem ImagesCounted.of_same (nodes : c'.nodes = c.nodes) (counts : c'.imageNodeCounts = c.imageNodeCounts) :
    c'.ImagesCounted := by
  unfold ImagesCounted nodesWith
  rw [nodes, counts]
  exact counted

theorem ImagesCounted.store (nodes : c'.nodes = c.nodes) (counts : c'.imageNodeCounts = c.imageNodeCounts)
    (same : info.imageNames = ((c.nodes.get name).getD .default).imageNames) : (c'.store name info).ImagesCounted := by
  intro image
  rw [nodesWith_store nodes, same, ← nodesWith_eq, ← counted image, ← counts]
  rfl

theorem ImagesCounted.recount (nodes : c'.nodes = c.nodes)
    (counts : c'.imageNodeCounts = info.imageNames.foldl countImage
      (((c.nodes.get name).getD .default).imageNames.foldl forgetImage c.imageNodeCounts)) :
    (c'.store name info).ImagesCounted := by
  intro image
  have before := counted image
  rw [@nodesWith_eq _ c name] at before
  have forgotten := forgetImages_get ((c.nodes.get name).getD .default).imageNames before
  rw [Nat.add_sub_cancel] at forgotten
  rw [nodesWith_store nodes, ← countImages_get info.imageNames forgotten, ← counts]
  rfl

theorem ImagesCounted.removePodFrom : (c.removePodFrom name uid).ImagesCounted := by
  unfold Cache.removePodFrom
  dsimp only
  have same : c.bumped.nodes.get name = c.nodes.get name := rfl
  rw [same]
  cases found : c.nodes.get name with
  | none => exact counted.of_same rfl rfl
  | some old =>
    refine counted.store rfl rfl ?_
    rw [found]
    exact NodeInfo.removePod_imageNames

theorem ImagesCounted.addPod {pod : PodInfo} : (c.addPod pod).ImagesCounted := by
  unfold Cache.addPod
  cases pod.nodeName with
  | none => exact counted
  | some name =>
    have released : (c.releaseMoved pod.uid name).bumped.ImagesCounted := by
      unfold Cache.releaseMoved
      cases c.podLocations.get pod.uid with
      | none => exact counted.of_same rfl rfl
      | some old =>
        dsimp only
        split_ifs
        · exact counted.removePodFrom.of_same rfl rfl
        · exact counted.of_same rfl rfl
    dsimp only
    cases found : (c.releaseMoved pod.uid name).bumped.nodes.get name with
    | none => exact released
    | some info =>
      refine released.store rfl rfl ?_
      rw [found]
      exact NodeInfo.addPod_imageNames

theorem ImagesCounted.upsertNode {node : ApiNode} {preserve : Bool} : (c.upsertNode node preserve).ImagesCounted := by
  unfold Cache.upsertNode
  cases node.name with
  | none => exact counted
  | some name =>
    let old := (c.nodes.get name).getD .default
    by_cases unchanged : old.imageNames = (old.updateFromNode node c.bumped.generation).imageNames
    · exact counted.store rfl (if_pos unchanged) unchanged.symm
    · exact counted.recount rfl (if_neg unchanged)

theorem ImagesCounted.removeNode : (c.removeNode name).ImagesCounted := by
  unfold Cache.removeNode
  cases found : c.nodes.get name with
  | none => exact counted.of_same rfl rfl
  | some node =>
    intro image
    have before := counted image
    rw [@nodesWith_eq _ c name, found] at before
    have after := forgetImages_get node.imageNames before
    rw [Option.getD_some, Nat.add_sub_cancel] at after
    exact after

theorem ImagesCounted.mutate (m : Mutation P) : (c.mutate m).ImagesCounted := by
  cases m with
  | upsertNode node preserve => exact counted.upsertNode
  | removeNode name => exact counted.removeNode
  | addPod pod => exact counted.addPod
  | removePod uid =>
    change (c.removePod uid).ImagesCounted
    unfold Cache.removePod
    cases c.podLocations.get uid with
    | none => exact counted
    | some name =>
      have forgotten : ImagesCounted { c with podLocations := c.podLocations.erase uid } := counted.of_same rfl rfl
      exact forgotten.removePodFrom
  | _ => exact counted.of_same rfl rfl

end

/-! ## Runs -/

/-- However the nodes come, change and go, the counters are exact. -/
theorem image_counts_exact (mutations : List (Mutation P)) :
    AlongRun Cache.mutate (ImagesCounted : Cache P -> Prop) .new mutations :=
  AlongRun.of_invariant (fun _ m counted _ => counted.mutate m) (fun _ => rfl) (EveryStep.unconditional _ mutations)

end Cache
end NotK8s.Scheduler

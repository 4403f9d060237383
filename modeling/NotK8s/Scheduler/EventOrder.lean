import NotK8s.Library.Window
import NotK8s.Scheduler.Placement

namespace NotK8s.Scheduler

open Library

/-!
# Nodes and pods in any order

Nodes and pods reach the cache from two watches, in any order.  A pod whose
node is unknown is dropped, and the pods of a deleted node are dropped with
it, so what the cache lists are the pods whose last event came while their
node was known and whose node has not been deleted since.
-/

/-- What the two watches deliver to the cache about nodes and bound pods. -/
inductive Delivery where
  | nodeApplied (node : ApiNode) (name : String) (named : node.name = some name)
  | nodeDeleted (name : String)
  | podApplied (pod : PodInfo) (name : String) (bound : pod.nodeName = some name)
  | podDeleted (uid : String)

namespace Delivery

def mutation {P : Payloads} : Delivery -> Mutation P
  | .nodeApplied node _ _ => .upsertNode node false
  | .nodeDeleted name => .removeNode name
  | .podApplied pod _ _ => .addPod pod
  | .podDeleted uid => .removePod uid

def appliedNode : Delivery -> Option String
  | .nodeApplied _ name _ => some name
  | _ => none

def deletedNode : Delivery -> Option String
  | .nodeDeleted name => some name
  | _ => none

def appliedPod : Delivery -> Option PodInfo
  | .podApplied pod _ _ => some pod
  | _ => none

/-- The pod that the event is about. -/
def podUid : Delivery -> Option String
  | .podApplied pod _ _ => some pod.uid
  | .podDeleted uid => some uid
  | _ => none

end Delivery

/-- The last event about the node says that it exists. -/
def Known (history : List Delivery) (name : String) : Prop :=
  Since (fun _ event => event.appliedNode = some name) (fun event => event.deletedNode ≠ some name) history

/-- The last event about the pod delivered this object. -/
def Bound (history : List Delivery) (pod : PodInfo) : Prop :=
  Since (fun _ event => event.appliedPod = some pod) (fun event => event.podUid ≠ some pod.uid) history

/-- The last event about the pod delivered this object while the node was
known, and the node has not been deleted since. -/
def Settled (history : List Delivery) (name : String) (pod : PodInfo) : Prop :=
  Since (fun before event => event.appliedPod = some pod ∧ Known before name)
    (fun event => event.podUid ≠ some pod.uid ∧ event.deletedNode ≠ some name) history

theorem Settled.bound {history : List Delivery} {name : String} {pod : PodInfo}
    (settled : Settled history name pod) : Bound history pod :=
  settled.mono (fun _ _ started => started.1) (fun _ held => held.1)

/-- The history asks for no negative amount, and the pods that name one node
fit into 64 bits, whichever version of each is taken. -/
structure Fits (history : List Delivery) : Prop where
  positive : forall event pod, event ∈ history -> event.appliedPod = some pod -> NonNegative [pod]
  bounded : forall name pods, (pods.map PodInfo.uid).Nodup ->
    (forall pod, pod ∈ pods -> pod.nodeName = some name ∧
      Exists fun event => event ∈ history ∧ event.appliedPod = some pod) -> NodeInfo.Bounded pods

theorem Fits.earlier {history : List Delivery} {event : Delivery} (fits : Fits (history ++ [event])) : Fits history where
  positive earlier pod listed := fits.positive earlier pod (List.mem_append_left _ listed)
  bounded name pods distinct here := by
    refine fits.bounded name pods distinct fun pod member => ?_
    rcases here pod member with ⟨placed, earlier, listed, same⟩
    exact ⟨placed, earlier, List.mem_append_left _ listed, same⟩

variable {P : Payloads}

namespace Cache

def deliver (c : Cache P) (event : Delivery) : Cache P :=
  c.mutate event.mutation

def afterAll (history : List Delivery) : Cache P :=
  history.foldl deliver .new

/-- The node's entry is the sum over exactly the pods bound to it. -/
def Accurate (c : Cache P) (history : List Delivery) (name : String) : Prop :=
  Exists fun info => c.nodes.get name = some info ∧ info.Accounted ∧
    forall pod, pod ∈ info.pods <-> Bound history pod ∧ pod.nodeName = some name

/-- Every node is accounted for, and every listed pod is recorded on the node
that lists it. -/
structure Sound (c : Cache P) : Prop where
  accounted : forall name info, c.nodes.get name = some info -> info.Accounted
  positive : forall name pod, c.Lists name pod -> NonNegative [pod]
  located : forall name pod, c.Lists name pod -> c.podLocations.get pod.uid = some name

variable {c : Cache P} {name uid : String} {pod : PodInfo}

theorem NonNegative.of_lists {info : NodeInfo} (sound : c.Sound) (found : c.nodes.get name = some info) :
    NonNegative info.pods :=
  fun pod listed => sound.positive name pod ⟨info, found, listed⟩ pod (List.mem_singleton_self pod)

theorem Sound.new : (Cache.new : Cache P).Sound where
  accounted _ _ found := nomatch found
  positive _ _ listed := nomatch listed.choose_spec.1
  located _ _ listed := nomatch listed.choose_spec.1

section

variable (sound : c.Sound)
include sound

theorem Sound.placed : c.Placed :=
  ⟨fun name info found => (sound.accounted name info found).listed, sound.located⟩

/-! ## What keeps the accounts -/

theorem Sound.of_fewer {c' : Cache P} (placed : c'.Placed)
    (accounted : forall name info, c'.nodes.get name = some info -> info.Accounted)
    (fewer : forall name pod, c'.Lists name pod -> c.Lists name pod) : c'.Sound :=
  ⟨accounted, fun name pod listed => sound.positive name pod (fewer name pod listed), placed.located⟩

theorem Sound.removePodFrom : (c.removePodFrom name uid).Sound := by
  refine sound.of_fewer sound.placed.removePodFrom ?_ fun _ _ listed => ((removePodFrom_lists sound.placed).mp listed).1
  intro other info found
  rw [removePodFrom_get] at found
  split_ifs at found with here
  · rcases Option.map_eq_some_iff.mp found with ⟨old, there, same⟩
    rw [← same]
    exact (sound.accounted name old there).removePod (NonNegative.of_lists sound there)
  · exact sound.accounted other info found

theorem Sound.removePod : (c.removePod uid).Sound := by
  rcases @Placed.removePod P c uid sound.placed with ⟨placed, _, lists⟩
  refine sound.of_fewer placed ?_ fun name pod listed => ((lists name pod).mp listed).1
  intro name info found
  unfold Cache.removePod at found
  cases recorded : c.podLocations.get uid with
  | none =>
    rw [recorded] at found
    exact sound.accounted name info found
  | some old =>
    rw [recorded] at found
    rw [removePodFrom_get] at found
    have taken := (@Sound.removePodFrom P c old uid sound).accounted name info
    rw [removePodFrom_get] at taken
    exact taken found

theorem Sound.releaseMoved : (c.releaseMoved uid name).Sound := by
  unfold Cache.releaseMoved
  cases c.podLocations.get uid with
  | none => exact sound
  | some old =>
    dsimp only
    split_ifs
    · exact sound.removePodFrom
    · exact sound

theorem Sound.addPod (bound : pod.nodeName = some name) (positive : NonNegative [pod])
    (bounded : forall info, c.nodes.get name = some info -> NodeInfo.Bounded (info.podsWith pod)) :
    (c.addPod pod).Sound := by
  rcases sound.placed.addPod bound with ⟨placed, _, lists⟩
  refine ⟨?_, ?_, placed.located⟩
  · have released : (c.releaseMoved pod.uid name).Sound := sound.releaseMoved
    have kept : (c.releaseMoved pod.uid name).bumped.nodes.get name = c.nodes.get name := releaseMoved_get
    intro other info found
    unfold Cache.addPod at found
    rw [bound] at found
    dsimp only at found
    rw [kept] at found
    cases known : c.nodes.get name with
    | none =>
      rw [known] at found
      exact released.accounted other info found
    | some old =>
      rw [known] at found
      have written : (if other = name then some (old.addPod pod (c.releaseMoved pod.uid name).bumped.generation)
          else (c.releaseMoved pod.uid name).nodes.get other) = some info := SortedMap.get_insert.symm.trans found
      split_ifs at written
      · cases written
        have accounted := sound.accounted name old known
        have listedHere := NonNegative.of_lists sound known
        have withPositive : NonNegative (old.podsWith pod) := by
          intro held member
          rcases List.mem_append.mp member with earlier | here
          · exact listedHere held (List.mem_filter.mp earlier).1
          · exact positive held here
        exact accounted.addPod withPositive listedHere (bounded old known)
      · exact released.accounted other info written
  · intro other held listed
    rcases (lists other held).mp listed with ⟨_, same, _⟩ | ⟨before, _⟩
    · rw [same]
      exact positive
    · exact sound.positive other held before

theorem Sound.removeNode : (c.removeNode name).Sound := by
  rcases @Placed.removeNode P c name sound.placed with ⟨placed, _, lists⟩
  refine sound.of_fewer placed ?_ fun other pod listed => ((lists other pod).mp listed).1
  intro other info found
  rw [removeNode_get] at found
  split_ifs at found
  exact sound.accounted other info found

theorem Sound.upsertNode {node : ApiNode} {preserve : Bool} (named : node.name = some name) :
    (c.upsertNode node preserve).Sound := by
  rcases @Placed.upsertNode P c name sound.placed node preserve named with ⟨placed, _, lists⟩
  refine sound.of_fewer placed ?_ fun other pod listed => (lists other pod).mp listed
  intro other info found
  rw [upsertNode_get named] at found
  split_ifs at found
  · cases found
    apply NodeInfo.Accounted.updateFromNode
    cases before : c.nodes.get name with
    | none => exact NodeInfo.Accounted.default
    | some old => exact sound.accounted name old before
  · exact sound.accounted other info found

/-! ## Histories -/

end

/-- What the cache lists is what the history has settled. -/
structure Follows (c : Cache P) (history : List Delivery) : Prop where
  sound : c.Sound
  known : forall name, c.Knows name <-> Known history name
  listed : forall name pod, c.Lists name pod <-> Settled history name pod ∧ pod.nodeName = some name

theorem Follows.start : Follows (Cache.new : Cache P) [] where
  sound := Sound.new
  known _ := iff_of_false (fun known => nomatch known.choose_spec) not_since_nil
  listed _ _ := iff_of_false (fun listed => nomatch listed.choose_spec.1) fun h => not_since_nil h.1

theorem Follows.deliver {history : List Delivery} {event : Delivery} (follows : Follows c history)
    (fits : Fits (history ++ [event])) : Follows (c.deliver event) (history ++ [event]) := by
  rcases follows with ⟨sound, known, listed⟩
  cases event with
  | nodeApplied node name named =>
    rcases @Placed.upsertNode P c name sound.placed node false named with ⟨_, knows, lists⟩
    refine ⟨sound.upsertNode named, fun other => ?_, fun other pod => ?_⟩
    · rw [Known, since_concat]
      refine (knows other).trans ?_
      rw [known, Known]
      simp [Delivery.appliedNode, Delivery.deletedNode, eq_comm]
    · rw [Settled, since_concat]
      refine (lists other pod).trans ?_
      rw [listed, Settled]
      simp [Delivery.appliedPod, Delivery.podUid, Delivery.deletedNode]
  | nodeDeleted name =>
    rcases @Placed.removeNode P c name sound.placed with ⟨_, knows, lists⟩
    refine ⟨sound.removeNode, fun other => ?_, fun other pod => ?_⟩
    · rw [Known, since_concat]
      refine (knows other).trans ?_
      rw [known, Known]
      simp [Delivery.appliedNode, Delivery.deletedNode, eq_comm]
    · rw [Settled, since_concat]
      refine (lists other pod).trans ?_
      rw [listed, Settled]
      simp [Delivery.appliedPod, Delivery.podUid, Delivery.deletedNode, eq_comm, and_right_comm]
  | podApplied pod name bound =>
    have positive : NonNegative [pod] :=
      fits.positive _ pod (List.mem_append_right _ (.head _)) rfl
    have bounded : forall info, c.nodes.get name = some info -> NodeInfo.Bounded (info.podsWith pod) := by
      intro info found
      have accounted := sound.accounted name info found
      apply fits.bounded name
      · rw [← @NodeInfo.Distinct.addPod_pods info pod 0 accounted.listed]
        exact accounted.listed.addPod
      · intro held member
        rcases List.mem_append.mp member with earlier | here
        · have settled := (listed name held).mp ⟨info, found, (List.mem_filter.mp earlier).1⟩
          rcases settled.1.exists_mem with ⟨_, started, inHistory, same, _⟩
          exact ⟨settled.2, started, List.mem_append_left _ inHistory, same⟩
        · rw [List.mem_singleton.mp here]
          exact ⟨bound, _, List.mem_append_right _ (.head _), rfl⟩
    rcases sound.placed.addPod bound with ⟨_, knows, lists⟩
    refine ⟨sound.addPod bound positive bounded, fun other => ?_, fun other held => ?_⟩
    · rw [Known, since_concat]
      refine (knows other).trans ?_
      rw [known, Known]
      simp [Delivery.appliedNode, Delivery.deletedNode]
    · rw [Settled, since_concat]
      refine (lists other held).trans ?_
      rw [listed, known, Settled]
      simp only [Delivery.appliedPod, Delivery.podUid, Delivery.deletedNode, Option.some.injEq, ne_eq,
        reduceCtorEq, not_false_eq_true, and_true]
      constructor
      · rintro (⟨rfl, rfl, knownHere⟩ | ⟨⟨settled, placed⟩, apart⟩)
        · exact ⟨Or.inl ⟨rfl, knownHere⟩, bound⟩
        · exact ⟨Or.inr ⟨settled, fun same => apart same.symm⟩, placed⟩
      · rintro ⟨⟨rfl, knownHere⟩ | ⟨settled, apart⟩, placed⟩
        · rw [bound] at placed
          cases placed
          exact Or.inl ⟨rfl, rfl, knownHere⟩
        · exact Or.inr ⟨⟨settled, placed⟩, fun same => apart same.symm⟩
  | podDeleted uid =>
    rcases @Placed.removePod P c uid sound.placed with ⟨_, knows, lists⟩
    refine ⟨sound.removePod, fun other => ?_, fun other pod => ?_⟩
    · rw [Known, since_concat]
      refine (knows other).trans ?_
      rw [known, Known]
      simp [Delivery.appliedNode, Delivery.deletedNode]
    · rw [Settled, since_concat]
      refine (lists other pod).trans ?_
      rw [listed, Settled]
      simp [Delivery.appliedPod, Delivery.podUid, Delivery.deletedNode, eq_comm, and_right_comm]

theorem follows_afterAll {history : List Delivery} (fits : Fits history) :
    Follows (Cache.afterAll history : Cache P) history := by
  induction history using List.reverseRecOn with
  | nil => exact Follows.start
  | append_singleton earlier event ih =>
    have step := (ih fits.earlier).deliver fits
    unfold Cache.afterAll at *
    rwa [List.foldl_append]

variable (P) in
/-- Every known node is the sum over exactly the pods bound to it precisely
when the last event of each of these pods came while the node was known and
the node has not been deleted since. -/
theorem accurate_iff_settled (history : List Delivery) (fits : Fits history) :
    (forall name, Known history name -> (Cache.afterAll history : Cache P).Accurate history name) <->
      forall name pod, Known history name -> Bound history pod -> pod.nodeName = some name ->
        Settled history name pod := by
  have follows : Follows (Cache.afterAll history : Cache P) history := follows_afterAll fits
  constructor
  · intro accurate name pod known bound placed
    rcases accurate name known with ⟨info, found, _, pods⟩
    exact ((follows.listed name pod).mp ⟨info, found, (pods pod).mpr ⟨bound, placed⟩⟩).1
  · intro settled name known
    rcases (follows.known name).mpr known with ⟨info, found⟩
    refine ⟨info, found, follows.sound.accounted name info found, fun pod => ⟨fun member => ?_, ?_⟩⟩
    · have here := (follows.listed name pod).mp ⟨info, found, member⟩
      exact ⟨here.1.bound, here.2⟩
    · rintro ⟨bound, placed⟩
      rcases (follows.listed name pod).mpr ⟨settled name pod known bound placed, placed⟩ with ⟨_, same, member⟩
      rw [found] at same
      cases same
      exact member

private def webPod : PodInfo :=
  ⟨"default", "web", "u", some "a", "default-scheduler", 0, none, [], [⟨"TCP", "", 80⟩], .zero, none, false, 0, 0⟩

private def nodeA : Delivery :=
  .nodeApplied ⟨some "a", .empty, [], false, none⟩ "a" rfl

private def webOnA : Delivery :=
  .podApplied webPod "a" rfl

private theorem fits_of_webPod {history : List Delivery}
    (only : forall event pod, event ∈ history -> event.appliedPod = some pod -> pod = webPod) : Fits history where
  positive event pod listed same := by
    intro held here resource
    rw [List.mem_singleton.mp here, only event pod listed same]
    exact le_of_eq (congrArg I64.val Resources.get_zero).symm
  bounded name pods distinct here := by
    have all : forall pod, pod ∈ pods -> pod = webPod := by
      intro pod member
      rcases here pod member with ⟨_, event, listed, same⟩
      exact only event pod listed same
    intro resource
    match pods, distinct, all with
    | [], _, _ => exact ⟨(by decide : (0 : Int) < 2 ^ 63), (by decide : (0 : Int) < 2 ^ 63)⟩
    | [pod], _, _ =>
      rw [sumOf_cons, sumOf_cons]
      have first := (pod.requests.get resource).upper
      have second := (pod.nonZeroRequests.get resource).upper
      constructor
      · change _ + 0 < _
        omega
      · change _ + 0 < _
        omega
    | first :: second :: rest, distinct, all =>
      rw [List.map_cons, List.map_cons, List.nodup_cons] at distinct
      have same : first.uid = second.uid := by
        rw [all first List.mem_cons_self, all second (List.mem_cons_of_mem _ List.mem_cons_self)]
      exact absurd (same ▸ .head _) distinct.1

/-- The node comes first, so the pod is counted. -/
theorem accurate_iff_settled_nodeFirst :
    (forall name, Known [nodeA, webOnA] name ->
      (Cache.afterAll [nodeA, webOnA] : Cache ⟨fun _ => Unit, Unit, Unit⟩).Accurate [nodeA, webOnA] name) <->
      forall name pod, Known [nodeA, webOnA] name -> Bound [nodeA, webOnA] pod -> pod.nodeName = some name ->
        Settled [nodeA, webOnA] name pod := by
  apply accurate_iff_settled
  apply fits_of_webPod
  intro event pod listed same
  rcases List.mem_cons.mp listed with rfl | rest
  · nomatch same
  · rw [List.mem_singleton.mp rest] at same
    exact (Option.some.inj same).symm

/-- The pod comes first and is lost. -/
theorem podFirst_not_accurate : Exists fun history => Fits history ∧ Known history "a" ∧
    ¬ (Cache.afterAll history : Cache ⟨fun _ => Unit, Unit, Unit⟩).Accurate history "a" := by
  refine ⟨[webOnA, nodeA], ?_, ?_, ?_⟩
  · apply fits_of_webPod
    intro event pod listed same
    rcases List.mem_cons.mp listed with rfl | rest
    · exact (Option.some.inj same).symm
    · rw [List.mem_singleton.mp rest] at same
      nomatch same
  · exact ⟨[webOnA], nodeA, [], rfl, rfl, fun _ listed => absurd listed List.not_mem_nil⟩
  · rintro ⟨info, found, _, pods⟩
    have bound : Bound [webOnA, nodeA] webPod := by
      refine ⟨[], webOnA, [nodeA], rfl, rfl, fun event listed => ?_⟩
      rw [List.mem_singleton.mp listed]
      nofun
    have member := (pods webPod).mpr ⟨bound, rfl⟩
    have empty : ((Cache.afterAll [webOnA, nodeA] : Cache ⟨fun _ => Unit, Unit, Unit⟩).nodes.get "a").map
        NodeInfo.pods = some [] := by decide
    rw [found] at empty
    rw [Option.some.inj empty] at member
    exact List.not_mem_nil member

end Cache
end NotK8s.Scheduler

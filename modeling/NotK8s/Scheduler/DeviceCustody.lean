import NotK8s.Scheduler.DevicePlans

namespace NotK8s.Scheduler

open Library

namespace DynamicResources

/-!
# Who holds a device

A device is held for a claim by the claim's allocation, as the API server has
it, as the informer shows it, or as it is still on its way to the informer,
by what a pod has assumed, and by what a binding cycle has left to write.
Only Reserve gives a claim a device that was not held for it before, so
exclusiveness is lost at Reserve or not at all: when the plan was made while
a device was held but not marked as assumed.
-/

/-- The devices of claims, under the keys of the claims. -/
def claimHoldings (claims : List ResourceClaim) : List (String × DeviceId) :=
  claims.flatMap fun claim => claim.allocated.map (Prod.mk claim.key)

def Stage.left : Stage -> List AssumedClaim
  | .preBind left _ _ => left
  | _ => []

/-- The allocation ties the claim to the node. -/
def allocatedTo (claim : ResourceClaim) (node : String) : Bool :=
  claim.allocation.any fun allocation => allocation.nodeSelector = some (singleNodeSelector node)

namespace DeviceWorld

/-- The devices that are written, seen or assumed. -/
def holdings (w : DeviceWorld) : List (String × DeviceId) :=
  claimHoldings (w.claims.entries.map Prod.snd) ++ claimHoldings (w.seen.entries.map Prod.snd) ++
    assumedHoldings (w.assumedByPod.entries.flatMap Prod.snd) ++ assumedHoldings (w.bindings.flatMap fun b => b.stage.left)

/-- Those and the ones that the informer has yet to show. -/
def known (w : DeviceWorld) : List (String × DeviceId) :=
  w.holdings ++ claimHoldings w.feed

/-- No device is held for two claims. -/
def Exclusive (w : DeviceWorld) : Prop :=
  forall entry, entry ∈ w.holdings -> forall entry', entry' ∈ w.holdings -> entry.2 = entry'.2 -> entry.1 = entry'.1

/-- Every claim of a bound pod is allocated to the node of the pod. -/
def BoundWhereAllocated (w : DeviceWorld) : Prop :=
  forall placed, placed ∈ w.bound -> forall key, key ∈ placed.1.claimKeys ->
    (w.claims.get key).any (fun claim => allocatedTo claim placed.2) = true

/-- A plan is made while every device that is held, and that a node offers,
is marked as assumed, unless the only claim to plan for is the one it is held
for. -/
def Covered (w : DeviceWorld) (pod : ClaimingPod) (inventory : Inventory) : Prop :=
  forall entry, entry ∈ w.known ->
    entry.2 ∈ w.assumedDevices ∨
    (forall node, node ∈ inventory.nodes -> entry.2 ∉ (candidatesForNode inventory.slices node).map Candidate.id) ∨
    (forall key, key ∈ pendingKeys pod w.seen -> key = entry.1)

/-- No pod that is bound or about to be bound names the claim. -/
def Unused (w : DeviceWorld) (key : String) : Prop :=
  (forall b, b ∈ w.bindings -> key ∉ b.pod.claimKeys) ∧ forall placed, placed ∈ w.bound -> key ∉ placed.1.claimKeys

/-- A claim that was found allocated is allocated to the node of the pod. -/
def Agrees (b : BindingCycle) : Prop :=
  match b.stage with
  | .preBind _ _ (some current) => current.bound = true -> allocatedTo current b.node = true
  | _ => True

/-- The steps that go right. -/
def Orderly (w : DeviceWorld) : DeviceStep -> Prop
  | .preFilter pod inventory => w.Covered pod inventory
  | .postFilter _ => forall key, key ∈ w.stuckClaim -> w.Unused key
  | .reserve _ => forall c, c ∈ w.cycle -> forall b, b ∈ w.bindings -> b.pod.uid ≠ c.pod.uid
  | .writeClaim binding _ => forall b, b ∈ w.bindings[binding]? -> Agrees b
  | _ => True

end DeviceWorld

/-! ## Holdings -/

section
variable {w : DeviceWorld} {entry : String × DeviceId}

theorem mem_claimHoldings {claims : List ResourceClaim} :
    entry ∈ claimHoldings claims <-> Exists fun claim => claim ∈ claims ∧ claim.key = entry.1 ∧ entry.2 ∈ claim.allocated := by
  unfold claimHoldings
  rw [List.mem_flatMap]
  constructor
  · rintro ⟨claim, listed, held⟩
    rcases List.mem_map.mp held with ⟨device, inside, rfl⟩
    exact ⟨claim, listed, rfl, inside⟩
  · rintro ⟨claim, listed, key, inside⟩
    exact ⟨claim, listed, List.mem_map.mpr ⟨entry.2, inside, Prod.ext key rfl⟩⟩

theorem assumedHoldings_cons (a : AssumedClaim) (left : List AssumedClaim) :
    assumedHoldings (a :: left) = (exclusive a.newDevices).map (Prod.mk a.claimKey) ++ assumedHoldings left :=
  List.flatMap_cons

/-- The claim shows that the device is held for it. -/
def Shows (claim : ResourceClaim) (entry : String × DeviceId) : Prop :=
  claim.key = entry.1 ∧ entry.2 ∈ claim.allocated

theorem mem_values {Value : Type} {m : SortedMap String Value} {value : Value} :
    value ∈ m.entries.map Prod.snd <-> Exists fun key => m.get key = some value := by
  rw [List.mem_map]
  constructor
  · rintro ⟨⟨key, value⟩, listed, rfl⟩
    exact ⟨key, SortedMap.mem_entries.mp listed⟩
  · rintro ⟨key, found⟩
    exact ⟨(key, value), SortedMap.mem_entries.mpr found, rfl⟩

theorem mem_assumedHoldings_flatMap {Source : Type} {sources : List Source} {assumed : Source -> List AssumedClaim} :
    entry ∈ assumedHoldings (sources.flatMap assumed) <->
      Exists fun source => source ∈ sources ∧ entry ∈ assumedHoldings (assumed source) := by
  unfold assumedHoldings
  rw [List.flatMap_assoc, List.mem_flatMap]

theorem DeviceWorld.mem_known :
    entry ∈ w.known <->
      ((Exists fun key => Exists fun claim => w.claims.get key = some claim ∧ Shows claim entry) ∨
        (Exists fun key => Exists fun claim => w.seen.get key = some claim ∧ Shows claim entry) ∨
        (Exists fun uid => Exists fun assumed => w.assumedByPod.get uid = some assumed ∧ entry ∈ assumedHoldings assumed) ∨
        (Exists fun b => b ∈ w.bindings ∧ entry ∈ assumedHoldings b.stage.left)) ∨
      Exists fun claim => claim ∈ w.feed ∧ Shows claim entry := by
  have stored : forall m : SortedMap String ResourceClaim, entry ∈ claimHoldings (m.entries.map Prod.snd) <->
      Exists fun key => Exists fun claim => m.get key = some claim ∧ Shows claim entry := by
    intro m
    rw [mem_claimHoldings]
    constructor
    · rintro ⟨claim, listed, shows_⟩
      rcases mem_values.mp listed with ⟨key, found⟩
      exact ⟨key, claim, found, shows_⟩
    · rintro ⟨key, claim, found, shows_⟩
      exact ⟨claim, mem_values.mpr ⟨key, found⟩, shows_⟩
  have assumed : entry ∈ assumedHoldings (w.assumedByPod.entries.flatMap Prod.snd) <->
      Exists fun uid => Exists fun assumed => w.assumedByPod.get uid = some assumed ∧ entry ∈ assumedHoldings assumed := by
    rw [mem_assumedHoldings_flatMap]
    constructor
    · rintro ⟨⟨uid, assumed⟩, listed, inside⟩
      exact ⟨uid, assumed, SortedMap.mem_entries.mp listed, inside⟩
    · rintro ⟨uid, assumed, found, inside⟩
      exact ⟨(uid, assumed), SortedMap.mem_entries.mpr found, inside⟩
  unfold DeviceWorld.known DeviceWorld.holdings
  rw [List.mem_append, List.mem_append, List.mem_append, List.mem_append, stored, stored, assumed, mem_assumedHoldings_flatMap,
    mem_claimHoldings]
  simp only [or_assoc]
  rfl

end

/-! ## What the operations hold -/

namespace DeviceWorld

section
variable {w : DeviceWorld} {entry : String × DeviceId} {claim : ResourceClaim} {binding : Nat} {b : BindingCycle}

theorem known_store (listed : entry ∈ (w.store claim).known) : entry ∈ w.known ∨ Shows claim entry := by
  rcases mem_known.mp listed with (⟨key, found, there, shows_⟩ | seen | assumed | left) | ⟨told, there, shows_⟩
  · rw [store, SortedMap.get_insert] at there
    split_ifs at there
    · cases there
      exact Or.inr shows_
    · exact Or.inl (mem_known.mpr (Or.inl (Or.inl ⟨key, found, there, shows_⟩)))
  · exact Or.inl (mem_known.mpr (Or.inl (Or.inr (Or.inl seen))))
  · exact Or.inl (mem_known.mpr (Or.inl (Or.inr (Or.inr (Or.inl assumed)))))
  · exact Or.inl (mem_known.mpr (Or.inl (Or.inr (Or.inr (Or.inr left)))))
  · rcases List.mem_append.mp there with earlier | new
    · exact Or.inl (mem_known.mpr (Or.inr ⟨told, earlier, shows_⟩))
    · cases List.mem_singleton.mp new
      exact Or.inr shows_

theorem known_release {uid : String} (listed : entry ∈ (w.release uid).known) : entry ∈ w.known := by
  unfold release at listed
  split at listed
  · exact listed
  · rcases mem_known.mp listed with (claims | seen | ⟨owner, assumed, found, inside⟩ | left) | told
    · exact mem_known.mpr (Or.inl (Or.inl claims))
    · exact mem_known.mpr (Or.inl (Or.inr (Or.inl seen)))
    · rw [SortedMap.get_erase] at found
      split_ifs at found
      exact mem_known.mpr (Or.inl (Or.inr (Or.inr (Or.inl ⟨owner, assumed, found, inside⟩))))
    · exact mem_known.mpr (Or.inl (Or.inr (Or.inr (Or.inr left))))
    · exact mem_known.mpr (Or.inr told)

theorem known_bindings {bindings : List BindingCycle} (listed : entry ∈ ({ w with bindings := bindings } : DeviceWorld).known) :
    entry ∈ w.known ∨ Exists fun b => b ∈ bindings ∧ entry ∈ assumedHoldings b.stage.left := by
  rcases mem_known.mp listed with (claims | seen | assumed | left) | told
  · exact Or.inl (mem_known.mpr (Or.inl (Or.inl claims)))
  · exact Or.inl (mem_known.mpr (Or.inl (Or.inr (Or.inl seen))))
  · exact Or.inl (mem_known.mpr (Or.inl (Or.inr (Or.inr (Or.inl assumed)))))
  · exact Or.inr left
  · exact Or.inl (mem_known.mpr (Or.inr told))

theorem known_of_left (listed : b ∈ w.bindings) (inside : entry ∈ assumedHoldings b.stage.left) : entry ∈ w.known :=
  mem_known.mpr (Or.inl (Or.inr (Or.inr (Or.inr ⟨b, listed, inside⟩))))

theorem known_setStage {stage : Stage} (listed : entry ∈ (w.setStage binding b stage).known) :
    entry ∈ w.known ∨ entry ∈ assumedHoldings stage.left := by
  rcases known_bindings listed with there | ⟨other, member, inside⟩
  · exact Or.inl there
  · rcases List.mem_or_eq_of_mem_set member with old | rfl
    · exact Or.inl (known_of_left old inside)
    · exact Or.inr inside

theorem release_bindings (uid : String) : (w.release uid).bindings = w.bindings := by
  unfold release
  split <;> rfl

theorem known_finish (listed : entry ∈ (w.finish binding b).known) : entry ∈ w.known := by
  rcases known_bindings listed with there | ⟨other, member, inside⟩
  · exact known_release there
  · exact known_of_left (List.mem_of_mem_eraseIdx member) inside

theorem known_deliver (listed : entry ∈ w.deliver.known) : entry ∈ w.known := by
  unfold deliver at listed
  split at listed
  · exact listed
  · next told rest feed =>
      rcases mem_known.mp listed with (claims | ⟨key, claim, found, shows_⟩ | assumed | left) | ⟨claim, later, shows_⟩
      · exact mem_known.mpr (Or.inl (Or.inl claims))
      · rw [SortedMap.get_insert] at found
        split_ifs at found
        · cases found
          exact mem_known.mpr (Or.inr ⟨told, feed ▸ .head _, shows_⟩)
        · exact mem_known.mpr (Or.inl (Or.inr (Or.inl ⟨key, claim, found, shows_⟩)))
      · exact mem_known.mpr (Or.inl (Or.inr (Or.inr (Or.inl assumed))))
      · exact mem_known.mpr (Or.inl (Or.inr (Or.inr (Or.inr left))))
      · exact mem_known.mpr (Or.inr ⟨claim, feed ▸ .tail _ later, shows_⟩)

theorem known_create (listed : entry ∈ (w.create claim).known) : entry ∈ w.known := by
  unfold create at listed
  split at listed
  · exact listed
  · rcases known_store listed with there | shows_
    · exact there
    · exact absurd shows_.2 List.not_mem_nil

theorem known_deallocate {key : String} (listed : entry ∈ (w.deallocate key).known) : entry ∈ w.known := by
  unfold deallocate at listed
  split at listed
  · exact listed
  · rcases known_store listed with there | shows_
    · exact there
    · exact absurd shows_.2 List.not_mem_nil

theorem known_postFilter {reply : Reply} (listed : entry ∈ (w.postFilter reply).known) : entry ∈ w.known := by
  unfold postFilter at listed
  split at listed
  · exact listed
  · split_ifs at listed
    · exact listed
    · have there := known_deallocate listed
      exact there

theorem known_startPreBind (listed : entry ∈ (w.startPreBind binding).known) : entry ∈ w.known := by
  unfold startPreBind at listed
  split at listed
  · next b there =>
      split at listed
      · split at listed
        · exact (known_setStage listed).resolve_right List.not_mem_nil
        · next assumed given =>
            rcases known_setStage listed with old | inside
            · exact old
            · cases found : w.assumedByPod.get b.pod.uid with
              | none =>
                rw [found] at inside
                cases inside
              | some assumed =>
                rw [found] at inside
                exact mem_known.mpr (Or.inl (Or.inr (Or.inr (Or.inl ⟨_, assumed, found, inside⟩))))
      · exact listed
  · exact listed

theorem known_readClaim (listed : entry ∈ (w.readClaim binding).known) : entry ∈ w.known := by
  unfold readClaim at listed
  split at listed
  · next b there =>
      split at listed
      · next a left attempt stage =>
          split at listed
          · exact known_finish listed
          · rcases known_setStage listed with old | inside
            · exact old
            · refine known_of_left (List.mem_of_getElem? there) ?_
              rw [stage]
              exact inside
      · exact listed
  · exact listed

theorem known_unreserve (listed : entry ∈ (w.unreserve binding).known) : entry ∈ w.known := by
  unfold unreserve at listed
  split at listed
  · split_ifs at listed
    · exact listed
    · exact known_finish listed
  · exact listed

theorem known_bind {reply : Reply} (listed : entry ∈ (w.bind binding reply).known) : entry ∈ w.known := by
  unfold bind at listed
  split at listed
  · split_ifs at listed
    · cases reply with
      | refused => exact known_finish listed
      | lost =>
        have there := known_finish listed
        exact there
      | answered =>
        have there := (known_setStage listed).resolve_right List.not_mem_nil
        exact there
    · exact listed
  · exact listed

theorem known_postBind (listed : entry ∈ (w.postBind binding).known) : entry ∈ w.known := by
  unfold postBind at listed
  split at listed
  · split_ifs at listed
    · exact known_finish listed
    · exact listed
  · exact listed

theorem preFilter_known {selects : String -> Candidate -> Bool} {pod : ClaimingPod} {inventory : Inventory} :
    (w.preFilter selects pod inventory).known = w.known := by
  unfold preFilter
  split
  · rfl
  · split
    · rfl
    · split_ifs <;> rfl

end

end DeviceWorld

end DynamicResources

end NotK8s.Scheduler

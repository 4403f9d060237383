import Mathlib.Data.List.GetD
import NotK8s.Scheduler.DynamicResources

namespace NotK8s.Scheduler

open Library

namespace DynamicResources

/-!
# What a cycle plans

Whatever node is chosen, the devices that are assumed for the claims of a pod
are devices of a node, were not excluded when the plan was made, and are not
given to two of the claims.
-/

/-- The devices that are assumed, under the claims they are for. -/
def assumedHoldings (assumed : List AssumedClaim) : List (String × DeviceId) :=
  assumed.flatMap fun a => (exclusive a.newDevices).map (Prod.mk a.claimKey)

/-- The claims of the pod that have no allocation in the snapshot. -/
def pendingKeys (pod : ClaimingPod) (claims : SortedMap String ResourceClaim) : List String :=
  pod.claimKeys.filter fun key => (claims.get key).any fun claim => !claim.bound

namespace WantedClaim

def key : WantedClaim -> String
  | .reserved claimKey _ => claimKey
  | .pending claimKey _ => claimKey

def pending? : WantedClaim -> Option String
  | .reserved _ _ => none
  | .pending claimKey _ => some claimKey

end WantedClaim

variable {pod : ClaimingPod} {claims : SortedMap String ResourceClaim} {inventory : Inventory}
  {excluded : Finset DeviceId} {selects : String -> Candidate -> Bool} {wanted : List WantedClaim} {node : String}
  {assumed : List AssumedClaim} {plans : List ClaimPlan}

/-! ## The claims of the pod -/

/-- A claim that is planned for is one the pod names, and a pending one has no
allocation. -/
theorem wantedClaim_key (keys : Keys ResourceClaim.key claims) {pc : PodClaimRef} {claim : WantedClaim}
    (read : wantedClaim pod claims pc = .ok claim) :
    (pc.objectName pod.resourceClaimStatuses).map (fun claimName => pod.podNamespace ++ "/" ++ claimName) =
      some claim.key ∧
    forall key, claim.pending? = some key -> (claims.get key).any (fun claim => !claim.bound) = true := by
  unfold wantedClaim at read
  cases named : pc.objectName pod.resourceClaimStatuses with
  | none =>
    rw [named] at read
    cases read
  | some claimName =>
    rw [named] at read
    dsimp only at read
    cases found : claims.get (pod.podNamespace ++ "/" ++ claimName) with
    | none =>
      rw [found] at read
      cases read
    | some object =>
      rw [found] at read
      dsimp only at read
      have here : pod.podNamespace ++ "/" ++ claimName = object.key := keys _ (SortedMap.mem_entries.mpr found)
      rw [Option.map_some, here]
      by_cases deleted : object.deletionTimestamp.isSome = true
      · rw [if_pos deleted] at read
        cases read
      rw [if_neg deleted] at read
      by_cases foreign : (pc.resourceClaimTemplateName.isSome && !ownedBy object pod) = true
      · rw [if_pos foreign] at read
        cases read
      rw [if_neg foreign] at read
      by_cases bound : object.bound = true
      · rw [if_pos bound] at read
        cases read
        exact ⟨rfl, nofun⟩
      rw [if_neg bound] at read
      split at read
      · cases read
      · cases read
        refine ⟨rfl, fun key is => ?_⟩
        rw [← Option.some.inj is, ← here, found, Option.any_some, Bool.eq_false_iff.mpr bound]
        rfl

theorem wantedClaims_keys (keys : Keys ResourceClaim.key claims) {refs : List PodClaimRef}
    (read : refs.mapM (wantedClaim pod claims) = .ok wanted) :
    (refs.filterMap fun pc =>
      (pc.objectName pod.resourceClaimStatuses).map fun claimName => pod.podNamespace ++ "/" ++ claimName) =
        wanted.map WantedClaim.key ∧
    forall key, key ∈ wanted.filterMap WantedClaim.pending? ->
      (claims.get key).any (fun claim => !claim.bound) = true := by
  induction refs generalizing wanted with
  | nil =>
    cases read
    exact ⟨rfl, nofun⟩
  | cons pc rest ih =>
    rw [List.mapM_cons] at read
    cases first : wantedClaim pod claims pc with
    | error status =>
      rw [first] at read
      cases read
    | ok claim =>
      rw [first] at read
      cases later : rest.mapM (wantedClaim pod claims) with
      | error status =>
        rw [later] at read
        cases read
      | ok others =>
        rw [later] at read
        cases read
        have here := wantedClaim_key keys first
        have there := ih later
        refine ⟨?_, ?_⟩
        · rw [List.filterMap_cons, here.1, there.1]
          rfl
        · intro key listed
          rcases List.mem_filterMap.mp listed with ⟨other, member, is⟩
          rcases List.mem_cons.mp member with rfl | member
          · exact here.2 key is
          · exact there.2 key (List.mem_filterMap.mpr ⟨other, member, is⟩)

theorem wantedClaim_error {pc : PodClaimRef} {status : Status} (failed : wantedClaim pod claims pc = .error status) :
    status.isSkip = false := by
  unfold wantedClaim at failed
  split at failed
  · cases failed
    rfl
  · split at failed
    · cases failed
      rfl
    · dsimp only at failed
      split_ifs at failed
      · cases failed
        rfl
      · cases failed
        rfl
      · cases failed
        rfl

theorem preFilterImpl_skip {status : Status} (refused : preFilterImpl selects pod claims inventory excluded = .error status)
    (skips : status.isSkip = true) : pod.claimKeys = [] := by
  have each : forall refs : List PodClaimRef, refs.mapM (wantedClaim pod claims) ≠ .error status := by
    intro refs
    induction refs with
    | nil => nofun
    | cons pc rest ih =>
      intro failed
      rw [List.mapM_cons] at failed
      cases first : wantedClaim pod claims pc with
      | error reason =>
        rw [first] at failed
        cases failed
        rw [wantedClaim_error first] at skips
        cases skips
      | ok claim =>
        rw [first] at failed
        cases later : rest.mapM (wantedClaim pod claims) with
        | error reason =>
          rw [later] at failed
          cases failed
          exact ih later
        | ok others =>
          rw [later] at failed
          cases failed
  unfold preFilterImpl at refused
  by_cases idle : pod.resourceClaims.isEmpty = true
  · unfold ClaimingPod.claimKeys
    rw [List.isEmpty_iff.mp idle]
    rfl
  · rw [if_neg idle] at refused
    cases read : pod.resourceClaims.mapM (wantedClaim pod claims) with
    | error reason =>
      rw [read] at refused
      cases refused
      exact absurd read (each _)
    | ok wanted =>
      rw [read] at refused
      cases refused

/-! ## The tables -/

/-- The keys of the pending claims with their shares. -/
def sharedOut : List WantedClaim -> (Nat -> List DeviceId) -> List (String × DeviceId)
  | [], _ => []
  | .reserved _ _ :: rest, share => sharedOut rest share
  | .pending claimKey _ :: rest, share =>
    (share 0).map (Prod.mk claimKey) ++ sharedOut rest fun index => share (index + 1)

theorem mem_sharedOut {share : Nat -> List DeviceId} {entry : String × DeviceId} (listed : entry ∈ sharedOut wanted share) :
    Exists fun index => (wanted.filterMap WantedClaim.pending?)[index]? = some entry.1 ∧ entry.2 ∈ share index := by
  induction wanted generalizing share with
  | nil => cases listed
  | cons claim rest ih =>
    cases claim with
    | reserved claimKey selector => exact ih listed
    | pending claimKey input =>
      rcases List.mem_append.mp listed with here | there
      · rcases List.mem_map.mp here with ⟨device, inside, rfl⟩
        exact ⟨0, rfl, inside⟩
      · rcases ih there with ⟨index, key, inside⟩
        exact ⟨index + 1, key, inside⟩

theorem assume_plansOf {tables : Nat -> SortedMap String PendingAllocation}
    (made : (plansOf wanted tables).mapM (assume node) = some assumed) :
    assumed.map AssumedClaim.claimKey = wanted.map WantedClaim.key ∧
    assumedHoldings assumed =
      sharedOut wanted fun index => ((tables index).get node).elim [] fun allocation => exclusive allocation.devices := by
  induction wanted generalizing tables assumed with
  | nil =>
    cases made
    exact ⟨rfl, rfl⟩
  | cons claim rest ih =>
    cases claim with
    | reserved claimKey selector =>
      rw [plansOf, List.mapM_cons] at made
      cases later : (plansOf rest tables).mapM (assume node) with
      | none =>
        rw [later] at made
        cases made
      | some others =>
        rw [later] at made
        cases made
        have there := ih later
        exact ⟨congrArg (List.cons claimKey) there.1, there.2⟩
    | pending claimKey input =>
      rw [plansOf, List.mapM_cons] at made
      cases found : (tables 0).get node with
      | none =>
        rw [assume, found] at made
        cases made
      | some allocation =>
        rw [assume, found] at made
        cases later : (plansOf rest fun index => tables (index + 1)).mapM (assume node) with
        | none =>
          rw [later] at made
          cases made
        | some others =>
          rw [later] at made
          cases made
          have there := ih later
          refine ⟨congrArg (List.cons claimKey) there.1, ?_⟩
          rw [sharedOut, ← there.2, found]
          rfl

theorem shareOf_get {perNode : List (String × List PendingAllocation)} {index : Nat} :
    (shareOf perNode index).get node = ((SortedMap.ofList perNode).get node).map fun perClaim => perClaim.getD index ⟨[], []⟩ :=
  SortedMap.get_ofList_map (f := fun perClaim : List PendingAllocation => perClaim.getD index ⟨[], []⟩)

theorem getD_devices {pending : List ClaimAllocationInput} {perClaim : List (List DeviceRequestAllocationResult)}
    {deviceClasses : SortedMap String DeviceClass} (same : perClaim.length = pending.length) (index : Nat) :
    (((pending.zip perClaim).map fun pair => (⟨pair.2, allocationConfig pair.1 pair.2 deviceClasses⟩ : PendingAllocation)).getD
      index ⟨[], []⟩).devices = perClaim.getD index [] := by
  induction perClaim generalizing pending index with
  | nil =>
    rw [List.zip_nil_right]
    rfl
  | cons devices rest ih =>
    cases pending with
    | nil => cases same
    | cons input others =>
      cases index with
      | zero => rfl
      | succ index => exact ih (Nat.succ.inj same) index

/-- The shares of one node are disjoint, free, and devices of the node. -/
theorem shares_clean {perClaim : List (List DeviceRequestAllocationResult)} {candidates : List Candidate}
    (clean : CleanSolution perClaim excluded ∅ candidates) {index : Nat} {device : DeviceId}
    (inside : device ∈ exclusive (perClaim.getD index [])) :
    device ∉ excluded ∧ device ∈ candidates.map Candidate.id ∧
    forall other, device ∈ exclusive (perClaim.getD other []) -> index = other := by
  have inBounds : forall {i}, device ∈ exclusive (perClaim.getD i []) ->
      Exists fun small : i < perClaim.length => device ∈ exclusive (perClaim.get ⟨i, small⟩) := by
    intro i held
    by_cases small : i < perClaim.length
    · rw [List.getD_eq_getElem _ _ small] at held
      exact ⟨small, held⟩
    · rw [List.getD_eq_default _ _ (Nat.not_lt.mp small)] at held
      cases held
  rcases inBounds inside with ⟨small, held⟩
  have listed : device ∈ perClaim.flatMap exclusive := List.mem_flatMap.mpr ⟨_, List.get_mem perClaim ⟨index, small⟩, held⟩
  refine ⟨clean.free device listed, clean.listed device listed, fun other there => ?_⟩
  rcases inBounds there with ⟨smallOther, heldOther⟩
  have apart := List.pairwise_iff_getElem.mp (List.nodup_flatMap.mp clean.once).2
  rcases Nat.lt_trichotomy index other with less | same | greater
  · exact absurd heldOther (List.disjoint_left.mp (apart index other small smallOther less) held)
  · exact same
  · exact absurd held (List.disjoint_left.mp (apart other index smallOther small greater) heldOther)

/-! ## The plan -/

/-- What a plan of PreFilter assumes on a node. -/
structure Planned (pod : ClaimingPod) (claims : SortedMap String ResourceClaim) (inventory : Inventory)
    (excluded : Finset DeviceId) (assumed : List AssumedClaim) : Prop where
  covers : assumed.map AssumedClaim.claimKey = pod.claimKeys
  pending : forall entry, entry ∈ assumedHoldings assumed -> entry.1 ∈ pendingKeys pod claims
  free : forall entry, entry ∈ assumedHoldings assumed -> entry.2 ∉ excluded
  offered : forall entry, entry ∈ assumedHoldings assumed -> Exists fun node : NodeInfo => node ∈ inventory.nodes ∧
    entry.2 ∈ (candidatesForNode inventory.slices node).map Candidate.id
  apart : forall entry entry', entry ∈ assumedHoldings assumed -> entry' ∈ assumedHoldings assumed ->
    entry.2 = entry'.2 -> entry.1 = entry'.1

theorem preFilterImpl_planned (keys : Keys ResourceClaim.key claims)
    (planned : preFilterImpl selects pod claims inventory excluded = .ok plans)
    (made : plans.mapM (assume node) = some assumed) : Planned pod claims inventory excluded assumed := by
  unfold preFilterImpl at planned
  by_cases idle : pod.resourceClaims.isEmpty = true
  · rw [if_pos idle] at planned
    cases planned
  rw [if_neg idle] at planned
  cases read : pod.resourceClaims.mapM (wantedClaim pod claims) with
  | error status =>
    rw [read] at planned
    cases planned
  | ok wanted =>
    rw [read] at planned
    cases planned
    have named := wantedClaims_keys keys read
    have assumes := assume_plansOf made
    have pendingKey : forall {key}, key ∈ wanted.filterMap WantedClaim.pending? -> key ∈ pendingKeys pod claims := by
      intro key listed
      refine List.mem_filter.mpr ⟨?_, named.2 key listed⟩
      rcases List.mem_filterMap.mp listed with ⟨claim, member, is⟩
      have same : claim.key = key := by
        cases claim with
        | reserved claimKey selector => cases is
        | pending claimKey input => exact Option.some.inj is
      have inside : key ∈ wanted.map WantedClaim.key := List.mem_map.mpr ⟨claim, member, same⟩
      rw [← named.1] at inside
      exact inside
    have table := @shareOf_get node (allocations selects inventory excluded (wanted.filterMap WantedClaim.input?))
    cases found : (SortedMap.ofList (allocations selects inventory excluded (wanted.filterMap WantedClaim.input?))).get node with
    | none =>
      have nothing : forall entry, entry ∉ assumedHoldings assumed := by
        intro entry listed
        rw [assumes.2] at listed
        rcases mem_sharedOut listed with ⟨index, -, inside⟩
        rw [table, found] at inside
        cases inside
      exact ⟨assumes.1.trans named.1.symm, fun entry listed => absurd listed (nothing entry),
        fun entry listed => absurd listed (nothing entry), fun entry listed => absurd listed (nothing entry),
        fun entry _ listed => absurd listed (nothing entry)⟩
    | some perClaim =>
      rcases List.mem_filterMap.mp (SortedMap.mem_of_get_ofList found) with ⟨source, there, solved⟩
      rcases Option.map_eq_some_iff.mp solved with ⟨solution, allocated, same⟩
      have clean := allocateClaimsOnNode_clean allocated
      have share : forall {entry}, entry ∈ assumedHoldings assumed -> Exists fun index =>
          (wanted.filterMap WantedClaim.pending?)[index]? = some entry.1 ∧ entry.2 ∈ exclusive (solution.getD index []) := by
        intro entry listed
        rw [assumes.2] at listed
        rcases mem_sharedOut listed with ⟨index, key, inside⟩
        rw [table, found, Option.map_some, Option.elim_some, ← (Prod.mk.inj same).2, getD_devices clean.2] at inside
        exact ⟨index, key, inside⟩
      refine ⟨assumes.1.trans named.1.symm, ?_, ?_, ?_, ?_⟩
      · intro entry listed
        rcases share listed with ⟨index, key, -⟩
        exact pendingKey (List.mem_of_getElem? key)
      · intro entry listed
        rcases share listed with ⟨index, -, inside⟩
        exact (shares_clean clean.1 inside).1
      · intro entry listed
        rcases share listed with ⟨index, -, inside⟩
        exact ⟨source, there, (shares_clean clean.1 inside).2.1⟩
      · intro entry entry' listed listed' device
        rcases share listed with ⟨index, key, inside⟩
        rcases share listed' with ⟨index', key', inside'⟩
        have same := (shares_clean clean.1 inside).2.2 index' (device ▸ inside')
        rw [same, key'] at key
        exact (Option.some.inj key).symm

end DynamicResources

end NotK8s.Scheduler

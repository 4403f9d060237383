import NotK8s.Scheduler.DeviceCustody

namespace NotK8s.Scheduler

open Library

namespace DynamicResources

/-!
# Exclusive devices, and pods on the nodes of their claims

Along a run of orderly steps no device is held for two claims, and every
claim of a bound pod is allocated to the pod's node.  The first rests on what
a plan may take, the second on what a binding cycle finds when it writes.
-/

section
variable {current claim : ResourceClaim} {pod : ClaimingPod} {node other : String} {a : AssumedClaim}

/-- What is written for a claim that had an allocation is that allocation. -/
theorem committedAllocation_some {existing : AllocationResult} (found : current.allocation = some existing) :
    committedAllocation node a current = existing := by
  unfold committedAllocation
  rw [found]

theorem allocatedTo_committed_of_allocatedTo (was : allocatedTo current other = true) :
    allocatedTo { claim with status := some (committed pod node a current) } other = true := by
  unfold allocatedTo at was
  cases found : current.allocation with
  | none =>
    rw [found] at was
    cases was
  | some existing =>
    rw [found] at was
    change Option.any _ (some (committedAllocation node a current)) = true
    rw [committedAllocation_some found]
    exact was

theorem allocatedTo_committed (agrees : current.bound = true -> allocatedTo current node = true) :
    allocatedTo { claim with status := some (committed pod node a current) } node = true := by
  cases found : current.allocation with
  | none =>
    change Option.any _ (some (committedAllocation node a current)) = true
    unfold committedAllocation
    rw [found, Option.any_some]
    exact decide_eq_true rfl
  | some existing =>
    apply allocatedTo_committed_of_allocatedTo
    apply agrees
    unfold ResourceClaim.bound
    rw [found]
    rfl

theorem allocated_committed {device : DeviceId}
    (held : device ∈ ({ claim with status := some (committed pod node a current) } : ResourceClaim).allocated) :
    device ∈ current.allocated ∨ device ∈ exclusive a.newDevices := by
  cases found : current.allocation with
  | none =>
    have written : ({ claim with status := some (committed pod node a current) } : ResourceClaim).allocated =
        exclusive a.newDevices := by
      change exclusive (((committedAllocation node a current).devices.bind DeviceAllocationResult.results).getD []) = _
      unfold committedAllocation
      rw [found]
      rfl
    exact Or.inr (written ▸ held)
  | some existing =>
    left
    unfold ResourceClaim.allocated
    rw [found]
    change device ∈ exclusive (((committedAllocation node a current).devices.bind DeviceAllocationResult.results).getD []) at held
    rw [committedAllocation_some found] at held
    exact held

end

namespace DeviceWorld

variable {w w' : DeviceWorld} {claim : ResourceClaim} {binding : Nat} {b : BindingCycle} {stage : Stage} {uid : String}

/-! ## What a write does -/

/-- Where a binding cycle goes on when one claim is written. -/
def afterWrite : List AssumedClaim -> Stage
  | [] => .binding
  | left => .preBind left 0 none

theorem afterWrite_unread {left : List AssumedClaim} (left' : List AssumedClaim) (attempt : Nat) (current : ResourceClaim) :
    afterWrite left ≠ .preBind left' attempt (some current) := by
  cases left with
  | nil => nofun
  | cons a rest => nofun

theorem afterWrite_left (left : List AssumedClaim) : (afterWrite left).left = left := by
  cases left with
  | nil => rfl
  | cons a rest => rfl

/-- A write is refused, or is to be tried again, or stores what was committed
to the claim that was read. -/
theorem writeClaim_cases {reply : Reply} :
    w.writeClaim binding reply = w ∨ Exists fun b => w.bindings[binding]? = some b ∧
      (w.writeClaim binding reply = w.finish binding b ∨
        Exists fun a => Exists fun left => Exists fun attempt => Exists fun current =>
          b.stage = .preBind (a :: left) attempt (some current) ∧
          (w.writeClaim binding reply = w.setStage binding b (.preBind (a :: left) (attempt + 1) none) ∨
            Exists fun claim => w.claims.get a.claimKey = some claim ∧
              (current.resourceVersion.isSome = true -> claim.resourceVersion = current.resourceVersion) ∧
              (w.writeClaim binding reply =
                  (w.store { claim with status := some (committed b.pod b.node a current) }).finish binding b ∨
                w.writeClaim binding reply =
                  (w.store { claim with status := some (committed b.pod b.node a current) }).setStage binding b
                    (afterWrite left)))) := by
  unfold writeClaim
  cases there : w.bindings[binding]? with
  | none => exact Or.inl rfl
  | some b =>
    dsimp only
    split
    · next a left attempt current reading =>
        refine Or.inr ⟨b, rfl, ?_⟩
        by_cases refused : reply = .refused
        · exact Or.inl (if_pos refused)
        rw [if_neg refused]
        cases found : w.claims.get a.claimKey with
        | none => exact Or.inl rfl
        | some claim =>
          dsimp only
          by_cases conflict : (current.resourceVersion.isSome && decide (claim.resourceVersion ≠ current.resourceVersion)) = true
          · rw [if_pos conflict]
            by_cases last : (decide (reply = .lost) || decide (attempt + 1 = maxConflictRetries)) = true
            · exact Or.inl (if_pos last)
            · rw [if_neg last]
              exact Or.inr ⟨a, left, attempt, current, reading, Or.inl rfl⟩
          · rw [if_neg conflict]
            have current_ : current.resourceVersion.isSome = true -> claim.resourceVersion = current.resourceVersion := by
              intro versioned
              rw [versioned, Bool.true_and, decide_eq_true_iff, not_not] at conflict
              exact conflict
            refine Or.inr ⟨a, left, attempt, current, reading, Or.inr ⟨claim, found, current_, ?_⟩⟩
            by_cases lost : reply = .lost
            · exact Or.inl (if_pos lost)
            · rw [if_neg lost]
              cases left with
              | nil | cons next rest => exact Or.inr rfl
    · exact Or.inl rfl

/-! ## The records of the API server -/

/-- A claim that was read is the one that is stored, as long as its version
is. -/
def Fresh (w : DeviceWorld) (b : BindingCycle) : Prop :=
  forall a left attempt current, b.stage = .preBind (a :: left) attempt (some current) -> Exists fun version =>
    current.resourceVersion = some version ∧ version ≤ w.revision ∧
      forall claim, w.claims.get a.claimKey = some claim -> claim.resourceVersion = some version -> claim = current

structure Records (w : DeviceWorld) : Prop where
  keyed : Keys ResourceClaim.key w.claims
  shown : Keys ResourceClaim.key w.seen
  versioned : forall key claim, w.claims.get key = some claim -> Exists fun version =>
    claim.resourceVersion = some version ∧ version ≤ w.revision
  reads : forall b, b ∈ w.bindings -> w.Fresh b

theorem Records.store (records : w.Records) (claim : ResourceClaim) : (w.store claim).Records := by
  refine ⟨records.keyed.mirror (.apply { claim with resourceVersion := some (w.revision + 1) }), records.shown, ?_, ?_⟩
  · intro key stored found
    rw [DeviceWorld.store, SortedMap.get_insert] at found
    split_ifs at found
    · cases found
      exact ⟨w.revision + 1, rfl, Nat.le_refl _⟩
    · rcases records.versioned key stored found with ⟨version, is, old⟩
      exact ⟨version, is, Nat.le_succ_of_le old⟩
  · intro b listed a left attempt current reading
    rcases records.reads b listed a left attempt current reading with ⟨version, is, old, same⟩
    refine ⟨version, is, Nat.le_succ_of_le old, fun stored found read => ?_⟩
    rw [DeviceWorld.store, SortedMap.get_insert] at found
    split_ifs at found
    · cases found
      exact absurd (Option.some.inj read ▸ old) (Nat.not_succ_le_self _)
    · exact same stored found read

theorem Records.release (records : w.Records) (uid : String) : (w.release uid).Records := by
  unfold DeviceWorld.release
  split
  · exact records
  · exact ⟨records.keyed, records.shown, records.versioned, records.reads⟩

theorem Records.finish (records : w.Records) (binding : Nat) (b : BindingCycle) : (w.finish binding b).Records := by
  have released := records.release b.pod.uid
  refine ⟨released.keyed, released.shown, released.versioned, fun other listed => ?_⟩
  exact released.reads other (by
    rw [release_bindings]
    exact List.mem_of_mem_eraseIdx listed)

theorem Records.setStage (records : w.Records) (fresh : w.Fresh { b with stage := stage }) :
    (w.setStage binding b stage).Records := by
  refine ⟨records.keyed, records.shown, records.versioned, fun other listed => ?_⟩
  rcases List.mem_or_eq_of_mem_set listed with old | rfl
  · exact records.reads other old
  · exact fresh

theorem fresh_of_unread (unread : forall left attempt current, stage ≠ .preBind left attempt (some current)) :
    w.Fresh { b with stage := stage } :=
  fun _ _ _ _ reading => absurd reading (unread _ _ _)

section

variable (records : w.Records)
include records

theorem Records.create (claim : ResourceClaim) : (w.create claim).Records := by
  unfold DeviceWorld.create
  split
  · exact records
  · exact records.store _

theorem Records.deliver : w.deliver.Records := by
  unfold DeviceWorld.deliver
  split
  · exact records
  · next told rest feed => exact ⟨records.keyed, records.shown.mirror (.apply told), records.versioned, records.reads⟩

theorem Records.postFilter (reply : Reply) : (w.postFilter reply).Records := by
  have ended : ({ w with cycle := none } : DeviceWorld).Records :=
    ⟨records.keyed, records.shown, records.versioned, records.reads⟩
  unfold DeviceWorld.postFilter
  dsimp only
  split
  · exact ended
  · split_ifs
    · exact ended
    · unfold DeviceWorld.deallocate
      split
      · exact ended
      · exact ended.store _

theorem Records.preFilter (selects : String -> Candidate -> Bool) (pod : ClaimingPod)
    (inventory : Inventory) : (w.preFilter selects pod inventory).Records := by
  unfold DeviceWorld.preFilter
  split
  · exact records
  · split
    · exact ⟨records.keyed, records.shown, records.versioned, records.reads⟩
    · split_ifs
      · exact ⟨records.keyed, records.shown, records.versioned, records.reads⟩
      · exact records

theorem Records.reserve (node : NodeInfo) : (w.reserve node).Records := by
  have more : forall pod, forall b, b ∈ w.bindings ++ [(⟨pod, node.name, .reserved⟩ : BindingCycle)] -> w.Fresh b := by
    intro pod b listed
    rcases List.mem_append.mp listed with old | new
    · exact records.reads b old
    · cases List.mem_singleton.mp new
      exact @fresh_of_unread w ⟨pod, node.name, .reserved⟩ .reserved (fun _ _ _ no => nomatch no)
  unfold DeviceWorld.reserve
  split
  · exact records
  · split_ifs
    · exact records
    · split
      · exact ⟨records.keyed, records.shown, records.versioned, more _⟩
      · split
        · exact ⟨records.keyed, records.shown, records.versioned, records.reads⟩
        · exact ⟨records.keyed, records.shown, records.versioned, more _⟩

theorem Records.startPreBind (binding : Nat) : (w.startPreBind binding).Records := by
  unfold DeviceWorld.startPreBind
  split
  · split
    · split
      · exact records.setStage (fresh_of_unread fun _ _ _ reading => nomatch reading)
      · exact records.setStage (fresh_of_unread fun _ _ _ reading => nomatch reading)
    · exact records
  · exact records

theorem Records.readClaim (binding : Nat) : (w.readClaim binding).Records := by
  unfold DeviceWorld.readClaim
  split
  · split
    · split
      · exact records.finish _ _
      · next a left attempt _ current found =>
          refine records.setStage fun a' left' attempt' current' reading => ?_
          cases reading
          rcases records.versioned _ _ found with ⟨version, is, old⟩
          refine ⟨version, is, old, fun claim there _ => ?_⟩
          rw [found] at there
          exact (Option.some.inj there).symm
    · exact records
  · exact records

theorem Records.writeClaim (binding : Nat) (reply : Reply) : (w.writeClaim binding reply).Records := by
  rcases @writeClaim_cases w binding reply with same | ⟨b, -, same | ⟨a, left, attempt, current, -, same | ⟨claim, -, -, same⟩⟩⟩
  · exact same.symm ▸ records
  · exact same.symm ▸ records.finish _ _
  · exact same.symm ▸ records.setStage (fresh_of_unread fun _ _ _ reading => nomatch reading)
  · rcases same with same | same
    · exact same.symm ▸ (records.store _).finish _ _
    · exact same.symm ▸ (records.store _).setStage (fresh_of_unread afterWrite_unread)

theorem Records.unreserve (binding : Nat) : (w.unreserve binding).Records := by
  unfold DeviceWorld.unreserve
  split
  · split_ifs
    · exact records
    · exact records.finish _ _
  · exact records

theorem Records.bind (binding : Nat) (reply : Reply) : (w.bind binding reply).Records := by
  have more : forall bound, ({ w with bound := bound } : DeviceWorld).Records :=
    fun _ => ⟨records.keyed, records.shown, records.versioned, records.reads⟩
  unfold DeviceWorld.bind
  split
  · split_ifs
    · split
      · exact records.finish _ _
      · exact (more _).finish _ _
      · exact (more _).setStage (fresh_of_unread fun _ _ _ reading => nomatch reading)
    · exact records
  · exact records

theorem Records.postBind (binding : Nat) : (w.postBind binding).Records := by
  unfold DeviceWorld.postBind
  split
  · split_ifs
    · exact records.finish _ _
    · exact records
  · exact records

theorem Records.step (selects : String -> Candidate -> Bool) (label : DeviceStep) :
    (w.step selects label).Records := by
  cases label with
  | create claim => exact records.create claim
  | deliver => exact records.deliver
  | preFilter pod inventory => exact records.preFilter selects pod inventory
  | abandon => exact ⟨records.keyed, records.shown, records.versioned, records.reads⟩
  | postFilter reply => exact records.postFilter reply
  | reserve node => exact records.reserve node
  | startPreBind binding => exact records.startPreBind binding
  | readClaim binding => exact records.readClaim binding
  | writeClaim binding reply => exact records.writeClaim binding reply
  | unreserve binding => exact records.unreserve binding
  | bind binding reply => exact records.bind binding reply
  | postBind binding => exact records.postBind binding

/-! ## Exclusive devices -/

theorem Records.current {a : AssumedClaim} {left : List AssumedClaim} {attempt : Nat}
    {current : ResourceClaim} (there : w.bindings[binding]? = some b)
    (reading : b.stage = .preBind (a :: left) attempt (some current)) (found : w.claims.get a.claimKey = some claim)
    (version : current.resourceVersion.isSome = true -> claim.resourceVersion = current.resourceVersion) : claim = current := by
  rcases records.reads b (List.mem_of_getElem? there) a left attempt current reading with ⟨number, is, -, same⟩
  exact same claim found ((version (is ▸ rfl)).trans is)

theorem known_writeClaim {reply : Reply} {entry : String × DeviceId}
    (listed : entry ∈ (w.writeClaim binding reply).known) : entry ∈ w.known := by
  rcases @writeClaim_cases w binding reply with
    same | ⟨b, there, same | ⟨a, left, attempt, current, reading, same | ⟨claim, found, version, same⟩⟩⟩
  · exact same ▸ listed
  · exact known_finish (same ▸ listed)
  · rcases known_setStage (same ▸ listed) with old | inside
    · exact old
    · exact known_of_left (List.mem_of_getElem? there) (reading ▸ inside)
  · have isCurrent := records.current there reading found version
    have ofLeft : entry ∈ assumedHoldings (a :: left) -> entry ∈ w.known := fun inside =>
      known_of_left (List.mem_of_getElem? there) (reading ▸ inside)
    have stored : entry ∈ (w.store { claim with status := some (committed b.pod b.node a current) }).known -> entry ∈ w.known := by
      intro listed
      rcases known_store listed with old | shows_
      · exact old
      · rcases allocated_committed shows_.2 with had | assumed
        · exact mem_known.mpr (Or.inl (Or.inl ⟨a.claimKey, claim, found, shows_.1, isCurrent ▸ had⟩))
        · apply ofLeft
          have key : claim.key = a.claimKey := (records.keyed _ (SortedMap.mem_entries.mpr found)).symm
          rw [assumedHoldings_cons]
          exact List.mem_append_left _ (List.mem_map.mpr ⟨entry.2, assumed, Prod.ext (key.symm.trans shows_.1) rfl⟩)
    rcases same with same | same
    · exact stored (known_finish (same ▸ listed))
    · rcases known_setStage (same ▸ listed) with old | inside
      · exact stored old
      · rw [afterWrite_left] at inside
        apply ofLeft
        rw [assumedHoldings_cons]
        exact List.mem_append_right _ inside

end

/-- Nothing is held for two claims, and nothing that is planned is held for
another claim or planned for two. -/
structure Apart (w : DeviceWorld) : Prop where
  held : forall entry, entry ∈ w.known -> forall entry', entry' ∈ w.known -> entry.2 = entry'.2 -> entry.1 = entry'.1
  planned : forall c, w.cycle = some c -> forall wanted, c.wanted = some wanted -> forall node assumed,
    wanted.mapM (assume node) = some assumed -> forall entry, entry ∈ assumedHoldings assumed ->
      (forall entry', entry' ∈ w.known -> entry.2 = entry'.2 -> entry.1 = entry'.1) ∧
      forall entry', entry' ∈ assumedHoldings assumed -> entry.2 = entry'.2 -> entry.1 = entry'.1

theorem Apart.of_less (apart : w.Apart) (less : forall entry, entry ∈ w'.known -> entry ∈ w.known)
    (cycle : forall c, w'.cycle = some c -> w.cycle = some c) : w'.Apart where
  held entry listed entry' listed' := apart.held entry (less entry listed) entry' (less entry' listed')
  planned c inCycle wanted plans node assumed made entry listed :=
    have was := apart.planned c (cycle c inCycle) wanted plans node assumed made entry listed
    ⟨fun entry' listed' => was.1 entry' (less entry' listed'), was.2⟩

theorem Apart.reserve (apart : w.Apart) (node : NodeInfo) : (w.reserve node).Apart := by
  unfold DeviceWorld.reserve
  cases inCycle : w.cycle with
  | none => exact apart
  | some c =>
    dsimp only
    split_ifs with refused
    · exact apart
    · have spawned : forall {entry}, entry ∈ ({ w with
          cycle := none, bindings := w.bindings ++ [⟨c.pod, node.name, .reserved⟩] } : DeviceWorld).known -> entry ∈ w.known := by
        intro entry listed
        rcases known_bindings listed with old | ⟨b, member, inside⟩
        · exact old
        · rcases List.mem_append.mp member with old | new
          · exact known_of_left old inside
          · rw [List.mem_singleton.mp new] at inside
            cases inside
      cases plans : c.wanted with
      | none => exact apart.of_less (fun _ listed => spawned listed) (fun _ no => nomatch no)
      | some wanted =>
        dsimp only
        cases made : wanted.mapM (assume node.name) with
        | none => exact apart.of_less (fun _ listed => listed) (fun _ no => nomatch no)
        | some assumed =>
          have planned := apart.planned c inCycle wanted plans node.name assumed made
          have parts : forall {entry}, entry ∈ ({ w with
              cycle := none
              bindings := w.bindings ++ [⟨c.pod, node.name, .reserved⟩]
              assumedDevices := w.assumedDevices ∪ (assumed.flatMap fun a => exclusive a.newDevices).toFinset
              assumedByPod := w.assumedByPod.insert c.pod.uid assumed } : DeviceWorld).known ->
              entry ∈ w.known ∨ entry ∈ assumedHoldings assumed := by
            intro entry listed
            rcases mem_known.mp listed with (claims | seen | ⟨uid, others, found, inside⟩ | left) | told
            · exact Or.inl (mem_known.mpr (Or.inl (Or.inl claims)))
            · exact Or.inl (mem_known.mpr (Or.inl (Or.inr (Or.inl seen))))
            · rw [SortedMap.get_insert] at found
              split_ifs at found
              · cases found
                exact Or.inr inside
              · exact Or.inl (mem_known.mpr (Or.inl (Or.inr (Or.inr (Or.inl ⟨uid, others, found, inside⟩)))))
            · exact Or.inl (spawned (mem_known.mpr (Or.inl (Or.inr (Or.inr (Or.inr left))))))
            · exact Or.inl (mem_known.mpr (Or.inr told))
          refine ⟨?_, (fun _ no => nomatch no)⟩
          intro entry listed entry' listed' same
          rcases parts listed with old | new
          · rcases parts listed' with old' | new'
            · exact apart.held entry old entry' old' same
            · exact ((planned entry' new').1 entry old same.symm).symm
          · rcases parts listed' with old' | new'
            · exact (planned entry new).1 entry' old' same
            · exact (planned entry new).2 entry' new' same

theorem Apart.preFilter (apart : w.Apart) (records : w.Records) {selects : String -> Candidate -> Bool} {pod : ClaimingPod}
    {inventory : Inventory} (covered : w.Covered pod inventory) : (w.preFilter selects pod inventory).Apart := by
  have same : forall entry, entry ∈ (w.preFilter selects pod inventory).known -> entry ∈ w.known :=
    fun entry listed => preFilter_known ▸ listed
  refine ⟨fun entry listed entry' listed' => apart.held entry (same entry listed) entry' (same entry' listed'), ?_⟩
  intro c inCycle wanted plans node assumed made entry listed
  have was : w.cycle = some c -> (forall entry', entry' ∈ (w.preFilter selects pod inventory).known ->
      entry.2 = entry'.2 -> entry.1 = entry'.1) ∧
      forall entry', entry' ∈ assumedHoldings assumed -> entry.2 = entry'.2 -> entry.1 = entry'.1 := by
    intro before
    have earlier := apart.planned c before wanted plans node assumed made entry listed
    exact ⟨fun entry' listed' => earlier.1 entry' (same entry' listed'), earlier.2⟩
  have cycle := inCycle
  unfold DeviceWorld.preFilter at cycle
  split at cycle
  · exact was cycle
  · split at cycle
    · next result planned =>
        cases cycle
        cases plans
        have plan := preFilterImpl_planned records.shown planned made
        refine ⟨fun entry' listed' device => ?_, fun entry' listed' device => plan.apart entry entry' listed listed' device⟩
        rcases covered entry' (same entry' listed') with marked | unoffered | only
        · exact absurd (device ▸ marked) (plan.free entry listed)
        · rcases plan.offered entry listed with ⟨source, there, offered⟩
          exact absurd (device ▸ offered) (unoffered source there)
        · exact only entry.1 (plan.pending entry listed)
    · split_ifs at cycle
      · cases cycle
        cases plans
      · exact was cycle

theorem setStage_cycle : (w.setStage binding b stage).cycle = w.cycle := rfl

theorem finish_cycle : (w.finish binding b).cycle = w.cycle := by
  change (w.release b.pod.uid).cycle = w.cycle
  unfold release
  split <;> rfl

theorem writeClaim_cycle {reply : Reply} : (w.writeClaim binding reply).cycle = w.cycle := by
  rcases @writeClaim_cases w binding reply with same | ⟨b, -, same | ⟨a, left, attempt, current, -, same | ⟨claim, -, -, same⟩⟩⟩
  · rw [same]
  · rw [same, finish_cycle]
  · rw [same, setStage_cycle]
  · rcases same with same | same
    · rw [same, finish_cycle]
      rfl
    · rw [same, setStage_cycle]
      rfl

theorem Apart.step (apart : w.Apart) (records : w.Records) {selects : String -> Candidate -> Bool} {label : DeviceStep}
    (orderly : w.Orderly label) : (w.step selects label).Apart := by
  cases label with
  | create claim =>
    refine apart.of_less (fun _ => known_create) fun c inCycle => ?_
    rw [← inCycle]
    simp only [DeviceWorld.step, DeviceWorld.create]
    split <;> rfl
  | deliver =>
    refine apart.of_less (fun _ => known_deliver) fun c inCycle => ?_
    rw [← inCycle]
    simp only [DeviceWorld.step, DeviceWorld.deliver]
    split <;> rfl
  | preFilter pod inventory => exact apart.preFilter records orderly
  | abandon => exact apart.of_less (fun _ listed => listed) (fun _ no => nomatch no)
  | postFilter reply =>
    refine apart.of_less (fun _ => known_postFilter) fun c inCycle => ?_
    have ended : (w.postFilter reply).cycle = none := by
      unfold DeviceWorld.postFilter
      dsimp only
      split
      · rfl
      · split_ifs
        · rfl
        · unfold deallocate
          split <;> rfl
    exact nomatch ended.symm.trans inCycle
  | reserve node => exact apart.reserve node
  | startPreBind binding =>
    refine apart.of_less (fun _ => known_startPreBind) fun c inCycle => ?_
    rw [← inCycle]
    simp only [DeviceWorld.step, DeviceWorld.startPreBind]
    split
    · split
      · split <;> rfl
      · rfl
    · rfl
  | readClaim binding =>
    refine apart.of_less (fun _ => known_readClaim) fun c inCycle => ?_
    rw [← inCycle]
    simp only [DeviceWorld.step, DeviceWorld.readClaim]
    split
    · split
      · split
        · exact finish_cycle.symm
        · rfl
      · rfl
    · rfl
  | writeClaim binding reply =>
    exact apart.of_less (fun _ => known_writeClaim records) fun c inCycle => writeClaim_cycle.symm.trans inCycle
  | unreserve binding =>
    refine apart.of_less (fun _ => known_unreserve) fun c inCycle => ?_
    rw [← inCycle]
    simp only [DeviceWorld.step, DeviceWorld.unreserve]
    split
    · split_ifs
      · rfl
      · exact finish_cycle.symm
    · rfl
  | bind binding reply =>
    refine apart.of_less (fun _ => known_bind) fun c inCycle => ?_
    rw [← inCycle]
    simp only [DeviceWorld.step, DeviceWorld.bind]
    split
    · next b there =>
        split_ifs
        · cases reply with
          | refused => exact finish_cycle.symm
          | lost =>
            have ended := @finish_cycle { w with bound := w.bound ++ [(b.pod, b.node)] } binding b
            exact ended.symm
          | answered => rfl
        · rfl
    · rfl
  | postBind binding =>
    refine apart.of_less (fun _ => known_postBind) fun c inCycle => ?_
    rw [← inCycle]
    simp only [DeviceWorld.step, DeviceWorld.postBind]
    split
    · split_ifs
      · exact finish_cycle.symm
      · rfl
    · rfl

/-! ## Pods on the nodes of their claims -/

def Named (w : DeviceWorld) (key node : String) : Prop :=
  (w.claims.get key).any (fun claim => allocatedTo claim node) = true

/-- What a binding cycle still owes a claim of its pod, or the claim is
allocated to the pod's node. -/
def Served (w : DeviceWorld) (b : BindingCycle) (key : String) : Prop :=
  match b.stage with
  | .reserved => key ∈ ((w.assumedByPod.get b.pod.uid).getD []).map AssumedClaim.claimKey
  | .preBind left _ _ => key ∈ left.map AssumedClaim.claimKey ∨ w.Named key b.node
  | .binding => w.Named key b.node
  | .bound => w.Named key b.node

/-- Every claim of the pod has its place in the plan. -/
def Covers (c : Cycle) : Prop :=
  match c.wanted with
  | none => c.pod.claimKeys = []
  | some wanted => forall node assumed, wanted.mapM (assume node) = some assumed ->
      assumed.map AssumedClaim.claimKey = c.pod.claimKeys

structure Seated (w : DeviceWorld) : Prop where
  uids : (w.bindings.map fun b => b.pod.uid).Nodup
  served : forall b, b ∈ w.bindings -> forall key, key ∈ b.pod.claimKeys -> w.Served b key
  covers : forall c, w.cycle = some c -> Covers c
  bound : w.BoundWhereAllocated

theorem Served.mono {key : String} (served : w.Served b key) (assumed : w'.assumedByPod.get b.pod.uid = w.assumedByPod.get b.pod.uid)
    (named : w.Named key b.node -> w'.Named key b.node) : w'.Served b key := by
  unfold Served at served ⊢
  split at served
  · rw [assumed]
    exact served
  · exact served.imp_right named
  · exact named served
  · exact named served

theorem Seated.of_named (seated : w.Seated) (bindings : w'.bindings = w.bindings) (bound : w'.bound = w.bound)
    (assumed : w'.assumedByPod = w.assumedByPod) (cycle : forall c, w'.cycle = some c -> w.cycle = some c ∨ Covers c)
    (named : forall key node, ¬ w.Unused key -> w.Named key node -> w'.Named key node) : w'.Seated where
  uids := bindings ▸ seated.uids
  served b listed key wants := by
    rw [bindings] at listed
    exact (seated.served b listed key wants).mono (by rw [assumed])
      (named key b.node fun unused => unused.1 b listed wants)
  covers c inCycle := (cycle c inCycle).elim (seated.covers c) id
  bound placed listed key wants := by
    rw [bound] at listed
    exact named key placed.2 (fun unused => unused.2 placed listed wants) (seated.bound placed listed key wants)

theorem named_store {key node : String} (named : w.Named key node)
    (keeps : forall old, w.claims.get claim.key = some old -> allocatedTo old node = true -> allocatedTo claim node = true) :
    (w.store claim).Named key node := by
  unfold Named store at *
  rw [SortedMap.get_insert]
  split_ifs with same
  · rw [same] at named
    cases found : w.claims.get claim.key with
    | none =>
      have absent : w.claims.get ({ claim with resourceVersion := some (w.revision + 1) } : ResourceClaim).key = none := found
      rw [absent] at named
      cases named
    | some old =>
      have there : w.claims.get ({ claim with resourceVersion := some (w.revision + 1) } : ResourceClaim).key = some old := found
      rw [there] at named
      exact keeps old found named
  · exact named

theorem Seated.store (seated : w.Seated)
    (keeps : forall old node, w.claims.get claim.key = some old -> ¬ w.Unused claim.key -> allocatedTo old node = true ->
      allocatedTo claim node = true) : (w.store claim).Seated := by
  refine seated.of_named rfl rfl rfl (fun c inCycle => Or.inl inCycle) fun key node used named => ?_
  by_cases same : key = claim.key
  · exact named_store named fun old found was => keeps old node found (same ▸ used) was
  · unfold Named DeviceWorld.store at *
    rw [SortedMap.get_insert]
    split_ifs with here
    · exact absurd here same
    · exact named

theorem release_claims (uid : String) : (w.release uid).claims = w.claims := by
  unfold release
  split <;> rfl

theorem release_bound (uid : String) : (w.release uid).bound = w.bound := by
  unfold release
  split <;> rfl

theorem release_others {other : String} (apart : other ≠ uid) :
    (w.release uid).assumedByPod.get other = w.assumedByPod.get other := by
  unfold release
  split
  · rfl
  · rw [SortedMap.get_erase, if_neg apart]

theorem uid_of_eraseIdx (uids : (w.bindings.map fun b => b.pod.uid).Nodup) (there : w.bindings[binding]? = some b)
    {other : BindingCycle} (listed : other ∈ w.bindings.eraseIdx binding) : other.pod.uid ≠ b.pod.uid := by
  rcases List.mem_eraseIdx_iff_getElem.mp listed with ⟨index, small, apart, rfl⟩
  rcases List.getElem?_eq_some_iff.mp there with ⟨here, rfl⟩
  intro same
  apply apart
  have pair := @List.Nodup.getElem_inj_iff _ _ uids index (by rw [List.length_map]; exact small) binding
    (by rw [List.length_map]; exact here)
  rw [List.getElem_map, List.getElem_map] at pair
  exact pair.mp same

section

variable (seated : w.Seated)
include seated

theorem Seated.finish (there : w.bindings[binding]? = some b) : (w.finish binding b).Seated where
  uids := by
    have fewer : ((w.bindings.eraseIdx binding).map fun b => b.pod.uid).Sublist (w.bindings.map fun b => b.pod.uid) :=
      (List.eraseIdx_sublist _ _).map _
    exact fewer.nodup seated.uids
  served other listed key wants := by
    have before := seated.served other (List.mem_of_mem_eraseIdx listed) key wants
    refine before.mono ?_ fun named => ?_
    · exact release_others (uid_of_eraseIdx seated.uids there listed)
    · unfold Named at named ⊢
      exact (congrArg (fun claims : SortedMap String ResourceClaim => (claims.get key).any (fun claim => allocatedTo claim other.node) = true)
        (release_claims (w := w) b.pod.uid)).symm ▸ named
  covers c inCycle := seated.covers c (finish_cycle.symm.trans inCycle)
  bound placed listed key wants := by
    change placed ∈ (w.release b.pod.uid).bound at listed
    change ((w.release b.pod.uid).claims.get key).any _ = true
    rw [release_bound] at listed
    rw [release_claims]
    exact seated.bound placed listed key wants

theorem Seated.setStage (there : w.bindings[binding]? = some b)
    (served : forall key, key ∈ b.pod.claimKeys -> w.Served { b with stage := stage } key) :
    (w.setStage binding b stage).Seated where
  uids := by
    have same : ((w.bindings.set binding { b with stage := stage }).map fun b => b.pod.uid) =
        w.bindings.map fun b => b.pod.uid := by
      apply List.ext_getElem?
      intro index
      rw [List.getElem?_map, List.getElem?_map, List.getElem?_set]
      split_ifs with here small
      · rw [← here, there]
        rfl
      · exact absurd (List.getElem?_eq_some_iff.mp there).1 small
      · rfl
    change ((w.bindings.set binding { b with stage := stage }).map fun b => b.pod.uid).Nodup
    rw [same]
    exact seated.uids
  served other listed key wants := by
    rcases List.mem_or_eq_of_mem_set listed with old | rfl
    · exact seated.served other old key wants
    · exact served key wants
  covers c inCycle := seated.covers c inCycle
  bound := seated.bound

theorem Seated.create (claim : ResourceClaim) : (w.create claim).Seated := by
  unfold DeviceWorld.create
  cases found : w.claims.get claim.key with
  | some old => exact seated
  | none => exact seated.store fun old node there _ _ => nomatch (found.symm.trans there : none = some old)

theorem Seated.deliver : w.deliver.Seated := by
  unfold DeviceWorld.deliver
  split
  · exact seated
  · exact ⟨seated.uids, seated.served, seated.covers, seated.bound⟩

theorem Seated.endCycle : ({ w with cycle := none } : DeviceWorld).Seated :=
  ⟨seated.uids, seated.served, (fun _ no => nomatch no), seated.bound⟩

theorem Seated.postFilter (records : w.Records) {reply : Reply}
    (unused : forall key, key ∈ w.stuckClaim -> w.Unused key) : (w.postFilter reply).Seated := by
  unfold DeviceWorld.postFilter
  cases stuck : w.stuckClaim with
  | none => exact seated.endCycle
  | some claimKey =>
    dsimp only
    split_ifs
    · exact seated.endCycle
    · unfold deallocate
      split
      · exact seated.endCycle
      · next claim found =>
          refine seated.endCycle.store fun old node _ used => absurd ?_ used
          have key : claimKey = claim.key := records.keyed _ (SortedMap.mem_entries.mpr found)
          exact key ▸ unused claimKey stuck

theorem Seated.preFilter (records : w.Records) (selects : String -> Candidate -> Bool)
    (pod : ClaimingPod) (inventory : Inventory) : (w.preFilter selects pod inventory).Seated := by
  have started : forall c, Covers c -> ({ w with cycle := some c } : DeviceWorld).Seated := fun c covers =>
    ⟨seated.uids, seated.served, fun _ same => Option.some.inj same ▸ covers, seated.bound⟩
  unfold DeviceWorld.preFilter
  split
  · exact seated
  · split
    · next plans planned =>
        exact started _ fun node assumed made => (preFilterImpl_planned records.shown planned made).covers
    · next status refused =>
        split_ifs with skips
        · exact started _ (preFilterImpl_skip refused skips)
        · exact seated

theorem Seated.reserve (alone : forall c, c ∈ w.cycle -> forall b, b ∈ w.bindings -> b.pod.uid ≠ c.pod.uid)
    (node : NodeInfo) : (w.reserve node).Seated := by
  unfold DeviceWorld.reserve
  cases inCycle : w.cycle with
  | none => exact seated
  | some c =>
    dsimp only
    split_ifs with refused
    · exact seated
    · have others := alone c inCycle
      have covers := seated.covers c inCycle
      have uids : ((w.bindings ++ [(⟨c.pod, node.name, .reserved⟩ : BindingCycle)]).map fun b => b.pod.uid).Nodup := by
        rw [List.map_append]
        refine List.Nodup.append seated.uids (List.nodup_singleton _) fun uid old new => ?_
        rcases List.mem_map.mp old with ⟨b, listed, rfl⟩
        exact others b listed (List.mem_singleton.mp new)
      unfold Covers at covers
      cases plans : c.wanted with
      | none =>
        rw [plans] at covers
        refine ⟨uids, fun b listed key wants => ?_, (fun _ no => nomatch no), seated.bound⟩
        rcases List.mem_append.mp listed with old | new
        · exact seated.served b old key wants
        · cases List.mem_singleton.mp new
          exact absurd (covers ▸ wants) List.not_mem_nil
      | some wanted =>
        rw [plans] at covers
        dsimp only
        cases made : wanted.mapM (assume node.name) with
        | none => exact seated.endCycle
        | some assumed =>
          refine ⟨uids, fun b listed key wants => ?_, (fun _ no => nomatch no), seated.bound⟩
          rcases List.mem_append.mp listed with old | new
          · refine (seated.served b old key wants).mono ?_ id
            exact SortedMap.get_insert.trans (if_neg (others b old))
          · cases List.mem_singleton.mp new
            change key ∈ (((w.assumedByPod.insert c.pod.uid assumed).get c.pod.uid).getD []).map _
            rw [SortedMap.get_insert, if_pos rfl, Option.getD_some, covers node.name assumed made]
            exact wants

theorem Seated.startPreBind (binding : Nat) : (w.startPreBind binding).Seated := by
  unfold DeviceWorld.startPreBind
  split
  · next b there =>
      have served := seated.served b (List.mem_of_getElem? there)
      split
      · next reserved =>
          split
          · next given =>
              refine seated.setStage there fun key wants => ?_
              have owed := served key wants
              unfold Served at owed
              rw [reserved] at owed
              rw [given] at owed
              cases owed
          · refine seated.setStage there fun key wants => ?_
            have owed := served key wants
            unfold Served at owed
            rw [reserved] at owed
            exact Or.inl owed
      · exact seated
  · exact seated

theorem Seated.readClaim (binding : Nat) : (w.readClaim binding).Seated := by
  unfold DeviceWorld.readClaim
  split
  · next b there =>
      split
      · next a left attempt reading =>
          split
          · exact seated.finish there
          · refine seated.setStage there fun key wants => ?_
            have owed := seated.served b (List.mem_of_getElem? there) key wants
            unfold Served at owed
            rw [reading] at owed
            exact owed
      · exact seated
  · exact seated

/-- What is written keeps the claim where it was, and ties it to the pod's
node. -/
theorem Seated.writeClaim (records : w.Records) {reply : Reply}
    (agree : forall b, b ∈ w.bindings[binding]? -> Agrees b) : (w.writeClaim binding reply).Seated := by
  rcases @writeClaim_cases w binding reply with
    same | ⟨b, there, same | ⟨a, left, attempt, current, reading, same | ⟨claim, found, version, same⟩⟩⟩
  · exact same.symm ▸ seated
  · exact same.symm ▸ seated.finish there
  · rw [same]
    refine seated.setStage there fun key wants => ?_
    have owed := seated.served b (List.mem_of_getElem? there) key wants
    unfold Served at owed
    rw [reading] at owed
    exact owed
  · have isCurrent := records.current there reading found version
    have agrees : current.bound = true -> allocatedTo current b.node = true := by
      have holds := agree b there
      unfold Agrees at holds
      rw [reading] at holds
      exact holds
    have key : claim.key = a.claimKey := (records.keyed _ (SortedMap.mem_entries.mpr found)).symm
    have stored : (w.store { claim with status := some (committed b.pod b.node a current) }).Seated := by
      refine seated.store fun old node was _ tied => ?_
      have isOld : old = claim := Option.some.inj ((was.symm.trans (congrArg w.claims.get key)).trans found)
      exact allocatedTo_committed_of_allocatedTo (isCurrent ▸ isOld ▸ tied)
    rcases same with same | same
    · exact same.symm ▸ stored.finish there
    · rw [same]
      refine stored.setStage there fun wanted wants => ?_
      have owed := stored.served b (List.mem_of_getElem? there) wanted wants
      have tied : (w.store { claim with status := some (committed b.pod b.node a current) }).Named a.claimKey b.node := by
        unfold Named DeviceWorld.store
        rw [SortedMap.get_insert]
        split_ifs with here
        · exact @allocatedTo_committed current claim b.pod b.node a agrees
        · exact absurd key.symm here
      unfold Served at owed
      rw [reading] at owed
      have next : wanted ∈ left.map AssumedClaim.claimKey ∨
          (w.store { claim with status := some (committed b.pod b.node a current) }).Named wanted b.node := by
        rcases owed with listed | named
        · rcases List.mem_cons.mp listed with rfl | later
          · exact Or.inr tied
          · exact Or.inl later
        · exact Or.inr named
      cases left with
      | nil => exact next.resolve_left List.not_mem_nil
      | cons first rest => exact next

theorem Seated.unreserve (binding : Nat) : (w.unreserve binding).Seated := by
  unfold DeviceWorld.unreserve
  split
  · next b there =>
      split_ifs
      · exact seated
      · exact seated.finish there
  · exact seated

theorem Seated.bind (binding : Nat) (reply : Reply) : (w.bind binding reply).Seated := by
  unfold DeviceWorld.bind
  split
  · next b there =>
      split_ifs with ready
      · have named : forall key, key ∈ b.pod.claimKeys -> w.Named key b.node := by
          intro key wants
          have served := seated.served b (List.mem_of_getElem? there) key wants
          unfold Served at served
          rw [ready] at served
          exact served
        have more : ({ w with bound := w.bound ++ [(b.pod, b.node)] } : DeviceWorld).Seated := by
          refine ⟨seated.uids, seated.served, seated.covers, fun placed listed key wants => ?_⟩
          rcases List.mem_append.mp listed with old | new
          · exact seated.bound placed old key wants
          · cases List.mem_singleton.mp new
            exact named key wants
        split
        · exact seated.finish there
        · exact more.finish there
        · exact more.setStage there named
      · exact seated
  · exact seated

theorem Seated.postBind (binding : Nat) : (w.postBind binding).Seated := by
  unfold DeviceWorld.postBind
  split
  · next b there =>
      split_ifs
      · exact seated.finish there
      · exact seated
  · exact seated

theorem Seated.step (records : w.Records) {selects : String -> Candidate -> Bool} {label : DeviceStep}
    (orderly : w.Orderly label) : (w.step selects label).Seated := by
  cases label with
  | create claim => exact seated.create claim
  | deliver => exact seated.deliver
  | preFilter pod inventory => exact seated.preFilter records selects pod inventory
  | abandon => exact seated.endCycle
  | postFilter reply => exact seated.postFilter records orderly
  | reserve node => exact seated.reserve orderly node
  | startPreBind binding => exact seated.startPreBind binding
  | readClaim binding => exact seated.readClaim binding
  | writeClaim binding reply => exact seated.writeClaim records orderly
  | unreserve binding => exact seated.unreserve binding
  | bind binding reply => exact seated.bind binding reply
  | postBind binding => exact seated.postBind binding

/-! ## Runs -/

end

structure Custody (w : DeviceWorld) : Prop where
  records : w.Records
  apart : w.Apart
  seated : w.Seated

theorem Custody.new : DeviceWorld.new.Custody where
  records := ⟨Keys.empty, Keys.empty, (fun _ _ found => nomatch found), fun _ listed => absurd listed List.not_mem_nil⟩
  apart := ⟨fun _ listed => absurd listed List.not_mem_nil, fun _ none_ => nomatch none_⟩
  seated := ⟨List.nodup_nil, fun _ listed => absurd listed List.not_mem_nil, (fun _ no => nomatch no),
    fun _ listed => absurd listed List.not_mem_nil⟩

theorem Custody.step (custody : w.Custody) {selects : String -> Candidate -> Bool} {label : DeviceStep}
    (orderly : w.Orderly label) : (w.step selects label).Custody :=
  ⟨custody.records.step selects label, custody.apart.step custody.records orderly, custody.seated.step custody.records orderly⟩

end DeviceWorld

instance (w : DeviceWorld) : Decidable w.Exclusive := by
  unfold DeviceWorld.Exclusive
  infer_instance

instance (b : BindingCycle) : Decidable (DeviceWorld.Agrees b) := by
  unfold DeviceWorld.Agrees
  split <;> infer_instance

instance (w : DeviceWorld) (label : DeviceStep) : Decidable (w.Orderly label) := by
  cases label <;> unfold DeviceWorld.Orderly <;>
    first
    | infer_instance
    | (unfold DeviceWorld.Covered; infer_instance)
    | (unfold DeviceWorld.Unused; infer_instance)

private def acceleratorClaim (name : String) : ResourceClaim where
  inNamespace := some "ml"
  name := some name
  resourceVersion := none
  deletionTimestamp := none
  ownerReferences := none
  devices := some ⟨some [⟨"gpu", some ⟨some "gpu", none, none, none, none⟩, none⟩], none, none⟩
  status := none

private def acceleratorNode (name : String) : NodeInfo :=
  { NodeInfo.default with name := name, labels := SortedMap.empty.insert "kubernetes.io/hostname" name }

/-- One node with one device. -/
private def oneAccelerator (name : String) : Inventory where
  nodes := [acceleratorNode name]
  slices := [⟨"driver", name, some name, none, none, none, some [⟨"gpu0", none, none, none, none, none⟩]⟩]
  deviceClasses := SortedMap.empty.insert "gpu" ⟨none, none⟩

private def acceleratorPod (name claimName : String) : ClaimingPod :=
  ⟨"ml", name, name, [⟨"gpu", some claimName, none⟩], .empty⟩

private def bindFirst : List DeviceStep :=
  [.startPreBind 0, .readClaim 0, .writeClaim 0 .answered, .bind 0 .answered, .postBind 0]

/-- Two pods with a claim each go to two nodes. -/
private def twoNodes : List DeviceStep :=
  [.create (acceleratorClaim "a"), .create (acceleratorClaim "b"), .deliver, .deliver,
    .preFilter (acceleratorPod "p" "a") (oneAccelerator "n"), .reserve (acceleratorNode "n"),
    .preFilter (acceleratorPod "q" "b") (oneAccelerator "m"), .reserve (acceleratorNode "m")] ++ bindFirst ++ bindFirst

/-- The first pod is bound and the informer shows its claim, and then the
second is planned for the same device. -/
private def releasedDevice : List DeviceStep :=
  [.create (acceleratorClaim "a"), .create (acceleratorClaim "b"), .deliver, .deliver,
    .preFilter (acceleratorPod "p" "a") (oneAccelerator "n"), .reserve (acceleratorNode "n")] ++ bindFirst ++
  [.deliver, .preFilter (acceleratorPod "q" "b") (oneAccelerator "n"), .reserve (acceleratorNode "n")]

/-- Two pods share a claim, and each is planned before the claim is
allocated. -/
private def sharedClaim : List DeviceStep :=
  [.create (acceleratorClaim "a"), .deliver,
    .preFilter (acceleratorPod "p" "a") (oneAccelerator "n"), .reserve (acceleratorNode "n"),
    .preFilter (acceleratorPod "q" "a") (oneAccelerator "m"), .reserve (acceleratorNode "m")] ++ bindFirst ++ bindFirst

end DynamicResources

end NotK8s.Scheduler

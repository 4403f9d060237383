import Mathlib.Data.Finset.Insert
import NotK8s.Scheduler.Devices

namespace NotK8s.Scheduler

open Library

/-!
# Picking devices for the claims of a pod

The search backtracks over the claims, their requests, the alternatives of a
request and the devices that match.  Its one global state is a budget of
branches.  What is left to allocate after a choice is a continuation, so the
search is recursive in what it has still to pick.

Whatever the budget and the selectors, a solution gives no device twice and
none that was excluded, administrators' access apart.
-/

/-- Bounds the search of one node. -/
def maxAllocationBranches : Nat :=
  100000

structure ClaimAllocationInput where
  requests : List DeviceRequest
  constraints : List DeviceConstraint
  config : List DeviceClaimConfiguration
  deriving DecidableEq

/-- The choices made so far. -/
structure Search where
  picked : Finset DeviceId
  constraintState : List ConstraintState
  out : List DeviceRequestAllocationResult

def allocationResult (eff : EffectiveRequest) (candidate : Candidate) : DeviceRequestAllocationResult where
  request := eff.resultName
  driver := candidate.driver
  pool := candidate.pool
  device := candidate.name
  adminAccess := eff.adminAccess

/-- One more device, unless it is taken or a constraint forbids it. -/
def Search.pick (search : Search) (excluded : Finset DeviceId) (eff : EffectiveRequest) (c : Candidate) : Option Search :=
  if !eff.adminAccess && (c.id ∈ excluded || c.id ∈ search.picked) then none
  else
    (constraintAllows search.constraintState eff.resultName c.driver c.basic).map fun nextStates =>
      { picked := if eff.adminAccess then search.picked else insert c.id search.picked
        constraintState := nextStates
        out := search.out ++ [allocationResult eff c] }

/-- What is found, and the branches that are left. -/
abbrev Searched (Solution : Type) : Type :=
  Option Solution × Nat

section
variable {Solution : Type} (excluded : Finset DeviceId) (eff : EffectiveRequest)

/-- Picks `remaining` of the matching devices, in their order. -/
def allocateExact (next : Search -> Nat -> Searched Solution) : List Candidate -> Nat -> Search -> Nat -> Searched Solution
  | _, 0, search, branchBudget => next search branchBudget
  | [], _ + 1, _, branchBudget => (none, branchBudget)
  | c :: rest, remaining + 1, search, branchBudget =>
    match branchBudget with
    | 0 => (none, 0)
    | branchBudget + 1 =>
      match search.pick excluded eff c with
      | none => allocateExact next rest (remaining + 1) search branchBudget
      | some picked =>
        match allocateExact next rest remaining picked branchBudget with
        | (some solution, left) => (some solution, left)
        | (none, left) => allocateExact next rest (remaining + 1) search left

/-- The outcome of picking every matching device. -/
inductive PickAll where
  | valid (search : Search) (branchBudget : Nat)
  | invalid (branchBudget : Nat)
  | exhausted

def pickAll : List Candidate -> Search -> Nat -> PickAll
  | [], search, branchBudget => .valid search branchBudget
  | c :: rest, search, branchBudget =>
    match branchBudget with
    | 0 => .exhausted
    | branchBudget + 1 =>
      match search.pick excluded eff c with
      | none => .invalid branchBudget
      | some picked => pickAll rest picked branchBudget

end

section
variable {Solution : Type} (selects : String -> Candidate -> Bool) (deviceClasses : SortedMap String DeviceClass)
  (candidates : List Candidate) (excluded : Finset DeviceId)

/-- Every selector with an expression evaluates to true on the device. -/
def deviceMatches (selectors : List DeviceSelector) (c : Candidate) : Bool :=
  selectors.all fun sel => sel.cel.all fun expression => selects expression c

/-- Tries the alternatives of one request in their order. -/
def allocateAlternatives (next : Search -> Nat -> Searched Solution) :
    List EffectiveRequest -> Search -> Nat -> Searched Solution
  | [], _, branchBudget => (none, branchBudget)
  | eff :: rest, search, branchBudget =>
    match deviceClasses.get eff.deviceClassName with
    | none => allocateAlternatives next rest search branchBudget
    | some deviceClass =>
      let selectors := eff.selectors ++ deviceClass.selectors.getD []
      let matching := candidates.filter fun c => deviceMatches selects selectors c
      if eff.allDevices then
        if matching.isEmpty then allocateAlternatives next rest search branchBudget
        else
          match pickAll excluded eff matching search branchBudget with
          -- The budget ends the request, not only the alternative.
          | .exhausted => (none, 0)
          | .invalid left => allocateAlternatives next rest search left
          | .valid picked left =>
            match next picked left with
            | (some solution, left) => (some solution, left)
            | (none, left) => allocateAlternatives next rest search left
      else
        match allocateExact excluded eff next matching eff.count search branchBudget with
        | (some solution, left) => (some solution, left)
        | (none, left) => allocateAlternatives next rest search left

/-- The requests of one claim that are left. -/
def allocateRequests (next : Search -> Nat -> Searched Solution) : List DeviceRequest -> Search -> Nat -> Searched Solution
  | [], search, branchBudget => next search branchBudget
  | request :: rest, search, branchBudget =>
    match effectiveRequests request with
    | none => (none, branchBudget)
    | some alternatives =>
      allocateAlternatives selects deviceClasses candidates excluded (allocateRequests next rest) alternatives search
        branchBudget

/-- The claims that are left, the picks of each in a list of their own. -/
def allocateClaims : List ClaimAllocationInput -> Finset DeviceId -> Nat -> Searched (List (List DeviceRequestAllocationResult))
  | [], _, branchBudget => (some [], branchBudget)
  | claim :: rest, picked, branchBudget =>
    allocateRequests selects deviceClasses candidates excluded
      (fun search branchBudget =>
        match allocateClaims rest search.picked branchBudget with
        | (some later, left) => (some (search.out :: later), left)
        | (none, left) => (none, left))
      claim.requests ⟨picked, constraintStates claim.constraints, []⟩ branchBudget

/-- All claims of a pod that are not allocated yet, together. -/
def allocateClaimsOnNode (claims : List ClaimAllocationInput) : Option (List (List DeviceRequestAllocationResult)) :=
  (allocateClaims selects deviceClasses candidates excluded claims ∅ maxAllocationBranches).1

end

/-! ## What drivers are told -/

/-- The alternative that the picks were made for. -/
def selectedAlternative (devices : List DeviceRequestAllocationResult) (request : DeviceRequest) : Option EffectiveRequest :=
  (effectiveRequests request).bind fun alternatives =>
    alternatives.find? fun candidate => devices.any fun device => device.request = candidate.resultName

/-- The configuration of each class, once and for all its requests. -/
def classConfig (deviceClasses : SortedMap String DeviceClass) (selected : List EffectiveRequest) :
    List DeviceAllocationConfiguration :=
  let classes := (selected.map EffectiveRequest.deviceClassName).reverse.dedup.reverse
  classes.flatMap fun className =>
    let requests := (selected.filter fun eff => eff.deviceClassName = className).map EffectiveRequest.resultName
    match deviceClasses.get className with
    | none => []
    | some deviceClass => (deviceClass.config.getD []).map fun configuration => ⟨"FromClass", requests, configuration⟩

/-- The claim's own configuration where it applies to a selected request. -/
def claimConfig (config : List DeviceClaimConfiguration) (selectedNames : List (String × String)) :
    List DeviceAllocationConfiguration :=
  config.filterMap fun config =>
    let requests := config.requests.filterMap fun configured =>
      (selectedNames.find? fun names => names.1 = configured || names.2 = configured).map Prod.snd
    if config.requests.isEmpty || !requests.isEmpty then some ⟨"FromClaim", requests, config.configuration⟩ else none

def allocationConfig (claim : ClaimAllocationInput) (devices : List DeviceRequestAllocationResult)
    (deviceClasses : SortedMap String DeviceClass) : List DeviceAllocationConfiguration :=
  let selected := claim.requests.filterMap fun request =>
    (selectedAlternative devices request).map fun eff => (request.name, eff)
  classConfig deviceClasses (selected.map Prod.snd) ++
    claimConfig claim.config (selected.map fun pair => (pair.1, pair.2.resultName))

/-! ## The picks of a search -/

section
variable {Solution : Type} {excluded base : Finset DeviceId} {candidates : List Candidate} {eff : EffectiveRequest}
  {search picked : Search}

/-- What the search has picked since `base` are free devices of the node, each
once. -/
structure Search.Clean (search : Search) (excluded base : Finset DeviceId) (candidates : List Candidate) : Prop where
  once : (exclusive search.out).Nodup
  marked : forall device, device ∈ exclusive search.out -> device ∈ search.picked
  earlier : forall device, device ∈ base -> device ∈ search.picked
  fresh : forall device, device ∈ exclusive search.out -> device ∉ base
  free : forall device, device ∈ exclusive search.out -> device ∉ excluded
  listed : forall device, device ∈ exclusive search.out -> device ∈ candidates.map Candidate.id

theorem exclusive_concat (results : List DeviceRequestAllocationResult) (eff : EffectiveRequest) (c : Candidate) :
    exclusive (results ++ [allocationResult eff c]) =
      exclusive results ++ if eff.adminAccess then [] else [c.id] := by
  unfold exclusive
  rw [List.filter_append, List.map_append]
  cases admin : eff.adminAccess <;> simp [allocationResult, admin, deviceId, Candidate.id]

theorem Search.Clean.pick (clean : search.Clean excluded base candidates) {c : Candidate} (candidate : c ∈ candidates)
    (taken : search.pick excluded eff c = some picked) : picked.Clean excluded base candidates := by
  unfold Search.pick at taken
  split at taken
  · cases taken
  · next open_ =>
      rcases Option.map_eq_some_iff.mp taken with ⟨states, -, rfl⟩
      cases admin : eff.adminAccess with
      | true =>
        have same : exclusive (search.out ++ [allocationResult eff c]) = exclusive search.out := by
          rw [exclusive_concat, admin, if_pos rfl, List.append_nil]
        exact ⟨same ▸ clean.once, same ▸ clean.marked, clean.earlier, same ▸ clean.fresh, same ▸ clean.free,
          same ▸ clean.listed⟩
      | false =>
        have more : exclusive (search.out ++ [allocationResult eff c]) = exclusive search.out ++ [c.id] := by
          rw [exclusive_concat, admin, if_neg Bool.false_ne_true]
        have apart : c.id ∉ excluded ∧ c.id ∉ search.picked := by
          simpa [admin] using open_
        have member : forall {device}, device ∈ exclusive (search.out ++ [allocationResult eff c]) ->
            device ∈ exclusive search.out ∨ device = c.id := by
          intro device listed
          rw [more] at listed
          exact (List.mem_append.mp listed).imp_right List.mem_singleton.mp
        refine ⟨?_, ?_, fun device there => Finset.mem_insert_of_mem (clean.earlier device there), ?_, ?_, ?_⟩
        · rw [more]
          exact List.Nodup.append clean.once (List.nodup_singleton _) fun device old new =>
            apart.2 (List.mem_singleton.mp new ▸ clean.marked device old)
        · intro device listed
          rcases member listed with old | rfl
          · exact Finset.mem_insert_of_mem (clean.marked device old)
          · exact Finset.mem_insert_self _ _
        · intro device listed
          rcases member listed with old | rfl
          · exact clean.fresh device old
          · exact fun there => apart.2 (clean.earlier _ there)
        · intro device listed
          rcases member listed with old | rfl
          · exact clean.free device old
          · exact apart.1
        · intro device listed
          rcases member listed with old | rfl
          · exact clean.listed device old
          · exact List.mem_map_of_mem candidate

/-- A solution comes out of the continuation, called on a clean search. -/
def Reaches (next : Search -> Nat -> Searched Solution) (excluded base : Finset DeviceId) (candidates : List Candidate)
    (solution : Solution) : Prop :=
  Exists fun search : Search => search.Clean excluded base candidates ∧ Exists fun budget =>
    (next search budget).1 = some solution

variable {next : Search -> Nat -> Searched Solution} {solution : Solution} {selects : String -> Candidate -> Bool}
  {deviceClasses : SortedMap String DeviceClass}

theorem allocateExact_reaches {matching : List Candidate} (inside : matching ⊆ candidates) {remaining budget : Nat}
    (clean : search.Clean excluded base candidates)
    (found : (allocateExact excluded eff next matching remaining search budget).1 = some solution) :
    Reaches next excluded base candidates solution := by
  induction matching generalizing remaining search budget with
  | nil =>
    cases remaining with
    | zero => exact ⟨search, clean, budget, found⟩
    | succ remaining => cases found
  | cons c rest ih =>
    have insideRest : rest ⊆ candidates := fun _ listed => inside (.tail _ listed)
    cases remaining with
    | zero => exact ⟨search, clean, budget, found⟩
    | succ remaining =>
      cases budget with
      | zero => cases found
      | succ budget =>
        unfold allocateExact at found
        cases taken : search.pick excluded eff c with
        | none =>
          rw [taken] at found
          exact ih insideRest clean found
        | some picked =>
          rw [taken] at found
          dsimp only at found
          have cleanPicked := clean.pick (inside (.head _)) taken
          rcases deeper : allocateExact excluded eff next rest remaining picked budget with ⟨_ | result, left⟩
          · rw [deeper] at found
            exact ih insideRest clean found
          · rw [deeper] at found
            exact ih insideRest cleanPicked ((congrArg Prod.fst deeper).trans found)

theorem pickAll_clean {matching : List Candidate} (inside : matching ⊆ candidates) {budget left : Nat}
    (clean : search.Clean excluded base candidates)
    (found : pickAll excluded eff matching search budget = .valid picked left) : picked.Clean excluded base candidates := by
  induction matching generalizing search budget with
  | nil =>
    cases found
    exact clean
  | cons c rest ih =>
    cases budget with
    | zero => cases found
    | succ budget =>
      unfold pickAll at found
      cases taken : search.pick excluded eff c with
      | none =>
        rw [taken] at found
        cases found
      | some next =>
        rw [taken] at found
        exact ih (fun _ listed => inside (.tail _ listed))
          (clean.pick (inside (.head _)) taken) found

theorem allocateAlternatives_reaches {alternatives : List EffectiveRequest} {budget : Nat}
    (clean : search.Clean excluded base candidates)
    (found : (allocateAlternatives selects deviceClasses candidates excluded next alternatives search budget).1 =
      some solution) : Reaches next excluded base candidates solution := by
  induction alternatives generalizing budget with
  | nil => cases found
  | cons eff rest ih =>
    unfold allocateAlternatives at found
    cases known : deviceClasses.get eff.deviceClassName with
    | none =>
      rw [known] at found
      exact ih found
    | some deviceClass =>
      rw [known] at found
      dsimp only at found
      have inside : (candidates.filter fun c => deviceMatches selects (eff.selectors ++ deviceClass.selectors.getD []) c) ⊆
          candidates := fun _ listed => (List.mem_filter.mp listed).1
      generalize (candidates.filter fun c => deviceMatches selects (eff.selectors ++ deviceClass.selectors.getD []) c) =
        matching at found inside
      by_cases everything : eff.allDevices = true
      · rw [if_pos everything] at found
        by_cases none_ : matching.isEmpty = true
        · rw [if_pos none_] at found
          exact ih found
        · rw [if_neg none_] at found
          cases all : pickAll excluded eff matching search budget with
          | exhausted =>
            rw [all] at found
            cases found
          | invalid left =>
            rw [all] at found
            exact ih found
          | valid picked left =>
            rw [all] at found
            dsimp only at found
            rcases deeper : next picked left with ⟨_ | result, rest⟩
            · rw [deeper] at found
              exact ih found
            · rw [deeper] at found
              exact ⟨picked, pickAll_clean inside clean all, left, (congrArg Prod.fst deeper).trans found⟩
      · rw [if_neg everything] at found
        rcases deeper : allocateExact excluded eff next matching eff.count search budget with ⟨_ | result, left⟩
        · rw [deeper] at found
          exact ih found
        · rw [deeper] at found
          exact allocateExact_reaches inside clean ((congrArg Prod.fst deeper).trans found)

theorem allocateRequests_reaches {requests : List DeviceRequest} {budget : Nat}
    (clean : search.Clean excluded base candidates)
    (found : (allocateRequests selects deviceClasses candidates excluded next requests search budget).1 = some solution) :
    Reaches next excluded base candidates solution := by
  induction requests generalizing search budget with
  | nil => exact ⟨search, clean, budget, found⟩
  | cons request rest ih =>
    unfold allocateRequests at found
    cases known : effectiveRequests request with
    | none =>
      rw [known] at found
      cases found
    | some alternatives =>
      rw [known] at found
      rcases allocateAlternatives_reaches clean found with ⟨picked, cleanPicked, left, deeper⟩
      exact ih cleanPicked deeper

/-- The picks for several claims, none of a device in `base`. -/
structure CleanSolution (solution : List (List DeviceRequestAllocationResult)) (excluded base : Finset DeviceId)
    (candidates : List Candidate) : Prop where
  once : (solution.flatMap exclusive).Nodup
  fresh : forall device, device ∈ solution.flatMap exclusive -> device ∉ base
  free : forall device, device ∈ solution.flatMap exclusive -> device ∉ excluded
  listed : forall device, device ∈ solution.flatMap exclusive -> device ∈ candidates.map Candidate.id

theorem allocateClaims_clean {claims : List ClaimAllocationInput} {solution : List (List DeviceRequestAllocationResult)}
    {budget : Nat} (found : (allocateClaims selects deviceClasses candidates excluded claims base budget).1 = some solution) :
    CleanSolution solution excluded base candidates ∧ solution.length = claims.length := by
  induction claims generalizing base budget solution with
  | nil =>
    cases found
    exact ⟨⟨List.nodup_nil, nofun, nofun,
      nofun⟩, rfl⟩
  | cons claim rest ih =>
    have start : Search.Clean ⟨base, constraintStates claim.constraints, []⟩ excluded base candidates :=
      ⟨List.nodup_nil, nofun, fun _ listed => listed,
        nofun, nofun,
        nofun⟩
    rcases allocateRequests_reaches start found with ⟨search, clean, left, deeper⟩
    dsimp only at deeper
    rcases others : allocateClaims selects deviceClasses candidates excluded rest search.picked left with ⟨_ | later, left'⟩
    · rw [others] at deeper
      cases deeper
    · rw [others] at deeper
      cases deeper
      have cleanLater := ih (congrArg Prod.fst others)
      have notPicked : forall device, device ∈ later.flatMap exclusive -> device ∉ search.picked := cleanLater.1.fresh
      refine ⟨⟨?_, ?_, ?_, ?_⟩, congrArg Nat.succ cleanLater.2⟩
      · rw [List.flatMap_cons]
        exact List.Nodup.append clean.once cleanLater.1.once fun device here there =>
          notPicked device there (clean.marked device here)
      · intro device listed
        rcases List.mem_append.mp (List.flatMap_cons ▸ listed) with here | there
        · exact clean.fresh device here
        · exact fun early => notPicked device there (clean.earlier device early)
      · intro device listed
        rcases List.mem_append.mp (List.flatMap_cons ▸ listed) with here | there
        · exact clean.free device here
        · exact cleanLater.1.free device there
      · intro device listed
        rcases List.mem_append.mp (List.flatMap_cons ▸ listed) with here | there
        · exact clean.listed device here
        · exact cleanLater.1.listed device there

/-- A solution gives each device once, and only free devices of the node. -/
theorem allocateClaimsOnNode_clean {claims : List ClaimAllocationInput}
    {solution : List (List DeviceRequestAllocationResult)}
    (found : allocateClaimsOnNode selects deviceClasses candidates excluded claims = some solution) :
    CleanSolution solution excluded ∅ candidates ∧ solution.length = claims.length :=
  allocateClaims_clean found

end

end NotK8s.Scheduler

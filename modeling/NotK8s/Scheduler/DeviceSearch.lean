import NotK8s.Library.Backtracking
import NotK8s.Scheduler.DeviceAllocator

namespace NotK8s.Scheduler

open Library

/-!
# What the search for devices finds

An allocation grants each request devices for one of its alternatives.  The
search goes through the grants in lexicographic order, so while it has
branches left it ends at the first allocation, and at none when there is none.
-/

/-- The devices for one alternative of a request. -/
structure Grant where
  eff : EffectiveRequest
  devices : List Candidate

namespace Grant

def picks (g : Grant) : List (EffectiveRequest × Candidate) :=
  g.devices.map fun c => (g.eff, c)

def results (g : Grant) : List DeviceRequestAllocationResult :=
  g.devices.map (allocationResult g.eff)

end Grant

/-- The grants of each claim, in the order of its requests. -/
abbrev Assignment : Type :=
  List (List Grant)

def Assignment.results (assignment : Assignment) : List (List DeviceRequestAllocationResult) :=
  assignment.map fun grants => grants.flatMap Grant.results

/-- The devices that the constraint covers have one value of its attribute. -/
def DeviceConstraint.Holds (constraint : DeviceConstraint) (picks : List (EffectiveRequest × Candidate)) : Prop :=
  forall attributeName, constraint.matchAttribute = some attributeName -> Exists fun value => forall pick, pick ∈ picks ->
    constraintApplies constraint.requests pick.1.resultName = true ->
      lookupAttribute pick.2.basic pick.2.driver attributeName = some value

section
variable (selects : String -> Candidate -> Bool) (deviceClasses : SortedMap String DeviceClass)
  (candidates : List Candidate) (excluded : Finset DeviceId)

/-- The devices that the alternative's selectors and its class's accept. -/
def EffectiveRequest.matching (eff : EffectiveRequest) : Option (List Candidate) :=
  (deviceClasses.get eff.deviceClassName).map fun deviceClass =>
    candidates.filter fun c => deviceMatches selects (eff.selectors ++ deviceClass.selectors.getD []) c

/-- All the devices that match, or the exact count of them.  A set of devices
is listed in the order of the node's candidates. -/
structure Grant.Serves (request : DeviceRequest) (g : Grant) : Prop where
  alternative : Exists fun alternatives => effectiveRequests request = some alternatives ∧ g.eff ∈ alternatives
  counted : Exists fun matching => g.eff.matching selects deviceClasses candidates = some matching ∧
    if g.eff.allDevices then g.devices = matching else g.devices.Sublist matching ∧ g.devices.length = g.eff.count

/-- What an assignment has to meet for the claims to be allocated by it. -/
structure Allocation (claims : List ClaimAllocationInput) (assignment : Assignment) : Prop where
  served : List.Forall₂ (fun claim grants =>
    List.Forall₂ (Grant.Serves selects deviceClasses candidates) claim.requests grants) claims assignment
  constrained : List.Forall₂ (fun claim grants => forall constraint, constraint ∈ claim.constraints ->
    DeviceConstraint.Holds constraint (grants.flatMap Grant.picks)) claims assignment
  once : (assignment.results.flatMap exclusive).Nodup
  free : forall device, device ∈ assignment.results.flatMap exclusive -> device ∉ excluded

/-- No request for all devices is served with none. -/
def Assignment.NonemptyAll (assignment : Assignment) : Prop :=
  forall grants, grants ∈ assignment -> forall g, g ∈ grants -> g.eff.allDevices = true -> g.devices ≠ []

/-! ## The order of the search -/

/-- Takes the picks one after another. -/
def Search.takes : Search -> List (EffectiveRequest × Candidate) -> Option Search
  | search, [] => some search
  | search, pick :: rest => (search.pick excluded pick.1 pick.2).bind fun picked => Search.takes picked rest

def EffectiveRequest.choices (eff : EffectiveRequest) : List (List Candidate) :=
  match eff.matching selects deviceClasses candidates with
  | none => []
  | some matching =>
    if eff.allDevices then if matching.isEmpty then [] else [matching] else combinations matching eff.count

def DeviceRequest.grants (request : DeviceRequest) : List Grant :=
  ((effectiveRequests request).getD []).flatMap fun eff =>
    (eff.choices selects deviceClasses candidates).map (Grant.mk eff)

def ClaimAllocationInput.grants (claim : ClaimAllocationInput) : List (List Grant) :=
  product (claim.requests.map (DeviceRequest.grants selects deviceClasses candidates))

/-- Whether the picks of one claim after another are taken. -/
def fits : List ClaimAllocationInput -> Finset DeviceId -> Assignment -> Bool
  | [], _, [] => true
  | claim :: claims, picked, grants :: later =>
    match Search.takes excluded ⟨picked, constraintStates claim.constraints, []⟩ (grants.flatMap Grant.picks) with
    | none => false
    | some search => fits claims search.picked later
  | _, _, _ => false

/-- The allocations in the order of the search. -/
def allocations (claims : List ClaimAllocationInput) (picked : Finset DeviceId) : List Assignment :=
  (product (claims.map (ClaimAllocationInput.grants selects deviceClasses candidates))).filter (fits excluded claims picked)

end

/-- No alternative is for no devices at all. -/
def Counted (requests : List DeviceRequest) : Prop :=
  forall request, request ∈ requests -> forall alternatives, effectiveRequests request = some alternatives ->
    forall eff, eff ∈ alternatives -> eff.allDevices = true ∨ eff.count ≠ 0

section
variable {Solution : Type} {excluded : Finset DeviceId} {eff : EffectiveRequest} {search picked : Search}
  {next : Search -> Nat -> Searched Solution} {after : Search -> List Solution} {thorough : Prop}
  {selects : String -> Candidate -> Bool} {deviceClasses : SortedMap String DeviceClass} {candidates : List Candidate}

theorem takes_append (first second : List (EffectiveRequest × Candidate)) :
    search.takes excluded (first ++ second) = (search.takes excluded first).bind fun picked => picked.takes excluded second := by
  induction first generalizing search with
  | nil => rfl
  | cons pick rest ih =>
    rw [List.cons_append, Search.takes, Search.takes, Option.bind_assoc]
    exact congrArg _ (funext fun picked => ih)

/-- The solutions that go on from the picks, if they are taken. -/
def Search.continued (excluded : Finset DeviceId) (after : Search -> List Solution) (search : Search)
    (picks : List (EffectiveRequest × Candidate)) : List Solution :=
  ((search.takes excluded picks).map after).getD []

theorem continued_append (first second : List (EffectiveRequest × Candidate)) :
    search.continued excluded after (first ++ second) =
      search.continued excluded (fun picked => picked.continued excluded after second) first := by
  unfold Search.continued
  rw [takes_append]
  cases search.takes excluded first <;> rfl

theorem continued_cons_of_none {c : Candidate} (refused : search.pick excluded eff c = none)
    (rest : List (EffectiveRequest × Candidate)) : search.continued excluded after ((eff, c) :: rest) = [] := by
  unfold Search.continued Search.takes
  rw [refused]
  rfl

theorem continued_cons_of_some {c : Candidate} (taken : search.pick excluded eff c = some picked)
    (rest : List (EffectiveRequest × Candidate)) :
    search.continued excluded after ((eff, c) :: rest) = picked.continued excluded after rest := by
  unfold Search.continued
  rw [Search.takes, taken]
  rfl

theorem allocateExact_zero (matching : List Candidate) (remaining : Nat) :
    allocateExact excluded eff next matching (remaining + 1) search 0 = (none, 0) := by
  cases matching <;> rfl

theorem allocateExact_explores
    (explores : forall search budget, Explores thorough (after search) budget (next search budget))
    (matching : List Candidate) (remaining budget : Nat) (search : Search) :
    Explores thorough ((combinations matching remaining).flatMap fun devices =>
        search.continued excluded after (Grant.mk eff devices).picks) budget
      (allocateExact excluded eff next matching remaining search budget) := by
  induction matching generalizing remaining budget search with
  | nil =>
    cases remaining with
    | zero =>
      rw [combinations, List.flatMap_singleton, allocateExact]
      exact explores search budget
    | succ remaining => exact .nothing
  | cons c rest ih =>
    cases remaining with
    | zero =>
      rw [combinations, List.flatMap_singleton, allocateExact]
      exact explores search budget
    | succ remaining =>
      cases budget with
      | zero => exact .exhausted
      | succ budget =>
        refine Explores.spent ?_ (Nat.le_succ budget)
        rw [combinations, List.flatMap_append, List.flatMap_map, allocateExact]
        cases taken : search.pick excluded eff c with
        | none =>
          have none_ : ((combinations rest remaining).flatMap fun devices =>
              search.continued excluded after (Grant.mk eff (c :: devices)).picks) = [] :=
            List.flatMap_eq_nil_iff.mpr fun devices _ => continued_cons_of_none taken _
          rw [none_, List.nil_append]
          exact ih (remaining + 1) budget search
        | some picked =>
          have deeper := ih remaining budget picked
          have same : (fun devices => search.continued excluded after (Grant.mk eff (c :: devices)).picks) =
              fun devices => picked.continued excluded after (Grant.mk eff devices).picks :=
            funext fun devices => continued_cons_of_some taken _
          rw [same]
          dsimp only
          rcases found : allocateExact excluded eff next rest remaining picked budget with ⟨_ | solution, left⟩
          · rw [found] at deeper
            refine deeper.orElse_none (fun _ spent => ?_) (ih (remaining + 1) left search)
            subst spent
            exact congrArg Prod.fst (allocateExact_zero rest remaining)
          · rw [found] at deeper
            exact deeper.orElse_some

theorem pickAll_takes {matching : List Candidate} {budget : Nat} :
    (forall picked left, pickAll excluded eff matching search budget = .valid picked left ->
      search.takes excluded (Grant.mk eff matching).picks = some picked ∧ left <= budget) ∧
    (forall left, pickAll excluded eff matching search budget = .invalid left ->
      search.takes excluded (Grant.mk eff matching).picks = none ∧ left <= budget) := by
  induction matching generalizing search budget with
  | nil =>
    refine ⟨fun picked left found => ?_, fun _ no => by cases no⟩
    cases found
    exact ⟨rfl, Nat.le_refl _⟩
  | cons c rest ih =>
    cases budget with
    | zero => exact ⟨fun _ _ no => (by cases no), fun _ no => by cases no⟩
    | succ budget =>
      have taken_cons : search.takes excluded (Grant.mk eff (c :: rest)).picks =
          (search.pick excluded eff c).bind fun picked => picked.takes excluded (Grant.mk eff rest).picks := rfl
      unfold pickAll
      rw [taken_cons]
      cases taken : search.pick excluded eff c with
      | none =>
        refine ⟨fun _ _ no => (by cases no), fun left found => ?_⟩
        cases found
        exact ⟨rfl, Nat.le_succ _⟩
      | some next =>
        exact ⟨fun picked left found => (ih.1 picked left found).imp_right Nat.le_succ_of_le,
          fun left found => (ih.2 left found).imp_right Nat.le_succ_of_le⟩

theorem EffectiveRequest.choices_of_matching {matching : List Candidate}
    (known : eff.matching selects deviceClasses candidates = some matching) :
    eff.choices selects deviceClasses candidates =
      if eff.allDevices then if matching.isEmpty then [] else [matching] else combinations matching eff.count := by
  unfold EffectiveRequest.choices
  rw [known]

theorem matching_eq_none (unknown : deviceClasses.get eff.deviceClassName = none) :
    eff.matching selects deviceClasses candidates = none := by
  rw [EffectiveRequest.matching, unknown]
  rfl

/-- With its branches spent the search goes on to no alternative with devices. -/
theorem allocateAlternatives_zero {alternatives : List EffectiveRequest}
    (counted : forall eff, eff ∈ alternatives -> eff.allDevices = true ∨ eff.count ≠ 0) :
    (allocateAlternatives selects deviceClasses candidates excluded next alternatives search 0).1 = none := by
  induction alternatives with
  | nil => rfl
  | cons eff rest ih =>
    have later := ih fun eff listed => counted eff (.tail _ listed)
    unfold allocateAlternatives
    cases deviceClasses.get eff.deviceClassName with
    | none => exact later
    | some deviceClass =>
      dsimp only
      generalize (candidates.filter fun c => deviceMatches selects (eff.selectors ++ deviceClass.selectors.getD []) c) =
        matching
      by_cases everything : eff.allDevices = true
      · rw [if_pos everything]
        cases matching with
        | nil => exact later
        | cons c others => rfl
      · rw [if_neg everything]
        rcases Nat.exists_eq_succ_of_ne_zero ((counted eff (.head _)).resolve_left everything) with ⟨n, count⟩
        rw [count, allocateExact_zero]
        exact later

section

variable (explores : forall search budget, Explores thorough (after search) budget (next search budget))
include explores

theorem allocateAlternatives_explores
    (alternatives : List EffectiveRequest)
    (counted : thorough -> forall eff, eff ∈ alternatives -> eff.allDevices = true ∨ eff.count ≠ 0) (budget : Nat) :
    Explores thorough ((alternatives.flatMap fun eff =>
        (eff.choices selects deviceClasses candidates).map (Grant.mk eff)).flatMap fun g =>
          search.continued excluded after g.picks) budget
      (allocateAlternatives selects deviceClasses candidates excluded next alternatives search budget) := by
  induction alternatives generalizing budget with
  | nil => exact .nothing
  | cons eff rest ih =>
    have careful := fun careful eff listed => counted careful eff (.tail _ listed)
    have idle : forall left, thorough -> left = 0 ->
        (allocateAlternatives selects deviceClasses candidates excluded next rest search left).1 = none := by
      intro left thorough spent
      subst spent
      exact allocateAlternatives_zero (careful thorough)
    rw [List.flatMap_cons, List.flatMap_append, List.flatMap_map, allocateAlternatives]
    cases known : deviceClasses.get eff.deviceClassName with
    | none =>
      have none_ : eff.choices selects deviceClasses candidates = [] := by
        unfold EffectiveRequest.choices
        rw [matching_eq_none known]
      rw [none_]
      exact ih careful budget
    | some deviceClass =>
      have matches_ : eff.matching selects deviceClasses candidates =
          some (candidates.filter fun c => deviceMatches selects (eff.selectors ++ deviceClass.selectors.getD []) c) := by
        rw [EffectiveRequest.matching, known]
        rfl
      rw [EffectiveRequest.choices_of_matching matches_]
      dsimp only
      generalize (candidates.filter fun c => deviceMatches selects (eff.selectors ++ deviceClass.selectors.getD []) c) =
        matching
      by_cases everything : eff.allDevices = true
      · rw [if_pos everything, if_pos everything]
        by_cases empty : matching.isEmpty = true
        · rw [if_pos empty, if_pos empty]
          exact ih careful budget
        · rw [if_neg empty, if_neg empty, List.flatMap_singleton]
          cases found : pickAll excluded eff matching search budget with
          | exhausted => exact .exhausted
          | invalid left =>
            rcases pickAll_takes.2 left found with ⟨refused, le⟩
            have none_ : search.continued excluded after (Grant.mk eff matching).picks = [] := by
              rw [Search.continued, refused]
              rfl
            rw [none_]
            exact (ih careful left).spent le
          | valid picked left =>
            rcases pickAll_takes.1 picked left found with ⟨taken, le⟩
            have continues : search.continued excluded after (Grant.mk eff matching).picks = after picked := by
              rw [Search.continued, taken]
              rfl
            have deeper := explores picked left
            rw [continues]
            refine Explores.spent ?_ le
            dsimp only
            rcases last : next picked left with ⟨_ | solution, left⟩
            · rw [last] at deeper
              exact deeper.orElse_none (idle left) (ih careful left)
            · rw [last] at deeper
              exact deeper.orElse_some
      · rw [if_neg everything, if_neg everything]
        have deeper : Explores thorough _ budget (allocateExact excluded eff next matching eff.count search budget) :=
          allocateExact_explores explores matching eff.count budget search
        rcases found : allocateExact excluded eff next matching eff.count search budget with ⟨_ | solution, left⟩
        · rw [found] at deeper
          exact deeper.orElse_none (idle left) (ih careful left)
        · rw [found] at deeper
          exact deeper.orElse_some

theorem allocateRequests_explores
    (requests : List DeviceRequest) (counted : thorough -> Counted requests) (search : Search) (budget : Nat) :
    Explores thorough ((product (requests.map (DeviceRequest.grants selects deviceClasses candidates))).flatMap fun grants =>
        search.continued excluded after (grants.flatMap Grant.picks)) budget
      (allocateRequests selects deviceClasses candidates excluded next requests search budget) := by
  induction requests generalizing search budget with
  | nil =>
    rw [List.map_nil, product, List.flatMap_singleton, allocateRequests]
    exact explores search budget
  | cons request rest ih =>
    have deeper := ih fun careful request listed => counted careful request (.tail _ listed)
    have same : ((product ((request :: rest).map (DeviceRequest.grants selects deviceClasses candidates))).flatMap
          fun grants => search.continued excluded after (grants.flatMap Grant.picks)) =
        (request.grants selects deviceClasses candidates).flatMap fun g => search.continued excluded (fun picked =>
          (product (rest.map (DeviceRequest.grants selects deviceClasses candidates))).flatMap fun grants =>
            picked.continued excluded after (grants.flatMap Grant.picks)) g.picks := by
      rw [List.map_cons, product, List.flatMap_assoc]
      congr 1
      funext g
      rw [List.flatMap_map]
      simp only [List.flatMap_cons, continued_append]
      unfold Search.continued
      cases search.takes excluded g.picks with
      | none => exact List.flatMap_eq_nil_iff.mpr fun _ _ => rfl
      | some picked => rfl
    rw [same, allocateRequests]
    unfold DeviceRequest.grants
    cases known : effectiveRequests request with
    | none => exact .nothing
    | some alternatives =>
      exact allocateAlternatives_explores deeper alternatives
        (fun careful => counted careful request List.mem_cons_self alternatives known) budget

/-! ## The picks of a claim -/

end

theorem pick_out {c : Candidate} (taken : search.pick excluded eff c = some picked) :
    picked.out = search.out ++ [allocationResult eff c] := by
  unfold Search.pick at taken
  split at taken
  · cases taken
  · rcases Option.map_eq_some_iff.mp taken with ⟨states, -, rfl⟩
    rfl

theorem takes_out {picks : List (EffectiveRequest × Candidate)} (taken : search.takes excluded picks = some picked) :
    picked.out = search.out ++ picks.map fun pick => allocationResult pick.1 pick.2 := by
  induction picks generalizing search with
  | nil =>
    cases taken
    exact (List.append_nil _).symm
  | cons pick rest ih =>
    rcases Option.bind_eq_some_iff.mp taken with ⟨next, first, taken⟩
    rw [ih taken, pick_out first, List.append_assoc]
    rfl

theorem results_eq_picks (grants : List Grant) :
    (grants.flatMap Grant.picks).map (fun pick => allocationResult pick.1 pick.2) = grants.flatMap Grant.results := by
  rw [List.map_flatMap]
  congr 1
  funext g
  rw [Grant.picks, List.map_map]
  rfl

theorem allocations_cons (claim : ClaimAllocationInput) (claims : List ClaimAllocationInput) (base : Finset DeviceId) :
    (allocations selects deviceClasses candidates excluded (claim :: claims) base).map Assignment.results =
      (claim.grants selects deviceClasses candidates).flatMap fun grants =>
        Search.continued excluded (fun search =>
          ((allocations selects deviceClasses candidates excluded claims search.picked).map Assignment.results).map
            (search.out :: ·)) ⟨base, constraintStates claim.constraints, []⟩ (grants.flatMap Grant.picks) := by
  unfold allocations
  rw [List.map_cons, product, List.filter_flatMap, List.map_flatMap]
  congr 1
  funext grants
  rw [List.filter_map, List.map_map]
  unfold Search.continued
  cases taken : Search.takes excluded ⟨base, constraintStates claim.constraints, []⟩ (grants.flatMap Grant.picks) with
  | none =>
    have none_ : fits excluded (claim :: claims) base ∘ (grants :: ·) = fun _ => false := by
      funext later
      simp only [Function.comp_apply, fits, taken]
    rw [none_, List.filter_false]
    rfl
  | some search =>
    have some_ : fits excluded (claim :: claims) base ∘ (grants :: ·) = fits excluded claims search.picked := by
      funext later
      simp only [Function.comp_apply, fits, taken]
    have out : search.out = grants.flatMap Grant.results := by
      rw [takes_out taken, List.nil_append, results_eq_picks]
    rw [some_, Option.map_some, Option.getD_some, List.map_map, out]
    rfl

theorem allocateClaims_explores {claims : List ClaimAllocationInput}
    (counted : thorough -> forall claim, claim ∈ claims -> Counted claim.requests) (base : Finset DeviceId) (budget : Nat) :
    Explores thorough ((allocations selects deviceClasses candidates excluded claims base).map Assignment.results) budget
      (allocateClaims selects deviceClasses candidates excluded claims base budget) := by
  induction claims generalizing base budget with
  | nil => exact .found
  | cons claim rest ih =>
    rw [allocations_cons, allocateClaims]
    refine allocateRequests_explores (fun search budget => ?_) claim.requests
      (fun careful => counted careful claim (.head _)) _ budget
    have later := (ih (fun careful claim listed => counted careful claim (.tail _ listed)) search.picked
      budget).map (search.out :: ·)
    rcases found : allocateClaims selects deviceClasses candidates excluded rest search.picked budget with ⟨_ | solution, left⟩
    · rw [found] at later
      exact later
    · rw [found] at later
      exact later

/-! ## What makes an assignment fit -/

theorem exclusive_cons (eff : EffectiveRequest) (c : Candidate) (results : List DeviceRequestAllocationResult) :
    exclusive (allocationResult eff c :: results) = (if eff.adminAccess then [] else [c.id]) ++ exclusive results := by
  unfold exclusive
  cases admin : eff.adminAccess <;> simp [allocationResult, admin, deviceId, Candidate.id]

/-- What is left of the constraint is met by the picks. -/
def ConstraintState.Meets (state : ConstraintState) (picks : List (EffectiveRequest × Candidate)) : Prop :=
  forall attributeName, state.constraint.matchAttribute = some attributeName -> Exists fun value =>
    (forall existing, state.value = some existing -> existing = value) ∧ forall pick, pick ∈ picks ->
      constraintApplies state.constraint.requests pick.1.resultName = true ->
        lookupAttribute pick.2.basic pick.2.driver attributeName = some value

/-- One constraint after one more pick. -/
def ConstraintState.admit (resultName driver : String) (basic : BasicDevice) (state : ConstraintState) : Option ConstraintState :=
  match state.constraint.matchAttribute with
  | none => some state
  | some attributeName =>
    if !constraintApplies state.constraint.requests resultName then some state
    else
      (lookupAttribute basic driver attributeName).bind fun value =>
        match state.value with
        | none => some { state with value := some value }
        | some existing => if existing = value then some state else none

theorem meets_cons (state : ConstraintState) (pick : EffectiveRequest × Candidate)
    (rest : List (EffectiveRequest × Candidate)) :
    state.Meets (pick :: rest) <->
      Exists fun next => state.admit pick.1.resultName pick.2.driver pick.2.basic = some next ∧ next.Meets rest := by
  unfold ConstraintState.admit
  cases has : state.constraint.matchAttribute with
  | none =>
    have nothing : forall picks, state.Meets picks := fun picks name named => nomatch has.symm.trans named
    exact ⟨fun _ => ⟨state, rfl, nothing rest⟩, fun _ => nothing _⟩
  | some attributeName =>
    dsimp only
    cases applies : constraintApplies state.constraint.requests pick.1.resultName with
    | false =>
      constructor
      · intro meets
        refine ⟨state, rfl, fun name named => ?_⟩
        rcases meets name named with ⟨value, same, covered⟩
        exact ⟨value, same, fun other listed => covered other (.tail _ listed)⟩
      · rintro ⟨next, found, meets⟩ name named
        cases found
        rcases meets name named with ⟨value, same, covered⟩
        refine ⟨value, same, fun other listed covers => ?_⟩
        rcases List.mem_cons.mp listed with rfl | listed
        · rw [applies] at covers
          cases covers
        · exact covered other listed covers
    | true =>
      rw [Bool.not_true, if_neg Bool.false_ne_true]
      constructor
      · intro meets
        rcases meets attributeName has with ⟨value, same, covered⟩
        have here := covered pick List.mem_cons_self applies
        have later : forall other, other ∈ rest -> constraintApplies state.constraint.requests other.1.resultName = true ->
            lookupAttribute other.2.basic other.2.driver attributeName = some value :=
          fun other listed => covered other (.tail _ listed)
        rw [here, Option.bind_some]
        cases existing : state.value with
        | none =>
          refine ⟨_, rfl, fun name named => ⟨value, fun _ same => (Option.some.inj same).symm, ?_⟩⟩
          cases has.symm.trans named
          exact later
        | some existing_ =>
          dsimp only
          rw [if_pos (same existing_ existing)]
          refine ⟨state, rfl, fun name named => ⟨value, same, ?_⟩⟩
          cases has.symm.trans named
          exact later
      · rintro ⟨next, found, meets⟩ name named
        cases has.symm.trans named
        rcases Option.bind_eq_some_iff.mp found with ⟨value, here, found⟩
        have covers : forall other, next.constraint = state.constraint -> next.value = some value -> other ∈ pick :: rest ->
            constraintApplies state.constraint.requests other.1.resultName = true ->
              lookupAttribute other.2.basic other.2.driver attributeName = some value := by
          intro other same holds listed applies
          rcases List.mem_cons.mp listed with rfl | listed
          · exact here
          · rcases meets attributeName (same ▸ has) with ⟨again, settled, covered⟩
            rw [settled value holds]
            exact covered other listed (same ▸ applies)
        cases existing : state.value with
        | none =>
          rw [existing] at found
          cases found
          exact ⟨value, nofun, fun other listed => covers other rfl rfl listed⟩
        | some existing_ =>
          rw [existing] at found
          dsimp only at found
          split at found
          · next same =>
              cases found
              exact ⟨value, fun w some_ => (Option.some.inj some_).symm.trans same, fun other listed =>
                covers other rfl (existing.trans (congrArg some same)) listed⟩
          · cases found

theorem constraintAllows_meets (states : List ConstraintState) (pick : EffectiveRequest × Candidate)
    (rest : List (EffectiveRequest × Candidate)) :
    (forall state, state ∈ states -> state.Meets (pick :: rest)) <->
      Exists fun next => constraintAllows states pick.1.resultName pick.2.driver pick.2.basic = some next ∧
        forall state, state ∈ next -> state.Meets rest := by
  have allows : constraintAllows states pick.1.resultName pick.2.driver pick.2.basic =
      states.mapM ( ConstraintState.admit pick.1.resultName pick.2.driver pick.2.basic) := rfl
  rw [allows]
  clear allows
  induction states with
  | nil => simp
  | cons state others ih =>
    rw [List.forall_mem_cons, meets_cons, List.mapM_cons]
    constructor
    · rintro ⟨⟨next, admitted, meets⟩, others⟩
      rcases ih.mp others with ⟨later, allowed, all⟩
      refine ⟨next :: later, ?_, List.forall_mem_cons.mpr ⟨meets, all⟩⟩
      rw [admitted, allowed]
      rfl
    · rintro ⟨next, found, all⟩
      rcases Option.bind_eq_some_iff.mp found with ⟨first, admitted, found⟩
      rcases Option.bind_eq_some_iff.mp found with ⟨later, allowed, found⟩
      cases found
      rcases List.forall_mem_cons.mp all with ⟨meets, all⟩
      exact ⟨⟨first, admitted, meets⟩, ih.mpr ⟨later, allowed, all⟩⟩

/-- The picks can all be taken. -/
structure Search.Takable (search : Search) (excluded : Finset DeviceId) (picks : List (EffectiveRequest × Candidate)) : Prop where
  once : (exclusive (picks.map fun pick => allocationResult pick.1 pick.2)).Nodup
  free : forall device, device ∈ exclusive (picks.map fun pick => allocationResult pick.1 pick.2) ->
    device ∉ excluded ∧ device ∉ search.picked
  meets : forall state, state ∈ search.constraintState -> state.Meets picks

theorem takable_cons (pick : EffectiveRequest × Candidate) (rest : List (EffectiveRequest × Candidate)) :
    search.Takable excluded (pick :: rest) <->
      Exists fun picked => search.pick excluded pick.1 pick.2 = some picked ∧ picked.Takable excluded rest := by
  have devices : exclusive ((pick :: rest).map fun pick => allocationResult pick.1 pick.2) =
      (if pick.1.adminAccess then [] else [pick.2.id]) ++
        exclusive (rest.map fun pick => allocationResult pick.1 pick.2) := exclusive_cons _ _ _
  unfold Search.pick
  cases admin : pick.1.adminAccess with
  | true =>
    rw [admin, if_pos rfl, List.nil_append] at devices
    constructor
    · intro takable
      rcases (constraintAllows_meets _ _ _).mp takable.meets with ⟨next, allowed, meets⟩
      refine ⟨⟨search.picked, next, search.out ++ [allocationResult pick.1 pick.2]⟩, ?_,
        ⟨devices ▸ takable.once, devices ▸ takable.free, meets⟩⟩
      rw [allowed]
      rfl
    · rintro ⟨picked, found, takable⟩
      rcases Option.map_eq_some_iff.mp found with ⟨next, allowed, rfl⟩
      exact ⟨devices ▸ takable.once, devices ▸ takable.free,
        (constraintAllows_meets _ _ _).mpr ⟨next, allowed, takable.meets⟩⟩
  | false =>
    rw [admin, if_neg Bool.false_ne_true, List.singleton_append] at devices
    constructor
    · intro takable
      have once := List.nodup_cons.mp (devices ▸ takable.once)
      have free : forall device, device ∈ pick.2.id :: exclusive (rest.map fun pick => allocationResult pick.1 pick.2) ->
          device ∉ excluded ∧ device ∉ search.picked := devices ▸ takable.free
      rcases (constraintAllows_meets _ _ _).mp takable.meets with ⟨next, allowed, meets⟩
      refine ⟨⟨insert pick.2.id search.picked, next, search.out ++ [allocationResult pick.1 pick.2]⟩, ?_,
        ⟨once.2, fun device listed => ⟨(free device (.tail _ listed)).1, ?_⟩, meets⟩⟩
      · have open_ := free pick.2.id (.head _)
        rw [if_neg (by simp [open_.1, open_.2]), allowed]
        rfl
      · intro taken
        rcases Finset.mem_insert.mp taken with rfl | taken
        · exact once.1 listed
        · exact (free device (.tail _ listed)).2 taken
    · rintro ⟨picked, found, takable⟩
      split at found
      · cases found
      · next open_ =>
          rcases Option.map_eq_some_iff.mp found with ⟨next, allowed, rfl⟩
          have apart : pick.2.id ∉ excluded ∧ pick.2.id ∉ search.picked := by
            simpa using open_
          refine ⟨?_, fun device listed => ?_, (constraintAllows_meets _ _ _).mpr ⟨next, allowed, takable.meets⟩⟩
          · rw [devices]
            exact List.nodup_cons.mpr
              ⟨fun listed => (takable.free _ listed).2 (Finset.mem_insert_self _ _), takable.once⟩
          · rw [devices] at listed
            rcases List.mem_cons.mp listed with rfl | listed
            · exact apart
            · exact (takable.free device listed).imp_right fun fresh there => fresh (Finset.mem_insert_of_mem there)

theorem takes_iff {picks : List (EffectiveRequest × Candidate)} :
    (Exists fun picked => search.takes excluded picks = some picked) <-> search.Takable excluded picks := by
  induction picks generalizing search with
  | nil =>
    refine ⟨fun _ => ⟨List.nodup_nil, nofun, fun state _ name _ => ?_⟩,
      fun _ => ⟨search, rfl⟩⟩
    cases existing : state.value with
    | none => exact ⟨.bool false, nofun, nofun⟩
    | some value => exact ⟨value, fun _ some_ => (Option.some.inj some_).symm, nofun⟩
  | cons pick rest ih =>
    rw [takable_cons]
    constructor
    · rintro ⟨last, taken⟩
      rcases Option.bind_eq_some_iff.mp taken with ⟨next, first, taken⟩
      exact ⟨next, first, ih.mp ⟨last, taken⟩⟩
    · rintro ⟨next, first, takable⟩
      rcases ih.mpr takable with ⟨last, taken⟩
      exact ⟨last, Option.bind_eq_some_iff.mpr ⟨next, first, taken⟩⟩

theorem takes_picked {picks : List (EffectiveRequest × Candidate)} (taken : search.takes excluded picks = some picked)
    (device : DeviceId) : device ∈ picked.picked <->
      device ∈ search.picked ∨ device ∈ exclusive (picks.map fun pick => allocationResult pick.1 pick.2) := by
  induction picks generalizing search with
  | nil =>
    cases taken
    simp [exclusive]
  | cons pick rest ih =>
    rcases Option.bind_eq_some_iff.mp taken with ⟨next, first, taken⟩
    rw [ih taken, List.map_cons, exclusive_cons, List.mem_append]
    unfold Search.pick at first
    split at first
    · cases first
    · rcases Option.map_eq_some_iff.mp first with ⟨states, -, rfl⟩
      cases admin : pick.1.adminAccess with
      | true => simp
      | false => simp [or_assoc, or_left_comm]

theorem holds_iff_meets (constraint : DeviceConstraint) (picks : List (EffectiveRequest × Candidate)) :
    constraint.Holds picks <-> ConstraintState.Meets ⟨constraint, none⟩ picks := by
  constructor
  · intro holds name named
    rcases holds name named with ⟨value, covered⟩
    exact ⟨value, nofun, covered⟩
  · intro meets name named
    rcases meets name named with ⟨value, -, covered⟩
    exact ⟨value, covered⟩

theorem fits_iff {claims : List ClaimAllocationInput} {base : Finset DeviceId} {assignment : Assignment} :
    fits excluded claims base assignment = true <->
      List.Forall₂ (fun claim grants => forall constraint, constraint ∈ claim.constraints ->
        DeviceConstraint.Holds constraint (grants.flatMap Grant.picks)) claims assignment ∧
      (assignment.results.flatMap exclusive).Nodup ∧
      forall device, device ∈ assignment.results.flatMap exclusive -> device ∉ excluded ∧ device ∉ base := by
  induction claims generalizing base assignment with
  | nil =>
    cases assignment with
    | nil => simp [fits, Assignment.results]
    | cons grants later => simp [fits]
  | cons claim rest ih =>
    cases assignment with
    | nil => simp [fits]
    | cons grants later =>
      have devices : (Assignment.results (grants :: later)).flatMap exclusive =
          exclusive (grants.flatMap Grant.results) ++ (Assignment.results later).flatMap exclusive := List.flatMap_cons
      have constrained : (forall state, state ∈ constraintStates claim.constraints ->
          state.Meets (grants.flatMap Grant.picks)) <-> forall constraint, constraint ∈ claim.constraints ->
            DeviceConstraint.Holds constraint (grants.flatMap Grant.picks) := by
        simp only [constraintStates, List.forall_mem_map, holds_iff_meets]
      rw [List.forall₂_cons, devices, List.nodup_append']
      unfold fits
      cases taken : Search.takes excluded ⟨base, constraintStates claim.constraints, []⟩ (grants.flatMap Grant.picks) with
      | none =>
        refine ⟨nofun, fun meets => ?_⟩
        have takable : Search.Takable ⟨base, constraintStates claim.constraints, []⟩ excluded
            (grants.flatMap Grant.picks) := by
          refine ⟨?_, fun device listed => ?_, constrained.mpr meets.1.1⟩
          · rw [results_eq_picks]
            exact meets.2.1.1
          · rw [results_eq_picks] at listed
            exact meets.2.2 device (List.mem_append_left _ listed)
        rcases takes_iff.mpr takable with ⟨picked, some_⟩
        exact nomatch taken.symm.trans some_
      | some search =>
        have takable := takes_iff.mp ⟨search, taken⟩
        have marked := takes_picked taken
        rw [results_eq_picks] at marked
        have free := takable.free
        rw [results_eq_picks] at free
        rw [ih]
        constructor
        · rintro ⟨holds, once, fresh⟩
          refine ⟨⟨constrained.mp takable.meets, holds⟩, ⟨results_eq_picks grants ▸ takable.once, once, ?_⟩, ?_⟩
          · exact fun device here there => (fresh device there).2 ((marked device).mpr (.inr here))
          · intro device listed
            rcases List.mem_append.mp listed with here | there
            · exact free device here
            · exact (fresh device there).imp_right fun fresh early => fresh ((marked device).mpr (.inl early))
        · rintro ⟨⟨-, holds⟩, ⟨-, once, apart⟩, fresh⟩
          refine ⟨holds, once, fun device there => ⟨(fresh device (List.mem_append_right _ there)).1, fun taken => ?_⟩⟩
          rcases (marked device).mp taken with early | here
          · exact (fresh device (List.mem_append_right _ there)).2 early
          · exact apart here there

/-! ## The allocations there are -/

theorem mem_choices {devices : List Candidate} : devices ∈ eff.choices selects deviceClasses candidates <->
    (Exists fun matching => eff.matching selects deviceClasses candidates = some matching ∧
      if eff.allDevices then devices = matching else devices.Sublist matching ∧ devices.length = eff.count) ∧
    (eff.allDevices = true -> devices ≠ []) := by
  unfold EffectiveRequest.choices
  cases eff.matching selects deviceClasses candidates with
  | none => simp
  | some matching =>
    simp only [Option.some.injEq, exists_eq_left']
    by_cases everything : eff.allDevices = true
    · simp only [everything, if_true, forall_const]
      cases matching with
      | nil | cons c rest => simp +contextual
    · simp only [everything, Bool.false_eq_true, if_false, mem_combinations, false_implies, and_true]

theorem mem_grants {request : DeviceRequest} {g : Grant} : g ∈ request.grants selects deviceClasses candidates <->
    g.Serves selects deviceClasses candidates request ∧ (g.eff.allDevices = true -> g.devices ≠ []) := by
  unfold DeviceRequest.grants
  rw [List.mem_flatMap]
  constructor
  · rintro ⟨eff, listed, there⟩
    rcases List.mem_map.mp there with ⟨devices, chosen, rfl⟩
    cases known : effectiveRequests request with
    | none =>
      rw [known] at listed
      cases listed
    | some alternatives =>
      rw [known] at listed
      exact (mem_choices.mp chosen).imp_left fun counted => ⟨⟨alternatives, known, listed⟩, counted⟩
  · rintro ⟨⟨⟨alternatives, known, listed⟩, counted⟩, nonempty⟩
    refine ⟨g.eff, ?_, List.mem_map.mpr ⟨g.devices, mem_choices.mpr ⟨counted, nonempty⟩, rfl⟩⟩
    rw [known]
    exact listed

theorem forall₂_and {Left Right : Type} {r : Left -> Right -> Prop} {p : Right -> Prop} {xs : List Left} {ys : List Right} :
    List.Forall₂ (fun x y => r x y ∧ p y) xs ys <-> List.Forall₂ r xs ys ∧ forall y, y ∈ ys -> p y := by
  constructor
  · intro both
    induction both with
    | nil => exact ⟨.nil, nofun⟩
    | cons here _ ih => exact ⟨.cons here.1 ih.1, List.forall_mem_cons.mpr ⟨here.2, ih.2⟩⟩
  · rintro ⟨related, all⟩
    induction related with
    | nil => exact .nil
    | cons here _ ih =>
      rcases List.forall_mem_cons.mp all with ⟨first, rest⟩
      exact .cons ⟨here, first⟩ (ih rest)

theorem forall₂_right {Left Right : Type} {r : Left -> Right -> Prop} {xs : List Left} {ys : List Right}
    (related : List.Forall₂ r xs ys) (y : Right) (listed : y ∈ ys) : Exists fun x => x ∈ xs ∧ r x y := by
  induction related with
  | nil => cases listed
  | cons here _ ih =>
    rcases List.mem_cons.mp listed with rfl | listed
    · exact ⟨_, .head _, here⟩
    · exact (ih listed).imp fun _ found => found.imp_left (List.mem_cons_of_mem _)

theorem mem_columns {claims : List ClaimAllocationInput} {assignment : Assignment} :
    assignment ∈ product (claims.map (ClaimAllocationInput.grants selects deviceClasses candidates)) <->
      List.Forall₂ (fun claim grants =>
        List.Forall₂ (Grant.Serves selects deviceClasses candidates) claim.requests grants) claims assignment ∧
      assignment.NonemptyAll := by
  unfold Assignment.NonemptyAll
  rw [mem_product, List.forall₂_map_left_iff, ← forall₂_and]
  have same : forall (claim : ClaimAllocationInput) (grants : List Grant),
      grants ∈ claim.grants selects deviceClasses candidates <->
        List.Forall₂ (Grant.Serves selects deviceClasses candidates) claim.requests grants ∧
          forall g, g ∈ grants -> g.eff.allDevices = true -> g.devices ≠ [] := by
    intro claim grants
    unfold ClaimAllocationInput.grants
    rw [mem_product, List.forall₂_map_left_iff, ← forall₂_and]
    simp only [mem_grants]
  simp only [same]

theorem fits_iff_allocation {claims : List ClaimAllocationInput} {assignment : Assignment}
    (listed : assignment ∈ product (claims.map (ClaimAllocationInput.grants selects deviceClasses candidates))) :
    fits excluded claims ∅ assignment = true <->
      Allocation selects deviceClasses candidates excluded claims assignment ∧ assignment.NonemptyAll := by
  rw [fits_iff]
  rcases mem_columns.mp listed with ⟨served, nonempty⟩
  constructor
  · rintro ⟨constrained, once, free⟩
    exact ⟨⟨served, constrained, once, fun device there => (free device there).1⟩, nonempty⟩
  · rintro ⟨allocation, -⟩
    exact ⟨allocation.constrained, allocation.once, fun device there =>
      ⟨allocation.free device there, Finset.notMem_empty device⟩⟩

theorem mem_allocations {claims : List ClaimAllocationInput} {assignment : Assignment} :
    assignment ∈ allocations selects deviceClasses candidates excluded claims ∅ <->
      Allocation selects deviceClasses candidates excluded claims assignment ∧ assignment.NonemptyAll := by
  unfold allocations
  rw [List.mem_filter]
  constructor
  · rintro ⟨listed, fit⟩
    exact (fits_iff_allocation listed).mp fit
  · intro meets
    have listed := mem_columns.mpr ⟨meets.1.served, meets.2⟩
    exact ⟨listed, (fits_iff_allocation listed).mpr meets⟩

end

section
variable (selects : String -> Candidate -> Bool) (deviceClasses : SortedMap String DeviceClass)

/-- Each request is served by the first of its alternatives with which the
grants before it go on to an allocation. -/
def Assignment.FirstAvailable (candidates : List Candidate) (excluded : Finset DeviceId) (claims : List ClaimAllocationInput)
    (assignment : Assignment) : Prop :=
  forall (done : Assignment) (before : List Grant) (g : Grant) (after : List Grant) (later : Assignment),
    assignment = done ++ (before ++ g :: after) :: later ->
      Exists fun claim => claims[done.length]? = some claim ∧ Exists fun request =>
        claim.requests[before.length]? = some request ∧ Exists fun early => Exists fun late =>
          effectiveRequests request = some (early ++ g.eff :: late) ∧
          forall (other : Grant) (after' : List Grant) (later' : Assignment), other.eff ∈ early ->
            Assignment.NonemptyAll (done ++ (before ++ other :: after') :: later') ->
              ¬Allocation selects deviceClasses candidates excluded claims (done ++ (before ++ other :: after') :: later')

theorem firstAvailable_of_head? {candidates : List Candidate} {excluded : Finset DeviceId}
    {claims : List ClaimAllocationInput} {assignment : Assignment}
    (head : (allocations selects deviceClasses candidates excluded claims ∅).head? = some assignment) :
    assignment.FirstAvailable selects deviceClasses candidates excluded claims := by
  intro done before g after later same
  subst same
  have first := (First.of_head?_filter head).congr fun _ listed => fits_iff_allocation listed
  rcases First.of_product (fun _ meets => mem_columns.mpr ⟨meets.1.served, meets.2⟩) first with ⟨column, at_, ofClaim⟩
  rcases Option.map_eq_some_iff.mp (List.getElem?_map ▸ at_) with ⟨claim, atClaim, rfl⟩
  have inside : forall grants, (Exists fun later' =>
      Allocation selects deviceClasses candidates excluded claims (done ++ grants :: later') ∧
        Assignment.NonemptyAll (done ++ grants :: later')) ->
      grants ∈ claim.grants selects deviceClasses candidates := fun grants found => found.elim fun later' meets =>
    mem_column (mem_columns.mpr ⟨meets.1.served, meets.2⟩) at_
  rcases First.of_product inside ofClaim with ⟨column, at', ofRequest⟩
  rcases Option.map_eq_some_iff.mp (List.getElem?_map ▸ at') with ⟨request, atRequest, rfl⟩
  rcases First.of_flatMap ofRequest with ⟨eff, ofAlternatives, ofChoices⟩
  rcases First.of_map ofChoices with ⟨devices, -, chosen⟩
  have eff_eq : g.eff = eff := congrArg Grant.eff chosen.symm
  rcases ofAlternatives.split with ⟨early, late, alternatives, none_⟩
  refine ⟨claim, atClaim, request, atRequest, early, late, ?_, fun other after' later' earlier nonempty allocation => ?_⟩
  · cases known : effectiveRequests request with
    | none =>
      rw [known] at alternatives
      cases early <;> cases alternatives
    | some listed =>
      rw [known] at alternatives
      rw [eff_eq]
      exact congrArg some alternatives
  · have there : other ∈ request.grants selects deviceClasses candidates :=
      mem_column (inside _ ⟨later', allocation, nonempty⟩) at'
    have serves := mem_grants.mp there
    exact none_ other.eff earlier ⟨other, List.mem_map.mpr
      ⟨other.devices, mem_choices.mpr ⟨serves.1.counted, serves.2⟩, rfl⟩, after', later', allocation, nonempty⟩

/-- A slice lists the device, for this node. -/
def Candidate.OnNode (slices : List ResourceSlice) (node : NodeInfo) (c : Candidate) : Prop :=
  Exists fun slice => slice ∈ slices ∧ Exists fun device => device ∈ slice.devices.getD [] ∧
    c = ⟨slice.driver, slice.pool, device.name, device.basic⟩ ∧
    if slice.perDeviceNodeSelection = some true then deviceAppliesToNode device.basic node = true
    else slice.nodeName = some node.name ∨ slice.allNodes = some true ∨
      Exists fun selector => slice.nodeSelector = some selector ∧ matchesNodeSelector selector node = true

theorem onNode_of_mem {slices : List ResourceSlice} {node : NodeInfo} {c : Candidate}
    (listed : c ∈ candidatesForNode slices node) : c.OnNode slices node := by
  rcases List.mem_flatMap.mp listed with ⟨slice, applies, listed⟩
  rcases List.mem_filterMap.mp listed with ⟨device, there, found⟩
  rcases List.mem_filter.mp applies with ⟨known, applies⟩
  refine ⟨slice, known, device, there, ?_⟩
  split at found
  · cases found
  · next open_ =>
      refine ⟨(Option.some.inj found).symm, ?_⟩
      by_cases perDevice : slice.perDeviceNodeSelection = some true
      · rw [if_pos perDevice]
        simpa [perDevice] using open_
      · rw [if_neg perDevice]
        cases named : slice.nodeSelector with
        | none => simpa [perDevice, named] using applies
        | some selector => simpa [perDevice, named, or_assoc] using applies

variable (slices : List ResourceSlice) (node : NodeInfo) (excluded : Finset DeviceId) (claims : List ClaimAllocationInput)

variable {selects deviceClasses excluded claims} in
theorem allocation_onNode {assignment : Assignment}
    (allocation : Allocation selects deviceClasses (candidatesForNode slices node) excluded claims assignment) :
    forall grants, grants ∈ assignment -> forall g, g ∈ grants -> forall c, c ∈ g.devices -> c.OnNode slices node := by
  intro grants listed g granted c picked
  rcases forall₂_right allocation.served grants listed with ⟨claim, -, served⟩
  rcases forall₂_right served g granted with ⟨request, -, serves⟩
  rcases serves.counted with ⟨matching, known, counted⟩
  rcases Option.map_eq_some_iff.mp known with ⟨deviceClass, -, rfl⟩
  have matches_ : c ∈ (candidatesForNode slices node).filter fun c =>
      deviceMatches selects (g.eff.selectors ++ deviceClass.selectors.getD []) c := by
    split at counted
    · exact counted ▸ picked
    · exact counted.1.subset picked
  exact onNode_of_mem (List.mem_filter.mp matches_).1

/-- The branches that the search of the node has left. -/
def branchesLeft (candidates : List Candidate) : Nat :=
  (allocateClaims selects deviceClasses candidates excluded claims ∅ maxAllocationBranches).2

/-- A solution allocates the claims with devices of the node, and it is the
first one unless the branches ran out.  Without a solution, and with branches
left, nothing allocates the claims. -/
theorem allocateClaimsOnNode_first_allocation :
    (forall solution, allocateClaimsOnNode selects deviceClasses (candidatesForNode slices node) excluded claims = some solution ->
      Exists fun assignment => solution = Assignment.results assignment ∧
        Allocation selects deviceClasses (candidatesForNode slices node) excluded claims assignment ∧
        assignment.NonemptyAll ∧
        (forall grants, grants ∈ assignment -> forall g, g ∈ grants -> forall c, c ∈ g.devices -> c.OnNode slices node) ∧
        (branchesLeft selects deviceClasses excluded claims (candidatesForNode slices node) ≠ 0 ∨
            (forall claim, claim ∈ claims -> Counted claim.requests) ->
          assignment.FirstAvailable selects deviceClasses (candidatesForNode slices node) excluded claims)) ∧
    (allocateClaimsOnNode selects deviceClasses (candidatesForNode slices node) excluded claims = none ->
      branchesLeft selects deviceClasses excluded claims (candidatesForNode slices node) ≠ 0 ->
        forall assignment : Assignment, assignment.NonemptyAll ->
          ¬Allocation selects deviceClasses (candidatesForNode slices node) excluded claims assignment) := by
  have explores := @allocateClaims_explores excluded (forall claim, claim ∈ claims -> Counted claim.requests) selects
    deviceClasses (candidatesForNode slices node) claims id ∅ maxAllocationBranches
  constructor
  · intro solution found
    rcases List.mem_map.mp (explores.sound solution found) with ⟨assignment, listed, rfl⟩
    by_cases thorough : branchesLeft selects deviceClasses excluded claims (candidatesForNode slices node) ≠ 0 ∨
        (forall claim, claim ∈ claims -> Counted claim.requests)
    · have head := explores.first (thorough.imp_right fun counted => ⟨counted, Option.isSome_iff_exists.mpr ⟨_, found⟩⟩)
      rw [List.head?_map] at head
      rcases Option.map_eq_some_iff.mp (head.symm.trans found) with ⟨first, isFirst, same⟩
      have meets := mem_allocations.mp (List.mem_of_mem_head? isFirst)
      exact ⟨first, same.symm, meets.1, meets.2, allocation_onNode slices node meets.1,
        fun _ => firstAvailable_of_head? selects deviceClasses isFirst⟩
    · have meets := mem_allocations.mp listed
      exact ⟨assignment, rfl, meets.1, meets.2, allocation_onNode slices node meets.1, fun careful => absurd careful thorough⟩
  · intro none_ left assignment nonempty allocation
    have head := explores.first (.inl left)
    rw [List.head?_map] at head
    have empty := List.head?_eq_none_iff.mp (Option.map_eq_none_iff.mp (head.symm.trans none_))
    exact List.not_mem_nil (empty ▸ mem_allocations.mpr ⟨allocation, nonempty⟩)

end

/-! A later request does not make an earlier one give way, and no devices at
all are not all of them. -/

private def goldClasses : SortedMap String DeviceClass :=
  SortedMap.ofList [("any", ⟨none, none⟩), ("gold", ⟨some [⟨some "gold"⟩], none⟩)]

private def isGold (_ : String) (c : Candidate) : Bool :=
  c.name = "gpu-0"

private def goldSlice : ResourceSlice where
  driver := "gpu"
  pool := "pool"
  nodeName := none
  allNodes := some true
  nodeSelector := none
  perDeviceNodeSelection := none
  devices := some [⟨"gpu-0", ⟨none, none, none, none, none⟩⟩, ⟨"gpu-1", ⟨none, none, none, none, none⟩⟩]

private def goldClaim : ClaimAllocationInput where
  requests :=
    [⟨"first", some ⟨some "any", none, none, none, none⟩, none⟩,
      ⟨"second", none, some [⟨"gold", some "gold", none, none, none⟩, ⟨"any", some "any", none, none, none⟩]⟩]
  constraints := []
  config := []

private def everyDevice : ClaimAllocationInput where
  requests := [⟨"every", some ⟨some "any", none, some "All", none, none⟩, none⟩]
  constraints := []
  config := []

private def gpu (name : String) : Candidate :=
  ⟨"gpu", "pool", name, ⟨none, none, none, none, none⟩⟩

private def goldSecond : Assignment :=
  [[⟨⟨"first", "any", [], false, 1, false⟩, [gpu "gpu-1"]⟩, ⟨⟨"second/gold", "gold", [], false, 1, false⟩, [gpu "gpu-0"]⟩]]

theorem goldClaim_second_any_everyDevice_refused :
    ((allocateClaimsOnNode isGold goldClasses (candidatesForNode [goldSlice] NodeInfo.default) ∅ [goldClaim]).map
        fun solution => solution.map fun results => results.map DeviceRequestAllocationResult.request) =
      some [["first", "second/any"]] ∧
    Allocation isGold goldClasses (candidatesForNode [goldSlice] NodeInfo.default) ∅ [goldClaim] goldSecond ∧
    (goldSecond.results.map fun results => results.map DeviceRequestAllocationResult.request) = [["first", "second/gold"]] ∧
    allocateClaimsOnNode isGold goldClasses (candidatesForNode [] NodeInfo.default) ∅ [everyDevice] = none ∧
    branchesLeft isGold goldClasses ∅ [everyDevice] (candidatesForNode [] NodeInfo.default) ≠ 0 ∧
    Allocation isGold goldClasses (candidatesForNode [] NodeInfo.default) ∅ [everyDevice]
      [[⟨⟨"every", "any", [], true, 0, false⟩, []⟩]] := by
  have matchesAny : EffectiveRequest.matching isGold goldClasses (candidatesForNode [goldSlice] NodeInfo.default)
      ⟨"first", "any", [], false, 1, false⟩ = some [gpu "gpu-0", gpu "gpu-1"] := by decide +kernel
  have matchesGold : EffectiveRequest.matching isGold goldClasses (candidatesForNode [goldSlice] NodeInfo.default)
      ⟨"second/gold", "gold", [], false, 1, false⟩ = some [gpu "gpu-0"] := by decide +kernel
  refine ⟨by decide +kernel, ⟨.cons (.cons ⟨⟨_, rfl, .head _⟩, _, matchesAny, ?_⟩
    (.cons ⟨⟨_, rfl, .head _⟩, _, matchesGold, ?_⟩ .nil)) .nil, .cons (nofun) .nil,
      by decide, fun _ _ => Finset.notMem_empty _⟩, by decide +kernel, by decide +kernel, by decide +kernel, ?_⟩
  · exact ⟨by decide, rfl⟩
  · exact ⟨by decide, rfl⟩
  · refine ⟨.cons (.cons ⟨⟨_, rfl, .head _⟩, [], ?_, rfl⟩ .nil) .nil,
      .cons (nofun) .nil, by decide, fun _ _ => Finset.notMem_empty _⟩
    decide +kernel

end NotK8s.Scheduler

import Mathlib.Logic.Function.Basic
import NotK8s.Controllers.Disruption
import NotK8s.Controllers.Workloads

namespace NotK8s.Controllers
namespace Evictions

open Library

/-!
# Evictions under a budget

An eviction reads the Pod, then the published numbers of the budgets, then
deletes the Pod.  Nothing is reserved in between, and the published number is
that of an earlier listing.  A budget is respected when fewer of its Pods were
lost since that listing than the listing allowed, and the listing was of a
full set.
-/

/-! ## Pods and budgets -/

structure LabelledPod extends Pod where
  labels : Option Labels
  deriving DecidableEq

deriving instance DecidableEq for IntOrString

structure Budget where
  inNamespace : String
  name : String
  selector : Option LabelSelector
  minAvailable : Option IntOrString
  maxUnavailable : Option IntOrString
  deriving DecidableEq

def healthy (pod : LabelledPod) : Bool :=
  !pod.terminating && pod.ready

def identifiedBy (inNamespace name : String) (pod : LabelledPod) : Bool :=
  pod.inNamespace == some inNamespace && pod.name == name

namespace Budget

variable (budget : Budget)

/-- The labels are covered, to the API server. -/
def selects (podLabels : Option Labels) : Bool :=
  budget.selector.any fun selector => pdbSelectsPod selector podLabels

def covers (pod : LabelledPod) : Bool :=
  pod.inNamespace == some budget.inNamespace && budget.selects pod.labels

/-- The Pod is counted by the controller. -/
def counts (pod : LabelledPod) : Bool :=
  pod.inNamespace == some budget.inNamespace &&
    pod.labels.any fun labels => budget.selector.any fun selector => labelSelectorMatches selector labels

def healthyCovered (pods : List LabelledPod) : Nat :=
  pods.countP fun pod => budget.covers pod && healthy pod

def healthyCounted (pods : List LabelledPod) : Nat :=
  pods.countP fun pod => budget.counts pod && healthy pod

/-- The number of healthy Pods wanted is the same for every total. -/
def isFixed : Bool :=
  match budget.minAvailable, budget.maxUnavailable with
  | some min, _ => !(intOrPercent 100 (some min)).1
  | none, some _ => false
  | none, none => true

/-- The healthy Pods wanted of a set of so many. -/
def desiredHealthy (expected : Nat) : Int :=
  wantedHealthy budget.minAvailable budget.maxUnavailable expected

end Budget

/-! ## The two components -/

/-- What a recalculation found.  The last field is how many healthy Pods of
the budget had been lost until then. -/
structure Listing where
  expected : Nat
  healthy : Nat
  part : healthy ≤ expected
  lostBefore : Nat

/-- A published number, with the listing it was computed from. -/
structure Status where
  disruptionsAllowed : Int
  listing : Listing

/-- An eviction that passed the budgets, with their numbers as it read them. -/
structure Clearance where
  inNamespace : String
  name : String
  labels : Option Labels
  shown : Budget -> Option Status

structure Eviction where
  apiVersion : Option String
  kind : Option String
  name : Option String
  inNamespace : Option String

inductive EvictOutcome where
  | evicted
  | notFound
  | unknownResource
  | invalid (message : String)
  | guarded (budget : String) (allowed : Int)
  | conflict

inductive Progress where
  | idle
  | found (inNamespace name : String) (labels : Option Labels)
  | cleared (clearance : Clearance)
  | answered (outcome : EvictOutcome)

structure Cluster where
  pods : List LabelledPod
  status : Budget -> Option Status
  /-- How many healthy Pods of a budget were lost so far. -/
  lost : Budget -> Nat
  evictions : Nat -> Progress
  recalculations : Nat -> Option (Budget × Listing)

/-- The Pods of a cluster change in any way: `change` stands for readiness,
removals, replacements and all other writes. -/
inductive Event where
  | evict (client : Nat) (inNamespace name : String) (eviction : Eviction)
  | check (client : Nat)
  | delete (client : Nat) (graceful : Option Int)
  | change (pods : List LabelledPod)
  | list (worker : Nat) (budget : Budget)
  | publish (worker : Nat) (patched : Bool)

def invalidEviction (eviction : Eviction) (inNamespace name : String) : Option String :=
  if eviction.apiVersion ≠ some "policy/v1" ∨ eviction.kind ≠ some "Eviction" then
    some "request body must be a policy/v1 Eviction"
  else if eviction.name ≠ some name ∨ eviction.inNamespace.any (· != inNamespace) then
    some "Eviction metadata must identify the Pod in the request URL"
  else none

def pdbDisruptionsAllowed (status : Option Status) : Int :=
  (status.map Status.disruptionsAllowed).getD 0

/-- The first budget that leaves no disruption. -/
def refusal (budgets : List Budget) (status : Budget -> Option Status) (inNamespace : String)
    (podLabels : Option Labels) : Option (String × Int) :=
  (budgets.filter fun budget => budget.inNamespace == inNamespace).findSome? fun budget =>
    if budget.selects podLabels = false then none
    else if pdbDisruptionsAllowed (status budget) ≤ 0 then some (budget.name, pdbDisruptionsAllowed (status budget))
    else none

/-- A Pod that is to be removed is marked, or goes at once. -/
def LabelledPod.deleted (graceful : Option Int) (pod : LabelledPod) : Option LabelledPod :=
  graceful.map fun now => { pod with deletionTimestamp := some (pod.deletionTimestamp.getD now) }

def deletePod (inNamespace name : String) (graceful : Option Int) : List LabelledPod -> List LabelledPod
  | [] => []
  | pod :: rest =>
    if identifiedBy inNamespace name pod then (pod.deleted graceful).toList ++ rest
    else pod :: deletePod inNamespace name graceful rest

/-- The counts and what is published from them. -/
def statusOf (budget : Budget) (listing : Listing) : Status where
  disruptionsAllowed :=
    (computeStatus (i32 listing.expected) (i32 listing.healthy) budget.minAvailable budget.maxUnavailable).2.1
  listing := listing

theorem statusOf_listing (budget : Budget) (listing : Listing) : (statusOf budget listing).listing = listing := rfl

namespace Cluster

variable (s : Cluster)

def answer (client : Nat) (outcome : EvictOutcome) : Cluster :=
  { s with evictions := Function.update s.evictions client (.answered outcome) }

def withPods (pods : List LabelledPod) : Cluster :=
  { s with
    pods := pods
    lost := fun budget => s.lost budget + (budget.healthyCounted s.pods - budget.healthyCounted pods) }

/-- Every Pod of the budget that exists now. -/
def listPods (budget : Budget) : Listing where
  expected := s.pods.countP budget.counts
  healthy := budget.healthyCounted s.pods
  part := by
    apply List.countP_mono_left
    intro pod _ counted
    exact (Bool.and_eq_true_iff.mp counted).1
  lostBefore := s.lost budget

end Cluster

def Progress.clearance : Progress -> Option Clearance
  | .cleared clearance => some clearance
  | _ => none

section
variable (budgets : List Budget) (replicas : Budget -> Nat)

def step (s : Cluster) : Event -> Cluster
  | .evict client inNamespace name eviction =>
    match invalidEviction eviction inNamespace name with
    | some message => s.answer client (.invalid message)
    | none =>
      match s.pods.find? (identifiedBy inNamespace name) with
      | none => s.answer client .notFound
      | some pod =>
        { s with evictions := Function.update s.evictions client (.found inNamespace name pod.labels) }
  | .check client =>
    match s.evictions client with
    | .found inNamespace name labels =>
      match refusal budgets s.status inNamespace labels with
      | some (budget, allowed) => s.answer client (.guarded budget allowed)
      | none =>
        { s with
          evictions := Function.update s.evictions client (.cleared ⟨inNamespace, name, labels, s.status⟩) }
    | _ => s
  | .delete client graceful =>
    match (s.evictions client).clearance with
    | none => s
    | some clearance =>
      if s.pods.any (identifiedBy clearance.inNamespace clearance.name) then
        (s.withPods (deletePod clearance.inNamespace clearance.name graceful s.pods)).answer client .evicted
      else s.answer client .notFound
  | .change pods => s.withPods pods
  | .list worker budget =>
    if budget.selector.isNone then s
    else { s with recalculations := Function.update s.recalculations worker (some (budget, s.listPods budget)) }
  | .publish worker patched =>
    match s.recalculations worker with
    | none => s
    | some (budget, listing) =>
      { s with
        status := if patched then Function.update s.status budget (some (statusOf budget listing)) else s.status
        recalculations := Function.update s.recalculations worker none }

/-- Nothing published, asked or listed. -/
def start (pods : List LabelledPod) : Cluster where
  pods := pods
  status := fun _ => none
  lost := fun _ => 0
  evictions := fun _ => .idle
  recalculations := fun _ => none

/-- An eviction that takes a healthy Pod of a budget leaves as many as are
wanted of the full set. -/
def Respects (s : Cluster) : Event -> Prop
  | .delete client graceful =>
    forall budget, budget ∈ budgets ->
      budget.healthyCovered (step budgets s (.delete client graceful)).pods < budget.healthyCovered s.pods ->
        budget.desiredHealthy (replicas budget) ≤
          budget.healthyCovered (step budgets s (.delete client graceful)).pods
  | _ => True

/-- The number was computed over a full set, without overflow, and fewer Pods
were lost since than it allows. -/
def Covered (s : Cluster) (budget : Budget) (status : Status) : Prop :=
  StatusFits budget.minAvailable budget.maxUnavailable status.listing.expected ∧
    (budget.isFixed = true ∨ replicas budget ≤ status.listing.expected) ∧
    (s.lost budget : Int) < status.listing.lostBefore + status.disruptionsAllowed

instance (s : Cluster) (budget : Budget) (status : Status) : Decidable (Covered replicas s budget status) :=
  inferInstanceAs (Decidable (_ ∧ _ ∧ _))

/-- Every budget of a healthy Pod that goes was checked, for the labels read,
against a number with losses left. -/
def Met (s : Cluster) : Event -> Prop
  | .delete client _ =>
    forall clearance, clearance ∈ (s.evictions client).clearance ->
      forall pod, pod ∈ s.pods.find? (identifiedBy clearance.inNamespace clearance.name) ->
        healthy pod = true -> forall budget, budget ∈ budgets -> budget.covers pod = true ->
          budget.selects clearance.labels = true ∧
            forall status, status ∈ clearance.shown budget -> Covered replicas s budget status
  | _ => True

instance (s : Cluster) (event : Event) : Decidable (Respects budgets replicas s event) :=
  match event with
  | .delete client graceful =>
    inferInstanceAs (Decidable (forall budget, budget ∈ budgets ->
      budget.healthyCovered (step budgets s (.delete client graceful)).pods < budget.healthyCovered s.pods ->
        budget.desiredHealthy (replicas budget) ≤
          budget.healthyCovered (step budgets s (.delete client graceful)).pods))
  | .evict _ _ _ _ => inferInstanceAs (Decidable True)
  | .check _ => inferInstanceAs (Decidable True)
  | .change _ => inferInstanceAs (Decidable True)
  | .list _ _ => inferInstanceAs (Decidable True)
  | .publish _ _ => inferInstanceAs (Decidable True)

instance (s : Cluster) (event : Event) : Decidable (Met budgets replicas s event) :=
  match event with
  | .delete client _ =>
    inferInstanceAs (Decidable (forall clearance, clearance ∈ (s.evictions client).clearance ->
      forall pod, pod ∈ s.pods.find? (identifiedBy clearance.inNamespace clearance.name) ->
        healthy pod = true -> forall budget, budget ∈ budgets -> budget.covers pod = true ->
          budget.selects clearance.labels = true ∧
            forall status, status ∈ clearance.shown budget -> Covered replicas s budget status))
  | .evict _ _ _ _ => inferInstanceAs (Decidable True)
  | .check _ => inferInstanceAs (Decidable True)
  | .change _ => inferInstanceAs (Decidable True)
  | .list _ _ => inferInstanceAs (Decidable True)
  | .publish _ _ => inferInstanceAs (Decidable True)

end

/-! ## One deletion -/

section
variable {inNamespace name : String} {graceful : Option Int} {pods : List LabelledPod} (keep : LabelledPod -> Bool)

theorem countP_deletePod : pods.countP keep ≤ (deletePod inNamespace name graceful pods).countP keep + 1 := by
  induction pods with
  | nil => exact Nat.zero_le _
  | cons pod rest ih =>
    have one : (if keep pod = true then 1 else 0) ≤ 1 := by split <;> omega
    rw [deletePod]
    split
    · rw [List.countP_append, List.countP_cons]
      omega
    · rw [List.countP_cons, List.countP_cons]
      omega

theorem countP_deletePod_of_not
    (apart : forall pod, pods.find? (identifiedBy inNamespace name) = some pod -> keep pod = false) :
    pods.countP keep ≤ (deletePod inNamespace name graceful pods).countP keep := by
  induction pods with
  | nil => exact Nat.zero_le _
  | cons pod rest ih =>
    rw [deletePod, List.countP_cons]
    rw [List.find?_cons] at apart
    cases identified : identifiedBy inNamespace name pod with
    | true =>
      rw [identified] at apart
      rw [apart pod rfl, if_neg Bool.false_ne_true, if_pos rfl, List.countP_append]
      exact Nat.le_add_left _ _
    | false =>
      rw [identified] at apart
      rw [if_neg Bool.false_ne_true, List.countP_cons]
      exact Nat.add_le_add_right (ih apart) _

end

theorem found_of_lost {budget : Budget} {inNamespace name : String} {graceful : Option Int} {pods : List LabelledPod}
    (lost : budget.healthyCovered (deletePod inNamespace name graceful pods) < budget.healthyCovered pods) :
    Exists fun pod => pods.find? (identifiedBy inNamespace name) = some pod ∧ budget.covers pod = true ∧
      healthy pod = true := by
  by_contra nothing
  have least : budget.healthyCovered pods ≤ budget.healthyCovered (deletePod inNamespace name graceful pods) := by
    apply countP_deletePod_of_not
    intro pod isFound
    refine Bool.eq_false_iff.mpr ?_
    intro both
    exact nothing ⟨pod, isFound, Bool.and_eq_true_iff.mp both⟩
  exact absurd lost (Nat.not_lt.mpr least)

theorem namespace_of_found {budget : Budget} {inNamespace name : String} {pods : List LabelledPod} {pod : LabelledPod}
    (isFound : pods.find? (identifiedBy inNamespace name) = some pod) (isCovered : budget.covers pod = true) :
    budget.inNamespace = inNamespace := by
  have identified : identifiedBy inNamespace name pod = true := List.find?_some isFound
  have there := (Bool.and_eq_true_iff.mp identified).1
  have here := (Bool.and_eq_true_iff.mp isCovered).1
  exact Option.some.inj ((beq_iff_eq.mp here).symm.trans (beq_iff_eq.mp there))

theorem Progress.eq_cleared {progress : Progress} {clearance : Clearance}
    (isClearance : progress.clearance = some clearance) : progress = .cleared clearance := by
  unfold Progress.clearance at isClearance
  split at isClearance
  · cases isClearance
    rfl
  · cases isClearance

theorem counts_covers {budget : Budget} {pod : LabelledPod} (counted : budget.counts pod = true) :
    budget.covers pod = true := by
  unfold Budget.covers Budget.selects
  rcases Bool.and_eq_true_iff.mp counted with ⟨here, labelled⟩
  rcases (Option.any_eq_true _ _).mp labelled with ⟨labels, isLabels, matched⟩
  rcases (Option.any_eq_true _ _).mp matched with ⟨selector, isSelector, isMatch⟩
  rw [here, isLabels, isSelector, Bool.true_and, Option.any_some, pdbSelectsPod_labelled, isMatch, Bool.or_true]

theorem healthyCounted_le (budget : Budget) (pods : List LabelledPod) :
    budget.healthyCounted pods ≤ budget.healthyCovered pods := by
  apply List.countP_mono_left
  intro pod _ counted
  rcases Bool.and_eq_true_iff.mp counted with ⟨isCounted, isHealthy⟩
  exact Bool.and_eq_true_iff.mpr ⟨counts_covers isCounted, isHealthy⟩

/-! ## What the two components keep -/

/-- Every healthy Pod that was listed is there or lost since. -/
def Tracked (s : Cluster) (budget : Budget) (listing : Listing) : Prop :=
  listing.healthy + listing.lostBefore ≤ budget.healthyCounted s.pods + s.lost budget

/-- A number that was published comes from a listing. -/
def Published (s : Cluster) (status : Budget -> Option Status) : Prop :=
  forall budget shown, status budget = some shown ->
    shown = statusOf budget shown.listing ∧ Tracked s budget shown.listing

/-- An eviction that may go on was shown a positive number for every budget. -/
def Checked (budgets : List Budget) (clearance : Clearance) : Prop :=
  forall budget, budget ∈ budgets -> budget.inNamespace = clearance.inNamespace ->
    budget.selects clearance.labels = true ->
      Exists fun shown => clearance.shown budget = some shown ∧ 0 < shown.disruptionsAllowed

structure Kept (budgets : List Budget) (s : Cluster) : Prop where
  published : Published s s.status
  shown : forall client clearance, s.evictions client = .cleared clearance ->
    Published s clearance.shown ∧ Checked budgets clearance
  listed : forall worker budget listing, s.recalculations worker = some (budget, listing) -> Tracked s budget listing

section
variable {budgets : List Budget} {s : Cluster}

theorem kept_start (pods : List LabelledPod) : Kept budgets (start pods) where
  published := nofun
  shown := nofun
  listed := nofun

theorem Tracked.withPods {budget : Budget} {listing : Listing} (tracked : Tracked s budget listing)
    (pods : List LabelledPod) : Tracked (s.withPods pods) budget listing := by
  unfold Tracked Cluster.withPods at *
  dsimp only
  omega

theorem Published.withPods {status : Budget -> Option Status} (published : Published s status)
    (pods : List LabelledPod) : Published (s.withPods pods) status := by
  intro budget shown stored
  rcases published budget shown stored with ⟨computed, tracked⟩
  exact ⟨computed, tracked.withPods pods⟩

theorem Kept.withPods (kept : Kept budgets s) (pods : List LabelledPod) : Kept budgets (s.withPods pods) where
  published := kept.published.withPods pods
  shown := by
    intro client clearance cleared
    rcases kept.shown client clearance cleared with ⟨published, checked⟩
    exact ⟨published.withPods pods, checked⟩
  listed := fun worker budget listing listed => (kept.listed worker budget listing listed).withPods pods

theorem Kept.proceeds (kept : Kept budgets s) (client : Nat) (progress : Progress)
    (allowed : forall clearance, progress = .cleared clearance -> Published s clearance.shown ∧ Checked budgets clearance) :
    Kept budgets { s with evictions := Function.update s.evictions client progress } where
  published := kept.published
  shown := by
    intro other clearance cleared
    dsimp only at cleared
    rcases eq_or_ne other client with same | different
    · rw [same, Function.update_self] at cleared
      exact allowed clearance cleared
    · rw [Function.update_of_ne different] at cleared
      exact kept.shown other clearance cleared
  listed := kept.listed

theorem Kept.answer (kept : Kept budgets s) (client : Nat) (outcome : EvictOutcome) :
    Kept budgets (s.answer client outcome) :=
  kept.proceeds client (.answered outcome) nofun

theorem checked_of_refusal {inNamespace name : String} {labels : Option Labels}
    (passes : refusal budgets s.status inNamespace labels = none) :
    Checked budgets ⟨inNamespace, name, labels, s.status⟩ := by
  intro budget member same selects
  have passed := List.findSome?_eq_none_iff.mp passes budget (List.mem_filter.mpr ⟨member, beq_iff_eq.mpr same⟩)
  dsimp only at selects ⊢
  rw [if_neg (by rw [selects]; exact Bool.noConfusion)] at passed
  split at passed
  · cases passed
  · next positive =>
      cases stored : s.status budget with
      | none =>
        rw [stored] at positive
        exact absurd (le_refl (0 : Int)) positive
      | some shown =>
        rw [stored] at positive
        exact ⟨shown, rfl, not_le.mp positive⟩

theorem tracked_listPods (budget : Budget) : Tracked s budget (s.listPods budget) :=
  le_refl _

theorem kept_step (kept : Kept budgets s) (event : Event) : Kept budgets (step budgets s event) := by
  cases event with
  | evict client inNamespace name eviction =>
    rw [step]
    split
    · exact kept.answer client _
    · split
      · exact kept.answer client _
      · exact kept.proceeds client _ nofun
  | check client =>
    rw [step]
    split
    · split
      · exact kept.answer client _
      · next passes =>
          apply kept.proceeds client
          intro clearance cleared
          cases cleared
          exact ⟨kept.published, checked_of_refusal passes⟩
    · exact kept
  | delete client graceful =>
    rw [step]
    split
    · exact kept
    · split
      · exact (kept.withPods _).answer client _
      · exact kept.answer client _
  | change pods => exact kept.withPods pods
  | list worker budget =>
    rw [step]
    split
    · exact kept
    · refine ⟨kept.published, kept.shown, ?_⟩
      intro other of listing listed
      dsimp only at listed
      rcases eq_or_ne other worker with same | different
      · rw [same, Function.update_self] at listed
        cases listed
        exact tracked_listPods budget
      · rw [Function.update_of_ne different] at listed
        exact kept.listed other of listing listed
  | publish worker patched =>
    rw [step]
    split
    · exact kept
    · next budget listing pending =>
        refine ⟨?_, kept.shown, ?_⟩
        · intro of shown stored
          cases patched with
          | false => exact kept.published of shown stored
          | true =>
            dsimp only at stored
            rw [if_pos rfl] at stored
            rcases eq_or_ne of budget with same | different
            · rw [same, Function.update_self] at stored
              rw [same, <- Option.some.inj stored, statusOf_listing]
              exact ⟨rfl, kept.listed worker budget listing pending⟩
            · rw [Function.update_of_ne different] at stored
              exact kept.published of shown stored
        · intro other of listing' listed
          dsimp only at listed
          rcases eq_or_ne other worker with same | different
          · rw [same, Function.update_self] at listed
            cases listed
          · rw [Function.update_of_ne different] at listed
            exact kept.listed other of listing' listed

/-! ## Respect -/

theorem desiredHealthy_fixed {budget : Budget} (isFixed : budget.isFixed = true) (n m : Nat) :
    budget.desiredHealthy n = budget.desiredHealthy m := by
  unfold Budget.isFixed at isFixed
  unfold Budget.desiredHealthy wantedHealthy
  cases isMin : budget.minAvailable with
  | some min =>
    rw [isMin] at isFixed
    dsimp only at isFixed ⊢
    unfold budgetOf
    rcases parsed : intOrPercent 100 (some min) with ⟨isPercent, num⟩
    rw [parsed] at isFixed
    cases isPercent with
    | true => cases isFixed
    | false => rfl
  | none =>
    cases isMax : budget.maxUnavailable with
    | some most =>
      rw [isMin, isMax] at isFixed
      cases isFixed
    | none => rfl

theorem statusOf_allowed {budget : Budget} {listing : Listing}
    (fits : StatusFits budget.minAvailable budget.maxUnavailable listing.expected) :
    (statusOf budget listing).disruptionsAllowed =
      max ((listing.healthy : Int) - budget.desiredHealthy listing.expected) 0 := by
  have part := listing.part
  rcases fits.1 with ⟨lower, upper⟩
  have fitsHealthy : Fits 32 (listing.healthy : Int) := by constructor <;> omega
  unfold statusOf Budget.desiredHealthy
  dsimp only [i32]
  rw [wrapped_of_fits fits.1, wrapped_of_fits fitsHealthy, computeStatus_eq fits (by omega) (by omega)]

/-- With losses left the count is above what is wanted of the full set. -/
theorem desiredHealthy_lt {replicas : Budget -> Nat} {budget : Budget} {shown : Status}
    (computed : shown = statusOf budget shown.listing) (tracked : Tracked s budget shown.listing)
    (positive : 0 < shown.disruptionsAllowed) (covered : Covered replicas s budget shown) :
    budget.desiredHealthy (replicas budget) < budget.healthyCounted s.pods := by
  rcases covered with ⟨fits, full, left⟩
  have allowed := statusOf_allowed fits
  rw [← computed] at allowed
  unfold Tracked at tracked
  have enough : budget.desiredHealthy shown.listing.expected < budget.healthyCounted s.pods := by omega
  rcases full with isFixed | full
  · rw [desiredHealthy_fixed isFixed _ shown.listing.expected]
    exact enough
  · have more : budget.desiredHealthy (replicas budget) ≤ budget.desiredHealthy shown.listing.expected :=
      wantedHealthy_mono (by omega) (by exact_mod_cast full)
    exact lt_of_le_of_lt more enough

theorem respects_of_met {replicas : Budget -> Nat} (kept : Kept budgets s) (event : Event)
    (met : Met budgets replicas s event) : Respects budgets replicas s event := by
  cases event with
  | evict client inNamespace name eviction | check client | change pods | list worker budget => exact True.intro
  | publish worker patched => exact True.intro
  | delete client graceful =>
    intro budget member takes
    rw [step] at takes ⊢
    cases isClearance : (s.evictions client).clearance with
    | none =>
      rw [isClearance] at takes
      exact absurd takes (lt_irrefl _)
    | some clearance =>
      rw [isClearance] at takes
      dsimp only at takes ⊢
      split at takes
      · next exists_ =>
          rw [if_pos exists_]
          change _ ≤ (budget.healthyCovered (deletePod _ _ graceful s.pods) : Int)
          rcases found_of_lost takes with ⟨pod, isFound, isCovered, isHealthy⟩
          rcases met clearance isClearance pod isFound isHealthy budget member isCovered with ⟨selects, covered⟩
          rcases kept.shown client clearance (Progress.eq_cleared isClearance) with ⟨published, checked⟩
          rcases checked budget member (namespace_of_found isFound isCovered) selects with ⟨shown, isShown, positive⟩
          rcases published budget shown isShown with ⟨computed, tracked⟩
          have enough := desiredHealthy_lt computed tracked positive (covered shown isShown)
          have counted := healthyCounted_le budget s.pods
          have most : budget.healthyCovered s.pods ≤
              budget.healthyCovered (deletePod clearance.inNamespace clearance.name graceful s.pods) + 1 :=
            countP_deletePod _
          omega
      · exact absurd takes (lt_irrefl _)

end

def replica (name : String) : LabelledPod where
  inNamespace := some "shop"
  name := name
  deletionTimestamp := none
  ownerReferences := []
  podTemplateHash := none
  phase := some "Running"
  conditions := [⟨"Ready", "True"⟩]
  labels := some (SortedMap.ofList [("app", "db")])

def oneAway : Budget where
  inNamespace := "shop"
  name := "db"
  selector := some ⟨some [("app", "db")], none⟩
  minAvailable := none
  maxUnavailable := some (.int 1)

def evictionOf (name : String) : Eviction where
  apiVersion := some "policy/v1"
  kind := some "Eviction"
  name := some name
  inNamespace := some "shop"

def threeReplicas : List LabelledPod :=
  [replica "db-0", replica "db-1", replica "db-2"]

def evicting (client : Nat) (name : String) : List Event :=
  [.evict client "shop" name (evictionOf name), .check client]

def recalculated : List Event :=
  [.list 0 oneAway, .publish 0 true]

end Evictions
end NotK8s.Controllers

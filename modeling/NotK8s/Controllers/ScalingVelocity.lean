import Mathlib.Data.List.Infix
import Mathlib.Tactic.Linarith
import NotK8s.Controllers.Autoscaler

namespace NotK8s.Controllers
namespace Autoscaler

open Library

/-!
# The velocity of scaling

A scaling policy allows so much change from the replica count at the start of
its period.  The controller reconstructs that count by taking the net change
of the events it kept from the current one.  Ups and downs cancel there, and
events are forgotten when somebody else sets the count or after half an hour,
so what a policy allows is kept to under a condition on the operations of the
period.
-/

/-! ## Policies -/

namespace HPAScalingPolicy

/-- What the policy allows to be added to a count, or taken from it. -/
def allows (policy : HPAScalingPolicy) (base : Int) : Int :=
  if policy.type = "Pods" then policy.value else (base * policy.value + 99) / 100

def Usable (policy : HPAScalingPolicy) : Prop :=
  (policy.type = "Pods" ∨ policy.type = "Percent") ∧ 0 < policy.value ∧ 0 < policy.periodSeconds

instance (policy : HPAScalingPolicy) : Decidable policy.Usable :=
  inferInstanceAs (Decidable (_ ∧ _))

def period (policy : HPAScalingPolicy) : Nat :=
  fromSecs policy.periodSeconds.toNat

end HPAScalingPolicy

/-- The net change that events made. -/
def drift (events : List ScaleEvent) : Int :=
  (events.map fun event => event.new - event.old).sum

/-- The events of the period before an instant. -/
def within (now period : Nat) (events : List ScaleEvent) : List ScaleEvent :=
  events.filter fun event => now - event.time < period

/-- Counts of replicas, as the API server admits them. -/
def IsCount (n : Int) : Prop :=
  0 ≤ n ∧ n < 2 ^ 31

/-- The count a policy lets replicas move to. -/
def limitFrom (scaleUp : Bool) (policy : HPAScalingPolicy) (base : Int) : Int :=
  if scaleUp then min (base + policy.allows base) (2 ^ 31 - 1) else max (base - policy.allows base) 0

section
variable {current : Int} {scaleUp : Bool} {now : Nat} {events : List ScaleEvent} {policy : HPAScalingPolicy}

/-- The running sum of counts' differences is exact as long as the whole is. -/
theorem wrappedSum_eq {numbers : List Int} (fits : Fits 32 numbers.sum) : wrappedSum 32 numbers = numbers.sum := by
  have own : Fits 32 (wrappedSum 32 numbers) := by
    unfold wrappedSum
    induction numbers using List.reverseRecOn with
    | nil => decide
    | append_singleton numbers last _ =>
      rw [List.foldl_append, List.foldl_cons, List.foldl_nil]
      exact fits_wrapped (by decide)
  rw [← wrapped_of_fits own, wrapped_wrappedSum, wrapped_of_fits fits]

theorem policyLimit_eq (range : IsCount current) (start : IsCount (current - drift (within now policy.period events)))
    (each : forall event, event ∈ events -> IsCount event.old ∧ IsCount event.new) :
    policyLimit current scaleUp now events policy =
      if policy.Usable then some (limitFrom scaleUp policy (current - drift (within now policy.period events))) else none := by
  have differences : (within now policy.period events).map (fun event => wrapped 32 (event.new - event.old)) =
      (within now policy.period events).map fun event => event.new - event.old := by
    refine List.map_congr_left fun event listed => wrapped_of_fits ?_
    have ⟨old, new⟩ := each event (List.mem_filter.mp listed).1
    unfold IsCount at old new
    unfold Fits
    omega
  have net : wrappedSum 32 ((within now policy.period events).map fun event => wrapped 32 (event.new - event.old)) =
      drift (within now policy.period events) := by
    rw [differences]
    refine wrappedSum_eq ?_
    unfold IsCount at range start
    unfold Fits
    unfold drift at start
    omega
  unfold policyLimit
  by_cases idle : policy.periodSeconds ≤ 0 ∨ policy.value ≤ 0
  · rw [if_pos idle, if_neg]
    rintro ⟨_, value, period⟩
    omega
  · rw [if_neg idle]
    unfold within HPAScalingPolicy.period at *
    dsimp only
    rw [net]
    generalize drift (events.filter fun event => now - event.time < fromSecs policy.periodSeconds.toNat) = moved at start ⊢
    unfold IsCount at start
    have base : max (saturating32 (current - moved)) 0 = current - moved := by
      unfold saturating32
      omega
    rw [base]
    generalize current - moved = base at start ⊢
    rcases policy with ⟨named, value, seconds⟩
    dsimp only at idle ⊢
    by_cases pods : named = "Pods"
    · subst pods
      rw [if_pos ⟨.inl rfl, by dsimp only; omega, by dsimp only; omega⟩]
      unfold limitFrom HPAScalingPolicy.allows saturating32
      cases scaleUp with
      | true =>
        simp only [if_true, Option.some.injEq]
        omega
      | false =>
        simp only [if_true, Bool.false_eq_true, if_false, Option.some.injEq]
        omega
    · by_cases percent : named = "Percent"
      · subst percent
        have scaled : base * (100 + value) = 100 * base + base * value := by ring
        have shrunk : base * (100 - value) = 100 * base - base * value := by ring
        have more : 0 ≤ base * value := mul_nonneg start.1 (by omega)
        rw [if_pos ⟨.inr rfl, by dsimp only; omega, by dsimp only; omega⟩]
        unfold limitFrom HPAScalingPolicy.allows
        rw [if_neg pods]
        dsimp only
        rw [scaled, shrunk]
        generalize base * value = amount at *
        cases scaleUp with
        | true =>
          rw [Int.tdiv_eq_ediv_of_nonneg (by omega)]
          simp only [if_true, Option.some.injEq]
          omega
        | false =>
          simp only [Bool.false_eq_true, if_false, Option.some.injEq]
          rcases le_total 0 (100 * base - amount) with above | below
          · rw [Int.tdiv_eq_ediv_of_nonneg above]
            omega
          · have opposite := Int.neg_tdiv (100 * base - amount) 100
            rw [Int.tdiv_eq_ediv_of_nonneg (by omega)] at opposite
            omega
      · rw [if_neg]
        · cases scaleUp <;> simp [pods, percent]
        · rintro ⟨known, _⟩
          exact Or.elim known pods percent

end

/-! ## Passes -/

/-- A pass as the scaling policies see it: the count it found, the one it
wants, the rules, the time, and whether the count could be written. -/
structure Scaling where
  key : String
  current : Int
  desired : Int
  scaleUp : Option HPAScalingRules
  scaleDown : Option HPAScalingRules
  now : Nat
  patched : Bool

namespace Scaling

def raises (s : Scaling) : Bool :=
  decide (s.current < s.desired)

def rules (s : Scaling) : Option HPAScalingRules :=
  if s.raises then s.scaleUp else s.scaleDown

def selectPolicy (s : Scaling) : Option String :=
  s.rules.bind HPAScalingRules.selectPolicy

/-- The policies of the pass that can set a limit. -/
def usable (s : Scaling) : List HPAScalingPolicy :=
  (policiesOf s.raises s.rules).filter fun policy => decide policy.Usable

/-- The count after the pass, and the events it leaves. -/
def outcome (s : Scaling) (history : SortedMap String (List ScaleEvent)) : Int × SortedMap String (List ScaleEvent) :=
  let ((desired, _), history) := applyRatePolicy s.current s.desired s.raises s.rules s.now history s.key
  (desired,
    if desired ≠ s.current ∧ s.patched = true then
      history.insert s.key ((history.get s.key).getD [] ++ [⟨s.now, s.current, desired⟩])
    else history)

end Scaling

/-! ## Runs -/

/-- The controller, and of one HPA its own scale operations, all changes of
the count, and when somebody else made one. -/
structure Course where
  history : SortedMap String (List ScaleEvent)
  operations : List ScaleEvent
  changes : List (Nat × Int)
  outside : List Nat
  clock : Nat

inductive Move where
  | pass (s : Scaling)
  | scaled (time : Nat) (count : Int)

namespace Course

def start : Course :=
  ⟨.empty, [], [], [], 0⟩

variable (key : String) (initial : Int)

def count (c : Course) : Int :=
  (c.changes.getLast?.map Prod.snd).getD initial

/-- The count when a period began that ends at an instant. -/
def countBefore (c : Course) (now period : Nat) : Int :=
  ((c.changes.filter fun change => period ≤ now - change.1).getLast?.map Prod.snd).getD initial

def events (c : Course) : List ScaleEvent :=
  (c.history.get key).getD []

def step (c : Course) : Move -> Course
  | .pass s =>
    let (result, history) := s.outcome c.history
    if s.key = key ∧ result ≠ s.current ∧ s.patched = true then
      { history := history
        operations := c.operations ++ [⟨s.now, s.current, result⟩]
        changes := c.changes ++ [(s.now, result)]
        outside := c.outside
        clock := s.now }
    else { c with history := history, clock := s.now }
  | .scaled time count => { c with changes := c.changes ++ [(time, count)], outside := c.outside ++ [time], clock := time }

/-- Time does not run backwards, and a pass of the HPA finds the count that
was set last. -/
def Possible (c : Course) : Move -> Prop
  | .pass s => c.clock ≤ s.now ∧ (s.key = key -> s.current = c.count initial ∧ IsCount s.desired)
  | .scaled time count => c.clock ≤ time ∧ IsCount count

end Course

/-! ## What the policies promise -/

/-- A change in the direction of the pass counts as positive. -/
def toward (scaleUp : Bool) (n : Int) : Int :=
  if scaleUp then n else -n

/-- What operations added, or what they removed. -/
def gained (scaleUp : Bool) (events : List ScaleEvent) : Int :=
  (events.map fun event => max (toward scaleUp (event.new - event.old)) 0).sum

namespace Course

variable (key : String) (initial : Int)

/-- The events that a pass starts from. -/
def kept (c : Course) (s : Scaling) : List ScaleEvent :=
  currentEvents s.current s.now (c.events key)

/-- The policy sets the limit of the pass. -/
def Selected (c : Course) (s : Scaling) (policy : HPAScalingPolicy) : Prop :=
  policy ∈ s.usable ∧ policyLimit s.current s.raises s.now (c.kept key s) policy =
    selectedLimit s.current s.raises s.rules s.now (c.events key)

/-- The pass stays between the two counts, and its operation included the own
ones of the period add, or remove, no more than the selected policy allows
from the count at the start. -/
def Bounded (c : Course) : Move -> Prop
  | .pass s => s.key = key ->
      let result := (s.outcome c.history).1
      (min s.current s.desired ≤ result ∧ result ≤ max s.current s.desired) ∧
      (s.patched = true -> result ≠ s.current -> forall policy, c.Selected key s policy ->
        gained s.raises (within s.now policy.period c.operations) + toward s.raises (result - s.current) ≤
          policy.allows (c.countBefore initial s.now policy.period))
  | .scaled _ _ => True

/-- What the policy has left, reckoned from the kept events. -/
def room (c : Course) (s : Scaling) (policy : HPAScalingPolicy) : Int :=
  let net := drift (within s.now policy.period (c.kept key s))
  policy.allows (s.current - net) - toward s.raises net

/-- The policies are not overdrawn: where the greatest room counts some policy
has room left, where the least does all have.  And for the selected policy, the
wish of the pass or else the room fits into what the policy allows from the
start of its period, less the gains of that period. -/
def WithinRates (c : Course) : Move -> Prop
  | .pass s => s.key = key -> s.desired ≠ s.current -> s.selectPolicy ≠ some "Disabled" -> s.usable ≠ [] ->
      (if s.raises = decide (s.selectPolicy = some "Min") then forall policy, policy ∈ s.usable -> 0 ≤ c.room key s policy
        else Exists fun policy => policy ∈ s.usable ∧ 0 ≤ c.room key s policy) ∧
      (s.patched = true -> forall policy, c.Selected key s policy -> c.room key s policy ≠ 0 ->
        let left := policy.allows (c.countBefore initial s.now policy.period) -
          gained s.raises (within s.now policy.period c.operations)
        toward s.raises (s.desired - s.current) ≤ left ∨ c.room key s policy ≤ left)
  | .scaled _ _ => True

end Course

/-! ## One pass -/

theorem filterMap_usable {limit : HPAScalingPolicy -> Int} {policies : List HPAScalingPolicy} :
    (policies.filterMap fun policy => if policy.Usable then some (limit policy) else none) =
      (policies.filter fun policy => decide policy.Usable).map limit := by
  induction policies with
  | nil => rfl
  | cons policy rest ih =>
    rw [List.filterMap_cons, List.filter_cons]
    by_cases usable : policy.Usable
    · rw [if_pos usable, if_pos (decide_eq_true usable), List.map_cons, ih]
    · rw [if_neg usable, if_neg (by simpa using usable)]
      exact ih

namespace Course

section
variable {key : String} {initial : Int} {c : Course} {s : Scaling} {policy : HPAScalingPolicy}

/-- What a pass relies on: counts are in range, also those reconstructed from
the kept events. -/
structure Reckons (key : String) (c : Course) (s : Scaling) : Prop where
  current : IsCount s.current
  desired : IsCount s.desired
  base : forall period, IsCount (s.current - drift (within s.now period (c.kept key s)))
  each : forall event, event ∈ c.kept key s -> IsCount event.old ∧ IsCount event.new

/-- As far as a count can go in the direction of the pass. -/
def reach (s : Scaling) : Int :=
  toward s.raises ((if s.raises then 2 ^ 31 - 1 else 0) - s.current)

theorem wish_pos (moves : s.desired ≠ s.current) : 0 < toward s.raises (s.desired - s.current) := by
  unfold toward Scaling.raises
  by_cases raises : s.current < s.desired
  · rw [decide_eq_true raises, if_pos rfl]
    omega
  · rw [decide_eq_false raises, if_neg Bool.false_ne_true]
    omega

theorem wish_le_reach (reckons : Reckons key c s) : toward s.raises (s.desired - s.current) ≤ reach s := by
  have range := reckons.desired
  unfold IsCount at range
  unfold reach toward
  cases s.raises with
  | true =>
    simp only [if_true]
    omega
  | false =>
    simp only [Bool.false_eq_true, if_false]
    omega

/-- The limit that a policy sets. -/
def limitOf (key : String) (c : Course) (s : Scaling) (policy : HPAScalingPolicy) : Int :=
  limitFrom s.raises policy (s.current - drift (within s.now policy.period (c.kept key s)))

theorem policyLimit_usable (reckons : Reckons key c s) (usable : policy ∈ s.usable) :
    policyLimit s.current s.raises s.now (c.kept key s) policy = some (limitOf key c s policy) := by
  rw [policyLimit_eq reckons.current (reckons.base _) reckons.each,
    if_pos (of_decide_eq_true (List.mem_filter.mp usable).2)]
  rfl

theorem toward_limitOf : toward s.raises (limitOf key c s policy - s.current) = min (c.room key s policy) (reach s) := by
  unfold limitOf limitFrom room reach toward
  cases s.raises with
  | true =>
    simp only [if_true]
    omega
  | false =>
    simp only [Bool.false_eq_true, if_false]
    omega

theorem selectedLimit_eq (reckons : Reckons key c s) : selectedLimit s.current s.raises s.rules s.now (c.events key) =
    if s.selectPolicy = some "Min" then (s.usable.map (limitOf key c s)).min?
    else (s.usable.map (limitOf key c s)).max? := by
  have limits : (policiesOf s.raises s.rules).filterMap (policyLimit s.current s.raises s.now (c.kept key s)) =
      s.usable.map (limitOf key c s) := by
    refine Eq.trans ?_ filterMap_usable
    congr 1
    funext policy
    exact policyLimit_eq reckons.current (reckons.base _) reckons.each
  unfold selectedLimit
  unfold kept at limits
  rw [limits]
  rfl

/-- The selected limit is that of the policy with the most room, or of one with
the least. -/
theorem exists_selected (reckons : Reckons key c s) (some_ : s.usable ≠ []) : Exists fun policy => policy ∈ s.usable ∧
    selectedLimit s.current s.raises s.rules s.now (c.events key) = some (limitOf key c s policy) ∧
    forall other, other ∈ s.usable ->
      if s.raises = decide (s.selectPolicy = some "Min") then
        min (c.room key s policy) (reach s) ≤ min (c.room key s other) (reach s)
      else min (c.room key s other) (reach s) ≤ min (c.room key s policy) (reach s) := by
  have limits : s.usable.map (limitOf key c s) ≠ [] := by
    intro none
    exact some_ (List.map_eq_nil_iff.mp none)
  rw [selectedLimit_eq reckons]
  simp only [← toward_limitOf]
  by_cases least : s.selectPolicy = some "Min"
  · rw [if_pos least]
    cases found : (s.usable.map (limitOf key c s)).min? with
    | none => exact absurd (List.min?_eq_none_iff.mp found) limits
    | some limit =>
      have ⟨listed, bound⟩ := List.min?_eq_some_iff.mp found
      have ⟨policy, usable, same⟩ := List.mem_map.mp listed
      refine ⟨policy, usable, congrArg some same.symm, fun other also => ?_⟩
      have most := bound _ (List.mem_map_of_mem also)
      rw [decide_eq_true least, same]
      unfold toward
      cases s.raises with
      | true =>
        simp only [if_true]
        omega
      | false =>
        simp only [Bool.false_eq_true, if_false]
        omega
  · rw [if_neg least]
    cases found : (s.usable.map (limitOf key c s)).max? with
    | none => exact absurd (List.max?_eq_none_iff.mp found) limits
    | some limit =>
      have ⟨listed, bound⟩ := List.max?_eq_some_iff.mp found
      have ⟨policy, usable, same⟩ := List.mem_map.mp listed
      refine ⟨policy, usable, congrArg some same.symm, fun other also => ?_⟩
      have most := bound _ (List.mem_map_of_mem also)
      rw [decide_eq_false least, same]
      unfold toward
      cases s.raises with
      | true =>
        simp only [Bool.true_eq_false, if_true, if_false]
        omega
      | false =>
        simp only [Bool.false_eq_true, if_true, if_false]
        omega

theorem outcome_still (still : s.desired = s.current ∨ s.selectPolicy = some "Disabled" ∨ s.usable = [])
    (reckons : Reckons s.key c s) : (s.outcome c.history).1 = s.current := by
  unfold Scaling.outcome applyRatePolicy
  by_cases same : s.desired = s.current
  · rw [if_pos same]
    exact same
  · rw [if_neg same]
    by_cases disabled : (s.rules.bind HPAScalingRules.selectPolicy) = some "Disabled"
    · rw [if_pos disabled]
    · rw [if_neg disabled]
      have none : selectedLimit s.current s.raises s.rules s.now ((c.history.get s.key).getD []) = none := by
        have idle := (still.resolve_left same).resolve_left disabled
        have limits := selectedLimit_eq reckons
        rw [idle] at limits
        rw [show (c.history.get s.key).getD [] = c.events s.key from rfl, limits]
        split_ifs <;> rfl
      dsimp only
      rw [none]

theorem outcome_moves {limit : Int} (moves : s.desired ≠ s.current) (enabled : s.selectPolicy ≠ some "Disabled")
    (found : selectedLimit s.current s.raises s.rules s.now (c.events s.key) = some limit) :
    (s.outcome c.history).1 = if s.raises then min s.desired limit else max s.desired limit := by
  unfold Scaling.outcome applyRatePolicy
  unfold Scaling.selectPolicy at enabled
  unfold events at found
  rw [if_neg moves, if_neg enabled]
  dsimp only
  rw [found]

theorem bounded_iff (reckons : Reckons key c s) : c.Bounded key initial (.pass s) <-> c.WithinRates key initial (.pass s) := by
  refine forall_congr' fun same => ?_
  subst same
  by_cases still : s.desired = s.current ∨ s.selectPolicy = some "Disabled" ∨ s.usable = []
  · have result := outcome_still still reckons
    refine iff_of_true ⟨?_, fun _ moved => absurd result moved⟩ fun moves enabled some_ =>
      absurd still (by simp [moves, enabled, some_])
    rw [result]
    exact ⟨min_le_left _ _, le_max_left _ _⟩
  · rw [not_or, not_or] at still
    rcases still with ⟨moves, enabled, some_⟩
    rw [imp_iff_right moves, imp_iff_right enabled, imp_iff_right some_]
    have ⟨policy, usable, found, extreme⟩ := exists_selected reckons some_
    have result := outcome_moves moves enabled found
    have wish := wish_pos moves
    have most := wish_le_reach reckons
    have gain : toward s.raises ((s.outcome c.history).1 - s.current) =
        min (toward s.raises (s.desired - s.current)) (c.room s.key s policy) := by
      have limit := @toward_limitOf s.key c s policy
      rw [result]
      unfold toward at limit most ⊢
      cases direction : s.raises with
      | true =>
        simp only [direction, if_true] at limit most ⊢
        omega
      | false =>
        simp only [direction, Bool.false_eq_true, if_false] at limit most ⊢
        omega
    have moved : (s.outcome c.history).1 ≠ s.current <-> c.room s.key s policy ≠ 0 := by
      have zero : (s.outcome c.history).1 = s.current <-> toward s.raises ((s.outcome c.history).1 - s.current) = 0 := by
        unfold toward
        split_ifs <;> omega
      rw [ne_eq, zero, gain]
      omega
    have other {also : HPAScalingPolicy} (selected : c.Selected s.key s also) :
        min (c.room s.key s also) (reach s) = min (c.room s.key s policy) (reach s) := by
      have equal := selected.2
      rw [policyLimit_usable reckons selected.1, found] at equal
      rw [← toward_limitOf, ← toward_limitOf, Option.some.inj equal]
    refine and_congr ?_ ?_
    · have sides : (min s.current s.desired ≤ (s.outcome c.history).1 ∧
          (s.outcome c.history).1 ≤ max s.current s.desired) <-> 0 ≤ c.room s.key s policy := by
        unfold toward Scaling.raises at gain wish
        by_cases raises : s.current < s.desired
        · simp only [decide_eq_true raises, if_true] at gain wish
          omega
        · simp only [decide_eq_false raises, Bool.false_eq_true, if_false] at gain wish
          omega
      rw [sides]
      split_ifs with least
      · constructor
        · intro room also listed
          have bound := extreme also listed
          rw [if_pos least] at bound
          omega
        · exact fun every => every policy usable
      · constructor
        · exact fun room => ⟨policy, usable, room⟩
        · rintro ⟨also, listed, room⟩
          have bound := extreme also listed
          rw [if_neg least] at bound
          omega
    · refine forall_congr' fun _ => ?_
      rw [moved]
      constructor
      · intro bound also selected room
        have equal := other selected
        have held := bound (by omega) also selected
        rw [gain] at held
        omega
      · intro fits room also selected
        have equal := other selected
        have held := fits also selected (by omega)
        rw [gain]
        omega

theorem isCount_outcome (reckons : Reckons s.key c s) : IsCount (s.outcome c.history).1 := by
  by_cases still : s.desired = s.current ∨ s.selectPolicy = some "Disabled" ∨ s.usable = []
  · rw [outcome_still still reckons]
    exact reckons.current
  · rw [not_or, not_or] at still
    have ⟨policy, usable, found, _⟩ := exists_selected reckons still.2.2
    have base := reckons.base policy.period
    have ⟨_, value, _⟩ : policy.Usable := of_decide_eq_true (List.mem_filter.mp usable).2
    have desired := reckons.desired
    have more : 0 ≤ policy.allows (s.current - drift (within s.now policy.period (c.kept s.key s))) := by
      unfold HPAScalingPolicy.allows
      split_ifs
      · omega
      · exact Int.ediv_nonneg (add_nonneg (mul_nonneg base.1 value.le) (by decide)) (by decide)
    rw [outcome_moves still.1 still.2.1 found]
    unfold limitOf limitFrom
    unfold IsCount at *
    split_ifs <;> omega

theorem applyRatePolicy_history {current desired : Int} {scaleUp : Bool} {rules : Option HPAScalingRules} {now : Nat}
    {history : SortedMap String (List ScaleEvent)} :
    ((applyRatePolicy current desired scaleUp rules now history key).1.1 = current ∧
      (applyRatePolicy current desired scaleUp rules now history key).2 = history) ∨
    (applyRatePolicy current desired scaleUp rules now history key).2 =
      history.insert key (currentEvents current now ((history.get key).getD [])) := by
  unfold applyRatePolicy
  by_cases still : desired = current
  · rw [if_pos still]
    exact .inl ⟨still, rfl⟩
  · rw [if_neg still]
    by_cases disabled : (rules.bind HPAScalingRules.selectPolicy) = some "Disabled"
    · rw [if_pos disabled]
      exact .inl ⟨rfl, rfl⟩
    · rw [if_neg disabled]
      right
      dsimp only
      cases selectedLimit current scaleUp rules now ((history.get key).getD []) <;> rfl

/-- The events that a pass leaves: those it started from with its own one, or
without one those that were there or those it started from. -/
theorem events_pass : (s.key = key ∧ (s.outcome c.history).1 ≠ s.current ∧ s.patched = true ∧
      events key (step key c (.pass s)) = c.kept key s ++ [⟨s.now, s.current, (s.outcome c.history).1⟩]) ∨
    ¬(s.key = key ∧ (s.outcome c.history).1 ≠ s.current ∧ s.patched = true) ∧
      (events key (step key c (.pass s)) = c.events key ∨
        s.key = key ∧ events key (step key c (.pass s)) = c.kept key s) := by
  have history : (step key c (.pass s)).history = (s.outcome c.history).2 := by
    unfold step
    dsimp only
    split_ifs <;> rfl
  have parts := @applyRatePolicy_history s.key s.current s.desired s.raises s.rules s.now c.history
  unfold kept events at *
  rw [history]
  unfold Scaling.outcome
  generalize applyRatePolicy s.current s.desired s.raises s.rules s.now c.history s.key = answer at parts ⊢
  rcases answer with ⟨⟨desired, limited⟩, kept⟩
  dsimp only at parts ⊢
  by_cases same : s.key = key
  · subst same
    by_cases pushed : desired ≠ s.current ∧ s.patched = true
    · left
      rcases parts with ⟨still, _⟩ | rfl
      · exact absurd still pushed.1
      · rw [if_pos pushed, SortedMap.get_insert, if_pos rfl, SortedMap.get_insert, if_pos rfl]
        exact ⟨rfl, pushed.1, pushed.2, rfl⟩
    · right
      rw [if_neg pushed]
      refine ⟨fun both => pushed both.2, ?_⟩
      rcases parts with ⟨_, rfl⟩ | rfl
      · exact .inl rfl
      · rw [SortedMap.get_insert, if_pos rfl]
        exact .inr ⟨rfl, rfl⟩
  · right
    refine ⟨fun both => same both.1, .inl ?_⟩
    have other : kept.get key = c.history.get key := by
      rcases parts with ⟨_, rfl⟩ | rfl
      · rfl
      · rw [SortedMap.get_insert, if_neg (Ne.symm same)]
    split_ifs
    · rw [SortedMap.get_insert, if_neg (Ne.symm same), other]
    · rw [other]

/-! ## What the history keeps -/

theorem drift_append (first second : List ScaleEvent) : drift (first ++ second) = drift first + drift second := by
  unfold drift
  rw [List.map_append, List.sum_append]

theorem within_append (now period : Nat) (first second : List ScaleEvent) :
    within now period (first ++ second) = within now period first ++ within now period second :=
  List.filter_append ..

theorem within_eq_nil {now period instant : Nat} {events : List ScaleEvent} (far : period ≤ now - instant)
    (before : forall event, event ∈ events -> event.time ≤ instant) : within now period events = [] := by
  refine List.filter_eq_nil_iff.mpr fun event listed => ?_
  have early := before event listed
  simp only [decide_eq_true_eq, not_lt]
  omega

theorem within_suffix {now period : Nat} {events : List ScaleEvent}
    (sorted : events.Pairwise fun first second => first.time ≤ second.time) : within now period events <:+ events := by
  unfold within
  induction events with
  | nil => exact List.suffix_refl []
  | cons event rest ih =>
    rw [List.pairwise_cons] at sorted
    rw [List.filter_cons]
    by_cases near : now - event.time < period
    · have every : rest.filter (fun event => decide (now - event.time < period)) = rest := by
        refine List.filter_eq_self.mpr fun later listed => decide_eq_true ?_
        have order := sorted.1 later listed
        omega
      rw [if_pos (decide_eq_true near), every]
    · rw [if_neg (by simpa using near)]
      exact (ih sorted.2).trans (List.suffix_cons event rest)

/-- The history is the end of the own operations since somebody else set the
count, and with the changes of the count it adds up. -/
structure Tracked (key : String) (initial : Int) (c : Course) : Prop where
  count : IsCount (c.count initial)
  sorted : (c.events key).Pairwise fun first second => first.time ≤ second.time
  before : forall event, event ∈ c.events key ++ c.operations -> event.time ≤ c.clock
  each : forall event, event ∈ c.events key -> IsCount event.old ∧ IsCount event.new
  base : forall last, (c.events key).getLast? = some last -> forall later, later <:+ c.events key ->
    IsCount (last.new - drift later)
  told : forall last, (c.events key).getLast? = some last ->
    last.new = c.count initial ∨ Exists fun instant => instant ∈ c.outside ∧ last.time ≤ instant
  same : forall now period, c.clock ≤ now -> period ≤ fromSecs 1800 ->
    (forall instant, instant ∈ c.outside -> period ≤ now - instant) ->
    within now period (c.events key) = within now period c.operations
  total : forall now period, c.clock ≤ now -> (forall instant, instant ∈ c.outside -> period ≤ now - instant) ->
    c.countBefore initial now period + drift (within now period c.operations) = c.count initial

theorem Tracked.start (range : IsCount initial) : Tracked key initial Course.start where
  count := range
  sorted := List.Pairwise.nil
  before := nofun
  each := nofun
  base := nofun
  told := nofun
  same := fun _ _ _ _ _ => rfl
  total := fun _ _ _ _ => add_zero initial

/-- The kept events: all are dropped after somebody else set the count, and
otherwise those older than half an hour. -/
theorem kept_cases : (Exists fun last => (c.events key).getLast? = some last ∧ last.new ≠ s.current ∧ c.kept key s = []) ∨
    (forall last, (c.events key).getLast? = some last -> last.new = s.current) ∧
      c.kept key s = within s.now (fromSecs 1800) (c.events key) := by
  unfold kept currentEvents
  cases found : (c.events key).getLast? with
  | none => exact .inr ⟨nofun, rfl⟩
  | some last =>
    by_cases same : last.new = s.current
    · refine .inr ⟨fun _ other => Option.some.inj other ▸ same, ?_⟩
      simp only [Option.any_some, same, ne_eq, not_true_eq_false, decide_false, Bool.false_eq_true, if_false]
      rfl
    · refine .inl ⟨last, rfl, same, ?_⟩
      simp only [Option.any_some, same, ne_eq, not_false_eq_true, decide_true, if_true, List.filter_nil]

theorem kept_suffix (tracked : Tracked key initial c) : c.kept key s <:+ c.events key := by
  rcases @kept_cases key c s with ⟨_, _, _, none⟩ | ⟨_, some_⟩
  · rw [none]
    exact List.nil_suffix
  · rw [some_]
    exact within_suffix tracked.sorted

theorem getLast?_of_suffix {later : List ScaleEvent} {last : ScaleEvent} (ends : later <:+ c.events key)
    (found : later.getLast? = some last) : (c.events key).getLast? = some last := by
  rcases ends with ⟨earlier, same⟩
  rw [← same, List.getLast?_append, found]
  rfl

section

variable (tracked : Tracked key initial c)
include tracked

/-- The current count is what the kept events lead to, so every part of them
leads from a count. -/
theorem kept_base (found : s.current = c.count initial) {later : List ScaleEvent}
    (ends : later <:+ c.kept key s) : IsCount (s.current - drift later) := by
  cases final : later.getLast? with
  | none =>
    rw [List.getLast?_eq_none_iff] at final
    rw [final, found]
    exact (sub_zero (c.count initial)).symm ▸ tracked.count
  | some last =>
    have whole := ends.trans (kept_suffix tracked)
    have known := getLast?_of_suffix whole final
    rcases @kept_cases key c s with ⟨_, _, _, none⟩ | ⟨same, _⟩
    · rw [none] at ends
      rw [List.suffix_nil.mp ends] at final
      cases final
    · rw [← same last known]
      exact tracked.base last known later whole

theorem Tracked.reckons (possible : c.Possible key initial (.pass s)) (own : s.key = key) :
    Reckons key c s := by
  have ⟨found, desired⟩ := possible.2 own
  have ordered : (c.kept key s).Pairwise fun first second => first.time ≤ second.time :=
    tracked.sorted.sublist (kept_suffix tracked).sublist
  exact ⟨found ▸ tracked.count, desired, fun period => kept_base tracked found (within_suffix ordered),
    fun event listed => tracked.each event ((kept_suffix tracked).subset listed)⟩

/-- Within a period without other changes of the count the kept events are the
own operations. -/
theorem within_kept (found : s.current = c.count initial) {now period : Nat}
    (order : c.clock ≤ s.now) (later : s.now ≤ now) (short : period ≤ fromSecs 1800)
    (calm : forall instant, instant ∈ c.outside -> period ≤ now - instant) :
    within now period (c.kept key s) = within now period c.operations := by
  rw [← tracked.same now period (order.trans later) short calm]
  rcases @kept_cases key c s with ⟨last, final, other, none⟩ | ⟨_, some_⟩
  · rcases tracked.told last final with same | ⟨instant, outside, after⟩
    · exact absurd (same.trans found.symm) other
    · rw [none]
      refine (within_eq_nil (calm instant outside) fun event listed => ?_).symm
      refine le_trans ?_ after
      rcases List.getLast?_eq_some_iff.mp final with ⟨earlier, whole⟩
      have sorted := tracked.sorted
      rw [whole] at sorted listed
      rcases List.mem_append.mp listed with first | single
      · exact (List.pairwise_append.mp sorted).2.2 event first last (List.mem_singleton_self last)
      · exact (congrArg ScaleEvent.time (List.mem_singleton.mp single)).le
  · rw [some_]
    unfold within
    rw [List.filter_filter]
    refine List.filter_congr fun event _ => ?_
    rw [← Bool.decide_and, decide_eq_decide]
    omega

theorem Tracked.keep (possible : c.Possible key initial (.pass s))
    (idle : ¬(s.key = key ∧ (s.outcome c.history).1 ≠ s.current ∧ s.patched = true)) :
    Tracked key initial (step key c (.pass s)) := by
  have rest : (step key c (.pass s)).operations = c.operations ∧ (step key c (.pass s)).changes = c.changes ∧
      (step key c (.pass s)).outside = c.outside ∧ (step key c (.pass s)).clock = s.now := by
    unfold step
    dsimp only
    rw [if_neg idle]
    exact ⟨rfl, rfl, rfl, rfl⟩
  rcases rest with ⟨operations, changes, outside, clock⟩
  have order := possible.1
  have ends : events key (step key c (.pass s)) <:+ c.events key := by
    rcases @events_pass key c s with ⟨own, moved, patched, _⟩ | ⟨_, all | ⟨_, kept⟩⟩
    · exact absurd ⟨own, moved, patched⟩ idle
    · rw [all]
    · rw [kept]
      exact kept_suffix tracked
  have same (now period : Nat) (later : s.now ≤ now) (short : period ≤ fromSecs 1800)
      (calm : forall instant, instant ∈ c.outside -> period ≤ now - instant) :
      within now period (events key (step key c (.pass s))) = within now period c.operations := by
    rcases @events_pass key c s with ⟨own, moved, patched, _⟩ | ⟨_, all | ⟨own, kept⟩⟩
    · exact absurd ⟨own, moved, patched⟩ idle
    · rw [all]
      exact tracked.same now period (order.trans later) short calm
    · rw [kept]
      exact within_kept tracked (possible.2 own).1 order later short calm
  have counts : (step key c (.pass s)).count initial = c.count initial := by
    unfold Course.count
    rw [changes]
  constructor
  · rw [counts]
    exact tracked.count
  · exact tracked.sorted.sublist ends.sublist
  · intro event listed
    rw [clock]
    rw [operations] at listed
    refine le_trans (tracked.before event ?_) order
    rcases List.mem_append.mp listed with first | second
    · exact List.mem_append_left _ (ends.subset first)
    · exact List.mem_append_right _ second
  · exact fun event listed => tracked.each event (ends.subset listed)
  · exact fun last final later suffix => tracked.base last (getLast?_of_suffix ends final) later (suffix.trans ends)
  · intro last final
    rw [counts, outside]
    exact tracked.told last (getLast?_of_suffix ends final)
  · intro now period later short calm
    rw [clock] at later
    rw [outside] at calm
    rw [operations]
    exact same now period later short calm
  · intro now period later calm
    rw [clock] at later
    rw [outside] at calm
    unfold countBefore
    rw [operations, changes, counts]
    exact tracked.total now period (order.trans later) calm

theorem Tracked.write (possible : c.Possible key initial (.pass s))
    (own : s.key = key) (moved : (s.outcome c.history).1 ≠ s.current) (patched : s.patched = true) :
    Tracked key initial (step key c (.pass s)) := by
  have result : IsCount (s.outcome c.history).1 := by
    have reckons := tracked.reckons possible own
    subst own
    exact isCount_outcome reckons
  have ⟨found, _⟩ := possible.2 own
  have order := possible.1
  have history : events key (step key c (.pass s)) = c.kept key s ++ [⟨s.now, s.current, (s.outcome c.history).1⟩] := by
    rcases @events_pass key c s with ⟨_, _, _, pushed⟩ | ⟨idle, _⟩
    · exact pushed
    · exact absurd ⟨own, moved, patched⟩ idle
  have rest : step key c (.pass s) = ⟨(s.outcome c.history).2, c.operations ++ [⟨s.now, s.current, (s.outcome c.history).1⟩],
      c.changes ++ [(s.now, (s.outcome c.history).1)], c.outside, s.now⟩ := by
    unfold step
    dsimp only
    rw [if_pos ⟨own, moved, patched⟩]
  generalize (s.outcome c.history).1 = count at *
  have counts : (step key c (.pass s)).count initial = count := by
    rw [rest]
    unfold Course.count
    rw [List.getLast?_append]
    rfl
  have early (event : ScaleEvent) (listed : event ∈ c.kept key s ++ c.operations) : event.time ≤ s.now := by
    refine le_trans (tracked.before event ?_) order
    rcases List.mem_append.mp listed with first | second
    · exact List.mem_append_left _ ((kept_suffix tracked).subset first)
    · exact List.mem_append_right _ second
  constructor
  · rw [counts]
    exact result
  · rw [history, List.pairwise_append]
    refine ⟨tracked.sorted.sublist (kept_suffix tracked).sublist, List.pairwise_singleton .., fun event listed last final => ?_⟩
    rw [List.mem_singleton.mp final]
    exact early event (List.mem_append_left _ listed)
  · intro event listed
    rw [history, rest] at listed
    rw [rest]
    rcases List.mem_append.mp listed with first | second
    · rcases List.mem_append.mp first with kept | single
      · exact early event (List.mem_append_left _ kept)
      · exact (congrArg ScaleEvent.time (List.mem_singleton.mp single)).le
    · rcases List.mem_append.mp second with kept | single
      · exact early event (List.mem_append_right _ kept)
      · exact (congrArg ScaleEvent.time (List.mem_singleton.mp single)).le
  · intro event listed
    rw [history] at listed
    rcases List.mem_append.mp listed with kept | single
    · exact tracked.each event ((kept_suffix tracked).subset kept)
    · rw [List.mem_singleton.mp single]
      exact ⟨found ▸ tracked.count, result⟩
  · intro last final later suffix
    rw [history] at final suffix
    rw [List.getLast?_append] at final
    obtain rfl : ⟨s.now, s.current, count⟩ = last := Option.some.inj final
    rcases List.suffix_concat_iff.mp suffix with rfl | ⟨earlier, rfl, ends⟩
    · exact (sub_zero count).symm ▸ result
    · have base := kept_base tracked found ends
      have sum : count - drift (earlier ++ [⟨s.now, s.current, count⟩]) = s.current - drift earlier := by
        rw [drift_append]
        unfold drift
        rw [List.map_singleton, List.sum_singleton]
        ring
      rw [sum]
      exact base
  · intro last final
    rw [history, List.getLast?_append] at final
    obtain rfl := Option.some.inj final
    exact .inl counts.symm
  · intro now period later short calm
    rw [rest] at later calm
    rw [history, rest, within_append, within_append, within_kept tracked found order later short calm]
  · intro now period later calm
    rw [rest] at later calm
    have total := tracked.total now period (order.trans later) calm
    rw [counts, rest]
    unfold countBefore at total ⊢
    rw [within_append, drift_append, List.filter_append]
    by_cases near : now - s.now < period
    · have new : within now period [⟨s.now, s.current, count⟩] = [⟨s.now, s.current, count⟩] := by
        unfold within
        rw [List.filter_cons, if_pos (decide_eq_true near), List.filter_nil]
      rw [new, List.filter_cons, if_neg (by simpa using near), List.filter_nil, List.append_nil]
      unfold drift at total ⊢
      rw [List.map_singleton, List.sum_singleton]
      rw [← found] at total
      dsimp only
      linarith
    · have far : period ≤ now - s.now := Nat.le_of_not_lt near
      have none : within now period c.operations = [] :=
        within_eq_nil far fun event listed => early event (List.mem_append_right _ listed)
      have new : within now period [⟨s.now, s.current, count⟩] = [] :=
        within_eq_nil far fun event listed => (congrArg ScaleEvent.time (List.mem_singleton.mp listed)).le
      rw [none, new, List.filter_cons, if_pos (decide_eq_true far), List.filter_nil, List.getLast?_append]
      exact add_zero count

theorem Tracked.scaled {instant : Nat} {count : Int} (order : c.clock ≤ instant)
    (range : IsCount count) : Tracked key initial (step key c (.scaled instant count)) := by
  have counts : (step key c (.scaled instant count)).count initial = count := by
    unfold step Course.count
    rw [List.getLast?_append]
    rfl
  constructor
  · rw [counts]
    exact range
  · exact tracked.sorted
  · exact fun event listed => (tracked.before event listed).trans order
  · exact tracked.each
  · exact tracked.base
  · intro last final
    refine .inr ⟨instant, List.mem_append_right _ (List.mem_singleton_self instant), ?_⟩
    have member : last ∈ c.events key := List.mem_of_getLast? final
    exact (tracked.before last (List.mem_append_left _ member)).trans order
  · exact fun now period later short calm => tracked.same now period (order.trans later) short fun other listed =>
      calm other (List.mem_append_left _ listed)
  · intro now period later calm
    have far : period ≤ now - instant := calm instant (List.mem_append_right _ (List.mem_singleton_self instant))
    have none : within now period c.operations = [] :=
      within_eq_nil far fun event listed => (tracked.before event (List.mem_append_right _ listed)).trans order
    rw [counts]
    unfold step countBefore
    rw [none, List.filter_append, List.filter_cons, if_pos (decide_eq_true far), List.filter_nil, List.getLast?_append]
    exact add_zero count

theorem Tracked.step {move : Move} (possible : c.Possible key initial move) :
    Tracked key initial (Course.step key c move) := by
  cases move with
  | scaled instant count => exact tracked.scaled possible.1 possible.2
  | pass s =>
    by_cases writes : s.key = key ∧ (s.outcome c.history).1 ≠ s.current ∧ s.patched = true
    · exact tracked.write possible writes.1 writes.2.1 writes.2.2
    · exact tracked.keep possible writes

/-! ## Runs -/

end

theorem drift_eq_gained (scaleUp : Bool) (events : List ScaleEvent) :
    toward scaleUp (drift events) = gained scaleUp events - gained (!scaleUp) events := by
  unfold drift gained
  induction events with
  | nil => cases scaleUp <;> rfl
  | cons event rest ih =>
    rw [List.map_cons, List.map_cons, List.map_cons, List.sum_cons, List.sum_cons, List.sum_cons]
    unfold toward at *
    cases scaleUp with
    | true =>
      simp only [Bool.not_true, if_true, Bool.false_eq_true, if_false] at ih ⊢
      omega
    | false =>
      simp only [Bool.not_false, if_true, Bool.false_eq_true, if_false] at ih ⊢
      omega

/-- In a calm period the room is what the policy allows from the count at the
start less the gains, and more by what went the other way. -/
theorem room_calm (tracked : Tracked key initial c) (possible : c.Possible key initial (.pass s)) (own : s.key = key)
    (short : policy.period ≤ fromSecs 1800) (calm : forall instant, instant ∈ c.outside -> policy.period ≤ s.now - instant) :
    c.room key s policy = policy.allows (c.countBefore initial s.now policy.period) -
      gained s.raises (within s.now policy.period c.operations) +
      gained (!s.raises) (within s.now policy.period c.operations) := by
  have ⟨found, _⟩ := possible.2 own
  have total := tracked.total s.now policy.period possible.1 calm
  unfold room
  dsimp only
  rw [within_kept tracked found possible.1 le_rfl short calm, drift_eq_gained, found,
    ← eq_sub_of_add_eq total]
  ring

end

end Course

/-- In every run the passes keep to the policies exactly where these are not
overdrawn and what they have left is not less than the room they reckon with.
In a period of up to half an hour in which nobody else set the count, that
room is too large by what the controller moved the other way, and by no more. -/
theorem rate_policies_bound (key : String) (initial : Int) (moves : List Move) (range : IsCount initial)
    (possible : EveryStep (Course.step key) (Course.Possible key initial) Course.start moves) :
    (EveryStep (Course.step key) (Course.Bounded key initial) Course.start moves <->
      EveryStep (Course.step key) (Course.WithinRates key initial) Course.start moves) ∧
    EveryStep (Course.step key) (fun c move => forall s, move = .pass s -> s.key = key -> forall policy,
      policy.period ≤ fromSecs 1800 -> (forall instant, instant ∈ c.outside -> policy.period ≤ s.now - instant) ->
        c.room key s policy = policy.allows (c.countBefore initial s.now policy.period) -
          gained s.raises (within s.now policy.period c.operations) +
          gained (!s.raises) (within s.now policy.period c.operations)) Course.start moves := by
  have start : Course.Tracked key initial Course.start := Course.Tracked.start range
  have keeps (c : Course) (move : Move) (tracked : Course.Tracked key initial c)
      (enabled : c.Possible key initial move) : Course.Tracked key initial (Course.step key c move) := tracked.step enabled
  constructor
  · refine everyStep_iff (fun c move tracked enabled _ => keeps c move tracked enabled) ?_ start possible
    intro c move tracked enabled
    cases move with
    | scaled => exact Iff.rfl
    | pass s =>
      by_cases own : s.key = key
      · exact Course.bounded_iff (tracked.reckons enabled own)
      · exact iff_of_true (fun same => absurd same own) fun same => absurd same own
  · refine EveryStep.of_invariant keeps ?_ start possible
    rintro c _ tracked enabled s rfl own policy short calm
    exact Course.room_calm tracked enabled own short calm

private def tenPods : Option HPAScalingRules :=
  some ⟨some [⟨"Pods", 10, 60⟩], none, none⟩

private def wants (current desired second : Int) : Move :=
  .pass ⟨"default/web", current, desired, tenPods, tenPods, fromSecs second.toNat, true⟩

/-- Ten replicas go down to five and up to twenty, and a minute later a wish
for thirty takes them down to fifteen. -/
private def downAndUp : List Move :=
  [wants 10 5 0, wants 5 30 10, wants 20 30 61]

theorem downAndUp_possible :
    EveryStep (Course.step "default/web") (Course.Possible "default/web" 10) Course.start downAndUp :=
  ⟨⟨by decide, fun _ => ⟨by decide, by decide, by decide⟩⟩,
    ⟨by decide +kernel, fun _ => ⟨by decide +kernel, by decide, by decide⟩⟩,
    ⟨by decide +kernel, fun _ => ⟨by decide +kernel, by decide, by decide⟩⟩, True.intro⟩

theorem rate_policies_bound_downAndUp :
    (EveryStep (Course.step "default/web") (Course.Bounded "default/web" 10) Course.start downAndUp <->
      EveryStep (Course.step "default/web") (Course.WithinRates "default/web" 10) Course.start downAndUp) :=
  (rate_policies_bound "default/web" 10 downAndUp ⟨by decide, by decide⟩ downAndUp_possible).1

/-- Fifteen are added in a minute that allows ten, and a wish for more takes
five away. -/
theorem not_bounded_downAndUp :
    EveryStep (Course.step "default/web") (Course.Possible "default/web" 10) Course.start downAndUp ∧
    ¬EveryStep (Course.step "default/web") (Course.Bounded "default/web" 10) Course.start (downAndUp.take 2) ∧
    ¬EveryStep (Course.step "default/web") (fun c move => forall s, move = .pass s ->
      min s.current s.desired ≤ (s.outcome c.history).1) Course.start downAndUp := by
  refine ⟨downAndUp_possible, ?_, ?_⟩
  · rintro ⟨-, second, -⟩
    have bounded := (second rfl).2 rfl (by decide +kernel) ⟨"Pods", 10, 60⟩
      ⟨List.mem_filter.mpr ⟨.head _, by decide⟩, by decide +kernel⟩
    exact absurd bounded (by decide +kernel)
  · rintro ⟨-, -, third, -⟩
    exact absurd (third _ rfl) (by decide +kernel)

end Autoscaler
end NotK8s.Controllers

import NotK8s.Controllers.RollingUpdate

namespace NotK8s.Controllers

open Library

/-!
# Disruption budgets

The controller lists the Pods of a budget and publishes how many of them may
be disrupted; the API server reads that number when a Pod is to be evicted.
Both are about one namespace.
-/

structure SelectorRequirement where
  key : String
  operator : String
  values : Option (List String)
  deriving DecidableEq

structure LabelSelector where
  matchLabels : Option (List (String × String))
  matchExpressions : Option (List SelectorRequirement)
  deriving DecidableEq

abbrev Labels :=
  SortedMap String String

/-! ## The selector, as the controllers read it -/

namespace LabelSelector

/-- A selector that asks for nothing. -/
def isEmpty (selector : LabelSelector) : Bool :=
  selector.matchLabels.isNone && !selector.matchExpressions.any fun exprs => !exprs.isEmpty

end LabelSelector

def SelectorRequirement.satisfied (e : SelectorRequirement) (labels : Labels) : Bool :=
  if e.operator = "In" then e.values.any fun vs => (labels.get e.key).any vs.contains
  else if e.operator = "NotIn" then !e.values.any fun vs => (labels.get e.key).any vs.contains
  else if e.operator = "Exists" then (labels.get e.key).isSome
  else if e.operator = "DoesNotExist" then (labels.get e.key).isNone
  else false

def labelSelectorMatches (selector : LabelSelector) (labels : Labels) : Bool :=
  if selector.isEmpty then false
  else
    (selector.matchLabels.all fun pairs => pairs.all fun pair => labels.get pair.1 == some pair.2) &&
      selector.matchExpressions.all fun exprs => exprs.all fun e => e.satisfied labels

/-! ## The selector, as the API server reads it -/

def SelectorRequirement.holds (requirement : SelectorRequirement) (podLabels : Option Labels) : Bool :=
  let value := podLabels.bind fun labels => labels.get requirement.key
  let values := requirement.values.getD []
  if requirement.operator = "In" then value.any values.contains
  else if requirement.operator = "NotIn" then value.all fun value => !values.contains value
  else if requirement.operator = "Exists" then value.isSome
  else if requirement.operator = "DoesNotExist" then value.isNone
  else false

def pdbSelectsPod (selector : LabelSelector) (podLabels : Option Labels) : Bool :=
  ((selector.matchLabels.getD []).all fun pair => (podLabels.bind fun labels => labels.get pair.1) == some pair.2) &&
    (selector.matchExpressions.getD []).all fun requirement => requirement.holds podLabels

/-! ## Where the two agree -/

section
variable (selector : LabelSelector) (labels : Labels)

theorem holds_eq_satisfied (e : SelectorRequirement) : e.holds (some labels) = e.satisfied labels := by
  unfold SelectorRequirement.holds SelectorRequirement.satisfied
  cases e.values <;> cases isValue : labels.get e.key <;> simp [isValue]

theorem pdbSelectsPod_labelled :
    pdbSelectsPod selector (some labels) = (selector.isEmpty || labelSelectorMatches selector labels) := by
  cases empty : selector.isEmpty with
  | true =>
    simp only [LabelSelector.isEmpty, Bool.and_eq_true, Option.isNone_iff_eq_none, Bool.not_eq_true'] at empty
    rcases empty with ⟨noLabels, noExpressions⟩
    unfold pdbSelectsPod
    rw [noLabels]
    cases exprs : selector.matchExpressions with
    | none => rfl
    | some list =>
      rw [exprs] at noExpressions
      have nothing : list = [] := by simpa using noExpressions
      rw [nothing]
      rfl
  | false =>
    unfold pdbSelectsPod labelSelectorMatches
    simp only [empty, Bool.false_or, Bool.false_eq_true, if_false, Option.bind_some, holds_eq_satisfied]
    cases selector.matchLabels <;> cases selector.matchExpressions <;> rfl

/-- Some label must be there for the selector to match. -/
def LabelSelector.asksForLabel (selector : LabelSelector) : Bool :=
  !(selector.matchLabels.getD []).isEmpty ||
    (selector.matchExpressions.getD []).any fun e => !(e.operator == "NotIn" || e.operator == "DoesNotExist")

theorem holds_unlabelled (e : SelectorRequirement) :
    e.holds none = (e.operator == "NotIn" || e.operator == "DoesNotExist") := by
  unfold SelectorRequirement.holds
  split
  · next isIn => rw [isIn]; rfl
  · split
    · next isNotIn => rw [isNotIn]; rfl
    · next notNotIn =>
        split
        · next exists_ => rw [exists_]; rfl
        · rw [beq_eq_false_iff_ne.mpr notNotIn, Bool.false_or]
          split
          · next isDoesNotExist => exact (beq_iff_eq.mpr isDoesNotExist).symm
          · next other => exact (beq_eq_false_iff_ne.mpr other).symm

theorem pdbSelectsPod_unlabelled : pdbSelectsPod selector none = !selector.asksForLabel := by
  unfold pdbSelectsPod LabelSelector.asksForLabel
  simp only [Option.bind_none, holds_unlabelled, Bool.not_or, Bool.not_not]
  rw [List.not_any_eq_all_not]
  congr 1
  · cases selector.matchLabels.getD [] <;> rfl
  · simp only [Bool.not_and, Bool.not_not]

/-- The controllers match nothing without labels and nothing by an empty
selector.  The API server does. -/
theorem selectors_agree_iff (podLabels : Option Labels) :
    pdbSelectsPod selector podLabels = podLabels.any (labelSelectorMatches selector) <->
      selector.isEmpty = false ∧ (podLabels.isSome = true ∨ selector.asksForLabel = true) := by
  cases podLabels with
  | none =>
    rw [pdbSelectsPod_unlabelled]
    have nonempty : selector.asksForLabel = true -> selector.isEmpty = false := by
      intro asks
      unfold LabelSelector.asksForLabel at asks
      unfold LabelSelector.isEmpty
      cases pairs : selector.matchLabels with
      | some list => rfl
      | none =>
        cases exprs : selector.matchExpressions with
        | none => simp [pairs, exprs] at asks
        | some list =>
          rw [pairs, exprs] at asks
          cases list with
          | nil => simp at asks
          | cons e rest => rfl
    cases asks : selector.asksForLabel with
    | true => simp [nonempty asks]
    | false => simp
  | some labels =>
    rw [pdbSelectsPod_labelled]
    have unmatched : selector.isEmpty = true -> labelSelectorMatches selector labels = false := by
      intro empty
      exact if_pos empty
    cases empty : selector.isEmpty with
    | true => simp [unmatched empty]
    | false => simp

end

/-! ## The status -/

/-- The healthy Pods wanted, how many may be disrupted, and the Pods expected. -/
def computeStatus (expected healthy : Int) (minAvailable maxUnavailable : Option IntOrString) : Int × Int × Int :=
  let desiredHealthy :=
    match minAvailable, maxUnavailable with
    | some min, _ => resolveIntOrStr (some min) expected true 100
    | none, some most => max (i32 (expected - resolveIntOrStr (some most) expected false 0)) 0
    | none, none => 0
  let disruptionsAllowed := max (i32 (healthy - desiredHealthy)) 0
  (desiredHealthy, disruptionsAllowed, expected)

/-- The healthy Pods wanted of so many, without overflow. -/
def wantedHealthy (minAvailable maxUnavailable : Option IntOrString) (expected : Int) : Int :=
  match minAvailable, maxUnavailable with
  | some min, _ => budgetOf (some min) expected true 100
  | none, some most => max (expected - budgetOf (some most) expected false 0) 0
  | none, none => 0

/-- The status of so many Pods can be computed. -/
def StatusFits (minAvailable maxUnavailable : Option IntOrString) (expected : Int) : Prop :=
  Fits 32 expected ∧
    match minAvailable, maxUnavailable with
    | some min, _ => PercentFits (some min) expected true 100 ∧ Fits 32 (budgetOf (some min) expected true 100)
    | none, some most => PercentFits (some most) expected false 0 ∧ Fits 32 (budgetOf (some most) expected false 0)
    | none, none => True

instance (minAvailable maxUnavailable : Option IntOrString) (expected : Int) :
    Decidable (StatusFits minAvailable maxUnavailable expected) := by
  unfold StatusFits
  cases minAvailable <;> cases maxUnavailable <;> infer_instance

section
variable {minAvailable maxUnavailable : Option IntOrString}

theorem budgetOf_natural (v : Option IntOrString) (total : Int) (roundUp : Bool) (defaultPercent : Int) :
    0 ≤ budgetOf v total roundUp defaultPercent :=
  le_max_right _ _

theorem computeStatus_eq {expected healthy : Int} (fits : StatusFits minAvailable maxUnavailable expected)
    (natural : 0 ≤ healthy) (part : healthy ≤ expected) :
    computeStatus expected healthy minAvailable maxUnavailable =
      (wantedHealthy minAvailable maxUnavailable expected,
        max (healthy - wantedHealthy minAvailable maxUnavailable expected) 0, expected) := by
  rcases fits with ⟨⟨totalLower, totalUpper⟩, amount⟩
  unfold computeStatus wantedHealthy
  cases minAvailable with
  | some min =>
    rcases amount with ⟨percent, ⟨_, upper⟩⟩
    have floor := budgetOf_natural (some min) expected true 100
    dsimp only [i32] at upper floor ⊢
    rw [resolveIntOrStr_eq percent]
    rw [wrapped_of_fits (by constructor <;> omega)]
  | none =>
    cases maxUnavailable with
    | some most =>
      rcases amount with ⟨percent, ⟨_, upper⟩⟩
      have floor := budgetOf_natural (some most) expected false 0
      dsimp only [i32] at upper floor ⊢
      rw [resolveIntOrStr_eq percent]
      have fitsDesired : Fits 32 (expected - budgetOf (some most) expected false 0) := by constructor <;> omega
      rw [wrapped_of_fits fitsDesired]
      rw [wrapped_of_fits (by constructor <;> omega)]
    | none =>
      dsimp only [i32]
      rw [wrapped_of_fits (by constructor <;> omega)]

theorem budgetOf_mono {v : Option IntOrString} {fewer more : Int} (natural : 0 ≤ fewer) (le : fewer ≤ more)
    (defaultPercent : Int) : budgetOf v fewer true defaultPercent ≤ budgetOf v more true defaultPercent := by
  unfold budgetOf
  rcases intOrPercent defaultPercent v with ⟨isPercent, num⟩
  cases isPercent with
  | false => exact le_refl _
  | true =>
    rcases le_or_gt 0 num with positive | negative
    · have product := Int.mul_le_mul_of_nonneg_right le positive
      have quotient := Int.tdiv_le_tdiv (c := 100) (by omega) (Int.add_le_add_right product 99)
      exact max_le_max quotient (le_refl 0)
    · have product := Int.mul_le_mul_of_nonpos_right natural (Int.le_of_lt negative)
      rw [Int.zero_mul] at product
      have quotient : (fewer * num + 99).tdiv 100 ≤ (99 : Int).tdiv 100 :=
        Int.tdiv_le_tdiv (by omega) (by omega)
      exact max_le (quotient.trans (le_max_right _ _)) (le_max_right _ _)

theorem leftOver_mono {v : Option IntOrString} {fewer more : Int} (natural : 0 ≤ fewer) (le : fewer ≤ more)
    (defaultPercent : Int) :
    max (fewer - budgetOf v fewer false defaultPercent) 0 ≤ max (more - budgetOf v more false defaultPercent) 0 := by
  unfold budgetOf
  rcases intOrPercent defaultPercent v with ⟨isPercent, num⟩
  cases isPercent with
  | false =>
    simp only [Bool.false_eq_true, if_false]
    omega
  | true =>
    simp only [if_true, Bool.false_eq_true, if_false, Int.add_zero]
    rcases le_or_gt 0 num with positive | negative
    · have product := Int.mul_le_mul_of_nonneg_right le positive
      have start := Int.mul_nonneg natural positive
      rw [Int.tdiv_eq_ediv_of_nonneg start, Int.tdiv_eq_ediv_of_nonneg (start.trans product)]
      rcases le_or_gt num 100 with part | whole
      · have grown := Int.mul_le_mul_of_nonneg_left part (Int.sub_nonneg_of_le le)
        rw [Int.sub_mul] at grown
        omega
      · have all := Int.mul_le_mul_of_nonneg_left (Int.le_of_lt whole) natural
        omega
    · have product := Int.mul_le_mul_of_nonpos_right (natural.trans le) (Int.le_of_lt negative)
      rw [Int.zero_mul] at product
      have start := Int.mul_le_mul_of_nonpos_right natural (Int.le_of_lt negative)
      rw [Int.zero_mul] at start
      have before : (fewer * num).tdiv 100 ≤ (0 : Int).tdiv 100 := Int.tdiv_le_tdiv (by omega) start
      have after : (more * num).tdiv 100 ≤ (0 : Int).tdiv 100 := Int.tdiv_le_tdiv (by omega) product
      rw [Int.zero_tdiv] at before after
      omega

theorem wantedHealthy_mono {fewer more : Int} (natural : 0 ≤ fewer) (le : fewer ≤ more) :
    wantedHealthy minAvailable maxUnavailable fewer ≤ wantedHealthy minAvailable maxUnavailable more := by
  cases minAvailable with
  | some min => exact budgetOf_mono natural le 100
  | none =>
    cases maxUnavailable with
    | some most => exact leftOver_mono natural le 0
    | none => exact le_refl _

end

end NotK8s.Controllers

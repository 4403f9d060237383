import NotK8s.Controllers.Autoscaler

namespace NotK8s.Controllers
namespace Autoscaler

open Library

/-!
# Stabilisation over runs

A run interleaves the passes of every HPA, whose replica counts anybody may
set in between.  Next to the controller it keeps every recommendation ever
computed for an HPA.  A pass trims the samples with the window of its own
direction, so what it computes respects the recommendations of the window
only under a condition on the samples that are left, and that condition is
exact.
-/

/-- The controller and the recommendations computed for each HPA. -/
structure Run where
  state : State
  computed : Samples

def Run.empty : Run where
  state := ⟨SortedMap.empty, SortedMap.empty⟩
  computed := SortedMap.empty

inductive Step where
  | pass (p : Pass)
  | deleted (key : String)

def Run.computedFor (r : Run) (key : String) : List (Nat × Int) :=
  (r.computed.get key).getD []

def Run.step (r : Run) : Step -> Run
  | .pass p =>
    { state := (reconcileHpa r.state p).2
      computed :=
        if p.evaluates then r.computed.insert p.key (r.computedFor p.key ++ [(p.now, p.recommendation)]) else r.computed }
  | .deleted key =>
    { state := ⟨r.state.recommendations.erase key, r.state.scaleEvents.erase key⟩
      computed := r.computed.erase key }

/-- The recommendations of the window before a pass. -/
def Run.within (r : Run) (p : Pass) (window : Nat) : List Int :=
  (recent window p.now (r.computedFor p.key)).map Prod.snd

/-- A value below the current count is at least every recommendation of the
scale-down window, the one of the pass included.  A value above it is at most
every one of the scale-up window.  The stabilised value lies between the
current count and the recommendation. -/
def Stabilizes (r : Run) : Step -> Prop
  | .pass p => forall d, (reconcileHpa r.state p).1 = some d ->
      (d.desired < p.currentDesired -> forall x, x ∈ d.recommendation :: r.within p p.downWindow -> x ≤ d.desired) ∧
      (p.currentDesired < d.desired -> forall x, x ∈ d.recommendation :: r.within p p.upWindow -> d.desired ≤ x) ∧
      min d.recommendation p.currentDesired ≤ d.stabilized ∧ d.stabilized ≤ max d.recommendation p.currentDesired
  | .deleted _ => True

/-- The samples a pass keeps of its HPA. -/
def keptSamples (r : Run) (p : Pass) : List Int :=
  (seeded p.key p.currentDesired p.recommendation p.stabilizationWindow p.now r.state.recommendations).map Prod.snd

/-- The count the scaling policies let a pass move to, the current one when
they let it move to none. -/
def rateLimit (r : Run) (p : Pass) (scaleUp : Bool) : Int :=
  let rules := if scaleUp then p.scaleUp else p.scaleDown
  if (rules.bind HPAScalingRules.selectPolicy) = some "Disabled" then p.currentDesired
  else (selectedLimit p.currentDesired scaleUp rules p.now ((r.state.scaleEvents.get p.key).getD [])).getD p.currentDesired

/-- A pass with a recommendation below the current count keeps no sample
above the count.  Either it keeps the count itself, or the policies do not
let it move up, and if they let it move down, every recommendation of the
window is at most the limit, its own recommendation or a sample it keeps. A
pass with a recommendation above the count does the same the other way. -/
def KeepsEnough (r : Run) : Step -> Prop
  | .pass p => p.evaluates = true ->
      (p.recommendation < p.currentDesired ->
        (forall x, x ∈ keptSamples r p -> x ≤ p.currentDesired) ∧
          (p.currentDesired ∈ keptSamples r p ∨ (rateLimit r p false ≤ p.currentDesired ∧
            (rateLimit r p false = p.currentDesired ∨ forall x, x ∈ r.within p p.downWindow ->
              Exists fun y => y ∈ rateLimit r p false :: p.recommendation :: keptSamples r p ∧ x ≤ y)))) ∧
      (p.currentDesired < p.recommendation ->
        (forall x, x ∈ keptSamples r p -> p.currentDesired ≤ x) ∧
          (p.currentDesired ∈ keptSamples r p ∨ (p.currentDesired ≤ rateLimit r p true ∧
            (rateLimit r p true = p.currentDesired ∨ forall x, x ∈ r.within p p.upWindow ->
              Exists fun y => y ∈ rateLimit r p true :: p.recommendation :: keptSamples r p ∧ y ≤ x))))
  | .deleted _ => True

/-! ## What a pass computes -/

section
variable {r : Run} {p : Pass}

def held (r : Run) (p : Pass) : Int :=
  (stabilizedRecommendation p.key p.currentDesired p.recommendation p.stabilizationWindow p.now r.state.recommendations).1

def applied (r : Run) (p : Pass) : Int :=
  let scaleUp := decide (p.currentDesired < held r p)
  (applyRatePolicy p.currentDesired (held r p) scaleUp (if scaleUp then p.scaleUp else p.scaleDown) p.now
    r.state.scaleEvents p.key).1.1

theorem reconcileHpa_decision (evaluates : p.evaluates = true) :
    (reconcileHpa r.state p).1 = some ⟨p.recommendation, held r p, applied r p⟩ := by
  unfold reconcileHpa
  rw [if_pos evaluates]
  rfl

theorem reconcileHpa_bails (bails : p.evaluates = false) : (reconcileHpa r.state p).1 = none := by
  unfold reconcileHpa
  rw [bails]
  rfl

theorem mem_replicas {x : Int} : x ∈ keptSamples r p ++ [p.recommendation] <->
    x ∈ insert p.recommendation {x | x ∈ keptSamples r p} := by
  rw [List.mem_append, List.mem_singleton, or_comm]
  rfl

theorem held_greatest (below : p.recommendation < p.currentDesired) :
    IsGreatest (insert p.recommendation {x | x ∈ keptSamples r p}) (held r p) := by
  unfold held stabilizedRecommendation
  simp only [if_pos below, List.map_append, List.map_cons, List.map_nil]
  change IsGreatest _ ((keptSamples r p ++ [p.recommendation]).max?.getD _)
  cases most : (keptSamples r p ++ [p.recommendation]).max? with
  | none => simp at most
  | some greatest =>
    rcases List.max?_eq_some_iff.mp most with ⟨listed, bound⟩
    exact ⟨mem_replicas.mp listed, fun x inside => bound x (mem_replicas.mpr inside)⟩

theorem held_least (above : p.currentDesired < p.recommendation) :
    IsLeast (insert p.recommendation {x | x ∈ keptSamples r p}) (held r p) := by
  unfold held stabilizedRecommendation
  simp only [if_neg above.asymm, if_pos above, List.map_append, List.map_cons, List.map_nil]
  change IsLeast _ ((keptSamples r p ++ [p.recommendation]).min?.getD _)
  cases most : (keptSamples r p ++ [p.recommendation]).min? with
  | none => simp at most
  | some least =>
    rcases List.min?_eq_some_iff.mp most with ⟨listed, bound⟩
    exact ⟨mem_replicas.mp listed, fun x inside => bound x (mem_replicas.mpr inside)⟩

theorem held_self (same : p.recommendation = p.currentDesired) : held r p = p.currentDesired := by
  unfold held stabilizedRecommendation
  simp only [same, lt_self_iff_false, if_false]

theorem applied_still (still : held r p = p.currentDesired) : applied r p = p.currentDesired := by
  unfold applied applyRatePolicy
  rw [still]
  simp only [if_true]

theorem applied_moves {scaleUp : Bool} (direction : decide (p.currentDesired < held r p) = scaleUp)
    (moves : held r p ≠ p.currentDesired) :
    applied r p = if scaleUp then min (held r p) (rateLimit r p scaleUp) else max (held r p) (rateLimit r p scaleUp) := by
  have toward : (if scaleUp then min (held r p) p.currentDesired else max (held r p) p.currentDesired) = p.currentDesired := by
    cases scaleUp with
    | true => exact min_eq_right (of_decide_eq_true direction).le
    | false => exact max_eq_right (not_lt.mp (of_decide_eq_false direction))
  unfold applied applyRatePolicy rateLimit
  simp only [direction, if_neg moves]
  generalize (if scaleUp then p.scaleUp else p.scaleDown) = rules
  by_cases disabled : (rules.bind HPAScalingRules.selectPolicy) = some "Disabled"
  · rw [if_pos disabled, if_pos disabled]
    exact toward.symm
  · rw [if_neg disabled, if_neg disabled]
    cases selectedLimit p.currentDesired scaleUp rules p.now ((r.state.scaleEvents.get p.key).getD []) with
    | none => exact toward.symm
    | some selected => rfl

theorem applied_lowers (below : held r p < p.currentDesired) : applied r p = max (held r p) (rateLimit r p false) :=
  applied_moves (decide_eq_false below.asymm) below.ne

theorem applied_raises (above : p.currentDesired < held r p) : applied r p = min (held r p) (rateLimit r p true) :=
  applied_moves (decide_eq_true above) above.ne'

/-! ## One pass -/

theorem stabilizes_iff_keepsEnough (label : Step) : Stabilizes r label <-> KeepsEnough r label := by
  cases label with
  | deleted key => exact Iff.rfl
  | pass p =>
    cases evaluates : p.evaluates with
    | false =>
      constructor
      · exact fun _ contradiction => absurd (evaluates.symm.trans contradiction) Bool.false_ne_true
      · intro _ d decided
        rw [reconcileHpa_bails evaluates] at decided
        cases decided
    | true =>
      have decision := @reconcileHpa_decision r p evaluates
      rcases lt_trichotomy p.recommendation p.currentDesired with below | same | above
      · have exact_ := @respects_iff_wellKept _ _ {x | x ∈ keptSamples r p} {x | x ∈ r.within p p.downWindow}
          {x | x ∈ r.within p p.upWindow} _ _ _ _ _ below (held_greatest below) applied_still applied_lowers
        constructor
        · intro every _
          rcases every _ decision with ⟨lowers, raises, least, most⟩
          rw [min_eq_left below.le] at least
          rw [max_eq_right below.le] at most
          rcases exact_.mp ⟨fun less x listed => lowers less x (List.mem_cons.mpr listed),
            fun more x listed => raises more x (List.mem_cons.mpr listed), least, most⟩ with ⟨inside, enough⟩
          refine ⟨fun _ => ⟨inside, enough.imp_right (And.imp_right (Or.imp_right fun bounded x listed => ?_))⟩,
            fun above => absurd above below.asymm⟩
          rcases bounded x listed with ⟨y, bounds, less⟩
          exact ⟨y, List.mem_cons.mpr (bounds.imp_right List.mem_cons.mpr), less⟩
        · intro keeps d decided
          rw [decision] at decided
          cases decided
          rcases (keeps evaluates).1 below with ⟨inside, enough⟩
          rcases exact_.mpr ⟨inside, enough.imp_right (And.imp_right (Or.imp_right fun bounded x listed =>
            let ⟨y, bounds, less⟩ := bounded x listed
            ⟨y, (List.mem_cons.mp bounds).imp_right List.mem_cons.mp, less⟩))⟩ with ⟨lowers, raises, least, most⟩
          rw [min_eq_left below.le, max_eq_right below.le]
          exact ⟨fun less x listed => lowers less x (List.mem_cons.mp listed),
            fun more x listed => raises more x (List.mem_cons.mp listed), least, most⟩
      · constructor
        · exact fun _ _ => ⟨fun below => absurd same below.ne, fun above => absurd same above.ne'⟩
        · intro _ d decided
          rw [decision] at decided
          cases decided
          rw [applied_still (held_self same), held_self same, same, min_self, max_self]
          exact ⟨fun less => absurd less (lt_irrefl _), fun more => absurd more (lt_irrefl _), le_refl _, le_refl _⟩
      · have exact_ := @respects_iff_wellKept_dual _ _ {x | x ∈ keptSamples r p} {x | x ∈ r.within p p.upWindow}
          {x | x ∈ r.within p p.downWindow} _ _ _ _ _ above (held_least above) applied_still applied_raises
        constructor
        · intro every _
          rcases every _ decision with ⟨lowers, raises, least, most⟩
          rw [min_eq_right above.le] at least
          rw [max_eq_left above.le] at most
          rcases exact_.mp ⟨fun more x listed => raises more x (List.mem_cons.mpr listed),
            fun less x listed => lowers less x (List.mem_cons.mpr listed), most, least⟩ with ⟨inside, enough⟩
          refine ⟨fun below => absurd above below.asymm,
            fun _ => ⟨inside, enough.imp_right (And.imp_right (Or.imp_right fun bounded x listed => ?_))⟩⟩
          rcases bounded x listed with ⟨y, bounds, less⟩
          exact ⟨y, List.mem_cons.mpr (bounds.imp_right List.mem_cons.mpr), less⟩
        · intro keeps d decided
          rw [decision] at decided
          cases decided
          rcases (keeps evaluates).2 above with ⟨inside, enough⟩
          rcases exact_.mpr ⟨inside, enough.imp_right (And.imp_right (Or.imp_right fun bounded x listed =>
            let ⟨y, bounds, less⟩ := bounded x listed
            ⟨y, (List.mem_cons.mp bounds).imp_right List.mem_cons.mp, less⟩))⟩ with ⟨raises, lowers, most, least⟩
          rw [min_eq_right above.le, max_eq_left above.le]
          exact ⟨fun less x listed => lowers less x (List.mem_cons.mp listed),
            fun more x listed => raises more x (List.mem_cons.mp listed), least, most⟩

end

/-! ## Runs -/

private def bounded100 : HPASpec :=
  ⟨none, 100, none⟩

private def measured (current recommendation second : Int) : Step :=
  .pass ⟨"default/web", bounded100, current, false, [recommendation], false, fromSecs second.toNat, true⟩

/-- One reading of 100 scales one replica to five.  Fifteen seconds later
three are recommended, and the pass scales to ten. -/
private def spike : List Step :=
  [measured 1 100 0, measured 5 3 15]

/-- Ten are recommended.  Somebody sets eight, a pass that recommends eight
drops the sample, somebody sets nine, and a pass that recommends three lowers
the count to eight. -/
private def droppedSample : List Step :=
  [measured 10 10 0, measured 8 8 15, measured 9 3 30]

end Autoscaler
end NotK8s.Controllers

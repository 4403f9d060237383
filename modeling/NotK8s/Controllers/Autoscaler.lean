import Mathlib.Data.String.Basic
import NotK8s.Library.SortedMap
import NotK8s.Library.Settling
import NotK8s.Library.Integers
import NotK8s.Library.Run

namespace NotK8s.Controllers
namespace Autoscaler

open Library

/-!
# The HorizontalPodAutoscaler controller

A pass computes a recommendation, holds it back by the recommendations it
keeps of the HPA, limits what is left by the scaling policies, and writes the
result.  Both directions share one list of samples, and each pass trims the
list with the window of its own direction.
-/

/-! ## Objects -/

structure HPAScalingPolicy where
  type : String
  value : Int
  periodSeconds : Int

structure HPAScalingRules where
  policies : Option (List HPAScalingPolicy)
  selectPolicy : Option String
  stabilizationWindowSeconds : Option Int

structure HPABehavior where
  scaleUp : Option HPAScalingRules
  scaleDown : Option HPAScalingRules

structure HPASpec where
  minReplicas : Option Int
  maxReplicas : Int
  behavior : Option HPABehavior

/-- A time is a number of nanoseconds. -/
structure ScaleEvent where
  time : Nat
  old : Int
  new : Int
  deriving DecidableEq

abbrev Samples :=
  SortedMap String (List (Nat × Int))

def fromSecs (seconds : Nat) : Nat :=
  seconds * 1000000000

/-! ## Stabilisation -/

def recent (window now : Nat) (samples : List (Nat × Int)) : List (Nat × Int) :=
  samples.filter fun sample => now - sample.1 < window

/-- The samples a pass starts from.  The first one of an HPA is seeded with
the current count before a scale-down. -/
def seeded (key : String) (current recommendation : Int) (window now : Nat) (history : Samples) : List (Nat × Int) :=
  let firstRecommendation := (history.get key).isNone
  let samples := recent window now ((history.get key).getD [])
  if firstRecommendation ∧ recommendation < current then samples ++ [(now, current)] else samples

def stabilizedRecommendation (key : String) (current recommendation : Int) (window now : Nat) (history : Samples) :
    Int × Samples :=
  let samples := seeded key current recommendation window now history ++ [(now, recommendation)]
  let replicas := samples.map Prod.snd
  (if recommendation < current then replicas.max?.getD recommendation
    else if current < recommendation then replicas.min?.getD recommendation
    else recommendation,
    history.insert key samples)

/-! ## Scaling policies -/

def saturating32 (n : Int) : Int :=
  max (-2 ^ 31) (min n (2 ^ 31 - 1))

def defaultPolicies (scaleUp : Bool) : List HPAScalingPolicy :=
  if scaleUp then [⟨"Pods", 4, 15⟩, ⟨"Percent", 100, 15⟩] else [⟨"Percent", 100, 15⟩]

def policiesOf (scaleUp : Bool) (rules : Option HPAScalingRules) : List HPAScalingPolicy :=
  ((rules.bind HPAScalingRules.policies).filter fun policies => !policies.isEmpty).getD (defaultPolicies scaleUp)

def policyLimit (current : Int) (scaleUp : Bool) (now : Nat) (events : List ScaleEvent) (policy : HPAScalingPolicy) :
    Option Int :=
  if policy.periodSeconds ≤ 0 ∨ policy.value ≤ 0 then none
  else
    let period := fromSecs policy.periodSeconds.toNat
    let recentDelta := wrappedSum 32 ((events.filter fun event => now - event.time < period).map
      fun event => wrapped 32 (event.new - event.old))
    let baseline := max (saturating32 (current - recentDelta)) 0
    match scaleUp, policy.type with
    | true, "Pods" => some (saturating32 (baseline + policy.value))
    | true, "Percent" => some (max 0 (min ((baseline * (100 + policy.value) + 99).tdiv 100) (2 ^ 31 - 1)))
    | false, "Pods" => some (max (saturating32 (baseline - policy.value)) 0)
    | false, "Percent" => some (max 0 (min ((baseline * (100 - policy.value)).tdiv 100) (2 ^ 31 - 1)))
    | _, _ => none

/-- The events a pass starts from: none after somebody else changed the
count, and none older than half an hour. -/
def currentEvents (current : Int) (now : Nat) (events : List ScaleEvent) : List ScaleEvent :=
  let events := if events.getLast?.any fun event => event.new ≠ current then [] else events
  events.filter fun event => now - event.time < fromSecs 1800

/-- The limit the policies set, when one does. -/
def selectedLimit (current : Int) (scaleUp : Bool) (rules : Option HPAScalingRules) (now : Nat) (events : List ScaleEvent) :
    Option Int :=
  let limits := (policiesOf scaleUp rules).filterMap (policyLimit current scaleUp now (currentEvents current now events))
  if (rules.bind HPAScalingRules.selectPolicy) = some "Min" then limits.min? else limits.max?

def applyRatePolicy (current desired : Int) (scaleUp : Bool) (rules : Option HPAScalingRules) (now : Nat)
    (history : SortedMap String (List ScaleEvent)) (key : String) : (Int × Bool) × SortedMap String (List ScaleEvent) :=
  if desired = current then ((desired, false), history)
  else if (rules.bind HPAScalingRules.selectPolicy) = some "Disabled" then ((current, true), history)
  else
    let events := (history.get key).getD []
    let history := history.insert key (currentEvents current now events)
    match selectedLimit current scaleUp rules now events with
    | none => ((current, true), history)
    | some selected =>
      let limited := if scaleUp then min desired selected else max desired selected
      ((limited, decide (limited ≠ desired)), history)

/-! ## Passes -/

structure State where
  recommendations : Samples
  scaleEvents : SortedMap String (List ScaleEvent)

/-- One reconciliation of an HPA, with what it reads: the replica count of the
Scale, whether the HPA owns a count of zero, the counts the metrics ask for,
whether a metric failed, the time, and whether the Scale write succeeds. -/
structure Pass where
  key : String
  spec : HPASpec
  currentDesired : Int
  scaledToZero : Bool
  metricRecommendations : List Int
  metricError : Bool
  now : Nat
  patched : Bool

def Pass.scaleDown (p : Pass) : Option HPAScalingRules :=
  p.spec.behavior.bind HPABehavior.scaleDown

def Pass.scaleUp (p : Pass) : Option HPAScalingRules :=
  p.spec.behavior.bind HPABehavior.scaleUp

/-- The pass gets as far as a recommendation. -/
def Pass.evaluates (p : Pass) : Bool :=
  !(p.currentDesired == 0 && !p.scaledToZero) && !p.metricRecommendations.isEmpty

/-- The recommendation within the bounds, held by a failed metric. -/
def Pass.recommendation (p : Pass) : Int :=
  let minimum := p.spec.minReplicas.getD 1
  let recommendation := p.metricRecommendations.max?.getD p.currentDesired
  let desired := max minimum (min recommendation (max p.spec.maxReplicas minimum))
  if p.metricError ∧ desired < p.currentDesired then p.currentDesired else desired

def Pass.downWindow (p : Pass) : Nat :=
  fromSecs (((p.scaleDown.bind HPAScalingRules.stabilizationWindowSeconds).map Int.toNat).getD 300)

def Pass.upWindow (p : Pass) : Nat :=
  fromSecs (((p.scaleUp.bind HPAScalingRules.stabilizationWindowSeconds).map Int.toNat).getD 0)

def Pass.stabilizationWindow (p : Pass) : Nat :=
  if p.recommendation < p.currentDesired then p.downWindow
  else if p.currentDesired < p.recommendation then p.upWindow
  else 0

structure Decision where
  recommendation : Int
  stabilized : Int
  desired : Int
  deriving DecidableEq

def reconcileHpa (s : State) (p : Pass) : Option Decision × State :=
  if p.evaluates then
    let (stabilized, recommendations) :=
      stabilizedRecommendation p.key p.currentDesired p.recommendation p.stabilizationWindow p.now s.recommendations
    let scaleUp := decide (p.currentDesired < stabilized)
    let rules := if scaleUp then p.scaleUp else p.scaleDown
    let ((desired, _), scaleEvents) := applyRatePolicy p.currentDesired stabilized scaleUp rules p.now s.scaleEvents p.key
    let pushed := (scaleEvents.get p.key).getD [] ++ [⟨p.now, p.currentDesired, desired⟩]
    (some ⟨p.recommendation, stabilized, desired⟩,
      { recommendations := recommendations
        scaleEvents :=
          if desired ≠ p.currentDesired ∧ p.patched = true then scaleEvents.insert p.key pushed else scaleEvents })
  else (none, s)

end Autoscaler
end NotK8s.Controllers

import Mathlib.Data.String.Basic
import NotK8s.Library.SortedMap
import NotK8s.Controllers.TimingWheel

namespace NotK8s.Controllers
namespace NodeLifecycle

open Library

/-!
# The node-lifecycle controller

Nodes get a taint when their heartbeat Lease is not renewed in time.  Each
renewal schedules a look at the Node in the timing wheel, one grace period
later.  Node events, Lease events and wheel ticks all decide the taint from the
same cache, and each may patch the Node.  Times are in seconds.
-/

/-! ## Taints -/

structure Taint where
  key : String
  effect : String
  value : Option String
  timeAdded : Option Int
  deriving DecidableEq

def notReadyTaintKey : String := "node.kubernetes.io/not-ready"

def unreachableTaintKey : String := "node.kubernetes.io/unreachable"

def noExecute : String := "NoExecute"

inductive LifecycleTaint where
  | none
  | notReady
  | unreachable
  deriving DecidableEq

def desiredTaint (readyStatus : Option String) (leaseStale : Bool) : LifecycleTaint :=
  if leaseStale then .unreachable
  else if readyStatus = some "False" then .notReady
  else .none

def currentLifecycleTaint (taints : List Taint) : LifecycleTaint :=
  if taints.any fun t => t.key == unreachableTaintKey then .unreachable
  else if taints.any fun t => t.key == notReadyTaintKey then .notReady
  else .none

def isLifecycleTaint (t : Taint) : Bool :=
  t.key == notReadyTaintKey || t.key == unreachableTaintKey

def applyDesiredTaint (existing : List Taint) (desired : LifecycleTaint) : List Taint :=
  let kept := existing.filter fun t => !isLifecycleTaint t
  match desired with
  | .none => kept
  | .notReady => kept ++ [⟨notReadyTaintKey, noExecute, none, none⟩]
  | .unreachable => kept ++ [⟨unreachableTaintKey, noExecute, none, none⟩]

/-! ## Nodes -/

structure NodeCondition where
  type_ : String
  status : String
  deriving DecidableEq

/-- A Node without a spec or without taints has none. -/
structure Node where
  name : String
  taints : List Taint
  conditions : List NodeCondition
  deriving DecidableEq

def readyConditionStatus (node : Node) : Option String :=
  (node.conditions.find? fun c => c.type_ == "Ready").map NodeCondition.status

/-- What to patch the taints to, if they are not right. -/
def newTaints (node : Node) (readyStatus : Option String) (leaseStale : Bool) : Option (List Taint) :=
  let desired := desiredTaint readyStatus leaseStale
  if currentLifecycleTaint node.taints = desired then none else some (applyDesiredTaint node.taints desired)

structure NodeLiveness where
  node : Node
  readyStatus : Option String
  lastRenew : Option ℚ

/-- The lifecycle taints are those of the cache, whatever the event says. -/
def mergeCachedLifecycleTaints (node : Node) (cached : Option Node) : Node :=
  match cached with
  | none => node
  | some cached =>
    { node with taints := (node.taints.filter fun t => !isLifecycleTaint t) ++ cached.taints.filter isLifecycleTaint }

abbrev Cache := SortedMap String NodeLiveness

def updateCachedTaints (cache : Cache) (name : String) (taints : List Taint) : Cache :=
  match cache.get name with
  | none => cache
  | some state => cache.insert name { state with node := { state.node with taints := taints } }

/-! ## Deadlines -/

/-- The grace period is in whole seconds. -/
structure Config where
  nodeMonitorGracePeriod : Nat
  tickPeriod : ℚ
  jitterFraction : ℚ
  tick_pos : 0 < tickPeriod
  jitter_nonneg : 0 ≤ jitterFraction
  jitter_lt_one : jitterFraction < 1

def jitter (interval fraction sample : ℚ) : ℚ :=
  let sample := max (-1) (min sample 1)
  let fraction := max 0 (min fraction 1)
  let delta := interval * fraction * sample
  max (interval + delta) 0

def wallToInstant (targetWall nowWall nowInstant : ℚ) : ℚ :=
  let delta := targetWall - nowWall
  if 0 ≤ delta then nowInstant + delta else nowInstant - (-delta)

/-- The random sample and the fraction come in the order `jitter` takes them. -/
def insertJittered (wheel : TimingWheel String) (key : String) (baseDeadline interval jitterFraction sample : ℚ) :
    Except InsertError (TimingWheel String) :=
  let jittered := jitter interval jitterFraction sample
  let delta := jittered - interval
  let deadline := if 0 ≤ delta then baseDeadline + delta else baseDeadline - (-delta)
  wheel.insert key deadline

def renewalIsStale (lastRenew : Option ℚ) (now : ℚ) (gracePeriod : Nat) (jitterFraction : ℚ) : Bool :=
  match lastRenew with
  | none => false
  | some renew => decide (gracePeriod * max (1 - jitterFraction) 0 ≤ now - renew)

namespace Config

def isStale (cfg : Config) (cache : Cache) (name : String) (now : ℚ) : Bool :=
  renewalIsStale ((cache.get name).bind NodeLiveness.lastRenew) now cfg.nodeMonitorGracePeriod cfg.jitterFraction

def horizon (cfg : Config) : ℚ :=
  cfg.nodeMonitorGracePeriod * (1 + cfg.jitterFraction) + cfg.tickPeriod

def slotCount (cfg : Config) : Nat :=
  max (Nat.floor (cfg.horizon / cfg.tickPeriod)) 1 + 1

/-- The look that a renewal schedules.  The caller passes the sample as the
fraction and the fraction as the sample. -/
def schedule (cfg : Config) (wheel : TimingWheel String) (name : String) (renew sample nowWall nowInstant : ℚ) :
    Except InsertError (TimingWheel String) :=
  let deadlineWall := renew + cfg.nodeMonitorGracePeriod
  let deadlineInstant := wallToInstant deadlineWall nowWall nowInstant
  insertJittered wheel name deadlineInstant cfg.nodeMonitorGracePeriod sample cfg.jitterFraction

end Config

/-! ## The controller and the API server -/

/-- The system clock and the monotonic clock, read together. -/
structure Clock where
  wall : ℚ
  instant : ℚ

/-- `api` has the taints of the Nodes there are, and `seen` the renewTime of
the last Lease seen for each name. -/
structure World where
  cfg : Config
  cache : Cache
  wheel : TimingWheel String
  api : SortedMap String (List Taint)
  seen : SortedMap String ℚ
  clock : Clock

/-- How a patch ends: a lost one is carried out and answered with an error. -/
inductive Outcome where
  | ok
  | failed
  | lost
  deriving DecidableEq

inductive Event where
  | nodeApply (node : Node) (clock : Clock) (outcome : Outcome)
  | nodeDelete (name : String)
  | leaseApply (name : String) (renewTime : Option ℚ) (sample : ℚ) (clock : Clock) (outcome : Outcome)
  | leaseDelete (name : String)
  | tick (clock : Clock) (outcomes : String -> Outcome)
  | write (name : String) (taints : Option (List Taint))

namespace World

def start (cfg : Config) (api : SortedMap String (List Taint)) (clock : Clock) : World where
  cfg := cfg
  cache := .empty
  wheel := .new cfg.slotCount cfg.tickPeriod clock.instant
  api := api
  seen := .empty
  clock := clock

def patch (w : World) (name : String) (taints : List Taint) (outcome : Outcome) : World :=
  match w.api.get name, outcome with
  | none, _ => w
  | some _, .ok => { w with api := w.api.insert name taints, cache := updateCachedTaints w.cache name taints }
  | some _, .failed => w
  | some _, .lost => { w with api := w.api.insert name taints }

def reconcile (w : World) (name : String) (node : Node) (readyStatus : Option String) (leaseStale : Bool)
    (outcome : Outcome) : World :=
  match newTaints node readyStatus leaseStale with
  | none => w
  | some taints => w.patch name taints outcome

def handleNode (w : World) (node : Node) (outcome : Outcome) : World :=
  let name := node.name
  let status := readyConditionStatus node
  let stale := w.cfg.isStale w.cache name w.clock.wall
  let node := mergeCachedLifecycleTaints node ((w.cache.get name).map NodeLiveness.node)
  let entry : NodeLiveness :=
    { node := node, readyStatus := status, lastRenew := (w.cache.get name).bind NodeLiveness.lastRenew }
  { w with cache := w.cache.insert name entry }.reconcile name node status stale outcome

/-- A look that the wheel refuses is dropped. -/
def scheduled (w : World) (name : String) (renewTime : Option ℚ) (sample : ℚ) : TimingWheel String :=
  match renewTime with
  | none => w.wheel
  | some renew =>
    match w.cfg.schedule w.wheel name renew sample w.clock.wall w.clock.instant with
    | .ok wheel => wheel
    | .error _ => w.wheel

def seeing (w : World) (name : String) (renewTime : Option ℚ) : SortedMap String ℚ :=
  match renewTime with
  | none => w.seen.erase name
  | some renew => w.seen.insert name renew

def handleLease (w : World) (name : String) (renewTime : Option ℚ) (sample : ℚ) (outcome : Outcome) : World :=
  let w := { w with wheel := w.scheduled name renewTime sample, seen := w.seeing name renewTime }
  match w.cache.get name with
  | none => w
  | some entry =>
    let cache := w.cache.insert name { entry with lastRenew := renewTime }
    let leaseStale := w.cfg.isStale cache name w.clock.wall
    { w with cache := cache }.reconcile name entry.node entry.readyStatus leaseStale outcome

/-- A due Node is looked at again. -/
def recheck (w : World) (name : String) (outcome : Outcome) : World :=
  match w.cache.get name with
  | none => w
  | some state =>
    if w.cfg.isStale w.cache name w.clock.wall then w.reconcile name state.node state.readyStatus true outcome
    else w

def handleTick (w : World) (outcomes : String -> Outcome) : World :=
  let (wheel, due) := w.wheel.advance w.clock.instant
  due.foldl (fun w name => w.recheck name (outcomes name)) { w with wheel := wheel }

/-- `write` is for the Node's other clients. -/
def act (w : World) : Event -> World
  | .nodeApply node clock outcome => { w with clock := clock }.handleNode node outcome
  | .nodeDelete name => { w with cache := w.cache.erase name, wheel := w.wheel.cancel name }
  | .leaseApply name renewTime sample clock outcome => { w with clock := clock }.handleLease name renewTime sample outcome
  | .leaseDelete _ => w
  | .tick clock outcomes => { w with clock := clock }.handleTick outcomes
  | .write name taints =>
    match taints with
    | none => { w with api := w.api.erase name }
    | some taints => { w with api := w.api.insert name taints }

end World
end NodeLifecycle
end NotK8s.Controllers

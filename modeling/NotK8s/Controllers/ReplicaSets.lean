import Mathlib.Data.Finset.Card
import Mathlib.Data.Prod.Lex
import NotK8s.Controllers.Workloads

namespace NotK8s.Controllers
namespace ReplicaSets

open Library

/-!
# The ReplicaSet controller

A Pod that was created is expected until an informer event names it, for half
a minute at most, and counts as existing while it is expected.
-/

/-- A ReplicaSet with what is read of it beside its counts. -/
structure ManagedReplicaSet extends ReplicaSet where
  uid : Option String
  template : Option PodTemplate

instance : Resource ManagedReplicaSet where
  namespaceOf rs := rs.inNamespace
  nameAny rs := rs.name

def creationExpectationTimeout : Nat :=
  30

/-- Names asked for, and when the first of them was. -/
structure PendingCreates where
  names : Finset String
  oldest : Nat

abbrev Expectations :=
  SortedMap (String ×ₗ String) PendingCreates

def podsToCreate (desired : Int) (current : Nat) : Int :=
  max (i32 (desired - i32 current)) 0

def podsToDeleteCount (desired : Int) (current : Nat) : Nat :=
  (max (i32 (i32 current - desired)) 0).toNat

structure DeletionCandidate where
  name : String
  ready : Bool

/-- Pods that are not ready come first, then the name decides. -/
def DeletionCandidate.before (a b : DeletionCandidate) : Prop :=
  a.ready < b.ready ∨ a.ready = b.ready ∧ a.name ≤ b.name

instance : DecidableRel DeletionCandidate.before := fun a b =>
  inferInstanceAs (Decidable (a.ready < b.ready ∨ a.ready = b.ready ∧ a.name ≤ b.name))

def podsToDelete (candidates : List DeletionCandidate) (excess : Nat) : List String :=
  ((candidates.insertionSort DeletionCandidate.before).take excess).map DeletionCandidate.name

def owningReplicaset (pod : Pod) : Option String :=
  (pod.ownerReferences.find? fun o => o.controller == some true && o.kind == "ReplicaSet").map PodOwner.name

def notePodEvent (expectations : Expectations) (pod : Pod) : Expectations :=
  match owningReplicaset pod with
  | none => expectations
  | some rsName =>
    let key := toLex (nsOf pod, rsName)
    match expectations.get key with
    | none => expectations
    | some pending =>
      let names := pending.names.erase pod.name
      if names = ∅ then expectations.erase key else expectations.insert key { pending with names := names }

def ownerReference (rs : ManagedReplicaSet) : PodOwner where
  kind := "ReplicaSet"
  name := rs.name
  uid := rs.uid.getD ""
  controller := some true

def buildPod (rs : ManagedReplicaSet) (name : String) : Option Pod :=
  rs.template.map fun template =>
    { inNamespace := rs.inNamespace
      name := name
      deletionTimestamp := none
      ownerReferences := [ownerReference rs]
      podTemplateHash := template.podTemplateHash
      phase := none
      conditions := [] }

/-! ## One pass -/

inductive Reply where
  | ok
  | failed
  deriving DecidableEq

/-- What the clock and the API say during a pass.  Requests are counted from
the start of the pass; the one that is not answered is where the pass timed
out. -/
structure Choice where
  now : Nat
  suffix : Nat -> String
  reply : Nat -> Option Reply
  replyTime : Nat -> Nat
  statusReply : Option Reply

/-- A pass so far. -/
structure Progress where
  writes : List PodWrite
  expectations : Expectations
  needsRetry : Bool
  timedOut : Bool

def expectationKey (rs : ManagedReplicaSet) : String ×ₗ String :=
  toLex (nsOf rs, rs.name)

/-- An expectation that is too old is dropped. -/
def unexpired (rs : ManagedReplicaSet) (expectations : Expectations) (now : Nat) : Expectations :=
  if (expectations.get (expectationKey rs)).any fun pending => creationExpectationTimeout ≤ now - pending.oldest then
    expectations.erase (expectationKey rs)
  else expectations

def inFlight (rs : ManagedReplicaSet) (expectations : Expectations) : Nat :=
  ((expectations.get (expectationKey rs)).map fun pending => pending.names.card).getD 0

def expectPod (rs : ManagedReplicaSet) (podName : String) (now : Nat) (expectations : Expectations) : Expectations :=
  let pending := (expectations.get (expectationKey rs)).getD ⟨∅, now⟩
  expectations.insert (expectationKey rs) { pending with names := insert podName pending.names }

def Progress.asked (progress : Progress) (write : PodWrite) : Progress :=
  { progress with writes := progress.writes ++ [write] }

def createPods (rs : ManagedReplicaSet) (choice : Choice) : Nat -> Progress -> Progress
  | 0, progress => progress
  | remaining + 1, progress =>
    let request := progress.writes.length
    let podName := rs.name ++ "-" ++ choice.suffix request
    match buildPod rs podName with
    | none => progress
    | some pod =>
      let asked := progress.asked (.create pod)
      match choice.reply request with
      | none => { asked with timedOut := true }
      | some .ok =>
        createPods rs choice remaining
          { asked with expectations := expectPod rs podName (choice.replyTime request) asked.expectations }
      | some .failed => createPods rs choice remaining { asked with needsRetry := true }

def deletePods (choice : Choice) : List String -> Progress -> Progress
  | [], progress => progress
  | podName :: rest, progress =>
    let asked := progress.asked (.delete podName)
    match choice.reply progress.writes.length with
    | none => { asked with timedOut := true }
    | some .ok => deletePods choice rest asked
    | some .failed => deletePods choice rest { asked with needsRetry := true }

def desiredPods (rs : ManagedReplicaSet) : Int :=
  rs.replicas.getD 1

def toCreate (rs : ManagedReplicaSet) (uid : String) (podCache : SortedMap String Pod) (expectations : Expectations)
    (now : Nat) : Nat :=
  (podsToCreate (desiredPods rs)
    ((live (ownedPods (nsOf rs) uid podCache)).length + inFlight rs (unexpired rs expectations now))).toNat

def toDelete (rs : ManagedReplicaSet) (uid : String) (podCache : SortedMap String Pod) : List String :=
  let alive := live (ownedPods (nsOf rs) uid podCache)
  podsToDelete (alive.map fun pod => ⟨pod.name, pod.ready⟩) (podsToDeleteCount (desiredPods rs) alive.length)

def replicaSetStatus (owned : List Pod) : ReplicaSetStatus :=
  let ready := i32 (owned.countP Pod.ready)
  { replicas := i32 owned.length
    readyReplicas := some ready
    availableReplicas := some ready }

/-- A pass that timed out is retried and requests nothing more. -/
def reconcileReplicaSet (rs : ManagedReplicaSet) (podCache : SortedMap String Pod) (expectations : Expectations)
    (choice : Choice) : Pass Expectations :=
  match rs.uid with
  | none => ⟨[], expectations, false⟩
  | some uid =>
    let created := createPods rs choice (toCreate rs uid podCache expectations choice.now)
      ⟨[], unexpired rs expectations choice.now, false, false⟩
    if created.timedOut then ⟨created.writes, created.expectations, true⟩
    else
      let deleted := deletePods choice (toDelete rs uid podCache) created
      if deleted.timedOut then ⟨deleted.writes, deleted.expectations, true⟩
      else
        let statusFailed := rs.status != some (replicaSetStatus (ownedPods (nsOf rs) uid podCache)) &&
          choice.statusReply != some .ok
        ⟨deleted.writes, deleted.expectations, deleted.needsRetry || statusFailed⟩

/-- The counts ask for a Pod more or fewer. -/
def wants (rs : ManagedReplicaSet) (podCache : SortedMap String Pod) (expectations : Expectations) (choice : Choice) : Bool :=
  rs.uid.any fun uid => 0 < toCreate rs uid podCache expectations choice.now || !(toDelete rs uid podCache).isEmpty

theorem idle (rs : ManagedReplicaSet) (podCache : SortedMap String Pod) (expectations : Expectations) (choice : Choice)
    (unwanted : wants rs podCache expectations choice = false) :
    (reconcileReplicaSet rs podCache expectations choice).writes = [] := by
  unfold reconcileReplicaSet
  unfold wants at unwanted
  cases known : rs.uid with
  | none => rfl
  | some uid =>
    rw [known, Option.any_some, Bool.or_eq_false_iff, decide_eq_false_iff_not, Nat.not_lt, Nat.le_zero,
      Bool.not_eq_false', List.isEmpty_iff] at unwanted
    rcases unwanted with ⟨enough, few⟩
    simp only [enough, few, createPods, deletePods, Bool.false_eq_true, if_false]

/-! ## The loop -/

def onPodEvent (event : WatchEvent Pod) (expectations : Expectations) : Expectations :=
  match event with
  | .apply pod | .initApply pod | .delete pod => notePodEvent expectations pod
  | .init => .empty
  | .initDone => expectations

def onReplicaSetEvent (event : WatchEvent ManagedReplicaSet) (expectations : Expectations) : Expectations :=
  match event with
  | .init => .empty
  | .delete rs => expectations.erase (expectationKey rs)
  | _ => expectations

def controller : WorkloadController ManagedReplicaSet Expectations Empty Choice where
  clearsOnInit := true
  initial := .empty
  onPod := onPodEvent
  onOwn := onReplicaSetEvent
  onOther := fun event _ => event.elim
  otherNamespace := fun _ => none
  wants := wants
  reconcile := reconcileReplicaSet
  idle := idle

end ReplicaSets
end NotK8s.Controllers

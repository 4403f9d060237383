import NotK8s.Controllers.Workloads

namespace NotK8s.Controllers
namespace Jobs

open Library

/-!
# The Job controller

A Pod is created under the next number that no Pod of the namespace uses.  A
name that turns out to be taken by somebody else's Pod is skipped.
-/

structure JobSpec where
  parallelism : Option Int
  completions : Option Int
  backoffLimit : Option Int
  suspend : Option Bool
  completionMode : Option String
  managedBy : Option String

def JobSpec.default : JobSpec where
  parallelism := none
  completions := none
  backoffLimit := none
  suspend := none
  completionMode := none
  managedBy := none

structure Job where
  inNamespace : Option String
  name : String
  uid : Option String
  spec : Option JobSpec
  conditions : List PodCondition

instance : Resource Job where
  namespaceOf := Job.inNamespace
  nameAny := Job.name

def reservedManagedBy : String :=
  "kubernetes.io/job-controller"

def podsToCreate (parallelism : Int) (completions : Option Int) (active succeeded : Int) : Int :=
  let room := max (i32 (parallelism - active)) 0
  match completions with
  | some completions => max (min room (max (i32 (i32 (completions - succeeded) - active)) 0)) 0
  | none => max room 0

inductive JobOutcome where
  | complete
  | failed

def jobOutcome (succeeded failed : Int) (completions : Option Int) (backoffLimit : Int) : Option JobOutcome :=
  let targetMet :=
    match completions with
    | some c => decide (c ≤ succeeded)
    | none => decide (1 ≤ succeeded)
  if targetMet then some .complete else if backoffLimit < failed then some .failed else none

def ownerReference (job : Job) : PodOwner where
  kind := "Job"
  name := job.name
  uid := job.uid.getD ""
  controller := some true

def buildPod (job : Job) (name : String) : Pod where
  inNamespace := job.inNamespace
  name := name
  deletionTimestamp := none
  ownerReferences := [ownerReference job]
  podTemplateHash := none
  phase := none
  conditions := []

def nextPodSuffix (podCache : SortedMap String Pod) (inNamespace jobName : String) : Int :=
  let suffixes := ((podCache.entries.map Prod.snd).filter fun pod => pod.inNamespace == some inNamespace).filterMap fun pod =>
    ((jobName.toList ++ ['-']).isPrefixOf? pod.name.toList).bind parseI32
  (suffixes.max?.map fun largest => i32 (largest + 1)).getD 0

def skipJob (job : Job) : Bool :=
  let indexed := job.spec.bind JobSpec.completionMode == some "Indexed"
  let foreignManager := (job.spec.bind JobSpec.managedBy).any fun m => m != reservedManagedBy
  indexed || foreignManager

/-! ## One pass -/

/-- What the API says about a Pod to create, and about the Pod that holds its
name. -/
inductive Reply where
  | created
  | alreadyExists (existing : Option Pod)
  | unreadable
  | failed

/-- Whether the loop goes on to the next Pod, and not to the next name. -/
def Reply.settles (uid : String) : Reply -> Bool
  | .alreadyExists existing => existing.any (Pod.ownedBy · uid)
  | _ => true

/-- A pass waits for a reply that does not come. -/
def createPods (job : Job) (uid : String) : Nat -> Int -> List Reply -> List PodWrite
  | 0, _, _ => []
  | _ + 1, candidate, [] => [.create (buildPod job (job.name ++ "-" ++ toString candidate))]
  | remaining + 1, candidate, reply :: replies =>
    .create (buildPod job (job.name ++ "-" ++ toString candidate)) ::
      createPods job uid (if reply.settles uid then remaining else remaining + 1) (i32 (candidate + 1)) replies

def isTerminalPhase (pod : Pod) : Bool :=
  pod.phase == some "Succeeded" || pod.phase == some "Failed"

/-- What a pass counts. -/
structure Tallies where
  owned : List Pod
  succeeded : Int
  failed : Int
  active : Int

def tallies (job : Job) (uid : String) (podCache : SortedMap String Pod) : Tallies :=
  let owned := ownedPods (nsOf job) uid podCache
  { owned := owned
    succeeded := i32 (owned.countP fun pod => pod.phase == some "Succeeded")
    failed := i32 (owned.countP fun pod => pod.phase == some "Failed")
    active := i32 ((live owned).countP fun pod => !isTerminalPhase pod) }

def alreadyTerminal (job : Job) : Bool :=
  job.conditions.any fun c => (c.type == "Complete" || c.type == "Failed") && c.status == "True"

def spec (job : Job) : JobSpec :=
  job.spec.getD .default

def isSuspended (job : Job) : Bool :=
  (spec job).suspend.getD false

def outcome (job : Job) (t : Tallies) : Option JobOutcome :=
  jobOutcome t.succeeded t.failed (spec job).completions ((spec job).backoffLimit.getD 6)

/-- How many Pods are to be created. -/
def toCreate (job : Job) (t : Tallies) : Nat :=
  if (outcome job t).isNone && !isSuspended job && !alreadyTerminal job then
    (podsToCreate ((spec job).parallelism.getD 1) (spec job).completions t.active t.succeeded).toNat
  else 0

/-- The Pods a suspended Job gives up. -/
def toDelete (job : Job) (t : Tallies) : List Pod :=
  if (outcome job t).isNone && !isSuspended job && !alreadyTerminal job then []
  else if isSuspended job && !alreadyTerminal job then (live t.owned).filter fun pod => !isTerminalPhase pod
  else []

def reconcileJob (job : Job) (podCache : SortedMap String Pod) (replies : List Reply) : List PodWrite :=
  if skipJob job then []
  else
    match job.uid with
    | none => []
    | some uid =>
      let t := tallies job uid podCache
      createPods job uid (toCreate job t) (nextPodSuffix podCache (nsOf job) job.name) replies ++
        (toDelete job t).map fun pod => .delete pod.name

/-- The counts ask for a Pod, or a suspended Job still has one. -/
def wants (job : Job) (podCache : SortedMap String Pod) : Bool :=
  !skipJob job && job.uid.any fun uid =>
    let t := tallies job uid podCache
    0 < toCreate job t || !(toDelete job t).isEmpty

theorem idle (job : Job) (podCache : SortedMap String Pod) (replies : List Reply) (unwanted : wants job podCache = false) :
    reconcileJob job podCache replies = [] := by
  unfold reconcileJob
  unfold wants at unwanted
  split_ifs with skipped
  · rfl
  · cases known : job.uid with
    | none => rfl
    | some uid =>
      rw [Bool.eq_false_of_not_eq_true skipped, known, Bool.not_false, Bool.true_and, Option.any_some] at unwanted
      dsimp only at unwanted ⊢
      rw [Bool.or_eq_false_iff, decide_eq_false_iff_not, Nat.not_lt, Nat.le_zero, Bool.not_eq_false',
        List.isEmpty_iff] at unwanted
      rw [unwanted.1, unwanted.2, createPods]
      rfl

/-! ## The loop -/

def controller : WorkloadController Job Unit Empty (List Reply) where
  clearsOnInit := false
  initial := ()
  onPod := fun _ _ => ()
  onOwn := fun _ _ => ()
  onOther := fun _ _ => ()
  otherNamespace := fun _ => none
  wants := fun job podCache _ _ => wants job podCache
  reconcile := fun job podCache _ replies => ⟨reconcileJob job podCache replies, (), false⟩
  idle := fun job podCache _ replies => idle job podCache replies

end Jobs
end NotK8s.Controllers

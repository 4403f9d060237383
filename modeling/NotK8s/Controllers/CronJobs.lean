import NotK8s.Controllers.CronSchedule
import NotK8s.Controllers.Workloads

namespace NotK8s.Controllers
namespace CronJobs

open Library

/-!
# The CronJob controller

A pass creates the Job of the next boundary after the last one it knows of.
The Job is named after the boundary, and the boundary is written back in the
status.  The pass reads the CronJob and its Jobs from caches, and a status
that could not be written is not written again.
-/

/-! ## Objects -/

structure CronJobSpec where
  schedule : String
  suspend : Option Bool
  concurrencyPolicy : Option String
  startingDeadlineSeconds : Option Int
  successfulJobsHistoryLimit : Option Int
  failedJobsHistoryLimit : Option Int
  deriving DecidableEq

def CronJobSpec.default : CronJobSpec where
  schedule := ""
  suspend := none
  concurrencyPolicy := none
  startingDeadlineSeconds := none
  successfulJobsHistoryLimit := none
  failedJobsHistoryLimit := none

/-- Active Jobs are named by their namespace and name. -/
structure CronJobStatus where
  active : Option (List (Option String × String))
  lastScheduleTime : Option Int
  lastSuccessfulTime : Option Int
  deriving DecidableEq

def CronJobStatus.default : CronJobStatus where
  active := none
  lastScheduleTime := none
  lastSuccessfulTime := none

structure CronJob where
  inNamespace : Option String
  name : String
  uid : Option String
  creationTimestamp : Option Int
  spec : Option CronJobSpec
  status : Option CronJobStatus
  deriving DecidableEq

structure Job where
  inNamespace : Option String
  name : String
  ownerReferences : List OwnerReference
  conditions : List PodCondition
  completionTime : Option Int
  deriving DecidableEq

instance : Resource CronJob where
  namespaceOf := CronJob.inNamespace
  nameAny := CronJob.name

instance : Resource Job where
  namespaceOf := Job.inNamespace
  nameAny := Job.name

/-! ## Decisions -/

def withinDeadline (scheduled now : Int) (startingDeadlineSeconds : Option Int) : Bool :=
  startingDeadlineSeconds.all fun s => decide (now - scheduled ≤ max s 0)

def jobsToPrune (terminal : List String) (limit : Int) : List String :=
  if limit ≤ 0 then [] else (terminal.insertionSort (· ≤ ·)).take (terminal.length - limit.toNat)

def CronJobStatus.normalize (status : CronJobStatus) : CronJobStatus :=
  { status with active := status.active.filter fun active => !active.isEmpty }

def statusNeedsPatch (current : Option CronJobStatus) (desired : CronJobStatus) : Bool :=
  if current = none ∧ desired = .default then false
  else decide (current.map CronJobStatus.normalize ≠ some desired.normalize)

def ownedBy (job : Job) (uid : String) : Bool :=
  job.ownerReferences.any fun o => o.controller == some true && o.uid == uid

def hasCondition (job : Job) (type : String) : Bool :=
  job.conditions.any fun c => c.type == type && c.status == "True"

def jobIsTerminal (job : Job) : Bool :=
  job.conditions.any fun c => (c.type == "Complete" || c.type == "Failed") && c.status == "True"

def jobName (cronJobName : String) (scheduled : Int) : String :=
  cronJobName ++ "-" ++ toString scheduled

def buildJob (cj : CronJob) (scheduled : Int) : Job where
  inNamespace := cj.inNamespace
  name := jobName cj.name scheduled
  ownerReferences := [⟨cj.uid.getD "", some true⟩]
  conditions := []
  completionTime := none

def ownedJobs (cj : CronJob) (uid : String) (jobCache : SortedMap String Job) : List Job :=
  ((jobCache.entries.map Prod.snd).filter fun job => job.inNamespace == some (nsOf cj)).filter (ownedBy · uid)

def activeJobs (owned : List Job) : List Job :=
  owned.filter fun job => !jobIsTerminal job

def specOf (cj : CronJob) : CronJobSpec :=
  cj.spec.getD .default

def statusOf (cj : CronJob) : CronJobStatus :=
  cj.status.getD .default

/-- The boundary that has come, if one has. -/
def dueTime (cj : CronJob) (now : Int) : Option Int :=
  if (specOf cj).suspend.getD false then none
  else
    (CronSchedule.parse (specOf cj).schedule).bind fun schedule =>
      (schedule.nextAfter (((statusOf cj).lastScheduleTime <|> cj.creationTimestamp).getD now)).filter fun next =>
        decide (next ≤ now)

/-- What a pass decides about the boundary: the active Jobs to replace, and
the boundary with whether its Job is created or the boundary is only
recorded.  A forbidden boundary is left for later. -/
structure Turn where
  replaced : List String
  boundary : Option (Int × Bool)

def turn (cj : CronJob) (active : List Job) (now : Int) : Turn :=
  match dueTime cj now with
  | none => ⟨[], none⟩
  | some next =>
    let create := some (next, withinDeadline next now (specOf cj).startingDeadlineSeconds)
    if active.isEmpty then ⟨[], create⟩
    else if (specOf cj).concurrencyPolicy = some "Forbid" then ⟨[], none⟩
    else if (specOf cj).concurrencyPolicy = some "Replace" then ⟨active.map Job.name, create⟩
    else ⟨[], create⟩

/-- The boundary the status records, when the API answers the creation that
the Job is there. -/
def recorded (t : Turn) (isThere : Bool) : Option Int :=
  t.boundary.bind fun (next, create) => if !create || isThere then some next else none

def desiredStatus (cj : CronJob) (owned : List Job) (t : Turn) (isThere : Bool) : CronJobStatus :=
  let active := activeJobs owned
  let newest := ((owned.filter fun job => hasCondition job "Complete").filterMap Job.completionTime).max?
  { active := if active.isEmpty then none else some (active.map fun job => (job.inNamespace, job.name))
    lastScheduleTime := recorded t isThere <|> (statusOf cj).lastScheduleTime
    lastSuccessfulTime := newest <|> (statusOf cj).lastSuccessfulTime }

def pruned (cj : CronJob) (owned : List Job) : List String :=
  jobsToPrune ((owned.filter fun job => hasCondition job "Complete").map Job.name)
    ((specOf cj).successfulJobsHistoryLimit.getD 3) ++
    jobsToPrune ((owned.filter fun job => hasCondition job "Failed").map Job.name)
      ((specOf cj).failedJobsHistoryLimit.getD 1)

/-! ## The controller and the API server -/

/-- The CronJob and the Jobs of its namespace as the API server has them, what
the controller has in its caches, and the boundaries it created Jobs for. -/
structure World where
  cronJob : CronJob
  jobs : SortedMap String Job
  cached : Option CronJob
  jobCache : SortedMap String Job
  created : List Int

def World.start (cronJob : CronJob) (jobs : SortedMap String Job) : World where
  cronJob := cronJob
  jobs := jobs
  cached := none
  jobCache := .empty
  created := []

/-- What becomes of a creation: it is answered, it is refused, or it takes
effect and the answer is lost. -/
inductive Sent where
  | answered
  | refused
  | lost
  deriving DecidableEq

/-- Which of the requests of a pass take effect. -/
structure Outcomes where
  create : Sent
  patched : Bool
  deleted : String -> Bool

inductive Step where
  | pass (now : Int) (outcomes : Outcomes)
  | cronJobEvent (event : WatchEvent CronJob)
  | jobEvent (event : WatchEvent Job)
  | restart
  | specEdited (spec : CronJobSpec)
  | jobReports (key : String) (conditions : List PodCondition) (completionTime : Option Int)
  | jobDeleted (key : String)
  | jobCreated (job : Job)

namespace World

def jobKey (w : World) (name : String) : String :=
  nsOf w.cronJob ++ "/" ++ name

def keyAt (w : World) (scheduled : Int) : String :=
  w.jobKey (jobName w.cronJob.name scheduled)

def last (w : World) : Option Int :=
  (statusOf w.cronJob).lastScheduleTime

/-- The Jobs without those of a list whose deletion takes effect. -/
def without (w : World) (jobs : SortedMap String Job) (names : List String) (deleted : String -> Bool) : SortedMap String Job :=
  (names.filter deleted).foldl (fun jobs name => jobs.erase (w.jobKey name)) jobs

/-- A merge patch leaves the fields it does not have. -/
def mergeStatus (w : World) (patch : CronJobStatus) : CronJob :=
  let current := statusOf w.cronJob
  let merged : CronJobStatus :=
    { active := patch.active <|> current.active
      lastScheduleTime := patch.lastScheduleTime <|> current.lastScheduleTime
      lastSuccessfulTime := patch.lastSuccessfulTime <|> current.lastSuccessfulTime }
  { w.cronJob with status := some merged }

/-- The Job of a boundary is created if its name is free. -/
def create (w : World) (cj : CronJob) (scheduled : Int) : World :=
  match w.jobs.get (w.jobKey (jobName cj.name scheduled)) with
  | some _ => w
  | none =>
    { w with
      jobs := w.jobs.insert (w.jobKey (jobName cj.name scheduled)) (buildJob cj scheduled)
      created := w.created ++ [scheduled] }

def replace (w : World) (t : Turn) (o : Outcomes) : World :=
  { w with jobs := w.without w.jobs t.replaced o.deleted }

def fire (w : World) (cj : CronJob) (t : Turn) (o : Outcomes) : World :=
  match t.boundary with
  | some (next, true) => if o.create = .refused then w else w.create cj next
  | _ => w

def patch (w : World) (cj : CronJob) (status : CronJobStatus) (o : Outcomes) : World :=
  if statusNeedsPatch cj.status status && o.patched then { w with cronJob := w.mergeStatus status } else w

def prune (w : World) (cj : CronJob) (owned : List Job) (o : Outcomes) : World :=
  { w with jobs := w.without w.jobs (pruned cj owned) o.deleted }

def reconcileCronJob (w : World) (cj : CronJob) (uid : String) (now : Int) (o : Outcomes) : World :=
  let owned := ownedJobs cj uid w.jobCache
  let t := turn cj (activeJobs owned) now
  let status := desiredStatus cj owned t (decide (o.create = .answered))
  (((w.replace t o).fire cj t o).patch cj status o).prune cj owned o

/-- Whether an event is about the CronJob. -/
def isOurs (w : World) (cj : CronJob) : Bool :=
  cj.inNamespace == w.cronJob.inNamespace && cj.name == w.cronJob.name

def step (w : World) : Step -> World
  | .pass now o =>
    match w.cached with
    | none => w
    | some cj =>
      match cj.uid with
      | none => w
      | some uid => w.reconcileCronJob cj uid now o
  | .cronJobEvent (.apply cj) | .cronJobEvent (.initApply cj) => if w.isOurs cj then { w with cached := some cj } else w
  | .cronJobEvent (.delete cj) => if w.isOurs cj then { w with cached := none } else w
  | .cronJobEvent _ => w
  | .jobEvent event => { w with jobCache := retain objectKey w.jobCache event }
  | .restart => { w with cached := none, jobCache := .empty }
  | .specEdited spec => { w with cronJob := { w.cronJob with spec := some spec } }
  | .jobReports key conditions completionTime =>
    match w.jobs.get key with
    | none => w
    | some job => { w with jobs := w.jobs.insert key { job with conditions := conditions, completionTime := completionTime } }
  | .jobDeleted key => { w with jobs := w.jobs.erase key }
  | .jobCreated job =>
    match w.jobs.get (objectKey job) with
    | none => { w with jobs := w.jobs.insert (objectKey job) job }
    | some _ => w

/-! ## At most once -/

/-- A Job the controller created is there and not over. -/
def Unfinished (w : World) : Prop :=
  Exists fun scheduled => scheduled ∈ w.created ∧ Exists fun job => w.jobs.get (w.keyAt scheduled) = some job ∧
    jobIsTerminal job = false

/-- The boundary has been recorded. -/
def Recorded (last : Option Int) (scheduled : Int) : Prop :=
  Exists fun t => last = some t ∧ scheduled ≤ t

instance (last : Option Int) (scheduled : Int) : Decidable (Recorded last scheduled) :=
  match last with
  | none => isFalse fun ⟨_, contradiction, _⟩ => nomatch contradiction
  | some t => decidable_of_iff (scheduled ≤ t) ⟨fun within => ⟨t, rfl, within⟩, fun ⟨_, same, within⟩ => Option.some.inj same ▸ within⟩

/-- A boundary gets no second Job, the last boundary is never moved back, and
where Jobs are forbidden to run together none is created next to another. -/
structure Fires (w : World) (label : Step) : Prop where
  once : (w.step label).created = w.created ∨
    Exists fun scheduled => scheduled ∉ w.created ∧ (w.step label).created = w.created ++ [scheduled]
  forward : forall scheduled, Recorded w.last scheduled -> Recorded (w.step label).last scheduled
  alone : (Exists fun cj => w.cached = some cj ∧ (specOf cj).concurrencyPolicy = some "Forbid") ->
    (w.step label).created ≠ w.created -> ¬ w.Unfinished

/-- The Jobs deleted are of boundaries that have been recorded. -/
def DeletesRecorded (w : World) (last : Option Int) (created : List Int) (names : List String) (deleted : String -> Bool) : Prop :=
  forall scheduled, scheduled ∈ created -> jobName w.cronJob.name scheduled ∈ names.filter deleted -> Recorded last scheduled

instance (w : World) (last : Option Int) (created : List Int) (names : List String) (deleted : String -> Bool) :
    Decidable (w.DeletesRecorded last created names deleted) :=
  inferInstanceAs (Decidable (forall scheduled, scheduled ∈ created -> _ -> _))

/-- A pass reads the last boundary the API server has, and under Forbid an
unfinished Job when there is one.  A Job is deleted only when its boundary has
been recorded. -/
def Orderly (w : World) : Step -> Prop
  | .pass now o => forall cj uid, w.cached = some cj -> cj.uid = some uid ->
      let owned := ownedJobs cj uid w.jobCache
      (statusOf cj).lastScheduleTime = w.last ∧
        ((specOf cj).concurrencyPolicy = some "Forbid" -> w.Unfinished -> activeJobs owned ≠ []) ∧
        DeletesRecorded w w.last w.created (turn cj (activeJobs owned) now).replaced o.deleted ∧
        DeletesRecorded w (w.step (.pass now o)).last (w.step (.pass now o)).created (pruned cj owned) o.deleted
  | .jobDeleted key => forall scheduled, scheduled ∈ w.created -> w.keyAt scheduled = key -> Recorded w.last scheduled
  | _ => True

end World
end CronJobs
end NotK8s.Controllers

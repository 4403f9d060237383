import NotK8s.Controllers.Deployment
import NotK8s.Controllers.WorkQueue

namespace NotK8s.Controllers

open Library

/-!
# Controllers that own Pods

ReplicaSets, StatefulSets and Jobs are handled by loops of one shape.  A loop
caches the Pods and its own objects as the informers report them, enqueues
what an event may concern, and takes work from the queue between any two
events.  What differs is a parameter: whether the beginning of a list clears
a cache, what else an event changes, and what one pass requests.

The informer's own view of the Pods, and every complete set it ever had, are
kept for the statements only.
-/

/-! ## Pods -/

structure PodOwner extends OwnerReference where
  kind : String
  name : String
  deriving DecidableEq

structure PodCondition where
  type : String
  status : String
  deriving DecidableEq

structure Pod where
  inNamespace : Option String
  name : String
  deletionTimestamp : Option Int
  ownerReferences : List PodOwner
  podTemplateHash : Option String
  phase : Option String
  conditions : List PodCondition
  deriving DecidableEq

instance : Resource Pod where
  namespaceOf := Pod.inNamespace
  nameAny := Pod.name

/-- The template as its canonical JSON, and what is read from it. -/
structure PodTemplate where
  json : List UInt8
  podTemplateHash : Option String
  hasSpec : Bool

namespace Pod

def ready (pod : Pod) : Bool :=
  pod.conditions.any fun c => c.type == "Ready" && c.status == "True"

def ownedBy (pod : Pod) (uid : String) : Bool :=
  pod.ownerReferences.any fun o => o.controller == some true && o.uid == uid

def terminating (pod : Pod) : Bool :=
  pod.deletionTimestamp.isSome

end Pod

/-- The cached Pods of an object. -/
def ownedPods (inNamespace uid : String) (podCache : SortedMap String Pod) : List Pod :=
  ((podCache.entries.map Prod.snd).filter fun pod => pod.inNamespace == some inNamespace).filter (Pod.ownedBy · uid)

def live (owned : List Pod) : List Pod :=
  owned.filter fun pod => !pod.terminating

/-! ## The loop -/

inductive PodWrite where
  | create (pod : Pod)
  | delete (name : String)
  | createClaim (name : String)
  deriving DecidableEq

/-- What a pass requested, and what it left behind. -/
structure Pass (Extra : Type) where
  writes : List PodWrite
  extra : Extra
  needsRetry : Bool

/-- A pass that wants nothing requests nothing. -/
structure WorkloadController (Obj Extra Other Choice : Type) where
  clearsOnInit : Bool
  initial : Extra
  onPod : WatchEvent Pod -> Extra -> Extra
  onOwn : WatchEvent Obj -> Extra -> Extra
  onOther : Other -> Extra -> Extra
  otherNamespace : Other -> Option String
  wants : Obj -> SortedMap String Pod -> Extra -> Choice -> Bool
  reconcile : Obj -> SortedMap String Pod -> Extra -> Choice -> Pass Extra
  idle : forall object pods extra choice, wants object pods extra choice = false ->
    (reconcile object pods extra choice).writes = []

structure WorkloadState (Obj Extra : Type) where
  pods : SortedMap String Pod
  workloads : SortedMap String Obj
  queue : KeyedWorkQueue String
  retries : List String
  extra : Extra
  informer : Reflected String Pod
  completeSets : List (SortedMap String Pod)

inductive WorkloadStep (Obj Other Choice : Type) where
  | podEvent (event : WatchEvent Pod)
  | ownEvent (event : WatchEvent Obj)
  | otherEvent (event : Other)
  | retryDue
  | pop (choice : Choice)

/-- The objects of the namespace are enqueued. -/
def enqueueNamespace {Obj : Type} [Resource Obj] (workloads : SortedMap String Obj) (inNamespace : String)
    (queue : KeyedWorkQueue String) : KeyedWorkQueue String :=
  ((workloads.entries.filter fun entry => nsOf entry.2 == inNamespace).map Prod.fst).foldl KeyedWorkQueue.enqueue queue

/-- The namespace an event is about, unless it is about a list. -/
def eventNamespace {Obj : Type} [Resource Obj] : WatchEvent Obj -> Option String
  | .apply object | .initApply object | .delete object => some (nsOf object)
  | .init | .initDone => none

namespace WorkloadController

variable {Obj Extra Other Choice : Type} [Resource Obj] (c : WorkloadController Obj Extra Other Choice)

def new : WorkloadState Obj Extra where
  pods := .empty
  workloads := .empty
  queue := .empty
  retries := []
  extra := c.initial
  informer := .new
  completeSets := []

/-- A cache as the loop keeps it. -/
def fold {Cached : Type} [Resource Cached] (held : SortedMap String Cached) (event : WatchEvent Cached) : SortedMap String Cached :=
  if c.clearsOnInit then mirror objectKey held event else retain objectKey held event

def podEvent (s : WorkloadState Obj Extra) (event : WatchEvent Pod) : WorkloadState Obj Extra :=
  let informer := s.informer.reflect objectKey event
  { s with
    pods := c.fold s.pods event
    queue := (eventNamespace event).elim s.queue fun inNamespace => enqueueNamespace s.workloads inNamespace s.queue
    extra := c.onPod event s.extra
    informer := informer
    completeSets := s.completeSets ++ informer.complete.toList }

def ownEvent (s : WorkloadState Obj Extra) (event : WatchEvent Obj) : WorkloadState Obj Extra :=
  { s with
    workloads := c.fold s.workloads event
    queue :=
      match event with
      | .apply object | .initApply object => s.queue.enqueue (objectKey object)
      | _ => s.queue
    extra := c.onOwn event s.extra }

/-- The object the next pop finds. -/
def next (s : WorkloadState Obj Extra) : Option (String × Obj × KeyedWorkQueue String) :=
  s.queue.pop.bind fun (key, queue) => (s.workloads.get key).map fun object => (key, object, queue)

def pop (s : WorkloadState Obj Extra) (choice : Choice) : WorkloadState Obj Extra :=
  match s.queue.pop with
  | none => s
  | some (key, queue) =>
    match s.workloads.get key with
    | none => { s with queue := queue }
    | some object =>
      let pass := c.reconcile object s.pods s.extra choice
      { s with
        queue := queue
        extra := pass.extra
        retries := if pass.needsRetry then s.retries ++ [key] else s.retries }

def step (s : WorkloadState Obj Extra) : WorkloadStep Obj Other Choice -> WorkloadState Obj Extra
  | .podEvent event => c.podEvent s event
  | .ownEvent event => c.ownEvent s event
  | .otherEvent event =>
    { s with
      queue := (c.otherNamespace event).elim s.queue fun inNamespace => enqueueNamespace s.workloads inNamespace s.queue
      extra := c.onOther event s.extra }
  | .retryDue =>
    match s.retries with
    | [] => s
    | key :: retries => { s with queue := s.queue.enqueue key, retries := retries }
  | .pop choice => c.pop s choice

/-! ## What a decision is taken on -/

/-- What the pass of this step requests. -/
def requested (s : WorkloadState Obj Extra) : WorkloadStep Obj Other Choice -> List PodWrite
  | .pop choice => (next s).elim [] fun (_, object, _) => (c.reconcile object s.pods s.extra choice).writes
  | _ => []

/-- Whether the object the next pop finds wants something. -/
def wanting (s : WorkloadState Obj Extra) (choice : Choice) : Bool :=
  (next s).any fun (_, object, _) => c.wants object s.pods s.extra choice

/-- The cache is a complete set of the informer, and it is the latest one:
nothing is missing that was not delivered yet, nothing is left that is gone. -/
structure Informed (s : WorkloadState Obj Extra) : Prop where
  moment : s.pods ∈ s.completeSets
  latest : s.informer.complete = some s.pods

/-- Every request is decided on the complete set. -/
def DecidesInformed (s : WorkloadState Obj Extra) (label : WorkloadStep Obj Other Choice) : Prop :=
  c.requested s label ≠ [] -> Informed s

/-- No object that wants something is popped before the first list of the
Pods is finished or while one is under way, and where a list does not clear
the cache, it names every Pod that is in there when it ends. -/
def Timely (s : WorkloadState Obj Extra) : WorkloadStep Obj Other Choice -> Prop
  | .pop choice => c.wanting s choice = true -> s.informer.Complete
  | .podEvent .initDone => c.clearsOnInit = false -> s.informer.Redelivers s.pods
  | _ => True

instance (s : WorkloadState Obj Extra) : forall label : WorkloadStep Obj Other Choice, Decidable (c.Timely s label)
  | .pop choice => inferInstanceAs (Decidable (c.wanting s choice = true -> s.informer.Complete))
  | .podEvent .initDone => inferInstanceAs (Decidable (c.clearsOnInit = false -> s.informer.Redelivers s.pods))
  | .podEvent (.apply _) | .podEvent (.initApply _) | .podEvent (.delete _) | .podEvent .init => isTrue True.intro
  | .ownEvent _ | .otherEvent _ | .retryDue => isTrue True.intro

/-! ## The cache and the informer -/

/-- The cache follows the informer, and no complete set is forgotten. -/
structure Follows (s : WorkloadState Obj Extra) : Prop where
  replaced : c.clearsOnInit = true -> s.informer.Replaced s.pods
  held : s.informer.Held s.pods
  kept : forall complete, s.informer.complete = some complete -> complete ∈ s.completeSets

variable {c} {s : WorkloadState Obj Extra}

theorem Follows.new : c.Follows c.new :=
  ⟨fun _ => Reflected.Replaced.new, Reflected.Held.new, nofun⟩

theorem Follows.podEvent (follows : c.Follows s) {event : WatchEvent Pod}
    (timely : c.Timely s (.podEvent event : WorkloadStep Obj Other Choice)) : c.Follows (c.podEvent s event) := by
  have kept : forall complete, (s.informer.reflect objectKey event).complete = some complete ->
      complete ∈ s.completeSets ++ (s.informer.reflect objectKey event).complete.toList := by
    intro complete known
    rw [known]
    exact List.mem_append_right _ (List.mem_singleton_self complete)
  unfold WorkloadController.podEvent fold
  cases clears : c.clearsOnInit with
  | true =>
    have replaced : (s.informer.reflect objectKey event).Replaced _ := (follows.replaced clears).mirror event
    exact ⟨fun _ => replaced, replaced.toHeld, kept⟩
  | false =>
    refine ⟨fun clearing => absurd (clears.symm.trans clearing) Bool.false_ne_true, ?_, kept⟩
    apply follows.held.retain
    rintro rfl
    exact timely clears

/-- Only the informer's own events change the cache and what it is compared
with. -/
theorem step_untouched {label : WorkloadStep Obj Other Choice} (other : forall event, label ≠ .podEvent event) :
    (c.step s label).pods = s.pods ∧ (c.step s label).informer = s.informer ∧
      (c.step s label).completeSets = s.completeSets := by
  cases label with
  | podEvent event => exact absurd rfl (other event)
  | ownEvent event | otherEvent event => exact ⟨rfl, rfl, rfl⟩
  | retryDue =>
    unfold step
    dsimp only
    split <;> exact ⟨rfl, rfl, rfl⟩
  | pop choice =>
    unfold step pop
    dsimp only
    split
    · exact ⟨rfl, rfl, rfl⟩
    · split <;> exact ⟨rfl, rfl, rfl⟩

theorem Follows.step (follows : c.Follows s) {label : WorkloadStep Obj Other Choice} (timely : c.Timely s label) :
    c.Follows (c.step s label) := by
  by_cases pods : Exists fun event => label = .podEvent event
  · rcases pods with ⟨event, rfl⟩
    exact follows.podEvent timely
  · rcases step_untouched fun event same => pods ⟨event, same⟩ with ⟨samePods, sameInformer, sameSets⟩
    constructor
    · rw [samePods, sameInformer]
      exact follows.replaced
    · rw [samePods, sameInformer]
      exact follows.held
    · rw [sameInformer, sameSets]
      exact follows.kept

omit [Resource Obj] in
theorem wanting_of_requested {choice : Choice} (some : c.requested s (.pop choice : WorkloadStep Obj Other Choice) ≠ []) :
    c.wanting s choice = true := by
  unfold requested at some
  unfold wanting
  cases found : next s with
  | none =>
    rw [found] at some
    exact absurd rfl some
  | some work =>
    rcases work with ⟨key, object, queue⟩
    rw [found] at some
    by_contra idle
    exact some (c.idle object s.pods s.extra choice (Bool.eq_false_of_not_eq_true idle))

theorem Follows.decides (follows : c.Follows s) {label : WorkloadStep Obj Other Choice} (timely : c.Timely s label) :
    c.DecidesInformed s label := by
  intro some
  cases label with
  | pop choice =>
    rcases timely (wanting_of_requested some) with ⟨between, known⟩
    rcases Option.isSome_iff_exists.mp known with ⟨complete, is⟩
    have same := follows.held.complete between complete is
    rw [← same] at is
    exact ⟨follows.kept s.pods is, is⟩
  | podEvent event | ownEvent event | otherEvent event | retryDue => exact absurd rfl some

/-- In a run of timely steps every request is decided on the complete set. -/
theorem decides_informed {labels : List (WorkloadStep Obj Other Choice)} (timely : EveryStep c.step c.Timely c.new labels) :
    EveryStep c.step c.DecidesInformed c.new labels :=
  EveryStep.of_invariant (fun _ _ follows timely => follows.step timely) (fun _ _ follows timely => follows.decides timely)
    Follows.new timely

end WorkloadController
end NotK8s.Controllers

import NotK8s.Library.Run
import NotK8s.Scheduler.Sections

namespace NotK8s.Scheduler

open Library

/-!
# One copy of each pod

In runs where nothing is brought in for a pod that has a copy, a pod is in one
place at a time, and its attempts grow with the cycles and bindings that fail.
-/

variable {Obj : Type} {P : Payloads}

/-- Everywhere a pod can be. -/
def Dispatch.copies (d : Dispatch Obj P) : List Copy :=
  d.world.copies ++ d.threads.flatMap (fun tasks => tasks.flatMap Task.copies) ++
    (d.cycle.toList.map (fun popped => popped.pod.copy) ++ d.bindings.map fun started => started.pod.copy)

/-! ## Steps -/

namespace Dispatch

variable {cfg : QueueConfig Obj} {profileNames : List String} {d : Dispatch Obj P} {copy : Copy}

theorem copies_count : d.copies.count copy = d.world.copies.count copy +
    booked (fun tasks => tasks.flatMap Task.copies) d.threads copy +
    ((d.cycle.toList.map fun popped => popped.pod.copy).count copy +
      (d.bindings.map fun started => started.pod.copy).count copy) := by
  unfold copies booked
  rw [List.count_append, List.count_append, List.count_append]

theorem performTask_copies (keyed : d.world.queue.Keyed) {thread now : Nat} {task : Task Obj} {rest : List (Task Obj)}
    (next : d.threads[thread]? = some (task :: rest)) :
    (d.performTask cfg thread now task rest).copies.count copy ≤
      d.copies.count copy + (task.brings d.world).count copy := by
  have section_ := @World.perform_copies _ _ cfg now d.world copy keyed task
  have moved := @booked_set _ _ _ (fun tasks => tasks.flatMap Task.copies) d.threads (task :: rest)
    ((d.world.perform cfg now task).next ++ rest) thread copy next
  unfold Effect.copies at section_
  rw [List.count_append, List.count_append, List.count_append] at section_
  rw [List.flatMap_cons, List.flatMap_append, List.count_append, List.count_append] at moved
  have inCycle : ((d.performTask cfg thread now task rest).cycle.toList.map fun popped => popped.pod.copy).count copy ≤
      ((d.world.perform cfg now task).popped.toList.map PodInfo.copy).count copy +
        (d.cycle.toList.map fun popped => popped.pod.copy).count copy := by
    unfold performTask
    dsimp only
    cases (d.world.perform cfg now task).popped with
    | none => exact Nat.le_add_left _ _
    | some pod => exact Nat.le_add_right _ _
  rw [copies_count, copies_count]
  unfold performTask at inCycle ⊢
  dsimp only at inCycle ⊢
  rw [List.map_append, List.count_append]
  omega

/-- The pod whose cycle or binding a step concludes. -/
def concludes (d : Dispatch Obj P) : Step Obj -> Option PodInfo
  | .concludeCycle _ => d.cycle.map Popped.pod
  | .concludeBinding binding _ => d.bindings[binding]?.map Popped.pod
  | _ => none

/-- The copies that a step brings in. -/
def enters (d : Dispatch Obj P) : Step Obj -> List Copy
  | .run thread _ =>
    match d.threads[thread]? with
    | some (task :: _) => task.brings d.world
    | _ => []
  | _ => []

end Dispatch

/-- What is left of a pod whose cycle is over. -/
def CycleOutcome.leaves (pod : PodInfo) : CycleOutcome -> List Copy
  | .unserved => []
  | .scheduled _ => [pod.copy]
  | _ => [pod.charged.copy]

def BindOutcome.leaves (pod : PodInfo) : BindOutcome -> List Copy
  | .bound => [⟨pod.uid, none⟩]
  | .cancelled => []
  | _ => [pod.charged.copy]

def Step.leaves (pod : PodInfo) : Step Obj -> List Copy
  | .concludeCycle outcome => outcome.leaves pod
  | .concludeBinding _ outcome => outcome.leaves pod
  | _ => []

theorem CycleOutcome.tasks_copies (popped : Popped) (outcome : CycleOutcome) :
    (outcome.tasks popped : List (Task Obj)).flatMap Task.copies = outcome.leaves popped.pod := by
  cases outcome with
  | unschedulable unschedulablePlugins pendingPlugins preempting => cases preempting <;> rfl
  | _ => rfl

theorem BindOutcome.tasks_copies (popped : Popped) (outcome : BindOutcome) :
    (outcome.tasks popped : List (Task Obj)).flatMap Task.copies = outcome.leaves popped.pod := by
  cases outcome <;> rfl

theorem changeTasks_copies (change : Option (Change Obj)) : (changeTasks change).flatMap Task.copies = [] := by
  cases change <;> rfl

theorem handlePodEvent_copies (profileNames : List String) (event : PodEvent Obj) :
    (handlePodEvent profileNames event).flatMap Task.copies = [] := by
  have nominated : forall pod : PodInfo, (nominateFromStatus pod : List (Task Obj)).flatMap Task.copies = [] := by
    intro pod
    unfold nominateFromStatus
    cases pod.nominatedNodeName <;> rfl
  cases event with
  | added pod =>
    unfold handlePodEvent
    dsimp only
    cases routePod pod profileNames with
    | queue => rw [List.flatMap_append, nominated]; rfl
    | _ => rfl
  | modified pod change =>
    unfold handlePodEvent
    dsimp only
    cases routePod pod profileNames with
    | cache => rw [List.flatMap_append, changeTasks_copies]; rfl
    | queue => rw [List.flatMap_append, List.flatMap_append, nominated, changeTasks_copies]; rfl
    | ignore => rfl
  | deleted pod old =>
    unfold handlePodEvent
    dsimp only
    split_ifs <;> rfl

namespace Dispatch

variable {cfg : QueueConfig Obj} {profileNames : List String} {d : Dispatch Obj P} {copy : Copy}

theorem enqueue_copies_of_some {thread : Nat} {pending tasks : List (Task Obj)} (there : d.threads[thread]? = some pending) :
    (d.enqueue thread tasks).copies.count copy = d.copies.count copy + (tasks.flatMap Task.copies).count copy := by
  have moved := @booked_set _ _ _ (fun tasks => tasks.flatMap Task.copies) d.threads pending (pending ++ tasks)
    thread copy there
  rw [List.flatMap_append, List.count_append] at moved
  unfold enqueue
  rw [there, copies_count, copies_count]
  dsimp only
  omega

theorem enqueue_copies {thread : Nat} {tasks : List (Task Obj)} :
    (d.enqueue thread tasks).copies.count copy ≤ d.copies.count copy + (tasks.flatMap Task.copies).count copy := by
  cases there : d.threads[thread]? with
  | none =>
    unfold enqueue
    rw [there]
    exact Nat.le_add_right _ _
  | some pending => exact Nat.le_of_eq (enqueue_copies_of_some there)

theorem spawn_copies {tasks : List (Task Obj)} :
    (d.spawn tasks).copies.count copy = d.copies.count copy + (tasks.flatMap Task.copies).count copy := by
  have moved := @booked_concat _ _ _ (fun tasks => tasks.flatMap Task.copies) d.threads tasks copy
  rw [copies_count, copies_count]
  unfold spawn
  dsimp only
  omega

/-- A step changes the copies by what it brings in and by the pod whose cycle
or binding it concludes. -/
theorem step_copies (keyed : d.world.queue.Keyed) (label : Step Obj) :
    (d.step cfg profileNames label).copies.count copy + ((d.concludes label).toList.map PodInfo.copy).count copy ≤
      d.copies.count copy + (d.enters label).count copy +
        ((d.concludes label).toList.flatMap label.leaves).count copy := by
  cases label with
  | run thread now =>
    simp only [step, concludes, enters]
    cases there : d.threads[thread]? with
    | none => exact Nat.le_refl _
    | some pending =>
      cases pending with
      | nil => exact Nat.le_refl _
      | cons task rest => exact performTask_copies keyed there
  | pop =>
    simp only [step, concludes, enters]
    split
    · rename_i idle _
      have moved := @booked_set _ _ _ (fun tasks => tasks.flatMap Task.copies) d.threads []
        [.drainExpiredBackoff, .take] 0 copy idle
      rw [copies_count, copies_count]
      simp only [List.flatMap_nil, List.flatMap_cons, Task.copies, List.append_nil, Option.toList_none, List.map_nil,
        List.count_nil] at moved ⊢
      omega
    · exact Nat.le_refl _
  | concludeCycle outcome =>
    simp only [step, concludes, enters]
    cases inCycle : d.cycle with
    | none => exact Nat.le_refl _
    | some popped =>
      have more := @enqueue_copies _ _ { d with cycle := none } copy 0 (outcome.tasks popped)
      rw [outcome.tasks_copies, @copies_count _ _ { d with cycle := none }] at more
      rw [@copies_count _ _ d, inCycle]
      simp only [Option.toList_none, Option.toList_some, Option.map_some, List.map_nil, List.map_cons,
        List.flatMap_cons, List.flatMap_nil, List.append_nil, List.count_nil, Step.leaves] at more ⊢
      omega
  | concludeBinding binding outcome =>
    simp only [step, concludes, enters]
    cases there : d.bindings[binding]? with
    | none => exact Nat.le_refl _
    | some popped =>
      have more := @spawn_copies _ _ { d with bindings := d.bindings.eraseIdx binding } copy (outcome.tasks popped)
      rcases List.getElem?_eq_some_iff.mp there with ⟨below, rfl⟩
      have rest := ((List.getElem_cons_eraseIdx_perm below).map fun started : Popped => started.pod.copy).count_eq copy
      rw [List.map_cons, count_cons_eq] at rest
      rw [outcome.tasks_copies, @copies_count _ _ { d with bindings := _ }] at more
      rw [@copies_count _ _ d]
      simp only [Option.toList_some, Option.map_some, List.map_nil, List.map_cons, List.flatMap_cons, List.flatMap_nil,
        List.append_nil, List.count_nil, Step.leaves] at more ⊢
      omega
  | podEvent event =>
    have more := @enqueue_copies _ _ d copy 1 (handlePodEvent profileNames event)
    rw [handlePodEvent_copies] at more
    exact more
  | nodeApplied node preserve change =>
    have more := @enqueue_copies _ _ d copy 1 (.upsertNode node preserve :: changeTasks change)
    rw [List.flatMap_cons, changeTasks_copies] at more
    exact more
  | nodeDeleted name => exact @enqueue_copies _ _ d copy 1 [.removeNode name]
  | otherEvent change => exact @enqueue_copies _ _ d copy 1 (moveAllToActiveOrBackoff change)
  | safetyNet => exact @enqueue_copies _ _ d copy 2 [.flushTimedOut]
  | activate uids => exact Nat.le_of_eq (@spawn_copies _ _ d copy [.activate uids])

theorem step_keyed (keyed : d.world.queue.Keyed) (label : Step Obj) : (d.step cfg profileNames label).world.queue.Keyed := by
  have enqueued : forall (d : Dispatch Obj P) thread tasks, (d.enqueue thread tasks).world = d.world := by
    intro d thread tasks
    unfold enqueue
    cases d.threads[thread]? <;> rfl
  cases label with
  | run thread now =>
    unfold step
    dsimp only
    split
    · exact World.perform_keyed keyed _
    · exact keyed
  | pop =>
    unfold step
    dsimp only
    split <;> exact keyed
  | concludeCycle outcome =>
    unfold step
    cases d.cycle with
    | none => exact keyed
    | some popped =>
      rw [enqueued]
      exact keyed
  | concludeBinding binding outcome =>
    unfold step
    dsimp only
    cases d.bindings[binding]? <;> exact keyed
  | activate uids => exact keyed
  | _ =>
    unfold step
    rw [enqueued]
    exact keyed

theorem enqueue_threads {thread : Nat} {tasks : List (Task Obj)} :
    (d.enqueue thread tasks).threads.length = d.threads.length := by
  unfold enqueue
  cases d.threads[thread]? with
  | none => rfl
  | some pending => exact List.length_set

theorem step_threads (label : Step Obj) : d.threads.length ≤ (d.step cfg profileNames label).threads.length := by
  have spawned : forall (d : Dispatch Obj P) tasks, d.threads.length ≤ (d.spawn tasks).threads.length := by
    intro d tasks
    unfold spawn
    rw [List.length_append]
    exact Nat.le_add_right _ _
  cases label with
  | run thread now | pop =>
    unfold step
    dsimp only
    split
    · exact Nat.le_of_eq List.length_set.symm
    · exact Nat.le_refl _
  | concludeCycle outcome =>
    unfold step
    cases d.cycle with
    | none => exact Nat.le_refl _
    | some popped => exact Nat.le_of_eq (@enqueue_threads _ _ { d with cycle := none } _ _).symm
  | concludeBinding binding outcome =>
    unfold step
    dsimp only
    cases d.bindings[binding]? with
    | none => exact Nat.le_refl _
    | some popped => exact spawned { d with bindings := d.bindings.eraseIdx binding } _
  | activate uids => exact spawned d _
  | _ => exact Nat.le_of_eq enqueue_threads.symm

/-! ## Runs -/

/-- A pod is in one place, and the scheduling loop is there. -/
structure OnePlace (d : Dispatch Obj P) : Prop where
  keyed : d.world.queue.Keyed
  once : (d.copies.map Copy.uid).Nodup
  looping : 0 < d.threads.length

/-- Nothing comes in for a pod that has a copy. -/
def Untangled (d : Dispatch Obj P) (label : Step Obj) : Prop :=
  forall copy, copy ∈ d.enters label -> copy.uid ∉ d.copies.map Copy.uid

theorem OnePlace.new : (new : Dispatch Obj P).OnePlace :=
  ⟨SchedulingQueue.Keyed.new, List.nodup_nil, Nat.zero_lt_succ 2⟩

theorem enters_length (d : Dispatch Obj P) (label : Step Obj) : (d.enters label).length ≤ 1 := by
  cases label with
  | run thread now =>
    unfold enters
    dsimp only
    split
    · rename_i task rest _
      cases task with
      | updateBackoff pod =>
        unfold Task.brings
        dsimp only
        split_ifs
        · exact Nat.zero_le 1
        · exact Nat.le_refl 1
      | arrive pod => exact Nat.le_refl 1
      | _ => exact Nat.zero_le 1
    · exact Nat.zero_le 1
  | _ => exact Nat.zero_le 1

theorem leaves_uid (label : Step Obj) (pod : PodInfo) (uid : String) :
    ((label.leaves pod).map Copy.uid).count uid ≤ [pod.uid].count uid := by
  cases label with
  | concludeCycle outcome => cases outcome <;> first | exact Nat.le_refl _ | exact Nat.zero_le _
  | concludeBinding binding outcome => cases outcome <;> first | exact Nat.le_refl _ | exact Nat.zero_le _
  | _ => exact Nat.zero_le _

theorem uids_count {before after : List Copy} (each : forall copy, after.count copy ≤ before.count copy) (uid : String) :
    (after.map Copy.uid).count uid ≤ (before.map Copy.uid).count uid := by
  rcases List.subperm_ext_iff.mpr fun copy _ => each copy with ⟨sub, shuffled, inside⟩
  rw [← (shuffled.map Copy.uid).count_eq uid]
  exact (inside.map Copy.uid).count_le uid

theorem OnePlace.step (place : d.OnePlace) {label : Step Obj} (untangled : d.Untangled label) :
    (d.step cfg profileNames label).OnePlace := by
  refine ⟨step_keyed place.keyed label, List.nodup_iff_count_le_one.mpr ?_,
    Nat.lt_of_lt_of_le place.looping (step_threads label)⟩
  intro uid
  have each : forall copy, ((d.step cfg profileNames label).copies ++ (d.concludes label).toList.map PodInfo.copy).count copy ≤
      (d.copies ++ d.enters label ++ (d.concludes label).toList.flatMap label.leaves).count copy := by
    intro copy
    have step := @step_copies _ _ cfg profileNames d copy place.keyed label
    simp only [List.count_append]
    exact step
  have counted := uids_count each uid
  simp only [List.map_append, List.count_append] at counted
  have before := List.nodup_iff_count_le_one.mp place.once uid
  have left : (((d.concludes label).toList.flatMap label.leaves).map Copy.uid).count uid ≤
      (((d.concludes label).toList.map PodInfo.copy).map Copy.uid).count uid := by
    cases d.concludes label with
    | none => exact Nat.le_refl _
    | some pod =>
      rw [Option.toList_some, List.flatMap_singleton]
      exact leaves_uid label pod uid
  have one := enters_length d label
  rcases entering : d.enters label with _ | ⟨copy, rest⟩
  · rw [entering, List.map_nil, List.count_nil] at counted
    omega
  · rw [entering] at counted one
    have alone : rest = [] := List.eq_nil_of_length_eq_zero (Nat.le_zero.mp (Nat.le_of_succ_le_succ one))
    have fresh := untangled copy (entering ▸ .head _)
    rw [alone, List.map_cons, List.map_nil, List.count_singleton] at counted
    split_ifs at counted with same
    · rw [eq_of_beq same] at fresh
      have none := List.count_eq_zero.mpr fresh
      omega
    · omega

end Dispatch

/-! ## Attempts -/

def CycleOutcome.fails : CycleOutcome -> Bool
  | .unserved => false
  | .scheduled _ => false
  | _ => true

def BindOutcome.fails : BindOutcome -> Bool
  | .bound => false
  | .cancelled => false
  | _ => true

/-- The cycle or the binding that the step concludes has failed. -/
def Step.fails : Step Obj -> Bool
  | .concludeCycle outcome => outcome.fails
  | .concludeBinding _ outcome => outcome.fails
  | _ => false

theorem leaves_of_mem {label : Step Obj} {pod : PodInfo} {copy : Copy} (left : copy ∈ label.leaves pod) :
    copy = pod.copy ∨ (label.fails = true ∧ copy = pod.charged.copy) ∨ copy = ⟨pod.uid, none⟩ := by
  cases label with
  | concludeCycle outcome =>
    cases outcome with
    | unserved => cases left
    | scheduled node => exact Or.inl (List.mem_singleton.mp left)
    | _ => exact Or.inr (Or.inl ⟨rfl, List.mem_singleton.mp left⟩)
  | concludeBinding binding outcome =>
    cases outcome with
    | bound => exact Or.inr (Or.inr (List.mem_singleton.mp left))
    | cancelled => cases left
    | _ => exact Or.inr (Or.inl ⟨rfl, List.mem_singleton.mp left⟩)
  | _ => cases left

theorem charged_of_fails {label : Step Obj} {pod : PodInfo} (fails : label.fails = true) :
    label.leaves pod = [pod.charged.copy] := by
  cases label with
  | concludeCycle outcome | concludeBinding binding outcome => cases outcome <;> first | rfl | nomatch fails
  | _ => cases fails

namespace Dispatch

variable {cfg : QueueConfig Obj} {profileNames : List String} {d : Dispatch Obj P}

/-- What happens to the attempts of every pod: they stay, or the pod is new,
or it was bound, or its cycle or binding failed and they grow by one. -/
structure Ages (d : Dispatch Obj P) (label : Step Obj) (d' : Dispatch Obj P) : Prop where
  aged : forall copy, copy ∈ d'.copies -> copy ∈ d.copies ∨ copy.uid ∉ d.copies.map Copy.uid ∨
    Exists fun pod => d.concludes label = some pod ∧ pod.copy ∈ d.copies ∧
      ((label.fails = true ∧ copy = pod.charged.copy) ∨ copy = ⟨pod.uid, none⟩)
  charged : forall pod, d.concludes label = some pod -> label.fails = true -> pod.charged.copy ∈ d'.copies

theorem concludes_copies {label : Step Obj} {pod : PodInfo} (concluded : d.concludes label = some pod) :
    pod.copy ∈ d.copies := by
  apply List.mem_append_right
  cases label with
  | concludeCycle outcome =>
    rcases Option.map_eq_some_iff.mp concluded with ⟨popped, inCycle, rfl⟩
    apply List.mem_append_left
    rw [inCycle]
    exact .head _
  | concludeBinding binding outcome =>
    rcases Option.map_eq_some_iff.mp concluded with ⟨popped, there, rfl⟩
    exact List.mem_append_right _ (List.mem_map_of_mem (List.mem_of_getElem? there))
  | _ => cases concluded

theorem charged_copies (looping : 0 < d.threads.length) {label : Step Obj} {pod : PodInfo}
    (concluded : d.concludes label = some pod) (fails : label.fails = true) :
    pod.charged.copy ∈ (d.step cfg profileNames label).copies := by
  have left : label.leaves pod = [pod.charged.copy] := charged_of_fails fails
  apply List.count_pos_iff.mp
  cases label with
  | concludeCycle outcome =>
    rcases Option.map_eq_some_iff.mp concluded with ⟨popped, inCycle, rfl⟩
    have there := List.getElem?_eq_getElem looping
    have more := @enqueue_copies_of_some _ _ { d with cycle := none } popped.pod.charged.copy 0 _ (outcome.tasks popped) there
    rw [outcome.tasks_copies] at more
    change outcome.leaves popped.pod = _ at left
    rw [left, List.count_singleton_self] at more
    simp only [step, inCycle]
    omega
  | concludeBinding binding outcome =>
    rcases Option.map_eq_some_iff.mp concluded with ⟨popped, there, rfl⟩
    have more := @spawn_copies _ _ { d with bindings := d.bindings.eraseIdx binding } popped.pod.charged.copy
      (outcome.tasks popped)
    rw [outcome.tasks_copies] at more
    change outcome.leaves popped.pod = _ at left
    rw [left, List.count_singleton_self] at more
    simp only [step, there]
    omega
  | _ => cases concluded

theorem OnePlace.ages (place : d.OnePlace) {label : Step Obj} (untangled : d.Untangled label) :
    d.Ages label (d.step cfg profileNames label) where
  charged _ concluded fails := charged_copies place.looping concluded fails
  aged copy present := by
    have step := @step_copies _ _ cfg profileNames d copy place.keyed label
    have some := List.count_pos_iff.mpr present
    have more : 0 < (d.copies ++ d.enters label ++ (d.concludes label).toList.flatMap label.leaves).count copy := by
      rw [List.count_append, List.count_append]
      omega
    rcases List.mem_append.mp (List.count_pos_iff.mp more) with before | left
    · exact (List.mem_append.mp before).imp_right fun entering => Or.inl (untangled copy entering)
    · rcases List.mem_flatMap.mp left with ⟨pod, concluded, left⟩
      have held := concludes_copies (Option.mem_toList.mp concluded)
      rcases leaves_of_mem left with same | aged
      · exact Or.inl (same ▸ held)
      · exact Or.inr (Or.inr ⟨pod, Option.mem_toList.mp concluded, held, aged⟩)

theorem one_place (cfg : QueueConfig Obj) (profileNames : List String) (steps : List (Step Obj))
    (untangled : EveryStep (step cfg profileNames) Untangled (new : Dispatch Obj P) steps) :
    AlongRun (step cfg profileNames) (fun d => (d.copies.map Copy.uid).Nodup) (new : Dispatch Obj P) steps ∧
      EveryStep (step cfg profileNames) (fun d label => d.Ages label (d.step cfg profileNames label))
        (new : Dispatch Obj P) steps := by
  have keeps : forall (d : Dispatch Obj P) label, d.OnePlace -> d.Untangled label ->
      (d.step cfg profileNames label).OnePlace := fun d label place fresh => place.step fresh
  constructor
  · exact (AlongRun.of_invariant keeps OnePlace.new untangled).mono fun d place => place.once
  · exact EveryStep.of_invariant keeps (fun d label place fresh => place.ages fresh) OnePlace.new untangled

instance (d : Dispatch Obj P) (label : Step Obj) : Decidable (d.Untangled label) :=
  inferInstanceAs (Decidable (forall copy, copy ∈ d.enters label -> copy.uid ∉ d.copies.map Copy.uid))

/-- No PreEnqueue plugin rejects anything, no plugin waits for an event. -/
private def bareConfig : QueueConfig Unit where
  hints := ⟨.empty⟩
  less _ _ := false
  preEnqueue _ := true
  preEnqueue_spec _ _ _ := rfl
  initialBackoff := 1
  maxBackoff := 10
  maxInUnschedulable := 300

private def barePayloads : Payloads :=
  ⟨fun _ => Unit, Unit, Unit⟩

private def pendingPod : PodInfo where
  podNamespace := "default"
  name := "web"
  uid := "u"
  nodeName := none
  schedulerName := "default-scheduler"
  priority := 0
  affinity := none
  schedulingGates := []
  hostPorts := []
  requests := .zero
  nominatedNodeName := none
  deleting := false
  queuedAt := 0
  attempts := 0

/-- The pod arrives, is popped and fits nowhere, and is parked before the
queue hears that its cycle is over. -/
private def parkedInFlight : List (Step Unit) :=
  [.podEvent (.added pendingPod), .run 1 0, .pop, .run 0 0, .run 0 0, .concludeCycle (.unschedulable ["NodeResourcesFit"] [] none),
    .run 0 1, .run 0 1]

theorem one_place_parkedInFlight :
    AlongRun (step bareConfig ["default-scheduler"]) (fun d => (d.copies.map Copy.uid).Nodup)
      (new : Dispatch Unit barePayloads) parkedInFlight ∧
    EveryStep (step bareConfig ["default-scheduler"])
      (fun d label => d.Ages label (d.step bareConfig ["default-scheduler"] label))
      (new : Dispatch Unit barePayloads) parkedInFlight :=
  one_place bareConfig ["default-scheduler"] parkedInFlight (by decide +kernel)

/-- In one of the active queue, the backoff queue, the pool of parked pods and
the set of pods in flight at most. -/
def Apart (q : SchedulingQueue Obj) : Prop :=
  (q.active.map PodInfo.uid ++ q.backoff.heap.map (fun entry => entry.pod.uid) ++
    q.unschedulable.entries.map Prod.fst ++ q.inFlightUids).Nodup

theorem not_apart_parkedInFlight :
    EveryStep (step bareConfig ["default-scheduler"]) Untangled (new : Dispatch Unit barePayloads) parkedInFlight ∧
      ¬ Apart (run (step bareConfig ["default-scheduler"]) (new : Dispatch Unit barePayloads) parkedInFlight).world.queue := by
  unfold Apart
  decide +kernel

end Dispatch
end NotK8s.Scheduler

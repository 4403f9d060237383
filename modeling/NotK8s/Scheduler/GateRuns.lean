import NotK8s.Scheduler.Gates
import NotK8s.Scheduler.OnePlace

namespace NotK8s.Scheduler

open Library

/-!
# Runs of gated pods

Every door of the queue lets in clear pods only, but for the safety net, which
does not ask PreEnqueue, and but for an object that PreEnqueue rejects and that
replaces one which is past the doors already.
-/

variable {Obj : Type} {P : Payloads}

namespace Task

/-- The pods that a section holds and that are past PreEnqueue. -/
def admits : Task Obj -> List PodInfo
  | .pushActive pod => [pod]
  | .pushBackoff pod => [pod]
  | .addUnschedulable rejection _ => [rejection.pod]
  | .settle rejection _ _ => [rejection.pod]
  | .startBinding pod _ => [pod]
  | _ => []

/-- The pods that a section will show to PreEnqueue. -/
def returns : Task Obj -> List PodInfo
  | .add pod => [pod]
  | .offerBackoff pod => [pod]
  | .updateBackoff pod => [pod]
  | _ => []

def flushes : Task Obj -> Bool
  | .flushTimedOut => true
  | _ => false

end Task

/-- What is asked of the pods on their way. -/
structure Passing (cfg : QueueConfig Obj) (clear : String -> Prop) (tasks : List (Task Obj)) : Prop where
  admits : forall task pod, task ∈ tasks -> pod ∈ task.admits -> clear pod.uid
  returns : forall task pod, task ∈ tasks -> pod ∈ task.returns -> cfg.preEnqueue pod = true -> clear pod.uid

structure Effect.Passing (cfg : QueueConfig Obj) (clear : String -> Prop) (effect : Effect Obj P) : Prop where
  gate : effect.world.queue.Gate cfg clear
  next : Scheduler.Passing cfg clear effect.next
  popped : forall pod, effect.popped = some pod -> clear pod.uid
  binding : forall started, effect.binding = some started -> clear started.pod.uid

section Sections

variable {cfg : QueueConfig Obj} {clear : String -> Prop} {w : World Obj P} {now : Nat} {queue : SchedulingQueue Obj}
  {tasks more : List (Task Obj)}

theorem Passing.nil : Passing cfg clear ([] : List (Task Obj)) :=
  ⟨fun _ _ listed => absurd listed List.not_mem_nil, fun _ _ listed => absurd listed List.not_mem_nil⟩

theorem Passing.append (first : Passing cfg clear tasks) (second : Passing cfg clear more) :
    Passing cfg clear (tasks ++ more) where
  admits task pod listed held :=
    (List.mem_append.mp listed).elim (fun here => first.admits task pod here held) fun here => second.admits task pod here held
  returns task pod listed held :=
    (List.mem_append.mp listed).elim (fun here => first.returns task pod here held) fun here => second.returns task pod here held

theorem Passing.sub (passing : Passing cfg clear tasks) (inside : forall task, task ∈ more -> task ∈ tasks) :
    Passing cfg clear more where
  admits task pod listed held := passing.admits task pod (inside task listed) held
  returns task pod listed held := passing.returns task pod (inside task listed) held

theorem Passing.of_none (none : forall task, task ∈ tasks -> task.admits = [] ∧ task.returns = []) :
    Passing cfg clear tasks where
  admits task _ listed held := by
    rw [(none task listed).1] at held
    cases held
  returns task _ listed held := by
    rw [(none task listed).2] at held
    cases held

theorem Passing.of_admits {f : PodInfo -> Task Obj} {pods : List PodInfo} (holds : forall pod, (f pod).admits = [pod])
    (none : forall pod, (f pod).returns = []) (each : forall pod, pod ∈ pods -> clear pod.uid) :
    Passing cfg clear (pods.map f) where
  admits task pod listed held := by
    rcases List.mem_map.mp listed with ⟨other, there, rfl⟩
    rw [holds] at held
    exact List.mem_singleton.mp held ▸ each other there
  returns task pod listed held := by
    rcases List.mem_map.mp listed with ⟨other, there, rfl⟩
    rw [none] at held
    cases held

theorem Passing.of_returns {f : PodInfo -> Task Obj} {pods : List PodInfo} (holds : forall pod, (f pod).returns = [pod])
    (none : forall pod, (f pod).admits = [])
    (each : forall pod, pod ∈ pods -> cfg.preEnqueue pod = true -> clear pod.uid) : Passing cfg clear (pods.map f) where
  admits task pod listed held := by
    rcases List.mem_map.mp listed with ⟨other, there, rfl⟩
    rw [none] at held
    cases held
  returns task pod listed held passes := by
    rcases List.mem_map.mp listed with ⟨other, there, rfl⟩
    rw [holds] at held
    rcases List.mem_singleton.mp held
    exact each pod there passes

theorem World.queued_passing (gate : queue.Gate cfg clear) (next : Passing cfg clear tasks) :
    (w.queued queue tasks).Passing cfg clear :=
  ⟨gate, next, (fun _ same => nomatch same), fun _ same => nomatch same⟩

theorem World.only_passing (gate : w.queue.Gate cfg clear) : (World.only w).Passing cfg clear :=
  ⟨gate, .nil, (fun _ same => nomatch same), fun _ same => nomatch same⟩

theorem World.perform_delivers {task : Task Obj} {pod : PodInfo} (delivers : task.delivers? = some pod)
    (behind : SchedulingQueue.Gate.Behind cfg clear w.queue pod.uid) (fits : cfg.preEnqueue pod = true -> clear pod.uid) :
    (w.perform cfg now task).Passing cfg clear := by
  cases task with
  | arrive delivered =>
    cases delivers
    exact queued_passing (behind.add fits) .nil
  | update delivered =>
    cases delivers
    have updated := behind.update fits
    simp only [perform]
    rcases found : w.queue.update cfg pod with ⟨_ | merged | _, queue⟩
    all_goals
      rw [found] at updated
      apply queued_passing updated.1
    · exact .nil
    · exact @Passing.of_admits _ cfg clear .pushActive [merged] (fun _ => rfl) (fun _ => rfl) fun other listed =>
        List.mem_singleton.mp listed ▸ updated.2 merged rfl
    · exact @Passing.of_returns _ cfg clear .updateBackoff [pod] (fun _ => rfl) (fun _ => rfl) fun other listed passes =>
        List.mem_singleton.mp listed ▸ fits (List.mem_singleton.mp listed ▸ passes)
  | _ => cases delivers

theorem World.perform_passing {task : Task Obj} (keyed : w.queue.Keyed) (gate : w.queue.Gate cfg clear)
    (quiet : task.delivers? = none) (passing : Passing cfg clear [task])
    (flushed : task = .flushTimedOut -> forall uid entry, w.queue.unschedulable.get uid = some entry ->
      SchedulingQueue.isExpired cfg now entry = true -> clear uid) : (w.perform cfg now task).Passing cfg clear := by
  have admits := fun pod => passing.admits task pod (.head _)
  have returns := fun pod => passing.returns task pod (.head _)
  cases task with
  | add pod => exact queued_passing ((gate.behind pod.uid).add (returns pod (.head _))) .nil
  | arrive pod => cases quiet
  | pushActive pod => exact queued_passing (gate.pushActive (admits pod (.head _))) .nil
  | pushBackoff pod => exact queued_passing (gate.pushBackoff (admits pod (.head _))) .nil
  | offerBackoff pod =>
    simp only [perform]
    split_ifs with passes
    · exact queued_passing (gate.pushBackoff (returns pod List.mem_cons_self passes)) .nil
    · exact queued_passing ((gate.behind pod.uid).add (returns pod (.head _))) .nil
  | update pod => cases quiet
  | updateBackoff pod =>
    have updated := @SchedulingQueue.Gate.updateBackoff _ cfg clear w.queue pod gate
    simp only [perform]
    rcases found : w.queue.updateBackoff pod with ⟨_ | merged | _, queue⟩
    all_goals
      rw [found] at updated
      apply queued_passing updated
    · exact .nil
    · exact .nil
    · exact @Passing.of_returns _ cfg clear .add [pod] (fun _ => rfl) (fun _ => rfl) fun other listed passes =>
        List.mem_singleton.mp listed ▸ returns pod List.mem_cons_self (List.mem_singleton.mp listed ▸ passes)
  | drainExpiredBackoff =>
    have drained := @SchedulingQueue.Gate.drainExpired _ cfg clear w.queue now gate
    exact queued_passing drained.1 (Passing.of_admits (fun _ => rfl) (fun _ => rfl) drained.2)
  | take =>
    have taken := gate.take
    simp only [perform]
    rcases found : w.queue.take with ⟨_ | pod, queue⟩
    · rw [found] at taken
      exact queued_passing taken.1 (Passing.of_none fun task listed => by
        rcases List.mem_cons.mp listed with rfl | listed
        · exact ⟨rfl, rfl⟩
        · rcases List.mem_singleton.mp listed
          exact ⟨rfl, rfl⟩)
    · rw [found] at taken
      exact ⟨taken.1, .nil, taken.2, fun _ same => by cases same⟩
  | done uid | countRescued count => exact queued_passing ⟨gate.active, gate.waiting, gate.parked⟩ .nil
  | addUnschedulable rejection popped =>
    exact queued_passing gate (@Passing.of_admits _ cfg clear (fun pod => .settle { rejection with pod := pod } popped _)
      [rejection.pod] (fun _ => rfl) (fun _ => rfl) fun other listed =>
        List.mem_singleton.mp listed ▸ admits rejection.pod (.head _))
  | settle rejection popped decision =>
    have clean := admits rejection.pod (.head _)
    cases decision with
    | immediately => exact queued_passing (gate.pushActive clean) .nil
    | afterBackoff => exact queued_passing (gate.pushBackoff clean) .nil
    | skip => exact queued_passing (gate.park fun _ => clean) .nil
  | record change => exact queued_passing gate.record .nil
  | sweep change =>
    have parked := fun decision => @SchedulingQueue.Gate.parkedFor _ cfg clear w.queue gate keyed change decision
    exact queued_passing (gate.filter _) ((Passing.of_returns (fun _ => rfl) (fun _ => rfl) (parked .immediately)).append
      (Passing.of_returns (fun _ => rfl) (fun _ => rfl) (parked .afterBackoff)))
  | flushTimedOut =>
    have clean : forall pod, pod ∈ (w.queue.flushTimedOut cfg now).1 -> clear pod.uid := by
      intro pod listed
      rcases List.mem_map.mp listed with ⟨⟨uid, entry⟩, before, rfl⟩
      have there := SortedMap.mem_entries.mp (List.mem_filter.mp before).1
      exact (keyed uid entry there).symm ▸ flushed rfl uid entry there (List.mem_filter.mp before).2
    have left : (w.queue.flushTimedOut cfg now).2.Gate cfg clear := gate.filter fun _ entry => !SchedulingQueue.isExpired cfg now entry
    simp only [perform]
    rcases found : w.queue.flushTimedOut cfg now with ⟨_ | ⟨first, rest⟩, queue⟩
    all_goals rw [found] at clean left
    · exact queued_passing left .nil
    · have idle : Passing cfg clear [(Task.countRescued (first :: rest).length : Task Obj)] := by
        apply Passing.of_none
        intro task listed
        rcases List.mem_singleton.mp listed
        exact ⟨rfl, rfl⟩
      exact queued_passing left (idle.append (Passing.of_admits (fun _ => rfl) (fun _ => rfl) clean))
  | activate uids =>
    have activated := @SchedulingQueue.Gate.activate _ cfg clear w.queue gate keyed uids
    exact queued_passing activated.1 (Passing.of_returns (fun _ => rfl) (fun _ => rfl) activated.2)
  | removeInner uid => exact queued_passing (gate.removeInner uid) .nil
  | removeBackoff uid => exact queued_passing (gate.removeBackoff uid) .nil
  | startBinding pod popped =>
    refine ⟨gate, .nil, (fun _ same => by cases same), ?_⟩
    intro started same
    cases same
    exact admits pod (.head _)
  | _ => exact only_passing gate

end Sections

/-! ## Runs -/

namespace Dispatch

variable {cfg : QueueConfig Obj} {profileNames : List String} {d : Dispatch Obj P} {clear : String -> Prop}

/-- PreEnqueue passes what was last delivered. -/
def passed (cfg : QueueConfig Obj) (d : Dispatch Obj P) (uid : String) : Bool :=
  match d.delivered.get uid with
  | none => true
  | some pod => cfg.preEnqueue pod

/-- The pods that are past the doors. -/
def admitted (d : Dispatch Obj P) : List PodInfo :=
  d.world.queue.active ++ d.world.queue.backoff.heap.map Entry.pod ++ d.threads.flatten.flatMap Task.admits ++
    (d.cycle.toList.map Popped.pod ++ d.bindings.map Popped.pod)

/-- The pods on their way to a door. -/
def returning (d : Dispatch Obj P) : List PodInfo :=
  d.threads.flatten.flatMap Task.returns

/-- An object that PreEnqueue rejects comes for a pod that is past no door, and
that no older object takes there. -/
def Intercepts (cfg : QueueConfig Obj) (d : Dispatch Obj P) (pod : PodInfo) : Prop :=
  cfg.preEnqueue pod = false -> (forall other, other ∈ d.admitted -> other.uid ≠ pod.uid) ∧
    forall other, other ∈ d.returning -> other.uid = pod.uid -> cfg.preEnqueue other = false

def Guards (cfg : QueueConfig Obj) (d : Dispatch Obj P) (now : Nat) (task : Task Obj) : Prop :=
  (forall pod, pod ∈ task.delivers?.toList -> d.Intercepts cfg pod) ∧
    (task.flushes = true -> forall entry, entry ∈ d.world.queue.unschedulable.entries ->
      SchedulingQueue.isExpired cfg now entry.2 = true -> d.passed cfg entry.1 = true)

/-- The section that a step performs, and when. -/
def turn? (d : Dispatch Obj P) : Step Obj -> Option (Nat × Task Obj)
  | .run thread now =>
    match d.threads[thread]? with
    | some (task :: _) => some (now, task)
    | _ => none
  | _ => none

/-- The safety net finds no gated pod, and an object with a gate finds its pod
parked. -/
def Guarded (cfg : QueueConfig Obj) (d : Dispatch Obj P) (label : Step Obj) : Prop :=
  forall turn, turn ∈ (d.turn? label).toList -> d.Guards cfg turn.1 turn.2

/-- The pod that a step pops. -/
def pops (cfg : QueueConfig Obj) (d : Dispatch Obj P) (label : Step Obj) : Option PodInfo :=
  (d.turn? label).bind fun turn => (d.world.perform cfg turn.1 turn.2).popped

structure Gated (cfg : QueueConfig Obj) (clear : String -> Prop) (d : Dispatch Obj P) : Prop where
  keyed : d.world.queue.Keyed
  gate : d.world.queue.Gate cfg clear
  threads : forall tasks, tasks ∈ d.threads -> Passing cfg clear tasks
  cycle : forall popped, d.cycle = some popped -> clear popped.pod.uid
  bindings : forall started, started ∈ d.bindings -> clear started.pod.uid

theorem Gated.new : (new : Dispatch Obj P).Gated cfg clear where
  keyed := SchedulingQueue.Keyed.new
  gate := ⟨fun _ listed => absurd listed List.not_mem_nil, fun _ listed => absurd listed List.not_mem_nil,
    fun _ _ found => nomatch found⟩
  threads tasks listed := by
    have none : tasks = [] := by
      simpa [Dispatch.new] using listed
    rw [none]
    exact .nil
  cycle _ same := nomatch same
  bindings _ listed := absurd listed List.not_mem_nil

theorem Gated.enqueue (gated : d.Gated cfg clear) {thread : Nat} {tasks : List (Task Obj)}
    (passing : Passing cfg clear tasks) : (d.enqueue thread tasks).Gated cfg clear := by
  unfold Dispatch.enqueue
  cases there : d.threads[thread]? with
  | none => exact gated
  | some pending =>
    refine ⟨gated.keyed, gated.gate, ?_, gated.cycle, gated.bindings⟩
    intro other listed
    rcases List.mem_or_eq_of_mem_set listed with before | rfl
    · exact gated.threads other before
    · exact (gated.threads pending (List.mem_of_getElem? there)).append passing

theorem Gated.spawn (gated : d.Gated cfg clear) {tasks : List (Task Obj)} (passing : Passing cfg clear tasks) :
    (d.spawn tasks).Gated cfg clear := by
  refine ⟨gated.keyed, gated.gate, ?_, gated.cycle, gated.bindings⟩
  intro other listed
  rcases List.mem_append.mp listed with before | new
  · exact gated.threads other before
  · exact List.mem_singleton.mp new ▸ passing

theorem performTask_passed {thread now : Nat} {task : Task Obj} {rest : List (Task Obj)} {uid : String} :
    (d.performTask cfg thread now task rest).passed cfg uid =
      match task.delivers? with
      | none => d.passed cfg uid
      | some pod => if uid = pod.uid then cfg.preEnqueue pod else d.passed cfg uid := by
  unfold passed performTask
  cases task.delivers? with
  | none => rfl
  | some pod =>
    dsimp only
    rw [SortedMap.get_insert]
    split_ifs <;> rfl

/-- What the section leaves when the rest of the state is right already. -/
theorem Gated.performTask {clear' : String -> Prop} {thread now : Nat} {task : Task Obj} {rest : List (Task Obj)}
    (keyed : d.world.queue.Keyed) (effect : (d.world.perform cfg now task).Passing cfg clear')
    (threads : forall tasks, tasks ∈ d.threads -> Passing cfg clear' tasks) (later : Passing cfg clear' rest)
    (cycle : forall popped, d.cycle = some popped -> clear' popped.pod.uid)
    (bindings : forall started, started ∈ d.bindings -> clear' started.pod.uid) :
    (d.performTask cfg thread now task rest).Gated cfg clear' where
  keyed := World.perform_keyed keyed task
  gate := effect.gate
  threads tasks listed := by
    rcases List.mem_or_eq_of_mem_set listed with before | rfl
    · exact threads tasks before
    · exact effect.next.append later
  cycle popped same := by
    unfold Dispatch.performTask at same
    dsimp only at same
    cases taken : (d.world.perform cfg now task).popped with
    | none =>
      rw [taken] at same
      exact cycle popped same
    | some pod =>
      rw [taken] at same
      cases same
      exact effect.popped pod taken
  bindings started listed := by
    rcases List.mem_append.mp listed with before | new
    · exact bindings started before
    · exact effect.binding started (Option.mem_toList.mp new)

section
variable {pod : PodInfo}

theorem admitted_of_active (listed : pod ∈ d.world.queue.active) : pod ∈ d.admitted :=
  List.mem_append_left _ (List.mem_append_left _ (List.mem_append_left _ listed))

theorem admitted_of_waiting (listed : pod ∈ d.world.queue.backoff.heap.map Entry.pod) : pod ∈ d.admitted :=
  List.mem_append_left _ (List.mem_append_left _ (List.mem_append_right _ listed))

theorem admitted_of_threads (listed : pod ∈ d.threads.flatten.flatMap Task.admits) : pod ∈ d.admitted :=
  List.mem_append_left _ (List.mem_append_right _ listed)

theorem admitted_of_cycles (listed : pod ∈ d.cycle.toList.map Popped.pod ++ d.bindings.map Popped.pod) : pod ∈ d.admitted :=
  List.mem_append_right _ listed

end

theorem Gated.run (gated : d.Gated cfg fun uid => d.passed cfg uid = true) {thread now : Nat} {task : Task Obj}
    {rest : List (Task Obj)} (next : d.threads[thread]? = some (task :: rest)) (guards : d.Guards cfg now task) :
    (d.performTask cfg thread now task rest).Gated cfg
      fun uid => (d.performTask cfg thread now task rest).passed cfg uid = true := by
  have pending := gated.threads _ (List.mem_of_getElem? next)
  have own : Passing cfg _ [task] := pending.sub fun other listed => List.mem_singleton.mp listed ▸ .head _
  have later : Passing cfg _ rest := pending.sub fun other listed => List.mem_cons_of_mem task listed
  have same := @performTask_passed _ _ cfg d thread now task rest
  cases delivers : task.delivers? with
  | none =>
    simp only [delivers] at same
    simp only [same]
    refine Gated.performTask gated.keyed (World.perform_passing gated.keyed gated.gate delivers own ?_) gated.threads
      later gated.cycle gated.bindings
    rintro rfl uid entry found expired
    exact guards.2 rfl (uid, entry) (SortedMap.mem_entries.mpr found) expired
  | some pod =>
    have intercepts := guards.1 pod (Option.mem_toList.mpr delivers)
    simp only [delivers] at same
    simp only [same]
    have fits : cfg.preEnqueue pod = true -> (if pod.uid = pod.uid then cfg.preEnqueue pod else d.passed cfg pod.uid) = true := by
      intro passes
      rw [if_pos rfl]
      exact passes
    have kept : forall uid, d.passed cfg uid = true -> (cfg.preEnqueue pod = false -> uid ≠ pod.uid) ->
        (if uid = pod.uid then cfg.preEnqueue pod else d.passed cfg uid) = true := by
      intro uid clean other
      split_ifs with here
      · exact Bool.eq_true_of_not_eq_false fun rejects => other rejects here
      · exact clean
    have apart : forall other, other ∈ d.admitted -> cfg.preEnqueue pod = false -> other.uid ≠ pod.uid :=
      fun other listed rejects => (intercepts rejects).1 other listed
    have moving : forall tasks, tasks ∈ d.threads -> Passing cfg
        (fun uid => (if uid = pod.uid then cfg.preEnqueue pod else d.passed cfg uid) = true) tasks := by
      intro tasks listed
      have passing := gated.threads tasks listed
      refine ⟨?_, ?_⟩
      · intro other held there inside
        exact kept held.uid (passing.admits other held there inside) (apart held
          (admitted_of_threads (List.mem_flatMap.mpr ⟨other, List.mem_flatten.mpr ⟨tasks, listed, there⟩, inside⟩)))
      · intro other held there inside passes
        refine kept held.uid (passing.returns other held there inside passes) ?_
        intro rejects here
        have older := (intercepts rejects).2 held
          (List.mem_flatMap.mpr ⟨other, List.mem_flatten.mpr ⟨tasks, listed, there⟩, inside⟩) here
        exact Bool.false_ne_true (older.symm.trans passes)
    have behind : SchedulingQueue.Gate.Behind cfg
        (fun uid => (if uid = pod.uid then cfg.preEnqueue pod else d.passed cfg uid) = true) d.world.queue pod.uid := by
      refine ⟨?_, ?_, ?_⟩
      · intro held listed
        exact kept held.uid (gated.gate.active held listed) (apart held (admitted_of_active listed))
      · intro entry listed
        exact kept entry.pod.uid (gated.gate.waiting entry listed) (apart entry.pod
          (admitted_of_waiting (List.mem_map_of_mem listed)))
      · intro other entry found passes
        by_cases here : other = pod.uid
        · exact Or.inr here
        · exact Or.inl (kept other (gated.gate.parked other entry found passes) fun _ => here)
    refine Gated.performTask gated.keyed (World.perform_delivers delivers behind fits) moving
      ((moving _ (List.mem_of_getElem? next)).sub fun other listed => List.mem_cons_of_mem task listed) ?_ ?_
    · intro popped inCycle
      refine kept popped.pod.uid (gated.cycle popped inCycle) (apart popped.pod (admitted_of_cycles ?_))
      rw [inCycle]
      exact List.mem_append_left _ (.head _)
    · intro started listed
      exact kept started.pod.uid (gated.bindings started listed) (apart started.pod (admitted_of_cycles
        (List.mem_append_right _ (List.mem_map_of_mem listed))))

end Dispatch

/-! ## What the loops do -/

section

variable {cfg : QueueConfig Obj} {clear : String -> Prop} {task : Task Obj} {rest : List (Task Obj)}

theorem Passing.idle (admits : task.admits = []) (returns : task.returns = []) (later : Passing cfg clear rest) :
    Passing cfg clear (task :: rest) :=
  have idle : Passing cfg clear [task] := .of_none fun _ listed => List.mem_singleton.mp listed ▸ ⟨admits, returns⟩
  idle.append later

theorem Passing.carry {pod : PodInfo} (clean : clear pod.uid) (admits : task.admits = [pod]) (returns : task.returns = [])
    (later : Passing cfg clear rest) : Passing cfg clear (task :: rest) :=
  have single : Passing cfg clear [task] := ⟨fun _ _ listed inside => by
    rw [List.mem_singleton.mp listed, admits] at inside
    exact List.mem_singleton.mp inside ▸ clean, fun _ _ listed inside => by
    rw [List.mem_singleton.mp listed, returns] at inside
    exact absurd inside List.not_mem_nil⟩
  single.append later

theorem CycleOutcome.tasks_passing {popped : Popped} (clean : clear popped.pod.uid) (outcome : CycleOutcome) :
    Passing cfg clear (outcome.tasks popped : List (Task Obj)) := by
  have charged : clear popped.pod.charged.uid := clean
  cases outcome with
  | unserved => exact .idle rfl rfl .nil
  | reserveRejected plugins | error => exact .carry charged rfl rfl (.idle rfl rfl .nil)
  | scheduled node => exact .idle rfl rfl (.idle rfl rfl (.idle rfl rfl (.idle rfl rfl (.carry clean rfl rfl .nil))))
  | unschedulable unschedulablePlugins pendingPlugins preempting =>
    cases preempting with
    | none => exact .carry charged rfl rfl (.idle rfl rfl .nil)
    | some node => exact .idle rfl rfl (.carry charged rfl rfl (.idle rfl rfl .nil))

theorem moveAll_passing (change : Change Obj) : Passing cfg clear (moveAllToActiveOrBackoff change) :=
  .idle rfl rfl (.idle rfl rfl .nil)

theorem removeFromQueue_passing (uid : String) : Passing cfg clear (removeFromQueue uid : List (Task Obj)) :=
  .idle rfl rfl (.idle rfl rfl .nil)

theorem BindOutcome.tasks_passing {popped : Popped} (clean : clear popped.pod.uid) (outcome : BindOutcome) :
    Passing cfg clear (outcome.tasks popped : List (Task Obj)) := by
  have charged : clear popped.pod.charged.uid := clean
  have released : Passing cfg clear (release popped.pod.uid : List (Task Obj)) := .idle rfl rfl (.idle rfl rfl .nil)
  cases outcome with
  | bound => exact .idle rfl rfl .nil
  | cancelled => exact (released.append (removeFromQueue_passing popped.pod.uid)).append (moveAll_passing _)
  | rejected plugins | failed => exact (released.append (.carry charged rfl rfl .nil)).append (moveAll_passing _)

theorem changeTasks_passing (change : Option (Change Obj)) : Passing cfg clear (changeTasks change) := by
  cases change with
  | none => exact .nil
  | some change => exact moveAll_passing change

theorem handlePodEvent_passing (profileNames : List String) (event : PodEvent Obj) :
    Passing cfg clear (handlePodEvent profileNames event) := by
  have nominated : forall pod : PodInfo, Passing cfg clear (nominateFromStatus pod : List (Task Obj)) := by
    intro pod
    unfold nominateFromStatus
    cases pod.nominatedNodeName with
    | none => exact .nil
    | some node => exact .idle rfl rfl .nil
  cases event with
  | added pod =>
    unfold handlePodEvent
    dsimp only
    cases routePod pod profileNames with
    | cache => exact (removeFromQueue_passing pod.uid).append (.idle rfl rfl (.idle rfl rfl (.idle rfl rfl .nil)))
    | queue => exact (nominated pod).append (.idle rfl rfl .nil)
    | ignore => exact (removeFromQueue_passing pod.uid).append (.idle rfl rfl .nil)
  | modified pod change =>
    unfold handlePodEvent
    dsimp only
    cases routePod pod profileNames with
    | cache =>
      exact ((removeFromQueue_passing pod.uid).append
        (.idle rfl rfl (.idle rfl rfl (.idle rfl rfl .nil)))).append (changeTasks_passing change)
    | queue => exact ((nominated pod).append (.idle rfl rfl .nil)).append (changeTasks_passing change)
    | ignore => exact (removeFromQueue_passing pod.uid).append (.idle rfl rfl .nil)
  | deleted pod old =>
    unfold handlePodEvent
    dsimp only
    split_ifs
    · exact ((removeFromQueue_passing pod.uid).append (.idle rfl rfl (.idle rfl rfl .nil))).append
        (.idle rfl rfl (moveAll_passing _))
    · exact ((removeFromQueue_passing pod.uid).append (.idle rfl rfl (.idle rfl rfl .nil))).append .nil

end

namespace Dispatch

variable {cfg : QueueConfig Obj} {profileNames : List String} {d : Dispatch Obj P}

theorem enqueue_passed {thread : Nat} {tasks : List (Task Obj)} {uid : String} :
    (d.enqueue thread tasks).passed cfg uid = d.passed cfg uid := by
  unfold Dispatch.enqueue
  cases d.threads[thread]? <;> rfl

theorem Gated.step (gated : d.Gated cfg fun uid => d.passed cfg uid = true) {label : Step Obj}
    (guarded : d.Guarded cfg label) :
    (d.step cfg profileNames label).Gated cfg fun uid => (d.step cfg profileNames label).passed cfg uid = true := by
  cases label with
  | run thread now =>
    simp only [Dispatch.step]
    split
    · rename_i task rest next
      refine gated.run next (guarded (now, task) ?_)
      simp only [turn?, next, Option.toList_some]
      exact .head _
    · exact gated
  | pop =>
    simp only [Dispatch.step]
    split
    · rename_i idle _
      refine ⟨gated.keyed, gated.gate, ?_, gated.cycle, gated.bindings⟩
      intro tasks listed
      rcases List.mem_or_eq_of_mem_set listed with before | rfl
      · exact gated.threads tasks before
      · exact .idle rfl rfl (.idle rfl rfl .nil)
    · exact gated
  | concludeCycle outcome =>
    simp only [Dispatch.step]
    cases inCycle : d.cycle with
    | none => exact gated
    | some popped =>
      have ended : ({ d with cycle := none } : Dispatch Obj P).Gated cfg fun uid => d.passed cfg uid = true :=
        ⟨gated.keyed, gated.gate, gated.threads, (fun _ same => by cases same), gated.bindings⟩
      have enqueued := @Gated.enqueue _ _ cfg { d with cycle := none } _ ended 0 (outcome.tasks popped)
        (outcome.tasks_passing (gated.cycle popped inCycle))
      simp only [enqueue_passed]
      exact enqueued
  | concludeBinding binding outcome =>
    simp only [Dispatch.step]
    cases there : d.bindings[binding]? with
    | none => exact gated
    | some popped =>
      have ended : ({ d with bindings := d.bindings.eraseIdx binding } : Dispatch Obj P).Gated cfg
          fun uid => d.passed cfg uid = true :=
        ⟨gated.keyed, gated.gate, gated.threads, gated.cycle, fun started listed =>
          gated.bindings started ((List.eraseIdx_sublist _ _).subset listed)⟩
      exact ended.spawn (outcome.tasks_passing (gated.bindings popped (List.mem_of_getElem? there)))
  | podEvent event =>
    simp only [Dispatch.step, enqueue_passed]
    exact gated.enqueue (handlePodEvent_passing profileNames event)
  | nodeApplied node preserve change =>
    simp only [Dispatch.step, enqueue_passed]
    exact gated.enqueue (.idle rfl rfl (changeTasks_passing change))
  | nodeDeleted name | safetyNet =>
    simp only [Dispatch.step, enqueue_passed]
    exact gated.enqueue (.idle rfl rfl .nil)
  | otherEvent change =>
    simp only [Dispatch.step, enqueue_passed]
    exact gated.enqueue (moveAll_passing change)
  | activate uids => exact gated.spawn (.idle rfl rfl .nil)

theorem pops_cycle {label : Step Obj} {pod : PodInfo} (popped : d.pops cfg label = some pod) :
    Exists fun since => (d.step cfg profileNames label).cycle = some ⟨pod, since⟩ := by
  cases label with
  | run thread now =>
    simp only [pops, turn?, step] at popped ⊢
    cases there : d.threads[thread]? with
    | none =>
      rw [there] at popped
      cases popped
    | some pending =>
      rw [there] at popped
      cases pending with
      | nil => cases popped
      | cons task rest =>
        change (d.world.perform cfg now task).popped = some pod at popped
        unfold performTask
        dsimp only
        rw [popped]
        exact ⟨_, rfl⟩
  | _ => cases popped

theorem pops_ungated (cfg : QueueConfig Obj) (profileNames : List String) (steps : List (Step Obj))
    (guarded : EveryStep (step cfg profileNames) (Guarded cfg) (new : Dispatch Obj P) steps) :
    EveryStep (step cfg profileNames)
      (fun d label => forall pod, d.pops cfg label = some pod -> (d.step cfg profileNames label).passed cfg pod.uid = true)
      (new : Dispatch Obj P) steps := by
  have keeps : forall (d : Dispatch Obj P) label, (d.Gated cfg fun uid => d.passed cfg uid = true) -> d.Guarded cfg label ->
      (d.step cfg profileNames label).Gated cfg fun uid => (d.step cfg profileNames label).passed cfg uid = true :=
    fun d label gated guards => gated.step guards
  refine EveryStep.of_invariant keeps ?_ Gated.new guarded
  intro d label gated guards pod popped
  rcases pops_cycle popped with ⟨since, inCycle⟩
  exact (keeps d label gated guards).cycle ⟨pod, since⟩ inCycle

instance (d : Dispatch Obj P) (pod : PodInfo) : Decidable (d.Intercepts cfg pod) :=
  inferInstanceAs (Decidable (_ -> _ ∧ _))

instance (d : Dispatch Obj P) (now : Nat) (task : Task Obj) : Decidable (d.Guards cfg now task) :=
  inferInstanceAs (Decidable (_ ∧ _))

instance (d : Dispatch Obj P) (label : Step Obj) : Decidable (d.Guarded cfg label) :=
  inferInstanceAs (Decidable (forall turn, turn ∈ (d.turn? label).toList -> d.Guards cfg turn.1 turn.2))

/-- PreEnqueue asks for the gates only. -/
private def gatesConfig : QueueConfig Unit where
  hints := ⟨.empty⟩
  less _ _ := false
  preEnqueue pod := pod.schedulingGates.isEmpty
  preEnqueue_spec _ _ _ := rfl
  initialBackoff := 1
  maxBackoff := 10
  maxInUnschedulable := 300

private def gatesPayloads : Payloads :=
  ⟨fun _ => Unit, Unit, Unit⟩

private def podBehind (gates : List String) : PodInfo :=
  ⟨"default", "web", "u", none, "default-scheduler", 0, none, gates, [], .zero, none, false, 0, 0⟩

theorem pops_ungated_released :
    EveryStep (step gatesConfig ["default-scheduler"])
      (fun d label => forall pod, d.pops gatesConfig label = some pod ->
        (d.step gatesConfig ["default-scheduler"] label).passed gatesConfig pod.uid = true)
      (new : Dispatch Unit gatesPayloads)
      [.podEvent (.added (podBehind ["quota"])), .run 1 0, .podEvent (.modified (podBehind []) none), .run 1 1, .run 1 1, .pop,
        .run 0 2, .run 0 2] :=
  pops_ungated gatesConfig ["default-scheduler"] _ (by decide +kernel)

/-- The safety net puts a gated pod into backoff, and from there it is popped. -/
theorem not_pops_ungated_flushed :
    ¬ EveryStep (step gatesConfig ["default-scheduler"])
      (fun d label => forall pod, d.pops gatesConfig label = some pod ->
        (d.step gatesConfig ["default-scheduler"] label).passed gatesConfig pod.uid = true)
      (new : Dispatch Unit gatesPayloads)
      [.podEvent (.added (podBehind ["quota"])), .run 1 0, .safetyNet, .run 2 300, .run 2 300, .run 2 300, .pop, .run 0 400,
        .run 0 400, .run 0 400] := by
  intro every
  have last := every.2.2.2.2.2.2.2.2.2.1 (podBehind ["quota"]) (by decide +kernel)
  revert last
  decide +kernel

end Dispatch
end NotK8s.Scheduler

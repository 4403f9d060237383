import NotK8s.Library.Ledger
import NotK8s.Scheduler.Copies

namespace NotK8s.Scheduler

open Library

/-!
# What a section hands on

A section hands on the copies that it holds.  Only two sections bring in a
copy that was not there: the first sighting of a pod, and an update that finds
the pod nowhere in the queue.
-/

/-- Bound, and not yet confirmed by the watch. -/
def AssumedPods.bound (a : AssumedPods) : List Copy :=
  (a.byUid.entries.filter fun entry => entry.2.bindingFinished).map fun entry => ⟨entry.1, none⟩

variable {Obj : Type} {P : Payloads}

namespace Task

/-- What a section holds until it is performed. -/
def copies : Task Obj -> List Copy
  | .add pod => [pod.copy]
  | .pushActive pod => [pod.copy]
  | .pushBackoff pod => [pod.copy]
  | .offerBackoff pod => [pod.copy]
  | .addUnschedulable rejection _ => [rejection.pod.copy]
  | .settle rejection _ _ => [rejection.pod.copy]
  | .startBinding pod _ => [pod.copy]
  | .finishBinding uid => [⟨uid, none⟩]
  | _ => []

/-- What a section brings in. -/
def brings (w : World Obj P) : Task Obj -> List Copy
  | .arrive pod => [pod.copy]
  | .updateBackoff pod => if w.queue.backoff.contains pod.uid then [] else [pod.copy]
  | _ => []

theorem flatMap_copies {f : PodInfo -> Task Obj} (holds : forall pod, (f pod).copies = [pod.copy]) (pods : List PodInfo) :
    (pods.map f).flatMap copies = pods.map PodInfo.copy := by
  induction pods with
  | nil => rfl
  | cons first rest ih =>
    rw [List.map_cons, List.flatMap_cons, holds, ih]
    rfl

end Task

def World.copies (w : World Obj P) : List Copy :=
  w.queue.copies ++ w.assumed.bound

def Effect.copies (effect : Effect Obj P) : List Copy :=
  effect.world.copies ++ effect.next.flatMap Task.copies ++
    (effect.popped.toList.map PodInfo.copy ++ effect.binding.toList.map fun started => started.pod.copy)

/-! ## One section -/

section Sections

variable {cfg : QueueConfig Obj} {now : Nat} {w : World Obj P} {copy : Copy} {uid : String}

theorem AssumedPods.bound_insert {a : AssumedPods} {assumed : Assumed} :
    (AssumedPods.mk (a.byUid.insert uid assumed)).bound.count copy ≤
      a.bound.count copy + if assumed.bindingFinished then [(⟨uid, none⟩ : Copy)].count copy else 0 := by
  have shuffled := (((@SortedMap.insert_perm_erase _ _ _ a.byUid uid assumed).filter
    fun entry => entry.2.bindingFinished).map fun entry => (⟨entry.1, none⟩ : Copy)).count_eq copy
  have fewer := (((List.filter_sublist (l := a.byUid.entries) (p := fun entry => entry.1 ≠ uid)).filter
    fun entry => entry.2.bindingFinished).map fun entry => (⟨entry.1, none⟩ : Copy)).count_le copy
  change (((a.byUid.insert uid assumed).entries.filter _).map _).count copy ≤ ((a.byUid.entries.filter _).map _).count copy + _
  change (((a.byUid.erase uid).entries.filter _).map _).count copy ≤ _ at fewer
  rw [List.filter_cons] at shuffled
  split_ifs at shuffled ⊢ with finished
  · rw [List.map_cons, count_cons_eq] at shuffled
    dsimp only at shuffled
    omega
  · omega

theorem AssumedPods.forget_bound {a : AssumedPods} : (a.forget uid).bound.count copy ≤ a.bound.count copy :=
  ((List.filter_sublist.filter _).map _).count_le copy

theorem AssumedPods.finishBinding_bound {a : AssumedPods} :
    (a.finishBinding uid).bound.count copy ≤ a.bound.count copy + [(⟨uid, none⟩ : Copy)].count copy := by
  unfold finishBinding
  cases a.byUid.get uid with
  | none => exact Nat.le_add_right _ _
  | some assumed => exact bound_insert

theorem World.copies_count : w.copies.count copy = w.queue.copies.count copy + w.assumed.bound.count copy :=
  List.count_append

theorem World.queued_copies {queue : SchedulingQueue Obj} {next : List (Task Obj)} :
    (w.queued queue next).copies.count copy =
      queue.copies.count copy + w.assumed.bound.count copy + (next.flatMap Task.copies).count copy := by
  unfold Effect.copies
  rw [List.count_append, List.count_append, World.copies_count]
  rfl

theorem World.only_copies : (World.only w).copies.count copy = w.queue.copies.count copy + w.assumed.bound.count copy := by
  unfold Effect.copies
  rw [List.count_append, List.count_append, World.copies_count]
  rfl

theorem World.perform_copies (keyed : w.queue.Keyed) (task : Task Obj) :
    (w.perform cfg now task).copies.count copy ≤
      w.copies.count copy + task.copies.count copy + (task.brings w).count copy := by
  rw [World.copies_count]
  cases task with
  | add pod | arrive pod =>
    have moved := @SchedulingQueue.add_copies _ cfg w.queue pod now copy
    simp only [perform, Task.copies, Task.brings, queued_copies, List.flatMap_nil, List.count_nil]
    omega
  | pushActive pod =>
    have moved := @SchedulingQueue.pushActive_copies _ cfg w.queue pod copy
    simp only [perform, Task.copies, Task.brings, queued_copies, List.flatMap_nil, List.count_nil]
    omega
  | pushBackoff pod =>
    have moved := @SchedulingQueue.pushBackoff_copies _ cfg w.queue pod now copy
    simp only [perform, Task.copies, Task.brings, queued_copies, List.flatMap_nil, List.count_nil]
    omega
  | offerBackoff pod =>
    have pushed := @SchedulingQueue.pushBackoff_copies _ cfg w.queue pod now copy
    have added := @SchedulingQueue.add_copies _ cfg w.queue pod now copy
    simp only [perform]
    split_ifs
    all_goals
      simp only [Task.copies, Task.brings, queued_copies, List.flatMap_nil, List.count_nil]
      omega
  | update pod =>
    have moved := @SchedulingQueue.update_copies _ cfg w.queue pod copy keyed
    simp only [perform, Task.copies, Task.brings]
    rcases found : w.queue.update cfg pod with ⟨_ | merged | _, queue⟩
    all_goals
      rw [found] at moved
      simp only [Found.copies, queued_copies, List.flatMap_cons, Task.copies, List.flatMap_nil, List.append_nil,
        List.count_nil] at moved ⊢
      omega
  | updateBackoff pod =>
    have moved := @SchedulingQueue.updateBackoff_copies _ w.queue pod copy
    simp only [perform, Task.copies, Task.brings]
    rcases found : w.queue.updateBackoff pod with ⟨_ | merged | _, queue⟩
    all_goals
      rw [found] at moved
      simp only [Found.copies, queued_copies, List.flatMap_cons, Task.copies, List.flatMap_nil, List.append_nil,
        List.count_nil] at moved ⊢
    · omega
    · cases moved.2
    · rw [if_neg (SchedulingQueue.missing_backoff found)]
      omega
  | drainExpiredBackoff =>
    have moved := @SchedulingQueue.drainExpired_copies _ w.queue now copy
    simp only [perform, Task.copies, Task.brings, queued_copies, @Task.flatMap_copies Obj .pushActive fun _ => rfl,
      List.count_nil]
    omega
  | take =>
    have moved := @SchedulingQueue.take_copies _ w.queue copy
    simp only [perform, Task.copies, Task.brings]
    rcases found : w.queue.take with ⟨_ | pod, queue⟩
    · rw [found] at moved
      simp only [queued_copies, List.flatMap_cons, Task.copies, List.flatMap_nil, List.append_nil, Option.toList_none,
        List.map_nil, List.count_nil] at moved ⊢
      omega
    · rw [found] at moved
      unfold Effect.copies
      rw [List.count_append, List.count_append, World.copies_count]
      change queue.copies.count copy + w.assumed.bound.count copy + 0 + [pod.copy].count copy ≤ _ + 0 + 0
      change queue.copies.count copy + [pod.copy].count copy = _ at moved
      omega
  | done uid =>
    have same := @SchedulingQueue.copies_of_eq _ w.queue (w.queue.done uid) rfl rfl rfl
    simp only [perform, Task.copies, Task.brings, queued_copies, List.flatMap_nil, List.count_nil, same]
    omega
  | record change =>
    simp only [perform, Task.copies, Task.brings, queued_copies, SchedulingQueue.record_copies, List.flatMap_nil,
      List.count_nil]
    omega
  | countRescued count =>
    have same := @SchedulingQueue.copies_of_eq _ w.queue
      { w.queue with rescuedByTimeout := w.queue.rescuedByTimeout + count } rfl rfl rfl
    simp only [perform, Task.copies, Task.brings, queued_copies, List.flatMap_nil, List.count_nil, same]
    omega
  | addUnschedulable rejection popped =>
    simp only [perform, Task.copies, Task.brings, queued_copies, List.flatMap_cons, List.flatMap_nil, List.append_nil,
      List.count_nil]
    omega
  | settle rejection popped decision =>
    have active := @SchedulingQueue.pushActive_copies _ cfg w.queue rejection.pod copy
    have waiting := @SchedulingQueue.pushBackoff_copies _ cfg w.queue rejection.pod now copy
    have parked := @SchedulingQueue.park_copies _ w.queue now copy rejection false
    cases decision
    all_goals
      simp only [perform, Task.copies, Task.brings, queued_copies, List.flatMap_nil, List.count_nil]
      omega
  | sweep change =>
    have moved := @SchedulingQueue.sweep_copies _ cfg w.queue copy change
    simp only [perform, Task.copies, Task.brings, queued_copies, List.flatMap_append,
      @Task.flatMap_copies Obj .add fun _ => rfl, @Task.flatMap_copies Obj .offerBackoff fun _ => rfl,
      List.count_append, List.count_nil]
    omega
  | flushTimedOut =>
    have moved := @SchedulingQueue.flushTimedOut_copies _ cfg w.queue now copy
    simp only [perform, Task.copies, Task.brings]
    rcases found : w.queue.flushTimedOut cfg now with ⟨_ | ⟨first, rest⟩, queue⟩
    all_goals
      rw [found] at moved
      simp only [queued_copies, List.flatMap_cons, Task.copies, @Task.flatMap_copies Obj .pushBackoff fun _ => rfl,
        List.flatMap_nil, List.nil_append, List.map_nil, List.count_nil] at moved ⊢
      omega
  | activate uids =>
    have moved := @SchedulingQueue.activate_copies _ w.queue copy uids
    simp only [perform, Task.copies, Task.brings, queued_copies, @Task.flatMap_copies Obj .add fun _ => rfl,
      List.count_nil]
    omega
  | removeInner uid =>
    have moved := @SchedulingQueue.removeInner_copies _ w.queue copy uid
    simp only [perform, Task.copies, Task.brings, queued_copies, List.flatMap_nil, List.count_nil]
    omega
  | removeBackoff uid =>
    have moved := @SchedulingQueue.removeBackoff_copies _ w.queue copy uid
    simp only [perform, Task.copies, Task.brings, queued_copies, List.flatMap_nil, List.count_nil]
    omega
  | assume pod node =>
    have bound := @AssumedPods.bound_insert copy pod.uid w.assumed ⟨{ pod with nodeName := some node }, node, false⟩
    simp only [perform, Task.copies, Task.brings, List.count_nil]
    rw [World.only_copies]
    exact Nat.add_le_add_left bound _
  | forget uid =>
    have bound := @AssumedPods.forget_bound copy uid w.assumed
    simp only [perform, Task.copies, Task.brings, List.count_nil]
    rw [World.only_copies]
    exact Nat.add_le_add_left bound _
  | finishBinding uid =>
    have bound := @AssumedPods.finishBinding_bound copy uid w.assumed
    simp only [perform, Task.copies, Task.brings, List.count_nil]
    rw [World.only_copies]
    dsimp only
    omega
  | addPod pod | removePod uid | upsertNode node preserve | removeNode name | nominate pod node | withdraw uid =>
    simp only [perform, Task.copies, Task.brings, List.count_nil]
    rw [World.only_copies]
    exact Nat.le_refl _
  | startBinding pod popped =>
    have started : (Effect.mk w [] none (some ⟨pod, popped⟩)).copies.count copy =
        w.queue.copies.count copy + w.assumed.bound.count copy + [pod.copy].count copy := by
      unfold Effect.copies
      rw [List.count_append, List.count_append, World.copies_count]
      rfl
    simp only [perform, Task.copies, Task.brings, List.count_nil]
    omega

theorem World.perform_keyed (keyed : w.queue.Keyed) (task : Task Obj) : (w.perform cfg now task).world.queue.Keyed := by
  cases task with
  | add pod | arrive pod => exact keyed.add
  | pushActive pod => exact keyed.pushActive
  | offerBackoff pod =>
    simp only [perform]
    split_ifs
    · exact keyed.of_eq rfl
    · exact keyed.add
  | update pod =>
    have kept := @SchedulingQueue.Keyed.update _ cfg w.queue pod keyed
    simp only [perform]
    rcases found : w.queue.update cfg pod with ⟨_ | merged | _, queue⟩
    all_goals
      rw [found] at kept
      exact kept
  | updateBackoff pod =>
    have kept := @SchedulingQueue.Keyed.updateBackoff _ w.queue pod keyed
    simp only [perform]
    rcases found : w.queue.updateBackoff pod with ⟨_ | merged | _, queue⟩
    all_goals
      rw [found] at kept
      exact kept
  | take =>
    have kept := @SchedulingQueue.Keyed.take _ w.queue keyed
    simp only [perform]
    rcases found : w.queue.take with ⟨_ | pod, queue⟩
    all_goals
      rw [found] at kept
      exact kept
  | settle rejection popped decision =>
    cases decision with
    | immediately => exact keyed.pushActive
    | afterBackoff => exact keyed.of_eq rfl
    | skip => exact keyed.insert rfl rfl
  | record change => exact keyed.record
  | sweep change => exact keyed.sweep
  | flushTimedOut =>
    have kept := @SchedulingQueue.Keyed.flushTimedOut _ cfg w.queue now keyed
    simp only [perform]
    rcases found : w.queue.flushTimedOut cfg now with ⟨_ | ⟨first, rest⟩, queue⟩
    all_goals
      rw [found] at kept
      exact kept
  | activate uids => exact keyed.activate
  | removeInner uid => exact keyed.erase rfl
  | pushBackoff | drainExpiredBackoff | done | addUnschedulable | countRescued | removeBackoff => exact keyed.of_eq rfl
  | _ => exact keyed

end Sections

end NotK8s.Scheduler

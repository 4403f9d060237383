import Mathlib.Data.List.Perm.Subperm
import NotK8s.Scheduler.Dispatch

namespace NotK8s.Scheduler

open Library

/-!
# Copies of a pod

A pod is copied into the active queue, the backoff queue and the pool of parked
pods, into the sections that move it and into cycles and bindings.  A bound
pod that the watch has still to confirm counts as a copy too.  Each function
of the queue is judged by how often it leaves a copy behind.
-/

/-- The attempts count while the pod is not bound. -/
structure Copy where
  uid : String
  attempts : Option Nat
  deriving DecidableEq

def PodInfo.copy (pod : PodInfo) : Copy :=
  ⟨pod.uid, some pod.attempts⟩

theorem carryQueueState_copy {previous updated : PodInfo} (same : previous.uid = updated.uid) :
    (carryQueueState previous updated).copy = previous.copy := by
  unfold PodInfo.copy carryQueueState
  rw [same]

/-- The pods that an update hands on. -/
def Found.copies : Found -> List Copy
  | .released pod => [pod.copy]
  | _ => []

section Counting

variable {Item Other : Type} [DecidableEq Item] {item first : Item} {rest : List Item} {f : Other -> Item}
  {keep : Other -> Bool}

theorem count_cons_eq : (first :: rest).count item = [first].count item + rest.count item :=
  @List.count_append _ _ item [first] rest

theorem count_map_filter_add (others : List Other) :
    ((others.filter keep).map f).count item + ((others.filter fun other => !keep other).map f).count item =
      (others.map f).count item := by
  have split := (List.filter_append_perm keep others).map f
  rw [List.map_append] at split
  rw [← List.count_append]
  exact split.count_eq item

theorem count_map_filter_le (others : List Other) :
    ((others.filter keep).map f).count item ≤ (others.map f).count item :=
  (List.filter_sublist.map f).count_le item

theorem count_map_takeWhile_add (others : List Other) :
    ((others.takeWhile keep).map f).count item + ((others.dropWhile keep).map f).count item =
      (others.map f).count item := by
  rw [← List.count_append, ← List.map_append, List.takeWhile_append_dropWhile]

theorem count_map_decision {decision : Other -> RequeueDecision} (others : List Other) :
    ((others.filter fun other => decision other = .skip).map f).count item +
        ((others.filter fun other => decision other = .immediately).map f).count item +
        ((others.filter fun other => decision other = .afterBackoff).map f).count item =
      (others.map f).count item := by
  induction others with
  | nil => rfl
  | cons other rest ih =>
    rw [List.map_cons, count_cons_eq]
    cases made : decision other
    all_goals
      simp only [List.filter_cons, made, reduceCtorEq, decide_true, decide_false, if_true, Bool.false_eq_true, if_false,
        List.map_cons]
      rw [count_cons_eq]
      omega

end Counting

/-! ## The parts of the queue -/

namespace SchedulingQueue

variable {Obj : Type} {cfg : QueueConfig Obj} {q q' : SchedulingQueue Obj} {pod : PodInfo} {now : Nat} {copy : Copy}
  {uid : String} {entry : Unschedulable}

def waiting (q : SchedulingQueue Obj) : List Copy :=
  q.backoff.heap.map fun entry => entry.pod.copy

def parked (q : SchedulingQueue Obj) : List Copy :=
  q.unschedulable.entries.map fun entry => entry.2.rejection.pod.copy

def copies (q : SchedulingQueue Obj) : List Copy :=
  q.active.map PodInfo.copy ++ q.waiting ++ q.parked

/-- A parked pod is found under its own uid. -/
def Keyed (q : SchedulingQueue Obj) : Prop :=
  forall uid entry, q.unschedulable.get uid = some entry -> entry.rejection.pod.uid = uid

theorem copies_count : q.copies.count copy =
    (q.active.map PodInfo.copy).count copy + q.waiting.count copy + q.parked.count copy := by
  unfold copies
  rw [List.count_append, List.count_append]

/-- Only the active queue, only the backoff queue or only the pool changes. -/
theorem copies_of_active (waiting : q'.backoff = q.backoff) (parked : q'.unschedulable = q.unschedulable) :
    q'.copies.count copy + (q.active.map PodInfo.copy).count copy =
      q.copies.count copy + (q'.active.map PodInfo.copy).count copy := by
  rw [copies_count, copies_count, SchedulingQueue.waiting, SchedulingQueue.parked, waiting, parked]
  change _ + q.waiting.count copy + q.parked.count copy + _ = _
  omega

theorem copies_of_waiting (active : q'.active = q.active) (parked : q'.unschedulable = q.unschedulable) :
    q'.copies.count copy + q.waiting.count copy = q.copies.count copy + q'.waiting.count copy := by
  rw [copies_count, copies_count, SchedulingQueue.parked, active, parked]
  change _ + _ + q.parked.count copy + _ = _
  omega

theorem copies_of_parked (active : q'.active = q.active) (waiting : q'.backoff = q.backoff) :
    q'.copies.count copy + q.parked.count copy = q.copies.count copy + q'.parked.count copy := by
  rw [copies_count, copies_count, SchedulingQueue.waiting, active, waiting]
  change _ + q.waiting.count copy + _ + _ = _
  omega

/-! ## What goes in -/

theorem pushActive_copies : (q.pushActive cfg pod).copies.count copy ≤ q.copies.count copy + [pod.copy].count copy := by
  unfold pushActive
  split_ifs
  · exact Nat.le_add_right _ _
  · have inserted := ((List.perm_orderedInsert (fun first second => cfg.less first second = true) pod
      q.active).map PodInfo.copy).count_eq copy
    rw [List.map_cons, count_cons_eq] at inserted
    have rest := @copies_of_active _ q { q with
      active := q.active.orderedInsert (fun first second => cfg.less first second = true) pod } copy rfl rfl
    dsimp only at rest
    omega

theorem pushBackoff_copies : (q.pushBackoff cfg pod now).copies.count copy = q.copies.count copy + [pod.copy].count copy := by
  have inserted := ((List.perm_orderedInsert (fun first second : Entry => first.expiry < second.expiry ∨
    (first.expiry = second.expiry ∧ first.seq ≤ second.seq))
    ⟨now + backoffDuration pod.attempts cfg.initialBackoff cfg.maxBackoff, q.backoff.nextSeq, pod⟩ q.backoff.heap).map
    fun entry => entry.pod.copy).count_eq copy
  rw [List.map_cons, count_cons_eq] at inserted
  have rest := @copies_of_waiting _ q (q.pushBackoff cfg pod now) copy rfl rfl
  change (q.pushBackoff cfg pod now).waiting.count copy = [pod.copy].count copy + q.waiting.count copy at inserted
  omega

theorem insert_parked (inserted : q'.unschedulable = q.unschedulable.insert uid entry) :
    q'.parked.count copy ≤ q.parked.count copy + [entry.rejection.pod.copy].count copy := by
  have shuffled := ((@SortedMap.insert_perm_erase _ _ _ q.unschedulable uid entry).map
    fun entry => entry.2.rejection.pod.copy).count_eq copy
  rw [List.map_cons, count_cons_eq, ← inserted] at shuffled
  have fewer := @count_map_filter_le _ _ _ copy (fun entry : String × Unschedulable => entry.2.rejection.pod.copy)
    (fun entry => entry.1 ≠ uid) q.unschedulable.entries
  change q'.parked.count copy = [entry.rejection.pod.copy].count copy + ((List.filter _ _).map _).count copy at shuffled
  change _ ≤ q.parked.count copy at fewer
  omega

theorem park_copies {rejection : Rejection} {held : Bool} :
    (q.park rejection held now).copies.count copy ≤ q.copies.count copy + [rejection.pod.copy].count copy := by
  have more := @insert_parked _ q (q.park rejection held now) copy _ _ rfl
  have rest := @copies_of_parked _ q (q.park rejection held now) copy rfl rfl
  dsimp only at more
  omega

theorem add_copies : (q.add cfg pod now).copies.count copy ≤ q.copies.count copy + [pod.copy].count copy := by
  unfold add
  split_ifs
  · exact pushActive_copies
  · exact park_copies

/-! ## What is replaced -/

theorem updateActive_copies {active updated : List PodInfo} (found : updateActive pod active = some updated) :
    updated.map PodInfo.copy = active.map PodInfo.copy := by
  induction active generalizing updated with
  | nil => cases found
  | cons held rest ih =>
    unfold updateActive at found
    split_ifs at found with same
    · cases found
      rw [List.map_cons, List.map_cons, carryQueueState_copy same]
    · rcases Option.map_eq_some_iff.mp found with ⟨later, there, rfl⟩
      rw [List.map_cons, List.map_cons, ih there]

theorem erase_parked (found : q.unschedulable.get uid = some entry)
    (erased : q'.unschedulable = q.unschedulable.erase uid) :
    q.parked.count copy = [entry.rejection.pod.copy].count copy + q'.parked.count copy := by
  have shuffled := ((SortedMap.erase_perm found).map fun entry => entry.2.rejection.pod.copy).count_eq copy
  rw [List.map_cons, count_cons_eq, ← erased] at shuffled
  exact shuffled

theorem replace_parked {held : Unschedulable} (found : q.unschedulable.get uid = some entry)
    (same : held.rejection.pod.copy = entry.rejection.pod.copy) (replaced : q'.unschedulable = q.unschedulable.insert uid held) :
    q'.parked.count copy = q.parked.count copy := by
  have shuffled := ((@SortedMap.insert_perm_erase _ _ _ q.unschedulable uid held).map
    fun entry => entry.2.rejection.pod.copy).count_eq copy
  have out := @erase_parked _ q { q with unschedulable := q.unschedulable.erase uid } copy uid entry found rfl
  rw [List.map_cons, count_cons_eq, ← replaced, same] at shuffled
  exact shuffled.trans out.symm

theorem update_copies (keyed : q.Keyed) :
    (q.update cfg pod).2.copies.count copy + (q.update cfg pod).1.copies.count copy ≤ q.copies.count copy := by
  unfold update
  cases found : q.unschedulable.get pod.uid with
  | some entry =>
    have kept := carryQueueState_copy (keyed pod.uid entry found)
    dsimp only
    split_ifs
    · have out := @erase_parked _ q { q with unschedulable := q.unschedulable.erase pod.uid } copy pod.uid entry found rfl
      have rest := @copies_of_parked _ q { q with unschedulable := q.unschedulable.erase pod.uid } copy rfl rfl
      dsimp only [Found.copies]
      rw [kept]
      omega
    · have same := @replace_parked _ q { q with
        unschedulable := q.unschedulable.insert pod.uid (entry.holding (carryQueueState entry.rejection.pod pod)) }
        copy pod.uid entry _ found kept rfl
      have rest := @copies_of_parked _ q { q with
        unschedulable := q.unschedulable.insert pod.uid (entry.holding (carryQueueState entry.rejection.pod pod)) }
        copy rfl rfl
      dsimp only [Found.copies]
      rw [List.count_nil]
      omega
  | none =>
    cases there : updateActive pod q.active with
    | some active =>
      have rest := @copies_of_active _ q { q with active := active } copy rfl rfl
      dsimp only [Found.copies] at rest ⊢
      rw [updateActive_copies there] at rest
      rw [List.count_nil]
      omega
    | none => exact Nat.le_refl _

theorem updateBackoff_copies :
    (q.updateBackoff pod).2.copies.count copy = q.copies.count copy ∧ (q.updateBackoff pod).1.copies = [] := by
  unfold updateBackoff BackoffQueue.update
  split_ifs with there
  · refine ⟨?_, rfl⟩
    have same : (q.backoff.heap.map fun entry => if entry.pod.uid = pod.uid then
        { entry with pod := carryQueueState entry.pod pod } else entry).map (fun entry => entry.pod.copy) = q.waiting := by
      rw [List.map_map]
      apply List.map_congr_left
      intro entry _
      rw [Function.comp_apply]
      split_ifs with here
      · exact carryQueueState_copy here
      · rfl
    have rest := @copies_of_waiting _ q { q with backoff := { q.backoff with heap := q.backoff.heap.map fun entry =>
      if entry.pod.uid = pod.uid then { entry with pod := carryQueueState entry.pod pod } else entry } } copy rfl rfl
    conv at rest => rhs; unfold waiting; dsimp only
    rw [same] at rest
    exact Nat.add_right_cancel rest
  · exact ⟨rfl, rfl⟩

theorem missing_backoff (missing : q.updateBackoff pod = (.missing, q')) : ¬ q.backoff.contains pod.uid = true := by
  intro there
  unfold updateBackoff BackoffQueue.update at missing
  rw [if_pos there] at missing
  cases missing

theorem copies_of_eq (active : q'.active = q.active) (waiting : q'.backoff = q.backoff)
    (parked : q'.unschedulable = q.unschedulable) : q'.copies = q.copies := by
  unfold copies SchedulingQueue.waiting SchedulingQueue.parked
  rw [active, waiting, parked]

theorem record_copies {change : Change Obj} : (q.record change).copies = q.copies := by
  unfold record
  split_ifs
  · rfl
  · exact copies_of_eq rfl rfl rfl

/-! ## What goes out -/

theorem drainExpired_copies : (q.drainExpired now).2.copies.count copy +
    ((q.drainExpired now).1.map PodInfo.copy).count copy = q.copies.count copy := by
  have split := @count_map_takeWhile_add _ _ _ copy (fun entry : Entry => entry.pod.copy)
    (fun entry => entry.expiry ≤ now) q.backoff.heap
  have rest := @copies_of_waiting _ q (q.drainExpired now).2 copy rfl rfl
  unfold drainExpired BackoffQueue.popExpired at *
  rw [List.map_map]
  change _ = q.waiting.count copy at split
  change _ + _ = _ + ((List.dropWhile _ _).map _).count copy at rest
  dsimp only [Function.comp_def] at *
  omega

theorem take_copies : (q.take).2.copies.count copy + ((q.take).1.toList.map PodInfo.copy).count copy = q.copies.count copy := by
  unfold take
  cases first : q.active with
  | nil => rfl
  | cons pod rest =>
    rw [copies_count, copies_count, first, List.map_cons, count_cons_eq]
    change (rest.map PodInfo.copy).count copy + q.waiting.count copy + q.parked.count copy + [pod.copy].count copy = _
    omega

theorem flushTimedOut_copies : (q.flushTimedOut cfg now).2.copies.count copy +
    ((q.flushTimedOut cfg now).1.map PodInfo.copy).count copy = q.copies.count copy := by
  have split := @count_map_filter_add _ _ _ copy (fun entry : String × Unschedulable => entry.2.rejection.pod.copy)
    (fun entry => isExpired cfg now entry.2) q.unschedulable.entries
  have rest := @copies_of_parked _ q (q.flushTimedOut cfg now).2 copy rfl rfl
  unfold flushTimedOut
  rw [List.map_map]
  change _ = q.parked.count copy at split
  change (q.flushTimedOut cfg now).2.copies.count copy + ((List.filter _ _).map _).count copy = _
  change _ = _ + ((List.filter _ _).map _).count copy at rest
  dsimp only [Function.comp_def] at *
  omega

theorem sweep_copies {change : Change Obj} : (q.sweep cfg change).copies.count copy +
    ((q.parkedFor cfg change .immediately).map PodInfo.copy).count copy +
    ((q.parkedFor cfg change .afterBackoff).map PodInfo.copy).count copy = q.copies.count copy := by
  have split := @count_map_decision _ _ _ copy (fun entry : String × Unschedulable => entry.2.rejection.pod.copy)
    (fun entry => cfg.hints.decideParked entry.2.rejection change) q.unschedulable.entries
  have rest := @copies_of_parked _ q (q.sweep cfg change) copy rfl rfl
  unfold parkedFor
  rw [List.map_map, List.map_map]
  change _ = q.parked.count copy at split
  change _ = _ + ((List.filter _ _).map _).count copy at rest
  dsimp only [Function.comp_def] at *
  omega

theorem filter_parked {keep : String -> Unschedulable -> Bool} (kept : q'.unschedulable = q.unschedulable.filter keep) :
    q'.parked.count copy ≤ q.parked.count copy := by
  unfold parked
  rw [kept]
  exact count_map_filter_le q.unschedulable.entries

theorem activate_copies {uids : List String} :
    (q.activate uids).2.copies.count copy + ((q.activate uids).1.map PodInfo.copy).count copy ≤ q.copies.count copy := by
  induction uids generalizing q with
  | nil => exact Nat.le_refl _
  | cons uid rest ih =>
    have later := @ih { q with unschedulable := q.unschedulable.erase uid }
    have same := @copies_of_parked _ q { q with unschedulable := q.unschedulable.erase uid } copy rfl rfl
    unfold activate
    cases found : q.unschedulable.get uid with
    | some entry =>
      have out := @erase_parked _ q { q with unschedulable := q.unschedulable.erase uid } copy uid entry found rfl
      dsimp only
      rw [List.map_cons, count_cons_eq]
      omega
    | none =>
      have fewer := @filter_parked _ q { q with unschedulable := q.unschedulable.erase uid } copy
        (fun held _ => held ≠ uid) rfl
      dsimp only
      omega

theorem removeInner_copies : (q.removeInner uid).copies.count copy ≤ q.copies.count copy := by
  have active := @count_map_filter_le _ _ _ copy PodInfo.copy (fun pod => pod.uid ≠ uid) q.active
  have parked := @filter_parked _ q (q.removeInner uid) copy (fun held _ => held ≠ uid) rfl
  rw [copies_count, copies_count]
  change ((q.active.filter _).map PodInfo.copy).count copy + q.waiting.count copy + _ ≤ _
  omega

theorem removeBackoff_copies : (q.removeBackoff uid).copies.count copy ≤ q.copies.count copy := by
  have waiting := @count_map_filter_le _ _ _ copy (fun entry : Entry => entry.pod.copy)
    (fun entry => entry.pod.uid ≠ uid) q.backoff.heap
  have rest := @copies_of_waiting _ q (q.removeBackoff uid) copy rfl rfl
  change _ = _ + ((q.backoff.heap.filter _).map _).count copy at rest
  change _ ≤ q.waiting.count copy at waiting
  omega

/-! ## The keys of the pool -/

namespace Keyed

theorem new : (new : SchedulingQueue Obj).Keyed := fun _ _ found => nomatch found

variable (keyed : q.Keyed)

include keyed

theorem of_eq (same : q'.unschedulable = q.unschedulable) : q'.Keyed := by
  unfold Keyed
  rw [same]
  exact keyed

theorem insert (inserted : q'.unschedulable = q.unschedulable.insert uid entry) (own : entry.rejection.pod.uid = uid) :
    q'.Keyed := by
  intro held holding found
  rw [inserted, SortedMap.get_insert] at found
  split_ifs at found with same
  · cases found
    exact own.trans same.symm
  · exact keyed held holding found

theorem filter {keep : String -> Unschedulable -> Bool} (kept : q'.unschedulable = q.unschedulable.filter keep) :
    q'.Keyed := by
  intro held holding found
  rw [kept, SortedMap.get_filter] at found
  exact keyed held holding (Option.filter_eq_some_iff.mp found).1

theorem erase (erased : q'.unschedulable = q.unschedulable.erase uid) : q'.Keyed :=
  @filter _ q q' keyed (fun held _ => held ≠ uid) erased

theorem pushActive : (q.pushActive cfg pod).Keyed := by
  unfold SchedulingQueue.pushActive
  split_ifs
  · exact keyed
  · exact keyed.of_eq rfl

theorem add : (q.add cfg pod now).Keyed := by
  unfold SchedulingQueue.add
  split_ifs
  · exact keyed.pushActive
  · exact keyed.insert rfl rfl

theorem update : (q.update cfg pod).2.Keyed := by
  unfold SchedulingQueue.update
  cases found : q.unschedulable.get pod.uid with
  | some entry =>
    dsimp only
    split_ifs
    · exact keyed.erase rfl
    · exact keyed.insert rfl rfl
  | none =>
    cases updateActive pod q.active with
    | some active => exact keyed.of_eq rfl
    | none => exact keyed

theorem updateBackoff : (q.updateBackoff pod).2.Keyed := by
  unfold SchedulingQueue.updateBackoff
  cases q.backoff.update pod with
  | some backoff => exact keyed.of_eq rfl
  | none => exact keyed

theorem take : (q.take).2.Keyed := by
  unfold SchedulingQueue.take
  cases q.active with
  | nil => exact keyed
  | cons pod rest => exact keyed.of_eq rfl

theorem record {change : Change Obj} : (q.record change).Keyed := by
  unfold SchedulingQueue.record
  split_ifs
  · exact keyed
  · exact keyed.of_eq rfl

theorem sweep {change : Change Obj} : (q.sweep cfg change).Keyed :=
  @filter _ q _ keyed (fun _ entry => cfg.hints.decideParked entry.rejection change = .skip) rfl

theorem flushTimedOut : (q.flushTimedOut cfg now).2.Keyed :=
  @filter _ q _ keyed (fun _ entry => !isExpired cfg now entry) rfl

theorem activate {uids : List String} : (q.activate uids).2.Keyed := by
  induction uids generalizing q with
  | nil => exact keyed
  | cons uid rest ih =>
    have later := ih (@erase _ _ { q with unschedulable := q.unschedulable.erase uid } uid keyed rfl)
    unfold SchedulingQueue.activate
    cases q.unschedulable.get uid with
    | some entry => exact later
    | none => exact later

end Keyed
end SchedulingQueue
end NotK8s.Scheduler

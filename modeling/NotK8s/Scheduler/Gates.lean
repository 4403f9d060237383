import NotK8s.Library.Run
import NotK8s.Scheduler.Copies

namespace NotK8s.Scheduler

open Library

/-!
# PreEnqueue at the doors of the queue

A pod is clear when PreEnqueue passes the object that was last delivered for
it.  Pods in the active queue, in backoff, in cycles and in bindings have to
be clear.  For a parked pod, and for one that PreEnqueue looks at again on its
way back, it is enough that it is clear once its own object passes.
-/

/-- What is asked of a queue, where the clear uids are given. -/
structure SchedulingQueue.Gate {Obj : Type} (cfg : QueueConfig Obj) (clear : String -> Prop) (q : SchedulingQueue Obj) :
    Prop where
  active : forall pod, pod ∈ q.active -> clear pod.uid
  waiting : forall entry, entry ∈ q.backoff.heap -> clear entry.pod.uid
  parked : forall uid entry, q.unschedulable.get uid = some entry ->
    cfg.preEnqueue entry.rejection.pod = true -> clear uid

namespace SchedulingQueue.Gate

variable {Obj : Type} {cfg : QueueConfig Obj} {clear : String -> Prop} {q q' : SchedulingQueue Obj} {pod : PodInfo}
  {now : Nat}

section

variable (gate : q.Gate cfg clear)
include gate

theorem pushActive (fits : clear pod.uid) : (q.pushActive cfg pod).Gate cfg clear := by
  unfold SchedulingQueue.pushActive
  split_ifs
  · exact gate
  · refine ⟨?_, gate.waiting, gate.parked⟩
    intro other listed
    rcases (List.mem_orderedInsert _).mp listed with rfl | before
    · exact fits
    · exact gate.active other before

theorem pushBackoff (fits : clear pod.uid) : (q.pushBackoff cfg pod now).Gate cfg clear := by
  refine ⟨gate.active, ?_, gate.parked⟩
  intro entry listed
  rcases (List.mem_orderedInsert _).mp listed with rfl | before
  · exact fits
  · exact gate.waiting entry before

theorem fewer (active : q'.active = q.active) (waiting : q'.backoff = q.backoff)
    (parked : forall uid entry, q'.unschedulable.get uid = some entry -> q.unschedulable.get uid = some entry) :
    q'.Gate cfg clear where
  active pod listed := gate.active pod (active ▸ listed)
  waiting entry listed := gate.waiting entry (waiting ▸ listed)
  parked uid entry found := gate.parked uid entry (parked uid entry found)

theorem erase (uid : String) :
    ({ q with unschedulable := q.unschedulable.erase uid } : SchedulingQueue Obj).Gate cfg clear := by
  refine gate.fewer rfl rfl ?_
  intro other entry found
  rw [SortedMap.get_erase] at found
  split_ifs at found
  exact found

theorem filter (keep : String -> Unschedulable -> Bool) :
    ({ q with unschedulable := q.unschedulable.filter keep } : SchedulingQueue Obj).Gate cfg clear := by
  refine gate.fewer rfl rfl ?_
  intro other entry found
  rw [SortedMap.get_filter] at found
  exact (Option.filter_eq_some_iff.mp found).1

end

theorem insert {entry : Unschedulable} {uid : String} (active : forall pod, pod ∈ q.active -> clear pod.uid)
    (waiting : forall entry, entry ∈ q.backoff.heap -> clear entry.pod.uid)
    (others : forall other entry, q.unschedulable.get other = some entry ->
      cfg.preEnqueue entry.rejection.pod = true -> clear other ∨ other = uid)
    (fits : cfg.preEnqueue entry.rejection.pod = true -> clear uid) :
    ({ q with unschedulable := q.unschedulable.insert uid entry } : SchedulingQueue Obj).Gate cfg clear := by
  refine ⟨active, waiting, ?_⟩
  intro other held found passes
  rw [SortedMap.get_insert] at found
  split_ifs at found with same
  · cases found
    exact same ▸ fits passes
  · exact (others other held found passes).resolve_right same

theorem park (gate : q.Gate cfg clear) {rejection : Rejection} {held : Bool}
    (fits : cfg.preEnqueue rejection.pod = true -> clear rejection.pod.uid) :
    (q.park rejection held now).Gate cfg clear :=
  insert gate.active gate.waiting (fun uid entry found passes => Or.inl (gate.parked uid entry found passes)) fits

/-- The queue of a gate whose parked pod of one uid may be out of date. -/
structure Behind (cfg : QueueConfig Obj) (clear : String -> Prop) (q : SchedulingQueue Obj) (uid : String) : Prop where
  active : forall pod, pod ∈ q.active -> clear pod.uid
  waiting : forall entry, entry ∈ q.backoff.heap -> clear entry.pod.uid
  parked : forall other entry, q.unschedulable.get other = some entry ->
    cfg.preEnqueue entry.rejection.pod = true -> clear other ∨ other = uid

theorem behind (gate : q.Gate cfg clear) (uid : String) : Behind cfg clear q uid :=
  ⟨gate.active, gate.waiting, fun other entry found passes => Or.inl (gate.parked other entry found passes)⟩

theorem Behind.gate {uid : String} (behind : Behind cfg clear q uid) (fits : clear uid) : q.Gate cfg clear :=
  ⟨behind.active, behind.waiting, fun other entry found passes =>
    (behind.parked other entry found passes).elim id fun same => same ▸ fits⟩

theorem Behind.add (behind : Behind cfg clear q pod.uid) (fits : cfg.preEnqueue pod = true -> clear pod.uid) :
    (q.add cfg pod now).Gate cfg clear := by
  unfold SchedulingQueue.add
  split_ifs with passes
  · exact (behind.gate (fits passes)).pushActive (fits passes)
  · exact insert behind.active behind.waiting behind.parked fun passes' => absurd passes' passes

theorem carry_passes (previous updated : PodInfo) :
    cfg.preEnqueue (carryQueueState previous updated) = cfg.preEnqueue updated :=
  cfg.preEnqueue_spec updated previous.queuedAt previous.attempts

theorem updateActive_uid {active updated : List PodInfo} (found : updateActive pod active = some updated) :
    updated.map PodInfo.uid = active.map PodInfo.uid := by
  induction active generalizing updated with
  | nil => cases found
  | cons held rest ih =>
    unfold updateActive at found
    split_ifs at found with same
    · cases found
      rw [List.map_cons, List.map_cons, same]
      rfl
    · rcases Option.map_eq_some_iff.mp found with ⟨later, there, rfl⟩
      rw [List.map_cons, List.map_cons, ih there]

theorem clear_of_uids {before after : List PodInfo} (same : after.map PodInfo.uid = before.map PodInfo.uid)
    (each : forall pod, pod ∈ before -> clear pod.uid) : forall pod, pod ∈ after -> clear pod.uid := by
  intro pod listed
  have there := List.mem_map_of_mem (f := PodInfo.uid) listed
  rw [same] at there
  rcases List.mem_map.mp there with ⟨old, before, same⟩
  exact same ▸ each old before

theorem Behind.update (behind : Behind cfg clear q pod.uid) (fits : cfg.preEnqueue pod = true -> clear pod.uid) :
    (q.update cfg pod).2.Gate cfg clear ∧ forall merged, (q.update cfg pod).1 = .released merged -> clear merged.uid := by
  unfold SchedulingQueue.update
  cases found : q.unschedulable.get pod.uid with
  | some entry =>
    dsimp only
    split_ifs with passes
    · have admitted := (Bool.and_eq_true_iff.mp passes).2
      rw [carry_passes] at admitted
      have clean := fits admitted
      refine ⟨(behind.gate clean).erase pod.uid, ?_⟩
      intro merged same
      cases same
      exact clean
    · refine ⟨insert behind.active behind.waiting behind.parked fun passes => fits ?_, fun merged same => nomatch same⟩
      exact (carry_passes entry.rejection.pod pod).symm.trans passes
  | none =>
    have gate : q.Gate cfg clear := by
      refine ⟨behind.active, behind.waiting, ?_⟩
      intro other entry there passes
      rcases behind.parked other entry there passes with clean | rfl
      · exact clean
      · rw [found] at there
        cases there
    cases there : updateActive pod q.active with
    | some active =>
      exact ⟨⟨clear_of_uids (updateActive_uid there) gate.active, gate.waiting, gate.parked⟩, fun merged same => nomatch same⟩
    | none => exact ⟨gate, fun merged same => nomatch same⟩

section

variable (gate : q.Gate cfg clear)
include gate

theorem updateBackoff : (q.updateBackoff pod).2.Gate cfg clear := by
  unfold SchedulingQueue.updateBackoff BackoffQueue.update
  split_ifs
  · refine ⟨gate.active, ?_, gate.parked⟩
    intro entry listed
    rcases List.mem_map.mp listed with ⟨old, before, rfl⟩
    have clean := gate.waiting old before
    split_ifs with same
    · exact same ▸ clean
    · exact clean
  · exact gate

theorem removeInner (uid : String) : (q.removeInner uid).Gate cfg clear where
  active pod listed := gate.active pod (List.mem_filter.mp listed).1
  waiting := gate.waiting
  parked := (gate.erase uid).parked

theorem removeBackoff (uid : String) : (q.removeBackoff uid).Gate cfg clear where
  active := gate.active
  waiting entry listed := gate.waiting entry (List.mem_filter.mp listed).1
  parked := gate.parked

theorem drainExpired : (q.drainExpired now).2.Gate cfg clear ∧
    forall pod, pod ∈ (q.drainExpired now).1 -> clear pod.uid := by
  refine ⟨⟨gate.active, fun entry listed => gate.waiting entry ((List.dropWhile_sublist _).subset listed), gate.parked⟩, ?_⟩
  intro pod listed
  rcases List.mem_map.mp listed with ⟨entry, before, rfl⟩
  exact gate.waiting entry ((List.takeWhile_sublist _).subset before)

theorem take : (q.take).2.Gate cfg clear ∧ forall pod, (q.take).1 = some pod -> clear pod.uid := by
  unfold SchedulingQueue.take
  cases first : q.active with
  | nil => exact ⟨gate, fun pod same => nomatch same⟩
  | cons pod rest =>
    have active := gate.active
    rw [first] at active
    refine ⟨⟨fun other listed => active other (List.mem_cons_of_mem pod listed), gate.waiting, gate.parked⟩, ?_⟩
    intro other same
    cases same
    exact active pod (.head _)

theorem record {change : Change Obj} : (q.record change).Gate cfg clear := by
  unfold SchedulingQueue.record
  split_ifs
  · exact gate
  · exact ⟨gate.active, gate.waiting, gate.parked⟩

/-- A pod that comes out of the pool is clear once its own object passes. -/
theorem out (keyed : q.Keyed) {uid : String} {entry : Unschedulable}
    (found : q.unschedulable.get uid = some entry) (passes : cfg.preEnqueue entry.rejection.pod = true) :
    clear entry.rejection.pod.uid :=
  (keyed uid entry found).symm ▸ gate.parked uid entry found passes

theorem parkedFor (keyed : q.Keyed) {change : Change Obj} {decision : RequeueDecision} :
    forall pod, pod ∈ q.parkedFor cfg change decision -> cfg.preEnqueue pod = true -> clear pod.uid := by
  intro pod listed passes
  rcases List.mem_map.mp listed with ⟨⟨uid, entry⟩, before, rfl⟩
  exact gate.out keyed (SortedMap.mem_entries.mp (List.mem_filter.mp before).1) passes

theorem activate (keyed : q.Keyed) {uids : List String} : (q.activate uids).2.Gate cfg clear ∧
    forall pod, pod ∈ (q.activate uids).1 -> cfg.preEnqueue pod = true -> clear pod.uid := by
  induction uids generalizing q with
  | nil => exact ⟨gate, fun pod listed => absurd listed List.not_mem_nil⟩
  | cons uid rest ih =>
    have later := ih (gate.erase uid) (keyed.erase rfl)
    unfold SchedulingQueue.activate
    cases found : q.unschedulable.get uid with
    | none => exact later
    | some entry =>
      refine ⟨later.1, ?_⟩
      intro pod listed passes
      rcases List.mem_cons.mp listed with rfl | more
      · exact gate.out keyed found passes
      · exact later.2 pod more passes

end

end SchedulingQueue.Gate
end NotK8s.Scheduler

import NotK8s.Controllers.CronJobs

namespace NotK8s.Controllers
namespace CronJobs

open Library

/-!
# Boundaries that fire once

A Job the controller created is of a boundary that has been recorded, or it
is still there and its name is taken.  A pass that knows the last boundary
recorded looks at later ones only, so the invariant is enough for it.  What
breaks it is a Job deleted before its boundary is recorded, and what makes it
useless is a pass that reads an older last boundary.
-/

namespace World

section
variable {w : World} {cj : CronJob} {uid : String} {now scheduled : Int} {o : Outcomes} {active : List Job}
  {jobs : SortedMap String Job} {names : List String} {deleted : String -> Bool} {key : String}

/-! ## Requests -/

theorem jobKey_injective {name name' : String} (same : w.jobKey name = w.jobKey name') : name = name' :=
  String.append_right_inj _ |>.mp same

theorem without_get : (w.without jobs names deleted).get key =
    if (names.filter deleted).any fun name => w.jobKey name == key then none else jobs.get key := by
  unfold without
  generalize names.filter deleted = gone
  induction gone generalizing jobs with
  | nil => rfl
  | cons name rest ih =>
    rw [List.foldl_cons, ih, SortedMap.get_erase, List.any_cons]
    by_cases here : w.jobKey name = key
    · rw [beq_iff_eq.mpr here, Bool.true_or, if_pos here.symm, if_pos rfl, ite_self]
    · rw [beq_eq_false_iff_ne.mpr here, Bool.false_or, if_neg (Ne.symm here)]

theorem without_isSome {name : String} (there : (jobs.get (w.jobKey name)).isSome = true) :
    ((w.without jobs names deleted).get (w.jobKey name)).isSome = true ∨ name ∈ names.filter deleted := by
  rw [without_get]
  split_ifs with gone
  · rcases List.any_eq_true.mp gone with ⟨other, listed, same⟩
    exact Or.inr (jobKey_injective (beq_iff_eq.mp same) ▸ listed)
  · exact Or.inl there

theorem dueTime_later {last : Int} (due : dueTime cj now = some scheduled) (known : (statusOf cj).lastScheduleTime = some last) :
    last < scheduled := by
  unfold dueTime at due
  split_ifs at due
  rcases Option.bind_eq_some_iff.mp due with ⟨schedule, -, next⟩
  rw [known] at next
  exact CronSchedule.nextAfter_later (Option.filter_eq_some_iff.mp next).1

theorem turn_due {create : Bool} (has : (turn cj active now).boundary = some (scheduled, create)) :
    dueTime cj now = some scheduled := by
  unfold turn at has
  cases due : dueTime cj now with
  | none =>
    rw [due] at has
    cases has
  | some next =>
    rw [due] at has
    split_ifs at has
    all_goals exact congrArg some (Prod.mk.inj (Option.some.inj has)).1

/-- Where Jobs are forbidden to run together, a boundary is left for later
while one is active. -/
theorem turn_forbid (forbids : (specOf cj).concurrencyPolicy = some "Forbid") (some_ : (turn cj active now).boundary ≠ none) :
    active = [] := by
  unfold turn at some_
  cases due : dueTime cj now with
  | none =>
    rw [due] at some_
    exact absurd rfl some_
  | some next =>
    rw [due] at some_
    split_ifs at some_ with empty
    · exact List.isEmpty_iff.mp empty
    · exact absurd rfl some_

/-! ## One pass -/

theorem create_cases : ((w.jobs.get (w.jobKey (jobName cj.name scheduled))).isSome = true ∧ w.create cj scheduled = w) ∨
    (w.jobs.get (w.jobKey (jobName cj.name scheduled)) = none ∧ w.create cj scheduled =
      { w with
        jobs := w.jobs.insert (w.jobKey (jobName cj.name scheduled)) (buildJob cj scheduled)
        created := w.created ++ [scheduled] }) := by
  unfold create
  cases taken : w.jobs.get (w.jobKey (jobName cj.name scheduled)) with
  | none => exact Or.inr ⟨rfl, rfl⟩
  | some job => exact Or.inl ⟨rfl, rfl⟩

theorem fire_cases {t : Turn} : w.fire cj t o = w ∨ Exists fun scheduled => t.boundary = some (scheduled, true) ∧
    w.jobs.get (w.jobKey (jobName cj.name scheduled)) = none ∧ w.fire cj t o =
      { w with
        jobs := w.jobs.insert (w.jobKey (jobName cj.name scheduled)) (buildJob cj scheduled)
        created := w.created ++ [scheduled] } := by
  unfold fire
  split
  · next next_ boundary =>
      split_ifs
      · exact Or.inl rfl
      · rcases @create_cases w cj next_ with ⟨-, same⟩ | ⟨free, made⟩
        · exact Or.inl same
        · exact Or.inr ⟨next_, boundary, free, made⟩
  · exact Or.inl rfl

theorem patch_cases {status : CronJobStatus} : w.patch cj status o = w ∨
    w.patch cj status o = { w with cronJob := w.mergeStatus status } := by
  unfold patch
  split_ifs
  · exact Or.inr rfl
  · exact Or.inl rfl

/-- What a pass leaves behind: its Jobs are those that were not deleted and
the one it created, and the last boundary is the one it patched, if it did. -/
structure Passed (w w' : World) (cj : CronJob) (t : Turn) (owned : List Job) (deleted : String -> Bool) : Prop where
  sameName : w'.cronJob.name = w.cronJob.name ∧ w'.cronJob.inNamespace = w.cronJob.inNamespace
  caches : w'.cached = w.cached
  last : w'.last = w.last ∨ Exists fun isThere => w'.last = ((recorded t isThere <|> (statusOf cj).lastScheduleTime) <|> w.last)
  stays : forall name, (w.jobs.get (w.jobKey name)).isSome = true -> (w'.jobs.get (w.jobKey name)).isSome = true ∨
    name ∈ t.replaced.filter deleted ∨ name ∈ (pruned cj owned).filter deleted
  created : w'.created = w.created ∨ Exists fun scheduled => t.boundary = some (scheduled, true) ∧
    w'.created = w.created ++ [scheduled] ∧
    ((w.jobs.get (w.jobKey (jobName cj.name scheduled))).isSome = true -> jobName cj.name scheduled ∈ t.replaced.filter deleted) ∧
    ((w'.jobs.get (w.jobKey (jobName cj.name scheduled))).isSome = true ∨
      jobName cj.name scheduled ∈ (pruned cj owned).filter deleted)

theorem reconcile_passed : Passed w (w.reconcileCronJob cj uid now o) cj
    (turn cj (activeJobs (ownedJobs cj uid w.jobCache)) now) (ownedJobs cj uid w.jobCache) o.deleted := by
  unfold reconcileCronJob
  dsimp only
  generalize turn cj (activeJobs (ownedJobs cj uid w.jobCache)) now = t
  generalize ownedJobs cj uid w.jobCache = owned
  generalize isStatus : desiredStatus cj owned t (decide (o.create = .answered)) = status
  have lastIs : status.lastScheduleTime = (recorded t (decide (o.create = .answered)) <|> (statusOf cj).lastScheduleTime) :=
    isStatus ▸ rfl
  have replacedStays : forall name, (w.jobs.get (w.jobKey name)).isSome = true ->
      ((w.replace t o).jobs.get (w.jobKey name)).isSome = true ∨ name ∈ t.replaced.filter o.deleted :=
    fun name there => without_isSome there
  rcases @fire_cases (w.replace t o) cj o t with same | ⟨scheduled, boundary, free, made⟩
  · rw [same]
    rcases @patch_cases (w.replace t o) cj o status with unpatched | patched
    · rw [unpatched]
      refine ⟨⟨rfl, rfl⟩, rfl, Or.inl rfl, fun name there => ?_, Or.inl rfl⟩
      rcases replacedStays name there with stays | gone
      · exact (@without_isSome w _ (pruned cj owned) o.deleted name stays).imp_right Or.inr
      · exact Or.inr (Or.inl gone)
    · rw [patched]
      refine ⟨⟨rfl, rfl⟩, rfl, Or.inr ⟨decide (o.create = .answered), ?_⟩, fun name there => ?_, Or.inl rfl⟩
      · rw [← lastIs]
        rfl
      · rcases replacedStays name there with stays | gone
        · exact (@without_isSome w _ (pruned cj owned) o.deleted name stays).imp_right Or.inr
        · exact Or.inr (Or.inl gone)
  · have firedStays : forall name, (w.jobs.get (w.jobKey name)).isSome = true ->
        (((w.replace t o).jobs.insert (w.jobKey (jobName cj.name scheduled)) (buildJob cj scheduled)).get
          (w.jobKey name)).isSome = true ∨ name ∈ t.replaced.filter o.deleted := by
      intro name there
      refine (replacedStays name there).imp_left fun stays => ?_
      rw [SortedMap.get_insert]
      split_ifs
      · rfl
      · exact stays
    have wasFree : (w.jobs.get (w.jobKey (jobName cj.name scheduled))).isSome = true ->
        jobName cj.name scheduled ∈ t.replaced.filter o.deleted := by
      intro there
      refine (replacedStays _ there).resolve_left fun stays => ?_
      rw [show (w.replace t o).jobs.get (w.jobKey (jobName cj.name scheduled)) = none from free] at stays
      cases stays
    have isThere : (((w.replace t o).jobs.insert (w.jobKey (jobName cj.name scheduled)) (buildJob cj scheduled)).get
        (w.jobKey (jobName cj.name scheduled))).isSome = true := by
      rw [SortedMap.get_insert, if_pos rfl]
      rfl
    have parts : forall w' : World, w'.jobs = (w.replace t o).jobs.insert (w.jobKey (jobName cj.name scheduled))
        (buildJob cj scheduled) -> w'.created = w.created ++ [scheduled] -> w'.cached = w.cached ->
        w'.cronJob.name = w.cronJob.name ∧ w'.cronJob.inNamespace = w.cronJob.inNamespace ->
        (w'.last = w.last ∨ Exists fun isThere => w'.last =
          ((recorded t isThere <|> (statusOf cj).lastScheduleTime) <|> w.last)) ->
        Passed w (w'.prune cj owned o) cj t owned o.deleted := by
      intro w' jobs created cached sameName last
      have key : forall name, w'.jobKey name = w.jobKey name := by
        intro name
        unfold jobKey nsOf
        rw [show Resource.namespaceOf w'.cronJob = Resource.namespaceOf w.cronJob from sameName.2]
      have stays : forall name, (w'.jobs.get (w.jobKey name)).isSome = true ->
          ((w'.prune cj owned o).jobs.get (w.jobKey name)).isSome = true ∨ name ∈ (pruned cj owned).filter o.deleted := by
        intro name there
        rw [← key name] at there ⊢
        exact without_isSome there
      refine ⟨sameName, cached, last, fun name there => ?_, Or.inr ⟨scheduled, boundary, created, wasFree, ?_⟩⟩
      · rcases firedStays name there with still | gone
        · rw [← jobs] at still
          exact (stays name still).imp_right Or.inr
        · exact Or.inr (Or.inl gone)
      · rw [← jobs] at isThere
        exact stays _ isThere
    rw [made]
    rcases @patch_cases { w.replace t o with
        jobs := (w.replace t o).jobs.insert ((w.replace t o).jobKey (jobName cj.name scheduled)) (buildJob cj scheduled)
        created := (w.replace t o).created ++ [scheduled] } cj o status with unpatched | patched
    · rw [unpatched]
      exact parts _ rfl rfl rfl ⟨rfl, rfl⟩ (Or.inl rfl)
    · rw [patched]
      refine parts _ rfl rfl rfl ⟨rfl, rfl⟩ (Or.inr ⟨decide (o.create = .answered), ?_⟩)
      rw [← lastIs]
      rfl

/-! ## Every step -/

/-- The cached CronJob is the one the world is about, and a Job that was
created is of a recorded boundary or still there. -/
structure Kept (w : World) : Prop where
  ours : forall cj, w.cached = some cj -> cj.inNamespace = w.cronJob.inNamespace ∧ cj.name = w.cronJob.name
  kept : forall scheduled, scheduled ∈ w.created -> Recorded w.last scheduled ∨ (w.jobs.get (w.keyAt scheduled)).isSome = true

theorem Kept.start (cronJob : CronJob) (jobs : SortedMap String Job) : Kept (start cronJob jobs) :=
  ⟨fun _ absent => (nomatch absent), fun _ listed => absurd listed List.not_mem_nil⟩

theorem Recorded.orElse {first last : Option Int} (later : forall t, first = some t -> Recorded last scheduled -> scheduled ≤ t)
    (known : Recorded last scheduled) : Recorded (first <|> last) scheduled := by
  cases first with
  | none => exact known
  | some t => exact ⟨t, rfl, later t rfl known⟩

theorem Kept.pass (kept : Kept w) (cached : w.cached = some cj) (known : cj.uid = some uid) (orderly : Orderly w (.pass now o)) :
    Fires w (.pass now o) ∧ Kept (w.step (.pass now o)) := by
  rcases orderly cj uid cached known with ⟨fresh, alone, replaced, deletes⟩
  have stepIs : w.step (.pass now o) = w.reconcileCronJob cj uid now o := by
    unfold step
    rw [cached]
    dsimp only
    rw [known]
  have passed := @reconcile_passed w cj uid now o
  rw [stepIs] at deletes
  have sameName : cj.name = w.cronJob.name := (kept.ours cj cached).2
  have sameKeys : forall name, (w.reconcileCronJob cj uid now o).jobKey name = w.jobKey name := by
    intro name
    unfold jobKey nsOf
    rw [show Resource.namespaceOf (w.reconcileCronJob cj uid now o).cronJob = Resource.namespaceOf w.cronJob from
      passed.sameName.2]
  have keyIs : forall scheduled, (w.reconcileCronJob cj uid now o).keyAt scheduled = w.jobKey (jobName w.cronJob.name scheduled) := by
    intro scheduled
    unfold keyAt
    rw [sameKeys, passed.sameName.1]
  have later : forall scheduled create, (turn cj (activeJobs (ownedJobs cj uid w.jobCache)) now).boundary = some (scheduled, create) ->
      ¬ Recorded w.last scheduled := by
    rintro scheduled create boundary ⟨t, isLast, within⟩
    have less := dueTime_later (turn_due boundary) (fresh.trans isLast)
    omega
  have forward : forall scheduled, Recorded w.last scheduled -> Recorded (w.reconcileCronJob cj uid now o).last scheduled := by
    intro scheduled was
    rcases passed.last with same | ⟨isThere, patched⟩
    · rw [same]
      exact was
    · rw [patched, fresh]
      refine Recorded.orElse (fun t is _ => ?_) was
      cases moves : recorded (turn cj (activeJobs (ownedJobs cj uid w.jobCache)) now) isThere with
      | none =>
        rw [moves] at is
        rcases was with ⟨t', isLast, within⟩
        rw [show w.last = some t from is] at isLast
        cases isLast
        exact within
      | some next =>
        rw [moves] at is
        cases is
        rcases Option.bind_eq_some_iff.mp moves with ⟨⟨next', create⟩, boundary, takes⟩
        have same : next' = t := by
          dsimp only at takes
          split_ifs at takes
          exact Option.some.inj takes
        rw [same] at boundary
        rcases was with ⟨t', isLast, within⟩
        have less := dueTime_later (turn_due boundary) (fresh.trans isLast)
        omega
  have fresh_ : forall scheduled, (turn cj (activeJobs (ownedJobs cj uid w.jobCache)) now).boundary = some (scheduled, true) ->
      ((w.jobs.get (w.jobKey (jobName cj.name scheduled))).isSome = true ->
        jobName cj.name scheduled ∈ (turn cj (activeJobs (ownedJobs cj uid w.jobCache)) now).replaced.filter o.deleted) ->
      scheduled ∉ w.created := by
    intro scheduled boundary free listed
    have unrecorded := later scheduled true boundary
    have there := (kept.kept scheduled listed).resolve_left unrecorded
    rw [keyAt, ← sameName] at there
    have gone := free there
    rw [sameName] at gone
    exact unrecorded (replaced scheduled listed gone)
  refine ⟨⟨?_, ?_, ?_⟩, ?_⟩
  · rw [stepIs]
    rcases passed.created with same | ⟨scheduled, boundary, made, free, -⟩
    · exact Or.inl same
    · exact Or.inr ⟨scheduled, fresh_ scheduled boundary free, made⟩
  · rw [stepIs]
    exact forward
  · rintro ⟨cj', cached', forbids⟩ grew unfinished
    rw [cached] at cached'
    cases cached'
    rw [stepIs] at grew
    rcases passed.created with same | ⟨scheduled, boundary, -, -, -⟩
    · exact grew same
    · refine alone forbids unfinished (@turn_forbid cj now _ forbids ?_)
      rw [boundary]
      exact Option.some_ne_none _
  · rw [stepIs]
    constructor
    · intro cj' cached'
      rw [passed.caches, cached] at cached'
      cases cached'
      rw [passed.sameName.1, passed.sameName.2]
      exact kept.ours cj cached
    · intro scheduled listed
      rw [keyIs]
      have wasThere : scheduled ∈ w.created -> Recorded (w.reconcileCronJob cj uid now o).last scheduled ∨
          ((w.reconcileCronJob cj uid now o).jobs.get (w.jobKey (jobName w.cronJob.name scheduled))).isSome = true := by
        intro before
        rcases kept.kept scheduled before with was | there
        · exact Or.inl (forward scheduled was)
        · rcases passed.stays _ there with stays | gone | gone
          · exact Or.inr stays
          · exact Or.inl (forward scheduled (replaced scheduled before gone))
          · exact Or.inl (deletes scheduled listed gone)
      rcases passed.created with same | ⟨scheduled', boundary, made, -, there⟩
      · exact wasThere (same ▸ listed)
      · have split_ := listed
        rw [made] at split_
        rcases List.mem_append.mp split_ with before | new
        · exact wasThere before
        · rw [List.mem_singleton.mp new] at listed ⊢
          rw [sameName] at there
          rcases there with there | gone
          · exact Or.inr there
          · exact Or.inl (deletes scheduled' listed gone)

/-- A step of somebody else creates no Job for the controller and leaves the
last boundary. -/
theorem Fires.of_still {label : Step} (created : (w.step label).created = w.created) (last : (w.step label).last = w.last) :
    Fires w label :=
  ⟨Or.inl created, fun _ was => last.symm ▸ was, fun _ grew => absurd created grew⟩

theorem Kept.step (kept : Kept w) {label : Step} (orderly : Orderly w label) : Fires w label ∧ Kept (w.step label) := by
  cases label with
  | pass now o =>
    cases cached : w.cached with
    | none =>
      have still : w.step (.pass now o) = w := by
        unfold World.step
        rw [cached]
      exact ⟨Fires.of_still (congrArg World.created still) (congrArg World.last still), still.symm ▸ kept⟩
    | some cj =>
      cases known : cj.uid with
      | none =>
        have still : w.step (.pass now o) = w := by
          unfold World.step
          rw [cached]
          dsimp only
          rw [known]
        exact ⟨Fires.of_still (congrArg World.created still) (congrArg World.last still), still.symm ▸ kept⟩
      | some uid => exact kept.pass cached known orderly
  | cronJobEvent event =>
    have seen : forall cj, Kept (if w.isOurs cj then { w with cached := some cj } else w) := by
      intro cj
      split_ifs with ours
      · unfold isOurs at ours
        rw [Bool.and_eq_true, beq_iff_eq, beq_iff_eq] at ours
        exact ⟨fun cj' same => Option.some.inj same ▸ ours, kept.kept⟩
      · exact kept
    cases event with
    | apply cj =>
      have still : (w.step (.cronJobEvent (.apply cj))).created = w.created ∧ (w.step (.cronJobEvent (.apply cj))).last = w.last := by
        unfold World.step
        dsimp only
        split_ifs <;> exact ⟨rfl, rfl⟩
      exact ⟨Fires.of_still still.1 still.2, seen cj⟩
    | initApply cj =>
      have still : (w.step (.cronJobEvent (.initApply cj))).created = w.created ∧
          (w.step (.cronJobEvent (.initApply cj))).last = w.last := by
        unfold World.step
        dsimp only
        split_ifs <;> exact ⟨rfl, rfl⟩
      exact ⟨Fires.of_still still.1 still.2, seen cj⟩
    | delete cj =>
      have still : (w.step (.cronJobEvent (.delete cj))).created = w.created ∧ (w.step (.cronJobEvent (.delete cj))).last = w.last := by
        unfold World.step
        dsimp only
        split_ifs <;> exact ⟨rfl, rfl⟩
      refine ⟨Fires.of_still still.1 still.2, ?_⟩
      unfold World.step
      dsimp only
      split_ifs
      · exact ⟨fun _ absent => (nomatch absent), kept.kept⟩
      · exact kept
    | init | initDone => exact ⟨Fires.of_still rfl rfl, kept⟩
  | jobEvent event | specEdited spec => exact ⟨Fires.of_still rfl rfl, kept.ours, kept.kept⟩
  | restart => exact ⟨Fires.of_still rfl rfl, ⟨fun _ absent => (nomatch absent), kept.kept⟩⟩
  | jobReports key conditions completionTime =>
    cases held : w.jobs.get key with
    | none =>
      have still : w.step (.jobReports key conditions completionTime) = w := by
        unfold World.step
        dsimp only
        rw [held]
      exact ⟨Fires.of_still (congrArg World.created still) (congrArg World.last still), still.symm ▸ kept⟩
    | some job =>
      have stepIs : w.step (.jobReports key conditions completionTime) =
          { w with jobs := w.jobs.insert key { job with conditions := conditions, completionTime := completionTime } } := by
        unfold World.step
        dsimp only
        rw [held]
      refine ⟨Fires.of_still (by rw [stepIs]) (by rw [stepIs]; rfl), ?_⟩
      rw [stepIs]
      refine ⟨kept.ours, fun scheduled listed => (kept.kept scheduled listed).imp_right fun there => ?_⟩
      change ((w.jobs.insert key _).get (w.keyAt scheduled)).isSome = true
      rw [SortedMap.get_insert]
      split_ifs
      · rfl
      · exact there
  | jobDeleted key =>
    refine ⟨Fires.of_still rfl rfl, kept.ours, fun scheduled listed => ?_⟩
    by_cases here : w.keyAt scheduled = key
    · exact Or.inl (orderly scheduled listed here)
    · refine (kept.kept scheduled listed).imp_right fun there => ?_
      change ((w.jobs.erase key).get (w.keyAt scheduled)).isSome = true
      rw [SortedMap.get_erase, if_neg here]
      exact there
  | jobCreated job =>
    cases held : w.jobs.get (objectKey job) with
    | some other =>
      have still : w.step (.jobCreated job) = w := by
        unfold World.step
        dsimp only
        rw [held]
      exact ⟨Fires.of_still (congrArg World.created still) (congrArg World.last still), still.symm ▸ kept⟩
    | none =>
      have stepIs : w.step (.jobCreated job) = { w with jobs := w.jobs.insert (objectKey job) job } := by
        unfold World.step
        dsimp only
        rw [held]
      refine ⟨Fires.of_still (by rw [stepIs]) (by rw [stepIs]; rfl), ?_⟩
      rw [stepIs]
      refine ⟨kept.ours, fun scheduled listed => (kept.kept scheduled listed).imp_right fun there => ?_⟩
      change ((w.jobs.insert (objectKey job) job).get (w.keyAt scheduled)).isSome = true
      rw [SortedMap.get_insert]
      split_ifs
      · rfl
      · exact there

end

/-! ## Runs -/

private def nightly (policy : Option String) (last : Option Int) : CronJob :=
  ⟨some "default", "backup", some "u", some 0, some { CronJobSpec.default with schedule := "* * * * *", concurrencyPolicy := policy },
    some { CronJobStatus.default with lastScheduleTime := last }⟩

private def succeeds : Outcomes :=
  ⟨.answered, true, fun _ => true⟩

private def nightlyJob (scheduled : Int) : Job :=
  buildJob (nightly none none) scheduled

private def nightlyRun : List Step :=
  [.cronJobEvent (.apply (nightly none none)), .pass 60 succeeds, .cronJobEvent (.apply (nightly none (some 60))),
    .jobEvent (.apply (nightlyJob 60)), .pass 120 succeeds]

/-- The status is not written, and the Job is done and deleted. -/
private def lostStatus : List Step :=
  [.cronJobEvent (.apply (nightly none none)), .pass 60 { succeeds with patched := false },
    .jobReports "default/backup-60" [⟨"Complete", "True"⟩] (some 61), .jobDeleted "default/backup-60", .pass 70 succeeds]

/-- The Job of the first boundary is seen before the status that records it. -/
private def jobSeenFirst : List Step :=
  [.cronJobEvent (.apply (nightly (some "Forbid") (some 0))), .pass 60 succeeds, .jobEvent (.apply (nightlyJob 60)), .pass 120 succeeds]

/-- The status is seen before the Job it records. -/
private def statusSeenFirst : List Step :=
  [.cronJobEvent (.apply (nightly (some "Forbid") none)), .pass 180 succeeds,
    .cronJobEvent (.apply (nightly (some "Forbid") (some 60))), .pass 181 succeeds]

end World
end CronJobs
end NotK8s.Controllers

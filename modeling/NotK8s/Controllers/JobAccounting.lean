import NotK8s.Controllers.Jobs
import NotK8s.Library.Tally

namespace NotK8s.Controllers
namespace Jobs

open Library

/-!
# What a Job counts

The counts of a Job are made anew from the Pods in the cache in every pass.
While no finished Pod leaves the cache they never decrease, and a Job that is
over creates no Pod.  A finished Pod that is deleted is not counted any more,
and its work is done again.
-/

/-! ## Status -/

structure JobStatus where
  active : Int
  succeeded : Int
  failed : Int
  conditions : List PodCondition
  deriving DecidableEq

/-- The status a pass writes.  A Job that is over reports no active Pod,
whatever its Pods do. -/
def reportedStatus (job : Job) (t : Tallies) : JobStatus :=
  let terminalNow := alreadyTerminal job || (outcome job t).isSome
  { active := if isSuspended job || terminalNow then 0 else t.active
    succeeded := t.succeeded
    failed := t.failed
    conditions :=
      if alreadyTerminal job then job.conditions
      else
        match outcome job t with
        | some .complete => job.conditions ++ [⟨"SuccessCriteriaMet", "True"⟩, ⟨"Complete", "True"⟩]
        | some .failed => job.conditions ++ [⟨"FailureTarget", "True"⟩, ⟨"Failed", "True"⟩]
        | none => job.conditions }

@[simp] theorem reportedStatus_succeeded (job : Job) (t : Tallies) : (reportedStatus job t).succeeded = t.succeeded := rfl

@[simp] theorem reportedStatus_failed (job : Job) (t : Tallies) : (reportedStatus job t).failed = t.failed := rfl

/-! ## Counts -/

def isSucceeded (pod : Pod) : Bool :=
  pod.phase == some "Succeeded"

def isFailed (pod : Pod) : Bool :=
  pod.phase == some "Failed"

/-- The Pods of the Job that are neither finished nor on their way out. -/
def activePods (job : Job) (uid : String) (podCache : SortedMap String Pod) : Nat :=
  (live (ownedPods (nsOf job) uid podCache)).countP fun pod => !isTerminalPhase pod

/-- So few Pods of the Job are cached that they can be counted. -/
def Countable (inNamespace uid : String) (podCache : SortedMap String Pod) : Prop :=
  2 * (ownedPods inNamespace uid podCache).length < 2 ^ 32

instance (inNamespace uid : String) (podCache : SortedMap String Pod) : Decidable (Countable inNamespace uid podCache) :=
  inferInstanceAs (Decidable (_ < _))

/-- The Pods a pass creates: the creations the API says yes to. -/
def created (job : Job) (podCache : SortedMap String Pod) (replies : List Reply) : Nat :=
  ((reconcileJob job podCache replies).zip replies).countP fun
    | (.create _, .created) => true
    | _ => false

/-- A pass creates no more Pods than parallelism has room for and completions
are outstanding, and none once more Pods have failed than the limit allows or
for a Job that is over. -/
structure Bounded (job : Job) (uid : String) (podCache : SortedMap String Pod) (replies : List Reply) : Prop where
  parallel : Fits 32 ((spec job).parallelism.getD 1 - activePods job uid podCache) ->
    (activePods job uid podCache + created job podCache replies : Int) ≤
      max (activePods job uid podCache : Int) ((spec job).parallelism.getD 1)
  outstanding : forall completions, (spec job).completions = some completions ->
    Fits 32 (completions - (tallies job uid podCache).succeeded) ->
    Fits 32 (completions - (tallies job uid podCache).succeeded - activePods job uid podCache) ->
    0 < created job podCache replies ->
    (tallies job uid podCache).succeeded + activePods job uid podCache + created job podCache replies ≤ completions
  limited : (spec job).backoffLimit.getD 6 < (ownedPods (nsOf job) uid podCache).countP isFailed ->
    forall pod, .create pod ∉ reconcileJob job podCache replies
  ended : (alreadyTerminal job = true ∨ (outcome job (tallies job uid podCache)).isSome = true) ->
    forall pod, .create pod ∉ reconcileJob job podCache replies

abbrev JobStep :=
  WorkloadStep Job Empty (List Reply)

/-- Every finished Pod of the Job that is cached stays there as it is. -/
def KeepsCounted (inNamespace uid : String) (s : WorkloadState Job Unit) (label : JobStep) : Prop :=
  forall entry, entry ∈ s.pods.entries -> isTerminalPhase entry.2 = true -> entry.2.inNamespace = some inNamespace ->
    entry.2.ownedBy uid = true -> Exists fun pod => (controller.step s label).pods.get entry.1 = some pod ∧
      pod.inNamespace = some inNamespace ∧ pod.ownedBy uid = true ∧ pod.phase = entry.2.phase

instance (found : Option Pod) (good : Pod -> Prop) [DecidablePred good] :
    Decidable (Exists fun pod => found = some pod ∧ good pod) :=
  match found with
  | none => isFalse fun ⟨_, contradiction, _⟩ => nomatch contradiction
  | some pod => decidable_of_iff (good pod) ⟨fun is => ⟨pod, rfl, is⟩, fun ⟨_, same, is⟩ => Option.some.inj same ▸ is⟩

instance (inNamespace uid : String) (s : WorkloadState Job Unit) (label : JobStep) :
    Decidable (KeepsCounted inNamespace uid s label) :=
  inferInstanceAs (Decidable (forall entry, entry ∈ s.pods.entries -> _ -> _ -> _ -> Exists _))

section
variable {job : Job} {uid inNamespace : String} {podCache : SortedMap String Pod} {replies : List Reply} {t : Tallies}

theorem ownedPods_length_bounds {test : Pod -> Bool} (countable : Countable inNamespace uid podCache) {pods : List Pod}
    (part : pods.Sublist (ownedPods inNamespace uid podCache)) : Fits 32 (pods.countP test : Nat) := by
  have most := (List.countP_le_length (p := test) (l := pods)).trans part.length_le
  unfold Countable at countable
  constructor <;> push_cast <;> omega

section

variable (countable : Countable (nsOf job) uid podCache)
include countable

theorem active_eq :
    (tallies job uid podCache).active = activePods job uid podCache := by
  have fits := @ownedPods_length_bounds uid (nsOf job) podCache (fun pod => !isTerminalPhase pod) countable
    (live (ownedPods (nsOf job) uid podCache)) List.filter_sublist
  unfold tallies activePods
  dsimp only
  rw [i32, wrapped_of_fits fits]

theorem succeeded_eq :
    (tallies job uid podCache).succeeded = (ownedPods (nsOf job) uid podCache).countP isSucceeded := by
  have fits := @ownedPods_length_bounds uid (nsOf job) podCache (fun pod => pod.phase == some "Succeeded") countable _ (List.Sublist.refl _)
  unfold tallies
  dsimp only
  rw [i32, wrapped_of_fits fits]
  rfl

theorem failed_eq :
    (tallies job uid podCache).failed = (ownedPods (nsOf job) uid podCache).countP isFailed := by
  have fits := @ownedPods_length_bounds uid (nsOf job) podCache (fun pod => pod.phase == some "Failed") countable _ (List.Sublist.refl _)
  unfold tallies
  dsimp only
  rw [i32, wrapped_of_fits fits]
  rfl

end

theorem countP_ownedPods {test : Pod -> Bool} : (ownedPods inNamespace uid podCache).countP test =
    tally (fun _ pod => if (pod.inNamespace == some inNamespace && pod.ownedBy uid && test pod) then 1 else 0) podCache := by
  unfold ownedPods
  rw [List.countP_filter, List.countP_filter, ← countP_eq_tally]
  congr 1
  funext pod
  cases pod.inNamespace == some inNamespace <;> cases pod.ownedBy uid <;> cases test pod <;> rfl

/-! ## One pass -/

theorem createPods_created (remaining : Nat) (candidate : Int) (replies : List Reply) :
    ((createPods job uid remaining candidate replies).zip replies).countP (fun
      | (.create _, .created) => true
      | _ => false) ≤ remaining := by
  induction replies generalizing remaining candidate with
  | nil =>
    rw [List.zip_nil_right]
    exact Nat.zero_le _
  | cons reply rest ih =>
    cases remaining with
    | zero => exact Nat.le_refl 0
    | succ remaining =>
      unfold createPods
      rw [List.zip_cons_cons, List.countP_cons]
      cases reply with
      | created =>
        have later := ih remaining (i32 (candidate + 1))
        exact Nat.add_le_add_right later 1
      | alreadyExists existing =>
        have later := ih (if (Reply.alreadyExists existing).settles uid then remaining else remaining + 1)
          (i32 (candidate + 1))
        refine later.trans ?_
        split_ifs
        · exact Nat.le_succ _
        · exact Nat.le_refl _
      | unreadable | failed => exact (ih remaining _).trans (Nat.le_succ _)

theorem toCreate_eq_zero (over_ : alreadyTerminal job = true ∨ (outcome job t).isSome = true) : toCreate job t = 0 := by
  unfold toCreate
  rcases over_ with terminal | decided
  · rw [terminal, Bool.not_true, Bool.and_false]
    rfl
  · rw [← Option.not_isNone, Bool.not_eq_true'] at decided
    rw [decided]
    rfl

theorem toDelete_of_toCreate (some_ : toCreate job t ≠ 0) : toDelete job t = [] := by
  unfold toCreate at some_
  unfold toDelete
  split_ifs at some_ with creates
  · rw [if_pos creates]
  · exact absurd rfl some_

theorem created_le (known : job.uid = some uid) : created job podCache replies ≤ toCreate job (tallies job uid podCache) := by
  unfold created reconcileJob
  split_ifs
  · exact Nat.zero_le _
  · rw [known]
    dsimp only
    by_cases none_ : toCreate job (tallies job uid podCache) = 0
    · rw [none_, createPods, List.nil_append]
      apply le_of_eq
      rw [List.countP_eq_zero]
      rintro ⟨write, reply⟩ listed
      rcases List.mem_map.mp (List.of_mem_zip listed).1 with ⟨pod, -, rfl⟩
      exact Bool.false_ne_true
    · rw [toDelete_of_toCreate none_, List.map_nil, List.append_nil]
      exact createPods_created _ _ _

theorem toCreate_le (positive : 0 < toCreate job t) :
    (toCreate job t : Int) = podsToCreate ((spec job).parallelism.getD 1) (spec job).completions t.active t.succeeded := by
  unfold toCreate at positive ⊢
  split_ifs at positive ⊢
  · omega
  · omega

theorem bounded (known : job.uid = some uid) (countable : Countable (nsOf job) uid podCache) :
    Bounded job uid podCache replies := by
  have most := @created_le job uid podCache replies known
  have none_created : (alreadyTerminal job = true ∨ (outcome job (tallies job uid podCache)).isSome = true) ->
      forall pod, .create pod ∉ reconcileJob job podCache replies := by
    intro over_ pod written
    unfold reconcileJob at written
    split_ifs at written
    · cases written
    · rw [known] at written
      dsimp only at written
      rw [toCreate_eq_zero over_, createPods, List.nil_append] at written
      rcases List.mem_map.mp written with ⟨_, _, contradiction⟩
      cases contradiction
  constructor
  · intro fits
    rcases Nat.eq_zero_or_pos (created job podCache replies) with none_ | some_
    · rw [none_]
      omega
    · have many := toCreate_le (some_.trans_le most)
      rw [active_eq countable] at many
      unfold podsToCreate at many
      rw [i32, wrapped_of_fits fits] at many
      dsimp only at many
      split at many <;> omega
  · intro completions isSome fits fits' some_
    have many := toCreate_le (some_.trans_le most)
    rw [active_eq countable, isSome] at many
    unfold podsToCreate at many
    dsimp only at many
    rw [i32, i32, i32, wrapped_of_fits fits, wrapped_of_fits fits'] at many
    omega
  · intro beyond
    rw [← failed_eq countable] at beyond
    apply none_created
    right
    unfold outcome jobOutcome
    dsimp only
    rw [if_pos beyond]
    split_ifs <;> rfl
  · exact none_created

/-! ## Runs -/

theorem KeepsCounted.count {s : WorkloadState Job Unit} {label : JobStep} (keeps : KeepsCounted inNamespace uid s label)
    {test : Pod -> Bool} (finished : forall pod, test pod = true -> isTerminalPhase pod = true)
    (byPhase : forall pod pod' : Pod, pod'.phase = pod.phase -> test pod' = test pod) :
    (ownedPods inNamespace uid s.pods).countP test ≤ (ownedPods inNamespace uid (controller.step s label).pods).countP test := by
  rw [countP_ownedPods, countP_ownedPods]
  apply tally_le
  intro key
  unfold amountAt
  cases held : s.pods.get key with
  | none => exact Nat.zero_le _
  | some pod =>
    rw [Option.elim_some]
    dsimp only
    split_ifs with counts
    · rw [Bool.and_eq_true, Bool.and_eq_true, beq_iff_eq] at counts
      rcases counts with ⟨⟨inside, owned⟩, passes⟩
      rcases keeps (key, pod) (SortedMap.mem_entries.mpr held) (finished pod passes) inside owned with
        ⟨pod', found, inside', owned', phase⟩
      rw [found, Option.elim_some, inside', owned', byPhase pod pod' phase, passes, beq_self_eq_true]
      exact Nat.le_refl 1
    · exact Nat.zero_le _

theorem count_along {s : WorkloadState Job Unit} {labels : List JobStep}
    (keeps : EveryStep controller.step (KeepsCounted inNamespace uid) s labels)
    {test : Pod -> Bool} (finished : forall pod, test pod = true -> isTerminalPhase pod = true)
    (byPhase : forall pod pod' : Pod, pod'.phase = pod.phase -> test pod' = test pod) :
    (ownedPods inNamespace uid s.pods).countP test ≤
      (ownedPods inNamespace uid (run controller.step s labels).pods).countP test := by
  induction labels generalizing s with
  | nil => exact Nat.le_refl _
  | cons label rest ih =>
    rw [run_cons]
    exact (keeps.1.count finished byPhase).trans (ih keeps.2)

/-- With more Pods finished, an outcome that was reached stays reached. -/
theorem jobOutcome_stays {succeeded failed succeeded' failed' backoffLimit : Int} {completions : Option Int}
    (more : succeeded ≤ succeeded') (more' : failed ≤ failed')
    (decided : (jobOutcome succeeded failed completions backoffLimit).isSome = true) :
    (jobOutcome succeeded' failed' completions backoffLimit).isSome = true := by
  unfold jobOutcome at decided ⊢
  cases completions with
  | none | some completions =>
    simp only [decide_eq_true_eq] at decided ⊢
    split_ifs at decided ⊢ <;> first | rfl | omega

end

/-- What two passes of a run over one Job have to do with each other. -/
structure Accounted (job job' : Job) (uid : String) (before after : SortedMap String Pod) : Prop where
  succeeded : (reportedStatus job (tallies job uid before)).succeeded ≤ (reportedStatus job' (tallies job' uid after)).succeeded
  failed : (reportedStatus job (tallies job uid before)).failed ≤ (reportedStatus job' (tallies job' uid after)).failed
  ended : (outcome job (tallies job uid before)).isSome = true -> (spec job').completions = (spec job).completions ->
    (spec job').backoffLimit = (spec job).backoffLimit -> forall replies pod, .create pod ∉ reconcileJob job' after replies

private def migration : Job :=
  ⟨some "default", "migration", some "u", some { JobSpec.default with completions := some 2 }, []⟩

private def migrationPod (name : String) : Pod :=
  ⟨some "default", name, none, [ownerReference migration], none, some "Succeeded", []⟩

private def oneDone : List JobStep :=
  [.ownEvent (.apply migration), .podEvent (.apply (migrationPod "migration-0"))]

end Jobs
end NotK8s.Controllers

import Mathlib.Data.Nat.Basic
import NotK8s.Library.Run
import NotK8s.Apiserver.Deletion

namespace NotK8s.Apiserver
namespace Deletion

open Library

/-!
# Deletion is final

Writes take turns, so every run is judged write by write.  What a write must
not do to an object that is being deleted is said of the object before and
after it, and which writes keep to it is said of the object they find and of
what they would store.
-/

/-- The object stays although its deletion is over. -/
def Stuck (r : Resource) (object : Object) : Prop :=
  hasDeletionTimestamp object = true ∧ hasFinalizers object = false ∧
    (r.isPod && podIsAssigned object && decide (0 < effectivePodGracePeriod object none)) = false

instance (r : Resource) (object : Object) : Decidable (Stuck r object) :=
  inferInstanceAs (Decidable (_ ∧ _))

def assignedPod (r : Resource) (object : Object) : Bool :=
  r.isPod && podIsAssigned object

/-- The object as the request leaves it, whether or not it is stored. -/
def leaves (r : Resource) (object : Object) (modRevision : Nat) (request : Request) : Object :=
  match candidate r object modRevision request with
  | none => object
  | some (_, stored) => stored

/-- A deletion whose grace period comes out as zero. -/
def graceZero (object : Object) : Request -> Prop
  | .delete _ gracePeriodSeconds => effectivePodGracePeriod object gracePeriodSeconds = 0
  | _ => False

/-- A deletion of a terminating Pod that asks for less grace than is stored. -/
def Shortens (r : Resource) (object : Object) (modRevision : Nat) (seconds : Int) : Request -> Prop
  | .delete preconditions gracePeriodSeconds =>
    r.isPod = true ∧ preconditions.hold object modRevision = true ∧ hasDeletionTimestamp object = true ∧
      gracePeriodSeconds = some seconds ∧ Exists fun stored => object.deletionGracePeriodSeconds = some stored ∧
        max seconds 0 < stored
  | _ => False

/-- What a write may do: `after` is what is stored then. -/
structure FinalWrite (r : Resource) (object : Object) (modRevision : Nat) (request : Request) (after : Option Object) : Prop where
  kept : forall marked, object.deletionTimestamp = some marked -> forall left, after = some left ->
    Exists fun marked' => left.deletionTimestamp = some marked' ∧ marked' ≤ marked
  removed : after = none -> hasFinalizers (leaves r object modRevision request) = false ∧
    (assignedPod r object = true -> graceZero object request)
  gone : forall left, after = some left -> ¬ Stuck r left
  shortened : forall seconds, Shortens r object modRevision seconds request -> forall left, after = some left ->
    Exists fun stored => left.deletionGracePeriodSeconds = some stored ∧ stored ≤ max seconds 0

/-- A write that stores `stored` in the place of `object`. -/
structure OrderlyWrite (r : Resource) (object stored : Object) : Prop where
  live : object.deletionTimestamp = none -> ¬ Stuck r stored
  kept : forall marked, object.deletionTimestamp = some marked -> hasFinalizers stored = true ->
    Exists fun marked' => stored.deletionTimestamp = some marked' ∧ marked' ≤ marked
  unassigned : hasDeletionTimestamp object = true -> hasFinalizers stored = false -> assignedPod r object = false

/-- The requests that keep to it. -/
def Orderly (r : Resource) (object : Object) (modRevision : Nat) : Request -> Prop
  | .delete preconditions gracePeriodSeconds =>
    deferDelete r object gracePeriodSeconds = true -> forall seconds,
      ¬ Shortens r object modRevision seconds (.delete preconditions gracePeriodSeconds)
  | .subresource _ _ _ => True
  | .bind _ => True
  | request => forall managedSubresource stored, candidate r object modRevision request = some (managedSubresource, stored) ->
      OrderlyWrite r object stored

/-! ## One write -/

section
variable {r : Resource} {object stored : Object} {modRevision : Nat} {now : Int} {request : Request}
  {gracePeriodSeconds : Option Int} {preconditions : DeletePreconditions}

/-- What is stored after a decision. -/
def Decision.result (object : Object) : Decision -> Option Object
  | .refuse => some object
  | .keep => some object
  | .put stored => some stored
  | .remove => none

theorem final_unchanged (notStuck : ¬ Stuck r object)
    (notShort : forall seconds, ¬ Shortens r object modRevision seconds request) :
    FinalWrite r object modRevision request (some object) where
  kept := by
    intro marked same left leftIs
    rw [← Option.some.inj leftIs]
    exact ⟨marked, same, le_rfl⟩
  removed := nofun
  gone := by
    intro left leftIs
    rw [← Option.some.inj leftIs]
    exact notStuck
  shortened := fun seconds shortens => absurd shortens (notShort seconds)

theorem effective_nonneg : 0 ≤ effectivePodGracePeriod object gracePeriodSeconds := by
  have current : 0 ≤ ((object.deletionGracePeriodSeconds.filter fun seconds => decide (0 ≤ seconds)).or
      (object.terminationGracePeriodSeconds.filter fun seconds => decide (0 ≤ seconds))).getD 30 := by
    cases stored : object.deletionGracePeriodSeconds.filter fun seconds => decide (0 ≤ seconds) with
    | some seconds => exact of_decide_eq_true (Option.filter_eq_some_iff.mp stored).2
    | none =>
      rw [Option.none_or]
      cases spec : object.terminationGracePeriodSeconds.filter fun seconds => decide (0 ≤ seconds) with
      | some seconds => exact of_decide_eq_true (Option.filter_eq_some_iff.mp spec).2
      | none => decide
  unfold effectivePodGracePeriod
  cases gracePeriodSeconds with
  | none => exact current
  | some seconds => exact le_min current (le_max_right _ _)

theorem marked_grace (isPod : r.isPod = true) : effectivePodGracePeriod (marked r object gracePeriodSeconds now) none =
    effectivePodGracePeriod object gracePeriodSeconds := by
  have stored : (marked r object gracePeriodSeconds now).deletionGracePeriodSeconds =
      some (effectivePodGracePeriod object gracePeriodSeconds) := if_pos isPod
  rw [effectivePodGracePeriod, stored, Option.filter_some, if_pos (decide_eq_true effective_nonneg)]
  rfl

theorem marked_notStuck (defers : deferDelete r object gracePeriodSeconds = true) :
    ¬ Stuck r (marked r object gracePeriodSeconds now) := by
  rintro ⟨-, noFinalizers, over_⟩
  have bare : hasFinalizers object = false := noFinalizers
  unfold deferDelete at defers
  rw [bare, Bool.false_or, Bool.and_eq_true, Bool.and_eq_true] at defers
  rcases defers with ⟨⟨isPod, assigned⟩, positive⟩
  have assigned' : podIsAssigned (marked r object gracePeriodSeconds now) = true := assigned
  rw [isPod, assigned', marked_grace isPod, positive] at over_
  cases over_

theorem final_delete_iff (notStuck : ¬ Stuck r object) :
    FinalWrite r object modRevision (.delete preconditions gracePeriodSeconds)
        ((deleteOnce r object modRevision preconditions gracePeriodSeconds now).result object) <->
      Orderly r object modRevision (.delete preconditions gracePeriodSeconds) := by
  unfold deleteOnce Orderly
  cases holds : preconditions.hold object modRevision with
  | false =>
    have refused : forall seconds, ¬ Shortens r object modRevision seconds (.delete preconditions gracePeriodSeconds) := by
      rintro seconds ⟨-, held, -⟩
      rw [holds] at held
      cases held
    exact iff_of_true (final_unchanged notStuck refused) fun _ => refused
  | true =>
    cases defers : deferDelete r object gracePeriodSeconds with
    | false =>
      -- The object is removed at once.
      refine iff_of_true ⟨(fun _ _ _ no => nomatch no), fun _ => ?_, (fun _ no => nomatch no),
        fun _ _ _ none_ => (nomatch none_)⟩ fun not_ => (nomatch defers.symm.trans not_)
      unfold deferDelete at defers
      rw [Bool.or_eq_false_iff] at defers
      refine ⟨defers.1, fun assigned => ?_⟩
      have zero := defers.2
      unfold assignedPod at assigned
      rw [assigned, Bool.true_and, decide_eq_false_iff_not, not_lt] at zero
      exact le_antisymm zero effective_nonneg
    | true =>
      cases already : hasDeletionTimestamp object with
      | true =>
        constructor
        · intro final _ seconds shortens
          rcases final.shortened seconds shortens object rfl with ⟨left, leftIs, atMost⟩
          rcases shortens with ⟨-, -, -, -, stored, storedIs, less⟩
          rw [← Option.some.inj (storedIs.symm.trans leftIs)] at atMost
          exact absurd atMost (not_le.mpr less)
        · exact fun orderly => final_unchanged notStuck (orderly defers)
      | false =>
        have unmarked : object.deletionTimestamp = none := Option.isNone_iff_eq_none.mp (Option.isSome_eq_false_iff.mp already)
        have noShort : forall seconds, ¬ Shortens r object modRevision seconds (.delete preconditions gracePeriodSeconds) := by
          rintro seconds ⟨-, -, marked, -⟩
          rw [already] at marked
          cases marked
        refine iff_of_true ⟨fun marked same => ?_, nofun, fun left leftIs => ?_,
          fun seconds shortens => absurd shortens (noShort seconds)⟩ fun _ => noShort
        · rw [unmarked] at same
          cases same
        · rw [← Option.some.inj leftIs]
          exact marked_notStuck defers

/-- A request other than a deletion. -/
def Request.Writes : Request -> Prop
  | .delete _ _ => False
  | _ => True

theorem not_shortens (writes : request.Writes) {seconds : Int} : ¬ Shortens r object modRevision seconds request := by
  cases request with
  | delete preconditions gracePeriodSeconds => exact fun _ => writes
  | _ => exact id

theorem not_graceZero (writes : request.Writes) : ¬ graceZero object request := by
  cases request with
  | delete preconditions gracePeriodSeconds => exact fun _ => writes
  | _ => exact id

theorem final_persist_iff {managedSubresource : String} (writes : request.Writes)
    (wanted : candidate r object modRevision request = some (managedSubresource, stored))
    (completes : (managedSubresource.isEmpty || managedSubresource == "finalize") = true) :
    FinalWrite r object modRevision request ((persistUpdate managedSubresource object stored).result object) <->
      OrderlyWrite r object stored := by
  have leavesIs : leaves r object modRevision request = stored := by
    unfold leaves
    rw [wanted]
  let written : Object :=
    { stored with
      uid := object.uid.or stored.uid
      creationTimestamp := object.creationTimestamp.or stored.creationTimestamp }
  have stuckIs : Stuck r written <-> Stuck r stored := Iff.rfl
  have persistIs : persistUpdate managedSubresource object stored =
      if hasDeletionTimestamp object && !hasFinalizers stored then .remove else .put written := by
    unfold persistUpdate
    rw [completes, Bool.true_and]
    rfl
  rw [persistIs]
  cases already : hasDeletionTimestamp object with
  | false =>
    have unmarked : object.deletionTimestamp = none := Option.isNone_iff_eq_none.mp (Option.isSome_eq_false_iff.mp already)
    rw [Bool.false_and, if_neg Bool.false_ne_true]
    constructor
    · intro final
      refine ⟨fun _ => stuckIs.not.mp (final.gone written rfl), fun marked same => ?_, fun some_ => (nomatch already.symm.trans some_)⟩
      rw [unmarked] at same
      cases same
    · intro orderly
      refine ⟨fun marked same => ?_, nofun, fun left leftIs => ?_,
        fun seconds shortens => absurd shortens (not_shortens writes)⟩
      · rw [unmarked] at same
        cases same
      · rw [← Option.some.inj leftIs]
        exact stuckIs.not.mpr (orderly.live unmarked)
  | true =>
    cases finalizers : hasFinalizers stored with
    | false =>
      constructor
      · intro final
        refine ⟨fun unmarked => ?_, fun _ _ some_ => ?_, fun _ _ => ?_⟩
        · unfold hasDeletionTimestamp at already
          rw [unmarked] at already
          cases already
        · rw [finalizers] at some_
          cases some_
        · rw [Bool.eq_false_iff]
          intro assigned
          exact not_graceZero writes ((final.removed rfl).2 assigned)
      · intro orderly
        refine ⟨(fun _ _ _ no => nomatch no), fun _ => ⟨leavesIs ▸ finalizers, fun assigned => ?_⟩,
          (fun _ no => nomatch no), (fun _ _ _ no => nomatch no)⟩
        rw [orderly.unassigned already finalizers] at assigned
        cases assigned
    | true =>
      have notStuck : ¬ Stuck r written := by
        rintro ⟨-, bare, -⟩
        have some_ : hasFinalizers written = true := finalizers
        rw [some_] at bare
        cases bare
      constructor
      · intro final
        refine ⟨fun _ => stuckIs.not.mp notStuck, fun marked same _ => ?_, fun _ bare => ?_⟩
        · exact final.kept marked same written rfl
        · rw [finalizers] at bare
          cases bare
      · intro orderly
        refine ⟨fun marked same left leftIs => ?_, nofun, fun left leftIs => ?_,
          fun seconds shortens => absurd shortens (not_shortens writes)⟩
        · rw [← Option.some.inj leftIs]
          exact orderly.kept marked same finalizers
        · rw [← Option.some.inj leftIs]
          exact notStuck

section

variable (notStuck : ¬ Stuck r object)
include notStuck

/-- The other requests: those that are refused, and those that complete a
deletion like an update. -/
theorem final_candidate_iff (writes : request.Writes)
    (decisionIs : decision r object modRevision now request =
      match candidate r object modRevision request with
      | none => .refuse
      | some (managedSubresource, stored) => persistUpdate managedSubresource object stored)
    (completes : forall managedSubresource stored, candidate r object modRevision request = some (managedSubresource, stored) ->
      (managedSubresource.isEmpty || managedSubresource == "finalize") = true) :
    FinalWrite r object modRevision request ((decision r object modRevision now request).result object) <->
      forall managedSubresource stored, candidate r object modRevision request = some (managedSubresource, stored) ->
        OrderlyWrite r object stored := by
  rw [decisionIs]
  cases wanted : candidate r object modRevision request with
  | none =>
    exact iff_of_true (final_unchanged notStuck fun _ => not_shortens writes) (fun _ _ no => nomatch no)
  | some both =>
    rcases both with ⟨managedSubresource, stored⟩
    rw [final_persist_iff writes wanted (completes managedSubresource stored wanted)]
    constructor
    · intro orderly managedSubresource' stored' same
      rw [← (Prod.mk.inj (Option.some.inj same)).2]
      exact orderly
    · exact fun orderly => orderly managedSubresource stored rfl

theorem final_subresource {subresource : Subresource} {resourceVersion : Option Nat}
    {phase : Option String} :
    FinalWrite r object modRevision (.subresource subresource resourceVersion phase)
      ((decision r object modRevision now (.subresource subresource resourceVersion phase)).result object) := by
  have writes : (Request.subresource subresource resourceVersion phase).Writes := True.intro
  unfold decision candidate
  dsimp only
  split_ifs with current
  · have notCompletes : (subresource.managed.isEmpty || subresource.managed == "finalize") = false := by
      cases subresource <;> decide
    have persistIs (stored : Object) : persistUpdate subresource.managed object stored =
        .put { stored with
          uid := object.uid.or stored.uid
          creationTimestamp := object.creationTimestamp.or stored.creationTimestamp } := by
      unfold persistUpdate
      rw [notCompletes]
      rfl
    dsimp only
    rw [persistIs]
    refine ⟨fun marked same left leftIs => ?_, nofun, fun left leftIs => ?_,
      fun seconds shortens => absurd shortens (not_shortens writes)⟩
    · rw [← Option.some.inj leftIs]
      exact ⟨marked, same, le_rfl⟩
    · rw [← Option.some.inj leftIs]
      exact notStuck
  · exact final_unchanged notStuck fun _ => not_shortens writes

theorem final_bind {nodeName : String} :
    FinalWrite r object modRevision (.bind nodeName) ((decision r object modRevision now (.bind nodeName)).result object) := by
  have writes : (Request.bind nodeName).Writes := True.intro
  refine (final_candidate_iff notStuck writes rfl fun managedSubresource stored wanted => ?_).mpr
    fun managedSubresource stored wanted => ?_
  · unfold candidate at wanted
    dsimp only at wanted
    split_ifs at wanted
    rw [← (Prod.mk.inj (Option.some.inj wanted)).1]
    rfl
  · unfold candidate at wanted
    dsimp only at wanted
    split_ifs at wanted with refused
    rw [Bool.or_eq_true, not_or, Bool.not_eq_true] at refused
    have unmarked : object.deletionTimestamp = none :=
      Option.isNone_iff_eq_none.mp (Option.isSome_eq_false_iff.mp refused.1)
    rw [← (Prod.mk.inj (Option.some.inj wanted)).2]
    refine ⟨fun _ stuck => ?_, fun marked same => ?_, fun some_ => (nomatch refused.1.symm.trans some_)⟩
    · exact nomatch refused.1.symm.trans stuck.1
    · rw [unmarked] at same
      cases same

theorem final_iff :
    FinalWrite r object modRevision request ((decision r object modRevision now request).result object) <->
      Orderly r object modRevision request := by
  cases request with
  | delete preconditions gracePeriodSeconds => exact final_delete_iff notStuck
  | update resourceVersion body =>
    have writes : (Request.update resourceVersion body).Writes := True.intro
    refine final_candidate_iff notStuck writes rfl fun managedSubresource stored wanted => ?_
    unfold candidate at wanted
    dsimp only at wanted
    split_ifs at wanted
    all_goals
      rw [← (Prod.mk.inj (Option.some.inj wanted)).1]
      rfl
  | patch resourceVersion change =>
    have writes : (Request.patch resourceVersion change).Writes := True.intro
    refine final_candidate_iff notStuck writes rfl fun managedSubresource stored wanted => ?_
    unfold candidate at wanted
    dsimp only at wanted
    split_ifs at wanted
    rw [← (Prod.mk.inj (Option.some.inj wanted)).1]
    rfl
  | apply change =>
    have writes : (Request.apply change).Writes := True.intro
    refine final_candidate_iff notStuck writes rfl fun managedSubresource stored wanted => ?_
    rw [← (Prod.mk.inj (Option.some.inj wanted)).1]
    rfl
  | finalize resourceVersion body =>
    have writes : (Request.finalize resourceVersion body).Writes := True.intro
    refine final_candidate_iff notStuck writes rfl fun managedSubresource stored wanted => ?_
    unfold candidate at wanted
    dsimp only at wanted
    split_ifs at wanted
    rw [← (Prod.mk.inj (Option.some.inj wanted)).1]
    decide
  | subresource subresource resourceVersion phase => exact iff_of_true (final_subresource notStuck) True.intro
  | bind nodeName => exact iff_of_true (final_bind notStuck) True.intro

end

end

/-! ## Every interleaving -/

namespace World

variable {w : World} {step : Step} {stored : Stored}

/-- A step that carries out no write changes nothing, a write is final, and an
object that is gone stays gone. -/
def Final (w : World) (step : Step) : Prop :=
  match w.stored with
  | none => (w.act step).stored = none
  | some before =>
    match w.lands step with
    | none => (w.act step).stored = some before
    | some (request, _, _) =>
      FinalWrite w.resource before.object before.modRevision request ((w.act step).stored.map Stored.object)

def OrderlyStep (w : World) (step : Step) : Prop :=
  match w.stored, w.lands step with
  | some before, some (request, _, _) => Orderly w.resource before.object before.modRevision request
  | _, _ => True

structure Invariant (w : World) : Prop where
  current : forall stored, w.stored = some stored -> stored.modRevision ≤ w.revision ∧ ¬ Stuck w.resource stored.object
  snapshots : forall request snapshot, (request, snapshot) ∈ w.pending -> snapshot.modRevision ≤ w.revision ∧
    forall stored, w.stored = some stored -> snapshot.modRevision = stored.modRevision -> snapshot = stored

theorem lands_stored {request : Request} {snapshot : Stored} {now : Int} (invariant : w.Invariant)
    (lands : w.lands step = some (request, snapshot, now)) : w.stored = some snapshot := by
  cases step with
  | read request' => cases lands
  | commit index now' writes =>
    unfold World.lands at lands
    dsimp only at lands
    cases read : w.pending[index]? with
    | none =>
      rw [read] at lands
      cases lands
    | some both =>
      rcases both with ⟨request', snapshot'⟩
      cases there : w.stored with
      | none =>
        rw [read, there] at lands
        cases lands
      | some stored =>
        rw [read, there] at lands
        dsimp only at lands
        split_ifs at lands with same
        rw [Bool.and_eq_true, beq_iff_eq] at same
        rcases Prod.mk.inj (Option.some.inj lands) with ⟨-, rest⟩
        rw [← (Prod.mk.inj rest).1]
        exact congrArg some ((invariant.snapshots request' snapshot' (List.mem_of_getElem? read)).2 stored there same.2).symm

theorem land_stored {decision : Decision} (there : w.stored = some stored) :
    (w.land decision).stored.map Stored.object = decision.result stored.object := by
  cases decision with
  | refuse | keep => exact congrArg (Option.map Stored.object) there
  | put object => rfl
  | remove => rfl

theorem act_lands {request : Request} {snapshot : Stored} {now : Int} (invariant : w.Invariant)
    (lands : w.lands step = some (request, snapshot, now)) :
    (w.act step).stored.map Stored.object =
      (decision w.resource snapshot.object snapshot.modRevision now request).result snapshot.object := by
  have there := lands_stored invariant lands
  cases step with
  | read request' => cases lands
  | commit index now' writes =>
    unfold World.act
    dsimp only
    rw [lands]
    exact land_stored there

theorem act_idle (idle : w.lands step = none) : (w.act step).stored = w.stored ∧ (w.act step).revision = w.revision := by
  cases step with
  | read request =>
    rcases w with ⟨resource, stored, revision, pending⟩
    cases stored with
    | none | some stored => exact ⟨rfl, rfl⟩
  | commit index now writes =>
    unfold World.act
    dsimp only
    rw [idle]
    exact ⟨rfl, rfl⟩

theorem final_step_iff (invariant : w.Invariant) : w.Final step <-> w.OrderlyStep step := by
  unfold Final OrderlyStep
  cases lands : w.lands step with
  | none =>
    have same := (act_idle lands).1
    cases there : w.stored with
    | none | some before => exact iff_of_true (same.trans there) True.intro
  | some landing =>
    rcases landing with ⟨request, snapshot, now⟩
    have there := lands_stored invariant lands
    rw [there]
    rw [act_lands invariant lands]
    exact final_iff (invariant.current snapshot there).2

theorem act_revision (invariant : w.Invariant) : w.revision ≤ (w.act step).revision ∧
    forall after, (w.act step).stored = some after ->
      w.stored = some after ∨ (w.revision < after.modRevision ∧ after.modRevision ≤ (w.act step).revision) := by
  cases lands : w.lands step with
  | none =>
    rcases act_idle lands with ⟨same, revision⟩
    exact ⟨le_of_eq revision.symm, fun after there => Or.inl (same.symm.trans there)⟩
  | some landing =>
    rcases landing with ⟨request, snapshot, now⟩
    cases step with
    | read request' => cases lands
    | commit index now' writes =>
      have actIs : w.act (.commit index now' writes) = land { w with pending := w.pending.eraseIdx index }
          (decision w.resource snapshot.object snapshot.modRevision now request) := by
        unfold World.act
        dsimp only
        rw [lands]
      rw [actIs]
      cases decision w.resource snapshot.object snapshot.modRevision now request with
      | refuse | keep => exact ⟨le_rfl, fun after same => Or.inl same⟩
      | put object =>
        refine ⟨Nat.le_succ _, fun after same => Or.inr ?_⟩
        rw [← Option.some.inj same]
        exact ⟨Nat.lt_succ_self _, le_rfl⟩
      | remove => exact ⟨Nat.le_succ _, (fun _ no => nomatch no)⟩

theorem act_pending {request : Request} {snapshot : Stored} (waits : (request, snapshot) ∈ (w.act step).pending) :
    (request, snapshot) ∈ w.pending ∨ w.stored = some snapshot := by
  cases step with
  | read request' =>
    unfold World.act at waits
    cases there : w.stored with
    | none =>
      rw [there] at waits
      exact Or.inl waits
    | some stored =>
      rw [there] at waits
      rcases List.mem_append.mp waits with before | new
      · exact Or.inl before
      · rw [(Prod.mk.inj (List.mem_singleton.mp new)).2]
        exact Or.inr rfl
  | commit index now writes =>
    have pendingIs : (w.act (.commit index now writes)).pending = w.pending.eraseIdx index := by
      unfold World.act
      dsimp only
      cases w.lands (.commit index now writes) with
      | none => rfl
      | some landing =>
        rcases landing with ⟨request', snapshot', now'⟩
        dsimp only
        cases decision w.resource snapshot'.object snapshot'.modRevision now' request' <;> rfl
    rw [pendingIs] at waits
    exact Or.inl (List.mem_of_mem_eraseIdx waits)

theorem act_resource : (w.act step).resource = w.resource := by
  cases step with
  | read request =>
    unfold World.act
    cases w.stored <;> rfl
  | commit index now writes =>
    unfold World.act
    dsimp only
    cases w.lands (.commit index now writes) with
    | none => rfl
    | some landing =>
      rcases landing with ⟨request, snapshot, now'⟩
      dsimp only
      cases decision w.resource snapshot.object snapshot.modRevision now' request <;> rfl

theorem Invariant.act (invariant : w.Invariant) (final : w.Final step) : (w.act step).Invariant := by
  rcases @act_revision w step invariant with ⟨grows, fresh⟩
  refine ⟨fun after there => ⟨?_, ?_⟩, fun request snapshot waits => ?_⟩
  · rcases fresh after there with before | new
    · exact le_trans (invariant.current after before).1 grows
    · exact new.2
  · rw [act_resource]
    unfold Final at final
    cases before : w.stored with
    | none =>
      rw [before] at final
      rw [final] at there
      cases there
    | some stored =>
      rw [before] at final
      cases lands : w.lands step with
      | none =>
        rw [lands] at final
        rw [← Option.some.inj (final.symm.trans there)]
        exact (invariant.current stored before).2
      | some landing =>
        rw [lands] at final
        exact final.gone after.object (congrArg (Option.map Stored.object) there)
  · have known : snapshot.modRevision ≤ w.revision ∧
        forall stored, w.stored = some stored -> snapshot.modRevision = stored.modRevision -> snapshot = stored := by
      rcases act_pending waits with before | current
      · exact invariant.snapshots request snapshot before
      · refine ⟨(invariant.current snapshot current).1, fun stored there _ => ?_⟩
        exact Option.some.inj (current.symm.trans there)
    refine ⟨le_trans known.1 grows, fun after there same => ?_⟩
    rcases fresh after there with before | new
    · exact known.2 after before same
    · exact absurd same (ne_of_lt (lt_of_le_of_lt known.1 new.1))

theorem deletion_final_iff (r : Resource) (object : Object) (notStuck : ¬ Stuck r object) (steps : List Step) :
    EveryStep act Final (start r object) steps <-> EveryStep act OrderlyStep (start r object) steps := by
  have initial : (start r object).Invariant := by
    refine ⟨fun stored there => ?_, fun _ _ waits => absurd waits List.not_mem_nil⟩
    rw [← Option.some.inj there]
    exact ⟨le_rfl, notStuck⟩
  exact @everyStep_iff World Step act Invariant (fun _ _ => True) Final OrderlyStep
    (fun _ _ invariant _ final => invariant.act final) (fun _ _ invariant _ => final_step_iff invariant)
    _ _ initial (EveryStep.unconditional _ _)

end World

private def pods : Resource := ⟨"", "pods", "Pod"⟩

private def boundPod : Object where
  uid := some "7"
  creationTimestamp := some 0
  deletionTimestamp := none
  deletionGracePeriodSeconds := none
  finalizers := []
  specFinalizers := []
  nodeName := some "worker"
  terminationGracePeriodSeconds := some 30
  phase := some "Running"

private def terminatingPod : Object :=
  { boundPod with deletionTimestamp := some 100, deletionGracePeriodSeconds := some 30 }

namespace World

/-- The node's second deletion ends the Pod. -/
theorem deletion_final_boundPod : EveryStep act Final (start pods boundPod)
    [.read (.delete ⟨none, none⟩ none), .commit 0 100 true,
      .read (.delete ⟨none, some "7"⟩ (some 0)), .commit 0 130 true] := by
  refine (deletion_final_iff pods boundPod (by decide) _).mpr ⟨trivial, ?_, trivial, ?_, trivial⟩
  · rintro - seconds ⟨-, -, marked, -⟩
    exact nomatch marked
  · nofun

/-- An update of the terminating Pod removes it. -/
theorem not_deletion_final_boundPod : ¬ EveryStep act Final (start pods boundPod)
    [.read (.delete ⟨none, none⟩ none), .commit 0 100 true,
      .read (.update (some 2) { terminatingPod with phase := some "Running" }), .commit 0 101 true] := by
  rintro ⟨-, -, -, final, -⟩
  exact (FinalWrite.removed final rfl).2 rfl

end World
end Deletion
end NotK8s.Apiserver

import NotK8s.Controllers.RollingUpdate

namespace NotK8s.Controllers

open Library

/-!
# Rollouts that go on

The distance of a rollout from its end is how far each ReplicaSet is from its
final count, which is what the Deployment wants for the new one and zero for
every other.  A pass over an up-to-date cache never adds to the distance.
It takes something off exactly when the surge ceiling leaves room for the new
ReplicaSet, or more Pods are available than must be, so Pods of a broken old
template can hold the ceiling for ever.
-/

/-! ## Distance -/

def finalCount (spec : DeploymentSpec) (name : String) (rs : ReplicaSet) : Int :=
  if rs.name = name then desiredReplicas spec else 0

def distanceOf (d : Deployment) (uid : String) (spec : DeploymentSpec) (name : String) (_ : String) (rs : ReplicaSet) : Nat :=
  if belongs d uid rs then (rsReplicas rs - finalCount spec name rs).natAbs else 0

/-- How far the ReplicaSets are from the end of the rollout to the one with
the name. -/
def distance (d : Deployment) (uid : String) (spec : DeploymentSpec) (name : String)
    (replicaSets : SortedMap String ReplicaSet) : Nat :=
  tally (distanceOf d uid spec name) replicaSets

/-- The new ReplicaSet has every replica and no other has one. -/
def Finished (d : Deployment) (uid : String) (spec : DeploymentSpec) (name : String)
    (replicaSets : SortedMap String ReplicaSet) : Prop :=
  forall rs, rs ∈ ownedReplicaSets d uid replicaSets -> rsReplicas rs = finalCount spec name rs

/-- No ReplicaSet is further from its final count than before, and one is
closer. -/
def Advances (d : Deployment) (uid : String) (spec : DeploymentSpec) (name : String)
    (before after : SortedMap String ReplicaSet) : Prop :=
  (forall key, amountAt (distanceOf d uid spec name) after key ≤ amountAt (distanceOf d uid spec name) before key) ∧
    Exists fun key => amountAt (distanceOf d uid spec name) after key < amountAt (distanceOf d uid spec name) before key

/-- What a pass over the ReplicaSets of the API server makes of them, when
every write succeeds. -/
def afterPass (d : Deployment) (replicaSets : SortedMap String ReplicaSet) : SortedMap String ReplicaSet :=
  let writes := (reconcileDeployment d replicaSets .same fun _ => .failed).writes
  performAll (nsOf d) replicaSets writes (List.replicate writes.length .done)

/-- A rolling update in progress, its counts up to date and every Pod of the
new ReplicaSet available.  The sums of the pass can be computed. -/
structure UpToDate (d : Deployment) (uid : String) (spec : DeploymentSpec) (name : String)
    (replicaSets : SortedMap String ReplicaSet) : Prop where
  live : d.deletionTimestamp = none
  isUid : d.uid = some uid
  isSpec : d.spec = some spec
  running : spec.paused ≠ some true
  rolling : isRecreate spec = false
  filed : Keys objectKey replicaSets
  isNew : Exists fun newRs => newReplicaSet (specHash spec) (ownedReplicaSets d uid replicaSets) = some newRs ∧
    newRs.name = name ∧ rsAvailable newRs = rsReplicas newRs
  counts : forall rs, rs ∈ ownedReplicaSets d uid replicaSets -> 0 ≤ rsAvailable rs ∧ rsAvailable rs ≤ rsReplicas rs
  desired : 0 ≤ desiredReplicas spec
  surge : PercentFits (surgeOf spec) (desiredReplicas spec) true 25
  unavailable : PercentFits (unavailableOf spec) (desiredReplicas spec) false 25
  ceiling : Fits 32 (desiredReplicas spec + (budgets spec).1)
  total : Fits 32 ((ownedReplicaSets d uid replicaSets).map rsReplicas).sum
  budget : Fits 32 (((ownedReplicaSets d uid replicaSets).map rsAvailable).sum - (desiredReplicas spec - (budgets spec).2))

/-- The new ReplicaSet is too large, or there is room for it below the surge
ceiling, or more Pods are available than must be, or no old Pod is left. -/
def Unblocked (d : Deployment) (uid : String) (spec : DeploymentSpec) (replicaSets : SortedMap String ReplicaSet) : Prop :=
  let owned := ownedReplicaSets d uid replicaSets
  let newCount := ofNew spec rsReplicas owned
  let total := (owned.map rsReplicas).sum
  desiredReplicas spec < newCount ∨ (newCount < desiredReplicas spec ∧ total < desiredReplicas spec + (budgets spec).1) ∨
    desiredReplicas spec - (budgets spec).2 < (owned.map rsAvailable).sum ∨ total = newCount

/-! ## Writes that take effect -/

section
variable {d : Deployment} {uid ns name : String} {spec : DeploymentSpec} {replicaSets : SortedMap String ReplicaSet}

/-- A write other than a creation. -/
def Write.Plain : Write -> Prop
  | .create _ => False
  | _ => True

theorem perform_origin {write : Write} (plain : write.Plain) {key : String} {rs' : ReplicaSet}
    (found : (perform ns replicaSets write).get key = some rs') :
    Exists fun rs => replicaSets.get key = some rs ∧ rs' = { rs with replicas := rs'.replicas } := by
  cases write with
  | create rs => exact absurd plain not_false
  | scale other replicas =>
    simp only [perform] at found
    cases held : replicaSets.get (nameKey ns other) with
    | none =>
      rw [held] at found
      exact ⟨rs', found, rfl⟩
    | some rs =>
      rw [held] at found
      rw [SortedMap.get_insert] at found
      split_ifs at found with same
      · cases found
        exact ⟨rs, same ▸ held, rfl⟩
      · exact ⟨rs', found, rfl⟩
  | delete other =>
    simp only [perform] at found
    rw [SortedMap.get_erase] at found
    split_ifs at found
    exact ⟨rs', found, rfl⟩
  | status status => exact ⟨rs', found, rfl⟩

theorem performAll_origin {writes : List Write} (plain : forall write, write ∈ writes -> write.Plain) {outcomes : List Outcome}
    {key : String} {rs' : ReplicaSet} (found : (performAll ns replicaSets writes outcomes).get key = some rs') :
    Exists fun rs => replicaSets.get key = some rs ∧ rs' = { rs with replicas := rs'.replicas } := by
  induction writes generalizing replicaSets outcomes with
  | nil => exact ⟨rs', found, rfl⟩
  | cons write rest ih =>
    cases outcomes with
    | nil => exact ⟨rs', found, rfl⟩
    | cons outcome outcomes =>
      have here := plain write (.head _)
      rcases ih (fun other listed => plain other (.tail _ listed)) found with
        ⟨middle, there, same⟩
      split_ifs at there with takes
      · rcases perform_origin here there with ⟨rs, first, equal⟩
        refine ⟨rs, first, ?_⟩
        rw [same, equal]
      · exact ⟨middle, there, same⟩

theorem asked_of_get {key : String} {rs : ReplicaSet} (held : replicaSets.get key = some rs) (own : belongs d uid rs = true) :
    amountAt (asked d uid) replicaSets key = rsReplicas rs := by
  unfold amountAt asked
  rw [held, Option.elim_some, if_pos own]

/-- When every write succeeds, a ReplicaSet that is scaled has a count that was
written for it. -/
theorem performAll_done {writes : List Write} {key : String} {rs : ReplicaSet} (held : replicaSets.get key = some rs)
    (own : belongs d uid rs = true)
    (scales : forall write, write ∈ writes -> forall n, leaves ns write = some (key, n) ->
      Exists fun other => write = .scale other n)
    (written : Exists fun write => write ∈ writes ∧ Exists fun n => leaves ns write = some (key, n)) :
    Exists fun write => write ∈ writes ∧
      leaves ns write = some (key, amountAt (asked d uid)
        (performAll ns replicaSets writes (List.replicate writes.length .done)) key) := by
  induction writes generalizing replicaSets rs with
  | nil =>
    rcases written with ⟨write, listed, -⟩
    cases listed
  | cons write rest ih =>
    have laterScales : forall write, write ∈ rest -> forall n, leaves ns write = some (key, n) ->
        Exists fun other => write = .scale other n :=
      fun other listed => scales other (.tail _ listed)
    have unfolded : performAll ns replicaSets (write :: rest) (List.replicate (write :: rest).length .done) =
        performAll ns (perform ns replicaSets write) rest (List.replicate rest.length .done) := rfl
    rw [unfolded]
    by_cases again : Exists fun later => later ∈ rest ∧ Exists fun n => leaves ns later = some (key, n)
    · have stays : Exists fun rs => (perform ns replicaSets write).get key = some rs ∧ belongs d uid rs = true := by
        cases write with
        | create new =>
          by_cases here : objectKey new = key
          · rcases scales _ List.mem_cons_self (rsReplicas new) (by rw [leaves, here]) with ⟨other, same⟩
            cases same
          · simp only [perform]
            cases taken : replicaSets.get (objectKey new) with
            | some other => exact ⟨rs, held, own⟩
            | none =>
              refine ⟨rs, ?_, own⟩
              rw [SortedMap.get_insert, if_neg (Ne.symm here)]
              exact held
        | scale other replicas =>
          simp only [perform]
          cases found : replicaSets.get (nameKey ns other) with
          | none => exact ⟨rs, held, own⟩
          | some scaled =>
            rw [SortedMap.get_insert]
            split_ifs with same
            · refine ⟨_, rfl, ?_⟩
              rw [← same, held] at found
              cases found
              exact own
            · exact ⟨rs, held, own⟩
        | delete other =>
          by_cases here : nameKey ns other = key
          · rcases scales _ List.mem_cons_self 0 (by rw [leaves, here]) with ⟨other, same⟩
            cases same
          · simp only [perform]
            refine ⟨rs, ?_, own⟩
            rw [SortedMap.get_erase, if_neg (Ne.symm here)]
            exact held
        | status status => exact ⟨rs, held, own⟩
      rcases stays with ⟨next, there, ownNext⟩
      rcases ih there ownNext laterScales again with ⟨later, listed, equal⟩
      exact ⟨later, .tail _ listed, equal⟩
    · rcases written with ⟨first, listed, n, leaving⟩
      rcases List.mem_cons.mp listed with rfl | later
      · refine ⟨first, .head _, ?_⟩
        rcases @performAll_asked d uid ns (perform ns replicaSets first) rest (List.replicate rest.length .done) key with
          same | ⟨later, inside, leavesLater⟩
        · rw [same, leaving]
          rcases scales first List.mem_cons_self n leaving with ⟨other, rfl⟩
          have here : nameKey ns other = key := (Prod.mk.inj (Option.some.inj leaving)).1
          rw [← here] at held ⊢
          simp only [perform, held]
          have counted : amountAt (asked d uid) (replicaSets.insert (nameKey ns other) { rs with replicas := some n })
              (nameKey ns other) = n := by
            rw [amountAt_insert, if_pos rfl]
            exact if_pos own
          rw [counted]
        · exact absurd ⟨later, inside, _, leavesLater⟩ again
      · exact absurd ⟨first, later, n, leaving⟩ again

theorem distance_performAll {writes : List Write} (plain : forall write, write ∈ writes -> write.Plain)
    {outcomes : List Outcome} {key : String} {rs : ReplicaSet} (held : replicaSets.get key = some rs)
    (own : belongs d uid rs = true) :
    amountAt (distanceOf d uid spec name) (performAll ns replicaSets writes outcomes) key ≤
      (amountAt (asked d uid) (performAll ns replicaSets writes outcomes) key - finalCount spec name rs).natAbs := by
  cases found : (performAll ns replicaSets writes outcomes).get key with
  | none =>
    unfold amountAt
    rw [found]
    exact Nat.zero_le _
  | some rs' =>
    rcases performAll_origin plain found with ⟨original, there, same⟩
    rw [held] at there
    cases there
    have ownNow : belongs d uid rs' = true := by
      rw [same]
      exact own
    have sameFinal : finalCount spec name rs' = finalCount spec name rs := by
      rw [same]
      rfl
    rw [asked_of_get found ownNow]
    unfold amountAt distanceOf
    rw [found, Option.elim_some, if_pos ownNow, sameFinal]

end

/-! ## One pass -/

section
variable {d : Deployment} {uid name : String} {spec : DeploymentSpec} {replicaSets : SortedMap String ReplicaSet}
  {newRs : ReplicaSet}

theorem UpToDate.writes (fresh : UpToDate d uid spec name replicaSets)
    (isNew : newReplicaSet (specHash spec) (ownedReplicaSets d uid replicaSets) = some newRs) :
    (reconcileDeployment d replicaSets .same fun _ => .failed).writes =
      rollout d spec (ownedReplicaSets d uid replicaSets) newRs := by
  unfold specHash at isNew
  simp only [reconcileDeployment, fresh.live, Option.isSome_none, Bool.false_eq_true, if_false, fresh.isUid, fresh.isSpec,
    if_neg fresh.running, isNew]

theorem rollout_cases {owned : List ReplicaSet} {write : Write} (rolling : isRecreate spec = false)
    (exact_ : resolvedBudgets spec = budgets spec) (written : write ∈ rollout d spec owned newRs) :
    (write = .scale newRs.name (newTarget spec (oldReplicaSets owned newRs) newRs) ∧
        rsReplicas newRs ≠ newTarget spec (oldReplicaSets owned newRs) newRs) ∨
      (Exists fun cut => cut ∈ cuts spec (oldReplicaSets owned newRs) newRs ∧ write = .scale cut.1 cut.2) ∨
      (Exists fun rs => rs ∈ oldReplicaSets owned newRs ∧ rsReplicas rs = 0 ∧ write = .delete rs.name) ∨
      Exists fun status => write = .status status := by
  simp only [rollout, rolling, Bool.false_eq_true, if_false, rollingUpdate_eq exact_, List.mem_append] at written
  rcases written with (((scaled | cut) | deleted) | status)
  · unfold scaleTo at scaled
    split at scaled
    · cases scaled
    · next other => exact Or.inl ⟨List.mem_singleton.mp scaled, other⟩
  · rcases List.mem_map.mp cut with ⟨entry, member, made⟩
    exact Or.inr (Or.inl ⟨entry, member, made.symm⟩)
  · rcases List.mem_map.mp deleted with ⟨rs, member, made⟩
    have drained := (List.mem_insertionSort createdBefore).mp (List.mem_of_mem_take member)
    rcases List.mem_filter.mp drained with ⟨isOld, empty⟩
    rw [Bool.and_eq_true, beq_iff_eq] at empty
    exact Or.inr (Or.inr (Or.inl ⟨rs, isOld, empty.1, made.symm⟩))
  · split at status
    · cases status
    · exact Or.inr (Or.inr (Or.inr ⟨_, List.mem_singleton.mp status⟩))

/-- The new ReplicaSet is scaled when its count differs, and every cut is
written. -/
theorem rollout_scales {owned : List ReplicaSet} (rolling : isRecreate spec = false)
    (exact_ : resolvedBudgets spec = budgets spec) :
    (rsReplicas newRs ≠ newTarget spec (oldReplicaSets owned newRs) newRs ->
      .scale newRs.name (newTarget spec (oldReplicaSets owned newRs) newRs) ∈ rollout d spec owned newRs) ∧
    forall cut, cut ∈ cuts spec (oldReplicaSets owned newRs) newRs -> .scale cut.1 cut.2 ∈ rollout d spec owned newRs := by
  simp only [rollout, rolling, Bool.false_eq_true, if_false, rollingUpdate_eq exact_, List.mem_append]
  refine ⟨fun differs => Or.inl (Or.inl (Or.inl ?_)), fun cut listed => Or.inl (Or.inl (Or.inr ?_))⟩
  · unfold scaleTo
    rw [if_neg differs]
    exact .head _
  · exact List.mem_map.mpr ⟨cut, listed, rfl⟩

theorem rollout_plain {owned : List ReplicaSet} {write : Write} (rolling : isRecreate spec = false)
    (exact_ : resolvedBudgets spec = budgets spec) (written : write ∈ rollout d spec owned newRs) : write.Plain := by
  rcases rollout_cases rolling exact_ written with ⟨rfl, -⟩ | ⟨cut, -, rfl⟩ | ⟨rs, -, -, rfl⟩ | ⟨status, rfl⟩ <;>
    exact True.intro

/-- The new ReplicaSet and the old ones, with counts that can be computed. -/
structure Counted (spec : DeploymentSpec) (newRs : ReplicaSet) (old : List ReplicaSet) : Prop where
  natural : forall rs, rs ∈ newRs :: old -> 0 ≤ rsAvailable rs ∧ rsAvailable rs ≤ rsReplicas rs
  ready : rsAvailable newRs = rsReplicas newRs
  names : (old.map ReplicaSet.name).Nodup
  others : forall rs, rs ∈ old -> rs.name ≠ newRs.name
  desired : 0 ≤ desiredReplicas spec
  ceiling : Fits 32 (desiredReplicas spec + (budgets spec).1)
  total : Fits 32 ((old.map rsReplicas).sum + rsReplicas newRs)
  budget : Fits 32 ((old.map rsAvailable).sum + rsAvailable newRs - (desiredReplicas spec - (budgets spec).2))

section

variable (fresh : UpToDate d uid spec name replicaSets)
include fresh

theorem UpToDate.exact_ : resolvedBudgets spec = budgets spec :=
  resolvedBudgets_eq fresh.surge fresh.unavailable

section

variable (isNew : newReplicaSet (specHash spec) (ownedReplicaSets d uid replicaSets) = some newRs)
include isNew

theorem UpToDate.perm
    :
    (ownedReplicaSets d uid replicaSets).Perm (newRs :: oldReplicaSets (ownedReplicaSets d uid replicaSets) newRs) :=
  perm_lineup (owned_keys_nodup fresh.filed) (List.mem_of_find?_eq_some isNew)

theorem UpToDate.counted
    :
    Counted spec newRs (oldReplicaSets (ownedReplicaSets d uid replicaSets) newRs) := by
  have perm := fresh.perm isNew
  have keys : ((ownedReplicaSets d uid replicaSets).map fun rs => nameKey (nsOf d) rs.name).Nodup :=
    owned_keys_nodup fresh.filed
  have totals := fresh.total
  have room := fresh.budget
  rw [(perm.map rsReplicas).sum_eq, List.map_cons, List.sum_cons, add_comm] at totals
  rw [(perm.map rsAvailable).sum_eq, List.map_cons, List.sum_cons, add_comm (rsAvailable newRs)] at room
  rcases fresh.isNew with ⟨same, found, -, ready⟩
  rw [isNew] at found
  cases found
  refine ⟨fun rs listed => fresh.counts rs (perm.mem_iff.mpr listed), ready, ?_, ?_, fresh.desired, fresh.ceiling, totals, room⟩
  · rw [show (fun rs : ReplicaSet => nameKey (nsOf d) rs.name) = nameKey (nsOf d) ∘ ReplicaSet.name from rfl,
      ← List.map_map] at keys
    exact (keys.of_map _).sublist (List.filter_sublist.map _)
  · intro rs listed
    have other := (List.mem_filter.mp listed).2
    rw [bne_iff_ne] at other
    exact other

end

end

section
variable {old : List ReplicaSet}

theorem Counted.sums (counted : Counted spec newRs old) :
    0 ≤ (old.map rsAvailable).sum ∧ (old.map rsAvailable).sum ≤ (old.map rsReplicas).sum ∧
      forall rs, rs ∈ old -> 0 ≤ rsReplicas rs ∧ rsReplicas rs ≤ (old.map rsReplicas).sum := by
  have natural : forall rs, rs ∈ old -> 0 ≤ rsReplicas rs := fun rs listed =>
    have both := counted.natural rs (.tail _ listed)
    both.1.trans both.2
  refine ⟨?_, List.sum_le_sum fun rs listed => (counted.natural rs (.tail _ listed)).2, fun rs listed => ?_⟩
  · apply List.sum_nonneg
    intro n listed
    rcases List.mem_map.mp listed with ⟨rs, member, rfl⟩
    exact (counted.natural rs (.tail _ member)).1
  · refine ⟨natural rs listed, (le_sum_of_mem ?_ (List.mem_map_of_mem listed)).1⟩
    intro n member
    rcases List.mem_map.mp member with ⟨other, there, rfl⟩
    exact natural other there

theorem Counted.target (counted : Counted spec newRs old) :
    newTarget spec old newRs =
      if desiredReplicas spec < rsReplicas newRs then desiredReplicas spec
      else if desiredReplicas spec + (budgets spec).1 ≤ (old.map rsReplicas).sum + rsReplicas newRs then rsReplicas newRs
      else rsReplicas newRs + max (min (desiredReplicas spec + (budgets spec).1 - ((old.map rsReplicas).sum + rsReplicas newRs))
        (desiredReplicas spec - rsReplicas newRs)) 0 := by
  rcases counted.ceiling with ⟨ceilingLower, ceilingUpper⟩
  have new := counted.natural newRs (.head _)
  have sums := counted.sums
  have surge := budgets_surge_natural spec
  have total : i32 ((old.map rsReplicas).sum + rsReplicas newRs) = (old.map rsReplicas).sum + rsReplicas newRs :=
    wrapped_of_fits counted.total
  unfold newTarget
  rw [total]
  unfold newRsDesiredReplicas
  dsimp only [i32]
  rw [wrapped_of_fits counted.ceiling]
  split_ifs with above full
  · rfl
  · rfl
  · have roomFits : Fits 32 (desiredReplicas spec + (budgets spec).1 - ((old.map rsReplicas).sum + rsReplicas newRs)) := by
      constructor <;> omega
    have leftFits : Fits 32 (desiredReplicas spec - rsReplicas newRs) := by constructor <;> omega
    rw [wrapped_of_fits roomFits, wrapped_of_fits leftFits, wrapped_of_fits (by constructor <;> omega)]

theorem Counted.cutBudget (counted : Counted spec newRs old) (same : newTarget spec old newRs = rsReplicas newRs) :
    cutBudget spec old newRs =
      max ((old.map rsAvailable).sum + rsAvailable newRs - (desiredReplicas spec - (budgets spec).2)) 0 := by
  have none_ : wrapped 32 (0 : Int) = 0 := by decide
  unfold Controllers.cutBudget scaleDownBudget
  dsimp only [i32]
  rw [same, counted.ready, sub_self, none_, max_self, sub_zero, wrapped_sub_right, wrapped_sub_left, ← counted.ready,
    wrapped_of_fits counted.budget, wrapped_of_fits counted.budget]

theorem scaleDownOld_nonempty {old : List (String × Int)} {remaining : Int} (positive : 0 < remaining)
    (some_ : Exists fun entry => entry ∈ old ∧ entry.2 ≠ 0) : scaleDownOld old remaining ≠ [] := by
  induction old with
  | nil =>
    rcases some_ with ⟨entry, listed, -⟩
    cases listed
  | cons head rest ih =>
    rw [scaleDownOld]
    split_ifs with skips
    · apply ih
      rcases some_ with ⟨entry, listed, nonzero⟩
      rcases List.mem_cons.mp listed with rfl | later
      · exact absurd (skips.resolve_left (not_le.mpr positive)) nonzero
      · exact ⟨entry, later, nonzero⟩
    · exact List.cons_ne_nil _ _

theorem scaleDownOld_idle {old : List (String × Int)} {remaining : Int} (none_ : remaining ≤ 0) :
    scaleDownOld old remaining = [] := by
  induction old with
  | nil => rfl
  | cons head rest ih =>
    rw [scaleDownOld, if_pos (Or.inl none_)]
    exact ih

theorem Counted.cut (counted : Counted spec newRs old) {cut : String × Int} (listed : cut ∈ cuts spec old newRs) :
    Exists fun rs => rs ∈ old ∧ rs.name = cut.1 ∧ 0 ≤ cut.2 ∧ cut.2 < rsReplicas rs := by
  have budgetFits : Fits 32 (Controllers.cutBudget spec old newRs) := by
    have inner := @fits_wrapped 32 (i32 (i32 ((old.map rsAvailable).sum + rsAvailable newRs) -
      i32 (desiredReplicas spec - (budgets spec).2)) - max (i32 (newTarget spec old newRs - rsAvailable newRs)) 0) (by decide)
    rcases inner with ⟨lower, upper⟩
    unfold Controllers.cutBudget scaleDownBudget
    dsimp only [i32] at lower upper ⊢
    constructor <;> omega
  have sums := counted.sums
  rcases counted.total with ⟨totalLower, totalUpper⟩
  have new := counted.natural newRs (.head _)
  have fits : forall entry, entry ∈ (old.map fun rs => (rs.name, rsReplicas rs)) -> 0 ≤ entry.2 ∧ Fits 32 entry.2 := by
    intro entry member
    rcases List.mem_map.mp member with ⟨rs, isOld, rfl⟩
    have count := sums.2.2 rs isOld
    refine ⟨count.1, ?_, ?_⟩ <;> dsimp only <;> omega
  rcases scaleDownOld_between budgetFits fits listed with ⟨-, before, member, natural, lower⟩
  rcases List.mem_map.mp member with ⟨rs, isOld, made⟩
  rcases Prod.mk.inj made with ⟨sameName, sameCount⟩
  exact ⟨rs, isOld, sameName, natural, sameCount ▸ lower⟩

end

theorem ofNew_found {count : ReplicaSet -> Int} {owned : List ReplicaSet}
    (isNew : newReplicaSet (specHash spec) owned = some newRs) : ofNew spec count owned = count newRs := by
  unfold ofNew
  rw [isNew, Option.elim_some]

section

variable (fresh : UpToDate d uid spec name replicaSets)
include fresh

section

variable (isNew : newReplicaSet (specHash spec) (ownedReplicaSets d uid replicaSets) = some newRs)
include isNew

/-- Whether a pass is held up, in terms of the new ReplicaSet and the old ones. -/
theorem UpToDate.unblocked_iff
    {old : List ReplicaSet} (isOld : old = oldReplicaSets (ownedReplicaSets d uid replicaSets) newRs) :
    Unblocked d uid spec replicaSets <->
      desiredReplicas spec < rsReplicas newRs ∨
      (rsReplicas newRs < desiredReplicas spec ∧
        rsReplicas newRs + (old.map rsReplicas).sum < desiredReplicas spec + (budgets spec).1) ∨
      desiredReplicas spec - (budgets spec).2 < rsAvailable newRs + (old.map rsAvailable).sum ∨
      (old.map rsReplicas).sum = 0 := by
  have perm := fresh.perm isNew
  unfold Unblocked
  dsimp only
  rw [ofNew_found isNew, (perm.map rsReplicas).sum_eq, (perm.map rsAvailable).sum_eq, List.map_cons, List.sum_cons,
    List.map_cons, List.sum_cons, ← isOld, add_eq_left]

/-- Each write of a pass leaves a ReplicaSet no further from its final count,
and a scale leaves it closer. -/
theorem UpToDate.closer
    {rs : ReplicaSet} (own : rs ∈ ownedReplicaSets d uid replicaSets) {write : Write}
    (written : write ∈ rollout d spec (ownedReplicaSets d uid replicaSets) newRs) {n : Int}
    (leaving : leaves (nsOf d) write = some (nameKey (nsOf d) rs.name, n)) :
    (n - finalCount spec newRs.name rs).natAbs ≤ (rsReplicas rs - finalCount spec newRs.name rs).natAbs ∧
      ((Exists fun other => write = .scale other n) ->
        (n - finalCount spec newRs.name rs).natAbs < (rsReplicas rs - finalCount spec newRs.name rs).natAbs) := by
  have counted := fresh.counted isNew
  have sameKey : forall {other : ReplicaSet}, other ∈ ownedReplicaSets d uid replicaSets ->
      nameKey (nsOf d) other.name = nameKey (nsOf d) rs.name -> other = rs := fun there same =>
    List.inj_on_of_nodup_map (owned_keys_nodup fresh.filed) there own same
  have ofOld : forall {other : ReplicaSet}, other ∈ oldReplicaSets (ownedReplicaSets d uid replicaSets) newRs ->
      other ∈ ownedReplicaSets d uid replicaSets := fun listed => (List.mem_filter.mp listed).1
  have oldFinal : forall {other : ReplicaSet}, other ∈ oldReplicaSets (ownedReplicaSets d uid replicaSets) newRs ->
      finalCount spec newRs.name other = 0 := fun listed => if_neg (counted.others _ listed)
  rcases rollout_cases fresh.rolling fresh.exact_ written with ⟨rfl, other⟩ | ⟨cut, listed, rfl⟩ | ⟨gone, listed, empty, rfl⟩ |
    ⟨status, rfl⟩
  · rcases Prod.mk.inj (Option.some.inj leaving) with ⟨key, rfl⟩
    have isRs := sameKey (List.mem_of_find?_eq_some isNew) key
    have closer : (newTarget spec (oldReplicaSets (ownedReplicaSets d uid replicaSets) newRs) newRs -
        finalCount spec newRs.name rs).natAbs < (rsReplicas rs - finalCount spec newRs.name rs).natAbs := by
      have final : finalCount spec newRs.name rs = desiredReplicas spec := if_pos (isRs ▸ rfl)
      have target := counted.target
      rw [final, ← isRs]
      split_ifs at target <;> omega
    exact ⟨Nat.le_of_lt closer, fun _ => closer⟩
  · rcases Prod.mk.inj (Option.some.inj leaving) with ⟨key, rfl⟩
    rcases counted.cut listed with ⟨old, isOld, name_, natural, lower⟩
    have isRs := sameKey (ofOld isOld) (name_ ▸ key)
    have closer : (cut.2 - finalCount spec newRs.name rs).natAbs < (rsReplicas rs - finalCount spec newRs.name rs).natAbs := by
      rw [← isRs, oldFinal isOld]
      omega
    exact ⟨Nat.le_of_lt closer, fun _ => closer⟩
  · rcases Prod.mk.inj (Option.some.inj leaving) with ⟨key, rfl⟩
    have isRs := sameKey (ofOld listed) key
    refine ⟨?_, ?_⟩
    · rw [← isRs, empty]
    · rintro ⟨other, same⟩
      cases same
  · cases leaving

theorem UpToDate.nearer
    (key : String) :
    amountAt (distanceOf d uid spec newRs.name) (afterPass d replicaSets) key ≤
      amountAt (distanceOf d uid spec newRs.name) replicaSets key := by
  have plain : forall write, write ∈ (reconcileDeployment d replicaSets .same fun _ => .failed).writes -> write.Plain := by
    rw [fresh.writes isNew]
    exact fun write written => rollout_plain fresh.rolling fresh.exact_ written
  unfold afterPass
  cases found : (performAll (nsOf d) replicaSets (reconcileDeployment d replicaSets .same fun _ => .failed).writes
      (List.replicate (reconcileDeployment d replicaSets .same fun _ => .failed).writes.length .done)).get key with
  | none =>
    unfold amountAt
    rw [found]
    exact Nat.zero_le _
  | some rs' =>
    rcases performAll_origin plain found with ⟨rs, held, same⟩
    by_cases own : belongs d uid rs = true
    · have key_ : key = nameKey (nsOf d) rs.name := by
        rw [← objectKey_of_belongs own]
        exact fresh.filed _ (SortedMap.mem_entries.mpr held)
      have owned : rs ∈ ownedReplicaSets d uid replicaSets :=
        mem_ownedReplicaSets.mpr ⟨List.mem_map.mpr ⟨(key, rs), SortedMap.mem_entries.mpr held, rfl⟩, own⟩
      have before : amountAt (distanceOf d uid spec newRs.name) replicaSets key =
          (rsReplicas rs - finalCount spec newRs.name rs).natAbs := by
        unfold amountAt distanceOf
        rw [held, Option.elim_some, if_pos own]
      refine (distance_performAll plain held own).trans ?_
      rw [before]
      rcases @performAll_asked d uid (nsOf d) replicaSets (reconcileDeployment d replicaSets .same fun _ => .failed).writes
          (List.replicate (reconcileDeployment d replicaSets .same fun _ => .failed).writes.length .done) key with
        same | ⟨write, written, leaving⟩
      · rw [same, asked_of_get held own]
      · rw [fresh.writes isNew] at written
        rw [key_] at leaving
        rw [key_]
        exact (fresh.closer isNew owned written leaving).1
    · have still : belongs d uid rs' = false := by
        rw [same]
        exact Bool.eq_false_iff.mpr own
      unfold amountAt distanceOf
      rw [found, Option.elim_some, still, if_neg Bool.false_ne_true]
      exact Nat.zero_le _

theorem UpToDate.advances_of_scale
    {rs : ReplicaSet}
    (own : rs ∈ ownedReplicaSets d uid replicaSets) {n : Int}
    (scaled : .scale rs.name n ∈ rollout d spec (ownedReplicaSets d uid replicaSets) newRs) :
    Advances d uid spec newRs.name replicaSets (afterPass d replicaSets) := by
  refine ⟨fresh.nearer isNew, nameKey (nsOf d) rs.name, ?_⟩
  have held := get_of_owned fresh.filed own
  have belonging := (mem_ownedReplicaSets.mp own).2
  have plain : forall write, write ∈ rollout d spec (ownedReplicaSets d uid replicaSets) newRs -> write.Plain :=
    fun write written => rollout_plain fresh.rolling fresh.exact_ written
  have nonzero : rsReplicas rs ≠ finalCount spec newRs.name rs := by
    intro same
    have strict := (fresh.closer isNew own scaled rfl).2 ⟨rs.name, rfl⟩
    rw [same, sub_self] at strict
    exact absurd strict (Nat.not_lt_zero _)
  have scales : forall write, write ∈ rollout d spec (ownedReplicaSets d uid replicaSets) newRs -> forall n,
      leaves (nsOf d) write = some (nameKey (nsOf d) rs.name, n) -> Exists fun other => write = .scale other n := by
    intro write written n leaving
    have counted := fresh.counted isNew
    rcases rollout_cases fresh.rolling fresh.exact_ written with ⟨rfl, -⟩ | ⟨cut, -, rfl⟩ | ⟨gone, listed, empty, rfl⟩ |
      ⟨status, rfl⟩
    · rcases Prod.mk.inj (Option.some.inj leaving) with ⟨-, rfl⟩
      exact ⟨_, rfl⟩
    · rcases Prod.mk.inj (Option.some.inj leaving) with ⟨-, rfl⟩
      exact ⟨_, rfl⟩
    · have key := (Prod.mk.inj (Option.some.inj leaving)).1
      have isRs : gone = rs :=
        List.inj_on_of_nodup_map (owned_keys_nodup fresh.filed) (List.mem_filter.mp listed).1 own key
      rw [← isRs, empty] at nonzero
      exact absurd (if_neg (counted.others gone listed)).symm nonzero
    · cases leaving
  unfold afterPass
  rw [fresh.writes isNew]
  rcases performAll_done held belonging scales ⟨_, scaled, n, rfl⟩ with ⟨write, written, leaving⟩
  have strict := (fresh.closer isNew own written leaving).2 (scales write written _ leaving)
  have before : amountAt (distanceOf d uid spec newRs.name) replicaSets (nameKey (nsOf d) rs.name) =
      (rsReplicas rs - finalCount spec newRs.name rs).natAbs := by
    unfold amountAt distanceOf
    rw [held, Option.elim_some, if_pos belonging]
  rw [before]
  exact (distance_performAll plain held belonging).trans_lt strict

end

end

theorem performAll_deletes {ns : String} {writes : List Write}
    (only : forall write, write ∈ writes -> (Exists fun other => write = .delete other) ∨ Exists fun status => write = .status status)
    {outcomes : List Outcome} (key : String) :
    (performAll ns replicaSets writes outcomes).get key = replicaSets.get key ∨
      Exists fun other => .delete other ∈ writes ∧ nameKey ns other = key := by
  induction writes generalizing replicaSets outcomes with
  | nil => exact Or.inl rfl
  | cons write rest ih =>
    cases outcomes with
    | nil => exact Or.inl rfl
    | cons outcome outcomes =>
      have later := @ih (if outcome.takesEffect then perform ns replicaSets write else replicaSets)
        (fun other listed => only other (.tail _ listed)) outcomes
      rcases later with same | ⟨other, listed, here⟩
      · rcases only write List.mem_cons_self with ⟨other, rfl⟩ | ⟨status, rfl⟩
        · by_cases here : nameKey ns other = key
          · exact Or.inr ⟨other, .head _, here⟩
          · refine Or.inl (same.trans ?_)
            split_ifs
            · simp only [perform]
              rw [SortedMap.get_erase, if_neg (Ne.symm here)]
            · rfl
        · refine Or.inl (same.trans ?_)
          split_ifs <;> rfl
      · exact Or.inr ⟨other, .tail _ listed, here⟩

theorem UpToDate.not_advances_of_idle (fresh : UpToDate d uid spec name replicaSets)
    (isNew : newReplicaSet (specHash spec) (ownedReplicaSets d uid replicaSets) = some newRs)
    (idle : forall other n, .scale other n ∉ rollout d spec (ownedReplicaSets d uid replicaSets) newRs) :
    ¬ Advances d uid spec newRs.name replicaSets (afterPass d replicaSets) := by
  rintro ⟨-, key, strict⟩
  have only : forall write, write ∈ rollout d spec (ownedReplicaSets d uid replicaSets) newRs ->
      (Exists fun other => write = .delete other) ∨ Exists fun status => write = .status status := by
    intro write written
    rcases rollout_cases fresh.rolling fresh.exact_ written with ⟨rfl, -⟩ | ⟨cut, -, rfl⟩ | ⟨gone, -, -, rfl⟩ | ⟨status, rfl⟩
    · exact absurd written (idle _ _)
    · exact absurd written (idle _ _)
    · exact Or.inl ⟨_, rfl⟩
    · exact Or.inr ⟨_, rfl⟩
  unfold afterPass at strict
  rw [fresh.writes isNew] at strict
  rcases @performAll_deletes replicaSets (nsOf d) _ only
      (List.replicate (rollout d spec (ownedReplicaSets d uid replicaSets) newRs).length .done) key with same | ⟨other, deleted, here⟩
  · unfold amountAt at strict
    rw [same] at strict
    exact absurd strict (Nat.lt_irrefl _)
  · rcases rollout_cases fresh.rolling fresh.exact_ deleted with ⟨same, -⟩ | ⟨cut, -, same⟩ | ⟨gone, listed, empty, same⟩ | ⟨status, same⟩
    · cases same
    · cases same
    · cases same
      have own := (List.mem_filter.mp listed).1
      have zero : amountAt (distanceOf d uid spec newRs.name) replicaSets key = 0 := by
        unfold amountAt distanceOf finalCount
        rw [← here, get_of_owned fresh.filed own, Option.elim_some, empty, if_neg ((fresh.counted isNew).others gone listed)]
        split_ifs <;> rfl
      rw [zero] at strict
      exact absurd strict (Nat.not_lt_zero _)
    · cases same

/-- An up-to-date pass ends the rollout or takes something off its distance
exactly when it is not held up. -/
theorem UpToDate.advances_iff (fresh : UpToDate d uid spec newRs.name replicaSets)
    (isNew : newReplicaSet (specHash spec) (ownedReplicaSets d uid replicaSets) = some newRs) :
    (Finished d uid spec newRs.name replicaSets ∨ Advances d uid spec newRs.name replicaSets (afterPass d replicaSets)) <->
      Unblocked d uid spec replicaSets := by
  have counted := fresh.counted isNew
  have perm := fresh.perm isNew
  have owns := List.mem_of_find?_eq_some isNew
  rw [fresh.unblocked_iff isNew rfl]
  have written := @rollout_scales d spec newRs (ownedReplicaSets d uid replicaSets) fresh.rolling fresh.exact_
  generalize isOld : oldReplicaSets (ownedReplicaSets d uid replicaSets) newRs = old at counted perm written
  have target := counted.target
  have sums := counted.sums
  have surge := budgets_surge_natural spec
  constructor
  · intro goes
    by_contra blocked
    have notAbove : ¬ desiredReplicas spec < rsReplicas newRs := fun above => blocked (Or.inl above)
    have same : newTarget spec old newRs = rsReplicas newRs := by
      by_cases short : rsReplicas newRs < desiredReplicas spec
      · have full : desiredReplicas spec + (budgets spec).1 ≤ (old.map rsReplicas).sum + rsReplicas newRs := by
          by_contra room
          exact blocked (Or.inr (Or.inl ⟨short, by omega⟩))
        rw [target, if_neg notAbove, if_pos full]
      · split_ifs at target <;> omega
    have noBudget : cutBudget spec old newRs = 0 := by
      rw [counted.cutBudget same]
      have few : ¬ desiredReplicas spec - (budgets spec).2 < rsAvailable newRs + (old.map rsAvailable).sum :=
        fun many => blocked (Or.inr (Or.inr (Or.inl many)))
      omega
    rcases goes with finished | advances
    · apply blocked
      refine Or.inr (Or.inr (Or.inr ?_))
      apply List.sum_eq_zero
      intro n listed
      rcases List.mem_map.mp listed with ⟨rs, member, rfl⟩
      rw [finished rs (perm.mem_iff.mpr (List.mem_cons_of_mem _ member))]
      exact if_neg (counted.others rs member)
    · refine fresh.not_advances_of_idle isNew (fun other n listed => ?_) advances
      rcases rollout_cases fresh.rolling fresh.exact_ listed with ⟨-, differs⟩ | ⟨cut, member, -⟩ | ⟨gone, -, -, equal⟩ | ⟨status, equal⟩
      · rw [isOld] at differs
        exact differs same.symm
      · rw [isOld] at member
        unfold cuts at member
        rw [noBudget, scaleDownOld_idle (Int.le_refl 0)] at member
        cases member
      · cases equal
      · cases equal
  · intro unblocked
    by_cases same : rsReplicas newRs = newTarget spec old newRs
    · by_cases empty : (old.map rsReplicas).sum = 0
      · left
        have whole : rsReplicas newRs = desiredReplicas spec := by split_ifs at target <;> omega
        intro rs own
        rcases List.mem_cons.mp (perm.mem_iff.mp own) with rfl | member
        · exact whole.trans (if_pos rfl).symm
        · have bound := sums.2.2 rs member
          rw [finalCount, if_neg (counted.others rs member)]
          omega
      · right
        have positive : 0 < cutBudget spec old newRs := by
          rw [counted.cutBudget same.symm]
          split_ifs at target <;> omega
        have some_ : Exists fun entry => entry ∈ (old.map fun rs => (rs.name, rsReplicas rs)) ∧ entry.2 ≠ 0 := by
          by_contra none_
          apply empty
          apply List.sum_eq_zero
          intro n listed
          rcases List.mem_map.mp listed with ⟨rs, member, rfl⟩
          by_contra nonzero
          exact none_ ⟨_, List.mem_map.mpr ⟨rs, member, rfl⟩, nonzero⟩
        rcases List.exists_mem_of_ne_nil _ (scaleDownOld_nonempty positive some_) with ⟨cut, listed⟩
        rcases counted.cut listed with ⟨rs, member, name_, -, -⟩
        apply fresh.advances_of_scale isNew (perm.mem_iff.mpr (.tail _ member)) (n := cut.2)
        rw [name_]
        exact written.2 cut listed
    · exact Or.inr (fresh.advances_of_scale isNew owns (written.1 same))

/-! ## Rollouts -/

/-- The ReplicaSets are those, with statuses of their own. -/
def SameButStatus (one other : SortedMap String ReplicaSet) : Prop :=
  forall key, (one.get key).map withoutStatus = (other.get key).map withoutStatus

theorem distance_of_same {one other : SortedMap String ReplicaSet} (same : SameButStatus one other) :
    distance d uid spec name one = distance d uid spec name other := by
  apply tally_congr
  intro key
  have here := same key
  unfold amountAt
  cases first : one.get key with
  | none =>
    rw [first] at here
    rw [Option.map_eq_none_iff.mp here.symm]
  | some rs =>
    rw [first] at here
    rcases Option.map_eq_some_iff.mp here.symm with ⟨rs', second, equal⟩
    rw [second]
    have fields : distanceOf d uid spec name key (withoutStatus rs) = distanceOf d uid spec name key (withoutStatus rs') := by
      rw [equal]
    exact fields

end

/-- Among states that are up to date, one pass ends the rollout or takes
something off its distance exactly in those that are not held up, and a
rollout that never is held up ends after as many passes as its distance at
most. -/
theorem rollout_ends (d : Deployment) (uid : String) (spec : DeploymentSpec) (name : String)
    (states : Nat -> SortedMap String ReplicaSet) (fresh : forall i, UpToDate d uid spec name (states i)) :
    (forall i, (Finished d uid spec name (states i) ∨ Advances d uid spec name (states i) (afterPass d (states i))) <->
      Unblocked d uid spec (states i)) ∧
    ((forall i, Unblocked d uid spec (states i)) -> (forall i, SameButStatus (states (i + 1)) (afterPass d (states i))) ->
      Exists fun i => i ≤ distance d uid spec name (states 0) ∧ Finished d uid spec name (states i)) := by
  have each : forall i, (Finished d uid spec name (states i) ∨ Advances d uid spec name (states i) (afterPass d (states i))) <->
      Unblocked d uid spec (states i) := by
    intro i
    rcases (fresh i).isNew with ⟨newRs, isNew, rfl, -⟩
    exact (fresh i).advances_iff isNew
  refine ⟨each, fun unblocked follows => ?_⟩
  by_contra never
  have lower : forall i, i ≤ distance d uid spec name (states 0) + 1 ->
      distance d uid spec name (states i) + i ≤ distance d uid spec name (states 0) := by
    intro i
    induction i with
    | zero => exact fun _ => Nat.le_refl _
    | succ i ih =>
      intro most
      have unfinished : ¬ Finished d uid spec name (states i) :=
        fun finished => never ⟨i, Nat.le_of_succ_le_succ most, finished⟩
      have advances := ((each i).mpr (unblocked i)).resolve_left unfinished
      have less : distance d uid spec name (afterPass d (states i)) < distance d uid spec name (states i) :=
        tally_lt advances.1 advances.2
      rw [distance_of_same (follows i)]
      omega
  have last := lower (distance d uid spec name (states 0) + 1) (Nat.le_refl _)
  omega

private def shopSpec : DeploymentSpec :=
  ⟨none, some 3, [], none, none⟩

private def shop : Deployment :=
  ⟨some "default", "shop", some "u", none, none, some shopSpec, none⟩

private def shopReplicaSet (name hash : String) (created replicas available : Int) : ReplicaSet :=
  ⟨some "default", name, some created, [⟨"u", some true⟩], some hash, some replicas, some ⟨replicas, some available, some available⟩⟩

private def shopNewName : String :=
  "shop-" ++ specHash shopSpec

private def shopNew (replicas : Int) : ReplicaSet :=
  shopReplicaSet shopNewName (specHash shopSpec) 2 replicas replicas

/-- The new template has its Pods, and one of the old template is left. -/
private def shopLast : SortedMap String ReplicaSet :=
  SortedMap.empty.insert "default/shop-old" (shopReplicaSet "shop-old" "old" 0 1 1) |>.insert
    ("default/" ++ shopNewName) (shopNew 3)

private def shopDone : SortedMap String ReplicaSet :=
  SortedMap.empty.insert "default/shop-old" (shopReplicaSet "shop-old" "old" 0 0 0) |>.insert
    ("default/" ++ shopNewName) (shopNew 3)

theorem upToDate_shopLast : UpToDate shop "u" shopSpec shopNewName shopLast :=
  ⟨rfl, rfl, rfl, by decide, rfl, by unfold Keys; decide +kernel, ⟨shopNew 3, by decide +kernel, rfl, rfl⟩,
    by decide +kernel, by decide, by decide +kernel, by decide +kernel, by decide +kernel, by decide +kernel, by decide +kernel⟩

theorem upToDate_shopDone : UpToDate shop "u" shopSpec shopNewName shopDone :=
  ⟨rfl, rfl, rfl, by decide, rfl, by unfold Keys; decide +kernel, ⟨shopNew 3, by decide +kernel, rfl, rfl⟩,
    by decide +kernel, by decide, by decide +kernel, by decide +kernel, by decide +kernel, by decide +kernel, by decide +kernel⟩

theorem rollout_ends_shop : Exists fun i => i ≤ distance shop "u" shopSpec shopNewName shopLast ∧
    Finished shop "u" shopSpec shopNewName (if i = 0 then shopLast else shopDone) := by
  refine (rollout_ends shop "u" shopSpec shopNewName (fun i => if i = 0 then shopLast else shopDone) ?_).2 ?_ ?_
  · rintro (_ | i)
    · exact upToDate_shopLast
    · exact upToDate_shopDone
  · rintro (_ | i)
    · exact Or.inr (Or.inr (Or.inl (by decide +kernel)))
    · have unblocked : Unblocked shop "u" shopSpec shopDone := Or.inr (Or.inr (Or.inr (by decide +kernel)))
      exact unblocked
  · rintro (_ | i)
    · intro key
      have first : afterPass shop shopLast = shopLast.insert "default/shop-old"
          { shopReplicaSet "shop-old" "old" 0 0 0 with status := some ⟨1, some 1, some 1⟩ } := by decide +kernel
      have then_ : shopDone = shopLast.insert "default/shop-old" (shopReplicaSet "shop-old" "old" 0 0 0) := by decide +kernel
      simp only [Nat.zero_add, Nat.one_ne_zero, if_false, if_true]
      rw [first, then_, SortedMap.get_insert, SortedMap.get_insert]
      split_ifs <;> rfl
    · intro key
      have still : afterPass shop shopDone = shopDone := by decide +kernel
      simp only [Nat.add_eq_zero_iff, Nat.one_ne_zero, and_false, if_false]
      rw [still]

/-- Three old Pods are available, the one Pod of a broken revision fills the
surge ceiling, and the fixed template has none. -/
private def shopStuck : SortedMap String ReplicaSet :=
  SortedMap.empty.insert "default/shop-old" (shopReplicaSet "shop-old" "old" 0 3 3) |>.insert
    "default/shop-broken" (shopReplicaSet "shop-broken" "broken" 1 1 0) |>.insert ("default/" ++ shopNewName) (shopNew 0)

theorem not_advances_shopStuck : UpToDate shop "u" shopSpec shopNewName shopStuck ∧
    ¬ (Finished shop "u" shopSpec shopNewName shopStuck ∨
      Advances shop "u" shopSpec shopNewName shopStuck (afterPass shop shopStuck)) := by
  have fresh : UpToDate shop "u" shopSpec shopNewName shopStuck :=
    ⟨rfl, rfl, rfl, by decide, rfl, by unfold Keys; decide +kernel, ⟨shopNew 0, by decide +kernel, rfl, rfl⟩,
      by decide +kernel, by decide, by decide +kernel, by decide +kernel, by decide +kernel, by decide +kernel, by decide +kernel⟩
  refine ⟨fresh, ?_⟩
  rintro (finished | ⟨-, key, less⟩)
  · have whole := finished (shopNew 0) (by decide +kernel)
    revert whole
    decide +kernel
  · have still : afterPass shop shopStuck = shopStuck := by decide +kernel
    rw [still] at less
    exact absurd less (Nat.lt_irrefl _)

end NotK8s.Controllers

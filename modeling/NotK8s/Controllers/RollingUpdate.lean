import NotK8s.Controllers.Deployment
import NotK8s.Controllers.WorkQueue
import NotK8s.Library.Tally

namespace NotK8s.Controllers

open Library

/-!
# Rolling updates

The counts of a pass are the ones of its cache.  A Pod is available until its
ReplicaSet is asked for fewer Pods than are available, so the Pods that are
available and stay are the lesser of the two counts.  A pass respects its
budgets when its cache shows every count it has written before and its status
counts include no Pod that is gone or asked to go.
-/

/-! ## Budgets -/

section
variable {desired maxSurge maxUnavailable currentTotal newRsCurrent : Int}

theorem newRsDesiredReplicas_bounds (natural : 0 ≤ desired) (current : 0 ≤ newRsCurrent) (surge : 0 ≤ maxSurge)
    (ceiling : Fits 32 (desired + maxSurge)) (total : Fits 32 currentTotal) (part : newRsCurrent ≤ currentTotal) :
    0 ≤ newRsDesiredReplicas desired maxSurge currentTotal newRsCurrent ∧
      newRsDesiredReplicas desired maxSurge currentTotal newRsCurrent ≤ max newRsCurrent desired ∧
      (newRsDesiredReplicas desired maxSurge currentTotal newRsCurrent < newRsCurrent ->
        newRsDesiredReplicas desired maxSurge currentTotal newRsCurrent = desired) ∧
      currentTotal + max 0 (newRsDesiredReplicas desired maxSurge currentTotal newRsCurrent - newRsCurrent) ≤
        max currentTotal (desired + maxSurge) := by
  unfold newRsDesiredReplicas
  rcases ceiling with ⟨ceilingLower, ceilingUpper⟩
  split
  · omega
  · next notAbove =>
      dsimp only [i32]
      rw [wrapped_of_fits ⟨ceilingLower, ceilingUpper⟩]
      split
      · omega
      · next room =>
          have roomFits : Fits 32 (desired + maxSurge - currentTotal) := by constructor <;> omega
          have leftFits : Fits 32 (desired - newRsCurrent) := by constructor <;> omega
          rw [wrapped_of_fits roomFits, wrapped_of_fits leftFits, wrapped_of_fits (by constructor <;> omega)]
          omega

theorem scaleDownBudget_le {availableTotal newRsReplicas newRsAvailable : Int}
    (shortfall : Fits 32 (newRsReplicas - newRsAvailable))
    (lower : -(2 ^ 32) ≤ 2 * (availableTotal - (desired - maxUnavailable) - max (newRsReplicas - newRsAvailable) 0)) :
    scaleDownBudget desired maxUnavailable (i32 availableTotal) newRsReplicas newRsAvailable ≤
      max (availableTotal - (desired - maxUnavailable) - max (newRsReplicas - newRsAvailable) 0) 0 := by
  unfold scaleDownBudget
  dsimp only [i32]
  rw [wrapped_of_fits shortfall, wrapped_sub_right, wrapped_sub_left (a := availableTotal), wrapped_sub_left]
  exact max_le_max (wrapped_le lower) (Int.le_refl 0)

end

theorem scaleDownOld_names {old : List (String × Int)} {remaining : Int} {cut : String × Int}
    (listed : cut ∈ scaleDownOld old remaining) : cut.1 ∈ old.map Prod.fst := by
  induction old generalizing remaining with
  | nil => cases listed
  | cons head rest ih =>
    rw [scaleDownOld] at listed
    split at listed
    · exact .tail _ (ih listed)
    · rcases List.mem_cons.mp listed with here | later
      · rw [here]
        exact .head _
      · exact .tail _ (ih later)

/-- No count is cut below zero, raised, or written where there is nothing to cut. -/
theorem scaleDownOld_between {old : List (String × Int)} {remaining : Int} (budget : Fits 32 remaining)
    (counts : forall entry, entry ∈ old -> 0 ≤ entry.2 ∧ Fits 32 entry.2) {cut : String × Int}
    (listed : cut ∈ scaleDownOld old remaining) :
    0 < remaining ∧ Exists fun before => (cut.1, before) ∈ old ∧ 0 ≤ cut.2 ∧ cut.2 < before := by
  induction old generalizing remaining with
  | nil => cases listed
  | cons head rest ih =>
    rcases head with ⟨name, replicas⟩
    have tail := fun entry (member : entry ∈ rest) => counts entry (.tail _ member)
    rw [scaleDownOld] at listed
    split at listed
    · rcases ih budget tail listed with ⟨positive, before, member, bounds⟩
      exact ⟨positive, before, .tail _ member, bounds⟩
    · next spends =>
        have count := counts (name, replicas) (.head _)
        rcases budget with ⟨budgetLower, budgetUpper⟩
        rcases count with ⟨natural, countLower, countUpper⟩
        have cutFits : Fits 32 (replicas - min replicas remaining) := by constructor <;> omega
        have restFits : Fits 32 (remaining - min replicas remaining) := by constructor <;> omega
        dsimp only [i32] at listed
        rw [wrapped_of_fits cutFits, wrapped_of_fits restFits] at listed
        refine ⟨by omega, ?_⟩
        rcases List.mem_cons.mp listed with here | later
        · rw [here]
          refine ⟨replicas, .head _, ?_, ?_⟩ <;> dsimp only <;> omega
        · rcases ih restFits tail later with ⟨_, before, member, bounds⟩
          exact ⟨before, .tail _ member, bounds⟩

/-- The cuts that are written lower what stays available by the budget at most. -/
theorem scaleDownOld_keeps {old : List (String × Int)} {remaining : Int} (budget : Fits 32 remaining)
    (counts : forall entry, entry ∈ old -> 0 ≤ entry.2 ∧ Fits 32 entry.2) (distinct : (old.map Prod.fst).Nodup)
    (available : String -> Int) (after : String -> Int)
    (chosen : forall name before, (name, before) ∈ old ->
      after name = before ∨ (name, after name) ∈ scaleDownOld old remaining) :
    (old.map fun entry => min (available entry.1) entry.2).sum - max remaining 0 ≤
      (old.map fun entry => min (available entry.1) (after entry.1)).sum := by
  induction old generalizing remaining with
  | nil =>
    rw [List.map_nil, List.map_nil, List.sum_nil]
    omega
  | cons head rest ih =>
    rcases head with ⟨name, replicas⟩
    have tail := fun entry (member : entry ∈ rest) => counts entry (.tail _ member)
    rw [List.map_cons, List.nodup_cons] at distinct
    have apart : forall other before, (other, before) ∈ rest -> other ≠ name := by
      rintro other before member rfl
      exact distinct.1 (List.mem_map.mpr ⟨(other, before), member, rfl⟩)
    have here := chosen name replicas (.head _)
    have later := fun other before member => chosen other before (.tail _ member)
    rw [scaleDownOld] at here later
    rw [List.map_cons, List.map_cons, List.sum_cons, List.sum_cons]
    split at here
    · next keeps =>
        simp only [if_pos keeps] at later
        have rests := ih budget tail distinct.2 later
        have same : after name = replicas := by
          rcases here with same | written
          · exact same
          · exact absurd (scaleDownOld_names written) distinct.1
        rw [same]
        omega
    · next spends =>
        simp only [if_neg spends] at later
        have count := counts (name, replicas) (.head _)
        rcases budget with ⟨budgetLower, budgetUpper⟩
        rcases count with ⟨natural, countLower, countUpper⟩
        have cutFits : Fits 32 (replicas - min replicas remaining) := by constructor <;> omega
        have restFits : Fits 32 (remaining - min replicas remaining) := by constructor <;> omega
        dsimp only [i32] at here later
        rw [wrapped_of_fits cutFits, wrapped_of_fits restFits] at here later
        have rests := ih restFits tail distinct.2 fun other before member => by
          rcases later other before member with same | written
          · exact Or.inl same
          · rcases List.mem_cons.mp written with equal | written
            · exact absurd (Prod.ext_iff.mp equal).1 (apart other before member)
            · exact Or.inr written
        have bounds : replicas - min replicas remaining ≤ after name ∧ after name ≤ replicas := by
          rcases here with same | written
          · omega
          · rcases List.mem_cons.mp written with equal | written
            · have := (Prod.ext_iff.mp equal).2
              dsimp only at this
              omega
            · exact absurd (scaleDownOld_names written) distinct.1
        dsimp only
        omega

/-! ## Passes and what happens between them -/

/-- The ReplicaSets of the API server, how many Pods of each are available,
and the cache of the controller. -/
structure Rollout where
  replicaSets : SortedMap String ReplicaSet
  available : String -> Nat
  rsCache : SortedMap String ReplicaSet

def nameKey (ns name : String) : String :=
  ns ++ "/" ++ name

def perform (ns : String) (replicaSets : SortedMap String ReplicaSet) : Write -> SortedMap String ReplicaSet
  | .create rs =>
    match replicaSets.get (objectKey rs) with
    | some _ => replicaSets
    | none => replicaSets.insert (objectKey rs) rs
  | .scale name replicas =>
    match replicaSets.get (nameKey ns name) with
    | some rs => replicaSets.insert (nameKey ns name) { rs with replicas := some replicas }
    | none => replicaSets
  | .delete name => replicaSets.erase (nameKey ns name)
  | .status _ => replicaSets

/-- A pass that is cut off makes none of the later requests. -/
def performAll (ns : String) (replicaSets : SortedMap String ReplicaSet) :
    List Write -> List Outcome -> SortedMap String ReplicaSet
  | write :: writes, outcome :: outcomes =>
    performAll ns (if outcome.takesEffect then perform ns replicaSets write else replicaSets) writes outcomes
  | _, _ => replicaSets

def createReply (replicaSets : SortedMap String ReplicaSet) (outcome : Outcome) (new : ReplicaSet) : CreateReply :=
  match outcome with
  | .done =>
    match replicaSets.get (objectKey new) with
    | some _ => .alreadyExists
    | none => .created new
  | _ => .failed

namespace Rollout

inductive Step where
  | pass (authority : Authority) (outcomes : List Outcome)
  /-- The status of a ReplicaSet is written. -/
  | report (key : String) (status : ReplicaSetStatus)
  /-- Pods become available or are lost. -/
  | pods (key : String) (available : Nat)
  | informer (event : WatchEvent ReplicaSet)

def decision (d : Deployment) (s : Rollout) (authority : Authority) (outcomes : List Outcome) : Decision :=
  reconcileDeployment d s.rsCache authority (createReply s.replicaSets (outcomes.headD .failed))

def step (d : Deployment) (s : Rollout) : Step -> Rollout
  | .pass authority outcomes =>
    { s with replicaSets := performAll (nsOf d) s.replicaSets (s.decision d authority outcomes).writes outcomes }
  | .report key status =>
    match s.replicaSets.get key with
    | some rs => { s with replicaSets := s.replicaSets.insert key { rs with status := some status } }
    | none => s
  | .pods key available => { s with available := Function.update s.available key available }
  | .informer event => { s with rsCache := mirror objectKey s.rsCache event }

end Rollout

/-! ## Counts -/

/-- The ReplicaSet is one of the Deployment's. -/
def belongs (d : Deployment) (uid : String) (rs : ReplicaSet) : Bool :=
  rs.inNamespace == some (nsOf d) && ownedBy rs uid

def asked (d : Deployment) (uid : String) (_ : String) (rs : ReplicaSet) : Int :=
  if belongs d uid rs then rsReplicas rs else 0

/-- The Pods that are available and not asked to terminate. -/
def staying (d : Deployment) (uid : String) (available : String -> Nat) (key : String) (rs : ReplicaSet) : Int :=
  if belongs d uid rs then min (available key : Int) (rsReplicas rs) else 0

/-- The sum of `spec.replicas`. -/
def totalAsked (d : Deployment) (uid : String) (s : Rollout) : Int :=
  tally (asked d uid) s.replicaSets

def totalStaying (d : Deployment) (uid : String) (s : Rollout) : Int :=
  tally (staying d uid s.available) s.replicaSets

/-- A budget as it is meant, in integers without bounds. -/
def budgetOf (v : Option IntOrString) (total : Int) (roundUp : Bool) (defaultPercent : Int) : Int :=
  let (isPercent, num) := intOrPercent defaultPercent v
  max (if isPercent then (total * num + if roundUp then 99 else 0).tdiv 100 else num) 0

/-- The percentage can be computed. -/
def PercentFits (v : Option IntOrString) (total : Int) (roundUp : Bool) (defaultPercent : Int) : Prop :=
  let (isPercent, num) := intOrPercent defaultPercent v
  isPercent = true -> Fits 32 (total * num) ∧ Fits 32 (total * num + if roundUp then 99 else 0)

instance (v : Option IntOrString) (total : Int) (roundUp : Bool) (defaultPercent : Int) :
    Decidable (PercentFits v total roundUp defaultPercent) := by
  unfold PercentFits
  infer_instance

theorem resolveIntOrStr_eq {v : Option IntOrString} {total : Int} {roundUp : Bool} {defaultPercent : Int}
    (fits : PercentFits v total roundUp defaultPercent) :
    resolveIntOrStr v total roundUp defaultPercent = budgetOf v total roundUp defaultPercent := by
  unfold PercentFits at fits
  unfold resolveIntOrStr budgetOf
  rcases parsed : intOrPercent defaultPercent v with ⟨isPercent, num⟩
  simp only [parsed, i32] at fits ⊢
  cases isPercent with
  | false => rfl
  | true =>
    have product := fits rfl
    rw [wrapped_of_fits product.1]
    cases roundUp with
    | false => simp only [Bool.false_eq_true, if_false, if_true, add_zero]
    | true =>
      have rounded := product.2
      simp only [if_true] at rounded ⊢
      rw [wrapped_of_fits rounded]

def surgeOf (spec : DeploymentSpec) : Option IntOrString :=
  (spec.strategy.bind DeploymentStrategy.rollingUpdate).bind RollingUpdate.maxSurge

def unavailableOf (spec : DeploymentSpec) : Option IntOrString :=
  (spec.strategy.bind DeploymentStrategy.rollingUpdate).bind RollingUpdate.maxUnavailable

/-- `maxSurge` and `maxUnavailable`, after fenceposts. -/
def budgets (spec : DeploymentSpec) : Int × Int :=
  resolveFenceposts (budgetOf (surgeOf spec) (desiredReplicas spec) true 25)
    (budgetOf (unavailableOf spec) (desiredReplicas spec) false 25) (desiredReplicas spec)

theorem resolvedBudgets_eq {spec : DeploymentSpec} (surge : PercentFits (surgeOf spec) (desiredReplicas spec) true 25)
    (unavailable : PercentFits (unavailableOf spec) (desiredReplicas spec) false 25) :
    resolvedBudgets spec = budgets spec := by
  unfold budgets
  rw [← resolveIntOrStr_eq surge, ← resolveIntOrStr_eq unavailable]
  rfl

theorem budgets_surge_natural (spec : DeploymentSpec) : 0 ≤ (budgets spec).1 := by
  unfold budgets resolveFenceposts
  split
  · exact Int.one_nonneg
  · exact Int.le_max_right _ _

theorem budgets_unavailable_natural (spec : DeploymentSpec) : 0 ≤ (budgets spec).2 := by
  unfold budgets resolveFenceposts
  split
  · exact Int.le_max_right _ _
  · exact Int.le_max_right _ _

/-! ## What a pass writes -/

/-- The count that a write leaves under a key. -/
def leaves (ns : String) : Write -> Option (String × Int)
  | .create rs => some (objectKey rs, rsReplicas rs)
  | .scale name replicas => some (nameKey ns name, replicas)
  | .delete name => some (nameKey ns name, 0)
  | .status _ => none

section
variable {d : Deployment} {uid ns : String} {replicaSets : SortedMap String ReplicaSet}

theorem perform_asked (write : Write) (key : String) :
    amountAt (asked d uid) (perform ns replicaSets write) key = amountAt (asked d uid) replicaSets key ∨
      leaves ns write = some (key, amountAt (asked d uid) (perform ns replicaSets write) key) := by
  cases write with
  | create rs =>
    simp only [perform]
    split
    · exact Or.inl rfl
    · next absent =>
        rw [amountAt_insert]
        split
        · next same =>
            unfold asked
            split
            · exact Or.inr (congrArg some (Prod.ext same.symm rfl))
            · left
              unfold amountAt
              rw [same, absent]
              rfl
        · exact Or.inl rfl
  | scale name replicas =>
    simp only [perform]
    split
    · next rs present =>
        rw [amountAt_insert]
        split
        · next same =>
            have sameOwner : belongs d uid { rs with replicas := some replicas } = belongs d uid rs := rfl
            unfold asked
            rw [sameOwner]
            split
            · exact Or.inr (congrArg some (Prod.ext same.symm rfl))
            · next other =>
                left
                unfold amountAt
                rw [same, present, Option.elim_some]
                exact (if_neg other).symm
        · exact Or.inl rfl
    · exact Or.inl rfl
  | delete name =>
    simp only [perform]
    rw [amountAt_erase]
    split
    · next same => exact Or.inr (congrArg some (Prod.ext same.symm rfl))
    · exact Or.inl rfl
  | status status => exact Or.inl rfl

/-- Whatever becomes of the writes, a count is the former one or one that
was written. -/
theorem performAll_asked (writes : List Write) (outcomes : List Outcome) (key : String) :
    amountAt (asked d uid) (performAll ns replicaSets writes outcomes) key = amountAt (asked d uid) replicaSets key ∨
      Exists fun write => write ∈ writes ∧
        leaves ns write = some (key, amountAt (asked d uid) (performAll ns replicaSets writes outcomes) key) := by
  induction writes generalizing replicaSets outcomes with
  | nil => exact Or.inl rfl
  | cons write rest ih =>
    cases outcomes with
    | nil => exact Or.inl rfl
    | cons outcome outcomes =>
      simp only [performAll]
      rcases @ih (if outcome.takesEffect then perform ns replicaSets write else replicaSets)
        outcomes with kept | written
      · rw [kept]
        split
        · rcases @perform_asked d uid ns replicaSets write key with same | leaves
          · exact Or.inl same
          · exact Or.inr ⟨write, .head _, leaves⟩
        · exact Or.inl rfl
      · rcases written with ⟨later, member, leaves⟩
        exact Or.inr ⟨later, .tail _ member, leaves⟩

theorem amountAt_staying (available : String -> Nat) (key : String) :
    amountAt (staying d uid available) replicaSets key =
      min (available key : Int) (amountAt (asked d uid) replicaSets key) := by
  unfold amountAt
  cases replicaSets.get key with
  | none =>
    dsimp only [Option.elim_none]
    omega
  | some rs =>
    dsimp only [Option.elim_some]
    unfold staying asked
    split
    · rfl
    · omega

end

/-- The count a pass asks of the new ReplicaSet. -/
def newTarget (spec : DeploymentSpec) (old : List ReplicaSet) (newRs : ReplicaSet) : Int :=
  newRsDesiredReplicas (desiredReplicas spec) (budgets spec).1 (i32 ((old.map rsReplicas).sum + rsReplicas newRs))
    (rsReplicas newRs)

/-- What a pass may cut. -/
def cutBudget (spec : DeploymentSpec) (old : List ReplicaSet) (newRs : ReplicaSet) : Int :=
  scaleDownBudget (desiredReplicas spec) (budgets spec).2 (i32 ((old.map rsAvailable).sum + rsAvailable newRs))
    (newTarget spec old newRs) (rsAvailable newRs)

def cuts (spec : DeploymentSpec) (old : List ReplicaSet) (newRs : ReplicaSet) : List (String × Int) :=
  scaleDownOld (old.map fun rs => (rs.name, rsReplicas rs)) (cutBudget spec old newRs)

theorem rollingUpdate_eq {spec : DeploymentSpec} (exact_ : resolvedBudgets spec = budgets spec) (old : List ReplicaSet)
    (newRs : ReplicaSet) : rollingUpdate spec old newRs =
      scaleTo newRs (newTarget spec old newRs) ++ (cuts spec old newRs).map fun cut => .scale cut.1 cut.2 := by
  have total : i32 (wrappedSum 32 (old.map rsReplicas) + rsReplicas newRs) =
      i32 ((old.map rsReplicas).sum + rsReplicas newRs) := wrapped_wrappedSum_add _
  have available : i32 (wrappedSum 32 (old.map rsAvailable) + rsAvailable newRs) =
      i32 ((old.map rsAvailable).sum + rsAvailable newRs) := wrapped_wrappedSum_add _
  unfold cuts cutBudget newTarget
  simp only [rollingUpdate, exact_, total, available]

/-- A count that a pass writes is the one of the new ReplicaSet, a cut, or
zero for a ReplicaSet that has nothing. -/
theorem rollout_leaves {d : Deployment} {spec : DeploymentSpec} {owned : List ReplicaSet} {newRs : ReplicaSet}
    (exact_ : resolvedBudgets spec = budgets spec) (rolling : isRecreate spec = false) {write : Write}
    (written : write ∈ rollout d spec owned newRs) {ns key : String} {n : Int} (leaving : leaves ns write = some (key, n)) :
    (key = nameKey ns newRs.name ∧ n = newTarget spec (oldReplicaSets owned newRs) newRs) ∨
      (Exists fun cut => cut ∈ cuts spec (oldReplicaSets owned newRs) newRs ∧ key = nameKey ns cut.1 ∧ n = cut.2) ∨
      Exists fun rs => rs ∈ oldReplicaSets owned newRs ∧ rsReplicas rs = 0 ∧ key = nameKey ns rs.name ∧ n = 0 := by
  simp only [rollout, rolling, Bool.false_eq_true, if_false, rollingUpdate_eq exact_, List.mem_append] at written
  rcases written with (((scaled | cut) | deleted) | status)
  · unfold scaleTo at scaled
    split at scaled
    · cases scaled
    · rw [List.mem_singleton.mp scaled] at leaving
      cases leaving
      exact Or.inl ⟨rfl, rfl⟩
  · rcases List.mem_map.mp cut with ⟨entry, member, made⟩
    rw [← made] at leaving
    cases leaving
    exact Or.inr (Or.inl ⟨entry, member, rfl, rfl⟩)
  · rcases List.mem_map.mp deleted with ⟨rs, member, made⟩
    rw [← made] at leaving
    cases leaving
    have drained := (List.mem_insertionSort createdBefore).mp (List.mem_of_mem_take member)
    rcases List.mem_filter.mp drained with ⟨isOld, empty⟩
    rw [Bool.and_eq_true, beq_iff_eq] at empty
    exact Or.inr (Or.inr ⟨rs, isOld, empty.1, rfl, rfl⟩)
  · split at status
    · cases status
    · rw [List.mem_singleton.mp status] at leaving
      cases leaving

/-- What a pass makes of the cache: the ReplicaSet it grows and the ones it
drains, with counts that are those of the API server. -/
structure Lineup (d : Deployment) (uid : String) (s : Rollout) (newRs : ReplicaSet) (old : List ReplicaSet) : Prop where
  counts : forall rs, rs ∈ newRs :: old ->
    amountAt (asked d uid) s.replicaSets (nameKey (nsOf d) rs.name) = rsReplicas rs
  covers : forall key, amountAt (asked d uid) s.replicaSets key ≠ 0 ->
    key ∈ (newRs :: old).map fun rs => nameKey (nsOf d) rs.name
  distinct : ((newRs :: old).map fun rs => nameKey (nsOf d) rs.name).Nodup
  natural : forall rs, rs ∈ newRs :: old -> 0 ≤ rsReplicas rs
  counted : rsAvailable newRs + (old.map rsAvailable).sum ≤ totalStaying d uid s

/-- The counts of a pass can be computed. -/
structure Fitting (spec : DeploymentSpec) (newRs : ReplicaSet) (old : List ReplicaSet) : Prop where
  desired : 0 ≤ desiredReplicas spec
  available : 0 ≤ rsAvailable newRs ∧ Fits 32 (rsAvailable newRs)
  ceiling : Fits 32 (desiredReplicas spec + (budgets spec).1)
  total : Fits 32 ((old.map rsReplicas).sum + rsReplicas newRs)
  budget : -(2 ^ 32) ≤ 2 * ((old.map rsAvailable).sum + rsAvailable newRs - (desiredReplicas spec - (budgets spec).2) -
    max (max (rsReplicas newRs) (desiredReplicas spec) - rsAvailable newRs) 0)

section
variable {d : Deployment} {uid : String} {s : Rollout} {newRs : ReplicaSet} {old : List ReplicaSet} {spec : DeploymentSpec}

theorem Lineup.totalAsked_eq (lineup : Lineup d uid s newRs old) :
    totalAsked d uid s = rsReplicas newRs + (old.map rsReplicas).sum := by
  unfold totalAsked
  rw [tally_eq_sum lineup.distinct lineup.covers, List.map_map, List.map_cons, List.sum_cons]
  congr 1
  · exact lineup.counts newRs (.head _)
  · congr 1
    apply List.map_congr_left
    intro rs member
    exact lineup.counts rs (.tail _ member)

theorem totalStaying_eq (distinct : ((newRs :: old).map fun rs => nameKey (nsOf d) rs.name).Nodup)
    (covers : forall key, amountAt (asked d uid) s.replicaSets key ≠ 0 ->
      key ∈ (newRs :: old).map fun rs => nameKey (nsOf d) rs.name) :
    totalStaying d uid s =
      min (s.available (nameKey (nsOf d) newRs.name) : Int)
          (amountAt (asked d uid) s.replicaSets (nameKey (nsOf d) newRs.name)) +
        (old.map fun rs => min (s.available (nameKey (nsOf d) rs.name) : Int)
          (amountAt (asked d uid) s.replicaSets (nameKey (nsOf d) rs.name))).sum := by
  have covered : forall key, amountAt (staying d uid s.available) s.replicaSets key ≠ 0 ->
      key ∈ (newRs :: old).map fun rs => nameKey (nsOf d) rs.name := by
    intro key nonzero
    apply covers key
    intro zero
    rw [amountAt_staying, zero] at nonzero
    omega
  unfold totalStaying
  rw [tally_eq_sum distinct covered, List.map_map, List.map_cons, List.sum_cons, Function.comp_apply, amountAt_staying]
  congr 2
  apply List.map_congr_left
  intro rs member
  exact amountAt_staying _ _

theorem Lineup.names_nodup (lineup : Lineup d uid s newRs old) : (old.map ReplicaSet.name).Nodup := by
  have keys := (List.nodup_cons.mp lineup.distinct).2
  rw [show (fun rs : ReplicaSet => nameKey (nsOf d) rs.name) = nameKey (nsOf d) ∘ ReplicaSet.name from rfl,
    ← List.map_map] at keys
  exact keys.of_map _

theorem le_sum_of_mem {counts : List Int} (natural : forall n, n ∈ counts -> 0 ≤ n) {n : Int} (member : n ∈ counts) :
    n ≤ counts.sum ∧ 0 ≤ counts.sum := by
  have sum := List.sum_nonneg natural
  exact ⟨List.single_le_sum natural n member, sum⟩

section

variable (lineup : Lineup d uid s newRs old)
include lineup

theorem Lineup.old_natural : forall n, n ∈ old.map rsReplicas -> 0 ≤ n := by
  intro n member
  rcases List.mem_map.mp member with ⟨rs, isOld, equal⟩
  exact equal ▸ lineup.natural rs (.tail _ isOld)

section

variable (fitting : Fitting spec newRs old)
include fitting

theorem Lineup.old_fits :
    forall entry, entry ∈ (old.map fun rs => (rs.name, rsReplicas rs)) -> 0 ≤ entry.2 ∧ Fits 32 entry.2 := by
  intro entry member
  rcases List.mem_map.mp member with ⟨rs, isOld, made⟩
  rw [← made]
  have new := lineup.natural newRs (.head _)
  have count := lineup.natural rs (.tail _ isOld)
  have below := (le_sum_of_mem lineup.old_natural (List.mem_map_of_mem isOld)).1
  rcases fitting.total with ⟨lower, upper⟩
  refine ⟨count, ?_, ?_⟩ <;> dsimp only <;> omega

theorem Lineup.target_bounds :
    0 ≤ newTarget spec old newRs ∧ newTarget spec old newRs ≤ max (rsReplicas newRs) (desiredReplicas spec) ∧
      (newTarget spec old newRs < rsReplicas newRs -> newTarget spec old newRs = desiredReplicas spec) ∧
      (old.map rsReplicas).sum + rsReplicas newRs + max 0 (newTarget spec old newRs - rsReplicas newRs) ≤
        max ((old.map rsReplicas).sum + rsReplicas newRs) (desiredReplicas spec + (budgets spec).1) := by
  have new := lineup.natural newRs (.head _)
  have oldSum := List.sum_nonneg lineup.old_natural
  unfold newTarget
  dsimp only [i32]
  rw [wrapped_of_fits fitting.total]
  exact newRsDesiredReplicas_bounds fitting.desired new (budgets_surge_natural spec) fitting.ceiling fitting.total (by omega)

theorem Lineup.cutBudget_le :
    cutBudget spec old newRs ≤ max ((old.map rsAvailable).sum + rsAvailable newRs -
      (desiredReplicas spec - (budgets spec).2) - max (newTarget spec old newRs - rsAvailable newRs) 0) 0 := by
  rcases lineup.target_bounds fitting with ⟨natural, most, _, _⟩
  have oldSum := List.sum_nonneg lineup.old_natural
  rcases fitting.total with ⟨_, totalUpper⟩
  rcases fitting.ceiling with ⟨_, ceilingUpper⟩
  rcases fitting.available with ⟨availableNatural, _, availableUpper⟩
  have shortfall : Fits 32 (newTarget spec old newRs - rsAvailable newRs) := by constructor <;> omega
  have lower := fitting.budget
  exact scaleDownBudget_le shortfall (by omega)

theorem Lineup.respects {after : Rollout}
    (samePods : after.available = s.available)
    (newCount : amountAt (asked d uid) after.replicaSets (nameKey (nsOf d) newRs.name) = rsReplicas newRs ∨
      amountAt (asked d uid) after.replicaSets (nameKey (nsOf d) newRs.name) = newTarget spec old newRs)
    (oldCount : forall rs, rs ∈ old -> amountAt (asked d uid) after.replicaSets (nameKey (nsOf d) rs.name) = rsReplicas rs ∨
      (rs.name, amountAt (asked d uid) after.replicaSets (nameKey (nsOf d) rs.name)) ∈ cuts spec old newRs)
    (covers : forall key, amountAt (asked d uid) after.replicaSets key ≠ 0 ->
      key ∈ (newRs :: old).map fun rs => nameKey (nsOf d) rs.name) :
    totalAsked d uid after ≤ max (totalAsked d uid s) (desiredReplicas spec + (budgets spec).1) ∧
      ((Exists fun rs => rs ∈ old ∧
          amountAt (asked d uid) after.replicaSets (nameKey (nsOf d) rs.name) < rsReplicas rs) ->
        desiredReplicas spec - (budgets spec).2 ≤ totalStaying d uid after) := by
  rcases lineup.target_bounds fitting with ⟨targetNatural, targetMost, targetLowered, targetCeiling⟩
  have budgetFits : Fits 32 (cutBudget spec old newRs) := by
    have some_ := @fits_wrapped 32 (i32 ((i32 ((old.map rsAvailable).sum + rsAvailable newRs)) -
      i32 (desiredReplicas spec - (budgets spec).2)) -
      max (i32 (newTarget spec old newRs - rsAvailable newRs)) 0) (by decide)
    rcases some_ with ⟨lower, upper⟩
    unfold cutBudget scaleDownBudget
    dsimp only [i32] at lower upper ⊢
    constructor <;> omega
  have fits := lineup.old_fits fitting
  have cutOf : forall rs, rs ∈ old -> forall n, (rs.name, n) ∈ cuts spec old newRs ->
      0 < cutBudget spec old newRs ∧ 0 ≤ n ∧ n < rsReplicas rs := by
    intro rs isOld n cut
    rcases scaleDownOld_between budgetFits fits cut with ⟨positive, before, member, natural, lower⟩
    rcases List.mem_map.mp member with ⟨other, otherOld, made⟩
    have sameName := (Prod.ext_iff.mp made).1
    have sameCount := (Prod.ext_iff.mp made).2
    have equal : other = rs := List.inj_on_of_nodup_map lineup.names_nodup otherOld isOld sameName
    rw [equal] at sameCount
    exact ⟨positive, natural, by omega⟩
  have bounded : forall rs, rs ∈ old ->
      0 ≤ amountAt (asked d uid) after.replicaSets (nameKey (nsOf d) rs.name) ∧
        amountAt (asked d uid) after.replicaSets (nameKey (nsOf d) rs.name) ≤ rsReplicas rs := by
    intro rs isOld
    rcases oldCount rs isOld with same | cut
    · rw [same]
      exact ⟨lineup.natural rs (.tail _ isOld), Int.le_refl _⟩
    · have within := cutOf rs isOld _ cut
      exact ⟨within.2.1, Int.le_of_lt within.2.2⟩
  constructor
  · have sum : (old.map fun rs => amountAt (asked d uid) after.replicaSets (nameKey (nsOf d) rs.name)).sum ≤
        (old.map rsReplicas).sum := List.sum_le_sum fun rs isOld => (bounded rs isOld).2
    have total : totalAsked d uid after = amountAt (asked d uid) after.replicaSets (nameKey (nsOf d) newRs.name) +
        (old.map fun rs => amountAt (asked d uid) after.replicaSets (nameKey (nsOf d) rs.name)).sum := by
      unfold totalAsked
      rw [tally_eq_sum lineup.distinct covers, List.map_map, List.map_cons, List.sum_cons]
      rfl
    rw [total, lineup.totalAsked_eq]
    omega
  · rintro ⟨rs, isOld, lowered⟩
    have positive : 0 < cutBudget spec old newRs := by
      rcases oldCount rs isOld with same | cut
      · rw [same] at lowered
        exact absurd lowered (Int.lt_irrefl _)
      · exact (cutOf rs isOld _ cut).1
    have before := totalStaying_eq lineup.distinct lineup.covers
    have later := totalStaying_eq lineup.distinct covers
    have newBefore := lineup.counts newRs (.head _)
    have oldBefore : (old.map fun rs => min (s.available (nameKey (nsOf d) rs.name) : Int)
        (amountAt (asked d uid) s.replicaSets (nameKey (nsOf d) rs.name))).sum =
        (old.map fun rs => min (s.available (nameKey (nsOf d) rs.name) : Int) (rsReplicas rs)).sum := by
      congr 1
      apply List.map_congr_left
      intro rs isOld
      rw [lineup.counts rs (List.mem_cons_of_mem _ isOld)]
    have names : ((old.map fun rs => (rs.name, rsReplicas rs)).map Prod.fst).Nodup := by
      rw [List.map_map]
      exact lineup.names_nodup
    have kept := scaleDownOld_keeps budgetFits fits names (fun name => s.available (nameKey (nsOf d) name))
      (fun name => amountAt (asked d uid) after.replicaSets (nameKey (nsOf d) name)) (by
        intro name count member
        rcases List.mem_map.mp member with ⟨other, otherOld, made⟩
        cases made
        exact oldCount other otherOld)
    simp only [List.map_map, Function.comp_def] at kept
    have some_ : 0 ≤ (old.map fun rs => min (s.available (nameKey (nsOf d) rs.name) : Int)
        (amountAt (asked d uid) after.replicaSets (nameKey (nsOf d) rs.name))).sum := by
      apply List.sum_nonneg
      intro n member
      rcases List.mem_map.mp member with ⟨other, otherOld, made⟩
      have natural := (bounded other otherOld).1
      omega
    have budget := lineup.cutBudget_le fitting
    have counted := lineup.counted
    rw [samePods] at later
    rw [oldBefore, newBefore] at before
    have unavailableNatural : 0 ≤ (budgets spec).2 := budgets_unavailable_natural spec
    omega

end

end

end

/-! ## Which passes respect the budgets -/

/-- A ReplicaSet without what only its status says. -/
def withoutStatus (rs : ReplicaSet) : ReplicaSet :=
  { rs with status := none }

def specHash (spec : DeploymentSpec) : String :=
  computeTemplateHash spec.template

/-- A count of the new ReplicaSet, zero before there is one. -/
def ofNew (spec : DeploymentSpec) (count : ReplicaSet -> Int) (owned : List ReplicaSet) : Int :=
  (newReplicaSet (specHash spec) owned).elim 0 count

/-- The cache shows every write, its status counts include no Pod that is
gone or asked to go, and the counts can be computed. -/
structure Sound (d : Deployment) (uid : String) (spec : DeploymentSpec) (s : Rollout) : Prop where
  seen : (ownedReplicaSets d uid s.rsCache).map withoutStatus = (ownedReplicaSets d uid s.replicaSets).map withoutStatus
  counted : ((ownedReplicaSets d uid s.rsCache).map rsAvailable).sum ≤ totalStaying d uid s
  natural : forall rs, rs ∈ ownedReplicaSets d uid s.rsCache ->
    0 ≤ rsReplicas rs ∧ 0 ≤ rsAvailable rs ∧ Fits 32 (rsAvailable rs)
  desired : 0 ≤ desiredReplicas spec
  surge : PercentFits (surgeOf spec) (desiredReplicas spec) true 25
  unavailable : PercentFits (unavailableOf spec) (desiredReplicas spec) false 25
  ceiling : Fits 32 (desiredReplicas spec + (budgets spec).1)
  total : Fits 32 ((ownedReplicaSets d uid s.rsCache).map rsReplicas).sum
  budget : -(2 ^ 32) ≤ 2 * (((ownedReplicaSets d uid s.rsCache).map rsAvailable).sum -
    (desiredReplicas spec - (budgets spec).2) -
    max (max (ofNew spec rsReplicas (ownedReplicaSets d uid s.rsCache)) (desiredReplicas spec) -
      ofNew spec rsAvailable (ownedReplicaSets d uid s.rsCache)) 0)

/-- A ReplicaSet of the Deployment other than the new one is asked for fewer Pods. -/
def LowersOld (d : Deployment) (uid : String) (spec : DeploymentSpec) (s after : Rollout) : Prop :=
  Exists fun rs => rs ∈ ownedReplicaSets d uid s.replicaSets ∧
    (forall newRs, newRs ∈ newReplicaSet (specHash spec) (ownedReplicaSets d uid s.replicaSets) -> rs.name ≠ newRs.name) ∧
    amountAt (asked d uid) after.replicaSets (objectKey rs) < rsReplicas rs

/-- The pass exceeds neither budget. -/
def Respects (d : Deployment) (uid : String) (spec : DeploymentSpec) (s after : Rollout) : Prop :=
  totalAsked d uid after ≤ max (totalAsked d uid s) (desiredReplicas spec + (budgets spec).1) ∧
    (LowersOld d uid spec s after -> desiredReplicas spec - (budgets spec).2 ≤ totalStaying d uid after)

section
variable {d : Deployment} {uid : String} {s : Rollout} {spec : DeploymentSpec} {replicaSets : SortedMap String ReplicaSet}
  {rs : ReplicaSet}

theorem mem_ownedReplicaSets :
    rs ∈ ownedReplicaSets d uid replicaSets <-> rs ∈ replicaSets.entries.map Prod.snd ∧ belongs d uid rs = true := by
  unfold ownedReplicaSets belongs
  rw [List.mem_insertionSort, List.mem_filter, List.mem_filter, Bool.and_eq_true, and_assoc]

theorem objectKey_of_belongs (own : belongs d uid rs = true) : objectKey rs = nameKey (nsOf d) rs.name := by
  unfold belongs at own
  rw [Bool.and_eq_true, beq_iff_eq] at own
  have inside : Resource.namespaceOf rs = some (nsOf d) := own.1
  unfold objectKey
  rw [inside]
  rfl

theorem get_of_owned (filed : Keys objectKey replicaSets) (own : rs ∈ ownedReplicaSets d uid replicaSets) :
    replicaSets.get (nameKey (nsOf d) rs.name) = some rs := by
  rcases mem_ownedReplicaSets.mp own with ⟨stored, belonging⟩
  rcases List.mem_map.mp stored with ⟨⟨key, held⟩, entry, rfl⟩
  have key_eq := filed _ entry
  rw [← objectKey_of_belongs belonging, ← key_eq]
  exact SortedMap.mem_entries.mp entry

theorem owned_of_asked (filed : Keys objectKey replicaSets) {key : String}
    (nonzero : amountAt (asked d uid) replicaSets key ≠ 0) :
    Exists fun rs => rs ∈ ownedReplicaSets d uid replicaSets ∧ key = nameKey (nsOf d) rs.name := by
  unfold amountAt at nonzero
  cases held : replicaSets.get key with
  | none =>
    rw [held] at nonzero
    exact absurd rfl nonzero
  | some rs =>
    rw [held, Option.elim_some] at nonzero
    unfold asked at nonzero
    split at nonzero
    · next belonging =>
        have entry := SortedMap.mem_entries.mpr held
        refine ⟨rs, mem_ownedReplicaSets.mpr ⟨List.mem_map.mpr ⟨(key, rs), entry, rfl⟩, belonging⟩, ?_⟩
        rw [← objectKey_of_belongs belonging]
        exact filed _ entry
    · exact absurd rfl nonzero

theorem owned_keys_nodup (filed : Keys objectKey replicaSets) :
    ((ownedReplicaSets d uid replicaSets).map fun rs => nameKey (nsOf d) rs.name).Nodup := by
  have keys : ((ownedReplicaSets d uid replicaSets).map objectKey).Nodup := by
    have stored : ((replicaSets.entries.map Prod.snd).map objectKey).Nodup := by
      rw [List.map_map]
      have same : replicaSets.entries.map (objectKey ∘ Prod.snd) = replicaSets.entries.map Prod.fst :=
        List.map_congr_left fun entry listed => (filed entry listed).symm
      rw [same]
      exact List.Pairwise.map _ (fun _ _ ordered => ne_of_lt ordered) replicaSets.sorted
    unfold ownedReplicaSets
    rw [(List.perm_insertionSort createdBefore _).map objectKey |>.nodup_iff]
    exact stored.sublist ((List.filter_sublist.trans List.filter_sublist).map objectKey)
  have same : (ownedReplicaSets d uid replicaSets).map objectKey =
      (ownedReplicaSets d uid replicaSets).map fun rs => nameKey (nsOf d) rs.name :=
    List.map_congr_left fun rs own => objectKey_of_belongs (mem_ownedReplicaSets.mp own).2
  rw [← same]
  exact keys

section

variable (sound : Sound d uid spec s)
include sound

/-- What the cache says of a ReplicaSet, but for its status, is what the API server has. -/
theorem Sound.same {Other : Type} {f : ReplicaSet -> Other}
    (ignores : forall rs, f (withoutStatus rs) = f rs) :
    (ownedReplicaSets d uid s.rsCache).map f = (ownedReplicaSets d uid s.replicaSets).map f := by
  have mapped := congrArg (List.map f) sound.seen
  simp only [List.map_map, Function.comp_def, ignores] at mapped
  exact mapped

theorem Sound.served (own : rs ∈ ownedReplicaSets d uid s.rsCache) :
    Exists fun stored => stored ∈ ownedReplicaSets d uid s.replicaSets ∧ stored.name = rs.name ∧
      rsReplicas stored = rsReplicas rs := by
  have member := List.mem_map_of_mem (f := withoutStatus) own
  rw [sound.seen] at member
  rcases List.mem_map.mp member with ⟨stored, listed, equal⟩
  have sameName : (withoutStatus stored).name = (withoutStatus rs).name := congrArg _ equal
  have sameCount : rsReplicas (withoutStatus stored) = rsReplicas (withoutStatus rs) := congrArg _ equal
  exact ⟨stored, listed, sameName, sameCount⟩

theorem Sound.counts (filed : Keys objectKey s.replicaSets)
    (own : rs ∈ ownedReplicaSets d uid s.rsCache) :
    amountAt (asked d uid) s.replicaSets (nameKey (nsOf d) rs.name) = rsReplicas rs := by
  rcases sound.served own with ⟨stored, listed, sameName, sameCount⟩
  rw [← sameName]
  unfold amountAt
  rw [get_of_owned filed listed, Option.elim_some]
  unfold asked
  rw [if_pos (mem_ownedReplicaSets.mp listed).2]
  exact sameCount

theorem Sound.covers (filed : Keys objectKey s.replicaSets) {key : String}
    (nonzero : amountAt (asked d uid) s.replicaSets key ≠ 0) :
    key ∈ (ownedReplicaSets d uid s.rsCache).map fun rs => nameKey (nsOf d) rs.name := by
  rw [sound.same (f := fun rs => nameKey (nsOf d) rs.name) fun _ => rfl]
  rcases owned_of_asked filed nonzero with ⟨rs, own, equal⟩
  exact List.mem_map.mpr ⟨rs, own, equal.symm⟩

theorem Sound.keys_nodup (filed : Keys objectKey s.replicaSets) :
    ((ownedReplicaSets d uid s.rsCache).map fun rs => nameKey (nsOf d) rs.name).Nodup := by
  rw [sound.same (f := fun rs => nameKey (nsOf d) rs.name) fun _ => rfl]
  exact owned_keys_nodup filed

end

/-- The new ReplicaSet and the old ones are the ones of the Deployment. -/
theorem perm_lineup {owned : List ReplicaSet} (distinct : (owned.map fun rs => nameKey (nsOf d) rs.name).Nodup)
    {newRs : ReplicaSet} (member : newRs ∈ owned) : owned.Perm (newRs :: oldReplicaSets owned newRs) := by
  have same : oldReplicaSets owned newRs = owned.erase newRs := by
    rw [distinct.of_map.erase_eq_filter]
    apply List.filter_congr
    intro rs own
    apply Bool.eq_iff_iff.mpr
    rw [bne_iff_ne, bne_iff_ne]
    constructor
    · rintro apart rfl
      exact apart rfl
    · intro apart sameName
      exact apart (List.inj_on_of_nodup_map distinct own member (congrArg (nameKey (nsOf d)) sameName))
  rw [same]
  exact List.perm_cons_erase member

theorem Sound.lineup_found (sound : Sound d uid spec s) (filed : Keys objectKey s.replicaSets) {newRs : ReplicaSet}
    (found : newReplicaSet (specHash spec) (ownedReplicaSets d uid s.rsCache) = some newRs) :
    Lineup d uid s newRs (oldReplicaSets (ownedReplicaSets d uid s.rsCache) newRs) ∧
      Fitting spec newRs (oldReplicaSets (ownedReplicaSets d uid s.rsCache) newRs) := by
  have member := List.mem_of_find?_eq_some found
  have perm := perm_lineup (sound.keys_nodup filed) member
  have available := (perm.map rsAvailable).sum_eq
  have total := (perm.map rsReplicas).sum_eq
  rw [List.map_cons, List.sum_cons] at available total
  have budget := sound.budget
  unfold ofNew at budget
  rw [found, Option.elim_some, Option.elim_some, available] at budget
  refine ⟨⟨fun rs lined => ?_, fun key nonzero => ?_, ?_, fun rs lined => ?_, ?_⟩, ⟨sound.desired, ?_, sound.ceiling, ?_, ?_⟩⟩
  · exact sound.counts filed (perm.mem_iff.mpr lined)
  · exact (perm.map fun rs => nameKey (nsOf d) rs.name).mem_iff.mp (sound.covers filed nonzero)
  · exact (perm.map fun rs => nameKey (nsOf d) rs.name).nodup_iff.mp (sound.keys_nodup filed)
  · exact (sound.natural rs (perm.mem_iff.mpr lined)).1
  · rw [← available]
    exact sound.counted
  · exact (sound.natural newRs member).2
  · rw [add_comm, ← total]
    exact sound.total
  · rw [add_comm (List.sum _)]
    exact budget

theorem Sound.lineup_created (sound : Sound d uid spec s) (filed : Keys objectKey s.replicaSets)
    (missing : newReplicaSet (specHash spec) (ownedReplicaSets d uid s.rsCache) = none) {hash : String}
    (absent : s.replicaSets.get (objectKey (buildNewReplicaSet d uid hash 0)) = none) :
    Lineup d uid s (buildNewReplicaSet d uid hash 0)
        (oldReplicaSets (ownedReplicaSets d uid s.rsCache) (buildNewReplicaSet d uid hash 0)) ∧
      Fitting spec (buildNewReplicaSet d uid hash 0)
        (oldReplicaSets (ownedReplicaSets d uid s.rsCache) (buildNewReplicaSet d uid hash 0)) := by
  have key_eq : objectKey (buildNewReplicaSet d uid hash 0) = nameKey (nsOf d) (buildNewReplicaSet d uid hash 0).name := rfl
  rw [key_eq] at absent
  have apart : forall rs, rs ∈ ownedReplicaSets d uid s.rsCache -> rs.name ≠ (buildNewReplicaSet d uid hash 0).name := by
    intro rs own same
    rcases sound.served own with ⟨stored, listed, sameName, _⟩
    have held := get_of_owned filed listed
    rw [sameName, same, absent] at held
    cases held
  have every : oldReplicaSets (ownedReplicaSets d uid s.rsCache) (buildNewReplicaSet d uid hash 0) =
      ownedReplicaSets d uid s.rsCache :=
    List.filter_eq_self.mpr fun rs own => bne_iff_ne.mpr (apart rs own)
  have budget := sound.budget
  unfold ofNew at budget
  rw [missing, Option.elim_none, Option.elim_none] at budget
  have none_ : rsAvailable (buildNewReplicaSet d uid hash 0) = 0 := rfl
  have zero : rsReplicas (buildNewReplicaSet d uid hash 0) = 0 := rfl
  rw [every]
  refine ⟨⟨fun rs lined => ?_, fun key nonzero => ?_, ?_, fun rs lined => ?_, ?_⟩, ⟨sound.desired, ?_, sound.ceiling, ?_, ?_⟩⟩
  · rcases List.mem_cons.mp lined with new | own
    · rw [new, zero]
      unfold amountAt
      rw [absent]
      rfl
    · exact sound.counts filed own
  · exact .tail _ (sound.covers filed nonzero)
  · refine List.nodup_cons.mpr ⟨fun listed => ?_, sound.keys_nodup filed⟩
    rcases List.mem_map.mp listed with ⟨rs, own, same⟩
    rcases sound.served own with ⟨stored, member, sameName, _⟩
    have held := get_of_owned filed member
    rw [sameName, same, absent] at held
    cases held
  · rcases List.mem_cons.mp lined with new | own
    · rw [new, zero]
    · exact (sound.natural rs own).1
  · rw [none_, zero_add]
    exact sound.counted
  · rw [none_]
    decide
  · rw [zero, add_zero]
    exact sound.total
  · rw [none_, zero, add_zero]
    exact budget

theorem Sound.respects_of_lineup (sound : Sound d uid spec s)
    (rolling : isRecreate spec = false) {newRs : ReplicaSet}
    (lineup : Lineup d uid s newRs (oldReplicaSets (ownedReplicaSets d uid s.rsCache) newRs))
    (fitting : Fitting spec newRs (oldReplicaSets (ownedReplicaSets d uid s.rsCache) newRs))
    (isNew : forall rs, rs ∈ ownedReplicaSets d uid s.rsCache -> rs.name = newRs.name ->
      newReplicaSet (specHash spec) (ownedReplicaSets d uid s.rsCache) = some newRs) {after : Rollout}
    (samePods : after.available = s.available)
    (written : forall key, amountAt (asked d uid) after.replicaSets key = amountAt (asked d uid) s.replicaSets key ∨
      Exists fun write => write ∈ rollout d spec (ownedReplicaSets d uid s.rsCache) newRs ∧
        leaves (nsOf d) write = some (key, amountAt (asked d uid) after.replicaSets key)) :
    Respects d uid spec s after := by
  have exact_ := resolvedBudgets_eq sound.surge sound.unavailable
  have oldNames : forall rs, rs ∈ oldReplicaSets (ownedReplicaSets d uid s.rsCache) newRs -> forall other,
      other ∈ newRs :: oldReplicaSets (ownedReplicaSets d uid s.rsCache) newRs ->
      nameKey (nsOf d) rs.name = nameKey (nsOf d) other.name -> rs = other := fun rs isOld other lined same =>
    List.inj_on_of_nodup_map lineup.distinct (.tail _ isOld) lined same
  have cutOld : forall cut, cut ∈ cuts spec (oldReplicaSets (ownedReplicaSets d uid s.rsCache) newRs) newRs ->
      Exists fun rs => rs ∈ oldReplicaSets (ownedReplicaSets d uid s.rsCache) newRs ∧ rs.name = cut.1 := by
    intro cut member
    have named := scaleDownOld_names member
    rw [List.map_map] at named
    rcases List.mem_map.mp named with ⟨rs, isOld, same⟩
    exact ⟨rs, isOld, same⟩
  have newCount : amountAt (asked d uid) after.replicaSets (nameKey (nsOf d) newRs.name) = rsReplicas newRs ∨
      amountAt (asked d uid) after.replicaSets (nameKey (nsOf d) newRs.name) =
        newTarget spec (oldReplicaSets (ownedReplicaSets d uid s.rsCache) newRs) newRs := by
    have before := lineup.counts newRs (.head _)
    rcases written (nameKey (nsOf d) newRs.name) with same | ⟨write, member, leaving⟩
    · exact Or.inl (same.trans before)
    · rcases rollout_leaves exact_ rolling member leaving with target | cut | deleted
      · exact Or.inr target.2
      · rcases cut with ⟨cut, listed, sameKey, _⟩
        rcases cutOld cut listed with ⟨rs, isOld, name⟩
        rw [← name] at sameKey
        have equal := oldNames rs isOld newRs List.mem_cons_self sameKey.symm
        have differs := (List.mem_filter.mp isOld).2
        rw [equal, bne_self_eq_false] at differs
        cases differs
      · rcases deleted with ⟨rs, isOld, _, sameKey, _⟩
        have equal := oldNames rs isOld newRs List.mem_cons_self sameKey.symm
        have differs := (List.mem_filter.mp isOld).2
        rw [equal, bne_self_eq_false] at differs
        cases differs
  have oldCount : forall rs, rs ∈ oldReplicaSets (ownedReplicaSets d uid s.rsCache) newRs ->
      amountAt (asked d uid) after.replicaSets (nameKey (nsOf d) rs.name) = rsReplicas rs ∨
        (rs.name, amountAt (asked d uid) after.replicaSets (nameKey (nsOf d) rs.name)) ∈
          cuts spec (oldReplicaSets (ownedReplicaSets d uid s.rsCache) newRs) newRs := by
    intro rs isOld
    have before := lineup.counts rs (.tail _ isOld)
    rcases written (nameKey (nsOf d) rs.name) with same | ⟨write, member, leaving⟩
    · exact Or.inl (same.trans before)
    · rcases rollout_leaves exact_ rolling member leaving with target | cut | deleted
      · have equal := oldNames rs isOld newRs List.mem_cons_self target.1
        have differs := (List.mem_filter.mp isOld).2
        rw [equal, bne_self_eq_false] at differs
        cases differs
      · rcases cut with ⟨cut, listed, sameKey, count⟩
        rcases cutOld cut listed with ⟨other, otherOld, name⟩
        rw [← name] at sameKey
        have equal := oldNames rs isOld other (.tail _ otherOld) sameKey
        rw [count, equal, name]
        exact Or.inr listed
      · rcases deleted with ⟨other, otherOld, empty, sameKey, zero⟩
        have equal := oldNames rs isOld other (.tail _ otherOld) sameKey
        rw [zero, equal, empty]
        exact Or.inl rfl
  have covers : forall key, amountAt (asked d uid) after.replicaSets key ≠ 0 ->
      key ∈ (newRs :: oldReplicaSets (ownedReplicaSets d uid s.rsCache) newRs).map fun rs => nameKey (nsOf d) rs.name := by
    intro key nonzero
    rcases written key with same | ⟨write, member, leaving⟩
    · rw [same] at nonzero
      exact lineup.covers key nonzero
    · rcases rollout_leaves exact_ rolling member leaving with target | cut | deleted
      · rw [target.1]
        exact .head _
      · rcases cut with ⟨cut, listed, sameKey, _⟩
        rcases cutOld cut listed with ⟨rs, isOld, name⟩
        rw [sameKey, ← name]
        exact .tail _ (List.mem_map.mpr ⟨rs, isOld, rfl⟩)
      · rcases deleted with ⟨rs, isOld, _, sameKey, _⟩
        rw [sameKey]
        exact .tail _ (List.mem_map.mpr ⟨rs, isOld, rfl⟩)
  have holds := lineup.respects fitting samePods newCount oldCount covers
  refine ⟨holds.1, fun lowers => holds.2 ?_⟩
  rcases lowers with ⟨stored, own, other, lowered⟩
  have member := List.mem_map_of_mem (f := withoutStatus) own
  rw [← sound.seen] at member
  rcases List.mem_map.mp member with ⟨rs, cached, equal⟩
  have sameName : (withoutStatus rs).name = (withoutStatus stored).name := congrArg _ equal
  have sameCount : rsReplicas (withoutStatus rs) = rsReplicas (withoutStatus stored) := congrArg _ equal
  have key_eq : objectKey stored = nameKey (nsOf d) rs.name := by
    rw [objectKey_of_belongs (mem_ownedReplicaSets.mp own).2]
    exact congrArg (nameKey (nsOf d)) sameName.symm
  refine ⟨rs, List.mem_filter.mpr ⟨cached, bne_iff_ne.mpr fun same => ?_⟩, ?_⟩
  · -- A ReplicaSet with the name of the new one is the new one.
    have found := isNew rs cached same
    have servedNew : Exists fun newStored => newReplicaSet (specHash spec) (ownedReplicaSets d uid s.replicaSets) =
        some newStored ∧ newStored.name = newRs.name := by
      have mapped : (newReplicaSet (specHash spec) (ownedReplicaSets d uid s.rsCache)).map withoutStatus =
          (newReplicaSet (specHash spec) (ownedReplicaSets d uid s.replicaSets)).map withoutStatus := by
        have finds : forall owned : List ReplicaSet, (newReplicaSet (specHash spec) owned).map withoutStatus =
            (owned.map withoutStatus).find? fun rs => rs.podTemplateHash == some (specHash spec) := by
          intro owned
          rw [List.find?_map]
          rfl
        rw [finds, finds, sound.seen]
      rw [found, Option.map_some] at mapped
      rcases Option.map_eq_some_iff.mp mapped.symm with ⟨newStored, isNewStored, equalNew⟩
      have newName : (withoutStatus newStored).name = (withoutStatus newRs).name := congrArg _ equalNew
      exact ⟨newStored, isNewStored, newName⟩
    rcases servedNew with ⟨newStored, isNewStored, newName⟩
    exact other newStored isNewStored ((sameName.symm.trans same).trans newName.symm)
  · rw [← key_eq]
    exact lowered.trans_eq sameCount.symm

theorem asked_of_created {ns : String} (empty : rsReplicas rs = 0) (outcomes : List Outcome) (key : String) :
    amountAt (asked d uid) (performAll ns replicaSets [.create rs] outcomes) key =
      amountAt (asked d uid) replicaSets key := by
  cases outcomes with
  | nil => rfl
  | cons outcome rest =>
    simp only [performAll, perform]
    split
    · split
      · rfl
      · next absent =>
          rw [amountAt_insert]
          split
          · next same =>
              unfold asked amountAt
              rw [empty, ite_self, same, absent]
              rfl
          · rfl
    · rfl

theorem totalAsked_of_same (filed : Keys objectKey s.replicaSets) {after : Rollout}
    (same : forall key, amountAt (asked d uid) after.replicaSets key = amountAt (asked d uid) s.replicaSets key) :
    totalAsked d uid after = totalAsked d uid s := by
  have covers : forall key, amountAt (asked d uid) s.replicaSets key ≠ 0 ->
      key ∈ (ownedReplicaSets d uid s.replicaSets).map fun rs => nameKey (nsOf d) rs.name := by
    intro key nonzero
    rcases owned_of_asked filed nonzero with ⟨rs, own, equal⟩
    exact List.mem_map.mpr ⟨rs, own, equal.symm⟩
  have coversAfter : forall key, amountAt (asked d uid) after.replicaSets key ≠ 0 ->
      key ∈ (ownedReplicaSets d uid s.replicaSets).map fun rs => nameKey (nsOf d) rs.name := by
    intro key nonzero
    rw [same key] at nonzero
    exact covers key nonzero
  unfold totalAsked
  rw [tally_eq_sum (owned_keys_nodup filed) covers, tally_eq_sum (owned_keys_nodup filed) coversAfter,
    List.map_congr_left fun key _ => same key]

/-- Nothing changes for a pass whose writes leave the counts as they are. -/
theorem respects_of_same (filed : Keys objectKey s.replicaSets) {after : Rollout}
    (same : forall key, amountAt (asked d uid) after.replicaSets key = amountAt (asked d uid) s.replicaSets key) :
    Respects d uid spec s after := by
  constructor
  · exact le_max_of_le_left (Int.le_of_eq (totalAsked_of_same filed same))
  · rintro ⟨rs, own, _, lowered⟩
    have held := get_of_owned filed own
    have belonging := (mem_ownedReplicaSets.mp own).2
    rw [same, objectKey_of_belongs belonging] at lowered
    unfold amountAt at lowered
    rw [held, Option.elim_some] at lowered
    unfold asked at lowered
    rw [if_pos belonging] at lowered
    exact absurd lowered (Int.lt_irrefl _)

theorem respects_pass (isUid : d.uid = some uid) (isSpec : d.spec = some spec) (rolling : isRecreate spec = false)
    (filed : Keys objectKey s.replicaSets) (sound : Sound d uid spec s) (authority : Authority) (outcomes : List Outcome) :
    Respects d uid spec s (s.step d (.pass authority outcomes)) := by
  have written := @performAll_asked d uid (nsOf d) s.replicaSets (s.decision d authority outcomes).writes outcomes
  have nothing : (s.decision d authority outcomes).writes = [] -> Respects d uid spec s (s.step d (.pass authority outcomes)) := by
    intro none_
    apply respects_of_same filed
    intro key
    simp only [Rollout.step, none_, performAll]
  by_cases deleting : d.deletionTimestamp.isSome = true
  · exact nothing (by simp only [Rollout.decision, reconcileDeployment, deleting, if_true])
  by_cases paused : spec.paused = some true
  · exact nothing (by simp only [Rollout.decision, reconcileDeployment, isUid, isSpec, paused, if_true, ite_self])
  cases found : newReplicaSet (specHash spec) (ownedReplicaSets d uid s.rsCache) with
  | some newRs =>
    have writes : (s.decision d authority outcomes).writes = rollout d spec (ownedReplicaSets d uid s.rsCache) newRs := by
      unfold specHash at found
      simp only [Rollout.decision, reconcileDeployment, if_neg deleting, isUid, isSpec, if_neg paused, found]
    rw [writes] at written
    have lined := sound.lineup_found filed found
    exact sound.respects_of_lineup rolling lined.1 lined.2 (fun rs _ _ => found) rfl (by
      simp only [Rollout.step, writes]
      exact written)
  | none =>
    cases authority with
    | changed | failed =>
      unfold specHash at found
      exact nothing (by
        simp only [Rollout.decision, reconcileDeployment, if_neg deleting, isUid, isSpec, if_neg paused, found])
    | same =>
      cases reply : createReply s.replicaSets (outcomes.headD .failed) (buildNewReplicaSet d uid (specHash spec) 0) with
      | created newRs =>
        have isNew : newRs = buildNewReplicaSet d uid (specHash spec) 0 ∧
            s.replicaSets.get (objectKey (buildNewReplicaSet d uid (specHash spec) 0)) = none := by
          unfold createReply at reply
          split at reply
          · split at reply
            · cases reply
            · next absent =>
                cases reply
                exact ⟨rfl, absent⟩
          · cases reply
        have writes : (s.decision d .same outcomes).writes = .create (buildNewReplicaSet d uid (specHash spec) 0) ::
            rollout d spec (ownedReplicaSets d uid s.rsCache) newRs := by
          unfold specHash at found reply ⊢
          simp only [Rollout.decision, reconcileDeployment, if_neg deleting, isUid, isSpec, if_neg paused, found, reply]
        rw [isNew.1] at writes
        rw [writes] at written
        have lined := sound.lineup_created filed found isNew.2
        refine sound.respects_of_lineup rolling lined.1 lined.2 (fun rs own name => ?_) rfl ?_
        · -- The name of the new ReplicaSet was free.
          rcases sound.served own with ⟨stored, listed, sameName, _⟩
          have held := get_of_owned filed listed
          have free : s.replicaSets.get (nameKey (nsOf d) (buildNewReplicaSet d uid (specHash spec) 0).name) = none :=
            isNew.2
          rw [sameName, name, free] at held
          cases held
        · simp only [Rollout.step, writes]
          intro key
          rcases written key with same | ⟨write, member, leaving⟩
          · exact Or.inl same
          · rcases List.mem_cons.mp member with creation | later
            · left
              rw [creation] at leaving
              injection leaving with pair
              injection pair with sameKey count
              refine count.symm.trans ?_
              rw [← sameKey]
              unfold amountAt
              rw [isNew.2]
              rfl
            · exact Or.inr ⟨write, later, leaving⟩
      | alreadyExists | failed =>
        have writes : (s.decision d .same outcomes).writes = [.create (buildNewReplicaSet d uid (specHash spec) 0)] := by
          unfold specHash at found reply ⊢
          simp only [Rollout.decision, reconcileDeployment, if_neg deleting, isUid, isSpec, if_neg paused, found, reply]
        exact respects_of_same filed (by
          simp only [Rollout.step, writes]
          exact asked_of_created rfl outcomes)

end

/-! ## Runs -/

/-- A pass is taken on sound counts. -/
def SoundPass (d : Deployment) (uid : String) (spec : DeploymentSpec) (s : Rollout) : Rollout.Step -> Prop
  | .pass _ _ => Sound d uid spec s
  | _ => True

/-- A pass respects its budgets. -/
def RespectfulPass (d : Deployment) (uid : String) (spec : DeploymentSpec) (s : Rollout) : Rollout.Step -> Prop
  | .pass authority outcomes => Respects d uid spec s (s.step d (.pass authority outcomes))
  | _ => True

section
variable {d : Deployment} {uid : String} {spec : DeploymentSpec} {s : Rollout}

theorem Keys.insert {replicaSets : SortedMap String ReplicaSet} (filed : Keys objectKey replicaSets) {key : String}
    {rs : ReplicaSet} (own : key = objectKey rs) : Keys objectKey (replicaSets.insert key rs) := by
  rw [own]
  exact filed.mirror (.apply rs)

theorem Keys.perform {replicaSets : SortedMap String ReplicaSet} (filed : Keys objectKey replicaSets) (ns : String)
    (write : Write) : Keys objectKey (perform ns replicaSets write) := by
  cases write with
  | create rs =>
    simp only [Controllers.perform]
    split
    · exact filed
    · exact Keys.insert filed rfl
  | scale name replicas =>
    simp only [Controllers.perform]
    split
    · next rs held => exact Keys.insert filed (filed _ (SortedMap.mem_entries.mpr held))
    · exact filed
  | delete name => exact fun entry listed => filed entry (List.mem_filter.mp listed).1
  | status status => exact filed

theorem Keys.performAll {replicaSets : SortedMap String ReplicaSet} (filed : Keys objectKey replicaSets) (ns : String)
    (writes : List Write) (outcomes : List Outcome) : Keys objectKey (performAll ns replicaSets writes outcomes) := by
  induction writes generalizing replicaSets outcomes with
  | nil => exact filed
  | cons write rest ih =>
    cases outcomes with
    | nil => exact filed
    | cons outcome outcomes =>
      apply ih
      split
      · exact Keys.perform filed ns write
      · exact filed

theorem filed_step (filed : Keys objectKey s.replicaSets) (taken : Rollout.Step) :
    Keys objectKey (s.step d taken).replicaSets := by
  cases taken with
  | pass authority outcomes => exact Keys.performAll filed _ _ _
  | report key status =>
    simp only [Rollout.step]
    split
    · next rs held => exact Keys.insert filed (filed _ (SortedMap.mem_entries.mpr held))
    · exact filed
  | pods key available => exact filed
  | informer event => exact filed

theorem totalAsked_report (filed : Keys objectKey s.replicaSets) (key : String) (status : ReplicaSetStatus) :
    totalAsked d uid (s.step d (.report key status)) = totalAsked d uid s := by
  apply totalAsked_of_same filed
  intro other
  simp only [Rollout.step]
  split
  · next rs held =>
      rw [amountAt_insert]
      split
      · next equal =>
          unfold amountAt
          rw [equal, held]
          rfl
      · rfl
  · rfl

theorem totalAsked_step (isUid : d.uid = some uid) (isSpec : d.spec = some spec) (rolling : isRecreate spec = false)
    (filed : Keys objectKey s.replicaSets) {taken : Rollout.Step} (sound : SoundPass d uid spec s taken) :
    totalAsked d uid (s.step d taken) ≤ max (totalAsked d uid s) (desiredReplicas spec + (budgets spec).1) := by
  cases taken with
  | pass authority outcomes => exact (respects_pass isUid isSpec rolling filed sound authority outcomes).1
  | report key status => exact le_max_of_le_left (Int.le_of_eq (totalAsked_report filed key status))
  | pods key available | informer event => exact le_max_left _ _

/-- A rolling update respects its budgets in every run whose passes are taken
on sound counts: no state asks for more than the first one did or the surge
allows, and no pass cuts an old ReplicaSet below what must stay available. -/
theorem rollingUpdate_respects (d : Deployment) (uid : String) (spec : DeploymentSpec) (isUid : d.uid = some uid)
    (isSpec : d.spec = some spec) (rolling : isRecreate spec = false) (s : Rollout) (filed : Keys objectKey s.replicaSets)
    (steps : List Rollout.Step) (sound : EveryStep (Rollout.step d) (SoundPass d uid spec) s steps) :
    AlongRun (Rollout.step d)
        (fun later => totalAsked d uid later ≤ max (totalAsked d uid s) (desiredReplicas spec + (budgets spec).1)) s steps ∧
      EveryStep (Rollout.step d) (RespectfulPass d uid spec) s steps := by
  have keeps : forall (later : Rollout) (taken : Rollout.Step),
      (Keys objectKey later.replicaSets ∧
        totalAsked d uid later ≤ max (totalAsked d uid s) (desiredReplicas spec + (budgets spec).1)) ->
      SoundPass d uid spec later taken ->
      Keys objectKey (later.step d taken).replicaSets ∧
        totalAsked d uid (later.step d taken) ≤ max (totalAsked d uid s) (desiredReplicas spec + (budgets spec).1) := by
    intro later taken holds good
    refine ⟨filed_step holds.1 taken, ?_⟩
    have bound := totalAsked_step isUid isSpec rolling holds.1 good
    exact bound.trans (max_le holds.2 (le_max_right _ _))
  have each : forall (later : Rollout) (taken : Rollout.Step),
      (Keys objectKey later.replicaSets ∧
        totalAsked d uid later ≤ max (totalAsked d uid s) (desiredReplicas spec + (budgets spec).1)) ->
      SoundPass d uid spec later taken -> RespectfulPass d uid spec later taken := by
    intro later taken holds good
    cases taken with
    | pass authority outcomes => exact respects_pass isUid isSpec rolling holds.1 good authority outcomes
    | report key status => exact True.intro
    | pods key available => exact True.intro
    | informer event => exact True.intro
  have initial : Keys objectKey s.replicaSets ∧
      totalAsked d uid s ≤ max (totalAsked d uid s) (desiredReplicas spec + (budgets spec).1) := ⟨filed, le_max_left _ _⟩
  exact ⟨(AlongRun.of_invariant keeps initial sound).mono fun _ holds => holds.2,
    EveryStep.of_invariant keeps each initial sound⟩

end

private def webSpec : DeploymentSpec :=
  ⟨none, some 3, [], some ⟨some "RollingUpdate", some ⟨some (.int 0), some (.int 1)⟩⟩, none⟩

private def web : Deployment :=
  ⟨some "default", "web", some "u", none, none, some webSpec, none⟩

private def webReplicaSet (name hash : String) (created replicas : Int) (available : Option Int) : ReplicaSet :=
  ⟨some "default", name, some created, [⟨"u", some true⟩], some hash, some replicas,
    available.map fun n => ⟨n, some n, some n⟩⟩

private def webNewName : String :=
  "web-" ++ specHash webSpec

/-- Three Pods of the old template are available, and none is asked of the new one. -/
private def webStart : Rollout :=
  let held := SortedMap.empty.insert "default/web-old" (webReplicaSet "web-old" "old" 0 3 (some 3)) |>.insert
    ("default/" ++ webNewName) (webReplicaSet webNewName (specHash webSpec) 1 0 none)
  ⟨held, fun key => if key = "default/web-old" then 3 else 0, held⟩

theorem rollingUpdate_respects_web :
    AlongRun (Rollout.step web) (fun later => totalAsked web "u" later ≤ max (totalAsked web "u" webStart)
        (desiredReplicas webSpec + (budgets webSpec).1)) webStart [.pass .same [.done]] ∧
      EveryStep (Rollout.step web) (RespectfulPass web "u" webSpec) webStart [.pass .same [.done]] :=
  rollingUpdate_respects web "u" webSpec rfl rfl rfl webStart (by unfold Keys; decide +kernel) [.pass .same [.done]]
    ⟨⟨by decide +kernel, by decide +kernel, by decide +kernel, by decide +kernel, by decide +kernel, by decide +kernel,
      by decide +kernel, by decide +kernel, by decide +kernel⟩, True.intro⟩

/-- The old ReplicaSet is cut to two, the new one grows to one Pod that
becomes available, and the status of the old one still counts the Pod that is
gone. -/
private def laggingStatus : List Rollout.Step :=
  [.pass .same [.done], .pods "default/web-old" 2, .informer (.apply (webReplicaSet "web-old" "old" 0 2 (some 3))),
    .pass .same [.done], .pods ("default/" ++ webNewName) 1, .report ("default/" ++ webNewName) ⟨1, some 1, some 1⟩,
    .informer (.apply (webReplicaSet webNewName (specHash webSpec) 1 1 (some 1)))]

theorem not_respects_laggingStatus :
    ¬ EveryStep (Rollout.step web) (RespectfulPass web "u" webSpec) webStart (laggingStatus ++ [.pass .same [.done]]) := by
  intro every
  have last := (everyStep_append.mp every).2.1
  have lowered : LowersOld web "u" webSpec (run (Rollout.step web) webStart laggingStatus)
      ((run (Rollout.step web) webStart laggingStatus).step web (.pass .same [.done])) :=
    ⟨webReplicaSet "web-old" "old" 0 2 (some 3), by decide +kernel, by decide +kernel, by decide +kernel⟩
  have staying := last.2 lowered
  revert staying
  decide +kernel

end NotK8s.Controllers

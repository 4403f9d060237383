import NotK8s.Apiserver.LimitRanger
import NotK8s.Scheduler.Resources

namespace NotK8s.Scheduler

open Library Api

/-!
# The requests of a pod, in the scheduler

What the scheduler reserves for a pod.  While a resize is under way it takes
the largest of what is desired, applied and allocated, and it adds the pod's
overhead in the end.
-/

def resizeInfeasible (pod : Pod) : Bool :=
  match pod.status with
  | none => false
  | some status => status.conditions.any fun condition =>
    condition.type = "PodResizePending" && condition.reason = some "Infeasible"

/-- The last status under each name. -/
def statuses (pod : Pod) : SortedMap String ContainerStatus :=
  match pod.status with
  | none => .empty
  | some status =>
    .ofList ((status.containerStatuses ++ status.initContainerStatuses).map fun held => (held.name, held))

def quantities (list : Option (SortedMap String String)) : Resources :=
  match list with
  | none => .zero
  | some list => .fromQuantities list

/-- What is applied to a running container. -/
def ContainerStatus.actual (status : ContainerStatus) : Resources :=
  quantities (status.resources.bind fun resources => resources.requests)

def effective (pod : Pod) (container : Container) (useStatus : Bool) : Resources :=
  let desired := quantities container.requests
  if !useStatus then desired
  else
    match (statuses pod).get container.name with
    | none => desired
    | some status =>
      if status.resources.isNone then desired
      else
        let result := if resizeInfeasible pod then ContainerStatus.actual status else desired
        (result.maxWith (ContainerStatus.actual status)).maxWith (quantities status.allocatedResources)

/-- What the walk over the init containers carries. -/
structure InitSums where
  sum : Resources
  restartableInitSum : Resources
  initMax : Resources

def InitSums.next (pod : Pod) (t : InitSums) (container : Container) : InitSums :=
  let r := effective pod container container.isSidecar
  if container.isSidecar then
    let restartable := t.restartableInitSum.add r
    { sum := t.sum.add r
      restartableInitSum := restartable
      initMax := t.initMax.maxWith restartable }
  else { t with initMax := t.initMax.maxWith (r.add t.restartableInitSum) }

def podRequests (pod : Pod) : Resources :=
  match pod.spec with
  | none => .zero
  | some spec =>
    let sum := spec.containers.foldl (fun sum container => Resources.add sum (effective pod container true)) .zero
    let done := spec.initContainers.foldl (InitSums.next pod) ⟨sum, .zero, .zero⟩
    let peak := done.sum.maxWith done.initMax
    match spec.overhead with
    | none => peak
    | some overhead => peak.add (.fromQuantities overhead)

open Library Api Apiserver

/-!
# Admission and scheduler count the same

Both components walk the containers of a pod with a running sidecar total and
a maximum.  Here the walk is done once, for one resource and in whole units,
and each component's result is that number: admission's in thousandths, the
scheduler's in its own units and with the overhead added.
-/

/-- What one resource comes to while the init containers are walked. -/
structure Tally where
  total : Nat
  running : Nat
  peak : Nat

/-- A sidecar runs on, an ordinary init container runs beside the sidecars
before it. -/
def Tally.next (t : Tally) (sidecar : Bool) (own : Nat) : Tally :=
  if sidecar then ⟨t.total + own, t.running + own, max t.peak (t.running + own)⟩
  else { t with peak := max t.peak (own + t.running) }

theorem Tally.next_le {t : Tally} {sidecar : Bool} {own n : Nat} (total : t.total ≤ n) (running : t.running ≤ n)
    (peak : t.peak ≤ n) : (t.next sidecar own).total ≤ n + own ∧ (t.next sidecar own).running ≤ n + own ∧
      (t.next sidecar own).peak ≤ n + own := by
  unfold Tally.next
  split_ifs
  · exact ⟨by dsimp only; omega, by dsimp only; omega, by dsimp only; omega⟩
  · exact ⟨by dsimp only; omega, by dsimp only; omega, by dsimp only; omega⟩

/-- The need of a pod for one resource: the containers together, and the init
containers with the amount of each. -/
def need (containers : List Nat) (inits : List (Bool × Nat)) : Nat :=
  let t := inits.foldl (fun (t : Tally) (init : Bool × Nat) => t.next init.1 init.2) ⟨containers.sum, 0, 0⟩
  max t.total t.peak

/-- How many of the scheduler's units one whole unit is. -/
def perUnit (name : String) : Int :=
  if name = "cpu" then 1000 else 1

/-- Both components read the text as the same whole number of units. -/
structure Whole (name text : String) (n : Nat) : Prop where
  admission : Quantity.parse text = .ok ⟨1000 * n⟩
  scheduler : (Resources.readQuantity name text).val = perUnit name * n
  fits : Quantity.Fits (1000 * n)

/-- A plain decimal number whose thousandths a double still counts is a whole
number of units. -/
theorem Whole.of_digits {name text : String} (plain : text.toList.all Char.isDigit = true) (some_digit : text.toList ≠ [])
    (small : 1000 * Text.decimal text.toList < 2 ^ 53) : Whole name text (Text.decimal text.toList) := by
  have fits : Quantity.Fits (1000 * (Text.decimal text.toList : Int)) := by
    unfold Quantity.Fits
    omega
  have read := parseQuantityF64_digits plain some_digit (by omega)
  refine ⟨Quantity.parse_digits plain some_digit fits, ?_, fits⟩
  unfold Resources.readQuantity perUnit
  split_ifs
  · exact parseQuantityMilli_exact read (by rw [abs_of_nonneg (by omega)]; omega)
  · rw [parseQuantity_exact read (by rw [abs_of_nonneg (by omega)]; omega), Int.one_mul]

/-- The whole units that a list asks of one resource. -/
def units (list : Option (SortedMap String String)) (name : String) : Nat :=
  match list.bind fun list => list.get name with
  | none => 0
  | some text =>
    match Quantity.parse text with
    | .ok q => (q.milli / 1000).toNat
    | .error _ => 0

/-- Every quantity of the list is a whole number of units. -/
def WholeList (list : Option (SortedMap String String)) : Prop :=
  forall held name text, list = some held -> held.get name = some text -> Exists fun n => Whole name text n

/-- What a map holds for one resource, in thousandths. -/
def milliOf (m : ResourceMap) (name : String) : Int :=
  match m.get name with
  | none => 0
  | some q => q.milli

/-- The map holds this many whole units, up to the end of its range. -/
def Holds (m : ResourceMap) (name : String) (n : Nat) : Prop :=
  milliOf m name = min (1000 * (n : Int)) (2 ^ 127 - 1)

/-- The vector holds this many whole units, up to the end of its range. -/
def Reserves (r : Resources) (name : String) (n : Nat) : Prop :=
  (r.get name).val = min (perUnit name * (n : Int)) (2 ^ 63 - 1)

section
variable {name text : String} {n k : Nat} {list : Option (SortedMap String String)}

theorem perUnit_cases : perUnit name = 1000 ∨ perUnit name = 1 := by
  unfold perUnit
  split_ifs
  · exact Or.inl rfl
  · exact Or.inr rfl

theorem Whole.units (whole : Whole name text n) {held : SortedMap String String} (found : held.get name = some text) :
    Scheduler.units (some held) name = n := by
  unfold Scheduler.units
  dsimp only [Option.bind_some]
  rw [found]
  dsimp only
  rw [whole.admission]
  dsimp only
  omega

end

/-! ## Admission -/

section
variable {m other : ResourceMap} {name : String} {n k : Nat}

theorem Holds.empty : Holds .empty name 0 := rfl

private theorem milliOf_fold {op : Option Quantity -> Quantity -> Quantity}
    (holds : Holds m name n) (own : Holds other name k) {result : Nat}
    (absent : k = 0 -> result = n)
    (fresh : forall q, n = 0 -> q.milli = min (1000 * (k : Int)) (2 ^ 127 - 1) ->
      (op none q).milli = min (1000 * (result : Int)) (2 ^ 127 - 1))
    (both : forall held q, held.milli = min (1000 * (n : Int)) (2 ^ 127 - 1) -> q.milli = min (1000 * (k : Int)) (2 ^ 127 - 1) ->
      (op (some held) q).milli = min (1000 * (result : Int)) (2 ^ 127 - 1)) :
    Holds (SortedMap.fold op m other) name result := by
  unfold Holds milliOf at *
  rw [SortedMap.get_fold]
  cases found : other.get name with
  | none =>
    rw [found] at own
    dsimp only at own ⊢
    rw [absent (by omega)]
    exact holds
  | some q =>
    rw [found] at own
    cases held : m.get name with
    | none =>
      rw [held] at holds
      dsimp only at holds
      exact fresh q (by omega) own
    | some stored =>
      rw [held] at holds
      exact both stored q holds own

theorem Holds.addMap (holds : Holds m name n) (own : Holds other name k) : Holds (m.addMap other) name (n + k) := by
  apply milliOf_fold holds own
  · intro zero
    omega
  · intro q none held
    rw [held, none, Nat.zero_add]
  · intro stored q first second
    unfold Quantity.add
    dsimp only
    omega

theorem Holds.maxMap (holds : Holds m name n) (own : Holds other name k) : Holds (m.maxMap other) name (max n k) := by
  apply milliOf_fold holds own
  · intro zero
    omega
  · intro q none held
    rw [held, none, Nat.zero_max]
  · intro stored q first second
    rw [Quantity.milli_max]
    omega

theorem get_addFromValue {held : SortedMap String String} : (m.addFromValue (some held)).get name =
    match held.get name with
    | none => m.get name
    | some text =>
      match Quantity.parse text with
      | .ok q => some (match m.get name with | some held => held.add q | none => q)
      | .error _ => m.get name := by
  have walked := @SortedMap.observe_walk String String _ held name _ _
      (fun acc entry =>
        match Quantity.parse entry.2 with
        | .ok q => acc.insert entry.1 (match acc.get entry.1 with | some held => held.add q | none => q)
        | .error _ => acc)
      (fun acc : ResourceMap => acc.get name)
      (fun stored text =>
        match Quantity.parse text with
        | .ok q => some (match stored with | some held => held.add q | none => q)
        | .error _ => stored)
      m (by
        intro acc entry
        cases Quantity.parse entry.2 with
        | error e =>
          split_ifs <;> rfl
        | ok q =>
          rw [SortedMap.get_insert]
          split_ifs with same
          · rw [same]
          · rfl)
  cases found : held.get name <;> rw [found] at walked <;> exact walked

theorem Holds.addFromValue (holds : Holds m name n) {list : Option (SortedMap String String)}
    (whole : WholeList list) : Holds (m.addFromValue list) name (n + units list name) := by
  cases list with
  | none => exact holds
  | some held =>
    have walked := @get_addFromValue m name held
    unfold Holds milliOf at *
    cases found : held.get name with
    | none =>
      have zero : units (some held) name = 0 := by
        unfold units
        dsimp only [Option.bind_some]
        rw [found]
      rw [found] at walked
      rw [show (m.addFromValue (some held)).get name = m.get name from walked, zero]
      exact holds
    | some text =>
      rcases whole held name text rfl found with ⟨k, here⟩
      rw [found] at walked
      dsimp only at walked
      rw [here.admission] at walked
      rw [show (m.addFromValue (some held)).get name = _ from walked, here.units found]
      rcases here.fits with ⟨_, upper⟩
      cases stored : m.get name with
      | none =>
        rw [stored] at holds
        dsimp only at holds ⊢
        omega
      | some q =>
        rw [stored] at holds
        dsimp only at holds ⊢
        unfold Quantity.add
        dsimp only
        omega

end

/-- The tally of the init containers, on admission's side. -/
structure InitTotals.Tallies (totals : InitTotals) (name : String) (t : Tally) : Prop where
  total : Holds totals.total name t.total
  running : Holds totals.restartableInitTotal name t.running
  peak : Holds totals.initTotal name t.peak

theorem InitTotals.Tallies.next {totals : InitTotals} {name : String} {t : Tally} (tallies : Tallies totals name t)
    {container : Container} (whole : WholeList container.requests) :
    Tallies (totals.next ResourceRequirements.requests container) name
      (t.next container.isSidecar (units container.requests name)) := by
  have own := (@Holds.empty name).addFromValue whole
  rw [Nat.zero_add] at own
  unfold InitTotals.next Tally.next
  split_ifs
  · exact ⟨tallies.total.addMap own, tallies.running.addMap own, tallies.peak.maxMap (tallies.running.addMap own)⟩
  · exact ⟨tallies.total, tallies.running, tallies.peak.maxMap (own.addMap tallies.running)⟩

/-! ## The scheduler -/

section
variable {r other : Resources} {name : String} {n k : Nat}

theorem Reserves.zero : Reserves .zero name 0 := by
  unfold Reserves
  rw [Resources.get_zero, I64.val_zero]
  omega

theorem Reserves.add (reserves : Reserves r name n) (own : Reserves other name k) :
    Reserves (r.add other) name (n + k) := by
  unfold Reserves at *
  rw [Resources.get_add]
  change max (-2 ^ 63) (min ((r.get name).val + (other.get name).val) (2 ^ 63 - 1)) = _
  rcases @perUnit_cases name with unit | unit <;> rw [unit] at reserves own ⊢ <;> omega

theorem Reserves.maxWith (reserves : Reserves r name n) (own : Reserves other name k) :
    Reserves (r.maxWith other) name (max n k) := by
  unfold Reserves at *
  rcases @perUnit_cases name with unit | unit
  · rw [unit] at reserves own ⊢
    rw [Resources.val_get_maxWith (by omega)]
    omega
  · rw [unit] at reserves own ⊢
    rw [Resources.val_get_maxWith (by omega)]
    omega

theorem Reserves.quantities {list : Option (SortedMap String String)} (whole : WholeList list) :
    Reserves (quantities list) name (units list name) := by
  cases list with
  | none => exact Reserves.zero
  | some held =>
    unfold Reserves Scheduler.quantities
    rw [Resources.get_fromQuantities]
    cases found : held.get name with
    | none =>
      have zero : units (some held) name = 0 := by
        unfold units
        dsimp only [Option.bind_some]
        rw [found]
      rw [zero]
      rw [I64.val_zero]
      omega
    | some text =>
      rcases whole held name text rfl found with ⟨k, here⟩
      have upper := (Resources.readQuantity name text).upper
      have read := here.scheduler
      rw [here.units found]
      dsimp only
      omega

end

/-- No resize is in progress: kubelet has not declared one infeasible, and
nothing that is applied or allocated exceeds what the spec asks for. -/
structure NoResize (pod : Pod) : Prop where
  feasible : resizeInfeasible pod = false
  covered : forall (container : Container) (status : ContainerStatus) (name : String), (statuses pod).get container.name = some status ->
    status.resources.isSome = true ->
    ((ContainerStatus.actual status).get name).val ≤ ((quantities container.requests).get name).val ∧
    ((quantities status.allocatedResources).get name).val ≤ ((quantities container.requests).get name).val

/-- The tally of the init containers, on the scheduler's side. -/
structure InitSums.Tallies (sums : InitSums) (name : String) (t : Tally) : Prop where
  total : Reserves sums.sum name t.total
  running : Reserves sums.restartableInitSum name t.running
  peak : Reserves sums.initMax name t.peak

section
variable {pod : Pod} {name : String}

theorem Reserves.effective (steady : NoResize pod) {container : Container} {useStatus : Bool}
    (whole : WholeList container.requests) :
    Reserves (effective pod container useStatus) name (units container.requests name) := by
  have desired := @Reserves.quantities name _ whole
  unfold Scheduler.effective
  cases useStatus with
  | false => exact desired
  | true =>
    simp only [Bool.not_true, Bool.false_eq_true, if_false, steady.feasible]
    cases found : (statuses pod).get container.name with
    | none => exact desired
    | some status =>
      dsimp only
      split_ifs with unresized
      · exact desired
      · have covered := steady.covered container status name found (by
          rw [Option.isSome_iff_ne_none]
          exact fun none => unresized (by rw [none]; rfl))
        unfold Reserves at *
        have positive : 0 ≤ ((Scheduler.quantities container.requests).get name).val := by
          rw [desired]
          rcases @perUnit_cases name with unit | unit <;> rw [unit] <;> omega
        have first := @Resources.val_get_maxWith _ (ContainerStatus.actual status) name positive
        rw [max_eq_left covered.1] at first
        rw [Resources.val_get_maxWith (by rw [first]; exact positive), first, max_eq_left covered.2, desired]

theorem InitSums.Tallies.next (steady : NoResize pod) {sums : InitSums} {t : Tally} (tallies : Tallies sums name t)
    {container : Container} (whole : WholeList container.requests) :
    Tallies (sums.next pod container) name (t.next container.isSidecar (units container.requests name)) := by
  have own := fun useStatus => @Reserves.effective pod name steady container useStatus whole
  unfold InitSums.next Tally.next
  split_ifs with sidecar
  · exact ⟨tallies.total.add (own _), tallies.running.add (own _), tallies.peak.maxWith (tallies.running.add (own _))⟩
  · exact ⟨tallies.total, tallies.running, tallies.peak.maxWith ((own _).add tallies.running)⟩

end

/-! ## Agreement -/

/-- What the containers of a pod need of one resource. -/
def podNeed (spec : PodSpec) (name : String) : Nat :=
  need (spec.containers.map fun container => units container.requests name)
    (spec.initContainers.map fun container => (container.isSidecar, units container.requests name))

/-- Everything that a pod asks of one resource, added up. -/
def asked (spec : PodSpec) (name : String) : Nat :=
  (spec.containers.map fun container => units container.requests name).sum +
    (spec.initContainers.map fun container => units container.requests name).sum + units spec.overhead name

theorem podNeed_le (spec : PodSpec) (name : String) : podNeed spec name + units spec.overhead name ≤ asked spec name := by
  have general : forall (inits : List (Bool × Nat)) (t : Tally) (n : Nat), t.total ≤ n -> t.running ≤ n -> t.peak ≤ n ->
      let done := inits.foldl (fun (t : Tally) (init : Bool × Nat) => t.next init.1 init.2) t
      max done.total done.peak ≤ n + (inits.map Prod.snd).sum := by
    intro inits
    induction inits with
    | nil => exact fun t n total _ peak => max_le total peak
    | cons init rest ih =>
      intro t n total running peak
      rw [List.map_cons, List.sum_cons, ← Nat.add_assoc]
      rcases @Tally.next_le t init.1 init.2 n total running peak with ⟨newTotal, newRunning, newPeak⟩
      exact ih _ _ newTotal newRunning newPeak
  have bound := general (spec.initContainers.map fun container =>
    (container.isSidecar, units container.requests name))
    ⟨(spec.containers.map fun container => units container.requests name).sum, 0, 0⟩ _ (le_refl _)
    (Nat.zero_le _) (Nat.zero_le _)
  rw [List.map_map] at bound
  exact Nat.add_le_add_right bound _

structure WholeSpec (spec : PodSpec) : Prop where
  containers : forall container, container ∈ spec.containers -> WholeList container.requests
  initContainers : forall container, container ∈ spec.initContainers -> WholeList container.requests
  overhead : WholeList spec.overhead

section
variable {pod : Pod} {spec : PodSpec} {name : String}

theorem holds_podRequests (given : pod.spec = some spec) (whole : WholeSpec spec) :
    Holds (Apiserver.podRequests pod) name (podNeed spec name) := by
  have sum : Holds (spec.containers.foldl (fun total (container : Container) =>
      ResourceMap.addFromValue total (container.resources.bind ResourceRequirements.requests)) .empty) name
      (spec.containers.map fun container => units container.requests name).sum := by
    rw [List.sum_eq_foldl, List.foldl_map]
    exact List.foldl_rel (r := fun acc n => Holds acc name n) Holds.empty fun container listed _ _ holds =>
      holds.addFromValue (whole.containers container listed)
  have inits : forall (totals : InitTotals) (t : Tally), InitTotals.Tallies totals name t ->
      InitTotals.Tallies (spec.initContainers.foldl (InitTotals.next ResourceRequirements.requests) totals) name
        ((spec.initContainers.map fun container => (container.isSidecar, units container.requests name)).foldl
          (fun (t : Tally) (init : Bool × Nat) => t.next init.1 init.2) t) := by
    intro totals t tallies
    rw [List.foldl_map]
    exact List.foldl_rel (r := fun totals t => InitTotals.Tallies totals name t) tallies
      fun container listed _ _ tallies => tallies.next (whole.initContainers container listed)
  have done := inits ⟨_, .empty, .empty⟩ ⟨_, 0, 0⟩ ⟨sum, Holds.empty, Holds.empty⟩
  unfold Apiserver.podRequests podResourceMap
  rw [given]
  exact done.total.maxMap done.peak

theorem reserves_podRequests (given : pod.spec = some spec) (whole : WholeSpec spec) (steady : NoResize pod) :
    Reserves (podRequests pod) name (podNeed spec name + units spec.overhead name) := by
  have sum : Reserves (spec.containers.foldl (fun sum container => Resources.add sum (effective pod container true))
      .zero) name (spec.containers.map fun container => units container.requests name).sum := by
    rw [List.sum_eq_foldl, List.foldl_map]
    exact List.foldl_rel (r := fun acc n => Reserves acc name n) Reserves.zero fun container listed _ _ reserves =>
      reserves.add (@Reserves.effective pod name steady container true (whole.containers container listed))
  have inits : forall (sums : InitSums) (t : Tally), sums.Tallies name t ->
      (spec.initContainers.foldl (InitSums.next pod) sums).Tallies name
        ((spec.initContainers.map fun container => (container.isSidecar, units container.requests name)).foldl
          (fun (t : Tally) (init : Bool × Nat) => t.next init.1 init.2) t) := by
    intro sums t tallies
    rw [List.foldl_map]
    exact List.foldl_rel (r := fun sums t => InitSums.Tallies sums name t) tallies
      fun container listed _ _ tallies => tallies.next steady (whole.initContainers container listed)
  have done := inits ⟨_, .zero, .zero⟩ ⟨_, 0, 0⟩ ⟨sum, Reserves.zero, Reserves.zero⟩
  have peak := done.total.maxWith done.peak
  have extra := @Reserves.quantities name _ whole.overhead
  unfold podRequests
  rw [given]
  dsimp only
  cases charged : spec.overhead with
  | none => exact peak
  | some list =>
    rw [charged] at extra
    exact peak.add extra

end

/-- The two components take the pod to request the same of one resource. -/
def Agree (pod : Pod) (name : String) : Prop :=
  milliOf (Apiserver.podRequests pod) name * perUnit name = 1000 * ((podRequests pod).get name).val

theorem agree_iff {pod : Pod} {spec : PodSpec} {name : String} (given : pod.spec = some spec) (whole : WholeSpec spec)
    (steady : NoResize pod) (fits : perUnit name * (asked spec name : Int) < 2 ^ 63) :
    Agree pod name <-> units spec.overhead name = 0 := by
  have counted := @holds_podRequests pod spec name given whole
  have reserved := @reserves_podRequests pod spec name given whole steady
  have below := podNeed_le spec name
  unfold Agree
  rw [counted, reserved]
  rcases @perUnit_cases name with unit | unit
  · rw [unit] at fits ⊢
    omega
  · rw [unit] at fits ⊢
    omega

private def oneCore : SortedMap String String :=
  .ofList [("cpu", "1")]

private def coreContainer (restartPolicy : Option String) : Container :=
  { name := "main", restartPolicy := restartPolicy,
    resources := some { requests := some oneCore, limits := none } }

private def coreSpec (overhead : Option (SortedMap String String)) : PodSpec :=
  { containers := [coreContainer none], initContainers := [coreContainer (some "Always"), coreContainer none],
    resources := none, overhead := overhead }

private def corePod (overhead : Option (SortedMap String String)) : Pod :=
  { spec := some (coreSpec overhead), status := none }

private theorem oneCore_get {name text : String} (found : oneCore.get name = some text) : name = "cpu" ∧ text = "1" := by
  have listed := (@SortedMap.get_ofList _ _ _ name text [("cpu", "1")] (by decide)).mp found
  rw [List.mem_singleton, Prod.mk.injEq] at listed
  exact listed

private theorem oneCore_whole : WholeList (some oneCore) := by
  intro held name text same found
  cases same
  rw [(oneCore_get found).2]
  exact ⟨_, Whole.of_digits (by decide) (by decide) (by decide)⟩

private theorem oneCore_units (name : String) : units (some oneCore) name ≤ 1 := by
  unfold units
  dsimp only [Option.bind_some]
  cases found : oneCore.get name with
  | none => exact Nat.zero_le 1
  | some text =>
    rw [(oneCore_get found).2]
    decide

private theorem coreSpec_whole {overhead : Option (SortedMap String String)} (whole : WholeList overhead) :
    WholeSpec (coreSpec overhead) := by
  refine ⟨?_, ?_, whole⟩
  · intro container listed
    rw [List.mem_singleton.mp listed]
    exact oneCore_whole
  · intro container listed
    rcases List.mem_cons.mp listed with first | second
    · rw [first]
      exact oneCore_whole
    · rw [List.mem_singleton.mp second]
      exact oneCore_whole

private theorem corePod_steady (overhead : Option (SortedMap String String)) : NoResize (corePod overhead) :=
  ⟨rfl, nofun⟩

private theorem coreSpec_fits {overhead : Option (SortedMap String String)} {name : String}
    (small : units overhead name ≤ 1) : perUnit name * (asked (coreSpec overhead) name : Int) < 2 ^ 63 := by
  have each := oneCore_units name
  have all : asked (coreSpec overhead) name =
      (units (some oneCore) name + 0) + (units (some oneCore) name + (units (some oneCore) name + 0)) +
        units overhead name := rfl
  rcases @perUnit_cases name with unit | unit <;> rw [unit] <;> omega

end NotK8s.Scheduler

import Mathlib.Data.Finset.Dedup
import NotK8s.Library.Pruning
import NotK8s.Library.Sorting
import NotK8s.Scheduler.Selector

namespace NotK8s.Scheduler
namespace Preemption

open Library
open Controllers (LabelSelector Labels)

/-!
# Preemption

A pod that fits nowhere may have less important pods evicted.  On one node
every pod of lower priority is taken away first; if the preemptor then fits,
they are offered back one at a time, those that a disruption budget protects
first, and those without which it would not fit are the victims.

Times are nanoseconds.  The clock gives each reading by its number.
-/

/-- What preemption reads of a pod. -/
structure PodInfo where
  podNamespace : String
  name : String
  uid : String
  priority : Int
  labels : Labels
  startTime : Option Int
  deriving DecidableEq

def PodInfo.key (pod : PodInfo) : String :=
  pod.podNamespace ++ "/" ++ pod.name

/-- The pods of a node.  Adding a pod replaces one with its uid. -/
structure Node where
  name : String
  pods : List PodInfo
  distinct : (pods.map PodInfo.uid).Nodup

namespace Node

theorem nodup (node : Node) : node.pods.Nodup :=
  node.distinct.of_map PodInfo.uid

end Node

/-! ## The order of the victims -/

/-- A pod that has not started counts as starting now. -/
def podStartTime (now : Int) (pod : PodInfo) : Int :=
  pod.startTime.getD now

/-- Higher priority first, then the longer running.  The two readings of the
clock are the ones this comparison makes, if it makes them. -/
def moreImportant (first second : Int) (a b : PodInfo) : Ordering :=
  (compare b.priority a.priority).then (compare (podStartTime first a) (podStartTime second b))

def sortByImportance (clock : Nat -> Int) (pods : List PodInfo) : List PodInfo :=
  sortBy (fun asked => moreImportant (clock (2 * asked)) (clock (2 * asked + 1))) pods

/-! ## Disruption budgets -/

structure PdbState where
  pdbNamespace : String
  selector : Option LabelSelector
  disruptionsAllowed : Int
  alreadyDisrupted : List String

namespace PdbState

def «matches» (pdb : PdbState) (pod : PodInfo) : Bool :=
  pod.podNamespace = pdb.pdbNamespace && matchesSelector pdb.selector pod.labels

/-- Whether evicting the pod is counted against the budget. -/
def charges (pdb : PdbState) (pod : PodInfo) : Bool :=
  pdb.matches pod && !pdb.alreadyDisrupted.contains pod.name

/-- The budget after the pod has been looked at. -/
def after (pdb : PdbState) (pod : PodInfo) : PdbState :=
  if pdb.charges pod then
    if pdb.disruptionsAllowed ≤ 0 then pdb else { pdb with disruptionsAllowed := pdb.disruptionsAllowed - 1 }
  else pdb

end PdbState

/-- Whether removing the pod would breach a budget, and the budgets after it
has been counted. -/
def violatesPdb (pod : PodInfo) (budgets : List PdbState) : Bool × List PdbState :=
  (budgets.any fun pdb => pdb.charges pod && decide (pdb.disruptionsAllowed ≤ 0),
    budgets.map fun pdb => pdb.after pod)

/-- The pods in turn, with whether each one breaches a budget. -/
def walkBudgets : List PodInfo -> List PdbState -> List (PodInfo × Bool)
  | [], _ => []
  | pod :: rest, budgets => (pod, (violatesPdb pod budgets).1) :: walkBudgets rest (violatesPdb pod budgets).2

/-! ## Victims on one node -/

structure Victims where
  pods : List String
  pdbViolations : Nat
  deriving DecidableEq

/-- The pods as they are offered back, each with whether it breaches a budget:
those that do before those that do not. -/
def offerOrder (potential : List PodInfo) (budgets : List PdbState) : List (PodInfo × Bool) :=
  let walked := walkBudgets potential budgets
  walked.filter (fun offer => offer.2) ++ walked.filter fun offer => !offer.2

/-- Tries to put one pod back.  The state is what is still removed, and the
victims. -/
def putBack (fits : List PodInfo -> Bool) (state : List PodInfo × List (PodInfo × Bool)) (candidate : PodInfo × Bool) :
    List PodInfo × List (PodInfo × Bool) :=
  let trial := state.1.filter fun p => p.uid ≠ candidate.1.uid
  if fits trial then (trial, state.2) else (state.1, state.2 ++ [candidate])

/-- Everything after the sort. -/
def selectAmong (potential : List PodInfo) (budgets : List PdbState) (fits : List PodInfo -> Bool) :
    Option (List (PodInfo × Bool)) :=
  if potential.isEmpty then none
  else if !fits potential then none
  else if ((offerOrder potential budgets).foldl (putBack fits) (potential, [])).2.isEmpty then none
  else some ((offerOrder potential budgets).foldl (putBack fits) (potential, [])).2

def removable (preemptor : PodInfo) (node : Node) : List PodInfo :=
  node.pods.filter fun p => p.priority < preemptor.priority

def selectVictimsOnNode (clock : Nat -> Int) (preemptor : PodInfo) (node : Node) (budgets : List PdbState)
    (fits : List PodInfo -> Bool) : Option Victims :=
  (selectAmong (sortByImportance clock (removable preemptor node)) budgets fits).map fun victims =>
    { pods := victims.map fun victim => victim.1.key
      pdbViolations := victims.countP fun victim => victim.2 }

/-! ## The choice of a node -/

structure Candidate where
  node : String
  victims : Victims
  highestVictimPriority : Int
  sumVictimPriorities : Int
  latestStartOfHighest : Option Int
  deriving DecidableEq

/-- The clock is read once for each victim of the highest priority that has
not started. -/
def Candidate.fromVictims (clock : Nat -> Int) (node : Node) (victims : Victims) : Candidate :=
  let victimPods := node.pods.filter fun pod => victims.pods.contains pod.key
  let highest := (victimPods.map PodInfo.priority).max?.getD 0
  { node := node.name
    victims := victims
    highestVictimPriority := highest
    sumVictimPriorities := (victimPods.map PodInfo.priority).sum
    latestStartOfHighest :=
      (((victimPods.filter fun pod => pod.priority = highest).zipIdx).map fun pod =>
        podStartTime (clock pod.2) pod.1).max? }

/-- Keeps the candidates with the least key. -/
def narrow (key : Candidate -> Int) (set : List Candidate) : List Candidate :=
  if set.length ≤ 1 then set
  else set.filter fun c => key c = (set.map key).min?.getD 0

/-- A time in whole seconds. -/
def asSecond (time : Int) : Int :=
  time.tdiv 1000000000

/-- The tiebreaks in order; each is smallest first. -/
def Candidate.tiebreaks : List (Candidate -> Int) :=
  [fun c => c.victims.pdbViolations,
    fun c => c.highestVictimPriority,
    fun c => c.sumVictimPriorities,
    fun c => c.victims.pods.length,
    fun c => -(c.latestStartOfHighest.map asSecond).getD 0]

def pickOneNode (candidates : List Candidate) : Option Candidate :=
  (Candidate.tiebreaks.foldl (fun set key => narrow key set) candidates).head?

structure PreemptionOutcome where
  nominatedNode : String
  victims : List String
  deriving DecidableEq

/-- The dry runs, one node after the other, and the choice among the nodes on
which victims were found. -/
def preempt (clock later : Nat -> Int) (preemptor : PodInfo) (nodes : List Node) (budgets : List PdbState)
    (fits : Node -> List PodInfo -> Bool) : Option PreemptionOutcome :=
  let found := nodes.filterMap fun node =>
    (selectVictimsOnNode clock preemptor node budgets (fits node)).map (Candidate.fromVictims later node)
  (pickOneNode found).bind fun best =>
    (nodes.find? fun node => node.name = best.node).map fun node =>
      { nominatedNode := best.node
        victims := (node.pods.filter fun p => best.victims.pods.contains p.key).map PodInfo.key }

end Preemption
namespace Preemption

open Library

/-!
# Is the order of the victims an order?

The comparison reads the clock for a pod that has not started, each time it is
asked.  Two pods of one priority of which one has not started have no order:
each may come first.  Candidate nodes are compared by numbers that are read
once.
-/

variable {pods : List PodInfo} {a b c : PodInfo} {first second : Int}

/-! ## Victims -/

/-- The order of the pods, when the clock plays no part. -/
def atLeastAsImportant (a b : PodInfo) : Bool :=
  (moreImportant 0 0 a b).isLE

theorem moreImportant_gt : moreImportant first second a b = .gt <->
    a.priority < b.priority ∨ a.priority = b.priority ∧ podStartTime second b < podStartTime first a := by
  unfold moreImportant
  rw [Ordering.then_eq_gt, compare_gt_iff_gt, compare_eq_iff_eq, compare_gt_iff_gt]
  exact or_congr Iff.rfl (and_congr_left fun _ => eq_comm)

theorem moreImportant_swap : (moreImportant second first b a).swap = moreImportant first second a b := by
  unfold moreImportant
  rw [Ordering.swap_then]
  exact congrArg₂ Ordering.then Std.OrientedOrd.eq_swap.symm Std.OrientedOrd.eq_swap.symm

theorem atLeastAsImportant_iff : atLeastAsImportant a b <->
    b.priority < a.priority ∨ a.priority = b.priority ∧ podStartTime 0 a ≤ podStartTime 0 b := by
  unfold atLeastAsImportant
  rw [Ordering.isLE_iff_ne_gt, moreImportant_gt]
  omega

theorem atLeastAsImportant_trans (one : atLeastAsImportant a b) (two : atLeastAsImportant b c) :
    atLeastAsImportant a c := by
  rw [atLeastAsImportant_iff] at *
  omega

theorem atLeastAsImportant_total : atLeastAsImportant a b || atLeastAsImportant b a := by
  rw [Bool.or_eq_true, atLeastAsImportant_iff, atLeastAsImportant_iff]
  omega

/-- A pair of pods that the clock decides nothing about. -/
def Settled (a b : PodInfo) : Prop :=
  a.priority = b.priority -> a.startTime.isSome ∧ b.startTime.isSome

theorem podStartTime_of_started {now now' : Int} (started : a.startTime.isSome) :
    podStartTime now a = podStartTime now' a := by
  unfold podStartTime
  rcases Option.isSome_iff_exists.mp started with ⟨time, known⟩
  rw [known]
  rfl

theorem moreImportant_of_settled (settled : Settled a b) : moreImportant first second a b = moreImportant 0 0 a b := by
  by_cases same : a.priority = b.priority
  · have ⟨one, two⟩ := settled same
    unfold moreImportant
    rw [@podStartTime_of_started _ _ 0 one, @podStartTime_of_started _ _ 0 two]
  · unfold moreImportant
    have decided : compare b.priority a.priority ≠ .eq := fun equal => same (compare_eq_iff_eq.mp equal).symm
    cases order : compare b.priority a.priority with
    | lt => rfl
    | eq => exact absurd order decided
    | gt => rfl

/-- The comparison of different pods of a list is that of one preorder
whatever the clock shows, and sorting them does not depend on the clock. -/
structure Consistent (pods : List PodInfo) : Prop where
  antisymmetric : forall a b, a ∈ pods -> b ∈ pods -> a ≠ b -> forall t₁ t₂ t₃ t₄,
    moreImportant t₁ t₂ a b = (moreImportant t₃ t₄ b a).swap
  transitive : forall a b c, a ∈ pods -> b ∈ pods -> c ∈ pods -> a ≠ b -> b ≠ c -> a ≠ c ->
    forall t₁ t₂ t₃ t₄ t₅ t₆, (moreImportant t₁ t₂ a b).isLE -> (moreImportant t₃ t₄ b c).isLE ->
      (moreImportant t₅ t₆ a c).isLE
  order : forall clock, sortByImportance clock pods = pods.mergeSort atLeastAsImportant

theorem consistent_of_settled (distinct : pods.Nodup)
    (settled : forall a b, a ∈ pods -> b ∈ pods -> a ≠ b -> Settled a b) : Consistent pods := by
  refine ⟨?_, ?_, ?_⟩
  · intro a b one two different t₁ t₂ t₃ t₄
    rw [moreImportant_swap, moreImportant_of_settled (settled a b one two different),
      @moreImportant_of_settled _ _ t₄ _ (settled a b one two different)]
  · intro a b c one two three ab bc ac t₁ t₂ t₃ t₄ t₅ t₆ below above
    rw [moreImportant_of_settled (settled a b one two ab)] at below
    rw [moreImportant_of_settled (settled b c two three bc)] at above
    rw [moreImportant_of_settled (settled a c one three ac)]
    exact atLeastAsImportant_trans below above
  · intro clock
    refine sortBy_eq_mergeSort (fun _ _ _ => atLeastAsImportant_trans) (fun _ _ => atLeastAsImportant_total) distinct ?_
    intro asked a b one two different
    rw [moreImportant_of_settled (settled a b one two different)]
    exact Ordering.isLE_eq_false.symm

/-- A pod that has not started can be read as starting before another of its
priority, and after it. -/
theorem started_of_antisymmetric (same : a.priority = b.priority)
    (agree : forall t₁ t₂ t₃ t₄, moreImportant t₁ t₂ a b = (moreImportant t₃ t₄ b a).swap) : a.startTime.isSome := by
  cases unknown : a.startTime with
  | some time => rfl
  | none =>
    have here : forall now, podStartTime now a = now := fun now => by rw [podStartTime, unknown, Option.getD_none]
    have late : moreImportant (podStartTime 0 b + 1) 0 a b = .gt :=
      moreImportant_gt.mpr (Or.inr ⟨same, by rw [here]; omega⟩)
    have early : moreImportant 0 (podStartTime 0 b - 1) b a = .gt :=
      moreImportant_gt.mpr (Or.inr ⟨same.symm, by rw [here]; omega⟩)
    have both := agree (podStartTime 0 b + 1) 0 0 (podStartTime 0 b - 1)
    rw [late, early] at both
    exact Ordering.noConfusion both

theorem settled_of_consistent (consistent : Consistent pods) (one : a ∈ pods) (two : b ∈ pods) (different : a ≠ b) :
    Settled a b := by
  intro same
  exact ⟨started_of_antisymmetric same (consistent.antisymmetric a b one two different),
    started_of_antisymmetric same.symm (consistent.antisymmetric b a two one different.symm)⟩

/-! ## Candidate nodes -/

/-- The first tiebreak on which the two differ decides. -/
def preferred (keys : List (Candidate -> Int)) (c d : Candidate) : Bool :=
  match keys with
  | [] => true
  | key :: rest => key c < key d || (key c = key d && preferred rest c d)

variable {keys : List (Candidate -> Int)} {key : Candidate -> Int} {set : List Candidate} {c d e : Candidate}

theorem preferred_cons : preferred (key :: keys) c d <-> key c < key d ∨ key c = key d ∧ preferred keys c d := by
  rw [preferred, Bool.or_eq_true, Bool.and_eq_true, decide_eq_true_iff, decide_eq_true_iff]

theorem preferred_total : preferred keys c d || preferred keys d c := by
  induction keys with
  | nil => rfl
  | cons key keys ih =>
    rw [Bool.or_eq_true] at *
    rw [preferred_cons, preferred_cons]
    rcases lt_trichotomy (key c) (key d) with less | same | more
    · exact Or.inl (Or.inl less)
    · exact ih.imp (fun rest => Or.inr ⟨same, rest⟩) fun rest => Or.inr ⟨same.symm, rest⟩
    · exact Or.inr (Or.inl more)

theorem preferred_trans (one : preferred keys c d) (two : preferred keys d e) : preferred keys c e := by
  induction keys with
  | nil => rfl
  | cons key keys ih =>
    rw [preferred_cons] at *
    rcases one with less | ⟨same, one⟩
    · omega
    · rcases two with less | ⟨also, two⟩
      · omega
      · exact Or.inr ⟨same.trans also, ih one two⟩

theorem narrow_eq : narrow key set = set.filter fun c => set.all fun d => key c ≤ key d := by
  unfold narrow
  split_ifs with single
  · symm
    rw [List.filter_eq_self]
    intro c listed
    rw [List.all_eq_true]
    intro d other
    have same : c = d := by
      rcases set with _ | ⟨head, _ | ⟨next, rest⟩⟩
      · cases listed
      · exact (List.mem_singleton.mp listed).trans (List.mem_singleton.mp other).symm
      · simp at single
    exact decide_eq_true (le_of_eq (congrArg key same))
  · cases least : (set.map key).min? with
    | none =>
      have empty := List.map_eq_nil_iff.mp (List.min?_eq_none_iff.mp least)
      rw [empty]
      rfl
    | some best =>
      have ⟨reached, below⟩ := List.min?_eq_some_iff.mp least
      rcases List.mem_map.mp reached with ⟨first, present, rfl⟩
      apply List.filter_congr
      intro c listed
      rw [Option.getD_some, Bool.eq_iff_iff, decide_eq_true_iff, List.all_eq_true]
      constructor
      · intro same d other
        exact decide_eq_true (same.trans_le (below _ (List.mem_map_of_mem other)))
      · intro minimal
        exact le_antisymm (of_decide_eq_true (minimal first present)) (below _ (List.mem_map_of_mem listed))

theorem foldl_narrow : keys.foldl (fun set key => narrow key set) set =
    set.filter fun c => set.all fun d => preferred keys c d := by
  induction keys generalizing set with
  | nil =>
    symm
    rw [List.foldl_nil, List.filter_eq_self]
    intro c _
    exact List.all_eq_true.mpr fun _ _ => rfl
  | cons key keys ih =>
    rw [List.foldl_cons, ih, narrow_eq, List.filter_filter]
    apply List.filter_congr
    intro c listed
    rw [Bool.eq_iff_iff, Bool.and_eq_true, List.all_eq_true, List.all_eq_true, List.all_eq_true]
    constructor
    · rintro ⟨rest, least⟩ d other
      rw [preferred_cons]
      have below := of_decide_eq_true (least d other)
      rcases lt_or_eq_of_le below with less | same
      · exact Or.inl less
      · refine Or.inr ⟨same, rest d (List.mem_filter.mpr ⟨other, List.all_eq_true.mpr fun e third => ?_⟩)⟩
        have minimal := of_decide_eq_true (least e third)
        exact decide_eq_true (same ▸ minimal)
    · intro first
      have least : forall d, d ∈ set -> key c ≤ key d := by
        intro d other
        rcases preferred_cons.mp (first d other) with less | ⟨same, _⟩
        · exact less.le
        · exact same.le
      refine ⟨fun d found => ?_, fun d other => decide_eq_true (least d other)⟩
      have ⟨other, minimal⟩ := List.mem_filter.mp found
      rcases preferred_cons.mp (first d other) with less | ⟨_, rest⟩
      · exact absurd (of_decide_eq_true (List.all_eq_true.mp minimal c listed)) (not_le.mpr less)
      · exact rest

/-- The node chosen is the first of those that no other is preferred to. -/
theorem pickOneNode_eq : pickOneNode set =
    set.find? fun c => set.all fun d => preferred Candidate.tiebreaks c d := by
  rw [pickOneNode, foldl_narrow, List.head?_filter]

/-! ## The order -/

/-- Victims of a node have a well-defined order exactly when no two pods of
one priority wait for the clock; candidate nodes always have one. -/
theorem victim_order (node : Node) (candidates : List Candidate) :
    (Consistent node.pods <-> forall a b, a ∈ node.pods -> b ∈ node.pods -> a ≠ b -> a.priority = b.priority ->
      a.startTime.isSome ∧ b.startTime.isSome) ∧
    (forall c d, preferred Candidate.tiebreaks c d || preferred Candidate.tiebreaks d c) ∧
    (forall c d e, preferred Candidate.tiebreaks c d -> preferred Candidate.tiebreaks d e ->
      preferred Candidate.tiebreaks c e) ∧
    pickOneNode candidates = candidates.find? fun c => candidates.all fun d => preferred Candidate.tiebreaks c d := by
  refine ⟨⟨?_, ?_⟩, fun _ _ => preferred_total, fun _ _ _ => preferred_trans, pickOneNode_eq⟩
  · intro consistent a b one two different
    exact settled_of_consistent consistent one two different
  · exact consistent_of_settled node.nodup

/-- Two pods that have not started: whichever is asked about first comes
first. -/
theorem waiting_pods_have_no_order : ¬ forall node : Node, Consistent node.pods := by
  intro always
  let waiting (name : String) : PodInfo :=
    { podNamespace := "default", name := name, uid := name, priority := 0, labels := .empty, startTime := none }
  have consistent := always
    { name := "worker", pods := [waiting "old", waiting "young"], distinct := by decide }
  have both := consistent.antisymmetric (waiting "old") (waiting "young") (.head _) (.tail _ (.head _)) (by decide) 1 2 3 4
  exact absurd both (by decide)

end Preemption
end NotK8s.Scheduler

import Mathlib.Data.List.Basic

namespace NotK8s.Library

/-!
# Runs of a labelled state machine

A run is a list of labels performed from a start state.  Nondeterminism
lives in the labels: a label records every choice the environment made, so
one step is a function.  `EveryStep` judges each step in the state it is
taken from, and `AlongRun` judges every state the run visits, the start
included.

The last result is the rule for properties that hold exactly on the runs
that avoid one kind of step.  It asks for an invariant kept by the steps of
the good kind, and for the property to fail at once after a bad one.
-/

variable {State Label : Type*} (step : State -> Label -> State)

/-- The state a run ends in. -/
def run (start : State) (labels : List Label) : State :=
  labels.foldl step start

/-- Every step of the run satisfies `good` in the state it is taken from. -/
def EveryStep (good : State -> Label -> Prop) : State -> List Label -> Prop
  | _, [] => True
  | state, label :: rest => good state label ∧ EveryStep good (step state label) rest

instance EveryStep.decidable (good : State -> Label -> Prop) [forall state label, Decidable (good state label)] :
    forall (state : State) (labels : List Label), Decidable (EveryStep step good state labels)
  | _, [] => isTrue True.intro
  | state, label :: rest =>
    have := EveryStep.decidable good (step state label) rest
    inferInstanceAs (Decidable (good state label ∧ EveryStep step good (step state label) rest))

/-- Every state the run visits satisfies `property`. -/
def AlongRun (property : State -> Prop) : State -> List Label -> Prop
  | state, [] => property state
  | state, label :: rest => property state ∧ AlongRun property (step state label) rest

instance AlongRun.decidable (property : State -> Prop) [forall state, Decidable (property state)] :
    forall (state : State) (labels : List Label), Decidable (AlongRun step property state labels)
  | state, [] => inferInstanceAs (Decidable (property state))
  | state, label :: rest =>
    have := AlongRun.decidable property (step state label) rest
    inferInstanceAs (Decidable (property state ∧ AlongRun step property (step state label) rest))

@[simp] theorem run_nil (start : State) : run step start [] = start := rfl

@[simp] theorem run_cons (start : State) (label : Label) (rest : List Label) :
    run step start (label :: rest) = run step (step start label) rest := rfl

theorem run_append (start : State) (first second : List Label) :
    run step start (first ++ second) = run step (run step start first) second :=
  List.foldl_append

theorem run_concat (start : State) (labels : List Label) (label : Label) :
    run step start (labels ++ [label]) = step (run step start labels) label :=
  run_append step start labels [label]

section
variable {step}

theorem AlongRun.start {property : State -> Prop} {start : State} {labels : List Label}
    (along : AlongRun step property start labels) : property start := by
  cases labels with
  | nil => exact along
  | cons label rest => exact along.1

theorem AlongRun.finish {property : State -> Prop} {start : State} {labels : List Label}
    (along : AlongRun step property start labels) : property (run step start labels) := by
  induction labels generalizing start with
  | nil => exact along
  | cons label rest ih => exact ih along.2

theorem AlongRun.mono {property weaker : State -> Prop} {start : State} {labels : List Label}
    (along : AlongRun step property start labels)
    (implies : forall state, property state -> weaker state) :
    AlongRun step weaker start labels := by
  induction labels generalizing start with
  | nil => exact implies start along
  | cons label rest ih =>
    exact ⟨implies start along.1, ih along.2⟩

theorem EveryStep.mono {good weaker : State -> Label -> Prop} {start : State} {labels : List Label}
    (every : EveryStep step good start labels)
    (implies : forall state label, good state label -> weaker state label) :
    EveryStep step weaker start labels := by
  induction labels generalizing start with
  | nil => exact True.intro
  | cons label rest ih =>
    exact ⟨implies start label every.1, ih every.2⟩

theorem everyStep_append {good : State -> Label -> Prop} {start : State} {first second : List Label} :
    EveryStep step good start (first ++ second) <->
      EveryStep step good start first ∧ EveryStep step good (run step start first) second := by
  induction first generalizing start with
  | nil => exact (and_iff_right True.intro).symm
  | cons label rest ih =>
    simp only [List.cons_append, EveryStep, run_cons, ih, and_assoc]

theorem EveryStep.unconditional (start : State) (labels : List Label) :
    EveryStep step (fun _ _ => True) start labels := by
  induction labels generalizing start with
  | nil => exact True.intro
  | cons label rest ih => exact ⟨True.intro, ih (step start label)⟩

/-- Induction over a run: what the start satisfies and each step keeps
holds in every state visited. -/
theorem AlongRun.of_invariant {invariant : State -> Prop} {good : State -> Label -> Prop}
    (keeps : forall state label, invariant state -> good state label -> invariant (step state label))
    {start : State} {labels : List Label} (initial : invariant start)
    (every : EveryStep step good start labels) : AlongRun step invariant start labels := by
  induction labels generalizing start with
  | nil => exact initial
  | cons label rest ih =>
    exact ⟨initial, ih (keeps start label initial every.1) every.2⟩

/-- What holds of every good step from a state with the invariant holds of
every step of the run. -/
theorem EveryStep.of_invariant {invariant : State -> Prop} {good property : State -> Label -> Prop}
    (keeps : forall state label, invariant state -> good state label -> invariant (step state label))
    (each : forall state label, invariant state -> good state label -> property state label)
    {start : State} {labels : List Label} (initial : invariant start)
    (every : EveryStep step good start labels) : EveryStep step property start labels := by
  induction labels generalizing start with
  | nil => exact True.intro
  | cons label rest ih =>
    exact ⟨each start label initial every.1, ih (keeps start label initial every.1) every.2⟩

/-- Judgements that agree on every enabled step from a state with the
invariant agree on the run, if the steps so judged keep it. -/
theorem everyStep_iff {invariant : State -> Prop} {enabled good good' : State -> Label -> Prop}
    (keeps : forall state label, invariant state -> enabled state label -> good state label ->
      invariant (step state label))
    (same : forall state label, invariant state -> enabled state label -> (good state label <-> good' state label))
    {start : State} {labels : List Label} (initial : invariant start)
    (every : EveryStep step enabled start labels) :
    EveryStep step good start labels <-> EveryStep step good' start labels := by
  induction labels generalizing start with
  | nil => exact Iff.rfl
  | cons label rest ih =>
    have here := same start label initial every.1
    constructor
    · rintro ⟨first, later⟩
      have kept := keeps start label initial every.1 first
      exact ⟨here.mp first, (ih kept every.2).mp later⟩
    · rintro ⟨first, later⟩
      have kept := keeps start label initial every.1 (here.mpr first)
      exact ⟨here.mpr first, (ih kept every.2).mpr later⟩

/-- A property that good steps keep true and that fails right after a bad
step holds along a run exactly when the run takes good steps only. -/
theorem alongRun_iff_everyStep {invariant property : State -> Prop}
    {enabled good : State -> Label -> Prop}
    (keeps : forall state label, invariant state -> enabled state label ->
      good state label -> invariant (step state label))
    (safe : forall state, invariant state -> property state)
    (caught : forall state label, invariant state -> enabled state label ->
      property (step state label) -> good state label)
    {start : State} {labels : List Label} (initial : invariant start)
    (every : EveryStep step enabled start labels) :
    AlongRun step property start labels <-> EveryStep step good start labels := by
  induction labels generalizing start with
  | nil => exact iff_of_true (safe start initial) True.intro
  | cons label rest ih =>
    constructor
    · intro along
      have isGood := caught start label initial every.1 along.2.start
      exact ⟨isGood,
        (ih (keeps start label initial every.1 isGood) every.2).mp along.2⟩
    · intro steps
      exact ⟨safe start initial,
        (ih (keeps start label initial every.1 steps.1) every.2).mpr steps.2⟩

end

end NotK8s.Library

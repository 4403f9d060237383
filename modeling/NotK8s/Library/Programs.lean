import Mathlib.Logic.Basic

namespace NotK8s
namespace Library

/-!
# Computations in lockstep

Two fallible computations are in lockstep when they fail with the same
refusal or both succeed with related values.  The rule for sequencing is the
only one a proof needs to follow two runs of one program side by side.
-/

universe u

variable {Failure First Second First' Second' : Type u}

/-- Both computations fail alike or succeed with related values. -/
def Lockstep (related : First -> Second -> Prop) : Except Failure First -> Except Failure Second -> Prop
  | .ok first, .ok second => related first second
  | .error failure, .error failure' => failure = failure'
  | _, _ => False

namespace Lockstep

variable {related : First -> Second -> Prop} {related' : First' -> Second' -> Prop}
  {first : Except Failure First} {second : Except Failure Second}

theorem refused (failure : Failure) :
    Lockstep related (.error failure : Except Failure First) (.error failure : Except Failure Second) := rfl

theorem bind {next : First -> Except Failure First'} {next' : Second -> Except Failure Second'}
    (lockstep : Lockstep related first second)
    (continues : forall value value', first = .ok value -> related value value' ->
      Lockstep related' (next value) (next' value')) :
    Lockstep related' (first >>= next) (second >>= next') := by
  cases first with
  | error failure =>
    cases second with
    | error failure' => exact lockstep
    | ok value' => exact lockstep.elim
  | ok value =>
    cases second with
    | error failure' => exact lockstep.elim
    | ok value' => exact continues value value' rfl lockstep

theorem cases (lockstep : Lockstep related first second) :
    (Exists fun failure : Failure => first = .error failure ∧ second = .error failure) ∨
      Exists fun value : First => Exists fun value' : Second =>
        first = .ok value ∧ second = .ok value' ∧ related value value' := by
  cases first with
  | error failure =>
    cases second with
    | error failure' =>
      have same : failure = failure' := lockstep
      exact Or.inl ⟨failure, rfl, by rw [same]⟩
    | ok value' => exact lockstep.elim
  | ok value =>
    cases second with
    | error failure' => exact lockstep.elim
    | ok value' => exact Or.inr ⟨value, value', rfl, rfl, lockstep⟩

end Lockstep
end Library
end NotK8s

namespace NotK8s
namespace Library

/-!
# Triples for programs that keep their state when they fail

A program over `EStateM` that fails keeps what it did until then.  A triple
therefore has two postconditions: one for the value and the state it returns
with, and one for the state it fails in.
-/

/-- From every state with `pre` the program returns with `post` or fails with
`failed`. -/
def Triple {E S A : Type} (pre : S -> Prop) (program : EStateM E S A) (post : A -> S -> Prop)
    (failed : S -> Prop) : Prop :=
  forall state, pre state ->
    match program state with
    | .ok value state' => post value state'
    | .error _ state' => failed state'

namespace Triple

variable {E S A B : Type} {pre : S -> Prop} {failed : S -> Prop}

theorem returning {post : A -> S -> Prop} {value : A} (holds : forall state, pre state -> post value state) :
    Triple pre (pure value : EStateM E S A) post failed :=
  holds

theorem failing {post : A -> S -> Prop} {error : E} (holds : forall state, pre state -> failed state) :
    Triple pre (throw error : EStateM E S A) post failed :=
  holds

theorem reading {post : S -> S -> Prop} (holds : forall state, pre state -> post state state) :
    Triple pre (get : EStateM E S S) post failed :=
  holds

theorem writing {post : PUnit -> S -> Prop} {change : S -> S}
    (holds : forall state, pre state -> post PUnit.unit (change state)) :
    Triple pre (modify change : EStateM E S PUnit) post failed :=
  holds

theorem sequence {first : EStateM E S A} {next : A -> EStateM E S B} {mid : A -> S -> Prop}
    {post : B -> S -> Prop} (firstHolds : Triple pre first mid failed)
    (nextHolds : forall value, Triple (mid value) (next value) post failed) :
    Triple pre (first >>= next) post failed := by
  intro state before
  have middle := firstHolds state before
  change match EStateM.bind first next state with
    | .ok value state' => post value state'
    | .error _ state' => failed state'
  unfold EStateM.bind
  cases outcome : first state with
  | ok value state' =>
    rw [outcome] at middle
    exact nextHolds value state' middle
  | error error state' =>
    rw [outcome] at middle
    exact middle

theorem consequence {program : EStateM E S A} {pre' : S -> Prop} {post post' : A -> S -> Prop}
    {failed' : S -> Prop} (holds : Triple pre' program post' failed')
    (before : forall state, pre state -> pre' state)
    (after : forall value state, post' value state -> post value state)
    (broken : forall state, failed' state -> failed state) : Triple pre program post failed := by
  intro state start
  have finish := holds state (before state start)
  cases outcome : program state with
  | ok value state' =>
    rw [outcome] at finish
    exact after value state' finish
  | error error state' =>
    rw [outcome] at finish
    exact broken state' finish

theorem start {program : EStateM E S A} {post : A -> S -> Prop} (holds : Triple pre program post failed)
    {state : S} (before : pre state) : Triple (fun other => other = state) program post failed := by
  rintro _ rfl
  exact holds _ before

theorem choose {X : Type} {program : EStateM E S A} {choices : X -> S -> Prop} {post : A -> S -> Prop}
    (holds : forall choice, Triple (choices choice) program post failed) :
    Triple (fun state => Exists fun choice : X => choices choice state) program post failed := by
  rintro state ⟨choice, before⟩
  exact holds choice state before

theorem assuming {fact : Prop} {program : EStateM E S A} {post : A -> S -> Prop}
    (holds : fact -> Triple pre program post failed) :
    Triple (fun state => pre state ∧ fact) program post failed := by
  rintro state ⟨before, given⟩
  exact holds given state before

theorem ofExcept {post : A -> S -> Prop} {outcome : Except E A}
    (holds : forall value, outcome = .ok value -> forall state, pre state -> post value state)
    (broken : forall state, pre state -> failed state) :
    Triple pre (MonadExcept.ofExcept outcome : EStateM E S A) post failed := by
  cases outcome with
  | ok value => exact holds value rfl
  | error error => exact broken

theorem readState {next : S -> EStateM E S B} {post : B -> S -> Prop}
    (holds : forall start, pre start -> Triple (fun state => state = start) (next start) post failed) :
    Triple pre (get >>= next) post failed := by
  have read : Triple pre (get : EStateM E S S) (fun start state => pre start ∧ state = start) failed :=
    reading fun state before => ⟨before, rfl⟩
  apply read.sequence
  rintro start state ⟨before, same⟩
  exact holds start before state same

theorem returns {program : EStateM E S A} {post : A -> S -> Prop} (holds : Triple pre program post failed)
    {start finish : S} {value : A} (before : pre start) (outcome : program start = .ok value finish) :
    post value finish := by
  have result := holds start before
  rw [outcome] at result
  exact result

theorem fails {program : EStateM E S A} {post : A -> S -> Prop} (holds : Triple pre program post failed)
    {start finish : S} {error : E} (before : pre start) (outcome : program start = .error error finish) :
    failed finish := by
  have result := holds start before
  rw [outcome] at result
  exact result

end Triple

end Library
end NotK8s

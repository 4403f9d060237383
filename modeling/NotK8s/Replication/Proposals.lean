import NotK8s.Nodestore.Store

namespace NotK8s.Replication

open Nodestore

/-!
# Routing a result back to whoever proposed it

A tracker hands out proposal identities and keeps the waiters of one process.
What a waiter stands for is left open: `Waiter` is the sending half of its
channel, and `completed` is everything that was sent on one, oldest first.
-/

abbrev ProposalResult := Except Error Applied

structure ProposalTracker (Waiter : Type) where
  nextId : UInt64
  pending : List (UInt64 × Waiter)
  completed : List (Waiter × ProposalResult)

namespace ProposalTracker

variable {Waiter : Type}

def new : ProposalTracker Waiter where
  nextId := 0
  pending := []
  completed := []

/-- Register a waiter.  Identities count up from one; the counter wraps. -/
def register (t : ProposalTracker Waiter) (tx : Waiter) : UInt64 × ProposalTracker Waiter :=
  let id := t.nextId + 1
  (id, { t with nextId := id, pending := t.pending.filter (fun slot => slot.1 ≠ id) ++ [(id, tx)] })

/-- The waiter registered under an identity. -/
def waiter (t : ProposalTracker Waiter) (id : UInt64) : Option Waiter :=
  (t.pending.find? fun slot => slot.1 = id).map Prod.snd

/-- Give up on one proposal. -/
def forget (t : ProposalTracker Waiter) (id : UInt64) : ProposalTracker Waiter :=
  { t with pending := t.pending.filter fun slot => slot.1 ≠ id }

/-- Deliver a result.  Identity zero is carried by entries nobody waits on,
and a missing waiter is the normal case on a follower. -/
def complete (t : ProposalTracker Waiter) (id : UInt64) (result : ProposalResult) : ProposalTracker Waiter :=
  if id = 0 then t
  else
    match t.waiter id with
    | none => t
    | some tx => { t.forget id with completed := t.completed ++ [(tx, result)] }

/-- Fail every outstanding proposal. -/
def failAll (t : ProposalTracker Waiter) (reason : String) : ProposalTracker Waiter :=
  { t with
    pending := []
    completed := t.completed ++ t.pending.map fun slot => (slot.2, .error (.unavailable reason)) }

section
variable {t : ProposalTracker Waiter} {id : UInt64} {tx : Waiter} {result : ProposalResult}

theorem waiter_mem (found : t.waiter id = some tx) : (id, tx) ∈ t.pending := by
  rcases Option.map_eq_some_iff.mp found with ⟨slot, first, rfl⟩
  have same : slot.1 = id := by simpa using List.find?_some first
  rw [← same]
  exact List.mem_of_find?_eq_some first

theorem complete_zero (t : ProposalTracker Waiter) (result : ProposalResult) : t.complete 0 result = t :=
  if_pos rfl

theorem complete_missing (missing : t.waiter id = none) : t.complete id result = t := by
  unfold complete
  rw [missing]
  exact ite_self t

theorem complete_waiting (named : id ≠ 0) (waiting : t.waiter id = some tx) :
    t.complete id result = { t.forget id with completed := t.completed ++ [(tx, result)] } := by
  unfold complete
  rw [if_neg named, waiting]

end

/-- The waiters that were told of success. -/
def toldOk (told : List (Waiter × ProposalResult)) : List Waiter :=
  told.filterMap fun answer =>
    match answer.2 with
    | .ok _ => some answer.1
    | .error _ => none

theorem toldOk_append (first second : List (Waiter × ProposalResult)) :
    toldOk (first ++ second) = toldOk first ++ toldOk second :=
  List.filterMap_append

/-- What answering waiters does to a tracker: `told` is sent, and no waiter
is added. -/
structure Answers (t t' : ProposalTracker Waiter) (told : List (Waiter × ProposalResult)) : Prop where
  nextId : t'.nextId = t.nextId
  pending : forall slot, slot ∈ t'.pending -> slot ∈ t.pending
  completed : t'.completed = t.completed ++ told

namespace Answers

variable {t t' t'' : ProposalTracker Waiter} {first second : List (Waiter × ProposalResult)}

theorem refl (t : ProposalTracker Waiter) : Answers t t [] :=
  ⟨rfl, fun _ member => member, (List.append_nil _).symm⟩

theorem trans (earlier : Answers t t' first) (later : Answers t' t'' second) : Answers t t'' (first ++ second) := by
  refine ⟨later.nextId.trans earlier.nextId, fun slot member => ?_, ?_⟩
  · exact earlier.pending slot (later.pending slot member)
  · rw [later.completed, earlier.completed, List.append_assoc]

theorem told (answers : Answers t t' first) : t'.completed.drop t.completed.length = first := by
  rw [answers.completed, List.drop_left]

end Answers

theorem forget_answers (t : ProposalTracker Waiter) (id : UInt64) : Answers t (t.forget id) [] :=
  ⟨rfl, fun _ member => List.mem_of_mem_filter member, (List.append_nil _).symm⟩

/-- The waiter an entry with this identity completes. -/
def answered (t : ProposalTracker Waiter) (id : UInt64) : List Waiter :=
  if id = 0 then [] else (t.waiter id).toList

theorem complete_answers (t : ProposalTracker Waiter) (id : UInt64) (result : ProposalResult) :
    Answers t (t.complete id result) ((t.answered id).map fun tx => (tx, result)) := by
  unfold answered
  by_cases zero : id = 0
  · rw [if_pos zero, zero, complete_zero]
    exact Answers.refl t
  · rw [if_neg zero]
    cases waiting : t.waiter id with
    | none =>
      rw [complete_missing waiting]
      exact Answers.refl t
    | some tx =>
      rw [complete_waiting zero waiting]
      exact ⟨rfl, fun _ member => List.mem_of_mem_filter member, rfl⟩

theorem failAll_answers (t : ProposalTracker Waiter) (reason : String) :
    Answers t (t.failAll reason) (t.pending.map fun slot => (slot.2, .error (.unavailable reason))) :=
  ⟨rfl, nofun, rfl⟩

theorem toldOk_ok (waiters : List Waiter) (applied : Applied) :
    toldOk (waiters.map fun tx => (tx, (.ok applied : ProposalResult))) = waiters := by
  unfold toldOk
  simp

theorem toldOk_error {Slot : Type} (slots : List Slot) (waiter : Slot -> Waiter) (refusal : Error) :
    toldOk (slots.map fun slot => (waiter slot, (.error refusal : ProposalResult))) = [] := by
  unfold toldOk
  simp

end ProposalTracker

end NotK8s.Replication

import Mathlib.Data.List.Nodup

namespace NotK8s.Controllers

/-!
# Work queues and requests

A key waits once however often it is enqueued, and leaves the queue before
its work begins.
-/

variable {Key : Type} [DecidableEq Key]

structure KeyedWorkQueue (Key : Type) where
  pending : List Key
  distinct : pending.Nodup

namespace KeyedWorkQueue

def empty : KeyedWorkQueue Key where
  pending := []
  distinct := List.nodup_nil

def enqueue (queue : KeyedWorkQueue Key) (key : Key) : KeyedWorkQueue Key :=
  if waiting : key ∈ queue.pending then queue
  else ⟨queue.pending ++ [key], queue.distinct.append (List.nodup_singleton key) fun _ earlier last =>
    waiting (List.mem_singleton.mp last ▸ earlier)⟩

def pop (queue : KeyedWorkQueue Key) : Option (Key × KeyedWorkQueue Key) :=
  match queue with
  | ⟨[], _⟩ => none
  | ⟨key :: pending, distinct⟩ => some (key, ⟨pending, (List.nodup_cons.mp distinct).2⟩)

end KeyedWorkQueue

/-- How a request ends: with its reply, with an error after it took effect,
or with an error and no effect. -/
inductive Outcome where
  | done
  | lost
  | failed

def Outcome.takesEffect : Outcome -> Bool
  | .failed => false
  | _ => true

end NotK8s.Controllers

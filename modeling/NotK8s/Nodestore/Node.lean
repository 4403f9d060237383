import NotK8s.Nodestore.Apply

namespace NotK8s.Nodestore

/-!
# A node

The store behind its lock, with the fan-out to watchers.  The events of a
command are published while the lock is held, so the batches are in the order
of the applied commands.
-/

/-- One applied command's events, as broadcast to watchers. -/
structure WatchBatch where
  revision : Int
  events : List Event
  deriving DecidableEq

/-- The store, and every batch the watch hub was handed. -/
structure Node where
  store : Store
  published : List WatchBatch

/-- Apply a committed command and publish its events. -/
def Node.applyCommitted (node : Node) (index : Nat) (cmd : Command) : Except Error (Applied × Node) := do
  let (applied, store) ← node.store.applyAt index cmd
  let published :=
    if applied.events.isEmpty then node.published
    else node.published ++ [{ revision := applied.revision, events := applied.events }]
  .ok (applied, { store := store, published := published })

/-- Replace the state machine with a snapshot.  Nothing is published. -/
def Node.restoreSnapshot (node : Node) (state : SnapshotState) : Except Error Node := do
  let store ← node.store.restoreSnapshot state
  .ok { node with store := store }

section
variable {node node' : Node} {index : Nat} {cmd : Command}

theorem Node.applyCommitted_error {refusal : Error} :
    node.applyCommitted index cmd = .error refusal <-> node.store.applyAt index cmd = .error refusal := by
  unfold Node.applyCommitted
  cases node.store.applyAt index cmd with
  | error other =>
    constructor
    · intro same
      cases same
      rfl
    · intro same
      cases same
      rfl
  | ok result => exact iff_of_false nofun nofun

theorem Node.applyCommitted_ok {applied : Applied} (success : node.applyCommitted index cmd = .ok (applied, node')) :
    node.store.applyAt index cmd = .ok (applied, node'.store) := by
  unfold Node.applyCommitted at success
  cases outcome : node.store.applyAt index cmd with
  | error other =>
    rw [outcome] at success
    cases success
  | ok result =>
    rw [outcome] at success
    cases success
    rfl

theorem Node.restoreSnapshot_ok {state : SnapshotState} (success : node.restoreSnapshot state = .ok node') :
    node.store.restoreSnapshot state = .ok node'.store := by
  unfold Node.restoreSnapshot at success
  cases outcome : node.store.restoreSnapshot state with
  | error other =>
    rw [outcome] at success
    cases success
  | ok store =>
    rw [outcome] at success
    cases success
    rfl

theorem Node.restoreSnapshot_appliedIndex {state : SnapshotState}
    (success : node.restoreSnapshot state = .ok node') : node'.store.db.appliedIndex = state.appliedIndex := by
  have restored := Node.restoreSnapshot_ok success
  rcases bind_eq_ok restored with ⟨kv, _, rest⟩
  rcases bind_eq_ok rest with ⟨leases, _, rest⟩
  rcases bind_eq_ok rest with ⟨members, _, last⟩
  exact congrArg (fun store => store.db.appliedIndex) (Except.ok.inj last).symm

end

end NotK8s.Nodestore

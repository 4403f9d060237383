import NotK8s.Nodestore.Node
import NotK8s.Nodestore.Replay

namespace NotK8s.Nodestore

open Library

/-!
# What a node has published

The batches a node handed to its hub, read as one list of events with their
revisions, are the events of the command history that made its store.  Their
revisions strictly increase from batch to batch and never pass the store's.
-/

/-- The events of a batch with its revision. -/
def WatchBatch.stamped (batch : WatchBatch) : List (Int × Event) :=
  batch.events.map fun event => (batch.revision, event)

/-- Everything a node has published. -/
def Node.stamped (node : Node) : List (Int × Event) :=
  node.published.flatMap WatchBatch.stamped

/-- A node nothing was applied to. -/
def Node.fresh : Node where
  store := Store.fresh
  published := []

/-- Apply the command of one log entry; a refused one changes nothing. -/
def Node.step (node : Node) (entry : Nat × Command) : Node :=
  match node.applyCommitted entry.1 entry.2 with
  | .error _ => node
  | .ok (_, node') => node'

/-- A node that came about by applying commands. -/
structure Node.Logged (node : Node) : Prop where
  log : Exists fun entries : List (Nat × Command) =>
    (history entries).store = node.store ∧ (history entries).published = node.stamped
  ordered : node.published.Pairwise fun first second => first.revision < second.revision
  bounded : forall batch, batch ∈ node.published -> batch.revision ≤ node.store.db.revision

theorem Node.fresh_logged : Node.fresh.Logged where
  log := ⟨[], rfl, rfl⟩
  ordered := List.Pairwise.nil
  bounded := nofun

@[simp] theorem WatchBatch.mem_stamped {batch : WatchBatch} {stamped : Int × Event} :
    stamped ∈ batch.stamped <-> stamped.1 = batch.revision ∧ stamped.2 ∈ batch.events := by
  rcases stamped with ⟨revision, event⟩
  simp [WatchBatch.stamped, and_comm, eq_comm]

theorem Node.mem_stamped {node : Node} {stamped : Int × Event} :
    stamped ∈ node.stamped <-> Exists fun batch : WatchBatch => batch ∈ node.published ∧ stamped ∈ batch.stamped :=
  List.mem_flatMap

section
variable {node node' : Node} {index : Nat} {cmd : Command} {applied : Applied}

theorem Node.Logged.reachable (logged : node.Logged) : Reachable node.store := by
  rcases logged.log with ⟨entries, same, _⟩
  rw [← same]
  exact history_reachable entries

theorem Node.Logged.wellFormed (logged : node.Logged) : node.store.db.WellFormed :=
  logged.reachable.wellFormed

/-- An accepted command publishes one batch, above everything published
before it, or nothing. -/
structure Node.Applies (node node' : Node) : Prop where
  revision : node.store.db.revision ≤ node'.store.db.revision
  compactRevision : node.store.db.compactRevision ≤ node'.store.db.compactRevision
  published : node'.published = node.published ∨
    Exists fun batch : WatchBatch => node'.published = node.published ++ [batch] ∧
      node.store.db.revision < batch.revision ∧ batch.revision ≤ node'.store.db.revision

theorem Node.Applies.later (applies : node.Applies node') :
    Exists fun later : List WatchBatch => node'.published = node.published ++ later ∧
      forall batch, batch ∈ later -> node.store.db.revision < batch.revision := by
  rcases applies.published with same | ⟨batch, added, above, _⟩
  · exact ⟨[], by rw [same, List.append_nil], nofun⟩
  · refine ⟨[batch], added, ?_⟩
    intro other member
    rw [List.mem_singleton.mp member]
    exact above

theorem Node.stamped_append {later : List WatchBatch} (added : node'.published = node.published ++ later) :
    node'.stamped = node.stamped ++ later.flatMap WatchBatch.stamped := by
  rw [Node.stamped, added, List.flatMap_append]
  rfl

theorem stamped_above {later : List WatchBatch} {revision : Int}
    (above : forall batch, batch ∈ later -> revision < batch.revision) :
    forall stamped, stamped ∈ later.flatMap WatchBatch.stamped -> revision < stamped.1 := by
  intro stamped member
  rcases List.mem_flatMap.mp member with ⟨batch, isLater, inside⟩
  rw [(WatchBatch.mem_stamped.mp inside).1]
  exact above batch isLater

theorem Node.applyCommitted_eq (success : node.applyCommitted index cmd = .ok (applied, node')) :
    node'.published =
      if applied.events.isEmpty then node.published
      else node.published ++ [{ revision := applied.revision, events := applied.events }] := by
  rcases bind_eq_ok success with ⟨result, _, rest⟩
  cases rest
  rfl

theorem Node.applyCommitted_stamped (success : node.applyCommitted index cmd = .ok (applied, node')) :
    node'.stamped = node.stamped ++ applied.stamped := by
  rw [Node.stamped, Node.applyCommitted_eq success]
  by_cases silent : applied.events = []
  · simp [silent, Applied.stamped, Node.stamped]
  · simp [silent, Applied.stamped, Node.stamped, WatchBatch.stamped]

theorem Node.Logged.applies (logged : node.Logged)
    (success : node.applyCommitted index cmd = .ok (applied, node')) : node.Applies node' := by
  have store := Node.applyCommitted_ok success
  rcases logged.wellFormed.accepted store with ⟨tx, w, accepted⟩
  have revision : node'.store.db.revision = applied.revision := by rw [accepted.db]
  have grows := accepted.revision_eq
  refine ⟨?_, ?_, ?_⟩
  · rw [revision, grows]
    split <;> omega
  · rw [accepted.db]
    cases accepted.effect with
    | writes written same => exact same.compactRevision.ge
    | compact above reached => exact above.le
  · rw [Node.applyCommitted_eq success]
    by_cases silent : applied.events = []
    · exact Or.inl (if_pos (List.isEmpty_iff.mpr silent))
    · right
      refine ⟨_, if_neg (by simpa using silent), ?_, revision.ge⟩
      rw [if_neg silent] at grows
      change node.store.db.revision < applied.revision
      omega

theorem Node.Logged.applyCommitted (logged : node.Logged)
    (success : node.applyCommitted index cmd = .ok (applied, node')) : node'.Logged := by
  have applies := logged.applies success
  refine ⟨?_, ?_, ?_⟩
  · rcases logged.log with ⟨entries, store, published⟩
    refine ⟨entries ++ [(index, cmd)], ?_⟩
    have last : history (entries ++ [(index, cmd)]) = (history entries).step (index, cmd) :=
      run_concat Recorded.step Recorded.fresh entries (index, cmd)
    have applied := Node.applyCommitted_ok success
    rw [← store] at applied
    rw [last, Recorded.step, applied, published, Node.applyCommitted_stamped success]
    exact ⟨rfl, rfl⟩
  · rcases applies.published with same | ⟨batch, added, above, _⟩
    · rw [same]
      exact logged.ordered
    · rw [added, List.pairwise_append]
      refine ⟨logged.ordered, List.pairwise_singleton _ _, ?_⟩
      intro earlier member last isLast
      rw [List.mem_singleton.mp isLast]
      exact lt_of_le_of_lt (logged.bounded earlier member) above
  · intro batch member
    rcases applies.published with same | ⟨last, added, _, below⟩
    · rw [same] at member
      exact (logged.bounded batch member).trans applies.revision
    · rw [added, List.mem_append, List.mem_singleton] at member
      rcases member with earlier | rfl
      · exact (logged.bounded batch earlier).trans applies.revision
      · exact below

theorem Node.Logged.step (logged : node.Logged) (entry : Nat × Command) : (node.step entry).Logged := by
  unfold Node.step
  cases outcome : node.applyCommitted entry.1 entry.2 with
  | error refusal => exact logged
  | ok result => exact logged.applyCommitted outcome

theorem Node.run_logged (entries : List (Nat × Command)) : (run Node.step Node.fresh entries).Logged := by
  induction entries using List.reverseRecOn with
  | nil => exact Node.fresh_logged
  | append_singleton earlier entry ih =>
    rw [run_concat]
    exact ih.step entry

theorem Node.Logged.stamped_le (logged : node.Logged) (stamped : Int × Event)
    (member : stamped ∈ node.stamped) : stamped.1 ≤ node.store.db.revision := by
  rcases Node.mem_stamped.mp member with ⟨batch, published, inside⟩
  rw [(WatchBatch.mem_stamped.mp inside).1]
  exact logged.bounded batch published

theorem Node.Logged.stamped_ordered (logged : node.Logged) :
    node.stamped.Pairwise fun first second => first.1 ≤ second.1 := by
  rw [Node.stamped, List.pairwise_flatMap]
  refine ⟨?_, logged.ordered.imp ?_⟩
  · intro batch _
    rw [WatchBatch.stamped, List.pairwise_map]
    exact List.pairwise_of_forall fun _ _ => le_refl _
  · intro first second less one inFirst two inSecond
    rw [(WatchBatch.mem_stamped.mp inFirst).1, (WatchBatch.mem_stamped.mp inSecond).1]
    exact less.le

theorem Node.Logged.publishes (logged : node.Logged) :
    KeySorted KvRow.stamp node.store.db.kv ∧
      Publishes node.store.db.kv node.store.db.compactRevision node.stamped := by
  rcases logged.log with ⟨entries, store, published⟩
  have facts := history_publishes entries
  rw [store, published] at facts
  exact facts

end

end NotK8s.Nodestore

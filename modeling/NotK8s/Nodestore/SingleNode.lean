import NotK8s.Library.Run
import NotK8s.Nodestore.Node

namespace NotK8s.Nodestore

open Library

/-!
# A single member

Without a cluster a proposal is committed at once.  It draws the next log
index from a counter, and applies its command under the store lock.  Between
the two other proposals may draw and apply, and the store records whatever
index it is given.  A restart loses the proposals in between and draws on
from the recorded index.
-/

/-- A running single member.  The last three fields are what has happened
since it was started: the value it drew on from, the indexes of the calls
that succeeded, in order, and whether a call has failed. -/
structure SingleNode where
  node : Node
  /-- The last index handed out. -/
  index : Nat
  /-- The proposals that have drawn and not applied yet. -/
  pending : List (Nat × Command)
  startValue : Nat
  succeeded : List Nat
  failed : Bool

namespace SingleNode

/-- A member resuming from the index its store last recorded. -/
def resuming (store : Store) : SingleNode where
  node := { store := store, published := [] }
  index := store.db.appliedIndex
  pending := []
  startValue := store.db.appliedIndex
  succeeded := []
  failed := false

def appliedIndex (member : SingleNode) : Nat :=
  member.node.store.db.appliedIndex

/-- What a member does: a call draws its index, a call that has drawn is
applied, or the process is started again. -/
inductive Move where
  | submit (cmd : Command)
  | applyCommitted (call : Nat)
  | restart

/-- Draw the next index. -/
def submit (member : SingleNode) (cmd : Command) : SingleNode :=
  { member with index := member.index + 1, pending := member.pending ++ [(member.index + 1, cmd)] }

/-- Apply the command of a call.  A refused one leaves the store. -/
def finish (member : SingleNode) (call : Nat) (index : Nat) (cmd : Command) : SingleNode :=
  match member.node.applyCommitted index cmd with
  | .ok (_, node) =>
    { member with
      node := node, pending := member.pending.eraseIdx call, succeeded := member.succeeded ++ [index] }
  | .error _ => { member with pending := member.pending.eraseIdx call, failed := true }

def move (member : SingleNode) : Move -> SingleNode
  | .submit cmd => member.submit cmd
  | .applyCommitted call =>
    match member.pending[call]? with
    | some (index, cmd) => member.finish call index cmd
    | none => member
  | .restart => resuming { db := member.node.store.db, rbacCache := fun _ => none }

/-- How many indexes were handed out since the start. -/
def handedOut (member : SingleNode) : Nat :=
  member.index - member.startValue

/-- Once all calls have succeeded, every index handed out is accounted for. -/
def Settled (member : SingleNode) : Prop :=
  member.pending = [] -> member.failed = false -> member.appliedIndex = member.startValue + member.handedOut

/-- The step does not lower the recorded index, and leaves it settled. -/
def Advances (member : SingleNode) (label : Move) : Prop :=
  member.appliedIndex ≤ (member.move label).appliedIndex ∧ (member.move label).Settled

/-- A call is applied before every call that drew after it has succeeded. -/
def InDrawOrder (member : SingleNode) : Move -> Prop
  | .applyCommitted call =>
    forall index cmd, member.pending[call]? = some (index, cmd) ->
      (Exists fun result : Applied × Node => member.node.applyCommitted index cmd = .ok result) ->
        forall earlier, earlier ∈ member.succeeded -> earlier ≤ index
  | _ => True

/-- What the draws keep.  The recorded index is that of the last call to
succeed, and as long as no call failed the last index handed out is either
recorded or pending. -/
structure Drawn (member : SingleNode) : Prop where
  started : member.startValue ≤ member.index
  above : forall call, call ∈ member.pending -> member.startValue < call.1 ∧ call.1 ≤ member.index
  recorded : member.appliedIndex = member.succeeded.getLast?.getD member.startValue
  bounded : forall index, index ∈ member.succeeded -> index ≤ member.appliedIndex
  reached : member.appliedIndex ≤ member.index
  last : member.failed = false ->
    member.appliedIndex = member.index ∨ Exists fun cmd : Command => (member.index, cmd) ∈ member.pending

section
variable {member : SingleNode}

theorem Drawn.settled (drawn : member.Drawn) : member.Settled := by
  intro none succeeded
  have started := drawn.started
  rcases drawn.last succeeded with same | ⟨cmd, waiting⟩
  · rw [handedOut]
    omega
  · rw [none] at waiting
    simp at waiting

theorem drawn_resuming (store : Store) : (resuming store).Drawn where
  started := le_refl _
  above := by simp [resuming]
  recorded := rfl
  bounded := by simp [resuming]
  reached := le_refl _
  last := fun _ => Or.inl rfl

theorem Drawn.submit (drawn : member.Drawn) (cmd : Command) : (member.submit cmd).Drawn where
  started := Nat.le_succ_of_le drawn.started
  above := by
    have started := drawn.started
    intro call waiting
    rcases List.mem_append.mp waiting with old | new
    · have bounds := drawn.above call old
      exact ⟨bounds.1, Nat.le_succ_of_le bounds.2⟩
    · rw [List.mem_singleton.mp new]
      exact ⟨Nat.lt_succ_of_le started, le_refl _⟩
  recorded := drawn.recorded
  bounded := drawn.bounded
  reached := Nat.le_succ_of_le drawn.reached
  last := fun _ => Or.inr ⟨cmd, List.mem_append_right _ (.head _)⟩

theorem mem_eraseIdx_of_ne {Item : Type} {items : List Item} {position : Nat} {item other : Item}
    (there : items[position]? = some item) (member : other ∈ items) (different : other ≠ item) :
    other ∈ items.eraseIdx position := by
  induction items generalizing position with
  | nil => simp at member
  | cons head rest ih =>
    cases position with
    | zero =>
      have same : head = item := by simpa using there
      rcases List.mem_cons.mp member with rfl | later
      · exact absurd same different
      · exact later
    | succ position =>
      have later : rest[position]? = some item := by simpa using there
      rcases List.mem_cons.mp member with rfl | inRest
      · exact .head _
      · exact .tail _ (ih later inRest)

theorem finish_ok {call index : Nat} {cmd : Command} {applied : Applied} {node : Node}
    (accepted : member.node.applyCommitted index cmd = .ok (applied, node)) :
    member.finish call index cmd =
      { member with
        node := node, pending := member.pending.eraseIdx call, succeeded := member.succeeded ++ [index] } := by
  rw [finish, accepted]

theorem finish_appliedIndex {call index : Nat} {cmd : Command} {applied : Applied} {node : Node}
    (drawn : member.Drawn) (waiting : member.pending[call]? = some (index, cmd))
    (accepted : member.node.applyCommitted index cmd = .ok (applied, node)) :
    (member.finish call index cmd).appliedIndex = index := by
  rw [finish_ok accepted]
  apply applyAt_appliedIndex (Node.applyCommitted_ok accepted)
  have bounds := drawn.above (index, cmd) (List.mem_of_getElem? waiting)
  exact Nat.zero_lt_of_lt bounds.1

theorem Drawn.failed {call index : Nat} {cmd : Command} {refusal : Error} (drawn : member.Drawn)
    (refused : member.node.applyCommitted index cmd = .error refusal) :
    (member.finish call index cmd).Drawn ∧
      (member.finish call index cmd).appliedIndex = member.appliedIndex := by
  rw [finish, refused]
  refine ⟨?_, rfl⟩
  exact {
    started := drawn.started
    above := fun other waiting => drawn.above other (List.mem_of_mem_eraseIdx waiting)
    recorded := drawn.recorded
    bounded := drawn.bounded
    reached := drawn.reached
    last := fun impossible => absurd impossible (by simp) }

theorem Drawn.finish {call index : Nat} {cmd : Command} {applied : Applied} {node : Node} (drawn : member.Drawn)
    (waiting : member.pending[call]? = some (index, cmd))
    (accepted : member.node.applyCommitted index cmd = .ok (applied, node))
    (forward : member.appliedIndex ≤ index) : (member.finish call index cmd).Drawn := by
  have now := finish_appliedIndex drawn waiting accepted
  have bounds := drawn.above (index, cmd) (List.mem_of_getElem? waiting)
  have whole := @finish_ok member call index cmd applied node accepted
  have started : (member.finish call index cmd).startValue = member.startValue := by rw [whole]
  have top : (member.finish call index cmd).index = member.index := by rw [whole]
  have calls : (member.finish call index cmd).pending = member.pending.eraseIdx call := by rw [whole]
  have done : (member.finish call index cmd).succeeded = member.succeeded ++ [index] := by rw [whole]
  have failures : (member.finish call index cmd).failed = member.failed := by rw [whole]
  refine ⟨?_, ?_, ?_, ?_, ?_, ?_⟩
  · rw [started, top]
    exact drawn.started
  · rw [started, top, calls]
    exact fun other still => drawn.above other (List.mem_of_mem_eraseIdx still)
  · rw [now, done]
    simp
  · rw [now, done]
    intro earlier counted
    rcases List.mem_append.mp counted with old | new
    · exact (drawn.bounded earlier old).trans forward
    · exact (List.mem_singleton.mp new).le
  · rw [now, top]
    exact bounds.2
  · rw [failures, now, top, calls]
    intro none
    by_cases isLast : index = member.index
    · exact Or.inl isLast
    · right
      rcases drawn.last none with same | ⟨later, pending⟩
      · exact absurd (le_antisymm bounds.2 (same.symm.le.trans forward)) isLast
      · refine ⟨later, mem_eraseIdx_of_ne waiting pending ?_⟩
        intro equal
        exact isLast (Prod.mk.inj equal).1.symm

/-- In the order of the draws the recorded index does not exceed the one to
be recorded, and the other way round. -/
theorem inDrawOrder_iff {call index : Nat} {cmd : Command} {applied : Applied} {node : Node} (drawn : member.Drawn)
    (waiting : member.pending[call]? = some (index, cmd))
    (accepted : member.node.applyCommitted index cmd = .ok (applied, node)) :
    member.InDrawOrder (.applyCommitted call) <-> member.appliedIndex ≤ index := by
  have bounds := drawn.above (index, cmd) (List.mem_of_getElem? waiting)
  constructor
  · intro inOrder
    have earlier := inOrder index cmd waiting ⟨_, accepted⟩
    rw [drawn.recorded]
    cases newest : member.succeeded.getLast? with
    | none => exact bounds.1.le
    | some last => exact earlier last (List.mem_of_getLast? newest)
  · intro forward other otherCmd found _ earlier counted
    rw [waiting] at found
    cases found
    exact (drawn.bounded earlier counted).trans forward

theorem Drawn.move {label : Move} (drawn : member.Drawn) (inOrder : member.InDrawOrder label) :
    (member.move label).Drawn ∧ member.appliedIndex ≤ (member.move label).appliedIndex := by
  cases label with
  | submit cmd => exact ⟨drawn.submit cmd, le_refl _⟩
  | restart => exact ⟨drawn_resuming _, le_refl _⟩
  | applyCommitted call =>
    cases waiting : member.pending[call]? with
    | none =>
      have unchanged : member.move (.applyCommitted call) = member := by simp only [SingleNode.move, waiting]
      rw [unchanged]
      exact ⟨drawn, le_refl _⟩
    | some drawnCall =>
      rcases drawnCall with ⟨index, cmd⟩
      have finished : member.move (.applyCommitted call) = member.finish call index cmd := by
        simp only [SingleNode.move, waiting]
      rw [finished]
      cases outcome : member.node.applyCommitted index cmd with
      | error refusal =>
        have kept := @Drawn.failed member call index cmd refusal drawn outcome
        exact ⟨kept.1, kept.2.symm.le⟩
      | ok result =>
        have forward := (inDrawOrder_iff drawn waiting outcome).mp inOrder
        refine ⟨drawn.finish waiting outcome forward, ?_⟩
        rw [finish_appliedIndex drawn waiting outcome]
        exact forward

/-- A step that does not lower the recorded index takes calls in the order
of their draws. -/
theorem inDrawOrder_of_advances {label : Move} (drawn : member.Drawn) (advances : member.Advances label) :
    member.InDrawOrder label := by
  cases label with
  | submit cmd | restart => exact True.intro
  | applyCommitted call =>
    intro index cmd waiting accepted
    rcases accepted with ⟨⟨applied, node⟩, accepted⟩
    have finished : member.move (.applyCommitted call) = member.finish call index cmd := by
      simp only [SingleNode.move, waiting]
    have forward := advances.1
    rw [finished, finish_appliedIndex drawn waiting accepted] at forward
    exact (inDrawOrder_iff drawn waiting accepted).mpr forward index cmd waiting ⟨_, accepted⟩

end

/-- The recorded index moves forward, and is settled when the calls are, in
exactly the runs that apply the calls that succeed in the order in which they
drew their indexes. -/
theorem advances_iff_inDrawOrder (store : Store) (moves : List Move) :
    EveryStep move Advances (resuming store) moves <-> EveryStep move InDrawOrder (resuming store) moves := by
  have any := @EveryStep.unconditional _ _ move (resuming store) moves
  refine @everyStep_iff _ _ move Drawn (fun _ _ => True) Advances InDrawOrder ?_ ?_ _ _ (drawn_resuming store) any
  · intro member label drawn _ advances
    exact (drawn.move (inDrawOrder_of_advances drawn advances)).1
  · intro member label drawn _
    constructor
    · exact inDrawOrder_of_advances drawn
    · intro inOrder
      have kept := drawn.move inOrder
      exact ⟨kept.2, kept.1.settled⟩

/-- Two calls draw their indexes and are applied the other way round. -/
def overtakenCall : List Move :=
  let put (key : String) : Command :=
    .put { key := ascii key, value := ascii "v", lease := 0, prevKv := false,
           ignoreValue := false, ignoreLease := false }
  [.submit (put "/a"), .submit (put "/b"), .applyCommitted 1, .applyCommitted 0]

/-- The recorded index goes from 2 back to 1, and stays there. -/
theorem overtakenCall_not_advances : ¬EveryStep move Advances (resuming Store.fresh) overtakenCall := by
  intro every
  have back := every.2.2.2.1.1
  revert back
  decide

end SingleNode

end NotK8s.Nodestore

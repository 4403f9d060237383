import NotK8s.Replication.DriverRules

namespace NotK8s.Replication

open Library Nodestore

/-!
# The log as raft reads it

Raft's reads of the log, and what a snapshot leaves of it.  The routine that
records a snapshot deletes the entries at or below its index and keeps those
above.  That is right for a snapshot of this member's own state.  A leader's
snapshot replaces a log that disagrees with the leader's, and there an entry
above the index is one the cluster decided against.
-/

inductive StorageError where
  | compacted | unavailable
  deriving DecidableEq

namespace RaftLog

/-- The index of the first entry, or where it would be. -/
def firstIndexOf (log : RaftLog) : Nat :=
  match log.entries.head? with
  | some entry => entry.index
  | none => (log.snapshotMeta.map fun recorded => recorded.index + 1).getD 1

/-- The rows within a size limit, the first one always. -/
def takeWithin (size : Entry -> Nat) (maxSize : Option Nat) : List Entry -> Nat -> List Entry -> List Entry
  | out, _, [] => out
  | out, bytes, row :: rest =>
    match maxSize with
    | some limit =>
      if !out.isEmpty && decide (bytes + size row > limit) then out
      else takeWithin size maxSize (out ++ [row]) (bytes + size row) rest
    | none => takeWithin size maxSize (out ++ [row]) (bytes + size row) rest

/-- The entries from `low` up to, not including, `high`. -/
def entriesIn (log : RaftLog) (size : Entry -> Nat) (low high : Nat) (maxSize : Option Nat) :
    Except StorageError (List Entry) :=
  if low < log.firstIndexOf then .error .compacted
  else if high > log.lastIndexOf + 1 then .error .unavailable
  else
    .ok (takeWithin size maxSize [] 0
      (log.entries.filter fun row => decide (row.index ≥ low) && decide (row.index < high)))

/-- The term of the entry at an index. -/
def termAt (log : RaftLog) (index : Nat) : Except StorageError Nat :=
  let stored : Except StorageError Nat :=
    match log.entries.find? fun row => row.index = index with
    | some row => .ok row.term
    | none => if index = 0 then .ok 0 else .error .unavailable
  match log.snapshotMeta with
  | some recorded =>
    if index = recorded.index then .ok recorded.term
    else if index < recorded.index then .error .compacted
    else stored
  | none => stored

/-- Discard entries at or below an index a snapshot covers. -/
def compactTo (log : RaftLog) (index : Nat) : Except Error RaftLog :=
  if index > log.snapshotIndex then
    .error (.invalidRequest
      s!"cannot compact to index {index}: no snapshot covers it (the recorded snapshot is at {log.snapshotIndex}). Install the snapshot first — compacting past it would discard entries nothing can replace.")
  else .ok { log with entries := log.entries.filter fun stored => !decide (stored.index ≤ index) }

section
variable {log : RaftLog} {size : Entry -> Nat} {snapshot : Snapshot}

theorem mem_takeWithin {maxSize : Option Nat} {out rows : List Entry} {bytes : Nat} {entry : Entry}
    (member : entry ∈ takeWithin size maxSize out bytes rows) : entry ∈ out ∨ entry ∈ rows := by
  induction rows generalizing out bytes with
  | nil => exact Or.inl member
  | cons row rest ih =>
    have further : entry ∈ takeWithin size maxSize (out ++ [row]) (bytes + size row) rest ->
        entry ∈ out ∨ entry ∈ row :: rest := by
      intro later
      rcases ih later with earlier | inRest
      · rcases List.mem_append.mp earlier with old | new
        · exact Or.inl old
        · rw [List.mem_singleton.mp new]
          exact Or.inr (.head _)
      · exact Or.inr (.tail _ inRest)
    cases maxSize with
    | none => exact further member
    | some limit =>
      rw [takeWithin] at member
      split at member
      · exact Or.inl member
      · exact further member

theorem entriesIn_subset {low high : Nat} {maxSize : Option Nat} {found : List Entry}
    (read : log.entriesIn size low high maxSize = .ok found) {entry : Entry} (member : entry ∈ found) :
    entry ∈ log.entries := by
  unfold entriesIn at read
  split_ifs at read
  cases read
  rcases mem_takeWithin member with impossible | kept
  · cases impossible
  · exact List.mem_of_mem_filter kept

theorem mem_installSnapshot {entry : Entry} :
    entry ∈ (log.installSnapshot snapshot).entries <->
      entry ∈ log.entries ∧ snapshot.metadata.index < entry.index := by
  simp [installSnapshot]

theorem installSnapshot_lastIndexOf (log : RaftLog) (snapshot : Snapshot) :
    (log.installSnapshot snapshot).lastIndexOf = snapshot.metadata.index ∧
        (log.installSnapshot snapshot).entries = [] ∨
      Exists fun entry : Entry => entry ∈ log.entries ∧ snapshot.metadata.index < entry.index ∧
        (log.installSnapshot snapshot).lastIndexOf = entry.index := by
  cases last : (log.installSnapshot snapshot).entries.getLast? with
  | none =>
    refine Or.inl ⟨?_, List.getLast?_eq_none_iff.mp last⟩
    rw [lastIndexOf, last]
    rfl
  | some entry =>
    have member := mem_installSnapshot.mp (List.mem_of_getLast? last)
    refine Or.inr ⟨entry, member.1, member.2, ?_⟩
    rw [lastIndexOf, last]

/-- A log that a snapshot superseded: raft finds the snapshot's index and
term at its end and none of the entries held before. -/
structure Supersedes (before after : RaftLog) (size : Entry -> Nat) (snapshot : Snapshot) : Prop where
  last : after.lastIndexOf = snapshot.metadata.index
  first : after.firstIndexOf = snapshot.metadata.index + 1
  term : after.termAt snapshot.metadata.index = .ok snapshot.metadata.term
  entries : forall held, held ∈ before.entries -> forall low high maxSize found,
    after.entriesIn size low high maxSize = .ok found -> held ∉ found
  terms : forall held, held ∈ before.entries -> after.termAt held.index ≠ .ok held.term

theorem installSnapshot_supersedes (covered : forall held, held ∈ log.entries -> held.index ≤ snapshot.metadata.index)
    (diverged : forall held, held ∈ log.entries -> held.index = snapshot.metadata.index ->
      held.term ≠ snapshot.metadata.term) :
    Supersedes log (log.installSnapshot snapshot) size snapshot := by
  have empty : (log.installSnapshot snapshot).entries = [] := by
    apply List.eq_nil_iff_forall_not_mem.mpr
    intro entry member
    rcases mem_installSnapshot.mp member with ⟨held, above⟩
    exact absurd (covered entry held) (not_le.mpr above)
  have term : (log.installSnapshot snapshot).termAt snapshot.metadata.index = .ok snapshot.metadata.term :=
    if_pos rfl
  refine ⟨?_, ?_, term, ?_, ?_⟩
  · rw [lastIndexOf, empty]
    rfl
  · rw [firstIndexOf, empty]
    rfl
  · intro held _ low high maxSize found read member
    have stored := entriesIn_subset read member
    rw [empty] at stored
    cases stored
  · intro held isHeld
    rcases Nat.lt_or_eq_of_le (covered held isHeld) with below | same
    · have gone : (log.installSnapshot snapshot).termAt held.index = .error .compacted := by
        change (if held.index = snapshot.metadata.index then _ else if held.index < snapshot.metadata.index then _
          else _) = _
        rw [if_neg (Nat.ne_of_lt below), if_pos below]
      rw [gone]
      nofun
    · rw [same, term]
      intro equal
      exact diverged held isHeld same (Except.ok.inj equal).symm

end

end RaftLog

namespace Driver

variable {Waiter : Type} {d d' : Driver Waiter} {snapshot : Snapshot}

/-- An install that succeeds has restored the state machine and recorded the
snapshot in the log. -/
theorem installReceivedSnapshot_ok (installed : installReceivedSnapshot snapshot d = .ok () d') :
    Exists fun node : Node => d.node.restoreSnapshot snapshot.data = .ok node ∧ d'.node = node ∧
      d'.log = d.log.installSnapshot snapshot := by
  have holds : Triple (fun other => other = d) (installReceivedSnapshot snapshot : Program Waiter Unit)
      (fun _ after => Exists fun node : Node => d.node.restoreSnapshot snapshot.data = .ok node ∧
        after.node = node ∧ after.log = d.log.installSnapshot snapshot) fun _ => True := by
    apply Triple.readState
    rintro here rfl
    cases outcome : here.node.restoreSnapshot snapshot.data with
    | error refusal => exact Triple.failing fun _ _ => True.intro
    | ok node =>
      rintro _ rfl
      exact ⟨node, rfl, rfl, rfl⟩
  exact holds.returns rfl installed

/-- A leader's snapshot supersedes a follower's log exactly when the log
holds no entry above the snapshot's index. -/
theorem install_supersedes_iff (size : Entry -> Nat) (d d' : Driver Waiter) (snapshot : Snapshot)
    (diverged : forall held, held ∈ d.log.entries -> held.index = snapshot.metadata.index ->
      held.term ≠ snapshot.metadata.term)
    (installed : installReceivedSnapshot snapshot d = .ok () d') :
    d.log.Supersedes d'.log size snapshot <->
      forall held, held ∈ d.log.entries -> held.index ≤ snapshot.metadata.index := by
  rcases installReceivedSnapshot_ok installed with ⟨_, _, _, same⟩
  rw [same]
  constructor
  · intro supersedes held isHeld
    by_contra above
    rcases d.log.installSnapshot_lastIndexOf snapshot with ⟨_, empty⟩ | ⟨last, _, beyond, ends⟩
    · have kept := RaftLog.mem_installSnapshot.mpr ⟨isHeld, not_le.mp above⟩
      rw [empty] at kept
      cases kept
    · rw [← ends, supersedes.last] at beyond
      exact lt_irrefl _ beyond
  · intro covered
    exact RaftLog.installSnapshot_supersedes covered diverged

/-- A member with entries up to `last` of one term, and nothing applied. -/
def follower (last term : Nat) : Driver Unit :=
  .opened 2
    { log := { RaftLog.empty with
        entries := (List.range last).map fun i => { index := i + 1, term := term, body := .normal .empty } }
      db := Db.initSchema } []

/-- A leader's snapshot at index 4 of term 3, of a member that applied a
command there. -/
def leaderSnapshot : Snapshot :=
  snapshotWith 4 3 { voters := [1, 2, 3], learners := [] } { Db.initSchema.exportSnapshot with appliedIndex := 4 }

/-- A log that ends below the snapshot. -/
theorem shortLog_superseded :
    (follower 3 2).log.Supersedes
      ((follower 3 2).log.installSnapshot leaderSnapshot) (fun _ => 1) leaderSnapshot := by
  have installed : Exists fun d' : Driver Unit =>
      installReceivedSnapshot leaderSnapshot (follower 3 2) = .ok () d' ∧
        d'.log = (follower 3 2).log.installSnapshot leaderSnapshot := by
    exact ⟨_, rfl, rfl⟩
  rcases installed with ⟨d', success, same⟩
  rw [← same]
  exact (install_supersedes_iff (fun _ => 1) (follower 3 2) d' leaderSnapshot (by decide) success).mpr (by decide)

/-- A stale log of term 2 that goes on to index 6 keeps its last two entries,
and raft reads them after the snapshot. -/
theorem longLog_not_superseded :
    (forall held, held ∈ (follower 6 2).log.entries -> held.index = leaderSnapshot.metadata.index ->
        held.term ≠ leaderSnapshot.metadata.term) ∧
      Exists fun d' : Driver Unit => installReceivedSnapshot leaderSnapshot (follower 6 2) = .ok () d' ∧
        ¬(follower 6 2).log.Supersedes d'.log (fun _ => 1) leaderSnapshot := by
  refine ⟨by decide, _, rfl, ?_⟩
  intro supersedes
  have last := supersedes.last
  revert last
  decide

end Driver

end NotK8s.Replication

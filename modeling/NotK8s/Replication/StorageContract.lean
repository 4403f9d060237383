import NotK8s.Library.Numbered
import NotK8s.Replication.LogStorage
import NotK8s.Replication.RestartReach

namespace NotK8s.Replication

open Library Nodestore

/-!
# Raft's storage contract

What raft relies on when it reads the log: consecutive indexes that begin
right after the snapshot, a term for every index from the snapshot's on, and
refusals that tell a compacted range from one that is not there yet.  The
last decides whether a follower is sent a snapshot.

Recording a snapshot overwrites the index of the last one and deletes
entries from below.  One at a lower index moves the recorded index down and
brings no entry back.
-/

/-- The calls that change what raft reads. -/
inductive LogCall where
  | append (entries : List Entry)
  | installSnapshot (snapshot : Snapshot)
  | compactTo (index : Nat)

namespace RaftLog

/-- A refused call leaves the log. -/
def call (log : RaftLog) : LogCall -> RaftLog
  | .append entries =>
    match log.append entries with
    | .ok log' => log'
    | .error _ => log
  | .installSnapshot snapshot => log.installSnapshot snapshot
  | .compactTo index =>
    match log.compactTo index with
    | .ok log' => log'
    | .error _ => log

/-- How the callers use the log.  Entries come with consecutive indexes that
leave no gap and reach no index the snapshot covers.  A snapshot of this
member's own state is at an index the log has reached. -/
def Expected (log : RaftLog) : LogCall -> Prop
  | .append [] => True
  | .append (first :: rest) =>
    Numbered Entry.index first.index (first :: rest) ∧ first.index ≤ log.lastIndexOf + 1 ∧
      log.snapshotIndex < first.index
  | .installSnapshot snapshot => snapshot.metadata.index ≤ log.lastIndexOf
  | .compactTo _ => True

instance (log : RaftLog) (call : LogCall) : Decidable (log.Expected call) := by
  cases call with
  | append entries =>
    cases entries with
    | nil => exact isTrue True.intro
    | cons first rest => exact inferInstanceAs (Decidable (_ ∧ _ ∧ _))
  | installSnapshot snapshot => exact inferInstanceAs (Decidable (_ ≤ _))
  | compactTo index => exact isTrue True.intro

/-- The answer to a read of the entries from `low` up to `high`. -/
structure ReadsEntries (log : RaftLog) (size : Entry -> Nat) (low high : Nat) (maxSize : Option Nat) : Prop where
  compacted : log.entriesIn size low high maxSize = .error .compacted <-> low < log.firstIndexOf
  unavailable : log.entriesIn size low high maxSize = .error .unavailable <->
    log.firstIndexOf ≤ low ∧ log.lastIndexOf + 1 < high
  stored : forall found, log.entriesIn size low high maxSize = .ok found ->
    found <+: log.entries.filter fun row => decide (row.index ≥ low) && decide (row.index < high)
  nonempty : forall found, log.entriesIn size low high maxSize = .ok found -> low < high -> found ≠ []
  within : forall found limit, log.entriesIn size low high maxSize = .ok found -> maxSize = some limit ->
    (found.map size).sum ≤ limit ∨ found.length = 1

structure Contract (log : RaftLog) : Prop where
  contiguous : log.entries.map Entry.index =
    List.range' log.firstIndexOf (log.lastIndexOf + 1 - log.firstIndexOf)
  first : forall recorded, log.snapshotMeta = some recorded -> log.firstIndexOf = recorded.index + 1
  answers : forall index, log.snapshotIndex ≤ index -> index ≤ log.lastIndexOf ->
    Exists fun term : Nat => log.termAt index = .ok term
  below : forall index, index < log.snapshotIndex -> log.termAt index = .error .compacted
  reads : forall size low high maxSize, log.ReadsEntries size low high maxSize

/-- The recorded snapshot stays, moves up, or stands over an empty log. -/
def KeepsSnapshot (log : RaftLog) : LogCall -> Prop
  | .installSnapshot snapshot => log.snapshotIndex ≤ snapshot.metadata.index ∨ log.entries = []
  | _ => True

/-- The entries follow the snapshot without a gap. -/
abbrev Contiguous (log : RaftLog) : Prop :=
  Numbered Entry.index (log.snapshotIndex + 1) log.entries

/-! ## Reading a contiguous log -/

section
variable {log : RaftLog} {size : Entry -> Nat}

theorem Contiguous.firstIndexOf (contiguous : log.Contiguous) : log.firstIndexOf = log.snapshotIndex + 1 := by
  unfold Contiguous at contiguous
  rw [RaftLog.firstIndexOf]
  cases held : log.entries with
  | nil =>
    rw [snapshotIndex]
    cases log.snapshotMeta <;> rfl
  | cons entry rest =>
    rw [held] at contiguous
    exact contiguous.1

theorem Contiguous.lastIndexOf (contiguous : log.Contiguous) :
    log.lastIndexOf = log.snapshotIndex + log.entries.length := by
  unfold Contiguous at contiguous
  rw [RaftLog.lastIndexOf]
  rcases List.eq_nil_or_concat log.entries with empty | ⟨front, last, split⟩
  · rw [empty]
    rfl
  · rw [split, List.concat_eq_append] at contiguous ⊢
    have ends := (numbered_append.mp contiguous).2.1
    rw [List.getLast?_concat, List.length_append, List.length_singleton]
    dsimp only
    omega

theorem takeWithin_isPrefix (maxSize : Option Nat) (out rows : List Entry) (bytes : Nat) :
    Exists fun taken : List Entry => taken <+: rows ∧ takeWithin size maxSize out bytes rows = out ++ taken := by
  induction rows generalizing out bytes with
  | nil => exact ⟨[], List.prefix_refl [], (List.append_nil out).symm⟩
  | cons row rest ih =>
    have further : Exists fun taken : List Entry => taken <+: row :: rest ∧
        takeWithin size maxSize (out ++ [row]) (bytes + size row) rest = out ++ taken := by
      rcases ih (out ++ [row]) (bytes + size row) with ⟨taken, isPrefix, same⟩
      refine ⟨row :: taken, (List.prefix_cons_inj row).mpr isPrefix, ?_⟩
      rw [same, List.append_assoc]
      rfl
    cases maxSize with
    | none => exact further
    | some limit =>
      rw [takeWithin]
      split_ifs
      · exact ⟨[], List.nil_prefix, (List.append_nil out).symm⟩
      · exact further

theorem takeWithin_ne_nil (maxSize : Option Nat) {out : List Entry} (rows : List Entry) (bytes : Nat)
    (taken : out ≠ []) : takeWithin size maxSize out bytes rows ≠ [] := by
  rcases @takeWithin_isPrefix size maxSize out rows bytes with ⟨rest, _, same⟩
  rw [same]
  exact List.append_ne_nil_of_left_ne_nil taken rest

theorem takeWithin_first (maxSize : Option Nat) (row : Entry) (rest : List Entry) (bytes : Nat) :
    takeWithin size maxSize [] bytes (row :: rest) = takeWithin size maxSize [row] (bytes + size row) rest := by
  cases maxSize with
  | none => rfl
  | some limit => rfl

theorem takeWithin_within {limit : Nat} {out rows : List Entry}
    (fits : (out.map size).sum ≤ limit ∨ out.length = 1) :
    ((takeWithin size (some limit) out (out.map size).sum rows).map size).sum ≤ limit ∨
      (takeWithin size (some limit) out (out.map size).sum rows).length = 1 := by
  induction rows generalizing out with
  | nil => exact fits
  | cons row rest ih =>
    rw [takeWithin]
    split_ifs with full
    · exact fits
    · have grown : ((out ++ [row]).map size).sum = (out.map size).sum + size row := by simp
      rw [← grown]
      apply ih
      by_cases empty : out = []
      · right
        simp [empty]
      · left
        rw [grown]
        simpa [empty] using full

theorem Contiguous.readsEntries (contiguous : log.Contiguous) (size : Entry -> Nat) (low high : Nat)
    (maxSize : Option Nat) : log.ReadsEntries size low high maxSize := by
  have first := contiguous.firstIndexOf
  have last := contiguous.lastIndexOf
  have answered : forall found, log.entriesIn size low high maxSize = .ok found ->
      log.firstIndexOf ≤ low ∧ high ≤ log.lastIndexOf + 1 ∧
        found = takeWithin size maxSize [] 0
          (log.entries.filter fun row => decide (row.index ≥ low) && decide (row.index < high)) := by
    intro found read
    unfold entriesIn at read
    split_ifs at read with early late
    exact ⟨not_lt.mp early, not_lt.mp late, (Except.ok.inj read).symm⟩
  refine ⟨?_, ?_, ?_, ?_, ?_⟩
  · unfold entriesIn
    split_ifs with early late
    · simp [early]
    · simp [early]
    · simp [early]
  · unfold entriesIn
    split_ifs with early late
    · simp [early]
    · simp only [true_iff]
      exact ⟨not_lt.mp early, late⟩
    · simp only [false_iff, not_and, not_lt]
      exact fun _ => not_lt.mp late
  · intro found read
    rcases answered found read with ⟨_, _, rfl⟩
    rcases @takeWithin_isPrefix size maxSize []
      (log.entries.filter fun row => decide (row.index ≥ low) && decide (row.index < high)) 0 with
      ⟨taken, isPrefix, same⟩
    rw [same]
    exact isPrefix
  · intro found read wanted
    rcases answered found read with ⟨early, late, rfl⟩
    have beforeEnd : low < log.snapshotIndex + 1 + log.entries.length := by omega
    rcases contiguous.find_some (first.symm.le.trans early) beforeEnd with ⟨row, _, member, here⟩
    have kept : row ∈ log.entries.filter fun row => decide (row.index ≥ low) && decide (row.index < high) := by
      simp [member, here, wanted]
    rcases List.exists_cons_of_ne_nil (List.ne_nil_of_mem kept) with ⟨head, rest, rows⟩
    rw [rows, takeWithin_first]
    exact takeWithin_ne_nil maxSize rest _ (List.cons_ne_nil head [])
  · intro found limit read limited
    rcases answered found read with ⟨_, _, rfl⟩
    subst limited
    cases log.entries.filter fun row => decide (row.index ≥ low) && decide (row.index < high) with
    | nil => exact Or.inl (Nat.zero_le limit)
    | cons head rest =>
      rw [takeWithin_first]
      have bounded := @takeWithin_within size limit [head] rest (Or.inr rfl)
      simp only [List.map_cons, List.map_nil, List.sum_cons, List.sum_nil, Nat.add_zero] at bounded
      rw [Nat.zero_add]
      exact bounded

theorem Contiguous.termAt_ok (contiguous : log.Contiguous) {index : Nat} (low : log.snapshotIndex ≤ index)
    (high : index ≤ log.lastIndexOf) : Exists fun term : Nat => log.termAt index = .ok term := by
  have last := contiguous.lastIndexOf
  -- The index is the snapshot's, or the start of an empty log, or an entry's.
  have entry : log.snapshotIndex < index -> Exists fun row : Entry =>
      log.entries.find? (fun other => decide (other.index = index)) = some row := by
    intro above
    have within : index < log.snapshotIndex + 1 + log.entries.length := by omega
    rcases contiguous.find_some above within with ⟨row, found, _⟩
    exact ⟨row, found⟩
  unfold termAt
  cases recorded : log.snapshotMeta with
  | none =>
    have start : log.snapshotIndex = 0 := by rw [snapshotIndex, recorded]; rfl
    by_cases zero : index = 0
    · cases log.entries.find? fun row => decide (row.index = index) with
      | none => exact ⟨0, if_pos zero⟩
      | some row => exact ⟨row.term, rfl⟩
    · rcases entry (by omega) with ⟨row, found⟩
      exact ⟨row.term, by simp only [found]⟩
  | some noted =>
    have start : log.snapshotIndex = noted.index := by rw [snapshotIndex, recorded]; rfl
    by_cases same : index = noted.index
    · exact ⟨noted.term, if_pos same⟩
    · rcases entry (by omega) with ⟨row, found⟩
      refine ⟨row.term, ?_⟩
      dsimp only
      rw [if_neg same, if_neg (by omega), found]

theorem termAt_compacted {index : Nat} (below : index < log.snapshotIndex) :
    log.termAt index = .error .compacted := by
  unfold termAt
  cases recorded : log.snapshotMeta with
  | none =>
    rw [snapshotIndex, recorded] at below
    exact absurd below (Nat.not_lt_zero index)
  | some noted =>
    rw [snapshotIndex, recorded] at below
    have less : index < noted.index := below
    dsimp only
    rw [if_neg (Nat.ne_of_lt less), if_pos less]

theorem Contiguous.contract (contiguous : log.Contiguous) : log.Contract := by
  have first := contiguous.firstIndexOf
  have last := contiguous.lastIndexOf
  refine ⟨?_, ?_, fun _ => contiguous.termAt_ok, fun _ => termAt_compacted, contiguous.readsEntries⟩
  · have length : log.lastIndexOf + 1 - log.firstIndexOf = log.entries.length := by omega
    rw [length, first]
    exact numbered_iff_map.mp contiguous
  · intro recorded isRecorded
    rw [first, snapshotIndex, isRecorded]
    rfl

end

/-! ## What a call leaves -/

section
variable {log : RaftLog}

section

variable (contiguous : log.Contiguous)
include contiguous

theorem contiguous_append {entries : List Entry}
    (expected : log.Expected (.append entries)) : (log.call (.append entries)).Contiguous := by
  cases entries with
  | nil => exact contiguous
  | cons first rest =>
    rcases expected with ⟨numbered, reached, above⟩
    have last := contiguous.lastIndexOf
    have result : log.call (.append (first :: rest)) =
        { log with
          entries := (log.entries.filter fun stored => !decide (stored.index ≥ first.index)) ++ first :: rest } := by
      rw [call, append_eq numbered.keySorted]
    rcases @Numbered.filter_below _ _ _ _ contiguous first.index with ⟨kept, length⟩
    have next : log.snapshotIndex + 1 +
        (log.entries.filter fun stored => !decide (stored.index ≥ first.index)).length = first.index := by omega
    rw [result]
    apply numbered_append.mpr
    refine ⟨kept, ?_⟩
    change Numbered Entry.index (log.snapshotIndex + 1 + _) _
    rw [next]
    exact numbered

theorem contiguous_installSnapshot {snapshot : Snapshot}
    (keeps : log.KeepsSnapshot (.installSnapshot snapshot)) : (log.installSnapshot snapshot).Contiguous := by
  rcases keeps with forward | empty
  · exact Numbered.filter_above contiguous (Nat.succ_le_succ forward)
  · have none : (log.installSnapshot snapshot).entries = [] := by simp [installSnapshot, empty]
    rw [Contiguous, none]
    exact True.intro

theorem call_compactTo {index : Nat} : log.call (.compactTo index) = log := by
  rw [call, compactTo]
  by_cases beyond : index > log.snapshotIndex
  · rw [if_pos beyond]
  · rw [if_neg beyond]
    have all : forall row, row ∈ log.entries -> (!decide (row.index ≤ index)) = true := by
      intro row member
      have bounds := Numbered.mem_bounds contiguous member
      simp only [Bool.not_eq_true', decide_eq_false_iff_not]
      omega
    simp only [List.filter_eq_self.mpr all]

theorem contiguous_call {call : LogCall} (expected : log.Expected call)
    (keeps : log.KeepsSnapshot call) : (log.call call).Contiguous := by
  cases call with
  | append entries => exact contiguous_append contiguous expected
  | installSnapshot snapshot => exact contiguous_installSnapshot contiguous keeps
  | compactTo index =>
    rw [call_compactTo contiguous]
    exact contiguous

theorem keepsSnapshot_of_contract {call : LogCall}
    (holds : (log.call call).Contract) : log.KeepsSnapshot call := by
  cases call with
  | append entries | compactTo index => exact True.intro
  | installSnapshot snapshot =>
    cases held : log.entries with
    | nil => exact Or.inr held
    | cons entry rest =>
      left
      by_contra lower
      have begins : entry.index = log.snapshotIndex + 1 := by
        have numbered := contiguous
        rw [Contiguous, held] at numbered
        exact numbered.1
      have remains : (log.installSnapshot snapshot).firstIndexOf = entry.index := by
        have above : ¬entry.index ≤ snapshot.metadata.index := by omega
        simp [firstIndexOf, installSnapshot, held, above]
      have first := holds.first snapshot.metadata rfl
      change (log.installSnapshot snapshot).firstIndexOf = _ at first
      omega

end

end

/-- The log meets the contract through a sequence of calls exactly when no
snapshot is recorded below the last one while the log holds entries. -/
theorem contract_iff_keepsSnapshot (calls : List LogCall) (expected : EveryStep call Expected empty calls) :
    AlongRun call Contract empty calls <-> EveryStep call KeepsSnapshot empty calls := by
  have initial : empty.Contiguous := True.intro
  apply @alongRun_iff_everyStep RaftLog LogCall call Contiguous Contract Expected KeepsSnapshot
  · exact fun _ _ contiguous expected keeps => contiguous_call contiguous expected keeps
  · exact fun _ contiguous => contiguous.contract
  · exact fun _ _ contiguous _ holds => keepsSnapshot_of_contract contiguous holds
  · exact initial
  · exact expected

def entryAt (index : Nat) : Entry where
  index := index
  term := 1
  body := .normal .empty

def ownSnapshot (index : Nat) : Snapshot :=
  snapshotWith index 1 ConfState.default Db.initSchema.exportSnapshot

/-- Eight entries, a snapshot at five, and a compaction to it. -/
def compactedCalls : List LogCall :=
  [.append ((List.range 8).map fun i => entryAt (i + 1)), .installSnapshot (ownSnapshot 5), .compactTo 5]

theorem compactedCalls_contract : AlongRun call Contract empty compactedCalls :=
  (contract_iff_keepsSnapshot compactedCalls (by decide)).mpr
    ⟨True.intro, Or.inl (by decide), True.intro, True.intro⟩

/-- A second snapshot at index three: the log begins at index six. -/
theorem lowerSnapshot_not_contract :
    EveryStep call Expected empty (compactedCalls ++ [.installSnapshot (ownSnapshot 3)]) ∧
      ¬AlongRun call Contract empty (compactedCalls ++ [.installSnapshot (ownSnapshot 3)]) := by
  refine ⟨by decide, ?_⟩
  intro along
  have first := along.finish.first (ownSnapshot 3).metadata rfl
  revert first
  decide

end RaftLog

end NotK8s.Replication

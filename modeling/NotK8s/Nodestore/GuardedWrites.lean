import NotK8s.Nodestore.Compaction
import NotK8s.Nodestore.TxnReads

namespace NotK8s.Nodestore

open Library

/-!
# Guarded writes

The API server reads a key and puts it in a transaction that compares the
key's revision with the one it read, or with zero for a key that was not live.
-/

def revisionOf (pair : Option KeyValue) : Int :=
  (pair.getD default).modRevision

/-- A put that is to replace the pair that was read. -/
def guardedPut (key value : Bytes) (read : Option KeyValue) : TxnOp where
  compare := [⟨key, .equal, .modRevision (revisionOf read)⟩]
  success := [.put ⟨key, value, 0, false, false, false⟩]
  failure := []

/-- What a client that read a pair knows of the key from then on. -/
structure Db.Remembers (db : Db) (key : Bytes) (read : Option KeyValue) : Prop where
  known : revisionOf read ≤ db.revision
  absent : revisionOf read = 0 -> read = none
  same : revisionOf (currentIn db.kv key) = revisionOf read -> currentIn db.kv key = read

variable {db : Db} {s : Store} {key : Bytes} {read : Option KeyValue}

theorem Db.WellFormed.remembers (wellFormed : db.WellFormed) : db.Remembers key (currentIn db.kv key) := by
  cases current : currentIn db.kv key with
  | none => exact ⟨zero_le_one.trans wellFormed.started, fun _ => rfl, fun _ => current⟩
  | some pair =>
    rcases Option.bind_eq_some_iff.mp current with ⟨row, newest, alive⟩
    have stored := (newestOf_spec newest).1
    have revision : pair.modRevision = row.revision := (KvRow.live_key alive).2
    refine ⟨revision.trans_le (wellFormed.below row stored), fun zero => ?_, fun _ => current⟩
    have positive := wellFormed.positive row stored
    have named : pair.modRevision = 0 := zero
    omega

/-- The pair of a key after some writes is the one before, or was written by
them. -/
theorem Writes.currentIn_or {kv kv' : List KvRow} {w w' : Writer} (writes : Writes kv w kv' w')
    (fresh : FreshWriter kv w) : currentIn kv' key = currentIn kv key ∨ currentIn kv' key = none ∨
      revisionOf (currentIn kv' key) = w.next := by
  induction writes with
  | refl => exact Or.inl rfl
  | tail sofar step ih =>
    rcases step.row_event with ⟨row, event, rfl, rfl, revision, sub, _⟩
    rw [currentIn_concat (fresh.writes sofar) revision sub]
    split_ifs with here
    · unfold KvRow.live
      split_ifs
      · exact Or.inr (Or.inl rfl)
      · exact Or.inr (Or.inr (revision.trans sofar.next_eq))
    · exact ih

theorem Db.Remembers.after (remembers : s.db.Remembers key read) (wellFormed : s.db.WellFormed)
    (entry : Nat × Command) : (s.after entry).db.Remembers key read := by
  have grows := (after_wellFormed wellFormed entry).2
  refine ⟨remembers.known.trans grows, remembers.absent, ?_⟩
  cases outcome : s.applyAt entry.1 entry.2 with
  | error refusal =>
    rw [Store.after_error outcome]
    exact remembers.same
  | ok result =>
    rw [Store.after_ok outcome]
    rcases wellFormed.accepted outcome with ⟨tx, w, accepted⟩
    rw [accepted.db]
    have effect := accepted.effect
    generalize entry.2 = cmd at effect
    cases effect with
    | compact above reached =>
      dsimp only
      rw [currentIn_pruneRows wellFormed.distinct]
      exact remembers.same
    | writes written _ =>
      rcases @Writes.currentIn_or key _ _ _ _ written wellFormed.freshWriter with same | none | written
      · dsimp only
        rw [same]
        exact remembers.same
      · dsimp only
        rw [none]
        exact fun zero => (remembers.absent zero.symm).symm
      · intro equal
        have known := remembers.known
        have next : revisionOf (currentIn tx.kv key) = s.db.revision + 1 := written
        have here : revisionOf (currentIn tx.kv key) = revisionOf read := equal
        omega

theorem remembers_run (wellFormed : s.db.WellFormed) (remembers : s.db.Remembers key read)
    (entries : List (Nat × Command)) :
    (entries.foldl Store.after s).db.WellFormed ∧ (entries.foldl Store.after s).db.Remembers key read :=
  List.foldlRecOn (motive := fun s => s.db.WellFormed ∧ s.db.Remembers key read) entries Store.after
    ⟨wellFormed, remembers⟩ fun _ both entry _ => ⟨(after_wellFormed both.1 entry).1, both.2.after both.1 entry⟩

theorem guard_holds {value : Bytes} (remembers : s.db.Remembers key read) :
    (guardedPut key value read).compare.all (evaluateCompare s.db.kv) = decide (currentIn s.db.kv key = read) := by
  have compared : (guardedPut key value read).compare.all (evaluateCompare s.db.kv) =
      ((cmp (revisionOf (currentIn s.db.kv key)) (revisionOf read)).isEq && true) := rfl
  rw [compared, Bool.and_true, Bool.eq_iff_iff, decide_eq_true_iff, Ordering.isEq_iff_eq_eq, cmp_eq_eq_iff]
  exact ⟨remembers.same, congrArg revisionOf⟩

/-- Whatever is written between the read and the write, a guarded put takes
effect exactly when the key still has the pair that was read.  It then writes
this one key, and leaves every pair as it is otherwise. -/
theorem guardedPut_exact (earlier later : List (Nat × Command)) (index : Nat) (key value : Bytes) :
    let before := earlier.foldl Store.after Store.fresh
    let now := later.foldl Store.after before
    let read := currentIn before.db.kv key
    Exists fun applied : Applied => Exists fun written : Store =>
      now.applyAt index (.txn (guardedPut key value read)) = .ok (applied, written) ∧
        if currentIn now.db.kv key = read then
          applied.response = .txn true [.put none] ∧ written.db.revision = now.db.revision + 1 ∧
            (currentIn written.db.kv key).map (fun pair => (pair.value, pair.modRevision)) =
              some (value, written.db.revision) ∧
            forall other, other ≠ key -> currentIn written.db.kv other = currentIn now.db.kv other
        else applied.response = .txn false [] ∧ written.db.revision = now.db.revision ∧ written.db.kv = now.db.kv := by
  intro before now read
  have started := (remembers_run (s := Store.fresh) Db.initSchema_wellFormed
    (@Db.WellFormed.remembers _ key Db.initSchema_wellFormed) earlier).1
  have run := remembers_run started (@Db.WellFormed.remembers _ key started) later
  have guard := @guard_holds now key read value run.2
  let w := Writer.opened now.db.revision
  have fresh : FreshWriter now.db.kv w := run.1.freshWriter
  by_cases still : currentIn now.db.kv key = read
  · let row := putRow now.db.kv w key value 0
    let event := putEvent now.db.kv w key value 0
    have put : applyPut now.db.kv w ⟨key, value, 0, false, false, false⟩ =
        .ok (none, now.db.kv ++ [row], w.wrote event) := applyPut_eq fresh _
    have ran : runRequests now.db.revision ((guardedPut key value read).branch now.db.kv) now.db.kv w =
        .ok ([.put none], now.db.kv ++ [row], w.wrote event) := by
      rw [TxnOp.branch, guard, decide_eq_true still, if_pos rfl]
      simp only [guardedPut, runRequests, put]
      rfl
    rcases @applyAt_branch now index _ _ _ _ ran with ⟨applied, written, done, answer, rows, revision⟩
    have current := fun other => @currentIn_concat now.db.kv w fresh row rfl rfl other
    refine ⟨applied, written, done, ?_⟩
    rw [if_pos still, answer, guard, decide_eq_true still, rows, revision]
    refine ⟨rfl, rfl, ?_, fun other apart => (current other).trans (if_neg (Ne.symm apart))⟩
    rw [(current key).trans (if_pos rfl)]
    rfl
  · have ran : runRequests now.db.revision ((guardedPut key value read).branch now.db.kv) now.db.kv w =
        .ok ([], now.db.kv, w) := by
      rw [TxnOp.branch, guard, decide_eq_false still, if_neg Bool.false_ne_true]
      rfl
    rcases @applyAt_branch now index _ _ _ _ ran with ⟨applied, written, done, answer, rows, revision⟩
    refine ⟨applied, written, done, ?_⟩
    rw [if_neg still, answer, guard, decide_eq_false still]
    exact ⟨rfl, revision, rows⟩

end NotK8s.Nodestore

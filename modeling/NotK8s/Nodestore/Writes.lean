import NotK8s.Library.Keyed
import NotK8s.Nodestore.Store
import NotK8s.Nodestore.Queries

namespace NotK8s.Nodestore

open Library

/-!
# Writes to the version table

A transaction writes one row after the other.  A write is a row with a fresh
stamp together with the event published for it, and everything a command
does to the version table, short of compacting it, is a sequence of writes.
The invariants of the table are proved for one write and lifted to sequences
by the induction packaged here.
-/

/-! ## Single writes -/

/-- The row a put writes.  A key that is not live starts over. -/
def putRow (kv : List KvRow) (w : Writer) (key value : Bytes) (lease : Int) : KvRow :=
  let prev := currentIn kv key
  { revision := w.next, sub := w.sub, key := key, value := some value,
    createRevision := (prev.map KeyValue.createRevision).getD w.next,
    version := (prev.map fun p => p.version + 1).getD 1,
    lease := lease, deleted := false,
    prevRevision := (prev.map KeyValue.modRevision).getD 0 }

def putEvent (kv : List KvRow) (w : Writer) (key value : Bytes) (lease : Int) : Event where
  kind := .put
  kv := (putRow kv w key value lease).toKeyValue
  prevKv := currentIn kv key

def tombstoneRow (w : Writer) (prev : KeyValue) : KvRow where
  revision := w.next
  sub := w.sub
  key := prev.key
  value := none
  createRevision := 0
  version := 0
  lease := 0
  deleted := true
  prevRevision := prev.modRevision

def deleteEvent (w : Writer) (prev : KeyValue) : Event where
  kind := .delete
  kv := { (default : KeyValue) with key := prev.key, modRevision := w.next }
  prevKv := some prev

/-- The writer after one write. -/
def Writer.wrote (w : Writer) (event : Event) : Writer where
  next := w.next
  sub := w.sub + 1
  used := true
  events := w.events ++ [event]

@[simp] theorem Writer.wrote_next (w : Writer) (event : Event) : (w.wrote event).next = w.next := rfl
@[simp] theorem Writer.wrote_sub (w : Writer) (event : Event) : (w.wrote event).sub = w.sub + 1 := rfl
@[simp] theorem Writer.wrote_used (w : Writer) (event : Event) : (w.wrote event).used = true := rfl
@[simp] theorem Writer.wrote_events (w : Writer) (event : Event) :
    (w.wrote event).events = w.events ++ [event] := rfl

/-- One write inside a transaction. -/
inductive WriteStep (kv : List KvRow) (w : Writer) : List KvRow -> Writer -> Prop where
  | put (key value : Bytes) (lease : Int) :
      WriteStep kv w (kv ++ [putRow kv w key value lease]) (w.wrote (putEvent kv w key value lease))
  | delete (prev : KeyValue) (current : currentIn kv prev.key = some prev) :
      WriteStep kv w (kv ++ [tombstoneRow w prev]) (w.wrote (deleteEvent w prev))

/-- Any number of writes, one after the other. -/
inductive Writes (kv : List KvRow) (w : Writer) : List KvRow -> Writer -> Prop where
  | refl : Writes kv w kv w
  | tail {kv₁ kv₂ : List KvRow} {w₁ w₂ : Writer} :
      Writes kv w kv₁ w₁ -> WriteStep kv₁ w₁ kv₂ w₂ -> Writes kv w kv₂ w₂

theorem Writes.single {kv kv' : List KvRow} {w w' : Writer} (step : WriteStep kv w kv' w') :
    Writes kv w kv' w' :=
  .tail .refl step

theorem Writes.trans {kv₁ kv₂ kv₃ : List KvRow} {w₁ w₂ w₃ : Writer}
    (first : Writes kv₁ w₁ kv₂ w₂) (second : Writes kv₂ w₂ kv₃ w₃) : Writes kv₁ w₁ kv₃ w₃ := by
  induction second with
  | refl => exact first
  | tail _ step ih => exact .tail ih step

/-- The writer's next stamp is above every stored stamp. -/
def FreshWriter (kv : List KvRow) (w : Writer) : Prop :=
  forall row, row ∈ kv -> row.revision < w.next ∨ row.revision = w.next ∧ row.sub < w.sub

theorem FreshWriter.of_revision_le {kv : List KvRow} {revision : Int} {sub : Nat} {used : Bool}
    {events : List Event} (below : forall row, row ∈ kv -> row.revision ≤ revision) :
    FreshWriter kv { next := revision + 1, sub := sub, used := used, events := events } := by
  intro row member
  have bound := below row member
  exact Or.inl (by simp only; omega)

section
variable {kv kv' : List KvRow} {w w' : Writer}

theorem WriteStep.row_event (step : WriteStep kv w kv' w') :
    Exists fun row : KvRow => Exists fun event : Event =>
      kv' = kv ++ [row] ∧ w' = w.wrote event ∧ row.revision = w.next ∧ row.sub = w.sub ∧
        event.kv.key = row.key ∧ event.kv.modRevision = w.next := by
  cases step with
  | put key value lease | delete prev current => exact ⟨_, _, rfl, rfl, rfl, rfl, rfl, rfl⟩

theorem FreshWriter.stamp_lt (fresh : FreshWriter kv w) {row : KvRow} (revision : row.revision = w.next)
    (sub : row.sub = w.sub) {stored : KvRow} (member : stored ∈ kv) : stored.stamp < row.stamp := by
  rw [KvRow.stamp_lt_iff, revision, sub]
  exact fresh stored member

theorem FreshWriter.concat (fresh : FreshWriter kv w) {row : KvRow} (revision : row.revision = w.next)
    (sub : row.sub = w.sub) (event : Event) : FreshWriter (kv ++ [row]) (w.wrote event) := by
  intro stored member
  rw [Writer.wrote_next, Writer.wrote_sub]
  rcases List.mem_append.mp member with old | new
  · rcases fresh stored old with less | ⟨equal, less⟩
    · exact Or.inl less
    · exact Or.inr ⟨equal, by omega⟩
  · rw [List.mem_singleton] at new
    subst stored
    exact Or.inr ⟨revision, by omega⟩

theorem FreshWriter.distinct_concat (fresh : FreshWriter kv w) (distinct : DistinctStamps KvRow.stamp kv)
    {row : KvRow} (revision : row.revision = w.next) (sub : row.sub = w.sub) :
    DistinctStamps KvRow.stamp (kv ++ [row]) :=
  distinct.concat fun _ member => fresh.stamp_lt revision sub member

theorem FreshWriter.step (fresh : FreshWriter kv w) (step : WriteStep kv w kv' w') :
    FreshWriter kv' w' := by
  rcases step.row_event with ⟨row, event, rfl, rfl, revision, sub, _, _⟩
  exact fresh.concat revision sub event

theorem distinct_of_writeStep (distinct : DistinctStamps KvRow.stamp kv) (fresh : FreshWriter kv w)
    (step : WriteStep kv w kv' w') : DistinctStamps KvRow.stamp kv' := by
  rcases step.row_event with ⟨row, event, rfl, rfl, revision, sub, _, _⟩
  exact fresh.distinct_concat distinct revision sub

theorem FreshWriter.writes (fresh : FreshWriter kv w) (writes : Writes kv w kv' w') :
    FreshWriter kv' w' := by
  induction writes with
  | refl => exact fresh
  | tail _ step ih => exact ih.step step

theorem distinct_of_writes (distinct : DistinctStamps KvRow.stamp kv) (fresh : FreshWriter kv w)
    (writes : Writes kv w kv' w') : DistinctStamps KvRow.stamp kv' := by
  induction writes with
  | refl => exact distinct
  | tail earlier step ih =>
    exact distinct_of_writeStep ih (fresh.writes earlier) step

section

variable (writes : Writes kv w kv' w')
include writes

theorem Writes.sorted (fresh : FreshWriter kv w)
    (sorted : KeySorted KvRow.stamp kv) : KeySorted KvRow.stamp kv' := by
  induction writes with
  | refl => exact sorted
  | tail earlier step ih =>
    have freshNow := fresh.writes earlier
    rcases step.row_event with ⟨row, event, rfl, rfl, revision, sub, _, _⟩
    refine List.pairwise_append.mpr ⟨ih, List.pairwise_singleton _ _, ?_⟩
    intro stored member last lastMem
    rw [List.mem_singleton.mp lastMem]
    exact freshNow.stamp_lt revision sub member

theorem Writes.next_eq : w'.next = w.next := by
  induction writes with
  | refl => rfl
  | tail _ step ih =>
    rcases step.row_event with ⟨row, event, rfl, rfl, _⟩
    exact ih

/-- What was written lies at the writer's revision, behind the old rows. -/
theorem Writes.rows :
    Exists fun rows : List KvRow =>
      kv' = kv ++ rows ∧ forall row, row ∈ rows -> row.revision = w.next := by
  induction writes with
  | refl => exact ⟨[], (List.append_nil kv).symm, nofun⟩
  | tail earlier step ih =>
    rcases ih with ⟨rows, rfl, revisions⟩
    rcases step.row_event with ⟨row, event, rfl, rfl, revision, _⟩
    refine ⟨rows ++ [row], List.append_assoc .., ?_⟩
    intro other member
    rcases List.mem_append.mp member with old | new
    · exact revisions other old
    · rw [List.mem_singleton] at new
      rw [new, revision, earlier.next_eq]

theorem Writes.used_iff (unused : w.used = false) (silent : w.events = []) :
    w'.used = true <-> w'.events ≠ [] := by
  cases writes with
  | refl => simp [unused, silent]
  | tail earlier step =>
    rcases step.row_event with ⟨row, event, rfl, rfl, _⟩
    simp

theorem Writes.eq_of_unused (unused : w'.used = false) :
    kv' = kv ∧ w' = w := by
  cases writes with
  | refl => exact ⟨rfl, rfl⟩
  | tail earlier step =>
    rcases step.row_event with ⟨row, event, rfl, rfl, _⟩
    cases unused

/-! ## Reads after a write -/

end

section

variable (fresh : FreshWriter kv w)
include fresh

theorem newestOf_concat {row : KvRow} (revision : row.revision = w.next)
    (sub : row.sub = w.sub) (asOf : Option Int) (key : Bytes) :
    newestOf (kv ++ [row]) asOf key =
      if row.key = key ∧ row.within asOf = true then some row else newestOf kv asOf key := by
  have answer := @newest_concat _ _ _ KvRow.stamp (fun row => decide (row.key = key) && row.within asOf) kv row
    fun stored member => fresh.stamp_lt revision sub member
  simp only [Bool.and_eq_true, decide_eq_true_eq] at answer
  exact answer

theorem visible_concat {row : KvRow} (revision : row.revision = w.next)
    (sub : row.sub = w.sub) {r : Int} (reached : w.next ≤ r) (key : Bytes) :
    visible (kv ++ [row]) (some r) key = if row.key = key then row.live else visible kv (some r) key := by
  have inside : row.within (some r) = true := decide_eq_true (revision.le.trans reached)
  unfold visible
  rw [newestOf_concat fresh revision sub, inside]
  by_cases same : row.key = key
  · rw [if_pos ⟨same, rfl⟩, if_pos same]
    rfl
  · rw [if_neg (fun both => same both.1), if_neg same]

theorem visible_concat_earlier {row : KvRow} (revision : row.revision = w.next)
    (sub : row.sub = w.sub) {r : Int} (earlier : r < w.next) (key : Bytes) :
    visible (kv ++ [row]) (some r) key = visible kv (some r) key := by
  unfold visible
  rw [newestOf_concat fresh revision sub, if_neg]
  rintro ⟨_, inside⟩
  have bound : row.revision ≤ r := of_decide_eq_true inside
  rw [revision] at bound
  exact absurd earlier (not_lt.mpr bound)

theorem FreshWriter.le_next {row : KvRow} (member : row ∈ kv) :
    row.revision ≤ w.next := by
  rcases fresh row member with less | equal
  · exact less.le
  · exact equal.1.le

theorem currentIn_concat {row : KvRow} (revision : row.revision = w.next)
    (sub : row.sub = w.sub) (key : Bytes) :
    currentIn (kv ++ [row]) key = if row.key = key then row.live else currentIn kv key := by
  rw [currentIn_eq_visible, visible, newestOf_concat fresh revision sub, KvRow.within_none]
  by_cases same : row.key = key
  · rw [if_pos ⟨same, rfl⟩, if_pos same]
    rfl
  · rw [if_neg (fun both => same both.1), if_neg same]
    rfl

end

theorem Writes.newestOf_earlier (writes : Writes kv w kv' w') (fresh : FreshWriter kv w) {r : Int}
    (earlier : r < w.next) (key : Bytes) : newestOf kv' (some r) key = newestOf kv (some r) key := by
  induction writes with
  | refl => rfl
  | tail sofar step ih =>
    rcases step.row_event with ⟨row, event, rfl, rfl, revision, sub, _⟩
    rw [newestOf_concat (fresh.writes sofar) revision sub, if_neg, ih]
    rintro ⟨_, inside⟩
    have bound : row.revision ≤ r := of_decide_eq_true inside
    rw [revision, sofar.next_eq] at bound
    exact absurd earlier (not_lt.mpr bound)

theorem Writes.visible_earlier (writes : Writes kv w kv' w') (fresh : FreshWriter kv w) {r : Int}
    (earlier : r < w.next) (key : Bytes) : visible kv' (some r) key = visible kv (some r) key := by
  unfold visible
  rw [writes.newestOf_earlier fresh earlier]

theorem Writes.newestOf_untouched (writes : Writes kv w kv' w') (fresh : FreshWriter kv w) {key : Bytes}
    (untouched : forall event, event ∈ w'.events -> event.kv.key ≠ key) (asOf : Option Int) :
    newestOf kv' asOf key = newestOf kv asOf key := by
  induction writes with
  | refl => rfl
  | tail sofar step ih =>
    rcases step.row_event with ⟨row, event, rfl, rfl, revision, sub, named, _⟩
    rw [newestOf_concat (fresh.writes sofar) revision sub, if_neg]
    · exact ih fun other member =>
        untouched other (List.mem_append_left _ member)
    · rintro ⟨same, _⟩
      exact untouched event (List.mem_append_right _ (List.mem_singleton_self event)) (named.trans same)

end
end NotK8s.Nodestore

import NotK8s.Nodestore.RbacCache
import NotK8s.Nodestore.Replay
import NotK8s.Nodestore.SnapshotRoundTrip

namespace NotK8s.Nodestore

open Library

/-!
# The history of a restored replica

A snapshot carries the live pairs and the compaction point of its source, and
none of the versions in between.  The restored replica therefore accepts the
same revisions as its source and answers them from the live pairs alone.  A
read is still right when everything the source shows at that revision is
still current, and a replay when every row it covers is the live, only
version of its key.
-/

section
variable {s target t : Store}

/-- A read at `r` on the replica is refused as compacted or answers as on
the source. -/
def HonestRead (s t : Store) (r : Int) (range : KeyRange) : Prop :=
  forall q : RangeQuery, q.range = range -> q.revision = r ->
    (t.range q).1 = .error (.compacted t.db.compactRevision) ∨ (t.range q).1 = (s.range q).1

def HonestReplay (s t : Store) (since : Int) (range : KeyRange) : Prop :=
  t.db.eventsSince since range = .error (.compacted t.db.compactRevision) ∨
    t.db.eventsSince since range = s.db.eventsSince since range

/-- Every pair of the range visible at `r` is still current. -/
def StillCurrent (kv : List KvRow) (r : Int) (range : KeyRange) : Prop :=
  forall key pair, range.contains key = true -> visible kv (some r) key = some pair ->
    currentIn kv key = some pair

/-- The list the source would serve from its cache is the one it stores. -/
def ServesStored (s : Store) (r : Int) (range : KeyRange) : Prop :=
  forall result, s.cachedList (plainRead range r) r = some result ->
    result = rangeIn s.db.kv range (some r) (plainRead range r)

/-- The rows of the range after `since` are each the live version of their
key, replay without a previous value, and lie in key order within a
revision. -/
structure OnlyCreations (kv : List KvRow) (since : Int) (range : KeyRange) : Prop where
  current : forall row, row ∈ kv -> range.contains row.key = true -> since < row.revision ->
    newestOf kv none row.key = some row ∧ row.deleted = false
  created : forall row, row ∈ kv -> range.contains row.key = true -> since < row.revision ->
    rowAt kv row.key row.prevRevision = none
  keyOrder : forall first, first ∈ kv -> forall second, second ∈ kv ->
    range.contains first.key = true -> range.contains second.key = true -> since < first.revision ->
      first.revision = second.revision -> first.sub < second.sub -> first.key < second.key

/-! ## Reads -/

theorem visible_restored_export (wellFormed : s.db.WellFormed)
    (distinct : DistinctStamps KvRow.stamp s.db.exportSnapshot.restored.kv) {r : Int} {key : Bytes}
    {pair : KeyValue} :
    visible s.db.exportSnapshot.restored.kv (some r) key = some pair <->
      currentIn s.db.kv key = some pair ∧ pair.modRevision ≤ r := by
  change visible (restoredRows s.db.exportSnapshot.kvs i64Min 0) (some r) key = some pair <-> _
  rw [visible_restored (export_sorted wellFormed.distinct) distinct, mem_export wellFormed.below]
  constructor
  · rintro ⟨current, rfl, inside⟩
    exact ⟨current, of_decide_eq_true inside⟩
  · rintro ⟨current, inside⟩
    have same := visible_key ((currentIn_eq_visible s.db.kv key).symm.trans current)
    subst same
    exact ⟨current, rfl, decide_eq_true inside⟩

theorem visible_of_current {kv : List KvRow} (distinct : DistinctStamps KvRow.stamp kv) {r : Int}
    {key : Bytes} {pair : KeyValue} (current : currentIn kv key = some pair) (inside : pair.modRevision ≤ r) :
    visible kv (some r) key = some pair := by
  rcases Option.bind_eq_some_iff.mp current with ⟨row, found, alive⟩
  have spec := (newestOf_eq_some_iff distinct).mp found
  refine Option.bind_eq_some_iff.mpr ⟨row, (newestOf_eq_some_iff distinct).mpr ?_, alive⟩
  rw [(KvRow.live_key alive).2] at inside
  exact ⟨spec.1, spec.2.1, decide_eq_true inside, fun other member same _ => spec.2.2.2 other member same rfl⟩

theorem visible_restored_eq_iff (wellFormed : s.db.WellFormed)
    (distinct : DistinctStamps KvRow.stamp s.db.exportSnapshot.restored.kv) {r : Int} {range : KeyRange} :
    (forall key, range.contains key = true ->
      visible s.db.exportSnapshot.restored.kv (some r) key = visible s.db.kv (some r) key) <->
      StillCurrent s.db.kv r range := by
  constructor
  · intro same key pair inside seen
    rw [← same key inside] at seen
    exact ((visible_restored_export wellFormed distinct).mp seen).1
  · intro still key inside
    refine Option.ext fun pair => ?_
    rw [visible_restored_export wellFormed distinct]
    constructor
    · rintro ⟨current, older⟩
      exact visible_of_current wellFormed.distinct current older
    · intro seen
      exact ⟨still key pair inside seen, visible_modRevision_le seen⟩

/-- A read that the cache never answers: the plain list, sorted by key. -/
def sortedRead (range : KeyRange) (r : Int) : RangeQuery :=
  { plainRead range r with sort := some { target := .key, ascending := true } }

theorem mem_sortedRead {kv : List KvRow} {asOf : Option Int} {range : KeyRange} {r : Int} {pair : KeyValue} :
    pair ∈ (rangeIn kv range asOf (sortedRead range r)).kvs <->
      range.contains pair.key = true ∧ visible kv asOf pair.key = some pair := by
  unfold rangeIn
  rw [pageOf_listing rfl]
  have same : trim (sortedRead range r) = id := rfl
  have unlimited : ¬ (sortedRead range r).limit > 0 := lt_irrefl 0
  rw [same, List.map_id, if_neg unlimited, List.mem_insertionSort, mem_selectIn_map]

theorem cachedList_sortedRead (s : Store) (range : KeyRange) (r asOf : Int) :
    s.cachedList (sortedRead range r) asOf = none := by
  unfold Store.cachedList
  cases rbacListPrefix (sortedRead range r).range with
  | none => rfl
  | some stem => rfl

theorem range_refused {s : Store} {q : RangeQuery} {refusal : Error}
    (refused : s.db.readRevision q = .error refusal) : (s.range q).1 = .error refusal := by
  unfold Store.range
  rw [refused]

theorem honestRead_iff (wellFormed : s.db.WellFormed) (db : t.db = s.db.exportSnapshot.restored)
    (empty : t.rbacCache = fun _ => none)
    (distinct : DistinctStamps KvRow.stamp s.db.exportSnapshot.restored.kv) {r : Int} (historical : 0 < r)
    (range : KeyRange) :
    HonestRead s t r range <->
      (s.db.compactRevision < r -> r ≤ s.db.revision ->
        StillCurrent s.db.kv r range ∧ ServesStored s r range) := by
  have sameSelection : forall q, t.db.readRevision q = s.db.readRevision q := by
    intro q
    rw [db]
    rfl
  have answer : forall q, (t.range q).1 =
      (s.db.readRevision q).map fun asOf => rangeIn s.db.exportSnapshot.restored.kv q.range (some asOf) q := by
    intro q
    rw [range_of_not_cached fun asOf _ => cachedList_empty empty q asOf, Db.uncachedRange, sameSelection, db]
  by_cases retained : s.db.compactRevision < r
  · by_cases reached : r ≤ s.db.revision
    · have selected : forall q : RangeQuery, q.revision = r -> s.db.readRevision q = .ok r := by
        intro q at_
        subst at_
        exact readRevision_explicit historical retained reached
      have honest : HonestRead s t r range <-> forall q : RangeQuery, q.range = range -> q.revision = r ->
          (s.range q).1 = .ok (rangeIn s.db.exportSnapshot.restored.kv range (some r) q) := by
        refine forall_congr' fun q => forall_congr' fun inRange => forall_congr' fun at_ => ?_
        rw [answer, selected q at_, inRange]
        constructor
        · intro either
          rcases either with refused | equal
          · cases refused
          · exact equal.symm
        · intro equal
          exact Or.inr equal.symm
      rw [honest]
      constructor
      · intro equal _ _
        have sorted := equal (sortedRead range r) rfl rfl
        rw [range_of_not_cached fun asOf _ => cachedList_sortedRead s range r asOf, Db.uncachedRange,
          selected (sortedRead range r) rfl] at sorted
        have pages := Except.ok.inj sorted
        have visibles : forall key, range.contains key = true ->
            visible s.db.exportSnapshot.restored.kv (some r) key = visible s.db.kv (some r) key := by
          intro key inside
          refine Option.ext fun pair => ?_
          have listed : pair ∈ (rangeIn s.db.exportSnapshot.restored.kv range (some r) (sortedRead range r)).kvs <->
              pair ∈ (rangeIn s.db.kv range (some r) (sortedRead range r)).kvs := by
            rw [← pages]
            exact Iff.rfl
          rw [mem_sortedRead, mem_sortedRead] at listed
          constructor
          · intro seen
            have same := visible_key seen
            subst same
            exact (listed.mp ⟨inside, seen⟩).2
          · intro seen
            have same := visible_key seen
            subst same
            exact (listed.mpr ⟨inside, seen⟩).2
        refine ⟨(visible_restored_eq_iff wellFormed distinct).mp visibles, fun result hit => ?_⟩
        have served := equal (plainRead range r) rfl rfl
        unfold Store.range at served
        simp only [selected (plainRead range r) rfl, hit] at served
        rw [Except.ok.inj served]
        exact rangeIn_congr distinct wellFormed.distinct range _ visibles
      · intro conditions q inRange at_
        subst inRange
        have parts := conditions retained reached
        have visibles := (visible_restored_eq_iff wellFormed distinct).mpr parts.1
        rw [rangeIn_congr distinct wellFormed.distinct q.range q visibles]
        cases hit : s.cachedList q r with
        | none =>
          rw [range_of_not_cached, Db.uncachedRange, selected q at_]
          · rfl
          · intro asOf chosen
            rw [selected q at_] at chosen
            cases chosen
            exact hit
        | some result =>
          have served : (s.range q).1 = .ok result := by
            unfold Store.range
            simp only [selected q at_, hit]
          rcases cachedList_eq_some hit with ⟨stem, cached, found, plain, stored, late, same⟩
          have plainHit : s.cachedList (plainRead q.range r) r = some result := by
            have sameRange : rbacListPrefix (plainRead q.range r).range = some stem := found
            have plainQuery : cacheable (plainRead q.range r) = true := rfl
            unfold Store.cachedList
            simp only [sameRange, stored]
            rw [if_pos plainQuery, if_pos late, same]
          rw [served, parts.2 result plainHit, ← rangeIn_cacheable plain]
    · refine iff_of_true (fun q inRange at_ => Or.inr ?_) fun _ impossible => absurd impossible reached
      subst at_
      have refused : s.db.readRevision q = .error (.futureRevision q.revision s.db.revision) := by
        unfold Db.readRevision
        rw [if_pos historical, if_neg (not_le.mpr retained), if_pos (not_le.mp reached)]
      rw [range_refused refused, range_refused ((sameSelection q).trans refused)]
  · refine iff_of_true (fun q inRange at_ => Or.inl ?_) fun impossible => absurd impossible retained
    subst at_
    have refused : t.db.readRevision q = .error (.compacted t.db.compactRevision) := by
      rw [db]
      unfold Db.readRevision
      exact (if_pos historical).trans (if_pos (not_lt.mp retained))
    exact range_refused refused

/-! ## Replays -/

theorem restored_keyOrder (wellFormed : s.db.WellFormed)
    (distinct : DistinctStamps KvRow.stamp s.db.exportSnapshot.restored.kv) {first second : KvRow}
    (firstMem : first ∈ s.db.exportSnapshot.restored.kv) (secondMem : second ∈ s.db.exportSnapshot.restored.kv)
    (sameRevision : first.revision = second.revision) (before : first.sub < second.sub) :
    first.key < second.key := by
  have grouped := (distinct_restored_iff_grouped wellFormed).mp distinct
  have numbers : s.db.exportSnapshot.restored.kv.Pairwise fun first second =>
      first.revision = second.revision -> first.sub < second.sub := by
    have increasing := @numbered_increasing _ _ _ i64Min 0 grouped
    rw [← restoredRows_stamps, List.pairwise_map] at increasing
    exact increasing
  have keys : s.db.exportSnapshot.restored.kv.Pairwise fun first second => first.key < second.key := by
    refine List.pairwise_map.mp ?_
    rw [SnapshotState.restored, restoredRows_keys]
    exact List.pairwise_map.mpr (export_sorted wellFormed.distinct)
  have different : first ≠ second := by
    intro same
    rw [same] at before
    exact lt_irrefl _ before
  rcases related_of_mem (numbers.and keys) firstMem secondMem different with forwards | backwards
  · exact forwards.2
  · exact absurd (backwards.1 sameRevision.symm) before.asymm

theorem rowEvent_restored {row : KvRow} (member : row ∈ s.db.exportSnapshot.restored.kv) :
    rowEvent s.db.exportSnapshot.restored.kv row = { kind := .put, kv := row.toKeyValue, prevKv := none } := by
  have parts := mem_restoredRows member
  unfold rowEvent
  rw [parts.2.1, parts.2.2]
  rfl

/-- The order in which events of a range arrive: by revision, and by key
within one. -/
def eventPlace (stamped : Int × Event) : Int ×ₗ Bytes :=
  toLex (stamped.1, stamped.2.kv.key)

/-- Events listed by stamp are listed by place when keys follow `sub` within
a revision. -/
theorem replay_places {kv : List KvRow} (distinct : DistinctStamps KvRow.stamp kv) {since : Int}
    {range : KeyRange}
    (keyOrder : forall first second, first ∈ replayOrder kv since range -> second ∈ replayOrder kv since range ->
      first.revision = second.revision -> first.sub < second.sub -> first.key < second.key) :
    KeySorted eventPlace
      ((replayOrder kv since range).map fun row => (row.revision, rowEvent kv row)) := by
  refine List.pairwise_map.mpr ((replayOrder_sorted distinct since range).imp_of_mem ?_)
  intro first second firstMem secondMem before
  unfold eventPlace
  rw [Prod.Lex.toLex_lt_toLex, rowEvent_key, rowEvent_key]
  rcases (KvRow.stamp_lt_iff first second).mp before with less | ⟨equal, less⟩
  · exact Or.inl less
  · exact Or.inr ⟨equal, keyOrder first second firstMem secondMem equal less⟩

theorem exists_restored_row (wellFormed : s.db.WellFormed) {row : KvRow}
    (current : newestOf s.db.kv none row.key = some row) (kept : row.deleted = false) :
    Exists fun restored : KvRow =>
      restored ∈ s.db.exportSnapshot.restored.kv ∧ restored.toKeyValue = row.toKeyValue := by
  have listed : row.toKeyValue ∈ s.db.exportSnapshot.kvs :=
    (mem_export wellFormed.below).mpr
      (Option.bind_eq_some_iff.mpr ⟨row, current, KvRow.live_of_not_deleted kept⟩)
  rw [← restoredRows_toKeyValue s.db.exportSnapshot.kvs i64Min 0] at listed
  exact List.mem_map.mp listed

theorem exists_current_row (wellFormed : s.db.WellFormed) {restored : KvRow}
    (member : restored ∈ s.db.exportSnapshot.restored.kv) :
    Exists fun row : KvRow => newestOf s.db.kv none row.key = some row ∧ row.deleted = false ∧
      row.toKeyValue = restored.toKeyValue := by
  have listed := (mem_export wellFormed.below).mp (mem_restoredRows member).1
  rcases Option.bind_eq_some_iff.mp listed with ⟨row, found, alive⟩
  have parts := (KvRow.live_eq_some_iff row _).mp alive
  rw [(newestOf_spec found).2.1.symm] at found
  exact ⟨row, found, parts.1, parts.2⟩

theorem rowEvent_creation {kv : List KvRow} {row : KvRow} (kept : row.deleted = false)
    (created : rowAt kv row.key row.prevRevision = none) :
    rowEvent kv row = { kind := .put, kv := row.toKeyValue, prevKv := none } := by
  unfold rowEvent
  rw [kept, created]
  rfl

theorem replays_eq (wellFormed : s.db.WellFormed)
    (distinct : DistinctStamps KvRow.stamp s.db.exportSnapshot.restored.kv) {since : Int} {range : KeyRange}
    (only : OnlyCreations s.db.kv since range) :
    ((replayOrder s.db.exportSnapshot.restored.kv since range).map fun row =>
        (row.revision, rowEvent s.db.exportSnapshot.restored.kv row)) =
      (replayOrder s.db.kv since range).map fun row => (row.revision, rowEvent s.db.kv row) := by
  have sameStamped : forall row restored : KvRow, row ∈ replayOrder s.db.kv since range ->
      restored ∈ s.db.exportSnapshot.restored.kv -> row.toKeyValue = restored.toKeyValue ->
        (row.revision, rowEvent s.db.kv row) =
          (restored.revision, rowEvent s.db.exportSnapshot.restored.kv restored) := by
    intro row restored rowMem restoredMem same
    have parts := mem_replayOrder.mp rowMem
    have revision : row.revision = restored.revision := congrArg KeyValue.modRevision same
    rw [rowEvent_restored restoredMem, revision, ← same,
      rowEvent_creation (only.current row parts.1 parts.2.1 parts.2.2).2
        (only.created row parts.1 parts.2.1 parts.2.2)]
  refine (replay_places distinct ?_).eq_of_mem_iff (replay_places wellFormed.distinct ?_) fun stamped => ?_
  · intro first second firstMem secondMem
    exact restored_keyOrder wellFormed distinct (mem_replayOrder.mp firstMem).1 (mem_replayOrder.mp secondMem).1
  · intro first second firstMem secondMem
    have firstParts := mem_replayOrder.mp firstMem
    have secondParts := mem_replayOrder.mp secondMem
    exact only.keyOrder first firstParts.1 second secondParts.1 firstParts.2.1 secondParts.2.1 firstParts.2.2
  · rw [List.mem_map, List.mem_map]
    constructor
    · rintro ⟨restored, restoredMem, rfl⟩
      have parts := mem_replayOrder.mp restoredMem
      rcases exists_current_row wellFormed parts.1 with ⟨row, current, kept, same⟩
      have key : row.key = restored.key := congrArg KeyValue.key same
      have revision : row.revision = restored.revision := congrArg KeyValue.modRevision same
      have rowMem : row ∈ replayOrder s.db.kv since range := by
        refine mem_replayOrder.mpr ⟨(newestOf_spec current).1, ?_, ?_⟩
        · rw [key]
          exact parts.2.1
        · rw [revision]
          exact parts.2.2
      exact ⟨row, rowMem, sameStamped row restored rowMem parts.1 same⟩
    · rintro ⟨row, rowMem, rfl⟩
      have parts := mem_replayOrder.mp rowMem
      have current := only.current row parts.1 parts.2.1 parts.2.2
      rcases exists_restored_row wellFormed current.1 current.2 with ⟨restored, member, same⟩
      have key : restored.key = row.key := congrArg KeyValue.key same
      have revision : restored.revision = row.revision := congrArg KeyValue.modRevision same
      refine ⟨restored, mem_replayOrder.mpr ⟨member, ?_, ?_⟩, (sameStamped row restored rowMem member same.symm).symm⟩
      · rw [key]
        exact parts.2.1
      · rw [revision]
        exact parts.2.2

/-- If the replays are the same, the source replays live versions alone:
keys are not repeated, so each row is the newest of its key. -/
theorem onlyCreations_of_replays_eq (wellFormed : s.db.WellFormed)
    (distinct : DistinctStamps KvRow.stamp s.db.exportSnapshot.restored.kv) {since : Int} {range : KeyRange}
    (equal : ((replayOrder s.db.exportSnapshot.restored.kv since range).map fun row =>
        (row.revision, rowEvent s.db.exportSnapshot.restored.kv row)) =
      (replayOrder s.db.kv since range).map fun row => (row.revision, rowEvent s.db.kv row)) :
    OnlyCreations s.db.kv since range := by
  have places := replay_places distinct fun first second firstMem secondMem =>
    restored_keyOrder wellFormed distinct (@mem_replayOrder _ since range _ |>.mp firstMem).1
      (@mem_replayOrder _ since range _ |>.mp secondMem).1
  have keysApart : (replayOrder s.db.kv since range).Pairwise fun first second => first.key ≠ second.key := by
    have apart : ((replayOrder s.db.exportSnapshot.restored.kv since range).map fun row =>
        (row.revision, rowEvent s.db.exportSnapshot.restored.kv row)).Pairwise
          fun first second => first.2.kv.key ≠ second.2.kv.key := by
      refine List.pairwise_map.mpr ((replayOrder_sorted distinct since range).imp_of_mem ?_)
      intro first second firstMem secondMem before same
      rw [rowEvent_key, rowEvent_key] at same
      have identical := restoredRows_key_injective (export_sorted wellFormed.distinct)
        (mem_replayOrder.mp firstMem).1 (mem_replayOrder.mp secondMem).1 same
      rw [identical] at before
      exact lt_irrefl _ before
    rw [equal, List.pairwise_map] at apart
    refine apart.imp fun differ same => differ ?_
    rw [rowEvent_key, rowEvent_key, same]
  have replayed : forall row, row ∈ s.db.kv -> range.contains row.key = true -> since < row.revision ->
      Exists fun restored : KvRow => restored ∈ s.db.exportSnapshot.restored.kv ∧
        rowEvent s.db.kv row = { kind := .put, kv := restored.toKeyValue, prevKv := none } := by
    intro row member inside later
    have listed : (row.revision, rowEvent s.db.kv row) ∈
        (replayOrder s.db.kv since range).map fun row => (row.revision, rowEvent s.db.kv row) :=
      List.mem_map.mpr ⟨row, mem_replayOrder.mpr ⟨member, inside, later⟩, rfl⟩
    rw [← equal] at listed
    rcases List.mem_map.mp listed with ⟨restored, restoredMem, same⟩
    have restoredIn := (mem_replayOrder.mp restoredMem).1
    refine ⟨restored, restoredIn, ?_⟩
    rw [← rowEvent_restored restoredIn]
    exact (Prod.mk.inj same).2.symm
  refine ⟨fun row member inside later => ?_, fun row member inside later => ?_, ?_⟩
  · rcases replayed row member inside later with ⟨restored, _, event⟩
    refine ⟨?_, rowEvent_kind_put (congrArg Event.kind event)⟩
    rcases (exists_newestOf member rfl : Exists fun top => newestOf s.db.kv none row.key = some top) with
      ⟨top, found⟩
    have spec := (newestOf_eq_some_iff wellFormed.distinct).mp found
    have newer := KvRow.revision_le_of_stamp_le (spec.2.2.2 row member rfl rfl)
    have topMem : top ∈ replayOrder s.db.kv since range := by
      refine mem_replayOrder.mpr ⟨spec.1, ?_, lt_of_lt_of_le later newer⟩
      rw [spec.2.1]
      exact inside
    have same : top = row := by
      by_contra different
      have apart := related_of_mem keysApart topMem (mem_replayOrder.mpr ⟨member, inside, later⟩) different
      rcases apart with forwards | backwards
      · exact forwards spec.2.1
      · exact backwards spec.2.1.symm
    rw [found, same]
  · rcases replayed row member inside later with ⟨restored, _, event⟩
    rw [← rowEvent_prevKv, event]
  · intro first firstMem second secondMem firstIn secondIn later sameRevision before
    rw [equal] at places
    have different : first ≠ second := by
      intro same
      rw [same] at before
      exact lt_irrefl _ before
    rcases related_of_mem ((replayOrder_sorted wellFormed.distinct since range).and (List.pairwise_map.mp places))
      (mem_replayOrder.mpr ⟨firstMem, firstIn, later⟩)
      (mem_replayOrder.mpr ⟨secondMem, secondIn, sameRevision ▸ later⟩) different with forwards | backwards
    · have place := forwards.2
      unfold eventPlace at place
      rw [Prod.Lex.toLex_lt_toLex, rowEvent_key, rowEvent_key] at place
      rcases place with less | ⟨_, less⟩
      · exact absurd sameRevision (ne_of_lt less)
      · exact less
    · rcases (KvRow.stamp_lt_iff second first).mp backwards.1 with less | ⟨_, less⟩
      · exact absurd sameRevision.symm (ne_of_lt less)
      · exact absurd less before.asymm

theorem honestReplay_iff (wellFormed : s.db.WellFormed) (db : t.db = s.db.exportSnapshot.restored)
    (distinct : DistinctStamps KvRow.stamp s.db.exportSnapshot.restored.kv) (since : Int) (range : KeyRange) :
    HonestReplay s t since range <->
      (s.db.compactRevision ≤ since -> OnlyCreations s.db.kv since range) := by
  unfold HonestReplay
  rw [db]
  by_cases available : s.db.compactRevision ≤ since
  · have availableThere : s.db.exportSnapshot.restored.compactRevision ≤ since := available
    rw [eventsSince_available available, eventsSince_available availableThere]
    constructor
    · intro either _
      exact onlyCreations_of_replays_eq wellFormed distinct
        (Except.ok.inj (either.resolve_left nofun))
    · intro conditions
      exact Or.inr (congrArg Except.ok (replays_eq wellFormed distinct (conditions available)))
  · refine iff_of_true (Or.inl ?_) fun impossible => absurd impossible available
    exact if_pos (not_le.mp available)

/-- After a restore, reads and replays at a revision are as on the source,
or refused, exactly when what the source retains of its history there is
still current. -/
theorem restored_history_iff (reachable : Reachable s)
    (success : target.restoreSnapshot s.db.exportSnapshot = .ok t) (r : Int) (range : KeyRange) :
    (0 < r -> (HonestRead s t r range <->
      (s.db.compactRevision < r -> r ≤ s.db.revision ->
        StillCurrent s.db.kv r range ∧ ServesStored s r range))) ∧
    (HonestReplay s t r range <-> (s.db.compactRevision ≤ r -> OnlyCreations s.db.kv r range)) := by
  have wellFormed := reachable.wellFormed
  have parts := (restoreSnapshot_ok_iff wellFormed.leases wellFormed.members).mp success
  have db : t.db = s.db.exportSnapshot.restored := by rw [parts.2]
  have empty : t.rbacCache = fun _ => none := by rw [parts.2]
  exact ⟨fun historical => honestRead_iff wellFormed db empty parts.1 historical range,
    honestReplay_iff wellFormed db parts.1 r range⟩

theorem stillCurrent_of_newest {kv : List KvRow} {r : Int} {range : KeyRange}
    (newest : forall row, row ∈ kv -> row.revision ≤ r -> newestOf kv none row.key = some row) :
    StillCurrent kv r range := by
  intro key pair _ seen
  rcases Option.bind_eq_some_iff.mp seen with ⟨row, found, alive⟩
  have spec := newestOf_spec found
  rw [← spec.2.1]
  exact Option.bind_eq_some_iff.mpr ⟨row, newest row spec.1 (of_decide_eq_true spec.2.2), alive⟩

/-- Two puts to different keys are all there is to replay and to read. -/
theorem independentPuts_restored_history :
    let put (key : String) : Command :=
      .put { key := ascii key, value := ascii "v", lease := 0, prevKv := false,
             ignoreValue := false, ignoreLease := false }
    let source := (history [(1, put "/a"), (2, put "/b")]).store
    let replica : Store := { db := source.db.exportSnapshot.restored, rbacCache := fun _ => none }
    HonestRead source replica 2 .all ∧ HonestReplay source replica 2 .all := by
  intro put source replica
  have wellFormed := history_wellFormed [(1, put "/a"), (2, put "/b")]
  have success : Store.fresh.restoreSnapshot source.db.exportSnapshot = .ok replica :=
    (restoreSnapshot_ok_iff wellFormed.leases wellFormed.members).mpr ⟨by decide, rfl⟩
  have honest := restored_history_iff (history_reachable _) success 2 .all
  constructor
  · refine (honest.1 (by decide)).mpr fun _ _ => ⟨stillCurrent_of_newest (by decide), ?_⟩
    intro result hit
    cases hit
  · exact honest.2.mpr fun _ => ⟨by decide, by decide, by decide⟩

/-- A key is written twice. -/
def overwrittenKey : List (Nat × Command) :=
  let put (value : String) : Command :=
    .put { key := ascii "/a", value := ascii value, lease := 0, prevKv := false,
           ignoreValue := false, ignoreLease := false }
  [(1, put "one"), (2, put "two")]

/-- The restored replica answers the first revision with no key at all. -/
theorem overwrittenKey_read_dishonest :
    (history overwrittenKey).store.db.compactRevision < 2 ∧
      Exists fun replica : Store =>
        Store.fresh.restoreSnapshot (history overwrittenKey).store.db.exportSnapshot = .ok replica ∧
          ¬ HonestRead (history overwrittenKey).store replica 2 .all := by
  have wellFormed := history_wellFormed overwrittenKey
  refine ⟨by decide, _, (restoreSnapshot_ok_iff wellFormed.leases wellFormed.members).mpr ⟨by decide, rfl⟩, ?_⟩
  intro honest
  rcases honest (plainRead .all 2) rfl rfl with refused | equal
  · exact absurd refused (by decide)
  · exact absurd equal (by decide)

end
end NotK8s.Nodestore

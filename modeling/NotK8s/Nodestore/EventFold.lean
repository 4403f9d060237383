import NotK8s.Nodestore.History

namespace NotK8s.Nodestore

open Library

/-!
# Reads as folds of the event history

What a key-value store says at a revision is determined by the events
published up to it: a put inserts its key, a delete removes it, and the
metadata of a key counts its puts since it was last deleted.  The definitions
below say this without a version table.  The table refines them: a range read
at any revision that has not been compacted away is the page computed from
the events alone.
-/

/-! ## The meaning of an event history -/

/-- The events of revision at most `r`. -/
def eventsUpTo (r : Int) (events : List (Int × Event)) : List (Int × Event) :=
  events.filter fun stamped => stamped.1 ≤ r

/-- A put inserts its key into an ordered set of keys, and a delete removes
it. -/
def foldKey (keys : List Bytes) (stamped : Int × Event) : List Bytes :=
  match stamped.2.kind with
  | .put =>
    if stamped.2.kv.key ∈ keys then keys
    else keys.orderedInsert (fun first second => first ≤ second) stamped.2.kv.key
  | .delete => keys.filter fun key => key ≠ stamped.2.kv.key

/-- The keys that are present after the events, in key order. -/
def foldKeys (events : List (Int × Event)) : List Bytes :=
  events.foldl foldKey []

/-- The puts to a key since it was last deleted, newest first. -/
def putsSinceDeletion (events : List (Int × Event)) (key : Bytes) : List (Int × Event) :=
  (events.filter fun stamped => stamped.2.kv.key = key).reverse.takeWhile fun stamped =>
    decide (stamped.2.kind = .put)

/-- The pair a key holds after the events.  It was created by the first put
since its last deletion and modified by the last one, and its version is
their number. -/
def expectedPair (events : List (Int × Event)) (key : Bytes) : Option KeyValue :=
  match putsSinceDeletion events key with
  | [] => none
  | newest :: older =>
    some
      { key := key
        createRevision := ((newest :: older).getLast (List.cons_ne_nil newest older)).1
        modRevision := newest.1
        version := (newest :: older).length
        value := newest.2.kv.value
        lease := newest.2.kv.lease }

/-- The pairs of a range after the events, in key order. -/
def expectedPairs (events : List (Int × Event)) (range : KeyRange) : List KeyValue :=
  ((foldKeys events).filter range.contains).filterMap (expectedPair events)

/-- The page of a range after the events. -/
def expectedRange (events : List (Int × Event)) (q : RangeQuery) : RangeResult :=
  let pairs := expectedPairs events q.range
  let ordered :=
    match q.sort with
    | none => pairs
    | some _ => pairs.insertionSort (orderBy q.sort)
  let count : Int := ((foldKeys events).filter q.range.contains).length
  if q.countOnly then { kvs := [], count := count, more := false }
  else
    { kvs := (if q.limit > 0 then ordered.take q.limit.toNat else ordered).map (trim q)
      count := count
      more := decide (q.limit > 0 ∧ count > q.limit) }

/-! ## One more event -/

theorem eventsUpTo_append (r : Int) (first second : List (Int × Event)) :
    eventsUpTo r (first ++ second) = eventsUpTo r first ++ eventsUpTo r second :=
  List.filter_append ..

section

variable (events : List (Int × Event))
include events

theorem putsSinceDeletion_concat (stamped : Int × Event) (key : Bytes) :
    putsSinceDeletion (events ++ [stamped]) key =
      if stamped.2.kv.key = key then
        if stamped.2.kind = .put then stamped :: putsSinceDeletion events key else []
      else putsSinceDeletion events key := by
  unfold putsSinceDeletion
  rw [List.filter_append, List.reverse_append]
  by_cases same : stamped.2.kv.key = key
  · have kept : [stamped].filter (fun stamped => decide (stamped.2.kv.key = key)) = [stamped] :=
      List.filter_cons_of_pos (decide_eq_true same)
    rw [if_pos same, kept]
    by_cases put : stamped.2.kind = .put
    · rw [if_pos put]
      exact List.takeWhile_cons_of_pos (decide_eq_true put)
    · rw [if_neg put]
      exact List.takeWhile_cons_of_neg (by simpa only [decide_eq_true_eq] using put)
  · have dropped : [stamped].filter (fun stamped => decide (stamped.2.kv.key = key)) = [] :=
      List.filter_cons_of_neg (by simpa only [decide_eq_true_eq] using same)
    rw [if_neg same, dropped]
    rfl

/-- The pair after one more event: a put continues what was there, or starts
over when nothing was. -/
theorem expectedPair_concat (stamped : Int × Event) (key : Bytes) :
    expectedPair (events ++ [stamped]) key =
      if stamped.2.kv.key = key then
        if stamped.2.kind = .put then
          some
            { key := key
              createRevision := ((expectedPair events key).map KeyValue.createRevision).getD stamped.1
              modRevision := stamped.1
              version := ((expectedPair events key).map fun pair => pair.version + 1).getD 1
              value := stamped.2.kv.value
              lease := stamped.2.kv.lease }
        else none
      else expectedPair events key := by
  unfold expectedPair
  rw [putsSinceDeletion_concat]
  by_cases same : stamped.2.kv.key = key
  · rw [if_pos same, if_pos same]
    by_cases put : stamped.2.kind = .put
    · rw [if_pos put, if_pos put]
      cases earlier : putsSinceDeletion events key with
      | nil => rfl
      | cons newest older =>
        rfl
    · rw [if_neg put, if_neg put]
  · rw [if_neg same, if_neg same]

theorem foldKeys_concat (stamped : Int × Event) :
    foldKeys (events ++ [stamped]) = foldKey (foldKeys events) stamped :=
  List.foldl_append ..

theorem foldKeys_sorted : KeySorted (fun key : Bytes => key) (foldKeys events) := by
  induction events using List.reverseRecOn with
  | nil => exact List.Pairwise.nil
  | append_singleton earlier stamped ih =>
    rw [foldKeys_concat]
    unfold foldKey
    cases stamped.2.kind with
    | put =>
      by_cases present : stamped.2.kv.key ∈ foldKeys earlier
      · rw [if_pos present]
        exact ih
      · rw [if_neg present]
        refine ih.orderedInsert fun stored member same => ?_
        exact present (same ▸ member)
    | delete => exact ih.filter _

theorem mem_foldKeys (key : Bytes) :
    key ∈ foldKeys events <-> (expectedPair events key).isSome = true := by
  induction events using List.reverseRecOn with
  | nil => exact iff_of_false List.not_mem_nil Bool.false_ne_true
  | append_singleton earlier stamped ih =>
    rw [expectedPair_concat, foldKeys_concat]
    unfold foldKey
    by_cases same : stamped.2.kv.key = key
    · subst same
      rw [if_pos rfl]
      cases kind : stamped.2.kind with
      | put =>
        by_cases present : stamped.2.kv.key ∈ foldKeys earlier
        · simp [present]
        · simp [present, List.mem_orderedInsert]
      | delete => simp
    · rw [if_neg same, ← ih]
      cases kind : stamped.2.kind with
      | put =>
        by_cases present : stamped.2.kv.key ∈ foldKeys earlier
        · simp [present]
        · simp [present, List.mem_orderedInsert, Ne.symm same]
      | delete => simp [Ne.symm same]

end

theorem expectedPair_key {events : List (Int × Event)} {key : Bytes} {pair : KeyValue}
    (expected : expectedPair events key = some pair) : pair.key = key := by
  unfold expectedPair at expected
  cases puts : putsSinceDeletion events key with
  | nil =>
    rw [puts] at expected
    cases expected
  | cons newest older =>
    rw [puts] at expected
    cases expected
    rfl

/-! ## The listed pairs -/

theorem mem_expectedPairs {events : List (Int × Event)} {range : KeyRange} {pair : KeyValue} :
    pair ∈ expectedPairs events range <->
      range.contains pair.key = true ∧ expectedPair events pair.key = some pair := by
  unfold expectedPairs
  rw [List.mem_filterMap]
  constructor
  · rintro ⟨key, listed, expected⟩
    have same := expectedPair_key expected
    subst same
    exact ⟨(List.mem_filter.mp listed).2, expected⟩
  · rintro ⟨inside, expected⟩
    refine ⟨pair.key, List.mem_filter.mpr ⟨?_, inside⟩, expected⟩
    rw [mem_foldKeys, expected]
    rfl

theorem expectedPairs_keys (events : List (Int × Event)) (range : KeyRange) :
    (expectedPairs events range).map KeyValue.key =
      (foldKeys events).filter fun key => range.contains key := by
  have present : forall key, key ∈ (foldKeys events).filter range.contains ->
      (expectedPair events key).map KeyValue.key = some key := by
    intro key listed
    have member := (List.mem_filter.mp listed).1
    rcases Option.isSome_iff_exists.mp ((mem_foldKeys events key).mp member) with ⟨pair, expected⟩
    rw [expected, Option.map_some, expectedPair_key expected]
  unfold expectedPairs
  rw [List.map_filterMap, List.filterMap_congr present, List.filterMap_some]

theorem expectedPairs_sorted (events : List (Int × Event)) (range : KeyRange) :
    KeySorted KeyValue.key (expectedPairs events range) := by
  have sorted := (foldKeys_sorted events).filter range.contains
  rw [← expectedPairs_keys] at sorted
  exact List.pairwise_map.mp sorted

theorem expectedPairs_length (events : List (Int × Event)) (range : KeyRange) :
    (expectedPairs events range).length = ((foldKeys events).filter range.contains).length := by
  rw [← expectedPairs_keys, List.length_map]

/-! ## The table refines the events -/

/-- A table that shows, at every revision from the compaction point on, what
the events up to it say. -/
def Refines (kv : List KvRow) (compactRevision : Int) (events : List (Int × Event)) : Prop :=
  forall r, compactRevision ≤ r -> forall key, visible kv (some r) key = expectedPair (eventsUpTo r events) key

theorem WriteStep.continues {kv kv' : List KvRow} {w w' : Writer} (step : WriteStep kv w kv' w') :
    Exists fun row : KvRow => Exists fun event : Event =>
      kv' = kv ++ [row] ∧ w' = w.wrote event ∧ row.revision = w.next ∧ row.sub = w.sub ∧
        event.kv.key = row.key ∧
        row.live =
          if event.kind = .put then
            some
              { key := row.key
                createRevision := ((currentIn kv row.key).map KeyValue.createRevision).getD w.next
                modRevision := w.next
                version := ((currentIn kv row.key).map fun pair => pair.version + 1).getD 1
                value := event.kv.value
                lease := event.kv.lease }
          else none := by
  cases step with
  | put key value lease | delete prev current => exact ⟨_, _, rfl, rfl, rfl, rfl, rfl, rfl⟩

theorem Refines.step {kv kv' : List KvRow} {w w' : Writer} {c : Int} {earlier : List (Int × Event)}
    (fresh : FreshWriter kv w)
    (refines : Refines kv c (earlier ++ w.events.map fun event => (w.next, event)))
    (step : WriteStep kv w kv' w') :
    Refines kv' c (earlier ++ w'.events.map fun event => (w'.next, event)) := by
  intro r above key
  have before := refines r above key
  have current : w.next ≤ r -> visible kv (some r) key = currentIn kv key := by
    intro reached
    exact visible_unbounded (fun row member => (fresh.le_next member).trans reached) key
  rcases step.continues with ⟨row, event, grown, wrote, revision, sub, named, continued⟩
  rw [grown, wrote, Writer.wrote_events, Writer.wrote_next, List.map_append, ← List.append_assoc,
    eventsUpTo_append]
  by_cases reached : w.next ≤ r
  · have seen : eventsUpTo r ([event].map fun event => (w.next, event)) = [(w.next, event)] :=
      List.filter_cons_of_pos (decide_eq_true reached)
    rw [seen, expectedPair_concat, ← before, visible_concat fresh revision sub reached, current reached]
    rw [named]
    by_cases same : row.key = key
    · subst same
      rw [if_pos rfl, if_pos rfl]
      exact continued
    · rw [if_neg same, if_neg same]
  · have hidden : eventsUpTo r ([event].map fun event => (w.next, event)) = [] :=
      List.filter_cons_of_neg (by simpa only [decide_eq_true_eq] using reached)
    rw [hidden, List.append_nil, ← before, visible_concat_earlier fresh revision sub (not_le.mp reached)]

theorem Refines.writes {kv kv' : List KvRow} {w w' : Writer} {c : Int} {earlier : List (Int × Event)}
    (fresh : FreshWriter kv w)
    (refines : Refines kv c (earlier ++ w.events.map fun event => (w.next, event)))
    (writes : Writes kv w kv' w') :
    Refines kv' c (earlier ++ w'.events.map fun event => (w'.next, event)) := by
  induction writes with
  | refl => exact refines
  | tail sofar step ih => exact ih.step (fresh.writes sofar) step

theorem Refines.applyAt {s s' : Store} {index : Nat} {cmd : Command} {applied : Applied} {earlier : List (Int × Event)}
    (refines : Refines s.db.kv s.db.compactRevision earlier) (wellFormed : s.db.WellFormed)
    (success : s.applyAt index cmd = .ok (applied, s')) :
    Refines s'.db.kv s'.db.compactRevision (earlier ++ applied.stamped) := by
  rcases wellFormed.accepted success with ⟨tx, w, accepted⟩
  rw [accepted.stamped_eq, accepted.db]
  cases accepted.effect with
  | writes written same =>
    rw [same.compactRevision]
    refine Refines.writes wellFormed.freshWriter ?_ written
    rw [Writer.opened, List.map_nil, List.append_nil]
    exact refines
  | compact above reached =>
    rw [Writer.opened, List.map_nil, List.append_nil]
    intro r aboveNow key
    rw [← refines r (above.le.trans aboveNow) key]
    exact visible_pruneRows wellFormed.distinct (covers_within_some aboveNow) key

theorem history_refines (entries : List (Nat × Command)) :
    Refines (history entries).store.db.kv (history entries).store.db.compactRevision
      (history entries).published := by
  refine @history_induction
    (fun h => Refines h.store.db.kv h.store.db.compactRevision h.published) ?_ ?_ entries
  · intro r above key
    rfl
  · intro h index cmd applied store reachable refines success
    exact Refines.applyAt refines reachable.wellFormed success

/-- A table that refines the events answers every range query from them. -/
theorem Refines.rangeIn_eq {kv : List KvRow} {c r : Int} {events : List (Int × Event)}
    (refines : Refines kv c events) (distinct : DistinctStamps KvRow.stamp kv) (above : c ≤ r)
    (q : RangeQuery) :
    rangeIn kv q.range (some r) q = expectedRange (eventsUpTo r events) q := by
  have sorted := expectedPairs_sorted (eventsUpTo r events) q.range
  have keys : ((expectedPairs (eventsUpTo r events) q.range).map KeyValue.key).Nodup :=
    List.pairwise_map.mpr (sorted.imp ne_of_lt)
  have page : rangeIn kv q.range (some r) q = pageOf q (expectedPairs (eventsUpTo r events) q.range) := by
    refine pageOf_congr q ?_ keys fun pair => ?_
    · rw [List.map_map]
      exact selectIn_keys_nodup distinct q.range (some r)
    · rw [mem_selectIn_map, mem_expectedPairs, refines r above]
  have length := expectedPairs_length (eventsUpTo r events) q.range
  rw [page]
  unfold expectedRange
  rw [← length]
  by_cases counting : q.countOnly = true
  · unfold pageOf
    rw [if_pos counting, if_pos counting]
  · rw [if_neg counting, pageOf_listing (Bool.eq_false_iff.mpr counting), ← Bool.decide_and]
    cases sort : q.sort with
    | none =>
      have inOrder : (expectedPairs (eventsUpTo r events) q.range).insertionSort (orderBy none) =
          expectedPairs (eventsUpTo r events) q.range :=
        List.Pairwise.insertionSort_eq (sorted.imp le_of_lt)
      rw [inOrder]
    | some order => rfl

/-- One more command moves the revision by one when it publishes events and
not at all when it does not. -/
theorem history_revision_step (entries : List (Nat × Command)) (entry : Nat × Command) :
    (history (entries ++ [entry])).store.db.revision =
      (history entries).store.db.revision +
        if (history (entries ++ [entry])).published = (history entries).published then 0 else 1 := by
  have last : history (entries ++ [entry]) = (history entries).step entry :=
    run_concat Recorded.step Recorded.fresh entries entry
  rw [last]
  rcases (history entries).step_cases entry with ⟨refusal, _, same⟩ | ⟨applied, store, success, next⟩
  · rw [same, if_pos rfl, Int.add_zero]
  · rcases (history_wellFormed entries).accepted success with ⟨tx, w, accepted⟩
    have silent : (history entries).published ++ applied.stamped = (history entries).published <->
        applied.events = [] := by
      rw [List.append_right_eq_self, Applied.stamped, List.map_eq_nil_iff]
    rw [next, accepted.db]
    change applied.revision = _ + if (history entries).published ++ applied.stamped =
      (history entries).published then 0 else 1
    rw [accepted.revision_eq]
    by_cases quiet : applied.events = []
    · rw [if_pos quiet, if_pos (silent.mpr quiet)]
    · rw [if_neg quiet, if_neg fun found => quiet (silent.mp found)]

/-- MVCC reads refine the event history: a range read at a revision that was
not compacted away is the page computed from the events up to it, and the
revision counts the commands that published something. -/
theorem history_reads_refine_events (entries : List (Nat × Command)) :
    (forall (q : RangeQuery) (r : Int), (history entries).store.db.compactRevision ≤ r ->
      rangeIn (history entries).store.db.kv q.range (some r) q =
        expectedRange (eventsUpTo r (history entries).published) q) ∧
    (forall (q : RangeQuery) (r : Int), (history entries).store.db.readRevision q = .ok r ->
      ((history entries).store.range q).1 =
        .ok (expectedRange (eventsUpTo r (history entries).published) q)) ∧
    (forall entry : Nat × Command,
      (history (entries ++ [entry])).store.db.revision =
        (history entries).store.db.revision +
          if (history (entries ++ [entry])).published = (history entries).published then 0 else 1) := by
  have wellFormed := history_wellFormed entries
  have refines := history_refines entries
  refine ⟨fun q r above => refines.rangeIn_eq wellFormed.distinct above q, fun q r selected => ?_,
    history_revision_step entries⟩
  have above := (readRevision_bounds wellFormed selected).1
  rw [range_of_not_cached fun asOf _ => cachedList_empty (history_uncached entries) q asOf,
    Db.uncachedRange, selected]
  exact congrArg Except.ok (refines.rangeIn_eq wellFormed.distinct above q)

/-- A key written, deleted and written again, read back at its last put. -/
theorem recreatedKey_reads_refine_events :
    ((history
      [(1, .put { key := [1], value := [7], lease := 0, prevKv := false, ignoreValue := false, ignoreLease := false }),
        (2, .delete { range := .all, prevKv := false }),
        (3, .put { key := [1], value := [8], lease := 0, prevKv := false, ignoreValue := false, ignoreLease := false })]).store.range
      (plainRead .all 4)).1 =
      .ok { kvs := [{ key := [1], createRevision := 4, modRevision := 4, version := 1, value := [8], lease := 0 }]
            count := 1
            more := false } := by
  rw [(history_reads_refine_events _).2.1 _ 4 (by decide)]
  decide

end NotK8s.Nodestore

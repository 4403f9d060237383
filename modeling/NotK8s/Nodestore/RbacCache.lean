import NotK8s.Library.Run
import NotK8s.Nodestore.Reachable

namespace NotK8s.Nodestore

open Library

/-!
# The RBAC list cache

`Store::range` serves the four full RBAC lists from a cache that any read of
such a list fills, labelled with the revision it was read at, and that is
cleared when a command touches an RBAC key.  A hit is served to every later
revision.  That is right when nothing under the prefix changed between the
labelled revision and the current one, which a read of the current state
guarantees and a historical read does not.

The property asked of a state is that every read it can serve agrees with
the query.  It holds along a run exactly when each historical read of a full
list was made at a revision since which the list has not changed.
-/

/-! ## Keys under a prefix -/

/-- The interval of a stem that ends in a byte below 255 holds exactly the
keys that extend it. -/
theorem prefix_of_between {front key : Bytes} {last : UInt8} (small : last < last + 1)
    (lower : ¬ key < front ++ [last]) (upper : key < front ++ [last + 1]) :
    (front ++ [last]).isPrefixOf key = true := by
  induction front generalizing key with
  | nil =>
    cases key with
    | nil => exact absurd (List.nil_lt_cons last []) lower
    | cons head rest =>
      have above : ¬ head < last := fun less => lower (List.cons_lt_cons_iff.mpr (Or.inl less))
      have below : head < last + 1 := by
        rcases List.cons_lt_cons_iff.mp upper with less | equal
        · exact less
        · exact absurd equal.2 (List.not_lt_nil rest)
      have same : last = head := by
        apply UInt8.toNat_inj.mp
        rw [UInt8.lt_iff_toNat_lt, UInt8.toNat_add] at below small
        rw [UInt8.lt_iff_toNat_lt] at above
        have one : (1 : UInt8).toNat = 1 := rfl
        rw [one] at below small
        omega
      simp [List.isPrefixOf, same]
  | cons first others ih =>
    cases key with
    | nil => exact absurd (List.nil_lt_cons first _) lower
    | cons head rest =>
      have above : ¬ head < first := fun less => lower (List.cons_lt_cons_iff.mpr (Or.inl less))
      rcases List.cons_lt_cons_iff.mp upper with less | equal
      · exact absurd less above
      · have shorter : ¬ rest < others ++ [last] := fun less =>
          lower (List.cons_lt_cons_iff.mpr (Or.inr ⟨equal.1, less⟩))
        have tail := ih shorter equal.2
        simp only [List.cons_append, List.isPrefixOf, tail, Bool.and_true, beq_iff_eq]
        exact equal.1.symm

theorem rbacKey_of_between {stem key : Bytes} (listed : stem ∈ rbacListPrefixes)
    (inside : (KeyRange.between stem (prefixRangeEnd stem)).contains key = true) : rbacKey key = true := by
  have shape : forall stem, stem ∈ rbacListPrefixes ->
      stem = stem.dropLast ++ [47] ∧ prefixRangeEnd stem = stem.dropLast ++ [48] := by decide
  have parts := shape stem listed
  have bounds := Bool.and_eq_true_iff.mp inside
  have lower : stem ≤ key := of_decide_eq_true bounds.1
  have upper : key < prefixRangeEnd stem := of_decide_eq_true bounds.2
  refine List.any_eq_true.mpr ⟨stem, listed, ?_⟩
  rw [parts.2] at upper
  rw [parts.1] at lower ⊢
  exact prefix_of_between (by decide) (not_lt.mpr lower) upper

theorem rbacListPrefix_eq_some {range : KeyRange} {stem : Bytes} (found : rbacListPrefix range = some stem) :
    stem ∈ rbacListPrefixes ∧ range = .between stem (prefixRangeEnd stem) := by
  cases range with
  | between lower upper =>
    have searched : (rbacListPrefixes.find? fun stem =>
        decide (lower = stem) && decide (upper = prefixRangeEnd stem)) = some stem := found
    refine ⟨List.mem_of_find?_eq_some searched, ?_⟩
    have bounds := List.find?_some searched
    rw [Bool.and_eq_true] at bounds
    have lowerEq : lower = stem := of_decide_eq_true bounds.1
    have upperEq : upper = prefixRangeEnd stem := of_decide_eq_true bounds.2
    rw [lowerEq, upperEq]
  | single key => cases found
  | fromKey lower => cases found
  | all => cases found

theorem rangeIn_cacheable {q : RangeQuery} (plain : cacheable q = true) (kv : List KvRow) (asOf : Option Int)
    (revision : Int) :
    rangeIn kv q.range asOf q = rangeIn kv q.range asOf (plainRead q.range revision) := by
  cases q with
  | mk range at_ limit keysOnly countOnly sort =>
    simp only [cacheable, Bool.and_eq_true, decide_eq_true_eq, Bool.not_eq_true',
      Option.isNone_iff_eq_none] at plain
    rcases plain with ⟨⟨⟨rfl, rfl⟩, rfl⟩, rfl⟩
    rfl

/-! ## Runs of a store -/

/-- What happens to a store: a command, a snapshot from another replica, or
a read, which may fill the cache. -/
inductive StoreStep where
  | apply (index : Nat) (cmd : Command)
  | restore (source : { s : Store // Reachable s })
  | read (q : RangeQuery)

/-- A refused command and a failed restore leave the store as it was. -/
def Store.step (s : Store) : StoreStep -> Store
  | .apply index cmd => s.after (index, cmd)
  | .restore source =>
    match s.restoreSnapshot source.val.db.exportSnapshot with
    | .ok s' => s'
    | .error _ => s
  | .read q => (s.range q).2

/-- Every read is answered as the query would answer it. -/
def Store.Faithful (s : Store) : Prop :=
  forall q : RangeQuery, (s.range q).1 = s.db.uncachedRange q

/-- A read of a full RBAC list is steady when the list has not changed since
the revision it selects. -/
def SteadyRead (s : Store) : StoreStep -> Prop
  | .read q =>
    forall asOf stem, s.db.readRevision q = .ok asOf -> rbacListPrefix q.range = some stem ->
      cacheable q = true -> forall r key, asOf ≤ r -> r ≤ s.db.revision -> q.range.contains key = true ->
        visible s.db.kv (some r) key = visible s.db.kv (some asOf) key
  | _ => True

/-- Every cached list is what the query answers at each revision it may be
served for. -/
structure CacheSound (s : Store) : Prop where
  wellFormed : s.db.WellFormed
  listed : forall stem cached, s.rbacCache stem = some cached -> stem ∈ rbacListPrefixes
  dated : forall stem cached, s.rbacCache stem = some cached -> cached.revision ≤ s.db.revision
  agrees : forall stem cached, s.rbacCache stem = some cached ->
    forall r, cached.revision ≤ r -> s.db.compactRevision ≤ r -> r ≤ s.db.revision ->
      rangeIn s.db.kv (.between stem (prefixRangeEnd stem)) (some r)
        (plainRead (.between stem (prefixRangeEnd stem)) 0) = cached.result

theorem cacheSound_of_empty {s : Store} (wellFormed : s.db.WellFormed)
    (empty : s.rbacCache = fun _ => none) : CacheSound s := by
  refine ⟨wellFormed, ?_, ?_, ?_⟩
  · intro stem cached found
    rw [empty] at found
    cases found
  · intro stem cached found
    rw [empty] at found
    cases found
  · intro stem cached found
    rw [empty] at found
    cases found

theorem cachedList_eq_some {s : Store} {q : RangeQuery} {asOf : Int} {result : RangeResult}
    (hit : s.cachedList q asOf = some result) :
    Exists fun stem : Bytes => Exists fun cached : CachedRbacRange =>
      rbacListPrefix q.range = some stem ∧ cacheable q = true ∧ s.rbacCache stem = some cached ∧
        cached.revision ≤ asOf ∧ cached.result = result := by
  unfold Store.cachedList at hit
  cases found : rbacListPrefix q.range with
  | none =>
    rw [found] at hit
    cases hit
  | some stem =>
    rw [found] at hit
    dsimp only at hit
    by_cases plain : cacheable q = true
    · rw [if_pos plain] at hit
      cases stored : s.rbacCache stem with
      | none =>
        rw [stored] at hit
        cases hit
      | some cached =>
        rw [stored] at hit
        dsimp only at hit
        by_cases late : asOf ≥ cached.revision
        · rw [if_pos late] at hit
          exact ⟨stem, cached, rfl, plain, stored, late, Option.some.inj hit⟩
        · rw [if_neg late] at hit
          cases hit
    · rw [if_neg plain] at hit
      cases hit

theorem CacheSound.hit {s : Store} (sound : CacheSound s) {q : RangeQuery} {asOf : Int}
    {result : RangeResult} (selected : s.db.readRevision q = .ok asOf)
    (hit : s.cachedList q asOf = some result) :
    rangeIn s.db.kv q.range (some asOf) q = result := by
  rcases cachedList_eq_some hit with ⟨stem, cached, found, plain, stored, late, rfl⟩
  have bounds := readRevision_bounds sound.wellFormed selected
  have agrees := sound.agrees stem cached stored asOf late bounds.1 bounds.2.1
  rw [rangeIn_cacheable plain _ _ 0, (rbacListPrefix_eq_some found).2]
  exact agrees

theorem CacheSound.faithful {s : Store} (sound : CacheSound s) : s.Faithful := by
  intro q
  unfold Store.range Db.uncachedRange
  cases selected : s.db.readRevision q with
  | error refusal => rfl
  | ok asOf =>
    dsimp only
    cases hit : s.cachedList q asOf with
    | none => rfl
    | some result => exact congrArg Except.ok (sound.hit selected hit).symm

/-! ## Steps -/

/-- A command that leaves the cache alone writes no RBAC key, so the cached
lists stay right at the old revisions and are right at the new one. -/
theorem CacheSound.apply {s s' : Store} {index : Nat} {cmd : Command} {applied : Applied}
    (sound : CacheSound s) (success : s.applyAt index cmd = .ok (applied, s')) : CacheSound s' := by
  have wellFormed := applyAt_wellFormed sound.wellFormed success
  rcases sound.wellFormed.accepted success with ⟨tx, w, accepted⟩
  by_cases cleared : (commandTouchesRbac cmd || w.events.any fun event => rbacKey event.kv.key) = true
  · exact cacheSound_of_empty wellFormed (accepted.cache.trans (if_pos cleared))
  · have kept := accepted.cache.trans (if_neg cleared)
    have grows : s.db.revision ≤ s'.db.revision := by
      rw [accepted.db, accepted.revision]
      dsimp only
      split_ifs <;> omega
    refine ⟨wellFormed, ?_, ?_, ?_⟩
    · intro stem cached found
      rw [kept] at found
      exact sound.listed stem cached found
    · intro stem cached found
      rw [kept] at found
      exact (sound.dated stem cached found).trans grows
    · intro stem cached found r late aboveCompaction reached
      rw [kept] at found
      have dated := sound.dated stem cached found
      have listed := sound.listed stem cached found
      have before := sound.agrees stem cached found
      rw [accepted.db] at aboveCompaction reached ⊢
      have fresh := sound.wellFormed.freshWriter
      cases accepted.effect with
      | writes written same =>
        rw [same.compactRevision] at aboveCompaction
        by_cases old : r ≤ s.db.revision
        · rw [← before r late aboveCompaction old]
          refine rangeIn_congr (distinct_of_writes sound.wellFormed.distinct fresh written)
            sound.wellFormed.distinct _ _ fun key _ => ?_
          exact written.visible_earlier fresh (Int.lt_add_one_of_le old) key
        · rw [← before s.db.revision dated sound.wellFormed.compactLe le_rfl]
          refine rangeIn_congr (distinct_of_writes sound.wellFormed.distinct fresh written)
            sound.wellFormed.distinct _ _ fun key inside => ?_
          have rbac := rbacKey_of_between listed inside
          have untouched : forall event, event ∈ w.events -> event.kv.key ≠ key := by
            intro event member named
            refine cleared (Bool.or_eq_true_iff.mpr (Or.inr (List.any_eq_true.mpr ⟨event, member, ?_⟩)))
            rw [named]
            exact rbac
          have bounded : forall row, row ∈ s.db.kv -> row.revision ≤ r := fun row member =>
            (sound.wellFormed.below row member).trans (not_le.mp old).le
          have unchanged : visible tx.kv (some r) key = visible s.db.kv (some r) key := by
            unfold visible
            rw [written.newestOf_untouched fresh untouched]
          rw [unchanged, visible_unbounded bounded, visible_unbounded sound.wellFormed.below]
      | compact above _ =>
        have unmoved : applied.revision = s.db.revision := accepted.revision
        rw [unmoved] at reached
        rw [← before r late (above.le.trans aboveCompaction) reached]
        exact rangeIn_pruneRows sound.wellFormed.distinct (covers_within_some aboveCompaction) _ _

/-- A store with one more cached list. -/
def Store.remember (s : Store) (stem : Bytes) (cached : CachedRbacRange) : Store where
  db := s.db
  rbacCache := Function.update s.rbacCache stem (some cached)

theorem remember_self (s : Store) (stem : Bytes) (cached : CachedRbacRange) :
    (s.remember stem cached).rbacCache stem = some cached :=
  Function.update_self ..

theorem remember_cases {s : Store} {stem other : Bytes} {cached found : CachedRbacRange}
    (stored : (s.remember stem cached).rbacCache other = some found) :
    other = stem ∧ found = cached ∨ s.rbacCache other = some found := by
  by_cases same : other = stem
  · subst other
    rw [remember_self] at stored
    exact Or.inl ⟨rfl, (Option.some.inj stored).symm⟩
  · have kept : (s.remember stem cached).rbacCache other = s.rbacCache other :=
      Function.update_of_ne same ..
    rw [kept] at stored
    exact Or.inr stored

theorem range_remember {s : Store} {stem : Bytes} {cached : CachedRbacRange} {range : KeyRange} {r : Int}
    (found : rbacListPrefix range = some stem) (selected : s.db.readRevision (plainRead range r) = .ok r)
    (late : cached.revision ≤ r) :
    ((s.remember stem cached).range (plainRead range r)).1 = .ok cached.result := by
  have served : (s.remember stem cached).cachedList (plainRead range r) r = some cached.result := by
    have sameRange : rbacListPrefix (plainRead range r).range = some stem := found
    have plain : cacheable (plainRead range r) = true := rfl
    unfold Store.cachedList
    simp only [sameRange, remember_self]
    rw [if_pos plain, if_pos late]
  have selectedThere : (s.remember stem cached).db.readRevision (plainRead range r) = .ok r := selected
  unfold Store.range
  simp only [selectedThere, served]

theorem range_store {s : Store} {q : RangeQuery} {asOf : Int} {stem : Bytes}
    (selected : s.db.readRevision q = .ok asOf) (found : rbacListPrefix q.range = some stem)
    (plain : cacheable q = true) (missed : s.cachedList q asOf = none) :
    (s.range q).2 =
      s.remember stem { revision := asOf, result := rangeIn s.db.kv q.range (some asOf) q } := by
  unfold Store.range
  simp only [selected, missed, Store.fillCache, found, if_pos plain, Store.remember]

theorem range_store_same {s : Store} {q : RangeQuery}
    (unfilled : forall asOf stem, s.db.readRevision q = .ok asOf -> rbacListPrefix q.range = some stem ->
      cacheable q = true -> Exists fun result : RangeResult => s.cachedList q asOf = some result) :
    (s.range q).2 = s := by
  unfold Store.range
  cases selected : s.db.readRevision q with
  | error refusal => rfl
  | ok asOf =>
    dsimp only
    cases hit : s.cachedList q asOf with
    | some result => rfl
    | none =>
      unfold Store.fillCache
      cases found : rbacListPrefix q.range with
      | none => rfl
      | some stem =>
        by_cases plain : cacheable q = true
        · rcases unfilled asOf stem selected found plain with ⟨result, impossible⟩
          rw [hit] at impossible
          cases impossible
        · exact if_neg plain

theorem CacheSound.read {s : Store} (sound : CacheSound s) {q : RangeQuery}
    (steady : SteadyRead s (.read q)) : CacheSound (s.range q).2 := by
  by_cases fills : Exists fun asOf : Int => Exists fun stem : Bytes =>
      s.db.readRevision q = .ok asOf ∧ rbacListPrefix q.range = some stem ∧ cacheable q = true ∧
        s.cachedList q asOf = none
  · rcases fills with ⟨asOf, stem, selected, found, plain, missed⟩
    rw [range_store selected found plain missed]
    have bounds := readRevision_bounds sound.wellFormed selected
    have range := rbacListPrefix_eq_some found
    refine ⟨sound.wellFormed, ?_, ?_, ?_⟩
    · intro other cached stored
      rcases remember_cases stored with ⟨rfl, _⟩ | old
      · exact range.1
      · exact sound.listed other cached old
    · intro other cached stored
      rcases remember_cases stored with ⟨rfl, rfl⟩ | old
      · exact bounds.2.1
      · exact sound.dated other cached old
    · intro other cached stored r late aboveCompaction reached
      rcases remember_cases stored with ⟨rfl, rfl⟩ | old
      · rw [rangeIn_cacheable plain _ _ 0, range.2]
        refine rangeIn_congr sound.wellFormed.distinct sound.wellFormed.distinct _ _ fun key inside => ?_
        rw [← range.2] at inside
        exact steady asOf other selected found plain r key late reached inside
      · exact sound.agrees other cached old r late aboveCompaction reached
  · rw [range_store_same]
    · exact sound
    · intro asOf stem selected found plain
      cases hit : s.cachedList q asOf with
      | some result => exact ⟨result, rfl⟩
      | none => exact absurd ⟨asOf, stem, selected, found, plain, hit⟩ fills

theorem CacheSound.step {s : Store} (sound : CacheSound s) {label : StoreStep} (steady : SteadyRead s label) :
    CacheSound (s.step label) := by
  cases label with
  | apply index cmd =>
    change CacheSound (s.after (index, cmd))
    cases outcome : s.applyAt index cmd with
    | error refusal =>
      rw [@Store.after_error s (index, cmd) refusal outcome]
      exact sound
    | ok result =>
      rw [@Store.after_ok s (index, cmd) result outcome]
      exact sound.apply outcome
  | restore source =>
    simp only [Store.step]
    cases outcome : s.restoreSnapshot source.val.db.exportSnapshot with
    | error failure => exact sound
    | ok s' =>
      have wellFormed := source.property.wellFormed
      have parts := (restoreSnapshot_ok_iff wellFormed.leases wellFormed.members).mp outcome
      refine cacheSound_of_empty (restoreSnapshot_wellFormed wellFormed outcome) ?_
      rw [parts.2]
  | read q => exact sound.read steady

/-- After a read that was not steady, a plain read at some later revision is
served the older list. -/
theorem steadyRead_of_faithful {s : Store} (sound : CacheSound s) {label : StoreStep}
    (faithful : (s.step label).Faithful) : SteadyRead s label := by
  cases label with
  | apply index cmd | restore source => exact True.intro
  | read q =>
    intro asOf stem selected found plain r key late reached inside
    have bounds := readRevision_bounds sound.wellFormed selected
    rcases eq_or_lt_of_le late with rfl | later
    · rfl
    · have aboveCompaction : s.db.compactRevision < r := lt_of_le_of_lt bounds.1 later
      have range := rbacListPrefix_eq_some found
      have historical : 0 < r := by omega
      have selectedLater : s.db.readRevision (plainRead q.range r) = .ok r :=
        readRevision_explicit historical aboveCompaction reached
      have pages : rangeIn s.db.kv q.range (some r) (plainRead q.range r) =
          rangeIn s.db.kv q.range (some asOf) (plainRead q.range 0) := by
        cases hit : s.cachedList q asOf with
        | some result =>
          rcases cachedList_eq_some hit with ⟨stem', cached, found', _, stored, older, _⟩
          have sameStem : stem = stem' := Option.some.inj (found.symm.trans found')
          subst sameStem
          have agrees := sound.agrees stem cached stored
          rw [range.2]
          exact (agrees r (older.trans late) aboveCompaction.le reached).trans
            (agrees asOf older bounds.1 bounds.2.1).symm
        | none =>
          have probed := faithful (plainRead q.range r)
          simp only [Store.step] at probed
          rw [range_store selected found plain hit, range_remember found selectedLater late] at probed
          have queried : (s.remember stem
              { revision := asOf, result := rangeIn s.db.kv q.range (some asOf) q }).db.uncachedRange
              (plainRead q.range r) = .ok (rangeIn s.db.kv q.range (some r) (plainRead q.range r)) :=
            congrArg (Except.map _) selectedLater
          rw [queried, rangeIn_cacheable plain _ _ 0] at probed
          exact (Except.ok.inj probed).symm
      exact visible_eq_of_rangeIn_eq (congrArg RangeResult.kvs pages) inside

/-- Every read along a run is answered as the query would answer it exactly
when the run reads full RBAC lists at steady revisions only. -/
theorem store_faithful_iff (steps : List StoreStep) :
    AlongRun Store.step Store.Faithful Store.fresh steps <->
      EveryStep Store.step SteadyRead Store.fresh steps := by
  refine @alongRun_iff_everyStep _ _ Store.step CacheSound Store.Faithful (fun _ _ => True) SteadyRead
    ?_ ?_ ?_ _ _ ?_ (EveryStep.unconditional _ _)
  · intro s label sound _ steady
    exact sound.step steady
  · intro s sound
    exact sound.faithful
  · intro s label sound _ faithful
    exact steadyRead_of_faithful sound faithful
  · exact cacheSound_of_empty Db.initSchema_wellFormed rfl

/-- A role is written twice and the list is read at the older revision. -/
def historicalListRead : List StoreStep :=
  let stem := ascii "/registry/roles/"
  let put (value : String) : Command :=
    .put { key := stem ++ ascii "ns/admin", value := ascii value, lease := 0, prevKv := false,
           ignoreValue := false, ignoreLease := false }
  [.apply 1 (put "narrow"), .apply 2 (put "wide"),
    .read (plainRead (.between stem (prefixRangeEnd stem)) 2)]

/-- The current list is then served as it was before the second write. -/
theorem historicalListRead_stale :
    ¬ AlongRun Store.step Store.Faithful Store.fresh historicalListRead := by
  intro along
  have served := along.finish
    (RangeQuery.current (.between (ascii "/registry/roles/") (prefixRangeEnd (ascii "/registry/roles/"))))
  exact absurd served (by decide)

end NotK8s.Nodestore

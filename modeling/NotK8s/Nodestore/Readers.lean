import NotK8s.Nodestore.EventFold
import NotK8s.Nodestore.RbacCache

namespace NotK8s.Nodestore

open Library

/-!
# Histories with readers

Reads between the commands change nothing but the cache of RBAC lists.  Every
answer is computed from the events up to the revision that was asked for, or
is a cached list, computed from the events up to the revision it was read at.
-/

inductive Turn where
  | apply (index : Nat) (cmd : Command)
  | read (q : RangeQuery)

namespace Recorded

def turn (h : Recorded) : Turn -> Recorded
  | .apply index cmd => h.step (index, cmd)
  | .read q => { h with store := (h.store.range q).2 }

/-- The events account for the table and for every cached list. -/
structure Told (h : Recorded) : Prop where
  wellFormed : h.store.db.WellFormed
  refines : Refines h.store.db.kv h.store.db.compactRevision h.published
  dated : forall stamped, stamped ∈ h.published -> stamped.1 ≤ h.store.db.revision
  cached : forall stem cached, h.store.rbacCache stem = some cached ->
    cached.revision ≤ h.store.db.revision ∧ cached.result =
      expectedRange (eventsUpTo cached.revision h.published) (RangeQuery.current (.between stem (prefixRangeEnd stem)))

/-- What was published up to the revision stays. -/
structure Extends (h h' : Recorded) : Prop where
  grows : h.store.db.revision ≤ h'.store.db.revision
  earlier : forall r, r ≤ h.store.db.revision -> eventsUpTo r h'.published = eventsUpTo r h.published

theorem Extends.refl (h : Recorded) : Extends h h :=
  ⟨le_rfl, fun _ _ => rfl⟩

theorem Extends.trans {h h' h'' : Recorded} (first : Extends h h') (second : Extends h' h'') : Extends h h'' where
  grows := first.grows.trans second.grows
  earlier := fun r below => (second.earlier r (below.trans first.grows)).trans (first.earlier r below)

theorem fresh_told : fresh.Told where
  wellFormed := Db.initSchema_wellFormed
  refines := fun _ _ _ => rfl
  dated := nofun
  cached := nofun

variable {h : Recorded}

section

variable (told : h.Told)
include told

theorem Told.apply {index : Nat} {cmd : Command} {applied : Applied} {store : Store}
    (success : h.store.applyAt index cmd = .ok (applied, store)) :
    Told { store := store, published := h.published ++ applied.stamped } ∧
      Extends h { store := store, published := h.published ++ applied.stamped } := by
  rcases told.wellFormed.accepted success with ⟨tx, w, accepted⟩
  have revision : store.db.revision = applied.revision := by rw [accepted.db]
  have moved := accepted.revision_eq
  have grows : h.store.db.revision ≤ store.db.revision := by
    rw [revision, moved]
    split_ifs <;> omega
  have above : forall stamped, stamped ∈ applied.stamped ->
      h.store.db.revision < stamped.1 ∧ stamped.1 ≤ store.db.revision := by
    intro stamped member
    rcases List.mem_map.mp member with ⟨event, published, rfl⟩
    rw [if_neg (List.ne_nil_of_mem published)] at moved
    exact ⟨by change _ < applied.revision; omega, revision.ge⟩
  have earlier : forall r, r ≤ h.store.db.revision ->
      eventsUpTo r (h.published ++ applied.stamped) = eventsUpTo r h.published := by
    intro r below
    rw [eventsUpTo_append]
    have later : eventsUpTo r applied.stamped = [] := by
      apply List.filter_eq_nil_iff.mpr
      intro stamped member reached
      exact absurd ((of_decide_eq_true reached).trans below) (not_le.mpr (above stamped member).1)
    rw [later, List.append_nil]
  refine ⟨⟨applyAt_wellFormed told.wellFormed success, told.refines.applyAt told.wellFormed success, ?_, ?_⟩, grows, earlier⟩
  · intro stamped member
    rcases List.mem_append.mp member with before | new
    · exact (told.dated stamped before).trans grows
    · exact (above stamped new).2
  · intro stem cached stored
    have kept : h.store.rbacCache stem = some cached := by
      rw [accepted.cache] at stored
      split_ifs at stored
      exact stored
    rcases told.cached stem cached kept with ⟨below, result⟩
    exact ⟨below.trans grows, by rw [result, ← earlier cached.revision below]⟩

theorem Told.rangeIn_eq {q : RangeQuery} {asOf : Int} (selected : h.store.db.readRevision q = .ok asOf) :
    rangeIn h.store.db.kv q.range (some asOf) q = expectedRange (eventsUpTo asOf h.published) q :=
  told.refines.rangeIn_eq told.wellFormed.distinct (readRevision_bounds told.wellFormed selected).1 q

theorem Told.read (q : RangeQuery) : Told { h with store := (h.store.range q).2 } := by
  have same := range_db h.store q
  refine ⟨?_, ?_, ?_, ?_⟩
  · rw [same]
    exact told.wellFormed
  · rw [same]
    exact told.refines
  · intro stamped member
    rw [same]
    exact told.dated stamped member
  · intro stem cached stored
    rw [same]
    by_cases fills : Exists fun asOf : Int => Exists fun stem : Bytes =>
        h.store.db.readRevision q = .ok asOf ∧ rbacListPrefix q.range = some stem ∧ cacheable q = true ∧
          h.store.cachedList q asOf = none
    · rcases fills with ⟨asOf, own, selected, named, plain, missed⟩
      rw [range_store selected named plain missed] at stored
      rcases remember_cases stored with ⟨rfl, rfl⟩ | old
      · refine ⟨(readRevision_bounds told.wellFormed selected).2.1, ?_⟩
        have current : q.range = .between stem (prefixRangeEnd stem) := (rbacListPrefix_eq_some named).2
        have page := rangeIn_cacheable plain h.store.db.kv (some asOf) 0
        rw [← current]
        exact page.trans (told.refines.rangeIn_eq told.wellFormed.distinct
          (readRevision_bounds told.wellFormed selected).1 (plainRead q.range 0))
      · exact told.cached stem cached old
    · rw [range_store_same] at stored
      · exact told.cached stem cached stored
      · intro asOf own selected named plain
        cases hit : h.store.cachedList q asOf with
        | some result => exact ⟨result, rfl⟩
        | none => exact absurd ⟨asOf, own, selected, named, plain, hit⟩ fills

theorem Told.turn (label : Turn) : (h.turn label).Told ∧ Extends h (h.turn label) := by
  cases label with
  | apply index cmd =>
    rcases h.step_cases (index, cmd) with ⟨refusal, _, same⟩ | ⟨applied, store, success, next⟩
    · change (h.step (index, cmd)).Told ∧ Extends h (h.step (index, cmd))
      rw [same]
      exact ⟨told, Extends.refl h⟩
    · change (h.step (index, cmd)).Told ∧ Extends h (h.step (index, cmd))
      rw [next]
      exact told.apply success
  | read q =>
    have same := range_db h.store q
    exact ⟨told.read q, ⟨by rw [Recorded.turn, same], fun _ _ => rfl⟩⟩

theorem Told.turns (labels : List Turn) :
    (run Recorded.turn h labels).Told ∧ Extends h (run Recorded.turn h labels) := by
  induction labels generalizing h with
  | nil => exact ⟨told, Extends.refl h⟩
  | cons label rest ih =>
    rcases told.turn label with ⟨next, extended⟩
    rcases ih next with ⟨last, later⟩
    exact ⟨last, extended.trans later⟩

theorem Told.range_ok {q : RangeQuery} {result : RangeResult} (answered : (h.store.range q).1 = .ok result) :
    Exists fun asOf : Int => h.store.db.readRevision q = .ok asOf ∧
      (h.store.cachedList q asOf = some result ∨
        (h.store.cachedList q asOf = none ∧ result = expectedRange (eventsUpTo asOf h.published) q)) := by
  unfold Store.range at answered
  cases selected : h.store.db.readRevision q with
  | error refusal =>
    rw [selected] at answered
    cases answered
  | ok asOf =>
    rw [selected] at answered
    dsimp only at answered
    refine ⟨asOf, rfl, ?_⟩
    cases hit : h.store.cachedList q asOf with
    | some found =>
      rw [hit] at answered
      exact Or.inl (congrArg some (Except.ok.inj answered))
    | none =>
      rw [hit] at answered
      exact Or.inr ⟨rfl, (Except.ok.inj answered).symm.trans (told.rangeIn_eq selected)⟩

theorem Told.range_computed {q : RangeQuery} {asOf : Int} (selected : h.store.db.readRevision q = .ok asOf)
    (missed : h.store.cachedList q asOf = none) :
    (h.store.range q).1 = .ok (expectedRange (eventsUpTo asOf h.published) q) := by
  unfold Store.range
  simp only [selected, missed]
  exact congrArg Except.ok (told.rangeIn_eq selected)

end

theorem range_of_hit {s : Store} {q : RangeQuery} {asOf : Int} {result : RangeResult}
    (selected : s.db.readRevision q = .ok asOf) (hit : s.cachedList q asOf = some result) : s.range q = (.ok result, s) := by
  unfold Store.range
  simp only [selected, hit]

theorem Told.cachedList (told : h.Told) {q : RangeQuery} {asOf : Int} {result : RangeResult}
    (hit : h.store.cachedList q asOf = some result) :
    Exists fun r : Int => Exists fun stem : Bytes => stem ∈ rbacListPrefixes ∧
      q.range = .between stem (prefixRangeEnd stem) ∧ cacheable q = true ∧
        result = expectedRange (eventsUpTo r h.published) (RangeQuery.current q.range) := by
  rcases cachedList_eq_some hit with ⟨stem, cached, found, plain, stored, _, rfl⟩
  rcases rbacListPrefix_eq_some found with ⟨listed, range⟩
  refine ⟨cached.revision, stem, listed, range, plain, ?_⟩
  rw [range]
  exact (told.cached stem cached stored).2

end Recorded

end NotK8s.Nodestore

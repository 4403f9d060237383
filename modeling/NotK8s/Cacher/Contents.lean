import NotK8s.Cacher.Handoff
import NotK8s.Library.Window
import NotK8s.Nodestore.EventFold
import NotK8s.Nodestore.Publication

namespace NotK8s.Cacher

open Library Nodestore Watch

/-!
# What a cache should hold

The events published up to a revision determine the pairs of a key range, and
so the objects that a cache of the range should hold at the revision.  An
event in the range changes them as it changes a cache that is told of it, and
an event outside leaves them alone.
-/

/-- What a cache keeps of a pair, under its key. -/
def listed (kv : KeyValue) : Bytes × CacheEntry :=
  (kv.key, { value := kv.value, modRevision := kv.modRevision })

/-- The objects of a range after the events. -/
def contents (events : List (Int × Event)) (range : KeyRange) : Items where
  entries := (expectedPairs events range).map listed
  sorted := List.pairwise_map.mpr (expectedPairs_sorted events range)

/-- A published event as a cache is told of it. -/
def told (event : Event) : WatchEvent :=
  let kind : EventKind :=
    if event.kind = .delete then .deleted else if event.kv.version = 1 then .added else .modified
  { kind := kind
    key := event.kv.key
    value := if kind = .deleted then [] else event.kv.value
    revision := event.kv.modRevision }

@[simp] theorem told_revision (event : Event) : (told event).revision = event.kv.modRevision := rfl

theorem told_kind_ne_bookmark (event : Event) : (told event).kind ≠ .bookmark := by
  unfold told
  split_ifs <;> simp

/-- Every pair an event carries is dated with the revision it was published
at. -/
def Dated (feed : List (Int × Event)) : Prop :=
  forall stamped, stamped ∈ feed -> stamped.2.kv.modRevision = stamped.1

section
variable {events feed : List (Int × Event)} {range : KeyRange} {key : Bytes} {lower upper : Int}

theorem get_contents :
    (contents events range).get key =
      if range.contains key then (expectedPair events key).map fun kv => (listed kv).2 else none := by
  apply Option.ext
  intro entry
  rw [← SortedMap.mem_entries]
  unfold contents
  rw [List.mem_map]
  constructor
  · rintro ⟨pair, member, same⟩
    rcases mem_expectedPairs.mp member with ⟨inside, expected⟩
    cases same
    rw [if_pos inside]
    rw [expected]
    rfl
  · intro found
    split_ifs at found with inside
    rcases Option.map_eq_some_iff.mp found with ⟨pair, expected, same⟩
    have named := expectedPair_key expected
    subst named
    exact ⟨pair, mem_expectedPairs.mpr ⟨inside, expected⟩, Prod.ext rfl same⟩

theorem contents_nil (range : KeyRange) : contents [] range = SortedMap.empty := by
  apply SortedMap.ext_get
  intro key
  rw [get_contents]
  exact ite_self _

theorem contents_concat (stamped : Int × Event) (dated : stamped.2.kv.modRevision = stamped.1)
    (inside : range.contains stamped.2.kv.key = true) :
    contents (events ++ [stamped]) range = (told stamped.2).applyTo (contents events range) := by
  apply SortedMap.ext_get
  intro key
  rw [get_contents, expectedPair_concat]
  by_cases same : stamped.2.kv.key = key
  · subst same
    rw [if_pos inside, if_pos rfl]
    unfold told WatchEvent.applyTo
    cases kind : stamped.2.kind with
    | put => by_cases first : stamped.2.kv.version = 1 <;> simp [first, SortedMap.get_insert, listed, dated]
    | delete => simp [SortedMap.get_erase]
  · have other : key ≠ stamped.2.kv.key := fun equal => same equal.symm
    rw [if_neg same, ← get_contents]
    unfold told WatchEvent.applyTo
    cases kind : stamped.2.kind with
    | put => by_cases first : stamped.2.kv.version = 1 <;> simp [first, SortedMap.get_insert, other]
    | delete => simp [SortedMap.get_erase, other]

theorem contents_outside (stamped : Int × Event) (outside : range.contains stamped.2.kv.key = false) :
    contents (events ++ [stamped]) range = contents events range := by
  apply SortedMap.ext_get
  intro key
  rw [get_contents, get_contents, expectedPair_concat]
  by_cases same : stamped.2.kv.key = key
  · rw [← same, outside]
    rfl
  · rw [if_neg same]

/-! ## Windows of the published events -/

/-- The events of a range published after one revision and up to another. -/
def publishedIn (range : KeyRange) (lower upper : Int) (feed : List (Int × Event)) : List (Int × Event) :=
  window Prod.fst (fun stamped => range.contains stamped.2.kv.key) lower upper feed

theorem replayed_append_told (later : List (Int × Event)) (dated : Dated later) :
    replayed (contents events range)
        ((later.filter fun stamped => range.contains stamped.2.kv.key).map fun stamped => told stamped.2) =
      contents (events ++ later) range := by
  induction later generalizing events with
  | nil => rw [List.append_nil]; rfl
  | cons stamped rest ih =>
    have later := @ih (events ++ [stamped]) fun other member =>
      dated other (.tail _ member)
    rw [List.append_assoc, List.singleton_append] at later
    rw [← later]
    cases inside : range.contains stamped.2.kv.key with
    | true =>
      rw [contents_concat stamped (dated stamped List.mem_cons_self) inside]
      simp [inside, replayed]
    | false =>
      rw [contents_outside stamped inside]
      simp [inside]

/-- A cache that holds the objects at one revision and is told of what was
published up to another holds the objects at the other. -/
theorem replayed_publishedIn (sorted : feed.Pairwise fun first second => first.1 ≤ second.1)
    (dated : Dated feed) (order : lower ≤ upper) :
    replayed (contents (eventsUpTo lower feed) range)
        ((publishedIn range lower upper feed).map fun stamped => told stamped.2) =
      contents (eventsUpTo upper feed) range := by
  have split : eventsUpTo lower feed ++ window Prod.fst (fun _ => true) lower upper feed =
      eventsUpTo upper feed := filter_le_window sorted order
  have kept : publishedIn range lower upper feed =
      (window Prod.fst (fun _ => true) lower upper feed).filter fun stamped => range.contains stamped.2.kv.key := by
    unfold publishedIn window
    rw [List.filter_filter]
    apply List.filter_congr
    intro stamped _
    rw [Bool.and_true, Bool.and_comm]
  rw [kept, ← split]
  apply replayed_append_told
  intro stamped member
  exact dated stamped (mem_window.mp member).1

theorem contents_quiet (sorted : feed.Pairwise fun first second => first.1 ≤ second.1)
    (dated : Dated feed) (order : lower ≤ upper) (quiet : publishedIn range lower upper feed = []) :
    contents (eventsUpTo upper feed) range = contents (eventsUpTo lower feed) range := by
  rw [← replayed_publishedIn sorted dated order, quiet]
  rfl

end

/-! ## Published events are dated -/

theorem writeStep_dated {kv kv' : List KvRow} {w w' : Writer} (step : WriteStep kv w kv' w')
    (dated : forall event, event ∈ w.events -> event.kv.modRevision = w.next) :
    forall event, event ∈ w'.events -> event.kv.modRevision = w'.next := by
  cases step with
  | put key value lease | delete prev current =>
    intro event member
    rw [Writer.wrote_events] at member
    rcases List.mem_append.mp member with earlier | last
    · exact dated event earlier
    · rw [List.mem_singleton.mp last]
      rfl

theorem writes_dated {kv kv' : List KvRow} {w w' : Writer} (writes : Writes kv w kv' w')
    (dated : forall event, event ∈ w.events -> event.kv.modRevision = w.next) :
    forall event, event ∈ w'.events -> event.kv.modRevision = w'.next := by
  induction writes with
  | refl => exact dated
  | tail _ step ih => exact writeStep_dated step ih

theorem history_dated (entries : List (Nat × Command)) : Dated (history entries).published := by
  refine @history_induction (fun h => Dated h.published) (fun _ no => nomatch no) ?_ entries
  intro h index cmd applied store reachable dated success
  rcases reachable.wellFormed.accepted success with ⟨tx, w, accepted⟩
  intro stamped member
  rcases List.mem_append.mp member with earlier | new
  · exact dated stamped earlier
  · rw [accepted.stamped_eq] at new
    rcases List.mem_map.mp new with ⟨event, written, rfl⟩
    cases accepted.effect with
    | writes writes _ => exact writes_dated writes (fun _ no => nomatch no) event written
    | compact _ _ => cases written

theorem logged_dated {node : Node} (logged : node.Logged) : Dated node.stamped := by
  rcases logged.log with ⟨entries, _, published⟩
  rw [← published]
  exact history_dated entries

end NotK8s.Cacher

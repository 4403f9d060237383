import Mathlib.Data.String.Basic
import NotK8s.Library.Relist

namespace NotK8s.Scheduler

open Library

/-!
# Sweeping after a list

A watch that takes every listed object as an update keeps serving what it had
while the list is delivered.  Its sweep remembers the keys it has put into the
cache and those it has seen since the list began, and at the end of the list
the rest is removed.

What a watch does to its part of the cache is described here by a view, the
value shown under each key.  The keys are the code's, and an identity is what
tells two objects apart.
-/

theorem look_drops {State Value : Type} (look : State -> String -> Option Value) {drop : State -> String -> State}
    (drops : forall state key other, look (drop state key) other = if other = key then none else look state other)
    {keys : List String} {state : State} {other : String} :
    look (keys.foldl drop state) other = if other ∈ keys then none else look state other := by
  rw [look_foldl look (fun _ => none) fun key _ state => drops state key, List.map_id']

theorem same_foldl {State Observed : Type} {observe : State -> Observed} {drop : State -> String -> State}
    (keeps : forall state key, observe (drop state key) = observe state) {keys : List String} {state : State} :
    observe (keys.foldl drop state) = observe state := by
  induction keys generalizing state with
  | nil => rfl
  | cons first rest ih => rw [List.foldl_cons, ih, keeps]

abbrev KeySet :=
  SortedMap String Unit

structure RelistSweep where
  known : KeySet
  seen : KeySet
  relisting : Bool

namespace RelistSweep

def default : RelistSweep where
  known := .empty
  seen := .empty
  relisting := false

def begin (s : RelistSweep) : RelistSweep :=
  { s with seen := .empty, relisting := true }

def observe (s : RelistSweep) (key : String) : RelistSweep :=
  { s with
    known := s.known.insert key ()
    seen := if s.relisting then s.seen.insert key () else s.seen }

def forget (s : RelistSweep) (key : String) : RelistSweep :=
  { s with known := s.known.erase key, seen := s.seen.erase key }

/-- The keys that did not come back. -/
def gone (s : RelistSweep) : List String :=
  (s.known.filter fun key _ => (s.seen.get key).isNone).entries.map Prod.fst

def finish (s : RelistSweep) : RelistSweep × List String :=
  (⟨s.gone.foldl SortedMap.erase s.known, .empty, false⟩, s.gone)

def Knows (s : RelistSweep) (key : String) : Prop :=
  s.known.get key = some ()

def Saw (s : RelistSweep) (key : String) : Prop :=
  s.seen.get key = some ()

variable {s : RelistSweep} {key other : String}

theorem observe_knows : (s.observe key).Knows other <-> other = key ∨ s.Knows other := by
  unfold Knows observe
  rw [SortedMap.get_insert]
  split_ifs with same
  · exact iff_of_true rfl (Or.inl same)
  · exact ⟨Or.inr, fun known => known.resolve_left same⟩

theorem observe_saw (relisting : s.relisting = true) : (s.observe key).Saw other <-> other = key ∨ s.Saw other := by
  unfold Saw observe
  rw [if_pos relisting, SortedMap.get_insert]
  split_ifs with same
  · exact iff_of_true rfl (Or.inl same)
  · exact ⟨Or.inr, fun seen => seen.resolve_left same⟩

theorem forget_knows : (s.forget key).Knows other <-> s.Knows other ∧ other ≠ key := by
  unfold Knows forget
  rw [SortedMap.get_erase]
  split_ifs with same
  · exact iff_of_false nofun fun known => known.2 same
  · exact ⟨fun known => ⟨known, same⟩, fun known => known.1⟩

theorem mem_gone : key ∈ s.gone <-> s.Knows key ∧ ¬ s.Saw key := by
  unfold gone Knows Saw
  rw [List.mem_map]
  constructor
  · rintro ⟨⟨other, unit⟩, listed, rfl⟩
    have found := SortedMap.mem_entries.mp listed
    rw [SortedMap.get_filter, Option.filter_eq_some_iff] at found
    refine ⟨found.1, fun seen => ?_⟩
    rw [seen] at found
    cases found.2
  · rintro ⟨known, unseen⟩
    refine ⟨(key, ()), SortedMap.mem_entries.mpr ?_, rfl⟩
    rw [SortedMap.get_filter, Option.filter_eq_some_iff]
    refine ⟨known, ?_⟩
    cases seen : s.seen.get key with
    | none => rfl
    | some unit => exact absurd seen unseen

theorem finish_known : s.finish.1.known.get other = if other ∈ s.gone then none else s.known.get other :=
  look_drops (fun m : KeySet => m.get) fun _ _ _ => SortedMap.get_erase

theorem finish_knows : s.finish.1.Knows key <-> s.Knows key ∧ s.Saw key := by
  unfold Knows
  rw [finish_known]
  split_ifs with swept
  · exact iff_of_false nofun fun both => (mem_gone.mp swept).2 both.2
  · constructor
    · intro known
      refine ⟨known, ?_⟩
      by_contra unseen
      exact swept (mem_gone.mpr ⟨known, unseen⟩)
    · exact fun both => both.1

end RelistSweep

/-! ## One watch -/

/-- How the code names the objects of a watch and what it keeps of them. -/
structure Watch (Id Obj Value : Type) where
  identity : Obj -> Id
  key : Obj -> String
  project : Obj -> Option Value
  determined : forall {object other : Obj}, identity object = identity other -> key object = key other

namespace Watch

variable {Id Obj Value : Type} [LinearOrder Id] (w : Watch Id Obj Value)

/-- The view after an event. -/
def showing (sweep : RelistSweep) (view : String -> Option Value) : WatchEvent Obj -> String -> Option Value
  | .init => view
  | .initApply object | .apply object => Function.update view (w.key object) (w.project object)
  | .delete object => Function.update view (w.key object) none
  | .initDone => fun key => if key ∈ sweep.gone then none else view key

def sweeping (sweep : RelistSweep) : WatchEvent Obj -> RelistSweep
  | .init => sweep.begin
  | .initApply object | .apply object => sweep.observe (w.key object)
  | .delete object => sweep.forget (w.key object)
  | .initDone => sweep.finish.1

/-- What a watcher reports when: a list is delivered between its beginning and
its end, and changes are reported after a list. -/
def Reports (lists : Reflected Id Obj) : WatchEvent Obj -> Prop
  | .init => True
  | .initApply _ | .initDone => lists.building.isSome = true
  | .apply _ | .delete _ => lists.Complete

instance (lists : Reflected Id Obj) : forall event, Decidable (Reports lists event)
  | .init => isTrue True.intro
  | .initApply _ | .initDone => inferInstanceAs (Decidable (lists.building.isSome = true))
  | .apply _ | .delete _ => inferInstanceAs (Decidable lists.Complete)

/-- The key of the object is no other object's. -/
def ApartFrom (held : SortedMap Id Obj) (object : Obj) : Prop :=
  forall entry, entry ∈ held.entries -> w.key entry.2 = w.key object -> entry.1 = w.identity object

instance (held : SortedMap Id Obj) (object : Obj) : Decidable (w.ApartFrom held object) :=
  inferInstanceAs (Decidable (forall entry, entry ∈ held.entries -> _))

/-- The object of the event shares its key with no other object that the
watcher has listed in this list, or knows of after one. -/
def Apart (lists : Reflected Id Obj) : WatchEvent Obj -> Prop
  | .init | .initDone => True
  | .initApply object => forall building, lists.building = some building -> w.ApartFrom building object
  | .apply object | .delete object => forall complete, lists.complete = some complete -> w.ApartFrom complete object

private def decidableForallSome {Value : Type} {p : Value -> Prop} [forall value, Decidable (p value)] :
    forall found : Option Value, Decidable (forall value, found = some value -> p value)
  | none => isTrue nofun
  | some value => decidable_of_iff (p value) ⟨fun holds _ same => Option.some.inj same ▸ holds, fun all => all value rfl⟩

instance (lists : Reflected Id Obj) : forall event, Decidable (w.Apart lists event)
  | .init | .initDone => isTrue True.intro
  | .initApply _ => decidableForallSome lists.building
  | .apply _ | .delete _ => decidableForallSome lists.complete

/-- The view shows exactly these objects among these keys. -/
structure Exactly (held : SortedMap Id Obj) (keys : String -> Prop) (view : String -> Option Value) : Prop where
  own : forall id object, held.get id = some object -> w.identity object = id
  shows : forall id object, held.get id = some object -> keys (w.key object) ∧ view (w.key object) = w.project object
  only : forall key, keys key -> Exists fun id => Exists fun object => held.get id = some object ∧ w.key object = key

/-- The sweep and the view are in step with what was reported. -/
structure Tracks (lists : Reflected Id Obj) (sweep : RelistSweep) (view : String -> Option Value) : Prop where
  relisting : sweep.relisting = lists.building.isSome
  hidden : forall key, ¬ sweep.Knows key -> view key = none
  shown : forall key, sweep.Knows key -> Exists fun object => w.key object = key ∧ view key = w.project object
  seen : forall key, sweep.relisting = true -> sweep.Saw key -> sweep.Knows key
  kept : forall complete, lists.complete = some complete -> forall id object, complete.get id = some object ->
    sweep.Knows (w.key object)
  listed : forall building, lists.building = some building -> w.Exactly building sweep.Saw view
  between : lists.building = none -> forall complete, lists.complete = some complete -> w.Exactly complete sweep.Knows view

/-- Between lists the view shows the objects of the last list as changed
since, no more and no fewer.  In a list every object that was there before is
still shown, perhaps in a version that was delivered meanwhile. -/
structure Converges (lists : Reflected Id Obj) (view : String -> Option Value) : Prop where
  between : lists.building = none -> forall complete, lists.complete = some complete ->
    (forall id object, complete.get id = some object -> view (w.key object) = w.project object) ∧
    (forall key value, view key = some value -> Exists fun id => Exists fun object =>
      complete.get id = some object ∧ w.key object = key ∧ w.project object = some value)
  kept : forall complete, lists.complete = some complete -> forall id object, complete.get id = some object ->
    Exists fun version => w.key version = w.key object ∧ view (w.key object) = w.project version

variable {w} {held : SortedMap Id Obj} {keys keys' : String -> Prop} {view : String -> Option Value}
  {lists : Reflected Id Obj} {sweep : RelistSweep} {object : Obj}

theorem Exactly.congr (exactly : w.Exactly held keys view) (same : forall key, keys key <-> keys' key) :
    w.Exactly held keys' view := by
  have equal : keys = keys' := funext fun key => propext (same key)
  exact equal ▸ exactly

theorem Exactly.insert (exactly : w.Exactly held keys view) (apart : w.ApartFrom held object) :
    w.Exactly (held.insert (w.identity object) object) (fun key => key = w.key object ∨ keys key)
      (Function.update view (w.key object) (w.project object)) := by
  constructor
  · intro id stored found
    rw [SortedMap.get_insert] at found
    split_ifs at found with here
    · rw [← Option.some.inj found, here]
    · exact exactly.own id stored found
  · intro id stored found
    rw [SortedMap.get_insert] at found
    split_ifs at found with here
    · cases found
      exact ⟨Or.inl rfl, Function.update_self ..⟩
    · have other : w.key stored ≠ w.key object :=
        fun same => here (apart (id, stored) (SortedMap.mem_entries.mpr found) same)
      rw [Function.update_of_ne other]
      exact ⟨Or.inr (exactly.shows id stored found).1, (exactly.shows id stored found).2⟩
  · rintro key (rfl | known)
    · exact ⟨w.identity object, object, by rw [SortedMap.get_insert, if_pos rfl], rfl⟩
    · rcases exactly.only key known with ⟨id, stored, found, rfl⟩
      by_cases here : id = w.identity object
      · refine ⟨w.identity object, object, by rw [SortedMap.get_insert, if_pos rfl], ?_⟩
        exact w.determined (here.symm.trans (exactly.own id stored found).symm)
      · exact ⟨id, stored, by rw [SortedMap.get_insert, if_neg here, found], rfl⟩

theorem Exactly.erase (exactly : w.Exactly held keys view) (apart : w.ApartFrom held object) :
    w.Exactly (held.erase (w.identity object)) (fun key => keys key ∧ key ≠ w.key object)
      (Function.update view (w.key object) none) := by
  have rest : forall id stored, (held.erase (w.identity object)).get id = some stored ->
      held.get id = some stored ∧ id ≠ w.identity object := by
    intro id stored found
    rw [SortedMap.get_erase] at found
    split_ifs at found with here
    exact ⟨found, here⟩
  constructor
  · exact fun id stored found => exactly.own id stored (rest id stored found).1
  · intro id stored found
    rcases rest id stored found with ⟨before, elsewhere⟩
    have other : w.key stored ≠ w.key object :=
      fun same => elsewhere (apart (id, stored) (SortedMap.mem_entries.mpr before) same)
    rw [Function.update_of_ne other]
    exact ⟨⟨(exactly.shows id stored before).1, other⟩, (exactly.shows id stored before).2⟩
  · rintro key ⟨known, other⟩
    rcases exactly.only key known with ⟨id, stored, found, rfl⟩
    refine ⟨id, stored, ?_, rfl⟩
    rw [SortedMap.get_erase, if_neg, found]
    intro here
    exact other (w.determined ((exactly.own id stored found).trans here))

theorem Tracks.new : w.Tracks .new .default fun _ => none where
  relisting := rfl
  hidden _ _ := rfl
  shown _ known := nomatch known
  seen _ never := nomatch never
  kept _ absent := nomatch absent
  listed _ absent := nomatch absent
  between _ _ absent := nomatch absent

section

variable (tracks : w.Tracks lists sweep view)
include tracks

private theorem Tracks.observed (object : Obj) :
    (forall key, ¬ (sweep.observe (w.key object)).Knows key ->
      Function.update view (w.key object) (w.project object) key = none) ∧
    (forall key, (sweep.observe (w.key object)).Knows key -> Exists fun version => w.key version = key ∧
      Function.update view (w.key object) (w.project object) key = w.project version) := by
  constructor
  · intro key unknown
    rw [RelistSweep.observe_knows, not_or] at unknown
    rw [Function.update_of_ne unknown.1]
    exact tracks.hidden key unknown.2
  · intro key known
    by_cases here : key = w.key object
    · refine ⟨object, here.symm, ?_⟩
      rw [here, Function.update_self]
    · rcases tracks.shown key ((RelistSweep.observe_knows.mp known).resolve_left here) with ⟨version, same, shown⟩
      refine ⟨version, same, ?_⟩
      rw [Function.update_of_ne here, shown]

theorem Tracks.init :
    w.Tracks (lists.reflect w.identity .init) sweep.begin view where
  relisting := rfl
  hidden := tracks.hidden
  shown := tracks.shown
  seen _ _ saw := nomatch saw
  kept := tracks.kept
  listed building under := by
    rw [← Option.some.inj under]
    exact ⟨nofun, nofun, nofun⟩
  between absent := nomatch absent

theorem Tracks.initApply (under : lists.building.isSome = true)
    (apart : w.Apart lists (.initApply object)) :
    w.Tracks (lists.reflect w.identity (.initApply object)) (sweep.observe (w.key object))
      (Function.update view (w.key object) (w.project object)) := by
  rcases Option.isSome_iff_exists.mp under with ⟨building, is⟩
  have relisting : sweep.relisting = true := tracks.relisting.trans under
  have after : lists.reflect w.identity (.initApply object) =
      { lists with building := some (building.insert (w.identity object) object) } := by
    unfold Reflected.reflect
    rw [is]
  rcases tracks.observed object with ⟨hidden, shown⟩
  rw [after]
  refine ⟨relisting, hidden, shown, ?_, ?_, ?_, nofun⟩
  · intro key _ saw
    apply RelistSweep.observe_knows.mpr
    exact ((RelistSweep.observe_saw relisting).mp saw).imp_right (tracks.seen key relisting)
  · intro complete known id stored found
    exact RelistSweep.observe_knows.mpr (Or.inr (tracks.kept complete known id stored found))
  · intro longer same
    rw [← Option.some.inj same]
    exact ((tracks.listed building is).insert (apart building is)).congr fun _ =>
      (RelistSweep.observe_saw relisting).symm

theorem Tracks.initDone (under : lists.building.isSome = true) :
    w.Tracks (lists.reflect w.identity .initDone) sweep.finish.1 fun key => if key ∈ sweep.gone then none else view key := by
  rcases Option.isSome_iff_exists.mp under with ⟨building, is⟩
  have relisting : sweep.relisting = true := tracks.relisting.trans under
  have after : lists.reflect w.identity .initDone = ⟨some building, none⟩ := by
    unfold Reflected.reflect
    rw [is]
  have knows : forall key, sweep.finish.1.Knows key <-> sweep.Saw key := by
    intro key
    rw [RelistSweep.finish_knows]
    exact ⟨fun both => both.2, fun saw => ⟨tracks.seen key relisting saw, saw⟩⟩
  have stays : forall key, sweep.Saw key -> key ∉ sweep.gone :=
    fun key saw swept => (RelistSweep.mem_gone.mp swept).2 saw
  have listed := tracks.listed building is
  have exactly : w.Exactly building sweep.finish.1.Knows fun key => if key ∈ sweep.gone then none else view key := by
    refine Exactly.congr ?_ fun key => (knows key).symm
    refine ⟨listed.own, fun id object found => ?_, listed.only⟩
    rcases listed.shows id object found with ⟨saw, shown⟩
    rw [if_neg (stays _ saw)]
    exact ⟨saw, shown⟩
  rw [after]
  refine ⟨rfl, ?_, ?_, nofun, ?_, nofun, ?_⟩
  · intro key unknown
    split_ifs with swept
    · rfl
    · apply tracks.hidden
      intro known
      exact swept (RelistSweep.mem_gone.mpr ⟨known, fun saw => unknown ((knows key).mpr saw)⟩)
  · intro key known
    have saw := (knows key).mp known
    rw [if_neg (stays key saw)]
    exact tracks.shown key (tracks.seen key relisting saw)
  · intro complete same id object found
    rw [← Option.some.inj same] at found
    exact (exactly.shows id object found).1
  · intro _ complete same
    rw [← Option.some.inj same]
    exact exactly

theorem Tracks.apply (between : lists.Complete)
    (apart : w.Apart lists (.apply object)) :
    w.Tracks (lists.reflect w.identity (.apply object)) (sweep.observe (w.key object))
      (Function.update view (w.key object) (w.project object)) := by
  rcases Option.isSome_iff_exists.mp between.2 with ⟨complete, is⟩
  have after : lists.reflect w.identity (.apply object) = ⟨some (complete.insert (w.identity object) object), none⟩ := by
    unfold Reflected.reflect Reflected.changed
    rw [is, between.1]
    rfl
  have idle : sweep.relisting = false := by
    rw [tracks.relisting, between.1]
    rfl
  have exactly : w.Exactly (complete.insert (w.identity object) object) (sweep.observe (w.key object)).Knows
      (Function.update view (w.key object) (w.project object)) :=
    ((tracks.between between.1 complete is).insert (apart complete is)).congr fun _ => RelistSweep.observe_knows.symm
  rcases tracks.observed object with ⟨hidden, shown⟩
  rw [after]
  refine ⟨idle, hidden, shown, fun _ relisting => ?_, ?_, nofun, ?_⟩
  · exact absurd (idle.symm.trans relisting) Bool.false_ne_true
  · intro changed same id stored found
    rw [← Option.some.inj same] at found
    exact (exactly.shows id stored found).1
  · intro _ changed same
    rw [← Option.some.inj same]
    exact exactly

theorem Tracks.delete (between : lists.Complete)
    (apart : w.Apart lists (.delete object)) :
    w.Tracks (lists.reflect w.identity (.delete object)) (sweep.forget (w.key object))
      (Function.update view (w.key object) none) := by
  rcases Option.isSome_iff_exists.mp between.2 with ⟨complete, is⟩
  have after : lists.reflect w.identity (.delete object) = ⟨some (complete.erase (w.identity object)), none⟩ := by
    unfold Reflected.reflect Reflected.changed
    rw [is, between.1]
    rfl
  have idle : sweep.relisting = false := by
    rw [tracks.relisting, between.1]
    rfl
  have exactly : w.Exactly (complete.erase (w.identity object)) (sweep.forget (w.key object)).Knows
      (Function.update view (w.key object) none) :=
    ((tracks.between between.1 complete is).erase (apart complete is)).congr fun _ => RelistSweep.forget_knows.symm
  rw [after]
  refine ⟨idle, ?_, ?_, fun _ relisting => ?_, ?_, nofun, ?_⟩
  · intro key unknown
    by_cases here : key = w.key object
    · rw [here, Function.update_self]
    · rw [Function.update_of_ne here]
      exact tracks.hidden key fun known => unknown (RelistSweep.forget_knows.mpr ⟨known, here⟩)
  · intro key known
    rcases RelistSweep.forget_knows.mp known with ⟨before, other⟩
    rw [Function.update_of_ne other]
    exact tracks.shown key before
  · exact absurd (idle.symm.trans relisting) Bool.false_ne_true
  · intro changed same id stored found
    rw [← Option.some.inj same] at found
    exact (exactly.shows id stored found).1
  · intro _ changed same
    rw [← Option.some.inj same]
    exact exactly

theorem Tracks.step {event : WatchEvent Obj} (reports : Reports lists event)
    (apart : w.Apart lists event) :
    w.Tracks (lists.reflect w.identity event) (w.sweeping sweep event) (w.showing sweep view event) := by
  cases event with
  | init => exact tracks.init
  | initApply object => exact tracks.initApply reports apart
  | initDone => exact tracks.initDone reports
  | apply object => exact tracks.apply reports apart
  | delete object => exact tracks.delete reports apart

theorem Tracks.converges : w.Converges lists view := by
  constructor
  · intro between complete is
    have exactly := tracks.between between complete is
    refine ⟨fun id object found => (exactly.shows id object found).2, fun key value shown => ?_⟩
    have known : sweep.Knows key := by
      by_contra unknown
      rw [tracks.hidden key unknown] at shown
      cases shown
    rcases exactly.only key known with ⟨id, object, found, rfl⟩
    exact ⟨id, object, found, rfl, (exactly.shows id object found).2.symm.trans shown⟩
  · intro complete is id object found
    exact tracks.shown _ (tracks.kept complete is id object found)

end

end Watch
end NotK8s.Scheduler

import NotK8s.Library.SortedMap

namespace NotK8s.Library

/-!
# Lists and changes

A watcher first reports a list of objects, one by one between a beginning and
an end, and then every change.  It lists again whenever it lost track.  The
reader who clears on a beginning, stores what is reported and removes what is
deleted holds the objects under their keys.
-/

inductive WatchEvent (Obj : Type*) where
  | apply (object : Obj)
  | delete (object : Obj)
  | init
  | initApply (object : Obj)
  | initDone

variable {Key Obj : Type*} [LinearOrder Key] (key : Obj -> Key)

/-- One event, as the reader takes it. -/
def mirror (held : SortedMap Key Obj) : WatchEvent Obj -> SortedMap Key Obj
  | .apply object => held.insert (key object) object
  | .delete object => held.erase (key object)
  | .init => .empty
  | .initApply object => held.insert (key object) object
  | .initDone => held

/-- Many events. -/
def mirrored (held : SortedMap Key Obj) (events : List (WatchEvent Obj)) : SortedMap Key Obj :=
  events.foldl (mirror key) held

/-- Every object is under its own key. -/
def Keys (held : SortedMap Key Obj) : Prop :=
  forall entry, entry ∈ held.entries -> entry.1 = key entry.2

/-- A snapshot as a list. -/
def relist (objects : List Obj) : List (WatchEvent Obj) :=
  .init :: objects.map .initApply ++ [.initDone]

section
variable {key} {held : SortedMap Key Obj}

theorem mirrored_append (first second : List (WatchEvent Obj)) :
    mirrored key held (first ++ second) = mirrored key (mirrored key held first) second :=
  List.foldl_append

theorem Keys.empty : Keys key (SortedMap.empty : SortedMap Key Obj) :=
  nofun

theorem Keys.mirror (keys : Keys key held) (event : WatchEvent Obj) : Keys key (mirror key held event) := by
  have inserted : forall object, Keys key (held.insert (key object) object) := by
    rintro object ⟨other, stored⟩ listed
    have found := SortedMap.mem_entries.mp listed
    rw [SortedMap.get_insert] at found
    split_ifs at found with same
    · cases found
      exact same
    · exact keys (other, stored) (SortedMap.mem_entries.mpr found)
  cases event with
  | apply object | initApply object => exact inserted object
  | delete object => exact fun entry listed => keys entry (List.mem_filter.mp listed).1
  | init => exact Keys.empty
  | initDone => exact keys

theorem Keys.mirrored (keys : Keys key held) (events : List (WatchEvent Obj)) : Keys key (mirrored key held events) := by
  induction events generalizing held with
  | nil => exact keys
  | cons event rest ih => exact ih (keys.mirror event)

theorem mirrored_relist {objects : SortedMap Key Obj} (keys : Keys key objects) :
    mirrored key held (relist (objects.entries.map Prod.snd)) = objects := by
  have walk : forall (pairs : List (Key × Obj)) (start : SortedMap Key Obj),
      (forall entry, entry ∈ pairs -> entry.1 = key entry.2) ->
      Library.mirrored key start ((pairs.map Prod.snd).map .initApply) =
        pairs.foldl (fun m pair => m.insert pair.1 pair.2) start := by
    intro pairs
    induction pairs with
    | nil => exact fun start _ => rfl
    | cons first rest ih =>
      intro start own
      have here := own first (.head _)
      have later := ih (start.insert (key first.2) first.2)
        fun entry listed => own entry (List.mem_cons_of_mem first listed)
      rw [List.foldl_cons, here]
      exact later
  have told : Library.mirrored key held (relist (objects.entries.map Prod.snd)) =
      Library.mirrored key .empty ((objects.entries.map Prod.snd).map .initApply) := by
    change Library.mirrored key .empty (_ ++ [.initDone]) = _
    rw [mirrored_append]
    rfl
  rw [told, walk objects.entries .empty keys]
  exact SortedMap.eq_of_entries (SortedMap.ofList_entries objects.sorted)

end

/-! ## Lists that are not finished -/

/-- A reader who takes no notice of where a list begins. -/
def retain (held : SortedMap Key Obj) : WatchEvent Obj -> SortedMap Key Obj
  | .apply object => held.insert (key object) object
  | .delete object => held.erase (key object)
  | .init => held
  | .initApply object => held.insert (key object) object
  | .initDone => held

/-- What the watcher itself knows: the objects of the last list it finished as
changed since, and the list it is at. -/
structure Reflected (Key Obj : Type*) [LinearOrder Key] where
  complete : Option (SortedMap Key Obj)
  building : Option (SortedMap Key Obj)

namespace Reflected

def new : Reflected Key Obj where
  complete := none
  building := none

def changed (r : Reflected Key Obj) (change : SortedMap Key Obj -> SortedMap Key Obj) : Reflected Key Obj where
  complete := r.complete.map change
  building := r.building.map change

/-- A list replaces what was known when it is finished, not before. -/
def reflect (r : Reflected Key Obj) : WatchEvent Obj -> Reflected Key Obj
  | .apply object => r.changed fun held => held.insert (key object) object
  | .delete object => r.changed fun held => held.erase (key object)
  | .init => { r with building := some .empty }
  | .initApply object =>
    match r.building with
    | some building => { r with building := some (building.insert (key object) object) }
    | none => r.changed fun held => held.insert (key object) object
  | .initDone =>
    match r.building with
    | some building => ⟨some building, none⟩
    | none => r

/-- No list is under way, and one was finished. -/
def Complete (r : Reflected Key Obj) : Prop :=
  r.building = none ∧ r.complete.isSome = true

instance (r : Reflected Key Obj) : Decidable r.Complete :=
  inferInstanceAs (Decidable (r.building = none ∧ r.complete.isSome = true))

/-- The list under way has everything that is held. -/
def Redelivers (r : Reflected Key Obj) (held : SortedMap Key Obj) : Prop :=
  forall entry, entry ∈ held.entries -> r.building.all fun building => (building.get entry.1).isSome

instance (r : Reflected Key Obj) (held : SortedMap Key Obj) : Decidable (r.Redelivers held) :=
  inferInstanceAs (Decidable (forall entry, entry ∈ held.entries -> _))

/-- Between lists the reader holds the complete set, and in a list what was
listed so far and perhaps more. -/
structure Held (r : Reflected Key Obj) (held : SortedMap Key Obj) : Prop where
  listed : forall building, r.building = some building -> forall key object,
    building.get key = some object -> held.get key = some object
  complete : r.building = none -> forall complete, r.complete = some complete -> held = complete

/-- The reader who clears holds exactly what was listed so far. -/
structure Replaced (r : Reflected Key Obj) (held : SortedMap Key Obj) : Prop where
  listed : forall building, r.building = some building -> held = building
  complete : r.building = none -> forall complete, r.complete = some complete -> held = complete

variable {key} {r : Reflected Key Obj} {held : SortedMap Key Obj}

theorem Held.new : (new : Reflected Key Obj).Held held :=
  ⟨fun _ absent => absurd absent (Option.some_ne_none _).symm, nofun⟩

theorem Replaced.new : (new : Reflected Key Obj).Replaced held :=
  ⟨fun _ absent => absurd absent (Option.some_ne_none _).symm, nofun⟩

theorem Replaced.toHeld (replaced : r.Replaced held) : r.Held held := by
  refine ⟨fun building under key object found => ?_, replaced.complete⟩
  rw [replaced.listed building under]
  exact found

theorem Replaced.changed (replaced : r.Replaced held) (change : SortedMap Key Obj -> SortedMap Key Obj) :
    (r.changed change).Replaced (change held) := by
  constructor
  · intro building under
    rcases Option.map_eq_some_iff.mp under with ⟨before, was, rfl⟩
    rw [replaced.listed before was]
  · intro between complete known
    rcases Option.map_eq_some_iff.mp known with ⟨before, was, rfl⟩
    rw [replaced.complete (Option.map_eq_none_iff.mp between) before was]

theorem Held.changed {change : SortedMap Key Obj -> SortedMap Key Obj}
    (pointwise : forall m m' : SortedMap Key Obj, forall key object, (m.get key = some object -> m'.get key = some object) ->
      (change m).get key = some object -> (change m').get key = some object)
    (keeps : r.Held held) : (r.changed change).Held (change held) := by
  constructor
  · intro building under key object found
    rcases Option.map_eq_some_iff.mp under with ⟨before, was, rfl⟩
    exact pointwise before held key object (keeps.listed before was key object) found
  · intro between complete known
    rcases Option.map_eq_some_iff.mp known with ⟨before, was, rfl⟩
    rw [keeps.complete (Option.map_eq_none_iff.mp between) before was]

private theorem insert_pointwise (key : Key) (object : Obj) (m m' : SortedMap Key Obj) (other : Key) (stored : Obj)
    (kept : m.get other = some stored -> m'.get other = some stored)
    (found : (m.insert key object).get other = some stored) : (m'.insert key object).get other = some stored := by
  rw [SortedMap.get_insert] at found ⊢
  split_ifs at found ⊢ with same
  · exact found
  · exact kept found

private theorem erase_pointwise (key : Key) (m m' : SortedMap Key Obj) (other : Key) (stored : Obj)
    (kept : m.get other = some stored -> m'.get other = some stored)
    (found : (m.erase key).get other = some stored) : (m'.erase key).get other = some stored := by
  rw [SortedMap.get_erase] at found ⊢
  split_ifs at found ⊢ with same
  exact kept found

theorem Replaced.mirror (replaced : r.Replaced held) (event : WatchEvent Obj) :
    (r.reflect key event).Replaced (mirror key held event) := by
  cases event with
  | apply object | delete object => exact replaced.changed _
  | init =>
    refine ⟨fun building under => Option.some.inj under, ?_⟩
    nofun
  | initApply object =>
    unfold reflect
    cases under : r.building with
    | some building =>
      refine ⟨fun longer is => ?_, nofun⟩
      rw [← Option.some.inj is, ← replaced.listed building under]
      rfl
    | none => exact replaced.changed _
  | initDone =>
    unfold reflect
    cases under : r.building with
    | some building =>
      refine ⟨fun _ absent => absurd absent (Option.some_ne_none _).symm, fun _ complete known => ?_⟩
      rw [← Option.some.inj known]
      exact replaced.listed building under
    | none => exact replaced

/-- The reader who does not clear needs every list to name all it holds. -/
theorem Held.retain (keeps : r.Held held) {event : WatchEvent Obj} (redelivers : event = .initDone -> r.Redelivers held) :
    (r.reflect key event).Held (retain key held event) := by
  cases event with
  | apply object => exact keeps.changed (insert_pointwise (key object) object)
  | delete object => exact keeps.changed (erase_pointwise (key object))
  | init =>
    refine ⟨fun building under key object found => ?_, nofun⟩
    rw [← Option.some.inj under] at found
    cases found
  | initApply object =>
    unfold reflect
    cases under : r.building with
    | some building =>
      refine ⟨fun longer is other stored found => ?_, nofun⟩
      rw [← Option.some.inj is] at found
      exact insert_pointwise (key object) object building held other stored
        (keeps.listed building under other stored) found
    | none => exact keeps.changed (insert_pointwise (key object) object)
  | initDone =>
    have named := redelivers rfl
    unfold reflect
    cases under : r.building with
    | none => exact keeps
    | some building =>
      refine ⟨fun _ absent => absurd absent (Option.some_ne_none _).symm, fun _ complete known => ?_⟩
      rw [← Option.some.inj known]
      apply SortedMap.ext_get
      intro key
      change held.get key = building.get key
      cases found : building.get key with
      | some object => exact keeps.listed building under key object found
      | none =>
        cases stored : held.get key with
        | none => rfl
        | some object =>
          have listed := named (key, object) (SortedMap.mem_entries.mpr stored)
          rw [under, Option.all_some, found] at listed
          cases listed

end Reflected
end NotK8s.Library

import NotK8s.Library.Run
import NotK8s.Nodeproxy.State

namespace NotK8s.Nodeproxy

open Library

/-!
# The loop of the Service proxy

Two watches feed one state.  Either may list again at any moment, fail, or
end and be started again, while the other goes on.  What a watch has said is
kept beside the state: the last list it finished as changed since, and the
list it is at.
-/

/-- What the poll of a watch gives. -/
inductive Item (Obj : Type) where
  | event (ev : WatchEvent Obj)
  | error
  | ended

/-- What a watch has said, and whether the present stream has begun a list. -/
structure Feed (Obj : Type) where
  reflected : Reflected String Obj
  opened : Bool

namespace Feed
variable {Obj : Type}

def new : Feed Obj where
  reflected := .new
  opened := false

def take (key : Obj -> String) (feed : Feed Obj) : Item Obj -> Feed Obj
  | .event .init => { reflected := feed.reflected.reflect key .init, opened := true }
  | .event ev => { feed with reflected := feed.reflected.reflect key ev }
  | .error => feed
  | .ended => { feed with opened := false }

/-- A stream begins a list before anything else, names the objects in the
list, ends it, and only then reports changes.  It may begin again at any
time. -/
def Emits (feed : Feed Obj) : Item Obj -> Prop
  | .event .init => True
  | .event (.initApply _) => feed.opened = true ∧ feed.reflected.building.isSome = true
  | .event .initDone => feed.opened = true ∧ feed.reflected.building.isSome = true
  | .event (.apply _) => feed.opened = true ∧ feed.reflected.Complete
  | .event (.delete _) => feed.opened = true ∧ feed.reflected.Complete
  | .error => True
  | .ended => True

instance (feed : Feed Obj) (item : Item Obj) : Decidable (feed.Emits item) := by
  unfold Emits
  split <;> infer_instance

/-- The last list is finished, and `map` is that list with the changes
since. -/
def Listed (feed : Feed Obj) (map : SortedMap String Obj) : Prop :=
  feed.reflected.building = none ∧ feed.reflected.complete = some map

/-- How the state keeps up with a watch. -/
structure Mirrored (feed : Feed Obj) (map : SortedMap String Obj) (initialized : Bool) : Prop where
  replaced : feed.reflected.Replaced map
  initialized_iff : initialized = true <-> feed.reflected.Complete

variable {feed : Feed Obj} {map : SortedMap String Obj} {initialized : Bool} {key : Obj -> String}

theorem Mirrored.listed (mirrored : feed.Mirrored map initialized) (finished : initialized = true) :
    feed.Listed map := by
  rcases mirrored.initialized_iff.mp finished with ⟨between, known⟩
  rcases Option.isSome_iff_exists.mp known with ⟨complete, isComplete⟩
  rw [mirrored.replaced.complete between complete isComplete]
  exact ⟨between, isComplete⟩

theorem mirrored_new : (new : Feed Obj).Mirrored .empty false :=
  ⟨Reflected.Replaced.new, by simp [new, Reflected.new, Reflected.Complete]⟩

theorem complete_reflect {r : Reflected String Obj} {ev : WatchEvent Obj} (complete : r.Complete)
    (change : (Exists fun object => ev = .apply object) ∨ Exists fun object => ev = .delete object) :
    (r.reflect key ev).Complete := by
  rcases complete with ⟨between, known⟩
  rcases change with ⟨object, rfl⟩ | ⟨object, rfl⟩
  · simp [Reflected.Complete, Reflected.reflect, Reflected.changed, between, known]
  · simp [Reflected.Complete, Reflected.reflect, Reflected.changed, between, known]

theorem take_reflected (feed : Feed Obj) (ev : WatchEvent Obj) :
    (feed.take key (.event ev)).reflected = feed.reflected.reflect key ev := by
  cases ev <;> rfl

theorem Mirrored.event (mirrored : feed.Mirrored map initialized) {ev : WatchEvent Obj}
    (emits : feed.Emits (.event ev)) :
    (feed.take key (.event ev)).Mirrored (applyEvent key map ev).2
      ((applyEvent key map ev).1.initialized initialized) := by
  constructor
  · rw [applyEvent_mirror, take_reflected]
    exact mirrored.replaced.mirror ev
  · rw [take_reflected]
    cases ev with
    | init => simp [applyEvent, EventPhase.initialized, Reflected.Complete, Reflected.reflect]
    | initApply object =>
      rcases Option.isSome_iff_exists.mp emits.2 with ⟨building, under⟩
      have before : initialized = false := by
        apply Bool.eq_false_iff.mpr
        intro finished
        have between := (mirrored.initialized_iff.mp finished).1
        rw [under] at between
        cases between
      simp [applyEvent, EventPhase.initialized, Reflected.Complete, Reflected.reflect, under, before]
    | initDone =>
      rcases Option.isSome_iff_exists.mp emits.2 with ⟨building, under⟩
      simp [applyEvent, EventPhase.initialized, Reflected.Complete, Reflected.reflect, under]
    | apply object =>
      have finished := mirrored.initialized_iff.mpr emits.2
      exact iff_of_true finished (complete_reflect emits.2 (Or.inl ⟨object, rfl⟩))
    | delete object =>
      have finished := mirrored.initialized_iff.mpr emits.2
      exact iff_of_true finished (complete_reflect emits.2 (Or.inr ⟨object, rfl⟩))

theorem Mirrored.silent (mirrored : feed.Mirrored map initialized) (key : Obj -> String) {item : Item Obj}
    (silent : item = .error ∨ item = .ended) : (feed.take key item).Mirrored map initialized := by
  rcases silent with rfl | rfl
  · exact mirrored
  · exact ⟨mirrored.replaced, mirrored.initialized_iff⟩

end Feed

/-- How it goes when a ruleset is put into the kernel: it is taken, `nft`
refuses it as a whole, or `nft` takes it and the fallback chain fails. -/
inductive Outcome where
  | applied | refused | fallbackFailed

/-- One turn of the loop. -/
inductive Turn where
  | services (item : Item Service) (outcome : Outcome)
  | endpointSlices (item : Item EndpointSlice) (outcome : Outcome)

def Turn.outcome : Turn -> Outcome
  | .services _ outcome => outcome
  | .endpointSlices _ outcome => outcome

def Turn.isEvent : Turn -> Bool
  | .services (.event _) _ => true
  | .endpointSlices (.event _) _ => true
  | _ => false

/-- The loop, what its watches have said, and the objects that the ruleset in
the kernel was built from. -/
structure Proxy where
  state : State
  services : Feed Service
  endpointSlices : Feed EndpointSlice
  programmed : Option (SortedMap String Service × SortedMap String EndpointSlice)

namespace Proxy

/-- A new process.  The kernel has what an earlier one left. -/
def started (programmed : Option (SortedMap String Service × SortedMap String EndpointSlice)) : Proxy where
  state := .default
  services := .new
  endpointSlices := .new
  programmed := programmed

/-- Handle one item.  A rebuild is due if the result says so. -/
def handle (proxy : Proxy) : Turn -> Bool × Proxy
  | .services (.event ev) _ =>
    let (phase, services) := applyEvent Service.key proxy.state.services ev
    let (changed, state) := { proxy.state with services := services }.recordEvent true phase
    (changed, { proxy with state := state, services := proxy.services.take Service.key (.event ev) })
  | .services item _ => (false, { proxy with services := proxy.services.take Service.key item })
  | .endpointSlices (.event ev) _ =>
    let (phase, endpointSlices) := applyEvent EndpointSlice.key proxy.state.endpointSlices ev
    let (changed, state) := { proxy.state with endpointSlices := endpointSlices }.recordEvent false phase
    (changed,
      { proxy with state := state, endpointSlices := proxy.endpointSlices.take EndpointSlice.key (.event ev) })
  | .endpointSlices item _ =>
    (false, { proxy with endpointSlices := proxy.endpointSlices.take EndpointSlice.key item })

/-- Build the ruleset and put it into the kernel.  The process ends when that
fails, and is started again. -/
def rebuild (proxy : Proxy) : Outcome -> Proxy
  | .applied => { proxy with programmed := some (proxy.state.services, proxy.state.endpointSlices) }
  | .refused => started proxy.programmed
  | .fallbackFailed => started (some (proxy.state.services, proxy.state.endpointSlices))

def turn (proxy : Proxy) (label : Turn) : Proxy :=
  let (changed, proxy) := proxy.handle label
  if changed then proxy.rebuild label.outcome else proxy

/-- Each watch keeps to the order of a watch. -/
def Orderly (proxy : Proxy) : Turn -> Prop
  | .services item _ => proxy.services.Emits item
  | .endpointSlices item _ => proxy.endpointSlices.Emits item

instance (proxy : Proxy) (label : Turn) : Decidable (proxy.Orderly label) := by
  cases label <;> exact inferInstanceAs (Decidable (Feed.Emits _ _))

/-- What is asked of a turn.  A ruleset is built from a full list of either
kind with exactly the changes since; every event that finds both kinds
listed leads to one, and no other does; and whenever both kinds are listed
the kernel has the ruleset of what is mirrored. -/
structure Faithful (proxy : Proxy) (label : Turn) : Prop where
  servicesInitialized : (proxy.handle label).2.state.servicesInitialized = true <->
    (proxy.handle label).2.services.reflected.Complete
  endpointSlicesInitialized : (proxy.handle label).2.state.endpointSlicesInitialized = true <->
    (proxy.handle label).2.endpointSlices.reflected.Complete
  full : (proxy.handle label).1 = true ->
    (proxy.handle label).2.services.Listed (proxy.handle label).2.state.services ∧
      (proxy.handle label).2.endpointSlices.Listed (proxy.handle label).2.state.endpointSlices
  prompt : label.isEvent = true -> (proxy.handle label).2.services.reflected.Complete ->
    (proxy.handle label).2.endpointSlices.reflected.Complete -> (proxy.handle label).1 = true
  kept : (proxy.handle label).1 = false -> (proxy.turn label).programmed = proxy.programmed
  current : (proxy.turn label).services.reflected.Complete -> (proxy.turn label).endpointSlices.reflected.Complete ->
    (proxy.turn label).programmed = some ((proxy.turn label).state.services, (proxy.turn label).state.endpointSlices)

/-- The state keeps up with both watches, and the kernel with the state. -/
structure Synced (proxy : Proxy) : Prop where
  services : proxy.services.Mirrored proxy.state.services proxy.state.servicesInitialized
  endpointSlices : proxy.endpointSlices.Mirrored proxy.state.endpointSlices proxy.state.endpointSlicesInitialized
  current : proxy.state.servicesInitialized = true -> proxy.state.endpointSlicesInitialized = true ->
    proxy.programmed = some (proxy.state.services, proxy.state.endpointSlices)

section
variable {proxy : Proxy}

theorem synced_started (programmed : Option (SortedMap String Service × SortedMap String EndpointSlice)) :
    (started programmed).Synced where
  services := Feed.mirrored_new
  endpointSlices := Feed.mirrored_new
  current := nofun

/-- What the handling of an item leaves: the mirrors in step, and a rebuild
due exactly if this was an event and both kinds are listed. -/
structure Handled (before : Proxy) (label : Turn) (changed : Bool) (after : Proxy) : Prop where
  services : after.services.Mirrored after.state.services after.state.servicesInitialized
  endpointSlices : after.endpointSlices.Mirrored after.state.endpointSlices after.state.endpointSlicesInitialized
  programmed : after.programmed = before.programmed
  due : changed = true -> after.state.servicesInitialized = true ∧ after.state.endpointSlicesInitialized = true
  prompt : label.isEvent = true -> after.state.servicesInitialized = true ->
    after.state.endpointSlicesInitialized = true -> changed = true
  quiet : label.isEvent = false -> after.state = before.state

theorem handled_recordEvent {label : Turn} {state : State} {services : Bool} {phase : EventPhase} {after : Proxy}
    (isEvent : label.isEvent = true)
    (first : after.services.Mirrored (state.noted services phase).services
      (state.noted services phase).servicesInitialized)
    (second : after.endpointSlices.Mirrored (state.noted services phase).endpointSlices
      (state.noted services phase).endpointSlicesInitialized)
    (programmed : after.programmed = proxy.programmed)
    (recorded : after.state = (state.recordEvent services phase).2) :
    Handled proxy label (state.recordEvent services phase).1 after := by
  rw [State.recordEvent_eq] at recorded ⊢
  split_ifs at recorded ⊢ with both
  · rw [Bool.and_eq_true] at both
    refine ⟨?_, ?_, programmed, ?_, fun _ _ _ => rfl, fun quiet => ?_⟩
    · rw [recorded]
      exact first
    · rw [recorded]
      exact second
    · rw [recorded]
      exact fun _ => both
    · rw [isEvent] at quiet
      cases quiet
  · refine ⟨?_, ?_, programmed, nofun, ?_, fun quiet => ?_⟩
    · rw [recorded]
      exact first
    · rw [recorded]
      exact second
    · rw [recorded]
      intro _ left right
      exact absurd (by rw [Bool.and_eq_true]; exact ⟨left, right⟩) both
    · rw [isEvent] at quiet
      cases quiet

theorem Synced.handle (synced : proxy.Synced) {label : Turn} (orderly : proxy.Orderly label) :
    Handled proxy label (proxy.handle label).1 (proxy.handle label).2 := by
  cases label with
  | services item outcome =>
    cases item with
    | event ev =>
      have kept := @Feed.Mirrored.event _ _ _ _ Service.key synced.services ev orderly
      apply handled_recordEvent rfl
      · exact kept
      · exact synced.endpointSlices
      · rfl
      · rfl
    | error =>
      exact ⟨synced.services.silent Service.key (Or.inl rfl), synced.endpointSlices, rfl,
        nofun, nofun, fun _ => rfl⟩
    | ended =>
      exact ⟨synced.services.silent Service.key (Or.inr rfl), synced.endpointSlices, rfl,
        nofun, nofun, fun _ => rfl⟩
  | endpointSlices item outcome =>
    cases item with
    | event ev =>
      have kept := @Feed.Mirrored.event _ _ _ _ EndpointSlice.key synced.endpointSlices ev orderly
      apply handled_recordEvent rfl
      · exact synced.services
      · exact kept
      · rfl
      · rfl
    | error =>
      exact ⟨synced.services, synced.endpointSlices.silent EndpointSlice.key (Or.inl rfl), rfl,
        nofun, nofun, fun _ => rfl⟩
    | ended =>
      exact ⟨synced.services, synced.endpointSlices.silent EndpointSlice.key (Or.inr rfl), rfl,
        nofun, nofun, fun _ => rfl⟩

theorem Synced.turn (synced : proxy.Synced) {label : Turn} (orderly : proxy.Orderly label) :
    (proxy.turn label).Synced := by
  have handled := synced.handle orderly
  unfold Proxy.turn
  cases due : (proxy.handle label).1 with
  | false =>
    simp only [due, Bool.false_eq_true, if_false]
    refine ⟨handled.services, handled.endpointSlices, ?_⟩
    intro left right
    cases isEvent : label.isEvent with
    | true =>
      have rebuilt := handled.prompt isEvent left right
      rw [due] at rebuilt
      cases rebuilt
    | false =>
      have same := handled.quiet isEvent
      rw [handled.programmed, same]
      rw [same] at left right
      exact synced.current left right
  | true =>
    simp only [due, if_true]
    cases label.outcome with
    | applied => exact ⟨handled.services, handled.endpointSlices, fun _ _ => rfl⟩
    | refused | fallbackFailed => exact synced_started _

theorem Synced.faithful (synced : proxy.Synced) {label : Turn} (orderly : proxy.Orderly label) :
    proxy.Faithful label := by
  have handled := synced.handle orderly
  have after := synced.turn orderly
  refine ⟨handled.services.initialized_iff, handled.endpointSlices.initialized_iff, ?_, ?_, ?_, ?_⟩
  · intro due
    have both := handled.due due
    exact ⟨handled.services.listed both.1, handled.endpointSlices.listed both.2⟩
  · intro isEvent left right
    exact handled.prompt isEvent (handled.services.initialized_iff.mpr left)
      (handled.endpointSlices.initialized_iff.mpr right)
  · intro quiet
    simp only [Proxy.turn, quiet, Bool.false_eq_true, if_false]
    exact handled.programmed
  · intro left right
    exact after.current (after.services.initialized_iff.mpr left) (after.endpointSlices.initialized_iff.mpr right)

end

/-- The proxy programs the kernel from full lists only and loses no change,
whatever the two watches do. -/
theorem turns_faithful (programmed : Option (SortedMap String Service × SortedMap String EndpointSlice))
    (turns : List Turn) (orderly : EveryStep turn Orderly (started programmed) turns) :
    EveryStep turn Faithful (started programmed) turns :=
  EveryStep.of_invariant (fun _ _ synced orderly => synced.turn orderly)
    (fun _ _ synced orderly => synced.faithful orderly) (synced_started programmed) orderly

def webService : Service where
  metadata := { inNamespace := some "shop", name := "web", labels := none }
  spec := none

def webSlice : EndpointSlice where
  metadata := { inNamespace := some "shop", name := "web-1", labels := none }
  addressType := "IPv4"
  ports := none
  endpoints := []

/-- The Services are listed again while the slices change, and the stream
ends in the middle of the list. -/
def brokenRelist : List Turn :=
  [.services (.event .init) .applied, .services (.event (.initApply webService)) .applied,
    .endpointSlices (.event .init) .applied, .services (.event .initDone) .applied,
    .endpointSlices (.event .initDone) .applied, .services (.event .init) .applied,
    .endpointSlices (.event (.apply webSlice)) .applied, .services .ended .applied,
    .services (.event .init) .applied, .services (.event .initDone) .applied]

theorem brokenRelist_faithful : EveryStep turn Faithful (started none) brokenRelist :=
  turns_faithful none brokenRelist (by decide)

end Proxy

end NotK8s.Nodeproxy

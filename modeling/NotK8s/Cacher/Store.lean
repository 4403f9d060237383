import NotK8s.Library.Bytes
import NotK8s.Library.SortedMap

namespace NotK8s.Cacher

open Library

/-!
# The watch cache

The latest value of every key under one prefix, and a bounded history from
which a watch that starts a little behind is replayed.  The broadcast channel
is modelled by everything ever sent on it, and a subscription by how much had
been sent when it was made; a receiver that falls behind the channel's
capacity is told so and is not modelled further.  The revision channel always
holds the revision.
-/

inductive EventKind where
  | added | modified | deleted
  /-- Only advances the revision. -/
  | bookmark
  deriving DecidableEq

structure WatchEvent where
  kind : EventKind
  key : Bytes
  /-- The object's value; of a deleted object the last one. -/
  value : Bytes
  revision : Int
  deriving DecidableEq

structure CacheEntry where
  value : Bytes
  modRevision : Int
  deriving DecidableEq

abbrev Items := SortedMap Bytes CacheEntry

/-- The start asked for is older than what is retained. -/
structure TooOld where
  requested : Int
  oldest : Int
  deriving DecidableEq

/-- What an event does to the objects. -/
def WatchEvent.applyTo (items : Items) (event : WatchEvent) : Items :=
  match event.kind with
  | .added => items.insert event.key { value := event.value, modRevision := event.revision }
  | .modified => items.insert event.key { value := event.value, modRevision := event.revision }
  | .deleted => items.erase event.key
  | .bookmark => items

structure WatchCache where
  items : Items
  /-- Recent events, oldest first. -/
  history : List WatchEvent
  historyLimit : Nat
  /-- The oldest revision a watch can start from. -/
  historyFloor : Int
  revision : Int
  /-- The revision of the last event that was not a bookmark. -/
  contentRevision : Int
  /-- Everything broadcast so far. -/
  events : List WatchEvent

/-- A live subscription, as the number of events broadcast before it. -/
abbrev Subscription := Nat

namespace WatchCache

/-- A cache seeded from a list. -/
def new (initial : List (Bytes × CacheEntry)) (revision : Int) (historyLimit : Nat) : WatchCache where
  items := SortedMap.ofList initial
  history := []
  historyLimit := historyLimit
  historyFloor := revision
  revision := revision
  contentRevision := revision
  events := []

/-- The value a key has. -/
def lastValue (items : Items) (key : Bytes) : Bytes :=
  ((items.get key).map CacheEntry.value).getD []

/-- An incoming deletion has no value and takes the one the cache holds. -/
def outgoing (c : WatchCache) (incoming : WatchEvent) : WatchEvent :=
  if incoming.kind = .deleted then { incoming with value := lastValue c.items incoming.key } else incoming

/-- Make room in a full history. -/
def evict (c : WatchCache) : WatchCache :=
  if c.history.length = c.historyLimit ∧ 0 < c.historyLimit then
    match c.history with
    | [] => c
    | evicted :: rest => { c with history := rest, historyFloor := evicted.revision }
  else c

/-- Retain an event.  When nothing is retained, only a start at the current
revision is safe. -/
def retain (c : WatchCache) (event : WatchEvent) : WatchCache :=
  if 0 < c.historyLimit then { c with history := c.history ++ [event] }
  else { c with historyFloor := event.revision }

/-- Apply one event from the live watch. -/
def apply (c : WatchCache) (incoming : WatchEvent) : WatchCache :=
  let event := c.outgoing incoming
  let c := { c with
    items := event.applyTo c.items
    contentRevision := if event.kind = EventKind.bookmark then c.contentRevision else event.revision
    revision := event.revision }
  let c := c.evict.retain event
  { c with events := c.events ++ [event] }

/-- Apply the events of one response under one lock. -/
def applyBatch (c : WatchCache) (incoming : List WatchEvent) : WatchCache :=
  incoming.foldl apply c

def list (c : WatchCache) : List (Bytes × CacheEntry) × Int :=
  (c.items.entries, c.revision)

def watchFromWithReceiver (c : WatchCache) (start : Int) (rx : Subscription) :
    Except TooOld (List WatchEvent × Subscription) :=
  if start < c.historyFloor then .error { requested := start, oldest := c.historyFloor }
  else .ok (c.history.filter fun event => start < event.revision, rx)

/-- Subscribe and replay.  A start of zero or less means from now on. -/
def watchFrom (c : WatchCache) (start : Int) : Except TooOld (List WatchEvent × Subscription) :=
  if start ≤ 0 then .ok ([], c.events.length) else c.watchFromWithReceiver start c.events.length

/-- The same for a watch that follows a list of this cache: there zero is a
revision like any other. -/
def watchFromSnapshot (c : WatchCache) (start : Int) : Except TooOld (List WatchEvent × Subscription) :=
  c.watchFromWithReceiver start c.events.length

/-! ## What one event does -/

variable {c : WatchCache} {incoming : WatchEvent}

@[simp] theorem outgoing_kind : (c.outgoing incoming).kind = incoming.kind := by
  unfold outgoing
  split_ifs <;> rfl

@[simp] theorem outgoing_key : (c.outgoing incoming).key = incoming.key := by
  unfold outgoing
  split_ifs <;> rfl

@[simp] theorem outgoing_revision : (c.outgoing incoming).revision = incoming.revision := by
  unfold outgoing
  split_ifs <;> rfl

/-- The fields that making room and retaining an event leave alone. -/
structure SameRest (c c' : WatchCache) : Prop where
  items : c'.items = c.items
  historyLimit : c'.historyLimit = c.historyLimit
  revision : c'.revision = c.revision
  events : c'.events = c.events

theorem evict_rest (c : WatchCache) : c.SameRest c.evict := by
  unfold evict
  split_ifs
  · cases c.history <;> exact ⟨rfl, rfl, rfl, rfl⟩
  · exact ⟨rfl, rfl, rfl, rfl⟩

theorem retain_rest (c : WatchCache) (event : WatchEvent) : c.SameRest (c.retain event) := by
  unfold retain
  split_ifs <;> exact ⟨rfl, rfl, rfl, rfl⟩

@[simp] theorem apply_items : (c.apply incoming).items = (c.outgoing incoming).applyTo c.items :=
  ((retain_rest _ _).items).trans (evict_rest _).items

@[simp] theorem apply_historyLimit : (c.apply incoming).historyLimit = c.historyLimit :=
  ((retain_rest _ _).historyLimit).trans (evict_rest _).historyLimit

@[simp] theorem apply_revision : (c.apply incoming).revision = incoming.revision :=
  (((retain_rest _ _).revision).trans (evict_rest _).revision).trans outgoing_revision

@[simp] theorem apply_events : (c.apply incoming).events = c.events ++ [c.outgoing incoming] :=
  congrArg (· ++ _) (((retain_rest _ _).events).trans (evict_rest _).events)

end WatchCache

end NotK8s.Cacher

import NotK8s.Cacher.Feeding
import NotK8s.Nodestore.RbacCache

namespace NotK8s.Cacher

open Library Nodestore Watch

/-!
# The reflector

The loop that keeps a cache current lists the keys under its prefix, seeds
the cache with the list, watches from the revision after it, and starts over
when the watch is cancelled or fails.  Between any two of its steps commands
apply, the server's task takes its turns and other clients read.  Waiting,
backing off and being stopped are left out: they choose when the next step
comes, and here a run chooses.
-/

inductive Phase where
  | listing
  /-- The list is in hand, the cache not yet replaced. -/
  | listed (items : List (Bytes × CacheEntry)) (revision : Int)
  /-- The cache is replaced, the watch not yet open. -/
  | opening
  /-- The watch is open, and this many of its responses have been read. -/
  | watching (read : Nat)

/-- A cache, its reflector, and the server on the other side. -/
structure Reflector where
  /-- The node, and the server's end of the watch. -/
  stream : Stream
  /-- The lists that the node's store has cached for readers. -/
  rbacCache : Bytes -> Option CachedRbacRange
  /-- Requests on the way to the server. -/
  requests : List WatchRequest
  phase : Phase
  /-- The revision of the last list. -/
  listedAt : Int
  cache : WatchCache

namespace Reflector

/-- A cache as the registry starts it, on a node nothing was applied to. -/
def spawn (historyLimit : Nat) : Reflector where
  stream := Stream.opened Node.fresh
  rbacCache := fun _ => none
  requests := []
  phase := .listing
  listedAt := 0
  cache := .new [] 0 historyLimit

def db (r : Reflector) : Db := r.stream.node.store.db

/-- The store as readers find it. -/
def served (r : Reflector) : Store where
  db := r.db
  rbacCache := r.rbacCache

/-- Everything the node has published. -/
def feed (r : Reflector) : List (Int × Event) := r.stream.node.stamped

/-- Fetch every key under the prefix at the current revision. -/
def list (s : Store) (lead : Bytes) : Except Error (List (Bytes × CacheEntry) × Int) × Store :=
  let (answer, s) := s.range (RangeQuery.current (watched lead))
  (answer.map fun result => (result.kvs.map listed, s.db.revision), s)

inductive Step where
  /-- The node applies a command. -/
  | apply (index : Nat) (cmd : Command)
  /-- The channel to the server's task overwrites its oldest batch. -/
  | overwrite
  /-- The server's task takes a batch. -/
  | receive
  /-- The server's task takes a request. -/
  | handle
  /-- The server's task goes on with what it is doing. -/
  | proceed (next : Int)
  /-- Another client reads. -/
  | read (q : RangeQuery)
  | list
  | replace
  | openWatch
  /-- The reflector reads a response. -/
  | message
  /-- The bookmark timer asks for progress. -/
  | tick
  /-- The watch could not be opened, or its stream ended or failed. -/
  | fail

/-- Read the next response.  A cancelled or failed watch starts over. -/
def message (r : Reflector) (read : Nat) : Reflector :=
  match r.stream.sent[read]? with
  | none => r
  | some delivery =>
    match delivery.item with
    | .error _ => { r with phase := .listing }
    | .ok response =>
      { r with
        cache := r.cache.applyWatchResponse response
        phase := if response.canceled then .listing else .watching (read + 1) }

def step (lead : Bytes) (r : Reflector) : Step -> Reflector
  | .apply index cmd =>
    { r with
      stream := r.stream.step (.apply index cmd)
      rbacCache := (r.served.after (index, cmd)).rbacCache }
  | .overwrite => { r with stream := r.stream.step .overwrite }
  | .receive => { r with stream := r.stream.step .receive }
  | .handle =>
    match r.requests with
    | [] => r
    | request :: rest =>
      if r.stream.task = .idle then
        { r with stream := r.stream.step (.request request), requests := rest }
      else r
  | .proceed next => { r with stream := r.stream.step (.proceed next) }
  | .read q => { r with rbacCache := (r.served.range q).2.rbacCache }
  | .list =>
    match r.phase with
    | .listing =>
      let (answer, served) := list r.served lead
      { r with
        rbacCache := served.rbacCache
        phase :=
          match answer with
          | .ok (items, revision) => .listed items revision
          | .error _ => .listing }
    | _ => r
  | .replace =>
    match r.phase with
    | .listed items revision =>
      { r with cache := .new items revision r.cache.historyLimit, listedAt := revision, phase := .opening }
    | _ => r
  | .openWatch =>
    match r.phase with
    | .opening =>
      { r with
        stream := Stream.opened r.stream.node
        requests := [.create (watchRequest lead r.listedAt)]
        phase := .watching 0 }
    | _ => r
  | .message =>
    match r.phase with
    | .watching read => r.message read
    | _ => r
  | .tick =>
    match r.phase with
    | .watching _ => { r with requests := r.requests ++ [.progress] }
    | _ => r
  | .fail =>
    match r.phase with
    | .opening => { r with phase := .listing }
    | .watching _ => { r with phase := .listing }
    | _ => r

/-! ## What a cache is for -/

/-- The cache is the store's key range at the cache's revision, and its
subscribers were told of every event since the last list, once and in
order. -/
structure Faithful (lead : Bytes) (r : Reflector) : Prop where
  /-- What the events up to the revision say. -/
  listing : r.cache.list.1 = (expectedPairs (eventsUpTo r.cache.revision r.feed) (watched lead)).map listed
  /-- What the store still answers for the revision. -/
  stored : r.db.compactRevision ≤ r.cache.revision ->
    r.cache.list.1 = (rangeIn r.db.kv (watched lead) (some r.cache.revision) (RangeQuery.current (watched lead))).kvs.map listed
  delivered : r.cache.delivered =
    (publishedIn (watched lead) r.listedAt r.cache.revision r.feed).map fun stamped => told stamped.2

/-- A list that the store has cached for the prefix was read when the
objects were the present ones. -/
def Current (lead : Bytes) (r : Reflector) : Step -> Prop
  | .list =>
    match rbacListPrefix (watched lead) with
    | none => True
    | some stem =>
      match r.rbacCache stem with
      | none => True
      | some cached =>
        contents (eventsUpTo cached.revision r.feed) (watched lead) = contents r.feed (watched lead)
  | _ => True

instance (lead : Bytes) (r : Reflector) (label : Step) : Decidable (r.Current lead label) :=
  match label with
  | .list => by
    unfold Current
    cases rbacListPrefix (watched lead) with
    | none => exact isTrue True.intro
    | some stem =>
      dsimp only
      cases r.rbacCache stem with
      | none => exact isTrue True.intro
      | some cached => exact inferInstanceAs (Decidable (_ = _))
  | .apply _ _ => isTrue True.intro
  | .overwrite => isTrue True.intro
  | .receive => isTrue True.intro
  | .handle => isTrue True.intro
  | .proceed _ => isTrue True.intro
  | .read _ => isTrue True.intro
  | .replace => isTrue True.intro
  | .openWatch => isTrue True.intro
  | .message => isTrue True.intro
  | .tick => isTrue True.intro
  | .fail => isTrue True.intro

/-! ## The store under readers -/

/-- A table shows at every revision it still answers for what the published
events say. -/
theorem logged_refines {node : Node} (logged : node.Logged) :
    Refines node.store.db.kv node.store.db.compactRevision node.stamped := by
  rcases logged.log with ⟨entries, store, published⟩
  rw [← store, ← published]
  exact history_refines entries

theorem rangeIn_listed {node : Node} (logged : node.Logged) (range : KeyRange) {r : Int}
    (above : node.store.db.compactRevision ≤ r) :
    (rangeIn node.store.db.kv range (some r) (RangeQuery.current range)).kvs.map listed =
      (contents (eventsUpTo r node.stamped) range).entries := by
  have page := (logged_refines logged).rangeIn_eq logged.wellFormed.distinct above (RangeQuery.current range)
  change rangeIn node.store.db.kv range (some r) (RangeQuery.current range) = _ at page
  rw [page]
  simp [expectedRange, RangeQuery.current, trim, contents]

/-- Each cached list is what its range held at the revision it was read. -/
def Cached (r : Reflector) : Prop :=
  forall stem cached, r.rbacCache stem = some cached -> cached.revision ≤ r.db.revision ∧
    cached.result.kvs.map listed =
      (contents (eventsUpTo cached.revision r.feed) (.between stem (Nodestore.prefixRangeEnd stem))).entries

theorem eventsUpTo_all {node : Node} (logged : node.Logged) :
    eventsUpTo node.store.db.revision node.stamped = node.stamped :=
  List.filter_eq_self.mpr fun stamped member => decide_eq_true (logged.stamped_le stamped member)

section
variable {r : Reflector} {lead : Bytes}

theorem Cached.read (cached : r.Cached) (logged : r.stream.node.Logged) (q : RangeQuery) :
    ({ r with rbacCache := (r.served.range q).2.rbacCache } : Reflector).Cached := by
  intro stem found stored
  by_cases fills : Exists fun asOf : Int => Exists fun stem : Bytes =>
      r.served.db.readRevision q = .ok asOf ∧ rbacListPrefix q.range = some stem ∧ cacheable q = true ∧
        r.served.cachedList q asOf = none
  · rcases fills with ⟨asOf, own, selected, named, plain, missed⟩
    rw [range_store selected named plain missed] at stored
    rcases remember_cases stored with ⟨rfl, rfl⟩ | old
    · have bounds := readRevision_bounds logged.wellFormed selected
      refine ⟨bounds.2.1, ?_⟩
      rw [← (rbacListPrefix_eq_some named).2]
      rw [rangeIn_cacheable plain _ _ 0]
      exact rangeIn_listed logged q.range bounds.1
    · exact cached stem found old
  · rw [range_store_same] at stored
    · exact cached stem found stored
    · intro asOf own selected named plain
      cases hit : r.served.cachedList q asOf with
      | some result => exact ⟨result, rfl⟩
      | none => exact absurd ⟨asOf, own, selected, named, plain, hit⟩ fills

theorem after_rbacCache {s : Store} (wellFormed : s.db.WellFormed) {entry : Nat × Command} {stem : Bytes}
    {cached : CachedRbacRange} (stored : (s.after entry).rbacCache stem = some cached) :
    s.rbacCache stem = some cached := by
  cases outcome : s.applyAt entry.1 entry.2 with
  | error refusal =>
    rw [Store.after_error outcome] at stored
    exact stored
  | ok result =>
    rw [Store.after_ok outcome] at stored
    rcases wellFormed.accepted outcome with ⟨tx, w, accepted⟩
    rw [accepted.cache] at stored
    split_ifs at stored
    exact stored

/-- A list is answered with the present objects when a cached one still has
them. -/
theorem Cached.range_ok (cached : r.Cached) (logged : r.stream.node.Logged) (current : r.Current lead .list) :
    Exists fun result : RangeResult => (r.served.range (RangeQuery.current (watched lead))).1 = .ok result ∧
      result.kvs.map listed = (contents r.feed (watched lead)).entries := by
  have selected : r.served.db.readRevision (RangeQuery.current (watched lead)) = .ok r.db.revision :=
    readRevision_current (le_refl 0)
  have whole : eventsUpTo r.db.revision r.feed = r.feed := eventsUpTo_all logged
  unfold Store.range
  simp only [selected]
  cases hit : r.served.cachedList (RangeQuery.current (watched lead)) r.db.revision with
  | none =>
    refine ⟨_, rfl, ?_⟩
    have page := rangeIn_listed logged (watched lead) logged.wellFormed.compactLe
    change _ = (contents (eventsUpTo r.db.revision r.feed) (watched lead)).entries at page
    rw [whole] at page
    exact page
  | some result =>
    refine ⟨_, rfl, ?_⟩
    rcases cachedList_eq_some hit with ⟨stem, found, named, _, stored, _, rfl⟩
    change rbacListPrefix (watched lead) = some stem at named
    change r.rbacCache stem = some found at stored
    unfold Current at current
    simp only [named, stored] at current
    rw [(cached stem found stored).2, ← (rbacListPrefix_eq_some named).2, ← current]

theorem Cached.list_ok (cached : r.Cached) (logged : r.stream.node.Logged) (current : r.Current lead .list) :
    (list r.served lead).1 = .ok ((contents r.feed (watched lead)).entries, r.db.revision) := by
  rcases cached.range_ok logged current with ⟨result, answer, items⟩
  have unmoved := range_db r.served (RangeQuery.current (watched lead))
  unfold list
  generalize r.served.range (RangeQuery.current (watched lead)) = both at answer unmoved
  rcases both with ⟨first, second⟩
  change first = _ at answer
  change second.db = r.db at unmoved
  rw [answer]
  change Except.ok (result.kvs.map listed, second.db.revision) = _
  rw [items, unmoved]

end

end Reflector
end NotK8s.Cacher

import NotK8s.Cacher.Store
import NotK8s.Library.Run
import NotK8s.Watch.Stream

namespace NotK8s.Cacher

open Library Nodestore Watch

/-!
# From watch responses to cache events
-/

/-- What the cache is told of an event.  The wire has one kind for a creation
and a change; a creation has version 1. -/
def decodeEvent (event : PbEvent) : Option WatchEvent :=
  event.kv.map fun kv =>
    let kind : EventKind :=
      if event.type = .delete then .deleted else if kv.version = 1 then .added else .modified
    { kind := kind
      key := kv.key
      value := if kind = .deleted then [] else kv.value
      revision := kv.modRevision }

/-- What to apply of a response.  The acknowledgement of a new watch may be
ahead of the list, and moving the cache there would discard the events in
between, so only an explicit progress response is a bookmark. -/
def decodeApplies (resp : WatchResponse) (currentRevision : Int) : List WatchEvent :=
  if resp.created || resp.canceled then []
  else if resp.events = [] then
    if resp.watchId = -1 ∧ currentRevision < resp.header then
      [{ kind := .bookmark, key := [], value := [], revision := resp.header }]
    else []
  else (resp.events.filterMap decodeEvent).filter fun event => currentRevision < event.revision

def WatchCache.applyWatchResponse (c : WatchCache) (resp : WatchResponse) : WatchCache :=
  c.applyBatch (decodeApplies resp c.revision)

theorem decodeApplies_above (resp : WatchResponse) (currentRevision : Int) :
    forall event, event ∈ decodeApplies resp currentRevision -> currentRevision < event.revision := by
  intro event listed
  unfold decodeApplies at listed
  split_ifs at listed with idle quiet progress
  · cases listed
  · rw [List.mem_singleton.mp listed]
    exact progress.2
  · cases listed
  · exact of_decide_eq_true (List.mem_filter.mp listed).2

/-!
# From a list to a watch

A client lists the cache and later starts a watch at the revision of that
list.  In between and afterwards the cache goes on: responses are applied and
a reconnect may install a new snapshot.  The history holds everything since
the list as long as nothing newer than the list has been evicted, and then
the floor is still at or below the list's revision; so a start that is not
refused is replayed in full.

An eviction in the middle of the events of one revision raises the floor to
that revision.  That is no loss for a list at that revision, because a batch
is applied under one lock and the list has the whole of it.
-/

/-- What happens to the cache. -/
inductive Update where
  | response (resp : WatchResponse)
  /-- A reconnect lists again and installs what it got. -/
  | replace (initial : List (Bytes × CacheEntry)) (revision : Int)

namespace WatchCache

def update (c : WatchCache) : Update -> WatchCache
  | .response resp => c.applyWatchResponse resp
  | .replace initial revision => .new initial revision c.historyLimit

/-- What an update broadcasts.  A new snapshot comes with a channel of its
own. -/
def emits (c : WatchCache) : Update -> List WatchEvent
  | .response resp => (c.applyWatchResponse resp).events.drop c.events.length
  | .replace _ _ => []

def emitted (c : WatchCache) : List Update -> List WatchEvent
  | [] => []
  | update :: rest => c.emits update ++ emitted (c.update update) rest

/-- What the store promises: the events of a response come in revision order,
and a new list is not older than what the store has shown before. -/
def Promised (c : WatchCache) : Update -> Prop
  | .response resp => (decodeApplies resp c.revision).Pairwise fun first second => first.revision ≤ second.revision
  | .replace initial revision =>
    c.revision ≤ revision ∧ (revision = c.revision -> SortedMap.ofList initial = c.items)

instance (c : WatchCache) : forall update : Update, Decidable (c.Promised update)
  | .response _ => inferInstanceAs (Decidable (List.Pairwise _ _))
  | .replace _ _ => inferInstanceAs (Decidable (_ ∧ _))

end WatchCache

/-- A client's copy after some events. -/
def replayed (items : Items) (events : List WatchEvent) : Items :=
  events.foldl WatchEvent.applyTo items

/-- Every deletion tells the last value of its object. -/
def TellsLast : Items -> List WatchEvent -> Prop
  | _, [] => True
  | items, event :: rest =>
    (event.kind = .deleted -> event.value = WatchCache.lastValue items event.key) ∧
      TellsLast (event.applyTo items) rest

instance TellsLast.decidable : forall (items : Items) (events : List WatchEvent), Decidable (TellsLast items events)
  | _, [] => isTrue True.intro
  | items, event :: rest =>
    have := TellsLast.decidable (event.applyTo items) rest
    inferInstanceAs (Decidable (_ ∧ _))

theorem replayed_append (items : Items) (first second : List WatchEvent) :
    replayed items (first ++ second) = replayed (replayed items first) second :=
  List.foldl_append

theorem tellsLast_append {items : Items} {first second : List WatchEvent} :
    TellsLast items (first ++ second) <-> TellsLast items first ∧ TellsLast (replayed items first) second := by
  induction first generalizing items with
  | nil => exact (and_iff_right True.intro).symm
  | cons event rest ih =>
    simp only [List.cons_append, TellsLast, ih, and_assoc]
    rfl

namespace WatchCache

/-- The history is in revision order, between the floor and the revision. -/
structure Ordered (c : WatchCache) : Prop where
  bounded : c.history.length ≤ c.historyLimit
  sorted : c.history.Pairwise fun first second => first.revision ≤ second.revision
  reached : forall event, event ∈ c.history -> event.revision ≤ c.revision
  retained : forall event, event ∈ c.history -> c.historyFloor ≤ event.revision
  floor : c.historyFloor ≤ c.revision

/-- Nothing broadcast since a list at a revision has been forgotten. -/
structure Covers (c : WatchCache) (start : Int) (since : List WatchEvent) : Prop where
  available : c.historyFloor ≤ start
  listed : start ≤ c.revision
  history : (c.history.filter fun event => start < event.revision) = since

variable {c : WatchCache} {incoming : WatchEvent} {start : Int} {since : List WatchEvent}

theorem Ordered.new (initial : List (Bytes × CacheEntry)) (revision : Int) (historyLimit : Nat) :
    Ordered (.new initial revision historyLimit) where
  bounded := Nat.zero_le _
  sorted := List.Pairwise.nil
  reached := nofun
  retained := nofun
  floor := le_rfl

/-- An event is added to the history, in place of the oldest one when the
history is full, or is not retained at all. -/
theorem apply_history (c : WatchCache) (incoming : WatchEvent) :
    ((c.apply incoming).history = c.history ++ [c.outgoing incoming] ∧
        (c.apply incoming).historyFloor = c.historyFloor ∧ c.history.length ≠ c.historyLimit) ∨
      (Exists fun evicted : WatchEvent => Exists fun rest : List WatchEvent => c.history = evicted :: rest ∧
        (c.apply incoming).history = rest ++ [c.outgoing incoming] ∧
        (c.apply incoming).historyFloor = evicted.revision) ∨
      ((c.apply incoming).history = c.history ∧ (c.apply incoming).historyFloor = incoming.revision ∧
        c.historyLimit = 0) := by
  rw [← @outgoing_revision c incoming]
  rcases Nat.eq_zero_or_pos c.historyLimit with none | retains
  · right
    right
    simp [apply, evict, retain, none]
  · by_cases full : c.history.length = c.historyLimit
    · cases shape : c.history with
      | nil =>
        rw [shape] at full
        exact absurd full.symm (Nat.ne_of_gt retains)
      | cons evicted rest =>
        rw [shape] at full
        right
        left
        refine ⟨evicted, rest, rfl, ?_⟩
        simp [apply, evict, retain, shape, retains, full]
    · left
      simp [apply, evict, retain, retains, full]

theorem Ordered.concat {c' : WatchCache} {kept : List WatchEvent} {event : WatchEvent}
    (history : c'.history = kept ++ [event]) (bounded : kept.length < c'.historyLimit)
    (sorted : kept.Pairwise fun first second => first.revision ≤ second.revision)
    (older : forall other, other ∈ kept -> other.revision ≤ event.revision)
    (retained : forall other, other ∈ kept -> c'.historyFloor ≤ other.revision)
    (floor : c'.historyFloor ≤ event.revision) (newest : c'.revision = event.revision) : c'.Ordered := by
  refine ⟨?_, ?_, ?_, ?_, newest ▸ floor⟩
  · rw [history, List.length_append]
    exact bounded
  · rw [history]
    apply List.pairwise_append.mpr
    refine ⟨sorted, List.pairwise_singleton _ _, ?_⟩
    intro other listed last isLast
    rw [List.mem_singleton.mp isLast]
    exact older other listed
  · intro other listed
    rw [history] at listed
    rw [newest]
    rcases List.mem_append.mp listed with before | last
    · exact older other before
    · rw [List.mem_singleton.mp last]
  · intro other listed
    rw [history] at listed
    rcases List.mem_append.mp listed with before | last
    · exact retained other before
    · rw [List.mem_singleton.mp last]
      exact floor

theorem Ordered.apply (ordered : c.Ordered) (later : c.revision ≤ incoming.revision) : (c.apply incoming).Ordered := by
  have older : forall event, event ∈ c.history -> event.revision ≤ (c.outgoing incoming).revision := by
    intro event listed
    rw [outgoing_revision]
    exact (ordered.reached event listed).trans later
  have newest : (c.apply incoming).revision = (c.outgoing incoming).revision := by
    rw [apply_revision, outgoing_revision]
  rcases c.apply_history incoming with ⟨history, floor, room⟩ | ⟨evicted, rest, shape, history, floor⟩ |
    ⟨history, floor, none⟩
  · apply Ordered.concat history _ ordered.sorted older _ _ newest
    · rw [apply_historyLimit]
      exact Nat.lt_of_le_of_ne ordered.bounded room
    · rw [floor]
      exact ordered.retained
    · rw [floor, outgoing_revision]
      exact ordered.floor.trans later
  · have sorted := ordered.sorted
    have bounded := ordered.bounded
    rw [shape] at sorted bounded older
    have parts := List.pairwise_cons.mp sorted
    apply Ordered.concat history _ parts.2 _ _ _ newest
    · rw [apply_historyLimit]
      exact bounded
    · exact fun other listed => older other (.tail _ listed)
    · rw [floor]
      exact parts.1
    · rw [floor]
      exact older evicted (.head _)
  · have empty : c.history = [] := by
      apply List.eq_nil_of_length_eq_zero
      exact Nat.le_zero.mp (none ▸ ordered.bounded)
    rw [empty] at history
    refine ⟨?_, ?_, ?_, ?_, ?_⟩
    · rw [history]
      exact Nat.zero_le _
    · rw [history]
      exact List.Pairwise.nil
    · rw [history]
      nofun
    · rw [history]
      nofun
    · rw [floor, apply_revision]

theorem Ordered.floor_le (ordered : c.Ordered) (later : c.revision ≤ incoming.revision) :
    c.historyFloor ≤ (c.apply incoming).historyFloor := by
  rcases c.apply_history incoming with ⟨_, floor, _⟩ | ⟨evicted, rest, shape, _, floor⟩ | ⟨_, floor, _⟩
  · exact floor.ge
  · rw [floor]
    apply ordered.retained
    rw [shape]
    exact .head _
  · rw [floor]
    exact ordered.floor.trans later

/-- An event newer than the start is covered with the rest, or the start is
refused from now on. -/
theorem Covers.apply (covers : c.Covers start since) (later : c.revision ≤ incoming.revision)
    (newer : start < incoming.revision) :
    (c.apply incoming).Covers start (since ++ [c.outgoing incoming]) ∨ start < (c.apply incoming).historyFloor := by
  have reached : start ≤ (c.apply incoming).revision := by
    rw [apply_revision]
    exact newer.le
  have added : ([c.outgoing incoming].filter fun event => decide (start < event.revision)) = [c.outgoing incoming] := by
    simp [newer]
  rcases c.apply_history incoming with ⟨history, floor, _⟩ | ⟨evicted, rest, shape, history, floor⟩ |
    ⟨_, floor, _⟩
  · left
    refine ⟨floor ▸ covers.available, reached, ?_⟩
    rw [history, List.filter_append, added, covers.history]
  · by_cases forgotten : start < evicted.revision
    · right
      rw [floor]
      exact forgotten
    · left
      refine ⟨floor ▸ not_lt.mp forgotten, reached, ?_⟩
      have before := covers.history
      rw [shape, List.filter_cons_of_neg (by simpa using forgotten)] at before
      rw [history, List.filter_append, added, before]
  · right
    rw [floor]
    exact newer

/-! ## Batches -/

/-- The events a batch is broadcast as. -/
def outgoings (c : WatchCache) : List WatchEvent -> List WatchEvent
  | [] => []
  | incoming :: rest => c.outgoing incoming :: outgoings (c.apply incoming) rest

theorem applyBatch_events (batch : List WatchEvent) : (c.applyBatch batch).events = c.events ++ c.outgoings batch := by
  induction batch generalizing c with
  | nil => exact (List.append_nil _).symm
  | cons incoming rest ih =>
    change ((c.apply incoming).applyBatch rest).events = _
    rw [ih, apply_events, List.append_assoc]
    rfl

/-- A client that applies what is broadcast keeps up with the cache, and is
told what each deletion removed. -/
theorem applyBatch_items (batch : List WatchEvent) :
    replayed c.items (c.outgoings batch) = (c.applyBatch batch).items ∧ TellsLast c.items (c.outgoings batch) := by
  induction batch generalizing c with
  | nil => exact ⟨rfl, True.intro⟩
  | cons incoming rest ih =>
    have tail := @ih (c.apply incoming)
    rw [apply_items] at tail
    refine ⟨tail.1, ?_, tail.2⟩
    intro deletes
    rw [outgoing_kind] at deletes
    rw [outgoing_key]
    unfold outgoing
    rw [if_pos deletes]

theorem applyBatch_revision {batch : List WatchEvent}
    (sorted : batch.Pairwise fun first second => first.revision ≤ second.revision)
    (later : forall incoming, incoming ∈ batch -> c.revision ≤ incoming.revision) :
    c.revision ≤ (c.applyBatch batch).revision := by
  induction batch generalizing c with
  | nil => exact le_rfl
  | cons incoming rest ih =>
    have parts := List.pairwise_cons.mp sorted
    have first := later incoming (.head _)
    have tail := @ih (c.apply incoming) parts.2
    rw [apply_revision] at tail
    exact first.trans (tail parts.1)

theorem emits_response (c : WatchCache) (resp : WatchResponse) :
    c.emits (.response resp) = c.outgoings (decodeApplies resp c.revision) := by
  change (c.applyBatch _).events.drop _ = _
  rw [applyBatch_events, List.drop_left]

/-! ## What the cache keeps for a list -/

/-- Either a watch from the list's revision is refused, or the history has
everything since and it leads from the list to the present. -/
def Keeps (c : WatchCache) (start : Int) (listed : Items) (since : List WatchEvent) : Prop :=
  start < c.historyFloor ∨
    (c.Covers start since ∧ replayed listed since = c.items ∧ TellsLast listed since)

variable {listed : Items}

theorem Ordered.keeps (ordered : c.Ordered) : c.Keeps c.revision c.items [] := by
  refine Or.inr ⟨⟨ordered.floor, le_rfl, ?_⟩, rfl, True.intro⟩
  apply List.filter_eq_nil_iff.mpr
  intro event retained
  simp only [decide_eq_true_eq, not_lt]
  exact ordered.reached event retained

theorem Keeps.applyBatch {batch : List WatchEvent} (ordered : c.Ordered) (keeps : c.Keeps start listed since)
    (sorted : batch.Pairwise fun first second => first.revision ≤ second.revision)
    (later : forall incoming, incoming ∈ batch -> c.revision ≤ incoming.revision)
    (newer : forall incoming, incoming ∈ batch -> start < incoming.revision) :
    (c.applyBatch batch).Ordered ∧ (c.applyBatch batch).Keeps start listed (since ++ c.outgoings batch) := by
  induction batch generalizing c since with
  | nil =>
    rw [show c.outgoings [] = [] from rfl, List.append_nil]
    exact ⟨ordered, keeps⟩
  | cons incoming rest ih =>
    have parts := List.pairwise_cons.mp sorted
    have here := later incoming (.head _)
    have next : (c.apply incoming).Keeps start listed (since ++ [c.outgoing incoming]) := by
      rcases keeps with refused | ⟨covers, mirrors, deletions⟩
      · exact Or.inl (refused.trans_le (ordered.floor_le here))
      · rcases covers.apply here (newer incoming (.head _)) with covered | refused
        · refine Or.inr ⟨covered, ?_, ?_⟩
          · rw [replayed_append, mirrors, apply_items]
            rfl
          · apply tellsLast_append.mpr
            rw [mirrors]
            exact ⟨deletions, (applyBatch_items [incoming]).2⟩
        · exact Or.inl refused
    have tail := ih (ordered.apply here) next parts.2
      (fun other listed => by
        rw [apply_revision]
        exact parts.1 other listed)
      fun other listed => newer other (.tail _ listed)
    rw [List.append_assoc] at tail
    exact tail

theorem Keeps.updated {update : Update} (ordered : c.Ordered) (reached : start ≤ c.revision)
    (keeps : c.Keeps start listed since) (promised : c.Promised update) :
    (c.update update).Ordered ∧ start ≤ (c.update update).revision ∧
      (c.update update).Keeps start listed (since ++ c.emits update) := by
  cases update with
  | response resp =>
    have above := decodeApplies_above resp c.revision
    have kept := Keeps.applyBatch ordered keeps promised (fun event listed => (above event listed).le)
      fun event listed => reached.trans_lt (above event listed)
    rw [emits_response]
    refine ⟨kept.1, reached.trans ?_, kept.2⟩
    exact applyBatch_revision promised fun event listed => (above event listed).le
  | replace initial revision =>
    refine ⟨.new initial revision _, reached.trans promised.1, ?_⟩
    rw [show c.emits (.replace initial revision) = [] from rfl, List.append_nil]
    rcases keeps with refused | ⟨covers, mirrors, deletions⟩
    · exact Or.inl ((refused.trans_le ordered.floor).trans_le promised.1)
    · by_cases newer : start < revision
      · exact Or.inl newer
      · -- the new list is at the very revision of the client's
        have same : revision = c.revision := le_antisymm ((not_lt.mp newer).trans reached) promised.1
        have nothing : since = [] := by
          rw [← covers.history]
          apply List.filter_eq_nil_iff.mpr
          intro event retained
          have old := ordered.reached event retained
          simp only [decide_eq_true_eq, not_lt]
          exact old.trans (same ▸ not_lt.mp newer)
        refine Or.inr ⟨⟨not_lt.mp newer, reached.trans promised.1, nothing.symm⟩, ?_, deletions⟩
        rw [mirrors]
        exact (promised.2 same).symm

theorem Keeps.after {updates : List Update} (ordered : c.Ordered) (reached : start ≤ c.revision)
    (keeps : c.Keeps start listed since) (promised : EveryStep update Promised c updates) :
    (run update c updates).Ordered ∧ (run update c updates).Keeps start listed (since ++ c.emitted updates) := by
  induction updates generalizing c since with
  | nil =>
    rw [show c.emitted [] = [] from rfl, List.append_nil]
    exact ⟨ordered, keeps⟩
  | cons update rest ih =>
    rcases Keeps.updated ordered reached keeps promised.1 with ⟨next, further, kept⟩
    have tail := ih next further kept promised.2
    rw [List.append_assoc] at tail
    exact tail

/-! ## Watching -/

/-- A watch hands off from a list: what it replays and then sends is what was
broadcast since the list, each event once and in order, and it takes the
client from the list to the cache's present content. -/
structure HandsOff (listed : Items) (since replay live : List WatchEvent) (final : Items) : Prop where
  exact : replay ++ live = since
  mirrors : replayed listed (replay ++ live) = final
  deletions : TellsLast listed (replay ++ live)

instance (listed : Items) (since replay live : List WatchEvent) (final : Items) :
    Decidable (HandsOff listed since replay live final) :=
  decidable_of_iff (replay ++ live = since ∧ replayed listed (replay ++ live) = final ∧ TellsLast listed (replay ++ live))
    ⟨fun all => ⟨all.1, all.2.1, all.2.2⟩, fun hands => ⟨hands.exact, hands.mirrors, hands.deletions⟩⟩

theorem watchFrom_of_pos (positive : 0 < start) : c.watchFrom start = c.watchFromSnapshot start :=
  if_neg (not_le.mpr positive)

theorem watchFromSnapshot_ok {replay : List WatchEvent} {rx : Subscription}
    (watched : c.watchFromSnapshot start = .ok (replay, rx)) :
    c.historyFloor ≤ start ∧ replay = (c.history.filter fun event => start < event.revision) ∧ rx = c.events.length := by
  unfold watchFromSnapshot watchFromWithReceiver at watched
  split_ifs at watched with old
  cases watched
  exact ⟨not_lt.mp old, rfl, rfl⟩

theorem responses_events (responses : List WatchResponse) :
    (run update c (responses.map .response)).events = c.events ++ c.emitted (responses.map .response) := by
  induction responses generalizing c with
  | nil => exact (List.append_nil _).symm
  | cons resp rest ih =>
    rw [List.map_cons, run_cons, ih]
    change (c.applyBatch _).events ++ _ = _ ++ (c.emits _ ++ _)
    rw [applyBatch_events, emits_response, List.append_assoc]

theorem responses_items (responses : List WatchResponse) :
    replayed c.items (c.emitted (responses.map .response)) = (run update c (responses.map .response)).items ∧
      TellsLast c.items (c.emitted (responses.map .response)) := by
  induction responses generalizing c with
  | nil => exact ⟨rfl, True.intro⟩
  | cons resp rest ih =>
    have here := applyBatch_items (c := c) (decodeApplies resp c.revision)
    have tail := @ih (c.applyWatchResponse resp)
    change replayed c.items (c.emits _ ++ emitted (c.applyWatchResponse resp) _) = _ ∧
      TellsLast c.items (c.emits _ ++ emitted (c.applyWatchResponse resp) _)
    rw [emits_response, replayed_append, tellsLast_append, here.1]
    exact ⟨tail.1, here.2, tail.2⟩

theorem emitted_append (c : WatchCache) (first second : List Update) :
    c.emitted (first ++ second) = c.emitted first ++ (run update c first).emitted second := by
  induction first generalizing c with
  | nil => rfl
  | cons head rest ih =>
    change c.emits head ++ emitted _ (rest ++ second) = (c.emits head ++ _) ++ _
    rw [ih, List.append_assoc]
    rfl

/-- A list at any moment, and a watch from its revision started at any later
moment and not refused as too old, hand off without a gap until the cache is
replaced.  An ordinary watch takes a start of zero as no start, so there the
list's revision must be positive. -/
theorem list_then_watch_handsOff (initial : List (Bytes × CacheEntry)) (revision : Int) (historyLimit : Nat)
    (before middle : List Update) (after : List WatchResponse) (replay : List WatchEvent) (rx : Subscription) :
    let listed := run update (.new initial revision historyLimit) before
    let watched := run update listed middle
    let final := run update watched (after.map .response)
    EveryStep update Promised (.new initial revision historyLimit) (before ++ (middle ++ after.map .response)) ->
      (0 < listed.revision ∧ watched.watchFrom listed.revision = .ok (replay, rx)) ∨
          watched.watchFromSnapshot listed.revision = .ok (replay, rx) ->
        HandsOff listed.items (listed.emitted (middle ++ after.map .response)) replay (final.events.drop rx)
          final.items := by
  intro listed watched final promised answer
  rcases everyStep_append.mp promised with ⟨first, rest⟩
  rcases everyStep_append.mp rest with ⟨second, third⟩
  have fromSnapshot : watched.watchFromSnapshot listed.revision = .ok (replay, rx) := by
    rcases answer with ⟨positive, ordinary⟩ | snapshot
    · rw [← watchFrom_of_pos positive]
      exact ordinary
    · exact snapshot
  rcases watchFromSnapshot_ok fromSnapshot with ⟨available, replays, subscribed⟩
  have fresh := Ordered.new initial revision historyLimit
  have orderly : listed.Ordered := (Keeps.after fresh le_rfl fresh.keeps first).1
  have kept := (Keeps.after orderly le_rfl orderly.keeps second).2
  rw [List.nil_append] at kept
  rcases kept with refused | ⟨covers, mirrors, deletions⟩
  · exact absurd available (not_le.mpr refused)
  · have live : final.events.drop rx = watched.emitted (after.map .response) := by
      rw [subscribed, responses_events, List.drop_left]
    have past : replay = listed.emitted middle := replays.trans covers.history
    have subscriber := @responses_items watched after
    rw [emitted_append, live, past]
    refine ⟨rfl, ?_, ?_⟩
    · rw [replayed_append, mirrors]
      exact subscriber.1
    · rw [tellsLast_append, mirrors]
      exact ⟨deletions, subscriber.2⟩

/-- A response with one put. -/
def putResponse (key value : String) (revision : Int) : WatchResponse :=
  { header := revision
    events :=
      [{ type := .put
         kv := some { key := ascii key, createRevision := revision, modRevision := revision, version := 1,
                      value := ascii value, lease := 0 }
         prevKv := none }] }

/-- One put before the watch and one after it, with room for one event. -/
theorem retainedPut_handsOff :
    HandsOff (.ofList []) [⟨.added, ascii "/a", ascii "v", 6⟩, ⟨.added, ascii "/b", ascii "w", 7⟩]
      [⟨.added, ascii "/a", ascii "v", 6⟩] [⟨.added, ascii "/b", ascii "w", 7⟩]
      (.ofList [(ascii "/a", ⟨ascii "v", 6⟩), (ascii "/b", ⟨ascii "w", 7⟩)]) :=
  list_then_watch_handsOff [] 5 1 [] [.response (putResponse "/a" "v" 6)] [putResponse "/b" "w" 7]
    [⟨.added, ascii "/a", ascii "v", 6⟩] 1 (by decide) (Or.inl (by decide))

/-- A put between a list of an empty cache at revision zero and an ordinary
watch from it is not sent. -/
theorem zeroList_not_handsOff :
    let listed : WatchCache := .new [] 0 16
    let watched := run update listed [.response (putResponse "/a" "v" 1)]
    watched.watchFrom listed.revision = .ok ([], 1) ∧
      ¬ HandsOff listed.items (listed.emitted [.response (putResponse "/a" "v" 1)]) [] (watched.events.drop 1)
        watched.items := by
  decide

end WatchCache

end NotK8s.Cacher

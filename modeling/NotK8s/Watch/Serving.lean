import NotK8s.Library.Window
import NotK8s.Watch.Sending

namespace NotK8s.Watch

open Library Nodestore

/-!
# A watcher's position

What a creation asks for is stated on the published events alone: those from
its start on that its range and filters accept, in the order they were
published.  A watcher serves its creation when it has been sent the part of
them up to its position.  The three ways of moving on (a batch, the replay
of a creation, a resync) each send the window between the old position and
the new one.
-/

/-- Whether a creation asks for an event: from its start revision on, or
after the revision current at its creation where it names none. -/
def Creation.accepts (creation : Creation) (stamped : Int × Event) : Bool :=
  (if creation.request.startRevision ≤ 0 then decide (creation.current < stamped.1)
    else decide (creation.request.startRevision ≤ stamped.1)) &&
  ((KeyRange.decode creation.request.key creation.request.rangeEnd).contains stamped.2.kv.key &&
    match stamped.2.kind with
    | .put => !creation.request.filters.contains noput
    | .delete => !creation.request.filters.contains nodelete)

/-- What a creation asks for of a list of published events. -/
def Creation.expected (creation : Creation) (feed : List (Int × Event)) : List (Int × PbEvent) :=
  (feed.filter creation.accepts).map fun stamped =>
    (stamped.1, eventToPb stamped.2 creation.request.prevKv)

/-- The published events up to a revision. -/
def upTo (cursor : Int) (feed : List (Int × Event)) : List (Int × Event) :=
  feed.filter fun stamped => decide (stamped.1 ≤ cursor)

/-- What the watcher wants between two positions, as it gets it. -/
def Watcher.between (watcher : Watcher) (lower upper : Int) (feed : List (Int × Event)) :
    List (Int × PbEvent) :=
  (window Prod.fst (fun stamped => watcher.wants stamped.2) lower upper feed).map watcher.onWire

@[simp] theorem Watcher.moved_between {watcher : Watcher} (revision lower upper : Int)
    (feed : List (Int × Event)) :
    (watcher.moved revision).between lower upper feed = watcher.between lower upper feed := rfl

theorem Creation.accepts_eq (creation : Creation) (stamped : Int × Event) :
    creation.accepts stamped =
      (decide (creation.watcher.lastRevision < stamped.1) && creation.watcher.wants stamped.2) := by
  have start : (if creation.request.startRevision ≤ 0 then decide (creation.current < stamped.1)
      else decide (creation.request.startRevision ≤ stamped.1)) =
      decide (creation.watcher.lastRevision < stamped.1) := by
    by_cases now : creation.request.startRevision ≤ 0
    · simp [Creation.watcher, now]
    · simp only [Creation.watcher, now, if_false, decide_eq_decide]
      omega
  have wanted : ((KeyRange.decode creation.request.key creation.request.rangeEnd).contains stamped.2.kv.key &&
      match stamped.2.kind with
      | .put => !creation.request.filters.contains noput
      | .delete => !creation.request.filters.contains nodelete) = creation.watcher.wants stamped.2 := by
    unfold Watcher.wants
    cases inside : (KeyRange.decode creation.request.key creation.request.rangeEnd).contains stamped.2.kv.key with
    | true => cases stamped.2.kind <;> simp [Creation.watcher, inside]
    | false => simp [Creation.watcher, inside]
  rw [Creation.accepts, start, wanted]

theorem Creation.expected_upTo (creation : Creation) (cursor : Int) (feed : List (Int × Event)) :
    creation.expected (upTo cursor feed) =
      creation.watcher.between creation.watcher.lastRevision cursor feed := by
  have same : (upTo cursor feed).filter creation.accepts =
      window Prod.fst (fun stamped => creation.watcher.wants stamped.2) creation.watcher.lastRevision cursor
        feed := by
    rw [upTo, window, List.filter_filter]
    apply List.filter_congr
    intro stamped _
    rw [creation.accepts_eq, Bool.and_right_comm]
  rw [Creation.expected, same]
  rfl

/-- The watcher has been sent what its creation asks for up to its position,
in a feed that has reached `revision`. -/
structure Serving (creation : Creation) (feed : List (Int × Event)) (revision : Int)
    (received : List (Int × PbEvent)) (watcher : Watcher) : Prop where
  shape : watcher = creation.watcher.moved watcher.lastRevision
  start : creation.watcher.lastRevision ≤ watcher.lastRevision
  /-- A start in the future is a position nothing has been published at. -/
  within : watcher.lastRevision ≤ revision ∨ watcher.lastRevision = creation.watcher.lastRevision
  exact : received = watcher.between creation.watcher.lastRevision watcher.lastRevision feed

/-- Everything the watcher still wants waits in the buffer. -/
def Buffered (feed : List (Int × Event)) (buffer : List WatchBatch) (watcher : Watcher) : Prop :=
  forall stamped, stamped ∈ feed -> watcher.lastRevision < stamped.1 -> watcher.wants stamped.2 = true ->
    Exists fun batch : WatchBatch => batch ∈ buffer ∧ stamped ∈ batch.stamped

section
variable {creation : Creation} {feed : List (Int × Event)} {revision : Int}
  {received : List (Int × PbEvent)} {watcher : Watcher}

theorem Serving.opened (creation : Creation) (feed : List (Int × Event)) (revision : Int) :
    Serving creation feed revision [] creation.watcher where
  shape := creation.watcher.moved_self.symm
  start := le_refl _
  within := Or.inr rfl
  exact := by rw [Watcher.between, window_empty (le_refl _), List.map_nil]

section

variable (serving : Serving creation feed revision received watcher)
include serving

theorem Serving.expected :
    received = creation.expected (upTo watcher.lastRevision feed) := by
  have exact := serving.exact
  rw [serving.shape] at exact
  rw [creation.expected_upTo]
  exact exact

theorem Serving.published
    {later : List (Int × Event)} {revision' : Int} (grows : revision ≤ revision')
    (above : forall stamped, stamped ∈ later -> revision < stamped.1) :
    Serving creation (feed ++ later) revision' received watcher := by
  refine ⟨serving.shape, serving.start, serving.within.imp_left (le_trans · grows), ?_⟩
  rw [serving.exact]
  rcases serving.within with behind | ahead
  · rw [Watcher.between, Watcher.between, window_append_above]
    exact fun stamped member => lt_of_le_of_lt behind (above stamped member)
  · rw [Watcher.between, Watcher.between, ahead, window_empty (le_refl _), window_empty (le_refl _)]

theorem Serving.advance
    (ordered : feed.Pairwise fun first second => first.1 ≤ second.1) {cursor : Int}
    (forward : watcher.lastRevision ≤ cursor)
    (within : cursor ≤ revision ∨ cursor = watcher.lastRevision) :
    Serving creation feed revision (received ++ watcher.between watcher.lastRevision cursor feed)
      (watcher.moved cursor) := by
  refine ⟨?_, serving.start.trans forward, ?_, ?_⟩
  · rw [serving.shape]
    rfl
  · rcases within with reached | stays
    · exact Or.inl reached
    · rw [Watcher.moved_lastRevision, stays]
      exact serving.within
  · rw [serving.exact, Watcher.moved_between, Watcher.moved_lastRevision, Watcher.between, Watcher.between,
      ← List.map_append, window_join ordered serving.start forward]
    rfl

theorem Serving.complete
    (caughtUp : Buffered feed [] watcher) : received = creation.expected feed := by
  rw [serving.expected, Creation.expected, Creation.expected, upTo, List.filter_filter]
  refine congrArg (List.map _) (List.filter_congr ?_)
  intro stamped member
  cases asked : creation.accepts stamped with
  | false => rfl
  | true =>
    rw [creation.accepts_eq, Bool.and_eq_true, decide_eq_true_eq] at asked
    have below : stamped.1 ≤ watcher.lastRevision := by
      by_contra above
      have wanted : watcher.wants stamped.2 = true := by
        rw [serving.shape]
        exact asked.2
      rcases caughtUp stamped member (not_le.mp above) wanted with ⟨_, impossible, _⟩
      cases impossible
    rw [decide_eq_true below]
    rfl

end

end

/-! ## Batches -/

section
variable {node : Node} {buffer : List WatchBatch} {watcher : Watcher} {batch : WatchBatch}

/-- A batch in hand is what the watcher wants up to the batch's revision. -/
theorem Buffered.selects_batch (logged : node.Logged) (unread : batch :: buffer <:+ node.published)
    (buffered : Buffered node.stamped (batch :: buffer) watcher)
    (new : watcher.lastRevision < batch.revision) :
    watcher.selects batch.stamped = watcher.between watcher.lastRevision batch.revision node.stamped := by
  rcases unread with ⟨earlier, split⟩
  have ordered := logged.ordered
  rw [← split, List.pairwise_append, List.pairwise_cons] at ordered
  rcases ordered with ⟨_, ⟨above, _⟩, below⟩
  have feed : node.stamped =
      earlier.flatMap WatchBatch.stamped ++ batch.stamped ++ buffer.flatMap WatchBatch.stamped := by
    rw [Node.stamped, ← split]
    simp
  have before : window Prod.fst (fun stamped => watcher.wants stamped.2) watcher.lastRevision batch.revision
      (earlier.flatMap WatchBatch.stamped) = [] := by
    apply window_eq_nil
    intro stamped member later _
    rcases List.mem_flatMap.mp member with ⟨past, isEarlier, inside⟩
    by_contra wanted
    have stored : stamped ∈ node.stamped := by
      rw [feed, List.append_assoc]
      exact List.mem_append_left _ member
    rcases buffered stamped stored later (by simpa using wanted) with ⟨waiting, isWaiting, same⟩
    have order := below past isEarlier waiting isWaiting
    rw [← (WatchBatch.mem_stamped.mp inside).1, ← (WatchBatch.mem_stamped.mp same).1] at order
    exact absurd order (lt_irrefl _)
  have after : window Prod.fst (fun stamped => watcher.wants stamped.2) watcher.lastRevision batch.revision
      (buffer.flatMap WatchBatch.stamped) = [] := by
    apply window_eq_nil
    intro stamped member _ notLater
    rcases List.mem_flatMap.mp member with ⟨next, isNext, inside⟩
    rw [(WatchBatch.mem_stamped.mp inside).1] at notLater
    exact absurd (above next isNext) (not_lt.mpr notLater)
  have inHand : window Prod.fst (fun stamped => watcher.wants stamped.2) watcher.lastRevision batch.revision
      batch.stamped = batch.stamped.filter fun stamped => watcher.wants stamped.2 := by
    apply List.filter_congr
    intro stamped member
    rw [(WatchBatch.mem_stamped.mp member).1, decide_eq_true new, decide_eq_true (le_refl _)]
    rfl
  rw [Watcher.between, feed, window_append, window_append, before, after, inHand, List.nil_append,
    List.append_nil]
  rfl

theorem Buffered.rest {feed : List (Int × Event)} (buffered : Buffered feed (batch :: buffer) watcher)
    {cursor : Int} (forward : watcher.lastRevision ≤ cursor) (past : batch.revision ≤ cursor) :
    Buffered feed buffer (watcher.moved cursor) := by
  intro stamped member later wanted
  rcases buffered stamped member (lt_of_le_of_lt forward later) wanted with ⟨waiting, isWaiting, inside⟩
  rcases List.mem_cons.mp isWaiting with rfl | inRest
  · rw [Watcher.moved_lastRevision, (WatchBatch.mem_stamped.mp inside).1] at later
    exact absurd later (not_lt.mpr past)
  · exact ⟨waiting, inRest, inside⟩

theorem Buffered.published {feed : List (Int × Event)} (buffered : Buffered feed buffer watcher)
    (later : List WatchBatch) :
    Buffered (feed ++ later.flatMap WatchBatch.stamped) (buffer ++ later) watcher := by
  intro stamped member above wanted
  rcases List.mem_append.mp member with old | new
  · rcases buffered stamped old above wanted with ⟨waiting, isWaiting, inside⟩
    exact ⟨waiting, List.mem_append_left _ isWaiting, inside⟩
  · rcases List.mem_flatMap.mp new with ⟨batch, isNew, inside⟩
    exact ⟨batch, List.mem_append_right _ isNew, inside⟩

theorem Buffered.current (logged : node.Logged) (reached : node.store.db.revision ≤ watcher.lastRevision) :
    Buffered node.stamped buffer watcher := by
  intro stamped member later _
  exact absurd later (not_lt.mpr ((logged.stamped_le stamped member).trans reached))

end

/-! ## Replays -/

/-- Every row a replay reads for a watcher that asked for previous values
replaced the first version of the revision it names. -/
def Watcher.ReplaysFaithfully (watcher : Watcher) (db : Db) : Prop :=
  db.compactRevision ≤ watcher.lastRevision -> watcher.prevKv = true -> forall row, row ∈ replayOrder db.kv watcher.lastRevision watcher.range ->
    watcher.wants (rowEvent db.kv row) = true -> ReplacesFirst db.kv row

instance (watcher : Watcher) (db : Db) : Decidable (watcher.ReplaysFaithfully db) :=
  inferInstanceAs (Decidable (db.compactRevision ≤ watcher.lastRevision -> watcher.prevKv = true ->
    forall row, row ∈ replayOrder db.kv watcher.lastRevision watcher.range ->
      watcher.wants (rowEvent db.kv row) = true -> ReplacesFirst db.kv row))

/-- A replay is what the watcher wants from its position to the current
revision, and reads as far as anything the watcher wants. -/
structure Replayed (watcher : Watcher) (node : Node) (history : List (Int × Event)) : Prop where
  selects : watcher.selects history =
    watcher.between watcher.lastRevision node.store.db.revision node.stamped
  bounded : forall stamped, stamped ∈ history -> stamped.1 ≤ node.store.db.revision
  complete : forall stamped, stamped ∈ node.stamped -> watcher.lastRevision < stamped.1 ->
    watcher.wants stamped.2 = true -> stamped.1 ≤ reached watcher.lastRevision history

section
variable {node : Node} {watcher : Watcher} {history : List (Int × Event)}

theorem eventsSince_error {db : Db} {since : Int} {range : KeyRange} {refusal : Error}
    (refused : db.eventsSince since range = .error refusal) :
    refusal = .compacted db.compactRevision ∧ since < db.compactRevision := by
  by_cases gone : since < db.compactRevision
  · rw [Db.eventsSince, if_pos gone] at refused
    exact ⟨(Except.error.inj refused).symm, gone⟩
  · rw [Db.eventsSince, if_neg gone] at refused
    cases refused

theorem eventsSince_ok {db : Db} {since : Int} {range : KeyRange}
    (read : db.eventsSince since range = .ok history) :
    db.compactRevision ≤ since ∧
      history = (replayOrder db.kv since range).map fun row => (row.revision, rowEvent db.kv row) := by
  by_cases gone : since < db.compactRevision
  · rw [Db.eventsSince, if_pos gone] at read
    cases read
  · have available := not_lt.mp gone
    rw [eventsSince_available available] at read
    exact ⟨available, (Except.ok.inj read).symm⟩

theorem Watcher.wants_rowEvent (watcher : Watcher) (kv : List KvRow) (row : KvRow) :
    watcher.wants (rowEvent kv row) = watcher.wants (trueEvent kv row) := by
  unfold rowEvent trueEvent
  cases row.deleted <;> rfl

theorem eventToPb_rowEvent (kv : List KvRow) (row : KvRow) :
    eventToPb (rowEvent kv row) false = eventToPb (trueEvent kv row) false := by
  unfold rowEvent trueEvent
  cases row.deleted <;> rfl

theorem Watcher.onWire_rowEvent (logged : node.Logged) {row : KvRow} (member : row ∈ node.store.db.kv)
    (shown : node.store.db.compactRevision < row.revision)
    (first : watcher.prevKv = true -> ReplacesFirst node.store.db.kv row) :
    watcher.onWire (row.revision, rowEvent node.store.db.kv row) =
      watcher.onWire (row.revision, trueEvent node.store.db.kv row) := by
  cases asked : watcher.prevKv with
  | true =>
    have linked := logged.wellFormed.linked row member shown
    rw [(rowEvent_eq_trueEvent_iff logged.wellFormed.positive linked).mpr (first asked)]
  | false => simp only [Watcher.onWire, asked, eventToPb_rowEvent]

theorem replayed (logged : node.Logged)
    (read : node.store.db.eventsSince watcher.lastRevision watcher.range = .ok history)
    (faithful : watcher.ReplaysFaithfully node.store.db) : Replayed watcher node history := by
  rcases eventsSince_ok read with ⟨available, rfl⟩
  rcases logged.publishes with ⟨sorted, publishes⟩
  have rows := publishedSince_eq sorted publishes available watcher.range
  have wanted : window Prod.fst (fun stamped => watcher.wants stamped.2) watcher.lastRevision
      node.store.db.revision node.stamped =
      (publishedSince node.stamped watcher.lastRevision watcher.range).filter
        fun stamped => watcher.wants stamped.2 := by
    rw [window_eq_filter logged.stamped_le, publishedSince, List.filter_filter]
    apply List.filter_congr
    intro stamped _
    cases wants : watcher.wants stamped.2 with
    | false => simp
    | true => simp [Watcher.contains_of_wants wants]
  refine ⟨?_, ?_, ?_⟩
  · rw [Watcher.between, wanted, rows, Watcher.selects, List.filter_map, List.filter_map, List.map_map,
      List.map_map]
    have keeps : (replayOrder node.store.db.kv watcher.lastRevision watcher.range).filter
        ((fun stamped : Int × Event => watcher.wants stamped.2) ∘
          fun row => (row.revision, rowEvent node.store.db.kv row)) =
        (replayOrder node.store.db.kv watcher.lastRevision watcher.range).filter
          ((fun stamped : Int × Event => watcher.wants stamped.2) ∘
            fun row => (row.revision, trueEvent node.store.db.kv row)) :=
      List.filter_congr fun row _ => watcher.wants_rowEvent node.store.db.kv row
    rw [← keeps]
    apply List.map_congr_left
    intro row kept
    rcases List.mem_filter.mp kept with ⟨isRead, wants⟩
    rcases mem_replayOrder.mp isRead with ⟨member, _, later⟩
    exact Watcher.onWire_rowEvent logged member (lt_of_le_of_lt available later) fun asked =>
      faithful available asked row isRead wants
  · intro stamped member
    rcases List.mem_map.mp member with ⟨row, isRead, rfl⟩
    exact logged.wellFormed.below row (mem_replayOrder.mp isRead).1
  · intro stamped member later wants
    have since : stamped ∈ publishedSince node.stamped watcher.lastRevision watcher.range := by
      refine List.mem_filter.mpr ⟨member, ?_⟩
      rw [Watcher.contains_of_wants wants, decide_eq_true later]
      rfl
    rw [rows] at since
    rcases List.mem_map.mp since with ⟨row, isRead, same⟩
    rw [← same]
    exact (le_reached watcher.lastRevision _).2 (row.revision, rowEvent node.store.db.kv row)
      (List.mem_map.mpr ⟨row, isRead, rfl⟩)

variable {creation : Creation} {received : List (Int × PbEvent)}

theorem Serving.replay (logged : node.Logged)
    (serving : Serving creation node.stamped node.store.db.revision received watcher)
    (whole : Replayed watcher node history) :
    Serving creation node.stamped node.store.db.revision (received ++ watcher.selects history)
      (watcher.moved (reached watcher.lastRevision history)) ∧
    forall buffer, Buffered node.stamped buffer (watcher.moved (reached watcher.lastRevision history)) := by
  have forward := (le_reached watcher.lastRevision history).1
  constructor
  · by_cases ahead : node.store.db.revision ≤ watcher.lastRevision
    · -- From a start in the future there is nothing to read.
      have stays : reached watcher.lastRevision history = watcher.lastRevision :=
        le_antisymm (reached_le (le_refl _) fun stamped member => (whole.bounded stamped member).trans ahead)
          forward
      have nothing : watcher.selects history =
          watcher.between watcher.lastRevision watcher.lastRevision node.stamped := by
        rw [whole.selects, Watcher.between, Watcher.between, window_empty ahead, window_empty (le_refl _)]
      rw [stays, nothing]
      exact serving.advance logged.stamped_ordered (le_refl _) (Or.inr rfl)
    · have within := reached_le (not_le.mp ahead).le whole.bounded
      have same : watcher.selects history =
          watcher.between watcher.lastRevision (reached watcher.lastRevision history) node.stamped := by
        rw [whole.selects, Watcher.between, Watcher.between,
          window_extend logged.stamped_ordered forward within]
        intro stamped member later _
        by_contra wanted
        have wants : watcher.wants stamped.2 = true := by simpa using wanted
        exact absurd (whole.complete stamped member (lt_of_le_of_lt forward later) wants) (not_le.mpr later)
      rw [same]
      exact serving.advance logged.stamped_ordered forward (Or.inl within)
  · intro buffer stamped member later wanted
    have behind := whole.complete stamped member (lt_of_le_of_lt forward later) wanted
    exact absurd later (not_lt.mpr behind)

theorem Serving.resync (logged : node.Logged)
    (serving : Serving creation node.stamped node.store.db.revision received watcher)
    (whole : Replayed watcher node history) :
    Serving creation node.stamped node.store.db.revision (received ++ watcher.selects history)
      (watcher.moved (max (reached watcher.lastRevision history) node.store.db.revision)) := by
  have forward := (le_reached watcher.lastRevision history).1
  by_cases ahead : node.store.db.revision ≤ watcher.lastRevision
  · have stays : max (reached watcher.lastRevision history) node.store.db.revision = watcher.lastRevision := by
      apply le_antisymm
      · exact max_le (reached_le (le_refl _) fun stamped member => (whole.bounded stamped member).trans ahead) ahead
      · exact forward.trans (le_max_left _ _)
    have nothing : watcher.selects history =
        watcher.between watcher.lastRevision watcher.lastRevision node.stamped := by
      rw [whole.selects, Watcher.between, Watcher.between, window_empty ahead, window_empty (le_refl _)]
    rw [stays, nothing]
    exact serving.advance logged.stamped_ordered (le_refl _) (Or.inr rfl)
  · have behind := (not_le.mp ahead).le
    have current : max (reached watcher.lastRevision history) node.store.db.revision = node.store.db.revision :=
      max_eq_right (reached_le behind whole.bounded)
    rw [current, whole.selects]
    exact serving.advance logged.stamped_ordered behind (Or.inl (le_refl _))

end

end NotK8s.Watch

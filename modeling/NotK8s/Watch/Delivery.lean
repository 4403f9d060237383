import NotK8s.Watch.Serving

namespace NotK8s.Watch

open Library Nodestore

/-!
# Watch delivery

Over any interleaving of commands, requests, lags and compactions, every
watcher the client did not cancel has been sent the events its creation asks
for, up to some revision, and what it lacks is still to come; or it was
cancelled as compacted.  Two kinds of step break this.  An insertion under
the id of a live watcher silences that watcher, because the map holds one
entry for an id.  A replay that resolves a previous value wrongly sends a
different event.  Without them an invariant ties the position of each
watcher to the published events and to the unread batches.
-/

/-- The events of a delivery, with their revisions. -/
def Delivery.stamped (delivery : Delivery) : List (Int × PbEvent) :=
  match delivery.item with
  | .ok response => response.stamped
  | .error _ => []

def Delivery.cancels (delivery : Delivery) : Bool :=
  match delivery.item with
  | .ok response => response.canceled
  | .error _ => false

/-- The events sent about a creation. -/
def said (number : Nat) (sent : List Delivery) : List (Int × PbEvent) :=
  (sent.filter fun delivery => delivery.number = some number).flatMap Delivery.stamped

/-- The client was told that the watcher of a creation is gone. -/
def Cancelled (number : Nat) (sent : List Delivery) : Prop :=
  Exists fun delivery : Delivery => delivery ∈ sent ∧ delivery.number = some number ∧ delivery.cancels = true

/-- It was told with the compaction reason, and the store is compacted past
the position. -/
def CompactedAway (node : Node) (sent : List Delivery) (number : Nat) (cursor : Int) : Prop :=
  Exists fun response : WatchResponse =>
    { number := some number, item := .ok response } ∈ sent ∧ response.canceled = true ∧
      response.cancelReason = "etcdserver: mvcc: required revision has been compacted" ∧
      cursor < response.compactRevision ∧ response.compactRevision ≤ node.store.db.compactRevision

namespace Stream

/-- The task waits and no lag is unreported. -/
def Settled (s : Stream) : Prop :=
  s.task = .idle ∧ s.missed = 0

/-- The watcher of a creation goes on from a position: nothing was
cancelled, and once the stream has settled every event still asked for is
in an unread batch. -/
def Continues (s : Stream) (number : Nat) (creation : Creation) (cursor : Int) : Prop :=
  ¬Cancelled number s.sent ∧
    (s.Settled -> forall stamped, stamped ∈ s.node.stamped -> creation.accepts stamped = true ->
      cursor < stamped.1 -> Exists fun batch : WatchBatch => batch ∈ s.buffer ∧ stamped ∈ batch.stamped)

/-- A creation is served up to a position, and from there the watcher goes
on or was cancelled as compacted. -/
def Serves (s : Stream) (number : Nat) (creation : Creation) : Prop :=
  Exists fun cursor : Int =>
    said number s.sent = creation.expected (upTo cursor s.node.stamped) ∧
      (CompactedAway s.node s.sent number cursor ∨ s.Continues number creation cursor)

/-- Delivery is gapless, ordered and without duplicates. -/
structure Gapless (s : Stream) : Prop where
  /-- Batches are published in revision order. -/
  ordered : s.node.published.Pairwise fun first second => first.revision < second.revision
  serves : forall number creation, s.creations[number]? = some creation -> number ∉ s.withdrawn ->
    s.Serves number creation
  /-- A watcher of a drained stream has everything its creation asks for. -/
  complete : s.Settled -> s.buffer = [] -> forall number creation, s.creations[number]? = some creation ->
    number ∉ s.withdrawn -> ¬Cancelled number s.sent ->
      said number s.sent = creation.expected s.node.stamped

/-- The steps that keep delivery gapless: an insertion is under an id no live
watcher has, and a replay resolves previous values right. -/
def Regular (s : Stream) : Label -> Prop
  | .proceed next =>
    match s.task with
    | .idle => True
    | .creating live creation =>
      creation.request.startRevision ≤ 0 ∨ s.node.store.db.compactRevision ≤ live.watcher.lastRevision ->
        s.get live.watcher.id = none ∧
          (0 < creation.request.startRevision -> live.watcher.ReplaysFaithfully s.node.store.db)
    | .resyncing pending _ =>
      next ∈ pending -> forall live, live ∈ s.get next -> live.watcher.ReplaysFaithfully s.node.store.db
  | _ => True

instance (s : Stream) (label : Label) : Decidable (s.Regular label) :=
  match label with
  | .apply _ _ => isTrue True.intro
  | .overwrite => isTrue True.intro
  | .request _ => isTrue True.intro
  | .receive => isTrue True.intro
  | .proceed next => by
    unfold Regular
    cases s.task <;> infer_instance

end Stream

/-! ## What is sent about a creation -/

section
variable {number : Nat} {sent later : List Delivery}

theorem said_append : said number (sent ++ later) = said number sent ++ said number later := by
  simp [said]

theorem said_of_others (others : forall delivery, delivery ∈ later -> delivery.number ≠ some number) :
    said number later = [] := by
  have none : later.filter (fun delivery => delivery.number = some number) = [] :=
    List.filter_eq_nil_iff.mpr fun delivery member => by simpa using others delivery member
  rw [said, none, List.flatMap_nil]

theorem said_responses (number : Nat) (responses : List WatchResponse) :
    said number (responses.map fun response => { number := some number, item := .ok response }) =
      responses.flatMap WatchResponse.stamped := by
  simp [said, List.filter_map, Function.comp_def, List.flatMap_map, Delivery.stamped]

theorem cancelled_append :
    Cancelled number (sent ++ later) <-> Cancelled number sent ∨ Cancelled number later := by
  simp only [Cancelled, List.mem_append, or_and_right, exists_or]

theorem not_cancelled_of_others (others : forall delivery, delivery ∈ later -> delivery.number ≠ some number) :
    ¬Cancelled number later := by
  rintro ⟨delivery, member, about, _⟩
  exact others delivery member about

theorem not_cancelled_responses {responses : List WatchResponse}
    (plain : forall response, response ∈ responses -> response.canceled = false) (other : Nat) :
    ¬Cancelled number (responses.map fun response => { number := some other, item := .ok response }) := by
  rintro ⟨delivery, member, _, cancels⟩
  rcases List.mem_map.mp member with ⟨response, isSent, rfl⟩
  change response.canceled = true at cancels
  rw [plain response isSent] at cancels
  cases cancels

end

/-! ## The invariant -/

/-- A live watcher serves its creation. -/
structure Attached (creations : List Creation) (node : Node) (sent : List Delivery) (live : Live) : Prop where
  serving : Exists fun creation : Creation => creations[live.number]? = some creation ∧
    Serving creation node.stamped node.store.db.revision (said live.number sent) live.watcher
  uncancelled : ¬Cancelled live.number sent

/-- A creation whose watcher was cancelled as compacted. -/
def Finished (creations : List Creation) (node : Node) (sent : List Delivery) (number : Nat) : Prop :=
  Exists fun creation : Creation => Exists fun cursor : Int => creations[number]? = some creation ∧
    said number sent = creation.expected (upTo cursor node.stamped) ∧ CompactedAway node sent number cursor

/-- The resync in progress has yet to read the store for this id. -/
def Task.Awaits (task : Task) (id : Int) : Prop :=
  match task with
  | .resyncing pending _ => id ∈ pending
  | _ => False

structure Stream.Inv (s : Stream) : Prop where
  logged : s.node.Logged
  unread : s.buffer <:+ s.node.published
  ids : (s.watchers.map fun live => live.watcher.id).Nodup
  numbers : (s.watchers.map Live.number).Nodup
  numbered : forall delivery, delivery ∈ s.sent -> forall number, delivery.number = some number ->
    number < s.creations.length
  attached : forall live, live ∈ s.watchers -> Attached s.creations s.node s.sent live
  buffered : forall live, live ∈ s.watchers -> s.missed = 0 -> ¬s.task.Awaits live.watcher.id ->
    Buffered s.node.stamped s.buffer live.watcher
  creating : forall live creation, s.task = .creating live creation ->
    s.creations[live.number]? = some creation ∧ live.watcher = creation.watcher ∧
      (forall other, other ∈ s.watchers -> other.number ≠ live.number) ∧
      Attached s.creations s.node s.sent live ∧
      (creation.request.startRevision ≤ 0 -> s.missed = 0 -> Buffered s.node.stamped s.buffer live.watcher)
  accounted : forall number, number < s.creations.length -> number ∈ s.withdrawn ∨
    Finished s.creations s.node s.sent number ∨
    (Exists fun live : Live => live ∈ s.watchers ∧ live.number = number) ∨
    (Exists fun live : Live => Exists fun creation : Creation =>
      s.task = .creating live creation ∧ live.number = number)

theorem Stream.opened_inv {node : Node} (logged : node.Logged) : (Stream.opened node).Inv where
  logged := logged
  unread := List.nil_suffix
  ids := List.nodup_nil
  numbers := List.nodup_nil
  numbered := fun _ no => nomatch no
  attached := fun _ no => nomatch no
  buffered := fun _ no => nomatch no
  creating := fun _ _ no => nomatch no
  accounted := fun _ no => nomatch no

/-! ## Frames -/

section
variable {creations creations' : List Creation} {node : Node} {sent later : List Delivery}

theorem creation_kept {number : Nat} {creation : Creation} (kept : creations <+: creations')
    (found : creations[number]? = some creation) : creations'[number]? = some creation := by
  rcases kept with ⟨added, rfl⟩
  rw [List.getElem?_append_left (List.getElem?_eq_some_iff.mp found).1]
  exact found

/-- Nothing was sent about the creation, and no creation was forgotten. -/
theorem Attached.frame {live : Live} (attached : Attached creations node sent live)
    (kept : creations <+: creations')
    (others : forall delivery, delivery ∈ later -> delivery.number ≠ some live.number) :
    Attached creations' node (sent ++ later) live := by
  rcases attached.serving with ⟨creation, found, serving⟩
  refine ⟨⟨creation, creation_kept kept found, ?_⟩, ?_⟩
  · rw [said_append, said_of_others others, List.append_nil]
    exact serving
  · rw [cancelled_append]
    exact not_or.mpr ⟨attached.uncancelled, not_cancelled_of_others others⟩

theorem CompactedAway.append {number : Nat} {cursor : Int} (gone : CompactedAway node sent number cursor)
    (later : List Delivery) : CompactedAway node (sent ++ later) number cursor := by
  rcases gone with ⟨response, member, facts⟩
  exact ⟨response, List.mem_append_left _ member, facts⟩

theorem Finished.frame {number : Nat} (finished : Finished creations node sent number)
    (kept : creations <+: creations')
    (others : forall delivery, delivery ∈ later -> delivery.number ≠ some number) :
    Finished creations' node (sent ++ later) number := by
  rcases finished with ⟨creation, cursor, found, exact, gone⟩
  refine ⟨creation, cursor, creation_kept kept found, ?_, gone.append later⟩
  rw [said_append, said_of_others others, List.append_nil]
  exact exact

theorem Finished.cancelled {number : Nat} (finished : Finished creations node sent number) :
    Cancelled number sent := by
  rcases finished with ⟨_, _, _, _, response, member, canceled, _⟩
  exact ⟨_, member, rfl, canceled⟩

theorem Attached.told {live : Live} {watcher : Watcher} {responses : List WatchResponse}
    (attached : Attached creations node sent live)
    (plain : forall response, response ∈ responses -> response.canceled = false)
    (moves : forall creation received,
      Serving creation node.stamped node.store.db.revision received live.watcher ->
        Serving creation node.stamped node.store.db.revision
          (received ++ responses.flatMap WatchResponse.stamped) watcher) :
    Attached creations node
      (sent ++ responses.map fun response => { number := some live.number, item := .ok response })
      { live with watcher := watcher } := by
  rcases attached.serving with ⟨creation, found, serving⟩
  refine ⟨⟨creation, found, ?_⟩, ?_⟩
  · rw [said_append, said_responses]
    exact moves creation _ serving
  · rw [cancelled_append]
    exact not_or.mpr ⟨attached.uncancelled, not_cancelled_responses plain live.number⟩

theorem Attached.finished {live : Live} (attached : Attached creations node sent live)
    (gone : live.watcher.lastRevision < node.store.db.compactRevision) (header id : Int) :
    Finished creations node
      (sent ++ [{ number := some live.number
                  item := .ok (Stream.compactedResponse header id node.store.db.compactRevision) }])
      live.number := by
  rcases attached.serving with ⟨creation, found, serving⟩
  refine ⟨creation, live.watcher.lastRevision, found, ?_, ?_⟩
  · have silent : said live.number [{ number := some live.number
                                      item := .ok (Stream.compactedResponse header id
                                        node.store.db.compactRevision) }] = [] := by
      simp [said, Delivery.stamped, WatchResponse.stamped, Stream.compactedResponse]
    rw [said_append, silent, List.append_nil]
    exact serving.expected
  · exact ⟨_, List.mem_append_right _ (.head _), rfl, rfl, gone, le_refl _⟩

end

end NotK8s.Watch

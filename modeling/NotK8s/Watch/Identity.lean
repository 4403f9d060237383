import NotK8s.Watch.DeliveryRuns

namespace NotK8s.Watch

open Library Nodestore

/-!
# Watch ids

The map of a stream holds one watcher for an id, and an insertion replaces
what stands there.  Ids come from the client or, when it leaves the choice,
from a counter that is not compared with what the client chose.  A watcher
whose id is inserted again is gone without a word: the client was never told
that it was cancelled.  Apart from such insertions every creation ends in a
live watcher or a cancellation, and whatever is sent about it carries its id
and events of its range.
-/

/-- The delivery carries the id of the creation it is about, and events of
its range only. -/
def Attributed (creations : List Creation) (delivery : Delivery) : Prop :=
  forall number response, delivery.number = some number -> delivery.item = .ok response ->
    Exists fun creation => creations[number]? = some creation ∧ response.watchId = creation.watchId ∧
      forall event, event ∈ response.events -> Exists fun kv : KeyValue =>
        event.kv = some kv ∧ creation.watcher.range.contains kv.key = true

namespace Stream

/-- Each id stands for one watcher. -/
structure IdsIdentify (s : Stream) : Prop where
  distinct : (s.watchers.map fun live => live.watcher.id).Nodup
  /-- No creation is lost: its watcher is live, or about to be, unless the
  client was told that it was cancelled. -/
  kept : forall number, number < s.creations.length -> Cancelled number s.sent ∨
    (Exists fun live => live ∈ s.watchers ∧ live.number = number) ∨
    (Exists fun live => Exists fun creation => s.task = .creating live creation ∧ live.number = number)
  attributed : forall delivery, delivery ∈ s.sent -> Attributed s.creations delivery

/-- A watcher is inserted under an id no live watcher has. -/
def InsertsFresh (s : Stream) : Label -> Prop
  | .proceed _ =>
    match s.task with
    | .creating live creation =>
      creation.request.startRevision ≤ 0 ∨ s.node.store.db.compactRevision ≤ live.watcher.lastRevision ->
        s.get live.watcher.id = none
    | .idle | .resyncing _ _ => True
  | .apply _ _ | .overwrite | .request _ | .receive => True

instance (s : Stream) (label : Label) : Decidable (s.InsertsFresh label) :=
  match label with
  | .apply _ _ | .overwrite | .request _ | .receive => isTrue True.intro
  | .proceed next => by
    unfold InsertsFresh
    exact match s.task with
      | .idle | .resyncing _ _ => isTrue True.intro
      | .creating _ _ => inferInstance

end Stream

/-! ## The invariant -/

/-- A watcher with the id and the range of its creation. -/
def Live.Owns (creations : List Creation) (live : Live) : Prop :=
  Exists fun creation => creations[live.number]? = some creation ∧ live.watcher.id = creation.watchId ∧
    live.watcher.range = creation.watcher.range

structure Identified (creations : List Creation) (watchers : List Live) (task : Task) (sent : List Delivery) :
    Prop where
  ids : (watchers.map fun live => live.watcher.id).Nodup
  numbers : (watchers.map Live.number).Nodup
  owns : forall live, live ∈ watchers -> live.Owns creations
  uncancelled : forall live, live ∈ watchers -> ¬Cancelled live.number sent
  creating : forall live creation, task = .creating live creation ->
    live.Owns creations ∧ ¬Cancelled live.number sent ∧ live.watcher.id = creation.watchId ∧
      forall other, other ∈ watchers -> other.number ≠ live.number
  numbered : forall delivery, delivery ∈ sent -> forall number, delivery.number = some number ->
    number < creations.length
  attributed : forall delivery, delivery ∈ sent -> Attributed creations delivery
  kept : forall number, number < creations.length -> Cancelled number sent ∨
    (Exists fun live => live ∈ watchers ∧ live.number = number) ∨
    (Exists fun live => Exists fun creation => task = .creating live creation ∧ live.number = number)

section
variable {creations : List Creation} {watchers : List Live} {task : Task} {sent later : List Delivery}

theorem Live.Owns.number_lt {live : Live} (owns : live.Owns creations) : live.number < creations.length := by
  rcases owns with ⟨creation, found, _⟩
  exact (List.getElem?_eq_some_iff.mp found).1

theorem Live.Owns.attributed {live : Live} (owns : live.Owns creations) {response : WatchResponse}
    (isFor : response.IsFor live.watcher) :
    Attributed creations { number := some live.number, item := .ok response } := by
  rcases owns with ⟨creation, found, id, range⟩
  intro number other about item
  cases about
  cases item
  refine ⟨creation, found, isFor.watchId.trans id, ?_⟩
  rw [← range]
  exact isFor.inRange

theorem Live.Owns.attributed_empty {live : Live} (owns : live.Owns creations) {response : WatchResponse}
    (id : response.watchId = live.watcher.id) (silent : response.events = []) :
    Attributed creations { number := some live.number, item := .ok response } := by
  rcases owns with ⟨creation, found, same, _⟩
  intro number other about item
  cases about
  cases item
  refine ⟨creation, found, id.trans same, ?_⟩
  rw [silent]
  exact fun _ no => nomatch no

theorem attributed_none (item : Except Error WatchResponse) :
    Attributed creations { number := none, item := item } := by
  intro number response about
  cases about

/-- Deliveries that cancel nothing and are attributed. -/
structure Harmless (creations : List Creation) (later : List Delivery) : Prop where
  silent : forall delivery, delivery ∈ later -> delivery.cancels = false
  numbered : forall delivery, delivery ∈ later -> forall number, delivery.number = some number ->
    number < creations.length
  attributed : forall delivery, delivery ∈ later -> Attributed creations delivery

theorem Harmless.cancelled_iff (harmless : Harmless creations later) (number : Nat) :
    Cancelled number (sent ++ later) <-> Cancelled number sent := by
  rw [cancelled_append, or_iff_left]
  rintro ⟨delivery, member, _, cancels⟩
  rw [harmless.silent delivery member] at cancels
  cases cancels

theorem Live.Owns.harmless {live : Live} (owns : live.Owns creations) {responses : List WatchResponse}
    (forIt : forall response, response ∈ responses -> response.IsFor live.watcher) :
    Harmless creations (responses.map fun response => { number := some live.number, item := .ok response }) := by
  refine ⟨?_, ?_, ?_⟩
  · intro delivery member
    rcases List.mem_map.mp member with ⟨response, isSent, rfl⟩
    exact (forIt response isSent).canceled
  · intro delivery member number about
    rcases List.mem_map.mp member with ⟨response, isSent, rfl⟩
    cases about
    exact owns.number_lt
  · intro delivery member
    rcases List.mem_map.mp member with ⟨response, isSent, rfl⟩
    exact owns.attributed (forIt response isSent)

section

variable (identified : Identified creations watchers task sent)
include identified

theorem Identified.tell (harmless : Harmless creations later) :
    Identified creations watchers task (sent ++ later) where
  __ := identified
  uncancelled := by
    intro live member
    rw [harmless.cancelled_iff]
    exact identified.uncancelled live member
  creating := by
    intro live creation busy
    rw [harmless.cancelled_iff]
    exact identified.creating live creation busy
  numbered := by
    intro delivery member
    rcases List.mem_append.mp member with earlier | new
    · exact identified.numbered delivery earlier
    · exact harmless.numbered delivery new
  attributed := by
    intro delivery member
    rcases List.mem_append.mp member with earlier | new
    · exact identified.attributed delivery earlier
    · exact harmless.attributed delivery new
  kept := by
    intro number below
    rw [harmless.cancelled_iff]
    exact identified.kept number below

theorem Identified.moved {move : Live -> Live}
    (number : forall live, (move live).number = live.number)
    (id : forall live, (move live).watcher.id = live.watcher.id)
    (range : forall live, (move live).watcher.range = live.watcher.range) :
    Identified creations (watchers.map move) task sent := by
  have ids : (watchers.map move).map (fun live => live.watcher.id) = watchers.map fun live => live.watcher.id := by
    rw [List.map_map]
    exact List.map_congr_left fun live _ => id live
  have numbers : (watchers.map move).map Live.number = watchers.map Live.number := by
    rw [List.map_map]
    exact List.map_congr_left fun live _ => number live
  refine ⟨?_, ?_, ?_, ?_, ?_, identified.numbered, identified.attributed, ?_⟩
  · rw [ids]
    exact identified.ids
  · rw [numbers]
    exact identified.numbers
  · intro live member
    rcases List.mem_map.mp member with ⟨original, isLive, rfl⟩
    rcases identified.owns original isLive with ⟨creation, found, sameId, sameRange⟩
    refine ⟨creation, ?_, (id original).trans sameId, (range original).trans sameRange⟩
    rw [number]
    exact found
  · intro live member
    rcases List.mem_map.mp member with ⟨original, isLive, rfl⟩
    rw [number]
    exact identified.uncancelled original isLive
  · intro live creation busy
    rcases identified.creating live creation busy with ⟨owns, uncancelled, same, others⟩
    refine ⟨owns, uncancelled, same, ?_⟩
    intro other member
    rcases List.mem_map.mp member with ⟨original, isLive, rfl⟩
    rw [number]
    exact others original isLive
  · intro other below
    rcases identified.kept other below with cancelled | ⟨live, member, rfl⟩ | creating
    · exact Or.inl cancelled
    · exact Or.inr (Or.inl ⟨move live, List.mem_map_of_mem member, number live⟩)
    · exact Or.inr (Or.inr creating)

theorem Identified.retask
    (free : forall live creation, task ≠ .creating live creation) {next : Task}
    (nextFree : forall live creation, next ≠ .creating live creation) :
    Identified creations watchers next sent where
  __ := identified
  creating := fun live creation busy => absurd busy (nextFree live creation)
  kept := by
    intro number below
    rcases identified.kept number below with cancelled | isLive | ⟨live, creation, busy, _⟩
    · exact Or.inl cancelled
    · exact Or.inr (Or.inl isLive)
    · exact absurd busy (free live creation)

end

theorem Live.Owns.grown {live : Live} (owns : live.Owns creations) (creation : Creation) :
    live.Owns (creations ++ [creation]) := by
  rcases owns with ⟨own, found, same⟩
  exact ⟨own, creation_kept (List.prefix_append _ _) found, same⟩

theorem Attributed.grown {delivery : Delivery} (attributed : Attributed creations delivery) (creation : Creation) :
    Attributed (creations ++ [creation]) delivery := by
  intro number response about item
  rcases attributed number response about item with ⟨own, found, same⟩
  exact ⟨own, creation_kept (List.prefix_append _ _) found, same⟩

section

variable (identified : Identified creations watchers task sent)
include identified

theorem Identified.begin
    (free : forall live creation, task ≠ .creating live creation) (creation : Creation) (header : Int) :
    Identified (creations ++ [creation]) watchers
      (.creating { number := creations.length, watcher := creation.watcher } creation)
      (sent ++ [{ number := some creations.length
                  item := .ok { header := header, watchId := creation.watchId, created := true } }]) := by
  have owns : Live.Owns (creations ++ [creation]) { number := creations.length, watcher := creation.watcher } := by
    refine ⟨creation, ?_, rfl, rfl⟩
    rw [List.getElem?_append_right (le_refl _), Nat.sub_self]
    rfl
  have grown : (creations ++ [creation]).length = creations.length + 1 := List.length_append
  have unheard : ¬Cancelled creations.length sent := by
    rintro ⟨delivery, member, about, _⟩
    exact absurd (identified.numbered delivery member _ about) (lt_irrefl _)
  have opened : Identified (creations ++ [creation]) watchers
      (.creating { number := creations.length, watcher := creation.watcher } creation) sent := by
    refine ⟨identified.ids, identified.numbers, ?_, identified.uncancelled, ?_, ?_, ?_, ?_⟩
    · exact fun live member => (identified.owns live member).grown creation
    · intro live other busy
      cases busy
      exact ⟨owns, unheard, rfl, fun other member => Nat.ne_of_lt (identified.owns other member).number_lt⟩
    · intro delivery member number about
      rw [grown]
      exact Nat.lt_succ_of_lt (identified.numbered delivery member number about)
    · exact fun delivery member => (identified.attributed delivery member).grown creation
    · intro number below
      by_cases newcomer : number = creations.length
      · exact Or.inr (Or.inr ⟨_, _, rfl, newcomer.symm⟩)
      · have earlier : number < creations.length := by omega
        rcases identified.kept number earlier with cancelled | isLive | ⟨live, other, busy, _⟩
        · exact Or.inl cancelled
        · exact Or.inr (Or.inl isLive)
        · exact absurd busy (free live other)
  refine opened.tell ⟨?_, ?_, ?_⟩
  · intro delivery member
    rw [List.mem_singleton.mp member]
    rfl
  · intro delivery member number about
    rw [List.mem_singleton.mp member] at about
    cases about
    exact owns.number_lt
  · intro delivery member
    rw [List.mem_singleton.mp member]
    exact owns.attributed_empty rfl rfl

theorem Identified.insert {live : Live}
    (owns : live.Owns creations) (uncancelled : ¬Cancelled live.number sent)
    (own : forall other, other ∈ watchers ->
      (other.watcher.id = live.watcher.id <-> other.number = live.number))
    (busy : forall other creation, task = .creating other creation -> other.number = live.number)
    {next : Task} (nextFree : forall other creation, next ≠ .creating other creation) :
    Identified creations (inserted watchers live) next sent := by
  have parts := inserted_nodup identified.ids identified.numbers fun other member same => (own other member).mpr same
  refine ⟨parts.1, parts.2, ?_, ?_, ?_, identified.numbered, identified.attributed, ?_⟩
  · intro other member
    rcases mem_inserted.mp member with ⟨isLive, _⟩ | rfl
    · exact identified.owns other isLive
    · exact owns
  · intro other member
    rcases mem_inserted.mp member with ⟨isLive, _⟩ | rfl
    · exact identified.uncancelled other isLive
    · exact uncancelled
  · exact fun other creation same => absurd same (nextFree other creation)
  · intro number below
    rcases identified.kept number below with cancelled | ⟨other, isLive, rfl⟩ | ⟨other, creation, creating, rfl⟩
    · exact Or.inl cancelled
    · by_cases same : other.number = live.number
      · exact Or.inr (Or.inl ⟨live, mem_inserted.mpr (Or.inr rfl), same.symm⟩)
      · refine Or.inr (Or.inl ⟨other, mem_inserted.mpr (Or.inl ⟨isLive, ?_⟩), rfl⟩)
        exact fun sameId => same ((own other isLive).mp sameId)
    · exact Or.inr (Or.inl ⟨live, mem_inserted.mpr (Or.inr rfl), (busy other creation creating).symm⟩)

/-- The creation in progress is cancelled instead of inserted, or an entry
is removed: in either case the client is told. -/
theorem Identified.cancel {about : Option Nat}
    {response : WatchResponse} {remaining : List Live} (sublist : remaining.Sublist watchers)
    (others : forall live, live ∈ remaining -> about ≠ some live.number)
    (removed : forall live, live ∈ watchers -> live ∉ remaining -> about = some live.number)
    (busy : forall live creation, task = .creating live creation -> about = some live.number)
    (canceled : response.canceled = true)
    (numbered : forall number, about = some number -> number < creations.length)
    (attributed : Attributed creations { number := about, item := .ok response })
    {next : Task} (nextFree : forall live creation, next ≠ .creating live creation) :
    Identified creations remaining next (sent ++ [{ number := about, item := .ok response }]) := by
  have told : forall number, about = some number ->
      Cancelled number (sent ++ [{ number := about, item := .ok response }]) := by
    intro number same
    exact ⟨_, List.mem_append_right _ (.head _), same, canceled⟩
  refine ⟨identified.ids.sublist (sublist.map _), identified.numbers.sublist (sublist.map _), ?_, ?_, ?_, ?_, ?_, ?_⟩
  · exact fun live member => identified.owns live (sublist.subset member)
  · intro live member
    rw [cancelled_append]
    exact not_or.mpr ⟨identified.uncancelled live (sublist.subset member),
      not_cancelled_of_others (others_single (others live member))⟩
  · exact fun live creation same => absurd same (nextFree live creation)
  · intro delivery member number same
    rcases List.mem_append.mp member with earlier | last
    · exact identified.numbered delivery earlier number same
    · rw [List.mem_singleton.mp last] at same
      exact numbered number same
  · intro delivery member
    rcases List.mem_append.mp member with earlier | last
    · exact identified.attributed delivery earlier
    · rw [List.mem_singleton.mp last]
      exact attributed
  · intro number below
    rcases identified.kept number below with cancelled | ⟨live, isLive, rfl⟩ | ⟨live, creation, creating, rfl⟩
    · exact Or.inl (cancelled_append.mpr (Or.inl cancelled))
    · by_cases stays : live ∈ remaining
      · exact Or.inr (Or.inl ⟨live, stays, rfl⟩)
      · exact Or.inl (told live.number (removed live isLive stays))
    · exact Or.inl (told live.number (busy live creation creating))

end

end

/-! ## Steps -/

abbrev Stream.Named (s : Stream) : Prop :=
  Identified s.creations s.watchers s.task s.sent

section
variable {s : Stream}

theorem Stream.opened_named (node : Node) : (Stream.opened node).Named where
  ids := List.nodup_nil
  numbers := List.nodup_nil
  owns := fun _ no => nomatch no
  uncancelled := fun _ no => nomatch no
  creating := fun _ _ no => nomatch no
  numbered := fun _ no => nomatch no
  attributed := fun _ no => nomatch no
  kept := fun _ no => nomatch no

section

variable (named : s.Named)
include named

theorem Stream.Named.beginCreate (idle : s.task = .idle) (request : WatchCreateRequest) :
    (s.beginCreate request).Named := by
  have free : forall live creation, s.task ≠ .creating live creation := by simp [idle]
  exact named.begin free
    { request := request, watchId := (s.allocateId request).1, current := s.node.store.db.revision }
    s.node.store.db.revision

theorem Stream.Named.cancelWatch (idle : s.task = .idle) (id : Int) : (s.cancelWatch id).Named := by
  have free : forall live creation, s.task ≠ .creating live creation := by simp [idle]
  cases found : s.get id with
  | none =>
    have all : (s.watchers.filter fun live => live.watcher.id ≠ id) = s.watchers :=
      List.filter_eq_self.mpr fun live member => decide_eq_true (Stream.get_none found live member)
    have unchanged : Identified s.creations (s.watchers.filter fun live => live.watcher.id ≠ id) s.task
        (s.sent ++ [{ number := none
                      item := .ok { header := s.node.store.db.revision, watchId := id, canceled := true } }]) := by
      rw [all]
      refine Identified.cancel named (List.Sublist.refl _) ?_ (fun live member gone => absurd member gone)
        (fun live creation busy => absurd busy (free live creation)) rfl ?_ (attributed_none _) free
      · exact fun _ _ no => nomatch no
      · exact fun _ no => nomatch no
    unfold Stream.cancelWatch
    rw [found]
    exact unchanged
  | some live =>
    rcases Stream.get_some found with ⟨isLive, hasId⟩
    have removed : Identified s.creations (s.watchers.filter fun live => live.watcher.id ≠ id) s.task
        (s.sent ++ [{ number := some live.number
                      item := .ok { header := s.node.store.db.revision, watchId := id, canceled := true } }]) := by
      refine Identified.cancel named List.filter_sublist ?_ ?_ (fun other creation busy => absurd busy (free other creation))
        rfl ?_ ((named.owns live isLive).attributed_empty hasId.symm rfl) free
      · intro other member same
        have equal := List.inj_on_of_nodup_map named.numbers isLive (List.mem_of_mem_filter member) (Option.some.inj same)
        rw [← equal] at member
        exact of_decide_eq_true (List.mem_filter.mp member).2 hasId
      · intro other member gone
        have sameId : other.watcher.id = id := by
          by_contra differ
          exact gone (List.mem_filter.mpr ⟨member, decide_eq_true differ⟩)
        rw [List.inj_on_of_nodup_map named.ids isLive member (hasId.trans sameId.symm)]
      · intro number same
        cases same
        exact (named.owns live isLive).number_lt
    unfold Stream.cancelWatch
    rw [found]
    exact removed

theorem Stream.Named.dispatch (batch : WatchBatch) : (s.dispatch batch).Named := by
  have moved := @Identified.moved _ _ _ _ named (fun live => { live with watcher := (dispatchTo batch live.watcher).1 })
    (fun _ => rfl) (fun live => dispatchTo_id batch live.watcher) fun live => dispatchTo_range batch live.watcher
  refine moved.tell ?_
  have each : forall live, live ∈ s.watchers -> Harmless s.creations
      ((dispatchTo batch live.watcher).2.map fun response => { number := some live.number, item := .ok response }) :=
    fun live member => (named.owns live member).harmless (dispatchTo_isFor batch live.watcher)
  refine ⟨?_, ?_, ?_⟩
  · intro delivery member
    rcases List.mem_flatMap.mp member with ⟨live, isLive, inside⟩
    exact (each live isLive).silent delivery inside
  · intro delivery member
    rcases List.mem_flatMap.mp member with ⟨live, isLive, inside⟩
    exact (each live isLive).numbered delivery inside
  · intro delivery member
    rcases List.mem_flatMap.mp member with ⟨live, isLive, inside⟩
    exact (each live isLive).attributed delivery inside

theorem Stream.Named.receive (idle : s.task = .idle) : s.receive.Named := by
  have free : forall live creation, s.task ≠ .creating live creation := by simp [idle]
  unfold Stream.receive
  by_cases told : s.missed > 0
  · rw [if_pos told]
    exact Identified.retask named free (fun _ _ no => nomatch no)
  · rw [if_neg told]
    cases buffer : s.buffer with
    | nil => exact named
    | cons batch rest =>
      have waiting : Stream.Named { s with buffer := rest } := named
      exact waiting.dispatch batch

theorem Stream.Named.sendAndInsert {live : Live} (owns : live.Owns s.creations)
    (uncancelled : ¬Cancelled live.number s.sent)
    (own : forall other, other ∈ s.watchers ->
      (other.watcher.id = live.watcher.id <-> other.number = live.number))
    (busy : forall other creation, s.task = .creating other creation -> other.number = live.number)
    {responses : List WatchResponse} (forIt : forall response, response ∈ responses -> response.IsFor live.watcher)
    {next : Task} (nextFree : forall other creation, next ≠ .creating other creation) (revision : Int) :
    ((({ s with task := next } : Stream).sendAll live.number responses).insert
      { live with watcher := live.watcher.moved revision }).Named := by
  have harmless := owns.harmless forIt
  refine @Identified.insert _ _ _ _ (Identified.tell named harmless)
    { live with watcher := live.watcher.moved revision } owns ?_ own busy _ nextFree
  rw [harmless.cancelled_iff]
  exact uncancelled

theorem Stream.Named.finishCreate {live : Live} {creation : Creation}
    (busy : s.task = .creating live creation)
    (fresh : creation.request.startRevision ≤ 0 ∨ s.node.store.db.compactRevision ≤ live.watcher.lastRevision ->
      s.get live.watcher.id = none) : (s.finishCreate live creation).Named := by
  rcases named.creating live creation busy with ⟨owns, uncancelled, sameId, others⟩
  have absent : s.get live.watcher.id = none -> forall other, other ∈ s.watchers ->
      (other.watcher.id = live.watcher.id <-> other.number = live.number) := by
    intro missing other member
    exact iff_of_false (Stream.get_none missing other member) (others other member)
  have same : forall other again, s.task = .creating other again -> other.number = live.number := by
    intro other again creating
    rw [busy] at creating
    cases creating
    rfl
  unfold Stream.finishCreate
  by_cases past : creation.request.startRevision > 0
  · rw [if_pos past]
    cases read : s.node.store.db.eventsSince live.watcher.lastRevision live.watcher.range with
    | ok history =>
      dsimp only
      rw [(sendEvents_spec live.watcher history).1]
      have idleFree : forall other again, Task.idle ≠ .creating other again := fun _ _ no => nomatch no
      exact named.sendAndInsert owns uncancelled (absent (fresh (Or.inr (eventsSince_ok read).1))) same
        (sendEvents_isFor live.watcher history) idleFree _
    | error refusal =>
      rcases eventsSince_error read with ⟨rfl, _⟩
      refine Identified.cancel named (List.Sublist.refl _) ?_ (fun other member gone => absurd member gone) ?_ rfl ?_
        (owns.attributed_empty sameId.symm rfl) ?_
      · exact fun other member equal => others other member (Option.some.inj equal).symm
      · exact fun other again creating => congrArg some (same other again creating).symm
      · intro number equal
        cases equal
        exact owns.number_lt
      · intro other again creating
        cases creating
  · rw [if_neg past]
    exact Identified.insert named owns uncancelled (absent (fresh (Or.inl (not_lt.mp past)))) same
      fun _ _ no => nomatch no

theorem Stream.Named.resyncOne {pending rest : List Int} {progress : Bool} {id : Int}
    (busy : s.task = .resyncing pending progress) : (s.resyncOne id rest progress).Named := by
  have free : forall live creation, s.task ≠ .creating live creation := by simp [busy]
  have nextFree : forall live creation, Task.resyncing rest progress ≠ .creating live creation :=
    fun _ _ no => nomatch no
  unfold Stream.resyncOne
  cases found : s.get id with
  | none =>
    dsimp only [Stream.get] at found ⊢
    rw [found]
    exact Identified.retask named free nextFree
  | some live =>
    rcases Stream.get_some found with ⟨isLive, hasId⟩
    have owns := named.owns live isLive
    have own : forall other, other ∈ s.watchers ->
        (other.watcher.id = live.watcher.id <-> other.number = live.number) := by
      intro other member
      constructor
      · intro equal
        rw [List.inj_on_of_nodup_map named.ids member isLive equal]
      · intro equal
        rw [List.inj_on_of_nodup_map named.numbers member isLive equal]
    dsimp only [Stream.get] at found ⊢
    rw [found]
    dsimp only
    cases read : s.node.store.db.eventsSince live.watcher.lastRevision live.watcher.range with
    | ok history =>
      dsimp only
      rw [(sendEvents_spec live.watcher history).1]
      exact named.sendAndInsert owns (named.uncancelled live isLive) own
        (fun other creation creating => absurd creating (free other creation))
        (sendEvents_isFor live.watcher history) nextFree _
    | error refusal =>
      rcases eventsSince_error read with ⟨rfl, _⟩
      refine Identified.cancel named List.filter_sublist ?_ ?_
        (fun other creation creating => absurd creating (free other creation)) rfl ?_
        (owns.attributed_empty hasId.symm rfl) nextFree
      · intro other member equal
        have isSame := (own other (List.mem_of_mem_filter member)).mpr (Option.some.inj equal).symm
        exact of_decide_eq_true (List.mem_filter.mp member).2 (isSame.trans hasId)
      · intro other member gone
        have sameId : other.watcher.id = id := by
          by_contra differ
          exact gone (List.mem_filter.mpr ⟨member, decide_eq_true differ⟩)
        rw [(own other member).mp (sameId.trans hasId.symm)]
      · intro number equal
        cases equal
        exact owns.number_lt

theorem Stream.Named.finishResync {progress : Bool} (busy : s.task = .resyncing [] progress) :
    (s.finishResync progress).Named := by
  have free : forall live creation, s.task ≠ .creating live creation := by simp [busy]
  have silent : Stream.Named { s with task := .idle } := Identified.retask named free (fun _ _ no => nomatch no)
  cases progress with
  | false => exact silent
  | true =>
    refine Identified.tell silent ⟨?_, ?_, ?_⟩
    · intro delivery member
      rw [List.mem_singleton.mp member]
      rfl
    · intro delivery member number about
      rw [List.mem_singleton.mp member] at about
      cases about
    · intro delivery member
      rw [List.mem_singleton.mp member]
      exact attributed_none _

theorem Stream.Named.applyCommitted (index : Nat) (cmd : Command) :
    (s.applyCommitted index cmd).Named := by
  unfold Stream.applyCommitted
  cases s.node.applyCommitted index cmd with
  | error refusal => exact named
  | ok result => exact named

theorem Stream.Named.overwrite : s.overwrite.Named := by
  unfold Stream.overwrite
  cases s.buffer with
  | nil => exact named
  | cons oldest rest => exact named

theorem Stream.Named.step (label : Label) (fresh : s.InsertsFresh label) : (s.step label).Named := by
  cases label with
  | apply index cmd => exact named.applyCommitted index cmd
  | overwrite => exact named.overwrite
  | request request =>
    rw [Stream.step]
    by_cases idle : s.task = .idle
    · rw [if_pos idle]
      have free : forall live creation, s.task ≠ .creating live creation := by simp [idle]
      cases request with
      | create request => exact named.beginCreate idle request
      | cancel watchId => exact named.cancelWatch idle watchId
      | progress => exact Identified.retask named free (fun _ _ no => by cases no)
      | empty => exact named
    · rw [if_neg idle]
      exact named
  | receive =>
    rw [Stream.step]
    by_cases idle : s.task = .idle
    · rw [if_pos idle]
      exact named.receive idle
    · rw [if_neg idle]
      exact named
  | proceed next =>
    rw [Stream.step]
    rw [Stream.InsertsFresh] at fresh
    cases busy : s.task with
    | idle => exact named
    | creating live creation =>
      rw [busy] at fresh
      exact named.finishCreate busy fresh
    | resyncing pending progress =>
      cases pending with
      | nil => exact named.finishResync busy
      | cons first rest =>
        by_cases here : next ∈ first :: rest
        · simp only [if_pos here]
          exact named.resyncOne busy
        · simp only [if_neg here]
          exact named

theorem Stream.Named.idsIdentify : s.IdsIdentify where
  distinct := named.ids
  kept := named.kept
  attributed := named.attributed

end

theorem Stream.finishCreate_inserts {live : Live} {creation : Creation}
    (inserts : creation.request.startRevision ≤ 0 ∨ s.node.store.db.compactRevision ≤ live.watcher.lastRevision) :
    Exists fun revision => Exists fun responses : List WatchResponse =>
      (forall response, response ∈ responses -> response.IsFor live.watcher) ∧
        s.finishCreate live creation = (({ s with task := .idle } : Stream).sendAll live.number responses).insert
          { live with watcher := live.watcher.moved revision } := by
  unfold Stream.finishCreate
  by_cases past : creation.request.startRevision > 0
  · have available := inserts.resolve_left (not_le.mpr past)
    have read : s.node.store.db.eventsSince live.watcher.lastRevision live.watcher.range = .ok _ :=
      if_neg (not_lt.mpr available)
    rw [if_pos past]
    rw [read]
    dsimp only
    rw [(sendEvents_spec live.watcher _).1]
    exact ⟨_, _, sendEvents_isFor live.watcher _, rfl⟩
  · rw [if_neg past]
    refine ⟨live.watcher.lastRevision, [], (fun _ no => nomatch no), ?_⟩
    unfold Stream.sendAll
    rw [List.map_nil, List.append_nil, Watcher.moved_self]

theorem Stream.Named.fresh_of_idsIdentify (named : s.Named) {label : Label} (holds : (s.step label).IdsIdentify) :
    s.InsertsFresh label := by
  cases label with
  | apply _ _ | overwrite | request _ | receive => exact True.intro
  | proceed next =>
    rw [Stream.step] at holds
    rw [Stream.InsertsFresh]
    cases busy : s.task with
    | idle | resyncing _ _ => exact True.intro
    | creating live creation =>
      rw [busy] at holds
      intro inserts
      by_contra occupied
      rcases Option.ne_none_iff_exists'.mp occupied with ⟨old, found⟩
      rcases Stream.get_some found with ⟨isLive, sameId⟩
      rcases named.creating live creation busy with ⟨owns, _, _, others⟩
      rcases @Stream.finishCreate_inserts s live creation inserts with
        ⟨revision, responses, forIt, result⟩
      dsimp only at holds
      rw [result] at holds
      rcases holds.kept old.number (named.owns old isLive).number_lt with cancelled | ⟨other, member, same⟩ | ⟨_, _, again, _⟩
      · exact named.uncancelled old isLive (((owns.harmless forIt).cancelled_iff old.number).mp cancelled)
      · rcases mem_inserted.mp member with ⟨otherLive, differ⟩ | rfl
        · rw [List.inj_on_of_nodup_map named.numbers otherLive isLive same] at differ
          exact differ sameId
        · exact others old isLive same.symm
      · cases again

/-- Over any run of a stream, ids identify watchers in every state exactly
when no creation is inserted under the id of a live watcher. -/
theorem watch_ids_identify_iff (node : Node) (labels : List Label) :
    AlongRun Stream.step Stream.IdsIdentify (Stream.opened node) labels <->
      EveryStep Stream.step Stream.InsertsFresh (Stream.opened node) labels :=
  alongRun_iff_everyStep (fun _ label named _ fresh => Stream.Named.step named label fresh)
    (fun _ named => Stream.Named.idsIdentify named)
    (fun _ _ named _ holds => Stream.Named.fresh_of_idsIdentify named holds)
    (Stream.opened_named node) (EveryStep.unconditional _ labels)

/-- The client's first watcher has id 1, and the counter reaches 1 with the
second id it hands out. -/
def counterReachesClientId : List Label :=
  [watchKey "/a" 0 1, .proceed 0, watchKey "/b" 0 0, .proceed 0, watchKey "/c" 0 0, .proceed 0]

theorem counterReachesClientId_loses :
    ¬ forall labels, AlongRun Stream.step Stream.IdsIdentify (Stream.opened (run Node.step Node.fresh [])) labels := by
  intro always
  have kept := (always counterReachesClientId).finish.kept 0 (by decide)
  rcases kept with ⟨delivery, member, _, cancels⟩ | ⟨live, member, number⟩ | ⟨live, creation, busy, _⟩
  · revert delivery
    decide
  · revert live
    decide
  · revert busy
    nofun

end
end NotK8s.Watch

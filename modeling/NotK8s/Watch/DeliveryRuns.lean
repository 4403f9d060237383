import NotK8s.Watch.DeliverySteps

namespace NotK8s.Watch

open Library Nodestore

/-!
# Runs of a watch stream

The two reads of the store that send history, at a creation and in a resync,
complete the steps.  Every run of regular steps from a subscription is then
gapless in every state.
-/

section
variable {s : Stream}

theorem responses_others {responses : List WatchResponse} {number other : Nat} (differ : other ≠ number) :
    forall delivery,
      delivery ∈ responses.map (fun response => ({ number := some other, item := .ok response } : Delivery)) ->
      delivery.number ≠ some number := by
  intro delivery member same
  rcases List.mem_map.mp member with ⟨response, _, rfl⟩
  exact differ (Option.some.inj same)

/-! ## Insertions -/

/-- The map after an insertion. -/
def inserted (watchers : List Live) (live : Live) : List Live :=
  (watchers.filter fun other => other.watcher.id ≠ live.watcher.id) ++ [live]

theorem mem_inserted {watchers : List Live} {live other : Live} :
    other ∈ inserted watchers live <->
      (other ∈ watchers ∧ other.watcher.id ≠ live.watcher.id) ∨ other = live := by
  simp [inserted]

/-- The entry under an id is replaced by one for the same creation, or there
was none. -/
theorem inserted_nodup {watchers : List Live} {live : Live} (ids : (watchers.map fun live => live.watcher.id).Nodup)
    (numbers : (watchers.map Live.number).Nodup)
    (own : forall other, other ∈ watchers -> other.number = live.number ->
      other.watcher.id = live.watcher.id) :
    ((inserted watchers live).map fun live => live.watcher.id).Nodup ∧
      ((inserted watchers live).map Live.number).Nodup := by
  constructor
  · rw [inserted, List.map_append, List.map_singleton]
    refine List.Nodup.append (ids.sublist ((List.filter_sublist).map _)) (List.nodup_singleton _) ?_
    intro id first second
    rcases List.mem_map.mp first with ⟨other, kept, rfl⟩
    exact absurd (List.mem_singleton.mp second) (by simpa using (List.mem_filter.mp kept).2)
  · rw [inserted, List.map_append, List.map_singleton]
    refine List.Nodup.append (numbers.sublist ((List.filter_sublist).map _)) (List.nodup_singleton _) ?_
    intro number first second
    rcases List.mem_map.mp first with ⟨other, kept, rfl⟩
    have differ : other.watcher.id ≠ live.watcher.id := by simpa using (List.mem_filter.mp kept).2
    exact differ (own other (List.mem_of_mem_filter kept) (List.mem_singleton.mp second))

section

variable (inv : s.Inv)
include inv

/-- Inserting a watcher that serves its creation, with what it was sent. -/
theorem Stream.Inv.insert {live : Live} {responses : List WatchResponse} {task : Task}
    (attached : Attached s.creations s.node
      (s.sent ++ responses.map fun response => { number := some live.number, item := .ok response }) live)
    (own : forall other, other ∈ s.watchers ->
      (other.watcher.id = live.watcher.id <-> other.number = live.number))
    (free : forall other creation, task ≠ .creating other creation)
    (awaits : forall id, id ≠ live.watcher.id -> s.task.Awaits id -> task.Awaits id)
    (busy : forall other creation, s.task = .creating other creation -> other.number = live.number)
    (buffered : s.missed = 0 -> Buffered s.node.stamped s.buffer live.watcher) :
    ((({ s with task := task } : Stream).sendAll live.number responses).insert live).Inv := by
  have unfinished : ¬Finished s.creations s.node s.sent live.number := by
    intro finished
    refine attached.uncancelled ?_
    exact cancelled_append.mpr (Or.inl finished.cancelled)
  have nodup := inserted_nodup inv.ids inv.numbers fun other member same => (own other member).mpr same
  refine ⟨inv.logged, inv.unread, nodup.1, nodup.2, ?_, ?_, ?_, ?_, ?_⟩
  · refine inv.numbered_append fun delivery new number same => ?_
    rcases List.mem_map.mp new with ⟨response, _, rfl⟩
    rw [← Option.some.inj same]
    exact attached.number_lt
  · intro other member
    rcases mem_inserted.mp member with ⟨isLive, differ⟩ | rfl
    · refine (inv.attached other isLive).frame (List.prefix_refl _) (responses_others ?_)
      exact fun same => differ ((own other isLive).mpr same.symm)
    · exact attached
  · intro other member told read
    rcases mem_inserted.mp member with ⟨isLive, differ⟩ | rfl
    · exact inv.buffered other isLive told fun before => read (awaits other.watcher.id differ before)
    · exact buffered told
  · intro other creation same
    exact absurd same (free other creation)
  · intro number below
    rcases inv.accounted number below with
      withdrawn | finished | ⟨other, isLive, rfl⟩ | ⟨other, creation, creating, rfl⟩
    · exact Or.inl withdrawn
    · refine Or.inr (Or.inl (finished.frame (List.prefix_refl _) (responses_others ?_)))
      intro same
      rw [← same] at finished
      exact unfinished finished
    · by_cases same : other.number = live.number
      · exact Or.inr (Or.inr (Or.inl ⟨live, mem_inserted.mpr (Or.inr rfl), same.symm⟩))
      · refine Or.inr (Or.inr (Or.inl ⟨other, mem_inserted.mpr (Or.inl ⟨isLive, ?_⟩), rfl⟩))
        exact fun sameId => same ((own other isLive).mp sameId)
    · exact Or.inr (Or.inr (Or.inl ⟨live, mem_inserted.mpr (Or.inr rfl), (busy other creation creating).symm⟩))

/-! ## The rest of a creation -/

theorem Stream.Inv.finishCreate {live : Live} {creation : Creation}
    (busy : s.task = .creating live creation)
    (regular : creation.request.startRevision ≤ 0 ∨
      s.node.store.db.compactRevision ≤ live.watcher.lastRevision ->
        s.get live.watcher.id = none ∧
          (0 < creation.request.startRevision -> live.watcher.ReplaysFaithfully s.node.store.db)) :
    (s.finishCreate live creation).Inv := by
  rcases inv.creating live creation busy with ⟨found, watcher, others, attached, buffered⟩
  have absent : s.get live.watcher.id = none -> forall other, other ∈ s.watchers ->
      (other.watcher.id = live.watcher.id <-> other.number = live.number) := by
    intro missing other member
    exact iff_of_false (Stream.get_none missing other member) (others other member)
  have awaits : forall id, id ≠ live.watcher.id -> s.task.Awaits id -> Task.idle.Awaits id := by
    intro id _ before
    rw [busy] at before
    exact before
  have same : forall other creation, s.task = .creating other creation -> other.number = live.number := by
    intro other again creating
    rw [busy] at creating
    cases creating
    rfl
  unfold Stream.finishCreate
  by_cases past : creation.request.startRevision > 0
  · rw [if_pos past]
    cases read : s.node.store.db.eventsSince live.watcher.lastRevision live.watcher.range with
    | ok history =>
      have available := (eventsSince_ok read).1
      rcases regular (Or.inr available) with ⟨missing, faithful⟩
      have whole := replayed inv.logged read (faithful past)
      rcases sendEvents_spec live.watcher history with ⟨moved, events⟩
      dsimp only
      rw [moved]
      have sound := attached.told (fun response member => (sendEvents_isFor live.watcher history response member).canceled)
        fun creation received serving => by
          rw [events]
          exact (serving.replay inv.logged whole).1
      rcases attached.serving with ⟨creation', _, serving⟩
      refine @Stream.Inv.insert s inv
        { live with watcher := live.watcher.moved (reached live.watcher.lastRevision history) } _ .idle sound
        (absent missing) (fun _ _ no => nomatch no) awaits same ?_
      exact fun _ => (serving.replay inv.logged whole).2 s.buffer
    | error refusal =>
      rcases eventsSince_error read with ⟨rfl, gone⟩
      have finished := attached.finished gone creation.current creation.watchId
      refine ⟨inv.logged, inv.unread, inv.ids, inv.numbers, ?_, ?_, ?_, ?_, ?_⟩
      · refine inv.numbered_append fun delivery last number about => ?_
        rw [List.mem_singleton.mp last] at about
        rw [← Option.some.inj about]
        exact attached.number_lt
      · intro other member
        refine (inv.attached other member).frame (List.prefix_refl _) (others_single ?_)
        exact fun equal => others other member (Option.some.inj equal).symm
      · intro other member told _
        refine inv.buffered other member told ?_
        rw [busy]
        exact id
      · intro other again creating
        cases creating
      · intro number below
        rcases inv.accounted number below with withdrawn | earlier | isLive | ⟨other, again, creating, rfl⟩
        · exact Or.inl withdrawn
        · refine Or.inr (Or.inl (earlier.frame (List.prefix_refl _) (others_single ?_)))
          intro equal
          rw [← Option.some.inj equal] at earlier
          exact attached.uncancelled earlier.cancelled
        · exact Or.inr (Or.inr (Or.inl isLive))
        · rw [same other again creating]
          exact Or.inr (Or.inl finished)
  · rw [if_neg past]
    have now : creation.request.startRevision ≤ 0 := not_lt.mp past
    have plain := @Stream.Inv.insert s inv live [] .idle ?_ (absent (regular (Or.inl now)).1)
      (fun _ _ no => nomatch no) awaits same (buffered now)
    · dsimp only [Stream.sendAll] at plain
      rw [List.map_nil, List.append_nil] at plain
      exact plain
    · rw [List.map_nil, List.append_nil]
      exact attached

/-! ## Resyncs -/

theorem Stream.Inv.turns {task : Task} (still : forall live creation, s.task ≠ .creating live creation)
    (free : forall live creation, task ≠ .creating live creation)
    (awaits : forall live, live ∈ s.watchers -> s.task.Awaits live.watcher.id -> task.Awaits live.watcher.id) :
    ({ s with task := task } : Stream).Inv := by
  refine ⟨inv.logged, inv.unread, inv.ids, inv.numbers, inv.numbered, inv.attached, ?_, ?_, ?_⟩
  · exact fun live member told read => inv.buffered live member told fun before => read (awaits live member before)
  · exact fun live creation same => absurd same (free live creation)
  · intro number below
    rcases inv.accounted number below with withdrawn | finished | isLive | ⟨live, creation, same, _⟩
    · exact Or.inl withdrawn
    · exact Or.inr (Or.inl finished)
    · exact Or.inr (Or.inr (Or.inl isLive))
    · exact absurd same (still live creation)

theorem Stream.Inv.resyncOne {pending : List Int} {progress : Bool} {id : Int}
    (busy : s.task = .resyncing pending progress)
    (regular : forall live, live ∈ s.get id -> live.watcher.ReplaysFaithfully s.node.store.db) :
    (s.resyncOne id (pending.erase id) progress).Inv := by
  have awaits : forall other, other ≠ id -> s.task.Awaits other ->
      (Task.resyncing (pending.erase id) progress).Awaits other := by
    intro other differ before
    rw [busy] at before
    exact (List.mem_erase_of_ne differ).mpr before
  have creating : forall live creation, s.task ≠ .creating live creation := by
    intro live creation same
    rw [busy] at same
    cases same
  unfold Stream.resyncOne
  cases found : s.get id with
  | none =>
    dsimp only [Stream.get] at found ⊢
    rw [found]
    exact inv.turns creating (fun _ _ no => nomatch no) fun live member before =>
      awaits live.watcher.id (Stream.get_none found live member) before
  | some live =>
    rcases Stream.get_some found with ⟨isLive, hasId⟩
    have attached := inv.attached live isLive
    have own : forall other, other ∈ s.watchers ->
        (other.watcher.id = live.watcher.id <-> other.number = live.number) := by
      intro other member
      constructor
      · intro same
        rw [List.inj_on_of_nodup_map inv.ids member isLive same]
      · intro same
        rw [List.inj_on_of_nodup_map inv.numbers member isLive same]
    dsimp only [Stream.get] at found ⊢
    rw [found]
    dsimp only
    cases read : s.node.store.db.eventsSince live.watcher.lastRevision live.watcher.range with
    | ok history =>
      have whole := replayed inv.logged read (regular live (by rw [Stream.get, found]; rfl))
      rcases sendEvents_spec live.watcher history with ⟨moved, events⟩
      dsimp only
      rw [moved]
      have sound := attached.told (fun response member => (sendEvents_isFor live.watcher history response member).canceled)
        fun creation received serving => by
          rw [events]
          exact serving.resync inv.logged whole
      refine @Stream.Inv.insert s inv
        { live with
          watcher := live.watcher.moved
            (max (reached live.watcher.lastRevision history) s.node.store.db.revision) } _
        (.resyncing (pending.erase id) progress) sound own (fun _ _ no => nomatch no) ?_
        (fun other creation same => absurd same (creating other creation)) ?_
      · intro other differ before
        exact awaits other (fun same => differ (same.trans hasId.symm)) before
      · exact fun _ => Buffered.current inv.logged (le_max_right _ _)
    | error refusal =>
      rcases eventsSince_error read with ⟨rfl, gone⟩
      have finished := attached.finished gone s.node.store.db.revision id
      have remaining : forall other, other ∈ s.watchers.filter (fun other => other.watcher.id ≠ id) ->
          other ∈ s.watchers ∧ other.watcher.id ≠ id := by
        intro other member
        simpa using member
      refine ⟨inv.logged, inv.unread, ?_, ?_, ?_, ?_, ?_, ?_, ?_⟩
      · exact inv.ids.sublist ((List.filter_sublist).map _)
      · exact inv.numbers.sublist ((List.filter_sublist).map _)
      · refine inv.numbered_append fun delivery last number about => ?_
        rw [List.mem_singleton.mp last] at about
        rw [← Option.some.inj about]
        exact attached.number_lt
      · intro other member
        rcases remaining other member with ⟨otherLive, differ⟩
        refine (inv.attached other otherLive).frame (List.prefix_refl _) (others_single ?_)
        intro equal
        exact differ (((own other otherLive).mpr (Option.some.inj equal).symm).trans hasId)
      · intro other member told waiting
        rcases remaining other member with ⟨otherLive, differ⟩
        exact inv.buffered other otherLive told fun before => waiting (awaits _ differ before)
      · intro other creation same
        cases same
      · intro number below
        rcases inv.accounted number below with
          withdrawn | earlier | ⟨other, otherLive, rfl⟩ | ⟨other, creation, same, _⟩
        · exact Or.inl withdrawn
        · refine Or.inr (Or.inl (earlier.frame (List.prefix_refl _) (others_single ?_)))
          intro equal
          rw [← Option.some.inj equal] at earlier
          exact attached.uncancelled earlier.cancelled
        · by_cases same : other.watcher.id = id
          · rw [(own other otherLive).mp (same.trans hasId.symm)]
            exact Or.inr (Or.inl finished)
          · refine Or.inr (Or.inr (Or.inl ⟨other, ?_, rfl⟩))
            simpa [Stream.remove, Stream.send] using ⟨otherLive, same⟩
        · exact absurd same (creating other creation)

theorem Stream.Inv.finishResync {progress : Bool} (busy : s.task = .resyncing [] progress) :
    (s.finishResync progress).Inv := by
  have silent : ({ s with task := .idle } : Stream).Inv :=
    inv.turns (by rw [busy]; exact fun _ _ no => nomatch no) (fun _ _ no => nomatch no) fun live _ before =>
      absurd before (by rw [busy]; exact List.not_mem_nil)
  cases progress with
  | false => exact silent
  | true =>
    have none : forall number : Nat, (none : Option Nat) ≠ some number := fun _ no => nomatch no
    refine ⟨silent.logged, silent.unread, silent.ids, silent.numbers, ?_, ?_, silent.buffered, ?_, ?_⟩
    · refine silent.numbered_append fun delivery last number about => ?_
      rw [List.mem_singleton.mp last] at about
      cases about
    · intro live member
      exact (silent.attached live member).frame (List.prefix_refl _) (others_single (none live.number))
    · intro live creation same
      cases same
    · intro number below
      rcases silent.accounted number below with withdrawn | finished | isLive | ⟨live, creation, same, _⟩
      · exact Or.inl withdrawn
      · exact Or.inr (Or.inl (finished.frame (List.prefix_refl _) (others_single (none number))))
      · exact Or.inr (Or.inr (Or.inl isLive))
      · cases same

theorem Stream.Inv.step (label : Label) (regular : s.Regular label) : (s.step label).Inv := by
  cases label with
  | apply index cmd => exact inv.applyCommitted index cmd
  | overwrite => exact inv.overwrite
  | request request =>
    rw [Stream.step]
    by_cases idle : s.task = .idle
    · rw [if_pos idle]
      cases request with
      | create request => exact inv.beginCreate idle request
      | cancel watchId => exact inv.cancelWatch idle watchId
      | progress => exact inv.beginResync idle s.missed true
      | empty => exact inv
    · rw [if_neg idle]
      exact inv
  | receive =>
    rw [Stream.step]
    by_cases idle : s.task = .idle
    · rw [if_pos idle]
      exact inv.receive idle
    · rw [if_neg idle]
      exact inv
  | proceed next =>
    rw [Stream.step]
    rw [Stream.Regular] at regular
    cases busy : s.task with
    | idle => exact inv
    | creating live creation =>
      rw [busy] at regular
      exact inv.finishCreate busy regular
    | resyncing pending progress =>
      rw [busy] at regular
      cases pending with
      | nil => exact inv.finishResync busy
      | cons first rest =>
        by_cases here : next ∈ first :: rest
        · simp only [if_pos here]
          exact inv.resyncOne busy (regular here)
        · simp only [if_neg here]
          exact inv

/-! ## Gaplessness -/

theorem Stream.Inv.continues {live : Live} (member : live ∈ s.watchers) {creation : Creation}
    (serving : Serving creation s.node.stamped s.node.store.db.revision (said live.number s.sent) live.watcher) :
    s.Continues live.number creation live.watcher.lastRevision := by
  refine ⟨(inv.attached live member).uncancelled, ?_⟩
  rintro ⟨idle, told⟩ stamped published asked beyond
  refine inv.buffered live member told (by rw [idle]; exact id) stamped published beyond ?_
  rw [creation.accepts_eq, Bool.and_eq_true] at asked
  rw [serving.shape]
  exact asked.2

theorem Stream.Inv.serves {number : Nat} {creation : Creation}
    (found : s.creations[number]? = some creation) (kept : number ∉ s.withdrawn) : s.Serves number creation := by
  have below := (List.getElem?_eq_some_iff.mp found).1
  rcases inv.accounted number below with withdrawn | finished | ⟨live, member, rfl⟩ | ⟨live, other, busy, rfl⟩
  · exact absurd withdrawn kept
  · rcases finished with ⟨other, cursor, same, exact, gone⟩
    rw [found] at same
    rw [← Option.some.inj same] at exact
    exact ⟨cursor, exact, Or.inl gone⟩
  · rcases (inv.attached live member).serving with ⟨other, same, serving⟩
    rw [found] at same
    rw [← Option.some.inj same] at serving
    exact ⟨live.watcher.lastRevision, serving.expected, Or.inr (inv.continues member serving)⟩
  · rcases inv.creating live other busy with ⟨_, _, _, attached, _⟩
    rcases attached.serving with ⟨again, same, serving⟩
    rw [found] at same
    rw [← Option.some.inj same] at serving
    refine ⟨live.watcher.lastRevision, serving.expected, Or.inr ⟨attached.uncancelled, ?_⟩⟩
    rintro ⟨idle, _⟩
    rw [busy] at idle
    cases idle

theorem Stream.Inv.gapless : s.Gapless where
  ordered := inv.logged.ordered
  serves := fun _ _ found kept => inv.serves found kept
  complete := by
    rintro ⟨idle, told⟩ drained number creation found kept uncancelled
    have below := (List.getElem?_eq_some_iff.mp found).1
    rcases inv.accounted number below with withdrawn | finished | ⟨live, member, rfl⟩ | ⟨live, other, busy, _⟩
    · exact absurd withdrawn kept
    · exact absurd finished.cancelled uncancelled
    · rcases (inv.attached live member).serving with ⟨other, same, serving⟩
      rw [found] at same
      rw [← Option.some.inj same] at serving
      have buffered := inv.buffered live member told (by rw [idle]; exact id)
      rw [drained] at buffered
      exact serving.complete buffered
    · rw [idle] at busy
      cases busy

end

/-- Every run of regular steps, on a node with any command history, is
gapless in every state it visits. -/
theorem watch_delivery_gapless (entries : List (Nat × Command)) (labels : List Label)
    (regular : EveryStep Stream.step Stream.Regular (Stream.opened (run Node.step Node.fresh entries)) labels) :
    AlongRun Stream.step Stream.Gapless (Stream.opened (run Node.step Node.fresh entries)) labels := by
  have along := @AlongRun.of_invariant Stream Label Stream.step Stream.Inv Stream.Regular
    (fun s label inv regular => inv.step label regular) _ labels (Stream.opened_inv (Node.run_logged entries)) regular
  exact along.mono fun s inv => inv.gapless

end

/-! ## Two runs -/

def putCommand (key value : String) : Command :=
  .put { key := ascii key, value := ascii value, lease := 0, prevKv := false,
         ignoreValue := false, ignoreLease := false }

/-- A creation for one key, with previous values. -/
def watchKey (key : String) (startRevision watchId : Int) : Label :=
  .request (.create { key := ascii key, rangeEnd := [], startRevision := startRevision, filters := [],
                      prevKv := true, watchId := watchId })

/-- A replay, a lag, a progress request and a compaction. -/
theorem laggedWatch_gapless :
    let labels : List Label :=
      [watchKey "/a" 2 0, .apply 3 (putCommand "/a" "two"), .proceed 0, .receive,
        .apply 4 (putCommand "/a" "three"), .overwrite, .receive, .proceed 0, .proceed 0,
        .apply 5 (.compact 3), .request .progress, .proceed 0, .proceed 0]
    let entries : List (Nat × Command) := [(1, putCommand "/a" "one")]
    AlongRun Stream.step Stream.Gapless (Stream.opened (run Node.step Node.fresh entries)) labels :=
  watch_delivery_gapless _ _ (by decide)

/-- The client chooses id 1 for its first watcher and leaves the other ids to
the server, whose counter comes to 1 with the third. -/
def reusedId : List Label :=
  [watchKey "/a" 0 1, .proceed 0, watchKey "/b" 0 0, .proceed 0, watchKey "/c" 0 0, .proceed 0,
    .apply 1 (putCommand "/a" "one"), .receive]

/-- The first watcher is then never told of a put to its key. -/
theorem reusedId_not_gapless :
    ¬AlongRun Stream.step Stream.Gapless (Stream.opened (run Node.step Node.fresh [])) reusedId := by
  intro along
  have complete := along.finish.complete ⟨by decide, by decide⟩ (by decide)
    0 { request := { key := ascii "/a", rangeEnd := [], startRevision := 0, filters := [],
                     prevKv := true, watchId := 1 }
        watchId := 1
        current := 1 } (by decide) (by decide)
  have uncancelled : ¬Cancelled 0 (run Stream.step (Stream.opened (run Node.step Node.fresh [])) reusedId).sent := by
    rintro ⟨delivery, member, _, cancels⟩
    revert delivery
    decide
  have sent := complete uncancelled
  revert sent
  decide

end NotK8s.Watch

import NotK8s.Watch.Delivery

namespace NotK8s.Watch

open Library Nodestore

/-!
# The steps of a watch stream

Each step keeps the delivery invariant.  The applier and the channel change
what the watchers have yet to read, the task moves watchers and sends.
-/

section
variable {creations : List Creation} {node node' : Node} {sent : List Delivery} {live : Live}

theorem Attached.number_lt (attached : Attached creations node sent live) :
    live.number < creations.length := by
  rcases attached.serving with ⟨creation, found, _⟩
  exact (List.getElem?_eq_some_iff.mp found).1

/-! ## The applier and the channel -/

theorem Attached.published (attached : Attached creations node sent live) (applies : node.Applies node') :
    Attached creations node' sent live := by
  rcases attached.serving with ⟨creation, found, serving⟩
  rcases applies.later with ⟨later, added, above⟩
  refine ⟨⟨creation, found, ?_⟩, attached.uncancelled⟩
  rw [Node.stamped_append added]
  exact serving.published applies.revision (stamped_above above)

theorem Finished.published {number : Nat} (finished : Finished creations node sent number)
    (logged : node.Logged) (applies : node.Applies node') : Finished creations node' sent number := by
  rcases finished with ⟨creation, cursor, found, exact, response, member, canceled, reason, past, reached⟩
  rcases applies.later with ⟨later, added, above⟩
  refine ⟨creation, cursor, found, ?_, response, member, canceled, reason, past,
    reached.trans applies.compactRevision⟩
  have nothing : upTo cursor (later.flatMap WatchBatch.stamped) = [] := by
    apply List.filter_eq_nil_iff.mpr
    intro stamped isLater
    have beyond := stamped_above above stamped isLater
    have bound := logged.wellFormed.compactLe
    simp only [decide_eq_true_eq]
    omega
  have same : upTo cursor node'.stamped = upTo cursor node.stamped := by
    rw [Node.stamped_append added, upTo, List.filter_append]
    change upTo cursor node.stamped ++ upTo cursor _ = _
    rw [nothing, List.append_nil]
  rw [exact, same]

end

section
variable {s : Stream}

theorem Stream.Inv.numbered_append (inv : s.Inv) {later : List Delivery}
    (new : forall delivery, delivery ∈ later -> forall number, delivery.number = some number -> number < s.creations.length) :
    forall delivery, delivery ∈ s.sent ++ later -> forall number, delivery.number = some number -> number < s.creations.length :=
  List.forall_mem_append.mpr ⟨inv.numbered, new⟩

theorem Stream.Inv.applyCommitted (inv : s.Inv) (index : Nat) (cmd : Command) :
    (s.applyCommitted index cmd).Inv := by
  unfold Stream.applyCommitted
  cases outcome : s.node.applyCommitted index cmd with
  | error refusal => exact inv
  | ok result =>
    have applies := inv.logged.applies outcome
    rcases applies.later with ⟨later, added, above⟩
    have unread : result.2.published.drop s.node.published.length = later := by
      rw [added, List.drop_left]
    have feed := Node.stamped_append added
    simp only [unread]
    refine ⟨inv.logged.applyCommitted outcome, ?_, inv.ids, inv.numbers, inv.numbered, ?_, ?_, ?_, ?_⟩
    · rcases inv.unread with ⟨earlier, split⟩
      exact ⟨earlier, by rw [added, ← split, List.append_assoc]⟩
    · intro live member
      exact (inv.attached live member).published applies
    · intro live member told read
      rw [feed]
      exact (inv.buffered live member told read).published later
    · intro live creation busy
      rcases inv.creating live creation busy with ⟨found, same, others, attached, buffered⟩
      refine ⟨found, same, others, attached.published applies, ?_⟩
      intro now told
      rw [feed]
      exact (buffered now told).published later
    · intro number below
      rcases inv.accounted number below with withdrawn | finished | live | creating
      · exact Or.inl withdrawn
      · exact Or.inr (Or.inl (finished.published inv.logged applies))
      · exact Or.inr (Or.inr (Or.inl live))
      · exact Or.inr (Or.inr (Or.inr creating))

theorem Stream.Inv.overwrite (inv : s.Inv) : s.overwrite.Inv := by
  unfold Stream.overwrite
  cases unread : s.buffer with
  | nil => exact inv
  | cons oldest rest =>
    have suffix := inv.unread
    rw [unread] at suffix
    refine ⟨inv.logged, (List.suffix_cons oldest rest).trans suffix, inv.ids, inv.numbers, inv.numbered,
      inv.attached, ?_, ?_, inv.accounted⟩
    · intro live member told
      exact absurd told (Nat.succ_ne_zero _)
    · intro live creation busy
      rcases inv.creating live creation busy with ⟨found, same, others, attached, _⟩
      exact ⟨found, same, others, attached, fun _ told => absurd told (Nat.succ_ne_zero _)⟩

/-! ## Requests -/

theorem others_single {number : Nat} {about : Option Nat} {item : Except Error WatchResponse}
    (differ : about ≠ some number) :
    forall delivery, delivery ∈ [({ number := about, item := item } : Delivery)] -> delivery.number ≠ some number := by
  intro delivery member
  rw [List.mem_singleton.mp member]
  exact differ

theorem Stream.Inv.beginCreate (inv : s.Inv) (idle : s.task = .idle) (request : WatchCreateRequest) :
    (s.beginCreate request).Inv := by
  unfold Stream.beginCreate
  rcases s.allocateId request with ⟨watchId, nextWatchId⟩
  dsimp only [Stream.send]
  generalize asked : ({ request := request, watchId := watchId, current := s.node.store.db.revision } : Creation) =
    creation
  have current : creation.current = s.node.store.db.revision := by rw [← asked]
  have kept : s.creations <+: s.creations ++ [creation] := List.prefix_append _ _
  have newest : (s.creations ++ [creation])[s.creations.length]? = some creation := by
    rw [List.getElem?_append_right (le_refl _), Nat.sub_self]
    rfl
  have others : forall number, number < s.creations.length -> forall delivery,
      delivery ∈ [({ number := some s.creations.length
                     item := .ok { header := s.node.store.db.revision, watchId := watchId, created := true } } :
                   Delivery)] -> delivery.number ≠ some number := by
    intro number below
    exact others_single fun same => absurd (Option.some.inj same) (Nat.ne_of_gt below)
  have fresh : said s.creations.length s.sent = [] := by
    apply said_of_others
    intro delivery member same
    exact absurd (inv.numbered delivery member _ same) (lt_irrefl _)
  refine ⟨inv.logged, inv.unread, inv.ids, inv.numbers, ?_, ?_, ?_, ?_, ?_⟩
  · intro delivery member number about
    have grown : (s.creations ++ [creation]).length = s.creations.length + 1 := List.length_append
    rw [grown]
    rcases List.mem_append.mp member with earlier | last
    · exact Nat.lt_succ_of_lt (inv.numbered delivery earlier number about)
    · rw [List.mem_singleton.mp last] at about
      rw [← Option.some.inj about]
      exact Nat.lt_succ_self _
  · intro live member
    have attached := inv.attached live member
    exact attached.frame kept (others live.number attached.number_lt)
  · intro live member told _
    refine inv.buffered live member told ?_
    rw [idle]
    exact id
  · intro live other busy
    cases busy
    refine ⟨newest, rfl, ?_, ⟨⟨creation, newest, ?_⟩, ?_⟩, ?_⟩
    · intro other member
      exact Nat.ne_of_lt (inv.attached other member).number_lt
    · have created : said s.creations.length
          [({ number := some s.creations.length
              item := .ok { header := s.node.store.db.revision, watchId := watchId, created := true } } : Delivery)] = [] := by
        simp [said, Delivery.stamped, WatchResponse.stamped]
      rw [said_append, fresh, created]
      exact Serving.opened creation s.node.stamped s.node.store.db.revision
    · rw [cancelled_append]
      refine not_or.mpr ⟨?_, ?_⟩
      · apply not_cancelled_of_others
        intro delivery member same
        exact absurd (inv.numbered delivery member _ same) (lt_irrefl _)
      · rintro ⟨delivery, member, _, cancels⟩
        rw [List.mem_singleton.mp member] at cancels
        cases cancels
    · intro now _
      apply Buffered.current inv.logged
      simp only [Creation.watcher, if_pos now, current]
      exact le_refl _
  · intro number below
    by_cases newcomer : number = s.creations.length
    · exact Or.inr (Or.inr (Or.inr ⟨_, _, rfl, newcomer.symm⟩))
    · have earlier : number < s.creations.length := by
        rw [List.length_append, List.length_singleton] at below
        omega
      rcases inv.accounted number earlier with withdrawn | finished | live | ⟨live, creation, busy, _⟩
      · exact Or.inl withdrawn
      · exact Or.inr (Or.inl (finished.frame kept (others number earlier)))
      · exact Or.inr (Or.inr (Or.inl live))
      · rw [idle] at busy
        cases busy

theorem Stream.get_some {id : Int} {live : Live} (found : s.get id = some live) :
    live ∈ s.watchers ∧ live.watcher.id = id :=
  ⟨List.mem_of_find?_eq_some found, by simpa using List.find?_some found⟩

theorem Stream.get_none {id : Int} (missing : s.get id = none) :
    forall live, live ∈ s.watchers -> live.watcher.id ≠ id := by
  intro live member
  simpa using List.find?_eq_none.mp missing live member

theorem Stream.Inv.number_ne (inv : s.Inv) {first second : Live} (firstLive : first ∈ s.watchers)
    (secondLive : second ∈ s.watchers) (differ : first.watcher.id ≠ second.watcher.id) :
    first.number ≠ second.number := by
  intro same
  have equal := List.inj_on_of_nodup_map inv.numbers firstLive secondLive same
  exact differ (congrArg (fun live => live.watcher.id) equal)

theorem Stream.Inv.not_finished (inv : s.Inv) {live : Live} (member : live ∈ s.watchers) :
    ¬Finished s.creations s.node s.sent live.number :=
  fun finished => (inv.attached live member).uncancelled finished.cancelled

theorem Stream.Inv.cancelWatch (inv : s.Inv) (idle : s.task = .idle) (id : Int) : (s.cancelWatch id).Inv := by
  unfold Stream.cancelWatch
  dsimp only [Stream.send, Stream.remove]
  have remaining : forall live, live ∈ s.watchers.filter (fun live => live.watcher.id ≠ id) ->
      live ∈ s.watchers ∧ live.watcher.id ≠ id := by
    intro live member
    simpa using member
  have about : forall live, live ∈ s.watchers -> live.watcher.id ≠ id ->
      (s.get id).map Live.number ≠ some live.number := by
    intro live member differ same
    rcases Option.map_eq_some_iff.mp same with ⟨removed, found, number⟩
    rcases Stream.get_some found with ⟨isLive, hasId⟩
    exact inv.number_ne isLive member (by rw [hasId]; exact differ.symm) number
  refine ⟨inv.logged, inv.unread, ?_, ?_, ?_, ?_, ?_, ?_, ?_⟩
  · exact inv.ids.sublist ((List.filter_sublist).map _)
  · exact inv.numbers.sublist ((List.filter_sublist).map _)
  · refine inv.numbered_append fun delivery last number same => ?_
    rw [List.mem_singleton.mp last] at same
    rcases Option.map_eq_some_iff.mp same with ⟨removed, found, rfl⟩
    exact (inv.attached removed (Stream.get_some found).1).number_lt
  · intro live member
    rcases remaining live member with ⟨isLive, differ⟩
    exact (inv.attached live isLive).frame (List.prefix_refl _) (others_single (about live isLive differ))
  · intro live member told read
    exact inv.buffered live (remaining live member).1 told read
  · intro live creation busy
    rw [idle] at busy
    cases busy
  · intro number below
    rcases inv.accounted number below with withdrawn | finished | ⟨live, isLive, rfl⟩ | ⟨live, creation, busy, _⟩
    · exact Or.inl (List.mem_append_left _ withdrawn)
    · by_cases removed : (s.get id).map Live.number = some number
      · refine Or.inl (List.mem_append_right _ ?_)
        rw [removed]
        exact .head _
      · exact Or.inr (Or.inl (finished.frame (List.prefix_refl _) (others_single removed)))
    · by_cases removed : live.watcher.id = id
      · have found : s.get id = some live := by
          cases outcome : s.get id with
          | none => exact absurd removed (Stream.get_none outcome live isLive)
          | some other =>
            rcases Stream.get_some outcome with ⟨otherLive, hasId⟩
            rw [List.inj_on_of_nodup_map inv.ids otherLive isLive (hasId.trans removed.symm)]
        refine Or.inl (List.mem_append_right _ ?_)
        rw [found]
        exact .head _
      · refine Or.inr (Or.inr (Or.inl ⟨live, ?_, rfl⟩))
        simpa using ⟨isLive, removed⟩
    · rw [idle] at busy
      cases busy

theorem Stream.Inv.beginResync (inv : s.Inv) (idle : s.task = .idle) (missed : Nat) (progress : Bool) :
    (({ s with missed := missed }).beginResync progress).Inv := by
  refine ⟨inv.logged, inv.unread, inv.ids, inv.numbers, inv.numbered, inv.attached, ?_, ?_, ?_⟩
  · intro live member _ read
    exact absurd (List.mem_map.mpr ⟨live, member, rfl⟩) read
  · intro live creation busy
    cases busy
  · intro number below
    rcases inv.accounted number below with withdrawn | finished | live | ⟨live, creation, busy, _⟩
    · exact Or.inl withdrawn
    · exact Or.inr (Or.inl finished)
    · exact Or.inr (Or.inr (Or.inl live))
    · rw [idle] at busy
      cases busy

/-! ## Batches -/

/-- What a batch sends, all watchers together. -/
def dispatched (batch : WatchBatch) (watchers : List Live) : List Delivery :=
  watchers.flatMap fun live =>
    (dispatchTo batch live.watcher).2.map fun response => { number := some live.number, item := .ok response }

theorem mem_dispatched {batch : WatchBatch} {watchers : List Live} {delivery : Delivery}
    (member : delivery ∈ dispatched batch watchers) :
    Exists fun live : Live => live ∈ watchers ∧ delivery.number = some live.number := by
  rcases List.mem_flatMap.mp member with ⟨live, isLive, inside⟩
  rcases List.mem_map.mp inside with ⟨response, _, rfl⟩
  exact ⟨live, isLive, rfl⟩

theorem Attached.dispatched {batch : WatchBatch} {live : Live} {watchers : List Live}
    {creations : List Creation} {node : Node} {sent : List Delivery}
    (attached : Attached creations node sent live) (logged : node.Logged)
    (published : batch ∈ node.published) (isLive : live ∈ watchers)
    (numbers : (watchers.map Live.number).Nodup)
    (selects : live.watcher.lastRevision < batch.revision ->
      live.watcher.selects batch.stamped =
        live.watcher.between live.watcher.lastRevision batch.revision node.stamped) :
    Attached creations node (sent ++ Watch.dispatched batch watchers)
      { live with watcher := (dispatchTo batch live.watcher).1 } := by
  rcases List.append_of_mem isLive with ⟨before, after, rfl⟩
  rw [List.map_append, List.map_cons, List.nodup_append, List.nodup_cons] at numbers
  have others : forall other, other ∈ before ∨ other ∈ after -> other.number ≠ live.number := by
    intro other member same
    rcases member with early | late
    · exact numbers.2.2 other.number (List.mem_map.mpr ⟨other, early, rfl⟩) live.number
        List.mem_cons_self same
    · exact numbers.2.1.1 (same ▸ List.mem_map.mpr ⟨other, late, rfl⟩)
  have split : sent ++ Watch.dispatched batch (before ++ live :: after) =
      sent ++ Watch.dispatched batch before ++
        ((dispatchTo batch live.watcher).2.map fun response =>
          { number := some live.number, item := .ok response }) ++ Watch.dispatched batch after := by
    simp [Watch.dispatched]
  rw [split]
  have early : forall delivery, delivery ∈ Watch.dispatched batch before ->
      delivery.number ≠ some live.number := by
    intro delivery member
    rcases mem_dispatched member with ⟨other, isEarly, about⟩
    rw [about]
    exact fun same => others other (Or.inl isEarly) (Option.some.inj same)
  have late : forall delivery, delivery ∈ Watch.dispatched batch after ->
      delivery.number ≠ some live.number := by
    intro delivery member
    rcases mem_dispatched member with ⟨other, isLate, about⟩
    rw [about]
    exact fun same => others other (Or.inr isLate) (Option.some.inj same)
  have moves : forall creation received,
      Serving creation node.stamped node.store.db.revision received live.watcher ->
        Serving creation node.stamped node.store.db.revision
          (received ++ (dispatchTo batch live.watcher).2.flatMap WatchResponse.stamped)
          (dispatchTo batch live.watcher).1 := by
    intro creation received serving
    by_cases old : batch.revision ≤ live.watcher.lastRevision
    · rw [dispatchTo_old old, List.flatMap_nil, List.append_nil]
      exact serving
    · rcases dispatchTo_new (not_le.mp old) with ⟨moved, events⟩
      rw [moved, events, selects (not_le.mp old)]
      exact serving.advance logged.stamped_ordered (not_le.mp old).le (Or.inl (logged.bounded batch published))
  have first := attached.frame (List.prefix_refl _) early
  have second := first.told (fun response member => (dispatchTo_isFor batch live.watcher response member).canceled) moves
  exact second.frame (List.prefix_refl _) late

theorem dispatchTo_buffered {batch : WatchBatch} {buffer : List WatchBatch} {feed : List (Int × Event)}
    {watcher : Watcher} (buffered : Buffered feed (batch :: buffer) watcher) :
    Buffered feed buffer (dispatchTo batch watcher).1 := by
  by_cases old : batch.revision ≤ watcher.lastRevision
  · rw [dispatchTo_old old]
    exact buffered.rest (le_refl _) old
  · rw [(dispatchTo_new (not_le.mp old)).1]
    exact buffered.rest (not_le.mp old).le (le_refl _)

theorem dispatchTo_id (batch : WatchBatch) (watcher : Watcher) :
    (dispatchTo batch watcher).1.id = watcher.id := by
  by_cases old : batch.revision ≤ watcher.lastRevision
  · rw [dispatchTo_old old]
  · rw [(dispatchTo_new (not_le.mp old)).1]
    rfl

theorem Stream.Inv.receive (inv : s.Inv) (idle : s.task = .idle) : s.receive.Inv := by
  unfold Stream.receive
  by_cases lagged : s.missed > 0
  · rw [if_pos lagged]
    exact inv.beginResync idle 0 false
  · rw [if_neg lagged]
    cases unread : s.buffer with
    | nil => exact inv
    | cons batch rest =>
      have told : s.missed = 0 := Nat.eq_zero_of_not_pos lagged
      have awaits : forall live : Live, ¬s.task.Awaits live.watcher.id := by
        intro live
        rw [idle]
        exact id
      have suffix := inv.unread
      rw [unread] at suffix
      have ready : forall live, live ∈ s.watchers ->
          Buffered s.node.stamped (batch :: rest) live.watcher := by
        intro live member
        rw [← unread]
        exact inv.buffered live member told (awaits live)
      have after : forall live, live ∈ s.watchers ->
          Attached s.creations s.node (s.sent ++ dispatched batch s.watchers)
            { live with watcher := (dispatchTo batch live.watcher).1 } := by
        intro live member
        exact (inv.attached live member).dispatched inv.logged (suffix.subset (.head _)) member
          inv.numbers ((ready live member).selects_batch inv.logged suffix)
      refine ⟨inv.logged, (List.suffix_cons batch rest).trans suffix, ?_, ?_, ?_, ?_, ?_, ?_, ?_⟩
      · change ((s.watchers.map _).map _).Nodup
        rw [List.map_map]
        have same : (fun live : Live => live.watcher.id) ∘
            (fun live : Live => { live with watcher := (dispatchTo batch live.watcher).1 }) =
            fun live : Live => live.watcher.id := by
          funext live
          exact dispatchTo_id batch live.watcher
        rw [same]
        exact inv.ids
      · change ((s.watchers.map _).map _).Nodup
        rw [List.map_map]
        exact inv.numbers
      · refine inv.numbered_append fun delivery new number same => ?_
        rcases mem_dispatched new with ⟨live, isLive, about⟩
        rw [about] at same
        rw [← Option.some.inj same]
        exact (inv.attached live isLive).number_lt
      · intro live member
        rcases List.mem_map.mp member with ⟨previous, wasLive, rfl⟩
        exact after previous wasLive
      · intro live member _ _
        rcases List.mem_map.mp member with ⟨previous, wasLive, rfl⟩
        exact dispatchTo_buffered (ready previous wasLive)
      · intro live creation busy
        rw [idle] at busy
        cases busy
      · intro number below
        rcases inv.accounted number below with
          withdrawn | finished | ⟨live, isLive, same⟩ | ⟨live, creation, busy, _⟩
        · exact Or.inl withdrawn
        · refine Or.inr (Or.inl (finished.frame (List.prefix_refl _) ?_))
          intro delivery member same
          rcases mem_dispatched member with ⟨live, isLive, about⟩
          rw [about] at same
          rw [← Option.some.inj same] at finished
          exact inv.not_finished isLive finished
        · exact Or.inr (Or.inr (Or.inl ⟨_, List.mem_map.mpr ⟨live, isLive, rfl⟩, same⟩))
        · rw [idle] at busy
          cases busy

end

end NotK8s.Watch

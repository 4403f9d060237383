import NotK8s.Nodestore.Publication
import NotK8s.Watch.Stream

namespace NotK8s.Watch

open Library Nodestore

/-!
# What one watcher is sent

A response carries the events of one revision.  Read as a list of events
with their revisions, what a replay or a batch sends is what the watcher
wants of it, in its order.  The watcher's position moves to the last
revision it was shown, wanted or not.
-/

/-- The events of a response, each with the revision of the header. -/
def WatchResponse.stamped (response : WatchResponse) : List (Int × PbEvent) :=
  response.events.map fun event => (response.header, event)

/-- A published event as this watcher gets it. -/
def Watcher.onWire (watcher : Watcher) (stamped : Int × Event) : Int × PbEvent :=
  (stamped.1, eventToPb stamped.2 watcher.prevKv)

/-- What the watcher wants of a history, as it gets it. -/
def Watcher.selects (watcher : Watcher) (history : List (Int × Event)) : List (Int × PbEvent) :=
  (history.filter fun stamped => watcher.wants stamped.2).map watcher.onWire

section
variable {watcher : Watcher} {revision : Int}

@[simp] theorem Watcher.moved_lastRevision : (watcher.moved revision).lastRevision = revision := rfl

@[simp] theorem Watcher.moved_id : (watcher.moved revision).id = watcher.id := rfl

@[simp] theorem Watcher.moved_range : (watcher.moved revision).range = watcher.range := rfl

@[simp] theorem Watcher.moved_prevKv : (watcher.moved revision).prevKv = watcher.prevKv := rfl

@[simp] theorem Watcher.moved_wants (event : Event) :
    (watcher.moved revision).wants event = watcher.wants event := rfl

@[simp] theorem Watcher.moved_selects (history : List (Int × Event)) :
    (watcher.moved revision).selects history = watcher.selects history := rfl

@[simp] theorem Watcher.moved_moved (later : Int) :
    (watcher.moved revision).moved later = watcher.moved later := rfl

theorem Watcher.moved_self (watcher : Watcher) : watcher.moved watcher.lastRevision = watcher := rfl

@[simp] theorem Watcher.selects_nil (watcher : Watcher) : watcher.selects [] = [] := rfl

theorem Watcher.selects_append (watcher : Watcher) (earlier later : List (Int × Event)) :
    watcher.selects (earlier ++ later) = watcher.selects earlier ++ watcher.selects later := by
  simp [Watcher.selects]

theorem Watcher.selects_cons_wanted {stamped : Int × Event} (wanted : watcher.wants stamped.2 = true)
    (rest : List (Int × Event)) :
    watcher.selects (stamped :: rest) = watcher.onWire stamped :: watcher.selects rest := by
  simp [Watcher.selects, wanted]

theorem Watcher.selects_cons_unwanted {stamped : Int × Event} (unwanted : watcher.wants stamped.2 = false)
    (rest : List (Int × Event)) : watcher.selects (stamped :: rest) = watcher.selects rest := by
  simp [Watcher.selects, unwanted]

theorem Watcher.contains_of_wants {event : Event} (wanted : watcher.wants event = true) :
    watcher.range.contains event.kv.key = true := by
  by_contra outside
  simp [Watcher.wants, outside] at wanted

end

/-! ## The loop -/

namespace Sending
variable (loop : Sending)

/-- What was sent and what waits in the group. -/
def said : List (Int × PbEvent) :=
  loop.responses.flatMap WatchResponse.stamped ++ loop.group.map fun event => (loop.currentRevision, event)

/-- The position once the group is flushed. -/
def position : Int :=
  if loop.group = [] then loop.watcher.lastRevision else max loop.watcher.lastRevision loop.currentRevision

theorem flushed_watcher :
    loop.flushed.watcher = loop.watcher.moved (max loop.watcher.lastRevision loop.currentRevision) := rfl

theorem flushed_said : loop.flushed.said = loop.said := by
  simp [said, flushed, flush, WatchResponse.stamped]

/-- Before an event of a new revision the group is flushed. -/
def separated (revision : Int) : Sending :=
  if revision ≠ loop.currentRevision ∧ loop.group ≠ [] then loop.flushed else loop

theorem separated_watcher (revision : Int) :
    Exists fun reached : Int => (loop.separated revision).watcher = loop.watcher.moved reached := by
  by_cases changes : revision ≠ loop.currentRevision ∧ loop.group ≠ []
  · rw [separated, if_pos changes]
    exact ⟨_, loop.flushed_watcher⟩
  · rw [separated, if_neg changes]
    exact ⟨_, loop.watcher.moved_self.symm⟩

theorem separated_said (revision : Int) : (loop.separated revision).said = loop.said := by
  by_cases changes : revision ≠ loop.currentRevision ∧ loop.group ≠ []
  · rw [separated, if_pos changes, flushed_said]
  · rw [separated, if_neg changes]

theorem separated_group (revision : Int) :
    (loop.separated revision).group = [] ∨ (loop.separated revision).currentRevision = revision := by
  by_cases changes : revision ≠ loop.currentRevision ∧ loop.group ≠ []
  · rw [separated, if_pos changes]
    exact Or.inl rfl
  · rw [separated, if_neg changes]
    by_cases waiting : loop.group = []
    · exact Or.inl waiting
    · right
      by_contra differ
      exact changes ⟨fun same => differ same.symm, waiting⟩

theorem separated_position (revision : Int) :
    max (loop.separated revision).watcher.lastRevision revision = max loop.position revision := by
  by_cases changes : revision ≠ loop.currentRevision ∧ loop.group ≠ []
  · rw [separated, if_pos changes, position, if_neg changes.2]
    rfl
  · rw [separated, if_neg changes, position]
    by_cases waiting : loop.group = []
    · rw [if_pos waiting]
    · have same : revision = loop.currentRevision := by
        by_contra differ
        exact changes ⟨differ, waiting⟩
      rw [if_neg waiting, ← same, max_assoc, max_self]

theorem take_wanted {stamped : Int × Event} (wanted : loop.watcher.wants stamped.2 = true) :
    loop.take stamped =
      { loop.separated stamped.1 with
        currentRevision := stamped.1
        group := (loop.separated stamped.1).group ++
          [eventToPb stamped.2 (loop.separated stamped.1).watcher.prevKv] } := by
  rw [take, wanted]
  rfl

theorem take_unwanted {stamped : Int × Event} (unwanted : loop.watcher.wants stamped.2 = false) :
    loop.take stamped =
      { loop with watcher := loop.watcher.moved (max loop.watcher.lastRevision stamped.1) } := by
  rw [take, unwanted]
  rfl

theorem take_watcher (stamped : Int × Event) :
    Exists fun reached : Int => (loop.take stamped).watcher = loop.watcher.moved reached := by
  cases wanted : loop.watcher.wants stamped.2 with
  | true =>
    rw [take_wanted loop wanted]
    exact loop.separated_watcher stamped.1
  | false =>
    rw [take_unwanted loop wanted]
    exact ⟨_, rfl⟩

theorem take_said (stamped : Int × Event) :
    (loop.take stamped).said = loop.said ++ loop.watcher.selects [stamped] := by
  cases wanted : loop.watcher.wants stamped.2 with
  | true =>
    rcases loop.separated_watcher stamped.1 with ⟨reached, moved⟩
    rw [take_wanted loop wanted, Watcher.selects_cons_wanted wanted, ← loop.separated_said stamped.1, moved]
    rcases loop.separated_group stamped.1 with empty | same
    · simp [said, empty, Watcher.onWire]
    · simp [said, same, Watcher.onWire]
  | false =>
    rw [take_unwanted loop wanted, Watcher.selects_cons_unwanted wanted]
    simp [said]

theorem take_position (stamped : Int × Event) :
    (loop.take stamped).position = max loop.position stamped.1 := by
  cases wanted : loop.watcher.wants stamped.2 with
  | true =>
    rw [take_wanted loop wanted, ← loop.separated_position stamped.1]
    exact if_neg (List.append_ne_nil_of_right_ne_nil _ (List.cons_ne_nil _ _))
  | false =>
    rw [take_unwanted loop wanted]
    by_cases waiting : loop.group = []
    · simp [position, waiting]
    · simp [position, waiting, max_right_comm]

end Sending

/-- The highest revision of a history, or `last` where that is higher. -/
def reached (last : Int) (history : List (Int × Event)) : Int :=
  history.foldl (fun position stamped => max position stamped.1) last

theorem le_reached (last : Int) (history : List (Int × Event)) :
    last ≤ reached last history ∧ forall stamped, stamped ∈ history -> stamped.1 ≤ reached last history := by
  induction history generalizing last with
  | nil => exact ⟨le_refl last, (fun _ no => nomatch no)⟩
  | cons head rest ih =>
    have later := ih (max last head.1)
    refine ⟨(le_max_left _ _).trans later.1, ?_⟩
    intro stamped member
    rcases List.mem_cons.mp member with rfl | inRest
    · exact (le_max_right _ _).trans later.1
    · exact later.2 stamped inRest

theorem reached_le {last bound : Int} {history : List (Int × Event)} (low : last ≤ bound)
    (bounded : forall stamped, stamped ∈ history -> stamped.1 ≤ bound) : reached last history ≤ bound := by
  induction history generalizing last with
  | nil => exact low
  | cons head rest ih =>
    apply ih (max_le low (bounded head (.head _)))
    exact fun stamped member => bounded stamped (.tail _ member)

theorem Sending.foldl_take (loop : Sending) (history : List (Int × Event)) :
    (Exists fun revision : Int => (history.foldl Sending.take loop).watcher = loop.watcher.moved revision) ∧
      (history.foldl Sending.take loop).said = loop.said ++ loop.watcher.selects history ∧
      (history.foldl Sending.take loop).position = reached loop.position history := by
  induction history generalizing loop with
  | nil => exact ⟨⟨_, loop.watcher.moved_self.symm⟩, (List.append_nil _).symm, rfl⟩
  | cons head rest ih =>
    rcases loop.take_watcher head with ⟨revision, moved⟩
    rcases ih (loop.take head) with ⟨⟨later, watcher⟩, said, position⟩
    rw [moved] at watcher said
    refine ⟨⟨later, watcher⟩, ?_, ?_⟩
    · rw [List.foldl_cons, said, loop.take_said, Watcher.moved_selects, List.append_assoc,
        ← Watcher.selects_append]
      rfl
    · rw [List.foldl_cons, position, loop.take_position]
      rfl

/-- A replay sends what the watcher wants of it, and moves it to the last
revision it read. -/
theorem sendEvents_spec (watcher : Watcher) (history : List (Int × Event)) :
    (sendEvents watcher history).1 = watcher.moved (reached watcher.lastRevision history) ∧
      (sendEvents watcher history).2.flatMap WatchResponse.stamped = watcher.selects history := by
  rcases Sending.foldl_take { watcher := watcher, currentRevision := 0, group := [], responses := [] } history with
    ⟨⟨revision, moved⟩, said, position⟩
  generalize ended : history.foldl Sending.take
    { watcher := watcher, currentRevision := 0, group := [], responses := [] } = loop at moved said position
  have before : Sending.said { watcher := watcher, currentRevision := 0, group := [], responses := [] } = [] := rfl
  rw [before, List.nil_append] at said
  change loop.position = reached watcher.lastRevision history at position
  rw [sendEvents, ended]
  by_cases waiting : loop.group = []
  · rw [Sending.position, if_pos waiting] at position
    rw [Sending.said, waiting, List.map_nil, List.append_nil] at said
    simp only [waiting, ne_eq, not_true_eq_false, if_false]
    rw [← position, moved]
    exact ⟨rfl, said⟩
  · rw [Sending.position, if_neg waiting] at position
    simp only [ne_eq, waiting, not_false_eq_true, if_true]
    rw [loop.flushed_watcher, position, moved]
    refine ⟨rfl, ?_⟩
    rw [← said, ← loop.flushed_said]
    exact (List.append_nil _).symm

/-! ## What a watcher is sent -/

/-- The response carries this watcher's id and events it wants. -/
structure WatchResponse.IsFor (response : WatchResponse) (watcher : Watcher) : Prop where
  watchId : response.watchId = watcher.id
  canceled : response.canceled = false
  inRange : forall event, event ∈ response.events -> Exists fun kv : KeyValue =>
    event.kv = some kv ∧ watcher.range.contains kv.key = true

/-- Everything in the loop is for the watcher it started with. -/
structure Sending.SendsTo (loop : Sending) (watcher : Watcher) : Prop where
  id : loop.watcher.id = watcher.id
  range : loop.watcher.range = watcher.range
  gathered : forall event, event ∈ loop.group -> Exists fun kv : KeyValue =>
    event.kv = some kv ∧ watcher.range.contains kv.key = true
  responses : forall response, response ∈ loop.responses -> response.IsFor watcher

section
variable {watcher : Watcher} {loop : Sending}

theorem Sending.SendsTo.flushed (sends : loop.SendsTo watcher) : loop.flushed.SendsTo watcher where
  id := sends.id
  range := sends.range
  gathered := fun _ no => nomatch no
  responses := by
    intro response member
    rcases List.mem_append.mp member with earlier | last
    · exact sends.responses response earlier
    · rw [List.mem_singleton.mp last]
      exact ⟨sends.id, rfl, sends.gathered⟩

theorem Sending.SendsTo.take (sends : loop.SendsTo watcher) (stamped : Int × Event) :
    (loop.take stamped).SendsTo watcher := by
  cases wanted : loop.watcher.wants stamped.2 with
  | false =>
    rw [take_unwanted loop wanted]
    exact ⟨sends.id, sends.range, sends.gathered, sends.responses⟩
  | true =>
    have inside := Watcher.contains_of_wants wanted
    rw [sends.range] at inside
    have separated : (loop.separated stamped.1).SendsTo watcher := by
      unfold separated
      split_ifs
      · exact sends.flushed
      · exact sends
    rw [take_wanted loop wanted]
    refine ⟨separated.id, separated.range, ?_, separated.responses⟩
    intro event member
    rcases List.mem_append.mp member with earlier | last
    · exact separated.gathered event earlier
    · rw [List.mem_singleton.mp last]
      exact ⟨stamped.2.kv, rfl, inside⟩

theorem Sending.SendsTo.foldl_take (sends : loop.SendsTo watcher) (history : List (Int × Event)) :
    (history.foldl Sending.take loop).SendsTo watcher :=
  List.foldlRecOn (motive := fun loop => loop.SendsTo watcher) history Sending.take sends
    fun _ sends stamped _ => sends.take stamped

theorem sendEvents_isFor (watcher : Watcher) (history : List (Int × Event)) (response : WatchResponse)
    (member : response ∈ (sendEvents watcher history).2) : response.IsFor watcher := by
  have initial : Sending.SendsTo { watcher := watcher, currentRevision := 0, group := [], responses := [] } watcher :=
    ⟨rfl, rfl, (fun _ no => nomatch no), (fun _ no => nomatch no)⟩
  have sends := initial.foldl_take history
  rw [sendEvents] at member
  split at member
  · exact sends.flushed.responses response member
  · exact sends.responses response member

theorem dispatchTo_isFor (batch : WatchBatch) (watcher : Watcher) (response : WatchResponse)
    (member : response ∈ (dispatchTo batch watcher).2) : response.IsFor watcher := by
  rw [dispatchTo] at member
  split at member
  · cases member
  · dsimp only at member
    split at member
    · cases member
    · rw [List.mem_singleton.mp member]
      refine ⟨rfl, rfl, ?_⟩
      intro event sent
      rcases List.mem_map.mp sent with ⟨original, selected, rfl⟩
      exact ⟨original.kv, rfl, Watcher.contains_of_wants (List.mem_filter.mp selected).2⟩

theorem dispatchTo_range (batch : WatchBatch) (watcher : Watcher) :
    (dispatchTo batch watcher).1.range = watcher.range := by
  rw [dispatchTo]
  split_ifs
  · rfl
  · dsimp only
    split_ifs <;> rfl

end

/-! ## One response per revision -/

/-- A response that carries events and nothing else. -/
structure WatchResponse.Carries (response : WatchResponse) : Prop where
  events : response.events ≠ []
  created : response.created = false
  canceled : response.canceled = false

/-- Responses that carry events, each of a later revision than the one
before. -/
structure OnePerRevision (responses : List WatchResponse) : Prop where
  carry : forall response, response ∈ responses -> response.Carries
  increasing : responses.Pairwise fun first second => first.header < second.header

theorem OnePerRevision.nil : OnePerRevision [] where
  carry := fun _ no => nomatch no
  increasing := List.Pairwise.nil

theorem OnePerRevision.concat {responses : List WatchResponse} {last : WatchResponse}
    (separate : OnePerRevision responses) (carries : last.Carries)
    (below : forall response, response ∈ responses -> response.header < last.header) :
    OnePerRevision (responses ++ [last]) := by
  constructor
  · intro response member
    rcases List.mem_append.mp member with earlier | isLast
    · exact separate.carry response earlier
    · rw [List.mem_singleton.mp isLast]
      exact carries
  · apply List.pairwise_append.mpr
    refine ⟨separate.increasing, List.pairwise_singleton _ _, ?_⟩
    intro response member other isLast
    rw [List.mem_singleton.mp isLast]
    exact below response member

/-- The loop has sent the revisions before the one it is gathering. -/
structure Sending.Grouped (loop : Sending) : Prop where
  separate : OnePerRevision loop.responses
  below : forall response, response ∈ loop.responses -> response.header < loop.currentRevision
  waiting : loop.group = [] -> loop.responses = []

theorem Sending.Grouped.flushed {loop : Sending} (grouped : loop.Grouped) (waits : loop.group ≠ []) :
    OnePerRevision loop.flushed.responses :=
  grouped.separate.concat ⟨waits, rfl, rfl⟩ grouped.below

theorem Sending.Grouped.take {loop : Sending} (grouped : loop.Grouped) {stamped : Int × Event}
    (later : loop.group ≠ [] -> loop.currentRevision ≤ stamped.1) : (loop.take stamped).Grouped := by
  cases wanted : loop.watcher.wants stamped.2 with
  | false =>
    rw [take_unwanted loop wanted]
    exact ⟨grouped.separate, grouped.below, grouped.waiting⟩
  | true =>
    have gathers : forall event : PbEvent, (loop.separated stamped.1).group ++ [event] ≠ [] := fun event =>
      List.append_ne_nil_of_right_ne_nil _ (List.cons_ne_nil _ _)
    rw [take_wanted loop wanted]
    by_cases changes : stamped.1 ≠ loop.currentRevision ∧ loop.group ≠ []
    · refine ⟨?_, ?_, fun empty => absurd empty (gathers _)⟩
      · simp only [separated, if_pos changes]
        exact grouped.flushed changes.2
      · simp only [separated, if_pos changes]
        intro response member
        have order := lt_of_le_of_ne (later changes.2) changes.1.symm
        rcases List.mem_append.mp member with earlier | last
        · exact (grouped.below response earlier).trans order
        · rw [List.mem_singleton.mp last]
          exact order
    · refine ⟨?_, ?_, fun empty => absurd empty (gathers _)⟩
      · simp only [separated, if_neg changes]
        exact grouped.separate
      · simp only [separated, if_neg changes]
        by_cases same : stamped.1 = loop.currentRevision
        · rw [same]
          exact grouped.below
        · have none := grouped.waiting (by_contra fun waits => changes ⟨same, waits⟩)
          rw [none]
          exact fun _ no => nomatch no

theorem Sending.Grouped.foldl_take {loop : Sending} (grouped : loop.Grouped) {history : List (Int × Event)}
    (sorted : history.Pairwise fun first second => first.1 ≤ second.1)
    (later : loop.group ≠ [] -> forall stamped, stamped ∈ history -> loop.currentRevision ≤ stamped.1) :
    (history.foldl Sending.take loop).Grouped := by
  induction history generalizing loop with
  | nil => exact grouped
  | cons head rest ih =>
    have parts := List.pairwise_cons.mp sorted
    refine ih (grouped.take fun waits => later waits head (.head _)) parts.2 ?_
    intro waits stamped member
    cases wanted : loop.watcher.wants head.2 with
    | true =>
      rw [take_wanted loop wanted]
      exact parts.1 stamped member
    | false =>
      rw [take_unwanted loop wanted] at waits ⊢
      exact later waits stamped (.tail _ member)

theorem sendEvents_onePerRevision (watcher : Watcher) {history : List (Int × Event)}
    (sorted : history.Pairwise fun first second => first.1 ≤ second.1) :
    OnePerRevision (sendEvents watcher history).2 := by
  have initial : Sending.Grouped { watcher := watcher, currentRevision := 0, group := [], responses := [] } :=
    ⟨.nil, (fun _ no => nomatch no), fun _ => rfl⟩
  have grouped := initial.foldl_take sorted fun waits => absurd rfl waits
  rw [sendEvents]
  split_ifs with waits
  · exact grouped.flushed waits
  · exact grouped.separate

/-! ## Batches -/

theorem dispatchTo_onePerRevision (batch : WatchBatch) (watcher : Watcher) :
    OnePerRevision (dispatchTo batch watcher).2 := by
  rw [dispatchTo]
  split_ifs with old
  · exact .nil
  · dsimp only
    split_ifs with silent
    · exact .nil
    · exact OnePerRevision.nil.concat ⟨silent, rfl, rfl⟩ (fun _ no => nomatch no)

theorem dispatchTo_old {batch : WatchBatch} {watcher : Watcher} (old : batch.revision ≤ watcher.lastRevision) :
    dispatchTo batch watcher = (watcher, []) :=
  if_pos old

/-- Any other batch moves the watcher to its revision and sends what it
wants of it. -/
theorem dispatchTo_new {batch : WatchBatch} {watcher : Watcher} (new : watcher.lastRevision < batch.revision) :
    (dispatchTo batch watcher).1 = watcher.moved batch.revision ∧
      (dispatchTo batch watcher).2.flatMap WatchResponse.stamped = watcher.selects batch.stamped := by
  have selected : watcher.selects batch.stamped =
      ((batch.events.filter watcher.wants).map fun event => eventToPb event watcher.prevKv).map
        fun event => (batch.revision, event) := by
    simp [Watcher.selects, WatchBatch.stamped, List.filter_map, Function.comp_def, Watcher.onWire]
  rw [selected, dispatchTo, if_neg (not_le.mpr new)]
  by_cases silent : ((batch.events.filter watcher.wants).map fun event => eventToPb event watcher.prevKv) = []
  · simp [silent]
  · simp [silent, flush, WatchResponse.stamped]

end NotK8s.Watch

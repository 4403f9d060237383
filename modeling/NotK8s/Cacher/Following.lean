import NotK8s.Cacher.Contents
import NotK8s.Watch.Delivery

namespace NotK8s.Cacher

open Library Nodestore Watch

/-!
# Following a watch stream

What a watch stream sends leads its reader from one revision to another: a
response with events carries everything of the range that was published
since the reader's revision, and a progress response skips nothing.  After a
cancellation or an error the reader lists again, and what is sent then does
not matter.  A cache that mirrors the range at its revision mirrors it again
after each response.
-/

/-- A published event on the wire, without previous values. -/
def wire (stamped : Int × Event) : Int × PbEvent :=
  (stamped.1, eventToPb stamped.2 false)

/-- What is sent leads a reader at `p` to where the sender is. -/
inductive Follows (feed : List (Int × Event)) (range : KeyRange) (top : Int) : Int -> List Delivery -> Int -> Prop where
  | idle {p q : Int} (order : p ≤ q) (reached : q ≤ top) (quiet : publishedIn range p q feed = []) :
      Follows feed range top p [] q
  | created {p q : Int} {number : Option Nat} {response : WatchResponse} {rest : List Delivery}
      (acknowledges : response.created = true) (uncanceled : response.canceled = false)
      (follows : Follows feed range top p rest q) :
      Follows feed range top p ({ number := number, item := .ok response } :: rest) q
  | events {p q : Int} {number : Option Nat} {response : WatchResponse} {rest : List Delivery}
      (carries : response.Carries) (order : p < response.header) (reached : response.header ≤ top)
      (exact : response.stamped = (publishedIn range p response.header feed).map wire)
      (follows : Follows feed range top response.header rest q) :
      Follows feed range top p ({ number := number, item := .ok response } :: rest) q
  | progress {p q header : Int} {number : Option Nat} {rest : List Delivery} (reached : header ≤ top)
      (quiet : publishedIn range p header feed = [])
      (follows : Follows feed range top (max p header) rest q) :
      Follows feed range top p ({ number := number, item := .ok { header := header, watchId := -1 } } :: rest) q
  | canceled {p q : Int} {number : Option Nat} {response : WatchResponse} {rest : List Delivery}
      (ends : response.canceled = true) :
      Follows feed range top p ({ number := number, item := .ok response } :: rest) q
  | failed {p q : Int} {number : Option Nat} {refusal : Error} {rest : List Delivery} :
      Follows feed range top p ({ number := number, item := .error refusal } :: rest) q

section
variable {feed later : List (Int × Event)} {range : KeyRange} {top top' p q r : Int} {sent more : List Delivery}

theorem publishedIn_join (sorted : feed.Pairwise fun first second => first.1 ≤ second.1) (low : p ≤ q)
    (high : q ≤ r) : publishedIn range p q feed ++ publishedIn range q r feed = publishedIn range p r feed :=
  window_join sorted low high

theorem publishedIn_empty (order : q ≤ p) : publishedIn range p q feed = [] :=
  window_empty order

theorem publishedIn_part (quiet : publishedIn range p r feed = []) {p' r' : Int} (low : p ≤ p') (high : r' ≤ r) :
    publishedIn range p' r' feed = [] := by
  apply List.eq_nil_iff_forall_not_mem.mpr
  intro stamped member
  rcases mem_window.mp member with ⟨published, ⟨above, below⟩, inside⟩
  have found : stamped ∈ publishedIn range p r feed :=
    mem_window.mpr ⟨published, ⟨low.trans_lt above, below.trans high⟩, inside⟩
  rw [quiet] at found
  cases found

theorem Follows.back (sorted : feed.Pairwise fun first second => first.1 ≤ second.1) (order : p ≤ q)
    (quiet : publishedIn range p q feed = []) (follows : Follows feed range top q sent r) :
    Follows feed range top p sent r := by
  induction follows generalizing p with
  | idle further reached silent =>
    refine .idle (order.trans further) reached ?_
    rw [← publishedIn_join sorted order further, quiet, silent]
    rfl
  | created acknowledges uncanceled _ ih =>
    exact .created acknowledges uncanceled (ih order quiet)
  | events carries above reached exact follows _ =>
    refine .events carries (order.trans_lt above) reached ?_ follows
    rw [exact, ← publishedIn_join sorted order above.le, quiet]
    rfl
  | @progress q _ header _ _ reached silent _ ih =>
    have skipped : publishedIn range p (max q header) feed = [] := by
      rw [← publishedIn_join sorted order (le_max_left q header), quiet, List.nil_append]
      rcases le_total header q with behind | ahead
      · rw [max_eq_left behind]
        exact publishedIn_empty (le_refl q)
      · rw [max_eq_right ahead]
        exact silent
    refine .progress reached (publishedIn_part skipped (le_refl p) (le_max_right q header)) ?_
    exact ih (max_le_max_right header order)
      (publishedIn_part skipped (le_max_left p header) (le_refl _))
  | canceled ends => exact .canceled ends
  | failed => exact .failed

theorem Follows.append (sorted : feed.Pairwise fun first second => first.1 ≤ second.1)
    (follows : Follows feed range top p sent q) (continues : Follows feed range top q more r) :
    Follows feed range top p (sent ++ more) r := by
  induction follows with
  | idle order _ quiet => exact continues.back sorted order quiet
  | created acknowledges uncanceled _ ih =>
    exact .created acknowledges uncanceled (ih continues)
  | events carries order reached exact _ ih =>
    exact .events carries order reached exact (ih continues)
  | progress reached quiet _ ih => exact .progress reached quiet (ih continues)
  | canceled ends => exact .canceled ends
  | failed => exact .failed

theorem Follows.published (grows : top ≤ top') (above : forall stamped, stamped ∈ later -> top < stamped.1)
    (follows : Follows feed range top p sent q) : Follows (feed ++ later) range top' p sent q := by
  have unchanged : forall lower upper : Int, upper ≤ top ->
      publishedIn range lower upper (feed ++ later) = publishedIn range lower upper feed := fun _ _ reached =>
    window_append_above fun stamped member => reached.trans_lt (above stamped member)
  induction follows with
  | idle order reached quiet => exact .idle order (reached.trans grows) ((unchanged _ _ reached).trans quiet)
  | created acknowledges uncanceled _ ih =>
    exact .created acknowledges uncanceled ih
  | events carries order reached exact _ ih =>
    refine .events carries order (reached.trans grows) ?_ ih
    rw [unchanged _ _ reached]
    exact exact
  | progress reached quiet _ ih =>
    exact .progress (reached.trans grows) ((unchanged _ _ reached).trans quiet) ih
  | canceled ends => exact .canceled ends
  | failed => exact .failed

theorem Follows.of_onePerRevision (sorted : feed.Pairwise fun first second => first.1 ≤ second.1)
    (number : Option Nat) {responses : List WatchResponse} (separate : OnePerRevision responses)
    (order : p ≤ q) (reached : q ≤ top)
    (whole : responses.flatMap WatchResponse.stamped = (publishedIn range p q feed).map wire) :
    Follows feed range top p (responses.map fun response => { number := number, item := .ok response }) q := by
  induction responses generalizing p with
  | nil => exact .idle order reached (List.map_eq_nil_iff.mp whole.symm)
  | cons response rest ih =>
    have carries := separate.carry response (.head _)
    have increasing := List.pairwise_cons.mp separate.increasing
    rw [List.flatMap_cons] at whole
    have within : p < response.header ∧ response.header ≤ q := by
      rcases List.exists_mem_of_ne_nil _ carries.events with ⟨event, member⟩
      have sent : (response.header, event) ∈ (publishedIn range p q feed).map wire := by
        rw [← whole]
        exact List.mem_append_left _ (List.mem_map_of_mem member)
      rcases List.mem_map.mp sent with ⟨stamped, published, same⟩
      have dated : stamped.1 = response.header := congrArg Prod.fst same
      rw [← dated]
      exact (mem_window.mp published).2.1
    -- The response is the part of the interval up to its revision.
    have parts : response.stamped = (publishedIn range p response.header feed).map wire ∧
        rest.flatMap WatchResponse.stamped = (publishedIn range response.header q feed).map wire := by
      rw [← publishedIn_join sorted within.1.le within.2, List.map_append] at whole
      have first : forall event, event ∈ response.stamped -> event.1 ≤ response.header := by
        intro event member
        rcases List.mem_map.mp member with ⟨_, _, rfl⟩
        exact le_refl _
      have second : forall event, event ∈ rest.flatMap WatchResponse.stamped -> response.header < event.1 := by
        intro event member
        rcases List.mem_flatMap.mp member with ⟨other, listed, inside⟩
        rcases List.mem_map.mp inside with ⟨_, _, rfl⟩
        exact increasing.1 other listed
      have lower : forall event, event ∈ (publishedIn range p response.header feed).map wire ->
          event.1 ≤ response.header := by
        intro event member
        rcases List.mem_map.mp member with ⟨stamped, published, rfl⟩
        exact (mem_window.mp published).2.1.2
      have upper : forall event, event ∈ (publishedIn range response.header q feed).map wire ->
          response.header < event.1 := by
        intro event member
        rcases List.mem_map.mp member with ⟨stamped, published, rfl⟩
        exact (mem_window.mp published).2.1.1
      exact append_inj_of_cut (fun event : Int × PbEvent => decide (event.1 ≤ response.header)) whole
        (fun event member => decide_eq_true (first event member))
        (fun event member => decide_eq_true (lower event member))
        (fun event member => decide_eq_false (not_le.mpr (second event member)))
        (fun event member => decide_eq_false (not_le.mpr (upper event member)))
    refine .events carries within.1 (within.2.trans reached) parts.1 ?_
    refine ih ⟨?_, increasing.2⟩ within.2 parts.2
    exact fun other listed => separate.carry other (.tail _ listed)

end

/-! ## The cache -/

/-- An event as it was told, without the value that a deletion takes from
the cache. -/
def WatchEvent.bare (event : WatchEvent) : WatchEvent :=
  { event with value := if event.kind = .deleted then [] else event.value }

@[simp] theorem bare_told (event : Event) : (told event).bare = told event := by
  unfold told WatchEvent.bare
  split_ifs <;> simp_all

namespace WatchCache

/-- The events of objects that were broadcast, as they were told. -/
def delivered (c : WatchCache) : List WatchEvent :=
  (c.events.filter fun event => decide (event.kind ≠ .bookmark)).map WatchEvent.bare

variable {c : WatchCache}

@[simp] theorem outgoing_bare (c : WatchCache) (incoming : WatchEvent) :
    (c.outgoing incoming).bare = incoming.bare := by
  unfold outgoing WatchEvent.bare
  split_ifs <;> simp_all

@[simp] theorem outgoing_applyTo (c : WatchCache) (incoming : WatchEvent) (items : Items) :
    (c.outgoing incoming).applyTo items = incoming.applyTo items := by
  unfold outgoing WatchEvent.applyTo
  split_ifs with deletes
  · simp [deletes]
  · rfl

theorem applyBatch_replayed (batch : List WatchEvent) : (c.applyBatch batch).items = replayed c.items batch := by
  induction batch generalizing c with
  | nil => rfl
  | cons incoming rest ih =>
    have tail := @ih (c.apply incoming)
    rw [apply_items, outgoing_applyTo] at tail
    exact tail

theorem applyBatch_delivered {batch : List WatchEvent}
    (objects : forall incoming, incoming ∈ batch -> incoming.kind ≠ .bookmark) :
    (c.applyBatch batch).delivered = c.delivered ++ batch.map WatchEvent.bare := by
  induction batch generalizing c with
  | nil => exact (List.append_nil _).symm
  | cons incoming rest ih =>
    have tail := @ih (c.apply incoming) fun other listed =>
      objects other (.tail _ listed)
    have head := objects incoming (.head _)
    change ((c.apply incoming).applyBatch rest).delivered = _
    rw [tail]
    simp [delivered, head]

theorem applyBatch_last {batch : List WatchEvent} {revision : Int} (some : batch ≠ [])
    (dated : forall incoming, incoming ∈ batch -> incoming.revision = revision) :
    (c.applyBatch batch).revision = revision := by
  induction batch generalizing c with
  | nil => exact absurd rfl some
  | cons incoming rest ih =>
    cases rest with
    | nil => exact apply_revision.trans (dated incoming (.head _))
    | cons next others =>
      apply ih (List.cons_ne_nil _ _)
      exact fun other listed => dated other (.tail _ listed)

end WatchCache

/-- A cache that was seeded from a list mirrors the range at its revision,
and has told its subscribers of everything since the list. -/
structure Mirrors (feed : List (Int × Event)) (range : KeyRange) (listedAt : Int) (c : WatchCache) : Prop where
  since : listedAt ≤ c.revision
  items : c.items = contents (eventsUpTo c.revision feed) range
  delivered : c.delivered = (publishedIn range listedAt c.revision feed).map fun stamped => told stamped.2

section
variable {feed later : List (Int × Event)} {range : KeyRange} {listedAt : Int} {c : WatchCache}

theorem Mirrors.published (mirrors : Mirrors feed range listedAt c)
    (above : forall stamped, stamped ∈ later -> c.revision < stamped.1) :
    Mirrors (feed ++ later) range listedAt c := by
  refine ⟨mirrors.since, ?_, ?_⟩
  · have none : eventsUpTo c.revision later = [] :=
      List.filter_eq_nil_iff.mpr fun stamped member => by simpa using above stamped member
    rw [eventsUpTo_append, none, List.append_nil]
    exact mirrors.items
  · rw [mirrors.delivered, publishedIn, publishedIn, window_append_above above]

theorem Mirrors.listed (initial : List (Bytes × CacheEntry)) (revision : Int) (historyLimit : Nat)
    (exact : SortedMap.ofList initial = contents (eventsUpTo revision feed) range) :
    Mirrors feed range revision (.new initial revision historyLimit) := by
  refine ⟨le_refl _, exact, ?_⟩
  change [] = List.map _ (publishedIn range revision revision feed)
  rw [publishedIn_empty (le_refl revision)]
  rfl

theorem applyWatchResponse_created {response : WatchResponse} (acknowledges : response.created = true) :
    c.applyWatchResponse response = c := by
  unfold WatchCache.applyWatchResponse decodeApplies
  rw [acknowledges]
  rfl

theorem applyWatchResponse_canceled {response : WatchResponse} (ends : response.canceled = true) :
    c.applyWatchResponse response = c := by
  unfold WatchCache.applyWatchResponse decodeApplies
  rw [ends, Bool.or_true]
  rfl

/-- A response with everything that was published since the cache's
revision. -/
theorem Mirrors.events (sorted : feed.Pairwise fun first second => first.1 ≤ second.1) (dated : Dated feed)
    (mirrors : Mirrors feed range listedAt c) {response : WatchResponse} (carries : response.Carries)
    (order : c.revision < response.header)
    (exact : response.stamped = (publishedIn range c.revision response.header feed).map wire) :
    (c.applyWatchResponse response).revision = response.header ∧
      Mirrors feed range listedAt (c.applyWatchResponse response) := by
  generalize told' : (publishedIn range c.revision response.header feed).map (fun stamped => told stamped.2) = batch
  have decoded : response.events.filterMap decodeEvent = batch := by
    have sent : response.events = (publishedIn range c.revision response.header feed).map
        fun stamped => eventToPb stamped.2 false := by
      have second := congrArg (List.map Prod.snd) exact
      rw [WatchResponse.stamped, List.map_map, List.map_map] at second
      simpa [Function.comp_def, wire] using second
    rw [sent, List.filterMap_map, ← told']
    change List.filterMap (some ∘ fun stamped : Int × Event => told stamped.2) _ = _
    rw [List.filterMap_eq_map]
  have revisions : forall incoming, incoming ∈ batch -> incoming.revision = response.header := by
    intro incoming member
    rw [← told'] at member
    rcases List.mem_map.mp member with ⟨stamped, published, rfl⟩
    have named : wire stamped ∈ response.stamped := by
      rw [exact]
      exact List.mem_map_of_mem published
    rcases List.mem_map.mp named with ⟨_, _, same⟩
    rw [told_revision, dated stamped (mem_window.mp published).1]
    exact (congrArg Prod.fst same).symm
  have applies : decodeApplies response c.revision = batch := by
    have kept : batch.filter (fun event => decide (c.revision < event.revision)) = batch :=
      List.filter_eq_self.mpr fun incoming member => by
        rw [revisions incoming member]
        exact decide_eq_true order
    unfold decodeApplies
    rw [carries.created, carries.canceled, if_neg carries.events, decoded, kept]
    rfl
  have some : batch ≠ [] := by
    intro none
    have nothing : response.stamped = [] := by
      rw [exact, List.map_eq_nil_iff.mp (told'.trans none)]
      rfl
    exact carries.events (List.map_eq_nil_iff.mp nothing)
  have objects : forall incoming, incoming ∈ batch -> incoming.kind ≠ .bookmark := by
    intro incoming member
    rw [← told'] at member
    rcases List.mem_map.mp member with ⟨stamped, _, rfl⟩
    exact told_kind_ne_bookmark stamped.2
  have bare : batch.map WatchEvent.bare = batch := by
    rw [← told', List.map_map]
    exact List.map_congr_left fun stamped _ => bare_told stamped.2
  have revision := @WatchCache.applyBatch_last c _ _ some revisions
  unfold WatchCache.applyWatchResponse
  rw [applies]
  refine ⟨revision, ?_, ?_, ?_⟩
  · rw [revision]
    exact mirrors.since.trans order.le
  · rw [revision, WatchCache.applyBatch_replayed, mirrors.items, ← told',
      replayed_publishedIn sorted dated order.le]
  · rw [revision, WatchCache.applyBatch_delivered objects, bare, mirrors.delivered, ← told', ← List.map_append,
      publishedIn_join sorted mirrors.since order.le]

theorem Mirrors.progress (sorted : feed.Pairwise fun first second => first.1 ≤ second.1) (dated : Dated feed)
    (mirrors : Mirrors feed range listedAt c) {header : Int}
    (quiet : publishedIn range c.revision header feed = []) :
    (c.applyWatchResponse { header := header, watchId := -1 }).revision = max c.revision header ∧
      Mirrors feed range listedAt (c.applyWatchResponse { header := header, watchId := -1 }) := by
  unfold WatchCache.applyWatchResponse decodeApplies
  by_cases ahead : c.revision < header
  · simp only [ahead, Bool.or_self, Bool.false_eq_true, if_false, if_true, and_self]
    generalize mark : ({ kind := .bookmark, key := [], value := [], revision := header } : WatchEvent) = bookmark
    have revision : (c.applyBatch [bookmark]).revision = header := by
      rw [← mark]
      exact WatchCache.apply_revision
    refine ⟨revision.trans (max_eq_right ahead.le).symm, ?_, ?_, ?_⟩
    · rw [revision]
      exact mirrors.since.trans ahead.le
    · rw [revision, contents_quiet sorted dated ahead.le quiet, ← mirrors.items, ← mark]
      exact WatchCache.applyBatch_replayed _
    · have silent : (c.applyBatch [bookmark]).delivered = c.delivered := by
        change (c.apply bookmark).delivered = _
        rw [WatchCache.delivered, WatchCache.delivered, WatchCache.apply_events, ← mark]
        simp
      rw [revision, silent, mirrors.delivered, ← publishedIn_join sorted mirrors.since ahead.le, quiet,
        List.append_nil]
  · simp only [ahead, Bool.or_self, Bool.false_eq_true, if_false, if_true, and_false]
    exact ⟨(max_eq_left (not_lt.mp ahead)).symm, mirrors⟩

end

end NotK8s.Cacher

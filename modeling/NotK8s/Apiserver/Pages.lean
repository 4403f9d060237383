import NotK8s.Apiserver.Lists

namespace NotK8s.Apiserver

open Library Nodestore Cacher

/-!
# What a list may show, and what its pages add up to

A token names the key a page starts from, and only the end of the range is
the request's own, so a page may show what is stored between the token's key
and the request's prefix.  Tokens that the server gave out start within the
prefix: a client that follows them gets the objects of the first page's
revision, each once and in key order, whatever is written in the meantime.
-/

section
variable {Object : Type} {decode : Bytes -> CacheEntry -> Option Object} {selects : Object -> Bool}
  {first second : List (Bytes × CacheEntry)} {items later : List (ListItem Object)}

theorem listItems_cons {key : Bytes} {entry : CacheEntry} :
    listItems decode selects ((key, entry) :: first) = .ok items <->
      Exists fun object => decode key entry = some object ∧ Exists fun rest =>
        listItems decode selects first = .ok rest ∧
          items = if selects object then { key := key, object := object } :: rest else rest := by
  rw [listItems]
  cases decode key entry with
  | none => exact iff_of_false nofun fun ⟨_, impossible, _⟩ => nomatch impossible
  | some object =>
    constructor
    · intro ok
      cases tail : listItems decode selects first with
      | error failure =>
        rw [tail] at ok
        cases ok
      | ok rest =>
        rw [tail] at ok
        exact ⟨object, rfl, rest, rfl, (Except.ok.inj ok).symm⟩
    · rintro ⟨object', same, rest, tail, whole⟩
      rw [tail, whole, Option.some.inj same]
      rfl

theorem listItems_keys (ok : listItems decode selects first = .ok items) {item : ListItem Object}
    (member : item ∈ items) : Exists fun entry => entry ∈ first ∧ entry.1 = item.key := by
  induction first generalizing items with
  | nil =>
    rw [← Except.ok.inj ok] at member
    cases member
  | cons entry rest ih =>
    rcases listItems_cons.mp ok with ⟨object, _, others, tail, whole⟩
    rw [whole] at member
    by_cases selected : selects object = true
    · rw [if_pos selected] at member
      rcases List.mem_cons.mp member with same | other
      · exact ⟨entry, .head _, by rw [same]⟩
      · rcases ih tail other with ⟨found, listed, same⟩
        exact ⟨found, .tail _ listed, same⟩
    · rw [if_neg selected] at member
      rcases ih tail member with ⟨found, listed, same⟩
      exact ⟨found, .tail _ listed, same⟩

theorem listItems_append (ok : listItems decode selects first = .ok items)
    (okLater : listItems decode selects second = .ok later) :
    listItems decode selects (first ++ second) = .ok (items ++ later) := by
  induction first generalizing items with
  | nil =>
    rw [← Except.ok.inj ok]
    exact okLater
  | cons entry rest ih =>
    rcases listItems_cons.mp ok with ⟨object, decoded, others, tail, whole⟩
    refine listItems_cons.mpr ⟨object, decoded, others ++ later, ih tail, ?_⟩
    rw [whole]
    split_ifs <;> rfl

/-- Every entry as it is. -/
def rawItem (entry : Bytes × CacheEntry) : ListItem CacheEntry where
  key := entry.1
  object := entry.2

theorem listItems_raw (entries : List (Bytes × CacheEntry)) :
    listItems (fun _ entry => some entry) (fun _ => true) entries = .ok (entries.map rawItem) := by
  induction entries with
  | nil => rfl
  | cons entry rest ih => exact listItems_cons.mpr ⟨entry.2, rfl, rest.map rawItem, ih, rfl⟩

theorem rawItem_injective : Function.Injective rawItem := by
  intro entry entry' same
  exact Prod.ext (congrArg ListItem.key same) (congrArg ListItem.object same)

end

/-! ## Following tokens -/

/-- Another page of a list: what happens before it, and how it is asked
for. -/
structure NextPage where
  turns : List Turn
  cache : Option SharedCache
  limit : Int
  resourceVersion : Int

inductive Followed (Object : Type) where
  | finished (items : List (ListItem Object))
  | refused
  /-- The client stops before the last page. -/
  | unfinished

section
variable {Object : Type}

/-- A page and the pages after it. -/
def Followed.after (items : List (ListItem Object)) : Followed Object -> Followed Object
  | .finished later => .finished (items ++ later)
  | other => other

def follow (serving : Serving Object) (l : Listing) : Recorded -> String -> List NextPage -> Followed Object
  | _, _, [] => .unfinished
  | h, token, next :: rest =>
    let h := run Recorded.turn h next.turns
    match listAtRevision serving next.cache h.store l next.limit token next.resourceVersion with
    | (.ok (.found page), s) =>
      match page.next with
      | none => .finished page.items
      | some token => (follow serving l { h with store := s } token rest).after page.items
    | _ => .refused

/-- A first page and the pages that its token leads to. -/
def followFrom (serving : Serving Object) (l : Listing) (h : Recorded) (page : Page Object) (rest : List NextPage) :
    Followed Object :=
  match page.next with
  | none => .finished page.items
  | some token => (follow serving l h token rest).after page.items

end

/-! ## The properties -/

/-- The objects under the prefix at a revision, in key order. -/
def stored (h : Recorded) (l : Listing) (r : Int) : List (Bytes × CacheEntry) :=
  (contents (eventsUpTo r h.published) (.between l.lead l.rangeEnd)).entries

/-- However the list is asked for with the token, what it shows lies under
the prefix. -/
def Confined (h : Recorded) (l : Listing) (token : String) : Prop :=
  forall (Object : Type) (serving : Serving Object) (cache : Option SharedCache) (limit resourceVersion : Int)
    (page : Page Object) (s : Store),
    listAtRevision serving cache h.store l limit token resourceVersion = (.ok (.found page), s) ->
      forall item, item ∈ page.items -> l.lead <+: item.key

/-- However large the pages are and whatever happens between them, they add
up to the objects of the first page's revision, and there are at most as many
pages as objects. -/
def AddsUp (h : Recorded) (l : Listing) (cache : Option SharedCache) (resourceVersion : Int) : Prop :=
  forall (Object : Type) (serving : Serving Object) (limit : Int) (page : Page Object) (s : Store) (rest : List NextPage),
    listAtRevision serving cache h.store l limit "" resourceVersion = (.ok (.found page), s) ->
      match followFrom serving l { h with store := s } page rest with
      | .finished items => Exists fun selects => serving.selectors = some selects ∧
          listItems serving.decode selects (stored h l page.resourceVersion) = .ok items
      | .unfinished => rest.length + 1 < (stored h l page.resourceVersion).length
      | .refused => True

/-- Nothing is stored between the token's key and the prefix. -/
def Inside (h : Recorded) (l : Listing) (token : String) : Prop :=
  forall key revision asOf, decodeContinueToken token = some (key, revision) -> key < l.lead ->
    h.store.db.readRevision (l.query key revision 0) = .ok asOf ->
      (contents (eventsUpTo asOf h.published) (.between key l.lead)).entries = []

/-- The caches that a request for the whole list may be answered from hold
what is stored. -/
def CachesRight (h : Recorded) (l : Listing) (cache : Option SharedCache) (resourceVersion : Int) : Prop :=
  match answering cache 0 "" resourceVersion with
  | some shared =>
    shared.cache.list.1.filter (fun entry => l.lead.isPrefixOf entry.1) = stored h l shared.cache.revision
  | none =>
    forall asOf result, h.store.db.readRevision (l.query l.lead (max resourceVersion 0) 0) = .ok asOf ->
      h.store.cachedList (l.query l.lead (max resourceVersion 0) 0) asOf = some result ->
        result.kvs.map listed = stored h l asOf

/-! ## One page -/

section
variable {Object : Type} {serving : Serving Object} {cache : Option SharedCache} {s s' : Store} {l : Listing}
  {limit resourceVersion : Int} {token : String} {page : Page Object}

/-- The page that a read gave, as far as its client can tell. -/
structure PageOf (serving : Serving Object) (selects : Object -> Bool) (revision : Int) (kvs : List KeyValue) (more : Bool)
    (page : Page Object) : Prop where
  items : listItems serving.decode selects (kvs.map listed) = .ok page.items
  resourceVersion : page.resourceVersion = revision
  next : page.next = if more then kvs.getLast?.map fun kv => encodeContinueToken (kv.key ++ [0]) revision else none

theorem storedPage_ok {kind : Bytes} {selects : Object -> Bool} {revision : Int} {result : RangeResult}
    (ok : storedPage serving kind selects l revision result = .ok (.found page)) :
    PageOf serving selects revision result.kvs result.more page := by
  unfold storedPage at ok
  cases shown : listItems serving.decode selects (result.kvs.map listed) with
  | error failure =>
    rw [shown] at ok
    cases ok
  | ok items =>
    rw [shown] at ok
    cases ok
    exact ⟨shown, rfl, rfl⟩

theorem listAtRevision_ok
    (found : listAtRevision serving cache s l limit token resourceVersion = (.ok (.found page), s')) :
    Exists fun selects => serving.selectors = some selects ∧
      ((Exists fun shared => answering cache limit token resourceVersion = some shared ∧ s' = s ∧
          page.resourceVersion = shared.cache.revision ∧ page.next = none ∧
          listItems serving.decode selects (shared.cache.list.1.filter fun entry => l.lead.isPrefixOf entry.1) = .ok page.items) ∨
        (answering cache limit token resourceVersion = none ∧
          Exists fun start => Exists fun revision => Exists fun result =>
            l.start token resourceVersion = some (start, revision) ∧
              s.range (l.query start revision limit) = (.ok result, s') ∧
              PageOf serving selects (listSnapshotRevision revision s.db.revision) result.kvs result.more page)) := by
  unfold listAtRevision at found
  cases kindIs : serving.kind with
  | none =>
    rw [kindIs] at found
    cases found
  | some kind =>
    cases selectorsIs : serving.selectors with
    | none =>
      rw [kindIs, selectorsIs] at found
      cases found
    | some selects =>
      rw [kindIs, selectorsIs] at found
      refine ⟨selects, rfl, ?_⟩
      cases answers : answering cache limit token resourceVersion with
      | some shared =>
        rw [answers] at found
        rcases Prod.mk.inj found with ⟨cached, same⟩
        unfold cachedPage at cached
        dsimp only at cached
        cases shown : listItems serving.decode selects
            (shared.cache.list.1.filter fun entry => l.lead.isPrefixOf entry.1) with
        | error failure =>
          rw [shown] at cached
          cases cached
        | ok items =>
          rw [shown] at cached
          cases cached
          exact Or.inl ⟨shared, rfl, same.symm, rfl, rfl, shown⟩
      | none =>
        rw [answers] at found
        cases starts : l.start token resourceVersion with
        | none =>
          rw [starts] at found
          cases found
        | some both =>
          rcases both with ⟨start, revision⟩
          rw [starts] at found
          dsimp only at found
          have unmoved := range_db s (l.query start revision limit)
          cases read : s.range (l.query start revision limit) with
          | mk answer after =>
            rw [read] at found unmoved
            cases answer with
            | error refusal => cases found
            | ok result =>
              rcases Prod.mk.inj found with ⟨shown, same⟩
              rw [unmoved] at shown
              subst same
              exact Or.inr ⟨rfl, start, revision, result, rfl, read, storedPage_ok shown⟩

end

section
variable {h : Recorded} {l : Listing} {start : Bytes} {revision limit : Int} {result : RangeResult}

/-- The pairs a page is cut from. -/
def pairsFrom (h : Recorded) (l : Listing) (start : Bytes) (r : Int) : List KeyValue :=
  expectedPairs (eventsUpTo r h.published) (.between start l.rangeEnd)

theorem pairsFrom_sorted (h : Recorded) (l : Listing) (start : Bytes) (r : Int) : KeySorted KeyValue.key (pairsFrom h l start r) :=
  expectedPairs_sorted _ _

theorem mem_pairsFrom {r : Int} {pair : KeyValue} : pair ∈ pairsFrom h l start r <->
    (start ≤ pair.key ∧ pair.key < l.rangeEnd) ∧ expectedPair (eventsUpTo r h.published) pair.key = some pair := by
  unfold pairsFrom
  rw [mem_expectedPairs, l.contains_between]

theorem stored_eq (h : Recorded) (l : Listing) (r : Int) : stored h l r = (pairsFrom h l l.lead r).map listed := rfl

/-- The first pairs, as many as were asked for. -/
def cut (limit : Int) (pairs : List KeyValue) : List KeyValue :=
  if 0 < limit then pairs.take limit.toNat else pairs

theorem expectedRange_query (r : Int) :
    expectedRange (eventsUpTo r h.published) (l.query start revision limit) =
      { kvs := cut limit (pairsFrom h l start r)
        count := (pairsFrom h l start r).length
        more := decide (0 < limit ∧ limit < (pairsFrom h l start r).length) } := by
  have length := expectedPairs_length (eventsUpTo r h.published) (.between start l.rangeEnd)
  have plain : trim (l.query start revision limit) = id := rfl
  have whole : (l.query start revision limit).countOnly = false := rfl
  have unsorted : (l.query start revision limit).sort = none := rfl
  have asked : (l.query start revision limit).limit = max limit 0 := rfl
  unfold expectedRange
  rw [l.query_range]
  simp only [plain, whole, unsorted, asked, List.map_id, ← length, gt_iff_lt, if_neg Bool.false_ne_true]
  change RangeResult.mk (if 0 < max limit 0 then (pairsFrom h l start r).take (max limit 0).toNat else pairsFrom h l start r) _
    (decide (0 < max limit 0 ∧ max limit 0 < ((pairsFrom h l start r).length : Int))) = _
  unfold cut
  by_cases positive : 0 < limit
  · rw [max_eq_left positive.le]
    rfl
  · rw [max_eq_right (not_lt.mp positive), if_neg (lt_irrefl _), if_neg positive]
    simp only [lt_irrefl, positive, false_and]
    rfl

theorem cachedList_none (told : h.Told) (apart : start ∉ rbacListPrefixes ∨ 0 < limit) (asOf : Int) :
    h.store.cachedList (l.query start revision limit) asOf = none := by
  cases hit : h.store.cachedList (l.query start revision limit) asOf with
  | none => rfl
  | some found =>
    rcases told.cachedList hit with ⟨r, stem, isStem, range, plain, _⟩
    rcases apart with other | positive
    · rw [l.query_range] at range
      rw [(KeyRange.between.inj range).1] at other
      exact absurd isStem other
    · unfold cacheable at plain
      simp only [Bool.and_eq_true, decide_eq_true_eq] at plain
      have none_ : max limit 0 = 0 := plain.1.1.1
      rw [max_eq_left positive.le] at none_
      exact absurd none_ positive.ne'

theorem range_page (told : h.Told) (apart : start ∉ rbacListPrefixes ∨ 0 < limit)
    (answered : (h.store.range (l.query start revision limit)).1 = .ok result) :
    Exists fun asOf => h.store.db.readRevision (l.query start revision limit) = .ok asOf ∧
      result.kvs = cut limit (pairsFrom h l start asOf) ∧
        result.more = decide (0 < limit ∧ limit < (pairsFrom h l start asOf).length) := by
  rcases told.range_ok answered with ⟨asOf, selected, hit | ⟨_, computed⟩⟩
  · rw [cachedList_none told apart] at hit
    cases hit
  · rw [expectedRange_query] at computed
    rw [computed]
    exact ⟨asOf, selected, rfl, rfl⟩

theorem range_within (told : h.Told) (answered : (h.store.range (l.query start revision limit)).1 = .ok result) :
    Exists fun r => forall kv, kv ∈ result.kvs -> kv ∈ pairsFrom h l start r := by
  have cutMem : forall r kv, kv ∈ cut limit (pairsFrom h l start r) -> kv ∈ pairsFrom h l start r := by
    intro r kv member
    unfold cut at member
    split_ifs at member
    · exact List.mem_of_mem_take member
    · exact member
  rcases told.range_ok answered with ⟨asOf, _, hit | ⟨_, computed⟩⟩
  · rcases told.cachedList hit with ⟨r, stem, _, _, plain, cached⟩
    refine ⟨r, fun kv member => ?_⟩
    have current : result = expectedRange (eventsUpTo r h.published) (l.query start revision 0) := by
      rw [cached, l.query_range, ← @Listing.query_range l start revision 0]
      rfl
    rw [current, expectedRange_query] at member
    exact member
  · refine ⟨asOf, fun kv member => cutMem asOf kv ?_⟩
    rw [computed, expectedRange_query] at member
    exact member

theorem listSnapshotRevision_eq {s : Store} {asOf : Int} (selected : s.db.readRevision (l.query start revision limit) = .ok asOf) :
    listSnapshotRevision revision s.db.revision = asOf := by
  have asked : (l.query start revision limit).revision = revision := rfl
  unfold Db.readRevision at selected
  rw [asked] at selected
  unfold listSnapshotRevision
  split_ifs at selected ⊢ <;> exact Except.ok.inj selected

end

/-! ## Confinement -/

/-- A request for every entry as it is. -/
def rawServing : Serving CacheEntry where
  kind := some []
  selectors := some fun _ => true
  decode := fun _ entry => some entry

theorem listAtRevision_raw {cache : Option SharedCache} {s s' : Store} {l : Listing} {limit resourceVersion revision : Int}
    {token : String} {start : Bytes} {result : RangeResult} (direct : answering cache limit token resourceVersion = none)
    (starts : l.start token resourceVersion = some (start, revision))
    (read : s.range (l.query start revision limit) = (.ok result, s')) :
    Exists fun page => listAtRevision rawServing cache s l limit token resourceVersion = (.ok (.found page), s') ∧
      page.items = (result.kvs.map listed).map rawItem ∧
      (result.more = false -> page.next = none) ∧ page.resourceVersion = listSnapshotRevision revision s'.db.revision := by
  unfold listAtRevision rawServing
  rw [direct]
  rw [starts]
  dsimp only
  rw [read]
  unfold storedPage
  dsimp only
  rw [listItems_raw]
  refine ⟨_, rfl, rfl, fun last => ?_, rfl⟩
  rw [last, if_neg Bool.false_ne_true]

section
variable {h : Recorded} {l : Listing} {token : String} {key : Bytes} {revision : Int}

theorem lead_of_stem (stem : key ∈ rbacListPrefixes) (range : l.rangeEnd = Nodestore.prefixRangeEnd key) : key = l.lead := by
  have shape : forall key, key ∈ rbacListPrefixes ->
      key = key.dropLast ++ [slash] ∧ Nodestore.prefixRangeEnd key = key.dropLast ++ [slash + 1] := by decide
  rcases l.lead_shape with ⟨front, _, starts, ends⟩
  rcases shape key stem with ⟨keyIs, endIs⟩
  rw [ends, endIs] at range
  rw [starts, keyIs, (List.append_inj' range rfl).1]

theorem cachedList_below (told : h.Told) (below : key < l.lead) (limit asOf : Int) :
    h.store.cachedList (l.query key revision limit) asOf = none := by
  cases hit : h.store.cachedList (l.query key revision limit) asOf with
  | none => rfl
  | some found =>
    rcases told.cachedList hit with ⟨r, stem, isStem, range, _, _⟩
    rw [l.query_range] at range
    rcases KeyRange.between.inj range with ⟨same, ends⟩
    rw [← same] at isStem ends
    rw [lead_of_stem isStem ends] at below
    exact absurd below (lt_irrefl _)

theorem mem_below {r : Int} {pair : KeyValue} (member : pair ∈ pairsFrom h l key r) (outside : pair.key < l.lead) :
    listed pair ∈ (contents (eventsUpTo r h.published) (.between key l.lead)).entries := by
  rcases mem_pairsFrom.mp member with ⟨⟨above, _⟩, there⟩
  refine List.mem_map_of_mem (mem_expectedPairs.mpr ⟨?_, there⟩)
  simp only [KeyRange.contains, Bool.and_eq_true, decide_eq_true_eq]
  exact ⟨above, outside⟩

theorem confined_of_inside (told : h.Told) (inside : Inside h l token) : Confined h l token := by
  intro Object serving cache limit resourceVersion page s found item shown
  rcases listAtRevision_ok found with ⟨selects, _, ⟨shared, _, _, _, _, items⟩ | ⟨_, start, revision, result, starts, read, pageOf⟩⟩
  · rcases listItems_keys items shown with ⟨entry, listedEntry, same⟩
    rw [← same]
    exact List.isPrefixOf_iff_prefix.mp (List.mem_filter.mp listedEntry).2
  · rcases listItems_keys pageOf.items shown with ⟨entry, listedEntry, same⟩
    rcases List.mem_map.mp listedEntry with ⟨pair, member, rfl⟩
    rw [← same]
    have answered : (h.store.range (l.query start revision limit)).1 = .ok result := by rw [read]
    rcases range_within told answered with ⟨r, within⟩
    have bounds := (mem_pairsFrom.mp (within pair member)).1
    refine l.lead_isPrefix_iff.mpr ⟨?_, bounds.2⟩
    unfold Listing.start at starts
    split_ifs at starts with first
    · rw [(Prod.mk.inj (Option.some.inj starts)).1]
      exact bounds.1
    · by_contra outside
      rw [not_le] at outside
      have below : start < l.lead := lt_of_le_of_lt bounds.1 outside
      rcases told.range_ok answered with ⟨asOf, selected, hit | ⟨_, computed⟩⟩
      · rw [cachedList_below told below] at hit
        cases hit
      · have there : pair ∈ pairsFrom h l start asOf := by
          rw [computed, expectedRange_query] at member
          unfold cut at member
          split_ifs at member
          · exact List.mem_of_mem_take member
          · exact member
        have nothing := inside start revision asOf starts below selected
        have stray := mem_below there outside
        rw [nothing] at stray
        cases stray

theorem inside_of_confined (told : h.Told) (confined : Confined h l token) : Inside h l token := by
  intro key revision asOf decoded below selected
  have named : token.isEmpty = false := by
    cases empty : token.isEmpty with
    | false => rfl
    | true =>
      rw [String.isEmpty_iff.mp empty] at decoded
      cases decoded
  by_contra filled
  rcases List.exists_mem_of_ne_nil _ filled with ⟨entry, member⟩
  rcases List.mem_map.mp member with ⟨stray, strayMem, _⟩
  rcases mem_expectedPairs.mp strayMem with ⟨strayIn, strayThere⟩
  simp only [KeyRange.contains, Bool.and_eq_true, decide_eq_true_eq] at strayIn
  have strayListed : stray ∈ pairsFrom h l key asOf :=
    mem_pairsFrom.mpr ⟨⟨strayIn.1, strayIn.2.trans l.lead_lt_rangeEnd⟩, strayThere⟩
  cases pairs : pairsFrom h l key asOf with
  | nil =>
    rw [pairs] at strayListed
    cases strayListed
  | cons head tail =>
    -- The first pair of the range is not above the stray one.
    have headBelow : head.key < l.lead := by
      rw [pairs] at strayListed
      rcases List.mem_cons.mp strayListed with same | later
      · rw [← same]
        exact strayIn.2
      · have sorted := pairsFrom_sorted h l key asOf
        rw [pairs] at sorted
        exact ((List.pairwise_cons.mp sorted).1 stray later).trans strayIn.2
    have one : (0 : Int) < 1 := by decide
    have missed : h.store.cachedList (l.query key revision 1) asOf = none := cachedList_none told (Or.inr one) asOf
    have selectedOne : h.store.db.readRevision (l.query key revision 1) = .ok asOf := selected
    have answer := told.range_computed selectedOne missed
    rw [expectedRange_query, pairs] at answer
    cases read : h.store.range (l.query key revision 1) with
    | mk first after =>
      rw [read] at answer
      change first = _ at answer
      rw [answer] at read
      have starts : l.start token 0 = some (key, revision) := by
        unfold Listing.start
        rw [named, if_neg Bool.false_ne_true]
        exact decoded
      rcases @listAtRevision_raw none _ _ _ _ _ _ _ _ _ rfl starts read with ⟨page, found, items, _, _⟩
      have shown : rawItem (listed head) ∈ page.items := by
        rw [items]
        exact .head _
      have inside := confined CacheEntry rawServing none 1 0 page after found _ shown
      exact absurd (l.lead_isPrefix_iff.mp inside).1 (not_le.mpr headBelow)

end

/-! ## Pages -/

section
variable {Object : Type} {serving : Serving Object} {selects : Object -> Bool} {h : Recorded} {l : Listing}
  {start key : Bytes} {limit r : Int} {page : Page Object} {rest : List NextPage}

/-- What following tokens may come to, for the pairs that are left. -/
def Completes (serving : Serving Object) (selects : Object -> Bool) (pairs : List KeyValue) (pages : Nat) :
    Followed Object -> Prop
  | .finished items => listItems serving.decode selects (pairs.map listed) = .ok items
  | .refused => True
  | .unfinished => pages < pairs.length

theorem pairsFrom_rest {n : Nat} {last : KeyValue} (ends : ((pairsFrom h l start r).take n).getLast? = some last) :
    (pairsFrom h l start r).drop n = pairsFrom h l (last.key ++ [0]) r := by
  have sorted := pairsFrom_sorted h l start r
  have whole := List.take_append_drop n (pairsFrom h l start r)
  have split := sorted
  rw [← whole] at split
  have lastMem : last ∈ pairsFrom h l start r := List.mem_of_mem_take (List.mem_of_getLast? ends)
  have above := (mem_pairsFrom.mp lastMem).1.1
  refine KeySorted.eq_of_mem_iff (List.Pairwise.sublist (List.drop_sublist _ _) sorted) (pairsFrom_sorted h l _ r) fun pair => ?_
  rw [split.mem_rest_iff ends, whole, mem_pairsFrom, mem_pairsFrom, concat_zero_le_iff]
  constructor
  · rintro ⟨⟨bounds, there⟩, later⟩
    exact ⟨⟨later, bounds.2⟩, there⟩
  · rintro ⟨bounds, there⟩
    exact ⟨⟨⟨above.trans bounds.1.le, bounds.2⟩, there⟩, bounds.1⟩

theorem followFrom_completes
    (pageOf : PageOf serving selects r (cut limit (pairsFrom h l start r))
      (decide (0 < limit ∧ limit < (pairsFrom h l start r).length)) page)
    (later : forall key, pairsFrom h l (key ++ [0]) r ≠ [] ->
      Completes serving selects (pairsFrom h l (key ++ [0]) r) rest.length
        (follow serving l h (encodeContinueToken (key ++ [0]) r) rest)) :
    Completes serving selects (pairsFrom h l start r) (rest.length + 1) (followFrom serving l h page rest) := by
  have items := pageOf.items
  have next := pageOf.next
  unfold followFrom
  by_cases more : 0 < limit ∧ limit < (pairsFrom h l start r).length
  · rw [decide_eq_true more, if_pos rfl] at next
    have taken : cut limit (pairsFrom h l start r) = (pairsFrom h l start r).take limit.toNat := if_pos more.1
    rw [taken] at items next
    cases ends : ((pairsFrom h l start r).take limit.toNat).getLast? with
    | none =>
      have empty := congrArg List.length (List.getLast?_eq_none_iff.mp ends)
      rw [List.length_take, List.length_nil] at empty
      omega
    | some last =>
      rw [ends] at next
      have left := pairsFrom_rest ends
      have leftLength : (pairsFrom h l (last.key ++ [0]) r).length = (pairsFrom h l start r).length - limit.toNat := by
        rw [← left, List.length_drop]
      have filled : pairsFrom h l (last.key ++ [0]) r ≠ [] := by
        apply List.ne_nil_of_length_pos
        omega
      have goesOn := later last.key filled
      rw [next]
      change Completes serving selects (pairsFrom h l start r) (rest.length + 1)
        ((follow serving l h (encodeContinueToken (last.key ++ [0]) r) rest).after page.items)
      cases reached : follow serving l h (encodeContinueToken (last.key ++ [0]) r) rest with
      | refused => exact True.intro
      | unfinished =>
        rw [reached] at goesOn
        change rest.length < _ at goesOn
        change rest.length + 1 < _
        omega
      | finished others =>
        rw [reached, ← left] at goesOn
        change listItems serving.decode selects ((pairsFrom h l start r).map listed) = .ok (page.items ++ others)
        rw [← List.take_append_drop limit.toNat (pairsFrom h l start r), List.map_append]
        exact listItems_append items goesOn
  · rw [decide_eq_false more, if_neg Bool.false_ne_true] at next
    rw [next]
    have all : cut limit (pairsFrom h l start r) = pairsFrom h l start r := by
      unfold cut
      split_ifs with positive
      · exact List.take_of_length_le (by omega)
      · rfl
    rwa [all] at items

theorem answering_token {cache : Option SharedCache} {limit resourceVersion : Int} {token : String}
    (named : token.isEmpty = false) : answering cache limit token resourceVersion = none := by
  unfold answering paginated
  rw [named]
  simp

theorem encodeContinueToken_named (lower : 0 < r) (upper : r < 2 ^ 63) :
    (encodeContinueToken key r).isEmpty = false := by
  cases empty : (encodeContinueToken key r).isEmpty with
  | false => rfl
  | true =>
    have decoded := @decode_encodeContinueToken key r (lt_of_lt_of_le (by decide) lower.le).le upper
    rw [String.isEmpty_iff.mp empty] at decoded
    cases decoded

theorem resumeKey_not_stem : key ++ [0] ∉ rbacListPrefixes := by
  have ends : forall stem, stem ∈ rbacListPrefixes -> stem.getLast? ≠ some 0 := by decide
  intro stem
  exact ends _ stem (List.getLast?_concat ..)

theorem follow_completes (selectorsAre : serving.selectors = some selects) (positive : 0 < r) (fits : r < 2 ^ 63) :
    forall (rest : List NextPage) (h : Recorded) (key : Bytes), h.Told -> r ≤ h.store.db.revision ->
      pairsFrom h l (key ++ [0]) r ≠ [] ->
        Completes serving selects (pairsFrom h l (key ++ [0]) r) rest.length
          (follow serving l h (encodeContinueToken (key ++ [0]) r) rest) := by
  intro rest
  induction rest with
  | nil =>
    intro h key _ _ filled
    exact List.length_pos_of_ne_nil filled
  | cons next rest ih =>
    intro h key told reached _
    rcases told.turns next.turns with ⟨told', extended⟩
    have same : pairsFrom (run Recorded.turn h next.turns) l (key ++ [0]) r = pairsFrom h l (key ++ [0]) r := by
      unfold pairsFrom
      rw [extended.earlier r reached]
    have named := @encodeContinueToken_named (key ++ [0]) r positive fits
    unfold follow
    dsimp only
    cases outcome : listAtRevision serving next.cache (run Recorded.turn h next.turns).store l next.limit
        (encodeContinueToken (key ++ [0]) r) next.resourceVersion with
    | mk answer after =>
      cases answer with
      | error failure => exact True.intro
      | ok listOutcome =>
        cases listOutcome with
        | unknownResource | invalidContinueToken => exact True.intro
        | found page =>
          rcases listAtRevision_ok outcome with ⟨selects', selectorsAre', ⟨shared, cached, _⟩ | ⟨_, start, revision, result, starts, read, pageOf⟩⟩
          · rw [answering_token named] at cached
            cases cached
          · rw [← Option.some.inj (selectorsAre.symm.trans selectorsAre')] at pageOf
            unfold Listing.start at starts
            rw [named, if_neg Bool.false_ne_true, decode_encodeContinueToken (by omega) fits] at starts
            rcases Prod.mk.inj (Option.some.inj starts) with ⟨rfl, rfl⟩
            have answered : ((run Recorded.turn h next.turns).store.range (l.query (key ++ [0]) r next.limit)).1 = .ok result := by
              rw [read]
            rcases range_page told' (Or.inl resumeKey_not_stem) answered with ⟨asOf, selected, kvs, more⟩
            have dated := listSnapshotRevision_eq selected
            have atRevision : asOf = r := by
              rw [← dated]
              exact if_pos positive
            subst atRevision
            rw [dated, kvs, more] at pageOf
            have read' := told'.turn (.read (l.query (key ++ [0]) asOf next.limit))
            have afterIs : (run Recorded.turn h next.turns).turn (.read (l.query (key ++ [0]) asOf next.limit)) =
                { run Recorded.turn h next.turns with store := after } := by
              rw [Recorded.turn, read]
            rw [afterIs] at read'
            have grown : asOf ≤ after.db.revision := (reached.trans extended.grows).trans read'.2.grows
            rw [← same]
            exact @followFrom_completes Object serving selects { run Recorded.turn h next.turns with store := after } l
              (key ++ [0]) next.limit asOf page rest pageOf fun key filled =>
                ih { run Recorded.turn h next.turns with store := after } key read'.1 grown filled

end

/-! ## A whole list -/

section
variable {h : Recorded} {l : Listing} {cache : Option SharedCache} {resourceVersion : Int}

/-- A request that no limit cuts is answered like one for the whole list. -/
theorem answering_whole {limit : Int} (unlimited : ¬ 0 < limit) :
    answering cache limit "" resourceVersion = answering cache 0 "" resourceVersion := by
  unfold answering paginated
  rw [decide_eq_false unlimited, decide_eq_false (lt_irrefl _)]

theorem answering_limited {limit : Int} (limited : 0 < limit) : answering cache limit "" resourceVersion = none := by
  unfold answering paginated
  rw [decide_eq_true limited]
  simp

theorem query_whole {start : Bytes} {revision limit : Int} (unlimited : ¬ 0 < limit) :
    l.query start revision limit = l.query start revision 0 := by
  unfold Listing.query
  rw [max_eq_right (not_lt.mp unlimited), max_self]

theorem cachedList_more (told : h.Told) {start : Bytes} {revision limit asOf : Int} {result : RangeResult}
    (hit : h.store.cachedList (l.query start revision limit) asOf = some result) : result.more = false := by
  rcases told.cachedList hit with ⟨r, stem, _, _, _, rfl⟩
  simp [expectedRange, RangeQuery.current]

theorem addsUp_of_cachesRight (told : h.Told) (fits : h.store.db.revision < 2 ^ 63)
    (right : CachesRight h l cache resourceVersion) : AddsUp h l cache resourceVersion := by
  intro Object serving limit page s rest found
  rcases listAtRevision_ok found with ⟨selects, selectorsAre,
    ⟨shared, answers, _, dated, next, items⟩ | ⟨direct, start, revision, result, starts, read, pageOf⟩⟩
  · have unlimited : ¬ 0 < limit := by
      intro limited
      rw [answering_limited limited] at answers
      cases answers
    unfold CachesRight at right
    rw [← answering_whole unlimited, answers] at right
    unfold followFrom
    rw [next]
    refine ⟨selects, selectorsAre, ?_⟩
    rw [dated, ← right]
    exact items
  · rcases Prod.mk.inj (Option.some.inj starts) with ⟨rfl, rfl⟩
    have answered : (h.store.range (l.query l.lead (max resourceVersion 0) limit)).1 = .ok result := by rw [read]
    rcases told.range_ok answered with ⟨asOf, selected, hit | ⟨_, computed⟩⟩
    · have unlimited : ¬ 0 < limit := by
        intro limited
        rw [cachedList_none told (Or.inr limited)] at hit
        cases hit
      have more := cachedList_more told hit
      rw [listSnapshotRevision_eq selected] at pageOf
      unfold CachesRight at right
      rw [← answering_whole unlimited, direct, ← query_whole unlimited] at right
      have next := pageOf.next
      rw [more, if_neg Bool.false_ne_true] at next
      unfold followFrom
      rw [next]
      refine ⟨selects, selectorsAre, ?_⟩
      rw [pageOf.resourceVersion, ← right asOf result selected hit]
      exact pageOf.items
    · rw [expectedRange_query] at computed
      subst computed
      rw [listSnapshotRevision_eq selected] at pageOf
      have bounds := readRevision_bounds told.wellFormed selected
      have read' := told.turn (.read (l.query l.lead (max resourceVersion 0) limit))
      have afterIs : h.turn (.read (l.query l.lead (max resourceVersion 0) limit)) = { h with store := s } := by
        rw [Recorded.turn, read]
      rw [afterIs] at read'
      have completes := @followFrom_completes Object serving selects { h with store := s } l l.lead limit asOf page rest pageOf
        fun key filled => follow_completes selectorsAre (by omega) (lt_of_le_of_lt bounds.2.1 fits) rest { h with store := s }
          key read'.1 (bounds.2.1.trans read'.2.grows) filled
      rw [pageOf.resourceVersion, stored_eq]
      cases reached : followFrom serving l { h with store := s } page rest with
      | refused => exact True.intro
      | unfinished =>
        rw [reached] at completes
        rw [List.length_map]
        exact completes
      | finished items =>
        rw [reached] at completes
        exact ⟨selects, selectorsAre, completes⟩

theorem cachesRight_of_addsUp (told : h.Told) (addsUp : AddsUp h l cache resourceVersion) :
    CachesRight h l cache resourceVersion := by
  unfold CachesRight
  cases answers : answering cache 0 "" resourceVersion with
  | some shared =>
    have found : listAtRevision rawServing cache h.store l 0 "" resourceVersion =
        (cachedPage rawServing [] (fun _ => true) shared l, h.store) := by
      unfold listAtRevision rawServing
      rw [answers]
    unfold cachedPage rawServing at found
    dsimp only at found
    rw [listItems_raw] at found
    rcases addsUp CacheEntry rawServing 0 _ h.store [] found with ⟨selects, selectorsAre, shown⟩
    have all : (fun _ => true) = selects := Option.some.inj selectorsAre
    subst all
    unfold rawServing at shown
    rw [listItems_raw] at shown
    exact (List.map_injective_iff.mpr rawItem_injective (Except.ok.inj shown)).symm
  | none =>
    intro asOf result selected hit
    have starts : l.start "" resourceVersion = some (l.lead, max resourceVersion 0) := rfl
    rcases listAtRevision_raw answers starts (Recorded.range_of_hit selected hit) with ⟨page, found, items, last, dated⟩
    rw [listSnapshotRevision_eq selected] at dated
    have complete := addsUp CacheEntry rawServing 0 page h.store [] found
    unfold followFrom at complete
    rw [last (cachedList_more told hit), dated, items] at complete
    rcases complete with ⟨selects, selectorsAre, shown⟩
    have all : (fun _ => true) = selects := Option.some.inj selectorsAre
    subst all
    unfold rawServing at shown
    rw [listItems_raw] at shown
    exact (List.map_injective_iff.mpr rawItem_injective (Except.ok.inj shown)).symm

end

/-- What a list shows lies under its prefix, and pages add up to the objects
of the first one's revision, exactly when nothing is stored between the key
of the token and the prefix and the caches that answer for a whole list are
right. -/
theorem lists_confined_and_complete_iff (turns : List Turn) (l : Listing) (token : String) (cache : Option SharedCache)
    (resourceVersion : Int) (fits : (run Recorded.turn Recorded.fresh turns).store.db.revision < 2 ^ 63) :
    (Confined (run Recorded.turn Recorded.fresh turns) l token ∧
        AddsUp (run Recorded.turn Recorded.fresh turns) l cache resourceVersion) <->
      Inside (run Recorded.turn Recorded.fresh turns) l token ∧
        CachesRight (run Recorded.turn Recorded.fresh turns) l cache resourceVersion := by
  have told := (Recorded.fresh_told.turns turns).1
  exact and_congr ⟨inside_of_confined told, confined_of_inside told⟩
    ⟨cachesRight_of_addsUp told, addsUp_of_cachesRight told fits⟩

private def putOf (key : String) : Command :=
  .put { key := ascii key, value := ascii "v", lease := 0, prevKv := false, ignoreValue := false, ignoreLease := false }

private def teamOf (resource : String) (named : ascii resource ≠ []) (segment : slash ∉ ascii resource) : Listing where
  resource := { group := [], resource := ascii resource, named := named, segment := segment }
  version := ascii "v1"
  scope := some (ascii "team")

/-- The first of two Pods was shown, and its token leads to the second. -/
theorem twoPods_confined_and_complete :
    Confined (run Recorded.turn Recorded.fresh
        [.apply 1 (putOf "/registry/pods/team/a"), .apply 2 (putOf "/registry/pods/team/b")])
      (teamOf "pods" (by decide) (by decide)) "L3JlZ2lzdHJ5L3BvZHMvdGVhbS9hAAAz" ∧
    AddsUp (run Recorded.turn Recorded.fresh
        [.apply 1 (putOf "/registry/pods/team/a"), .apply 2 (putOf "/registry/pods/team/b")])
      (teamOf "pods" (by decide) (by decide)) none 0 := by
  refine (lists_confined_and_complete_iff _ _ _ _ _ (by decide)).mpr ⟨?_, ?_⟩
  · intro key revision asOf decoded below
    have token : decodeContinueToken "L3JlZ2lzdHJ5L3BvZHMvdGVhbS9hAAAz" = some (ascii "/registry/pods/team/a" ++ [0], 3) := by
      decide
    rw [token] at decoded
    rw [← (Prod.mk.inj (Option.some.inj decoded)).1] at below
    exact absurd below (by decide)
  · intro asOf result _ hit
    have told := (Recorded.fresh_told.turns
      [.apply 1 (putOf "/registry/pods/team/a"), .apply 2 (putOf "/registry/pods/team/b")]).1
    rw [cachedList_none told (Or.inl (by decide))] at hit
    exact nomatch hit

/-- A token for the secrets shows them to whoever may list the
ServiceAccounts of one namespace. -/
theorem not_confined_secrets :
    ¬ (Confined (run Recorded.turn Recorded.fresh [.apply 1 (putOf "/registry/secrets/kube-system/admin")])
        (teamOf "serviceaccounts" (by decide) (by decide)) "L3JlZ2lzdHJ5L3NlY3JldHMvADI=" ∧
      AddsUp (run Recorded.turn Recorded.fresh [.apply 1 (putOf "/registry/secrets/kube-system/admin")])
        (teamOf "serviceaccounts" (by decide) (by decide)) none 0) := by
  rintro ⟨confined, -⟩
  have inside := inside_of_confined (Recorded.fresh_told.turns _).1 confined
  have nothing := inside (ascii "/registry/secrets/") 2 2 (by decide) (by decide) (by decide)
  exact absurd nothing (by decide)

end NotK8s.Apiserver

import NotK8s.Patch.Parts

namespace NotK8s.Patch

open Library

/-!
# What a comparison reports

Two values are compared part by part where both are taken apart in the same
way, and as a whole elsewhere.  So a path has at most one change, which can be
read off by going down both values at once; exchanging the two values
exchanges what is added and what is removed.
-/

variable {api : OpenApi} {info : Option FieldMeta} {v w : Value} {schema name : String}
  {fields others : Fields} {listMapKeys : List String} {elementSchema : Option String}
  {elements later : List Value} {e : PathElement} {p q : Path} {side : Side}

section Levels

theorem mem_under {changes : Changes} :
    (side, p) ∈ changes.under e <-> Exists fun q => p = e :: q ∧ (side, q) ∈ changes := by
  rw [Changes.under, List.mem_map]
  constructor
  · rintro ⟨⟨_, q⟩, listed, same⟩
    cases same
    exact ⟨q, rfl, listed⟩
  · rintro ⟨q, rfl, listed⟩
    exact ⟨(side, q), listed, rfl⟩

theorem mem_marked {marks : List Path} {marked : Side} :
    (side, p) ∈ marks.map (fun path => (marked, path)) <-> side = marked ∧ p ∈ marks := by
  rw [List.mem_map]
  constructor
  · rintro ⟨q, listed, same⟩
    cases same
    exact ⟨rfl, listed⟩
  · rintro ⟨rfl, listed⟩
    exact ⟨p, listed, rfl⟩

/-- What becomes of a part that one or both sides have. -/
def matched (api : OpenApi) (s : Shape) : Option Part -> Option Part -> Changes
  | some a, some b => comparePresent api (matchedInfo s a.1) a.2 b.2
  | some a, none => (markOneSided api a.1 a.2).map fun path => (.removed, path)
  | none, some b => (markOneSided api b.1 b.2).map fun path => (.added, path)
  | none, none => []

theorem compareLeaf_whole : comparePresent api wholeInfo v w = compareLeaf v w := by
  cases v <;> cases w <;> rfl

theorem mem_addedFields {infoOf : String -> Option FieldMeta} (distinct : (Fields.names others).Nodup) :
    (side, p) ∈ addedFields api infoOf fields others <->
      Exists fun name => Exists fun u => Exists fun q => p = .field name :: q ∧
        Fields.get others name = some u ∧ Fields.get fields name = none ∧ side = .added ∧
        q ∈ markOneSided api (infoOf name) u := by
  rw [addedFields, List.mem_flatMap]
  constructor
  · rintro ⟨⟨name, u⟩, kept, changed⟩
    rcases List.mem_filter.mp kept with ⟨listed, missing⟩
    rcases mem_under.mp changed with ⟨q, rfl, marked⟩
    rcases mem_marked.mp marked with ⟨same, there⟩
    exact ⟨name, u, q, rfl, Fields.get_of_mem distinct listed, Option.isNone_iff_eq_none.mp missing, same, there⟩
  · rintro ⟨name, u, q, rfl, found, missing, same, there⟩
    refine ⟨(name, u), List.mem_filter.mpr ⟨Fields.mem_of_get found, ?_⟩,
      mem_under.mpr ⟨q, rfl, mem_marked.mpr ⟨same, there⟩⟩⟩
    rw [missing]
    rfl

theorem mem_compareFields (distinct : (Fields.names fields).Nodup) :
    (side, p) ∈ compareFields api schema others fields <->
      Exists fun name => Exists fun u => Exists fun q => p = .field name :: q ∧
        Fields.get fields name = some u ∧ (side, q) ∈ match Fields.get others name with
          | some w => comparePresent api (api.fieldMeta schema name) u w
          | none => (markOneSided api (api.fieldMeta schema name) u).map fun path => (.removed, path) := by
  suffices part : forall some : Fields, (side, p) ∈ compareFields api schema others some <->
      Exists fun name => Exists fun u => Exists fun q => p = .field name :: q ∧
        (name, u) ∈ some ∧ (side, q) ∈ match Fields.get others name with
          | .some w => comparePresent api (api.fieldMeta schema name) u w
          | none => (markOneSided api (api.fieldMeta schema name) u).map fun path => (.removed, path) by
    rw [part fields]
    constructor
    · rintro ⟨name, u, q, rfl, listed, changed⟩
      exact ⟨name, u, q, rfl, Fields.get_of_mem distinct listed, changed⟩
    · rintro ⟨name, u, q, rfl, found, changed⟩
      exact ⟨name, u, q, rfl, Fields.mem_of_get found, changed⟩
  intro some
  induction some with
  | nil => simp [compareFields]
  | cons head rest ih =>
    rcases head with ⟨stored, first⟩
    rw [compareFields, List.mem_append, ih, mem_under]
    constructor
    · rintro (⟨q, rfl, changed⟩ | ⟨name, u, q, rfl, listed, changed⟩)
      · exact ⟨stored, first, q, rfl, .head _, changed⟩
      · exact ⟨name, u, q, rfl, .tail _ listed, changed⟩
    · rintro ⟨name, u, q, rfl, listed, changed⟩
      rcases List.mem_cons.mp listed with here | later
      · cases here
        exact Or.inl ⟨q, rfl, changed⟩
      · exact Or.inr ⟨name, u, q, rfl, later, changed⟩

theorem mem_compareObjects (distinct : (Fields.names fields).Nodup) (distinctOthers : (Fields.names others).Nodup) :
    (side, p) ∈ compareObjects api schema fields others <->
      Exists fun name => Exists fun q => p = .field name :: q ∧
        (side, q) ∈ matched api (.struct schema fields) (below api (.struct schema fields) (.field name))
          (below api (.struct schema others) (.field name)) := by
  rw [compareObjects, List.mem_append, mem_compareFields distinct, mem_addedFields distinctOthers]
  constructor
  · rintro (⟨name, u, q, rfl, found, changed⟩ | ⟨name, u, q, rfl, found, missing, same, there⟩)
    · refine ⟨name, q, rfl, ?_⟩
      rw [below, below, found]
      cases other : Fields.get others name with
      | none | some w =>
        rw [other] at changed
        exact changed
    · refine ⟨name, q, rfl, ?_⟩
      rw [below, below, found, missing]
      exact mem_marked.mpr ⟨same, there⟩
  · rintro ⟨name, q, rfl, changed⟩
    rw [below, below] at changed
    cases found : Fields.get fields name with
    | none =>
      cases other : Fields.get others name with
      | none =>
        rw [found, other] at changed
        cases changed
      | some w =>
        rw [found, other] at changed
        rcases mem_marked.mp changed with ⟨same, there⟩
        exact Or.inr ⟨name, w, q, rfl, other, found, same, there⟩
    | some u =>
      refine Or.inl ⟨name, u, q, rfl, found, ?_⟩
      rw [found] at changed
      cases other : Fields.get others name with
      | none | some w =>
        rw [other] at changed
        exact changed

theorem mem_compareMapFields (distinct : (Fields.names fields).Nodup) (distinctOthers : (Fields.names others).Nodup) :
    (side, p) ∈ compareMapFields api fields others <->
      Exists fun name => Exists fun q => p = .field name :: q ∧
        (side, q) ∈ matched api (.generic fields) (below api (.generic fields) (.field name))
          (below api (.generic others) (.field name)) := by
  rw [compareMapFields, List.mem_append, mem_addedFields distinctOthers, List.mem_flatMap]
  constructor
  · rintro (⟨⟨name, u⟩, listed, changed⟩ | ⟨name, u, q, rfl, found, missing, same, there⟩)
    · rcases mem_under.mp changed with ⟨q, rfl, inside⟩
      refine ⟨name, q, rfl, ?_⟩
      rw [below, below, Fields.get_of_mem distinct listed]
      cases other : Fields.get others name with
      | none =>
        rw [other] at inside
        exact inside
      | some w =>
        rw [other] at inside
        rw [Option.map_some, Option.map_some, matched, matchedInfo, compareLeaf_whole]
        exact inside
    · refine ⟨name, q, rfl, ?_⟩
      rw [below, below, found, missing]
      exact mem_marked.mpr ⟨same, there⟩
  · rintro ⟨name, q, rfl, changed⟩
    rw [below, below] at changed
    cases found : Fields.get fields name with
    | none =>
      cases other : Fields.get others name with
      | none =>
        rw [found, other] at changed
        cases changed
      | some w =>
        rw [found, other] at changed
        rcases mem_marked.mp changed with ⟨same, there⟩
        exact Or.inr ⟨name, w, q, rfl, other, found, same, there⟩
    | some u =>
      refine Or.inl ⟨(name, u), Fields.mem_of_get found, mem_under.mpr ⟨q, rfl, ?_⟩⟩
      rw [found] at changed
      cases other : Fields.get others name with
      | none =>
        rw [other] at changed
        exact changed
      | some w =>
        rw [other, Option.map_some, Option.map_some, matched, matchedInfo, compareLeaf_whole] at changed
        exact changed

/-- What only one side has of an element is what it has of the element as a part. -/
theorem markOneSidedElement_eq {element : Fields} :
    markOneSidedElement api elementSchema element =
      markOneSided api (elementInfo elementSchema) (.object element) := by
  cases elementSchema <;> rfl

theorem elementUnder_cons_object {identity element : Fields} :
    elementUnder listMapKeys identity (.object element :: elements) =
      if keyFields listMapKeys element = identity then some element
      else elementUnder listMapKeys identity elements := rfl

/-- The first elements under the identities not seen yet, past one under an identity seen. -/
theorem first_past_seen {seen : List Fields} {fs identity element : Fields} (known : keyFields listMapKeys fs ∈ seen) :
    identity ∉ seen ∧ elementUnder listMapKeys identity (.object fs :: elements) = some element <->
      identity ∉ seen ∧ elementUnder listMapKeys identity elements = some element := by
  apply and_congr_right
  intro unseen
  rw [elementUnder_cons_object, if_neg]
  rintro rfl
  exact unseen known

theorem first_past_unseen {seen : List Fields} {fs identity element : Fields} (fresh : keyFields listMapKeys fs ∉ seen) :
    identity ∉ seen ∧ elementUnder listMapKeys identity (.object fs :: elements) = some element <->
      identity = keyFields listMapKeys fs ∧ element = fs ∨
        identity ∉ keyFields listMapKeys fs :: seen ∧ elementUnder listMapKeys identity elements = some element := by
  rw [elementUnder_cons_object, List.mem_cons, not_or]
  by_cases here : identity = keyFields listMapKeys fs
  · rw [if_pos here.symm, here]
    simp [fresh, eq_comm]
  · rw [if_neg (Ne.symm here)]
    simp [here]

theorem mem_addedElements {seen : List Fields} :
    (side, p) ∈ addedElements api listMapKeys elementSchema later seen elements <->
      Exists fun identity => Exists fun element => Exists fun q => p = .key identity :: q ∧
        (identity ∉ seen ∧ elementUnder listMapKeys identity elements = some element) ∧
        elementUnder listMapKeys identity later = none ∧ side = .added ∧
        q ∈ markOneSidedElement api elementSchema element := by
  induction elements generalizing seen with
  | nil => simp [addedElements, elementUnder]
  | cons head rest ih =>
    cases head with
    | object fs =>
      rw [addedElements]
      by_cases known : keyFields listMapKeys fs ∈ seen
      · rw [if_pos known, ih]
        simp only [first_past_seen known]
      · rw [if_neg known, List.mem_append, ih]
        simp only [first_past_unseen known]
        constructor
        · rintro (changed | ⟨identity, element, q, rfl, first, absent⟩)
          · cases missing : elementUnder listMapKeys (keyFields listMapKeys fs) later with
            | some other =>
              rw [missing] at changed
              cases changed
            | none =>
              rw [missing] at changed
              rcases mem_under.mp changed with ⟨q, rfl, marked⟩
              exact ⟨_, fs, q, rfl, Or.inl ⟨rfl, rfl⟩, missing, mem_marked.mp marked⟩
          · exact ⟨identity, element, q, rfl, Or.inr first, absent⟩
        · rintro ⟨identity, element, q, rfl, ⟨rfl, rfl⟩ | first, missing, marked⟩
          · rw [missing]
            exact Or.inl (mem_under.mpr ⟨q, rfl, mem_marked.mpr marked⟩)
          · exact Or.inr ⟨identity, element, q, rfl, first, missing, marked⟩
    | _ => exact ih

theorem mem_compareElements {seen : List Fields} :
    (side, p) ∈ compareElements api listMapKeys elementSchema later seen elements <->
      Exists fun identity => Exists fun element => Exists fun q => p = .key identity :: q ∧
        (identity ∉ seen ∧ elementUnder listMapKeys identity elements = some element) ∧
        (side, q) ∈ match elementUnder listMapKeys identity later with
          | some other =>
            match elementSchema with
            | some schema => compareObjects api schema element other
            | none => compareLeaf (.object element) (.object other)
          | none => (markOneSidedElement api elementSchema element).map fun path => (.removed, path) := by
  induction elements generalizing seen with
  | nil => simp [compareElements, elementUnder]
  | cons head rest ih =>
    cases head with
    | object fs =>
      rw [compareElements]
      by_cases known : keyFields listMapKeys fs ∈ seen
      · rw [if_pos known, ih]
        simp only [first_past_seen known]
      · rw [if_neg known, List.mem_append, ih]
        simp only [first_past_unseen known]
        constructor
        · rintro (changed | ⟨identity, element, q, rfl, first, inside⟩)
          · rcases mem_under.mp changed with ⟨q, rfl, inside⟩
            exact ⟨_, fs, q, rfl, Or.inl ⟨rfl, rfl⟩, inside⟩
          · exact ⟨identity, element, q, rfl, Or.inr first, inside⟩
        · rintro ⟨identity, element, q, rfl, ⟨rfl, rfl⟩ | first, inside⟩
          · exact Or.inl (mem_under.mpr ⟨q, rfl, inside⟩)
          · exact Or.inr ⟨identity, element, q, rfl, first, inside⟩
    | _ => exact ih

theorem mem_compareLists :
    (side, p) ∈ compareElements api listMapKeys elementSchema later [] elements ++
        addedElements api listMapKeys elementSchema elements [] later <->
      Exists fun identity => Exists fun q => p = .key identity :: q ∧
        (side, q) ∈ matched api (.keyed listMapKeys elementSchema elements)
          (below api (.keyed listMapKeys elementSchema elements) (.key identity))
          (below api (.keyed listMapKeys elementSchema later) (.key identity)) := by
  have compared : forall element other : Fields,
      comparePresent api (elementInfo elementSchema) (.object element) (.object other) =
        elementSchema.elim (compareLeaf (.object element) (.object other)) fun schema =>
          compareObjects api schema element other := by
    intro element other
    cases elementSchema <;> rfl
  rw [List.mem_append, mem_compareElements, mem_addedElements]
  constructor
  · rintro (⟨identity, element, q, rfl, first, inside⟩ | ⟨identity, element, q, rfl, first, missing, marked⟩)
    · refine ⟨identity, q, rfl, ?_⟩
      rw [below, below, first.2]
      cases other : elementUnder listMapKeys identity later with
      | none =>
        rw [other, markOneSidedElement_eq] at inside
        exact inside
      | some found =>
        rw [other] at inside
        rw [Option.map_some, Option.map_some, matched, matchedInfo, compared]
        cases elementSchema <;> exact inside
    · refine ⟨identity, q, rfl, ?_⟩
      rw [markOneSidedElement_eq] at marked
      rw [below, below, first.2, missing]
      exact mem_marked.mpr marked
  · rintro ⟨identity, q, rfl, inside⟩
    rw [below, below] at inside
    cases found : elementUnder listMapKeys identity elements with
    | none =>
      cases other : elementUnder listMapKeys identity later with
      | none =>
        rw [found, other] at inside
        cases inside
      | some element =>
        rw [found, other] at inside
        refine Or.inr ⟨identity, element, q, rfl, ⟨List.not_mem_nil, other⟩, found, ?_⟩
        rw [markOneSidedElement_eq]
        exact mem_marked.mp inside
    | some element =>
      refine Or.inl ⟨identity, element, q, rfl, ⟨List.not_mem_nil, found⟩, ?_⟩
      rw [found] at inside
      cases other : elementUnder listMapKeys identity later with
      | none =>
        rw [other] at inside
        rw [markOneSidedElement_eq]
        exact inside
      | some there =>
        rw [other, Option.map_some, Option.map_some, matched, matchedInfo, compared] at inside
        cases elementSchema <;> exact inside

theorem mem_compareSetList :
    (side, p) ∈ compareSetList elements later <->
      Exists fun u => Exists fun q => p = .value u :: q ∧
        (side, q) ∈ matched api (.set elements) (below api (.set elements) (.value u))
          (below api (.set later) (.value u)) := by
  rw [compareSetList, List.mem_append, List.mem_map, List.mem_map]
  constructor
  · rintro (⟨u, kept, same⟩ | ⟨u, kept, same⟩)
    · cases same
      rcases List.mem_filter.mp kept with ⟨here, missing⟩
      refine ⟨u, [], rfl, ?_⟩
      rw [below, below, if_pos here, if_neg (by simpa using missing), matched, mark_whole]
      exact .head _
    · cases same
      rcases List.mem_filter.mp kept with ⟨here, missing⟩
      refine ⟨u, [], rfl, ?_⟩
      rw [below, below, if_pos here, if_neg (by simpa using missing), matched, mark_whole]
      exact .head _
  · rintro ⟨u, q, rfl, inside⟩
    rw [below, below] at inside
    by_cases here : u ∈ elements
    · rw [if_pos here] at inside
      by_cases there : u ∈ later
      · rw [if_pos there, matched, matchedInfo, compareLeaf_whole, compareLeaf_self] at inside
        cases inside
      · rw [if_neg there, matched, mark_whole] at inside
        cases List.mem_singleton.mp inside
        exact Or.inl ⟨u, List.mem_filter.mpr ⟨here, by simpa using there⟩, rfl⟩
    · rw [if_neg here] at inside
      by_cases there : u ∈ later
      · rw [if_pos there, matched, mark_whole] at inside
        cases List.mem_singleton.mp inside
        exact Or.inr ⟨u, List.mem_filter.mpr ⟨there, by simpa using here⟩, rfl⟩
      · rw [if_neg there] at inside
        cases inside

end Levels

section Comparing

theorem comparePresent_struct (h : shape info v = .struct schema fields) (other : shape info w = .struct schema others) :
    comparePresent api info v w = compareObjects api schema fields others := by
  rcases eq_of_struct h with ⟨rfl, granular, referenced⟩
  rw [(eq_of_struct other).1, comparePresent, granular, referenced]
  rfl

theorem comparePresent_generic (h : shape info v = .generic fields) (other : shape info w = .generic others) :
    comparePresent api info v w = compareMapFields api fields others := by
  rcases eq_of_generic h with ⟨rfl, granular, referenced⟩
  rw [(eq_of_generic other).1, comparePresent, granular, referenced]
  rfl

theorem comparePresent_keyed (h : shape info v = .keyed listMapKeys elementSchema elements)
    (other : shape info w = .keyed listMapKeys elementSchema later) (keys : listMapKeys.isEmpty = false) :
    comparePresent api info v w = compareElements api listMapKeys elementSchema later [] elements ++
      addedElements api listMapKeys elementSchema elements [] later := by
  rcases eq_of_keyed h with ⟨rfl, listed, keyed, referenced⟩
  rw [(eq_of_keyed other).1, comparePresent, listed, keyed, referenced]
  rw [keys]
  rfl

theorem comparePresent_set (h : shape info v = .set elements) (other : shape info w = .set later) :
    comparePresent api info v w = compareSetList elements later := by
  rcases eq_of_set h with ⟨rfl, listed⟩
  rw [(eq_of_set other).1, comparePresent, listed]

/-- Values that are not taken apart in the same way are compared whole. -/
theorem comparePresent_apart (apart : (shape info v).alike (shape info w) = false) :
    comparePresent api info v w = compareLeaf v w := by
  cases v with
  | object fields =>
    cases w with
    | object others =>
      rw [shape, shape] at apart
      rw [comparePresent]
      by_cases atomic : isAtomicMap info = true
      · rw [if_pos atomic]
      · rw [if_neg atomic, if_neg atomic] at apart
        cases found : refSchemaOf info <;> rw [found] at apart <;> cases apart
    | _ => rw [comparePresent] <;> rintro _ _ ⟨⟩ ⟨⟩
  | array elements =>
    cases w with
    | array later =>
      rw [shape, shape] at apart
      rw [comparePresent]
      rcases found : listTypeOf info with _ | _ | _ | _ <;> rw [found] at apart
      · cases apart
      · have keyless : (listMapKeysOf info).isEmpty = true := by
          simpa only [Shape.alike, Bool.and_self, Bool.not_eq_false'] using apart
        rw [if_pos keyless]
    | _ => rw [comparePresent] <;> rintro _ _ ⟨⟩ ⟨⟩
  | _ => cases w <;> rw [comparePresent] <;> rintro _ _ ⟨⟩ ⟨⟩

theorem mem_comparePresent (canonical : v.Canonical) (canonicalOther : w.Canonical)
    (alike : (shape info v).alike (shape info w) = true) :
    (side, p) ∈ comparePresent api info v w <->
      Exists fun e => Exists fun q => p = e :: q ∧
        (side, q) ∈ matched api (shape info v) (below api (shape info v) e) (below api (shape info w) e) := by
  cases view : shape info v with
  | leaf =>
    rw [view] at alike
    cases alike
  | struct schema fields =>
    rcases alike_struct view alike with ⟨others, other⟩
    rw [(eq_of_struct view).1] at canonical
    rw [(eq_of_struct other).1] at canonicalOther
    rw [comparePresent_struct view other, mem_compareObjects canonical.nodup canonicalOther.nodup, other]
    constructor
    · rintro ⟨name, q, rfl, inside⟩
      exact ⟨_, q, rfl, inside⟩
    · rintro ⟨e, q, rfl, inside⟩
      cases e with
      | field name => exact ⟨name, q, rfl, inside⟩
      | _ => cases inside
  | generic fields =>
    rcases alike_generic view alike with ⟨others, other⟩
    rw [(eq_of_generic view).1] at canonical
    rw [(eq_of_generic other).1] at canonicalOther
    rw [comparePresent_generic view other, mem_compareMapFields canonical.nodup canonicalOther.nodup, other]
    constructor
    · rintro ⟨name, q, rfl, inside⟩
      exact ⟨_, q, rfl, inside⟩
    · rintro ⟨e, q, rfl, inside⟩
      cases e with
      | field name => exact ⟨name, q, rfl, inside⟩
      | _ => cases inside
  | keyed listMapKeys elementSchema elements =>
    rcases alike_keyed view alike with ⟨keys, later, other⟩
    rw [comparePresent_keyed view other keys, mem_compareLists, other]
    constructor
    · rintro ⟨identity, q, rfl, inside⟩
      exact ⟨_, q, rfl, inside⟩
    · rintro ⟨e, q, rfl, inside⟩
      cases e with
      | key identity => exact ⟨identity, q, rfl, inside⟩
      | _ => cases inside
  | set elements =>
    rcases alike_set view alike with ⟨later, other⟩
    rw [comparePresent_set view other, @mem_compareSetList api, other]
    constructor
    · rintro ⟨u, q, rfl, inside⟩
      exact ⟨_, q, rfl, inside⟩
    · rintro ⟨e, q, rfl, inside⟩
      cases e with
      | value u => exact ⟨u, q, rfl, inside⟩
      | _ => cases inside

end Comparing

end NotK8s.Patch

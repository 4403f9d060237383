import NotK8s.Patch.Comparison

namespace NotK8s.Patch

open Library

/-!
# Ownership after an ordinary write

A write takes what it changed from every other manager, takes what it removed
from everyone, and leaves the rest as it was.  Whether a path a manager owns
still leads somewhere in the new object is read off the two objects: it does,
or it was removed, or on its way the write put a value of another kind, or the
comparison does not look that closely.
-/

/-- Whether the manager owns the path. -/
def owns (managers : Managers) (manager : String) (p : Path) : Bool :=
  ((managers.get manager).map fun fields => fields.has p).getD false

variable {api : OpenApi} {info : Option FieldMeta} {v w : Value} {schema name manager writer : String}
  {fields others : Fields} {listMapKeys : List String} {elementSchema : Option String} {elements : List Value}
  {e : PathElement} {p q : Path} {side : Side} {a b part inner : Part} {managers : Managers}
  {changed removed set : FieldSet}

section Tables

theorem owns_of_get (held : managers.get manager = some set) : owns managers manager p = set.has p := by
  rw [owns, held]
  rfl

theorem owns_of_none (free : managers.get manager = none) : owns managers manager p = false := by
  rw [owns, free]
  rfl

theorem owns_insert : owns (managers.insert name set) manager p =
    if manager = name then set.has p else owns managers manager p := by
  rw [owns, SortedMap.get_insert]
  split_ifs <;> rfl

theorem owns_erase : owns (managers.erase name) manager p =
    if manager = name then false else owns managers manager p := by
  rw [owns, SortedMap.get_erase]
  split_ifs <;> rfl

theorem has_difference_eq {s t : FieldSet} : (s.difference t).has p = (s.has p && !t.has p) := by
  rw [Bool.eq_iff_iff, PathTree.has_difference, Bool.and_eq_true, Bool.not_eq_true']

theorem has_union_eq {s t : FieldSet} : (s.union t).has p = (s.has p || t.has p) := by
  rw [Bool.eq_iff_iff, PathTree.has_union, Bool.or_eq_true]

theorem owns_giveUp (conflict : Conflict) : owns (giveUp managers conflict) manager p =
    (owns managers manager p && !(decide (conflict.manager = manager) && conflict.fields.has p)) := by
  rw [giveUp]
  cases held : managers.get conflict.manager with
  | none =>
    by_cases same : conflict.manager = manager
    · rw [same] at held
      rw [owns_of_none held]
      rfl
    · simp [same]
  | some fields =>
    rw [owns_insert]
    by_cases same : conflict.manager = manager
    · rw [same] at held
      rw [if_pos same.symm, owns_of_get held, has_difference_eq]
      simp [same]
    · rw [if_neg (Ne.symm same)]
      simp [same]

theorem owns_foldl_giveUp {conflicts : List Conflict} : owns (conflicts.foldl giveUp managers) manager p =
    (owns managers manager p &&
      !(conflicts.any fun conflict => decide (conflict.manager = manager) && conflict.fields.has p)) := by
  induction conflicts generalizing managers with
  | nil => simp
  | cons conflict rest ih =>
    rw [List.foldl_cons, ih, owns_giveUp, List.any_cons, Bool.not_or, Bool.and_assoc]

theorem any_conflictsWith : ((conflictsWith changed managers).any fun conflict =>
    decide (conflict.manager = manager) && conflict.fields.has p) = (owns managers manager p && changed.has p) := by
  rw [Bool.eq_iff_iff, List.any_eq_true]
  constructor
  · rintro ⟨conflict, listed, found⟩
    rcases List.mem_filterMap.mp listed with ⟨⟨name, fields⟩, entry, made⟩
    rcases Option.map_eq_some_iff.mp made with ⟨set, some, rfl⟩
    rw [Bool.and_eq_true, decide_eq_true_eq] at found
    rcases found with ⟨rfl, owned⟩
    have same := @PathTree.has_getD_nonempty PathElement _ (fields.intersection changed) p
    rw [some, Option.getD_some, owned, eq_comm, PathTree.has_intersection] at same
    rw [owns_of_get (SortedMap.mem_entries.mp entry), same.1, same.2]
    rfl
  · intro both
    rw [Bool.and_eq_true] at both
    cases held : managers.get manager with
    | none =>
      rw [owns_of_none held] at both
      cases both.1
    | some fields =>
      rw [owns_of_get held] at both
      have shared := (PathTree.has_intersection fields changed p).mpr both
      have nonempty : (fields.intersection changed).isEmpty = false := by
        apply Bool.eq_false_of_not_eq_true
        intro nothing
        rw [PathTree.isEmpty_iff.mp nothing p] at shared
        cases shared
      refine ⟨⟨manager, fields.intersection changed⟩, ?_, ?_⟩
      · refine List.mem_filterMap.mpr ⟨(manager, fields), SortedMap.mem_entries.mpr held, ?_⟩
        rw [PathTree.nonempty, nonempty]
        rfl
      · rw [decide_eq_true rfl, shared]
        rfl

theorem owns_reconcile : owns (reconcile managers (conflictsWith changed managers) removed) manager p =
    (owns managers manager p && !changed.has p && !removed.has p) := by
  have kept : owns ((conflictsWith changed managers).foldl giveUp managers) manager p =
      (owns managers manager p && !changed.has p) := by
    rw [owns_foldl_giveUp, any_conflictsWith]
    cases owns managers manager p <;> rfl
  rw [reconcile, ← kept]
  generalize (conflictsWith changed managers).foldl giveUp managers = table
  have taken : owns (if removed.isEmpty then table else table.mapValues fun fields => fields.difference removed)
      manager p = (owns table manager p && !removed.has p) := by
    by_cases nothing : removed.isEmpty = true
    · rw [if_pos nothing, PathTree.isEmpty_iff.mp nothing, Bool.not_false, Bool.and_true]
    · rw [if_neg nothing, owns, SortedMap.get_mapValues, owns]
      cases table.get manager with
      | none => rfl
      | some fields => exact has_difference_eq
  rw [← taken]
  generalize (if removed.isEmpty then table else table.mapValues fun fields => fields.difference removed) = table
  rw [owns, SortedMap.get_filter, owns]
  cases held : table.get manager with
  | none => rfl
  | some fields =>
    cases nothing : fields.isEmpty with
    | true =>
      rw [Option.filter_some, nothing, Option.map_some, Option.getD_some, PathTree.isEmpty_iff.mp nothing]
      rfl
    | false =>
      rw [Option.filter_some, nothing]
      rfl

/-- What the writer owns after a write. -/
def writerSet (cmp : Comparison) (managers : Managers) (writer : String) : FieldSet :=
  ((((managers.get writer).getD PathTree.empty).difference cmp.removed).union cmp.modified).union cmp.added

/-- What the others are left with. -/
def othersKept (cmp : Comparison) (managers : Managers) (writer : String) : Managers :=
  reconcile (managers.filter fun name _ => name ≠ writer)
    (conflictsWith (cmp.modified.union cmp.added) (managers.filter fun name _ => name ≠ writer)) cmp.removed

theorem applyUpdate_eq (live new : Value) : applyUpdate api schema live new managers writer =
    some (if (writerSet (compare api schema live new) managers writer).isEmpty then
      (othersKept (compare api schema live new) managers writer).erase writer
    else (othersKept (compare api schema live new) managers writer).insert writer
      (writerSet (compare api schema live new) managers writer)) := rfl

theorem has_writerSet {cmp : Comparison} : (writerSet cmp managers writer).has p =
    (owns managers writer p && !cmp.removed.has p || cmp.modified.has p || cmp.added.has p) := by
  have existing : ((managers.get writer).getD PathTree.empty).has p = owns managers writer p := by
    rw [owns]
    cases managers.get writer with
    | none => exact PathTree.has_empty
    | some fields => rfl
  rw [writerSet, has_union_eq, has_union_eq, has_difference_eq, existing]

theorem owns_othersKept {cmp : Comparison} (other : manager ≠ writer) :
    owns (othersKept cmp managers writer) manager p =
      (owns managers manager p && !(cmp.modified.has p || cmp.added.has p) && !cmp.removed.has p) := by
  have rest : owns (managers.filter fun name _ => name ≠ writer) manager p = owns managers manager p := by
    rw [owns, SortedMap.get_filter, owns]
    cases managers.get manager with
    | none => rfl
    | some fields => rw [Option.filter_some, if_pos (decide_eq_true other)]
  rw [othersKept, owns_reconcile, has_union_eq, rest]

theorem applyUpdate_owns (live new : Value) (managers : Managers) (writer : String) : Exists fun result =>
    applyUpdate api schema live new managers writer = some result ∧
      forall manager p, owns result manager p =
        if manager = writer then
          owns managers writer p && !(compare api schema live new).removed.has p ||
            (compare api schema live new).modified.has p || (compare api schema live new).added.has p
        else owns managers manager p &&
          !((compare api schema live new).modified.has p || (compare api schema live new).added.has p) &&
          !(compare api schema live new).removed.has p := by
  refine ⟨_, applyUpdate_eq live new, ?_⟩
  intro manager p
  by_cases same : manager = writer
  · rw [if_pos same, ← has_writerSet]
    split_ifs with nothing
    · rw [owns_erase, if_pos same, PathTree.isEmpty_iff.mp nothing]
    · rw [owns_insert, if_pos same]
  · rw [if_neg same, ← owns_othersKept same]
    split_ifs
    · rw [owns_erase, if_neg same]
    · rw [owns_insert, if_neg same]

end Tables

section Reach

variable (api) in
/-- The comparison does not look at the path on its own: it goes on below an entry of
a map without a schema, or through an identity that several elements have. -/
inductive Coarse : Part -> Path -> Prop where
  | entry {part : Part} {fields : Fields} {e f : PathElement} {p : Path}
      (view : shape part.1 part.2 = .generic fields) : Coarse part (e :: f :: p)
  | repeated {part : Part} {listMapKeys : List String} {elementSchema : Option String} {elements : List Value}
      {identity : Fields} {p : Path} (view : shape part.1 part.2 = .keyed listMapKeys elementSchema elements)
      (several : 2 ≤ (elementsUnder listMapKeys identity elements).length) : Coarse part (.key identity :: p)
  | deeper {part inner : Part} {e : PathElement} {p : Path} (step : Leads api part [e] inner)
      (rest : Coarse inner p) : Coarse part (e :: p)

variable (api) in
/-- On its way the path comes to where another value was put that is not taken apart
in the same way. -/
inductive Replaced : Part -> Value -> Path -> Prop where
  | here {info : Option FieldMeta} {v w : Value} {e : PathElement} {p : Path}
      (apart : (shape info v).alike (shape info w) = false) (different : v ≠ w) : Replaced (info, v) w (e :: p)
  | deeper {info : Option FieldMeta} {v w : Value} {e : PathElement} {a b : Part} {p : Path}
      (alike : (shape info v).alike (shape info w) = true) (here : below api (shape info v) e = some a)
      (there : below api (shape info w) e = some b) (rest : Replaced a b.2 p) : Replaced (info, v) w (e :: p)

/-- Short of an identity that repeats, a path goes through the first element. -/
theorem below_of_leads (canonical : part.2.Canonical) (leads : Leads api part (e :: p) inner)
    (fine : ¬Coarse api part (e :: p)) :
    Exists fun middle => below api (shape part.1 part.2) e = some middle ∧ Leads api middle p inner := by
  cases leads with
  | field view listed rest =>
    rw [(eq_of_struct view).1] at canonical
    refine ⟨_, ?_, rest⟩
    rw [view, below, Fields.get_of_mem canonical.nodup listed]
    rfl
  | entry view listed rest =>
    rw [(eq_of_generic view).1] at canonical
    refine ⟨_, ?_, rest⟩
    rw [view, below, Fields.get_of_mem canonical.nodup listed]
    rfl
  | @element _ _ listMapKeys elementSchema elements element _ view listed rest =>
    have member : element ∈ elementsUnder listMapKeys (keyFields listMapKeys element) elements :=
      mem_elementsUnder.mpr ⟨listed, rfl⟩
    refine ⟨_, ?_, rest⟩
    rw [view, below, elementUnder_eq_head]
    rcases held : elementsUnder listMapKeys (keyFields listMapKeys element) elements with _ | ⟨first, _ | ⟨second, more⟩⟩
    · rw [held] at member
      cases member
    · rw [held] at member
      rw [List.mem_singleton.mp member]
      rfl
    · refine (fine (.repeated view ?_)).elim
      rw [held, List.length_cons, List.length_cons]
      omega
  | value view listed =>
    refine ⟨_, ?_, .here _⟩
    rw [view, below, if_pos listed]

theorem marked_of_leads (leads : Leads api part p inner) : p ∈ markOneSided api part.1 part.2 ∨ Coarse api part p := by
  induction leads with
  | here part => exact Or.inl nil_mem_markOneSided
  | field view listed _ ih =>
    rcases ih with marked | coarse
    · rw [markOneSided_struct view]
      exact Or.inl (.tail _ (mem_markObjectFields.mpr ⟨_, _, _, listed, marked, rfl⟩))
    · exact Or.inr (.deeper (.field view listed (.here _)) coarse)
  | @entry _ _ _ name u p view listed _ _ =>
    cases p with
    | nil =>
      rw [markOneSided_generic view]
      exact Or.inl (.tail _ (List.mem_map.mpr ⟨(name, u), listed, rfl⟩))
    | cons f p => exact Or.inr (.entry view)
  | element view listed _ ih =>
    rcases ih with marked | coarse
    · rw [markOneSided_keyed view]
      refine Or.inl (.tail _ (mem_markElements.mpr ⟨_, _, listed, ?_, rfl⟩))
      rwa [markOneSidedElement_eq]
    · exact Or.inr (.deeper (.element view listed (.here _)) coarse)
  | @value _ _ u view listed =>
    rw [markOneSided_set view]
    exact Or.inl (.tail _ (List.mem_map.mpr ⟨u, listed, rfl⟩))

/-- Parts that are compared on their own are compared as what they are. -/
theorem matchedInfo_of_fine (fine : ¬Coarse api (info, v) (e :: p)) :
    matchedInfo (shape info v) a.1 = a.1 ∨ p = [] := by
  cases view : shape info v with
  | generic fields =>
    cases p with
    | nil => exact Or.inr rfl
    | cons f p => exact (fine (.entry view)).elim
  | _ => exact Or.inl rfl

theorem stays_or_removed (canonical : v.Canonical) (canonicalOther : w.Canonical)
    (leads : Leads api (info, v) p inner) :
    changeAt api info v w p = some .removed ∨ (Exists fun part => Leads api (info, w) p part) ∨
      Coarse api (info, v) p ∨ Replaced api (info, v) w p := by
  induction p generalizing info v w with
  | nil => exact Or.inr (Or.inl ⟨_, .here _⟩)
  | cons e p ih =>
    by_cases coarse : Coarse api (info, v) (e :: p)
    · exact Or.inr (Or.inr (Or.inl coarse))
    · rcases below_of_leads canonical leads coarse with ⟨a, here, rest⟩
      have step : Leads api (info, v) [e] a := leads_of_below here
      have fine : ¬Coarse api a p := fun deeper => coarse (.deeper step deeper)
      cases alike : (shape info v).alike (shape info w) with
      | false =>
        by_cases same : v = w
        · rw [← same]
          exact Or.inr (Or.inl ⟨inner, leads⟩)
        · exact Or.inr (Or.inr (Or.inr (.here alike same)))
      | true =>
        rw [changeAt, if_pos alike, here]
        cases there : below api (shape info w) e with
        | none =>
          rcases marked_of_leads rest with marked | deeper
          · exact Or.inl (if_pos marked)
          · exact (fine deeper).elim
        | some b =>
          have onto : Leads api (info, w) [e] b := leads_of_below there
          dsimp only
          rcases matchedInfo_of_fine coarse with kept | rfl
          · rw [kept]
            rcases ih (canonical_below canonical here) (canonical_below canonicalOther there) rest with
              gone | ⟨part, stays⟩ | deeper | replaced
            · exact Or.inl gone
            · rw [info_of_alike alike here there] at stays
              exact Or.inr (Or.inl ⟨part, onto.trans stays⟩)
            · exact (fine deeper).elim
            · exact Or.inr (Or.inr (Or.inr (.deeper alike here there replaced)))
          · exact Or.inr (Or.inl ⟨b, onto⟩)

theorem marked_of_leaf (leaf : p ∈ collectFieldValue api info v) : p ∈ markOneSided api info v := by
  induction info, v using @shapeInduction api generalizing p with
  | leaf info v view =>
    rw [markOneSided_leaf view, ← collectFieldValue_leaf view]
    exact leaf
  | struct info v schema fields view ih =>
    rw [collectFieldValue_struct view] at leaf
    rcases mem_collectObjectFields.mp leaf with ⟨name, u, q, listed, inside, rfl⟩
    rw [markOneSided_struct view]
    exact .tail _ (mem_markObjectFields.mpr
      ⟨name, u, q, listed, ih name u listed inside, rfl⟩)
  | generic info v fields view =>
    rw [collectFieldValue_generic view] at leaf
    rw [markOneSided_generic view]
    exact .tail _ leaf
  | keyed info v listMapKeys elementSchema elements view ih =>
    rw [collectFieldValue_keyed view] at leaf
    rcases mem_collectElements.mp leaf with ⟨element, q, member, inside, rfl⟩
    rw [markOneSided_keyed view]
    refine .tail _ (mem_markElements.mpr ⟨element, q, member, ?_, rfl⟩)
    cases elementSchema with
    | none => exact inside
    | some schema =>
      rcases mem_collectObjectFields.mp inside with ⟨name, u, r, listed, deeper, rfl⟩
      exact .tail _ (mem_markObjectFields.mpr
        ⟨name, u, r, listed, ih schema element name u member listed deeper, rfl⟩)
  | set info v elements view =>
    rw [collectFieldValue_set view] at leaf
    rw [markOneSided_set view]
    exact .tail _ leaf

theorem leads_of_leaf (leaf : p ∈ collectFieldValue api info v) : Exists fun inner => Leads api (info, v) p inner := by
  have marked : p ∈ markOneSided api (info, v).1 (info, v).2 := marked_of_leaf leaf
  exact leads_of_mark marked

/-- Where a leaf has no element before it, there is nothing to take apart. -/
theorem leaf_of_nil (leaf : [] ∈ collectFieldValue api info v) : shape info v = .leaf := by
  cases view : shape info v with
  | leaf => rfl
  | struct schema fields =>
    rw [collectFieldValue_struct view] at leaf
    rcases mem_collectObjectFields.mp leaf with ⟨_, _, _, _, _, impossible⟩
    cases impossible
  | generic fields =>
    rw [collectFieldValue_generic view] at leaf
    rcases List.mem_map.mp leaf with ⟨_, _, impossible⟩
    cases impossible
  | keyed listMapKeys elementSchema elements =>
    rw [collectFieldValue_keyed view] at leaf
    rcases mem_collectElements.mp leaf with ⟨_, _, _, _, impossible⟩
    cases impossible
  | set elements =>
    rw [collectFieldValue_set view] at leaf
    rcases List.mem_map.mp leaf with ⟨_, _, impossible⟩
    cases impossible

theorem leaf_below (canonical : v.Canonical) (leaf : e :: p ∈ collectFieldValue api info v)
    (fine : ¬Coarse api (info, v) (e :: p)) :
    Exists fun b => below api (shape info v) e = some b ∧ p ∈ collectFieldValue api (matchedInfo (shape info v) b.1) b.2 := by
  rcases leads_of_leaf leaf with ⟨inner, leads⟩
  rcases below_of_leads canonical leads fine with ⟨b, found, _⟩
  refine ⟨b, found, ?_⟩
  cases view : shape info v with
  | leaf =>
    rw [view] at found
    cases found
  | struct schema fields =>
    rw [view] at found
    rw [collectFieldValue_struct view] at leaf
    rcases mem_collectObjectFields.mp leaf with ⟨name, u, q, listed, inside, same⟩
    cases same
    rw [(eq_of_struct view).1] at canonical
    rw [below, Fields.get_of_mem canonical.nodup listed] at found
    cases found
    exact inside
  | generic fields =>
    rw [collectFieldValue_generic view] at leaf
    rcases List.mem_map.mp leaf with ⟨_, _, same⟩
    cases same
    rw [matchedInfo, collect_whole]
    exact .head _
  | keyed listMapKeys elementSchema elements =>
    rw [collectFieldValue_keyed view] at leaf
    rcases mem_collectElements.mp leaf with ⟨element, q, member, inside, same⟩
    cases same
    have step : Leads api (info, v) [.key (keyFields listMapKeys element)] (elementInfo elementSchema, .object element) :=
      .element view member (.here _)
    have alone : ¬Coarse api (info, v) [.key (keyFields listMapKeys element)] := by
      intro coarse
      cases coarse with
      | repeated other several =>
        cases view.symm.trans other
        exact fine (.repeated view several)
      | deeper _ rest => cases rest
    rcases below_of_leads canonical step alone with ⟨middle, first, rest⟩
    cases rest
    cases first.symm.trans found
    cases elementSchema <;> exact inside
  | set elements =>
    rw [collectFieldValue_set view] at leaf
    rcases List.mem_map.mp leaf with ⟨u, listed, same⟩
    cases same
    rw [view, below, if_pos listed] at found
    cases found
    rw [matchedInfo, collect_whole]
    exact .head _

theorem valueAt_cons (here : below api (shape info v) e = some inner) :
    valueAt api (info, v) (e :: p) = valueAt api inner p := by
  have step : partAt api (info, v) (e :: p) = partAt api inner p := partAt_cons inner here
  rw [valueAt, step, valueAt]

theorem changed_of_leaf (canonical : v.Canonical) (canonicalOther : w.Canonical)
    (leaf : p ∈ collectFieldValue api info w) (different : valueAt api (info, v) p ≠ valueAt api (info, w) p) :
    (changeAt api info v w p = some .modified ∨ changeAt api info v w p = some .added) ∨
      Coarse api (info, w) p ∨ Replaced api (info, v) w p := by
  induction p generalizing info v w with
  | nil =>
    have apart : (shape info v).alike (shape info w) = false := by
      rw [leaf_of_nil leaf]
      cases shape info v <;> rfl
    refine Or.inl (Or.inl ((changeAt_apart apart).mpr ⟨rfl, rfl, ?_⟩))
    rintro rfl
    exact different rfl
  | cons e p ih =>
    by_cases coarse : Coarse api (info, w) (e :: p)
    · exact Or.inr (Or.inl coarse)
    · rcases leaf_below canonicalOther leaf coarse with ⟨b, there, inside⟩
      have onto : Leads api (info, w) [e] b := leads_of_below there
      have fine : ¬Coarse api b p := fun deeper => coarse (.deeper onto deeper)
      cases alike : (shape info v).alike (shape info w) with
      | false =>
        refine Or.inr (Or.inr (.here alike ?_))
        rintro rfl
        exact different rfl
      | true =>
        rw [changeAt, if_pos alike, there]
        cases here : below api (shape info v) e with
        | none =>
          rcases leads_of_leaf leaf with ⟨inner, leads⟩
          rcases below_of_leads canonicalOther leads coarse with ⟨middle, found, rest⟩
          cases found.symm.trans there
          rcases marked_of_leads rest with marked | deeper
          · exact Or.inl (Or.inr (if_pos marked))
          · exact (fine deeper).elim
        | some a =>
          have same := info_of_alike alike here there
          have apart : valueAt api a p ≠ valueAt api b p := by
            rw [← valueAt_cons here, ← valueAt_cons there]
            exact different
          dsimp only
          rw [← matchedInfo_alike alike, ← same] at inside
          rcases @matchedInfo_of_fine api info w e p a coarse with kept | rfl
          · rw [← matchedInfo_alike alike] at kept
            rw [kept] at inside ⊢
            have shared : b = (a.1, b.2) := Prod.ext same.symm rfl
            rw [shared] at apart
            rcases ih (canonical_below canonical here) (canonical_below canonicalOther there)
              inside apart with changed | deeper | replaced
            · exact Or.inl changed
            · rw [← shared] at deeper
              exact (fine deeper).elim
            · exact Or.inr (Or.inr (.deeper alike here there replaced))
          · rcases ih (canonical_below canonical here) (canonical_below canonicalOther there)
              inside apart with changed | deeper | replaced
            · exact Or.inl changed
            · cases deeper
            · cases replaced

end Reach

/-- Ownership after a write: a path reported as modified or added is the writer's alone,
one reported as removed is nobody's, and any other keeps its owners.  Leaves with
another value are reported, and so are paths that lead nowhere any more, short of the
paths that are not looked at on their own and of those where another value was put. -/
theorem applyUpdate_ownership (api : OpenApi) (schema : String) (live new : Body) (managers : Managers)
    (writer : String) : Exists fun result =>
    applyUpdate api schema live.value new.value managers writer = some result ∧
    (forall p, (compare api schema live.value new.value).modified.has p = true ∨
        (compare api schema live.value new.value).added.has p = true ->
      forall manager, owns result manager p = decide (manager = writer)) ∧
    (forall p, (compare api schema live.value new.value).removed.has p = true ->
      forall manager, owns result manager p = false) ∧
    (forall p, (compare api schema live.value new.value).modified.has p = false ->
      (compare api schema live.value new.value).added.has p = false ->
      (compare api schema live.value new.value).removed.has p = false ->
      forall manager, owns result manager p = owns managers manager p) ∧
    (forall p, (setFromObject api schema new.value).has p = true ->
      valueAt api (rootInfo schema, live.value) p ≠ valueAt api (rootInfo schema, new.value) p ->
      ¬Coarse api (rootInfo schema, new.value) p -> ¬Replaced api (rootInfo schema, live.value) new.value p ->
      (compare api schema live.value new.value).modified.has p = true ∨
        (compare api schema live.value new.value).added.has p = true) ∧
    (forall p part, Leads api (rootInfo schema, live.value) p part ->
      (forall part, ¬Leads api (rootInfo schema, new.value) p part) ->
      ¬Coarse api (rootInfo schema, live.value) p -> ¬Replaced api (rootInfo schema, live.value) new.value p ->
      (compare api schema live.value new.value).removed.has p = true) ∧
    ((forall manager p, owns managers manager p = true ->
        Exists fun part => Leads api (rootInfo schema, live.value) p part) ->
      forall manager p, owns result manager p = true ->
        ¬Coarse api (rootInfo schema, live.value) p -> ¬Replaced api (rootInfo schema, live.value) new.value p ->
        Exists fun part => Leads api (rootInfo schema, new.value) p part) := by
  rcases applyUpdate_owns live.value new.value managers writer with ⟨result, run, owners⟩
  rcases compare_tells api schema live new with ⟨_, added, removed, modified, _⟩
  have gone : forall p part, Leads api (rootInfo schema, live.value) p part ->
      (forall part, ¬Leads api (rootInfo schema, new.value) p part) ->
      ¬Coarse api (rootInfo schema, live.value) p -> ¬Replaced api (rootInfo schema, live.value) new.value p ->
      (compare api schema live.value new.value).removed.has p = true := by
    intro p part leads nowhere fine kept
    rcases stays_or_removed live.canonical new.canonical leads with change | ⟨part, stays⟩ | coarse | replaced
    · exact (has_compareValues live new).mpr change
    · exact (nowhere part stays).elim
    · exact (fine coarse).elim
    · exact (kept replaced).elim
  refine ⟨result, run, ?_, ?_, ?_, ?_, gone, ?_⟩
  · intro p changed manager
    rw [owners]
    have both : (compare api schema live.value new.value).modified.has p ||
        (compare api schema live.value new.value).added.has p := by
      rwa [Bool.or_eq_true]
    split_ifs with same
    · rw [Bool.or_assoc, both, Bool.or_true, decide_eq_true same]
    · rw [both, Bool.not_true, Bool.and_false, Bool.false_and, decide_eq_false same]
  · intro p reported manager
    have unmodified := (removed p reported).1
    have unadded : (compare api schema live.value new.value).added.has p = false := by
      apply Bool.eq_false_of_not_eq_true
      intro twice
      rw [(added p twice).1] at reported
      cases reported
    rw [owners, reported, unmodified, unadded]
    simp
  · intro p unmodified unadded unremoved manager
    rw [owners, unmodified, unadded, unremoved]
    split_ifs with same <;> simp [same]
  · intro p leaf different fine kept
    have collected : p ∈ collectFieldValue api (rootInfo schema) new.value := (PathTree.has_ofPaths.mp leaf).1
    rcases changed_of_leaf live.canonical new.canonical collected different with
      (change | change) | coarse | replaced
    · exact Or.inl ((has_compareValues live new).mpr change)
    · exact Or.inr ((has_compareValues live new).mpr change)
    · exact (fine coarse).elim
    · exact (kept replaced).elim
  · intro there manager p owned fine kept
    by_contra nowhere
    rw [not_exists] at nowhere
    have unmodified : (compare api schema live.value new.value).modified.has p = false := by
      apply Bool.eq_false_of_not_eq_true
      intro reported
      rcases modified p reported with ⟨_, b, _, stands, _⟩
      exact nowhere b (leads_of_partAt stands)
    have unadded : (compare api schema live.value new.value).added.has p = false := by
      apply Bool.eq_false_of_not_eq_true
      intro reported
      rcases (added p reported).2.2.1 with ⟨part, leads, _⟩
      exact nowhere part leads
    have before : owns managers manager p = true ∧ (compare api schema live.value new.value).removed.has p = false := by
      rw [owners, unmodified, unadded] at owned
      split_ifs at owned with same <;> simpa [same] using owned
    rcases there manager p before.1 with ⟨part, leads⟩
    rw [gone p part leads nowhere fine kept] at before
    cases before.2

section Dropped

/-- A field of a map's entry, in a field that has no schema. -/
def templatePath : Path := [.field "data", .field "spec", .field "template"]

def revision : Body where
  fields := [("data", .object [("spec", .object [("template", .number (.int 1))])])]
  canonical := Value.Canonical.of_isCanonical _ (by decide +kernel)

def nothing : Body where
  fields := []
  canonical := Value.Canonical.of_isCanonical _ (by decide +kernel)

def revisionOwner : Managers :=
  SortedMap.empty.insert "controller" (PathTree.ofPaths [templatePath])

/-- The write drops the whole field, and what lies below the entry stays owned. -/
theorem droppedEntry_stays_owned :
    ¬forall (live new : Body) (managers : Managers) (writer : String) (result : Managers),
      applyUpdate deploymentTable "ControllerRevision" live.value new.value managers writer = some result ->
      (forall manager p, owns managers manager p = true ->
        Exists fun part => Leads deploymentTable (rootInfo "ControllerRevision", live.value) p part) ->
      forall manager p, owns result manager p = true ->
        Exists fun part => Leads deploymentTable (rootInfo "ControllerRevision", new.value) p part := by
  intro law
  have there : forall manager p, owns revisionOwner manager p = true ->
      Exists fun part => Leads deploymentTable (rootInfo "ControllerRevision", revision.value) p part := by
    intro manager p owned
    rw [revisionOwner, owns_insert] at owned
    split_ifs at owned with same
    · rcases PathTree.has_ofPaths.mp owned with ⟨listed, _⟩
      rw [List.mem_singleton.mp listed]
      exact ⟨_, .field rfl List.mem_cons_self (.entry rfl List.mem_cons_self (.entry rfl List.mem_cons_self (.here _)))⟩
    · cases owned
  rcases law revision nothing revisionOwner "kubectl" _ (applyUpdate_eq _ _) there "controller" templatePath
    (by decide +kernel) with ⟨part, leads⟩
  cases leads with
  | field view listed _ =>
    cases view
    cases listed
  | entry view _ _ => cases view

end Dropped

section Applied

/-- Another manager owns a path that the write modifies or adds. -/
def Contested (cmp : Comparison) (managers : Managers) (manager other : String) (p : Path) : Prop :=
  other ≠ manager ∧ owns managers other p = true ∧ (cmp.modified.has p || cmp.added.has p) = true

theorem owns_others : owns ((managers.insert manager set).filter fun name _ => name ≠ manager) name p =
    (decide (name ≠ manager) && owns managers name p) := by
  rw [owns, SortedMap.get_filter, SortedMap.get_insert, owns]
  by_cases same : name = manager
  · simp [same]
  · cases managers.get name <;> simp [same, Option.filter]

theorem exists_conflict {conflict : Conflict} (listed : conflict ∈ conflictsWith changed managers) :
    Exists fun p => conflict.fields.has p = true := by
  rcases List.mem_filterMap.mp listed with ⟨entry, _, made⟩
  rcases Option.map_eq_some_iff.mp made with ⟨shared, some, rfl⟩
  rw [PathTree.nonempty] at some
  split_ifs at some with nothing
  cases some
  by_contra none
  exact nothing (PathTree.isEmpty_iff.mpr fun p => Bool.eq_false_of_not_eq_true fun owned => none ⟨p, owned⟩)

/-- An apply is refused exactly when it is not forced and another manager owns a path
that it changes, and the conflicts are those managers and paths.  Otherwise the
manager owns what it configured, and the others lose what was changed or removed. -/
theorem apply_ownership (live config : Value) (managers : Managers) (manager : String) (force : Bool)
    (ignored : Option FieldSet) :
    let set := newSet api schema config ignored
    let cmp := compareIgnoring api schema live
      (prune api schema (merge api schema live config) (managers.insert manager set) (managers.get manager)) ignored
    match applyWithIgnoredFields api schema live config managers manager force ignored with
    | .error conflicts => force = false ∧ (Exists fun other => Exists fun p => Contested cmp managers manager other p) ∧
        forall other p, (Exists fun conflict => conflict ∈ conflicts ∧ conflict.manager = other ∧
          conflict.fields.has p = true) <-> Contested cmp managers manager other p
    | .ok applied => (force = true ∨ forall other p, ¬Contested cmp managers manager other p) ∧
        forall other p, owns applied.managers other p = if other = manager then set.has p else
          owns managers other p && !(cmp.modified.has p || cmp.added.has p) && !cmp.removed.has p := by
  intro set cmp
  let others := (managers.insert manager set).filter fun name _ => name ≠ manager
  let conflicts := conflictsWith (cmp.modified.union cmp.added) others
  have contested : forall other p, (Exists fun conflict => conflict ∈ conflicts ∧ conflict.manager = other ∧
      conflict.fields.has p = true) <-> Contested cmp managers manager other p := by
    intro other p
    have any := @any_conflictsWith other p others (cmp.modified.union cmp.added)
    rw [owns_others, has_union_eq, Bool.eq_iff_iff, List.any_eq_true] at any
    simpa [Contested, and_assoc] using any
  unfold applyWithIgnoredFields
  dsimp only
  rw [SortedMap.get_insert, if_pos rfl]
  by_cases refused : (!force && !conflicts.isEmpty) = true
  · rw [show updateWithIgnoredFields api schema live _ _ force ignored = .error conflicts from if_pos refused]
    rw [Bool.and_eq_true, Bool.not_eq_true', Bool.not_eq_true', List.isEmpty_eq_false_iff] at refused
    rcases List.exists_mem_of_ne_nil _ refused.2 with ⟨conflict, listed⟩
    rcases exists_conflict listed with ⟨p, owned⟩
    exact ⟨refused.1, ⟨_, p, (contested _ p).mp ⟨conflict, listed, rfl, owned⟩⟩, contested⟩
  · rw [show updateWithIgnoredFields api schema live _ _ force ignored =
      .ok (reconcile others conflicts cmp.removed, cmp) from if_neg refused]
    refine ⟨?_, fun other p => ?_⟩
    · cases force with
      | true => exact Or.inl rfl
      | false =>
        refine Or.inr fun other p clash => ?_
        rcases (contested other p).mpr clash with ⟨conflict, listed, _⟩
        exact refused (by simpa using List.ne_nil_of_mem listed)
    · dsimp only
      rw [owns_insert]
      split_ifs with same
      · rfl
      · rw [owns_reconcile, owns_others, decide_eq_true same, Bool.true_and, has_union_eq]

end Applied

end NotK8s.Patch

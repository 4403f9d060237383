import NotK8s.Patch.Changes

namespace NotK8s.Patch

open Library

/-!
# A comparison path by path

`changeAt` goes down a path in both values and says what the comparison
reports there, so that a path is reported on one side at most.  What is added
leads to a part of the second value and to none of the first.  Nothing is
reported exactly when the values have the same parts everywhere: associative
lists and sets may then list theirs in another order, or more than once.
-/

def Side.swap : Side -> Side
  | .removed => .added
  | .modified => .modified
  | .added => .removed

def Comparison.isSame (c : Comparison) : Bool :=
  c.removed.isEmpty && c.modified.isEmpty && c.added.isEmpty

section Specification

variable (api : OpenApi)

def changeAt (info : Option FieldMeta) (v w : Value) : Path -> Option Side
  | [] => if (shape info v).alike (shape info w) = true ∨ v = w then none else some .modified
  | e :: p =>
    if (shape info v).alike (shape info w) then
      match below api (shape info v) e, below api (shape info w) e with
      | some a, some b => changeAt (matchedInfo (shape info v) a.1) a.2 b.2 p
      | some a, none => if p ∈ markOneSided api a.1 a.2 then some .removed else none
      | none, some b => if p ∈ markOneSided api b.1 b.2 then some .added else none
      | none, none => none
    else none

/-- The values have the same parts.  Of an associative list these are the first
elements under its identities, and of a set its values. -/
inductive Same : Option FieldMeta -> Value -> Value -> Prop where
  | equal {info} (v) : Same info v v
  | fields {info v w schema} {fields others : Fields} (view : shape info v = .struct schema fields)
      (other : shape info w = .struct schema others)
      (names : forall name, (Fields.get fields name).isSome = (Fields.get others name).isSome)
      (each : forall name a b, Fields.get fields name = some a -> Fields.get others name = some b ->
        Same (api.fieldMeta schema name) a b) : Same info v w
  | elements {info v w listMapKeys elementSchema elements later}
      (view : shape info v = .keyed listMapKeys elementSchema elements)
      (other : shape info w = .keyed listMapKeys elementSchema later) (keys : listMapKeys.isEmpty = false)
      (identities : forall identity, (elementUnder listMapKeys identity elements).isSome =
        (elementUnder listMapKeys identity later).isSome)
      (each : forall identity a b, elementUnder listMapKeys identity elements = some a ->
        elementUnder listMapKeys identity later = some b ->
        Same (elementInfo elementSchema) (.object a) (.object b)) : Same info v w
  | values {info v w elements later} (view : shape info v = .set elements) (other : shape info w = .set later)
      (members : forall e, e ∈ elements <-> e ∈ later) : Same info v w

end Specification

variable {api : OpenApi} {info : Option FieldMeta} {v w : Value} {schema name : String} {fields others : Fields}
  {listMapKeys : List String} {elementSchema : Option String} {elements later : List Value}
  {e : PathElement} {p q : Path} {side : Side} {a b part : Part}

section Reading

theorem mem_compareLeaf : (side, p) ∈ compareLeaf v w <-> p = [] ∧ side = .modified ∧ v ≠ w := by
  rw [compareLeaf]
  by_cases same : v = w
  · simp [same]
  · rw [if_neg same, List.mem_singleton, Prod.mk.injEq, and_comm]
    simp [same]

theorem changeAt_apart (apart : (shape info v).alike (shape info w) = false) :
    changeAt api info v w p = some side <-> p = [] ∧ side = .modified ∧ v ≠ w := by
  cases p with
  | nil =>
    rw [changeAt, apart]
    by_cases same : v = w
    · simp [same]
    · simp [same, eq_comm]
  | cons e p =>
    rw [changeAt, apart]
    simp

theorem changeAt_iff (canonical : v.Canonical) (canonicalOther : w.Canonical) :
    (side, p) ∈ comparePresent api info v w <-> changeAt api info v w p = some side := by
  induction p generalizing info v w with
  | nil =>
    cases alike : (shape info v).alike (shape info w) with
    | false => rw [comparePresent_apart alike, mem_compareLeaf, changeAt_apart alike]
    | true =>
      rw [mem_comparePresent canonical canonicalOther alike, changeAt, if_pos (Or.inl alike)]
      simp
  | cons e p ih =>
    cases alike : (shape info v).alike (shape info w) with
    | false => rw [comparePresent_apart alike, mem_compareLeaf, changeAt_apart alike]
    | true =>
      rw [mem_comparePresent canonical canonicalOther alike, changeAt, if_pos alike]
      have first : (Exists fun f => Exists fun q => e :: p = f :: q ∧
          (side, q) ∈ matched api (shape info v) (below api (shape info v) f) (below api (shape info w) f)) <->
          (side, p) ∈ matched api (shape info v) (below api (shape info v) e) (below api (shape info w) e) := by
        constructor
        · rintro ⟨f, q, same, inside⟩
          cases same
          exact inside
        · intro inside
          exact ⟨e, p, rfl, inside⟩
      rw [first]
      cases here : below api (shape info v) e with
      | none =>
        cases there : below api (shape info w) e with
        | none => simp [matched]
        | some b =>
          rw [matched, mem_marked]
          dsimp only
          split_ifs with marked
          · simp [marked, eq_comm]
          · simp [marked]
      | some a =>
        cases there : below api (shape info w) e with
        | none =>
          rw [matched, mem_marked]
          dsimp only
          split_ifs with marked
          · simp [marked, eq_comm]
          · simp [marked]
        | some b =>
          rw [matched]
          exact ih (canonical_below canonical here) (canonical_below canonicalOther there)

theorem changeAt_whole : changeAt api wholeInfo v w p = some side <-> p = [] ∧ side = .modified ∧ v ≠ w :=
  changeAt_apart (by rw [shape_whole, shape_whole]; rfl)

theorem changeAt_swap : changeAt api info w v p = (changeAt api info v w p).map Side.swap := by
  induction p generalizing info v w with
  | nil =>
    rw [changeAt, changeAt, Shape.alike_symm]
    simp only [@eq_comm _ w v]
    split_ifs <;> rfl
  | cons e p ih =>
    rw [changeAt, changeAt, Shape.alike_symm]
    cases alike : (shape info v).alike (shape info w) with
    | false => rfl
    | true =>
      rw [if_pos rfl, if_pos rfl]
      cases here : below api (shape info v) e with
      | none =>
        cases there : below api (shape info w) e with
        | none => rfl
        | some b =>
          dsimp only
          split_ifs <;> rfl
      | some a =>
        cases there : below api (shape info w) e with
        | none =>
          dsimp only
          split_ifs <;> rfl
        | some b =>
          dsimp only
          rw [← info_of_alike alike here there, ← matchedInfo_alike alike, ih]

end Reading

section Meaning

theorem leads_of_mark (marked : p ∈ markOneSided api part.1 part.2) : Exists fun inner => Leads api part p inner := by
  rcases part with ⟨info, v⟩
  induction info, v using @shapeInduction api generalizing p with
  | leaf info v view =>
    rw [markOneSided_leaf view, List.mem_singleton] at marked
    rw [marked]
    exact ⟨_, .here _⟩
  | struct info v schema fields view ih =>
    rw [markOneSided_struct view] at marked
    rcases List.mem_cons.mp marked with rfl | inside
    · exact ⟨_, .here _⟩
    · rcases mem_markObjectFields.mp inside with ⟨name, u, q, listed, there, rfl⟩
      rcases ih name u listed there with ⟨inner, leads⟩
      exact ⟨inner, .field view listed leads⟩
  | generic info v fields view =>
    rw [markOneSided_generic view] at marked
    rcases List.mem_cons.mp marked with rfl | inside
    · exact ⟨_, .here _⟩
    · rcases List.mem_map.mp inside with ⟨⟨name, u⟩, listed, rfl⟩
      exact ⟨_, .entry view listed (.here _)⟩
  | keyed info v listMapKeys elementSchema elements view ih =>
    rw [markOneSided_keyed view] at marked
    rcases List.mem_cons.mp marked with rfl | inside
    · exact ⟨_, .here _⟩
    · rcases mem_markElements.mp inside with ⟨element, q, member, there, rfl⟩
      cases elementSchema with
      | none =>
        rw [markOneSidedElement, List.mem_singleton] at there
        rw [there]
        exact ⟨_, .element view member (.here _)⟩
      | some schema =>
        rcases List.mem_cons.mp there with rfl | within
        · exact ⟨_, .element view member (.here _)⟩
        · rcases mem_markObjectFields.mp within with ⟨name, u, r, listed, deeper, rfl⟩
          rcases ih schema element name u member listed deeper with ⟨inner, leads⟩
          exact ⟨inner, .element view member (.field (shape_root schema element) listed leads)⟩
  | set info v elements view =>
    rw [markOneSided_set view] at marked
    rcases List.mem_cons.mp marked with rfl | inside
    · exact ⟨_, .here _⟩
    · rcases List.mem_map.mp inside with ⟨u, listed, rfl⟩
      exact ⟨_, .value view listed⟩

theorem partAt_cons (inner : Part) (here : below api (shape part.1 part.2) e = some inner) :
    partAt api part (e :: p) = partAt api inner p := by
  rw [partAt, here]
  rfl

theorem partAt_cons_none (here : below api (shape part.1 part.2) e = none) : partAt api part (e :: p) = none := by
  rw [partAt, here]
  rfl

/-- Below an entry of a map without a schema nothing is added or removed on its own. -/
theorem matchedInfo_of_change {s : Shape} (change : changeAt api (matchedInfo s info) v w p = some side)
    (oneSided : side ≠ .modified) : matchedInfo s info = info := by
  cases s with
  | generic fields => exact (oneSided (changeAt_whole.mp change).2.1).elim
  | _ => rfl

theorem added_meaning (change : changeAt api info v w p = some .added) :
    (Exists fun part => Leads api (info, w) p part) ∧ partAt api (info, v) p = none := by
  induction p generalizing info v w with
  | nil =>
    rw [changeAt] at change
    split_ifs at change
    cases change
  | cons e p ih =>
    rw [changeAt] at change
    split_ifs at change with alike
    cases here : below api (shape info v) e with
    | none =>
      refine ⟨?_, partAt_cons_none here⟩
      cases there : below api (shape info w) e with
      | none =>
        rw [here, there] at change
        cases change
      | some b =>
        rw [here, there] at change
        dsimp only at change
        split_ifs at change with marked
        rcases leads_of_mark marked with ⟨inner, leads⟩
        have first : Leads api (info, w) [e] b := leads_of_below there
        exact ⟨inner, first.trans leads⟩
    | some a =>
      cases there : below api (shape info w) e with
      | none =>
        rw [here, there] at change
        dsimp only at change
        split_ifs at change
        cases change
      | some b =>
        rw [here, there] at change
        dsimp only at change
        have kept := matchedInfo_of_change change nofun
        rw [kept] at change
        rcases ih change with ⟨⟨inner, leads⟩, absent⟩
        have first : Leads api (info, w) [e] b := leads_of_below there
        rw [info_of_alike alike here there] at leads
        exact ⟨⟨inner, first.trans leads⟩, (partAt_cons a here).trans absent⟩

theorem removed_meaning (change : changeAt api info v w p = some .removed) :
    (Exists fun part => Leads api (info, v) p part) ∧ partAt api (info, w) p = none := by
  apply added_meaning
  rw [changeAt_swap, change]
  rfl

theorem modified_meaning (change : changeAt api info v w p = some .modified) :
    Exists fun a => Exists fun b => partAt api (info, v) p = some a ∧ partAt api (info, w) p = some b ∧ a.2 ≠ b.2 := by
  induction p generalizing info v w with
  | nil =>
    rw [changeAt] at change
    split_ifs at change with same
    exact ⟨_, _, rfl, rfl, fun equal => same (Or.inr equal)⟩
  | cons e p ih =>
    rw [changeAt] at change
    split_ifs at change with alike
    cases here : below api (shape info v) e with
    | none =>
      cases there : below api (shape info w) e with
      | none =>
        rw [here, there] at change
        cases change
      | some b =>
        rw [here, there] at change
        dsimp only at change
        split_ifs at change
        cases change
    | some a =>
      cases there : below api (shape info w) e with
      | none =>
        rw [here, there] at change
        dsimp only at change
        split_ifs at change
        cases change
      | some b =>
        rw [here, there] at change
        rw [partAt_cons a here, partAt_cons b there]
        cases view : shape info v with
        | generic fields =>
          rw [view] at change
          rcases changeAt_whole.mp change with ⟨rfl, _, different⟩
          exact ⟨a, b, rfl, rfl, different⟩
        | _ =>
          rw [view] at change
          have kept : b = (a.1, b.2) := Prod.ext (info_of_alike alike here there).symm rfl
          rw [kept]
          exact ih change

/-- Every part is a leaf, or is taken apart further, or lies below an entry of a map
without a schema, which is a leaf itself. -/
theorem leaf_or_container (leads : Leads api part p a) :
    p ∈ collectFieldValue api part.1 part.2 ∨ shape a.1 a.2 ≠ .leaf ∨
      Exists fun l => Exists fun r => l ∈ collectFieldValue api part.1 part.2 ∧ r ≠ [] ∧ p = l ++ r := by
  induction leads with
  | here part =>
    cases view : shape part.1 part.2 with
    | leaf =>
      rw [collectFieldValue_leaf view]
      exact Or.inl (.head _)
    | _ => exact Or.inr (Or.inl nofun)
  | field view listed _ ih =>
    rw [collectFieldValue_struct view]
    rcases ih with leaf | container | ⟨l, r, leaf, more, rfl⟩
    · exact Or.inl (mem_collectObjectFields.mpr ⟨_, _, _, listed, leaf, rfl⟩)
    · exact Or.inr (Or.inl container)
    · exact Or.inr (Or.inr ⟨_, r, mem_collectObjectFields.mpr ⟨_, _, l, listed, leaf, rfl⟩, more, rfl⟩)
  | @entry _ _ fields name u p view listed _ _ =>
    rw [collectFieldValue_generic view]
    have leaf : [PathElement.field name] ∈ fields.map fun field => [PathElement.field field.1] :=
      List.mem_map.mpr ⟨(name, u), listed, rfl⟩
    cases p with
    | nil => exact Or.inl leaf
    | cons e p => exact Or.inr (Or.inr ⟨_, e :: p, leaf, List.cons_ne_nil _ _, rfl⟩)
  | @element _ _ _ elementSchema _ element p view listed _ ih =>
    rw [collectFieldValue_keyed view]
    have leaves : collectFieldValue api (elementInfo elementSchema) (.object element) =
        elementLeaves api elementSchema element := by
      cases elementSchema <;> rfl
    rw [leaves] at ih
    rcases ih with leaf | container | ⟨l, r, leaf, more, rfl⟩
    · exact Or.inl (mem_collectElements.mpr ⟨element, p, listed, leaf, rfl⟩)
    · exact Or.inr (Or.inl container)
    · exact Or.inr (Or.inr ⟨_, r, mem_collectElements.mpr ⟨element, l, listed, leaf, rfl⟩, more, rfl⟩)
  | value view listed =>
    rw [collectFieldValue_set view]
    exact Or.inl (List.mem_map.mpr ⟨_, listed, rfl⟩)

end Meaning

section Sameness

/-- Nothing is reported of values taken apart in the same way when both have the
same parts and nothing is reported of these. -/
theorem unchanged_iff (alike : (shape info v).alike (shape info w) = true) :
    (forall p, changeAt api info v w p = none) <->
      (forall e, (below api (shape info v) e).isSome = (below api (shape info w) e).isSome) ∧
        forall e a b, below api (shape info v) e = some a -> below api (shape info w) e = some b ->
          forall p, changeAt api (matchedInfo (shape info v) a.1) a.2 b.2 p = none := by
  constructor
  · intro nothing
    constructor
    · intro e
      have quiet := nothing [e]
      rw [changeAt, if_pos alike] at quiet
      cases here : below api (shape info v) e with
      | none =>
        cases there : below api (shape info w) e with
        | none => rfl
        | some b =>
          rw [here, there] at quiet
          dsimp only at quiet
          rw [if_pos nil_mem_markOneSided] at quiet
          cases quiet
      | some a =>
        cases there : below api (shape info w) e with
        | none =>
          rw [here, there] at quiet
          dsimp only at quiet
          rw [if_pos nil_mem_markOneSided] at quiet
          cases quiet
        | some b => rfl
    · intro e a b here there p
      have quiet := nothing (e :: p)
      rw [changeAt, if_pos alike, here, there] at quiet
      exact quiet
  · rintro ⟨both, quiet⟩ p
    cases p with
    | nil => rw [changeAt, if_pos (Or.inl alike)]
    | cons e p =>
      rw [changeAt, if_pos alike]
      have shared := both e
      cases here : below api (shape info v) e with
      | none =>
        rw [here] at shared
        rw [Option.isSome_eq_false_iff.mp shared.symm |> Option.isNone_iff_eq_none.mp]
      | some a =>
        rw [here] at shared
        rcases Option.isSome_iff_exists.mp shared.symm with ⟨b, there⟩
        rw [there]
        exact quiet e a b here there p

theorem unchanged_self (p : Path) : changeAt api info v v p = none := by
  induction p generalizing info v with
  | nil => rw [changeAt, if_pos (Or.inr rfl)]
  | cons e p ih =>
    rw [changeAt]
    split_ifs with alike
    · cases here : below api (shape info v) e with
      | none => rfl
      | some a => exact ih
    · rfl

theorem unchanged_of_same (same : Same api info v w) (p : Path) : changeAt api info v w p = none := by
  induction same generalizing p with
  | equal v => exact unchanged_self p
  | fields view other names _ ih =>
    refine (unchanged_iff (by rw [view, other]; rfl)).mpr ⟨?_, ?_⟩ p
    · intro e
      rw [view, other]
      cases e with
      | field name =>
        rw [below, below, Option.isSome_map, Option.isSome_map]
        exact names name
      | _ => rfl
    · intro e a b here there
      rw [view] at here
      rw [other] at there
      cases e with
      | field name =>
        rcases Option.map_eq_some_iff.mp here with ⟨u, found, rfl⟩
        rcases Option.map_eq_some_iff.mp there with ⟨u', found', rfl⟩
        rw [view]
        exact ih name u u' found found'
      | _ => cases here
  | elements view other keys identities _ ih =>
    refine (unchanged_iff (by rw [view, other, Shape.alike, keys]; rfl)).mpr ⟨?_, ?_⟩ p
    · intro e
      rw [view, other]
      cases e with
      | key identity =>
        rw [below, below, Option.isSome_map, Option.isSome_map]
        exact identities identity
      | _ => rfl
    · intro e a b here there
      rw [view] at here
      rw [other] at there
      cases e with
      | key identity =>
        rcases Option.map_eq_some_iff.mp here with ⟨u, found, rfl⟩
        rcases Option.map_eq_some_iff.mp there with ⟨u', found', rfl⟩
        rw [view]
        exact ih identity u u' found found'
      | _ => cases here
  | values view other members =>
    refine (unchanged_iff (by rw [view, other]; rfl)).mpr ⟨?_, ?_⟩ p
    · intro e
      rw [view, other]
      cases e with
      | value u =>
        rw [below, below]
        split_ifs with here there there
        · rfl
        · exact absurd ((members u).mp here) there
        · exact absurd ((members u).mpr there) here
        · rfl
      | _ => rfl
    · intro e a b here there
      rw [view] at here
      rw [other] at there
      cases e with
      | value u =>
        rw [below] at here there
        split_ifs at here there
        cases here
        cases there
        exact unchanged_self
      | _ => cases here

theorem Value.Canonical.sorted (canonical : (Value.object fields).Canonical) : KeySorted Prod.fst fields := by
  cases canonical with
  | object sorted _ => exact sorted

theorem eq_of_get (sorted : KeySorted Prod.fst fields) (sortedOthers : KeySorted Prod.fst others)
    (agree : forall name, Fields.get fields name = Fields.get others name) : fields = others := by
  apply sorted.eq_of_mem_iff sortedOthers
  rintro ⟨name, u⟩
  constructor
  · intro listed
    have found := Fields.get_of_mem (names_nodup sorted) listed
    exact Fields.mem_of_get ((agree name).symm.trans found)
  · intro listed
    have found := Fields.get_of_mem (names_nodup sortedOthers) listed
    exact Fields.mem_of_get ((agree name).trans found)

theorem same_of_unchanged (canonical : v.Canonical) (canonicalOther : w.Canonical)
    (nothing : forall p, changeAt api info v w p = none) : Same api info v w := by
  induction size : sizeOf v using Nat.strong_induction_on generalizing info v w with
  | _ n ih =>
    cases alike : (shape info v).alike (shape info w) with
    | false =>
      by_cases equal : v = w
      · rw [equal]
        exact .equal w
      · have reported : changeAt api info v w [] = some .modified := (changeAt_apart alike).mpr ⟨rfl, rfl, equal⟩
        rw [nothing []] at reported
        cases reported
    | true =>
      rcases (unchanged_iff alike).mp nothing with ⟨both, quiet⟩
      have inside : forall e a b, below api (shape info v) e = some a -> below api (shape info w) e = some b ->
          Same api (matchedInfo (shape info v) a.1) a.2 b.2 := by
        intro e a b here there
        exact ih (sizeOf a.2) (size ▸ sizeOf_below here) (canonical_below canonical here)
          (canonical_below canonicalOther there) (quiet e a b here there) rfl
      cases view : shape info v with
      | leaf =>
        rw [view] at alike
        cases alike
      | struct schema fields =>
        rcases alike_struct view alike with ⟨others, other⟩
        rw [view, other] at both inside
        refine .fields view other ?_ ?_
        · intro name
          have shared := both (.field name)
          rwa [below, below, Option.isSome_map, Option.isSome_map] at shared
        · intro name a b found found'
          exact inside (.field name) (_, a) (_, b) (by rw [below, found]; rfl) (by rw [below, found']; rfl)
      | generic fields =>
        rcases alike_generic view alike with ⟨others, other⟩
        rw [view, other] at both inside
        rw [(eq_of_generic view).1] at canonical
        rw [(eq_of_generic other).1] at canonicalOther
        have agree : forall name, Fields.get fields name = Fields.get others name := by
          intro name
          have shared := both (.field name)
          rw [below, below, Option.isSome_map, Option.isSome_map] at shared
          cases found : Fields.get fields name with
          | none =>
            rw [found] at shared
            exact (Option.isNone_iff_eq_none.mp (Option.isSome_eq_false_iff.mp shared.symm)).symm
          | some a =>
            rw [found] at shared
            rcases Option.isSome_iff_exists.mp shared.symm with ⟨b, found'⟩
            have same := inside (.field name) (none, a) (none, b) (by rw [below, found]; rfl)
              (by rw [below, found']; rfl)
            rw [found']
            by_contra different
            have reported : changeAt api wholeInfo a b [] = some .modified :=
              changeAt_whole.mpr ⟨rfl, rfl, fun equal => different (congrArg some equal)⟩
            have quiet : changeAt api wholeInfo a b [] = none := unchanged_of_same same []
            rw [quiet] at reported
            cases reported
        rw [(eq_of_generic view).1, (eq_of_generic other).1,
          eq_of_get canonical.sorted canonicalOther.sorted agree]
        exact .equal _
      | keyed listMapKeys elementSchema elements =>
        rcases alike_keyed view alike with ⟨keys, later, other⟩
        rw [view, other] at both inside
        refine .elements view other keys ?_ ?_
        · intro identity
          have shared := both (.key identity)
          rwa [below, below, Option.isSome_map, Option.isSome_map] at shared
        · intro identity a b found found'
          exact inside (.key identity) (_, .object a) (_, .object b) (by rw [below, found]; rfl)
            (by rw [below, found']; rfl)
      | set elements =>
        rcases alike_set view alike with ⟨later, other⟩
        rw [view, other] at both
        refine .values view other ?_
        intro u
        have shared := both (.value u)
        rw [below, below] at shared
        split_ifs at shared with here there there
        · exact iff_of_true here there
        · cases shared
        · cases shared
        · exact iff_of_false here there

end Sameness

section Root

theorem has_paths {changes : Changes} : (changes.paths side).has p = true <-> (side, p) ∈ changes ∧ p ≠ [] := by
  rw [Changes.paths, PathTree.has_ofPaths, List.mem_map]
  apply and_congr_left
  intro _
  constructor
  · rintro ⟨⟨other, q⟩, kept, rfl⟩
    rcases List.mem_filter.mp kept with ⟨listed, named⟩
    cases of_decide_eq_true named
    exact listed
  · intro listed
    exact ⟨(side, p), List.mem_filter.mpr ⟨listed, decide_eq_true rfl⟩, rfl⟩

theorem has_compareValues (x y : Body) :
    ((compareValues api schema x.value y.value).paths side).has p = true <->
      changeAt api (rootInfo schema) x.value y.value p = some side := by
  have reads : compareValues api schema x.value y.value = comparePresent api (rootInfo schema) x.value y.value := rfl
  rw [has_paths, reads, @changeAt_iff api (rootInfo schema) x.value y.value p side x.canonical y.canonical]
  constructor
  · exact And.left
  · intro change
    refine ⟨change, ?_⟩
    rintro rfl
    have alike : (shape (rootInfo schema) x.value).alike (shape (rootInfo schema) y.value) = true := rfl
    rw [changeAt, if_pos (Or.inl alike)] at change
    cases change

theorem isSame_iff (x y : Body) :
    (compare api schema x.value y.value).isSame = true <-> Same api (rootInfo schema) x.value y.value := by
  have quiet : (compare api schema x.value y.value).isSame = true <->
      forall p, changeAt api (rootInfo schema) x.value y.value p = none := by
    rw [Comparison.isSame, Bool.and_eq_true, Bool.and_eq_true, PathTree.isEmpty_iff, PathTree.isEmpty_iff,
      PathTree.isEmpty_iff]
    constructor
    · rintro ⟨⟨removed, modified⟩, added⟩ p
      by_contra change
      rcases Option.ne_none_iff_exists'.mp change with ⟨side, found⟩
      have reported := (has_compareValues x y).mpr found
      cases side with
      | removed => exact Bool.false_ne_true ((removed p).symm.trans reported)
      | modified => exact Bool.false_ne_true ((modified p).symm.trans reported)
      | added => exact Bool.false_ne_true ((added p).symm.trans reported)
    · intro nothing
      have unreported : forall side p, ((compareValues api schema x.value y.value).paths side).has p = false := by
        intro side p
        apply Bool.eq_false_of_not_eq_true
        intro reported
        rw [has_compareValues x y, nothing p] at reported
        cases reported
      exact ⟨⟨unreported .removed, unreported .modified⟩, unreported .added⟩
  rw [quiet]
  constructor
  · exact same_of_unchanged x.canonical y.canonical
  · exact unchanged_of_same

/-- The path leads to a part of the object.  It is a leaf of its field set, or there is
a container or an element there, or it goes on below the entry of a map without a schema. -/
def IsPathOf (api : OpenApi) (schema : String) (o : Body) (p : Path) : Prop :=
  Exists fun part => Leads api (rootInfo schema, o.value) p part ∧
    ((setFromObject api schema o.value).has p = true ∨ shape part.1 part.2 ≠ .leaf ∨
      Exists fun l => Exists fun r => (setFromObject api schema o.value).has l = true ∧ r ≠ [] ∧ p = l ++ r)

theorem isPathOf_of_leads (o : Body) (leads : Leads api (rootInfo schema, o.value) p part) (nonempty : p ≠ []) :
    IsPathOf api schema o p := by
  have leaf : forall {l}, l ∈ collectFieldValue api (rootInfo schema) o.value ->
      (setFromObject api schema o.value).has l = true := by
    intro l collected
    refine PathTree.has_ofPaths.mpr ⟨collected, ?_⟩
    rintro rfl
    rcases mem_collectObjectFields.mp collected with ⟨_, _, _, _, _, impossible⟩
    cases impossible
  refine ⟨part, leads, ?_⟩
  rcases leaf_or_container leads with collected | container | ⟨l, r, collected, more, rfl⟩
  · exact Or.inl (leaf collected)
  · exact Or.inr (Or.inl container)
  · exact Or.inr (Or.inr ⟨l, r, leaf collected, more, rfl⟩)

end Root

/-- What a comparison of two objects tells: whether they are the same; on which one
side a path is reported; where it leads in either object; and the same with the
objects exchanged. -/
theorem compare_tells (api : OpenApi) (schema : String) (x y : Body) :
    ((compare api schema x.value y.value).isSame = true <-> Same api (rootInfo schema) x.value y.value) ∧
    (forall p, (compare api schema x.value y.value).added.has p = true ->
      (compare api schema x.value y.value).removed.has p = false ∧
      (compare api schema x.value y.value).modified.has p = false ∧
      IsPathOf api schema y p ∧ partAt api (rootInfo schema, x.value) p = none) ∧
    (forall p, (compare api schema x.value y.value).removed.has p = true ->
      (compare api schema x.value y.value).modified.has p = false ∧
      IsPathOf api schema x p ∧ partAt api (rootInfo schema, y.value) p = none) ∧
    (forall p, (compare api schema x.value y.value).modified.has p = true ->
      Exists fun a => Exists fun b => partAt api (rootInfo schema, x.value) p = some a ∧
        partAt api (rootInfo schema, y.value) p = some b ∧ a.2 ≠ b.2) ∧
    (forall p, (compare api schema y.value x.value).added.has p = (compare api schema x.value y.value).removed.has p ∧
      (compare api schema y.value x.value).removed.has p = (compare api schema x.value y.value).added.has p ∧
      (compare api schema y.value x.value).modified.has p = (compare api schema x.value y.value).modified.has p) := by
  have apart : forall {p side other}, changeAt api (rootInfo schema) x.value y.value p = some side -> other ≠ side ->
      ((compareValues api schema x.value y.value).paths other).has p = false := by
    intro p side other change different
    apply Bool.eq_false_of_not_eq_true
    intro reported
    rw [has_compareValues x y, change] at reported
    cases reported
    exact different rfl
  have swapped : forall side p, ((compareValues api schema y.value x.value).paths side.swap).has p =
      ((compareValues api schema x.value y.value).paths side).has p := by
    intro side p
    rw [Bool.eq_iff_iff, has_compareValues y x, has_compareValues x y, changeAt_swap]
    cases changeAt api (rootInfo schema) x.value y.value p with
    | none => simp
    | some reported => cases reported <;> cases side <;> simp [Side.swap]
  have nonempty : forall {p side}, ((compareValues api schema x.value y.value).paths side).has p = true -> p ≠ [] := by
    intro p side reported
    exact (has_paths.mp reported).2
  refine ⟨isSame_iff x y, ?_, ?_, ?_, ?_⟩
  · intro p reported
    have change := (has_compareValues x y).mp reported
    rcases added_meaning change with ⟨⟨part, leads⟩, absent⟩
    exact ⟨apart change nofun, apart change nofun, isPathOf_of_leads y leads (nonempty reported), absent⟩
  · intro p reported
    have change := (has_compareValues x y).mp reported
    rcases removed_meaning change with ⟨⟨part, leads⟩, absent⟩
    exact ⟨apart change nofun, isPathOf_of_leads x leads (nonempty reported), absent⟩
  · intro p reported
    exact modified_meaning ((has_compareValues x y).mp reported)
  · intro p
    exact ⟨swapped .removed p, swapped .added p, swapped .modified p⟩

/-- A Deployment whose `spec` has a schema. -/
def deploymentTable : OpenApi where
  fieldMeta := fun schema field =>
    if schema = "Deployment" ∧ field = "spec" then some { refSchema := some "DeploymentSpec" } else none
  typeInfo := fun _ _ => false
  unnamed := by
    intro field
    exact ⟨if_neg (by simp), rfl⟩

/-- A `spec` that is new is added itself, with its fields; and an empty one is a change. -/
theorem newSpec_is_added :
    ((compare deploymentTable "Deployment" (.object []) (.object [("spec", .object [("replicas", .number (.int 1))])])).added.has
        [.field "spec"] = true ∧
      (setFromObject deploymentTable "Deployment" (.object [("spec", .object [("replicas", .number (.int 1))])])).has
        [.field "spec"] = false) ∧
    (compare deploymentTable "Deployment" (.object []) (.object [("spec", .object [])])).isSame = false := by
  decide +kernel

end NotK8s.Patch

import NotK8s.Patch.Canonical

namespace NotK8s.Patch

open Library

/-!
# The parts of a document

One path element leads from a value to one of its parts: a field of an
object, an entry of a map without a schema, the first element under an
identity, or a value of a set.  A part is kept with the field it was found
under, as the tables describe it, since that tells how to go on.
-/

abbrev Part := Option FieldMeta × Value

/-- A field whose value has no parts. -/
def wholeInfo : Option FieldMeta := some { mapType := some .atomic }

def elementInfo : Option String -> Option FieldMeta
  | some schema => rootInfo schema
  | none => wholeInfo

/-- The fields of a whole object. -/
structure Body where
  fields : Fields
  canonical : (Value.object fields).Canonical

def Body.value (b : Body) : Value :=
  .object b.fields

def elementsUnder (listMapKeys : List String) (identity : Fields) (elements : List Value) : List Fields :=
  (elements.filterMap Value.asObject).filter fun element => keyFields listMapKeys element = identity

variable (api : OpenApi)

section Reading

def below : Shape -> PathElement -> Option Part
  | .struct schema fields, .field name => (Fields.get fields name).map fun u => (api.fieldMeta schema name, u)
  | .generic fields, .field name => (Fields.get fields name).map fun u => (none, u)
  | .keyed listMapKeys elementSchema elements, .key identity =>
    (elementUnder listMapKeys identity elements).map fun element => (elementInfo elementSchema, .object element)
  | .set elements, .value e => if e ∈ elements then some (wholeInfo, e) else none
  | _, _ => none

/-- The part at the path, of each associative list the first element under an identity. -/
def partAt (part : Part) : Path -> Option Part
  | [] => some part
  | e :: p => (below api (shape part.1 part.2) e).bind fun inner => partAt inner p

def valueAt (part : Part) (p : Path) : Option Value :=
  (partAt api part p).map Prod.snd

/-- The path leads to a part, through any of the elements under an identity. -/
inductive Leads : Part -> Path -> Part -> Prop where
  | here (part : Part) : Leads part [] part
  | field {part inner : Part} {schema : String} {fields : Fields} {name : String} {u : Value} {p : Path}
      (view : shape part.1 part.2 = .struct schema fields) (listed : (name, u) ∈ fields)
      (rest : Leads (api.fieldMeta schema name, u) p inner) : Leads part (.field name :: p) inner
  | entry {part inner : Part} {fields : Fields} {name : String} {u : Value} {p : Path}
      (view : shape part.1 part.2 = .generic fields) (listed : (name, u) ∈ fields)
      (rest : Leads (none, u) p inner) : Leads part (.field name :: p) inner
  | element {part inner : Part} {listMapKeys : List String} {elementSchema : Option String}
      {elements : List Value} {element : Fields} {p : Path}
      (view : shape part.1 part.2 = .keyed listMapKeys elementSchema elements)
      (listed : .object element ∈ elements)
      (rest : Leads (elementInfo elementSchema, .object element) p inner) :
      Leads part (.key (keyFields listMapKeys element) :: p) inner
  | value {part : Part} {elements : List Value} {e : Value}
      (view : shape part.1 part.2 = .set elements) (listed : e ∈ elements) :
      Leads part [.value e] (wholeInfo, e)

end Reading

/-- Both are taken apart, and in the same way.  An associative list without
keys has nothing to match its elements by. -/
def Shape.alike : Shape -> Shape -> Bool
  | .struct _ _, .struct _ _ | .generic _, .generic _ | .set _, .set _ => true
  | .keyed listMapKeys _ _, .keyed otherKeys _ _ => !listMapKeys.isEmpty && !otherKeys.isEmpty
  | _, _ => false

/-- The entries of a map without a schema are compared and merged whole. -/
def matchedInfo : Shape -> Option FieldMeta -> Option FieldMeta
  | .generic _, _ => wholeInfo
  | .leaf, info | .struct _ _, info | .keyed _ _ _, info | .set _, info => info

variable {api} {info : Option FieldMeta} {v w : Value} {schema : String} {fields others : Fields}
  {listMapKeys : List String} {elementSchema : Option String} {elements later : List Value} {s t : Shape}
  {e : PathElement} {p q : Path} {part inner a b : Part} {identity element : Fields}

section Elements

theorem mem_elementsUnder :
    element ∈ elementsUnder listMapKeys identity elements <->
      .object element ∈ elements ∧ keyFields listMapKeys element = identity := by
  rw [elementsUnder, List.mem_filter, List.mem_filterMap, decide_eq_true_eq]
  apply and_congr_left
  intro _
  constructor
  · rintro ⟨e, member, found⟩
    cases e with
    | object fs =>
      cases found
      exact member
    | _ => cases found
  · intro member
    exact ⟨.object element, member, rfl⟩

theorem elementsUnder_cons_object :
    elementsUnder listMapKeys identity (.object element :: elements) =
      if keyFields listMapKeys element = identity then
        element :: elementsUnder listMapKeys identity elements
      else elementsUnder listMapKeys identity elements := by
  have here : Value.asObject (.object element) = some element := rfl
  rw [elementsUnder, List.filterMap_cons_some here, List.filter_cons]
  simp only [decide_eq_true_eq]
  rfl

theorem elementUnder_eq_head : elementUnder listMapKeys identity elements = (elementsUnder listMapKeys identity elements).head? := by
  induction elements with
  | nil => rfl
  | cons head rest ih =>
    cases head with
    | object fs =>
      rw [elementUnder, elementsUnder_cons_object, ih]
      split_ifs <;> rfl
    | _ => exact ih

theorem mem_of_elementUnder (found : elementUnder listMapKeys identity elements = some element) :
    .object element ∈ elements ∧ keyFields listMapKeys element = identity := by
  rw [elementUnder_eq_head] at found
  exact mem_elementsUnder.mp (List.mem_of_mem_head? found)

end Elements

section Shapes

theorem shape_whole (v : Value) : shape wholeInfo v = .leaf := by
  cases v <;> rfl

theorem collect_whole (v : Value) : collectFieldValue api wholeInfo v = [[]] :=
  collectFieldValue_leaf (shape_whole v)

theorem mark_whole (v : Value) : markOneSided api wholeInfo v = [[]] :=
  markOneSided_leaf (shape_whole v)

theorem Shape.alike_symm : s.alike t = t.alike s := by
  cases s <;> cases t <;> first | rfl | exact Bool.and_comm _ _

theorem alike_struct (view : shape info v = .struct schema fields)
    (alike : (shape info v).alike (shape info w) = true) :
    Exists fun others => shape info w = .struct schema others := by
  rw [view] at alike
  cases other : shape info w with
  | struct otherSchema others =>
    cases (eq_of_struct view).2.2.symm.trans (eq_of_struct other).2.2
    exact ⟨others, rfl⟩
  | _ =>
    rw [other] at alike
    cases alike

theorem alike_generic (view : shape info v = .generic fields)
    (alike : (shape info v).alike (shape info w) = true) :
    Exists fun others => shape info w = .generic others := by
  rw [view] at alike
  cases other : shape info w with
  | generic others => exact ⟨others, rfl⟩
  | _ =>
    rw [other] at alike
    cases alike

theorem alike_keyed (view : shape info v = .keyed listMapKeys elementSchema elements)
    (alike : (shape info v).alike (shape info w) = true) :
    listMapKeys.isEmpty = false ∧ Exists fun later => shape info w = .keyed listMapKeys elementSchema later := by
  rw [view] at alike
  cases other : shape info w with
  | keyed otherKeys otherSchema later =>
    rcases eq_of_keyed view with ⟨_, _, keyed, referenced⟩
    rcases eq_of_keyed other with ⟨_, _, otherKeyed, otherReferenced⟩
    cases keyed.symm.trans otherKeyed
    cases referenced.symm.trans otherReferenced
    rw [other, Shape.alike, Bool.and_self, Bool.not_eq_true'] at alike
    exact ⟨alike, later, rfl⟩
  | _ =>
    rw [other] at alike
    cases alike

theorem alike_set (view : shape info v = .set elements)
    (alike : (shape info v).alike (shape info w) = true) :
    Exists fun later => shape info w = .set later := by
  rw [view] at alike
  cases other : shape info w with
  | set later => exact ⟨later, rfl⟩
  | _ =>
    rw [other] at alike
    cases alike

end Shapes

section Walking

theorem Leads.trans (first : Leads api part p inner) (rest : Leads api inner q a) : Leads api part (p ++ q) a := by
  induction first with
  | here _ => exact rest
  | field view listed _ ih => exact .field view listed (ih rest)
  | entry view listed _ ih => exact .entry view listed (ih rest)
  | element view listed _ ih => exact .element view listed (ih rest)
  | value view listed =>
    cases rest with
    | here => exact .value view listed
    | field inside | entry inside | element inside | value inside => nomatch (shape_whole _).symm.trans inside

theorem leads_of_below (found : below api (shape part.1 part.2) e = some inner) : Leads api part [e] inner := by
  cases view : shape part.1 part.2 with
  | leaf =>
    rw [view] at found
    cases found
  | struct schema fields =>
    rw [view] at found
    cases e with
    | field name =>
      rcases Option.map_eq_some_iff.mp found with ⟨u, there, rfl⟩
      exact .field view (Fields.mem_of_get there) (.here _)
    | _ => cases found
  | generic fields =>
    rw [view] at found
    cases e with
    | field name =>
      rcases Option.map_eq_some_iff.mp found with ⟨u, there, rfl⟩
      exact .entry view (Fields.mem_of_get there) (.here _)
    | _ => cases found
  | keyed listMapKeys elementSchema elements =>
    rw [view] at found
    cases e with
    | key identity =>
      rcases Option.map_eq_some_iff.mp found with ⟨element, there, rfl⟩
      rw [← (mem_of_elementUnder there).2]
      exact .element view (mem_of_elementUnder there).1 (.here _)
    | _ => cases found
  | set elements =>
    rw [view] at found
    cases e with
    | value u =>
      rw [below] at found
      split_ifs at found with listed
      cases found
      exact .value view listed
    | _ => cases found

theorem leads_of_partAt (found : partAt api part p = some inner) : Leads api part p inner := by
  induction p generalizing part with
  | nil =>
    cases found
    exact .here _
  | cons e p ih =>
    rcases Option.bind_eq_some_iff.mp found with ⟨middle, first, rest⟩
    exact (leads_of_below first).trans (ih rest)

theorem Leads.canonical (leads : Leads api part p inner) (canonical : part.2.Canonical) : inner.2.Canonical := by
  induction leads with
  | here _ => exact canonical
  | field view listed _ ih =>
    rw [(eq_of_struct view).1] at canonical
    exact ih (canonical.fieldsOf listed)
  | entry view listed _ ih =>
    rw [(eq_of_generic view).1] at canonical
    exact ih (canonical.fieldsOf listed)
  | element view listed _ ih =>
    rw [(eq_of_keyed view).1] at canonical
    exact ih (canonical.elementsOf listed)
  | value view listed =>
    rw [(eq_of_set view).1] at canonical
    exact canonical.elementsOf listed

theorem canonical_below (canonical : v.Canonical) (found : below api (shape info v) e = some inner) :
    inner.2.Canonical := by
  have leads : Leads api (info, v) [e] inner := leads_of_below found
  exact leads.canonical canonical

theorem Leads.sizeOf_le (leads : Leads api part p inner) : sizeOf inner.2 + p.length ≤ sizeOf part.2 := by
  induction leads with
  | here _ => exact le_refl _
  | field view listed _ ih =>
    have within := sizeOf_field listed
    rw [(eq_of_struct view).1, List.length_cons]
    dsimp only at ih
    omega
  | entry view listed _ ih =>
    have within := sizeOf_field listed
    rw [(eq_of_generic view).1, List.length_cons]
    dsimp only at ih
    omega
  | element view listed _ ih =>
    have within := List.sizeOf_lt_of_mem listed
    rw [(eq_of_keyed view).1, Value.array.sizeOf_spec, List.length_cons]
    dsimp only at ih
    omega
  | value view listed =>
    have within := List.sizeOf_lt_of_mem listed
    rw [(eq_of_set view).1, Value.array.sizeOf_spec]
    dsimp only [List.length_singleton]
    omega

theorem sizeOf_below (found : below api (shape info v) e = some inner) : sizeOf inner.2 < sizeOf v := by
  have leads : Leads api (info, v) [e] inner := leads_of_below found
  have smaller := leads.sizeOf_le
  dsimp only [List.length_singleton] at smaller
  omega

/-- Two parts under one element of values taken apart in the same way are of one field. -/
theorem info_of_alike (alike : (shape info v).alike (shape info w) = true)
    (here : below api (shape info v) e = some a) (there : below api (shape info w) e = some b) : a.1 = b.1 := by
  cases view : shape info v with
  | leaf =>
    rw [view] at alike
    cases alike
  | struct schema fields =>
    rcases alike_struct view alike with ⟨others, other⟩
    rw [view] at here
    rw [other] at there
    cases e with
    | field name =>
      rcases Option.map_eq_some_iff.mp here with ⟨_, _, rfl⟩
      rcases Option.map_eq_some_iff.mp there with ⟨_, _, rfl⟩
      rfl
    | _ => cases here
  | generic fields =>
    rcases alike_generic view alike with ⟨others, other⟩
    rw [view] at here
    rw [other] at there
    cases e with
    | field name =>
      rcases Option.map_eq_some_iff.mp here with ⟨_, _, rfl⟩
      rcases Option.map_eq_some_iff.mp there with ⟨_, _, rfl⟩
      rfl
    | _ => cases here
  | keyed listMapKeys elementSchema elements =>
    rcases alike_keyed view alike with ⟨_, later, other⟩
    rw [view] at here
    rw [other] at there
    cases e with
    | key identity =>
      rcases Option.map_eq_some_iff.mp here with ⟨_, _, rfl⟩
      rcases Option.map_eq_some_iff.mp there with ⟨_, _, rfl⟩
      rfl
    | _ => cases here
  | set elements =>
    rcases alike_set view alike with ⟨later, other⟩
    rw [view] at here
    rw [other] at there
    cases e with
    | value u =>
      rw [below] at here there
      split_ifs at here there
      cases here
      cases there
      rfl
    | _ => cases here

theorem matchedInfo_alike (alike : s.alike t = true) (info : Option FieldMeta) : matchedInfo s info = matchedInfo t info := by
  cases s <;> cases t <;> first | rfl | nomatch alike

end Walking

end NotK8s.Patch

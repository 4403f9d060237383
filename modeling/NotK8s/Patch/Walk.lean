import NotK8s.Patch.Updater

namespace NotK8s.Patch

open Library

/-!
# One step along the schema

Extraction, merge, removal and comparison take a value apart the same way.
`shape` names the five ways, and the equations below give each function at
each of them, so that the proofs go by the shape and never by the tables.
-/

-- The equations of the four recursions are made here, once for all proofs below.
attribute [grind =] collectFieldValue collectObjectFields collectElements
attribute [grind =] removeFieldValue removeObjectFields removeElements
attribute [grind =] markOneSided markObjectFields markElements comparePresent compareFields compareElements
attribute [grind =] mergeField mergedFields mergeElements

inductive Shape where
  | leaf
  | struct (schema : String) (fields : Fields)
  | generic (fields : Fields)
  | keyed (listMapKeys : List String) (elementSchema : Option String) (elements : List Value)
  | set (elements : List Value)

def shape (info : Option FieldMeta) : Value -> Shape
  | .object fields =>
    if isAtomicMap info then .leaf
    else match refSchemaOf info with
      | some schema => .struct schema fields
      | none => .generic fields
  | .array elements =>
    match listTypeOf info with
    | some .map => .keyed (listMapKeysOf info) (refSchemaOf info) elements
    | some .set => .set elements
    | some .atomic | none => .leaf
  | .null | .bool _ | .number _ | .string _ => .leaf

/-- The whole object as the value of a field with its schema. -/
def rootInfo (schema : String) : Option FieldMeta :=
  some { refSchema := some schema }

theorem shape_root (schema : String) (fields : Fields) :
    shape (rootInfo schema) (.object fields) = .struct schema fields := rfl

variable {api : OpenApi} {info : Option FieldMeta} {v : Value} {schema : String} {fields : Fields}
  {listMapKeys : List String} {elementSchema : Option String} {elements : List Value}

section Shapes

theorem atomic_of_leaf (h : shape info (.object fields) = .leaf) : isAtomicMap info = true := by
  by_contra granular
  rw [shape, if_neg granular] at h
  cases found : refSchemaOf info <;> rw [found] at h <;> cases h

theorem list_of_leaf (h : shape info (.array elements) = .leaf) :
    listTypeOf info = none ∨ listTypeOf info = some .atomic := by
  rw [shape] at h
  rcases found : listTypeOf info with _ | _ | _ | _ <;> rw [found] at h
  · exact Or.inl rfl
  · exact Or.inr rfl
  · cases h
  · cases h

theorem shape_spec (info : Option FieldMeta) (v : Value) : match shape info v with
    | .leaf => True
    | .struct schema fields => v = .object fields ∧ isAtomicMap info = false ∧ refSchemaOf info = some schema
    | .generic fields => v = .object fields ∧ isAtomicMap info = false ∧ refSchemaOf info = none
    | .keyed listMapKeys elementSchema elements => v = .array elements ∧ listTypeOf info = some .map ∧
        listMapKeysOf info = listMapKeys ∧ refSchemaOf info = elementSchema
    | .set elements => v = .array elements ∧ listTypeOf info = some .set := by
  cases v with
  | object fs =>
    rw [shape]
    cases atomic : isAtomicMap info with
    | true => exact trivial
    | false => cases refSchemaOf info <;> exact ⟨rfl, rfl, rfl⟩
  | array es =>
    rw [shape]
    rcases listed : listTypeOf info with _ | _ | _ | _
    · exact trivial
    · exact trivial
    · exact ⟨rfl, rfl⟩
    · exact ⟨rfl, rfl, rfl, rfl⟩
  | _ => exact trivial

theorem eq_of_struct (h : shape info v = .struct schema fields) :
    v = .object fields ∧ isAtomicMap info = false ∧ refSchemaOf info = some schema := by
  simpa only [h] using shape_spec info v

theorem eq_of_generic (h : shape info v = .generic fields) :
    v = .object fields ∧ isAtomicMap info = false ∧ refSchemaOf info = none := by
  simpa only [h] using shape_spec info v

theorem eq_of_keyed (h : shape info v = .keyed listMapKeys elementSchema elements) :
    v = .array elements ∧ listTypeOf info = some .map ∧ listMapKeysOf info = listMapKeys ∧
      refSchemaOf info = elementSchema := by
  simpa only [h] using shape_spec info v

theorem eq_of_set (h : shape info v = .set elements) : v = .array elements ∧ listTypeOf info = some .set := by
  simpa only [h] using shape_spec info v

end Shapes

section Leaves

theorem collectFieldValue_leaf (h : shape info v = .leaf) : collectFieldValue api info v = [[]] := by
  cases v with
  | object fs => rw [collectFieldValue, if_pos (atomic_of_leaf h)]
  | array es => rcases list_of_leaf h with found | found <;> rw [collectFieldValue, found]
  | _ => rw [collectFieldValue]

theorem collectFieldValue_struct (h : shape info v = .struct schema fields) :
    collectFieldValue api info v = collectObjectFields api schema fields := by
  rcases eq_of_struct h with ⟨rfl, granular, referenced⟩
  rw [collectFieldValue, granular, referenced]
  rfl

theorem collectFieldValue_generic (h : shape info v = .generic fields) :
    collectFieldValue api info v = fields.map fun field => [.field field.1] := by
  rcases eq_of_generic h with ⟨rfl, granular, referenced⟩
  rw [collectFieldValue, granular, referenced]
  rfl

theorem collectFieldValue_keyed (h : shape info v = .keyed listMapKeys elementSchema elements) :
    collectFieldValue api info v = collectElements api listMapKeys elementSchema elements := by
  rcases eq_of_keyed h with ⟨rfl, listed, keyed, referenced⟩
  rw [collectFieldValue, listed, keyed, referenced]

theorem collectFieldValue_set (h : shape info v = .set elements) :
    collectFieldValue api info v = elements.map fun element => [.value element] := by
  rcases eq_of_set h with ⟨rfl, listed⟩
  rw [collectFieldValue, listed]

/-- The leaves of one element of an associative list, after its key. -/
def elementLeaves (api : OpenApi) (elementSchema : Option String) (element : Fields) : List Path :=
  match elementSchema with
  | some schema => collectObjectFields api schema element
  | none => [[]]

theorem collectElements_object {element : Fields} :
    collectElements api listMapKeys elementSchema (.object element :: elements) =
      (elementLeaves api elementSchema element).map (.key (keyFields listMapKeys element) :: ·) ++
        collectElements api listMapKeys elementSchema elements := by
  cases elementSchema <;> rfl

theorem mem_walkFields {walk : Fields -> List Path} {part : String -> Value -> List Path} {p : Path} (nil : walk [] = [])
    (cons : forall name u rest, walk ((name, u) :: rest) = (part name u).map (.field name :: ·) ++ walk rest) :
    p ∈ walk fields <-> Exists fun name => Exists fun u => Exists fun q =>
      (name, u) ∈ fields ∧ q ∈ part name u ∧ p = .field name :: q := by
  induction fields with
  | nil => simp [nil]
  | cons head rest ih =>
    rcases head with ⟨stored, first⟩
    rw [cons, List.mem_append, ih, List.mem_map]
    constructor
    · rintro (⟨q, inside, rfl⟩ | ⟨name, u, q, listed, inside, rfl⟩)
      · exact ⟨stored, first, q, .head _, inside, rfl⟩
      · exact ⟨name, u, q, .tail _ listed, inside, rfl⟩
    · rintro ⟨name, u, q, listed, inside, rfl⟩
      rcases List.mem_cons.mp listed with here | later
      · cases here
        exact Or.inl ⟨q, inside, rfl⟩
      · exact Or.inr ⟨name, u, q, later, inside, rfl⟩

theorem mem_walkElements {walk : List Value -> List Path} {part : Fields -> List Path} {p : Path} (nil : walk [] = [])
    (object : forall element rest, walk (.object element :: rest) =
      (part element).map (.key (keyFields listMapKeys element) :: ·) ++ walk rest)
    (passed : forall v rest, (forall element, v ≠ .object element) -> walk (v :: rest) = walk rest) :
    p ∈ walk elements <-> Exists fun element => Exists fun q =>
      .object element ∈ elements ∧ q ∈ part element ∧ p = .key (keyFields listMapKeys element) :: q := by
  induction elements with
  | nil => simp [nil]
  | cons head rest ih =>
    cases head with
    | object fs =>
      rw [object, List.mem_append, ih, List.mem_map]
      constructor
      · rintro (⟨q, inside, rfl⟩ | ⟨element, q, listed, inside, rfl⟩)
        · exact ⟨fs, q, .head _, inside, rfl⟩
        · exact ⟨element, q, .tail _ listed, inside, rfl⟩
      · rintro ⟨element, q, listed, inside, rfl⟩
        rcases List.mem_cons.mp listed with here | later
        · cases here
          exact Or.inl ⟨q, inside, rfl⟩
        · exact Or.inr ⟨element, q, later, inside, rfl⟩
    | _ =>
      rw [passed _ _ (by simp), ih]
      simp

theorem mem_collectObjectFields {p : Path} :
    p ∈ collectObjectFields api schema fields <->
      Exists fun name => Exists fun u => Exists fun q =>
        (name, u) ∈ fields ∧ q ∈ collectFieldValue api (api.fieldMeta schema name) u ∧ p = .field name :: q :=
  mem_walkFields rfl fun _ _ _ => rfl

theorem mem_collectElements {p : Path} :
    p ∈ collectElements api listMapKeys elementSchema elements <->
      Exists fun element => Exists fun q =>
        .object element ∈ elements ∧ q ∈ elementLeaves api elementSchema element ∧
          p = .key (keyFields listMapKeys element) :: q :=
  mem_walkElements rfl (fun _ _ => collectElements_object) fun v _ other => by
    cases v with
    | object fs => exact absurd rfl (other fs)
    | _ => rfl

end Leaves

section Induction

theorem sizeOf_field {name : String} {u : Value} (listed : (name, u) ∈ fields) :
    sizeOf u < sizeOf (Value.object fields) := by
  have within := List.sizeOf_lt_of_mem listed
  simp only [Prod.mk.sizeOf_spec] at within
  simp only [Value.object.sizeOf_spec]
  omega

theorem sizeOf_elementField {name : String} {u : Value} {element : Fields}
    (member : .object element ∈ elements) (listed : (name, u) ∈ element) :
    sizeOf u < sizeOf (Value.array elements) := by
  have within := List.sizeOf_lt_of_mem member
  have below := sizeOf_field listed
  simp only [Value.array.sizeOf_spec]
  omega

/-- Induction along the schema: a struct field is reached through its fields, an
associative list through the fields of its elements. -/
theorem shapeInduction {api : OpenApi} {motive : Option FieldMeta -> Value -> Prop}
    (leaf : forall info v, shape info v = .leaf -> motive info v)
    (struct : forall info v schema fields, shape info v = .struct schema fields ->
      (forall name u, (name, u) ∈ fields -> motive (api.fieldMeta schema name) u) -> motive info v)
    (generic : forall info v fields, shape info v = .generic fields -> motive info v)
    (keyed : forall info v listMapKeys elementSchema elements,
      shape info v = .keyed listMapKeys elementSchema elements ->
      (forall schema element name u, .object element ∈ elements -> (name, u) ∈ element ->
        motive (api.fieldMeta schema name) u) -> motive info v)
    (set : forall info v elements, shape info v = .set elements -> motive info v)
    (info : Option FieldMeta) (v : Value) : motive info v := by
  induction size : sizeOf v using Nat.strong_induction_on generalizing info v with
  | _ n ih =>
    cases view : shape info v with
    | leaf => exact leaf info v view
    | struct schema fields =>
      apply struct info v schema fields view
      intro name u listed
      apply ih (sizeOf u) _ _ _ rfl
      rw [← size, (eq_of_struct view).1]
      exact sizeOf_field listed
    | generic fields => exact generic info v fields view
    | keyed listMapKeys elementSchema elements =>
      apply keyed info v listMapKeys elementSchema elements view
      intro schema element name u member listed
      apply ih (sizeOf u) _ _ _ rfl
      rw [← size, (eq_of_keyed view).1]
      exact sizeOf_elementField member listed
    | set elements => exact set info v elements view

end Induction

section Marks

theorem markOneSided_leaf (h : shape info v = .leaf) : markOneSided api info v = [[]] := by
  cases v with
  | object fs => rw [markOneSided, if_pos (atomic_of_leaf h)]
  | array es => rcases list_of_leaf h with found | found <;> rw [markOneSided, found]
  | _ => rw [markOneSided]

theorem markOneSided_struct (h : shape info v = .struct schema fields) :
    markOneSided api info v = [] :: markObjectFields api schema fields := by
  rcases eq_of_struct h with ⟨rfl, granular, referenced⟩
  rw [markOneSided, granular, referenced]
  rfl

theorem markOneSided_generic (h : shape info v = .generic fields) :
    markOneSided api info v = [] :: fields.map fun field => [.field field.1] := by
  rcases eq_of_generic h with ⟨rfl, granular, referenced⟩
  rw [markOneSided, granular, referenced]
  rfl

theorem markOneSided_keyed (h : shape info v = .keyed listMapKeys elementSchema elements) :
    markOneSided api info v = [] :: markElements api listMapKeys elementSchema elements := by
  rcases eq_of_keyed h with ⟨rfl, listed, keyed, referenced⟩
  rw [markOneSided, listed, keyed, referenced]

theorem markOneSided_set (h : shape info v = .set elements) :
    markOneSided api info v = [] :: elements.map fun element => [.value element] := by
  rcases eq_of_set h with ⟨rfl, listed⟩
  rw [markOneSided, listed]

theorem markElements_object {element : Fields} :
    markElements api listMapKeys elementSchema (.object element :: elements) =
      (markOneSidedElement api elementSchema element).map (.key (keyFields listMapKeys element) :: ·) ++
        markElements api listMapKeys elementSchema elements := by
  cases elementSchema <;> rfl

theorem mem_markObjectFields {p : Path} :
    p ∈ markObjectFields api schema fields <->
      Exists fun name => Exists fun u => Exists fun q =>
        (name, u) ∈ fields ∧ q ∈ markOneSided api (api.fieldMeta schema name) u ∧ p = .field name :: q :=
  mem_walkFields rfl fun _ _ _ => rfl

theorem mem_markElements {p : Path} :
    p ∈ markElements api listMapKeys elementSchema elements <->
      Exists fun element => Exists fun q =>
        .object element ∈ elements ∧ q ∈ markOneSidedElement api elementSchema element ∧
          p = .key (keyFields listMapKeys element) :: q :=
  mem_walkElements rfl (fun _ _ => markElements_object) fun v _ other => by
    cases v with
    | object fs => exact absurd rfl (other fs)
    | _ => rfl

theorem nil_mem_markOneSided : [] ∈ markOneSided api info v := by
  cases view : shape info v with
  | leaf => rw [markOneSided_leaf view]; exact .head _
  | struct schema fields => rw [markOneSided_struct view]; exact .head _
  | generic fields => rw [markOneSided_generic view]; exact .head _
  | keyed listMapKeys elementSchema elements => rw [markOneSided_keyed view]; exact .head _
  | set elements => rw [markOneSided_set view]; exact .head _

end Marks

end NotK8s.Patch

import NotK8s.Patch.StrategicMerge

namespace NotK8s.Patch
namespace Strategic

/-!
# The key of an element through a merge

The elements of a merged list are told apart by their merge key.  A scalar
key outlives the merge of its element, and no merge makes one up, so that
what an element of the patch does concerns the elements of its own key only.
-/

variable {table : PatchTable} {info : Option PatchMeta} {existing : Option Value} {schema name mergeKey : String}
  {v w named : Value} {fields patch result merged element : Fields} {elements : List Value}

/-! ## Keys of merged elements -/

theorem get_deletePrimitives (result : Fields) (name field : String) (values : Value) :
    (deletePrimitives result field values).get name = result.get name ∨
      Exists fun existing => Exists fun kept => result.get name = some (.array existing) ∧
        (deletePrimitives result field values).get name = some (.array kept) ∧ kept.Sublist existing := by
  unfold deletePrimitives
  split
  · rename_i values existing there
    rw [Fields.get_insert]
    by_cases same : field = name
    · subst same
      exact Or.inr ⟨existing, _, there, if_pos rfl, List.filter_sublist⟩
    · exact Or.inl (if_neg same)
  · exact Or.inl rfl

theorem get_applyPrimitiveListDeletes (result patch : Fields) (name : String) :
    (applyPrimitiveListDeletes result patch).get name = result.get name ∨
      Exists fun existing => Exists fun kept => result.get name = some (.array existing) ∧
        (applyPrimitiveListDeletes result patch).get name = some (.array kept) ∧ kept.Sublist existing := by
  rw [applyPrimitiveListDeletes]
  induction patch generalizing result with
  | nil => exact Or.inl rfl
  | cons head rest ih =>
    rw [List.foldl_cons]
    cases strippedOf deleteFromPrimitiveList head.1 with
    | none => exact ih _
    | some field =>
      have first := get_deletePrimitives result name field head.2
      have later := ih (deletePrimitives result field head.2)
      rcases first with same | ⟨existing, kept, found, there, below⟩
      · rw [same] at later
        exact later
      · rcases later with same | ⟨others, left, foundThere, last, further⟩
        · exact Or.inr ⟨existing, kept, found, same.trans there, below⟩
        · rw [there] at foundThere
          cases foundThere
          exact Or.inr ⟨existing, left, found, last, further.trans below⟩

theorem mergeField_scalar (scalar : v.isScalar = true) : mergeField table info existing v = v := by
  cases v with
  | null | bool b | number n | string s => rw [mergeField]
  | array elements | object fields => cases scalar

theorem mergeObject_not_scalar :
    mergeObject table schema fields patch = .null ∨ (mergeObject table schema fields patch).isScalar = false := by
  rw [mergeObject, finishObject]
  split_ifs
  · exact Or.inl rfl
  · exact Or.inr rfl
  · exact Or.inr rfl

theorem mergeField_not_scalar (table : PatchTable) (info : Option PatchMeta) (existing : Option Value)
    (whole : v.isScalar = false) :
    mergeField table info existing v = .null ∨ (mergeField table info existing v).isScalar = false := by
  cases v with
  | null | bool b | number n | string s => cases whole
  | array changes =>
    rw [mergeField]
    split <;> exact Or.inr rfl
  | object patch =>
    cases base : objectBase existing with
    | none =>
      rw [mergeField_object_of_none base]
      exact Or.inr rfl
    | some fields =>
      rw [mergeField_object base]
      exact mergeObject_not_scalar

theorem Reordered.isScalar (reordered : Reordered v w) : w.isScalar = v.isScalar := by
  cases reordered with
  | same => rfl
  | list _ => rfl

/-- A scalar key outlives the merge of its element, but a null is taken for its removal. -/
theorem mergedKey_scalar (distinct : (Fields.names patch).Nodup) (scalar : named.isScalar = true)
    (here : fields.get mergeKey = some named) (there : patch.get mergeKey = some named)
    (stays : mergeObject table schema fields patch = .object merged)
    (plain : directive patch ≠ some "replace") :
    merged.get mergeKey = some named ∨ (named = .null ∧ merged.get mergeKey = none) := by
  have keeps : directive patch ≠ some "delete" := by
    intro deletes
    rw [mergeObject_of_delete deletes] at stays
    cases stays
  rw [mergeObject_of_plain keeps plain] at stays
  cases stays
  have before : (applyPrimitiveListDeletes fields patch).get mergeKey = some named := by
    rcases get_applyPrimitiveListDeletes fields patch mergeKey with
      same | ⟨elements, kept, found, _, _⟩
    · rw [same, here]
    · rw [here] at found
      cases found
      cases scalar
  have after := get_mergeFields table schema (applyPrimitiveListDeletes fields patch) mergeKey distinct
  rw [there] at after
  dsimp only at after
  rw [before, mergeField_scalar scalar] at after
  by_cases dollar : startsWithDollar mergeKey = true
  · rw [if_pos dollar] at after
    rcases get_applyElementOrders table schema patch after with ⟨w, last, reordered⟩
    left
    rw [last]
    cases reordered with
    | same => rfl
    | list _ => cases scalar
  · rw [if_neg dollar] at after
    by_cases gone : named = .null
    · rw [if_pos gone] at after
      exact Or.inr ⟨gone, get_applyElementOrders_of_none after⟩
    · rw [if_neg gone] at after
      rcases get_applyElementOrders table schema patch after with ⟨w, last, reordered⟩
      left
      rw [last]
      cases reordered with
      | same => rfl
      | list _ => cases scalar

theorem mergedKey_not_scalar (distinct : (Fields.names patch).Nodup) (whole : named.isScalar = false)
    (here : fields.get mergeKey = some named) (there : patch.get mergeKey = some named)
    (stays : mergeObject table schema fields patch = .object merged)
    (plain : directive patch ≠ some "replace") (found : merged.get mergeKey = some v) :
    v.isScalar = false := by
  have keeps : directive patch ≠ some "delete" := by
    intro deletes
    rw [mergeObject_of_delete deletes] at stays
    cases stays
  rw [mergeObject_of_plain keeps plain] at stays
  cases stays
  have before : Exists fun w => (applyPrimitiveListDeletes fields patch).get mergeKey = some w ∧ w.isScalar = false := by
    rcases get_applyPrimitiveListDeletes fields patch mergeKey with
      same | ⟨elements, kept, _, left, _⟩
    · exact ⟨named, same.trans here, whole⟩
    · exact ⟨_, left, rfl⟩
  rcases before with ⟨w, before, other⟩
  have after := get_mergeFields table schema (applyPrimitiveListDeletes fields patch) mergeKey distinct
  rw [there] at after
  dsimp only at after
  rw [before] at after
  have settled {u : Value} (put : (mergeFields table schema (applyPrimitiveListDeletes fields patch) patch).get mergeKey = some u)
      (apart : u.isScalar = false) : v.isScalar = false := by
    rcases get_applyElementOrders table schema patch put with ⟨last, got, reordered⟩
    rw [found] at got
    cases got
    rw [reordered.isScalar, apart]
  split_ifs at after with dollar gone
  · exact settled after other
  · rw [get_applyElementOrders_of_none after] at found
    cases found
  · rcases mergeField_not_scalar table (table schema mergeKey) (some w) whole with
      null | apart
    · exact absurd null gone
    · exact settled after apart

/-! ## One element of a patch -/

variable {into : Fields -> Value}

theorem object_of_field (keyed : v.field name = some w) :
    Exists fun fields => v = .object fields ∧ Fields.get fields name = some w := by
  cases v with
  | object fields => exact ⟨fields, rfl, keyed⟩
  | null | bool b | number n | string s | array inner => cases keyed

theorem mergeIntoFirst_here (keyed : fields.get mergeKey = some named) :
    mergeIntoFirst mergeKey named into element (.object fields :: elements) = into fields :: elements := by
  rw [mergeIntoFirst, if_pos keyed]

theorem mergeIntoFirst_there (other : v.field mergeKey ≠ some named) :
    mergeIntoFirst mergeKey named into element (v :: elements) =
      v :: mergeIntoFirst mergeKey named into element elements := by
  cases v with
  | object fields => exact (mergeIntoFirst.eq_2 ..).trans (if_neg other)
  | null | bool b | number n | string s | array inner => rfl

theorem applyElement_replace (replaces : directive element = some "replace") :
    applyElement mergeKey into element elements = elements := by
  rw [applyElement, if_pos replaces]

theorem applyElement_delete (deletes : directive element = some "delete") :
    applyElement mergeKey into element elements =
      match element.get mergeKey with
      | none => elements
      | some named => elements.filter fun v => decide (v.field mergeKey ≠ some named) := by
  rw [applyElement, if_neg (by rw [deletes]; decide)]
  cases element.get mergeKey with
  | none | some named => exact if_pos deletes

theorem applyElement_plain (keeps : directive element ≠ some "delete") (stays : directive element ≠ some "replace") :
    applyElement mergeKey into element elements =
      match element.get mergeKey with
      | none => elements ++ [.object element]
      | some named => mergeIntoFirst mergeKey named into element elements := by
  rw [applyElement, if_neg stays]
  cases element.get mergeKey with
  | none | some named => exact if_neg keeps

theorem mem_applyElement (listed : v ∈ elements)
    (other : forall named, element.get mergeKey = some named -> v.field mergeKey ≠ some named) :
    v ∈ applyElement mergeKey into element elements := by
  by_cases stays : directive element = some "replace"
  · rwa [applyElement_replace stays]
  · by_cases keeps : directive element = some "delete"
    · rw [applyElement_delete keeps]
      cases found : element.get mergeKey with
      | none => exact listed
      | some named => exact List.mem_filter.mpr ⟨listed, decide_eq_true (other named found)⟩
    · rw [applyElement_plain keeps stays]
      cases found : element.get mergeKey with
      | none => exact List.mem_append_left _ listed
      | some named =>
        have apart := other named found
        dsimp only
        induction elements with
        | nil => cases listed
        | cons head rest ih =>
          by_cases here : head.field mergeKey = some named
          · rcases object_of_field here with ⟨fields, rfl, keyed⟩
            rw [mergeIntoFirst_here keyed]
            rcases List.mem_cons.mp listed with rfl | later
            · exact absurd here apart
            · exact .tail _ later
          · rw [mergeIntoFirst_there here]
            rcases List.mem_cons.mp listed with rfl | later
            · exact .head _
            · exact .tail _ (ih later)

theorem mergeElements_object {changes : List Value} :
    mergeElements table schema mergeKey elements (.object element :: changes) =
      mergeElements table schema mergeKey
        (applyElement mergeKey (fun existing => mergeObject table schema existing element) element elements)
        changes := by
  rw [mergeElements]
  rfl

theorem mergeElements_other {changes : List Value} (other : v.isObject = false) :
    mergeElements table schema mergeKey elements (v :: changes) =
      mergeElements table schema mergeKey (elements ++ [v]) changes := by
  cases v with
  | object fields => cases other
  | null | bool b | number n | string s | array inner => rw [mergeElements]

/-! ## The first element under a key -/

/-- The first element with the key. -/
def firstUnder (mergeKey : String) (named : Value) : List Value -> Option Fields
  | [] => none
  | v :: elements =>
    match v.asObject with
    | some existing => if Fields.get existing mergeKey = some named then some existing else firstUnder mergeKey named elements
    | none => firstUnder mergeKey named elements

theorem firstUnder_here (keyed : fields.get mergeKey = some named) :
    firstUnder mergeKey named (.object fields :: elements) = some fields := by
  rw [firstUnder]
  exact if_pos keyed

theorem firstUnder_there (other : v.field mergeKey ≠ some named) :
    firstUnder mergeKey named (v :: elements) = firstUnder mergeKey named elements := by
  cases v with
  | object fields =>
    rw [firstUnder]
    exact if_neg other
  | null | bool b | number n | string s | array inner => rfl

theorem firstUnder_append_other (other : v.field mergeKey ≠ some named) :
    firstUnder mergeKey named (elements ++ [v]) = firstUnder mergeKey named elements := by
  induction elements with
  | nil => exact firstUnder_there other
  | cons head rest ih =>
    rw [List.cons_append]
    by_cases here : head.field mergeKey = some named
    · rcases object_of_field here with ⟨fields, rfl, keyed⟩
      rw [firstUnder_here keyed, firstUnder_here keyed]
    · rw [firstUnder_there here, firstUnder_there here, ih]

theorem firstUnder_filter {gone : Value} (apart : named ≠ gone) :
    firstUnder mergeKey named (elements.filter fun v => decide (v.field mergeKey ≠ some gone)) =
      firstUnder mergeKey named elements := by
  induction elements with
  | nil => rfl
  | cons head rest ih =>
    by_cases here : head.field mergeKey = some named
    · rcases object_of_field here with ⟨fields, rfl, keyed⟩
      have kept : (Value.object fields).field mergeKey ≠ some gone := by
        rw [here]
        exact fun same => apart (Option.some.inj same)
      rw [List.filter_cons, if_pos (decide_eq_true kept), firstUnder_here keyed, firstUnder_here keyed]
    · rw [firstUnder_there here, List.filter_cons]
      split_ifs with kept
      · rw [firstUnder_there here, ih]
      · exact ih

theorem firstUnder_mergeIntoFirst {other : Value} (apart : named ≠ other)
    (given : element.get mergeKey = some other)
    (keeps : forall existing, Fields.get existing mergeKey = some other -> (into existing).field mergeKey ≠ some named) :
    firstUnder mergeKey named (mergeIntoFirst mergeKey other into element elements) =
      firstUnder mergeKey named elements := by
  have unlike : some other ≠ some named := fun same => apart (Option.some.inj same).symm
  induction elements with
  | nil =>
    rw [mergeIntoFirst]
    refine firstUnder_there fun same => unlike ?_
    rw [← given]
    exact same
  | cons head rest ih =>
    by_cases here : head.field mergeKey = some other
    · rcases object_of_field here with ⟨fields, rfl, keyed⟩
      rw [mergeIntoFirst_here keyed, firstUnder_there (keeps fields keyed),
        firstUnder_there fun same => unlike (here.symm.trans same)]
    · rw [mergeIntoFirst_there here]
      by_cases there : head.field mergeKey = some named
      · rcases object_of_field there with ⟨fields, rfl, keyed⟩
        rw [firstUnder_here keyed, firstUnder_here keyed]
      · rw [firstUnder_there there, firstUnder_there there, ih]

theorem mergedKey_ne {other : Value} (distinct : (Fields.names element).Nodup) (scalar : named.isScalar = true)
    (apart : named ≠ other) (given : element.get mergeKey = some other) (stays : directive element ≠ some "replace")
    (keyed : fields.get mergeKey = some other) :
    (mergeObject table schema fields element).field mergeKey ≠ some named := by
  intro found
  rcases object_of_field found with ⟨merged, whole, there⟩
  cases shape : other.isScalar with
  | true =>
    rcases mergedKey_scalar distinct shape keyed given whole stays with same | ⟨_, gone⟩
    · rw [there] at same
      exact apart (Option.some.inj same)
    · rw [there] at gone
      cases gone
  | false =>
    have different := mergedKey_not_scalar distinct shape keyed given whole stays there
    rw [scalar] at different
    cases different

/-- The first element under a scalar is touched only by patch elements with that key. -/
theorem firstUnder_applyElement (distinct : (Fields.names element).Nodup) (scalar : named.isScalar = true)
    (other : element.get mergeKey ≠ some named) :
    firstUnder mergeKey named
        (applyElement mergeKey (fun existing => mergeObject table schema existing element) element elements) =
      firstUnder mergeKey named elements := by
  by_cases stays : directive element = some "replace"
  · rw [applyElement_replace stays]
  · by_cases keeps : directive element = some "delete"
    · rw [applyElement_delete keeps]
      cases given : element.get mergeKey with
      | none => rfl
      | some gone => exact firstUnder_filter fun same => other (given.trans (congrArg some same.symm))
    · rw [applyElement_plain keeps stays]
      cases given : element.get mergeKey with
      | none =>
        refine firstUnder_append_other fun keyed => ?_
        rw [Value.field, given] at keyed
        cases keyed
      | some key =>
        have apart : named ≠ key := fun same => other (given.trans (congrArg some same.symm))
        exact firstUnder_mergeIntoFirst apart given fun existing keyed =>
          mergedKey_ne distinct scalar apart given stays keyed

theorem firstUnder_keyed (found : firstUnder mergeKey named elements = some fields) :
    fields.get mergeKey = some named := by
  induction elements with
  | nil => cases found
  | cons head rest ih =>
    by_cases here : head.field mergeKey = some named
    · rcases object_of_field here with ⟨existing, rfl, keyed⟩
      rw [firstUnder_here keyed] at found
      cases found
      exact keyed
    · rw [firstUnder_there here] at found
      exact ih found

theorem mem_mergeIntoFirst (mergeKey : String) (named : Value) (into : Fields -> Value) (element : Fields)
    (elements : List Value) :
    match firstUnder mergeKey named elements with
    | some existing => into existing ∈ mergeIntoFirst mergeKey named into element elements
    | none => .object element ∈ mergeIntoFirst mergeKey named into element elements := by
  induction elements with
  | nil => exact .head _
  | cons head rest ih =>
    by_cases here : head.field mergeKey = some named
    · rcases object_of_field here with ⟨fields, rfl, keyed⟩
      rw [firstUnder_here keyed, mergeIntoFirst_here keyed]
      exact .head _
    · rw [firstUnder_there here, mergeIntoFirst_there here]
      cases found : firstUnder mergeKey named rest with
      | some existing | none =>
        rw [found] at ih
        exact .tail _ ih

end Strategic
end NotK8s.Patch

import NotK8s.Patch.Canonical
import NotK8s.Patch.ElementKeys

namespace NotK8s.Patch
namespace Strategic

/-!
# Every key of a document

A condition on the keys of all objects of a document, at any depth, and what
the steps of a strategic merge make of it.
-/

section Keys

variable (allowed : String -> Bool)

mutual

/-- Whether every key of every object in the value, at any depth, is allowed. -/
def everyKey : Value -> Bool
  | .object fields => everyKeyOf fields
  | .array elements => everyKeyIn elements
  | .null | .bool _ | .number _ | .string _ => true

def everyKeyOf : Fields -> Bool
  | [] => true
  | (name, v) :: fields => allowed name && everyKey v && everyKeyOf fields

def everyKeyIn : List Value -> Bool
  | [] => true
  | v :: elements => everyKey v && everyKeyIn elements

end

attribute [grind =] everyKey everyKeyOf everyKeyIn

variable {allowed} {fields result patch : Fields} {elements others : List Value} {name schema mergeKey : String}
  {v w : Value} {table : PatchTable}

theorem everyKeyOf_iff :
    everyKeyOf allowed fields = true <->
      forall name v, (name, v) ∈ fields -> allowed name = true ∧ everyKey allowed v = true := by
  induction fields with
  | nil => simp [everyKeyOf]
  | cons head rest ih =>
    rw [everyKeyOf, Bool.and_eq_true, Bool.and_eq_true, ih]
    constructor
    · rintro ⟨here, later⟩ name v listed
      rcases List.mem_cons.mp listed with same | there
      · cases same
        exact here
      · exact later name v there
    · intro every
      exact ⟨every _ _ (.head _), fun name v there => every name v (.tail _ there)⟩

theorem everyKeyIn_iff : everyKeyIn allowed elements = true <-> forall v, v ∈ elements -> everyKey allowed v = true := by
  induction elements with
  | nil => simp [everyKeyIn]
  | cons head rest ih =>
    rw [everyKeyIn, Bool.and_eq_true, ih, List.forall_mem_cons]

theorem everyKeyIn_perm (permuted : others.Perm elements) :
    everyKeyIn allowed others = true <-> everyKeyIn allowed elements = true := by
  rw [everyKeyIn_iff, everyKeyIn_iff]
  exact forall_congr' fun v => by rw [permuted.mem_iff]

theorem everyKey_of_reordered (reordered : Reordered v w) : everyKey allowed w = true <-> everyKey allowed v = true := by
  cases reordered with
  | same => exact Iff.rfl
  | list permuted =>
    rw [everyKey, everyKey]
    exact everyKeyIn_perm permuted

section

variable (every : everyKeyOf allowed fields = true)
include every

theorem everyKey_get (found : Fields.get fields name = some v) :
    allowed name = true ∧ everyKey allowed v = true :=
  everyKeyOf_iff.mp every _ _ (Fields.mem_of_get found)

theorem everyKeyOf_filter (keep : String × Value -> Bool) :
    everyKeyOf allowed (fields.filter keep) = true :=
  everyKeyOf_iff.mpr fun name v listed => everyKeyOf_iff.mp every name v (List.mem_filter.mp listed).1

theorem everyKeyOf_insert (named : allowed name = true)
    (below : everyKey allowed v = true) : everyKeyOf allowed (fields.insert name v) = true := by
  rw [everyKeyOf_iff]
  intro other w listed
  rcases mem_insert listed with same | there
  · cases same
    exact ⟨named, below⟩
  · exact everyKeyOf_iff.mp every other w there

end

section

variable (every : everyKeyOf allowed result = true)
include every

theorem everyKeyOf_putField (named : allowed name = true)
    (below : everyKey allowed v = true) : everyKeyOf allowed (putField result name v) = true := by
  rw [putField]
  split_ifs with gone
  · exact everyKeyOf_filter every _
  · exact everyKeyOf_insert every named below

theorem everyKeyOf_deletePrimitives (field : String) (values : Value) :
    everyKeyOf allowed (deletePrimitives result field values) = true := by
  unfold deletePrimitives
  split
  · rename_i values existing there
    have parts := everyKey_get every there
    refine everyKeyOf_insert every parts.1 ?_
    rw [everyKey, everyKeyIn_iff]
    intro v listed
    have below := parts.2
    rw [everyKey] at below
    exact everyKeyIn_iff.mp below v (List.mem_filter.mp listed).1
  · exact every

theorem everyKeyOf_applyPrimitiveListDeletes (patch : Fields) :
    everyKeyOf allowed (applyPrimitiveListDeletes result patch) = true :=
  @stripped_foldl _ _ (fun result => everyKeyOf allowed result = true) _ _ every fun _ => everyKeyOf_deletePrimitives

theorem everyKeyOf_setOrder (field : String) (order : Value) :
    everyKeyOf allowed (setOrder table schema result field order) = true := by
  rw [setOrder]
  split
  · rename_i existing key there _
    have parts := everyKey_get every there
    refine everyKeyOf_insert every parts.1 ?_
    have below := parts.2
    rw [everyKey] at below ⊢
    exact (everyKeyIn_perm reorderList_perm).mpr below
  · exact every

theorem everyKeyOf_applyElementOrders (patch : Fields) :
    everyKeyOf allowed (applyElementOrders table schema result patch) = true :=
  @stripped_foldl _ _ (fun result => everyKeyOf allowed result = true) _ _ every fun _ => everyKeyOf_setOrder

end

end Keys

section Mono

variable {allowed others : String -> Bool} (wider : forall key, allowed key = true -> others key = true)

include wider

mutual

theorem everyKey_mono : (v : Value) -> everyKey allowed v = true -> everyKey others v = true
  | .object fields, every => by
    rw [everyKey] at every ⊢
    exact everyKeyOf_mono fields every
  | .array elements, every => by
    rw [everyKey] at every ⊢
    exact everyKeyIn_mono elements every
  | .null, _ | .bool _, _ | .number _, _ | .string _, _ => by
    rw [everyKey]

theorem everyKeyIn_mono : (elements : List Value) -> everyKeyIn allowed elements = true -> everyKeyIn others elements = true
  | [], _ => by
    rw [everyKeyIn]
  | v :: elements, every => by
    rw [everyKeyIn, Bool.and_eq_true] at every ⊢
    exact ⟨everyKey_mono v every.1, everyKeyIn_mono elements every.2⟩

theorem everyKeyOf_mono : (fields : Fields) -> everyKeyOf allowed fields = true -> everyKeyOf others fields = true
  | [], _ => by
    rw [everyKeyOf]
  | (name, v) :: fields, every => by
    rw [everyKeyOf, Bool.and_eq_true, Bool.and_eq_true] at every ⊢
    exact ⟨⟨wider name every.1.1, everyKey_mono v every.1.2⟩, everyKeyOf_mono fields every.2⟩

end

end Mono

end Strategic
namespace Strategic

/-!
# Directives left behind by a strategic merge

A directive is a key of a patch that tells the merge what to do.  The merge
passes over the keys it interprets, but it copies some parts of the patch
whole: an element appended to a list, a list that is not merged, an object
put where a value of another kind stood.  A directive inside such a part is
stored with it.
-/

def isDirective (key : String) : Bool :=
  key = "$patch" || key = "$retainKeys" || (strippedOf deleteFromPrimitiveList key).isSome ||
    (strippedOf setElementOrder key).isSome

/-! ## The parts copied whole -/

section Copies

variable (allowed : String -> Bool) (table : PatchTable)

/-- Of an object that replaces the stored one the fields are copied. -/
def objectCopies (patch : Fields) (below : Bool) : Bool :=
  if directive patch = some "delete" then true
  else if directive patch = some "replace" then everyKey allowed (.object (withoutDirectives patch))
  else below

mutual

/-- Whether the parts of a patch that its merge copies whole hold allowed keys
only, `existing` being what stands there. -/
def copiesHold (info : Option PatchMeta) (existing : Option Value) : Value -> Bool
  | .array patch =>
    match mergeBase info existing patch with
    | some (mergeKey, base) => elementCopiesHold (elementSchemaOf info) mergeKey base [] patch
    | none => everyKey allowed (.array patch)
  | .object patch =>
    match objectBase existing with
    | some fields =>
      objectCopies allowed patch
        (fieldCopiesHold (elementSchemaOf info) (applyPrimitiveListDeletes fields patch) patch)
    | none => everyKey allowed (.object patch)
  | .null | .bool _ | .number _ | .string _ => true

def fieldCopiesHold (schema : String) (existing : Fields) : Fields -> Bool
  | [] => true
  | (key, v) :: patch =>
    (startsWithDollar key || copiesHold (table schema key) (existing.get key) v) &&
      fieldCopiesHold schema existing patch

/-- An element is copied if it has no key, if no element stands under its key,
or, since it may then meet a copied one, if its key was named before. -/
def elementCopiesHold (schema mergeKey : String) (base earlier : List Value) : List Value -> Bool
  | [] => true
  | .object element :: patch =>
    (directive element = some "replace" || directive element = some "delete" ||
      match ((Fields.get element mergeKey).filter fun named => named.isScalar && !earlier.contains named).bind
          fun named => firstUnder mergeKey named base with
      | some existing =>
        objectCopies allowed element
          (fieldCopiesHold schema (applyPrimitiveListDeletes existing element) element)
      | none => everyKey allowed (.object element)) &&
      elementCopiesHold schema mergeKey base ((Fields.get element mergeKey).toList ++ earlier) patch
  | .array inner :: patch => everyKey allowed (.array inner) && elementCopiesHold schema mergeKey base earlier patch
  | .null :: patch | .bool _ :: patch | .number _ :: patch | .string _ :: patch =>
    elementCopiesHold schema mergeKey base earlier patch

end

attribute [grind =] copiesHold fieldCopiesHold elementCopiesHold

mutual

/-- Whether the patch names the elements of each list it merges by scalars,
and each element once. -/
def namesOnce (info : Option PatchMeta) : Value -> Bool
  | .array patch =>
    match mergeKeyOf info with
    | some mergeKey => !isMergeList info || elementsNamedOnce (elementSchemaOf info) mergeKey [] patch
    | none => true
  | .object patch => fieldsNamedOnce (elementSchemaOf info) patch
  | .null | .bool _ | .number _ | .string _ => true

def fieldsNamedOnce (schema : String) : Fields -> Bool
  | [] => true
  | (key, v) :: patch => (startsWithDollar key || namesOnce (table schema key) v) && fieldsNamedOnce schema patch

def elementsNamedOnce (schema mergeKey : String) (earlier : List Value) : List Value -> Bool
  | [] => true
  | .object element :: patch =>
    ((Fields.get element mergeKey).all fun named => named.isScalar && !earlier.contains named) &&
      fieldsNamedOnce schema element &&
      elementsNamedOnce schema mergeKey ((Fields.get element mergeKey).toList ++ earlier) patch
  | .null :: patch | .bool _ :: patch | .number _ :: patch | .string _ :: patch | .array _ :: patch =>
    elementsNamedOnce schema mergeKey earlier patch

end

attribute [grind =] namesOnce fieldsNamedOnce elementsNamedOnce

end Copies

section Sufficient

variable {allowed : String -> Bool} {table : PatchTable} {info : Option PatchMeta} {existing : Option Value}
  {fields result base patch element : Fields} {elements changes earlier : List Value}
  {name schema mergeKey : String} {v w named : Value}

theorem objectCopies_of_below {below : Bool} (every : everyKeyOf allowed patch = true) (holds : below = true) :
    objectCopies allowed patch below = true := by
  rw [objectCopies]
  split_ifs with deletes replaces
  · rfl
  · exact everyKeyOf_filter every _
  · exact holds

mutual

theorem fieldCopiesHold_of_everyKey :
    (patch : Fields) -> (schema : String) -> (existing : Fields) -> everyKeyOf allowed patch = true ->
      fieldCopiesHold allowed table schema existing patch = true
  | [], _, _, _ => by
    rw [fieldCopiesHold]
  | (key, v) :: patch, schema, existing, every => by
    rw [everyKeyOf, Bool.and_eq_true, Bool.and_eq_true] at every
    rw [fieldCopiesHold, copiesHold_of_everyKey v _ _ every.1.2, fieldCopiesHold_of_everyKey patch _ _ every.2,
      Bool.or_true, Bool.and_true]

theorem copiesHold_of_everyKey :
    (patch : Value) -> (info : Option PatchMeta) -> (existing : Option Value) -> everyKey allowed patch = true ->
      copiesHold allowed table info existing patch = true
  | .array changes, info, existing, every => by
    rw [copiesHold]
    cases mergeBase info existing changes with
    | none => exact every
    | some found =>
      rw [everyKey] at every
      exact elementCopiesHold_of_everyKey changes _ _ _ _ every
  | .object patch, info, existing, every => by
    rw [copiesHold]
    cases objectBase existing with
    | none => exact every
    | some fields =>
      rw [everyKey] at every
      exact objectCopies_of_below every (fieldCopiesHold_of_everyKey patch _ _ every)
  | .null, _, _, _ | .bool _, _, _, _ | .number _, _, _, _ | .string _, _, _, _ => by
    rw [copiesHold]

theorem elementCopiesHold_of_everyKey :
    (changes : List Value) -> (schema mergeKey : String) -> (base earlier : List Value) ->
      everyKeyIn allowed changes = true -> elementCopiesHold allowed table schema mergeKey base earlier changes = true
  | [], _, _, _, _, _ => by
    rw [elementCopiesHold]
  | .object element :: changes, schema, mergeKey, base, earlier, every => by
    rw [everyKeyIn, Bool.and_eq_true, everyKey] at every
    rw [elementCopiesHold, elementCopiesHold_of_everyKey changes _ _ _ _ every.2, Bool.and_true, Bool.or_eq_true]
    right
    split
    · exact objectCopies_of_below every.1 (fieldCopiesHold_of_everyKey element _ _ every.1)
    · rw [everyKey]
      exact every.1
  | .array inner :: changes, schema, mergeKey, base, earlier, every => by
    rw [everyKeyIn, Bool.and_eq_true] at every
    rw [elementCopiesHold, every.1, elementCopiesHold_of_everyKey changes _ _ _ _ every.2]
    rfl
  | .null :: changes, schema, mergeKey, base, earlier, every
  | .bool _ :: changes, schema, mergeKey, base, earlier, every
  | .number _ :: changes, schema, mergeKey, base, earlier, every
  | .string _ :: changes, schema, mergeKey, base, earlier, every => by
    rw [everyKeyIn, Bool.and_eq_true] at every
    rw [elementCopiesHold]
    exact elementCopiesHold_of_everyKey changes _ _ _ _ every.2

end

/-! ### What is copied clean stays clean -/

theorem everyKeyIn_mergeIntoFirst {into : Fields -> Value} (every : everyKeyIn allowed elements = true)
    (hit : forall existing, firstUnder mergeKey named elements = some existing -> everyKey allowed (into existing) = true)
    (miss : firstUnder mergeKey named elements = none -> everyKey allowed (.object element) = true) :
    everyKeyIn allowed (mergeIntoFirst mergeKey named into element elements) = true := by
  induction elements with
  | nil =>
    rw [mergeIntoFirst, everyKeyIn, miss rfl]
    rfl
  | cons head rest ih =>
    rw [everyKeyIn, Bool.and_eq_true] at every
    by_cases here : head.field mergeKey = some named
    · rcases object_of_field here with ⟨fields, rfl, keyed⟩
      rw [mergeIntoFirst_here keyed, everyKeyIn, hit fields (firstUnder_here keyed), every.2]
      rfl
    · rw [firstUnder_there here] at hit miss
      rw [mergeIntoFirst_there here, everyKeyIn, every.1, ih every.2 hit miss]
      rfl

theorem everyKeyOf_firstUnder (every : everyKeyIn allowed elements = true)
    (found : firstUnder mergeKey named elements = some fields) : everyKeyOf allowed fields = true := by
  induction elements with
  | nil => cases found
  | cons head rest ih =>
    rw [everyKeyIn, Bool.and_eq_true] at every
    by_cases here : head.field mergeKey = some named
    · rcases object_of_field here with ⟨existing, rfl, keyed⟩
      rw [firstUnder_here keyed] at found
      cases found
      have first := every.1
      rwa [everyKey] at first
    · rw [firstUnder_there here] at found
      exact ih every.2 found

theorem everyKey_mergeObject (every : everyKeyOf allowed fields = true)
    (copies : objectCopies allowed patch
      (fieldCopiesHold allowed table schema (applyPrimitiveListDeletes fields patch) patch) = true)
    (below : forall result, everyKeyOf allowed result = true ->
      fieldCopiesHold allowed table schema result patch = true ->
      everyKeyOf allowed (mergeFields table schema result patch) = true) :
    everyKey allowed (mergeObject table schema fields patch) = true := by
  rw [objectCopies] at copies
  split_ifs at copies with deletes replaces
  · rw [mergeObject_of_delete deletes, everyKey]
  · rw [mergeObject_of_replace replaces]
    exact copies
  · rw [mergeObject_of_plain deletes replaces, everyKey]
    exact everyKeyOf_applyElementOrders (below _ (everyKeyOf_applyPrimitiveListDeletes every patch) copies) patch

theorem everyKeyOf_objectBase (every : forall w, existing = some w -> everyKey allowed w = true)
    (found : objectBase existing = some fields) : everyKeyOf allowed fields = true := by
  rw [objectBase.eq_def] at found
  split at found
  · cases found
    rw [everyKeyOf]
  · cases found
    have here := every _ rfl
    rwa [everyKey] at here
  all_goals cases found

theorem everyKeyIn_mergeBase (every : forall w, existing = some w -> everyKey allowed w = true)
    (found : mergeBase info existing changes = some (mergeKey, elements)) : everyKeyIn allowed elements = true := by
  rw [mergeBase] at found
  split at found
  · rename_i original key base _
    split_ifs at found with merged replaced
    · cases found
      rw [everyKeyIn]
    · cases found
      rw [listBase.eq_def] at base
      split at base
      · cases base
        rw [everyKeyIn]
      · cases base
        have here := every _ rfl
        rwa [everyKey] at here
      all_goals cases base
  · cases found

/-- Placing an element of the patch, the element having been looked at. -/
theorem everyKeyIn_applyElement {base : List Value} (every : everyKeyIn allowed elements = true)
    (agree : forall named, named.isScalar = true -> named ∉ earlier ->
      firstUnder mergeKey named elements = firstUnder mergeKey named base)
    (below : forall result, everyKeyOf allowed result = true ->
      fieldCopiesHold allowed table schema result element = true ->
      everyKeyOf allowed (mergeFields table schema result element) = true)
    (copies : (decide (directive element = some "replace") || decide (directive element = some "delete") ||
      match ((Fields.get element mergeKey).filter fun named => named.isScalar && !earlier.contains named).bind
          fun named => firstUnder mergeKey named base with
      | some existing =>
        objectCopies allowed element
          (fieldCopiesHold allowed table schema (applyPrimitiveListDeletes existing element) element)
      | none => everyKey allowed (.object element)) = true) :
    everyKeyIn allowed
      (applyElement mergeKey (fun existing => mergeObject table schema existing element) element elements) = true := by
  by_cases stays : directive element = some "replace"
  · rwa [applyElement_replace stays]
  · by_cases keeps : directive element = some "delete"
    · rw [applyElement_delete keeps]
      cases element.get mergeKey with
      | none => exact every
      | some named =>
        rw [everyKeyIn_iff] at every ⊢
        exact fun v listed => every v (List.mem_filter.mp listed).1
    · rw [decide_eq_false stays, decide_eq_false keeps, Bool.or_self, Bool.false_or] at copies
      rw [applyElement_plain keeps stays]
      cases given : element.get mergeKey with
      | none =>
        rw [given] at copies
        rw [everyKeyIn_perm List.perm_append_comm]
        rw [List.singleton_append, everyKeyIn, every, Bool.and_true]
        exact copies
      | some named =>
        rw [given, Option.filter] at copies
        have copied (whole : everyKey allowed (.object element) = true) (existing : Fields) :
            objectCopies allowed element
              (fieldCopiesHold allowed table schema (applyPrimitiveListDeletes existing element) element) = true := by
          rw [everyKey] at whole
          exact objectCopies_of_below whole (fieldCopiesHold_of_everyKey element _ _ whole)
        have merged existing (found : firstUnder mergeKey named elements = some existing)
            (holds : objectCopies allowed element
              (fieldCopiesHold allowed table schema (applyPrimitiveListDeletes existing element) element) = true) :=
          everyKey_mergeObject (everyKeyOf_firstUnder every found) holds below
        by_cases fresh : (named.isScalar && !earlier.contains named) = true
        · rw [if_pos fresh, Option.bind_some] at copies
          rw [Bool.and_eq_true, Bool.not_eq_true', List.contains_eq_mem, decide_eq_false_iff_not] at fresh
          rw [← agree named fresh.1 fresh.2] at copies
          refine everyKeyIn_mergeIntoFirst every (fun existing found => ?_) fun missing => ?_
          · rw [found] at copies
            exact merged existing found copies
          · rw [missing] at copies
            exact copies
        · rw [if_neg fresh, Option.bind_none] at copies
          exact everyKeyIn_mergeIntoFirst every (fun existing found => merged existing found (copied copies existing))
            fun _ => copies

mutual

theorem everyKey_mergeField (plain : forall key, startsWithDollar key = false -> allowed key = true) :
    (patch : Value) -> patch.Canonical -> (info : Option PatchMeta) -> (existing : Option Value) ->
      (forall w, existing = some w -> everyKey allowed w = true) ->
      copiesHold allowed table info existing patch = true ->
      everyKey allowed (mergeField table info existing patch) = true
  | .array changes, canonical, info, existing, every, copies => by
    rw [copiesHold] at copies
    cases found : mergeBase info existing changes with
    | none =>
      rw [found] at copies
      rw [mergeField_array_of_none found]
      exact copies
    | some base =>
      rcases base with ⟨mergeKey, base⟩
      rw [found] at copies
      rw [mergeField_array found, everyKey]
      exact everyKeyIn_mergeElements plain changes (fun e => canonical.elementsOf) _ _ base base []
        (everyKeyIn_mergeBase every found) (fun named _ _ => rfl) copies
  | .object patch, canonical, info, existing, every, copies => by
    rw [copiesHold] at copies
    cases base : objectBase existing with
    | none =>
      rw [base] at copies
      rw [mergeField_object_of_none base]
      exact copies
    | some fields =>
      rw [base] at copies
      rw [mergeField_object base]
      exact everyKey_mergeObject (everyKeyOf_objectBase every base) copies fun result clean holds =>
        everyKeyOf_mergeFields plain patch canonical.nodup (fun name v => canonical.fieldsOf) _ result result
          clean (fun _ _ => rfl) holds
  | .null, _, _, _, _, _ | .bool _, _, _, _, _, _ | .number _, _, _, _, _, _ | .string _, _, _, _, _, _ => by
    rw [mergeField, everyKey]

theorem everyKeyIn_mergeElements (plain : forall key, startsWithDollar key = false -> allowed key = true) :
    (changes : List Value) -> (forall e, e ∈ changes -> e.Canonical) -> (schema mergeKey : String) ->
      (result base earlier : List Value) -> everyKeyIn allowed result = true ->
      (forall named, named.isScalar = true -> named ∉ earlier ->
        firstUnder mergeKey named result = firstUnder mergeKey named base) ->
      elementCopiesHold allowed table schema mergeKey base earlier changes = true ->
      everyKeyIn allowed (mergeElements table schema mergeKey result changes) = true
  | [], _, _, _, _, _, _, every, _, _ => by
    rw [mergeElements]
    exact every
  | .object element :: changes, canonical, schema, mergeKey, result, base, earlier, every, agree, copies => by
    have canonicalElement := canonical _ (.head _)
    rw [elementCopiesHold, Bool.and_eq_true] at copies
    rw [mergeElements_object]
    refine everyKeyIn_mergeElements plain changes (fun e listed => canonical e (.tail _ listed)) schema
      mergeKey _ base _ ?_ ?_ copies.2
    · exact everyKeyIn_applyElement every agree
        (fun result clean holds => everyKeyOf_mergeFields plain element canonicalElement.nodup
          (fun name v => canonicalElement.fieldsOf) schema result result clean (fun _ _ => rfl) holds)
        copies.1
    · intro named scalar unnamed
      rw [List.mem_append, not_or, Option.mem_toList] at unnamed
      rw [firstUnder_applyElement canonicalElement.nodup scalar unnamed.1, agree named scalar unnamed.2]
  | .array inner :: changes, canonical, schema, mergeKey, result, base, earlier, every, agree, copies => by
    rw [elementCopiesHold, Bool.and_eq_true] at copies
    rw [mergeElements]
    refine everyKeyIn_mergeElements plain changes (fun e listed => canonical e (.tail _ listed)) schema
      mergeKey _ base earlier ?_ (fun named scalar unnamed => ?_) copies.2
    · rw [everyKeyIn_perm List.perm_append_comm, List.singleton_append, everyKeyIn, copies.1, every]
      rfl
    · rw [firstUnder_append_other (fun keyed => by cases keyed), agree named scalar unnamed]
  | .null :: changes, canonical, schema, mergeKey, result, base, earlier, every, agree, copies
  | .bool _ :: changes, canonical, schema, mergeKey, result, base, earlier, every, agree, copies
  | .number _ :: changes, canonical, schema, mergeKey, result, base, earlier, every, agree, copies
  | .string _ :: changes, canonical, schema, mergeKey, result, base, earlier, every, agree, copies => by
    rw [elementCopiesHold] at copies
    rw [mergeElements]
    refine everyKeyIn_mergeElements plain changes (fun e listed => canonical e (.tail _ listed)) schema
      mergeKey _ base earlier ?_ (fun named scalar unnamed => ?_) copies
    · rw [everyKeyIn_perm List.perm_append_comm, List.singleton_append, everyKeyIn, everyKey, every]
      rfl
    · rw [firstUnder_append_other (fun keyed => by cases keyed), agree named scalar unnamed]

theorem everyKeyOf_mergeFields (plain : forall key, startsWithDollar key = false -> allowed key = true) :
    (patch : Fields) -> (Fields.names patch).Nodup -> (forall name v, (name, v) ∈ patch -> v.Canonical) ->
      (schema : String) -> (result base : Fields) -> everyKeyOf allowed result = true ->
      (forall name, name ∈ Fields.names patch -> result.get name = base.get name) ->
      fieldCopiesHold allowed table schema base patch = true ->
      everyKeyOf allowed (mergeFields table schema result patch) = true
  | [], _, _, _, _, _, every, _, _ => by
    rw [mergeFields]
    exact every
  | (key, v) :: patch, distinct, canonical, schema, result, base, every, agree, copies => by
    have parts := List.nodup_cons.mp distinct
    have rest name (listed : name ∈ Fields.names patch) : result.get name = base.get name :=
      agree name (.tail _ listed)
    have canonicalRest name w (listed : (name, w) ∈ patch) : w.Canonical :=
      canonical name w (.tail _ listed)
    rw [fieldCopiesHold, Bool.and_eq_true, Bool.or_eq_true] at copies
    rw [mergeFields]
    cases dollar : startsWithDollar key with
    | true =>
      rw [if_pos rfl]
      exact everyKeyOf_mergeFields plain patch parts.2 canonicalRest schema result base every rest copies.2
    | false =>
      rw [if_neg Bool.false_ne_true]
      rw [dollar] at copies
      have holds := copies.1.resolve_left Bool.false_ne_true
      rw [← agree key List.mem_cons_self] at holds
      have below := everyKey_mergeField plain v (canonical _ _ (.head _)) _ (result.get key)
        (fun w found => (everyKey_get every found).2) holds
      refine everyKeyOf_mergeFields plain patch parts.2 canonicalRest schema _ base
        (everyKeyOf_putField every (plain key dollar) below) (fun name listed => ?_) copies.2
      have different : key ≠ name := by
        intro same
        subst same
        exact parts.1 listed
      rw [get_putField, if_neg different, rest name listed]

end

end Sufficient

/-! ## What is copied with a directive keeps it -/

section Necessary

variable {allowed : String -> Bool} {table : PatchTable} {info : Option PatchMeta} {existing : Option Value}
  {fields patch element : Fields} {elements changes earlier : List Value} {schema mergeKey : String} {v : Value}

/-- What stands under a key the rest of the patch does not name again stays in the list. -/
theorem mem_mergeElements (once : elementsNamedOnce table schema mergeKey earlier changes = true)
    (listed : v ∈ elements) (named : forall key, v.field mergeKey = some key -> key ∈ earlier) :
    v ∈ mergeElements table schema mergeKey elements changes := by
  induction changes generalizing elements earlier with
  | nil => rwa [mergeElements]
  | cons head rest ih =>
    cases head with
    | object element =>
      rw [elementsNamedOnce, Bool.and_eq_true, Bool.and_eq_true] at once
      rw [mergeElements_object]
      refine ih once.2 (mem_applyElement listed ?_) fun key keyed =>
        List.mem_append_right _ (named key keyed)
      intro key given keyed
      have fresh := once.1.1
      rw [given, Option.all_some, Bool.and_eq_true, Bool.not_eq_true', List.contains_eq_mem,
        decide_eq_false_iff_not] at fresh
      exact fresh.2 (named key keyed)
    | null | bool b | number n | string s | array inner =>
      rw [elementsNamedOnce] at once
      rw [mergeElements]
      exact ih once (List.mem_append_left _ listed) named

theorem mergeBase_some {base : List Value} (found : mergeBase info existing changes = some (mergeKey, base)) :
    mergeKeyOf info = some mergeKey ∧ isMergeList info = true := by
  rw [mergeBase] at found
  split at found
  · rename_i original key _ keyed
    split_ifs at found with merged replaced
    all_goals
      cases found
      rw [Bool.and_eq_true, Bool.and_eq_true] at merged
      exact ⟨keyed, merged.1.1⟩
  · cases found

theorem objectCopies_of_merged (distinct : (Fields.names patch).Nodup)
    (every : everyKey allowed (mergeObject table schema fields patch) = true)
    (below : forall result,
      (forall key v, (key, v) ∈ patch -> startsWithDollar key = false ->
        everyKey allowed (mergeField table (table schema key) (result.get key) v) = true) ->
      fieldCopiesHold allowed table schema result patch = true) :
    objectCopies allowed patch
      (fieldCopiesHold allowed table schema (applyPrimitiveListDeletes fields patch) patch) = true := by
  rw [objectCopies]
  split_ifs with deletes replaces
  · rfl
  · rwa [mergeObject_of_replace replaces] at every
  · rw [mergeObject_of_plain deletes replaces, everyKey] at every
    refine below _ fun key v listed dollar => ?_
    have after := get_mergeFields table schema (applyPrimitiveListDeletes fields patch) key distinct
    rw [Fields.get_of_mem distinct listed] at after
    dsimp only at after
    rw [dollar, if_neg Bool.false_ne_true] at after
    by_cases gone : mergeField table (table schema key) ((applyPrimitiveListDeletes fields patch).get key) v = .null
    · rw [gone, everyKey]
    · rw [if_neg gone] at after
      rcases get_applyElementOrders table schema patch after with ⟨w, last, reordered⟩
      exact (everyKey_of_reordered reordered).mp (everyKey_get every last).2

theorem elementCopy_of_merged {base : List Value} (distinct : (Fields.names element).Nodup)
    (agree : forall named, named.isScalar = true -> named ∉ earlier ->
      firstUnder mergeKey named elements = firstUnder mergeKey named base)
    (fresh : ((Fields.get element mergeKey).all fun named => named.isScalar && !earlier.contains named) = true)
    (once : elementsNamedOnce table schema mergeKey ((Fields.get element mergeKey).toList ++ earlier) changes = true)
    (every : everyKeyIn allowed
      (mergeElements table schema mergeKey
        (applyElement mergeKey (fun existing => mergeObject table schema existing element) element elements)
        changes) = true)
    (below : forall result,
      (forall key v, (key, v) ∈ element -> startsWithDollar key = false ->
        everyKey allowed (mergeField table (table schema key) (result.get key) v) = true) ->
      fieldCopiesHold allowed table schema result element = true) :
    (decide (directive element = some "replace") || decide (directive element = some "delete") ||
      match ((Fields.get element mergeKey).filter fun named => named.isScalar && !earlier.contains named).bind
          fun named => firstUnder mergeKey named base with
      | some existing =>
        objectCopies allowed element
          (fieldCopiesHold allowed table schema (applyPrimitiveListDeletes existing element) element)
      | none => everyKey allowed (.object element)) = true := by
  by_cases stays : directive element = some "replace"
  · rw [decide_eq_true stays]
    rfl
  · by_cases keeps : directive element = some "delete"
    · rw [decide_eq_true keeps, Bool.or_true]
      rfl
    · rw [decide_eq_false stays, decide_eq_false keeps, Bool.or_self, Bool.false_or]
      have settled {v : Value}
          (listed : v ∈ applyElement mergeKey (fun existing => mergeObject table schema existing element) element elements)
          (named : forall key, v.field mergeKey = some key -> element.get mergeKey = some key) :
          everyKey allowed v = true :=
        everyKeyIn_iff.mp every v
          (mem_mergeElements once listed fun key keyed =>
            List.mem_append_left _ (Option.mem_toList.mpr (named key keyed)))
      rw [applyElement_plain keeps stays] at settled
      cases given : element.get mergeKey with
      | none =>
        rw [given] at settled
        exact settled (List.mem_append_right _ (.head _)) fun key keyed => given.symm.trans keyed
      | some named =>
        rw [given, Option.all_some] at fresh
        rw [Option.filter, if_pos fresh, Option.bind_some]
        rw [Bool.and_eq_true, Bool.not_eq_true', List.contains_eq_mem, decide_eq_false_iff_not] at fresh
        rw [← agree named fresh.1 fresh.2]
        have placed := mem_mergeIntoFirst mergeKey named (fun existing => mergeObject table schema existing element)
          element elements
        rw [given] at settled
        cases found : firstUnder mergeKey named elements with
        | none =>
          rw [found] at placed
          exact settled placed fun key keyed => given.symm.trans keyed
        | some existing =>
          rw [found] at placed
          refine objectCopies_of_merged distinct (settled placed fun key keyed => ?_) below
          rcases object_of_field keyed with ⟨merged, whole, there⟩
          rcases mergedKey_scalar distinct fresh.1 (firstUnder_keyed found) given whole stays with same | ⟨_, gone⟩
          · exact same.symm.trans there
          · rw [there] at gone
            cases gone

mutual

theorem copiesHold_of_merged :
    (patch : Value) -> patch.Canonical -> (info : Option PatchMeta) -> (existing : Option Value) ->
      namesOnce table info patch = true -> everyKey allowed (mergeField table info existing patch) = true ->
      copiesHold allowed table info existing patch = true
  | .array changes, canonical, info, existing, once, every => by
    rw [copiesHold]
    cases found : mergeBase info existing changes with
    | none =>
      rw [mergeField_array_of_none found] at every
      exact every
    | some base =>
      rcases base with ⟨mergeKey, base⟩
      rw [mergeField_array found, everyKey] at every
      have merged := mergeBase_some found
      rw [namesOnce, merged.1, merged.2] at once
      have named : elementsNamedOnce table (elementSchemaOf info) mergeKey [] changes = true := once
      exact elementCopiesHold_of_merged changes (fun e => canonical.elementsOf) _ _ base base []
        (fun named _ _ => rfl) named every
  | .object patch, canonical, info, existing, once, every => by
    rw [copiesHold]
    cases base : objectBase existing with
    | none =>
      rw [mergeField_object_of_none base] at every
      exact every
    | some fields =>
      rw [mergeField_object base] at every
      rw [namesOnce] at once
      exact objectCopies_of_merged canonical.nodup every
        fun result => fieldCopiesHold_of_merged patch (fun name v => canonical.fieldsOf) _ result once
  | .null, _, _, _, _, _ | .bool _, _, _, _, _, _ | .number _, _, _, _, _, _ | .string _, _, _, _, _, _ => by
    rw [copiesHold]

theorem elementCopiesHold_of_merged :
    (changes : List Value) -> (forall e, e ∈ changes -> e.Canonical) -> (schema mergeKey : String) ->
      (result base earlier : List Value) ->
      (forall named, named.isScalar = true -> named ∉ earlier ->
        firstUnder mergeKey named result = firstUnder mergeKey named base) ->
      elementsNamedOnce table schema mergeKey earlier changes = true ->
      everyKeyIn allowed (mergeElements table schema mergeKey result changes) = true ->
      elementCopiesHold allowed table schema mergeKey base earlier changes = true
  | [], _, _, _, _, _, _, _, _, _ => by
    rw [elementCopiesHold]
  | .object element :: changes, canonical, schema, mergeKey, result, base, earlier, agree, once, every => by
    have canonicalElement := canonical _ (.head _)
    have canonicalRest e (listed : e ∈ changes) : e.Canonical := canonical e (.tail _ listed)
    rw [elementsNamedOnce, Bool.and_eq_true, Bool.and_eq_true] at once
    rw [mergeElements_object] at every
    rw [elementCopiesHold, Bool.and_eq_true]
    constructor
    · exact elementCopy_of_merged canonicalElement.nodup agree once.1.1 once.2 every fun result =>
        fieldCopiesHold_of_merged element (fun name v => canonicalElement.fieldsOf) schema result once.1.2
    · refine elementCopiesHold_of_merged changes canonicalRest schema mergeKey _ base _ (fun named scalar unnamed => ?_)
        once.2 every
      rw [List.mem_append, not_or, Option.mem_toList] at unnamed
      rw [firstUnder_applyElement canonicalElement.nodup scalar unnamed.1, agree named scalar unnamed.2]
  | .array inner :: changes, canonical, schema, mergeKey, result, base, earlier, agree, once, every => by
    rw [elementsNamedOnce] at once
    rw [mergeElements] at every
    rw [elementCopiesHold, Bool.and_eq_true]
    constructor
    · exact everyKeyIn_iff.mp every _ (mem_mergeElements once (List.mem_append_right _ (.head _))
        fun key keyed => by cases keyed)
    · refine elementCopiesHold_of_merged changes (fun e listed => canonical e (.tail _ listed)) schema
        mergeKey _ base earlier (fun named scalar unnamed => ?_) once every
      rw [firstUnder_append_other (fun keyed => by cases keyed), agree named scalar unnamed]
  | .null :: changes, canonical, schema, mergeKey, result, base, earlier, agree, once, every
  | .bool _ :: changes, canonical, schema, mergeKey, result, base, earlier, agree, once, every
  | .number _ :: changes, canonical, schema, mergeKey, result, base, earlier, agree, once, every
  | .string _ :: changes, canonical, schema, mergeKey, result, base, earlier, agree, once, every => by
    rw [elementsNamedOnce] at once
    rw [mergeElements] at every
    rw [elementCopiesHold]
    refine elementCopiesHold_of_merged changes (fun e listed => canonical e (.tail _ listed)) schema
      mergeKey _ base earlier (fun named scalar unnamed => ?_) once every
    rw [firstUnder_append_other (fun keyed => by cases keyed), agree named scalar unnamed]

theorem fieldCopiesHold_of_merged :
    (patch : Fields) -> (forall name v, (name, v) ∈ patch -> v.Canonical) -> (schema : String) -> (result : Fields) ->
      fieldsNamedOnce table schema patch = true ->
      (forall key v, (key, v) ∈ patch -> startsWithDollar key = false ->
        everyKey allowed (mergeField table (table schema key) (result.get key) v) = true) ->
      fieldCopiesHold allowed table schema result patch = true
  | [], _, _, _, _, _ => by
    rw [fieldCopiesHold]
  | (key, v) :: patch, canonical, schema, result, once, every => by
    rw [fieldsNamedOnce, Bool.and_eq_true, Bool.or_eq_true] at once
    rw [fieldCopiesHold, Bool.and_eq_true, Bool.or_eq_true]
    refine ⟨?_, fieldCopiesHold_of_merged patch (fun name w listed => canonical name w (.tail _ listed))
      schema result once.2 fun name w listed => every name w (.tail _ listed)⟩
    cases dollar : startsWithDollar key with
    | true => exact Or.inl rfl
    | false =>
      right
      rw [dollar] at once
      exact copiesHold_of_merged v (canonical _ _ (.head _)) _ _ (once.1.resolve_left Bool.false_ne_true)
        (every key v List.mem_cons_self dollar)

end

end Necessary

/-! ## The whole merge -/

theorem startsWithDollar_of_stripped {lead key : String} (dollar : startsWithDollar lead = true)
    (stripped : (strippedOf lead key).isSome = true) : startsWithDollar key = true := by
  rw [strippedOf] at stripped
  split_ifs at stripped with begins
  · rw [startsWithDollar, decide_eq_true_eq] at dollar ⊢
    rw [List.isPrefixOf_iff_prefix] at begins
    rcases begins with ⟨rest, same⟩
    rw [← same, List.head?_append, dollar]
    rfl
  · cases stripped

theorem startsWithDollar_of_isDirective {key : String} (directs : isDirective key = true) :
    startsWithDollar key = true := by
  rw [isDirective, Bool.or_eq_true, Bool.or_eq_true, Bool.or_eq_true, decide_eq_true_eq, decide_eq_true_eq] at directs
  rcases directs with ((rfl | rfl) | stripped) | stripped
  · decide +kernel
  · decide +kernel
  · exact startsWithDollar_of_stripped (by decide +kernel) stripped
  · exact startsWithDollar_of_stripped (by decide +kernel) stripped

/-- No key of the value, at any depth, is a directive. -/
def DirectiveFree (v : Value) : Prop :=
  everyKey (fun key => !isDirective key) v = true

/-- No part that the merge copies whole holds a directive. -/
def CopiesDirectiveFree (table : PatchTable) (schema : String) (stored patch : Value) : Prop :=
  copiesHold (fun key => !isDirective key) table (some { refSchema := some schema }) (some stored) patch = true

/-- Each list that is merged names its elements by scalars, and each once. -/
def NamesOnce (table : PatchTable) (schema : String) (patch : Value) : Prop :=
  namesOnce table (some { refSchema := some schema }) patch = true

/-- A patch leaves no directive behind if no part copied whole holds one, and
only if, when it names each element once. -/
theorem merge_directiveFree_iff (table : PatchTable) (schema : String) (stored patch : Document)
    (whole : stored.value.isObject = true)
    (dollarFree : everyKey (fun key => !startsWithDollar key) stored.value = true) :
    (CopiesDirectiveFree table schema stored.value patch.value ->
        DirectiveFree (merge table schema stored.value patch.value)) ∧
      (NamesOnce table schema patch.value ->
        DirectiveFree (merge table schema stored.value patch.value) ->
        CopiesDirectiveFree table schema stored.value patch.value) := by
  have wider key (free : (!startsWithDollar key) = true) : (!isDirective key) = true := by
    cases directs : isDirective key with
    | false => rfl
    | true =>
      rw [startsWithDollar_of_isDirective directs] at free
      cases free
  have clean := everyKey_mono wider stored.value dollarFree
  have field : merge table schema stored.value patch.value =
      mergeField table (some { refSchema := some schema }) (some stored.value) patch.value := by
    cases shape : stored.value with
    | object fields => exact merge_eq_mergeField
    | null | bool b | number n | string s | array elements =>
      rw [shape] at whole
      cases whole
  constructor
  · intro copies
    rw [DirectiveFree, field]
    refine everyKey_mergeField (fun key free => wider key (by rw [free]; rfl)) patch.value patch.canonical _ _
      (fun w found => ?_) copies
    cases found
    exact clean
  · intro once free
    rw [DirectiveFree, field] at free
    exact copiesHold_of_merged patch.value patch.canonical _ _ once free

/-- A pod with one container, and a patch that replaces the ports of the container named. -/
def onePod : Value :=
  .object [("containers", .array [.object [("name", .string "app")]])]

def replacedPorts (container : String) : Value :=
  .object [("containers", .array [.object [("name", .string container),
    ("ports", .array [.object [("$patch", .string "replace")], .object [("containerPort", .number (.int 80))]])]])]

/-- The container is there, so its ports are merged. -/
theorem knownContainer_directiveFree :
    DirectiveFree (merge podTable "io.k8s.api.core.v1.PodSpec" onePod (replacedPorts "app")) :=
  (merge_directiveFree_iff podTable "io.k8s.api.core.v1.PodSpec"
    ⟨onePod, .of_isCanonical _ (by decide +kernel)⟩ ⟨replacedPorts "app", .of_isCanonical _ (by decide +kernel)⟩
    (by decide +kernel) (by decide +kernel)).1 (by unfold CopiesDirectiveFree; decide +kernel)

/-- The container is new, so it is appended as it stands in the patch. -/
theorem newContainer_keepsDirective :
    everyKey (fun key => !startsWithDollar key) onePod = true ∧
      ¬DirectiveFree (merge podTable "io.k8s.api.core.v1.PodSpec" onePod (replacedPorts "sidecar")) := by
  unfold DirectiveFree
  decide +kernel

end Strategic
end NotK8s.Patch

import NotK8s.Patch.Value

namespace NotK8s.Patch

/-!
# Strategic merge patches

A patch document is laid over the stored object.  Keys that start with a
dollar sign direct the merge and are not fields of it: a whole object or an
element is deleted or replaced, values are taken out of a list of
primitives, the elements of a list are put in an order.

A list with the merge strategy and a merge key is merged element by
element, an element of the patch into the first one with its key.  Any
other list is replaced.
-/

namespace Strategic

/-- The columns of `FIELD_META` the merge reads. -/
structure PatchMeta where
  patchStrategy : Option String := none
  patchMergeKey : Option String := none
  refSchema : Option String := none
  deriving DecidableEq

/-- The index of `FIELD_META` by schema and field. -/
abbrev PatchTable := String -> String -> Option PatchMeta

/-- `patch_strategy == Some("merge")` -/
def isMergeList (info : Option PatchMeta) : Bool :=
  info.bind PatchMeta.patchStrategy = some "merge"

def elementSchemaOf (info : Option PatchMeta) : String :=
  (info.bind PatchMeta.refSchema).getD ""

def mergeKeyOf (info : Option PatchMeta) : Option String :=
  info.bind PatchMeta.patchMergeKey

/-- `key.starts_with('$')` -/
def startsWithDollar (key : String) : Bool :=
  key.toList.head? = some '$'

/-- `key.strip_prefix(..)` -/
def strippedOf (lead key : String) : Option String :=
  if lead.toList.isPrefixOf key.toList then some (String.ofList (key.toList.drop lead.toList.length)) else none

def deleteFromPrimitiveList : String := "$deleteFromPrimitiveList/"

def setElementOrder : String := "$setElementOrder/"

def directive (patch : Fields) : Option String :=
  (patch.get "$patch").bind Value.asStr

def withoutDirectives (patch : Fields) : Fields :=
  patch.filter fun field => !startsWithDollar field.1

def deletePrimitives (result : Fields) (field : String) (values : Value) : Fields :=
  match values, result.get field with
  | .array values, some (.array existing) =>
    result.insert field (.array (existing.filter fun v => !values.contains v))
  | _, _ => result

def applyPrimitiveListDeletes (result patch : Fields) : Fields :=
  patch.foldl
    (fun result field => match strippedOf deleteFromPrimitiveList field.1 with
      | some listed => deletePrimitives result listed field.2
      | none => result)
    result

/-- Takes the first element with the key out. -/
def takeElement (mergeKey : String) (named : Value) : List Value -> Option (Value × List Value)
  | [] => none
  | v :: remaining =>
    if v.field mergeKey = some named then some (v, remaining)
    else (takeElement mergeKey named remaining).map fun taken => (taken.1, v :: taken.2)

def orderElements (mergeKey : String) : List Value -> List Value -> List Value
  | [], remaining => remaining
  | requested :: order, remaining =>
    match (requested.field mergeKey).bind fun named => takeElement mergeKey named remaining with
    | some (v, remaining) => v :: orderElements mergeKey order remaining
    | none => orderElements mergeKey order remaining

def reorderList (mergeKey : String) (existing : List Value) : Value -> List Value
  | .array order => orderElements mergeKey order existing
  | .null | .bool _ | .number _ | .string _ | .object _ => existing

variable (table : PatchTable)

def setOrder (schema : String) (result : Fields) (field : String) (order : Value) : Fields :=
  match result.get field, mergeKeyOf (table schema field) with
  | some (.array existing), some mergeKey => result.insert field (.array (reorderList mergeKey existing order))
  | _, _ => result

def applyElementOrders (schema : String) (result patch : Fields) : Fields :=
  patch.foldl
    (fun result field => match strippedOf setElementOrder field.1 with
      | some listed => setOrder table schema result listed field.2
      | none => result)
    result

/-- What the object becomes, the merged fields being given. -/
def finishObject (schema : String) (patch merged : Fields) : Value :=
  if directive patch = some "delete" then .null
  else if directive patch = some "replace" then .object (withoutDirectives patch)
  else .object (applyElementOrders table schema merged patch)

/-- The first element with the key is merged; without one, the element is appended. -/
def mergeIntoFirst (mergeKey : String) (named : Value) (merged : Fields -> Value) (element : Fields) :
    List Value -> List Value
  | [] => [.object element]
  | .object existing :: result =>
    if Fields.get existing mergeKey = some named then merged existing :: result
    else .object existing :: mergeIntoFirst mergeKey named merged element result
  | .null :: result => .null :: mergeIntoFirst mergeKey named merged element result
  | .bool b :: result => .bool b :: mergeIntoFirst mergeKey named merged element result
  | .number n :: result => .number n :: mergeIntoFirst mergeKey named merged element result
  | .string s :: result => .string s :: mergeIntoFirst mergeKey named merged element result
  | .array inner :: result => .array inner :: mergeIntoFirst mergeKey named merged element result

def isReplacing : Value -> Bool
  | .object patch => directive patch = some "replace"
  | .null | .bool _ | .number _ | .string _ | .array _ => false

/-- What one element of the patch does to the list, `merged` being its merge into an element. -/
def applyElement (mergeKey : String) (merged : Fields -> Value) (element : Fields) (result : List Value) : List Value :=
  if directive element = some "replace" then result
  else match Fields.get element mergeKey with
    | none => if directive element = some "delete" then result else result ++ [.object element]
    | some named =>
      if directive element = some "delete" then result.filter fun v => decide (v.field mergeKey ≠ some named)
      else mergeIntoFirst mergeKey named merged element result

/-- The list a patch is merged with: none is like an empty one. -/
def listBase : Option Value -> Option (List Value)
  | none => some []
  | some (.array elements) => some elements
  | some .null | some (.bool _) | some (.number _) | some (.string _) | some (.object _) => none

def objectBase : Option Value -> Option Fields
  | none => some []
  | some (.object fields) => some fields
  | some .null | some (.bool _) | some (.number _) | some (.string _) | some (.array _) => none

/-- The merge key and what the loop of `merge_list` starts from; a list whose
elements have no identity to merge by is not merged. -/
def mergeBase (info : Option PatchMeta) (existing : Option Value) (patch : List Value) :
    Option (String × List Value) :=
  match listBase existing, mergeKeyOf info with
  | some original, some mergeKey =>
    if isMergeList info && patch.all Value.isObject && original.all Value.isObject then
      some (mergeKey, if patch.any isReplacing then [] else original)
    else none
  | _, _ => none

/-- A field merged to null is not there. -/
def putField (result : Fields) (key : String) (merged : Value) : Fields :=
  if merged = .null then result.remove key else result.insert key merged

mutual

/-- The field after the merge, `existing` being what stands there. -/
def mergeField (info : Option PatchMeta) (existing : Option Value) : Value -> Value
  | .array patch =>
    match mergeBase info existing patch with
    | some (mergeKey, base) => .array (mergeElements (elementSchemaOf info) mergeKey base patch)
    | none => .array patch
  | .object patch =>
    match objectBase existing with
    | some fields =>
      finishObject table (elementSchemaOf info) patch
        (mergeFields (elementSchemaOf info) (applyPrimitiveListDeletes fields patch) patch)
    | none => .object patch
  | .null => .null
  | .bool b => .bool b
  | .number n => .number n
  | .string s => .string s

def mergeFields (schema : String) (result : Fields) : Fields -> Fields
  | [] => result
  | (key, v) :: patch =>
    if startsWithDollar key then mergeFields schema result patch
    else mergeFields schema (putField result key (mergeField (table schema key) (result.get key) v)) patch

/-- The loop of `merge_list`. -/
def mergeElements (schema mergeKey : String) (result : List Value) : List Value -> List Value
  | [] => result
  | .object element :: patch =>
    mergeElements schema mergeKey
      (applyElement mergeKey
        (fun existing =>
          finishObject table schema element
            (mergeFields schema (applyPrimitiveListDeletes existing element) element))
        element result) patch
  | .null :: patch => mergeElements schema mergeKey (result ++ [.null]) patch
  | .bool b :: patch => mergeElements schema mergeKey (result ++ [.bool b]) patch
  | .number n :: patch => mergeElements schema mergeKey (result ++ [.number n]) patch
  | .string s :: patch => mergeElements schema mergeKey (result ++ [.string s]) patch
  | .array inner :: patch => mergeElements schema mergeKey (result ++ [.array inner]) patch

end

attribute [grind =] mergeField mergeFields mergeElements

def mergeObject (schema : String) (original patch : Fields) : Value :=
  finishObject table schema patch (mergeFields table schema (applyPrimitiveListDeletes original patch) patch)

def merge (schema : String) (original patch : Value) : Value :=
  match original, patch with
  | .object fields, .object patch => mergeObject table schema fields patch
  | _, patch => patch

/-- Containers of a pod, the ports of a container and the finalizers of an object. -/
def podTable : PatchTable
  | "io.k8s.api.core.v1.PodSpec", "containers" =>
    some { patchStrategy := some "merge"
           patchMergeKey := some "name"
           refSchema := some "io.k8s.api.core.v1.Container" }
  | "io.k8s.api.core.v1.Container", "ports" =>
    some { patchStrategy := some "merge"
           patchMergeKey := some "containerPort"
           refSchema := some "io.k8s.api.core.v1.ContainerPort" }
  | "io.k8s.apimachinery.pkg.apis.meta.v1.ObjectMeta", "finalizers" => some { patchStrategy := some "merge" }
  | _, _ => none

/-! ## What a merge leaves under a name -/

variable {table} {info : Option PatchMeta} {existing : Option Value} {schema name mergeKey : String} {v w named : Value}
  {fields patch result merged : Fields} {elements order remaining : List Value}

theorem merge_eq_mergeField :
    merge table schema (.object fields) v = mergeField table (some { refSchema := some schema }) (some (.object fields)) v := by
  cases v with
  | object patch | array patch | null | bool b | number n | string s =>
    rw [mergeField]
    rfl

theorem mergeField_object (base : objectBase existing = some fields) :
    mergeField table info existing (.object patch) = mergeObject table (elementSchemaOf info) fields patch := by
  rw [mergeField, base]
  rfl

theorem mergeField_object_of_none (other : objectBase existing = none) :
    mergeField table info existing (.object patch) = .object patch := by
  rw [mergeField, other]

theorem mergeField_array {changes base : List Value} (found : mergeBase info existing changes = some (mergeKey, base)) :
    mergeField table info existing (.array changes) =
      .array (mergeElements table (elementSchemaOf info) mergeKey base changes) := by
  rw [mergeField, found]

theorem mergeField_array_of_none {changes : List Value} (other : mergeBase info existing changes = none) :
    mergeField table info existing (.array changes) = .array changes := by
  rw [mergeField, other]

theorem mergeObject_of_delete (deletes : directive patch = some "delete") :
    mergeObject table schema fields patch = .null := by
  rw [mergeObject, finishObject, if_pos deletes]

theorem mergeObject_of_replace (replaces : directive patch = some "replace") :
    mergeObject table schema fields patch = .object (withoutDirectives patch) := by
  rw [mergeObject, finishObject, if_neg (by rw [replaces]; decide), if_pos replaces]

theorem mergeObject_of_plain (keeps : directive patch ≠ some "delete") (stays : directive patch ≠ some "replace") :
    mergeObject table schema fields patch =
      .object (applyElementOrders table schema
        (mergeFields table schema (applyPrimitiveListDeletes fields patch) patch) patch) := by
  rw [mergeObject, finishObject, if_neg keeps, if_neg stays]

theorem get_putField {other : String} :
    (putField result name v).get other =
      if name = other then (if v = .null then none else some v) else result.get other := by
  rw [putField]
  by_cases gone : v = .null
  · rw [if_pos gone, if_pos gone, Fields.get_remove]
  · rw [if_neg gone, if_neg gone, Fields.get_insert]

/-- Each field of the patch is merged with what stood there before the merge. -/
theorem get_mergeFields (table : PatchTable) (schema : String) (result : Fields) (name : String)
    (distinct : (Fields.names patch).Nodup) :
    (mergeFields table schema result patch).get name = match patch.get name with
      | some v =>
        if startsWithDollar name then result.get name
        else if mergeField table (table schema name) (result.get name) v = .null then none
        else some (mergeField table (table schema name) (result.get name) v)
      | none => result.get name := by
  induction patch generalizing result with
  | nil =>
    rw [mergeFields]
    rfl
  | cons head rest ih =>
    rcases head with ⟨key, v⟩
    have parts := List.nodup_cons.mp distinct
    rw [mergeFields, Fields.get]
    by_cases same : key = name
    · subst same
      have absent : Fields.get rest key = none := Fields.get_eq_none.mpr parts.1
      rw [if_pos rfl]
      by_cases dollar : startsWithDollar key = true
      · rw [if_pos dollar, ih _ parts.2, absent]
        exact (if_pos dollar).symm
      · rw [if_neg dollar, ih _ parts.2, absent]
        dsimp only
        rw [if_neg dollar, get_putField, if_pos rfl]
    · rw [if_neg same]
      by_cases dollar : startsWithDollar key = true
      · rw [if_pos dollar, ih _ parts.2]
      · have elsewhere {merged : Value} : (putField result key merged).get name = result.get name := by
          rw [get_putField, if_neg same]
        rw [if_neg dollar, ih _ parts.2, elsewhere]

/-! ## Putting elements in order -/

theorem takeElement_perm {taken : Value × List Value} (found : takeElement mergeKey named remaining = some taken) :
    (taken.1 :: taken.2).Perm remaining := by
  induction remaining generalizing taken with
  | nil => cases found
  | cons head rest ih =>
    rw [takeElement] at found
    split_ifs at found with here
    · cases found
      exact List.Perm.refl _
    · rcases Option.map_eq_some_iff.mp found with ⟨later, there, same⟩
      subst same
      exact (List.Perm.swap _ _ _).trans ((ih there).cons _)

theorem orderElements_perm : (orderElements mergeKey order remaining).Perm remaining := by
  induction order generalizing remaining with
  | nil => exact List.Perm.refl _
  | cons requested order ih =>
    rw [orderElements]
    cases found : (requested.field mergeKey).bind fun named => takeElement mergeKey named remaining with
    | none => exact ih
    | some taken =>
      rcases Option.bind_eq_some_iff.mp found with ⟨named, _, there⟩
      exact (ih.cons _).trans (takeElement_perm there)

theorem reorderList_perm : (reorderList mergeKey elements v).Perm elements := by
  cases v with
  | array order => exact orderElements_perm
  | null | bool b | number n | string s | object fields => exact List.Perm.refl _

/-- Equal up to the order of the elements, if they are lists. -/
inductive Reordered : Value -> Value -> Prop where
  | same (whole : Value) : Reordered whole whole
  | list {existing others : List Value} (permuted : others.Perm existing) : Reordered (.array existing) (.array others)

theorem Reordered.trans {u : Value} (first : Reordered u v) (second : Reordered v w) : Reordered u w := by
  cases first with
  | same => exact second
  | list permuted =>
    cases second with
    | same => exact .list permuted
    | list later => exact .list (later.trans permuted)

theorem get_setOrder (table : PatchTable) (schema : String) (found : result.get name = some v) (field : String) (given : Value) :
    Exists fun w => (setOrder table schema result field given).get name = some w ∧ Reordered v w := by
  rw [setOrder]
  split
  · rename_i existing key there _
    rw [Fields.get_insert]
    by_cases same : field = name
    · subst same
      rw [there] at found
      cases found
      exact ⟨_, if_pos rfl, .list reorderList_perm⟩
    · exact ⟨v, (if_neg same).trans found, .same v⟩
  · exact ⟨v, found, .same v⟩

theorem get_setOrder_of_none (missing : result.get name = none) (field : String) (given : Value) :
    (setOrder table schema result field given).get name = none := by
  rw [setOrder]
  split
  · rename_i existing key there _
    rw [Fields.get_insert, if_neg, missing]
    intro same
    subst same
    rw [there] at missing
    cases missing
  · exact missing

/-- Ordering the lists of an object touches nothing but the order of their elements. -/
theorem get_applyElementOrders (table : PatchTable) (schema : String) (patch : Fields)
    (found : result.get name = some v) :
    Exists fun w => (applyElementOrders table schema result patch).get name = some w ∧ Reordered v w := by
  rw [applyElementOrders]
  induction patch generalizing result v with
  | nil => exact ⟨v, found, .same v⟩
  | cons head rest ih =>
    rw [List.foldl_cons]
    cases strippedOf setElementOrder head.1 with
    | none => exact ih found
    | some field =>
      rcases get_setOrder table schema found field head.2 with ⟨w, there, reordered⟩
      rcases ih there with ⟨u, last, later⟩
      exact ⟨u, last, reordered.trans later⟩

theorem stripped_foldl {motive : Fields -> Prop} {marker : String} {act : Fields -> String -> Value -> Fields}
    (start : motive result) (keeps : forall result, motive result -> forall field v, motive (act result field v)) :
    motive (patch.foldl (fun result field => match strippedOf marker field.1 with
      | some listed => act result listed field.2
      | none => result) result) := by
  refine List.foldlRecOn patch _ start fun result held field _ => ?_
  cases strippedOf marker field.1 with
  | none => exact held
  | some listed => exact keeps result held listed field.2

theorem get_applyElementOrders_of_none (missing : result.get name = none) :
    (applyElementOrders table schema result patch).get name = none :=
  @stripped_foldl _ _ (fun result => result.get name = none) _ _ missing fun _ => get_setOrder_of_none

end Strategic
end NotK8s.Patch

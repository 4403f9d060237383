import Mathlib.Data.List.Perm.Basic
import NotK8s.Patch.Canonical
import NotK8s.Patch.ElementKeys

namespace NotK8s.Patch
namespace Strategic

/-!
# List elements a patch does not name

A list that is merged by its key keeps every element no directive of the
patch takes away: the element is there as it was, or merged in turn with the
elements of the patch that carry its key.  The same holds of the lists
inside it, since each of these merges keeps what it does not name.  A list
that is not merged is replaced by that of the patch.
-/

/-- Whether a directive of the patch takes the value out of a list of primitives. -/
def struck (patch : Fields) (field : String) (v : Value) : Bool :=
  patch.any fun given =>
    strippedOf deleteFromPrimitiveList given.1 = some field && match given.2 with
      | .array values => values.contains v
      | .null | .bool _ | .number _ | .string _ | .object _ => false

def strike (patch : Fields) (field : String) : Value -> Value
  | .array elements => .array (elements.filter fun v => !struck patch field v)
  | .null => .null
  | .bool b => .bool b
  | .number n => .number n
  | .string s => .string s
  | .object fields => .object fields

/-- Whether an element of the patch deletes those with the key of `v`. -/
def deletes (mergeKey : String) (changes : List Value) (v : Value) : Bool :=
  changes.any fun change => match change with
    | .object element =>
      directive element = some "delete" && (Fields.get element mergeKey).isSome &&
        Fields.get element mergeKey = v.field mergeKey
    | .null | .bool _ | .number _ | .string _ | .array _ => false

/-- An element keeps its place if its key is no list or object and it is not deleted. -/
def unnamed (mergeKey : String) (changes : List Value) (v : Value) : Bool :=
  (v.field mergeKey).all Value.isScalar && !deletes mergeKey changes v

/-- How many elements have the key. -/
def keyCount (mergeKey : String) (key : Value) (elements : List Value) : Nat :=
  elements.countP fun v => decide (v.field mergeKey = some key)

/-- The patch does not look into what stands there: it deletes or replaces
it, or there is nothing of the same kind, or no identity, to merge by. -/
def TakesWhole (info : Option PatchMeta) (existing : Option Value) : Value -> Prop
  | .object patch =>
    objectBase existing = none ∨ directive patch = some "delete" ∨ directive patch = some "replace"
  | .array changes => mergeBase info existing changes = none
  | .null | .bool _ | .number _ | .string _ => True

variable (table : PatchTable)

mutual

/-- What the merge of a field leaves, at every depth that it looks into. -/
inductive Keeps : Option PatchMeta -> Option Value -> Value -> Option Value -> Prop where
  | whole {info : Option PatchMeta} {existing after : Option Value} {patch : Value}
      (taken : TakesWhole info existing patch) : Keeps info existing patch after
  /-- The fields of an object: those named are merged, the others stay but for
  what is struck from their lists, up to order. -/
  | object {info : Option PatchMeta} {existing : Option Value} {fields patch merged : Fields}
      (base : objectBase existing = some fields)
      (named : forall name v, Fields.get patch name = some v -> startsWithDollar name = false ->
        Keeps (table (elementSchemaOf info) name) ((Fields.get fields name).map (strike patch name)) v
          (Fields.get merged name))
      (beside : forall name, Fields.get patch name = none ∨ startsWithDollar name = true ->
        forall v, Fields.get fields name = some v ->
          Exists fun w => Fields.get merged name = some w ∧ Reordered (strike patch name v) w) :
      Keeps info existing (.object patch) (some (.object merged))
  /-- The elements of a list: each that is not named has its place in the
  result.  A list the patch replaces has no elements to keep. -/
  | list {info : Option PatchMeta} {existing : Option Value} {mergeKey : String}
      {original changes result added : List Value} {pairs : List (Value × Value)}
      (base : mergeBase info existing changes = some (mergeKey, original))
      (before : (pairs.map Prod.fst).Perm (original.filter (unnamed mergeKey changes)))
      (after : result.Perm (pairs.map Prod.snd ++ added))
      (kept : forall pair, pair ∈ pairs -> KeptElement (elementSchemaOf info) mergeKey changes pair.1 pair.2)
      (once : forall key, key.isScalar = true ->
        keyCount mergeKey key result ≤ max 1 (keyCount mergeKey key original)) :
      Keeps info existing (.array changes) (some (.array result))

/-- An element after it has been merged with elements of the patch that carry its key. -/
inductive KeptElement : String -> String -> List Value -> Value -> Value -> Prop where
  | same {schema mergeKey : String} {changes : List Value} (e : Value) : KeptElement schema mergeKey changes e e
  | merged {schema mergeKey : String} {changes : List Value} {e after named : Value} {fields element : Fields}
      (before : KeptElement schema mergeKey changes e (.object fields))
      (listed : Value.object element ∈ changes)
      (here : Fields.get fields mergeKey = some named)
      (there : Fields.get element mergeKey = some named)
      (keeps : Keeps (some { refSchema := some schema }) (some (.object fields)) (.object element) (some after)) :
      KeptElement schema mergeKey changes e after

end

variable {table} {info : Option PatchMeta} {existing : Option Value} {schema name mergeKey field : String}
  {v w named key : Value} {fields patch result element : Fields} {elements changes : List Value}

/-! ## What is struck from the lists of an object -/

theorem strike_nil : strike [] name v = v := by
  cases v with
  | array elements => exact congrArg Value.array (List.filter_eq_self.mpr fun _ _ => rfl)
  | null | bool b | number n | string s | object fields => rfl

theorem strike_cons (head : String × Value) :
    strike (head :: patch) name v = strike patch name (strike [head] name v) := by
  cases v with
  | array elements =>
    refine congrArg Value.array ?_
    rw [List.filter_filter]
    refine List.filter_congr fun v _ => ?_
    rw [struck, struck, struck, List.any_cons, List.any_cons, List.any_nil, Bool.or_false, Bool.not_or, Bool.and_comm]
  | null | bool b | number n | string s | object fields => rfl

theorem strike_other {head : String × Value} (other : strippedOf deleteFromPrimitiveList head.1 ≠ some name) :
    strike [head] name v = v := by
  cases v with
  | array elements =>
    refine congrArg Value.array (List.filter_eq_self.mpr fun v _ => ?_)
    rw [struck, List.any_cons, decide_eq_false other]
    rfl
  | null | bool b | number n | string s | object fields => rfl

theorem get_deletePrimitives_strike {head : String × Value} (directs : strippedOf deleteFromPrimitiveList head.1 = some field) :
    (deletePrimitives result field head.2).get name = (result.get name).map (strike [head] name) := by
  by_cases same : field = name
  · subst same
    unfold deletePrimitives
    split
    · rename_i values elements given there
      rw [Fields.get_insert, if_pos rfl, there, Option.map_some, strike]
      refine congrArg (fun kept => some (Value.array kept)) (List.filter_congr fun v _ => ?_)
      rw [struck, List.any_cons, List.any_nil, Bool.or_false, directs, given, decide_eq_true rfl, Bool.true_and]
    · rename_i other
      cases there : result.get field with
      | none => rfl
      | some v =>
        rw [Option.map_some]
        refine congrArg some ?_
        cases v with
        | array elements =>
          refine (congrArg Value.array (List.filter_eq_self.mpr fun v _ => ?_)).symm
          rw [struck, List.any_cons, List.any_nil, Bool.or_false]
          cases given : head.2 with
          | array values => exact absurd there (other values elements given)
          | null | bool b | number n | string s | object fields =>
            rw [Bool.and_false]
            rfl
        | null | bool b | number n | string s | object fields => rfl
  · have kept : (deletePrimitives result field head.2).get name = result.get name := by
      unfold deletePrimitives
      split
      · rw [Fields.get_insert, if_neg same]
      · rfl
    have untouched : strike [head] name = id := by
      funext v
      exact strike_other fun there => same (Option.some.inj (directs.symm.trans there))
    rw [kept, untouched, Option.map_id]
    rfl

theorem get_applyPrimitiveListDeletes_strike :
    (applyPrimitiveListDeletes result patch).get name = (result.get name).map (strike patch name) := by
  rw [applyPrimitiveListDeletes]
  induction patch generalizing result with
  | nil =>
    have nothing : strike [] name = id := funext fun v => strike_nil
    rw [nothing, Option.map_id]
    rfl
  | cons head rest ih =>
    have split_ : strike (head :: rest) name = strike rest name ∘ strike [head] name := funext fun v => strike_cons head
    rw [List.foldl_cons, ih, split_, ← Option.map_map]
    cases directs : strippedOf deleteFromPrimitiveList head.1 with
    | none =>
      have untouched : strike [head] name = id :=
        funext fun v => strike_other (by rw [directs]; rintro ⟨⟩)
      rw [untouched, Option.map_id]
      rfl
    | some field => rw [get_deletePrimitives_strike directs]

/-! ## Placing one element -/

/-- An element of the patch goes into the first one of its key, or to the end. -/
theorem mergeIntoFirst_cases (mergeKey : String) (named : Value) (into : Fields -> Value) (element : Fields)
    (elements : List Value) :
    (Exists fun before => Exists fun existing => Exists fun after =>
        elements = before ++ .object existing :: after ∧ Fields.get existing mergeKey = some named ∧
          mergeIntoFirst mergeKey named into element elements = before ++ into existing :: after) ∨
      (keyCount mergeKey named elements = 0 ∧
        mergeIntoFirst mergeKey named into element elements = elements ++ [.object element]) := by
  induction elements with
  | nil => exact Or.inr ⟨rfl, rfl⟩
  | cons head rest ih =>
    by_cases here : head.field mergeKey = some named
    · rcases object_of_field here with ⟨existing, rfl, keyed⟩
      exact Or.inl ⟨[], existing, rest, rfl, keyed, mergeIntoFirst_here keyed⟩
    · rw [mergeIntoFirst_there here]
      rcases ih with ⟨before, existing, after, same, keyed, merged⟩ | ⟨missing, appended⟩
      · exact Or.inl ⟨head :: before, existing, after, congrArg _ same, keyed, congrArg _ merged⟩
      · refine Or.inr ⟨?_, congrArg _ appended⟩
        rw [keyCount, List.countP_cons_of_neg (by rw [decide_eq_true_eq]; exact here)]
        exact missing

/-! ## What the loop over a list keeps -/

section Loop

variable {base : List Value} {e : Value}

theorem keyCount_append (others : List Value) :
    keyCount mergeKey key (elements ++ others) = keyCount mergeKey key elements + keyCount mergeKey key others :=
  List.countP_append

theorem keyCount_perm {others : List Value} (permuted : others.Perm elements) :
    keyCount mergeKey key others = keyCount mergeKey key elements :=
  permuted.countP_eq _

theorem keyCount_cons :
    keyCount mergeKey key (v :: elements) =
      keyCount mergeKey key elements + if v.field mergeKey = some key then 1 else 0 := by
  rw [keyCount, List.countP_cons]
  by_cases keyed : v.field mergeKey = some key
  · rw [if_pos keyed, if_pos (decide_eq_true keyed)]
    rfl
  · rw [if_neg keyed, if_neg (by rw [decide_eq_true_eq]; exact keyed)]
    rfl

/-- The key of an element stays, but a null may go. -/
def KeyKept (mergeKey : String) (e v : Value) : Prop :=
  v.field mergeKey = e.field mergeKey ∨ (e.field mergeKey = some .null ∧ v.field mergeKey = none)

theorem KeyKept.keyed (kept : KeyKept mergeKey e v) (here : v.field mergeKey = some key) :
    e.field mergeKey = some key := by
  rcases kept with same | ⟨_, gone⟩
  · exact same.symm.trans here
  · rw [gone] at here
    cases here

/-- The places of the elements that no element of the patch names, at some point of the loop. -/
structure Placed (table : PatchTable) (schema mergeKey : String) (changes base result : List Value)
    (pairs : List (Value × Value)) (added : List Value) : Prop where
  before : (pairs.map Prod.fst).Perm (base.filter (unnamed mergeKey changes))
  after : result.Perm (pairs.map Prod.snd ++ added)
  kept : forall pair, pair ∈ pairs ->
    KeptElement table schema mergeKey changes pair.1 pair.2 ∧ KeyKept mergeKey pair.1 pair.2
  once : forall key, key.isScalar = true -> keyCount mergeKey key result ≤ max 1 (keyCount mergeKey key base)

variable {pairs : List (Value × Value)} {added : List Value}

theorem Placed.start : Placed table schema mergeKey changes base base
    ((base.filter (unnamed mergeKey changes)).map fun e => (e, e))
    (base.filter fun e => !unnamed mergeKey changes e) where
  before := by
    rw [List.map_map]
    exact List.Perm.of_eq (List.map_id _)
  after := by
    rw [List.map_map]
    refine (List.filter_append_perm _ base).symm.trans (List.Perm.append_right _ (List.Perm.of_eq ?_))
    exact (List.map_id _).symm
  kept := by
    intro pair listed
    rcases List.mem_map.mp listed with ⟨e, _, rfl⟩
    exact ⟨.same e, Or.inl rfl⟩
  once := fun key _ => le_max_right _ _

section

variable (placed : Placed table schema mergeKey changes base elements pairs added)
include placed

theorem Placed.unnamed
    {pair : Value × Value} (listed : pair ∈ pairs) : Strategic.unnamed mergeKey changes pair.1 = true :=
  (List.mem_filter.mp (placed.before.mem_iff.mp (List.mem_map_of_mem listed))).2

theorem Placed.append
    (fresh : forall key, v.field mergeKey = some key -> keyCount mergeKey key elements = 0) :
    Placed table schema mergeKey changes base (elements ++ [v]) pairs (added ++ [v]) where
  before := placed.before
  after := by
    rw [← List.append_assoc]
    exact placed.after.append_right _
  kept := placed.kept
  once := by
    intro key scalar
    rw [keyCount_append, keyCount_cons]
    by_cases keyed : v.field mergeKey = some key
    · rw [if_pos keyed, fresh key keyed]
      exact le_max_left _ _
    · rw [if_neg keyed]
      exact placed.once key scalar

theorem Placed.delete
    (listed : Value.object element ∈ changes) (directs : directive element = some "delete")
    (given : Fields.get element mergeKey = some named) :
    Placed table schema mergeKey changes base (elements.filter fun v => decide (v.field mergeKey ≠ some named)) pairs
      (added.filter fun v => decide (v.field mergeKey ≠ some named)) where
  before := placed.before
  after := by
    have stays : (pairs.map Prod.snd).filter (fun v => decide (v.field mergeKey ≠ some named)) = pairs.map Prod.snd := by
      refine List.filter_eq_self.mpr fun v there => decide_eq_true fun keyed => ?_
      rcases List.mem_map.mp there with ⟨pair, paired, rfl⟩
      have spared := placed.unnamed paired
      rw [Strategic.unnamed, Bool.and_eq_true, Bool.not_eq_true', Bool.eq_false_iff] at spared
      refine spared.2 (List.any_eq_true.mpr ⟨_, listed, ?_⟩)
      simp [directs, given, (placed.kept pair paired).2.keyed keyed]
    have kept := placed.after.filter fun v => decide (v.field mergeKey ≠ some named)
    rw [List.filter_append, stays] at kept
    exact kept
  kept := placed.kept
  once := fun key scalar => ((List.filter_sublist).countP_le).trans (placed.once key scalar)

end

theorem Placed.merge {front back : List Value} (distinct : (Fields.names element).Nodup)
    (placed : Placed table schema mergeKey changes base (front ++ .object fields :: back) pairs added)
    (listed : Value.object element ∈ changes) (spares : directive element ≠ some "delete")
    (stays : directive element ≠ some "replace") (here : Fields.get fields mergeKey = some named) (given : Fields.get element mergeKey = some named)
    (keeps : Keeps table (some { refSchema := some schema }) (some (.object fields)) (.object element)
      (some (mergeObject table schema fields element))) :
    Exists fun pairs => Exists fun added =>
      Placed table schema mergeKey changes base (front ++ mergeObject table schema fields element :: back) pairs added := by
  have counted key (scalar : key.isScalar = true) :
      keyCount mergeKey key (front ++ mergeObject table schema fields element :: back) ≤
        max 1 (keyCount mergeKey key base) := by
    refine le_trans ?_ (placed.once key scalar)
    rw [keyCount_append, keyCount_append, keyCount_cons, keyCount_cons]
    by_cases keyed : (mergeObject table schema fields element).field mergeKey = some key
    · have same : key = named := by
        by_contra apart
        exact mergedKey_ne distinct scalar apart given stays here keyed
      rw [if_pos keyed, if_pos (same ▸ here)]
    · rw [if_neg keyed]
      omega
  have moved (w : Value) : (front ++ w :: back).Perm (w :: (front ++ back)) := List.perm_middle
  have whole := (moved _).symm.trans placed.after
  by_cases there : Value.object fields ∈ pairs.map Prod.snd
  · -- The element has its place; the merge is one more step of it.
    rcases List.mem_map.mp there with ⟨⟨e, stored⟩, paired, rfl⟩
    rcases List.append_of_mem paired with ⟨first, last, rfl⟩
    rw [List.map_append, List.map_cons] at whole
    have rest : (front ++ back).Perm (first.map Prod.snd ++ last.map Prod.snd ++ added) := by
      refine List.Perm.cons_inv (whole.trans ?_)
      rw [List.append_assoc, List.cons_append, List.append_assoc]
      exact List.perm_middle
    have element_ := placed.kept _ paired
    have scalarKey : named.isScalar = true := by
      have spared := placed.unnamed paired
      rw [Strategic.unnamed, Bool.and_eq_true, element_.2.keyed here, Option.all_some] at spared
      exact spared.1
    refine ⟨first ++ (e, mergeObject table schema fields element) :: last, added, ?_, ?_, ?_, counted⟩
    · have before := placed.before
      rw [List.map_append, List.map_cons] at before ⊢
      exact before
    · refine (moved _).trans ?_
      rw [List.map_append, List.map_cons, List.append_assoc, List.cons_append]
      refine (List.Perm.cons _ ?_).trans List.perm_middle.symm
      rw [← List.append_assoc]
      exact rest
    · intro pair member
      rcases List.mem_append.mp member with early | late
      · exact placed.kept pair (List.mem_append_left _ early)
      · rcases List.mem_cons.mp late with rfl | late
        · refine ⟨.merged element_.1 listed here given keeps, ?_⟩
          have merged : mergeObject table schema fields element = _ := mergeObject_of_plain spares stays
          rcases mergedKey_scalar distinct scalarKey here given merged stays with same | ⟨null, gone⟩
          · left
            rw [merged]
            exact same.trans (element_.2.keyed here).symm
          · right
            rw [merged]
            exact ⟨(element_.2.keyed here).trans (congrArg some null), gone⟩
        · exact placed.kept pair (List.mem_append_right _ (.tail _ late))
  · -- The element was added by the patch or is named by it.
    have member : Value.object fields ∈ added := by
      have either := whole.mem_iff.mp (.head _)
      exact (List.mem_append.mp either).resolve_left there
    rcases List.append_of_mem member with ⟨first, last, rfl⟩
    refine ⟨pairs, first ++ mergeObject table schema fields element :: last, placed.before, ?_, placed.kept, counted⟩
    have rest : (front ++ back).Perm (pairs.map Prod.snd ++ (first ++ last)) := by
      refine List.Perm.cons_inv (whole.trans ?_)
      rw [← List.append_assoc, ← List.append_assoc]
      exact List.perm_middle
    refine (moved _).trans ((List.Perm.cons _ rest).trans ?_)
    rw [← List.append_assoc, ← List.append_assoc]
    exact List.perm_middle.symm

theorem Placed.apply (distinct : (Fields.names element).Nodup)
    (placed : Placed table schema mergeKey changes base elements pairs added)
    (listed : Value.object element ∈ changes)
    (keeps : forall fields, Keeps table (some { refSchema := some schema }) (some (.object fields)) (.object element)
      (some (mergeObject table schema fields element))) :
    Exists fun pairs => Exists fun added =>
      Placed table schema mergeKey changes base
        (applyElement mergeKey (fun existing => mergeObject table schema existing element) element elements)
        pairs added := by
  by_cases stays : directive element = some "replace"
  · rw [applyElement_replace stays]
    exact ⟨_, _, placed⟩
  · by_cases spares : directive element = some "delete"
    · rw [applyElement_delete spares]
      cases given : element.get mergeKey with
      | none => exact ⟨_, _, placed⟩
      | some named => exact ⟨_, _, placed.delete listed spares given⟩
    · rw [applyElement_plain spares stays]
      cases given : element.get mergeKey with
      | none =>
        refine ⟨_, _, placed.append fun key keyed => ?_⟩
        rw [Value.field, given] at keyed
        cases keyed
      | some named =>
        rcases mergeIntoFirst_cases mergeKey named (fun existing => mergeObject table schema existing element) element
            elements with
          ⟨front, existing, back, rfl, here, merged⟩ | ⟨missing, appended⟩
        · dsimp only
          rw [merged]
          exact placed.merge distinct listed spares stays here given (keeps existing)
        · dsimp only
          rw [appended]
          refine ⟨_, _, placed.append fun key keyed => ?_⟩
          rw [Value.field, given] at keyed
          cases keyed
          exact missing

theorem Placed.run {remaining : List Value} (placed : Placed table schema mergeKey changes base elements pairs added)
    (listed : forall change, change ∈ remaining -> change ∈ changes)
    (below : forall element, Value.object element ∈ remaining -> (Fields.names element).Nodup ∧
      forall fields, Keeps table (some { refSchema := some schema }) (some (.object fields)) (.object element)
        (some (mergeObject table schema fields element))) :
    Exists fun pairs => Exists fun added =>
      Placed table schema mergeKey changes base (mergeElements table schema mergeKey elements remaining) pairs added := by
  induction remaining generalizing elements pairs added with
  | nil =>
    rw [mergeElements]
    exact ⟨_, _, placed⟩
  | cons change rest ih =>
    have listedRest c (member : c ∈ rest) : c ∈ changes := listed c (.tail _ member)
    have belowRest e (member : Value.object e ∈ rest) := below e (.tail _ member)
    cases change with
    | object element =>
      have here := below element (.head _)
      rw [mergeElements_object]
      rcases placed.apply here.1 (listed _ (.head _)) here.2 with ⟨later, more, stepped⟩
      exact ih stepped listedRest belowRest
    | null | bool b | number n | string s | array inner =>
      rw [mergeElements_other rfl]
      exact ih (placed.append fun key keyed => by cases keyed) listedRest belowRest

end Loop

/-! ## Every merge -/

theorem Keeps.reordered (keeps : Keeps table info existing v (some w)) {u : Value} (reordered : Reordered w u) :
    Keeps table info existing v (some u) := by
  cases keeps with
  | whole taken => exact .whole taken
  | object base named beside =>
    cases reordered with
    | same => exact .object base named beside
  | list base before after kept once =>
    cases reordered with
    | same => exact .list base before after kept once
    | list permuted =>
      refine .list base before (permuted.trans after) kept fun key scalar => ?_
      rw [keyCount_perm permuted]
      exact once key scalar

theorem takesWhole_of_null (gone : mergeField table info existing v = .null) : TakesWhole info existing v := by
  cases v with
  | null | bool b | number n | string s => exact True.intro
  | array changes =>
    rw [mergeField] at gone
    split at gone <;> cases gone
  | object patch =>
    cases base : objectBase existing with
    | none => exact Or.inl base
    | some fields =>
      by_cases spares : directive patch = some "delete"
      · exact Or.inr (Or.inl spares)
      · by_cases stays : directive patch = some "replace"
        · exact Or.inr (Or.inr stays)
        · rw [mergeField_object base, mergeObject_of_plain spares stays] at gone
          cases gone

theorem keeps_mergeObject (base : objectBase existing = some fields) (distinct : (Fields.names patch).Nodup)
    (below : forall name v, (name, v) ∈ patch -> forall info existing,
      Keeps table info existing v (some (mergeField table info existing v))) :
    Keeps table info existing (.object patch) (some (mergeObject table (elementSchemaOf info) fields patch)) := by
  by_cases spares : directive patch = some "delete"
  · exact .whole (Or.inr (Or.inl spares))
  · by_cases stays : directive patch = some "replace"
    · exact .whole (Or.inr (Or.inr stays))
    · rw [mergeObject_of_plain spares stays]
      refine .object base (fun name v found dollar => ?_) fun name free v found => ?_
      · have after := get_mergeFields table (elementSchemaOf info) (applyPrimitiveListDeletes fields patch) name distinct
        rw [found] at after
        dsimp only at after
        rw [dollar, if_neg Bool.false_ne_true, get_applyPrimitiveListDeletes_strike] at after
        split_ifs at after with gone
        · rw [get_applyElementOrders_of_none after]
          exact .whole (takesWhole_of_null gone)
        · rcases get_applyElementOrders table (elementSchemaOf info) patch after with ⟨w, last, reordered⟩
          rw [last]
          exact (below name v (Fields.mem_of_get found) _ _).reordered reordered
      · have after := get_mergeFields table (elementSchemaOf info) (applyPrimitiveListDeletes fields patch) name distinct
        have unmerged : (mergeFields table (elementSchemaOf info) (applyPrimitiveListDeletes fields patch) patch).get name =
            some (strike patch name v) := by
          rw [after]
          rcases free with absent | dollar
          · rw [absent]
            rw [get_applyPrimitiveListDeletes_strike, found]
            rfl
          · cases patch.get name with
            | none =>
              rw [get_applyPrimitiveListDeletes_strike, found]
              rfl
            | some given =>
              dsimp only
              rw [if_pos dollar, get_applyPrimitiveListDeletes_strike, found]
              rfl
        exact get_applyElementOrders table (elementSchemaOf info) patch unmerged

mutual

theorem keeps_mergeField :
    (patch : Value) -> patch.Canonical -> (info : Option PatchMeta) -> (existing : Option Value) ->
      Keeps table info existing patch (some (mergeField table info existing patch))
  | .array changes, canonical, info, existing => by
    cases found : mergeBase info existing changes with
    | none => exact .whole found
    | some base =>
      rw [mergeField_array found]
      rcases Placed.start.run (fun change listed => listed) (keeps_elements changes (fun e => canonical.elementsOf) _) with
        ⟨pairs, added, placed⟩
      exact .list found placed.before placed.after (fun pair listed => (placed.kept pair listed).1) placed.once
  | .object patch, canonical, info, existing => by
    cases base : objectBase existing with
    | none => exact .whole (Or.inl base)
    | some fields =>
      rw [mergeField_object base]
      exact keeps_mergeObject base canonical.nodup (keeps_fields patch fun name v => canonical.fieldsOf)
  | .null, _, _, _ | .bool _, _, _, _ | .number _, _, _, _ | .string _, _, _, _ => .whole True.intro

theorem keeps_elements :
    (changes : List Value) -> (forall e, e ∈ changes -> e.Canonical) -> (schema : String) ->
      forall element, Value.object element ∈ changes -> (Fields.names element).Nodup ∧
        forall fields, Keeps table (some { refSchema := some schema }) (some (.object fields)) (.object element)
          (some (mergeObject table schema fields element))
  | [], _, _, _, listed => nomatch listed
  | .object first :: changes, canonical, schema, element, listed => by
    have here := canonical _ (.head _)
    rcases List.mem_cons.mp listed with same | later
    · cases same
      exact ⟨here.nodup, fun fields => keeps_mergeObject rfl here.nodup (keeps_fields first fun name v => here.fieldsOf)⟩
    · exact keeps_elements changes (fun e listed => canonical e (.tail _ listed)) schema element later
  | .null :: changes, canonical, schema, element, listed
  | .bool _ :: changes, canonical, schema, element, listed
  | .number _ :: changes, canonical, schema, element, listed
  | .string _ :: changes, canonical, schema, element, listed
  | .array _ :: changes, canonical, schema, element, listed => by
    refine keeps_elements changes (fun e listed => canonical e (.tail _ listed)) schema element ?_
    exact (List.mem_cons.mp listed).resolve_left nofun

theorem keeps_fields :
    (patch : Fields) -> (forall name v, (name, v) ∈ patch -> v.Canonical) ->
      forall name v, (name, v) ∈ patch -> forall info existing,
        Keeps table info existing v (some (mergeField table info existing v))
  | [], _, _, _, listed => nomatch listed
  | (stored, first) :: patch, canonical, name, v, listed => by
    rcases List.mem_cons.mp listed with here | later
    · cases here
      exact keeps_mergeField first (canonical _ _ (.head _))
    · exact keeps_fields patch (fun name v listed => canonical name v (.tail _ listed)) name v later

end

end Strategic
end NotK8s.Patch

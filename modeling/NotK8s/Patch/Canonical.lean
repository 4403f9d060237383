import NotK8s.Patch.Walk

namespace NotK8s.Patch

open Library

/-!
# Documents

Every object of a document lists its fields in name order.
-/

inductive Value.Canonical : Value -> Prop where
  | null : Canonical .null
  | bool (b) : Canonical (.bool b)
  | number (n) : Canonical (.number n)
  | string (s) : Canonical (.string s)
  | array {elements} (below : forall e, e ∈ elements -> Canonical e) : Canonical (.array elements)
  | object {fields : Fields} (sorted : KeySorted Prod.fst fields)
      (below : forall name v, (name, v) ∈ fields -> Canonical v) : Canonical (.object fields)

mutual

def Value.isCanonical : Value -> Bool
  | .object fields => decide (KeySorted Prod.fst fields) && fieldsAreCanonical fields
  | .array elements => elementsAreCanonical elements
  | .null | .bool _ | .number _ | .string _ => true

def fieldsAreCanonical : Fields -> Bool
  | [] => true
  | (_, v) :: fields => Value.isCanonical v && fieldsAreCanonical fields

def elementsAreCanonical : List Value -> Bool
  | [] => true
  | v :: elements => Value.isCanonical v && elementsAreCanonical elements

end

mutual

theorem Value.Canonical.of_isCanonical : (v : Value) -> v.isCanonical = true -> v.Canonical
  | .object fields, checked => by
    rw [Value.isCanonical, Bool.and_eq_true] at checked
    exact .object (of_decide_eq_true checked.1) (canonical_of_fields fields checked.2)
  | .array elements, checked => by
    rw [Value.isCanonical] at checked
    exact .array (canonical_of_elements elements checked)
  | .null, _ => .null
  | .bool b, _ => .bool b
  | .number n, _ => .number n
  | .string s, _ => .string s

theorem canonical_of_elements :
    (elements : List Value) -> elementsAreCanonical elements = true -> forall e, e ∈ elements -> e.Canonical
  | [], _, _, listed => nomatch listed
  | first :: elements, checked, e, listed => by
    rw [elementsAreCanonical, Bool.and_eq_true] at checked
    rcases List.mem_cons.mp listed with here | later
    · rw [here]
      exact Value.Canonical.of_isCanonical first checked.1
    · exact canonical_of_elements elements checked.2 e later

theorem canonical_of_fields :
    (fields : Fields) -> fieldsAreCanonical fields = true -> forall name v, (name, v) ∈ fields -> v.Canonical
  | [], _, _, _, listed => nomatch listed
  | (stored, first) :: fields, checked, name, v, listed => by
    rw [fieldsAreCanonical, Bool.and_eq_true] at checked
    rcases List.mem_cons.mp listed with here | later
    · cases here
      exact Value.Canonical.of_isCanonical first checked.1
    · exact canonical_of_fields fields checked.2 name v later

end

structure Document where
  value : Value
  canonical : value.Canonical

variable {name : String} {v : Value} {fields later : Fields} {elements : List Value}

theorem names_nodup (sorted : KeySorted Prod.fst fields) : (Fields.names fields).Nodup := by
  apply List.pairwise_map.mpr
  apply List.Pairwise.imp _ sorted
  intro first second less
  exact ne_of_lt less

theorem Value.Canonical.nodup (canonical : (Value.object fields).Canonical) : (Fields.names fields).Nodup := by
  cases canonical with
  | object sorted _ => exact names_nodup sorted

section Overlay

theorem mem_insert {field : String × Value} (listed : field ∈ Fields.insert fields name v) :
    field = (name, v) ∨ field ∈ fields := by
  induction fields with
  | nil => exact Or.inl (List.mem_singleton.mp listed)
  | cons head rest ih =>
    rw [Fields.insert] at listed
    split_ifs at listed with same before
    · rcases List.mem_cons.mp listed with here | later
      · exact Or.inl here
      · exact Or.inr (.tail _ later)
    · exact List.mem_cons.mp listed
    · rcases List.mem_cons.mp listed with here | later
      · exact Or.inr (List.mem_cons.mpr (Or.inl here))
      · rcases ih later with here | later
        · exact Or.inl here
        · exact Or.inr (.tail _ later)

end Overlay

section Merge

theorem Value.Canonical.fieldsOf (canonical : (Value.object fields).Canonical) (listed : (name, v) ∈ fields) :
    v.Canonical := by
  cases canonical with
  | object _ below => exact below name v listed

theorem Value.Canonical.elementsOf (canonical : (Value.array elements).Canonical) {e : Value}
    (listed : e ∈ elements) : e.Canonical := by
  cases canonical with
  | array below => exact below e listed

end Merge

section CompareSelf

theorem compareLeaf_self : compareLeaf v v = [] := if_pos rfl

end CompareSelf

end NotK8s.Patch

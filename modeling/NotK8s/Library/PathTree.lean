import Mathlib.Data.List.Basic

namespace NotK8s.Library

/-!
# Trees of paths

A set of paths kept as a tree.  A node lists the elements that end a member
and, apart from them, the elements under which a further node hangs; a path
may do both.  The child of a node is a function on the elements the node
lists, so that no element has two children.

Membership of a path is the only observation the laws below use: each
operation is characterised by the members of its result.
-/

inductive PathTree (E : Type*) where
  | node (members keys : List E) (child : {e // e ∈ keys} -> PathTree E)

namespace PathTree

variable {E : Type*}

def members : PathTree E -> List E
  | node members _ _ => members

def keys : PathTree E -> List E
  | node _ keys _ => keys

def empty : PathTree E :=
  node [] [] fun e => (List.not_mem_nil e.2).elim

section Lookup

variable [DecidableEq E]

def get : PathTree E -> E -> Option (PathTree E)
  | node _ keys child, e => if listed : e ∈ keys then some (child ⟨e, listed⟩) else none

/-- The node under `e`; without one, no path goes on from there. -/
def sub (t : PathTree E) (e : E) : PathTree E :=
  (t.get e).getD empty

/-- A node whose children are those `child` gives, among the elements listed. -/
def ofChildren (members keys : List E) (child : E -> Option (PathTree E)) : PathTree E :=
  node members (keys.filter fun e => (child e).isSome) fun e => (child e.1).get (List.mem_filter.mp e.2).2

def setChild (t : PathTree E) (e : E) (s : PathTree E) : PathTree E :=
  ofChildren t.members (e :: t.keys) fun other => if other = e then some s else t.get other

def has (t : PathTree E) : List E -> Bool
  | [] => false
  | [e] => t.members.contains e
  | e :: f :: rest => match t.get e with
    | some s => s.has (f :: rest)
    | none => false

/-- Recursive: a node whose children are all empty is empty. -/
def isEmpty : PathTree E -> Bool
  | node members keys child => members.isEmpty && keys.attach.all fun e => (child e).isEmpty

def nonempty (t : PathTree E) : Option (PathTree E) :=
  if t.isEmpty then none else some t

def insert (t : PathTree E) : List E -> PathTree E
  | [] => t
  | [e] => ofChildren (if t.members.contains e then t.members else t.members ++ [e]) t.keys t.get
  | e :: f :: rest => t.setChild e ((t.sub e).insert (f :: rest))

/-- The paths in turn. -/
def ofPaths (paths : List (List E)) : PathTree E :=
  paths.foldl insert empty

def union : PathTree E -> PathTree E -> PathTree E
  | node members keys child, t =>
    ofChildren (members ++ t.members.filter fun e => !members.contains e) (keys ++ t.keys) fun e =>
      if listed : e ∈ keys then
        match t.get e with
        | some s => some ((child ⟨e, listed⟩).union s)
        | none => some (child ⟨e, listed⟩)
      else t.get e

/-- An empty child is not kept. -/
def intersection : PathTree E -> PathTree E -> PathTree E
  | node members keys child, t =>
    ofChildren (members.filter t.members.contains) keys fun e =>
      if listed : e ∈ keys then
        match t.get e with
        | some s => ((child ⟨e, listed⟩).intersection s).nonempty
        | none => none
      else none

/-- Path by path: a member of the other tree does not take away what lies below it. -/
def difference : PathTree E -> PathTree E -> PathTree E
  | node members keys child, t =>
    ofChildren (members.filter fun e => !t.members.contains e) keys fun e =>
      if listed : e ∈ keys then
        match t.get e with
        | some s => ((child ⟨e, listed⟩).difference s).nonempty
        | none => some (child ⟨e, listed⟩)
      else none

/-- A member of the other tree takes away everything below it as well. -/
def recursiveDifference : PathTree E -> PathTree E -> PathTree E
  | node members keys child, t =>
    ofChildren (members.filter fun e => !t.members.contains e) keys fun e =>
      if listed : e ∈ keys then
        if t.members.contains e then none
        else match t.get e with
          | some s => ((child ⟨e, listed⟩).recursiveDifference s).nonempty
          | none => some (child ⟨e, listed⟩)
      else none

end Lookup

variable [DecidableEq E] {t s : PathTree E} {e f : E} {p q : List E}
  {ends listed : List E} {child : E -> Option (PathTree E)}

omit [DecidableEq E] in
@[simp] theorem members_ofChildren : (ofChildren ends listed child).members = ends := rfl

theorem get_node {keys : List E} {child : {e // e ∈ keys} -> PathTree E} :
    (node ends keys child).get e = if stored : e ∈ keys then some (child ⟨e, stored⟩) else none := rfl

theorem get_ofChildren :
    (ofChildren ends listed child).get e = if e ∈ listed then child e else none := by
  rw [ofChildren, get_node]
  by_cases stored : e ∈ listed.filter fun e => (child e).isSome
  · rw [dif_pos stored, if_pos (List.mem_filter.mp stored).1, Option.some_get]
  · rw [dif_neg stored]
    split_ifs with there
    · symm
      apply Option.eq_none_iff_forall_ne_some.mpr
      intro s found
      exact stored (List.mem_filter.mpr ⟨there, by rw [found]; rfl⟩)
    · rfl

theorem get_eq_none (missing : e ∉ t.keys) : t.get e = none := by
  rcases t with ⟨_, _, _⟩
  exact dif_neg missing

theorem get_setChild : (t.setChild e s).get f = if f = e then some s else t.get f := by
  rw [setChild, get_ofChildren]
  by_cases same : f = e
  · simp [same]
  · by_cases stored : f ∈ t.keys
    · simp [same, stored]
    · simp [same, stored, get_eq_none stored]

@[simp] theorem has_nil : t.has [] = false := rfl

theorem has_single : t.has [e] = t.members.contains e := rfl

theorem has_cons_cons : t.has (e :: f :: p) = (t.sub e).has (f :: p) := by
  rw [has, sub]
  cases t.get e with
  | none => cases p <;> rfl
  | some _ => rfl

@[simp] theorem has_empty : (empty : PathTree E).has p = false := by
  rcases p with _ | ⟨e, _ | ⟨_, _⟩⟩ <;> rfl

section Insert

theorem has_insert (t : PathTree E) (p q : List E) :
    (t.insert p).has q = true <-> t.has q = true ∨ q = p ∧ p ≠ [] := by
  induction p generalizing t q with
  | nil => simp [insert]
  | cons e rest ih =>
    cases rest with
    | nil =>
      rcases q with _ | ⟨f, _ | ⟨g, q⟩⟩
      · simp
      · rw [insert, has_single, has_single, members_ofChildren]
        split_ifs with stored
        · simp only [List.cons.injEq, and_true, ne_eq, reduceCtorEq, not_false_eq_true]
          constructor
          · exact Or.inl
          · rintro (found | rfl)
            · exact found
            · exact stored
        · simp
      · have same : (t.insert [e]).get f = t.get f := by
          rw [insert, get_ofChildren]
          split_ifs with stored
          · rfl
          · exact (get_eq_none stored).symm
        rw [has_cons_cons, has_cons_cons, sub, sub, same]
        simp
    | cons e' rest =>
      rcases q with _ | ⟨f, _ | ⟨g, q⟩⟩
      · simp
      · rw [insert, has_single, has_single, setChild, members_ofChildren]
        simp
      · rw [insert, has_cons_cons, has_cons_cons, sub, get_setChild]
        by_cases same : f = e
        · subst same
          rw [if_pos rfl, Option.getD_some, ih]
          simp
        · rw [if_neg same, ← sub]
          simp [same]

theorem has_ofPaths {paths : List (List E)} :
    (ofPaths paths).has p = true <-> p ∈ paths ∧ p ≠ [] := by
  suffices from_any : forall t : PathTree E,
      (paths.foldl insert t).has p = true <-> t.has p = true ∨ p ∈ paths ∧ p ≠ [] by
    rw [ofPaths, from_any, has_empty]
    simp
  induction paths with
  | nil => simp
  | cons q paths ih =>
    intro t
    rw [List.foldl_cons, ih, has_insert, List.mem_cons]
    constructor
    · rintro ((found | ⟨rfl, there⟩) | ⟨later, there⟩)
      · exact Or.inl found
      · exact Or.inr ⟨Or.inl rfl, there⟩
      · exact Or.inr ⟨Or.inr later, there⟩
    · rintro (found | ⟨rfl | later, there⟩)
      · exact Or.inl (Or.inl found)
      · exact Or.inl (Or.inr ⟨rfl, there⟩)
      · exact Or.inr ⟨later, there⟩

end Insert

section Operations

theorem get_union (t s : PathTree E) (e : E) :
    (t.union s).get e = match t.get e, s.get e with
      | some a, some b => some (a.union b)
      | some a, none => some a
      | none, found => found := by
  rcases t with ⟨members, keys, child⟩
  rw [union, get_ofChildren, get_node]
  by_cases stored : e ∈ keys
  · rw [if_pos (List.mem_append_left _ stored), dif_pos stored, dif_pos stored]
    cases s.get e <;> rfl
  · rw [dif_neg stored, dif_neg stored]
    split_ifs with there
    · rfl
    · exact (get_eq_none fun later => there (List.mem_append_right _ later)).symm

theorem has_union (t s : PathTree E) (p : List E) :
    (t.union s).has p = true <-> t.has p = true ∨ s.has p = true := by
  induction p generalizing t s with
  | nil => simp
  | cons e rest ih =>
    cases rest with
    | nil =>
      rcases t with ⟨members, keys, child⟩
      rw [has_single, has_single, has_single, union, members_ofChildren]
      simp only [List.contains_iff_mem, List.mem_append, List.mem_filter, PathTree.members]
      by_cases stored : e ∈ members <;> simp [stored]
    | cons f rest =>
      rw [has_cons_cons, has_cons_cons, has_cons_cons, sub, get_union, sub, sub]
      cases t.get e with
      | none => simp
      | some a =>
        cases s.get e with
        | none => simp
        | some b => exact ih a b

theorem isEmpty_iff : t.isEmpty = true <-> forall p, t.has p = false := by
  induction t with
  | node members keys child ih =>
    rw [isEmpty, Bool.and_eq_true, List.isEmpty_iff, List.all_eq_true]
    constructor
    · rintro ⟨noMembers, noChildren⟩ p
      rcases p with _ | ⟨e, _ | ⟨f, p⟩⟩
      · rfl
      · rw [has_single]
        simp [PathTree.members, noMembers]
      · rw [has_cons_cons, sub, get_node]
        split_ifs with stored
        · exact (ih ⟨e, stored⟩).mp (noChildren ⟨e, stored⟩ (List.mem_attach _ _)) _
        · exact has_empty
    · intro nothing
      constructor
      · apply List.eq_nil_iff_forall_not_mem.mpr
        intro e listed
        have missed := nothing [e]
        rw [has_single] at missed
        simp [PathTree.members, listed] at missed
      · rintro ⟨e, stored⟩ _
        apply (ih ⟨e, stored⟩).mpr
        rintro (_ | ⟨f, p⟩)
        · rfl
        · have missed := nothing (e :: f :: p)
          rwa [has_cons_cons, sub, get_node, dif_pos stored] at missed

theorem has_getD_nonempty : ((t.nonempty).getD empty).has p = t.has p := by
  unfold nonempty
  split_ifs with nothing
  · rw [isEmpty_iff.mp nothing, Option.getD_none, has_empty]
  · rfl

theorem has_intersection (t s : PathTree E) (p : List E) :
    (t.intersection s).has p = true <-> t.has p = true ∧ s.has p = true := by
  induction p generalizing t s with
  | nil => simp
  | cons e rest ih =>
    rcases t with ⟨members, keys, child⟩
    cases rest with
    | nil =>
      rw [has_single, has_single, has_single, intersection, members_ofChildren]
      simp [PathTree.members]
    | cons f rest =>
      rw [has_cons_cons, has_cons_cons, has_cons_cons, intersection, sub, get_ofChildren, sub, get_node, sub]
      by_cases stored : e ∈ keys
      · rw [if_pos stored, dif_pos stored, dif_pos stored]
        cases s.get e with
        | none => simp
        | some b =>
          simp only [has_getD_nonempty, Option.getD_some]
          exact ih _ b
      · simp [stored]

theorem has_difference (t s : PathTree E) (p : List E) :
    (t.difference s).has p = true <-> t.has p = true ∧ s.has p = false := by
  induction p generalizing t s with
  | nil => simp
  | cons e rest ih =>
    rcases t with ⟨members, keys, child⟩
    cases rest with
    | nil =>
      rw [has_single, has_single, has_single, difference, members_ofChildren]
      simp [PathTree.members]
    | cons f rest =>
      rw [has_cons_cons, has_cons_cons, has_cons_cons, difference, sub, get_ofChildren, sub, get_node, sub]
      by_cases stored : e ∈ keys
      · rw [if_pos stored, dif_pos stored, dif_pos stored]
        cases s.get e with
        | none => simp
        | some b =>
          simp only [has_getD_nonempty, Option.getD_some]
          exact ih _ b
      · simp [stored]

end Operations

end PathTree
end NotK8s.Library

import Mathlib.Data.List.Basic
import NotK8s.Library.SortedMap

namespace NotK8s.Library

/-!
# Trees of paths in canonical form

A set of paths as a tree of sorted lists.  A node has the elements that end
a path and, under further elements, non-empty nodes; both lists are kept in
the order of the elements.

Two relations on elements are in play, as where an order and an equality
have been written apart: the order tells elements apart under which nodes
hang, while the elements that end a path are looked up by `==`, which may be
coarser.  Membership obeys the laws of sets in either case.  That a set has
one tree only, and a tree one set, is the case exactly if the two agree.
-/

inductive SortedTree (E : Type*) where
  | node (members : List E) (children : List (E × SortedTree E))

namespace SortedTree

variable {E : Type*}

def members : SortedTree E -> List E
  | node members _ => members

def children : SortedTree E -> List (E × SortedTree E)
  | node _ children => children

def empty : SortedTree E := node [] []

/-- A property of trees that holds of a node if it holds of its children. -/
theorem byChildren {motive : SortedTree E -> Prop}
    (node : forall members children, (forall e t, (e, t) ∈ children -> motive t) -> motive (node members children)) :
    (t : SortedTree E) -> motive t
  | .node members children => node members children fun _ t _ => byChildren node t
termination_by t => sizeOf t
decreasing_by
  rename_i listed
  have inList := List.sizeOf_lt_of_mem listed
  simp only [Prod.mk.sizeOf_spec] at inList
  simp only [SortedTree.node.sizeOf_spec]
  omega

mutual

def isEmpty : SortedTree E -> Bool
  | node members children => members.isEmpty && areEmpty children

def areEmpty : List (E × SortedTree E) -> Bool
  | [] => true
  | (_, t) :: children => isEmpty t && areEmpty children

end

section Order

variable [LinearOrder E] {α : Type*}

/-- What an ordered map holds under a key. -/
def under (entries : List (E × α)) (e : E) : Option α :=
  (entries.find? fun entry => entry.1 = e).map Prod.snd

/-- An ordered map with one entry put in or replaced. -/
def put (entries : List (E × α)) (e : E) (value : α) : List (E × α) :=
  (entries.filter fun entry => entry.1 ≠ e).orderedInsert (fun first second => first.1 ≤ second.1) (e, value)

def sort (elements : List E) : List E :=
  elements.insertionSort (· ≤ ·)

variable [BEq E]

def has : SortedTree E -> List E -> Bool
  | _, [] => false
  | t, [e] => t.members.contains e
  | t, e :: f :: path => match under t.children e with
    | some s => has s (f :: path)
    | none => false

def insert : SortedTree E -> List E -> SortedTree E
  | t, [] => t
  | node members children, [e] => node (if members.contains e then members else sort (members ++ [e])) children
  | node members children, e :: f :: path =>
    node members (put children e (insert ((under children e).getD empty) (f :: path)))

mutual

/-- The other tree is walked, and what it holds is put into this one. -/
def union (t : SortedTree E) : SortedTree E -> SortedTree E
  | node members children =>
    node (sort (members.foldl (fun kept m => if kept.contains m then kept else kept ++ [m]) t.members))
      (unionChildren t.children children)

def unionChildren (entries : List (E × SortedTree E)) : List (E × SortedTree E) -> List (E × SortedTree E)
  | [] => entries
  | (e, s) :: children =>
    unionChildren (put entries e (match under entries e with
      | some t => union t s
      | none => s)) children

end

mutual

def intersection : SortedTree E -> SortedTree E -> SortedTree E
  | node members children, other =>
    node (members.filter other.members.contains) (intersectionChildren children other)

def intersectionChildren : List (E × SortedTree E) -> SortedTree E -> List (E × SortedTree E)
  | [], _ => []
  | (e, t) :: children, other =>
    match under other.children e with
    | some s =>
      let result := intersection t s
      if isEmpty result then intersectionChildren children other
      else (e, result) :: intersectionChildren children other
    | none => intersectionChildren children other

end

mutual

/-- What hangs under an element of the other tree is taken away path by path. -/
def difference : SortedTree E -> SortedTree E -> SortedTree E
  | node members children, other =>
    node (members.filter fun m => !other.members.contains m) (differenceChildren children other)

def differenceChildren : List (E × SortedTree E) -> SortedTree E -> List (E × SortedTree E)
  | [], _ => []
  | (e, t) :: children, other =>
    match under other.children e with
    | some s =>
      let result := difference t s
      if isEmpty result then differenceChildren children other
      else (e, result) :: differenceChildren children other
    | none => (e, t) :: differenceChildren children other

end

mutual

/-- A member of the other tree takes away all that hangs under it. -/
def recursiveDifference : SortedTree E -> SortedTree E -> SortedTree E
  | node members children, other =>
    node (members.filter fun m => !other.members.contains m) (recursiveDifferenceChildren children other)

def recursiveDifferenceChildren : List (E × SortedTree E) -> SortedTree E -> List (E × SortedTree E)
  | [], _ => []
  | (e, t) :: children, other =>
    if other.members.contains e then recursiveDifferenceChildren children other
    else match under other.children e with
      | some s =>
        let result := recursiveDifference t s
        if isEmpty result then recursiveDifferenceChildren children other
        else (e, result) :: recursiveDifferenceChildren children other
      | none => (e, t) :: recursiveDifferenceChildren children other

end

mutual

/-- Equality as it is derived: member by member and child by child with `==`. -/
def beq : SortedTree E -> SortedTree E -> Bool
  | node members children, node others further => members == others && beqChildren children further

def beqChildren : List (E × SortedTree E) -> List (E × SortedTree E) -> Bool
  | [], [] => true
  | (e, t) :: children, (f, s) :: others => e == f && beq t s && beqChildren children others
  | [], _ :: _ | _ :: _, [] => false

end

/-- Sorted and distinct at every depth, without an empty child. -/
inductive Canonical : SortedTree E -> Prop where
  | node {members : List E} {children : List (E × SortedTree E)}
      (ordered : members.Pairwise (· < ·)) (distinct : members.Pairwise fun e f => (e == f) = false)
      (sorted : KeySorted Prod.fst children)
      (below : forall e t, (e, t) ∈ children -> Canonical t)
      (nonempty : forall e t, (e, t) ∈ children -> t.isEmpty = false) :
      Canonical (node members children)

variable {t s : SortedTree E} {e f : E} {p q elements : List E} {entries others : List (E × α)} {value : α}
  {kids : List (E × SortedTree E)}

/-! ## Ordered maps as lists -/

section Entries

omit [BEq E]

theorem mem_iff_under (sorted : KeySorted Prod.fst entries) : (e, value) ∈ entries <-> under entries e = some value :=
  SortedMap.mem_entries (m := ⟨entries, sorted⟩)

theorem under_cons : under ((f, value) :: entries) e = if f = e then some value else under entries e := by
  by_cases same : f = e
  · rw [if_pos same, under, List.find?_cons, decide_eq_true same]
    rfl
  · rw [if_neg same, under, List.find?_cons, decide_eq_false same]
    rfl

theorem under_put (sorted : KeySorted Prod.fst entries) :
    under (put entries e value) f = if f = e then some value else under entries f :=
  SortedMap.get_insert (m := ⟨entries, sorted⟩)

theorem put_sorted (sorted : KeySorted Prod.fst entries) : KeySorted Prod.fst (put entries e value) :=
  (SortedMap.insert ⟨entries, sorted⟩ e value).sorted

theorem eq_of_under (sorted : KeySorted Prod.fst entries) (otherSorted : KeySorted Prod.fst others)
    (same : forall e, under entries e = under others e) : entries = others :=
  congrArg SortedMap.entries (@SortedMap.ext_get E α _ ⟨entries, sorted⟩ ⟨others, otherSorted⟩ same)

/-- Entries changed or dropped one by one. -/
def sift (keep : E -> α -> Option α) (entries : List (E × α)) : List (E × α) :=
  entries.filterMap fun entry => (keep entry.1 entry.2).map fun value => (entry.1, value)

omit [LinearOrder E] in
theorem sift_nil {keep : E -> α -> Option α} : sift keep [] = [] := rfl

omit [LinearOrder E] in
theorem sift_cons {keep : E -> α -> Option α} :
    sift keep ((e, value) :: entries) = match keep e value with
      | some kept => (e, kept) :: sift keep entries
      | none => sift keep entries := by
  rw [sift, List.filterMap_cons]
  cases keep e value <;> rfl

theorem sift_sorted (sorted : KeySorted Prod.fst entries) (keep : E -> α -> Option α) :
    KeySorted Prod.fst (sift keep entries) := by
  refine List.Pairwise.filterMap _ (fun first second less => ?_) sorted
  intro a kept b keptLater
  rcases Option.map_eq_some_iff.mp kept with ⟨_, _, rfl⟩
  rcases Option.map_eq_some_iff.mp keptLater with ⟨_, _, rfl⟩
  exact less

theorem under_sift (sorted : KeySorted Prod.fst entries) (keep : E -> α -> Option α) :
    under (sift keep entries) e = (under entries e).bind (keep e) := by
  apply Option.ext
  intro value
  rw [← mem_iff_under (sift_sorted sorted keep), sift, List.mem_filterMap, Option.bind_eq_some_iff]
  constructor
  · rintro ⟨⟨key, stored⟩, listed, kept⟩
    rcases Option.map_eq_some_iff.mp kept with ⟨held, there, same⟩
    cases same
    exact ⟨stored, (mem_iff_under sorted).mp listed, there⟩
  · rintro ⟨stored, found, there⟩
    exact ⟨(e, stored), (mem_iff_under sorted).mpr found, Option.map_eq_some_iff.mpr ⟨value, there, rfl⟩⟩

end Entries

/-! ## Lookups -/

theorem has_nil : t.has [] = false := by
  rw [has]

theorem has_single : t.has [e] = t.members.contains e := by
  rw [has]

theorem has_deep (further : p ≠ []) : t.has (e :: p) = (under t.children e).any fun s => s.has p := by
  cases p with
  | nil => exact absurd rfl further
  | cons f p =>
    rw [has]
    cases under t.children e <;> rfl

theorem has_empty : (empty : SortedTree E).has p = false := by
  rcases p with _ | ⟨e, _ | ⟨f, p⟩⟩
  · exact has_nil
  · exact has_single
  · exact has_deep (List.cons_ne_nil _ _)

omit [LinearOrder E] [BEq E] in
theorem areEmpty_iff : areEmpty kids = true <-> forall e t, (e, t) ∈ kids -> t.isEmpty = true := by
  induction kids with
  | nil => exact ⟨nofun, fun _ => rfl⟩
  | cons head rest ih =>
    rcases head with ⟨e, t⟩
    rw [areEmpty, Bool.and_eq_true, ih]
    constructor
    · rintro ⟨first, later⟩ f s listed
      rcases List.mem_cons.mp listed with here | there
      · cases here
        exact first
      · exact later f s there
    · intro every
      exact ⟨every e t (.head _), fun f s listed => every f s (.tail _ listed)⟩

omit [BEq E] in
theorem mem_of_under (found : under entries e = some value) : (e, value) ∈ entries := by
  rcases Option.map_eq_some_iff.mp found with ⟨entry, first, rfl⟩
  have here : entry.1 = e := by simpa using List.find?_some first
  rw [← here]
  exact List.mem_of_find?_eq_some first

theorem has_of_isEmpty (nothing : t.isEmpty = true) : t.has p = false := by
  induction p generalizing t with
  | nil => exact has_nil
  | cons e rest ih =>
    rcases t with ⟨ends, kids⟩
    rw [isEmpty, Bool.and_eq_true, List.isEmpty_iff] at nothing
    cases rest with
    | nil =>
      rw [has_single, members, nothing.1]
      rfl
    | cons f rest =>
      rw [has_deep (List.cons_ne_nil _ _), children, Option.any_eq_false]
      intro s found
      rw [ih (areEmpty_iff.mp nothing.2 e s (mem_of_under found))]

section Laws

variable [EquivBEq E]

omit [LinearOrder E] [EquivBEq E] in
theorem contains_filter (keep : E -> Bool) (respects : forall e f, (e == f) = true -> keep e = keep f) :
    (elements.filter keep).contains e = (elements.contains e && keep e) := by
  rw [Bool.eq_iff_iff, Bool.and_eq_true, List.contains_iff_exists_mem_beq, List.contains_iff_exists_mem_beq]
  constructor
  · rintro ⟨m, listed, same⟩
    have parts := List.mem_filter.mp listed
    exact ⟨⟨m, parts.1, same⟩, (respects e m same).trans parts.2⟩
  · rintro ⟨⟨m, listed, same⟩, kept⟩
    exact ⟨m, List.mem_filter.mpr ⟨listed, (respects e m same).symm.trans kept⟩, same⟩

/-- A result that is dropped when it is empty. -/
def nonempty (t : SortedTree E) : Option (SortedTree E) :=
  if t.isEmpty then none else some t

omit [EquivBEq E] in
theorem any_nonempty : (nonempty t).any (fun s => s.has p) = t.has p := by
  rw [nonempty]
  split_ifs with nothing
  · rw [has_of_isEmpty nothing]
    rfl
  · rfl

omit [EquivBEq E] in
theorem intersectionChildren_eq :
    intersectionChildren kids s = sift (fun e t => (under s.children e).bind fun s => nonempty (intersection t s)) kids := by
  induction kids with
  | nil => rw [intersectionChildren, sift_nil]
  | cons head rest ih =>
    rcases head with ⟨e, t⟩
    rw [intersectionChildren, sift_cons, ← ih]
    cases under s.children e with
    | none => rfl
    | some other =>
      rw [Option.bind_some, nonempty]
      dsimp only
      split_ifs <;> rfl

omit [EquivBEq E] in
theorem differenceChildren_eq :
    differenceChildren kids s = sift (fun e t => match under s.children e with
      | some s => nonempty (difference t s)
      | none => some t) kids := by
  induction kids with
  | nil => rw [differenceChildren, sift_nil]
  | cons head rest ih =>
    rcases head with ⟨e, t⟩
    rw [differenceChildren, sift_cons, ← ih]
    cases under s.children e with
    | none => rfl
    | some other =>
      dsimp only
      rw [nonempty]
      split_ifs <;> rfl

omit [EquivBEq E] in
theorem recursiveDifferenceChildren_eq :
    recursiveDifferenceChildren kids s = sift (fun e t => if s.members.contains e then none
      else match under s.children e with
        | some s => nonempty (recursiveDifference t s)
        | none => some t) kids := by
  induction kids with
  | nil => rw [recursiveDifferenceChildren, sift_nil]
  | cons head rest ih =>
    rcases head with ⟨e, t⟩
    rw [recursiveDifferenceChildren, sift_cons, ← ih]
    by_cases taken : s.members.contains e = true
    · rw [if_pos taken, if_pos taken]
    · rw [if_neg taken, if_neg taken]
      cases under s.children e with
      | none => rfl
      | some other =>
        dsimp only
        rw [nonempty]
        split_ifs <;> rfl

omit [EquivBEq E] in
theorem Canonical.sorted (canonical : t.Canonical) : KeySorted Prod.fst t.children := by
  cases canonical with
  | node _ _ sorted _ _ => exact sorted

omit [EquivBEq E] in
theorem Canonical.child (canonical : t.Canonical) (found : under t.children e = some s) : s.Canonical := by
  cases canonical with
  | node _ _ _ below _ => exact below e s (mem_of_under found)

omit [EquivBEq E] in
theorem Canonical.child_nonempty (canonical : t.Canonical) (found : under t.children e = some s) :
    s.isEmpty = false := by
  cases canonical with
  | node _ _ _ _ nonempty => exact nonempty e s (mem_of_under found)

omit [EquivBEq E] in
theorem unionChildren_sorted {held : List (E × SortedTree E)} (sorted : KeySorted Prod.fst held) :
    KeySorted Prod.fst (unionChildren held kids) := by
  induction kids generalizing held with
  | nil => rwa [unionChildren]
  | cons head rest ih =>
    rw [unionChildren]
    exact ih (put_sorted sorted)

omit [EquivBEq E] in
theorem under_unionChildren {held : List (E × SortedTree E)} (sorted : KeySorted Prod.fst held)
    (kidsSorted : KeySorted Prod.fst kids) :
    under (unionChildren held kids) e = match under kids e with
      | none => under held e
      | some s => some (match under held e with
          | some t => union t s
          | none => s) := by
  induction kids generalizing held with
  | nil =>
    rw [unionChildren]
    rfl
  | cons head rest ih =>
    rcases head with ⟨f, s⟩
    have parts := List.pairwise_cons.mp kidsSorted
    rw [unionChildren, ih (put_sorted sorted) parts.2, under_put sorted]
    by_cases same : f = e
    · subst same
      have absent : under rest f = none := by
        refine Option.eq_none_iff_forall_ne_some.mpr fun s found => ?_
        exact absurd (parts.1 _ (mem_of_under found)) (lt_irrefl f)
      rw [absent, under_cons, if_pos rfl, if_pos rfl]
    · rw [under_cons, if_neg same, if_neg (Ne.symm same)]

omit [LinearOrder E] in
theorem contains_union {others : List E} :
    (others.foldl (fun kept m => if kept.contains m then kept else kept ++ [m]) elements).contains e =
      (elements.contains e || others.contains e) := by
  induction others generalizing elements with
  | nil => rw [List.foldl_nil, List.contains_nil, Bool.or_false]
  | cons m rest ih =>
    rw [List.foldl_cons, ih, List.contains_cons]
    split_ifs with there
    · cases same : e == m with
      | false => rw [Bool.false_or]
      | true =>
        rw [List.contains_congr same, there]
        rfl
    · rw [List.contains_append, List.contains_cons, List.contains_nil, Bool.or_false, Bool.or_assoc]

omit [EquivBEq E] in
theorem contains_sort : (sort elements).contains e = elements.contains e := by
  rw [Bool.eq_iff_iff, List.contains_iff_exists_mem_beq, List.contains_iff_exists_mem_beq]
  exact exists_congr fun m => by rw [sort, (List.perm_insertionSort _ _).mem_iff]

theorem has_union (canonical : t.Canonical) (other : s.Canonical) :
    (t.union s).has p = (t.has p || s.has p) := by
  induction p generalizing t s with
  | nil => rw [has_nil, has_nil, has_nil, Bool.or_false]
  | cons e rest ih =>
    rcases s with ⟨others, further⟩
    have sorted : KeySorted Prod.fst further := other.sorted
    cases rest with
    | nil =>
      rw [has_single, has_single, has_single, union, members, contains_sort, contains_union]
      rfl
    | cons f rest =>
      rw [has_deep (List.cons_ne_nil _ _), has_deep (List.cons_ne_nil _ _), has_deep (List.cons_ne_nil _ _), union,
        children, under_unionChildren canonical.sorted sorted, children]
      cases there : under further e with
      | none => rw [Option.any_none, Bool.or_false]
      | some s =>
        cases here : under t.children e with
        | none => rw [Option.any_none, Bool.false_or]
        | some t => exact ih (canonical.child here) (other.child there)

theorem has_intersection (canonical : t.Canonical) : (t.intersection s).has p = (t.has p && s.has p) := by
  induction p generalizing t s with
  | nil => rw [has_nil, has_nil, has_nil, Bool.and_false]
  | cons e rest ih =>
    rcases t with ⟨ends, kids⟩
    have sorted : KeySorted Prod.fst kids := canonical.sorted
    cases rest with
    | nil =>
      rw [has_single, has_single, has_single, intersection, members]
      exact contains_filter _ fun e f same => List.contains_congr same
    | cons f rest =>
      rw [has_deep (List.cons_ne_nil _ _), has_deep (List.cons_ne_nil _ _), has_deep (List.cons_ne_nil _ _),
        intersection, children, intersectionChildren_eq, under_sift sorted, children]
      cases here : under kids e with
      | none => rw [Option.bind_none, Option.any_none, Bool.false_and]
      | some t =>
        cases there : under s.children e with
        | none => rw [Option.bind_some, Option.bind_none, Option.any_none, Bool.and_false]
        | some s =>
          rw [Option.bind_some, Option.bind_some, any_nonempty]
          exact ih (canonical.child here)

theorem has_difference (canonical : t.Canonical) : (t.difference s).has p = (t.has p && !s.has p) := by
  induction p generalizing t s with
  | nil => rw [has_nil, has_nil, has_nil, Bool.false_and]
  | cons e rest ih =>
    rcases t with ⟨ends, kids⟩
    have sorted : KeySorted Prod.fst kids := canonical.sorted
    cases rest with
    | nil =>
      rw [has_single, has_single, has_single, difference, members]
      exact contains_filter _ fun e f same => congrArg not (List.contains_congr same)
    | cons f rest =>
      rw [has_deep (List.cons_ne_nil _ _), has_deep (List.cons_ne_nil _ _), has_deep (List.cons_ne_nil _ _),
        difference, children, differenceChildren_eq, under_sift sorted, children]
      cases here : under kids e with
      | none => rw [Option.bind_none, Option.any_none, Bool.false_and]
      | some t =>
        rw [Option.bind_some]
        cases there : under s.children e with
        | none => rw [Option.any_none, Bool.not_false, Bool.and_true]
        | some s =>
          rw [any_nonempty]
          exact ih (canonical.child here)

theorem has_recursiveDifference (canonical : t.Canonical) :
    (t.recursiveDifference s).has p = true <->
      t.has p = true ∧ forall q, q <+: p -> s.has q = false := by
  induction p generalizing t s with
  | nil => simp [has_nil]
  | cons e rest ih =>
    rcases t with ⟨ends, kids⟩
    have sorted : KeySorted Prod.fst kids := canonical.sorted
    cases rest with
    | nil =>
      have only q (before : q <+: [e]) : q = [] ∨ q = [e] := by
        rcases List.prefix_cons_iff.mp before with rfl | ⟨tail, rfl, ends⟩
        · exact Or.inl rfl
        · rw [List.prefix_nil.mp ends]
          exact Or.inr rfl
      rw [has_single, has_single, recursiveDifference, members,
        contains_filter _ fun e f same => congrArg not (List.contains_congr same), Bool.and_eq_true,
        Bool.not_eq_true']
      refine and_congr_right fun _ => ⟨fun absent q before => ?_, fun free => ?_⟩
      · rcases only q before with rfl | rfl
        · exact has_nil
        · rw [has_single, absent]
      · rw [← has_single]
        exact free [e] List.prefix_rfl
    | cons f rest =>
      rw [has_deep (List.cons_ne_nil _ _), has_deep (List.cons_ne_nil _ _), recursiveDifference, children,
        recursiveDifferenceChildren_eq, under_sift sorted, children]
      cases here : under kids e with
      | none => simp
      | some t =>
        rw [Option.bind_some, Option.any_some]
        by_cases taken : s.members.contains e = true
        · rw [if_pos taken, Option.any_none]
          refine ⟨nofun, fun parts => ?_⟩
          have missed := parts.2 [e] ⟨f :: rest, rfl⟩
          rw [has_single, taken] at missed
          exact absurd missed nofun
        · have absent := eq_false_of_ne_true taken
          rw [if_neg taken]
          have deeper : (forall q, q <+: e :: f :: rest -> s.has q = false) <->
              forall q, q <+: f :: rest -> (under s.children e).any (fun s => s.has q) = false := by
            constructor
            · intro free q before
              cases q with
              | nil => cases under s.children e <;> simp [has_nil]
              | cons g q =>
                rw [← has_deep (List.cons_ne_nil _ _)]
                exact free _ (List.cons_prefix_cons.mpr ⟨rfl, before⟩)
            · intro free q before
              rcases List.prefix_cons_iff.mp before with rfl | ⟨tail, rfl, ends⟩
              · exact has_nil
              · cases tail with
                | nil => rw [has_single, absent]
                | cons g tail =>
                  rw [has_deep (List.cons_ne_nil _ _)]
                  exact free _ ends
          rw [deeper]
          cases there : under s.children e with
          | none => simp
          | some s =>
            rw [any_nonempty]
            exact ih (canonical.child here)

/-! ## Canonical form -/

omit [EquivBEq E] in
theorem canonical_empty : (empty : SortedTree E).Canonical :=
  .node .nil .nil .nil nofun nofun

theorem isEmpty_iff (canonical : t.Canonical) : t.isEmpty = true <-> forall p, t.has p = false := by
  refine ⟨fun nothing p => has_of_isEmpty nothing, ?_⟩
  induction canonical with
  | @node ends kids _ _ sorted below nonempty ih =>
    intro nothing
    have noEnds : ends = [] := by
      refine List.eq_nil_iff_forall_not_mem.mpr fun m listed => ?_
      have missed := nothing [m]
      rw [has_single, members] at missed
      exact absurd (List.contains_iff_exists_mem_beq.mpr ⟨m, listed, BEq.rfl⟩) (by rw [missed]; exact Bool.false_ne_true)
    have noKids : kids = [] := by
      refine List.eq_nil_iff_forall_not_mem.mpr fun entry listed => ?_
      rcases entry with ⟨e, s⟩
      have empty : s.isEmpty = true := by
        refine ih e s listed fun p => ?_
        cases p with
        | nil => exact has_nil
        | cons f p =>
          have missed := nothing (e :: f :: p)
          rwa [has_deep (List.cons_ne_nil _ _), children, (mem_iff_under sorted).mp listed] at missed
      rw [nonempty e s listed] at empty
      cases empty
    rw [noEnds, noKids]
    rfl

theorem exists_has (canonical : t.Canonical) (some_ : t.isEmpty = false) :
    Exists fun p => p ≠ [] ∧ t.has p = true := by
  by_contra missing
  have nothing : t.isEmpty = true := by
    refine (isEmpty_iff canonical).mpr fun p => ?_
    cases p with
    | nil => exact has_nil
    | cons e p => exact eq_false_of_ne_true fun found => missing ⟨_, List.cons_ne_nil _ _, found⟩
  rw [some_] at nothing
  cases nothing

theorem sort_canonical (distinct : elements.Pairwise fun e f => (e == f) = false) :
    (sort elements).Pairwise (· < ·) ∧ (sort elements).Pairwise fun e f => (e == f) = false := by
  have later : (sort elements).Pairwise fun e f => (e == f) = false :=
    ((List.perm_insertionSort _ elements).pairwise_iff fun different => by rwa [BEq.comm]).mpr distinct
  refine ⟨?_, later⟩
  refine (List.pairwise_insertionSort (· ≤ ·) elements).imp₂ (fun e f lower different => ?_) later
  refine lt_of_le_of_ne lower fun same => ?_
  rw [same, BEq.rfl] at different
  cases different

omit [LinearOrder E] [EquivBEq E] in
theorem union_distinct [PartialEquivBEq E] (others : List E) (distinct : elements.Pairwise fun e f => (e == f) = false) :
    (others.foldl (fun kept m => if kept.contains m then kept else kept ++ [m]) elements).Pairwise
      fun e f => (e == f) = false := by
  induction others generalizing elements with
  | nil => exact distinct
  | cons m rest ih =>
    rw [List.foldl_cons]
    split_ifs with there
    · exact ih distinct
    · refine ih (List.pairwise_append.mpr ⟨distinct, List.pairwise_singleton _ _, fun e listed f last => ?_⟩)
      rw [List.mem_singleton.mp last]
      refine eq_false_of_ne_true fun same => there ?_
      exact List.contains_iff_exists_mem_beq.mpr ⟨e, listed, BEq.symm same⟩

omit [EquivBEq E] in
theorem Canonical.of_under (ordered : elements.Pairwise (· < ·)) (distinct : elements.Pairwise fun e f => (e == f) = false)
    (sorted : KeySorted Prod.fst kids)
    (below : forall e t, under kids e = some t -> t.Canonical ∧ t.isEmpty = false) : (SortedTree.node elements kids).Canonical :=
  .node ordered distinct sorted (fun e t listed => (below e t ((mem_iff_under sorted).mp listed)).1)
    fun e t listed => (below e t ((mem_iff_under sorted).mp listed)).2

omit [EquivBEq E] in
theorem Canonical.members (canonical : t.Canonical) :
    t.members.Pairwise (· < ·) ∧ t.members.Pairwise fun e f => (e == f) = false := by
  cases canonical with
  | node ordered distinct _ _ _ => exact ⟨ordered, distinct⟩

omit [EquivBEq E] in
theorem Canonical.kept (canonical : (SortedTree.node elements kids).Canonical) (keep : E -> Bool) :
    (elements.filter keep).Pairwise (· < ·) ∧ (elements.filter keep).Pairwise fun e f => (e == f) = false :=
  ⟨canonical.members.1.filter keep, canonical.members.2.filter keep⟩

omit [LinearOrder E] [BEq E] [EquivBEq E] in
theorem nonempty_eq_some (kept : nonempty t = some s) : s = t ∧ t.isEmpty = false := by
  rw [nonempty] at kept
  split_ifs at kept with nothing
  cases kept
  exact ⟨rfl, eq_false_of_ne_true nothing⟩

theorem canonical_union (canonical : t.Canonical) (other : s.Canonical) : (t.union s).Canonical := by
  induction s using byChildren generalizing t with
  | node others further ih =>
    have sorted : KeySorted Prod.fst further := other.sorted
    have members := sort_canonical (union_distinct others canonical.members.2)
    rw [union]
    refine .of_under members.1 members.2 (unionChildren_sorted canonical.sorted) fun e c found => ?_
    rw [under_unionChildren canonical.sorted sorted] at found
    cases there : under further e with
    | none =>
      rw [there] at found
      exact ⟨canonical.child found, canonical.child_nonempty found⟩
    | some s =>
      have below : s.Canonical := other.child there
      have some_ : s.isEmpty = false := other.child_nonempty there
      rw [there] at found
      cases here : under t.children e with
      | none =>
        rw [here] at found
        cases found
        exact ⟨below, some_⟩
      | some t =>
        rw [here] at found
        cases found
        have above := canonical.child here
        refine ⟨ih e s (mem_of_under there) above below, eq_false_of_ne_true fun nothing => ?_⟩
        rcases exists_has below some_ with ⟨p, _, has⟩
        have missed := has_union (p := p) above below
        rw [has_of_isEmpty nothing, has, Bool.or_true] at missed
        cases missed

omit [EquivBEq E] in
theorem canonical_intersection (canonical : t.Canonical) : (t.intersection s).Canonical := by
  induction t using byChildren generalizing s with
  | node ends kids ih =>
    have sorted : KeySorted Prod.fst kids := canonical.sorted
    have members := canonical.kept s.members.contains
    rw [intersection, intersectionChildren_eq]
    refine .of_under members.1 members.2 (sift_sorted sorted _) fun e c found => ?_
    rw [under_sift sorted] at found
    rcases Option.bind_eq_some_iff.mp found with ⟨t, here, found⟩
    rcases Option.bind_eq_some_iff.mp found with ⟨s, _, kept⟩
    rcases nonempty_eq_some kept with ⟨rfl, some_⟩
    exact ⟨ih e t (mem_of_under here) (canonical.child here), some_⟩

omit [EquivBEq E] in
theorem canonical_difference (canonical : t.Canonical) : (t.difference s).Canonical := by
  induction t using byChildren generalizing s with
  | node ends kids ih =>
    have sorted : KeySorted Prod.fst kids := canonical.sorted
    have members := canonical.kept fun m => !s.members.contains m
    rw [difference, differenceChildren_eq]
    refine .of_under members.1 members.2 (sift_sorted sorted _) fun e c found => ?_
    rw [under_sift sorted] at found
    rcases Option.bind_eq_some_iff.mp found with ⟨t, here, found⟩
    cases there : under s.children e with
    | none =>
      rw [there] at found
      cases found
      exact ⟨canonical.child here, canonical.child_nonempty here⟩
    | some s =>
      rw [there] at found
      rcases nonempty_eq_some found with ⟨rfl, some_⟩
      exact ⟨ih e t (mem_of_under here) (canonical.child here), some_⟩

omit [EquivBEq E] in
theorem canonical_recursiveDifference (canonical : t.Canonical) : (t.recursiveDifference s).Canonical := by
  induction t using byChildren generalizing s with
  | node ends kids ih =>
    have sorted : KeySorted Prod.fst kids := canonical.sorted
    have members := canonical.kept fun m => !s.members.contains m
    rw [recursiveDifference, recursiveDifferenceChildren_eq]
    refine .of_under members.1 members.2 (sift_sorted sorted _) fun e c found => ?_
    rw [under_sift sorted] at found
    rcases Option.bind_eq_some_iff.mp found with ⟨t, here, found⟩
    split_ifs at found with taken
    cases there : under s.children e with
    | none =>
      rw [there] at found
      cases found
      exact ⟨canonical.child here, canonical.child_nonempty here⟩
    | some s =>
      rw [there] at found
      rcases nonempty_eq_some found with ⟨rfl, some_⟩
      exact ⟨ih e t (mem_of_under here) (canonical.child here), some_⟩

/-! ## Insertion -/

/-- The same path up to the equality of its last element. -/
def sameEnd : List E -> List E -> Bool
  | [e], [f] => e == f
  | e :: g :: p, f :: q => decide (e = f) && sameEnd (g :: p) q
  | [], _ | [_], [] | [_], _ :: _ :: _ | _ :: _ :: _, [] => false

theorem sameEnd_self (given : p ≠ []) : sameEnd p p = true := by
  induction p with
  | nil => exact absurd rfl given
  | cons e rest ih =>
    cases rest with
    | nil => exact BEq.rfl
    | cons f rest =>
      rw [sameEnd, decide_eq_true rfl, Bool.true_and]
      exact ih (List.cons_ne_nil _ _)

theorem contains_insert : (if elements.contains e then elements else sort (elements ++ [e])).contains f =
    (elements.contains f || f == e) := by
  split_ifs with there
  · cases same : f == e with
    | false => rw [Bool.or_false]
    | true =>
      rw [List.contains_congr same, there]
      rfl
  · rw [contains_sort, List.contains_append, List.contains_cons, List.contains_nil, Bool.or_false]

theorem has_insert (canonical : t.Canonical) : (t.insert p).has q = (t.has q || sameEnd q p) := by
  induction p generalizing t q with
  | nil =>
    rw [insert]
    rcases q with _ | ⟨f, _ | ⟨g, q⟩⟩
    · rw [sameEnd, Bool.or_false]
    · rw [sameEnd, Bool.or_false]
    · rw [sameEnd, Bool.or_false]
  | cons e rest ih =>
    rcases t with ⟨ends, kids⟩
    have sorted : KeySorted Prod.fst kids := canonical.sorted
    cases rest with
    | nil =>
      rw [insert]
      rcases q with _ | ⟨f, _ | ⟨g, q⟩⟩
      · rw [has_nil, has_nil, sameEnd]
        rfl
      · rw [has_single, has_single, sameEnd]
        exact contains_insert
      · have apart : sameEnd (g :: q) [] = false := by
          cases q <;> rw [sameEnd]
        rw [has_deep (List.cons_ne_nil _ _), has_deep (List.cons_ne_nil _ _), sameEnd, apart, Bool.and_false,
          Bool.or_false]
        rfl
    | cons e' rest =>
      rw [insert]
      rcases q with _ | ⟨f, _ | ⟨g, q⟩⟩
      · rw [has_nil, has_nil, sameEnd]
        rfl
      · rw [has_single, has_single, sameEnd, Bool.or_false]
        rfl
      · rw [has_deep (List.cons_ne_nil _ _), has_deep (List.cons_ne_nil _ _), children, children, under_put sorted,
          sameEnd]
        by_cases same : f = e
        · subst same
          have step : (((under kids f).getD empty).insert (e' :: rest)).has (g :: q) =
              (((under kids f).getD empty).has (g :: q) || sameEnd (g :: q) (e' :: rest)) := by
            refine ih ?_
            cases here : under kids f with
            | none => exact canonical_empty
            | some t => exact canonical.child here
          rw [if_pos rfl, Option.any_some, step, decide_eq_true rfl, Bool.true_and]
          cases under kids f with
          | none =>
            rw [Option.getD_none, has_empty]
            rfl
          | some t => rfl
        · rw [if_neg same, decide_eq_false same, Bool.false_and, Bool.or_false]

theorem canonical_insert (canonical : t.Canonical) : (t.insert p).Canonical := by
  induction p generalizing t with
  | nil => rwa [insert]
  | cons e rest ih =>
    rcases t with ⟨ends, kids⟩
    have sorted : KeySorted Prod.fst kids := canonical.sorted
    cases rest with
    | nil =>
      rw [insert]
      split_ifs with there
      · exact canonical
      · have distinct : (ends ++ [e]).Pairwise fun e f => (e == f) = false := by
          refine List.pairwise_append.mpr ⟨canonical.members.2, List.pairwise_singleton _ _, fun f listed g last => ?_⟩
          rw [List.mem_singleton.mp last]
          refine eq_false_of_ne_true fun same => there ?_
          exact List.contains_iff_exists_mem_beq.mpr ⟨f, listed, BEq.symm same⟩
        have members := sort_canonical distinct
        exact .of_under members.1 members.2 sorted fun f t found =>
          ⟨canonical.child found, canonical.child_nonempty found⟩
    | cons e' rest =>
      rw [insert]
      refine .of_under canonical.members.1 canonical.members.2 (put_sorted sorted) fun f c found => ?_
      rw [under_put sorted] at found
      split_ifs at found with same
      · cases found
        have held : ((under kids e).getD empty).Canonical := by
          cases here : under kids e with
          | none => exact canonical_empty
          | some t => exact canonical.child here
        refine ⟨ih held, eq_false_of_ne_true fun nothing => ?_⟩
        have has := has_insert (p := e' :: rest) (q := e' :: rest) held
        rw [has_of_isEmpty nothing, sameEnd_self (List.cons_ne_nil _ _), Bool.or_true] at has
        cases has
      · exact ⟨canonical.child found, canonical.child_nonempty found⟩

/-! ## One tree for each set -/

/-- Every element of the tree, at any depth, is one of those given. -/
inductive Over (elements : E -> Prop) : SortedTree E -> Prop where
  | node {members : List E} {children : List (E × SortedTree E)} (ends : forall e, e ∈ members -> elements e)
      (keys : forall e t, (e, t) ∈ children -> elements e) (below : forall e t, (e, t) ∈ children -> Over elements t) :
      Over elements (node members children)

section Agreement

variable {given : E -> Prop} (agree : forall e f, given e -> given f -> (e == f) = true -> e = f)

include agree

omit [LinearOrder E] in
theorem mem_iff_contains (over_ : forall m, m ∈ elements -> given m) (here : given e) :
    elements.contains e = true <-> e ∈ elements := by
  rw [List.contains_iff_exists_mem_beq]
  constructor
  · rintro ⟨m, listed, same⟩
    rwa [agree e m here (over_ m listed) same]
  · exact fun listed => ⟨e, listed, BEq.rfl⟩

theorem eq_of_has (canonical : t.Canonical) (other : s.Canonical) (over_ : t.Over given) (overOther : s.Over given)
    (same : forall p, t.has p = s.has p) : t = s := by
  induction t using byChildren generalizing s with
  | node ends kids ih =>
    rcases s with ⟨others, further⟩
    have sorted : KeySorted Prod.fst kids := canonical.sorted
    have otherSorted : KeySorted Prod.fst further := other.sorted
    cases over_ with
    | node endsOver _ below =>
      cases overOther with
      | node othersOver _ belowOther =>
        have sameEnds : ends = others := by
          refine @KeySorted.eq_of_mem_iff E E _ id ends others canonical.members.1 other.members.1 fun e => ?_
          have here := same [e]
          rw [has_single, has_single, members, members] at here
          constructor
          · intro listed
            have found := (mem_iff_contains agree endsOver (endsOver e listed)).mpr listed
            rw [here] at found
            exact (mem_iff_contains agree othersOver (endsOver e listed)).mp found
          · intro listed
            have found := (mem_iff_contains agree othersOver (othersOver e listed)).mpr listed
            rw [← here] at found
            exact (mem_iff_contains agree endsOver (othersOver e listed)).mp found
        have sameKids : kids = further := by
          refine eq_of_under sorted otherSorted fun e => ?_
          have deeper p (further_ : p ≠ []) :
              (under kids e).any (fun s => s.has p) = (under further e).any fun s => s.has p := by
            have here := same (e :: p)
            rwa [has_deep further_, has_deep further_] at here
          cases first : under kids e with
          | none =>
            cases second : under further e with
            | none => rfl
            | some s =>
              rcases exists_has (other.child second) (other.child_nonempty second) with ⟨p, further_, has⟩
              have here := deeper p further_
              rw [first, second, Option.any_none, Option.any_some, has] at here
              cases here
          | some t =>
            rcases exists_has (canonical.child first) (canonical.child_nonempty first) with ⟨p, further_, has⟩
            have here := deeper p further_
            rw [first, Option.any_some, has] at here
            cases second : under further e with
            | none =>
              rw [second] at here
              cases here
            | some s =>
              refine congrArg some (ih e t (mem_of_under first) (canonical.child first)
                (other.child second) (below e t (mem_of_under first)) (belowOther e s (mem_of_under second))
                fun p => ?_)
              cases p with
              | nil => rw [has_nil, has_nil]
              | cons f p =>
                have here := deeper (f :: p) (List.cons_ne_nil _ _)
                rwa [first, second] at here
        rw [sameEnds, sameKids]

omit [LinearOrder E] [EquivBEq E] in
theorem list_eq_of_beq {others : List E} (over_ : forall e, e ∈ elements -> given e)
    (overOther : forall e, e ∈ others -> given e) (same : (elements == others) = true) : elements = others := by
  induction elements generalizing others with
  | nil =>
    cases others with
    | nil => rfl
    | cons f others => cases same
  | cons e elements ih =>
    cases others with
    | nil => cases same
    | cons f others =>
      rw [List.cons_beq_cons, Bool.and_eq_true] at same
      rw [agree e f (over_ e List.mem_cons_self) (overOther f List.mem_cons_self) same.1,
        ih (fun m listed => over_ m (.tail _ listed))
          (fun m listed => overOther m (.tail _ listed)) same.2]

omit [LinearOrder E] [EquivBEq E] in
theorem eq_of_beq (over_ : t.Over given) (overOther : s.Over given) (same : t.beq s = true) : t = s := by
  induction t using byChildren generalizing s with
  | node ends kids ih =>
    rcases s with ⟨others, further⟩
    cases over_ with
    | node endsOver keysOver below =>
      cases overOther with
      | node othersOver keysOverOther belowOther =>
        rw [beq, Bool.and_eq_true] at same
        rw [list_eq_of_beq agree endsOver othersOver same.1]
        refine congrArg _ ?_
        have rest := same.2
        clear same
        induction kids generalizing further with
        | nil =>
          cases further with
          | nil => rfl
          | cons head further => cases rest
        | cons head kids tailHypothesis =>
          cases further with
          | nil => cases rest
          | cons otherHead further =>
            rcases head with ⟨e, t⟩
            rcases otherHead with ⟨f, s⟩
            rw [beqChildren, Bool.and_eq_true, Bool.and_eq_true] at rest
            have sameKey := agree e f (keysOver e t (.head _)) (keysOverOther f s (.head _)) rest.1.1
            have sameTree := ih e t List.mem_cons_self (below e t (.head _))
              (belowOther f s (.head _)) rest.1.2
            rw [sameKey, sameTree, tailHypothesis
              (fun e t listed => ih e t (.tail _ listed)) further
              (fun e t listed => keysOver e t (.tail _ listed))
              (fun e t listed => below e t (.tail _ listed))
              (fun e t listed => keysOverOther e t (.tail _ listed))
              (fun e t listed => belowOther e t (.tail _ listed)) rest.2]

end Agreement

omit [LinearOrder E] in
theorem beq_self : t.beq t = true := by
  induction t using byChildren with
  | node ends kids ih =>
    rw [beq, BEq.rfl, Bool.true_and]
    induction kids with
    | nil => rw [beqChildren]
    | cons head kids tailHypothesis =>
      rcases head with ⟨e, t⟩
      rw [beqChildren, BEq.rfl, ih e t List.mem_cons_self, Bool.true_and, Bool.true_and]
      exact tailHypothesis fun e t listed => ih e t (.tail _ listed)

/-- The set of the one path `[e, g]`. -/
def chain (e g : E) : SortedTree E := node [] [(e, node [g] [])]

omit [EquivBEq E] in
theorem canonical_chain (g : E) : (chain e g).Canonical := by
  have leaf : (node [g] [] : SortedTree E).Canonical :=
    .node (List.pairwise_singleton _ _) (List.pairwise_singleton _ _) .nil nofun
      nofun
  refine .node .nil .nil (List.pairwise_singleton _ _) (fun f t listed => ?_) fun f t listed => ?_
  · cases List.mem_singleton.mp listed
    exact leaf
  · cases List.mem_singleton.mp listed
    rfl

omit [LinearOrder E] [BEq E] [EquivBEq E] in
theorem over_chain {given : E -> Prop} {g : E} (here : given e) (there : given g) : (chain e g).Over given := by
  refine .node nofun (fun f t listed => ?_) fun f t listed => ?_
  · cases List.mem_singleton.mp listed
    exact here
  · cases List.mem_singleton.mp listed
    refine .node (fun f listed => ?_) nofun nofun
    rwa [List.mem_singleton.mp listed]

theorem has_chain (g : E) : (chain e g).has [f, g] = decide (e = f) := by
  rw [chain, has_deep (List.cons_ne_nil _ _), children, under_cons]
  by_cases same : e = f
  · rw [if_pos same, Option.any_some, has_single, members, List.contains_cons, BEq.rfl, decide_eq_true same]
    rfl
  · rw [if_neg same, decide_eq_false same]
    rfl

/-- Derived equality of canonical trees is equality of their paths exactly if
`==` tells apart what the order tells apart, among the elements in play. -/
theorem beq_iff_has_iff (given : E -> Prop) :
    (forall t s : SortedTree E, t.Canonical -> s.Canonical -> t.Over given -> s.Over given ->
        (t.beq s = true <-> forall p, t.has p = s.has p)) <->
      forall e f, given e -> given f -> (e == f) = true -> e = f := by
  constructor
  · intro determined e f here there same
    by_contra apart
    have alike : (chain e e).beq (chain f e) = true := by
      rw [chain, chain, beq, beqChildren, same, beqChildren, beq_self]
      rfl
    have samePaths := (determined (chain e e) (chain f e) (canonical_chain e) (canonical_chain e)
      (over_chain here here) (over_chain there here)).mp alike [e, e]
    rw [has_chain, has_chain, decide_eq_true rfl, decide_eq_false (Ne.symm apart)] at samePaths
    cases samePaths
  · intro agree t s canonical other over_ overOther
    constructor
    · intro same
      rw [eq_of_beq agree over_ overOther same]
      exact fun p => rfl
    · intro same
      rw [eq_of_has agree canonical other over_ overOther same]
      exact beq_self

end Laws

end Order

end SortedTree
end NotK8s.Library

import Mathlib.Data.List.Sort

namespace NotK8s.Library

/-!
# Tables in primary key order

A table with a primary key is a list whose keys strictly increase.  Inserting
a new key keeps it so, and a table is rebuilt by inserting its rows in order.
-/

variable {Row Key : Type*} [LinearOrder Key]

/-- A walk that writes under the key of each item what belongs there, seen
under one key. -/
theorem look_foldl {State Item Name Value : Type*} [DecidableEq Name] (look : State -> Name -> Value)
    (written : Name -> Value) {step : State -> Item -> State} {nameOf : Item -> Name} {items : List Item} {state : State}
    {name : Name} (writes : forall item, item ∈ items -> forall state name,
      look (step state item) name = if name = nameOf item then written name else look state name) :
    look (items.foldl step state) name = if name ∈ items.map nameOf then written name else look state name := by
  induction items generalizing state with
  | nil => exact (if_neg List.not_mem_nil).symm
  | cons first rest ih =>
    rw [List.foldl_cons, ih fun item listed => writes item (List.mem_cons_of_mem _ listed), writes first (.head _),
      List.map_cons]
    by_cases later : name ∈ rest.map nameOf
    · rw [if_pos later, if_pos (List.mem_cons_of_mem _ later)]
    · rw [if_neg later]
      by_cases here : name = nameOf first
      · rw [if_pos here, if_pos (List.mem_cons.mpr (Or.inl here))]
      · rw [if_neg here, if_neg fun listed => (List.mem_cons.mp listed).elim here later]

/-- The keys of the rows strictly increase. -/
def KeySorted (key : Row -> Key) (rows : List Row) : Prop :=
  rows.Pairwise fun first second => key first < key second

instance (key : Row -> Key) (rows : List Row) : Decidable (KeySorted key rows) :=
  inferInstanceAs (Decidable (rows.Pairwise fun first second => key first < key second))

section
variable {key : Row -> Key} {rows : List Row}

theorem KeySorted.filter (sorted : KeySorted key rows) (keep : Row -> Bool) :
    KeySorted key (rows.filter keep) :=
  List.Pairwise.filter keep sorted

theorem KeySorted.map (sorted : KeySorted key rows) {f : Row -> Row}
    (same : forall row, key (f row) = key row) : KeySorted key (rows.map f) := by
  apply List.pairwise_map.mpr
  apply List.Pairwise.imp _ sorted
  intro first second less
  rwa [same, same]

theorem KeySorted.orderedInsert (sorted : KeySorted key rows) {row : Row}
    (absent : forall stored, stored ∈ rows -> key stored ≠ key row) :
    KeySorted key (rows.orderedInsert (fun first second => key first ≤ key second) row) := by
  induction rows with
  | nil => exact List.pairwise_singleton _ _
  | cons head tail ih =>
    have parts := List.pairwise_cons.mp sorted
    have different := absent head (.head _)
    by_cases before : key row ≤ key head
    · rw [List.orderedInsert_cons, if_pos before]
      refine List.pairwise_cons.mpr ⟨?_, sorted⟩
      intro stored member
      rcases List.mem_cons.mp member with atHead | inTail
      · rw [atHead]
        exact lt_of_le_of_ne before different.symm
      · exact lt_of_le_of_lt before (parts.1 stored inTail)
    · rw [List.orderedInsert_cons, if_neg before]
      refine List.pairwise_cons.mpr ⟨?_, ih parts.2
        fun stored member => absent stored (.tail _ member)⟩
      intro stored member
      rcases List.mem_cons.mp ((List.perm_orderedInsert _ row tail).mem_iff.mp member) with
        inserted | inTail
      · rw [inserted]
        exact not_le.mp before
      · exact parts.1 stored inTail

theorem orderedInsert_last {row : Row} (above : forall stored, stored ∈ rows -> key stored < key row) :
    rows.orderedInsert (fun first second => key first ≤ key second) row = rows ++ [row] := by
  induction rows with
  | nil => rfl
  | cons head tail ih =>
    rw [List.orderedInsert_cons, if_neg (not_le.mpr (above head List.mem_cons_self)),
      ih fun stored member => above stored (.tail _ member)]
    rfl

theorem foldlM_insert {Failure : Type*} {insert : List Row -> Row -> Except Failure (List Row)}
    (last : forall {rows : List Row} {row : Row}, (forall stored, stored ∈ rows -> key stored < key row) ->
      insert rows row = .ok (rows ++ [row]))
    {earlier later : List Row} (sorted : KeySorted key later)
    (above : forall stored, stored ∈ earlier -> forall row, row ∈ later -> key stored < key row) :
    later.foldlM insert earlier = .ok (earlier ++ later) := by
  induction later generalizing earlier with
  | nil =>
    rw [List.append_nil]
    rfl
  | cons row rest ih =>
    have parts := List.pairwise_cons.mp sorted
    have others := @ih (earlier ++ [row]) parts.2 (by
      intro stored member other isRest
      rcases List.mem_append.mp member with old | new
      · exact above stored old other (.tail _ isRest)
      · rw [List.mem_singleton.mp new]
        exact parts.1 other isRest)
    rw [List.foldlM_cons, last fun stored member => above stored member row (.head _)]
    change rest.foldlM insert (earlier ++ [row]) = _
    rw [others, List.append_assoc]
    rfl

theorem KeySorted.mem_rest_iff {first second : List Row} {last row : Row} (sorted : KeySorted key (first ++ second))
    (ends : first.getLast? = some last) : row ∈ second <-> row ∈ first ++ second ∧ key last < key row := by
  rcases List.getLast?_eq_some_iff.mp ends with ⟨front, rfl⟩
  have parts := List.pairwise_append.mp sorted
  constructor
  · intro member
    exact ⟨List.mem_append_right _ member, parts.2.2 last (List.mem_append_right _ (List.mem_singleton_self last)) row member⟩
  · rintro ⟨member, above⟩
    rcases List.mem_append.mp member with early | late
    · rcases List.mem_append.mp early with inFront | isLast
      · have before := (List.pairwise_append.mp parts.1).2.2 row inFront last (List.mem_singleton_self last)
        exact absurd before (lt_asymm above)
      · rw [List.mem_singleton.mp isLast] at above
        exact absurd above (lt_irrefl _)
    · exact late

/-- Two different items of a pairwise related list are related one way or
the other. -/
theorem related_of_mem {Item : Type*} {relation : Item -> Item -> Prop} {items : List Item}
    (related : items.Pairwise relation) {first second : Item} (firstMem : first ∈ items)
    (secondMem : second ∈ items) (different : first ≠ second) :
    relation first second ∨ relation second first := by
  induction items with
  | nil => cases firstMem
  | cons head tail ih =>
    have parts := List.pairwise_cons.mp related
    rcases List.mem_cons.mp firstMem with rfl | firstTail
    · rcases List.mem_cons.mp secondMem with rfl | secondTail
      · exact absurd rfl different
      · exact Or.inl (parts.1 second secondTail)
    · rcases List.mem_cons.mp secondMem with rfl | secondTail
      · exact Or.inr (parts.1 first firstTail)
      · exact ih parts.2 firstTail secondTail

theorem KeySorted.eq_of_mem_iff {other : List Row} (sorted : KeySorted key rows)
    (otherSorted : KeySorted key other) (same : forall row, row ∈ rows <-> row ∈ other) :
    rows = other := by
  have distinct : rows.Nodup := sorted.imp fun less equal => absurd (congrArg key equal) (ne_of_lt less)
  have otherDistinct : other.Nodup :=
    otherSorted.imp fun less equal => absurd (congrArg key equal) (ne_of_lt less)
  have permutation := (List.perm_ext_iff_of_nodup distinct otherDistinct).mpr same
  exact permutation.eq_of_pairwise (fun _ _ _ _ less greater => absurd greater less.asymm)
    sorted otherSorted

end
end NotK8s.Library

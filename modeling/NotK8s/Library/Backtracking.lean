import Mathlib.Data.List.Sublists

namespace NotK8s.Library

/-!
# Backtracking within a budget

A search goes through the combinations of choices in lexicographic order and
gives up when its budget is spent.  `First` says which item of a list a search
for a property ends at, and `Explores` that a search with a budget goes
through a list of solutions in their order.
-/

variable {Item Other Solution : Type*}

/-! ## The first item with a property -/

inductive First (p : Item -> Prop) : List Item -> Item -> Prop where
  | here {x : Item} {rest : List Item} (holds : p x) : First p (x :: rest) x
  | later {y x : Item} {rest : List Item} (fails : ¬p y) (first : First p rest x) : First p (y :: rest) x

namespace First

variable {p q : Item -> Prop} {xs ys : List Item} {x : Item}

theorem mem (first : First p xs x) : x ∈ xs := by
  induction first with
  | here _ => exact .head _
  | later _ _ ih => exact .tail _ ih

theorem holds (first : First p xs x) : p x := by
  induction first with
  | here holds => exact holds
  | later _ _ ih => exact ih

theorem split (first : First p xs x) :
    Exists fun early => Exists fun late => xs = early ++ x :: late ∧ forall y, y ∈ early -> ¬p y := by
  induction first with
  | here _ => exact ⟨[], _, rfl, nofun⟩
  | later fails _ ih =>
    rcases ih with ⟨early, late, rfl, none_⟩
    refine ⟨_ :: early, late, rfl, fun y listed => ?_⟩
    rcases List.mem_cons.mp listed with rfl | listed
    · exact fails
    · exact none_ y listed

theorem congr (first : First p xs x) (same : forall y, y ∈ xs -> (p y <-> q y)) : First q xs x := by
  induction first with
  | here holds => exact .here ((same _ (.head _)).mp holds)
  | later fails _ ih =>
    exact .later (fun holds => fails ((same _ (.head _)).mpr holds))
      (ih fun y listed => same y (.tail _ listed))

theorem of_append (first : First p (xs ++ ys) x) : First p xs x ∨ (forall y, y ∈ xs -> ¬p y) ∧ First p ys x := by
  induction xs with
  | nil => exact .inr ⟨nofun, first⟩
  | cons z zs ih =>
    cases first with
    | here holds => exact .inl (.here holds)
    | later fails first =>
      rcases ih first with inside | ⟨none_, outside⟩
      · exact .inl (.later fails inside)
      · refine .inr ⟨fun y listed => ?_, outside⟩
        rcases List.mem_cons.mp listed with rfl | listed
        · exact fails
        · exact none_ y listed

theorem of_map {f : Other -> Item} {others : List Other} (first : First p (others.map f) x) :
    Exists fun y => First (fun y => p (f y)) others y ∧ f y = x := by
  induction others with
  | nil => cases first
  | cons z zs ih =>
    rw [List.map_cons] at first
    cases first with
    | here holds => exact ⟨z, .here holds, rfl⟩
    | later fails first =>
      rcases ih first with ⟨y, first, same⟩
      exact ⟨y, .later fails first, same⟩

theorem of_flatMap {f : Other -> List Item} {others : List Other} (first : First p (others.flatMap f) x) :
    Exists fun y => First (fun y => Exists fun z => z ∈ f y ∧ p z) others y ∧ First p (f y) x := by
  induction others with
  | nil => cases first
  | cons z zs ih =>
    rw [List.flatMap_cons] at first
    rcases of_append first with inside | ⟨none_, outside⟩
    · exact ⟨z, .here ⟨x, inside.mem, inside.holds⟩, inside⟩
    · rcases ih outside with ⟨y, first, inside⟩
      exact ⟨y, .later (fun there => there.elim fun z found => none_ z found.1 found.2) first, inside⟩

theorem of_head?_filter {p : Item -> Bool} (found : (xs.filter p).head? = some x) : First (fun y => p y = true) xs x := by
  induction xs with
  | nil => cases found
  | cons y ys ih =>
    cases holds : p y with
    | true =>
      rw [List.filter_cons_of_pos holds] at found
      cases found
      exact .here holds
    | false =>
      rw [List.filter_cons_of_neg (by rw [holds]; exact Bool.false_ne_true)] at found
      exact .later (by rw [holds]; exact Bool.false_ne_true) (ih found)

end First

/-! ## Combinations of choices -/

/-- One choice of each column, the last column varying fastest. -/
def product : List (List Item) -> List (List Item)
  | [] => [[]]
  | column :: rest => column.flatMap fun x => (product rest).map (x :: ·)

theorem mem_product {columns : List (List Item)} {row : List Item} :
    row ∈ product columns <-> List.Forall₂ (fun column x => x ∈ column) columns row := by
  induction columns generalizing row with
  | nil => simp [product]
  | cons column rest ih =>
    unfold product
    simp only [List.mem_flatMap, List.mem_map, ih]
    constructor
    · rintro ⟨x, listed, tail, chosen, rfl⟩
      exact .cons listed chosen
    · intro chosen
      cases chosen with
      | cons listed chosen => exact ⟨_, listed, _, chosen, rfl⟩

theorem mem_column {columns : List (List Item)} {column before after : List Item} {x : Item}
    (chosen : before ++ x :: after ∈ product columns) (at_ : columns[before.length]? = some column) : x ∈ column := by
  induction before generalizing columns with
  | nil =>
    cases mem_product.mp chosen with
    | cons listed _ =>
      cases at_
      exact listed
  | cons y before ih =>
    cases mem_product.mp chosen with
    | cons _ chosen => exact ih (mem_product.mpr chosen) at_

/-- In the first row with a property, each choice is the first of its column
that goes on from the choices before it to some such row. -/
theorem First.of_product {p : List Item -> Prop} {columns : List (List Item)} {before after : List Item} {x : Item}
    (inside : forall row, p row -> row ∈ product columns) (first : First p (product columns) (before ++ x :: after)) :
    Exists fun column => columns[before.length]? = some column ∧
      First (fun y => Exists fun after' => p (before ++ y :: after')) column x := by
  induction before generalizing columns p with
  | nil =>
    cases columns with
    | nil => exact absurd first.mem (by simp [product])
    | cons column rest =>
      refine ⟨column, rfl, ?_⟩
      rcases of_flatMap first with ⟨y, first, second⟩
      rcases of_map second with ⟨tail, -, same⟩
      cases same
      refine first.congr fun z _ => ⟨?_, ?_⟩
      · rintro ⟨row, listed, holds⟩
        rcases List.mem_map.mp listed with ⟨tail, -, rfl⟩
        exact ⟨tail, holds⟩
      · rintro ⟨tail, holds⟩
        cases mem_product.mp (inside _ holds) with
        | cons _ chosen => exact ⟨z :: tail, List.mem_map_of_mem (mem_product.mpr chosen), holds⟩
  | cons y before ih =>
    cases columns with
    | nil => exact absurd first.mem (by simp [product])
    | cons column rest =>
      rcases of_flatMap first with ⟨z, -, second⟩
      rcases of_map second with ⟨tail, second, same⟩
      cases same
      refine ih (p := fun row => p (y :: row)) (fun row holds => ?_) second
      cases mem_product.mp (inside _ holds) with
      | cons _ chosen => exact mem_product.mpr chosen

/-- The sublists of a length, those with the earliest items first. -/
def combinations : List Item -> Nat -> List (List Item)
  | _, 0 => [[]]
  | [], _ + 1 => []
  | x :: rest, n + 1 => (combinations rest n).map (x :: ·) ++ combinations rest (n + 1)

theorem mem_combinations {items taken : List Item} {n : Nat} :
    taken ∈ combinations items n <-> taken.Sublist items ∧ taken.length = n := by
  induction items generalizing taken n with
  | nil =>
    cases n with
    | zero => simp [combinations]
    | succ n =>
      simp only [combinations, List.not_mem_nil, List.sublist_nil, false_iff]
      rintro ⟨rfl, long⟩
      cases long
  | cons x rest ih =>
    cases n with
    | zero =>
      simp only [combinations, List.mem_singleton, List.length_eq_zero_iff]
      exact ⟨fun same => ⟨same ▸ List.nil_sublist _, same⟩, And.right⟩
    | succ n =>
      simp only [combinations, List.mem_append, List.mem_map, ih]
      constructor
      · rintro (⟨tail, ⟨part, long⟩, rfl⟩ | ⟨part, long⟩)
        · exact ⟨part.cons_cons x, congrArg Nat.succ long⟩
        · exact ⟨part.cons x, long⟩
      · rintro ⟨part, long⟩
        cases part with
        | cons _ part => exact .inr ⟨part, long⟩
        | cons_cons _ part => exact .inl ⟨_, ⟨part, Nat.succ.inj long⟩, rfl⟩

/-! ## Budgets -/

/-- The result of a search that was given `budget` to go through `solutions`
in their order.  While something of the budget is left it is the first of
them, and for a `thorough` search also when the budget is spent. -/
structure Explores (thorough : Prop) (solutions : List Solution) (budget : Nat) (result : Option Solution × Nat) : Prop where
  spends : result.2 <= budget
  sound : forall solution, result.1 = some solution -> solution ∈ solutions
  first : result.2 ≠ 0 ∨ thorough ∧ result.1.isSome = true -> result.1 = solutions.head?

namespace Explores

variable {thorough : Prop} {solutions others : List Solution} {budget left : Nat} {result : Option Solution × Nat}
  {solution : Solution}

theorem exhausted : Explores thorough solutions budget (none, 0) := by
  refine ⟨Nat.zero_le _, nofun, ?_⟩
  rintro (more | ⟨-, found⟩)
  · exact absurd rfl more
  · cases found

theorem nothing : Explores thorough ([] : List Solution) budget (none, budget) :=
  ⟨Nat.le_refl _, nofun, fun _ => rfl⟩

theorem found : Explores thorough [solution] budget (some solution, budget) :=
  ⟨Nat.le_refl _, fun _ same => List.mem_singleton.mpr (Option.some.inj same).symm, fun _ => rfl⟩

theorem spent (explores : Explores thorough solutions left result) (le : left <= budget) :
    Explores thorough solutions budget result :=
  ⟨Nat.le_trans explores.spends le, explores.sound, explores.first⟩

theorem orElse_some (explores : Explores thorough solutions budget (some solution, left)) :
    Explores thorough (solutions ++ others) budget (some solution, left) := by
  refine ⟨explores.spends, fun s same => List.mem_append_left _ (explores.sound s same), fun more => ?_⟩
  have head := explores.first more
  rw [List.head?_append, ← head]
  rfl

theorem orElse_none (explores : Explores thorough solutions budget (none, left))
    (idle : thorough -> left = 0 -> result.1 = none) (second : Explores thorough others left result) :
    Explores thorough (solutions ++ others) budget result := by
  refine ⟨Nat.le_trans second.spends explores.spends, fun s same => List.mem_append_right _ (second.sound s same),
    fun more => ?_⟩
  have some_left : left ≠ 0 := by
    rcases more with more | ⟨careful, found⟩
    · exact fun nothing_left => more (Nat.le_zero.mp (nothing_left ▸ second.spends))
    · intro nothing_left
      rw [idle careful nothing_left] at found
      cases found
  have none_ : solutions = [] := List.head?_eq_none_iff.mp (explores.first (.inl some_left)).symm
  rw [none_, List.nil_append]
  exact second.first more

theorem map {Rendered : Type*} (f : Solution -> Rendered) (explores : Explores thorough solutions budget result) :
    Explores thorough (solutions.map f) budget (result.1.map f, result.2) := by
  refine ⟨explores.spends, fun s same => ?_, fun more => ?_⟩
  · rcases Option.map_eq_some_iff.mp same with ⟨before, found, rfl⟩
    exact List.mem_map_of_mem (explores.sound before found)
  · rw [List.head?_map]
    exact congrArg (Option.map f) (explores.first (more.imp_right fun found => ⟨found.1, Option.isSome_map ▸ found.2⟩))

end Explores

end NotK8s.Library

import NotK8s.Library.Keyed

namespace NotK8s.Library

/-!
# Numbering runs of equal labels

A list of labels is numbered by counting up while a label repeats its
predecessor and starting over at zero when it does not.  The numbered labels
are distinct exactly when equal labels are adjacent: a label that comes back
after a different one is numbered zero a second time.
-/

variable {Label : Type*} [DecidableEq Label]

/-- Equal labels are adjacent. -/
def Grouped : List Label -> Prop
  | [] => True
  | label :: rest => (label ∈ rest -> rest.head? = some label) ∧ Grouped rest

/-- Number each label within its run, given the label before the list and
its number. -/
def numbered : List Label -> Label -> Nat -> List (Label × Nat)
  | [], _, _ => []
  | label :: rest, last, count =>
    let number := if label = last then count + 1 else 0
    (label, number) :: numbered rest label number

theorem numbered_labels (labels : List Label) (last : Label) (count : Nat) :
    (numbered labels last count).map Prod.fst = labels := by
  induction labels generalizing last count with
  | nil => rfl
  | cons label rest ih =>
    simp only [numbered, List.map_cons, ih]

theorem zero_mem_numbered {labels : List Label} {last label : Label} {count : Nat}
    (member : label ∈ labels) (starts : last ≠ label) : (label, 0) ∈ numbered labels last count := by
  induction labels generalizing last count with
  | nil => cases member
  | cons head rest ih =>
    by_cases same : head = label
    · subst head
      simp only [numbered, if_neg starts.symm]
      exact .head _
    · have inRest := (List.mem_cons.mp member).resolve_left fun equal => same equal.symm
      exact .tail _ (ih inRest same)

/-- Distinct numbered labels that do not restart the run before the list
come from a grouped list. -/
theorem grouped_of_numbered_nodup {labels : List Label} {last : Label} {count : Nat}
    (nodup : (numbered labels last count).Nodup) (absent : (last, 0) ∉ numbered labels last count) :
    Grouped (last :: labels) := by
  induction labels generalizing last count with
  | nil => exact ⟨nofun, True.intro⟩
  | cons head rest ih =>
    have parts := List.nodup_cons.mp nodup
    by_cases same : head = last
    · subst head
      have absentRest : (last, 0) ∉ numbered rest last (count + 1) := by
        intro member
        apply absent
        simp only [numbered, if_true]
        exact .tail _ member
      simp only [if_true] at parts
      exact ⟨fun _ => rfl, ih parts.2 absentRest⟩
    · rw [if_neg same] at parts
      refine ⟨fun member => ?_, ih parts.2 parts.1⟩
      have inRest := (List.mem_cons.mp member).resolve_left fun equal => same equal.symm
      refine absurd ?_ absent
      exact .tail _ (zero_mem_numbered inRest same)

/-- In a grouped list the numbers of the leading label go up from the number
it starts with. -/
theorem numbered_gt {labels : List Label} {last : Label} {count : Nat} (grouped : Grouped (last :: labels))
    {number : Nat} (member : (last, number) ∈ numbered labels last count) : count < number := by
  induction labels generalizing count with
  | nil => cases member
  | cons head rest ih =>
    by_cases same : head = last
    · subst head
      simp only [numbered, if_true] at member
      rcases List.mem_cons.mp member with atHead | inRest
      · cases atHead
        exact Nat.lt_succ_self count
      · exact (Nat.lt_succ_self count).trans (ih grouped.2 inRest)
    · have label : last ∈ head :: rest := by
        rw [← numbered_labels (head :: rest) last count]
        exact List.mem_map_of_mem member
      exact absurd (Option.some.inj (grouped.1 label)) same

theorem numbered_nodup {labels : List Label} {last : Label} {count : Nat} (grouped : Grouped labels) :
    (numbered labels last count).Nodup := by
  induction labels generalizing last count with
  | nil => exact List.nodup_nil
  | cons head rest ih =>
    refine List.nodup_cons.mpr ⟨fun member => ?_, ih grouped.2⟩
    exact absurd (numbered_gt grouped member) (lt_irrefl _)

theorem numbered_increasing {labels : List Label} {last : Label} {count : Nat} (grouped : Grouped labels) :
    (numbered labels last count).Pairwise fun first second => first.1 = second.1 -> first.2 < second.2 := by
  induction labels generalizing last count with
  | nil => exact List.Pairwise.nil
  | cons head rest ih =>
    refine List.pairwise_cons.mpr ⟨?_, ih grouped.2⟩
    rintro ⟨label, number⟩ member same
    subst same
    exact numbered_gt grouped member

/-- Numbering after a label that does not occur gives distinct pairs exactly
for grouped lists. -/
theorem numbered_nodup_iff {labels : List Label} {last : Label} {count : Nat} (absent : last ∉ labels) :
    (numbered labels last count).Nodup <-> Grouped labels := by
  constructor
  · intro nodup
    refine (grouped_of_numbered_nodup nodup fun member => absent ?_).2
    rw [← numbered_labels labels last count]
    exact List.mem_map_of_mem member
  · exact numbered_nodup

/-! ## Grouping along a key order -/

omit [DecidableEq Label] in
/-- Rows listed in key order are grouped by a label exactly when, between
two rows with a label, every row carries it. -/
theorem grouped_map_iff {Row Key : Type*} [LinearOrder Key] {key : Row -> Key} {rows : List Row}
    (sorted : KeySorted key rows) (label : Row -> Label) :
    Grouped (rows.map label) <->
      forall first middle last, first ∈ rows -> middle ∈ rows -> last ∈ rows ->
        key first < key middle -> key middle < key last -> label first = label last ->
          label middle = label first := by
  induction rows with
  | nil => exact iff_of_true True.intro nofun
  | cons head rest ih =>
    have parts := List.pairwise_cons.mp sorted
    have tail := ih parts.2
    constructor
    · rintro ⟨leading, grouped⟩ first middle last firstMem middleMem lastMem before after same
      have middleRest : middle ∈ rest := by
        refine (List.mem_cons.mp middleMem).resolve_left fun equal => ?_
        subst middle
        rcases List.mem_cons.mp firstMem with rfl | inRest
        · exact lt_irrefl _ before
        · exact before.asymm (parts.1 first inRest)
      have lastRest : last ∈ rest := by
        refine (List.mem_cons.mp lastMem).resolve_left fun equal => ?_
        subst last
        exact after.asymm (parts.1 middle middleRest)
      rcases List.mem_cons.mp firstMem with rfl | firstRest
      · have next := leading (same ▸ List.mem_map_of_mem lastRest)
        cases rest with
        | nil => cases middleRest
        | cons second others =>
          have secondLabel : label second = label first := Option.some.inj next
          rcases List.mem_cons.mp middleRest with rfl | inOthers
          · exact secondLabel
          · rw [← secondLabel]
            refine tail.mp grouped second middle last List.mem_cons_self middleRest lastRest
              ((List.pairwise_cons.mp parts.2).1 middle inOthers) after ?_
            rw [secondLabel, same]
      · exact tail.mp grouped first middle last firstRest middleRest lastRest before after same
    · intro between
      refine ⟨fun member => ?_, tail.mpr fun first middle last firstMem middleMem lastMem =>
        between first middle last (.tail _ firstMem) (.tail _ middleMem)
          (.tail _ lastMem)⟩
      rcases List.mem_map.mp member with ⟨last, lastMem, same⟩
      cases rest with
      | nil => cases lastMem
      | cons second others =>
        refine congrArg some ?_
        rcases List.mem_cons.mp lastMem with rfl | inOthers
        · exact same
        · exact between head second last (.head _)
            (.tail _ (.head _)) (.tail _ lastMem)
            (parts.1 second (.head _)) ((List.pairwise_cons.mp parts.2).1 last inOthers)
            same.symm

end NotK8s.Library

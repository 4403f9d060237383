import Mathlib.Data.Finset.Basic
import NotK8s.Library.SortedMap

namespace NotK8s.Library

/-!
# Reverse indexes

A map from a target to the set of sources that point to it.  A source is
entered under many targets at once and taken out again, and what every
operation does is said by the members of one set.
-/

abbrev ReverseIndex (Target Source : Type*) [LinearOrder Target] :=
  SortedMap Target (Finset Source)

namespace ReverseIndex

variable {Target Source : Type*} [LinearOrder Target] [DecidableEq Source]

def sources (index : ReverseIndex Target Source) (target : Target) : Finset Source :=
  (index.get target).getD ∅

def enter (index : ReverseIndex Target Source) (targets : List Target) (source : Source) : ReverseIndex Target Source :=
  targets.foldl (fun index target => index.insert target (insert source (sources index target))) index

/-- Targets that have no set are left without one. -/
def leave (index : ReverseIndex Target Source) (targets : List Target) (source : Source) : ReverseIndex Target Source :=
  targets.foldl (fun index target =>
    match index.get target with
    | some set => index.insert target (set.erase source)
    | none => index) index

def dropEmpty (index : ReverseIndex Target Source) : ReverseIndex Target Source :=
  index.filter fun _ set => decide set.Nonempty

variable {index : ReverseIndex Target Source} {targets : List Target} {target other : Target} {source source' : Source}

omit [DecidableEq Source] in
theorem sources_insert {set : Finset Source} :
    sources (index.insert target set) other = if other = target then set else sources index other := by
  unfold sources
  rw [SortedMap.get_insert]
  split_ifs <;> rfl

omit [DecidableEq Source] in
omit [DecidableEq Source] in
theorem sources_erase : sources (index.erase target) other = if other = target then ∅ else sources index other := by
  unfold sources
  rw [SortedMap.get_erase]
  split_ifs <;> rfl

theorem mem_sources_enter : source' ∈ sources (enter index targets source) target <->
    source' ∈ sources index target ∨ (source' = source ∧ target ∈ targets) := by
  unfold enter
  induction targets generalizing index with
  | nil => exact ⟨Or.inl, fun entered => entered.resolve_right fun both => List.not_mem_nil both.2⟩
  | cons first rest ih =>
    rw [List.foldl_cons, ih, sources_insert, List.mem_cons]
    split_ifs with here
    · rw [Finset.mem_insert, ← here]
      constructor
      · rintro ((same | was) | ⟨same, later⟩)
        · exact Or.inr ⟨same, Or.inl rfl⟩
        · exact Or.inl was
        · exact Or.inr ⟨same, Or.inr later⟩
      · rintro (was | ⟨same, -⟩)
        · exact Or.inl (Or.inr was)
        · exact Or.inl (Or.inl same)
    · exact or_congr_right (and_congr_right fun _ => (or_iff_right here).symm)

theorem mem_sources_leave : source' ∈ sources (leave index targets source) target <->
    source' ∈ sources index target ∧ ¬ (source' = source ∧ target ∈ targets) := by
  unfold leave
  induction targets generalizing index with
  | nil => exact (and_iff_left fun both => List.not_mem_nil both.2).symm
  | cons first rest ih =>
    rw [List.foldl_cons, ih, List.mem_cons]
    have here : source' ∈ sources (match index.get first with
          | some set => index.insert first (set.erase source)
          | none => index) target <->
        source' ∈ sources index target ∧ ¬ (source' = source ∧ target = first) := by
      cases held : index.get first with
      | none =>
        refine (and_iff_left_of_imp fun inside both => ?_).symm
        unfold sources at inside
        rw [both.2, held] at inside
        exact absurd inside (Finset.notMem_empty _)
      | some set =>
        rw [sources_insert]
        split_ifs with same
        · have setIs : sources index target = set := by
            unfold sources
            rw [same, held]
            rfl
          rw [setIs, Finset.mem_erase, and_comm]
          exact and_congr_right fun _ => not_congr (and_iff_left same).symm
        · exact (and_iff_left fun both => same both.2).symm
    rw [here, and_assoc]
    refine and_congr_right fun _ => ?_
    constructor
    · rintro ⟨notFirst, notRest⟩ ⟨same, first_ | later⟩
      · exact notFirst ⟨same, first_⟩
      · exact notRest ⟨same, later⟩
    · exact fun apart => ⟨fun both => apart ⟨both.1, Or.inl both.2⟩, fun both => apart ⟨both.1, Or.inr both.2⟩⟩

@[simp] theorem sources_dropEmpty : sources (dropEmpty index) target = sources index target := by
  unfold sources dropEmpty
  rw [SortedMap.get_filter]
  cases held : index.get target with
  | none => rfl
  | some set =>
    rw [Option.filter_some]
    split_ifs with kept
    · rfl
    · exact (Finset.not_nonempty_iff_eq_empty.mp fun some_ => kept (decide_eq_true some_)).symm

end ReverseIndex
end NotK8s.Library

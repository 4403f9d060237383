import Mathlib.Data.List.Nodup
import Mathlib.Data.List.Perm.Basic

namespace NotK8s.Library

/-!
# Giving back what was not needed

A number of items have been taken away, and a test passes without them.  They
are offered back one at a time, in some order: an item stays away only if the
test fails with it back.  What stays away still passes the test, and when
taking more away never spoils it, no smaller part of it would do.
-/

section
variable {Item Key : Type*} [DecidableEq Key] (key : Item -> Key) (passes : List Item -> Bool)

def without (away : List Item) (item : Item) : List Item :=
  away.filter fun held => key held ≠ key item

/-- One offer.  The state is what is away, and which items have to stay so. -/
def offerBack (state : List Item × List Item) (item : Item) : List Item × List Item :=
  if passes (without key state.1 item) then (without key state.1 item, state.2) else (state.1, state.2 ++ [item])

/-- All offers in turn. -/
def prune (away offers : List Item) : List Item × List Item :=
  offers.foldl (offerBack key passes) (away, [])

/-- How the test showed that an item has to stay away: it failed when at least
these items were away, without the one. -/
structure Needed (all kept offers : List Item) (item : Item) (before after earlier : List Item) : Prop where
  order : offers = before ++ item :: after
  within : forall other, other ∈ earlier -> other ∈ all
  covers : forall other, other ∈ kept ∨ other ∈ after -> other ∈ earlier
  fails : passes (without key earlier item) = false

/-- What holds between two offers. -/
structure Pruned (all tried rest : List Item) (state : List Item × List Item) : Prop where
  passing : passes state.1
  part : state.1.Sublist all
  away_iff : forall item, item ∈ state.1 <-> item ∈ state.2 ∨ item ∈ rest
  kept : state.2.Sublist tried
  needed : forall item, item ∈ state.2 -> Exists fun before => Exists fun after => Exists fun earlier =>
    Needed key passes all state.1 (tried ++ rest) item before after earlier

variable {key passes} {all tried rest away offers : List Item} {state : List Item × List Item} {item : Item}

section

variable (distinct : (all.map key).Nodup)
include distinct

theorem mem_without (part : forall other, other ∈ away -> other ∈ all)
    (listed : item ∈ all) {other : Item} : other ∈ without key away item <-> other ∈ away ∧ other ≠ item := by
  unfold without
  rw [List.mem_filter, decide_eq_true_iff]
  constructor
  · intro found
    exact ⟨found.1, fun same => found.2 (congrArg key same)⟩
  · intro found
    exact ⟨found.1, fun same => found.2 (List.inj_on_of_nodup_map distinct (part other found.1) listed same)⟩

theorem Pruned.offer (offered : (tried ++ item :: rest).Perm all)
    (held : Pruned key passes all tried (item :: rest) state) :
    Pruned key passes all (tried ++ [item]) rest (offerBack key passes state item) := by
  have once : (tried ++ item :: rest).Nodup := offered.nodup_iff.mpr (distinct.of_map key)
  have listed : item ∈ all := offered.mem_iff.mp (List.mem_append_right _ (.head _))
  have fresh : item ∉ state.2 := fun found =>
    (List.nodup_append.mp once).2.2 item (held.kept.subset found) item (.head _) rfl
  have later : item ∉ rest := (List.nodup_cons.mp (List.nodup_append.mp once).2.1).1
  have left : forall other, other ∈ without key state.1 item <-> other ∈ state.1 ∧ other ≠ item :=
    fun other => mem_without distinct (fun other found => held.part.subset found) listed
  have whole : (tried ++ [item]) ++ rest = tried ++ item :: rest := by
    rw [List.append_assoc]
    rfl
  unfold offerBack
  split_ifs with spared
  · refine ⟨spared, List.filter_sublist.trans held.part, ?_, held.kept.trans (List.sublist_append_left _ _), ?_⟩
    · intro other
      dsimp only
      rw [left, held.away_iff, List.mem_cons]
      constructor
      · rintro ⟨found | same | found, other_ne⟩
        · exact Or.inl found
        · exact absurd same other_ne
        · exact Or.inr found
      · rintro (found | found)
        · exact ⟨Or.inl found, fun same => fresh (same ▸ found)⟩
        · exact ⟨Or.inr (Or.inr found), fun same => later (same ▸ found)⟩
    · intro victim found
      rcases held.needed victim found with ⟨before, after, earlier, why⟩
      refine ⟨before, after, earlier, whole.trans why.order, why.within, ?_, why.fails⟩
      rintro other (away | away)
      · exact why.covers other (Or.inl ((left other).mp away).1)
      · exact why.covers other (Or.inr away)
  · refine ⟨held.passing, held.part, ?_, held.kept.append (List.Sublist.refl _), ?_⟩
    · intro other
      dsimp only
      rw [held.away_iff, List.mem_append, List.mem_singleton, List.mem_cons]
      exact or_assoc.symm
    · intro victim found
      rcases List.mem_append.mp found with found | same
      · rcases held.needed victim found with ⟨before, after, earlier, why⟩
        exact ⟨before, after, earlier, whole.trans why.order, why.within, why.covers, why.fails⟩
      · rw [List.mem_singleton.mp same]
        refine ⟨tried, rest, state.1, whole, fun other => held.part.subset (a := other), ?_, ?_⟩
        · rintro other (away | away)
          · exact away
          · exact (held.away_iff other).mpr (Or.inr (.tail _ away))
        · exact Bool.eq_false_iff.mpr spared

theorem Pruned.run (offered : (tried ++ rest).Perm all)
    (held : Pruned key passes all tried rest state) :
    Pruned key passes all (tried ++ rest) [] (rest.foldl (offerBack key passes) state) := by
  induction rest generalizing tried state with
  | nil =>
    rw [List.append_nil]
    exact held
  | cons item rest ih =>
    have whole : (tried ++ [item]) ++ rest = tried ++ item :: rest := by
      rw [List.append_assoc]
      rfl
    have next := @ih (tried ++ [item]) _ (by rwa [whole]) (held.offer distinct offered)
    rw [whole] at next
    exact next

theorem prune_pruned (offered : offers.Perm all) (start : passes all) :
    Pruned key passes all offers [] (prune key passes all offers) := by
  refine @Pruned.run _ _ _ _ _ _ [] _ _ distinct offered ⟨start, List.Sublist.refl _, ?_, List.Sublist.refl _, ?_⟩
  · intro item
    rw [offered.mem_iff]
    exact ⟨Or.inr, fun found => found.resolve_left List.not_mem_nil⟩
  · intro item found
    cases found

end

section
variable (distinct : (all.map key).Nodup) (offered : offers.Perm all) (start : passes all)
include distinct offered start

theorem prune_perm : (prune key passes all offers).1.Perm (prune key passes all offers).2 := by
  have held := prune_pruned distinct offered start
  have once := distinct.of_map key
  refine (List.perm_ext_iff_of_nodup (once.sublist held.part) ((offered.nodup_iff.mpr once).sublist held.kept)).mpr ?_
  intro item
  rw [held.away_iff]
  exact ⟨fun found => found.resolve_right List.not_mem_nil, Or.inl⟩

/-- When taking more away never spoils the test, it fails for whatever leaves
out a kept item and is made of kept items and of items offered after it. -/
theorem prune_needed (monotone : forall less more : List Item, less ⊆ more -> passes less -> passes more)
    (found : item ∈ (prune key passes all offers).2) : Exists fun before => Exists fun after =>
      offers = before ++ item :: after ∧ forall less : List Item, item ∉ less ->
        (forall other, other ∈ less -> other ∈ (prune key passes all offers).2 ∨ other ∈ after) ->
        passes less = false := by
  have held := prune_pruned distinct offered start
  rcases held.needed item found with ⟨before, after, earlier, why⟩
  have listed : item ∈ all := offered.mem_iff.mp (held.kept.subset found)
  refine ⟨before, after, (List.append_nil offers).symm.trans why.order, ?_⟩
  intro less left within
  refine Bool.eq_false_iff.mpr fun enough => ?_
  have more : less ⊆ without key earlier item := by
    intro other present
    refine (mem_without distinct why.within listed).mpr ⟨why.covers other ?_, fun same => left (same ▸ present)⟩
    exact (within other present).imp (fun kept => (held.away_iff other).mpr (Or.inl kept)) id
  have fails := why.fails
  rw [monotone less _ more enough] at fails
  exact Bool.noConfusion fails

end
end

end NotK8s.Library

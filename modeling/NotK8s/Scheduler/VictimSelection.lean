import NotK8s.Scheduler.Preemption

namespace NotK8s.Scheduler
namespace Preemption

open Library

/-!
# The victims on a node

The preemptor fits without the victims, none of them can be put back, and a
pod that a budget protects is a victim only if it would not fit with that pod
back even when every unprotected pod were gone.
-/

/-! ## What the budgets disallow -/

/-- A budget that the pod counts against has been used up by the more
important pods that count against it. -/
def disallowed (budgets : List PdbState) (potential : List PodInfo) (pod : PodInfo) : Bool :=
  budgets.any fun pdb => pdb.charges pod &&
    decide (pdb.disruptionsAllowed ≤ (potential.takeWhile fun earlier => earlier ≠ pod).countP pdb.charges)

namespace PdbState

variable {pdb : PdbState} {pod other : PodInfo} {seen : List PodInfo}

/-- The budget after some pods have been looked at. -/
def spent (pdb : PdbState) (seen : List PodInfo) : PdbState :=
  seen.foldl after pdb

theorem charges_after : (pdb.after other).charges pod = pdb.charges pod := by
  unfold after
  split_ifs <;> rfl

theorem charges_spent : (pdb.spent seen).charges pod = pdb.charges pod := by
  induction seen generalizing pdb with
  | nil => rfl
  | cons first rest ih => exact ih.trans charges_after

theorem spent_allowed : (pdb.spent seen).disruptionsAllowed ≤ 0 <->
    pdb.disruptionsAllowed ≤ seen.countP pdb.charges := by
  unfold spent
  induction seen generalizing pdb with
  | nil => exact Iff.rfl
  | cons first rest ih =>
    have same : (pdb.after first).charges = pdb.charges := funext fun _ => charges_after
    rw [List.foldl_cons, ih, same, List.countP_cons]
    unfold after
    split_ifs
    · omega
    · push_cast
      omega
    · simp

end PdbState

variable {budgets : List PdbState} {potential : List PodInfo}

theorem takeWhile_ne {seen rest : List PodInfo} {pod : PodInfo} (fresh : pod ∉ seen) :
    (seen ++ pod :: rest).takeWhile (fun earlier => earlier ≠ pod) = seen := by
  rw [List.takeWhile_append_of_pos, List.takeWhile_cons_of_neg, List.append_nil]
  · simp
  · intro earlier listed
    exact decide_eq_true fun same => fresh (same ▸ listed)

theorem walkBudgets_eq (distinct : potential.Nodup) :
    walkBudgets potential budgets = potential.map fun pod => (pod, disallowed budgets potential pod) := by
  have general : forall rest seen, (seen ++ rest).Nodup ->
      walkBudgets rest (budgets.map fun pdb => pdb.spent seen) =
        rest.map fun pod => (pod, disallowed budgets (seen ++ rest) pod) := by
    intro rest
    induction rest with
    | nil => exact fun _ _ => rfl
    | cons pod rest ih =>
      intro seen once
      have fresh : pod ∉ seen := fun listed => (List.nodup_append.mp once).2.2 pod listed pod (.head _) rfl
      have whole : (seen ++ [pod]) ++ rest = seen ++ pod :: rest := by
        rw [List.append_assoc]
        rfl
      have further := ih (seen ++ [pod]) (by rwa [whole])
      have next : (violatesPdb pod (budgets.map fun pdb => pdb.spent seen)).2 =
          budgets.map fun pdb => pdb.spent (seen ++ [pod]) := by
        unfold violatesPdb PdbState.spent
        rw [List.map_map]
        apply List.map_congr_left
        intro pdb _
        rw [List.foldl_append]
        rfl
      have flag : (violatesPdb pod (budgets.map fun pdb => pdb.spent seen)).1 =
          disallowed budgets (seen ++ pod :: rest) pod := by
        unfold violatesPdb disallowed
        rw [takeWhile_ne fresh]
        rw [List.any_map]
        refine congrArg budgets.any (funext fun pdb => ?_)
        rw [Function.comp_apply, PdbState.charges_spent, decide_eq_decide.mpr PdbState.spent_allowed]
      rw [walkBudgets, next, flag, further, whole, List.map_cons]
  have start := general potential [] distinct
  have none : (budgets.map fun pdb => pdb.spent []) = budgets := List.map_id _
  rw [none] at start
  exact start

/-! ## The order of the offers -/

theorem offerOrder_flag {offer : PodInfo × Bool} (distinct : potential.Nodup)
    (listed : offer ∈ offerOrder potential budgets) : offer.2 = disallowed budgets potential offer.1 := by
  have walked : offer ∈ walkBudgets potential budgets := by
    rcases List.mem_append.mp listed with found | found
    · exact (List.mem_filter.mp found).1
    · exact (List.mem_filter.mp found).1
  rw [walkBudgets_eq distinct] at walked
  rcases List.mem_map.mp walked with ⟨pod, _, rfl⟩
  rfl

theorem offerOrder_perm (distinct : potential.Nodup) :
    ((offerOrder potential budgets).map Prod.fst).Perm potential := by
  refine ((List.filter_append_perm (fun offer => offer.2) (walkBudgets potential budgets)).map Prod.fst).trans ?_
  rw [walkBudgets_eq distinct, List.map_map]
  exact List.Perm.of_eq (List.map_id potential)

/-- Pods that breach a budget are offered back before those that do not. -/
theorem offerOrder_protected_first :
    (offerOrder potential budgets).Pairwise fun earlier later => later.2 -> earlier.2 := by
  unfold offerOrder
  rw [List.pairwise_append]
  refine ⟨?_, ?_, ?_⟩
  · exact List.pairwise_of_forall_mem_list fun earlier listed _ _ _ => (List.mem_filter.mp listed).2
  · refine List.pairwise_of_forall_mem_list fun _ _ later listed breaches => ?_
    have not := (List.mem_filter.mp listed).2
    rw [breaches] at not
    exact Bool.noConfusion not
  · exact fun earlier listed _ _ _ => (List.mem_filter.mp listed).2

theorem offerOrder_disallowed_first (distinct : potential.Nodup) :
    (offerOrder potential budgets).Pairwise fun earlier later =>
      disallowed budgets potential later.1 -> disallowed budgets potential earlier.1 := by
  refine offerOrder_protected_first.imp_of_mem ?_
  intro earlier later one two sooner breaches
  rw [← offerOrder_flag distinct two] at breaches
  rw [← offerOrder_flag distinct one]
  exact sooner breaches

/-! ## The victims -/

section
variable {fits : List PodInfo -> Bool}

theorem offers_prune (offers : List (PodInfo × Bool)) (state : List PodInfo × List (PodInfo × Bool)) :
    ((offers.foldl (putBack fits) state).1, (offers.foldl (putBack fits) state).2.map Prod.fst) =
        (offers.map Prod.fst).foldl (offerBack PodInfo.uid fits) (state.1, state.2.map Prod.fst) ∧
      (offers.foldl (putBack fits) state).2.Sublist (state.2 ++ offers) := by
  induction offers generalizing state with
  | nil => exact ⟨rfl, by rw [List.append_nil]; exact List.Sublist.refl _⟩
  | cons candidate rest ih =>
    rw [List.foldl_cons, List.map_cons, List.foldl_cons]
    unfold offerBack without putBack
    dsimp only
    split_ifs with spared
    · have ⟨same, part⟩ := ih
        (state.1.filter fun p => p.uid ≠ candidate.1.uid, state.2)
      exact ⟨same, part.trans ((List.sublist_cons_self candidate rest).append_left state.2)⟩
    · have ⟨same, part⟩ := ih (state.1, state.2 ++ [candidate])
      rw [List.map_append] at same
      rw [List.append_assoc] at part
      exact ⟨same, part⟩

theorem selectAmong_some {victims : List (PodInfo × Bool)}
    (selected : selectAmong potential budgets fits = some victims) :
    fits potential ∧ victims ≠ [] ∧ victims.Sublist (offerOrder potential budgets) ∧
      victims.map Prod.fst =
        (prune PodInfo.uid fits potential ((offerOrder potential budgets).map Prod.fst)).2 := by
  unfold selectAmong at selected
  split_ifs at selected with none misfit empty
  have ⟨same, part⟩ := @offers_prune fits (offerOrder potential budgets) (potential, [])
  rw [← Option.some.inj selected]
  refine ⟨by simpa using misfit, fun nothing => empty (List.isEmpty_iff.mpr nothing), part, ?_⟩
  exact congrArg Prod.snd same

/-- When there are no victims, there was nothing to take away, or taking
everything away was not enough, or nothing had to be. -/
theorem selectAmong_none (distinct : (potential.map PodInfo.uid).Nodup)
    (selected : selectAmong potential budgets fits = none) :
    potential = [] ∨ fits potential = false ∨ fits [] = true := by
  unfold selectAmong at selected
  split_ifs at selected with none misfit empty
  · exact Or.inl (List.isEmpty_iff.mp none)
  · exact Or.inr (Or.inl (by simpa using misfit))
  · have once := distinct.of_map PodInfo.uid
    have start : fits potential = true := by simpa using misfit
    have ⟨same, _⟩ := @offers_prune fits (offerOrder potential budgets) (potential, [])
    have spared : (prune PodInfo.uid fits potential ((offerOrder potential budgets).map Prod.fst)).2 = [] := by
      rw [List.isEmpty_iff.mp empty] at same
      exact (congrArg Prod.snd same).symm
    have offered : ((offerOrder potential budgets).map Prod.fst).Perm potential := offerOrder_perm once
    have back := prune_perm distinct offered start
    rw [spared] at back
    have passing := (prune_pruned distinct offered start).passing
    rw [back.eq_nil] at passing
    exact Or.inr (Or.inr passing)

end

/-! ## On a node -/

/-- Removing more pods never hurts.  The test is on the pods that remain. -/
def RemovingHelps (fits : Finset PodInfo -> Bool) : Prop :=
  forall fewer more : Finset PodInfo, fewer ⊆ more -> fits more -> fits fewer

/-- What the victims are, when some are selected. -/
structure Selection (preemptor : PodInfo) (node : Node) (budgets : List PdbState) (potential : List PodInfo)
    (fits : Finset PodInfo -> Bool) (chosen : Victims) (victims : List PodInfo) : Prop where
  some : victims ≠ []
  distinct : victims.Nodup
  keys : chosen.pods = victims.map PodInfo.key
  lower : forall victim, victim ∈ victims -> victim ∈ node.pods ∧ victim.priority < preemptor.priority
  fitting : fits (node.pods.toFinset \ victims.toFinset)
  minimal : RemovingHelps fits -> forall fewer : Finset PodInfo, fewer ⊂ victims.toFinset ->
    fits (node.pods.toFinset \ fewer) = false
  /-- One that a budget protects is needed even when every other that none
  protects is gone. -/
  spared : RemovingHelps fits -> forall victim, victim ∈ victims -> disallowed budgets potential victim ->
    forall removed : Finset PodInfo, victim ∉ removed ->
      (forall other, other ∈ removed -> other ∈ victims ∨ other ∈ potential ∧ disallowed budgets potential other = false) ->
      fits (node.pods.toFinset \ removed) = false
  violations : chosen.pdbViolations = victims.countP fun victim => disallowed budgets potential victim

section
variable {clock : Nat -> Int} {preemptor : PodInfo} {node : Node} {fits : Finset PodInfo -> Bool}

/-- The test on lists of removed pods that a test on the remaining pods makes. -/
def withoutPods (node : Node) (fits : Finset PodInfo -> Bool) (removed : List PodInfo) : Bool :=
  fits (node.pods.toFinset \ removed.toFinset)

theorem withoutPods_mono (helps : RemovingHelps fits) (less more : List PodInfo) (part : less ⊆ more)
    (enough : withoutPods node fits less) : withoutPods node fits more :=
  helps _ _ (Finset.sdiff_subset_sdiff (Finset.Subset.refl _) fun _ listed =>
    List.mem_toFinset.mpr (part (List.mem_toFinset.mp listed))) enough

theorem removable_distinct : ((sortByImportance clock (removable preemptor node)).map PodInfo.uid).Nodup := by
  refine ((sortBy_perm.map PodInfo.uid).nodup_iff).mpr ?_
  exact node.distinct.sublist (List.filter_sublist.map PodInfo.uid)

theorem mem_removable {pod : PodInfo} (listed : pod ∈ sortByImportance clock (removable preemptor node)) :
    pod ∈ node.pods ∧ pod.priority < preemptor.priority := by
  have ⟨held, lower⟩ := List.mem_filter.mp (sortBy_perm.mem_iff.mp listed)
  exact ⟨held, of_decide_eq_true lower⟩

/-- In an order with the protected pods first, whatever comes after an
unprotected one is unprotected, and all unprotected ones come after a
protected one. -/
theorem unprotected_after {pod other : PodInfo} {before after : List PodInfo} (distinct : potential.Nodup)
    (order : (offerOrder potential budgets).map Prod.fst = before ++ pod :: after)
    (protectedOne : disallowed budgets potential pod) (listed : other ∈ potential)
    (free : disallowed budgets potential other = false) : other ∈ after := by
  have first : (before ++ pod :: after).Pairwise fun earlier later =>
      disallowed budgets potential later -> disallowed budgets potential earlier := by
    rw [← order, List.pairwise_map]
    exact offerOrder_disallowed_first distinct
  have somewhere : other ∈ before ++ pod :: after := by
    rw [← order]
    exact (offerOrder_perm distinct).mem_iff.mpr listed
  rcases List.mem_append.mp somewhere with found | found
  · have also := (List.pairwise_append.mp first).2.2 other found pod (.head _) protectedOne
    rw [free] at also
    exact Bool.noConfusion also
  · rcases List.mem_cons.mp found with rfl | found
    · rw [free] at protectedOne
      exact Bool.noConfusion protectedOne
    · exact found

theorem selection_of_some {chosen : Victims}
    (selected : selectVictimsOnNode clock preemptor node budgets (withoutPods node fits) = some chosen) :
    Exists fun victims => Selection preemptor node budgets
      (sortByImportance clock (removable preemptor node)) fits chosen victims := by
  rcases Option.map_eq_some_iff.mp selected with ⟨flagged, among, rfl⟩
  have unique := @removable_distinct clock preemptor node
  have held : forall pod, pod ∈ sortByImportance clock (removable preemptor node) ->
      pod ∈ node.pods ∧ pod.priority < preemptor.priority := fun _ => mem_removable
  generalize sortByImportance clock (removable preemptor node) = potential at *
  have once := unique.of_map PodInfo.uid
  have ⟨start, nonempty, part, victims⟩ := selectAmong_some among
  have offered := @offerOrder_perm budgets _ once
  have pruned := prune_pruned unique offered start
  have same := prune_perm unique offered start
  have known := fun victim => @prune_needed _ _ _ _ _ _ _ victim unique offered start
  rw [← victims] at same known
  have listed : forall victim, victim ∈ flagged.map Prod.fst -> victim ∈ potential :=
    fun victim found => pruned.part.subset (same.mem_iff.mpr found)
  refine ⟨flagged.map Prod.fst, ?_, ?_, ?_, fun victim found => held victim (listed victim found), ?_, ?_, ?_, ?_⟩
  · exact fun nothing => nonempty (List.map_eq_nil_iff.mp nothing)
  · exact same.nodup_iff.mp (once.sublist pruned.part)
  · rw [List.map_map]
    rfl
  · have passing := pruned.passing
    rw [withoutPods, List.toFinset_eq_of_perm _ _ same] at passing
    exact passing
  · intro helps fewer proper
    rcases Finset.exists_of_ssubset proper with ⟨victim, inside, left⟩
    rcases known victim (withoutPods_mono helps) (List.mem_toFinset.mp inside) with ⟨before, after, _, fails⟩
    have failed := fails fewer.toList (fun found => left (Finset.mem_toList.mp found)) fun other found =>
      Or.inl (List.mem_toFinset.mp (proper.subset (Finset.mem_toList.mp found)))
    unfold withoutPods at failed
    rwa [Finset.toList_toFinset] at failed
  · intro helps victim found protectedOne removed left within
    rcases known victim (withoutPods_mono helps) found with ⟨before, after, order, fails⟩
    have failed := fails removed.toList (fun inside => left (Finset.mem_toList.mp inside)) fun other inside =>
      (within other (Finset.mem_toList.mp inside)).imp_right fun free =>
        unprotected_after once order protectedOne free.1 free.2
    unfold withoutPods at failed
    rwa [Finset.toList_toFinset] at failed
  · rw [List.countP_map]
    exact List.countP_congr fun victim found => by
      rw [Function.comp_apply, offerOrder_flag once (part.subset found)]

/-- The victims are enough, and no fewer would do.  Those that a budget
protects are offered back before the others, and the violations are counted
among the victims.  With no victims nothing is evicted. -/
theorem select_victims (clock later : Nat -> Int) (preemptor : PodInfo) (node : Node) (budgets : List PdbState)
    (fits : Finset PodInfo -> Bool) :
    (forall chosen, selectVictimsOnNode clock preemptor node budgets (withoutPods node fits) = some chosen ->
      Exists fun victims => Selection preemptor node budgets
        (sortByImportance clock (removable preemptor node)) fits chosen victims) ∧
    ((offerOrder (sortByImportance clock (removable preemptor node)) budgets).Pairwise fun earlier later =>
      disallowed budgets (sortByImportance clock (removable preemptor node)) later.1 ->
        disallowed budgets (sortByImportance clock (removable preemptor node)) earlier.1) ∧
    (selectVictimsOnNode clock preemptor node budgets (withoutPods node fits) = none ->
      preempt clock later preemptor [node] budgets (fun node => withoutPods node fits) = none ∧
        (removable preemptor node = [] ∨ fits (node.pods.toFinset \ (removable preemptor node).toFinset) = false ∨
          fits node.pods.toFinset)) := by
  have once := (@removable_distinct clock preemptor node).of_map PodInfo.uid
  refine ⟨fun _ => selection_of_some, offerOrder_disallowed_first once, ?_⟩
  intro nobody
  have none := Option.map_eq_none_iff.mp nobody
  constructor
  · unfold preempt
    rw [List.filterMap_cons, nobody]
    rfl
  · have same : (sortByImportance clock (removable preemptor node)).Perm (removable preemptor node) := sortBy_perm
    rcases selectAmong_none removable_distinct none with nothing | misfit | unneeded
    · rw [nothing] at same
      exact Or.inl same.symm.eq_nil
    · unfold withoutPods at misfit
      rw [List.toFinset_eq_of_perm _ _ same] at misfit
      exact Or.inr (Or.inl misfit)
    · unfold withoutPods at unneeded
      rw [List.toFinset_nil, Finset.sdiff_empty] at unneeded
      exact Or.inr (Or.inr unneeded)

end

end Preemption
end NotK8s.Scheduler

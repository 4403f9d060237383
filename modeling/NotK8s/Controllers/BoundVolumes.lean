import NotK8s.Controllers.VolumeBinding

namespace NotK8s.Controllers
namespace Binder

open Library

/-!
# Bindings are exclusive

The store is described by what it keeps, and a change of it by what it leaves
of the claims that were there: their uids do not come back, and what they are
bound to stays.  Whatever a reconcile or a pass over a volume knows is kept by
every such change, so each step is judged by its own write only.
-/

variable {store store' : Store}

/-! ## References -/

theorem refers_iff {pv : PersistentVolume} {pvc : PersistentVolumeClaim} :
    refers pv pvc = true <-> claimedBy pvc.key pv = true ∧ forall uid, claimUid pv = some uid -> uid = pvc.uid := by
  unfold refers
  rw [Bool.and_eq_true, Option.all_eq_true]
  simp only [beq_iff_eq]

theorem claimUid_congr {pv other : PersistentVolume} (same : pv.claimRef = other.claimRef) :
    claimUid pv = claimUid other := by
  rw [claimUid, claimUid, same]

theorem claimedBy_congr {pv other : PersistentVolume} (same : pv.claimRef = other.claimRef) (key : ClaimKey) :
    claimedBy key pv = claimedBy key other := by
  rw [claimedBy, claimedBy, same]

theorem refers_congr {pv other : PersistentVolume} (same : pv.claimRef = other.claimRef)
    (pvc : PersistentVolumeClaim) : refers pv pvc = refers other pvc := by
  rw [refers, refers, claimUid_congr same, claimedBy_congr same]

theorem claimedBy_unique {pv : PersistentVolume} {key key' : ClaimKey} (first : claimedBy key pv = true)
    (second : claimedBy key' pv = true) : key = key' := by
  rcases (Option.any_eq_true _ _).mp first with ⟨r, isRef, named⟩
  rcases (Option.any_eq_true _ _).mp second with ⟨r', isRef', named'⟩
  rw [isRef] at isRef'
  cases isRef'
  rw [Bool.and_eq_true, beq_iff_eq, beq_iff_eq] at named named'
  have sameNamespace := Option.some.inj (named.1.symm.trans named'.1)
  have sameName := Option.some.inj (named.2.symm.trans named'.2)
  exact congrArg toLex (Prod.ext sameNamespace sameName)

theorem claimedBy_iff_pvClaimRef {pv : PersistentVolume} {key : ClaimKey} :
    claimedBy key pv = true <-> pvClaimRef pv = some (key, claimUid pv) := by
  unfold claimedBy pvClaimRef claimUid
  cases pv.claimRef with
  | none => simp
  | some r =>
    rcases r with ⟨inNamespace, name, uid⟩
    cases inNamespace with
    | none => simp
    | some inNamespace =>
      cases name with
      | none => simp
      | some name =>
        simp only [Option.any_some, Option.bind_some, Option.map_some, Option.some.injEq, Prod.mk.injEq,
          Bool.and_eq_true, beq_iff_eq, and_true]
        constructor
        · rintro ⟨sameNamespace, sameName⟩
          rw [sameNamespace, sameName]
          rfl
        · intro same
          rw [<- same]
          exact ⟨rfl, rfl⟩

/-! ## What the store keeps -/

/-- The uid was given out to a claim of this key. -/
def Known (store : Store) (pvc : PersistentVolumeClaim) : Prop :=
  Exists fun asked => store.origin pvc.uid = some (pvc.key, asked)

structure Core (store : Store) : Prop where
  claims : forall key pvc, store.claims.get key = some pvc -> key = pvc.key ∧ Known store pvc
  volumes : forall name pv, store.volumes.get name = some pv -> name = pv.name ∧ pv ∈ store.volumeVersions
  numbered : forall pv, pv ∈ store.volumeVersions -> pv.resourceVersion ≤ store.revision
  distinct : forall pv other, pv ∈ store.volumeVersions -> other ∈ store.volumeVersions ->
    pv.resourceVersion = other.resourceVersion -> pv = other
  refs : forall pv uid, pv ∈ store.volumeVersions -> claimUid pv = some uid ->
    Exists fun origin => store.origin uid = some origin ∧ claimedBy origin.1 pv = true
  origins : forall uid origin, store.origin uid = some origin -> uid ≤ store.revision
  exclusive : forall name other pv pv' uid, store.volumes.get name = some pv -> store.volumes.get other = some pv' ->
    claimUid pv = some uid -> claimUid pv' = some uid -> name = other
  remembered : forall pv key pvc, pv ∈ store.volumeVersions -> store.claims.get key = some pvc ->
    claimUid pv = some pvc.uid ->
      Exists fun stored => store.volumes.get pv.name = some stored ∧ claimUid stored = some pvc.uid
  claimVersions : forall pvc, pvc ∈ store.claimVersions -> Known store pvc

/-- Nothing is forgotten, and a claim whose uid was known is one that was
there, bound to what it was bound to. -/
structure Extends (store store' : Store) : Prop where
  versions : forall pv, pv ∈ store.volumeVersions -> pv ∈ store'.volumeVersions
  origin : forall uid origin, store.origin uid = some origin -> store'.origin uid = some origin
  claims : forall key pvc, store'.claims.get key = some pvc -> (store.origin pvc.uid).isSome = true ->
    Exists fun old => store.claims.get key = some old ∧ old.uid = pvc.uid ∧
      (bound store old = true -> bound store' pvc = true)

theorem Known.extends {pvc : PersistentVolumeClaim} (known : Known store pvc) (grown : Extends store store') :
    Known store' pvc := by
  rcases known with ⟨asked, given⟩
  exact ⟨asked, grown.origin _ _ given⟩

theorem Known.isSome {pvc : PersistentVolumeClaim} (known : Known store pvc) :
    (store.origin pvc.uid).isSome = true := by
  rcases known with ⟨asked, given⟩
  rw [given]
  rfl

theorem Core.claimedBy_of_uid (core : Core store) {pv : PersistentVolume} {pvc : PersistentVolumeClaim}
    (seen : pv ∈ store.volumeVersions) (known : Known store pvc) (carries : claimUid pv = some pvc.uid) :
    claimedBy pvc.key pv = true := by
  rcases core.refs pv pvc.uid seen carries with ⟨origin, given, named⟩
  rcases known with ⟨asked, own⟩
  rw [own] at given
  cases given
  exact named

theorem Core.refers_of_uid (core : Core store) {pv : PersistentVolume} {pvc : PersistentVolumeClaim}
    (seen : pv ∈ store.volumeVersions) (known : Known store pvc) (carries : claimUid pv = some pvc.uid) :
    refers pv pvc = true := by
  refine refers_iff.mpr ⟨core.claimedBy_of_uid seen known carries, ?_⟩
  intro uid isUid
  exact Option.some.inj (isUid.symm.trans carries)

theorem Core.exclusive_store (core : Core store) : Exclusive store := by
  rintro ⟨name, pv⟩ stored ⟨other, pv'⟩ stored' carries same
  rcases Option.isSome_iff_exists.mp carries with ⟨uid, isUid⟩
  exact core.exclusive name other pv pv' uid (SortedMap.mem_entries.mp stored) (SortedMap.mem_entries.mp stored')
    isUid (same ▸ isUid)

theorem unreferred_iff {pv : PersistentVolume} :
    Unreferred store pv <-> forall key pvc, store.claims.get key = some pvc -> refers pv pvc = false :=
  ⟨fun unreferred key pvc stored => unreferred (key, pvc) (SortedMap.mem_entries.mpr stored),
    fun each entry member => each entry.1 entry.2 (SortedMap.mem_entries.mp member)⟩

/-! ## Changes of the volumes -/

/-- The new version may carry its uid, and drops no claimRef to a claim that exists. -/
structure Admissible (store : Store) (pv : PersistentVolume) : Prop where
  refs : RefMet store pv
  keeps : forall stored, store.volumes.get pv.name = some stored ->
    pv.claimRef = stored.claimRef ∨ Unreferred store stored

theorem admissible_of_same (core : Core store) {name : String} {pv stored : PersistentVolume}
    (isStored : store.volumes.get name = some stored) (sameName : pv.name = stored.name)
    (sameRef : pv.claimRef = stored.claimRef) : Admissible store pv := by
  rcases core.volumes name stored isStored with ⟨isName, seen⟩
  rw [sameName.symm] at isName
  constructor
  · intro uid carries
    rw [claimUid_congr sameRef] at carries
    rcases core.refs stored uid seen carries with ⟨origin, given, named⟩
    refine ⟨⟨origin, given, by rwa [claimedBy_congr sameRef]⟩, ?_⟩
    intro entry member carries'
    have same := core.exclusive entry.1 name entry.2 stored uid (SortedMap.mem_entries.mp member) isStored carries' carries
    exact same.trans isName
  · intro other isOther
    rw [<- isName, isStored] at isOther
    cases isOther
    exact Or.inl sameRef

section
variable {pv : PersistentVolume}

@[simp] theorem claimUid_nextVersion : claimUid (store.nextVersion pv) = claimUid pv := rfl

@[simp] theorem refers_nextVersion (pvc : PersistentVolumeClaim) :
    refers (store.nextVersion pv) pvc = refers pv pvc := rfl

theorem get_storeVolume (name : String) : (store.storeVolume pv).volumes.get name =
    if name = pv.name then some (store.nextVersion pv) else store.volumes.get name :=
  SortedMap.get_insert

theorem mem_storeVolume (other : PersistentVolume) : other ∈ (store.storeVolume pv).volumeVersions <->
    other ∈ store.volumeVersions ∨ other = store.nextVersion pv := by
  unfold Store.storeVolume
  rw [List.mem_append, List.mem_singleton]

theorem nextVersion_seen (store : Store) (pv : PersistentVolume) :
    store.nextVersion pv ∈ (store.storeVolume pv).volumeVersions :=
  (mem_storeVolume _).mpr (Or.inr rfl)

theorem storeVolume_bound (admissible : Admissible store pv) {key : ClaimKey} {pvc : PersistentVolumeClaim}
    (isStored : store.claims.get key = some pvc) (isBound : bound store pvc = true) :
    bound (store.storeVolume pv) pvc = true := by
  unfold bound at isBound ⊢
  rcases (Option.any_eq_true _ _).mp isBound with ⟨volume, found, isReferred⟩
  rcases Option.bind_eq_some_iff.mp found with ⟨name, isName, isVolume⟩
  rw [isName, Option.bind_some, get_storeVolume]
  split
  · next same =>
      rw [same] at isVolume
      rcases admissible.keeps volume isVolume with sameRef | unreferred
      · rw [Option.any_some, refers_nextVersion, refers_congr sameRef]
        exact isReferred
      · rw [unreferred_iff.mp unreferred key pvc isStored] at isReferred
        cases isReferred
  · rw [isVolume]
    exact isReferred

theorem storeVolume_extends (admissible : Admissible store pv) : Extends store (store.storeVolume pv) where
  versions := fun other member => (mem_storeVolume other).mpr (Or.inl member)
  origin := fun _ _ given => given
  claims := fun key pvc stored _ => ⟨pvc, stored, rfl, storeVolume_bound admissible stored⟩

theorem storeVolume_core (core : Core store) (admissible : Admissible store pv) : Core (store.storeVolume pv) where
  claims := core.claims
  volumes := by
    intro name volume stored
    rw [get_storeVolume] at stored
    split at stored
    · next same =>
        cases stored
        exact ⟨same, nextVersion_seen store pv⟩
    · rcases core.volumes name volume stored with ⟨isName, seen⟩
      exact ⟨isName, (mem_storeVolume volume).mpr (Or.inl seen)⟩
  numbered := by
    intro volume seen
    rcases (mem_storeVolume volume).mp seen with before | new
    · exact (core.numbered volume before).trans (Nat.le_succ _)
    · rw [new]
      exact le_refl _
  distinct := by
    -- An older version has a smaller number than the new one.
    have older : forall volume, volume ∈ store.volumeVersions ->
        volume.resourceVersion ≠ (store.nextVersion pv).resourceVersion := by
      intro volume before
      have below := core.numbered volume before
      exact Nat.ne_of_lt (Nat.lt_succ_of_le below)
    intro volume other seen seen' same
    rcases (mem_storeVolume volume).mp seen with before | new
    · rcases (mem_storeVolume other).mp seen' with before' | new'
      · exact core.distinct volume other before before' same
      · rw [new'] at same
        exact absurd same (older volume before)
    · rcases (mem_storeVolume other).mp seen' with before' | new'
      · rw [new] at same
        exact absurd same.symm (older other before')
      · exact new.trans new'.symm
  refs := by
    intro volume uid seen carries
    rcases (mem_storeVolume volume).mp seen with before | new
    · exact core.refs volume uid before carries
    · rw [new, claimUid_nextVersion] at carries
      rcases (admissible.refs uid carries).1 with ⟨origin, given, named⟩
      rw [new]
      exact ⟨origin, given, named⟩
  origins := fun uid origin given => (core.origins uid origin given).trans (Nat.le_succ _)
  exclusive := by
    have apart : forall name volume uid, store.volumes.get name = some volume -> claimUid volume = some uid ->
        claimUid pv = some uid -> name = pv.name := by
      intro name volume uid stored carries carried
      exact (admissible.refs uid carried).2 (name, volume) (SortedMap.mem_entries.mpr stored) carries
    intro name other volume volume' uid stored stored' carries carries'
    rw [get_storeVolume] at stored stored'
    split at stored
    · next same =>
        cases stored
        split at stored'
        · next same' => exact same.trans same'.symm
        · exact same.trans (apart other volume' uid stored' carries' carries).symm
    · split at stored'
      · next same' =>
          cases stored'
          exact (apart name volume uid stored carries carries').trans same'.symm
      · exact core.exclusive name other volume volume' uid stored stored' carries carries'
  remembered := by
    intro volume key pvc seen isClaim carries
    have known := (core.claims key pvc isClaim).2
    rcases (mem_storeVolume volume).mp seen with before | new
    · rcases core.remembered volume key pvc before isClaim carries with ⟨stored, isStored, carried⟩
      rw [get_storeVolume]
      split
      · next same =>
          rw [same] at isStored
          refine ⟨store.nextVersion pv, rfl, ?_⟩
          rcases admissible.keeps stored isStored with sameRef | unreferred
          · rw [claimUid_nextVersion, claimUid_congr sameRef, carried]
          · have seenStored := (core.volumes _ stored isStored).2
            have isReferred := core.refers_of_uid seenStored known carried
            rw [unreferred_iff.mp unreferred key pvc isClaim] at isReferred
            cases isReferred
      · exact ⟨stored, isStored, carried⟩
    · rw [new] at carries ⊢
      rw [get_storeVolume]
      exact ⟨store.nextVersion pv, if_pos rfl, carries⟩
  claimVersions := core.claimVersions

end

section
variable {name : String}

theorem get_deleteVolume (other : String) : (store.deleteVolume name).volumes.get other =
    if other = name then none else store.volumes.get other :=
  SortedMap.get_erase

theorem deleteVolume_kept {volume : PersistentVolume} {other : String}
    (stored : (store.deleteVolume name).volumes.get other = some volume) : store.volumes.get other = some volume := by
  rw [get_deleteVolume] at stored
  split at stored
  · cases stored
  · exact stored

theorem deleteVolume_core (core : Core store)
    (unreferred : forall stored, store.volumes.get name = some stored -> Unreferred store stored) :
    Core (store.deleteVolume name) where
  __ := core
  volumes := fun other volume stored => core.volumes other volume (deleteVolume_kept stored)
  exclusive := fun first second volume volume' uid stored stored' =>
    core.exclusive first second volume volume' uid (deleteVolume_kept stored) (deleteVolume_kept stored')
  remembered := by
    intro volume key pvc seen isClaim carries
    rcases core.remembered volume key pvc seen isClaim carries with ⟨stored, isStored, carried⟩
    rw [get_deleteVolume]
    split
    · next same =>
        rw [same] at isStored
        have isReferred := core.refers_of_uid (core.volumes _ stored isStored).2 (core.claims key pvc isClaim).2 carried
        rw [unreferred_iff.mp (unreferred stored isStored) key pvc isClaim] at isReferred
        cases isReferred
    · exact ⟨stored, isStored, carried⟩

theorem deleteVolume_extends
    (unreferred : forall stored, store.volumes.get name = some stored -> Unreferred store stored) :
    Extends store (store.deleteVolume name) where
  versions := fun _ member => member
  origin := fun _ _ given => given
  claims := by
    intro key pvc isClaim _
    refine ⟨pvc, isClaim, rfl, ?_⟩
    intro isBound
    unfold bound at isBound ⊢
    rcases (Option.any_eq_true _ _).mp isBound with ⟨volume, found, isReferred⟩
    rcases Option.bind_eq_some_iff.mp found with ⟨other, isName, isVolume⟩
    rw [isName, Option.bind_some, get_deleteVolume]
    split
    · next same =>
        rw [same] at isVolume
        rw [unreferred_iff.mp (unreferred volume isVolume) key pvc isClaim] at isReferred
        cases isReferred
    · rw [isVolume]
      exact isReferred

end

/-! ## Changes of the claims -/

section
variable {pvc stored : PersistentVolumeClaim}

theorem get_storeClaim (key : ClaimKey) : (store.storeClaim pvc).claims.get key =
    if key = pvc.key then some pvc else store.claims.get key :=
  SortedMap.get_insert

theorem storeClaim_core (core : Core store) (isStored : store.claims.get pvc.key = some stored)
    (sameUid : pvc.uid = stored.uid) : Core (store.storeClaim pvc) where
  claims := by
    intro key claim isClaim
    rw [get_storeClaim] at isClaim
    split at isClaim
    · next same =>
        cases isClaim
        refine ⟨same, ?_⟩
        rcases core.claims _ stored isStored with ⟨isKey, asked, given⟩
        exact ⟨asked, by rw [isKey, sameUid]; exact given⟩
    · exact core.claims key claim isClaim
  __ := core
  remembered := by
    intro volume key claim seen isClaim carries
    rw [get_storeClaim] at isClaim
    split at isClaim
    · cases isClaim
      rw [sameUid] at carries ⊢
      exact core.remembered volume _ stored seen isStored carries
    · exact core.remembered volume key claim seen isClaim carries
  claimVersions := by
    intro claim seen
    rcases List.mem_append.mp seen with before | new
    · exact core.claimVersions claim before
    · rw [List.mem_singleton.mp new]
      rcases core.claims _ stored isStored with ⟨isKey, asked, given⟩
      exact ⟨asked, by rw [isKey, sameUid]; exact given⟩

theorem storeClaim_extends (isStored : store.claims.get pvc.key = some stored) (sameUid : pvc.uid = stored.uid)
    (stays : bound store stored = true -> bound store pvc = true) : Extends store (store.storeClaim pvc) where
  versions := fun _ member => member
  origin := fun _ _ given => given
  claims := by
    intro key claim isClaim _
    rw [get_storeClaim] at isClaim
    split at isClaim
    · next same =>
        cases isClaim
        rw [same]
        exact ⟨stored, isStored, sameUid.symm, stays⟩
    · exact ⟨claim, isClaim, rfl, id⟩

theorem deleteClaim_core (core : Core store) (key : ClaimKey) : Core (store.deleteClaim key) := by
  have kept : forall other claim, (store.deleteClaim key).claims.get other = some claim ->
      store.claims.get other = some claim := by
    intro other claim isClaim
    unfold Store.deleteClaim at isClaim
    rw [SortedMap.get_erase] at isClaim
    split at isClaim
    · cases isClaim
    · exact isClaim
  exact {
    claims := fun other claim isClaim => core.claims other claim (kept other claim isClaim)
    volumes := core.volumes
    numbered := core.numbered
    distinct := core.distinct
    refs := core.refs
    origins := core.origins
    exclusive := core.exclusive
    remembered := fun volume other claim seen isClaim =>
      core.remembered volume other claim seen (kept other claim isClaim)
    claimVersions := core.claimVersions }

theorem deleteClaim_extends (key : ClaimKey) : Extends store (store.deleteClaim key) where
  versions := fun _ member => member
  origin := fun _ _ given => given
  claims := by
    intro other claim isClaim _
    unfold Store.deleteClaim at isClaim
    rw [SortedMap.get_erase] at isClaim
    split at isClaim
    · cases isClaim
    · exact ⟨claim, isClaim, rfl, id⟩

theorem Core.fresh (core : Core store) : store.origin (store.revision + 1) = none := by
  cases given : store.origin (store.revision + 1) with
  | none => rfl
  | some origin => exact absurd (core.origins _ _ given) (Nat.not_succ_le_self _)

theorem get_register (uid : Nat) : (store.register pvc).origin uid =
    if uid = store.revision + 1 then some (pvc.key, pvc.volumeName.filter (· != "")) else store.origin uid :=
  Function.update_apply _ _ _ _

theorem register_origin (core : Core store) {uid : Nat} {origin : ClaimKey × Option String}
    (given : store.origin uid = some origin) : (store.register pvc).origin uid = some origin := by
  rw [get_register, if_neg]
  · exact given
  · intro same
    rw [same, core.fresh] at given
    cases given

theorem register_known (core : Core store) {claim : PersistentVolumeClaim} (known : Known store claim) :
    Known (store.register pvc) claim := by
  rcases known with ⟨asked, given⟩
  exact ⟨asked, register_origin core given⟩

theorem createClaim_known : Known (store.createClaim pvc) { pvc with uid := store.revision + 1 } :=
  ⟨pvc.volumeName.filter (· != ""), Function.update_self _ _ _⟩

theorem createClaim_core (core : Core store) : Core (store.createClaim pvc) where
  claims := by
    intro key claim isClaim
    unfold Store.createClaim at isClaim
    rw [get_storeClaim] at isClaim
    split at isClaim
    · next same =>
        cases isClaim
        exact ⟨same, createClaim_known⟩
    · rcases core.claims key claim isClaim with ⟨isKey, known⟩
      exact ⟨isKey, register_known core known⟩
  __ := core
  numbered := fun volume seen => (core.numbered volume seen).trans (Nat.le_succ _)
  refs := by
    intro volume uid seen carries
    rcases core.refs volume uid seen carries with ⟨origin, given, named⟩
    exact ⟨origin, register_origin core given, named⟩
  origins := by
    intro uid origin given
    change (store.register pvc).origin uid = some origin at given
    rw [get_register] at given
    split at given
    · next same => exact same.le
    · exact (core.origins uid origin given).trans (Nat.le_succ _)
  remembered := by
    intro volume key claim seen isClaim carries
    unfold Store.createClaim at isClaim
    rw [get_storeClaim] at isClaim
    split at isClaim
    · -- No version carries the new uid.
      cases isClaim
      rcases core.refs volume _ seen carries with ⟨origin, given, _⟩
      rw [core.fresh] at given
      cases given
    · exact core.remembered volume key claim seen isClaim carries
  claimVersions := by
    intro claim seen
    rcases List.mem_append.mp seen with before | new
    · exact register_known core (core.claimVersions claim before)
    · rw [List.mem_singleton.mp new]
      exact createClaim_known

theorem createClaim_extends (core : Core store) : Extends store (store.createClaim pvc) where
  versions := fun _ member => member
  origin := fun _ _ given => register_origin core given
  claims := by
    intro key claim isClaim known
    unfold Store.createClaim at isClaim
    rw [get_storeClaim] at isClaim
    split at isClaim
    · cases isClaim
      rw [core.fresh] at known
      cases known
    · exact ⟨claim, isClaim, rfl, id⟩

end

end Binder
end NotK8s.Controllers

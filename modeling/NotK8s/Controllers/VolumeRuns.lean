import NotK8s.Controllers.BoundVolumes

namespace NotK8s.Controllers
namespace Binder

open Library

/-!
# Runs of the binder

A reconcile knows that its claim's uid was given out, that its copies were
stored once, and what its next write rests on.
-/

variable {store store' : Store} {s : Cluster}

/-! ## What a reconcile knows -/

def PendingKnown (store : Store) (r : Reconcile) : Pending -> Prop
  | .requestProvisioning _ => True
  | .claimVolume pv =>
    pv ∈ store.volumeVersions ∧ pv.claimRef = none ∧
      forall other, other ∈ r.pvs -> claimedBy r.pvc.key other = false
  | .setVolumeName pv => pv ∈ store.volumeVersions ∧ claimedBy r.pvc.key pv = true
  | .claimStatus _ | .volumeStatus _ | .bindCompleted _ =>
    forall pvc, store.claims.get r.pvc.key = some pvc -> pvc.uid = r.pvc.uid -> bound store pvc = true

structure ReconcileKnown (store : Store) (r : Reconcile) : Prop where
  pvc : Known store r.pvc
  seen : forall pv, pv ∈ r.pvs -> pv ∈ store.volumeVersions
  pending : PendingKnown store r r.pending

/-- What a pass over a volume knows.  A claim that it found gone stays so. -/
structure ReclaimKnown (store : Store) (t : Reclaim) : Prop where
  first : t.first ∈ store.volumeVersions
  pv : t.pv ∈ store.volumeVersions
  complete : Exists fun key => claimedBy key t.first = true
  gone : t.stage ≠ .readClaim -> forall uid, claimUid t.first = some uid ->
    forall key pvc, store.claims.get key = some pvc -> pvc.uid ≠ uid
  listed : t.stage = .markReleased ∨ t.stage = .deleteVolume ->
    forall pvc, pvc ∈ t.claims -> pvc.volumeName ≠ some t.first.name

theorem PendingKnown.extends {r : Reconcile} {pending : Pending} (pvc : Known store r.pvc)
    (known : PendingKnown store r pending) (grown : Extends store store') : PendingKnown store' r pending := by
  -- A claim of this uid was there before, bound.
  have kept : (forall pvc, store.claims.get r.pvc.key = some pvc -> pvc.uid = r.pvc.uid -> bound store pvc = true) ->
      forall pvc, store'.claims.get r.pvc.key = some pvc -> pvc.uid = r.pvc.uid -> bound store' pvc = true := by
    intro each claim isClaim same
    rcases grown.claims _ claim isClaim (by rw [same]; exact pvc.isSome) with ⟨old, isOld, sameUid, stays⟩
    exact stays (each old isOld (sameUid.trans same))
  cases pending with
  | requestProvisioning provisioner => exact True.intro
  | claimVolume pv =>
    rcases known with ⟨seen, rest⟩
    exact ⟨grown.versions pv seen, rest⟩
  | setVolumeName pv =>
    rcases known with ⟨seen, claimed⟩
    exact ⟨grown.versions pv seen, claimed⟩
  | claimStatus pvName | volumeStatus pvName | bindCompleted pvName => exact kept known

theorem ReconcileKnown.extends {r : Reconcile} (known : ReconcileKnown store r) (grown : Extends store store') :
    ReconcileKnown store' r where
  pvc := known.pvc.extends grown
  seen := fun pv member => grown.versions pv (known.seen pv member)
  pending := known.pending.extends known.pvc grown

theorem ReclaimKnown.extends {t : Reclaim} (core : Core store) (known : ReclaimKnown store t)
    (grown : Extends store store') : ReclaimKnown store' t where
  first := grown.versions _ known.first
  pv := grown.versions _ known.pv
  complete := known.complete
  gone := by
    intro later uid carries key pvc isClaim same
    rcases core.refs t.first uid known.first carries with ⟨origin, given, _⟩
    rcases grown.claims key pvc isClaim (by rw [same, given]; rfl) with ⟨old, isOld, sameUid, _⟩
    exact known.gone later uid carries key old isOld (sameUid.trans same)
  listed := known.listed

/-! ## What the binder keeps -/

structure Sound (s : Cluster) : Prop where
  core : Core s.toStore
  cachedVolumes : forall name pv, s.cache.pvs.get name = some pv -> pv ∈ s.volumeVersions
  cachedClaims : forall key pvc, s.cache.claims.get key = some pvc -> key = pvc.key ∧ Known s.toStore pvc
  reconciles : forall worker r, s.reconciles worker = some r -> ReconcileKnown s.toStore r
  reclaims : forall worker t, s.reclaims worker = some t -> ReclaimKnown s.toStore t

theorem sound_start : Sound start where
  core := {
    claims := fun _ _ stored => nomatch stored
    volumes := fun _ _ stored => nomatch stored
    numbered := fun _ seen => nomatch seen
    distinct := fun _ _ seen => nomatch seen
    refs := fun _ _ seen => nomatch seen
    origins := fun _ _ given => nomatch given
    exclusive := fun _ _ _ _ _ stored => nomatch stored
    remembered := fun _ _ _ seen => nomatch seen
    claimVersions := fun _ seen => nomatch seen }
  cachedVolumes := fun _ _ cached => nomatch cached
  cachedClaims := fun _ _ cached => nomatch cached
  reconciles := fun _ _ pending => nomatch pending
  reclaims := fun _ _ pending => nomatch pending

section

variable (sound : Sound s)
include sound

theorem Sound.withStore (core : Core store') (grown : Extends s.toStore store') :
    Sound (s.withStore store') where
  core := core
  cachedVolumes := fun name pv cached => grown.versions pv (sound.cachedVolumes name pv cached)
  cachedClaims := by
    intro key pvc cached
    rcases sound.cachedClaims key pvc cached with ⟨isKey, known⟩
    exact ⟨isKey, known.extends grown⟩
  reconciles := fun worker r pending => (sound.reconciles worker r pending).extends grown
  reclaims := fun worker t pending => (sound.reclaims worker t pending).extends sound.core grown

theorem Sound.setReconcile (worker : Nat) (next : Option Reconcile)
    (known : forall r, next = some r -> ReconcileKnown s.toStore r) : Sound (s.setReconcile worker next) where
  __ := sound
  reconciles := (Function.forall_update_iff _ fun _ pending => forall r, pending = some r -> ReconcileKnown s.toStore r).mpr
    ⟨known, fun other _ => sound.reconciles other⟩

theorem Sound.endReconcile (worker : Nat) : Sound (s.setReconcile worker none) :=
  sound.setReconcile worker none fun _ none_ => nomatch none_

theorem Sound.setReclaim (worker : Nat) (next : Option Reclaim)
    (known : forall t, next = some t -> ReclaimKnown s.toStore t) : Sound (s.setReclaim worker next) where
  __ := sound
  reclaims := (Function.forall_update_iff _ fun _ pending => forall t, pending = some t -> ReclaimKnown s.toStore t).mpr
    ⟨known, fun other _ => sound.reclaims other⟩

theorem Sound.endReclaim (worker : Nat) : Sound (s.setReclaim worker none) :=
  sound.setReclaim worker none fun _ none_ => nomatch none_

theorem Sound.withCache (cache : BinderState) (queue : List String)
    (volumes : forall name pv, cache.pvs.get name = some pv -> pv ∈ s.volumeVersions)
    (claims : forall key pvc, cache.claims.get key = some pvc -> key = pvc.key ∧ Known s.toStore pvc) :
    Sound { s with cache := cache, reclaimQueue := queue } where
  __ := sound
  cachedVolumes := volumes
  cachedClaims := claims

theorem Sound.cache_insert {pv : PersistentVolume} (seen : pv ∈ s.volumeVersions) :
    forall name cached, (s.cache.pvs.insert pv.name pv).get name = some cached -> cached ∈ s.volumeVersions := by
  intro name cached isCached
  rw [SortedMap.get_insert] at isCached
  split at isCached
  · cases isCached
    exact seen
  · exact sound.cachedVolumes name cached isCached

theorem Sound.cacheBound (r : Reconcile) (seen : forall pv, pv ∈ r.pvs -> pv ∈ s.volumeVersions) :
    Sound (s.cacheBound r) := by
  unfold Cluster.cacheBound
  split
  · exact sound
  · next pv found =>
      exact sound.withCache _ _ (sound.cache_insert (seen pv (List.mem_of_find?_eq_some found))) sound.cachedClaims

theorem Sound.continue_ (worker : Nat) (heard : Bool) {next : Reconcile}
    (known : ReconcileKnown s.toStore next) : Sound (s.continue_ worker heard next) := by
  apply sound.setReconcile
  intro r isNext
  cases heard with
  | false => cases isNext
  | true =>
    cases isNext
    exact known

theorem Sound.finish (worker : Nat) (heard : Bool) {r : Reconcile}
    (seen : forall pv, pv ∈ r.pvs -> pv ∈ s.volumeVersions) : Sound (s.finish worker heard r) := by
  cases heard with
  | false => exact sound.endReconcile worker
  | true => exact (sound.cacheBound r seen).endReconcile worker

/-! ## Writes that keep uids, keys and references -/

theorem Sound.storeClaim_same {key : ClaimKey} {stored : PersistentVolumeClaim}
    (isStored : s.claims.get key = some stored) (pvc : PersistentVolumeClaim) (sameKey : pvc.key = stored.key) (sameUid : pvc.uid = stored.uid)
    (sameVolume : pvc.volumeName = stored.volumeName) :
    Core (s.storeClaim pvc) ∧ Extends s.toStore (s.storeClaim pvc) := by
  have isKey := (sound.core.claims key stored isStored).1
  have here : s.claims.get pvc.key = some stored := by rw [sameKey, <- isKey]; exact isStored
  have stays : bound s.toStore stored = true -> bound s.toStore pvc = true := by
    intro isBound
    unfold bound refers at isBound ⊢
    rw [sameVolume, sameKey, sameUid]
    exact isBound
  exact ⟨storeClaim_core sound.core here sameUid, storeClaim_extends here sameUid stays⟩

theorem Sound.storeVolume_same {name : String} {stored : PersistentVolume}
    (isStored : s.volumes.get name = some stored) (pv : PersistentVolume) (sameName : pv.name = stored.name)
    (sameRef : pv.claimRef = stored.claimRef) :
    Core (s.storeVolume pv) ∧ Extends s.toStore (s.storeVolume pv) := by
  have admissible := admissible_of_same sound.core isStored sameName sameRef
  exact ⟨storeVolume_core sound.core admissible, storeVolume_extends admissible⟩

/-! ## The writes of a reconcile -/

end

section
variable {r : Reconcile}

/-- The volume that is claimed is the unclaimed one that was chosen, and no
other carries the uid. -/
theorem claimVolume_admissible (sound : Sound s) (known : ReconcileKnown s.toStore r) {pv stored : PersistentVolume}
    (chosen : PendingKnown s.toStore r (.claimVolume pv)) (met : WriteMet s.toStore r (.claimVolume pv))
    (isStored : s.volumes.get pv.name = some stored) (current : stored.resourceVersion = pv.resourceVersion)
    (annotations : SortedMap String String) :
    Admissible s.toStore { stored with annotations := annotations, claimRef := some (Cluster.claimRefTo r.pvc) } := by
  rcases chosen with ⟨seen, unclaimed, alone⟩
  rcases sound.core.volumes _ stored isStored with ⟨isName, seenStored⟩
  have same := sound.core.distinct stored pv seenStored seen current
  constructor
  · intro uid carries
    cases carries
    rcases known.pvc with ⟨asked, given⟩
    refine ⟨⟨_, given, ?_⟩, ?_⟩
    · exact Bool.and_eq_true_iff.mpr ⟨beq_self_eq_true _, beq_self_eq_true _⟩
    · intro entry member carries
      have seenEntry := (sound.core.volumes _ _ (SortedMap.mem_entries.mp member)).2
      have claimed := sound.core.claimedBy_of_uid seenEntry known.pvc carries
      rcases met entry member claimed with ⟨shown, isShown, shownClaimed⟩
      rw [alone shown isShown] at shownClaimed
      cases shownClaimed
  · intro other isOther
    refine Or.inr (unreferred_iff.mpr ?_)
    intro key pvc _
    rw [<- isName, isStored] at isOther
    cases isOther
    unfold refers claimedBy
    rw [same, unclaimed]
    rfl

theorem setVolumeName_refers (sound : Sound s) {pv : PersistentVolume} {pvc : PersistentVolumeClaim}
    (known : PendingKnown s.toStore r (.setVolumeName pv)) (met : WriteMet s.toStore r (.setVolumeName pv))
    (isClaim : s.claims.get r.pvc.key = some pvc) :
    Exists fun stored => s.volumes.get pv.name = some stored ∧ refers stored pvc = true := by
  rcases known with ⟨seen, claimed⟩
  rcases met pvc isClaim with ⟨sameUid, _, carries | ⟨carriesNone, stillStored⟩⟩
  · rw [<- sameUid] at carries
    rcases sound.core.remembered pv _ pvc seen isClaim carries with ⟨stored, isStored, carried⟩
    have seenStored := (sound.core.volumes _ stored isStored).2
    exact ⟨stored, isStored, sound.core.refers_of_uid seenStored (sound.core.claims _ pvc isClaim).2 carried⟩
  · rcases Option.map_eq_some_iff.mp stillStored with ⟨stored, isStored, sameRef⟩
    have isKey := (sound.core.claims _ pvc isClaim).1
    refine ⟨stored, isStored, refers_iff.mpr ⟨?_, ?_⟩⟩
    · rw [claimedBy_congr sameRef, <- isKey]
      exact claimed
    · intro uid carries
      rw [claimUid_congr sameRef, carriesNone] at carries
      cases carries

theorem writeRespects_of_met (sound : Sound s) (known : ReconcileKnown s.toStore r)
    (met : WriteMet s.toStore r r.pending) : WriteRespects s.toStore r r.pending := by
  have pending := known.pending
  cases isPending : r.pending with
  | requestProvisioning provisioner | claimVolume pv | claimStatus pvName | volumeStatus pvName => exact True.intro
  | setVolumeName pv =>
    rw [isPending] at pending met
    intro pvc isClaim
    rcases setVolumeName_refers sound pending met isClaim with ⟨stored, isStored, isReferred⟩
    refine ⟨?_, (met pvc isClaim).2.1⟩
    intro other isOther uid carries
    cases isStored.symm.trans isOther
    exact (refers_iff.mp isReferred).2 uid carries
  | bindCompleted pvName =>
    rw [isPending] at pending met
    intro pvc isClaim
    exact pending pvc isClaim (met pvc isClaim)

theorem sound_write (sound : Sound s) (worker : Nat) (heard : Bool) (known : ReconcileKnown s.toStore r)
    (met : WriteMet s.toStore r r.pending) : Sound (s.write worker heard r) := by
  have pending := known.pending
  unfold Cluster.write
  cases isPending : r.pending with
  | requestProvisioning provisioner =>
    cases isStored : s.claims.get r.pvc.key with
    | none => exact sound.endReconcile worker
    | some stored =>
      rcases sound.storeClaim_same isStored { stored with
        annotations := stored.annotations.insert storageProvisionerAnnotationKey provisioner } rfl rfl rfl with
        ⟨core, grown⟩
      exact (sound.withStore core grown).finish worker heard fun pv member =>
        grown.versions pv (known.seen pv member)
  | claimVolume pv =>
    rw [isPending] at pending met
    dsimp only
    cases isStored : s.volumes.get pv.name with
    | none => exact sound.endReconcile worker
    | some stored =>
      dsimp only
      split
      · next current =>
          have admissible := claimVolume_admissible sound known pending met isStored current
            (stored.annotations.insert boundByControllerAnnotationKey "yes")
          have grown := storeVolume_extends admissible
          have new := nextVersion_seen s.toStore { stored with
            annotations := stored.annotations.insert boundByControllerAnnotationKey "yes"
            claimRef := some (Cluster.claimRefTo r.pvc) }
          refine (sound.withStore (storeVolume_core sound.core admissible) grown).continue_ worker heard ?_
          refine ⟨known.pvc.extends grown, ?_, new, ?_⟩
          · intro other member
            rcases List.mem_map.mp member with ⟨old, isOld, replaced⟩
            split at replaced
            · rw [<- replaced]
              exact new
            · rw [<- replaced]
              exact grown.versions old (known.seen old isOld)
          · exact Bool.and_eq_true_iff.mpr ⟨beq_self_eq_true _, beq_self_eq_true _⟩
      · exact sound.endReconcile worker
  | setVolumeName pv =>
    rw [isPending] at pending met
    cases isStored : s.claims.get r.pvc.key with
    | none => exact sound.endReconcile worker
    | some stored =>
      have isKey := (sound.core.claims _ stored isStored).1
      rcases setVolumeName_refers sound pending met isStored with ⟨volume, isVolume, isReferred⟩
      have nowBound : bound s.toStore { stored with
          volumeName := some pv.name, annotations := Cluster.bindingAnnotations r stored } = true := by
        unfold bound
        rw [Option.bind_some, isVolume]
        exact isReferred
      have here : s.claims.get stored.key = some stored := by rw [<- isKey]; exact isStored
      have core : Core (s.storeClaim { stored with
        volumeName := some pv.name, annotations := Cluster.bindingAnnotations r stored }) :=
          storeClaim_core sound.core here rfl
      have grown : Extends s.toStore (s.storeClaim { stored with
        volumeName := some pv.name, annotations := Cluster.bindingAnnotations r stored }) :=
          storeClaim_extends here rfl fun _ => nowBound
      refine (sound.withStore core grown).continue_ worker heard ?_
      refine ⟨known.pvc.extends grown, fun other member => grown.versions other (known.seen other member), ?_⟩
      intro pvc isClaim _
      change (s.toStore.storeClaim _).claims.get r.pvc.key = some pvc at isClaim
      rw [get_storeClaim] at isClaim
      split at isClaim
      · cases isClaim
        exact nowBound
      · next other => exact absurd isKey other
  | claimStatus pvName =>
    rw [isPending] at pending
    dsimp only
    cases isStored : s.claims.get r.pvc.key with
    | none => exact sound.endReconcile worker
    | some stored =>
      rcases sound.storeClaim_same isStored { stored with phase := some "Bound" } rfl rfl rfl with
        ⟨core, grown⟩
      have kept := PendingKnown.extends known.pvc pending grown
      exact (sound.withStore core grown).continue_ worker heard
        ⟨known.pvc.extends grown, fun pv member => grown.versions pv (known.seen pv member), kept⟩
  | volumeStatus pvName =>
    rw [isPending] at pending
    dsimp only
    cases isStored : s.volumes.get pvName with
    | none => exact sound.endReconcile worker
    | some stored =>
      rcases sound.storeVolume_same isStored { stored with phase := some "Bound" } rfl rfl with
        ⟨core, grown⟩
      have kept := PendingKnown.extends known.pvc pending grown
      exact (sound.withStore core grown).continue_ worker heard
        ⟨known.pvc.extends grown, fun pv member => grown.versions pv (known.seen pv member), kept⟩
  | bindCompleted pvName =>
    dsimp only
    cases isStored : s.claims.get r.pvc.key with
    | none => exact sound.endReconcile worker
    | some stored =>
      rcases sound.storeClaim_same isStored { stored with
        annotations := stored.annotations.insert bindCompletedAnnotationKey "yes" } rfl rfl rfl with
        ⟨core, grown⟩
      exact (sound.withStore core grown).finish worker heard fun pv member =>
        grown.versions pv (known.seen pv member)

end

/-! ## The pass over a volume -/

theorem claimedBy_of_pvClaimRef {pv : PersistentVolume} {ref : ClaimKey × Option Nat}
    (complete : pvClaimRef pv = some ref) : claimedBy ref.1 pv = true := by
  rcases Option.bind_eq_some_iff.mp complete with ⟨claimRef, isRef, rest⟩
  rcases Option.bind_eq_some_iff.mp rest with ⟨inNamespace, isNamespace, named⟩
  rcases Option.map_eq_some_iff.mp named with ⟨name, isName, made⟩
  unfold claimedBy
  rw [isRef, <- made, Option.any_some, isNamespace, isName]
  exact Bool.and_eq_true_iff.mpr ⟨beq_self_eq_true _, beq_self_eq_true _⟩

section
variable {t : Reclaim}

/-- A claimRef without a live claim carries the uid of no stored claim. -/
theorem gone_of_not_live (core : Core store) (known : ReclaimKnown store t)
    (notLive : pvHasLiveClaim t.first store.claims = false) {uid : Nat} (carries : claimUid t.first = some uid)
    {key : ClaimKey} {pvc : PersistentVolumeClaim} (isClaim : store.claims.get key = some pvc) : pvc.uid ≠ uid := by
  intro same
  rcases known.complete with ⟨own, complete⟩
  rcases core.claims key pvc isClaim with ⟨isKey, isKnown⟩
  have named := core.claimedBy_of_uid known.first isKnown (carries.trans (congrArg some same.symm))
  have sameKey := claimedBy_unique complete named
  unfold pvHasLiveClaim at notLive
  rw [claimedBy_iff_pvClaimRef.mp complete, sameKey, <- isKey] at notLive
  dsimp only at notLive
  rw [isClaim, carries, <- same, Option.any_some, Option.all_some, beq_self_eq_true] at notLive
  cases notLive

theorem sound_released (sound : Sound s) (worker : Nat) (known : ReclaimKnown s.toStore { t with stage := .deleteVolume }) :
    Sound (s.released worker t) := by
  unfold Cluster.released
  split
  · apply sound.setReclaim
    intro next isNext
    cases isNext
    exact known
  · exact sound.endReclaim worker

/-- The volume that is deleted is the one first read, and refers to no claim. -/
theorem unreferred_of_deletes (sound : Sound s) (known : ReclaimKnown s.toStore t)
    (met : ReclaimMet s.toStore t) (accepted : deletes s.toStore t = true) {stored : PersistentVolume}
    (isStored : s.volumes.get t.first.name = some stored) : Unreferred s.toStore stored := by
  rcases met accepted with ⟨sameRef, _, noneNamed⟩
  unfold deletes at accepted
  rw [isStored, Bool.and_eq_true, beq_iff_eq, Option.any_some, Bool.and_eq_true, beq_iff_eq, beq_iff_eq] at accepted
  rcases accepted with ⟨isStage, _, current⟩
  have seenStored := (sound.core.volumes _ stored isStored).2
  have same := sound.core.distinct stored t.pv seenStored known.pv current
  have storedRef : stored.claimRef = t.first.claimRef := by rw [same, sameRef]
  refine unreferred_iff.mpr ?_
  intro key pvc isClaim
  refine Bool.eq_false_iff.mpr ?_
  intro isReferred
  rcases refers_iff.mp isReferred with ⟨named, onlyUid⟩
  rw [claimedBy_congr storedRef] at named
  rw [claimUid_congr storedRef] at onlyUid
  cases carries : claimUid t.first with
  | none =>
    have unnamed := noneNamed carries (key, pvc) (SortedMap.mem_entries.mpr isClaim)
    rw [(sound.core.claims key pvc isClaim).1, named] at unnamed
    cases unnamed
  | some uid =>
    have later : t.stage ≠ .readClaim := by
      rw [isStage]
      exact ReclaimStage.noConfusion
    exact known.gone later uid carries key pvc isClaim (onlyUid uid carries).symm

theorem reclaimRespects_of_met (known : ReclaimKnown s.toStore t) (met : ReclaimMet s.toStore t) :
    ReclaimRespects s.toStore t := by
  intro accepted entry member points
  rcases (met accepted).2.1 entry member points with ⟨pvc, isListed, _, listedPoints⟩
  have isStage := beq_iff_eq.mp (Bool.and_eq_true_iff.mp accepted).1
  exact known.listed (Or.inr isStage) pvc isListed listedPoints

theorem sound_reclaimStep (sound : Sound s) (worker : Nat) (removed : Bool) (known : ReclaimKnown s.toStore t)
    (met : ReclaimMet s.toStore t) : Sound (s.reclaimStep worker removed t) := by
  unfold Cluster.reclaimStep
  cases isStage : t.stage with
  | readClaim =>
    dsimp only
    split
    · exact sound.endReclaim worker
    · next notLive =>
        apply sound.setReclaim
        intro next isNext
        cases isNext
        exact {
          first := known.first
          pv := known.pv
          complete := known.complete
          gone := fun _ _ carries _ _ isClaim =>
            gone_of_not_live sound.core known (Bool.eq_false_iff.mpr notLive) carries isClaim
          listed := by rintro (impossible | impossible) <;> cases impossible }
  | listClaims =>
    have later : t.stage ≠ .readClaim := by
      rw [isStage]
      exact ReclaimStage.noConfusion
    dsimp only
    split
    · exact sound.endReclaim worker
    · next nonePoints =>
        have listed : forall claims : List PersistentVolumeClaim,
            ¬ (claims.any fun pvc => pvc.volumeName == some t.first.name) = true ->
              forall pvc, pvc ∈ claims -> pvc.volumeName ≠ some t.first.name := by
          intro claims none_ pvc member points
          exact none_ (List.any_eq_true.mpr ⟨pvc, member, beq_iff_eq.mpr points⟩)
        have next : forall stage, stage ≠ .readClaim -> ReclaimKnown s.toStore { t with
            claims := (s.claims.entries.map Prod.snd).filter fun pvc =>
              t.first.claimRef.bind ClaimRef.inNamespace == some pvc.inNamespace
            stage := stage } := by
          intro stage _
          exact ⟨known.first, known.pv, known.complete, fun _ => known.gone later, fun _ => listed _ nonePoints⟩
        split
        · apply sound.setReclaim
          intro t' isNext
          cases isNext
          exact next .markReleased ReclaimStage.noConfusion
        · exact sound_released sound worker (next .deleteVolume ReclaimStage.noConfusion)
  | markReleased =>
    cases isStored : s.volumes.get t.first.name with
    | none => exact sound.endReclaim worker
    | some stored =>
      rcases sound.storeVolume_same isStored { stored with phase := some "Released" } rfl rfl with
        ⟨core, grown⟩
      have new := nextVersion_seen s.toStore { stored with phase := some "Released" }
      have later : t.stage ≠ .readClaim := by
        rw [isStage]
        exact ReclaimStage.noConfusion
      have kept := known.extends sound.core grown
      exact sound_released (sound.withStore core grown) worker
        ⟨kept.first, new, kept.complete, fun _ => kept.gone later, fun _ => kept.listed (Or.inl isStage)⟩
  | deleteVolume =>
    cases isStored : s.volumes.get t.first.name with
    | none => exact sound.endReclaim worker
    | some stored =>
      dsimp only
      split
      · next current =>
          cases removed with
          | true =>
            have accepted : deletes s.toStore t = true := by
              unfold deletes
              rw [isStage, isStored, Option.any_some, beq_iff_eq.mpr current.1, beq_iff_eq.mpr current.2]
              rfl
            have unreferred : forall other, s.volumes.get t.first.name = some other -> Unreferred s.toStore other :=
              fun _ isOther => unreferred_of_deletes sound known met accepted isOther
            exact (sound.withStore (deleteVolume_core sound.core unreferred)
              (deleteVolume_extends unreferred)).endReclaim worker
          | false =>
            rcases sound.storeVolume_same isStored stored rfl rfl with ⟨core, grown⟩
            exact (sound.withStore core grown).endReclaim worker
      · exact sound.endReclaim worker

end

/-! ## All steps -/

theorem sound_reconcile (sound : Sound s) (worker : Nat) {pvc : PersistentVolumeClaim} {pvs : List PersistentVolume}
    {storageClasses : SortedMap String StorageClass} {lookup : Except Unit (Option StorageClass)}
    (known : Known s.toStore pvc) (seen : forall pv, pv ∈ pvs -> pv ∈ s.volumeVersions) :
    Sound (s.reconcile worker pvc pvs (reconcileClaim pvc pvs storageClasses lookup)) := by
  unfold Cluster.reconcile
  split
  · exact sound
  · exact sound
  · apply sound.setReconcile
    intro r isNext
    cases isNext
    exact ⟨known, seen, True.intro⟩
  · next pv decided =>
      rcases reconcileClaim_claim decided with ⟨chosen, unclaimed⟩
      apply sound.setReconcile
      intro r isNext
      cases isNext
      exact ⟨known, seen, seen pv (pvForClaim_mem chosen), Option.isNone_iff_eq_none.mp unclaimed,
        pvForClaim_unclaimed chosen unclaimed⟩
  · next pv decided =>
      rcases reconcileClaim_bind decided with ⟨chosen, claimed⟩
      apply sound.setReconcile
      intro r isNext
      cases isNext
      exact ⟨known, seen, seen pv (pvForClaim_mem chosen), pvForClaim_claimed chosen claimed⟩

theorem sound_step (sound : Sound s) (event : Event) (met : Met s event) : Sound (step s event) := by
  cases event with
  | createClaim pvc =>
    rw [step]
    split
    · exact sound
    · exact sound.withStore (createClaim_core sound.core) (createClaim_extends sound.core)
  | updateClaim pvc =>
    rw [step]
    split
    · exact sound
    · next stored isStored =>
        have isKey := (sound.core.claims _ stored isStored).1
        rcases sound.storeClaim_same isStored
          { pvc with uid := stored.uid, volumeName := stored.volumeName } isKey rfl rfl with ⟨core, grown⟩
        exact sound.withStore core grown
  | deleteClaim key => exact sound.withStore (deleteClaim_core sound.core key) (deleteClaim_extends key)
  | createVolume pv =>
    rw [step]
    split
    · exact sound
    · next free =>
        have admissible : Admissible s.toStore { pv with uid := s.revision + 1 } := by
          refine ⟨met, ?_⟩
          intro stored isStored
          exact absurd (Option.isSome_of_eq_some isStored) free
        exact sound.withStore (storeVolume_core sound.core admissible) (storeVolume_extends admissible)
  | updateVolume pv =>
    rw [step]
    split
    · exact sound
    · next stored isStored =>
        have admissible : Admissible s.toStore { pv with uid := stored.uid } := ⟨met.1, met.2⟩
        exact sound.withStore (storeVolume_core sound.core admissible) (storeVolume_extends admissible)
  | deleteVolume name => exact sound.withStore (deleteVolume_core sound.core met) (deleteVolume_extends met)
  | deliverVolume version =>
    rw [step]
    split
    · exact sound
    · next pv delivered =>
        exact sound.withCache _ _ (sound.cache_insert (List.mem_of_getElem? delivered)) sound.cachedClaims
  | deliverVolumeDelete name =>
    refine sound.withCache { s.cache with pvs := s.cache.pvs.erase name } _ ?_ sound.cachedClaims
    intro other pv cached
    rw [SortedMap.get_erase] at cached
    split at cached
    · cases cached
    · exact sound.cachedVolumes other pv cached
  | deliverClaim version =>
    rw [step]
    split
    · exact sound
    · next pvc delivered =>
        refine sound.withCache { s.cache with claims := s.cache.claims.insert pvc.key pvc } _ sound.cachedVolumes ?_
        intro key claim cached
        rw [SortedMap.get_insert] at cached
        split at cached
        · next isKey =>
            cases cached
            exact ⟨isKey, sound.core.claimVersions _ (List.mem_of_getElem? delivered)⟩
        · exact sound.cachedClaims key claim cached
  | deliverClaimDelete pvc =>
    refine sound.withCache { s.cache with claims := s.cache.claims.erase pvc.key } _ sound.cachedVolumes ?_
    intro key claim cached
    rw [SortedMap.get_erase] at cached
    split at cached
    · cases cached
    · exact sound.cachedClaims key claim cached
  | relistClaims | claimsListed => exact sound.withCache _ _ sound.cachedVolumes sound.cachedClaims
  | resyncClaims =>
    rw [step]
    split
    · exact sound
    · exact sound.withCache _ _ sound.cachedVolumes sound.core.claims
  | reconcile worker key pvs storageClasses lookup =>
    rw [step]
    split
    · exact sound
    · next pvc isCached =>
        split
        · next copies =>
            apply sound_reconcile sound worker (sound.cachedClaims key pvc isCached).2
            intro pv member
            rcases List.mem_map.mp (copies.mem_iff.mp member) with ⟨entry, isEntry, isPv⟩
            rw [<- isPv]
            exact sound.cachedVolumes entry.1 entry.2 (SortedMap.mem_entries.mp isEntry)
        · exact sound
  | write worker heard =>
    rw [step]
    split
    · exact sound
    · next r isPending => exact sound_write sound worker heard (sound.reconciles worker r isPending) (met r isPending)
  | fail worker => exact sound.endReconcile worker
  | reclaim worker name =>
    rw [step]
    split
    · split
      · exact sound
      · next pv isStored =>
          split
          · exact sound
          · next ref complete =>
              have seen := (sound.core.volumes name pv isStored).2
              apply sound.setReclaim
              intro t isNext
              cases isNext
              exact {
                first := seen
                pv := seen
                complete := ⟨ref.1, claimedBy_of_pvClaimRef complete⟩
                gone := fun later => absurd rfl later
                listed := by rintro (impossible | impossible) <;> cases impossible }
    · exact sound
  | reclaimStep worker removed =>
    rw [step]
    split
    · exact sound
    · next t isPending =>
        exact sound_reclaimStep sound worker removed (sound.reclaims worker t isPending) (met t isPending)
  | reclaimFail worker => exact sound.endReclaim worker

theorem respects_of_met (sound : Sound s) (event : Event) (met : Met s event) : Respects s event := by
  cases event with
  | write worker heard =>
    intro r isPending
    exact writeRespects_of_met sound (sound.reconciles worker r isPending) (met r isPending)
  | reclaimStep worker removed =>
    intro t isPending
    exact reclaimRespects_of_met (sound.reclaims worker t isPending) (met t isPending)
  | _ => exact True.intro

/-- In a run whose steps meet the condition a uid is carried by one volume at
most, and every write and deletion of the binder is respectful. -/
theorem bindings_exclusive (events : List Event) (every : EveryStep step Met start events) :
    AlongRun step (fun s => Exclusive s.toStore) start events ∧ EveryStep step Respects start events := by
  have along : AlongRun step Sound start events :=
    AlongRun.of_invariant (fun _ event sound met => sound_step sound event met) sound_start every
  refine ⟨along.mono fun _ sound => sound.core.exclusive_store, ?_⟩
  exact EveryStep.of_invariant (fun s event (sound : Sound s) met => sound_step sound event met)
    (fun _ event sound met => respects_of_met sound event met) sound_start every

/-! ## One claim and two disks -/

def disk (name : String) : PersistentVolume where
  name := name
  uid := 0
  resourceVersion := 0
  annotations := SortedMap.empty
  claimRef := none
  storageClassName := some ""
  accessModes := some ["ReadWriteOnce"]
  persistentVolumeReclaimPolicy := some "Delete"
  phase := some "Available"

def claimNamed (name : String) (volumeName : Option String) : PersistentVolumeClaim where
  inNamespace := "shop"
  name := name
  uid := 0
  annotations := SortedMap.empty
  volumeName := volumeName
  storageClassName := some ""
  accessModes := some ["ReadWriteOnce"]
  phase := some "Pending"

def dataKey : ClaimKey :=
  toLex ("shop", "data")

/-- The first disk as created after the claim, and as claimed. -/
def diskA : PersistentVolume :=
  { disk "disk-a" with uid := 2, resourceVersion := 2 }

def diskB : PersistentVolume :=
  { disk "disk-b" with uid := 3, resourceVersion := 3 }

def claimedDiskA : PersistentVolume :=
  { diskA with
    resourceVersion := 3
    annotations := SortedMap.ofList [(boundByControllerAnnotationKey, "yes")]
    claimRef := some ⟨some "shop", some "data", some 1⟩ }

def reconciling (worker : Nat) (pvs : List PersistentVolume) : Event :=
  .reconcile worker dataKey pvs SortedMap.empty (.ok none)

def created (volumeName : Option String) : List Event :=
  [.createClaim (claimNamed "data" volumeName), .createVolume (disk "disk-a"), .deliverClaim 0, .deliverVolume 0]

def binding : List Event :=
  created none ++ [reconciling 0 [diskA]] ++ List.replicate 5 (.write 0 true)

def reclaiming : List Event :=
  [.claimsListed, .deleteClaim dataKey, .deliverClaimDelete { claimNamed "data" none with uid := 1 },
    .reclaim 0 "disk-a", .reclaimStep 0 true, .reclaimStep 0 true, .reclaimStep 0 true]

/-- A claim is bound, deleted, and its volume deleted after it. -/
theorem bindAndReclaim_exclusive :
    AlongRun step (fun s => Exclusive s.toStore) start (binding ++ reclaiming ++ [.reclaimStep 0 true]) ∧
      EveryStep step Respects start (binding ++ reclaiming ++ [.reclaimStep 0 true]) :=
  bindings_exclusive _ (by decide +kernel)

/-- The next claim of the name is pointed at the volume of the first; a claim
at a volume its user did not ask for; two volumes carry one uid after a claim
that landed unheard; a claim made anew is marked; and a volume goes after a claim
was pointed at it. -/
theorem bindings_not_exclusive :
    ¬ EveryStep step Respects start
        (binding ++ [.deleteClaim dataKey, .createClaim (claimNamed "data" none), .deliverClaim 4,
          reconciling 1 [claimedDiskA], .write 1 true]) ∧
      ¬ EveryStep step Respects start
        (created (some "disk-b") ++ [reconciling 0 [diskA], .write 0 true, .write 0 true]) ∧
      ¬ AlongRun step (fun s => Exclusive s.toStore) start
        (created none ++ [.createVolume (disk "disk-b"), .deliverVolume 1, reconciling 0 [diskA, diskB],
          .write 0 false, reconciling 1 [diskB, diskA], .write 1 true]) ∧
      ¬ EveryStep step Respects start
        (created none ++ [reconciling 0 [diskA]] ++ List.replicate 4 (.write 0 true) ++
          [.deleteClaim dataKey, .createClaim (claimNamed "data" none), .write 0 true]) ∧
      ¬ EveryStep step Respects start
        (binding ++ reclaiming ++ [.createClaim (claimNamed "copy" (some "disk-a")), .reclaimStep 0 true]) := by
  decide +kernel

end Binder
end NotK8s.Controllers

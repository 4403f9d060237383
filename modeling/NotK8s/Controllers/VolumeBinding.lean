import Mathlib.Data.List.Perm.Basic
import Mathlib.Logic.Function.Basic
import NotK8s.Controllers.PvBinder
import NotK8s.Library.Run

namespace NotK8s.Controllers
namespace Binder

open Library

/-!
# Binding claims to volumes

The binder works from the caches of its informers and from private copies of
them.  A reconcile makes up to five writes.  It is a record of the one that is
pending: a write may land and be heard of, land unheard, or fail, and what was
given up may still land while the next reconcile of the claim is at work.  So
any number of reconciles of one claim may be pending, and a key may be taken up
at any time.
-/

/-- The next write of a reconcile.  The volume is as it was chosen, or as the
claiming of it returned it. -/
inductive Pending where
  | requestProvisioning (provisioner : String)
  | claimVolume (pv : PersistentVolume)
  | setVolumeName (pv : PersistentVolume)
  | claimStatus (pvName : String)
  | volumeStatus (pvName : String)
  | bindCompleted (pvName : String)

structure Reconcile where
  pvc : PersistentVolumeClaim
  pvs : List PersistentVolume
  pending : Pending

inductive ReclaimStage where
  | readClaim
  | listClaims
  | markReleased
  | deleteVolume
  deriving DecidableEq

/-- A pass over a volume to reclaim: the volume as first read and as last
returned, and the claims listed. -/
structure Reclaim where
  first : PersistentVolume
  pv : PersistentVolume
  claims : List PersistentVolumeClaim
  stage : ReclaimStage

structure BinderState where
  pvs : SortedMap String PersistentVolume
  claims : SortedMap ClaimKey PersistentVolumeClaim
  pvcWatchHealthy : Bool

/-- The stored objects with every version they had, and what each uid was
given out for: the key, and the volume its user asked for. -/
structure Store where
  revision : Nat
  claims : SortedMap ClaimKey PersistentVolumeClaim
  volumes : SortedMap String PersistentVolume
  claimVersions : List PersistentVolumeClaim
  volumeVersions : List PersistentVolume
  origin : Nat -> Option (ClaimKey × Option String)

/-- The store and the binder.  A name stays in the reclaim queue, as a pass
that fails or is given up is retried. -/
structure Cluster extends Store where
  cache : BinderState
  reclaimQueue : List String
  reconciles : Nat -> Option Reconcile
  reclaims : Nat -> Option Reclaim

/-- The objects are written by others too.  A claim keeps its uid and its
volume name in their updates. -/
inductive Event where
  | createClaim (pvc : PersistentVolumeClaim)
  | updateClaim (pvc : PersistentVolumeClaim)
  | deleteClaim (key : ClaimKey)
  | createVolume (pv : PersistentVolume)
  | updateVolume (pv : PersistentVolume)
  | deleteVolume (name : String)
  | deliverVolume (version : Nat)
  | deliverVolumeDelete (name : String)
  | deliverClaim (version : Nat)
  | deliverClaimDelete (pvc : PersistentVolumeClaim)
  | relistClaims
  | claimsListed
  | resyncClaims
  | reconcile (worker : Nat) (key : ClaimKey) (pvs : List PersistentVolume)
      (storageClasses : SortedMap String StorageClass) (lookup : Except Unit (Option StorageClass))
  | write (worker : Nat) (heard : Bool)
  | fail (worker : Nat)
  | reclaim (worker : Nat) (name : String)
  | reclaimStep (worker : Nat) (removed : Bool)
  | reclaimFail (worker : Nat)

def claimUid (pv : PersistentVolume) : Option Nat :=
  pv.claimRef.bind ClaimRef.uid

/-- The volume's claimRef names the claim, and no other uid. -/
def refers (pv : PersistentVolume) (pvc : PersistentVolumeClaim) : Bool :=
  claimedBy pvc.key pv && (claimUid pv).all (· == pvc.uid)

/-! ## The API server -/

namespace Store

variable (store : Store)

/-- The version that is stored next. -/
def nextVersion (pv : PersistentVolume) : PersistentVolume :=
  { pv with resourceVersion := store.revision + 1 }

def storeVolume (pv : PersistentVolume) : Store :=
  { store with
    revision := store.revision + 1
    volumes := store.volumes.insert pv.name (store.nextVersion pv)
    volumeVersions := store.volumeVersions ++ [store.nextVersion pv] }

def storeClaim (pvc : PersistentVolumeClaim) : Store :=
  { store with
    claims := store.claims.insert pvc.key pvc
    claimVersions := store.claimVersions ++ [pvc] }

/-- A uid is given out. -/
def register (pvc : PersistentVolumeClaim) : Store :=
  { store with
    revision := store.revision + 1
    origin := Function.update store.origin (store.revision + 1) (some (pvc.key, pvc.volumeName.filter (· != ""))) }

def createClaim (pvc : PersistentVolumeClaim) : Store :=
  (store.register pvc).storeClaim { pvc with uid := store.revision + 1 }

def deleteClaim (key : ClaimKey) : Store :=
  { store with claims := store.claims.erase key }

def deleteVolume (name : String) : Store :=
  { store with volumes := store.volumes.erase name }

end Store

namespace Cluster

variable (s : Cluster)

def withStore (store : Store) : Cluster :=
  { s with toStore := store }

/-! ## The reconcile of a claim -/

def setReconcile (worker : Nat) (reconcile : Option Reconcile) : Cluster :=
  { s with reconciles := Function.update s.reconciles worker reconcile }

/-- Once done, a volume that carries the claim's uid goes from the private
copy to the cache. -/
def cacheBound (r : Reconcile) : Cluster :=
  match r.pvs.find? fun pv => claimUid pv == some r.pvc.uid with
  | none => s
  | some pv => { s with cache := { s.cache with pvs := s.cache.pvs.insert pv.name pv } }

/-- The answer to a write is heard, or the reconcile has been given up. -/
def continue_ (worker : Nat) (heard : Bool) (next : Reconcile) : Cluster :=
  s.setReconcile worker (if heard then some next else none)

def finish (worker : Nat) (heard : Bool) (r : Reconcile) : Cluster :=
  if heard then (s.cacheBound r).setReconcile worker none else s.setReconcile worker none

def claimRefTo (pvc : PersistentVolumeClaim) : ClaimRef where
  inNamespace := some pvc.inNamespace
  name := some pvc.name
  uid := some pvc.uid

/-- A controller-made choice is recorded on the claim. -/
def bindingAnnotations (r : Reconcile) (stored : PersistentVolumeClaim) : SortedMap String String :=
  if r.pvc.volumeName.all (· == "") then stored.annotations.insert boundByControllerAnnotationKey "yes"
  else stored.annotations

def write (worker : Nat) (heard : Bool) (r : Reconcile) : Cluster :=
  match r.pending with
  | .requestProvisioning provisioner =>
    match s.claims.get r.pvc.key with
    | none => s.setReconcile worker none
    | some stored =>
      let annotations := stored.annotations.insert storageProvisionerAnnotationKey provisioner
      (s.withStore (s.storeClaim { stored with annotations := annotations })).finish worker heard r
  | .claimVolume pv =>
    match s.volumes.get pv.name with
    | none => s.setReconcile worker none
    | some stored =>
      if stored.resourceVersion = pv.resourceVersion then
        let claimed := { stored with
          annotations := stored.annotations.insert boundByControllerAnnotationKey "yes"
          claimRef := some (claimRefTo r.pvc) }
        let updated := s.nextVersion claimed
        (s.withStore (s.storeVolume claimed)).continue_ worker heard
          { r with
            pvs := r.pvs.map fun other => if other.name = pv.name then updated else other
            pending := .setVolumeName updated }
      else s.setReconcile worker none
  | .setVolumeName pv =>
    match s.claims.get r.pvc.key with
    | none => s.setReconcile worker none
    | some stored =>
      let annotations := bindingAnnotations r stored
      (s.withStore (s.storeClaim { stored with volumeName := some pv.name, annotations := annotations })).continue_
        worker heard { r with pending := .claimStatus pv.name }
  | .claimStatus pvName =>
    match s.claims.get r.pvc.key with
    | none => s.setReconcile worker none
    | some stored =>
      (s.withStore (s.storeClaim { stored with phase := some "Bound" })).continue_ worker heard
        { r with pending := .volumeStatus pvName }
  | .volumeStatus pvName =>
    match s.volumes.get pvName with
    | none => s.setReconcile worker none
    | some stored =>
      (s.withStore (s.storeVolume { stored with phase := some "Bound" })).continue_ worker heard
        { r with pending := .bindCompleted pvName }
  | .bindCompleted _ =>
    match s.claims.get r.pvc.key with
    | none => s.setReconcile worker none
    | some stored =>
      let annotations := stored.annotations.insert bindCompletedAnnotationKey "yes"
      (s.withStore (s.storeClaim { stored with annotations := annotations })).finish worker heard r

/-- A reconcile begins with copies of the caches. -/
def reconcile (worker : Nat) (pvc : PersistentVolumeClaim) (pvs : List PersistentVolume) : Decision -> Cluster
  | .retry => s
  | .done => s
  | .requestProvisioning provisioner => s.setReconcile worker (some ⟨pvc, pvs, .requestProvisioning provisioner⟩)
  | .claim pv => s.setReconcile worker (some ⟨pvc, pvs, .claimVolume pv⟩)
  | .bind pv => s.setReconcile worker (some ⟨pvc, pvs, .setVolumeName pv⟩)

/-! ## The reclaim of a volume -/

def setReclaim (worker : Nat) (reclaim : Option Reclaim) : Cluster :=
  { s with reclaims := Function.update s.reclaims worker reclaim }

/-- What follows when the volume is Released. -/
def released (worker : Nat) (t : Reclaim) : Cluster :=
  match reclaimAction t.pv with
  | .delete => s.setReclaim worker (some { t with stage := .deleteVolume })
  | .retain => s.setReclaim worker none

def reclaimStep (worker : Nat) (removed : Bool) (t : Reclaim) : Cluster :=
  match t.stage with
  | .readClaim =>
    if pvHasLiveClaim t.first s.claims then s.setReclaim worker none
    else s.setReclaim worker (some { t with stage := .listClaims })
  | .listClaims =>
    let inNamespace := t.first.claimRef.bind ClaimRef.inNamespace
    let claims := (s.claims.entries.map Prod.snd).filter fun pvc => inNamespace == some pvc.inNamespace
    if claims.any fun pvc => pvc.volumeName == some t.first.name then s.setReclaim worker none
    else if t.pv.phase ≠ some "Released" then
      s.setReclaim worker (some { t with claims := claims, stage := .markReleased })
    else s.released worker { t with claims := claims }
  | .markReleased =>
    match s.volumes.get t.first.name with
    | none => s.setReclaim worker none
    | some stored =>
      let marked := { stored with phase := some "Released" }
      (s.withStore (s.storeVolume marked)).released worker { t with pv := s.nextVersion marked }
  | .deleteVolume =>
    match s.volumes.get t.first.name with
    | none => s.setReclaim worker none
    | some stored =>
      if stored.uid = t.pv.uid ∧ stored.resourceVersion = t.pv.resourceVersion then
        if removed then (s.withStore (s.toStore.deleteVolume t.first.name)).setReclaim worker none
        else (s.withStore (s.storeVolume stored)).setReclaim worker none
      else s.setReclaim worker none

/-! ## The informers -/

def staleVolumes : List String :=
  ((s.cache.pvs.entries.map Prod.snd).filter fun pv => !pvHasLiveClaim pv s.cache.claims).map PersistentVolume.name

def deliverVolume (pv : PersistentVolume) : Cluster :=
  { s with
    cache := { s.cache with pvs := s.cache.pvs.insert pv.name pv }
    reclaimQueue :=
      if s.cache.pvcWatchHealthy && !pvHasLiveClaim pv s.cache.claims then s.reclaimQueue ++ [pv.name]
      else s.reclaimQueue }

/-- The volumes of a claim that is gone. -/
def releasable (pvc : PersistentVolumeClaim) : List String :=
  ((s.cache.pvs.entries.map Prod.snd).filter fun pv =>
    (pvClaimRef pv).any fun ref => ref.1 == pvc.key && ref.2.all (· == pvc.uid)).map PersistentVolume.name

end Cluster

open Cluster in
def step (s : Cluster) : Event -> Cluster
  | .createClaim pvc => if (s.claims.get pvc.key).isSome then s else s.withStore (s.toStore.createClaim pvc)
  | .updateClaim pvc =>
    match s.claims.get pvc.key with
    | none => s
    | some stored => s.withStore (s.storeClaim { pvc with uid := stored.uid, volumeName := stored.volumeName })
  | .deleteClaim key => s.withStore (s.toStore.deleteClaim key)
  | .createVolume pv =>
    if (s.volumes.get pv.name).isSome then s else s.withStore (s.storeVolume { pv with uid := s.revision + 1 })
  | .updateVolume pv =>
    match s.volumes.get pv.name with
    | none => s
    | some stored => s.withStore (s.storeVolume { pv with uid := stored.uid })
  | .deleteVolume name => s.withStore (s.toStore.deleteVolume name)
  | .deliverVolume version =>
    match s.volumeVersions[version]? with
    | none => s
    | some pv => s.deliverVolume pv
  | .deliverVolumeDelete name => { s with cache := { s.cache with pvs := s.cache.pvs.erase name } }
  | .deliverClaim version =>
    match s.claimVersions[version]? with
    | none => s
    | some pvc => { s with cache := { s.cache with claims := s.cache.claims.insert pvc.key pvc } }
  | .deliverClaimDelete pvc =>
    { s with
      cache := { s.cache with claims := s.cache.claims.erase pvc.key }
      reclaimQueue := s.reclaimQueue ++ s.releasable pvc }
  | .relistClaims => { s with cache := { s.cache with pvcWatchHealthy := false } }
  | .claimsListed =>
    { s with
      cache := { s.cache with pvcWatchHealthy := true }
      reclaimQueue := s.reclaimQueue ++ s.staleVolumes }
  | .resyncClaims =>
    if s.cache.pvcWatchHealthy then s else { s with cache := { s.cache with claims := s.claims } }
  | .reconcile worker key pvs storageClasses lookup =>
    match s.cache.claims.get key with
    | none => s
    | some pvc =>
      if pvs.Perm (s.cache.pvs.entries.map Prod.snd) then
        s.reconcile worker pvc pvs (reconcileClaim pvc pvs storageClasses lookup)
      else s
  | .write worker heard =>
    match s.reconciles worker with
    | none => s
    | some r => s.write worker heard r
  | .fail worker => s.setReconcile worker none
  | .reclaim worker name =>
    if name ∈ s.reclaimQueue then
      match s.volumes.get name with
      | none => s
      | some pv =>
        match pvClaimRef pv with
        | none => s
        | some _ => s.setReclaim worker (some ⟨pv, pv, [], .readClaim⟩)
    else s
  | .reclaimStep worker removed =>
    match s.reclaims worker with
    | none => s
    | some t => s.reclaimStep worker removed t
  | .reclaimFail worker => s.setReclaim worker none

/-- Nothing stored, nothing cached. -/
def start : Cluster where
  revision := 0
  claims := SortedMap.empty
  volumes := SortedMap.empty
  claimVersions := []
  volumeVersions := []
  origin := fun _ => none
  cache := ⟨SortedMap.empty, SortedMap.empty, false⟩
  reclaimQueue := []
  reconciles := fun _ => none
  reclaims := fun _ => none

/-! ## What is to hold, and when -/

section
variable (store : Store)

/-- At most one volume carries a claimRef to a uid. -/
def Exclusive : Prop :=
  forall entry, entry ∈ store.volumes.entries -> forall other, other ∈ store.volumes.entries ->
    (claimUid entry.2).isSome = true -> claimUid entry.2 = claimUid other.2 -> entry.1 = other.1

/-- The volume the claim points at refers to it. -/
def bound (pvc : PersistentVolumeClaim) : Bool :=
  (pvc.volumeName.bind store.volumes.get).any fun pv => refers pv pvc

/-- The volume a user asked for by the claim of this uid. -/
def askedFor (uid : Nat) : Option String :=
  (store.origin uid).bind Prod.snd

/-- The delete of a pass over a volume is accepted. -/
def deletes (t : Reclaim) : Bool :=
  t.stage == .deleteVolume &&
    (store.volumes.get t.first.name).any fun pv => pv.uid == t.pv.uid && pv.resourceVersion == t.pv.resourceVersion

def WriteRespects (r : Reconcile) : Pending -> Prop
  | .setVolumeName pv =>
    forall pvc, pvc ∈ store.claims.get r.pvc.key ->
      (forall stored, stored ∈ store.volumes.get pv.name -> forall uid, uid ∈ claimUid stored -> uid = pvc.uid) ∧
        forall name, name ∈ askedFor store pvc.uid -> name = pv.name
  | .bindCompleted _ => forall pvc, pvc ∈ store.claims.get r.pvc.key -> bound store pvc = true
  | _ => True

def ReclaimRespects (t : Reclaim) : Prop :=
  deletes store t = true ->
    forall entry, entry ∈ store.claims.entries -> entry.2.volumeName ≠ some t.first.name

/-- A write that goes astray does so for what the private copies do not show:
a claimRef under the claim's name, another incarnation of the claim.  A claim
is pointed at what its user asked for, if anything, by a claimRef of its uid
(or of none, and still stored). -/
def WriteMet (r : Reconcile) : Pending -> Prop
  | .claimVolume _ =>
    forall entry, entry ∈ store.volumes.entries -> claimedBy r.pvc.key entry.2 = true ->
      Exists fun pv => pv ∈ r.pvs ∧ claimedBy r.pvc.key pv = true
  | .setVolumeName pv =>
    forall pvc, pvc ∈ store.claims.get r.pvc.key ->
      pvc.uid = r.pvc.uid ∧ (forall name, name ∈ askedFor store pvc.uid -> name = pv.name) ∧
        (claimUid pv = some r.pvc.uid ∨
          claimUid pv = none ∧ (store.volumes.get pv.name).map PersistentVolume.claimRef = some pv.claimRef)
  | .bindCompleted _ => forall pvc, pvc ∈ store.claims.get r.pvc.key -> pvc.uid = r.pvc.uid
  | _ => True

/-- What was read of the volume to reclaim, and listed, is still so. -/
def ReclaimMet (t : Reclaim) : Prop :=
  deletes store t = true ->
    t.pv.claimRef = t.first.claimRef ∧
      (forall entry, entry ∈ store.claims.entries -> entry.2.volumeName = some t.first.name ->
        Exists fun pvc => pvc ∈ t.claims ∧ pvc.uid = entry.2.uid ∧ pvc.volumeName = some t.first.name) ∧
      (claimUid t.first = none -> forall entry, entry ∈ store.claims.entries -> claimedBy entry.1 t.first = false)

/-- Others give a uid to one volume only. -/
def RefMet (pv : PersistentVolume) : Prop :=
  forall uid, uid ∈ claimUid pv ->
    (Exists fun origin => origin ∈ store.origin uid ∧ claimedBy origin.1 pv = true) ∧
      forall entry, entry ∈ store.volumes.entries -> claimUid entry.2 = some uid -> entry.1 = pv.name

/-- No stored claim is referred to. -/
def Unreferred (pv : PersistentVolume) : Prop :=
  forall entry, entry ∈ store.claims.entries -> refers pv entry.2 = false

instance : Decidable (Exclusive store) :=
  inferInstanceAs (Decidable (forall entry, entry ∈ store.volumes.entries ->
    forall other, other ∈ store.volumes.entries ->
      (claimUid entry.2).isSome = true -> claimUid entry.2 = claimUid other.2 -> entry.1 = other.1))

instance (pv : PersistentVolume) : Decidable (Unreferred store pv) :=
  inferInstanceAs (Decidable (forall entry, entry ∈ store.claims.entries -> refers pv entry.2 = false))

instance (pv : PersistentVolume) : Decidable (RefMet store pv) :=
  inferInstanceAs (Decidable (forall uid, uid ∈ claimUid pv ->
    (Exists fun origin => origin ∈ store.origin uid ∧ claimedBy origin.1 pv = true) ∧
      forall entry, entry ∈ store.volumes.entries -> claimUid entry.2 = some uid -> entry.1 = pv.name))

instance (r : Reconcile) (pending : Pending) : Decidable (WriteRespects store r pending) := by
  cases pending <;> unfold WriteRespects <;> infer_instance

instance (r : Reconcile) (pending : Pending) : Decidable (WriteMet store r pending) := by
  cases pending <;> unfold WriteMet <;> infer_instance

instance (t : Reclaim) : Decidable (ReclaimRespects store t) := by
  unfold ReclaimRespects
  infer_instance

instance (t : Reclaim) : Decidable (ReclaimMet store t) := by
  unfold ReclaimMet
  infer_instance

end

/-- A claim is pointed at a volume of no other uid, and the one its user asked
for.  It is marked when both refer to each other.  A volume is deleted while no
claim points at it. -/
def Respects (s : Cluster) : Event -> Prop
  | .write worker _ => forall r, r ∈ s.reconciles worker -> WriteRespects s.toStore r r.pending
  | .reclaimStep worker _ => forall t, t ∈ s.reclaims worker -> ReclaimRespects s.toStore t
  | _ => True

def Met (s : Cluster) : Event -> Prop
  | .createVolume pv => RefMet s.toStore pv
  | .updateVolume pv =>
    RefMet s.toStore pv ∧ forall stored, stored ∈ s.volumes.get pv.name ->
      pv.claimRef = stored.claimRef ∨ Unreferred s.toStore stored
  | .deleteVolume name => forall stored, stored ∈ s.volumes.get name -> Unreferred s.toStore stored
  | .write worker _ => forall r, r ∈ s.reconciles worker -> WriteMet s.toStore r r.pending
  | .reclaimStep worker _ => forall t, t ∈ s.reclaims worker -> ReclaimMet s.toStore t
  | _ => True

instance (s : Cluster) (event : Event) : Decidable (Respects s event) := by
  cases event <;> unfold Respects <;> infer_instance

instance (s : Cluster) (event : Event) : Decidable (Met s event) := by
  cases event <;> unfold Met <;> infer_instance

end Binder
end NotK8s.Controllers

import Mathlib.Data.Prod.Lex
import Mathlib.Data.String.Basic
import NotK8s.Library.SortedMap

namespace NotK8s.Controllers
namespace Binder

open Library

/-!
# The volume binder

Uids and resource versions are numbers.  A map whose order is left open is
walked in the order of a list.
-/

abbrev ClaimKey :=
  String ×ₗ String

structure ClaimRef where
  inNamespace : Option String
  name : Option String
  uid : Option Nat
  deriving DecidableEq

structure PersistentVolume where
  name : String
  uid : Nat
  resourceVersion : Nat
  annotations : SortedMap String String
  claimRef : Option ClaimRef
  storageClassName : Option String
  accessModes : Option (List String)
  persistentVolumeReclaimPolicy : Option String
  phase : Option String
  deriving DecidableEq

structure PersistentVolumeClaim where
  inNamespace : String
  name : String
  uid : Nat
  annotations : SortedMap String String
  volumeName : Option String
  storageClassName : Option String
  accessModes : Option (List String)
  phase : Option String
  deriving DecidableEq

structure StorageClass where
  provisioner : String
  volumeBindingMode : Option String

def storageProvisionerAnnotationKey : String :=
  "volume.kubernetes.io/storage-provisioner"

def selectedNodeAnnotationKey : String :=
  "volume.kubernetes.io/selected-node"

def bindCompletedAnnotationKey : String :=
  "pv.kubernetes.io/bind-completed"

def boundByControllerAnnotationKey : String :=
  "pv.kubernetes.io/bound-by-controller"

def PersistentVolumeClaim.key (pvc : PersistentVolumeClaim) : ClaimKey :=
  toLex (pvc.inNamespace, pvc.name)

/-! ## Reclaiming -/

inductive ReclaimAction where
  | delete
  | retain
  deriving DecidableEq

def reclaimAction (pv : PersistentVolume) : ReclaimAction :=
  if pv.persistentVolumeReclaimPolicy = some "Delete" then .delete else .retain

def pvClaimRef (pv : PersistentVolume) : Option (ClaimKey × Option Nat) :=
  pv.claimRef.bind fun claimRef =>
    claimRef.inNamespace.bind fun inNamespace =>
      claimRef.name.map fun name => (toLex (inNamespace, name), claimRef.uid)

def pvHasLiveClaim (pv : PersistentVolume) (claims : SortedMap ClaimKey PersistentVolumeClaim) : Bool :=
  match pvClaimRef pv with
  | none => true
  | some (key, claimUid) => (claims.get key).any fun claim => claimUid.all (· == claim.uid)

/-! ## Choosing a volume -/

def isFullyBound (pvc : PersistentVolumeClaim) : Bool :=
  let hasVolume := pvc.volumeName.any (· != "")
  let bindCompleted := (pvc.annotations.get bindCompletedAnnotationKey).isSome
  let boundPhase := pvc.phase == some "Bound"
  hasVolume && bindCompleted && boundPhase

def accessModesSatisfy (pv : PersistentVolume) (pvc : PersistentVolumeClaim) : Bool :=
  (pvc.accessModes.getD []).all fun mode => (pv.accessModes.getD []).contains mode

def storageClassMatches (pv : PersistentVolume) (pvc : PersistentVolumeClaim) : Bool :=
  pv.storageClassName.getD "" == pvc.storageClassName.getD ""

def claimedBy (key : ClaimKey) (pv : PersistentVolume) : Bool :=
  pv.claimRef.any fun r => r.inNamespace == some (ofLex key).1 && r.name == some (ofLex key).2

def isUnclaimed (pv : PersistentVolume) : Bool :=
  pv.claimRef.isNone

def pvForClaim (pvc : PersistentVolumeClaim) (pvs : List PersistentVolume) : Option PersistentVolume :=
  match pvs.find? (claimedBy pvc.key) with
  | some prebound => some prebound
  | none => pvs.find? fun pv => isUnclaimed pv && storageClassMatches pv pvc && accessModesSatisfy pv pvc

def nodeSelected (pvc : PersistentVolumeClaim) : Bool :=
  (pvc.annotations.get selectedNodeAnnotationKey).any (· != "")

def provisionerForClaim (pvc : PersistentVolumeClaim) (storageClasses : SortedMap String StorageClass) :
    Option String :=
  (pvc.storageClassName.bind storageClasses.get).bind fun class_ =>
    if class_.volumeBindingMode = some "WaitForFirstConsumer" ∧ nodeSelected pvc = false then none
    else if class_.provisioner ≠ "" then some class_.provisioner
    else none

def deferUnclaimedWaitForFirstConsumerPv (pvc : PersistentVolumeClaim) (pv : PersistentVolume)
    (storageClasses : SortedMap String StorageClass) : Bool :=
  if !isUnclaimed pv then false
  else
    match pvc.storageClassName with
    | none => false
    | some className =>
      match storageClasses.get className with
      | none => className != ""
      | some class_ => class_.volumeBindingMode == some "WaitForFirstConsumer" && !nodeSelected pvc

/-- The storage classes to decide by, and whether the claim's own is known
not to exist.  The lookup is made when the cache has no class of that name. -/
def resolveStorageClasses (pvc : PersistentVolumeClaim) (cached : SortedMap String StorageClass)
    (lookup : Except Unit (Option StorageClass)) : Option (SortedMap String StorageClass × Bool) :=
  match pvc.storageClassName with
  | none => some (cached, false)
  | some className =>
    if className = "" ∨ (cached.get className).isSome then some (cached, false)
    else
      match lookup with
      | .ok (some class_) => some (cached.insert className class_, false)
      | .ok none => some (cached, true)
      | .error _ => none

/-- The write that comes first, if any. -/
inductive Decision where
  | retry
  | done
  | requestProvisioning (provisioner : String)
  | claim (pv : PersistentVolume)
  | bind (pv : PersistentVolume)

def reconcileClaim (pvc : PersistentVolumeClaim) (pvs : List PersistentVolume)
    (cachedStorageClasses : SortedMap String StorageClass) (lookup : Except Unit (Option StorageClass)) : Decision :=
  match resolveStorageClasses pvc cachedStorageClasses lookup with
  | none => .retry
  | some (storageClasses, namedClassMissing) =>
    if isFullyBound pvc then .done
    else
      match pvForClaim pvc pvs with
      | none =>
        match provisionerForClaim pvc storageClasses with
        | none => .done
        | some provisioner =>
          if pvc.annotations.get storageProvisionerAnnotationKey = some provisioner then .done
          else .requestProvisioning provisioner
      | some pv =>
        if !namedClassMissing && deferUnclaimedWaitForFirstConsumerPv pvc pv storageClasses then .done
        else if isUnclaimed pv then .claim pv
        else .bind pv

/-! ## What is chosen -/

section
variable {pvc : PersistentVolumeClaim} {pvs : List PersistentVolume} {pv : PersistentVolume}
  {cached : SortedMap String StorageClass} {lookup : Except Unit (Option StorageClass)}

theorem pvForClaim_mem (chosen : pvForClaim pvc pvs = some pv) : pv ∈ pvs := by
  unfold pvForClaim at chosen
  split at chosen
  · next prebound found =>
      cases chosen
      exact List.mem_of_find?_eq_some found
  · exact List.mem_of_find?_eq_some chosen

/-- An unclaimed volume is chosen when none is claimed under the claim's name. -/
theorem pvForClaim_unclaimed (chosen : pvForClaim pvc pvs = some pv) (unclaimed : isUnclaimed pv = true) :
    forall other, other ∈ pvs -> claimedBy pvc.key other = false := by
  unfold pvForClaim at chosen
  split at chosen
  · next prebound found =>
      cases chosen
      have claimed := List.find?_some found
      rw [isUnclaimed, Option.isNone_iff_eq_none] at unclaimed
      rw [claimedBy, unclaimed] at claimed
      cases claimed
  · next none_ =>
      intro other member
      exact Bool.eq_false_iff.mpr (List.find?_eq_none.mp none_ other member)

theorem pvForClaim_claimed (chosen : pvForClaim pvc pvs = some pv) (claimed : isUnclaimed pv = false) :
    claimedBy pvc.key pv = true := by
  unfold pvForClaim at chosen
  split at chosen
  · next prebound found =>
      cases chosen
      exact List.find?_some found
  · have candidate := List.find?_some chosen
    rw [claimed] at candidate
    cases candidate

theorem reconcileClaim_claim (decided : reconcileClaim pvc pvs cached lookup = .claim pv) :
    pvForClaim pvc pvs = some pv ∧ isUnclaimed pv = true := by
  unfold reconcileClaim at decided
  split at decided
  · cases decided
  · split at decided
    · cases decided
    · split at decided
      · split at decided
        · cases decided
        · split at decided <;> cases decided
      · next chosen =>
          split at decided
          · cases decided
          · split at decided
            · next unclaimed =>
                cases decided
                exact ⟨chosen, unclaimed⟩
            · cases decided

theorem reconcileClaim_bind (decided : reconcileClaim pvc pvs cached lookup = .bind pv) :
    pvForClaim pvc pvs = some pv ∧ isUnclaimed pv = false := by
  unfold reconcileClaim at decided
  split at decided
  · cases decided
  · split at decided
    · cases decided
    · split at decided
      · split at decided
        · cases decided
        · split at decided <;> cases decided
      · next chosen =>
          split at decided
          · cases decided
          · split at decided
            · cases decided
            · next claimed =>
                cases decided
                exact ⟨chosen, Bool.eq_false_iff.mpr claimed⟩

end

end Binder
end NotK8s.Controllers

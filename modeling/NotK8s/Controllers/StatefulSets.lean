import NotK8s.Controllers.Workloads

namespace NotK8s.Controllers
namespace StatefulSets

open Library

/-!
# The StatefulSet controller

Pods are told apart by the ordinal in their names.  Requests are not retried
and their replies are only logged, so a pass is what it requests.
-/

structure UpdateStrategy where
  type : Option String
  partition : Option Int

/-- Of the claim templates only the names are kept. -/
structure StatefulSetSpec where
  replicas : Option Int
  template : PodTemplate
  podManagementPolicy : Option String
  volumeClaimTemplates : List (Option String)
  updateStrategy : Option UpdateStrategy

structure StatefulSet where
  inNamespace : Option String
  name : String
  uid : Option String
  spec : Option StatefulSetSpec

instance : Resource StatefulSet where
  namespaceOf := StatefulSet.inNamespace
  nameAny := StatefulSet.name

structure PersistentVolumeClaim where
  inNamespace : Option String
  name : String

instance : Resource PersistentVolumeClaim where
  namespaceOf := PersistentVolumeClaim.inNamespace
  nameAny := PersistentVolumeClaim.name

abbrev Claims :=
  SortedMap String PersistentVolumeClaim

/-! ## Ordinals -/

def podName (stsName : String) (ordinal : Int) : String :=
  stsName ++ "-" ++ toString ordinal

def ordinalFromPodName (stsName podName : String) : Option Int :=
  (stsName.toList ++ ['-']).isPrefixOf? podName.toList |>.bind parseI32

/-- The ordinals below a bound. -/
def ordinalsBelow (bound : Int) : List Int :=
  (List.range bound.toNat).map Int.ofNat

def ordinalsToCreate (desired : Int) (existing ready : List Int) (parallel : Bool) : List Int :=
  let missing := (ordinalsBelow desired).filter fun o => !existing.contains o
  if parallel then missing
  else
    match missing with
    | lowest :: _ => if (ordinalsBelow lowest).all ready.contains then [lowest] else []
    | [] => []

def ordinalsToDelete (desired : Int) (existing : List Int) (parallel : Bool) : List Int :=
  let excess := existing.filter fun o => desired ≤ o
  if parallel then excess else excess.max?.toList

def ordinalToUpdate (desired partition : Int) (podHashes : SortedMap Int String) (currentHash : String) : Option Int :=
  (((ordinalsBelow desired).filter fun o => max partition 0 ≤ o).reverse).find? fun o => podHashes.get o != some currentHash

/-! ## One pass -/

def pvcNameForOrdinal (claimName stsName : String) (ordinal : Int) : String :=
  claimName ++ "-" ++ stsName ++ "-" ++ toString ordinal

def ownerReference (sts : StatefulSet) : PodOwner where
  kind := "StatefulSet"
  name := sts.name
  uid := sts.uid.getD ""
  controller := some true

def buildPod (sts : StatefulSet) (spec : StatefulSetSpec) (ordinal : Int) (hash : String) : Option Pod :=
  if spec.template.hasSpec then
    some
      { inNamespace := sts.inNamespace
        name := podName sts.name ordinal
        deletionTimestamp := none
        ownerReferences := [ownerReference sts]
        podTemplateHash := some hash
        phase := none
        conditions := [] }
  else none

/-- The claims of an ordinal that are not cached. -/
def ensurePvcsForOrdinal (sts : StatefulSet) (spec : StatefulSetSpec) (ordinal : Int) (pvcCache : Claims) : List PodWrite :=
  ((spec.volumeClaimTemplates.filterMap id).map fun claimName => pvcNameForOrdinal claimName sts.name ordinal).filter
    (fun name => (pvcCache.get (nsOf sts ++ "/" ++ name)).isNone) |>.map .createClaim

/-- Without a template the first ordinal ends the loop. -/
def createOrdinals (sts : StatefulSet) (spec : StatefulSetSpec) (hash : String) (pvcCache : Claims) : List Int -> List PodWrite
  | [] => []
  | ordinal :: rest =>
    ensurePvcsForOrdinal sts spec ordinal pvcCache ++
      match buildPod sts spec ordinal hash with
      | none => []
      | some pod => .create pod :: createOrdinals sts spec hash pvcCache rest

/-- What a pass reads from the cache. -/
structure Lineup where
  byOrdinal : SortedMap Int Pod
  terminating : List Int

def lineup (sts : StatefulSet) (uid : String) (podCache : SortedMap String Pod) : Lineup :=
  let owned := ownedPods (nsOf sts) uid podCache
  { byOrdinal := .ofList (owned.filterMap fun pod => (ordinalFromPodName sts.name pod.name).map fun o => (o, pod))
    terminating := (owned.filter Pod.terminating).filterMap fun pod => ordinalFromPodName sts.name pod.name }

namespace Lineup

def existing (l : Lineup) : List Int :=
  l.byOrdinal.entries.map Prod.fst

def ready (l : Lineup) : List Int :=
  (l.byOrdinal.entries.filter fun entry => !entry.2.terminating && entry.2.ready).map Prod.fst

def podHashes (l : Lineup) : SortedMap Int String :=
  .ofList ((l.byOrdinal.entries.filter fun entry => !entry.2.terminating).filterMap fun entry =>
    entry.2.podTemplateHash.map fun hash => (entry.1, hash))

/-- A delete request for the Pod of an ordinal. -/
def delete (l : Lineup) (ordinal : Int) : List PodWrite :=
  ((l.byOrdinal.get ordinal).map fun pod => PodWrite.delete pod.name).toList

end Lineup

def desiredPods (spec : StatefulSetSpec) : Int :=
  spec.replicas.getD 1

def isParallel (spec : StatefulSetSpec) : Bool :=
  spec.podManagementPolicy == some "Parallel"

def toCreate (spec : StatefulSetSpec) (l : Lineup) : List Int :=
  ordinalsToCreate (desiredPods spec) l.existing l.ready (isParallel spec)

/-- In order, a Pod that is on its way out holds back the others. -/
def toDelete (spec : StatefulSetSpec) (l : Lineup) : List Int :=
  if !isParallel spec && !l.terminating.isEmpty then []
  else (ordinalsToDelete (desiredPods spec) l.existing (isParallel spec)).filter fun o => !l.terminating.contains o

def toUpdate (spec : StatefulSetSpec) (hash : String) (l : Lineup) : Option Int :=
  let onDelete := spec.updateStrategy.bind UpdateStrategy.type == some "OnDelete"
  let allOrdinalsPresent := (ordinalsBelow (desiredPods spec)).all l.existing.contains
  if allOrdinalsPresent && !onDelete then
    ordinalToUpdate (desiredPods spec) ((spec.updateStrategy.bind UpdateStrategy.partition).getD 0) l.podHashes hash
  else none

def reconcileStatefulSet (sts : StatefulSet) (podCache : SortedMap String Pod) (pvcCache : Claims) : List PodWrite :=
  match sts.uid, sts.spec with
  | some uid, some spec =>
    let hash := computeTemplateHash spec.template.json
    let l := lineup sts uid podCache
    createOrdinals sts spec hash pvcCache (toCreate spec l) ++ (toDelete spec l).flatMap l.delete ++
      (toUpdate spec hash l).toList.flatMap l.delete
  | _, _ => []

/-- Some ordinal is to be created, deleted or replaced. -/
def wants (sts : StatefulSet) (podCache : SortedMap String Pod) : Bool :=
  match sts.uid, sts.spec with
  | some uid, some spec =>
    let l := lineup sts uid podCache
    !(toCreate spec l).isEmpty || !(toDelete spec l).isEmpty ||
      (toUpdate spec (computeTemplateHash spec.template.json) l).isSome
  | _, _ => false

theorem idle (sts : StatefulSet) (podCache : SortedMap String Pod) (pvcCache : Claims) (unwanted : wants sts podCache = false) :
    reconcileStatefulSet sts podCache pvcCache = [] := by
  unfold reconcileStatefulSet
  unfold wants at unwanted
  cases known : sts.uid with
  | none => rfl
  | some uid =>
    cases specified : sts.spec with
    | none => rfl
    | some spec =>
      rw [known, specified] at unwanted
      dsimp only at unwanted ⊢
      rw [Bool.or_eq_false_iff, Bool.or_eq_false_iff, Bool.not_eq_false', Bool.not_eq_false', List.isEmpty_iff,
        List.isEmpty_iff, Option.isSome_eq_false_iff, Option.isNone_iff_eq_none] at unwanted
      rcases unwanted with ⟨⟨none_to_create, none_to_delete⟩, none_to_update⟩
      rw [none_to_create, none_to_delete, none_to_update]
      rfl

/-! ## The loop -/

def controller : WorkloadController StatefulSet Claims (WatchEvent PersistentVolumeClaim) Unit where
  clearsOnInit := false
  initial := .empty
  onPod := fun _ pvcs => pvcs
  onOwn := fun _ pvcs => pvcs
  onOther := fun event pvcs => retain objectKey pvcs event
  otherNamespace := eventNamespace
  wants := fun sts podCache _ _ => wants sts podCache
  reconcile := fun sts podCache pvcCache _ => ⟨reconcileStatefulSet sts podCache pvcCache, pvcCache, false⟩
  idle := fun sts podCache pvcCache _ => idle sts podCache pvcCache

end StatefulSets
end NotK8s.Controllers

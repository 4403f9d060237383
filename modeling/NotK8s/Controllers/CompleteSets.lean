import NotK8s.Controllers.Jobs
import NotK8s.Controllers.ReplicaSets
import NotK8s.Controllers.StatefulSets

namespace NotK8s.Controllers

open Library

/-!
# Decisions on complete sets

The ReplicaSet loop clears its Pods when a list begins and takes work while
the list is delivered.  The StatefulSet and Job loops clear nothing, so a Pod
that no list names any more stays.
-/

/-- In a run of timely steps each of the three controllers requests a Pod's
creation or deletion only when its cache is the informer's complete set. -/
theorem workloads_decide_informed (replicaSets : List (WorkloadStep ReplicaSets.ManagedReplicaSet Empty ReplicaSets.Choice))
    (statefulSets : List (WorkloadStep StatefulSets.StatefulSet (WatchEvent StatefulSets.PersistentVolumeClaim) Unit))
    (jobs : List (WorkloadStep Jobs.Job Empty (List Jobs.Reply))) :
    (EveryStep ReplicaSets.controller.step ReplicaSets.controller.Timely ReplicaSets.controller.new replicaSets ->
      EveryStep ReplicaSets.controller.step ReplicaSets.controller.DecidesInformed ReplicaSets.controller.new replicaSets) ∧
    (EveryStep StatefulSets.controller.step StatefulSets.controller.Timely StatefulSets.controller.new statefulSets ->
      EveryStep StatefulSets.controller.step StatefulSets.controller.DecidesInformed StatefulSets.controller.new statefulSets) ∧
    (EveryStep Jobs.controller.step Jobs.controller.Timely Jobs.controller.new jobs ->
      EveryStep Jobs.controller.step Jobs.controller.DecidesInformed Jobs.controller.new jobs) :=
  ⟨WorkloadController.decides_informed, WorkloadController.decides_informed,
    WorkloadController.decides_informed⟩

private def ownedPod (kind owner uid name : String) : Pod where
  inNamespace := some "default"
  name := name
  deletionTimestamp := none
  ownerReferences := [{ kind := kind, name := owner, uid := uid, controller := some true }]
  podTemplateHash := none
  phase := some "Running"
  conditions := []

private def front : ReplicaSets.ManagedReplicaSet where
  inNamespace := some "default"
  name := "front"
  creationTimestamp := none
  ownerReferences := []
  podTemplateHash := none
  replicas := some 2
  status := none
  uid := some "u1"
  template := some ⟨[], none, true⟩

private def quiet : ReplicaSets.Choice where
  now := 0
  suffix := fun _ => "bcdfg"
  reply := fun _ => some .ok
  replyTime := fun _ => 0
  statusReply := some .ok

private def frontPod (name : String) : Pod :=
  ownedPod "ReplicaSet" "front" "u1" name

private def frontUsual : List (WorkloadStep ReplicaSets.ManagedReplicaSet Empty ReplicaSets.Choice) :=
  [.podEvent .init, .podEvent (.initApply (frontPod "front-a")), .podEvent .initDone,
    .ownEvent .init, .ownEvent (.initApply front), .ownEvent .initDone, .pop quiet]

private def stack : StatefulSets.StatefulSet where
  inNamespace := some "default"
  name := "stack"
  uid := some "u2"
  spec := some ⟨some 3, ⟨[], none, true⟩, some "Parallel", [], none⟩

private def stackPod (name : String) : Pod :=
  ownedPod "StatefulSet" "stack" "u2" name

private def stackUsual : List (WorkloadStep StatefulSets.StatefulSet (WatchEvent StatefulSets.PersistentVolumeClaim) Unit) :=
  [.podEvent .init, .podEvent (.initApply (stackPod "stack-0")), .podEvent .initDone,
    .ownEvent (.initApply stack), .podEvent .init, .podEvent (.initApply (stackPod "stack-0")),
    .podEvent (.initApply (stackPod "stack-1")), .podEvent .initDone, .pop ()]

private def batch : Jobs.Job where
  inNamespace := some "default"
  name := "batch"
  uid := some "u3"
  spec := some { Jobs.JobSpec.default with parallelism := some 2 }
  conditions := []

private def batchUsual : List (WorkloadStep Jobs.Job Empty (List Jobs.Reply)) :=
  [.podEvent .init, .podEvent .initDone, .ownEvent (.initApply batch), .pop [.created, .created]]

/-- Three runs in which Pods are requested. -/
theorem workloads_decide_informed_usual :
    EveryStep ReplicaSets.controller.step ReplicaSets.controller.DecidesInformed ReplicaSets.controller.new frontUsual ∧
    EveryStep StatefulSets.controller.step StatefulSets.controller.DecidesInformed StatefulSets.controller.new stackUsual ∧
    EveryStep Jobs.controller.step Jobs.controller.DecidesInformed Jobs.controller.new batchUsual :=
  have usual := workloads_decide_informed frontUsual stackUsual batchUsual
  ⟨usual.1 (by decide +kernel), usual.2.1 (by decide +kernel), usual.2.2 (by decide +kernel)⟩

/-- The ReplicaSet and its two Pods are listed, and the Pods are listed again. -/
private def frontListed : List (WorkloadStep ReplicaSets.ManagedReplicaSet Empty ReplicaSets.Choice) :=
  [.podEvent .init, .podEvent (.initApply (frontPod "front-a")), .podEvent (.initApply (frontPod "front-b")), .podEvent .initDone,
    .ownEvent .init, .ownEvent (.initApply front), .ownEvent .initDone, .pop quiet,
    .podEvent .init, .podEvent (.initApply (frontPod "front-a"))]

/-- While the watch was down one Pod went and another came. -/
private def stackListed : List (WorkloadStep StatefulSets.StatefulSet (WatchEvent StatefulSets.PersistentVolumeClaim) Unit) :=
  [.podEvent .init, .podEvent (.initApply (stackPod "stack-0")), .podEvent .initDone,
    .podEvent .init, .podEvent (.initApply (stackPod "stack-1")), .podEvent .initDone,
    .ownEvent .init, .ownEvent (.initApply stack), .ownEvent .initDone]

private def frontAgain : WorkloadState ReplicaSets.ManagedReplicaSet ReplicaSets.Expectations :=
  run ReplicaSets.controller.step ReplicaSets.controller.new frontListed

private def stackAgain : WorkloadState StatefulSets.StatefulSet StatefulSets.Claims :=
  run StatefulSets.controller.step StatefulSets.controller.new stackListed

/-- A ReplicaSet that has both its Pods creates a third when it is popped in
the middle of a list, and a StatefulSet is popped with a Pod that is gone. -/
theorem not_informed_frontListed :
    (ReplicaSets.controller.requested frontAgain (.pop quiet) ≠ [] ∧ frontAgain.pods ∉ frontAgain.completeSets) ∧
    (StatefulSets.controller.requested stackAgain (.pop ()) ≠ [] ∧ stackAgain.pods ∉ stackAgain.completeSets) := by
  decide +kernel

end NotK8s.Controllers

import NotK8s.Api.Pod
import NotK8s.Apiserver.Quantity

namespace NotK8s.Apiserver

open Library Api

/-!
# The requests of a pod, at admission

What `LimitRanger` and `ResourceQuota` take a pod to request.  Containers add
up, sidecars add up with them and with each other, and the init phase needs
the largest of what any init container needs while it runs.
-/

abbrev ResourceMap := SortedMap String Quantity

namespace ResourceMap

/-- Entries that cannot be read are passed over. -/
def addFromValue (acc : ResourceMap) (list : Option (SortedMap String String)) : ResourceMap :=
  match list with
  | none => acc
  | some list => list.entries.foldl (fun acc entry =>
    match Quantity.parse entry.2 with
    | .ok q => acc.insert entry.1 (match acc.get entry.1 with | some held => held.add q | none => q)
    | .error _ => acc) acc

def addMap (acc other : ResourceMap) : ResourceMap :=
  .fold (fun held q => match held with | some held => Quantity.add held q | none => q) acc other

def maxMap (acc other : ResourceMap) : ResourceMap :=
  .fold (fun held q => match held with | some held => Quantity.max held q | none => q) acc other

end ResourceMap

/-- What the walk over the init containers carries. -/
structure InitTotals where
  total : ResourceMap
  restartableInitTotal : ResourceMap
  initTotal : ResourceMap

def InitTotals.next (field : ResourceRequirements -> Option (SortedMap String String)) (t : InitTotals)
    (container : Container) : InitTotals :=
  let own := ResourceMap.addFromValue .empty (container.resources.bind field)
  if container.isSidecar then
    let restartable := t.restartableInitTotal.addMap own
    { total := t.total.addMap own
      restartableInitTotal := restartable
      initTotal := t.initTotal.maxMap restartable }
  else { t with initTotal := t.initTotal.maxMap (own.addMap t.restartableInitTotal) }

def podResourceMap (field : ResourceRequirements -> Option (SortedMap String String)) (pod : Pod) : ResourceMap :=
  match pod.spec with
  | none => .empty
  | some spec =>
    let total := spec.containers.foldl (fun total (container : Container) =>
      ResourceMap.addFromValue total (container.resources.bind field)) .empty
    let done := spec.initContainers.foldl (InitTotals.next field) ⟨total, .empty, .empty⟩
    done.total.maxMap done.initTotal

def podRequests (pod : Pod) : ResourceMap :=
  podResourceMap ResourceRequirements.requests pod

end NotK8s.Apiserver

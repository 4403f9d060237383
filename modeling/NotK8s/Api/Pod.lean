import Mathlib.Data.String.Basic
import NotK8s.Library.SortedMap

namespace NotK8s.Api

open Library

/-!
# The API pod

The fields of a pod that resource accounting reads, as the API object has
them: quantities are text, and what may be absent is optional.  A list that
may be absent is the empty list, since every reader flattens it.
-/

structure ResourceRequirements where
  requests : Option (SortedMap String String)
  limits : Option (SortedMap String String)

structure Container where
  name : String
  restartPolicy : Option String
  resources : Option ResourceRequirements

structure PodSpec where
  containers : List Container
  initContainers : List Container
  /-- Requests for the pod as a whole. -/
  resources : Option ResourceRequirements
  overhead : Option (SortedMap String String)

structure ContainerStatus where
  name : String
  resources : Option ResourceRequirements
  allocatedResources : Option (SortedMap String String)

structure PodCondition where
  type : String
  reason : Option String

structure PodStatus where
  conditions : List PodCondition
  containerStatuses : List ContainerStatus
  initContainerStatuses : List ContainerStatus

structure Pod where
  spec : Option PodSpec
  status : Option PodStatus

namespace Container

/-- An init container that goes on running beside the others. -/
def isSidecar (container : Container) : Bool :=
  container.restartPolicy = some "Always"

def requests (container : Container) : Option (SortedMap String String) :=
  container.resources.bind fun resources => resources.requests

end Container
end NotK8s.Api

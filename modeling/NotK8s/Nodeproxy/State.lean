import Mathlib.Data.String.Basic
import NotK8s.Library.Relist

namespace NotK8s.Nodeproxy

open Library

/-!
# What the Service proxy mirrors

The Services and EndpointSlices as the two watches report them, and what a
reported event means for the next rebuild.
-/

structure ObjectMeta where
  inNamespace : Option String
  name : String
  labels : Option (SortedMap String String)
  deriving DecidableEq

structure ServicePort where
  name : Option String
  port : Int
  protocol : Option String
  nodePort : Option Int
  deriving DecidableEq

structure ServiceSpec where
  clusterIps : Option (List String)
  clusterIp : Option String
  ports : Option (List ServicePort)
  sessionAffinity : Option String
  deriving DecidableEq

structure Service where
  metadata : ObjectMeta
  spec : Option ServiceSpec
  deriving DecidableEq

structure EndpointPort where
  name : Option String
  port : Option Int
  deriving DecidableEq

structure Endpoint where
  addresses : List String
  ready : Option Bool
  deriving DecidableEq

structure EndpointSlice where
  metadata : ObjectMeta
  addressType : String
  ports : Option (List EndpointPort)
  endpoints : List Endpoint
  deriving DecidableEq

def objKey (metadata : ObjectMeta) : String :=
  metadata.inNamespace.getD "" ++ "/" ++ metadata.name

def Service.key (service : Service) : String :=
  objKey service.metadata

def EndpointSlice.key (slice : EndpointSlice) : String :=
  objKey slice.metadata

structure State where
  services : SortedMap String Service
  endpointSlices : SortedMap String EndpointSlice
  servicesInitialized : Bool
  endpointSlicesInitialized : Bool
  dirty : Bool

def State.default : State where
  services := .empty
  endpointSlices := .empty
  servicesInitialized := false
  endpointSlicesInitialized := false
  dirty := false

inductive EventPhase where
  | init | initApply | apply | delete | initDone
  deriving DecidableEq

/-- What a phase makes of the flag of its kind. -/
def EventPhase.initialized (phase : EventPhase) (before : Bool) : Bool :=
  match phase with
  | .init => false
  | .initDone => true
  | .initApply | .apply | .delete => before

/-- Record one watch event, of a Service or else of an EndpointSlice, and
tell whether it is time for a rebuild. -/
def State.recordEvent (state : State) (services : Bool) (phase : EventPhase) : Bool × State :=
  let state := { state with dirty := true }
  let state :=
    if services then { state with servicesInitialized := phase.initialized state.servicesInitialized }
    else { state with endpointSlicesInitialized := phase.initialized state.endpointSlicesInitialized }
  if state.dirty && state.servicesInitialized && state.endpointSlicesInitialized then
    (true, { state with dirty := false })
  else (false, state)

/-- Fold a watch event into the mirror of its kind. -/
def applyEvent {Obj : Type} (key : Obj -> String) (map : SortedMap String Obj) (ev : WatchEvent Obj) :
    EventPhase × SortedMap String Obj :=
  match ev with
  | .init => (.init, .empty)
  | .initApply object => (.initApply, map.insert (key object) object)
  | .apply object => (.apply, map.insert (key object) object)
  | .delete object => (.delete, map.erase (key object))
  | .initDone => (.initDone, map)

section
variable {Obj : Type} {key : Obj -> String}

theorem applyEvent_mirror (map : SortedMap String Obj) (ev : WatchEvent Obj) :
    (applyEvent key map ev).2 = mirror key map ev := by
  cases ev <;> rfl

end

namespace State
variable (state : State) (services : Bool) (phase : EventPhase)

/-- The state with the event noted and its kind's flag moved. -/
def noted : State :=
  if services then { state with dirty := true, servicesInitialized := phase.initialized state.servicesInitialized }
  else { state with dirty := true, endpointSlicesInitialized := phase.initialized state.endpointSlicesInitialized }

theorem recordEvent_eq :
    state.recordEvent services phase =
      if (state.noted services phase).servicesInitialized && (state.noted services phase).endpointSlicesInitialized then
        (true, { state.noted services phase with dirty := false })
      else (false, state.noted services phase) := by
  cases services <;> simp [recordEvent, noted]

end State

end NotK8s.Nodeproxy

import Mathlib.Data.Int.Order.Basic
import Mathlib.Data.List.Basic

namespace NotK8s.Apiserver
namespace Deletion

/-!
# Deleting an object

A deletion removes an object at once, or marks it and leaves the removal to the
write that clears its last finalizer or to a second deletion.  Each write reads
the object, decides, and takes effect only if the object has not been written
since.  An object is modelled by the fields that decide about its removal.
-/

structure Object where
  uid : Option String
  creationTimestamp : Option Int
  deletionTimestamp : Option Int
  deletionGracePeriodSeconds : Option Int
  finalizers : List String
  specFinalizers : List String
  nodeName : Option String
  terminationGracePeriodSeconds : Option Int
  phase : Option String
  deriving DecidableEq

structure Resource where
  group : String
  resource : String
  kind : String
  deriving DecidableEq

def Resource.isPod (r : Resource) : Bool :=
  r.group.isEmpty && r.resource == "pods"

def Resource.isSecret (r : Resource) : Bool :=
  r.group.isEmpty && r.resource == "secrets"

/-- A Namespace keeps its finalizers in its spec. -/
def hasFinalizers (object : Object) : Bool :=
  !object.finalizers.isEmpty || !object.specFinalizers.isEmpty

def hasDeletionTimestamp (object : Object) : Bool :=
  object.deletionTimestamp.isSome

def podIsAssigned (object : Object) : Bool :=
  object.nodeName.any fun node => !node.isEmpty

def effectivePodGracePeriod (object : Object) (requested : Option Int) : Int :=
  let current := ((object.deletionGracePeriodSeconds.filter fun seconds => decide (0 ≤ seconds)).or
    (object.terminationGracePeriodSeconds.filter fun seconds => decide (0 ≤ seconds))).getD 30
  match requested with
  | none => current
  | some seconds => min current (max seconds 0)

/-! ## What a write does to the object it read -/

inductive Decision where
  | refuse
  | keep
  | put (object : Object)
  | remove
  deriving DecidableEq

structure DeletePreconditions where
  resourceVersion : Option Nat
  uid : Option String
  deriving DecidableEq

def DeletePreconditions.hold (preconditions : DeletePreconditions) (object : Object) (modRevision : Nat) : Bool :=
  preconditions.resourceVersion.all (fun revision => revision == modRevision) &&
    preconditions.uid.all fun uid => object.uid == some uid

/-- Whether a deletion leaves the object to be removed later. -/
def deferDelete (r : Resource) (object : Object) (gracePeriodSeconds : Option Int) : Bool :=
  hasFinalizers object ||
    (r.isPod && podIsAssigned object && decide (0 < effectivePodGracePeriod object gracePeriodSeconds))

/-- The termination marker.  A Namespace's phase goes with it. -/
def marked (r : Resource) (object : Object) (gracePeriodSeconds : Option Int) (now : Int) : Object :=
  { object with
    deletionTimestamp := some now
    phase := if r.kind = "Namespace" then some "Terminating" else object.phase
    deletionGracePeriodSeconds :=
      if r.isPod then some (effectivePodGracePeriod object gracePeriodSeconds) else object.deletionGracePeriodSeconds }

def deleteOnce (r : Resource) (object : Object) (modRevision : Nat) (preconditions : DeletePreconditions)
    (gracePeriodSeconds : Option Int) (now : Int) : Decision :=
  if !preconditions.hold object modRevision then .refuse
  else if deferDelete r object gracePeriodSeconds then
    if hasDeletionTimestamp object then .keep
    else .put (marked r object gracePeriodSeconds now)
  else .remove

/-- The shared tail of all other writes. -/
def persistUpdate (managedSubresource : String) (existing object : Object) : Decision :=
  let object :=
    { object with
      uid := existing.uid.or object.uid
      creationTimestamp := existing.creationTimestamp.or object.creationTimestamp }
  if (managedSubresource.isEmpty || managedSubresource == "finalize") && hasDeletionTimestamp existing &&
      !hasFinalizers object then .remove
  else .put object

/-- The subresources that write no metadata. -/
inductive Subresource where
  | status
  | ephemeralContainers
  | resize
  deriving DecidableEq

def Subresource.managed : Subresource -> String
  | .status => "status"
  | .ephemeralContainers => "ephemeralcontainers"
  | .resize => "resize"

/-- A request after admission.  A PUT brings the whole object; a patch or an
apply is a change of the object read.  Of what the status and the Pod's other
subresources write only the phase is modelled. -/
inductive Request where
  | delete (preconditions : DeletePreconditions) (gracePeriodSeconds : Option Int)
  | update (resourceVersion : Option Nat) (body : Object)
  | patch (resourceVersion : Option Nat) (change : Object -> Object)
  | apply (change : Object -> Object)
  | finalize (resourceVersion : Option Nat) (body : Object)
  | subresource (subresource : Subresource) (resourceVersion : Option Nat) (phase : Option String)
  | bind (nodeName : String)

/-- The object a request would store, and the subresource it comes through.
One that is refused stores none. -/
def candidate (r : Resource) (object : Object) (modRevision : Nat) : Request -> Option (String × Object)
  | .delete _ _ => none
  | .update resourceVersion body =>
    let submitted := if r.isSecret then some (resourceVersion.getD modRevision) else resourceVersion
    if body.uid.any fun uid => !uid.isEmpty && object.uid != some uid then none
    else if submitted = some modRevision then some ("", body)
    else none
  | .patch resourceVersion change =>
    if resourceVersion.all fun revision => revision == modRevision then some ("", change object) else none
  | .apply change => some ("", change object)
  | .finalize resourceVersion body =>
    if resourceVersion = some modRevision then some ("finalize", { body with phase := object.phase }) else none
  | .subresource subresource resourceVersion phase =>
    if resourceVersion.all fun revision => revision == modRevision then
      some (subresource.managed, { object with phase := phase })
    else none
  | .bind nodeName =>
    if hasDeletionTimestamp object || podIsAssigned object then none
    else some ("", { object with nodeName := some nodeName })

def decision (r : Resource) (object : Object) (modRevision : Nat) (now : Int) : Request -> Decision
  | .delete preconditions gracePeriodSeconds => deleteOnce r object modRevision preconditions gracePeriodSeconds now
  | request =>
    match candidate r object modRevision request with
    | none => .refuse
    | some (managedSubresource, stored) => persistUpdate managedSubresource object stored

/-! ## Writers at work -/

structure Stored where
  object : Object
  modRevision : Nat
  deriving DecidableEq

/-- `pending` are the requests that have read the object. -/
structure World where
  resource : Resource
  stored : Option Stored
  revision : Nat
  pending : List (Request × Stored)

/-- A request that is refused by admission or validation, or is a dry run, is
not written. -/
inductive Step where
  | read (request : Request)
  | commit (index : Nat) (now : Int) (writes : Bool)

namespace World

def start (r : Resource) (object : Object) : World where
  resource := r
  stored := some ⟨object, 1⟩
  revision := 1
  pending := []

/-- The request that a step carries out, with the object it finds. -/
def lands (w : World) : Step -> Option (Request × Stored × Int)
  | .read _ => none
  | .commit index now writes =>
    match w.pending[index]?, w.stored with
    | some (request, snapshot), some stored =>
      if writes && snapshot.modRevision == stored.modRevision then some (request, snapshot, now) else none
    | _, _ => none

def land (w : World) : Decision -> World
  | .refuse => w
  | .keep => w
  | .put object => { w with stored := some ⟨object, w.revision + 1⟩, revision := w.revision + 1 }
  | .remove => { w with stored := none, revision := w.revision + 1 }

def act (w : World) (step : Step) : World :=
  match step with
  | .read request =>
    match w.stored with
    | none => w
    | some stored => { w with pending := w.pending ++ [(request, stored)] }
  | .commit index now writes =>
    let answered := { w with pending := w.pending.eraseIdx index }
    match w.lands (.commit index now writes) with
    | none => answered
    | some (request, snapshot, now) =>
      answered.land (decision w.resource snapshot.object snapshot.modRevision now request)

end World
end Deletion
end NotK8s.Apiserver

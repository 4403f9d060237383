import Mathlib.Data.String.Basic
import NotK8s.Library.ReverseIndex

namespace NotK8s.Controllers
namespace GarbageCollector

open Library

/-!
# The garbage collector's graph

Watch events of every kind are folded into one graph of who exists and who
names whom as an owner.  While a kind is listed again its objects are put
aside, and they replace those of the kind when the list is complete.  Objects
whose owners are all gone wait in a queue to be deleted.
-/

/-! ## Records -/

structure OwnerReference where
  apiVersion : String
  kind : String
  name : String
  uid : String
  deriving DecidableEq

def OwnerReference.kindKey (owner : OwnerReference) : String :=
  owner.apiVersion ++ "/" ++ owner.kind

/-- The metadata of an object, whatever its kind. -/
structure DynamicObject where
  uid : Option String
  inNamespace : Option String
  name : String
  ownerReferences : List OwnerReference
  deletionTimestamp : Option Int
  deriving DecidableEq

structure ObjRecord where
  uid : String
  gvkKey : String
  inNamespace : String
  name : String
  ownerRefs : List OwnerReference
  deleting : Bool
  deriving DecidableEq

def ownerRefsOf (obj : DynamicObject) : List OwnerReference :=
  obj.ownerReferences.filter fun owner => !owner.uid.isEmpty

namespace ObjRecord

def ownerUids (record : ObjRecord) : List String :=
  record.ownerRefs.map OwnerReference.uid

def ownerKinds (record : ObjRecord) : List String :=
  record.ownerRefs.map OwnerReference.kindKey

def ofObject (kindKey uid : String) (obj : DynamicObject) : ObjRecord where
  uid := uid
  gvkKey := kindKey
  inNamespace := obj.inNamespace.getD ""
  name := obj.name
  ownerRefs := ownerRefsOf obj
  deleting := obj.deletionTimestamp.isSome

end ObjRecord

def allOwnersDead (ownerUids : List String) (exists_ : Finset String) : Bool :=
  !ownerUids.isEmpty && ownerUids.all fun owner => decide (owner ∉ exists_)

def shouldDeleteOrphan (record : ObjRecord) (ready : Bool) (exists_ : Finset String) : Bool :=
  ready && !record.deleting && allOwnersDead record.ownerUids exists_

/-! ## The graph -/

/-- Times are in seconds. -/
structure DeleteRetry where
  due : Nat
  delay : Nat
  deriving DecidableEq

structure State where
  resources : Finset String
  exists_ : Finset String
  objectsWithOwners : SortedMap String ObjRecord
  childrenOf : ReverseIndex String String
  pendingInit : Finset String
  uidToKind : SortedMap String String
  relist : SortedMap String (SortedMap String ObjRecord)
  deletes : SortedMap String DeleteRetry

/-- The state a generation begins with. -/
def State.start (resources : Finset String) : State where
  resources := resources
  exists_ := ∅
  objectsWithOwners := .empty
  childrenOf := .empty
  pendingInit := resources
  uidToKind := .empty
  relist := .empty
  deletes := .empty

namespace State

def enqueueDelete (s : State) (now : Nat) (uid : String) : State :=
  { s with deletes := if (s.deletes.get uid).isSome then s.deletes else s.deletes.insert uid ⟨now, 1⟩ }

def completeDelete (s : State) (now : Nat) (uid : String) (retry : Bool) : State :=
  if !retry then { s with deletes := s.deletes.erase uid }
  else
    match s.deletes.get uid with
    | some entry => { s with deletes := s.deletes.insert uid ⟨now + entry.delay, min (entry.delay * 2) 30⟩ }
    | none => s

def ownersInitialized (s : State) (record : ObjRecord) : Bool :=
  record.ownerKinds.all fun kind => decide (kind ∈ s.resources) && decide (kind ∉ s.pendingInit)

def isOrphan (s : State) (record : ObjRecord) : Bool :=
  shouldDeleteOrphan record (s.ownersInitialized record) s.exists_

/-- Owners that are no longer named lose the child. -/
def storeRecord (s : State) (record : ObjRecord) : State :=
  let uid := record.uid
  let childrenOf :=
    match s.objectsWithOwners.get uid with
    | some old => s.childrenOf.leave (old.ownerUids.filter fun owner => !record.ownerUids.contains owner) uid
    | none => s.childrenOf
  let s := { s with exists_ := insert uid s.exists_, uidToKind := s.uidToKind.insert uid record.gvkKey }
  if record.ownerUids.isEmpty then
    { s with childrenOf := childrenOf, objectsWithOwners := s.objectsWithOwners.erase uid }
  else
    { s with
      childrenOf := childrenOf.enter record.ownerUids uid
      objectsWithOwners := s.objectsWithOwners.insert uid record }

/-- An object is put aside while its kind is listed. -/
def stage (s : State) (kindKey uid : String) (record : ObjRecord) : State :=
  { s with relist := s.relist.insert kindKey (((s.relist.get kindKey).getD .empty).insert uid record) }

def handleApply (s : State) (now : Nat) (kindKey : String) (obj : DynamicObject) (staged : Bool) : State :=
  match obj.uid with
  | none => s
  | some uid =>
    let record := ObjRecord.ofObject kindKey uid obj
    if staged then s.stage kindKey uid record
    else
      let s := s.storeRecord record
      if s.isOrphan record then s.enqueueDelete now record.uid else s

def beginRelist (s : State) (kindKey : String) : State :=
  { s with pendingInit := insert kindKey s.pendingInit, relist := s.relist.insert kindKey .empty }

/-- An object that is no longer there. -/
def forget (s : State) (uid : String) : State :=
  { s with
    exists_ := s.exists_.erase uid
    uidToKind := s.uidToKind.erase uid
    objectsWithOwners := s.objectsWithOwners.erase uid
    childrenOf :=
      match s.objectsWithOwners.get uid with
      | some old => s.childrenOf.leave old.ownerUids uid
      | none => s.childrenOf }

def dropEmpty (s : State) : State :=
  { s with childrenOf := s.childrenOf.dropEmpty }

/-- The objects of the kind that are not in its list are forgotten, and those
in it are stored. -/
def install (s : State) (kindKey : String) : State :=
  let snapshot := (s.relist.get kindKey).getD .empty
  let oldUids := (s.uidToKind.entries.filter fun entry => entry.2 == kindKey).map Prod.fst
  let cleared := (oldUids.foldl forget { s with relist := s.relist.erase kindKey }).dropEmpty
  let stored := (snapshot.entries.map Prod.snd).foldl storeRecord cleared
  { stored with pendingInit := stored.pendingInit.erase kindKey }

def installSnapshot (s : State) (kindKey : String) : State × List ObjRecord :=
  let s := s.install kindKey
  (s, (s.objectsWithOwners.entries.map Prod.snd).filter s.isOrphan)

def finishRelist (s : State) (now : Nat) (kindKey : String) : State :=
  let (s, orphans) := s.installSnapshot kindKey
  orphans.foldl (fun s record => s.enqueueDelete now record.uid) s

def unlist (s : State) (kindKey uid : String) : State :=
  { s with
    relist :=
      match s.relist.get kindKey with
      | some staged => s.relist.insert kindKey (staged.erase uid)
      | none => s.relist
    deletes := s.deletes.erase uid }

/-- A deleted object leaves the list in progress, the queue and the graph. -/
def remove (s : State) (kindKey uid : String) : State :=
  ((s.unlist kindKey uid).forget uid).dropEmpty

def dropOwner (s : State) (uid : String) : State :=
  { s with childrenOf := s.childrenOf.erase uid }

def recordsOf (s : State) (uids : Finset String) : List ObjRecord :=
  (s.objectsWithOwners.entries.filter fun entry => decide (entry.1 ∈ uids)).map Prod.snd

/-- The children are those of the index before their owner leaves it. -/
def handleDelete (s : State) (now : Nat) (kindKey : String) (obj : DynamicObject) : State :=
  match obj.uid with
  | none => s
  | some uid =>
    let s := s.remove kindKey uid
    let children := s.childrenOf.sources uid
    let s := s.dropOwner uid
    ((s.recordsOf children).filter s.isOrphan).foldl (fun s record => s.enqueueDelete now record.uid) s

/-- The delete step looks at an entry of the queue again, and goes on with its
record or drops it. -/
def nextDelete (s : State) (uid : String) : State × Option ObjRecord :=
  match s.objectsWithOwners.get uid with
  | none => ({ s with deletes := s.deletes.erase uid }, none)
  | some record =>
    if !s.isOrphan record || decide (record.gvkKey ∉ s.resources) then ({ s with deletes := s.deletes.erase uid }, none)
    else (s, some record)

end State
end GarbageCollector
end NotK8s.Controllers

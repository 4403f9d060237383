import NotK8s.Controllers.GarbageGraph

namespace NotK8s.Controllers
namespace GarbageCollector

open Library

/-!
# What the garbage collector deletes

An attempt starts from a record of the graph, which may be old.  It reads every
owner the record names by kind and name, and if all of them are gone it asks
for the deletion of the object that still has the record's identifier.  Other
clients write between the reads and after them.  An owner that was read as gone
stays gone, since identifiers are not given out twice, so what can go wrong is
what the object's references have become since the record.
-/

/-- An object as the API server has it. -/
structure ApiObject where
  kindKey : String
  uid : String
  inNamespace : String
  name : String
  ownerReferences : List OwnerReference
  deletionTimestamp : Option Int
  deriving DecidableEq

namespace ApiObject

def toDynamic (o : ApiObject) : DynamicObject where
  uid := some o.uid
  inNamespace := some o.inNamespace
  name := o.name
  ownerReferences := o.ownerReferences
  deletionTimestamp := o.deletionTimestamp

def record (o : ApiObject) : ObjRecord :=
  .ofObject o.kindKey o.uid o.toDynamic

end ApiObject

/-! ## Attempts -/

structure OwnerTarget where
  kindKey : String
  inNamespace : String
  name : String
  deriving DecidableEq

def State.ownerTargets (s : State) (record : ObjRecord) : List OwnerTarget :=
  record.ownerRefs.filterMap fun owner =>
    if owner.kindKey ∈ s.resources then some ⟨owner.kindKey, record.inNamespace, owner.name⟩ else none

/-- The owners are read one after the other, and then the deletion is sent. -/
inductive Attempt where
  | checkOwnersDead (record : ObjRecord) (left : List OwnerTarget)
  | deleteObject (record : ObjRecord)
  deriving DecidableEq

/-- The answer to the deletion, as the collector gets it. -/
inductive Reply where
  | deleted
  | notFound
  | error (code : Option Nat)
  | timedOut
  deriving DecidableEq

/-- What a read of the object finds after a conflict. -/
inductive CurrentRead where
  | present (uid : Option String)
  | notFound
  | failed
  deriving DecidableEq

/-- Whether another attempt is needed. -/
def retryAfter (record : ObjRecord) (current : CurrentRead) : Reply -> Bool
  | .deleted => false
  | .notFound => false
  | .timedOut => true
  | .error code =>
    let replaced :=
      match current with
      | .present uid => decide (uid ≠ some record.uid)
      | .notFound => true
      | .failed => false
    if code = some 409 && replaced then false
    else !(code.any fun code => [400, 401, 403, 405, 422].contains code)

/-! ## The collector and the API server -/

/-- `requests` are the deletions sent and not carried out yet, whether or not
an attempt still waits for them, and `history` has every version of every
object. -/
structure World where
  graph : State
  attempt : Option Attempt
  requests : List ObjRecord
  objects : List ApiObject
  history : List ApiObject

/-- How the API server answers a deletion of the right object.  An object with
finalizers is only marked. -/
inductive Verdict where
  | refused
  | removed
  | marked (at_ : Int)
  deriving DecidableEq

inductive Action where
  | watch (event : Event)
  | look (uid : String)
  | getOwner (now : Nat) (fails : Bool)
  | sendDelete
  | serve (index : Nat) (verdict : Verdict)
  | reply (now : Nat) (current : CurrentRead) (reply : Reply)
  | restart (resources : Finset String)
  | create (object : ApiObject)
  | update (uid : String) (ownerReferences : List OwnerReference) (deletionTimestamp : Option Int)
  | remove (uid : String)

namespace World

def start (resources : Finset String) : World where
  graph := .start resources
  attempt := none
  requests := []
  objects := []
  history := []

def find (w : World) (kindKey inNamespace name : String) : Option ApiObject :=
  w.objects.find? fun o => decide (o.kindKey = kindKey ∧ o.inNamespace = inNamespace ∧ o.name = name)

def complete (w : World) (now : Nat) (record : ObjRecord) (retry : Bool) : World :=
  { w with attempt := none, graph := w.graph.completeDelete now record.uid retry }

/-- The object a deletion applies to: the one of its name, if it has the
identifier the deletion asks for. -/
def target (w : World) (index : Nat) : Option (ObjRecord × ApiObject) :=
  match w.requests[index]? with
  | none => none
  | some record =>
    match w.find record.gvkKey record.inNamespace record.name with
    | none => none
    | some object => if object.uid = record.uid then some (record, object) else none

def rewrite (w : World) (uid : String) (change : ApiObject -> ApiObject) : World :=
  { w with
    objects := w.objects.map fun o => if o.uid = uid then change o else o
    history := w.history ++ (w.objects.filter fun o => o.uid = uid).map change }

def drop (w : World) (uid : String) : World :=
  { w with objects := w.objects.filter fun o => o.uid ≠ uid }

def carryOut (w : World) (object : ApiObject) : Verdict -> World
  | .refused => w
  | .removed => w.drop object.uid
  | .marked at_ => w.rewrite object.uid fun o => { o with deletionTimestamp := some at_ }

def act (w : World) : Action -> World
  | .watch event => { w with graph := step w.graph event }
  | .look uid =>
    match w.attempt with
    | some _ => w
    | none =>
      let (graph, record) := w.graph.nextDelete uid
      { w with graph := graph, attempt := record.map fun record => .checkOwnersDead record (graph.ownerTargets record) }
  | .getOwner now fails =>
    match w.attempt with
    | some (.checkOwnersDead record (target :: left)) =>
      if fails then w.complete now record true
      else if (w.find target.kindKey target.inNamespace target.name).isSome then w.complete now record false
      else { w with attempt := some (.checkOwnersDead record left) }
    | _ => w
  | .sendDelete =>
    match w.attempt with
    | some (.checkOwnersDead record []) =>
      { w with attempt := some (.deleteObject record), requests := w.requests ++ [record] }
    | _ => w
  | .serve index verdict =>
    let served := { w with requests := w.requests.eraseIdx index }
    match w.target index with
    | none => served
    | some (_, object) => served.carryOut object verdict
  | .reply now current reply =>
    match w.attempt with
    | some (.deleteObject record) => w.complete now record (retryAfter record current reply)
    | _ => w
  | .restart resources => { w with graph := .start resources, attempt := none }
  | .create object => { w with objects := object :: w.objects, history := w.history ++ [object] }
  | .update uid ownerReferences deletionTimestamp =>
    w.rewrite uid fun o => { o with ownerReferences := ownerReferences, deletionTimestamp := deletionTimestamp }
  | .remove uid => w.drop uid

/-- A watch delivers some version of some object, however old. -/
def Delivered (history : List ApiObject) : Event -> Prop
  | .beginRelist _ => True
  | .finishRelist _ _ => True
  | .apply _ kindKey obj _ => Exists fun version => version ∈ history ∧ version.kindKey = kindKey ∧ obj = version.toDynamic
  | .delete _ kindKey obj => Exists fun version => version ∈ history ∧ version.kindKey = kindKey ∧ obj = version.toDynamic
  | .completeDelete _ _ _ => False
  | .nextDelete _ => False

/-- A new object gets a free name and an identifier that nothing has mentioned. -/
def Enabled (w : World) : Action -> Prop
  | .watch event => Delivered w.history event
  | .create object =>
    w.find object.kindKey object.inNamespace object.name = none ∧
      (forall owner, owner ∈ object.ownerReferences -> owner.uid ≠ object.uid) ∧
      forall version, version ∈ w.history -> version.uid ≠ object.uid ∧
        forall owner, owner ∈ version.ownerReferences -> owner.uid ≠ object.uid
  | _ => True

instance (history : List ApiObject) (event : Event) : Decidable (Delivered history event) := by
  cases event <;> unfold Delivered <;> infer_instance

instance (w : World) (action : Action) : Decidable (w.Enabled action) := by
  cases action <;> unfold Enabled <;> infer_instance

def Refers (inNamespace : String) (owner : OwnerReference) (o : ApiObject) : Prop :=
  o.kindKey = owner.kindKey ∧ o.name = owner.name ∧ o.uid = owner.uid ∧ o.inNamespace = inNamespace

instance (inNamespace : String) (owner : OwnerReference) (o : ApiObject) : Decidable (Refers inNamespace owner o) :=
  inferInstanceAs (Decidable (_ ∧ _))

/-- The owner a reference names does not exist. -/
def Absent (w : World) (inNamespace : String) (owner : OwnerReference) : Prop :=
  forall o, o ∈ w.objects -> ¬ Refers inNamespace owner o

instance (w : World) (inNamespace : String) (owner : OwnerReference) : Decidable (w.Absent inNamespace owner) :=
  inferInstanceAs (Decidable (forall o, o ∈ w.objects -> _))

def Orphaned (w : World) (object : ApiObject) : Prop :=
  object.ownerReferences ≠ [] ∧ forall owner, owner ∈ object.ownerReferences -> w.Absent object.inNamespace owner

instance (w : World) (object : ApiObject) : Decidable (w.Orphaned object) :=
  inferInstanceAs (Decidable (_ ∧ _))

/-- The object a step deletes for the collector. -/
def deleted (w : World) : Action -> Option (ObjRecord × ApiObject)
  | .serve _ .refused => none
  | .serve index _ => w.target index
  | _ => none

/-- Only orphans are deleted. -/
def DeletesOrphan (w : World) (action : Action) : Prop :=
  forall deletion, deletion ∈ w.deleted action ->
    deletion.2 ∈ w.objects ∧ deletion.2.uid = deletion.1.uid ∧ w.Orphaned deletion.2

instance (w : World) (action : Action) : Decidable (w.DeletesOrphan action) :=
  Option.decidableForallMem (w.deleted action)

/-- The object has an owner reference, and those it gained since the record
name nobody alive. -/
def NotAdopted (w : World) (action : Action) : Prop :=
  forall deletion, deletion ∈ w.deleted action ->
    deletion.2.ownerReferences ≠ [] ∧
      forall owner, owner ∈ deletion.2.ownerReferences -> owner ∉ deletion.1.ownerRefs ->
        w.Absent deletion.2.inNamespace owner

instance (w : World) (action : Action) : Decidable (w.NotAdopted action) :=
  Option.decidableForallMem (w.deleted action)

end World

/-! ## Records of the graph -/

namespace State

variable {s : State} {P : ObjRecord -> Prop} {record : ObjRecord} {uid kindKey : String} {records : List ObjRecord}

/-- Every record of the graph, aside or not, is such. -/
structure RecordsAre (s : State) (P : ObjRecord -> Prop) : Prop where
  stored : forall {uid record}, s.objectsWithOwners.get uid = some record -> P record
  staged : forall {kind uid record}, ((s.relist.get kind).getD .empty).get uid = some record -> P record

theorem recordsAre_start {resources : Finset String} : (start resources).RecordsAre P where
  stored := by
    intro uid record found
    cases found
  staged := by
    intro kind uid record found
    cases found

theorem RecordsAre.mono {Q : ObjRecord -> Prop} (are : s.RecordsAre P) (weaker : forall record, P record -> Q record) :
    s.RecordsAre Q :=
  ⟨fun found => weaker _ (are.stored found), fun found => weaker _ (are.staged found)⟩

theorem RecordsAre.storeRecord (are : s.RecordsAre P) (new : P record) : (s.storeRecord record).RecordsAre P where
  stored := by
    intro uid held found
    rw [storeRecord_get] at found
    split_ifs at found with same bare
    · rw [← Option.some.inj found]
      exact new
    · exact are.stored found
  staged := by
    intro kind uid held found
    rw [storeRecord_relist] at found
    exact are.staged found

theorem RecordsAre.storeAll (are : s.RecordsAre P) (new : forall record, record ∈ records -> P record) :
    (records.foldl State.storeRecord s).RecordsAre P :=
  List.foldlRecOn (motive := fun s : State => s.RecordsAre P) records _ are fun _ are record listed =>
    are.storeRecord (new record listed)

theorem RecordsAre.forget (are : s.RecordsAre P) : (s.forget uid).RecordsAre P where
  stored := by
    intro other held found
    rw [forget_get] at found
    split_ifs at found
    exact are.stored found
  staged := are.staged

theorem RecordsAre.forgetAll {uids : List String} (are : s.RecordsAre P) : (uids.foldl State.forget s).RecordsAre P :=
  List.foldlRecOn (motive := fun s : State => s.RecordsAre P) uids _ are fun _ are _ _ => are.forget

theorem RecordsAre.relisted {relist : SortedMap String (SortedMap String ObjRecord)} (are : s.RecordsAre P)
    (new : forall {kind uid record}, ((relist.get kind).getD .empty).get uid = some record -> P record) :
    RecordsAre { s with relist := relist } P :=
  ⟨are.stored, new⟩

theorem RecordsAre.install (are : s.RecordsAre P) : (s.install kindKey).RecordsAre P := by
  have stripped : RecordsAre { s with relist := s.relist.erase kindKey } P := by
    refine are.relisted fun found => ?_
    rw [staged_erase] at found
    split_ifs at found
    exact are.staged found
  have cleared : (s.cleared kindKey).RecordsAre P := ⟨stripped.forgetAll.stored, stripped.forgetAll.staged⟩
  have installed := @RecordsAre.storeAll _ P (s.listedOf kindKey) cleared fun record listed => by
    rcases mem_listedOf.mp listed with ⟨uid, found⟩
    exact are.staged found
  rw [install_eq]
  exact ⟨installed.stored, installed.staged⟩

theorem RecordsAre.enqueueAll {now : Nat} (are : s.RecordsAre P) :
    (records.foldl (fun s record => s.enqueueDelete now record.uid) s).RecordsAre P := by
  rcases @enqueueAll_eq s now records with ⟨deletes, graphIs⟩
  rw [graphIs]
  exact ⟨are.stored, are.staged⟩

theorem RecordsAre.handleApply {now : Nat} {obj : DynamicObject} {staged : Bool} (are : s.RecordsAre P)
    (new : forall uid, obj.uid = some uid -> P (.ofObject kindKey uid obj)) :
    (s.handleApply now kindKey obj staged).RecordsAre P := by
  unfold State.handleApply
  cases known : obj.uid with
  | none => exact are
  | some uid =>
    dsimp only
    cases staged with
    | true =>
      rw [if_pos rfl]
      refine are.relisted fun found => ?_
      rw [staged_insert] at found
      split_ifs at found
      · rw [SortedMap.get_insert] at found
        split_ifs at found
        · rw [← Option.some.inj found]
          exact new uid known
        · exact are.staged found
      · exact are.staged found
    | false =>
      rw [if_neg Bool.false_ne_true]
      have stored := are.storeRecord (new uid known)
      split_ifs
      · exact ⟨stored.stored, stored.staged⟩
      · exact stored

theorem RecordsAre.handleDelete {now : Nat} {obj : DynamicObject} (are : s.RecordsAre P) :
    (s.handleDelete now kindKey obj).RecordsAre P := by
  cases known : obj.uid with
  | none =>
    unfold State.handleDelete
    rw [known]
    exact are
  | some uid =>
    rw [handleDelete_eq known]
    refine RecordsAre.enqueueAll ⟨fun found => ?_, fun found => ?_⟩
    · have kept : (if _ = uid then none else s.objectsWithOwners.get _) = some _ := SortedMap.get_erase.symm.trans found
      split_ifs at kept
      exact are.stored kept
    · have kept := remove_relist.symm.trans found
      split_ifs at kept
      exact are.staged kept

theorem RecordsAre.step {event : Event} (are : s.RecordsAre P)
    (new : forall now kindKey obj staged uid, event = .apply now kindKey obj staged -> obj.uid = some uid ->
      P (.ofObject kindKey uid obj)) : (GarbageCollector.step s event).RecordsAre P := by
  cases event with
  | beginRelist kindKey =>
    refine ⟨are.stored, fun found => ?_⟩
    have kept := staged_insert.symm.trans found
    split_ifs at kept
    · cases kept
    · exact are.staged kept
  | apply now kindKey obj staged => exact are.handleApply fun uid known => new now kindKey obj staged uid rfl known
  | delete now kindKey obj => exact are.handleDelete
  | finishRelist now kindKey => exact are.install.enqueueAll
  | completeDelete now uid retry =>
    rcases @completeDelete_eq s now uid retry with ⟨deletes, graphIs⟩
    have graphIs' : GarbageCollector.step s (.completeDelete now uid retry) = { s with deletes := deletes } := graphIs
    rw [graphIs']
    exact ⟨are.stored, are.staged⟩
  | nextDelete uid =>
    rcases @nextDelete_eq s uid with ⟨deletes, graphIs⟩
    have graphIs' : GarbageCollector.step s (.nextDelete uid) = { s with deletes := deletes } := graphIs
    rw [graphIs']
    exact ⟨are.stored, are.staged⟩

/-- An attempt starts from a record of the graph all of whose owners' kinds
are watched. -/
theorem nextDelete_some (goes : (s.nextDelete uid).2 = some record) :
    s.objectsWithOwners.get uid = some record ∧ forall kind, kind ∈ record.ownerKinds -> kind ∈ (s.nextDelete uid).1.resources := by
  unfold nextDelete at goes ⊢
  cases found : s.objectsWithOwners.get uid with
  | none =>
    rw [found] at goes
    cases goes
  | some held =>
    rw [found] at goes
    dsimp only at goes ⊢
    split_ifs at goes ⊢ with drops
    have same := Option.some.inj goes
    refine ⟨congrArg some same, fun kind listed => ?_⟩
    rw [← same] at listed
    rw [Bool.or_eq_true, not_or, Bool.not_eq_true, Bool.not_eq_false'] at drops
    exact ((isOrphan_iff.mp drops.1).1 kind listed).1

end State
/-! ## What was read as gone stays gone -/

namespace World

variable {w w' : World} {record : ObjRecord} {action : Action} {owner : OwnerReference} {inNamespace : String}

/-- The record is that of some version of some object. -/
def Recorded (history : List ApiObject) (record : ObjRecord) : Prop :=
  Exists fun version => version ∈ history ∧ version.record = record

/-- The owners of the record do not exist. -/
def OwnersGone (w : World) (record : ObjRecord) : Prop :=
  forall owner, owner ∈ record.ownerRefs -> w.Absent record.inNamespace owner

/-- The owners read so far. -/
def Checked (w : World) : Attempt -> Prop
  | .checkOwnersDead record left => Recorded w.history record ∧ forall owner, owner ∈ record.ownerRefs ->
      OwnerTarget.mk owner.kindKey record.inNamespace owner.name ∈ left ∨ w.Absent record.inNamespace owner
  | .deleteObject _ => True

structure Invariant (w : World) : Prop where
  graph : w.graph.RecordsAre (Recorded w.history)
  attempt : forall attempt, w.attempt = some attempt -> w.Checked attempt
  requests : forall record, record ∈ w.requests -> Recorded w.history record ∧ w.OwnersGone record

theorem Recorded.mono {history more : List ApiObject} (recorded : Recorded history record) :
    Recorded (history ++ more) record := by
  rcases recorded with ⟨version, listed, same⟩
  exact ⟨version, List.mem_append_left _ listed, same⟩

theorem Absent.of_objects (absent : w.Absent inNamespace owner)
    (objects : forall o, o ∈ w'.objects -> Exists fun old => old ∈ w.objects ∧
      (Refers inNamespace owner o -> Refers inNamespace owner old)) : w'.Absent inNamespace owner := by
  intro o listed refers
  rcases objects o listed with ⟨old, there, keeps⟩
  exact absent old there (keeps refers)

theorem absent_create {object : ApiObject} (enabled : w.Enabled (.create object)) (recorded : Recorded w.history record)
    (names : owner ∈ record.ownerRefs) (absent : w.Absent inNamespace owner) :
    (w.act (.create object)).Absent inNamespace owner := by
  rcases recorded with ⟨version, inHistory, same⟩
  have mentioned : owner ∈ version.ownerReferences := by
    rw [← same] at names
    exact (List.mem_filter.mp names).1
  intro o listed refers
  rcases List.mem_cons.mp listed with new | old
  · rw [new] at refers
    exact (enabled.2.2 version inHistory).2 owner mentioned refers.2.2.1.symm
  · exact absent o old refers

theorem absent_rewrite {uid : String} {change : ApiObject -> ApiObject}
    (same : forall o, (change o).kindKey = o.kindKey ∧ (change o).name = o.name ∧ (change o).uid = o.uid ∧
      (change o).inNamespace = o.inNamespace) (absent : w.Absent inNamespace owner) :
    (w.rewrite uid change).Absent inNamespace owner := by
  refine absent.of_objects fun o listed => ?_
  rcases List.mem_map.mp listed with ⟨old, there, rfl⟩
  refine ⟨old, there, fun refers => ?_⟩
  split_ifs at refers
  · rcases same old with ⟨kindKey, name, uid, inNamespace⟩
    unfold Refers at refers ⊢
    rwa [kindKey, name, uid, inNamespace] at refers
  · exact refers

theorem absent_drop {uid : String} (absent : w.Absent inNamespace owner) : (w.drop uid).Absent inNamespace owner :=
  absent.of_objects fun o listed => ⟨o, (List.mem_filter.mp listed).1, id⟩

/-- Writes to the objects that bring back no owner of a recorded version. -/
theorem Invariant.written {objects more : List ApiObject} (invariant : w.Invariant)
    (absent : forall record owner, Recorded w.history record -> owner ∈ record.ownerRefs ->
      w.Absent record.inNamespace owner ->
      World.Absent { w with objects := objects, history := w.history ++ more } record.inNamespace owner) :
    Invariant { w with objects := objects, history := w.history ++ more } where
  graph := invariant.graph.mono fun _ recorded => recorded.mono
  attempt := by
    intro attempt running
    have checked := invariant.attempt attempt running
    cases attempt with
    | deleteObject record => trivial
    | checkOwnersDead record left =>
      refine ⟨checked.1.mono, fun owner names => ?_⟩
      exact (checked.2 owner names).imp_right (absent record owner checked.1 names)
  requests := by
    intro record listed
    have sent := invariant.requests record listed
    exact ⟨sent.1.mono, fun owner names => absent record owner sent.1 names (sent.2 owner names)⟩

theorem Invariant.rewrite {uid : String} {change : ApiObject -> ApiObject} (invariant : w.Invariant)
    (same : forall o, (change o).kindKey = o.kindKey ∧ (change o).name = o.name ∧ (change o).uid = o.uid ∧
      (change o).inNamespace = o.inNamespace) : (w.rewrite uid change).Invariant :=
  invariant.written fun _ _ _ _ absent => absent_rewrite same absent

theorem Invariant.drop {uid : String} (invariant : w.Invariant) : (w.drop uid).Invariant := by
  have written := @Invariant.written w (w.objects.filter fun o => o.uid ≠ uid) [] invariant
    fun _ _ _ _ absent => absent_drop absent
  rw [List.append_nil] at written
  exact written

theorem Invariant.complete {now : Nat} {retry : Bool} (invariant : w.Invariant) :
    (w.complete now record retry).Invariant where
  graph := @State.RecordsAre.step w.graph _ (.completeDelete now record.uid retry) invariant.graph
    nofun
  attempt := nofun
  requests := invariant.requests

/-- The owner a target was made of is absent where the read finds nothing. -/
theorem absent_of_find (missing : (w.find owner.kindKey inNamespace owner.name).isSome = false) :
    w.Absent inNamespace owner := by
  intro o listed refers
  rw [Option.isSome_eq_false_iff, Option.isNone_iff_eq_none] at missing
  refine List.find?_eq_none.mp missing o listed (decide_eq_true ?_)
  exact ⟨refers.1, refers.2.2.2, refers.2.1⟩

section

variable (invariant : w.Invariant)
include invariant

theorem Invariant.carryOut {object : ApiObject} {verdict : Verdict} :
    (w.carryOut object verdict).Invariant := by
  cases verdict with
  | refused => exact invariant
  | removed => exact invariant.drop
  | marked at_ => exact invariant.rewrite fun _ => ⟨rfl, rfl, rfl, rfl⟩

theorem Invariant.watch {event : Event} (delivered : Delivered w.history event) :
    (w.act (.watch event)).Invariant where
  graph := by
    refine invariant.graph.step fun now kindKey obj staged uid same known => ?_
    rw [same] at delivered
    rcases delivered with ⟨version, inHistory, ofKind, rfl⟩
    have uidIs : version.uid = uid := Option.some.inj known
    refine ⟨version, inHistory, ?_⟩
    unfold ApiObject.record
    rw [ofKind, uidIs]
  attempt := invariant.attempt
  requests := invariant.requests

theorem Invariant.look {uid : String} : (w.act (.look uid)).Invariant := by
  unfold act
  cases running : w.attempt with
  | some attempt => exact invariant
  | none =>
    have graph : (w.graph.nextDelete uid).1.RecordsAre (Recorded w.history) :=
      @State.RecordsAre.step w.graph _ (.nextDelete uid) invariant.graph nofun
    refine ⟨graph, fun attempt starts => ?_, invariant.requests⟩
    rcases Option.map_eq_some_iff.mp starts with ⟨record, goes, rfl⟩
    rcases State.nextDelete_some goes with ⟨found, watched⟩
    refine ⟨invariant.graph.stored found, fun owner names => Or.inl ?_⟩
    refine List.mem_filterMap.mpr ⟨owner, names, if_pos ?_⟩
    exact watched owner.kindKey (List.mem_map.mpr ⟨owner, names, rfl⟩)

theorem Invariant.getOwner {now : Nat} {fails : Bool} : (w.act (.getOwner now fails)).Invariant := by
  unfold act
  dsimp only
  split
  · next record target left running =>
      have checked := invariant.attempt _ running
      split_ifs with failed alive
      · exact invariant.complete
      · exact invariant.complete
      · refine ⟨invariant.graph, fun attempt same => ?_, invariant.requests⟩
        rw [← Option.some.inj same]
        refine ⟨checked.1, fun owner names => ?_⟩
        rcases checked.2 owner names with listed | absent
        · rcases List.mem_cons.mp listed with here | later
          · rw [← here, Bool.not_eq_true] at alive
            exact Or.inr (absent_of_find alive)
          · exact Or.inl later
        · exact Or.inr absent
  · exact invariant

theorem Invariant.sendDelete : (w.act .sendDelete).Invariant := by
  unfold act
  dsimp only
  split
  · next record running =>
      have checked := invariant.attempt _ running
      refine ⟨invariant.graph, fun attempt same => ?_, fun sent listed => ?_⟩
      · rw [← Option.some.inj same]
        trivial
      · rcases List.mem_append.mp listed with before | new
        · exact invariant.requests sent before
        · rw [List.mem_singleton.mp new]
          exact ⟨checked.1, fun owner names => (checked.2 owner names).resolve_left List.not_mem_nil⟩
  · exact invariant

theorem Invariant.serve {index : Nat} {verdict : Verdict} :
    (w.act (.serve index verdict)).Invariant := by
  have served : Invariant { w with requests := w.requests.eraseIdx index } :=
    ⟨invariant.graph, invariant.attempt, fun record listed => invariant.requests record (List.mem_of_mem_eraseIdx listed)⟩
  unfold act
  dsimp only
  cases w.target index with
  | none => exact served
  | some deletion => exact served.carryOut

theorem Invariant.act (enabled : w.Enabled action) : (w.act action).Invariant := by
  cases action with
  | watch event => exact invariant.watch enabled
  | look uid => exact invariant.look
  | getOwner now fails => exact invariant.getOwner
  | sendDelete => exact invariant.sendDelete
  | serve index verdict => exact invariant.serve
  | reply now current reply =>
    unfold World.act
    dsimp only
    split
    · exact invariant.complete
    · exact invariant
  | restart resources => exact ⟨State.recordsAre_start, nofun, invariant.requests⟩
  | create object =>
    exact invariant.written fun _ _ recorded names absent => absent_create enabled recorded names absent
  | update uid ownerReferences deletionTimestamp => exact invariant.rewrite fun _ => ⟨rfl, rfl, rfl, rfl⟩
  | remove uid => exact invariant.drop

end

theorem invariant_start (resources : Finset String) : (start resources).Invariant :=
  ⟨State.recordsAre_start, nofun, nofun⟩

/-! ## Every run -/

theorem target_spec {index : Nat} {deletion : ObjRecord × ApiObject} (targets : w.target index = some deletion) :
    deletion.1 ∈ w.requests ∧ deletion.2 ∈ w.objects ∧ deletion.2.uid = deletion.1.uid ∧
      deletion.2.inNamespace = deletion.1.inNamespace := by
  unfold target at targets
  cases sent : w.requests[index]? with
  | none =>
    rw [sent] at targets
    cases targets
  | some record =>
    rw [sent] at targets
    dsimp only at targets
    cases found : w.find record.gvkKey record.inNamespace record.name with
    | none =>
      rw [found] at targets
      cases targets
    | some object =>
      rw [found] at targets
      dsimp only at targets
      split_ifs at targets with same
      rw [← Option.some.inj targets]
      have named := of_decide_eq_true (@List.find?_some _ (fun o : ApiObject => decide (o.kindKey = record.gvkKey ∧ o.inNamespace = record.inNamespace ∧ o.name = record.name)) _ _ found)
      exact ⟨List.mem_of_getElem? sent, List.mem_of_find?_eq_some found, same, named.2.1⟩

theorem deleted_target {deletion : ObjRecord × ApiObject} (deletes : deletion ∈ w.deleted action) :
    Exists fun index => w.target index = some deletion := by
  cases action with
  | serve index verdict =>
    cases verdict with
    | refused => cases deletes
    | removed | marked at_ => exact ⟨index, deletes⟩
  | _ => cases deletes

/-- A deletion that follows the reads is of an orphan exactly when nothing
alive has adopted the object since the record. -/
theorem deletes_orphan_iff (invariant : w.Invariant) : w.DeletesOrphan action <-> w.NotAdopted action := by
  constructor
  · intro orphan deletion deletes
    rcases orphan deletion deletes with ⟨-, -, some_, absent⟩
    exact ⟨some_, fun owner names _ => absent owner names⟩
  · intro adopted deletion deletes
    rcases deleted_target deletes with ⟨index, targets⟩
    rcases target_spec targets with ⟨sent, there, same, sameNamespace⟩
    rcases adopted deletion deletes with ⟨some_, absent⟩
    refine ⟨there, same, some_, fun owner names => ?_⟩
    by_cases recorded : owner ∈ deletion.1.ownerRefs
    · rw [sameNamespace]
      exact (invariant.requests deletion.1 sent).2 owner recorded
    · exact absent owner names recorded

theorem deletes_orphans_iff (resources : Finset String) (actions : List Action)
    (enabled : EveryStep act Enabled (start resources) actions) :
    EveryStep act DeletesOrphan (start resources) actions <-> EveryStep act NotAdopted (start resources) actions :=
  @everyStep_iff World Action act Invariant Enabled DeletesOrphan NotAdopted
    (fun _ _ invariant enabled _ => invariant.act enabled) (fun _ _ invariant _ => deletes_orphan_iff invariant)
    _ _ (invariant_start resources) enabled

end World

private def blueShop : ApiObject := ⟨"v1/Shop", "3", "default", "blue", [], none⟩

private def shopPart : ApiObject := ⟨"v1/Part", "2", "default", "part", [⟨"v1", "Shop", "green", "1"⟩], none⟩

/-- The only owner of the part is read as gone. -/
private def ownerRead : List Action :=
  [.create blueShop, .create shopPart,
    .watch (.finishRelist 0 "v1/Shop"), .watch (.finishRelist 0 "v1/Part"),
    .watch (.apply 0 "v1/Part" shopPart.toDynamic false),
    .look "2", .getOwner 1 false]

private def leftPart : List Action :=
  ownerRead ++ [.sendDelete, .serve 0 .removed, .reply 2 .failed .deleted]

/-- Another shop adopts the part before its deletion is sent. -/
private def adoptedPart : List Action :=
  ownerRead ++ [.update "2" [⟨"v1", "Shop", "blue", "3"⟩] none, .sendDelete, .serve 0 .removed]

namespace World

theorem deletes_orphans_leftPart : EveryStep act DeletesOrphan (start {"v1/Shop", "v1/Part"}) leftPart :=
  (deletes_orphans_iff {"v1/Shop", "v1/Part"} leftPart (by decide +kernel)).mpr (by decide +kernel)

theorem not_deletes_orphans_adoptedPart : EveryStep act Enabled (start {"v1/Shop", "v1/Part"}) adoptedPart ∧
    ¬ EveryStep act DeletesOrphan (start {"v1/Shop", "v1/Part"}) adoptedPart := by
  decide +kernel

end World
end GarbageCollector
end NotK8s.Controllers

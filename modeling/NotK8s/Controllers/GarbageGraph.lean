import NotK8s.Library.Run
import NotK8s.Controllers.GarbageCollector

namespace NotK8s.Controllers
namespace GarbageCollector

open Library

/-!
# The garbage collector misses no orphan

The graph is compared with what the watches said of each object: under which
kind it was last seen alive, which lists in progress hold it, and whether it
was deleted.  The reverse index has no entry for a child that does not name the
owner, and it lacks a child only under an owner that was deleted.  So a delete
reaches every child it leaves without owners, unless the owner had been deleted
before.
-/

namespace State

variable {s : State} {record stored : ObjRecord} {uid owner child kind : String} {now : Nat}

/-! ## The record store -/

/-- A record is kept under its own identifier and the reverse index has no
entry without a record. -/
structure Linked (s : State) : Prop where
  keyed : forall {uid record}, s.objectsWithOwners.get uid = some record -> record.uid = uid
  named : forall {owner child}, child ∈ s.childrenOf.sources owner ->
    Exists fun record => s.objectsWithOwners.get child = some record ∧ owner ∈ record.ownerUids

/-- The reverse index has every owner of every record, up to some owners. -/
def Complete (s : State) (gone : String -> Prop) : Prop :=
  forall ⦃child record owner⦄, s.objectsWithOwners.get child = some record -> owner ∈ record.ownerUids ->
    child ∈ s.childrenOf.sources owner ∨ gone owner

theorem storeRecord_exists : (s.storeRecord record).exists_ = insert record.uid s.exists_ := by
  unfold storeRecord
  split_ifs <;> rfl

theorem storeRecord_uidToKind : (s.storeRecord record).uidToKind = s.uidToKind.insert record.uid record.gvkKey := by
  unfold storeRecord
  split_ifs <;> rfl

theorem storeRecord_deletes : (s.storeRecord record).deletes = s.deletes := by
  unfold storeRecord
  split_ifs <;> rfl

theorem storeRecord_relist : (s.storeRecord record).relist = s.relist := by
  unfold storeRecord
  split_ifs <;> rfl

theorem storeRecord_pendingInit : (s.storeRecord record).pendingInit = s.pendingInit := by
  unfold storeRecord
  split_ifs <;> rfl

theorem storeRecord_resources : (s.storeRecord record).resources = s.resources := by
  unfold storeRecord
  split_ifs <;> rfl

theorem storeRecord_get : (s.storeRecord record).objectsWithOwners.get uid =
    if uid = record.uid then (if record.ownerUids.isEmpty then none else some record)
    else s.objectsWithOwners.get uid := by
  unfold storeRecord
  by_cases bare : record.ownerUids.isEmpty
  · rw [if_pos bare, if_pos bare]
    exact SortedMap.get_erase
  · rw [if_neg bare, if_neg bare]
    exact SortedMap.get_insert

theorem mem_storeRecord_childrenOf (linked : Linked s) :
    child ∈ (s.storeRecord record).childrenOf.sources owner <->
      if child = record.uid then owner ∈ record.ownerUids else child ∈ s.childrenOf.sources owner := by
  let left : ReverseIndex String String :=
    (s.objectsWithOwners.get record.uid).elim s.childrenOf fun old =>
      s.childrenOf.leave (old.ownerUids.filter fun owner => !record.ownerUids.contains owner) record.uid
  have afterLeaving : child ∈ left.sources owner <->
      child ∈ s.childrenOf.sources owner ∧ (child = record.uid -> owner ∈ record.ownerUids) := by
    unfold left
    cases held : s.objectsWithOwners.get record.uid with
    | none =>
      refine (and_iff_left_of_imp fun inside same => ?_).symm
      rcases linked.named inside with ⟨old, found, _⟩
      rw [same, held] at found
      cases found
    | some old =>
      rw [Option.elim_some, ReverseIndex.mem_sources_leave]
      refine and_congr_right fun inside => ?_
      constructor
      · intro apart same
        by_contra absent
        refine apart ⟨same, List.mem_filter.mpr ⟨?_, ?_⟩⟩
        · rcases linked.named inside with ⟨old', found, names⟩
          rw [same, held] at found
          rw [Option.some.inj found]
          exact names
        · rw [List.contains_iff_mem.not.mpr absent |> Bool.eq_false_iff.mpr]
          rfl
      · rintro stays ⟨same, dropped⟩
        have absent := (List.mem_filter.mp dropped).2
        rw [List.contains_iff_mem.mpr (stays same)] at absent
        cases absent
  by_cases bare : record.ownerUids.isEmpty
  · have childrenIs : (s.storeRecord record).childrenOf = left := by
      unfold storeRecord left
      dsimp only
      rw [if_pos bare]
      cases s.objectsWithOwners.get record.uid <;> rfl
    rw [childrenIs, afterLeaving]
    split_ifs with same
    · have none_ : owner ∉ record.ownerUids := by
        rw [List.isEmpty_iff.mp bare]
        exact List.not_mem_nil
      exact iff_of_false (fun both => none_ (both.2 same)) none_
    · exact and_iff_left fun same' => absurd same' same
  · have childrenIs : (s.storeRecord record).childrenOf = left.enter record.ownerUids record.uid := by
      unfold storeRecord left
      dsimp only
      rw [if_neg bare]
      cases s.objectsWithOwners.get record.uid <;> rfl
    rw [childrenIs, ReverseIndex.mem_sources_enter, afterLeaving]
    split_ifs with same
    · exact ⟨fun entered => entered.elim (fun both => both.2 same) And.right, fun names => Or.inr ⟨same, names⟩⟩
    · constructor
      · exact fun entered => entered.elim And.left fun both => absurd both.1 same
      · exact fun inside => Or.inl ⟨inside, fun same' => absurd same' same⟩

theorem Linked.storeRecord (linked : Linked s) : Linked (s.storeRecord record) where
  keyed := by
    intro uid held found
    rw [storeRecord_get] at found
    split_ifs at found with same bare
    · rw [← Option.some.inj found, same]
    · exact linked.keyed found
  named := by
    intro owner child inside
    rw [mem_storeRecord_childrenOf linked] at inside
    rw [storeRecord_get]
    split_ifs at inside ⊢ with same bare
    · rw [List.isEmpty_iff.mp bare] at inside
      cases inside
    · exact ⟨record, rfl, inside⟩
    · exact linked.named inside

theorem Complete.storeRecord {gone : String -> Prop} (linked : Linked s) (complete : Complete s gone) :
    Complete (s.storeRecord record) gone := by
  intro child held owner found names
  rw [storeRecord_get] at found
  rw [mem_storeRecord_childrenOf linked]
  split_ifs at found ⊢ with same bare
  · rw [Option.some.inj found]
    exact Or.inl names
  · exact complete found names

/-! ## Forgetting an object -/

theorem forget_get : (s.forget uid).objectsWithOwners.get child =
    if child = uid then none else s.objectsWithOwners.get child :=
  SortedMap.get_erase

theorem mem_forget_childrenOf (linked : Linked s) :
    child ∈ (s.forget uid).childrenOf.sources owner <-> child ∈ s.childrenOf.sources owner ∧ child ≠ uid := by
  have childrenIs : (s.forget uid).childrenOf =
      (s.objectsWithOwners.get uid).elim s.childrenOf fun old => s.childrenOf.leave old.ownerUids uid := by
    unfold forget
    cases s.objectsWithOwners.get uid <;> rfl
  rw [childrenIs]
  cases held : s.objectsWithOwners.get uid with
  | none =>
    refine (and_iff_left_of_imp fun inside same => ?_).symm
    rcases linked.named inside with ⟨old, found, _⟩
    rw [same, held] at found
    cases found
  | some old =>
    rw [Option.elim_some, ReverseIndex.mem_sources_leave]
    refine and_congr_right fun inside => ⟨fun apart same => apart ⟨same, ?_⟩, fun different both => different both.1⟩
    rcases linked.named inside with ⟨old', found, names⟩
    rw [same, held] at found
    rw [Option.some.inj found]
    exact names

theorem Linked.forget (linked : Linked s) : Linked (s.forget uid) where
  keyed := by
    intro other held found
    rw [forget_get] at found
    split_ifs at found with same
    exact linked.keyed found
  named := by
    intro owner child inside
    rw [mem_forget_childrenOf linked] at inside
    rw [forget_get, if_neg inside.2]
    exact linked.named inside.1

theorem Complete.forget {gone : String -> Prop} (linked : Linked s) (complete : Complete s gone) :
    Complete (s.forget uid) gone := by
  intro child held owner found names
  rw [forget_get] at found
  split_ifs at found with same
  rw [mem_forget_childrenOf linked]
  exact (complete found names).imp_left fun inside => ⟨inside, same⟩

theorem dropEmpty_childrenOf : s.dropEmpty.childrenOf.sources owner = s.childrenOf.sources owner :=
  ReverseIndex.sources_dropEmpty

theorem Linked.dropEmpty (linked : Linked s) : Linked s.dropEmpty where
  keyed := linked.keyed
  named := by
    intro owner child inside
    rw [dropEmpty_childrenOf] at inside
    exact linked.named inside

theorem Complete.dropEmpty {gone : String -> Prop} (complete : Complete s gone) : Complete s.dropEmpty gone := by
  intro child held owner found names
  rw [dropEmpty_childrenOf]
  exact complete found names

theorem Linked.dropOwner (linked : Linked s) : Linked (s.dropOwner uid) where
  keyed := linked.keyed
  named := by
    intro owner child inside
    unfold State.dropOwner at inside
    rw [ReverseIndex.sources_erase] at inside
    split_ifs at inside
    · exact absurd inside (Finset.notMem_empty _)
    · exact linked.named inside

theorem Complete.dropOwner {gone gone' : String -> Prop} (complete : Complete s gone)
    (grows : forall owner, gone owner -> gone' owner) (deleted : gone' uid) : Complete (s.dropOwner uid) gone' := by
  intro child held owner found names
  unfold State.dropOwner
  rw [ReverseIndex.sources_erase]
  split_ifs with same
  · rw [same]
    exact Or.inr deleted
  · exact (complete found names).imp_right (grows owner)

/-! ## A whole list -/

theorem forgetAll_exists {uids : List String} :
    uid ∈ (uids.foldl forget s).exists_ <-> uid ∈ s.exists_ ∧ uid ∉ uids := by
  induction uids generalizing s with
  | nil => exact (and_iff_left List.not_mem_nil).symm
  | cons first rest ih =>
    have here : uid ∈ (s.forget first).exists_ <-> uid ≠ first ∧ uid ∈ s.exists_ := Finset.mem_erase
    rw [List.foldl_cons, ih, here, List.mem_cons, not_or]
    tauto

theorem forgetAll_uidToKind {uids : List String} :
    (uids.foldl forget s).uidToKind.get uid = if uid ∈ uids then none else s.uidToKind.get uid := by
  rw [look_foldl (fun s : State => s.uidToKind.get) (fun _ => none) fun _ _ _ _ => SortedMap.get_erase, List.map_id']

theorem forgetAll_frame {uids : List String} :
    (uids.foldl forget s).deletes = s.deletes ∧ (uids.foldl forget s).relist = s.relist ∧
      (uids.foldl forget s).pendingInit = s.pendingInit ∧ (uids.foldl forget s).resources = s.resources :=
  List.foldlRecOn (motive := fun t : State => t.deletes = s.deletes ∧ t.relist = s.relist ∧
    t.pendingInit = s.pendingInit ∧ t.resources = s.resources) uids _ ⟨rfl, rfl, rfl, rfl⟩ fun _ same _ _ => same

theorem Linked.forgetAll {uids : List String} (linked : Linked s) : Linked (uids.foldl State.forget s) :=
  List.foldlRecOn uids _ linked fun _ linked _ _ => linked.forget

theorem Complete.forgetAll {gone : String -> Prop} {uids : List String} (linked : Linked s)
    (complete : Complete s gone) : Complete (uids.foldl State.forget s) gone :=
  (List.foldlRecOn (motive := fun s => Linked s ∧ Complete s gone) uids _ ⟨linked, complete⟩
    fun _ both _ _ => ⟨both.1.forget, both.2.forget both.1⟩).2

variable {records : List ObjRecord}

theorem storeAll_exists : uid ∈ (records.foldl storeRecord s).exists_ <->
    uid ∈ s.exists_ ∨ Exists fun record => record ∈ records ∧ record.uid = uid := by
  induction records generalizing s with
  | nil => exact (or_iff_left fun some_ => some_.elim fun _ both => List.not_mem_nil both.1).symm
  | cons first rest ih =>
    rw [List.foldl_cons, ih, storeRecord_exists, Finset.mem_insert, List.exists_mem_cons_iff,
      ← or_assoc, or_comm (a := uid = first.uid), eq_comm (a := uid)]

theorem storeAll_uidToKind (ofKind : forall record, record ∈ records -> record.gvkKey = kind) :
    (records.foldl storeRecord s).uidToKind.get uid =
      if uid ∈ records.map ObjRecord.uid then some kind else s.uidToKind.get uid := by
  refine look_foldl (fun s : State => s.uidToKind.get) (fun _ => some kind) fun record listed s uid => ?_
  rw [storeRecord_uidToKind, SortedMap.get_insert, ofKind record listed]

theorem storeAll_frame : (records.foldl storeRecord s).deletes = s.deletes ∧
    (records.foldl storeRecord s).relist = s.relist ∧ (records.foldl storeRecord s).resources = s.resources := by
  induction records generalizing s with
  | nil => exact ⟨rfl, rfl, rfl⟩
  | cons first rest ih =>
    rw [List.foldl_cons]
    rcases @ih (s.storeRecord first) with ⟨deletes, relist, resources⟩
    exact ⟨deletes.trans storeRecord_deletes, relist.trans storeRecord_relist, resources.trans storeRecord_resources⟩

theorem Linked.storeAll (linked : Linked s) : Linked (records.foldl State.storeRecord s) :=
  List.foldlRecOn records _ linked fun _ linked _ _ => linked.storeRecord

theorem Complete.storeAll {gone : String -> Prop} (linked : Linked s) (complete : Complete s gone) :
    Complete (records.foldl State.storeRecord s) gone :=
  (List.foldlRecOn (motive := fun s => Linked s ∧ Complete s gone) records _ ⟨linked, complete⟩
    fun _ both _ _ => ⟨both.1.storeRecord, both.2.storeRecord both.1⟩).2

theorem enqueueDelete_isSome : ((s.enqueueDelete now uid).deletes.get child).isSome <->
    (s.deletes.get child).isSome ∨ child = uid := by
  unfold enqueueDelete
  split_ifs with queued
  · exact (or_iff_left_of_imp fun same => same ▸ queued).symm
  · rw [SortedMap.get_insert]
    split_ifs with same
    · exact iff_of_true rfl (Or.inr same)
    · exact (or_iff_left same).symm

theorem enqueueAll_eq : Exists fun deletes =>
    records.foldl (fun s record => s.enqueueDelete now record.uid) s = { s with deletes := deletes } := by
  induction records generalizing s with
  | nil => exact ⟨s.deletes, rfl⟩
  | cons first rest ih =>
    rw [List.foldl_cons]
    rcases @ih (s.enqueueDelete now first.uid) with ⟨deletes, same⟩
    exact ⟨deletes, same⟩

theorem enqueueAll_isSome :
    ((records.foldl (fun s record => s.enqueueDelete now record.uid) s).deletes.get uid).isSome <->
      (s.deletes.get uid).isSome ∨ Exists fun record => record ∈ records ∧ record.uid = uid := by
  induction records generalizing s with
  | nil => exact (or_iff_left fun some_ => some_.elim fun _ both => List.not_mem_nil both.1).symm
  | cons first rest ih =>
    rw [List.foldl_cons, ih, enqueueDelete_isSome, List.exists_mem_cons_iff, or_assoc,
      eq_comm (a := uid)]

end State

/-! ## What the watches said of one object -/

/-- An event of the graph, with the time it is handled at. -/
inductive Event where
  | beginRelist (kindKey : String)
  | apply (now : Nat) (kindKey : String) (obj : DynamicObject) (staged : Bool)
  | delete (now : Nat) (kindKey : String) (obj : DynamicObject)
  | finishRelist (now : Nat) (kindKey : String)
  | completeDelete (now : Nat) (uid : String) (retry : Bool)
  | nextDelete (uid : String)
  deriving DecidableEq

def step (s : State) : Event -> State
  | .beginRelist kindKey => s.beginRelist kindKey
  | .apply now kindKey obj staged => s.handleApply now kindKey obj staged
  | .delete now kindKey obj => s.handleDelete now kindKey obj
  | .finishRelist now kindKey => s.finishRelist now kindKey
  | .completeDelete now uid retry => s.completeDelete now uid retry
  | .nextDelete uid => (s.nextDelete uid).1

/-- `kind` is the kind an object was last seen alive under, `listed` are the
kinds whose lists in progress hold it, `gone` and `back` say that it was seen
deleted and that it was alive once more after that, and `attempted` that a
delete attempt for it ended without asking for another since it was last seen
and since the last list. -/
structure Sight where
  kind : Option String
  listed : Finset String
  gone : Bool
  back : Bool
  attempted : Bool

namespace Sight

def unseen : Sight where
  kind := none
  listed := ∅
  gone := false
  back := false
  attempted := false

def next (uid : String) (sight : Sight) : Event -> Sight
  | .beginRelist kindKey => { sight with listed := sight.listed.erase kindKey }
  | .apply _ kindKey obj staged =>
    if obj.uid = some uid then
      if staged then { sight with listed := insert kindKey sight.listed }
      else { sight with kind := some kindKey, back := sight.back || sight.gone, attempted := false }
    else sight
  | .delete _ kindKey obj =>
    if obj.uid = some uid then { sight with kind := none, listed := sight.listed.erase kindKey, gone := true }
    else sight
  | .finishRelist _ kindKey =>
    if kindKey ∈ sight.listed then
      { sight with
        kind := some kindKey
        listed := sight.listed.erase kindKey
        back := sight.back || sight.gone
        attempted := false }
    else { sight with kind := if sight.kind = some kindKey then none else sight.kind, attempted := false }
  | .completeDelete _ attempt retry =>
    if attempt = uid ∧ retry = false then { sight with attempted := true } else sight
  | .nextDelete _ => sight

variable {uid : String} {sight : Sight} {event : Event}

theorem next_gone (gone : sight.gone = true) : (sight.next uid event).gone = true := by
  cases event <;> unfold next <;> dsimp only <;> (repeat' split_ifs) <;> first | exact gone | rfl

theorem next_back (back : sight.back = true) : (sight.next uid event).back = true := by
  cases event <;> unfold next <;> dsimp only <;> (repeat' split_ifs) <;> first | exact back | rw [back, Bool.true_or]

section
variable {now : Nat} {kindKey : String} {obj : DynamicObject}

theorem next_stage_kind : (sight.next uid (.apply now kindKey obj true)).kind = sight.kind := by
  by_cases named : obj.uid = some uid <;> simp [next, named]

theorem next_stage_listed : (sight.next uid (.apply now kindKey obj true)).listed =
    if obj.uid = some uid then insert kindKey sight.listed else sight.listed := by
  by_cases named : obj.uid = some uid <;> simp [next, named]

theorem next_stage_attempted : (sight.next uid (.apply now kindKey obj true)).attempted = sight.attempted := by
  by_cases named : obj.uid = some uid <;> simp [next, named]

theorem next_live_kind : (sight.next uid (.apply now kindKey obj false)).kind =
    if obj.uid = some uid then some kindKey else sight.kind := by
  by_cases named : obj.uid = some uid <;> simp [next, named]

theorem next_live_listed : (sight.next uid (.apply now kindKey obj false)).listed = sight.listed := by
  by_cases named : obj.uid = some uid <;> simp [next, named]

theorem next_live_attempted : (sight.next uid (.apply now kindKey obj false)).attempted =
    if obj.uid = some uid then false else sight.attempted := by
  by_cases named : obj.uid = some uid <;> simp [next, named]

theorem next_delete_kind : (sight.next uid (.delete now kindKey obj)).kind =
    if obj.uid = some uid then none else sight.kind := by
  by_cases named : obj.uid = some uid <;> simp [next, named]

theorem next_delete_listed : (sight.next uid (.delete now kindKey obj)).listed =
    if obj.uid = some uid then sight.listed.erase kindKey else sight.listed := by
  by_cases named : obj.uid = some uid <;> simp [next, named]

theorem next_delete_gone : (sight.next uid (.delete now kindKey obj)).gone =
    if obj.uid = some uid then true else sight.gone := by
  by_cases named : obj.uid = some uid <;> simp [next, named]

theorem next_delete_attempted : (sight.next uid (.delete now kindKey obj)).attempted = sight.attempted := by
  by_cases named : obj.uid = some uid <;> simp [next, named]

theorem next_finish_kind : (sight.next uid (.finishRelist now kindKey)).kind =
    if kindKey ∈ sight.listed then some kindKey else if sight.kind = some kindKey then none else sight.kind := by
  by_cases listed : kindKey ∈ sight.listed <;> simp [next, listed]

theorem next_finish_listed : (sight.next uid (.finishRelist now kindKey)).listed = sight.listed.erase kindKey := by
  by_cases listed : kindKey ∈ sight.listed <;> simp [next, listed]

end

theorem next_again (again : sight.gone = true -> sight.kind.isSome -> sight.back = true) :
    (sight.next uid event).gone = true -> (sight.next uid event).kind.isSome -> (sight.next uid event).back = true := by
  cases event with
  | beginRelist kindKey => exact again
  | apply now kindKey obj staged =>
    unfold next
    dsimp only
    split_ifs
    · exact again
    · intro gone _
      rw [gone, Bool.or_true]
    · exact again
  | delete now kindKey obj =>
    unfold next
    dsimp only
    split_ifs
    · nofun
    · exact again
  | finishRelist now kindKey =>
    unfold next
    dsimp only
    split_ifs
    · intro gone _
      rw [gone, Bool.or_true]
    · nofun
    · exact again
  | completeDelete now attempt retry =>
    unfold next
    dsimp only
    split_ifs <;> exact again
  | nextDelete attempt => exact again

end Sight

/-- What a sequence of events says of an object. -/
def sightOf (events : List Event) (uid : String) : Sight :=
  events.foldl (Sight.next uid) .unseen

theorem sightOf_concat {events : List Event} {event : Event} {uid : String} :
    sightOf (events ++ [event]) uid = (sightOf events uid).next uid event :=
  List.foldl_concat ..

/-! ## The invariant -/

/-- An orphan may be absent from the queue after an attempt for it, or when
one of its owners came back from its deletion. -/
def Excused (sight : String -> Sight) (record : ObjRecord) : Prop :=
  (sight record.uid).attempted = true ∨ Exists fun owner => owner ∈ record.ownerUids ∧ (sight owner).back = true

/-- The graph says what the watches said. -/
structure Follows (s : State) (sight : String -> Sight) : Prop where
  linked : s.Linked
  complete : s.Complete fun owner => (sight owner).gone = true
  alive : forall uid, uid ∈ s.exists_ <-> (sight uid).kind.isSome
  kinds : forall uid, s.uidToKind.get uid = (sight uid).kind
  staged : forall kind uid, (((s.relist.get kind).getD .empty).get uid).isSome <-> kind ∈ (sight uid).listed
  stagedAs : forall {kind uid record}, ((s.relist.get kind).getD .empty).get uid = some record ->
    record.uid = uid ∧ record.gvkKey = kind
  again : forall uid, (sight uid).gone = true -> (sight uid).kind.isSome -> (sight uid).back = true

/-- Every orphan is queued. -/
def Queued (s : State) (sight : String -> Sight) : Prop :=
  forall ⦃uid record⦄, s.objectsWithOwners.get uid = some record -> s.isOrphan record = true ->
    record.gvkKey ∈ s.resources -> (s.deletes.get uid).isSome ∨ Excused sight record

theorem State.isOrphan_iff {s : State} {record : ObjRecord} : s.isOrphan record = true <->
    (forall kind, kind ∈ record.ownerKinds -> kind ∈ s.resources ∧ kind ∉ s.pendingInit) ∧
      record.deleting = false ∧ record.ownerUids ≠ [] ∧ forall owner, owner ∈ record.ownerUids -> owner ∉ s.exists_ := by
  unfold State.isOrphan shouldDeleteOrphan State.ownersInitialized allOwnersDead
  simp only [Bool.and_eq_true, Bool.not_eq_true', List.all_eq_true, decide_eq_true_eq, List.isEmpty_eq_false_iff,
    and_assoc]

/-- With more objects alive and more kinds listed there are fewer orphans. -/
theorem State.isOrphan_anti {s s' : State} {record : ObjRecord} (resources : s'.resources = s.resources)
    (pending : s.pendingInit ⊆ s'.pendingInit) (alive : s.exists_ ⊆ s'.exists_)
    (orphan : s'.isOrphan record = true) : s.isOrphan record = true := by
  rw [State.isOrphan_iff] at orphan ⊢
  rcases orphan with ⟨ready, live, some_, dead⟩
  refine ⟨fun kind listed => ?_, live, some_, fun owner names => fun present => dead owner names (alive present)⟩
  rw [← resources]
  exact ⟨(ready kind listed).1, fun waits => (ready kind listed).2 (pending waits)⟩

variable {s : State} {sight : String -> Sight} {event : Event}

/-- What the watches say after an event. -/
def nextSight (sight : String -> Sight) (event : Event) (uid : String) : Sight :=
  (sight uid).next uid event

theorem Follows.deletes {deletes : SortedMap String DeleteRetry} (follows : Follows s sight) :
    Follows { s with deletes := deletes } sight where
  linked := ⟨follows.linked.keyed, follows.linked.named⟩
  __ := follows

theorem Follows.again_next (follows : Follows s sight) (uid : String) : (nextSight sight event uid).gone = true ->
    (nextSight sight event uid).kind.isSome -> (nextSight sight event uid).back = true :=
  Sight.next_again (follows.again uid)

theorem Excused.next {record : ObjRecord} (excused : Excused sight record)
    (attempted : (sight record.uid).attempted = true -> (nextSight sight event record.uid).attempted = true) :
    Excused (nextSight sight event) record := by
  rcases excused with tried | ⟨owner, names, back⟩
  · exact Or.inl (attempted tried)
  · exact Or.inr ⟨owner, names, Sight.next_back back⟩

theorem complete_next (follows : Follows s sight) : s.Complete fun owner => (nextSight sight event owner).gone = true := by
  intro child record owner found names
  exact (follows.complete found names).imp_right Sight.next_gone

/-! ### Lists -/

theorem staged_insert {kind uid : String} {staged : SortedMap String ObjRecord} {relist : SortedMap String (SortedMap String ObjRecord)} {kindKey : String} :
    (((relist.insert kindKey staged).get kind).getD .empty).get uid =
      if kind = kindKey then staged.get uid else ((relist.get kind).getD .empty).get uid := by
  rw [SortedMap.get_insert]
  split_ifs <;> rfl

theorem staged_erase {kind uid : String} {relist : SortedMap String (SortedMap String ObjRecord)} {kindKey : String} :
    (((relist.erase kindKey).get kind).getD .empty).get uid =
      if kind = kindKey then none else ((relist.get kind).getD .empty).get uid := by
  rw [SortedMap.get_erase]
  split_ifs <;> rfl

theorem follows_beginRelist {kindKey : String} (follows : Follows s sight) :
    Follows (s.beginRelist kindKey) (nextSight sight (.beginRelist kindKey)) where
  linked := ⟨follows.linked.keyed, follows.linked.named⟩
  complete := fun _ _ _ found names => complete_next follows found names
  alive := follows.alive
  kinds := follows.kinds
  staged := by
    intro kind uid
    have relistIs : (s.beginRelist kindKey).relist = s.relist.insert kindKey .empty := rfl
    have listedIs : (nextSight sight (.beginRelist kindKey) uid).listed = (sight uid).listed.erase kindKey := rfl
    rw [relistIs, staged_insert, listedIs, Finset.mem_erase]
    split_ifs with same
    · exact iff_of_false nofun fun both => both.1 same
    · rw [follows.staged, and_iff_right same]
  stagedAs := by
    intro kind uid record found
    have relistIs : (s.beginRelist kindKey).relist = s.relist.insert kindKey .empty := rfl
    rw [relistIs, staged_insert] at found
    split_ifs at found with same
    · cases found
    · exact follows.stagedAs found
  again := follows.again_next

theorem queued_beginRelist {kindKey : String} (queued : Queued s sight) :
    Queued (s.beginRelist kindKey) (nextSight sight (.beginRelist kindKey)) := by
  intro uid record found orphan watched
  have before : s.isOrphan record = true :=
    @State.isOrphan_anti s (s.beginRelist kindKey) record rfl (Finset.subset_insert _ _) (Finset.Subset.refl _) orphan
  exact (queued found before watched).imp_right fun excused => excused.next id

/-! ### Applies -/

section
variable {now : Nat} {kindKey uid : String} {obj : DynamicObject}

theorem follows_stage (known : obj.uid = some uid) (follows : Follows s sight) :
    Follows (s.stage kindKey uid (ObjRecord.ofObject kindKey uid obj)) (nextSight sight (.apply now kindKey obj true)) where
  linked := ⟨follows.linked.keyed, follows.linked.named⟩
  complete := fun _ _ _ found names => complete_next follows found names
  alive := by
    intro other
    unfold nextSight
    rw [Sight.next_stage_kind]
    exact follows.alive other
  kinds := by
    intro other
    unfold nextSight
    rw [Sight.next_stage_kind]
    exact follows.kinds other
  staged := by
    intro kind other
    have relistIs : (s.stage kindKey uid (ObjRecord.ofObject kindKey uid obj)).relist = s.relist.insert kindKey
        (((s.relist.get kindKey).getD .empty).insert uid (ObjRecord.ofObject kindKey uid obj)) := rfl
    unfold nextSight
    rw [relistIs, staged_insert, Sight.next_stage_listed]
    by_cases same : other = uid
    · rw [same, if_pos known, Finset.mem_insert, SortedMap.get_insert, if_pos rfl, ← follows.staged kind uid]
      split_ifs with sameKind
      · exact iff_of_true rfl (Or.inl sameKind)
      · exact (or_iff_right sameKind).symm
    · have notNamed : obj.uid ≠ some other := fun known' => same (Option.some.inj (known'.symm.trans known))
      rw [if_neg notNamed, SortedMap.get_insert, if_neg same, ← follows.staged kind other]
      split_ifs with sameKind
      · rw [sameKind]
      · exact Iff.rfl
  stagedAs := by
    intro kind other record found
    have relistIs : (s.stage kindKey uid (ObjRecord.ofObject kindKey uid obj)).relist = s.relist.insert kindKey
        (((s.relist.get kindKey).getD .empty).insert uid (ObjRecord.ofObject kindKey uid obj)) := rfl
    rw [relistIs, staged_insert] at found
    split_ifs at found with sameKind
    · rw [SortedMap.get_insert] at found
      split_ifs at found with same
      · rw [← Option.some.inj found]
        exact ⟨same.symm, sameKind.symm⟩
      · rw [sameKind]
        exact follows.stagedAs found
    · exact follows.stagedAs found
  again := follows.again_next

theorem queued_stage (queued : Queued s sight) :
    Queued (s.stage kindKey uid (ObjRecord.ofObject kindKey uid obj)) (nextSight sight (.apply now kindKey obj true)) := by
  intro other record found orphan watched
  refine (queued found orphan watched).imp_right fun excused => excused.next fun tried => ?_
  unfold nextSight
  rw [Sight.next_stage_attempted, tried]

theorem follows_store (known : obj.uid = some uid) (follows : Follows s sight) :
    Follows (s.storeRecord (ObjRecord.ofObject kindKey uid obj)) (nextSight sight (.apply now kindKey obj false)) := by
  have named (other : String) : obj.uid = some other <-> other = uid := by
    rw [known, Option.some.injEq]
    exact eq_comm
  refine ⟨follows.linked.storeRecord, State.Complete.storeRecord follows.linked (complete_next follows), ?_, ?_, ?_, ?_,
    follows.again_next⟩
  · intro other
    unfold nextSight
    simp only [State.storeRecord_exists, Finset.mem_insert, follows.alive other, Sight.next_live_kind, named]
    split_ifs with same
    · exact iff_of_true (Or.inl same) rfl
    · exact or_iff_right same
  · intro other
    unfold nextSight
    simp only [State.storeRecord_uidToKind, SortedMap.get_insert, Sight.next_live_kind, named, follows.kinds other]
    rfl
  · intro kind other
    unfold nextSight
    rw [State.storeRecord_relist, Sight.next_live_listed]
    exact follows.staged kind other
  · intro kind other record found
    rw [State.storeRecord_relist] at found
    exact follows.stagedAs found

theorem queued_store (known : obj.uid = some uid) (follows : Follows s sight) (queued : Queued s sight) :
    let stored := s.storeRecord (ObjRecord.ofObject kindKey uid obj)
    Queued (if stored.isOrphan (ObjRecord.ofObject kindKey uid obj) then stored.enqueueDelete now uid else stored)
      (nextSight sight (.apply now kindKey obj false)) := by
  intro stored other record found orphan watched
  have graphIs : Exists fun deletes =>
      (if stored.isOrphan (ObjRecord.ofObject kindKey uid obj) then stored.enqueueDelete now uid else stored) =
        { stored with deletes := deletes } := by
    split_ifs
    · exact ⟨_, rfl⟩
    · exact ⟨_, rfl⟩
  have keeps : (stored.deletes.get other).isSome ->
      ((if stored.isOrphan (ObjRecord.ofObject kindKey uid obj) then stored.enqueueDelete now uid
        else stored).deletes.get other).isSome := by
    intro was
    split_ifs
    · exact State.enqueueDelete_isSome.mpr (Or.inl was)
    · exact was
  rcases graphIs with ⟨deletes, graphIs⟩
  have foundStored : stored.objectsWithOwners.get other = some record := by
    rw [graphIs] at found
    exact found
  have orphanStored : stored.isOrphan record = true := by
    rw [graphIs] at orphan
    exact orphan
  have keyed : record.uid = other := follows.linked.storeRecord.keyed foundStored
  rw [State.storeRecord_get] at foundStored
  split_ifs at foundStored with same bare
  · rw [← Option.some.inj foundStored] at orphanStored
    rw [if_pos orphanStored, State.enqueueDelete_isSome]
    exact Or.inl (Or.inr same)
  · have before : s.isOrphan record = true := by
      refine State.isOrphan_anti State.storeRecord_resources ?_ ?_ orphanStored
      · rw [State.storeRecord_pendingInit]
      · rw [State.storeRecord_exists]
        exact Finset.subset_insert _ _
    have watchedBefore : record.gvkKey ∈ s.resources := by
      rw [graphIs] at watched
      rw [← @State.storeRecord_resources s (ObjRecord.ofObject kindKey uid obj)]
      exact watched
    rcases queued foundStored before watchedBefore with was | excused
    · exact Or.inl (keeps (State.storeRecord_deletes.symm ▸ was))
    · refine Or.inr (excused.next fun tried => ?_)
      unfold nextSight
      rw [Sight.next_live_attempted, keyed, if_neg fun known' => same (Option.some.inj (known'.symm.trans known)),
        ← keyed, tried]

end

/-! ### Deletes -/

section
variable {now : Nat} {kindKey uid : String} {obj : DynamicObject}

theorem State.unlist_linked (linked : s.Linked) : (s.unlist kindKey uid).Linked :=
  ⟨linked.keyed, linked.named⟩

theorem State.mem_remove_childrenOf {child owner : String} (linked : s.Linked) :
    child ∈ (s.remove kindKey uid).childrenOf.sources owner <-> child ∈ s.childrenOf.sources owner ∧ child ≠ uid := by
  unfold State.remove
  rw [State.dropEmpty_childrenOf]
  exact State.mem_forget_childrenOf (State.unlist_linked linked)

theorem State.remove_linked (linked : s.Linked) : (s.remove kindKey uid).Linked :=
  (State.unlist_linked linked).forget.dropEmpty

theorem State.remove_complete {gone : String -> Prop} (linked : s.Linked) (complete : s.Complete gone) :
    (s.remove kindKey uid).Complete gone :=
  (State.Complete.forget (State.unlist_linked linked) complete).dropEmpty

theorem State.remove_relist {kind other : String} :
    ((((s.remove kindKey uid).relist.get kind).getD .empty).get other) =
      if kind = kindKey ∧ other = uid then none else ((s.relist.get kind).getD .empty).get other := by
  change (((s.unlist kindKey uid).relist.get kind).getD .empty).get other = _
  unfold unlist
  cases held : s.relist.get kindKey with
  | none =>
    split_ifs with both
    · rw [both.1, held]
      rfl
    · rfl
  | some staged =>
    rw [staged_insert, SortedMap.get_erase]
    by_cases sameKind : kind = kindKey
    · rw [if_pos sameKind, sameKind, held]
      split_ifs with same both both
      · rfl
      · exact absurd ⟨rfl, same⟩ both
      · exact absurd both.2 same
      · rfl
    · rw [if_neg sameKind, if_neg fun both => sameKind both.1]

theorem follows_remove (known : obj.uid = some uid) (follows : Follows s sight) :
    Follows ((s.remove kindKey uid).dropOwner uid) (nextSight sight (.delete now kindKey obj)) := by
  have named (other : String) : obj.uid = some other <-> other = uid := by
    rw [known, Option.some.injEq]
    exact eq_comm
  have gone : (nextSight sight (.delete now kindKey obj) uid).gone = true := by
    unfold nextSight
    rw [Sight.next_delete_gone, if_pos known]
  refine ⟨(State.remove_linked follows.linked).dropOwner,
    State.Complete.dropOwner (State.remove_complete follows.linked follows.complete) (fun _ => Sight.next_gone) gone,
    ?_, ?_, ?_, ?_, follows.again_next⟩
  · intro other
    have existsIs : ((s.remove kindKey uid).dropOwner uid).exists_ = s.exists_.erase uid := rfl
    unfold nextSight
    simp only [existsIs, Finset.mem_erase, follows.alive other, Sight.next_delete_kind, named]
    split_ifs with same
    · exact iff_of_false (fun both => both.1 same) nofun
    · exact and_iff_right same
  · intro other
    have kindsIs : ((s.remove kindKey uid).dropOwner uid).uidToKind = s.uidToKind.erase uid := rfl
    unfold nextSight
    simp only [kindsIs, SortedMap.get_erase, Sight.next_delete_kind, named, follows.kinds other]
  · intro kind other
    have relistIs : ((s.remove kindKey uid).dropOwner uid).relist = (s.remove kindKey uid).relist := rfl
    unfold nextSight
    simp only [relistIs, State.remove_relist, Sight.next_delete_listed, named]
    by_cases same : other = uid
    · rw [if_pos same, Finset.mem_erase, ← follows.staged kind other]
      split_ifs with both
      · exact iff_of_false nofun (fun inside => inside.1 both.1)
      · exact (and_iff_right fun sameKind => both ⟨sameKind, same⟩).symm
    · rw [if_neg fun both => same both.2, if_neg same]
      exact follows.staged kind other
  · intro kind other record found
    have relistIs : ((s.remove kindKey uid).dropOwner uid).relist = (s.remove kindKey uid).relist := rfl
    rw [relistIs, State.remove_relist] at found
    split_ifs at found
    exact follows.stagedAs found

theorem State.handleDelete_eq (known : obj.uid = some uid) :
    s.handleDelete now kindKey obj =
      ((((s.remove kindKey uid).dropOwner uid).recordsOf ((s.remove kindKey uid).childrenOf.sources uid)).filter
          ((s.remove kindKey uid).dropOwner uid).isOrphan).foldl
        (fun s record => s.enqueueDelete now record.uid) ((s.remove kindKey uid).dropOwner uid) := by
  unfold handleDelete
  rw [known]

/-- A child that the delete leaves without owners is in the index under the
deleted one, unless that had been deleted before and was back. -/
theorem queued_delete (known : obj.uid = some uid) (follows : Follows s sight) (queued : Queued s sight) :
    Queued (s.handleDelete now kindKey obj) (nextSight sight (.delete now kindKey obj)) := by
  intro child record found orphan watched
  rw [State.handleDelete_eq known] at found orphan watched ⊢
  rw [State.enqueueAll_isSome]
  rcases @State.enqueueAll_eq ((s.remove kindKey uid).dropOwner uid) now
    ((((s.remove kindKey uid).dropOwner uid).recordsOf ((s.remove kindKey uid).childrenOf.sources uid)).filter
      ((s.remove kindKey uid).dropOwner uid).isOrphan) with ⟨deletes, graphIs⟩
  rw [graphIs] at found orphan watched
  have kept : (if child = uid then none else s.objectsWithOwners.get child) = some record := by
    rw [← SortedMap.get_erase]
    exact found
  split_ifs at kept with different
  have keyed : record.uid = child := follows.linked.keyed kept
  have existsIs : ((s.remove kindKey uid).dropOwner uid).exists_ = s.exists_.erase uid := rfl
  have orphanAfter : ((s.remove kindKey uid).dropOwner uid).isOrphan record = true := orphan
  have stays : Excused sight record -> Excused (nextSight sight (.delete now kindKey obj)) record := by
    intro excused
    refine excused.next fun tried => ?_
    unfold nextSight
    rw [Sight.next_delete_attempted, tried]
  by_cases before : s.isOrphan record = true
  · rcases queued kept before watched with was | excused
    · refine Or.inl (Or.inl ?_)
      have deletesIs : ((s.remove kindKey uid).dropOwner uid).deletes = s.deletes.erase uid := rfl
      rw [deletesIs, SortedMap.get_erase, if_neg different]
      exact was
    · exact Or.inr (stays excused)
  · rcases State.isOrphan_iff.mp orphanAfter with ⟨ready, live, some_, dead⟩
    have names : uid ∈ record.ownerUids ∧ uid ∈ s.exists_ := by
      by_contra apart
      refine before (State.isOrphan_iff.mpr ⟨ready, live, some_, fun owner listed present => ?_⟩)
      by_cases same : owner = uid
      · rw [same] at listed present
        exact apart ⟨listed, present⟩
      · refine dead owner listed ?_
        rw [existsIs]
        exact Finset.mem_erase.mpr ⟨same, present⟩
    rcases follows.complete kept names.1 with inside | gone
    · refine Or.inl (Or.inr ⟨record, List.mem_filter.mpr ⟨List.mem_map.mpr ⟨(child, record), ?_, rfl⟩, orphanAfter⟩, keyed⟩)
      refine List.mem_filter.mpr ⟨SortedMap.mem_entries.mpr found, decide_eq_true ?_⟩
      exact (State.mem_remove_childrenOf follows.linked).mpr ⟨inside, different⟩
    · have back := follows.again uid gone ((follows.alive uid).mp names.2)
      exact Or.inr (Or.inr ⟨uid, names.1, Sight.next_back back⟩)

end

/-! ### Installed lists -/

section
variable {now : Nat} {kindKey uid : String}

/-- The state before the list's objects are stored. -/
def State.cleared (s : State) (kindKey : String) : State :=
  (((s.uidToKind.entries.filter fun entry => entry.2 == kindKey).map Prod.fst).foldl State.forget
    { s with relist := s.relist.erase kindKey }).dropEmpty

def State.listedOf (s : State) (kindKey : String) : List ObjRecord :=
  ((s.relist.get kindKey).getD .empty).entries.map Prod.snd

theorem State.install_eq : s.install kindKey =
    { (s.listedOf kindKey).foldl State.storeRecord (s.cleared kindKey) with
      pendingInit := ((s.listedOf kindKey).foldl State.storeRecord (s.cleared kindKey)).pendingInit.erase kindKey } := rfl

theorem State.mem_oldUids : uid ∈ (s.uidToKind.entries.filter fun entry => entry.2 == kindKey).map Prod.fst <->
    s.uidToKind.get uid = some kindKey := by
  rw [List.mem_map]
  constructor
  · rintro ⟨⟨_, kind⟩, listed, rfl⟩
    rcases List.mem_filter.mp listed with ⟨inside, same⟩
    rw [← eq_of_beq same]
    exact SortedMap.mem_entries.mp inside
  · intro found
    exact ⟨(uid, kindKey), List.mem_filter.mpr ⟨SortedMap.mem_entries.mpr found, beq_self_eq_true _⟩, rfl⟩

theorem State.mem_listedOf {record : ObjRecord} : record ∈ s.listedOf kindKey <->
    Exists fun uid => ((s.relist.get kindKey).getD .empty).get uid = some record := by
  unfold State.listedOf
  rw [List.mem_map]
  constructor
  · rintro ⟨⟨uid, _⟩, listed, rfl⟩
    exact ⟨uid, SortedMap.mem_entries.mp listed⟩
  · rintro ⟨uid, found⟩
    exact ⟨(uid, record), SortedMap.mem_entries.mpr found, rfl⟩

theorem listed_of_staged (follows : Follows s sight) :
    uid ∈ (s.listedOf kindKey).map ObjRecord.uid <-> kindKey ∈ (sight uid).listed := by
  rw [← follows.staged kindKey uid, List.mem_map]
  constructor
  · rintro ⟨record, listed, rfl⟩
    rcases State.mem_listedOf.mp listed with ⟨other, found⟩
    rw [(follows.stagedAs found).1, found]
    rfl
  · intro some_
    rcases Option.isSome_iff_exists.mp some_ with ⟨record, found⟩
    exact ⟨record, State.mem_listedOf.mpr ⟨uid, found⟩, (follows.stagedAs found).1⟩

theorem State.cleared_linked (linked : s.Linked) : (s.cleared kindKey).Linked := by
  have stripped : State.Linked { s with relist := s.relist.erase kindKey } := ⟨linked.keyed, linked.named⟩
  exact stripped.forgetAll.dropEmpty

theorem State.cleared_complete {gone : String -> Prop} (linked : s.Linked) (complete : s.Complete gone) :
    (s.cleared kindKey).Complete gone := by
  have stripped : State.Linked { s with relist := s.relist.erase kindKey } := ⟨linked.keyed, linked.named⟩
  exact (State.Complete.forgetAll stripped complete).dropEmpty

theorem State.install_relist : (s.install kindKey).relist = s.relist.erase kindKey := by
  rw [State.install_eq]
  exact State.storeAll_frame.2.1.trans State.forgetAll_frame.2.1

theorem State.mem_install_exists : uid ∈ (s.install kindKey).exists_ <->
    (uid ∈ s.exists_ ∧ s.uidToKind.get uid ≠ some kindKey) ∨ uid ∈ (s.listedOf kindKey).map ObjRecord.uid := by
  rw [State.install_eq, List.mem_map]
  have kept : uid ∈ (s.cleared kindKey).exists_ <-> uid ∈ s.exists_ ∧ s.uidToKind.get uid ≠ some kindKey := by
    rw [Ne, ← State.mem_oldUids]
    exact State.forgetAll_exists
  rw [← kept]
  exact State.storeAll_exists

theorem State.install_uidToKind (ofKind : forall record, record ∈ s.listedOf kindKey -> record.gvkKey = kindKey) :
    (s.install kindKey).uidToKind.get uid =
      if uid ∈ (s.listedOf kindKey).map ObjRecord.uid then some kindKey
      else if s.uidToKind.get uid = some kindKey then none else s.uidToKind.get uid := by
  have cleared : (s.cleared kindKey).uidToKind.get uid =
      if s.uidToKind.get uid = some kindKey then none else s.uidToKind.get uid := by
    exact State.forgetAll_uidToKind.trans (if_congr State.mem_oldUids rfl rfl)
  rw [State.install_eq, ← cleared]
  exact State.storeAll_uidToKind ofKind

theorem follows_install (follows : Follows s sight) :
    Follows (s.install kindKey) (nextSight sight (.finishRelist now kindKey)) := by
  have linked : ((s.listedOf kindKey).foldl State.storeRecord (s.cleared kindKey)).Linked :=
    (State.cleared_linked follows.linked).storeAll
  have complete : ((s.listedOf kindKey).foldl State.storeRecord (s.cleared kindKey)).Complete
      fun owner => (nextSight sight (.finishRelist now kindKey) owner).gone = true :=
    State.Complete.storeAll (State.cleared_linked follows.linked)
      (State.cleared_complete follows.linked (complete_next follows))
  have ofKind : forall record, record ∈ s.listedOf kindKey -> record.gvkKey = kindKey := by
    intro record listed
    rcases State.mem_listedOf.mp listed with ⟨other, found⟩
    exact (follows.stagedAs found).2
  refine ⟨⟨linked.keyed, linked.named⟩, fun _ _ _ found names => complete found names, ?_, ?_, ?_, ?_, follows.again_next⟩
  · intro uid
    unfold nextSight
    rw [State.mem_install_exists, follows.alive, follows.kinds, listed_of_staged follows, Sight.next_finish_kind]
    split_ifs with listed same
    · exact iff_of_true (Or.inr listed) rfl
    · exact iff_of_false (fun either => either.elim (fun both => both.2 same) listed) nofun
    · rw [or_iff_left listed, and_iff_left same]
  · intro uid
    unfold nextSight
    rw [State.install_uidToKind ofKind, Sight.next_finish_kind, follows.kinds, if_congr (listed_of_staged follows) rfl rfl]
  · intro kind uid
    unfold nextSight
    rw [State.install_relist, staged_erase, Sight.next_finish_listed, Finset.mem_erase]
    split_ifs with same
    · exact iff_of_false nofun (fun both => both.1 same)
    · rw [follows.staged, and_iff_right same]
  · intro kind uid record found
    rw [State.install_relist, staged_erase] at found
    split_ifs at found
    exact follows.stagedAs found

/-- A complete list queues every orphan of the graph, whatever its kind. -/
theorem queued_finishRelist (follows : Follows s sight) :
    Queued (s.finishRelist now kindKey) (nextSight sight (.finishRelist now kindKey)) := by
  intro uid record found orphan _
  have finishIs : s.finishRelist now kindKey =
      (((s.install kindKey).objectsWithOwners.entries.map Prod.snd).filter (s.install kindKey).isOrphan).foldl
        (fun s record => s.enqueueDelete now record.uid) (s.install kindKey) := rfl
  rw [finishIs] at found orphan ⊢
  rcases @State.enqueueAll_eq (s.install kindKey) now
    (((s.install kindKey).objectsWithOwners.entries.map Prod.snd).filter (s.install kindKey).isOrphan) with
    ⟨deletes, graphIs⟩
  rw [graphIs] at found orphan
  rw [State.enqueueAll_isSome]
  have installed : (s.install kindKey).objectsWithOwners.get uid = some record := found
  have orphanInstalled : (s.install kindKey).isOrphan record = true := orphan
  refine Or.inl (Or.inr ⟨record, List.mem_filter.mpr ⟨List.mem_map.mpr ⟨(uid, record), ?_, rfl⟩, orphanInstalled⟩, ?_⟩)
  · exact SortedMap.mem_entries.mpr installed
  · exact (@follows_install s sight now kindKey follows).linked.keyed installed

end

/-! ### Delete attempts -/

section
variable {now : Nat} {attempt : String} {retry : Bool}

theorem State.completeDelete_eq : Exists fun deletes => s.completeDelete now attempt retry = { s with deletes := deletes } := by
  unfold State.completeDelete
  split_ifs
  · exact ⟨_, rfl⟩
  · cases s.deletes.get attempt with
    | none => exact ⟨s.deletes, rfl⟩
    | some entry => exact ⟨_, rfl⟩

theorem follows_completeDelete (follows : Follows s sight) :
    Follows (s.completeDelete now attempt retry) (nextSight sight (.completeDelete now attempt retry)) := by
  rcases @State.completeDelete_eq s now attempt retry with ⟨deletes, graphIs⟩
  have same (uid : String) : nextSight sight (.completeDelete now attempt retry) uid =
      { sight uid with attempted := (nextSight sight (.completeDelete now attempt retry) uid).attempted } := by
    unfold nextSight Sight.next
    dsimp only
    split_ifs <;> rfl
  rw [graphIs]
  refine ⟨⟨follows.linked.keyed, follows.linked.named⟩, fun _ _ _ found names => complete_next follows found names,
    ?_, ?_, ?_, follows.stagedAs, follows.again_next⟩
  · intro uid
    rw [same uid]
    exact follows.alive uid
  · intro uid
    rw [same uid]
    exact follows.kinds uid
  · intro kind uid
    rw [same uid]
    exact follows.staged kind uid

theorem queued_completeDelete (follows : Follows s sight) (queued : Queued s sight) :
    Queued (s.completeDelete now attempt retry) (nextSight sight (.completeDelete now attempt retry)) := by
  rcases @State.completeDelete_eq s now attempt retry with ⟨deletes, graphIs⟩
  intro uid record found orphan watched
  have before : s.objectsWithOwners.get uid = some record ∧ s.isOrphan record = true ∧ record.gvkKey ∈ s.resources := by
    rw [graphIs] at found orphan watched
    exact ⟨found, orphan, watched⟩
  have keyed : record.uid = uid := follows.linked.keyed before.1
  by_cases ended : attempt = uid ∧ retry = false
  · refine Or.inr (Or.inl ?_)
    unfold nextSight Sight.next
    dsimp only
    rw [keyed, if_pos ended]
  · rcases queued before.1 before.2.1 before.2.2 with was | excused
    · refine Or.inl ?_
      unfold State.completeDelete
      cases retry with
      | false =>
        have different : uid ≠ attempt := fun same => ended ⟨same.symm, rfl⟩
        rw [if_pos (show (!false) = true from rfl), SortedMap.get_erase, if_neg different]
        exact was
      | true =>
        rw [if_neg (show ¬ (!true) = true from Bool.false_ne_true)]
        cases held : s.deletes.get attempt with
        | none => exact was
        | some entry =>
          rw [SortedMap.get_insert]
          split_ifs
          · rfl
          · exact was
    · refine Or.inr (excused.next fun tried => ?_)
      unfold nextSight Sight.next
      dsimp only
      split_ifs
      · rfl
      · exact tried

theorem State.nextDelete_eq : Exists fun deletes => (s.nextDelete attempt).1 = { s with deletes := deletes } := by
  unfold State.nextDelete
  cases s.objectsWithOwners.get attempt with
  | none => exact ⟨_, rfl⟩
  | some record =>
    dsimp only
    split_ifs
    · exact ⟨_, rfl⟩
    · exact ⟨s.deletes, rfl⟩

theorem follows_nextDelete (follows : Follows s sight) :
    Follows (s.nextDelete attempt).1 (nextSight sight (.nextDelete attempt)) := by
  rcases @State.nextDelete_eq s attempt with ⟨deletes, graphIs⟩
  rw [graphIs]
  exact follows.deletes

theorem queued_nextDelete (queued : Queued s sight) :
    Queued (s.nextDelete attempt).1 (nextSight sight (.nextDelete attempt)) := by
  rcases @State.nextDelete_eq s attempt with ⟨deletes, graphIs⟩
  intro uid record found orphan watched
  have before : s.objectsWithOwners.get uid = some record ∧ s.isOrphan record = true ∧ record.gvkKey ∈ s.resources := by
    rw [graphIs] at found orphan watched
    exact ⟨found, orphan, watched⟩
  refine (queued before.1 before.2.1 before.2.2).imp_left fun was => ?_
  unfold State.nextDelete
  by_cases same : uid = attempt
  · have stays : ¬ (!s.isOrphan record || decide (record.gvkKey ∉ s.resources)) = true := by
      rw [before.2.1, decide_eq_false (not_not_intro before.2.2)]
      nofun
    rw [← same, before.1]
    dsimp only
    rw [if_neg stays]
    exact was
  · have kept : ((s.deletes.erase attempt).get uid).isSome := by
      rw [SortedMap.get_erase, if_neg same]
      exact was
    cases s.objectsWithOwners.get attempt with
    | none => exact kept
    | some record =>
      dsimp only
      split_ifs
      · exact kept
      · exact was

end

/-! ## Every run -/

theorem follows_step (follows : Follows s sight) (queued : Queued s sight) :
    Follows (step s event) (nextSight sight event) ∧ Queued (step s event) (nextSight sight event) := by
  cases event with
  | beginRelist kindKey => exact ⟨follows_beginRelist follows, queued_beginRelist queued⟩
  | apply now kindKey obj staged =>
    cases known : obj.uid with
    | none =>
      have stateIs : step s (.apply now kindKey obj staged) = s := by
        change s.handleApply now kindKey obj staged = s
        unfold State.handleApply
        rw [known]
      have sightIs : nextSight sight (.apply now kindKey obj staged) = sight := by
        funext uid
        unfold nextSight Sight.next
        dsimp only
        rw [known, if_neg (Option.some_ne_none uid).symm]
      rw [stateIs, sightIs]
      exact ⟨follows, queued⟩
    | some uid =>
      cases staged with
      | true =>
        have stateIs : step s (.apply now kindKey obj true) =
            s.stage kindKey uid (ObjRecord.ofObject kindKey uid obj) := by
          change s.handleApply now kindKey obj true = _
          unfold State.handleApply
          rw [known]
          rfl
        rw [stateIs]
        exact ⟨follows_stage known follows, queued_stage queued⟩
      | false =>
        have stateIs : step s (.apply now kindKey obj false) =
            if (s.storeRecord (ObjRecord.ofObject kindKey uid obj)).isOrphan (ObjRecord.ofObject kindKey uid obj) then
              (s.storeRecord (ObjRecord.ofObject kindKey uid obj)).enqueueDelete now uid
            else s.storeRecord (ObjRecord.ofObject kindKey uid obj) := by
          change s.handleApply now kindKey obj false = _
          unfold State.handleApply
          rw [known]
          rfl
        rw [stateIs]
        refine ⟨?_, queued_store known follows queued⟩
        split_ifs
        · exact (follows_store known follows).deletes
        · exact follows_store known follows
  | delete now kindKey obj =>
    cases known : obj.uid with
    | none =>
      have stateIs : step s (.delete now kindKey obj) = s := by
        change s.handleDelete now kindKey obj = s
        unfold State.handleDelete
        rw [known]
      have sightIs : nextSight sight (.delete now kindKey obj) = sight := by
        funext uid
        unfold nextSight Sight.next
        dsimp only
        rw [known, if_neg (Option.some_ne_none uid).symm]
      rw [stateIs, sightIs]
      exact ⟨follows, queued⟩
    | some uid =>
      refine ⟨?_, queued_delete known follows queued⟩
      unfold step
      dsimp only
      rw [State.handleDelete_eq known]
      rcases @State.enqueueAll_eq ((s.remove kindKey uid).dropOwner uid) now
        ((((s.remove kindKey uid).dropOwner uid).recordsOf ((s.remove kindKey uid).childrenOf.sources uid)).filter
          ((s.remove kindKey uid).dropOwner uid).isOrphan) with ⟨deletes, graphIs⟩
      rw [graphIs]
      exact (follows_remove known follows).deletes
  | finishRelist now kindKey =>
    refine ⟨?_, queued_finishRelist follows⟩
    unfold step State.finishRelist State.installSnapshot
    dsimp only
    rcases @State.enqueueAll_eq (s.install kindKey) now
      (((s.install kindKey).objectsWithOwners.entries.map Prod.snd).filter (s.install kindKey).isOrphan) with
      ⟨deletes, graphIs⟩
    rw [graphIs]
    exact (follows_install follows).deletes
  | completeDelete now uid retry => exact ⟨follows_completeDelete follows, queued_completeDelete follows queued⟩
  | nextDelete uid => exact ⟨follows_nextDelete follows, queued_nextDelete queued⟩

theorem follows_run {resources : Finset String} {events : List Event} :
    Follows (run step (.start resources) events) (sightOf events) ∧
      Queued (run step (.start resources) events) (sightOf events) := by
  induction events using List.reverseRecOn with
  | nil =>
    have empty : State.Linked (.start resources) := by
      refine ⟨?_, ?_⟩
      · intro uid record found
        cases found
      · intro owner child inside
        exact absurd inside (Finset.notMem_empty child)
    refine ⟨⟨empty, ?_, ?_, fun _ => rfl, ?_, ?_, ?_⟩, ?_⟩
    · intro child record owner found
      cases found
    · exact fun uid => iff_of_false (Finset.notMem_empty uid) nofun
    · exact fun kind uid => iff_of_false nofun (Finset.notMem_empty kind)
    · intro kind uid record found
      cases found
    · intro uid gone
      cases gone
    · intro uid record found
      cases found
  | append_singleton earlier last ih =>
    have sightIs : sightOf (earlier ++ [last]) = nextSight (sightOf earlier) last := funext fun _ => sightOf_concat
    rw [run_concat, sightIs]
    exact follows_step ih.1 ih.2

/-- What is in the graph after a sequence of events. -/
structure MissesNone (events : List Event) (s : State) : Prop where
  children : forall owner child, child ∈ s.childrenOf.sources owner -> Exists fun record =>
    s.objectsWithOwners.get child = some record ∧ owner ∈ record.ownerUids
  owners : forall child record owner, s.objectsWithOwners.get child = some record -> owner ∈ record.ownerUids ->
    child ∈ s.childrenOf.sources owner ∨ (sightOf events owner).gone = true
  alive : forall uid, uid ∈ s.exists_ <-> (sightOf events uid).kind.isSome
  queued : forall uid record, s.objectsWithOwners.get uid = some record -> s.isOrphan record = true ->
    record.gvkKey ∈ s.resources ->
      (s.deletes.get uid).isSome ∨ (sightOf events uid).attempted = true ∨
        Exists fun owner => owner ∈ record.ownerUids ∧ (sightOf events owner).back = true

theorem misses_none (resources : Finset String) (events : List Event) :
    MissesNone events (run step (.start resources) events) := by
  rcases @follows_run resources events with ⟨follows, queued⟩
  refine ⟨fun _ _ inside => follows.linked.named inside, fun _ _ _ found names => follows.complete found names,
    follows.alive, fun uid record found orphan watched => ?_⟩
  have keyed : record.uid = uid := follows.linked.keyed found
  rw [← keyed] at found ⊢
  exact queued found orphan watched

/-- The reverse index is exactly the inverse of the owners of the records. -/
def ExactInverse (s : State) : Prop :=
  forall owner child, child ∈ s.childrenOf.sources owner <-> Exists fun record =>
    s.objectsWithOwners.get child = some record ∧ owner ∈ record.ownerUids

private def oldShop : DynamicObject where
  uid := some "1"
  inNamespace := some "default"
  name := "shop"
  ownerReferences := []
  deletionTimestamp := none

private def oldShopPod : DynamicObject where
  uid := some "2"
  inNamespace := some "default"
  name := "shop-0"
  ownerReferences := [⟨"v1", "Shop", "shop", "1"⟩]
  deletionTimestamp := none

/-- The pod still names its deleted owner, and the index has no entry for it. -/
theorem not_inverse_oldShop : ¬ ExactInverse (run step (.start {"v1/Shop", "v1/Pod"})
    [.apply 0 "v1/Shop" oldShop false, .apply 0 "v1/Pod" oldShopPod false, .delete 1 "v1/Shop" oldShop]) := by
  intro exact_
  have listed : "2" ∈ (run step (.start {"v1/Shop", "v1/Pod"})
      [.apply 0 "v1/Shop" oldShop false, .apply 0 "v1/Pod" oldShopPod false,
        .delete 1 "v1/Shop" oldShop]).childrenOf.sources "1" := by
    rw [exact_ "1" "2"]
    exact ⟨ObjRecord.ofObject "v1/Pod" "2" oldShopPod, by decide +kernel, by decide +kernel⟩
  revert listed
  decide +kernel

end GarbageCollector
end NotK8s.Controllers

import Mathlib.Data.String.Basic
import NotK8s.Library.Relist
import NotK8s.Library.Run

namespace NotK8s.Controllers

open Library

/-!
# The shared informer

One watcher feeds a store that every controller subscribes to.  A subscriber
takes a snapshot of the store and then what is sent, and it takes another
snapshot when the channel has dropped something it did not read.  Everything
that was ever sent is kept here; the channel holds the last few events of it.
-/

class Resource (Obj : Type) where
  namespaceOf : Obj -> Option String
  nameAny : Obj -> String

variable {Obj : Type} [Resource Obj]

def objectKey (object : Obj) : String :=
  (Resource.namespaceOf object).getD "" ++ "/" ++ Resource.nameAny object

/-- How many events the channel holds. -/
def channelCapacity : Nat :=
  512

/-- Each write to `ready` is a new version of it. -/
structure SharedWatch (Obj : Type) where
  objects : SortedMap String Obj
  ready : Bool
  readyVersion : Nat
  sent : List (WatchEvent Obj)

inductive SubscriptionPhase where
  | needSnapshot
  | init
  | initApply
  | initDone
  | live

/-- What was returned so far is kept for the statements only. -/
structure SharedSubscription (Obj : Type) where
  phase : SubscriptionPhase
  initial : List Obj
  initialIndex : Nat
  position : Nat
  readySeen : Nat
  received : List (WatchEvent Obj)

namespace SharedWatch

def new : SharedWatch Obj where
  objects := .empty
  ready := false
  readyVersion := 0
  sent := []

def sendReady (w : SharedWatch Obj) (ready : Bool) : SharedWatch Obj :=
  { w with ready := ready, readyVersion := w.readyVersion + 1 }

/-- The store and the channel change under one lock. -/
def apply (w : SharedWatch Obj) (event : WatchEvent Obj) : SharedWatch Obj :=
  let stored :=
    match event with
    | .init => { w with objects := .empty }.sendReady false
    | .initApply object => { w with objects := w.objects.insert (objectKey object) object }
    | .apply object => { w with objects := w.objects.insert (objectKey object) object }
    | .delete object => { w with objects := w.objects.erase (objectKey object) }
    | .initDone => w.sendReady true
  { stored with sent := stored.sent ++ [event] }

/-- The objects, and where a receiver begins that is opened now. -/
def snapshotAndSubscribe (w : SharedWatch Obj) : Option (List Obj × Nat) :=
  if w.ready then some (w.objects.entries.map Prod.snd, w.sent.length) else none

def subscribe (w : SharedWatch Obj) : SharedSubscription Obj where
  phase := .needSnapshot
  initial := []
  initialIndex := 0
  position := w.sent.length
  readySeen := w.readyVersion
  received := []

end SharedWatch

/-- What a receiver gets. -/
inductive Received (Obj : Type) where
  | event (event : WatchEvent Obj)
  | lagged
  | pending

def SharedWatch.recv (w : SharedWatch Obj) (position : Nat) : Received Obj :=
  if position + channelCapacity < w.sent.length then .lagged
  else
    match w.sent[position]? with
    | some event => .event event
    | none => .pending

namespace SharedSubscription

def returns (s : SharedSubscription Obj) (event : WatchEvent Obj) : SharedSubscription Obj :=
  { s with received := s.received ++ [event] }

/-- One turn of the loop of `next_event`.  It may return an event, go round
again or wait. -/
def nextEvent (w : SharedWatch Obj) (s : SharedSubscription Obj) : SharedSubscription Obj :=
  match s.phase with
  | .needSnapshot =>
    match w.snapshotAndSubscribe with
    | none => if s.readySeen = w.readyVersion then s else { s with readySeen := w.readyVersion }
    | some (initial, position) => { s with initial := initial, position := position, initialIndex := 0, phase := .init }
  | .init => { s with phase := if s.initial.isEmpty then .initDone else .initApply }.returns .init
  | .initApply =>
    match s.initial[s.initialIndex]? with
    | none => s
    | some object =>
      { s with
        initialIndex := s.initialIndex + 1
        phase := if s.initialIndex + 1 = s.initial.length then .initDone else .initApply }.returns (.initApply object)
  | .initDone => { s with phase := .live }.returns .initDone
  | .live =>
    match w.recv s.position with
    | .event event => { s with position := s.position + 1 }.returns event
    | .lagged => { s with position := w.sent.length - channelCapacity, phase := .needSnapshot }
    | .pending => s

end SharedSubscription

/-- The informer and everyone who subscribed. -/
structure Informer (Obj : Type) where
  watch : SharedWatch Obj
  subscriptions : List (SharedSubscription Obj)

inductive InformerStep (Obj : Type) where
  | event (event : WatchEvent Obj)
  | subscribe
  | poll (subscription : Nat)

namespace Informer

def new : Informer Obj where
  watch := .new
  subscriptions := []

def step (i : Informer Obj) : InformerStep Obj -> Informer Obj
  | .event event => { i with watch := i.watch.apply event }
  | .subscribe => { i with subscriptions := i.subscriptions ++ [i.watch.subscribe] }
  | .poll subscription =>
    match i.subscriptions[subscription]? with
    | none => i
    | some s => { i with subscriptions := i.subscriptions.set subscription (s.nextEvent i.watch) }

end Informer

/-! ## What a subscriber has been told -/

/-- The store as it was when so many events had been sent. -/
def SharedWatch.past (w : SharedWatch Obj) (position : Nat) : SortedMap String Obj :=
  mirrored objectKey .empty (w.sent.take position)

/-- The store is what was sent. -/
structure SharedWatch.Sound (w : SharedWatch Obj) : Prop where
  stored : w.objects = w.past w.sent.length

/-- Told everything up to a position: the latest snapshot and what was sent
after it, nothing older and nothing left out. -/
def SharedSubscription.Told (w : SharedWatch Obj) (s : SharedSubscription Obj) : Prop :=
  Exists fun earlier => Exists fun since => since ≤ s.position ∧
    s.received = earlier ++ relist ((w.past since).entries.map Prod.snd) ++ (w.sent.take s.position).drop since

/-- What holds in each phase of a subscription. -/
def SharedSubscription.Follows (w : SharedWatch Obj) (s : SharedSubscription Obj) : Prop :=
  s.position ≤ w.sent.length ∧
    match s.phase with
    | .needSnapshot => True
    | .init => s.initial = (w.past s.position).entries.map Prod.snd ∧ s.initialIndex = 0
    | .initApply => s.initial = (w.past s.position).entries.map Prod.snd ∧ s.initialIndex < s.initial.length ∧
        Exists fun earlier => s.received = earlier ++ .init :: (s.initial.take s.initialIndex).map .initApply
    | .initDone => s.initial = (w.past s.position).entries.map Prod.snd ∧
        Exists fun earlier => s.received = earlier ++ .init :: s.initial.map .initApply
    | .live => s.Told w

namespace SharedWatch

variable {w : SharedWatch Obj} {event : WatchEvent Obj}

theorem apply_objects : (w.apply event).objects = mirror objectKey w.objects event := by
  cases event <;> rfl

theorem apply_sent : (w.apply event).sent = w.sent ++ [event] := by
  cases event <;> rfl

theorem past_keys (position : Nat) : Keys objectKey (w.past position) :=
  Keys.empty.mirrored _

theorem apply_past {position : Nat} (sent : position ≤ w.sent.length) : (w.apply event).past position = w.past position := by
  unfold past
  rw [apply_sent, List.take_append_of_le_length sent]

theorem Sound.new : (new : SharedWatch Obj).Sound :=
  ⟨rfl⟩

theorem Sound.apply (sound : w.Sound) (event : WatchEvent Obj) : (w.apply event).Sound := by
  constructor
  have before := sound.stored
  unfold past at before ⊢
  rw [List.take_length] at before ⊢
  rw [apply_objects, apply_sent, mirrored_append, ← before]
  rfl

end SharedWatch

namespace SharedSubscription

variable {w : SharedWatch Obj} {s : SharedSubscription Obj}

theorem Follows.apply (follows : s.Follows w) (event : WatchEvent Obj) : s.Follows (w.apply event) := by
  rcases follows with ⟨sent, told⟩
  have longer : s.position ≤ (w.apply event).sent.length := by
    rw [SharedWatch.apply_sent, List.length_append]
    exact Nat.le_add_right_of_le sent
  refine ⟨longer, ?_⟩
  cases phase : s.phase with
  | needSnapshot => exact True.intro
  | live =>
    simp only [phase] at told ⊢
    rcases told with ⟨earlier, since, before, received⟩
    refine ⟨earlier, since, before, ?_⟩
    rw [SharedWatch.apply_past (Nat.le_trans before sent), SharedWatch.apply_sent, List.take_append_of_le_length sent]
    exact received
  | _ =>
    simp only [phase] at told ⊢
    rw [SharedWatch.apply_past sent]
    exact told

theorem Follows.subscribe (w : SharedWatch Obj) : w.subscribe.Follows w :=
  ⟨Nat.le_refl _, True.intro⟩

/-- One turn keeps what the subscriber was told in step with what was sent. -/
theorem Follows.nextEvent (sound : w.Sound) (follows : s.Follows w) : (s.nextEvent w).Follows w := by
  rcases follows with ⟨sent, told⟩
  unfold SharedSubscription.nextEvent
  cases phase : s.phase with
  | needSnapshot =>
    have all : w.objects = w.past w.sent.length := sound.stored
    unfold SharedWatch.snapshotAndSubscribe
    cases w.ready with
    | true => exact ⟨Nat.le_refl _, congrArg (fun held => held.entries.map Prod.snd) all, rfl⟩
    | false =>
      simp only [Bool.false_eq_true, if_false]
      split_ifs
      · refine ⟨sent, ?_⟩
        rw [phase]
        exact True.intro
      · exact ⟨sent, True.intro⟩
  | init =>
    simp only [phase] at told
    refine ⟨sent, ?_⟩
    cases objects : s.initial with
    | nil =>
      refine ⟨objects.symm.trans told.1, s.received, ?_⟩
      rfl
    | cons first rest =>
      refine ⟨objects.symm.trans told.1, ?_, s.received, ?_⟩
      · rw [told.2]
        exact Nat.zero_lt_succ _
      · rw [told.2]
        rfl
  | initApply =>
    simp only [phase] at told
    rcases told with ⟨snapshot, within, earlier, received⟩
    have here := List.getElem?_eq_getElem within
    have more : s.initial.take (s.initialIndex + 1) = s.initial.take s.initialIndex ++ [s.initial[s.initialIndex]] :=
      List.take_succ_eq_append_getElem within
    have told : s.received ++ [.initApply s.initial[s.initialIndex]] =
        earlier ++ .init :: (s.initial.take (s.initialIndex + 1)).map .initApply := by
      rw [received, more, List.map_append, List.append_assoc]
      rfl
    rw [here]
    unfold returns
    refine ⟨sent, ?_⟩
    dsimp only
    by_cases last : s.initialIndex + 1 = s.initial.length
    · rw [if_pos last]
      refine ⟨snapshot, earlier, ?_⟩
      rw [told, last, List.take_length]
    · rw [if_neg last]
      exact ⟨snapshot, Nat.lt_of_le_of_ne within last, earlier, told⟩
  | initDone =>
    simp only [phase] at told
    rcases told with ⟨snapshot, earlier, received⟩
    unfold returns
    refine ⟨sent, earlier, s.position, Nat.le_refl _, ?_⟩
    dsimp only
    rw [List.drop_eq_nil_of_le (List.length_take_le _ _), List.append_nil, received, ← snapshot]
    exact List.append_assoc ..
  | live =>
    simp only [phase] at told
    unfold SharedWatch.recv
    dsimp only
    split_ifs with behind
    · exact ⟨Nat.sub_le _ _, True.intro⟩
    · cases next : w.sent[s.position]? with
      | none =>
        dsimp only
        refine ⟨sent, ?_⟩
        rw [phase]
        exact told
      | some event =>
        rcases List.getElem?_eq_some_iff.mp next with ⟨within, rfl⟩
        rcases told with ⟨earlier, since, before, received⟩
        unfold returns
        refine ⟨within, ?_⟩
        refine ⟨earlier, since, Nat.le_succ_of_le before, ?_⟩
        have more : w.sent.take (s.position + 1) = w.sent.take s.position ++ [w.sent[s.position]] :=
          List.take_succ_eq_append_getElem within
        have kept : since ≤ (w.sent.take s.position).length := by
          rw [List.length_take_of_le sent]
          exact before
        dsimp only
        rw [received, more, List.drop_append_of_le_length kept, List.append_assoc]

/-- A subscriber that was told everything holds the objects of the store. -/
theorem Told.mirrored (sound : w.Sound) (told : s.Told w) (all : s.position = w.sent.length) :
    mirrored objectKey .empty s.received = w.objects := by
  rcases told with ⟨earlier, since, before, received⟩
  rw [received, mirrored_append, mirrored_append, mirrored_relist (w.past_keys since)]
  have whole : w.past s.position = Library.mirrored objectKey (w.past since) ((w.sent.take s.position).drop since) := by
    have split : w.sent.take s.position = w.sent.take since ++ (w.sent.take s.position).drop since := by
      have cut := List.take_append_drop since (w.sent.take s.position)
      rw [List.take_take, Nat.min_eq_left before] at cut
      exact cut.symm
    unfold SharedWatch.past
    rw [← mirrored_append, ← split]
  rw [← whole, all, ← sound.stored]

end SharedSubscription

/-! ## Runs -/

/-- The subscriber is past its snapshot and the channel has nothing more for
it. -/
def SharedSubscription.CaughtUp (w : SharedWatch Obj) (s : SharedSubscription Obj) : Prop :=
  s.phase = .live ∧ s.position = w.sent.length

namespace Informer

variable {i : Informer Obj}

structure Sound (i : Informer Obj) : Prop where
  watch : i.watch.Sound
  subscriptions : forall s, s ∈ i.subscriptions -> s.Follows i.watch

theorem Sound.new : (new : Informer Obj).Sound :=
  ⟨SharedWatch.Sound.new, nofun⟩

theorem Sound.step (sound : i.Sound) (label : InformerStep Obj) : (i.step label).Sound := by
  cases label with
  | event event =>
    exact ⟨sound.watch.apply event, fun s listed => (sound.subscriptions s listed).apply event⟩
  | subscribe =>
    refine ⟨sound.watch, ?_⟩
    intro s listed
    rcases List.mem_append.mp listed with before | new
    · exact sound.subscriptions s before
    · exact List.mem_singleton.mp new ▸ SharedSubscription.Follows.subscribe i.watch
  | poll subscription =>
    unfold Informer.step
    dsimp only
    cases there : i.subscriptions[subscription]? with
    | none => exact sound
    | some polled =>
      refine ⟨sound.watch, ?_⟩
      intro s listed
      rcases List.mem_or_eq_of_mem_set listed with before | rfl
      · exact sound.subscriptions s before
      · exact (sound.subscriptions polled (List.mem_of_getElem? there)).nextEvent sound.watch

end Informer
end NotK8s.Controllers

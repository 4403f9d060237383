import NotK8s.Flowcontrol.Limiter
import NotK8s.Library.Ledger
import NotK8s.Library.Run

namespace NotK8s.Flowcontrol

open Library

/-!
# Every counter is exact

Whatever the order of the steps, each counter of the limiter is the number of
requests that hold a place in it.  A request holds what its phase says, from
the atomic operation that counted it to the one that takes it off again.
-/

namespace ConcurrencyLimiter

/-- How many queues the state at an address has. -/
def queueCount (l : ConcurrencyLimiter) (state : Nat) : Nat :=
  l.read state fun s => s.queues.length

/-- The account exists and is counted by a plain counter. -/
def Has (l : ConcurrencyLimiter) : Account -> Prop
  | .requests => False
  | .mutatingRequests => False
  | .queued => True
  | .active state => state < l.states.length
  | .queueActive state queue => queue < l.queueCount state
  | .queueQueued state queue => queue < l.queueCount state

/-- Nothing that a request may have found is gone. -/
def Grows (l l' : ConcurrencyLimiter) : Prop :=
  forall state, l.queueCount state ≤ l'.queueCount state

variable {l l' : ConcurrencyLimiter} {state state' queue : Nat} {f : PriorityState -> PriorityState}
  {field : PriorityState -> Nat} {x y : Account} {g : Nat -> Nat}

theorem Grows.refl (l : ConcurrencyLimiter) : Grows l l := fun _ => Nat.le_refl _

theorem read_modifyState : (l.modifyState state f).read state' field =
    if state = state' then l.read state' fun s => field (f s) else l.read state' field := by
  unfold read modifyState
  rw [List.getElem?_modify]
  split_ifs with same
  · cases l.states[state']? <;> rfl
  · cases l.states[state']? <;> rfl

theorem read_modifyState_of_eq (same : forall s, field (f s) = field s) :
    (l.modifyState state f).read state' field = l.read state' field := by
  rw [read_modifyState]
  split_ifs
  · simp only [same]
  · rfl

theorem Grows.modifyState (same : forall s, (f s).queues.length = s.queues.length) : Grows l (l.modifyState state f) :=
  fun _ => (read_modifyState_of_eq same).ge

theorem amount_modifyState (same : forall s, (f s).active = s.active) (queues : forall s, (f s).queues = s.queues) :
    (l.modifyState state f).amount x = l.amount x := by
  cases x with
  | requests => rfl
  | mutatingRequests => rfl
  | queued => rfl
  | active a => exact read_modifyState_of_eq same
  | queueActive a q => exact read_modifyState_of_eq fun s => by unfold PriorityState.amount; rw [queues]
  | queueQueued a q => exact read_modifyState_of_eq fun s => by unfold PriorityState.amount; rw [queues]

end ConcurrencyLimiter

namespace PriorityState

variable {s : PriorityState} {queue queue' : Nat} {f : PriorityQueue -> PriorityQueue} {count : PriorityQueue -> Nat}
  {g : Nat -> Nat}

theorem amount_modifyQueue : (s.modifyQueue queue f).amount queue' count =
    if queue = queue' then s.amount queue' fun q => count (f q) else s.amount queue' count := by
  unfold amount modifyQueue
  rw [List.getElem?_modify]
  split_ifs with same
  · cases s.queues[queue']? <;> rfl
  · cases s.queues[queue']? <;> rfl

theorem amount_modifyQueue_of_eq (same : forall q, count (f q) = count q) :
    (s.modifyQueue queue f).amount queue' count = s.amount queue' count := by
  rw [amount_modifyQueue]
  split_ifs
  · simp only [same]
  · rfl

theorem amount_map (present : queue < s.queues.length) : (s.amount queue fun q => g (count q)) = g (s.amount queue count) := by
  unfold amount
  rw [List.getElem?_eq_getElem present]

end PriorityState

namespace ConcurrencyLimiter

variable {l l' : ConcurrencyLimiter} {state queue : Nat} {field : PriorityState -> Nat} {x y : Account}
  {g : Nat -> Nat}

theorem read_pos (present : queue < l.queueCount state) :
    Exists fun s => l.states[state]? = some s ∧ queue < s.queues.length := by
  unfold queueCount read at present
  cases found : l.states[state]? with
  | none =>
    rw [found] at present
    exact absurd present (Nat.not_lt_zero queue)
  | some s =>
    rw [found] at present
    exact ⟨s, rfl, present⟩

theorem read_found {s : PriorityState} (found : l.states[state]? = some s) : l.read state field = field s := by
  unfold read
  rw [found]

theorem read_missing (missing : l.states[state]? = none) : l.read state field = 0 := by
  unfold read
  rw [missing]

theorem amount_change_other (other : x ≠ y) : (l.change g x).amount y = l.amount y := by
  cases x with
  | requests => rfl
  | mutatingRequests => rfl
  | queued =>
    cases y with
    | queued => exact absurd rfl other
    | _ => rfl
  | active a =>
    cases y with
    | active b =>
      have different : a ≠ b := fun same => other (by rw [same])
      exact read_modifyState.trans (if_neg different)
    | queueActive b q | queueQueued b q => exact read_modifyState_of_eq fun _ => rfl
    | _ => rfl
  | queueActive a q =>
    cases y with
    | active b => exact read_modifyState_of_eq fun _ => rfl
    | queueActive b q' =>
      refine read_modifyState.trans ?_
      split_ifs with same
      · have different : q ≠ q' := fun equal => other (by rw [same, equal])
        simp only [PriorityState.amount_modifyQueue, if_neg different]
        rfl
      · rfl
    | queueQueued b q' => exact read_modifyState_of_eq fun _ => PriorityState.amount_modifyQueue_of_eq fun _ => rfl
    | _ => rfl
  | queueQueued a q =>
    cases y with
    | active b => exact read_modifyState_of_eq fun _ => rfl
    | queueActive b q' => exact read_modifyState_of_eq fun _ => PriorityState.amount_modifyQueue_of_eq fun _ => rfl
    | queueQueued b q' =>
      refine read_modifyState.trans ?_
      split_ifs with same
      · have different : q ≠ q' := fun equal => other (by rw [same, equal])
        simp only [PriorityState.amount_modifyQueue, if_neg different]
        rfl
      · rfl
    | _ => rfl

theorem amount_change_self (has : l.Has x) : (l.change g x).amount x = g (l.amount x) := by
  cases x with
  | requests | mutatingRequests => exact has.elim
  | queued => rfl
  | active a =>
    have found := List.getElem?_eq_getElem has
    change (l.modifyState a _).read a _ = g (l.read a _)
    rw [read_modifyState, if_pos rfl, read_found found, read_found found]
  | queueActive a q | queueQueued a q =>
    rcases read_pos has with ⟨s, found, present⟩
    change (l.modifyState a _).read a _ = g (l.read a _)
    rw [read_modifyState, if_pos rfl, read_found found, read_found found, PriorityState.amount_modifyQueue, if_pos rfl]
    exact PriorityState.amount_map present

theorem has_of_pos (held : 0 < l.amount x) (plain : x ≠ .requests) (plain' : x ≠ .mutatingRequests) : l.Has x := by
  have there : forall state field, 0 < l.read state field -> Exists fun s => l.states[state]? = some s := by
    intro state field positive
    cases found : l.states[state]? with
    | none =>
      rw [read_missing found] at positive
      exact absurd positive (Nat.lt_irrefl 0)
    | some s => exact ⟨s, rfl⟩
  have queue : forall state queue count, 0 < (l.read state fun s => s.amount queue count) -> queue < l.queueCount state := by
    intro state queue count positive
    rcases there _ _ positive with ⟨s, found⟩
    unfold queueCount
    rw [read_found found] at positive ⊢
    rcases Nat.lt_or_ge queue s.queues.length with present | beyond
    · exact present
    · unfold PriorityState.amount at positive
      rw [List.getElem?_eq_none beyond] at positive
      exact absurd positive (Nat.lt_irrefl 0)
  cases x with
  | requests => exact plain rfl
  | mutatingRequests => exact plain' rfl
  | queued => trivial
  | active a =>
    rcases there a _ held with ⟨s, found⟩
    exact (List.getElem?_eq_some_iff.mp found).1
  | queueActive a q | queueQueued a q => exact queue a q _ held

theorem amount_fetchAdd (has : l.Has x) : (l.fetchAdd x).amount y = l.amount y + if x == y then 1 else 0 := by
  by_cases same : x = y
  · rw [← same, beq_self_eq_true, if_pos rfl]
    exact amount_change_self has
  · rw [beq_eq_false_iff_ne.mpr same, if_neg Bool.false_ne_true, Nat.add_zero]
    exact amount_change_other same

theorem amount_giveBack (held : 0 < l.amount x) : (l.giveBack x).amount y + (if x == y then 1 else 0) = l.amount y := by
  by_cases same : x = y
  · rw [← same, beq_self_eq_true, if_pos rfl]
    have one : (l.giveBack x).amount x = l.amount x - 1 := by
      cases x with
      | requests => rfl
      | mutatingRequests => rfl
      | queued => rfl
      | active a | queueActive a q | queueQueued a q => exact amount_change_self (has_of_pos held nofun nofun)
    omega
  · rw [beq_eq_false_iff_ne.mpr same, if_neg Bool.false_ne_true, Nat.add_zero]
    cases x with
    | requests =>
      cases y with
      | requests => exact absurd rfl same
      | _ => rfl
    | mutatingRequests =>
      cases y with
      | mutatingRequests => exact absurd rfl same
      | _ => rfl
    | queued | active a | queueActive a q | queueQueued a q => exact amount_change_other same

theorem Semaphore.taken_tryAcquire {s s' : Semaphore} (free : s.tryAcquire = some s') : s'.taken = s.taken + 1 := by
  unfold Semaphore.tryAcquire at free
  split_ifs at free
  cases free
  rfl

theorem amount_tryAcquire {seat : Seat} (taken : l.tryAcquire seat = some l') :
    l'.amount y = l.amount y + if seat.account == y then 1 else 0 := by
  cases seat with
  | requests =>
    rcases Option.map_eq_some_iff.mp taken with ⟨s, free, rfl⟩
    cases y with
    | requests => exact Semaphore.taken_tryAcquire free
    | _ => rfl
  | mutatingRequests =>
    rcases Option.map_eq_some_iff.mp taken with ⟨s, free, rfl⟩
    cases y with
    | mutatingRequests => exact Semaphore.taken_tryAcquire free
    | _ => rfl

theorem queueCount_change : (l.change g x).queueCount state = l.queueCount state := by
  cases x with
  | requests => rfl
  | mutatingRequests => rfl
  | queued => rfl
  | active a => exact read_modifyState_of_eq fun _ => rfl
  | queueActive a q | queueQueued a q => exact read_modifyState_of_eq fun s => List.length_modify _ _ _

theorem queueCount_giveBack : (l.giveBack x).queueCount state = l.queueCount state := by
  cases x with
  | requests => rfl
  | mutatingRequests => rfl
  | queued => rfl
  | active a | queueActive a q | queueQueued a q => exact queueCount_change

theorem states_tryAcquire {seat : Seat} (taken : l.tryAcquire seat = some l') :
    l'.states = l.states ∧ l'.priorityStates = l.priorityStates := by
  cases seat with
  | requests | mutatingRequests =>
    rcases Option.map_eq_some_iff.mp taken with ⟨s, _, rfl⟩
    exact ⟨rfl, rfl⟩

end ConcurrencyLimiter
end NotK8s.Flowcontrol

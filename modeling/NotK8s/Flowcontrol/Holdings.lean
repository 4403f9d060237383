import NotK8s.Flowcontrol.Accounts

namespace NotK8s.Flowcontrol

open Library

/-!
# What a request holds

A request holds what its phase says.  Each atomic operation takes one thing,
gives one thing back or moves on with what there is, and the counters follow.
-/

/-! ## The hand of queues -/

private theorem push_lt {n next : Nat} {hand : List Nat} {known : Bool}
    (drawn : forall index, index ∈ hand -> index < n) (below : next < n) :
    forall index, index ∈ (if known then hand else hand ++ [next]) -> index < n := by
  intro index listed
  cases known with
  | true => exact drawn index listed
  | false =>
    rcases List.mem_append.mp listed with before | new
    · exact drawn index before
    · rw [List.mem_singleton.mp new]
      exact below

theorem drawHand_lt {queueCount target attempts seed : Nat} {hand : List Nat} (some_queue : 0 < queueCount)
    (drawn : forall index, index ∈ hand -> index < queueCount) :
    forall index, index ∈ drawHand queueCount target attempts seed hand -> index < queueCount := by
  induction attempts generalizing seed hand with
  | zero => exact drawn
  | succ attempts ih =>
    unfold drawHand
    by_cases more : hand.length < target
    · rw [if_pos more]
      exact ih (push_lt drawn (Nat.mod_lt _ some_queue))
    · rw [if_neg more]
      exact drawn

theorem shuffleHand_lt {queueCount handSize : Nat} {flow : String} :
    forall index, index ∈ shuffleHand queueCount handSize flow -> index < queueCount := by
  unfold shuffleHand
  split_ifs with empty
  · nofun
  · exact List.foldlRecOn (motive := fun hand => forall index, index ∈ hand -> index < queueCount) _ _
      (drawHand_lt (Nat.pos_of_ne_zero empty) nofun)
      fun hand drawn index listed => push_lt drawn (List.mem_range.mp listed)

theorem selectQueue_lt (s : PriorityState) (flow : String) : selectQueue s flow < s.queues.length := by
  have below := @shuffleHand_lt s.queues.length s.handSize flow
  unfold selectQueue
  cases hand : shuffleHand s.queues.length s.handSize flow with
  | nil => exact s.queues_pos
  | cons first rest =>
    rw [hand] at below
    refine List.foldlRecOn (motive := fun best => best < s.queues.length) _ _ (below first (.head _))
      fun best here next listed => ?_
    split_ifs
    · exact below next (.tail _ listed)
    · exact here

/-! ## Holdings -/

namespace Request

/-- The seats, and the place in the queue of a level when there is one. -/
def guarded (r : Request) (place : Place) (queued : Bool) : List Account :=
  if queued then place.queueQueued :: r.seats else r.seats

/-- Everything a request is counted for. -/
def held (r : Request) : List Account :=
  match r.phase with
  | .trying seat => seatsBefore seat
  | .joining seat => seatsBefore seat
  | .waiting seat => .queued :: seatsBefore seat
  | .granted seat => .queued :: seat.account :: seatsBefore seat
  | .locating => r.seats
  | .configuring _ => r.seats
  | .sizing _ => r.seats
  | .selecting _ => r.seats
  | .limiting _ => r.seats
  | .storing _ _ => r.seats
  | .loading place queued => r.guarded place queued
  | .claiming place queued _ => r.guarded place queued
  | .claimed place queued => place.active :: r.guarded place queued
  | .leaving place => place.queueActive :: place.active :: r.guarded place true
  | .enqueueing _ => r.seats
  | .checking place _ => r.guarded place true
  | .parked place => r.guarded place true
  | .woken place => r.guarded place true
  | .serving none => r.seats
  | .serving (some place) => place.queueActive :: place.active :: r.seats
  | .dropping accounts _ => accounts
  | .finished _ => []

/-- Only a mutating request comes to the second semaphore. -/
def Fits (r : Request) : Seat -> Prop
  | .requests => True
  | .mutatingRequests => r.mutating = true

/-- The state and the queue that a request has found are there. -/
def Placed (r : Request) (l : ConcurrencyLimiter) : Prop :=
  match r.phase with
  | .trying seat => r.Fits seat
  | .joining seat => r.Fits seat
  | .waiting seat => r.Fits seat
  | .granted seat => r.Fits seat
  | .configuring state => 0 < l.queueCount state
  | .sizing state => 0 < l.queueCount state
  | .selecting state => 0 < l.queueCount state
  | .limiting place => place.queue < l.queueCount place.state
  | .storing place _ => place.queue < l.queueCount place.state
  | .loading place _ => place.queue < l.queueCount place.state
  | .claiming place _ _ => place.queue < l.queueCount place.state
  | .claimed place _ => place.queue < l.queueCount place.state
  | .enqueueing place => place.queue < l.queueCount place.state
  | .checking place _ => place.queue < l.queueCount place.state
  | .parked place => place.queue < l.queueCount place.state
  | .woken place => place.queue < l.queueCount place.state
  | _ => True

/-- What one operation does to the counters and to the request. -/
structure Moves (r : Request) (l : ConcurrencyLimiter) (phase : Phase) (l' : ConcurrencyLimiter) : Prop where
  counted : forall x, l'.amount x + r.held.count x = l.amount x + ({ r with phase := phase } : Request).held.count x
  placed : ({ r with phase := phase } : Request).Placed l'
  grows : l.Grows l'

variable {r : Request} {l l' : ConcurrencyLimiter} {seat : Seat}

theorem Placed.grows (placed : r.Placed l) (grows : l.Grows l') : r.Placed l' := by
  unfold Placed at *
  cases phase : r.phase <;> rw [phase] at placed <;> dsimp only at placed ⊢
  all_goals first | exact placed | exact Nat.lt_of_lt_of_le placed (grows _)

theorem held_seated (fits : r.Fits seat) :
    ({ r with phase := r.seated seat } : Request).held = seat.account :: seatsBefore seat := by
  unfold seated
  cases seat with
  | requests =>
    dsimp only
    split_ifs with mutating
    · rfl
    · unfold held seats
      dsimp only
      rw [if_neg mutating]
      rfl
  | mutatingRequests =>
    have mutating : r.mutating = true := fits
    unfold held seats
    dsimp only
    rw [if_pos mutating]
    rfl

theorem placed_seated (fits : r.Fits seat) : ({ r with phase := r.seated seat } : Request).Placed l := by
  unfold seated
  cases seat with
  | requests =>
    dsimp only
    split_ifs with mutating
    · exact mutating
    · trivial
  | mutatingRequests => trivial

theorem Moves.staying {phase : Phase} (same : forall x, l'.amount x = l.amount x)
    (held : forall x, ({ r with phase := phase } : Request).held.count x = r.held.count x)
    (placed : ({ r with phase := phase } : Request).Placed l') (grows : l.Grows l') : Moves r l phase l' where
  counted x := by rw [same, held]
  placed := placed
  grows := grows

theorem Moves.taking {phase : Phase} {taken : Account}
    (added : forall x, l'.amount x = l.amount x + if taken == x then 1 else 0)
    (held : forall x, ({ r with phase := phase } : Request).held.count x = (taken :: r.held).count x)
    (placed : ({ r with phase := phase } : Request).Placed l') (grows : l.Grows l') : Moves r l phase l' where
  counted x := by
    rw [added, held, List.count_cons]
    omega
  placed := placed
  grows := grows

theorem Moves.giving {phase : Phase} {given : Account} (booked : forall x, x ∈ r.held -> 0 < l.amount x)
    (held : forall x, r.held.count x = (given :: ({ r with phase := phase } : Request).held).count x)
    (placed : ({ r with phase := phase } : Request).Placed l) : Moves r l phase (l.giveBack given) where
  counted x := by
    have listed : given ∈ r.held := by
      rw [← List.count_pos_iff, held, List.count_cons_self]
      omega
    have off := @ConcurrencyLimiter.amount_giveBack l given x (booked given listed)
    rw [held, List.count_cons]
    omega
  placed := placed.grows fun _ => ConcurrencyLimiter.queueCount_giveBack.ge
  grows _ := ConcurrencyLimiter.queueCount_giveBack.ge

theorem Moves.adding {phase : Phase} {taken : Account} (has : l.Has taken)
    (held : forall x, ({ r with phase := phase } : Request).held.count x = (taken :: r.held).count x)
    (placed : ({ r with phase := phase } : Request).Placed l) : Moves r l phase (l.fetchAdd taken) :=
  .taking (fun _ => ConcurrencyLimiter.amount_fetchAdd has) held
    (placed.grows fun _ => ConcurrencyLimiter.queueCount_change.ge) fun _ => ConcurrencyLimiter.queueCount_change.ge

end Request

namespace ConcurrencyLimiter

variable {l l' : ConcurrencyLimiter} {config : PriorityLevelConfig}

theorem grows_tryAcquire {seat : Seat} (taken : l.tryAcquire seat = some l') : l.Grows l' := by
  intro state
  unfold queueCount read
  rw [(states_tryAcquire taken).1]

theorem read_append {s : PriorityState} {state : Nat} {field : PriorityState -> Nat} {table : SortedMap String Nat} :
    ({ l with states := l.states ++ [s], priorityStates := table } : ConcurrencyLimiter).read state field =
      if state = l.states.length then field s else l.read state field := by
  unfold read
  dsimp only
  rw [List.getElem?_append]
  split_ifs with old new new
  · omega
  · rfl
  · rw [new, Nat.sub_self]
    rfl
  · rw [List.getElem?_eq_none (by rw [List.length_singleton]; omega), List.getElem?_eq_none (by omega)]

theorem read_beyond {field : PriorityState -> Nat} : l.read l.states.length field = 0 :=
  read_missing (List.getElem?_eq_none (Nat.le_refl _))

theorem amount_newPriorityState {limit queue : Nat} :
    (newPriorityState config limit).amount queue PriorityQueue.active = 0 ∧
      (newPriorityState config limit).amount queue PriorityQueue.queued = 0 := by
  unfold PriorityState.amount newPriorityState
  dsimp only
  rw [List.getElem?_replicate]
  split_ifs <;> exact ⟨rfl, rfl⟩

theorem priorityState_cases (l : ConcurrencyLimiter) (config : PriorityLevelConfig) :
    (Exists fun state => l.priorityState config = (state, l) ∧ l.priorityStates.get config.uid = some state ∧
      state < l.states.length) ∨
    (l.priorityState config = (l.states.length, { l with
        priorityStates := l.priorityStates.insert config.uid l.states.length
        states := l.states ++ [newPriorityState config (nominalConcurrencyLimit config l.maxRequests)] }) ∧
      forall state, l.priorityStates.get config.uid = some state -> state < l.states.length ->
        l.amount (.active state) = 0 ∧ forall queue, l.amount (.queueQueued state queue) = 0) := by
  unfold priorityState
  dsimp only
  cases known : l.priorityStates.get config.uid with
  | none => exact Or.inr ⟨rfl, nofun⟩
  | some address =>
    dsimp only
    cases found : l.states[address]? with
    | none =>
      refine Or.inr ⟨rfl, fun state same inside => ?_⟩
      cases same
      exact absurd (List.getElem?_eq_none_iff.mp found) (Nat.not_le.mpr inside)
    | some s =>
      dsimp only
      split_ifs with idle
      · refine Or.inr ⟨rfl, fun state same _ => ?_⟩
        cases same
        refine ⟨(read_found found).trans idle.2.1, fun queue => (read_found found).trans ?_⟩
        unfold PriorityState.amount
        cases held : s.queues[queue]? with
        | none => rfl
        | some q =>
          have empty := List.all_eq_true.mp idle.2.2 q (List.mem_of_getElem? held)
          exact of_decide_eq_true empty
      · exact Or.inl ⟨address, rfl, rfl, (List.getElem?_eq_some_iff.mp found).1⟩

theorem amount_priorityState {x : Account} : (l.priorityState config).2.amount x = l.amount x := by
  rcases priorityState_cases l config with ⟨state, same, _⟩ | ⟨made, _⟩
  · rw [same]
  · rw [made]
    cases x with
    | requests => rfl
    | mutatingRequests => rfl
    | queued => rfl
    | active a =>
      refine read_append.trans ?_
      split_ifs with new
      · rw [new]
        exact read_beyond.symm
      · rfl
    | queueActive a q =>
      refine read_append.trans ?_
      split_ifs with new
      · rw [new, amount_newPriorityState.1]
        exact read_beyond.symm
      · rfl
    | queueQueued a q =>
      refine read_append.trans ?_
      split_ifs with new
      · rw [new, amount_newPriorityState.2]
        exact read_beyond.symm
      · rfl

theorem grows_priorityState : l.Grows (l.priorityState config).2 := by
  intro state
  rcases priorityState_cases l config with ⟨_, same, _⟩ | ⟨made, _⟩
  · rw [same]
  · rw [made]
    unfold queueCount
    rw [read_append]
    split_ifs with new
    · rw [new, read_beyond]
      exact Nat.zero_le _
    · exact Nat.le_refl _

theorem queueCount_pos {state : Nat} (inside : state < l.states.length) : 0 < l.queueCount state := by
  unfold queueCount
  rw [read_found (List.getElem?_eq_getElem inside)]
  exact PriorityState.queues_pos _

theorem priorityState_present : (l.priorityState config).1 < (l.priorityState config).2.states.length := by
  rcases priorityState_cases l config with ⟨_, same, _, inside⟩ | ⟨made, _⟩
  · rw [same]
    exact inside
  · rw [made, List.length_append]
    exact Nat.lt_succ_self _

theorem has_active {place : Place} (placed : place.queue < l.queueCount place.state) : l.Has place.active := by
  rcases read_pos placed with ⟨s, found, _⟩
  exact (List.getElem?_eq_some_iff.mp found).1

end ConcurrencyLimiter

namespace Request

open ConcurrencyLimiter

variable {r : Request} {l : ConcurrencyLimiter}

theorem advance_moves (placed : r.Placed l) (booked : forall x, x ∈ r.held -> 0 < l.amount x) :
    Moves r l (r.advance l).1 (r.advance l).2 := by
  have same : forall l : ConcurrencyLimiter, l.Grows l := Grows.refl
  obtain ⟨priority, priorities, flow, mutating, phase⟩ := r
  cases phase with
  | trying seat =>
    unfold advance
    dsimp only
    cases taken : l.tryAcquire seat with
    | none => exact .staying (fun _ => rfl) (fun _ => rfl) placed (same l)
    | some l' =>
      exact .taking (fun _ => amount_tryAcquire taken) (fun x => by rw [held_seated placed]; rfl)
        (placed_seated placed) (grows_tryAcquire taken)
  | joining seat =>
    unfold advance
    dsimp only
    split_ifs
    · change Moves _ l _ (l.fetchAdd .queued)
      exact .adding trivial (fun _ => rfl) trivial
    · change Moves _ l _ (l.fetchAdd .queued)
      exact .adding trivial (fun _ => rfl) placed
  | waiting seat | loading place queued | parked place => exact .staying (fun _ => rfl) (fun _ => rfl) placed (same l)
  | granted seat => exact .giving booked (fun x => by rw [held_seated placed]; rfl) (placed_seated placed)
  | locating =>
    cases priority with
    | none => exact .staying (fun _ => rfl) (fun _ => rfl) trivial (same l)
    | some config =>
      exact .staying (fun _ => amount_priorityState) (fun _ => rfl) (queueCount_pos priorityState_present)
        grows_priorityState
  | configuring state =>
    cases priority with
    | none => exact .staying (fun _ => rfl) (fun _ => rfl) placed (same l)
    | some config =>
      have grows := @Grows.modifyState l state
        (fun s => { s with queueLengthLimit := queueLengthLimitOf config }) fun _ => rfl
      exact .staying (fun _ => amount_modifyState (fun _ => rfl) fun _ => rfl) (fun _ => rfl)
        (Nat.lt_of_lt_of_le placed (grows state)) grows
  | sizing state =>
    cases priority with
    | none => exact .staying (fun _ => rfl) (fun _ => rfl) placed (same l)
    | some config =>
      have grows := @Grows.modifyState l state
        (fun s => { s with handSize := min (max config.handSize 1) s.queues.length }) fun _ => rfl
      exact .staying (fun _ => amount_modifyState (fun _ => rfl) fun _ => rfl) (fun _ => rfl)
        (Nat.lt_of_lt_of_le placed (grows state)) grows
  | selecting state =>
    rcases read_pos placed with ⟨s, found, _⟩
    have chosen : (l.read state fun s => selectQueue s flow) < l.queueCount state := by
      unfold queueCount
      rw [read_found found, read_found found]
      exact selectQueue_lt s flow
    exact .staying (fun _ => rfl) (fun _ => rfl) chosen (same l)
  | limiting place =>
    cases priority with
    | none | some config => exact .staying (fun _ => rfl) (fun _ => rfl) placed (same l)
  | storing place limit =>
    have grows := @Grows.modifyState l place.state (fun s => { s with maxConcurrency := limit }) fun _ => rfl
    exact .staying (fun _ => amount_modifyState (fun _ => rfl) fun _ => rfl) (fun _ => rfl)
      (Nat.lt_of_lt_of_le placed (grows place.state)) grows
  | claiming place queued limit =>
    unfold advance
    dsimp only
    split_ifs with free again
    · exact .adding (has_active placed) (fun _ => rfl) placed
    · rw [again]
      exact .staying (fun _ => rfl) (fun _ => rfl) placed (same l)
    · rw [Bool.not_eq_true] at again
      rw [again]
      exact .staying (fun _ => rfl) (fun _ => rfl) placed (same l)
  | claimed place queued =>
    change Moves _ l _ (l.fetchAdd place.queueActive)
    cases queued with
    | true | false => exact .adding placed (fun _ => rfl) trivial
  | leaving place =>
    change Moves _ l (.serving (some place)) (l.giveBack place.queueQueued)
    have rotated : forall (rest : List Account) (x : Account),
        (place.queueActive :: place.active :: place.queueQueued :: rest).count x =
          (place.queueQueued :: place.queueActive :: place.active :: rest).count x := by
      intro rest x
      simp only [List.count_cons]
      omega
    exact .giving booked (rotated _) trivial
  | enqueueing place =>
    change Moves _ l (.checking place _) (l.fetchAdd place.queueQueued)
    exact .adding placed (fun _ => rfl) placed
  | checking place previous =>
    unfold advance
    dsimp only
    split_ifs
    · exact .staying (fun _ => rfl) (fun _ => rfl) trivial (same l)
    · exact .staying (fun _ => rfl) (fun _ => rfl) placed (same l)
  | woken place =>
    change Moves _ l (.limiting place) (l.giveBack place.queueQueued)
    exact .giving booked (fun _ => rfl) placed
  | serving place | finished outcome => exact .staying (fun _ => rfl) (fun _ => rfl) trivial (same l)
  | dropping accounts outcome =>
    cases accounts with
    | nil => exact .staying (fun _ => rfl) (fun _ => rfl) trivial (same l)
    | cons account rest => exact .giving booked (fun _ => rfl) trivial

theorem grant_moves (placed : r.Placed l) : Moves r l (r.grant l).1 (r.grant l).2 := by
  have unmoved : Moves r l r.phase l := .staying (fun _ => rfl) (fun _ => rfl) placed (Grows.refl l)
  obtain ⟨priority, priorities, flow, mutating, phase⟩ := r
  cases phase with
  | waiting seat =>
    unfold grant
    dsimp only
    cases taken : l.tryAcquire seat with
    | none => exact unmoved
    | some l' =>
      refine .taking (fun _ => amount_tryAcquire taken) (fun x => ?_) placed (grows_tryAcquire taken)
      change List.count x (.queued :: seat.account :: _) = List.count x (seat.account :: .queued :: _)
      simp only [List.count_cons]
      omega
  | _ => exact unmoved

theorem wake_moves (placed : r.Placed l) : Moves r l r.wake l := by
  have unmoved : Moves r l r.phase l := .staying (fun _ => rfl) (fun _ => rfl) placed (Grows.refl l)
  obtain ⟨priority, priorities, flow, mutating, phase⟩ := r
  cases phase with
  | parked place => exact .staying (fun _ => rfl) (fun _ => rfl) placed (Grows.refl l)
  | _ => exact unmoved

theorem abandon_moves (placed : r.Placed l) : Moves r l r.abandon l := by
  have unmoved : Moves r l r.phase l := .staying (fun _ => rfl) (fun _ => rfl) placed (Grows.refl l)
  obtain ⟨priority, priorities, flow, mutating, phase⟩ := r
  cases phase with
  | waiting seat | parked place => exact .staying (fun _ => rfl) (fun _ => rfl) trivial (Grows.refl l)
  | serving place =>
    cases place with
    | none => exact .staying (fun _ => rfl) (fun x => List.count_reverse) trivial (Grows.refl l)
    | some place =>
      refine .staying (fun _ => rfl) (fun x => ?_) trivial (Grows.refl l)
      change List.count x (List.reverse _ ++ [place.queueActive, place.active]) =
        List.count x (place.queueActive :: place.active :: _)
      rw [List.count_append, List.count_reverse]
      simp only [List.count_cons, List.count_nil]
      unfold seats
      omega
  | _ => exact unmoved

end Request

/-! ## Runs -/

/-- The counters are exact and what the requests have found is there. -/
structure Gate.Exact (g : Gate) : Prop where
  balanced : Balanced Request.held g.limiter.amount g.requests
  placed : forall r, r ∈ g.requests -> r.Placed g.limiter

namespace Gate

variable {g : Gate} {i : Nat} {f : Request -> ConcurrencyLimiter -> Phase × ConcurrencyLimiter}

theorem exact_new (maxRequests maxMutatingRequests queueLengthLimit : Nat) :
    (new maxRequests maxMutatingRequests queueLengthLimit).Exact where
  balanced account := by cases account <;> rfl
  placed r listed := nomatch listed

theorem Exact.move (exact : g.Exact)
    (moves : forall r, g.requests[i]? = some r -> r.Moves g.limiter (f r g.limiter).1 (f r g.limiter).2) :
    (g.move i f).Exact := by
  unfold Gate.move
  cases present : g.requests[i]? with
  | none => exact exact
  | some r =>
    have moved := moves r present
    refine ⟨exact.balanced.move present moved.counted, fun other listed => ?_⟩
    rcases List.mem_or_eq_of_mem_set listed with old | new
    · exact (exact.placed other old).grows moved.grows
    · rw [new]
      exact moved.placed

theorem Exact.step (exact : g.Exact) (s : Step) : (g.step s).Exact := by
  have placed : forall {i : Nat} {r : Request}, g.requests[i]? = some r -> r.Placed g.limiter :=
    fun present => exact.placed _ (List.mem_of_getElem? present)
  cases s with
  | arrive info query priority priorities flow =>
    have fresh : (Request.arrive info query priority priorities flow).held = [] ∧
        (Request.arrive info query priority priorities flow).Placed g.limiter := by
      unfold Request.arrive Request.held Request.Placed
      dsimp only
      split_ifs <;> exact ⟨rfl, trivial⟩
    refine ⟨exact.balanced.arrive fresh.1, fun other listed => ?_⟩
    rcases List.mem_append.mp listed with old | new
    · exact exact.placed other old
    · rw [List.mem_singleton.mp new]
      exact fresh.2
  | advance i =>
    exact exact.move fun r present =>
      Request.advance_moves (placed present) fun x held => exact.balanced.pos present held
  | grant i => exact exact.move fun r present => Request.grant_moves (placed present)
  | wake i => exact exact.move fun r present => Request.wake_moves (placed present)
  | abandon i => exact exact.move fun r present => Request.abandon_moves (placed present)

/-- However the requests take turns, fail or give up, every permit and counter
is the number of requests that hold it, and none is left when all are done. -/
theorem counters_exact (maxRequests maxMutatingRequests queueLengthLimit : Nat) (steps : List Step) :
    AlongRun step (fun g => forall account,
        g.limiter.amount account = (g.requests.map fun r => r.held.count account).sum ∧
          ((forall r, r ∈ g.requests -> Exists fun outcome => r.phase = .finished outcome) -> g.limiter.amount account = 0))
      (new maxRequests maxMutatingRequests queueLengthLimit) steps := by
  have along := @AlongRun.of_invariant _ _ step Exact (fun _ _ => True) (fun _ s exact _ => exact.step s) _ _
    (exact_new maxRequests maxMutatingRequests queueLengthLimit) (EveryStep.unconditional _ steps)
  refine along.mono fun g exact account => ?_
  have balanced := exact.balanced account
  rw [booked, List.count_flatMap] at balanced
  refine ⟨balanced, fun done => balanced.trans (List.sum_eq_zero fun n listed => ?_)⟩
  rcases List.mem_map.mp listed with ⟨r, member, rfl⟩
  rcases done r member with ⟨outcome, finished⟩
  rw [Function.comp_apply, Request.held, finished]
  rfl

end Gate
end NotK8s.Flowcontrol

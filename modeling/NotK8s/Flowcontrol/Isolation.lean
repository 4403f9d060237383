import NotK8s.Flowcontrol.Holdings

namespace NotK8s.Flowcontrol

open Library

/-!
# Isolation of priority levels

A request takes the seats of the two semaphores before it comes to its level,
and keeps them while it waits there.  The levels are isolated from each other
just as long as no request has to wait, every lease is on the state that its
level uses, and no limit is set below what is running.
-/

/-! ## What isolation asks for -/

def Account.isLease : Account -> Bool
  | .active _ => true
  | _ => false

def Account.isGuard : Account -> Bool
  | .queueQueued _ _ => true
  | _ => false

namespace Request

/-- The request has found its level full and has no seat of it yet. -/
def waitsAtLevel (r : Request) : Bool :=
  match r.phase with
  | .enqueueing _ => true
  | .checking _ _ => true
  | .loading _ queued => queued
  | .claiming _ queued _ => queued
  | .parked _ => true
  | .woken _ => true
  | _ => false

/-- The request waits for a seat of all requests. -/
def waitsForSeat (r : Request) : Bool :=
  match r.phase with
  | .joining .requests => true
  | .waiting .requests => true
  | _ => false

/-- The level of the request, once for each account of one kind that it
holds. -/
def levels (kind : Account -> Bool) (r : Request) : List String :=
  (r.held.filter kind).filterMap fun _ => r.uid

end Request

namespace Gate

/-- The live leases that a level has granted. -/
def leases (g : Gate) (uid : String) : Nat :=
  booked (Request.levels Account.isLease) g.requests uid

/-- The requests in the queues of a level. -/
def waiters (g : Gate) (uid : String) : Nat :=
  booked (Request.levels Account.isGuard) g.requests uid

/-- The state that a level uses. -/
def current (g : Gate) (uid : String) : Option Nat :=
  g.limiter.priorityStates.get uid

def active (g : Gate) (state : Nat) : Nat :=
  g.limiter.amount (.active state)

def maxConcurrency (g : Gate) (state : Nat) : Nat :=
  g.limiter.read state PriorityState.maxConcurrency

def queuedAt (g : Gate) (state : Nat) : Nat :=
  g.limiter.read state fun s => (s.queues.map PriorityQueue.queued).sum

/-- The levels do not get in each other's way, and they count right. -/
structure Isolated (g : Gate) : Prop where
  seatless : forall r, r ∈ g.requests -> r.waitsAtLevel = true -> Account.requests ∉ r.held
  /-- A level with room is not kept waiting by what waits at other levels. -/
  unblocked : forall r uid state, r ∈ g.requests -> r.waitsForSeat = true -> r.uid = some uid ->
    g.current uid = some state -> g.active state < g.maxConcurrency state ->
    forall other, other ∈ g.requests -> other.uid ≠ some uid -> other.waitsAtLevel = true ->
      Account.requests ∉ other.held
  leased : forall uid state, g.current uid = some state -> g.active state = g.leases uid
  queued : forall uid state, g.current uid = some state -> g.queuedAt state = g.waiters uid
  withinConcurrency : forall uid state, g.current uid = some state -> g.active state ≤ g.maxConcurrency state
  withinQueue : forall uid state queue, g.current uid = some state ->
    g.limiter.amount (.queueQueued state queue) ≤ g.limiter.read state PriorityState.queueLengthLimit

/-- A request that tries for a seat of its level finds one free, in the state
that the level uses, and it sets no limit below what is running. -/
def Allows (g : Gate) (r : Request) : Prop :=
  match r.phase with
  | .claiming place _ limit =>
    g.active place.state < limit ∧ g.active place.state < g.maxConcurrency place.state ∧
      forall uid, r.uid = some uid -> g.current uid = some place.state
  | .storing place limit =>
    forall uid, r.uid = some uid -> g.current uid = some place.state -> g.active place.state ≤ limit
  | _ => True

def Uncontended (g : Gate) : Step -> Prop
  | .advance i => forall r, g.requests[i]? = some r -> g.Allows r
  | _ => True

end Gate

/-! ## One operation -/

namespace Phase

/-- The states that a request refers to. -/
def states : Phase -> List Nat
  | .configuring state => [state]
  | .sizing state => [state]
  | .selecting state => [state]
  | .limiting place => [place.state]
  | .storing place _ => [place.state]
  | .loading place _ => [place.state]
  | .claiming place _ _ => [place.state]
  | .claimed place _ => [place.state]
  | .leaving place => [place.state]
  | .enqueueing place => [place.state]
  | .checking place _ => [place.state]
  | .parked place => [place.state]
  | .woken place => [place.state]
  | .serving (some place) => [place.state]
  | .dropping accounts _ => accounts.filterMap fun
      | .active state => some state
      | _ => none
  | _ => []

end Phase

namespace Request

/-- The request neither waits at its level nor is counted in a queue of it. -/
structure Unqueued (r : Request) : Prop where
  moving : r.waitsAtLevel = false
  uncounted : forall state queue, Account.queueQueued state queue ∉ r.held

variable {r : Request} {l : ConcurrencyLimiter} {state : Nat}

theorem mem_seats_cases {x : Account} (listed : x ∈ r.seats) : x = .mutatingRequests ∨ x = .requests := by
  unfold seats at listed
  split_ifs at listed
  · rcases List.mem_cons.mp listed with first | rest
    · exact Or.inl first
    · exact Or.inr (List.mem_singleton.mp rest)
  · exact Or.inr (List.mem_singleton.mp listed)

theorem active_notMem_seats : Account.active state ∉ r.seats := by
  intro listed
  rcases mem_seats_cases listed with other | other <;> nomatch other

theorem requests_mem_seats : Account.requests ∈ r.seats := by
  unfold seats
  split_ifs
  · exact .tail _ (.head _)
  · exact .head _

theorem requests_mem_held (waits : r.waitsAtLevel = true) : Account.requests ∈ r.held := by
  obtain ⟨priority, priorities, flow, mutating, phase⟩ := r
  cases phase with
  | enqueueing place => exact requests_mem_seats
  | checking place previous | parked place | woken place => exact .tail _ requests_mem_seats
  | loading place queued | claiming place queued limit =>
    cases (show queued = true from waits)
    exact .tail _ requests_mem_seats
  | _ => cases waits

theorem active_mem_states (holds : Account.active state ∈ r.held) : state ∈ r.phase.states := by
  have placed : forall {place : Place} {rest : List Account}, Account.active state ∉ rest ->
      Account.active state ∈ place.active :: rest -> state ∈ [place.state] := by
    intro place rest absent listed
    rcases List.mem_cons.mp listed with here | there
    · cases here
      exact .head _
    · exact absurd there absent
  have guarded : forall {place : Place}, Account.active state ∉ place.queueQueued :: r.seats := by
    intro place listed
    rcases List.mem_cons.mp listed with here | there
    · cases here
    · exact active_notMem_seats there
  obtain ⟨priority, priorities, flow, mutating, phase⟩ := r
  cases phase with
  | claimed place queued =>
    refine placed ?_ holds
    cases queued with
    | true => exact guarded
    | false => exact active_notMem_seats
  | leaving place =>
    rcases List.mem_cons.mp holds with here | there
    · cases here
    · exact placed guarded there
  | serving place =>
    cases place with
    | none => exact absurd holds active_notMem_seats
    | some place =>
      rcases List.mem_cons.mp holds with here | there
      · cases here
      · exact placed active_notMem_seats there
  | dropping accounts outcome => exact List.mem_filterMap.mpr ⟨_, holds, rfl⟩
  | trying seat | joining seat | waiting seat => cases seat <;> simp [held, seatsBefore] at holds
  | granted seat => cases seat <;> simp [held, seatsBefore, Seat.account] at holds
  | loading place queued | claiming place queued limit =>
    cases queued with
    | true => exact absurd holds guarded
    | false => exact absurd holds active_notMem_seats
  | checking place previous | parked place | woken place => exact absurd holds guarded
  | finished outcome => cases holds
  | _ => exact absurd holds active_notMem_seats

end Request

namespace ConcurrencyLimiter

variable {l l' : ConcurrencyLimiter} {x : Account} {g : Nat -> Nat} {state : Nat}

/-- The operations on counters leave the states in use and their limits. -/
structure Level (l l' : ConcurrencyLimiter) : Prop where
  table : l'.priorityStates = l.priorityStates
  size : l'.states.length = l.states.length
  limits : forall state, l'.read state PriorityState.maxConcurrency = l.read state PriorityState.maxConcurrency

theorem Level.refl (l : ConcurrencyLimiter) : Level l l := ⟨rfl, rfl, fun _ => rfl⟩

theorem Level.modifyState {f : PriorityState -> PriorityState} (same : forall s, (f s).maxConcurrency = s.maxConcurrency) :
    Level l (l.modifyState state f) :=
  ⟨rfl, List.length_modify _ _ _, fun _ => read_modifyState_of_eq same⟩

theorem level_change : Level l (l.change g x) := by
  cases x with
  | requests | mutatingRequests => exact Level.refl l
  | queued => exact ⟨rfl, rfl, fun _ => rfl⟩
  | active a | queueActive a q | queueQueued a q => exact Level.modifyState fun _ => rfl

theorem level_giveBack : Level l (l.giveBack x) := by
  cases x with
  | requests | mutatingRequests => exact ⟨rfl, rfl, fun _ => rfl⟩
  | queued => exact @level_change l .queued (fun n => n - 1)
  | active a => exact @level_change l (.active a) (fun n => n - 1)
  | queueActive a q => exact @level_change l (.queueActive a q) (fun n => n - 1)
  | queueQueued a q => exact @level_change l (.queueQueued a q) (fun n => n - 1)

theorem level_tryAcquire {seat : Seat} (taken : l.tryAcquire seat = some l') : Level l l' := by
  have same := states_tryAcquire taken
  refine ⟨same.2, by rw [same.1], fun state => ?_⟩
  unfold read
  rw [same.1]

end ConcurrencyLimiter

namespace Request

open ConcurrencyLimiter

variable {r : Request} {l l' : ConcurrencyLimiter} {phase : Phase}

/-- An operation that finds, claims and configures nothing. -/
structure Plain (r : Request) (l : ConcurrencyLimiter) (phase : Phase) (l' : ConcurrencyLimiter) : Prop where
  level : Level l l'
  states : forall state, state ∈ phase.states -> state ∈ r.phase.states
  leases : forall state, ({ r with phase := phase } : Request).held.count (.active state) ≤ r.held.count (.active state)
  unqueued : r.Unqueued -> ({ r with phase := phase } : Request).Unqueued

/-- The operations that matter to the levels. -/
inductive Act (r : Request) (l : ConcurrencyLimiter) : Phase -> ConcurrencyLimiter -> Prop where
  | plain (phase : Phase) (l' : ConcurrencyLimiter) (plain : r.Plain l phase l') : Act r l phase l'
  | found (config : PriorityLevelConfig) (locating : r.phase = .locating) (level : r.priority = some config) :
      Act r l (.configuring (l.priorityState config).1) (l.priorityState config).2
  | stored (place : Place) (limit : Nat) (storing : r.phase = .storing place limit) :
      Act r l (.loading place false) (l.modifyState place.state fun s => { s with maxConcurrency := limit })
  | claimed (place : Place) (queued : Bool) (limit : Nat) (claiming : r.phase = .claiming place queued limit)
      (free : l.amount place.active < limit) : Act r l (.claimed place queued) (l.fetchAdd place.active)
  | refused (place : Place) (limit : Nat) (claiming : r.phase = .claiming place false limit)
      (full : ¬ l.amount place.active < limit) : Act r l (.enqueueing place) l

theorem outside_level {seat : Seat} {x : Account} (listed : x ∈ .queued :: seat.account :: seatsBefore seat) :
    (forall state, x ≠ .active state) ∧ forall state queue, x ≠ .queueQueued state queue := by
  cases seat <;> simp only [Seat.account, seatsBefore, List.mem_cons, List.not_mem_nil, or_false] at listed
  · rcases listed with rfl | rfl
    all_goals exact ⟨nofun, nofun⟩
  · rcases listed with rfl | rfl | rfl
    all_goals exact ⟨nofun, nofun⟩

theorem Plain.before {seat : Seat} (level : Level l l') (states : phase.states = [])
    (moving : ({ r with phase := phase } : Request).waitsAtLevel = false)
    (held : forall x, x ∈ ({ r with phase := phase } : Request).held -> x ∈ .queued :: seat.account :: seatsBefore seat) :
    Plain r l phase l' := by
  apply Plain.mk level
  · intro state listed
    rw [states] at listed
    cases listed
  · intro state
    rw [List.count_eq_zero.mpr fun listed => (outside_level (held _ listed)).1 state rfl]
    exact Nat.zero_le _
  · exact fun _ => ⟨moving, fun state queue listed => (outside_level (held _ listed)).2 state queue rfl⟩

theorem Plain.seated {seat : Seat} (fits : r.Fits seat) (level : Level l l') : Plain r l (r.seated seat) l' := by
  have plain : (r.seated seat).states = [] ∧
      ({ r with phase := r.seated seat } : Request).waitsAtLevel = false := by
    unfold Request.seated
    cases seat with
    | requests =>
      dsimp only
      split_ifs <;> exact ⟨rfl, rfl⟩
    | mutatingRequests => exact ⟨rfl, rfl⟩
  refine @Plain.before _ _ _ _ seat level plain.1 plain.2 fun x listed => ?_
  rw [held_seated fits] at listed
  exact .tail _ listed

theorem Plain.onward (level : Level l l') (states : phase.states = r.phase.states)
    (held : ({ r with phase := phase } : Request).held = r.held)
    (moving : r.waitsAtLevel = false -> ({ r with phase := phase } : Request).waitsAtLevel = false) : Plain r l phase l' := by
  apply Plain.mk level
  · exact fun _ listed => states ▸ listed
  · exact fun _ => by rw [held]
  · exact fun unqueued => ⟨moving unqueued.moving, fun state queue => by rw [held]; exact unqueued.uncounted state queue⟩

theorem Plain.giving {account : Account} (states : forall state, state ∈ phase.states -> state ∈ r.phase.states)
    (held : ({ r with phase := phase } : Request).held.Sublist r.held)
    (moving : r.waitsAtLevel = false -> ({ r with phase := phase } : Request).waitsAtLevel = false) :
    Plain r l phase (l.giveBack account) :=
  .mk level_giveBack states (fun _ => held.count_le _) fun unqueued =>
    ⟨moving unqueued.moving, fun state queue listed => unqueued.uncounted state queue (held.subset listed)⟩

theorem Plain.adding {account : Account} (other : forall state, account ≠ .active state)
    (held : ({ r with phase := phase } : Request).held = account :: r.held) (states : phase.states = r.phase.states)
    (unqueued : r.Unqueued -> (forall state queue, account ≠ .queueQueued state queue) ∧
      ({ r with phase := phase } : Request).waitsAtLevel = false) : Plain r l phase (l.fetchAdd account) := by
  apply Plain.mk level_change
  · exact fun _ listed => states ▸ listed
  · exact fun state => by rw [held, List.count_cons_of_ne (other state)]
  · intro before
    refine ⟨(unqueued before).2, fun state queue listed => ?_⟩
    rw [held] at listed
    rcases List.mem_cons.mp listed with here | there
    · exact (unqueued before).1 state queue here.symm
    · exact before.uncounted state queue there

theorem advance_act (placed : r.Placed l) : Act r l (r.advance l).1 (r.advance l).2 := by
  have unmoved : Plain r l r.phase l := .onward (Level.refl l) rfl rfl id
  obtain ⟨priority, priorities, flow, mutating, phase⟩ := r
  cases phase with
  | trying seat =>
    unfold advance
    dsimp only
    cases taken : l.tryAcquire seat with
    | none => exact .plain _ _ (.onward (Level.refl l) rfl rfl id)
    | some l' => exact .plain _ _ (.seated placed (level_tryAcquire taken))
  | joining seat =>
    unfold advance
    dsimp only
    split_ifs
    · change Act _ l (.dropping (.queued :: seatsBefore seat) .queueFull) (l.fetchAdd .queued)
      refine .plain _ _ (@Plain.before _ _ _ _ seat level_change ?_ rfl fun x listed => ?_)
      · cases seat <;> rfl
      · rcases List.mem_cons.mp listed with rfl | more
        · exact .head _
        · exact .tail _ (.tail _ more)
    · change Act _ l (.waiting seat) (l.fetchAdd .queued)
      refine .plain _ _ (@Plain.before _ _ _ _ seat level_change rfl rfl fun x listed => ?_)
      rcases List.mem_cons.mp listed with rfl | more
      · exact .head _
      · exact .tail _ (.tail _ more)
  | granted seat =>
    change Act _ l _ (l.giveBack .queued)
    exact .plain _ _ (.seated placed level_giveBack)
  | locating =>
    cases priority with
    | none => exact .plain _ _ (.onward (Level.refl l) rfl rfl id)
    | some config => exact .found config rfl rfl
  | configuring state | sizing state =>
    cases priority with
    | none => exact .plain _ _ unmoved
    | some config => exact .plain _ _ (.onward (Level.modifyState fun _ => rfl) rfl rfl id)
  | selecting state | loading place queued => exact .plain _ _ (.onward (Level.refl l) rfl rfl id)
  | limiting place =>
    cases priority with
    | none => exact .plain _ _ unmoved
    | some config => exact .plain _ _ (.onward (Level.refl l) rfl rfl id)
  | storing place limit => exact .stored place limit rfl
  | claiming place queued limit =>
    unfold advance
    dsimp only
    split_ifs with free again
    · exact .claimed place queued limit rfl free
    · exact .plain _ _ (.onward (Level.refl l) rfl (by rw [again]; rfl) fun moving => nomatch again.symm.trans moving)
    · rw [Bool.not_eq_true] at again
      subst again
      exact .refused place limit rfl free
  | claimed place queued =>
    change Act _ l _ (l.fetchAdd place.queueActive)
    cases queued with
    | true =>
      refine .plain _ _ (.adding nofun rfl rfl fun unqueued => ?_)
      exact absurd (.tail _ (.head _)) (unqueued.uncounted place.state place.queue)
    | false => exact .plain _ _ (.adding nofun rfl rfl fun _ => ⟨nofun, rfl⟩)
  | leaving place =>
    change Act _ l (.serving (some place)) (l.giveBack place.queueQueued)
    exact .plain _ _ (.giving (fun _ listed => listed) (((List.sublist_cons_self _ _).cons_cons _).cons_cons _) id)
  | enqueueing place =>
    change Act _ l (.checking place _) (l.fetchAdd place.queueQueued)
    exact .plain _ _ (.adding nofun rfl rfl fun unqueued => nomatch unqueued.moving)
  | checking place previous =>
    unfold advance
    dsimp only
    split_ifs
    · refine .plain _ _ (.mk (Level.refl l) (fun state listed => ?_) (fun _ => Nat.le_refl _)
        fun unqueued => nomatch unqueued.moving)
      rcases List.mem_filterMap.mp listed with ⟨x, inside, known⟩
      rcases List.mem_cons.mp inside with rfl | seat
      · cases known
      · rcases mem_seats_cases seat with rfl | rfl <;> nomatch known
    · exact .plain _ _ (.onward (Level.refl l) rfl rfl nofun)
  | woken place =>
    change Act _ l (.limiting place) (l.giveBack place.queueQueued)
    exact .plain _ _ (.giving (fun _ listed => listed) (List.sublist_cons_self _ _) nofun)
  | dropping accounts outcome =>
    cases accounts with
    | nil => exact .plain _ _ (.onward (Level.refl l) rfl rfl id)
    | cons account rest =>
      change Act _ l (.dropping rest outcome) (l.giveBack account)
      refine .plain _ _ (.giving (fun state listed => ?_) (List.sublist_cons_self _ _) id)
      rcases List.mem_filterMap.mp listed with ⟨x, inside, known⟩
      exact List.mem_filterMap.mpr ⟨x, .tail _ inside, known⟩
  | _ => exact .plain _ _ unmoved

theorem grant_plain : Plain r l (r.grant l).1 (r.grant l).2 := by
  have unmoved : Plain r l r.phase l := .onward (Level.refl l) rfl rfl id
  obtain ⟨priority, priorities, flow, mutating, phase⟩ := r
  cases phase with
  | waiting seat =>
    unfold grant
    dsimp only
    cases taken : l.tryAcquire seat with
    | none => exact unmoved
    | some l' => exact @Plain.before _ _ _ _ seat (level_tryAcquire taken) rfl rfl fun _ listed => listed
  | _ => exact unmoved

theorem wake_plain : Plain r l r.wake l := by
  have unmoved : Plain r l r.phase l := .onward (Level.refl l) rfl rfl id
  obtain ⟨priority, priorities, flow, mutating, phase⟩ := r
  cases phase with
  | parked place => exact .onward (Level.refl l) rfl rfl nofun
  | _ => exact unmoved

theorem abandon_plain : Plain r l r.abandon l := by
  have unmoved : Plain r l r.phase l := .onward (Level.refl l) rfl rfl id
  have seat : forall {r : Request} {state : Nat}, state ∉ (r.seats.filterMap fun
      | Account.active state => some state
      | _ => none) := by
    intro r state listed
    rcases List.mem_filterMap.mp listed with ⟨x, inside, known⟩
    rcases mem_seats_cases inside with rfl | rfl <;> nomatch known
  obtain ⟨priority, priorities, flow, mutating, phase⟩ := r
  cases phase with
  | waiting seat =>
    refine @Plain.before _ _ _ _ seat (Level.refl l) ?_ rfl fun x listed => ?_
    · cases seat <;> rfl
    · rcases List.mem_cons.mp listed with rfl | more
      · exact .head _
      · exact .tail _ (.tail _ more)
  | parked place =>
    exact .mk (Level.refl l) (fun state listed => absurd listed seat) (fun _ => Nat.le_refl _)
      fun unqueued => nomatch unqueued.moving
  | serving place =>
    cases place with
    | none =>
      refine .mk (Level.refl l) (fun state listed => ?_) (fun _ => List.count_reverse.le) fun unqueued => ?_
      · rcases List.mem_filterMap.mp listed with ⟨x, inside, known⟩
        exact absurd (List.mem_filterMap.mpr ⟨x, List.mem_reverse.mp inside, known⟩) seat
      · exact ⟨rfl, fun state queue listed => unqueued.uncounted state queue (List.mem_reverse.mp listed)⟩
    | some place =>
      have parts : forall {x : Account}, x ∈ (Request.seats ⟨priority, priorities, flow, mutating, .serving (some place)⟩).reverse ++
          [place.queueActive, place.active] -> x ∈ Request.held ⟨priority, priorities, flow, mutating, .serving (some place)⟩ := by
        intro x listed
        rcases List.mem_append.mp listed with before | after
        · exact .tail _ (.tail _ (List.mem_reverse.mp before))
        · rcases List.mem_cons.mp after with rfl | last
          · exact .head _
          · rw [List.mem_singleton.mp last]
            exact .tail _ (.head _)
      refine .mk (Level.refl l) (fun state listed => ?_) (fun state => ?_) fun unqueued => ?_
      · rcases List.mem_filterMap.mp listed with ⟨x, inside, known⟩
        cases x with
        | active other =>
          cases known
          exact active_mem_states (parts inside)
        | _ => cases known
      · change (List.reverse _ ++ [place.queueActive, place.active]).count _ ≤
          (place.queueActive :: place.active :: _).count _
        rw [List.count_append, List.count_reverse, Nat.add_comm, ← List.count_append]
        exact Nat.le_refl _
      · exact ⟨rfl, fun state queue listed => unqueued.uncounted state queue (parts listed)⟩
  | _ => exact unmoved

end Request

/-! ## Runs without contention -/

namespace Gate

/-- What runs without contention keep: nobody is queued at a level, every
lease is on the state in use, and it is within the limit. -/
structure Quiet (g : Gate) : Prop where
  exact : g.Exact
  inside : forall uid state, g.current uid = some state -> state < g.limiter.states.length
  injective : forall u v state, g.current u = some state -> g.current v = some state -> u = v
  located : forall r, r ∈ g.requests -> forall state, state ∈ r.phase.states ->
    state < g.limiter.states.length ∧ Exists fun uid =>
      r.uid = some uid ∧ (Exists fun used => g.current uid = some used) ∧ forall v, g.current v = some state -> v = uid
  unqueued : forall r, r ∈ g.requests -> r.Unqueued
  leased : forall r, r ∈ g.requests -> forall state, Account.active state ∈ r.held ->
    forall uid, r.uid = some uid -> g.current uid = some state
  within : forall uid state, g.current uid = some state -> g.active state ≤ g.maxConcurrency state

theorem quiet_new (maxRequests maxMutatingRequests queueLengthLimit : Nat) :
    (new maxRequests maxMutatingRequests queueLengthLimit).Quiet where
  exact := exact_new _ _ _
  inside _ _ used := nomatch used
  injective _ _ _ used := nomatch used
  located _ listed := nomatch listed
  unqueued _ listed := nomatch listed
  leased _ listed := nomatch listed
  within _ _ used := nomatch used

variable {g : Gate} {i : Nat} {r : Request} {phase : Phase} {l' : ConcurrencyLimiter}

theorem forall_set {P : Request -> Prop} (every : forall other, other ∈ g.requests -> P other)
    (own : P { r with phase := phase }) : forall other, other ∈ g.requests.set i { r with phase := phase } -> P other := by
  intro other member
  rcases List.mem_or_eq_of_mem_set member with old | rfl
  · exact every other old
  · exact own

section

variable (quiet : g.Quiet)
include quiet

section

variable (present : g.requests[i]? = some r)
include present

theorem Quiet.keepsExact (moves : r.Moves g.limiter phase l') :
    Exact ⟨l', g.requests.set i { r with phase := phase }⟩ := by
  have moved := @Exact.move g i (fun _ _ => (phase, l')) quiet.exact fun other same => by
    rw [present] at same
    cases same
    exact moves
  unfold Gate.move at moved
  rw [present] at moved
  exact moved

theorem Quiet.plain
    (moves : r.Moves g.limiter phase l') (plain : r.Plain g.limiter phase l') :
    Quiet ⟨l', g.requests.set i { r with phase := phase }⟩ := by
  have listed := List.mem_of_getElem? present
  have table : forall uid, current ⟨l', g.requests.set i { r with phase := phase }⟩ uid = g.current uid := by
    intro uid
    unfold current
    rw [plain.level.table]
  have fewer : forall state, active ⟨l', g.requests.set i { r with phase := phase }⟩ state ≤ g.active state := by
    intro state
    have counted := moves.counted (.active state)
    have leases := plain.leases state
    change l'.amount (.active state) ≤ g.limiter.amount (.active state)
    omega
  refine ⟨?_, ?_, ?_, ?_, ?_, ?_, ?_⟩
  · exact quiet.keepsExact present moves
  · intro uid state used
    rw [table] at used
    dsimp only
    rw [plain.level.size]
    exact quiet.inside uid state used
  · intro u v state first second
    rw [table] at first second
    exact quiet.injective u v state first second
  · simp only [table]
    rw [plain.level.size]
    exact forall_set quiet.located fun state refers => quiet.located r listed state (plain.states state refers)
  · exact forall_set quiet.unqueued (plain.unqueued (quiet.unqueued r listed))
  · simp only [table]
    refine forall_set quiet.leased fun state holds uid level => ?_
    apply quiet.leased r listed state _ uid level
    rw [← List.count_pos_iff]
    exact Nat.lt_of_lt_of_le (List.count_pos_iff.mpr holds) (plain.leases state)
  · intro uid state used
    rw [table] at used
    refine Nat.le_trans (fewer state) (Nat.le_trans (quiet.within uid state used) ?_)
    exact (plain.level.limits state).ge

theorem Quiet.found {config : PriorityLevelConfig}
    (locating : r.phase = .locating) (level : r.priority = some config)
    (moves : r.Moves g.limiter (.configuring (g.limiter.priorityState config).1) (g.limiter.priorityState config).2) :
    Quiet ⟨(g.limiter.priorityState config).2,
      g.requests.set i { r with phase := .configuring (g.limiter.priorityState config).1 }⟩ := by
  have kept := quiet.keepsExact present moves
  have listed := List.mem_of_getElem? present
  have seats : ({ r with phase := .configuring (g.limiter.priorityState config).1 } : Request).held = r.held := by
    unfold Request.held
    rw [locating]
    rfl
  have ownUid : forall uid, r.uid = some uid <-> uid = config.uid := by
    intro uid
    unfold Request.uid
    rw [level]
    exact ⟨fun same => (Option.some.inj same).symm, fun same => congrArg some same.symm⟩
  have unqueued : ({ r with phase := .configuring (g.limiter.priorityState config).1 } : Request).Unqueued :=
    ⟨rfl, fun state queue => by rw [seats]; exact (quiet.unqueued r listed).uncounted state queue⟩
  rcases ConcurrencyLimiter.priorityState_cases g.limiter config with ⟨state, same, used, inside⟩ | ⟨made, idle⟩
  · rw [same] at kept seats unqueued ⊢
    refine ⟨kept, quiet.inside, quiet.injective, ?_, ?_, ?_, quiet.within⟩
    · refine forall_set quiet.located fun address refers => ?_
      rw [List.mem_singleton.mp refers]
      exact ⟨inside, config.uid, (ownUid _).mpr rfl, ⟨state, used⟩, fun v held => quiet.injective v _ state held used⟩
    · exact forall_set quiet.unqueued unqueued
    · refine forall_set quiet.leased fun address holds uid own => ?_
      rw [seats] at holds
      exact quiet.leased r listed address holds uid own
  · have table : forall uid, current ⟨(g.limiter.priorityState config).2,
        g.requests.set i { r with phase := .configuring (g.limiter.priorityState config).1 }⟩ uid =
          if uid = config.uid then some g.limiter.states.length else g.current uid := by
      intro uid
      unfold current
      rw [made]
      exact SortedMap.get_insert
    have size : (g.limiter.priorityState config).2.states.length = g.limiter.states.length + 1 := by
      rw [made]
      exact List.length_append
    have address : (g.limiter.priorityState config).1 = g.limiter.states.length := by
      rw [made]
    have fresh : forall {uid}, g.current uid ≠ some g.limiter.states.length :=
      fun used => Nat.lt_irrefl _ (quiet.inside _ _ used)
    refine ⟨kept, ?_, ?_, ?_, ?_, ?_, ?_⟩
    · intro uid state used
      rw [table] at used
      dsimp only
      rw [size]
      split_ifs at used
      · cases used
        exact Nat.lt_succ_self _
      · exact Nat.lt_succ_of_lt (quiet.inside uid state used)
    · intro u v state first second
      rw [table] at first second
      split_ifs at first second with firstOwn secondOwn secondOwn
      · rw [firstOwn, secondOwn]
      · rw [← first] at second
        exact absurd second fresh
      · rw [← second] at first
        exact absurd first fresh
      · exact quiet.injective u v state first second
    · intro other member state refers
      simp only [table]
      rw [size]
      rcases List.mem_or_eq_of_mem_set member with old | rfl
      · rcases quiet.located other old state refers with ⟨inside, uid, own, ⟨used, held⟩, only⟩
        refine ⟨Nat.lt_succ_of_lt inside, uid, own, ?_, fun v points => ?_⟩
        · by_cases same : uid = config.uid
          · exact ⟨_, if_pos same⟩
          · exact ⟨used, (if_neg same).trans held⟩
        · split_ifs at points
          · cases points
            exact absurd inside (Nat.lt_irrefl _)
          · exact only v points
      · rw [List.mem_singleton.mp refers, address]
        refine ⟨Nat.lt_succ_self _, config.uid, (ownUid _).mpr rfl, ⟨_, if_pos rfl⟩, fun v points => ?_⟩
        by_contra other
        rw [if_neg other] at points
        exact fresh points
    · exact forall_set quiet.unqueued unqueued
    · intro other member state holds uid own
      have before : forall {who : Request} {j : Nat}, g.requests[j]? = some who -> Account.active state ∈ who.held ->
          who.uid = some uid -> (if uid = config.uid then some g.limiter.states.length else g.current uid) = some state := by
        intro who j there holds own
        have used := quiet.leased who (List.mem_of_getElem? there) state holds uid own
        split_ifs with same
        · rw [same] at used
          have none := (idle state used (quiet.inside _ _ used)).1
          exact absurd (quiet.exact.balanced.pos there holds) (by rw [none]; exact Nat.lt_irrefl 0)
        · exact used
      rw [table]
      rcases List.mem_or_eq_of_mem_set member with old | rfl
      · rcases List.getElem?_of_mem old with ⟨j, there⟩
        exact before there holds own
      · rw [seats] at holds
        exact before present holds own
    · intro uid state used
      rw [table] at used
      unfold active maxConcurrency
      dsimp only
      rw [ConcurrencyLimiter.amount_priorityState]
      split_ifs at used with same
      · cases used
        have none : g.limiter.amount (.active g.limiter.states.length) = 0 := ConcurrencyLimiter.read_beyond
        rw [none]
        exact Nat.zero_le _
      · have old : (g.limiter.priorityState config).2.read state PriorityState.maxConcurrency =
            g.limiter.read state PriorityState.maxConcurrency := by
          rw [made]
          exact ConcurrencyLimiter.read_append.trans (if_neg (Nat.ne_of_lt (quiet.inside uid state used)))
        rw [old]
        exact quiet.within uid state used

theorem Quiet.stored {place : Place} {limit : Nat}
    (storing : r.phase = .storing place limit) (allows : g.Allows r)
    (moves : r.Moves g.limiter (.loading place false)
      (g.limiter.modifyState place.state fun s => { s with maxConcurrency := limit })) :
    Quiet ⟨g.limiter.modifyState place.state fun s => { s with maxConcurrency := limit },
      g.requests.set i { r with phase := .loading place false }⟩ := by
  have listed := List.mem_of_getElem? present
  have seats : ({ r with phase := .loading place false } : Request).held = r.held := by
    unfold Request.held
    rw [storing]
    rfl
  have own : place.state ∈ r.phase.states := by
    rw [storing]
    exact .head _
  have size : (g.limiter.modifyState place.state fun s => { s with maxConcurrency := limit }).states.length =
      g.limiter.states.length := List.length_modify _ _ _
  refine ⟨quiet.keepsExact present moves, ?_, quiet.injective, ?_, ?_, ?_, ?_⟩
  · intro uid state used
    dsimp only
    rw [size]
    exact quiet.inside uid state used
  · dsimp only
    rw [size]
    refine forall_set quiet.located fun state refers => ?_
    rw [List.mem_singleton.mp refers]
    exact quiet.located r listed place.state own
  · refine forall_set quiet.unqueued ?_
    exact ⟨rfl, fun state queue => by rw [seats]; exact (quiet.unqueued r listed).uncounted state queue⟩
  · refine forall_set quiet.leased fun state holds uid level => ?_
    rw [seats] at holds
    exact quiet.leased r listed state holds uid level
  · intro uid state used
    have same : (g.limiter.modifyState place.state fun s => { s with maxConcurrency := limit }).amount (.active state) =
        g.limiter.amount (.active state) := ConcurrencyLimiter.amount_modifyState (fun _ => rfl) fun _ => rfl
    unfold active maxConcurrency
    dsimp only
    rw [same, ConcurrencyLimiter.read_modifyState]
    split_ifs with same
    · rcases quiet.located r listed place.state own with ⟨inside, mine, isMine, _, only⟩
      rw [← same] at used ⊢
      have level := only uid used
      rw [← level] at isMine
      rw [Allows, storing] at allows
      rw [ConcurrencyLimiter.read_found (List.getElem?_eq_getElem inside)]
      exact allows uid isMine used
    · exact quiet.within uid state used

theorem Quiet.claimed {place : Place} {limit : Nat} {queued : Bool}
    (claiming : r.phase = .claiming place queued limit) (allows : g.Allows r)
    (moves : r.Moves g.limiter (.claimed place queued) (g.limiter.fetchAdd place.active)) :
    Quiet ⟨g.limiter.fetchAdd place.active, g.requests.set i { r with phase := .claimed place queued }⟩ := by
  have listed := List.mem_of_getElem? present
  have held : ({ r with phase := .claimed place queued } : Request).held = place.active :: r.held := by
    unfold Request.held
    rw [claiming]
    rfl
  have own : place.state ∈ r.phase.states := by
    rw [claiming]
    exact .head _
  have level := @ConcurrencyLimiter.level_change g.limiter place.active fun n => n + 1
  have size : (g.limiter.fetchAdd place.active).states.length = g.limiter.states.length := level.size
  rw [Allows, claiming] at allows
  rcases allows with ⟨_, room, used⟩
  refine ⟨quiet.keepsExact present moves, ?_, quiet.injective, ?_, ?_, ?_, ?_⟩
  · intro uid state used
    dsimp only
    rw [size]
    exact quiet.inside uid state used
  · dsimp only
    rw [size]
    refine forall_set quiet.located fun state refers => ?_
    rw [List.mem_singleton.mp refers]
    exact quiet.located r listed place.state own
  · refine forall_set quiet.unqueued ?_
    refine ⟨rfl, fun state queue there => ?_⟩
    rw [held] at there
    rcases List.mem_cons.mp there with here | before
    · cases here
    · exact (quiet.unqueued r listed).uncounted state queue before
  · refine forall_set quiet.leased fun state holds uid isOwn => ?_
    rw [held] at holds
    rcases List.mem_cons.mp holds with here | before
    · cases here
      exact used uid isOwn
    · exact quiet.leased r listed state before uid isOwn
  · intro uid state points
    have limits : (g.limiter.fetchAdd place.active).read state PriorityState.maxConcurrency =
      g.limiter.read state PriorityState.maxConcurrency := level.limits state
    have before := quiet.within uid state points
    have counted := moves.counted (.active state)
    rw [held] at counted
    unfold active maxConcurrency at *
    dsimp only
    by_cases same : place.state = state
    · subst same
      have more : (place.active :: r.held).count (.active place.state) = r.held.count (.active place.state) + 1 :=
        List.count_cons_self
      omega
    · have still : (place.active :: r.held).count (.active state) = r.held.count (.active state) :=
        List.count_cons_of_ne fun equal => same (Account.active.inj equal)
      omega

theorem Quiet.act (act : r.Act g.limiter phase l')
    (moves : r.Moves g.limiter phase l') (allows : g.Allows r) :
    Quiet ⟨l', g.requests.set i { r with phase := phase }⟩ := by
  cases act with
  | plain phase l' plain => exact quiet.plain present moves plain
  | found config locating level => exact quiet.found present locating level moves
  | stored place limit storing => exact quiet.stored present storing allows moves
  | claimed place queued limit claiming free => exact quiet.claimed present claiming allows moves
  | refused place limit claiming full =>
    rw [Allows, claiming] at allows
    exact absurd allows.1 full

end

end

theorem count_levels {kind : Account -> Bool} {uid : String} :
    (r.levels kind).count uid = if r.uid = some uid then r.held.countP kind else 0 := by
  unfold Request.levels
  rw [List.countP_eq_length_filter]
  induction r.held.filter kind with
  | nil => rw [List.filterMap_nil, List.count_nil, List.length_nil, ite_self]
  | cons head rest ih =>
    cases own : r.uid with
    | none => simp
    | some level =>
      rw [own] at ih
      rw [List.filterMap_cons, List.count_cons, ih, List.length_cons]
      by_cases same : level = uid
      · rw [same, if_pos rfl, if_pos rfl, beq_self_eq_true, if_pos rfl]
      · have different : ¬ some level = some uid := fun equal => same (Option.some.inj equal)
        rw [if_neg different, if_neg different, beq_eq_false_iff_ne.mpr same, if_neg Bool.false_ne_true]

theorem Quiet.active_eq_leases (quiet : g.Quiet) {uid : String} {state : Nat} (used : g.current uid = some state) :
    g.active state = g.leases uid := by
  refine (quiet.exact.balanced (.active state)).trans (booked_congr fun r listed => ?_)
  rw [count_levels]
  split_ifs with own
  · refine List.countP_congr fun x holds => ?_
    cases x with
    | active other =>
      have same := (quiet.leased r listed other holds uid own).symm.trans used
      rw [Option.some.inj same]
      exact iff_of_true (beq_self_eq_true _) rfl
    | _ => exact iff_of_false (fun equal => nomatch beq_iff_eq.mp equal) nofun
  · rw [List.count_eq_zero]
    intro holds
    rcases quiet.located r listed state (Request.active_mem_states holds) with ⟨_, level, isLevel, _, only⟩
    exact own (by rw [isLevel, only uid used])

theorem Quiet.queue_empty (quiet : g.Quiet) (state queue : Nat) : g.limiter.amount (.queueQueued state queue) = 0 :=
  (quiet.exact.balanced _).trans (booked_eq_zero fun r listed => (quiet.unqueued r listed).uncounted state queue)

theorem Quiet.queuedAt_eq_waiters (quiet : g.Quiet) (uid : String) (state : Nat) : g.queuedAt state = g.waiters uid := by
  have none : g.waiters uid = 0 := by
    apply booked_eq_zero
    intro r listed level
    rcases List.mem_filterMap.mp level with ⟨x, holds, _⟩
    rw [List.mem_filter] at holds
    cases x with
    | queueQueued state queue => exact (quiet.unqueued r listed).uncounted state queue holds.1
    | _ => cases holds.2
  rw [none]
  unfold queuedAt ConcurrencyLimiter.read
  cases found : g.limiter.states[state]? with
  | none => rfl
  | some s =>
    apply List.sum_eq_zero
    intro count listed
    rcases List.mem_map.mp listed with ⟨q, inside, rfl⟩
    rcases List.getElem?_of_mem inside with ⟨queue, there⟩
    have zero := quiet.queue_empty state queue
    unfold ConcurrencyLimiter.amount at zero
    dsimp only at zero
    rw [ConcurrencyLimiter.read_found found] at zero
    unfold PriorityState.amount at zero
    rw [there] at zero
    exact zero

theorem Quiet.isolated (quiet : g.Quiet) : g.Isolated where
  seatless r listed waits := absurd ((quiet.unqueued r listed).moving.symm.trans waits) Bool.false_ne_true
  unblocked _ _ _ _ _ _ _ _ other listed _ waits :=
    absurd ((quiet.unqueued other listed).moving.symm.trans waits) Bool.false_ne_true
  leased _ _ used := quiet.active_eq_leases used
  queued uid state _ := quiet.queuedAt_eq_waiters uid state
  withinConcurrency := quiet.within
  withinQueue _ state queue _ := by
    rw [quiet.queue_empty]
    exact Nat.zero_le _

theorem Quiet.step (quiet : g.Quiet) (s : Step) (uncontended : g.Uncontended s) : (g.step s).Quiet := by
  have placed : forall {i : Nat} {r : Request}, g.requests[i]? = some r -> r.Placed g.limiter :=
    fun present => quiet.exact.placed _ (List.mem_of_getElem? present)
  cases s with
  | arrive info query priority priorities flow =>
    have fresh : (Request.arrive info query priority priorities flow).phase.states = [] ∧
        (Request.arrive info query priority priorities flow).waitsAtLevel = false ∧
        (Request.arrive info query priority priorities flow).held = [] := by
      unfold Request.arrive Request.waitsAtLevel Request.held
      dsimp only
      split_ifs <;> exact ⟨rfl, rfl, rfl⟩
    refine ⟨quiet.exact.step (.arrive info query priority priorities flow), quiet.inside, quiet.injective, ?_, ?_, ?_, quiet.within⟩
    · intro other member
      rcases List.mem_append.mp member with old | new
      · exact quiet.located other old
      · rw [List.mem_singleton.mp new, fresh.1]
        nofun
    · intro other member
      rcases List.mem_append.mp member with old | new
      · exact quiet.unqueued other old
      · rw [List.mem_singleton.mp new]
        exact ⟨fresh.2.1, fun _ _ => by rw [fresh.2.2]; exact List.not_mem_nil⟩
    · intro other member
      rcases List.mem_append.mp member with old | new
      · exact quiet.leased other old
      · rw [List.mem_singleton.mp new, fresh.2.2]
        nofun
  | advance i =>
    change (g.move i Request.advance).Quiet
    unfold Gate.move
    cases present : g.requests[i]? with
    | none => exact quiet
    | some r =>
      have moves := Request.advance_moves (placed present) fun x held => quiet.exact.balanced.pos present held
      exact quiet.act present (Request.advance_act (placed present)) moves (uncontended r present)
  | grant i =>
    change (g.move i Request.grant).Quiet
    unfold Gate.move
    cases present : g.requests[i]? with
    | none => exact quiet
    | some r => exact quiet.plain present (Request.grant_moves (placed present)) Request.grant_plain
  | wake i =>
    change (g.move i fun r l => (r.wake, l)).Quiet
    unfold Gate.move
    cases present : g.requests[i]? with
    | none => exact quiet
    | some r => exact quiet.plain present (Request.wake_moves (placed present)) Request.wake_plain
  | abandon i =>
    change (g.move i fun r l => (r.abandon, l)).Quiet
    unfold Gate.move
    cases present : g.requests[i]? with
    | none => exact quiet
    | some r => exact quiet.plain present (Request.abandon_moves (placed present)) Request.abandon_plain

theorem advance_eq (present : g.requests[i]? = some r) :
    g.step (.advance i) = ⟨(r.advance g.limiter).2, g.requests.set i { r with phase := (r.advance g.limiter).1 }⟩ := by
  change g.move i Request.advance = _
  unfold Gate.move
  rw [present]

theorem leases_claimed {place : Place} {queued : Bool} {limit : Nat} {uid : String} (present : g.requests[i]? = some r)
    (claiming : r.phase = .claiming place queued limit) (level : r.uid = some uid) :
    leases ⟨l', g.requests.set i { r with phase := .claimed place queued }⟩ uid = g.leases uid + 1 := by
  have booked := @booked_set _ _ _ (Request.levels Account.isLease) _ _ { r with phase := .claimed place queued } i uid present
  have levelAfter : ({ r with phase := .claimed place queued } : Request).uid = some uid := level
  have held : ({ r with phase := .claimed place queued } : Request).held = place.active :: r.held := by
    unfold Request.held
    rw [claiming]
    rfl
  rw [count_levels, count_levels, if_pos level, if_pos levelAfter, held, List.countP_cons_of_pos rfl] at booked
  unfold leases
  dsimp only
  omega

/-- A request that tries for a seat and leaves the levels isolated found one
free, in the state that the level uses. -/
theorem Quiet.free_of_isolated (quiet : g.Quiet) (present : g.requests[i]? = some r) {place : Place} {queued : Bool}
    {limit : Nat} (claiming : r.phase = .claiming place queued limit) (isolated : (g.step (.advance i)).Isolated) :
    g.active place.state < limit ∧ g.active place.state < g.maxConcurrency place.state ∧
      forall uid, r.uid = some uid -> g.current uid = some place.state := by
  have listed := List.mem_of_getElem? present
  have own : place.state ∈ r.phase.states := by
    rw [claiming]
    exact .head _
  have first : queued = false := by
    have moving := (quiet.unqueued r listed).moving
    unfold Request.waitsAtLevel at moving
    rw [claiming] at moving
    exact moving
  have free : g.limiter.amount place.active < limit := by
    by_contra full
    have refused : r.advance g.limiter = (.enqueueing place, g.limiter) := by
      unfold Request.advance
      rw [claiming, first]
      exact (if_neg full).trans (if_neg Bool.false_ne_true)
    have result := advance_eq present
    rw [refused] at result
    have waits : ({ r with phase := .enqueueing place } : Request).waitsAtLevel = true := rfl
    apply isolated.seatless _ _ waits (Request.requests_mem_held waits)
    rw [result]
    exact List.mem_set (List.getElem?_eq_some_iff.mp present).1 _
  have claimed : r.advance g.limiter = (.claimed place queued, g.limiter.fetchAdd place.active) := by
    unfold Request.advance
    rw [claiming]
    exact if_pos free
  have result := advance_eq present
  rw [claimed] at result
  have placed : place.queue < g.limiter.queueCount place.state := by
    have placed := quiet.exact.placed r listed
    unfold Request.Placed at placed
    rw [claiming] at placed
    exact placed
  have added : forall state, (g.step (.advance i)).active state =
      g.active state + if place.active == .active state then 1 else 0 := by
    intro state
    rw [result]
    exact ConcurrencyLimiter.amount_fetchAdd (ConcurrencyLimiter.has_active placed)
  have table : forall uid, (g.step (.advance i)).current uid = g.current uid := by
    intro uid
    rw [result]
    rfl
  rcases quiet.located r listed place.state own with ⟨_, level, isLevel, ⟨used, points⟩, _⟩
  have here : place.state = used := by
    have counted := isolated.leased level used (by rw [table]; exact points)
    rw [added, quiet.active_eq_leases points, result, leases_claimed present claiming isLevel] at counted
    by_contra other
    rw [beq_eq_false_iff_ne.mpr fun same : place.active = .active used => other (Account.active.inj same),
      if_neg Bool.false_ne_true] at counted
    omega
  rw [← here] at points
  refine ⟨free, ?_, fun uid isOwn => ?_⟩
  · have bound := isolated.withinConcurrency level place.state (by rw [table]; exact points)
    have limits : (g.step (.advance i)).maxConcurrency place.state = g.maxConcurrency place.state := by
      rw [result]
      exact (@ConcurrencyLimiter.level_change g.limiter place.active fun n => n + 1).limits place.state
    rw [added, limits, show (place.active == Account.active place.state) = true from beq_self_eq_true _,
      if_pos rfl] at bound
    exact bound
  · cases isOwn.symm.trans isLevel
    exact points

/-- A request that sets the limit of a level and leaves it isolated set none
below what is running. -/
theorem Quiet.covered_of_isolated (quiet : g.Quiet) (present : g.requests[i]? = some r) {place : Place} {limit : Nat}
    (storing : r.phase = .storing place limit) (isolated : (g.step (.advance i)).Isolated) {uid : String}
    (points : g.current uid = some place.state) : g.active place.state ≤ limit := by
  have result := advance_eq present
  unfold Request.advance at result
  rw [storing] at result
  dsimp only at result
  have bound := isolated.withinConcurrency uid place.state (by rw [result]; exact points)
  have amounts : (g.step (.advance i)).active place.state = g.active place.state := by
    rw [result]
    exact ConcurrencyLimiter.amount_modifyState (fun _ => rfl) fun _ => rfl
  have limits : (g.step (.advance i)).maxConcurrency place.state = limit := by
    rw [result]
    refine ConcurrencyLimiter.read_modifyState.trans ((if_pos rfl).trans ?_)
    exact ConcurrencyLimiter.read_found (List.getElem?_eq_getElem (quiet.inside uid place.state points))
  rw [amounts, limits] at bound
  exact bound

theorem Quiet.uncontended (quiet : g.Quiet) (s : Step) (isolated : (g.step s).Isolated) : g.Uncontended s := by
  cases s with
  | advance i =>
    intro r present
    unfold Allows
    cases phase : r.phase with
    | claiming place queued limit => exact quiet.free_of_isolated present phase isolated
    | storing place limit => exact fun uid _ points => quiet.covered_of_isolated present phase isolated points
    | _ => trivial
  | _ => trivial

/-- Priority levels are isolated throughout a run exactly when no request has
to wait at its level, every seat is claimed in the state that the level uses,
and no limit is set below what is running. -/
theorem isolated_iff_uncontended (maxRequests maxMutatingRequests queueLengthLimit : Nat) (steps : List Step) :
    AlongRun step Isolated (new maxRequests maxMutatingRequests queueLengthLimit) steps <->
      EveryStep step Uncontended (new maxRequests maxMutatingRequests queueLengthLimit) steps :=
  @alongRun_iff_everyStep _ _ step Quiet Isolated (fun _ _ => True) Uncontended
    (fun _ s quiet _ uncontended => quiet.step s uncontended) (fun _ quiet => quiet.isolated)
    (fun _ s quiet _ isolated => quiet.uncontended s isolated) _ _ (quiet_new _ _ _)
    (EveryStep.unconditional _ steps)

private def quietLevel (uid : String) : PriorityLevelConfig where
  uid := uid
  exempt := false
  nominalConcurrencyShares := 1
  totalNominalConcurrencyShares := 2
  queues := 1
  handSize := 1
  queueLengthLimit := 2
  lendablePercent := 0
  borrowingLimitPercent := none
  reject := false
  total_pos := by decide

private def getAt (uid : String) : Step :=
  .arrive ⟨"get", ""⟩ "" (some (quietLevel uid)) [] ""

/-- Two requests of one level, the second of which has to wait, and one of
another level, which finds no seat left. -/
private def crowd : List Step :=
  [getAt "busy"] ++ List.replicate 11 (.advance 0) ++ [getAt "busy"] ++ List.replicate 15 (.advance 1) ++
    [getAt "idle"] ++ List.replicate 2 (.advance 2)

/-- The seat that the third request waits for is held by the second, which
waits at another level. -/
theorem not_isolated_crowd :
    (run step (new 2 2 2) crowd).requests.map Request.waitsForSeat = [false, false, true] ∧
      (run step (new 2 2 2) crowd).requests.map Request.waitsAtLevel = [false, true, false] ∧
      ¬ AlongRun step Isolated (new 2 2 2) crowd := by
  have waiting : (run step (new 2 2 2) crowd).requests.map Request.waitsAtLevel = [false, true, false] := by decide +kernel
  refine ⟨by decide +kernel, waiting, fun along => ?_⟩
  have listed : true ∈ (run step (new 2 2 2) crowd).requests.map Request.waitsAtLevel := by
    rw [waiting]
    exact .tail _ (.head _)
  rcases List.mem_map.mp listed with ⟨r, member, waits⟩
  exact along.finish.seatless r member waits (Request.requests_mem_held waits)

end Gate
end NotK8s.Flowcontrol

import Mathlib
import NotK8s.Library.SortedMap

namespace NotK8s.Flowcontrol

open Library

/-!
# The concurrency limiter

Each request passes two or three gates: the semaphore of all requests, the one
of mutating requests, and its priority level.  A request is a phase that says
which atomic operation comes next, and a step performs one of them.  The
semaphores hand a free permit to any request that waits, and a request that
waits at its level may be woken at any time.
-/

/-- Arithmetic on machine words that stops at the largest one. -/
def saturate (n : Nat) : Nat :=
  min n (2 ^ 64 - 1)

structure PriorityLevelConfig where
  uid : String
  exempt : Bool
  nominalConcurrencyShares : Nat
  totalNominalConcurrencyShares : Nat
  queues : Nat
  handSize : Nat
  queueLengthLimit : Nat
  lendablePercent : Nat
  borrowingLimitPercent : Option Nat
  reject : Bool
  /-- The shares are added up with one as the least total. -/
  total_pos : 0 < totalNominalConcurrencyShares

structure PriorityQueue where
  active : Nat
  queued : Nat

/-- A state has at least one queue. -/
structure PriorityState where
  active : Nat
  maxConcurrency : Nat
  queueLengthLimit : Nat
  handSize : Nat
  queues : List PriorityQueue
  queues_pos : 0 < queues.length

/-- A semaphore never gives out more permits than it has. -/
structure Semaphore where
  permits : Nat
  taken : Nat
  within : taken ≤ permits

namespace Semaphore

def new (permits : Nat) : Semaphore :=
  ⟨permits, 0, Nat.zero_le permits⟩

def tryAcquire (s : Semaphore) : Option Semaphore :=
  if free : s.taken < s.permits then some ⟨s.permits, s.taken + 1, free⟩ else none

def release (s : Semaphore) : Semaphore :=
  ⟨s.permits, s.taken - 1, Nat.le_trans (Nat.sub_le s.taken 1) s.within⟩

end Semaphore

/-- Everything the limiter counts. -/
inductive Account where
  | requests
  | mutatingRequests
  | queued
  | active (state : Nat)
  | queueActive (state queue : Nat)
  | queueQueued (state queue : Nat)
  deriving DecidableEq

structure ConcurrencyLimiter where
  requests : Semaphore
  mutatingRequests : Semaphore
  queued : Nat
  queueLengthLimit : Nat
  maxRequests : Nat
  /-- The state in use for each level. -/
  priorityStates : SortedMap String Nat
  /-- Every state ever made.  A request keeps the state it found. -/
  states : List PriorityState

/-! ## The counters -/

namespace PriorityState

def amount (s : PriorityState) (queue : Nat) (count : PriorityQueue -> Nat) : Nat :=
  match s.queues[queue]? with
  | some q => count q
  | none => 0

def modifyQueue (s : PriorityState) (queue : Nat) (f : PriorityQueue -> PriorityQueue) : PriorityState :=
  { s with
    queues := s.queues.modify queue f
    queues_pos := by
      rw [List.length_modify]
      exact s.queues_pos }

end PriorityState

namespace ConcurrencyLimiter

def new (maxRequests maxMutatingRequests queueLengthLimit : Nat) : ConcurrencyLimiter where
  requests := .new maxRequests
  mutatingRequests := .new maxMutatingRequests
  queued := 0
  queueLengthLimit := queueLengthLimit
  maxRequests := maxRequests
  priorityStates := .empty
  states := []

def modifyState (l : ConcurrencyLimiter) (state : Nat) (f : PriorityState -> PriorityState) : ConcurrencyLimiter :=
  { l with states := l.states.modify state f }

def read (l : ConcurrencyLimiter) (state : Nat) (field : PriorityState -> Nat) : Nat :=
  match l.states[state]? with
  | some s => field s
  | none => 0

def amount (l : ConcurrencyLimiter) : Account -> Nat
  | .requests => l.requests.taken
  | .mutatingRequests => l.mutatingRequests.taken
  | .queued => l.queued
  | .active state => l.read state PriorityState.active
  | .queueActive state queue => l.read state fun s => s.amount queue PriorityQueue.active
  | .queueQueued state queue => l.read state fun s => s.amount queue PriorityQueue.queued

/-- Change one counter. -/
def change (l : ConcurrencyLimiter) (f : Nat -> Nat) : Account -> ConcurrencyLimiter
  | .requests => l
  | .mutatingRequests => l
  | .queued => { l with queued := f l.queued }
  | .active state => l.modifyState state fun s => { s with active := f s.active }
  | .queueActive state queue => l.modifyState state fun s => s.modifyQueue queue fun q => { q with active := f q.active }
  | .queueQueued state queue => l.modifyState state fun s => s.modifyQueue queue fun q => { q with queued := f q.queued }

def fetchAdd (l : ConcurrencyLimiter) (account : Account) : ConcurrencyLimiter :=
  l.change (fun n => n + 1) account

/-- What dropping a permit, a guard or a part of a lease does. -/
def giveBack (l : ConcurrencyLimiter) : Account -> ConcurrencyLimiter
  | .requests => { l with requests := l.requests.release }
  | .mutatingRequests => { l with mutatingRequests := l.mutatingRequests.release }
  | account => l.change (fun n => n - 1) account

end ConcurrencyLimiter

/-! ## Limits and queues of a level -/

def nominalConcurrencyLimit (config : PriorityLevelConfig) (maxGlobalSeats : Nat) : Nat :=
  max ((saturate (config.nominalConcurrencyShares * maxGlobalSeats) + config.totalNominalConcurrencyShares - 1) /
    config.totalNominalConcurrencyShares) 1

def roundPercent (value percent : Nat) : Nat :=
  saturate (saturate (value * percent) + 50) / 100

def effectivePriorityLimit (l : ConcurrencyLimiter) (config : PriorityLevelConfig)
    (priorities : List PriorityLevelConfig) : Nat :=
  let nominal := nominalConcurrencyLimit config l.maxRequests
  let borrowed := ((priorities.filter fun peer => peer.uid ≠ config.uid).map fun peer =>
    let peerNominal := nominalConcurrencyLimit peer l.maxRequests
    let peerActive := match l.priorityStates.get peer.uid with
      | some state => l.read state PriorityState.active
      | none => 0
    min (roundPercent peerNominal peer.lendablePercent) (peerNominal - peerActive)).sum
  let borrowingLimit := match config.borrowingLimitPercent with
    | some percent => roundPercent nominal percent
    | none => 2 ^ 64 - 1
  saturate (nominal + min borrowed borrowingLimit)

def queueLengthLimitOf (config : PriorityLevelConfig) : Nat :=
  if config.reject then 0 else config.queueLengthLimit

def newPriorityState (config : PriorityLevelConfig) (limit : Nat) : PriorityState where
  active := 0
  maxConcurrency := limit
  queueLengthLimit := queueLengthLimitOf config
  handSize := min (max config.handSize 1) (max config.queues 1)
  queues := List.replicate (max config.queues 1) ⟨0, 0⟩
  queues_pos := by
    rw [List.length_replicate]
    omega

def stableHash (value : String) : Nat :=
  value.toUTF8.toList.foldl (fun hash byte => (hash ^^^ byte.toNat) * 0x100000001b3 % 2 ^ 64) 0xcbf29ce484222325

def splitmix64 (value : Nat) : Nat :=
  let value := (value + 0x9e3779b97f4a7c15) % 2 ^ 64
  let value := (value ^^^ (value >>> 30)) * 0xbf58476d1ce4e5b9 % 2 ^ 64
  let value := (value ^^^ (value >>> 27)) * 0x94d049bb133111eb % 2 ^ 64
  value ^^^ (value >>> 31)

/-- Draw queues until the hand is full, for a bounded number of attempts. -/
def drawHand (queueCount target : Nat) : (attempts : Nat) -> (seed : Nat) -> (hand : List Nat) -> List Nat
  | 0, _, hand => hand
  | attempts + 1, seed, hand =>
    if hand.length < target then
      let seed := splitmix64 seed
      let index := seed % queueCount
      drawHand queueCount target attempts seed (if hand.contains index then hand else hand ++ [index])
    else hand

def shuffleHand (queueCount handSize : Nat) (flowDistinguisher : String) : List Nat :=
  if queueCount = 0 then []
  else
    let target := min (max handSize 1) queueCount
    (List.range queueCount).foldl
      (fun hand index => if hand.length = target || hand.contains index then hand else hand ++ [index])
      (drawHand queueCount target (saturate (queueCount * 16)) (stableHash flowDistinguisher) [])

def queueLoad (s : PriorityState) (index : Nat) : Nat :=
  saturate (s.amount index PriorityQueue.active + s.amount index PriorityQueue.queued)

/-- Less load, or as much and a smaller number. -/
def lighter (s : PriorityState) (first second : Nat) : Bool :=
  queueLoad s first < queueLoad s second || (queueLoad s first = queueLoad s second && first < second)

def selectQueue (s : PriorityState) (flowDistinguisher : String) : Nat :=
  match shuffleHand s.queues.length s.handSize flowDistinguisher with
  | [] => 0
  | first :: rest => rest.foldl (fun best index => if lighter s index best then index else best) first

/-! ## Requests -/

structure RequestInfo where
  verb : String
  subresource : String

def isMutating (info : RequestInfo) : Bool :=
  ["create", "update", "patch", "delete", "deletecollection"].contains info.verb

/-- A part of a query that asks to follow a log. -/
def follows (part : List Char) : Bool :=
  match part.span fun c => c ≠ '=' with
  | (key, '=' :: value) =>
    String.ofList key == "follow" && !(["", "0", "false"].contains (String.ofList value))
  | _ => false

def isLongRunning (info : RequestInfo) (query : String) : Bool :=
  ["watch", "proxy"].contains info.verb || ["exec", "attach", "portforward"].contains info.subresource ||
    (info.subresource == "log" && (query.toList.splitOn '&').any follows)

/-- The two semaphores. -/
inductive Seat where
  | requests
  | mutatingRequests

def Seat.account : Seat -> Account
  | .requests => .requests
  | .mutatingRequests => .mutatingRequests

inductive Outcome where
  /-- Served without a permit. -/
  | unlimited
  | queueFull
  | cancelled
  | completed
  deriving DecidableEq

/-- The state and the queue of a level that a request has been assigned. -/
structure Place where
  state : Nat
  queue : Nat

namespace Place

def active (p : Place) : Account := .active p.state

def queueActive (p : Place) : Account := .queueActive p.state p.queue

def queueQueued (p : Place) : Account := .queueQueued p.state p.queue

end Place

/-- What a request does next. -/
inductive Phase where
  | trying (seat : Seat)
  | joining (seat : Seat)
  | waiting (seat : Seat)
  | granted (seat : Seat)
  | locating
  | configuring (state : Nat)
  | sizing (state : Nat)
  | selecting (state : Nat)
  | limiting (place : Place)
  | storing (place : Place) (limit : Nat)
  /-- In `try_claim`, the second time when the request is queued. -/
  | loading (place : Place) (queued : Bool)
  | claiming (place : Place) (queued : Bool) (limit : Nat)
  | claimed (place : Place) (queued : Bool)
  | leaving (place : Place)
  | enqueueing (place : Place)
  | checking (place : Place) (previous : Nat)
  | parked (place : Place)
  | woken (place : Place)
  | serving (place : Option Place)
  | dropping (accounts : List Account) (outcome : Outcome)
  | finished (outcome : Outcome)

structure Request where
  priority : Option PriorityLevelConfig
  priorities : List PriorityLevelConfig
  flowDistinguisher : String
  mutating : Bool
  phase : Phase

namespace Request

def uid (r : Request) : Option String :=
  r.priority.map PriorityLevelConfig.uid

/-- The start of `acquire_with_priorities`. -/
def arrive (info : RequestInfo) (query : String) (priority : Option PriorityLevelConfig)
    (priorities : List PriorityLevelConfig) (flowDistinguisher : String) : Request where
  priority := priority
  priorities := priorities
  flowDistinguisher := flowDistinguisher
  mutating := isMutating info
  phase :=
    if priority.any PriorityLevelConfig.exempt || isLongRunning info query then .finished .unlimited
    else if priority.any fun level => level.nominalConcurrencyShares = 0 then .finished .queueFull
    else .trying .requests

/-- The permits of the semaphores, the last one taken first. -/
def seats (r : Request) : List Account :=
  if r.mutating then [.mutatingRequests, .requests] else [.requests]

/-- The permits a request has when it comes to a semaphore. -/
def seatsBefore : Seat -> List Account
  | .requests => []
  | .mutatingRequests => [.requests]

/-- What follows a permit of a semaphore. -/
def seated (r : Request) : Seat -> Phase
  | .requests => if r.mutating then .trying .mutatingRequests else .locating
  | .mutatingRequests => .locating

end Request

namespace ConcurrencyLimiter

def tryAcquire (l : ConcurrencyLimiter) : Seat -> Option ConcurrencyLimiter
  | .requests => l.requests.tryAcquire.map fun s => { l with requests := s }
  | .mutatingRequests => l.mutatingRequests.tryAcquire.map fun s => { l with mutatingRequests := s }

/-- The state in use for a level, found or made in one critical section.  An
idle state with another number of queues is replaced. -/
def priorityState (l : ConcurrencyLimiter) (config : PriorityLevelConfig) : Nat × ConcurrencyLimiter :=
  let limit := nominalConcurrencyLimit config l.maxRequests
  let made := (l.states.length, { l with
    priorityStates := l.priorityStates.insert config.uid l.states.length
    states := l.states ++ [newPriorityState config limit] })
  match l.priorityStates.get config.uid with
  | none => made
  | some address =>
    match l.states[address]? with
    | none => made
    | some state =>
      if state.queues.length ≠ max config.queues 1 ∧ state.active = 0 ∧
          (state.queues.all fun queue => queue.queued = 0) then made
      else (address, l)

end ConcurrencyLimiter

/-- The next atomic operation of a request that is not blocked. -/
def Request.advance (r : Request) (l : ConcurrencyLimiter) : Phase × ConcurrencyLimiter :=
  match r.phase with
  | .trying seat =>
    match l.tryAcquire seat with
    | some l => (r.seated seat, l)
    | none => (.joining seat, l)
  | .joining seat =>
    if l.queueLengthLimit ≤ l.queued then
      (.dropping (.queued :: seatsBefore seat) .queueFull, l.fetchAdd .queued)
    else (.waiting seat, l.fetchAdd .queued)
  | .granted seat => (r.seated seat, l.giveBack .queued)
  | .locating =>
    match r.priority with
    | none => (.serving none, l)
    | some config => (.configuring (l.priorityState config).1, (l.priorityState config).2)
  | .configuring state =>
    match r.priority with
    | none => (r.phase, l)
    | some config =>
      (.sizing state, l.modifyState state fun s => { s with queueLengthLimit := queueLengthLimitOf config })
  | .sizing state =>
    match r.priority with
    | none => (r.phase, l)
    | some config =>
      (.selecting state, l.modifyState state fun s =>
        { s with handSize := min (max config.handSize 1) s.queues.length })
  | .selecting state => (.limiting ⟨state, l.read state fun s => selectQueue s r.flowDistinguisher⟩, l)
  | .limiting place =>
    match r.priority with
    | none => (r.phase, l)
    | some config => (.storing place (effectivePriorityLimit l config r.priorities), l)
  | .storing place limit => (.loading place false, l.modifyState place.state fun s => { s with maxConcurrency := limit })
  | .loading place queued => (.claiming place queued (l.read place.state PriorityState.maxConcurrency), l)
  | .claiming place queued limit =>
    if l.amount place.active < limit then (.claimed place queued, l.fetchAdd place.active)
    else if queued then (.parked place, l)
    else (.enqueueing place, l)
  | .claimed place queued =>
    (if queued then .leaving place else .serving (some place), l.fetchAdd place.queueActive)
  | .leaving place => (.serving (some place), l.giveBack place.queueQueued)
  | .enqueueing place => (.checking place (l.amount place.queueQueued), l.fetchAdd place.queueQueued)
  | .checking place previous =>
    if l.read place.state PriorityState.queueLengthLimit ≤ previous then
      (.dropping (place.queueQueued :: r.seats) .queueFull, l)
    else (.loading place true, l)
  | .woken place => (.limiting place, l.giveBack place.queueQueued)
  | .dropping [] outcome => (.finished outcome, l)
  | .dropping (account :: rest) outcome => (.dropping rest outcome, l.giveBack account)
  | blocked => (blocked, l)

/-- A request that waits for a semaphore is handed a free permit. -/
def Request.grant (r : Request) (l : ConcurrencyLimiter) : Phase × ConcurrencyLimiter :=
  match r.phase with
  | .waiting seat =>
    match l.tryAcquire seat with
    | some l => (.granted seat, l)
    | none => (r.phase, l)
  | other => (other, l)

/-- A request that waits at its level is notified. -/
def Request.wake (r : Request) : Phase :=
  match r.phase with
  | .parked place => .woken place
  | other => other

/-- A request that waits is cancelled, or the permit of a served one is
dropped. -/
def Request.abandon (r : Request) : Phase :=
  match r.phase with
  | .waiting seat => .dropping (.queued :: seatsBefore seat) .cancelled
  | .parked place => .dropping (place.queueQueued :: r.seats) .cancelled
  | .serving none => .dropping r.seats.reverse .completed
  | .serving (some place) => .dropping (r.seats.reverse ++ [place.queueActive, place.active]) .completed
  | other => other

/-! ## The system -/

/-- The limiter and every request that has come to it. -/
structure Gate where
  limiter : ConcurrencyLimiter
  requests : List Request

inductive Step where
  | arrive (info : RequestInfo) (query : String) (priority : Option PriorityLevelConfig)
      (priorities : List PriorityLevelConfig) (flowDistinguisher : String)
  | advance (request : Nat)
  | grant (request : Nat)
  | wake (request : Nat)
  | abandon (request : Nat)

namespace Gate

def new (maxRequests maxMutatingRequests queueLengthLimit : Nat) : Gate :=
  ⟨.new maxRequests maxMutatingRequests queueLengthLimit, []⟩

/-- One request moves. -/
def move (g : Gate) (i : Nat) (f : Request -> ConcurrencyLimiter -> Phase × ConcurrencyLimiter) : Gate :=
  match g.requests[i]? with
  | none => g
  | some r => ⟨(f r g.limiter).2, g.requests.set i { r with phase := (f r g.limiter).1 }⟩

def step (g : Gate) : Step -> Gate
  | .arrive info query priority priorities flowDistinguisher =>
    { g with requests := g.requests ++ [.arrive info query priority priorities flowDistinguisher] }
  | .advance i => g.move i Request.advance
  | .grant i => g.move i Request.grant
  | .wake i => g.move i fun r l => (r.wake, l)
  | .abandon i => g.move i fun r l => (r.abandon, l)

end Gate
end NotK8s.Flowcontrol

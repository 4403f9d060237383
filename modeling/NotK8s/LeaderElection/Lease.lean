import Mathlib.Data.List.Basic
import Mathlib.Data.String.Basic

namespace NotK8s.LeaderElection

/-!
# Leader election over a Lease

A replica reads the Lease, decides, and writes it back under the version it
read.  Times are in nanoseconds of one clock that all replicas share.  A call
takes effect on the server at some instant before its reply, or never, and a
write whose reply is not awaited any more may still take effect later.
-/

/-! ## Configuration -/

structure ElectionConfig where
  enabled : Bool
  leaseDuration : Nat
  renewDeadline : Nat
  retryPeriod : Nat

/-- Whole seconds of a duration. -/
def asSecs (duration : Nat) : Nat :=
  duration / 1000000000

def seconds (count : Nat) : Nat :=
  count * 1000000000

/-- A time as the API keeps it, in whole microseconds. -/
def microTime (time : Nat) : Nat :=
  time / 1000 * 1000

def ElectionConfig.validate (cfg : ElectionConfig) : Except String Unit :=
  if !cfg.enabled then .ok ()
  else if cfg.leaseDuration ≤ cfg.renewDeadline then
    .error ("leader-election renew_deadline (" ++ toString (asSecs cfg.renewDeadline) ++
      "s) must be less than lease_duration (" ++ toString (asSecs cfg.leaseDuration) ++
      "s), or this instance would still believe it holds a lease another has already taken.")
  else if cfg.renewDeadline ≤ cfg.retryPeriod then
    .error ("leader-election retry_period (" ++ toString (asSecs cfg.retryPeriod) ++
      "s) must be less than renew_deadline (" ++ toString (asSecs cfg.renewDeadline) ++
      "s), or a single failed renewal would lose the lease with no attempt to retry it.")
  else .ok ()

/-- Whether a lease may be taken, given what is recorded in it. -/
def mayAcquire (holder : Option String) (renewedAt : Option Nat) (leaseDuration now : Nat) (me : String) : Bool :=
  match holder with
  | none => true
  | some held =>
    if held = "" then true
    else if held = me then true
    else
      match renewedAt with
      | none => true
      | some renewed => renewed + seconds (asSecs leaseDuration) < now

/-! ## The Lease and its server -/

structure LeaseSpec where
  holderIdentity : Option String
  leaseDurationSeconds : Option Nat
  acquireTime : Option Nat
  renewTime : Option Nat
  leaseTransitions : Option Int
  deriving DecidableEq

/-- The Lease with its version, when there is one. -/
abbrev Lease := Option (Nat × LeaseSpec)

/-- A create expects no Lease, a replace the version that was read. -/
structure LeaseWrite where
  expected : Option Nat
  spec : LeaseSpec

def leaseObject (cfg : ElectionConfig) (identity : String) (now acquiredAt : Nat) (transitions : Int) : LeaseSpec where
  holderIdentity := some identity
  leaseDurationSeconds := some (asSecs cfg.leaseDuration)
  acquireTime := some (microTime acquiredAt)
  renewTime := some (microTime now)
  leaseTransitions := some transitions

/-- A write takes effect only on the version that it expects. -/
def land (lease : Lease) (write : LeaseWrite) : Bool × Lease :=
  if lease.map Prod.fst = write.expected then
    (true, some ((lease.map Prod.fst).getD 0 + 1, write.spec))
  else (false, lease)

/-- What `try_acquire` makes of the Lease it read: the write to attempt, or
none when someone else holds the Lease. -/
def attemptWrite (cfg : ElectionConfig) (identity : String) (now : Nat) : Lease -> Option LeaseWrite
  | none => some ⟨none, leaseObject cfg identity now now 1⟩
  | some (version, spec) =>
    if mayAcquire spec.holderIdentity spec.renewTime cfg.leaseDuration now identity then
      let own := spec.holderIdentity = some identity
      let transitions := spec.leaseTransitions.getD 0 + if own then 0 else 1
      let acquiredAt := if own then spec.acquireTime.getD now else now
      some ⟨some version, leaseObject cfg identity now acquiredAt transitions⟩
    else none

/-! ## Replicas -/

/-- The call that an attempt waits for. -/
inductive Call where
  | reading
  /-- The server has answered with what it holds. -/
  | read (lease : Lease)
  | writing (write : LeaseWrite)
  /-- The server has answered whether the write took effect. -/
  | written (accepted : Bool)

/-- What a replica does between two of its steps. -/
inductive Activity where
  | sleeping (wake : Nat)
  | trying (now : Nat) (call : Call)

/-- Where a replica is in `run_as_leader`.  The renewal time of the last write
that was acknowledged is kept for the statements only. -/
inductive Phase where
  | acquiring
  | leading (lastSuccess renewed : Nat)
  | lost

structure Replica where
  identity : String
  phase : Phase
  activity : Activity

inductive AttemptResult where
  | acquired
  | refused
  | failed

namespace Replica

/-- What `acquire` and `renew_until_lost` do with the result of an attempt. -/
def finish (cfg : ElectionConfig) (clock : Nat) (result : AttemptResult) (r : Replica) : Replica :=
  let asleep := { r with activity := .sleeping (clock + cfg.retryPeriod) }
  match r.phase, r.activity, result with
  | .acquiring, .trying now _, .acquired => { asleep with phase := .leading clock (microTime now) }
  | .acquiring, _, _ => asleep
  | .leading _ _, .trying now _, .acquired =>
    if cfg.renewDeadline ≤ clock - clock then { asleep with phase := .lost }
    else { asleep with phase := .leading clock (microTime now) }
  | .leading _ _, _, .refused => { asleep with phase := .lost }
  | .leading lastSuccess _, _, _ =>
    if cfg.renewDeadline ≤ clock - lastSuccess then { asleep with phase := .lost } else asleep
  | .lost, _, _ => asleep

end Replica

/-- The replicas, the server, and writes whose replies nobody awaits. -/
structure Election where
  clock : Nat
  lease : Lease
  replicas : List Replica
  strays : List LeaseWrite

inductive Step where
  | tick (elapsed : Nat)
  /-- The sleep is over and an attempt begins. -/
  | wake (replica : Nat)
  /-- The call takes effect on the server. -/
  | serve (replica : Nat)
  /-- The reply arrives. -/
  | reply (replica : Nat)
  /-- The call fails, though it may have taken effect or may still do so. -/
  | failure (replica : Nat)
  /-- A renewal has lasted a full retry period. -/
  | timeout (replica : Nat)
  /-- A write that nobody awaits takes effect. -/
  | stray (write : Nat)

namespace Election

/-- The write that is left behind with an attempt. -/
def leftBehind : Activity -> List LeaseWrite
  | .trying _ (.writing write) => [write]
  | _ => []

def update (e : Election) (replica : Nat) (r : Replica) : Election :=
  { e with replicas := e.replicas.set replica r }

/-- The attempt ends without a reply. -/
def abandon (cfg : ElectionConfig) (e : Election) (replica : Nat) (r : Replica) : Election :=
  { e with strays := e.strays ++ leftBehind r.activity }.update replica (r.finish cfg e.clock .failed)

def serveCall (e : Election) (replica : Nat) (r : Replica) : Election :=
  match r.activity with
  | .trying now .reading => e.update replica { r with activity := .trying now (.read e.lease) }
  | .trying now (.writing write) =>
    { e with lease := (land e.lease write).2 }.update replica
      { r with activity := .trying now (.written (land e.lease write).1) }
  | _ => e

def replyTo (cfg : ElectionConfig) (e : Election) (replica : Nat) (r : Replica) : Election :=
  match r.activity with
  | .trying now (.read lease) =>
    match attemptWrite cfg r.identity now lease with
    | some write => e.update replica { r with activity := .trying now (.writing write) }
    | none => e.update replica (r.finish cfg e.clock .refused)
  | .trying _ (.written accepted) => e.update replica (r.finish cfg e.clock (if accepted then .acquired else .refused))
  | _ => e

/-- A replica that lost its lease has stopped. -/
def working : Phase -> Bool
  | .lost => false
  | _ => true

/-- A step that is not possible leaves the state as it is. -/
def step (cfg : ElectionConfig) (e : Election) : Step -> Election
  | .tick elapsed => { e with clock := e.clock + elapsed }
  | .wake replica =>
    match e.replicas[replica]? with
    | none => e
    | some r =>
      match r.activity with
      | .sleeping wake =>
        if working r.phase && wake ≤ e.clock then e.update replica { r with activity := .trying e.clock .reading } else e
      | .trying _ _ => e
  | .serve replica =>
    match e.replicas[replica]? with
    | none => e
    | some r => e.serveCall replica r
  | .reply replica =>
    match e.replicas[replica]? with
    | none => e
    | some r => e.replyTo cfg replica r
  | .failure replica =>
    match e.replicas[replica]? with
    | none => e
    | some r =>
      match r.activity with
      | .trying _ _ => e.abandon cfg replica r
      | .sleeping _ => e
  | .timeout replica =>
    match e.replicas[replica]? with
    | none => e
    | some r =>
      match r.phase, r.activity with
      | .leading _ _, .trying now _ => if now + cfg.retryPeriod ≤ e.clock then e.abandon cfg replica r else e
      | _, _ => e
  | .stray write =>
    match e.strays[write]? with
    | none => e
    | some stray => { e with lease := (land e.lease stray).2, strays := e.strays.eraseIdx write }

/-- Replicas that begin, whatever the Lease says. -/
def start (lease : Lease) (identities : List String) : Election where
  clock := 0
  lease := lease
  replicas := identities.map fun identity => ⟨identity, .acquiring, .sleeping 0⟩
  strays := []

end Election
end NotK8s.LeaderElection

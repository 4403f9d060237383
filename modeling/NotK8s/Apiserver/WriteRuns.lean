import NotK8s.Library.Run
import NotK8s.Apiserver.Requests

namespace NotK8s.Apiserver
namespace Writes

open Library

/-!
# Requests at work on one key

Any number of requests read the key, decide, and try their transaction, in any
order.  Between the reading and the deciding a value that is encrypted under
an older key is written again under the present one.  Others write the key too
(a creation, another subresource), and other keys are written.
-/

inductive Phase (Rest : Type) where
  | ready
  | found (seen : Cell (Stored Rest))
  | writing (seen : Cell (Stored Rest)) (env : Env Rest) (value : Option (Doc Rest)) (key : Nat)
  | answered (seen : Cell (Stored Rest)) (answer : Answer)

/-- `wrote` is set when a step of the request changes the store. -/
structure Process (Rest : Type) where
  request : Request Rest
  retries : Nat
  phase : Phase Rest
  wrote : Bool

/-- What happened to the key: a request that wrote it, or a write by others. -/
inductive Event (Rest : Type) where
  | request (request : Request Rest) (env : Env Rest) (key clock : Nat)
  | outside (value : Option (Stored Rest)) (clock : Nat)

structure World (Rest : Type) where
  cell : Cell (Stored Rest)
  key : Nat
  processes : List (Process Rest)
  log : List (Event Rest)

inductive Step (Rest : Type) where
  | submit (request : Request Rest)
  | read (index : Nat)
  | decide (index : Nat) (env : Env Rest)
  | commit (index : Nat)
  | rotateKey (key : Nat)
  | outside (value : Option (Stored Rest))
  | elsewhere

section
variable {Rest : Type}

def World.new : World Rest where
  cell := { value := none, version := 0, clock := 1 }
  key := 0
  processes := []
  log := []

/-- A binding reads without writing. -/
def Request.rotates : Request Rest -> Bool
  | .bind _ => false
  | .update _ _ _ | .finalize _ _ | .updateStatus _ _ | .patch _ _ | .patchStatus _ _ | .apply _ _
  | .delete _ _ _ => true

/-- The answer when the transaction failed for the last time. -/
def Request.lost : Request Rest -> Answer
  | .bind _ => .bindConflict .storageRetriesExhausted
  | .update _ _ _ | .finalize _ _ | .updateStatus _ _ | .patch _ _ | .patchStatus _ _ | .apply _ _
  | .delete _ _ _ => .conflict

/-- The value to write again under the present key, if there is one. -/
def World.rotation (w : World Rest) (request : Request Rest) (env : Env Rest) (seen : Cell (Stored Rest)) :
    Option (Stored Rest) :=
  match seen.value with
  | some stored =>
    if env.served && request.rotates && env.reencrypts && stored.key != w.key && seen.version == w.cell.version then
      some { stored with key := w.key }
    else none
  | none => none

namespace Process
variable (p : Process Rest)

/-- A conflict starts the request over while it has retries left. -/
def conclude (seen : Cell (Stored Rest)) (answer : Answer) : Process Rest :=
  match answer, p.retries with
  | .conflict, retries + 1 => { p with retries := retries, phase := .ready }
  | answer, _ => { p with phase := .answered seen answer }

/-- The transaction failed. -/
def lose (seen : Cell (Stored Rest)) : Process Rest :=
  match p.retries with
  | retries + 1 => { p with retries := retries, phase := .ready }
  | 0 => { p with phase := .answered seen p.request.lost }

def afterVerdict (seen : Cell (Stored Rest)) (env : Env Rest) (key : Nat) : Verdict Rest -> Process Rest
  | .answer answer => p.conclude seen answer
  | .write value => { p with phase := .writing seen env value key }

end Process

namespace World
variable (target : Target) (strategy : Strategy Rest)

def decideStep (w : World Rest) (index : Nat) (p : Process Rest) (seen : Cell (Stored Rest)) (env : Env Rest) :
    World Rest :=
  let verdict := attempt target strategy env (seen.value.map Stored.doc) seen.version p.request
  match w.rotation p.request env seen with
  | some stored =>
    { w with
      cell := w.cell.write (some stored)
      processes := w.processes.set index ({ p with wrote := true }.afterVerdict seen env w.key verdict)
      log := w.log ++ [.outside (some stored) w.cell.clock] }
  | none => { w with processes := w.processes.set index (p.afterVerdict seen env w.key verdict) }

def commitStep (w : World Rest) (index : Nat) (p : Process Rest) (seen : Cell (Stored Rest)) (env : Env Rest)
    (value : Option (Doc Rest)) (key : Nat) : World Rest :=
  if seen.version = w.cell.version then
    { w with
      cell := w.cell.write (value.map fun doc => ⟨doc, key⟩)
      processes := w.processes.set index { p with phase := .answered seen (.done false), wrote := true }
      log := w.log ++ [.request p.request env key w.cell.clock] }
  else { w with processes := w.processes.set index (p.lose seen) }

def act (w : World Rest) : Step Rest -> World Rest
  | .submit request =>
    { w with processes := w.processes ++ [{ request := request, retries := request.retries, phase := .ready,
                                            wrote := false }] }
  | .read index =>
    match w.processes[index]? with
    | some p =>
      match p.phase with
      | .ready => { w with processes := w.processes.set index { p with phase := .found w.cell } }
      | .found _ | .writing _ _ _ _ | .answered _ _ => w
    | none => w
  | .decide index env =>
    match w.processes[index]? with
    | some p =>
      match p.phase with
      | .found seen => w.decideStep target strategy index p seen env
      | .ready | .writing _ _ _ _ | .answered _ _ => w
    | none => w
  | .commit index =>
    match w.processes[index]? with
    | some p =>
      match p.phase with
      | .writing seen env value key => w.commitStep index p seen env value key
      | .ready | .found _ | .answered _ _ => w
    | none => w
  | .rotateKey key => { w with key := key }
  | .outside value =>
    { w with cell := w.cell.write value, log := w.log ++ [.outside value w.cell.clock] }
  | .elsewhere => { w with cell := w.cell.tick }

end World

/-! ## What is promised -/

/-- The version that a request carries, if it carries one. -/
def Version.carried : Version -> Option String
  | .text s => if s = "" then none else some s
  | .absent | .null | .malformed => none

/-- A JSON Patch carries a version if the document it makes has another than
the one it was given. -/
def Patch.carried (patch : Patch Rest) (found : Option (Doc Rest)) (modRevision : Nat) : Option String :=
  match patch.kind, found with
  | .json, some existing =>
    match applyPatch patch existing modRevision with
    | .ok patched =>
      if patched.version = (existing.withVersion modRevision).version then none else patched.version.carried
    | .error _ => none
  | .json, none => none
  | .merge, _ | .strategicMerge, _ => patch.version.carried

def Request.carried (request : Request Rest) (found : Option (Doc Rest)) (modRevision : Nat) : Option String :=
  match request with
  | .update body _ _ => body.version.carried
  | .finalize body _ => body.version.carried
  | .updateStatus body _ => body.version.carried
  | .patch document _ => document.carried found modRevision
  | .patchStatus document _ => document.carried found modRevision
  | .apply configuration _ => configuration.version.carried
  | .bind binding => binding.version.carried
  | .delete preconditions _ _ => (preconditions.bind DeletePreconditions.resourceVersion).filter fun s => s ≠ ""

/-- What a request carries is the version of what it found. -/
def Request.Current (request : Request Rest) (seen : Cell (Stored Rest)) : Prop :=
  forall carried, request.carried (seen.value.map Stored.doc) seen.version = some carried ->
    parseVersion carried = some (seen.version : Int)

def Request.isBind : Request Rest -> Bool
  | .bind _ => true
  | .update _ _ _ | .finalize _ _ | .updateStatus _ _ | .patch _ _ | .patchStatus _ _ | .apply _ _
  | .delete _ _ _ => false

variable (target : Target) (strategy : Strategy Rest)

/-- The world in which a request runs with nothing going on beside it. -/
def alone (cell : Cell (Stored Rest)) (key : Nat) (request : Request Rest) (env : Env Rest) : World Rest :=
  run (World.act target strategy) { cell := cell, key := key, processes := [], log := [] }
    [.submit request, .read 0, .decide 0 env, .commit 0]

namespace Event

/-- The cell after an event that finds it as it is. -/
def outcome (cell : Cell (Stored Rest)) : Event Rest -> Cell (Stored Rest)
  | .request r env key clock => (alone target strategy (cell.atClock clock) key r env).cell
  | .outside value clock => (cell.atClock clock).write value

/-- A request that wrote: by itself it succeeds on what it finds, a version it
carries is the current one, and a binding finds a Pod without a node. -/
def Sound (cell : Cell (Stored Rest)) : Event Rest -> Prop
  | .request r env key clock =>
    (Exists fun seen => (alone target strategy (cell.atClock clock) key r env).processes.map Process.phase =
      [.answered seen (.done false)]) ∧
    r.Current cell ∧
    (r.isBind = true ->
      forall stored, cell.value = some stored -> Deletion.podIsAssigned stored.doc.head = false)
  | .outside _ _ => True

end Event

/-- The events one at a time, each on what the one before it left. -/
def Replays (cell : Cell (Stored Rest)) : List (Event Rest) -> Cell (Stored Rest) -> Prop
  | [], last => cell.value = last.value ∧ cell.version = last.version
  | event :: rest, last =>
    event.Sound target strategy cell ∧ Replays (event.outcome target strategy cell) rest last

/-- A refusal, or a dry run. -/
def Answer.WritesNothing : Answer -> Prop
  | .done dryRun => dryRun = true
  | .conflict | .bindConflict _ | .invalid _ => True
  | .missingResourceVersion | .namespaceMismatch | .notFound | .forbidden | .panicked => True

def Answer.isDone : Answer -> Bool
  | .done _ => true
  | .conflict | .bindConflict _ | .invalid _ | .missingResourceVersion | .namespaceMismatch | .notFound | .forbidden
  | .panicked => false

/-- Nothing is lost. -/
structure Safe (w : World Rest) : Prop where
  serial : Replays target strategy (World.new : World Rest).cell w.log w.cell
  current : forall (p : Process Rest) (seen : Cell (Stored Rest)) (answer : Answer), p ∈ w.processes ->
    p.phase = .answered seen answer -> answer.isDone = true -> p.request.Current seen
  unchanged : forall (p : Process Rest) (seen : Cell (Stored Rest)) (answer : Answer), p ∈ w.processes ->
    p.phase = .answered seen answer -> answer.WritesNothing -> p.wrote = false

end
end Writes
end NotK8s.Apiserver

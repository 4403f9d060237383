import Mathlib
import NotK8s.Library.Optimistic
import NotK8s.Library.SortedMap
import NotK8s.Library.Text
import NotK8s.Apiserver.Deletion

namespace NotK8s.Apiserver
namespace Writes

open Library

/-!
# One attempt of a request that writes

A request reads the object under its key and decides from what it read: it is
answered, or it has one transaction to try, which takes effect only if the
object has not been written since.  What conversion, defaulting, validation,
patching, the merge of an apply and admission make of a document is left open.
-/

/-- `metadata.resourceVersion` of a document. -/
inductive Version where
  | absent
  | null
  | malformed
  | text (s : String)
  deriving DecidableEq

/-- A 64-bit integer in decimal. -/
def parseVersion (s : String) : Option Int :=
  (Text.integer s.toList).filter fun revision => decide (-2 ^ 63 ≤ revision ∧ revision < 2 ^ 63)

def Version.read : Version -> Option Int
  | .text s => parseVersion s
  | .absent | .null | .malformed => none

def renderVersion (revision : Nat) : String :=
  String.ofList (Text.ofInt revision)

structure PodCondition where
  type : String
  status : String
  reason : Option String
  message : Option String
  lastTransitionTime : Option Int
  deriving DecidableEq

/-- An object: what decides about its removal, what a binding reads and
writes, and the rest of its status and of itself. -/
structure Doc (Rest : Type) where
  version : Version
  head : Deletion.Object
  schedulingGates : List String
  labels : SortedMap String String
  annotations : SortedMap String String
  conditions : List PodCondition
  status : Rest
  rest : Rest

/-- A stored object, and the key it is encrypted under. -/
structure Stored (Rest : Type) where
  doc : Doc Rest
  key : Nat

section
variable {Rest : Type}

def Doc.withVersion (doc : Doc Rest) (revision : Nat) : Doc Rest :=
  { doc with version := .text (renderVersion revision) }

/-- The document with the status of another. -/
def Doc.withStatus (doc other : Doc Rest) : Doc Rest :=
  { doc with
    head := { doc.head with phase := other.head.phase }
    conditions := other.conditions
    status := other.status }

/-! ## Requests -/

inductive PatchKind where
  | json | merge | strategicMerge
  deriving DecidableEq

/-- A patch document.  A merge patch says at most one thing of the version; a
JSON Patch may do anything to it. -/
structure Patch (Rest : Type) where
  kind : PatchKind
  version : Version
  body : Doc Rest -> Except String (Doc Rest)

/-- What the merge of an apply configuration gives. -/
inductive Applied (Rest : Type) where
  | noOp
  | conflict
  | invalid (violations : List String)
  | object (doc : Doc Rest)

structure Configuration (Rest : Type) where
  version : Version
  merge : Option (Doc Rest) -> Applied Rest

inductive Fields where
  | absent
  | malformed
  | entries (fields : List (String × String))

structure Binding where
  name : Option String
  inNamespace : Option String
  uid : Option String
  version : Version
  labels : Fields
  annotations : Fields
  target : Option String

structure DeletePreconditions where
  resourceVersion : Option String
  uid : Option String

inductive Request (Rest : Type) where
  | update (body : Doc Rest) (bodyNamespace : Option String) (dryRun : Bool)
  | finalize (body : Doc Rest) (dryRun : Bool)
  | updateStatus (body : Doc Rest) (dryRun : Bool)
  | patch (patch : Patch Rest) (dryRun : Bool)
  | patchStatus (patch : Patch Rest) (dryRun : Bool)
  | apply (configuration : Configuration Rest) (dryRun : Bool)
  | bind (binding : Binding)
  | delete (preconditions : Option DeletePreconditions) (gracePeriodSeconds : Option Int) (dryRun : Bool)

inductive BindConflict where
  | uidMismatch
  | resourceVersionMismatch (requested : String) (current : Nat)
  | deleting
  | alreadyBound (nodeName : String)
  | storageRetriesExhausted
  deriving DecidableEq

/-- How a request is answered. -/
inductive Answer where
  | done (dryRun : Bool)
  | conflict
  | bindConflict (conflict : BindConflict)
  | invalid (violations : List String)
  | missingResourceVersion
  | namespaceMismatch
  | notFound
  | forbidden
  | panicked
  deriving DecidableEq

/-- The key that all requests are about. -/
structure Target where
  resource : Deletion.Resource
  inNamespace : Option String
  name : String

/-- What the server makes of documents of the resource. -/
structure Strategy (Rest : Type) where
  /-- Pruning, validation, defaulting and the rules of a CRD. -/
  validate : Doc Rest -> Doc Rest -> Except (List String) (Doc Rest)
  /-- The status schema of a CRD. -/
  validateStatus : Doc Rest -> Except (List String) (Doc Rest)
  /-- What may not be changed by an update. -/
  semantics : Doc Rest -> Doc Rest -> List String

/-- What an attempt meets besides the object. -/
structure Env (Rest : Type) where
  served : Bool
  now : Int
  /-- Admission between the reading and the writing half. -/
  admitCandidate : Doc Rest -> Option (Doc Rest)
  /-- Conversion, managed fields and the schema of the storage version. -/
  store : Option (Doc Rest) -> Doc Rest -> Except (List String) (Doc Rest)
  reencrypts : Bool

/-- An answer, or the transaction to try.  A put of none removes. -/
inductive Verdict (Rest : Type) where
  | answer (answer : Answer)
  | write (value : Option (Doc Rest))

/-! ## The shared tail -/

def persistUpdate (strategy : Strategy Rest) (env : Env Rest) (managedSubresource : String) (existing object : Doc Rest)
    (dryRun : Bool) : Verdict Rest :=
  match strategy.semantics existing object with
  | violation :: more => .answer (.invalid (violation :: more))
  | [] =>
    let head :=
      { object.head with
        uid := existing.head.uid.or object.head.uid
        creationTimestamp := existing.head.creationTimestamp.or object.head.creationTimestamp }
    match env.store (some existing) { object with head := head } with
    | .error violations => .answer (.invalid violations)
    | .ok object =>
      if dryRun then .answer (.done true)
      else if (managedSubresource.isEmpty || managedSubresource == "finalize") &&
          Deletion.hasDeletionTimestamp existing.head && !Deletion.hasFinalizers object.head then .write none
      else .write (some object)

/-! ## Updates -/

/-- Only a Secret may be updated without a version. -/
def submittedVersion (resource : Deletion.Resource) (version : Version) (modRevision : Nat) : Option Int :=
  match version with
  | .absent | .null => if resource.isSecret then some (modRevision : Int) else none
  | .text s => if resource.isSecret && s == "" then some (modRevision : Int) else parseVersion s
  | .malformed => none

def update (target : Target) (strategy : Strategy Rest) (env : Env Rest) (modRevision : Nat) (existing body : Doc Rest)
    (bodyNamespace : Option String) (dryRun : Bool) : Verdict Rest :=
  let mismatch := target.inNamespace.any fun ns => bodyNamespace.any fun bodyNs => !bodyNs.isEmpty && bodyNs != ns
  if mismatch then .answer .namespaceMismatch
  else
    match submittedVersion target.resource body.version modRevision with
    | none => .answer .missingResourceVersion
    | some submitted =>
      if body.head.uid.any fun uid => !uid.isEmpty && existing.head.uid != some uid then .answer .conflict
      else if submitted ≠ modRevision then .answer .conflict
      else
        match strategy.validate existing body with
        | .error violations => .answer (.invalid violations)
        | .ok object => persistUpdate strategy env "" existing object dryRun

def updateFinalize (strategy : Strategy Rest) (env : Env Rest) (modRevision : Nat) (existing body : Doc Rest)
    (dryRun : Bool) : Verdict Rest :=
  match body.version.read with
  | none => .answer .missingResourceVersion
  | some submitted =>
    if submitted ≠ modRevision then .answer .conflict
    else persistUpdate strategy env "finalize" existing (body.withStatus existing) dryRun

def updateStatus (strategy : Strategy Rest) (env : Env Rest) (modRevision : Nat) (existing body : Doc Rest)
    (dryRun : Bool) : Verdict Rest :=
  match body.version.read with
  | none => .answer .missingResourceVersion
  | some submitted =>
    if submitted ≠ modRevision then .answer .conflict
    else
      match strategy.validateStatus (existing.withStatus body) with
      | .error violations => .answer (.invalid violations)
      | .ok object => persistUpdate strategy env "status" existing object dryRun

/-! ## Patches -/

/-- The patched document.  The version of the row is stamped first. -/
def applyPatch (patch : Patch Rest) (existing : Doc Rest) (modRevision : Nat) : Except String (Doc Rest) :=
  let stamped := existing.withVersion modRevision
  match patch.body stamped with
  | .error message => .error message
  | .ok patched =>
    match patch.kind, patch.version with
    | .json, _ => .ok patched
    | _, .absent => .ok { patched with version := stamped.version }
    | _, .null => .ok { patched with version := .absent }
    | _, version => .ok { patched with version := version }

/-- An explicit version is a precondition of the candidate. -/
def patchPersist (strategy : Strategy Rest) (env : Env Rest) (modRevision : Nat) (existing candidate : Doc Rest)
    (dryRun : Bool) : Verdict Rest :=
  let precondition :=
    match candidate.version with
    | .absent | .null => true
    | version => version.read == some (modRevision : Int)
  if !precondition then .answer .conflict
  else
    match strategy.validate existing candidate with
    | .error violations => .answer (.invalid violations)
    | .ok object => persistUpdate strategy env "" existing object dryRun

def patchStandard (strategy : Strategy Rest) (env : Env Rest) (modRevision : Nat) (existing : Doc Rest)
    (patch : Patch Rest) (dryRun : Bool) : Verdict Rest :=
  match applyPatch patch existing modRevision with
  | .error message => .answer (.invalid [message])
  | .ok candidate =>
    match env.admitCandidate candidate with
    | none => .answer .forbidden
    | some candidate => patchPersist strategy env modRevision existing candidate dryRun

/-- Only the version that the patch document itself has is a precondition. -/
def patchStatus (strategy : Strategy Rest) (env : Env Rest) (modRevision : Nat) (existing : Doc Rest)
    (patch : Patch Rest) (dryRun : Bool) : Verdict Rest :=
  match applyPatch patch existing modRevision with
  | .error message => .answer (.invalid [message])
  | .ok patched =>
    let precondition := patch.kind == .json || patch.version == .absent || patch.version.read == some (modRevision : Int)
    if !precondition then .answer .conflict
    else
      match strategy.validateStatus ((existing.withVersion modRevision).withStatus patched) with
      | .error violations => .answer (.invalid violations)
      | .ok object => persistUpdate strategy env "status" existing object dryRun

/-! ## Server-side apply -/

/-- The tail of an apply does not expect to be refused. -/
def Verdict.expected : Verdict Rest -> Verdict Rest
  | .answer (.invalid _) => .answer .panicked
  | verdict => verdict

def serverSideApply (strategy : Strategy Rest) (env : Env Rest) (existing : Option (Doc Rest))
    (configuration : Configuration Rest) (dryRun : Bool) : Verdict Rest :=
  match configuration.merge existing with
  | .noOp => .answer (.done dryRun)
  | .conflict => .answer .conflict
  | .invalid violations => .answer (.invalid violations)
  | .object candidate =>
    match env.admitCandidate candidate with
    | none => .answer .forbidden
    | some candidate =>
      match existing with
      | some existing => (persistUpdate strategy env "" existing candidate dryRun).expected
      | none =>
        match env.store none candidate with
        | .error violations => .answer (.invalid violations)
        | .ok object => if dryRun then .answer (.done true) else .write (some object)

/-! ## Binding a Pod -/

def bindingResourceVersion (binding : Binding) : Option String :=
  match binding.version with
  | .text s => if s.isEmpty then none else some s
  | .absent | .null | .malformed => none

def nameViolations (target : Target) (binding : Binding) : List String :=
  let mustBe := s!"metadata.name: must be {target.name}"
  (if binding.name.any fun name => name != target.name then [mustBe] else []) ++
    if binding.inNamespace.any fun ns => !ns.isEmpty && some ns != target.inNamespace then
      ["metadata.namespace: does not match the request URL"]
    else []

/-- The fields of a binding go over those of the Pod. -/
def mergeFields (field : String) (destination : SortedMap String String) : Fields ->
    Except (List String) (SortedMap String String)
  | .absent => .ok destination
  | .malformed => .error [s!"metadata.{field} must be an object"]
  | .entries fields => .ok (fields.foldl (fun map entry => map.insert entry.1 entry.2) destination)

def markScheduled (message : String) (now : Int) : List PodCondition -> List PodCondition
  | [] => [{ type := "PodScheduled", status := "True", reason := some "Scheduled", message := some message,
             lastTransitionTime := some now }]
  | condition :: rest =>
    if condition.type = "PodScheduled" then
      { condition with status := "True", reason := some "Scheduled", message := some message,
                       lastTransitionTime := some now } :: rest
    else condition :: markScheduled message now rest

/-- The Pod with the node, and with the labels and annotations of the
binding. -/
def boundPod (target : Target) (existing : Doc Rest) (binding : Binding) (nodeName : String) (now : Int) :
    Except (List String) (Doc Rest) :=
  match mergeFields "annotations" existing.annotations binding.annotations with
  | .error violations => .error violations
  | .ok annotations =>
    match mergeFields "labels" existing.labels binding.labels with
    | .error violations => .error violations
    | .ok labels =>
      let inNamespace := target.inNamespace.getD ""
      let message := s!"Successfully assigned {inNamespace}/{target.name} to {nodeName}"
      .ok
        { existing with
          annotations := annotations
          labels := labels
          head := { existing.head with nodeName := some nodeName }
          conditions := markScheduled message now existing.conditions }

def bindPodOnce (target : Target) (strategy : Strategy Rest) (env : Env Rest) (modRevision : Nat) (existing : Doc Rest)
    (binding : Binding) : Verdict Rest :=
  let violations := nameViolations target binding
  match binding.target.filter fun name => !name.isEmpty with
  | none => .answer (.invalid (violations ++ ["target.name: Required value"]))
  | some nodeName =>
    if binding.uid.any fun uid => existing.head.uid != some uid then .answer (.bindConflict .uidMismatch)
    else
      let stale := (bindingResourceVersion binding).filter fun version => parseVersion version != some (modRevision : Int)
      match stale with
      | some requested => .answer (.bindConflict (.resourceVersionMismatch requested modRevision))
      | none =>
        if Deletion.hasDeletionTimestamp existing.head then .answer (.bindConflict .deleting)
        else if Deletion.podIsAssigned existing.head then
          .answer (.bindConflict (.alreadyBound (existing.head.nodeName.getD "")))
        else
          let gated := if existing.schedulingGates.isEmpty then [] else ["spec.schedulingGates: Pod has scheduling gates"]
          match violations ++ gated with
          | violation :: more => .answer (.invalid (violation :: more))
          | [] =>
            match boundPod target existing binding nodeName env.now with
            | .error violations => .answer (.invalid violations)
            | .ok object => persistUpdate strategy env "" existing object false

/-! ## Deleting -/

def DeletePreconditions.hold (preconditions : DeletePreconditions) (modRevision : Nat) (object : Deletion.Object) : Bool :=
  preconditions.resourceVersion.all (fun version => parseVersion version == some (modRevision : Int)) &&
    preconditions.uid.all fun uid => object.uid == some uid

def deleteOnce (resource : Deletion.Resource) (modRevision : Nat) (existing : Doc Rest)
    (preconditions : Option DeletePreconditions) (gracePeriodSeconds : Option Int) (dryRun : Bool) (now : Int) :
    Verdict Rest :=
  if !preconditions.all fun p => p.hold modRevision existing.head then .answer .conflict
  else if Deletion.deferDelete resource existing.head gracePeriodSeconds then
    if Deletion.hasDeletionTimestamp existing.head || dryRun then .answer (.done dryRun)
    else
      .write (some
        { existing.withVersion modRevision with head := Deletion.marked resource existing.head gracePeriodSeconds now })
  else if dryRun then .answer (.done true)
  else .write none

/-! ## One attempt -/

/-- What a request makes of what it read. -/
def attempt (target : Target) (strategy : Strategy Rest) (env : Env Rest) (found : Option (Doc Rest)) (modRevision : Nat)
    (request : Request Rest) : Verdict Rest :=
  if !env.served then .answer .notFound
  else
    match request, found with
    | .apply configuration dryRun, found => serverSideApply strategy env found configuration dryRun
    | _, none => .answer .notFound
    | .update body bodyNamespace dryRun, some existing =>
      update target strategy env modRevision existing body bodyNamespace dryRun
    | .finalize body dryRun, some existing => updateFinalize strategy env modRevision existing body dryRun
    | .updateStatus body dryRun, some existing => updateStatus strategy env modRevision existing body dryRun
    | .patch patch dryRun, some existing => patchStandard strategy env modRevision existing patch dryRun
    | .patchStatus patch dryRun, some existing => patchStatus strategy env modRevision existing patch dryRun
    | .bind binding, some existing => bindPodOnce target strategy env modRevision existing binding
    | .delete preconditions gracePeriodSeconds dryRun, some existing =>
      deleteOnce target.resource modRevision existing preconditions gracePeriodSeconds dryRun env.now

/-- How often a request may lose the race and start over. -/
def Request.retries : Request Rest -> Nat
  | .patch document _ | .patchStatus document _ => if document.kind ≠ .json ∧ document.version = .absent then 7 else 0
  | .bind _ => 7
  | .delete preconditions _ dryRun =>
    if !dryRun && preconditions.all fun p => p.resourceVersion.isNone then 8 else 0
  | .update _ _ _ | .finalize _ _ | .updateStatus _ _ | .apply _ _ => 0

end
end Writes
end NotK8s.Apiserver

import NotK8s.Library.SortedMap
import NotK8s.Patch.TypedMerge

namespace NotK8s.Patch

open Library

/-!
# Server-side apply for built-in types

An apply merges the configuration into the live object, takes out what the
manager applied last time and no longer does, and compares the result with
the live object.  The change is refused when another manager owns a path it
modifies or adds, unless the apply is forced.
-/

abbrev Managers := SortedMap String FieldSet

structure Conflict where
  manager : String
  fields : FieldSet

structure Applied where
  object : Option Value
  managers : Managers

variable (api : OpenApi) (schema : String)

section Update

def compareIgnoring (old new : Value) (ignored : Option FieldSet) : Comparison :=
  match ignored with
  | some fields => (compare api schema old new).excludeFields fields
  | none => compare api schema old new

def conflictsWith (changed : FieldSet) (managers : Managers) : List Conflict :=
  managers.entries.filterMap fun entry =>
    ((entry.2.intersection changed).nonempty).map fun fields => ⟨entry.1, fields⟩

def giveUp (managers : Managers) (conflict : Conflict) : Managers :=
  match managers.get conflict.manager with
  | some fields => managers.insert conflict.manager (fields.difference conflict.fields)
  | none => managers

def reconcile (managers : Managers) (conflicts : List Conflict) (removed : FieldSet) : Managers :=
  let kept := conflicts.foldl giveUp managers
  (if removed.isEmpty then kept else kept.mapValues fun fields => fields.difference removed).filter
    fun _ fields => !fields.isEmpty

/-- `managers` is without the manager who writes. -/
def updateWithIgnoredFields (old new : Value) (managers : Managers) (force : Bool)
    (ignored : Option FieldSet) : Except (List Conflict) (Managers × Comparison) :=
  let cmp := compareIgnoring api schema old new ignored
  let conflicts := conflictsWith (cmp.modified.union cmp.added) managers
  if !force && !conflicts.isEmpty then .error conflicts
  else .ok (reconcile managers conflicts cmp.removed, cmp)

end Update

section Prune

def managedBy (managers : Managers) : FieldSet :=
  managers.entries.foldl (fun managed entry => managed.union entry.2) PathTree.empty

def namedSetFromObject (v : Value) : FieldSet :=
  ensureNamedFieldsAreMembers api schema (setFromObject api schema v)

def addBackOwnedItems (merged pruned : Value) (managers : Managers) : Value :=
  let managedNamed := ensureNamedFieldsAreMembers api schema (managedBy managers)
  let toRemove := (namedSetFromObject api schema merged).difference
    ((namedSetFromObject api schema pruned).union managedNamed)
  removeItems api schema toRemove merged

def addBackDanglingItems (merged pruned : Value) (lastSet : FieldSet) : Value :=
  let lastNamed := ensureNamedFieldsAreMembers api schema lastSet
  let toRemove := ((namedSetFromObject api schema merged).difference
    (namedSetFromObject api schema pruned)).intersection lastNamed
  removeItems api schema toRemove merged

/-- `managers` has the new set of the manager who applies. -/
def prune (merged : Value) (managers : Managers) (lastSet : Option FieldSet) : Value :=
  match lastSet with
  | none => merged
  | some last =>
    if last.isEmpty then merged
    else
      let pruned := removeItems api schema (ensureNamedFieldsAreMembers api schema last) merged
      let owned := addBackOwnedItems api schema merged pruned managers
      addBackDanglingItems api schema merged owned last

end Prune

section Apply

def newSet (config : Value) (ignored : Option FieldSet) : FieldSet :=
  match ignored with
  | some fields => (setFromObject api schema config).recursiveDifference fields
  | none => setFromObject api schema config

def applyWithIgnoredFields (live config : Value) (managers : Managers) (manager : String)
    (force : Bool) (ignored : Option FieldSet) : Except (List Conflict) Applied :=
  let merged := merge api schema live config
  let lastSet := managers.get manager
  let managers := managers.insert manager (newSet api schema config ignored)
  let pruned := prune api schema merged managers lastSet
  let others := managers.filter fun name _ => name ≠ manager
  match updateWithIgnoredFields api schema live pruned others force ignored with
  | .error conflicts => .error conflicts
  | .ok (result, _) =>
    let result := match managers.get manager with
      | some fields => result.insert manager fields
      | none => result
    .ok {
      object := if pruned = live then none else some pruned
      managers := result }

def apply (live config : Value) (managers : Managers) (manager : String) (force : Bool) :
    Except (List Conflict) Applied :=
  applyWithIgnoredFields api schema live config managers manager force none

end Apply

section ApplyUpdate

/-- `managers` includes the manager who writes.  A forced update never conflicts;
`none` would be the panic on one. -/
def applyUpdateWithIgnoredFields (live new : Value) (managers : Managers) (manager : String)
    (ignored : Option FieldSet) : Option Managers :=
  let others := managers.filter fun name _ => name ≠ manager
  match updateWithIgnoredFields api schema live new others true ignored with
  | .error _ => none
  | .ok (result, cmp) =>
    let existing := (managers.get manager).getD PathTree.empty
    let set := ((existing.difference cmp.removed).union cmp.modified).union cmp.added
    let set := match ignored with
      | some fields => set.recursiveDifference fields
      | none => set
    some (if set.isEmpty then result.erase manager else result.insert manager set)

def applyUpdate (live new : Value) (managers : Managers) (manager : String) : Option Managers :=
  applyUpdateWithIgnoredFields api schema live new managers manager none

end ApplyUpdate

end NotK8s.Patch

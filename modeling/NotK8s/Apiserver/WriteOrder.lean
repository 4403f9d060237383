import NotK8s.Apiserver.WriteRuns

namespace NotK8s.Apiserver
namespace Writes

open Library

/-!
# Writes one at a time

What a request decides depends on what it read alone, and its transaction
compares the version it read, so each write is the one the request would have
made with nobody else about.
-/

section
variable {Rest : Type}

/-- A verdict with which a request has succeeded, or will if it wins the
race. -/
def Verdict.Succeeds : Verdict Rest -> Prop
  | .answer a => a.isDone = true
  | .write _ => True

/-! ## Versions that requests carry -/

section
variable {version : Version} {carried : String}

theorem carried_eq (carries : version.carried = some carried) : version = .text carried ∧ carried ≠ "" := by
  cases version with
  | absent => cases carries
  | null => cases carries
  | malformed => cases carries
  | text s =>
    rw [Version.carried, Option.ite_none_left_eq_some, Option.some.injEq] at carries
    rcases carries with ⟨filled, rfl⟩
    exact ⟨rfl, filled⟩

theorem submittedVersion_carried (resource : Deletion.Resource) (modRevision : Nat)
    (carries : version.carried = some carried) :
    submittedVersion resource version modRevision = parseVersion carried := by
  rcases carried_eq carries with ⟨rfl, filled⟩
  simp [submittedVersion, filled]

theorem read_carried (carries : version.carried = some carried) : version.read = parseVersion carried := by
  rw [(carried_eq carries).1]
  rfl

end

section
variable {target : Target} {strategy : Strategy Rest} {env : Env Rest} {modRevision : Nat} {existing : Doc Rest}
  {carried : String}

theorem update_current {body : Doc Rest} {bodyNamespace : Option String} {dryRun : Bool}
    (succeeds : (update target strategy env modRevision existing body bodyNamespace dryRun).Succeeds)
    (carries : body.version.carried = some carried) : parseVersion carried = some (modRevision : Int) := by
  unfold update at succeeds
  rw [submittedVersion_carried target.resource modRevision carries] at succeeds
  cases parsed : parseVersion carried with
  | none =>
    simp only [parsed] at succeeds
    split at succeeds <;> cases succeeds
  | some submitted =>
    by_contra other
    have different : submitted ≠ modRevision := fun equal => other (by rw [equal])
    simp only [parsed, different, ne_eq, not_false_eq_true, if_true] at succeeds
    split at succeeds
    · cases succeeds
    · split at succeeds <;> cases succeeds

/-- A write that reads the version first and goes on only with that of the row. -/
theorem guarded_current {body : Doc Rest} {rest : Verdict Rest}
    (succeeds : (match body.version.read with
      | none => .answer .missingResourceVersion
      | some submitted => if submitted ≠ modRevision then .answer .conflict else rest : Verdict Rest).Succeeds)
    (carries : body.version.carried = some carried) : parseVersion carried = some (modRevision : Int) := by
  rw [read_carried carries] at succeeds
  cases parsed : parseVersion carried with
  | none =>
    rw [parsed] at succeeds
    cases succeeds
  | some submitted =>
    by_contra other
    have different : submitted ≠ modRevision := fun equal => other (by rw [equal])
    simp only [parsed, different, ne_eq, not_false_eq_true, if_true] at succeeds
    cases succeeds

theorem version_applyPatch {patch : Patch Rest} {candidate : Doc Rest}
    (applied : applyPatch patch existing modRevision = .ok candidate)
    (carries : patch.carried (some existing) modRevision = some carried) :
    candidate.version = .text carried ∧ (patch.kind ≠ .json -> patch.version = .text carried) := by
  unfold Patch.carried at carries
  cases kind : patch.kind with
  | json =>
    simp only [kind, applied, Option.ite_none_left_eq_some] at carries
    exact ⟨(carried_eq carries.2).1, fun structured => absurd rfl structured⟩
  | merge | strategicMerge =>
    simp only [kind] at carries
    have isText := (carried_eq carries).1
    unfold applyPatch at applied
    cases body : patch.body (existing.withVersion modRevision) with
    | error message => simp [body] at applied
    | ok patched =>
      simp only [body, kind, isText, Except.ok.injEq] at applied
      exact ⟨by rw [<- applied], fun _ => isText⟩

/-- A patch's version is checked after admission, which leaves it alone. -/
theorem patchStandard_current {patch : Patch Rest} {dryRun : Bool}
    (leaves : forall doc admitted, env.admitCandidate doc = some admitted -> admitted.version = doc.version)
    (succeeds : (patchStandard strategy env modRevision existing patch dryRun).Succeeds)
    (carries : patch.carried (some existing) modRevision = some carried) :
    parseVersion carried = some (modRevision : Int) := by
  unfold patchStandard at succeeds
  cases applied : applyPatch patch existing modRevision with
  | error message =>
    simp only [applied] at succeeds
    cases succeeds
  | ok candidate =>
    simp only [applied] at succeeds
    cases admitted : env.admitCandidate candidate with
    | none =>
      simp only [admitted] at succeeds
      cases succeeds
    | some final =>
      simp only [admitted] at succeeds
      unfold patchPersist at succeeds
      rw [leaves candidate final admitted, (version_applyPatch applied carries).1] at succeeds
      by_contra other
      have refused : (parseVersion carried == some (modRevision : Int)) = false := by simpa using other
      simp only [Version.read, refused, Bool.not_false, if_true] at succeeds
      cases succeeds

theorem patchStatus_current {patch : Patch Rest} {dryRun : Bool} (structured : patch.kind ≠ .json)
    (succeeds : (patchStatus strategy env modRevision existing patch dryRun).Succeeds)
    (carries : patch.carried (some existing) modRevision = some carried) :
    parseVersion carried = some (modRevision : Int) := by
  unfold patchStatus at succeeds
  cases applied : applyPatch patch existing modRevision with
  | error message =>
    simp only [applied] at succeeds
    cases succeeds
  | ok candidate =>
    simp only [applied] at succeeds
    have isText := (version_applyPatch applied carries).2 structured
    by_contra other
    simp [isText, Version.read, structured, other, Verdict.Succeeds, Answer.isDone] at succeeds

theorem bind_succeeds {binding : Binding}
    (succeeds : (bindPodOnce target strategy env modRevision existing binding).Succeeds) :
    ((bindingResourceVersion binding).filter fun version => parseVersion version != some (modRevision : Int)) = none ∧
      Deletion.podIsAssigned existing.head = false := by
  unfold bindPodOnce at succeeds
  cases named : binding.target.filter fun name => !name.isEmpty with
  | none =>
    simp only [named] at succeeds
    cases succeeds
  | some nodeName =>
    simp only [named] at succeeds
    split at succeeds
    · cases succeeds
    · cases stale : (bindingResourceVersion binding).filter fun version =>
          parseVersion version != some (modRevision : Int) with
      | some requested =>
        simp only [stale] at succeeds
        cases succeeds
      | none =>
        simp only [stale] at succeeds
        split at succeeds
        · cases succeeds
        · split at succeeds
          · cases succeeds
          · rename_i unassigned
            exact ⟨rfl, Bool.eq_false_iff.mpr unassigned⟩

theorem bind_current {binding : Binding}
    (succeeds : (bindPodOnce target strategy env modRevision existing binding).Succeeds)
    (carries : binding.version.carried = some carried) : parseVersion carried = some (modRevision : Int) := by
  rcases carried_eq carries with ⟨isText, filled⟩
  have fresh := (bind_succeeds succeeds).1
  simpa [bindingResourceVersion, isText, filled] using fresh

theorem delete_current {resource : Deletion.Resource} {preconditions : Option DeletePreconditions}
    {gracePeriodSeconds : Option Int} {dryRun : Bool} {now : Int}
    (succeeds : (deleteOnce resource modRevision existing preconditions gracePeriodSeconds dryRun now).Succeeds)
    (carries : (preconditions.bind DeletePreconditions.resourceVersion).filter (fun s => s ≠ "") = some carried) :
    parseVersion carried = some (modRevision : Int) := by
  have given := (Option.filter_eq_some_iff.mp carries).1
  rcases Option.bind_eq_some_iff.mp given with ⟨p, rfl, isVersion⟩
  by_contra other
  have refused : p.hold modRevision existing.head = false := by
    simp [DeletePreconditions.hold, isVersion, other]
  unfold deleteOnce at succeeds
  simp only [Option.all_some, refused, Bool.not_false, if_true] at succeeds
  cases succeeds

end

/-! ## What an attempt has found -/

/-- The requests whose version nothing looks at. -/
def Request.unchecked : Request Rest -> Bool
  | .apply _ _ => true
  | .patchStatus document _ => document.kind == .json
  | .update _ _ _ | .finalize _ _ | .updateStatus _ _ | .patch _ _ | .bind _ | .delete _ _ _ => false

section
variable {target : Target} {strategy : Strategy Rest} {env : Env Rest} {found : Option (Doc Rest)} {modRevision : Nat}
  {request : Request Rest}

/-- A request that succeeds on what it found carries no other version, if
somebody looks. -/
theorem attempt_current (checked : request.unchecked = false)
    (leaves : forall doc admitted, env.admitCandidate doc = some admitted -> admitted.version = doc.version)
    (succeeds : (attempt target strategy env found modRevision request).Succeeds) {carried : String}
    (carries : request.carried found modRevision = some carried) : parseVersion carried = some (modRevision : Int) := by
  unfold attempt at succeeds
  split at succeeds
  · cases succeeds
  · cases found with
    | none =>
      cases request with
      | apply configuration dryRun => cases checked
      | update body bodyNamespace dryRun | finalize body dryRun | updateStatus body dryRun => cases succeeds
      | patch document dryRun | patchStatus document dryRun | bind binding => cases succeeds
      | delete preconditions gracePeriodSeconds dryRun => cases succeeds
    | some existing =>
      cases request with
      | apply configuration dryRun => cases checked
      | update body bodyNamespace dryRun => exact update_current succeeds carries
      | finalize body dryRun => exact guarded_current succeeds carries
      | updateStatus body dryRun => exact guarded_current succeeds carries
      | patch document dryRun => exact patchStandard_current leaves succeeds carries
      | patchStatus document dryRun =>
        have structured : document.kind ≠ .json := by simpa [Request.unchecked] using checked
        exact patchStatus_current structured succeeds carries
      | bind binding => exact bind_current succeeds carries
      | delete preconditions gracePeriodSeconds dryRun => exact delete_current succeeds carries

theorem attempt_unassigned {value : Option (Doc Rest)} {existing : Doc Rest} (isBind : request.isBind = true)
    (writes : attempt target strategy env (some existing) modRevision request = .write value) :
    Deletion.podIsAssigned existing.head = false := by
  cases request with
  | bind binding =>
    unfold attempt at writes
    split at writes
    · cases writes
    · have bound : bindPodOnce target strategy env modRevision existing binding = .write value := writes
      have succeeds : (bindPodOnce target strategy env modRevision existing binding).Succeeds := by
        rw [bound]
        exact True.intro
      exact (bind_succeeds succeeds).2
  | update body bodyNamespace dryRun => cases isBind
  | finalize body dryRun => cases isBind
  | updateStatus body dryRun => cases isBind
  | patch document dryRun => cases isBind
  | patchStatus document dryRun => cases isBind
  | apply configuration dryRun => cases isBind
  | delete preconditions gracePeriodSeconds dryRun => cases isBind

end

/-! ## A request by itself -/

section
variable {target : Target} {strategy : Strategy Rest} {env : Env Rest} {request : Request Rest}
  {cell : Cell (Stored Rest)} {key : Nat} {value : Option (Doc Rest)}

theorem rotation_eq_none {w : World Rest} {seen : Cell (Stored Rest)}
    (fresh : request.rotates = true -> forall stored, seen.value = some stored -> stored.key = w.key) :
    w.rotation request env seen = none := by
  unfold World.rotation
  cases isValue : seen.value with
  | none => rfl
  | some stored =>
    cases rotates : request.rotates with
    | false => simp
    | true => simp [fresh rotates stored isValue]

theorem alone_eq
    (fresh : request.rotates = true -> forall stored, cell.value = some stored -> stored.key = key)
    (writes : attempt target strategy env (cell.value.map Stored.doc) cell.version request = .write value) :
    alone target strategy cell key request env =
      { cell := cell.write (value.map fun doc => ⟨doc, key⟩)
        key := key
        processes := [⟨request, request.retries, .answered cell (.done false), true⟩]
        log := [.request request env key cell.clock] } := by
  have kept : forall (processes : List (Process Rest)) (log : List (Event Rest)),
      (World.mk cell key processes log).rotation request env cell = none :=
    fun processes log => rotation_eq_none fresh
  simp only [alone, run_cons, run_nil, World.act, List.nil_append, List.getElem?_cons_zero, List.set_cons_zero,
    World.decideStep, kept, writes, Process.afterVerdict, World.commitStep, if_true]

end

/-! ## Replaying -/

section
variable {target : Target} {strategy : Strategy Rest}

theorem Replays.concat {start cell last : Cell (Stored Rest)} {log : List (Event Rest)} {event : Event Rest}
    (replays : Replays target strategy start log cell)
    (next : forall middle, middle.value = cell.value -> middle.version = cell.version ->
      Replays target strategy middle [event] last) :
    Replays target strategy start (log ++ [event]) last := by
  induction log generalizing start with
  | nil => exact next start replays.1 replays.2
  | cons first rest ih => exact ⟨replays.1, ih replays.2⟩

theorem Replays.tick {start cell : Cell (Stored Rest)} {log : List (Event Rest)}
    (replays : Replays target strategy start log cell) : Replays target strategy start log cell.tick := by
  induction log generalizing start with
  | nil => exact replays
  | cons first rest ih => exact ⟨replays.1, ih replays.2⟩

theorem atClock_eq {middle cell : Cell (Stored Rest)} (value : middle.value = cell.value)
    (version : middle.version = cell.version) : middle.atClock cell.clock = cell := by
  cases cell
  cases middle
  cases value
  cases version
  rfl

theorem Replays.outside {start cell : Cell (Stored Rest)} {log : List (Event Rest)}
    (replays : Replays target strategy start log cell) (value : Option (Stored Rest)) :
    Replays target strategy start (log ++ [.outside value cell.clock]) (cell.write value) := by
  apply replays.concat
  intro middle sameValue sameVersion
  refine ⟨True.intro, ?_⟩
  rw [Event.outcome, atClock_eq sameValue sameVersion]
  exact ⟨rfl, rfl⟩

theorem Replays.request {start cell : Cell (Stored Rest)} {log : List (Event Rest)} {request : Request Rest}
    {env : Env Rest} {key : Nat} {value : Option (Doc Rest)}
    (replays : Replays target strategy start log cell)
    (fresh : request.rotates = true -> forall stored, cell.value = some stored -> stored.key = key)
    (writes : attempt target strategy env (cell.value.map Stored.doc) cell.version request = .write value)
    (current : request.Current cell) :
    Replays target strategy start (log ++ [.request request env key cell.clock])
      (cell.write (value.map fun doc => ⟨doc, key⟩)) := by
  apply replays.concat
  intro middle sameValue sameVersion
  have same := atClock_eq sameValue sameVersion
  refine ⟨⟨?_, ?_, ?_⟩, ?_⟩
  · rw [same, alone_eq fresh writes]
    exact ⟨cell, rfl⟩
  · unfold Request.Current
    rw [sameValue, sameVersion]
    exact current
  · intro isBind stored isStored
    rw [<- sameValue, isStored] at writes
    exact attempt_unassigned isBind writes
  · rw [Event.outcome, same, alone_eq fresh writes]
    exact ⟨rfl, rfl⟩

end

end
end Writes
end NotK8s.Apiserver

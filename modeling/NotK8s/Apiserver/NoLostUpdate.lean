import NotK8s.Apiserver.WriteOrder

namespace NotK8s.Apiserver
namespace Writes

open Library

/-!
# No update is lost

In any interleaving the key takes the values that the requests that wrote it
would have given it one after another.  The rest of what is promised holds
where every version that a request carries is looked at, and where no read has
to write.
-/

section
variable {Rest : Type} (target : Target) (strategy : Strategy Rest)

/-- What a request that goes on from here may find. -/
structure Met (w : World Rest) (p : Process Rest) (seen : Cell (Stored Rest)) (env : Env Rest) : Prop where
  /-- Admission leaves the version of a document alone. -/
  leaves : forall doc admitted, env.admitCandidate doc = some admitted -> admitted.version = doc.version
  /-- A version that nothing looks at is the current one. -/
  unchecked : p.request.unchecked = true -> p.request.Current seen
  /-- What was read is encrypted under the present key. -/
  fresh : p.request.rotates = true -> forall stored, seen.value = some stored -> stored.key = w.key

def StepMet (w : World Rest) : Step Rest -> Prop
  | .decide index env =>
    forall (p : Process Rest) (seen : Cell (Stored Rest)), w.processes[index]? = some p -> p.phase = .found seen ->
      Met w p seen env
  | .submit _ | .read _ | .commit _ | .rotateKey _ | .outside _ | .elsewhere => True

/-- What holds of a request at every stage. -/
structure Fits (cell : Cell (Stored Rest)) (p : Process Rest) : Prop where
  wrote : p.wrote = true -> Exists fun seen => p.phase = .answered seen (.done false)
  found : forall seen, p.phase = .found seen -> seen.Seen cell
  writing : forall seen env value key, p.phase = .writing seen env value key ->
    seen.Seen cell ∧ attempt target strategy env (seen.value.map Stored.doc) seen.version p.request = .write value ∧
      (p.request.rotates = true -> forall stored, seen.value = some stored -> stored.key = key) ∧
      p.request.Current seen
  answered : forall seen answer, p.phase = .answered seen answer -> answer.isDone = true -> p.request.Current seen

structure Inv (w : World Rest) : Prop where
  valid : w.cell.Valid
  replays : Replays target strategy (World.new : World Rest).cell w.log w.cell
  fits : forall p, p ∈ w.processes -> Fits target strategy w.cell p

variable {target strategy} {w : World Rest} {cell next : Cell (Stored Rest)} {p : Process Rest}

theorem Fits.later (fits : Fits target strategy cell p)
    (seen : forall s : Cell (Stored Rest), s.Seen cell -> s.Seen next) : Fits target strategy next p where
  wrote := fits.wrote
  found := fun s phase => seen s (fits.found s phase)
  writing := fun s env value key phase =>
    ⟨seen s (fits.writing s env value key phase).1, (fits.writing s env value key phase).2⟩
  answered := fits.answered

theorem Inv.new : Inv target strategy World.new where
  valid := ⟨iff_of_true rfl rfl, Nat.zero_le _⟩
  replays := ⟨rfl, rfl⟩
  fits := fun _ member => nomatch member

theorem Inv.set (inv : Inv target strategy w) (index : Nat) {q : Process Rest}
    (fits : Fits target strategy w.cell q) :
    Inv target strategy { w with processes := w.processes.set index q } where
  valid := inv.valid
  replays := inv.replays
  fits := by
    intro other member
    rcases List.mem_or_eq_of_mem_set member with before | rfl
    · exact inv.fits other before
    · exact fits

theorem Inv.unfinished {index : Nat} (inv : Inv target strategy w)
    (here : w.processes[index]? = some p) (open_ : forall s, p.phase ≠ .answered s (.done false)) :
    p.wrote = false := by
  apply Bool.eq_false_iff.mpr
  intro wrote
  rcases (inv.fits p (List.mem_of_getElem? here)).wrote wrote with ⟨s, phase⟩
  exact open_ s phase

theorem Fits.ready {request : Request Rest} {retries : Nat} :
    Fits target strategy cell ⟨request, retries, .ready, false⟩ where
  wrote := fun impossible => nomatch impossible
  found := fun _ impossible => nomatch impossible
  writing := fun _ _ _ _ impossible => nomatch impossible
  answered := fun _ _ impossible => nomatch impossible

theorem Fits.refused {request : Request Rest} {retries : Nat} {seen : Cell (Stored Rest)} {answer : Answer}
    (current : answer.isDone = true -> request.Current seen) :
    Fits target strategy cell ⟨request, retries, .answered seen answer, false⟩ where
  wrote := nofun
  found := fun _ impossible => nomatch impossible
  writing := fun _ _ _ _ impossible => nomatch impossible
  answered := by
    intro s other phase isDone
    cases phase
    exact current isDone

section

variable (inv : Inv target strategy w)
include inv

theorem Inv.submit (request : Request Rest) :
    Inv target strategy (w.act target strategy (.submit request)) where
  valid := inv.valid
  replays := inv.replays
  fits := by
    intro q member
    rcases List.mem_append.mp member with before | new
    · exact inv.fits q before
    · rw [List.mem_singleton.mp new]
      exact Fits.ready

theorem Inv.decide {index : Nat} {env : Env Rest} {seen : Cell (Stored Rest)}
    (here : w.processes[index]? = some p) (phase : p.phase = .found seen) (met : Met w p seen env) :
    Inv target strategy (w.decideStep target strategy index p seen env) := by
  have fits := inv.fits p (List.mem_of_getElem? here)
  have wrote := inv.unfinished here (by rw [phase]; exact fun s impossible => by cases impossible)
  rcases p with ⟨request, retries, _, _⟩
  cases wrote
  cases phase
  have current : (attempt target strategy env (seen.value.map Stored.doc) seen.version request).Succeeds ->
      request.Current seen := by
    intro succeeds carried carries
    cases unchecked : request.unchecked with
    | true => exact met.unchecked unchecked carried carries
    | false => exact attempt_current unchecked met.leaves succeeds carries
  simp only [World.decideStep, rotation_eq_none met.fresh]
  apply inv.set
  cases verdict : attempt target strategy env (seen.value.map Stored.doc) seen.version request with
  | answer answer =>
    rw [verdict] at current
    unfold Process.afterVerdict Process.conclude
    dsimp only
    split
    · exact Fits.ready
    · exact Fits.refused current
  | write value =>
    rw [verdict] at current
    exact {
      wrote := fun impossible => by cases impossible
      found := fun _ impossible => by cases impossible
      writing := by
        intro s e v k phase
        cases phase
        exact ⟨fits.found seen rfl, verdict, met.fresh, current True.intro⟩
      answered := fun _ _ impossible => by cases impossible }

theorem Inv.commit {index : Nat} {env : Env Rest} {seen : Cell (Stored Rest)}
    {value : Option (Doc Rest)} {key : Nat} (here : w.processes[index]? = some p)
    (phase : p.phase = .writing seen env value key) :
    Inv target strategy (w.commitStep index p seen env value key) := by
  have fits := inv.fits p (List.mem_of_getElem? here)
  have wrote := inv.unfinished here (by rw [phase]; exact fun s impossible => nomatch impossible)
  rcases p with ⟨request, retries, _, _⟩
  cases wrote
  cases phase
  rcases fits.writing seen env value key rfl with ⟨wasSeen, writes, fresh, current⟩
  unfold World.commitStep
  split
  · rename_i unchanged
    -- nothing has been written since, so what was decided on is what is there
    have same := wasSeen.same unchanged
    rw [same, unchanged] at writes
    rw [same] at fresh
    have now : request.Current w.cell := by
      unfold Request.Current at current ⊢
      rw [<- same, <- unchanged]
      exact current
    exact {
      valid := Cell.valid_write _ _
      replays := inv.replays.request fresh writes now
      fits := by
        intro q member
        rcases List.mem_or_eq_of_mem_set member with before | rfl
        · exact (inv.fits q before).later fun s seen => seen.write _
        · exact {
            wrote := fun _ => ⟨seen, rfl⟩
            found := fun _ impossible => nomatch impossible
            writing := fun _ _ _ _ impossible => nomatch impossible
            answered := by
              intro s answer phase isDone
              cases phase
              exact current } }
  · apply inv.set
    unfold Process.lose
    split
    · exact Fits.ready
    · apply Fits.refused
      intro isDone
      cases request <;> cases isDone

theorem Inv.step {step : Step Rest} (met : StepMet w step) :
    Inv target strategy (w.act target strategy step) := by
  cases step with
  | submit request => exact inv.submit request
  | read index =>
    cases here : w.processes[index]? with
    | none =>
      simp only [World.act, here]
      exact inv
    | some p =>
      cases phase : p.phase with
      | ready =>
        simp only [World.act, here, phase]
        apply inv.set
        have wrote := inv.unfinished here (by rw [phase]; exact fun s impossible => by cases impossible)
        rcases p with ⟨request, retries, _, _⟩
        cases wrote
        exact {
          wrote := fun impossible => by cases impossible
          found := by
            intro s phase
            cases phase
            exact inv.valid.read
          writing := fun _ _ _ _ impossible => by cases impossible
          answered := fun _ _ impossible => by cases impossible }
      | found seen | writing seen env value key | answered seen answer =>
        simp only [World.act, here, phase]
        exact inv
  | decide index env =>
    cases here : w.processes[index]? with
    | none =>
      simp only [World.act, here]
      exact inv
    | some p =>
      cases phase : p.phase with
      | found seen =>
        simp only [World.act, here, phase]
        exact inv.decide here phase (met p seen here phase)
      | ready | writing seen env value key | answered seen answer =>
        simp only [World.act, here, phase]
        exact inv
  | commit index =>
    cases here : w.processes[index]? with
    | none =>
      simp only [World.act, here]
      exact inv
    | some p =>
      cases phase : p.phase with
      | writing seen env value key =>
        simp only [World.act, here, phase]
        exact inv.commit here phase
      | ready | found seen | answered seen answer =>
        simp only [World.act, here, phase]
        exact inv
  | rotateKey key => exact ⟨inv.valid, inv.replays, inv.fits⟩
  | outside value =>
    exact ⟨Cell.valid_write _ _, inv.replays.outside value,
      fun q member => (inv.fits q member).later fun s seen => seen.write _⟩
  | elsewhere =>
    exact ⟨inv.valid.tick, inv.replays.tick, fun q member => (inv.fits q member).later fun s seen => seen.tick⟩

theorem Inv.safe : Safe target strategy w where
  serial := inv.replays
  current := fun p seen answer member => (inv.fits p member).answered seen answer
  unchanged := by
    intro p seen answer member phase nothing
    apply Bool.eq_false_iff.mpr
    intro wrote
    rcases (inv.fits p member).wrote wrote with ⟨s, written⟩
    rw [phase] at written
    cases written
    cases nothing

end

/-- In any run in which the versions carried by applies and by JSON Patches of
a status are the current ones, admission leaves versions alone, and values are
read under the key they were encrypted with, no update is lost. -/
theorem safe_of_met (steps : List (Step Rest)) (met : EveryStep (World.act target strategy) StepMet World.new steps) :
    AlongRun (World.act target strategy) (Safe target strategy) World.new steps := by
  have keeps : forall (w : World Rest) (step : Step Rest), Inv target strategy w -> StepMet w step ->
      Inv target strategy (w.act target strategy step) := fun w step inv stepMet => inv.step stepMet
  have holds := AlongRun.of_invariant keeps Inv.new met
  exact holds.mono fun w inv => inv.safe

end
/-! ## A ConfigMap that two clients write -/

def configTarget : Target where
  resource := { group := "", resource := "configmaps", kind := "ConfigMap" }
  inNamespace := some "shop"
  name := "settings"

def configHead : Deletion.Object where
  uid := some "u-1"
  creationTimestamp := some 100
  deletionTimestamp := none
  deletionGracePeriodSeconds := none
  finalizers := []
  specFinalizers := []
  nodeName := none
  terminationGracePeriodSeconds := none
  phase := none

/-- The document with its data as the rest of it. -/
def configDoc (version : Version) (data : Nat) : Doc Nat where
  version := version
  head := configHead
  schedulingGates := []
  labels := SortedMap.empty
  annotations := SortedMap.empty
  conditions := []
  status := 0
  rest := data

def plainStrategy : Strategy Nat where
  validate := fun _ candidate => .ok candidate
  validateStatus := .ok
  semantics := fun _ _ => []

def plainEnv : Env Nat where
  served := true
  now := 200
  admitCandidate := some
  store := fun _ doc => .ok doc
  reencrypts := true

/-- Two clients read the same object; the later to write is refused. -/
def racingUpdates : List (Step Nat) :=
  [.outside (some ⟨configDoc .absent 1, 0⟩),
    .submit (.update (configDoc (.text "2") 10) (some "shop") false),
    .submit (.update (configDoc (.text "2") 20) (some "shop") false),
    .read 0, .read 1, .decide 0 plainEnv, .decide 1 plainEnv, .commit 1, .commit 0]

theorem racingUpdates_safe :
    AlongRun (World.act configTarget plainStrategy) (Safe configTarget plainStrategy) World.new racingUpdates := by
  apply safe_of_met
  have admitted : forall doc final, plainEnv.admitCandidate doc = some final -> final.version = doc.version := by
    intro doc final same
    cases same
    rfl
  have fresh : forall stored, some (Stored.mk (configDoc .absent 1) 0) = some stored -> stored.key = 0 := by
    intro stored same
    cases same
    rfl
  refine ⟨True.intro, True.intro, True.intro, True.intro, True.intro, ?_, ?_, True.intro, True.intro, True.intro⟩
  · intro p seen here phase
    cases here
    cases phase
    exact ⟨admitted, (fun impossible => nomatch impossible), fun _ => fresh⟩
  · intro p seen here phase
    cases here
    cases phase
    exact ⟨admitted, nofun, fun _ => fresh⟩

/-- The object was written at version 3 when a client applies what it made of
version 2. -/
def staleApply : List (Step Nat) :=
  [.outside (some ⟨configDoc .absent 1, 0⟩), .outside (some ⟨configDoc .absent 2, 0⟩),
    .submit (.apply ⟨.text "2", fun _ => .object (configDoc (.text "2") 30)⟩ false),
    .read 0, .decide 0 plainEnv, .commit 0]

theorem staleApply_not_safe :
    ¬ AlongRun (World.act configTarget plainStrategy) (Safe configTarget plainStrategy) World.new staleApply := by
  intro along
  have safe := along.finish
  have current := safe.current ⟨_, 0, .answered ⟨some ⟨configDoc .absent 2, 0⟩, 3, 3⟩ (.done false), true⟩ _ _
    (.head _) rfl rfl "2" rfl
  exact absurd current (by decide)

end Writes
end NotK8s.Apiserver

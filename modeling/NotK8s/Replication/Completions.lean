import NotK8s.Replication.DriverRules

namespace NotK8s.Replication

open Library Nodestore

/-!
# Whom an applied entry completes

Applying an entry tells success to at most one waiter: the one registered
under the entry's identity, when the state machine accepts the command.
Nothing else the driver does tells anyone success.
-/

namespace Driver

variable {Waiter : Type}

/-- The state machine accepts the command bytes carry. -/
def acceptsData (d : Driver Waiter) (index : Nat) : EntryData -> Bool
  | .encoded _ cmd => (d.node.store.applyAt index cmd).isOk
  | _ => false

/-- Raft accepts a membership change. -/
def acceptsChange (raft : RaftCrate) (d : Driver Waiter) : Except Error ConfChangeV2 -> Bool
  | .ok cc => (raft.applyConfChange d.conf cc).isOk
  | .error _ => false

/-- An entry carries a command and everything it does is accepted. -/
def accepts (raft : RaftCrate) (d : Driver Waiter) (entry : Entry) : Bool :=
  match entry.body with
  | .normal data => d.acceptsData entry.index data
  | .confChange change context => d.acceptsChange raft (widenConfChange change) && d.acceptsData entry.index context
  | .confChangeV2 change context => d.acceptsChange raft (parsedConfChange change) && d.acceptsData entry.index context

/-- The waiters registered under the identity bytes carry. -/
def namedBy (d : Driver Waiter) : EntryData -> List Waiter
  | .encoded id _ => d.proposals.answered id
  | _ => []

/-- From `before` on, success was told to `waiters` and to nobody else. -/
def ToldOk (before : Driver Waiter) (waiters : List Waiter) (d : Driver Waiter) : Prop :=
  Exists fun told : List (Waiter × ProposalResult) =>
    before.proposals.Answers d.proposals told ∧ ProposalTracker.toldOk told = waiters

theorem ToldOk.refl (d : Driver Waiter) : ToldOk d [] d :=
  ⟨[], .refl _, rfl⟩

theorem ToldOk.same {before d d' : Driver Waiter} {waiters : List Waiter} (told : ToldOk before waiters d)
    (unchanged : d'.proposals = d.proposals) : ToldOk before waiters d' := by
  unfold ToldOk
  rw [unchanged]
  exact told

theorem ToldOk.complete_ok {before d : Driver Waiter} (same : d.proposals = before.proposals) (id : UInt64)
    (applied : Applied) :
    ToldOk before (before.proposals.answered id) { d with proposals := d.proposals.complete id (.ok applied) } := by
  rw [same]
  exact ⟨_, before.proposals.complete_answers id (.ok applied), ProposalTracker.toldOk_ok _ applied⟩

theorem ToldOk.complete_error {before d : Driver Waiter} (same : d.proposals = before.proposals) (id : UInt64)
    (refusal : Error) :
    ToldOk before [] { d with proposals := d.proposals.complete id (.error refusal) } := by
  rw [same]
  exact ⟨_, before.proposals.complete_answers id (.error refusal), ProposalTracker.toldOk_error _ (fun tx => tx) refusal⟩

theorem ToldOk.stop {before d : Driver Waiter} {waiters : List Waiter} (told : ToldOk before waiters d) :
    ToldOk before waiters d.stop := by
  rcases told with ⟨answers, sofar, named⟩
  have failed := d.proposals.failAll_answers "the raft driver stopped after a storage failure"
  refine ⟨_, sofar.trans failed, ?_⟩
  rw [ProposalTracker.toldOk_append, named, ProposalTracker.toldOk_error, List.append_nil]

section
variable {before : Driver Waiter} {index : Nat}

/-- The proposals and the node are those of `before`. -/
def Untold (before d : Driver Waiter) : Prop :=
  d.proposals = before.proposals ∧ d.node = before.node

theorem untold_logStable (before : Driver Waiter) : LogStable (Untold before) :=
  fun _ _ untold _ _ => untold

/-- The waiters bytes complete with success. -/
def okFor (before : Driver Waiter) (index : Nat) (data : EntryData) : List Waiter :=
  if before.acceptsData index data then before.namedBy data else []

theorem applyPayload_encoded (refused : UInt64 -> Error -> Program Waiter Unit) (id : UInt64) (cmd : Command) :
    applyPayload refused (.encoded id cmd) index = (do
      let d ← get
      match d.node.applyCommitted index cmd with
      | .ok (applied, node) =>
        writeNode node
        complete id (.ok applied)
      | .error refusal => refused id refusal) :=
  rfl

theorem applyPayload_toldOk {refused : UInt64 -> Error -> Program Waiter Unit}
    (told : forall id refusal, Triple (Untold before) (refused id refusal) (fun _ => ToldOk before []) (ToldOk before []))
    (data : EntryData) :
    Triple (Untold before) (applyPayload refused data index)
      (fun _ => ToldOk before (before.okFor index data)) (ToldOk before (before.okFor index data)) := by
  have silent : forall d, Untold before d -> ToldOk before [] d := fun d untold => (ToldOk.refl before).same untold.1
  cases data with
  | empty => exact Triple.returning silent
  | malformed reason => exact Triple.failing silent
  | encoded id cmd =>
    rw [applyPayload_encoded]
    apply Triple.readState
    rintro here ⟨sameProposals, sameNode⟩
    have accepted : before.acceptsData index (.encoded id cmd) = (here.node.store.applyAt index cmd).isOk := by
      rw [sameNode]
      rfl
    cases outcome : here.node.applyCommitted index cmd with
    | ok result =>
      rcases result with ⟨applied, node⟩
      have success := Node.applyCommitted_ok outcome
      have named : before.okFor index (.encoded id cmd) = before.proposals.answered id := by
        unfold okFor
        rw [accepted, success]
        rfl
      rw [named]
      rintro _ rfl
      exact ToldOk.complete_ok sameProposals id applied
    | error refusal =>
      have failure := Node.applyCommitted_error.mp outcome
      have named : before.okFor index (.encoded id cmd) = [] := by
        unfold okFor
        rw [accepted, failure]
        rfl
      rw [named]
      exact (told id refusal).start ⟨sameProposals, sameNode⟩

theorem haltRefused_toldOk (id : UInt64) (refusal : Error) :
    Triple (Untold before) (haltRefused index id refusal) (fun _ => ToldOk before []) (ToldOk before []) := by
  rintro d ⟨same, _⟩
  exact ToldOk.complete_error same id _

theorem reportRefused_toldOk (id : UInt64) (refusal : Error) :
    Triple (Untold before) (reportRefused id refusal) (fun _ => ToldOk before []) (ToldOk before []) := by
  rintro d ⟨same, _⟩
  exact ToldOk.complete_error same id refusal

theorem applyConfChange_parsed (raft : RaftCrate) (cc : ConfChangeV2) (context : EntryData) :
    (applyConfChange raft (.ok cc) context index : Program Waiter Unit) = (do
      let d ← get
      match raft.applyConfChange d.conf cc with
      | .error reason => throw (.unavailable s!"applying conf change: {reason}")
      | .ok confState =>
        modify fun d => { d with conf := confState }
        setConfState confState index
        applyPayload reportRefused context index) :=
  rfl

theorem applyConfChange_toldOk (raft : RaftCrate) (change : Except Error ConfChangeV2) (context : EntryData) :
    Triple (fun d => d = before) (applyConfChange raft change context index)
      (fun _ => ToldOk before (if before.acceptsChange raft change then before.okFor index context else []))
      (ToldOk before (if before.acceptsChange raft change then before.okFor index context else [])) := by
  cases change with
  | error refusal =>
    rintro _ rfl
    exact ToldOk.refl _
  | ok cc =>
    rw [applyConfChange_parsed]
    apply Triple.readState
    intro here same
    subst here
    cases outcome : raft.applyConfChange before.conf cc with
    | error reason =>
      have refused : before.acceptsChange raft (.ok cc) = false := by
        change (raft.applyConfChange before.conf cc).isOk = false
        rw [outcome]
        rfl
      rw [refused]
      rintro _ rfl
      exact ToldOk.refl _
    | ok confState =>
      have accepted : before.acceptsChange raft (.ok cc) = true := by
        change (raft.applyConfChange before.conf cc).isOk = true
        rw [outcome]
        rfl
      rw [if_pos accepted]
      have changed : Triple (fun d => d = before)
          (modify fun d => { d with conf := confState } : Program Waiter Unit) (fun _ => Untold before)
          (ToldOk before (before.okFor index context)) := by
        apply Triple.writing
        rintro _ rfl
        exact ⟨rfl, rfl⟩
      apply changed.sequence
      intro _
      apply ((untold_logStable before).setConfState confState index).sequence
      intro _
      exact applyPayload_toldOk reportRefused_toldOk context

/-- The waiters an entry completes with success. -/
def okForEntry (raft : RaftCrate) (d : Driver Waiter) (entry : Entry) : List Waiter :=
  if d.accepts raft entry then d.namedBy entry.body.payload else []

theorem applyEntry_toldOk (raft : RaftCrate) (entry : Entry) :
    Triple (fun d => d = before) (applyEntry raft entry)
      (fun _ => ToldOk before (before.okForEntry raft entry)) (ToldOk before (before.okForEntry raft entry)) := by
  have counted : forall waiters : List Waiter,
      Triple (ToldOk before waiters) (setAppliedIndex entry.index) (fun _ => ToldOk before waiters)
        (ToldOk before waiters) :=
    fun waiters => Triple.writing fun _ told => told
  have changes : forall (change : Except Error ConfChangeV2) (context : EntryData),
      (if before.acceptsChange raft change && before.acceptsData entry.index context then before.namedBy context else []) =
        if before.acceptsChange raft change then before.okFor entry.index context else [] := by
    intro change context
    cases before.acceptsChange raft change <;> rfl
  unfold applyEntry okForEntry accepts EntryBody.payload
  cases entry.body with
  | normal data =>
    have applied := @applyPayload_toldOk Waiter before entry.index (haltRefused entry.index) haltRefused_toldOk data
    have first := @Triple.start _ _ _ _ _ _ _ applied before ⟨rfl, rfl⟩
    exact first.sequence fun _ => counted _
  | confChange change context | confChangeV2 change context =>
    rw [changes]
    exact (applyConfChange_toldOk raft _ context).sequence fun _ => counted _

theorem installReceivedSnapshot_toldOk (snapshot : Snapshot) :
    Triple (fun d => d = before) (installReceivedSnapshot snapshot) (fun _ => ToldOk before [])
      (ToldOk before []) := by
  apply Triple.readState
  intro here same
  subst here
  cases before.node.restoreSnapshot snapshot.data with
  | error refusal =>
    rintro _ rfl
    exact ToldOk.refl _
  | ok node =>
    rintro _ rfl
    exact (ToldOk.refl _).same rfl

/-- A request that puts nothing in the log tells its caller of no success. -/
theorem handle_toldOk (d : Driver Waiter) (request : Request) (answer : ProposeAnswer) :
    ToldOk d [] (d.handle request answer).2 := by
  unfold handle
  cases request.proposal d.role answer with
  | ok body => exact ToldOk.refl d
  | error refusal => exact ToldOk.complete_error rfl request.id refusal

theorem observeRole_toldOk (d : Driver Waiter) : ToldOk d [] d.observeRole := by
  unfold observeRole
  split_ifs
  · exact ToldOk.refl d
  · exact ⟨_, d.proposals.failAll_answers _, ProposalTracker.toldOk_error _ _ _⟩
  · exact (ToldOk.refl d).same rfl

theorem handle_payload {d : Driver Waiter} {request : Request} {answer : ProposeAnswer} {body : EntryBody}
    (taken : (d.handle request answer).1 = some body) : body.payload = request.payload := by
  unfold handle at taken
  cases outcome : request.proposal d.role answer with
  | error refusal =>
    rw [outcome] at taken
    cases taken
  | ok proposal =>
    rw [outcome] at taken
    cases taken
    unfold Request.proposal at outcome
    cases request with
    | propose data id | confChange cc context id =>
      dsimp only at outcome
      split at outcome
      · cases outcome
      · split at outcome <;> cases outcome
        rfl
    | promoteLearner learnerId cc context id =>
      dsimp only at outcome
      split at outcome
      · cases outcome
      · split at outcome
        · cases outcome
        · split at outcome
          · cases outcome
          · split at outcome <;> cases outcome
            rfl

theorem start_proposals (raft : RaftCrate) (peers : List Member) (probe : ClusterProbe) :
    Triple (fun _ => True) (start raft peers probe : Program Waiter Unit) (fun _ d => d.proposals = .new)
      (fun _ => True) := by
  have anything : forall {A : Type} (program : Program Waiter A),
      Triple (fun _ => True) program (fun _ _ => True) (fun _ => True) := by
    intro A program d _
    cases program d <;> exact True.intro
  apply (anything get).sequence
  intro d
  apply (anything (seedEmptyLog peers d.node.store.db.appliedIndex)).sequence
  intro _
  apply (anything (reconcile d.node.store.db.appliedIndex)).sequence
  intro _
  apply (anything (newNode raft d.node.store.db.appliedIndex "starting raft")).sequence
  intro _
  apply (anything (bootstrap raft peers probe d.node.store.db.appliedIndex)).sequence
  intro _
  exact Triple.writing fun _ _ => rfl

end

end Driver

end NotK8s.Replication

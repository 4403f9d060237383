import NotK8s.Replication.ProposalRouting

namespace NotK8s.Replication

open Library Nodestore

/-!
# When acknowledgements are honest

Within one process an identity names one call, as long as fewer than 2^64
calls lie between two uses of it.  Nothing ties it to the process, so an
acknowledgement is honest exactly when no member applies an entry of another
process under an identity one of its own proposals is waiting on.
-/

/-- The call was made through this process of the member. -/
structure Process.Made (p : Process) (member : UInt64) (call : Call) : Prop where
  member : call.member = member
  incarnation : call.incarnation = p.incarnation
  submitted : Exists fun position : Nat =>
    call.serial = position + 1 ∧ p.calls[position]? = some call.submission

/-- The bytes are the call's command under the call's identity. -/
def Encodes (data : EntryData) (call : Call) : Prop :=
  data = encodeEntry call.id call.submission.command

/-- The waiters and the requests of a process are those of its calls. -/
structure Process.Numbered (p : Process) (member : UInt64) : Prop where
  next : p.driver.proposals.nextId = UInt64.ofNat p.calls.length
  waiting : forall slot, slot ∈ p.driver.proposals.pending ->
    p.Made member slot.2 ∧ slot.1 = slot.2.id ∧ p.calls.length < slot.2.serial + 2 ^ 64
  queued : forall item, item ∈ p.queue -> p.Made member item.1 ∧ Encodes item.2.payload item.1

namespace Process

variable {p p' : Process} {member : UInt64} {call call' : Call}

section

variable (made : p.Made member call)
include made

theorem Made.serial_le : 0 < call.serial ∧ call.serial ≤ p.calls.length := by
  rcases made.submitted with ⟨position, serial, found⟩
  have inside := (List.getElem?_eq_some_iff.mp found).1
  omega

theorem Made.unique (made' : p.Made member call') (same : call.serial = call'.serial) :
    call = call' := by
  rcases made.submitted with ⟨position, serial, found⟩
  rcases made'.submitted with ⟨position', serial', found'⟩
  have position_eq : position = position' := by omega
  rw [position_eq, found'] at found
  rcases call with ⟨m, i, s, a⟩
  rcases call' with ⟨m', i', s', a'⟩
  have members := made.member.trans made'.member.symm
  have incarnations := made.incarnation.trans made'.incarnation.symm
  simp only [Option.some.injEq] at found
  simp only [Call.mk.injEq]
  exact ⟨members, incarnations, same, found.symm⟩

theorem Made.eq_of_id (made' : p.Made member call')
    (recent : p.calls.length < call.serial + 2 ^ 64) (recent' : p.calls.length < call'.serial + 2 ^ 64)
    (same : call.id = call'.id) : call = call' := by
  have bounds := made.serial_le
  have bounds' := made'.serial_le
  have residues := congrArg UInt64.toNat same
  unfold Call.id at residues
  rw [UInt64.toNat_ofNat', UInt64.toNat_ofNat'] at residues
  exact made.unique made' (by omega)

theorem Made.extend {submission : Submission} (incarnation : p'.incarnation = p.incarnation)
    (calls : p'.calls = p.calls ++ [submission]) : p'.Made member call := by
  rcases made.submitted with ⟨position, serial, found⟩
  have inside := (List.getElem?_eq_some_iff.mp found).1
  refine ⟨made.member, made.incarnation.trans incarnation.symm, position, serial, ?_⟩
  rw [calls, List.getElem?_append_left inside]
  exact found

theorem Made.keep (incarnation : p'.incarnation = p.incarnation)
    (calls : p'.calls = p.calls) : p'.Made member call :=
  ⟨made.member, made.incarnation.trans incarnation.symm, calls ▸ made.submitted⟩

end

/-- A step in which the process answers waiters and drops requests. -/
structure Moves (p p' : Process) (told : List Call) : Prop where
  driver : p.driver.ToldOk told p'.driver
  incarnation : p'.incarnation = p.incarnation
  calls : p'.calls = p.calls
  queue : forall item, item ∈ p'.queue -> item ∈ p.queue

theorem Moves.numbered {told : List Call} (moves : p.Moves p' told) (numbered : p.Numbered member) :
    p'.Numbered member := by
  rcases moves.driver with ⟨answers, driver, _⟩
  refine ⟨?_, fun slot waits => ?_, fun item queues => ?_⟩
  · rw [driver.nextId, moves.calls]
    exact numbered.next
  · have before := numbered.waiting slot (driver.pending slot waits)
    rw [moves.calls]
    exact ⟨before.1.keep moves.incarnation moves.calls, before.2⟩
  · have before := numbered.queued item (moves.queue item queues)
    exact ⟨before.1.keep moves.incarnation moves.calls, before.2⟩

end Process

namespace Routing

/-- The call was made, by a process that is gone or by the running one. -/
def Known (c : Routing) (call : Call) : Prop :=
  call.incarnation < (c.process call.member).incarnation ∨ (c.process call.member).Made call.member call

structure Numbered (c : Routing) : Prop where
  process : forall member, (c.process member).Numbered member
  proposed : forall item, item ∈ c.proposed -> c.Known item.2 ∧ Encodes item.1.payload item.2
  committed : forall item, item ∈ c.committed -> forall call, item.2 = some call ->
    c.Known call ∧ Encodes item.1.body.payload call

variable {c : Routing} {member : UInt64} {origin : Option Call} {p : Process} {told : List Call}

theorem advance_process (c : Routing) (member : UInt64) (origin : Option Call) (p : Process) :
    (c.advance member origin p).process = Function.update c.process member p :=
  rfl

/-- What is known stays known when the process that made it goes on or is
replaced by a later one. -/
theorem Known.advance {call : Call} (known : c.Known call)
    (later : forall call, (c.process member).Made member call ->
      call.incarnation < p.incarnation ∨ p.Made member call)
    (grows : (c.process member).incarnation ≤ p.incarnation) : (c.advance member origin p).Known call := by
  unfold Known at known ⊢
  rw [advance_process]
  by_cases same : call.member = member
  · rw [same, Function.update_self]
    rw [same] at known
    rcases known with gone | made
    · exact Or.inl (gone.trans_le grows)
    · exact later call made
  · rw [Function.update_of_ne same]
    exact known

theorem Numbered.advance (numbered : c.Numbered) (next : p.Numbered member)
    (later : forall call, (c.process member).Made member call ->
      call.incarnation < p.incarnation ∨ p.Made member call)
    (grows : (c.process member).incarnation ≤ p.incarnation) : (c.advance member origin p).Numbered := by
  refine ⟨?_, fun item listed => ?_, fun item listed call named => ?_⟩
  · rw [advance_process]
    exact (Function.forall_update_iff _ fun member (p : Process) => p.Numbered member).mpr
      ⟨next, fun other _ => numbered.process other⟩
  · have before := numbered.proposed item listed
    exact ⟨before.1.advance later grows, before.2⟩
  · have before := numbered.committed item listed call named
    exact ⟨before.1.advance later grows, before.2⟩

theorem Numbered.moves (numbered : c.Numbered) (moves : (c.process member).Moves p told) :
    (c.advance member origin p).Numbered := by
  apply numbered.advance (moves.numbered (numbered.process member))
  · intro call made
    exact Or.inr (made.keep moves.incarnation moves.calls)
  · exact moves.incarnation.ge

theorem acknowledged_moves (moves : (c.process member).Moves p told) :
    (c.advance member origin p).acknowledged = c.acknowledged ++ told.map fun call => (call, origin) := by
  rcases moves.driver with ⟨answers, driver, named⟩
  change c.acknowledged ++ (ProposalTracker.toldOk _).map _ = _
  rw [driver.told, named]

/-! ## One step -/

theorem finish_toldOk {d : Driver Call} {program : Driver.Program Call Unit} {waiters : List Call}
    (holds : Triple (fun other => other = d) program (fun _ => d.ToldOk waiters) (d.ToldOk waiters)) :
    d.ToldOk waiters (finish (program d)) := by
  cases outcome : program d with
  | ok value d' => exact holds.returns rfl outcome
  | error refusal d' => exact (holds.fails rfl outcome).stop

theorem register_numbered (numbered : (c.process member).Numbered member) (submission : Submission) :
    let p := c.process member
    let call : Call :=
      { member := member, incarnation := p.incarnation, serial := p.calls.length + 1, submission := submission }
    let registered := p.driver.proposals.register call
    registered.1 = call.id ∧
      Process.Numbered
        { p with
          driver := { p.driver with proposals := registered.2 }
          calls := p.calls ++ [submission]
          queue := p.queue ++ [(call, submission.request registered.1)] } member := by
  intro p call registered
  have named : registered.1 = call.id := by
    change p.driver.proposals.nextId + 1 = UInt64.ofNat (p.calls.length + 1)
    rw [numbered.next, UInt64.ofNat_add]
    rfl
  have grown : (p.calls ++ [submission]).length = p.calls.length + 1 := List.length_append
  have made : Process.Made
      { p with
        driver := { p.driver with proposals := registered.2 }
        calls := p.calls ++ [submission]
        queue := p.queue ++ [(call, submission.request registered.1)] } member call :=
    ⟨rfl, rfl, p.calls.length, rfl, List.getElem?_concat_length⟩
  refine ⟨named, ?_, fun slot waits => ?_, fun item queues => ?_⟩
  · change registered.1 = UInt64.ofNat (p.calls ++ [submission]).length
    rw [named, grown]
    rfl
  · rcases List.mem_append.mp waits with earlier | last
    · have before := numbered.waiting slot (List.mem_of_mem_filter earlier)
      refine ⟨before.1.extend rfl rfl, before.2.1, ?_⟩
      have different : slot.1 ≠ registered.1 := of_decide_eq_true (List.mem_filter.mp earlier).2
      rw [named, before.2.1] at different
      rw [grown]
      apply lt_of_le_of_ne before.2.2
      -- a waiter 2^64 calls old would have lost its slot to this one
      intro wrapped
      apply different
      apply UInt64.toNat_inj.mp
      unfold Call.id
      rw [UInt64.toNat_ofNat', UInt64.toNat_ofNat', ← Nat.add_mod_right slot.2.serial, ← wrapped]
    · rw [List.mem_singleton.mp last]
      refine ⟨made, named, ?_⟩
      change (p.calls ++ [submission]).length < p.calls.length + 1 + 2 ^ 64
      omega
  · rcases List.mem_append.mp queues with earlier | last
    · have before := numbered.queued item earlier
      exact ⟨before.1.extend rfl rfl, before.2⟩
    · rw [List.mem_singleton.mp last]
      refine ⟨made, ?_⟩
      rw [named]
      cases submission <;> rfl

theorem commitEntry_numbered (numbered : c.Numbered) {body : EntryBody} (term : Nat)
    (encoded : forall call, origin = some call -> c.Known call ∧ Encodes body.payload call) :
    (c.commitEntry term body origin).Numbered := by
  refine ⟨numbered.process, numbered.proposed, fun item listed call named => ?_⟩
  rcases List.mem_append.mp listed with earlier | last
  · exact numbered.committed item earlier call named
  · rw [List.mem_singleton.mp last] at named ⊢
    exact encoded call named

theorem relaunch_proposals (raft : RaftCrate) (peers : List Member) (probe : ClusterProbe) (d : Driver Call) :
    (relaunch raft peers probe d).proposals = .new := by
  unfold relaunch
  cases outcome : Driver.start raft peers probe (.opened d.memberId d.disk d.written) with
  | ok value d' => exact (Driver.start_proposals raft peers probe).returns True.intro outcome
  | error refusal d' => rfl

/-- What applying a member's next entry acknowledges. -/
def nextAcknowledged (raft : RaftCrate) (c : Routing) (member : UInt64) : List (Call × Option Call) :=
  match c.nextEntry member with
  | none => []
  | some (entry, origin) =>
    if (c.process member).driver.running then
      ((c.process member).driver.okForEntry raft entry).map fun call => (call, origin)
    else []

/-- What a step acknowledges. -/
def acknowledges (raft : RaftCrate) (c : Routing) : Move -> List (Call × Option Call)
  | .apply member => c.nextAcknowledged raft member
  | _ => []

theorem submit_numbered {raft : RaftCrate} (numbered : c.Numbered) (member : UInt64) (submission : Submission) :
    (c.step raft (.submit member submission)).Numbered ∧
      (c.step raft (.submit member submission)).acknowledged = c.acknowledged ++ [] := by
  have registered := register_numbered (numbered.process member) submission
  have later : forall (p : Process) (call : Call), p.incarnation = (c.process member).incarnation ->
      p.calls = (c.process member).calls ++ [submission] -> (c.process member).Made member call ->
        call.incarnation < p.incarnation ∨ p.Made member call :=
    fun p call incarnation calls made => Or.inr (made.extend incarnation calls)
  have silent : forall p : Process,
      p.driver.proposals.completed = (c.process member).driver.proposals.completed ->
        (c.advance member none p).acknowledged = c.acknowledged ++ [] := by
    intro p same
    change c.acknowledged ++ (ProposalTracker.toldOk (List.drop _ _)).map _ = _
    rw [same, List.drop_length]
    rfl
  unfold step
  dsimp only
  by_cases running : (c.process member).driver.running = true
  · rw [if_pos running]
    exact ⟨numbered.advance registered.2 (fun call => later _ call rfl rfl) le_rfl, silent _ rfl⟩
  · rw [if_neg running]
    refine ⟨numbered.advance ?_ (fun call => later _ call rfl rfl) le_rfl, silent _ rfl⟩
    refine ⟨registered.2.next, fun slot waits => ?_, fun item queues => ?_⟩
    · have before := registered.2.waiting slot (List.mem_of_mem_filter waits)
      exact ⟨before.1.keep rfl rfl, before.2⟩
    · have before := registered.2.queued item (List.mem_append_left _ queues)
      exact ⟨before.1.keep rfl rfl, before.2⟩

theorem handle_numbered {raft : RaftCrate} (numbered : c.Numbered) (member : UInt64) (position : Nat)
    (answer : Driver.ProposeAnswer) :
    (c.step raft (.handle member position answer)).Numbered ∧
      (c.step raft (.handle member position answer)).acknowledged = c.acknowledged ++ [] := by
  unfold step
  dsimp only
  cases found : (c.process member).queue[position]? with
  | none => exact ⟨numbered, (List.append_nil _).symm⟩
  | some queued =>
    rcases queued with ⟨call, request⟩
    dsimp only
    by_cases running : (c.process member).driver.running = true
    · rw [if_pos running]
      have moves : (c.process member).Moves
          { c.process member with
            driver := ((c.process member).driver.handle request answer).2
            queue := (c.process member).queue.eraseIdx position } [] :=
        ⟨Driver.handle_toldOk _ request answer, rfl, rfl, fun item => List.mem_of_mem_eraseIdx⟩
      have moved := @Numbered.moves c member none _ [] numbered moves
      have made := (numbered.process member).queued (call, request) (List.mem_of_getElem? found)
      refine ⟨⟨moved.process, fun item listed => ?_, moved.committed⟩, acknowledged_moves moves⟩
      rcases List.mem_append.mp listed with earlier | last
      · exact moved.proposed item earlier
      · rcases List.mem_map.mp last with ⟨body, taken, rfl⟩
        have known : c.Known call := Or.inr (by
          rw [made.1.member]
          exact made.1)
        refine ⟨@Known.advance c member none _ call known (fun other isMade => Or.inr (isMade.keep rfl rfl)) le_rfl, ?_⟩
        have payload := Driver.handle_payload (Option.mem_toList.mp taken)
        rw [payload]
        exact made.2
    · rw [if_neg running]
      exact ⟨numbered, (List.append_nil _).symm⟩

/-- One step keeps the numbering, and tells of success only the waiters of an
applied entry's identity. -/
theorem step_numbered (raft : RaftCrate) (numbered : c.Numbered) (move : Move) :
    (c.step raft move).Numbered ∧ (c.step raft move).acknowledged = c.acknowledged ++ c.acknowledges raft move := by
  have quiet : forall {member : UInt64} {p : Process}, (c.process member).Moves p [] ->
      (c.advance member none p).Numbered ∧ (c.advance member none p).acknowledged = c.acknowledged ++ [] :=
    fun moves => ⟨numbered.moves moves, acknowledged_moves moves⟩
  have idle : c.Numbered ∧ c.acknowledged = c.acknowledged ++ [] := ⟨numbered, (List.append_nil _).symm⟩
  cases move with
  | submit member submission => exact submit_numbered numbered member submission
  | forget member id =>
    apply quiet
    exact ⟨⟨_, ProposalTracker.forget_answers _ id, rfl⟩, rfl, rfl, fun _ listed => listed⟩
  | handle member position answer => exact handle_numbered numbered member position answer
  | role member role => exact quiet ⟨(Driver.ToldOk.refl _).same rfl, rfl, rfl, fun _ listed => listed⟩
  | observe member => exact quiet ⟨Driver.observeRole_toldOk _, rfl, rfl, fun _ listed => listed⟩
  | commit position term =>
    unfold step
    dsimp only
    cases found : c.proposed[position]? with
    | none => exact idle
    | some taken =>
      rcases taken with ⟨body, call⟩
      refine ⟨commitEntry_numbered numbered term ?_, idle.2⟩
      rintro _ ⟨⟩
      exact numbered.proposed (body, call) (List.mem_of_getElem? found)
  | commitOwn body term =>
    unfold step
    dsimp only
    by_cases own : body.payload.isEmpty = true
    · rw [if_pos own]
      exact ⟨commitEntry_numbered numbered term nofun, idle.2⟩
    · rw [if_neg own]
      exact idle
  | apply member =>
    unfold step acknowledges nextAcknowledged
    dsimp only
    cases found : c.nextEntry member with
    | none => exact idle
    | some next =>
      rcases next with ⟨entry, origin⟩
      dsimp only
      by_cases running : (c.process member).driver.running = true
      · rw [if_pos running, if_pos running]
        have moves : (c.process member).Moves
            { c.process member with driver := finish (Driver.applyEntry raft entry (c.process member).driver) }
            ((c.process member).driver.okForEntry raft entry) :=
          ⟨finish_toldOk (Driver.applyEntry_toldOk raft entry), rfl, rfl, fun _ listed => listed⟩
        exact ⟨numbered.moves moves, acknowledged_moves moves⟩
      · rw [if_neg running, if_neg running]
        exact idle
  | install member snapshot =>
    unfold step
    dsimp only
    by_cases running : (c.process member).driver.running = true
    · rw [if_pos running]
      exact quiet ⟨finish_toldOk (Driver.installReceivedSnapshot_toldOk snapshot), rfl, rfl, fun _ listed => listed⟩
    · rw [if_neg running]
      exact idle
  | restart member peers probe =>
    have fresh := relaunch_proposals raft peers probe (c.process member).driver
    refine ⟨numbered.advance ?_ ?_ (Nat.le_succ _), ?_⟩
    · refine ⟨?_, fun slot waits => ?_, fun item impossible => nomatch impossible⟩
      · rw [fresh]
        rfl
      · dsimp only at waits
        rw [fresh] at waits
        cases waits
    · intro call made
      rw [made.incarnation]
      exact Or.inl (Nat.lt_succ_self _)
    · change c.acknowledged ++ (ProposalTracker.toldOk (List.drop _ _)).map _ = c.acknowledged ++ []
      dsimp only
      rw [fresh]
      change c.acknowledged ++ (ProposalTracker.toldOk (List.drop _ [])).map _ = _
      rw [List.drop_nil]
      rfl

/-! ## Whole runs -/

theorem mem_answered {tracker : ProposalTracker Call} {id : UInt64} {call : Call} :
    call ∈ tracker.answered id <-> id ≠ 0 ∧ tracker.waiter id = some call := by
  unfold ProposalTracker.answered
  by_cases zero : id = 0
  · simp [zero]
  · simp [zero]

/-- An acknowledgement comes from the next entry, accepted, under whose
identity the call is waiting. -/
theorem mem_nextAcknowledged {raft : RaftCrate} {told : Call × Option Call} :
    told ∈ c.nextAcknowledged raft member <->
      Exists fun entry : Entry => Exists fun id : UInt64 => Exists fun cmd : Command =>
        c.nextEntry member = some (entry, told.2) ∧ (c.process member).driver.running = true ∧
          entry.body.payload = .encoded id cmd ∧ id ≠ 0 ∧
          (c.process member).driver.accepts raft entry = true ∧
          (c.process member).driver.proposals.waiter id = some told.1 := by
  constructor
  · intro listed
    unfold nextAcknowledged at listed
    cases found : c.nextEntry member with
    | none =>
      rw [found] at listed
      cases listed
    | some next =>
      rcases next with ⟨entry, origin⟩
      rw [found] at listed
      split_ifs at listed with running
      · rcases List.mem_map.mp listed with ⟨call, completed, rfl⟩
        unfold Driver.okForEntry at completed
        split_ifs at completed with accepted
        · cases payload : entry.body.payload with
          | empty | malformed reason =>
            rw [payload] at completed
            cases completed
          | encoded id cmd =>
            rw [payload] at completed
            have named := mem_answered.mp completed
            exact ⟨entry, id, cmd, rfl, running, payload, named.1, accepted, named.2⟩
        · cases completed
      · cases listed
  · rintro ⟨entry, id, cmd, found, running, payload, named, accepted, waiting⟩
    unfold nextAcknowledged
    rw [found]
    dsimp only
    rw [if_pos running]
    apply List.mem_map.mpr
    refine ⟨told.1, ?_, rfl⟩
    unfold Driver.okForEntry
    rw [if_pos accepted, payload]
    exact mem_answered.mpr ⟨named, waiting⟩

/-- A waiter and a recent entry of one process with one identity belong to
one call. -/
theorem Numbered.waiter_eq (numbered : c.Numbered) {id : UInt64} {call sent : Call}
    (waiting : (c.process member).driver.proposals.waiter id = some call) (known : c.Known sent)
    (sender : sent.member = member) (current : sent.incarnation = (c.process member).incarnation)
    (recent : (c.process member).calls.length < sent.serial + 2 ^ 64) (same : id = sent.id) : call = sent := by
  have waits := (numbered.process member).waiting (id, call) (ProposalTracker.waiter_mem waiting)
  have made : (c.process member).Made member sent := by
    rcases known with gone | made
    · rw [sender, current] at gone
      exact absurd gone (lt_irrefl _)
    · rw [sender] at made
      exact made
  apply waits.1.eq_of_id made waits.2.2 recent
  rw [← same]
  exact waits.2.1.symm

theorem step_honest (raft : RaftCrate) (numbered : c.Numbered) (honest : c.Honest) {move : Move}
    (unmistaken : c.Unmistaken raft move) : (c.step raft move).Honest := by
  intro told listed proposes
  rw [(step_numbered raft numbered move).2] at listed
  rcases List.mem_append.mp listed with earlier | now
  · exact honest told earlier proposes
  · cases move with
    | apply member =>
      rcases mem_nextAcknowledged.mp now with
        ⟨entry, id, cmd, found, running, payload, named, accepted, waiting⟩
      rcases unmistaken entry told.2 id cmd told.1 found running payload named accepted waiting proposes with
        ⟨sent, origin, sender, current, recent⟩
      have committed := numbered.committed (entry, told.2) (List.mem_of_find?_eq_some found) sent origin
      have same : id = sent.id := by
        have encoded := committed.2
        rw [payload] at encoded
        exact (EntryData.encoded.inj encoded).1
      rw [origin, numbered.waiter_eq waiting committed.1 sender current recent same]
    | _ => cases now

/-- An honest acknowledgement is of an entry of the waiter's own process. -/
theorem unmistaken_of_honest (raft : RaftCrate) (numbered : c.Numbered) {move : Move}
    (honest : (c.step raft move).Honest) : c.Unmistaken raft move := by
  cases move with
  | apply member =>
    intro entry origin id cmd call found running payload named accepted waiting proposes
    have told : (call, origin) ∈ c.nextAcknowledged raft member :=
      mem_nextAcknowledged.mpr ⟨entry, id, cmd, found, running, payload, named, accepted, waiting⟩
    have listed : (call, origin) ∈ (c.step raft (.apply member)).acknowledged := by
      rw [(step_numbered raft numbered _).2]
      exact List.mem_append_right _ told
    have waits := (numbered.process member).waiting (id, call) (ProposalTracker.waiter_mem waiting)
    exact ⟨call, honest (call, origin) listed proposes, waits.1.member, waits.1.incarnation, waits.2.2⟩
  | _ => exact True.intro

theorem initial_numbered (logStart : Nat) (databases : UInt64 -> Db) : (initial logStart databases).Numbered := by
  refine ⟨fun member => ⟨rfl, ?_, ?_⟩, ?_, ?_⟩
  · exact fun _ impossible => nomatch impossible
  · exact fun _ impossible => nomatch impossible
  · exact fun _ impossible => nomatch impossible
  · exact fun _ impossible => nomatch impossible

/-- In every run, whatever the members, their callers and raft do, every
waiter told of success was told so by its own entry exactly when no member
ever applies, with success, an entry of another process under an identity one
of its own proposals is waiting on. -/
theorem acknowledgements_honest_iff (raft : RaftCrate) (logStart : Nat) (databases : UInt64 -> Db)
    (moves : List Move) :
    AlongRun (step raft) Honest (initial logStart databases) moves <->
      EveryStep (step raft) (Unmistaken raft) (initial logStart databases) moves := by
  apply @alongRun_iff_everyStep Routing Move (step raft) (fun c => c.Numbered ∧ c.Honest) Honest
    (fun _ _ => True) (Unmistaken raft)
  · rintro c move ⟨numbered, honest⟩ _ unmistaken
    exact ⟨(step_numbered raft numbered move).1, step_honest raft numbered honest unmistaken⟩
  · intro c both
    exact both.2
  · rintro c move ⟨numbered, _⟩ _ honest
    exact unmistaken_of_honest raft numbered honest
  · exact ⟨initial_numbered logStart databases, fun _ impossible => nomatch impossible⟩
  · exact EveryStep.unconditional _ _

/-- Member 1 proposes as the leader and is deposed before its entry commits.
Member 2 becomes the leader, takes a proposal of its own and then applies the
entry of member 1, which carries the same identity. -/
def deposedLeader : List Move :=
  let probe : ClusterProbe := { alreadyRunning := false, voters := [] }
  let peers : List Member :=
    [{ id := 1, peerUrl := "http://one:2380", clientUrl := "", name := "one", isLearner := false },
      { id := 2, peerUrl := "http://two:2380", clientUrl := "", name := "two", isLearner := false }]
  let answer : Driver.ProposeAnswer := { progress := none, lastIndex := 0, taken := .ok () }
  let put (key : String) : Submission :=
    .propose (.put { key := ascii key, value := ascii "v", lease := 0, prevKv := false,
                     ignoreValue := false, ignoreLease := false })
  [.restart 1 peers probe, .restart 2 peers probe,
    .role 1 .leader, .submit 1 (put "/a"), .handle 1 0 answer,
    .role 2 .leader, .submit 2 (put "/b"), .handle 2 0 answer,
    .commit 0 1, .apply 2]

/-- The put of `/b` is acknowledged by the application of the put of `/a`. -/
theorem deposedLeader_not_honest :
    ¬ AlongRun (step plainRaft) Honest (initial 0 fun _ => Db.initSchema) deposedLeader := by
  intro along
  have told : Exists fun pair : Call × Option Call =>
      (run (step plainRaft) (initial 0 fun _ => Db.initSchema) deposedLeader).acknowledged = [pair] ∧
        pair.1.submission.Proposes ∧ pair.2 ≠ some pair.1 := by
    refine ⟨_, rfl, ?_, ?_⟩
    · exact True.intro
    · decide
  rcases told with ⟨pair, acknowledged, proposes, different⟩
  apply different
  apply along.finish pair _ proposes
  rw [acknowledged]
  exact List.mem_singleton_self pair

end Routing

end NotK8s.Replication

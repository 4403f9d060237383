import NotK8s.Replication.ProposalRouting

namespace NotK8s.Replication

open Library Nodestore

/-!
# What a lost leadership says about a write

A member that finds it is no longer the leader fails every proposal still
waiting, and tells each caller that the write did not happen.  Nothing looks
at how far the entry got: it may be committed already, it may be in the logs
of members that will commit it, and it may still be on its way to the driver,
which proposes it if the member is leader again by then.

The record below lists what callers were told and what members applied, in
the order it happened.  Calls stand for proposals as in the routing of
results, so that two submissions of one command are told apart.
-/

namespace Driver

variable {Waiter : Type}

/-- The waiters that noticing the current role fails. -/
def lostWaiters (d : Driver Waiter) : List Waiter :=
  if d.role ≠ d.lastRole ∧ d.lastRole = .leader then d.proposals.pending.map Prod.snd else []

end Driver

/-- What happened to a proposal. -/
inductive Verdict where
  /-- Its caller was told that leadership was lost and it did not happen. -/
  | lost (call : Call)
  /-- A member applied the entry that carries it. -/
  | applied (call : Call)
  deriving DecidableEq

/-- A proposal declared lost is not applied later. -/
def Verdict.Honors : Verdict -> Verdict -> Prop
  | .lost call, .applied other => other ≠ call
  | _, _ => True

instance Verdict.Honors.decidable : forall earlier later : Verdict, Decidable (earlier.Honors later)
  | .lost call, .applied other => inferInstanceAs (Decidable (other ≠ call))
  | .lost _, .lost _ => isTrue True.intro
  | .applied _, _ => isTrue True.intro

namespace Routing

/-- The proposals a move declares lost. -/
def loses (c : Routing) : Move -> List Call
  | .observe member => (c.process member).driver.lostWaiters
  | _ => []

/-- The proposal a move commits. -/
def commits (c : Routing) : Move -> Option Call
  | .commit position _ => (c.proposed[position]?).map Prod.snd
  | _ => none

/-- The proposal whose entry a move applies with success. -/
def applies (raft : RaftCrate) (c : Routing) : Move -> Option Call
  | .apply member =>
    match c.nextEntry member with
    | some (entry, origin) =>
      let d := (c.process member).driver
      if d.running && d.accepts raft entry then origin else none
    | none => none
  | _ => none

/-- What a move adds to the record. -/
def verdicts (raft : RaftCrate) (c : Routing) (move : Move) : List Verdict :=
  (c.applies raft move).toList.map .applied ++ (c.loses move).map .lost

variable {c : Routing} {raft : RaftCrate} {move : Move} {call : Call}

theorem applies_committed (applied : c.applies raft move = some call) :
    Exists fun item : Entry × Option Call => item ∈ c.committed ∧ item.2 = some call := by
  cases move with
  | apply member =>
    cases found : c.nextEntry member with
    | none =>
      simp only [applies, found] at applied
      cases applied
    | some next =>
      simp only [applies, found] at applied
      split_ifs at applied with succeeds
      exact ⟨next, List.mem_of_find?_eq_some found, applied⟩
  | _ => cases applied

theorem step_committed {move : Move} {item : Entry × Option Call} (listed : item ∈ (c.step raft move).committed) :
    item ∈ c.committed ∨ item.2 = c.commits move := by
  cases move with
  | commit position term =>
    cases found : c.proposed[position]? with
    | none =>
      simp only [step, found] at listed
      exact Or.inl listed
    | some taken =>
      simp only [step, found] at listed
      rcases List.mem_append.mp listed with earlier | last
      · exact Or.inl earlier
      · rw [List.mem_singleton.mp last]
        simp only [commits, found, Option.map_some]
        exact Or.inr trivial
  | commitOwn body term =>
    unfold step at listed
    dsimp only at listed
    split_ifs at listed with own
    · rcases List.mem_append.mp listed with earlier | last
      · exact Or.inl earlier
      · rw [List.mem_singleton.mp last]
        exact Or.inr rfl
    · exact Or.inl listed
  | submit member submission | install member snapshot =>
    unfold step at listed
    dsimp only at listed
    split_ifs at listed <;> exact Or.inl listed
  | handle member position answer | apply member =>
    unfold step at listed
    dsimp only at listed
    split at listed
    · exact Or.inl listed
    · split_ifs at listed <;> exact Or.inl listed
  | forget member id | role member role | observe member | restart member peers probe => exact Or.inl listed

end Routing

/-- A cluster and the verdicts so far, oldest first. -/
structure Recorded where
  routing : Routing
  record : List Verdict

namespace Recorded

def initial (logStart : Nat) (databases : UInt64 -> Db) : Recorded where
  routing := .initial logStart databases
  record := []

def step (raft : RaftCrate) (s : Recorded) (move : Move) : Recorded where
  routing := s.routing.step raft move
  record := s.record ++ s.routing.verdicts raft move

/-- No proposal is applied, by any member, after its caller was told that it
did not happen. -/
def Truthful (s : Recorded) : Prop :=
  s.record.Pairwise Verdict.Honors

/-- The log has no entry of a proposal that was declared lost. -/
def Overwritten (s : Recorded) : Prop :=
  forall call, Verdict.lost call ∈ s.record -> forall item, item ∈ s.routing.committed -> item.2 ≠ some call

/-- The log goes on as the refusal says: no proposal that a lost leadership
fails has been committed, and none that it failed is committed later. -/
def Foretold (s : Recorded) (move : Move) : Prop :=
  (forall call, call ∈ s.routing.loses move -> forall item, item ∈ s.routing.committed -> item.2 ≠ some call) ∧
    forall call, call ∈ s.routing.commits move -> Verdict.lost call ∉ s.record

instance (s : Recorded) (move : Move) : Decidable (s.Foretold move) :=
  inferInstanceAs (Decidable (_ ∧ _))

instance (s : Recorded) : Decidable s.Truthful :=
  inferInstanceAs (Decidable (List.Pairwise _ _))

variable {s : Recorded} {raft : RaftCrate} {move : Move}

theorem mem_verdicts_lost {call : Call} :
    Verdict.lost call ∈ s.routing.verdicts raft move <-> call ∈ s.routing.loses move := by
  simp [Routing.verdicts]

theorem step_overwritten (overwritten : s.Overwritten) (foretold : s.Foretold move) :
    (s.step raft move).Overwritten := by
  intro call lost item listed
  rcases List.mem_append.mp lost with earlier | now
  · rcases Routing.step_committed listed with before | new
    · exact overwritten call earlier item before
    · intro named
      exact foretold.2 call (new.symm.trans named) earlier
  · have fails := mem_verdicts_lost.mp now
    rcases Routing.step_committed listed with before | new
    · exact foretold.1 call fails item before
    · -- no move both commits a proposal and declares one lost
      cases move with
      | observe member =>
        rw [new]
        nofun
      | _ => cases fails

theorem verdicts_pairwise : (s.routing.verdicts raft move).Pairwise Verdict.Honors := by
  apply List.pairwise_append.mpr
  refine ⟨?_, ?_, ?_⟩
  · apply List.pairwise_map.mpr
    exact List.pairwise_of_forall fun _ _ => True.intro
  · apply List.pairwise_map.mpr
    exact List.pairwise_of_forall fun _ _ => True.intro
  · intro earlier told later _
    rcases List.mem_map.mp told with ⟨call, _, rfl⟩
    exact True.intro

theorem step_truthful (overwritten : s.Overwritten) (truthful : s.Truthful) : (s.step raft move).Truthful := by
  apply List.pairwise_append.mpr
  refine ⟨truthful, verdicts_pairwise, ?_⟩
  intro earlier recorded later new
  cases earlier with
  | applied call => exact True.intro
  | lost call =>
    cases later with
    | lost other => exact True.intro
    | applied other =>
      have applied : s.routing.applies raft move = some other := by
        simpa [Routing.verdicts] using new
      rcases Routing.applies_committed applied with ⟨item, listed, named⟩
      rintro rfl
      exact overwritten other recorded item listed named

/-- Member 1 leads, takes a put and is deposed before the put is applied.
`ending` is what becomes of the log. -/
def deposedProposer (ending : List Move) : List Move :=
  let probe : ClusterProbe := { alreadyRunning := false, voters := [] }
  let peers : List Member :=
    [{ id := 1, peerUrl := "http://one:2380", clientUrl := "", name := "one", isLearner := false },
      { id := 2, peerUrl := "http://two:2380", clientUrl := "", name := "two", isLearner := false }]
  let answer : Driver.ProposeAnswer := { progress := none, lastIndex := 0, taken := .ok () }
  let put : Submission :=
    .propose (.put { key := ascii "/a", value := ascii "v", lease := 0, prevKv := false,
                     ignoreValue := false, ignoreLease := false })
  [.restart 1 peers probe, .restart 2 peers probe,
    .role 1 .leader, .observe 1, .submit 1 put, .handle 1 0 answer,
    .role 1 .follower, .observe 1, .role 2 .leader, .observe 2] ++ ending

end Recorded
end NotK8s.Replication

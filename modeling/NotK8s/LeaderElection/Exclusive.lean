import NotK8s.LeaderElection.Lease
import NotK8s.Library.Run
import Mathlib.Data.List.Nodup

namespace NotK8s.LeaderElection

open Library

/-!
# At most one leader

A claim of a replica is a renewal time that the server acknowledged to it.
Until a lease duration after that time the Lease names the replica, since
every write still under way either expects a version the Lease has moved
past or was decided on the Lease as it stands.  Two replicas whose claims
have not expired therefore cannot both lead.
-/

/-! ## Writes that landed and writes under way -/

/-- A version that the Lease has moved past. -/
def Behind (lease : Lease) (version : Option Nat) : Prop :=
  Exists fun current => current ∈ lease.map Prod.fst ∧ forall old, old ∈ version -> old < current

/-- The Lease may be taken by this replica at this time. -/
def Permitted (cfg : ElectionConfig) (lease : Lease) (now : Nat) (identity : String) : Prop :=
  forall current, current ∈ lease ->
    mayAcquire current.2.holderIdentity current.2.renewTime cfg.leaseDuration now identity = true

/-- The Lease names this replica with a renewal no older than this. -/
def Held (lease : Lease) (identity : String) (renewed : Nat) : Prop :=
  Exists fun current => current ∈ lease ∧ current.2.holderIdentity = some identity ∧
    Exists fun last => current.2.renewTime = some last ∧ renewed ≤ last

/-- A write under way and the attempt that made it. -/
structure Decided (cfg : ElectionConfig) (clock : Nat) (lease : Lease) (write : LeaseWrite)
    (identity : String) (now : Nat) : Prop where
  begun : now ≤ clock
  holder : write.spec.holderIdentity = some identity
  renews : write.spec.renewTime = some (microTime now)
  current : Behind lease write.expected ∨ (write.expected = lease.map Prod.fst ∧ Permitted cfg lease now identity)

theorem microTime_mono {earlier later : Nat} (ordered : earlier ≤ later) : microTime earlier ≤ microTime later :=
  Nat.mul_le_mul_right 1000 (Nat.div_le_div_right ordered)

theorem land_refused {lease : Lease} {write : LeaseWrite} (refused : (land lease write).1 = false) :
    (land lease write).2 = lease := by
  unfold land at refused ⊢
  split
  · next taken => simp only [if_pos taken, Bool.true_eq_false] at refused
  · rfl

theorem land_accepted {lease : Lease} {write : LeaseWrite} (accepted : (land lease write).1 = true) :
    lease.map Prod.fst = write.expected ∧
      (land lease write).2 = some ((lease.map Prod.fst).getD 0 + 1, write.spec) := by
  unfold land at accepted ⊢
  split
  · next taken => exact ⟨taken, rfl⟩
  · next missed => simp only [if_neg missed, Bool.false_eq_true] at accepted

theorem not_behind_of_accepted {lease : Lease} {write : LeaseWrite} (accepted : (land lease write).1 = true) :
    ¬ Behind lease write.expected := by
  intro behind
  rcases behind with ⟨current, present, newer⟩
  rw [← (land_accepted accepted).1] at newer
  exact Nat.lt_irrefl current (newer current present)

theorem Behind.land {lease : Lease} {version : Option Nat} (behind : Behind lease version) (write : LeaseWrite) :
    Behind (land lease write).2 version := by
  cases accepted : (LeaderElection.land lease write).1 with
  | false =>
    rw [land_refused accepted]
    exact behind
  | true =>
    rcases behind with ⟨current, present, newer⟩
    rw [(land_accepted accepted).2]
    refine ⟨(lease.map Prod.fst).getD 0 + 1, rfl, fun old isOld => ?_⟩
    rw [Option.mem_def.mp present]
    exact Nat.lt_succ_of_lt (newer old isOld)

theorem behind_of_accepted {lease : Lease} {write : LeaseWrite} (accepted : (land lease write).1 = true) :
    Behind (land lease write).2 (lease.map Prod.fst) := by
  rw [(land_accepted accepted).2]
  refine ⟨(lease.map Prod.fst).getD 0 + 1, rfl, fun old isOld => ?_⟩
  rw [Option.mem_def.mp isOld]
  exact Nat.lt_succ_self old

/-- Taking the Lease from another replica means that its renewal expired. -/
theorem Permitted.expired {cfg : ElectionConfig} {lease : Lease} {now : Nat} {identity holder : String} {renewed : Nat}
    (permitted : Permitted cfg lease now identity) (held : Held lease holder renewed)
    (named : holder ≠ "") (other : holder ≠ identity) :
    renewed + seconds (asSecs cfg.leaseDuration) < now := by
  rcases held with ⟨current, present, holds, last, renewal, later⟩
  have taken := permitted current present
  simp only [mayAcquire, holds, renewal, if_neg named, if_neg other, decide_eq_true_eq] at taken
  exact Nat.lt_of_le_of_lt (Nat.add_le_add_right later _) taken

theorem Held.identity_eq {lease : Lease} {first second : String} {renewed other : Nat}
    (one : Held lease first renewed) (two : Held lease second other) : first = second := by
  rcases one with ⟨current, present, holds, _⟩
  rcases two with ⟨same, alsoPresent, alsoHolds, _⟩
  have equal := Option.mem_unique present alsoPresent
  rw [equal] at holds
  exact Option.some.inj (holds.symm.trans alsoHolds)

theorem attemptWrite_some {cfg : ElectionConfig} {identity : String} {now : Nat} {lease : Lease} {write : LeaseWrite}
    (made : attemptWrite cfg identity now lease = some write) :
    write.expected = lease.map Prod.fst ∧ write.spec.holderIdentity = some identity ∧
      write.spec.renewTime = some (microTime now) ∧ Permitted cfg lease now identity := by
  cases lease with
  | none =>
    cases Option.some.inj made
    exact ⟨rfl, rfl, rfl, nofun⟩
  | some held =>
    simp only [attemptWrite] at made
    split at made
    · next taken =>
        cases Option.some.inj made
        refine ⟨rfl, rfl, rfl, fun current present => ?_⟩
        cases Option.some.inj present
        exact taken
    · cases made

/-! ## Claims -/

/-- The renewal times that the server acknowledged to a replica. -/
def Replica.claims (r : Replica) : List Nat :=
  (match r.phase with
  | .leading _ renewed => [renewed]
  | _ => []) ++
  match r.activity with
  | .trying now (.written true) => [microTime now]
  | _ => []

/-- Every write that may still land. -/
def Election.pending (e : Election) : List LeaseWrite :=
  e.strays ++ e.replicas.flatMap fun r => Election.leftBehind r.activity

/-- A claim that has not expired is on the Lease, and no older write of its
replica can replace it. -/
structure Claimed (cfg : ElectionConfig) (e : Election) (identity : String) (renewed : Nat) : Prop where
  past : renewed ≤ microTime e.clock
  held : identity ≠ "" -> e.clock ≤ renewed + seconds (asSecs cfg.leaseDuration) -> Held e.lease identity renewed
  latest : forall write, write ∈ e.pending -> write.spec.holderIdentity = some identity ->
    Behind e.lease write.expected ∨ Exists fun last => write.spec.renewTime = some last ∧ renewed ≤ last

structure Replica.Accounted (cfg : ElectionConfig) (e : Election) (r : Replica) : Prop where
  begun : forall now call, r.activity = .trying now call -> now ≤ e.clock
  follows : forall now call, r.activity = .trying now call ->
    forall lastSuccess renewed, r.phase = .leading lastSuccess renewed -> renewed ≤ microTime now
  read : forall now lease, r.activity = .trying now (.read lease) ->
    lease = e.lease ∨ Behind e.lease (lease.map Prod.fst)
  writes : forall now write, r.activity = .trying now (.writing write) ->
    write.spec.holderIdentity = some r.identity ∧ write.spec.renewTime = some (microTime now)
  claims : forall renewed, renewed ∈ r.claims -> Claimed cfg e r.identity renewed

structure Accounted (cfg : ElectionConfig) (e : Election) : Prop where
  distinct : (e.replicas.map Replica.identity).Nodup
  pending : forall write, write ∈ e.pending ->
    Exists fun identity => Exists fun now => Decided cfg e.clock e.lease write identity now
  replicas : forall r, r ∈ e.replicas -> r.Accounted cfg e

theorem mem_pending_of_stray {e : Election} {write : LeaseWrite} (stray : write ∈ e.strays) : write ∈ e.pending :=
  List.mem_append_left _ stray

theorem mem_pending_of_replica {e : Election} {r : Replica} {write : LeaseWrite} (member : r ∈ e.replicas)
    (left : write ∈ Election.leftBehind r.activity) : write ∈ e.pending :=
  List.mem_append_right _ (List.mem_flatMap.mpr ⟨r, member, left⟩)

theorem update_identities {e : Election} {i : Nat} {r changed : Replica} (here : e.replicas[i]? = some r)
    (same : changed.identity = r.identity) :
    (e.replicas.set i changed).map Replica.identity = e.replicas.map Replica.identity := by
  rw [List.map_set, same]
  apply List.ext_getElem?
  intro j
  rw [List.getElem?_set]
  split
  · next equal =>
      subst equal
      rw [List.getElem?_map, here]
      split
      · rfl
      · next outside =>
          have inside := (List.getElem?_eq_some_iff.mp here).1
          rw [List.length_map] at outside
          exact absurd inside outside
  · rfl

/-! ## What each step keeps -/

/-- A write that a replica has just decided on. -/
def Fresh (cfg : ElectionConfig) (e : Election) (changed : Replica) (write : LeaseWrite) : Prop :=
  (Exists fun now => Decided cfg e.clock e.lease write changed.identity now) ∧
    forall renewed, renewed ∈ changed.claims ->
      Exists fun last => write.spec.renewTime = some last ∧ renewed ≤ last

theorem Accounted.update {cfg : ElectionConfig} {e : Election} (accounted : Accounted cfg e) {i : Nat}
    {r changed : Replica} {strays : List LeaseWrite} (here : e.replicas[i]? = some r)
    (same : changed.identity = r.identity) (left : forall write, write ∈ strays -> write ∈ e.pending)
    (live : forall write, write ∈ Election.leftBehind changed.activity -> write ∈ e.pending ∨ Fresh cfg e changed write)
    (sound : changed.Accounted cfg e) : Accounted cfg ({ e with strays := strays }.update i changed) := by
  have distinct : ((e.replicas.set i changed).map Replica.identity).Nodup := by
    rw [update_identities here same]
    exact accounted.distinct
  have member : changed ∈ e.replicas.set i changed :=
    List.mem_set (List.getElem?_eq_some_iff.mp here).1 changed
  have known : forall other, other ∈ e.replicas.set i changed -> other.Accounted cfg e := by
    intro other present
    rcases List.mem_or_eq_of_mem_set present with unchanged | equal
    · exact accounted.replicas other unchanged
    · rw [equal]
      exact sound
  have underWay : forall write, write ∈ ({ e with strays := strays }.update i changed).pending ->
      write ∈ e.pending ∨ Fresh cfg e changed write := by
    intro write present
    rcases List.mem_append.mp present with stray | replica
    · exact Or.inl (left write stray)
    · rcases List.mem_flatMap.mp replica with ⟨other, otherMember, pending⟩
      rcases List.mem_or_eq_of_mem_set otherMember with unchanged | equal
      · exact Or.inl (mem_pending_of_replica unchanged pending)
      · rw [equal] at pending
        exact live write pending
  refine ⟨distinct, fun write present => ?_, fun other present => ?_⟩
  · rcases underWay write present with before | fresh
    · exact accounted.pending write before
    · exact ⟨changed.identity, fresh.1⟩
  · have fact := known other present
    refine ⟨fact.begun, fact.follows, fact.read, fact.writes, fun renewed claimed => ?_⟩
    refine ⟨(fact.claims renewed claimed).past, (fact.claims renewed claimed).held, fun write pending holder => ?_⟩
    rcases underWay write pending with before | fresh
    · exact (fact.claims renewed claimed).latest write before holder
    · rcases fresh.1 with ⟨now, decided⟩
      have equal : other = changed :=
        List.inj_on_of_nodup_map distinct present member (Option.some.inj (holder.symm.trans decided.holder))
      rw [equal] at claimed
      exact Or.inr (fresh.2 renewed claimed)

theorem Accounted.tick {cfg : ElectionConfig} {e : Election} (accounted : Accounted cfg e) (elapsed : Nat) :
    Accounted cfg { e with clock := e.clock + elapsed } := by
  have grows : e.clock ≤ e.clock + elapsed := Nat.le_add_right _ _
  refine ⟨accounted.distinct, fun write present => ?_, fun r member => ?_⟩
  · rcases accounted.pending write present with ⟨identity, now, decided⟩
    exact ⟨identity, now, Nat.le_trans decided.begun grows, decided.holder, decided.renews, decided.current⟩
  · have fact := accounted.replicas r member
    refine ⟨fun now call trying => Nat.le_trans (fact.begun now call trying) grows, fact.follows, fact.read,
      fact.writes, fun renewed claimed => ?_⟩
    have claim := fact.claims renewed claimed
    exact ⟨Nat.le_trans claim.past (microTime_mono grows),
      fun named timely => claim.held named (Nat.le_trans grows timely), claim.latest⟩

theorem Accounted.behind_of_accepted {cfg : ElectionConfig} {e : Election} (accounted : Accounted cfg e)
    {write : LeaseWrite} (accepted : (LeaderElection.land e.lease write).1 = true) {other : LeaseWrite}
    (present : other ∈ e.pending) : Behind (LeaderElection.land e.lease write).2 other.expected := by
  rcases accounted.pending other present with ⟨_, _, decided⟩
  rcases decided.current with behind | allowed
  · exact behind.land write
  · rw [allowed.1]
    exact LeaderElection.behind_of_accepted accepted

theorem Accounted.land {cfg : ElectionConfig} {e : Election} (accounted : Accounted cfg e) {write : LeaseWrite}
    (underWay : write ∈ e.pending) : Accounted cfg { e with lease := (LeaderElection.land e.lease write).2 } := by
  cases accepted : (LeaderElection.land e.lease write).1 with
  | false =>
    rw [land_refused accepted]
    exact accounted
  | true =>
    rcases accounted.pending write underWay with ⟨taker, at_, decided⟩
    have permitted : Permitted cfg e.lease at_ taker := by
      rcases decided.current with behind | allowed
      · exact absurd behind (not_behind_of_accepted accepted)
      · exact allowed.2
    refine ⟨accounted.distinct, fun other present => ?_, fun r member => ?_⟩
    · rcases accounted.pending other present with ⟨identity, now, otherDecided⟩
      exact ⟨identity, now, otherDecided.begun, otherDecided.holder, otherDecided.renews,
        Or.inl (accounted.behind_of_accepted accepted present)⟩
    · have fact := accounted.replicas r member
      refine ⟨fact.begun, fact.follows, fun now lease reading => Or.inr ?_, fact.writes, fun renewed claimed => ?_⟩
      · rcases fact.read now lease reading with equal | behind
        · rw [equal]
          exact LeaderElection.behind_of_accepted accepted
        · exact behind.land write
      · have claim := fact.claims renewed claimed
        refine ⟨claim.past, fun named timely => ?_, fun other present _ => Or.inl (accounted.behind_of_accepted accepted present)⟩
        have held := claim.held named timely
        by_cases own : r.identity = taker
        · -- The replica's own later renewal.
          rcases claim.latest write underWay (own ▸ decided.holder) with behind | later
          · exact absurd behind (not_behind_of_accepted accepted)
          · rcases later with ⟨last, renews, ordered⟩
            refine ⟨_, (land_accepted accepted).2, ?_, last, renews, ordered⟩
            exact own ▸ decided.holder
        · have expired := permitted.expired held named own
          exact absurd (Nat.lt_of_lt_of_le expired decided.begun) (Nat.not_lt.mpr timely)

theorem mem_claims_of_leading {r : Replica} {lastSuccess renewed : Nat} (leading : r.phase = .leading lastSuccess renewed) :
    renewed ∈ r.claims := by
  rw [Replica.claims, leading]
  exact List.mem_append_left _ (List.mem_singleton_self renewed)

theorem mem_claims_of_written {r : Replica} {now : Nat} (written : r.activity = .trying now (.written true)) :
    microTime now ∈ r.claims := by
  rw [Replica.claims, written]
  exact List.mem_append_right _ (.head _)

theorem mem_claims {r : Replica} {renewed : Nat} (claimed : renewed ∈ r.claims) :
    (Exists fun lastSuccess => r.phase = .leading lastSuccess renewed) ∨
      Exists fun now => r.activity = .trying now (.written true) ∧ renewed = microTime now := by
  rcases List.mem_append.mp claimed with leading | written
  · split at leading
    · next lastSuccess known phase =>
        rw [List.mem_singleton.mp leading]
        exact Or.inl ⟨lastSuccess, phase⟩
    · cases leading
  · split at written
    · next now activity => exact Or.inr ⟨now, activity, List.mem_singleton.mp written⟩
    · cases written

/-- A replica in the middle of an attempt that has not been acknowledged
claims what it claimed before. -/
theorem claims_trying {r changed : Replica} {renewed : Nat} (claimed : renewed ∈ changed.claims)
    (samePhase : changed.phase = r.phase) (unacknowledged : forall now, changed.activity ≠ .trying now (.written true)) :
    renewed ∈ r.claims := by
  rcases mem_claims claimed with leading | written
  · rcases leading with ⟨lastSuccess, phase⟩
    exact mem_claims_of_leading (samePhase.symm.trans phase)
  · rcases written with ⟨now, activity, _⟩
    exact absurd activity (unacknowledged now)

theorem finish_identity (cfg : ElectionConfig) (clock : Nat) (result : AttemptResult) (r : Replica) :
    (r.finish cfg clock result).identity = r.identity := by
  unfold Replica.finish
  repeat' split
  all_goals rfl

theorem finish_sleeps (cfg : ElectionConfig) (clock : Nat) (result : AttemptResult) (r : Replica) :
    (r.finish cfg clock result).activity = .sleeping (clock + cfg.retryPeriod) := by
  unfold Replica.finish
  repeat' split
  all_goals rfl

/-- The attempt that ended gave the replica its present renewal. -/
def Renews (result : AttemptResult) (r : Replica) (renewed : Nat) : Prop :=
  result = .acquired ∧ Exists fun now => Exists fun call => r.activity = .trying now call ∧ renewed = microTime now

theorem finish_leading {cfg : ElectionConfig} {clock : Nat} {result : AttemptResult} {r : Replica} {success renewed : Nat}
    (leads : (r.finish cfg clock result).phase = .leading success renewed) :
    (Exists fun lastSuccess => r.phase = .leading lastSuccess renewed) ∨ Renews result r renewed := by
  unfold Replica.finish at leads
  split at leads
  · next now call _ acting =>
      injection leads with _ same
      exact Or.inr ⟨rfl, now, call, acting, same.symm⟩
  · next acquiring _ => cases acquiring.symm.trans leads
  · next now call _ acting =>
      split at leads
      · cases leads
      · injection leads with _ same
        exact Or.inr ⟨rfl, now, call, acting, same.symm⟩
  · cases leads
  · split at leads
    · cases leads
    · exact Or.inl ⟨success, leads⟩
  · next lost => cases lost.symm.trans leads

theorem Replica.Accounted.finish {cfg : ElectionConfig} {e : Election} {r : Replica} (fact : r.Accounted cfg e)
    (result : AttemptResult)
    (acknowledged : result = .acquired -> Exists fun now => r.activity = .trying now (.written true)) :
    (r.finish cfg e.clock result).Accounted cfg e := by
  have sleeps := finish_sleeps cfg e.clock result r
  refine ⟨fun now call trying => ?_, fun now call trying => ?_, fun now lease trying => ?_, fun now write trying => ?_,
    fun renewed claimed => ?_⟩
  · rw [sleeps] at trying
    cases trying
  · rw [sleeps] at trying
    cases trying
  · rw [sleeps] at trying
    cases trying
  · rw [sleeps] at trying
    cases trying
  · rw [finish_identity]
    apply fact.claims
    rcases mem_claims claimed with leading | written
    · rcases leading with ⟨success, leads⟩
      rcases finish_leading leads with before | renews
      · rcases before with ⟨lastSuccess, phase⟩
        exact mem_claims_of_leading phase
      · rcases renews with ⟨acquired, now, call, activity, equal⟩
        rcases acknowledged acquired with ⟨now', written⟩
        have same := activity.symm.trans written
        injection same with sameNow
        rw [equal, sameNow]
        exact mem_claims_of_written written
    · rcases written with ⟨now, activity, _⟩
      rw [sleeps] at activity
      cases activity

theorem Accounted.finish {cfg : ElectionConfig} {e : Election} (accounted : Accounted cfg e) {i : Nat} {r : Replica}
    {strays : List LeaseWrite} (here : e.replicas[i]? = some r) (left : forall write, write ∈ strays -> write ∈ e.pending)
    (result : AttemptResult)
    (acknowledged : result = .acquired -> Exists fun now => r.activity = .trying now (.written true)) :
    Accounted cfg ({ e with strays := strays }.update i (r.finish cfg e.clock result)) := by
  have fact := accounted.replicas r (List.mem_of_getElem? here)
  refine accounted.update here (finish_identity cfg e.clock result r) left (fun write live => ?_)
    (fact.finish result acknowledged)
  rw [finish_sleeps] at live
  cases live

theorem Accounted.abandon {cfg : ElectionConfig} {e : Election} (accounted : Accounted cfg e) {i : Nat} {r : Replica}
    (here : e.replicas[i]? = some r) : Accounted cfg (e.abandon cfg i r) := by
  refine accounted.finish here (fun write present => ?_) .failed nofun
  rcases List.mem_append.mp present with stray | live
  · exact mem_pending_of_stray stray
  · exact mem_pending_of_replica (List.mem_of_getElem? here) live

theorem Accounted.wake {cfg : ElectionConfig} {e : Election} (accounted : Accounted cfg e) {i : Nat} {r : Replica}
    (here : e.replicas[i]? = some r) :
    Accounted cfg (e.update i { r with activity := .trying e.clock .reading }) := by
  have fact := accounted.replicas r (List.mem_of_getElem? here)
  refine accounted.update here rfl (fun write => mem_pending_of_stray) nofun ?_
  refine ⟨fun now call trying => ?_, fun now call trying lastSuccess renewed phase => ?_, fun now lease trying => ?_,
    fun now write trying => ?_, fun renewed claimed => ?_⟩
  · injection trying with same
    exact Nat.le_of_eq same.symm
  · injection trying with same
    rw [← same]
    exact (fact.claims renewed (mem_claims_of_leading phase)).past
  · injection trying with _ same
    cases same
  · injection trying with _ same
    cases same
  · exact fact.claims renewed (claims_trying claimed rfl nofun)

theorem Accounted.serveCall {cfg : ElectionConfig} {e : Election} (accounted : Accounted cfg e) {i : Nat} {r : Replica}
    (here : e.replicas[i]? = some r) : Accounted cfg (e.serveCall i r) := by
  have member := List.mem_of_getElem? here
  unfold Election.serveCall
  split
  · next now activity =>
      have fact := accounted.replicas r member
      refine accounted.update here rfl (fun write => mem_pending_of_stray) nofun ?_
      refine ⟨fun now' call trying => ?_, fun now' call trying => ?_, fun now' lease trying => ?_,
        fun now' write trying => ?_, fun renewed claimed => ?_⟩
      · injection trying with same
        exact same ▸ fact.begun now _ activity
      · injection trying with same
        exact same ▸ fact.follows now _ activity
      · injection trying with _ same
        injection same with sameLease
        exact Or.inl sameLease.symm
      · injection trying with _ same
        cases same
      · exact fact.claims renewed (claims_trying claimed rfl nofun)
  · next now write activity =>
      have underWay : write ∈ e.pending := by
        apply mem_pending_of_replica member
        rw [activity]
        exact List.mem_singleton_self write
      have landed := accounted.land underWay
      have fact := landed.replicas r member
      have names := fact.writes now write activity
      refine landed.update here rfl (fun write => mem_pending_of_stray) nofun ?_
      refine ⟨fun now' call trying => ?_, fun now' call trying => ?_, fun now' lease trying => ?_,
        fun now' write trying => ?_, fun renewed claimed => ?_⟩
      · injection trying with same
        exact same ▸ fact.begun now _ activity
      · injection trying with same
        exact same ▸ fact.follows now _ activity
      · injection trying with _ same
        cases same
      · injection trying with _ same
        cases same
      · rcases mem_claims claimed with leading | written
        · rcases leading with ⟨lastSuccess, phase⟩
          exact fact.claims renewed (mem_claims_of_leading phase)
        · rcases written with ⟨now', acknowledged, equal⟩
          injection acknowledged with sameNow sameCall
          injection sameCall with accepted
          rw [equal, ← sameNow]
          refine ⟨microTime_mono (fact.begun now _ activity), fun named timely => ?_, fun other present holder => ?_⟩
          · exact ⟨_, (land_accepted accepted).2, names.1, _, names.2, Nat.le_refl _⟩
          · exact Or.inl (accounted.behind_of_accepted accepted present)
  · exact accounted

theorem Accounted.replyTo {cfg : ElectionConfig} {e : Election} (accounted : Accounted cfg e) {i : Nat} {r : Replica}
    (here : e.replicas[i]? = some r) : Accounted cfg (e.replyTo cfg i r) := by
  have fact := accounted.replicas r (List.mem_of_getElem? here)
  unfold Election.replyTo
  split
  · next now lease activity =>
      split
      · next write made =>
          have decided := attemptWrite_some made
          refine accounted.update here rfl (fun write => mem_pending_of_stray) (fun other live => Or.inr ?_) ?_
          · rw [List.mem_singleton.mp live]
            refine ⟨⟨now, fact.begun now _ activity, decided.2.1, decided.2.2.1, ?_⟩, fun renewed claimed => ?_⟩
            · rcases fact.read now lease activity with equal | behind
              · exact Or.inr (equal ▸ ⟨decided.1, decided.2.2.2⟩)
              · exact Or.inl (decided.1 ▸ behind)
            · rcases mem_claims claimed with leading | written
              · rcases leading with ⟨lastSuccess, phase⟩
                exact ⟨microTime now, decided.2.2.1, fact.follows now _ activity lastSuccess renewed phase⟩
              · rcases written with ⟨_, acknowledged, _⟩
                cases acknowledged
          · refine ⟨fun now' call trying => ?_, fun now' call trying => ?_, fun now' lease trying => ?_,
              fun now' write' trying => ?_, fun renewed claimed => ?_⟩
            · injection trying with same
              exact same ▸ fact.begun now _ activity
            · injection trying with same
              exact same ▸ fact.follows now _ activity
            · injection trying with _ same
              cases same
            · injection trying with sameNow sameCall
              injection sameCall with sameWrite
              rw [← sameNow, ← sameWrite]
              exact ⟨decided.2.1, decided.2.2.1⟩
            · exact fact.claims renewed (claims_trying claimed rfl nofun)
      · exact accounted.finish here (fun write => mem_pending_of_stray) .refused nofun
  · next now accepted activity =>
      refine accounted.finish here (fun write => mem_pending_of_stray) _ fun acquired => ?_
      cases accepted with
      | true => exact ⟨now, activity⟩
      | false => cases acquired
  · exact accounted

theorem Accounted.step {cfg : ElectionConfig} {e : Election} (accounted : Accounted cfg e) (taken : Step) :
    Accounted cfg (e.step cfg taken) := by
  cases taken with
  | tick elapsed => exact accounted.tick elapsed
  | wake i =>
    simp only [Election.step]
    split
    · exact accounted
    · next r here =>
        split
        · split
          · exact accounted.wake here
          · exact accounted
        · exact accounted
  | serve i =>
    simp only [Election.step]
    split
    · exact accounted
    · next r here => exact accounted.serveCall here
  | reply i =>
    simp only [Election.step]
    split
    · exact accounted
    · next r here => exact accounted.replyTo here
  | failure i =>
    simp only [Election.step]
    split
    · exact accounted
    · next r here =>
        split
        · exact accounted.abandon here
        · exact accounted
  | timeout i =>
    simp only [Election.step]
    split
    · exact accounted
    · next r here =>
        split
        · split
          · exact accounted.abandon here
          · exact accounted
        · exact accounted
  | stray k =>
    simp only [Election.step]
    split
    · exact accounted
    · next write here =>
        have landed := accounted.land (mem_pending_of_stray (List.mem_of_getElem? here))
        let after : Election := ⟨e.clock, (LeaderElection.land e.lease write).2, e.replicas, e.strays.eraseIdx k⟩
        have fewer : forall other, other ∈ after.pending -> other ∈ e.pending := by
          intro other present
          rcases List.mem_append.mp present with stray | live
          · exact mem_pending_of_stray (List.mem_of_mem_eraseIdx stray)
          · exact List.mem_append_right _ live
        refine ⟨landed.distinct, fun other present => landed.pending other (fewer other present), fun r member => ?_⟩
        have fact := landed.replicas r member
        refine ⟨fact.begun, fact.follows, fact.read, fact.writes, fun renewed claimed => ?_⟩
        have claim := fact.claims renewed claimed
        exact ⟨claim.past, claim.held, fun other present => claim.latest other (fewer other present)⟩

theorem accounted_start (cfg : ElectionConfig) (lease : Lease) {identities : List String} (distinct : identities.Nodup) :
    Accounted cfg (Election.start lease identities) := by
  have asleep : forall r, r ∈ (Election.start lease identities).replicas ->
      r.activity = .sleeping 0 ∧ r.phase = .acquiring := by
    intro r member
    rcases List.mem_map.mp member with ⟨identity, _, made⟩
    rw [← made]
    exact ⟨rfl, rfl⟩
  refine ⟨?_, fun write present => ?_, fun r member => ?_⟩
  · rw [Election.start, List.map_map]
    simpa only [Function.comp_def, List.map_id'] using distinct
  · rcases List.mem_append.mp present with stray | live
    · cases stray
    · rcases List.mem_flatMap.mp live with ⟨r, member, left⟩
      rw [(asleep r member).1] at left
      cases left
  · have sleeping := (asleep r member).1
    refine ⟨fun now call trying => ?_, fun now call trying => ?_, fun now lease trying => ?_, fun now write trying => ?_,
      fun renewed claimed => ?_⟩
    · cases sleeping.symm.trans trying
    · cases sleeping.symm.trans trying
    · cases sleeping.symm.trans trying
    · cases sleeping.symm.trans trying
    · rcases mem_claims claimed with leading | written
      · rcases leading with ⟨lastSuccess, phase⟩
        cases (asleep r member).2.symm.trans phase
      · rcases written with ⟨now, trying, _⟩
        cases sleeping.symm.trans trying

/-! ## Leaders -/

/-- Between the return of `acquire` and the return of `renew_until_lost`. -/
def leads : Phase -> Bool
  | .leading _ _ => true
  | _ => false

/-- No two replicas lead. -/
def Exclusive (e : Election) : Prop :=
  forall (i j : Nat) (one two : Replica), e.replicas[i]? = some one -> e.replicas[j]? = some two ->
    leads one.phase = true -> leads two.phase = true -> i = j

/-- The time until which no other replica may take a Lease renewed then. -/
def expiry (cfg : ElectionConfig) (renewed : Nat) : Nat :=
  renewed + seconds (asSecs cfg.leaseDuration)

/-- The renewal time a leader was last acknowledged. -/
def renewal? : Phase -> Option Nat
  | .leading _ renewed => some renewed
  | _ => none

/-- When the attempt began whose write the server has accepted. -/
def accepted? : Activity -> Option Nat
  | .trying now (.written true) => some now
  | _ => none

/-- No leader outlasts the renewal it was last acknowledged, and no attempt
is acknowledged after the renewal it wrote has expired. -/
def Timely (cfg : ElectionConfig) (e : Election) : Step -> Prop
  | .tick elapsed => forall r, r ∈ e.replicas -> forall renewed, renewed ∈ renewal? r.phase ->
      e.clock + elapsed ≤ expiry cfg renewed
  | .reply i => forall r, r ∈ e.replicas[i]? -> forall now, now ∈ accepted? r.activity ->
      r.identity ≠ "" ∧ e.clock ≤ expiry cfg (microTime now)
  | _ => True

instance (cfg : ElectionConfig) (e : Election) : forall taken, Decidable (Timely cfg e taken)
  | .tick elapsed => inferInstanceAs (Decidable (forall r, r ∈ e.replicas -> forall renewed, renewed ∈ renewal? r.phase ->
      e.clock + elapsed ≤ expiry cfg renewed))
  | .reply i => inferInstanceAs (Decidable (forall r, r ∈ e.replicas[i]? -> forall now, now ∈ accepted? r.activity ->
      r.identity ≠ "" ∧ e.clock ≤ expiry cfg (microTime now)))
  | .wake _ => isTrue True.intro
  | .serve _ => isTrue True.intro
  | .failure _ => isTrue True.intro
  | .timeout _ => isTrue True.intro
  | .stray _ => isTrue True.intro

/-- Every leader is within the renewal it was last acknowledged. -/
def Current (cfg : ElectionConfig) (e : Election) : Prop :=
  forall r, r ∈ e.replicas -> forall lastSuccess renewed, r.phase = .leading lastSuccess renewed ->
    r.identity ≠ "" ∧ e.clock ≤ expiry cfg renewed

theorem Accounted.eq_of_held {cfg : ElectionConfig} {e : Election} (accounted : Accounted cfg e) {i j : Nat}
    {one two : Replica} {renewed other : Nat} (first : e.replicas[i]? = some one) (second : e.replicas[j]? = some two)
    (oneHolds : Held e.lease one.identity renewed) (twoHolds : Held e.lease two.identity other) : i = j := by
  have inside := (List.getElem?_eq_some_iff.mp first).1
  have same : (e.replicas.map Replica.identity)[i]? = (e.replicas.map Replica.identity)[j]? := by
    rw [List.getElem?_map, List.getElem?_map, first, second, Option.map_some, Option.map_some,
      oneHolds.identity_eq twoHolds]
  exact (List.getElem?_inj (by rw [List.length_map]; exact inside) accounted.distinct).mp same

theorem Accounted.exclusive {cfg : ElectionConfig} {e : Election} (accounted : Accounted cfg e)
    (current : Current cfg e) : Exclusive e := by
  have held : forall r, r ∈ e.replicas -> leads r.phase = true -> Exists fun renewed => Held e.lease r.identity renewed := by
    intro r member leading
    cases phase : r.phase with
    | acquiring | lost => rw [phase] at leading; cases leading
    | leading lastSuccess renewed =>
      have timely := current r member lastSuccess renewed phase
      exact ⟨renewed, ((accounted.replicas r member).claims renewed (mem_claims_of_leading phase)).held timely.1 timely.2⟩
  intro i j one two first second oneLeads twoLeads
  rcases held one (List.mem_of_getElem? first) oneLeads with ⟨_, oneHolds⟩
  rcases held two (List.mem_of_getElem? second) twoLeads with ⟨_, twoHolds⟩
  exact accounted.eq_of_held first second oneHolds twoHolds

theorem current_update {cfg : ElectionConfig} {e : Election} (current : Current cfg e) {i : Nat} {changed : Replica}
    (sound : forall lastSuccess renewed, changed.phase = .leading lastSuccess renewed ->
      changed.identity ≠ "" ∧ e.clock ≤ expiry cfg renewed) : Current cfg (e.update i changed) := by
  intro r member
  rcases List.mem_or_eq_of_mem_set member with unchanged | equal
  · exact current r unchanged
  · rw [equal]
    exact sound

theorem current_finish {cfg : ElectionConfig} {e : Election} (current : Current cfg e) {r : Replica} (member : r ∈ e.replicas)
    {result : AttemptResult}
    (timely : result = .acquired -> Exists fun now => r.activity = .trying now (.written true) ∧ r.identity ≠ "" ∧
      e.clock ≤ expiry cfg (microTime now)) (lastSuccess renewed : Nat)
    (leading : (r.finish cfg e.clock result).phase = .leading lastSuccess renewed) :
    (r.finish cfg e.clock result).identity ≠ "" ∧ e.clock ≤ expiry cfg renewed := by
  rw [finish_identity]
  rcases finish_leading leading with before | renews
  · rcases before with ⟨last, phase⟩
    exact current r member last renewed phase
  · rcases renews with ⟨acquired, now, call, activity, equal⟩
    rcases timely acquired with ⟨now', written, within⟩
    have same := activity.symm.trans written
    injection same with sameNow
    rw [equal, sameNow]
    exact within

theorem current_abandon {cfg : ElectionConfig} {e : Election} (current : Current cfg e) {i : Nat} {r : Replica}
    (here : e.replicas[i]? = some r) : Current cfg (e.abandon cfg i r) := by
  have left : Current cfg { e with strays := e.strays ++ Election.leftBehind r.activity } := current
  exact current_update left (current_finish left (List.mem_of_getElem? here) nofun)

theorem current_step {cfg : ElectionConfig} {e : Election} (current : Current cfg e) {taken : Step}
    (timely : Timely cfg e taken) : Current cfg (e.step cfg taken) := by
  cases taken with
  | tick elapsed =>
    intro r member lastSuccess renewed phase
    have known : renewed ∈ renewal? r.phase := by
      rw [phase]
      rfl
    exact ⟨(current r member lastSuccess renewed phase).1, timely r member renewed known⟩
  | wake i =>
    simp only [Election.step]
    split
    · exact current
    · next r here =>
        split
        · split
          · exact current_update current (current r (List.mem_of_getElem? here))
          · exact current
        · exact current
  | serve i =>
    simp only [Election.step]
    split
    · exact current
    · next r here =>
        unfold Election.serveCall
        split
        · exact current_update current (current r (List.mem_of_getElem? here))
        · next now write activity =>
            have landed : Current cfg { e with lease := (LeaderElection.land e.lease write).2 } := current
            exact current_update landed (current r (List.mem_of_getElem? here))
        · exact current
  | reply i =>
    simp only [Election.step]
    split
    · exact current
    · next r here =>
        have member := List.mem_of_getElem? here
        unfold Election.replyTo
        split
        · split
          · exact current_update current (current r member)
          · exact current_update current (current_finish current member nofun)
        · next now accepted activity =>
            refine current_update current (current_finish current member fun acquired => ?_)
            cases accepted with
            | true =>
              have known : now ∈ accepted? r.activity := by
                rw [activity]
                rfl
              exact ⟨now, activity, timely r here now known⟩
            | false => cases acquired
        · exact current
  | failure i =>
    simp only [Election.step]
    split
    · exact current
    · next r here =>
        split
        · exact current_abandon current here
        · exact current
  | timeout i =>
    simp only [Election.step]
    split
    · exact current
    · next r here =>
        split
        · split
          · exact current_abandon current here
          · exact current
        · exact current
  | stray k =>
    simp only [Election.step]
    split
    · exact current
    · exact current

private def usualConfig : ElectionConfig := ⟨true, seconds 15, seconds 10, seconds 2⟩

/-- A replica takes the Lease, renews it in time, and another is refused. -/
private def renewedInTime : List Step :=
  [.wake 0, .serve 0, .reply 0, .serve 0, .reply 0, .tick (seconds 2), .wake 0, .wake 1, .serve 0, .serve 1, .reply 1,
    .reply 0, .serve 0, .reply 0, .tick (seconds 14)]

/-- The first write of one replica takes effect at once, but its reply takes
sixteen seconds, in which another replica acquires. -/
private def slowFirstReply : List Step :=
  [.wake 0, .serve 0, .reply 0, .serve 0, .tick (seconds 16), .wake 1, .serve 1, .reply 1, .serve 1, .reply 1, .reply 0]

/-- The replica leads on a renewal that has not expired. -/
def Unexpired (cfg : ElectionConfig) (e : Election) (i : Nat) (r : Replica) (renewed : Nat) : Prop :=
  e.replicas[i]? = some r ∧ renewed ∈ renewal? r.phase ∧ r.identity ≠ "" ∧ e.clock ≤ expiry cfg renewed

/-- A leader whose renewal has not expired is on the Lease, and is the only one. -/
def Fenced (cfg : ElectionConfig) (e : Election) : Prop :=
  forall i one renewed, Unexpired cfg e i one renewed -> Held e.lease one.identity renewed ∧
    forall j two other, Unexpired cfg e j two other -> i = j

/-- Whatever the clock does between the steps, and whichever calls fail, time
out or take effect late, the Lease fences the leaders that it outlasts. -/
theorem Election.always_fenced (cfg : ElectionConfig) (lease : Lease) (identities : List String)
    (distinct : identities.Nodup) (steps : List Step) :
    AlongRun (Election.step cfg) (Fenced cfg) (Election.start lease identities) steps := by
  have keeps : forall e taken, Accounted cfg e -> True -> Accounted cfg (e.step cfg taken) :=
    fun e taken accounted _ => accounted.step taken
  refine (AlongRun.of_invariant keeps (accounted_start cfg lease distinct)
    (EveryStep.unconditional _ steps)).mono fun e accounted => ?_
  have held : forall i r renewed, Unexpired cfg e i r renewed -> Held e.lease r.identity renewed := by
    intro i r renewed unexpired
    rcases unexpired with ⟨here, leads, named, within⟩
    cases phase : r.phase with
    | acquiring | lost => rw [phase] at leads; cases leads
    | leading lastSuccess last =>
      rw [phase] at leads
      cases leads
      exact ((accounted.replicas r (List.mem_of_getElem? here)).claims _ (mem_claims_of_leading phase)).held named within
  intro i one renewed first
  exact ⟨held i one renewed first, fun j two other second =>
    accounted.eq_of_held first.1 second.1 (held i one renewed first) (held j two other second)⟩

theorem Election.always_fenced_slowFirstReply :
    AlongRun (Election.step usualConfig) (Fenced usualConfig) (Election.start none ["a", "b"]) slowFirstReply :=
  Election.always_fenced usualConfig none ["a", "b"] (by decide) slowFirstReply

end NotK8s.LeaderElection

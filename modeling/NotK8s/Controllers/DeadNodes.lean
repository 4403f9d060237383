import Mathlib.Tactic.Linarith
import Mathlib.Tactic.NormNum
import Mathlib.Tactic.Ring
import NotK8s.Library.Run
import NotK8s.Controllers.NodeLifecycle

namespace NotK8s.Controllers
namespace NodeLifecycle

open Library

/-!
# Dead Nodes are noticed

A Node whose renewal the cache has is unreachable already, or its look in the
wheel is due when the renewal has become stale and not much later.  Both
halves hang on the cache, so whatever makes the cache miss a renewal, a look or
the result of a patch leaves a dead Node unnoticed.
-/

/-! ## Taint lists -/

def Unreachable (taints : List Taint) : Prop :=
  currentLifecycleTaint taints = .unreachable

instance (taints : List Taint) : Decidable (Unreachable taints) :=
  inferInstanceAs (Decidable (_ = _))

section
variable {taints existing : List Taint} {node : Node} {readyStatus : Option String} {stale : Bool}

theorem unreachable_iff : Unreachable taints <-> Exists fun t => t ∈ taints ∧ t.key = unreachableTaintKey := by
  unfold Unreachable currentLifecycleTaint
  split_ifs with some_ other
  · refine iff_of_true rfl ?_
    rcases List.any_eq_true.mp some_ with ⟨t, listed, same⟩
    exact ⟨t, listed, eq_of_beq same⟩
  all_goals
    refine iff_of_false nofun ?_
    rintro ⟨t, listed, same⟩
    exact some_ (List.any_eq_true.mpr ⟨t, listed, beq_iff_eq.mpr same⟩)

theorem isLifecycleTaint_unreachable {t : Taint} (same : t.key = unreachableTaintKey) : isLifecycleTaint t = true := by
  unfold isLifecycleTaint
  rw [same]
  decide

theorem desired_unreachable : desiredTaint readyStatus stale = .unreachable <-> stale = true := by
  unfold desiredTaint
  split_ifs with isStale notReady
  · exact iff_of_true rfl isStale
  · exact iff_of_false nofun isStale
  · exact iff_of_false nofun isStale

theorem applyDesired_unreachable {desired : LifecycleTaint} :
    Unreachable (applyDesiredTaint existing desired) <-> desired = .unreachable := by
  rw [unreachable_iff]
  have kept : forall t, t ∈ (existing.filter fun t => !isLifecycleTaint t) -> t.key ≠ unreachableTaintKey := by
    intro t listed same
    have other := (List.mem_filter.mp listed).2
    rw [isLifecycleTaint_unreachable same] at other
    cases other
  cases desired with
  | none => exact iff_of_false (fun some_ => some_.elim fun t both => kept t both.1 both.2) nofun
  | notReady =>
    refine iff_of_false ?_ nofun
    rintro ⟨t, listed, same⟩
    rcases List.mem_append.mp listed with old | new
    · exact kept t old same
    · rw [List.mem_singleton.mp new] at same
      revert same
      decide
  | unreachable => exact iff_of_true ⟨_, List.mem_append_right _ (.head _), rfl⟩ rfl

theorem newTaints_none (right : newTaints node readyStatus stale = none) : Unreachable node.taints <-> stale = true := by
  unfold newTaints at right
  dsimp only at right
  split_ifs at right with same
  unfold Unreachable
  rw [same]
  exact desired_unreachable

theorem newTaints_some (wrong : newTaints node readyStatus stale = some taints) : Unreachable taints <-> stale = true := by
  unfold newTaints at wrong
  dsimp only at wrong
  split_ifs at wrong
  rw [← Option.some.inj wrong, applyDesired_unreachable]
  exact desired_unreachable

theorem merge_unreachable {cached : Node} :
    Unreachable (mergeCachedLifecycleTaints node (some cached)).taints <-> Unreachable cached.taints := by
  rw [unreachable_iff, unreachable_iff]
  unfold mergeCachedLifecycleTaints
  constructor
  · rintro ⟨t, listed, same⟩
    rcases List.mem_append.mp listed with own | owned
    · have other := (List.mem_filter.mp own).2
      rw [isLifecycleTaint_unreachable same] at other
      cases other
    · exact ⟨t, (List.mem_filter.mp owned).1, same⟩
  · rintro ⟨t, listed, same⟩
    exact ⟨t, List.mem_append_right _ (List.mem_filter.mpr ⟨listed, isLifecycleTaint_unreachable same⟩), same⟩

end

/-! ## Deadlines -/

namespace Config

variable {cfg : Config} {wheel : TimingWheel String} {name : String} {renew sample now : ℚ} {clock : Clock}

/-- The farthest a look is put off. -/
def swing (cfg : Config) : ℚ :=
  cfg.nodeMonitorGracePeriod * cfg.jitterFraction

theorem stale_iff : renewalIsStale (some renew) now cfg.nodeMonitorGracePeriod cfg.jitterFraction = true <->
    cfg.nodeMonitorGracePeriod * (1 - cfg.jitterFraction) ≤ now - renew := by
  unfold renewalIsStale
  rw [decide_eq_true_iff, max_eq_left (by linarith [cfg.jitter_lt_one])]

theorem stale_of_grace (over_ : renew + cfg.nodeMonitorGracePeriod ≤ now) :
    renewalIsStale (some renew) now cfg.nodeMonitorGracePeriod cfg.jitterFraction = true := by
  rw [stale_iff]
  have nonneg : (0 : ℚ) ≤ cfg.nodeMonitorGracePeriod * cfg.jitterFraction :=
    mul_nonneg (Nat.cast_nonneg _) cfg.jitter_nonneg
  linarith

theorem stale_later {later : ℚ} (stale : renewalIsStale (some renew) now cfg.nodeMonitorGracePeriod cfg.jitterFraction = true)
    (le : now ≤ later) : renewalIsStale (some renew) later cfg.nodeMonitorGracePeriod cfg.jitterFraction = true := by
  rw [stale_iff] at stale ⊢
  linarith

theorem schedule_eq : Exists fun delta => 0 ≤ delta ∧ delta ≤ cfg.swing ∧
    cfg.schedule wheel name renew sample clock.wall clock.instant =
      wheel.insert name (renew + cfg.nodeMonitorGracePeriod - (clock.wall - clock.instant) + delta) := by
  have grace : (0 : ℚ) ≤ cfg.nodeMonitorGracePeriod := Nat.cast_nonneg _
  have fraction : max (-1) (min cfg.jitterFraction 1) = cfg.jitterFraction := by
    rw [min_eq_left cfg.jitter_lt_one.le, max_eq_right (by linarith [cfg.jitter_nonneg])]
  have low : (0 : ℚ) ≤ max 0 (min sample 1) := le_max_left _ _
  have high : max 0 (min sample 1) ≤ (1 : ℚ) := max_le (by norm_num) (min_le_right _ _)
  let delta : ℚ := cfg.nodeMonitorGracePeriod * max 0 (min sample 1) * cfg.jitterFraction
  have nonneg : 0 ≤ delta := mul_nonneg (mul_nonneg grace low) cfg.jitter_nonneg
  have jittered : jitter cfg.nodeMonitorGracePeriod sample cfg.jitterFraction = cfg.nodeMonitorGracePeriod + delta := by
    unfold jitter
    rw [fraction]
    exact max_eq_left (add_nonneg grace nonneg)
  have base : wallToInstant (renew + cfg.nodeMonitorGracePeriod) clock.wall clock.instant =
      renew + cfg.nodeMonitorGracePeriod - (clock.wall - clock.instant) := by
    unfold wallToInstant
    dsimp only
    split_ifs <;> ring
  refine ⟨delta, nonneg, ?_, ?_⟩
  · calc
      delta ≤ cfg.nodeMonitorGracePeriod * 1 * cfg.jitterFraction :=
        mul_le_mul_of_nonneg_right (mul_le_mul_of_nonneg_left high grace) cfg.jitter_nonneg
      _ = cfg.nodeMonitorGracePeriod * cfg.jitterFraction := by rw [mul_one]
  · unfold schedule insertJittered
    dsimp only
    have put : jitter cfg.nodeMonitorGracePeriod sample cfg.jitterFraction - cfg.nodeMonitorGracePeriod = delta := by
      rw [jittered]
      ring
    rw [put, if_pos nonneg, base]

end Config
/-! ## The invariant -/

namespace World

variable {w : World} {name other : String} {entry : NodeLiveness} {taints : List Taint} {renew now : ℚ}
  {clock : Clock} {outcome : Outcome} {node : Node}

/-- How far the system clock is ahead of the monotonic one. -/
def skew (w : World) : ℚ :=
  w.clock.wall - w.clock.instant

def staleAt (w : World) (renew now : ℚ) : Prop :=
  renewalIsStale (some renew) now w.cfg.nodeMonitorGracePeriod w.cfg.jitterFraction = true

/-- The look that a renewal asks for is still to come. -/
def Awaits (w : World) (name : String) (renew : ℚ) : Prop :=
  Exists fun tickIndex => w.wheel.DueAt name tickIndex ∧
    renew + w.cfg.nodeMonitorGracePeriod ≤ w.wheel.start + tickIndex * w.wheel.tick + w.skew ∧
    w.wheel.start + tickIndex * w.wheel.tick + w.skew ≤
      renew + w.cfg.nodeMonitorGracePeriod + w.cfg.swing + w.cfg.tickPeriod

/-- What holds of a Node there is and that the cache has. -/
structure Watched (w : World) (name : String) (entry : NodeLiveness) (taints : List Taint) : Prop where
  agree : Unreachable taints <-> Unreachable entry.node.taints
  noticed : forall renew, entry.lastRenew = some renew ->
    (Unreachable entry.node.taints ∧ w.staleAt renew w.clock.wall) ∨ w.Awaits name renew
  fresh : forall renew, entry.lastRenew = some renew -> ¬ w.staleAt renew w.clock.wall -> ¬ Unreachable entry.node.taints

/-- The clock and the wheel, which every step treats alike. -/
structure Ticking (w : World) : Prop where
  placed : w.wheel.Placed
  tick : w.wheel.tick = w.cfg.tickPeriod
  swept : w.wheel.start + w.wheel.lastAdvancedTick * w.wheel.tick ≤ w.clock.instant

structure Invariant (w : World) : Prop where
  ticking : w.Ticking
  renewed : forall name entry, w.cache.get name = some entry -> entry.lastRenew = w.seen.get name
  watched : forall name entry taints, w.cache.get name = some entry -> w.api.get name = some taints ->
    w.Watched name entry taints

/-! ## What the claim asks for -/

/-- A dead Node has the taint, or every sweep late enough finds its key, and
no sweep finds it before the renewal is stale. -/
def Noticed (w : World) (name : String) (renew : ℚ) (taints : List Taint) : Prop :=
  Unreachable taints ∨
    (forall later, renew + w.cfg.nodeMonitorGracePeriod + w.cfg.swing + w.cfg.tickPeriod ≤ later + w.skew ->
      name ∈ (w.wheel.advance later).2) ∧
    forall later, name ∈ (w.wheel.advance later).2 -> w.cfg.isStale w.cache name (later + w.skew) = true

def Notices (w : World) : Prop :=
  forall name entry taints renew, w.cache.get name = some entry -> w.api.get name = some taints ->
    w.seen.get name = some renew ->
      (renew ≤ w.clock.wall -> w.Noticed name renew taints) ∧ (¬ w.staleAt renew w.clock.wall -> ¬ Unreachable taints)

theorem Awaits.noticed (ticking : w.Ticking) (awaits : w.Awaits name renew)
    (known : (w.cache.get name).bind NodeLiveness.lastRenew = some renew) :
    (forall later, renew + w.cfg.nodeMonitorGracePeriod + w.cfg.swing + w.cfg.tickPeriod ≤ later + w.skew ->
      name ∈ (w.wheel.advance later).2) ∧
    forall later, name ∈ (w.wheel.advance later).2 -> w.cfg.isStale w.cache name (later + w.skew) = true := by
  rcases awaits with ⟨tickIndex, due, low, high⟩
  have positive : 0 < w.wheel.tick := ticking.tick ▸ w.cfg.tick_pos
  constructor
  · intro later late
    rw [TimingWheel.mem_advance ticking.placed due positive]
    linarith
  · intro later found
    rw [TimingWheel.mem_advance ticking.placed due positive] at found
    unfold Config.isStale
    rw [known]
    exact Config.stale_of_grace (by linarith)

theorem Invariant.notices (invariant : w.Invariant) : w.Notices := by
  intro name entry taints renew known there seen
  have watched := invariant.watched name entry taints known there
  have last : entry.lastRenew = some renew := (invariant.renewed name entry known).trans seen
  refine ⟨fun _ => ?_, fun fresh tainted => watched.fresh renew last fresh (watched.agree.mp tainted)⟩
  rcases watched.noticed renew last with tainted | awaits
  · exact Or.inl (watched.agree.mpr tainted.1)
  · refine Or.inr (awaits.noticed invariant.ticking ?_)
    rw [known]
    exact last

/-! ## Steps in good order -/

/-- The monotonic clock does not go back, and nobody sets the system clock. -/
def Steady (w : World) (clock : Clock) : Prop :=
  w.clock.instant ≤ clock.instant ∧ clock.wall - clock.instant = w.skew

/-- The wheel takes the look that a renewal asks for. -/
def Accepts (w : World) (name : String) (renew sample : ℚ) (clock : Clock) : Prop :=
  (w.cfg.schedule w.wheel name renew sample clock.wall clock.instant).isOk = true

/-- A Lease event of a Node in the cache. -/
def OrderlyRenewal (w : World) (name : String) (entry : NodeLiveness) (sample : ℚ) (clock : Clock) (outcome : Outcome) :
    Option ℚ -> Prop
  | none => outcome = .lost -> ¬ Unreachable entry.node.taints
  | some renew =>
    (w.staleAt renew clock.wall -> Unreachable entry.node.taints ∨ outcome = .ok ∨
      (outcome = .failed ∧ w.Accepts name renew sample clock ∧ clock.wall ≤ renew + w.cfg.nodeMonitorGracePeriod)) ∧
    (¬ w.staleAt renew clock.wall ->
      w.Accepts name renew sample clock ∧ (Unreachable entry.node.taints -> outcome = .ok))

/-- A Node is first seen before its Lease and as it is; patches that matter
are answered; the wheel takes every look that is needed; and nobody else
touches the taint or creates a Node that the cache still has. -/
def Orderly (w : World) : Event -> Prop
  | .nodeApply node clock outcome =>
    w.Steady clock ∧ match w.cache.get node.name with
      | none => w.seen.get node.name = none ∧ (outcome = .lost -> ¬ Unreachable node.taints) ∧
          forall taints, w.api.get node.name = some taints -> (Unreachable taints <-> Unreachable node.taints)
      | some entry => outcome = .lost ->
          (Unreachable entry.node.taints <-> w.cfg.isStale w.cache node.name clock.wall = true)
  | .nodeDelete _ => True
  | .leaseApply name renewTime sample clock outcome =>
    w.Steady clock ∧ forall entry, w.cache.get name = some entry ->
      w.OrderlyRenewal name entry sample clock outcome renewTime
  | .leaseDelete _ => True
  | .tick clock outcomes =>
    w.Steady clock ∧ forall name, name ∈ (w.wheel.advance clock.instant).2 ->
      forall entry taints, w.cache.get name = some entry -> w.api.get name = some taints ->
        w.cfg.isStale w.cache name clock.wall = true -> Unreachable entry.node.taints ∨ outcomes name = .ok
  | .write name taints =>
    taints.isSome -> forall entry, w.cache.get name = some entry -> Exists fun old => w.api.get name = some old ∧
      forall new, taints = some new -> (Unreachable old <-> Unreachable new)

/-! ## One patch -/

theorem Awaits.of_same {w' : World} (awaits : w.Awaits name renew) (wheel : w'.wheel = w.wheel) (clock : w'.clock = w.clock)
    (cfg : w'.cfg = w.cfg) : w'.Awaits name renew := by
  unfold Awaits skew at awaits ⊢
  rw [wheel, clock, cfg]
  exact awaits

theorem Watched.of_same {w' : World} (watched : w.Watched name entry taints) (wheel : w'.wheel = w.wheel)
    (clock : w'.clock = w.clock) (cfg : w'.cfg = w.cfg) : w'.Watched name entry taints where
  agree := watched.agree
  noticed := by
    intro renew last
    unfold staleAt
    rw [cfg, clock]
    exact (watched.noticed renew last).imp_right fun awaits => awaits.of_same wheel clock cfg
  fresh := by
    intro renew last
    unfold staleAt
    rw [cfg, clock]
    exact watched.fresh renew last

theorem updateCachedTaints_get {cache : Cache} (known : cache.get name = some entry) :
    (updateCachedTaints cache name taints).get other =
      if other = name then some { entry with node := { entry.node with taints := taints } } else cache.get other := by
  unfold updateCachedTaints
  rw [known]
  exact SortedMap.get_insert

section
variable {readyStatus : Option String} {stale : Bool}

theorem reconcile_frame : (w.reconcile name node readyStatus stale outcome).wheel = w.wheel ∧
    (w.reconcile name node readyStatus stale outcome).seen = w.seen ∧
    (w.reconcile name node readyStatus stale outcome).clock = w.clock ∧
    (w.reconcile name node readyStatus stale outcome).cfg = w.cfg := by
  unfold reconcile
  cases newTaints node readyStatus stale with
  | none => exact ⟨rfl, rfl, rfl, rfl⟩
  | some taints =>
    unfold patch
    cases w.api.get name with
    | none => exact ⟨rfl, rfl, rfl, rfl⟩
    | some old => cases outcome <;> exact ⟨rfl, rfl, rfl, rfl⟩

theorem reconcile_other (different : other ≠ name) (known : w.cache.get name = some entry) :
    (w.reconcile name node readyStatus stale outcome).cache.get other = w.cache.get other ∧
      (w.reconcile name node readyStatus stale outcome).api.get other = w.api.get other := by
  unfold reconcile
  cases newTaints node readyStatus stale with
  | none => exact ⟨rfl, rfl⟩
  | some taints =>
    have cached := @updateCachedTaints_get name other entry taints w.cache known
    rw [if_neg different] at cached
    have stored : (w.api.insert name taints).get other = w.api.get other := by
      rw [SortedMap.get_insert, if_neg different]
    unfold patch
    cases w.api.get name with
    | none => exact ⟨rfl, rfl⟩
    | some old =>
      cases outcome with
      | ok => exact ⟨cached, stored⟩
      | failed => exact ⟨rfl, rfl⟩
      | lost => exact ⟨rfl, stored⟩

/-- What a handler knows of a Node when it decides the taint. -/
structure Prepared (w : World) (name : String) (entry : NodeLiveness) (stale : Bool) (outcome : Outcome)
    (taints : List Taint) : Prop where
  agree : Unreachable taints <-> Unreachable entry.node.taints
  judged : forall renew, entry.lastRenew = some renew -> (stale = true <-> w.staleAt renew w.clock.wall)
  awaits : forall renew, entry.lastRenew = some renew -> stale = false -> w.Awaits name renew
  lost : outcome = .lost -> (Unreachable entry.node.taints <-> stale = true)
  failed : outcome = .failed -> forall renew, entry.lastRenew = some renew ->
    (stale = true -> Unreachable entry.node.taints ∨ w.Awaits name renew) ∧
      (stale = false -> ¬ Unreachable entry.node.taints)

theorem Prepared.settled {entry' : NodeLiveness} {taints' : List Taint}
    (prepared : w.Prepared name entry stale outcome taints)
    (last : entry'.lastRenew = entry.lastRenew) (cached : Unreachable entry'.node.taints <-> stale = true)
    (stored : Unreachable taints' <-> stale = true) : w.Watched name entry' taints' where
  agree := stored.trans cached.symm
  noticed := by
    intro renew same
    rw [last] at same
    cases stale with
    | true => exact Or.inl ⟨cached.mpr rfl, (prepared.judged renew same).mp rfl⟩
    | false => exact Or.inr (prepared.awaits renew same rfl)
  fresh := by
    intro renew same fresh tainted
    rw [last] at same
    exact fresh ((prepared.judged renew same).mp (cached.mp tainted))

theorem Prepared.unchanged (prepared : w.Prepared name entry stale .failed taints) : w.Watched name entry taints where
  agree := prepared.agree
  noticed := by
    intro renew same
    rcases prepared.failed rfl renew same with ⟨whenStale, -⟩
    cases stale with
    | true => exact (whenStale rfl).imp_left fun tainted => ⟨tainted, (prepared.judged renew same).mp rfl⟩
    | false => exact Or.inr (prepared.awaits renew same rfl)
  fresh := by
    intro renew same fresh
    refine (prepared.failed rfl renew same).2 (Bool.eq_false_iff.mpr fun stale_ => ?_)
    exact fresh ((prepared.judged renew same).mp stale_)

theorem reconcile_watched (known : w.cache.get name = some entry)
    (prepared : forall taints, w.api.get name = some taints -> w.Prepared name entry stale outcome taints) :
    Exists fun entry' => (w.reconcile name entry.node readyStatus stale outcome).cache.get name = some entry' ∧
      entry'.lastRenew = entry.lastRenew ∧
      forall taints', (w.reconcile name entry.node readyStatus stale outcome).api.get name = some taints' ->
        w.Watched name entry' taints' := by
  unfold reconcile
  cases wanted : newTaints entry.node readyStatus stale with
  | none =>
    have right := newTaints_none wanted
    refine ⟨entry, known, rfl, fun taints' there => ?_⟩
    exact (prepared taints' there).settled rfl right ((prepared taints' there).agree.trans right)
  | some taints =>
    have right := newTaints_some wanted
    have cached := @updateCachedTaints_get name name entry taints w.cache known
    rw [if_pos rfl] at cached
    have stored : (w.api.insert name taints).get name = some taints := by
      rw [SortedMap.get_insert, if_pos rfl]
    unfold patch
    cases there : w.api.get name with
    | none =>
      refine ⟨entry, known, rfl, fun taints' there' => ?_⟩
      rw [there] at there'
      cases there'
    | some old =>
      have ready := prepared old there
      cases outcome with
      | ok =>
        refine ⟨_, cached, rfl, fun taints' there' => ?_⟩
        rw [← Option.some.inj (stored.symm.trans there')]
        exact ready.settled rfl right right
      | failed =>
        refine ⟨entry, known, rfl, fun taints' there' => ?_⟩
        rw [← Option.some.inj (there.symm.trans there')]
        exact ready.unchanged
      | lost =>
        refine ⟨entry, known, rfl, fun taints' there' => ?_⟩
        rw [← Option.some.inj (stored.symm.trans there')]
        exact ready.settled rfl (ready.lost rfl) right

theorem reconcile_spec (ticking : w.Ticking)
    (renewed : forall name entry, w.cache.get name = some entry -> entry.lastRenew = w.seen.get name)
    (known : w.cache.get name = some entry)
    (prepared : forall taints, w.api.get name = some taints -> w.Prepared name entry stale outcome taints) :
    (w.reconcile name entry.node readyStatus stale outcome).Ticking ∧
      (forall other found, (w.reconcile name entry.node readyStatus stale outcome).cache.get other = some found ->
        found.lastRenew = (w.reconcile name entry.node readyStatus stale outcome).seen.get other) ∧
      forall found taints, (w.reconcile name entry.node readyStatus stale outcome).cache.get name = some found ->
        (w.reconcile name entry.node readyStatus stale outcome).api.get name = some taints ->
        (w.reconcile name entry.node readyStatus stale outcome).Watched name found taints := by
  rcases @reconcile_frame w name outcome entry.node readyStatus stale with ⟨wheel, seen, clock, cfg⟩
  rcases @reconcile_watched w name entry outcome readyStatus stale known prepared with ⟨entry', known', last, watched⟩
  refine ⟨⟨?_, ?_, ?_⟩, ?_, ?_⟩
  · rw [wheel]
    exact ticking.placed
  · rw [wheel, cfg]
    exact ticking.tick
  · rw [wheel, clock]
    exact ticking.swept
  · intro other found there
    rw [seen]
    by_cases same : other = name
    · rw [same] at there ⊢
      rw [← Option.some.inj (known'.symm.trans there), last]
      exact renewed name entry known
    · rw [(reconcile_other same known).1] at there
      exact renewed other found there
  · intro found taints there stored
    rw [← Option.some.inj (known'.symm.trans there)]
    exact (watched taints stored).of_same wheel clock cfg

theorem Invariant.put (ticking : w.Ticking)
    (renewed : forall other found, other ≠ name -> w.cache.get other = some found -> found.lastRenew = w.seen.get other)
    (others : forall other found taints, other ≠ name -> w.cache.get other = some found -> w.api.get other = some taints ->
      w.Watched other found taints)
    (last : entry.lastRenew = w.seen.get name)
    (prepared : forall taints, w.api.get name = some taints -> w.Prepared name entry stale outcome taints) :
    (World.reconcile { w with cache := w.cache.insert name entry } name entry.node readyStatus stale outcome).Invariant := by
  let put : World := { w with cache := w.cache.insert name entry }
  have known : put.cache.get name = some entry := by
    rw [SortedMap.get_insert, if_pos rfl]
  have elsewhere {other : String} (different : other ≠ name) : put.cache.get other = w.cache.get other := by
    rw [SortedMap.get_insert, if_neg different]
  have renewedPut : forall other found, put.cache.get other = some found -> found.lastRenew = put.seen.get other := by
    intro other found there
    by_cases same : other = name
    · rw [same] at there ⊢
      rw [← Option.some.inj (known.symm.trans there)]
      exact last
    · exact renewed other found same ((elsewhere same).symm.trans there)
  have preparedPut : forall taints, put.api.get name = some taints -> put.Prepared name entry stale outcome taints := by
    intro taints there
    have ready := prepared taints there
    exact ⟨ready.agree, ready.judged, ready.awaits, ready.lost, ready.failed⟩
  rcases @reconcile_frame put name outcome entry.node readyStatus stale with ⟨wheel, -, clock, cfg⟩
  rcases @reconcile_spec put name entry outcome readyStatus stale ⟨ticking.placed, ticking.tick, ticking.swept⟩
    renewedPut known preparedPut with ⟨ticking', renewed', watched⟩
  refine ⟨ticking', renewed', ?_⟩
  intro other found taints there stored
  by_cases same : other = name
  · rw [same] at there stored ⊢
    exact watched found taints there stored
  · rw [(reconcile_other same known).1, elsewhere same] at there
    rw [(reconcile_other same known).2] at stored
    exact (others other found taints same there stored).of_same wheel clock cfg

end

/-! ## Every kind of step -/

theorem Awaits.tick_clock (awaits : w.Awaits name renew) (steady : w.Steady clock) :
    Awaits { w with clock := clock } name renew := by
  have same : skew { w with clock := clock } = w.skew := steady.2
  unfold Awaits at awaits ⊢
  rw [same]
  exact awaits

theorem Invariant.steady (invariant : w.Invariant) (steady : w.Steady clock) : Invariant { w with clock := clock } where
  ticking := ⟨invariant.ticking.placed, invariant.ticking.tick, invariant.ticking.swept.trans steady.1⟩
  renewed := invariant.renewed
  watched := by
    intro name entry taints known there
    have watched := invariant.watched name entry taints known there
    have later : w.clock.wall ≤ clock.wall := by
      have ahead := steady.2
      have forward := steady.1
      unfold skew at ahead
      linarith
    refine ⟨watched.agree, fun renew last => ?_, fun renew last fresh => ?_⟩
    · rcases watched.noticed renew last with ⟨tainted, stale⟩ | awaits
      · exact Or.inl ⟨tainted, Config.stale_later stale later⟩
      · exact Or.inr (awaits.tick_clock steady)
    · exact watched.fresh renew last fun stale => fresh (Config.stale_later stale later)

/-! ### Node events -/

theorem isStale_eq (known : w.cache.get name = some entry) : w.cfg.isStale w.cache name now =
    renewalIsStale entry.lastRenew now w.cfg.nodeMonitorGracePeriod w.cfg.jitterFraction := by
  unfold Config.isStale
  rw [known]
  rfl

/-- What the invariant says of a Node makes its next decision safe, unless the
patch is lost. -/
theorem Watched.prepared {entry' : NodeLiveness} (watched : w.Watched name entry taints)
    (same : Unreachable entry'.node.taints <-> Unreachable entry.node.taints)
    (last : entry'.lastRenew = entry.lastRenew)
    (lost : outcome = .lost -> (Unreachable entry.node.taints <->
      renewalIsStale entry.lastRenew w.clock.wall w.cfg.nodeMonitorGracePeriod w.cfg.jitterFraction = true)) :
    w.Prepared name entry'
      (renewalIsStale entry.lastRenew w.clock.wall w.cfg.nodeMonitorGracePeriod w.cfg.jitterFraction) outcome taints where
  agree := watched.agree.trans same.symm
  judged := by
    intro renew renews
    rw [last] at renews
    rw [renews]
    rfl
  awaits := by
    intro renew renews notStale
    rw [last] at renews
    rw [renews] at notStale
    refine (watched.noticed renew renews).resolve_left fun both => ?_
    exact Bool.false_ne_true (notStale.symm.trans both.2)
  lost := fun isLost => same.trans (lost isLost)
  failed := by
    intro _ renew renews
    rw [last] at renews
    rw [renews]
    refine ⟨fun _ => ?_, fun notStale tainted => ?_⟩
    · exact (watched.noticed renew renews).imp_left fun both => same.mpr both.1
    · refine watched.fresh renew renews (fun stale => ?_) (same.mp tainted)
      exact Bool.false_ne_true (notStale.symm.trans stale)

theorem Invariant.handleNode (invariant : w.Invariant)
    (orderly : match w.cache.get node.name with
      | none => w.seen.get node.name = none ∧ (outcome = .lost -> ¬ Unreachable node.taints) ∧
          forall taints, w.api.get node.name = some taints -> (Unreachable taints <-> Unreachable node.taints)
      | some entry => outcome = .lost ->
          (Unreachable entry.node.taints <-> w.cfg.isStale w.cache node.name w.clock.wall = true)) :
    (w.handleNode node outcome).Invariant := by
  unfold World.handleNode
  dsimp only
  cases known : w.cache.get node.name with
  | none =>
    rw [known] at orderly
    rcases orderly with ⟨unseen, notLost, asIs⟩
    have notStale : w.cfg.isStale w.cache node.name w.clock.wall = false := by
      unfold Config.isStale
      rw [known]
      rfl
    rw [notStale]
    refine Invariant.put invariant.ticking (fun other found _ => invariant.renewed other found)
      (fun other found taints _ => invariant.watched other found taints) unseen.symm fun taints there => ?_
    refine ⟨asIs taints there, nofun, nofun, fun isLost => ?_,
      nofun⟩
    exact iff_of_false (notLost isLost) Bool.false_ne_true
  | some old =>
    rw [known] at orderly
    rw [isStale_eq known] at orderly ⊢
    refine Invariant.put invariant.ticking (fun other found _ => invariant.renewed other found)
      (fun other found taints _ => invariant.watched other found taints)
      (invariant.renewed node.name old known) fun taints there => ?_
    have watched := invariant.watched node.name old taints known there
    exact watched.prepared merge_unreachable rfl orderly

/-! ### Lease events -/

/-- A look that the wheel takes in time comes when the renewal has become stale. -/
theorem awaits_schedule {sample : ℚ} {wheel : TimingWheel String} (ticking : w.Ticking)
    (accepted : w.cfg.schedule w.wheel name renew sample w.clock.wall w.clock.instant = .ok wheel)
    (inTime : w.clock.wall ≤ renew + w.cfg.nodeMonitorGracePeriod) : Awaits { w with wheel := wheel } name renew := by
  rcases @Config.schedule_eq w.cfg w.wheel name renew sample w.clock with ⟨delta, nonneg, atMost, same⟩
  rw [same] at accepted
  rcases TimingWheel.insert_spec accepted with ⟨-, start, tick, -, -, -, -⟩
  have positive : 0 < w.wheel.tick := ticking.tick ▸ w.cfg.tick_pos
  have tickIs := ticking.tick
  have swept := ticking.swept
  let deadline : ℚ := renew + w.cfg.nodeMonitorGracePeriod - (w.clock.wall - w.clock.instant) + delta
  let elapsed : ℚ := max (deadline - w.wheel.start) 0 / w.wheel.tick
  have covers : max (deadline - w.wheel.start) 0 = elapsed * w.wheel.tick := (div_mul_cancel₀ _ positive.ne').symm
  have fromStart : w.wheel.start ≤ w.clock.instant := by
    have ticks : (0 : ℚ) ≤ w.wheel.lastAdvancedTick * w.wheel.tick := mul_nonneg (Nat.cast_nonneg _) positive.le
    linarith
  have ahead : w.clock.instant ≤ deadline := by
    linarith
  have deadlineMax : max (deadline - w.wheel.start) 0 = deadline - w.wheel.start := max_eq_left (by linarith)
  have low : deadline - w.wheel.start ≤ (w.wheel.tickIndexFor deadline : ℚ) * w.wheel.tick := by
    rw [← deadlineMax, covers]
    refine mul_le_mul_of_nonneg_right ((Nat.le_ceil elapsed).trans ?_) positive.le
    exact_mod_cast le_max_left _ _
  have high : (w.wheel.tickIndexFor deadline : ℚ) * w.wheel.tick ≤ deadline - w.wheel.start + w.wheel.tick := by
    have either : w.wheel.tickIndexFor deadline = Nat.ceil elapsed ∨
        w.wheel.tickIndexFor deadline = w.wheel.lastAdvancedTick + 1 := max_choice _ _
    rcases either with ceiling | next
    · have below : (Nat.ceil elapsed : ℚ) ≤ elapsed + 1 :=
        (Nat.ceil_lt_add_one (div_nonneg (le_max_right _ _) positive.le)).le
      calc
        (w.wheel.tickIndexFor deadline : ℚ) * w.wheel.tick ≤ (elapsed + 1) * w.wheel.tick := by
          rw [ceiling]
          exact mul_le_mul_of_nonneg_right below positive.le
        _ = deadline - w.wheel.start + w.wheel.tick := by
          rw [add_mul, ← covers, deadlineMax, one_mul]
    · rw [next, Nat.cast_add, Nat.cast_one, add_mul, one_mul]
      linarith
  refine ⟨w.wheel.tickIndexFor deadline, TimingWheel.dueAt_insert accepted, ?_, ?_⟩
  · have skewIs : skew { w with wheel := wheel } = w.clock.wall - w.clock.instant := rfl
    rw [start, tick, skewIs]
    linarith
  · have skewIs : skew { w with wheel := wheel } = w.clock.wall - w.clock.instant := rfl
    dsimp only
    rw [start, tick, skewIs]
    linarith

theorem seeing_get {renewTime : Option ℚ} :
    (w.seeing name renewTime).get other = if other = name then renewTime else w.seen.get other := by
  cases renewTime with
  | none => exact SortedMap.get_erase
  | some renew => exact SortedMap.get_insert

theorem scheduled_keeps {renewTime : Option ℚ} {sample : ℚ} (ticking : w.Ticking) :
    Ticking { w with wheel := w.scheduled name renewTime sample } ∧
      forall other renew, other ≠ name -> w.Awaits other renew ->
        Awaits { w with wheel := w.scheduled name renewTime sample } other renew := by
  have same : w.scheduled name renewTime sample = w.wheel ∨ Exists fun deadline =>
      w.wheel.insert name deadline = .ok (w.scheduled name renewTime sample) := by
    cases renewTime with
    | none => exact Or.inl rfl
    | some renew =>
      rcases @Config.schedule_eq w.cfg w.wheel name renew sample w.clock with ⟨delta, -, -, scheduleIs⟩
      unfold scheduled
      dsimp only
      cases result : w.cfg.schedule w.wheel name renew sample w.clock.wall w.clock.instant with
      | error refused => exact Or.inl rfl
      | ok wheel => exact Or.inr ⟨_, scheduleIs.symm.trans result⟩
  rcases same with same | ⟨deadline, accepted⟩
  · rw [same]
    exact ⟨ticking, fun _ _ _ awaits => awaits⟩
  · rcases TimingWheel.insert_spec accepted with ⟨-, start, tick, -, last, -, placed⟩
    refine ⟨⟨placed ticking.placed, tick.trans ticking.tick, ?_⟩, ?_⟩
    · rw [start, tick, last]
      exact ticking.swept
    · rintro other renew different ⟨tickIndex, due, low, high⟩
      refine ⟨tickIndex, due.insert different accepted, ?_, ?_⟩
      · rw [start, tick]
        exact low
      · rw [start, tick]
        exact high

theorem Watched.keeps {wheel : TimingWheel String} (watched : w.Watched name entry taints)
    (awaits : forall renew, w.Awaits name renew -> Awaits { w with wheel := wheel } name renew) :
    Watched { w with wheel := wheel } name entry taints :=
  ⟨watched.agree, fun renew last => (watched.noticed renew last).imp_right (awaits renew), watched.fresh⟩

theorem Invariant.handleLease {renewTime : Option ℚ} {sample : ℚ} (invariant : w.Invariant)
    (orderly : forall entry, w.cache.get name = some entry ->
      w.OrderlyRenewal name entry sample w.clock outcome renewTime) :
    (w.handleLease name renewTime sample outcome).Invariant := by
  rcases @scheduled_keeps w name renewTime sample invariant.ticking with ⟨ticking, keeps⟩
  let seen : World := { w with wheel := w.scheduled name renewTime sample, seen := w.seeing name renewTime }
  have tickingSeen : seen.Ticking := ⟨ticking.placed, ticking.tick, ticking.swept⟩
  have renewed : forall other found, other ≠ name -> seen.cache.get other = some found ->
      found.lastRenew = seen.seen.get other := by
    intro other found different there
    have seenIs : seen.seen.get other = w.seen.get other := seeing_get.trans (if_neg different)
    rw [seenIs]
    exact invariant.renewed other found there
  have others : forall other found taints, other ≠ name -> seen.cache.get other = some found ->
      seen.api.get other = some taints -> seen.Watched other found taints := by
    intro other found taints different there stored
    have watched := (invariant.watched other found taints there stored).keeps fun renew => keeps other renew different
    exact watched.of_same rfl rfl rfl
  unfold World.handleLease
  dsimp only
  cases known : w.cache.get name with
  | none =>
    refine ⟨tickingSeen, fun other found there => ?_, fun other found taints there stored => ?_⟩
    · refine renewed other found (fun same => ?_) there
      have absent : seen.cache.get name = none := known
      rw [same, absent] at there
      cases there
    · refine others other found taints (fun same => ?_) there stored
      have absent : seen.cache.get name = none := known
      rw [same, absent] at there
      cases there
  | some entry =>
    have lastIs : renewTime = seen.seen.get name := (seeing_get.trans (if_pos rfl)).symm
    have staleIs : w.cfg.isStale (w.cache.insert name { entry with lastRenew := renewTime }) name w.clock.wall =
        renewalIsStale renewTime w.clock.wall w.cfg.nodeMonitorGracePeriod w.cfg.jitterFraction := by
      unfold Config.isStale
      rw [SortedMap.get_insert, if_pos rfl]
      rfl
    dsimp only
    rw [staleIs]
    refine @Invariant.put seen name { entry with lastRenew := renewTime } outcome entry.readyStatus _ tickingSeen
      renewed others lastIs fun taints there => ?_
    have watched := invariant.watched name entry taints known there
    have inOrder := orderly entry known
    cases renewTime with
    | none =>
      refine ⟨watched.agree, nofun, nofun, fun isLost => ?_,
        nofun⟩
      exact iff_of_false (inOrder isLost) Bool.false_ne_true
    | some renew =>
      have looks (accepts : w.Accepts name renew sample w.clock)
          (inTime : w.clock.wall ≤ renew + w.cfg.nodeMonitorGracePeriod) : seen.Awaits name renew := by
        unfold Accepts at accepts
        cases result : w.cfg.schedule w.wheel name renew sample w.clock.wall w.clock.instant with
        | error refused =>
          rw [result] at accepts
          cases accepts
        | ok wheel =>
          have wheelIs : w.scheduled name (some renew) sample = wheel := by
            unfold scheduled
            dsimp only
            rw [result]
          have awaits := awaits_schedule invariant.ticking result inTime
          rw [← wheelIs] at awaits
          exact awaits.of_same rfl rfl rfl
      have inTime (notStale : ¬ w.staleAt renew w.clock.wall) :
          w.clock.wall ≤ renew + w.cfg.nodeMonitorGracePeriod := by
        by_contra late
        exact notStale (Config.stale_of_grace (not_le.mp late).le)
      refine ⟨watched.agree, ?_, ?_, ?_, ?_⟩
      · intro renew' last
        rw [← Option.some.inj last]
        exact Iff.rfl
      · intro renew' last notStale
        rw [← Option.some.inj last]
        have fresh : ¬ w.staleAt renew w.clock.wall := fun stale => Bool.false_ne_true (notStale.symm.trans stale)
        exact looks (inOrder.2 fresh).1 (inTime fresh)
      · intro isLost
        by_cases stale : w.staleAt renew w.clock.wall
        · rcases inOrder.1 stale with tainted | isOk | ⟨isFailed, -⟩
          · exact iff_of_true tainted stale
          · rw [isLost] at isOk
            cases isOk
          · rw [isLost] at isFailed
            cases isFailed
        · refine iff_of_false (fun tainted => ?_) stale
          have isOk := (inOrder.2 stale).2 tainted
          rw [isLost] at isOk
          cases isOk
      · intro isFailed renew' last
        rw [← Option.some.inj last]
        refine ⟨fun stale => ?_, fun notStale tainted => ?_⟩
        · rcases inOrder.1 stale with tainted | isOk | ⟨-, accepts, early⟩
          · exact Or.inl tainted
          · rw [isFailed] at isOk
            cases isOk
          · exact Or.inr (looks accepts early)
        · have fresh : ¬ w.staleAt renew w.clock.wall := fun stale => Bool.false_ne_true (notStale.symm.trans stale)
          have isOk := (inOrder.2 fresh).2 tainted
          rw [isFailed] at isOk
          cases isOk

/-! ### Wheel ticks -/

/-- The invariant in the middle of a tick: the Nodes still to be looked at are
stale, and their patch will be answered. -/
structure Sweeping (w : World) (outcomes : String -> Outcome) (due : List String) : Prop where
  ticking : w.Ticking
  renewed : forall name entry, w.cache.get name = some entry -> entry.lastRenew = w.seen.get name
  pending : forall name entry taints, name ∈ due -> w.cache.get name = some entry -> w.api.get name = some taints ->
    (Unreachable taints <-> Unreachable entry.node.taints) ∧ forall renew, entry.lastRenew = some renew ->
      w.staleAt renew w.clock.wall ∧ (Unreachable entry.node.taints ∨ outcomes name = .ok)
  watched : forall name entry taints, name ∉ due -> w.cache.get name = some entry -> w.api.get name = some taints ->
    w.Watched name entry taints

theorem reconcile_tainted {readyStatus : Option String} (tainted : Unreachable node.taints) :
    w.reconcile name node readyStatus true outcome = w := by
  have right : newTaints node readyStatus true = none := by
    exact if_pos tainted
  unfold reconcile
  rw [right]

theorem reconcile_absent {readyStatus : Option String} {stale : Bool} (gone : w.api.get name = none) :
    w.reconcile name node readyStatus stale outcome = w := by
  unfold reconcile
  cases newTaints node readyStatus stale with
  | none => rfl
  | some taints =>
    unfold patch
    rw [gone]

theorem Sweeping.settled {outcomes : String -> Outcome} {rest : List String} (sweeping : w.Sweeping outcomes (name :: rest))
    (head : forall entry taints, w.cache.get name = some entry -> w.api.get name = some taints ->
      w.Watched name entry taints) : w.Sweeping outcomes rest where
  ticking := sweeping.ticking
  renewed := sweeping.renewed
  pending := fun other entry taints listed => sweeping.pending other entry taints (.tail _ listed)
  watched := by
    intro other entry taints done there stored
    by_cases same : other = name
    · rw [same] at there stored ⊢
      exact head entry taints there stored
    · exact sweeping.watched other entry taints (fun listed => (List.mem_cons.mp listed).elim same done) there stored

theorem Sweeping.taint {outcomes : String -> Outcome} {rest : List String} {old : List Taint}
    (sweeping : w.Sweeping outcomes (name :: rest)) (known : w.cache.get name = some entry)
    (there : w.api.get name = some old) (last : entry.lastRenew = some renew) (untainted : ¬ Unreachable entry.node.taints) :
    (w.reconcile name entry.node entry.readyStatus true (outcomes name)).Sweeping outcomes rest := by
  rcases sweeping.pending name entry old List.mem_cons_self known there with ⟨agree, due⟩
  rcases due renew last with ⟨stale, either⟩
  have isOk : outcomes name = .ok := either.resolve_left untainted
  have prepared : forall taints, w.api.get name = some taints -> w.Prepared name entry true (outcomes name) taints := by
    intro taints stored
    rw [← Option.some.inj (there.symm.trans stored), isOk]
    refine ⟨agree, fun renew' renews => ?_, nofun, nofun,
      nofun⟩
    rw [← Option.some.inj (last.symm.trans renews)]
    exact iff_of_true rfl stale
  rcases @reconcile_frame w name (outcomes name) entry.node entry.readyStatus true with ⟨wheel, seen, clock, cfg⟩
  rcases @reconcile_spec w name entry (outcomes name) entry.readyStatus true sweeping.ticking sweeping.renewed known
    prepared with ⟨ticking, renewed, watched⟩
  refine ⟨ticking, renewed, fun other found taints listed held stored => ?_, fun other found taints done held stored => ?_⟩
  · by_cases same : other = name
    · rw [same] at held stored ⊢
      refine ⟨(watched found taints held stored).agree, fun renew' renews => ⟨?_, Or.inr isOk⟩⟩
      have again := (renewed name found held).symm.trans renews
      rw [seen, ← sweeping.renewed name entry known, last] at again
      unfold staleAt
      rw [clock, cfg, ← Option.some.inj again]
      exact stale
    · rw [(reconcile_other same known).1] at held
      rw [(reconcile_other same known).2] at stored
      unfold staleAt
      rw [clock, cfg]
      exact sweeping.pending other found taints (.tail _ listed) held stored
  · by_cases same : other = name
    · rw [same] at held stored ⊢
      exact watched found taints held stored
    · rw [(reconcile_other same known).1] at held
      rw [(reconcile_other same known).2] at stored
      refine (sweeping.watched other found taints (fun listed => ?_) held stored).of_same wheel clock cfg
      exact (List.mem_cons.mp listed).elim same done

theorem Sweeping.recheck {outcomes : String -> Outcome} {rest : List String}
    (sweeping : w.Sweeping outcomes (name :: rest)) : (w.recheck name (outcomes name)).Sweeping outcomes rest := by
  unfold World.recheck
  cases known : w.cache.get name with
  | none =>
    refine sweeping.settled fun entry taints there _ => ?_
    rw [known] at there
    cases there
  | some entry =>
    dsimp only
    rw [isStale_eq known]
    cases last : entry.lastRenew with
    | none =>
      refine sweeping.settled fun found taints there stored => ?_
      rw [← Option.some.inj (known.symm.trans there)]
      have agree := (sweeping.pending name entry taints List.mem_cons_self known stored).1
      exact ⟨agree, fun _ renews => (nomatch last.symm.trans renews), fun _ renews => (nomatch last.symm.trans renews)⟩
    | some renew =>
      cases there : w.api.get name with
      | none =>
        rw [reconcile_absent there, ite_self]
        refine sweeping.settled fun found taints _ stored => ?_
        rw [there] at stored
        cases stored
      | some old =>
        rcases sweeping.pending name entry old List.mem_cons_self known there with ⟨agree, due⟩
        have stale : renewalIsStale (some renew) w.clock.wall w.cfg.nodeMonitorGracePeriod w.cfg.jitterFraction = true :=
          (due renew last).1
        rw [stale, if_pos rfl]
        by_cases tainted : Unreachable entry.node.taints
        · rw [reconcile_tainted tainted]
          refine sweeping.settled fun found taints held stored => ?_
          rw [← Option.some.inj (known.symm.trans held), ← Option.some.inj (there.symm.trans stored)]
          refine ⟨agree, fun renew' renews => Or.inl ⟨tainted, ?_⟩, fun renew' renews fresh => ?_⟩
          · rw [← Option.some.inj (last.symm.trans renews)]
            exact stale
          · rw [← Option.some.inj (last.symm.trans renews)] at fresh
            exact absurd stale fresh
        · exact sweeping.taint known there last tainted

theorem Sweeping.finish {outcomes : String -> Outcome} {due : List String} (sweeping : w.Sweeping outcomes due) :
    (due.foldl (fun w name => w.recheck name (outcomes name)) w).Invariant := by
  induction due generalizing w with
  | nil => exact ⟨sweeping.ticking, sweeping.renewed, fun name entry taints => sweeping.watched name entry taints List.not_mem_nil⟩
  | cons name rest ih =>
    rw [List.foldl_cons]
    exact ih sweeping.recheck

theorem Invariant.handleTick {outcomes : String -> Outcome} (invariant : w.Invariant)
    (orderly : forall name, name ∈ (w.wheel.advance w.clock.instant).2 ->
      forall entry taints, w.cache.get name = some entry -> w.api.get name = some taints ->
        w.cfg.isStale w.cache name w.clock.wall = true -> Unreachable entry.node.taints ∨ outcomes name = .ok) :
    (w.handleTick outcomes).Invariant := by
  have ticking := invariant.ticking
  have positive : 0 < w.wheel.tick := ticking.tick ▸ w.cfg.tick_pos
  rcases @TimingWheel.advance_frame _ _ w.wheel w.clock.instant with ⟨start, tick, -, last⟩
  have sweeping : Sweeping { w with wheel := (w.wheel.advance w.clock.instant).1 } outcomes
      (w.wheel.advance w.clock.instant).2 := by
    refine ⟨⟨TimingWheel.sweep_placed ticking.placed, tick.trans ticking.tick, ?_⟩, invariant.renewed, ?_, ?_⟩
    · rw [start, tick, last]
      rcases max_choice w.wheel.lastAdvancedTick (w.wheel.targetTick w.clock.instant) with same | same
      · rw [same]
        exact ticking.swept
      · rw [same]
        have fromStart : w.wheel.start ≤ w.clock.instant := by
          have ticks : (0 : ℚ) ≤ w.wheel.lastAdvancedTick * w.wheel.tick := mul_nonneg (Nat.cast_nonneg _) positive.le
          linarith [ticking.swept]
        have below : (w.wheel.targetTick w.clock.instant : ℚ) ≤ max (w.clock.instant - w.wheel.start) 0 / w.wheel.tick :=
          Nat.floor_le (div_nonneg (le_max_right _ _) positive.le)
        rw [le_div_iff₀ positive, max_eq_left (by linarith)] at below
        linarith
    · intro name entry taints due known there
      have watched := invariant.watched name entry taints known there
      refine ⟨watched.agree, fun renew renews => ?_⟩
      have stale : w.staleAt renew w.clock.wall := by
        rcases watched.noticed renew renews with both | ⟨tickIndex, dueAt, low, -⟩
        · exact both.2
        · rw [TimingWheel.mem_advance ticking.placed dueAt positive] at due
          refine Config.stale_of_grace ?_
          unfold skew at low
          linarith
      refine ⟨stale, orderly name due entry taints known there ?_⟩
      rw [isStale_eq known, renews]
      exact stale
    · intro name entry taints missed known there
      refine (invariant.watched name entry taints known there).keeps fun renew awaits => ?_
      rcases awaits with ⟨tickIndex, dueAt, low, high⟩
      refine ⟨tickIndex, dueAt.advance ticking.placed missed, ?_, ?_⟩
      · rw [start, tick]
        exact low
      · rw [start, tick]
        exact high
  exact sweeping.finish

/-! ### Deletions and other clients -/

theorem Invariant.forget (invariant : w.Invariant) :
    Invariant { w with cache := w.cache.erase name, wheel := w.wheel.cancel name } := by
  rcases @TimingWheel.cancel_frame _ _ w.wheel name with ⟨start, tick, -, last⟩
  have kept {other : String} {found : NodeLiveness} (there : (w.cache.erase name).get other = some found) :
      other ≠ name ∧ w.cache.get other = some found := by
    rw [SortedMap.get_erase] at there
    split_ifs at there with same
    exact ⟨same, there⟩
  refine ⟨⟨invariant.ticking.placed.cancel, tick.trans invariant.ticking.tick, ?_⟩,
    fun other found there => invariant.renewed other found (kept there).2, fun other found taints there stored => ?_⟩
  · rw [start, tick, last]
    exact invariant.ticking.swept
  · have keeps : forall renew, w.Awaits other renew -> Awaits { w with wheel := w.wheel.cancel name } other renew := by
      rintro renew ⟨tickIndex, due, low, high⟩
      refine ⟨tickIndex, due.cancel (kept there).1, ?_, ?_⟩
      · rw [start, tick]
        exact low
      · rw [start, tick]
        exact high
    exact ((invariant.watched other found taints (kept there).2 stored).keeps keeps).of_same rfl rfl rfl

theorem Invariant.act {event : Event} (invariant : w.Invariant) (orderly : w.Orderly event) : (w.act event).Invariant := by
  cases event with
  | nodeApply node clock outcome => exact (invariant.steady orderly.1).handleNode orderly.2
  | nodeDelete name => exact invariant.forget
  | leaseApply name renewTime sample clock outcome =>
    refine (invariant.steady orderly.1).handleLease fun entry known => ?_
    have inOrder := orderly.2 entry known
    cases renewTime with
    | none => exact inOrder
    | some renew => exact inOrder
  | leaseDelete name => exact invariant
  | tick clock outcomes => exact (invariant.steady orderly.1).handleTick orderly.2
  | write name taints =>
    cases taints with
    | none =>
      refine ⟨⟨invariant.ticking.placed, invariant.ticking.tick, invariant.ticking.swept⟩, invariant.renewed,
        fun other found taints there stored => ?_⟩
      have before := SortedMap.get_erase.symm.trans stored
      split_ifs at before
      exact (invariant.watched other found taints there before).of_same rfl rfl rfl
    | some new =>
      refine ⟨⟨invariant.ticking.placed, invariant.ticking.tick, invariant.ticking.swept⟩, invariant.renewed,
        fun other found taints there stored => ?_⟩
      have before := SortedMap.get_insert.symm.trans stored
      split_ifs at before with same
      · rw [same] at there ⊢
        rcases orderly rfl found there with ⟨old, held, keeps⟩
        have watched := (invariant.watched name found old there held)
        rw [← Option.some.inj before]
        have agree : Unreachable new <-> Unreachable found.node.taints := (keeps new rfl).symm.trans watched.agree
        have same' : Watched (World.act w (.write name (some new))) name found old := watched.of_same rfl rfl rfl
        exact ⟨agree, same'.noticed, same'.fresh⟩
      · exact (invariant.watched other found taints there before).of_same rfl rfl rfl

theorem invariant_start {cfg : Config} {api : SortedMap String (List Taint)} : (start cfg api clock).Invariant := by
  refine ⟨⟨TimingWheel.placed_new, rfl, ?_⟩, fun name entry known => ?_, fun name entry taints known => ?_⟩
  · have startIs : clock.instant + ((0 : Nat) : ℚ) * cfg.tickPeriod = clock.instant := by
      rw [Nat.cast_zero, zero_mul, add_zero]
    exact startIs.le
  · cases known
  · cases known

theorem notices_along (cfg : Config) (api : SortedMap String (List Taint)) (clock : Clock) (events : List Event)
    (orderly : EveryStep World.act Orderly (start cfg api clock) events) :
    AlongRun World.act Notices (start cfg api clock) events := by
  have keeps : forall (w : World) (event : Event), w.Invariant -> w.Orderly event -> (w.act event).Invariant :=
    fun w event invariant orderly => invariant.act orderly
  exact (AlongRun.of_invariant keeps invariant_start orderly).mono fun w invariant => invariant.notices

end World

private def everyMinute : Config where
  nodeMonitorGracePeriod := 40
  tickPeriod := 1
  jitterFraction := 1 / 20
  tick_pos := by norm_num
  jitter_nonneg := by norm_num
  jitter_lt_one := by norm_num

private def worker : Node := ⟨"worker", [], [⟨"Ready", "True"⟩]⟩

private def workers : SortedMap String (List Taint) := SortedMap.empty.insert "worker" []

namespace World

theorem notices_along_worker : AlongRun World.act Notices (start everyMinute workers ⟨100, 0⟩)
    [.nodeApply worker ⟨101, 1⟩ .ok, .leaseApply "worker" (some 100) 0 ⟨102, 2⟩ .ok] := by
  refine notices_along everyMinute workers ⟨100, 0⟩ _ 
    ⟨⟨⟨by decide +kernel, by decide +kernel⟩, rfl, fun _ => by decide, ?_⟩, ?_, trivial⟩
  · intro taints there
    rw [← Option.some.inj there]
    exact Iff.rfl
  · refine ⟨⟨by decide +kernel, by decide +kernel⟩, fun entry known => ⟨fun _ => Or.inr (Or.inl rfl), fun _ => ⟨?_, fun _ => rfl⟩⟩⟩
    unfold Accepts
    decide +kernel

/-- The Lease comes before its Node, and the Node is never looked at. -/
theorem not_notices_worker : ¬ AlongRun World.act Notices (start everyMinute workers ⟨100, 0⟩)
    [.leaseApply "worker" (some 100) 0 ⟨101, 1⟩ .ok, .nodeApply worker ⟨102, 2⟩ .ok] := by
  intro along
  have known : (run World.act (start everyMinute workers ⟨100, 0⟩)
      [.leaseApply "worker" (some 100) 0 ⟨101, 1⟩ .ok, .nodeApply worker ⟨102, 2⟩ .ok]).cache.get "worker" =
      some ⟨worker, some "True", none⟩ := rfl
  rcases (along.finish "worker" _ [] 100 known rfl rfl).1 (by decide +kernel) with tainted | ⟨found, stale⟩
  · revert tainted
    decide
  · have late := stale _ (found (200 : ℚ) (by decide +kernel))
    unfold Config.isStale at late
    rw [known] at late
    exact nomatch late

end World
end NodeLifecycle
end NotK8s.Controllers

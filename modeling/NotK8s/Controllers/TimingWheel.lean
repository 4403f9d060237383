import Mathlib.Data.Rat.Floor
import Mathlib.Algebra.Order.Floor.Semiring
import Mathlib.Logic.Function.Basic

namespace NotK8s.Controllers

/-!
# The timing wheel

A ring of slots, each with the keys due in it.  A deadline is turned into the
number of a tick, and the slot of a key says that number within one
revolution.  A key due at a tick is handed out by the sweep that reaches the
tick and by no earlier one, however late the sweep comes.
-/

inductive InsertError where
  | beyondHorizon
  deriving DecidableEq

/-- Times are in seconds.  Ticks are counted from `start` and never wrap; slots
are taken modulo their number. -/
structure TimingWheel (Key : Type*) where
  start : ℚ
  tick : ℚ
  slotCount : Nat
  slots : Nat -> List Key
  keySlot : Key -> Option Nat
  lastAdvancedTick : Nat

namespace TimingWheel

variable {Key : Type*} [DecidableEq Key]

def new (slotCount : Nat) (tick start : ℚ) : TimingWheel Key where
  start := start
  tick := tick
  slotCount := slotCount
  slots := fun _ => []
  keySlot := fun _ => none
  lastAdvancedTick := 0

/-- A deadline that has passed is due at the next tick. -/
def tickIndexFor (wheel : TimingWheel Key) (deadline : ℚ) : Nat :=
  max (Nat.ceil (max (deadline - wheel.start) 0 / wheel.tick)) (wheel.lastAdvancedTick + 1)

def cancel (wheel : TimingWheel Key) (key : Key) : TimingWheel Key :=
  match wheel.keySlot key with
  | some slot =>
    { wheel with
      slots := Function.update wheel.slots slot ((wheel.slots slot).filter fun other => other ≠ key)
      keySlot := Function.update wheel.keySlot key none }
  | none => wheel

/-- A full revolution ahead still fits. -/
def insert (wheel : TimingWheel Key) (key : Key) (deadline : ℚ) : Except InsertError (TimingWheel Key) :=
  let tickIndex := wheel.tickIndexFor deadline
  if wheel.slotCount < tickIndex - wheel.lastAdvancedTick then .error .beyondHorizon
  else
    let cancelled := wheel.cancel key
    let slot := tickIndex % wheel.slotCount
    .ok { cancelled with
      slots := Function.update cancelled.slots slot (cancelled.slots slot ++ [key])
      keySlot := Function.update cancelled.keySlot key (some slot) }

/-- One tick: the slot is emptied and its keys are handed out. -/
def sweepTick (wheel : TimingWheel Key) : TimingWheel Key × List Key :=
  let slot := (wheel.lastAdvancedTick + 1) % wheel.slotCount
  let drained := wheel.slots slot
  ({ wheel with
      lastAdvancedTick := wheel.lastAdvancedTick + 1
      slots := Function.update wheel.slots slot []
      keySlot := fun key => if key ∈ drained then none else wheel.keySlot key }, drained)

def sweep (wheel : TimingWheel Key) : Nat -> TimingWheel Key × List Key
  | 0 => (wheel, [])
  | ticks + 1 =>
    let (swept, drained) := wheel.sweepTick
    let (last, due) := swept.sweep ticks
    (last, drained ++ due)

def targetTick (wheel : TimingWheel Key) (now : ℚ) : Nat :=
  Nat.floor (max (now - wheel.start) 0 / wheel.tick)

def advance (wheel : TimingWheel Key) (now : ℚ) : TimingWheel Key × List Key :=
  wheel.sweep (wheel.targetTick now - wheel.lastAdvancedTick)

/-! ## What a slot says -/

/-- A key is in a slot exactly when it is recorded under it. -/
def Placed (wheel : TimingWheel Key) : Prop :=
  forall key slot, key ∈ wheel.slots slot <-> wheel.keySlot key = some slot

/-- The tick a key is due at lies within the revolution ahead. -/
structure DueAt (wheel : TimingWheel Key) (key : Key) (tickIndex : Nat) : Prop where
  slot : wheel.keySlot key = some (tickIndex % wheel.slotCount)
  later : wheel.lastAdvancedTick < tickIndex
  within : tickIndex ≤ wheel.lastAdvancedTick + wheel.slotCount

variable {wheel : TimingWheel Key} {key other : Key} {slot tickIndex ticks : Nat} {deadline now : ℚ}

omit [DecidableEq Key] in
theorem placed_new {slotCount : Nat} {tick start : ℚ} : (new slotCount tick start : TimingWheel Key).Placed :=
  fun _ _ => iff_of_false List.not_mem_nil nofun

theorem cancel_frame : (wheel.cancel key).start = wheel.start ∧ (wheel.cancel key).tick = wheel.tick ∧
    (wheel.cancel key).slotCount = wheel.slotCount ∧ (wheel.cancel key).lastAdvancedTick = wheel.lastAdvancedTick := by
  unfold cancel
  cases wheel.keySlot key with
  | none | some slot => exact ⟨rfl, rfl, rfl, rfl⟩

theorem cancel_keySlot : (wheel.cancel key).keySlot other = if other = key then none else wheel.keySlot other := by
  unfold cancel
  cases held : wheel.keySlot key with
  | none =>
    split_ifs with same
    · rw [same, held]
    · rfl
  | some slot => exact Function.update_apply ..

theorem Placed.cancel (placed : wheel.Placed) : (wheel.cancel key).Placed := by
  intro other slot
  rw [cancel_keySlot]
  unfold TimingWheel.cancel
  cases held : wheel.keySlot key with
  | none =>
    rw [placed other slot]
    split_ifs with same
    · rw [same, held]
      exact iff_of_false nofun id
    · rfl
  | some keptIn =>
    dsimp only
    rw [Function.update_apply]
    split_ifs with here same same
    · refine iff_of_false (fun listed => ?_) nofun
      exact of_decide_eq_true (List.mem_filter.mp listed).2 same
    · rw [List.mem_filter, ← here, placed other slot]
      exact and_iff_left (decide_eq_true same)
    · refine iff_of_false (fun listed => ?_) nofun
      rw [placed other slot, same, held] at listed
      exact here (Option.some.inj listed).symm
    · exact placed other slot

theorem insert_spec {inserted : TimingWheel Key} (accepted : wheel.insert key deadline = .ok inserted) :
    wheel.tickIndexFor deadline ≤ wheel.lastAdvancedTick + wheel.slotCount ∧
      inserted.start = wheel.start ∧ inserted.tick = wheel.tick ∧ inserted.slotCount = wheel.slotCount ∧
      inserted.lastAdvancedTick = wheel.lastAdvancedTick ∧
      (forall other, inserted.keySlot other =
        if other = key then some (wheel.tickIndexFor deadline % wheel.slotCount) else wheel.keySlot other) ∧
      (wheel.Placed -> inserted.Placed) := by
  unfold insert at accepted
  dsimp only at accepted
  split_ifs at accepted with beyond
  rcases @cancel_frame _ _ wheel key with ⟨start, tick, slotCount, last⟩
  have insertedIs := Except.ok.inj accepted
  have keySlotIs : forall other, inserted.keySlot other =
      if other = key then some (wheel.tickIndexFor deadline % wheel.slotCount) else wheel.keySlot other := by
    intro other
    rw [← insertedIs]
    dsimp only
    rw [Function.update_apply, cancel_keySlot]
    split_ifs <;> rfl
  refine ⟨by omega, insertedIs ▸ start, insertedIs ▸ tick, insertedIs ▸ slotCount, insertedIs ▸ last, keySlotIs, ?_⟩
  intro placed other slot
  have before := @Placed.cancel _ _ wheel key placed other slot
  rw [cancel_keySlot] at before
  rw [keySlotIs, ← insertedIs]
  dsimp only
  rw [Function.update_apply]
  split_ifs at before ⊢ with here same same
  · exact iff_of_true (here ▸ List.mem_append_right _ (same ▸ .head _)) (congrArg some here.symm)
  · rw [List.mem_append, List.mem_singleton, or_iff_left same, ← here]
    exact before
  · rw [before]
    exact iff_of_false nofun (fun found => here (Option.some.inj found).symm)
  · exact before

/-- An accepted key is due at its deadline, rounded up to a tick, or at the
next tick. -/
theorem dueAt_insert {inserted : TimingWheel Key} (accepted : wheel.insert key deadline = .ok inserted) :
    inserted.DueAt key (wheel.tickIndexFor deadline) := by
  rcases insert_spec accepted with ⟨within, -, -, slotCount, last, keySlot, -⟩
  refine ⟨?_, ?_, ?_⟩
  · rw [keySlot, if_pos rfl, slotCount]
  · rw [last]
    exact Nat.lt_of_succ_le (le_max_right (Nat.ceil (max (deadline - wheel.start) 0 / wheel.tick)) _)
  · rw [last, slotCount]
    exact within

theorem DueAt.insert {inserted : TimingWheel Key} (due : wheel.DueAt other tickIndex) (different : other ≠ key)
    (accepted : wheel.insert key deadline = .ok inserted) : inserted.DueAt other tickIndex := by
  rcases insert_spec accepted with ⟨-, -, -, slotCount, last, keySlot, -⟩
  refine ⟨?_, ?_, ?_⟩
  · rw [keySlot, if_neg different, slotCount]
    exact due.slot
  · rw [last]
    exact due.later
  · rw [last, slotCount]
    exact due.within

theorem DueAt.cancel (due : wheel.DueAt other tickIndex) (different : other ≠ key) :
    (wheel.cancel key).DueAt other tickIndex := by
  rcases @cancel_frame _ _ wheel key with ⟨-, -, slotCount, last⟩
  refine ⟨?_, ?_, ?_⟩
  · rw [cancel_keySlot, if_neg different, slotCount]
    exact due.slot
  · rw [last]
    exact due.later
  · rw [last, slotCount]
    exact due.within

/-! ## Sweeps -/

theorem tick_eq_of_slot {last first second count : Nat} (firstLater : last < first) (firstWithin : first ≤ last + count)
    (secondLater : last < second) (secondWithin : second ≤ last + count) (same : first % count = second % count) :
    first = second := by
  rcases le_total first second with le | le
  · have divides := Nat.sub_mod_eq_zero_of_mod_eq same.symm
    rw [Nat.mod_eq_of_lt (by omega)] at divides
    omega
  · have divides := Nat.sub_mod_eq_zero_of_mod_eq same
    rw [Nat.mod_eq_of_lt (by omega)] at divides
    omega

theorem sweepTick_placed (placed : wheel.Placed) : wheel.sweepTick.1.Placed := by
  intro key slot
  unfold sweepTick
  dsimp only
  rw [Function.update_apply]
  split_ifs with here drained drained
  · exact iff_of_false List.not_mem_nil nofun
  · refine iff_of_false List.not_mem_nil fun found => drained ?_
    rw [placed key, found, here]
  · refine iff_of_false (fun listed => here ?_) nofun
    exact Option.some.inj (((placed key slot).mp listed).symm.trans ((placed key _).mp drained))
  · exact placed key slot

theorem mem_sweepTick (placed : wheel.Placed) (due : wheel.DueAt key tickIndex) :
    key ∈ wheel.sweepTick.2 <-> tickIndex = wheel.lastAdvancedTick + 1 := by
  have drained : key ∈ wheel.sweepTick.2 <-> wheel.keySlot key = some ((wheel.lastAdvancedTick + 1) % wheel.slotCount) :=
    placed key _
  rw [drained, due.slot, Option.some.injEq]
  constructor
  · intro same
    have later := due.later
    have within := due.within
    exact tick_eq_of_slot later within (Nat.lt_succ_self _) (by omega) same
  · exact fun same => same ▸ rfl

theorem DueAt.sweepTick (placed : wheel.Placed) (due : wheel.DueAt key tickIndex)
    (later : tickIndex ≠ wheel.lastAdvancedTick + 1) : wheel.sweepTick.1.DueAt key tickIndex := by
  have before := due.later
  have within := due.within
  have lastIs : wheel.sweepTick.1.lastAdvancedTick = wheel.lastAdvancedTick + 1 := rfl
  have countIs : wheel.sweepTick.1.slotCount = wheel.slotCount := rfl
  refine ⟨?_, by omega, by omega⟩
  have kept : key ∉ wheel.sweepTick.2 := fun drained => later ((mem_sweepTick placed due).mp drained)
  exact (if_neg kept).trans due.slot

theorem sweep_frame : (wheel.sweep ticks).1.start = wheel.start ∧ (wheel.sweep ticks).1.tick = wheel.tick ∧
    (wheel.sweep ticks).1.slotCount = wheel.slotCount ∧
    (wheel.sweep ticks).1.lastAdvancedTick = wheel.lastAdvancedTick + ticks := by
  induction ticks generalizing wheel with
  | zero => exact ⟨rfl, rfl, rfl, rfl⟩
  | succ ticks ih =>
    rcases @ih wheel.sweepTick.1 with ⟨start, tick, slotCount, last⟩
    refine ⟨start, tick, slotCount, last.trans ?_⟩
    have lastIs : wheel.sweepTick.1.lastAdvancedTick = wheel.lastAdvancedTick + 1 := rfl
    omega

theorem sweep_placed (placed : wheel.Placed) : (wheel.sweep ticks).1.Placed := by
  induction ticks generalizing wheel with
  | zero => exact placed
  | succ ticks ih => exact ih (sweepTick_placed placed)

/-- A sweep hands out a key exactly when it reaches the tick the key is due at,
and otherwise leaves the key due at that tick. -/
theorem mem_sweep (placed : wheel.Placed) (due : wheel.DueAt key tickIndex) :
    (key ∈ (wheel.sweep ticks).2 <-> tickIndex ≤ wheel.lastAdvancedTick + ticks) ∧
      (wheel.lastAdvancedTick + ticks < tickIndex -> (wheel.sweep ticks).1.DueAt key tickIndex) := by
  induction ticks generalizing wheel with
  | zero =>
    have later := due.later
    exact ⟨iff_of_false List.not_mem_nil (by omega), fun _ => due⟩
  | succ ticks ih =>
    have drained := mem_sweepTick placed due
    have split_ : key ∈ (wheel.sweep (ticks + 1)).2 <-> key ∈ wheel.sweepTick.2 ∨ key ∈ (wheel.sweepTick.1.sweep ticks).2 :=
      List.mem_append
    have lastIs : wheel.sweepTick.1.lastAdvancedTick = wheel.lastAdvancedTick + 1 := rfl
    rw [split_]
    by_cases here : tickIndex = wheel.lastAdvancedTick + 1
    · exact ⟨iff_of_true (Or.inl (drained.mpr here)) (by omega), fun later => by omega⟩
    · rcases ih (sweepTick_placed placed) (due.sweepTick placed here) with ⟨swept, stays⟩
      rw [or_iff_right fun now => here (drained.mp now), swept]
      exact ⟨by omega, fun later => stays (by omega)⟩

theorem advance_frame : (wheel.advance now).1.start = wheel.start ∧ (wheel.advance now).1.tick = wheel.tick ∧
    (wheel.advance now).1.slotCount = wheel.slotCount ∧
    (wheel.advance now).1.lastAdvancedTick = max wheel.lastAdvancedTick (wheel.targetTick now) := by
  rcases @sweep_frame _ _ wheel (wheel.targetTick now - wheel.lastAdvancedTick) with ⟨start, tick, slotCount, last⟩
  exact ⟨start, tick, slotCount, last.trans (by omega)⟩

theorem mem_advance (placed : wheel.Placed) (due : wheel.DueAt key tickIndex) (positive : 0 < wheel.tick) :
    key ∈ (wheel.advance now).2 <-> wheel.start + tickIndex * wheel.tick ≤ now := by
  have later := due.later
  unfold advance
  rw [(mem_sweep placed due).1]
  have reached : tickIndex ≤ wheel.lastAdvancedTick + (wheel.targetTick now - wheel.lastAdvancedTick) <->
      tickIndex ≤ wheel.targetTick now := by omega
  rw [reached]
  unfold targetTick
  rw [Nat.le_floor_iff (div_nonneg (le_max_right _ _) positive.le), le_div_iff₀ positive, le_max_iff]
  constructor
  · rintro (within | over_)
    · linarith
    · have counted : (1 : ℚ) ≤ tickIndex := by exact_mod_cast Nat.one_le_of_lt later
      have positive' : (0 : ℚ) < tickIndex * wheel.tick := mul_pos (by linarith) positive
      linarith
  · exact fun within => Or.inl (by linarith)

theorem DueAt.advance (placed : wheel.Placed) (due : wheel.DueAt key tickIndex)
    (missed : key ∉ (wheel.advance now).2) : (wheel.advance now).1.DueAt key tickIndex := by
  unfold TimingWheel.advance at missed ⊢
  refine (mem_sweep placed due).2 ?_
  rw [(mem_sweep placed due).1] at missed
  omega

end TimingWheel
end NotK8s.Controllers

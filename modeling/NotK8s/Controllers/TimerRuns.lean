import Mathlib.Data.List.Induction
import Mathlib.Data.List.Nodup
import NotK8s.Controllers.TimingWheel

namespace NotK8s.Controllers

/-!
# Runs of the timing wheel

The wheel with the widths of its numbers: the number of a tick is cut to 64
bits, and what is added to it or taken from it wraps around.  Where no number
of a tick is cut, every accepted key is handed out once, by the first sweep
that reaches its tick.
-/

namespace TimingWheel

variable {Key : Type*} [DecidableEq Key]

/-- A key recorded under a tick, wherever it was before. -/
def place (wheel : TimingWheel Key) (key : Key) (tickIndex : Nat) : TimingWheel Key :=
  let cancelled := wheel.cancel key
  let slot := tickIndex % wheel.slotCount
  { cancelled with
    slots := Function.update cancelled.slots slot (cancelled.slots slot ++ [key])
    keySlot := Function.update cancelled.keySlot key (some slot) }

/-- The first boundary of a tick that is not before a deadline and not swept. -/
def boundary (wheel : TimingWheel Key) (deadline : ℚ) : ℚ :=
  wheel.start + wheel.tickIndexFor deadline * wheel.tick

inductive Operation (Key : Type*) where
  | insert (key : Key) (deadline : ℚ)
  | cancel (key : Key)
  | advance (now : ℚ)

namespace Machine

/-- How many numbers 64 bits hold. -/
@[irreducible] def words : Nat :=
  2 ^ 64

def tickIndexFor (wheel : TimingWheel Key) (deadline : ℚ) : Nat :=
  max (Nat.ceil (max (deadline - wheel.start) 0 / wheel.tick) % words) ((wheel.lastAdvancedTick + 1) % words)

def insert (wheel : TimingWheel Key) (key : Key) (deadline : ℚ) : Except InsertError (TimingWheel Key) :=
  let tickIndex := tickIndexFor wheel deadline
  if wheel.slotCount < (words + tickIndex - wheel.lastAdvancedTick) % words then .error .beyondHorizon
  else .ok (wheel.place key tickIndex)

def advance (wheel : TimingWheel Key) (now : ℚ) : TimingWheel Key × List Key :=
  wheel.sweep (wheel.targetTick now % words - wheel.lastAdvancedTick)

/-- One call, and the keys it returns. -/
def step (wheel : TimingWheel Key) : Operation Key -> TimingWheel Key × List Key
  | .insert key deadline =>
    match insert wheel key deadline with
    | .ok inserted => (inserted, [])
    | .error _ => (wheel, [])
  | .cancel key => (wheel.cancel key, [])
  | .advance now => advance wheel now

def reached (wheel : TimingWheel Key) (ops : List (Operation Key)) : TimingWheel Key :=
  ops.foldl (fun wheel op => (step wheel op).1) wheel

/-- No number of a tick is cut, and the last number is not reached. -/
def Fits (start tick : ℚ) : Operation Key -> Prop
  | .insert _ deadline => Nat.ceil (max (deadline - start) 0 / tick) < words
  | .cancel _ => True
  | .advance now => Nat.floor (max (now - start) 0 / tick) < words - 1

/-- The calls after which a key is no longer due when it was. -/
def Touches (wheel : TimingWheel Key) (key : Key) : Operation Key -> Prop
  | .insert other deadline => other = key ∧ Exists fun inserted => insert wheel other deadline = .ok inserted
  | .cancel other => other = key
  | .advance _ => False

/-- Calls that neither cancel a key nor accept it again. -/
def Quiet (key : Key) (wheel : TimingWheel Key) : List (Operation Key) -> Prop
  | [] => True
  | op :: rest => ¬ Touches wheel key op ∧ Quiet key (step wheel op).1 rest

/-- The key was accepted after `before`, and nothing in `after` undid that. -/
structure Waits (wheel : TimingWheel Key) (key : Key) (deadline : ℚ) (before after : List (Operation Key)) : Prop where
  accepted : Exists fun inserted => insert (reached wheel before) key deadline = .ok inserted
  quiet : Quiet key (reached wheel (before ++ [.insert key deadline])) after

/-- No sweep among the calls reaches a time. -/
def Unreached (time : ℚ) (ops : List (Operation Key)) : Prop :=
  forall now, .advance now ∈ ops -> now < time

/-- Slots and keys are inverse to each other. -/
structure Sound (wheel : TimingWheel Key) : Prop where
  placed : wheel.Placed
  once : forall slot, (wheel.slots slot).Nodup
  within : forall key slot, wheel.keySlot key = some slot -> slot < wheel.slotCount
  early : wheel.lastAdvancedTick < words - 1
  slotted : 0 < wheel.slotCount
  ticking : 0 < wheel.tick

end Machine

open Machine

theorem one_lt_words : 1 < words := by
  unfold words
  norm_num

variable {wheel : TimingWheel Key} {key other : Key} {deadline now start tick : ℚ} {slot ticks tickIndex slotCount : Nat}
  {op : Operation Key} {ops before after : List (Operation Key)}

theorem machine_insert (sound : Sound wheel) (fits : Fits wheel.start wheel.tick (.insert other deadline)) :
    Machine.insert wheel key deadline = wheel.insert key deadline := by
  have early := sound.early
  have same : Machine.tickIndexFor wheel deadline = wheel.tickIndexFor deadline := by
    unfold Machine.tickIndexFor
    rw [Nat.mod_eq_of_lt fits, Nat.mod_eq_of_lt (by omega)]
    rfl
  have small : wheel.tickIndexFor deadline < words := max_lt fits (by omega)
  have later : wheel.lastAdvancedTick < wheel.tickIndexFor deadline := Nat.lt_of_succ_le (le_max_right _ _)
  have distance : (words + wheel.tickIndexFor deadline - wheel.lastAdvancedTick) % words =
      wheel.tickIndexFor deadline - wheel.lastAdvancedTick := by
    rw [Nat.add_sub_assoc later.le, Nat.add_mod_left, Nat.mod_eq_of_lt (by omega)]
  simp only [Machine.insert, same, distance]
  rfl

theorem machine_advance (fits : Fits wheel.start wheel.tick (.advance now : Operation Key)) :
    Machine.advance wheel now = wheel.advance now := by
  have small : wheel.targetTick now < words := by
    have within : wheel.targetTick now < words - 1 := fits
    omega
  rw [Machine.advance, Nat.mod_eq_of_lt small, TimingWheel.advance]

/-! ## What each call keeps -/

theorem cancel_once (once : forall slot, (wheel.slots slot).Nodup) (slot : Nat) : ((wheel.cancel key).slots slot).Nodup := by
  unfold cancel
  cases wheel.keySlot key with
  | none => exact once slot
  | some held =>
    dsimp only
    rw [Function.update_apply]
    split_ifs
    · exact (once held).filter _
    · exact once slot

theorem Machine.Sound.cancel (sound : Sound wheel) : Sound (wheel.cancel key) := by
  rcases @cancel_frame _ _ wheel key with ⟨-, ticks, slots, last⟩
  refine ⟨sound.placed.cancel, cancel_once sound.once, ?_, by rw [last]; exact sound.early, by rw [slots]; exact sound.slotted,
    by rw [ticks]; exact sound.ticking⟩
  intro other slot
  rw [cancel_keySlot, slots]
  split_ifs
  · nofun
  · exact sound.within other slot

theorem Machine.Sound.insert {inserted : TimingWheel Key} (sound : Sound wheel) (accepted : wheel.insert key deadline = .ok inserted) :
    Sound inserted := by
  rcases insert_spec accepted with ⟨-, -, tickSame, slots, last, keySlot, placed⟩
  refine ⟨placed sound.placed, ?_, ?_, by rw [last]; exact sound.early, by rw [slots]; exact sound.slotted,
    by rw [tickSame]; exact sound.ticking⟩
  · intro slot
    have fresh : key ∉ (wheel.cancel key).slots slot := by simp [sound.placed.cancel key slot, cancel_keySlot]
    unfold TimingWheel.insert at accepted
    dsimp only at accepted
    split_ifs at accepted
    rw [← Except.ok.inj accepted]
    dsimp only
    rw [Function.update_apply]
    split_ifs with here
    · rw [← here]
      refine List.nodup_append.mpr ⟨cancel_once sound.once slot, by simp, ?_⟩
      rintro other listed _ single rfl
      exact fresh (List.mem_singleton.mp single ▸ listed)
    · exact cancel_once sound.once slot
  · intro other slot
    rw [keySlot, slots]
    split_ifs
    · rintro ⟨⟩
      exact Nat.mod_lt _ sound.slotted
    · exact sound.within other slot

theorem keySlot_sweep : (wheel.sweep ticks).1.keySlot key = if key ∈ (wheel.sweep ticks).2 then none else wheel.keySlot key := by
  induction ticks generalizing wheel with
  | zero => rfl
  | succ ticks ih =>
    have here : wheel.sweepTick.1.keySlot key = if key ∈ wheel.sweepTick.2 then none else wheel.keySlot key := rfl
    have whole : key ∈ (wheel.sweep (ticks + 1)).2 <-> key ∈ wheel.sweepTick.2 ∨ key ∈ (wheel.sweepTick.1.sweep ticks).2 :=
      List.mem_append
    refine (@ih wheel.sweepTick.1).trans ?_
    simp only [whole, here]
    split_ifs <;> simp_all

theorem held_of_sweep (placed : wheel.Placed) (returned : key ∈ (wheel.sweep ticks).2) : wheel.keySlot key ≠ none := by
  induction ticks generalizing wheel with
  | zero => cases returned
  | succ ticks ih =>
    rcases List.mem_append.mp (show key ∈ wheel.sweepTick.2 ++ (wheel.sweepTick.1.sweep ticks).2 from returned) with now | later
    · rw [(placed key _).mp now]
      nofun
    · intro free
      exact ih (sweepTick_placed placed) later (by simp [sweepTick, free])

theorem nodup_sweep (placed : wheel.Placed) (once : forall slot, (wheel.slots slot).Nodup) :
    (wheel.sweep ticks).2.Nodup ∧ forall slot, ((wheel.sweep ticks).1.slots slot).Nodup := by
  induction ticks generalizing wheel with
  | zero => exact ⟨List.nodup_nil, once⟩
  | succ ticks ih =>
    have kept (slot : Nat) : (wheel.sweepTick.1.slots slot).Nodup := by
      unfold sweepTick
      dsimp only
      rw [Function.update_apply]
      split_ifs
      · exact List.nodup_nil
      · exact once slot
    rcases ih (sweepTick_placed placed) kept with ⟨later, after⟩
    refine ⟨List.nodup_append.mpr ⟨once _, later, ?_⟩, after⟩
    rintro key now _ again rfl
    exact held_of_sweep (sweepTick_placed placed) again (if_pos now)

theorem Machine.Sound.advance (sound : Sound wheel) (fits : Fits wheel.start wheel.tick (.advance now : Operation Key)) :
    Sound (wheel.advance now).1 := by
  rcases @advance_frame _ _ wheel now with ⟨-, ticks, slots, last⟩
  refine ⟨sweep_placed sound.placed, (nodup_sweep sound.placed sound.once).2, ?_, ?_, by rw [slots]; exact sound.slotted,
    by rw [ticks]; exact sound.ticking⟩
  · intro key slot
    rw [slots]
    unfold TimingWheel.advance
    rw [keySlot_sweep]
    split_ifs
    · nofun
    · exact sound.within key slot
  · have early := sound.early
    have within : wheel.targetTick now < words - 1 := fits
    omega

theorem Machine.Sound.step (sound : Sound wheel) (fits : Fits wheel.start wheel.tick op) :
    Sound (step wheel op).1 ∧ (step wheel op).1.start = wheel.start ∧ (step wheel op).1.tick = wheel.tick := by
  cases op with
  | insert key deadline =>
    simp only [Machine.step, machine_insert sound fits]
    cases answer : wheel.insert key deadline with
    | ok inserted =>
      rcases insert_spec answer with ⟨-, start, tick, -⟩
      exact ⟨sound.insert answer, start, tick⟩
    | error => exact ⟨sound, rfl, rfl⟩
  | cancel key => exact ⟨sound.cancel, cancel_frame.1, cancel_frame.2.1⟩
  | advance now =>
    rw [Machine.step, machine_advance fits]
    exact ⟨sound.advance fits, advance_frame.1, advance_frame.2.1⟩

theorem Machine.Sound.reached (sound : Sound wheel) (fits : forall op, op ∈ ops -> Fits wheel.start wheel.tick op) :
    Sound (reached wheel ops) ∧ (reached wheel ops).start = wheel.start ∧ (reached wheel ops).tick = wheel.tick := by
  induction ops generalizing wheel with
  | nil => exact ⟨sound, rfl, rfl⟩
  | cons op rest ih =>
    rcases sound.step (fits op (.head _)) with ⟨next, start, tick⟩
    rcases ih next (by rw [start, tick]; exact fun op listed => fits op (.tail _ listed)) with ⟨last, start', tick'⟩
    exact ⟨last, start'.trans start, tick'.trans tick⟩

theorem reached_append : reached wheel (before ++ after) = reached (reached wheel before) after :=
  List.foldl_append

omit [DecidableEq Key] in
theorem sound_new (slotted : 0 < slotCount) (ticking : 0 < tick) : Sound (new slotCount tick start : TimingWheel Key) :=
  ⟨placed_new, fun _ => List.nodup_nil, nofun, Nat.sub_pos_of_lt one_lt_words, slotted, ticking⟩

/-! ## One key through a run -/

theorem free_step (sound : Sound wheel) (fits : Fits wheel.start wheel.tick op) (untouched : ¬ Touches wheel key op)
    (free : wheel.keySlot key = none) : (step wheel op).1.keySlot key = none := by
  cases op with
  | insert other deadline =>
    cases answer : Machine.insert wheel other deadline with
    | ok inserted =>
      have different : key ≠ other := fun same => untouched ⟨same.symm, inserted, answer⟩
      simp only [Machine.step, answer]
      rw [machine_insert sound fits] at answer
      have ⟨_, _, _, _, _, keySlot, _⟩ := insert_spec answer
      exact (keySlot key).trans ((if_neg different).trans free)
    | error => simpa only [Machine.step, answer] using free
  | cancel other => simp [Machine.step, cancel_keySlot, free]
  | advance now => simp [Machine.step, Machine.advance, keySlot_sweep, free]

theorem due_step (sound : Sound wheel) (fits : Fits wheel.start wheel.tick op) (untouched : ¬ Touches wheel key op)
    (due : wheel.DueAt key tickIndex) (later : forall now, op = .advance now -> now < wheel.start + tickIndex * wheel.tick) :
    (step wheel op).1.DueAt key tickIndex := by
  cases op with
  | insert other deadline =>
    cases answer : Machine.insert wheel other deadline with
    | ok inserted =>
      have different : key ≠ other := fun same => untouched ⟨same.symm, inserted, answer⟩
      simp only [Machine.step, answer]
      rw [machine_insert sound fits] at answer
      exact due.insert different answer
    | error => simpa only [Machine.step, answer] using due
  | cancel other => exact due.cancel fun same => untouched same.symm
  | advance now =>
    rw [Machine.step, machine_advance fits]
    refine due.advance sound.placed ?_
    rw [mem_advance sound.placed due sound.ticking]
    exact not_le.mpr (later now rfl)

theorem free_run (sound : Sound wheel) (fits : forall op, op ∈ ops -> Fits wheel.start wheel.tick op)
    (quiet : Quiet key wheel ops) (free : wheel.keySlot key = none) : (reached wheel ops).keySlot key = none := by
  induction ops generalizing wheel with
  | nil => exact free
  | cons op rest ih =>
    rcases sound.step (fits op (.head _)) with ⟨next, start, tick⟩
    refine ih next ?_ quiet.2 (free_step sound (fits op (.head _)) quiet.1 free)
    rw [start, tick]
    exact fun op listed => fits op (.tail _ listed)

/-- After quiet calls a key is due as before, or a sweep has reached its tick
and the key is gone. -/
theorem due_run (sound : Sound wheel) (fits : forall op, op ∈ ops -> Fits wheel.start wheel.tick op)
    (quiet : Quiet key wheel ops) (due : wheel.DueAt key tickIndex) :
    (Unreached (wheel.start + tickIndex * wheel.tick) ops ∧ (reached wheel ops).DueAt key tickIndex) ∨
      (¬ Unreached (wheel.start + tickIndex * wheel.tick) ops ∧ (reached wheel ops).keySlot key = none) := by
  induction ops generalizing wheel with
  | nil => exact Or.inl ⟨nofun, due⟩
  | cons op rest ih =>
    have here := fits op (.head _)
    rcases sound.step here with ⟨next, start, tick⟩
    have others : forall other, other ∈ rest -> Fits (step wheel op).1.start (step wheel op).1.tick other := by
      rw [start, tick]
      exact fun other listed => fits other (.tail _ listed)
    by_cases reaches : Exists fun now => op = .advance now ∧ wheel.start + tickIndex * wheel.tick ≤ now
    · rcases reaches with ⟨now, rfl, came⟩
      have returned := (mem_advance sound.placed due sound.ticking).mpr came
      have free : (step wheel (.advance now)).1.keySlot key = none := by
        simp only [Machine.step, machine_advance here]
        exact keySlot_sweep.trans (if_pos returned)
      have last := free_run next others quiet.2 free
      exact Or.inr ⟨fun unreached => absurd (unreached now (.head _)) (not_lt.mpr came), last⟩
    · have later : forall now, op = .advance now -> now < wheel.start + tickIndex * wheel.tick := fun now same =>
        not_le.mp fun came => reaches ⟨now, same, came⟩
      have further := ih next others quiet.2 (due_step sound here quiet.1 due later)
      have whole : Unreached (wheel.start + tickIndex * wheel.tick) (op :: rest) <->
          Unreached (wheel.start + tickIndex * wheel.tick) rest := by
        simp only [Unreached, List.mem_cons]
        exact ⟨fun all now listed => all now (Or.inr listed), fun all now listed =>
          listed.elim (fun same => later now same.symm) (all now)⟩
      rw [start, tick] at further
      rwa [whole]

theorem waits_of_held (sound : Sound wheel) (fits : forall op, op ∈ ops -> Fits wheel.start wheel.tick op)
    (fresh : wheel.keySlot key = none) (held : (reached wheel ops).keySlot key ≠ none) :
    Exists fun deadline => Exists fun before => Exists fun after =>
      ops = before ++ .insert key deadline :: after ∧ Waits wheel key deadline before after := by
  induction ops using List.reverseRecOn with
  | nil => exact absurd fresh held
  | append_singleton ops op ih =>
    have earlier : forall op, op ∈ ops -> Fits wheel.start wheel.tick op := fun op listed =>
      fits op (List.mem_append_left _ listed)
    rcases sound.reached earlier with ⟨there, start, tick⟩
    have last : Fits (reached wheel ops).start (reached wheel ops).tick op := by
      rw [start, tick]
      exact fits op (by simp)
    have stepped : reached wheel (ops ++ [op]) = (step (reached wheel ops) op).1 := by simp [reached]
    rw [stepped] at held
    by_cases touched : Touches (reached wheel ops) key op
    · cases op with
      | insert other deadline =>
        rcases touched with ⟨rfl, accepted⟩
        exact ⟨deadline, ops, [], rfl, accepted, True.intro⟩
      | cancel other =>
        refine absurd ?_ held
        obtain rfl : other = key := touched
        simp [Machine.step, cancel_keySlot]
      | advance => exact touched.elim
    · rcases ih earlier fun free => held (free_step there last touched free) with ⟨deadline, before, after, rfl, accepted, quiet⟩
      refine ⟨deadline, before, after ++ [op], by simp, accepted, ?_⟩
      have passed : reached (reached wheel (before ++ [.insert key deadline])) after =
          reached wheel (before ++ .insert key deadline :: after) := by simp [reached]
      rw [← passed] at touched
      generalize reached wheel (before ++ [.insert key deadline]) = from_ at quiet touched
      clear * - quiet touched
      induction after generalizing from_ with
      | nil => exact ⟨touched, True.intro⟩
      | cons first rest ih => exact ⟨quiet.1, ih _ quiet.2 touched⟩

/-- Where no number of a tick is cut: the slots stay inverse to the keys, a
refused key changes nothing, a key that waits is returned by the first sweep
that reaches its boundary and by no other, and no key is returned that does
not wait. -/
theorem timers_fire_once (slotted : 0 < slotCount) (ticking : 0 < tick)
    (fits : forall op, op ∈ ops ++ [.advance now] -> Fits start tick (op : Operation Key)) :
    let wheel : TimingWheel Key := new slotCount tick start
    Sound (reached wheel ops) ∧
      (forall key deadline error, Machine.insert (reached wheel ops) key deadline = .error error ->
        (step (reached wheel ops) (.insert key deadline)).1 = reached wheel ops) ∧
      (forall key deadline before after, ops = before ++ .insert key deadline :: after ->
        Waits wheel key deadline before after ->
          let time := (reached wheel before).boundary deadline
          deadline ≤ time ∧
            (time ≤ now ∧ Unreached time after -> (step (reached wheel ops) (.advance now)).2.count key = 1) ∧
            (¬ (time ≤ now ∧ Unreached time after) -> (step (reached wheel ops) (.advance now)).2.count key = 0)) ∧
      forall key, key ∈ (step (reached wheel ops) (.advance now)).2 ->
        Exists fun deadline => Exists fun before => Exists fun after =>
          ops = before ++ .insert key deadline :: after ∧ Waits wheel key deadline before after := by
  intro wheel
  have initial : Sound wheel := sound_new slotted ticking
  have earlier : forall op, op ∈ ops -> Fits wheel.start wheel.tick op := fun op listed =>
    fits op (List.mem_append_left _ listed)
  rcases initial.reached earlier with ⟨sound, startIs, tickIs⟩
  have last : Fits (reached wheel ops).start (reached wheel ops).tick (.advance now : Operation Key) := by
    rw [startIs, tickIs]
    exact fits _ (by simp)
  have output : (step (reached wheel ops) (.advance now)).2 = ((reached wheel ops).advance now).2 :=
    congrArg Prod.snd (machine_advance last)
  have once : ((reached wheel ops).advance now).2.Nodup := (nodup_sweep sound.placed sound.once).1
  refine ⟨sound, ?_, ?_, ?_⟩
  · intro key deadline error refused
    simp [step, refused]
  · intro key deadline before after same waits time
    rcases initial.reached (fun op listed => earlier op (same ▸ List.mem_append_left _ listed)) with ⟨there, start', tick'⟩
    have first : Fits (reached wheel before).start (reached wheel before).tick (.insert key deadline) := by
      rw [start', tick']
      exact earlier _ (by simp [same])
    rcases waits with ⟨⟨inserted, accepted⟩, quiet⟩
    have arrived : reached wheel (before ++ [.insert key deadline]) = inserted := by
      rw [reached_append, reached, List.foldl_cons, List.foldl_nil]
      simp only [step, accepted]
    rw [machine_insert there first] at accepted
    have due := dueAt_insert accepted
    have ⟨_, startSame, tickSame, _⟩ := insert_spec accepted
    rw [arrived] at quiet
    have whole : reached wheel ops = reached inserted after := by
      rw [same, ← arrived]
      simp [reached]
    have timeIs : time = wheel.start + (reached wheel before).tickIndexFor deadline * wheel.tick := by
      rw [← start', ← tick']
      rfl
    have outcome := due_run (there.insert accepted) (fun op listed => by
      rw [startSame, tickSame, start', tick']
      exact earlier op (by simp [same, listed])) quiet due
    rw [startSame, tickSame, start', tick', ← timeIs, ← whole] at outcome
    refine ⟨?_, ?_, ?_⟩
    · have rounded : max (deadline - (reached wheel before).start) 0 / (reached wheel before).tick ≤
          (reached wheel before).tickIndexFor deadline :=
        (Nat.le_ceil _).trans (by exact_mod_cast le_max_left _ _)
      rw [div_le_iff₀ there.ticking] at rounded
      have positive := (le_max_left _ _).trans rounded
      unfold time boundary
      linarith
    · rintro ⟨reachedNow, unreached⟩
      rcases outcome with ⟨_, due⟩ | ⟨swept, _⟩
      · refine List.count_eq_one_of_mem (output ▸ once) ?_
        rw [output, mem_advance sound.placed due sound.ticking, startIs, tickIs, ← timeIs]
        exact reachedNow
      · exact absurd unreached swept
    · intro missed
      refine List.count_eq_zero.mpr fun returned => ?_
      rw [output] at returned
      rcases outcome with ⟨unreached, due⟩ | ⟨_, free⟩
      · rw [mem_advance sound.placed due sound.ticking, startIs, tickIs, ← timeIs] at returned
        exact missed ⟨returned, unreached⟩
      · exact held_of_sweep sound.placed returned free
  · intro key returned
    rw [output] at returned
    exact waits_of_held initial earlier rfl (held_of_sweep sound.placed returned)

/-- A key due at half a second is returned by the sweep at that time. -/
theorem halfSecond_fires :
    let wheel : TimingWheel Nat := new 10 (1 / 10) 0
    (step (reached wheel [.insert 1 (1 / 2)]) (.advance (1 / 2))).2 = [1] ∧
      forall key, key ∈ (step (reached wheel [.insert 1 (1 / 2)]) (.advance (1 / 2))).2 ->
        Exists fun deadline => Exists fun before => Exists fun after =>
          [.insert 1 (1 / 2)] = before ++ .insert key deadline :: after ∧ Waits wheel key deadline before after := by
  refine ⟨by decide +kernel, (timers_fire_once (by decide) (by norm_num) ?_).2.2.2⟩
  intro op listed
  simp only [List.singleton_append, List.mem_cons, List.not_mem_nil, or_false] at listed
  unfold Fits words
  rcases listed with rfl | rfl <;> decide +kernel

/-- With ticks of a tenth of a second, a key due after 2^64 ticks and five more
is returned after the five. -/
theorem cut_deadline_fires_early :
    (step (reached (new 10 (1 / 10) 0 : TimingWheel Nat) [.insert 1 (2 ^ 64 / 10 + 1 / 2)]) (.advance (1 / 2))).2 = [1] ∧
      ¬ (2 ^ 64 / 10 + 1 / 2 : ℚ) ≤ 1 / 2 := by
  refine ⟨by decide +kernel, by norm_num⟩

end TimingWheel
end NotK8s.Controllers

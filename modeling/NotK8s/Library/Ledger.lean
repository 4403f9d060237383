import Mathlib.Data.List.Count
import Mathlib.Data.List.Flatten

namespace NotK8s.Library

/-!
# Counters and their holders

A program counts with shared counters what its agents hold: seats, places in a
queue, leases.  The holdings of an agent are a list of accounts, and a counter
is right when it is the number of times the account is held.  One equation is
asked of a step that moves one agent, whatever the step does to the counters.
-/

variable {Holder Account : Type*} [DecidableEq Account] (held : Holder -> List Account)

/-- How often an account is held. -/
def booked (holders : List Holder) (account : Account) : Nat :=
  (holders.flatMap held).count account

/-- Every counter is the number of times its account is held. -/
def Balanced (amount : Account -> Nat) (holders : List Holder) : Prop :=
  forall account, amount account = booked held holders account

section
variable {held} {holders : List Holder} {old new : Holder} {i : Nat} {account : Account}
  {amount amount' : Account -> Nat}

theorem booked_concat : booked held (holders ++ [new]) account = booked held holders account + (held new).count account := by
  unfold booked
  rw [List.flatMap_append, List.count_append, List.flatMap_singleton]

theorem booked_set (present : holders[i]? = some old) :
    booked held (holders.set i new) account + (held old).count account =
      booked held holders account + (held new).count account := by
  induction holders generalizing i with
  | nil => cases present
  | cons head rest ih =>
    unfold booked at *
    cases i with
    | zero =>
      cases present
      rw [List.set_cons_zero, List.flatMap_cons, List.flatMap_cons, List.count_append, List.count_append]
      omega
    | succ i =>
      have later := ih present
      rw [List.set_cons_succ, List.flatMap_cons, List.flatMap_cons, List.count_append, List.count_append]
      omega

theorem count_le_booked (present : holders[i]? = some old) : (held old).count account ≤ booked held holders account := by
  unfold booked
  induction holders generalizing i with
  | nil => cases present
  | cons head rest ih =>
    rw [List.flatMap_cons, List.count_append]
    cases i with
    | zero =>
      cases present
      exact Nat.le_add_right _ _
    | succ i => exact Nat.le_trans (ih present) (Nat.le_add_left _ _)

theorem booked_eq_zero (free : forall holder, holder ∈ holders -> account ∉ held holder) :
    booked held holders account = 0 := by
  unfold booked
  rw [List.count_eq_zero, List.mem_flatMap]
  rintro ⟨holder, listed, holds⟩
  exact free holder listed holds

theorem booked_congr {Other : Type*} [DecidableEq Other] {held' : Holder -> List Other} {other : Other}
    (same : forall holder, holder ∈ holders -> (held holder).count account = (held' holder).count other) :
    booked held holders account = booked held' holders other := by
  unfold booked
  induction holders with
  | nil => rfl
  | cons head rest ih =>
    rw [List.flatMap_cons, List.flatMap_cons, List.count_append, List.count_append, same head List.mem_cons_self,
      ih fun holder listed => same holder (List.mem_cons_of_mem head listed)]

section

variable (balanced : Balanced held amount holders)
include balanced

theorem Balanced.move (present : holders[i]? = some old)
    (moved : forall account, amount' account + (held old).count account = amount account + (held new).count account) :
    Balanced held amount' (holders.set i new) := by
  intro account
  have before := balanced account
  have after := @booked_set _ _ _ held holders old new i account present
  have step := moved account
  omega

theorem Balanced.arrive (empty : held new = []) :
    Balanced held amount (holders ++ [new]) := by
  intro account
  rw [booked_concat, empty, List.count_nil, Nat.add_zero]
  exact balanced account

theorem Balanced.pos (present : holders[i]? = some old)
    (holds : account ∈ held old) : 0 < amount account := by
  have count := @count_le_booked _ _ _ held holders old i account present
  have some := List.count_pos_iff.mpr holds
  have same := balanced account
  omega

end

end
end NotK8s.Library

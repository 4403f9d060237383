import Mathlib.Order.Basic

namespace NotK8s.Library

/-!
# A versioned cell

A cell holds a value or nothing.  A clock counts all writes, those elsewhere
too, and the version of the cell is the clock's value at the cell's last
write; a cell that holds nothing has version zero.  A reader that finds the
version it has seen finds the value it has seen.
-/

structure Cell (Value : Type*) where
  value : Option Value
  version : Nat
  clock : Nat

namespace Cell
variable {Value : Type*}

/-- Write a value, or remove what is there. -/
def write (cell : Cell Value) (value : Option Value) : Cell Value where
  value := value
  version := if value.isSome then cell.clock + 1 else 0
  clock := cell.clock + 1

/-- A write elsewhere. -/
def tick (cell : Cell Value) : Cell Value :=
  { cell with clock := cell.clock + 1 }

/-- The same cell at another time. -/
def atClock (cell : Cell Value) (clock : Nat) : Cell Value :=
  { cell with clock := clock }

variable {cell seen : Cell Value}

structure Valid (cell : Cell Value) : Prop where
  empty_iff : cell.version = 0 <-> cell.value = none
  version_le : cell.version ≤ cell.clock

/-- What was read from a cell at some time before. -/
structure Seen (seen cell : Cell Value) : Prop where
  valid : seen.Valid
  version_le : seen.version ≤ cell.clock
  same : seen.version = cell.version -> seen.value = cell.value

theorem valid_write (cell : Cell Value) (value : Option Value) : (cell.write value).Valid := by
  cases value with
  | none => exact ⟨iff_of_true rfl rfl, Nat.zero_le _⟩
  | some value => exact ⟨iff_of_false (Nat.succ_ne_zero _) (Option.some_ne_none value), Nat.le_refl _⟩

theorem Valid.tick (valid : cell.Valid) : cell.tick.Valid :=
  ⟨valid.empty_iff, Nat.le_succ_of_le valid.version_le⟩

theorem Valid.read (valid : cell.Valid) : cell.Seen cell :=
  ⟨valid, valid.version_le, fun _ => rfl⟩

theorem Seen.tick (before : seen.Seen cell) : seen.Seen cell.tick :=
  ⟨before.valid, Nat.le_succ_of_le before.version_le, before.same⟩

theorem Seen.write (before : seen.Seen cell) (value : Option Value) : seen.Seen (cell.write value) := by
  refine ⟨before.valid, Nat.le_succ_of_le before.version_le, fun equal => ?_⟩
  cases value with
  | none => exact before.valid.empty_iff.mp equal
  | some value =>
    have old := before.version_le
    have new : seen.version = cell.clock + 1 := equal
    omega

end Cell
end NotK8s.Library

import Mathlib.Algebra.Order.Group.Nat
import Mathlib.Tactic.Ring

namespace NotK8s.Library

/-!
# Blocks of addresses

An address and a prefix length stand for the block of all addresses with that
prefix.  The address need not be the first of its block.
-/

structure Block where
  address : Nat
  length : Nat
  deriving DecidableEq

namespace Block

/-- How many addresses share a prefix of this length. -/
def size (length : Nat) : Nat :=
  2 ^ (32 - length)

def Covers (block : Block) (address : Nat) : Prop :=
  address / size block.length = block.address / size block.length

instance (block : Block) (address : Nat) : Decidable (block.Covers address) :=
  inferInstanceAs (Decidable (_ = _))

def Apart (block other : Block) : Prop :=
  forall address, block.Covers address -> ¬ other.Covers address

def Within (block other : Block) : Prop :=
  forall address, block.Covers address -> other.Covers address

/-- The address is the first of its block. -/
def Aligned (block : Block) : Prop :=
  block.address % size block.length = 0

instance (block : Block) : Decidable block.Aligned :=
  inferInstanceAs (Decidable (_ = _))

theorem size_pos (length : Nat) : 0 < size length :=
  Nat.two_pow_pos _

theorem size_split {shorter longer : Nat} (ordered : shorter ≤ longer) (within : longer ≤ 32) :
    size shorter = 2 ^ (longer - shorter) * size longer := by
  unfold size
  rw [← pow_add]
  congr 1
  omega

theorem aligned_longer {base shorter longer : Nat} (aligned : (Block.mk base shorter).Aligned)
    (ordered : shorter ≤ longer) (within : longer ≤ 32) : base % size longer = 0 := by
  have divides : size longer ∣ size shorter := by
    rw [size_split ordered within]
    exact Nat.dvd_mul_left _ _
  exact Nat.mod_eq_zero_of_dvd (divides.trans (Nat.dvd_of_mod_eq_zero aligned))

theorem within_of_part {base shorter longer index : Nat} (aligned : (Block.mk base shorter).Aligned)
    (ordered : shorter ≤ longer) (within : longer ≤ 32) (inside : index < 2 ^ (longer - shorter)) :
    (Block.mk (base + index * size longer) longer).Within (Block.mk base shorter) := by
  intro address covers
  unfold Covers at covers ⊢
  have positive := size_pos longer
  rw [Nat.add_mul_div_right _ _ positive] at covers
  rw [size_split ordered within, Nat.mul_comm, ← Nat.div_div_eq_div_mul, ← Nat.div_div_eq_div_mul, covers]
  have multiple : base / size longer % 2 ^ (longer - shorter) = 0 := by
    have split := Nat.dvd_of_mod_eq_zero aligned
    dsimp only at split
    rw [size_split ordered within] at split
    rcases split with ⟨count, equal⟩
    rw [equal, Nat.mul_comm (2 ^ (longer - shorter)), Nat.mul_assoc, Nat.mul_div_cancel_left _ positive,
      Nat.mul_mod_right]
  have count : 0 < 2 ^ (longer - shorter) := Nat.two_pow_pos _
  rcases Nat.dvd_of_mod_eq_zero multiple with ⟨whole, equal⟩
  rw [equal, Nat.mul_add_div count, Nat.mul_div_cancel_left _ count, Nat.div_eq_of_lt inside, Nat.add_zero]

theorem same_of_not_apart {block other : Block} (length : block.length = other.length) (meet : ¬ block.Apart other) :
    block.address / size block.length = other.address / size block.length := by
  unfold Apart at meet
  push Not at meet
  rcases meet with ⟨address, first, second⟩
  unfold Covers at first second
  rw [← length] at second
  exact first.symm.trans second

theorem Apart.of_within {block outer other : Block} (within : block.Within outer) (apart : outer.Apart other) :
    block.Apart other :=
  fun address covers => apart address (within address covers)

end Block

end NotK8s.Library

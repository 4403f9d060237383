import Mathlib.Algebra.BigOperators.Group.List.Basic
import Mathlib.Order.Lattice
import Mathlib.Tactic.Common
import Mathlib.Tactic.Ring

namespace NotK8s.Library

/-!
# Signed 64-bit amounts

The values of a signed 64-bit integer, with the range as fields.  Addition
saturates at the ends of the range, and subtraction wraps, as the two
operations a program meets them by.  What an amount is read for is its
integer, so each operation has one lemma that says which integer it gives.
-/

structure I64 where
  val : Int
  lower : -2 ^ 63 ≤ val
  upper : val < 2 ^ 63
  deriving DecidableEq

namespace I64

theorem ext {a b : I64} (same : a.val = b.val) : a = b := by
  rcases b with ⟨_, _, _⟩
  cases same
  rfl

/-- The nearest value of the range. -/
def saturate (n : Int) : I64 where
  val := max (-2 ^ 63) (min n (2 ^ 63 - 1))
  lower := by omega
  upper := by omega

/-- The value of the range with the same low 64 bits. -/
def wrap (n : Int) : I64 where
  val := (n + 2 ^ 63) % 2 ^ 64 - 2 ^ 63
  lower := by omega
  upper := by omega

instance : Zero I64 where
  zero := ⟨0, by decide, by decide⟩

def saturatingAdd (a b : I64) : I64 :=
  saturate (a.val + b.val)

def wrappingSub (a b : I64) : I64 :=
  wrap (a.val - b.val)

instance : Max I64 where
  max a b := if a.val ≤ b.val then b else a

variable {a b : I64} {n : Int}

@[simp] theorem val_zero : (0 : I64).val = 0 := rfl

theorem val_saturate (lower : -2 ^ 63 ≤ n) (upper : n < 2 ^ 63) : (saturate n).val = n := by
  unfold saturate
  dsimp only
  omega

theorem val_wrap (lower : -2 ^ 63 ≤ n) (upper : n < 2 ^ 63) : (wrap n).val = n := by
  unfold wrap
  dsimp only
  omega

theorem val_saturatingAdd (lower : -2 ^ 63 ≤ a.val + b.val) (upper : a.val + b.val < 2 ^ 63) :
    (a.saturatingAdd b).val = a.val + b.val :=
  val_saturate lower upper

theorem val_wrappingSub (lower : -2 ^ 63 ≤ a.val - b.val) (upper : a.val - b.val < 2 ^ 63) :
    (a.wrappingSub b).val = a.val - b.val :=
  val_wrap lower upper

theorem val_max : (max a b).val = max a.val b.val := by
  change (if a.val ≤ b.val then b else a).val = _
  split_ifs with le
  · exact (max_eq_right le).symm
  · exact (max_eq_left (le_of_not_ge le)).symm

theorem saturatingAdd_zero : a.saturatingAdd 0 = a := by
  apply ext
  have lower := a.lower
  have upper := a.upper
  rw [val_saturatingAdd] <;> rw [val_zero] <;> omega

end I64

/-!
# Signed integers that wrap around

A machine integer of a given width is the integer it stands for, and an
operation whose result does not fit drops the bits above the width.
-/

/-- What a signed integer of this width makes of the number. -/
def wrapped (width : Nat) (n : Int) : Int :=
  n.bmod (2 ^ width)

/-- The number is one of the values of a signed integer of this width. -/
def Fits (width : Nat) (n : Int) : Prop :=
  -(2 ^ width) ≤ 2 * n ∧ 2 * n < 2 ^ width

instance (width : Nat) (n : Int) : Decidable (Fits width n) :=
  inferInstanceAs (Decidable (_ ∧ _))

/-- The sum as a loop computes it. -/
def wrappedSum (width : Nat) (numbers : List Int) : Int :=
  numbers.foldl (fun sum n => wrapped width (sum + n)) 0

section
variable {width : Nat} {a b n : Int}

theorem wrapped_of_fits (fits : Fits width n) : wrapped width n = n := by
  have power : ((2 ^ width : Nat) : Int) = 2 ^ width := by push_cast; rfl
  rcases fits with ⟨lower, upper⟩
  rw [← power] at lower upper
  exact Int.bmod_eq_of_le_mul_two (by omega) (by omega)

theorem wrapped_add_left : wrapped width (wrapped width a + b) = wrapped width (a + b) :=
  Int.bmod_add_bmod

theorem wrapped_sub_left : wrapped width (wrapped width a - b) = wrapped width (a - b) :=
  Int.bmod_sub_bmod

theorem wrapped_sub_right : wrapped width (a - wrapped width b) = wrapped width (a - b) :=
  Int.sub_bmod_bmod

theorem fits_wrapped (positive : 0 < width) : Fits width (wrapped width n) := by
  have power : ((2 ^ width : Nat) : Int) = 2 ^ width := by push_cast; rfl
  have even : (2 ^ width : Nat) = 2 * 2 ^ (width - 1) := by
    rw [← pow_succ', Nat.sub_add_cancel positive]
  have some_ : 0 < 2 ^ width := Nat.two_pow_pos width
  have lower := Int.le_bmod (x := n) some_
  have upper := Int.bmod_lt (x := n) some_
  unfold Fits wrapped
  rw [← power]
  constructor <;> omega

theorem wrapped_le (lower : -(2 ^ width) ≤ 2 * n) : wrapped width n ≤ n := by
  have power : ((2 ^ width : Nat) : Int) = 2 ^ width := by push_cast; rfl
  rw [← power] at lower
  by_cases fits : Fits width n
  · exact Int.le_of_eq (wrapped_of_fits fits)
  · have above : ((2 ^ width : Nat) : Int) ≤ 2 * n := by
      by_contra below
      refine fits ⟨?_, ?_⟩ <;> rw [← power] <;> omega
    have upper := Int.bmod_lt (x := n) (Nat.two_pow_pos width)
    unfold wrapped
    omega

theorem wrapped_wrappedSum (numbers : List Int) : wrapped width (wrappedSum width numbers) = wrapped width numbers.sum := by
  have from_ : forall start, wrapped width (numbers.foldl (fun sum n => wrapped width (sum + n)) start) =
      wrapped width (start + numbers.sum) := by
    induction numbers with
    | nil =>
      intro start
      rw [List.foldl_nil, List.sum_nil, add_zero]
    | cons n rest ih =>
      intro start
      rw [List.foldl_cons, ih, wrapped_add_left, List.sum_cons, add_assoc]
  have fromZero := from_ 0
  rw [zero_add] at fromZero
  exact fromZero

theorem wrapped_wrappedSum_add (numbers : List Int) :
    wrapped width (wrappedSum width numbers + n) = wrapped width (numbers.sum + n) := by
  rw [← wrapped_add_left, wrapped_wrappedSum, wrapped_add_left]

end

end NotK8s.Library

import NotK8s.Library.Integers
import NotK8s.Library.Text

namespace NotK8s.Apiserver

open Library

/-!
# Quantities in the API server

The parser that admission reads resource quantities with.  A quantity is held
as an exact count of thousandths in a 128-bit integer, and text that does not
fit is refused.
-/

/-- The exact value, in thousandths of a unit. -/
structure Quantity where
  milli : Int
  deriving DecidableEq

namespace Quantity

inductive Error where
  | empty
  | noDigits (text : String)
  | unrecognizedSuffix (text suffix : String)
  | invalidExponent (text : String)
  | overflow (text : String)
  deriving DecidableEq

/-- The values of a signed 128-bit integer. -/
def Fits (n : Int) : Prop :=
  -2 ^ 127 ≤ n ∧ n < 2 ^ 127

instance (n : Int) : Decidable (Fits n) :=
  inferInstanceAs (Decidable (_ ∧ _))

def checked (text : String) (n : Int) : Except Error Int :=
  if Fits n then .ok n else .error (.overflow text)

/-- Division that rounds a positive result up. -/
def ceilDiv (numerator denominator : Int) : Int :=
  if numerator.tmod denominator ≠ 0 ∧ 0 < numerator then numerator.tdiv denominator + 1
  else numerator.tdiv denominator

/-- The power of ten and the power of two that a suffix stands for. -/
def scale (text : String) (suffix : List Char) : Except Error (Int × Nat) :=
  match String.ofList suffix with
  | "" => .ok (0, 0)
  | "m" => .ok (-3, 0)
  | "k" => .ok (3, 0)
  | "M" => .ok (6, 0)
  | "G" => .ok (9, 0)
  | "T" => .ok (12, 0)
  | "P" => .ok (15, 0)
  | "E" => .ok (18, 0)
  | "Ki" => .ok (0, 10)
  | "Mi" => .ok (0, 20)
  | "Gi" => .ok (0, 30)
  | "Ti" => .ok (0, 40)
  | "Pi" => .ok (0, 50)
  | "Ei" => .ok (0, 60)
  | _ =>
    match suffix with
    | [] => .error (.unrecognizedSuffix text (String.ofList suffix))
    | c :: exponent =>
      if c = 'e' || c = 'E' then
        match Text.integer exponent with
        | some n => if -2 ^ 31 ≤ n ∧ n < 2 ^ 31 then .ok (n, 0) else .error (.invalidExponent text)
        | none => .error (.invalidExponent text)
      else .error (.unrecognizedSuffix text (String.ofList suffix))

/-- The count of thousandths that digits and a suffix come to. -/
def scaled (text : String) (digits : Int) (power : Int) (binary : Nat) : Except Error Int :=
  if 0 ≤ power then do
    let pow <- checked text (10 ^ power.toNat)
    let product <- checked text (digits * pow)
    checked text (product * 2 ^ binary)
  else do
    let pow <- checked text (10 ^ (-power).toNat)
    let numerator <- checked text (digits * 2 ^ binary)
    .ok (ceilDiv numerator pow)

/-- The digits after a point, if there is one, and what is left. -/
def splitFraction : List Char -> List Char × List Char
  | '.' :: rest => rest.span Char.isDigit
  | other => ([], other)

def parse (s : String) : Except Error Quantity := do
  let trimmed := Text.trim s.toList
  let text := String.ofList trimmed
  if trimmed.isEmpty then
    throw .empty
  let (sign, unsigned) := Text.splitSign trimmed
  let (whole, afterWhole) := unsigned.span Char.isDigit
  let (fraction, suffix) := splitFraction afterWhole
  if whole.isEmpty && fraction.isEmpty then
    throw (.noDigits text)
  let digits <- checked text (Text.decimal (whole ++ fraction))
  let (exponent, binary) <- scale text suffix
  -- The power of ten is computed in 32 bits, from a length cut to 32 bits.
  let power := wrapped 32 (wrapped 32 (exponent - wrapped 32 fraction.length) + 3)
  let milli <- scaled text (Text.signed sign digits.toNat) power binary
  return ⟨milli⟩

/-- Addition, saturating at the ends of the 128-bit range. -/
def add (a b : Quantity) : Quantity :=
  ⟨max (-2 ^ 127) (min (a.milli + b.milli) (2 ^ 127 - 1))⟩

def max (a b : Quantity) : Quantity :=
  if b.milli ≤ a.milli then a else b

variable {a b : Quantity}

theorem milli_max : (a.max b).milli = Max.max a.milli b.milli := by
  unfold max
  split_ifs <;> omega

theorem bind_ok {α β : Type} {x : Except Error α} {value : α} {f : α -> Except Error β} (read : x = .ok value) :
    (x >>= f) = f value := by
  rw [read]
  rfl

theorem parse_digits {s : String} (plain : s.toList.all Char.isDigit = true) (some_digit : s.toList ≠ [])
    (fits : Fits (1000 * (Text.decimal s.toList : Int))) : parse s = .ok ⟨1000 * (Text.decimal s.toList : Int)⟩ := by
  have filled : s.toList.isEmpty = false := by
    rw [Bool.eq_false_iff]
    exact fun empty => some_digit (List.isEmpty_iff.mp empty)
  have digits : checked s (Text.decimal s.toList : Int) = .ok (Text.decimal s.toList : Int) := by
    unfold checked
    rw [if_pos]
    unfold Fits at *
    omega
  have milli : scaled s (Text.decimal s.toList : Int) 3 0 = .ok (1000 * (Text.decimal s.toList : Int)) := by
    have thousand : checked s (10 ^ (3 : Int).toNat) = .ok 1000 := rfl
    have kept : checked s (1000 * (Text.decimal s.toList : Int)) = .ok (1000 * (Text.decimal s.toList : Int)) :=
      if_pos fits
    unfold scaled
    rw [if_pos (by decide), bind_ok thousand, Int.mul_comm, bind_ok kept, Int.pow_zero, Int.mul_one, kept]
  have unscaled : scale s [] = .ok (0, 0) := rfl
  have noPoint : splitFraction [] = ([], []) := rfl
  have power : wrapped 32 (wrapped 32 (0 - wrapped 32 (([] : List Char).length : Int)) + 3) = 3 := by decide
  have read : scaled s (Text.signed [] (Text.decimal s.toList)) 3 0 = .ok (1000 * (Text.decimal s.toList : Int)) := milli
  unfold parse
  rw [Text.trim_digits plain]
  dsimp only
  rw [String.ofList_toList, filled, Text.splitSign_digits plain]
  rw [Text.span_of_all plain]
  rw [noPoint]
  rw [filled, List.append_nil, Bool.false_and, if_neg Bool.false_ne_true, if_neg Bool.false_ne_true, bind_ok digits,
    bind_ok unscaled]
  rw [power, Int.toNat_natCast, bind_ok read]
  rfl

example : parse "1500m" = .ok ⟨1500⟩ := by decide

end Quantity
end NotK8s.Apiserver

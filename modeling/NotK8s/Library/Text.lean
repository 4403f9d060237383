import Mathlib.Data.List.Basic
import Mathlib.Data.List.TakeDrop
import Mathlib.Data.List.TakeWhile
import Mathlib.Tactic.Common

namespace NotK8s.Library

/-!
# Scanning text

The few operations on characters that hand-written scanners share.  Text is a
list of characters here, so that a scanner is a function on what is left.
-/

namespace Text

/-- Characters with the Unicode white space property. -/
def isWhitespace (c : Char) : Bool :=
  let n := c.toNat
  (9 ≤ n && n ≤ 13) || n == 32 || n == 0x85 || n == 0xa0 || n == 0x1680 || (0x2000 ≤ n && n ≤ 0x200a) ||
    n == 0x2028 || n == 0x2029 || n == 0x202f || n == 0x205f || n == 0x3000

def trim (text : List Char) : List Char :=
  ((text.dropWhile isWhitespace).reverse.dropWhile isWhitespace).reverse

/-- The sign of a number, if there is one. -/
def splitSign : List Char -> List Char × List Char
  | [] => ([], [])
  | c :: rest => if c = '+' || c = '-' then ([c], rest) else ([], c :: rest)

/-- The number that decimal digits write. -/
def decimal (digits : List Char) : Nat :=
  digits.foldl (fun n c => 10 * n + (c.toNat - '0'.toNat)) 0

def signed (sign : List Char) (n : Nat) : Int :=
  if sign = ['-'] then -n else n

/-- A signed integer as a standard integer parser reads it: an optional sign,
at least one digit, nothing else. -/
def integer (text : List Char) : Option Int :=
  let (sign, digits) := splitSign text
  if !digits.isEmpty && digits.all Char.isDigit then some (signed sign (decimal digits)) else none

/-- An unsigned integer as a standard integer parser reads it: a plus sign or
none, at least one digit, nothing else. -/
def unsigned (text : List Char) : Option Nat :=
  let digits :=
    match text with
    | '+' :: rest => rest
    | _ => text
  if !digits.isEmpty && digits.all Char.isDigit then some (decimal digits) else none

/-- The pieces between the separators. -/
def split (separator : Char) : List Char -> List (List Char)
  | [] => [[]]
  | c :: rest =>
    if c = separator then [] :: split separator rest
    else
      match split separator rest with
      | [] => [[c]]
      | piece :: pieces => (c :: piece) :: pieces

/-- What stands before and after the first separator. -/
def splitOnce (separator : Char) : List Char -> Option (List Char × List Char)
  | [] => none
  | c :: rest =>
    if c = separator then some ([], rest)
    else (splitOnce separator rest).map fun parts => (c :: parts.1, parts.2)

/-! ## Plain decimal numbers -/

variable {digits : List Char}

theorem not_isWhitespace_of_isDigit {c : Char} (digit : c.isDigit = true) : isWhitespace c = false := by
  unfold Char.isDigit at digit
  rw [Bool.and_eq_true, decide_eq_true_eq, decide_eq_true_eq] at digit
  have lower : 48 ≤ c.toNat := digit.1
  have upper : c.toNat ≤ 57 := digit.2
  unfold isWhitespace
  simp only [Bool.or_eq_false_iff, Bool.and_eq_false_iff, decide_eq_false_iff_not, beq_eq_false_iff_ne]
  omega

theorem dropWhile_isWhitespace {text : List Char} (solid : forall c, c ∈ text -> isWhitespace c = false) :
    text.dropWhile isWhitespace = text := by
  cases text with
  | nil => rfl
  | cons c rest => exact List.dropWhile_cons_of_neg (by simp [solid c])

theorem trim_of_solid {text : List Char} (solid : forall c, c ∈ text -> isWhitespace c = false) : trim text = text := by
  unfold trim
  rw [dropWhile_isWhitespace solid, dropWhile_isWhitespace (by simpa using solid), List.reverse_reverse]

theorem trim_digits (plain : digits.all Char.isDigit = true) : trim digits = digits :=
  trim_of_solid fun c listed => not_isWhitespace_of_isDigit (List.all_eq_true.mp plain c listed)

theorem splitSign_digits (plain : digits.all Char.isDigit = true) : splitSign digits = ([], digits) := by
  cases digits with
  | nil => rfl
  | cons c rest =>
    rw [List.all_cons, Bool.and_eq_true] at plain
    unfold splitSign
    dsimp only
    split_ifs with sign
    · rw [Bool.or_eq_true, decide_eq_true_eq, decide_eq_true_eq] at sign
      rcases sign with rfl | rfl
      · cases plain.1
      · cases plain.1
    · rfl

theorem span_of_all {p : Char -> Bool} (every : digits.all p = true) : digits.span p = (digits, []) := by
  rw [List.span_eq_takeWhile_dropWhile]
  have all := List.all_eq_true.mp every
  rw [List.takeWhile_eq_self_iff.mpr all, List.dropWhile_eq_nil_iff.mpr all]

/-! ## Numbers in text -/

section
variable {separator : Char} {piece rest : List Char}

theorem split_piece (apart : separator ∉ piece) : split separator piece = [piece] := by
  induction piece with
  | nil => rfl
  | cons c rest ih =>
    rw [List.mem_cons, not_or] at apart
    rw [split, if_neg (Ne.symm apart.1), ih apart.2]

theorem split_append (apart : separator ∉ piece) :
    split separator (piece ++ separator :: rest) = piece :: split separator rest := by
  induction piece with
  | nil => rw [List.nil_append, split, if_pos rfl]
  | cons c tail ih =>
    rw [List.mem_cons, not_or] at apart
    rw [List.cons_append, split, if_neg (Ne.symm apart.1), ih apart.2]

theorem splitOnce_append (apart : separator ∉ piece) :
    splitOnce separator (piece ++ separator :: rest) = some (piece, rest) := by
  induction piece with
  | nil => rw [List.nil_append, splitOnce, if_pos rfl]
  | cons c tail ih =>
    rw [List.mem_cons, not_or] at apart
    rw [List.cons_append, splitOnce, if_neg (Ne.symm apart.1), ih apart.2, Option.map_some]

end

theorem decimal_concat (c : Char) : decimal (digits ++ [c]) = 10 * decimal digits + (c.toNat - '0'.toNat) := by
  unfold decimal
  rw [List.foldl_append]
  rfl

theorem toNat_digitChar {d : Nat} (small : d < 10) : (Nat.digitChar d).toNat - '0'.toNat = d := by
  revert small
  revert d
  decide

theorem decimal_toDigits (n : Nat) : decimal (Nat.toDigits 10 n) = n := by
  induction n using Nat.strong_induction_on with
  | _ n ih =>
    rw [Nat.toDigits_eq_if (by decide)]
    split
    · next small =>
        have single := @decimal_concat [] (Nat.digitChar n)
        rw [List.nil_append] at single
        rw [single, toNat_digitChar small]
        exact Nat.zero_add n
    · next large =>
        rw [decimal_concat, ih (n / 10) (by omega), toNat_digitChar (Nat.mod_lt n (by decide))]
        omega

theorem isDigit_toDigits (n : Nat) : (Nat.toDigits 10 n).all Char.isDigit = true :=
  List.all_eq_true.mpr fun _ member => Nat.isDigit_of_mem_toDigits (by decide) (by decide) member

theorem not_mem_toDigits {separator : Char} (other : separator.isDigit = false) (n : Nat) :
    separator ∉ Nat.toDigits 10 n := by
  intro member
  rw [Nat.isDigit_of_mem_toDigits (by decide) (by decide) member] at other
  cases other

theorem unsigned_toDigits (n : Nat) : unsigned (Nat.toDigits 10 n) = some n := by
  unfold unsigned
  have plain : (match Nat.toDigits 10 n with
      | '+' :: rest => rest
      | _ => Nat.toDigits 10 n) = Nat.toDigits 10 n := by
    split
    · next rest starts =>
        have member : '+' ∈ Nat.toDigits 10 n := by
          rw [starts]
          exact .head _
        exact absurd member (not_mem_toDigits (by decide) n)
    · rfl
  have filled : (Nat.toDigits 10 n).isEmpty = false := List.isEmpty_eq_false_iff.mpr Nat.toDigits_ne_nil
  simp only [plain, filled, isDigit_toDigits, decimal_toDigits, Bool.not_false, Bool.and_self, if_true]

/-- A whole number in decimal, after a minus sign if it is negative. -/
def ofInt (n : Int) : List Char :=
  if n < 0 then '-' :: Nat.toDigits 10 n.natAbs else Nat.toDigits 10 n.natAbs

theorem integer_ofInt (n : Int) : integer (ofInt n) = some n := by
  have filled : (Nat.toDigits 10 n.natAbs).isEmpty = false := List.isEmpty_eq_false_iff.mpr Nat.toDigits_ne_nil
  unfold ofInt integer
  split_ifs with negative
  · have sign : splitSign ('-' :: Nat.toDigits 10 n.natAbs) = (['-'], Nat.toDigits 10 n.natAbs) := rfl
    simp only [sign, filled, isDigit_toDigits, decimal_toDigits, Bool.not_false, Bool.and_self, if_true, signed]
    exact congrArg some (by omega)
  · rw [splitSign_digits (isDigit_toDigits _)]
    simp only [filled, isDigit_toDigits, decimal_toDigits, Bool.not_false, Bool.and_self, if_true, signed]
    rw [if_neg (List.cons_ne_nil _ _).symm]
    exact congrArg some (by omega)

end Text

/-!
# Positions in a text counted in bytes

A text is a list of characters, each of one to four bytes in UTF-8.  A
position counted in bytes either lies between two characters or inside one,
and only at the former can the text be cut.
-/

namespace Utf8

def byteLength : List Char -> Nat
  | [] => 0
  | c :: chars => c.utf8Size + byteLength chars

/-- The position lies between two characters, at the start or at the end. -/
def IsBoundary (chars : List Char) (position : Nat) : Prop :=
  Exists fun before => before <+: chars ∧ byteLength before = position

/-- Cut the text at a position; there is no answer inside a character or
past the end. -/
def splitAtByte : Nat -> List Char -> Option (List Char × List Char)
  | 0, chars => some ([], chars)
  | _ + 1, [] => none
  | position + 1, c :: chars =>
    if c.utf8Size ≤ position + 1 then
      (splitAtByte (position + 1 - c.utf8Size) chars).map fun parts => (c :: parts.1, parts.2)
    else none
termination_by structural _ chars => chars

variable {chars before after : List Char} {position : Nat}

@[simp] theorem splitAtByte_zero : splitAtByte 0 chars = some ([], chars) := by
  rw [splitAtByte]

theorem splitAtByte_eq_some (cut : splitAtByte position chars = some (before, after)) :
    chars = before ++ after ∧ byteLength before = position := by
  induction chars generalizing position before with
  | nil =>
    cases position with
    | zero =>
      rw [splitAtByte_zero] at cut
      cases cut
      exact ⟨rfl, rfl⟩
    | succ position =>
      rw [splitAtByte] at cut
      cases cut
  | cons c chars ih =>
    cases position with
    | zero =>
      rw [splitAtByte_zero] at cut
      cases cut
      exact ⟨rfl, rfl⟩
    | succ position =>
      rw [splitAtByte] at cut
      split_ifs at cut with fits
      rcases Option.map_eq_some_iff.mp cut with ⟨⟨front, rest⟩, found, same⟩
      cases same
      have parts := ih found
      refine ⟨congrArg (c :: ·) parts.1, ?_⟩
      rw [byteLength, parts.2]
      omega

theorem splitAtByte_isSome_iff : (splitAtByte position chars).isSome = true <-> IsBoundary chars position := by
  constructor
  · intro cuts
    rcases Option.isSome_iff_exists.mp cuts with ⟨⟨before, after⟩, cut⟩
    have parts := splitAtByte_eq_some cut
    exact ⟨before, ⟨after, parts.1.symm⟩, parts.2⟩
  · rintro ⟨before, ⟨after, rfl⟩, rfl⟩
    induction before with
    | nil =>
      rw [byteLength, splitAtByte_zero]
      rfl
    | cons c before ih =>
      have wide := c.utf8Size_pos
      obtain ⟨length, same⟩ : Exists fun length => byteLength (c :: before) = length + 1 :=
        ⟨c.utf8Size + byteLength before - 1, by rw [byteLength]; omega⟩
      have rest : length + 1 - c.utf8Size = byteLength before := by
        rw [byteLength] at same
        omega
      have fits : c.utf8Size ≤ length + 1 := by
        rw [byteLength] at same
        omega
      rw [same, List.cons_append, splitAtByte, if_pos fits, rest, Option.isSome_map]
      exact ih

instance (chars : List Char) (position : Nat) : Decidable (IsBoundary chars position) :=
  decidable_of_iff _ splitAtByte_isSome_iff

end Utf8
end NotK8s.Library

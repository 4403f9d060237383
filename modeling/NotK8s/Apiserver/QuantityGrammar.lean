import Mathlib.Algebra.Order.Field.Power
import Mathlib.Algebra.Order.Floor.Ring
import Mathlib.Data.Rat.Floor
import Mathlib.Tactic.FieldSimp
import Mathlib.Tactic.FinCases
import Mathlib.Tactic.GCongr
import Mathlib.Tactic.Linarith
import Mathlib.Tactic.NormNum
import Mathlib.Tactic.Positivity
import NotK8s.Apiserver.Quantity

namespace NotK8s.Apiserver
namespace Quantity

open Library

/-!
# What quantities denote

The grammar of quantities, the rational that each of them writes, and the
thousandths that the parser makes of it.  The value is scaled in 128 bits and
the power of ten is computed in 32, so that not every quantity with a small
value gets through.
-/

/-! ## Scaling -/

theorem ceilDiv_eq {numerator denominator : Int} (positive : 0 < denominator) :
    ceilDiv numerator denominator = ⌈(numerator : ℚ) / denominator⌉ := by
  have above : (0 : ℚ) < denominator := by exact_mod_cast positive
  have rounded {z : Int} (lower : (z - 1) * denominator < numerator) (upper : numerator ≤ z * denominator) :
      ⌈(numerator : ℚ) / denominator⌉ = z := by
    rw [Int.ceil_eq_iff, lt_div_iff₀ above, div_le_iff₀ above]
    exact ⟨by exact_mod_cast lower, by exact_mod_cast upper⟩
  have parts := Int.tmod_add_mul_tdiv numerator denominator
  have short := Int.tmod_lt_of_pos numerator positive
  unfold ceilDiv
  split_ifs with rounds
  · have rest : 0 < numerator.tmod denominator :=
      lt_of_le_of_ne (Int.tmod_nonneg denominator rounds.2.le) (Ne.symm rounds.1)
    exact (rounded (by linarith) (by linarith)).symm
  · have least : -denominator < numerator.tmod denominator := by
      have bound := Int.natAbs_tmod numerator denominator
      have cut := Nat.mod_lt numerator.natAbs (Int.natAbs_pos.mpr positive.ne')
      omega
    have rest : numerator.tmod denominator ≤ 0 := by
      by_contra more
      have negative : numerator ≤ 0 := by
        by_contra other
        exact rounds ⟨by omega, by omega⟩
      have opposite := Int.tmod_nonneg denominator (Int.neg_nonneg.mpr negative)
      rw [Int.neg_tmod] at opposite
      omega
    exact (rounded (by linarith) (by linarith)).symm

theorem fits_of_mul {n factor : Int} (positive : 0 < factor) (fits : Fits (n * factor)) : Fits n := by
  rcases fits with ⟨lower, upper⟩
  unfold Fits
  rcases le_total 0 n with above | below
  · have more : n ≤ n * factor := le_mul_of_one_le_right above positive
    omega
  · have less : n * factor ≤ n := mul_le_of_one_le_right below positive
    omega

theorem fits_ten_pow {n : Nat} : Fits (10 ^ n) <-> n ≤ 38 := by
  unfold Fits
  constructor
  · intro fits
    by_contra more
    have big : (10 : Int) ^ 39 ≤ 10 ^ n := pow_le_pow_right₀ (by norm_num) (by omega)
    omega
  · intro small
    have bound : (10 : Int) ^ n ≤ 10 ^ 38 := pow_le_pow_right₀ (by norm_num) small
    have positive : (0 : Int) < 10 ^ n := by positivity
    omega

/-- The scaling stays within 128 bits on the way. -/
def Held (digits power : Int) (binary : Nat) : Prop :=
  -38 ≤ power ∧ power ≤ 38 ∧
    if power < 0 then Fits (digits * 2 ^ binary) else Fits (digits * 10 ^ power.toNat * 2 ^ binary)

instance (digits power : Int) (binary : Nat) : Decidable (Held digits power binary) :=
  inferInstanceAs (Decidable (_ ∧ _))

/-- The thousandths of the digits with their scale. -/
def exactly (digits power : Int) (binary : Nat) : ℚ :=
  digits * 2 ^ binary * 10 ^ power

theorem scaled_eq {text : String} {digits power : Int} {binary : Nat} : scaled text digits power binary =
    if Held digits power binary then .ok ⌈exactly digits power binary⌉ else .error (.overflow text) := by
  have refused {n : Int} (no : ¬Fits n) {f : Int -> Except Error Int} :
      (checked text n >>= f) = .error (.overflow text) := by
    unfold checked
    rw [if_neg no]
    rfl
  have passed {n : Int} (fits : Fits n) : checked text n = .ok n := if_pos fits
  have two : (0 : Int) < 2 ^ binary := by positivity
  unfold scaled
  split_ifs with sign held held
  · rcases held with ⟨_, small, fits⟩
    rw [if_neg (by omega)] at fits
    have power' : (power.toNat : Int) = power := Int.toNat_of_nonneg sign
    rw [bind_ok (passed (fits_ten_pow.mpr (by omega))), bind_ok (passed (fits_of_mul two fits)), passed fits]
    congr 1
    symm
    rw [Int.ceil_eq_iff]
    unfold exactly
    rw [← power', zpow_natCast]
    push_cast
    constructor <;> simp only [Int.toNat_natCast] <;> linarith
  · by_cases small : power.toNat ≤ 38
    · have no : ¬Fits (digits * 10 ^ power.toNat * 2 ^ binary) := fun fits =>
        held ⟨by omega, by omega, by rw [if_neg (by omega)]; exact fits⟩
      rw [bind_ok (passed (fits_ten_pow.mpr small))]
      by_cases half : Fits (digits * 10 ^ power.toNat)
      · rw [bind_ok (passed half)]
        exact if_neg no
      · exact refused half
    · exact refused fun fits => small (fits_ten_pow.mp fits)
  · rcases held with ⟨large, _, fits⟩
    rw [if_pos (by omega)] at fits
    have power' : ((-power).toNat : Int) = -power := Int.toNat_of_nonneg (by omega)
    rw [bind_ok (passed (fits_ten_pow.mpr (by omega))), bind_ok (passed fits)]
    congr 1
    rw [ceilDiv_eq (by positivity)]
    congr 1
    rw [div_eq_mul_inv]
    push_cast
    congr 1
    rw [← zpow_natCast, power', zpow_neg, inv_inv]
  · by_cases small : (-power).toNat ≤ 38
    · rw [bind_ok (passed (fits_ten_pow.mpr small))]
      exact refused fun fits => held ⟨by omega, by omega, by rw [if_pos (by omega)]; exact fits⟩
    · exact refused fun fits => small (fits_ten_pow.mp fits)

/-! ## The grammar -/

inductive Sign where
  | none
  | plus
  | minus
  deriving DecidableEq

def Sign.text : Sign -> List Char
  | .none => []
  | .plus => ['+']
  | .minus => ['-']

/-- The suffixes, each with its power of ten and its power of two. -/
def units : List (String × Int × Nat) :=
  [("", 0, 0), ("m", -3, 0), ("k", 3, 0), ("M", 6, 0), ("G", 9, 0), ("T", 12, 0), ("P", 15, 0), ("E", 18, 0),
    ("Ki", 0, 10), ("Mi", 0, 20), ("Gi", 0, 30), ("Ti", 0, 40), ("Pi", 0, 50), ("Ei", 0, 60)]

/-- A binary or a decimal suffix, or a decimal exponent. -/
inductive Suffix where
  | unit (letters : String) (power : Int) (binary : Nat) (listed : (letters, power, binary) ∈ units)
  | exponent (letter : Char) (sign : Sign) (digits : List Char) (isE : letter = 'e' ∨ letter = 'E')
      (plain : digits.all Char.isDigit = true) (someDigit : digits ≠ [])

namespace Suffix

def text : Suffix -> List Char
  | .unit letters _ _ _ => letters.toList
  | .exponent letter sign digits _ _ _ => letter :: (sign.text ++ digits)

/-- The power of ten, which for an exponent is any integer. -/
def power : Suffix -> Int
  | .unit _ power _ _ => power
  | .exponent _ sign digits _ _ _ => Text.signed sign.text (Text.decimal digits)

def binary : Suffix -> Nat
  | .unit _ _ binary _ => binary
  | .exponent .. => 0

end Suffix

/-- A quantity of the grammar: an optional sign, digits before and after an
optional point, one of them at least, and a suffix. -/
structure Written where
  sign : Sign
  whole : List Char
  fraction : Option (List Char)
  suffix : Suffix
  wholePlain : whole.all Char.isDigit = true
  fractionPlain : (fraction.getD []).all Char.isDigit = true
  someDigit : whole ++ fraction.getD [] ≠ []

namespace Written

def afterPoint (w : Written) : List Char :=
  w.fraction.getD []

def text (w : Written) : List Char :=
  w.sign.text ++ (w.whole ++ ((w.fraction.elim [] fun digits => '.' :: digits) ++ w.suffix.text))

/-- The rational that a quantity denotes. -/
def value (w : Written) : ℚ :=
  (Text.signed w.sign.text 1 : Int) *
    ((Text.decimal w.whole : Nat) + (Text.decimal w.afterPoint : Nat) / 10 ^ w.afterPoint.length) *
    10 ^ w.suffix.power * 2 ^ w.suffix.binary

/-- The quantity in thousandths, rounded up. -/
def thousandths (w : Written) : Int :=
  ⌈1000 * w.value⌉

/-- The digits as one number, without the point. -/
def digits (w : Written) : Int :=
  Text.signed w.sign.text (Text.decimal (w.whole ++ w.afterPoint))

/-- The power of ten that scales the digits to thousandths. -/
def scalePower (w : Written) : Int :=
  w.suffix.power - w.afterPoint.length + 3

end Written

/-- The text is a quantity of the grammar. -/
def InGrammar (text : List Char) : Prop :=
  Exists fun w : Written => w.text = text

section
variable {w : Written} {digits rest : List Char} {c : Char} {text : String}

theorem decimal_append : Text.decimal (digits ++ rest) = Text.decimal digits * 10 ^ rest.length + Text.decimal rest := by
  induction rest using List.reverseRecOn with
  | nil =>
    rw [List.append_nil]
    simp [Text.decimal]
  | append_singleton rest last ih =>
    rw [← List.append_assoc, Text.decimal_concat, Text.decimal_concat, ih, List.length_append,
      List.length_singleton, pow_succ]
    ring

theorem signed_eq {sign : List Char} {n : Nat} : Text.signed sign n = Text.signed sign 1 * n := by
  unfold Text.signed
  split_ifs
  · ring
  · ring

theorem value_eq : 1000 * w.value = exactly w.digits w.scalePower w.suffix.binary := by
  have ten : (10 : ℚ) ≠ 0 := by norm_num
  have apart := @signed_eq w.sign.text (Text.decimal (w.whole ++ w.afterPoint))
  unfold Written.value exactly Written.digits Written.scalePower
  rw [apart, decimal_append, zpow_add₀ ten, zpow_sub₀ ten, zpow_natCast]
  push_cast
  field_simp

/-! ## Scanning -/

theorem trim_of_none (none : forall c, c ∈ digits -> Text.isWhitespace c = false) : Text.trim digits = digits := by
  have kept {text : List Char} (none : forall c, c ∈ text -> Text.isWhitespace c = false) :
      text.dropWhile Text.isWhitespace = text := by
    cases text with
    | nil => rfl
    | cons c rest =>
      exact List.dropWhile_cons_of_neg (by rw [none c List.mem_cons_self]; exact Bool.false_ne_true)
  unfold Text.trim
  rw [kept none, kept (fun c member => none c (List.mem_reverse.mp member)), List.reverse_reverse]

theorem not_isWhitespace_of_mem (member : c ∈ w.text) : Text.isWhitespace c = false := by
  have sign {sign : Sign} (member : c ∈ sign.text) : Text.isWhitespace c = false := by
    cases sign with
    | none => cases member
    | plus | minus =>
      rw [List.mem_singleton.mp member]
      decide
  have digit {digits : List Char} (plain : digits.all Char.isDigit = true) (member : c ∈ digits) :
      Text.isWhitespace c = false :=
    Text.not_isWhitespace_of_isDigit (List.all_eq_true.mp plain c member)
  rcases List.mem_append.mp member with first | member
  · exact sign first
  rcases List.mem_append.mp member with whole | member
  · exact digit w.wholePlain whole
  rcases List.mem_append.mp member with fraction | suffix
  · have plain := w.fractionPlain
    cases given : w.fraction with
    | none =>
      rw [given] at fraction
      cases fraction
    | some digits =>
      rw [given] at fraction plain
      rcases List.mem_cons.mp fraction with rfl | listed
      · decide
      · exact digit plain listed
  · cases given : w.suffix with
    | unit letters power binary listed =>
      rw [given] at suffix
      have every : units.all (fun unit => unit.1.toList.all fun c => !Text.isWhitespace c) = true := by decide
      simpa using List.all_eq_true.mp (List.all_eq_true.mp every _ listed) c suffix
    | exponent letter mark digits isE plain someDigit =>
      rw [given] at suffix
      rcases List.mem_cons.mp suffix with rfl | rest
      · rcases isE with rfl | rfl
        · decide
        · decide
      · rcases List.mem_append.mp rest with first | last
        · exact sign first
        · exact digit plain last

theorem trim_text : Text.trim w.text = w.text :=
  trim_of_none fun _ member => not_isWhitespace_of_mem member

theorem span_isDigit (plain : digits.all Char.isDigit = true) (stops : forall c, rest.head? = some c -> c.isDigit = false) :
    (digits ++ rest).span Char.isDigit = (digits, rest) := by
  rw [List.span_eq_takeWhile_dropWhile, List.takeWhile_append_of_pos (List.all_eq_true.mp plain),
    List.dropWhile_append_of_pos (List.all_eq_true.mp plain)]
  cases rest with
  | nil => rw [List.takeWhile_nil, List.append_nil, List.dropWhile_nil]
  | cons c rest =>
    have ends := stops c rfl
    rw [List.takeWhile_cons_of_neg (by rw [ends]; exact Bool.false_ne_true),
      List.dropWhile_cons_of_neg (by rw [ends]; exact Bool.false_ne_true), List.append_nil]

/-! ## Suffixes -/

theorem integer_of_digits {sign : Sign} (plain : digits.all Char.isDigit = true) (someDigit : digits ≠ []) :
    Text.integer (sign.text ++ digits) = some (Text.signed sign.text (Text.decimal digits)) := by
  have filled : digits.isEmpty = false := List.isEmpty_eq_false_iff.mpr someDigit
  have split : Text.splitSign (sign.text ++ digits) = (sign.text, digits) := by
    cases sign with
    | none => exact Text.splitSign_digits plain
    | plus => rfl
    | minus => rfl
  unfold Text.integer
  rw [split]
  dsimp only
  rw [filled, plain, Bool.not_false, Bool.and_true, if_pos rfl]

theorem splitSign_eq (chars : List Char) : Exists fun sign : Sign =>
    (Text.splitSign chars).1 = sign.text ∧ chars = sign.text ++ (Text.splitSign chars).2 := by
  cases chars with
  | nil => exact ⟨.none, rfl, rfl⟩
  | cons c rest =>
    unfold Text.splitSign
    dsimp only
    split_ifs with signed
    · rw [Bool.or_eq_true, decide_eq_true_eq, decide_eq_true_eq] at signed
      rcases signed with rfl | rfl
      · exact ⟨.plus, rfl, rfl⟩
      · exact ⟨.minus, rfl, rfl⟩
    · exact ⟨.none, rfl, rfl⟩

theorem scale_other {exponent : List Char} (apart : forall unit, unit ∈ units -> unit.1 ≠ String.ofList (c :: exponent)) :
    scale text (c :: exponent) =
      if c = 'e' || c = 'E' then
        match Text.integer exponent with
        | some n => if -2 ^ 31 ≤ n ∧ n < 2 ^ 31 then .ok (n, 0) else .error (.invalidExponent text)
        | none => .error (.invalidExponent text)
      else .error (.unrecognizedSuffix text (String.ofList (c :: exponent))) := by
  have no {letters : String} (listed : letters ∈ units.map Prod.fst) : String.ofList (c :: exponent) ≠ letters := by
    rcases List.mem_map.mp listed with ⟨unit, member, rfl⟩
    exact (apart unit member).symm
  unfold scale
  split
  all_goals first
    | next same => exact absurd same (no (by decide))
    | rfl

theorem scale_text (suffix : Suffix) : scale text suffix.text =
    if NotK8s.Library.Fits 32 suffix.power then .ok (suffix.power, suffix.binary) else .error (.invalidExponent text) := by
  cases suffix with
  | unit letters power binary listed =>
    have every : forall unit, unit ∈ units -> NotK8s.Library.Fits 32 unit.2.1 ∧
        scale text unit.1.toList = .ok (unit.2.1, unit.2.2) := by
      intro unit member
      fin_cases member <;> exact ⟨by decide, rfl⟩
    have read := every _ listed
    rw [Suffix.power, if_pos read.1]
    exact read.2
  | exponent letter sign digits isE plain someDigit =>
    rw [Suffix.text, scale_other]
    · have isE' : (decide (letter = 'e') || decide (letter = 'E')) = true := by
        rcases isE with rfl | rfl
        · rfl
        · rfl
      have range : NotK8s.Library.Fits 32 (Text.signed sign.text (Text.decimal digits)) <->
          -2 ^ 31 ≤ Text.signed sign.text (Text.decimal digits) ∧
            Text.signed sign.text (Text.decimal digits) < 2 ^ 31 := by
        unfold NotK8s.Library.Fits
        omega
      simp only [Suffix.power, Suffix.binary, isE', integer_of_digits plain someDigit, range, if_true]
    · intro unit member same
      have no : forall unit, unit ∈ units -> unit.1.toList.any Char.isDigit = false := by decide
      have some_digit : unit.1.toList.any Char.isDigit = true := by
        rw [same, String.toList_ofList, List.any_eq_true]
        have ⟨c, member⟩ := List.exists_mem_of_ne_nil digits someDigit
        exact ⟨c, .tail _ (List.mem_append_right _ member), List.all_eq_true.mp plain c member⟩
      rw [no unit member] at some_digit
      exact Bool.noConfusion some_digit

theorem scale_refuses {suffix : List Char} (no : forall known : Suffix, known.text ≠ suffix) :
    Exists fun e => scale text suffix = .error e ∧ forall text, e ≠ .overflow text := by
  have apart : forall unit, unit ∈ units -> unit.1 ≠ String.ofList suffix := by
    rintro ⟨letters, power, binary⟩ member same
    refine no (.unit letters power binary member) ?_
    dsimp only at same
    rw [Suffix.text, same, String.toList_ofList]
  cases suffix with
  | nil => exact absurd rfl (apart ("", 0, 0) (by decide))
  | cons c exponent =>
    rw [scale_other apart]
    split_ifs with isE
    · cases read : Text.integer exponent with
      | none => exact ⟨_, rfl, fun _ => Error.noConfusion⟩
      | some n =>
        exfalso
        have ⟨sign, signText, whole⟩ := splitSign_eq exponent
        unfold Text.integer at read
        dsimp only at read
        split_ifs at read with digits
        rw [Bool.and_eq_true, Bool.not_eq_true', List.isEmpty_eq_false_iff] at digits
        rw [Bool.or_eq_true, decide_eq_true_eq, decide_eq_true_eq] at isE
        refine no (.exponent c sign (Text.splitSign exponent).2 isE digits.2 digits.1) ?_
        rw [Suffix.text, ← whole]
    · exact ⟨_, rfl, fun _ => Error.noConfusion⟩

/-! ## Reading a quantity -/

theorem suffix_head (suffix : Suffix) (head : suffix.text.head? = some c) : c.isDigit = false ∧ c ≠ '.' := by
  cases suffix with
  | unit letters power binary listed =>
    have every : units.all (fun unit => unit.1.toList.head?.all fun c => !c.isDigit && c != '.') = true := by decide
    have first := List.all_eq_true.mp every _ listed
    rw [show letters.toList.head? = some c from head] at first
    simpa using first
  | exponent letter sign digits isE plain someDigit =>
    obtain rfl := Option.some.inj head
    rcases isE with rfl | rfl
    · decide
    · decide

theorem scan_text : Text.splitSign w.text = (w.sign.text, w.whole ++
      ((w.fraction.elim [] fun digits => '.' :: digits) ++ w.suffix.text)) ∧
    (w.whole ++ ((w.fraction.elim [] fun digits => '.' :: digits) ++ w.suffix.text)).span Char.isDigit =
      (w.whole, (w.fraction.elim [] fun digits => '.' :: digits) ++ w.suffix.text) ∧
    splitFraction ((w.fraction.elim [] fun digits => '.' :: digits) ++ w.suffix.text) = (w.afterPoint, w.suffix.text) := by
  have apart (c : Char) (head : w.suffix.text.head? = some c) := suffix_head w.suffix head
  refine ⟨?_, ?_, ?_⟩
  · unfold Written.text
    cases w.sign with
    | plus => rfl
    | minus => rfl
    | none =>
      have first {c : Char} {rest : List Char} (starts : w.whole ++
          ((w.fraction.elim [] fun digits => '.' :: digits) ++ w.suffix.text) = c :: rest) : c ≠ '+' ∧ c ≠ '-' := by
        cases whole : w.whole with
        | cons d tail =>
          have plain := w.wholePlain
          rw [whole] at starts plain
          obtain rfl := (List.cons.inj starts).1
          rw [List.all_cons, Bool.and_eq_true] at plain
          constructor
          · rintro rfl
            exact Bool.false_ne_true plain.1
          · rintro rfl
            exact Bool.false_ne_true plain.1
        | nil =>
          have digit := w.someDigit
          rw [whole] at starts digit
          cases fraction : w.fraction with
          | none =>
            rw [fraction] at digit
            exact absurd rfl digit
          | some digits =>
            rw [fraction] at starts
            obtain rfl := (List.cons.inj starts).1
            decide
      cases text : w.whole ++ ((w.fraction.elim [] fun digits => '.' :: digits) ++ w.suffix.text) with
      | nil => rfl
      | cons c rest =>
        have ⟨noPlus, noMinus⟩ := first text
        simp [Sign.text, Text.splitSign, noPlus, noMinus]
  · refine span_isDigit w.wholePlain fun c head => ?_
    cases fraction : w.fraction with
    | none =>
      rw [fraction] at head
      exact (apart c head).1
    | some digits =>
      rw [fraction] at head
      obtain rfl := Option.some.inj head
      decide
  · unfold Written.afterPoint
    have plain := w.fractionPlain
    cases fraction : w.fraction with
    | some digits =>
      rw [fraction] at plain
      exact span_isDigit plain fun c head => (apart c head).1
    | none =>
      cases text : w.suffix.text with
      | nil => rfl
      | cons c rest =>
        have point := (apart c (by rw [text]; rfl)).2
        simp [splitFraction, point]

theorem parse_text {s : String} (trimmed : Text.trim s.toList = w.text) : parse s =
    (if 2 ^ 127 ≤ Text.decimal (w.whole ++ w.afterPoint) then .error (.overflow (String.ofList w.text))
    else if NotK8s.Library.Fits 32 w.suffix.power then
      if Held w.digits (wrapped 32 w.scalePower) w.suffix.binary then
        .ok ⟨⌈exactly w.digits (wrapped 32 w.scalePower) w.suffix.binary⌉⟩
      else .error (.overflow (String.ofList w.text))
    else .error (.invalidExponent (String.ofList w.text))) := by
  have ⟨signed, whole, fraction⟩ := @scan_text w
  have filled : (w.whole.isEmpty && w.afterPoint.isEmpty) = false := by
    rw [Bool.eq_false_iff]
    intro empty
    rw [Bool.and_eq_true, List.isEmpty_iff, List.isEmpty_iff] at empty
    exact w.someDigit (List.append_eq_nil_iff.mpr empty)
  have some : w.text.isEmpty = false := by
    rw [List.isEmpty_eq_false_iff]
    intro empty
    rw [empty] at signed
    rw [← (Prod.mk.inj signed).2] at whole
    have none := (Prod.mk.inj whole)
    rw [← none.2] at fraction
    rw [← none.1, ← (Prod.mk.inj fraction).1] at filled
    exact Bool.noConfusion filled
  have power : wrapped 32 (wrapped 32 (w.suffix.power - wrapped 32 w.afterPoint.length) + 3) =
      wrapped 32 w.scalePower := by
    rw [wrapped_sub_right, wrapped_add_left]
    rfl
  unfold parse
  rw [trimmed]
  dsimp only
  rw [some, signed]
  rw [whole]
  rw [fraction]
  rw [filled, if_neg Bool.false_ne_true, if_neg Bool.false_ne_true]
  by_cases large : 2 ^ 127 ≤ Text.decimal (w.whole ++ w.afterPoint)
  · have no : ¬Fits (Text.decimal (w.whole ++ w.afterPoint)) := by
      unfold Fits
      omega
    rw [if_pos large]
    unfold checked
    rw [if_neg no]
    rfl
  · have fits : Fits (Text.decimal (w.whole ++ w.afterPoint)) := by
      unfold Fits
      omega
    have read : checked (String.ofList w.text) (Text.decimal (w.whole ++ w.afterPoint)) = .ok _ := if_pos fits
    rw [if_neg large, bind_ok read, scale_text]
    split_ifs with exponent held
    · rw [bind_ok rfl]
      rw [power, Int.toNat_natCast, scaled_eq]
      unfold Written.digits at held
      rw [if_pos held]
      rfl
    · rw [bind_ok rfl]
      rw [power, Int.toNat_natCast, scaled_eq]
      unfold Written.digits at held
      rw [if_neg held]
      rfl
    · rfl

/-- The digits that the parser scans, before and after a point. -/
def scannedDigits (text : List Char) : List Char :=
  let scanned := (Text.splitSign text).2.span Char.isDigit
  scanned.1 ++ (splitFraction scanned.2).1

theorem scannedDigits_text : scannedDigits w.text = w.whole ++ w.afterPoint := by
  have ⟨signed, whole, fraction⟩ := @scan_text w
  unfold scannedDigits
  rw [signed]
  rw [whole]
  dsimp only
  rw [fraction]

theorem splitFraction_eq (chars : List Char) : Exists fun fraction : Option (List Char) =>
    (splitFraction chars).1 = fraction.getD [] ∧ (fraction.getD []).all Char.isDigit = true ∧
      chars = (fraction.elim [] fun digits => '.' :: digits) ++ (splitFraction chars).2 := by
  unfold splitFraction
  split
  · next rest =>
      refine ⟨some (rest.takeWhile Char.isDigit), ?_⟩
      rw [List.span_eq_takeWhile_dropWhile]
      exact ⟨rfl, List.all_takeWhile, congrArg ('.' :: ·) List.takeWhile_append_dropWhile.symm⟩
  · exact ⟨none, rfl, rfl, rfl⟩

/-- What is no quantity after trimming is refused, for its size only when its
digits are too many. -/
theorem parse_refuses {s : String} (no : ¬InGrammar (Text.trim s.toList)) : Exists fun e => parse s = .error e ∧
    ((forall text, e ≠ .overflow text) <-> Text.decimal (scannedDigits (Text.trim s.toList)) < 2 ^ 127) := by
  unfold parse
  generalize Text.trim s.toList = trimmed at no ⊢
  dsimp only
  cases empty : trimmed.isEmpty with
  | true =>
    rw [List.isEmpty_iff] at empty
    subst empty
    exact ⟨.empty, rfl, iff_of_true (fun _ => Error.noConfusion) (by decide)⟩
  | false =>
    have ⟨sign, signText, afterSign⟩ := splitSign_eq trimmed
    have ⟨fraction, fractionText, plain, afterWhole⟩ :=
      splitFraction_eq ((Text.splitSign trimmed).2.span Char.isDigit).2
    unfold scannedDigits
    dsimp only
    have parts : (Text.splitSign trimmed).2 = ((Text.splitSign trimmed).2.span Char.isDigit).1 ++
        ((Text.splitSign trimmed).2.span Char.isDigit).2 := by
      rw [List.span_eq_takeWhile_dropWhile]
      exact List.takeWhile_append_dropWhile.symm
    have wholePlain : ((Text.splitSign trimmed).2.span Char.isDigit).1.all Char.isDigit = true := by
      rw [List.span_eq_takeWhile_dropWhile]
      exact List.all_takeWhile
    generalize (Text.splitSign trimmed).2.span Char.isDigit = scanned at *
    generalize splitFraction scanned.2 = split at *
    rw [if_neg Bool.false_ne_true]
    cases none : scanned.1.isEmpty && split.1.isEmpty with
    | true =>
      rw [Bool.and_eq_true, List.isEmpty_iff, List.isEmpty_iff] at none
      rw [none.1, none.2]
      exact ⟨.noDigits (String.ofList trimmed), rfl, iff_of_true (fun _ => Error.noConfusion) (by decide)⟩
    | false =>
      rw [if_neg Bool.false_ne_true]
      unfold checked
      by_cases small : Text.decimal (scanned.1 ++ split.1) < 2 ^ 127
      · have fits : Fits (Text.decimal (scanned.1 ++ split.1)) := by
          unfold Fits
          omega
        have unknown (known : Suffix) : known.text ≠ split.2 := by
          intro same
          refine no ⟨⟨sign, scanned.1, fraction, known, wholePlain, plain, ?_⟩, ?_⟩
          · rw [← fractionText]
            intro nothing
            rw [(List.append_eq_nil_iff.mp nothing).1, (List.append_eq_nil_iff.mp nothing).2] at none
            exact Bool.noConfusion none
          · unfold Written.text
            rw [same, ← afterWhole, ← parts, ← afterSign]
        have ⟨e, refused, other⟩ := @scale_refuses (String.ofList trimmed) split.2 unknown
        rw [if_pos fits, bind_ok rfl, refused]
        exact ⟨e, rfl, iff_of_true other small⟩
      · have large : ¬Fits (Text.decimal (scanned.1 ++ split.1)) := by
          unfold Fits
          omega
        rw [if_neg large]
        exact ⟨_, rfl, iff_of_false (fun other => other _ rfl) small⟩

/-! ## Small values -/

theorem binary_le (suffix : Suffix) : suffix.binary ≤ 60 := by
  cases suffix with
  | unit letters power binary listed =>
    have every : forall unit, unit ∈ units -> unit.2.2 ≤ 60 := by decide
    exact every _ listed
  | exponent => exact Nat.zero_le 60

theorem abs_digits : |w.digits| = Text.decimal (w.whole ++ w.afterPoint) := by
  unfold Written.digits Text.signed
  split_ifs
  · rw [abs_neg]
    exact abs_of_nonneg (Int.natCast_nonneg _)
  · exact abs_of_nonneg (Int.natCast_nonneg _)

theorem ceil_of_small {x : ℚ} (lower : -1 < x) (upper : x ≤ 1) : ⌈x⌉ = if 0 < x then 1 else 0 := by
  rw [Int.ceil_eq_iff]
  split_ifs with positive
  · exact ⟨by push_cast; linarith, by push_cast; linarith⟩
  · exact ⟨by push_cast; linarith, by push_cast; linarith⟩

theorem exactly_pos {digits power : Int} {binary : Nat} : 0 < exactly digits power binary <-> 0 < digits := by
  have scale : (0 : ℚ) < 2 ^ binary * 10 ^ power := by positivity
  unfold exactly
  rw [mul_assoc, mul_pos_iff_of_pos_right scale]
  exact Int.cast_pos

theorem exactly_small (few : Text.decimal (w.whole ++ w.afterPoint) < 2 ^ 127) (low : w.scalePower < -2 ^ 31) :
    -1 < exactly w.digits w.scalePower w.suffix.binary ∧ exactly w.digits w.scalePower w.suffix.binary < 1 := by
  rw [← abs_lt]
  have scale : (10 : ℚ) ^ w.scalePower ≤ 10 ^ (-57 : Int) := zpow_le_zpow_right₀ (by norm_num) (by omega)
  have digits : |(w.digits : ℚ)| < 2 ^ 127 := by
    rw [← Int.cast_abs, abs_digits]
    exact_mod_cast few
  have two : (2 : ℚ) ^ w.suffix.binary ≤ 2 ^ 60 := pow_le_pow_right₀ (by norm_num) (binary_le w.suffix)
  unfold exactly
  rw [abs_mul, abs_mul, abs_of_pos (by positivity : (0 : ℚ) < 2 ^ w.suffix.binary),
    abs_of_pos (by positivity : (0 : ℚ) < 10 ^ w.scalePower)]
  calc |(w.digits : ℚ)| * 2 ^ w.suffix.binary * 10 ^ w.scalePower
      ≤ 2 ^ 127 * 2 ^ 60 * 10 ^ (-57 : Int) := by gcongr
    _ < 1 := by norm_num

/-- The power of ten survives in 32 bits, or it is too low to matter, or what
becomes of it is too low to be used. -/
theorem wrapped_scalePower (exponent : NotK8s.Library.Fits 32 w.suffix.power) :
    wrapped 32 w.scalePower = w.scalePower ∨ w.scalePower < -2 ^ 31 ∨ wrapped 32 w.scalePower < -38 := by
  by_cases fits : NotK8s.Library.Fits 32 w.scalePower
  · exact .inl (wrapped_of_fits fits)
  · by_cases low : w.scalePower < -2 ^ 31
    · exact .inr (.inl low)
    · right
      right
      have most : w.scalePower ≤ 2 ^ 31 + 2 := by
        unfold Written.scalePower
        unfold NotK8s.Library.Fits at exponent
        omega
      have parts := Int.bdiv_add_bmod w.scalePower (2 ^ 32)
      have range := @fits_wrapped 32 w.scalePower (by decide)
      unfold wrapped at range ⊢
      unfold NotK8s.Library.Fits at fits range
      omega

theorem fits_of_held {digits power : Int} {binary : Nat} (held : Held digits power binary) :
    Fits ⌈exactly digits power binary⌉ := by
  rcases held with ⟨_, _, fits⟩
  split_ifs at fits with sign
  · have scale : (0 : ℚ) < 10 ^ power := by positivity
    have shrinks : (10 : ℚ) ^ power ≤ 1 := zpow_le_one_of_nonpos₀ (by norm_num) sign.le
    have same : exactly digits power binary = ((digits * 2 ^ binary : Int) : ℚ) * 10 ^ power := by
      unfold exactly
      push_cast
      ring
    rcases fits with ⟨lower, upper⟩
    have above : ((-2 ^ 127 : Int) : ℚ) ≤ (digits * 2 ^ binary : Int) := by exact_mod_cast lower
    have below : ((digits * 2 ^ binary : Int) : ℚ) ≤ (2 ^ 127 - 1 : Int) := by exact_mod_cast Int.le_sub_one_of_lt upper
    rw [same]
    refine ⟨?_, Int.lt_of_le_sub_one (Int.ceil_le.mpr ?_)⟩
    · rw [← Int.cast_le (R := ℚ)]
      refine le_trans ?_ (Int.le_ceil _)
      push_cast at above ⊢
      nlinarith
    · push_cast at below ⊢
      nlinarith
  · have power' : (power.toNat : Int) = power := Int.toNat_of_nonneg (by omega)
    have same : exactly digits power binary = ((digits * 10 ^ power.toNat * 2 ^ binary : Int) : ℚ) := by
      unfold exactly
      rw [← power', zpow_natCast, Int.toNat_natCast]
      push_cast
      ring
    rw [same, Int.ceil_intCast]
    exact fits

end

/-! ## Exactness -/

/-- The text is read as the grammar says: a quantity as its thousandths rounded
up, or as too large where these do not fit, and nothing else at all. -/
def Exact (s : String) : Prop :=
  (forall w : Written, w.text = s.toList ->
    parse s = if Fits w.thousandths then .ok ⟨w.thousandths⟩ else .error (.overflow s)) ∧
  (¬InGrammar s.toList -> Exists fun e => parse s = .error e ∧ forall text, e ≠ .overflow text)

/-- The quantity gets through the machine arithmetic if it fits, and is refused
for its size if it does not. -/
def Written.Passes (w : Written) : Prop :=
  (Fits w.thousandths -> Text.decimal (w.whole ++ w.afterPoint) < 2 ^ 127 ∧ NotK8s.Library.Fits 32 w.suffix.power ∧
    Held w.digits (wrapped 32 w.scalePower) w.suffix.binary ∧
    (wrapped 32 w.scalePower = w.scalePower ∨ -1 < exactly w.digits (wrapped 32 w.scalePower) w.suffix.binary ∧
      exactly w.digits (wrapped 32 w.scalePower) w.suffix.binary ≤ 1)) ∧
  (¬Fits w.thousandths -> 2 ^ 127 ≤ Text.decimal (w.whole ++ w.afterPoint) ∨ NotK8s.Library.Fits 32 w.suffix.power)

/-- A text that is no quantity has not too many digits, and is none after
trimming, or one with an exponent that is refused. -/
def Readable (s : String) : Prop :=
  (forall w : Written, w.text = s.toList -> w.Passes) ∧
  (¬InGrammar s.toList -> Text.decimal (scannedDigits (Text.trim s.toList)) < 2 ^ 127 ∧
    forall w : Written, w.text = Text.trim s.toList -> ¬NotK8s.Library.Fits 32 w.suffix.power)

section
variable {w : Written} {s : String}

theorem thousandths_eq : w.thousandths = ⌈exactly w.digits w.scalePower w.suffix.binary⌉ := by
  unfold Written.thousandths
  rw [value_eq]

/-- Held numbers fit, also where the power of ten was changed on the way. -/
theorem fits_thousandths (few : Text.decimal (w.whole ++ w.afterPoint) < 2 ^ 127)
    (exponent : NotK8s.Library.Fits 32 w.suffix.power) (held : Held w.digits (wrapped 32 w.scalePower) w.suffix.binary) :
    Fits w.thousandths := by
  rw [thousandths_eq]
  rcases wrapped_scalePower exponent with same | low | out
  · rw [same] at held
    exact fits_of_held held
  · have ⟨lower, upper⟩ := exactly_small few low
    rw [ceil_of_small lower upper.le]
    unfold Fits
    split_ifs <;> omega
  · exact absurd held.1 (by omega)

/-- The number is right exactly when the power of ten was kept, or does not
matter. -/
theorem ceil_eq_thousandths (few : Text.decimal (w.whole ++ w.afterPoint) < 2 ^ 127)
    (exponent : NotK8s.Library.Fits 32 w.suffix.power) (held : Held w.digits (wrapped 32 w.scalePower) w.suffix.binary) :
    ⌈exactly w.digits (wrapped 32 w.scalePower) w.suffix.binary⌉ = w.thousandths <->
      (wrapped 32 w.scalePower = w.scalePower ∨ -1 < exactly w.digits (wrapped 32 w.scalePower) w.suffix.binary ∧
        exactly w.digits (wrapped 32 w.scalePower) w.suffix.binary ≤ 1) := by
  rw [thousandths_eq]
  by_cases kept : wrapped 32 w.scalePower = w.scalePower
  · rw [kept]
    exact iff_of_true rfl (.inl rfl)
  · have low : w.scalePower < -2 ^ 31 := by
      rcases wrapped_scalePower exponent with same | low | out
      · exact absurd same kept
      · exact low
      · exact absurd held.1 (by omega)
    have ⟨lower, upper⟩ := exactly_small few low
    have small := ceil_of_small lower upper.le
    constructor
    · intro same
      rw [small, Int.ceil_eq_iff] at same
      right
      split_ifs at same with positive
      · push_cast at same
        exact ⟨by linarith [same.1], same.2⟩
      · push_cast at same
        exact ⟨by linarith [same.1], by linarith [same.2]⟩
    · rintro (same | ⟨above, below⟩)
      · exact absurd same kept
      · rw [small, ceil_of_small above below]
        simp only [exactly_pos]

theorem parse_eq_iff (written : w.text = s.toList) :
    parse s = (if Fits w.thousandths then .ok ⟨w.thousandths⟩ else .error (.overflow s)) <-> w.Passes := by
  have trimmed : Text.trim s.toList = w.text := by
    rw [← written]
    exact trim_text
  have named : String.ofList w.text = s := by rw [written, String.ofList_toList]
  rw [parse_text trimmed, named]
  by_cases large : 2 ^ 127 ≤ Text.decimal (w.whole ++ w.afterPoint)
  · rw [if_pos large]
    by_cases fits : Fits w.thousandths
    · rw [if_pos fits]
      exact iff_of_false (nomatch ·) fun passes => absurd (passes.1 fits).1 (by omega)
    · rw [if_neg fits]
      exact iff_of_true rfl ⟨fun no => absurd no fits, fun _ => .inl large⟩
  · have few := Nat.lt_of_not_le large
    rw [if_neg large]
    by_cases exponent : NotK8s.Library.Fits 32 w.suffix.power
    · rw [if_pos exponent]
      by_cases held : Held w.digits (wrapped 32 w.scalePower) w.suffix.binary
      · have fits := fits_thousandths few exponent held
        rw [if_pos held, if_pos fits, Except.ok.injEq, Quantity.mk.injEq, ceil_eq_thousandths few exponent held]
        exact ⟨fun right => ⟨fun _ => ⟨few, exponent, held, right⟩, fun no => absurd fits no⟩,
          fun passes => (passes.1 fits).2.2.2⟩
      · rw [if_neg held]
        by_cases fits : Fits w.thousandths
        · rw [if_pos fits]
          exact iff_of_false (nomatch ·) fun passes => held (passes.1 fits).2.2.1
        · rw [if_neg fits]
          exact iff_of_true rfl ⟨fun no => absurd no fits, fun _ => .inr exponent⟩
    · rw [if_neg exponent]
      refine iff_of_false ?_ fun passes => ?_
      · intro same
        by_cases fits : Fits w.thousandths
        · rw [if_pos fits] at same
          cases same
        · rw [if_neg fits] at same
          nomatch Except.error.inj same
      · by_cases fits : Fits w.thousandths
        · exact exponent (passes.1 fits).2.1
        · rcases passes.2 fits with many | fine
          · exact large many
          · exact exponent fine

theorem refuses_iff : (Exists fun e => parse s = .error e ∧ forall text, e ≠ .overflow text) <->
    Text.decimal (scannedDigits (Text.trim s.toList)) < 2 ^ 127 ∧
      forall w : Written, w.text = Text.trim s.toList -> ¬NotK8s.Library.Fits 32 w.suffix.power := by
  by_cases grammar : InGrammar (Text.trim s.toList)
  · rcases grammar with ⟨w, written⟩
    have digits := @scannedDigits_text w
    rw [written] at digits
    constructor
    · rintro ⟨e, refused, other⟩
      have few : Text.decimal (scannedDigits (Text.trim s.toList)) < 2 ^ 127 := by
        rw [digits]
        by_contra large
        rw [parse_text written.symm, if_pos (Nat.le_of_not_lt large)] at refused
        exact other _ (Except.error.inj refused).symm
      refine ⟨few, fun v also exponent => ?_⟩
      have same := @scannedDigits_text v
      rw [also] at same
      rw [same] at few
      rw [parse_text also.symm, if_neg (Nat.not_le_of_lt few), if_pos exponent] at refused
      split_ifs at refused
      exact other _ (Except.error.inj refused).symm
    · rintro ⟨few, wide⟩
      rw [digits] at few
      rw [parse_text written.symm, if_neg (Nat.not_le_of_lt few), if_neg (wide w written)]
      exact ⟨_, rfl, fun _ => Error.noConfusion⟩
  · have ⟨e, refused, other⟩ := parse_refuses grammar
    constructor
    · rintro ⟨e', same, others⟩
      obtain rfl := Except.error.inj (refused.symm.trans same)
      exact ⟨other.mp others, fun w written => absurd ⟨w, written⟩ grammar⟩
    · rintro ⟨few, _⟩
      exact ⟨e, refused, other.mpr few⟩

/-- Every text is read exactly under this condition and only then, and among
quantities that are, the order of the values is kept. -/
theorem parse_exact_iff (s : String) :
    (Exact s <-> Readable s) ∧
    (forall first second : Written, first.Passes -> second.Passes -> first.value ≤ second.value -> forall a b,
      parse (String.ofList first.text) = .ok a -> parse (String.ofList second.text) = .ok b -> a.milli ≤ b.milli) := by
  constructor
  · unfold Exact Readable
    rw [refuses_iff]
    exact and_congr_left fun _ => forall_congr' fun w => forall_congr' parse_eq_iff
  · intro first second passes also ordered a b read alsoRead
    have thousandths {w : Written} {q : Quantity} (passes : w.Passes) (read : parse (String.ofList w.text) = .ok q) :
        q.milli = w.thousandths := by
      rw [(parse_eq_iff String.toList_ofList.symm).mpr passes] at read
      split_ifs at read
      rw [← Except.ok.inj read]
    rw [thousandths passes read, thousandths also alsoRead]
    exact Int.ceil_le_ceil (by linarith)

/-- A small value is refused for its exponent, a whole one for its zeros, and
white space around a quantity is no matter. -/
theorem smallValue_refused : ¬Exact "1e-100" ∧ ¬Exact "1.0000000000000000000000000000000000000000" ∧ ¬Exact " 5" := by
  let tiny : Written :=
    ⟨.none, ['1'], none, .exponent 'e' .minus ['1', '0', '0'] (.inl rfl) (by decide) (by decide), by decide, by decide,
      by decide⟩
  let one : Written :=
    ⟨.none, ['1'], some (List.replicate 40 '0'), .unit "" 0 0 (by decide), by decide, by decide, by decide⟩
  have fits {n : Int} (lower : 0 ≤ n) (upper : n ≤ 1000) : Fits n := by
    unfold Fits
    omega
  refine ⟨fun exact => ?_, fun exact => ?_, fun exact => ?_⟩
  · have scaled : exactly tiny.digits tiny.scalePower tiny.suffix.binary = 10 ^ (-97 : Int) := by
      have digits : tiny.digits = 1 := by decide
      have power : tiny.scalePower = -97 := by decide
      rw [digits, power]
      norm_num [exactly, Suffix.binary, tiny]
    have rounded : tiny.thousandths = 1 := by
      rw [thousandths_eq, scaled, Int.ceil_eq_iff]
      norm_num
    have read := exact.1 tiny (by decide)
    rw [if_pos (fits (by omega) (by omega))] at read
    have refused : parse "1e-100" = .error (.overflow "1e-100") := by decide +kernel
    nomatch refused.symm.trans read
  · have scaled : exactly one.digits one.scalePower one.suffix.binary = 1000 := by
      have digits : one.digits = 10 ^ 40 := by decide +kernel
      have power : one.scalePower = -37 := by decide
      rw [digits, power]
      norm_num [exactly, Suffix.binary, one]
    have rounded : one.thousandths = 1000 := by
      rw [thousandths_eq, scaled, Int.ceil_eq_iff]
      norm_num
    have read := exact.1 one (by decide)
    rw [if_pos (fits (by omega) (by omega))] at read
    have refused : parse "1.0000000000000000000000000000000000000000" =
        .error (.overflow "1.0000000000000000000000000000000000000000") := by decide +kernel
    nomatch refused.symm.trans read
  · have no : ¬InGrammar " 5".toList := by
      rintro ⟨w, written⟩
      have blank : ' ' ∈ w.text := by
        rw [written]
        decide
      exact absurd (not_isWhitespace_of_mem blank) (by decide)
    have ⟨e, refused, _⟩ := exact.2 no
    have read : parse " 5" = .ok ⟨5000⟩ := by decide +kernel
    nomatch read.symm.trans refused

end

end Quantity
end NotK8s.Apiserver

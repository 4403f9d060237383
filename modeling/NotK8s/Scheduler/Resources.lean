import Mathlib.Data.String.Basic
import NotK8s.Library.Binary64
import NotK8s.Library.Integers
import NotK8s.Library.SortedMap
import NotK8s.Library.Text

namespace NotK8s.Scheduler

open Library

/-!
# Quantities in the scheduler

The scheduler reads the same text in double precision and rounds the result
to an integer.  Every operation on doubles is the exact one followed by
`Binary64.nearest`.  What cannot be read counts as zero.
-/

/-- A decimal number with an optional exponent, as the standard parser of
doubles reads it, before rounding. -/
def parseDecimal (number : List Char) : Option ℚ :=
  let (sign, unsigned) := Text.splitSign number
  let (whole, afterWhole) := unsigned.span Char.isDigit
  let (fraction, afterFraction) :=
    match afterWhole with
    | '.' :: rest => rest.span Char.isDigit
    | other => ([], other)
  if whole.isEmpty && fraction.isEmpty then none
  else
    let mantissa : ℚ := Text.signed sign (Text.decimal (whole ++ fraction))
    match afterFraction with
    | [] => some (mantissa * 10 ^ (-(fraction.length : Int)))
    | c :: exponent =>
      if c = 'e' || c = 'E' then
        (Text.integer exponent).map fun (e : Int) => mantissa * 10 ^ (e - (fraction.length : Int))
      else none

/-- The exponent at the head of the text, when digits follow the letter.
Otherwise the letter is the suffix for exa. -/
def splitExponent : List Char -> List Char × List Char
  | [] => ([], [])
  | c :: rest =>
    let (sign, unsigned) := Text.splitSign rest
    let (digits, suffix) := unsigned.span Char.isDigit
    if (c = 'e' || c = 'E') && !digits.isEmpty then (c :: sign ++ digits, suffix) else ([], c :: rest)

def multiplier (suffix : List Char) : Option ℚ :=
  match String.ofList suffix with
  | "" => some 1
  | "m" => some (Binary64.nearest (1 / 1000))
  | "k" => some (10 ^ 3)
  | "M" => some (10 ^ 6)
  | "G" => some (10 ^ 9)
  | "T" => some (10 ^ 12)
  | "P" => some (10 ^ 15)
  | "E" => some (10 ^ 18)
  | "Ki" => some 1024
  | "Mi" => some (1024 ^ 2)
  | "Gi" => some (1024 ^ 3)
  | "Ti" => some (1024 ^ 4)
  | "Pi" => some (1024 ^ 5)
  | "Ei" => some (1024 ^ 6)
  | _ => none

def parseQuantityF64 (s : String) : Option ℚ :=
  let text := Text.trim s.toList
  if text.isEmpty then none
  else
    let (sign, unsigned) := Text.splitSign text
    let (digits, rest) := unsigned.span fun c => c.isDigit || c == '.'
    let (exponent, suffix) := splitExponent rest
    match parseDecimal (sign ++ digits ++ exponent), multiplier suffix with
    | some number, some factor => some (Binary64.nearest (Binary64.nearest number * factor))
    | _, _ => none

/-- Whole base units, rounded up. -/
def parseQuantity (s : String) : I64 :=
  match parseQuantityF64 s with
  | some v => I64.saturate ⌈v⌉
  | none => 0

/-- Thousandths, in which processor time is stored. -/
def parseQuantityMilli (s : String) : I64 :=
  match parseQuantityF64 s with
  | some v => I64.saturate (Binary64.roundHalfAway (Binary64.nearest (v * 1000)))
  | none => 0

theorem parseQuantityF64_digits {s : String} (plain : s.toList.all Char.isDigit = true) (some_digit : s.toList ≠ [])
    (small : Text.decimal s.toList < 2 ^ 53) :
    parseQuantityF64 s = some ((Text.decimal s.toList : ℤ) : ℚ) := by
  have scanned : s.toList.span (fun c => c.isDigit || c == '.') = (s.toList, []) := by
    apply Text.span_of_all
    rw [List.all_eq_true] at plain ⊢
    exact fun c listed => Bool.or_eq_true_iff.mpr (Or.inl (plain c listed))
  have filled : s.toList.isEmpty = false := by
    rw [Bool.eq_false_iff]
    exact fun empty => some_digit (List.isEmpty_iff.mp empty)
  have number : parseDecimal s.toList = some ((Text.decimal s.toList : ℤ) : ℚ) := by
    unfold parseDecimal
    rw [Text.splitSign_digits plain]
    dsimp only
    rw [Text.span_of_all plain]
    rw [filled, List.append_nil, Bool.false_and, if_neg Bool.false_ne_true]
    simp [Text.signed]
  have exact := @Binary64.nearest_intCast (Text.decimal s.toList : ℤ) (by rw [Nat.abs_cast]; exact_mod_cast small)
  unfold parseQuantityF64
  rw [Text.trim_digits plain]
  dsimp only
  rw [filled, if_neg Bool.false_ne_true, Text.splitSign_digits plain]
  rw [scanned]
  dsimp only [splitExponent]
  rw [List.nil_append, List.append_nil, number]
  change some (Binary64.nearest (Binary64.nearest _ * 1)) = _
  rw [mul_one, exact, exact]

/-- Text that the doubles read exactly as a number of units below 53 bits is
read as that number. -/
theorem parseQuantity_exact {s : String} {n : ℤ} (read : parseQuantityF64 s = some (n : ℚ))
    (small : |n| < 2 ^ 53) : (parseQuantity s).val = n := by
  have bounds := abs_lt.mp small
  unfold parseQuantity
  rw [read]
  dsimp only
  rw [Int.ceil_intCast, I64.val_saturate] <;> omega

theorem parseQuantityMilli_exact {s : String} {n : ℤ} (read : parseQuantityF64 s = some (n : ℚ))
    (small : |1000 * n| < 2 ^ 53) : (parseQuantityMilli s).val = 1000 * n := by
  have bounds := abs_lt.mp small
  have scaled : (n : ℚ) * 1000 = ((1000 * n : ℤ) : ℚ) := by
    push_cast
    ring
  unfold parseQuantityMilli
  rw [read]
  dsimp only
  rw [scaled, Binary64.nearest_intCast small, Binary64.roundHalfAway_intCast, I64.val_saturate] <;> omega

/-!
# Resource vectors

What a pod asks for and what a node has committed.  Three resources have
fields of their own, huge pages and everything else are kept by name.  The
lemmas at the end read every operation through `get`, one resource at a time.
-/

structure Resources where
  milliCpu : I64
  memory : I64
  ephemeralStorage : I64
  hugepages : SortedMap String I64
  extended : SortedMap String I64
  deriving DecidableEq

def isHugepages (name : String) : Bool :=
  "hugepages-".toList.isPrefixOf name.toList

namespace Resources

def zero : Resources where
  milliCpu := 0
  memory := 0
  ephemeralStorage := 0
  hugepages := .empty
  extended := .empty

/-- The amounts of the second vector folded into those of the first.  A name
that the second does not have is left as it is. -/
def combine (op : I64 -> I64 -> I64) (r other : Resources) : Resources where
  milliCpu := op r.milliCpu other.milliCpu
  memory := op r.memory other.memory
  ephemeralStorage := op r.ephemeralStorage other.ephemeralStorage
  hugepages := .fold (fun held v => op (held.getD 0) v) r.hugepages other.hugepages
  extended := .fold (fun held v => op (held.getD 0) v) r.extended other.extended

def add (r other : Resources) : Resources :=
  combine I64.saturatingAdd r other

/-- Subtraction that stops at zero. -/
def sub (r other : Resources) : Resources :=
  combine (fun held v => max (held.wrappingSub v) 0) r other

def maxWith (r other : Resources) : Resources :=
  combine max r other

def get (r : Resources) (name : String) : I64 :=
  if name = "cpu" then r.milliCpu
  else if name = "memory" then r.memory
  else if name = "ephemeral-storage" then r.ephemeralStorage
  else if isHugepages name then (r.hugepages.get name).getD 0
  else (r.extended.get name).getD 0

def set (r : Resources) (name : String) (value : I64) : Resources :=
  if name = "cpu" then { r with milliCpu := value }
  else if name = "memory" then { r with memory := value }
  else if name = "ephemeral-storage" then { r with ephemeralStorage := value }
  else if isHugepages name then { r with hugepages := r.hugepages.insert name value }
  else { r with extended := r.extended.insert name value }

/-- What the scheduler reads of one entry of a request or of a node's
allocatable amounts. -/
def readQuantity (name text : String) : I64 :=
  if name = "cpu" then parseQuantityMilli text else parseQuantity text

def fromQuantities (list : SortedMap String String) : Resources :=
  list.entries.foldl (fun r entry => r.set entry.1 (readQuantity entry.1 entry.2)) zero

variable {r other : Resources} {name : String} {op : I64 -> I64 -> I64}

@[simp] theorem get_zero : zero.get name = 0 := by
  unfold get zero
  split_ifs <;> rfl

/-- One resource at a time, an operation that zero does not change is the
operation on the two amounts. -/
theorem get_combine (unit : op (r.get name) 0 = r.get name) :
    (r.combine op other).get name = op (r.get name) (other.get name) := by
  unfold get combine at *
  split_ifs at * with cpu memory storage huge
  · rfl
  · rfl
  · rfl
  · rw [SortedMap.get_fold]
    cases other.hugepages.get name with
    | none => exact unit.symm
    | some v => rfl
  · rw [SortedMap.get_fold]
    cases other.extended.get name with
    | none => exact unit.symm
    | some v => rfl

theorem get_add : (r.add other).get name = (r.get name).saturatingAdd (other.get name) :=
  get_combine I64.saturatingAdd_zero

theorem val_get_add (lower : 0 ≤ (r.get name).val + (other.get name).val)
    (upper : (r.get name).val + (other.get name).val < 2 ^ 63) :
    ((r.add other).get name).val = (r.get name).val + (other.get name).val := by
  rw [get_add]
  exact I64.val_saturatingAdd (by omega) upper

theorem val_get_sub (positive : 0 ≤ (other.get name).val) (covered : (other.get name).val ≤ (r.get name).val) :
    ((r.sub other).get name).val = (r.get name).val - (other.get name).val := by
  have upper := (r.get name).upper
  have unit : max ((r.get name).wrappingSub 0) 0 = r.get name := by
    apply I64.ext
    have kept : ((r.get name).wrappingSub 0).val = (r.get name).val := by
      rw [I64.val_wrappingSub] <;> rw [I64.val_zero] <;> omega
    rw [I64.val_max, kept, I64.val_zero]
    omega
  unfold sub
  rw [get_combine unit, I64.val_max, I64.val_zero, I64.val_wrappingSub (by omega) (by omega)]
  omega

theorem val_get_maxWith (positive : 0 ≤ (r.get name).val) :
    ((r.maxWith other).get name).val = max (r.get name).val (other.get name).val := by
  have unit : max (r.get name) 0 = r.get name := by
    apply I64.ext
    rw [I64.val_max, I64.val_zero]
    omega
  unfold maxWith
  rw [get_combine unit, I64.val_max]

theorem get_set {changed : String} {value : I64} :
    (r.set changed value).get name = if name = changed then value else r.get name := by
  by_cases same : name = changed
  · subst same
    unfold get set
    split_ifs <;> simp_all [SortedMap.get_insert]
  · rw [if_neg same]
    unfold get set
    split_ifs <;> simp_all [SortedMap.get_insert]

theorem get_fromQuantities {list : SortedMap String String} :
    (fromQuantities list).get name =
      match list.get name with
      | none => 0
      | some text => readQuantity name text := by
  refine (@SortedMap.observe_walk _ _ _ list name _ _ _ (fun r : Resources => r.get name)
    (fun _ text => readQuantity name text) zero ?_).trans ?_
  · intro r entry
    rw [get_set]
    split_ifs with same
    · rw [same]
    · rfl
  · cases list.get name with
    | none => exact get_zero
    | some text => rfl

end Resources
end NotK8s.Scheduler

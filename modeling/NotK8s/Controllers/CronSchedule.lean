import Mathlib
import NotK8s.Library.Text

namespace NotK8s.Controllers
namespace CronSchedule

open Library

/-!
# Cron schedules

Five fields of allowed values, and the next minute after an instant that they
all allow.  An instant is a number of seconds since 1970.
-/

/-! ## Fields -/

structure Schedule where
  minute : List Nat
  hour : List Nat
  dayOfMonth : List Nat
  month : List Nat
  dayOfWeek : List Nat
  domRestricted : Bool
  dowRestricted : Bool
  deriving DecidableEq

def parseU32 (text : List Char) : Option Nat :=
  (Text.unsigned text).filter fun n => decide (n < 2 ^ 32)

/-- The values from `v` to `hi` by the step, which wraps around at 32 bits.
No value comes twice, so there are no more than `hi + 1` of them. -/
def steps (hi step : Nat) : Nat -> Nat -> List Nat
  | 0, _ => []
  | fuel + 1, v => if v ≤ hi then v :: steps hi step fuel ((v + max step 1) % 2 ^ 32) else []

/-- The values of one part of a list, or none for a part that is malformed. -/
def parsePart (part : List Char) (min max : Nat) : Option (List Nat) := do
  let (rangePart, step, explicitStep) ←
    match Text.splitOnce '/' part with
    | some (r, s) => (parseU32 s).map fun step => (r, step, true)
    | none => some (part, 1, false)
  let (lo, hi) ←
    if rangePart = ['*'] then some (min, max)
    else
      match Text.splitOnce '-' rangePart with
      | some (a, b) => (parseU32 a).bind fun a => (parseU32 b).map fun b => (a, b)
      | none => (parseU32 rangePart).map fun v => (v, if explicitStep then max else v)
  if lo < min ∨ max < hi ∨ hi < lo then none else some (steps hi step (hi + 1) lo)

/-- The values of a field and whether it restricts anything.  The values are
only asked for membership, so their order is left as it is. -/
def parseField (field : List Char) (min max : Nat) : Option (List Nat × Bool) :=
  if field = ['*'] then some ((List.range (max + 1)).filter fun v => min ≤ v, false)
  else ((Text.split ',' field).mapM fun part => parsePart part min max).map fun values => (values.flatten.dedup, true)

def splitWhitespace (text : List Char) : List (List Char) :=
  (text.splitOnP Text.isWhitespace).filter fun field => !field.isEmpty

def parse (expr : String) : Option Schedule :=
  match splitWhitespace expr.toList with
  | [minute, hour, dayOfMonth, month, dayOfWeek] => do
      let (minute, _) ← parseField minute 0 59
      let (hour, _) ← parseField hour 0 23
      let (dayOfMonth, domRestricted) ← parseField dayOfMonth 1 31
      let (month, _) ← parseField month 1 12
      let (dayOfWeek, dowRestricted) ← parseField dayOfWeek 0 6
      if minute.isEmpty || hour.isEmpty || dayOfMonth.isEmpty || month.isEmpty || dayOfWeek.isEmpty then none
      else some ⟨minute, hour, dayOfMonth, month, dayOfWeek, domRestricted, dowRestricted⟩
  | _ => none

/-! ## Dates -/

/-- The day and month of a day since 1970, by eras of four hundred years that
begin in March. -/
def dayAndMonth (days : Int) : Nat × Nat :=
  let shifted := days + 719468
  let dayOfEra := (shifted % 146097).toNat
  let yearOfEra := (dayOfEra - dayOfEra / 1460 + dayOfEra / 36524 - dayOfEra / 146096) / 365
  let dayOfYear := dayOfEra - (365 * yearOfEra + yearOfEra / 4 - yearOfEra / 100)
  let shiftedMonth := (5 * dayOfYear + 2) / 153
  (dayOfYear - (153 * shiftedMonth + 2) / 5 + 1, if shiftedMonth < 10 then shiftedMonth + 3 else shiftedMonth - 9)

/-- Days from Sunday; the first of January 1970 was a Thursday. -/
def weekday (days : Int) : Nat :=
  ((days + 4) % 7).toNat

def Schedule.matchesMinute (schedule : Schedule) (t : Int) : Bool :=
  let days := t / 86400
  let minuteOfDay := ((t % 86400) / 60).toNat
  let (day, month) := dayAndMonth days
  if !(schedule.minute.contains (minuteOfDay % 60)) || !(schedule.hour.contains (minuteOfDay / 60)) ||
      !(schedule.month.contains month) then false
  else
    let domOk := schedule.dayOfMonth.contains day
    let dowOk := schedule.dayOfWeek.contains (weekday days)
    if schedule.domRestricted && schedule.dowRestricted then domOk || dowOk else domOk && dowOk

/-- The first of so many minutes that matches. -/
def search (schedule : Schedule) : Nat -> Int -> Option Int
  | 0, _ => none
  | minutes + 1, t => if schedule.matchesMinute t then some t else search schedule minutes (t + 60)

/-- The next matching minute after an instant, within 366 days. -/
def Schedule.nextAfter (schedule : Schedule) (base : Int) : Option Int :=
  search schedule (366 * 1440) (base - base % 60 + 60)

theorem search_least {schedule : Schedule} {minutes : Nat} {t next : Int} (found : search schedule minutes t = some next) :
    t ≤ next := by
  induction minutes generalizing t with
  | zero => cases found
  | succ minutes ih =>
    unfold search at found
    split_ifs at found with here
    · exact Int.le_of_eq (Option.some.inj found)
    · have later := ih found
      omega

theorem nextAfter_later {schedule : Schedule} {base next : Int} (found : schedule.nextAfter base = some next) : base < next := by
  have least := search_least found
  omega

example : (parse "30 4 * * *").bind (·.nextAfter 1767225600) = some 1767241800 := by decide +kernel

end CronSchedule
end NotK8s.Controllers

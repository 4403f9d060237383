import NotK8s.Controllers.CronSchedule

namespace NotK8s.Controllers
namespace CronSchedule

open Library

/-!
# What a cron schedule means

A field means the values that its parts count out, and a schedule means every
minute that its fields allow.  The parser counts in 32 bits, and a step that
carries past their end counts on from below.  The search ends after 366 days,
which is long enough for every date but the 29th of February.
-/

/-! ## The calendar

The year of the computation begins in March, so that a leap day is its last,
the day 365. -/

/-- The day of the year that begins in March. -/
def marchDay (days : Int) : Nat :=
  let dayOfEra := ((days + 719468) % 146097).toNat
  let yearOfEra := (dayOfEra - dayOfEra / 1460 + dayOfEra / 36524 - dayOfEra / 146096) / 365
  dayOfEra - (365 * yearOfEra + yearOfEra / 4 - yearOfEra / 100)

def dateOf (marchDay : Nat) : Nat × Nat :=
  let shiftedMonth := (5 * marchDay + 2) / 153
  (marchDay - (153 * shiftedMonth + 2) / 5 + 1, if shiftedMonth < 10 then shiftedMonth + 3 else shiftedMonth - 9)

theorem dayAndMonth_eq (days : Int) : dayAndMonth days = dateOf (marchDay days) := rfl

/-- The year before the leap day, counted in an era of four hundred. -/
def LeapAfter (year : Nat) : Prop :=
  year % 4 = 3 ∧ (year % 100 ≠ 99 ∨ year = 399)

/-- A day of an era, as a year and a day of it. -/
structure InEra (dayOfEra year day : Nat) : Prop where
  year_lt : year < 400
  day_lt : day < 365 ∨ day = 365 ∧ LeapAfter year
  eq : dayOfEra = 365 * year + year / 4 - year / 100 + day

theorem InEra.year_eq {n year day : Nat} (here : InEra n year day) :
    (n - n / 1460 + n / 36524 - n / 146096) / 365 = year := by
  rcases here with ⟨small, part, sum⟩
  unfold LeapAfter at part
  have century : year / 100 = 0 ∨ year / 100 = 1 ∨ year / 100 = 2 ∨ year / 100 = 3 := by omega
  have hundredth : n / 36524 = year / 100 ∨ n / 36524 = year / 100 + 1 ∧ year = 399 ∧ day = 365 := by
    rcases century with none | one | two | three
    · omega
    · omega
    · omega
    · omega
  have whole : n / 146096 = 0 ∨ n / 146096 = 1 ∧ year = 399 ∧ day = 365 := by omega
  omega

/-- A day is followed by the next of its year, and the last of a year by the
first of another. -/
theorem InEra.succ {n year day : Nat} (here : InEra n year day) (small : n + 1 < 146097) :
    InEra (n + 1) year (day + 1) ∨ 364 ≤ day ∧ InEra (n + 1) (year + 1) 0 := by
  rcases here with ⟨yearSmall, part, sum⟩
  by_cases early : day < 364
  · exact Or.inl ⟨yearSmall, by omega, by omega⟩
  · by_cases leap : day = 364 ∧ LeapAfter year
    · exact Or.inl ⟨yearSmall, Or.inr ⟨by omega, leap.2⟩, by omega⟩
    · unfold LeapAfter at *
      refine Or.inr ⟨by omega, by omega, by omega, ?_⟩
      have quarter : (year + 1) / 4 = year / 4 + if year % 4 = 3 then 1 else 0 := by
        split_ifs <;> omega
      have century : (year + 1) / 100 = year / 100 + if year % 100 = 99 then 1 else 0 := by
        split_ifs <;> omega
      rw [quarter, century]
      split_ifs <;> omega

theorem inEra_zero : InEra 0 0 0 :=
  ⟨by omega, by omega, by omega⟩

theorem exists_inEra {n : Nat} (small : n < 146097) : Exists fun year => Exists fun day => InEra n year day := by
  induction n with
  | zero => exact ⟨0, 0, inEra_zero⟩
  | succ n ih =>
    rcases ih (by omega) with ⟨year, day, here⟩
    rcases here.succ small with next | ⟨_, next⟩
    · exact ⟨year, day + 1, next⟩
    · exact ⟨year + 1, 0, next⟩

theorem InEra.marchDay_eq {days : Int} {year day : Nat} (here : InEra ((days + 719468) % 146097).toNat year day) :
    marchDay days = day := by
  unfold marchDay
  dsimp only
  rw [here.year_eq]
  have sum := here.eq
  omega

theorem marchDay_le (days : Int) : marchDay days ≤ 365 := by
  rcases exists_inEra (n := ((days + 719468) % 146097).toNat) (by omega) with ⟨year, day, here⟩
  rw [here.marchDay_eq]
  have bound := here.day_lt
  omega

theorem marchDay_succ (days : Int) : marchDay (days + 1) = marchDay days + 1 ∨
    marchDay (days + 1) = 0 ∧ 364 ≤ marchDay days := by
  rcases exists_inEra (n := ((days + 719468) % 146097).toNat) (by omega) with ⟨year, day, here⟩
  rw [here.marchDay_eq]
  by_cases last : (days + 719468) % 146097 = 146096
  · have first : ((days + 1 + 719468) % 146097).toNat = 0 := by omega
    have next : InEra ((days + 1 + 719468) % 146097).toNat 0 0 := by
      rw [first]
      exact inEra_zero
    have sum := here.eq
    have bound := here.year_lt
    exact Or.inr ⟨next.marchDay_eq, by omega⟩
  · have after : ((days + 1 + 719468) % 146097).toNat = ((days + 719468) % 146097).toNat + 1 := by omega
    rcases here.succ (by omega) with next | ⟨late, next⟩
    · rw [← after] at next
      exact Or.inl next.marchDay_eq
    · rw [← after] at next
      exact Or.inr ⟨next.marchDay_eq, late⟩

theorem marchDay_add {n : Nat} {days : Int} (room : marchDay days + n ≤ 364) : marchDay (days + n) = marchDay days + n := by
  induction n with
  | zero => simp
  | succ n ih =>
    have next := marchDay_succ (days + n)
    have same : days + ((n + 1 : Nat) : Int) = days + n + 1 := by push_cast; ring
    rw [same]
    omega

theorem exists_marchDay (days : Int) {day : Nat} (common : day < 365) :
    Exists fun k : Nat => k ≤ 365 ∧ marchDay (days + k) = day := by
  by_cases ahead : marchDay days ≤ day
  · refine ⟨day - marchDay days, by omega, ?_⟩
    rw [marchDay_add (by omega)]
    omega
  · -- the year ends first
    have bound := marchDay_le days
    have afterLast : forall start : Int, marchDay start = 365 -> marchDay (start + 1) = 0 := by
      intro start last
      have next := marchDay_succ start
      have bound := marchDay_le (start + 1)
      omega
    have newYear : Exists fun k : Nat => k + marchDay days ≤ 366 ∧ marchDay (days + k) = 0 := by
      by_cases leap : marchDay days = 365
      · exact ⟨1, by omega, afterLast days leap⟩
      · have last := @marchDay_add (364 - marchDay days) days (by omega)
        rcases marchDay_succ (days + (364 - marchDay days : Nat)) with leap | ⟨first, _⟩
        · refine ⟨364 - marchDay days + 2, by omega, ?_⟩
          have same : days + ((364 - marchDay days + 2 : Nat) : Int) = days + (364 - marchDay days : Nat) + 1 + 1 := by
            push_cast; ring
          rw [same]
          exact afterLast _ (by omega)
        · refine ⟨364 - marchDay days + 1, by omega, ?_⟩
          have same : days + ((364 - marchDay days + 1 : Nat) : Int) = days + (364 - marchDay days : Nat) + 1 := by
            push_cast; ring
          rw [same]
          exact first
    rcases newYear with ⟨k, early, first⟩
    refine ⟨k + day, by omega, ?_⟩
    have further := @marchDay_add day (days + k) (by omega)
    rw [first, Nat.zero_add] at further
    have same : days + ((k + day : Nat) : Int) = days + k + day := by push_cast; ring
    rw [same, further]

/-- The first day of a month. -/
def monthStart (month : Nat) : Nat :=
  (153 * (if month < 3 then month + 9 else month - 3) + 2) / 5

theorem dateOf_month {month : Nat} (lower : 1 ≤ month) (upper : month ≤ 12) {day : Nat} (short : day < 28) :
    (dateOf (monthStart month + day)).2 = month ∧ monthStart month + day < 365 := by
  have every : forall month, month < 13 -> 1 ≤ month -> forall day, day < 28 ->
      (dateOf (monthStart month + day)).2 = month ∧ monthStart month + day < 365 := by decide +kernel
  exact every month (by omega) lower day short

theorem exists_weekday (days : Int) {month w : Nat} (lower : 1 ≤ month) (upper : month ≤ 12) (small : w < 7) :
    Exists fun k : Nat => 1 ≤ k ∧ k ≤ 365 ∧ (dateOf (marchDay (days + k))).2 = month ∧ weekday (days + k) = w := by
  -- a week of the month that lies within the days
  have week : Exists fun k : Nat => Exists fun day : Nat => 1 ≤ k ∧ k ≤ 359 ∧ day < 22 ∧
      marchDay (days + k) = monthStart month + day := by
    have first := (dateOf_month lower upper (show 0 < 28 by omega)).2
    have middle := (dateOf_month lower upper (show 14 < 28 by omega)).2
    have last := (dateOf_month lower upper (show 27 < 28 by omega)).2
    rcases exists_marchDay (days + 1) first with ⟨k, k_le, atFirst⟩
    rcases exists_marchDay (days + 1) middle with ⟨j, j_le, atMiddle⟩
    by_cases soon : k + 1 ≤ 359
    · exact ⟨k + 1, 0, by omega, soon, by omega, by rw [← atFirst]; congr 1; push_cast; ring⟩
    · by_cases also : j + 1 ≤ 359
      · exact ⟨j + 1, 14, by omega, also, by omega, by rw [← atMiddle]; congr 1; push_cast; ring⟩
      · -- both in the last days, the two would be less than a week apart
        exfalso
        rcases Nat.le_total k j with before | before
        · have further := @marchDay_add (j - k) (days + 1 + k) (by omega)
          have same : days + 1 + k + ((j - k : Nat) : Int) = days + 1 + j := by omega
          rw [same] at further
          omega
        · have further := @marchDay_add (k - j) (days + 1 + j) (by omega)
          have same : days + 1 + j + ((k - j : Nat) : Int) = days + 1 + k := by omega
          rw [same] at further
          omega
  rcases week with ⟨k, day, k_pos, k_le, short, here⟩
  have step : Exists fun i : Nat => i < 7 ∧ weekday (days + k + i) = w := by
    refine ⟨((w : Int) - (days + k + 4)).emod 7 |>.toNat, ?_, ?_⟩
    · change (((w : Int) - (days + k + 4)) % 7).toNat < 7
      omega
    · change ((days + k + (((w : Int) - (days + k + 4)) % 7).toNat + 4) % 7).toNat = w
      omega
  rcases step with ⟨i, i_lt, onDay⟩
  refine ⟨k + i, by omega, by omega, ?_, ?_⟩
  · have last := (dateOf_month lower upper (show 27 < 28 by omega)).2
    have further := @marchDay_add i (days + k) (by omega)
    have same : days + ((k + i : Nat) : Int) = days + k + i := by push_cast; ring
    rw [same, further, here, Nat.add_assoc]
    exact (dateOf_month lower upper (by omega)).1
  · have same : days + ((k + i : Nat) : Int) = days + k + i := by push_cast; ring
    rw [same, onDay]

/-! ## The minutes of a schedule -/

namespace Schedule

variable {schedule : Schedule} {base t : Int}

def AllowsDay (schedule : Schedule) (days : Int) : Prop :=
  (dayAndMonth days).2 ∈ schedule.month ∧
    if schedule.domRestricted ∧ schedule.dowRestricted
    then (dayAndMonth days).1 ∈ schedule.dayOfMonth ∨ weekday days ∈ schedule.dayOfWeek
    else (dayAndMonth days).1 ∈ schedule.dayOfMonth ∧ weekday days ∈ schedule.dayOfWeek

def minuteOfDay (t : Int) : Nat :=
  ((t % 86400) / 60).toNat

/-- The minute is one that the schedule names. -/
def Allows (schedule : Schedule) (t : Int) : Prop :=
  minuteOfDay t % 60 ∈ schedule.minute ∧ minuteOfDay t / 60 ∈ schedule.hour ∧ schedule.AllowsDay (t / 86400)

theorem matchesMinute_iff : schedule.matchesMinute t <-> schedule.Allows t := by
  unfold matchesMinute Allows AllowsDay minuteOfDay
  simp only [Bool.if_false_left, Bool.and_eq_true, Bool.not_eq_true', decide_eq_false_iff_not, Bool.or_eq_true,
    not_or, Bool.not_eq_false, List.contains_iff_mem]
  split_ifs
  · rw [Bool.or_eq_true, List.contains_iff_mem, List.contains_iff_mem]
    exact ⟨fun found => ⟨found.1.1.1, found.1.1.2, found.1.2, found.2⟩,
      fun found => ⟨⟨⟨found.1, found.2.1⟩, found.2.2.1⟩, found.2.2.2⟩⟩
  · rw [Bool.and_eq_true, List.contains_iff_mem, List.contains_iff_mem]
    exact ⟨fun found => ⟨found.1.1.1, found.1.1.2, found.1.2, found.2⟩,
      fun found => ⟨⟨⟨found.1, found.2.1⟩, found.2.2.1⟩, found.2.2.2⟩⟩

theorem search_some {minutes : Nat} {next : Int} (found : search schedule minutes t = some next) :
    Exists fun i : Nat => i < minutes ∧ next = t + 60 * i ∧ schedule.Allows next ∧
      forall j : Nat, j < i -> ¬ schedule.Allows (t + 60 * j) := by
  induction minutes generalizing t with
  | zero => cases found
  | succ minutes ih =>
    unfold search at found
    split_ifs at found with here
    · rw [← Option.some.inj found]
      exact ⟨0, by omega, by omega, matchesMinute_iff.mp here, fun _ none => absurd none (by omega)⟩
    · rcases ih found with ⟨i, few, later, allowed, before⟩
      refine ⟨i + 1, by omega, by push_cast; omega, allowed, ?_⟩
      intro j earlier
      cases j with
      | zero =>
        rw [Nat.cast_zero, Int.mul_zero, Int.add_zero]
        exact fun also => here (matchesMinute_iff.mpr also)
      | succ j =>
        have skipped := before j (by omega)
        have same : t + 60 * ((j + 1 : Nat) : Int) = t + 60 + 60 * j := by push_cast; ring
        rwa [same]

theorem search_none {minutes : Nat} :
    search schedule minutes t = none <-> forall i : Nat, i < minutes -> ¬ schedule.Allows (t + 60 * i) := by
  induction minutes generalizing t with
  | zero => exact iff_of_true rfl fun _ few => absurd few (Nat.not_lt_zero _)
  | succ minutes ih =>
    unfold search
    split_ifs with here
    · constructor
      · intro none
        cases none
      · intro never
        have skipped := never 0 (Nat.succ_pos _)
        rw [Nat.cast_zero, Int.mul_zero, Int.add_zero] at skipped
        exact absurd (matchesMinute_iff.mp here) skipped
    · rw [ih]
      constructor
      · intro never i few
        cases i with
        | zero =>
          rw [Nat.cast_zero, Int.mul_zero, Int.add_zero]
          exact fun also => here (matchesMinute_iff.mpr also)
        | succ i =>
          have later := never i (by omega)
          have same : t + 60 * ((i + 1 : Nat) : Int) = t + 60 + 60 * i := by push_cast; ring
          rwa [same]
      · intro never i few
        have later := never (i + 1) (by omega)
        have same : t + 60 * ((i + 1 : Nat) : Int) = t + 60 + 60 * i := by push_cast; ring
        rwa [same] at later

/-- A whole minute among those that are searched. -/
def Searched (base t : Int) : Prop :=
  t % 60 = 0 ∧ base < t ∧ t < base - base % 60 + 60 + 366 * 86400

theorem nextAfter_none : schedule.nextAfter base = none <-> forall t, Searched base t -> ¬ schedule.Allows t := by
  unfold nextAfter
  rw [search_none]
  constructor
  · intro never t searched
    rcases searched with ⟨whole, after, before⟩
    have here := never ((t - (base - base % 60 + 60)) / 60).toNat (by omega)
    have same : base - base % 60 + 60 + 60 * (((t - (base - base % 60 + 60)) / 60).toNat : Int) = t := by omega
    rwa [same] at here
  · intro never i few
    exact never _ ⟨by omega, by omega, by omega⟩

/-- The next minute is the least after the instant, and there is none only
when there never is one. -/
structure NextIsRight (schedule : Schedule) (base : Int) : Prop where
  least : forall next, schedule.nextAfter base = some next -> next % 60 = 0 ∧ base < next ∧ schedule.Allows next ∧
    forall t, t % 60 = 0 -> base < t -> t < next -> ¬ schedule.Allows t
  never : schedule.nextAfter base = none -> forall t, t % 60 = 0 -> ¬ schedule.Allows t

theorem nextAfter_least {next : Int} (found : schedule.nextAfter base = some next) :
    next % 60 = 0 ∧ base < next ∧ schedule.Allows next ∧
      forall t, t % 60 = 0 -> base < t -> t < next -> ¬ schedule.Allows t := by
  rcases search_some found with ⟨i, _, later, allowed, before⟩
  refine ⟨by omega, by omega, allowed, ?_⟩
  intro t whole after sooner
  have skipped := before ((t - (base - base % 60 + 60)) / 60).toNat (by omega)
  have same : base - base % 60 + 60 + 60 * (((t - (base - base % 60 + 60)) / 60).toNat : Int) = t := by omega
  rwa [same] at skipped

/-! ## How far the search has to go -/

/-- What parsing leaves: every field has a value in its range, and one that
does not restrict has all of them. -/
structure Usable (schedule : Schedule) : Prop where
  minute : Exists fun m => m < 60 ∧ m ∈ schedule.minute
  hour : Exists fun h => h < 24 ∧ h ∈ schedule.hour
  month : Exists fun m => 1 ≤ m ∧ m ≤ 12 ∧ m ∈ schedule.month
  dayOfWeek : Exists fun w => w < 7 ∧ w ∈ schedule.dayOfWeek
  anyDay : schedule.domRestricted = false -> forall d, 1 ≤ d -> d ≤ 31 -> d ∈ schedule.dayOfMonth
  anyWeekday : schedule.dowRestricted = false -> forall w, w < 7 -> w ∈ schedule.dayOfWeek

/-- The schedule names the date of a day of the year. -/
def NamesDate (schedule : Schedule) (day : Nat) : Prop :=
  (dateOf day).2 ∈ schedule.month ∧ (dateOf day).1 ∈ schedule.dayOfMonth

/-- The only date that the schedule names is the 29th of February, and the
days of the week play no part. -/
def LeapDayOnly (schedule : Schedule) : Prop :=
  schedule.dowRestricted = false ∧ schedule.NamesDate 365 ∧ forall day, day < 365 -> ¬ schedule.NamesDate day

/-- The schedule names the time of the minute, and its day is a leap day. -/
def LeapMinute (schedule : Schedule) (t : Int) : Prop :=
  marchDay (t / 86400) = 365 ∧ minuteOfDay t % 60 ∈ schedule.minute ∧ minuteOfDay t / 60 ∈ schedule.hour

theorem weekday_lt (days : Int) : weekday days < 7 := by
  unfold weekday
  omega

theorem allowsDay_of_free (usable : schedule.Usable) (free : schedule.dowRestricted = false) {days : Int} :
    schedule.AllowsDay days <-> schedule.NamesDate (marchDay days) := by
  unfold AllowsDay NamesDate
  rw [dayAndMonth_eq, if_neg (by rw [free]; exact fun both => Bool.noConfusion both.2)]
  exact and_congr_right fun _ => and_iff_left (usable.anyWeekday free _ (weekday_lt days))

theorem at_minute {days : Int} {hour minute : Nat} (hours : hour < 24) (minutes : minute < 60) :
    (days * 86400 + (hour * 60 + minute) * 60) % 60 = 0 ∧ (days * 86400 + (hour * 60 + minute) * 60) / 86400 = days ∧
      minuteOfDay (days * 86400 + (hour * 60 + minute) * 60) % 60 = minute ∧
      minuteOfDay (days * 86400 + (hour * 60 + minute) * 60) / 60 = hour := by
  unfold minuteOfDay
  omega

theorem exists_searched (usable : schedule.Usable) {k : Nat} (lower : 1 ≤ k) (upper : k ≤ 365)
    (allowed : schedule.AllowsDay ((base - base % 60 + 60) / 86400 + k)) :
    Exists fun t => Searched base t ∧ schedule.Allows t := by
  rcases usable.minute with ⟨minute, minutes, named⟩
  rcases usable.hour with ⟨hour, hours, also⟩
  have ⟨whole, day, minuteEq, hourEq⟩ := @at_minute ((base - base % 60 + 60) / 86400 + k) hour minute hours minutes
  refine ⟨((base - base % 60 + 60) / 86400 + k) * 86400 + (hour * 60 + minute) * 60, ⟨whole, ?_, ?_⟩, ?_, ?_, ?_⟩
  · omega
  · omega
  · rwa [minuteEq]
  · rwa [hourEq]
  · rwa [day]

/-- A date that is not a leap day comes within the days that are searched, on
the first or the last of them if need be. -/
theorem exists_date (usable : schedule.Usable) (free : schedule.dowRestricted = false) {day : Nat} (common : day < 365)
    (named : schedule.NamesDate day) : Exists fun t => Searched base t ∧ schedule.Allows t := by
  have allowed : forall days, marchDay days = day -> schedule.AllowsDay days := fun days here =>
    (allowsDay_of_free usable free).mpr (here.symm ▸ named)
  rcases exists_marchDay ((base - base % 60 + 60) / 86400) common with ⟨k, k_le, here⟩
  by_cases later : 1 ≤ k
  · exact exists_searched usable later k_le (allowed _ here)
  · rcases exists_marchDay ((base - base % 60 + 60) / 86400 + 1) common with ⟨j, j_le, next⟩
    by_cases within : j + 1 ≤ 365
    · refine exists_searched usable (k := j + 1) (by omega) within (allowed _ ?_)
      rw [← next]
      congr 1
      push_cast
      ring
    · -- the date is on the first day and on the one after the last, and between them they are searched whole
      have first : k = 0 := by omega
      have last : j = 365 := by omega
      subst first last
      rw [Nat.cast_zero, Int.add_zero] at here
      rcases usable.minute with ⟨minute, minutes, minuteNamed⟩
      rcases usable.hour with ⟨hour, hours, hourNamed⟩
      have ⟨whole, onDay, minuteEq, hourEq⟩ := @at_minute ((base - base % 60 + 60) / 86400) hour minute hours minutes
      by_cases after : base < (base - base % 60 + 60) / 86400 * 86400 + (hour * 60 + minute) * 60
      · refine ⟨_, ⟨whole, after, by omega⟩, by rwa [minuteEq], by rwa [hourEq], ?_⟩
        rw [onDay]
        exact allowed _ here
      · have ⟨whole', onDay', minuteEq', hourEq'⟩ :=
          @at_minute ((base - base % 60 + 60) / 86400 + 1 + (365 : Nat)) hour minute hours minutes
        refine ⟨_, ⟨whole', by omega, by omega⟩, by rwa [minuteEq'], by rwa [hourEq'], ?_⟩
        rw [onDay']
        exact allowed _ next

theorem nextIsRight_iff (usable : schedule.Usable) :
    schedule.NextIsRight base <-> (schedule.LeapDayOnly -> Exists fun t => Searched base t ∧ schedule.LeapMinute t) := by
  constructor
  · rintro right ⟨free, leap, only⟩
    cases found : schedule.nextAfter base with
    | none =>
      -- the 29th of February 2000
      exfalso
      rcases usable.minute with ⟨minute, minutes, minuteNamed⟩
      rcases usable.hour with ⟨hour, hours, hourNamed⟩
      have ⟨whole, onDay, minuteEq, hourEq⟩ := @at_minute 11016 hour minute hours minutes
      refine right.never found _ whole ⟨by rwa [minuteEq], by rwa [hourEq], ?_⟩
      rw [onDay, allowsDay_of_free usable free]
      exact leap
    | some next =>
      rcases search_some found with ⟨i, few, later, allowed, _⟩
      refine ⟨next, ⟨by omega, by omega, by omega⟩, ?_, allowed.1, allowed.2.1⟩
      have day := (allowsDay_of_free usable free).mp allowed.2.2
      have bound := marchDay_le (next / 86400)
      by_contra other
      exact only _ (by omega) day
  · intro leaps
    refine ⟨fun _ => nextAfter_least, fun none t _ allowed => ?_⟩
    rw [nextAfter_none] at none
    have unnamed : ¬ Exists fun t => Searched base t ∧ schedule.Allows t := fun ⟨t, searched, also⟩ => none t searched also
    cases free : schedule.dowRestricted with
    | true =>
      rcases usable.month with ⟨month, lower, upper, monthNamed⟩
      rcases usable.dayOfWeek with ⟨w, small, weekdayNamed⟩
      rcases exists_weekday ((base - base % 60 + 60) / 86400) lower upper small with ⟨k, k_pos, k_le, inMonth, onDay⟩
      refine unnamed (exists_searched usable k_pos k_le ⟨by rwa [dayAndMonth_eq, inMonth], ?_⟩)
      split_ifs with both
      · exact Or.inr (by rwa [onDay])
      · refine ⟨?_, by rwa [onDay]⟩
        have unrestricted : schedule.domRestricted = false := Bool.eq_false_iff.mpr fun also => both ⟨also, free⟩
        rw [dayAndMonth_eq]
        have date : forall day, day < 366 -> 1 ≤ (dateOf day).1 ∧ (dateOf day).1 ≤ 31 := by decide +kernel
        have bound := marchDay_le ((base - base % 60 + 60) / 86400 + k)
        have ⟨least, most⟩ := date _ (Nat.lt_succ_of_le bound)
        exact usable.anyDay unrestricted _ least most
    | false =>
      have named := (allowsDay_of_free usable free).mp allowed.2.2
      have bound := marchDay_le (t / 86400)
      by_cases common : Exists fun day => day < 365 ∧ schedule.NamesDate day
      · rcases common with ⟨day, small, dated⟩
        exact unnamed (exists_date usable free small dated)
      · have only : forall day, day < 365 -> ¬ schedule.NamesDate day := fun day small dated => common ⟨day, small, dated⟩
        have leap : marchDay (t / 86400) = 365 := by
          by_contra other
          exact only _ (by omega) named
        rw [leap] at named
        rcases leaps ⟨free, named, only⟩ with ⟨u, searched, onLeapDay, minute, hour⟩
        refine none u searched ⟨minute, hour, (allowsDay_of_free usable free).mpr ?_⟩
        rwa [onLeapDay]

end Schedule

/-! ## What a field means -/

/-- The part without its step, the step, and whether it is written. -/
def partStep (part : List Char) : Option (List Char × Nat × Bool) :=
  match Text.splitOnce '/' part with
  | some (r, s) => (parseU32 s).map fun step => (r, step, true)
  | none => some (part, 1, false)

/-- Where a part begins and ends. -/
def partBounds (rangePart : List Char) (explicitStep : Bool) (least most : Nat) : Option (Nat × Nat) :=
  if rangePart = ['*'] then some (least, most)
  else
    match Text.splitOnce '-' rangePart with
    | some (a, b) => (parseU32 a).bind fun a => (parseU32 b).map fun b => (a, b)
    | none => (parseU32 rangePart).map fun v => (v, if explicitStep then most else v)

/-- Where a part begins and ends, and its step. -/
def partRange (part : List Char) (least most : Nat) : Option (Nat × Nat × Nat) :=
  (partStep part).bind fun cut =>
    (partBounds cut.1 cut.2.2 least most).map fun bounds => (bounds.1, bounds.2, cut.2.1)

/-- The value is one of `lo`, `lo + step`, `lo + 2 * step` and so on up to
`hi`.  A step of zero counts as one. -/
def Counted (lo hi step v : Nat) : Prop :=
  Exists fun k => v = lo + k * max step 1 ∧ v ≤ hi

/-- The value is below the beginning, by a multiple of what the step is short
of 32 bits. -/
def CarriedTo (lo step v : Nat) : Prop :=
  Exists fun j => 1 ≤ j ∧ v + j * (2 ^ 32 - max step 1) = lo

/-- The value is one that a part of the field counts out. -/
def FieldMeans (field : List Char) (least most v : Nat) : Prop :=
  Exists fun part => part ∈ Text.split ',' field ∧ Exists fun lo => Exists fun hi => Exists fun step =>
    partRange part least most = some (lo, hi, step) ∧ Counted lo hi step v

section
variable {part field : List Char} {least most lo hi step v w : Nat} {values : List Nat}

theorem partBounds_eq (rangePart : List Char) (step : Nat) (explicitStep : Bool) : (do
    let (lo, hi) ←
      if rangePart = ['*'] then some (least, most)
      else
        match Text.splitOnce '-' rangePart with
        | some (a, b) => (parseU32 a).bind fun a => (parseU32 b).map fun b => (a, b)
        | none => (parseU32 rangePart).map fun v => (v, if explicitStep = true then most else v)
    if lo < least ∨ most < hi ∨ hi < lo then none else some (steps hi step (hi + 1) lo)) =
    ((partBounds rangePart explicitStep least most).map fun bounds => (bounds.1, bounds.2, step)).bind fun range =>
      if range.1 < least ∨ most < range.2.1 ∨ range.2.1 < range.1 then none
      else some (steps range.2.1 range.2.2 (range.2.1 + 1) range.1) := by
  unfold partBounds
  rw [Option.bind_map]
  by_cases star : rangePart = ['*']
  · rw [if_pos star, if_pos star]
    rfl
  · rw [if_neg star, if_neg star]
    cases Text.splitOnce '-' rangePart with
    | none => rfl
    | some cut => rfl

theorem parsePart_eq : parsePart part least most = (partRange part least most).bind fun range =>
    if range.1 < least ∨ most < range.2.1 ∨ range.2.1 < range.1 then none
    else some (steps range.2.1 range.2.2 (range.2.1 + 1) range.1) := by
  unfold parsePart partRange partStep
  cases Text.splitOnce '/' part with
  | none => exact partBounds_eq part 1 false
  | some cut =>
    dsimp only
    cases parseU32 cut.2 with
    | none => rfl
    | some step => exact partBounds_eq cut.1 step true

theorem partRange_step (range : partRange part least most = some (lo, hi, step)) : step < 2 ^ 32 := by
  rcases Option.bind_eq_some_iff.mp range with ⟨⟨rangePart, n, explicitStep⟩, first, second⟩
  rcases Option.map_eq_some_iff.mp second with ⟨bounds, _, same⟩
  have counted : n = step := congrArg (fun triple => triple.2.2) same
  unfold partStep at first
  rw [← counted]
  cases slash : Text.splitOnce '/' part with
  | none =>
    rw [slash] at first
    have one : (1 : Nat) = n := congrArg (fun triple => triple.2.1) (Option.some.inj first)
    omega
  | some cut =>
    rw [slash] at first
    rcases Option.map_eq_some_iff.mp first with ⟨read, parsed, parts⟩
    have equal : read = n := congrArg (fun triple => triple.2.1) parts
    rw [← equal]
    exact of_decide_eq_true (Option.filter_eq_some_iff.mp parsed).2

/-! ### Counting in 32 bits -/

theorem steps_of_gt {fuel : Nat} (past : hi < v) : steps hi step fuel v = [] := by
  cases fuel with
  | zero => rfl
  | succ fuel => rw [steps, if_neg (by omega)]

theorem mem_steps_of_small (small : hi + max step 1 < 2 ^ 32) {fuel : Nat} :
    v ∈ steps hi step fuel w <-> Exists fun k => k < fuel ∧ v = w + k * max step 1 ∧ v ≤ hi := by
  induction fuel generalizing w with
  | zero => exact iff_of_false List.not_mem_nil fun ⟨_, few, _⟩ => absurd few (Nat.not_lt_zero _)
  | succ fuel ih =>
    rw [steps]
    split_ifs with within
    · have fits : (w + max step 1) % 2 ^ 32 = w + max step 1 := Nat.mod_eq_of_lt (by omega)
      rw [fits, List.mem_cons, ih]
      constructor
      · rintro (rfl | ⟨k, few, sum, bound⟩)
        · exact ⟨0, by omega, by omega, within⟩
        · exact ⟨k + 1, by omega, by rw [Nat.add_mul]; omega, bound⟩
      · rintro ⟨k, few, sum, bound⟩
        cases k with
        | zero => exact Or.inl (by omega)
        | succ k =>
          rw [Nat.add_mul] at sum
          exact Or.inr ⟨k, by omega, by omega, bound⟩
    · refine iff_of_false List.not_mem_nil ?_
      rintro ⟨k, few, sum, bound⟩
      omega

/-- A step that carries past 32 bits goes down by what is missing to them. -/
theorem mem_steps_of_carry {missing : Nat} (complement : max step 1 + missing = 2 ^ 32) (lower : 1 ≤ missing)
    (short : hi < 2 ^ 31) (carries : missing ≤ hi) (within : w ≤ hi) {fuel : Nat} :
    v ∈ steps hi step fuel w <-> Exists fun j => j < fuel ∧ v + j * missing = w := by
  induction fuel generalizing w with
  | zero => exact iff_of_false List.not_mem_nil fun ⟨_, few, _⟩ => absurd few (Nat.not_lt_zero _)
  | succ fuel ih =>
    rw [steps, if_pos within, List.mem_cons]
    by_cases room : missing ≤ w
    · have wraps : (w + max step 1) % 2 ^ 32 = w - missing := by
        rw [Nat.mod_eq_sub_mod (by omega), Nat.mod_eq_of_lt (by omega)]
        omega
      rw [wraps, ih (by omega)]
      constructor
      · rintro (rfl | ⟨j, few, sum⟩)
        · exact ⟨0, by omega, by omega⟩
        · exact ⟨j + 1, by omega, by rw [Nat.add_mul]; omega⟩
      · rintro ⟨j, few, sum⟩
        cases j with
        | zero => exact Or.inl (by omega)
        | succ j =>
          rw [Nat.add_mul] at sum
          exact Or.inr ⟨j, by omega, by omega⟩
    · have past : (w + max step 1) % 2 ^ 32 = w + max step 1 := Nat.mod_eq_of_lt (by omega)
      rw [past, steps_of_gt (by omega)]
      constructor
      · rintro (rfl | none)
        · exact ⟨0, by omega, by omega⟩
        · cases none
      · rintro ⟨j, few, sum⟩
        cases j with
        | zero => exact Or.inl (by omega)
        | succ j =>
          rw [Nat.add_mul] at sum
          exact absurd sum (by omega)

/-- What a part gives: the values counted, and those below its beginning that
a step past 32 bits comes down to. -/
theorem mem_steps (short : hi < 2 ^ 31) (stepSmall : step < 2 ^ 32) (ordered : lo ≤ hi) :
    v ∈ steps hi step (hi + 1) lo <->
      Counted lo hi step v ∨ CarriedTo lo step v := by
  have positive : 1 ≤ max step 1 := le_max_right _ _
  have few : forall k v, lo + k * max step 1 = v -> v ≤ hi -> k < hi + 1 := by
    intro k v sum bound
    have larger : k * 1 ≤ k * max step 1 := Nat.mul_le_mul_left k positive
    omega
  by_cases small : hi + max step 1 < 2 ^ 32
  · rw [mem_steps_of_small small]
    constructor
    · rintro ⟨k, _, sum, bound⟩
      exact Or.inl ⟨k, sum, bound⟩
    · rintro (⟨k, sum, bound⟩ | ⟨j, one, sum⟩)
      · exact ⟨k, few k v sum.symm bound, sum, bound⟩
      · have larger : 1 * (2 ^ 32 - max step 1) ≤ j * (2 ^ 32 - max step 1) := Nat.mul_le_mul_right _ one
        omega
  · have complement : max step 1 + (2 ^ 32 - max step 1) = 2 ^ 32 := by omega
    rw [mem_steps_of_carry complement (by omega) short (by omega) ordered]
    constructor
    · rintro ⟨j, _, sum⟩
      cases j with
      | zero => exact Or.inl ⟨0, by omega, by omega⟩
      | succ j => exact Or.inr ⟨j + 1, by omega, sum⟩
    · rintro (⟨k, sum, bound⟩ | ⟨j, one, sum⟩)
      · cases k with
        | zero => exact ⟨0, by omega, by omega⟩
        | succ k =>
          rw [Nat.add_mul] at sum
          omega
      · have larger : j * 1 ≤ j * (2 ^ 32 - max step 1) := Nat.mul_le_mul_left j (by omega)
        exact ⟨j, by omega, sum⟩

/-! ### Fields -/

theorem mapM_read {Piece Value : Type} {read : Piece -> Option (List Value)} {pieces : List Piece}
    {lists : List (List Value)} (all : pieces.mapM read = some lists) :
    (forall piece, piece ∈ pieces -> (read piece).isSome) ∧
      forall value, value ∈ lists.flatten <-> Exists fun piece => piece ∈ pieces ∧ Exists fun own =>
        read piece = some own ∧ value ∈ own := by
  induction pieces generalizing lists with
  | nil =>
    cases all
    exact ⟨nofun, fun _ => iff_of_false List.not_mem_nil
      fun ⟨_, listed, _⟩ => nomatch listed⟩
  | cons piece rest ih =>
    rw [List.mapM_cons] at all
    rcases Option.bind_eq_some_iff.mp all with ⟨own, first, all⟩
    rcases Option.bind_eq_some_iff.mp all with ⟨others, later, same⟩
    rw [← Option.some.inj same]
    have ⟨each, values⟩ := ih later
    refine ⟨?_, fun value => ?_⟩
    · intro other listed
      rcases List.mem_cons.mp listed with rfl | listed
      · rw [first]
        rfl
      · exact each other listed
    · rw [List.flatten_cons, List.mem_append, values]
      constructor
      · rintro (here | ⟨other, listed, found⟩)
        · exact ⟨piece, .head _, own, first, here⟩
        · exact ⟨other, .tail _ listed, found⟩
      · rintro ⟨other, listed, held, is, found⟩
        rcases List.mem_cons.mp listed with rfl | listed
        · rw [first] at is
          exact Or.inl (Option.some.inj is ▸ found)
        · exact Or.inr ⟨other, listed, held, is, found⟩

theorem counted_one (above : lo ≤ v) (below : v ≤ hi) : Counted lo hi 1 v :=
  ⟨v - lo, by rw [max_self, Nat.mul_one]; omega, below⟩

theorem partRange_star : partRange ['*'] least most = some (least, most, 1) := rfl

theorem split_star : Text.split ',' ['*'] = [['*']] := rfl

theorem parsePart_some {own : List Nat} : parsePart part least most = some own <->
    Exists fun lo => Exists fun hi => Exists fun step => partRange part least most = some (lo, hi, step) ∧
      least ≤ lo ∧ hi ≤ most ∧ lo ≤ hi ∧ own = steps hi step (hi + 1) lo := by
  rw [parsePart_eq, Option.bind_eq_some_iff]
  constructor
  · rintro ⟨⟨lo, hi, step⟩, range, given⟩
    dsimp only at given
    split_ifs at given with refused
    exact ⟨lo, hi, step, range, by omega, by omega, by omega, (Option.some.inj given).symm⟩
  · rintro ⟨lo, hi, step, range, lower, upper, ordered, rfl⟩
    exact ⟨(lo, hi, step), range, if_neg (by dsimp only; omega)⟩

/-- The values of a field are those its parts count out and those that a step
of one of them carries to. -/
theorem mem_field {restricts : Bool} (short : most < 2 ^ 31) (ordered : least ≤ most)
    (parsed : parseField field least most = some (values, restricts)) :
    v ∈ values <-> Exists fun part => part ∈ Text.split ',' field ∧ Exists fun lo => Exists fun hi =>
      Exists fun step => partRange part least most = some (lo, hi, step) ∧ (Counted lo hi step v ∨ CarriedTo lo step v) := by
  unfold parseField at parsed
  split_ifs at parsed with star
  · have same := congrArg Prod.fst (Option.some.inj parsed)
    dsimp only at same
    rw [← same, star, split_star, List.mem_filter, List.mem_range, decide_eq_true_iff]
    constructor
    · rintro ⟨below, above⟩
      exact ⟨_, .head _, least, most, 1, rfl, Or.inl (counted_one above (by omega))⟩
    · rintro ⟨part, listed, lo, hi, step, range, how⟩
      rw [List.mem_singleton.mp listed, partRange_star] at range
      cases range
      rcases how with ⟨k, sum, bound⟩ | ⟨j, one, sum⟩
      · omega
      · have larger : 1 * (2 ^ 32 - max 1 1) ≤ j * (2 ^ 32 - max 1 1) := Nat.mul_le_mul_right _ one
        omega
  · rcases Option.map_eq_some_iff.mp parsed with ⟨lists, all, same⟩
    have ⟨each, found⟩ := mapM_read all
    have kept : lists.flatten.dedup = values := congrArg Prod.fst same
    rw [← kept, List.mem_dedup, found]
    refine exists_congr fun part => and_congr_right fun listed => ?_
    constructor
    · rintro ⟨own, here, member⟩
      rcases parsePart_some.mp here with ⟨lo, hi, step, range, lower, upper, ordered, rfl⟩
      exact ⟨lo, hi, step, range, (mem_steps (by omega) (partRange_step range) ordered).mp member⟩
    · rintro ⟨lo, hi, step, range, how⟩
      rcases Option.isSome_iff_exists.mp (each part listed) with ⟨own, here⟩
      rcases parsePart_some.mp here with ⟨lo', hi', step', range', lower, upper, ordered, rfl⟩
      rw [range] at range'
      cases range'
      exact ⟨_, here, (mem_steps (by omega) (partRange_step range) ordered).mpr how⟩

/-- Every value that a step of a part carries to is counted out by the field
in any case. -/
def HarmlessSteps (field : List Char) (least most : Nat) : Prop :=
  forall part, part ∈ Text.split ',' field -> forall lo hi step, partRange part least most = some (lo, hi, step) ->
    2 ^ 32 ≤ lo + max step 1 -> forall v, CarriedTo lo step v -> FieldMeans field least most v

theorem field_exact_iff {restricts : Bool} (short : most < 2 ^ 31) (ordered : least ≤ most)
    (parsed : parseField field least most = some (values, restricts)) :
    (forall v, v ∈ values <-> FieldMeans field least most v) <-> HarmlessSteps field least most := by
  constructor
  · intro right part listed lo hi step range _ v carried
    exact (right v).mp ((mem_field short ordered parsed).mpr ⟨part, listed, lo, hi, step, range, Or.inr carried⟩)
  · intro harmless v
    rw [mem_field short ordered parsed]
    constructor
    · rintro ⟨part, listed, lo, hi, step, range, counted | carried⟩
      · exact ⟨part, listed, lo, hi, step, range, counted⟩
      · refine harmless part listed lo hi step range ?_ v carried
        rcases carried with ⟨j, one, sum⟩
        have larger : 1 * (2 ^ 32 - max step 1) ≤ j * (2 ^ 32 - max step 1) := Nat.mul_le_mul_right _ one
        omega
    · rintro ⟨part, listed, lo, hi, step, range, counted⟩
      exact ⟨part, listed, lo, hi, step, range, Or.inl counted⟩

theorem split_ne_nil {separator : Char} {text : List Char} : Text.split separator text ≠ [] := by
  cases text with
  | nil => exact List.cons_ne_nil _ _
  | cons c rest =>
    rw [Text.split]
    split_ifs
    · exact List.cons_ne_nil _ _
    · split
      · exact List.cons_ne_nil _ _
      · exact List.cons_ne_nil _ _

theorem fieldMeans_bounds {restricts : Bool}
    (parsed : parseField field least most = some (values, restricts)) (means : FieldMeans field least most v) :
    least ≤ v ∧ v ≤ most := by
  rcases means with ⟨part, listed, lo, hi, step, range, k, sum, bound⟩
  unfold parseField at parsed
  split_ifs at parsed with star
  · rw [star, split_star] at listed
    rw [List.mem_singleton.mp listed, partRange_star] at range
    cases range
    omega
  · rcases Option.map_eq_some_iff.mp parsed with ⟨lists, all, _⟩
    rcases Option.isSome_iff_exists.mp ((mapM_read all).1 part listed) with ⟨own, here⟩
    rcases parsePart_some.mp here with ⟨lo', hi', step', range', lower, upper, _, _⟩
    rw [range] at range'
    cases range'
    omega

/-- A field has a value in its bounds, and all of them if it does not
restrict. -/
theorem field_usable {restricts : Bool} (short : most < 2 ^ 31) (ordered : least ≤ most)
    (parsed : parseField field least most = some (values, restricts)) :
    (Exists fun v => least ≤ v ∧ v ≤ most ∧ v ∈ values) ∧
      (restricts = false -> forall v, least ≤ v -> v ≤ most -> v ∈ values) := by
  by_cases star : field = ['*']
  · have counted : forall v, least ≤ v -> v ≤ most -> v ∈ values := fun v above below =>
      (mem_field short ordered parsed).mpr ⟨['*'], by rw [star, split_star]; exact .head _, least, most, 1, rfl,
        Or.inl (counted_one above below)⟩
    exact ⟨⟨least, le_refl _, ordered, counted least (le_refl _) ordered⟩, fun _ => counted⟩
  · have known := parsed
    unfold parseField at parsed
    rw [if_neg star] at parsed
    rcases Option.map_eq_some_iff.mp parsed with ⟨lists, all, same⟩
    refine ⟨?_, fun free => ?_⟩
    · cases pieces : Text.split ',' field with
      | nil => exact absurd pieces split_ne_nil
      | cons part rest =>
        have listed : part ∈ Text.split ',' field := by
          rw [pieces]
          exact .head _
        rcases Option.isSome_iff_exists.mp ((mapM_read all).1 part listed) with ⟨own, here⟩
        rcases parsePart_some.mp here with ⟨lo, hi, step, range, lower, upper, between, _⟩
        refine ⟨lo, lower, by omega, (mem_field short ordered known).mpr ⟨part, listed, lo, hi, step, range, Or.inl ?_⟩⟩
        exact ⟨0, by omega, between⟩
    · have flag : true = restricts := congrArg Prod.snd same
      rw [free] at flag
      exact Bool.noConfusion flag

/-- The values are those that the field counts out, and they are in its
bounds. -/
def FieldIsRight (field : List Char) (least most : Nat) (values : List Nat) : Prop :=
  (forall v, v ∈ values <-> FieldMeans field least most v) ∧ forall v, v ∈ values -> least ≤ v ∧ v ≤ most

theorem fieldIsRight_iff {restricts : Bool} (short : most < 2 ^ 31) (ordered : least ≤ most)
    (parsed : parseField field least most = some (values, restricts)) :
    FieldIsRight field least most values <-> HarmlessSteps field least most := by
  rw [← field_exact_iff short ordered parsed]
  exact ⟨fun right => right.1, fun right => ⟨right, fun v listed => fieldMeans_bounds parsed ((right v).mp listed)⟩⟩

end

/-! ## Expressions -/

/-- The fields of an expression, with their bounds and their values. -/
def Schedule.fields (schedule : Schedule) (expr : String) : List (List Char × Nat × Nat × List Nat) :=
  (splitWhitespace expr.toList).zip
    [(0, 59, schedule.minute), (0, 23, schedule.hour), (1, 31, schedule.dayOfMonth), (1, 12, schedule.month),
      (0, 6, schedule.dayOfWeek)]

variable {expr : String} {schedule : Schedule}

theorem parse_fields (accepted : parse expr = some schedule) :
    Exists fun minute => Exists fun hour => Exists fun dayOfMonth => Exists fun month => Exists fun dayOfWeek =>
      splitWhitespace expr.toList = [minute, hour, dayOfMonth, month, dayOfWeek] ∧
      (Exists fun r => parseField minute 0 59 = some (schedule.minute, r)) ∧
      (Exists fun r => parseField hour 0 23 = some (schedule.hour, r)) ∧
      parseField dayOfMonth 1 31 = some (schedule.dayOfMonth, schedule.domRestricted) ∧
      (Exists fun r => parseField month 1 12 = some (schedule.month, r)) ∧
      parseField dayOfWeek 0 6 = some (schedule.dayOfWeek, schedule.dowRestricted) := by
  unfold parse at accepted
  split at accepted
  · next minute hour dayOfMonth month dayOfWeek same =>
      refine ⟨minute, hour, dayOfMonth, month, dayOfWeek, same, ?_⟩
      rcases Option.bind_eq_some_iff.mp accepted with ⟨⟨minutes, r₁⟩, one, accepted⟩
      rcases Option.bind_eq_some_iff.mp accepted with ⟨⟨hours, r₂⟩, two, accepted⟩
      rcases Option.bind_eq_some_iff.mp accepted with ⟨⟨days, r₃⟩, three, accepted⟩
      rcases Option.bind_eq_some_iff.mp accepted with ⟨⟨months, r₄⟩, four, accepted⟩
      rcases Option.bind_eq_some_iff.mp accepted with ⟨⟨weekdays, r₅⟩, five, accepted⟩
      dsimp only at accepted
      split_ifs at accepted
      rw [← Option.some.inj accepted]
      exact ⟨⟨r₁, one⟩, ⟨r₂, two⟩, three, ⟨r₄, four⟩, five⟩
  · cases accepted

theorem usable_of_parse (accepted : parse expr = some schedule) : schedule.Usable := by
  rcases parse_fields accepted with ⟨minute, hour, dayOfMonth, month, dayOfWeek, _, ⟨_, one⟩, ⟨_, two⟩, three, ⟨_, four⟩, five⟩
  rcases (field_usable (by omega) (by omega) one).1 with ⟨m, _, m_le, inMinute⟩
  rcases (field_usable (by omega) (by omega) two).1 with ⟨h, _, h_le, inHour⟩
  rcases (field_usable (by omega) (by omega) four).1 with ⟨mo, one_le, mo_le, inMonth⟩
  rcases field_usable (by omega) (by omega) five with ⟨⟨w, _, w_le, inWeek⟩, anyWeekday⟩
  exact ⟨⟨m, by omega, inMinute⟩, ⟨h, by omega, inHour⟩, ⟨mo, one_le, mo_le, inMonth⟩, ⟨w, by omega, inWeek⟩,
    (field_usable (by omega) (by omega) three).2, fun free w small => anyWeekday free w (Nat.zero_le _) (by omega)⟩

/-- A field's values are those it counts out exactly when no step carries to
another, and the next minute is right exactly when the schedule is not one of
leap days only or a leap day is among those searched. -/
theorem cron_meaning (accepted : parse expr = some schedule) (base : Int) :
    (forall field, field ∈ schedule.fields expr ->
      (FieldIsRight field.1 field.2.1 field.2.2.1 field.2.2.2 <-> HarmlessSteps field.1 field.2.1 field.2.2.1)) ∧
    (schedule.NextIsRight base <->
      (schedule.LeapDayOnly -> Exists fun t => Schedule.Searched base t ∧ schedule.LeapMinute t)) := by
  refine ⟨fun field listed => ?_, Schedule.nextIsRight_iff (usable_of_parse accepted)⟩
  rcases parse_fields accepted with
    ⟨minute, hour, dayOfMonth, month, dayOfWeek, same, ⟨_, one⟩, ⟨_, two⟩, three, ⟨_, four⟩, five⟩
  unfold Schedule.fields at listed
  rw [same] at listed
  simp only [List.zip_cons_cons, List.zip_nil_left, List.mem_cons, List.not_mem_nil, or_false] at listed
  rcases listed with rfl | rfl | rfl | rfl | rfl
  · exact fieldIsRight_iff (by dsimp only; omega) (by dsimp only; omega) one
  · exact fieldIsRight_iff (by dsimp only; omega) (by dsimp only; omega) two
  · exact fieldIsRight_iff (by dsimp only; omega) (by dsimp only; omega) three
  · exact fieldIsRight_iff (by dsimp only; omega) (by dsimp only; omega) four
  · exact fieldIsRight_iff (by dsimp only; omega) (by dsimp only; omega) five

theorem cron_meaning_daily : Exists fun schedule => parse "30 4 * * *" = some schedule ∧
    schedule.NextIsRight 1767225600 := by
  cases accepted : parse "30 4 * * *" with
  | none => exact absurd accepted (by decide +kernel)
  | some schedule =>
    have exactly : parse "30 4 * * *" = some ⟨[30], [4], (List.range 32).filter fun v => 1 ≤ v,
      (List.range 13).filter fun v => 1 ≤ v, List.range 7, false, false⟩ := by decide +kernel
    refine ⟨schedule, rfl, (cron_meaning accepted 1767225600).2.mpr fun leap => ?_⟩
    rw [accepted] at exactly
    rw [Option.some.inj exactly] at leap
    exact absurd (leap.2.2 0 (by decide)) (not_not.mpr ⟨by decide, by decide⟩)

/-- A step that is short of 32 bits by one counts down, and the 29th of
February is not found two years before it. -/
theorem large_step_and_leap_day :
    (Exists fun schedule => parse "5/4294967295 * * * *" = some schedule ∧ 4 ∈ schedule.minute ∧
      ¬ FieldMeans "5/4294967295".toList 0 59 4) ∧
    Exists fun schedule => parse "0 0 29 2 *" = some schedule ∧ schedule.nextAfter 1767225600 = none ∧
      schedule.Allows 1835395200 := by
  constructor
  · refine ⟨⟨[5, 4, 3, 2, 1, 0], List.range 24, (List.range 32).filter fun v => 1 ≤ v,
      (List.range 13).filter fun v => 1 ≤ v, List.range 7, false, false⟩, by decide +kernel, by decide, ?_⟩
    rintro ⟨part, listed, lo, hi, step, range, k, sum, _⟩
    have only : Text.split ',' "5/4294967295".toList = ["5/4294967295".toList] := by decide +kernel
    have read : partRange "5/4294967295".toList 0 59 = some (5, 59, 4294967295) := by decide +kernel
    rw [only] at listed
    rw [List.mem_singleton.mp listed, read] at range
    cases range
    omega
  · refine ⟨⟨[0], [0], [29], [2], List.range 7, true, false⟩, by decide +kernel, ?_, ?_⟩
    · rw [Schedule.nextAfter_none]
      rintro t ⟨_, after, before⟩ allowed
      have never : forall k, k < 367 -> ¬ (dayAndMonth (20454 + (k : Nat))).2 ∈ [2] ∨
          ¬ (dayAndMonth (20454 + (k : Nat))).1 ∈ [29] := by decide +kernel
      have here := never (t / 86400 - 20454).toNat (by omega)
      have same : (20454 + ((t / 86400 - 20454).toNat : Int)) = t / 86400 := by omega
      rw [same] at here
      rcases here with other | other
      · exact other allowed.2.2.1
      · exact other allowed.2.2.2.1
    · exact Schedule.matchesMinute_iff.mp (by decide +kernel)

end CronSchedule
end NotK8s.Controllers

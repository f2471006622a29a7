/-
# The proleptic Gregorian calendar

A date is a year with a month and a day of that month, and its successor is the next day. The days
are numbered from 1970-01-01, on from one day to the next. The numbering has a closed form: years
that begin in March put the leap day last, so that the days before a month do not depend on the
year. The closed form is inverted by the usual division of the 400-year cycle of 146097 days.
-/

import Mathlib

namespace EntityResolution.Calendar

/-- A leap year: every fourth, but of the centuries only every fourth. -/
def IsLeap (year : ℤ) : Prop := 4 ∣ year ∧ (100 ∣ year → 400 ∣ year)

instance (year : ℤ) : Decidable (IsLeap year) := inferInstanceAs (Decidable (_ ∧ _))

theorem isLeap_iff_emod (year : ℤ) :
    IsLeap year ↔ year % 4 = 0 ∧ (year % 100 = 0 → year % 400 = 0) := by
  rw [IsLeap, Int.dvd_iff_emod_eq_zero, Int.dvd_iff_emod_eq_zero, Int.dvd_iff_emod_eq_zero]

/-- The number of days of a month. -/
def monthLength (year : ℤ) (month : ℕ) : ℕ :=
  if month = 2 then if IsLeap year then 29 else 28
  else if month = 4 ∨ month = 6 ∨ month = 9 ∨ month = 11 then 30 else 31

theorem one_le_monthLength (year : ℤ) (month : ℕ) : 1 ≤ monthLength year month := by
  unfold monthLength
  split_ifs <;> omega

theorem monthLength_le (year : ℤ) (month : ℕ) : monthLength year month ≤ 31 := by
  unfold monthLength
  split_ifs <;> omega

/-- A day of the calendar. -/
@[ext]
structure Date where
  year : ℤ
  month : ℕ
  day : ℕ
  month_bounds : 1 ≤ month ∧ month ≤ 12
  day_bounds : 1 ≤ day ∧ day ≤ monthLength year month
  deriving DecidableEq

/-- The day after. -/
def Date.next (date : Date) : Date :=
  if hday : date.day < monthLength date.year date.month then
    ⟨date.year, date.month, date.day + 1, date.month_bounds, by omega, hday⟩
  else if hmonth : date.month < 12 then
    ⟨date.year, date.month + 1, 1, by omega, le_rfl, one_le_monthLength _ _⟩
  else ⟨date.year + 1, 1, 1, by omega, le_rfl, one_le_monthLength _ _⟩

/-- 1970-01-01. -/
def Date.epoch : Date := ⟨1970, 1, 1, by decide, by decide⟩

/-- The date so many days after the epoch. -/
def Date.after (days : ℕ) : Date := Date.next^[days] Date.epoch

/-- The year that began in the last March. -/
def marchYear (year : ℤ) (month : ℕ) : ℤ := if month ≤ 2 then year - 1 else year

/-- The months since March. -/
def marchMonth (month : ℕ) : ℤ := (month + 9) % 12

/-- The days since the first of March. -/
def marchDay (month day : ℕ) : ℤ := (153 * marchMonth month + 2) / 5 + day - 1

/-- The days from March of the year 0 to March of a year. -/
def daysBefore (year : ℤ) : ℤ := 365 * year + year / 4 - year / 100 + year / 400

/-- The number of days from a March to the next. -/
def marchLength (year : ℤ) : ℤ := if IsLeap (year + 1) then 366 else 365

/-- The days from the epoch to a date, for any day of the month. -/
def dayNumberOf (year : ℤ) (month day : ℕ) : ℤ :=
  daysBefore (marchYear year month) + marchDay month day - 719468

/-- The days from the epoch to a date. -/
def Date.dayNumber (date : Date) : ℤ := dayNumberOf date.year date.month date.day

theorem dayNumber_epoch : Date.epoch.dayNumber = 0 := by decide

theorem marchDay_succ (month day : ℕ) : marchDay month (day + 1) = marchDay month day + 1 := by
  rw [marchDay, marchDay]
  push_cast
  ring

theorem daysBefore_succ (year : ℤ) :
    daysBefore (year + 1) = daysBefore year + marchLength year := by
  rw [daysBefore, daysBefore, marchLength]
  split_ifs with hleap
  · rw [isLeap_iff_emod] at hleap
    omega
  · rw [isLeap_iff_emod] at hleap
    omega

/-- The first of a month is the day after the last of the month before. -/
theorem dayNumberOf_succ_month (year : ℤ) {month : ℕ} (hmonth : 1 ≤ month ∧ month < 12) :
    dayNumberOf year (month + 1) 1 = dayNumberOf year month (monthLength year month) + 1 := by
  by_cases hfebruary : month = 2
  · subst hfebruary
    have hbefore := daysBefore_succ (year - 1)
    rw [marchLength, sub_add_cancel] at hbefore
    have hlength : ((monthLength year 2 : ℕ) : ℤ) = if IsLeap year then 29 else 28 := by
      rw [monthLength, if_pos rfl]
      split_ifs <;> rfl
    have hmarch : marchDay 3 1 = 0 := by decide
    have hday : marchDay 2 (monthLength year 2) = 336 + (monthLength year 2 : ℕ) := by
      rw [marchDay, show marchMonth 2 = 11 by decide]
      omega
    rw [dayNumberOf, dayNumberOf, marchYear, marchYear, if_neg (by omega), if_pos le_rfl, hbefore,
      hmarch, hday, hlength]
    split_ifs <;> omega
  · have hyear : marchYear year (month + 1) = marchYear year month := by
      unfold marchYear
      split_ifs <;> omega
    have hday : marchDay (month + 1) 1 = marchDay month (monthLength year month) + 1 := by
      have hlength : monthLength year month =
          if month = 4 ∨ month = 6 ∨ month = 9 ∨ month = 11 then 30 else 31 := if_neg hfebruary
      rw [hlength]
      obtain ⟨hfrom, hto⟩ := hmonth
      interval_cases month <;> first | decide | exact absurd rfl hfebruary
    rw [dayNumberOf, dayNumberOf, hyear, hday]
    ring

/-- The first of January is the day after the last of December. -/
theorem dayNumberOf_succ_year (year : ℤ) :
    dayNumberOf (year + 1) 1 1 = dayNumberOf year 12 31 + 1 := by
  have hjanuary : marchDay 1 1 = 306 := by decide
  have hdecember : marchDay 12 31 = 305 := by decide
  rw [dayNumberOf, dayNumberOf, marchYear, marchYear, if_pos (by omega), if_neg (by omega),
    hjanuary, hdecember, add_sub_cancel_right]
  ring

/-- The next day has the next number. -/
theorem Date.dayNumber_next (date : Date) : date.next.dayNumber = date.dayNumber + 1 := by
  have hbounds := date.month_bounds
  have hday := date.day_bounds
  rw [Date.next]
  split_ifs with hinside hmonth
  · rw [Date.dayNumber, Date.dayNumber, dayNumberOf, dayNumberOf, marchDay_succ]
    ring
  · have hlast : date.day = monthLength date.year date.month := by omega
    rw [Date.dayNumber, Date.dayNumber, dayNumberOf_succ_month _ ⟨hbounds.1, hmonth⟩, hlast]
  · have hlast : date.day = monthLength date.year date.month := by omega
    have hdecember : date.month = 12 := by omega
    rw [hdecember] at hlast
    rw [Date.dayNumber, Date.dayNumber, dayNumberOf_succ_year, hdecember, hlast]
    rfl

/-- The closed form counts the days from the epoch. -/
theorem Date.dayNumber_after (days : ℕ) : (Date.after days).dayNumber = days := by
  induction days with
  | zero => exact dayNumber_epoch
  | succ days ih =>
      rw [Date.after, Function.iterate_succ_apply', Date.dayNumber_next, ← Date.after, ih]
      push_cast
      rfl

/-- The cycle of 400 years that a day falls into; days are counted from March of the year 0. -/
def eraOf (number : ℤ) : ℤ := number / 146097

/-- The day of its cycle. -/
def dayOfEra (number : ℤ) : ℤ := number % 146097

/-- The year of the cycle, after the leap days seen so far are taken away. -/
def yearOfEra (doe : ℤ) : ℤ := (doe - doe / 1460 + doe / 36524 - doe / 146096) / 365

/-- The days from the begin of a cycle to a year of it. -/
def eraDaysBefore (year : ℤ) : ℤ := 365 * year + year / 4 - year / 100

/-- The day of a year of the cycle gives the year back. -/
theorem yearOfEra_add {year day : ℤ} (hyear : 0 ≤ year ∧ year < 400)
    (hday : 0 ≤ day ∧ day < marchLength year) : yearOfEra (eraDaysBefore year + day) = year := by
  -- centuries, fours and single years, so that the divisions become linear
  obtain ⟨c, q, r, hc, hq, hr, rfl⟩ : ∃ c q r : ℤ, (0 ≤ c ∧ c ≤ 3) ∧ (0 ≤ q ∧ q ≤ 24) ∧
      (0 ≤ r ∧ r ≤ 3) ∧ year = 100 * c + 4 * q + r :=
    ⟨year / 100, year % 100 / 4, year % 4, by omega, by omega, by omega, by omega⟩
  have hlength : day ≤ 364 ∨ day = 365 ∧ r = 3 ∧ (q = 24 → c = 3) := by
    rw [marchLength] at hday
    split_ifs at hday with hleap
    · rw [isLeap_iff_emod] at hleap
      omega
    · omega
  have hbefore : eraDaysBefore (100 * c + 4 * q + r) = 36524 * c + 1461 * q + 365 * r := by
    rw [eraDaysBefore]
    omega
  rw [hbefore, yearOfEra]
  generalize hdoe : 36524 * c + 1461 * q + 365 * r + day = doe
  have hquarter : doe / 146096 = 0 ∧ doe / 36524 = c ∨ doe = 146096 ∧ c = 3 ∧ q = 24 ∧ r = 3 := by
    omega
  rcases hquarter with ⟨hnone, hcentury⟩ | ⟨hlast, rfl, rfl, rfl⟩
  · rw [hnone, hcentury]
    omega
  · rw [hlast]
    decide

/-- The month since March that a day of the March year falls into. -/
def marchMonthOf (day : ℤ) : ℤ := (5 * day + 2) / 153

namespace Date

variable (date : Date)

/-- The days since March of the year 0. -/
def marchNumber : ℤ := date.dayNumber + 719468

theorem marchNumber_eq : date.marchNumber =
    daysBefore (marchYear date.year date.month) + marchDay date.month date.day := by
  rw [marchNumber, dayNumber, dayNumberOf, sub_add_cancel]

/-- The day of the March year is one of its days, and gives month and day back. -/
theorem marchDay_spec :
    (0 ≤ marchDay date.month date.day ∧
      marchDay date.month date.day < marchLength (marchYear date.year date.month)) ∧
      marchMonthOf (marchDay date.month date.day) = marchMonth date.month := by
  obtain ⟨year, month, day, hmonth, hday⟩ := date
  change (0 ≤ marchDay month day ∧ marchDay month day < marchLength (marchYear year month)) ∧
    marchMonthOf (marchDay month day) = marchMonth month
  by_cases hfebruary : month = 2
  · subst hfebruary
    have hlength : monthLength year 2 = if IsLeap year then 29 else 28 := if_pos rfl
    rw [marchLength, marchYear, if_pos le_rfl, sub_add_cancel, marchMonthOf, marchDay,
      show marchMonth 2 = 11 by decide]
    rw [hlength] at hday
    split_ifs at hday ⊢ <;> omega
  · have hshort : day ≤ 31 ∧ (month = 4 ∨ month = 6 ∨ month = 9 ∨ month = 11 → day ≤ 30) := by
      rw [monthLength, if_neg hfebruary] at hday
      split_ifs at hday with hthirty
      · exact ⟨by omega, fun _ => hday.2⟩
      · exact ⟨hday.2, fun h => absurd h hthirty⟩
    have hyear : 365 ≤ marchLength (marchYear year month) := by
      unfold marchLength
      split_ifs <;> omega
    have hfirst := hday.1
    clear hday
    rw [marchMonthOf, marchDay, marchMonth]
    obtain ⟨hfrom, hto⟩ := hmonth
    interval_cases month <;> omega

/-- How far the year and the day number are apart. -/
theorem year_bounds : 365 * date.year + date.year / 4 - date.year / 100 + date.year / 400 ≤
      date.dayNumber + 719468 + 366 ∧
    date.dayNumber + 719468 ≤
      365 * date.year + date.year / 4 - date.year / 100 + date.year / 400 + 366 := by
  have hday := date.marchDay_spec.1
  have hlength : marchLength (marchYear date.year date.month) ≤ 366 := by
    unfold marchLength
    split_ifs <;> omega
  have hnumber := date.marchNumber_eq
  rw [marchNumber, daysBefore] at hnumber
  have hyear : marchYear date.year date.month = date.year ∨
      marchYear date.year date.month = date.year - 1 := by
    unfold marchYear
    split_ifs
    · exact .inr rfl
    · exact .inl rfl
  rcases hyear with hyear | hyear
  · rw [hyear] at hnumber hlength hday
    omega
  · rw [hyear] at hnumber hlength hday
    omega

/-- The year of a date from the year that begins in March. -/
theorem year_of_marchYear :
    (if (date.month : ℤ) ≤ 2 then marchYear date.year date.month + 1
      else marchYear date.year date.month) = date.year := by
  unfold marchYear
  split_ifs <;> omega

/-- The month of a date from the months since March. -/
theorem month_of_marchMonth :
    (if marchMonth date.month < 10 then marchMonth date.month + 3
      else marchMonth date.month - 9) = date.month := by
  have hmonths := date.month_bounds
  unfold marchMonth
  split_ifs <;> omega

/-- The day of a date from the days since March. -/
theorem day_of_marchDay :
    marchDay date.month date.day - (153 * marchMonth date.month + 2) / 5 + 1 = date.day := by
  unfold marchDay
  omega

theorem marchMonth_bounds : 0 ≤ marchMonth date.month ∧ marchMonth date.month ≤ 11 := by
  unfold marchMonth
  omega

theorem marchDay_bounds :
    0 ≤ marchDay date.month date.day ∧ marchDay date.month date.day ≤ 365 := by
  have hday := date.marchDay_spec.1
  unfold marchLength at hday
  split_ifs at hday <;> omega

/-- The day number gives the cycle and the day of the cycle back. -/
theorem era_marchNumber : eraOf date.marchNumber = marchYear date.year date.month / 400 ∧
    dayOfEra date.marchNumber = eraDaysBefore (marchYear date.year date.month % 400) +
      marchDay date.month date.day := by
  obtain ⟨⟨hfrom, hto⟩, -⟩ := date.marchDay_spec
  rw [eraOf, dayOfEra, marchNumber_eq]
  generalize marchYear date.year date.month = year at *
  generalize marchDay date.month date.day = day at *
  have hsplit : daysBefore year + day =
      146097 * (year / 400) + (eraDaysBefore (year % 400) + day) := by
    rw [daysBefore, eraDaysBefore]
    omega
  have hbounds : 0 ≤ eraDaysBefore (year % 400) + day ∧
      eraDaysBefore (year % 400) + day < 146097 := by
    rw [eraDaysBefore]
    rw [marchLength] at hto
    split_ifs at hto with hleap
    · rw [isLeap_iff_emod] at hleap
      omega
    · omega
  generalize eraDaysBefore (year % 400) + day = doe at *
  omega

/-- The year of the cycle is found from the day of the cycle. -/
theorem yearOfEra_marchNumber :
    yearOfEra (dayOfEra date.marchNumber) = marchYear date.year date.month % 400 := by
  rw [(era_marchNumber date).2]
  apply yearOfEra_add (by omega)
  have hlength : marchLength (marchYear date.year date.month % 400) =
      marchLength (marchYear date.year date.month) := by
    have hleap : IsLeap (marchYear date.year date.month % 400 + 1) ↔
        IsLeap (marchYear date.year date.month + 1) := by
      rw [isLeap_iff_emod, isLeap_iff_emod]
      omega
    rw [marchLength, marchLength]
    simp only [hleap]
  rw [hlength]
  exact date.marchDay_spec.1

theorem eq_of_marchNumber_eq {first second : Date}
    (hsame : first.marchNumber = second.marchNumber) :
    first = second := by
  have hera : marchYear first.year first.month / 400 =
      marchYear second.year second.month / 400 := by
    rw [← first.era_marchNumber.1, hsame, second.era_marchNumber.1]
  have hcycle : marchYear first.year first.month % 400 =
      marchYear second.year second.month % 400 := by
    rw [← first.yearOfEra_marchNumber, hsame, second.yearOfEra_marchNumber]
  have hyear : marchYear first.year first.month = marchYear second.year second.month := by omega
  have hday : marchDay first.month first.day = marchDay second.month second.day := by
    rw [marchNumber_eq, marchNumber_eq, hyear] at hsame
    omega
  have hmonth : marchMonth first.month = marchMonth second.month := by
    rw [← first.marchDay_spec.2, hday, second.marchDay_spec.2]
  have hfirst := first.month_bounds
  have hsecond := second.month_bounds
  have hmonths : first.month = second.month := by
    rw [marchMonth, marchMonth] at hmonth
    omega
  apply Date.ext _ hmonths
  · rw [marchDay, marchDay, hmonth] at hday
    omega
  · rw [marchYear, marchYear, hmonths] at hyear
    split_ifs at hyear <;> omega

theorem dayNumber_injective : Function.Injective dayNumber := by
  intro first second hsame
  apply eq_of_marchNumber_eq
  rw [marchNumber, marchNumber, hsame]

/-- From the epoch on, a date is the one that many days after it. -/
theorem eq_after {days : ℕ} (hdays : date.dayNumber = days) : date = Date.after days := by
  apply dayNumber_injective
  rw [hdays, dayNumber_after]

/-- The order of year, month and day. -/
instance : LinearOrder Date :=
  LinearOrder.lift' (fun date => toLex (date.year, toLex (date.month, date.day))) (by
    intro first second hsame
    have hparts := Prod.mk.inj (toLex.injective hsame)
    have hmonth := Prod.mk.inj (toLex.injective hparts.2)
    exact Date.ext hparts.1 hmonth.1 hmonth.2)

theorem lt_iff {first second : Date} : first < second ↔
    first.year < second.year ∨ first.year = second.year ∧
      (first.month < second.month ∨ first.month = second.month ∧ first.day < second.day) := by
  change toLex (first.year, toLex (first.month, first.day)) <
    toLex (second.year, toLex (second.month, second.day)) ↔ _
  rw [Prod.Lex.toLex_lt_toLex, Prod.Lex.toLex_lt_toLex]

theorem lt_next : date < date.next := by
  rw [lt_iff, Date.next]
  split_ifs
  · exact .inr ⟨rfl, .inr ⟨rfl, Nat.lt_succ_self _⟩⟩
  · exact .inr ⟨rfl, .inl (Nat.lt_succ_self _)⟩
  · exact .inl (Int.lt_succ _)

/-- Later days are later dates. -/
theorem after_strictMono : StrictMono Date.after := by
  apply strictMono_nat_of_lt_succ
  intro days
  rw [Date.after, Date.after, Function.iterate_succ_apply']
  exact lt_next _

end Date

end EntityResolution.Calendar

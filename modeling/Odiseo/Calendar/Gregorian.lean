import Mathlib.Tactic.IntervalCases
import Odiseo.Calendar.Months

/-!
# The UTC calendar before and after 1970

Instants are milliseconds from the beginning of 1970, earlier ones negative, and the years
are those of the proleptic Gregorian calendar. Months are numbered through all years: month
`k` is month `k % 12`, from 0 to 11, of year `k / 12`.
-/

namespace Calendar.Gregorian

/-- One day. -/
def msPerDay : ℤ := 24 * 60 * 60 * 1000

/-- `Day`: the number of the day of an instant. -/
def dayOf (t : ℤ) : ℤ := t / msPerDay

/-- `InLeapYear`, as the number of additional days. -/
def leapDay (year : ℤ) : ℤ :=
  if year % 4 = 0 ∧ (year % 100 ≠ 0 ∨ year % 400 = 0) then 1 else 0

/-- `DayFromYear`: the number of the first day of a year. -/
def dayFromYear (year : ℤ) : ℤ :=
  365 * (year - 1970) + (year - 1969) / 4 - (year - 1901) / 100 + (year - 1601) / 400

/-- The number of days of a year before a month, from 0 to 12. -/
def daysBefore (year month : ℤ) : ℤ :=
  if month ≤ 0 then 0
  else if month ≤ 1 then 31
  else
    leapDay year +
      if month ≤ 2 then 59
      else if month ≤ 3 then 90
      else if month ≤ 4 then 120
      else if month ≤ 5 then 151
      else if month ≤ 6 then 181
      else if month ≤ 7 then 212
      else if month ≤ 8 then 243
      else if month ≤ 9 then 273
      else if month ≤ 10 then 304
      else if month ≤ 11 then 334
      else 365

/-- The number of the first day of a month. -/
def firstDay (k : ℤ) : ℤ := dayFromYear (k / 12) + daysBefore (k / 12) (k % 12)

/-- The first instant of a month. -/
def monthStart (k : ℤ) : ℤ := firstDay k * msPerDay

/-- The year of a day: 400 years have 146097 days, and the estimate that follows from that is
off by one year at most. -/
def yearFromDay (day : ℤ) : ℤ :=
  let year := 1970 + 400 * day / 146097
  if day < dayFromYear year then year - 1
  else if day < dayFromYear (year + 1) then year
  else year + 1

/-- The month of a day, from 0 to 11, by the number of the day in the year. -/
def monthFromDay (year dayInYear : ℤ) : ℤ :=
  if dayInYear < daysBefore year 1 then 0
  else if dayInYear < daysBefore year 2 then 1
  else if dayInYear < daysBefore year 3 then 2
  else if dayInYear < daysBefore year 4 then 3
  else if dayInYear < daysBefore year 5 then 4
  else if dayInYear < daysBefore year 6 then 5
  else if dayInYear < daysBefore year 7 then 6
  else if dayInYear < daysBefore year 8 then 7
  else if dayInYear < daysBefore year 9 then 8
  else if dayInYear < daysBefore year 10 then 9
  else if dayInYear < daysBefore year 11 then 10
  else 11

/-- `getUTCFullYear`. -/
def getUTCFullYear (t : ℤ) : ℤ := yearFromDay (dayOf t)

/-- `getUTCMonth`. -/
def getUTCMonth (t : ℤ) : ℤ :=
  monthFromDay (getUTCFullYear t) (dayOf t - dayFromYear (getUTCFullYear t))

/-- The month of an instant. -/
def monthOf (t : ℤ) : ℤ := 12 * getUTCFullYear t + getUTCMonth t

/-- A year has 365 or 366 days. -/
theorem dayFromYear_succ (year : ℤ) :
    dayFromYear (year + 1) = dayFromYear year + 365 + leapDay year := by
  unfold dayFromYear leapDay
  split <;> omega

/-- A month has at least 28 days. -/
theorem daysBefore_lt {year month : ℤ} (h : 0 ≤ month) (h' : month ≤ 11) :
    daysBefore year month + 28 ≤ daysBefore year (month + 1) := by
  have hleap : 0 ≤ leapDay year ∧ leapDay year ≤ 1 := by
    unfold leapDay
    split <;> omega
  interval_cases month <;> simp [daysBefore] <;> omega

/-- The months before the end of a year fill it. -/
theorem daysBefore_twelve (year : ℤ) : daysBefore year 12 = 365 + leapDay year := by
  simp [daysBefore]
  omega

/-- The first day of the month after a month. -/
theorem firstDay_succ (k : ℤ) :
    firstDay (k + 1) = dayFromYear (k / 12) + daysBefore (k / 12) (k % 12 + 1) := by
  unfold firstDay
  by_cases hlast : k % 12 = 11
  · have hyear : (k + 1) / 12 = k / 12 + 1 := by omega
    have hmonth : (k + 1) % 12 = 0 := by omega
    have hnext := daysBefore_twelve (k / 12)
    rw [hyear, hmonth, dayFromYear_succ, hlast]
    simp only [daysBefore] at hnext ⊢
    omega
  · have hyear : (k + 1) / 12 = k / 12 := by omega
    have hmonth : (k + 1) % 12 = k % 12 + 1 := by omega
    rw [hyear, hmonth]

/-- The months follow one another. -/
theorem firstDay_lt_succ (k : ℤ) : firstDay k + 28 ≤ firstDay (k + 1) := by
  have hmonth : daysBefore (k / 12) (k % 12) + 28 ≤ daysBefore (k / 12) (k % 12 + 1) :=
    daysBefore_lt (by omega) (by omega)
  rw [firstDay_succ]
  unfold firstDay
  omega

/-- A later month starts later. -/
theorem firstDay_lt_iff {k l : ℤ} : firstDay k < firstDay l ↔ k < l := by
  have hmono : StrictMono firstDay := by
    apply strictMono_int_of_lt_succ
    intro k
    have hstep := firstDay_lt_succ k
    omega
  exact hmono.lt_iff_lt

/-- **The year of a day** is the one that it lies in. -/
theorem yearFromDay_spec (day : ℤ) :
    dayFromYear (yearFromDay day) ≤ day ∧ day < dayFromYear (yearFromDay day + 1) := by
  have hlow : dayFromYear (1970 + 400 * day / 146097 - 1) ≤ day := by
    unfold dayFromYear
    omega
  have hhigh : day < dayFromYear (1970 + 400 * day / 146097 + 2) := by
    unfold dayFromYear
    omega
  unfold yearFromDay
  dsimp only
  split
  · rename_i h
    rw [Int.sub_add_cancel]
    exact ⟨hlow, h⟩
  · split
    · omega
    · have htwo : 1970 + 400 * day / 146097 + 1 + 1 = 1970 + 400 * day / 146097 + 2 := by omega
      rw [htwo]
      omega

/-- **The month of a day of a year** is the one that it lies in. -/
theorem monthFromDay_spec {year d : ℤ} (h : 0 ≤ d) (h' : d < daysBefore year 12) :
    0 ≤ monthFromDay year d ∧ monthFromDay year d ≤ 11 ∧
      daysBefore year (monthFromDay year d) ≤ d ∧
        d < daysBefore year (monthFromDay year d + 1) := by
  have hzero : daysBefore year 0 = 0 := rfl
  unfold monthFromDay
  repeat' split
  all_goals
    refine ⟨by omega, by omega, by omega, ?_⟩
    simp only [Int.reduceAdd, zero_add]
    omega

/-- An instant lies in the month that its year and its number in the year give. -/
theorem firstDay_monthOf (t : ℤ) :
    firstDay (monthOf t) ≤ dayOf t ∧ dayOf t < firstDay (monthOf t + 1) ∧
      monthOf t / 12 = getUTCFullYear t ∧ monthOf t % 12 = getUTCMonth t := by
  obtain ⟨hstart, hstop⟩ : dayFromYear (getUTCFullYear t) ≤ dayOf t ∧
      dayOf t < dayFromYear (getUTCFullYear t + 1) := yearFromDay_spec (dayOf t)
  rw [dayFromYear_succ] at hstop
  have htwelve := daysBefore_twelve (getUTCFullYear t)
  obtain ⟨hlow, hhigh, hfrom, hto⟩ : 0 ≤ getUTCMonth t ∧ getUTCMonth t ≤ 11 ∧
      daysBefore (getUTCFullYear t) (getUTCMonth t) ≤ dayOf t - dayFromYear (getUTCFullYear t) ∧
        dayOf t - dayFromYear (getUTCFullYear t) <
          daysBefore (getUTCFullYear t) (getUTCMonth t + 1) :=
    monthFromDay_spec (by omega) (by omega)
  have hyear : monthOf t / 12 = getUTCFullYear t := by
    unfold monthOf
    omega
  have hmonth : monthOf t % 12 = getUTCMonth t := by
    unfold monthOf
    omega
  rw [firstDay_succ]
  unfold firstDay
  rw [hyear, hmonth]
  exact ⟨by omega, by omega, rfl, rfl⟩

/-- **The month of an instant** is the one that it lies in. -/
theorem monthOf_eq_iff {t k : ℤ} : monthOf t = k ↔ monthStart k ≤ t ∧ t < monthStart (k + 1) := by
  have hday : ∀ j, monthStart j ≤ t ↔ firstDay j ≤ dayOf t := by
    intro j
    unfold monthStart dayOf
    rw [Int.le_ediv_iff_mul_le (by decide)]
  obtain ⟨hstart, hstop, _, _⟩ := firstDay_monthOf t
  constructor
  · rintro rfl
    refine ⟨(hday _).mpr hstart, ?_⟩
    rw [← not_le, hday]
    omega
  · rintro ⟨hk, hlt⟩
    have hle := (hday k).mp hk
    rw [← not_le, hday, not_le] at hlt
    have hbelow : k < monthOf t + 1 := firstDay_lt_iff.mp (by omega)
    have habove : monthOf t < k + 1 := firstDay_lt_iff.mp (by omega)
    omega

/-- A later month starts later. -/
theorem monthStart_lt_iff {k l : ℤ} : monthStart k < monthStart l ↔ k < l := by
  have hday : (0 : ℤ) < msPerDay := by decide
  have hscale : firstDay k * msPerDay < firstDay l * msPerDay ↔ firstDay k < firstDay l :=
    Int.mul_lt_mul_right hday
  exact hscale.trans firstDay_lt_iff

/-- A month that is not later starts no later. -/
theorem monthStart_mono {k l : ℤ} (h : k ≤ l) : monthStart k ≤ monthStart l := by
  by_contra hlt
  have hback := monthStart_lt_iff.mp (not_le.mp hlt)
  omega

/-- A later instant does not lie in an earlier month. -/
theorem monthOf_mono {t u : ℤ} (h : t ≤ u) : monthOf t ≤ monthOf u := by
  obtain ⟨hstart, _⟩ := monthOf_eq_iff.mp (rfl : monthOf t = monthOf t)
  obtain ⟨_, hstop⟩ := monthOf_eq_iff.mp (rfl : monthOf u = monthOf u)
  have hlt : monthOf t < monthOf u + 1 := monthStart_lt_iff.mp (by omega)
  omega

/-- The leap years from 1970 on are those of the calendar that counts them from there. -/
theorem leapDay_natCast (year : ℕ) : leapDay year = if isLeapYear year then 1 else 0 := by
  have hiff : ((year : ℤ) % 4 = 0 ∧ ((year : ℤ) % 100 ≠ 0 ∨ (year : ℤ) % 400 = 0)) ↔
      isLeapYear year = true := by
    simp only [isLeapYear, Bool.and_eq_true, Bool.or_eq_true, decide_eq_true_eq]
    omega
  unfold leapDay
  simp only [hiff]

/-- A month has the days that the calendar from 1970 on gives it. -/
theorem daysBefore_succ (year : ℕ) {month : ℕ} (h : month < 12) :
    daysBefore year (month + 1) = daysBefore year month + daysInMonth year (month + 1) := by
  have hleap := leapDay_natCast year
  interval_cases month <;> simp [daysBefore, daysInMonth] <;> split at hleap <;> simp_all

/-- The months from 1970 on are those of the calendar that counts them from there. -/
theorem monthStart_natCast (k : ℕ) :
    monthStart (12 * 1970 + k) = (Calendar.monthStart k : ℤ) := by
  induction k with
  | zero => decide
  | succ k ih =>
    have hyear : (12 * 1970 + (k : ℤ)) / 12 = yearOf k := by
      unfold yearOf
      omega
    have hmonth : (12 * 1970 + (k : ℤ)) % 12 = monthInYear k := by
      unfold monthInYear
      omega
    have hdays : firstDay (12 * 1970 + k + 1) = firstDay (12 * 1970 + k) +
        daysInMonth (yearOf k) (monthInYear k + 1) := by
      have hlt : monthInYear k < 12 := Nat.mod_lt k (by decide)
      rw [firstDay_succ]
      unfold firstDay
      rw [hyear, hmonth, daysBefore_succ _ hlt]
      omega
    have hnext : (12 * 1970 + ((k + 1 : ℕ) : ℤ)) = 12 * 1970 + k + 1 := by omega
    have hday : msPerDay = (day : ℤ) := by decide
    rw [hnext]
    unfold monthStart at ih ⊢
    rw [hdays, add_mul, ih, Calendar.monthStart, hday]
    norm_cast

end Calendar.Gregorian

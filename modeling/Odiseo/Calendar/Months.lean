import Mathlib.Data.Nat.Find
import Mathlib.Order.Monotone.Basic

/-!
# Months of the UTC calendar

Instants are milliseconds since the beginning of 1970, and months are counted from January
1970. Every instant lies in exactly one month, whose number can be computed.
-/

namespace Calendar

/-- One hour. -/
def hour : ℕ := 60 * 60 * 1000

/-- One day. -/
def day : ℕ := 24 * hour

/-- The year has a 29 February. -/
def isLeapYear (year : ℕ) : Bool := year % 4 = 0 && (year % 100 ≠ 0 || year % 400 = 0)

/-- The number of days of a month, from 1 to 12, of a year. -/
def daysInMonth (year month : ℕ) : ℕ :=
  if month = 2 then if isLeapYear year then 29 else 28
  else if month = 4 ∨ month = 6 ∨ month = 9 ∨ month = 11 then 30
  else 31

/-- The year of a month. -/
def yearOf (k : ℕ) : ℕ := 1970 + k / 12

/-- The number of a month in its year, from 0 to 11. -/
def monthInYear (k : ℕ) : ℕ := k % 12

/-- The first instant of a month. -/
def monthStart : ℕ → ℕ
  | 0 => 0
  | k + 1 => monthStart k + daysInMonth (yearOf k) (monthInYear k + 1) * day

/-- The month of an instant. -/
def monthOf (t : ℕ) : ℕ := Nat.findGreatest (fun k => monthStart k ≤ t) (t / (28 * day))

/-- A month has at least 28 days. -/
theorem le_daysInMonth (year month : ℕ) : 28 ≤ daysInMonth year month := by
  unfold daysInMonth
  split
  · split <;> omega
  · split <;> omega

/-- The months follow one another. -/
theorem monthStart_lt_succ (k : ℕ) : monthStart k + 28 * day ≤ monthStart (k + 1) :=
  Nat.add_le_add_left (Nat.mul_le_mul_right day (le_daysInMonth _ _)) _

/-- A later month starts later. -/
theorem monthStart_strictMono : StrictMono monthStart := by
  apply strictMono_nat_of_lt_succ
  intro k
  have hpos : 0 < 28 * day := by decide
  have hstep := monthStart_lt_succ k
  omega

/-- The first `k` months have at least 28 days each. -/
theorem mul_le_monthStart (k : ℕ) : k * (28 * day) ≤ monthStart k := by
  induction k with
  | zero => exact Nat.zero_le _
  | succ k ih =>
    have hstep := monthStart_lt_succ k
    rw [Nat.succ_mul]
    omega

/-- **The month of an instant** is the one that it lies in. -/
theorem monthOf_eq_iff {t k : ℕ} : monthOf t = k ↔ monthStart k ≤ t ∧ t < monthStart (k + 1) := by
  have hstart : monthStart (monthOf t) ≤ t := by
    have hzero : monthStart 0 ≤ t := Nat.zero_le t
    exact Nat.findGreatest_spec (P := fun k => monthStart k ≤ t) (Nat.zero_le _) hzero
  have hbelow : ∀ j, monthStart j ≤ t → j ≤ monthOf t := by
    intro j hj
    have hbound : j ≤ t / (28 * day) := by
      rw [Nat.le_div_iff_mul_le (by decide)]
      exact (mul_le_monthStart j).trans hj
    exact Nat.le_findGreatest hbound hj
  constructor
  · rintro rfl
    refine ⟨hstart, ?_⟩
    by_contra hlate
    have hnext := hbelow (monthOf t + 1) (by omega)
    omega
  · rintro ⟨hk, hlt⟩
    have hle := hbelow k hk
    have hge : monthOf t < k + 1 := monthStart_strictMono.lt_iff_lt.mp (hstart.trans_lt hlt)
    omega

/-- `Date.UTC(year, month, 1)`, for months from 0 on; a month after the eleventh belongs to the
next year. -/
def utc (year month : ℕ) : ℕ := monthStart ((year - 1970) * 12 + month)

/-- `getUTCFullYear`. -/
def getUTCFullYear (t : ℕ) : ℕ := yearOf (monthOf t)

/-- `getUTCMonth`. -/
def getUTCMonth (t : ℕ) : ℕ := monthInYear (monthOf t)

/-- The month that `Date.UTC` starts. -/
theorem utc_eq (k n : ℕ) : utc (yearOf k) (monthInYear k + n) = monthStart (k + n) := by
  have hsum : (yearOf k - 1970) * 12 + (monthInYear k + n) = k + n := by
    unfold yearOf monthInYear
    omega
  rw [utc, hsum]

/-- A month is known by its year and its number in the year. -/
theorem eq_of_year_month {j k : ℕ} (hyear : yearOf j = yearOf k)
    (hmonth : monthInYear j = monthInYear k) : j = k := by
  unfold yearOf at hyear
  unfold monthInYear at hmonth
  omega

end Calendar

import Mathlib

/-!
# The Gregorian calendar

Years are counted from 1, a leap year comes every fourth year but not every hundredth unless it is
every four hundredth, and a date is a day its month has.  Days are numbered from 1 January of the
year 1, by adding up the years and the months before.

* `daysBeforeYear_eq` — the days before a year in closed form;
* `daysBeforeMonth_eq` — the days before a month in closed form;
* `Date.number` — the number of a date.
-/

namespace ObbyClient.Gregorian

/-- Every fourth year, but not every hundredth unless it is every four hundredth. -/
def isLeap (year : ℕ) : Bool := year % 4 == 0 && (year % 100 != 0 || year % 400 == 0)

theorem isLeap_iff {year : ℕ} :
    isLeap year = true ↔ year % 4 = 0 ∧ (year % 100 ≠ 0 ∨ year % 400 = 0) := by
  simp [isLeap]

/-- The days of a year. -/
def daysInYear (year : ℕ) : ℕ := if isLeap year then 366 else 365

/-- The days of a month. -/
def daysInMonth (year month : ℕ) : ℕ :=
  if month = 2 then if isLeap year then 29 else 28
  else if month = 4 ∨ month = 6 ∨ month = 9 ∨ month = 11 then 30 else 31

theorem daysInMonth_le (year month : ℕ) : daysInMonth year month ≤ 31 := by
  unfold daysInMonth
  split_ifs <;> omega

/-- The days of the years before one, from the year 1 on. -/
def daysBeforeYear (year : ℕ) : ℕ := ∑ y ∈ Finset.Ico 1 year, daysInYear y

/-- The days of the months before one. -/
def daysBeforeMonth (year month : ℕ) : ℕ := ∑ m ∈ Finset.Ico 1 month, daysInMonth year m

theorem daysBeforeYear_succ {year : ℕ} (h : 1 ≤ year) :
    daysBeforeYear (year + 1) = daysBeforeYear year + daysInYear year :=
  Finset.sum_Ico_succ_top h _

theorem daysBeforeMonth_succ {month : ℕ} (year : ℕ) (h : 1 ≤ month) :
    daysBeforeMonth year (month + 1) = daysBeforeMonth year month + daysInMonth year month :=
  Finset.sum_Ico_succ_top h _

theorem daysBeforeYear_mono {y z : ℕ} (h : y ≤ z) : daysBeforeYear y ≤ daysBeforeYear z :=
  Finset.sum_le_sum_of_subset (Finset.Ico_subset_Ico_right h)

/-- **The days before a year**: 365 for each, and one more for each leap year. -/
theorem daysBeforeYear_eq (n : ℕ) : daysBeforeYear
    (n + 1) = 365 * n + n / 4 - n / 100 + n / 400 := by
  induction n with
  | zero => rfl
  | succ n ih =>
      rw [daysBeforeYear_succ (Nat.le_add_left 1 n), ih, daysInYear]
      have hleap : isLeap (n + 1) = true ↔ _ := isLeap_iff
      cases hyear : isLeap (n + 1) with
      | true =>
          have hmod := hleap.mp hyear
          rw [if_pos rfl]
          omega
      | false =>
          have hmod := mt hleap.mpr (by rw [hyear]; exact Bool.false_ne_true)
          rw [if_neg Bool.false_ne_true]
          omega

/-- **The days before a month**: from March on the lengths repeat every five months, which is what
the quotient gives. -/
theorem daysBeforeMonth_eq (year : ℕ) {n : ℕ} (h : n ≤ 11) :
    daysBeforeMonth year (n + 1) =
      if n ≤ 1 then 31 * n else (153 * (n - 2) + 2) / 5 + 59 + if isLeap year then 1 else 0 := by
  induction n with
  | zero => rfl
  | succ n ih =>
      rw [daysBeforeMonth_succ year (Nat.le_add_left 1 n), ih (Nat.le_of_succ_le h), daysInMonth]
      have hn : n ≤ 10 := Nat.le_of_succ_le_succ h
      interval_cases n <;> cases isLeap year <;> rfl

/-- A date of the calendar. -/
@[ext]
structure Date where
  year : ℕ
  month : ℕ
  day : ℕ
  year_pos : 1 ≤ year
  month_pos : 1 ≤ month
  month_le : month ≤ 12
  day_pos : 1 ≤ day
  day_le : day ≤ daysInMonth year month

namespace Date

/-- The days from 1 January of the year 1. -/
def number (d : Date) : ℕ := daysBeforeYear d.year + daysBeforeMonth d.year d.month + (d.day - 1)

/-- The day the Unix clock counts from, 1 January 1970. -/
def epoch : Date := ⟨1970, 1, 1, by decide, by decide, by decide, by decide, by decide⟩

theorem epoch_number : epoch.number = 719162 := by
  have hyear : daysBeforeYear 1970 = 719162 := daysBeforeYear_eq 1969
  have hmonth : daysBeforeMonth 1970 1 = 0 := rfl
  simp only [number, epoch, hyear, hmonth]

end Date

end ObbyClient.Gregorian

import ObbyClient.Lib.Gregorian
import ObbyClient.Proto.ServerTime

/-!
# Days and dates

`server-time` turns a date into a day count and back with two algorithms that share no code.  Each
starts the year in March, so that a leap day is the last of its year, and counts in eras of 400
years.  Both are measured here against the calendar: `daysFromCivil` numbers the days as the
calendar does, and `civilFromDays` gives the one date that has a number.

* `daysFromCivil_number`, `civilFromDays_number` — what each computes;
* `civilFromDaysChecked_eq`, `daysFromCivilChecked_eq` — no step of either leaves its machine type.
-/

namespace ObbyClient.ServerTime

open Gregorian

/-! ### The year from March -/

/-- The year a month belongs to, from March to February. -/
def marchYear (year month : ℕ) : ℕ := if month ≤ 2 then year - 1 else year

/-- The months since March. -/
def marchMonth (month : ℕ) : ℕ := if 2 < month then month - 3 else month + 9

/-- **Counting from March** is 306 days ahead of counting from January. -/
theorem daysBefore_march {year month : ℕ} (hyear : 1 ≤ year) (hpos : 1 ≤ month) (hle : month ≤ 12) :
    daysBeforeYear year + daysBeforeMonth year month + 306 =
      daysBeforeYear (marchYear year month + 1) + (153 * marchMonth month + 2) / 5 := by
  obtain ⟨n, rfl⟩ : ∃ n, month = n + 1 := ⟨month - 1, by omega⟩
  rw [daysBeforeMonth_eq year (Nat.le_of_succ_le_succ hle), marchYear, marchMonth]
  by_cases hn : n ≤ 1
  · have hback : year - 1 + 1 = year := Nat.sub_add_cancel hyear
    rw [if_pos hn, if_pos (by omega), if_neg (by omega), hback]
    omega
  · have hlate : ¬n + 1 ≤ 2 := by omega
    have hthree : 2 < n + 1 := by omega
    have hmonth : n + 1 - 3 = n - 2 := by omega
    rw [if_neg hn, if_neg hlate, if_pos hthree, hmonth, daysBeforeYear_succ hyear, daysInYear]
    cases isLeap year with
    | true =>
        rw [if_pos rfl, if_pos rfl]
        omega
    | false =>
        rw [if_neg Bool.false_ne_true, if_neg Bool.false_ne_true]
        omega

/-- The days of an era before the year of it that is given. -/
theorem daysBeforeYear_era (era yearOfEra : ℕ) (h : yearOfEra < 400) :
    daysBeforeYear (yearOfEra + era * 400 + 1) =
      era * 146097 + (365 * yearOfEra + yearOfEra / 4 - yearOfEra / 100) := by
  rw [daysBeforeYear_eq]
  omega

/-- **`daysFromCivil` numbers the days as the calendar does**, days the month lacks included. -/
theorem daysFromCivil_eq {year month : ℕ} (day : ℕ) (hyear : 1 ≤ year) (hpos : 1 ≤ month)
    (hle : month ≤ 12) :
    daysFromCivil year month day =
      (daysBeforeYear year + daysBeforeMonth year month + day : ℕ) - 719163 := by
  have hmarch := daysBefore_march hyear hpos hle
  have hera := daysBeforeYear_era (marchYear year month / 400) (marchYear year month % 400)
    (Nat.mod_lt _ (by omega))
  rw [show marchYear year month % 400 + marchYear year month / 400 * 400 = marchYear year month by
    omega] at hera
  have hcast : (if (month : ℤ) ≤ 2 then (year : ℤ) - 1 else year) = (marchYear year month : ℕ) := by
    unfold marchYear
    split_ifs <;> omega
  have hcast' : (if 2 < (month : ℤ) then (month : ℤ) - 3 else month + 9) =
      (marchMonth month : ℕ) := by
    unfold marchMonth
    split_ifs <;> omega
  unfold daysFromCivil
  rw [hcast, hcast']
  generalize marchYear year month = y at *
  generalize marchMonth month = m at *
  dsimp only
  rw [if_pos (Int.natCast_nonneg y), Int.tdiv_eq_ediv_of_nonneg (Int.natCast_nonneg y)]
  omega

/-- A date's day count is its number, from the epoch's on. -/
theorem daysFromCivil_number (d : Date) :
    daysFromCivil d.year d.month d.day = (d.number : ℤ) - Date.epoch.number := by
  rw [daysFromCivil_eq d.day d.year_pos d.month_pos d.month_le, Date.epoch_number, Date.number]
  have hpos := d.day_pos
  omega

/-! ### The day of an era -/

/-- A day of an era by the centuries, the leap cycles and the years before it.  A year has a day 365
when it ends a leap cycle, and the last cycle of a century only in the last century. -/
theorem exists_yearOfEra {dayOfEra : ℕ} (h : dayOfEra < 146097) :
    ∃ c q t u, c ≤ 3 ∧ q ≤ 24 ∧ t ≤ 3 ∧ dayOfEra = 36524 * c + 1461 * q + 365 * t + u ∧
      (u < 365 ∨ u = 365 ∧ t = 3 ∧ (q = 24 → c = 3)) := by
  refine ⟨min (dayOfEra / 36524) 3, (dayOfEra - 36524 * min (dayOfEra / 36524) 3) / 1461,
    min ((dayOfEra - 36524 * min (dayOfEra / 36524) 3) % 1461 / 365) 3,
    (dayOfEra - 36524 * min (dayOfEra / 36524) 3) % 1461 -
      365 * min ((dayOfEra - 36524 * min (dayOfEra / 36524) 3) % 1461 / 365) 3, ?_⟩
  omega

/-- **The year of an era**: the quotients take out the leap days that came before it. -/
theorem yearOfEra_eq {d c q t u : ℕ} (hd : d = 36524 * c + 1461 * q + 365 * t + u) (hc : c ≤ 3)
    (hq : q ≤ 24) (ht : t ≤ 3) (hu : u < 365 ∨ u = 365 ∧ t = 3 ∧ (q = 24 → c = 3)) :
    (d - d / 1460 + d / 36524 - d / 146096) / 365 = 100 * c + 4 * q + t := by
  by_cases hlast : d = 146096
  · -- only the last day of an era reaches the last quotient
    obtain ⟨rfl, rfl, rfl⟩ : c = 3 ∧ q = 24 ∧ t = 3 := by omega
    rw [hlast]
  · have hcentury : d / 36524 = c := by omega
    have hera : d / 146096 = 0 := by omega
    have hcycle : d / 1460 = 25 * c + q + (24 * c + q + 365 * t + u) / 1460 := by omega
    have hearly : (24 * c + q + 365 * t + u) / 1460 ≤ u := by omega
    have hwhole : u < 365 + (24 * c + q + 365 * t + u) / 1460 := by omega
    rw [hcentury, hera, hcycle]
    generalize (24 * c + q + 365 * t + u) / 1460 = e at hearly hwhole
    omega

/-- The year and the day of it that `civilFromDays` starts from. -/
theorem exists_marchDate {dayOfEra : ℕ} (h : dayOfEra < 146097) :
    ∃ y u, y < 400 ∧ u ≤ 365 ∧
      (dayOfEra - dayOfEra / 1460 + dayOfEra / 36524 - dayOfEra / 146096) / 365 = y ∧
      dayOfEra = 365 * y + y / 4 - y / 100 + u ∧
      (u = 365 → (y + 1) % 4 = 0 ∧ ((y + 1) % 100 ≠ 0 ∨ (y + 1) % 400 = 0)) := by
  obtain ⟨c, q, t, u, hc, hq, ht, hd, hu⟩ := exists_yearOfEra h
  have hcycles : (100 * c + 4 * q + t) / 4 = 25 * c + q := by omega
  have hcenturies : (100 * c + 4 * q + t) / 100 = c := by omega
  refine ⟨100 * c + 4 * q + t, u, by omega, by omega, yearOfEra_eq hd hc hq ht hu, ?_, ?_⟩
  · rw [hcycles, hcenturies]
    omega
  · omega

/-- **The month and the day**: every day from March on is one of the month the quotient gives. -/
theorem exists_monthDay {u : ℕ} (h : u ≤ 365) :
    ∃ m day, (5 * u + 2) / 153 = m ∧ m ≤ 11 ∧ u - (153 * m + 2) / 5 + 1 = day ∧
      (153 * m + 2) / 5 + day = u + 1 ∧ 1 ≤ day ∧
      ∀ year, day ≤ daysInMonth year (if m < 10 then m + 3 else m - 9) ∨
        u = 365 ∧ isLeap year = false := by
  refine ⟨(5 * u + 2) / 153, u - (153 * ((5 * u + 2) / 153) + 2) / 5 + 1, rfl, by omega, rfl,
    by omega, by omega, ?_⟩
  intro year
  unfold daysInMonth
  have hm : (5 * u + 2) / 153 ≤ 11 := by omega
  generalize hmonth : (5 * u + 2) / 153 = m at hm
  interval_cases m <;> cases isLeap year <;> simp <;> omega

/-- **`civilFromDays` gives a date of the calendar**, the one whose number it was given. -/
theorem exists_civilFromDays (days : ℕ) :
    ∃ d : Date, civilFromDays days = (d.year, d.month, d.day) ∧
      d.number = days + Date.epoch.number := by
  have hlt : (days + 719468) % 146097 < 146097 := Nat.mod_lt _ (by omega)
  obtain ⟨y, u, hy, hu, hyear, hday, hleap⟩ := exists_marchDate hlt
  obtain ⟨m, day, hm, hle, hdom, hsum, hpos, hlast⟩ := exists_monthDay hu
  have hsub : (days + 719468) % 146097 - (365 * y + y / 4 - y / 100) = u := by omega
  have hera : 4 ≤ (days + 719468) / 146097 := by omega
  obtain ⟨month, hmonth⟩ : ∃ month, (if m < 10 then m + 3 else m - 9) = month := ⟨_, rfl⟩
  obtain ⟨year, hyears⟩ :
      ∃ year, y + (days + 719468) / 146097 * 400 + (if month ≤ 2 then 1 else 0) = year := ⟨_, rfl⟩
  have hcivil : civilFromDays days = (year, month, day) := by
    unfold civilFromDays
    dsimp only
    rw [hyear, hsub, hm, hdom, hmonth, hyears]
  have hmarch : marchYear year month = y + (days + 719468) / 146097 * 400 := by
    unfold marchYear
    rw [← hyears]
    split_ifs <;> omega
  have hmonths : marchMonth month = m := by
    unfold marchMonth
    rw [← hmonth]
    split_ifs <;> omega
  have hbounds : 1 ≤ month ∧ month ≤ 12 := by
    rw [← hmonth]
    split_ifs <;> omega
  have hfits : day ≤ daysInMonth year month := by
    rcases hmonth ▸ hlast year with hfits | ⟨hend, hnot⟩
    · exact hfits
    · refine absurd (isLeap_iff.mpr ?_) (by rw [hnot]; exact Bool.false_ne_true)
      obtain rfl : m = 11 := by omega
      obtain rfl : month = 2 := hmonth.symm
      rw [if_pos le_rfl] at hyears
      have hcycle := hleap hend
      omega
  refine ⟨⟨year, month, day, by omega, hbounds.1, hbounds.2, hpos, hfits⟩, hcivil, ?_⟩
  have hbefore := daysBefore_march (show 1 ≤ year by omega) hbounds.1 hbounds.2
  rw [hmarch, hmonths, daysBeforeYear_era _ y hy] at hbefore
  rw [Date.epoch_number, Date.number]
  dsimp only
  omega

/-- The last day of the year 9999. -/
def lastDay : ℕ := 2932896

/-- Up to that day a year has four digits. -/
theorem year_le_of_le_lastDay {d : Date} {days : ℕ} (hnumber : d.number = days + Date.epoch.number)
    (h : days ≤ lastDay) : d.year ≤ 9999 := by
  by_contra hlate
  have hmono : daysBeforeYear (9999 + 1) ≤ daysBeforeYear d.year :=
    daysBeforeYear_mono (Nat.lt_of_not_le hlate)
  rw [daysBeforeYear_eq] at hmono
  rw [Date.epoch_number, Date.number] at hnumber
  unfold lastDay at h
  omega

/-! ### In machine integers -/

/-- An unsigned 64-bit sum, where it does not wrap. -/
def addU64 (a b : ℕ) : Option ℕ := if a + b ≤ u64Max then some (a + b) else none

/-- An unsigned 64-bit difference, where it does not wrap. -/
def subU64 (a b : ℕ) : Option ℕ := if b ≤ a then some (a - b) else none

/-- An unsigned 64-bit product, where it does not wrap. -/
def mulU64 (a b : ℕ) : Option ℕ := if a * b ≤ u64Max then some (a * b) else none

/-- A signed 64-bit result, where it does not wrap. -/
def inI64 (a : ℤ) : Option ℤ := if -2 ^ 63 ≤ a ∧ a < 2 ^ 63 then some a else none

theorem addU64_eq {a b : ℕ} (h : a + b ≤ u64Max) : addU64 a b = some (a + b) := if_pos h

theorem subU64_eq {a b : ℕ} (h : b ≤ a) : subU64 a b = some (a - b) := if_pos h

theorem mulU64_eq {a b : ℕ} (h : a * b ≤ u64Max) : mulU64 a b = some (a * b) := if_pos h

theorem inI64_eq {a : ℤ} (h : -2 ^ 63 ≤ a ∧ a < 2 ^ 63) : inI64 a = some a := if_pos h

theorem bind_of_eq {α β : Type} {x : Option α} {f : α → Option β} {a : α} {b : β} (hx : x = some a)
    (hf : f a = some b) : (x >>= f) = some b := by
  rw [hx]
  exact hf

/-- `civilFromDays` one operation at a time, each in 64 unsigned bits. -/
def civilFromDaysChecked (days : ℕ) : Option (ℕ × ℕ × ℕ) := do
  let eraDays ← addU64 days 719468
  let era := eraDays / 146097
  let dayOfEra := eraDays % 146097
  let lessCycles ← subU64 dayOfEra (dayOfEra / 1460)
  let withCenturies ← addU64 lessCycles (dayOfEra / 36524)
  let corrected ← subU64 withCenturies (dayOfEra / 146096)
  let yearOfEra := corrected / 365
  let commonDays ← mulU64 365 yearOfEra
  let withCycles ← addU64 commonDays (yearOfEra / 4)
  let before ← subU64 withCycles (yearOfEra / 100)
  let dayOfYear ← subU64 dayOfEra before
  let fiveDays ← mulU64 5 dayOfYear
  let shiftedMonth := (← addU64 fiveDays 2) / 153
  let monthDays ← mulU64 153 shiftedMonth
  let dayOfMonth ← subU64 dayOfYear ((← addU64 monthDays 2) / 5)
  let day ← addU64 dayOfMonth 1
  let month ← (if shiftedMonth < 10 then addU64 shiftedMonth 3 else subU64 shiftedMonth 9)
  let eraYears ← mulU64 era 400
  let marchYear ← addU64 yearOfEra eraYears
  let year ← addU64 marchYear (if month ≤ 2 then 1 else 0)
  return (year, month, day)

/-- `daysFromCivil` one operation at a time, each in 64 signed bits. -/
def daysFromCivilChecked (year month day : ℤ) : Option ℤ := do
  let year ← (if month ≤ 2 then inI64 (year - 1) else some year)
  let start ← (if 0 ≤ year then some year else inI64 (year - 399))
  let era := start.tdiv 400
  let eraYears ← inI64 (era * 400)
  let yearOfEra ← inI64 (year - eraYears)
  let shiftedMonth ← (if 2 < month then inI64 (month - 3) else inI64 (month + 9))
  let monthDays ← inI64 (153 * shiftedMonth)
  let toDay ← inI64 ((← inI64 (monthDays + 2)).tdiv 5 + day)
  let dayOfYear ← inI64 (toDay - 1)
  let commonDays ← inI64 (yearOfEra * 365)
  let withCycles ← inI64 (commonDays + yearOfEra.tdiv 4)
  let before ← inI64 (withCycles - yearOfEra.tdiv 100)
  let dayOfEra ← inI64 (before + dayOfYear)
  let eraDays ← inI64 (era * 146097)
  inI64 ((← inI64 (eraDays + dayOfEra)) - 719468)

/-- **No step wraps** on the way to a date. -/
theorem civilFromDaysChecked_eq {days : ℕ} (h : days + 719468 ≤ u64Max) :
    civilFromDaysChecked days = some (civilFromDays days) := by
  have hlt : (days + 719468) % 146097 < 146097 := Nat.mod_lt _ (by omega)
  have hmax : u64Max = 18446744073709551615 := rfl
  obtain ⟨y, u, hy, hu, hyear, hday, -⟩ := exists_marchDate hlt
  obtain ⟨m, day, hm, hle, hdom, hsum, hpos, -⟩ := exists_monthDay hu
  have hsub : (days + 719468) % 146097 - (365 * y + y / 4 - y / 100) = u := by omega
  have hcivil : civilFromDays days =
      (y + (days + 719468) / 146097 * 400 +
        (if (if m < 10 then m + 3 else m - 9) ≤ 2 then 1 else 0),
        (if m < 10 then m + 3 else m - 9), day) := by
    unfold civilFromDays
    dsimp only
    rw [hyear, hsub, hm, hdom]
  rw [hcivil]
  refine bind_of_eq (addU64_eq h) ?_
  generalize days + 719468 = e at *
  dsimp only
  refine bind_of_eq (subU64_eq (by omega)) (bind_of_eq (addU64_eq (by omega)) ?_)
  refine bind_of_eq (subU64_eq (by omega)) ?_
  rw [hyear]
  refine bind_of_eq (mulU64_eq (by omega)) (bind_of_eq (addU64_eq (by omega)) ?_)
  refine bind_of_eq (subU64_eq (by omega)) (bind_of_eq (subU64_eq (by omega)) ?_)
  rw [hsub]
  refine bind_of_eq (mulU64_eq (by omega)) (bind_of_eq (addU64_eq (by omega)) ?_)
  rw [hm]
  refine bind_of_eq (mulU64_eq (by omega)) (bind_of_eq (addU64_eq (by omega)) ?_)
  refine bind_of_eq (subU64_eq (by omega)) (bind_of_eq (addU64_eq (by omega)) ?_)
  rw [hdom]
  have hmonth : (if m < 10 then addU64 m 3 else subU64 m 9) =
      some (if m < 10 then m + 3 else m - 9) := by
    split_ifs
    · exact addU64_eq (by omega)
    · exact subU64_eq (by omega)
  refine bind_of_eq hmonth ?_
  refine bind_of_eq (mulU64_eq (by omega)) (bind_of_eq (addU64_eq (by omega)) ?_)
  refine bind_of_eq (addU64_eq ?_) rfl
  split_ifs <;> omega

/-- **No step wraps** on the way to a day count, for a date of four digits. -/
theorem daysFromCivilChecked_eq {year month day : ℤ} (hyear : 1 ≤ year ∧ year ≤ 9999)
    (hmonth : 1 ≤ month ∧ month ≤ 12) (hday : 1 ≤ day ∧ day ≤ 31) :
    daysFromCivilChecked year month day = some (daysFromCivil year month day) := by
  obtain ⟨y, hy⟩ : ∃ y, (if month ≤ 2 then year - 1 else year) = y := ⟨_, rfl⟩
  obtain ⟨m, hm⟩ : ∃ m, (if 2 < month then month - 3 else month + 9) = m := ⟨_, rfl⟩
  have hyears : 0 ≤ y ∧ y ≤ 9999 := by
    rw [← hy]
    split_ifs <;> omega
  have hmonths : 0 ≤ m ∧ m ≤ 11 := by
    rw [← hm]
    split_ifs <;> omega
  have hstart : (if month ≤ 2 then inI64 (year - 1) else some year) = some y := by
    rw [← hy]
    split_ifs
    · exact inI64_eq (by omega)
    · rfl
  have hshift : (if 2 < month then inI64 (month - 3) else inI64 (month + 9)) = some m := by
    rw [← hm]
    split_ifs <;> exact inI64_eq (by omega)
  unfold daysFromCivilChecked daysFromCivil
  rw [hy, hm]
  refine bind_of_eq hstart ?_
  refine bind_of_eq (if_pos hyears.1) ?_
  dsimp only
  rw [if_pos hyears.1, Int.tdiv_eq_ediv_of_nonneg hyears.1]
  refine bind_of_eq (inI64_eq (by omega)) (bind_of_eq (inI64_eq (by omega)) ?_)
  refine bind_of_eq hshift ?_
  refine bind_of_eq (inI64_eq (by omega)) (bind_of_eq (inI64_eq (by omega)) ?_)
  have hera : 0 ≤ y - y / 400 * 400 ∧ y - y / 400 * 400 < 400 := by omega
  have hpattern : 0 ≤ 153 * m + 2 := by omega
  rw [Int.tdiv_eq_ediv_of_nonneg hpattern]
  refine bind_of_eq (inI64_eq (by omega)) (bind_of_eq (inI64_eq (by omega)) ?_)
  rw [Int.tdiv_eq_ediv_of_nonneg hera.1, Int.tdiv_eq_ediv_of_nonneg hera.1]
  refine bind_of_eq (inI64_eq (by omega)) (bind_of_eq (inI64_eq (by omega)) ?_)
  refine bind_of_eq (inI64_eq (by omega)) (bind_of_eq (inI64_eq (by omega)) ?_)
  refine bind_of_eq (inI64_eq (by omega)) (bind_of_eq (inI64_eq (by omega)) ?_)
  exact inI64_eq (by omega)

end ObbyClient.ServerTime

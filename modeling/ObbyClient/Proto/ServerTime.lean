import ObbyClient.Lib.Text

/-!
# The `server-time` tag

The tag carries an ISO 8601 instant in UTC; reading it gives milliseconds since the Unix epoch, and
writing one gives three fractional digits.
-/

namespace ObbyClient.ServerTime

/-- The milliseconds of a fraction, however many digits it has. -/
def millisFromFraction (fraction : Str) : Option ℕ :=
  if !fraction.all (fun c => '0' ≤ c ∧ c ≤ '9') then none
  else
    let digits := fraction.take 3
    (parseUnsigned 65535 digits).map fun value =>
      match digits.length with
      | 0 => 0
      | 1 => value * 100
      | 2 => value * 10
      | _ => value

/-- Days from the Unix epoch to a calendar date. -/
def daysFromCivil (year month day : ℤ) : ℤ :=
  let year := if month ≤ 2 then year - 1 else year
  let era := (if 0 ≤ year then year else year - 399).tdiv 400
  let yearOfEra := year - era * 400
  let shiftedMonth := if 2 < month then month - 3 else month + 9
  let dayOfYear := (153 * shiftedMonth + 2) / 5 + day - 1
  let dayOfEra := yearOfEra * 365 + yearOfEra / 4 - yearOfEra / 100 + dayOfYear
  era * 146097 + dayOfEra - 719468

/-- A calendar date from days since the Unix epoch. -/
def civilFromDays (days : ℕ) : ℕ × ℕ × ℕ :=
  let eraDays := days + 719468
  let era := eraDays / 146097
  let dayOfEra := eraDays % 146097
  let yearOfEra :=
    (dayOfEra - dayOfEra / 1460 + dayOfEra / 36524 - dayOfEra / 146096) / 365
  let dayOfYear := dayOfEra - (365 * yearOfEra + yearOfEra / 4 - yearOfEra / 100)
  let shiftedMonth := (5 * dayOfYear + 2) / 153
  let day := dayOfYear - (153 * shiftedMonth + 2) / 5 + 1
  let month := if shiftedMonth < 10 then shiftedMonth + 3 else shiftedMonth - 9
  let year := yearOfEra + era * 400 + (if month ≤ 2 then 1 else 0)
  (year, month, day)

/-- The calendar date in front of the `T`. -/
def parseDate (date : Str) : Option (ℤ × ℕ × ℕ) :=
  match date.splitOn '-' with
  | [year, month, day] => do
      let year ← parseI64 year
      let month ← parseUnsigned u32Max month
      let day ← parseUnsigned u32Max day
      if ¬(1 ≤ year ∧ year ≤ 9999) ∨ ¬(1 ≤ month ∧ month ≤ 12) ∨ ¬(1 ≤ day ∧ day ≤ 31) then none
      else some (year, month, day)
  | _ => none

/-- The seconds of the clock. -/
def parseClock (clock : Str) : Option ℕ :=
  match clock.splitOn ':' with
  | [hour, minute, second] => do
      let hour ← parseUnsigned u64Max hour
      let minute ← parseUnsigned u64Max minute
      let second ← parseUnsigned u64Max second
      if 23 < hour ∨ 59 < minute ∨ 60 < second then none
      else some (hour * 3600 + minute * 60 + second)
  | _ => none

/-- Read a `server-time` value as milliseconds since the Unix epoch.  Nothing that is not a
well-formed UTC instant at or after 1970 is one. -/
def parse (value : Str) : Option ℕ := do
  let (date, rest) ← splitOnce 'T' value
  let time ← if rest.getLast? = some 'Z' then some rest.dropLast else none
  let (year, month, day) ← parseDate date
  let (clock, fraction) := (splitOnce '.' time).getD (time, "0")
  let second ← parseClock clock
  let millis ← millisFromFraction fraction
  let total := (daysFromCivil year month day * 86400 + second) * 1000 + millis
  if total < 0 then none else some total.toNat

/-- Write milliseconds since the Unix epoch as a `server-time` value. -/
def format (unixMs : ℕ) : Str :=
  let seconds := unixMs / 1000
  let millis := unixMs % 1000
  let secondOfDay := seconds % 86400
  let (year, month, day) := civilFromDays (seconds / 86400)
  padZeros 4 (natToStr year) ++ '-' :: padZeros 2 (natToStr month) ++
    '-' :: padZeros 2 (natToStr day) ++
    'T' :: padZeros 2 (natToStr (secondOfDay / 3600)) ++
    ':' :: padZeros 2 (natToStr (secondOfDay / 60 % 60)) ++
    ':' :: padZeros 2 (natToStr (secondOfDay % 60)) ++
    '.' :: padZeros 3 (natToStr millis) ++ ['Z']

example : parse "2026-09-06T10:00:00.000Z" = some 1788688800000 := by decide

example : parse "2026-09-06T10:00:00.5Z" = some 1788688800500 := by decide

end ObbyClient.ServerTime

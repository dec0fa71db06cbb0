import ObbyClient.Lib.Decimal
import ObbyClient.Proto.Calendar

/-!
# Which texts are instants

A `server-time` value is read field by field, so what is accepted and what it means can be said
field by field: six numbers with their separators, and a fraction that may be missing.

* `parse_eq_some` — what is read, exactly;
* `parse_format` — an instant that was written is read back.
-/

namespace ObbyClient.ServerTime

open Gregorian

/-! ### The parts -/

theorem not_mem_of_unsigned {s : Str} {n : ℕ} (h : IsDecimal (unsigned s) n) {c : Char}
    (hc : c.isDigit = false) (hplus : c ≠ '+') : c ∉ s := by
  unfold unsigned at h
  by_cases hhead : s.head? = some '+'
  · rw [if_pos hhead] at h
    obtain ⟨rest, rfl⟩ := List.head?_eq_some_iff.mp hhead
    rw [List.mem_cons, not_or]
    exact ⟨hplus, h.not_mem hc⟩
  · rw [if_neg hhead] at h
    exact h.not_mem hc

/-- Two cuts at a separator that is in no piece. -/
theorem splitOn_three {α : Type} [DecidableEq α] {sep : α} {s a b c : List α} :
    s.splitOn sep = [a, b, c] ↔
      s = a ++ sep :: (b ++ sep :: c) ∧ sep ∉ a ∧ sep ∉ b ∧ sep ∉ c := by
  constructor
  · intro h
    have hs : [sep].intercalate (s.splitOn sep) = s := List.intercalate_splitOn sep
    rw [h] at hs
    refine ⟨hs.symm.trans (by simp), ?_, ?_, ?_⟩ <;>
      refine not_mem_of_mem_splitOn (s := s) ?_ <;> simp [h]
  · rintro ⟨rfl, ha, hb, hc⟩
    have hsplit : ([sep].intercalate [a, b, c]).splitOn sep = [a, b, c] :=
      List.splitOn_intercalate sep (by simp [ha, hb, hc]) (by simp)
    simpa using hsplit

/-- **What the date is read from.** -/
theorem parseDate_eq_some {date : Str} {year : ℤ} {month day : ℕ} :
    parseDate date = some (year, month, day) ↔
      ∃ y m d, ∃ n : ℕ, date = y ++ '-' :: (m ++ '-' :: d) ∧ year = n ∧
        IsDecimal (unsigned y) n ∧ IsDecimal (unsigned m) month ∧ IsDecimal (unsigned d) day ∧
        (1 ≤ n ∧ n ≤ 9999) ∧ (1 ≤ month ∧ month ≤ 12) ∧ (1 ≤ day ∧ day ≤ 31) := by
  have hmax : u32Max = 4294967295 := rfl
  constructor
  · intro h
    unfold parseDate at h
    split at h
    · rename_i y m d hsplit
      obtain ⟨ny, hy, h⟩ := Option.bind_eq_some_iff.mp h
      obtain ⟨nm, hm, h⟩ := Option.bind_eq_some_iff.mp h
      obtain ⟨nd, hd, h⟩ := Option.bind_eq_some_iff.mp h
      split at h
      · cases h
      · rename_i hrange
        cases h
        rw [not_or, not_or, not_not, not_not, not_not] at hrange
        obtain ⟨n, rfl, hn, -⟩ := (parseI64_eq_some hrange.1.1).mp hy
        exact ⟨y, m, d, n, (splitOn_three.mp hsplit).1, rfl, hn, (parseUnsigned_eq_some.mp hm).1,
          (parseUnsigned_eq_some.mp hd).1, ⟨by omega, by omega⟩, hrange.2⟩
    · cases h
  · rintro ⟨y, m, d, n, rfl, rfl, hy, hm, hd, hyear, hmonth, hday⟩
    have hsplit : (y ++ '-' :: (m ++ '-' :: d)).splitOn '-' = [y, m, d] :=
      splitOn_three.mpr ⟨rfl, not_mem_of_unsigned hy rfl (by decide),
        not_mem_of_unsigned hm rfl (by decide), not_mem_of_unsigned hd rfl (by decide)⟩
    have hy' : parseI64 y = some (n : ℤ) := (parseI64_eq_some (by omega)).mpr ⟨n, rfl, hy, by omega⟩
    have hm' : parseUnsigned u32Max m = some month := parseUnsigned_eq_some.mpr ⟨hm, by omega⟩
    have hd' : parseUnsigned u32Max d = some day := parseUnsigned_eq_some.mpr ⟨hd, by omega⟩
    unfold parseDate
    rw [hsplit]
    refine bind_of_eq hy' (bind_of_eq hm' (bind_of_eq hd' (if_neg ?_)))
    omega

/-- **What the clock is read from.** -/
theorem parseClock_eq_some {clock : Str} {seconds : ℕ} :
    parseClock clock = some seconds ↔
      ∃ h m s hour minute second, clock = h ++ ':' :: (m ++ ':' :: s) ∧
        IsDecimal (unsigned h) hour ∧ IsDecimal (unsigned m) minute ∧
          IsDecimal (unsigned s) second ∧
        hour ≤ 23 ∧ minute ≤ 59 ∧ second ≤ 60 ∧ seconds = hour * 3600 + minute * 60 + second := by
  have hmax : u64Max = 18446744073709551615 := rfl
  constructor
  · intro hclock
    unfold parseClock at hclock
    split at hclock
    · rename_i h m s hsplit
      obtain ⟨hour, hh, hclock⟩ := Option.bind_eq_some_iff.mp hclock
      obtain ⟨minute, hm, hclock⟩ := Option.bind_eq_some_iff.mp hclock
      obtain ⟨second, hs, hclock⟩ := Option.bind_eq_some_iff.mp hclock
      split at hclock
      · cases hclock
      · cases hclock
        exact ⟨h, m, s, hour, minute, second, (splitOn_three.mp hsplit).1,
          (parseUnsigned_eq_some.mp hh).1, (parseUnsigned_eq_some.mp hm).1,
          (parseUnsigned_eq_some.mp hs).1, by omega, by omega, by omega, rfl⟩
    · cases hclock
  · rintro ⟨h, m, s, hour, minute, second, rfl, hh, hm, hs, hhour, hminute, hsecond, rfl⟩
    have hsplit : (h ++ ':' :: (m ++ ':' :: s)).splitOn ':' = [h, m, s] :=
      splitOn_three.mpr ⟨rfl, not_mem_of_unsigned hh rfl (by decide),
        not_mem_of_unsigned hm rfl (by decide), not_mem_of_unsigned hs rfl (by decide)⟩
    have hh' : parseUnsigned u64Max h = some hour := parseUnsigned_eq_some.mpr ⟨hh, by omega⟩
    have hm' : parseUnsigned u64Max m = some minute := parseUnsigned_eq_some.mpr ⟨hm, by omega⟩
    have hs' : parseUnsigned u64Max s = some second := parseUnsigned_eq_some.mpr ⟨hs, by omega⟩
    unfold parseClock
    rw [hsplit]
    refine bind_of_eq hh' (bind_of_eq hm' (bind_of_eq hs' (if_neg ?_)))
    omega

/-- The milliseconds of a fraction of a second, cut off after the third digit. -/
def fractionMillis (fraction : Str) : ℕ :=
  Nat.ofDigitChars 10 fraction 0 * 1000 / 10 ^ fraction.length

theorem fractionMillis_lt {fraction : Str} (h : fraction.all Char.isDigit = true) :
    fractionMillis fraction < 1000 := by
  have hlt := ofDigitChars_lt h
  unfold fractionMillis
  rw [Nat.div_lt_iff_lt_mul (pow_pos (by omega) _)]
  omega

/-- Digits after the third do not count. -/
theorem fractionMillis_append {digits more : Str} (hlen : digits.length = 3)
    (h : more.all Char.isDigit = true) :
    fractionMillis (digits ++ more) = Nat.ofDigitChars 10 digits 0 := by
  have hlt := ofDigitChars_lt h
  have hvalue : Nat.ofDigitChars 10 (digits ++ more) 0 =
      10 ^ more.length * Nat.ofDigitChars 10 digits 0 + Nat.ofDigitChars 10 more 0 := by
    rw [Nat.ofDigitChars_append, Nat.ofDigitChars_eq_ofDigitChars_zero]
  have hpower : 10 ^ (digits ++ more).length = 10 ^ more.length * 1000 := by
    rw [List.length_append, hlen, Nat.add_comm, pow_add]
    rfl
  unfold fractionMillis
  rw [hpower, Nat.mul_div_mul_right _ _ (by omega), hvalue,
    Nat.mul_add_div (Nat.pow_pos (by decide)), Nat.div_eq_of_lt hlt, Nat.add_zero]

/-- **What the fraction is read from.** -/
theorem millisFromFraction_eq_some {fraction : Str} {millis : ℕ} :
    millisFromFraction fraction = some millis ↔
      fraction ≠ [] ∧ fraction.all Char.isDigit = true ∧ fractionMillis fraction = millis := by
  have hdigit : fraction.all (fun c => decide ('0' ≤ c ∧ c ≤ '9')) = fraction.all Char.isDigit := by
    congr 1
    funext c
    rw [Char.isDigit, Bool.decide_and]
    rfl
  unfold millisFromFraction
  rw [hdigit]
  by_cases hall : fraction.all Char.isDigit = true
  swap
  · rw [Bool.eq_false_iff.mpr hall]
    exact iff_of_false nofun fun h => nomatch h.2.1
  rw [hall, Bool.not_true, if_neg Bool.false_ne_true]
  dsimp only
  by_cases hnil : fraction = []
  · subst hnil
    exact iff_of_false nofun fun h => h.1 rfl
  have htake : (fraction.take 3).all Char.isDigit = true := by
    rw [List.all_eq_true] at hall ⊢
    exact fun c hc => hall c (List.mem_of_mem_take hc)
  have hne : fraction.take 3 ≠ [] := by simpa using hnil
  have hlt := ofDigitChars_lt htake
  have hlen : 10 ^ (fraction.take 3).length ≤ 10 ^ 3 :=
    Nat.pow_le_pow_right (by decide) (List.length_take_le 3 fraction)
  have hread : parseUnsigned 65535 (fraction.take 3) =
      some (Nat.ofDigitChars 10 (fraction.take 3) 0) := by
    have hdec : IsDecimal (fraction.take 3) (Nat.ofDigitChars 10 (fraction.take 3) 0) :=
      ⟨hne, htake, rfl⟩
    rw [parseUnsigned_eq_some, hdec.unsigned_eq]
    exact ⟨hdec, by omega⟩
  rw [hread, Option.map_some, Option.some.injEq, and_iff_right hnil, and_iff_right rfl]
  -- up to three digits are scaled, and of more the first three are taken
  refine iff_of_eq (congrArg (· = millis) ?_)
  rcases fraction with _ | ⟨a, _ | ⟨b, _ | ⟨c, more⟩⟩⟩
  · exact absurd rfl hnil
  · show _ = Nat.ofDigitChars 10 [a] 0 * 1000 / 10 ^ 1
    rw [pow_one, show (1000 : ℕ) = 100 * 10 from rfl, ← Nat.mul_assoc,
      Nat.mul_div_cancel _ (by omega)]
    rfl
  · show _ = Nat.ofDigitChars 10 [a, b] 0 * 1000 / 10 ^ 2
    rw [show (1000 : ℕ) = 10 * 10 ^ 2 from rfl, ← Nat.mul_assoc, Nat.mul_div_cancel _ (by omega)]
    rfl
  · rw [show a :: b :: c :: more = [a, b, c] ++ more from rfl, fractionMillis_append rfl ?_]
    · rfl
    · rw [List.all_eq_true] at hall ⊢
      exact fun d hd => hall d (by simp [hd])

/-! ### The whole value -/

/-- The fields of an instant as they are written. -/
structure Fields where
  year : Str
  month : Str
  day : Str
  hour : Str
  minute : Str
  second : Str
  fraction : Option Str

/-- The numbers that the fields are. -/
structure Numbers where
  year : ℕ
  month : ℕ
  day : ℕ
  hour : ℕ
  minute : ℕ
  second : ℕ
  millis : ℕ

namespace Fields

/-- The fields with their separators. -/
def text (f : Fields) : Str :=
  f.year ++ '-' :: (f.month ++ '-' :: f.day) ++ 'T' ::
    (f.hour ++ ':' :: (f.minute ++ ':' :: f.second) ++
      f.fraction.elim [] (fun digits => '.' :: digits) ++
      ['Z'])

/-- The fields without the plus signs of their numbers. -/
def unsigned (f : Fields) : Fields where
  year := ObbyClient.unsigned f.year
  month := ObbyClient.unsigned f.month
  day := ObbyClient.unsigned f.day
  hour := ObbyClient.unsigned f.hour
  minute := ObbyClient.unsigned f.minute
  second := ObbyClient.unsigned f.second
  fraction := f.fraction

/-- Every field is digits and nothing else, and these are the numbers. -/
structure Spells (f : Fields) (n : Numbers) : Prop where
  year : IsDecimal f.year n.year
  month : IsDecimal f.month n.month
  day : IsDecimal f.day n.day
  hour : IsDecimal f.hour n.hour
  minute : IsDecimal f.minute n.minute
  second : IsDecimal f.second n.second
  fraction : f.fraction.elim (n.millis = 0) fun digits =>
    digits ≠ [] ∧ digits.all Char.isDigit = true ∧ fractionMillis digits = n.millis

end Fields

namespace Numbers

/-- The bounds that are checked. -/
structure InRange (n : Numbers) : Prop where
  year : 1 ≤ n.year ∧ n.year ≤ 9999
  month : 1 ≤ n.month ∧ n.month ≤ 12
  day : 1 ≤ n.day ∧ n.day ≤ 31
  hour : n.hour ≤ 23
  minute : n.minute ≤ 59
  second : n.second ≤ 60

/-- The milliseconds that are computed. -/
def total (n : Numbers) : ℤ :=
  (daysFromCivil n.year n.month n.day * 86400 + (n.hour * 3600 + n.minute * 60 + n.second : ℕ)) *
    1000 +
    n.millis

end Numbers

theorem dot_not_mem {h m s : Str} {hour minute second : ℕ} (hh : IsDecimal (unsigned h) hour)
    (hm : IsDecimal (unsigned m) minute) (hs : IsDecimal (unsigned s) second) :
    '.' ∉ h ++ ':' :: (m ++ ':' :: s) := by
  have hh' := not_mem_of_unsigned hh (c := '.') rfl (by decide)
  have hm' := not_mem_of_unsigned hm (c := '.') rfl (by decide)
  have hs' := not_mem_of_unsigned hs (c := '.') rfl (by decide)
  simp [hh', hm', hs']

/-- **The clock and its fraction**, whether the fraction is there or not. -/
theorem readTime_eq_some {time : Str} {seconds millis : ℕ} :
    (parseClock ((splitOnce '.' time).getD (time, "0")).1 = some seconds ∧
        millisFromFraction ((splitOnce '.' time).getD (time, "0")).2 = some millis) ↔
      ∃ (clock : Str) (fraction : Option Str),
        time = clock ++ fraction.elim [] (fun digits => '.' :: digits) ∧
          parseClock clock = some seconds ∧
          fraction.elim (millis = 0) fun digits =>
            digits ≠ [] ∧ digits.all Char.isDigit = true ∧ fractionMillis digits = millis := by
  have hdot : ∀ {clock : Str}, parseClock clock = some seconds → '.' ∉ clock := by
    intro clock hclock
    obtain ⟨h, m, s, hour, minute, second, rfl, hh, hm, hs, -⟩ := parseClock_eq_some.mp hclock
    exact dot_not_mem hh hm hs
  constructor
  · rintro ⟨hclock, hmillis⟩
    cases hcut : splitOnce '.' time with
    | none =>
        rw [hcut] at hclock hmillis
        refine ⟨time, none, (List.append_nil time).symm, hclock, ?_⟩
        have hzero : some 0 = some millis := hmillis
        exact (Option.some.inj hzero).symm
    | some cut =>
        rw [hcut] at hclock hmillis
        refine ⟨cut.1, some cut.2, (splitOnce_eq_some.mp hcut).1, hclock, ?_⟩
        exact millisFromFraction_eq_some.mp hmillis
  · rintro ⟨clock, fraction, rfl, hclock, hfraction⟩
    cases fraction with
    | none =>
        change millis = 0 at hfraction
        subst hfraction
        rw [Option.elim_none, List.append_nil, splitOnce_eq_none.mpr (hdot hclock)]
        exact ⟨hclock, rfl⟩
    | some digits =>
        show parseClock ((splitOnce '.' (clock ++ '.' :: digits)).getD _).1 = _ ∧
          millisFromFraction ((splitOnce '.' (clock ++ '.' :: digits)).getD _).2 = _
        rw [splitOnce_append_sep (hdot hclock)]
        exact ⟨hclock, millisFromFraction_eq_some.mpr hfraction⟩

/-- The date is in front of the only `T` there can be before the clock. -/
theorem splitOnce_text {f : Fields} {n : Numbers} (h : f.unsigned.Spells n) :
    splitOnce 'T' f.text = some (f.year ++ '-' :: (f.month ++ '-' :: f.day),
      f.hour ++ ':' :: (f.minute ++ ':' :: f.second) ++
        f.fraction.elim [] (fun digits => '.' :: digits) ++ ['Z']) := by
  refine splitOnce_append_sep ?_ _
  have hy := not_mem_of_unsigned h.year (c := 'T') rfl (by decide)
  have hm := not_mem_of_unsigned h.month (c := 'T') rfl (by decide)
  have hd := not_mem_of_unsigned h.day (c := 'T') rfl (by decide)
  simp [hy, hm, hd]

/-- **What is read**: six numbers in range, each with a plus sign perhaps, and a fraction. -/
theorem parse_eq_some {s : Str} {v : ℕ} :
    parse s = some v ↔
      ∃ (f : Fields) (n : Numbers), f.text = s ∧ f.unsigned.Spells n ∧ n.InRange ∧ n.total = v := by
  constructor
  · intro h
    unfold parse at h
    obtain ⟨⟨date, rest⟩, hcut, h⟩ := Option.bind_eq_some_iff.mp h
    dsimp only at h
    by_cases hlast : rest.getLast? = some 'Z'
    swap
    · rw [if_neg hlast] at h
      cases h
    rw [if_pos hlast] at h
    obtain ⟨time, htime, h⟩ := Option.bind_eq_some_iff.mp h
    cases htime
    obtain ⟨⟨year, month, day⟩, hdate, h⟩ := Option.bind_eq_some_iff.mp h
    obtain ⟨seconds, hclock, h⟩ := Option.bind_eq_some_iff.mp h
    obtain ⟨millis, hmillis, h⟩ := Option.bind_eq_some_iff.mp h
    obtain ⟨ys, ms, ds, ny, rfl, rfl, hys, hms, hds, hyear, hmonth, hday⟩ :=
      parseDate_eq_some.mp hdate
    obtain ⟨clock, fraction, htext, hclock, hfraction⟩ := readTime_eq_some.mp ⟨hclock, hmillis⟩
    obtain ⟨hs, mins, secs, hour, minute, second, rfl, hhs, hmins, hsecs, hhour, hminute, hsecond,
      rfl⟩ := parseClock_eq_some.mp hclock
    refine ⟨⟨ys, ms, ds, hs, mins, secs, fraction⟩, ⟨ny, month, day, hour, minute, second, millis⟩,
      ?_, ⟨hys, hms, hds, hhs, hmins, hsecs, hfraction⟩,
      ⟨hyear, hmonth, hday, hhour, hminute, hsecond⟩, ?_⟩
    · rw [(splitOnce_eq_some.mp hcut).1, ← List.dropLast_append_getLast? 'Z' hlast, htext]
      rfl
    · dsimp only at h
      split at h
      · cases h
      · cases h
        unfold Numbers.total
        dsimp only
        omega
  · rintro ⟨f, n, rfl, hspells, hrange, htotal⟩
    have hdate : parseDate (f.year ++ '-' :: (f.month ++ '-' :: f.day)) =
        some ((n.year : ℤ), n.month, n.day) :=
      parseDate_eq_some.mpr ⟨f.year, f.month, f.day, n.year, rfl, rfl, hspells.year, hspells.month,
        hspells.day, hrange.year, hrange.month, hrange.day⟩
    obtain ⟨hclock, hmillis⟩ := readTime_eq_some.mpr ⟨_, f.fraction, rfl,
      parseClock_eq_some.mpr ⟨f.hour, f.minute, f.second, n.hour, n.minute, n.second, rfl,
        hspells.hour, hspells.minute, hspells.second, hrange.hour, hrange.minute, hrange.second,
          rfl⟩,
      hspells.fraction⟩
    unfold parse
    refine bind_of_eq (splitOnce_text hspells) ?_
    dsimp only
    rw [List.getLast?_concat, if_pos rfl, List.dropLast_concat]
    refine bind_of_eq rfl (bind_of_eq hdate (bind_of_eq hclock (bind_of_eq hmillis ?_)))
    unfold Numbers.total at htotal
    dsimp only
    rw [htotal, if_neg (by omega), Int.toNat_natCast]

/-! ### What is written -/

/-- The last millisecond of the year 9999. -/
def lastMs : ℕ := 253402300799999

/-- The fields that `format` writes. -/
def fieldsOf (d : Date) (unixMs : ℕ) : Fields where
  year := padZeros 4 (natToStr d.year)
  month := padZeros 2 (natToStr d.month)
  day := padZeros 2 (natToStr d.day)
  hour := padZeros 2 (natToStr (unixMs / 1000 % 86400 / 3600))
  minute := padZeros 2 (natToStr (unixMs / 1000 % 86400 / 60 % 60))
  second := padZeros 2 (natToStr (unixMs / 1000 % 86400 % 60))
  fraction := some (padZeros 3 (natToStr (unixMs % 1000)))

theorem format_eq {d : Date} {unixMs : ℕ}
    (h : civilFromDays (unixMs / 1000 / 86400) = (d.year, d.month, d.day)) :
    format unixMs = (fieldsOf d unixMs).text := by
  unfold format
  dsimp only
  rw [h]
  simp [fieldsOf, Fields.text]

theorem length_padZeros_natToStr {width n : ℕ} (hpos : 0 < width) (h : n < 10 ^ width) :
    (padZeros width (natToStr n)).length = width := by
  have hlen : (natToStr n).length ≤ width := (Nat.length_toDigits_le_iff (by decide) hpos).mpr h
  rw [padZeros, List.length_append, List.length_replicate]
  omega

/-- What is written is read back, field by field. -/
theorem parse_fieldsOf {d : Date} {unixMs : ℕ}
    (hnumber : d.number = unixMs / 1000 / 86400 + Date.epoch.number) (hyear : d.year ≤ 9999) :
    parse (fieldsOf d unixMs).text = some unixMs := by
  have hspells : ∀ width n, IsDecimal (unsigned (padZeros width (natToStr n))) n := by
    intro width n
    rw [(isDecimal_padZeros width n).unsigned_eq]
    exact isDecimal_padZeros width n
  have hmillis : unixMs % 1000 < 10 ^ 3 := Nat.mod_lt _ (by decide)
  refine parse_eq_some.mpr ⟨fieldsOf d unixMs,
    ⟨d.year, d.month, d.day, unixMs / 1000 % 86400 / 3600,
    unixMs / 1000 % 86400 / 60 % 60, unixMs / 1000 % 86400 % 60, unixMs % 1000⟩, rfl,
    ⟨hspells 4 _, hspells 2 _, hspells 2 _, hspells 2 _, hspells 2 _, hspells 2 _, ?_⟩,
    ⟨⟨d.year_pos, hyear⟩, ⟨d.month_pos, d.month_le⟩,
      ⟨d.day_pos, d.day_le.trans (daysInMonth_le _ _)⟩, ?_, ?_, ?_⟩, ?_⟩
  · have hdec := isDecimal_padZeros 3 (unixMs % 1000)
    refine ⟨hdec.1, hdec.2.1, ?_⟩
    unfold fractionMillis
    rw [hdec.2.2, length_padZeros_natToStr (by decide) hmillis]
    exact Nat.mul_div_cancel _ (by decide)
  · dsimp only
    omega
  · dsimp only
    omega
  · dsimp only
    omega
  · unfold Numbers.total
    dsimp only
    rw [daysFromCivil_number, hnumber]
    push_cast
    omega

/-- **An instant that was written is read back**, up to the end of the year 9999, and what is
written is a date of the calendar; on the way no step leaves its machine type. -/
theorem parse_format :
    (∀ unixMs ≤ lastMs, parse (format unixMs) = some unixMs ∧
      ∃ d : Date, d.year ≤ 9999 ∧ format unixMs = (fieldsOf d unixMs).text) ∧
    ∀ days ≤ lastDay, ∃ d : Date, d.year ≤ 9999 ∧
      civilFromDaysChecked days = some (d.year, d.month, d.day) ∧
      civilFromDays days = (d.year, d.month, d.day) ∧
      daysFromCivilChecked d.year d.month d.day = some (days : ℤ) ∧
      daysFromCivil d.year d.month d.day = days := by
  constructor
  · intro unixMs h
    obtain ⟨d, hcivil, hnumber⟩ := exists_civilFromDays (unixMs / 1000 / 86400)
    have hlast : unixMs / 1000 / 86400 ≤ lastDay := by
      unfold lastMs at h
      unfold lastDay
      omega
    have hyear := year_le_of_le_lastDay hnumber hlast
    rw [format_eq hcivil]
    exact ⟨parse_fieldsOf hnumber hyear, d, hyear, rfl⟩
  · intro days h
    obtain ⟨d, hcivil, hnumber⟩ := exists_civilFromDays days
    have hyear := year_le_of_le_lastDay hnumber h
    have hback : daysFromCivil d.year d.month d.day = days := by
      rw [daysFromCivil_number, hnumber]
      omega
    have hday := d.day_le.trans (daysInMonth_le _ _)
    have hchecked : daysFromCivilChecked d.year d.month d.day =
        some (daysFromCivil d.year d.month d.day) := daysFromCivilChecked_eq
      ⟨by exact_mod_cast d.year_pos, by exact_mod_cast hyear⟩
      ⟨by exact_mod_cast d.month_pos, by exact_mod_cast d.month_le⟩
      ⟨by exact_mod_cast d.day_pos, by exact_mod_cast hday⟩
    refine ⟨d, hyear, ?_, hcivil, hchecked.trans (congrArg some hback), hback⟩
    rw [← hcivil]
    refine civilFromDaysChecked_eq ?_
    unfold lastDay at h
    unfold u64Max
    omega

/-- The end of year 9999 reads back, and its last day is 31 December. -/
theorem parse_format_lastMs :
    parse (format lastMs) = some lastMs ∧
      ∃ d : Date, civilFromDaysChecked lastDay = some (d.year, d.month, d.day) ∧
        daysFromCivilChecked d.year d.month d.day = some (lastDay : ℤ) := by
  obtain ⟨d, -, hcivil, -, hdays, -⟩ := parse_format.2 lastDay le_rfl
  exact ⟨(parse_format.1 lastMs le_rfl).1, d, hcivil, hdays⟩

/-! ### What is let through -/

/-- An instant of the calendar: unsigned digits in every field, a date that there is, and the
milliseconds since the epoch. -/
def Denotes (s : Str) (v : ℕ) : Prop :=
  ∃ (f : Fields) (n : Numbers) (d : Date), f.text = s ∧ f.Spells n ∧
    (d.year = n.year ∧ d.month = n.month ∧ d.day = n.day) ∧
    n.year ≤ 9999 ∧ n.hour ≤ 23 ∧ n.minute ≤ 59 ∧ n.second ≤ 60 ∧
    (v : ℤ) = ((d.number : ℤ) - Date.epoch.number) * 86400000 + n.hour * 3600000 +
      n.minute * 60000 +
      n.second * 1000 + n.millis

/-- At or after the epoch: in 1970 or later, or in the leap second before. -/
def Numbers.FromEpoch (n : Numbers) : Prop :=
  1970 ≤ n.year ∨ n.year = 1969 ∧ n.month = 12 ∧ n.day = 31 ∧ n.hour = 23 ∧ n.minute = 59 ∧
    n.second = 60

/-- Numbers in range, of which one is written with a plus sign or the day is more than its month
has. -/
def Slips (s : Str) : Prop :=
  ∃ (f : Fields) (n : Numbers), f.text = s ∧ f.unsigned.Spells n ∧ n.InRange ∧ n.FromEpoch ∧
    (f.unsigned ≠ f ∨ daysInMonth n.year n.month < n.day)

theorem Fields.Spells.unsigned_eq {f : Fields} {n : Numbers} (h : f.Spells n) : f.unsigned = f := by
  unfold Fields.unsigned
  rw [h.year.unsigned_eq, h.month.unsigned_eq, h.day.unsigned_eq, h.hour.unsigned_eq,
    h.minute.unsigned_eq, h.second.unsigned_eq]

theorem Fields.Spells.millis_lt {f : Fields} {n : Numbers} (h : f.Spells n) : n.millis < 1000 := by
  have hfraction := h.fraction
  cases hcase : f.fraction with
  | none =>
      rw [hcase] at hfraction
      change n.millis = 0 at hfraction
      omega
  | some digits =>
      rw [hcase] at hfraction
      have hlt := fractionMillis_lt hfraction.2.1
      have hmillis := hfraction.2.2
      omega

/-- **Which numbers are not before the epoch.** -/
theorem Numbers.total_nonneg_iff {n : Numbers} (h : n.InRange) (hmillis : n.millis < 1000) :
    0 ≤ n.total ↔ n.FromEpoch := by
  obtain ⟨hyear, hmonth, hday, hhour, hminute, hsecond⟩ := h
  have hmonths := daysBeforeMonth_eq n.year (n := n.month - 1) (by omega)
  rw [Nat.sub_add_cancel hmonth.1] at hmonths
  unfold Numbers.total Numbers.FromEpoch
  rw [daysFromCivil_eq n.day hyear.1 hmonth.1 hmonth.2]
  rcases lt_trichotomy n.year 1969 with hlt | heq | hgt
  · -- a whole year before the last one
    have hmono : daysBeforeYear n.year ≤ daysBeforeYear (1967 + 1) :=
      daysBeforeYear_mono (Nat.le_of_lt_succ hlt)
    rw [daysBeforeYear_eq] at hmono
    split_ifs at hmonths <;> omega
  · have hlast : daysBeforeYear n.year = 718797 := by
      rw [heq]
      exact daysBeforeYear_eq 1968
    have hcommon : isLeap n.year = false := by
      rw [heq]
      rfl
    rw [hcommon, if_neg Bool.false_ne_true] at hmonths
    split_ifs at hmonths <;> omega
  · have hmono : daysBeforeYear (1969 + 1) ≤ daysBeforeYear n.year := daysBeforeYear_mono hgt
    rw [daysBeforeYear_eq] at hmono
    omega

theorem fraction_inj {a b : Str} {x y : Option Str} (ha : '.' ∉ a) (hb : '.' ∉ b)
    (h : a ++ x.elim [] (fun digits => '.' :: digits) =
      b ++ y.elim [] (fun digits => '.' :: digits)) :
    a = b ∧ x = y := by
  have hcut : ∀ {c : Str} (z : Option Str), '.' ∉ c →
      splitOnce '.' (c ++ z.elim [] (fun digits => '.' :: digits)) = z.map (c, ·) := by
    intro c z hc
    cases z with
    | none => rw [Option.elim_none, List.append_nil, splitOnce_eq_none.mpr hc, Option.map_none]
    | some digits => exact splitOnce_append_sep hc digits
  have hsame : x.map (a, ·) = y.map (b, ·) := by rw [← hcut x ha, ← hcut y hb, h]
  cases x with
  | none =>
      cases y with
      | none => exact ⟨by simpa using h, rfl⟩
      | some digits => cases hsame
  | some digits =>
      cases y with
      | none => cases hsame
      | some digits' =>
          cases hsame
          exact ⟨rfl, rfl⟩

/-- **A text has its fields only once.** -/
theorem fields_eq_of_text {f g : Fields} {n m : Numbers} (hf : f.unsigned.Spells n)
    (hg : g.unsigned.Spells m) (h : f.text = g.text) : f = g := by
  have hcut := (splitOnce_text hf).symm.trans
    ((congrArg (splitOnce 'T') h).trans (splitOnce_text hg))
  obtain ⟨hdate, htime⟩ := Prod.mk.inj (Option.some.inj hcut)
  obtain ⟨hclock, hfraction⟩ := fraction_inj (dot_not_mem hf.hour hf.minute hf.second)
    (dot_not_mem hg.hour hg.minute hg.second) (List.append_cancel_right htime)
  have hparts : ∀ {sep : Char} {a b c a' b' c' : Str}, a ++ sep :: (b ++ sep :: c) =
      a' ++ sep :: (b' ++ sep :: c') → (sep ∉ a ∧ sep ∉ b ∧ sep ∉ c) →
      (sep ∉ a' ∧ sep ∉ b' ∧ sep ∉ c') → a = a' ∧ b = b' ∧ c = c' := by
    intro sep a b c a' b' c' heq hfirst hsecond
    have hsplit := splitOn_three.mpr ⟨rfl, hfirst⟩
    rw [heq, splitOn_three.mpr ⟨rfl, hsecond⟩] at hsplit
    cases hsplit
    exact ⟨rfl, rfl, rfl⟩
  have hdash : ∀ {s : Str} {k : ℕ}, IsDecimal (unsigned s) k → '-' ∉ s :=
    fun hs => not_mem_of_unsigned hs rfl (by decide)
  have hcolon : ∀ {s : Str} {k : ℕ}, IsDecimal (unsigned s) k → ':' ∉ s :=
    fun hs => not_mem_of_unsigned hs rfl (by decide)
  obtain ⟨hy, hm, hd⟩ := hparts hdate ⟨hdash hf.year, hdash hf.month, hdash hf.day⟩
    ⟨hdash hg.year, hdash hg.month, hdash hg.day⟩
  obtain ⟨hh, hmin, hs⟩ := hparts hclock ⟨hcolon hf.hour, hcolon hf.minute, hcolon hf.second⟩
    ⟨hcolon hg.hour, hcolon hg.minute, hcolon hg.second⟩
  cases f
  cases g
  rw [Fields.mk.injEq]
  exact ⟨hy, hm, hd, hh, hmin, hs, hfraction⟩

/-- The numbers are the fields' own. -/
theorem Fields.Spells.eq {f : Fields} {n m : Numbers} (h : f.Spells n) (h' : f.Spells m) :
    n = m := by
  have hmillis : n.millis = m.millis := by
    have hfraction := h.fraction
    have hfraction' := h'.fraction
    cases hcase : f.fraction with
    | none =>
        rw [hcase] at hfraction hfraction'
        exact Eq.trans hfraction (Eq.symm hfraction')
    | some digits =>
        rw [hcase] at hfraction hfraction'
        exact hfraction.2.2.symm.trans hfraction'.2.2
  cases n
  cases m
  rw [Numbers.mk.injEq]
  exact ⟨h.year.eq h'.year, h.month.eq h'.month, h.day.eq h'.day, h.hour.eq h'.hour,
    h.minute.eq h'.minute, h.second.eq h'.second, hmillis⟩

/-- The date of numbers in range that exists. -/
def Numbers.date (n : Numbers) (h : n.InRange) (hday : n.day ≤ daysInMonth n.year n.month) : Date :=
  ⟨n.year, n.month, n.day, h.year.1, h.month.1, h.month.2, h.day.1, hday⟩

/-- On a date that exists, what is computed is what the fields denote. -/
theorem denotes_iff_of_exists {f : Fields} {n : Numbers} {v : ℕ} (hspells : f.Spells n)
    (hrange : n.InRange) (hday : n.day ≤ daysInMonth n.year n.month) :
    Denotes f.text v ↔ n.total = v := by
  have htotal : n.total =
      (((n.date hrange hday).number : ℤ) - Date.epoch.number) * 86400000 + n.hour * 3600000 +
        n.minute * 60000 + n.second * 1000 + n.millis := by
    have hdays := daysFromCivil_number (n.date hrange hday)
    change daysFromCivil n.year n.month n.day = _ at hdays
    unfold Numbers.total
    rw [hdays]
    push_cast
    ring
  constructor
  · rintro ⟨g, m, d, htext, hg, ⟨hyear, hmonth, hdom⟩, -, -, -, -, hv⟩
    have hf : f.unsigned.Spells n := by rwa [hspells.unsigned_eq]
    have hg' : g.unsigned.Spells m := by rwa [hg.unsigned_eq]
    obtain rfl := fields_eq_of_text hg' hf htext
    obtain rfl := hg.eq hspells
    have hdate : d = m.date hrange hday := Date.ext hyear hmonth hdom
    rw [htotal, hv, hdate]
  · intro hv
    exact ⟨f, n, n.date hrange hday, rfl, hspells, ⟨rfl, rfl, rfl⟩, hrange.year.2, hrange.hour,
      hrange.minute, hrange.second, hv.symm.trans htotal⟩

/-- A sign, or a day its month lacks, is no instant of the calendar. -/
theorem not_denotes {f : Fields} {n : Numbers} {v : ℕ} (hspells : f.unsigned.Spells n)
    (hslip : f.unsigned ≠ f ∨ daysInMonth n.year n.month < n.day) : ¬Denotes f.text v := by
  rintro ⟨g, m, d, htext, hg, ⟨hyear, hmonth, hday⟩, -⟩
  have hg' : g.unsigned.Spells m := by rwa [hg.unsigned_eq]
  obtain rfl := fields_eq_of_text hg' hspells htext
  obtain rfl := hspells.eq hg'
  rcases hslip with hsign | hlong
  · exact hsign hg.unsigned_eq
  · have hle := d.day_le
    rw [hyear, hmonth, hday] at hle
    omega

/-- **Where a reading is the calendar's**: just the texts that let no sign and no missing day
through. -/
theorem parse_iff_denotes (s : Str) : (∀ v, parse s = some v ↔ Denotes s v) ↔ ¬Slips s := by
  constructor
  · rintro h ⟨f, n, rfl, hspells, hrange, hepoch, hslip⟩
    have hnonneg := (Numbers.total_nonneg_iff hrange hspells.millis_lt).mpr hepoch
    obtain ⟨v, hv⟩ := Int.eq_ofNat_of_zero_le hnonneg
    exact not_denotes hspells hslip ((h v).mp (parse_eq_some.mpr ⟨f, n, rfl, hspells, hrange, hv⟩))
  · intro h v
    constructor
    · intro hread
      obtain ⟨f, n, rfl, hspells, hrange, hv⟩ := parse_eq_some.mp hread
      have hepoch := (Numbers.total_nonneg_iff hrange hspells.millis_lt).mp (by omega)
      have hsign : f.unsigned = f := by
        by_contra hne
        exact h ⟨f, n, rfl, hspells, hrange, hepoch, Or.inl hne⟩
      have hday : n.day ≤ daysInMonth n.year n.month := by
        by_contra hlong
        exact h ⟨f, n, rfl, hspells, hrange, hepoch, Or.inr (Nat.lt_of_not_le hlong)⟩
      rw [hsign] at hspells
      exact (denotes_iff_of_exists hspells hrange hday).mpr hv
    · rintro ⟨f, n, d, htext, hspells, ⟨hyear, hmonth, hday⟩, hrange⟩
      have hle := d.day_le
      rw [hyear, hmonth, hday] at hle
      have hin : n.InRange :=
        ⟨⟨hyear ▸ d.year_pos, hrange.1⟩, ⟨hmonth ▸ d.month_pos, hmonth ▸ d.month_le⟩,
          ⟨hday ▸ d.day_pos, hle.trans (daysInMonth_le _ _)⟩, hrange.2.1, hrange.2.2.1,
            hrange.2.2.2.1⟩
      have hdenotes : Denotes s v := ⟨f, n, d, htext, hspells, ⟨hyear, hmonth, hday⟩, hrange⟩
      rw [← htext] at hdenotes
      have hv := (denotes_iff_of_exists hspells hin hle).mp hdenotes
      refine parse_eq_some.mpr ⟨f, n, htext, ?_, hin, hv⟩
      rwa [hspells.unsigned_eq]

/-- The 31st of February is read as the 3rd of March, and so is that day in the year `+2026`. -/
theorem thirtyFirst_of_february :
    (¬∀ (s : Str) (v : ℕ), parse s = some v ↔ Denotes s v) ∧
      parse "+2026-03-03T00:00:00Z" = some 1772496000000 ∧
      ¬Denotes "+2026-03-03T00:00:00Z" 1772496000000 := by
  have hread : parse "2026-02-31T00:00:00Z" = some 1772496000000 ∧
      parse "+2026-03-03T00:00:00Z" = some 1772496000000 := by decide +kernel
  have hlong : (Fields.mk "2026" "02" "31" "00" "00" "00" none).unsigned.Spells
      ⟨2026, 2, 31, 0, 0, 0, 0⟩ :=
    ⟨by decide, by decide, by decide, by decide, by decide, by decide, rfl⟩
  have hsigned : (Fields.mk "+2026" "03" "03" "00" "00" "00" none).unsigned.Spells
      ⟨2026, 3, 3, 0, 0, 0, 0⟩ :=
    ⟨by decide, by decide, by decide, by decide, by decide, by decide, rfl⟩
  have hyear : (Fields.mk "+2026" "03" "03" "00" "00" "00" none).unsigned ≠
      Fields.mk "+2026" "03" "03" "00" "00" "00" none := by
    intro heq
    exact absurd (congrArg Fields.year heq) (by decide)
  refine ⟨fun h => ?_, hread.2, not_denotes hsigned (Or.inl hyear)⟩
  exact not_denotes hlong (Or.inr (by decide)) ((h _ _).mp hread.1)

end ObbyClient.ServerTime

import ObbyClient.Lib.Rfc8259
import ObbyClient.Engine.JsonText

/-!
# Where the JSON reader lets things pass

The reader keeps to the grammar in everything that nests: brackets, commas, colons and white space
are checked where the grammar has them.  It is inside its tokens that it lets things pass.  Digits
may be missing or lead with a zero, an exponent is read past, four characters behind `\u` may begin
with a sign, and a string may hold control characters as they are.  `strict` scans a text for just
these, token by token and without any nesting.

* `Json.Denotes` — a text that the grammar has, and the value that it is here;
* `Json.strict`, `Json.Strict` — every number, escape and character is one that the grammar has too;
* `Json.parseNumber_eq`, `Json.strict_number` — the reader's number, and its scan;
* `Json.spellsString_of_parse`, `Json.agrees_string` — a string that was read is one of the grammar
  if it scans, and every string of the grammar scans and is read.
-/

namespace ObbyClient

open Rfc8259

namespace Json

/-! ### What a text denotes -/

mutual

/-- A value as it is held here: of a number its integer part. -/
def ofValue : Value → Json
  | .null => null
  | .bool b => bool b
  | .num q => num (integerPart q)
  | .str s => str s
  | .array items => array (ofItems items)
  | .object fields => object (ofFields fields)

def ofItems : List Value → List Json
  | [] => []
  | item :: items => ofValue item :: ofItems items

def ofFields : List (Str × Value) → List (Str × Json)
  | [] => []
  | (key, value) :: fields => (key, ofValue value) :: ofFields fields

end

/-- The text is JSON, and this is the value it stands for. -/
def Denotes (text : Str) (v : Json) : Prop := ∃ value, IsText text value ∧ ofValue value = v

/-! ### Scanning a text for slips -/

/-- A number that the grammar has, and whose exponent leaves its integer part alone. -/
def strictNumeral (n : Numeral) : Bool := decide (n.WellFormed ∧ n.whole = n.integer)

/-- Four hexadecimal digits at the front. -/
def strictUnit (text : Str) : Bool :=
  decide ((text.take 4).length = 4) && (ofDigitChars 16 (text.take 4)).isSome

/-- The scan, inside a string or outside, with so many characters already looked at. -/
def strict : Bool → ℕ → Str → Bool
  | _, _, [] => true
  | quoted, seen + 1, _ :: text => strict quoted seen text
  | false, 0, c :: text =>
      if c = '"' then strict true 0 text
      else if c = '-' ∨ isDigit c = true then
        let n := (Numeral.readNumeral (c :: text)).1
        strictNumeral n && strict false (n.text.length - 1) text
      else strict false 0 text
  | true, 0, c :: text =>
      if c = '"' then strict false 0 text
      else if c = '\\' then
        if text.head? = some 'u' then strictUnit text.tail && strict true 5 text
        else strict true 1 text
      else decide (0x20 ≤ c.toNat) && strict true 0 text

/-- No number of the text has a leading zero, lacks digits or has an exponent that changes its
integer part; no `\u` lacks its four digits; and no string holds a bare control character. -/
def Strict (text : Str) : Prop := strict false 0 text = true

instance (text : Str) : Decidable (Strict text) := inferInstanceAs (Decidable (_ = _))

theorem strict_append (quoted : Bool) (t rest : Str) :
    strict quoted t.length (t ++ rest) = strict quoted 0 rest := by
  induction t with
  | nil => rfl
  | cons c t ih => exact ih

theorem strict_ws {w : Str} (hw : Ws w) (rest : Str) :
    strict false 0 (w ++ rest) = strict false 0 rest := by
  induction w with
  | nil => rfl
  | cons c w ih =>
      unfold Ws at hw ih
      rw [List.all_cons, Bool.and_eq_true] at hw
      have hc : c ≠ '"' ∧ ¬(c = '-' ∨ isDigit c = true) := by
        have hspace := hw.1
        unfold Rfc8259.isWs at hspace
        simp only [Bool.or_eq_true, beq_iff_eq] at hspace
        rcases hspace with ((rfl | rfl) | rfl) | rfl <;> decide
      rw [List.cons_append, strict, if_neg hc.1, if_neg hc.2]
      exact ih hw.2

theorem isDigit_eq : isDigit = Char.isDigit := by
  funext c
  rfl

/-! ### White space -/

theorem skipWs_append {w : Str} (hw : Ws w) (rest : Str) : skipWs (w ++ rest) = skipWs rest :=
  List.dropWhile_append_of_pos (List.all_eq_true.mp hw)

/-- What is skipped is white space. -/
theorem exists_skipWs (text : Str) : ∃ w, Ws w ∧ text = w ++ skipWs text :=
  ⟨text.takeWhile isWs, List.all_takeWhile, List.takeWhile_append_dropWhile.symm⟩

theorem strict_skipWs (text : Str) : strict false 0 (skipWs text) = strict false 0 text := by
  obtain ⟨w, hw, htext⟩ := exists_skipWs text
  have h := strict_ws hw (skipWs text)
  rw [← htext] at h
  exact h.symm

theorem skipWs_skipWs (text : Str) : skipWs (skipWs text) = skipWs text := by
  exact List.dropWhile_idempotent isWs text

theorem parseValue_skipWs (fuel : ℕ) (text : Str) :
    parseValue fuel (skipWs text) = parseValue fuel text := by
  cases fuel with
  | zero => rfl
  | succ fuel => rw [parseValue, parseValue, skipWs_skipWs]

theorem parseValue_ws (fuel : ℕ) {w : Str} (hw : Ws w) (rest : Str) :
    parseValue fuel (w ++ rest) = parseValue fuel rest := by
  rw [← parseValue_skipWs, skipWs_append hw, parseValue_skipWs]

theorem parseItems_skipWs (fuel : ℕ) (text : Str) :
    parseItems fuel (skipWs text) = parseItems fuel text := by
  cases fuel with
  | zero => rfl
  | succ fuel => rw [parseItems, parseItems, parseValue_skipWs]

theorem parseFields_skipWs (fuel : ℕ) (text : Str) :
    parseFields fuel (skipWs text) = parseFields fuel text := by
  cases fuel with
  | zero => rfl
  | succ fuel => rw [parseFields, parseFields, skipWs_skipWs]

/-! ### Numbers -/

theorem readMinus_eq (text : Str) :
    (if text.head? = some '-' then (['-'], text.tail) else ([], text)) =
      (Numeral.minusText (Numeral.readMinus text).1, (Numeral.readMinus text).2) := by
  cases text with
  | nil => rfl
  | cons c rest =>
      rw [Numeral.readMinus]
      simp only [List.head?_cons, Option.some.injEq]
      by_cases h : c = '-'
      · rw [if_pos h, if_pos h, h]
        rfl
      · rw [if_neg h, if_neg h]
        rfl

theorem readFrac_eq (text : Str) :
    (if text.head? = some '.' then text.tail.dropWhile isDigit else text) =
      (Numeral.readFrac text).2 := by
  cases text with
  | nil => rfl
  | cons c rest =>
      rw [Numeral.readFrac]
      simp only [List.head?_cons, Option.some.injEq]
      by_cases h : c = '.'
      · rw [if_pos h, if_pos h, isDigit_eq]
        rfl
      · rw [if_neg h, if_neg h]

theorem readSign_eq (text : Str) :
    (if text.head? = some '+' ∨ text.head? = some '-' then text.tail else text) =
      (Numeral.readSign text).2 := by
  cases text with
  | nil => rfl
  | cons c rest =>
      rw [Numeral.readSign]
      simp only [List.head?_cons, Option.some.injEq]
      by_cases h : c = '+' ∨ c = '-'
      · rw [if_pos h, if_pos h]
        rfl
      · rw [if_neg h, if_neg h]

theorem readExp_eq (text : Str) :
    (if text.head? = some 'e' ∨ text.head? = some 'E' then
      (if text.tail.head? = some '+' ∨ text.tail.head? = some '-' then text.tail.tail
        else text.tail).dropWhile isDigit
      else text) = (Numeral.readExp text).2 := by
  cases text with
  | nil => rfl
  | cons c rest =>
      rw [Numeral.readExp]
      simp only [List.head?_cons, Option.some.injEq]
      by_cases h : c = 'e' ∨ c = 'E'
      · rw [if_pos h, if_pos h, List.tail_cons, readSign_eq, isDigit_eq]
      · rw [if_neg h, if_neg h]

/-- **The reader's number** is the longest one at the front, of which it holds the integer
digits. -/
theorem parseNumber_eq (text : Str) :
    parseNumber text =
      (parseI64 (Numeral.minusText (Numeral.readNumeral text).1.minus ++
        (Numeral.readNumeral text).1.int)).map fun n => (num n, (Numeral.readNumeral text).2) := by
  unfold parseNumber Numeral.readNumeral
  rw [readMinus_eq]
  dsimp only
  rw [readFrac_eq, readExp_eq, isDigit_eq]

theorem parseI64_digits {minus : Bool} {digits : Str} {n : ℤ} (h : digits.all Char.isDigit = true)
    (hread : parseI64 (Numeral.minusText minus ++ digits) = some n) :
    n = if minus then -(Nat.ofDigitChars 10 digits 0 : ℤ) else Nat.ofDigitChars 10 digits 0 := by
  have hhead : ∀ c, c.isDigit = false → digits.head? ≠ some c := by
    intro c hc hsome
    rw [List.all_eq_true.mp h c (List.mem_of_head? hsome)] at hc
    cases hc
  cases minus with
  | true =>
      change (if digits.head? = some '+' then none
        else (fromStrRadix 10 (2 ^ 63) digits).map fun n => -(n : ℤ)) = some n at hread
      rw [if_neg (hhead '+' (by decide)), Option.map_eq_some_iff] at hread
      obtain ⟨m, hm, rfl⟩ := hread
      obtain ⟨k, hk, hpure⟩ := Option.bind_eq_some_iff.mp hm
      obtain rfl := Option.some.inj hpure
      rw [fromStrRadix_digits h hk]
      rfl
  | false =>
      change parseI64 digits = some n at hread
      unfold parseI64 at hread
      rw [if_neg (hhead '-' (by decide)), Option.map_eq_some_iff] at hread
      obtain ⟨m, hm, rfl⟩ := hread
      obtain ⟨k, hk, hpure⟩ := Option.bind_eq_some_iff.mp hm
      obtain rfl := Option.some.inj hpure
      rw [fromStrRadix_digits h hk]
      rfl

/-- **The value of a number** that was read. -/
theorem parseNumber_eq_some {text rest : Str} {v : Json} (h : parseNumber text = some (v, rest)) :
    (Numeral.readNumeral text).2 = rest ∧ v = num (Numeral.readNumeral text).1.integer := by
  rw [parseNumber_eq, Option.map_eq_some_iff] at h
  obtain ⟨n, hn, heq⟩ := h
  obtain ⟨hv, hrest⟩ := Prod.mk.inj heq
  refine ⟨hrest, ?_⟩
  rw [← hv, parseI64_digits List.all_takeWhile hn]
  rfl

/-- A number is scanned as one. -/
theorem strict_number {c : Char} (hc : c = '-' ∨ isDigit c = true) (text : Str) :
    strict false 0 (c :: text) =
      (strictNumeral (Numeral.readNumeral (c :: text)).1 &&
        strict false 0 (Numeral.readNumeral (c :: text)).2) := by
  have hquote : c ≠ '"' := by
    rintro rfl
    revert hc
    decide
  have htext := Numeral.readNumeral_text (c :: text)
  rw [strict, if_neg hquote, if_pos hc]
  dsimp only
  generalize Numeral.readNumeral (c :: text) = read at htext
  by_cases hstrict : strictNumeral read.1 = true
  · obtain ⟨d, t, hcons, -⟩ := (of_decide_eq_true hstrict).1.text_eq_cons
    rw [hcons, List.cons_append] at htext
    obtain ⟨-, htail⟩ := List.cons.inj htext
    rw [hcons, List.length_cons, Nat.add_sub_cancel, ← htail, strict_append]
  · rw [Bool.not_eq_true] at hstrict
    rw [hstrict, Bool.false_and, Bool.false_and]

/-! ### Strings, from the reader to the grammar -/

theorem strict_plain {c : Char} (hquote : c ≠ '"') (hslash : c ≠ '\\') (rest : Str) :
    strict true 0 (c :: rest) = (decide (0x20 ≤ c.toNat) && strict true 0 rest) := by
  rw [strict, if_neg hquote, if_neg hslash]

theorem strict_escape {mark : Char} (hmark : mark ≠ 'u') (rest : Str) :
    strict true 0 ('\\' :: mark :: rest) = strict true 0 rest := by
  have hne : (mark :: rest).head? ≠ some 'u' := fun h => hmark (Option.some.inj h)
  rw [strict, if_neg (by decide), if_pos rfl, if_neg hne]
  rfl

theorem strict_unit {digits : Str} (hlength : digits.length = 4) (rest : Str) :
    strict true 0 ('\\' :: 'u' :: (digits ++ rest)) =
      ((ofDigitChars 16 digits).isSome && strict true 0 rest) := by
  have htake : (digits ++ rest).take 4 = digits := by
    rw [← hlength]
    exact List.take_left
  have hskip : strict true 5 ('u' :: (digits ++ rest)) = strict true 0 rest := by
    have happend := strict_append true ('u' :: digits) rest
    rw [List.length_cons, hlength] at happend
    exact happend
  have hhead : ('u' :: (digits ++ rest)).head? = some 'u' := rfl
  rw [strict, if_neg (by decide), if_pos rfl, if_pos hhead, hskip, List.tail_cons]
  unfold strictUnit
  rw [htake, hlength]
  rfl

theorem parseHex4_eq_some {text rest : Str} {n : ℕ} (h : parseHex4 text = some (n, rest)) :
    ∃ digits, text = digits ++ rest ∧ digits.length = 4 ∧
      fromStrRadix 16 u32Max digits = some n := by
  unfold parseHex4 at h
  split at h
  · rename_i a b c d tail
    rw [Option.map_eq_some_iff] at h
    obtain ⟨m, hm, heq⟩ := h
    obtain ⟨rfl, rfl⟩ := Prod.mk.inj heq
    exact ⟨[a, b, c, d], rfl, rfl, hm⟩
  · cases h

/-- A sign is no digit. -/
theorem head_ne_of_digits {radix : ℕ} {digits : Str}
    (h : (ofDigitChars radix digits).isSome = true) :
    digits.head? ≠ some '+' := by
  intro hhead
  obtain ⟨digits, rfl⟩ := List.head?_eq_some_iff.mp hhead
  have hplus : digitValue radix '+' = none := rfl
  unfold ofDigitChars at h
  rw [List.foldlM_cons, hplus] at h
  cases h

/-- **Digits alone** are read as what they spell. -/
theorem spellsUnit_of_fromStrRadix {digits : Str} {n : ℕ} (hlength : digits.length = 4)
    (hdigits : (ofDigitChars 16 digits).isSome = true)
    (h : fromStrRadix 16 u32Max digits = some n) : SpellsUnit digits n := by
  refine ⟨hlength, ?_⟩
  have hnil : digits ≠ [] := by
    rintro rfl
    cases hlength
  unfold fromStrRadix at h
  rw [if_neg (head_ne_of_digits hdigits), if_neg hnil] at h
  exact Option.eq_some_of_filter_eq_some h

/-- What an escape turns out to be. -/
theorem parseEscape_eq_some {text rest : Str} {c : Char} (h : parseEscape text = some (c, rest)) :
    (∃ mark, text = mark :: rest ∧ mark ≠ 'u' ∧ (mark, c) ∈ escapes) ∨
      ∃ tail, text = 'u' :: tail ∧ parseUnicodeEscape tail = some (c, rest) := by
  unfold parseEscape at h
  split at h
  case h_9 tail => exact .inr ⟨tail, rfl, h⟩
  case h_10 => cases h
  all_goals
    obtain ⟨rfl, rfl⟩ := Prod.mk.inj (Option.some.inj h)
    exact .inl ⟨_, rfl, by decide, by decide⟩

theorem toNat_ofNat {n : ℕ} (h : n.isValidChar) : (Char.ofNat n).toNat = n := by
  unfold Char.ofNat
  rw [dif_pos h]
  rfl

/-- What a `\u` escape turns out to be: a code unit that is a character, or two that make one. -/
theorem parseUnicodeEscape_eq_some {text rest : Str} {c : Char}
    (h : parseUnicodeEscape text = some (c, rest)) :
    parseHex4 text = some (c.toNat, rest) ∨
      ∃ unit tail unit', parseHex4 text = some (unit, '\\' :: 'u' :: tail) ∧
        parseHex4 tail = some (unit', rest) ∧ (0xD800 ≤ unit ∧ unit ≤ 0xDBFF) ∧
        (0xDC00 ≤ unit' ∧ unit' ≤ 0xDFFF) ∧
        c.toNat = 0x10000 + (unit - 0xD800) * 1024 + (unit' - 0xDC00) := by
  have hchar : ∀ {n : ℕ} {tail : Str}, (charFromU32 n).map (·, tail) = some (c, rest) →
      c.toNat = n ∧ tail = rest := by
    intro n tail hmap
    obtain ⟨d, hd, heq⟩ := Option.map_eq_some_iff.mp hmap
    obtain ⟨rfl, rfl⟩ := Prod.mk.inj heq
    unfold charFromU32 at hd
    by_cases hvalid : n.isValidChar
    · rw [if_pos hvalid] at hd
      obtain rfl := Option.some.inj hd
      exact ⟨toNat_ofNat hvalid, rfl⟩
    · rw [if_neg hvalid] at hd
      cases hd
  unfold parseUnicodeEscape at h
  obtain ⟨⟨unit, tail⟩, hfirst, h⟩ := Option.bind_eq_some_iff.mp h
  dsimp only at h
  by_cases hhigh : 0xD800 ≤ unit ∧ unit ≤ 0xDBFF
  · rw [if_pos hhigh] at h
    split at h
    · rename_i tail
      obtain ⟨⟨unit', tail'⟩, hsecond, h⟩ := Option.bind_eq_some_iff.mp h
      dsimp only at h
      by_cases hlow : 0xDC00 ≤ unit' ∧ unit' ≤ 0xDFFF
      · rw [if_pos hlow] at h
        obtain ⟨hc, rfl⟩ := hchar h
        exact .inr ⟨unit, tail, unit', hfirst, hsecond, hhigh, hlow, hc⟩
      · rw [if_neg hlow] at h
        cases h
    · cases h
  · rw [if_neg hhigh] at h
    obtain ⟨hc, rfl⟩ := hchar h
    rw [hc]
    exact .inl hfirst

/-- **An escape that was read**, in a text that scans. -/
theorem spellsChar_of_parseEscape {text rest : Str} {c : Char}
    (h : parseEscape text = some (c, rest)) (hstrict : strict true 0 ('\\' :: text) = true) :
    ∃ t, '\\' :: text = t ++ rest ∧ SpellsChar t c ∧ strict true 0 rest = true := by
  rcases parseEscape_eq_some h with ⟨mark, rfl, hmark, hmem⟩ | ⟨tail, rfl, hunit⟩
  · rw [strict_escape hmark] at hstrict
    exact ⟨['\\', mark], rfl, .escape hmem, hstrict⟩
  rcases parseUnicodeEscape_eq_some hunit with hone | ⟨unit, between, unit', hhigh, hlow, hunits⟩
  · obtain ⟨digits, rfl, hlength, hread⟩ := parseHex4_eq_some hone
    rw [strict_unit hlength, Bool.and_eq_true] at hstrict
    exact ⟨'\\' :: 'u' :: digits, rfl,
      .unit (spellsUnit_of_fromStrRadix hlength hstrict.1 hread), hstrict.2⟩
  · obtain ⟨high, rfl, hlength, hread⟩ := parseHex4_eq_some hhigh
    obtain ⟨low, rfl, hlength', hread'⟩ := parseHex4_eq_some hlow
    rw [strict_unit hlength, strict_unit hlength', Bool.and_eq_true, Bool.and_eq_true] at hstrict
    refine ⟨'\\' :: 'u' :: (high ++ '\\' :: 'u' :: low), ?_, ?_, hstrict.2.2⟩
    · simp only [List.cons_append, List.append_assoc]
    · exact .pair (spellsUnit_of_fromStrRadix hlength hstrict.1 hread)
        (spellsUnit_of_fromStrRadix hlength' hstrict.2.1 hread') hunits.1 hunits.2.1 hunits.2.2

/-- **A string that was read**, in a text that scans. -/
theorem spellsString_of_parse {fuel : ℕ} {text s rest : Str}
    (h : parseStringBody fuel text = some (s, rest)) (hstrict : strict true 0 text = true) :
    ∃ body, text = body ++ '"' :: rest ∧ SpellsString body s ∧ strict false 0 rest = true := by
  induction fuel generalizing text s with
  | zero => cases h
  | succ fuel ih =>
      cases text with
      | nil => cases h
      | cons c text =>
          by_cases hquote : c = '"'
          · subst hquote
            obtain ⟨rfl, rfl⟩ := Prod.mk.inj (Option.some.inj h)
            exact ⟨[], rfl, .nil, hstrict⟩
          by_cases hslash : c = '\\'
          · subst hslash
            obtain ⟨⟨c, more⟩, hescape, h⟩ := Option.bind_eq_some_iff.mp h
            obtain ⟨⟨out, rest⟩, hread, h⟩ := Option.bind_eq_some_iff.mp h
            obtain ⟨rfl, rfl⟩ := Prod.mk.inj (Option.some.inj h)
            obtain ⟨t, htext, hchar, hmore⟩ := spellsChar_of_parseEscape hescape hstrict
            obtain ⟨body, rfl, hbody, hrest⟩ := ih hread hmore
            exact ⟨t ++ body, by rw [htext, List.append_assoc], .cons hchar hbody, hrest⟩
          · rw [parseStringBody_plain hquote hslash, Option.map_eq_some_iff] at h
            obtain ⟨⟨out, rest⟩, hread, h⟩ := h
            obtain ⟨rfl, rfl⟩ := Prod.mk.inj h
            rw [strict_plain hquote hslash, Bool.and_eq_true] at hstrict
            obtain ⟨body, rfl, hbody, hrest⟩ := ih hread hstrict.2
            have hcontrol : 0x20 ≤ c.toNat := of_decide_eq_true hstrict.1
            exact ⟨c :: body, rfl, .cons (.plain hcontrol hquote hslash) hbody, hrest⟩

/-! ### Strings, from the grammar to the reader -/

theorem parseHex4_append {digits : Str} {unit : ℕ} (h : SpellsUnit digits unit) (rest : Str) :
    parseHex4 (digits ++ rest) = some (unit, rest) := by
  have hread : fromStrRadix 16 u32Max digits = some unit := by
    have hsome : (ofDigitChars 16 digits).isSome = true := by
      rw [h.2]
      rfl
    have hnil : digits ≠ [] := by
      rintro rfl
      cases h.1
    have hle : unit ≤ u32Max := Nat.le_of_lt (h.lt.trans (by decide))
    unfold fromStrRadix
    rw [if_neg (head_ne_of_digits hsome), if_neg hnil, h.2]
    exact if_pos (decide_eq_true hle)
  obtain ⟨a, b, c, d, rfl⟩ := List.length_eq_four.mp h.1
  show (fromStrRadix 16 u32Max [a, b, c, d]).map _ = _
  rw [hread]
  rfl

theorem parseEscape_mark {mark c : Char} (h : (mark, c) ∈ escapes) (rest : Str) :
    parseEscape (mark :: rest) = some (c, rest) := by
  simp only [escapes, List.mem_cons, Prod.mk.injEq, List.not_mem_nil, or_false] at h
  rcases h with h | h | h | h | h | h | h | h <;>
    · obtain ⟨rfl, rfl⟩ := h
      rfl

theorem parseUnicodeEscape_unit {digits : Str} {c : Char} (h : SpellsUnit digits c.toNat)
    (rest : Str) : parseUnicodeEscape (digits ++ rest) = some (c, rest) := by
  have hvalid : ¬(0xD800 ≤ c.toNat ∧ c.toNat ≤ 0xDBFF) := by
    have hchar : c.toNat < 0xD800 ∨ 0xDFFF < c.toNat ∧ c.toNat < 0x110000 := c.valid
    omega
  unfold parseUnicodeEscape
  rw [parseHex4_append h]
  show (if 0xD800 ≤ c.toNat ∧ c.toNat ≤ 0xDBFF then _ else (charFromU32 c.toNat).map (·, rest)) = _
  rw [if_neg hvalid, charFromU32_toNat]
  rfl

theorem parseUnicodeEscape_pair {high low : Str} {unit unit' : ℕ} {c : Char}
    (hhigh : SpellsUnit high unit) (hlow : SpellsUnit low unit')
    (hunit : 0xD800 ≤ unit ∧ unit ≤ 0xDBFF) (hunit' : 0xDC00 ≤ unit' ∧ unit' ≤ 0xDFFF)
    (hc : c.toNat = 0x10000 + (unit - 0xD800) * 1024 + (unit' - 0xDC00)) (rest : Str) :
    parseUnicodeEscape (high ++ '\\' :: 'u' :: (low ++ rest)) = some (c, rest) := by
  unfold parseUnicodeEscape
  rw [parseHex4_append hhigh]
  show (if 0xD800 ≤ unit ∧ unit ≤ 0xDBFF then (parseHex4 (low ++ rest)).bind _ else _) = _
  rw [if_pos hunit, parseHex4_append hlow]
  show (if 0xDC00 ≤ unit' ∧ unit' ≤ 0xDFFF then
    (charFromU32 (0x10000 + (unit - 0xD800) * 1024 + (unit' - 0xDC00))).map (·, rest) else none) = _
  rw [if_pos hunit', ← hc, charFromU32_toNat]
  rfl

/-- **One character of the grammar** is read as it stands. -/
theorem parseStringBody_spells {t : Str} {c : Char} (h : SpellsChar t c) (fuel : ℕ) (rest : Str) :
    parseStringBody (fuel + 1) (t ++ rest) =
      (parseStringBody fuel rest).map fun p => (c :: p.1, p.2) := by
  cases h with
  | plain _ hquote hslash => exact parseStringBody_plain hquote hslash
  | escape hmem => exact parseStringBody_escape (parseEscape_mark hmem rest)
  | unit hunit => exact parseStringBody_escape (parseUnicodeEscape_unit hunit rest)
  | pair hhigh hlow hunit hunit' hc =>
      rw [List.cons_append, List.cons_append, List.append_assoc]
      exact parseStringBody_escape (parseUnicodeEscape_pair hhigh hlow hunit hunit' hc rest)

theorem strict_spells {t : Str} {c : Char} (h : SpellsChar t c) (rest : Str) :
    strict true 0 (t ++ rest) = strict true 0 rest := by
  cases h with
  | plain hcontrol hquote hslash =>
      rw [List.singleton_append, strict_plain hquote hslash, decide_eq_true hcontrol, Bool.true_and]
  | escape hmem =>
      refine strict_escape ?_ rest
      rintro rfl
      revert hmem
      simp [escapes]
  | unit hunit =>
      rw [List.cons_append, List.cons_append, strict_unit hunit.1, hunit.2]
      rfl
  | pair hhigh hlow _ _ _ =>
      rw [List.cons_append, List.cons_append, List.append_assoc, strict_unit hhigh.1, hhigh.2,
        List.cons_append, List.cons_append, strict_unit hlow.1, hlow.2]
      rfl

/-- **A string of the grammar** is read to its closing quote, and scans. -/
theorem agrees_string {body s : Str} (h : SpellsString body s) {fuel : ℕ} {rest s' rest' : Str}
    (hread : parseStringBody fuel (body ++ '"' :: rest) = some (s', rest')) :
    rest' = rest ∧ strict true 0 (body ++ '"' :: rest) = strict false 0 rest := by
  induction h generalizing fuel s' with
  | nil =>
      cases fuel with
      | zero => cases hread
      | succ fuel =>
          obtain ⟨-, rfl⟩ := Prod.mk.inj (Option.some.inj hread)
          exact ⟨rfl, rfl⟩
  | cons hchar hbody ih =>
      cases fuel with
      | zero => cases hread
      | succ fuel =>
          rw [List.append_assoc, parseStringBody_spells hchar, Option.map_eq_some_iff] at hread
          obtain ⟨⟨s, last⟩, hread, hpair⟩ := hread
          obtain ⟨-, rfl⟩ := Prod.mk.inj hpair
          obtain ⟨hrest, hstrict⟩ := ih hread
          rw [List.append_assoc, strict_spells hchar]
          exact ⟨hrest, hstrict⟩

end Json

end ObbyClient

import ObbyClient.Lib.Decimal

/-!
# The JSON grammar and what its texts mean

RFC 8259 as a language of character lists.  A number stands for the rational that its digits spell,
a string for the characters its escapes name, and a text for one value with white space around it.

* `Numeral`, `Numeral.WellFormed`, `Numeral.value` — a number, when it is one, and how much it is;
* `Numeral.readNumeral` — the longest number at the front of a text, with whatever parts are empty;
* `Numeral.readNumeral_append` — a well-formed number is read whole in front of what stops it;
* `integerPart`, `Numeral.integerPart_value` — a number cut toward zero, which its digits tell;
* `SpellsChar`, `Spells`, `IsText` — characters, values and whole texts.
-/

namespace ObbyClient

namespace Rfc8259

/-! ### Numbers -/

/-- An exponent: its mark, its sign if it has one, and its digits. -/
structure Exponent where
  mark : Char
  sign : Option Char
  digits : Str
  deriving DecidableEq, Repr

/-- A number in its parts.  Any of the digit runs may be empty, which a grammar may then refuse. -/
structure Numeral where
  minus : Bool
  int : Str
  frac : Option Str
  exp : Option Exponent
  deriving DecidableEq, Repr

/-- One digit or more. -/
def Digits (s : Str) : Prop := s ≠ [] ∧ s.all Char.isDigit = true

instance (s : Str) : Decidable (Digits s) := inferInstanceAs (Decidable (_ ∧ _))

/-- A text that does not begin with a digit. -/
def NoDigit (text : Str) : Prop := ∀ c ∈ text.head?, c.isDigit = false

theorem noDigit_cons {c : Char} (h : c.isDigit = false) (text : Str) : NoDigit (c :: text) := by
  intro d hd
  obtain rfl := Option.some.inj hd
  exact h

/-- A run of digits ends where the digits do. -/
theorem span_digits {digits rest : Str} (hdigits : digits.all Char.isDigit = true)
    (hrest : NoDigit rest) :
    (digits ++ rest).takeWhile Char.isDigit = digits ∧
      (digits ++ rest).dropWhile Char.isDigit = rest := by
  have hall : ∀ c ∈ digits, c.isDigit = true := List.all_eq_true.mp hdigits
  rw [List.takeWhile_append_of_pos hall, List.dropWhile_append_of_pos hall]
  cases rest with
  | nil => exact ⟨List.append_nil _, rfl⟩
  | cons c rest =>
      have hc := hrest c rfl
      rw [List.takeWhile_cons_of_neg (by rw [hc]; decide),
        List.dropWhile_cons_of_neg (by rw [hc]; decide)]
      exact ⟨List.append_nil _, rfl⟩

/-- The integer part of a number, toward zero. -/
def integerPart (q : ℚ) : ℤ := if 0 ≤ q then ⌊q⌋ else ⌈q⌉

theorem integerPart_neg (q : ℚ) : integerPart (-q) = -integerPart q := by
  unfold integerPart
  rcases lt_trichotomy q 0 with hneg | rfl | hpos
  · rw [if_pos (by linarith), if_neg (not_le.mpr hneg), Int.floor_neg]
  · rfl
  · rw [if_neg (by linarith), if_pos hpos.le, Int.ceil_neg]

namespace Exponent

def text (e : Exponent) : Str := e.mark :: (e.sign.toList ++ e.digits)

def WellFormed (e : Exponent) : Prop :=
  (e.mark = 'e' ∨ e.mark = 'E') ∧ (e.sign = none ∨ e.sign = some '+' ∨ e.sign = some '-') ∧
    Digits e.digits

instance (e : Exponent) : Decidable e.WellFormed := inferInstanceAs (Decidable (_ ∧ _))

/-- The power of ten. -/
def value (e : Exponent) : ℤ :=
  if e.sign = some '-' then -(Nat.ofDigitChars 10 e.digits 0 : ℤ)
  else Nat.ofDigitChars 10 e.digits 0

end Exponent

namespace Numeral

def minusText (minus : Bool) : Str := if minus then ['-'] else []

def fracText : Option Str → Str
  | none => []
  | some digits => '.' :: digits

def expText : Option Exponent → Str
  | none => []
  | some e => e.text

def text (n : Numeral) : Str :=
  minusText n.minus ++ (n.int ++ (fracText n.frac ++ expText n.exp))

/-- At least one digit in every part that is there, and no zero in front of another digit. -/
def WellFormed (n : Numeral) : Prop :=
  Digits n.int ∧ (n.int.head? = some '0' → n.int = ['0']) ∧ (∀ digits ∈ n.frac, Digits digits) ∧
    ∀ e ∈ n.exp, e.WellFormed

instance (n : Numeral) : Decidable n.WellFormed := inferInstanceAs (Decidable (_ ∧ _))

/-- The power of ten that all the digits together are multiplied by. -/
def shift (n : Numeral) : ℤ := (n.exp.map Exponent.value).getD 0 - (n.frac.getD []).length

/-- The number. -/
def value (n : Numeral) : ℚ :=
  let digits : ℚ := Nat.ofDigitChars 10 (n.int ++ n.frac.getD []) 0
  (if n.minus then -digits else digits) * 10 ^ n.shift

/-- Its integer part, from the digits alone. -/
def whole (n : Numeral) : ℤ :=
  let digits := Nat.ofDigitChars 10 (n.int ++ n.frac.getD []) 0
  let part : ℕ := digits * 10 ^ n.shift.toNat / 10 ^ (-n.shift).toNat
  if n.minus then -part else part

/-- The integer that stands in front of the point. -/
def integer (n : Numeral) : ℤ :=
  if n.minus then -(Nat.ofDigitChars 10 n.int 0 : ℤ) else Nat.ofDigitChars 10 n.int 0

/-- Moving the point of an integer and cutting there. -/
theorem integerPart_shift (digits : ℕ) (shift : ℤ) :
    integerPart ((digits : ℚ) * 10 ^ shift) =
      (digits * 10 ^ shift.toNat / 10 ^ (-shift).toNat : ℕ) := by
  have hsplit : (digits : ℚ) * 10 ^ shift =
      ((digits * 10 ^ shift.toNat : ℕ) : ℚ) / ((10 ^ (-shift).toNat : ℕ) : ℚ) := by
    obtain ⟨k, hshift | hshift⟩ := Int.eq_nat_or_neg shift
    · rw [hshift, Int.toNat_natCast, Int.toNat_eq_zero.mpr (by omega), zpow_natCast]
      push_cast
      rw [div_one]
    · rw [hshift, neg_neg, Int.toNat_natCast, Int.toNat_eq_zero.mpr (by omega), zpow_neg,
        zpow_natCast]
      push_cast
      rw [mul_one, div_eq_mul_inv]
  unfold integerPart
  rw [hsplit, if_pos (by positivity), Rat.floor_natCast_div_natCast]
  exact (Int.natCast_ediv _ _).symm

/-- **The integer part of a number** is what its digits say. -/
theorem integerPart_value (n : Numeral) : integerPart n.value = n.whole := by
  unfold value whole
  cases n.minus with
  | true =>
      show integerPart (-_ * _) = -_
      rw [neg_mul, integerPart_neg, integerPart_shift]
  | false => exact integerPart_shift _ _

/-! ### Reading a number -/

def readMinus : Str → Bool × Str
  | [] => (false, [])
  | c :: rest => if c = '-' then (true, rest) else (false, c :: rest)

def readFrac : Str → Option Str × Str
  | [] => (none, [])
  | c :: rest =>
      if c = '.' then (some (rest.takeWhile Char.isDigit), rest.dropWhile Char.isDigit)
      else (none, c :: rest)

def readSign : Str → Option Char × Str
  | [] => (none, [])
  | c :: rest => if c = '+' ∨ c = '-' then (some c, rest) else (none, c :: rest)

def readExp : Str → Option Exponent × Str
  | [] => (none, [])
  | c :: rest =>
      if c = 'e' ∨ c = 'E' then
        (some ⟨c, (readSign rest).1, (readSign rest).2.takeWhile Char.isDigit⟩,
          (readSign rest).2.dropWhile Char.isDigit)
      else (none, c :: rest)

/-- The longest number at the front, and what follows it. -/
def readNumeral (text : Str) : Numeral × Str :=
  let body := (readMinus text).2
  let frac := readFrac (body.dropWhile Char.isDigit)
  let exp := readExp frac.2
  (⟨(readMinus text).1, body.takeWhile Char.isDigit, frac.1, exp.1⟩, exp.2)

theorem readMinus_text (text : Str) : minusText (readMinus text).1 ++
    (readMinus text).2 = text := by
  cases text with
  | nil => rfl
  | cons c rest =>
      rw [readMinus]
      by_cases h : c = '-'
      · rw [if_pos h, h]
        rfl
      · rw [if_neg h]
        rfl

theorem readFrac_text (text : Str) : fracText (readFrac text).1 ++ (readFrac text).2 = text := by
  cases text with
  | nil => rfl
  | cons c rest =>
      rw [readFrac]
      by_cases h : c = '.'
      · rw [if_pos h, h]
        exact congrArg ('.' :: ·) List.takeWhile_append_dropWhile
      · rw [if_neg h]
        rfl

theorem readSign_text (text : Str) : (readSign text).1.toList ++ (readSign text).2 = text := by
  cases text with
  | nil => rfl
  | cons c rest =>
      rw [readSign]
      by_cases h : c = '+' ∨ c = '-'
      · rw [if_pos h]
        rfl
      · rw [if_neg h]
        rfl

theorem readExp_text (text : Str) : expText (readExp text).1 ++ (readExp text).2 = text := by
  cases text with
  | nil => rfl
  | cons c rest =>
      rw [readExp]
      by_cases h : c = 'e' ∨ c = 'E'
      · rw [if_pos h]
        show c :: (((readSign rest).1.toList ++ _) ++ _) = c :: rest
        rw [List.append_assoc, List.takeWhile_append_dropWhile, readSign_text]
      · rw [if_neg h]
        rfl

/-- **Nothing of the text is lost** when a number is read. -/
theorem readNumeral_text (text : Str) : (readNumeral text).1.text ++
    (readNumeral text).2 = text := by
  have hminus := readMinus_text text
  generalize hbody : (readMinus text).2 = body at hminus
  have hfrac := readFrac_text (body.dropWhile Char.isDigit)
  have hexp := readExp_text (readFrac (body.dropWhile Char.isDigit)).2
  have hint : body.takeWhile Char.isDigit ++ body.dropWhile Char.isDigit = body :=
    List.takeWhile_append_dropWhile
  unfold readNumeral Numeral.text
  simp only [hbody, List.append_assoc]
  rw [hexp, hfrac, hint, hminus]

/-- A text that goes on with no part of the number in front of it. -/
def Stops (rest : Str) : Prop :=
  ∀ c ∈ rest.head?, c.isDigit = false ∧ c ≠ '.' ∧ c ≠ 'e' ∧ c ≠ 'E'

theorem Stops.noDigit {rest : Str} (h : Stops rest) : NoDigit rest := fun c hc => (h c hc).1

theorem stops_nil : Stops [] := nofun

theorem stops_cons {c : Char} (h : c.isDigit = false ∧ c ≠ '.' ∧ c ≠ 'e' ∧ c ≠ 'E') (rest : Str) :
    Stops (c :: rest) := by
  intro d hd
  obtain rfl := Option.some.inj hd
  exact h

theorem readMinus_append (minus : Bool) {int rest : Str} (h : Digits int) :
    readMinus (minusText minus ++ (int ++ rest)) = (minus, int ++ rest) := by
  cases minus with
  | true => rfl
  | false =>
      obtain ⟨c, digits, rfl⟩ := List.exists_cons_of_ne_nil h.1
      have hc : c.isDigit = true := List.all_eq_true.mp h.2 c List.mem_cons_self
      have hne : c ≠ '-' := by
        rintro rfl
        exact absurd hc (by decide)
      exact if_neg hne

theorem readSign_append {sign : Option Char}
    (hsign : sign = none ∨ sign = some '+' ∨ sign = some '-') {digits rest : Str}
    (hdigits : Digits digits) :
    readSign (sign.toList ++ (digits ++ rest)) = (sign, digits ++ rest) := by
  rcases hsign with rfl | rfl | rfl
  · obtain ⟨c, digits, rfl⟩ := List.exists_cons_of_ne_nil hdigits.1
    have hc : c.isDigit = true := List.all_eq_true.mp hdigits.2 c List.mem_cons_self
    refine if_neg ?_
    rintro (rfl | rfl) <;> exact absurd hc (by decide)
  · rfl
  · rfl

theorem readExp_append {exp : Option Exponent} (h : ∀ e ∈ exp, e.WellFormed) {rest : Str}
    (hrest : Stops rest) : readExp (expText exp ++ rest) = (exp, rest) := by
  cases exp with
  | none =>
      cases rest with
      | nil => rfl
      | cons c rest =>
          obtain ⟨-, -, he, hE⟩ := hrest c rfl
          exact if_neg (not_or.mpr ⟨he, hE⟩)
  | some e =>
      obtain ⟨hmark, hsign, hdigits⟩ := h e rfl
      have htext : expText (some e) ++ rest = e.mark :: (e.sign.toList ++ (e.digits ++ rest)) :=
        congrArg (e.mark :: ·) (List.append_assoc ..)
      obtain ⟨htake, hdrop⟩ := span_digits hdigits.2 hrest.noDigit
      rw [htext, readExp, if_pos hmark, readSign_append hsign hdigits]
      show (some (Exponent.mk e.mark e.sign _), _) = _
      rw [htake, hdrop]

theorem noDigit_expText {exp : Option Exponent} (h : ∀ e ∈ exp, e.WellFormed) {rest : Str}
    (hrest : Stops rest) : NoDigit (expText exp ++ rest) := by
  cases exp with
  | none => exact hrest.noDigit
  | some e =>
      refine noDigit_cons ?_ _
      rcases (h e rfl).1 with hmark | hmark <;>
        · rw [hmark]
          decide

theorem readFrac_append {frac : Option Str} (hfrac : ∀ digits ∈ frac, Digits digits)
    {exp : Option Exponent} (hexp : ∀ e ∈ exp, e.WellFormed) {rest : Str} (hrest : Stops rest) :
    readFrac (fracText frac ++ (expText exp ++ rest)) = (frac, expText exp ++ rest) := by
  cases frac with
  | some digits =>
      obtain ⟨htake, hdrop⟩ := span_digits (hfrac digits rfl).2 (noDigit_expText hexp hrest)
      show (some (List.takeWhile _ (digits ++ _)), List.dropWhile _ (digits ++ _)) = _
      rw [htake, hdrop]
  | none =>
      cases exp with
      | some e =>
          refine if_neg ?_
          intro hdot
          rcases (hexp e rfl).1 with hmark | hmark <;>
            · rw [hdot] at hmark
              exact absurd hmark (by decide)
      | none =>
          cases rest with
          | nil => rfl
          | cons c rest => exact if_neg (hrest c rfl).2.1

theorem noDigit_fracText (frac : Option Str) {rest : Str} (hrest : NoDigit rest) :
    NoDigit (fracText frac ++ rest) := by
  cases frac with
  | none => exact hrest
  | some digits => exact noDigit_cons (by decide) _

/-- **A well-formed number is read whole**, and nothing behind it. -/
theorem readNumeral_append {n : Numeral} (h : n.WellFormed) {rest : Str} (hrest : Stops rest) :
    readNumeral (n.text ++ rest) = (n, rest) := by
  obtain ⟨minus, int, frac, exp⟩ := n
  obtain ⟨hint, -, hfrac, hexp⟩ := h
  have htext : Numeral.text ⟨minus, int, frac, exp⟩ ++ rest =
      minusText minus ++ (int ++ (fracText frac ++ (expText exp ++ rest))) := by
    unfold Numeral.text
    simp only [List.append_assoc]
  obtain ⟨htake, hdrop⟩ :=
    span_digits hint.2 (noDigit_fracText frac (noDigit_expText hexp hrest))
  unfold readNumeral
  rw [htext, readMinus_append minus hint]
  dsimp only
  rw [htake, hdrop, readFrac_append hfrac hexp hrest]
  dsimp only
  rw [readExp_append hexp hrest]

/-- What a well-formed number begins with. -/
theorem WellFormed.text_eq_cons {n : Numeral} (h : n.WellFormed) :
    ∃ c rest, n.text = c :: rest ∧ (c = '-' ∨ c.isDigit = true) := by
  obtain ⟨c, digits, hint⟩ := List.exists_cons_of_ne_nil h.1.1
  have hc : c.isDigit = true := by
    refine List.all_eq_true.mp h.1.2 c ?_
    rw [hint]
    exact List.mem_cons_self
  unfold Numeral.text
  cases n.minus with
  | true => exact ⟨'-', _, rfl, .inl rfl⟩
  | false =>
      rw [hint]
      exact ⟨c, _, rfl, .inr hc⟩

end Numeral

/-! ### Strings -/

/-- The characters that have an escape of two characters, each behind its letter. -/
def escapes : List (Char × Char) :=
  [('"', '"'), ('\\', '\\'), ('/', '/'), ('b', '\x08'), ('f', '\x0c'), ('n', '\n'), ('r', '\r'),
    ('t', '\t')]

/-- Four hexadecimal digits, and the code unit they are. -/
def SpellsUnit (digits : Str) (unit : ℕ) : Prop :=
  digits.length = 4 ∧ ofDigitChars 16 digits = some unit

theorem lt_of_foldlM_digitValue {radix n : ℕ} {digits : Str} (acc : ℕ)
    (h : digits.foldlM (fun acc c => (digitValue radix c).map (acc * radix + ·)) acc = some n) :
    n < (acc + 1) * radix ^ digits.length := by
  induction digits generalizing acc with
  | nil =>
      obtain rfl := Option.some.inj h
      rw [List.length_nil, pow_zero, Nat.mul_one]
      exact Nat.lt_succ_self acc
  | cons c digits ih =>
      rw [List.foldlM_cons] at h
      obtain ⟨next, hnext, h⟩ := Option.bind_eq_some_iff.mp h
      obtain ⟨v, hv, rfl⟩ := Option.map_eq_some_iff.mp hnext
      have hlt := lt_of_digitValue hv
      calc n < (acc * radix + v + 1) * radix ^ digits.length := ih _ h
        _ ≤ ((acc + 1) * radix) * radix ^ digits.length := by
            refine Nat.mul_le_mul_right _ ?_
            rw [Nat.succ_mul]
            omega
        _ = (acc + 1) * radix ^ (c :: digits).length := by
            rw [List.length_cons, pow_succ]
            ring

/-- **A code unit** has sixteen bits. -/
theorem SpellsUnit.lt {digits : Str} {unit : ℕ} (h : SpellsUnit digits unit) : unit < 2 ^ 16 := by
  have hlt := lt_of_foldlM_digitValue 0 h.2
  rw [h.1] at hlt
  exact hlt

/-- What stands for one character inside a string. -/
inductive SpellsChar : Str → Char → Prop
  | plain {c : Char} (hcontrol : 0x20 ≤ c.toNat) (hquote : c ≠ '"') (hslash : c ≠ '\\') :
      SpellsChar [c] c
  | escape {mark c : Char} (h : (mark, c) ∈ escapes) : SpellsChar ['\\', mark] c
  | unit {digits : Str} {c : Char} (h : SpellsUnit digits c.toNat) :
      SpellsChar ('\\' :: 'u' :: digits) c
  | pair {high low : Str} {unit unit' : ℕ} {c : Char} (hhigh : SpellsUnit high unit)
      (hlow : SpellsUnit low unit') (hunit : 0xD800 ≤ unit ∧ unit ≤ 0xDBFF)
      (hunit' : 0xDC00 ≤ unit' ∧ unit' ≤ 0xDFFF)
      (hc : c.toNat = 0x10000 + (unit - 0xD800) * 1024 + (unit' - 0xDC00)) :
      SpellsChar ('\\' :: 'u' :: (high ++ '\\' :: 'u' :: low)) c

/-- What stands between the quotes of a string. -/
inductive SpellsString : Str → Str → Prop
  | nil : SpellsString [] []
  | cons {t body s : Str} {c : Char} (hchar : SpellsChar t c) (hbody : SpellsString body s) :
      SpellsString (t ++ body) (c :: s)

/-! ### Values -/

/-- A value. -/
inductive Value where
  | null
  | bool (b : Bool)
  | num (q : ℚ)
  | str (s : Str)
  | array (items : List Value)
  | object (fields : List (Str × Value))

def isWs (c : Char) : Bool := c == ' ' || c == '\t' || c == '\n' || c == '\r'

/-- White space alone. -/
def Ws (w : Str) : Prop := w.all isWs = true

mutual

/-- A text that is one value. -/
inductive Spells : Str → Value → Prop
  | null : Spells "null" .null
  | true : Spells "true" (.bool true)
  | false : Spells "false" (.bool false)
  | num {n : Numeral} (h : n.WellFormed) : Spells n.text (.num n.value)
  | str {body s : Str} (h : SpellsString body s) : Spells ('"' :: (body ++ ['"'])) (.str s)
  | emptyArray {w : Str} (h : Ws w) : Spells ('[' :: (w ++ [']'])) (.array [])
  | array {body : Str} {items : List Value} (h : SpellsItems body items) :
      Spells ('[' :: (body ++ [']'])) (.array items)
  | emptyObject {w : Str} (h : Ws w) : Spells ('{' :: (w ++ ['}'])) (.object [])
  | object {body : Str} {fields : List (Str × Value)} (h : SpellsFields body fields) :
      Spells ('{' :: (body ++ ['}'])) (.object fields)

/-- The items of an array, between its brackets. -/
inductive SpellsItems : Str → List Value → Prop
  | last {w t w' : Str} {item : Value} (hw : Ws w) (hitem : Spells t item) (hw' : Ws w') :
      SpellsItems (w ++ (t ++ w')) [item]
  | cons {w t w' body : Str} {item : Value} {items : List Value} (hw : Ws w) (hitem : Spells t item)
      (hw' : Ws w') (hbody : SpellsItems body items) :
      SpellsItems (w ++ (t ++ (w' ++ ',' :: body))) (item :: items)

/-- The fields of an object, between its braces. -/
inductive SpellsFields : Str → List (Str × Value) → Prop
  | last {w name w₁ w₂ t w₃ key : Str} {value : Value} (hw : Ws w) (hname : SpellsString name key)
      (hw₁ : Ws w₁) (hw₂ : Ws w₂) (hvalue : Spells t value) (hw₃ : Ws w₃) :
      SpellsFields (w ++ '"' :: (name ++ '"' :: (w₁ ++ ':' :: (w₂ ++ (t ++ w₃))))) [(key, value)]
  | cons {w name w₁ w₂ t w₃ body key : Str} {value : Value} {fields : List (Str × Value)}
      (hw : Ws w) (hname : SpellsString name key) (hw₁ : Ws w₁) (hw₂ : Ws w₂)
      (hvalue : Spells t value) (hw₃ : Ws w₃) (hbody : SpellsFields body fields) :
      SpellsFields
        (w ++ '"' :: (name ++ '"' :: (w₁ ++ ':' :: (w₂ ++ (t ++ (w₃ ++ ',' :: body))))))
        ((key, value) :: fields)

end

/-- A whole text: one value, and white space around it. -/
def IsText (text : Str) (value : Value) : Prop :=
  ∃ w t w', text = w ++ (t ++ w') ∧ Ws w ∧ Ws w' ∧ Spells t value

end Rfc8259

end ObbyClient

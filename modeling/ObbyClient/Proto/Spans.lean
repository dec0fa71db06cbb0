import ObbyClient.Lib.Decimal
import ObbyClient.Lib.Longest
import ObbyClient.Proto.Format

/-!
# Spans against the characters of a body

What a reader of a body sees is its characters, each under the codes in front of it.  A body spells
a list of items, characters and codes, in one way only: behind an introducer of colours stands the
longest argument there is.  The spans are this list with the codes gone.

* `Argument` — the arguments of the two introducers;
* `Spells`, `Spells.unique` — the items of a body;
* `kept`, `kept_append` — the characters that stay, under the styles that the codes before them
  make;
* `go_spec` — the loop, from any point of a body on;
* `parseSpans_renders` — the spans of every body.
-/

namespace ObbyClient.Format

/-! ### Arguments of colours -/

/-- One or two digits. -/
def Digits (u : Str) (v : ℕ) : Prop :=
  (u.length = 1 ∨ u.length = 2) ∧ u.all Char.isDigit = true ∧ Nat.ofDigitChars 10 u 0 = v

/-- Six hexadecimal digits, two for each of three values. -/
inductive HexDigits : Str → ℕ × ℕ × ℕ → Prop
  | mk {a b c d e f : Char} {a' b' c' d' e' f' : ℕ} (ha : digitValue 16 a = some a')
      (hb : digitValue 16 b = some b') (hc : digitValue 16 c = some c')
      (hd : digitValue 16 d = some d')
      (he : digitValue 16 e = some e') (hf : digitValue 16 f = some f') :
      HexDigits [a, b, c, d, e, f] (16 * a' + b', 16 * c' + d', 16 * e' + f')

/-- What may stand behind an introducer, with the colours it names. -/
inductive Argument : Char → Str → Colour × Option Colour → Prop
  | numbered {u : Str} {v : ℕ × Option ℕ} (h : Paired Digits ',' u v) :
      Argument colour u (.numbered v.1, v.2.map .numbered)
  | hex {u : Str} {v : (ℕ × ℕ × ℕ) × Option (ℕ × ℕ × ℕ)} (h : Paired HexDigits ',' u v) :
      Argument hexColour u (.hex v.1.1 v.1.2.1 v.1.2.2, v.2.map fun w => .hex w.1 w.2.1 w.2.2)

theorem digits_unique {u : Str} {v v' : ℕ} (h : Digits u v) (h' : Digits u v') : v = v' :=
  h.2.2.symm.trans h'.2.2

theorem hexDigits_unique {u : Str} {v v' : ℕ × ℕ × ℕ} (h : HexDigits u v) (h' : HexDigits u v') :
    v = v' := by
  cases h with
  | mk ha hb hc hd he hf =>
      cases h' with
      | mk ha' hb' hc' hd' he' hf' =>
          simp_all only [Option.some.injEq]

theorem digits_comma {u : Str} {v : ℕ} (h : Digits u v) : ',' ∉ u := fun hmem =>
  absurd (List.all_eq_true.mp h.2.1 ',' hmem) (by decide)

theorem hexDigits_comma {u : Str} {v : ℕ × ℕ × ℕ} (h : HexDigits u v) : ',' ∉ u := by
  intro hmem
  have hne : ∀ {c : Char} {m : ℕ}, digitValue 16 c = some m → ',' ≠ c := by
    rintro c m hc rfl
    cases hc
  cases h with
  | mk ha hb hc hd he hf =>
      simp [hne ha, hne hb, hne hc, hne hd, hne he, hne hf] at hmem

section TakeDigits

variable {c d : Char} {m n : ℕ} (chars : Str)

theorem takeDigits_none (hc : digitValue 10 c = none) : takeDigits 2 (c :: chars) = none := by
  simp [takeDigits, takeDigits.go, hc]

theorem takeDigits_singleton (hc : digitValue 10 c = some m) : takeDigits 2 [c] = some (m, []) := by
  simp [takeDigits, takeDigits.go, hc]

theorem takeDigits_stop (hc : digitValue 10 c = some m) (hd : digitValue 10 d = none) :
    takeDigits 2 (c :: d :: chars) = some (m, d :: chars) := by
  simp [takeDigits, takeDigits.go, hc, hd]

theorem takeDigits_two (hc : digitValue 10 c = some m) (hd : digitValue 10 d = some n) :
    takeDigits 2 (c :: d :: chars) = some (m * 10 + n, chars) := by
  simp [takeDigits, takeDigits.go, hc, hd]

theorem value_of_digitValue (hc : digitValue 10 c = some m) : m = c.toNat - '0'.toNat :=
  Option.some.inj (hc.symm.trans (digitValue_of_isDigit (isDigit_of_digitValue hc)))

theorem digits_one (hc : digitValue 10 c = some m) : Digits [c] m := by
  refine ⟨Or.inl rfl, by simp [isDigit_of_digitValue hc], ?_⟩
  rw [value_of_digitValue hc, Nat.ofDigitChars_cons]
  simp

theorem digits_two (hc : digitValue 10 c = some m) (hd : digitValue 10 d = some n) :
    Digits [c, d] (m * 10 + n) := by
  refine ⟨Or.inr rfl, by simp [isDigit_of_digitValue hc, isDigit_of_digitValue hd], ?_⟩
  rw [value_of_digitValue hc, value_of_digitValue hd, Nat.ofDigitChars_cons, Nat.ofDigitChars_cons]
  simp [Nat.mul_comm]

end TakeDigits

/-- **Digits are taken as long as they go**, up to two. -/
theorem takesLongest_digits : TakesLongest (takeDigits 2) Digits := by
  have hlong : ∀ {u : Str} {v : ℕ}, Digits u v → u.length ≤ 2 := by
    rintro u v ⟨hlen, -⟩
    omega
  -- a digit is one wherever it stands
  have hdigits : ∀ {u s : Str} {v : ℕ} {k : ℕ} {c : Char}, Digits u v → u <+: s → k < u.length →
      s[k]? = some c → digitValue 10 c ≠ none := by
    intro u s v k c hword hprefix hk hc
    obtain ⟨t, rfl⟩ := hprefix
    rw [List.getElem?_append_left hk] at hc
    have hdigit := List.all_eq_true.mp hword.2.1 c (List.mem_of_getElem? hc)
    rw [digitValue_of_isDigit hdigit]
    exact Option.some_ne_none _
  have hpos : ∀ {u : Str} {v : ℕ}, Digits u v → 0 < u.length := by
    rintro u v ⟨hlen, -⟩
    omega
  constructor
  · intro s v rest h
    rcases s with _ | ⟨c, chars⟩
    · cases h
    cases hc : digitValue 10 c with
    | none =>
        rw [takeDigits_none chars hc] at h
        cases h
    | some m =>
        rcases chars with _ | ⟨d, chars⟩
        · rw [takeDigits_singleton hc] at h
          cases h
          exact ⟨[c], rfl, digits_one hc, List.prefix_rfl, fun u' v' _ hprefix => hprefix.length_le⟩
        cases hd : digitValue 10 d with
        | none =>
            rw [takeDigits_stop chars hc hd] at h
            cases h
            refine ⟨[c], rfl, digits_one hc, ⟨d :: chars, rfl⟩, fun u' v' hword hprefix => ?_⟩
            by_contra hlonger
            exact hdigits hword hprefix (Nat.lt_of_not_le hlonger) rfl hd
        | some n =>
            rw [takeDigits_two chars hc hd] at h
            cases h
            exact ⟨[c, d], rfl, digits_two hc hd, ⟨rest, rfl⟩, fun u' v' hword _ => hlong hword⟩
  · intro s h u v hword hprefix
    rcases s with _ | ⟨c, chars⟩
    · exact absurd (hpos hword) (by rw [List.prefix_nil.mp hprefix]; exact lt_irrefl 0)
    cases hc : digitValue 10 c with
    | none => exact hdigits hword hprefix (hpos hword) rfl hc
    | some m =>
        rcases chars with _ | ⟨d, chars⟩
        · rw [takeDigits_singleton hc] at h
          cases h
        cases hd : digitValue 10 d with
        | none =>
            rw [takeDigits_stop chars hc hd] at h
            cases h
        | some n =>
            rw [takeDigits_two chars hc hd] at h
            cases h

theorem hexByte_eq_some {s rest : Str} {v : ℕ} : hexByte s = some (v, rest) ↔
    ∃ a b m n, s = a :: b :: rest ∧ digitValue 16 a = some m ∧ digitValue 16 b = some n ∧
      v = 16 * m + n := by
  have hvalue : ∀ {a b : Char} {m n : ℕ}, digitValue 16 a = some m → digitValue 16 b = some n →
      m <<< 4 ||| n = 16 * m + n := by
    intro a b m n ha hb
    rw [← Nat.shiftLeft_add_eq_or_of_lt (lt_of_digitValue hb) m, Nat.shiftLeft_eq, Nat.mul_comm]
  constructor
  · intro h
    unfold hexByte at h
    split at h
    · obtain ⟨m, ha, h⟩ := Option.bind_eq_some_iff.mp h
      obtain ⟨n, hb, h⟩ := Option.bind_eq_some_iff.mp h
      cases h
      exact ⟨_, _, m, n, rfl, ha, hb, hvalue ha hb⟩
    · cases h
  · rintro ⟨a, b, m, n, rfl, ha, hb, rfl⟩
    rw [hexByte, ha, hb, ← hvalue ha hb]
    rfl

/-- What six hexadecimal digits are read as, whatever is behind them. -/
theorem takeHexTriple_eq_some {s rest : Str} {v : ℕ × ℕ × ℕ} :
    takeHexTriple s = some (v, rest) ↔ ∃ u, s = u ++ rest ∧ HexDigits u v := by
  constructor
  · intro h
    obtain ⟨⟨red, chars₁⟩, hred, h⟩ := Option.bind_eq_some_iff.mp h
    obtain ⟨⟨green, chars₂⟩, hgreen, h⟩ := Option.bind_eq_some_iff.mp h
    obtain ⟨⟨blue, chars₃⟩, hblue, h⟩ := Option.bind_eq_some_iff.mp h
    cases h
    obtain ⟨a, b, m, n, rfl, ha, hb, rfl⟩ := hexByte_eq_some.mp hred
    obtain ⟨c, d, m', n', rfl, hc, hd, rfl⟩ := hexByte_eq_some.mp hgreen
    obtain ⟨e, f, m'', n'', rfl, he, hf, rfl⟩ := hexByte_eq_some.mp hblue
    exact ⟨[a, b, c, d, e, f], rfl, .mk ha hb hc hd he hf⟩
  · rintro ⟨u, rfl, h⟩
    cases h with
    | mk ha hb hc hd he hf =>
        have hbyte : ∀ {x y : Char} {m n : ℕ} (t : Str), digitValue 16 x = some m →
            digitValue 16 y = some n → hexByte (x :: y :: t) = some (16 * m + n, t) :=
          fun t hx hy => hexByte_eq_some.mpr ⟨_, _, _, _, rfl, hx, hy, rfl⟩
        simp [takeHexTriple, hbyte _ ha hb, hbyte _ hc hd, hbyte _ he hf]

theorem hexDigits_length {u : Str} {v : ℕ × ℕ × ℕ} (h : HexDigits u v) : u.length = 6 := by
  cases h
  rfl

/-- **Hexadecimal digits are taken six at a time** or not at all. -/
theorem takesLongest_hexDigits : TakesLongest takeHexTriple HexDigits := by
  constructor
  · intro s v rest h
    obtain ⟨u, rfl, hword⟩ := takeHexTriple_eq_some.mp h
    refine ⟨u, rfl, hword, List.prefix_append _ _, fun u' v' hword' _ => ?_⟩
    rw [hexDigits_length hword, hexDigits_length hword']
  · rintro s h u v hword ⟨rest, rfl⟩
    rw [takeHexTriple_eq_some.mpr ⟨u, rfl, hword⟩] at h
    cases h

/-- What a reader of colours does with the words its introducer takes. -/
theorem parseColour_eq {α : Type} (take : Str → Option (α × Str)) (paint : α → Colour)
    (chars : Str) :
    parseColour take (takeComma take) paint chars =
      (takePair take ',' chars).elim (none, chars) fun pair =>
        (some (paint pair.1.1, pair.1.2.map paint), pair.2) := by
  unfold parseColour takePair
  cases take chars with
  | none => rfl
  | some first =>
      obtain ⟨v, rest⟩ := first
      have hcomma : takeComma take rest = if rest.head? = some ',' then take rest.tail
          else none := by
        unfold takeComma
        split
        · rfl
        · rename_i hne
          refine (if_neg fun hhead => ?_).symm
          obtain ⟨tail, rfl⟩ := List.head?_eq_some_iff.mp hhead
          exact hne tail rfl
      dsimp only
      rw [hcomma]
      cases h : (if rest.head? = some ',' then take rest.tail else none) <;>
        simp [h]

/-- A reader takes the longest argument of its introducer, and leaves the text alone when there is
none. -/
structure ReadsColour (intro : Char) (parse : Str → Option (Colour × Option Colour) × Str) :
    Prop where
  found : ∀ {chars parsed}, (parse chars).1 = some parsed →
    ∃ arg, chars = arg ++ (parse chars).2 ∧ Longest (Argument intro) chars arg parsed
  missed : ∀ {chars}, (parse chars).1 = none →
    (parse chars).2 = chars ∧ ∀ arg parsed, Argument intro arg parsed → ¬arg <+: chars

theorem readsColour_of {α : Type} {take : Str → Option (α × Str)} {paint : α → Colour}
    {L : Str → α → Prop} {intro : Char} (h : TakesLongest take L) (hsep : ∀ {u v}, L u v → ',' ∉ u)
    (harg : ∀ {u parsed}, Argument intro u parsed ↔
      ∃ v, Paired L ',' u v ∧ parsed = (paint v.1, v.2.map paint)) :
    ReadsColour intro (parseColour take (takeComma take) paint) := by
  have hpair := takesLongest_pair h hsep
  constructor
  · intro chars parsed hparsed
    rw [parseColour_eq] at hparsed ⊢
    cases hcase : takePair take ',' chars with
    | none =>
        rw [hcase] at hparsed
        cases hparsed
    | some pair =>
        obtain ⟨v, rest⟩ := pair
        rw [hcase] at hparsed
        cases hparsed
        obtain ⟨u, hchars, hu⟩ := hpair.found hcase
        refine ⟨u, hchars, harg.mpr ⟨v, hu.word, rfl⟩, hu.front, fun u' v' hword hprefix => ?_⟩
        obtain ⟨w, hw, -⟩ := harg.mp hword
        exact hu.longest u' w hw hprefix
  · intro chars hparsed
    rw [parseColour_eq] at hparsed ⊢
    cases hcase : takePair take ',' chars with
    | none =>
        refine ⟨rfl, fun arg parsed hword => ?_⟩
        obtain ⟨w, hw, -⟩ := harg.mp hword
        exact hpair.missed hcase arg w hw
    | some pair =>
        rw [hcase] at hparsed
        cases hparsed

theorem readsColour_numbered : ReadsColour colour parseNumberedColour := by
  refine readsColour_of takesLongest_digits digits_comma ?_
  intro u parsed
  constructor
  · rintro (⟨h⟩ | ⟨h⟩)
    exact ⟨_, h, rfl⟩
  · rintro ⟨v, h, rfl⟩
    exact .numbered h

theorem readsColour_hex : ReadsColour hexColour parseHexColour := by
  refine readsColour_of takesLongest_hexDigits hexDigits_comma ?_
  intro u parsed
  constructor
  · rintro (⟨h⟩ | ⟨h⟩)
    exact ⟨_, h, rfl⟩
  · rintro ⟨v, h, rfl⟩
    exact .hex h

/-! ### The items of a body -/

/-- The nine control characters. -/
def controls : List Char :=
  [bold, italic, underline, strikethrough, monospace, reverse, reset, colour, hexColour]

/-- What a control character does. -/
inductive Code
  | toggle (bit : UInt8)
  | reset
  | colours

/-- The code of a control character. -/
def code (c : Char) : Option Code :=
  if let some bit := toggles.lookup c then some (.toggle bit)
  else if c = reset then some .reset
  else if c = colour ∨ c = hexColour then some .colours
  else none

theorem code_eq_none {c : Char} : code c = none ↔ c ∉ controls := by
  constructor
  · intro h hmem
    simp only [controls, List.mem_cons, List.not_mem_nil, or_false] at hmem
    rcases hmem with rfl | rfl | rfl | rfl | rfl | rfl | rfl | rfl | rfl <;> cases h
  · intro h
    simp only [controls, List.mem_cons, List.not_mem_nil, or_false, not_or] at h
    have hlookup : toggles.lookup c = none := by
      rw [List.lookup_eq_none_iff]
      simp [toggles, h]
    rw [code, hlookup]
    simp [h]

/-- A character that is text, or a code with what it does. -/
inductive Item
  | char (c : Char)
  | toggle (bit : UInt8)
  | reset
  | colours (parsed : Option (Colour × Option Colour))

namespace Item

/-- The character that an item is. -/
def char? : Item → Option Char
  | char c => some c
  | _ => none

/-- The style behind an item. -/
def apply (style : Style) : Item → Style
  | char _ => style
  | toggle bit => style.toggle bit
  | reset => .default
  | colours parsed => style.applyColour parsed

end Item

/-- The items that a body spells.  Behind an introducer stands its longest argument, or none if no
argument is a prefix of what follows. -/
inductive Spells : Str → List Item → Prop
  | nil : Spells [] []
  | char {c : Char} {rest : Str} {items : List Item} (hc : code c = none) (h : Spells rest items) :
      Spells (c :: rest) (.char c :: items)
  | toggle {c : Char} {bit : UInt8} {rest : Str} {items : List Item}
      (hc : code c = some (.toggle bit)) (h : Spells rest items) :
      Spells (c :: rest) (.toggle bit :: items)
  | reset {c : Char} {rest : Str} {items : List Item} (hc : code c = some .reset)
      (h : Spells rest items) : Spells (c :: rest) (.reset :: items)
  | colours {c : Char} {chars arg rest : Str} {parsed : Colour × Option Colour} {items : List Item}
      (hc : code c = some .colours) (harg : Longest (Argument c) chars arg parsed)
      (hrest : chars = arg ++ rest) (h : Spells rest items) :
      Spells (c :: chars) (.colours (some parsed) :: items)
  | bare {c : Char} {rest : Str} {items : List Item} (hc : code c = some .colours)
      (hnone : ∀ arg parsed, Argument c arg parsed → ¬arg <+: rest) (h : Spells rest items) :
      Spells (c :: rest) (.colours none :: items)

theorem argument_unique {c : Char} {u : Str} {parsed parsed' : Colour × Option Colour}
    (h : Argument c u parsed) (h' : Argument c u parsed') : parsed = parsed' := by
  rcases h with ⟨h⟩ | ⟨h⟩
  · rcases h' with ⟨h'⟩ | ⟨h'⟩
    rw [Paired.unique (L := Digits) digits_unique digits_comma h h']
  · rcases h' with ⟨h'⟩ | ⟨h'⟩
    rw [Paired.unique (L := HexDigits) hexDigits_unique hexDigits_comma h h']

/-- **A body spells its items in one way only.** -/
theorem Spells.unique {body : Str} {items items' : List Item} (h : Spells body items)
    (h' : Spells body items') : items = items' := by
  induction h generalizing items' with
  | nil =>
      cases h'
      rfl
  | char hc h ih =>
      cases h' with
      | char _ h' => rw [ih h']
      | toggle hc' h' => rw [hc] at hc'; cases hc'
      | reset hc' h' => rw [hc] at hc'; cases hc'
      | colours hc' _ _ h' => rw [hc] at hc'; cases hc'
      | bare hc' _ h' => rw [hc] at hc'; cases hc'
  | toggle hc h ih =>
      cases h' with
      | char hc' h' => rw [hc] at hc'; cases hc'
      | toggle hc' h' =>
          rw [hc] at hc'
          cases hc'
          rw [ih h']
      | reset hc' h' => rw [hc] at hc'; cases hc'
      | colours hc' _ _ h' => rw [hc] at hc'; cases hc'
      | bare hc' _ h' => rw [hc] at hc'; cases hc'
  | reset hc h ih =>
      cases h' with
      | char hc' h' => rw [hc] at hc'; cases hc'
      | toggle hc' h' => rw [hc] at hc'; cases hc'
      | reset hc' h' => rw [ih h']
      | colours hc' _ _ h' => rw [hc] at hc'; cases hc'
      | bare hc' _ h' => rw [hc] at hc'; cases hc'
  | colours hc harg hrest h ih =>
      cases h' with
      | char hc' h' => rw [hc] at hc'; cases hc'
      | toggle hc' h' => rw [hc] at hc'; cases hc'
      | reset hc' h' => rw [hc] at hc'; cases hc'
      | colours hc' harg' hrest' h' =>
          obtain ⟨rfl, rfl⟩ := Longest.unique (L := Argument _) argument_unique harg harg'
          obtain rfl := List.append_cancel_left (hrest.symm.trans hrest')
          rw [ih h']
      | bare hc' hnone h' => exact absurd harg.front (hnone _ _ harg.word)
  | bare hc hnone h ih =>
      cases h' with
      | char hc' h' => rw [hc] at hc'; cases hc'
      | toggle hc' h' => rw [hc] at hc'; cases hc'
      | reset hc' h' => rw [hc] at hc'; cases hc'
      | colours hc' harg' hrest' h' => exact absurd harg'.front (hnone _ _ harg'.word)
      | bare hc' hnone' h' => rw [ih h']

/-- The characters that stay, each under the style that the codes before it make. -/
def kept (style : Style) : List Item → List (Char × Style)
  | [] => []
  | .char c :: items => (c, style) :: kept style items
  | item :: items => kept (item.apply style) items

theorem kept_append (style : Style) (items items' : List Item) :
    kept style (items ++ items') = kept style items ++
      kept (items.foldl Item.apply style) items' := by
  induction items generalizing style with
  | nil => rfl
  | cons item items ih =>
      cases item with
      | char c => exact congrArg ((c, style) :: ·) (ih style)
      | toggle bit => exact ih _
      | reset => exact ih _
      | colours parsed => exact ih _

/-- The characters of a span with its style. -/
def Span.chars (span : Span) : List (Char × Style) := span.text.map fun c => (c, span.style)

/-- What is written so far, the open span included. -/
def Parser.chars (p : Parser) : List (Char × Style) :=
  p.spans.flatMap Span.chars ++ p.current.map fun c => (c, p.style)

theorem Parser.chars_flush (p : Parser) (style : Style) :
    Parser.chars { p.flush with style := style } = p.chars := by
  unfold flush
  by_cases h : p.current = []
  · rw [if_pos h]
    simp [Parser.chars, h]
  · rw [if_neg h]
    simp [Parser.chars, Span.chars]

theorem Parser.spans_flush (p : Parser) : p.flush.spans.flatMap Span.chars = p.chars := by
  unfold flush
  by_cases h : p.current = []
  · rw [if_pos h]
    simp [Parser.chars, h]
  · rw [if_neg h]
    simp [Parser.chars, Span.chars]

/-! ### The loop -/

section Go

variable (p : Parser) {c : Char} (chars : Str)

theorem go_nil : parseSpans.go p [] = p.flush := by rw [parseSpans.go]

theorem go_char (hc : code c = none) :
    parseSpans.go p (c :: chars) = parseSpans.go { p with current := p.current ++ [c] } chars := by
  have hnot := code_eq_none.mp hc
  simp only [controls, List.mem_cons, List.not_mem_nil, or_false, not_or] at hnot
  have hlookup : toggles.lookup c = none := by
    rw [List.lookup_eq_none_iff]
    simp [toggles, hnot]
  rw [parseSpans.go, hlookup]
  simp [hnot]

theorem go_toggle {bit : UInt8} (hc : code c = some (.toggle bit)) :
    parseSpans.go p (c :: chars) =
      parseSpans.go { p.flush with style := p.style.toggle bit } chars := by
  have hlookup : toggles.lookup c = some bit := by
    unfold code at hc
    split at hc
    · cases hc
      assumption
    · split_ifs at hc <;> cases hc
  rw [parseSpans.go, hlookup]

theorem go_reset (hc : code c = some .reset) :
    parseSpans.go p (c :: chars) = parseSpans.go { p.flush with style := .default } chars := by
  have hreset : c = reset := by
    unfold code at hc
    split at hc
    · cases hc
    · split_ifs at hc
      · assumption
      · cases hc
  subst hreset
  rw [parseSpans.go]
  rfl

/-- An introducer has a reader of its own. -/
theorem go_colours (hc : code c = some .colours) :
    ∃ parse, ReadsColour c parse ∧ ∀ (p : Parser) (chars : Str), parseSpans.go p (c :: chars) =
      parseSpans.go { p.flush with style := p.style.applyColour (parse chars).1 }
        (parse chars).2 := by
  have hintro : c = colour ∨ c = hexColour := by
    unfold code at hc
    split at hc
    · cases hc
    · split_ifs at hc
      · cases hc
      · assumption
  rcases hintro with rfl | rfl
  · refine ⟨parseNumberedColour, readsColour_numbered, fun p chars => ?_⟩
    rw [parseSpans.go]
    rfl
  · refine ⟨parseHexColour, readsColour_hex, fun p chars => ?_⟩
    rw [parseSpans.go]
    rfl

end Go

/-- **The loop from any point on**: what is left of the body spells its items, and they are added
under the styles that they make. -/
theorem go_spec (chars : Str) : ∃ items, Spells chars items ∧ ∀ p : Parser,
    (parseSpans.go p chars).spans.flatMap Span.chars = p.chars ++ kept p.style items := by
  induction hn : chars.length using Nat.strong_induction_on generalizing chars with
  | _ n ih =>
      cases chars with
      | nil =>
          refine ⟨[], .nil, fun p => ?_⟩
          rw [go_nil, kept, List.append_nil, Parser.spans_flush]
      | cons c chars =>
          cases hc : code c with
          | none =>
              obtain ⟨items, hitems, hgo⟩ := ih chars.length (by simp at hn; omega) chars rfl
              refine ⟨.char c :: items, .char hc hitems, fun p => ?_⟩
              rw [go_char p chars hc, hgo]
              simp [Parser.chars, kept]
          | some control =>
              cases control with
              | toggle bit =>
                  obtain ⟨items, hitems, hgo⟩ := ih chars.length (by simp at hn; omega) chars rfl
                  refine ⟨.toggle bit :: items, .toggle hc hitems, fun p => ?_⟩
                  rw [go_toggle p chars hc, hgo, Parser.chars_flush]
                  rfl
              | reset =>
                  obtain ⟨items, hitems, hgo⟩ := ih chars.length (by simp at hn; omega) chars rfl
                  refine ⟨.reset :: items, .reset hc hitems, fun p => ?_⟩
                  rw [go_reset p chars hc, hgo, Parser.chars_flush]
                  rfl
              | colours =>
                  obtain ⟨parse, hreads, hgo⟩ := go_colours hc
                  cases hparsed : (parse chars).1 with
                  | some parsed =>
                      obtain ⟨arg, hrest, harg⟩ := hreads.found hparsed
                      have hlen : (parse chars).2.length ≤ chars.length := by
                        rw [congrArg List.length hrest, List.length_append]
                        exact Nat.le_add_left _ _
                      obtain ⟨items, hitems, hrun⟩ :=
                        ih (parse chars).2.length (by simp at hn; omega) (parse chars).2 rfl
                      refine ⟨.colours (some parsed) :: items, .colours hc harg hrest hitems,
                        fun p => ?_⟩
                      rw [hgo, hrun, Parser.chars_flush, hparsed]
                      rfl
                  | none =>
                      obtain ⟨hrest, hnone⟩ := hreads.missed hparsed
                      obtain ⟨items, hitems, hrun⟩ :=
                        ih chars.length (by simp at hn; omega) chars rfl
                      refine ⟨.colours none :: items, .bare hc hnone hitems, fun p => ?_⟩
                      rw [hgo, hrest, hrun, Parser.chars_flush, hparsed]
                      rfl

/-- No span is ended before anything is in it. -/
theorem go_ne_nil (p : Parser) (chars : Str) (h : ∀ span ∈ p.spans, span.text ≠ []) :
    ∀ span ∈ (parseSpans.go p chars).spans, span.text ≠ [] := by
  have hflush : ∀ {p : Parser}, (∀ span ∈ p.spans, span.text ≠ []) →
      ∀ span ∈ p.flush.spans, span.text ≠ [] := by
    intro p h span hspan
    unfold Parser.flush at hspan
    split at hspan
    · exact h span hspan
    · rename_i hcurrent
      rcases List.mem_append.mp hspan with hspan | hspan
      · exact h span hspan
      · rw [List.mem_singleton.mp hspan]
        exact hcurrent
  fun_induction parseSpans.go p chars with
  | case1 p => exact hflush h
  | case2 p c chars bit hlookup ih => exact ih (hflush h)
  | case3 p chars hlookup ih => exact ih (hflush h)
  | case4 p chars hlookup hreset ih => exact ih (hflush h)
  | case5 p chars hlookup hreset hcolour ih => exact ih (hflush h)
  | case6 p c chars hlookup hreset hcolour hhex ih => exact ih h

/-- A colour as its type has it: a number below a hundred, or three bytes. -/
def Colour.InRange : Colour → Prop
  | .numbered number => number ≤ 99
  | .hex red green blue => red ≤ 255 ∧ green ≤ 255 ∧ blue ≤ 255

/-- A style with such colours. -/
structure Style.InRange (s : Style) : Prop where
  foreground : ∀ {c}, s.foreground = some c → c.InRange
  background : ∀ {c}, s.background = some c → c.InRange

theorem Style.inRange_default : Style.default.InRange := ⟨nofun, nofun⟩

theorem digits_le {u : Str} {v : ℕ} (h : Digits u v) : v ≤ 99 := by
  have hlt := ofDigitChars_lt h.2.1
  rw [h.2.2] at hlt
  have hpow : 10 ^ u.length ≤ 10 ^ 2 :=
    Nat.pow_le_pow_right (by decide) (by rcases h.1 with h | h <;> omega)
  omega

theorem hexDigits_le {u : Str} {v : ℕ × ℕ × ℕ} (h : HexDigits u v) :
    v.1 ≤ 255 ∧ v.2.1 ≤ 255 ∧ v.2.2 ≤ 255 := by
  cases h with
  | mk ha hb hc hd he hf =>
      have ha := lt_of_digitValue ha
      have hb := lt_of_digitValue hb
      have hc := lt_of_digitValue hc
      have hd := lt_of_digitValue hd
      have he := lt_of_digitValue he
      have hf := lt_of_digitValue hf
      dsimp only
      omega

/-- **The arguments name no colour that there is not.** -/
theorem argument_inRange {c : Char} {u : Str} {parsed : Colour × Option Colour}
    (h : Argument c u parsed) : parsed.1.InRange ∧ ∀ {b}, parsed.2 = some b → b.InRange := by
  rcases h with ⟨h⟩ | ⟨h⟩
  · rcases h with ⟨h⟩ | ⟨h, h'⟩
    · exact ⟨digits_le h, nofun⟩
    · refine ⟨digits_le h, fun hb => ?_⟩
      cases hb
      exact digits_le h'
  · rcases h with ⟨h⟩ | ⟨h, h'⟩
    · exact ⟨hexDigits_le h, nofun⟩
    · refine ⟨hexDigits_le h, fun hb => ?_⟩
      cases hb
      exact hexDigits_le h'

theorem Style.inRange_applyColour {s : Style} (h : s.InRange) {parsed : Colour × Option Colour}
    (hparsed : parsed.1.InRange ∧ ∀ {b}, parsed.2 = some b → b.InRange) :
    (s.applyColour (some parsed)).InRange := by
  obtain ⟨foreground, background⟩ := parsed
  constructor
  · intro c hc
    cases hc
    exact hparsed.1
  · intro c hc
    cases background with
    | none => exact h.background hc
    | some b =>
        cases hc
        exact hparsed.2 rfl

/-- What stays is no control character, and no style has a colour that there is not. -/
theorem kept_sound {body : Str} {items : List Item} (h : Spells body items) {s : Style}
    (hs : s.InRange) : ∀ entry ∈ kept s items, code entry.1 = none ∧ entry.2.InRange := by
  induction h generalizing s with
  | nil => exact fun _ hmem => (List.not_mem_nil hmem).elim
  | char hc h ih => exact List.forall_mem_cons.mpr ⟨⟨hc, hs⟩, ih hs⟩
  | toggle hc h ih => exact ih ⟨hs.foreground, hs.background⟩
  | reset hc h ih => exact ih Style.inRange_default
  | colours hc harg hrest h ih =>
      exact ih (Style.inRange_applyColour hs (argument_inRange harg.word))
  | bare hc hnone h ih => exact ih ⟨nofun, nofun⟩

/-! ### The spans of a body -/

theorem map_fst_kept (style : Style) (items : List Item) :
    (kept style items).map Prod.fst = items.filterMap Item.char? := by
  induction items generalizing style with
  | nil => rfl
  | cons item items ih =>
      cases item with
      | char c => exact congrArg (c :: ·) (ih style)
      | toggle bit => exact ih _
      | reset => exact ih _
      | colours parsed => exact ih _

theorem flatMap_text (spans : List Span) :
    spans.flatMap (fun span => span.text) = (spans.flatMap Span.chars).map Prod.fst := by
  induction spans with
  | nil => rfl
  | cons span spans ih =>
      rw [List.flatMap_cons, List.flatMap_cons, List.map_append, ih, Span.chars, List.map_map]
      exact congrArg (· ++ _) (List.map_id _).symm

/-- What the spans of a body are: its characters in order, with every code and its argument gone,
each under the style that the codes before it make. -/
structure Renders (body : Str) (spans : List Span) : Prop where
  items : ∃ items, Spells body items ∧ (∀ items', Spells body items' → items' = items) ∧
    spans.flatMap (fun span => span.text) = items.filterMap Item.char? ∧
    ∀ front c back, items = front ++ .char c :: back →
      (spans.flatMap Span.chars)[(front.filterMap Item.char?).length]? =
        some (c, front.foldl Item.apply .default)
  text : ∀ span ∈ spans, span.text ≠ []
  clean : ∀ span ∈ spans, ∀ c ∈ span.text, c ∉ controls
  inRange : ∀ span ∈ spans, span.style.InRange

theorem renders_parseSpans (body : Str) : Renders body (parseSpans body) := by
  obtain ⟨items, hitems, hgo⟩ := go_spec body
  have hchars : (parseSpans body).flatMap Span.chars = kept .default items := hgo _
  have htext : ∀ span ∈ parseSpans body, span.text ≠ [] := go_ne_nil _ body nofun
  have hsound : ∀ span ∈ parseSpans body, ∀ c ∈ span.text, code c = none ∧ span.style.InRange := by
    intro span hspan c hc
    refine kept_sound hitems Style.inRange_default (c, span.style) ?_
    rw [← hchars]
    exact List.mem_flatMap.mpr ⟨span, hspan, List.mem_map.mpr ⟨c, hc, rfl⟩⟩
  refine ⟨⟨items, hitems, fun items' h => h.unique hitems, ?_, ?_⟩, htext, ?_, ?_⟩
  · rw [flatMap_text, hchars, map_fst_kept]
  · rintro front c back rfl
    rw [hchars, kept_append, ← map_fst_kept .default, List.length_map,
      List.getElem?_append_right le_rfl, Nat.sub_self]
    rfl
  · exact fun span hspan c hc => code_eq_none.mp (hsound span hspan c hc).1
  · intro span hspan
    obtain ⟨c, hc⟩ := List.exists_mem_of_ne_nil _ (htext span hspan)
    exact (hsound span hspan c hc).2

/-- Text without a control character is its own items. -/
theorem spells_map_char {text : Str} (h : ∀ c ∈ text, c ∉ controls) :
    Spells text (text.map Item.char) := by
  induction text with
  | nil => exact .nil
  | cons c text ih =>
      rw [List.forall_mem_cons] at h
      exact .char (code_eq_none.mpr h.1) (ih h.2)

theorem stripFormatting_of_clean {text : Str} (h : ∀ c ∈ text, c ∉ controls) :
    stripFormatting text = text := by
  obtain ⟨items, -, hunique, htext, -⟩ := (renders_parseSpans text).items
  rw [stripFormatting, htext, ← hunique _ (spells_map_char h), List.filterMap_map]
  exact List.filterMap_some

/-- **Spans are the body, character by character**, and stripping a body again changes nothing. -/
theorem parseSpans_renders (body : Str) :
    Renders body (parseSpans body) ∧ stripFormatting (stripFormatting body) =
      stripFormatting body := by
  have hrenders := renders_parseSpans body
  refine ⟨hrenders, stripFormatting_of_clean fun c hc => ?_⟩
  obtain ⟨span, hspan, hmem⟩ := List.mem_flatMap.mp hc
  exact hrenders.clean span hspan c hmem

end ObbyClient.Format

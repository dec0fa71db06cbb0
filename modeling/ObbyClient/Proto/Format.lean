import ObbyClient.Lib.Text

/-!
# Formatting codes inside a message body

A body is text with control characters in it: six toggles, a reset, and two introducers of colours.
Nothing is escaped, so the digits behind an introducer are only ambiguous and never invalid, and the
reader takes as many of them as it can.
-/

namespace ObbyClient.Format

def bold : Char := '\x02'
def italic : Char := '\x1D'
def underline : Char := '\x1F'
def strikethrough : Char := '\x1E'
def monospace : Char := '\x11'
def reverse : Char := '\x16'
def reset : Char := '\x0F'
def colour : Char := '\x03'
def hexColour : Char := '\x04'

/-- A colour. -/
inductive Colour
  /-- One of the numbered colours. -/
  | numbered (number : ℕ)
  /-- Red, green and blue. -/
  | hex (red green blue : ℕ)
  deriving DecidableEq

/-- The six text decorations, each a bit. -/
structure Emphasis where
  bits : UInt8
  deriving DecidableEq

namespace Emphasis

def bold : UInt8 := 0b00000001
def italic : UInt8 := 0b00000010
def underline : UInt8 := 0b00000100
def strikethrough : UInt8 := 0b00001000
def monospace : UInt8 := 0b00010000
def reverse : UInt8 := 0b00100000

def toggle (e : Emphasis) (bit : UInt8) : Emphasis := ⟨e.bits ^^^ bit⟩

end Emphasis

/-- The formatting over a run of text. -/
structure Style where
  emphasis : Emphasis
  foreground : Option Colour
  background : Option Colour
  deriving DecidableEq

namespace Style

def default : Style := ⟨⟨0⟩, none, none⟩

def toggle (s : Style) (bit : UInt8) : Style := { s with emphasis := s.emphasis.toggle bit }

/-- Set the colours that were read.  A code without digits resets both. -/
def applyColour (s : Style) : Option (Colour × Option Colour) → Style
  | some (foreground, background) =>
      { s with
        foreground := some foreground
        background := (background.map some).getD s.background }
  | none => { s with foreground := none, background := none }

end Style

/-- A run of text and the formatting over it. -/
structure Span where
  text : Str
  style : Style
  deriving DecidableEq

/-! ### Colours -/

/-- Up to `left` digits more, with their number and their value. -/
def takeDigits.go : ℕ → ℕ → ℕ → Str → ℕ × ℕ × Str
  | left + 1, count, value, c :: chars =>
      match digitValue 10 c with
      | some digit => go left (count + 1) (value * 10 + digit) chars
      | none => (count, value, c :: chars)
  | _, count, value, chars => (count, value, chars)

/-- Up to `max` digits, as many as there are. -/
def takeDigits (max : ℕ) (chars : Str) : Option (ℕ × Str) :=
  let (count, value, rest) := takeDigits.go max 0 0 chars
  if count = 0 then none else some (value, rest)

/-- The value of two hexadecimal digits. -/
def hexByte : Str → Option (ℕ × Str)
  | high :: low :: chars => do
      let high ← digitValue 16 high
      let low ← digitValue 16 low
      some (high <<< 4 ||| low, chars)
  | _ => none

/-- The three values of six hexadecimal digits. -/
def takeHexTriple (chars : Str) : Option ((ℕ × ℕ × ℕ) × Str) := do
  let (red, chars) ← hexByte chars
  let (green, chars) ← hexByte chars
  let (blue, chars) ← hexByte chars
  some ((red, green, blue), chars)

/-- What `take` takes behind a comma. -/
def takeComma {α : Type} (take : Str → Option (α × Str)) : Str → Option (α × Str)
  | ',' :: chars => take chars
  | _ => none

def takeCommaDigits : Str → Option (ℕ × Str) := takeComma (takeDigits 2)

def takeCommaHexTriple : Str → Option ((ℕ × ℕ × ℕ) × Str) := takeComma takeHexTriple

/-- The colours behind an introducer, and the text behind them.  Without a foreground there is
nothing, and a comma without a background is text. -/
def parseColour {α : Type} (take takeBackground : Str → Option (α × Str)) (paint : α → Colour)
    (chars : Str) : Option (Colour × Option Colour) × Str :=
  match take chars with
  | none => (none, chars)
  | some (foreground, rest) =>
      match takeBackground rest with
      | none => (some (paint foreground, none), rest)
      | some (background, rest) => (some (paint foreground, some (paint background)), rest)

def parseNumberedColour : Str → Option (Colour × Option Colour) × Str :=
  parseColour (takeDigits 2) takeCommaDigits .numbered

def parseHexColour : Str → Option (Colour × Option Colour) × Str :=
  parseColour takeHexTriple takeCommaHexTriple fun (red, green, blue) => .hex red green blue

theorem takeDigits_go_length (left count value : ℕ) (chars : Str) :
    (takeDigits.go left count value chars).2.2.length ≤ chars.length := by
  induction left generalizing count value chars with
  | zero => exact le_of_eq (by rw [takeDigits.go]; nofun)
  | succ left ih =>
      cases chars with
      | nil => exact le_rfl
      | cons c chars =>
          rw [takeDigits.go]
          split
          · exact (ih _ _ _).trans (Nat.le_succ _)
          · exact le_rfl

theorem takeDigits_length {max value : ℕ} {chars rest : Str}
    (h : takeDigits max chars = some (value, rest)) : rest.length ≤ chars.length := by
  have hle := takeDigits_go_length max 0 0 chars
  unfold takeDigits at h
  dsimp only at h
  split at h
  · cases h
  · cases h
    exact hle

theorem hexByte_length {value : ℕ} {chars rest : Str} (h : hexByte chars = some (value, rest)) :
    rest.length ≤ chars.length := by
  unfold hexByte at h
  split at h
  · obtain ⟨high, -, h⟩ := Option.bind_eq_some_iff.mp h
    obtain ⟨low, -, h⟩ := Option.bind_eq_some_iff.mp h
    cases h
    exact Nat.le_add_right _ 2
  · cases h

theorem takeHexTriple_length {value : ℕ × ℕ × ℕ} {chars rest : Str}
    (h : takeHexTriple chars = some (value, rest)) : rest.length ≤ chars.length := by
  obtain ⟨⟨red, chars₁⟩, hred, h⟩ := Option.bind_eq_some_iff.mp h
  obtain ⟨⟨green, chars₂⟩, hgreen, h⟩ := Option.bind_eq_some_iff.mp h
  obtain ⟨⟨blue, chars₃⟩, hblue, h⟩ := Option.bind_eq_some_iff.mp h
  cases h
  exact (hexByte_length hblue).trans ((hexByte_length hgreen).trans (hexByte_length hred))

theorem parseColour_length {α : Type} {take : Str → Option (α × Str)} {paint : α → Colour}
    (h : ∀ {value chars rest}, take chars = some (value, rest) → rest.length ≤ chars.length)
    (chars : Str) :
    (parseColour take (takeComma take) paint chars).2.length ≤ chars.length := by
  unfold parseColour
  split
  · exact le_rfl
  · rename_i first rest hfirst
    split
    · exact h hfirst
    · rename_i second after hsecond
      refine le_trans ?_ (h hfirst)
      unfold takeComma at hsecond
      split at hsecond
      · exact (h hsecond).trans (Nat.le_succ _)
      · cases hsecond

theorem parseNumberedColour_length (chars : Str) :
    (parseNumberedColour chars).2.length ≤ chars.length :=
  parseColour_length takeDigits_length chars

theorem parseHexColour_length (chars : Str) : (parseHexColour chars).2.length ≤ chars.length :=
  parseColour_length takeHexTriple_length chars

/-! ### Spans -/

/-- The toggles and their bits. -/
def toggles : List (Char × UInt8) :=
  [(bold, Emphasis.bold), (italic, Emphasis.italic), (underline, Emphasis.underline),
    (strikethrough, Emphasis.strikethrough), (monospace, Emphasis.monospace),
    (reverse, Emphasis.reverse)]

/-- What has been parsed so far. -/
structure Parser where
  spans : List Span
  style : Style
  current : Str

namespace Parser

/-- End the span that is being written, if anything is in it. -/
def flush (p : Parser) : Parser :=
  if p.current = [] then p else { p with spans := p.spans ++ [⟨p.current, p.style⟩], current := [] }

end Parser

/-- The loop over the characters: each control code ends the span and changes the style, and
everything else is text. -/
def parseSpans.go (p : Parser) : Str → Parser
  | [] => p.flush
  | c :: chars =>
      match toggles.lookup c with
      | some bit => go { p.flush with style := p.style.toggle bit } chars
      | none =>
          if c = reset then go { p.flush with style := .default } chars
          else if c = colour then
            go { p.flush with style := p.style.applyColour (parseNumberedColour chars).1 }
              (parseNumberedColour chars).2
          else if c = hexColour then
            go { p.flush with style := p.style.applyColour (parseHexColour chars).1 }
              (parseHexColour chars).2
          else go { p with current := p.current ++ [c] } chars
termination_by chars => chars.length
decreasing_by
  all_goals simp only [List.length_cons]
  · omega
  · omega
  · exact Nat.lt_succ_of_le (parseNumberedColour_length chars)
  · exact Nat.lt_succ_of_le (parseHexColour_length chars)
  · omega

/-- Parse a message body into styled spans. -/
def parseSpans (body : Str) : List Span := (parseSpans.go ⟨[], .default, []⟩ body).spans

/-- The text of a message body without its codes. -/
def stripFormatting (body : Str) : Str := (parseSpans body).flatMap fun span => span.text

end ObbyClient.Format

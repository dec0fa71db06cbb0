import ObbyClient.Proto.Tags

/-!
# One protocol line

A line is an optional tag section behind `@`, an optional source behind `:`, a command, and
parameters of which only the last may be empty, hold a space or start with a colon.

* `Message.parse` — reading a line, in the stages the reader takes;
* `Message.display` — writing one.

What is written reads back as what was meant only for some messages; which ones is the subject of
`RoundTrip`.
-/

namespace ObbyClient

/-- Why a line could not be parsed. -/
inductive ParseError where
  /-- The line was empty, or held only tags and a source with no command after them. -/
  | missingCommand
  deriving DecidableEq

/-- Where a message came from. -/
structure Source where
  /-- The nick, or the server name when there is no `!` or `@`. -/
  name : Str
  /-- The user part, when the source is a full hostmask. -/
  user : Option Str
  /-- The host part, when present. -/
  host : Option Str
  deriving DecidableEq

/-- Split a raw source into its parts. -/
def Source.parse (raw : Str) : Source :=
  match splitOnce '!' raw with
  | some (name, rest) =>
      match splitOnce '@' rest with
      | some (user, host) => ⟨name, some user, some host⟩
      | none => ⟨name, some rest, none⟩
  | none =>
      match splitOnce '@' raw with
      | some (name, host) => ⟨name, none, some host⟩
      | none => ⟨raw, none, none⟩

/-- A source as it is written. -/
def Source.display (source : Source) : Str :=
  source.name ++ (source.user.map ('!' :: ·)).getD [] ++ (source.host.map ('@' :: ·)).getD []

/-- A source is written back as it was read. -/
theorem Source.display_parse (raw : Str) : (Source.parse raw).display = raw := by
  unfold Source.parse
  cases h : splitOnce '!' raw with
  | none =>
      cases h' : splitOnce '@' raw with
      | none => simp [Source.display]
      | some p =>
          obtain ⟨rfl, -⟩ := splitOnce_eq_some.mp h'
          simp [Source.display]
  | some p =>
      obtain ⟨name, rest⟩ := p
      obtain ⟨rfl, -⟩ := splitOnce_eq_some.mp h
      cases h' : splitOnce '@' rest with
      | none => simp [Source.display, h']
      | some q =>
          obtain ⟨user, host⟩ := q
          obtain ⟨rfl, -⟩ := splitOnce_eq_some.mp h'
          simp [Source.display, h']

/-- A parsed protocol line. -/
structure Message where
  /-- The tag section, empty when the line carried no `@`. -/
  tags : Tags
  /-- The source, when the line carried one. -/
  source : Option Source
  /-- The command or three-digit numeric, as it arrived. -/
  command : Str
  /-- The parameters, with the trailing parameter last and its `:` removed. -/
  params : List Str
  deriving DecidableEq

namespace Message

/-- Build a message with no tags and no source. -/
def new (command : Str) (params : List Str) : Message := ⟨[], none, command, params⟩

/-- Compare the command the way the wire defines it, without regard to ASCII case. -/
def is (m : Message) (command : Str) : Bool := eqIgnoreAsciiCase m.command command

/-- The parameter at this position, if the message has one. -/
def param (m : Message) (index : ℕ) : Option Str := m.params[index]?

/-- The last parameter. -/
def trailing (m : Message) : Option Str := m.params.getLast?

/-- The unescaped value of a tag. -/
def tag (m : Message) (key : Str) : Option Str := m.tags.get key

/-! ### Reading -/

/-- The tag section, when the line opens with one, and what follows it. -/
def takeTags : Str → Except ParseError (Tags × Str)
  | '@' :: after =>
      match splitOnce ' ' after with
      | none => .error .missingCommand
      | some (raw, remainder) => .ok (Tags.parse raw, trimStartSpaces remainder)
  | rest => .ok ([], rest)

/-- The source, when the line has one, and what follows it. -/
def takeSource : Str → Except ParseError (Option Source × Str)
  | ':' :: after =>
      match splitOnce ' ' after with
      | none => .error .missingCommand
      | some (raw, remainder) => .ok (some (Source.parse raw), trimStartSpaces remainder)
  | rest => .ok (none, rest)

/-- The parameters of what follows the command.  Each turn takes at least one character off the
rest, so a fuel above its length is never used up (`parseParams_fuel`). -/
def parseParams : ℕ → Str → List Str
  | 0, _ => []
  | fuel + 1, rest =>
      match trimStartSpaces rest with
      | [] => []
      | ':' :: trailing => [trailing]
      | c :: cs =>
          match splitOnce ' ' (c :: cs) with
          | some (param, remainder) => param :: parseParams fuel remainder
          | none => [c :: cs]

/-- The parameters of what follows the command. -/
def readParams (rest : Str) : List Str := parseParams (rest.length + 1) rest

/-- Command and parameters, once tags and source are off the line. -/
def takeCommand (tags : Tags) (source : Option Source) (line : Str) : Except ParseError Message :=
  let (command, rest) := (splitOnce ' ' line).getD (line, [])
  if command = [] then .error .missingCommand
  else .ok ⟨tags, source, command, readParams rest⟩

/-- Parse one line.  A trailing CRLF is optional and is ignored. -/
def parse (line : Str) : Except ParseError Message :=
  match takeTags (trimEndCrLf line) with
  | .error e => .error e
  | .ok (tags, rest) =>
      match takeSource rest with
      | .error e => .error e
      | .ok (source, rest) => takeCommand tags source rest

/-! ### Writing -/

/-- True when a parameter can only travel as the trailing one, so that it needs its colon. -/
def needsColon (param : Str) : Bool :=
  param.isEmpty || param.contains ' ' || param.head? == some ':'

/-- The parameters as they are written, each behind its space. -/
def displayParams : List Str → Str
  | [] => []
  | [last] => if needsColon last then ' ' :: ':' :: last else ' ' :: last
  | param :: rest => ' ' :: param ++ displayParams rest

/-- What stands in front of the command. -/
def displayHead (m : Message) : Str :=
  (if m.tags = [] then [] else '@' :: m.tags.display ++ [' ']) ++
    (m.source.map fun source => ':' :: source.display ++ [' ']).getD []

/-- A message as it is written, without its line ending. -/
def display (m : Message) : Str := m.displayHead ++ m.command ++ displayParams m.params

/-! ### The parameter loop -/

/-- A middle parameter: not empty, free of spaces, and not behind a colon. -/
def Middle (s : Str) : Prop := s ≠ [] ∧ ' ' ∉ s ∧ s.head? ≠ some ':'

instance (s : Str) : Decidable (Middle s) := inferInstanceAs (Decidable (_ ∧ _))

theorem Middle.exists_cons {s : Str} (h : Middle s) :
    ∃ c cs, s = c :: cs ∧ c ≠ ' ' ∧ c ≠ ':' := by
  obtain ⟨hne, hsp, hcolon⟩ := h
  cases s with
  | nil => exact absurd rfl hne
  | cons c cs =>
      refine ⟨c, cs, rfl, ?_, ?_⟩
      · rintro rfl
        exact hsp List.mem_cons_self
      · rintro rfl
        exact hcolon rfl

/-- Fuel above the length of the rest is never used up. -/
theorem parseParams_fuel {n k : ℕ} {rest : Str} (hn : rest.length < n) (hk : rest.length < k) :
    parseParams n rest = parseParams k rest := by
  induction n generalizing k rest with
  | zero => omega
  | succ n ih =>
      cases k with
      | zero => omega
      | succ k =>
          have hle := trimStartSpaces_length_le rest
          rw [parseParams, parseParams]
          split
          · rfl
          · rfl
          · rename_i c cs _ heq
            cases hs : splitOnce ' ' (c :: cs) with
            | none => rfl
            | some p =>
                have hlt := splitOnce_length_lt hs
                rw [← heq] at hlt
                exact congrArg (p.1 :: ·) (ih (by omega) (by omega))

/-- One turn of the loop, at whatever starts the first parameter. -/
theorem readParams_cons {c : Char} (hsp : c ≠ ' ') (hcolon : c ≠ ':') (cs : Str) :
    readParams (c :: cs) =
      match splitOnce ' ' (c :: cs) with
      | some (param, remainder) => param :: readParams remainder
      | none => [c :: cs] := by
  rw [readParams, parseParams, trimStartSpaces_cons_ne hsp]
  split
  · simp_all
  · simp_all
  · rename_i c' cs' _ heq
    cases heq
    cases hs : splitOnce ' ' (c :: cs) with
    | none => rfl
    | some p =>
        have hlt := splitOnce_length_lt hs
        exact congrArg (p.1 :: ·) (parseParams_fuel hlt (Nat.lt_succ_self _))

@[simp] theorem readParams_nil : readParams [] = [] := rfl

@[simp] theorem readParams_colon (trailing : Str) : readParams (':' :: trailing) = [trailing] := rfl

@[simp] theorem readParams_space (rest : Str) : readParams (' ' :: rest) = readParams rest := by
  have h : parseParams (rest.length + 2) (' ' :: rest) = parseParams (rest.length + 2) rest := by
    rw [parseParams, parseParams, trimStartSpaces_space]
  exact h.trans (parseParams_fuel (by omega) (by omega))

theorem readParams_last {s : Str} (h : Middle s) : readParams s = [s] := by
  obtain ⟨c, cs, rfl, hsp, hcolon⟩ := h.exists_cons
  rw [readParams_cons hsp hcolon, splitOnce_eq_none.mpr h.2.1]

theorem readParams_middle {s : Str} (h : Middle s) (rest : Str) :
    readParams (s ++ ' ' :: rest) = s :: readParams rest := by
  obtain ⟨c, cs, rfl, hsp, hcolon⟩ := h.exists_cons
  have hsome : splitOnce ' ' ((c :: cs) ++ ' ' :: rest) = some (c :: cs, rest) :=
    splitOnce_append_sep h.2.1 rest
  rw [List.cons_append] at hsome ⊢
  rw [readParams_cons hsp hcolon, hsome]

end Message

end ObbyClient

import ObbyClient.Lib.Text

/-!
# A minimal JSON value

Just enough for the shapes the extensions put on the wire.  The reader works on what is left of the
text and hands back what follows the value; its fuel is bounded by the text, since every second call
takes a character off it.
-/

namespace ObbyClient

/-- A JSON value. -/
inductive Json where
  | null
  | bool (value : Bool)
  | num (value : ℤ)
  | str (value : Str)
  | array (items : List Json)
  | object (fields : List (Str × Json))

namespace Json

/-! ### Looking inside -/

/-- The first field of this name. -/
def field (value : Json) (key : Str) : Option Json :=
  match value with
  | object fields => (fields.find? fun p => p.1 == key).map Prod.snd
  | _ => none

def asStr : Json → Option Str
  | str s => some s
  | _ => none

def asArray : Json → Option (List Json)
  | array items => some items
  | _ => none

def asU32 : Json → Option ℕ
  | num n => if 0 ≤ n ∧ n ≤ (u32Max : ℤ) then some n.toNat else none
  | _ => none

/-- True only for the literal `true`. -/
def isTrue : Json → Bool
  | bool b => b
  | _ => false

/-- The string under this name, if there is one. -/
def fieldString (value : Json) (key : Str) : Option Str := (value.field key).bind asStr

def fieldU32 (value : Json) (key : Str) : Option ℕ := (value.field key).bind asU32

/-- Every string in an array, or nothing when any element is not one. -/
def strings (value : Json) : Option (List Str) := value.asArray.bind (·.mapM asStr)

/-! ### Reading -/

def isWs (c : Char) : Bool := c == ' ' || c == '\t' || c == '\n' || c == '\r'

def skipWs (text : Str) : Str := text.dropWhile isWs

def isDigit (c : Char) : Bool := '0' ≤ c && c ≤ '9'

/-- Take a fixed text off the front. -/
def parseLiteral (literal : Str) (value : Json) (text : Str) : Option (Json × Str) :=
  if literal.isPrefixOf text then some (value, text.drop literal.length) else none

/-- A number.  A fraction and an exponent are read past, and only the integer part counts. -/
def parseNumber (text : Str) : Option (Json × Str) :=
  let (sign, rest) := if text.head? = some '-' then (['-'], text.tail) else ([], text)
  let digits := rest.takeWhile isDigit
  let rest := rest.dropWhile isDigit
  let rest := if rest.head? = some '.' then rest.tail.dropWhile isDigit else rest
  let rest :=
    if rest.head? = some 'e' ∨ rest.head? = some 'E' then
      let rest := rest.tail
      let rest := if rest.head? = some '+' ∨ rest.head? = some '-' then rest.tail else rest
      rest.dropWhile isDigit
    else rest
  (parseI64 (sign ++ digits)).map fun n => (num n, rest)

/-- Four hexadecimal digits. -/
def parseHex4 : Str → Option (ℕ × Str)
  | a :: b :: c :: d :: rest => (fromStrRadix 16 u32Max [a, b, c, d]).map fun n => (n, rest)
  | _ => none

/-- The character of a code point, if it is one. -/
def charFromU32 (n : ℕ) : Option Char := if n.isValidChar then some (Char.ofNat n) else none

/-- The code units of a `\u` escape, of which a high surrogate needs a low one behind it. -/
def parseUnicodeEscape (text : Str) : Option (Char × Str) := do
  let (unit, rest) ← parseHex4 text
  if 0xD800 ≤ unit ∧ unit ≤ 0xDBFF then
    match rest with
    | '\\' :: 'u' :: rest =>
        let (low, rest) ← parseHex4 rest
        if 0xDC00 ≤ low ∧ low ≤ 0xDFFF then
          (charFromU32 (0x10000 + (unit - 0xD800) * 1024 + (low - 0xDC00))).map (·, rest)
        else none
    | _ => none
  else (charFromU32 unit).map (·, rest)

/-- The character an escape stands for. -/
def parseEscape : Str → Option (Char × Str)
  | '"' :: rest => some ('"', rest)
  | '\\' :: rest => some ('\\', rest)
  | '/' :: rest => some ('/', rest)
  | 'b' :: rest => some ('\x08', rest)
  | 'f' :: rest => some ('\x0c', rest)
  | 'n' :: rest => some ('\n', rest)
  | 'r' :: rest => some ('\r', rest)
  | 't' :: rest => some ('\t', rest)
  | 'u' :: rest => parseUnicodeEscape rest
  | _ => none

/-- A string up to its closing quote. -/
def parseStringBody : ℕ → Str → Option (Str × Str)
  | 0, _ => none
  | _ + 1, [] => none
  | _ + 1, '"' :: rest => some ([], rest)
  | fuel + 1, '\\' :: rest => do
      let (c, rest) ← parseEscape rest
      let (out, rest) ← parseStringBody fuel rest
      some (c :: out, rest)
  | fuel + 1, c :: rest => do
      let (out, rest) ← parseStringBody fuel rest
      some (c :: out, rest)

def parseString : Str → Option (Str × Str)
  | '"' :: rest => parseStringBody (rest.length + 1) rest
  | _ => none

mutual

/-- One value, and what follows it. -/
def parseValue : ℕ → Str → Option (Json × Str)
  | 0, _ => none
  | fuel + 1, text =>
      match skipWs text with
      | '"' :: rest => (parseString ('"' :: rest)).map fun (s, rest) => (str s, rest)
      | '{' :: rest =>
          match skipWs rest with
          | '}' :: rest => some (object [], rest)
          | rest => (parseFields fuel rest).map fun (fields, rest) => (object fields, rest)
      | '[' :: rest =>
          match skipWs rest with
          | ']' :: rest => some (array [], rest)
          | rest => (parseItems fuel rest).map fun (items, rest) => (array items, rest)
      | 't' :: rest => parseLiteral "true" (bool true) ('t' :: rest)
      | 'f' :: rest => parseLiteral "false" (bool false) ('f' :: rest)
      | 'n' :: rest => parseLiteral "null" null ('n' :: rest)
      | c :: rest => if c = '-' ∨ isDigit c = true then parseNumber (c :: rest) else none
      | [] => none

/-- The items of an array after its opening bracket. -/
def parseItems : ℕ → Str → Option (List Json × Str)
  | 0, _ => none
  | fuel + 1, text => do
      let (item, rest) ← parseValue fuel text
      match skipWs rest with
      | ',' :: rest =>
          let (items, rest) ← parseItems fuel (skipWs rest)
          some (item :: items, rest)
      | ']' :: rest => some ([item], rest)
      | _ => none

/-- The fields of an object after its opening brace. -/
def parseFields : ℕ → Str → Option (List (Str × Json) × Str)
  | 0, _ => none
  | fuel + 1, text => do
      let (key, rest) ← parseString (skipWs text)
      match skipWs rest with
      | ':' :: rest =>
          let (value, rest) ← parseValue fuel rest
          match skipWs rest with
          | ',' :: rest =>
              let (fields, rest) ← parseFields fuel rest
              some ((key, value) :: fields, rest)
          | '}' :: rest => some ([(key, value)], rest)
          | _ => none
      | _ => none

end

/-- Read a text that is one value and nothing else. -/
def parse (text : Str) : Option Json := do
  let (value, rest) ← parseValue (2 * text.length + 2) text
  if skipWs rest = [] then some value else none

/-! ### Writing -/

/-- A hexadecimal digit. -/
def hexDigit (n : ℕ) : Char := (Nat.digitChar n)

/-- One character of a string as it is written. -/
def writeChar (c : Char) : Str :=
  if c = '"' then ['\\', '"']
  else if c = '\\' then ['\\', '\\']
  else if c = '\n' then ['\\', 'n']
  else if c = '\r' then ['\\', 'r']
  else if c = '\t' then ['\\', 't']
  else if c.toNat < 0x20 then
    ['\\', 'u', '0', '0', hexDigit (c.toNat / 16), hexDigit (c.toNat % 16)]
  else [c]

/-- A string as it is written. -/
def writeString (s : Str) : Str := '"' :: s.flatMap writeChar ++ ['"']

/-- The decimal digits of an integer. -/
def writeInt (n : ℤ) : Str := if n < 0 then '-' :: natToStr n.natAbs else natToStr n.natAbs

mutual

/-- A value as it is written. -/
def write : Json → Str
  | null => "null"
  | bool b => if b then "true" else "false"
  | num n => writeInt n
  | str s => writeString s
  | array items => '[' :: writeItems items ++ [']']
  | object fields => '{' :: writeFields fields ++ ['}']

def writeItems : List Json → Str
  | [] => []
  | [item] => write item
  | item :: items => write item ++ ',' :: writeItems items

def writeFields : List (Str × Json) → Str
  | [] => []
  | [(key, value)] => writeString key ++ ':' :: write value
  | (key, value) :: fields => writeString key ++ ':' :: write value ++ ',' :: writeFields fields

end

end Json

end ObbyClient

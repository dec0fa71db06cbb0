import ObbyClient.Proto.Casemap

/-!
# The `005` ISUPPORT tokens

Everything the server told us about itself, and the settings the tokens drive: which characters
start a channel, which modes take an argument, which prefix outranks which.
-/

namespace ObbyClient

/-- The membership prefixes a server uses, in rank order, highest first. -/
structure Prefixes where
  /-- The mode letters. -/
  modes : List Char
  /-- The characters that show them. -/
  chars : List Char
  deriving DecidableEq

namespace Prefixes

/-- The prefixes of a server that advertises none. -/
def default : Prefixes := ⟨['o', 'v'], ['@', '+']⟩

/-- Parse a `PREFIX` value; a malformed one is refused. -/
def parse (value : Str) : Option Prefixes :=
  match value with
  | '(' :: inner =>
      (splitOnce ')' inner).bind fun (modes, chars) =>
        if modes = [] ∨ modes.length ≠ chars.length then none else some ⟨modes, chars⟩
  | _ => none

/-- The prefix character a mode letter grants. -/
def charForMode (p : Prefixes) (mode : Char) : Option Char :=
  (p.modes.findIdx? (· == mode)).bind fun index => p.chars[index]?

/-- True when this mode letter grants membership status. -/
def isMembershipMode (p : Prefixes) (mode : Char) : Bool := p.modes.contains mode

/-- How highly a prefix ranks, counting from zero for the highest. -/
def rank (p : Prefixes) (c : Char) : Option ℕ := p.chars.findIdx? (· == c)

/-- Split the leading prefixes off a NAMES entry. -/
def split (p : Prefixes) (entry : Str) : Str × Str :=
  (entry.takeWhile p.chars.contains, entry.dropWhile p.chars.contains)

end Prefixes

/-- The four classes of channel mode. -/
structure ChanModes where
  /-- List modes such as bans, which always take an argument. -/
  list : Str
  /-- Modes that always take an argument, such as a key. -/
  alwaysArg : Str
  /-- Modes that take an argument only when set, such as a user limit. -/
  argOnSet : Str
  /-- Flags that never take an argument. -/
  flag : Str
  deriving DecidableEq

namespace ChanModes

/-- The classes of a server that advertises none. -/
def default : ChanModes := ⟨"b", "k", "l", "imnpst"⟩

/-- Parse a `CHANMODES` value.  Classes past the fourth are ignored. -/
def parse (value : Str) : ChanModes :=
  let parts := value.splitOn ','
  ⟨parts[0]?.getD [], parts[1]?.getD [], parts[2]?.getD [], parts[3]?.getD []⟩

end ChanModes

/-- Everything the server told us about itself in `005`. -/
structure Isupport where
  tokens : Std.ExtTreeMap Str (Option Str)
  casemapping : Casemapping
  prefixes : Prefixes
  chanmodes : ChanModes
  chantypes : Str
  statusmsg : Str
  deriving DecidableEq

/-- One token after the wire grammar has been read off it. -/
structure Token where
  /-- The token name, without its removal or append marker. -/
  name : Str
  /-- The value now in force. -/
  value : Option Str
  /-- True when the server withdrew the token. -/
  removed : Bool
  deriving DecidableEq

namespace Isupport

/-- Before any token arrives. -/
def default : Isupport := ⟨∅, .default, .default, .default, [], []⟩

/-- Undo the `\xHH` escaping a value may carry.  An incomplete or invalid escape is left as it is
written. -/
def unescape : Str → Str
  | '\\' :: 'x' :: a :: b :: rest =>
      match fromStrRadix 16 255 [a, b] with
      | some byte => Char.ofNat byte :: unescape rest
      | none => '\\' :: 'x' :: unescape (a :: b :: rest)
  | c :: rest => c :: unescape rest
  | [] => []

/-- Derive the typed settings from one token. -/
def recompute (i : Isupport) (name : Str) (value : Option Str) : Isupport :=
  if name = "CASEMAPPING" then
    { i with casemapping := (value.map Casemapping.parse).getD .default }
  else if name = "PREFIX" then
    { i with
      prefixes := (value.bind Prefixes.parse).getD (if value = none then .default else i.prefixes) }
  else if name = "CHANMODES" then
    { i with chanmodes := (value.map ChanModes.parse).getD .default }
  else if name = "CHANTYPES" then { i with chantypes := value.getD [] }
  else if name = "STATUSMSG" then { i with statusmsg := value.getD [] }
  else i

/-- The value a name stands for: a `+` at its end appends to the value already held. -/
def nameAndValue (i : Isupport) (name raw : Str) : Str × Str :=
  if name.getLast? = some '+' then
    (name.dropLast, (i.tokens[name.dropLast]?.bind id).getD [] ++ unescape raw)
  else (name, unescape raw)

/-- Apply one token, and say what it turned out to mean. -/
def apply (i : Isupport) (token : Str) : Isupport × Token :=
  match token with
  | '-' :: name =>
      let name := ((splitOnce '=' name).map Prod.fst).getD name
      (({ i with tokens := i.tokens.erase name }).recompute name none, ⟨name, none, true⟩)
  | token =>
      match splitOnce '=' token with
      | none =>
          (({ i with tokens := i.tokens.insert token none }).recompute token none,
            ⟨token, none, false⟩)
      | some (name, raw) =>
          let (name, value) := i.nameAndValue name raw
          (({ i with tokens := i.tokens.insert name (some value) }).recompute name (some value),
            ⟨name, some value, false⟩)

/-- The raw value of a token: nothing when it is absent, and no value when it is a bare flag. -/
def get (i : Isupport) (name : Str) : Option (Option Str) := i.tokens[name]?

/-- True when the server advertised this token at all. -/
def has (i : Isupport) (name : Str) : Bool := i.tokens.contains name

/-- A token whose value is a number. -/
def number (i : Isupport) (name : Str) : Option ℕ := (i.get name).bind fun value =>
  value.bind (parseUnsigned u32Max)

/-- Fold a nick or channel name into a key. -/
def fold (i : Isupport) (name : Str) : CaseFolded := i.casemapping.fold name

/-- True when this name starts with a character the server treats as a channel prefix. -/
def isChannel (i : Isupport) (name : Str) : Bool :=
  let types : Str := if i.chantypes = [] then "#&" else i.chantypes
  name.head?.any types.contains

/-- True when this character targets a channel subset. -/
def isStatusmsg (i : Isupport) (c : Char) : Bool := i.statusmsg.contains c

end Isupport

end ObbyClient

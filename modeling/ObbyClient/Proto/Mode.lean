import ObbyClient.Proto.Isupport

/-!
# Parsing a MODE change, and a CTCP body

A mode letter takes an argument or not depending on its class in `CHANMODES` and on whether it is a
membership mode from `PREFIX`.
-/

namespace ObbyClient

/-- One mode letter changing, with the argument it consumed. -/
structure ModeChange where
  /-- True for `+`, false for `-`. -/
  set : Bool
  /-- The mode letter. -/
  mode : Char
  /-- The argument, when this mode takes one in this direction. -/
  arg : Option Str
  /-- True when this letter grants membership status. -/
  membership : Bool
  deriving DecidableEq

/-- Whether a letter consumes an argument in this direction. -/
def Isupport.takesArg (i : Isupport) (set : Bool) (mode : Char) : Bool :=
  i.prefixes.isMembershipMode mode || i.chanmodes.list.contains mode ||
    i.chanmodes.alwaysArg.contains mode || (set && i.chanmodes.argOnSet.contains mode)

/-- The letters of a channel mode string, each with the argument it consumes. -/
def parseChannelModes.go (i : Isupport) : Bool → Str → List Str → List ModeChange
  | _, [], _ => []
  | set, mode :: spec, args =>
      if mode = '+' then go i true spec args
      else if mode = '-' then go i false spec args
      else
        let membership := i.prefixes.isMembershipMode mode
        if i.takesArg set mode then ⟨set, mode, args.head?, membership⟩ :: go i set spec args.tail
        else ⟨set, mode, none, membership⟩ :: go i set spec args

/-- Split a channel MODE change into one entry per letter: `params` is the mode string, then its
arguments. -/
def parseChannelModes (i : Isupport) (params : List Str) : List ModeChange :=
  match params with
  | [] => []
  | spec :: args => parseChannelModes.go i true spec args

/-- The letters of a user mode string. -/
def parseUserModes.go : Bool → Str → List ModeChange
  | _, [] => []
  | set, mode :: spec =>
      if mode = '+' then go true spec
      else if mode = '-' then go false spec
      else ⟨set, mode, none, false⟩ :: go set spec

/-- Split a user MODE change.  User modes never take an argument. -/
def parseUserModes (spec : Str) : List ModeChange := parseUserModes.go true spec

/-- A CTCP request or reply. -/
structure Ctcp where
  /-- The command word. -/
  command : Str
  /-- Everything after the command. -/
  params : Str
  deriving DecidableEq

/-- Recognise a CTCP-wrapped body; the closing delimiter is optional. -/
def parseCtcp : Str → Option Ctcp
  | '\x01' :: inner =>
      let inner := if inner.getLast? = some '\x01' then inner.dropLast else inner
      let (command, params) := (splitOnce ' ' inner).getD (inner, [])
      some ⟨command, params⟩
  | _ => none

end ObbyClient

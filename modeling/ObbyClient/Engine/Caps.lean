import ObbyClient.Lib.Text

/-!
# Capability negotiation state

What the server offers, what we hold, and what we asked for and still wait on.
-/

namespace ObbyClient

/-- The capabilities this engine knows how to use, in the order we ask for them. -/
def wantedCaps : List Str :=
  ["message-tags", "server-time", "batch", "labeled-response", "echo-message", "draft/multiline",
    "multi-prefix", "userhost-in-names", "extended-join", "account-notify", "account-tag",
    "away-notify", "chghost", "invite-notify", "setname", "cap-notify", "monitor",
    "extended-monitor", "draft/chathistory", "draft/event-playback", "draft/read-marker",
    "draft/typing", "draft/message-redaction", "draft/channel-rename", "channel-context",
    "draft/channel-context", "standard-replies", "draft/named-modes", "draft/metadata-2",
    "draft/extended-isupport", "draft/extended-isupport-0.2", "sasl", "znc.in/playback",
    "obsidianirc/cmdslist", "obby.world/channel-bots", "draft/bot-cmds", "obby.world/whois",
    "obby.world/invitation", "draft/authtoken", "obsidianirc/voice"]

/-- What the server offers and what we hold. -/
structure Capabilities where
  available : Std.ExtTreeMap Str (Option Str)
  acknowledged : Std.ExtTreeMap Str (Option Str)
  /-- Capabilities we asked for and are still waiting on. -/
  pending : List Str
  deriving DecidableEq

namespace Capabilities

/-- Nothing offered, nothing held. -/
def default : Capabilities := ⟨∅, ∅, []⟩

/-- A token's name, and its value when it has one. -/
def splitValue (token : Str) : Str × Option Str :=
  match splitOnce '=' token with
  | some (name, value) => (name, some value)
  | none => (token, none)

/-- Record one line's worth of advertisements. -/
def advertise (caps : Capabilities) (list : Str) : Capabilities :=
  { caps with
    available := (splitWhitespace list).foldl (fun available token =>
      available.insert (splitValue token).1 (splitValue token).2) caps.available }

/-- Forget capabilities the server withdrew. -/
def withdraw (caps : Capabilities) (list : Str) : Capabilities :=
  (splitWhitespace list).foldl (fun caps token =>
    { caps with
      available := caps.available.erase (splitValue token).1
      acknowledged := caps.acknowledged.erase (splitValue token).1 }) caps

/-- What we want, the server offers and we have not asked for yet. -/
def toRequest (caps : Capabilities) : List Str :=
  wantedCaps.filter fun name =>
    caps.available.contains name && !caps.acknowledged.contains name && !caps.pending.contains name

/-- Note that we sent a request for these. -/
def requested (caps : Capabilities) (names : List Str) : Capabilities :=
  { caps with pending := caps.pending ++ names }

/-- Stop waiting for one capability. -/
def answered (caps : Capabilities) (name : Str) : Capabilities :=
  { caps with pending := caps.pending.filter (· ≠ name) }

/-- Apply one token of an `ACK`: a `-` in front says the server dropped what we held, and a value
that is not repeated is the one that was advertised. -/
def acknowledgeToken (caps : Capabilities) (token : Str) : Capabilities × List Str :=
  match token with
  | '-' :: name =>
      (({ caps with acknowledged := caps.acknowledged.erase name }).answered name, [])
  | token =>
      let (name, value) := splitValue token
      let value := value.or (caps.available[name]?.bind id)
      (({ caps with acknowledged := caps.acknowledged.insert name value }).answered name, [name])

/-- Apply a `CAP ACK`, returning the names that were acknowledged. -/
def acknowledge (caps : Capabilities) (list : Str) : Capabilities × List Str :=
  (splitWhitespace list).foldl (fun (caps, acked) token =>
    let (caps, names) := caps.acknowledgeToken token
    (caps, acked ++ names)) (caps, [])

/-- Apply a `CAP NAK`: we only stop waiting. -/
def reject (caps : Capabilities) (list : Str) : Capabilities :=
  (splitWhitespace list).foldl (fun caps token => caps.answered (splitValue token).1) caps

/-- True when we hold this capability. -/
def has (caps : Capabilities) (name : Str) : Bool := caps.acknowledged.contains name

/-- The value the server gave a capability. -/
def value (caps : Capabilities) (name : Str) : Option Str := caps.acknowledged[name]?.bind id

/-- True when every requested capability has been answered. -/
def settled (caps : Capabilities) : Bool := caps.pending.isEmpty

end Capabilities

end ObbyClient

import ObbyClient.Engine.Voice

/-!
# What a host asks the connection to do
-/

namespace ObbyClient

/-- Whether we are still composing a message. -/
inductive Typing where
  | active
  | paused
  | done
  deriving DecidableEq

/-- How the wire spells it. -/
def Typing.asStr : Typing → Str
  | active => "active"
  | paused => "paused"
  | done => "done"

/-- Something to do on this connection. -/
inductive Command where
  | join (channel : Str) (key : Option Str)
  | part (channel : Str) (reason : Option Str)
  | sendMessage (target text : Str)
  | sendNotice (target text : Str)
  /-- The third-person form. -/
  | sendAction (target text : Str)
  | setNick (nick : Str)
  | setTopic (channel : Str) (topic : Option Str)
  | setAway (message : Option Str)
  | setTyping (target : Str) (state : Typing)
  | addReaction (target msgid emoji : Str)
  | removeReaction (target msgid emoji : Str)
  | redactMessage (target msgid : Str) (reason : Option Str)
  | markRead (target : Str) (atMs : ℕ)
  /-- Ask for messages older than the one with this id, or for the most recent. -/
  | fetchHistory (target : Str) (beforeMsgid : Option Str) (limit : ℕ)
  | setMetadata (key : Str) (value : Option Str)
  | subscribeMetadata (keys : List Str)
  | whois (nick : Str)
  | renameChannel (channel newName : Str) (reason : Option Str)
  | createInviteLink (channel description : Option Str)
  | listInviteLinks
  | deleteInviteLink (shareId : Str)
  | redeemInviteCode (code : Str)
  | generateToken (service : Str)
  | watchNicks (nicks : List Str)
  | unwatchNicks (nicks : List Str)
  | sendVoiceSignal (channel : Str) (signal : Voice.Signal)
  | quit (reason : Option Str)
  /-- A line this API does not name. -/
  | sendRawLine (line : Str)
  deriving DecidableEq

end ObbyClient

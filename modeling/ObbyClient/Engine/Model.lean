import ObbyClient.Engine.Extensions
import ObbyClient.Proto.Isupport

/-!
# The client model

Everything the connection knows: who we are, the channels we are in and who is in them, the private
conversations, and the messages.

* `MessageLog` — the messages of one target, ordered by key and bounded; that each message is held
  under its own key is a field of the log;
* `Model` — the maps of channels, conversations and people, all keyed by folded names.
-/

namespace ObbyClient

/-- How many messages one channel or conversation keeps before the oldest are dropped. -/
def defaultRetention : ℕ := 5000

/-- How many `WHOIS` records the model holds at once. -/
def maxWhoisRecords : ℕ := 64

/-! ### Messages -/

/-- Where a message is ordered and how it is found again: by time, then by arrival. -/
structure MessageKey where
  /-- Milliseconds since the epoch. -/
  timeMs : ℕ
  /-- Assigned in arrival order. -/
  seq : ℕ
  deriving DecidableEq

namespace MessageKey

instance : Ord MessageKey := ⟨compareLex (compareOn timeMs) (compareOn seq)⟩

instance : Std.TransOrd MessageKey := inferInstanceAs (Std.TransCmp (compareLex _ _))

instance : Std.LawfulEqOrd MessageKey where
  eq_of_compare := by
    rintro ⟨t, s⟩ ⟨t', s'⟩ h
    obtain ⟨ht, hs⟩ := compareLex_eq_eq.mp h
    have ht : t = t' := Std.LawfulEqOrd.eq_of_compare ht
    have hs : s = s' := Std.LawfulEqOrd.eq_of_compare hs
    rw [ht, hs]

end MessageKey

/-- What kind of thing happened. -/
inductive MessageKind where
  | privmsg
  | notice
  /-- A CTCP, carrying the command that was requested. -/
  | ctcp (command : Str)
  | tagmsg
  | join
  | part
  | quit
  | kick (target : Str)
  | nick (newNick : Str)
  | topic
  | mode
  deriving DecidableEq

/-- One message, as the model holds it. -/
structure ChatMessage where
  /-- Where it sits in the log. -/
  key : MessageKey
  /-- The network-unique id, when the server assigned one. -/
  msgid : Option Str
  /-- Who sent it, as they spell their own nick. -/
  sender : Str
  /-- What kind of event it is. -/
  kind : MessageKind
  /-- The body. -/
  text : Str
  /-- The account the sender was logged in as. -/
  account : Option Str
  /-- True when this arrived inside a history batch. -/
  historical : Bool
  /-- True when this is our own message. -/
  own : Bool
  /-- The message this one replies to. -/
  replyTo : Option Str
  /-- Reactions, keyed by the emoji, holding who reacted. -/
  reactions : Std.ExtTreeMap Str (List Str)
  /-- A preview of the first link in this message. -/
  linkPreview : Option LinkPreview
  /-- True once the message was redacted. -/
  redacted : Bool
  deriving DecidableEq

/-- A message with only what every kind carries. -/
def ChatMessage.new (key : MessageKey) (sender : Str) (kind : MessageKind) : ChatMessage :=
  ⟨key, none, sender, kind, [], none, false, false, none, ∅, none, false⟩

/-- The messages of one channel or conversation, ordered and bounded. -/
structure MessageLog where
  messages : Std.ExtTreeMap MessageKey ChatMessage
  byMsgid : Std.ExtTreeMap Str MessageKey
  retention : ℕ
  /-- Every message is held under its own key. -/
  keyed : ∀ (key : MessageKey) (message : ChatMessage),
    messages[key]? = some message → message.key = key
  deriving DecidableEq

namespace MessageLog

/-- An empty log holding at most this many messages. -/
def withRetention (retention : ℕ) : MessageLog where
  messages := ∅
  byMsgid := ∅
  retention := max retention 1
  keyed := by simp

/-- True when a message of the same instant has the sender, the text and the kind of this one. -/
def hasTwin (log : MessageLog) (candidate : ChatMessage) : Bool :=
  let first : MessageKey := ⟨candidate.key.timeMs, 0⟩
  let past : MessageKey := ⟨satAdd64 candidate.key.timeMs 1, 0⟩
  log.messages.toList.any fun (key, held) =>
    (compare first key).isLE && (compare key past).isLT &&
      (held.sender == candidate.sender && held.text == candidate.text &&
        held.kind == candidate.kind)

/-- Forget the oldest message, and its id. -/
def dropOldest (log : MessageLog) : MessageLog :=
  match log.messages.toList.head? with
  | none => log
  | some (key, dropped) =>
      { messages := log.messages.erase key
        byMsgid := (dropped.msgid.map log.byMsgid.erase).getD log.byMsgid
        retention := log.retention
        keyed := by
          intro k message h
          rw [Std.ExtTreeMap.getElem?_erase] at h
          split at h
          · cases h
          · exact log.keyed k message h }

/-- Drop the oldest messages while there are more than the log keeps.  Each turn drops one, so the
number held is fuel enough. -/
def trim.go : ℕ → MessageLog → MessageLog
  | 0, log => log
  | fuel + 1, log =>
      if log.messages.size ≤ log.retention then log else trim.go fuel log.dropOldest

def trim (log : MessageLog) : MessageLog := trim.go log.messages.size log

/-- Hold a message, whatever is held already. -/
def put (log : MessageLog) (message : ChatMessage) : MessageLog where
  messages := log.messages.insert message.key message
  byMsgid := (message.msgid.map fun id => log.byMsgid.insert id message.key).getD log.byMsgid
  retention := log.retention
  keyed := by
    intro k m h
    rw [Std.ExtTreeMap.getElem?_insert] at h
    split at h
    · rename_i heq
      rw [Option.some.injEq] at h
      rw [← h]
      exact Std.LawfulEqOrd.eq_of_compare heq
    · exact log.keyed k m h

/-- True when the log has this message already: by its id when it has one, else by its content. -/
def holds (log : MessageLog) (message : ChatMessage) : Bool :=
  match message.msgid with
  | some id => log.byMsgid.contains id
  | none => log.hasTwin message

/-- Insert a message unless we already have it, returning whether it was new. -/
def insert (log : MessageLog) (message : ChatMessage) : MessageLog × Bool :=
  if log.holds message then (log, false) else ((log.put message).trim, true)

/-- True when a message with this id is already held. -/
def contains (log : MessageLog) (msgid : Str) : Bool := log.byMsgid.contains msgid

/-- Look one up by its network id. -/
def get (log : MessageLog) (msgid : Str) : Option ChatMessage :=
  log.byMsgid[msgid]?.bind fun key => log.messages[key]?

/-- Change one by its network id, leaving its place in the log alone. -/
def modify (log : MessageLog) (msgid : Str) (f : ChatMessage → ChatMessage)
    (hf : ∀ message, (f message).key = message.key) : MessageLog :=
  match log.byMsgid[msgid]? with
  | none => log
  | some key =>
      { messages := log.messages.modify key f
        byMsgid := log.byMsgid
        retention := log.retention
        keyed := by
          intro k m h
          rw [Std.ExtTreeMap.getElem?_modify] at h
          split at h
          · rename_i heq
            obtain ⟨held, hheld, rfl⟩ := Option.map_eq_some_iff.mp h
            rw [hf, log.keyed _ _ hheld]
            exact Std.LawfulEqOrd.eq_of_compare heq
          · exact log.keyed k m h }

/-- Look one up by where it sits in this log. -/
def getByKey (log : MessageLog) (key : MessageKey) : Option ChatMessage := log.messages[key]?

/-- Every message, oldest first. -/
def iter (log : MessageLog) : List ChatMessage := log.messages.toList.map Prod.snd

/-- The most recent message. -/
def last (log : MessageLog) : Option ChatMessage := log.messages.maxEntry?.map Prod.snd

end MessageLog

/-! ### People and places -/

/-- What one member holds in one channel. -/
structure Membership where
  /-- The prefix characters they hold here, highest rank first. -/
  prefixes : Str
  deriving DecidableEq

namespace Membership

/-- A member with no prefix. -/
def default : Membership := ⟨[]⟩

/-- Add a prefix, keeping the list in the server's rank order. -/
def grant (member : Membership) (c : Char) (order : Prefixes) : Membership :=
  if c ∈ member.prefixes then member
  else
    let rank (c : Char) : ℕ := (order.rank c).getD u64Max
    ⟨(member.prefixes ++ [c]).insertionSort fun a b => rank a ≤ rank b⟩

/-- Remove a prefix. -/
def revoke (member : Membership) (c : Char) : Membership :=
  ⟨member.prefixes.filter (· ≠ c)⟩

end Membership

/-- Someone we know about, held once however many channels we share. -/
structure Person where
  nick : Str
  account : Option Str
  away : Option Str
  bot : Bool
  username : Option Str
  host : Option Str
  realname : Option Str
  operator : Bool
  metadata : Std.ExtTreeMap Str Str
  deriving DecidableEq

/-- Someone of whom we know the nick only. -/
def Person.new (nick : Str) : Person := ⟨nick, none, none, false, none, none, none, false, ∅⟩

/-- What a `WHOIS` said about someone. -/
structure Whois where
  nick : Str
  username : Option Str
  host : Option Str
  realname : Option Str
  server : Option Str
  serverInfo : Option Str
  operator : Option Str
  idleSecs : Option ℕ
  signonMs : Option ℕ
  channels : List Str
  account : Option Str
  actualHost : Option Str
  secure : Bool
  /-- True once the closing numeric arrived. -/
  complete : Bool
  deriving DecidableEq

/-- A record of which only the nick is known. -/
def Whois.new (nick : Str) : Whois :=
  ⟨nick, none, none, none, none, none, none, none, none, [], none, none, false, false⟩

/-- A channel we are in. -/
structure Channel where
  /-- The name as the server spells it. -/
  name : Str
  topic : Option Str
  topicBy : Option Str
  modes : Std.ExtTreeMap Char (Option Str)
  members : Std.ExtTreeMap CaseFolded Membership
  /-- What was said. -/
  log : MessageLog
  unread : ℕ
  mentions : ℕ
  metadata : Std.ExtTreeMap Str Str
  readMarker : Option Str
  typing : Std.ExtTreeSet CaseFolded
  namedModes : Std.ExtTreeMap Str (Option Str)
  deriving DecidableEq

/-- A channel in which nothing happened yet. -/
def Channel.new (name : Str) (retention : ℕ) : Channel :=
  ⟨name, none, none, ∅, ∅, .withRetention retention, 0, 0, ∅, none, ∅, ∅⟩

/-- A private conversation with one other person. -/
structure Conversation where
  /-- Their nick, as they spell it. -/
  nick : Str
  /-- What was said. -/
  log : MessageLog
  unread : ℕ
  readMarker : Option Str
  typing : Std.ExtTreeSet CaseFolded
  deriving DecidableEq

/-- A conversation in which nothing was said yet. -/
def Conversation.new (nick : Str) (retention : ℕ) : Conversation :=
  ⟨nick, .withRetention retention, 0, none, ∅⟩

/-- Who we are on this connection. -/
structure LocalUser where
  /-- Our current nick. -/
  nick : Str
  account : Option Str
  modes : Str
  metadata : Std.ExtTreeMap Str Str
  away : Option Str
  deriving DecidableEq

/-- Everything the connection knows. -/
structure Model where
  /-- Who we are. -/
  me : LocalUser
  channels : Std.ExtTreeMap CaseFolded Channel
  conversations : Std.ExtTreeMap CaseFolded Conversation
  people : Std.ExtTreeMap CaseFolded Person
  whois : Std.ExtTreeMap CaseFolded Whois
  retention : ℕ
  nextSeq : ℕ
  deriving DecidableEq

namespace Model

/-- An empty model with this retention limit per target. -/
def withRetention (retention : ℕ) : Model :=
  ⟨⟨[], none, [], ∅, none⟩, ∅, ∅, ∅, ∅, max retention 1, 0⟩

/-- The next key at this time, and the model that has handed it out. -/
def nextMessageKey (model : Model) (timeMs : ℕ) : Model × MessageKey :=
  ({ model with nextSeq := (model.nextSeq + 1) % 2 ^ 64 }, ⟨timeMs, model.nextSeq⟩)

/-- A channel by its folded name. -/
def channel (model : Model) (key : CaseFolded) : Option Channel := model.channels[key]?

/-- A channel by its folded name, or a new one. -/
def channelOr (model : Model) (key : CaseFolded) (name : Str) : Channel :=
  (model.channel key).getD (.new name model.retention)

/-- Put a channel under a folded name. -/
def setChannel (model : Model) (key : CaseFolded) (channel : Channel) : Model :=
  { model with channels := model.channels.insert key channel }

/-- A channel, created if we have not seen it. -/
def channelOrInsert (model : Model) (key : CaseFolded) (name : Str) : Model :=
  model.setChannel key (model.channelOr key name)

/-- Change a channel we already know. -/
def channelMut (model : Model) (key : CaseFolded) (f : Channel → Channel) : Model :=
  { model with channels := model.channels.modify key f }

/-- Forget a channel. -/
def removeChannel (model : Model) (key : CaseFolded) : Model :=
  { model with channels := model.channels.erase key }

/-- A private conversation by its folded name. -/
def conversation (model : Model) (key : CaseFolded) : Option Conversation :=
  model.conversations[key]?

/-- A private conversation, or a new one. -/
def conversationOr (model : Model) (key : CaseFolded) (nick : Str) : Conversation :=
  (model.conversation key).getD (.new nick model.retention)

/-- Put a conversation under a folded name. -/
def setConversation (model : Model) (key : CaseFolded) (query : Conversation) : Model :=
  { model with conversations := model.conversations.insert key query }

/-- Change a conversation we already know. -/
def conversationMut (model : Model) (key : CaseFolded) (f : Conversation → Conversation) : Model :=
  { model with conversations := model.conversations.modify key f }

/-- The log of a target: its channel's, and else its conversation's. -/
def log (model : Model) (key : CaseFolded) : Option MessageLog :=
  match model.channel key with
  | some channel => some channel.log
  | none => (model.conversation key).map Conversation.log

/-- Change the log of a target. -/
def logMut (model : Model) (key : CaseFolded) (f : MessageLog → MessageLog) : Model :=
  match model.channel key with
  | some _ => model.channelMut key fun channel => { channel with log := f channel.log }
  | none => model.conversationMut key fun query => { query with log := f query.log }

/-- Put someone into or take them out of a set of people composing, and whether that changed it. -/
def toggleTyping (typists : Std.ExtTreeSet CaseFolded) (who : CaseFolded) (typing : Bool) :
    Std.ExtTreeSet CaseFolded × Bool :=
  if typing then (typists.insert who, !typists.contains who)
  else (typists.erase who, typists.contains who)

/-- Record that someone started or stopped composing a message somewhere, and whether this changed
anything. -/
def setTyping (model : Model) (target who : CaseFolded) (typing : Bool) : Model × Bool :=
  match model.channel target with
  | some channel =>
      let (typists, changed) := toggleTyping channel.typing who typing
      (model.setChannel target { channel with typing := typists }, changed)
  | none =>
      match model.conversation target with
      | some query =>
          let (typists, changed) := toggleTyping query.typing who typing
          (model.setConversation target { query with typing := typists }, changed)
      | none => (model, false)

/-- Someone we know about. -/
def person (model : Model) (key : CaseFolded) : Option Person := model.people[key]?

/-- Someone we know about, or someone new. -/
def personOr (model : Model) (key : CaseFolded) (nick : Str) : Person :=
  (model.person key).getD (.new nick)

/-- Change someone, remembered from now on if we did not know them. -/
def personOrInsert (model : Model) (key : CaseFolded) (nick : Str) (f : Person → Person) : Model :=
  { model with people := model.people.insert key (f (model.personOr key nick)) }

/-- Make room for one more record: of too many, the first complete one goes. -/
def makeRoomForWhois (model : Model) (key : CaseFolded) : Std.ExtTreeMap CaseFolded Whois :=
  if maxWhoisRecords ≤ model.whois.size ∧ !model.whois.contains key then
    let stale :=
      ((model.whois.toList.find? fun p => p.2.complete).or model.whois.toList.head?).map Prod.fst
    (stale.map model.whois.erase).getD model.whois
  else model.whois

/-- Change the record a `WHOIS` reply is filling in, starting over from a complete one. -/
def whoisOrInsert (model : Model) (key : CaseFolded) (nick : Str) (f : Whois → Whois) : Model :=
  let records := model.makeRoomForWhois key
  let record := records[key]?.getD (.new [])
  let record := if record.complete ∨ record.nick = [] then .new nick else record
  { model with whois := records.insert key (f record) }

/-- Rename someone in one member list. -/
def renameMember (members : Std.ExtTreeMap CaseFolded Membership) (old new : CaseFolded) :
    Std.ExtTreeMap CaseFolded Membership :=
  match members[old]? with
  | some membership => (members.erase old).insert new membership
  | none => members

/-- Rename someone everywhere they appear. -/
def rename (model : Model) (casemapping : Casemapping) (source dest : Str) : Model :=
  let old := casemapping.fold source
  let new := casemapping.fold dest
  { model with
    channels := model.channels.map fun _ channel =>
      { channel with members := renameMember channel.members old new }
    conversations :=
      match model.conversations[old]? with
      | some query => (model.conversations.erase old).insert new { query with nick := dest }
      | none => model.conversations
    people :=
      match model.people[old]? with
      | some person => (model.people.erase old).insert new { person with nick := dest }
      | none => model.people
    me := if casemapping.eq model.me.nick source then { model.me with nick := dest } else model.me }

/-- Move a channel to a new name; `none` when we were not in it. -/
def renameChannel (model : Model) (casemapping : Casemapping) (source dest : Str) : Option Model :=
  (model.channel (casemapping.fold source)).map fun channel =>
    (model.removeChannel (casemapping.fold source)).setChannel (casemapping.fold dest)
      { channel with name := dest }

/-- True when we share a channel or a conversation with this person. -/
def isAcquainted (model : Model) (key : CaseFolded) : Bool :=
  model.conversations.contains key ||
    model.channels.toList.any fun p => p.2.members.contains key

/-- Forget anyone we no longer share a channel or a conversation with. -/
def forgetStrangers (model : Model) : Model :=
  { model with
    people := model.people.filter fun key person =>
      model.isAcquainted key || person.nick == model.me.nick
    whois := model.whois.filter fun key _ => model.isAcquainted key }

/-- Forget every WHOIS record. -/
def forgetWhois (model : Model) : Model := { model with whois := ∅ }

/-- Remove someone from every channel, returning where they were. -/
def removeEverywhere (model : Model) (who : CaseFolded) : Model × List CaseFolded :=
  ({ model with
      channels := model.channels.map fun _ channel =>
        { channel with members := channel.members.erase who } },
    (model.channels.toList.filter fun p => p.2.members.contains who).map Prod.fst)

/-- Empty every member list, which only a live connection keeps true. -/
def forgetMembers (model : Model) : Model :=
  { model with channels := model.channels.map fun _ channel => { channel with members := ∅ } }

end Model

end ObbyClient

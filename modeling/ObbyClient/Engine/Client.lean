import ObbyClient.Engine.Caps
import ObbyClient.Engine.Command
import ObbyClient.Engine.Label
import ObbyClient.Engine.Sasl
import ObbyClient.Engine.Scram
import ObbyClient.Engine.Session

/-!
# One connection: its state, its queues and what it sends

The record of everything a connection holds, the two queues a host drains, and the outbound half of
the engine: the registration burst, the lines commands turn into, and the lines that put a
connection back where it was.
-/

namespace ObbyClient

/-- How far the connection has got. -/
inductive Phase where
  /-- No transport yet. -/
  | disconnected
  /-- The transport is up and capability negotiation is running. -/
  | negotiating
  /-- Capabilities are settled, waiting for `001`. -/
  | registering
  /-- `001` arrived. -/
  | registered
  deriving DecidableEq

/-- What a host needs to give the engine before it can connect. -/
structure Config where
  /-- The nick to register with. -/
  nick : Str
  /-- The username sent in `USER`. -/
  username : Str
  /-- The realname sent in `USER`. -/
  realname : Str
  /-- The server password. -/
  password : Option Str
  /-- What to authenticate with, when the server offers `sasl`. -/
  sasl : Option Credentials
  /-- How many messages each channel and conversation keeps. -/
  retention : ℕ
  /-- Nicks to fall back through when ours is taken during registration. -/
  altNicks : List Str
  deriving DecidableEq

namespace Config

/-- A config that registers with one nick and nothing else. -/
def new (nick : Str) : Config := ⟨nick, nick, nick, none, none, defaultRetention, []⟩

/-- Fill in an empty username or realname from the nick. -/
def filled (config : Config) : Config :=
  { config with
    username := if config.username = [] then config.nick else config.username
    realname := if config.realname = [] then config.nick else config.realname }

end Config

/-- How serious a `standard-replies` message is. -/
inductive Severity where
  | fail
  | warn
  | note
  deriving DecidableEq

/-- Something the host needs to know about. -/
inductive Event where
  | capabilitiesAcknowledged (names : List Str)
  | registered (nick : Str)
  | isupportToken (token : Str) (value : Option Str)
  | loggedIn (account : Str)
  | saslFailed (reason : SaslFailure)
  | nickInUse (refused trying : Str)
  | modelChanged (change : Change)
  | linkDead
  | reconnectAfter (afterMs : ℕ)
  | reconnectAbandoned
  | commandTimedOut (command : Str)
  | allowedCommandsChanged
  | botsChanged (nick : Str)
  | authToken (service endpoint token : Str)
  | voice (channel : Str) (signal : Voice.Signal)
  | typingChanged (target nick : Str) (active : Bool)
  | presenceChanged (nick : Str) (online : Bool)
  | serverReply (severity : Severity) (command code : Str) (context : List Str) (text : Str)
  /-- A line the engine has no dedicated handling for. -/
  | rawLine (message : Message)
  deriving DecidableEq

/-- One connection. -/
structure Client where
  config : Config
  phase : Phase
  caps : Capabilities
  nick : Str
  isupport : Isupport
  model : Model
  batches : Batches
  monitor : WatchList
  /-- Channel keys, so that a rejoin is not refused for want of one. -/
  channelKeys : Std.ExtTreeMap CaseFolded Str
  /-- Metadata keys we subscribed to. -/
  metadataSubscriptions : List Str
  rooms : Std.ExtTreeMap CaseFolded Voice.Room
  commands : Commands
  bots : Bots
  timers : Timers
  labels : Labels
  backoff : ReconnectBackoff
  monotonicMs : ℕ
  /-- The latest instant seen. -/
  latestMs : ℕ
  /-- True while skipping the remainder of an over-long line. -/
  discarding : Bool
  droppedLines : ℕ
  sasl : SaslState
  scram : Option Scram
  nickAttempt : ℕ
  /-- Bytes read from the transport that do not yet form a whole line. -/
  partialBytes : Bytes
  outbox : List Bytes
  events : List Event
  deriving DecidableEq

namespace Client

/-- Build an engine that has not connected yet. -/
def new (config : Config) : Client where
  config := config.filled
  phase := .disconnected
  caps := .default
  nick := config.nick
  isupport := .default
  model :=
    let model := Model.withRetention config.retention
    { model with me := { model.me with nick := config.nick } }
  batches := .new
  monitor := .new
  channelKeys := ∅
  metadataSubscriptions := []
  rooms := ∅
  commands := .new
  bots := .new
  timers := .new
  labels := .new
  backoff := .default
  monotonicMs := 0
  latestMs := 0
  discarding := false
  droppedLines := 0
  sasl := .idle
  scram := none
  nickAttempt := 0
  partialBytes := []
  outbox := []
  events := []

/-! ### The two queues -/

/-- A message as the bytes of one line. -/
def wireLine (message : Message) : Bytes := Utf8.encode message.display ++ [13, 10]

/-- Queue a message to be written. -/
def sendLine (c : Client) (message : Message) : Client :=
  { c with outbox := c.outbox ++ [wireLine message] }

/-- Queue several messages, in order. -/
def sendLines (c : Client) (messages : List Message) : Client := messages.foldl sendLine c

/-- Queue an event for the host. -/
def emit (c : Client) (event : Event) : Client := { c with events := c.events ++ [event] }

/-- Queue several events, in order. -/
def emits (c : Client) (events : List Event) : Client := events.foldl emit c

/-- Bytes the host should write to the transport. -/
def pollTransmit (c : Client) : Client × Option Bytes :=
  ({ c with outbox := c.outbox.tail }, c.outbox.head?)

/-- The next thing that happened. -/
def pollEvent (c : Client) : Client × Option Event :=
  ({ c with events := c.events.tail }, c.events.head?)

/-- Start the keepalive clock over. -/
def armKeepalive (c : Client) : Client :=
  { c with
    timers := (c.timers.clear .deadLink).set .pingKeepalive
      (satAdd64 c.monotonicMs pingKeepaliveMs) }

/-! ### Coming up and going down -/

/-- What a new connection opens with. -/
def registrationLines (config : Config) : List Message :=
  [Message.new "CAP" ["LS", "302"]] ++
    (config.password.map fun password => Message.new "PASS" [password]).toList ++
    [Message.new "NICK" [config.nick],
      Message.new "USER" [config.username, "0", "*", config.realname]]

/-- The transport is up: queue the registration burst. -/
def handleConnected (c : Client) : Client :=
  let c :=
    { c with
      phase := .negotiating
      backoff := c.backoff.reset
      timers := c.timers.clear .reconnect }
  c.armKeepalive.sendLines (registrationLines c.config)

/-- Decide when to try again, and say so. -/
def scheduleReconnect (c : Client) : Client :=
  match c.backoff.nextDelayMs with
  | (backoff, some afterMs) =>
      { c with
        backoff := backoff
        timers := c.timers.set .reconnect (satAdd64 c.monotonicMs afterMs) }.emit
        (.reconnectAfter afterMs)
  | (backoff, none) => { c with backoff := backoff }.emit .reconnectAbandoned

/-- The transport died.  The model survives, less what only a live connection keeps true. -/
def handleDisconnected (c : Client) : Client :=
  scheduleReconnect
    { c with
      phase := .disconnected
      batches := c.batches.dropAll
      caps := .default
      sasl := .idle
      monitor := c.monitor.forgetPresence
      model := c.model.forgetWhois.forgetMembers
      bots := c.bots.forget
      timers := (c.timers.clear .pingKeepalive).clear .deadLink }

/-! ### The clock -/

/-- Stop showing someone as typing once their indicator has gone stale. -/
def expireTyping (c : Client) (target who : Str) : Client :=
  let (model, changed) := c.model.setTyping ⟨target⟩ ⟨who⟩ false
  let c := { c with model := model }
  if changed then c.emit (.typingChanged target who false) else c

/-- What happens when one deadline falls due. -/
def fire (now : Now) (c : Client) : Deadline → Client
  | .pingKeepalive =>
      let c := c.sendLine (Message.new "PING" [c.nick])
      { c with timers := c.timers.set .deadLink (satAdd64 now.monotonicMs deadLinkMs) }
  | .deadLink => c.emit .linkDead
  | .reconnect => c.emit (.reconnectAfter 0)
  | .typing target who => c.expireTyping target who

/-- Advance the clock.  Whatever has fallen due happens here. -/
def tick (c : Client) (now : Now) : Client :=
  let c := { c with monotonicMs := now.monotonicMs, latestMs := max c.latestMs now.unixMs }
  let (timers, due) := c.timers.expire now
  let c := due.foldl (fire now) { c with timers := timers }
  let (labels, late) := c.labels.expire now.monotonicMs
  { c with labels := labels }.emits (late.map .commandTimedOut)

/-! ### Putting a connection back where it was -/

/-- The most targets one `MONITOR` may name. -/
def monitorLimit (c : Client) : ℕ := (c.isupport.number "MONITOR").getD 100

/-- The requests that start or stop watching these nicks. -/
def monitorLines (c : Client) (verb : Str) (nicks : List Str) : List Message :=
  (Monitor.batched nicks c.monitorLimit).map fun chunk => Message.new "MONITOR" [verb, chunk]

/-- The line that enters a channel. -/
def joinLine (channel : Str) : Option Str → Message
  | some key => Message.new "JOIN" [channel, key]
  | none => Message.new "JOIN" [channel]

/-- Rejoin one channel, and ask for what happened in it while we were gone. -/
def rejoinLines (c : Client) (channel : Channel) : List Message :=
  let key := c.channelKeys[c.isupport.fold channel.name]?
  let newest := channel.log.last.bind ChatMessage.msgid
  joinLine channel.name key ::
    if c.caps.has "draft/chathistory" then
      (newest.map fun msgid =>
        Message.new "CHATHISTORY" ["AFTER", channel.name, ("msgid=" : Str) ++ msgid, "100"]).toList
    else []

/-- Everything a reconnect has to ask for again. -/
def resumeLines (c : Client) : List Message :=
  c.monitorLines "+" (c.monitor.watched.map CaseFolded.asStr) ++
    (if c.metadataSubscriptions = [] then []
      else [Message.new "METADATA" (("*" : Str) :: ("SUB" : Str) :: c.metadataSubscriptions)]) ++
    c.model.channels.toList.flatMap fun p => c.rejoinLines p.2

/-- Put the connection back where it was. -/
def resume (c : Client) : Client := c.sendLines c.resumeLines

/-! ### Commands -/

/-- Send a command under a label, when `labeled-response` is in force. -/
def sendLineLabeled (c : Client) (message : Message) : Client :=
  if !c.caps.has "labeled-response" then c.sendLine message
  else
    let (labels, label) := c.labels.generate
    let labels :=
      labels.register label (satAdd64 c.monotonicMs defaultTimeoutMs) message.command
    { c with labels := labels }.sendLine
      { message with tags := message.tags.set (.new "label" label) }

/-- A command word with one optional parameter behind the fixed ones. -/
def optionalLine (command : Str) (params : List Str) (last : Option Str) : Message :=
  Message.new command (params ++ last.toList)

/-- A reaction put on or taken off a message. -/
def reactionLine (tag target msgid emoji : Str) : Message :=
  let line := Message.new "TAGMSG" [target]
  { line with tags := (line.tags.set (.new tag emoji)).set (.new "+draft/reply" msgid) }

/-- A bodiless message that carries one tag. -/
def tagLine (target key value : Str) : Message :=
  let line := Message.new "TAGMSG" [target]
  { line with tags := line.tags.set (.new key value) }

/-- Ask for a page of history. -/
def chathistory (target : Str) (beforeMsgid : Option Str) (limit : ℕ) : Message :=
  match beforeMsgid with
  | some msgid =>
      Message.new "CHATHISTORY" ["BEFORE", target, ("msgid=" : Str) ++ msgid, natToStr limit]
  | none => Message.new "CHATHISTORY" ["LATEST", target, "*", natToStr limit]

/-- Ask for an invitation link to a channel, or to the network. -/
def inviteLink (channel description : Option Str) : Message :=
  let place : List Str :=
    match channel, description with
    | some channel, _ => [channel]
    | none, some _ => ["*"]
    | none, none => []
  Message.new "INVITELINK" (("CREATE" : Str) :: place ++ description.toList)

/-- Turn a command into the line that carries it; `none` for the commands that need the state of the
connection, and for a raw line that will not parse. -/
def wire : Command → Option Message
  | .sendMessage _ _ => none
  | .sendNotice _ _ => none
  | .sendAction _ _ => none
  | .watchNicks _ => none
  | .unwatchNicks _ => none
  | .join _ _ => none
  | .subscribeMetadata _ => none
  | .part channel reason => some (optionalLine "PART" [channel] reason)
  | .setNick nick => some (Message.new "NICK" [nick])
  | .setTopic channel topic => some (Message.new "TOPIC" [channel, topic.getD []])
  | .setAway message => some (optionalLine "AWAY" [] message)
  | .setTyping target state => some (tagLine target "+typing" state.asStr)
  | .addReaction target msgid emoji => some (reactionLine "+draft/react" target msgid emoji)
  | .removeReaction target msgid emoji => some (reactionLine "+draft/unreact" target msgid emoji)
  | .redactMessage target msgid reason => some (optionalLine "REDACT" [target, msgid] reason)
  | .markRead target atMs =>
      some (Message.new "MARKREAD" [target, ("timestamp=" : Str) ++ ServerTime.format atMs])
  | .fetchHistory target beforeMsgid limit => some (chathistory target beforeMsgid limit)
  | .whois nick => some (Message.new "WHOIS" [nick])
  | .renameChannel channel newName reason => some (optionalLine "RENAME" [channel, newName] reason)
  | .createInviteLink channel description => some (inviteLink channel description)
  | .listInviteLinks => some (Message.new "INVITELINK" ["LIST"])
  | .deleteInviteLink shareId => some (Message.new "INVITELINK" ["DELETE", shareId])
  | .redeemInviteCode code => some (Message.new "INVITECODE" [code])
  | .generateToken service => some (Message.new "TOKEN" ["GENERATE", service])
  | .setMetadata key value => some (optionalLine "METADATA" ["*", "SET", key] value)
  | .sendVoiceSignal channel signal => some (tagLine channel "+obsidianirc/rtc" signal.toJson)
  | .quit reason => some (optionalLine "QUIT" [] reason)
  | .sendRawLine line => (Message.parse line).toOption

/-- Start or stop watching a set of nicks. -/
def setWatching (c : Client) (nicks : List Str) (watching : Bool) : Client :=
  let folded := nicks.map c.isupport.fold
  let monitor := if watching then c.monitor.watch folded else c.monitor.unwatch folded
  { c with monitor := monitor }.sendLines
    (c.monitorLines (if watching then "+" else "-") nicks)

/-- Remember the keys we subscribe to, each once. -/
def subscribe (subscriptions keys : List Str) : List Str :=
  keys.foldl (fun held key => if key ∈ held then held else held ++ [key]) subscriptions

end Client

end ObbyClient

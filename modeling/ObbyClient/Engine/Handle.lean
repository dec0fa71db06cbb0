import ObbyClient.Engine.Client

/-!
# What the engine does with what it reads

The inbound half: bytes into lines, and each line to the handler its command names.  `Client.step`
is everything a host can do to a client, and `Client.Reachable` what comes of it.
-/

namespace ObbyClient

namespace Client

/-- The most we will buffer while assembling one inbound line: the tag budget plus the rest of the
largest line any server may send. -/
def maxInboundLine : ℕ := 8191 + 512

/-- The batch type that carries replayed history. -/
def chathistoryBatch : Str := "chathistory"

/-- The batch type that wraps one message split across several lines. -/
def multilineBatch : Str := "draft/multiline"

/-- The tag on a line that continues the previous one with nothing between them. -/
def multilineConcat : Str := "draft/multiline-concat"

/-- Count a dropped line. -/
def dropLine (c : Client) : Client := { c with droppedLines := satAdd64 c.droppedLines 1 }

/-! ### Folding lines into the model -/

/-- Ask who is in a channel, in the richest form the server supports. -/
def whoLine (c : Client) (channel : Str) : Message :=
  if c.isupport.has "WHOX" then
    Message.new "WHO" [channel, Session.whoxFields ++ ',' :: Session.whoxToken]
  else Message.new "WHO" [channel]

/-- Move what is kept under a channel's old name to its new one. -/
def moveKept {ν : Type} (kept : Std.ExtTreeMap CaseFolded ν) (source dest : CaseFolded) :
    Std.ExtTreeMap CaseFolded ν :=
  match kept[source]? with
  | some value => (kept.erase source).insert dest value
  | none => kept

/-- What the connection itself does about a change: ask who is in a channel we joined, and carry the
key and the room of a renamed one along. -/
def onChange (c : Client) : Change → Client
  | .channelJoined channel => c.sendLine (c.whoLine channel)
  | .channelRenamed source dest =>
      let (source, dest) := (c.isupport.fold source, c.isupport.fold dest)
      { c with
        channelKeys := moveKept c.channelKeys source dest
        rooms := moveKept c.rooms source dest }
  | _ => c

/-- The view of the connection that a line is folded into. -/
def context (c : Client) (historical : Bool) : Session.Context :=
  ⟨c.model, c.isupport, c.latestMs, historical⟩

section Fold

variable [Primitives]

/-- Fold one line into the model and surface whatever it changed. -/
def fold (c : Client) (message : Message) (historical : Bool) : Client :=
  let (ctx, changes) := Session.apply (c.context historical) message
  let c := { c with model := ctx.model, latestMs := ctx.latestMs }
  if changes = [] then
    if Session.accumulates (toAsciiUppercase message.command) then c
    else c.emit (.rawLine message)
  else (changes.foldl onChange c).emits (changes.map .modelChanged)

/-- Fold several lines, in order. -/
def folds (c : Client) (messages : List Message) (historical : Bool) : Client :=
  messages.foldl (fun c message => c.fold message historical) c

/-- Send something that lands in a conversation, recording it ourselves if no echo is coming. -/
def say (c : Client) (line : Message) : Client :=
  let c := c.sendLineLabeled line
  if c.caps.has "echo-message" then c
  else c.fold { line with source := some ⟨c.nick, none, none⟩ } false

end Fold

/-! ### Batches -/

/-- Put one line of a multiline batch behind the lines already joined. -/
def joinLines (joined : List Message) (message : Message) : List Message :=
  match joined.getLast? with
  | none => [message]
  | some previous =>
      let isText := message.is "PRIVMSG" || message.is "NOTICE"
      if !isText || !previous.is message.command || previous.param 0 ≠ message.param 0 then
        joined ++ [message]
      else
        let separator : Str := if message.tags.contains multilineConcat then [] else ['\n']
        let addition := (message.param 1).getD []
        joined.dropLast ++
          [{ previous with
              params := previous.params.modify 1 fun text => text ++ separator ++ addition }]

/-- Put a message a server split across several lines back together. -/
def joinMultiline (closed : ClosedBatch) : ClosedBatch :=
  { closed with messages := closed.messages.foldl joinLines [] }

/-- The lines a closed batch delivers. -/
def batchLines (closed : ClosedBatch) : List Message :=
  (if closed.kind = multilineBatch then joinMultiline closed else closed).messages

/-- True when the lines of a closed batch are replayed history. -/
def isHistory (batches : Batches) (closed : ClosedBatch) : Bool :=
  closed.kind == chathistoryBatch ||
    closed.parent.any fun parent => batches.isWithin parent chathistoryBatch

section Batch

variable [Primitives]

/-- Open a batch, or close one and deliver what it held. -/
def handleBatch (c : Client) (message : Message) : Client :=
  if ((message.param 0).getD []).head? = some '+' then
    { c with batches := c.batches.opened message }
  else
    match c.batches.close message with
    | none => c
    | some (batches, closed) =>
        { c with batches := batches }.folds (batchLines closed) (isHistory batches closed)

end Batch

/-! ### SASL -/

/-- Open the exchange, if there is one to open: the client that now waits on the server, or the one
that does not. -/
def startSaslIfWanted (c : Client) : Client × Bool :=
  if c.sasl ≠ .idle ∨ c.caps.has "sasl" = false then (c, false)
  else
    match c.config.sasl with
    | none => (c, false)
    | some credentials =>
        let mechanism := credentials.mechanism
        if Sasl.offers (c.caps.value "sasl") mechanism then
          ({ c with sasl := .offered }.sendLine (Message.new "AUTHENTICATE" [mechanism]), true)
        else ({ c with sasl := .settled }.emit (.saslFailed .noSharedMechanism), false)

/-- Send `CAP END` once nothing is left to wait for. -/
def finishNegotiationIfSettled (c : Client) : Client :=
  if c.phase ≠ .negotiating ∨ c.caps.settled = false then c
  else
    let (c, waiting) := c.startSaslIfWanted
    if waiting || c.sasl.inFlight then c
    else { c with phase := .registering }.sendLine (Message.new "CAP" ["END"])

/-- End the exchange either way and release the `CAP END` that was waiting on it. -/
def finishSasl (c : Client) (failure : Option SaslFailure) : Client :=
  if c.sasl = .settled then c
  else
    ({ c with sasl := .settled }.emits
      (failure.map Event.saslFailed).toList).finishNegotiationIfSettled

section Authenticate

variable [Primitives]

/-- Send a response, in as many lines as it takes. -/
def sendSasl (c : Client) (payload : Bytes) : Client :=
  c.sendLines ((Sasl.encodeResponse payload).map fun line => Message.new "AUTHENTICATE" [line])

/-- Answer the server's invitation with whatever the mechanism opens with. -/
def beginSaslResponse (c : Client) : Client :=
  match c.config.sasl with
  | none => c
  | some (.scram username password nonce) =>
      let scram := Scram.new username password nonce
      { c with scram := some scram, sasl := .scramChallenged }.sendSasl scram.clientFirst
  | some credentials => { c with sasl := .responded }.sendSasl credentials.response

/-- Prove we know the password, over the salt and nonce the server just sent. -/
def answerScramChallenge (c : Client) (challenge : Bytes) : Client :=
  match c.scram with
  | none => c.finishSasl (some .aborted)
  | some scram =>
      match scram.clientFinal challenge with
      | .ok (scram, response) =>
          { c with scram := some scram, sasl := .scramProved }.sendSasl response
      | .error _ => c.finishSasl (some .rejected)

/-- Check that the server knows the password too. -/
def verifyScramServer (c : Client) (challenge : Bytes) : Client :=
  match c.scram with
  | none => c.finishSasl (some .aborted)
  | some scram =>
      match scram.verify challenge with
      | .ok _ =>
          { c with scram := none, sasl := .responded }.sendLine (Message.new "AUTHENTICATE" ["+"])
      | .error _ => { c with scram := none }.finishSasl (some .serverNotVerified)

def handleAuthenticate (c : Client) (message : Message) : Client :=
  match Sasl.decodeChallenge ((message.param 0).getD "+") with
  | none => c.finishSasl (some .aborted)
  | some challenge =>
      match c.sasl with
      | .offered => c.beginSaslResponse
      | .scramChallenged => c.answerScramChallenge challenge
      | .scramProved => c.verifyScramServer challenge
      | _ => c

end Authenticate

/-- Why a SASL error numeric says authentication failed. -/
def saslFailure (command : Str) : Option SaslFailure :=
  if command = "904" then some .rejected
  else if command = "905" then some .tooLong
  else if command = "906" then some .aborted
  else if command = "907" then some .alreadyAuthenticated
  else none

/-! ### Capabilities -/

/-- Ask for what we want and were not asked for yet, one request a line. -/
def requestWanted (c : Client) : Client :=
  let wanted := c.caps.toRequest
  if wanted = [] then c.finishNegotiationIfSettled
  else
    { c with caps := c.caps.requested wanted }.sendLines
      (wanted.map fun name => Message.new "CAP" ["REQ", name])

/-- Apply one capability reply, by its subcommand. -/
def applyCap (c : Client) (subcommand list : Str) (moreToCome : Bool) : Client :=
  if subcommand = "LS" then
    let c := { c with caps := c.caps.advertise list }
    if moreToCome then c else c.requestWanted
  else if subcommand = "NEW" then { c with caps := c.caps.advertise list }.requestWanted
  else if subcommand = "DEL" then { c with caps := c.caps.withdraw list }
  else if subcommand = "ACK" then
    let (caps, names) := c.caps.acknowledge list
    let c := { c with caps := caps }
    (if names = [] then c else c.emit (.capabilitiesAcknowledged names)).finishNegotiationIfSettled
  else if subcommand = "NAK" then
    { c with caps := c.caps.reject list }.finishNegotiationIfSettled
  else c

def handleCap (c : Client) (message : Message) : Client :=
  match message.param 1 with
  | none => c
  | some subcommand =>
      c.applyCap (toAsciiUppercase subcommand) (message.trailing.getD [])
        (message.param 2 == some ("*" : Str))

/-! ### Registration -/

/-- `001`: the nick is settled, and a reconnect takes up where the last connection ended. -/
def handleWelcome (c : Client) (message : Message) : Client :=
  let nick := (message.param 0).getD c.nick
  { c with
    phase := .registered
    nick := nick
    model := { c.model with me := { c.model.me with nick := nick } } }.emit
    (.registered nick) |>.resume

/-- Walk the fallback nicks, then append underscores.  Only during registration. -/
def handleNickRefused (c : Client) (message : Message) : Client :=
  if c.phase = .registered then c.emit (.rawLine message)
  else
    let refused := (message.param 1).getD c.nick
    let trying := (c.config.altNicks[c.nickAttempt]?).getD (c.nick ++ ['_'])
    ({ c with
      nickAttempt := c.nickAttempt + 1
      nick := trying
      model := { c.model with me := { c.model.me with nick := trying } } }.emit
      (.nickInUse refused trying)).sendLine (Message.new "NICK" [trying])

/-- Apply one token of a `005`. -/
def applyToken (c : Client) (token : Str) : Client :=
  let (isupport, applied) := c.isupport.apply token
  { c with isupport := isupport }.emit (.isupportToken applied.name applied.value)

/-- The first and the last parameter are not tokens. -/
def handleIsupport (c : Client) (message : Message) : Client :=
  ((message.params.drop 1).take (message.params.length - 2)).foldl applyToken c

/-! ### Lines that are not messages -/

/-- Apply a `+typing` tag, if the line carries one. -/
def handleTyping (c : Client) (message : Message) : Option Client :=
  match message.tag "+typing", message.param 0, message.source with
  | some state, some target, some source =>
      let who := source.name
      let target := if c.isupport.isChannel target then target else who
      let foldedTarget := c.isupport.fold target
      let foldedWho := c.isupport.fold who
      let typing := state == ("active" : Str)
      let deadline := Deadline.typing foldedTarget.asStr foldedWho.asStr
      let timers :=
        if typing then c.timers.set deadline (satAdd64 c.monotonicMs typingExpiryMs)
        else c.timers.clear deadline
      let (model, changed) := c.model.setTyping foldedTarget foldedWho typing
      let c := { c with timers := timers, model := model }
      some (if changed then c.emit (.typingChanged target who typing) else c)
  | _, _, _ => none

/-- Apply a voice signalling frame, if the line carries one. -/
def handleRtc (c : Client) (message : Message) : Option Client :=
  match message.tag "+obsidianirc/rtc", message.param 0 with
  | some payload, some channel =>
      match Voice.Signal.fromJson payload with
      | none => some c.dropLine
      | some signal =>
          let folded := c.isupport.fold channel
          let room := c.rooms[folded]?.getD (.new channel)
          let room := room.apply c.nick signal c.isupport.casemapping
          some ({ c with rooms := c.rooms.insert folded room }.emit (.voice channel signal))
  | _, _ => none

section Bots

variable [Primitives]

/-- Apply a bot's announcement. -/
def handleBotInfo (c : Client) (payload : Str) : Client :=
  match BotInfo.decode payload with
  | none => c.dropLine
  | some info =>
      let key := (c.isupport.fold info.bot.nick).asStr
      let bots :=
        if info.removed then c.bots.remove key
        else
          let bots := c.bots.insert key info.bot
          (bots.setCommands key info.commands).getD bots
      { c with bots := bots }.emit (.botsChanged info.bot.nick)

/-- Apply a bot's command list, which only an announced bot may send. -/
def handleBotCommands (c : Client) (payload : Str) (source : Option Source) : Client :=
  match decodeBotCommands payload, source with
  | some commands, some source =>
      match c.bots.setCommands (c.isupport.fold source.name).asStr commands with
      | some bots => { c with bots := bots }.emit (.botsChanged source.name)
      | none => c
  | _, _ => c.dropLine

/-- Apply a channel-bots announcement or a bot's command list, if the line carries one. -/
def handleBotTags (c : Client) (message : Message) : Option Client :=
  match message.tag botInfoTag, message.tag botCommandsTag with
  | some payload, _ => some (c.handleBotInfo payload)
  | none, some payload => some (c.handleBotCommands payload message.source)
  | none, none => none

/-- A TAGMSG that is an indicator, a frame or an announcement rather than a message. -/
def handleTagmsg (c : Client) (message : Message) : Option Client :=
  if !message.is "TAGMSG" then none
  else (c.handleTyping message).or ((c.handleRtc message).or (c.handleBotTags message))

end Bots

/-- Surface a minted bearer token; any other shape reaches the host raw. -/
def handleToken (c : Client) (message : Message) : Option Client :=
  if !message.is "TOKEN" ∨ message.param 0 ≠ some ("GENERATE" : Str) then none
  else
    match message.param 1, message.param 2, message.param 3 with
    | some service, some endpoint, some token => some (c.emit (.authToken service endpoint token))
    | _, _, _ => none

/-- Apply one target of a `730` or a `731`. -/
def applyPresence (online : Bool) (c : Client) (target : Str) : Client :=
  let nick := Session.before '!' target
  let folded := c.isupport.fold nick
  let monitor := if online then c.monitor.markOnline folded else c.monitor.markOffline folded
  { c with monitor := monitor }.emit (.presenceChanged nick online)

def handleMonitor (c : Client) (message : Message) : Client :=
  match message.param 1 with
  | none => c
  | some list => (Monitor.splitTargets list).foldl (applyPresence (message.is "730")) c

/-- Read the severity off a `standard-replies` verb. -/
def severityOf (command : Str) : Option Severity :=
  let command := toAsciiUppercase command
  if command = "FAIL" then some .fail
  else if command = "WARN" then some .warn
  else if command = "NOTE" then some .note
  else none

/-- Surface a `FAIL`, `WARN` or `NOTE`, if the line has the shape of one. -/
def handleStandardReply (c : Client) (message : Message) : Option Client :=
  match severityOf message.command, message.param 1 with
  | some severity, some code =>
      let command := (message.param 0).getD "*"
      let context := (message.params.drop 2).take (message.params.length - 3)
      some (c.emit (.serverReply severity command code context (message.trailing.getD [])))
  | _, _ => none

/-! ### Dispatch -/

section Dispatch

variable [Primitives]

/-- A line no handler claims: held in its batch until that closes, and else folded right away. -/
def handleOther (c : Client) (message : Message) : Client :=
  match c.batches.route message with
  | some batches => { c with batches := batches }
  | none => c.fold message false

/-- The lines that concern authentication and batches, and all the rest. -/
def dispatchLate (c : Client) (message : Message) : Client :=
  if message.is "AUTHENTICATE" then c.handleAuthenticate message
  else if message.is "433" || message.is "432" then c.handleNickRefused message
  else if (saslFailure message.command).isSome then c.finishSasl (saslFailure message.command)
  else if message.is "900" then
    c.emits ((message.param 2).map Event.loggedIn).toList
  else if message.is "903" then c.finishSasl none
  else if message.is "BATCH" then c.handleBatch message
  else c.handleOther message

/-- The lines between registration and authentication, some of which only look like their kind. -/
def dispatchMiddle (c : Client) (message : Message) : Client :=
  match (c.handleTagmsg message).or (c.handleToken message) with
  | some c => c
  | none =>
      if message.is "CMDSLIST" then
        { c with commands := c.commands.apply message }.emit .allowedCommandsChanged
      else if message.command = "730" ∨ message.command = "731" then c.handleMonitor message
      else
        match c.handleStandardReply message with
        | some c => c
        | none => c.dispatchLate message

/-- Hand a line to the handler its command names. -/
def dispatch (c : Client) (message : Message) : Client :=
  if message.is "PONG" then c
  else if message.is "PING" then
    c.sendLine (Message.new "PONG" [message.trailing.getD []])
  else if message.is "CAP" then c.handleCap message
  else if message.is "001" then c.handleWelcome message
  else if message.is "005" then c.handleIsupport message
  else c.dispatchMiddle message

/-- Take one line.  Any line at all proves the link alive and may answer a label. -/
def handleMessage (c : Client) (message : Message) : Client :=
  let c := c.armKeepalive
  { c with labels := c.labels.resolve message }.dispatch message

/-- Take one line as it was read, its line feed included.  A server is not reliably UTF-8. -/
def handleLine (c : Client) (line : Bytes) : Client :=
  match Message.parse (Utf8.decodeLossy line) with
  | .ok message => c.handleMessage message
  | .error _ => c.dropLine

/-- Take the whole lines off the buffer.  Each turn takes at least its line feed, so a fuel above
the length of the buffer is never used up. -/
def handleLines : ℕ → Client → Client
  | 0, c => c
  | fuel + 1, c =>
      match splitOnce 10 c.partialBytes with
      | none =>
          if maxInboundLine < c.partialBytes.length then
            { c with partialBytes := [], discarding := true }.dropLine
          else c
      | some (line, rest) =>
          let c := { c with partialBytes := rest }
          if c.discarding then handleLines fuel { c with discarding := false }
          else handleLines fuel (c.handleLine (line ++ [10]))

/-- Feed whatever the transport read.  Partial lines are held until the rest arrives. -/
def handleBytes (c : Client) (data : Bytes) : Client :=
  let c := { c with partialBytes := c.partialBytes ++ data }
  handleLines (c.partialBytes.length + 1) c

/-! ### Everything a host can do -/

/-- Do something on this connection. -/
def command (c : Client) : Command → Client
  | .sendMessage target text => c.say (Message.new "PRIVMSG" [target, text])
  | .sendNotice target text => c.say (Message.new "NOTICE" [target, text])
  | .sendAction target text =>
      c.say (Message.new "PRIVMSG" [target, ("\x01ACTION " : Str) ++ text ++ ['\x01']])
  | .join channel key =>
      let folded := c.isupport.fold channel
      let channelKeys :=
        match key with
        | some key => c.channelKeys.insert folded key
        | none => c.channelKeys.erase folded
      { c with channelKeys := channelKeys }.sendLineLabeled (joinLine channel key)
  | .subscribeMetadata keys =>
      { c with metadataSubscriptions := subscribe c.metadataSubscriptions keys }.sendLineLabeled
        (Message.new "METADATA" (("*" : Str) :: ("SUB" : Str) :: keys))
  | .watchNicks nicks => c.setWatching nicks true
  | .unwatchNicks nicks => c.setWatching nicks false
  | other =>
      match wire other with
      | some line => c.sendLineLabeled line
      | none => c

/-- One thing a host does to a client. -/
inductive Input where
  | connected
  | disconnected
  | bytes (data : Bytes)
  | tick (now : Now)
  | command (command : Command)
  | sendLine (message : Message)
  | sendLineLabeled (message : Message)
  | pollTransmit
  | pollEvent

/-- The client after one input. -/
def step (c : Client) : Input → Client
  | .connected => c.handleConnected
  | .disconnected => c.handleDisconnected
  | .bytes data => c.handleBytes data
  | .tick now => c.tick now
  | .command command => c.command command
  | .sendLine message => c.sendLine message
  | .sendLineLabeled message => c.sendLineLabeled message
  | .pollTransmit => c.pollTransmit.1
  | .pollEvent => c.pollEvent.1

/-- The client after several inputs. -/
def run (c : Client) (inputs : List Input) : Client := inputs.foldl step c

end Dispatch

end Client

end ObbyClient

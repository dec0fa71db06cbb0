import ObbyClient.Engine.Model
import ObbyClient.Proto.Mode
import ObbyClient.Proto.ServerTime

/-!
# Turning protocol lines into model changes

`Session.apply` folds one line into the model and says what changed.  Each command has its own
function; all of them read and write a `Context`.
-/

namespace ObbyClient

/-- What changed, for a host that wants to react without comparing whole models. -/
inductive Change where
  /-- A message landed in a channel or a conversation. -/
  | messageAdded (target : Str) (key : MessageKey)
  | channelJoined (channel : Str)
  | channelParted (channel : Str)
  | channelMembersChanged (channel : Str)
  | channelTopicChanged (channel : Str)
  | nickChanged (source dest : Str)
  | channelModesChanged (channel : Str)
  | readMarkerMoved (target : Str)
  | messageReacted (target msgid : Str)
  | messageRedacted (target msgid : Str)
  | metadataChanged (target key : Str)
  | whoisReceived (nick : Str)
  | channelRenamed (source dest : Str)
  deriving DecidableEq

namespace Session

/-- The token our own WHOX requests carry. -/
def whoxToken : Str := "332"

/-- The WHOX fields we ask for. -/
def whoxFields : Str := "%tcuhnfar"

/-- Everything needed to fold one line into the model. -/
structure Context where
  model : Model
  isupport : Isupport
  /-- The latest timestamp seen. -/
  latestMs : ℕ
  /-- True while replaying a history batch. -/
  historical : Bool

/-- A context after a line, and what the line changed. -/
abbrev Result := Context × List Change

namespace Context

def casemapping (ctx : Context) : Casemapping := ctx.isupport.casemapping

def fold (ctx : Context) (name : Str) : CaseFolded := ctx.isupport.fold name

/-- When a line happened: as the server stamped it, and else the latest instant seen. -/
def stamped (ctx : Context) (line : Message) : ℕ :=
  ((line.tag "time").bind ServerTime.parse).getD ctx.latestMs

/-- Remember the latest instant seen. -/
def stamp (ctx : Context) (line : Message) : Context :=
  { ctx with latestMs := max ctx.latestMs (ctx.stamped line) }

def isMe (ctx : Context) (nick : Str) : Bool := ctx.casemapping.eq ctx.model.me.nick nick

/-- The same context with another model. -/
def withModel (ctx : Context) (model : Model) : Context := { ctx with model := model }

/-- Change a channel we already know. -/
def channelMut (ctx : Context) (key : CaseFolded) (f : Channel → Channel) : Context :=
  ctx.withModel (ctx.model.channelMut key f)

end Context

/-- Who sent a line. -/
def sender (line : Message) : Str := (line.source.map Source.name).getD []

/-- What stands in front of the first separator, or everything. -/
def before (sep : Char) (s : Str) : Str := ((splitOnce sep s).map Prod.fst).getD s

/-! ### Messages -/

section Mentions

variable [Primitives]

/-- True when this character may appear in a nick. -/
def isNickChar (c : Char) : Bool :=
  Primitives.isAlphanumeric c || ("[]\\`_^{|}-" : Str).contains c

/-- Look for the needle, standing alone, from here on.  The text gets shorter with every turn. -/
def mentionsFrom (needle : Str) : ℕ → Option Char → Str → Bool
  | 0, _, _ => false
  | _ + 1, _, [] => false
  | fuel + 1, prev, c :: cs =>
      if needle.isPrefixOf (c :: cs) then
        let rest := (c :: cs).drop needle.length
        if !prev.any isNickChar && !rest.head?.any isNickChar then true
        else mentionsFrom needle fuel needle.getLast? rest
      else mentionsFrom needle fuel (some c) cs

/-- True when this text addresses `nick`, under the server's casemapping. -/
def mentions (casemapping : Casemapping) (text nick : Str) : Bool :=
  let folded := (casemapping.fold text).asStr
  nick ≠ [] && mentionsFrom (casemapping.fold nick).asStr (folded.length + 1) none folded

end Mentions

/-- Someone's reaction put on or taken off a message. -/
def react (adding : Bool) (emoji who : Str) (message : ChatMessage) : ChatMessage :=
  let reactors := message.reactions[emoji]?.getD []
  if adding then
    let reactors := if who ∈ reactors then reactors else reactors ++ [who]
    { message with reactions := message.reactions.insert emoji reactors }
  else
    let reactors := reactors.filter (· ≠ who)
    { message with
      reactions :=
        if reactors = [] then message.reactions.erase emoji
        else message.reactions.insert emoji reactors }

theorem react_key (adding : Bool) (emoji who : Str) (message : ChatMessage) :
    (react adding emoji who message).key = message.key := by
  unfold react
  split <;> rfl

/-- The emoji of a reaction, and whether it is being added. -/
def reactionTag (line : Message) : Option (Str × Bool) :=
  match line.tag "+draft/react" with
  | some emoji => some (emoji, true)
  | none => (line.tag "+draft/unreact").map fun emoji => (emoji, false)

/-- Apply a reaction carried on a TAGMSG; `none` when the line is an ordinary one. -/
def reaction (ctx : Context) (line : Message) : Option Result := do
  let (emoji, adding) ← reactionTag line
  let msgid ← line.replyTag
  let who := (ctx.fold (sender line)).asStr
  let target ← line.param 0
  let folded := ctx.fold target
  let log ← ctx.model.log folded
  let _ ← log.get msgid
  let model := ctx.model.logMut folded fun log =>
    log.modify msgid (react adding emoji who) (react_key adding emoji who)
  some (ctx.withModel model, [.messageReacted target msgid])

/-- Attach a server-built link preview to the message it describes; `none` when the line is not a
preview.  One without its message changes nothing. -/
def linkPreview (ctx : Context) (line : Message) : Option Result :=
  (LinkPreview.parse line).map fun (msgid, preview) =>
    match line.param 0 with
    | none => (ctx, [])
    | some name =>
        let folded := ctx.fold name
        match (ctx.model.log folded).bind (·.get msgid) with
        | none => (ctx, [])
        | some message =>
            let model := ctx.model.logMut folded fun log =>
              log.modify msgid (fun message => { message with linkPreview := some preview })
                fun _ => rfl
            (ctx.withModel model, [.messageAdded name message.key])

/-- **A reaction** edits one log, and tells of one message. -/
theorem reaction_eq_some {ctx : Context} {line : Message} {result : Result}
    (h : reaction ctx line = some result) :
    ∃ target msgid f, result =
      (ctx.withModel (ctx.model.logMut (ctx.fold target) f), [.messageReacted target msgid]) := by
  unfold reaction at h
  simp only [Option.bind_eq_bind, Option.bind_eq_some_iff] at h
  obtain ⟨⟨emoji, adding⟩, -, msgid, -, target, -, log, -, held, -, h⟩ := h
  exact ⟨target, msgid, _, (Option.some.inj h).symm⟩

/-- **A link preview** changes nothing, or edits a message that is held and tells of that one. -/
theorem linkPreview_eq_some {ctx : Context} {line : Message} {result : Result}
    (h : linkPreview ctx line = some result) :
    result = (ctx, []) ∨ ∃ name msgid message, ∃ f : ChatMessage → ChatMessage,
      ∃ hf : ∀ message, (f message).key = message.key,
        (ctx.model.log (ctx.fold name)).bind (·.get msgid) = some message ∧
          result = (ctx.withModel (ctx.model.logMut (ctx.fold name) fun log =>
            log.modify msgid f hf),
            [.messageAdded name message.key]) := by
  obtain ⟨⟨msgid, preview⟩, -, rfl⟩ := Option.map_eq_some_iff.mp h
  dsimp only
  split
  · exact .inl rfl
  · rename_i name _
    split
    · exact .inl rfl
    · rename_i message hmessage
      exact .inr ⟨name, msgid, message, fun message => { message with linkPreview := some preview },
        fun _ => rfl, hmessage, rfl⟩

/-- The kind and the text of a message body. -/
def kindAndText (command body : Str) : MessageKind × Str :=
  if command = "TAGMSG" then (.tagmsg, body)
  else if command = "NOTICE" then (.notice, body)
  else
    match parseCtcp body with
    | some ctcp => (.ctcp (toAsciiUppercase ctcp.command), ctcp.params)
    | none => (.privmsg, body)

/-- The message a line carries, under the next key. -/
def chatMessage (ctx : Context) (line : Message) (command : Str) : ChatMessage :=
  let body := if command = "TAGMSG" then [] else (line.param 1).getD []
  let (kind, text) := kindAndText command body
  { ChatMessage.new (ctx.model.nextMessageKey (ctx.stamped line)).2 (sender line) kind with
    text := text
    msgid := line.tag "msgid"
    account := line.tag "account"
    own := ctx.isMe (sender line)
    historical := ctx.historical
    replyTo := line.replyTag }

/-- The target without the status prefix that narrows it down. -/
def addressee (ctx : Context) (target : Str) : Str := target.dropWhile ctx.isupport.isStatusmsg

/-- True when a message to this target belongs in a channel. -/
def filesInChannel (ctx : Context) (target : Str) : Bool :=
  ctx.isupport.isChannel (addressee ctx target)

/-- Where a message is filed: in the channel it is addressed to, and else in the conversation with
the other side. -/
def filedUnder (ctx : Context) (line : Message) (target : Str) : Str :=
  if filesInChannel ctx target then addressee ctx target
  else if ctx.isMe (sender line) then target
  else sender line

section File

variable [Primitives]

/-- Put a message into a channel and count it. -/
def fileInChannel (channel : Channel) (message : ChatMessage) (counts addressed : Bool) :
    Channel × Bool :=
  let (log, accepted) := channel.log.insert message
  ({ channel with
      log := log
      unread := if accepted && counts then satAdd32 channel.unread 1 else channel.unread
      mentions :=
        if accepted && counts && addressed then satAdd32 channel.mentions 1
        else channel.mentions },
    accepted)

/-- Put a message into a conversation and count it. -/
def fileInConversation (query : Conversation) (message : ChatMessage) (counts : Bool) :
    Conversation × Bool :=
  let (log, accepted) := query.log.insert message
  ({ query with
      log := log
      unread := if accepted && counts then satAdd32 query.unread 1 else query.unread },
    accepted)

/-- File the message a line carries.  A channel we are not in holds nothing. -/
def file (ctx : Context) (line : Message) (command target : Str) : Result :=
  let message := chatMessage ctx line command
  let name := filedUnder ctx line target
  let folded := ctx.fold name
  let counts := !message.own && !message.historical
  let addressed := counts && mentions ctx.casemapping message.text ctx.model.me.nick
  let ctx := (ctx.stamp line).withModel (ctx.model.nextMessageKey (ctx.stamped line)).1
  if filesInChannel ctx target then
    match ctx.model.channel folded with
    | none => (ctx, [])
    | some channel =>
        let (channel, accepted) := fileInChannel channel message counts addressed
        (ctx.withModel (ctx.model.setChannel folded channel),
          if accepted then [.messageAdded name message.key] else [])
  else
    let (query, accepted) :=
      fileInConversation (ctx.model.conversationOr folded name) message counts
    (ctx.withModel (ctx.model.setConversation folded query),
      if accepted then [.messageAdded name message.key] else [])

/-- Fold a `PRIVMSG`, a `NOTICE` or a `TAGMSG`. -/
def message (ctx : Context) (line : Message) (command : Str) : Result :=
  match line.param 0 with
  | none => (ctx, [])
  | some target =>
      if command = "TAGMSG" then
        match reaction ctx line with
        | some result => result
        | none =>
            match linkPreview ctx line with
            | some result => result
            | none => file ctx line command target
      else file ctx line command target

end File

/-! ### Coming and going -/

/-- An account name, of which `*` is none. -/
def accountName (param : Option Str) : Option Str := param.filter (· ≠ ("*" : Str))

def join (ctx : Context) (line : Message) : Result :=
  match line.param 0 with
  | none => (ctx, [])
  | some name =>
      let who := sender line
      let folded := ctx.fold name
      if ctx.isMe who then
        (ctx.withModel (ctx.model.channelOrInsert folded name), [.channelJoined name])
      else
        let account := accountName (line.param 1)
        let key := ctx.fold who
        match ctx.model.channel folded with
        | none => (ctx, [])
        | some channel =>
            let model := ctx.model.personOrInsert key who fun person =>
              { person with nick := who, account := account.or person.account }
            let members := channel.members.insert key (channel.members[key]?.getD .default)
            (ctx.withModel (model.setChannel folded { channel with members := members }),
              [.channelMembersChanged name])

/-- Take someone who left off a channel's member list. -/
def leave (ctx : Context) (folded who : CaseFolded) : Context :=
  ctx.withModel (ctx.model.channelMut folded fun channel =>
    { channel with members := channel.members.erase who }).forgetStrangers

def part (ctx : Context) (line : Message) : Result :=
  match line.param 0 with
  | none => (ctx, [])
  | some name =>
      let who := sender line
      let folded := ctx.fold name
      if ctx.isMe who then
        (ctx.withModel (ctx.model.removeChannel folded), [.channelParted name])
      else (leave ctx folded (ctx.fold who), [.channelMembersChanged name])

def quit (ctx : Context) (line : Message) : Result :=
  let (model, left) := ctx.model.removeEverywhere (ctx.fold (sender line))
  let model := model.forgetStrangers
  (ctx.withModel model,
    left.filterMap fun key =>
      (model.channel key).map fun channel => .channelMembersChanged channel.name)

def kick (ctx : Context) (line : Message) : Result :=
  match line.param 0, line.param 1 with
  | some name, some target =>
      let folded := ctx.fold name
      if ctx.isMe target then
        (ctx.withModel (ctx.model.removeChannel folded), [.channelParted name])
      else (leave ctx folded (ctx.fold target), [.channelMembersChanged name])
  | _, _ => (ctx, [])

def nick (ctx : Context) (line : Message) : Result :=
  match line.param 0 with
  | none => (ctx, [])
  | some dest =>
      let source := sender line
      (ctx.withModel (ctx.model.rename ctx.casemapping source dest), [.nickChanged source dest])

def renameChannel (ctx : Context) (line : Message) : Result :=
  match line.param 0, line.param 1 with
  | some source, some dest =>
      match ctx.model.renameChannel ctx.casemapping source dest with
      | none => (ctx, [])
      | some model => (ctx.withModel model, [.channelRenamed source dest])
  | _, _ => (ctx, [])

/-! ### WHOIS -/

/-- Numerics that fill in a record and are reported only once it is complete. -/
def accumulates (command : Str) : Bool :=
  (["311", "312", "313", "317", "319", "330", "338", "378", "671"] : List String).any
    fun numeric => command == (numeric : Str)

/-- What one numeric adds to a record. -/
def whoisField (line : Message) (command : Str) (record : Whois) : Whois :=
  let text := line.trailing
  if command = "311" then
    { record with username := line.param 2, host := line.param 3, realname := text }
  else if command = "312" then { record with server := line.param 2, serverInfo := text }
  else if command = "313" then { record with operator := text }
  else if command = "317" then
    { record with
      idleSecs := (line.param 2).bind (parseUnsigned u64Max)
      signonMs :=
        ((line.param 3).bind (parseUnsigned u64Max)).map fun seconds =>
          min (seconds * 1000) u64Max }
  else if command = "319" then { record with channels := splitWhitespace ((line.param 2).getD []) }
  else if command = "330" then { record with account := line.param 2 }
  else if command = "338" ∨ command = "378" then
    { record with actualHost := if (line.param 3).isSome then line.param 2 else text }
  else if command = "671" then { record with secure := true }
  else record

def whois (ctx : Context) (line : Message) (command : Str) : Result :=
  match line.param 1 with
  | none => (ctx, [])
  | some nick =>
      let key := ctx.fold nick
      if command = "318" then
        match ctx.model.whois[key]? with
        | none => (ctx, [])
        | some record =>
            let whois := ctx.model.whois.insert key { record with complete := true }
            (ctx.withModel { ctx.model with whois := whois }, [.whoisReceived nick])
      else (ctx.withModel (ctx.model.whoisOrInsert key nick (whoisField line command)), [])

/-! ### Topics and names -/

/-- A topic, of which the empty one is none. -/
def topicText (param : Option Str) : Option Str := param.filter (· ≠ [])

def topic (ctx : Context) (line : Message) : Result :=
  match line.param 0 with
  | none => (ctx, [])
  | some name =>
      match ctx.model.channel (ctx.fold name) with
      | none => (ctx, [])
      | some _ =>
          (ctx.channelMut (ctx.fold name) fun channel =>
            { channel with topic := topicText (line.param 1), topicBy := some (sender line) },
            [.channelTopicChanged name])

def topicReply (ctx : Context) (line : Message) : Result :=
  match line.param 1 with
  | none => (ctx, [])
  | some name =>
      match ctx.model.channel (ctx.fold name) with
      | none => (ctx, [])
      | some _ =>
          (ctx.channelMut (ctx.fold name) fun channel =>
            { channel with topic := topicText (line.param 2) },
            [.channelTopicChanged name])

/-- Take the entries of a NAMES reply into a channel, until one of them finds no channel. -/
def namesLoop (i : Isupport) (folded : CaseFolded) : Model → List Str → Model × Bool
  | model, [] => (model, true)
  | model, entry :: entries =>
      let (prefixes, rest) := i.prefixes.split entry
      let nick := before '!' rest
      if nick = [] then namesLoop i folded model entries
      else
        match model.channel folded with
        | none => (model, false)
        | some channel =>
            let key := i.fold nick
            let model := model.personOrInsert key nick fun person => { person with nick := nick }
            let members := channel.members.insert key ⟨prefixes⟩
            namesLoop i folded (model.setChannel folded { channel with members := members }) entries

def names (ctx : Context) (line : Message) : Result :=
  match line.param 2 with
  | none => (ctx, [])
  | some name =>
      let entries := splitWhitespace (line.trailing.getD [])
      let (model, whole) := namesLoop ctx.isupport (ctx.fold name) ctx.model entries
      (ctx.withModel model, if whole then [.channelMembersChanged name] else [])

/-! ### What happens to messages -/

def redact (ctx : Context) (line : Message) : Result :=
  match line.param 0, line.param 1 with
  | some name, some msgid =>
      let folded := ctx.fold name
      match (ctx.model.log folded).bind (·.get msgid) with
      | none => (ctx, [])
      | some _ =>
          let model := ctx.model.logMut folded fun log =>
            log.modify msgid (fun message => { message with redacted := true }) fun _ => rfl
          (ctx.withModel model, [.messageRedacted name msgid])
  | _, _ => (ctx, [])

/-- The marker of a `MARKREAD`, without its prefix. -/
def markerOf (timestamp : Str) : Str :=
  let stem : Str := "timestamp="
  if stem.isPrefixOf timestamp then timestamp.drop stem.length else timestamp

def markRead (ctx : Context) (line : Message) : Result :=
  match line.param 0, line.param 1 with
  | some name, some timestamp =>
      let folded := ctx.fold name
      let marker := markerOf timestamp
      match ctx.model.channel folded, ctx.model.conversation folded with
      | some channel, _ =>
          (ctx.withModel (ctx.model.setChannel folded
            { channel with readMarker := some marker, unread := 0, mentions := 0 }),
            [.readMarkerMoved name])
      | none, some query =>
          (ctx.withModel (ctx.model.setConversation folded
            { query with readMarker := some marker, unread := 0 }),
            [.readMarkerMoved name])
      | none, none => (ctx, [])
  | _, _ => (ctx, [])

/-! ### Metadata -/

/-- Set a metadata key, or delete it. -/
def storeMetadata (key : Str) (value : Option Str) (store : Std.ExtTreeMap Str Str) :
    Std.ExtTreeMap Str Str :=
  match value with
  | some value => store.insert key value
  | none => store.erase key

/-- Apply one metadata key to whoever it belongs to; `offset` is where the target stands. -/
def metadata (ctx : Context) (line : Message) (offset : ℕ) : Result :=
  match line.param offset, line.param (offset + 1) with
  | some target, some key =>
      let target := if target = "*" then ctx.model.me.nick else target
      let value := (line.param (offset + 3)).filter fun _ => !line.is "766"
      let folded := ctx.fold target
      let store := storeMetadata key value
      if ctx.isupport.isChannel target then
        match ctx.model.channel folded with
        | none => (ctx, [])
        | some _ =>
            (ctx.channelMut folded fun channel =>
              { channel with metadata := store channel.metadata },
              [.metadataChanged target key])
      else
        let model := ctx.model.personOrInsert folded target fun person =>
          { person with metadata := store person.metadata }
        let model :=
          if ctx.isMe target then
            { model with me := { model.me with metadata := store model.me.metadata } }
          else model
        (ctx.withModel model, [.metadataChanged target key])
  | _, _ => (ctx, [])

/-! ### People -/

/-- Apply a change to whoever sent the line, and report every channel it shows in. -/
def personChanged (ctx : Context) (line : Message) (change : Person → Person) : Result :=
  let who := sender line
  let key := ctx.fold who
  let model := ctx.model.personOrInsert key who change
  let person := model.personOr key []
  let model :=
    if ctx.isMe who then
      { model with me := { model.me with away := person.away, account := person.account } }
    else model
  (ctx.withModel model,
    (model.channels.toList.filter fun p => p.2.members.contains key).map fun p =>
      .channelMembersChanged p.2.name)

def away (ctx : Context) (line : Message) : Result :=
  personChanged ctx line fun person => { person with away := line.param 0 }

def account (ctx : Context) (line : Message) : Result :=
  personChanged ctx line fun person => { person with account := accountName (line.param 0) }

/-- What a reply says about somebody's account. -/
inductive Account where
  /-- The reply did not say. -/
  | unknown
  /-- The reply said they are logged in as nobody. -/
  | loggedOut
  /-- The reply named an account. -/
  | as (account : Str)

/-- What one WHO or WHOX row says about somebody. -/
structure WhoRow where
  channel : Str
  nick : Str
  user : Str
  host : Str
  flags : Str
  account : Account
  realname : Option Str

/-- What a row says about a person. -/
def whoPerson (row : WhoRow) (person : Person) : Person :=
  { person with
    nick := row.nick
    username := some row.user
    host := some row.host
    operator := row.flags.contains '*'
    bot := row.flags.contains 'B'
    realname := row.realname.or person.realname
    away := if row.flags.head? = some 'G' then some (person.away.getD []) else none
    account :=
      match row.account with
      | .unknown => person.account
      | .loggedOut => none
      | .as account => some account }

/-- Fold one WHO or WHOX row into the person and, when it names a channel, their membership. -/
def applyWho (ctx : Context) (row : WhoRow) : Result :=
  let key := ctx.fold row.nick
  let prefixes := row.flags.filter fun c => (ctx.isupport.prefixes.rank c).isSome
  let ctx := ctx.withModel (ctx.model.personOrInsert key row.nick (whoPerson row))
  if !ctx.isupport.isChannel row.channel then (ctx, [])
  else
    let folded := ctx.fold row.channel
    match ctx.model.channel folded with
    | none => (ctx, [])
    | some _ =>
        (ctx.channelMut folded fun channel =>
          { channel with members := channel.members.insert key ⟨prefixes⟩ },
          [.channelMembersChanged row.channel])

def whoReply (ctx : Context) (line : Message) : Result :=
  match line.param 1, line.param 2, line.param 3, line.param 5, line.param 6 with
  | some channel, some user, some host, some nick, some flags =>
      let realname := (line.trailing.bind (splitOnce ' ')).map Prod.snd
      applyWho ctx ⟨channel, nick, user, host, flags, .unknown, realname⟩
  | _, _, _, _, _ => (ctx, [])

def whoxReply (ctx : Context) (line : Message) : Result :=
  if line.param 1 ≠ some whoxToken then (ctx, [])
  else
    match line.param 2, line.param 3, line.param 4, line.param 5, line.param 6, line.param 7 with
    | some channel, some user, some host, some nick, some flags, some account =>
        let account : Account :=
          if account = "0" ∨ account = "*" then .loggedOut else .as account
        applyWho ctx ⟨channel, nick, user, host, flags, account, line.param 8⟩
    | _, _, _, _, _, _ => (ctx, [])

/-! ### Modes -/

/-- One `+name[=param]` or `-name` entry. -/
def namedMode (modes : Std.ExtTreeMap Str (Option Str)) : Str → Std.ExtTreeMap Str (Option Str)
  | '+' :: rest =>
      match splitOnce '=' rest with
      | some (name, param) => modes.insert name (some param)
      | none => modes.insert rest none
  | '-' :: name => modes.erase (before '=' name)
  | _ => modes

/-- Fold entries into a channel's named modes, if we are in it. -/
def applyNamed (ctx : Context) (name : Str) (entries : List Str) : Result :=
  match ctx.model.channel (ctx.fold name) with
  | none => (ctx, [])
  | some _ =>
      (ctx.channelMut (ctx.fold name) fun channel =>
        { channel with namedModes := entries.foldl namedMode channel.namedModes },
        [.channelModesChanged name])

def prop (ctx : Context) (line : Message) : Result :=
  match line.param 0 with
  | none => (ctx, [])
  | some name => applyNamed ctx name (line.params.drop 1)

def propList (ctx : Context) (line : Message) : Result :=
  match line.param 1 with
  | none => (ctx, [])
  | some name =>
      applyNamed ctx name (((line.params.drop 2).flatMap splitWhitespace).map ('+' :: ·))

/-- One letter of our own modes. -/
def userMode (modes : Str) (change : ModeChange) : Str :=
  if change.set then if change.mode ∈ modes then modes else modes ++ [change.mode]
  else modes.filter (· ≠ change.mode)

/-- One letter of a channel's modes, and whether it touched a member. -/
def channelMode (i : Isupport) (channel : Channel) (change : ModeChange) : Channel × Bool :=
  if change.membership then
    match change.arg, i.prefixes.charForMode change.mode with
    | some nick, some c =>
        let key := i.fold nick
        match channel.members[key]? with
        | none => (channel, false)
        | some member =>
            let member := if change.set then member.grant c i.prefixes else member.revoke c
            ({ channel with members := channel.members.insert key member }, true)
    | _, _ => (channel, false)
  else if change.set then
    ({ channel with modes := channel.modes.insert change.mode change.arg }, false)
  else ({ channel with modes := channel.modes.erase change.mode }, false)

/-- The letters of a channel MODE, in order. -/
def channelModes (i : Isupport) (channel : Channel) (changes : List ModeChange) : Channel × Bool :=
  changes.foldl (fun (channel, touched) change =>
    let (channel, touches) := channelMode i channel change
    (channel, touched || touches)) (channel, false)

def mode (ctx : Context) (line : Message) : Result :=
  match line.param 0 with
  | none => (ctx, [])
  | some name =>
      if !ctx.isupport.isChannel name then
        let changes := parseUserModes ((line.param 1).getD [])
        let modes := changes.foldl userMode ctx.model.me.modes
        (ctx.withModel { ctx.model with me := { ctx.model.me with modes := modes } }, [])
      else
        let folded := ctx.fold name
        match ctx.model.channel folded with
        | none => (ctx, [.channelModesChanged name])
        | some channel =>
            let changes := parseChannelModes ctx.isupport (line.params.drop 1)
            let (channel, touched) := channelModes ctx.isupport channel changes
            (ctx.withModel (ctx.model.setChannel folded channel),
              if touched then [.channelModesChanged name, .channelMembersChanged name]
              else [.channelModesChanged name])

/-! ### Every command -/

/-- True for the numerics of a `WHOIS` reply. -/
def isWhois (command : Str) : Bool := accumulates command || command == ("318" : Str)

/-- Fold one line into the model, returning what changed. -/
def apply [Primitives] (ctx : Context) (line : Message) : Result :=
  let command := toAsciiUppercase line.command
  if command = "PRIVMSG" ∨ command = "NOTICE" ∨ command = "TAGMSG" then message ctx line command
  else if command = "JOIN" then join ctx line
  else if command = "PART" then part ctx line
  else if command = "QUIT" then quit ctx line
  else if command = "KICK" then kick ctx line
  else if command = "NICK" then nick ctx line
  else if command = "RENAME" then renameChannel ctx line
  else if command = "TOPIC" then topic ctx line
  else if command = "MODE" then mode ctx line
  else if command = "332" then topicReply ctx line
  else if command = "MARKREAD" then markRead ctx line
  else if command = "REDACT" then redact ctx line
  else if command = "AWAY" then away ctx line
  else if command = "ACCOUNT" then account ctx line
  else if command = "METADATA" then metadata ctx line 0
  else if command = "760" ∨ command = "761" ∨ command = "766" then metadata ctx line 1
  else if isWhois command then whois ctx line command
  else if command = "353" then names ctx line
  else if command = "352" then whoReply ctx line
  else if command = "354" then whoxReply ctx line
  else if command = "PROP" then prop ctx line
  else if command = "961" then propList ctx line
  else (ctx, [])

/-- What a line comes to, by its command. -/
inductive Applied [Primitives] (ctx : Context) (line : Message) (command : Str) : Result → Prop
  | message (h : command = "PRIVMSG" ∨ command = "NOTICE" ∨ command = "TAGMSG") :
      Applied ctx line command (Session.message ctx line command)
  | join (h : command = "JOIN") : Applied ctx line command (Session.join ctx line)
  | part (h : command = "PART") : Applied ctx line command (Session.part ctx line)
  | quit (h : command = "QUIT") : Applied ctx line command (Session.quit ctx line)
  | kick (h : command = "KICK") : Applied ctx line command (Session.kick ctx line)
  | nick (h : command = "NICK") : Applied ctx line command (Session.nick ctx line)
  | rename (h : command = "RENAME") : Applied ctx line command (Session.renameChannel ctx line)
  | topic (h : command = "TOPIC") : Applied ctx line command (Session.topic ctx line)
  | mode (h : command = "MODE") : Applied ctx line command (Session.mode ctx line)
  | topicReply (h : command = "332") : Applied ctx line command (Session.topicReply ctx line)
  | markRead (h : command = "MARKREAD") : Applied ctx line command (Session.markRead ctx line)
  | redact (h : command = "REDACT") : Applied ctx line command (Session.redact ctx line)
  | away (h : command = "AWAY") : Applied ctx line command (Session.away ctx line)
  | account (h : command = "ACCOUNT") : Applied ctx line command (Session.account ctx line)
  | metadata (h : command = "METADATA") : Applied ctx line command (Session.metadata ctx line 0)
  | keys (h : command = "760" ∨ command = "761" ∨ command = "766") :
      Applied ctx line command (Session.metadata ctx line 1)
  | whois (h : isWhois command = true) : Applied ctx line command (Session.whois ctx line command)
  | names (h : command = "353") : Applied ctx line command (Session.names ctx line)
  | whoReply (h : command = "352") : Applied ctx line command (Session.whoReply ctx line)
  | whoxReply (h : command = "354") : Applied ctx line command (Session.whoxReply ctx line)
  | prop (h : command = "PROP") : Applied ctx line command (Session.prop ctx line)
  | propList (h : command = "961") : Applied ctx line command (Session.propList ctx line)
  | other : Applied ctx line command (ctx, [])

/-- **What a line comes to.** -/
theorem apply_applied [Primitives] (ctx : Context) (line : Message) :
    Applied ctx line (toAsciiUppercase line.command) (apply ctx line) := by
  unfold apply
  dsimp only
  generalize toAsciiUppercase line.command = command
  by_cases hmessage : command = "PRIVMSG" ∨ command = "NOTICE" ∨ command = "TAGMSG"
  · rw [if_pos hmessage]
    exact .message hmessage
  rw [if_neg hmessage]
  by_cases hjoin : command = "JOIN"
  · rw [if_pos hjoin]
    exact .join hjoin
  rw [if_neg hjoin]
  by_cases hpart : command = "PART"
  · rw [if_pos hpart]
    exact .part hpart
  rw [if_neg hpart]
  by_cases hquit : command = "QUIT"
  · rw [if_pos hquit]
    exact .quit hquit
  rw [if_neg hquit]
  by_cases hkick : command = "KICK"
  · rw [if_pos hkick]
    exact .kick hkick
  rw [if_neg hkick]
  by_cases hnick : command = "NICK"
  · rw [if_pos hnick]
    exact .nick hnick
  rw [if_neg hnick]
  by_cases hrename : command = "RENAME"
  · rw [if_pos hrename]
    exact .rename hrename
  rw [if_neg hrename]
  by_cases htopic : command = "TOPIC"
  · rw [if_pos htopic]
    exact .topic htopic
  rw [if_neg htopic]
  by_cases hmode : command = "MODE"
  · rw [if_pos hmode]
    exact .mode hmode
  rw [if_neg hmode]
  by_cases htopicReply : command = "332"
  · rw [if_pos htopicReply]
    exact .topicReply htopicReply
  rw [if_neg htopicReply]
  by_cases hmarkRead : command = "MARKREAD"
  · rw [if_pos hmarkRead]
    exact .markRead hmarkRead
  rw [if_neg hmarkRead]
  by_cases hredact : command = "REDACT"
  · rw [if_pos hredact]
    exact .redact hredact
  rw [if_neg hredact]
  by_cases haway : command = "AWAY"
  · rw [if_pos haway]
    exact .away haway
  rw [if_neg haway]
  by_cases haccount : command = "ACCOUNT"
  · rw [if_pos haccount]
    exact .account haccount
  rw [if_neg haccount]
  by_cases hmetadata : command = "METADATA"
  · rw [if_pos hmetadata]
    exact .metadata hmetadata
  rw [if_neg hmetadata]
  by_cases hkeys : command = "760" ∨ command = "761" ∨ command = "766"
  · rw [if_pos hkeys]
    exact .keys hkeys
  rw [if_neg hkeys]
  by_cases hwhois : isWhois command = true
  · rw [if_pos hwhois]
    exact .whois hwhois
  rw [if_neg hwhois]
  by_cases hnames : command = "353"
  · rw [if_pos hnames]
    exact .names hnames
  rw [if_neg hnames]
  by_cases hwhoReply : command = "352"
  · rw [if_pos hwhoReply]
    exact .whoReply hwhoReply
  rw [if_neg hwhoReply]
  by_cases hwhoxReply : command = "354"
  · rw [if_pos hwhoxReply]
    exact .whoxReply hwhoxReply
  rw [if_neg hwhoxReply]
  by_cases hprop : command = "PROP"
  · rw [if_pos hprop]
    exact .prop hprop
  rw [if_neg hprop]
  by_cases hpropList : command = "961"
  · rw [if_pos hpropList]
    exact .propList hpropList
  rw [if_neg hpropList]
  exact .other

/-- The commands that have one handler, which is told no more than the line. -/
inductive Handles : Str → (Context → Message → Result) → Prop
  | join : Handles "JOIN" join
  | part : Handles "PART" part
  | quit : Handles "QUIT" quit
  | kick : Handles "KICK" kick
  | nick : Handles "NICK" nick
  | rename : Handles "RENAME" renameChannel
  | topic : Handles "TOPIC" topic
  | mode : Handles "MODE" mode
  | topicReply : Handles "332" topicReply
  | markRead : Handles "MARKREAD" markRead
  | redact : Handles "REDACT" redact
  | away : Handles "AWAY" away
  | account : Handles "ACCOUNT" account
  | names : Handles "353" names
  | whoReply : Handles "352" whoReply
  | whoxReply : Handles "354" whoxReply
  | prop : Handles "PROP" prop
  | propList : Handles "961" propList
  | whois {command : Str} (h : isWhois command = true) :
      Handles command fun ctx line => whois ctx line command

/-- **A command goes to its handler.** -/
theorem apply_of_handles [Primitives] (ctx : Context) {line : Message} {command : Str}
    {handler : Context → Message → Result} (hline : toAsciiUppercase line.command = command)
    (h : Handles command handler) : apply ctx line = handler ctx line := by
  unfold apply
  rw [hline]
  cases h with
  | whois h =>
      have hne : ∀ word : Str, isWhois word = false → command ≠ word := by
        rintro word hword rfl
        rw [hword] at h
        cases h
      simp (disch := decide) only [hne, h, or_self, ↓reduceIte]
  | _ => simp +decide only [↓reduceIte]
end Session

end ObbyClient

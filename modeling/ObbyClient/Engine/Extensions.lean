import ObbyClient.Engine.Json
import ObbyClient.Engine.Primitives
import ObbyClient.Proto.Message

/-!
# The vendored extensions

Link previews, the list of commands the server allows, and the bots it announces.
-/

namespace ObbyClient

/-- A preview of a link someone posted, built by the server. -/
structure LinkPreview where
  /-- The page title. -/
  title : Str
  /-- A description of the page. -/
  snippet : Option Str
  /-- An image. -/
  image : Option Str
  deriving DecidableEq

/-- The message a line answers, under either spelling of the reply tag. -/
def Message.replyTag (line : Message) : Option Str :=
  (line.tag "+reply").or (line.tag "+draft/reply")

/-- Read a preview off a TAGMSG, with the message it describes. -/
def LinkPreview.parse (line : Message) : Option (Str × LinkPreview) := do
  let title ← line.tag "obsidianirc/link-preview-title"
  let msgid ← line.replyTag
  some (msgid, ⟨title, line.tag "obsidianirc/link-preview-snippet",
    line.tag "obsidianirc/link-preview-meta"⟩)

/-- The set of commands the server says we may currently use. -/
structure Commands where
  available : Std.ExtTreeSet Str
  deriving DecidableEq

namespace Commands

/-- Know about no commands yet. -/
def new : Commands := ⟨∅⟩

/-- Apply one `+name` or `-name` token. -/
def applyToken (commands : Commands) : Str → Commands
  | '+' :: name => ⟨commands.available.insert (toAsciiUppercase name)⟩
  | '-' :: name => ⟨commands.available.erase (toAsciiUppercase name)⟩
  | _ => commands

/-- Apply one `CMDSLIST` line. -/
def apply (commands : Commands) (line : Message) : Commands :=
  (line.params.flatMap splitWhitespace).foldl applyToken commands

end Commands

/-- One command a bot offers. -/
structure BotCommand where
  /-- What to type. -/
  name : Str
  /-- What it does. -/
  description : Option Str
  deriving DecidableEq

/-- What the server knows about a bot. -/
structure Bot where
  /-- The bot's nick. -/
  nick : Str
  /-- The identifier the server gave it. -/
  id : Option Str
  /-- True when an operator configured this bot. -/
  fromConfig : Bool
  /-- The commands it offers. -/
  commands : List BotCommand
  deriving DecidableEq

/-- Command names a self-registered bot must never be allowed to claim. -/
def privilegedCommands : List Str :=
  ["oper", "identify", "nickserv", "chanserv", "ns", "cs", "register", "pass", "auth", "login"]

/-- True when this command name may only be claimed by a bot an operator configured. -/
def isPrivileged (name : Str) : Bool := privilegedCommands.any (eqIgnoreAsciiCase name)

/-- The tag an announcement of a bot rides on. -/
def botInfoTag : Str := "obby.world/bot-info"

/-- The tag a bot answers a command-list query with. -/
def botCommandsTag : Str := "+draft/bot-cmds"

/-- One announcement the server made about a bot. -/
structure BotInfo where
  /-- True when the server is withdrawing the bot. -/
  removed : Bool
  /-- The bot, with no commands on it yet. -/
  bot : Bot
  /-- The commands the announcement carried. -/
  commands : List BotCommand
  deriving DecidableEq

/-- The `commands` array of a bot payload, skipping any entry with no name. -/
def botCommands (value : Json) : List BotCommand :=
  (((value.field "commands").bind Json.asArray).getD []).filterMap fun command =>
    (command.fieldString "name").map fun name => ⟨name, command.fieldString "description"⟩

section

variable [Primitives]

/-- The JSON a tag carries in base64. -/
def decodeTagJson (payload : Str) : Option Json := do
  let bytes ← Primitives.base64Decode payload
  let text ← fromUtf8 bytes
  Json.parse text

/-- Read a bot announcement. -/
def BotInfo.decode (payload : Str) : Option BotInfo := do
  let value ← decodeTagJson payload
  let nick ← value.fieldString "nick"
  some ⟨value.fieldString "event" == some ("remove" : Str),
    ⟨nick, value.fieldString "bot_id", (value.field "from_config").any Json.isTrue, []⟩,
    botCommands value⟩

/-- Read a bot's command list. -/
def decodeBotCommands (payload : Str) : Option (List BotCommand) :=
  (decodeTagJson payload).map botCommands

end

/-- The bots we know about, keyed by their folded nick. -/
structure Bots where
  known : Std.ExtTreeMap Str Bot
  deriving DecidableEq

namespace Bots

/-- Know about no bots. -/
def new : Bots := ⟨∅⟩

/-- Record a bot the server told us about. -/
def insert (bots : Bots) (key : Str) (bot : Bot) : Bots := ⟨bots.known.insert key bot⟩

/-- Forget a bot. -/
def remove (bots : Bots) (key : Str) : Bots := ⟨bots.known.erase key⟩

/-- Forget every bot. -/
def forget (_ : Bots) : Bots := ⟨∅⟩

/-- Record the commands a bot offers, dropping any name it is not entitled to; `none` for a bot we
were never told about. -/
def setCommands (bots : Bots) (key : Str) (commands : List BotCommand) : Option Bots :=
  bots.known[key]?.map fun bot =>
    ⟨bots.known.insert key
      { bot with
        commands :=
          if bot.fromConfig then commands
          else commands.filter fun command => !isPrivileged command.name }⟩

end Bots

end ObbyClient

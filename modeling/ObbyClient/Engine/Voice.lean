import ObbyClient.Engine.Json
import ObbyClient.Proto.Casemap

/-!
# Voice signalling

The frames that ride on a `+obsidianirc/rtc` tag, their JSON, and the state of one voice room: who
is in it and what each of them is doing.  A session description is an opaque string throughout.
-/

namespace ObbyClient.Voice

/-! ### The enumerated wire values -/

/-- The two states a toggle has. -/
inductive OnOff where
  | on
  | off
  deriving DecidableEq

namespace OnOff

def wire : OnOff → Str
  | on => "on"
  | off => "off"

def parse (text : Str) : Option OnOff :=
  if text = "on" then some on else if text = "off" then some off else none

end OnOff

/-- Whether a participant may publish or only receive. -/
inductive Role where
  | publisher
  | viewer
  deriving DecidableEq

namespace Role

def wire : Role → Str
  | publisher => "streamer"
  | viewer => "viewer"

def parse (text : Str) : Option Role :=
  if text = "streamer" then some publisher else if text = "viewer" then some viewer else none

end Role

/-- Who may publish in a room. -/
inductive RoomKind where
  /-- Every member publishes. -/
  | publish
  /-- A streamer and whoever they promote publish. -/
  | stream
  deriving DecidableEq

namespace RoomKind

def wire : RoomKind → Str
  | publish => "voice"
  | stream => "stream"

def parse (text : Str) : Option RoomKind :=
  if text = "voice" then some publish else if text = "stream" then some stream else none

/-- The kind a channel's own name implies. -/
def forChannel (channel : Str) : RoomKind := if channel.head? = some '$' then stream else publish

end RoomKind

/-- Which toggle a `presence` notification reports. -/
inductive ToggleKind where
  | mic
  | video
  | screen
  | hand
  deriving DecidableEq

namespace ToggleKind

def wire : ToggleKind → Str
  | mic => "mic"
  | video => "video"
  | screen => "screen"
  | hand => "hand"

def parse (text : Str) : Option ToggleKind :=
  if text = "mic" then some mic
  else if text = "video" then some video
  else if text = "screen" then some screen
  else if text = "hand" then some hand
  else none

end ToggleKind

/-- The state a `presence` notification carries. -/
inductive PresenceState where
  | joined
  | left
  | on
  | off
  | speaking
  | silent
  | deafOn
  | deafOff
  deriving DecidableEq

namespace PresenceState

def wire : PresenceState → Str
  | joined => "joined"
  | left => "left"
  | on => "on"
  | off => "off"
  | speaking => "speaking"
  | silent => "silent"
  | deafOn => "deaf-on"
  | deafOff => "deaf-off"

def parse (text : Str) : Option PresenceState :=
  if text = "joined" then some joined
  else if text = "left" then some left
  else if text = "on" then some on
  else if text = "off" then some off
  else if text = "speaking" then some speaking
  else if text = "silent" then some silent
  else if text = "deaf-on" then some deafOn
  else if text = "deaf-off" then some deafOff
  else none

end PresenceState

/-! ### Frame payloads -/

/-- Which member one media line belongs to. -/
structure TrackHint where
  mid : Str
  member : Str
  deriving DecidableEq

namespace TrackHint

def toJson (hint : TrackHint) : Json :=
  .object [("mid", .str hint.mid), ("member", .str hint.member)]

def fromJson (value : Json) : Option TrackHint := do
  let mid ← value.fieldString "mid"
  let member ← value.fieldString "member"
  some ⟨mid, member⟩

end TrackHint

/-- A list of strings as an array. -/
def stringsJson (items : List Str) : Json := .array (items.map .str)

/-- The relay credentials of one call. -/
structure TurnCredentials where
  urls : List Str
  username : Str
  password : Str
  deriving DecidableEq

namespace TurnCredentials

def toJson (turn : TurnCredentials) : Json :=
  .object [("urls", stringsJson turn.urls), ("username", .str turn.username),
    ("password", .str turn.password)]

def fromJson (value : Json) : Option TurnCredentials := do
  let urls ←
    match value.field "urls" with
    | some (.str one) => some [one]
    | some (.array many) => (Json.array many).strings
    | _ => none
  let username ← value.fieldString "username"
  let password ← value.fieldString "password"
  some ⟨urls, username, password⟩

end TurnCredentials

/-- The fields that ride beside one slice of a split session description. -/
structure ChunkMeta where
  id : Str
  seq : ℕ
  total : ℕ
  deriving DecidableEq

def decodeChunk (value : Json) : Option ChunkMeta := do
  let id ← value.fieldString "id"
  let seq ← value.fieldU32 "seq"
  let total ← value.fieldU32 "total"
  some ⟨id, seq, total⟩

def chunkMetaFields (chunk : ChunkMeta) : List (Str × Json) :=
  [("id", .str chunk.id), ("seq", .num chunk.seq), ("total", .num chunk.total)]

/-! ### The frames -/

/-- One signalling frame. -/
inductive Signal where
  | join (channel : Str)
  | leave (channel : Str)
  | joined (members : List Str) (mode : Option RoomKind) (role : Option Role)
      (streamers : Option (List Str)) (turn : Option TurnCredentials)
      (tracks : Option (List TrackHint))
  | offer (sdp : Str) (tracks : Option (List TrackHint)) (chunk : Option ChunkMeta)
  | answer (sdp : Str) (chunk : Option ChunkMeta)
  | ice (cand : Str) (mid : Option Str) (mlineidx : Option ℕ)
  | presence (member : Str) (state : PresenceState) (kind : Option ToggleKind) (role : Option Role)
  | mic (state : OnOff)
  | video (state : OnOff)
  | screen (state : OnOff)
  | hand (state : OnOff)
  | deaf (state : OnOff)
  | speaking
  | silent
  | react (member : Option Str) (emoji : Str)
  | promote (target : Str)
  | demote (target : Str)
  | role (member : Str) (role : Role)
  | error (error : Option Str)
  deriving DecidableEq

namespace Signal

/-- A field that is always written. -/
def oneField (key : Str) (value : Json) : List (Str × Json) := [(key, value)]

/-- A field that holds a string. -/
def strField (key value : Str) : List (Str × Json) := oneField key (.str value)

/-- A field that is written only when it has a value. -/
def optField (key : Str) (value : Option Json) : List (Str × Json) :=
  (value.map (oneField key)).getD []

def stateField (state : Str) : List (Str × Json) := strField "state" state

def tracksJson (tracks : List TrackHint) : Json := .array (tracks.map TrackHint.toJson)

/-- The type a frame has on the wire, and its other fields. -/
def wireFields : Signal → Str × List (Str × Json)
  | join channel => ("join", strField "channel" channel)
  | leave channel => ("leave", strField "channel" channel)
  | joined members mode granted streamers turn tracks =>
      ("joined",
        oneField "members" (stringsJson members) ++
          optField "mode" (mode.map fun m => .str m.wire) ++
          optField "role" (granted.map fun r => .str r.wire) ++
          optField "streamers" (streamers.map stringsJson) ++
          optField "turn" (turn.map TurnCredentials.toJson) ++
          optField "tracks" (tracks.map tracksJson))
  | offer sdp tracks chunk =>
      ("offer",
        strField "sdp" sdp ++ optField "tracks" (tracks.map tracksJson) ++
          (chunk.map chunkMetaFields).getD [])
  | answer sdp chunk => ("answer", strField "sdp" sdp ++ (chunk.map chunkMetaFields).getD [])
  | ice cand mid mlineidx =>
      ("ice",
        strField "cand" cand ++ optField "mid" (mid.map .str) ++
          optField "mlineidx" (mlineidx.map fun n => .num n))
  | presence member state kind granted =>
      ("presence",
        strField "member" member ++ stateField state.wire ++
          optField "kind" (kind.map fun k => .str k.wire) ++
          optField "role" (granted.map fun r => .str r.wire))
  | mic state => ("mic", stateField state.wire)
  | video state => ("video", stateField state.wire)
  | screen state => ("screen", stateField state.wire)
  | hand state => ("hand", stateField state.wire)
  | deaf state => ("deaf", stateField state.wire)
  | speaking => ("speaking", stateField "speaking")
  | silent => ("silent", stateField "silent")
  | react member emoji => ("react", optField "member" (member.map .str) ++ strField "emoji" emoji)
  | promote target => ("promote", strField "target" target)
  | demote target => ("demote", strField "target" target)
  | role member granted => ("role", strField "member" member ++ strField "role" granted.wire)
  | error e => ("error", optField "error" (e.map .str))

/-- Encode a frame as the JSON object that travels on the wire. -/
def toJson (signal : Signal) : Str :=
  let (kind, fields) := signal.wireFields
  (Json.object (("type", .str kind) :: fields)).write

def decodeOnOff (value : Json) : Option OnOff := (value.fieldString "state").bind OnOff.parse

def decodeTracks (value : Json) : Option (List TrackHint) :=
  value.asArray.bind (·.mapM TrackHint.fromJson)

def decodeJoined (value : Json) : Option Signal := do
  let members ← (value.field "members").bind Json.strings
  some (.joined members ((value.fieldString "mode").bind RoomKind.parse)
    ((value.fieldString "role").bind Role.parse) ((value.field "streamers").bind Json.strings)
    ((value.field "turn").bind TurnCredentials.fromJson)
    ((value.field "tracks").bind decodeTracks))

def decodeOffer (value : Json) : Option Signal := do
  let sdp ← value.fieldString "sdp"
  some (.offer sdp ((value.field "tracks").bind decodeTracks) (decodeChunk value))

def decodeAnswer (value : Json) : Option Signal := do
  let sdp ← value.fieldString "sdp"
  some (.answer sdp (decodeChunk value))

def decodeIce (value : Json) : Option Signal := do
  let cand ← value.fieldString "cand"
  some (.ice cand (value.fieldString "mid") (value.fieldU32 "mlineidx"))

def decodePresence (value : Json) : Option Signal := do
  let member ← value.fieldString "member"
  let state ← (value.fieldString "state").bind PresenceState.parse
  some (.presence member state ((value.fieldString "kind").bind ToggleKind.parse)
    ((value.fieldString "role").bind Role.parse))

def decodeReact (value : Json) : Option Signal := do
  let emoji ← value.fieldString "emoji"
  some (.react (value.fieldString "member") emoji)

def decodeRole (value : Json) : Option Signal := do
  let member ← value.fieldString "member"
  let role ← (value.fieldString "role").bind Role.parse
  some (.role member role)

/-- The frame an object of this type holds. -/
def decode (kind : Str) (value : Json) : Option Signal :=
  if kind = "join" then (value.fieldString "channel").map .join
  else if kind = "leave" then (value.fieldString "channel").map .leave
  else if kind = "joined" then decodeJoined value
  else if kind = "offer" then decodeOffer value
  else if kind = "answer" then decodeAnswer value
  else if kind = "ice" then decodeIce value
  else if kind = "presence" then decodePresence value
  else if kind = "mic" then (decodeOnOff value).map .mic
  else if kind = "video" then (decodeOnOff value).map .video
  else if kind = "screen" then (decodeOnOff value).map .screen
  else if kind = "hand" then (decodeOnOff value).map .hand
  else if kind = "deaf" then (decodeOnOff value).map .deaf
  else if kind = "speaking" then some .speaking
  else if kind = "silent" then some .silent
  else if kind = "react" then decodeReact value
  else if kind = "promote" then (value.fieldString "target").map .promote
  else if kind = "demote" then (value.fieldString "target").map .demote
  else if kind = "role" then decodeRole value
  else if kind = "error" then some (.error (value.fieldString "error"))
  else none

/-- Decode one wire JSON object into a frame. -/
def fromJson (text : Str) : Option Signal := do
  let value ← Json.parse text
  let kind ← value.fieldString "type"
  decode kind value

end Signal

/-! ### The room -/

/-- One participant's state within a room. -/
structure Participant where
  nick : Str
  role : Role
  mic : OnOff
  video : OnOff
  speaking : OnOff
  deaf : OnOff
  screen : OnOff
  hand : OnOff
  deriving DecidableEq

/-- Someone in a room with every toggle off. -/
def Participant.new (nick : Str) : Participant :=
    ⟨nick, .viewer, .off, .off, .off, .off, .off, .off⟩

/-- Set one toggle of a participant. -/
def ToggleKind.apply (kind : ToggleKind) (participant : Participant) (state : OnOff) :
    Participant :=
  match kind with
  | .mic => { participant with mic := state }
  | .video => { participant with video := state }
  | .screen => { participant with screen := state }
  | .hand => { participant with hand := state }

/-- The state of one voice room. -/
structure Room where
  /-- The channel this room's signalling is scoped to. -/
  channel : Str
  /-- Whether every member publishes. -/
  kind : RoomKind
  /-- Every known participant, keyed by their folded nick. -/
  participants : Std.ExtTreeMap CaseFolded Participant
  /-- The relay credentials of this call. -/
  turn : Option TurnCredentials
  deriving DecidableEq

namespace Room

/-- A room with no participants yet. -/
def new (channel : Str) : Room := ⟨channel, .forChannel channel, ∅, none⟩

/-- The role a room hands out when the server named none. -/
def roleFor (room : Room) (member : Str) (streamers : Option (List Str)) (casemap : Casemapping) :
    Role :=
  match room.kind with
  | .publish => .publisher
  | .stream =>
      if streamers.any (·.any fun name => casemap.eq name member) then .publisher else .viewer

/-- Give a participant a role, creating their record when it is new. -/
def setRole (room : Room) (member : Str) (casemap : Casemapping) (role : Role) : Room :=
  let key := casemap.fold member
  let participant := room.participants[key]?.getD (.new member)
  { room with participants := room.participants.insert key { participant with role := role } }

/-- Change a participant we know. -/
def modifyParticipant (room : Room) (member : Str) (casemap : Casemapping)
    (f : Participant → Participant) : Room :=
  { room with participants := room.participants.modify (casemap.fold member) f }

def applyJoined (room : Room) (me : Str) (members : List Str) (role : Option Role)
    (streamers : Option (List Str)) (turn : Option TurnCredentials) (casemap : Casemapping) :
      Room :=
  members.foldl (fun room member =>
    let assigned :=
      match casemap.eq member me, role with
      | true, some role => role
      | _, _ => room.roleFor member streamers casemap
    room.setRole member casemap assigned) { room with turn := turn }

def applyPresence (room : Room) (member : Str) (state : PresenceState) (kind : Option ToggleKind)
    (role : Option Role) (casemap : Casemapping) : Room :=
  let toggle (state : OnOff) : Room :=
    match kind with
    | some kind => room.modifyParticipant member casemap (kind.apply · state)
    | none => room
  match state with
  | .joined => room.setRole member casemap (role.getD (room.roleFor member none casemap))
  | .left => { room with participants := room.participants.erase (casemap.fold member) }
  | .on => toggle .on
  | .off => toggle .off
  | .speaking => room.modifyParticipant member casemap fun p => { p with speaking := .on }
  | .silent => room.modifyParticipant member casemap fun p => { p with speaking := .off }
  | .deafOn => room.modifyParticipant member casemap fun p => { p with deaf := .on }
  | .deafOff => room.modifyParticipant member casemap fun p => { p with deaf := .off }

/-- Apply one server signal.  Frames that carry nothing about membership or state are ignored. -/
def apply (room : Room) (me : Str) (signal : Signal) (casemap : Casemapping) : Room :=
  match signal with
  | .joined members _ role streamers turn _ =>
      room.applyJoined me members role streamers turn casemap
  | .presence member state kind role => room.applyPresence member state kind role casemap
  | .role member role => room.setRole member casemap role
  | _ => room

end Room

end ObbyClient.Voice

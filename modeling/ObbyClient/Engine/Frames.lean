import ObbyClient.Engine.JsonText
import ObbyClient.Engine.Outbound

/-!
# Voice frames on the wire

A frame becomes a JSON text, the text the value of a tag, and the tag part of a line.  All of it
reads back.

* `Voice.Signal.decode_wireFields` — a frame reads back from its fields;
* `Voice.Signal.fromJson_toJson` — and from its text;
* `Client.command_sendVoiceSignal` — and from the line that is queued for it.
-/

namespace ObbyClient.Voice

open Json

/-! ### Fields -/

/-- The first value under this name. -/
def lookup (fields : List (Str × Json)) (key : Str) : Option Json :=
  (fields.find? fun p => p.1 == key).map Prod.snd

theorem field_object (fields : List (Str × Json)) (key : Str) :
    (Json.object fields).field key = lookup fields key := rfl

theorem lookup_append (fields more : List (Str × Json)) (key : Str) :
    lookup (fields ++ more) key = (lookup fields key).or (lookup more key) := by
  unfold lookup
  rw [List.find?_append]
  cases fields.find? fun p => p.1 == key <;> rfl

theorem lookup_nil (key : Str) : lookup [] key = none := rfl

theorem lookup_cons_ne {other key : Str} (h : other ≠ key) (value : Json)
    (fields : List (Str × Json)) :
    lookup ((other, value) :: fields) key = lookup fields key := by
  unfold lookup
  rw [List.find?_cons_of_neg (by simpa using h)]

theorem lookup_cons_self (key : Str) (value : Json) (fields : List (Str × Json)) :
    lookup ((key, value) :: fields) key = some value := by
  unfold lookup
  rw [List.find?_cons_of_pos (by simp)]
  rfl

theorem lookup_optField_self (key : Str) (value : Option Json) :
    lookup (Signal.optField key value) key = value := by
  cases value with
  | none => rfl
  | some value => exact lookup_cons_self key value []

theorem lookup_optField_ne {other key : Str} (h : other ≠ key) (value : Option Json) :
    lookup (Signal.optField other value) key = none := by
  cases value with
  | none => rfl
  | some value => exact lookup_cons_ne h value []

/-! ### The values of fields -/

theorem strings_stringsJson (items : List Str) : (stringsJson items).strings = some items := by
  show (items.map Json.str).mapM asStr = some items
  induction items with
  | nil => rfl
  | cons item items ih =>
      rw [List.map_cons, List.mapM_cons, ih]
      rfl

theorem TrackHint.fromJson_toJson (hint : TrackHint) : TrackHint.fromJson hint.toJson = some hint :=
    rfl

theorem Signal.decodeTracks_tracksJson (tracks : List TrackHint) :
    Signal.decodeTracks (Signal.tracksJson tracks) = some tracks := by
  show (tracks.map TrackHint.toJson).mapM TrackHint.fromJson = some tracks
  induction tracks with
  | nil => rfl
  | cons hint tracks ih =>
      rw [List.map_cons, List.mapM_cons, ih, TrackHint.fromJson_toJson]
      rfl

theorem TurnCredentials.fromJson_toJson (turn : TurnCredentials) :
    TurnCredentials.fromJson turn.toJson = some turn := by
  have hurls := strings_stringsJson turn.urls
  show ((stringsJson turn.urls).strings.bind fun urls =>
    some (⟨urls, turn.username, turn.password⟩ : TurnCredentials)) = some turn
  rw [hurls]
  rfl

theorem Role.parse_wire (role : Role) : Role.parse role.wire = some role := by
  cases role <;> rfl

theorem RoomKind.parse_wire (kind : RoomKind) : RoomKind.parse kind.wire = some kind := by
  cases kind <;> rfl

theorem ToggleKind.parse_wire (kind : ToggleKind) : ToggleKind.parse kind.wire = some kind := by
  cases kind <;> rfl

theorem PresenceState.parse_wire (state : PresenceState) :
    PresenceState.parse state.wire = some state := by
  cases state <;> rfl

/-- A number that a `u32` holds. -/
def InU32 (n : ℕ) : Prop := n ≤ u32Max

theorem asU32_num {n : ℕ} (h : InU32 n) : asU32 (.num n) = some n := by
  show (if 0 ≤ (n : ℤ) ∧ (n : ℤ) ≤ (u32Max : ℤ) then some (n : ℤ).toNat else none) = some n
  rw [if_pos ⟨Int.natCast_nonneg n, Int.ofNat_le.mpr h⟩, Int.toNat_natCast]

/-- An optional value that is read as it was written. -/
theorem bind_map_write {β γ : Type} {write : β → γ} {read : γ → Option β}
    (h : ∀ value, read (write value) = some value) (value : Option β) :
    (value.map write).bind read = value := by
  cases value with
  | none => rfl
  | some value => exact h value

/-- An optional word that is read as it was written. -/
theorem bind_map_wire {β : Type} {wire : β → Str} {parse : Str → Option β}
    (h : ∀ value, parse (wire value) = some value) (value : Option β) :
    ((value.map fun v => Json.str (wire v)).bind asStr).bind parse = value := by
  cases value with
  | none => rfl
  | some value => exact h value

namespace ChunkMeta

/-- The numbers of a chunk are `u32`s. -/
def Fits (chunk : ChunkMeta) : Prop := InU32 chunk.seq ∧ InU32 chunk.total

end ChunkMeta

namespace Signal

/-- The numbers of a frame are `u32`s, which is what its type holds. -/
def Fits : Signal → Prop
  | offer _ _ chunk => ∀ c ∈ chunk, c.Fits
  | answer _ chunk => ∀ c ∈ chunk, c.Fits
  | ice _ _ mlineidx => ∀ n ∈ mlineidx, InU32 n
  | _ => True

/-! ### Frames and fields -/

/-- The object that a frame is written as. -/
def toValue (signal : Signal) : Json :=
  .object (("type", .str signal.wireFields.1) :: signal.wireFields.2)

theorem fieldString_toValue (signal : Signal) :
    signal.toValue.fieldString "type" = some signal.wireFields.1 := by
  unfold toValue fieldString
  rw [field_object, lookup_cons_self]
  rfl

/-- A chunk is read from behind fields of other names. -/
theorem decodeChunk_fields {fields : List (Str × Json)} {chunk : Option ChunkMeta}
    (h : ∀ c ∈ chunk, c.Fits) (hid : lookup fields "id" = none) (hseq : lookup fields "seq" = none)
    (htotal : lookup fields "total" = none) :
    decodeChunk (.object (fields ++ (chunk.map chunkMetaFields).getD [])) = chunk := by
  unfold decodeChunk fieldString fieldU32
  simp only [field_object, lookup_append, hid, hseq, htotal, Option.none_or]
  cases chunk with
  | none => rfl
  | some chunk =>
      obtain ⟨hfits, hfits'⟩ := h chunk rfl
      show (asU32 (.num chunk.seq)).bind _ = _
      rw [asU32_num hfits]
      show (asU32 (.num chunk.total)).bind _ = _
      rw [asU32_num hfits']
      rfl

/-- Its fields hide no other. -/
theorem lookup_chunk {key : Str} (hid : key ≠ "id") (hseq : key ≠ "seq") (htotal : key ≠ "total")
    (chunk : Option ChunkMeta) : lookup ((chunk.map chunkMetaFields).getD []) key = none := by
  cases chunk with
  | none => rfl
  | some chunk =>
      show lookup (chunkMetaFields chunk) key = none
      unfold chunkMetaFields
      rw [lookup_cons_ne hid.symm, lookup_cons_ne hseq.symm, lookup_cons_ne htotal.symm]
      rfl

theorem decodeJoined_toValue (members : List Str) (mode : Option RoomKind) (granted : Option Role)
    (streamers : Option (List Str)) (turn : Option TurnCredentials)
    (tracks : Option (List TrackHint)) :
    decodeJoined (joined members mode granted streamers turn tracks).toValue =
      some (joined members mode granted streamers turn tracks) := by
  unfold decodeJoined toValue wireFields fieldString
  simp (disch := decide) only [field_object, oneField, lookup_append, lookup_nil, lookup_cons_ne,
    lookup_cons_self, lookup_optField_ne, lookup_optField_self, Option.or_none, Option.none_or]
  rw [bind_map_wire RoomKind.parse_wire, bind_map_wire Role.parse_wire,
    bind_map_write strings_stringsJson, bind_map_write TurnCredentials.fromJson_toJson,
    bind_map_write decodeTracks_tracksJson]
  show (stringsJson members).strings.bind _ = _
  rw [strings_stringsJson]
  rfl

theorem decodePresence_toValue (member : Str) (state : PresenceState) (kind : Option ToggleKind)
    (granted : Option Role) :
    decodePresence (presence member state kind granted).toValue =
      some (presence member state kind granted) := by
  unfold decodePresence toValue wireFields fieldString
  simp (disch := decide) only [field_object, strField, stateField, oneField, lookup_append,
    lookup_nil,
    lookup_cons_ne, lookup_cons_self, lookup_optField_ne, lookup_optField_self, Option.or_none,
    Option.none_or]
  rw [bind_map_wire ToggleKind.parse_wire, bind_map_wire Role.parse_wire]
  show (PresenceState.parse state.wire).bind _ = _
  rw [PresenceState.parse_wire]
  rfl

theorem decodeIce_toValue (cand : Str) (mid : Option Str) {mlineidx : Option ℕ}
    (h : ∀ n ∈ mlineidx, InU32 n) :
    decodeIce (ice cand mid mlineidx).toValue = some (ice cand mid mlineidx) := by
  have hmid : (mid.map Json.str).bind asStr = mid := by
    cases mid <;> rfl
  have hindex : (mlineidx.map fun n => Json.num n).bind asU32 = mlineidx := by
    cases mlineidx with
    | none => rfl
    | some n => exact asU32_num (h n rfl)
  unfold decodeIce toValue wireFields fieldString fieldU32
  simp (disch := decide) only [field_object, strField, oneField, lookup_append, lookup_nil,
    lookup_cons_ne, lookup_cons_self, lookup_optField_ne, lookup_optField_self, Option.or_none,
    Option.none_or]
  rw [hmid, hindex]
  rfl

theorem decodeOffer_toValue (sdp : Str) (tracks : Option (List TrackHint))
    {chunk : Option ChunkMeta}
    (h : ∀ c ∈ chunk, c.Fits) :
    decodeOffer (offer sdp tracks chunk).toValue = some (offer sdp tracks chunk) := by
  have hchunk : decodeChunk (offer sdp tracks chunk).toValue = chunk := by
    refine @decodeChunk_fields (("type", .str "offer") ::
      (strField "sdp" sdp ++ optField "tracks" (tracks.map tracksJson))) _ h ?_ ?_ ?_
    all_goals
      simp (disch := decide) only [strField, oneField, lookup_append, lookup_nil, lookup_cons_ne,
        lookup_optField_ne, Option.or_none]
  unfold decodeOffer
  rw [hchunk]
  unfold toValue wireFields fieldString
  simp (disch := decide) only [field_object, strField, oneField, lookup_append, lookup_nil,
    lookup_cons_ne, lookup_cons_self, lookup_optField_ne, lookup_optField_self, lookup_chunk,
    Option.or_none, Option.none_or]
  rw [bind_map_write decodeTracks_tracksJson]
  rfl

theorem decodeAnswer_toValue (sdp : Str) {chunk : Option ChunkMeta} (h : ∀ c ∈ chunk, c.Fits) :
    decodeAnswer (answer sdp chunk).toValue = some (answer sdp chunk) := by
  have hchunk : decodeChunk (answer sdp chunk).toValue = chunk := by
    refine @decodeChunk_fields (("type", .str "answer") :: strField "sdp" sdp) _ h ?_ ?_ ?_
    all_goals
      simp (disch := decide) only [strField, oneField, lookup_nil, lookup_cons_ne]
  unfold decodeAnswer
  rw [hchunk]
  unfold toValue wireFields fieldString
  simp (disch := decide) only [field_object, strField, oneField, lookup_append, lookup_cons_ne,
    lookup_cons_self, lookup_chunk, Option.or_none]
  rfl

/-- **A frame reads back from its fields.** -/
theorem decode_toValue {signal : Signal} (h : signal.Fits) :
    decode signal.wireFields.1 signal.toValue = some signal := by
  cases signal with
  | join channel => rfl
  | leave channel => rfl
  | joined members mode granted streamers turn tracks =>
      exact decodeJoined_toValue members mode granted streamers turn tracks
  | offer sdp tracks chunk => exact decodeOffer_toValue sdp tracks h
  | answer sdp chunk => exact decodeAnswer_toValue sdp h
  | ice cand mid mlineidx => exact decodeIce_toValue cand mid h
  | presence member state kind granted => exact decodePresence_toValue member state kind granted
  | mic state => cases state <;> rfl
  | video state => cases state <;> rfl
  | screen state => cases state <;> rfl
  | hand state => cases state <;> rfl
  | deaf state => cases state <;> rfl
  | speaking => rfl
  | silent => rfl
  | react member emoji => cases member <;> rfl
  | promote target => rfl
  | demote target => rfl
  | role member granted => cases granted <;> rfl
  | error e => cases e <;> rfl

/-! ### The text of a frame -/

theorem inI64_of_inU32 {n : ℕ} (h : InU32 n) : InI64 n := by
  unfold InU32 u32Max at h
  unfold InI64
  omega

theorem holdable_stringsJson (items : List Str) : Holdable (stringsJson items) := by
  refine .array ?_
  intro item hitem
  obtain ⟨s, -, rfl⟩ := List.mem_map.mp hitem
  exact .str s

theorem holdable_tracksJson (tracks : List TrackHint) : Holdable (tracksJson tracks) := by
  refine .array ?_
  intro item hitem
  obtain ⟨hint, -, rfl⟩ := List.mem_map.mp hitem
  refine .object ?_
  intro p hp
  rcases List.mem_pair.mp hp with rfl | rfl
  · exact .str _
  · exact .str _

theorem holdable_turn (turn : TurnCredentials) : Holdable turn.toJson := by
  refine .object ?_
  intro p hp
  simp only [List.mem_cons, List.not_mem_nil, or_false] at hp
  rcases hp with rfl | rfl | rfl
  · exact holdable_stringsJson turn.urls
  · exact .str _
  · exact .str _

/-- Fields whose numbers the reader can hold. -/
def HoldableFields (fields : List (Str × Json)) : Prop := ∀ p ∈ fields, Holdable p.2

theorem HoldableFields.append {fields more : List (Str × Json)} (h : HoldableFields fields)
    (h' : HoldableFields more) : HoldableFields (fields ++ more) := by
  intro p hp
  rcases List.mem_append.mp hp with hp | hp
  · exact h p hp
  · exact h' p hp

theorem holdable_oneField (key : Str) {value : Json} (h : Holdable value) :
    HoldableFields (oneField key value) := by
  intro p hp
  rw [List.mem_singleton.mp hp]
  exact h

theorem holdable_strField (key value : Str) : HoldableFields (strField key value) :=
  holdable_oneField key (.str value)

theorem holdable_optField (key : Str) {value : Option Json} (h : ∀ v ∈ value, Holdable v) :
    HoldableFields (optField key value) := by
  cases value with
  | none => exact fun p hp => absurd hp List.not_mem_nil
  | some value => exact holdable_oneField key (h value rfl)

theorem holdable_optMap (key : Str) {β : Type} {write : β → Json} (h : ∀ v, Holdable (write v))
    (value : Option β) : HoldableFields (optField key (value.map write)) := by
  refine holdable_optField key ?_
  intro v hv
  obtain ⟨b, -, rfl⟩ := Option.map_eq_some_iff.mp hv
  exact h b

theorem holdable_chunk {chunk : Option ChunkMeta} (h : ∀ c ∈ chunk, c.Fits) :
    HoldableFields ((chunk.map chunkMetaFields).getD []) := by
  cases chunk with
  | none => exact fun p hp => absurd hp List.not_mem_nil
  | some chunk =>
      intro p hp
      have hp : p ∈ chunkMetaFields chunk := hp
      simp only [chunkMetaFields, List.mem_cons, List.not_mem_nil, or_false] at hp
      rcases hp with rfl | rfl | rfl
      · exact .str _
      · exact .num (inI64_of_inU32 (h chunk rfl).1)
      · exact .num (inI64_of_inU32 (h chunk rfl).2)

theorem holdable_wireFields {signal : Signal} (h : signal.Fits) :
    HoldableFields signal.wireFields.2 := by
  have hword : ∀ {β : Type} (wire : β → Str) (v : β), Holdable (Json.str (wire v)) :=
    fun _ _ => .str _
  cases signal with
  | joined members mode granted streamers turn tracks =>
      exact (((((holdable_oneField _ (holdable_stringsJson members)).append
        (holdable_optMap _ (hword RoomKind.wire) mode)).append
          (holdable_optMap _ (hword Role.wire) granted)).append
            (holdable_optMap _ holdable_stringsJson streamers)).append
              (holdable_optMap _ holdable_turn turn)).append
                (holdable_optMap _ holdable_tracksJson tracks)
  | offer sdp tracks chunk =>
      exact ((holdable_strField _ sdp).append (holdable_optMap _ holdable_tracksJson tracks)).append
        (holdable_chunk h)
  | answer sdp chunk => exact (holdable_strField _ sdp).append (holdable_chunk h)
  | ice cand mid mlineidx =>
      refine ((holdable_strField _ cand).append (holdable_optMap _ (hword id) mid)).append
        (holdable_optField _ ?_)
      intro v hv
      cases mlineidx with
      | none => cases hv
      | some n =>
          obtain rfl := Option.some.inj hv
          exact .num (inI64_of_inU32 (h n rfl))
  | presence member state kind granted =>
      exact (((holdable_strField _ member).append (holdable_strField _ state.wire)).append
        (holdable_optMap _ (hword ToggleKind.wire) kind)).append
          (holdable_optMap _ (hword Role.wire) granted)
  | react member emoji =>
      exact (holdable_optMap _ (hword id) member).append (holdable_strField _ emoji)
  | role member granted =>
      exact (holdable_strField _ member).append (holdable_strField _ granted.wire)
  | error e => exact holdable_optMap _ (hword id) e
  | _ => exact holdable_strField _ _

/-- **A frame reads back from its text.** -/
theorem fromJson_toJson {signal : Signal} (h : signal.Fits) :
    fromJson signal.toJson = some signal := by
  have hhold : Holdable signal.toValue := by
    refine .object ?_
    intro p hp
    rcases List.mem_cons.mp hp with rfl | hp
    · exact .str _
    · exact holdable_wireFields h p hp
  have hparse := parse_write hhold
  unfold fromJson
  show ((Json.parse signal.toValue.write).bind fun value => _) = _
  rw [hparse]
  show ((signal.toValue.fieldString "type").bind fun kind => decode kind signal.toValue) = _
  rw [fieldString_toValue]
  exact decode_toValue h

end Signal

end ObbyClient.Voice

namespace ObbyClient.Client

open Voice

/-- The tag that carries a frame, with or without a label beside it. -/
theorem tag_labelled_tagLine (c : Client) (target value : Str) :
    (c.labelled (tagLine target "+obsidianirc/rtc" value)).tag "+obsidianirc/rtc" = some value := by
  unfold labelled
  split
  · rfl
  · rfl

/-- **Voice frames survive the whole wire**: a frame reads back from its text, and from the one line
that sending it queues, for any channel that holds no line break. -/
theorem command_sendVoiceSignal [Primitives] {signal : Signal} (h : signal.Fits) :
    Signal.fromJson signal.toJson = some signal ∧
      ∀ (c : Client) (channel : Str), NoCrLf channel → ∃ entry message,
        (c.command (.sendVoiceSignal channel signal)).outbox = c.outbox ++ [entry] ∧
          Message.parse (Utf8.decodeLossy entry) = .ok message ∧
          message.command = "TAGMSG" ∧ message.params = [channel] ∧
          (message.tag "+obsidianirc/rtc").bind Signal.fromJson = some signal := by
  refine ⟨Signal.fromJson_toJson h, ?_⟩
  intro c channel hchannel
  have hwhole : SentWhole (c.labelled (tagLine channel "+obsidianirc/rtc" signal.toJson)) := by
    refine (c.tagLine_sends_iff (by decide) ?_ channel).mpr (fits_singleton.mpr hchannel)
    exact List.cons_ne_nil _ _
  obtain ⟨body, -, -, -, message, hparse, hcommand, htags, hparams⟩ := hwhole
  obtain ⟨-, hcommand', hparams'⟩ :=
    c.labelled_fields (tagLine channel "+obsidianirc/rtc" signal.toJson)
  refine ⟨_, message, c.command_outbox (.sendVoiceSignal channel signal), hparse, ?_, ?_, ?_⟩
  · exact hcommand.trans hcommand'
  · exact hparams.trans hparams'
  · have htag : message.tag "+obsidianirc/rtc" = some signal.toJson := by
      unfold Message.tag
      rw [htags]
      exact c.tag_labelled_tagLine channel signal.toJson
    rw [htag]
    exact Signal.fromJson_toJson h

/-- An offer with quotes, a backslash and a control character in it, sent under a label. -/
theorem command_sendVoiceSignal_offer : letI := Primitives.ascii
    let signal : Signal := .offer "v=0\r\n\"\\\x01" (some [⟨"0", "bob"⟩])
      (some ⟨"x", 1, 4294967295⟩)
    Signal.fromJson signal.toJson = some signal ∧
      ∀ (c : Client) (channel : Str), NoCrLf channel → ∃ entry message,
        (c.command (.sendVoiceSignal channel signal)).outbox = c.outbox ++ [entry] ∧
          Message.parse (Utf8.decodeLossy entry) = .ok message ∧
          message.command = "TAGMSG" ∧ message.params = [channel] ∧
          (message.tag "+obsidianirc/rtc").bind Signal.fromJson = some signal := by
  let _ := Primitives.ascii
  refine command_sendVoiceSignal ?_
  intro chunk hchunk
  obtain rfl := Option.some.inj hchunk
  exact ⟨show 1 ≤ u32Max by decide, show 4294967295 ≤ u32Max by decide⟩

end ObbyClient.Client

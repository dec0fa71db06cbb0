import ObbyClient.Engine.Annex
import ObbyClient.Engine.Keys
import ObbyClient.Engine.Standing

/-!
# Voice rooms and channels

A room is made for whatever target a frame names, is carried along when that target is renamed, and
is never taken away.

* `Client.dispatch_houses` — which lines touch the rooms;
* `Client.Housed` — every room is that of a channel we are in;
* `Client.run_housed` — the runs that keep it so.
-/

namespace ObbyClient.Client

open Session

/-! ### Lines that a handler claims -/

section Dispatch

variable [Primitives]

theorem handleBotTags_rooms {c d : Client} {message : Message}
    (h : c.handleBotTags message = some d) :
    d.rooms = c.rooms := by
  rcases handleBotTags_eq h with rfl | rfl | ⟨bots, nick, rfl⟩
  · rfl
  · rfl
  · rfl

/-- What a line that a handler claims does to the rooms: only a frame does anything. -/
inductive Houses (c : Client) (message : Message) (d : Client) : Prop
  | still (h : d.rooms = c.rooms)
  | frame (hline : message.is "TAGMSG" = true) (htyping : tellsTyping message = false)
      (h : c.handleRtc message = some d)

/-- **Which lines touch the rooms** before their batch is asked for: frames. -/
theorem dispatch_houses (c : Client) {message : Message} (hclaims : claims message = true) :
    Houses c message (c.dispatch message) := by
  cases c.dispatch_furnishes hclaims with
  | still h => exact .still (congrArg Annex.rooms h)
  | frame hline htyping h => exact .frame hline htyping h
  | bots _ _ _ h => exact .still (handleBotTags_rooms h)

end Dispatch

/-! ### Frames -/

/-- The frame that a line carries, and the target it names. -/
def rtcFrame (message : Message) : Option (Str × Voice.Signal) :=
  if message.is "TAGMSG" && !tellsTyping message then
    (message.tag "+obsidianirc/rtc").bind fun payload =>
      (message.param 0).bind fun target =>
        (Voice.Signal.fromJson payload).map fun signal => (target, signal)
  else none

/-- A frame is applied to the room of its target, and to no other. -/
theorem handleRtc_room {c d : Client} {message : Message} (hline : message.is "TAGMSG" = true)
    (htyping : tellsTyping message = false) (h : c.handleRtc message = some d) :
    d.rooms = c.rooms ∨ ∃ target signal, rtcFrame message = some (target, signal) ∧
      d.rooms = c.rooms.insert (c.isupport.fold target)
        ((c.rooms[c.isupport.fold target]?.getD (.new target)).apply c.nick signal
          c.isupport.casemapping) := by
  unfold handleRtc at h
  unfold rtcFrame
  rw [hline, htyping]
  cases hpayload : message.tag "+obsidianirc/rtc" with
  | none =>
      rw [hpayload] at h
      cases h
  | some payload =>
      cases htarget : message.param 0 with
      | none =>
          rw [hpayload, htarget] at h
          cases h
      | some target =>
          rw [hpayload, htarget] at h
          dsimp only at h
          cases hsignal : Voice.Signal.fromJson payload with
          | none =>
              rw [hsignal] at h
              obtain rfl := Option.some.inj h
              exact .inl rfl
          | some signal =>
              rw [hsignal] at h
              obtain rfl := Option.some.inj h
              refine .inr ⟨target, signal, ?_, rfl⟩
              simp [hsignal]

/-- A room keeps the name it was made with. -/
theorem room_apply_channel (room : Voice.Room) (me : Str) (signal : Voice.Signal)
    (casemap : Casemapping) : (room.apply me signal casemap).channel = room.channel := by
  cases signal with
  | joined members mode role streamers turn tracks =>
      show (Voice.Room.applyJoined _ _ _ _ _ _ _).channel = _
      unfold Voice.Room.applyJoined
      generalize hstart : ({ room with turn := turn } : Voice.Room) = start
      have hchannel : start.channel = room.channel := by rw [← hstart]
      rw [← hchannel]
      clear hstart hchannel
      induction members generalizing start with
      | nil => rfl
      | cons member members ih => exact ih _
  | presence member state kind role =>
      cases state with
      | on =>
          cases kind with
          | none => rfl
          | some kind => rfl
      | off =>
          cases kind with
          | none => rfl
          | some kind => rfl
      | _ => rfl
  | _ => rfl

/-! ### One line -/

/-- True when every room is that of a channel we are in, under its own folded name. -/
def Housed (c : Client) : Prop :=
  ∀ key room, c.rooms[key]? = some room →
    c.isupport.fold room.channel = key ∧ (c.model.channel key).isSome = true

theorem Housed.of_eq {c d : Client} (h : Housed c) (hrooms : d.rooms = c.rooms)
    (hfold : ∀ name, d.isupport.fold name = c.isupport.fold name)
    (hchannels : ∀ key, (c.model.channel key).isSome = true → (d.model.channel key).isSome = true) :
    Housed d := by
  intro key room hroom
  rw [hrooms] at hroom
  obtain ⟨hname, hchannel⟩ := h key room hroom
  exact ⟨(hfold _).trans hname, hchannels key hchannel⟩

theorem setTyping_stands (model : Model) (target who : CaseFolded) (typing : Bool) :
    Stands model (model.setTyping target who typing).1 := by
  rcases model.setTyping_cases target who typing with
    ⟨-, -, hafter⟩ | ⟨old, -, hafter⟩ | ⟨query, -, -, hafter⟩
  · rw [hafter]
    exact Stands.refl _
  · rw [hafter]
    exact Stands.setChannel _ _ _
  · rw [hafter]
    exact Stands.of_maps rfl rfl

/-- A room that stays under its key when its channel is renamed to what folds the same. -/
theorem getElem?_moveKept_self {ν : Type} (kept : Std.ExtTreeMap CaseFolded ν)
    (source key : CaseFolded) :
    (moveKept kept source source)[key]? = kept[key]? := by
  unfold moveKept
  cases hkept : kept[source]? with
  | none => rfl
  | some value =>
      show (Model.moved kept source source value)[key]? = _
      rw [Model.getElem?_moved]
      by_cases hkey : key = source
      · rw [if_pos hkey, hkey, hkept]
      · rw [if_neg hkey, if_neg hkey]

section Line

variable [Primitives]

/-- **A line that is folded** leaves every room where it is, when it takes no channel away from
one. -/
theorem fold_housed {c : Client} (h : Housed c) (line : Message) (historical : Bool)
    (hspares : ∀ key, Removes (c.context historical) line key → c.rooms[key]? = none) :
    Housed (c.fold line historical) := by
  have hrooms : ∀ key : CaseFolded, (c.fold line historical).rooms[key]? = c.rooms[key]? := by
    intro key
    rw [fold_eq]
    dsimp only
    by_cases hrename : toAsciiUppercase line.command = "RENAME"
    · rcases apply_rename (c.context historical) line hrename with
        ⟨hsame, -⟩ | ⟨source, dest, model, hsource, hdest, -, hsame⟩
      · rw [hsame]
        rfl
      · rw [hsame]
        show (moveKept c.rooms (c.isupport.fold source) (c.isupport.fold dest))[key]? = _
        by_cases hfold : c.isupport.fold dest = c.isupport.fold source
        · rw [hfold, getElem?_moveKept_self]
        · have hnone := hspares _ (.rename hrename hsource hdest hfold)
          unfold moveKept
          rw [show c.rooms[c.isupport.fold source]? = none from hnone]
    · rw [keptAfter_of_not_renamed (apply_changes (c.context historical) line hrename)]
  intro key room hroom
  rw [hrooms] at hroom
  obtain ⟨hname, hchannel⟩ := h key room hroom
  rw [fold_eq]
  refine ⟨hname, apply_channel (c.context historical) line hchannel ?_⟩
  intro hremoves
  rw [hspares key hremoves] at hroom
  cases hroom

omit [Primitives] in
theorem not_removes_of_departs {ctx : Context} {line : Message}
    (h : departs (toAsciiUppercase line.command) = false) (key : CaseFolded) :
    ¬Removes ctx line key := by
  intro hremoves
  cases hremoves with
  | part hline => exact absurd h (by rw [hline]; decide)
  | kick hline => exact absurd h (by rw [hline]; decide)
  | rename hline => exact absurd h (by rw [hline]; decide)

/-- A line that names no channel we are not in by a frame, and takes no channel away from a room. -/
def SparesRooms : Deed → Prop
  | .line c message =>
      (∀ target signal, rtcFrame message = some (target, signal) →
        (c.model.channel (c.isupport.fold target)).isSome = true) ∧
      ∀ p ∈ (Deed.line c message).delivers, ∀ historical key,
        Removes (p.1.context historical) p.2 key → p.1.rooms[key]? = none
  | .host _ _ => True

/-- A line that a handler claims leaves the channels standing, and the fold when it does not change
the casemapping. -/
theorem dispatch_stands (c : Client) {message : Message} (hclaims : claims message = true)
    (hcast : Deed.recasts (.line c message) = false) :
    (∀ name, (c.dispatch message).isupport.fold name = c.isupport.fold name) ∧
      ∀ key, (c.model.channel key).isSome = true →
        ((c.dispatch message).model.channel key).isSome = true := by
  have hof : ∀ d : Client, d.bearing.isupport = c.isupport →
      d.bearing.model.channels = c.model.channels →
      (∀ name, d.isupport.fold name = c.isupport.fold name) ∧
        ∀ key, (c.model.channel key).isSome = true → (d.model.channel key).isSome = true := by
    intro d hisupport hchannels
    exact ⟨fun name => congrArg (Isupport.fold · name) hisupport,
      fun key hkey => by rwa [Model.channel, show d.model.channels = _ from hchannels]⟩
  have hdoes := c.dispatch_does message
  generalize c.dispatch message = d at hdoes
  cases hdoes with
  | still _ hd => exact hof d (by rw [hd]; rfl) (by rw [hd]; rfl)
  | welcome =>
      exact hof _ (by rw [handleWelcome_bearing]; rfl) (by rw [handleWelcome_bearing]; rfl)
  | refused =>
      rcases c.handleNickRefused_bearing message with hd | ⟨nick, hd⟩
      · exact hof _ (by rw [hd]; rfl) (by rw [hd]; rfl)
      · exact hof _ (by rw [hd]; rfl) (by rw [hd]; rfl)
  | isupport hline =>
      have hd := c.handleIsupport_bearing message
      refine ⟨?_, ?_⟩
      · intro name
        rw [show (c.handleIsupport message).isupport = _ from congrArg Bearing.isupport hd]
        exact fold_eq_of_recasts hcast hline name
      · intro key hkey
        rwa [show (c.handleIsupport message).model = c.model from congrArg Bearing.model hd]
  | typing hline hd =>
      obtain ⟨state, target, source, -, -, -, hbearing⟩ := handleTyping_bearing hd
      refine ⟨?_, ?_⟩
      · intro name
        rw [show d.isupport = c.isupport from congrArg Bearing.isupport hbearing]
      · intro key hkey
        rw [show d.model = _ from congrArg Bearing.model hbearing]
        exact (setTyping_stands c.model _ _ _).channels key hkey
  | batch hnot => exact absurd (hnot.symm.trans hclaims) (by decide)
  | other hnot => exact absurd (hnot.symm.trans hclaims) (by decide)

/-- **One line.** -/
theorem handleMessage_housed {c : Client} {message : Message} (h : Housed c)
    (hcast : Deed.recasts (.line c message) = false) (hspares : SparesRooms (.line c message)) :
    Housed (c.handleMessage message) := by
  obtain ⟨hframe, hremoves⟩ := hspares
  have hnoted : Housed (c.noted message) := h
  rw [handleMessage_eq]
  by_cases hclaims : claims message = true
  · obtain ⟨hfold, hchannels⟩ := (c.noted message).dispatch_stands hclaims hcast
    cases (c.noted message).dispatch_houses hclaims with
    | still hrooms => exact hnoted.of_eq hrooms hfold hchannels
    | frame hline htyping hd =>
        rcases handleRtc_room hline htyping hd with hrooms | ⟨target, signal, hcarries, hrooms⟩
        · exact hnoted.of_eq hrooms hfold hchannels
        · intro key room hroom
          rw [hrooms] at hroom
          rw [hfold]
          rcases Maps.getElem?_insert_eq_some.mp hroom with ⟨rfl, rfl⟩ | ⟨-, hroom⟩
          · refine ⟨?_, hchannels _ (hframe target signal hcarries)⟩
            rw [room_apply_channel]
            cases hfound : (c.noted message).rooms[(c.noted message).isupport.fold target]? with
            | none => rfl
            | some found => exact (hnoted _ found hfound).1
          · obtain ⟨hname, hchannel⟩ := hnoted key room hroom
            exact ⟨hname, hchannels key hchannel⟩
  · rw [Bool.not_eq_true] at hclaims
    exact dispatch_delivers (Q := fun _ d => Housed d) (c.noted message) hclaims (fun _ => hnoted)
      fun _ p historical hp hhoused => fold_housed hhoused p.2 historical (hremoves p hp historical)

/-! ### What a host does -/

omit [Primitives] in
theorem tick_housed {c : Client} (h : Housed c) (now : Now) : Housed (c.tick now) := by
  have hrooms : (c.tick now).rooms = c.rooms := congrArg Annex.rooms (c.tick_annex now)
  have hisupport : (c.tick now).isupport = c.isupport :=
    congrArg Bearing.isupport (c.tick_bearing now)
  refine h.of_eq hrooms (fun name => by rw [hisupport]) ?_
  intro key
  exact tick_keeps (P := fun model => (c.model.channel key).isSome = true →
    (model.channel key).isSome = true)
    (fun model target who hmodel hkey =>
      (setTyping_stands model target who false).channels key (hmodel hkey))
    c now id

omit [Primitives] in
theorem sendLineLabeled_housed {c : Client} (h : Housed c) (line : Message) :
    Housed (c.sendLineLabeled line) := by
  rw [sendLineLabeled_eq]
  exact h

/-- What we say ourselves takes no channel away. -/
theorem say_housed {c : Client} (h : Housed c) {line : Message}
    (hline : line.command = "PRIVMSG" ∨ line.command = "NOTICE") : Housed (c.say line) := by
  unfold say
  dsimp only
  split
  · exact sendLineLabeled_housed h line
  · refine fold_housed (sendLineLabeled_housed h line) _ false ?_
    intro key hremoves
    have hword : departs (toAsciiUppercase line.command) = false := by
      rcases hline with hline | hline
      · rw [hline]
        decide
      · rw [hline]
        decide
    refine absurd hremoves (not_removes_of_departs ?_ key)
    exact hword

theorem command_housed {c : Client} (h : Housed c) (command : Command) :
    Housed (c.command command) := by
  cases command with
  | sendMessage target text => exact say_housed h (.inl rfl)
  | sendNotice target text => exact say_housed h (.inr rfl)
  | sendAction target text => exact say_housed h (.inl rfl)
  | watchNicks nicks =>
      show Housed (Client.setWatching _ _ _)
      unfold setWatching
      dsimp only
      rw [sendLines_eq]
      exact h
  | unwatchNicks nicks =>
      show Housed (Client.setWatching _ _ _)
      unfold setWatching
      dsimp only
      rw [sendLines_eq]
      exact h
  | sendRawLine line =>
      rw [command_sendRawLine]
      cases (Message.parse line).toOption with
      | none => exact h
      | some message => exact sendLineLabeled_housed h message
  | join channel key =>
      show Housed (Client.sendLineLabeled _ _)
      refine sendLineLabeled_housed ?_ _
      exact h
  | subscribeMetadata keys =>
      show Housed (Client.sendLineLabeled _ _)
      refine sendLineLabeled_housed ?_ _
      exact h
  | _ => exact sendLineLabeled_housed h _

/-- **One input of the host.** -/
theorem step_housed {c : Client} (h : Housed c) {input : Input}
    (hbytes : ∀ data, input ≠ .bytes data) :
    Housed (c.step input) := by
  cases input with
  | connected =>
      show Housed c.handleConnected
      unfold handleConnected
      rw [sendLines_eq]
      exact h
  | disconnected =>
      obtain ⟨timers, hd, -⟩ := c.handleDisconnected_bearing
      show Housed c.handleDisconnected
      refine h.of_eq ?_ ?_ ?_
      · unfold handleDisconnected scheduleReconnect
        split
        · rfl
        · rfl
      · intro name
        rw [show c.handleDisconnected.isupport = c.isupport from congrArg Bearing.isupport hd]
      · intro key hkey
        rw [show c.handleDisconnected.model = _ from congrArg Bearing.model hd]
        exact isSome_map c.model.channels _ hkey
  | bytes data => exact absurd rfl (hbytes data)
  | tick now => exact tick_housed h now
  | command command => exact command_housed h command
  | sendLine message => exact h
  | sendLineLabeled message => exact sendLineLabeled_housed h message
  | pollTransmit => exact h
  | pollEvent => exact h

/-! ### A run -/

/-- **Voice rooms track channels**, in every run whose casemapping stays as it is and whose lines
name no channel we are not in by a frame, and take no channel away from a room. -/
theorem run_housed (config : Config) (inputs : List Input)
    (hcast : ((new config).deeds inputs).any Deed.recasts = false)
    (h : ∀ deed ∈ (new config).deeds inputs, SparesRooms deed) :
    Housed ((new config).run inputs) := by
  rw [List.any_eq_false] at hcast
  refine run_along (C := fun _ deed => deed.recasts = false ∧ SparesRooms deed) (P := fun _ =>
    Housed)
    (fun _ _ _ _ _ hc => hc) (fun _ c message hline hc => handleMessage_housed hc hline.1 hline.2)
    (fun _ c input hbytes _ hc => step_housed hc hbytes) (c := new config) ?_ inputs ?_
  · intro key room hroom
    exact absurd hroom (by simp [new])
  · refine along_of_forall (C := fun deed => deed.recasts = false ∧ SparesRooms deed) ?_
    intro deed hdeed
    exact ⟨Bool.eq_false_iff.mpr (hcast deed hdeed), h deed hdeed⟩

/-- True for a deed that carries no frame for a channel we are not in, and by which nobody goes
away. -/
def Deed.housekeeps : Deed → Bool
  | .line c message =>
      (rtcFrame message).all (fun p => (c.model.channel (c.isupport.fold p.1)).isSome) &&
        (Deed.line c message).delivers.all fun p => !departs (toAsciiUppercase p.2.command)
  | .host _ _ => true

theorem sparesRooms_of_housekeeps {deed : Deed} (h : deed.housekeeps = true) :
    SparesRooms deed := by
  cases deed with
  | host c input => trivial
  | line c message =>
      obtain ⟨hframe, hdelivers⟩ := (Bool.and_eq_true _ _).mp h
      refine ⟨?_, ?_⟩
      · intro target signal hcarries
        rw [hcarries] at hframe
        exact hframe
      · intro p hp historical key hremoves
        have hdeparts := List.all_eq_true.mp hdelivers p hp
        rw [Bool.not_eq_true'] at hdeparts
        exact absurd hremoves (not_removes_of_departs hdeparts key)

end Line

/-- A frame for a channel we are in, and a reconnect. -/
theorem run_housed_joined : letI := Primitives.ascii
    Housed ((new (.new "me")).run [.connected, .bytes (Utf8.encode
      ":s 001 me :hi\n:me!u@h JOIN #A\n@+obsidianirc/rtc=\x7b\"type\":\"speaking\"\x7d :bob TAGMSG #a\n"),
      .disconnected, .connected]) := by
  let _ := Primitives.ascii
  refine run_housed _ _ (by decide +kernel) ?_
  have hall : ((new (.new "me")).deeds [.connected, .bytes (Utf8.encode
      ":s 001 me :hi\n:me!u@h JOIN #A\n@+obsidianirc/rtc=\x7b\"type\":\"speaking\"\x7d :bob TAGMSG #a\n"),
      .disconnected, .connected]).all Deed.housekeeps = true := by
    decide +kernel
  intro deed hdeed
  exact sparesRooms_of_housekeeps (List.all_eq_true.mp hall deed hdeed)

/-- **A room outlives its channel**, or keeps its name when the channel is renamed, and anybody may
open one for a channel we are not in. -/
theorem room_left_behind : letI := Primitives.ascii
    let joined := (new (.new "me")).run [.connected, .bytes (Utf8.encode
      ":s 001 me :hi\n:me!u@h JOIN #a\n@+obsidianirc/rtc=\x7b\"type\":\"speaking\"\x7d :bob TAGMSG #a\n")]
    let parted := joined.run [.bytes (Utf8.encode ":me!u@h PART #a\n")]
    let renamed := joined.run [.bytes (Utf8.encode ":s RENAME #a #b :moved\n")]
    let strange := joined.run [.bytes (Utf8.encode
      "@+obsidianirc/rtc=\x7b\"type\":\"speaking\"\x7d :bob TAGMSG #c\n")]
    (parted.Reachable ∧ ¬ Housed parted) ∧ (renamed.Reachable ∧ ¬ Housed renamed) ∧
      (strange.Reachable ∧ ¬ Housed strange) := by
  let _ := Primitives.ascii
  intro joined parted renamed strange
  -- a room under this key whose channel is gone, or goes by another name
  have hnot : ∀ (c : Client) (key : CaseFolded),
      (c.rooms[key]?).any (fun room =>
        c.isupport.fold room.channel != key || (c.model.channel key).isNone) = true →
          ¬ Housed c := by
    intro c key hany h
    obtain ⟨room, hroom, hbad⟩ := (Option.any_eq_true _ _).mp hany
    obtain ⟨hname, hchannel⟩ := h key room hroom
    rw [hname, bne_self_eq_false, Bool.false_or, Option.isNone_iff_eq_none] at hbad
    rw [hbad] at hchannel
    cases hchannel
  have hreached : ∀ input, (joined.run [input]).Reachable := by
    intro input
    exact ⟨.new "me", _ ++ [input], (run_append _ _ _).symm⟩
  exact ⟨⟨hreached _, hnot _ ⟨"#a"⟩ (by decide +kernel)⟩,
    ⟨hreached _, hnot _ ⟨"#b"⟩ (by decide +kernel)⟩,
    ⟨hreached _, hnot _ ⟨"#c"⟩ (by decide +kernel)⟩⟩

end ObbyClient.Client

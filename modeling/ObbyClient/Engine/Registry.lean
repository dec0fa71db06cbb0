import ObbyClient.Engine.Annex
import ObbyClient.Engine.Keys

/-!
# The registry of bots

A bot is in the registry for as long as the server's word on it stands.

* `Client.botInfo` — what a line says of a bot;
* `Client.Announced` — the last word on a bot, and what it may offer by it;
* `Client.handleMessage_registry` — what one line does to the registry;
* `Client.run_announced` — the runs in which every bot in the registry was announced.
-/

namespace ObbyClient

namespace Bots

/-- The registry after the server's word on a bot. -/
def told (bots : Bots) (key : Str) (info : BotInfo) : Bots :=
  if info.removed then bots.remove key
  else ((bots.insert key info.bot).setCommands key info.commands).getD (bots.insert key info.bot)

/-- What a bot may offer of what it says it offers. -/
def gate (fromConfig : Bool) (commands : List BotCommand) : List BotCommand :=
  if fromConfig then commands else commands.filter fun command => !isPrivileged command.name

theorem not_isPrivileged_of_mem_gate {commands : List BotCommand} {command : BotCommand}
    (h : command ∈ gate false commands) : isPrivileged command.name = false := by
  have hkept := (List.mem_filter.mp h).2
  rw [Bool.not_eq_true'] at hkept
  exact hkept

variable {bots after : Bots} {key other : Str}

/-- A list of commands is the bot's only, and goes through the gate. -/
theorem setCommands_eq_some {commands : List BotCommand}
    (h : bots.setCommands key commands = some after) :
    ∃ bot, bots.known[key]? = some bot ∧
      after.known = bots.known.insert key
        { bot with commands := gate bot.fromConfig commands } := by
  unfold setCommands at h
  obtain ⟨bot, hbot, rfl⟩ := Option.map_eq_some_iff.mp h
  exact ⟨bot, hbot, rfl⟩

theorem told_eq_some {info : BotInfo} {bot : Bot}
    (h : (bots.told key info).known[other]? = some bot) :
    (other ≠ key ∧ bots.known[other]? = some bot) ∨
      (other = key ∧ info.removed = false ∧
        bot = { info.bot with commands := gate info.bot.fromConfig info.commands }) := by
  unfold told at h
  split at h
  · exact Or.inl (Maps.getElem?_erase_eq_some.mp h)
  · rename_i hremoved
    have hself : (bots.insert key info.bot).known[key]? = some info.bot :=
      Maps.getElem?_insert_eq_some.mpr (Or.inl ⟨rfl, rfl⟩)
    cases hset : (bots.insert key info.bot).setCommands key info.commands with
    | none =>
        unfold setCommands at hset
        rw [Option.map_eq_none_iff.mp hset] at hself
        cases hself
    | some after =>
        rw [hset, Option.getD_some] at h
        obtain ⟨found, hfound, hafter⟩ := setCommands_eq_some hset
        obtain rfl := Option.some.inj (hfound.symm.trans hself)
        rw [hafter] at h
        obtain ⟨hkey, hbot⟩ | ⟨hkey, hold⟩ := Maps.getElem?_insert_eq_some.mp h
        · exact Or.inr ⟨hkey, Bool.eq_false_iff.mpr hremoved, hbot.symm⟩
        · obtain ⟨hsame, -⟩ | ⟨-, hold⟩ := Maps.getElem?_insert_eq_some.mp hold
          · exact absurd hsame hkey
          · exact Or.inl ⟨hkey, hold⟩

end Bots

namespace Client

variable [Primitives]

/-! ### The server's word -/

/-- What a line says of a bot: that it is there, or that it is no more. -/
def botInfo (message : Message) : Option BotInfo :=
  if message.is "TAGMSG" then (message.tag botInfoTag).bind BotInfo.decode else none

/-- A deed that says something of the bot that goes by a nick. -/
def SpeaksOf (nick : Str) : Deed → Prop
  | .line c message => ∃ info, botInfo message = some info ∧
      c.isupport.fold info.bot.nick = c.isupport.fold nick
  | .host _ _ => False

/-- The end of a connection. -/
def Deed.hangsUp : Deed → Bool
  | .host _ .disconnected => true
  | _ => false

/-- The last that was said of a bot on this connection. -/
def LastWord (seen : List Deed) (nick : Str) (info : BotInfo) : Prop :=
  ∃ earlier c message later, seen = earlier ++ .line c message :: later ∧
    botInfo message = some info ∧ info.bot.nick = nick ∧
      ∀ deed ∈ later, ¬ SpeaksOf nick deed ∧ deed.hangsUp = false

/-- The last word on a bot is that it is there, and by that word it offers nothing it is not
entitled to. -/
def Announced (seen : List Deed) (bot : Bot) : Prop :=
  ∃ info, LastWord seen bot.nick info ∧ info.removed = false ∧
    (info.bot.fromConfig = false → ∀ command ∈ bot.commands, isPrivileged command.name = false)

/-- A line whose word on a bot no other handler claims, and by which no bot is folded otherwise. -/
def SparesBots : Deed → Prop
  | .line c message =>
      ((botInfo message).isSome = true → tellsTyping message = false ∧ tellsRtc message = false) ∧
      (message.is "005" = true → ∀ (key : Str) (bot : Bot), c.bots.known[key]? = some bot →
        ((isupportTokens message).foldl (fun i token => (i.apply token).1) c.isupport).fold
          bot.nick =
          c.isupport.fold bot.nick)
  | .host _ _ => True

/-- Every bot is under its nick, and is as the last word on it and the gate left it. -/
def Registered (seen : List Deed) (c : Client) : Prop :=
  ∀ (key : Str) (bot : Bot), c.bots.known[key]? = some bot →
    key = (c.isupport.fold bot.nick).asStr ∧
      ∃ info, LastWord seen bot.nick info ∧ info.removed = false ∧
        info.bot.fromConfig = bot.fromConfig ∧
        (bot.fromConfig = false → ∀ command ∈ bot.commands, isPrivileged command.name = false)

theorem lastWord_append {seen : List Deed} {nick : Str} {info : BotInfo} {deed : Deed}
    (h : LastWord seen nick info) (hspeaks : ¬ SpeaksOf nick deed) (hhangs : deed.hangsUp = false) :
    LastWord (seen ++ [deed]) nick info := by
  obtain ⟨earlier, c, message, later, rfl, hinfo, hnick, hlater⟩ := h
  refine ⟨earlier, c, message, later ++ [deed], ?_, hinfo, hnick, ?_⟩
  · rw [List.append_assoc, List.cons_append]
  · intro other hmem
    obtain hold | hlast := List.mem_append.mp hmem
    · exact hlater other hold
    · rw [List.mem_singleton.mp hlast]
      exact ⟨hspeaks, hhangs⟩

theorem lastWord_new (seen : List Deed) (c : Client) {message : Message} {info : BotInfo}
    (h : botInfo message = some info) : LastWord (seen ++ [.line c message]) info.bot.nick info :=
  ⟨seen, c, message, [], rfl, h, rfl, fun _ hmem => absurd hmem List.not_mem_nil⟩

/-! ### What one line does -/

theorem tagmsg_of_botInfo {message : Message} {info : BotInfo} (h : botInfo message = some info) :
    message.is "TAGMSG" = true ∧
      ∃ payload, message.tag botInfoTag = some payload ∧ BotInfo.decode payload = some info := by
  unfold botInfo at h
  split at h
  · rename_i hline
    obtain ⟨payload, htag, hdecode⟩ := Option.bind_eq_some_iff.mp h
    exact ⟨hline, payload, htag, hdecode⟩
  · cases h

/-- A word on a bot changes its entry alone. -/
theorem handleMessage_bots_of_info (c : Client) {message : Message} {info : BotInfo}
    (hinfo : botInfo message = some info) (htyping : tellsTyping message = false)
    (hrtc : tellsRtc message = false) :
    (c.handleMessage message).bots = c.bots.told (c.isupport.fold info.bot.nick).asStr info := by
  obtain ⟨hline, payload, htag, hdecode⟩ := tagmsg_of_botInfo hinfo
  have hquiet : (c.noted message).handleTyping message = none := by
    rw [← Option.not_isSome_iff_eq_none, handleTyping_isSome, htyping]
    exact Bool.false_ne_true
  have hframeless : (c.noted message).handleRtc message = none := by
    rw [← Option.not_isSome_iff_eq_none, handleRtc_isSome, hrtc]
    exact Bool.false_ne_true
  have htagmsg : (c.noted message).handleTagmsg message =
      some ((c.noted message).handleBotInfo payload) := by
    unfold handleTagmsg handleBotTags
    rw [hline, Bool.not_true, if_neg Bool.false_ne_true, hquiet, hframeless, htag]
    rfl
  rw [handleMessage_eq, dispatch_of_is_tagmsg _ hline]
  unfold dispatchMiddle
  rw [htagmsg, Option.some_or]
  show ((c.noted message).handleBotInfo payload).bots = _
  unfold handleBotInfo
  rw [hdecode]
  rfl

/-- Any other line changes at most the commands of a bot that is known. -/
theorem handleMessage_bots_of_none (c : Client) {message : Message}
    (hinfo : botInfo message = none) :
    (c.handleMessage message).bots = c.bots ∨
      ∃ key commands, c.bots.setCommands key commands = some (c.handleMessage message).bots := by
  rw [handleMessage_eq]
  have hnoted : (c.noted message).bots = c.bots := rfl
  by_cases hclaims : claims message = true
  · cases (c.noted message).dispatch_furnishes hclaims with
    | still h => exact Or.inl (congrArg Annex.bots h)
    | frame hline htyping h =>
        refine Or.inl ?_
        generalize (c.noted message).dispatch message = d at h
        unfold handleRtc at h
        split at h
        · split at h
          · obtain rfl := Option.some.inj h
            rfl
          · obtain rfl := Option.some.inj h
            rfl
        · cases h
    | bots hline htyping hrtc h =>
        generalize (c.noted message).dispatch message = d at h
        unfold handleBotTags at h
        split at h
        · rename_i payload htag
          have hdecode : BotInfo.decode payload = none := by
            unfold botInfo at hinfo
            rw [if_pos hline, htag] at hinfo
            exact hinfo
          obtain rfl := Option.some.inj h
          unfold handleBotInfo
          rw [hdecode]
          exact Or.inl rfl
        · obtain rfl := Option.some.inj h
          unfold handleBotCommands
          split
          · rename_i commands source _ _
            cases hset : (c.noted message).bots.setCommands
                ((c.noted message).isupport.fold source.name).asStr commands with
            | none => exact Or.inl rfl
            | some bots => exact Or.inr ⟨_, commands, hset⟩
          · exact Or.inl rfl
        · cases h
  · rw [Bool.not_eq_true] at hclaims
    refine Or.inl ?_
    refine dispatch_delivers (Q := fun _ d => d.bots = c.bots) (c.noted message) hclaims
      (fun _ => hnoted) ?_
    intro done p historical hp hbots
    rw [fold_eq]
    exact hbots

/-- Only a `005` changes what names are folded by. -/
theorem handleMessage_isupport (c : Client) (message : Message) :
    (c.handleMessage message).isupport =
      if message.is "005" then
        (isupportTokens message).foldl (fun i token => (i.apply token).1) c.isupport
      else c.isupport := by
  by_cases hline : message.is "005" = true
  · rw [if_pos hline, handleMessage_eq]
    have hdispatch : (c.noted message).dispatch message =
        (c.noted message).handleIsupport message := by
      unfold dispatch
      rw [is_eq_false hline (by decide), is_eq_false hline (by decide),
        is_eq_false hline (by decide),
        is_eq_false hline (by decide), hline]
      rfl
    rw [hdispatch]
    exact congrArg Bearing.isupport ((c.noted message).handleIsupport_bearing message)
  · rw [if_neg hline]
    refine handleMessage_keeps_bearing (P := fun b => b.isupport = c.isupport) (fun _ _ _ _ hb =>
      hb)
      c message (fun _ _ hb => hb) (fun h => absurd h hline) ?_ ?_ rfl
    · intro d _ hd hb
      obtain ⟨_, _, _, -, -, -, hbearing⟩ := handleTyping_bearing hd
      rw [hbearing]
      exact hb
    · intro p historical _ hb
      rw [fold_eq]
      exact hb

/-- **One line** leaves every bot as announced. -/
theorem handleMessage_registry {seen : List Deed} {c : Client} {message : Message}
    (hspares : SparesBots (.line c message)) (h : Registered seen c) :
    Registered (seen ++ [.line c message]) (c.handleMessage message) := by
  obtain ⟨hquiet, hfolds⟩ := hspares
  -- a bot that was known keeps its key
  have hkeys : ∀ (key : Str) (bot : Bot), c.bots.known[key]? = some bot →
      (c.handleMessage message).isupport.fold bot.nick = c.isupport.fold bot.nick := by
    intro key bot hbot
    rw [handleMessage_isupport]
    split
    · rename_i hline
      exact hfolds hline key bot hbot
    · rfl
  cases hinfo : botInfo message with
  | some info =>
      obtain ⟨htyping, hrtc⟩ := hquiet (by rw [hinfo]; rfl)
      intro key bot hbot
      rw [handleMessage_bots_of_info c hinfo htyping hrtc] at hbot
      obtain ⟨hne, hold⟩ | ⟨rfl, hremoved, rfl⟩ := Bots.told_eq_some hbot
      · obtain ⟨hkey, said, hlast, hrest⟩ := h key bot hold
        refine ⟨?_, said, lastWord_append hlast ?_ rfl, hrest⟩
        · rw [hkeys key bot hold]
          exact hkey
        · rintro ⟨_, hsome, hfold⟩
          obtain rfl := Option.some.inj (hinfo.symm.trans hsome)
          exact hne (by rw [hfold]; exact hkey)
      · have hline := (tagmsg_of_botInfo hinfo).1
        refine ⟨?_, info, lastWord_new seen c hinfo, hremoved, rfl, ?_⟩
        · rw [handleMessage_isupport, is_eq_false hline (by decide)]
          rfl
        · intro hconfig command hcommand
          dsimp only at hconfig hcommand
          rw [hconfig] at hcommand
          exact Bots.not_isPrivileged_of_mem_gate hcommand
  | none =>
      have hsilent : ∀ nick, ¬ SpeaksOf nick (.line c message) := by
        rintro nick ⟨info, hsome, -⟩
        cases hinfo.symm.trans hsome
      have hkept : ∀ (key : Str) (bot : Bot), c.bots.known[key]? = some bot →
          key = ((c.handleMessage message).isupport.fold bot.nick).asStr ∧
            ∃ info, LastWord (seen ++ [.line c message]) bot.nick info ∧ info.removed = false ∧
              info.bot.fromConfig = bot.fromConfig ∧
              (bot.fromConfig = false →
                ∀ command ∈ bot.commands, isPrivileged command.name = false) := by
        intro key bot hbot
        obtain ⟨hkey, info, hlast, hrest⟩ := h key bot hbot
        refine ⟨?_, info, lastWord_append hlast (hsilent bot.nick) rfl, hrest⟩
        rw [hkeys key bot hbot]
        exact hkey
      intro key bot hbot
      obtain hsame | ⟨changed, commands, hset⟩ := handleMessage_bots_of_none c hinfo
      · rw [hsame] at hbot
        exact hkept key bot hbot
      · obtain ⟨found, hfound, hafter⟩ := Bots.setCommands_eq_some hset
        rw [hafter] at hbot
        obtain ⟨rfl, rfl⟩ | ⟨-, hold⟩ := Maps.getElem?_insert_eq_some.mp hbot
        · obtain ⟨hkey, info, hlast, hremoved, hconfig, -⟩ := hkept key found hfound
          refine ⟨hkey, info, hlast, hremoved, hconfig, ?_⟩
          intro hself command hcommand
          dsimp only at hself hcommand
          rw [hself] at hcommand
          exact Bots.not_isPrivileged_of_mem_gate hcommand
        · exact hkept key bot hold

/-! ### What a host does -/

theorem say_bots (c : Client) (line : Message) : (c.say line).bots = c.bots := by
  unfold say
  dsimp only
  split
  · rw [sendLineLabeled_eq]
  · rw [fold_eq, sendLineLabeled_eq]

/-- The registry is emptied when the connection ends, and left alone by everything else a host
does. -/
theorem step_bots (c : Client) {input : Input} (hbytes : ∀ data, input ≠ .bytes data) :
    (c.step input).bots = if (Deed.host c input).hangsUp then .new else c.bots := by
  cases input with
  | connected =>
      show c.handleConnected.bots = c.bots
      unfold handleConnected
      rw [sendLines_eq]
      rfl
  | disconnected =>
      show c.handleDisconnected.bots = .new
      unfold handleDisconnected scheduleReconnect
      split
      · rfl
      · rfl
  | bytes data => exact absurd rfl (hbytes data)
  | tick now => exact congrArg Annex.bots (c.tick_annex now)
  | command command =>
      show (c.command command).bots = c.bots
      cases command with
      | sendMessage target text => exact c.say_bots _
      | sendNotice target text => exact c.say_bots _
      | sendAction target text => exact c.say_bots _
      | watchNicks nicks =>
          show (Client.setWatching _ _ _).bots = _
          unfold setWatching
          dsimp only
          rw [sendLines_eq]
      | unwatchNicks nicks =>
          show (Client.setWatching _ _ _).bots = _
          unfold setWatching
          dsimp only
          rw [sendLines_eq]
      | sendRawLine line =>
          rw [command_sendRawLine]
          cases (Message.parse line).toOption with
          | none => rfl
          | some message =>
              show (Client.sendLineLabeled _ _).bots = _
              rw [sendLineLabeled_eq]
      | _ =>
          show (Client.sendLineLabeled _ _).bots = _
          rw [sendLineLabeled_eq]
  | sendLine message => rfl
  | sendLineLabeled message =>
      show (Client.sendLineLabeled _ _).bots = c.bots
      rw [sendLineLabeled_eq]
  | pollTransmit => rfl
  | pollEvent => rfl

/-- **One input of the host.** -/
theorem step_registry {seen : List Deed} {c : Client} {input : Input}
    (hbytes : ∀ data, input ≠ .bytes data) (h : Registered seen c) :
    Registered (seen ++ [.host c input]) (c.step input) := by
  intro key bot hbot
  rw [c.step_bots hbytes] at hbot
  by_cases hdown : (Deed.host c input).hangsUp = true
  · rw [if_pos hdown] at hbot
    exact absurd hbot (by simp [Bots.new])
  · rw [if_neg hdown] at hbot
    have hisupport : (c.step input).isupport = c.isupport := by
      refine step_keeps_bearing (P := fun b => b.isupport = c.isupport) (fun _ _ _ _ hb =>
        hb) c hbytes
        (fun _ _ hb => hb) ?_ (fun _ _ _ hb => hb) ?_ rfl
      · intro now _ hb
        rw [tick_bearing]
        exact hb
      · intro line _ hb
        rw [fold_eq]
        exact hb
    obtain ⟨hkey, info, hlast, hrest⟩ := h key bot hbot
    refine ⟨?_, info, lastWord_append hlast id (Bool.eq_false_iff.mpr hdown), hrest⟩
    rw [hisupport]
    exact hkey

/-! ### A run -/

/-- **Every bot in the registry was announced** and offers no more than it may, in every run whose
words on bots reach the registry and whose `005`s fold the bots in it as before. -/
theorem run_announced (config : Config) (inputs : List Input)
    (h : ∀ deed ∈ (new config).deeds inputs, SparesBots deed) (key : Str) {bot : Bot}
    (hbot : ((new config).run inputs).bots.known[key]? = some bot) :
    Announced ((new config).deeds inputs) bot := by
  have hrun : Registered ((new config).deeds inputs) ((new config).run inputs) :=
    run_along (P := Registered) (fun _ _ _ _ _ hc => hc)
      (fun _ _ _ hspares hc => handleMessage_registry hspares hc)
      (fun _ _ _ hbytes _ hc => step_registry hbytes hc)
      (by intro key bot hbot; exact absurd hbot (by simp [new, Bots.new])) inputs
        (along_of_forall h)
  obtain ⟨-, info, hlast, hremoved, hconfig, hgate⟩ := hrun key bot hbot
  exact ⟨info, hlast, hremoved, fun hself => hgate (hconfig.symm.trans hself)⟩

/-- True for a line that leaves the casemapping alone and is no indicator and no frame. -/
def Deed.plain : Deed → Bool
  | .line c message => !Deed.recasts (.line c message) && !tellsTyping message && !tellsRtc message
  | .host _ _ => true

theorem sparesBots_of_plain {deed : Deed} (h : deed.plain = true) : SparesBots deed := by
  cases deed with
  | host c input => trivial
  | line c message =>
      unfold Deed.plain at h
      rw [Bool.and_eq_true, Bool.and_eq_true, Bool.not_eq_true', Bool.not_eq_true',
        Bool.not_eq_true'] at h
      obtain ⟨⟨hcast, htyping⟩, hrtc⟩ := h
      refine ⟨fun _ => ⟨htyping, hrtc⟩, ?_⟩
      intro hline key bot _
      exact fold_eq_of_recasts hcast hline bot.nick

end Client

/-- As base64 decodes two payloads about a bot. -/
@[reducible] def Primitives.payloads : Primitives :=
  { Primitives.ascii with
    base64Decode := fun payload =>
      if payload =
        "eyJuaWNrIjoiYlsiLCJjb21tYW5kcyI6W3sibmFtZSI6ImhlbHAifSx7Im5hbWUiOiJPUEVSIn1dfQ==" then
        some (Utf8.encode (("\x7b\"nick\":\"b[\",\"commands\":[\x7b\"name\":\"help\"\x7d," : Str) ++
          "\x7b\"name\":\"OPER\"\x7d]\x7d"))
      else if payload = "eyJuaWNrIjoiYlsiLCJldmVudCI6InJlbW92ZSJ9" then
        some (Utf8.encode "\x7b\"nick\":\"b[\",\"event\":\"remove\"\x7d")
      else none }

namespace Client

/-- A bot is announced that asks for a privileged command. -/
def announcement : List Input :=
  [.connected, .bytes (Utf8.encode (("@obby.world/bot-info=" : Str) ++
    "eyJuaWNrIjoiYlsiLCJjb21tYW5kcyI6W3sibmFtZSI6ImhlbHAifSx7Im5hbWUiOiJPUEVSIn1dfQ==" ++
    " :s TAGMSG *\n"))]

theorem run_announced_help : letI := Primitives.payloads
    ∃ bot, ((new (.new "me")).run announcement).bots.known[("b\x7b" : Str)]? = some bot ∧
      bot.commands = [⟨"help", none⟩] ∧ Announced ((new (.new "me")).deeds announcement) bot := by
  have hrun : letI := Primitives.payloads
      (((new (.new "me")).run announcement).bots.known[("b\x7b" : Str)]?).map (·.commands) =
          some [⟨"help", none⟩] ∧
        ((new (.new "me")).deeds announcement).all Deed.plain = true := by
    decide +kernel
  obtain ⟨hbot, hall⟩ := hrun
  obtain ⟨bot, hfound, hcommands⟩ := Option.map_eq_some_iff.mp hbot
  refine ⟨bot, hfound, hcommands, @run_announced Primitives.payloads _ _ ?_ _ _ hfound⟩
  intro deed hdeed
  exact @sparesBots_of_plain Primitives.payloads _ (List.all_eq_true.mp hall deed hdeed)

/-- What the last deed says of a bot. -/
def lastInfo [Primitives] (seen : List Deed) : Option BotInfo :=
  seen.getLast?.bind fun
    | .line _ message => botInfo message
    | .host _ _ => none

theorem not_announced_of_removed [Primitives] {seen : List Deed} {bot : Bot} {info : BotInfo}
    (h : lastInfo seen = some info) (hnick : info.bot.nick = bot.nick)
    (hremoved : info.removed = true) :
    ¬ Announced seen bot := by
  rintro ⟨said, ⟨earlier, c, message, later, rfl, hsaid, hbot, hlater⟩, hthere, -⟩
  obtain ⟨deed, hdeed, hinfo⟩ := Option.bind_eq_some_iff.mp h
  cases later using List.reverseRecOn with
  | nil =>
      rw [List.getLast?_append_cons, List.getLast?_singleton] at hdeed
      obtain rfl := Option.some.inj hdeed
      obtain rfl := Option.some.inj (hsaid.symm.trans hinfo)
      rw [hremoved] at hthere
      cases hthere
  | append_singleton later last =>
      rw [← List.cons_append, ← List.append_assoc, List.getLast?_concat] at hdeed
      obtain rfl := Option.some.inj hdeed
      refine (hlater last (List.mem_append_right _ List.mem_cons_self)).1 ?_
      cases last with
      | host c input => cases hinfo
      | line c message => exact ⟨info, hinfo, by rw [hnick]⟩

/-- A bot that is withdrawn after a `005` folds it otherwise stays in the registry. -/
def withdrawn : List Input :=
  [.connected, .bytes (Utf8.encode (("@obby.world/bot-info=" : Str) ++
    "eyJuaWNrIjoiYlsiLCJjb21tYW5kcyI6W3sibmFtZSI6ImhlbHAifSx7Im5hbWUiOiJPUEVSIn1dfQ==" ++
    " :s TAGMSG *\n:s 005 me CASEMAPPING=ascii :ok\n" ++
    "@obby.world/bot-info=eyJuaWNrIjoiYlsiLCJldmVudCI6InJlbW92ZSJ9 :s TAGMSG *\n"))]

theorem withdrawn_stays : letI := Primitives.payloads
    ¬ ∀ (key : Str) (bot : Bot), ((new (.new "me")).run withdrawn).bots.known[key]? = some bot →
      Announced ((new (.new "me")).deeds withdrawn) bot := by
  have hrun : letI := Primitives.payloads
      (((new (.new "me")).run withdrawn).bots.known[("b\x7b" : Str)]?).map (·.nick) =
          some ("b[" : Str) ∧
        (lastInfo ((new (.new "me")).deeds withdrawn)).map
          (fun info => (info.bot.nick, info.removed)) = some (("b[" : Str), true) := by
    decide +kernel
  obtain ⟨hbot, hlast⟩ := hrun
  intro h
  obtain ⟨bot, hfound, hnick⟩ := Option.map_eq_some_iff.mp hbot
  obtain ⟨info, hinfo, heq⟩ := Option.map_eq_some_iff.mp hlast
  obtain ⟨hname, hremoved⟩ := Prod.mk.inj heq
  exact @not_announced_of_removed Primitives.payloads _ _ _ hinfo (hname.trans hnick.symm) hremoved
    (h _ bot hfound)

end Client

end ObbyClient

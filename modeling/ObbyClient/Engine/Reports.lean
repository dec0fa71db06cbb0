import ObbyClient.Engine.Session
import ObbyClient.Lib.Maps
import ObbyClient.Lib.Rooms

/-!
# What lines say of channels

Of a channel the model holds its topic, its modes, who is in it and what was attached to it.  Each
line says something of these, or nothing, whatever the model holds.

* `Facts`, `Channel.facts` — what there is to know of a channel, but for what was said in it;
* `Remark`, `Facts.act` — the things that are said of a channel;
* `Session.reports` — what a line reports;
* `Session.apply_reports` — folding a line is hearing what it reports.
-/

namespace ObbyClient

open Rooms

/-! ### What there is to know of a channel -/

/-- What there is to know of a channel. -/
structure Facts where
  topic : Option Str
  topicBy : Option Str
  modes : Char → Option (Option Str)
  members : CaseFolded → Option Membership
  metadata : Str → Option Str
  namedModes : Str → Option (Option Str)

/-- Of a channel that was just entered, nothing is known. -/
def Facts.blank : Facts := ⟨none, none, fun _ => none, fun _ => none, fun _ => none, fun _ => none⟩

def Channel.facts (channel : Channel) : Facts where
  topic := channel.topic
  topicBy := channel.topicBy
  modes letter := channel.modes[letter]?
  members who := channel.members[who]?
  metadata key := channel.metadata[key]?
  namedModes name := channel.namedModes[name]?

/-- What is known of each channel. -/
def Model.facts (model : Model) (key : CaseFolded) : Option Facts :=
    (model.channel key).map Channel.facts

/-- Something that is said of a channel. -/
inductive Remark where
  | topic (text setter : Option Str)
  | topicReply (text : Option Str)
  | came (who : CaseFolded)
  | listed (who : CaseFolded) (prefixes : Str)
  | went (who : CaseFolded)
  | renamed (source dest : CaseFolded)
  | cleared
  | granted (who : CaseFolded) (c : Char) (order : Prefixes)
  | revoked (who : CaseFolded) (c : Char)
  | modeSet (letter : Char) (arg : Option Str)
  | modeUnset (letter : Char)
  | metadata (key : Str) (value : Option Str)
  | namedSet (name : Str) (param : Option Str)
  | namedUnset (name : Str)

/-- What is known once something was said. -/
def Facts.act (facts : Facts) : Remark → Facts
  | .topic text setter => { facts with topic := text, topicBy := setter }
  | .topicReply text => { facts with topic := text }
  | .came who =>
    { facts with
      members := Function.update facts.members who (some ((facts.members who).getD .default)) }
  | .listed who prefixes =>
      { facts with members := Function.update facts.members who (some ⟨prefixes⟩) }
  | .went who => { facts with members := Function.update facts.members who none }
  | .renamed source dest =>
    match facts.members source with
    | none => facts
    | some member =>
      { facts with
        members := Function.update (Function.update facts.members source none) dest (some member) }
  | .cleared => { facts with members := fun _ => none }
  | .granted who c order =>
    { facts with
      members := Function.update facts.members who ((facts.members who).map (·.grant c order)) }
  | .revoked who c =>
    { facts with
      members := Function.update facts.members who ((facts.members who).map (·.revoke c)) }
  | .modeSet letter arg => { facts with modes := Function.update facts.modes letter (some arg) }
  | .modeUnset letter => { facts with modes := Function.update facts.modes letter none }
  | .metadata key value => { facts with metadata := Function.update facts.metadata key value }
  | .namedSet name param =>
      { facts with namedModes := Function.update facts.namedModes name (some param) }
  | .namedUnset name => { facts with namedModes := Function.update facts.namedModes name none }

/-! ### The maps as functions -/

section Maps

variable {κ β : Type} [Ord κ] [Std.TransOrd κ] [Std.LawfulEqOrd κ] [DecidableEq κ]
  (map : Std.ExtTreeMap κ β) (key : κ)

theorem getElem?_insert_update (value : β) :
    (fun other => (map.insert key value)[other]?) =
      Function.update (fun other => map[other]?) key (some value) := by
  funext other
  simp only [Maps.getElem?_insert_ite, Function.update_apply]

theorem getElem?_erase_update :
    (fun other => (map.erase key)[other]?) =
      Function.update (fun other => map[other]?) key none := by
  funext other
  simp only [Maps.getElem?_erase_ite, Function.update_apply]

omit [Std.LawfulEqOrd κ] [DecidableEq κ] in
theorem getElem?_empty : (fun other : κ => (∅ : Std.ExtTreeMap κ β)[other]?) = fun _ => none := by
  funext other
  simp

end Maps

namespace Model

theorem facts_of_channels {model after : Model} (h : after.channels = model.channels) :
    after.facts = model.facts := by
  funext key
  simp only [facts, channel, h]

theorem facts_setChannel (model : Model) (key : CaseFolded) (channel : Channel) :
    (model.setChannel key channel).facts =
      Function.update model.facts key (some channel.facts) := by
  funext other
  simp only [facts, setChannel, Model.channel, Maps.getElem?_insert_ite, Function.update_apply]
  split <;> rfl

/-- To put back what was there changes nothing. -/
theorem facts_setChannel_same {model : Model} {key : CaseFolded} {old channel : Channel}
    (hold : model.channel key = some old) (hfacts : channel.facts = old.facts) :
    (model.setChannel key channel).facts = model.facts := by
  rw [facts_setChannel, hfacts]
  apply Function.update_eq_self_iff.mpr
  simp [facts, hold]

theorem facts_removeChannel (model : Model) (key : CaseFolded) :
    (model.removeChannel key).facts = Function.update model.facts key none := by
  funext other
  simp only [facts, removeChannel, channel, Maps.getElem?_erase_ite, Function.update_apply]
  split <;> rfl

theorem facts_channelMut (model : Model) (key : CaseFolded) (f : Channel → Channel) :
    (model.channelMut key f).facts =
      Function.update model.facts key ((model.channel key).map fun channel =>
        (f channel).facts) := by
  funext other
  simp only [facts, channelMut, channel, Maps.getElem?_modify_ite, Function.update_apply]
  split
  · simp [Function.comp_def]
  · rfl

theorem facts_channels_map (model : Model) (f : Channel → Channel) :
    Model.facts { model with channels := model.channels.map fun _ channel => f channel } =
      fun key => (model.channel key).map fun channel => (f channel).facts := by
  funext key
  simp [facts, channel, Std.ExtTreeMap.getElem?_map, Function.comp_def]

theorem facts_logMut (model : Model) (key : CaseFolded) (f : MessageLog → MessageLog) :
    (model.logMut key f).facts = model.facts := by
  unfold logMut
  split
  · rename_i channel hchannel
    rw [facts_channelMut]
    apply Function.update_eq_self_iff.mpr
    rfl
  · rfl

/-- A change to one channel is one remark on it, where it changes the facts as the remark does. -/
theorem facts_channelMut_act {f : Channel → Channel} {remark : Remark} (model : Model)
    (key : CaseFolded)
    (h : ∀ channel, (f channel).facts = channel.facts.act remark) :
    (model.channelMut key f).facts = hear .blank Facts.act model.facts (.said key remark) := by
  simp only [facts_channelMut, h, hear, facts, Option.map_map, Function.comp_def]

/-- So is a change to all channels. -/
theorem facts_channels_map_act {f : Channel → Channel} {remark : Remark} (model : Model)
    (h : ∀ channel, (f channel).facts = channel.facts.act remark) :
    Model.facts { model with channels := model.channels.map fun _ channel => f channel } =
      hear .blank Facts.act model.facts (.everywhere remark) := by
  rw [facts_channels_map]
  funext key
  simp [h, hear, facts, Function.comp_def]

end Model

/-! ### What each change says -/

namespace Channel

variable (channel : Channel)

theorem facts_insert_member (who : CaseFolded) (member : Membership) :
    { channel with members := channel.members.insert who member }.facts =
      { channel.facts with
        members := Function.update channel.facts.members who (some member) } := by
  simp only [facts, getElem?_insert_update]

theorem facts_erase_member (who : CaseFolded) :
    { channel with members := channel.members.erase who }.facts =
      channel.facts.act (.went who) := by
  simp only [facts, getElem?_erase_update, Facts.act]

theorem facts_renameMember (source dest : CaseFolded) :
    { channel with members := Model.renameMember channel.members source dest }.facts =
      channel.facts.act (.renamed source dest) := by
  simp only [facts, Facts.act, Model.renameMember]
  cases channel.members[source]? with
  | none => rfl
  | some member => simp only [getElem?_insert_update, getElem?_erase_update]

theorem facts_storeMetadata (key : Str) (value : Option Str) :
    { channel with metadata := Session.storeMetadata key value channel.metadata }.facts =
      channel.facts.act (.metadata key value) := by
  cases value with
  | none => simp only [Session.storeMetadata, facts, getElem?_erase_update, Facts.act]
  | some value => simp only [Session.storeMetadata, facts, getElem?_insert_update, Facts.act]

end Channel

namespace Session

/-! ### What lines report -/

/-- What one entry of a `PROP` says. -/
def namedRemark : Str → Option Remark
  | '+' :: rest =>
    match splitOnce '=' rest with
    | some (name, param) => some (.namedSet name (some param))
    | none => some (.namedSet rest none)
  | '-' :: name => some (.namedUnset (before '=' name))
  | _ => none

/-- What one letter of a `MODE` says. -/
def modeRemark (i : Isupport) (change : ModeChange) : Option Remark :=
  if change.membership then
    match change.arg, i.prefixes.charForMode change.mode with
    | some nick, some c =>
      if change.set then some (.granted (i.fold nick) c i.prefixes)
      else some (.revoked (i.fold nick) c)
    | _, _ => none
  else if change.set then some (.modeSet change.mode change.arg)
  else some (.modeUnset change.mode)

/-- What one entry of a `NAMES` reply says. -/
def namesRemark (i : Isupport) (entry : Str) : Option Remark :=
  let (prefixes, rest) := i.prefixes.split entry
  let nick := before '!' rest
  if nick = [] then none else some (.listed (i.fold nick) prefixes)

/-- Somebody enters a channel, maybe we. -/
def joinReport (i : Isupport) (me who channel : Str) : Report CaseFolded Remark :=
  if i.casemapping.eq me who then .entered (i.fold channel)
  else .said (i.fold channel) (.came (i.fold who))

/-- Somebody leaves a channel, maybe we. -/
def leaveReport (i : Isupport) (me who channel : Str) : Report CaseFolded Remark :=
  if i.casemapping.eq me who then .left (i.fold channel)
  else .said (i.fold channel) (.went (i.fold who))

def kickReports (i : Isupport) (me : Str) (line : Message) : List (Report CaseFolded Remark) :=
  match line.param 0, line.param 1 with
  | some name, some target => [leaveReport i me target name]
  | _, _ => []

def movedReports (i : Isupport) (line : Message) : List (Report CaseFolded Remark) :=
  match line.param 0, line.param 1 with
  | some source, some dest => [.moved (i.fold source) (i.fold dest)]
  | _, _ => []

/-- A row of a WHO reply names a channel and somebody's flags there. -/
def rowReports (i : Isupport) (channel nick flags : Str) : List (Report CaseFolded Remark) :=
  if i.isChannel channel then
    [.said (i.fold channel) (.listed (i.fold nick) (flags.filter fun c =>
      (i.prefixes.rank c).isSome))]
  else []

def whoReports (i : Isupport) (line : Message) : List (Report CaseFolded Remark) :=
  match line.param 1, line.param 2, line.param 3, line.param 5, line.param 6 with
  | some channel, some _, some _, some nick, some flags => rowReports i channel nick flags
  | _, _, _, _, _ => []

def whoxReports (i : Isupport) (line : Message) : List (Report CaseFolded Remark) :=
  if line.param 1 ≠ some whoxToken then []
  else
    match line.param 2, line.param 3, line.param 4, line.param 5, line.param 6, line.param 7 with
    | some channel, some _, some _, some nick, some flags, some _ => rowReports i channel nick flags
    | _, _, _, _, _, _ => []

def metadataReports (i : Isupport) (me : Str) (line : Message) (offset : ℕ) :
    List (Report CaseFolded Remark) :=
  match line.param offset, line.param (offset + 1) with
  | some target, some key =>
    let target := if target = "*" then me else target
    if i.isChannel target then
      [.said (i.fold target) (.metadata key ((line.param (offset + 3)).filter fun _ =>
        !line.is "766"))]
    else []
  | _, _ => []

/-- The remarks on one channel. -/
def remarksOn (i : Isupport) (channel : Option Str) (remarks : List Remark) :
    List (Report CaseFolded Remark) :=
  match channel with
  | none => []
  | some name => remarks.map (.said (i.fold name))

/-- What a line reports of channels, to somebody with this nick. -/
def reports (i : Isupport) (me : Str) (line : Message) : List (Report CaseFolded Remark) :=
  let command := toAsciiUppercase line.command
  if command = "PRIVMSG" ∨ command = "NOTICE" ∨ command = "TAGMSG" then []
  else if command = "JOIN" then
    (line.param 0).toList.map (joinReport i me (sender line))
  else if command = "PART" then (line.param 0).toList.map (leaveReport i me (sender line))
  else if command = "QUIT" then [.everywhere (.went (i.fold (sender line)))]
  else if command = "KICK" then kickReports i me line
  else if command = "NICK" then
    (line.param 0).toList.map fun dest =>
      .everywhere (.renamed (i.fold (sender line)) (i.fold dest))
  else if command = "RENAME" then movedReports i line
  else if command = "TOPIC" then
    remarksOn i (line.param 0) [.topic (topicText (line.param 1)) (some (sender line))]
  else if command = "MODE" then
    if (line.param 0).any i.isChannel then
      remarksOn i (line.param 0)
        ((parseChannelModes i (line.params.drop 1)).filterMap (modeRemark i))
    else []
  else if command = "332" then remarksOn i (line.param 1) [.topicReply (topicText (line.param 2))]
  else if command = "MARKREAD" then []
  else if command = "REDACT" then []
  else if command = "AWAY" then []
  else if command = "ACCOUNT" then []
  else if command = "METADATA" then metadataReports i me line 0
  else if command = "760" ∨ command = "761" ∨ command = "766" then metadataReports i me line 1
  else if isWhois command then []
  else if command = "353" then
    remarksOn i (line.param 2) ((splitWhitespace (line.trailing.getD [])).filterMap (namesRemark i))
  else if command = "352" then whoReports i line
  else if command = "354" then whoxReports i line
  else if command = "PROP" then remarksOn i (line.param 0)
    ((line.params.drop 1).filterMap namedRemark)
  else if command = "961" then
    remarksOn i (line.param 1)
      ((((line.params.drop 2).flatMap splitWhitespace).map ('+' :: ·)).filterMap namedRemark)
  else []

/-! ### What folding a line does -/

/-- The model comes to know what the line reports, and no more. -/
def Reported (ctx : Context) (reports : List (Report CaseFolded Remark)) (result : Result) : Prop :=
  result.1.model.facts = reports.foldl (hear .blank Facts.act) ctx.model.facts

theorem reported_nil {ctx : Context} {result : Result}
    (h : result.1.model.channels = ctx.model.channels) :
    Reported ctx [] result := Model.facts_of_channels h

theorem reported_ite {c : Prop} [Decidable c] {ctx : Context}
    {told told' : List (Report CaseFolded Remark)}
    {result result' : Result} (hthen : c → Reported ctx told result)
    (helse : ¬c → Reported ctx told' result') :
    Reported ctx (if c then told else told') (if c then result else result') := by
  split
  · rename_i h
    exact hthen h
  · rename_i h
    exact helse h

/-- A line about a channel we are in. -/
theorem reported_remarksOn {ctx : Context} {name : Str} {result : Result} (remarks : List Remark)
    (hout : ctx.model.channel (ctx.fold name) = none → result.1.model.facts = ctx.model.facts)
    (hin : ∀ channel, ctx.model.channel (ctx.fold name) = some channel → result.1.model.facts =
      Function.update ctx.model.facts (ctx.fold name)
        (some (remarks.foldl Facts.act channel.facts))) :
    Reported ctx (remarksOn ctx.isupport (some name) remarks) result := by
  unfold Reported remarksOn
  rw [foldl_said]
  have hfold : ctx.isupport.fold name = ctx.fold name := rfl
  rw [hfold]
  cases hchannel : ctx.model.channel (ctx.fold name) with
  | none =>
    rw [hout hchannel]
    refine (Function.update_eq_self_iff.mpr ?_).symm
    simp [Model.facts, hchannel]
  | some channel =>
    rw [hin channel hchannel]
    simp [Model.facts, hchannel]

theorem message_reported [Primitives] (ctx : Context) (line : Message) (command : Str) :
    Reported ctx [] (message ctx line command) := by
  have hfile : ∀ target, Reported ctx [] (file ctx line command target) := by
    intro target
    unfold file
    dsimp only
    split
    · split
      · exact reported_nil rfl
      · rename_i channel hchannel
        exact Model.facts_setChannel_same hchannel rfl
    · exact reported_nil rfl
  unfold message
  split
  · exact reported_nil rfl
  · split
    · split
      · rename_i result hreaction
        obtain ⟨target, msgid, f, rfl⟩ := reaction_eq_some hreaction
        exact Model.facts_logMut ..
      · split
        · rename_i result hpreview
          obtain rfl | ⟨name, msgid, held, f, hf, -, rfl⟩ := linkPreview_eq_some hpreview
          · exact reported_nil rfl
          · exact Model.facts_logMut ..
        · exact hfile _
    · exact hfile _

theorem facts_new (name : Str) (retention : ℕ) : (Channel.new name retention).facts = .blank := by
  simp only [Channel.facts, Channel.new, getElem?_empty, Facts.blank]

theorem facts_channelOrInsert (model : Model) (key : CaseFolded) (name : Str) :
    (model.channelOrInsert key name).facts = hear .blank Facts.act model.facts (.entered key) := by
  simp only [Model.channelOrInsert, Model.facts_setChannel, hear, Model.channelOr, Model.facts]
  cases model.channel key with
  | none => simp [facts_new]
  | some channel => rfl

theorem join_reported (ctx : Context) (line : Message) :
    Reported ctx ((line.param 0).toList.map
      (joinReport ctx.isupport ctx.model.me.nick (sender line)))
      (join ctx line) := by
  unfold join
  cases line.param 0 with
  | none => exact reported_nil rfl
  | some name =>
    show Reported ctx [joinReport _ _ _ _] _
    unfold joinReport
    by_cases hme : ctx.isMe (sender line) = true
    · rw [if_pos (show ctx.isupport.casemapping.eq _ _ = true from hme)]
      dsimp only
      rw [if_pos hme]
      exact facts_channelOrInsert ..
    · rw [if_neg (show ¬ctx.isupport.casemapping.eq _ _ = true from hme)]
      dsimp only
      rw [if_neg hme]
      apply reported_remarksOn [.came (ctx.fold (sender line))]
      · intro hout
        simp [hout]
      · intro channel hchannel
        simp only [hchannel]
        show Model.facts (Model.setChannel _ _ _) = _
        rw [Model.facts_setChannel, Channel.facts_insert_member]
        rfl

theorem leave_reported (ctx : Context) (name who : Str) :
    Reported ctx [leaveReport ctx.isupport ctx.model.me.nick who name]
      (if ctx.isMe who then
        (ctx.withModel (ctx.model.removeChannel (ctx.fold name)), [.channelParted name])
      else (leave ctx (ctx.fold name) (ctx.fold who), [.channelMembersChanged name])) := by
  unfold leaveReport
  by_cases hme : ctx.isMe who = true
  · rw [if_pos (show ctx.isupport.casemapping.eq _ _ = true from hme), if_pos hme]
    exact Model.facts_removeChannel ..
  · rw [if_neg (show ¬ctx.isupport.casemapping.eq _ _ = true from hme), if_neg hme]
    exact Model.facts_channelMut_act _ _ fun channel => channel.facts_erase_member _

theorem part_reported (ctx : Context) (line : Message) :
    Reported ctx ((line.param 0).toList.map
      (leaveReport ctx.isupport ctx.model.me.nick (sender line)))
      (part ctx line) := by
  unfold part
  cases line.param 0 with
  | none => exact reported_nil rfl
  | some name => exact leave_reported ctx name (sender line)

theorem quit_reported (ctx : Context) (line : Message) :
    Reported ctx [.everywhere (.went (ctx.isupport.fold (sender line)))] (quit ctx line) :=
  Model.facts_channels_map_act _ fun channel => channel.facts_erase_member _

theorem nick_reported (ctx : Context) (line : Message) :
    Reported ctx ((line.param 0).toList.map fun dest =>
      .everywhere (.renamed (ctx.isupport.fold (sender line)) (ctx.isupport.fold dest)))
        (nick ctx line) := by
  unfold nick
  cases line.param 0 with
  | none => exact reported_nil rfl
  | some dest =>
    exact Model.facts_channels_map_act ctx.model fun channel => channel.facts_renameMember _ _

theorem facts_renameChannel (model : Model) (casemapping : Casemapping) (source dest : Str) :
    ((model.renameChannel casemapping source dest).getD model).facts =
      hear .blank Facts.act model.facts
        (.moved (casemapping.fold source) (casemapping.fold dest)) := by
  unfold Model.renameChannel
  cases hsource : model.channel (casemapping.fold source) with
  | none =>
    have hnone : model.facts (casemapping.fold source) = none := by simp [Model.facts, hsource]
    simp only [hear, hnone, Option.map_none, Option.getD_none]
  | some channel =>
    have hsome : model.facts (casemapping.fold source) = some channel.facts := by
      simp [Model.facts, hsource]
    simp only [hear, hsome, Option.map_some, Option.getD_some, Model.facts_setChannel,
      Model.facts_removeChannel]
    rfl

theorem renameChannel_reported (ctx : Context) (line : Message) :
    Reported ctx (movedReports ctx.isupport line) (renameChannel ctx line) := by
  unfold renameChannel movedReports
  cases line.param 0 with
  | none => exact reported_nil rfl
  | some source =>
    cases line.param 1 with
    | none => exact reported_nil rfl
    | some dest =>
      have hmoved := facts_renameChannel ctx.model ctx.casemapping source dest
      unfold Reported
      dsimp only
      cases hmodel : ctx.model.renameChannel ctx.casemapping source dest with
      | none =>
        rw [hmodel] at hmoved
        exact hmoved
      | some model =>
        rw [hmodel] at hmoved
        exact hmoved

theorem kick_reported (ctx : Context) (line : Message) :
    Reported ctx (kickReports ctx.isupport ctx.model.me.nick line) (kick ctx line) := by
  unfold kick kickReports
  cases line.param 0 with
  | none => exact reported_nil rfl
  | some name =>
    cases line.param 1 with
    | none => exact reported_nil rfl
    | some target => exact leave_reported ctx name target

theorem personChanged_reported (ctx : Context) (line : Message) (change : Person → Person) :
    Reported ctx [] (personChanged ctx line change) := by
  apply reported_nil
  unfold personChanged
  dsimp only
  split <;> rfl

theorem metadata_reported (ctx : Context) (line : Message) (offset : ℕ) :
    Reported ctx (metadataReports ctx.isupport ctx.model.me.nick line offset)
      (metadata ctx line offset) := by
  unfold metadata metadataReports
  cases line.param offset with
  | none => exact reported_nil rfl
  | some target =>
    cases line.param (offset + 1) with
    | none => exact reported_nil rfl
    | some key =>
      dsimp only
      generalize (if target = "*" then ctx.model.me.nick else target) = target
      refine reported_ite (fun _ => ?_) fun _ => ?_
      · apply reported_remarksOn [.metadata key _]
        · intro hout
          rw [hout]
        · intro channel hchannel
          rw [hchannel]
          show Model.facts (Model.channelMut _ _ _) = _
          rw [Model.facts_channelMut, hchannel, Option.map_some, Channel.facts_storeMetadata]
          rfl
      · apply reported_nil
        split <;> rfl

theorem whois_reported (ctx : Context) (line : Message) (command : Str) :
    Reported ctx [] (whois ctx line command) := by
  apply reported_nil
  unfold whois
  split
  · rfl
  · dsimp only
    split
    · split <;> rfl
    · rfl

theorem redact_reported (ctx : Context) (line : Message) : Reported ctx [] (redact ctx line) := by
  unfold redact
  split
  · dsimp only
    split
    · exact reported_nil rfl
    · exact Model.facts_logMut ..
  · exact reported_nil rfl

theorem markRead_reported (ctx : Context) (line : Message) :
    Reported ctx [] (markRead ctx line) := by
  unfold markRead
  split
  · dsimp only
    split
    · rename_i channel hchannel
      exact Model.facts_setChannel_same hchannel rfl
    · exact reported_nil rfl
    · exact reported_nil rfl
  · exact reported_nil rfl

/-! ### Lists of remarks -/

theorem channelMode_facts (i : Isupport) (channel : Channel) (change : ModeChange) :
    (channelMode i channel change).1.facts =
      ((modeRemark i change).map channel.facts.act).getD channel.facts := by
  unfold channelMode modeRemark
  by_cases hmembership : change.membership = true
  · rw [if_pos hmembership, if_pos hmembership]
    cases change.arg with
    | none => rfl
    | some nick =>
      cases i.prefixes.charForMode change.mode with
      | none => rfl
      | some c =>
        dsimp only
        cases hmember : channel.members[i.fold nick]? with
        | none =>
          have hnone : channel.facts.members (i.fold nick) = none := hmember
          have hsame : Function.update channel.facts.members (i.fold nick) none =
            channel.facts.members :=
            Function.update_eq_self_iff.mpr hnone.symm
          cases change.set <;> simp [Facts.act, hnone, hsame]
        | some member =>
          have hsome : channel.facts.members (i.fold nick) = some member := hmember
          dsimp only
          rw [Channel.facts_insert_member]
          cases change.set <;> simp [Facts.act, hsome]
  · rw [if_neg hmembership, if_neg hmembership]
    split
    · simp only [Channel.facts, getElem?_insert_update, Option.map_some, Option.getD_some,
        Facts.act]
    · simp only [Channel.facts, getElem?_erase_update, Option.map_some, Option.getD_some, Facts.act]

theorem channelModes_facts (i : Isupport) (channel : Channel) (changes : List ModeChange) :
    (channelModes i channel changes).1.facts =
      (changes.filterMap (modeRemark i)).foldl Facts.act channel.facts := by
  unfold channelModes
  generalize false = touched
  induction changes generalizing channel touched with
  | nil => rfl
  | cons change changes ih =>
    rw [List.foldl_cons, ih, channelMode_facts, List.filterMap_cons]
    cases modeRemark i change <;> rfl

theorem mode_reported (ctx : Context) (line : Message) :
    Reported ctx (if (line.param 0).any ctx.isupport.isChannel then
      remarksOn ctx.isupport (line.param 0)
        ((parseChannelModes ctx.isupport (line.params.drop 1)).filterMap (modeRemark ctx.isupport))
      else []) (mode ctx line) := by
  unfold mode
  cases line.param 0 with
  | none => exact reported_nil rfl
  | some name =>
    rw [Option.any_some]
    dsimp only
    by_cases hname : ctx.isupport.isChannel name = true
    · rw [if_pos hname, if_neg (by simp [hname])]
      apply reported_remarksOn _
      · intro hout
        rw [hout]
      · intro channel hchannel
        rw [hchannel]
        show Model.facts (Model.setChannel _ _ _) = _
        rw [Model.facts_setChannel, channelModes_facts]
    · rw [if_neg hname, if_pos (by simp [hname])]
      exact reported_nil rfl

theorem facts_namedMode (modes : Std.ExtTreeMap Str (Option Str)) (facts : Facts) (entry : Str) :
    { facts with namedModes := fun name => (namedMode modes entry)[name]? } =
      ((namedRemark entry).map (Facts.act
        { facts with namedModes := fun name => modes[name]? })).getD
        { facts with namedModes := fun name => modes[name]? } := by
  fun_cases namedRemark entry with
  | case1 rest name param hsplit =>
    simp only [namedMode, hsplit, getElem?_insert_update, Option.map_some, Option.getD_some,
      Facts.act]
  | case2 rest hsplit =>
    simp only [namedMode, hsplit, getElem?_insert_update, Option.map_some, Option.getD_some,
      Facts.act]
  | case3 name => simp only [namedMode, getElem?_erase_update, Option.map_some, Option.getD_some,
      Facts.act]
  | case4 _ hplus hminus =>
    rw [namedMode]
    · rfl
    · exact hplus
    · exact hminus

theorem namedModes_facts (channel : Channel) (entries : List Str) :
    { channel with namedModes := entries.foldl namedMode channel.namedModes }.facts =
      (entries.filterMap namedRemark).foldl Facts.act channel.facts := by
  suffices hfold : ∀ (modes : Std.ExtTreeMap Str (Option Str)) (facts : Facts),
      { facts with namedModes := fun name => (entries.foldl namedMode modes)[name]? } =
        (entries.filterMap namedRemark).foldl Facts.act
          { facts with namedModes := fun name => modes[name]? } from
    hfold channel.namedModes channel.facts
  intro modes facts
  induction entries generalizing modes facts with
  | nil => rfl
  | cons entry entries ih =>
    rw [List.foldl_cons, ih, facts_namedMode, List.filterMap_cons]
    cases namedRemark entry <;> rfl

theorem applyNamed_reported (ctx : Context) (name : Str) (entries : List Str) :
    Reported ctx (remarksOn ctx.isupport (some name) (entries.filterMap namedRemark))
      (applyNamed ctx name entries) := by
  apply reported_remarksOn _
  · intro hout
    simp [applyNamed, hout]
  · intro channel hchannel
    simp only [applyNamed, hchannel]
    rw [Context.channelMut, Context.withModel, Model.facts_channelMut, hchannel, Option.map_some,
      namedModes_facts]

theorem topic_reported (ctx : Context) (line : Message) :
    Reported ctx (remarksOn ctx.isupport (line.param 0)
      [.topic (topicText (line.param 1)) (some (sender line))])
      (topic ctx line) := by
  unfold topic
  cases line.param 0 with
  | none => exact reported_nil rfl
  | some name =>
    apply reported_remarksOn _
    · intro hout
      simp [hout]
    · intro channel hchannel
      simp only [hchannel]
      rw [Context.channelMut, Context.withModel, Model.facts_channelMut, hchannel]
      rfl

theorem topicReply_reported (ctx : Context) (line : Message) :
    Reported ctx (remarksOn ctx.isupport (line.param 1) [.topicReply (topicText (line.param 2))])
      (topicReply ctx line) := by
  unfold topicReply
  cases line.param 1 with
  | none => exact reported_nil rfl
  | some name =>
    apply reported_remarksOn _
    · intro hout
      simp [hout]
    · intro channel hchannel
      simp only [hchannel]
      rw [Context.channelMut, Context.withModel, Model.facts_channelMut, hchannel]
      rfl

/-- The entries of a NAMES reply, up to one that finds no channel: the others would not either. -/
theorem namesLoop_facts (i : Isupport) (folded : CaseFolded) (model : Model) (entries : List Str) :
    (namesLoop i folded model entries).1.facts =
      ((entries.filterMap (namesRemark i)).map (Report.said folded)).foldl (hear .blank Facts.act)
        model.facts := by
  induction entries generalizing model with
  | nil => rfl
  | cons entry entries ih =>
    unfold namesLoop namesRemark
    rw [List.filterMap_cons]
    cases i.prefixes.split entry with
    | mk prefixes rest =>
      dsimp only
      by_cases hnick : before '!' rest = []
      · rw [if_pos hnick, if_pos hnick]
        exact ih model
      · rw [if_neg hnick, if_neg hnick]
        cases hchannel : model.channel folded with
        | none =>
          have hnone : model.facts folded = none := by simp [Model.facts, hchannel]
          rw [foldl_said, hnone]
          exact (Function.update_eq_self_iff.mpr hnone.symm).symm
        | some channel =>
          have hsome : model.facts folded = some channel.facts := by simp [Model.facts, hchannel]
          dsimp only
          rw [ih, Model.facts_setChannel, Channel.facts_insert_member, List.map_cons,
            List.foldl_cons]
          congr 1
          simp only [hear, hsome]
          rfl

theorem names_reported (ctx : Context) (line : Message) :
    Reported ctx (remarksOn ctx.isupport (line.param 2)
      ((splitWhitespace (line.trailing.getD [])).filterMap (namesRemark ctx.isupport)))
        (names ctx line) := by
  unfold names
  cases line.param 2 with
  | none => exact reported_nil rfl
  | some name => exact namesLoop_facts ..

theorem applyWho_reported (ctx : Context) (row : WhoRow) :
    Reported ctx (rowReports ctx.isupport row.channel row.nick row.flags) (applyWho ctx row) := by
  unfold applyWho rowReports
  cases hname : ctx.isupport.isChannel row.channel with
  | false =>
    have hnot : (!(ctx.withModel (ctx.model.personOrInsert (ctx.fold row.nick) row.nick
        (whoPerson row))).isupport.isChannel row.channel) = true := by
      rw [Bool.not_eq_true']
      exact hname
    dsimp only
    rw [if_pos hnot]
    exact reported_nil rfl
  | true =>
    have hnot : ¬(!(ctx.withModel (ctx.model.personOrInsert (ctx.fold row.nick) row.nick
        (whoPerson row))).isupport.isChannel row.channel) = true := by
      rw [Bool.not_eq_true', Bool.not_eq_false]
      exact hname
    dsimp only
    rw [if_neg hnot]
    apply reported_remarksOn [.listed _ _]
    · intro hout
      split
      · rfl
      · rename_i channel hchannel
        exact absurd (hout.symm.trans hchannel) nofun
    · intro channel hchannel
      split
      · rename_i hout
        exact absurd (hchannel.symm.trans hout) nofun
      · show Model.facts (Model.channelMut _ _ _) = _
        rw [Model.facts_channelMut]
        show Function.update ctx.model.facts _ ((ctx.model.channel (ctx.fold row.channel)).map _) =
          _
        rw [hchannel, Option.map_some, Channel.facts_insert_member]
        rfl

theorem whoReply_reported (ctx : Context) (line : Message) :
    Reported ctx (whoReports ctx.isupport line) (whoReply ctx line) := by
  unfold whoReply whoReports
  cases line.param 1 <;> cases line.param 2 <;> cases line.param 3 <;> cases line.param 5 <;>
    cases line.param 6 <;> first | exact reported_nil rfl | exact applyWho_reported ..

theorem whoxReply_reported (ctx : Context) (line : Message) :
    Reported ctx (whoxReports ctx.isupport line) (whoxReply ctx line) := by
  unfold whoxReply whoxReports
  refine reported_ite (fun _ => reported_nil rfl) fun _ => ?_
  cases line.param 2 <;> cases line.param 3 <;> cases line.param 4 <;> cases line.param 5 <;>
    cases line.param 6 <;> cases line.param 7 <;>
      first | exact reported_nil rfl | exact applyWho_reported ..

theorem prop_reported (ctx : Context) (line : Message) :
    Reported ctx (remarksOn ctx.isupport (line.param 0)
      ((line.params.drop 1).filterMap namedRemark))
      (prop ctx line) := by
  unfold prop
  cases line.param 0 with
  | none => exact reported_nil rfl
  | some name => exact applyNamed_reported ..

theorem propList_reported (ctx : Context) (line : Message) :
    Reported ctx (remarksOn ctx.isupport (line.param 1)
      ((((line.params.drop 2).flatMap splitWhitespace).map ('+' :: ·)).filterMap namedRemark))
      (propList ctx line) := by
  unfold propList
  cases line.param 1 with
  | none => exact reported_nil rfl
  | some name => exact applyNamed_reported ..

/-- **To fold a line is to hear what it reports.** -/
theorem apply_reports [Primitives] (ctx : Context) (line : Message) :
    (apply ctx line).1.model.facts =
      (reports ctx.isupport ctx.model.me.nick line).foldl (hear .blank Facts.act)
        ctx.model.facts := by
  show Reported ctx (reports ctx.isupport ctx.model.me.nick line) (apply ctx line)
  unfold apply reports
  dsimp only
  refine reported_ite (fun _ => message_reported ..) fun _ => ?_
  refine reported_ite (fun _ => join_reported ..) fun _ => ?_
  refine reported_ite (fun _ => part_reported ..) fun _ => ?_
  refine reported_ite (fun _ => quit_reported ..) fun _ => ?_
  refine reported_ite (fun _ => kick_reported ..) fun _ => ?_
  refine reported_ite (fun _ => nick_reported ..) fun _ => ?_
  refine reported_ite (fun _ => renameChannel_reported ..) fun _ => ?_
  refine reported_ite (fun _ => topic_reported ..) fun _ => ?_
  refine reported_ite (fun _ => mode_reported ..) fun _ => ?_
  refine reported_ite (fun _ => topicReply_reported ..) fun _ => ?_
  refine reported_ite (fun _ => markRead_reported ..) fun _ => ?_
  refine reported_ite (fun _ => redact_reported ..) fun _ => ?_
  refine reported_ite (fun _ => personChanged_reported ..) fun _ => ?_
  refine reported_ite (fun _ => personChanged_reported ..) fun _ => ?_
  refine reported_ite (fun _ => metadata_reported ..) fun _ => ?_
  refine reported_ite (fun _ => metadata_reported ..) fun _ => ?_
  refine reported_ite (fun _ => whois_reported ..) fun _ => ?_
  refine reported_ite (fun _ => names_reported ..) fun _ => ?_
  refine reported_ite (fun _ => whoReply_reported ..) fun _ => ?_
  refine reported_ite (fun _ => whoxReply_reported ..) fun _ => ?_
  refine reported_ite (fun _ => prop_reported ..) fun _ => ?_
  exact reported_ite (fun _ => propList_reported ..) fun _ => reported_nil rfl

end Session

end ObbyClient

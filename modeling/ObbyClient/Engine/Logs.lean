import ObbyClient.Engine.Agreement
import ObbyClient.Engine.Deeds
import ObbyClient.Engine.Renaming
import ObbyClient.Lib.Records

/-!
# What becomes of messages

Lines file messages, attach things to them, strike them out, move whole logs and drop them.

* `ChatMessage.Revised` — what may change about a message once it is held;
* `MessageLog.Amends`, `Model.Keeps` — a log, and a model, that take no message in;
* `Session.apply_keeps` — every line keeps what is held, or files one message;
* `Client.Abides` — what lines, and changes that file nothing, keep of a model; a run keeps it too.
-/

namespace ObbyClient

/-! ### Messages and logs -/

/-- A message as it may stand later: only what others attach to it changes, and what is struck out
stays so. -/
structure ChatMessage.Revised (before after : ChatMessage) : Prop where
  same : after = { before with
    reactions := after.reactions
    linkPreview := after.linkPreview
    redacted := after.redacted }
  redacted : before.redacted = true → after.redacted = true

namespace ChatMessage.Revised

theorem refl (message : ChatMessage) : message.Revised message := ⟨rfl, id⟩

theorem trans {a b c : ChatMessage} (h : a.Revised b) (h' : b.Revised c) : a.Revised c := by
  refine ⟨?_, fun hstruck => h'.redacted (h.redacted hstruck)⟩
  rw [h'.same, h.same]

theorem key {a b : ChatMessage} (h : a.Revised b) : b.key = a.key := by rw [h.same]

theorem msgid {a b : ChatMessage} (h : a.Revised b) : b.msgid = a.msgid := by rw [h.same]

theorem react (adding : Bool) (emoji who : Str) (message : ChatMessage) :
    message.Revised (Session.react adding emoji who message) := by
  unfold Session.react
  split
  · exact ⟨rfl, id⟩
  · exact ⟨rfl, id⟩

end ChatMessage.Revised

/-- A log that holds nothing but what it held, each message under its own key still. -/
structure MessageLog.Amends (before after : MessageLog) : Prop where
  retention : after.retention = before.retention
  size : after.messages.size ≤ before.messages.size
  indexed : before.Indexed → after.Indexed
  held : ∀ key message, after.getByKey key = some message →
    ∃ old, before.getByKey key = some old ∧ old.Revised message

namespace MessageLog.Amends

theorem refl (log : MessageLog) : log.Amends log :=
  ⟨rfl, le_rfl, id, fun _ message h => ⟨message, h, .refl message⟩⟩

theorem trans {a b c : MessageLog} (h : a.Amends b) (h' : b.Amends c) : a.Amends c := by
  refine ⟨h'.retention.trans h.retention, h'.size.trans h.size, fun ha =>
    h'.indexed (h.indexed ha), ?_⟩
  intro key message hmessage
  obtain ⟨middle, hmiddle, hrevised⟩ := h'.held key message hmessage
  obtain ⟨old, hold, hrevised'⟩ := h.held key middle hmiddle
  exact ⟨old, hold, hrevised'.trans hrevised⟩

/-- A change by id. -/
theorem modify (log : MessageLog) (msgid : Str) {f : ChatMessage → ChatMessage}
    {hf : ∀ message, (f message).key = message.key}
    (hrevised : ∀ message : ChatMessage, message.Revised (f message)) :
    log.Amends (log.modify msgid f hf) := by
  have hheld : ∀ key message, (log.modify msgid f hf).getByKey key = some message →
      ∃ old, log.getByKey key = some old ∧ old.Revised message := by
    intro key message h
    unfold MessageLog.modify at h
    split at h
    · exact ⟨message, h, .refl message⟩
    · obtain ⟨rfl, old, hold, rfl⟩ | ⟨-, hat⟩ := Maps.getElem?_modify_eq_some.mp h
      · exact ⟨old, hold, hrevised old⟩
      · exact ⟨message, hat, .refl message⟩
  refine ⟨?_, ?_, ?_, hheld⟩
  · unfold MessageLog.modify
    split <;> rfl
  · unfold MessageLog.modify
    split
    · exact le_rfl
    · exact Std.ExtTreeMap.size_modify.le
  · intro hindexed id key
    have hindex : (log.modify msgid f hf).byMsgid = log.byMsgid := by
      unfold MessageLog.modify
      split <;> rfl
    have hmodified : (log.modify msgid f hf).messages[key]? = _ :=
      getByKey_modify hindexed msgid f hf key
    rw [hindex, hindexed id key, hmodified]
    constructor
    · intro h
      obtain ⟨message, hmessage, hid⟩ := h
      refine ⟨_, congrArg _ hmessage, ?_⟩
      dsimp only
      split
      · rw [(hrevised message).msgid]
        exact hid
      · exact hid
    · intro h
      obtain ⟨message, hmessage, hid⟩ := h
      obtain ⟨old, hold, rfl⟩ := Option.map_eq_some_iff.mp hmessage
      refine ⟨old, hold, ?_⟩
      split at hid
      · rwa [(hrevised old).msgid] at hid
      · exact hid

end MessageLog.Amends

namespace Model

/-- In a new model every log is new. -/
theorem logAt_new {retention : ℕ} {place : Place} {log : MessageLog}
    (h : (withRetention retention).logAt place = some log) :
      log = .withRetention (max retention 1) := by
  cases place with
  | channel key => simp [withRetention, logAt, channel] at h
  | conversation key =>
    simp only [withRetention, logAt, conversation, Std.ExtTreeMap.getElem?_empty, Option.map_none,
      Option.getD_none, Option.some.injEq] at h
    exact h.symm

/-! ### Models that take no message in -/

/-- A model that holds nothing but what it held: each log was there, maybe elsewhere, or is new. -/
structure Keeps (before after : Model) : Prop where
  nextSeq : after.nextSeq = before.nextSeq
  retention : after.retention = before.retention
  logs : ∃ origin : Place → Place, Function.Injective origin ∧ ∀ place log,
    after.logAt place = some log →
    ∃ old, (old = .withRetention before.retention ∨ before.logAt (origin place) = some old) ∧
      old.Amends log

namespace Keeps

variable {before after : Model}

theorem of_places (hseq : after.nextSeq = before.nextSeq)
    (hretention : after.retention = before.retention)
    (h : ∀ place log, after.logAt place = some log →
      ∃ old, (old = .withRetention before.retention ∨ before.logAt place = some old) ∧
        old.Amends log) :
    Keeps before after := ⟨hseq, hretention, id, Function.injective_id, h⟩

/-- Logs that are as they were, or new. -/
theorem of_logAt (hseq : after.nextSeq = before.nextSeq)
    (hretention : after.retention = before.retention)
    (h : ∀ place log, after.logAt place = some log →
      log = .withRetention before.retention ∨ before.logAt place = some log) : Keeps before after :=
  of_places hseq hretention fun place log hlog => ⟨log, h place log hlog, .refl log⟩

theorem of_maps (hseq : after.nextSeq = before.nextSeq)
    (hretention : after.retention = before.retention)
    (hchannels : after.channels = before.channels)
    (hconversations : after.conversations = before.conversations) :
    Keeps before after := by
  refine of_logAt hseq hretention fun place log hlog => Or.inr ?_
  rw [← hlog]
  cases place with
  | channel key => simp only [logAt, Model.channel, hchannels]
  | conversation key => simp only [logAt, Model.conversation, hconversations, hretention]

theorem refl (model : Model) : Keeps model model := of_maps rfl rfl rfl rfl

theorem trans {a b c : Model} (h : Keeps a b) (h' : Keeps b c) : Keeps a c := by
  obtain ⟨origin, hinjective, horigin⟩ := h.logs
  obtain ⟨origin', hinjective', horigin'⟩ := h'.logs
  refine ⟨h'.nextSeq.trans h.nextSeq, h'.retention.trans h.retention, origin ∘ origin',
    hinjective.comp hinjective', ?_⟩
  intro place log hlog
  obtain ⟨middle, rfl | hmiddle, hamends⟩ := horigin' place log hlog
  · rw [h.retention] at hamends
    exact ⟨_, Or.inl rfl, hamends⟩
  · obtain ⟨old, hold, hamends'⟩ := horigin _ middle hmiddle
    exact ⟨old, hold, hamends'.trans hamends⟩

theorem personOrInsert (model : Model) (key : CaseFolded) (nick : Str) (f : Person → Person) :
    Keeps model (model.personOrInsert key nick f) := of_maps rfl rfl rfl rfl

theorem forgetStrangers (model : Model) : Keeps model model.forgetStrangers :=
    of_maps rfl rfl rfl rfl

/-- A channel whose log is as it was, or new. -/
theorem setChannel (model : Model) {key : CaseFolded} {channel : Channel}
    (h : channel.log = .withRetention model.retention ∨
      model.logAt (.channel key) = some channel.log) :
    Keeps model (model.setChannel key channel) := by
  refine of_logAt rfl rfl fun place log hlog => ?_
  rw [logAt_setChannel] at hlog
  by_cases hplace : place = .channel key
  · rw [if_pos hplace] at hlog
    obtain rfl := Option.some.inj hlog
    rwa [hplace]
  · rw [if_neg hplace] at hlog
    exact Or.inr hlog

theorem setChannel_same {model : Model} {key : CaseFolded} {old channel : Channel}
    (h : model.channel key = some old) (hlog : channel.log = old.log) :
    Keeps model (model.setChannel key channel) := by
  refine setChannel model (Or.inr ?_)
  rw [hlog]
  exact congrArg (Option.map Channel.log) h

/-- Somebody on a channel whom we come to know. -/
theorem meet {model : Model} {who key : CaseFolded} {nick : Str} {f : Person → Person}
    {old channel : Channel}
    (h : model.channel key = some old) (hlog : channel.log = old.log) :
    Keeps model ((model.personOrInsert who nick f).setChannel key channel) :=
  (personOrInsert model who nick f).trans (setChannel_same h hlog)

theorem setConversation_same {model : Model} {key : CaseFolded} {old query : Conversation}
    (h : model.conversation key = some old) (hlog : query.log = old.log) :
    Keeps model (model.setConversation key query) := by
  refine of_logAt rfl rfl fun place log hplace => Or.inr ?_
  rw [← hplace, logAt_setConversation]
  split
  · rename_i heq
    simp only [heq, logAt, h, hlog, Option.map_some, Option.getD_some]
  · rfl

theorem channelOrInsert (model : Model) (key : CaseFolded) (name : Str) :
    Keeps model (model.channelOrInsert key name) := by
  refine setChannel model ?_
  simp only [channelOr, logAt]
  cases model.channel key with
  | none => exact Or.inl rfl
  | some channel => exact Or.inr rfl

/-- Channels that all change where they stand, but for their logs. -/
theorem map (model : Model) {f : Channel → Channel}
    (hlog : ∀ channel, (f channel).log = channel.log) :
    Keeps model { model with channels := model.channels.map fun _ channel => f channel } := by
  refine of_logAt rfl rfl fun place log hplace => Or.inr ?_
  rw [← hplace]
  cases place with
  | channel key =>
    simp only [logAt, Model.channel, Std.ExtTreeMap.getElem?_map, Option.map_map, Function.comp_def,
      hlog]
  | conversation key => rfl

theorem forgetMembers (model : Model) : Keeps model model.forgetMembers := map model fun _ => rfl

/-- A connection that is lost. -/
theorem disconnected (model : Model) : Keeps model model.forgetWhois.forgetMembers :=
  (of_maps rfl rfl rfl rfl : Keeps model model.forgetWhois).trans (forgetMembers _)

theorem channelMut (model : Model) (key : CaseFolded) {f : Channel → Channel}
    (hlog : ∀ channel, (f channel).log = channel.log) : Keeps model (model.channelMut key f) := by
  refine of_logAt rfl rfl fun place log hplace => Or.inr ?_
  rw [← hplace]
  cases place with
  | channel other =>
    simp only [logAt, Model.channel, Model.channelMut, Maps.getElem?_modify_ite]
    split
    · rename_i heq
      simp only [heq, Option.map_map, Function.comp_def, hlog]
    · rfl
  | conversation other => rfl

theorem removeChannel (model : Model) (key : CaseFolded) :
    Keeps model (model.removeChannel key) := by
  refine of_logAt rfl rfl fun place log hplace => Or.inr ?_
  cases place with
  | channel other =>
    obtain ⟨channel, hchannel, hlog⟩ := Option.map_eq_some_iff.mp hplace
    obtain ⟨-, hchannel⟩ := Maps.getElem?_erase_eq_some.mp hchannel
    exact Option.map_eq_some_iff.mpr ⟨channel, hchannel, hlog⟩
  | conversation other => exact hplace

theorem logMut (model : Model) (key : CaseFolded) {f : MessageLog → MessageLog}
    (hf : ∀ log : MessageLog, log.Amends (f log)) : Keeps model (model.logMut key f) := by
  have hrest : (model.logMut key f).nextSeq = model.nextSeq ∧
      (model.logMut key f).retention = model.retention := by
    unfold Model.logMut
    split <;> exact ⟨rfl, rfl⟩
  refine of_places hrest.1 hrest.2 fun place log hplace => ?_
  rw [logAt_logMut] at hplace
  split at hplace
  · obtain ⟨old, hold, rfl⟩ := Option.map_eq_some_iff.mp hplace
    exact ⟨old, Or.inr hold, hf old⟩
  · exact ⟨log, Or.inr hplace, .refl log⟩

theorem setTyping (model : Model) (target who : CaseFolded) (typing : Bool) :
    Keeps model (model.setTyping target who typing).1 := by
  obtain ⟨-, -, hafter⟩ | ⟨channel, hchannel, hafter⟩ | ⟨query, -, hquery, hafter⟩ :=
    model.setTyping_cases target who typing
  · rw [hafter]
    exact refl model
  · rw [hafter]
    exact setChannel_same hchannel rfl
  · rw [hafter]
    exact setConversation_same hquery rfl

theorem swap_channel (a b key : CaseFolded) :
    Equiv.swap (Place.conversation a) (Place.conversation b) (.channel key) = .channel key :=
  Equiv.swap_apply_of_ne_of_ne (by simp) (by simp)

theorem swap_conversation (a b key : CaseFolded) :
    Equiv.swap (Place.channel a) (Place.channel b) (.conversation key) = .conversation key :=
  Equiv.swap_apply_of_ne_of_ne (by simp) (by simp)

/-- Somebody's new nick takes their conversation along. -/
theorem rename (model : Model) (casemapping : Casemapping) (source dest : Str) :
    Keeps model (model.rename casemapping source dest) := by
  have hchannel : ∀ key, (model.rename casemapping source dest).logAt (.channel key) =
      model.logAt (.channel key) := by
    intro key
    simp only [logAt, rename_channel, Option.map_map, Function.comp_def]
  obtain ⟨-, hafter⟩ | ⟨query, hquery, hafter⟩ :=
    model.rename_conversations_cases casemapping source dest
  · refine of_logAt rfl rfl fun place log hplace => Or.inr ?_
    rw [← hplace]
    cases place with
    | channel key => exact (hchannel key).symm
    | conversation key =>
      simp only [logAt, conversation, hafter]
      rfl
  · generalize casemapping.fold source = old at hquery hafter
    generalize casemapping.fold dest = new at hafter
    refine ⟨rfl, rfl, Equiv.swap (.conversation new) (.conversation old), Equiv.injective _, ?_⟩
    intro place log hplace
    refine ⟨log, ?_, .refl log⟩
    cases place with
    | channel key =>
      rw [hchannel] at hplace
      rw [swap_channel]
      exact Or.inr hplace
    | conversation key =>
      simp only [logAt, conversation, hafter, getElem?_moved] at hplace
      by_cases hnew : key = new
      · right
        rw [hnew, Equiv.swap_apply_left, ← hplace]
        simp only [logAt, conversation, hquery, if_pos hnew, Option.map_some, Option.getD_some]
      · rw [if_neg hnew] at hplace
        by_cases hold : key = old
        · left
          rw [if_pos hold] at hplace
          exact (Option.some.inj hplace).symm
        · right
          rw [if_neg hold] at hplace
          rw [Equiv.swap_apply_of_ne_of_ne (by simp [hnew]) (by simp [hold])]
          exact hplace

/-- A channel's new name takes its log along. -/
theorem renameChannel (model : Model) (casemapping : Casemapping) (source dest : Str)
    {renamed : Model}
    (h : model.renameChannel casemapping source dest = some renamed) : Keeps model renamed := by
  obtain ⟨channel, hchannel, rfl⟩ := Option.map_eq_some_iff.mp h
  generalize casemapping.fold source = old at hchannel ⊢
  generalize casemapping.fold dest = new
  refine ⟨rfl, rfl, Equiv.swap (.channel new) (.channel old), Equiv.injective _, ?_⟩
  intro place log hplace
  refine ⟨log, Or.inr ?_, .refl log⟩
  cases place with
  | channel key =>
    have hmoved : ((moved model.channels old new { channel with name := dest })[key]?).map
      Channel.log =
        some log := hplace
    rw [getElem?_moved] at hmoved
    by_cases hnew : key = new
    · rw [if_pos hnew] at hmoved
      rw [hnew, Equiv.swap_apply_left, ← hmoved]
      simp only [logAt, hchannel, Option.map_some]
    · rw [if_neg hnew] at hmoved
      by_cases hold : key = old
      · rw [if_pos hold] at hmoved
        cases hmoved
      · rw [if_neg hold] at hmoved
        rw [Equiv.swap_apply_of_ne_of_ne (by simp [hnew]) (by simp [hold])]
        exact hmoved
  | conversation key =>
    rw [swap_conversation]
    exact hplace

end Keeps

end Model

namespace Session

open Model

/-! ### What each command keeps -/

variable (ctx : Context) (line : Message)

theorem reaction_keeps {result : Result} (h : reaction ctx line = some result) :
    Keeps ctx.model result.1.model := by
  unfold reaction at h
  simp only [Option.bind_eq_bind, Option.bind_eq_some_iff] at h
  obtain ⟨⟨emoji, adding⟩, -, msgid, -, target, -, log, -, held, -, h⟩ := h
  obtain rfl := Option.some.inj h
  exact Keeps.logMut ctx.model _ fun log => .modify log msgid fun message => .react ..

theorem linkPreview_keeps {result : Result} (h : linkPreview ctx line = some result) :
    Keeps ctx.model result.1.model := by
  obtain ⟨⟨msgid, preview⟩, -, rfl⟩ := Option.map_eq_some_iff.mp h
  dsimp only
  split
  · exact Keeps.refl _
  · split
    · exact Keeps.refl _
    · refine Keeps.logMut ctx.model _ fun log => .modify log msgid ?_
      intro message
      exact ⟨rfl, id⟩

theorem redact_keeps : Keeps ctx.model (redact ctx line).1.model := by
  unfold redact
  split
  · rename_i name msgid _ _
    dsimp only
    split
    · exact Keeps.refl _
    · refine Keeps.logMut ctx.model _ fun log => .modify log msgid ?_
      intro message
      exact ⟨rfl, fun _ => rfl⟩
  · exact Keeps.refl _

theorem join_keeps : Keeps ctx.model (join ctx line).1.model := by
  unfold join
  split
  · exact Keeps.refl _
  · dsimp only
    split
    · exact Keeps.channelOrInsert ctx.model _ _
    · split
      · exact Keeps.refl _
      · rename_i channel hchannel
        exact Keeps.meet hchannel rfl

theorem leave_keeps (folded who : CaseFolded) : Keeps ctx.model (leave ctx folded who).model := by
  refine Keeps.trans (Keeps.channelMut ctx.model folded ?_) (Keeps.forgetStrangers _)
  intro channel
  rfl

theorem part_keeps : Keeps ctx.model (part ctx line).1.model := by
  unfold part
  split
  · exact Keeps.refl _
  · dsimp only
    split
    · exact Keeps.removeChannel ctx.model _
    · exact leave_keeps ..

theorem kick_keeps : Keeps ctx.model (kick ctx line).1.model := by
  unfold kick
  split
  · dsimp only
    split
    · exact Keeps.removeChannel ctx.model _
    · exact leave_keeps ..
  · exact Keeps.refl _

theorem quit_keeps : Keeps ctx.model (quit ctx line).1.model := by
  refine Keeps.trans (Keeps.map ctx.model ?_) (Keeps.forgetStrangers _)
  intro channel
  rfl

theorem nick_keeps : Keeps ctx.model (nick ctx line).1.model := by
  unfold nick
  split
  · exact Keeps.refl _
  · exact Keeps.rename ..

theorem renameChannel_keeps : Keeps ctx.model (renameChannel ctx line).1.model := by
  unfold renameChannel
  split
  · split
    · exact Keeps.refl _
    · rename_i h
      exact Keeps.renameChannel _ _ _ _ h
  · exact Keeps.refl _

theorem topic_keeps : Keeps ctx.model (topic ctx line).1.model := by
  unfold topic
  split
  · exact Keeps.refl _
  · split
    · exact Keeps.refl _
    · exact Keeps.channelMut ctx.model _ fun _ => rfl

theorem topicReply_keeps : Keeps ctx.model (topicReply ctx line).1.model := by
  unfold topicReply
  split
  · exact Keeps.refl _
  · split
    · exact Keeps.refl _
    · exact Keeps.channelMut ctx.model _ fun _ => rfl

theorem namesLoop_keeps (i : Isupport) (folded : CaseFolded) (model : Model) (entries : List Str) :
    Keeps model (namesLoop i folded model entries).1 := by
  induction entries generalizing model with
  | nil => exact Keeps.refl _
  | cons entry entries ih =>
    rw [namesLoop]
    dsimp only
    split
    · exact ih model
    · split
      · exact Keeps.refl _
      · rename_i channel hchannel
        refine Keeps.trans ?_ (ih _)
        exact Keeps.meet hchannel rfl

theorem names_keeps : Keeps ctx.model (names ctx line).1.model := by
  unfold names
  split
  · exact Keeps.refl _
  · exact namesLoop_keeps ..

theorem markRead_keeps : Keeps ctx.model (markRead ctx line).1.model := by
  unfold markRead
  split
  · dsimp only
    split
    · rename_i channel hchannel
      exact Keeps.setChannel_same hchannel rfl
    · rename_i query _ hquery
      exact Keeps.setConversation_same hquery rfl
    · exact Keeps.refl _
  · exact Keeps.refl _

theorem metadata_keeps (offset : ℕ) : Keeps ctx.model (metadata ctx line offset).1.model := by
  unfold metadata
  split
  · rename_i target key _ _
    dsimp only
    generalize (if target = "*" then ctx.model.me.nick else target) = target
    split
    · split
      · exact Keeps.refl _
      · exact Keeps.channelMut ctx.model _ fun _ => rfl
    · split
      · exact Keeps.of_maps rfl rfl rfl rfl
      · exact Keeps.of_maps rfl rfl rfl rfl
  · exact Keeps.refl _

theorem personChanged_keeps (change : Person → Person) :
    Keeps ctx.model (personChanged ctx line change).1.model := by
  unfold personChanged
  dsimp only
  split
  · exact Keeps.of_maps rfl rfl rfl rfl
  · exact Keeps.of_maps rfl rfl rfl rfl

theorem whois_keeps (command : Str) : Keeps ctx.model (whois ctx line command).1.model := by
  unfold whois
  split
  · exact Keeps.refl _
  · dsimp only
    split
    · split
      · exact Keeps.refl _
      · exact Keeps.of_maps rfl rfl rfl rfl
    · exact Keeps.of_maps rfl rfl rfl rfl

theorem applyWho_keeps (row : WhoRow) : Keeps ctx.model (applyWho ctx row).1.model := by
  have hperson : Keeps ctx.model
    (ctx.model.personOrInsert (ctx.fold row.nick) row.nick (whoPerson row)) :=
    Keeps.personOrInsert ..
  unfold applyWho
  dsimp only
  split
  · exact hperson
  · split
    · exact hperson
    · exact hperson.trans (Keeps.channelMut _ _ fun _ => rfl)

theorem whoReply_keeps : Keeps ctx.model (whoReply ctx line).1.model := by
  unfold whoReply
  split
  · exact applyWho_keeps ..
  · exact Keeps.refl _

theorem whoxReply_keeps : Keeps ctx.model (whoxReply ctx line).1.model := by
  unfold whoxReply
  split
  · exact Keeps.refl _
  · split
    · exact applyWho_keeps ..
    · exact Keeps.refl _

theorem applyNamed_keeps (name : Str) (entries : List Str) :
    Keeps ctx.model (applyNamed ctx name entries).1.model := by
  unfold applyNamed
  split
  · exact Keeps.refl _
  · exact Keeps.channelMut ctx.model _ fun _ => rfl

theorem channelModes_log (i : Isupport) (channel : Channel) (changes : List ModeChange) :
    (channelModes i channel changes).1.log = channel.log := by
  unfold channelModes
  generalize false = touched
  induction changes generalizing channel touched with
  | nil => rfl
  | cons change changes ih =>
    rw [List.foldl_cons, ih]
    fun_cases channelMode <;> rfl

theorem mode_keeps : Keeps ctx.model (mode ctx line).1.model := by
  unfold mode
  split
  · exact Keeps.refl _
  · dsimp only
    split
    · exact Keeps.of_maps rfl rfl rfl rfl
    · split
      · exact Keeps.refl _
      · rename_i channel hchannel
        exact Keeps.setChannel_same hchannel (channelModes_log ..)

variable [Primitives]

theorem message_keeps (command : Str) : Keeps ctx.model (message ctx line command).1.model ∨
    ∃ target, message ctx line command = file ctx line command target := by
  unfold message
  split
  · exact Or.inl (Keeps.refl _)
  · rename_i target _
    split
    · split
      · rename_i result hresult
        exact Or.inl (reaction_keeps ctx line hresult)
      · split
        · rename_i result hresult
          exact Or.inl (linkPreview_keeps ctx line hresult)
        · exact Or.inr ⟨target, rfl⟩
    · exact Or.inr ⟨target, rfl⟩

/-- **Every line** keeps what is held, or files one message. -/
theorem apply_keeps : Keeps ctx.model (apply ctx line).1.model ∨
    ∃ command target, apply ctx line = file ctx line command target := by
  have happlied := apply_applied ctx line
  generalize toAsciiUppercase line.command = command at happlied
  generalize apply ctx line = result at happlied ⊢
  cases happlied with
  | message =>
    obtain hkeeps | ⟨target, hfile⟩ := message_keeps ctx line command
    · exact Or.inl hkeeps
    · exact Or.inr ⟨command, target, hfile⟩
  | join => exact Or.inl (join_keeps ..)
  | part => exact Or.inl (part_keeps ..)
  | quit => exact Or.inl (quit_keeps ..)
  | kick => exact Or.inl (kick_keeps ..)
  | nick => exact Or.inl (nick_keeps ..)
  | rename => exact Or.inl (renameChannel_keeps ..)
  | topic => exact Or.inl (topic_keeps ..)
  | mode => exact Or.inl (mode_keeps ..)
  | topicReply => exact Or.inl (topicReply_keeps ..)
  | markRead => exact Or.inl (markRead_keeps ..)
  | redact => exact Or.inl (redact_keeps ..)
  | away => exact Or.inl (personChanged_keeps ..)
  | account => exact Or.inl (personChanged_keeps ..)
  | metadata => exact Or.inl (metadata_keeps ..)
  | keys => exact Or.inl (metadata_keeps ..)
  | whois => exact Or.inl (whois_keeps ..)
  | names => exact Or.inl (names_keeps ..)
  | whoReply => exact Or.inl (whoReply_keeps ..)
  | whoxReply => exact Or.inl (whoxReply_keeps ..)
  | prop =>
    unfold prop
    split
    · exact Or.inl (Keeps.refl _)
    · exact Or.inl (applyNamed_keeps ..)
  | propList =>
    unfold propList
    split
    · exact Or.inl (Keeps.refl _)
    · exact Or.inl (applyNamed_keeps ..)
  | other => exact Or.inl (Keeps.refl _)

end Session

namespace Client

open Model

/-! ### What a run keeps -/

theorem deeds_append [Primitives] (c : Client) (before after : List Input) :
    c.deeds (before ++ after) = c.deeds before ++ (c.run before).deeds after := by
  induction before generalizing c with
  | nil => rfl
  | cons input before ih =>
    simp only [List.cons_append, deeds, ih, List.append_assoc]
    rfl

section Run

variable [Primitives]

/-- How many messages a deed files at most: one for each line that is folded, and one that we
say. -/
def Deed.files : Deed → ℕ
  | .line c message => ((c.noted message).delivered message).length
  | .host _ _ => 1

/-- How many messages a run files at most. -/
def runFiles (c : Client) (inputs : List Input) : ℕ := ((c.deeds inputs).map Deed.files).sum

/-- A property of the model, and of how many messages may have been filed by then, that every line
and every change which files nothing keep. -/
structure Abides (Q : ℕ → Model → Prop) : Prop where
  mono : ∀ {n m : ℕ} {model : Model}, n ≤ m → Q n model → Q m model
  keeps : ∀ {n : ℕ} {before after : Model}, Keeps before after →
    after.whois.size ≤ before.whois.size →
    Q n before → Q n after
  apply : ∀ {n : ℕ} {ctx : Session.Context} (line : Message), Q n ctx.model →
    Q (n + 1) (Session.apply ctx line).1.model

namespace Abides

variable {Q : ℕ → Model → Prop} (hQ : Abides Q) {n : ℕ}
include hQ

theorem fold {c : Client} (h : Q n c.model) (line : Message) (historical : Bool) :
    Q (n + 1) (c.fold line historical).model := by
  rw [fold_eq]
  have hstep := hQ.apply line (show Q n (c.context historical).model from h)
  exact hstep

theorem setTyping {model : Model} (h : Q n model) (target who : CaseFolded) (typing : Bool) :
    Q n (model.setTyping target who typing).1 := by
  refine hQ.keeps (Keeps.setTyping ..) (le_of_eq ?_) h
  obtain ⟨-, -, hafter⟩ | ⟨channel, -, hafter⟩ | ⟨query, -, -, hafter⟩ :=
    model.setTyping_cases target who typing <;>
    rw [hafter] <;> rfl

/-- **One line.** -/
theorem handleMessage {c : Client} (h : Q n c.model) (message : Message) :
    Q (n + Deed.files (.line c message)) (c.handleMessage message).model := by
  unfold Deed.files
  cases hclaims : claims message with
  | true =>
    dsimp only
    rw [delivered_of_claims _ hclaims]
    refine handleMessage_keeps_bearing (P := fun b => Q n b.model) (fun _ _ _ _ h =>
      h) c message ?_ ?_ ?_ ?_ h
    · intro b nick hb
      exact hQ.keeps (Keeps.of_maps rfl rfl rfl rfl : Keeps b.model (b.named nick).model) le_rfl hb
    · intro _ hb
      rw [handleIsupport_bearing]
      exact hb
    · intro d _ hd hb
      obtain ⟨_, _, _, -, -, -, hd⟩ := handleTyping_bearing hd
      rw [hd]
      exact hQ.setTyping hb ..
    · intro p historical hp
      rw [delivered_of_claims _ hclaims] at hp
      cases hp
  | false =>
    rw [handleMessage_eq]
    refine dispatch_delivers (Q := fun done d => Q (n + done.length) d.model) (c.noted message)
      hclaims
      (fun _ => h) ?_
    intro done p historical _ hdone
    rw [List.length_append, ← Nat.add_assoc]
    exact hQ.fold hdone p.2 historical

/-- **One input of the host.** -/
theorem step {c : Client} (h : Q n c.model) {input : Input} (hbytes : ∀ data, input ≠ .bytes data) :
    Q (n + 1) (c.step input).model := by
  refine step_keeps_bearing (P := fun b => Q (n + 1) b.model) (fun _ _ _ _ h =>
    h) c hbytes ?_ ?_ ?_ ?_
    (hQ.mono (Nat.le_succ n) h)
  · intro _ b hb
    exact hQ.keeps (Keeps.disconnected b.model) (Nat.zero_le _) hb
  · intro now _ hb
    exact tick_keeps (P := Q (n + 1)) (fun _ _ _ hmodel => hQ.setTyping hmodel ..) c now hb
  · intro _ _ _ hb
    exact hb
  · intro line _ _
    exact hQ.fold h _ false

/-- **Any run.** -/
theorem run {c : Client} (h : Q n c.model) (inputs : List Input) :
    Q (n + c.runFiles inputs) (c.run inputs).model := by
  refine run_deeds (Q := fun seen d => Q (n + (seen.map Deed.files).sum) d.model) ?_ ?_ ?_ [] h
    inputs
  · intro _ _ _ _ _ hd
    exact hd
  · intro seen d message hd
    rw [List.map_append, List.sum_append, ← Nat.add_assoc]
    exact hQ.handleMessage hd message
  · intro seen d input hbytes hd
    rw [List.map_append, List.sum_append, ← Nat.add_assoc]
    exact hQ.step hd hbytes

end Abides

end Run

end Client

end ObbyClient

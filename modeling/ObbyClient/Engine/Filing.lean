import ObbyClient.Engine.Retention
import ObbyClient.Engine.Session

/-!
# Notifications of messages

`Change.messageAdded` names a message by its target and its key.

* `Session.Quiet` — a result that announces no message; every command is quiet but the three that
  carry messages;
* `Session.Announced` — every message a result announces is held under the key announced;
* `Session.announced_apply_iff` — when that is so.
-/

namespace ObbyClient

open Std (ExtTreeMap)

/-! ### Looking a log up -/

namespace MessageLog

/-- What a log that takes one more message holds under its key. -/
theorem getByKey_put_trim (log : MessageLog) (message : ChatMessage) :
    ((log.put message).trim.getByKey message.key).isSome ↔
      TopKeys.newer log.messages message.key < log.retention := by
  have hself : ¬ compare message.key message.key = .lt := by
    rw [(Std.ReflCmp.compare_self : compare message.key message.key = .eq)]
    decide
  have hcount : TopKeys.newer (log.put message).messages message.key =
      TopKeys.newer log.messages message.key := by
    rw [show (log.put message).messages = log.messages.insert message.key message from rfl,
      TopKeys.newer_insert, if_neg fun h => hself h.2]
    rfl
  rw [getByKey, trim_messages, TopKeys.getElem?_top, hcount, put_messages, if_pos rfl]
  show (if _ < log.retention then _ else _ : Option ChatMessage).isSome = true ↔ _
  by_cases hlt : TopKeys.newer log.messages message.key < log.retention
  · rw [if_pos hlt]
    simp [hlt]
  · rw [if_neg hlt]
    simp [hlt]

/-- A change by id moves no message. -/
theorem isSome_getByKey_modify (log : MessageLog) (id : Str) (f : ChatMessage → ChatMessage)
    (hf : ∀ message, (f message).key = message.key) (key : MessageKey) :
    ((log.modify id f hf).getByKey key).isSome = (log.getByKey key).isSome := by
  rw [getByKey, getByKey, modify]
  cases log.byMsgid[id]? with
  | none => rfl
  | some own =>
      show ((log.messages.modify own f)[key]?).isSome = _
      rw [ExtTreeMap.getElem?_modify]
      by_cases hat : compare own key = .eq
      · rw [if_pos hat, Option.isSome_map, Std.LawfulEqOrd.eq_of_compare hat]
      · rw [if_neg hat]

/-- What is found by id is held under its own key. -/
theorem getByKey_of_get {log : MessageLog} {id : Str} {message : ChatMessage}
    (h : log.get id = some message) : log.getByKey message.key = some message := by
  obtain ⟨key, -, hheld⟩ := Option.bind_eq_some_iff.mp h
  rw [getByKey, log.keyed key message hheld]
  exact hheld

end MessageLog

namespace Model

theorem log_logMut (model : Model) (key : CaseFolded) (f : MessageLog → MessageLog) :
    (model.logMut key f).log key = (model.log key).map f := by
  cases hchannel : model.channel key with
  | some channel =>
      have hlookup : (model.logMut key f).channel key =
          some { channel with log := f channel.log } := by
        rw [logMut, hchannel]
        show (model.channels.modify key _)[key]? = _
        rw [ExtTreeMap.getElem?_modify, if_pos Std.ReflCmp.compare_self,
          show model.channels[key]? = some channel from hchannel]
        rfl
      rw [log, log, hlookup, hchannel]
      rfl
  | none =>
      have hlookup : (model.logMut key f).channel key = none := by
        rw [logMut, hchannel]
        exact hchannel
      rw [log, log, hlookup, hchannel]
      show ((model.logMut key f).conversation key).map _ = ((model.conversation key).map _).map _
      rw [logMut, hchannel]
      show ((model.conversations.modify key _)[key]?).map _ = _
      rw [ExtTreeMap.getElem?_modify, if_pos Std.ReflCmp.compare_self, Option.map_map,
        Option.map_map]
      rfl

theorem log_setChannel (model : Model) (key : CaseFolded) (channel : Channel) :
    (model.setChannel key channel).log key = some channel.log := by
  have hlookup : (model.setChannel key channel).channel key = some channel := by
    show (model.channels.insert key channel)[key]? = _
    rw [ExtTreeMap.getElem?_insert, if_pos Std.ReflCmp.compare_self]
  rw [log, hlookup]

/-- A conversation's log is found unless a channel has its name. -/
theorem log_setConversation (model : Model) (key : CaseFolded) (query : Conversation) :
    (model.setConversation key query).log key =
      some (((model.channel key).map Channel.log).getD query.log) := by
  have hlookup : (model.setConversation key query).conversation key = some query := by
    show (model.conversations.insert key query)[key]? = _
    rw [ExtTreeMap.getElem?_insert, if_pos Std.ReflCmp.compare_self]
  rw [log, show (model.setConversation key query).channel key = model.channel key from rfl, hlookup]
  cases model.channel key with
  | some channel => rfl
  | none => rfl

end Model

/-- True of a change that neither adds a message nor enters a channel. -/
def Change.ordinary : Change → Bool
  | .messageAdded _ _ => false
  | .channelJoined _ => false
  | _ => true

namespace Session

/-! ### Commands that announce no message -/

/-- No message is announced. -/
def Quiet (result : Result) : Prop :=
  ∀ target key, Change.messageAdded target key ∉ result.2

@[simp] theorem quiet_nil (ctx : Context) : Quiet (ctx, []) := by
  intro target key
  exact List.not_mem_nil

theorem quiet_singleton (ctx : Context) {change : Change}
    (h : ∀ target key, change ≠ .messageAdded target key) : Quiet (ctx, [change]) := by
  intro target key hmem
  exact h target key (List.mem_singleton.mp hmem).symm

/-- A result that announces no message and enters no channel. -/
def Ordinary (result : Result) : Prop := ∀ change ∈ result.2, change.ordinary = true

theorem Ordinary.quiet {result : Result} (h : Ordinary result) : Quiet result := by
  intro target key hmem
  exact absurd (h _ hmem) Bool.false_ne_true

@[simp] theorem ordinary_nil (ctx : Context) : Ordinary (ctx, []) := by
  intro change hmem
  exact absurd hmem List.not_mem_nil

theorem ordinary_singleton (ctx : Context) {change : Change} (h : change.ordinary = true) :
    Ordinary (ctx, [change]) := by
  intro other hmem
  rw [List.mem_singleton.mp hmem]
  exact h

theorem join_quiet (ctx : Context) (line : Message) : Quiet (join ctx line) := by
  unfold join
  split
  · exact quiet_nil _
  · dsimp only
    split
    · exact quiet_singleton _ (by simp)
    · split
      · exact quiet_nil _
      · exact quiet_singleton _ (by simp)

theorem ordinary_ite {p : Prop} [Decidable p] {a b : Result} (ha : Ordinary a) (hb : Ordinary b) :
    Ordinary (if p then a else b) := by
  by_cases h : p
  · rw [if_pos h]
    exact ha
  · rw [if_neg h]
    exact hb

/-- Changed member lists enter no channel. -/
theorem ordinary_members (ctx : Context) {α : Type} (xs : List α) (f : α → Str) :
    Ordinary (ctx, xs.map fun x => .channelMembersChanged (f x)) := by
  intro change hmem
  obtain ⟨_, _, h⟩ := List.mem_map.mp hmem
  rw [← h]
  rfl

theorem part_ordinary (ctx : Context) (line : Message) : Ordinary (part ctx line) := by
  unfold part
  split
  · exact ordinary_nil _
  · dsimp only
    split
    · exact ordinary_singleton _ rfl
    · exact ordinary_singleton _ rfl

theorem quit_ordinary (ctx : Context) (line : Message) : Ordinary (quit ctx line) := by
  intro change hmem
  obtain ⟨_, _, h⟩ := List.mem_filterMap.mp hmem
  obtain ⟨_, _, h⟩ := Option.map_eq_some_iff.mp h
  rw [← h]
  rfl

theorem kick_ordinary (ctx : Context) (line : Message) : Ordinary (kick ctx line) := by
  unfold kick
  split
  · dsimp only
    split
    · exact ordinary_singleton _ rfl
    · exact ordinary_singleton _ rfl
  · exact ordinary_nil _

theorem nick_ordinary (ctx : Context) (line : Message) : Ordinary (nick ctx line) := by
  unfold nick
  split
  · exact ordinary_nil _
  · exact ordinary_singleton _ rfl

theorem renameChannel_ordinary (ctx : Context) (line : Message) :
    Ordinary (renameChannel ctx line) := by
  unfold renameChannel
  split
  · split
    · exact ordinary_nil _
    · exact ordinary_singleton _ rfl
  · exact ordinary_nil _

theorem whois_ordinary (ctx : Context) (line : Message) (command : Str) :
    Ordinary (whois ctx line command) := by
  unfold whois
  split
  · exact ordinary_nil _
  · dsimp only
    split
    · split
      · exact ordinary_nil _
      · exact ordinary_singleton _ rfl
    · exact ordinary_nil _

theorem topic_ordinary (ctx : Context) (line : Message) : Ordinary (topic ctx line) := by
  unfold topic
  split
  · exact ordinary_nil _
  · split
    · exact ordinary_nil _
    · exact ordinary_singleton _ rfl

theorem topicReply_ordinary (ctx : Context) (line : Message) : Ordinary (topicReply ctx line) := by
  unfold topicReply
  split
  · exact ordinary_nil _
  · split
    · exact ordinary_nil _
    · exact ordinary_singleton _ rfl

theorem names_ordinary (ctx : Context) (line : Message) : Ordinary (names ctx line) := by
  unfold names
  split
  · exact ordinary_nil _
  · dsimp only
    split
    · exact ordinary_singleton _ rfl
    · exact ordinary_nil _

theorem redact_ordinary (ctx : Context) (line : Message) : Ordinary (redact ctx line) := by
  unfold redact
  split
  · dsimp only
    split
    · exact ordinary_nil _
    · exact ordinary_singleton _ rfl
  · exact ordinary_nil _

theorem markRead_ordinary (ctx : Context) (line : Message) : Ordinary (markRead ctx line) := by
  unfold markRead
  split
  · dsimp only
    split
    · exact ordinary_singleton _ rfl
    · exact ordinary_singleton _ rfl
    · exact ordinary_nil _
  · exact ordinary_nil _

theorem metadata_ordinary (ctx : Context) (line : Message) (offset : ℕ) :
    Ordinary (metadata ctx line offset) := by
  unfold metadata
  split
  · refine ordinary_ite ?_ (ordinary_singleton _ rfl)
    split
    · exact ordinary_nil _
    · exact ordinary_singleton _ rfl
  · exact ordinary_nil _

theorem personChanged_ordinary (ctx : Context) (line : Message) (change : Person → Person) :
    Ordinary (personChanged ctx line change) :=
  ordinary_members _ _ _

theorem applyWho_ordinary (ctx : Context) (row : WhoRow) : Ordinary (applyWho ctx row) := by
  unfold applyWho
  dsimp only
  split
  · exact ordinary_nil _
  · split
    · exact ordinary_nil _
    · exact ordinary_singleton _ rfl

theorem whoReply_ordinary (ctx : Context) (line : Message) : Ordinary (whoReply ctx line) := by
  unfold whoReply
  split
  · exact applyWho_ordinary _ _
  · exact ordinary_nil _

theorem whoxReply_ordinary (ctx : Context) (line : Message) : Ordinary (whoxReply ctx line) := by
  unfold whoxReply
  split
  · exact ordinary_nil _
  · split
    · exact applyWho_ordinary _ _
    · exact ordinary_nil _

theorem applyNamed_ordinary (ctx : Context) (name : Str) (entries : List Str) :
    Ordinary (applyNamed ctx name entries) := by
  unfold applyNamed
  split
  · exact ordinary_nil _
  · exact ordinary_singleton _ rfl

theorem prop_ordinary (ctx : Context) (line : Message) : Ordinary (prop ctx line) := by
  unfold prop
  split
  · exact ordinary_nil _
  · exact applyNamed_ordinary _ _ _

theorem propList_ordinary (ctx : Context) (line : Message) : Ordinary (propList ctx line) := by
  unfold propList
  split
  · exact ordinary_nil _
  · exact applyNamed_ordinary _ _ _

theorem mode_ordinary (ctx : Context) (line : Message) : Ordinary (mode ctx line) := by
  unfold mode
  split
  · exact ordinary_nil _
  · dsimp only
    split
    · exact ordinary_nil _
    · split
      · exact ordinary_singleton _ rfl
      · split
        · intro change hmem
          rcases List.mem_pair.mp hmem with heq | heq
          · rw [heq]
            rfl
          · rw [heq]
            rfl
        · exact ordinary_singleton _ rfl

/-- The commands that carry a message. -/
def isMessage (command : Str) : Bool :=
  command == ("PRIVMSG" : Str) || command == ("NOTICE" : Str) || command == ("TAGMSG" : Str)

section Apply

variable [Primitives]

/-- Filing announces the message it files. -/
theorem file_changes {ctx : Context} {line : Message} {command target : Str} {change : Change}
    (h : change ∈ (file ctx line command target).2) :
    ∃ target key, change = .messageAdded target key := by
  have hannounced : ∀ (accepted : Bool) (name : Str) (key : MessageKey),
      change ∈ (if accepted then [Change.messageAdded name key] else []) →
        ∃ target key, change = .messageAdded target key := by
    intro accepted name key hmem
    cases accepted with
    | true => exact ⟨name, key, List.mem_singleton.mp hmem⟩
    | false => exact absurd hmem List.not_mem_nil
  unfold file at h
  dsimp only at h
  split at h
  · split at h
    · exact absurd h List.not_mem_nil
    · exact hannounced _ _ _ h
  · exact hannounced _ _ _ h

omit [Primitives] in
theorem reaction_changes {ctx : Context} {line : Message} {result : Result} {change : Change}
    (h : reaction ctx line = some result) (hchange : change ∈ result.2) :
    ∃ target msgid, change = .messageReacted target msgid := by
  obtain ⟨target, msgid, f, rfl⟩ := reaction_eq_some h
  exact ⟨target, msgid, List.mem_singleton.mp hchange⟩

omit [Primitives] in
theorem linkPreview_changes {ctx : Context} {line : Message} {result : Result} {change : Change}
    (h : linkPreview ctx line = some result) (hchange : change ∈ result.2) :
    ∃ target key, change = .messageAdded target key := by
  rcases linkPreview_eq_some h with rfl | ⟨name, msgid, message, f, hf, -, rfl⟩
  · exact absurd hchange List.not_mem_nil
  · exact ⟨_, _, List.mem_singleton.mp hchange⟩

theorem apply_of_isMessage (ctx : Context) {line : Message}
    (h : isMessage (toAsciiUppercase line.command) = true) :
    apply ctx line = message ctx line (toAsciiUppercase line.command) := by
  rw [apply, if_pos]
  simpa [isMessage, or_assoc] using h

/-- Only a line that carries a message announces one, and only a `JOIN` enters a channel. -/
theorem apply_ordinary (ctx : Context) {line : Message}
    (h : isMessage (toAsciiUppercase line.command) = false)
    (hjoin : toAsciiUppercase line.command ≠ "JOIN") : Ordinary (apply ctx line) := by
  have hnot : ¬ (toAsciiUppercase line.command = "PRIVMSG" ∨
      toAsciiUppercase line.command = "NOTICE" ∨ toAsciiUppercase line.command = "TAGMSG") := by
    simpa [isMessage, not_or, and_assoc] using h
  unfold apply
  dsimp only
  rw [if_neg hnot, if_neg hjoin]
  refine ordinary_ite (part_ordinary ctx line) <|
    ordinary_ite (quit_ordinary ctx line) <| ordinary_ite (kick_ordinary ctx line) <|
    ordinary_ite (nick_ordinary ctx line) <| ordinary_ite (renameChannel_ordinary ctx line) <|
    ordinary_ite (topic_ordinary ctx line) <| ordinary_ite (mode_ordinary ctx line) <|
    ordinary_ite (topicReply_ordinary ctx line) <| ordinary_ite (markRead_ordinary ctx line) <|
    ordinary_ite (redact_ordinary ctx line) <| ordinary_ite (personChanged_ordinary ctx line _) <|
    ordinary_ite (personChanged_ordinary ctx line _) <|
    ordinary_ite (metadata_ordinary ctx line 0) <| ordinary_ite (metadata_ordinary ctx line 1) <|
    ordinary_ite (whois_ordinary ctx line _) <| ordinary_ite (names_ordinary ctx line) <|
    ordinary_ite (whoReply_ordinary ctx line) <| ordinary_ite (whoxReply_ordinary ctx line) <|
    ordinary_ite (prop_ordinary ctx line) <|
    ordinary_ite (propList_ordinary ctx line) (ordinary_nil ctx)

theorem apply_quiet (ctx : Context) {line : Message}
    (h : isMessage (toAsciiUppercase line.command) = false) : Quiet (apply ctx line) := by
  by_cases hjoin : toAsciiUppercase line.command = "JOIN"
  · rw [apply_of_handles ctx hjoin .join]
    exact join_quiet ctx line
  · exact (apply_ordinary ctx h hjoin).quiet

/-- What such a line changes: a message is there, or it was reacted to. -/
theorem change_of_isMessage {ctx : Context} {line : Message}
    (h : isMessage (toAsciiUppercase line.command) = true) {change : Change}
    (hchange : change ∈ (apply ctx line).2) :
    (∃ target key, change = .messageAdded target key) ∨
      ∃ target msgid, change = .messageReacted target msgid := by
  rw [apply_of_isMessage ctx h, message] at hchange
  cases htarget : line.param 0 with
  | none =>
      rw [htarget] at hchange
      exact absurd hchange List.not_mem_nil
  | some target =>
      rw [htarget] at hchange
      dsimp only at hchange
      have hfile : change ∈ (file ctx line (toAsciiUppercase line.command) target).2 →
          ∃ target key, change = .messageAdded target key := file_changes
      split at hchange
      · split at hchange
        · rename_i hreaction
          exact .inr (reaction_changes hreaction hchange)
        · split at hchange
          · rename_i hpreview
            exact .inl (linkPreview_changes hpreview hchange)
          · exact .inl (hfile hchange)
      · exact .inl (hfile hchange)

/-! ### Announced messages -/

/-- Every message that is announced is held, in the log of its target, under the key announced. -/
def Announced (result : Result) : Prop :=
  ∀ target key, Change.messageAdded target key ∈ result.2 →
    ∃ log, result.1.model.log (result.1.fold target) = some log ∧ (log.getByKey key).isSome

omit [Primitives] in
theorem announced_of_quiet {result : Result} (h : Quiet result) : Announced result :=
  fun target key hmem => absurd hmem (h target key)

omit [Primitives] in
theorem announced_singleton {ctx : Context} {target : Str} {key : MessageKey} :
    Announced (ctx, [.messageAdded target key]) ↔
      ∃ log, ctx.model.log (ctx.fold target) = some log ∧ (log.getByKey key).isSome := by
  constructor
  · intro h
    exact h target key (List.mem_singleton_self _)
  · intro h target' key' hmem
    cases List.mem_singleton.mp hmem
    exact h

/-- True when a line is a reaction to a message that is held. -/
def reacts (ctx : Context) (line : Message) : Bool :=
  (reactionTag line).isSome && line.replyTag.any fun msgid =>
    (line.param 0).any fun target =>
      (ctx.model.log (ctx.fold target)).any fun log => (log.get msgid).isSome

omit [Primitives] in
theorem reaction_cases (ctx : Context) (line : Message) :
    (∃ result, reaction ctx line = some result ∧ Quiet result ∧ reacts ctx line = true) ∨
      (reaction ctx line = none ∧ reacts ctx line = false) := by
  unfold reaction reacts
  cases reactionTag line with
  | none => exact .inr ⟨rfl, rfl⟩
  | some tag =>
      cases line.replyTag with
      | none => exact .inr ⟨rfl, rfl⟩
      | some msgid =>
          cases line.param 0 with
          | none => exact .inr ⟨rfl, rfl⟩
          | some target =>
              cases hlog : ctx.model.log (ctx.fold target) with
              | none => exact .inr ⟨by simp [hlog], by simp [hlog]⟩
              | some log =>
                  cases hget : log.get msgid with
                  | none => exact .inr ⟨by simp [hlog, hget], by simp [hlog, hget]⟩
                  | some held =>
                      refine .inl ⟨(ctx.withModel (ctx.model.logMut (ctx.fold target) fun log =>
                        log.modify msgid (react tag.2 tag.1 (ctx.fold (sender line)).asStr)
                          (react_key _ _ _)), [.messageReacted target msgid]),
                        by simp [hlog, hget], ?_, by simp [hlog, hget]⟩
                      exact quiet_singleton _ (by simp)

omit [Primitives] in
/-- A message found by its id is announced under its own key, whatever is changed about it. -/
theorem announced_modify {ctx : Context} {name msgid : Str} {message : ChatMessage}
    (h : (ctx.model.log (ctx.fold name)).bind (·.get msgid) = some message)
    (f : ChatMessage → ChatMessage) (hf : ∀ message, (f message).key = message.key) :
    Announced (ctx.withModel (ctx.model.logMut (ctx.fold name) fun log => log.modify msgid f hf),
      [.messageAdded name message.key]) := by
  obtain ⟨log, hlog, hget⟩ := Option.bind_eq_some_iff.mp h
  refine announced_singleton.mpr ⟨log.modify msgid f hf, ?_, ?_⟩
  · show (ctx.model.logMut (ctx.fold name) _).log (ctx.fold name) = _
    rw [Model.log_logMut, hlog]
    rfl
  · rw [MessageLog.isSome_getByKey_modify, MessageLog.getByKey_of_get hget]
    rfl

omit [Primitives] in
/-- A link preview is attached to a message that is held, and announces that one. -/
theorem linkPreview_announced {ctx : Context} {line : Message} {result : Result}
    (h : linkPreview ctx line = some result) : Announced result := by
  rcases linkPreview_eq_some h with rfl | ⟨name, msgid, message, f, hf, hmessage, rfl⟩
  · exact announced_of_quiet (quiet_nil _)
  · exact announced_modify hmessage f hf

/-- The target of a line that is filed as a message: neither a reaction to a message that is held
nor a link preview. -/
def filed (ctx : Context) (line : Message) : Option Str :=
  let command := toAsciiUppercase line.command
  let elsewhere := reacts ctx line || (LinkPreview.parse line).isSome
  if isMessage command && !(command == ("TAGMSG" : Str) && elsewhere) then line.param 0 else none

/-- The log that a message to this target goes into, when there is one. -/
def filingLog (ctx : Context) (line : Message) (target : Str) : Option MessageLog :=
  let name := filedUnder ctx line target
  if filesInChannel ctx target then (ctx.model.channel (ctx.fold name)).map Channel.log
  else some (ctx.model.conversationOr (ctx.fold name) name).log

/-- True when the target of a line leads to the message filed under this key: fewer messages than
the log keeps are newer, and no channel has the name of the conversation it went into. -/
def Reaches (ctx : Context) (line : Message) (target : Str) (log : MessageLog) (key : MessageKey) :
    Prop :=
  match filesInChannel ctx target, ctx.model.channel (ctx.fold (filedUnder ctx line target)) with
  | false, some channel => (channel.log.getByKey key).isSome
  | _, _ => TopKeys.newer log.messages key < log.retention

/-- What a line that is filed as a message must meet: unless the log it goes into holds the message
already, its target leads to it there. -/
def Findable (ctx : Context) (line : Message) : Prop :=
  ∀ target log, filed ctx line = some target → filingLog ctx line target = some log →
    log.holds (chatMessage ctx line (toAsciiUppercase line.command)) = false →
      Reaches ctx line target log (chatMessage ctx line (toAsciiUppercase line.command)).key

omit [Primitives] in
theorem announced_ite {ctx : Context} {target : Str} {key : MessageKey} {accepted : Bool}
    {log : MessageLog} (hlog : ctx.model.log (ctx.fold target) = some log) :
    Announced (ctx, if accepted then [.messageAdded target key] else []) ↔
      (accepted = true → (log.getByKey key).isSome) := by
  cases accepted with
  | false => exact iff_of_true (announced_of_quiet (quiet_nil _)) fun h => absurd h (by decide)
  | true =>
      refine announced_singleton.trans ⟨?_, fun h => ⟨log, hlog, h rfl⟩⟩
      rintro ⟨log', hlog', hfound⟩ -
      rw [hlog, Option.some.injEq] at hlog'
      rw [hlog']
      exact hfound

omit [Primitives] in
theorem insert_accepted {log : MessageLog} {message : ChatMessage} :
    (log.insert message).2 = true ↔ log.holds message = false := by
  cases h : log.holds message with
  | true =>
      rw [MessageLog.insert_of_holds h]
      exact iff_of_false Bool.false_ne_true (Ne.symm Bool.false_ne_true)
  | false =>
      rw [MessageLog.insert_of_not_holds h]
      exact iff_of_true rfl rfl

/-- Filing announces a message that is found exactly when it is not dropped at once, and its target
leads to where it is. -/
theorem announced_file_iff (ctx : Context) (line : Message) (command target : Str) :
    Announced (file ctx line command target) ↔
      ∀ log, filingLog ctx line target = some log →
        log.holds (chatMessage ctx line command) = false →
          Reaches ctx line target log (chatMessage ctx line command).key := by
  unfold file filingLog Reaches
  dsimp only
  generalize filedUnder ctx line target = name
  generalize chatMessage ctx line command = message
  rw [show filesInChannel ((ctx.stamp line).withModel
    (ctx.model.nextMessageKey (ctx.stamped line)).1) target = filesInChannel ctx target from rfl]
  cases filesInChannel ctx target with
  | true =>
      rw [show ((ctx.stamp line).withModel
          (ctx.model.nextMessageKey (ctx.stamped line)).1).model.channel (ctx.fold name) =
        ctx.model.channel (ctx.fold name) from rfl]
      cases ctx.model.channel (ctx.fold name) with
      | none =>
          refine iff_of_true (announced_of_quiet (quiet_nil _)) ?_
          intro log hlog
          exact absurd hlog (by simp)
      | some channel =>
          refine (announced_ite (Model.log_setChannel _ _ _)).trans ?_
          show ((channel.log.insert message).2 = true →
            ((channel.log.insert message).1.getByKey message.key).isSome) ↔ _
          rw [insert_accepted]
          constructor
          · intro h log hlog hnot
            cases hlog
            have hfound := h hnot
            rw [MessageLog.insert_of_not_holds hnot, MessageLog.getByKey_put_trim] at hfound
            exact hfound
          · intro h hnot
            rw [MessageLog.insert_of_not_holds hnot, MessageLog.getByKey_put_trim]
            exact h channel.log rfl hnot
  | false =>
      refine (announced_ite (Model.log_setConversation _ _ _)).trans ?_
      rw [show ((ctx.stamp line).withModel
        (ctx.model.nextMessageKey (ctx.stamped line)).1).model.channel
        (ctx.fold name) = ctx.model.channel (ctx.fold name) from rfl]
      show (((ctx.model.conversationOr (ctx.fold name) name).log.insert message).2 = true →
        ((((ctx.model.channel (ctx.fold name)).map Channel.log).getD
          ((ctx.model.conversationOr (ctx.fold name) name).log.insert message).1).getByKey
            message.key).isSome) ↔ _
      generalize (ctx.model.conversationOr (ctx.fold name) name).log = query
      rw [insert_accepted]
      cases ctx.model.channel (ctx.fold name) with
      | none =>
          constructor
          · intro h log hlog hnot
            cases hlog
            have hfound := h hnot
            rw [MessageLog.insert_of_not_holds hnot] at hfound
            exact (MessageLog.getByKey_put_trim _ _).mp hfound
          · intro h hnot
            rw [MessageLog.insert_of_not_holds hnot]
            exact (MessageLog.getByKey_put_trim _ _).mpr (h query rfl hnot)
      | some channel =>
          constructor
          · intro h log hlog hnot
            cases hlog
            exact h hnot
          · intro h hnot
            exact h query rfl hnot

/-- **When an announced message is found.**  Of any line on any model, live or in a batch: what is
announced is held under its key exactly when the message a line files, unless it was held already,
is not older than everything a full log keeps, and its target leads to that log. -/
theorem announced_apply_iff (ctx : Context) (line : Message) :
    Announced (apply ctx line) ↔ Findable ctx line := by
  cases hmessage : isMessage (toAsciiUppercase line.command) with
  | false =>
      refine iff_of_true (announced_of_quiet (apply_quiet ctx hmessage)) ?_
      intro target log hfiled
      simp [filed, hmessage] at hfiled
  | true =>
      rw [apply_of_isMessage ctx hmessage, message]
      cases htarget : line.param 0 with
      | none =>
          refine iff_of_true (announced_of_quiet (quiet_nil _)) ?_
          intro target log hfiled
          simp [filed, htarget] at hfiled
      | some target =>
          have hall : filed ctx line = some target →
              (Announced (file ctx line (toAsciiUppercase line.command) target) ↔
                Findable ctx line) := by
            intro hfiled
            rw [announced_file_iff]
            constructor
            · intro h target' log hfiled'
              rw [hfiled, Option.some.injEq] at hfiled'
              rw [← hfiled']
              exact h log
            · intro h log
              exact h target log hfiled
          dsimp only
          by_cases htagmsg : toAsciiUppercase line.command = "TAGMSG"
          · rw [if_pos htagmsg]
            rcases reaction_cases ctx line with ⟨result, hresult, hquiet, hreacts⟩ | ⟨hresult,
              hreacts⟩
            · rw [hresult]
              refine iff_of_true (announced_of_quiet hquiet) ?_
              intro target log hfiled
              simp [filed, htagmsg, hreacts] at hfiled
            · rw [hresult]
              cases hpreview : linkPreview ctx line with
              | some result =>
                  have hparse : (LinkPreview.parse line).isSome = true := by
                    rw [linkPreview] at hpreview
                    obtain ⟨preview, hparse, -⟩ := Option.map_eq_some_iff.mp hpreview
                    rw [hparse]
                    rfl
                  refine iff_of_true (linkPreview_announced hpreview) ?_
                  intro target log hfiled
                  simp [filed, htagmsg, hparse] at hfiled
              | none =>
                  have hparse : LinkPreview.parse line = none :=
                    Option.map_eq_none_iff.mp hpreview
                  exact hall (by simp [filed, htagmsg, hreacts, hparse, htarget, isMessage])
          · rw [if_neg htagmsg]
            refine hall ?_
            show (if isMessage _ && !(_ && _) then _ else _) = _
            rw [hmessage, beq_false_of_ne htagmsg]
            exact htarget

end Apply

/-- We are in a channel that keeps one message, and holds one said at two seconds past the epoch. -/
def fullChannel : Context :=
  let model := Model.withRetention 1
  let ctx : Context := ⟨{ model with me := { model.me with nick := "me" } }, .default, 0, false⟩
  let joined := (@apply .ascii ctx ⟨[], some ⟨"me", none, none⟩, "JOIN", ["#a"]⟩).1
  (@apply .ascii joined
    ⟨[⟨"time", some "1970-01-01T00:00:02.000Z"⟩], some ⟨"bea", none, none⟩, "PRIVMSG",
      ["#a", "new"]⟩).1

/-- What was said a second before that, as history brings it. -/
def olderLine : Message :=
  ⟨[⟨"time", some "1970-01-01T00:00:01.000Z"⟩], some ⟨"bea", none, none⟩, "PRIVMSG", ["#a", "old"]⟩

/-- A message older than everything a full log keeps is announced and not found. -/
theorem not_announced_older :
    ¬ @Announced (@apply .ascii { fullChannel with historical := true } olderLine) := by
  intro h
  obtain ⟨log, hlog, hfound⟩ := h "#a" ⟨1000, 1⟩ (by decide +kernel)
  have hdropped : ((@apply .ascii { fullChannel with historical := true } olderLine).1.model.log
      (Isupport.default.fold "#a")).all (fun log => (log.getByKey ⟨1000, 1⟩).isNone) = true := by
    decide +kernel
  rw [show Isupport.default.fold "#a" = (@apply .ascii { fullChannel with historical := true }
    olderLine).1.fold "#a" from rfl, hlog] at hdropped
  rw [Option.isNone_iff_eq_none.mp hdropped] at hfound
  exact absurd hfound (by decide)

end Session

end ObbyClient

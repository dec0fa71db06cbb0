import ObbyClient.Engine.Bearing
import ObbyClient.Engine.Edits
import ObbyClient.Engine.Places

/-!
# Which conversation a line belongs to

A message is filed by one rule; reactions, redactions and previews look their log up by another, and
typing is shown by a third.

* `Model.lookup` — where a name is looked up: among the channels, and else among the conversations;
* `Client.Agrees` — what is said about a message later finds it where it was filed;
* `Client.agrees_iff` — when that is so.
-/

namespace ObbyClient

namespace Model

/-! ### Looking a place up -/

/-- The place that a name leads to. -/
def lookup (model : Model) (key : CaseFolded) : Option Place :=
  if (model.channel key).isSome then some (.channel key)
  else if (model.conversation key).isSome then some (.conversation key)
  else none

theorem lookup_eq_channel {model : Model} {key other : CaseFolded} :
    model.lookup key = some (.channel other) ↔ (model.channel key).isSome = true ∧ key = other := by
  unfold lookup
  cases model.channel key with
  | some channel => simp
  | none =>
      cases model.conversation key with
      | some query => simp
      | none => simp

theorem lookup_eq_conversation {model : Model} {key other : CaseFolded} :
    model.lookup key = some (.conversation other) ↔
      model.channel key = none ∧ (model.conversation key).isSome = true ∧ key = other := by
  unfold lookup
  cases model.channel key with
  | some channel => simp
  | none =>
      cases model.conversation key with
      | some query => simp
      | none => simp

theorem log_eq_lookup (model : Model) (key : CaseFolded) :
    model.log key = (model.lookup key).bind model.logAt := by
  unfold log lookup
  cases hchannel : model.channel key with
  | some channel =>
      show some channel.log = (model.channel key).map Channel.log
      rw [hchannel]
      rfl
  | none =>
      cases hquery : model.conversation key with
      | some query =>
          show some query.log = some (((model.conversation key).map Conversation.log).getD _)
          rw [hquery]
          rfl
      | none => rfl

/-- A change to the log that a name leads to. -/
theorem logAt_logMut (model : Model) (key : CaseFolded) (f : MessageLog → MessageLog)
    (place : Place) :
    (model.logMut key f).logAt place =
      if model.lookup key = some place then (model.logAt place).map f else model.logAt place := by
  unfold logMut
  cases hchannel : model.channel key with
  | some channel =>
      cases place with
      | channel other =>
          show ((model.channels.modify key _)[other]?).map Channel.log = _
          rw [Std.ExtTreeMap.getElem?_modify]
          simp only [Std.LawfulEqCmp.compare_eq_iff_eq, lookup_eq_channel, hchannel,
            Option.isSome_some,
            true_and]
          by_cases heq : key = other
          · rw [if_pos heq, if_pos heq, heq]
            show ((model.channel other).map _).map _ = ((model.channel other).map _).map _
            rw [Option.map_map, Option.map_map]
            rfl
          · rw [if_neg heq, if_neg heq]
            rfl
      | conversation other =>
          rw [if_neg (by simp [lookup_eq_conversation, hchannel])]
          rfl
  | none =>
      cases place with
      | channel other =>
          rw [if_neg (by simp [lookup_eq_channel, hchannel])]
          rfl
      | conversation other =>
          show some ((((model.conversations.modify key _)[other]?).map Conversation.log).getD
            (.withRetention model.retention)) = _
          rw [Std.ExtTreeMap.getElem?_modify]
          simp only [Std.LawfulEqCmp.compare_eq_iff_eq, lookup_eq_conversation, hchannel, true_and]
          by_cases heq : key = other
          · rw [if_pos heq, heq]
            show some ((((model.conversation other).map _).map _).getD _) = _
            cases hquery : model.conversation other with
            | none =>
                rw [if_neg (by simp)]
                show _ = some (((model.conversation other).map Conversation.log).getD _)
                rw [hquery]
                rfl
            | some query =>
                rw [if_pos ⟨rfl, rfl⟩]
                show _ = (some (((model.conversation other).map Conversation.log).getD _)).map f
                rw [hquery]
                rfl
          · rw [if_neg heq, if_neg fun h => heq h.2]
            rfl

/-- True when somebody is shown as typing in a place. -/
def TypingAt (model : Model) (who : CaseFolded) : Place → Prop
  | .channel key => ∃ channel, model.channel key = some channel ∧ who ∈ channel.typing
  | .conversation key => ∃ query, model.conversation key = some query ∧ who ∈ query.typing

theorem typingAt_channel {model : Model} {key other who : CaseFolded} {channel : Channel} :
    TypingAt (model.setChannel key channel) who (.channel other) ↔
      if other = key then who ∈ channel.typing else TypingAt model who (.channel other) := by
  show (∃ found, (model.channels.insert key channel)[other]? = some found ∧ _) ↔ _
  rw [Std.ExtTreeMap.getElem?_insert]
  simp only [Std.LawfulEqCmp.compare_eq_iff_eq, eq_comm (a := key)]
  by_cases heq : other = key
  · rw [if_pos heq, if_pos heq]
    simp
  · rw [if_neg heq, if_neg heq]
    rfl

theorem typingAt_conversation {model : Model} {key other who : CaseFolded} {query : Conversation} :
    TypingAt (model.setConversation key query) who (.conversation other) ↔
      if other = key then who ∈ query.typing else TypingAt model who (.conversation other) := by
  show (∃ found, (model.conversations.insert key query)[other]? = some found ∧ _) ↔ _
  rw [Std.ExtTreeMap.getElem?_insert]
  simp only [Std.LawfulEqCmp.compare_eq_iff_eq, eq_comm (a := key)]
  by_cases heq : other = key
  · rw [if_pos heq, if_pos heq]
    simp
  · rw [if_neg heq, if_neg heq]
    rfl

/-- Who starts typing is shown where the name leads to. -/
theorem typingAt_setTyping {model : Model} {target who : CaseFolded} {place : Place} :
    TypingAt (model.setTyping target who true).1 who place ↔
      model.lookup target = some place ∨ TypingAt model who place := by
  have hself : ∀ typists : Std.ExtTreeSet CaseFolded,
      who ∈ (toggleTyping typists who true).1 := fun _ => mem_toggleTyping_true.mpr (.inl rfl)
  rcases model.setTyping_cases target who true with
    ⟨hchannel, hquery, hafter⟩ | ⟨channel, hchannel, hafter⟩ | ⟨query, hchannel, hquery, hafter⟩
  · rw [hafter]
    have hnone : model.lookup target = none := by
      unfold lookup
      rw [hchannel, hquery]
      rfl
    rw [hnone]
    simp
  · rw [hafter]
    cases place with
    | channel key =>
        rw [typingAt_channel, lookup_eq_channel, hchannel]
        by_cases heq : key = target
        · rw [if_pos heq, heq]
          exact iff_of_true (hself _) (.inl ⟨rfl, rfl⟩)
        · rw [if_neg heq]
          simp [Ne.symm heq]
    | conversation key =>
        rw [lookup_eq_conversation, hchannel]
        show TypingAt model who (.conversation key) ↔ _
        simp
  · rw [hafter]
    cases place with
    | channel key =>
        rw [lookup_eq_channel, hchannel]
        show TypingAt model who (.channel key) ↔ _
        simp
    | conversation key =>
        rw [typingAt_conversation, lookup_eq_conversation, hchannel, hquery]
        by_cases heq : key = target
        · rw [if_pos heq, heq]
          exact iff_of_true (hself _) (.inl ⟨rfl, rfl, rfl⟩)
        · rw [if_neg heq]
          simp [Ne.symm heq]

end Model

namespace MessageLog

theorem get_modify (log : MessageLog) (msgid : Str) (f : ChatMessage → ChatMessage)
    (hf : ∀ message, (f message).key = message.key) :
    (log.modify msgid f hf).get msgid = (log.get msgid).map f := by
  unfold get modify
  cases hkey : log.byMsgid[msgid]? with
  | none =>
      dsimp only
      rw [hkey]
      rfl
  | some key =>
      show (log.byMsgid[msgid]?).bind _ = _
      rw [hkey]
      show (log.messages.modify key f)[key]? = (log.messages[key]?).map f
      rw [Std.ExtTreeMap.getElem?_modify, if_pos Std.ReflCmp.compare_self]

end MessageLog

namespace Session

/-! ### Finding a message again -/

/-- What a line does that finds a message: it changes that message where it is, and tells of it. -/
structure Finds (ctx : Context) (result : Result) (place : Place) (msgid : Str)
    (f : ChatMessage → ChatMessage) (change : Change) : Prop where
  keeps : ∀ message, (f message).key = message.key
  log : result.1.model.logAt place =
    (ctx.model.logAt place).map fun log => log.modify msgid f keeps
  changes : result.2 = [change]

/-- What a line does that looks a message up and finds it. -/
theorem finds_of_lookup {ctx : Context} {place : Place} {name msgid : Str}
    {f : ChatMessage → ChatMessage} (hf : ∀ message, (f message).key = message.key)
    {change : Change} (hlookup : ctx.model.lookup (ctx.fold name) = some place) :
    Finds ctx (ctx.withModel (ctx.model.logMut (ctx.fold name) fun log => log.modify msgid f hf),
      [change]) place msgid f change := by
  refine ⟨hf, ?_, rfl⟩
  show (ctx.model.logMut (ctx.fold name) _).logAt place = _
  rw [Model.logAt_logMut, if_pos hlookup]

/-- A reaction, in terms of the log its target leads to. -/
theorem reaction_eq {ctx : Context} {line : Message} {emoji msgid target : Str} {adding : Bool}
    (htag : reactionTag line = some (emoji, adding)) (hreply : line.replyTag = some msgid)
    (htarget : line.param 0 = some target) :
    reaction ctx line =
      ((ctx.model.log (ctx.fold target)).bind (·.get msgid)).map fun _ =>
        (ctx.withModel (ctx.model.logMut (ctx.fold target) fun log =>
          log.modify msgid (react adding emoji (ctx.fold (sender line)).asStr) (react_key _ _ _)),
          [.messageReacted target msgid]) := by
  unfold reaction
  rw [htag, hreply, htarget]
  simp only [Option.bind_eq_bind, Option.bind_some]
  cases ctx.model.log (ctx.fold target) with
  | none => rfl
  | some log =>
      simp only [Option.bind_some]
      cases log.get msgid with
      | none => rfl
      | some held => rfl

variable [Primitives]

/-- What a `TAGMSG` does that carries a reaction to a message that is held. -/
theorem apply_reaction {ctx : Context} {line : Message} {target : Str} {result : Result}
    (hcommand : toAsciiUppercase line.command = "TAGMSG") (htarget : line.param 0 = some target)
    (hreaction : reaction ctx line = some result) : apply ctx line = result := by
  rw [apply_of_isMessage ctx (by rw [hcommand]; decide), hcommand]
  unfold message
  rw [htarget]
  dsimp only
  rw [if_pos rfl, hreaction]

/-- What a `TAGMSG` does that carries a link preview. -/
theorem apply_linkPreview {ctx : Context} {line : Message} {target : Str} {result : Result}
    (hcommand : toAsciiUppercase line.command = "TAGMSG") (htarget : line.param 0 = some target)
    (hreaction : reaction ctx line = none) (hpreview : linkPreview ctx line = some result) :
    apply ctx line = result := by
  rw [apply_of_isMessage ctx (by rw [hcommand]; decide), hcommand]
  unfold message
  rw [htarget]
  dsimp only
  rw [if_pos rfl, hreaction, hpreview]

/-- **A message is held where it was filed**, unless the log held its id already or a full log
dropped it at once. -/
theorem held_of_file {ctx : Context} {line : Message} {command target msgid : Str}
    {log : MessageLog} (hlog : ctx.model.logAt (placeOf ctx line target) = some log)
    (hindexed : log.Indexed) (hmsgid : line.tag "msgid" = some msgid)
    (hnew : log.contains msgid = false)
    (hkey : (chatMessage ctx line command).key ∉ log.messages)
    (hroom : TopKeys.newer log.messages (chatMessage ctx line command).key < log.retention) :
    ((file ctx line command target).1.model.logAt (placeOf ctx line target)).bind (·.get msgid) =
      some (chatMessage ctx line command) := by
  rw [logAt_file, if_pos rfl, hlog]
  generalize hmessage : chatMessage ctx line command = message at hkey hroom
  have hid : message.msgid = some msgid := by
    rw [← hmessage]
    exact hmsgid
  have hholds : log.holds message = false := by
    unfold MessageLog.holds
    rw [hid]
    exact hnew
  have hput : (log.put message).trim.Indexed := by
    refine MessageLog.trim_indexed (MessageLog.put_indexed hindexed ?_ ?_)
    · intro id heq
      rw [hid, Option.some.injEq] at heq
      rw [← heq]
      unfold MessageLog.contains at hnew
      rw [Std.ExtTreeMap.contains_eq_isSome_getElem?] at hnew
      exact Option.isNone_iff_eq_none.mp (Option.isSome_eq_false_iff.mp hnew)
    · intro held hheld
      exact absurd (Std.ExtTreeMap.mem_iff_isSome_getElem?.mpr (Option.isSome_of_eq_some hheld))
        hkey
  show (log.insert message).1.get msgid = some message
  rw [MessageLog.insert_of_not_holds hholds]
  refine (MessageLog.get_eq_some hput).mpr ⟨?_, hid⟩
  rw [MessageLog.mem_iter]
  obtain ⟨found, hfound⟩ :=
    Option.isSome_iff_exists.mp ((log.getByKey_put_trim message).mpr hroom)
  have hsame : (log.put message).messages[message.key]? = some message := by
    rw [MessageLog.put_messages, if_pos rfl]
  unfold MessageLog.getByKey at hfound
  rw [MessageLog.trim_messages, TopKeys.getElem?_top] at hfound ⊢
  split at hfound
  · rename_i hlt
    rw [if_pos hlt]
    exact hsame
  · cases hfound

end Session

namespace Client

open Model Session

/-! ### The places agree -/

/-- A line from somebody to a target. -/
structure Sent (line : Message) (command : Str) (source : Source) (target : Str) : Prop where
  command : toAsciiUppercase line.command = command
  source : line.source = some source
  target : line.param 0 = some target

theorem Sent.sender {line : Message} {command target : Str} {source : Source}
    (h : Sent line command source target) : Session.sender line = source.name := by
  unfold Session.sender
  rw [h.source]
  rfl

section Agree

variable [Primitives] (c : Client) (historical : Bool) (source : Source) (target msgid : Str)
  (place : Place)

/-- What is said later about a message finds it where it was filed, and who types there is shown
there. -/
structure Agrees : Prop where
  reacts : ∀ line emoji adding, Sent line "TAGMSG" source target →
    reactionTag line = some (emoji, adding) → line.replyTag = some msgid →
      Finds (c.context historical) (apply (c.context historical) line) place msgid
        (react adding emoji (c.isupport.fold source.name).asStr) (.messageReacted target msgid)
  redacts : ∀ line, Sent line "REDACT" source target → line.param 1 = some msgid →
    Finds (c.context historical) (apply (c.context historical) line) place msgid
      (fun message => { message with redacted := true }) (.messageRedacted target msgid)
  previews : ∀ line preview, Sent line "TAGMSG" source target → reactionTag line = none →
    LinkPreview.parse line = some (msgid, preview) →
      ∃ key, Finds (c.context historical) (apply (c.context historical) line) place msgid
        (fun message => { message with linkPreview := some preview }) (.messageAdded target key)
  types : ∀ line d, Sent line "TAGMSG" source target → line.tag "+typing" = some ("active" : Str) →
    c.handleTyping line = some d → TypingAt d.model (c.isupport.fold source.name) place

omit [Primitives] in
/-- True when a target names a place as it is: a channel without a prefix in front of it, or
somebody who is not the other side of it, and whose name is not a channel's. -/
structure Routes : Prop where
  bare : filesInChannel (c.context historical) target = true →
    addressee (c.context historical) target = target
  free : filesInChannel (c.context historical) target = false →
    c.model.channel (c.isupport.fold target) = none
  other : filesInChannel (c.context historical) target = false →
    (c.context historical).isMe source.name = false →
      c.isupport.fold source.name = c.isupport.fold target
  shown : filesInChannel (c.context historical) target = false →
    c.isupport.isChannel target = false →
      c.isupport.fold source.name = c.isupport.fold target ∨
        TypingAt c.model (c.isupport.fold source.name) (.conversation (c.isupport.fold target))

end Agree

section Lookup

variable {c : Client} {historical : Bool} {line : Message} {source : Source} {target msgid : Str}
  {log : MessageLog} {held : ChatMessage}

/-- A fold keeps the length, so a target folds as its end does only when that is all of it. -/
theorem addressee_eq_of_fold (ctx : Context)
    (h : ctx.fold target = ctx.fold (addressee ctx target)) : addressee ctx target = target := by
  have hlength : (addressee ctx target).length = target.length := by
    have hsame := congrArg (fun folded : CaseFolded => folded.asStr.length) h
    simpa [Context.fold, Isupport.fold, Casemapping.fold] using hsame.symm
  exact (List.dropWhile_suffix _).eq_of_length hlength

theorem place_of_filesInChannel (hin : filesInChannel (c.context historical) target = true) :
    placeOf (c.context historical) line target =
      .channel (c.isupport.fold (addressee (c.context historical) target)) := by
  unfold placeOf filedUnder
  rw [if_pos hin, if_pos hin]
  rfl

theorem place_of_not_filesInChannel (hsource : line.source = some source)
    (hin : filesInChannel (c.context historical) target = false) :
    placeOf (c.context historical) line target = .conversation (c.isupport.fold
      (if (c.context historical).isMe source.name then target else source.name)) := by
  have hsender : sender line = source.name := by
    unfold sender
    rw [hsource]
    rfl
  unfold placeOf filedUnder
  rw [hin, if_neg Bool.false_ne_true, if_neg Bool.false_ne_true, hsender]
  rfl

/-- A conversation that holds a message is there. -/
theorem conversation_isSome {model : Model} {key : CaseFolded}
    (hlog : model.logAt (.conversation key) = some log) (hheld : log.get msgid = some held) :
    (model.conversation key).isSome = true := by
  cases hquery : model.conversation key with
  | some query => rfl
  | none =>
      have hempty : MessageLog.withRetention model.retention = log := by
        have h : some (((model.conversation key).map Conversation.log).getD
          (.withRetention model.retention)) = some log := hlog
        rw [hquery] at h
        exact Option.some.inj h
      rw [← hempty] at hheld
      unfold MessageLog.get MessageLog.withRetention at hheld
      rw [Std.ExtTreeMap.getElem?_empty] at hheld
      cases hheld

/-- **Where a target leads.**  It leads to where a message to it was filed, but for a prefix in
front of a channel, a channel of that name, and somebody else's message to us. -/
theorem lookup_iff (hsource : line.source = some source)
    (hlog : c.model.logAt (placeOf (c.context historical) line target) = some log)
    (hheld : log.get msgid = some held) :
    c.model.lookup (c.isupport.fold target) = some (placeOf (c.context historical) line target) ↔
      (filesInChannel (c.context historical) target = true →
        addressee (c.context historical) target = target) ∧
      (filesInChannel (c.context historical) target = false →
        c.model.channel (c.isupport.fold target) = none) ∧
      (filesInChannel (c.context historical) target = false →
        (c.context historical).isMe source.name = false →
          c.isupport.fold source.name = c.isupport.fold target) := by
  cases hin : filesInChannel (c.context historical) target with
  | true =>
      rw [place_of_filesInChannel hin] at hlog ⊢
      rw [lookup_eq_channel]
      constructor
      · intro h
        exact ⟨fun _ => addressee_eq_of_fold (c.context historical) h.2, by simp, by simp⟩
      · intro h
        have hbare := h.1 rfl
        rw [hbare] at hlog ⊢
        obtain ⟨channel, hchannel, -⟩ := Option.map_eq_some_iff.mp
          (show (c.model.channel _).map Channel.log = some log from hlog)
        rw [hchannel]
        exact ⟨rfl, rfl⟩
  | false =>
      rw [place_of_not_filesInChannel hsource hin] at hlog ⊢
      have hsome := conversation_isSome hlog hheld
      rw [lookup_eq_conversation]
      cases hme : (c.context historical).isMe source.name with
      | true =>
          rw [hme, if_pos rfl] at hsome
          rw [if_pos rfl]
          constructor
          · intro h
            exact ⟨by simp, fun _ => h.1, by simp⟩
          · intro h
            exact ⟨h.2.1 rfl, hsome, rfl⟩
      | false =>
          rw [hme, if_neg Bool.false_ne_true] at hsome
          rw [if_neg Bool.false_ne_true]
          constructor
          · intro h
            exact ⟨by simp, fun _ => h.1, fun _ _ => h.2.2.symm⟩
          · intro h
            have hsame := h.2.2 rfl rfl
            rw [hsame] at hsome ⊢
            exact ⟨h.2.1 rfl, hsome, rfl⟩

/-- A conversation that a target leads to is the one of that name. -/
theorem place_of_lookup (hsource : line.source = some source)
    (hin : filesInChannel (c.context historical) target = false)
    (hlookup : c.model.lookup (c.isupport.fold target) =
      some (placeOf (c.context historical) line target)) :
    placeOf (c.context historical) line target = .conversation (c.isupport.fold target) := by
  rw [place_of_not_filesInChannel hsource hin] at hlookup ⊢
  rw [(lookup_eq_conversation.mp hlookup).2.2]

/-- A name leads to a place of that name only. -/
theorem lookup_inj {model : Model} {key other : CaseFolded} {place : Place}
    (h : model.lookup key = some place) (h' : model.lookup other = some place) : key = other := by
  cases place with
  | channel name => exact (lookup_eq_channel.mp h).2.trans (lookup_eq_channel.mp h').2.symm
  | conversation name =>
      exact (lookup_eq_conversation.mp h).2.2.trans (lookup_eq_conversation.mp h').2.2.symm

/-- **Where typing is shown**, once a target leads to a place. -/
theorem typing_iff {place : Place}
    (hlookup : c.model.lookup (c.isupport.fold target) = some place) :
    (∀ line d, Sent line "TAGMSG" source target → line.tag "+typing" = some ("active" : Str) →
      c.handleTyping line = some d → TypingAt d.model (c.isupport.fold source.name) place) ↔
      (c.isupport.isChannel target = false →
        c.isupport.fold source.name = c.isupport.fold target ∨
          TypingAt c.model (c.isupport.fold source.name) place) := by
  have hmodel : ∀ line d, Sent line "TAGMSG" source target →
      line.tag "+typing" = some ("active" : Str) → c.handleTyping line = some d →
      (TypingAt d.model (c.isupport.fold source.name) place ↔
        c.model.lookup (c.isupport.fold
          (if c.isupport.isChannel target then target else source.name)) = some place ∨
          TypingAt c.model (c.isupport.fold source.name) place) := by
    intro line d hsent htag hd
    obtain ⟨state, target', source', hstate, htarget', hsource', hbearing⟩ :=
      handleTyping_bearing hd
    rw [hsent.target, Option.some.injEq] at htarget'
    rw [hsent.source, Option.some.injEq] at hsource'
    rw [htag, Option.some.injEq] at hstate
    rw [← hstate, ← htarget', ← hsource'] at hbearing
    rw [show d.model = _ from congrArg Bearing.model hbearing]
    exact typingAt_setTyping
  -- the line that asks for it
  have hline : ∃ line d, Sent line "TAGMSG" source target ∧
      line.tag "+typing" = some ("active" : Str) ∧ c.handleTyping line = some d := by
    refine ⟨⟨[⟨"+typing", some "active"⟩], some source, "TAGMSG", [target]⟩, ?_⟩
    have htold : (c.handleTyping
        ⟨[⟨"+typing", some "active"⟩], some source, "TAGMSG", [target]⟩).isSome = true := by
      rw [handleTyping_isSome]
      rfl
    obtain ⟨d, hd⟩ := Option.isSome_iff_exists.mp htold
    have hcommand : toAsciiUppercase "TAGMSG" = ("TAGMSG" : Str) := by decide
    have htag : Tags.get [⟨"+typing", some "active"⟩] "+typing" = some ("active" : Str) := by decide
    exact ⟨d, ⟨hcommand, rfl, rfl⟩, htag, hd⟩
  constructor
  · intro h hchannel
    obtain ⟨line, d, hsent, htag, hd⟩ := hline
    have htyping := (hmodel line d hsent htag hd).mp (h line d hsent htag hd)
    rw [hchannel, if_neg Bool.false_ne_true] at htyping
    exact htyping.imp_left fun hsame => lookup_inj hsame hlookup
  · intro h line d hsent htag hd
    rw [hmodel line d hsent htag hd]
    cases hchannel : c.isupport.isChannel target with
    | true =>
        rw [if_pos rfl]
        exact .inl hlookup
    | false =>
        rw [if_neg Bool.false_ne_true]
        refine (h hchannel).imp_left ?_
        intro hsame
        rw [hsame]
        exact hlookup

end Lookup

section Iff

variable [Primitives] {c : Client} {historical : Bool} {line : Message} {source : Source}
  {target msgid : Str} {place : Place} {log : MessageLog} {held : ChatMessage}

/-- A line that reacts to a message. -/
def reactionLineFrom (source : Source) (target msgid : Str) (adding : Bool) : Message :=
  ⟨[⟨if adding then "+draft/react" else "+draft/unreact", some "x"⟩, ⟨"+reply", some msgid⟩],
    some source, "TAGMSG", [target]⟩

/-- What reacts to a message finds it only where its target leads. -/
theorem lookup_of_reacts (hlog : c.model.logAt place = some log) (hheld : log.get msgid = some held)
    (h : ∀ line emoji adding, Sent line "TAGMSG" source target →
      reactionTag line = some (emoji, adding) → line.replyTag = some msgid →
        Finds (c.context historical) (apply (c.context historical) line) place msgid
          (react adding emoji (c.isupport.fold source.name).asStr) (.messageReacted target msgid)) :
    c.model.lookup (c.isupport.fold target) = some place := by
  by_contra hlookup
  -- a reaction that changes another log leaves this one as it was
  have hsame : ∀ adding emoji,
      (∃ line, Sent line "TAGMSG" source target ∧ reactionTag line = some (emoji, adding) ∧
        line.replyTag = some msgid ∧ LinkPreview.parse line = none) →
      react adding emoji (c.isupport.fold source.name).asStr held = held := by
    intro adding emoji hexists
    obtain ⟨line, hsent, htag, hreply, hpreview⟩ := hexists
    have hfinds := h line emoji adding hsent htag hreply
    have heq := @reaction_eq (c.context historical) line _ _ _ _ htag hreply hsent.target
    cases hmessage : (c.model.log (c.isupport.fold target)).bind (·.get msgid) with
    | none =>
        have hnone : reaction (c.context historical) line = none := by
          rw [heq]
          show ((c.model.log (c.isupport.fold target)).bind (·.get msgid)).map _ = none
          rw [hmessage]
          rfl
        have hfiled : apply (c.context historical) line =
            file (c.context historical) line "TAGMSG" target := by
          rw [apply_of_isMessage _ (by rw [hsent.command]; decide), hsent.command]
          unfold message
          rw [hsent.target]
          dsimp only
          rw [if_pos rfl, hnone]
          unfold linkPreview
          rw [hpreview]
          rfl
        have hmem : Change.messageReacted target msgid ∈
            (file (c.context historical) line "TAGMSG" target).2 := by
          rw [← hfiled, hfinds.changes]
          exact List.mem_singleton_self _
        obtain ⟨_, _, hchange⟩ := file_changes hmem
        cases hchange
    | some found =>
        have hsome : reaction (c.context historical) line = some
            ((c.context historical).withModel (c.model.logMut (c.isupport.fold target) fun log =>
              log.modify msgid (react adding emoji
                ((c.context historical).fold (sender line)).asStr)
                (react_key _ _ _)), [.messageReacted target msgid]) := by
          rw [heq]
          show ((c.model.log (c.isupport.fold target)).bind (·.get msgid)).map _ = _
          rw [hmessage]
          rfl
        rw [apply_reaction hsent.command hsent.target hsome] at hfinds
        have hkept : (c.model.logMut (c.isupport.fold target) fun log =>
            log.modify msgid (react adding emoji ((c.context historical).fold (sender line)).asStr)
              (react_key _ _ _)).logAt place = some log := by
          rw [logAt_logMut, if_neg hlookup]
          exact hlog
        have hafter := hkept.symm.trans (hfinds.log.trans (congrArg (Option.map _) hlog))
        rw [Option.map_some, Option.some.injEq] at hafter
        have hget : log.get msgid = _ := congrArg (MessageLog.get · msgid) hafter
        rw [MessageLog.get_modify, hheld, Option.map_some, Option.some.injEq] at hget
        exact hget.symm
  have hcommand : toAsciiUppercase "TAGMSG" = ("TAGMSG" : Str) := by decide
  have hadd := hsame true "x" ⟨reactionLineFrom source target msgid true, ⟨hcommand, rfl, rfl⟩,
    rfl, rfl, rfl⟩
  have hremove := hsame false "x" ⟨reactionLineFrom source target msgid false, ⟨hcommand, rfl, rfl⟩,
    rfl, rfl, rfl⟩
  generalize (c.isupport.fold source.name).asStr = who at hadd hremove
  -- who reacts is among the reactors, and who takes it back is not
  have hin : who ∈ held.reactions["x".toList]?.getD [] := by
    rw [← hadd]
    unfold react
    rw [if_pos rfl]
    show who ∈ ((held.reactions.insert _ _)[_]?).getD []
    rw [Std.ExtTreeMap.getElem?_insert, if_pos Std.ReflCmp.compare_self]
    split
    · rename_i hmem
      exact hmem
    · exact List.mem_append_right _ (List.mem_singleton_self _)
  have hout : who ∉ held.reactions["x".toList]?.getD [] := by
    rw [← hremove]
    unfold react
    rw [if_neg Bool.false_ne_true]
    dsimp only
    split
    · rw [Std.ExtTreeMap.getElem?_erase, if_pos Std.ReflCmp.compare_self]
      exact List.not_mem_nil
    · rw [Std.ExtTreeMap.getElem?_insert, if_pos Std.ReflCmp.compare_self]
      intro hmem
      have hne := (List.mem_filter.mp hmem).2
      simp at hne
  exact hout hin

/-- Of a message that is held where a line from this sender to this target is filed: what is said
about it later to the same target finds it there, and typing is shown there, exactly when the target
names that place as it is. -/
theorem agrees_of_held (hsource : line.source = some source)
    (hlog : c.model.logAt (placeOf (c.context historical) line target) = some log)
    (hheld : log.get msgid = some held) :
    c.Agrees historical source target msgid (placeOf (c.context historical) line target) ↔
      c.Routes historical source target := by
  have hroutes := lookup_iff hsource hlog hheld
  constructor
  · intro h
    have hlookup := lookup_of_reacts hlog hheld h.reacts
    obtain ⟨hbare, hfree, hother⟩ := hroutes.mp hlookup
    refine ⟨hbare, hfree, hother, ?_⟩
    intro hin hchannel
    rw [← place_of_lookup hsource hin hlookup]
    exact (typing_iff hlookup).mp h.types hchannel
  · intro h
    have hlookup := hroutes.mpr ⟨h.bare, h.free, h.other⟩
    have hfound : (c.model.log (c.isupport.fold target)).bind (·.get msgid) = some held := by
      rw [log_eq_lookup, hlookup, Option.bind_some, hlog, Option.bind_some, hheld]
    refine ⟨?_, ?_, ?_, ?_⟩
    · intro line emoji adding hsent htag hreply
      have hsome := @reaction_eq (c.context historical) line _ _ _ _ htag hreply hsent.target
      rw [show ((c.context historical).model.log ((c.context historical).fold target)).bind
        (·.get msgid) = some held from hfound, Option.map_some, hsent.sender] at hsome
      rw [apply_reaction hsent.command hsent.target hsome]
      exact finds_of_lookup _ hlookup
    · intro line hsent hmsgid
      rw [apply_of_handles _ hsent.command .redact]
      unfold redact
      rw [hsent.target, hmsgid]
      dsimp only
      rw [show ((c.context historical).model.log ((c.context historical).fold target)).bind
        (·.get msgid) = some held from hfound]
      exact finds_of_lookup _ hlookup
    · intro line preview hsent htag hparse
      have hreaction : reaction (c.context historical) line = none := by
        unfold reaction
        rw [htag]
        rfl
      refine ⟨held.key, ?_⟩
      have hpreview : linkPreview (c.context historical) line = some
          ((c.context historical).withModel (c.model.logMut (c.isupport.fold target) fun log =>
            log.modify msgid (fun message => { message with linkPreview := some preview })
              fun _ => rfl), [.messageAdded target held.key]) := by
        unfold linkPreview
        rw [hparse, Option.map_some, hsent.target]
        dsimp only
        rw [show ((c.context historical).model.log ((c.context historical).fold target)).bind
          (·.get msgid) = some held from hfound]
        rfl
      rw [apply_linkPreview hsent.command hsent.target hreaction hpreview]
      exact finds_of_lookup _ hlookup
    · refine (typing_iff hlookup).mpr ?_
      intro hchannel
      cases hin : filesInChannel (c.context historical) target with
      | true =>
          -- a bare channel is a channel
          have hbare := h.bare hin
          unfold filesInChannel at hin
          rw [hbare] at hin
          rw [show (c.context historical).isupport.isChannel target =
            c.isupport.isChannel target from
            rfl, hchannel] at hin
          cases hin
      | false =>
          rw [place_of_lookup hsource hin hlookup]
          exact h.shown hin hchannel

/-- What becomes of a text: it is inserted into the log of its place and into no other, and found
there by its id, unless the log held that id or a full log dropped it at once. -/
theorem apply_files (ctx : Context) (hsent : Sent line "PRIVMSG" source target)
    (hmsgid : line.tag "msgid" = some msgid) :
    (∀ place, (apply ctx line).1.model.logAt place =
      if place = placeOf ctx line target then
        (ctx.model.logAt place).map fun log => (log.insert (chatMessage ctx line "PRIVMSG")).1
      else ctx.model.logAt place) ∧
    ∀ log, ctx.model.logAt (placeOf ctx line target) = some log → log.Indexed →
      log.contains msgid = false → (chatMessage ctx line "PRIVMSG").key ∉ log.messages →
        TopKeys.newer log.messages (chatMessage ctx line "PRIVMSG").key < log.retention →
          ((apply ctx line).1.model.logAt (placeOf ctx line target)).bind (·.get msgid) =
            some (chatMessage ctx line "PRIVMSG") := by
  have hfile : apply ctx line = file ctx line "PRIVMSG" target := by
    rw [apply_of_isMessage ctx (by rw [hsent.command]; decide), hsent.command]
    unfold message
    rw [hsent.target]
    exact if_neg (by decide)
  rw [hfile]
  refine ⟨logAt_file ctx line "PRIVMSG" target, ?_⟩
  intro log hlog hindexed hnew hkey hroom
  exact held_of_file hlog hindexed hmsgid hnew hkey hroom

/-- **When the places agree.**  A text from this sender to this target is filed in its place and
nowhere else.  Of a message that is held there, then or later, what is said about it to the same
target finds it there, and typing is shown there, exactly when the target names that place as it
is. -/
theorem agrees_iff (hsource : line.source = some source) :
    (∀ ctx : Context, Sent line "PRIVMSG" source target → line.tag "msgid" = some msgid →
      (∀ place, (apply ctx line).1.model.logAt place =
        if place = placeOf ctx line target then
          (ctx.model.logAt place).map fun log => (log.insert (chatMessage ctx line "PRIVMSG")).1
        else ctx.model.logAt place) ∧
      ∀ log, ctx.model.logAt (placeOf ctx line target) = some log → log.Indexed →
        log.contains msgid = false → (chatMessage ctx line "PRIVMSG").key ∉ log.messages →
          TopKeys.newer log.messages (chatMessage ctx line "PRIVMSG").key < log.retention →
            ((apply ctx line).1.model.logAt (placeOf ctx line target)).bind (·.get msgid) =
              some (chatMessage ctx line "PRIVMSG")) ∧
    ∀ (c : Client) (historical : Bool) (log : MessageLog) (held : ChatMessage),
      c.model.logAt (placeOf (c.context historical) line target) = some log →
        log.get msgid = some held →
          (c.Agrees historical source target msgid (placeOf (c.context historical) line target) ↔
            c.Routes historical source target) :=
  ⟨fun ctx hsent hmsgid => apply_files ctx hsent hmsgid,
    fun _ _ _ _ hlog hheld => agrees_of_held hsource hlog hheld⟩

end Iff

/-- Somebody who talks to us, in a channel and in private. -/
def bob : Source := ⟨"bob", some "u", some "h"⟩

/-- A message in a channel. -/
theorem agrees_channel : letI := Primitives.ascii
    let c := (new (.new "me")).run [.connected, .bytes (Utf8.encode
      ":s 001 me :hi\n:me!u@h JOIN #a\n@msgid=m :bob!u@h PRIVMSG #a :yo\n")]
    c.Agrees false bob "#a" "m" (.channel ⟨"#a"⟩) := by
  let _ := Primitives.ascii
  intro c
  let line : Message := ⟨[], some bob, "PRIVMSG", ["#a", "yo"]⟩
  have hplace : placeOf (c.context false) line "#a" = .channel ⟨"#a"⟩ := by decide +kernel
  have hheld : ((c.model.logAt (placeOf (c.context false) line "#a")).bind (·.get "m")).isSome =
      true := by decide +kernel
  obtain ⟨held, hheld⟩ := Option.isSome_iff_exists.mp hheld
  obtain ⟨log, hlog, hget⟩ := Option.bind_eq_some_iff.mp hheld
  rw [← hplace]
  have hsource : line.source = some bob := rfl
  refine ((agrees_iff hsource).2 c false log held hlog hget).mpr ⟨?_, ?_, ?_, ?_⟩
  · decide +kernel
  · decide +kernel
  · decide +kernel
  · intro hin
    exact absurd hin (by decide +kernel)

/-- **What is said about a message to us is not found**, nor about one to the operators of a
channel. -/
theorem not_agrees_to_us : letI := Primitives.ascii
    let c := (new (.new "me")).run [.connected, .bytes (Utf8.encode
      ((":s 001 me :hi\n:s 005 me STATUSMSG=@ :are supported\n:me!u@h JOIN #a\n" : Str) ++
        "@msgid=m :bob!u@h PRIVMSG me :yo\n@msgid=n :bob!u@h PRIVMSG @#a :yo\n"))]
    c.Reachable ∧
      ((c.model.logAt (.conversation ⟨"bob"⟩)).bind (·.get "m")).isSome = true ∧
      ¬ c.Agrees false bob "me" "m" (.conversation ⟨"bob"⟩) ∧
      ((c.model.logAt (.channel ⟨"#a"⟩)).bind (·.get "n")).isSome = true ∧
      ¬ c.Agrees false bob "@#a" "n" (.channel ⟨"#a"⟩) := by
  let _ := Primitives.ascii
  intro c
  have hrun : ((c.model.logAt (.conversation ⟨"bob"⟩)).bind (·.get "m")).isSome = true ∧
      ((c.model.logAt (.channel ⟨"#a"⟩)).bind (·.get "n")).isSome = true := by
    decide +kernel
  obtain ⟨hus, hops⟩ := hrun
  refine ⟨⟨_, _, rfl⟩, hus, ?_, hops, ?_⟩
  · intro h
    obtain ⟨held, hheld⟩ := Option.isSome_iff_exists.mp hus
    obtain ⟨log, hlog, hget⟩ := Option.bind_eq_some_iff.mp hheld
    exact absurd (lookup_of_reacts hlog hget h.reacts) (by decide +kernel)
  · intro h
    obtain ⟨held, hheld⟩ := Option.isSome_iff_exists.mp hops
    obtain ⟨log, hlog, hget⟩ := Option.bind_eq_some_iff.mp hheld
    exact absurd (lookup_of_reacts hlog hget h.reacts) (by decide +kernel)

end Client

end ObbyClient

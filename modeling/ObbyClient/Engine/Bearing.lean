import ObbyClient.Engine.Apart
import ObbyClient.Engine.Outbound

/-!
# Which lines touch the model

Most lines that a handler claims for itself leave the model alone, and the batches with it.

* `Client.Bearing` — the model, and what it is read by;
* `Client.claims` — the lines that a handler takes before anybody asks for their batch;
* `Client.dispatch_does` — what a line does to the bearing of a connection;
* `Client.command_bearing`, `Client.tick_bearing` — what a host does to it.
-/

namespace ObbyClient.Client

/-- The model of a connection, what its keys are folded by and what is kept beside it. -/
structure Bearing where
  nick : Str
  isupport : Isupport
  model : Model
  batches : Batches
  channelKeys : Std.ExtTreeMap CaseFolded Str
  timers : Timers

/-- The bearing of this connection. -/
def bearing (c : Client) : Bearing :=
  ⟨c.nick, c.isupport, c.model, c.batches, c.channelKeys, c.timers⟩

/-! ### The lines that are claimed -/

/-- True when a line carries a voice signalling frame. -/
def tellsRtc (message : Message) : Bool :=
  (message.tag "+obsidianirc/rtc").isSome && (message.param 0).isSome

/-- True when a line carries an announcement of bots. -/
def tellsBots (message : Message) : Bool :=
  (message.tag botInfoTag).isSome || (message.tag botCommandsTag).isSome

/-- True when a line hands over a bearer token. -/
def tellsToken (message : Message) : Bool :=
  message.is "TOKEN" && message.param 0 == some ("GENERATE" : Str) &&
    (message.param 1).isSome && (message.param 2).isSome && (message.param 3).isSome

/-- True when a line has the shape of a standard reply. -/
def tellsReply (message : Message) : Bool :=
  (severityOf message.command).isSome && (message.param 1).isSome

/-- True when a handler claims a line before its batch is looked for. -/
def claims (message : Message) : Bool :=
  message.is "PONG" || message.is "PING" || message.is "CAP" || message.is "001" ||
    message.is "005" ||
    (message.is "TAGMSG" && (tellsTyping message || tellsRtc message || tellsBots message)) ||
    tellsToken message || message.is "CMDSLIST" || message.command == "730" ||
    message.command == "731" || tellsReply message || message.is "AUTHENTICATE" ||
    message.is "433" || message.is "432" || (saslFailure message.command).isSome ||
    message.is "900" || message.is "903"

theorem handleTyping_isSome (c : Client) (message : Message) :
    (c.handleTyping message).isSome = tellsTyping message := by
  unfold handleTyping tellsTyping
  cases message.tag "+typing" <;> cases message.param 0 <;> cases message.source <;> rfl

theorem handleRtc_isSome (c : Client) (message : Message) :
    (c.handleRtc message).isSome = tellsRtc message := by
  unfold handleRtc tellsRtc
  cases message.tag "+obsidianirc/rtc" with
  | none => rfl
  | some payload =>
      cases message.param 0 with
      | none => rfl
      | some channel =>
          dsimp only
          cases Voice.Signal.fromJson payload with
          | none => rfl
          | some signal => rfl

theorem handleToken_isSome (c : Client) (message : Message) :
    (c.handleToken message).isSome = tellsToken message := by
  unfold handleToken tellsToken
  by_cases htoken : message.is "TOKEN" = true
  · by_cases hgenerate : message.param 0 = some ("GENERATE" : Str)
    · rw [if_neg (by simp only [htoken, hgenerate]; decide), htoken, hgenerate]
      cases message.param 1 <;> cases message.param 2 <;> cases message.param 3 <;> rfl
    · rw [if_pos (.inr hgenerate), beq_eq_false_iff_ne.mpr hgenerate]
      simp only [Bool.and_false, Bool.false_and, Option.isSome_none]
  · rw [Bool.not_eq_true] at htoken
    rw [if_pos (.inl (by rw [htoken]; rfl)), htoken]
    simp only [Bool.false_and, Option.isSome_none]

theorem handleStandardReply_isSome (c : Client) (message : Message) :
    (c.handleStandardReply message).isSome = tellsReply message := by
  unfold handleStandardReply tellsReply
  cases severityOf message.command <;> cases message.param 1 <;> rfl

/-! ### The handlers that leave the bearing alone -/

theorem sendLines_bearing (c : Client) (messages : List Message) :
    (c.sendLines messages).bearing = c.bearing := by
  rw [sendLines_eq]
  rfl

theorem emits_bearing (c : Client) (events : List Event) :
    (c.emits events).bearing = c.bearing := by
  rw [emits_eq]
  rfl

theorem Negotiates.bearing {c d : Client} (h : Negotiates c d) : d.bearing = c.bearing := by
  obtain ⟨_, _, _, _, _, _, rfl, -⟩ := h
  rfl

theorem handleRtc_bearing {c d : Client} {message : Message} (h : c.handleRtc message = some d) :
    d.bearing = c.bearing := by
  rcases handleRtc_eq h with rfl | ⟨rooms, channel, signal, rfl⟩
  · rfl
  · rfl

theorem handleToken_bearing {c d : Client} {message : Message}
    (h : c.handleToken message = some d) : d.bearing = c.bearing := by
  obtain ⟨service, endpoint, token, rfl⟩ := handleToken_eq h
  rfl

theorem handleStandardReply_bearing {c d : Client} {message : Message}
    (h : c.handleStandardReply message = some d) : d.bearing = c.bearing := by
  obtain ⟨severity, command, code, context, text, rfl⟩ := handleStandardReply_eq h
  rfl

theorem handleMonitor_bearing (c : Client) (message : Message) :
    (c.handleMonitor message).bearing = c.bearing := by
  obtain ⟨monitor, events, heq, -⟩ := c.handleMonitor_eq message
  rw [heq]
  rfl

/-! ### The handlers that do not -/

/-- The bearing of a connection that goes by another nick. -/
def Bearing.named (b : Bearing) (nick : Str) : Bearing :=
  { b with nick := nick, model := { b.model with me := { b.model.me with nick := nick } } }

theorem handleWelcome_bearing (c : Client) (message : Message) :
    (c.handleWelcome message).bearing = c.bearing.named ((message.param 0).getD c.nick) := by
  unfold handleWelcome resume
  rw [sendLines_bearing]
  rfl

/-- A refused nick is replaced, while the connection still registers. -/
theorem handleNickRefused_bearing (c : Client) (message : Message) :
    (c.handleNickRefused message).bearing = c.bearing ∨
      ∃ nick, (c.handleNickRefused message).bearing = c.bearing.named nick := by
  unfold handleNickRefused
  split
  · exact .inl rfl
  · exact .inr ⟨_, rfl⟩

/-- The tokens of a `005`. -/
def isupportTokens (message : Message) : List Str :=
  (message.params.drop 1).take (message.params.length - 2)

theorem handleIsupport_bearing (c : Client) (message : Message) :
    (c.handleIsupport message).bearing =
      { c.bearing with
        isupport := (isupportTokens message).foldl (fun i token =>
          (i.apply token).1) c.isupport } := by
  unfold handleIsupport isupportTokens
  generalize (message.params.drop 1).take (message.params.length - 2) = tokens
  induction tokens generalizing c with
  | nil => rfl
  | cons token tokens ih =>
      rw [List.foldl_cons, List.foldl_cons, ih]
      rfl

/-- The bearing of a connection that was told that somebody is typing. -/
def Bearing.typed (b : Bearing) (target who : CaseFolded) (typing : Bool) (monotonicMs : ℕ) :
    Bearing :=
  { b with
    model := (b.model.setTyping target who typing).1
    timers :=
      if typing then
        b.timers.set (.typing target.asStr who.asStr) (satAdd64 monotonicMs typingExpiryMs)
      else b.timers.clear (.typing target.asStr who.asStr) }

theorem typed_bearing (c : Client) (timers : Timers) (target who : Str) (typing : Bool) :
    (c.typed timers target who typing).bearing =
      { c.bearing with
        model := (c.model.setTyping (c.isupport.fold target) (c.isupport.fold who) typing).1
        timers := timers } := by
  obtain ⟨events, heq, -⟩ := c.typed_eq timers target who typing
  rw [heq]
  rfl

theorem handleTyping_bearing {c d : Client} {message : Message}
    (h : c.handleTyping message = some d) :
    ∃ (state target : Str) (source : Source), message.tag "+typing" = some state ∧
      message.param 0 = some target ∧ message.source = some source ∧
      d.bearing = c.bearing.typed
        (c.isupport.fold (if c.isupport.isChannel target then target else source.name))
        (c.isupport.fold source.name) (state == ("active" : Str)) c.monotonicMs := by
  unfold handleTyping at h
  split at h
  · rename_i state target source hstate htarget hsource
    refine ⟨state, target, source, hstate, htarget, hsource, ?_⟩
    obtain rfl := Option.some.inj h
    exact c.typed_bearing _ _ source.name (state == ("active" : Str))
  · cases h

section Primitive

variable [Primitives]

theorem handleBotTags_bearing {c d : Client} {message : Message}
    (h : c.handleBotTags message = some d) : d.bearing = c.bearing := by
  rcases handleBotTags_eq h with rfl | rfl | ⟨bots, nick, rfl⟩
  · rfl
  · rfl
  · rfl

/-! ### What a line does -/

/-- What a line does to the bearing of a connection. -/
inductive Does (c : Client) (message : Message) : Client → Prop
  | still {d : Client} (hclaims : claims message = true) (h : d.bearing = c.bearing) :
      Does c message d
  | welcome (h : message.is "001" = true) : Does c message (c.handleWelcome message)
  | refused (h : (message.is "433" || message.is "432") = true) :
      Does c message (c.handleNickRefused message)
  | isupport (h : message.is "005" = true) : Does c message (c.handleIsupport message)
  | typing {d : Client} (hline : message.is "TAGMSG" = true)
      (h : c.handleTyping message = some d) : Does c message d
  | batch (hclaims : claims message = false) (h : message.is "BATCH" = true) :
      Does c message (c.handleBatch message)
  | other (hclaims : claims message = false) (h : message.is "BATCH" = false) :
      Does c message (c.handleOther message)

theorem handleBotTags_isSome (c : Client) (message : Message) :
    (c.handleBotTags message).isSome = tellsBots message := by
  unfold handleBotTags tellsBots
  cases message.tag botInfoTag <;> cases message.tag botCommandsTag <;> rfl

theorem handleTagmsg_isSome (c : Client) (message : Message) :
    (c.handleTagmsg message).isSome = (message.is "TAGMSG" &&
      (tellsTyping message || tellsRtc message || tellsBots message)) := by
  unfold handleTagmsg
  cases message.is "TAGMSG" with
  | false => rfl
  | true =>
      rw [if_neg (by decide), Option.isSome_or, Option.isSome_or, handleTyping_isSome,
        handleRtc_isSome, handleBotTags_isSome, Bool.true_and, Bool.or_assoc]

theorem handleTagmsg_does {c d : Client} {message : Message} (h : c.handleTagmsg message = some d)
    (hclaims : claims message = true) : Does c message d := by
  unfold handleTagmsg at h
  split at h
  · cases h
  · rename_i hline
    rw [Option.or_eq_some_iff] at h
    rcases h with h | ⟨-, h⟩
    · exact .typing (by simpa using hline) h
    · rw [Option.or_eq_some_iff] at h
      rcases h with h | ⟨-, h⟩
      · exact .still hclaims (handleRtc_bearing h)
      · exact .still hclaims (handleBotTags_bearing h)

theorem dispatchLate_does (c : Client) (message : Message)
    (hclaims : claims message =
      (message.is "AUTHENTICATE" || message.is "433" || message.is "432" ||
      (saslFailure message.command).isSome || message.is "900" || message.is "903")) :
    Does c message (c.dispatchLate message) := by
  unfold dispatchLate
  by_cases hauth : message.is "AUTHENTICATE" = true
  · rw [if_pos hauth]
    exact .still (by rw [hclaims, hauth]; rfl) (c.handleAuthenticate_negotiates message).bearing
  rw [if_neg hauth]
  rw [Bool.not_eq_true] at hauth
  by_cases hnick : (message.is "433" || message.is "432") = true
  · rw [if_pos hnick]
    exact .refused hnick
  rw [if_neg hnick]
  rw [Bool.not_eq_true] at hnick
  rw [hauth, Bool.false_or, hnick, Bool.false_or] at hclaims
  by_cases hfail : (saslFailure message.command).isSome = true
  · rw [if_pos hfail]
    exact .still (by rw [hclaims, hfail]; rfl) (c.finishSasl_negotiates _).bearing
  rw [if_neg hfail]
  by_cases hlogged : message.is "900" = true
  · rw [if_pos hlogged]
    refine .still ?_ (c.emits_bearing _)
    rw [hclaims, hlogged, Bool.or_true, Bool.true_or]
  rw [if_neg hlogged]
  by_cases hdone : message.is "903" = true
  · rw [if_pos hdone]
    refine .still ?_ (c.finishSasl_negotiates _).bearing
    rw [hclaims, hdone, Bool.or_true]
  rw [if_neg hdone]
  rw [Bool.not_eq_true] at hfail hlogged hdone
  rw [hfail, hlogged, hdone] at hclaims
  by_cases hbatch : message.is "BATCH" = true
  · rw [if_pos hbatch]
    exact .batch hclaims hbatch
  · rw [if_neg hbatch]
    exact .other hclaims (Bool.not_eq_true _ ▸ hbatch)

theorem dispatchMiddle_does (c : Client) (message : Message)
    (hclaims : claims message =
      ((message.is "TAGMSG" && (tellsTyping message || tellsRtc message || tellsBots message)) ||
        tellsToken message || message.is "CMDSLIST" || message.command == "730" ||
        message.command == "731" || tellsReply message || message.is "AUTHENTICATE" ||
        message.is "433" || message.is "432" || (saslFailure message.command).isSome ||
        message.is "900" || message.is "903")) :
    Does c message (c.dispatchMiddle message) := by
  rw [← c.handleTagmsg_isSome, ← c.handleToken_isSome, ← c.handleStandardReply_isSome] at hclaims
  unfold dispatchMiddle
  cases htagmsg : c.handleTagmsg message with
  | some d =>
      rw [htagmsg, Option.isSome_some] at hclaims
      simp only [Bool.true_or] at hclaims
      exact handleTagmsg_does htagmsg hclaims
  | none =>
  rw [htagmsg, Option.isSome_none, Bool.false_or] at hclaims
  rw [Option.none_or]
  cases htoken : c.handleToken message with
  | some d =>
      rw [htoken, Option.isSome_some] at hclaims
      simp only [Bool.true_or] at hclaims
      exact .still hclaims (handleToken_bearing htoken)
  | none =>
  rw [htoken, Option.isSome_none, Bool.false_or] at hclaims
  dsimp only
  by_cases hcmds : message.is "CMDSLIST" = true
  · rw [if_pos hcmds]
    refine .still ?_ rfl
    simp only [hclaims, hcmds, Bool.true_or]
  rw [if_neg hcmds]
  rw [Bool.not_eq_true] at hcmds
  rw [hcmds, Bool.false_or] at hclaims
  by_cases hmonitor : message.command = "730" ∨ message.command = "731"
  · rw [if_pos hmonitor]
    refine .still ?_ (c.handleMonitor_bearing message)
    rcases hmonitor with hmonitor | hmonitor
    · simp only [hclaims, hmonitor, beq_self_eq_true, Bool.true_or]
    · simp only [hclaims, hmonitor, beq_self_eq_true, Bool.true_or, Bool.or_true]
  rw [if_neg hmonitor]
  rw [not_or] at hmonitor
  rw [beq_eq_false_iff_ne.mpr hmonitor.1, beq_eq_false_iff_ne.mpr hmonitor.2, Bool.false_or,
    Bool.false_or] at hclaims
  cases hreply : c.handleStandardReply message with
  | some d =>
      rw [hreply, Option.isSome_some] at hclaims
      simp only [Bool.true_or] at hclaims
      exact .still hclaims (handleStandardReply_bearing hreply)
  | none =>
      rw [hreply, Option.isSome_none, Bool.false_or] at hclaims
      exact c.dispatchLate_does message hclaims

/-- **What a line does** to the bearing of a connection. -/
theorem dispatch_does (c : Client) (message : Message) : Does c message (c.dispatch message) := by
  unfold dispatch
  by_cases hpong : message.is "PONG" = true
  · rw [if_pos hpong]
    refine .still ?_ rfl
    simp only [claims, hpong, Bool.true_or]
  rw [if_neg hpong]
  by_cases hping : message.is "PING" = true
  · rw [if_pos hping]
    refine .still ?_ rfl
    simp only [claims, hping, Bool.true_or, Bool.or_true]
  rw [if_neg hping]
  by_cases hcap : message.is "CAP" = true
  · rw [if_pos hcap]
    refine .still ?_ (c.handleCap_negotiates message).bearing
    simp only [claims, hcap, Bool.true_or, Bool.or_true]
  rw [if_neg hcap]
  by_cases hwelcome : message.is "001" = true
  · rw [if_pos hwelcome]
    exact .welcome hwelcome
  rw [if_neg hwelcome]
  by_cases hisupport : message.is "005" = true
  · rw [if_pos hisupport]
    exact .isupport hisupport
  rw [if_neg hisupport]
  rw [Bool.not_eq_true] at hpong hping hcap hwelcome hisupport
  refine c.dispatchMiddle_does message ?_
  unfold claims
  rw [hpong, hping, hcap, hwelcome, hisupport]
  rfl

end Primitive

/-! ### What a host does -/

theorem sendLineLabeled_bearing (c : Client) (message : Message) :
    (c.sendLineLabeled message).bearing = c.bearing := by
  rw [sendLineLabeled_eq]
  rfl

theorem handleConnected_bearing (c : Client) :
    ∃ timers, c.handleConnected.bearing = { c.bearing with timers := timers } ∧
      timers = ((c.timers.clear .reconnect).clear .deadLink).set .pingKeepalive
        (satAdd64 c.monotonicMs pingKeepaliveMs) := by
  refine ⟨_, ?_, rfl⟩
  unfold handleConnected
  rw [sendLines_bearing]
  rfl

theorem handleDisconnected_bearing (c : Client) :
    ∃ timers, c.handleDisconnected.bearing =
        { c.bearing with
          batches := c.batches.dropAll
          model := c.model.forgetWhois.forgetMembers
          timers := timers } ∧
      (timers = (c.timers.clear .pingKeepalive).clear .deadLink ∨
        ∃ atMs, timers = ((c.timers.clear .pingKeepalive).clear .deadLink).set .reconnect
          atMs) := by
  unfold handleDisconnected scheduleReconnect
  generalize c.backoff.nextDelayMs = next
  obtain ⟨backoff, delay⟩ := next
  cases delay with
  | none => exact ⟨_, rfl, .inl rfl⟩
  | some afterMs => exact ⟨_, rfl, .inr ⟨_, rfl⟩⟩

/-- The model after a deadline fell due. -/
def expireModel (model : Model) : Deadline → Model
  | .typing target who => (model.setTyping ⟨target⟩ ⟨who⟩ false).1
  | _ => model

/-- The timers after a deadline fell due. -/
def expireTimers (now : Now) (timers : Timers) : Deadline → Timers
  | .pingKeepalive => timers.set .deadLink (satAdd64 now.monotonicMs deadLinkMs)
  | _ => timers

theorem fire_bearing (now : Now) (c : Client) (deadline : Deadline) :
    (fire now c deadline).bearing =
      { c.bearing with
        model := expireModel c.model deadline
        timers := expireTimers now c.timers deadline } := by
  cases deadline with
  | pingKeepalive => rfl
  | deadLink => rfl
  | reconnect => rfl
  | typing target who =>
      show (c.expireTyping target who).bearing = { c.bearing with
        model := (c.model.setTyping ⟨target⟩ ⟨who⟩ false).1 }
      unfold expireTyping
      generalize c.model.setTyping ⟨target⟩ ⟨who⟩ false = result
      obtain ⟨model, changed⟩ := result
      cases changed with
      | true => rfl
      | false => rfl

theorem foldl_fire_bearing (now : Now) (c : Client) (due : List Deadline) :
    (due.foldl (fire now) c).bearing =
      { c.bearing with
        model := due.foldl expireModel c.model
        timers := due.foldl (expireTimers now) c.timers } := by
  induction due generalizing c with
  | nil => rfl
  | cons deadline due ih =>
      have hfire := c.fire_bearing now deadline
      have hmodel : (fire now c deadline).model = _ := congrArg Bearing.model hfire
      have htimers : (fire now c deadline).timers = _ := congrArg Bearing.timers hfire
      rw [List.foldl_cons, List.foldl_cons, List.foldl_cons, ih, hfire, hmodel, htimers]

/-- What the clock does. -/
theorem tick_bearing (c : Client) (now : Now) :
    (c.tick now).bearing =
      { c.bearing with
        model := (c.timers.expire now).2.foldl expireModel c.model
        timers := (c.timers.expire now).2.foldl (expireTimers now) (c.timers.expire now).1 } := by
  unfold tick
  dsimp only
  rw [emits_bearing]
  exact foldl_fire_bearing now { c with
    monotonicMs := now.monotonicMs
    latestMs := max c.latestMs now.unixMs
    timers := (c.timers.expire now).1 } (c.timers.expire now).2

/-- The keys kept once a channel was asked for. -/
def joinKeys (c : Client) (channel : Str) : Option Str → Std.ExtTreeMap CaseFolded Str
  | some key => c.channelKeys.insert (c.isupport.fold channel) key
  | none => c.channelKeys.erase (c.isupport.fold channel)

section Command

variable [Primitives]

/-- A line of ours that no echo will tell of is folded as if it came from the server. -/
theorem say_bearing (c : Client) (line : Message) :
    (c.say line).bearing = c.bearing ∨
      (c.say line).bearing =
        (c.fold { line with source := some ⟨c.nick, none, none⟩ } false).bearing := by
  unfold say
  dsimp only
  split
  · exact .inl (c.sendLineLabeled_bearing line)
  · right
    rw [sendLineLabeled_eq, fold_eq, fold_eq]
    rfl

/-- **What a command does.** -/
theorem command_bearing (c : Client) (command : Command) :
    (c.command command).bearing = c.bearing ∨
      (∃ channel key, command = .join channel key ∧
        (c.command command).bearing = { c.bearing with channelKeys := c.joinKeys channel key }) ∨
      ∃ line : Message, (line.command = "PRIVMSG" ∨ line.command = "NOTICE") ∧
        (c.command command).bearing =
          (c.fold { line with source := some ⟨c.nick, none, none⟩ } false).bearing := by
  have hsay : ∀ line : Message, line.command = "PRIVMSG" ∨ line.command = "NOTICE" →
      c.command command = c.say line → (c.command command).bearing = c.bearing ∨
        ∃ line : Message, (line.command = "PRIVMSG" ∨ line.command = "NOTICE") ∧
          (c.command command).bearing =
            (c.fold { line with source := some ⟨c.nick, none, none⟩ } false).bearing := by
    intro line hline h
    rw [h]
    exact (c.say_bearing line).imp_right fun hsaid => ⟨line, hline, hsaid⟩
  have hwatch : ∀ nicks watching, (c.setWatching nicks watching).bearing = c.bearing := by
    intro nicks watching
    unfold setWatching
    rw [sendLines_bearing]
    rfl
  cases command with
  | sendMessage target text => exact (hsay _ (.inl rfl) rfl).imp_right .inr
  | sendNotice target text => exact (hsay _ (.inr rfl) rfl).imp_right .inr
  | sendAction target text => exact (hsay _ (.inl rfl) rfl).imp_right .inr
  | join channel key =>
      refine .inr (.inl ⟨channel, key, rfl, ?_⟩)
      exact sendLineLabeled_bearing _ _
  | subscribeMetadata keys => exact .inl (sendLineLabeled_bearing _ _)
  | watchNicks nicks => exact .inl (hwatch nicks true)
  | unwatchNicks nicks => exact .inl (hwatch nicks false)
  | sendRawLine line =>
      rw [command_sendRawLine]
      left
      cases (Message.parse line).toOption with
      | none => rfl
      | some message => exact c.sendLineLabeled_bearing message
  | _ => exact .inl (c.sendLineLabeled_bearing _)

end Command

end ObbyClient.Client

import ObbyClient.Engine.Trace

/-!
# What has no part in logging in

Most lines a server sends leave the negotiation and the login of a connection alone, and queue
nothing that belongs to either.

* `Client.Standing` — how far a connection has negotiated and logged in;
* `Client.Apart` — a step that leaves it alone;
* `Client.Handled` — what a line does: `Client.dispatch_handled`.
-/

namespace ObbyClient.Client

/-- How far a connection has negotiated and logged in. -/
structure Standing where
  config : Config
  phase : Phase
  caps : Capabilities
  sasl : SaslState
  scram : Option Scram

/-- How far this connection has negotiated and logged in. -/
def standing (c : Client) : Standing := ⟨c.config, c.phase, c.caps, c.sasl, c.scram⟩

/-- A line that is no capability command. -/
def Aside (message : Message) : Prop := message.display.take 3 ≠ "CAP"

/-- A step that leaves the standing of a connection alone, queues no capability command and tells of
no failed login. -/
structure Apart (c d : Client) : Prop where
  standing : d.standing = c.standing
  queued : ∃ lines : List Message, d.outbox = c.outbox ++ lines.map wireLine ∧
    ∀ line ∈ lines, Aside line
  told : ∃ events : List Event, d.events = c.events ++ events ∧
    ∀ reason, Event.saslFailed reason ∉ events

namespace Apart

/-- A step that queues nothing at all. -/
theorem silent {c d : Client} (hstanding : d.standing = c.standing) (houtbox : d.outbox = c.outbox)
    (hevents : d.events = c.events) : Apart c d :=
  ⟨hstanding, ⟨[], by simpa using houtbox, by simp⟩, ⟨[], by simpa using hevents, by simp⟩⟩

theorem refl (c : Client) : Apart c c := silent rfl rfl rfl

theorem trans {c d e : Client} (h : Apart c d) (h' : Apart d e) : Apart c e := by
  obtain ⟨hstanding, ⟨lines, houtbox, hlines⟩, ⟨events, hevents, htold⟩⟩ := h
  obtain ⟨hstanding', ⟨lines', houtbox', hlines'⟩, ⟨events', hevents', htold'⟩⟩ := h'
  refine ⟨hstanding'.trans hstanding, ⟨lines ++ lines', ?_, ?_⟩, ⟨events ++ events', ?_, ?_⟩⟩
  · rw [houtbox', houtbox, List.map_append, List.append_assoc]
  · intro line hline
    rcases List.mem_append.mp hline with hline | hline
    · exact hlines line hline
    · exact hlines' line hline
  · rw [hevents', hevents, List.append_assoc]
  · intro reason hreason
    rcases List.mem_append.mp hreason with hreason | hreason
    · exact htold reason hreason
    · exact htold' reason hreason

/-- A step that tells of one thing. -/
theorem tells {c d : Client} {event : Event} (hstanding : d.standing = c.standing)
    (houtbox : d.outbox = c.outbox) (hevents : d.events = c.events ++ [event])
    (h : ∀ reason, event ≠ .saslFailed reason) : Apart c d := by
  refine ⟨hstanding, ⟨[], by simpa using houtbox, by simp⟩, ⟨[event], hevents, ?_⟩⟩
  intro reason hreason
  exact h reason (List.mem_singleton.mp hreason).symm

theorem emits (c : Client) {events : List Event}
    (h : ∀ event ∈ events, ∀ reason, event ≠ .saslFailed reason) : Apart c (c.emits events) := by
  rw [emits_eq]
  exact ⟨rfl, ⟨[], by simp, by simp⟩, ⟨events, rfl, fun reason hreason => h _ hreason reason rfl⟩⟩

theorem sendLine (c : Client) {message : Message} (h : Aside message) :
    Apart c (c.sendLine message) := by
  refine ⟨rfl, ⟨[message], rfl, ?_⟩, ⟨[], by simp, by simp⟩⟩
  intro line hline
  rw [List.mem_singleton.mp hline]
  exact h

theorem foldl {β : Type} {h : Client → β → Client} (hh : ∀ c b, Apart c (h c b)) (bs : List β)
    (c : Client) : Apart c (bs.foldl h c) := by
  induction bs generalizing c with
  | nil => exact refl c
  | cons b bs ih => exact (hh c b).trans (ih (h c b))

end Apart

/-! ### What the small handlers do -/

theorem handleToken_eq {c d : Client} {message : Message} (h : c.handleToken message = some d) :
    ∃ service endpoint token, d = c.emit (.authToken service endpoint token) := by
  unfold handleToken at h
  split at h
  · cases h
  · split at h
    · exact ⟨_, _, _, (Option.some.inj h).symm⟩
    · cases h

theorem handleStandardReply_eq {c d : Client} {message : Message}
    (h : c.handleStandardReply message = some d) :
    ∃ severity command code context text,
      d = c.emit (.serverReply severity command code context text) := by
  unfold handleStandardReply at h
  split at h
  · exact ⟨_, _, _, _, _, (Option.some.inj h).symm⟩
  · cases h

theorem handleRtc_eq {c d : Client} {message : Message} (h : c.handleRtc message = some d) :
    d = c.dropLine ∨ ∃ rooms channel signal,
      d = { c with rooms := rooms }.emit (.voice channel signal) := by
  unfold handleRtc at h
  split at h
  · split at h
    · exact .inl (Option.some.inj h).symm
    · exact .inr ⟨_, _, _, (Option.some.inj h).symm⟩
  · cases h

theorem handleBotTags_eq [Primitives] {c d : Client} {message : Message}
    (h : c.handleBotTags message = some d) :
    d = c ∨ d = c.dropLine ∨ ∃ bots nick, d = { c with bots := bots }.emit (.botsChanged nick) := by
  unfold handleBotTags at h
  split at h
  · obtain rfl := Option.some.inj h
    unfold handleBotInfo
    split
    · exact .inr (.inl rfl)
    · exact .inr (.inr ⟨_, _, rfl⟩)
  · obtain rfl := Option.some.inj h
    unfold handleBotCommands
    split
    · split
      · exact .inr (.inr ⟨_, _, rfl⟩)
      · exact .inl rfl
    · exact .inr (.inl rfl)
  · cases h

theorem typed_eq (c : Client) (timers : Timers) (target who : Str) (typing : Bool) :
    ∃ events, c.typed timers target who typing =
        { c with
          timers := timers
          model := (c.model.setTyping (c.isupport.fold target) (c.isupport.fold who) typing).1
          events := c.events ++ events } ∧
      ∀ event ∈ events, event = .typingChanged target who typing := by
  unfold typed
  generalize c.model.setTyping (c.isupport.fold target) (c.isupport.fold who) typing = result
  obtain ⟨model, changed⟩ := result
  cases changed with
  | true => exact ⟨[.typingChanged target who typing], rfl, by simp⟩
  | false => exact ⟨[], by rw [List.append_nil]; rfl, by simp⟩

theorem handleTyping_eq {c d : Client} {message : Message} (h : c.handleTyping message = some d) :
    ∃ timers target who typing, d = c.typed timers target who typing := by
  unfold handleTyping at h
  split at h
  · exact ⟨_, _, _, _, (Option.some.inj h).symm⟩
  · cases h

theorem handleMonitor_eq (c : Client) (message : Message) :
    ∃ monitor events, c.handleMonitor message =
        { c with monitor := monitor, events := c.events ++ events } ∧
      ∀ event ∈ events, ∃ nick online, event = .presenceChanged nick online := by
  have hnone : ∀ d : Client, d = { d with monitor := d.monitor, events := d.events ++ [] } := by
    intro d
    rw [List.append_nil]
  unfold handleMonitor
  split
  · exact ⟨c.monitor, [], hnone c, by simp⟩
  · rename_i list _
    generalize Monitor.splitTargets list = targets
    generalize message.is "730" = online
    induction targets generalizing c with
    | nil => exact ⟨c.monitor, [], hnone c, by simp⟩
    | cons target targets ih =>
        obtain ⟨monitor, events, heq, hevents⟩ := ih (applyPresence online c target)
        refine ⟨monitor, .presenceChanged (Session.before '!' target) online :: events, ?_, ?_⟩
        · rw [List.foldl_cons, heq, ← List.singleton_append, ← List.append_assoc]
          rfl
        · exact List.forall_mem_cons.mpr ⟨⟨_, _, rfl⟩, hevents⟩

/-! ### The handlers that stand apart -/

theorem handleNickRefused_apart (c : Client) (message : Message) :
    Apart c (c.handleNickRefused message) := by
  unfold handleNickRefused
  split
  · exact Apart.tells rfl rfl rfl (by simp)
  · refine ⟨rfl, ⟨[_], rfl, ?_⟩, ⟨[_], rfl, by simp⟩⟩
    intro line hline
    rw [List.mem_singleton.mp hline]
    exact show ("NIC" : Str) ≠ "CAP" by decide

theorem handleIsupport_apart (c : Client) (message : Message) :
    Apart c (c.handleIsupport message) :=
  Apart.foldl (h := applyToken) (fun _ _ => Apart.tells rfl rfl rfl (by simp)) _ c

theorem handleMonitor_apart (c : Client) (message : Message) :
    Apart c (c.handleMonitor message) := by
  obtain ⟨monitor, events, heq, hevents⟩ := c.handleMonitor_eq message
  rw [heq]
  refine ⟨rfl, ⟨[], by simp, by simp⟩, ⟨events, rfl, fun reason hreason => ?_⟩⟩
  obtain ⟨nick, online, hpresence⟩ := hevents _ hreason
  cases hpresence

theorem typed_apart (c : Client) (timers : Timers) (target who : Str) (typing : Bool) :
    Apart c (c.typed timers target who typing) := by
  obtain ⟨events, heq, hevents⟩ := c.typed_eq timers target who typing
  rw [heq]
  refine ⟨rfl, ⟨[], by simp, by simp⟩, ⟨events, rfl, fun reason hreason => ?_⟩⟩
  cases hevents _ hreason

theorem handleTyping_apart {c d : Client} {message : Message}
    (h : c.handleTyping message = some d) : Apart c d := by
  obtain ⟨timers, target, who, typing, rfl⟩ := handleTyping_eq h
  exact c.typed_apart timers target who typing

theorem handleRtc_apart {c d : Client} {message : Message}
    (h : c.handleRtc message = some d) : Apart c d := by
  rcases handleRtc_eq h with rfl | ⟨rooms, channel, signal, rfl⟩
  · exact Apart.silent rfl rfl rfl
  · exact Apart.tells rfl rfl rfl (by simp)

theorem handleToken_apart {c d : Client} {message : Message}
    (h : c.handleToken message = some d) : Apart c d := by
  obtain ⟨service, endpoint, token, rfl⟩ := handleToken_eq h
  exact Apart.tells rfl rfl rfl (by simp)

theorem handleStandardReply_apart {c d : Client} {message : Message}
    (h : c.handleStandardReply message = some d) : Apart c d := by
  obtain ⟨severity, command, code, context, text, rfl⟩ := handleStandardReply_eq h
  exact Apart.tells rfl rfl rfl (by simp)

section Fold

variable [Primitives]

theorem handleBotTags_apart {c d : Client} {message : Message}
    (h : c.handleBotTags message = some d) : Apart c d := by
  rcases handleBotTags_eq h with rfl | rfl | ⟨bots, nick, rfl⟩
  · exact Apart.refl d
  · exact Apart.silent rfl rfl rfl
  · exact Apart.tells rfl rfl rfl (by simp)

theorem handleTagmsg_apart {c d : Client} {message : Message}
    (h : c.handleTagmsg message = some d) : Apart c d := by
  unfold handleTagmsg at h
  split at h
  · exact absurd h (by simp)
  · rw [Option.or_eq_some_iff] at h
    rcases h with h | ⟨-, h⟩
    · exact handleTyping_apart h
    · rw [Option.or_eq_some_iff] at h
      rcases h with h | ⟨-, h⟩
      · exact handleRtc_apart h
      · exact handleBotTags_apart h

theorem fold_apart (c : Client) (message : Message) (historical : Bool) :
    Apart c (c.fold message historical) := by
  rw [fold_eq]
  generalize Session.apply (c.context historical) message = result
  refine ⟨rfl, ⟨c.whoLines result.2, rfl, ?_⟩, ⟨foldEvents message result.2, rfl, ?_⟩⟩
  · intro line hline
    obtain ⟨change, -, hchange⟩ := List.mem_filterMap.mp hline
    cases change with
    | channelJoined channel =>
        obtain rfl := Option.some.inj hchange
        unfold whoLine
        split
        · exact show ("WHO" : Str) ≠ "CAP" by decide
        · exact show ("WHO" : Str) ≠ "CAP" by decide
    | _ => exact absurd hchange (by simp)
  · intro reason hreason
    unfold foldEvents at hreason
    split at hreason
    · split at hreason
      · exact absurd hreason (by simp)
      · exact absurd hreason (by simp)
    · simp at hreason

theorem folds_apart (c : Client) (messages : List Message) (historical : Bool) :
    Apart c (c.folds messages historical) :=
  Apart.foldl (fun c message => c.fold_apart message historical) messages c

theorem handleBatch_apart (c : Client) (message : Message) : Apart c (c.handleBatch message) := by
  unfold handleBatch
  split
  · exact Apart.silent rfl rfl rfl
  · split
    · exact Apart.refl c
    · refine Apart.trans ?_ (folds_apart _ _ _)
      exact Apart.silent rfl rfl rfl

theorem handleOther_apart (c : Client) (message : Message) : Apart c (c.handleOther message) := by
  unfold handleOther
  split
  · exact Apart.silent rfl rfl rfl
  · exact c.fold_apart message false

/-! ### What a line does -/

/-- What a line does to a connection: it goes to a handler of negotiation or login, or stands
apart. -/
inductive Handled (c : Client) (message : Message) : Client → Prop
  | cap (h : message.is "CAP" = true) : Handled c message (c.handleCap message)
  | welcome (h : message.is "001" = true) : Handled c message (c.handleWelcome message)
  | authenticate (h : message.is "AUTHENTICATE" = true) :
      Handled c message (c.handleAuthenticate message)
  | refused {failure : SaslFailure} (h : saslFailure message.command = some failure) :
      Handled c message (c.finishSasl (some failure))
  | accepted (h : message.is "903" = true) : Handled c message (c.finishSasl none)
  | apart {d : Client} (h : Apart c d) : Handled c message d

theorem dispatchLate_handled (c : Client) (message : Message) :
    Handled c message (c.dispatchLate message) := by
  unfold dispatchLate
  by_cases hauth : message.is "AUTHENTICATE" = true
  · rw [if_pos hauth]
    exact .authenticate hauth
  rw [if_neg hauth]
  by_cases hnick : (message.is "433" || message.is "432") = true
  · rw [if_pos hnick]
    exact .apart (c.handleNickRefused_apart message)
  rw [if_neg hnick]
  by_cases hfail : (saslFailure message.command).isSome = true
  · rw [if_pos hfail]
    obtain ⟨failure, hfailure⟩ := Option.isSome_iff_exists.mp hfail
    rw [hfailure]
    exact .refused hfailure
  rw [if_neg hfail]
  by_cases hlogged : message.is "900" = true
  · rw [if_pos hlogged]
    refine .apart (Apart.emits c ?_)
    intro event hevent reason hreason
    obtain ⟨account, -, rfl⟩ := Option.map_eq_some_iff.mp (Option.mem_toList.mp hevent)
    cases hreason
  rw [if_neg hlogged]
  by_cases hdone : message.is "903" = true
  · rw [if_pos hdone]
    exact .accepted hdone
  rw [if_neg hdone]
  by_cases hbatch : message.is "BATCH" = true
  · rw [if_pos hbatch]
    exact .apart (c.handleBatch_apart message)
  · rw [if_neg hbatch]
    exact .apart (c.handleOther_apart message)

theorem dispatchMiddle_handled (c : Client) (message : Message) :
    Handled c message (c.dispatchMiddle message) := by
  unfold dispatchMiddle
  cases htag : (c.handleTagmsg message).or (c.handleToken message) with
  | some d =>
      rw [Option.or_eq_some_iff] at htag
      rcases htag with h | ⟨-, h⟩
      · exact .apart (handleTagmsg_apart h)
      · exact .apart (handleToken_apart h)
  | none =>
      dsimp only
      by_cases hcmds : message.is "CMDSLIST" = true
      · rw [if_pos hcmds]
        exact .apart (Apart.tells rfl rfl rfl (by simp))
      rw [if_neg hcmds]
      by_cases hmonitor : message.command = "730" ∨ message.command = "731"
      · rw [if_pos hmonitor]
        exact .apart (c.handleMonitor_apart message)
      rw [if_neg hmonitor]
      cases hreply : c.handleStandardReply message with
      | some d => exact .apart (handleStandardReply_apart hreply)
      | none => exact c.dispatchLate_handled message

/-- **What a line does.** -/
theorem dispatch_handled (c : Client) (message : Message) :
    Handled c message (c.dispatch message) := by
  unfold dispatch
  by_cases hpong : message.is "PONG" = true
  · rw [if_pos hpong]
    exact .apart (Apart.refl c)
  rw [if_neg hpong]
  by_cases hping : message.is "PING" = true
  · rw [if_pos hping]
    exact .apart (Apart.sendLine c (show ("PON" : Str) ≠ "CAP" by decide))
  rw [if_neg hping]
  by_cases hcap : message.is "CAP" = true
  · rw [if_pos hcap]
    exact .cap hcap
  rw [if_neg hcap]
  by_cases hwelcome : message.is "001" = true
  · rw [if_pos hwelcome]
    exact .welcome hwelcome
  rw [if_neg hwelcome]
  by_cases hisupport : message.is "005" = true
  · rw [if_pos hisupport]
    exact .apart (c.handleIsupport_apart message)
  · rw [if_neg hisupport]
    exact c.dispatchMiddle_handled message

omit [Primitives] in
/-- A client that has noted that a line came. -/
def noted (c : Client) (message : Message) : Client :=
  { c.armKeepalive with labels := c.armKeepalive.labels.resolve message }

theorem handleMessage_eq (c : Client) (message : Message) :
    c.handleMessage message = (c.noted message).dispatch message := rfl

omit [Primitives] in
theorem noted_apart (c : Client) (message : Message) : Apart c (c.noted message) :=
  Apart.silent rfl rfl rfl

end Fold

end ObbyClient.Client

import ObbyClient.Engine.Negotiation

/-!
# What only the clock tells

That the link is dead and that a command was never answered is told by a tick, and by nothing that a
server sends or a host does.

* `Event.isLate` — the events that only the clock brings;
* `Client.Told` — a step that brings others at most: `Client.handleMessage_told`,
  `Client.step_told`;
* `Client.tick_events` — what a tick tells.
-/

namespace ObbyClient

/-- True for an event that only the clock brings. -/
def Event.isLate : Event → Bool
  | .linkDead => true
  | .commandTimedOut _ => true
  | _ => false

namespace Client

/-- A step that tells of nothing that only the clock brings. -/
def Told (c d : Client) : Prop :=
  ∃ events : List Event, d.events = c.events ++ events ∧ ∀ event ∈ events, event.isLate = false

namespace Told

theorem silent {c d : Client} (h : d.events = c.events) : Told c d :=
  ⟨[], by rw [h, List.append_nil], by simp⟩

theorem refl (c : Client) : Told c c := silent rfl

theorem trans {c d e : Client} (h : Told c d) (h' : Told d e) : Told c e := by
  obtain ⟨events, hevents, htold⟩ := h
  obtain ⟨events', hevents', htold'⟩ := h'
  refine ⟨events ++ events', by rw [hevents', hevents, List.append_assoc], ?_⟩
  intro event hevent
  rcases List.mem_append.mp hevent with hevent | hevent
  · exact htold event hevent
  · exact htold' event hevent

/-- A step that tells of one thing. -/
theorem tells {c d : Client} (event : Event) (h : d.events = c.events ++ [event])
    (hlate : event.isLate = false) : Told c d := by
  refine ⟨[event], h, ?_⟩
  intro e he
  rw [List.mem_singleton.mp he]
  exact hlate

theorem emits (c : Client) {events : List Event} (h : ∀ event ∈ events, event.isLate = false) :
    Told c (c.emits events) := by
  rw [emits_eq]
  exact ⟨events, rfl, h⟩

theorem sendLines (c : Client) (messages : List Message) : Told c (c.sendLines messages) := by
  rw [sendLines_eq]
  exact silent rfl

theorem foldl {β : Type} {h : Client → β → Client} (hh : ∀ c b, Told c (h c b)) (bs : List β)
    (c : Client) : Told c (bs.foldl h c) := by
  induction bs generalizing c with
  | nil => exact refl c
  | cons b bs ih => exact (hh c b).trans (ih (h c b))

end Told

/-! ### Negotiation and login -/

theorem Negotiates.told {c d : Client} (h : Negotiates c d) : Told c d := by
  obtain ⟨_, _, _, _, _, events, rfl, htold⟩ := h
  refine ⟨events, rfl, fun event hevent => ?_⟩
  have hlogin := htold event hevent
  cases event with
  | linkDead => cases hlogin
  | commandTimedOut command => cases hlogin
  | _ => rfl

theorem handleWelcome_told (c : Client) (message : Message) : Told c (c.handleWelcome message) := by
  unfold handleWelcome resume
  exact Told.trans (Told.tells (.registered _) rfl rfl) (Told.sendLines _ _)

/-! ### The other handlers -/

theorem handleNickRefused_told (c : Client) (message : Message) :
    Told c (c.handleNickRefused message) := by
  unfold handleNickRefused
  split
  · exact Told.tells _ rfl rfl
  · exact Told.tells (.nickInUse _ _) rfl rfl

theorem handleIsupport_told (c : Client) (message : Message) : Told c (c.handleIsupport message) :=
  Told.foldl (h := applyToken) (fun _ _ => Told.tells _ rfl rfl) _ c

theorem handleMonitor_told (c : Client) (message : Message) : Told c (c.handleMonitor message) := by
  obtain ⟨monitor, events, heq, hevents⟩ := c.handleMonitor_eq message
  rw [heq]
  refine ⟨events, rfl, fun event hevent => ?_⟩
  obtain ⟨nick, online, rfl⟩ := hevents event hevent
  rfl

theorem handleTyping_told {c d : Client} {message : Message} (h : c.handleTyping message = some d) :
    Told c d := by
  obtain ⟨timers, target, who, typing, rfl⟩ := handleTyping_eq h
  obtain ⟨events, heq, hevents⟩ := c.typed_eq timers target who typing
  rw [heq]
  refine ⟨events, rfl, fun event hevent => ?_⟩
  rw [hevents event hevent]
  rfl

theorem handleRtc_told {c d : Client} {message : Message} (h : c.handleRtc message = some d) :
    Told c d := by
  rcases handleRtc_eq h with rfl | ⟨rooms, channel, signal, rfl⟩
  · exact Told.silent rfl
  · exact Told.tells _ rfl rfl

theorem handleToken_told {c d : Client} {message : Message} (h : c.handleToken message = some d) :
    Told c d := by
  obtain ⟨service, endpoint, token, rfl⟩ := handleToken_eq h
  exact Told.tells _ rfl rfl

theorem handleStandardReply_told {c d : Client} {message : Message}
    (h : c.handleStandardReply message = some d) : Told c d := by
  obtain ⟨severity, command, code, context, text, rfl⟩ := handleStandardReply_eq h
  exact Told.tells _ rfl rfl

section Fold

variable [Primitives]

theorem handleBotTags_told {c d : Client} {message : Message}
    (h : c.handleBotTags message = some d) :
    Told c d := by
  rcases handleBotTags_eq h with rfl | rfl | ⟨bots, nick, rfl⟩
  · exact Told.refl d
  · exact Told.silent rfl
  · exact Told.tells _ rfl rfl

theorem handleTagmsg_told {c d : Client} {message : Message} (h : c.handleTagmsg message = some d) :
    Told c d := by
  unfold handleTagmsg at h
  split at h
  · cases h
  · rw [Option.or_eq_some_iff] at h
    rcases h with h | ⟨-, h⟩
    · exact handleTyping_told h
    · rw [Option.or_eq_some_iff] at h
      rcases h with h | ⟨-, h⟩
      · exact handleRtc_told h
      · exact handleBotTags_told h

theorem fold_told (c : Client) (message : Message) (historical : Bool) :
    Told c (c.fold message historical) := by
  rw [fold_eq]
  refine ⟨foldEvents message (Session.apply (c.context historical) message).2, rfl, ?_⟩
  intro event hevent
  unfold foldEvents at hevent
  split at hevent
  · split at hevent
    · cases hevent
    · rw [List.mem_singleton.mp hevent]
      rfl
  · obtain ⟨change, -, rfl⟩ := List.mem_map.mp hevent
    rfl

theorem handleBatch_told (c : Client) (message : Message) : Told c (c.handleBatch message) := by
  unfold handleBatch
  split
  · exact Told.silent rfl
  · split
    · exact Told.refl c
    · exact Told.trans (Told.silent rfl)
        (Told.foldl (fun c message => c.fold_told message _) _ _)

theorem handleOther_told (c : Client) (message : Message) : Told c (c.handleOther message) := by
  unfold handleOther
  split
  · exact Told.silent rfl
  · exact c.fold_told message false

theorem dispatchLate_told (c : Client) (message : Message) : Told c (c.dispatchLate message) := by
  unfold dispatchLate
  split
  · exact (c.handleAuthenticate_negotiates message).told
  split
  · exact c.handleNickRefused_told message
  split
  · exact (c.finishSasl_negotiates _).told
  split
  · refine Told.emits c ?_
    intro event hevent
    obtain ⟨account, -, rfl⟩ := Option.map_eq_some_iff.mp (Option.mem_toList.mp hevent)
    rfl
  split
  · exact (c.finishSasl_negotiates _).told
  split
  · exact c.handleBatch_told message
  · exact c.handleOther_told message

theorem dispatchMiddle_told (c : Client) (message : Message) :
    Told c (c.dispatchMiddle message) := by
  unfold dispatchMiddle
  split
  · rename_i d h
    rcases Option.or_eq_some_iff.mp h with h | ⟨-, h⟩
    · exact handleTagmsg_told h
    · exact handleToken_told h
  split
  · exact Told.tells _ rfl rfl
  split
  · exact c.handleMonitor_told message
  split
  · rename_i d h
    exact handleStandardReply_told h
  · exact c.dispatchLate_told message

theorem dispatch_told (c : Client) (message : Message) : Told c (c.dispatch message) := by
  unfold dispatch
  split
  · exact Told.refl c
  split
  · exact Told.silent rfl
  split
  · exact (c.handleCap_negotiates message).told
  split
  · exact c.handleWelcome_told message
  split
  · exact c.handleIsupport_told message
  · exact c.dispatchMiddle_told message

/-- **No line tells of what only the clock brings.** -/
theorem handleMessage_told (c : Client) (message : Message) : Told c (c.handleMessage message) := by
  unfold handleMessage
  exact Told.trans (Told.silent rfl) (dispatch_told _ message)

/-! ### What a host does -/

omit [Primitives] in
theorem sendLineLabeled_told (c : Client) (message : Message) :
    Told c (c.sendLineLabeled message) := by
  rw [sendLineLabeled_eq]
  exact Told.silent rfl

omit [Primitives] in
theorem setWatching_told (c : Client) (nicks : List Str) (watching : Bool) :
    Told c (c.setWatching nicks watching) := by
  unfold setWatching
  dsimp only
  exact Told.trans (Told.silent rfl) (Told.sendLines _ _)

theorem say_told (c : Client) (line : Message) : Told c (c.say line) := by
  unfold say
  dsimp only
  split
  · exact c.sendLineLabeled_told line
  · exact (c.sendLineLabeled_told line).trans (fold_told _ _ _)

theorem command_told (c : Client) (command : Command) : Told c (c.command command) := by
  cases command with
  | sendMessage target text => exact c.say_told _
  | sendNotice target text => exact c.say_told _
  | sendAction target text => exact c.say_told _
  | join channel key => exact Told.trans (Told.silent rfl) (sendLineLabeled_told _ _)
  | subscribeMetadata keys => exact Told.trans (Told.silent rfl) (sendLineLabeled_told _ _)
  | watchNicks nicks => exact c.setWatching_told nicks true
  | unwatchNicks nicks => exact c.setWatching_told nicks false
  | sendRawLine line =>
      rw [command_sendRawLine]
      cases (Message.parse line).toOption with
      | none => exact Told.refl c
      | some message => exact c.sendLineLabeled_told message
  | _ => exact c.sendLineLabeled_told _

omit [Primitives] in
theorem handleConnected_told (c : Client) : Told c c.handleConnected := by
  unfold handleConnected
  exact Told.trans (Told.silent rfl) (Told.sendLines _ _)

omit [Primitives] in
theorem handleDisconnected_told (c : Client) : Told c c.handleDisconnected := by
  unfold handleDisconnected scheduleReconnect
  split
  · exact Told.tells (.reconnectAfter _) rfl rfl
  · exact Told.tells (.reconnectAbandoned) rfl rfl

theorem handleBytes_told (c : Client) (data : Bytes) : Told c (c.handleBytes data) :=
  handleBytes_induction (P := Told c) (fun _ _ _ _ h => h) c data
    (fun p _ h => h.trans (p.1.handleMessage_told p.2)) (Told.refl c)

/-- **Nothing but a tick tells of what only the clock brings.** -/
theorem step_told (c : Client) {input : Input} (htick : ∀ now, input ≠ .tick now)
    (hpoll : input ≠ .pollEvent) : Told c (c.step input) := by
  cases input with
  | connected => exact c.handleConnected_told
  | disconnected => exact c.handleDisconnected_told
  | bytes data => exact c.handleBytes_told data
  | tick now => exact absurd rfl (htick now)
  | command command => exact c.command_told command
  | sendLine message => exact Told.silent rfl
  | sendLineLabeled message => exact c.sendLineLabeled_told message
  | pollTransmit => exact Told.silent rfl
  | pollEvent => exact absurd rfl hpoll

end Fold

/-! ### What a tick tells -/

/-- What deadlines that fall due say and send. -/
structure Fires (c d : Client) (due : List Deadline) : Prop where
  labels : d.labels = c.labels
  nick : d.nick = c.nick
  outbox : d.outbox = c.outbox ++
    List.replicate (due.count .pingKeepalive) (wireLine (Message.new "PING" [c.nick]))
  events : ∃ events, d.events = c.events ++ events ∧ events.count .linkDead = due.count .deadLink ∧
    (∀ command, Event.commandTimedOut command ∉ events) ∧ (due = [] → events = [])

theorem Fires.trans {c d e : Client} {due due' : List Deadline} (h : Fires c d due)
    (h' : Fires d e due') : Fires c e (due ++ due') := by
  obtain ⟨events, hevents, hcount, hnone, hsilent⟩ := h.events
  obtain ⟨events', hevents', hcount', hnone', hsilent'⟩ := h'.events
  refine ⟨h'.labels.trans h.labels, h'.nick.trans h.nick, ?_, events ++ events', ?_, ?_, ?_, ?_⟩
  · rw [h'.outbox, h.outbox, h.nick, List.append_assoc, List.replicate_append_replicate,
      List.count_append]
  · rw [hevents', hevents, List.append_assoc]
  · rw [List.count_append, List.count_append, hcount, hcount']
  · intro command hmem
    rcases List.mem_append.mp hmem with hmem | hmem
    · exact hnone command hmem
    · exact hnone' command hmem
  · intro hdue
    obtain ⟨hfirst, hrest⟩ := List.append_eq_nil_iff.mp hdue
    rw [hsilent hfirst, hsilent' hrest]
    rfl

theorem fire_fires (now : Now) (c : Client) (deadline : Deadline) :
    Fires c (fire now c deadline) [deadline] := by
  cases deadline with
  | pingKeepalive => exact ⟨rfl, rfl, rfl, [], (List.append_nil _).symm, rfl, by simp, by simp⟩
  | deadLink =>
      exact ⟨rfl, rfl, (List.append_nil _).symm, [.linkDead], rfl, rfl, by simp, by simp⟩
  | reconnect =>
      exact ⟨rfl, rfl, (List.append_nil _).symm, [.reconnectAfter 0], rfl, rfl, by simp, by simp⟩
  | typing target who =>
      show Fires c (c.expireTyping target who) _
      unfold expireTyping
      generalize c.model.setTyping ⟨target⟩ ⟨who⟩ false = result
      obtain ⟨model, changed⟩ := result
      cases changed with
      | true =>
          exact ⟨rfl, rfl, (List.append_nil _).symm, [.typingChanged target who false], rfl, rfl, by
            simp,
            by simp⟩
      | false => exact ⟨rfl, rfl, (List.append_nil _).symm, [], (List.append_nil _).symm,
          rfl, by simp, by simp⟩

theorem foldl_fire_fires (now : Now) (c : Client) (due : List Deadline) :
    Fires c (due.foldl (fire now) c) due := by
  induction due generalizing c with
  | nil => exact ⟨rfl, rfl, (List.append_nil _).symm, [], (List.append_nil _).symm,
      rfl, by simp, by simp⟩
  | cons deadline due ih => exact (fire_fires now c deadline).trans (ih (fire now c deadline))

/-- **What a tick says and sends.** -/
theorem tick_tells (c : Client) (now : Now) :
    (c.tick now).labels = (c.labels.expire now.monotonicMs).1 ∧
      (c.tick now).outbox = c.outbox ++
        List.replicate ((c.timers.expire now).2.count .pingKeepalive)
          (wireLine (Message.new "PING" [c.nick])) ∧
      ∃ events, (c.tick now).events =
          c.events ++ events ++ (c.labels.expire now.monotonicMs).2.map .commandTimedOut ∧
        events.count .linkDead = (c.timers.expire now).2.count .deadLink ∧
        (∀ command, Event.commandTimedOut command ∉ events) ∧
        ((c.timers.expire now).2 = [] → events = []) := by
  have hfires := foldl_fire_fires now { c with
    monotonicMs := now.monotonicMs
    latestMs := max c.latestMs now.unixMs
    timers := (c.timers.expire now).1 } (c.timers.expire now).2
  obtain ⟨events, hevents, hrest⟩ := hfires.events
  have hlabels := hfires.labels
  have houtbox := hfires.outbox
  unfold tick
  dsimp only at hlabels houtbox hevents ⊢
  rw [emits_eq]
  dsimp only
  rw [hlabels]
  exact ⟨rfl, houtbox, events, by rw [hevents], hrest⟩

end Client

end ObbyClient

import ObbyClient.Engine.Bounds
import ObbyClient.Engine.Deeds
import ObbyClient.Engine.Postings

/-!
# Two clients in one channel

A channel is read by several clients: one was there all along, another came late and asked for the
history, a third lost its connection in between.  What each of them holds of it is what was brought
to it, and where that is the same they show the same.

* `Client.recorded` — what a client files of its own accord;
* `Client.runPostings`, `Client.run_logs` — after any run, the log of a channel is its story;
* `Client.run_converges` — whoever was brought the same posts shows the same list.
-/

namespace ObbyClient.Client

open Rooms Newest Batches

/-! ### What is brought in a run -/

/-- The line that a client files of its own accord as it says it, unless the server will echo it. -/
def own (c : Client) (line : Message) : Option Message :=
  if c.caps.has "echo-message" then none else some { line with source := some ⟨c.nick, none, none⟩ }

/-- What a client files of its own accord when it is given a command. -/
def recorded (c : Client) : Command → Option Message
  | .sendMessage target text => c.own (Message.new "PRIVMSG" [target, text])
  | .sendNotice target text => c.own (Message.new "NOTICE" [target, text])
  | .sendAction target text =>
      c.own (Message.new "PRIVMSG" [target, ("\x01ACTION " : Str) ++ text ++ ['\x01']])
  | _ => none

/-- True when what a line delivers is history. -/
def replays (c : Client) (message : Message) : Bool :=
  message.is "BATCH" && (c.batches.close message).any fun p => isHistory p.1 p.2

section Run

variable [Primitives]

/-- What is brought by the lines that something makes the client fold. -/
def Deed.postings : Deed → List (Report CaseFolded Posting)
  | .line c message =>
    ((c.noted message).delivered message).flatMap fun p =>
      Session.postings (p.1.context ((c.noted message).replays message)) p.2
  | .host c (.command command) =>
      (c.recorded command).toList.flatMap (Session.postings (c.context false))
  | .host _ _ => []

/-- What is brought in a run. -/
def runPostings (c : Client) (inputs : List Input) : List (Report CaseFolded Posting) :=
  (c.deeds inputs).flatMap Deed.postings

/-- The posts that were brought to a channel since it was entered. -/
def posts (c : Client) (inputs : List Input) (key : CaseFolded) : Option (List Post) :=
  (story (c.runPostings inputs) key).map fun postings => postings.filterMap Posting.post

/-- **What every line that is folded adds to, the line that delivers them adds to**, as history or
live. -/
theorem dispatch_replays {Q : List (Client × Message) → Client → Prop} (c : Client)
    {message : Message}
    (hclaims : claims message = false) (hbatches : ∀ batches, Q [] { c with batches := batches })
    (hfold : ∀ done p, Q done p.1 → Q (done ++ [p]) (p.1.fold p.2 (c.replays message))) :
    Q (c.delivered message) (c.dispatch message) := by
  unfold delivered
  unfold replays at hfold
  rw [dispatch_of_not_claims c hclaims, if_neg (by simp [hclaims])]
  by_cases hline : message.is "BATCH" = true
  · rw [if_pos hline, if_pos hline]
    unfold handleBatch
    by_cases hplus : ((message.param 0).getD []).head? = some '+'
    · rw [if_pos hplus, if_pos hplus]
      exact hbatches _
    · rw [if_neg hplus, if_neg hplus]
      cases hclose : c.batches.close message with
      | none => exact hbatches c.batches
      | some result =>
        simp only [hline, hclose, Option.any_some, Bool.true_and] at hfold
        exact folds_delivers [] (c := { c with batches := result.1 }) (hbatches result.1) fun done p
          _ => hfold done p
  · rw [if_neg hline, if_neg hline]
    unfold handleOther
    cases hroute : c.batches.route message with
    | some batches => exact hbatches batches
    | none =>
      simp only [hline, Bool.false_and] at hfold
      exact hfold [] (c, message) (hbatches c.batches)

/-! ### Step by step -/

/-- What we say ourselves is folded at once, unless the server will echo it. -/
theorem say_model (c : Client) (line : Message) :
    (c.say line).model = ((c.own line).map fun line => (c.fold line false).model).getD c.model := by
  unfold say own
  dsimp only
  rw [show (c.sendLineLabeled line).caps = c.caps by rw [sendLineLabeled_eq]]
  split
  · exact congrArg Bearing.model (c.sendLineLabeled_bearing line)
  · rw [sendLineLabeled_eq, fold_eq, Option.map_some, Option.getD_some, fold_eq]
    rfl

theorem command_model (c : Client) (command : Command) :
    (c.command command).model = ((c.recorded command).map fun line =>
      (c.fold line false).model).getD c.model := by
  cases command with
  | sendMessage target text => exact c.say_model _
  | sendNotice target text => exact c.say_model _
  | sendAction target text => exact c.say_model _
  | join channel key => exact congrArg Bearing.model (sendLineLabeled_bearing _ _)
  | subscribeMetadata keys => exact congrArg Bearing.model (sendLineLabeled_bearing _ _)
  | watchNicks nicks => exact congrArg Bearing.model (sendLines_bearing _ _)
  | unwatchNicks nicks => exact congrArg Bearing.model (sendLines_bearing _ _)
  | sendRawLine line =>
    rw [command_sendRawLine]
    cases (Message.parse line).toOption with
    | none => rfl
    | some message => exact congrArg Bearing.model (c.sendLineLabeled_bearing message)
  | _ => exact congrArg Bearing.model (c.sendLineLabeled_bearing _)

/-- Logs as they are after all that was brought, in a model that keeps as many messages as
before. -/
structure Brings (before : Model) (reports : List (Report CaseFolded Posting)) (after : Model) :
    Prop where
  logs : after.logs = reports.foldl (Rooms.hear (.withRetention before.retention) MessageLog.act)
    before.logs
  retention : after.retention = before.retention

omit [Primitives] in
theorem brings_nil {before after : Model} (hlogs : after.logs = before.logs)
    (hretention : after.retention = before.retention) : Brings before [] after :=
      ⟨hlogs, hretention⟩

omit [Primitives] in
theorem Brings.append {a b c : Model} {reports more : List (Report CaseFolded Posting)}
    (h : Brings a reports b)
    (h' : Brings b more c) : Brings a (reports ++ more) c where
  logs := by rw [h'.logs, h.retention, h.logs, List.foldl_append]
  retention := h'.retention.trans h.retention

omit [Primitives] in
theorem blind_brings (before : Model) (reports : List (Report CaseFolded Posting)) :
    Blind fun b => Brings before reports b.model := fun _ _ _ _ h => h

omit [Primitives] in
theorem typing_brings (model : Model) (target who : CaseFolded) (typing : Bool) :
    Brings model [] (model.setTyping target who typing).1 := by
  obtain ⟨-, -, hafter⟩ | ⟨channel, hchannel, hafter⟩ | ⟨query, -, -, hafter⟩ :=
    model.setTyping_cases target who typing
  · rw [hafter]
    exact brings_nil rfl rfl
  · rw [hafter]
    exact brings_nil (Model.logs_setChannel_same hchannel rfl) rfl
  · rw [hafter]
    exact brings_nil rfl rfl

theorem fold_brings (c : Client) (line : Message) (historical : Bool) :
    Brings c.model (Session.postings (c.context historical) line)
      (c.fold line historical).model := by
  rw [fold_eq]
  refine ⟨Session.apply_postings (c.context historical) line, ?_⟩
  obtain hkeeps | ⟨command, target, hfile⟩ := Session.apply_keeps (c.context historical) line
  · exact hkeeps.retention
  · rw [hfile]
    exact Model.retention_file ..

/-- **One line** brings what is brought by the lines that it makes the client fold. -/
theorem handleMessage_brings (c : Client) (message : Message) :
    Brings c.model (Deed.postings (.line c message)) (c.handleMessage message).model := by
  unfold Deed.postings
  cases hclaims : claims message with
  | true =>
    dsimp only
    rw [delivered_of_claims _ hclaims, List.flatMap_nil]
    refine handleMessage_keeps_bearing (P := fun b => Brings c.model [] b.model) (blind_brings _ _)
      c message
      (fun _ _ hb => ⟨hb.logs, hb.retention⟩) ?_ ?_ ?_ (brings_nil rfl rfl)
    · intro _ hb
      rw [handleIsupport_bearing]
      exact hb
    · intro d _ hd hb
      obtain ⟨_, _, _, -, -, -, hd⟩ := handleTyping_bearing hd
      rw [hd]
      exact hb.append (typing_brings ..)
    · intro p historical hp
      rw [delivered_of_claims _ hclaims] at hp
      cases hp
  | false =>
    rw [handleMessage_eq]
    refine dispatch_replays (Q := fun done d => Brings c.model
      (done.flatMap fun p => Session.postings (p.1.context ((c.noted message).replays message)) p.2)
        d.model)
      (c.noted message) hclaims (fun _ => brings_nil rfl rfl) ?_
    intro done p hdone
    rw [List.flatMap_append, List.flatMap_singleton]
    exact hdone.append (fold_brings ..)

/-- **One input of the host.** -/
theorem step_brings (c : Client) {input : Input} (hbytes : ∀ data, input ≠ .bytes data) :
    Brings c.model (Deed.postings (.host c input)) (c.step input).model := by
  cases input with
  | bytes data => exact absurd rfl (hbytes data)
  | command command =>
    show Brings c.model ((c.recorded command).toList.flatMap _) (c.command command).model
    rw [command_model]
    cases c.recorded command with
    | none => exact brings_nil rfl rfl
    | some line =>
      simp only [Option.toList_some, List.flatMap_singleton, Option.map_some, Option.getD_some]
      exact fold_brings c line false
  | disconnected =>
    obtain ⟨timers, hafter, -⟩ := c.handleDisconnected_bearing
    have hmodel : (c.step .disconnected).model = c.model.forgetWhois.forgetMembers :=
      congrArg Bearing.model hafter
    rw [hmodel]
    exact brings_nil (Model.logs_channels_map c.model.forgetWhois fun _ => rfl) rfl
  | tick now =>
    exact tick_keeps (P := fun model => Brings c.model [] model)
      (fun _ _ _ hmodel => hmodel.append (typing_brings ..)) c now (brings_nil rfl rfl)
  | connected =>
    obtain ⟨timers, hafter, -⟩ := c.handleConnected_bearing
    have hmodel : (c.step .connected).model = c.model := congrArg Bearing.model hafter
    rw [hmodel]
    exact brings_nil rfl rfl
  | sendLineLabeled message =>
    have hmodel : (c.step (.sendLineLabeled message)).model = c.model :=
      congrArg Bearing.model (c.sendLineLabeled_bearing message)
    rw [hmodel]
    exact brings_nil rfl rfl
  | sendLine message => exact brings_nil rfl rfl
  | pollTransmit => exact brings_nil rfl rfl
  | pollEvent => exact brings_nil rfl rfl

/-- **Any run is as good as what it brings.** -/
theorem run_brings (c : Client) (inputs : List Input) :
    Brings c.model (c.runPostings inputs) (c.run inputs).model := by
  refine run_deeds (Q := fun seen d => Brings c.model (seen.flatMap Deed.postings) d.model) ?_ ?_ ?_
    []
    (brings_nil rfl rfl) inputs
  · intro _ _ _ _ _ h
    exact h
  · intro seen d message h
    rw [List.flatMap_append, List.flatMap_singleton]
    exact h.append (handleMessage_brings d message)
  · intro seen d input hbytes h
    rw [List.flatMap_append, List.flatMap_singleton]
    exact h.append (step_brings d hbytes)

/-! ### What a client shows -/

/-- **The log of a channel is its story**: all that was brought to it since it was entered, one
thing after the other, and nothing else.  As long as it keeps its name, that is all that was brought
to it since. -/
theorem run_logs (config : Config) (inputs : List Input) (key : CaseFolded) :
    (((new config).run inputs).model.channel key).map Channel.log =
        (story ((new config).runPostings inputs) key).map
          (List.foldl MessageLog.act (.withRetention config.retention)) ∧
      ∀ before after, (new config).runPostings inputs = before ++ .entered key :: after →
        story before key = none → (∀ report ∈ after, ¬ report.ends key) →
          ∃ channel, ((new config).run inputs).model.channel key = some channel ∧
            channel.log = (after.filterMap (Report.remarkOn key)).foldl MessageLog.act
              (.withRetention config.retention) := by
  have hblank : MessageLog.withRetention (new config).model.retention =
      .withRetention config.retention := by
    simp [new, Model.withRetention, MessageLog.withRetention]
  have hempty : (new config).model.logs = fun _ => none := by
    funext key
    simp [new, Model.logs, Model.channel, Model.withRetention]
  have hlogs := ((new config).run_brings inputs).logs
  rw [hempty, hblank, foldl_hear] at hlogs
  have hknown : (((new config).run inputs).model.channel key).map Channel.log = _ :=
    congrFun hlogs key
  refine ⟨hknown, ?_⟩
  intro before after hsplit hout hstays
  rw [hsplit, story_since hout hstays, Option.map_some] at hknown
  exact Option.map_eq_some_iff.mp hknown

/-- What a client shows of a channel that it was brought distinct posts of: the newest, in the order
of time. -/
theorem run_shown {config : Config} {inputs : List Input} {key : CaseFolded} {posts : List Post}
    (hposts : (new config).posts inputs key = some posts) (hdistinct : Post.Distinct posts) :
    ∃ channel, ((new config).run inputs).model.channel key = some channel ∧
      (channel.log.shown.Pairwise fun a b => a.timeMs < b.timeMs) ∧
        channel.log.shown.toFinset =
          newest Post.timeMs (max config.retention 1) posts.toFinset := by
  obtain ⟨postings, hstory, rfl⟩ := Option.map_eq_some_iff.mp hposts
  have hlog := (run_logs config inputs key).1
  rw [hstory, Option.map_some] at hlog
  obtain ⟨channel, hchannel, hlog⟩ := Option.map_eq_some_iff.mp hlog
  obtain ⟨horderly, -, hshown⟩ := MessageLog.foldl_act_shown config.retention postings hdistinct
  refine ⟨channel, hchannel, ?_, ?_⟩
  · rw [hlog]
    exact MessageLog.shown_ordered horderly.apart
  · rw [hlog]
    exact hshown

/-- **Clients in one channel converge.**  Whatever order the posts come in, however often, live or
as history, and whatever else happens in between: two clients that keep as many messages each, and
were brought the same posts since they came in, show the same list of them, which is the newest in
the order of time. -/
theorem run_converges {config config' : Config} {inputs inputs' : List Input}
    {key key' : CaseFolded}
    {posts posts' : List Post} (hretention : config.retention = config'.retention)
    (hposts : (new config).posts inputs key = some posts)
    (hposts' : (new config').posts inputs' key' = some posts')
    (hsame : ∀ post, post ∈ posts ↔ post ∈ posts') (hdistinct : Post.Distinct posts) :
    ∃ channel channel', ((new config).run inputs).model.channel key = some channel ∧
      ((new config').run inputs').model.channel key' = some channel' ∧
        channel.log.shown = channel'.log.shown ∧
        (channel.log.shown.Pairwise fun a b => a.timeMs < b.timeMs) ∧
          ∀ post, post ∈ channel.log.shown ↔
            post ∈ newest Post.timeMs (max config.retention 1) posts.toFinset := by
  obtain ⟨channel, hchannel, hordered, hshown⟩ := run_shown hposts hdistinct
  obtain ⟨channel', hchannel', hordered', hshown'⟩ :=
    run_shown hposts' (hdistinct.mono fun post hpost => (hsame post).mpr hpost)
  have hsets : posts'.toFinset = posts.toFinset := by
    ext post
    simp only [List.mem_toFinset, hsame]
  have hmem : ∀ post, post ∈ channel.log.shown ↔
      post ∈ newest Post.timeMs (max config.retention 1) posts.toFinset := by
    intro post
    rw [← hshown, List.mem_toFinset]
  have hmem' : ∀ post, post ∈ channel'.log.shown ↔
      post ∈ newest Post.timeMs (max config.retention 1) posts.toFinset := by
    intro post
    rw [hretention, ← hsets, ← hshown', List.mem_toFinset]
  refine ⟨channel, channel', hchannel, hchannel', ?_, hordered, hmem⟩
  exact newest_eq_of_ordered Post.timeMs hordered hordered' fun post =>
    (hmem post).trans (hmem' post).symm

end Run

end ObbyClient.Client

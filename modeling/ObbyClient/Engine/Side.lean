import ObbyClient.Engine.Effects

/-!
# What no handler looks at

The timers, the outstanding labels, the framing state and the count of dropped lines stand beside
the rest of a client: the handlers write to them, but nothing else depends on what they hold.

* `Client.Side`, `Client.withSide` — these fields, and a client with others in their place;
* `Client.Aloof` — a step that neither reads nor writes them;
* `Client.dispatch_withSide` — handling a line, beside them.
-/

namespace ObbyClient.Client

/-- The fields beside the rest of a client. -/
structure Side where
  timers : Timers
  labels : Labels
  discarding : Bool
  droppedLines : ℕ
  partialBytes : Bytes

/-- The fields of a client that stand beside the rest. -/
def side (c : Client) : Side :=
  ⟨c.timers, c.labels, c.discarding, c.droppedLines, c.partialBytes⟩

/-- A client with other fields beside the rest. -/
def withSide (c : Client) (s : Side) : Client :=
  { c with
    timers := s.timers
    labels := s.labels
    discarding := s.discarding
    droppedLines := s.droppedLines
    partialBytes := s.partialBytes }

@[simp] theorem withSide_withSide (c : Client) (s t : Side) :
    (c.withSide s).withSide t = c.withSide t := rfl

@[simp] theorem withSide_side (c : Client) : c.withSide c.side = c := rfl

@[simp] theorem side_withSide (c : Client) (s : Side) : (c.withSide s).side = s := rfl

/-- A step that neither reads nor writes the fields beside the rest. -/
def Aloof (h : Client → Client) : Prop := ∀ c s, h (c.withSide s) = (h c).withSide s

theorem Aloof.id : Aloof fun c => c := fun _ _ => rfl

theorem Aloof.comp {g h : Client → Client} (hg : Aloof g) (hh : Aloof h) :
    Aloof fun c => g (h c) := by
  intro c s
  show g (h (c.withSide s)) = _
  rw [hh c s, hg (h c) s]

theorem Aloof.ite {p : Client → Prop} [DecidablePred p] {g h : Client → Client}
    (hp : ∀ c s, p (c.withSide s) ↔ p c) (hg : Aloof g) (hh : Aloof h) :
    Aloof fun c => if p c then g c else h c := by
  intro c s
  show (if p (c.withSide s) then _ else _) = (if p c then g c else h c).withSide s
  by_cases hc : p c
  · rw [if_pos ((hp c s).mpr hc), if_pos hc, hg c s]
  · rw [if_neg (mt (hp c s).mp hc), if_neg hc, hh c s]

theorem Aloof.foldl {β : Type} {h : Client → β → Client} (hh : ∀ b, Aloof fun c => h c b)
    (bs : List β) : Aloof fun c => bs.foldl h c := by
  intro c s
  show bs.foldl h (c.withSide s) = (bs.foldl h c).withSide s
  induction bs generalizing c with
  | nil => rfl
  | cons b bs ih =>
      have hstep : h (c.withSide s) b = (h c b).withSide s := hh b c s
      rw [List.foldl_cons, hstep, ih, List.foldl_cons]

/-! ### Registration -/

theorem sendLine_aloof (message : Message) : Aloof fun c => c.sendLine message := fun _ _ => rfl

theorem sendLines_aloof (messages : List Message) : Aloof fun c => c.sendLines messages :=
  Aloof.foldl sendLine_aloof messages

theorem emit_aloof (event : Event) : Aloof fun c => c.emit event := fun _ _ => rfl

theorem emits_aloof (events : List Event) : Aloof fun c => c.emits events :=
  Aloof.foldl emit_aloof events

theorem startSaslIfWanted_withSide (c : Client) (s : Side) :
    (c.withSide s).startSaslIfWanted =
      (c.startSaslIfWanted.1.withSide s, c.startSaslIfWanted.2) := by
  unfold startSaslIfWanted
  by_cases h : c.sasl ≠ .idle ∨ c.caps.has "sasl" = false
  · have h' : (c.withSide s).sasl ≠ .idle ∨ (c.withSide s).caps.has "sasl" = false := h
    rw [if_pos h, if_pos h']
  · have h' : ¬ ((c.withSide s).sasl ≠ .idle ∨ (c.withSide s).caps.has "sasl" = false) := h
    rw [if_neg h, if_neg h', show (c.withSide s).config.sasl = c.config.sasl from rfl]
    cases c.config.sasl with
    | none => rfl
    | some credentials =>
        rw [show (c.withSide s).caps.value "sasl" = c.caps.value "sasl" from rfl]
        dsimp only
        split
        · rfl
        · rfl

theorem finishNegotiationIfSettled_aloof : Aloof finishNegotiationIfSettled := by
  unfold finishNegotiationIfSettled
  refine Aloof.ite (fun _ _ => Iff.rfl) Aloof.id ?_
  intro c s
  dsimp only
  rw [startSaslIfWanted_withSide]
  dsimp only
  by_cases h : (c.startSaslIfWanted.2 || c.startSaslIfWanted.1.sasl.inFlight) = true
  · rw [if_pos h]
    exact if_pos h
  · rw [if_neg h]
    exact if_neg h

theorem finishSasl_aloof (failure : Option SaslFailure) : Aloof fun c => c.finishSasl failure := by
  unfold finishSasl
  refine Aloof.ite (fun _ _ => Iff.rfl) Aloof.id ?_
  refine Aloof.comp finishNegotiationIfSettled_aloof ?_
  exact Aloof.comp (emits_aloof _) fun _ _ => rfl

section Authenticate

variable [Primitives]

theorem sendSasl_aloof (payload : Bytes) : Aloof fun c => c.sendSasl payload :=
  sendLines_aloof _

theorem beginSaslResponse_aloof : Aloof beginSaslResponse := by
  intro c s
  unfold beginSaslResponse
  have hcredentials : (c.withSide s).config.sasl = c.config.sasl := rfl
  rw [hcredentials]
  cases c.config.sasl with
  | none => rfl
  | some credentials =>
      cases credentials with
      | scram username password nonce =>
          exact sendSasl_aloof _ { c with
            scram := some (Scram.new username password nonce), sasl := .scramChallenged } s
      | _ => exact sendSasl_aloof _ { c with sasl := .responded } s

theorem answerScramChallenge_aloof (challenge : Bytes) :
    Aloof fun c => c.answerScramChallenge challenge := by
  intro c s
  dsimp only
  unfold answerScramChallenge
  have hscram : (c.withSide s).scram = c.scram := rfl
  rw [hscram]
  cases c.scram with
  | none => exact finishSasl_aloof _ c s
  | some scram =>
      dsimp only
      cases scram.clientFinal challenge with
      | ok result =>
          exact sendSasl_aloof _ { c with scram := some result.1, sasl := .scramProved } s
      | error e => exact finishSasl_aloof _ c s

theorem verifyScramServer_aloof (challenge : Bytes) :
    Aloof fun c => c.verifyScramServer challenge := by
  intro c s
  dsimp only
  unfold verifyScramServer
  have hscram : (c.withSide s).scram = c.scram := rfl
  rw [hscram]
  cases c.scram with
  | none => exact finishSasl_aloof _ c s
  | some scram =>
      dsimp only
      cases scram.verify challenge with
      | ok result => rfl
      | error e => exact finishSasl_aloof _ { c with scram := none } s

theorem handleAuthenticate_aloof (message : Message) :
    Aloof fun c => c.handleAuthenticate message := by
  intro c s
  dsimp only
  unfold handleAuthenticate
  have hsasl : (c.withSide s).sasl = c.sasl := rfl
  rw [hsasl]
  cases Sasl.decodeChallenge ((message.param 0).getD "+") with
  | none => exact finishSasl_aloof _ c s
  | some challenge =>
      dsimp only
      cases c.sasl with
      | offered => exact beginSaslResponse_aloof c s
      | scramChallenged => exact answerScramChallenge_aloof challenge c s
      | scramProved => exact verifyScramServer_aloof challenge c s
      | _ => rfl

end Authenticate

theorem requestWanted_aloof : Aloof requestWanted := by
  unfold requestWanted
  refine Aloof.ite (fun _ _ => Iff.rfl) finishNegotiationIfSettled_aloof ?_
  intro c s
  dsimp only
  rw [sendLines_eq, sendLines_eq]
  rfl

theorem applyCap_aloof (subcommand list : Str) (moreToCome : Bool) :
    Aloof fun c => c.applyCap subcommand list moreToCome := by
  unfold applyCap
  refine Aloof.ite (fun _ _ => Iff.rfl) ?_ ?_
  · cases moreToCome with
    | true => exact fun _ _ => rfl
    | false => exact Aloof.comp requestWanted_aloof fun _ _ => rfl
  refine Aloof.ite (fun _ _ => Iff.rfl) (Aloof.comp requestWanted_aloof fun _ _ => rfl) ?_
  refine Aloof.ite (fun _ _ => Iff.rfl) (fun _ _ => rfl) ?_
  refine Aloof.ite (fun _ _ => Iff.rfl) (Aloof.comp finishNegotiationIfSettled_aloof ?_) ?_
  · intro c s
    show (if (c.caps.acknowledge list).2 = [] then _ else _) =
      (if (c.caps.acknowledge list).2 = [] then _ else _ : Client).withSide s
    split
    · rfl
    · rfl
  refine Aloof.ite (fun _ _ => Iff.rfl) ?_ Aloof.id
  exact Aloof.comp finishNegotiationIfSettled_aloof fun _ _ => rfl

theorem handleCap_aloof (message : Message) : Aloof fun c => c.handleCap message := by
  unfold handleCap
  cases message.param 1 with
  | none => exact Aloof.id
  | some subcommand => exact applyCap_aloof _ _ _

theorem resume_aloof : Aloof resume := by
  intro c s
  rw [resume, resume, sendLines_eq, sendLines_eq]
  rfl

theorem handleWelcome_aloof (message : Message) : Aloof fun c => c.handleWelcome message :=
  Aloof.comp resume_aloof fun _ _ => rfl

theorem handleNickRefused_aloof (message : Message) :
    Aloof fun c => c.handleNickRefused message := by
  unfold handleNickRefused
  exact Aloof.ite (fun _ _ => Iff.rfl) (fun _ _ => rfl) fun _ _ => rfl

theorem handleIsupport_aloof (message : Message) : Aloof fun c => c.handleIsupport message :=
  Aloof.foldl (fun _ _ _ => rfl) _

/-! ### The other lines -/

theorem handleMonitor_aloof (message : Message) : Aloof fun c => c.handleMonitor message := by
  unfold handleMonitor
  cases message.param 1 with
  | none => exact Aloof.id
  | some list => exact Aloof.foldl (fun _ _ _ => rfl) _

section Fold

variable [Primitives]

theorem fold_aloof (message : Message) (historical : Bool) :
    Aloof fun c => c.fold message historical := by
  intro c s
  show (c.withSide s).fold message historical = (c.fold message historical).withSide s
  rw [fold_eq, fold_eq]
  rfl

theorem folds_aloof (messages : List Message) (historical : Bool) :
    Aloof fun c => c.folds messages historical :=
  Aloof.foldl (fun message => fold_aloof message historical) messages

theorem handleBatch_aloof (message : Message) : Aloof fun c => c.handleBatch message := by
  unfold handleBatch
  refine Aloof.ite (fun _ _ => Iff.rfl) (fun _ _ => rfl) ?_
  intro c s
  have hbatches : (c.withSide s).batches = c.batches := rfl
  dsimp only
  rw [hbatches]
  cases hclose : c.batches.close message with
  | none => rfl
  | some result =>
      exact folds_aloof _ _ { c with batches := result.1 } s

theorem handleOther_aloof (message : Message) : Aloof fun c => c.handleOther message := by
  intro c s
  show (c.withSide s).handleOther message = (c.handleOther message).withSide s
  unfold handleOther
  have hbatches : (c.withSide s).batches = c.batches := rfl
  rw [hbatches]
  cases c.batches.route message with
  | some batches => rfl
  | none => exact fold_aloof message false c s

theorem dispatchLate_aloof (message : Message) : Aloof fun c => c.dispatchLate message := by
  unfold dispatchLate
  refine Aloof.ite (fun _ _ => Iff.rfl) (handleAuthenticate_aloof message) ?_
  refine Aloof.ite (fun _ _ => Iff.rfl) (handleNickRefused_aloof message) ?_
  refine Aloof.ite (fun _ _ => Iff.rfl) (finishSasl_aloof _) ?_
  refine Aloof.ite (fun _ _ => Iff.rfl) (emits_aloof _) ?_
  refine Aloof.ite (fun _ _ => Iff.rfl) (finishSasl_aloof _) ?_
  exact Aloof.ite (fun _ _ => Iff.rfl) (handleBatch_aloof message) (handleOther_aloof message)

/-! ### Dropped lines -/

/-- True when a line tells that somebody is typing. -/
def tellsTyping (message : Message) : Bool :=
  (message.tag "+typing").isSome && (message.param 0).isSome && message.source.isSome

/-- True for an announcement that does not decode. -/
def dropsBot (message : Message) : Bool :=
  match message.tag botInfoTag, message.tag botCommandsTag with
  | some payload, _ => (BotInfo.decode payload).isNone
  | none, some payload => (decodeBotCommands payload).isNone || message.source.isNone
  | none, none => false

/-- True for a frame or an announcement that does not decode. -/
def drops (message : Message) : Bool :=
  message.is "TAGMSG" && !tellsTyping message &&
    match message.tag "+obsidianirc/rtc", message.param 0 with
    | some payload, some _ => (Voice.Signal.fromJson payload).isNone
    | _, _ => dropsBot message

/-- How many lines were dropped after this one. -/
def droppedAfter (message : Message) (droppedLines : ℕ) : ℕ :=
  if drops message then satAdd64 droppedLines 1 else droppedLines

omit [Primitives] in
/-- What an indicator does, given the timers it leaves. -/
def typed (c : Client) (timers : Timers) (target who : Str) (typing : Bool) : Client :=
  let (model, changed) := c.model.setTyping (c.isupport.fold target) (c.isupport.fold who) typing
  let c := { c with timers := timers, model := model }
  if changed then c.emit (.typingChanged target who typing) else c

omit [Primitives] in
theorem typed_withSide (c : Client) (s : Side) (timers timers' : Timers) (target who : Str)
    (typing : Bool) :
    (c.withSide s).typed timers target who typing =
      (c.typed timers' target who typing).withSide { s with timers := timers } := by
  show (if (c.model.setTyping (c.isupport.fold target) (c.isupport.fold who) typing).2 then _
    else _)
    = Client.withSide (if (c.model.setTyping (c.isupport.fold target) (c.isupport.fold who)
      typing).2
      then _ else _) _
  by_cases h : (c.model.setTyping (c.isupport.fold target) (c.isupport.fold who) typing).2 = true
  · rw [if_pos h, if_pos h]
    rfl
  · rw [if_neg h, if_neg h]
    rfl

omit [Primitives] in
/-- An indicator sets or clears a timer, and nothing else beside. -/
theorem handleTyping_withSide (c : Client) (s : Side) (message : Message) :
    (tellsTyping message = false ∧ c.handleTyping message = none ∧
        (c.withSide s).handleTyping message = none) ∨
      (tellsTyping message = true ∧ ∃ c' timers, c.handleTyping message = some c' ∧
        (c.withSide s).handleTyping message = some (c'.withSide { s with timers := timers })) := by
  unfold handleTyping tellsTyping
  cases message.tag "+typing" with
  | none => exact .inl ⟨rfl, rfl, rfl⟩
  | some state =>
      cases message.param 0 with
      | none => exact .inl ⟨rfl, rfl, rfl⟩
      | some target =>
          cases message.source with
          | none => exact .inl ⟨rfl, rfl, rfl⟩
          | some source =>
              exact .inr ⟨rfl, _, _, rfl,
                congrArg some (c.typed_withSide s _ _ _ source.name (state == ("active" : Str)))⟩

omit [Primitives] in
/-- Of frames, one that does not decode is dropped, and another one is applied. -/
theorem handleRtc_withSide (c : Client) (s : Side) (message : Message) :
    ((message.tag "+obsidianirc/rtc" = none ∨ message.param 0 = none) ∧
        c.handleRtc message = none ∧ (c.withSide s).handleRtc message = none) ∨
      (∃ payload channel, message.tag "+obsidianirc/rtc" = some payload ∧
        message.param 0 = some channel ∧
        (Voice.Signal.fromJson payload = none ∧ c.handleRtc message = some c.dropLine ∧
            (c.withSide s).handleRtc message = some (c.withSide s).dropLine ∨
          (Voice.Signal.fromJson payload).isSome ∧ ∃ c', c.handleRtc message = some c' ∧
            (c.withSide s).handleRtc message = some (c'.withSide s))) := by
  unfold handleRtc
  cases message.tag "+obsidianirc/rtc" with
  | none => exact .inl ⟨.inl rfl, rfl, rfl⟩
  | some payload =>
      cases message.param 0 with
      | none => exact .inl ⟨.inr rfl, rfl, rfl⟩
      | some channel =>
          refine .inr ⟨payload, channel, rfl, rfl, ?_⟩
          cases hsignal : Voice.Signal.fromJson payload with
          | none => exact .inl ⟨rfl, by simp [hsignal], by simp [hsignal]⟩
          | some signal =>
              dsimp only
              rw [hsignal]
              exact .inr ⟨rfl, _, rfl, rfl⟩

theorem handleBotInfo_withSide (c : Client) (s : Side) (payload : Str) :
    (BotInfo.decode payload = none ∧ c.handleBotInfo payload = c.dropLine ∧
        (c.withSide s).handleBotInfo payload = (c.withSide s).dropLine) ∨
      ((BotInfo.decode payload).isSome ∧
        (c.withSide s).handleBotInfo payload = (c.handleBotInfo payload).withSide s) := by
  unfold handleBotInfo
  cases BotInfo.decode payload with
  | none => exact .inl ⟨rfl, rfl, rfl⟩
  | some info => exact .inr ⟨rfl, rfl⟩

theorem handleBotCommands_withSide (c : Client) (s : Side) (payload : Str)
    (source : Option Source) :
    (((decodeBotCommands payload).isNone || source.isNone) = true ∧
        c.handleBotCommands payload source = c.dropLine ∧
        (c.withSide s).handleBotCommands payload source = (c.withSide s).dropLine) ∨
      (((decodeBotCommands payload).isNone || source.isNone) = false ∧
        (c.withSide s).handleBotCommands payload source =
          (c.handleBotCommands payload source).withSide s) := by
  unfold handleBotCommands
  cases decodeBotCommands payload with
  | none => exact .inl ⟨rfl, rfl, rfl⟩
  | some commands =>
      cases source with
      | none => exact .inl ⟨rfl, rfl, rfl⟩
      | some source =>
          refine .inr ⟨rfl, ?_⟩
          have hbots : (c.withSide s).bots = c.bots := rfl
          have hisupport : (c.withSide s).isupport = c.isupport := rfl
          dsimp only
          rw [hbots, hisupport]
          cases c.bots.setCommands (c.isupport.fold source.name).asStr commands with
          | none => rfl
          | some bots => rfl

theorem handleBotTags_withSide (c : Client) (s : Side) (message : Message) :
    (dropsBot message = false ∧ c.handleBotTags message = none ∧
        (c.withSide s).handleBotTags message = none) ∨
      (dropsBot message = true ∧ c.handleBotTags message = some c.dropLine ∧
        (c.withSide s).handleBotTags message = some (c.withSide s).dropLine) ∨
      (dropsBot message = false ∧ ∃ c', c.handleBotTags message = some c' ∧
        (c.withSide s).handleBotTags message = some (c'.withSide s)) := by
  unfold handleBotTags dropsBot
  cases message.tag botInfoTag with
  | some payload =>
      dsimp only
      rcases c.handleBotInfo_withSide s payload with ⟨hbad, h, h'⟩ | ⟨hgood, h'⟩
      · rw [hbad, h, h']
        exact .inr (.inl ⟨rfl, rfl, rfl⟩)
      · rw [h']
        exact .inr (.inr ⟨by simp [hgood], _, rfl, rfl⟩)
  | none =>
      cases message.tag botCommandsTag with
      | none => exact .inl ⟨rfl, rfl, rfl⟩
      | some payload =>
          dsimp only
          rcases c.handleBotCommands_withSide s payload message.source with
            ⟨hbad, h, h'⟩ | ⟨hgood, h'⟩
          · rw [hbad, h, h']
            exact .inr (.inl ⟨rfl, rfl, rfl⟩)
          · rw [hgood, h']
            exact .inr (.inr ⟨rfl, _, rfl, rfl⟩)

/-- A TAGMSG that is no message: what it does beside the rest, and that one that is dropped does
nothing else. -/
theorem handleTagmsg_withSide (c : Client) (s : Side) (message : Message) :
    (drops message = false ∧ c.handleTagmsg message = none ∧
        (c.withSide s).handleTagmsg message = none) ∨
      (drops message = true ∧ c.handleTagmsg message = some c.dropLine ∧
        (c.withSide s).handleTagmsg message = some (c.withSide s).dropLine) ∨
      (drops message = false ∧ ∃ c' timers, c.handleTagmsg message = some c' ∧
        (c.withSide s).handleTagmsg message = some (c'.withSide { s with timers := timers })) := by
  unfold handleTagmsg drops
  cases message.is "TAGMSG" with
  | false => exact .inl ⟨rfl, rfl, rfl⟩
  | true =>
      simp only [Bool.not_true, if_neg Bool.false_ne_true, Bool.true_and]
      rcases c.handleTyping_withSide s message with
        ⟨htells, hnone, hnone'⟩ | ⟨htells, c', timers, hsome, hsome'⟩
      · rw [htells, hnone, hnone', Option.none_or, Option.none_or, Bool.not_false, Bool.true_and]
        rcases c.handleRtc_withSide s message with ⟨hno, hrtc, hrtc'⟩ |
          ⟨payload, channel, htag, hparam, ⟨hbad, hrtc, hrtc'⟩ | ⟨hgood, c', hrtc, hrtc'⟩⟩
        · have hmatch : (match message.tag "+obsidianirc/rtc", message.param 0 with
              | some payload, some _ => (Voice.Signal.fromJson payload).isNone
              | _, _ => dropsBot message) = dropsBot message := by
            split
            · rename_i hpayload hchannel
              rcases hno with h | h
              · exact absurd (hpayload.symm.trans h) (by simp)
              · exact absurd (hchannel.symm.trans h) (by simp)
            · rfl
          rw [hmatch, hrtc, hrtc', Option.none_or, Option.none_or]
          rcases c.handleBotTags_withSide s message with h | h | ⟨hd, c', h, h'⟩
          · exact .inl h
          · exact .inr (.inl h)
          · exact .inr (.inr ⟨hd, c', s.timers, h, h'⟩)
        · rw [htag, hparam, hrtc, hrtc']
          exact .inr (.inl ⟨by simp [hbad], rfl, rfl⟩)
        · rw [htag, hparam, hrtc, hrtc']
          refine .inr (.inr ⟨?_, c', s.timers, rfl, rfl⟩)
          cases hsignal : Voice.Signal.fromJson payload with
          | none => rw [hsignal] at hgood; exact absurd hgood (by decide)
          | some signal => simp [hsignal]
      · rw [htells, hsome, hsome']
        exact .inr (.inr ⟨rfl, c', timers, rfl, rfl⟩)

omit [Primitives] in
/-- A command word is one thing or the other. -/
theorem is_eq_false {message : Message} {a b : Str} (h : message.is a = true)
    (hab : eqIgnoreAsciiCase a b = false) : message.is b = false := by
  simp only [Message.is, eqIgnoreAsciiCase, beq_iff_eq, beq_eq_false_iff_ne] at h hab ⊢
  rw [h]
  exact hab

omit [Primitives] in
theorem handleToken_withSide (c : Client) (s : Side) (message : Message) :
    (c.handleToken message = none ∧ (c.withSide s).handleToken message = none) ∨
      ∃ c', c.handleToken message = some c' ∧
        (c.withSide s).handleToken message = some (c'.withSide s) := by
  unfold handleToken
  by_cases h : (!message.is "TOKEN") = true ∨ message.param 0 ≠ some ("GENERATE" : Str)
  · rw [if_pos h, if_pos h]
    exact .inl ⟨rfl, rfl⟩
  · rw [if_neg h, if_neg h]
    split
    · exact .inr ⟨_, rfl, rfl⟩
    · exact .inl ⟨rfl, rfl⟩

omit [Primitives] in
theorem handleStandardReply_withSide (c : Client) (s : Side) (message : Message) :
    (c.handleStandardReply message = none ∧ (c.withSide s).handleStandardReply message = none) ∨
      ∃ c', c.handleStandardReply message = some c' ∧
        (c.withSide s).handleStandardReply message = some (c'.withSide s) := by
  unfold handleStandardReply
  split
  · exact .inr ⟨_, rfl, rfl⟩
  · exact .inl ⟨rfl, rfl⟩

theorem droppedAfter_of_not (message : Message) (h : drops message = false) (n : ℕ) :
    droppedAfter message n = n := by
  rw [droppedAfter, h]
  rfl

/-- What handling a line does beside the rest: it may set a timer, and counts a line it drops. -/
theorem dispatchMiddle_withSide (c : Client) (s : Side) (message : Message) :
    ∃ timers, (c.withSide s).dispatchMiddle message = (c.dispatchMiddle message).withSide
      { s with timers := timers, droppedLines := droppedAfter message s.droppedLines } := by
  unfold dispatchMiddle
  rcases c.handleTagmsg_withSide s message with
    ⟨hd, h, h'⟩ | ⟨hd, h, h'⟩ | ⟨hd, c', timers, h, h'⟩
  · refine ⟨s.timers, ?_⟩
    rw [h, h', Option.none_or, Option.none_or, droppedAfter_of_not message hd]
    rcases c.handleToken_withSide s message with ⟨h, h'⟩ | ⟨c', h, h'⟩
    · rw [h, h']
      dsimp only
      by_cases hcmds : message.is "CMDSLIST" = true
      · rw [if_pos hcmds, if_pos hcmds]
        rfl
      rw [if_neg hcmds, if_neg hcmds]
      by_cases hmonitor : message.command = "730" ∨ message.command = "731"
      · rw [if_pos hmonitor, if_pos hmonitor]
        exact handleMonitor_aloof message c s
      rw [if_neg hmonitor, if_neg hmonitor]
      rcases c.handleStandardReply_withSide s message with ⟨h, h'⟩ | ⟨c', h, h'⟩
      · rw [h, h']
        exact dispatchLate_aloof message c s
      · rw [h, h']
    · rw [h, h']
  · refine ⟨s.timers, ?_⟩
    rw [h, h', droppedAfter, hd]
    rfl
  · refine ⟨timers, ?_⟩
    rw [h, h', droppedAfter_of_not message hd]
    rfl

/-- A line that is dropped is no line of another kind. -/
theorem dispatch_of_is_tagmsg (c : Client) {message : Message} (h : message.is "TAGMSG" = true) :
    c.dispatch message = c.dispatchMiddle message := by
  unfold dispatch
  rw [is_eq_false h (by decide), is_eq_false h (by decide), is_eq_false h (by decide),
    is_eq_false h (by decide), is_eq_false h (by decide)]
  rfl

theorem is_tagmsg_of_drops {message : Message} (h : drops message = true) :
    message.is "TAGMSG" = true := by
  cases hi : message.is "TAGMSG" with
  | true => rfl
  | false =>
      rw [drops, hi] at h
      exact absurd h Bool.false_ne_true

theorem dispatch_of_drops (c : Client) {message : Message} (h : drops message = true) :
    c.dispatch message = c.dropLine := by
  rw [c.dispatch_of_is_tagmsg (is_tagmsg_of_drops h)]
  unfold dispatchMiddle
  rcases c.handleTagmsg_withSide c.side message with ⟨hd, -⟩ | ⟨-, htag, -⟩ | ⟨hd, -⟩
  · exact absurd (h.symm.trans hd) (by decide)
  · rw [htag]
    rfl
  · exact absurd (h.symm.trans hd) (by decide)

theorem dispatch_withSide (c : Client) (s : Side) (message : Message) :
    ∃ timers, (c.withSide s).dispatch message = (c.dispatch message).withSide
      { s with timers := timers, droppedLines := droppedAfter message s.droppedLines } := by
  by_cases htag : message.is "TAGMSG" = true
  · rw [dispatch_of_is_tagmsg _ htag, dispatch_of_is_tagmsg _ htag]
    exact c.dispatchMiddle_withSide s message
  · have hd : drops message = false := by
      cases hd : drops message with
      | false => rfl
      | true => exact absurd (is_tagmsg_of_drops hd) htag
    have hrest := c.dispatchMiddle_withSide s message
    rw [droppedAfter_of_not message hd] at hrest ⊢
    unfold dispatch
    by_cases hpong : message.is "PONG" = true
    · rw [if_pos hpong, if_pos hpong]
      exact ⟨s.timers, rfl⟩
    rw [if_neg hpong, if_neg hpong]
    by_cases hping : message.is "PING" = true
    · rw [if_pos hping, if_pos hping]
      exact ⟨s.timers, rfl⟩
    rw [if_neg hping, if_neg hping]
    by_cases hcap : message.is "CAP" = true
    · rw [if_pos hcap, if_pos hcap]
      exact ⟨s.timers, handleCap_aloof message c s⟩
    rw [if_neg hcap, if_neg hcap]
    by_cases hwelcome : message.is "001" = true
    · rw [if_pos hwelcome, if_pos hwelcome]
      exact ⟨s.timers, handleWelcome_aloof message c s⟩
    rw [if_neg hwelcome, if_neg hwelcome]
    by_cases hisupport : message.is "005" = true
    · rw [if_pos hisupport, if_pos hisupport]
      exact ⟨s.timers, handleIsupport_aloof message c s⟩
    rw [if_neg hisupport, if_neg hisupport]
    exact hrest

/-- **Handling a line, beside the rest**: it sets timers and resolves a label, counts a line it
drops, and does to the rest what it would do under any other timers, labels and counts. -/
theorem handleMessage_withSide (c : Client) (s : Side) (message : Message) :
    ∃ timers labels, (c.withSide s).handleMessage message = (c.handleMessage message).withSide
      { s with
        timers := timers
        labels := labels
        droppedLines := droppedAfter message s.droppedLines } := by
  have hside : ∀ d : Client, ∃ timers labels,
      { d.armKeepalive with labels := d.armKeepalive.labels.resolve message } =
        d.withSide { d.side with timers := timers, labels := labels } :=
    fun d => ⟨_, _, rfl⟩
  obtain ⟨timers, labels, h⟩ := hside c
  obtain ⟨timers', labels', h'⟩ := hside (c.withSide s)
  unfold handleMessage
  dsimp only at h h' ⊢
  rw [h, h']
  obtain ⟨t, ht⟩ := c.dispatch_withSide { c.side with timers := timers, labels := labels } message
  obtain ⟨t', ht'⟩ := c.dispatch_withSide { s with timers := timers', labels := labels' } message
  refine ⟨t', labels', ?_⟩
  rw [ht]
  exact ht'

end Fold

end ObbyClient.Client

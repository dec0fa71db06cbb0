import ObbyClient.Engine.Handle
import Mathlib.Tactic.Simps.Basic

/-!
# When a host drains the queues

A client queues bytes for the transport and events for the host, and a host takes them whenever it
likes.

* `Client.ahead` — a client with more in front of its queues;
* `Client.step_ahead` — nothing but taking from the queues looks at what is in them;
* `Client.run_drained` — so taking some early changes nothing, and what is taken is what would have
  stayed.
-/

namespace ObbyClient

namespace Client

/-- A client with more in front of its queues. -/
@[simps] def ahead (c : Client) (out : List Bytes) (told : List Event) : Client :=
  { c with outbox := out ++ c.outbox, events := told ++ c.events }

section Ahead

variable (c : Client) (out : List Bytes) (told : List Event)

/-- A change to anything else leaves what is in front of the queues there. -/
@[simp] theorem mk_ahead (config phase caps nick isupport model batches monitor channelKeys
    metadataSubscriptions rooms
    commands bots timers labels backoff monotonicMs latestMs discarding droppedLines sasl scram
      nickAttempt
    partialBytes outbox events) :
    Client.mk config phase caps nick isupport model batches monitor channelKeys
      metadataSubscriptions rooms commands
      bots timers labels backoff monotonicMs latestMs discarding droppedLines sasl scram nickAttempt
        partialBytes
      (out ++ outbox) (told ++ events) =
    (Client.mk config phase caps nick isupport model batches monitor channelKeys
      metadataSubscriptions rooms commands
      bots timers labels backoff monotonicMs latestMs discarding droppedLines sasl scram nickAttempt
        partialBytes
      outbox events).ahead out told := rfl

@[simp] theorem ite_ahead (p : Prop) [Decidable p] (d : Client) :
    (if p then c.ahead out told else d.ahead out told) = (if p then c else d).ahead out told :=
  (apply_ite (fun c : Client => c.ahead out told) p c d).symm

/-! ### What goes into the queues -/

@[simp] theorem sendLine_ahead (message : Message) :
    (c.ahead out told).sendLine message = (c.sendLine message).ahead out told := by
  simp [sendLine, List.append_assoc]

@[simp] theorem emit_ahead (event : Event) : (c.ahead out told).emit event =
    (c.emit event).ahead out told := by
  simp [emit, List.append_assoc]

/-- Several steps of one kind. -/
theorem foldl_ahead {β : Type} {f : Client → β → Client}
    (hf : ∀ (c : Client) (b : β), f (c.ahead out told) b = (f c b).ahead out told) (bs : List β) :
    bs.foldl f (c.ahead out told) = (bs.foldl f c).ahead out told := by
  induction bs generalizing c with
  | nil => rfl
  | cons b bs ih => rw [List.foldl_cons, List.foldl_cons, hf, ih]

@[simp] theorem sendLines_ahead (messages : List Message) :
    (c.ahead out told).sendLines messages = (c.sendLines messages).ahead out told :=
  foldl_ahead c out told (fun c message => c.sendLine_ahead out told message) messages

@[simp] theorem emits_ahead (events : List Event) :
    (c.ahead out told).emits events = (c.emits events).ahead out told :=
  foldl_ahead c out told (fun c event => c.emit_ahead out told event) events

/-! ### Coming up, going down and the clock -/

@[simp] theorem armKeepalive_ahead : (c.ahead out told).armKeepalive =
    c.armKeepalive.ahead out told := by
  simp [armKeepalive]

@[simp] theorem handleConnected_ahead : (c.ahead out told).handleConnected =
    c.handleConnected.ahead out told := by
  simp [handleConnected]

@[simp] theorem scheduleReconnect_ahead : (c.ahead out told).scheduleReconnect =
    c.scheduleReconnect.ahead out told := by
  simp only [scheduleReconnect, ahead_backoff]
  cases c.backoff.nextDelayMs with
  | mk backoff delay => cases delay <;> simp

@[simp] theorem handleDisconnected_ahead :
    (c.ahead out told).handleDisconnected = c.handleDisconnected.ahead out told := by
  simp [handleDisconnected]

@[simp] theorem fire_ahead (now : Now) (deadline : Deadline) :
    fire now (c.ahead out told) deadline = (fire now c deadline).ahead out told := by
  cases deadline with
  | pingKeepalive => simp [fire]
  | deadLink => simp [fire]
  | reconnect => simp [fire]
  | typing target who =>
    simp only [fire, expireTyping, ahead_model]
    cases c.model.setTyping ⟨target⟩ ⟨who⟩ false with
    | mk model changed => cases changed <;> simp

@[simp] theorem tick_ahead (now : Now) : (c.ahead out told).tick now =
    (c.tick now).ahead out told := by
  simp [tick, foldl_ahead _ out told fun c deadline => c.fire_ahead out told now deadline]

/-! ### What the host asks for -/

@[simp] theorem sendLineLabeled_ahead (message : Message) :
    (c.ahead out told).sendLineLabeled message = (c.sendLineLabeled message).ahead out told := by
  simp only [sendLineLabeled, ahead_caps, ahead_labels]
  split
  · simp
  · simp

@[simp] theorem setWatching_ahead (nicks : List Str) (watching : Bool) :
    (c.ahead out told).setWatching nicks watching =
      (c.setWatching nicks watching).ahead out told := by
  simp [setWatching, monitorLines, monitorLimit]

/-! ### What lines do -/

@[simp] theorem onChange_ahead (change : Change) :
    (c.ahead out told).onChange change = (c.onChange change).ahead out told := by
  cases change <;> simp [onChange, whoLine]

@[simp] theorem startSaslIfWanted_ahead :
    (c.ahead out told).startSaslIfWanted =
      ((c.startSaslIfWanted).1.ahead out told, c.startSaslIfWanted.2) := by
  simp only [startSaslIfWanted, ahead_sasl, ahead_caps, ahead_config]
  split
  · rfl
  · split
    · rfl
    · split <;> simp

@[simp] theorem finishNegotiationIfSettled_ahead :
    (c.ahead out told).finishNegotiationIfSettled =
      c.finishNegotiationIfSettled.ahead out told := by
  simp only [finishNegotiationIfSettled, ahead_phase, ahead_caps, startSaslIfWanted_ahead,
    ahead_sasl]
  split
  · rfl
  · split <;> simp

@[simp] theorem finishSasl_ahead (failure : Option SaslFailure) :
    (c.ahead out told).finishSasl failure = (c.finishSasl failure).ahead out told := by
  simp only [finishSasl, ahead_sasl]
  split
  · rfl
  · simp

@[simp] theorem requestWanted_ahead : (c.ahead out told).requestWanted =
    c.requestWanted.ahead out told := by
  simp only [requestWanted, ahead_caps]
  split <;> simp

@[simp] theorem applyCap_ahead (subcommand list : Str) (moreToCome : Bool) :
    (c.ahead out told).applyCap subcommand list moreToCome =
      (c.applyCap subcommand list moreToCome).ahead out told := by
  simp only [applyCap, ahead_caps]
  split
  · split <;> simp
  · split
    · simp
    · split
      · simp
      · split
        · split <;> simp
        · split <;> simp

@[simp] theorem handleCap_ahead (message : Message) :
    (c.ahead out told).handleCap message = (c.handleCap message).ahead out told := by
  simp only [handleCap]
  cases message.param 1 <;> simp

@[simp] theorem resume_ahead : (c.ahead out told).resume = c.resume.ahead out told := by
  simp only [resume, resumeLines, monitorLines, monitorLimit, ahead_isupport, ahead_monitor,
    ahead_metadataSubscriptions, ahead_model, rejoinLines, ahead_channelKeys, ahead_caps,
      sendLines_ahead]

@[simp] theorem handleWelcome_ahead (message : Message) :
    (c.ahead out told).handleWelcome message = (c.handleWelcome message).ahead out told := by
  simp [handleWelcome]

@[simp] theorem handleNickRefused_ahead (message : Message) :
    (c.ahead out told).handleNickRefused message =
      (c.handleNickRefused message).ahead out told := by
  simp only [handleNickRefused, ahead_phase]
  split <;> simp

@[simp] theorem applyToken_ahead (token : Str) :
    (c.ahead out told).applyToken token = (c.applyToken token).ahead out told := by
  simp [applyToken]

@[simp] theorem handleIsupport_ahead (message : Message) :
    (c.ahead out told).handleIsupport message = (c.handleIsupport message).ahead out told :=
  foldl_ahead c out told (fun c token => c.applyToken_ahead out told token) _

@[simp] theorem applyPresence_ahead (online : Bool) (target : Str) :
    applyPresence online (c.ahead out told) target =
      (applyPresence online c target).ahead out told := by
  simp [applyPresence]

@[simp] theorem handleMonitor_ahead (message : Message) :
    (c.ahead out told).handleMonitor message = (c.handleMonitor message).ahead out told := by
  simp only [handleMonitor]
  cases message.param 1 with
  | none => rfl
  | some list =>
      exact foldl_ahead c out told (fun c target => c.applyPresence_ahead out told _ target) _

@[simp] theorem dropLine_ahead : (c.ahead out told).dropLine = c.dropLine.ahead out told := by
  simp [dropLine]

/-! ### Lines that are not messages -/

theorem handleTyping_ahead (message : Message) :
    (c.ahead out told).handleTyping message = (c.handleTyping message).map (·.ahead out told) := by
  simp only [handleTyping, ahead_isupport, ahead_model]
  split
  · split <;> simp
  · rfl

theorem handleRtc_ahead (message : Message) :
    (c.ahead out told).handleRtc message = (c.handleRtc message).map (·.ahead out told) := by
  simp only [handleRtc, ahead_isupport, ahead_rooms]
  split
  · split <;> simp
  · rfl

theorem handleToken_ahead (message : Message) :
    (c.ahead out told).handleToken message = (c.handleToken message).map (·.ahead out told) := by
  simp only [handleToken]
  split
  · rfl
  · split <;> simp

theorem handleStandardReply_ahead (message : Message) :
    (c.ahead out told).handleStandardReply message =
      (c.handleStandardReply message).map (·.ahead out told) := by
  simp only [handleStandardReply]
  split <;> simp

section Lines

variable [Primitives]

@[simp] theorem handleBotInfo_ahead (payload : Str) :
    (c.ahead out told).handleBotInfo payload = (c.handleBotInfo payload).ahead out told := by
  simp only [handleBotInfo]
  cases BotInfo.decode payload <;> simp

@[simp] theorem handleBotCommands_ahead (payload : Str) (source : Option Source) :
    (c.ahead out told).handleBotCommands payload source =
      (c.handleBotCommands payload source).ahead out told := by
  simp only [handleBotCommands, ahead_bots, ahead_isupport]
  split
  · split <;> simp
  · simp

theorem handleBotTags_ahead (message : Message) :
    (c.ahead out told).handleBotTags message =
      (c.handleBotTags message).map (·.ahead out told) := by
  simp only [handleBotTags]
  split <;> simp

theorem handleTagmsg_ahead (message : Message) :
    (c.ahead out told).handleTagmsg message = (c.handleTagmsg message).map (·.ahead out told) := by
  simp only [handleTagmsg, handleTyping_ahead, handleRtc_ahead, handleBotTags_ahead,
    ← Option.map_or]
  split
  · rfl
  · rfl

/-! ### Logging in -/

@[simp] theorem sendSasl_ahead (payload : Bytes) :
    (c.ahead out told).sendSasl payload = (c.sendSasl payload).ahead out told := by
  simp [sendSasl]

@[simp] theorem beginSaslResponse_ahead :
    (c.ahead out told).beginSaslResponse = c.beginSaslResponse.ahead out told := by
  simp only [beginSaslResponse, ahead_config]
  split <;> simp

@[simp] theorem answerScramChallenge_ahead (challenge : Bytes) :
    (c.ahead out told).answerScramChallenge challenge =
      (c.answerScramChallenge challenge).ahead out told := by
  simp only [answerScramChallenge, ahead_scram]
  split
  · simp
  · split <;> simp

@[simp] theorem verifyScramServer_ahead (challenge : Bytes) :
    (c.ahead out told).verifyScramServer challenge =
      (c.verifyScramServer challenge).ahead out told := by
  simp only [verifyScramServer, ahead_scram]
  split
  · simp
  · split <;> simp

@[simp] theorem handleAuthenticate_ahead (message : Message) :
    (c.ahead out told).handleAuthenticate message =
      (c.handleAuthenticate message).ahead out told := by
  simp only [handleAuthenticate, ahead_sasl]
  split
  · simp
  · split <;> simp

/-! ### Folding and batches -/

@[simp] theorem fold_ahead (message : Message) (historical : Bool) :
    (c.ahead out told).fold message historical = (c.fold message historical).ahead out told := by
  have hcontext : (c.ahead out told).context historical = c.context historical := rfl
  simp only [fold, hcontext]
  cases Session.apply (c.context historical) message with
  | mk ctx changes => simp [foldl_ahead _ out told fun c change => c.onChange_ahead out told change]

@[simp] theorem folds_ahead (messages : List Message) (historical : Bool) :
    (c.ahead out told).folds messages historical = (c.folds messages historical).ahead out told :=
  foldl_ahead c out told (fun c message => c.fold_ahead out told message historical) messages

@[simp] theorem say_ahead (line : Message) : (c.ahead out told).say line =
    (c.say line).ahead out told := by
  simp only [say, sendLineLabeled_ahead, ahead_caps, ahead_nick, fold_ahead]
  split <;> rfl

@[simp] theorem handleBatch_ahead (message : Message) :
    (c.ahead out told).handleBatch message = (c.handleBatch message).ahead out told := by
  simp only [handleBatch, ahead_batches]
  split
  · simp
  · cases c.batches.close message <;> simp

@[simp] theorem handleOther_ahead (message : Message) :
    (c.ahead out told).handleOther message = (c.handleOther message).ahead out told := by
  simp only [handleOther, ahead_batches]
  cases c.batches.route message <;> simp

/-! ### Dispatch -/

@[simp] theorem dispatchLate_ahead (message : Message) :
    (c.ahead out told).dispatchLate message = (c.dispatchLate message).ahead out told := by
  simp only [dispatchLate, handleAuthenticate_ahead, handleNickRefused_ahead, finishSasl_ahead,
    emits_ahead, handleBatch_ahead, handleOther_ahead, ite_ahead]

@[simp] theorem dispatchMiddle_ahead (message : Message) :
    (c.ahead out told).dispatchMiddle message = (c.dispatchMiddle message).ahead out told := by
  have hlist : { c.ahead out told with commands := c.commands.apply message }.emit
    .allowedCommandsChanged =
      ({ c with commands := c.commands.apply message }.emit .allowedCommandsChanged).ahead out
        told :=
    emit_ahead { c with commands := c.commands.apply message } out told _
  simp only [dispatchMiddle, ahead_commands, hlist, handleTagmsg_ahead, handleToken_ahead,
    handleMonitor_ahead, handleStandardReply_ahead, dispatchLate_ahead, ← Option.map_or]
  cases (c.handleTagmsg message).or (c.handleToken message) with
  | some d => rfl
  | none => cases c.handleStandardReply message <;> simp only [Option.map_none, Option.map_some,
      ite_ahead]

@[simp] theorem dispatch_ahead (message : Message) :
    (c.ahead out told).dispatch message = (c.dispatch message).ahead out told := by
  simp only [dispatch, sendLine_ahead, handleCap_ahead, handleWelcome_ahead, handleIsupport_ahead,
    dispatchMiddle_ahead, ite_ahead]

@[simp] theorem handleMessage_ahead (message : Message) :
    (c.ahead out told).handleMessage message = (c.handleMessage message).ahead out told := by
  simp [handleMessage]

@[simp] theorem handleLine_ahead (line : Bytes) :
    (c.ahead out told).handleLine line = (c.handleLine line).ahead out told := by
  simp only [handleLine]
  cases Message.parse (Utf8.decodeLossy line) <;> simp

theorem handleLines_ahead (fuel : ℕ) :
    handleLines fuel (c.ahead out told) = (handleLines fuel c).ahead out told := by
  induction fuel generalizing c with
  | zero => rfl
  | succ fuel ih =>
      simp only [handleLines, ahead_partialBytes, ahead_discarding]
      cases splitOnce 10 c.partialBytes with
      | none => simp
      | some p => simp [ih]

@[simp] theorem handleBytes_ahead (data : Bytes) :
    (c.ahead out told).handleBytes data = (c.handleBytes data).ahead out told := by
  simp [handleBytes, handleLines_ahead]

@[simp] theorem command_ahead (asked : Command) :
    (c.ahead out told).command asked = (c.command asked).ahead out told := by
  cases asked with
  | sendRawLine line =>
      simp only [command, wire]
      cases (Message.parse line).toOption <;> simp
  | _ => simp [command, wire]

end Lines

theorem ahead_ahead (first : List Bytes) (before : List Event) :
    (c.ahead out told).ahead first before = c.ahead (first ++ out) (before ++ told) := by
  simp only [ahead, List.append_assoc]

/-- A chunk that is polled was in front. -/
theorem pollTransmit_ahead : c.pollTransmit.1.ahead c.pollTransmit.2.toList [] = c := by
  have hout : c.outbox.head?.toList ++ c.outbox.tail = c.outbox := by cases c.outbox <;> rfl
  simp only [ahead, pollTransmit, hout, List.nil_append]

/-- An event that is polled was in front. -/
theorem pollEvent_ahead : c.pollEvent.1.ahead [] c.pollEvent.2.toList = c := by
  have htold : c.events.head?.toList ++ c.events.tail = c.events := by cases c.events <;> rfl
  simp only [ahead, pollEvent, htold, List.nil_append]

end Ahead

/-! ### Runs -/

/-- True for the two inputs that take from a queue. -/
def Input.polls : Input → Bool
  | .pollTransmit => true
  | .pollEvent => true
  | _ => false

section Runs

variable [Primitives]

/-- **Nothing but a poll looks at what is in the queues.** -/
theorem step_ahead (c : Client) (out : List Bytes) (told : List Event) {input : Input}
    (h : input.polls = false) :
    (c.ahead out told).step input = (c.step input).ahead out told := by
  cases input with
  | pollTransmit => simp [Input.polls] at h
  | pollEvent => simp [Input.polls] at h
  | _ => simp [step]

theorem run_ahead (c : Client) (out : List Bytes) (told : List Event) (inputs : List Input)
    (h : ∀ input ∈ inputs, input.polls = false) : (c.ahead out told).run inputs =
    (c.run inputs).ahead out told := by
  induction inputs generalizing c with
  | nil => rfl
  | cons input inputs ih =>
      show ((c.ahead out told).step input).run inputs = ((c.step input).run inputs).ahead out told
      rw [c.step_ahead out told (h input (by simp)), ih _ fun i hi => h i (by simp [hi])]

/-- What a host takes off the queues of a client in a run: the bytes, and the events. -/
def drawn (c : Client) : List Input → List Bytes × List Event
  | [] => ([], [])
  | input :: inputs =>
      let later := (c.step input).drawn inputs
      match input with
      | .pollTransmit => (c.pollTransmit.2.toList ++ later.1, later.2)
      | .pollEvent => (later.1, c.pollEvent.2.toList ++ later.2)
      | _ => later

/-- **Draining is invisible.**  Whenever a host empties the queues, the client does what it would
have done had nobody, and what was taken, in the order it was taken, is the front of what would be
waiting. -/
theorem run_drained (c : Client) (inputs : List Input) :
    c.run (inputs.filter fun input => !input.polls) =
      (c.run inputs).ahead (c.drawn inputs).1 (c.drawn inputs).2 := by
  induction inputs generalizing c with
  | nil => rfl
  | cons input inputs ih =>
      have hkept : ∀ i ∈ inputs.filter fun input => !input.polls, i.polls = false := fun i hi => by
        simpa using (List.mem_filter.mp hi).2
      cases input with
      | pollTransmit =>
          calc c.run (inputs.filter fun input => !input.polls)
              = (c.pollTransmit.1.ahead c.pollTransmit.2.toList []).run (inputs.filter fun input =>
                  !input.polls) := by
                rw [c.pollTransmit_ahead]
            _ = _ := by
                rw [run_ahead _ _ _ _ hkept, ih, ahead_ahead]
                rfl
      | pollEvent =>
          calc c.run (inputs.filter fun input => !input.polls)
              = (c.pollEvent.1.ahead [] c.pollEvent.2.toList).run (inputs.filter fun input =>
                  !input.polls) := by
                rw [c.pollEvent_ahead]
            _ = _ := by
                rw [run_ahead _ _ _ _ hkept, ih, ahead_ahead]
                rfl
      | _ => exact ih _

end Runs

end Client

end ObbyClient

import ObbyClient.Engine.Negotiation
import ObbyClient.Lib.Base64
import ObbyClient.Lib.Sha256

/-!
# Logging in, and what a settled login proves

An exchange is settled by a failure the host is told of, or by the server's word that all is well.
Under SCRAM that word is worth something only behind a proof that the server knows the password.

* `Client.LoginStep` — what one line does to the exchange: `Client.handleMessage_login`;
* `Client.Verified` — a line on which the server's proof is checked and found right;
* `Client.settled_verified` — where `903` comes only once the proof is checked, no SCRAM exchange is
  settled without a failure or a proof.
-/

namespace ObbyClient

/-- With base64 as it is, for runs that meet no hash. -/
@[reducible] def Primitives.base64 : Primitives :=
  { Primitives.ascii with base64Encode := Base64.encode, base64Decode := Base64.decode }

/-- With base64 and the hash as they are. -/
@[reducible] def Primitives.digest : Primitives :=
  { Primitives.base64 with hmacSha256 := Sha256.hmac, sha256 := Sha256.hash }

namespace Client

section Login

variable [Primitives]

/-- True when the host is told, on this line, that the login failed. -/
def TellsFailure (p : Client × Message) : Prop :=
  ∃ reason, Event.saslFailed reason ∈ (p.1.handleMessage p.2).events.drop p.1.events.length

/-- The exchange of these credentials, once the server's challenge is answered. -/
def Answered (username password nonce : Str) (scram : Scram) : Prop :=
  ∃ challenge response, (Scram.new username password nonce).clientFinal challenge =
    .ok (scram, response)

/-- True when the server's closing message is checked on this line, and proves that the server knows
the password. -/
def Verified (username password nonce : Str) (p : Client × Message) : Prop :=
  p.2.is "AUTHENTICATE" = true ∧ p.1.sasl = .scramProved ∧
    ∃ scram challenge, p.1.scram = some scram ∧ Answered username password nonce scram ∧
      Sasl.decodeChallenge ((p.2.param 0).getD "+") = some challenge ∧
      scram.verify challenge = .ok ()

/-- What one line does to the exchange. -/
inductive LoginStep (c : Client) (message : Message) (d : Client) : Prop
  | same (hsasl : d.sasl = c.sasl) (hscram : d.scram = c.scram)
  | offered (h : c.sasl = .idle) (hsasl : d.sasl = .offered) (hscram : d.scram = c.scram)
  | failed (hsasl : d.sasl = .settled) (events : List Event)
      (hevents : d.events = c.events ++ events)
      (reason : SaslFailure) (hreason : Event.saslFailed reason ∈ events)
  | accepted (h : message.is "903" = true) (hsasl : d.sasl = .settled)
  | challenged (h : c.sasl = .offered) (hsasl : d.sasl = .scramChallenged)
      (username password nonce : Str)
      (hconfig : c.config.sasl = some (.scram username password nonce))
      (hscram : d.scram = some (Scram.new username password nonce))
  | responded (h : c.sasl = .offered) (hsasl : d.sasl = .responded)
      (hconfig : ∀ username password nonce, c.config.sasl ≠ some (.scram username password nonce))
  | proved (h : c.sasl = .scramChallenged) (hsasl : d.sasl = .scramProved)
      (scram scram' : Scram) (challenge response : Bytes) (hscram : c.scram = some scram)
      (hfinal : scram.clientFinal challenge = .ok (scram', response))
      (hscram' : d.scram = some scram')
  | verified (h : c.sasl = .scramProved) (hsasl : d.sasl = .responded)
      (his : message.is "AUTHENTICATE" = true) (scram : Scram) (challenge : Bytes)
      (hscram : c.scram = some scram)
      (hchallenge : Sasl.decodeChallenge ((message.param 0).getD "+") = some challenge)
      (hverify : scram.verify challenge = .ok ())

/-- A look whether negotiation is over, behind a step that left the exchange alone. -/
theorem loginStep_of_finished {c c' d : Client} (message : Message) (h : Finished c' d)
    (hsasl : c'.sasl = c.sasl) (hscram : c'.scram = c.scram)
    (hevents : ∃ events, c'.events = c.events ++ events) : LoginStep c message d := by
  obtain ⟨events, hevents⟩ := hevents
  cases h with
  | waiting h => exact .same hsasl hscram
  | opened h mechanism => exact .offered (hsasl.symm.trans h) rfl hscram
  | released hphase hcaps h => exact .same hsasl hscram
  | failed hphase hcaps h =>
      refine .failed rfl (events ++ [.saslFailed .noSharedMechanism]) ?_ .noSharedMechanism ?_
      · show c'.events ++ _ = _
        rw [hevents, List.append_assoc]
      · simp

omit [Primitives] in
/-- An exchange that is ended is settled; nothing opens another. -/
theorem finishSasl_settled (c : Client) (failure : Option SaslFailure) :
    (c.finishSasl failure).sasl = .settled ∧
      (c.sasl ≠ .settled →
        (c.finishSasl failure).events = c.events ++ (failure.map Event.saslFailed).toList) := by
  unfold finishSasl
  by_cases h : c.sasl = .settled
  · rw [if_pos h]
    exact ⟨h, fun h' => absurd h h'⟩
  · rw [if_neg h, emits_eq]
    have hfinished := finishNegotiationIfSettled_finished
      { c with sasl := .settled, events := c.events ++ (failure.map Event.saslFailed).toList }
    dsimp only
    generalize finishNegotiationIfSettled _ = d at hfinished
    cases hfinished with
    | waiting h => exact ⟨rfl, fun _ => rfl⟩
    | opened h mechanism => cases h
    | released hphase hcaps h => exact ⟨rfl, fun _ => rfl⟩
    | failed hphase hcaps h => cases h

omit [Primitives] in
theorem finishSasl_scram (c : Client) (failure : Option SaslFailure) (h : c.sasl = .settled) :
    c.finishSasl failure = c := if_pos h

/-- Ending the exchange with a failure. -/
theorem finishSasl_failed (c : Client) (message : Message) (failure : SaslFailure) :
    LoginStep c message (c.finishSasl (some failure)) := by
  obtain ⟨hsasl, hevents⟩ := c.finishSasl_settled (some failure)
  by_cases h : c.sasl = .settled
  · rw [c.finishSasl_scram _ h]
    exact .same rfl rfl
  · exact .failed hsasl _ (hevents h) failure (by simp)

theorem requestWanted_login (c : Client) (message : Message) {d : Client} (hsasl : d.sasl = c.sasl)
    (hscram : d.scram = c.scram) (hevents : d.events = c.events) :
    LoginStep c message d.requestWanted := by
  unfold requestWanted
  dsimp only
  split
  · exact loginStep_of_finished message d.finishNegotiationIfSettled_finished hsasl hscram
      ⟨[], by rw [hevents, List.append_nil]⟩
  · rw [sendLines_eq]
    exact .same hsasl hscram

theorem handleCap_login (c : Client) (message : Message) :
    LoginStep c message (c.handleCap message) := by
  unfold handleCap
  split
  · exact .same rfl rfl
  · unfold applyCap
    split
    · dsimp only
      split
      · exact .same rfl rfl
      · exact requestWanted_login c message rfl rfl rfl
    split
    · exact requestWanted_login c message rfl rfl rfl
    split
    · exact .same rfl rfl
    split
    · dsimp only
      split
      · exact loginStep_of_finished message (finishNegotiationIfSettled_finished _) rfl rfl
          ⟨[], (List.append_nil _).symm⟩
      · exact loginStep_of_finished message (finishNegotiationIfSettled_finished _) rfl rfl
          ⟨[_], rfl⟩
    split
    · exact loginStep_of_finished message (finishNegotiationIfSettled_finished _) rfl rfl
        ⟨[], (List.append_nil _).symm⟩
    · exact .same rfl rfl

theorem handleAuthenticate_login (c : Client) {message : Message}
    (his : message.is "AUTHENTICATE" = true) :
    LoginStep c message (c.handleAuthenticate message) := by
  unfold handleAuthenticate
  cases hchallenge : Sasl.decodeChallenge ((message.param 0).getD "+") with
  | none => exact c.finishSasl_failed message .aborted
  | some challenge =>
      cases hsasl : c.sasl with
      | offered =>
          show LoginStep c message c.beginSaslResponse
          unfold beginSaslResponse sendSasl
          cases hconfig : c.config.sasl with
          | none => exact .same rfl rfl
          | some credentials =>
              cases credentials with
              | scram username password nonce =>
                  dsimp only
                  rw [sendLines_eq]
                  exact .challenged hsasl rfl username password nonce hconfig rfl
              | plain username password =>
                  dsimp only
                  rw [sendLines_eq]
                  exact .responded hsasl rfl (by simp [hconfig])
              | external =>
                  dsimp only
                  rw [sendLines_eq]
                  exact .responded hsasl rfl (by simp [hconfig])
      | scramChallenged =>
          show LoginStep c message (c.answerScramChallenge challenge)
          unfold answerScramChallenge sendSasl
          cases hscram : c.scram with
          | none => exact c.finishSasl_failed message .aborted
          | some scram =>
              dsimp only
              cases hfinal : scram.clientFinal challenge with
              | ok result =>
                  dsimp only
                  rw [sendLines_eq]
                  exact .proved hsasl rfl scram result.1 challenge result.2 hscram hfinal rfl
              | error e => exact c.finishSasl_failed message .rejected
      | scramProved =>
          show LoginStep c message (c.verifyScramServer challenge)
          unfold verifyScramServer
          cases hscram : c.scram with
          | none => exact c.finishSasl_failed message .aborted
          | some scram =>
              dsimp only
              cases hverify : scram.verify challenge with
              | ok result => exact .verified hsasl rfl his scram challenge hscram hchallenge hverify
              | error e =>
                  obtain ⟨hsettled, hevents⟩ :=
                    finishSasl_settled { c with scram := none } (some .serverNotVerified)
                  have hopen : { c with scram := none }.sasl ≠ .settled := by
                    show c.sasl ≠ _
                    rw [hsasl]
                    decide
                  exact .failed hsettled _ (hevents hopen) .serverNotVerified (by simp)
      | idle => exact .same rfl rfl
      | responded => exact .same rfl rfl
      | settled => exact .same rfl rfl

/-- **What one line does to the exchange.** -/
theorem handleMessage_login (c : Client) (message : Message) :
    LoginStep c message (c.handleMessage message) := by
  rw [handleMessage_eq]
  suffices h : LoginStep (c.noted message) message ((c.noted message).dispatch message) by
    cases h with
    | same hsasl hscram => exact .same hsasl hscram
    | offered h hsasl hscram => exact .offered h hsasl hscram
    | failed hsasl events hevents reason hreason =>
        exact .failed hsasl events hevents reason hreason
    | accepted h hsasl => exact .accepted h hsasl
    | challenged h hsasl u p n hconfig hscram => exact .challenged h hsasl u p n hconfig hscram
    | responded h hsasl hconfig => exact .responded h hsasl hconfig
    | proved h hsasl s s' ch r hscram hfinal hscram' =>
        exact .proved h hsasl s s' ch r hscram hfinal hscram'
    | verified h hsasl his s ch hscram hch hverify =>
        exact .verified h hsasl his s ch hscram hch hverify
  generalize c.noted message = d
  have hhandled := d.dispatch_handled message
  generalize d.dispatch message = e at hhandled ⊢
  cases hhandled with
  | cap h => exact d.handleCap_login message
  | welcome h =>
      unfold handleWelcome resume
      dsimp only
      rw [sendLines_eq]
      exact .same rfl rfl
  | authenticate h => exact d.handleAuthenticate_login h
  | refused h => exact d.finishSasl_failed message _
  | accepted h => exact .accepted h (d.finishSasl_settled none).1
  | apart h => exact .same (congrArg Standing.sasl h.standing) (congrArg Standing.scram h.standing)

/-! ### The configuration -/

omit [Primitives] in
theorem Negotiates.config {c d : Client} (h : Negotiates c d) : d.config = c.config := by
  obtain ⟨_, _, _, _, _, _, rfl, -⟩ := h
  rfl

theorem handleMessage_config (c : Client) (message : Message) :
    (c.handleMessage message).config = c.config := by
  rw [handleMessage_eq, show c.config = (c.noted message).config from rfl]
  generalize c.noted message = d
  have hhandled := d.dispatch_handled message
  generalize d.dispatch message = e at hhandled ⊢
  cases hhandled with
  | cap h => exact (d.handleCap_negotiates message).config
  | welcome h =>
      unfold handleWelcome resume
      dsimp only
      rw [sendLines_eq]
      rfl
  | authenticate h => exact (d.handleAuthenticate_negotiates message).config
  | refused h => exact (d.finishSasl_negotiates _).config
  | accepted h => exact (d.finishSasl_negotiates none).config
  | apart h => exact congrArg Standing.config h.standing

/-- What a host does but for feeding bytes and losing the connection has no part in logging in. -/
theorem step_login (c : Client) {input : Input} (hbytes : ∀ data, input ≠ .bytes data)
    (hdown : input ≠ .disconnected) :
    (c.step input).config = c.config ∧ (c.step input).sasl = c.sasl ∧
      (c.step input).scram = c.scram := by
  obtain ⟨phase, hstanding⟩ := c.step_standing hbytes hdown
  exact ⟨congrArg Standing.config hstanding, congrArg Standing.sasl hstanding,
    congrArg Standing.scram hstanding⟩

omit [Primitives] in
theorem handleDisconnected_login (c : Client) :
    c.handleDisconnected.config = c.config ∧ c.handleDisconnected.sasl = .idle := by
  unfold handleDisconnected scheduleReconnect
  split
  · exact ⟨rfl, rfl⟩
  · exact ⟨rfl, rfl⟩

theorem run_config (c : Client) (inputs : List Input) : (c.run inputs).config = c.config := by
  refine run_induction (P := fun d => d.config = c.config) (fun _ _ _ _ h => h) c inputs ?_ ?_ rfl
  · intro input _ hbytes d hd
    by_cases hdown : input = .disconnected
    · rw [hdown]
      exact d.handleDisconnected_login.1.trans hd
    · exact (d.step_login hbytes hdown).1.trans hd
  · intro p _ hp
    exact (p.1.handleMessage_config p.2).trans hp

/-! ### A whole exchange -/

/-- How far an exchange of these credentials has got, given the lines of its connection. -/
structure Exchange (username password nonce : Str) (seen : List (Client × Message)) (c : Client) :
    Prop where
  config : c.config.sasl = some (.scram username password nonce)
  challenged : c.sasl = .scramChallenged → c.scram = some (Scram.new username password nonce)
  proved : c.sasl = .scramProved → ∃ scram, c.scram = some scram ∧
    Answered username password nonce scram
  responded : c.sasl = .responded → ∃ p ∈ seen, Verified username password nonce p
  settled : c.sasl = .settled → (∃ p ∈ seen, TellsFailure p) ∨
    ∃ p ∈ seen, Verified username password nonce p

/-- One line. -/
theorem exchange_handleMessage {username password nonce : Str} {seen : List (Client × Message)}
    {c : Client} (h : Exchange username password nonce seen c) (message : Message)
    (h903 : message.is "903" = true → c.sasl = .responded ∨ c.sasl = .settled) :
    Exchange username password nonce (seen ++ [(c, message)]) (c.handleMessage message) := by
  have hmono : ∀ {P : Client × Message → Prop}, (∃ p ∈ seen, P p) →
      ∃ p ∈ seen ++ [(c, message)], P p := by
    rintro P ⟨p, hp, hP⟩
    exact ⟨p, List.mem_append_left _ hp, hP⟩
  have hconfig := (congrArg Config.sasl (c.handleMessage_config message)).trans h.config
  cases c.handleMessage_login message with
  | same hsasl hscram =>
      refine ⟨hconfig, ?_, ?_, ?_, ?_⟩
      · rw [hsasl, hscram]
        exact h.challenged
      · rw [hsasl, hscram]
        exact h.proved
      · rw [hsasl]
        exact fun hr => hmono (h.responded hr)
      · rw [hsasl]
        exact fun hs => (h.settled hs).imp hmono hmono
  | offered hidle hsasl hscram =>
      exact ⟨hconfig, by simp [hsasl], by simp [hsasl], by simp [hsasl], by simp [hsasl]⟩
  | failed hsasl events hevents reason hreason =>
      refine ⟨hconfig, by simp [hsasl], by simp [hsasl], by simp [hsasl], fun _ => .inl ?_⟩
      refine ⟨(c, message), by simp, reason, ?_⟩
      rw [hevents, List.drop_left]
      exact hreason
  | accepted his hsasl =>
      refine ⟨hconfig, by simp [hsasl], by simp [hsasl], by simp [hsasl], fun _ => ?_⟩
      rcases h903 his with hr | hs
      · exact .inr (hmono (h.responded hr))
      · exact (h.settled hs).imp hmono hmono
  | challenged ho hsasl u p n hcredentials hscram =>
      refine ⟨hconfig, fun _ => ?_, by simp [hsasl], by simp [hsasl], by simp [hsasl]⟩
      have heq := h.config.symm.trans hcredentials
      obtain ⟨rfl, rfl, rfl⟩ : username = u ∧ password = p ∧ nonce = n := by
        simpa using heq
      exact hscram
  | responded ho hsasl hcredentials => exact absurd h.config (hcredentials _ _ _)
  | proved hc hsasl scram scram' challenge response hscram hfinal hscram' =>
      refine ⟨hconfig, by simp [hsasl], fun _ => ⟨scram', hscram', challenge, response, ?_⟩,
        by simp [hsasl], by simp [hsasl]⟩
      obtain rfl := Option.some.inj ((h.challenged hc).symm.trans hscram)
      exact hfinal
  | verified hp hsasl his scram challenge hscram hchallenge hverify =>
      refine ⟨hconfig, by simp [hsasl], by simp [hsasl], fun _ => ?_, by simp [hsasl]⟩
      obtain ⟨scram', hscram', hanswered⟩ := h.proved hp
      obtain rfl := Option.some.inj (hscram.symm.trans hscram')
      exact ⟨(c, message), by simp, his, hp, scram, challenge, hscram, hanswered, hchallenge,
        hverify⟩

/-- **No SCRAM exchange is settled without a failure or a proof**, where `903` is only ever heard
once the server's proof is checked. -/
theorem settled_verified (config : Config) {username password nonce : Str}
    (hconfig : config.sasl = some (.scram username password nonce)) (before after : List Input)
    (hbefore : before = [] ∨ before.getLast? = some .disconnected)
    (hafter : ∀ input ∈ after, input ≠ .disconnected)
    (h903 : ∀ p ∈ ((new config).run before).trace after, p.2.is "903" = true →
      p.1.sasl = .responded ∨ p.1.sasl = .settled)
    (hsettled : (((new config).run before).run after).sasl = .settled) :
    (∃ p ∈ ((new config).run before).trace after, TellsFailure p) ∨
      ∃ p ∈ ((new config).run before).trace after, Verified username password nonce p := by
  have hidle : ((new config).run before).sasl = .idle := by
    rcases hbefore with rfl | hlast
    · rfl
    · obtain ⟨earlier, rfl⟩ := List.getLast?_eq_some_iff.mp hlast
      rw [run_append]
      exact (handleDisconnected_login _).2
  have hstart : Exchange username password nonce [] ((new config).run before) :=
    ⟨(congrArg Config.sasl (run_config _ _)).trans hconfig, by simp [hidle], by simp [hidle],
      by simp [hidle], by simp [hidle]⟩
  have hrun := run_history
    (Q := fun seen d => (∀ p ∈ seen, p.2.is "903" = true →
      p.1.sasl = .responded ∨ p.1.sasl = .settled) → Exchange username password nonce seen d)
    (fun seen d _ _ _ hd hseen => by
      obtain ⟨h₁, h₂, h₃, h₄, h₅⟩ := hd hseen
      exact ⟨h₁, h₂, h₃, h₄, h₅⟩)
    (fun seen d message hd hseen =>
      exchange_handleMessage (hd fun p hp => hseen p (List.mem_append_left _ hp)) message
        (hseen (d, message) (by simp)))
    [] after
    (fun input hinput hbytes seen d hd hseen => by
      obtain ⟨hconfig', hsasl, hscram⟩ := d.step_login hbytes (hafter input hinput)
      obtain ⟨h₁, h₂, h₃, h₄, h₅⟩ := hd hseen
      rw [← hconfig'] at h₁
      rw [← hsasl, ← hscram] at h₂ h₃
      rw [← hsasl] at h₄ h₅
      exact ⟨h₁, h₂, h₃, h₄, h₅⟩)
    (fun _ => hstart)
  exact (hrun h903).settled hsettled

/-- What a line meets, and what the host is told on it. -/
def met (p : Client × Message) : Bool × SaslState × List Event :=
  (p.2.is "903", p.1.sasl, (p.1.handleMessage p.2).events.drop p.1.events.length)

omit [Primitives] in
/-- A server that knows the password, and says so once it has proved it. -/
theorem settled_verified_proved : letI := Primitives.digest
    let config := { Config.new "me" with sasl := some (.scram "me" "pw" "n") }
    let inputs := [Input.connected,
      .bytes (Utf8.encode "CAP * LS :sasl\nCAP * ACK :sasl\nAUTHENTICATE +\n"),
      .bytes (Utf8.encode "AUTHENTICATE cj1uWCxzPWMyRnNkQT09LGk9MQ==\n"),
      .bytes (Utf8.encode
        "AUTHENTICATE dj1pNk1WNzZaZ01kT2pYRGhNempwYWtWbUM1VTk3UkxwTTlzTWMrdUZUaTZNPQ==\n"),
      .bytes (Utf8.encode "903 me :ok\n")]
    (∃ p ∈ (new config).trace inputs, p.2.is "903" = true ∧ p.1.sasl = .responded) ∧
      ∃ p ∈ (new config).trace inputs, Verified "me" "pw" "n" p := by
  let _ := Primitives.digest
  intro config inputs
  have hrun : ((new config).run inputs).sasl = .settled ∧ ((new config).trace inputs).map met =
      [(false, .idle, []), (false, .idle, [.capabilitiesAcknowledged ["sasl"]]),
        (false, .offered, []), (false, .scramChallenged, []), (false, .scramProved, []),
        (true, .responded, [])] := by
    decide +kernel
  obtain ⟨hsettled, hmets⟩ := hrun
  have hmem : ∀ p ∈ (new config).trace inputs, met p ∈ _ := fun p hp =>
    hmets ▸ List.mem_map_of_mem hp
  simp only [List.mem_cons, List.not_mem_nil, or_false, met, Prod.mk.injEq] at hmem
  have h903 : ∀ p ∈ (new config).trace inputs, p.2.is "903" = true →
      p.1.sasl = .responded ∨ p.1.sasl = .settled := by
    intro p hp his
    have hat := hmem p hp
    rw [his] at hat
    simp only [Bool.true_eq_false, false_and, false_or, true_and] at hat
    exact .inl hat.1
  have hproof := settled_verified config rfl [] inputs (.inl rfl) (by simp [inputs]) h903 hsettled
  refine ⟨?_, hproof.resolve_left ?_⟩
  · have hlast : (true, SaslState.responded, []) ∈ ((new config).trace inputs).map met := by
      rw [hmets]
      simp
    obtain ⟨p, hp, heq⟩ := List.mem_map.mp hlast
    exact ⟨p, hp, congrArg Prod.fst heq, congrArg (fun q => q.2.1) heq⟩
  · rintro ⟨p, hp, reason, hreason⟩
    rcases hmem p hp with ⟨-, -, h⟩ | ⟨-, -, h⟩ | ⟨-, -, h⟩ | ⟨-, -, h⟩ | ⟨-, -, h⟩ | ⟨-, -, h⟩ <;>
      simp [h] at hreason

omit [Primitives] in
/-- **A bare `903` settles a SCRAM exchange** that has not begun. -/
theorem settled_unverified : letI := Primitives.ascii
    let config := { Config.new "me" with sasl := some (.scram "me" "pw" "n") }
    let inputs := [Input.connected,
      .bytes (Utf8.encode "CAP * LS :sasl\nCAP * ACK :sasl\n903 me :ok\n")]
    ((new config).run inputs).sasl = .settled ∧ ∀ p ∈ (new config).trace inputs,
      ¬ TellsFailure p ∧ ¬ Verified "me" "pw" "n" p := by
  let _ := Primitives.ascii
  intro config inputs
  have hrun : ((new config).run inputs).sasl = .settled ∧ ((new config).trace inputs).map
      (fun p => (p.1.sasl, (p.1.handleMessage p.2).events.drop p.1.events.length)) =
        [(.idle, []), (.idle, [.capabilitiesAcknowledged ["sasl"]]), (.offered, [])] := by
    decide +kernel
  obtain ⟨hsettled, htold⟩ := hrun
  refine ⟨hsettled, fun p hp => ?_⟩
  have hmem := List.mem_map_of_mem hp
    (f := fun p => (p.1.sasl, (p.1.handleMessage p.2).events.drop p.1.events.length))
  rw [htold] at hmem
  simp only [List.mem_cons, List.not_mem_nil, or_false, Prod.mk.injEq] at hmem
  constructor
  · rintro ⟨reason, hreason⟩
    rcases hmem with ⟨-, htells⟩ | ⟨-, htells⟩ | ⟨-, htells⟩ <;> simp [htells] at hreason
  · rintro ⟨-, hproved, -⟩
    rcases hmem with ⟨hsasl, -⟩ | ⟨hsasl, -⟩ | ⟨hsasl, -⟩ <;> cases hsasl.symm.trans hproved

end Login

end Client

end ObbyClient

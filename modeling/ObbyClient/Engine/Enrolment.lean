import ObbyClient.Engine.Filing
import ObbyClient.Engine.Nicks
import ObbyClient.Lib.Maps

/-!
# Registering again

What a connection sends before it is registered depends on little of the client, and most of that is
put back when the connection dies.

* `Client.Enrolment` — what registration depends on;
* `Client.Matched` — two enrolments that send the same: `Client.matched_dispatch`;
* `Client.AsNew` — what a dead connection must have left behind;
* `Client.enrols_iff` — when the next connection registers as the first one would.
-/

namespace ObbyClient

namespace Casemapping

/-- What folds alike under the coarsest alphabet folds alike under every one. -/
theorem foldChar_ascii (mapping : Casemapping) (c : Char) :
    mapping.foldChar (ascii.foldChar c) = mapping.foldChar c := by
  by_cases hupper : 'A' ≤ c ∧ c ≤ 'Z'
  · have hlower : ∀ n < 26, (ascii.foldChar (Char.ofNat (65 + n))).toNat = 97 + n ∧
        ∀ m ∈ [ascii, rfc1459, rfc1459Strict],
          foldChar m (ascii.foldChar (Char.ofNat (65 + n))) = foldChar m (Char.ofNat (65 + n)) := by
      decide
    have hbounds : 65 ≤ c.toNat ∧ c.toNat ≤ 90 := hupper
    have hc : c = Char.ofNat (65 + (c.toNat - 65)) := by
      rw [Nat.add_sub_cancel' hbounds.1, Char.ofNat_toNat]
    rw [hc]
    refine (hlower _ (by omega)).2 mapping ?_
    cases mapping with
    | ascii => decide
    | rfc1459 => decide
    | rfc1459Strict => decide
  · have hsame : ascii.foldChar c = c := by
      unfold foldChar
      rw [if_neg hupper, if_neg (by simp), if_neg (by simp)]
    rw [hsame]

theorem eq_of_ascii {a b : Str} (h : ascii.fold a = ascii.fold b) (mapping : Casemapping)
    (name : Str) : mapping.eq a name = mapping.eq b name := by
  have hfold : ∀ s : Str, mapping.fold (ascii.fold s).asStr = mapping.fold s := by
    intro s
    show CaseFolded.mk ((s.map ascii.foldChar).map mapping.foldChar) = ⟨s.map mapping.foldChar⟩
    rw [List.map_map]
    refine congrArg CaseFolded.mk (List.map_congr_left ?_)
    intro c _
    exact foldChar_ascii mapping c
  have hsame : mapping.fold a = mapping.fold b := by
    rw [← hfold a, h, hfold b]
  rw [Bool.eq_iff_iff, eq_iff_fold, eq_iff_fold, hsame]

end Casemapping

namespace Isupport

/-- The value that more is appended to. -/
def rawValue (i : Isupport) (name : Str) : Str := (i.tokens[name]?.bind id).getD []

/-- Two servers that fold names alike, and take the same question about who is in a channel. -/
structure Agrees (i j : Isupport) : Prop where
  casemapping : i.casemapping = j.casemapping
  value : i.rawValue "CASEMAPPING" = j.rawValue "CASEMAPPING"
  whox : i.has "WHOX" = j.has "WHOX"

theorem recompute_tokens (i : Isupport) (name : Str) (value : Option Str) :
    (i.recompute name value).tokens = i.tokens := by
  unfold recompute
  repeat' split
  all_goals rfl

theorem recompute_casemapping (i : Isupport) (name : Str) (value : Option Str) :
    (i.recompute name value).casemapping =
      if name = "CASEMAPPING" then (value.map Casemapping.parse).getD .default
      else i.casemapping := by
  unfold recompute
  by_cases h : name = "CASEMAPPING"
  · rw [if_pos h, if_pos h]
  · rw [if_neg h, if_neg h]
    repeat' split
    all_goals rfl

theorem Agrees.recompute {i j : Isupport} (h : Agrees i j) (name : Str)
    {tokens others : Std.ExtTreeMap Str (Option Str)} {value value' : Option Str}
    (hsame : name = "CASEMAPPING" → value = value')
    (hvalue : (tokens["CASEMAPPING".toList]?.bind id).getD [] =
      (others["CASEMAPPING".toList]?.bind id).getD [])
    (hwhox : (tokens["WHOX".toList]?).isSome = (others["WHOX".toList]?).isSome) :
    Agrees ({ i with tokens := tokens }.recompute name value)
      ({ j with tokens := others }.recompute name value') := by
  refine ⟨?_, ?_, ?_⟩
  · rw [recompute_casemapping, recompute_casemapping]
    by_cases hname : name = "CASEMAPPING"
    · rw [if_pos hname, if_pos hname, hsame hname]
    · rw [if_neg hname, if_neg hname]
      exact h.casemapping
  · unfold rawValue
    rw [recompute_tokens, recompute_tokens]
    exact hvalue
  · unfold has
    rw [recompute_tokens, recompute_tokens, Std.ExtTreeMap.contains_eq_isSome_getElem?,
      Std.ExtTreeMap.contains_eq_isSome_getElem?]
    exact hwhox

/-- A token that is set. -/
theorem Agrees.set {i j : Isupport} (h : Agrees i j) (name : Str) {value value' : Option Str}
    (hsame : name = "CASEMAPPING" → value = value') :
    Agrees ({ i with tokens := i.tokens.insert name value }.recompute name value)
      ({ j with tokens := j.tokens.insert name value' }.recompute name value') := by
  have hwhox := h.whox
  unfold has at hwhox
  rw [Std.ExtTreeMap.contains_eq_isSome_getElem?,
    Std.ExtTreeMap.contains_eq_isSome_getElem?] at hwhox
  refine h.recompute name hsame ?_ ?_
  · rw [Maps.getElem?_insert_ite, Maps.getElem?_insert_ite]
    by_cases hname : "CASEMAPPING" = name
    · rw [if_pos hname, if_pos hname, hsame hname.symm]
    · rw [if_neg hname, if_neg hname]
      exact h.value
  · rw [Maps.getElem?_insert_ite, Maps.getElem?_insert_ite]
    split
    · rfl
    · exact hwhox

/-- A token that is taken back. -/
theorem Agrees.unset {i j : Isupport} (h : Agrees i j) (name : Str) :
    Agrees ({ i with tokens := i.tokens.erase name }.recompute name none)
      ({ j with tokens := j.tokens.erase name }.recompute name none) := by
  have hwhox := h.whox
  unfold has at hwhox
  rw [Std.ExtTreeMap.contains_eq_isSome_getElem?,
    Std.ExtTreeMap.contains_eq_isSome_getElem?] at hwhox
  refine h.recompute name (fun _ => rfl) ?_ ?_
  · rw [Maps.getElem?_erase_ite, Maps.getElem?_erase_ite]
    split
    · rfl
    · exact h.value
  · rw [Maps.getElem?_erase_ite, Maps.getElem?_erase_ite]
    split
    · rfl
    · exact hwhox

theorem nameAndValue_fst (i : Isupport) (name raw : Str) :
    (i.nameAndValue name raw).1 = if name.getLast? = some '+' then name.dropLast else name := by
  unfold nameAndValue
  split
  · rfl
  · rfl

/-- A token of its own has the same value on both. -/
theorem Agrees.nameAndValue {i j : Isupport} (h : Agrees i j) (name raw : Str)
    (hname : (i.nameAndValue name raw).1 = "CASEMAPPING") :
    (i.nameAndValue name raw).2 = (j.nameAndValue name raw).2 := by
  rw [nameAndValue_fst] at hname
  unfold Isupport.nameAndValue
  by_cases hplus : name.getLast? = some '+'
  · rw [if_pos hplus] at hname ⊢
    rw [if_pos hplus, hname]
    exact congrArg (· ++ unescape raw) h.value
  · rw [if_neg hplus, if_neg hplus]

/-- **One token** keeps them so. -/
theorem Agrees.apply {i j : Isupport} (h : Agrees i j) (token : Str) :
    Agrees (i.apply token).1 (j.apply token).1 := by
  unfold Isupport.apply
  split
  · exact h.unset _
  · split
    · exact h.set token fun _ => rfl
    · rename_i name raw _
      have hfst : (i.nameAndValue name raw).1 = (j.nameAndValue name raw).1 := by
        rw [nameAndValue_fst, nameAndValue_fst]
      dsimp only
      rw [← hfst]
      exact h.set _ fun hname => congrArg some (h.nameAndValue name raw hname)

end Isupport

namespace Client

open Session

/-! ### What registration depends on -/

/-- What registration depends on. -/
structure Enrolment where
  config : Config
  phase : Phase
  caps : Capabilities
  sasl : SaslState
  scram : Option Scram
  nick : Str
  nickAttempt : ℕ
  batches : Batches
  isupport : Isupport
  me : Str
  outbox : List Bytes

/-- What the registration of this connection depends on. -/
def enrolment (c : Client) : Enrolment :=
  ⟨c.config, c.phase, c.caps, c.sasl, c.scram, c.nick, c.nickAttempt, c.batches, c.isupport,
    c.model.me.nick, c.outbox⟩

/-- The nick after so many refusals, with the fallbacks behind those that were tried. -/
def tried (altNicks : List Str) (attempt : ℕ) (nick : Str) : ℕ → Str
  | 0 => nick
  | k + 1 => (altNicks[attempt + k]?).getD (tried altNicks attempt nick k ++ ['_'])

/-- The nick that is tried when the one tried after so many refusals is refused. -/
def Enrolment.fallback (e : Enrolment) (k : ℕ) : Str :=
  tried e.config.altNicks e.nickAttempt e.nick (k + 1)

/-- Two enrolments that send the same, whatever the server says. -/
structure Matched (e f : Enrolment) : Prop where
  config : e.config = f.config
  phase : e.phase = f.phase
  early : e.phase ≠ .registered
  caps : e.caps = f.caps
  sasl : e.sasl = f.sasl
  scram : e.sasl = .scramChallenged ∨ e.sasl = .scramProved → e.scram = f.scram
  fallback : ∀ k, e.fallback k = f.fallback k
  batches : e.batches = f.batches
  isupport : e.isupport.Agrees f.isupport
  me : Casemapping.ascii.fold e.me = Casemapping.ascii.fold f.me
  outbox : e.outbox = f.outbox

section Matched

variable {c d : Client} (h : Matched c.enrolment d.enrolment)
include h

/-- Behind steps that registration does not depend on. -/
theorem Matched.silent {c' d' : Client} (hc : c'.enrolment = c.enrolment)
    (hd : d'.enrolment = d.enrolment) : Matched c'.enrolment d'.enrolment := by
  rw [hc, hd]
  exact h

theorem Matched.sendLine (message : Message) :
    Matched (c.sendLine message).enrolment (d.sendLine message).enrolment := by
  refine ⟨h.config, h.phase, h.early, h.caps, h.sasl, h.scram, h.fallback, h.batches, h.isupport,
    h.me, ?_⟩
  exact congrArg (· ++ [wireLine message]) h.outbox

theorem Matched.sendLines (messages : List Message) :
    Matched (c.sendLines messages).enrolment (d.sendLines messages).enrolment := by
  rw [sendLines_eq, sendLines_eq]
  refine ⟨h.config, h.phase, h.early, h.caps, h.sasl, h.scram, h.fallback, h.batches, h.isupport,
    h.me, ?_⟩
  exact congrArg (· ++ messages.map wireLine) h.outbox

theorem Matched.withCaps (caps : Capabilities) :
    Matched { c with caps := caps }.enrolment { d with caps := caps }.enrolment :=
  ⟨h.config, h.phase, h.early, rfl, h.sasl, h.scram, h.fallback, h.batches, h.isupport, h.me,
    h.outbox⟩

theorem Matched.withSasl (sasl : SaslState)
    (hsasl : sasl ≠ .scramChallenged ∧ sasl ≠ .scramProved) :
    Matched { c with sasl := sasl }.enrolment { d with sasl := sasl }.enrolment := by
  refine ⟨h.config, h.phase, h.early, h.caps, rfl, ?_, h.fallback, h.batches, h.isupport, h.me,
    h.outbox⟩
  intro hscram
  rcases hscram with hscram | hscram
  · exact absurd hscram hsasl.1
  · exact absurd hscram hsasl.2

theorem Matched.withScram (sasl : SaslState) (scram : Option Scram) :
    Matched { c with sasl := sasl, scram := scram }.enrolment
      { d with sasl := sasl, scram := scram }.enrolment :=
  ⟨h.config, h.phase, h.early, h.caps, rfl, fun _ => rfl, h.fallback, h.batches, h.isupport, h.me,
    h.outbox⟩

theorem Matched.withPhase (phase : Phase) (hphase : phase ≠ .registered) :
    Matched { c with phase := phase }.enrolment { d with phase := phase }.enrolment :=
  ⟨h.config, rfl, hphase, h.caps, h.sasl, h.scram, h.fallback, h.batches, h.isupport, h.me,
    h.outbox⟩

theorem Matched.withBatches (batches : Batches) :
    Matched { c with batches := batches }.enrolment { d with batches := batches }.enrolment :=
  ⟨h.config, h.phase, h.early, h.caps, h.sasl, h.scram, h.fallback, rfl, h.isupport, h.me, h.outbox⟩

/-! ### Negotiation -/

theorem matched_startSasl :
    Matched c.startSaslIfWanted.1.enrolment d.startSaslIfWanted.1.enrolment ∧
      c.startSaslIfWanted.2 = d.startSaslIfWanted.2 := by
  have hsasl : d.sasl = c.sasl := h.sasl.symm
  have hhas : d.caps.has "sasl" = c.caps.has "sasl" := congrArg (·.has "sasl") h.caps.symm
  have hvalue : d.caps.value "sasl" = c.caps.value "sasl" := congrArg (·.value "sasl") h.caps.symm
  have hconfig : d.config.sasl = c.config.sasl := congrArg Config.sasl h.config.symm
  unfold startSaslIfWanted
  rw [hsasl, hhas, hvalue, hconfig]
  split
  · exact ⟨h, rfl⟩
  · split
    · exact ⟨h, rfl⟩
    · dsimp only
      split
      · exact ⟨(h.withSasl .offered (by decide)).sendLine _, rfl⟩
      · exact ⟨(h.withSasl .settled (by decide)).silent rfl rfl, rfl⟩

theorem matched_finishNegotiation :
    Matched c.finishNegotiationIfSettled.enrolment d.finishNegotiationIfSettled.enrolment := by
  have hphase : d.phase = c.phase := h.phase.symm
  have hsettled : d.caps.settled = c.caps.settled := congrArg Capabilities.settled h.caps.symm
  obtain ⟨hstart, hwaits⟩ := matched_startSasl h
  have hflight : d.startSaslIfWanted.1.sasl.inFlight = c.startSaslIfWanted.1.sasl.inFlight :=
    congrArg SaslState.inFlight hstart.sasl.symm
  unfold finishNegotiationIfSettled
  rw [hphase, hsettled]
  split
  · exact h
  · dsimp only
    rw [← hwaits, hflight]
    split
    · exact hstart
    · exact (hstart.withPhase .registering (by decide)).sendLine _

theorem matched_requestWanted : Matched c.requestWanted.enrolment d.requestWanted.enrolment := by
  have hcaps : d.caps = c.caps := h.caps.symm
  unfold requestWanted
  dsimp only
  rw [hcaps]
  split
  · exact matched_finishNegotiation h
  · exact (h.withCaps _).sendLines _

theorem matched_applyCap (subcommand list : Str) (moreToCome : Bool) :
    Matched (c.applyCap subcommand list moreToCome).enrolment
      (d.applyCap subcommand list moreToCome).enrolment := by
  have hcaps : d.caps = c.caps := h.caps.symm
  unfold applyCap
  rw [hcaps]
  split
  · dsimp only
    split
    · exact h.withCaps _
    · exact matched_requestWanted (h.withCaps _)
  split
  · exact matched_requestWanted (h.withCaps _)
  split
  · exact h.withCaps _
  split
  · dsimp only
    refine matched_finishNegotiation ?_
    split
    · exact h.withCaps _
    · exact (h.withCaps _).silent rfl rfl
  split
  · exact matched_finishNegotiation (h.withCaps _)
  · exact h

theorem matched_handleCap (message : Message) :
    Matched (c.handleCap message).enrolment (d.handleCap message).enrolment := by
  unfold handleCap
  split
  · exact h
  · exact matched_applyCap h _ _ _

/-! ### Logging in -/

theorem matched_finishSasl (failure : Option SaslFailure) :
    Matched (c.finishSasl failure).enrolment (d.finishSasl failure).enrolment := by
  have hsasl : d.sasl = c.sasl := h.sasl.symm
  unfold finishSasl
  rw [hsasl]
  split
  · exact h
  · rw [emits_eq, emits_eq]
    exact matched_finishNegotiation ((h.withSasl .settled (by decide)).silent rfl rfl)

theorem matched_handleAuthenticate [Primitives] (message : Message) :
    Matched (c.handleAuthenticate message).enrolment (d.handleAuthenticate message).enrolment := by
  have hsasl : d.sasl = c.sasl := h.sasl.symm
  have hconfig : d.config.sasl = c.config.sasl := congrArg Config.sasl h.config.symm
  unfold handleAuthenticate
  split
  · exact matched_finishSasl h _
  · rw [hsasl]
    split
    · unfold beginSaslResponse
      rw [hconfig]
      split
      · exact h
      · exact (h.withScram .scramChallenged _).sendLines _
      · exact (h.withSasl .responded (by decide)).sendLines _
    · rename_i hchallenged
      have hscram : d.scram = c.scram := (h.scram (.inl hchallenged)).symm
      unfold answerScramChallenge
      rw [hscram]
      split
      · exact matched_finishSasl h _
      · split
        · exact (h.withScram .scramProved _).sendLines _
        · exact matched_finishSasl h _
    · rename_i hproved
      have hscram : d.scram = c.scram := (h.scram (.inr hproved)).symm
      unfold verifyScramServer
      rw [hscram]
      split
      · exact matched_finishSasl h _
      · split
        · exact (h.withScram .responded none).sendLine _
        · have hlast := h.withScram c.sasl none
          rw [show ({ d with sasl := c.sasl, scram := none } : Client) = { d with scram := none } by
            rw [← hsasl]] at hlast
          exact matched_finishSasl hlast _
    · exact h

/-! ### Nicks -/

omit h in
/-- A nick that is refused leaves the fallbacks behind it. -/
theorem tried_succ (altNicks : List Str) (attempt : ℕ) (nick : Str) (k : ℕ) :
    tried altNicks (attempt + 1) ((altNicks[attempt]?).getD (nick ++ ['_'])) k =
      tried altNicks attempt nick (k + 1) := by
  induction k with
  | zero => rfl
  | succ k ih =>
      unfold tried
      rw [ih, Nat.add_assoc, Nat.add_comm 1 k]

theorem matched_handleNickRefused (message : Message) :
    Matched (c.handleNickRefused message).enrolment (d.handleNickRefused message).enrolment := by
  have hearly : c.phase ≠ .registered := h.early
  have hphase : c.phase = d.phase := h.phase
  have hearly' : d.phase ≠ .registered := hphase ▸ hearly
  have hfirst : (d.config.altNicks[d.nickAttempt]?).getD (d.nick ++ ['_']) =
      (c.config.altNicks[c.nickAttempt]?).getD (c.nick ++ ['_']) := (h.fallback 0).symm
  have hbehind : ∀ k,
      tried c.config.altNicks (c.nickAttempt + 1)
          ((c.config.altNicks[c.nickAttempt]?).getD (c.nick ++ ['_'])) (k + 1) =
        tried d.config.altNicks (d.nickAttempt + 1)
          ((c.config.altNicks[c.nickAttempt]?).getD (c.nick ++ ['_'])) (k + 1) := by
    intro k
    rw [tried_succ, ← hfirst, tried_succ]
    exact h.fallback (k + 1)
  unfold handleNickRefused
  rw [if_neg hearly, if_neg hearly']
  dsimp only
  rw [hfirst]
  generalize (c.config.altNicks[c.nickAttempt]?).getD (c.nick ++ ['_']) = trying at hbehind ⊢
  exact ⟨h.config, h.phase, h.early, h.caps, h.sasl, h.scram, hbehind, h.batches, h.isupport, rfl,
    congrArg (· ++ [wireLine (Message.new "NICK" [trying])]) h.outbox⟩

theorem matched_handleIsupport (message : Message) :
    Matched (c.handleIsupport message).enrolment (d.handleIsupport message).enrolment := by
  unfold handleIsupport
  generalize (message.params.drop 1).take (message.params.length - 2) = tokens
  induction tokens generalizing c d with
  | nil => exact h
  | cons token tokens ih =>
      refine ih ?_
      exact ⟨h.config, h.phase, h.early, h.caps, h.sasl, h.scram, h.fallback, h.batches,
        h.isupport.apply token, h.me, h.outbox⟩

omit h in
theorem typed_enrolment (c : Client) (timers : Timers) (target who : Str) (typing : Bool) :
    (c.typed timers target who typing).enrolment = c.enrolment := by
  have hme := Model.setTyping_me c.model (c.isupport.fold target) (c.isupport.fold who) typing
  obtain ⟨events, heq, -⟩ := c.typed_eq timers target who typing
  rw [heq]
  exact congrArg (fun me => { c.enrolment with me := me }) (congrArg LocalUser.nick hme)

omit h in
/-- What registration depends on is left alone by what is no message. -/
theorem handleTagmsg_enrolment [Primitives] {c d : Client} {message : Message}
    (h : c.handleTagmsg message = some d) : d.enrolment = c.enrolment := by
  unfold handleTagmsg at h
  split at h
  · cases h
  rw [Option.or_eq_some_iff] at h
  rcases h with h | ⟨-, h⟩
  · obtain ⟨timers, target, who, typing, rfl⟩ := handleTyping_eq h
    exact c.typed_enrolment timers target who typing
  rw [Option.or_eq_some_iff] at h
  rcases h with h | ⟨-, h⟩
  · rcases handleRtc_eq h with rfl | ⟨rooms, channel, signal, rfl⟩
    · rfl
    · rfl
  · rcases handleBotTags_eq h with rfl | rfl | ⟨bots, nick, rfl⟩
    · rfl
    · rfl
    · rfl

omit h in
theorem handleToken_enrolment {c d : Client} {message : Message}
    (h : c.handleToken message = some d) : d.enrolment = c.enrolment := by
  obtain ⟨service, endpoint, token, rfl⟩ := handleToken_eq h
  rfl

omit h in
theorem handleStandardReply_enrolment {c d : Client} {message : Message}
    (h : c.handleStandardReply message = some d) : d.enrolment = c.enrolment := by
  obtain ⟨severity, command, code, context, text, rfl⟩ := handleStandardReply_eq h
  rfl

omit h in
theorem handleMonitor_enrolment (c : Client) (message : Message) :
    (c.handleMonitor message).enrolment = c.enrolment := by
  obtain ⟨monitor, events, heq, -⟩ := c.handleMonitor_eq message
  rw [heq]
  rfl

end Matched

/-! ### Lines that are folded -/

section Fold

variable [Primitives]

/-- The channels that a line has us enter. -/
def entered (c : Client) (line : Message) : List Str :=
  if toAsciiUppercase line.command = "JOIN" ∧
      c.isupport.casemapping.eq c.model.me.nick (sender line) = true then (line.param 0).toList
  else []

/-- The nick that the model has us go by after a line. -/
def nickAfter (c : Client) (line : Message) : Str :=
  if toAsciiUppercase line.command = "NICK" ∧
      c.isupport.casemapping.eq c.model.me.nick (sender line) = true then
    (line.param 0).getD c.model.me.nick
  else c.model.me.nick

/-- **Only our own `JOIN` asks** who is in a channel. -/
theorem whoLines_apply (c : Client) (line : Message) (historical : Bool) :
    c.whoLines (apply (c.context historical) line).2 = (c.entered line).map c.whoLine := by
  have hnone : (∀ change ∈ (apply (c.context historical) line).2, ∀ name,
      change ≠ .channelJoined name) → c.whoLines (apply (c.context historical) line).2 = [] := by
    intro hchanges
    unfold whoLines
    rw [List.filterMap_eq_nil_iff]
    intro change hchange
    cases change with
    | channelJoined name => exact absurd rfl (hchanges _ hchange name)
    | _ => rfl
  unfold entered
  by_cases hjoin : toAsciiUppercase line.command = "JOIN"
  · rw [apply_of_handles _ hjoin .join]
    unfold join
    cases hname : line.param 0 with
    | none =>
        rw [Option.toList_none, ite_self]
        rfl
    | some name =>
        by_cases hus : c.isupport.casemapping.eq c.model.me.nick (sender line) = true
        · rw [if_pos ⟨hjoin, hus⟩]
          dsimp only
          rw [if_pos (show (c.context historical).isMe (sender line) = true from hus)]
          rfl
        · rw [if_neg (fun hboth => hus hboth.2)]
          dsimp only
          rw [if_neg (show ¬ (c.context historical).isMe (sender line) = true from hus)]
          cases (c.context historical).model.channel ((c.context historical).fold name) with
          | none => rfl
          | some channel => rfl
  · rw [if_neg (fun hboth => hjoin hboth.1)]
    refine hnone ?_
    intro change hchange name heq
    rw [heq] at hchange
    by_cases hmessage : isMessage (toAsciiUppercase line.command) = true
    · rcases change_of_isMessage hmessage hchange with ⟨_, _, h⟩ | ⟨_, _, h⟩
      · cases h
      · cases h
    · rw [Bool.not_eq_true] at hmessage
      exact absurd (apply_ordinary _ hmessage hjoin _ hchange) Bool.false_ne_true

/-- **Only our own `NICK` renames us.** -/
theorem apply_me_nick (c : Client) (line : Message) (historical : Bool) :
    (apply (c.context historical) line).1.model.me.nick = c.nickAfter line := by
  unfold nickAfter
  by_cases hnick : toAsciiUppercase line.command = "NICK"
  · rw [apply_nick (c.context historical) line hnick]
    by_cases hus : c.isupport.casemapping.eq c.model.me.nick (sender line) = true
    · rw [if_pos ⟨hnick, hus⟩]
      cases line.param 0 with
      | none => rfl
      | some dest =>
          show (if c.isupport.casemapping.eq c.model.me.nick (sender line) = true then _
            else _ : LocalUser).nick = dest
          rw [if_pos hus]
    · rw [if_neg (fun hboth => hus hboth.2)]
      cases line.param 0 with
      | none => rfl
      | some dest =>
          show (if c.isupport.casemapping.eq c.model.me.nick (sender line) = true then _
            else _ : LocalUser).nick = c.model.me.nick
          rw [if_neg hus]
          rfl
  · rw [if_neg (fun hboth => hnick hboth.1)]
    by_cases hrename : toAsciiUppercase line.command = "RENAME"
    · rcases apply_rename (c.context historical) line hrename with
        ⟨hsame, -⟩ | ⟨source, dest, model, -, -, hafter, hsame⟩
      · rw [hsame]
        rfl
      · rw [hsame]
        unfold Model.renameChannel at hafter
        obtain ⟨channel, -, hafter⟩ := Option.map_eq_some_iff.mp hafter
        rw [← hafter]
        rfl
    · exact (apply_edit (c.context historical) line hnick hrename).model.nick

theorem fold_enrolment (c : Client) (line : Message) (historical : Bool) :
    (c.fold line historical).enrolment =
      { c.enrolment with
        me := c.nickAfter line
        outbox := c.outbox ++ ((c.entered line).map c.whoLine).map wireLine } := by
  rw [← c.whoLines_apply line historical, ← c.apply_me_nick line historical, fold_eq]
  rfl

variable {c d : Client} (h : Matched c.enrolment d.enrolment)
include h

omit [Primitives] in
/-- Both take the same names for ours. -/
theorem Matched.isMe (nick : Str) :
    c.isupport.casemapping.eq c.model.me.nick nick =
      d.isupport.casemapping.eq d.model.me.nick nick := by
  have hcasemapping : c.isupport.casemapping = d.isupport.casemapping := h.isupport.casemapping
  rw [hcasemapping]
  exact Casemapping.eq_of_ascii h.me _ nick

omit [Primitives] in
theorem matched_entered (line : Message) : c.entered line = d.entered line := by
  unfold entered
  rw [h.isMe]

omit [Primitives] in
theorem matched_whoLine : c.whoLine = d.whoLine := by
  have hwhox : c.isupport.has "WHOX" = d.isupport.has "WHOX" := h.isupport.whox
  funext channel
  unfold whoLine
  rw [hwhox]

omit [Primitives] in
theorem matched_nickAfter (line : Message) :
    Casemapping.ascii.fold (c.nickAfter line) = Casemapping.ascii.fold (d.nickAfter line) := by
  unfold nickAfter
  rw [h.isMe]
  split
  · cases line.param 0 with
    | none => exact h.me
    | some dest => rfl
  · exact h.me

theorem matched_fold (line : Message) (historical historical' : Bool) :
    Matched (c.fold line historical).enrolment (d.fold line historical').enrolment := by
  have houtbox : c.outbox = d.outbox := h.outbox
  rw [fold_enrolment, fold_enrolment]
  refine ⟨h.config, h.phase, h.early, h.caps, h.sasl, h.scram, h.fallback, h.batches, h.isupport,
    matched_nickAfter h line, ?_⟩
  dsimp only
  rw [matched_entered h, matched_whoLine h, houtbox]

theorem matched_folds (lines : List Message) (historical historical' : Bool) :
    Matched (c.folds lines historical).enrolment (d.folds lines historical').enrolment := by
  unfold folds
  induction lines generalizing c d with
  | nil => exact h
  | cons line lines ih => exact ih (matched_fold h line historical historical')

theorem matched_handleBatch (message : Message) :
    Matched (c.handleBatch message).enrolment (d.handleBatch message).enrolment := by
  have hbatches : d.batches = c.batches := h.batches.symm
  have hclose : d.batches.close message = c.batches.close message :=
    congrArg (·.close message) hbatches
  unfold handleBatch
  split
  · rw [show d.batches.opened message = c.batches.opened message from
      congrArg (·.opened message) hbatches]
    exact h.withBatches _
  · rw [hclose]
    split
    · exact h
    · exact matched_folds (h.withBatches _) _ _ _

theorem matched_handleOther (message : Message) :
    Matched (c.handleOther message).enrolment (d.handleOther message).enrolment := by
  have hroute : d.batches.route message = c.batches.route message :=
    congrArg (·.route message) h.batches.symm
  unfold handleOther
  rw [hroute]
  split
  · exact h.withBatches _
  · exact matched_fold h message false false

/-! ### Every line but the welcome -/

theorem matched_dispatchLate (message : Message) :
    Matched (c.dispatchLate message).enrolment (d.dispatchLate message).enrolment := by
  unfold dispatchLate
  split
  · exact matched_handleAuthenticate h message
  split
  · exact matched_handleNickRefused h message
  split
  · exact matched_finishSasl h _
  split
  · rw [emits_eq, emits_eq]
    exact h.silent rfl rfl
  split
  · exact matched_finishSasl h _
  split
  · exact matched_handleBatch h message
  · exact matched_handleOther h message

theorem matched_dispatchMiddle (message : Message) :
    Matched (c.dispatchMiddle message).enrolment (d.dispatchMiddle message).enrolment := by
  have hclaimed : ((c.handleTagmsg message).or (c.handleToken message)).isSome =
      ((d.handleTagmsg message).or (d.handleToken message)).isSome := by
    simp only [Option.isSome_or, handleTagmsg_isSome, handleToken_isSome]
  have hreplied : (c.handleStandardReply message).isSome =
      (d.handleStandardReply message).isSome := by
    rw [handleStandardReply_isSome, handleStandardReply_isSome]
  have hsilent : ∀ {b e : Client}, (b.handleTagmsg message).or (b.handleToken message) = some e →
      e.enrolment = b.enrolment := by
    intro b e he
    rcases Option.or_eq_some_iff.mp he with he | ⟨-, he⟩
    · exact handleTagmsg_enrolment he
    · exact handleToken_enrolment he
  unfold dispatchMiddle
  cases hc : (c.handleTagmsg message).or (c.handleToken message) with
  | some c' =>
      obtain ⟨d', hd⟩ := Option.isSome_iff_exists.mp (by rw [← hclaimed, hc]; rfl)
      rw [hd]
      exact h.silent (hsilent hc) (hsilent hd)
  | none =>
  have hd : (d.handleTagmsg message).or (d.handleToken message) = none := by
    rw [← Option.not_isSome_iff_eq_none, ← hclaimed, hc]
    decide
  rw [hd]
  dsimp only
  split
  · exact h.silent rfl rfl
  split
  · exact h.silent (c.handleMonitor_enrolment message) (d.handleMonitor_enrolment message)
  cases hc : c.handleStandardReply message with
  | some c' =>
      obtain ⟨d', hd⟩ := Option.isSome_iff_exists.mp (by rw [← hreplied, hc]; rfl)
      rw [hd]
      exact h.silent (handleStandardReply_enrolment hc) (handleStandardReply_enrolment hd)
  | none =>
      have hd : d.handleStandardReply message = none := by
        rw [← Option.not_isSome_iff_eq_none, ← hreplied, hc]
        decide
      rw [hd]
      exact matched_dispatchLate h message

/-- **Both send the same** about every line that does not welcome them. -/
theorem matched_handleMessage {message : Message} (hline : message.is "001" = false) :
    Matched (c.handleMessage message).enrolment (d.handleMessage message).enrolment := by
  have hnoted : Matched (c.noted message).enrolment (d.noted message).enrolment := h.silent rfl rfl
  have hwelcome : ¬ message.is "001" = true := by
    rw [hline]
    decide
  rw [handleMessage_eq, handleMessage_eq]
  unfold dispatch
  rw [if_neg hwelcome, if_neg hwelcome]
  split
  · exact hnoted
  split
  · exact hnoted.sendLine _
  split
  · exact matched_handleCap hnoted message
  split
  · exact matched_handleIsupport hnoted message
  · exact matched_dispatchMiddle hnoted message

end Fold

end Client

end ObbyClient

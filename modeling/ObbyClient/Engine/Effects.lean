import ObbyClient.Engine.Handle

/-!
# What a handler does, field by field

The handlers of the client are sequences of record updates.  Here each loop among them is put in one
update, so that what a handler leaves alone can be read off.

* `sendLines_eq`, `emits_eq`, `foldl_onChange` — the loops over lines, events and changes;
* `fold_eq` — what folding one line does;
* `sendLineLabeled_eq` — what sending one does;
* `Negotiates`, `Authenticated` — what negotiating and logging in change of a connection.
-/

namespace ObbyClient.Client

/-! ### The two queues -/

@[simp] theorem sendLine_eq (c : Client) (message : Message) :
    c.sendLine message = { c with outbox := c.outbox ++ [wireLine message] } := rfl

@[simp] theorem sendLines_eq (c : Client) (messages : List Message) :
    c.sendLines messages = { c with outbox := c.outbox ++ messages.map wireLine } := by
  unfold sendLines
  induction messages generalizing c with
  | nil => simp
  | cons message rest ih =>
      rw [List.foldl_cons, ih, sendLine_eq]
      simp

@[simp] theorem emit_eq (c : Client) (event : Event) :
    c.emit event = { c with events := c.events ++ [event] } := rfl

@[simp] theorem emits_eq (c : Client) (events : List Event) :
    c.emits events = { c with events := c.events ++ events } := by
  unfold emits
  induction events generalizing c with
  | nil => simp
  | cons event rest ih =>
      rw [List.foldl_cons, ih, emit_eq]
      simp

/-! ### Folding a line -/

/-- The questions about who is in the channels that were joined. -/
def whoLines (c : Client) (changes : List Change) : List Message :=
  changes.filterMap fun change =>
    match change with
    | .channelJoined channel => some (c.whoLine channel)
    | _ => none

/-- What is kept by channel, after the channels that were renamed took it along. -/
def keptAfter {ν : Type} (i : Isupport) (changes : List Change)
    (kept : Std.ExtTreeMap CaseFolded ν) : Std.ExtTreeMap CaseFolded ν :=
  changes.foldl (fun kept change =>
    match change with
    | .channelRenamed source dest => moveKept kept (i.fold source) (i.fold dest)
    | _ => kept) kept

/-- What the host is told about a line that was folded. -/
def foldEvents (message : Message) (changes : List Change) : List Event :=
  if changes = [] then
    if Session.accumulates (toAsciiUppercase message.command) then [] else [.rawLine message]
  else changes.map .modelChanged

theorem foldl_onChange (c : Client) (changes : List Change) :
    changes.foldl onChange c =
      { c with
        channelKeys := keptAfter c.isupport changes c.channelKeys
        rooms := keptAfter c.isupport changes c.rooms
        outbox := c.outbox ++ (c.whoLines changes).map wireLine } := by
  induction changes generalizing c with
  | nil => simp [keptAfter, whoLines]
  | cons change rest ih =>
      rw [List.foldl_cons, ih]
      cases change with
      | channelJoined channel =>
          simp only [onChange, sendLine_eq, keptAfter, whoLines, List.foldl_cons,
            List.filterMap_cons, List.map_cons, List.append_assoc]
          rfl
      | channelRenamed source dest => rfl
      | _ => rfl

section Fold

variable [Primitives]

theorem fold_eq (c : Client) (message : Message) (historical : Bool) :
    c.fold message historical =
      { c with
        model := (Session.apply (c.context historical) message).1.model
        latestMs := (Session.apply (c.context historical) message).1.latestMs
        channelKeys := keptAfter c.isupport (Session.apply (c.context historical) message).2
          c.channelKeys
        rooms := keptAfter c.isupport (Session.apply (c.context historical) message).2 c.rooms
        outbox := c.outbox ++
          (c.whoLines (Session.apply (c.context historical) message).2).map wireLine
        events := c.events ++
          foldEvents message (Session.apply (c.context historical) message).2 } := by
  unfold fold
  generalize Session.apply (c.context historical) message = result
  obtain ⟨ctx, changes⟩ := result
  by_cases hnone : changes = []
  · subst hnone
    show (if [] = [] then _ else _) = _
    rw [if_pos rfl]
    by_cases hquiet : Session.accumulates (toAsciiUppercase message.command) = true
    · rw [if_pos hquiet]
      simp [foldEvents, hquiet, keptAfter, whoLines]
    · rw [if_neg hquiet]
      simp [foldEvents, hquiet, keptAfter, whoLines]
  · show (if changes = [] then _ else _) = _
    rw [if_neg hnone, foldl_onChange, emits_eq]
    simp only [foldEvents, if_neg hnone]
    rfl

end Fold

/-! ### Sending under a label -/

/-- The message as it is sent: under a label of its own, when `labeled-response` is in force. -/
def labelled (c : Client) (message : Message) : Message :=
  if !c.caps.has "labeled-response" then message
  else { message with tags := message.tags.set (.new "label" c.labels.generate.2) }

/-- The labels outstanding once a message is sent. -/
def labelsAfter (c : Client) (message : Message) : Labels :=
  if !c.caps.has "labeled-response" then c.labels
  else
    c.labels.generate.1.register c.labels.generate.2 (satAdd64 c.monotonicMs defaultTimeoutMs)
      message.command

theorem sendLineLabeled_eq (c : Client) (message : Message) :
    c.sendLineLabeled message =
      { c with
        labels := c.labelsAfter message
        outbox := c.outbox ++ [wireLine (c.labelled message)] } := by
  unfold sendLineLabeled labelsAfter labelled
  by_cases h : (!c.caps.has "labeled-response") = true
  · rw [if_pos h, if_pos h, if_pos h, sendLine_eq]
  · rw [if_neg h, if_neg h, if_neg h]
    rfl

/-! ### Negotiating and logging in -/

/-- True for what negotiating and logging in tell of. -/
def tellsOfLogin : Event → Bool
  | .capabilitiesAcknowledged _ => true
  | .saslFailed _ => true
  | _ => false

/-- A step of negotiating or of logging in: how far either has come changes, and nothing else of the
connection but what is queued and told. -/
def Negotiates (c d : Client) : Prop :=
  ∃ phase caps sasl scram lines events,
    d = { c with
      phase := phase, caps := caps, sasl := sasl, scram := scram
      outbox := c.outbox ++ lines, events := c.events ++ events } ∧
    ∀ event ∈ events, tellsOfLogin event = true

namespace Negotiates

theorem refl (c : Client) : Negotiates c c :=
  ⟨c.phase, c.caps, c.sasl, c.scram, [], [], by rw [List.append_nil, List.append_nil], by simp⟩

theorem trans {c d e : Client} (h : Negotiates c d) (h' : Negotiates d e) : Negotiates c e := by
  obtain ⟨_, _, _, _, lines, events, rfl, htold⟩ := h
  obtain ⟨phase, caps, sasl, scram, lines', events', rfl, htold'⟩ := h'
  refine ⟨phase, caps, sasl, scram, lines ++ lines', events ++ events', ?_, ?_⟩
  · dsimp only
    rw [List.append_assoc, List.append_assoc]
  · exact List.forall_mem_append.mpr ⟨htold, htold'⟩

/-- A step that only sets how far it has come. -/
theorem sets (c : Client) (phase : Phase) (caps : Capabilities) (sasl : SaslState)
    (scram : Option Scram) :
    Negotiates c { c with phase := phase, caps := caps, sasl := sasl, scram := scram } :=
  ⟨phase, caps, sasl, scram, [], [], by rw [List.append_nil, List.append_nil], by simp⟩

theorem sendLines (c : Client) (messages : List Message) : Negotiates c (c.sendLines messages) :=
  ⟨c.phase, c.caps, c.sasl, c.scram, messages.map wireLine, [],
    by rw [sendLines_eq, List.append_nil], by simp⟩

theorem emits (c : Client) {events : List Event} (h : ∀ event ∈ events, tellsOfLogin event = true) :
    Negotiates c (c.emits events) :=
  ⟨c.phase, c.caps, c.sasl, c.scram, [], events, by rw [emits_eq, List.append_nil], h⟩

theorem tells (c : Client) {event : Event} (h : tellsOfLogin event = true) :
    Negotiates c (c.emit event) :=
  ⟨c.phase, c.caps, c.sasl, c.scram, [], [event], by rw [emit_eq, List.append_nil], by simp [h]⟩

end Negotiates

theorem startSaslIfWanted_negotiates (c : Client) : Negotiates c c.startSaslIfWanted.1 := by
  unfold startSaslIfWanted
  split
  · exact Negotiates.refl c
  · split
    · exact Negotiates.refl c
    · dsimp only
      split
      · exact (Negotiates.sets c _ _ .offered _).trans (Negotiates.sendLines _ [_])
      · exact (Negotiates.sets c _ _ .settled _).trans (Negotiates.tells _ rfl)

theorem finishNegotiationIfSettled_negotiates (c : Client) :
    Negotiates c c.finishNegotiationIfSettled := by
  unfold finishNegotiationIfSettled
  split
  · exact Negotiates.refl c
  · dsimp only
    split
    · exact c.startSaslIfWanted_negotiates
    · refine c.startSaslIfWanted_negotiates.trans ?_
      exact (Negotiates.sets _ .registering _ _ _).trans (Negotiates.sendLines _ [_])

theorem finishSasl_negotiates (c : Client) (failure : Option SaslFailure) :
    Negotiates c (c.finishSasl failure) := by
  unfold finishSasl
  split
  · exact Negotiates.refl c
  · refine (Negotiates.sets c c.phase c.caps .settled c.scram).trans ?_
    refine Negotiates.trans (Negotiates.emits _ ?_) (finishNegotiationIfSettled_negotiates _)
    intro event hevent
    obtain ⟨reason, -, rfl⟩ := Option.map_eq_some_iff.mp (Option.mem_toList.mp hevent)
    rfl

theorem requestWanted_negotiates (c : Client) : Negotiates c c.requestWanted := by
  unfold requestWanted
  dsimp only
  split
  · exact c.finishNegotiationIfSettled_negotiates
  · exact (Negotiates.sets c _ _ _ _).trans (Negotiates.sendLines _ _)

theorem applyCap_negotiates (c : Client) (subcommand list : Str) (moreToCome : Bool) :
    Negotiates c (c.applyCap subcommand list moreToCome) := by
  have hsets : ∀ caps, Negotiates c { c with caps := caps } :=
    fun caps => Negotiates.sets c _ caps _ _
  unfold applyCap
  split
  · dsimp only
    split
    · exact hsets _
    · exact (hsets _).trans (requestWanted_negotiates _)
  split
  · exact (hsets _).trans (requestWanted_negotiates _)
  split
  · exact hsets _
  split
  · dsimp only
    refine Negotiates.trans ?_ (finishNegotiationIfSettled_negotiates _)
    split
    · exact hsets _
    · exact (hsets _).trans (Negotiates.tells _ rfl)
  split
  · exact (hsets _).trans (finishNegotiationIfSettled_negotiates _)
  · exact Negotiates.refl c

theorem handleCap_negotiates (c : Client) (message : Message) :
    Negotiates c (c.handleCap message) := by
  unfold handleCap
  split
  · exact Negotiates.refl c
  · exact c.applyCap_negotiates _ _ _

section Authenticate

variable [Primitives]

/-- What a challenge comes to: nothing, the next lines of the exchange, or its end. -/
inductive Authenticated (c : Client) : Client → Prop
  | ignored : Authenticated c c
  | responded (sasl : SaslState) (scram : Option Scram) (lines : List Str)
      (h : sasl.inFlight = true) :
      Authenticated c ({ c with sasl := sasl, scram := scram }.sendLines
        (lines.map fun line => Message.new "AUTHENTICATE" [line]))
  | ended (scram : Option Scram) (failure : SaslFailure) :
      Authenticated c ({ c with scram := scram }.finishSasl (some failure))

theorem handleAuthenticate_authenticated (c : Client) (message : Message) :
    Authenticated c (c.handleAuthenticate message) := by
  unfold handleAuthenticate
  split
  · exact .ended c.scram _
  · split
    · unfold beginSaslResponse
      split
      · exact .ignored
      · exact .responded .scramChallenged _ _ rfl
      · exact .responded .responded c.scram _ rfl
    · unfold answerScramChallenge
      split
      · exact .ended c.scram _
      · split
        · exact .responded .scramProved _ _ rfl
        · exact .ended c.scram _
    · unfold verifyScramServer
      split
      · exact .ended c.scram _
      · split
        · exact .responded .responded none [("+" : Str)] rfl
        · exact .ended none _
    · exact .ignored

theorem handleAuthenticate_negotiates (c : Client) (message : Message) :
    Negotiates c (c.handleAuthenticate message) := by
  have hauthenticated := c.handleAuthenticate_authenticated message
  generalize c.handleAuthenticate message = d at hauthenticated ⊢
  cases hauthenticated with
  | ignored => exact Negotiates.refl c
  | responded sasl scram lines h =>
      exact (Negotiates.sets c _ _ sasl scram).trans (Negotiates.sendLines _ _)
  | ended scram failure =>
      exact (Negotiates.sets c _ _ _ scram).trans (finishSasl_negotiates _ _)

end Authenticate

end ObbyClient.Client

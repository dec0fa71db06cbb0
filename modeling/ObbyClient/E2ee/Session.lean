import ObbyClient.E2ee.Handshake
import ObbyClient.E2ee.Symbols

/-!
# A session, and the trust in its peer

* `PeerTrust` — trust on first use;
* `Session.perform` — one call of a method, with what it answers;
* `Session.after` — the session that a history of calls leaves;
* `Session.perform_trust`, `Session.perform_awaitingAck`, `Session.perform_established` — what one
  call does to the trust and to the state;
* `Session.admits` — who a session is ever established with;
* `Session.markedOwn_iff` — when the mark of a verified peer is its key's.
-/

namespace ObbyClient.E2ee

/-! ### Trust on first use -/

/-- What came of a fingerprint held against the pinned one. -/
inductive PinOutcome where
  | new
  | same
  | changed (previous : Fingerprint)
  deriving DecidableEq, Repr

structure PeerTrust where
  pinned : Option Fingerprint
  verified : Bool
  deriving DecidableEq, Repr

namespace PeerTrust

def new : PeerTrust where
  pinned := none
  verified := false

/-- The first fingerprint is pinned, and a later one only compared. -/
def observe (trust : PeerTrust) (fingerprint : Fingerprint) : PinOutcome × PeerTrust :=
  match trust.pinned with
  | none => (.new, { trust with pinned := some fingerprint })
  | some pinned => if pinned = fingerprint then (.same, trust) else (.changed pinned, trust)

def repin (trust : PeerTrust) (fingerprint : Fingerprint) : PeerTrust :=
  { trust with pinned := some fingerprint, verified := false }

def isVerified (trust : PeerTrust) : Bool := trust.verified

def setVerified (trust : PeerTrust) (verified : Bool) : PeerTrust :=
    { trust with verified := verified }

/-- A fingerprint is either told to differ from the pin, or is the pin from then on. -/
theorem observe_cases (trust : PeerTrust) (fingerprint : Fingerprint) :
    (∃ previous, trust.observe fingerprint = (.changed previous, trust)) ∨
      ∃ outcome, trust.observe fingerprint = (outcome, { trust with pinned := some fingerprint }) ∧
        (∀ previous, outcome ≠ .changed previous) ∧
        (trust.pinned = none ∨ trust.pinned = some fingerprint) := by
  unfold observe
  cases hpinned : trust.pinned with
  | none => exact Or.inr ⟨_, rfl, nofun, Or.inl rfl⟩
  | some pinned =>
    dsimp only
    by_cases hsame : pinned = fingerprint
    · subst hsame
      have hself : { trust with pinned := some pinned } = trust := by
        rw [← hpinned]
      rw [if_pos rfl, hself]
      exact Or.inr ⟨_, rfl, nofun, Or.inr rfl⟩
    · rw [if_neg hsame]
      exact Or.inl ⟨pinned, rfl⟩

end PeerTrust

variable [Crypto]

/-! ### The methods -/

/-- How far a conversation has got towards being encrypted. -/
inductive SessionState where
  | idle
  | offered (pending : PendingOffer)
  | offerReceived (bundle : PreKeyBundle)
  | awaitingAck (ratchet : Ratchet)
  | established (ratchet : Ratchet)
  | rejected
  | closed

structure Session where
  state : SessionState
  trust : PeerTrust
  role : Option Role

/-- What a session has the caller send to end it. -/
inductive Frame where
  | reject (reason : Option Str)
  | close
  deriving DecidableEq, Repr

namespace Session

def new : Session where
  state := .idle
  trust := PeerTrust.new
  role := none

def start (s : Session) (identity : Identity) (rng : RandomSource) :
    Except Error PreKeyBundle × Session × RandomSource :=
  match createOffer identity rng with
  | (.error e, rng) => (.error e, s, rng)
  | (.ok pending, rng) => (.ok pending.bundle, { s with state := .offered pending }, rng)

def receiveOffer (s : Session) (bundle : PreKeyBundle) : Fingerprint × Session :=
  (Fingerprint.ofSigningKey bundle.sik, { s with state := .offerReceived bundle })

def accept (s : Session) (identity : Identity) (rng : RandomSource) :
    Except Error HandshakeResponse × Session × RandomSource :=
  match s.state with
  | .offerReceived bundle =>
    match acceptOffer identity bundle rng with
    | (.error e, rng) => (.error e, s, rng)
    | (.ok (response, ratchet), rng) =>
      let fingerprint := Fingerprint.ofSigningKey bundle.sik
      match s.trust.observe fingerprint with
      | (.changed previous, trust) =>
        (.error (.fingerprintChanged previous fingerprint), { s with trust := trust }, rng)
      | (_, trust) =>
        (.ok response, { s with
          trust := trust
          role := some .responder
          state := .awaitingAck ratchet }, rng)
  | _ => (.error .wrongState, s, rng)

def reject (s : Session) (reason : Option Str) : Frame × Session :=
  (.reject reason, { s with state := .rejected })

def receiveReject (s : Session) : Session := { s with state := .rejected }

def receiveAccept (s : Session) (identity : Identity) (response : HandshakeResponse)
    (rng : RandomSource) :
    Except Error Unit × Session × RandomSource :=
  match s.state with
  | .offered pending =>
    match completeHandshake identity pending response rng with
    | (.error e, rng) => (.error e, s, rng)
    | (.ok ratchet, rng) =>
      let fingerprint := Fingerprint.ofSigningKey response.sik
      match s.trust.observe fingerprint with
      | (.changed previous, trust) =>
        (.error (.fingerprintChanged previous fingerprint), { s with trust := trust }, rng)
      | (_, trust) =>
        (.ok (), { s with
          trust := trust
          role := some .initiator
          state := .established ratchet }, rng)
  | _ => (.error .wrongState, s, rng)

def send (s : Session) (plaintext : Bytes) : Except Error RatchetMessage × Session :=
  match s.state with
  | .established ratchet =>
    let (sent, ratchet) := ratchet.encrypt plaintext
    (sent, { s with state := .established ratchet })
  | _ => (.error .wrongState, s)

def makeAck (s : Session) : Except Error RatchetMessage × Session := s.send []

def receiveAck (s : Session) (ct : RatchetMessage) (rng : RandomSource) :
    Except Error Unit × Session × RandomSource :=
  match s.state with
  | .awaitingAck ratchet =>
    match ratchet.decrypt ct rng with
    | (.error e, ratchet, rng) => (.error e, { s with state := .awaitingAck ratchet }, rng)
    | (.ok _, ratchet, rng) => (.ok (), { s with state := .established ratchet }, rng)
  | _ => (.error .wrongState, s, rng)

def receive (s : Session) (ct : RatchetMessage) (rng : RandomSource) :
    Except Error Bytes × Session × RandomSource :=
  match s.state with
  | .established ratchet =>
    let (plaintext, ratchet, rng) := ratchet.decrypt ct rng
    (plaintext, { s with state := .established ratchet }, rng)
  | _ => (.error .wrongState, s, rng)

def close (s : Session) : Frame × Session := (.close, { s with state := .closed })

def receiveClose (s : Session) : Session := { s with state := .closed }

def isEstablished (s : Session) : Bool :=
  match s.state with
  | .established _ => true
  | _ => false

def peerFingerprint (s : Session) : Option Fingerprint := s.trust.pinned

def isPeerVerified (s : Session) : Bool := s.trust.isVerified

def markPeerVerified (s : Session) : Session := { s with trust := s.trust.setVerified true }

def confirmFingerprintChange (s : Session) (fingerprint : Fingerprint) : Session :=
  { s with trust := s.trust.repin fingerprint }

/-! ### Histories of calls -/

/-- A call of a method, with its arguments. -/
inductive Call where
  | start (identity : Identity) (rng : RandomSource)
  | receiveOffer (bundle : PreKeyBundle)
  | accept (identity : Identity) (rng : RandomSource)
  | reject (reason : Option Str)
  | receiveReject
  | receiveAccept (identity : Identity) (response : HandshakeResponse) (rng : RandomSource)
  | makeAck
  | receiveAck (ct : RatchetMessage) (rng : RandomSource)
  | send (plaintext : Bytes)
  | receive (ct : RatchetMessage) (rng : RandomSource)
  | close
  | receiveClose
  | markPeerVerified
  | confirmFingerprintChange (fingerprint : Fingerprint)

/-- What a call answers. -/
inductive Reply where
  | done
  | bundle (bundle : PreKeyBundle)
  | fingerprint (fingerprint : Fingerprint)
  | response (response : HandshakeResponse)
  | frame (frame : Frame)
  | message (message : RatchetMessage)
  | plaintext (plaintext : Bytes)

def perform (s : Session) : Call → Except Error Reply × Session
  | .start identity rng => ((s.start identity rng).1.map .bundle, (s.start identity rng).2.1)
  | .receiveOffer bundle =>
      (.ok (.fingerprint (s.receiveOffer bundle).1), (s.receiveOffer bundle).2)
  | .accept identity rng => ((s.accept identity rng).1.map .response, (s.accept identity rng).2.1)
  | .reject reason => (.ok (.frame (s.reject reason).1), (s.reject reason).2)
  | .receiveReject => (.ok .done, s.receiveReject)
  | .receiveAccept identity response rng =>
    ((s.receiveAccept identity response rng).1.map fun _ => .done,
      (s.receiveAccept identity response rng).2.1)
  | .makeAck => (s.makeAck.1.map .message, s.makeAck.2)
  | .receiveAck ct rng => ((s.receiveAck ct rng).1.map fun _ => .done, (s.receiveAck ct rng).2.1)
  | .send plaintext => ((s.send plaintext).1.map .message, (s.send plaintext).2)
  | .receive ct rng => ((s.receive ct rng).1.map .plaintext, (s.receive ct rng).2.1)
  | .close => (.ok (.frame s.close.1), s.close.2)
  | .receiveClose => (.ok .done, s.receiveClose)
  | .markPeerVerified => (.ok .done, s.markPeerVerified)
  | .confirmFingerprintChange fingerprint => (.ok .done, s.confirmFingerprintChange fingerprint)

/-- The session after every call of a history. -/
def after (calls : List Call) : Session := calls.foldl (fun s call => (s.perform call).2) new

theorem after_concat (calls : List Call) (call : Call) :
    after (calls ++ [call]) = ((after calls).perform call).2 := List.foldl_concat ..

/-! ### What one call does -/

/-- The session of an accepted offer, or the same session and an error. -/
theorem accept_cases (s : Session) (identity : Identity) (rng : RandomSource) :
    (∃ e rng', s.accept identity rng = (.error e, s, rng')) ∨
      ∃ bundle response ratchet rng', s.state = .offerReceived bundle ∧
        acceptOffer identity bundle rng = (.ok (response, ratchet), rng') ∧
        s.accept identity rng = (.ok response, {
          state := .awaitingAck ratchet
          trust := { s.trust with pinned := some (Fingerprint.ofSigningKey bundle.sik) }
          role := some .responder }, rng') ∧
        (s.trust.pinned = none ∨ s.trust.pinned = some (Fingerprint.ofSigningKey bundle.sik)) := by
  unfold accept
  cases hstate : s.state with
  | offerReceived bundle =>
    have hsame : { s with state := .offerReceived bundle } = s := by
      rw [← hstate]
    dsimp only
    cases hoffer : acceptOffer identity bundle rng with
    | mk result rng' =>
      cases result with
      | error e => exact Or.inl ⟨e, rng', rfl⟩
      | ok answer =>
        dsimp only
        obtain ⟨previous, hchanged⟩ | ⟨outcome, hpinned, hkept, hpin⟩ :=
          s.trust.observe_cases (Fingerprint.ofSigningKey bundle.sik)
        · rw [hchanged]
          dsimp only
          rw [hsame]
          exact Or.inl ⟨_, rng', rfl⟩
        · rw [hpinned]
          refine Or.inr ⟨bundle, answer.1, answer.2, rng', rfl, hoffer, ?_, hpin⟩
          cases outcome with
          | new => rfl
          | same => rfl
          | changed previous => exact absurd rfl (hkept previous)
  | _ => exact Or.inl ⟨_, rng, rfl⟩

/-- The session that an answer completes, or the same session and an error. -/
theorem receiveAccept_cases (s : Session) (identity : Identity) (response : HandshakeResponse)
    (rng : RandomSource) :
    (∃ e rng', s.receiveAccept identity response rng = (.error e, s, rng')) ∨
      ∃ pending ratchet rng', s.state = .offered pending ∧
        completeHandshake identity pending response rng = (.ok ratchet, rng') ∧
        s.receiveAccept identity response rng = (.ok (), {
          state := .established ratchet
          trust := { s.trust with pinned := some (Fingerprint.ofSigningKey response.sik) }
          role := some .initiator }, rng') ∧
        (s.trust.pinned = none ∨ s.trust.pinned =
          some (Fingerprint.ofSigningKey response.sik)) := by
  unfold receiveAccept
  cases hstate : s.state with
  | offered pending =>
    have hsame : { s with state := .offered pending } = s := by
      rw [← hstate]
    dsimp only
    cases hanswer : completeHandshake identity pending response rng with
    | mk result rng' =>
      cases result with
      | error e => exact Or.inl ⟨e, rng', rfl⟩
      | ok ratchet =>
        dsimp only
        obtain ⟨previous, hchanged⟩ | ⟨outcome, hpinned, hkept, hpin⟩ :=
          s.trust.observe_cases (Fingerprint.ofSigningKey response.sik)
        · rw [hchanged]
          dsimp only
          rw [hsame]
          exact Or.inl ⟨_, rng', rfl⟩
        · rw [hpinned]
          refine Or.inr ⟨pending, ratchet, rng', rfl, hanswer, ?_, hpin⟩
          cases outcome with
          | new => rfl
          | same => rfl
          | changed previous => exact absurd rfl (hkept previous)
  | _ => exact Or.inl ⟨_, rng, rfl⟩

/-- The session that an acknowledgement establishes, or the same session and an error. -/
theorem receiveAck_cases (s : Session) (ct : RatchetMessage) (rng : RandomSource) :
    (∃ e rng', s.receiveAck ct rng = (.error e, s, rng')) ∨
      ∃ ratchet plaintext ratchet' rng', s.state = .awaitingAck ratchet ∧
        ratchet.decrypt ct rng = (.ok plaintext, ratchet', rng') ∧
        s.receiveAck ct rng = (.ok (), { s with state := .established ratchet' }, rng') := by
  unfold receiveAck
  cases hstate : s.state with
  | awaitingAck ratchet =>
    dsimp only
    cases hdecrypt : ratchet.decrypt ct rng with
    | mk result rest =>
      cases result with
      | error e =>
        have hsame : { s with state := .awaitingAck rest.1 } = s := by
          rw [Ratchet.decrypt_error hdecrypt, ← hstate]
        dsimp only
        rw [hsame]
        exact Or.inl ⟨e, rest.2, rfl⟩
      | ok plaintext => exact Or.inr ⟨ratchet, plaintext, rest.1, rest.2, rfl, hdecrypt, rfl⟩
  | _ => exact Or.inl ⟨_, rng, rfl⟩

theorem send_state (s : Session) (plaintext : Bytes) :
    (∃ e, s.send plaintext = (.error e, s)) ∨
      ∃ ratchet ratchet', s.state = .established ratchet ∧
        (s.send plaintext).2 = { s with state := .established ratchet' } := by
  unfold send
  cases hstate : s.state with
  | established ratchet => exact Or.inr ⟨ratchet, (ratchet.encrypt plaintext).2, rfl, rfl⟩
  | _ => exact Or.inl ⟨_, rfl⟩

theorem receive_state (s : Session) (ct : RatchetMessage) (rng : RandomSource) :
    (∃ e, s.receive ct rng = (.error e, s, rng)) ∨
      ∃ ratchet ratchet', s.state = .established ratchet ∧
        (s.receive ct rng).2.1 = { s with state := .established ratchet' } := by
  unfold receive
  cases hstate : s.state with
  | established ratchet => exact Or.inr ⟨ratchet, (ratchet.decrypt ct rng).2.1, rfl, rfl⟩
  | _ => exact Or.inl ⟨_, rfl⟩

theorem start_state (s : Session) (identity : Identity) (rng : RandomSource) :
    (s.start identity rng).2.1 = s ∨
      ∃ pending, (s.start identity rng).2.1 = { s with state := .offered pending } := by
  unfold start
  cases hoffer : createOffer identity rng with
  | mk result rng' =>
    cases result with
    | error e => exact Or.inl rfl
    | ok pending => exact Or.inr ⟨pending, rfl⟩

/-- **What one call does to the trust**: it pins a first fingerprint, sets the mark, moves the pin
on the caller's word, or leaves it all. -/
theorem perform_trust (s : Session) (call : Call) :
    (s.perform call).2.trust = s.trust ∨
      (s.trust.pinned = none ∧ ∃ fingerprint,
        (s.perform call).2.trust = { s.trust with pinned := some fingerprint }) ∨
      (call = .markPeerVerified ∧ (s.perform call).2.trust = { s.trust with verified := true }) ∨
      ∃ fingerprint, call = .confirmFingerprintChange fingerprint ∧
        (s.perform call).2.trust = ⟨some fingerprint, false⟩ := by
  have hpins : ∀ fingerprint, s.trust.pinned = none ∨ s.trust.pinned = some fingerprint →
      { s.trust with pinned := some fingerprint } = s.trust ∨
        (s.trust.pinned = none ∧ ∃ found,
          { s.trust with pinned := some fingerprint } = { s.trust with pinned := some found }) := by
    intro fingerprint hpin
    obtain hnone | hsame := hpin
    · exact Or.inr ⟨hnone, fingerprint, rfl⟩
    · rw [← hsame]
      exact Or.inl rfl
  cases call with
  | start identity rng =>
    obtain hsame | ⟨pending, hnew⟩ := s.start_state identity rng
    · exact Or.inl (congrArg Session.trust hsame)
    · exact Or.inl (show (s.start identity rng).2.1.trust = s.trust by rw [hnew])
  | accept identity rng =>
    obtain ⟨e, rng', heq⟩ | ⟨bundle, response, ratchet, rng', -, -, heq, hpin⟩ :=
      s.accept_cases identity rng
    · exact Or.inl (congrArg (·.2.1.trust) heq)
    · have htrust : (s.perform (.accept identity rng)).2.trust = _ := congrArg (·.2.1.trust) heq
      rw [htrust]
      exact (hpins _ hpin).imp_right Or.inl
  | receiveAccept identity response rng =>
    obtain ⟨e, rng', heq⟩ | ⟨pending, ratchet, rng', -, -, heq, hpin⟩ :=
      s.receiveAccept_cases identity response rng
    · exact Or.inl (congrArg (·.2.1.trust) heq)
    · have htrust : (s.perform (.receiveAccept identity response rng)).2.trust = _ :=
        congrArg (·.2.1.trust) heq
      rw [htrust]
      exact (hpins _ hpin).imp_right Or.inl
  | receiveAck ct rng =>
    obtain ⟨e, rng', heq⟩ | ⟨ratchet, plaintext, ratchet', rng', -, -, heq⟩ :=
      s.receiveAck_cases ct rng
    · exact Or.inl (congrArg (·.2.1.trust) heq)
    · exact Or.inl (congrArg (·.2.1.trust) heq)
  | makeAck =>
    obtain ⟨e, heq⟩ | ⟨ratchet, ratchet', -, heq⟩ := s.send_state []
    · exact Or.inl (congrArg (·.2.trust) heq)
    · exact Or.inl (show (s.send []).2.trust = s.trust by rw [heq])
  | send plaintext =>
    obtain ⟨e, heq⟩ | ⟨ratchet, ratchet', -, heq⟩ := s.send_state plaintext
    · exact Or.inl (congrArg (·.2.trust) heq)
    · exact Or.inl (show (s.send plaintext).2.trust = s.trust by rw [heq])
  | receive ct rng =>
    obtain ⟨e, heq⟩ | ⟨ratchet, ratchet', -, heq⟩ := s.receive_state ct rng
    · exact Or.inl (congrArg (·.2.1.trust) heq)
    · exact Or.inl (show (s.receive ct rng).2.1.trust = s.trust by rw [heq])
  | receiveOffer bundle => exact Or.inl rfl
  | reject reason => exact Or.inl rfl
  | receiveReject => exact Or.inl rfl
  | close => exact Or.inl rfl
  | receiveClose => exact Or.inl rfl
  | markPeerVerified => exact Or.inr (Or.inr (Or.inl ⟨rfl, rfl⟩))
  | confirmFingerprintChange fingerprint => exact Or.inr (Or.inr (Or.inr ⟨fingerprint, rfl, rfl⟩))

/-- **What one call does to the state**: one of the plain moves, a handshake's step, or a
ratchet's. -/
theorem perform_state (s : Session) (call : Call) :
    (s.perform call).2.state = s.state ∨
      (∃ pending, (s.perform call).2.state = .offered pending) ∨
      (∃ bundle, (s.perform call).2.state = .offerReceived bundle) ∨
      (s.perform call).2.state = .rejected ∨ (s.perform call).2.state = .closed ∨
      (∃ ratchet ratchet', s.state = .established ratchet ∧
        (s.perform call).2.state = .established ratchet') ∨
      (∃ identity rng bundle response ratchet rng', call = .accept identity rng ∧
        s.state = .offerReceived bundle ∧
        acceptOffer identity bundle rng = (.ok (response, ratchet), rng') ∧
        s.perform call = (.ok (.response response), {
          state := .awaitingAck ratchet
          trust := { s.trust with pinned := some (Fingerprint.ofSigningKey bundle.sik) }
          role := some .responder })) ∨
      (∃ identity response rng pending ratchet rng', call = .receiveAccept identity response rng ∧
        s.state = .offered pending ∧
        completeHandshake identity pending response rng = (.ok ratchet, rng') ∧
        s.perform call = (.ok .done, {
          state := .established ratchet
          trust := { s.trust with pinned := some (Fingerprint.ofSigningKey response.sik) }
          role := some .initiator })) ∨
      ∃ ct rng ratchet plaintext ratchet' rng', call = .receiveAck ct rng ∧
        s.state = .awaitingAck ratchet ∧ ratchet.decrypt ct rng = (.ok plaintext, ratchet', rng') ∧
        s.perform call = (.ok .done, { s with state := .established ratchet' }) := by
  cases call with
  | start identity rng =>
    obtain hsame | ⟨pending, hnew⟩ := s.start_state identity rng
    · exact Or.inl (congrArg Session.state hsame)
    · exact Or.inr (Or.inl ⟨pending, congrArg Session.state hnew⟩)
  | receiveOffer bundle => exact Or.inr (Or.inr (Or.inl ⟨bundle, rfl⟩))
  | accept identity rng =>
    obtain ⟨e, rng', heq⟩ | ⟨bundle, response, ratchet, rng', hstate, hoffer, heq, -⟩ :=
      s.accept_cases identity rng
    · exact Or.inl (congrArg (·.2.1.state) heq)
    · refine Or.inr (Or.inr (Or.inr (Or.inr (Or.inr (Or.inr (Or.inl ?_))))))
      refine ⟨identity, rng, bundle, response, ratchet, rng', rfl, hstate, hoffer, ?_⟩
      show ((s.accept identity rng).1.map Reply.response, (s.accept identity rng).2.1) = _
      rw [heq]
      rfl
  | reject reason => exact Or.inr (Or.inr (Or.inr (Or.inl rfl)))
  | receiveReject => exact Or.inr (Or.inr (Or.inr (Or.inl rfl)))
  | receiveAccept identity response rng =>
    obtain ⟨e, rng', heq⟩ | ⟨pending, ratchet, rng', hstate, hanswer, heq, -⟩ :=
      s.receiveAccept_cases identity response rng
    · exact Or.inl (congrArg (·.2.1.state) heq)
    · refine Or.inr (Or.inr (Or.inr (Or.inr (Or.inr (Or.inr (Or.inr (Or.inl ?_)))))))
      refine ⟨identity, response, rng, pending, ratchet, rng', rfl, hstate, hanswer, ?_⟩
      show ((s.receiveAccept identity response rng).1.map _,
        (s.receiveAccept identity response rng).2.1) = _
      rw [heq]
      rfl
  | makeAck =>
    obtain ⟨e, heq⟩ | ⟨ratchet, ratchet', hstate, heq⟩ := s.send_state []
    · exact Or.inl (congrArg (·.2.state) heq)
    · exact Or.inr (Or.inr (Or.inr (Or.inr (Or.inr (Or.inl
        ⟨ratchet, ratchet', hstate, congrArg Session.state heq⟩)))))
  | receiveAck ct rng =>
    obtain ⟨e, rng', heq⟩ | ⟨ratchet, plaintext, ratchet', rng', hstate, hdecrypt, heq⟩ :=
      s.receiveAck_cases ct rng
    · exact Or.inl (congrArg (·.2.1.state) heq)
    · refine Or.inr (Or.inr (Or.inr (Or.inr (Or.inr (Or.inr (Or.inr (Or.inr ?_)))))))
      refine ⟨ct, rng, ratchet, plaintext, ratchet', rng', rfl, hstate, hdecrypt, ?_⟩
      show ((s.receiveAck ct rng).1.map _, (s.receiveAck ct rng).2.1) = _
      rw [heq]
      rfl
  | send plaintext =>
    obtain ⟨e, heq⟩ | ⟨ratchet, ratchet', hstate, heq⟩ := s.send_state plaintext
    · exact Or.inl (congrArg (·.2.state) heq)
    · exact Or.inr (Or.inr (Or.inr (Or.inr (Or.inr (Or.inl
        ⟨ratchet, ratchet', hstate, congrArg Session.state heq⟩)))))
  | receive ct rng =>
    obtain ⟨e, heq⟩ | ⟨ratchet, ratchet', hstate, heq⟩ := s.receive_state ct rng
    · exact Or.inl (congrArg (·.2.1.state) heq)
    · exact Or.inr (Or.inr (Or.inr (Or.inr (Or.inr (Or.inl
        ⟨ratchet, ratchet', hstate, congrArg Session.state heq⟩)))))
  | close => exact Or.inr (Or.inr (Or.inr (Or.inr (Or.inl rfl))))
  | receiveClose => exact Or.inr (Or.inr (Or.inr (Or.inr (Or.inl rfl))))
  | markPeerVerified => exact Or.inl rfl
  | confirmFingerprintChange fingerprint => exact Or.inl rfl

/-! ### Who a session is established with -/

/-- The call completes an answer whose signature verified, of the peer who is then pinned. -/
def Answered (calls : List Call) (call : Call) : Prop :=
  ∃ identity response rng, call = .receiveAccept identity response rng ∧
    verifySignature response.sik (toBytes response.ik ++ toBytes response.ek) response.sig =
      .ok () ∧
    (after (calls ++ [call])).peerFingerprint = some (Fingerprint.ofSigningKey response.sik)

/-- The session waits under a ratchet that an earlier call built from a bundle whose signature
verified, of the peer who was then pinned. -/
def Accepted (calls : List Call) (ratchet : Ratchet) : Prop :=
  ∃ earlier later identity rng bundle response, calls = earlier ++ .accept identity rng :: later ∧
    (after earlier).state = .offerReceived bundle ∧ verifyBundleSignature bundle = .ok () ∧
    (acceptOffer identity bundle rng).1 = .ok (response, ratchet) ∧
    ((after earlier).perform (.accept identity rng)).1 = .ok (.response response) ∧
    (after (earlier ++ [.accept identity rng])).peerFingerprint =
      some (Fingerprint.ofSigningKey bundle.sik)

/-- The call's ciphertext decrypts under the ratchet of such an answer. -/
def Acknowledged (calls : List Call) (call : Call) : Prop :=
  ∃ ratchet ct rng plaintext, call = .receiveAck ct rng ∧ Accepted calls ratchet ∧
    (after calls).state = .awaitingAck ratchet ∧ (ratchet.decrypt ct rng).1 = .ok plaintext

theorem isEstablished_iff {s : Session} : s.isEstablished = true ↔ ∃ ratchet,
    s.state = .established ratchet := by
  unfold isEstablished
  cases s.state with
  | established ratchet => exact ⟨fun _ => ⟨ratchet, rfl⟩, fun _ => rfl⟩
  | _ => exact ⟨nofun, nofun⟩

/-- **The ratchet that waits for an acknowledgement** is the one that the offer's acceptance
built. -/
theorem accepted_of_awaitingAck {calls : List Call} {ratchet : Ratchet}
    (h : (after calls).state = .awaitingAck ratchet) : Accepted calls ratchet := by
  induction calls using List.reverseRecOn with
  | nil => cases h
  | append_singleton calls call ih =>
    have hconcat := after_concat calls call
    rw [hconcat] at h
    obtain hsame | ⟨_, hnew⟩ | ⟨_, hnew⟩ | hnew | hnew | ⟨_, _, -, hnew⟩ |
      ⟨identity, rng, bundle, response, built, rng', rfl, hstate, hoffer, heq⟩ |
      ⟨_, _, _, _, _, _, -, -, -, heq⟩ | ⟨_, _, _, _, _, _, -, -, -, heq⟩ :=
      (after calls).perform_state call
    · obtain ⟨earlier, later, identity, rng, bundle, response, rfl, hrest⟩ :=
        ih (hsame.symm.trans h)
      refine ⟨earlier, later ++ [call], identity, rng, bundle, response, ?_, hrest⟩
      rw [List.append_assoc, List.cons_append]
    · cases hnew.symm.trans h
    · cases hnew.symm.trans h
    · cases hnew.symm.trans h
    · cases hnew.symm.trans h
    · cases hnew.symm.trans h
    · rw [heq] at h hconcat
      cases h
      refine ⟨calls, [], identity, rng, bundle, response, rfl, hstate,
        verified_of_acceptOffer hoffer, ?_, ?_, ?_⟩
      · rw [hoffer]
      · rw [heq]
      · rw [hconcat]
        rfl
    · rw [heq] at h
      cases h
    · rw [heq] at h
      cases h

theorem established_by {calls : List Call} {call : Call}
    (hbefore : (after calls).isEstablished = false)
    (hafter : (after (calls ++ [call])).isEstablished = true) :
    Answered calls call ∨ Acknowledged calls call := by
  obtain ⟨live, hlive⟩ := isEstablished_iff.mp hafter
  have hconcat := after_concat calls call
  rw [hconcat] at hlive
  obtain hsame | ⟨_, hnew⟩ | ⟨_, hnew⟩ | hnew | hnew | ⟨ratchet, _, hstate, -⟩ |
    ⟨_, _, _, _, _, _, -, -, -, heq⟩ |
    ⟨identity, response, rng, pending, ratchet, rng', rfl, hstate, hanswer, heq⟩ |
    ⟨ct, rng, ratchet, plaintext, ratchet', rng', rfl, hstate, hdecrypt, heq⟩ :=
    (after calls).perform_state call
  · have hthen : (after calls).isEstablished = true :=
      isEstablished_iff.mpr ⟨live, hsame.symm.trans hlive⟩
    rw [hbefore] at hthen
    cases hthen
  · cases hnew.symm.trans hlive
  · cases hnew.symm.trans hlive
  · cases hnew.symm.trans hlive
  · cases hnew.symm.trans hlive
  · have hthen : (after calls).isEstablished = true := isEstablished_iff.mpr ⟨ratchet, hstate⟩
    rw [hbefore] at hthen
    cases hthen
  · rw [heq] at hlive
    cases hlive
  · refine Or.inl ⟨identity, response, rng, rfl, verified_of_completeHandshake hanswer, ?_⟩
    rw [hconcat, heq]
    rfl
  · refine Or.inr ⟨ratchet, ct, rng, plaintext, rfl, accepted_of_awaitingAck hstate, hstate, ?_⟩
    rw [hdecrypt]

/-- The pin moves on the caller's word alone. -/
theorem pin_stays (s : Session) {call : Call} {fingerprint : Fingerprint}
    (hpin : s.peerFingerprint = some fingerprint)
    (hcall : ∀ confirmed, call ≠ .confirmFingerprintChange confirmed) :
    (s.perform call).2.peerFingerprint = some fingerprint := by
  obtain hsame | ⟨hnone, -⟩ | ⟨-, hmark⟩ | ⟨confirmed, rfl, -⟩ := s.perform_trust call
  · exact (congrArg PeerTrust.pinned hsame).trans hpin
  · exact absurd (hnone.symm.trans hpin) nofun
  · exact (congrArg PeerTrust.pinned hmark).trans hpin
  · exact absurd rfl (hcall confirmed)

/-- **Who a session trusts**, after any history of calls: the pin is moved by nothing but the
caller's word, the session is established only with the peer who is pinned, content moves only while
it is established, and a step of the handshake that fails leaves the session where it was. -/
theorem admits (calls : List Call) (call : Call) :
    (∀ fingerprint, (after calls).peerFingerprint = some fingerprint →
      (∀ confirmed, call ≠ .confirmFingerprintChange confirmed) →
        (after (calls ++ [call])).peerFingerprint = some fingerprint) ∧
    ((after calls).isEstablished = false → (after (calls ++ [call])).isEstablished = true →
      Answered calls call ∨ Acknowledged calls call) ∧
    (∀ plaintext msg, ((after calls).send plaintext).1 = .ok msg →
      (after calls).isEstablished = true) ∧
    (∀ ct rng plaintext, ((after calls).receive ct rng).1 = .ok plaintext →
      (after calls).isEstablished = true) ∧
    (∀ identity rng e, ((after calls).accept identity rng).1 = .error e →
      ((after calls).accept identity rng).2.1.state = (after calls).state) ∧
    (∀ identity response rng e, ((after calls).receiveAccept identity response rng).1 = .error e →
      ((after calls).receiveAccept identity response rng).2.1.state = (after calls).state) ∧
    (∀ ct rng e, ((after calls).receiveAck ct rng).1 = .error e →
      ((after calls).receiveAck ct rng).2.1.state = (after calls).state) := by
  refine ⟨?_, established_by, ?_, ?_, ?_, ?_, ?_⟩
  · intro fingerprint hpin hcall
    rw [after_concat]
    exact (after calls).pin_stays hpin hcall
  · intro plaintext msg h
    obtain ⟨e, heq⟩ | ⟨ratchet, -, hstate, -⟩ := (after calls).send_state plaintext
    · rw [heq] at h
      cases h
    · exact isEstablished_iff.mpr ⟨ratchet, hstate⟩
  · intro ct rng plaintext h
    obtain ⟨e, heq⟩ | ⟨ratchet, -, hstate, -⟩ := (after calls).receive_state ct rng
    · rw [heq] at h
      cases h
    · exact isEstablished_iff.mpr ⟨ratchet, hstate⟩
  · intro identity rng e h
    obtain ⟨e', rng', heq⟩ | ⟨_, _, _, _, -, -, heq, -⟩ := (after calls).accept_cases identity rng
    · rw [heq]
    · rw [heq] at h
      cases h
  · intro identity response rng e h
    obtain ⟨e', rng', heq⟩ | ⟨_, _, _, -, -, heq, -⟩ :=
      (after calls).receiveAccept_cases identity response rng
    · rw [heq]
    · rw [heq] at h
      cases h
  · intro ct rng e h
    obtain ⟨e', rng', heq⟩ | ⟨_, _, _, _, -, -, heq⟩ := (after calls).receiveAck_cases ct rng
    · rw [heq]
    · rw [heq] at h
      cases h

/-! ### Whose mark it is -/

/-- If the peer counts as verified, the last call that said so was made of the fingerprint that is
pinned, and the pin has not moved since. -/
def MarkedOwn (calls : List Call) : Prop :=
  (after calls).isPeerVerified = true → ∃ earlier later fingerprint,
    calls = earlier ++ .markPeerVerified :: later ∧ .markPeerVerified ∉ later ∧
      ∀ passed, passed <+: .markPeerVerified :: later →
        (after (earlier ++ passed)).peerFingerprint = some fingerprint

theorem markedOwn_nil : MarkedOwn [] := nofun

/-- The mark is made of the key that is pinned, if one is. -/
theorem markedOwn_mark {calls : List Call} (hpin : (after calls).peerFingerprint ≠ none) :
    MarkedOwn (calls ++ [.markPeerVerified]) := by
  obtain ⟨fingerprint, hpin⟩ := Option.ne_none_iff_exists'.mp hpin
  intro _
  refine ⟨calls, [], fingerprint, rfl, List.not_mem_nil, ?_⟩
  intro passed hpassed
  obtain rfl | ⟨rest, rfl, hrest⟩ := List.prefix_cons_iff.mp hpassed
  · rw [List.append_nil]
    exact hpin
  · rw [List.prefix_nil.mp hrest, after_concat]
    exact hpin

/-- Any other call leaves the mark with its key, or takes it away. -/
theorem markedOwn_other {calls : List Call} {call : Call} (h : MarkedOwn calls)
    (hcall : call ≠ .markPeerVerified) : MarkedOwn (calls ++ [call]) := by
  intro hverified
  have hconcat := after_concat calls call
  have hwhole : ∀ earlier later, calls = earlier ++ .markPeerVerified :: later →
      calls ++ [call] = earlier ++ .markPeerVerified :: (later ++ [call]) := by
    intro earlier later hcalls
    rw [hcalls, List.append_assoc, List.cons_append]
  rw [hconcat] at hverified
  obtain hsame | ⟨hnone, fingerprint, hfirst⟩ | ⟨hmark, -⟩ | ⟨fingerprint, -, hmoved⟩ :=
    (after calls).perform_trust call
  · obtain ⟨earlier, later, fingerprint, hcalls, hlast, hpinned⟩ :=
      h ((congrArg PeerTrust.verified hsame).symm.trans hverified)
    refine ⟨earlier, later ++ [call], fingerprint, hwhole earlier later hcalls, ?_, ?_⟩
    · intro hmem
      obtain hold | hnew := List.mem_append.mp hmem
      · exact hlast hold
      · exact hcall (List.mem_singleton.mp hnew).symm
    · intro passed hpassed
      rw [← List.cons_append, List.prefix_concat_iff] at hpassed
      obtain rfl | hold := hpassed
      · rw [List.cons_append, ← hwhole earlier later hcalls, hconcat]
        have hpin := hpinned _ List.prefix_rfl
        rw [← hcalls] at hpin
        exact (congrArg PeerTrust.pinned hsame).trans hpin
      · exact hpinned passed hold
  · have hthen : (after calls).isPeerVerified = true :=
      (congrArg PeerTrust.verified hfirst).symm.trans hverified
    obtain ⟨earlier, later, found, hcalls, -, hpinned⟩ := h hthen
    have hpin := hpinned _ List.prefix_rfl
    rw [← hcalls] at hpin
    exact absurd (hnone.symm.trans hpin) nofun
  · exact absurd hmark hcall
  · cases (congrArg PeerTrust.verified hmoved).symm.trans hverified

/-- **When the mark of a verified peer is its key's**: in every state that a history passes through,
just when each call that sets the mark is made while a fingerprint is pinned. -/
theorem markedOwn_iff (calls : List Call) :
    (∀ history, history <+: calls → MarkedOwn history) ↔
      ∀ history, history ++ [.markPeerVerified] <+: calls →
        (after history).peerFingerprint ≠ none := by
  constructor
  · intro h history hmark hnone
    have hverified : (after (history ++ [.markPeerVerified])).isPeerVerified = true := by
      rw [after_concat]
      rfl
    obtain ⟨earlier, later, fingerprint, hcalls, hlast, hpinned⟩ := h _ hmark hverified
    have hlater : later = [] := by
      cases later using List.reverseRecOn with
      | nil => rfl
      | append_singleton later last =>
        have hends : history ++ [.markPeerVerified] = (earlier ++ .markPeerVerified :: later) ++
            [last] := by
          rw [hcalls, List.append_assoc, List.cons_append]
        obtain ⟨-, hsame⟩ := List.append_inj' hends rfl
        refine absurd ?_ hlast
        rw [← hsame]
        exact List.mem_append_right _ List.mem_cons_self
    obtain ⟨rfl, -⟩ := List.append_inj' (hlater ▸ hcalls) rfl
    have hpin := hpinned [] (List.nil_prefix)
    rw [List.append_nil, hnone] at hpin
    cases hpin
  · intro h history hhistory
    induction history using List.reverseRecOn with
    | nil => exact markedOwn_nil
    | append_singleton history call ih =>
      have hbefore : history <+: calls := (List.prefix_append history [call]).trans hhistory
      by_cases hcall : call = .markPeerVerified
      · subst hcall
        exact markedOwn_mark (h history hhistory)
      · exact markedOwn_other (ih hbefore) hcall

/-- The mark is set before there is a peer, and then an offer is accepted. -/
def premature : List (@Call Crypto.symbols) :=
  letI := Crypto.symbols
  let secrets (who : UInt8) : ℕ → Key := fun i => (who :: List.replicate i 0 : Bytes)
  match (createOffer (Identity.generate ⟨secrets 1, 2⟩).1 ⟨secrets 1, 0⟩).1 with
  | .error _ => []
  | .ok pending =>
    [.markPeerVerified, .receiveOffer pending.bundle,
      .accept (Identity.generate ⟨secrets 2, 1⟩).1 ⟨secrets 2, 0⟩]

omit [Crypto] in
/-- The key of first contact then counts as verified, which nobody compared. -/
theorem premature_mark : letI := Crypto.symbols
    (after premature).isPeerVerified = true ∧ (after premature).peerFingerprint.isSome = true ∧
      ¬ MarkedOwn premature := by
  let _ := Crypto.symbols
  have hverified : (after premature).isPeerVerified = true := by decide +kernel
  refine ⟨hverified, by decide +kernel, ?_⟩
  intro hown
  obtain ⟨earlier, later, fingerprint, hcalls, -, hpin⟩ := hown hverified
  have hfirst := hpin [] List.nil_prefix
  rw [List.append_nil] at hfirst
  unfold premature at hcalls
  dsimp only at hcalls
  split at hcalls
  · exact absurd (congrArg List.length hcalls) (by simp)
  · cases earlier with
    | nil => cases hfirst
    | cons first rest =>
      have hmem : Call.markPeerVerified ∈ rest ++ .markPeerVerified :: later :=
        List.mem_append_right _ List.mem_cons_self
      have hrest : _ = rest ++ .markPeerVerified :: later := (List.cons.inj hcalls).2
      rw [← hrest] at hmem
      simp at hmem

end Session

end ObbyClient.E2ee

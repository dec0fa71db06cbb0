import ObbyClient.E2ee.Conversation
import ObbyClient.E2ee.Session
import ObbyClient.E2ee.Symbols

/-!
# Two offers that cross

Either side may offer a session, also both at once.  Each answers the offer that reaches it, unless
its own is still out and is the one that is kept.  Over a line that keeps each side's frames in
order they come to one session, however the frames are delayed.

* `keepsOwnOffer` — which of two offers is kept;
* `agree` — the frames of one offer, from both ends;
* `Link`, `Link.Step` — both sides and the frames on their way;
* `Phase` — how far two sides can be;
* `crossing_settles` — where every run ends.
-/

namespace ObbyClient.E2ee

/-- The side with the lower fingerprint keeps its offer; an offer that could not be read is
answered. -/
def keepsOwnOffer (own : Fingerprint) : Option Fingerprint → Bool
  | some peer => decide (own.bytes < peer.bytes)
  | none => false

/-- Of two sides that can read each other's offers, one keeps its own. -/
theorem keepsOwnOffer_comm {own peer : Fingerprint} (h : own ≠ peer) :
    keepsOwnOffer own (some peer) = !keepsOwnOffer peer (some own) := by
  have hasymm : Std.Asymm (· < · : UInt8 → UInt8 → Prop) := ⟨fun _ _ => UInt8.lt_asymm⟩
  have htrichotomous : Std.Trichotomous (· < · : UInt8 → UInt8 → Prop) :=
    ⟨fun a b hab hba => by_contra fun hne => (UInt8.lt_or_lt_of_ne hne).elim hab hba⟩
  have hbytes : own.bytes ≠ peer.bytes := by
    intro heq
    cases own
    cases peer
    exact h (congrArg Fingerprint.mk heq)
  show decide (own.bytes < peer.bytes) = !decide (peer.bytes < own.bytes)
  by_cases hlt : own.bytes < peer.bytes
  · rw [decide_eq_true hlt, decide_eq_false (List.lt_asymm hlt)]
    rfl
  · by_cases hgt : peer.bytes < own.bytes
    · rw [decide_eq_false hlt, decide_eq_true hgt]
      rfl
    · exact absurd (List.le_antisymm hgt hlt) hbytes

inductive Party where
  | first
  | second
  deriving DecidableEq

namespace Party

def other : Party → Party
  | first => second
  | second => first

@[simp] theorem other_other (who : Party) : who.other.other = who := by
  cases who <;> rfl

theorem other_ne (who : Party) : who.other ≠ who := by
  cases who <;> nofun

theorem eq_or_other (who w : Party) : w = who ∨ w = who.other := by
  cases who <;> cases w <;> simp [other]

end Party

variable [Crypto]

/-- The primitives do not fail: what a key signs is verified under it, and what fits the cipher is
sealed. -/
structure Working : Prop where
  signs (signing : Key) (message : Bytes) : ∃ signature,
    Crypto.trySign signing message = some signature ∧
    Crypto.verifyStrict (Crypto.verifyingKey signing) message signature = true
  seals (key : Key) (aad plaintext : Bytes) : ∃ ciphertext,
    aeadEncrypt key aad plaintext = .ok ciphertext

/-! ### One message read -/

namespace Ratchet

/-- The next message of a chain is read. -/
theorem decrypt_next (ideal : Ideal) {r : Ratchet} {msg : RatchetMessage} (rng : RandomSource)
    {chain : Key}
    {n : UInt32} {plaintext : Bytes} (hstored : r.skipped.byId (msg.dh, msg.n) = none)
    (hdhr : r.dhr = some msg.dh) (hn : msg.n = r.nRecv) (hchain : r.recvChain = some chain)
    (hcount : checkedIncrement r.nRecv = .ok n)
    (hct : aeadEncrypt (advance chain).1 msg.aad (pad plaintext) = .ok msg.ct) :
    r.decrypt msg rng =
      (.ok plaintext, { r with recvChain := some (advance chain).2, nRecv := n }, rng) := by
  have hskip : r.skipCurrentReceivingChain msg.n = .ok r :=
    skip_eq_self (Or.inr (hn ▸ UInt32.le_refl _))
  have hattempt := attempt_of_follow (SkippedKeys.take_eq_none.mpr hstored) (follow_same rng hdhr)
  rw [takeNext_eq ideal hskip hchain hcount] at hattempt
  exact decrypt_of_attempt_ok hattempt (bind_eq_ok.mpr ⟨_, ideal.opens hct, unpad_pad plaintext⟩)

/-- The first message under a new key is read, and the key is adopted. -/
theorem decrypt_turn (ideal : Ideal) {r : Ratchet} {msg : RatchetMessage} (rng : RandomSource)
    {shared root chain shared2 root2 sendChain : Key} {plaintext : Bytes}
    (hstored : r.skipped.byId (msg.dh, msg.n) = none) (hdhr : r.dhr ≠ some msg.dh)
    (hpn : r.recvChain = none ∨ msg.pn ≤ r.nRecv) (hn : msg.n = 0)
    (hshared : diffieHellmanRaw r.dhsSecret msg.dh = .ok shared)
    (hroot : kdfRoot r.rootKey shared = .ok (root, chain))
    (hshared2 : diffieHellmanRaw (rng.bytes rng.calls) msg.dh = .ok shared2)
    (hroot2 : kdfRoot root shared2 = .ok (root2, sendChain))
    (hct : aeadEncrypt (advance chain).1 msg.aad (pad plaintext) = .ok msg.ct) :
    r.decrypt msg rng = (.ok plaintext, {
      rootKey := root2
      dhsSecret := rng.bytes rng.calls
      dhsPublic := publicKey (rng.bytes rng.calls)
      dhr := some msg.dh
      sendChain := some sendChain
      recvChain := some (advance chain).2
      nSend := 0
      nRecv := 1
      prevChainLen := r.nSend
      skipped := r.skipped }, { rng with calls := rng.calls + 1 }) := by
  have hfollow := follow_new rng hdhr (skip_eq_self hpn)
  rw [dhRatchetReceive_eq hshared hroot hshared2 hroot2] at hfollow
  have hattempt := attempt_of_follow (SkippedKeys.take_eq_none.mpr hstored) hfollow
  have hzero : msg.n ≤ 0 := hn ▸ UInt32.le_refl _
  rw [takeNext_eq (n := 1) ideal (skip_eq_self (Or.inr hzero)) rfl rfl] at hattempt
  exact decrypt_of_attempt_ok hattempt (bind_eq_ok.mpr ⟨_, ideal.opens hct, unpad_pad plaintext⟩)

/-- Sending works while the counter does. -/
theorem encrypt_works (ideal : Ideal) (working : Working) {r : Ratchet} {chain : Key} {n : UInt32}
    (hchain : r.sendChain = some chain) (hcount : checkedIncrement r.nSend = .ok n)
    (plaintext : Bytes) :
    ∃ msg : RatchetMessage, r.encrypt plaintext =
        (.ok msg, { r with sendChain := some (advance chain).2, nSend := n }) ∧
      msg.dh = r.dhsPublic ∧ msg.pn = r.prevChainLen ∧ msg.n = r.nSend ∧
      aeadEncrypt (advance chain).1 msg.aad (pad plaintext) = .ok msg.ct := by
  obtain ⟨ct, hct⟩ := working.seals (advance chain).1 (headerAad r.dhsPublic r.prevChainLen r.nSend)
    (pad plaintext)
  refine ⟨⟨r.dhsPublic, r.prevChainLen, r.nSend, ct⟩, ?_, rfl, rfl, rfl, hct⟩
  unfold encrypt
  rw [hchain]
  dsimp only
  rw [kdfChain_eq ideal]
  dsimp only
  rw [hcount]
  dsimp only
  rw [hct]

end Ratchet

/-! ### The frames of one offer -/

/-- What one ratchet sends, the other reads. -/
def Understands (r r' : Ratchet) (rng' : RandomSource) : Prop :=
  ∀ plaintext, ∃ msg, (r.encrypt plaintext).1 = .ok msg ∧ (r'.decrypt msg rng').1 = .ok plaintext

theorem createOffer_works (working : Working) (identity : Identity) (rng : RandomSource) :
    ∃ pending, createOffer identity rng = (.ok pending, { rng with calls := rng.calls + 2 }) ∧
      verifyBundleSignature pending.bundle = .ok () ∧
        pending.bundle.sik = identity.public.signing := by
  obtain ⟨sig, hsig, hverified⟩ := working.signs identity.secret.signing
    (toBytes identity.public.agreement ++ toBytes (publicKey (rng.bytes rng.calls)) ++
      toBytes (publicKey (rng.bytes (rng.calls + 1))))
  refine ⟨{
    bundle := {
      ik := identity.public.agreement
      sik := identity.public.signing
      spk := publicKey (rng.bytes rng.calls)
      sig := sig
      opk := publicKey (rng.bytes (rng.calls + 1)) }
    spkSecret := rng.bytes rng.calls
    opkSecret := rng.bytes (rng.calls + 1) }, ?_, ?_, rfl⟩
  · unfold createOffer randomArray Identity.sign
    dsimp only
    rw [hsig]
    rfl
  · rw [← identity.signing_eq] at hverified
    exact if_pos hverified

theorem x3dhKdf_works (ideal : Ideal) (dh1 dh2 dh3 dh4 : Key) :
    ∃ sk, x3dhKdf dh1 dh2 dh3 dh4 = .ok sk :=
  ideal.derives (.x3dh dh1 dh2 dh3 dh4)

theorem responderRatchet_works (ideal : Ideal) (identity peer : Identity) {rng rng' : RandomSource}
    {pending : PendingOffer} (hcreate : createOffer peer rng = (.ok pending, rng'))
    (ekSecret : Key) :
    ∃ r, responderRatchet identity pending.bundle ekSecret = .ok r := by
  obtain ⟨-, -, hik, hspk, hopk⟩ := createOffer_spec hcreate
  have hworks : ∀ a b : Key, ∃ shared, diffieHellmanRaw a (publicKey b) = .ok shared := fun a b =>
    ⟨_, diffieHellmanRaw_publicKey ideal a b⟩
  unfold responderRatchet x3dhSecretResponder Ratchet.initAsResponder
  rw [hik, hspk, hopk]
  obtain ⟨dh1, hdh1⟩ := hworks identity.secret.agreement pending.spkSecret
  obtain ⟨dh2, hdh2⟩ := hworks ekSecret peer.secret.agreement
  obtain ⟨dh3, hdh3⟩ := hworks ekSecret pending.spkSecret
  obtain ⟨dh4, hdh4⟩ := hworks ekSecret pending.opkSecret
  obtain ⟨sk, hsk⟩ := x3dhKdf_works ideal dh1 dh2 dh3 dh4
  obtain ⟨root, chain, hroot⟩ := exists_kdfRoot ideal sk dh3
  exact ⟨_, bind_eq_ok.mpr ⟨sk, bind_eq_ok.mpr ⟨dh1, hdh1, bind_eq_ok.mpr ⟨dh2, hdh2,
    bind_eq_ok.mpr ⟨dh3, hdh3, bind_eq_ok.mpr ⟨dh4, hdh4, hsk⟩⟩⟩⟩,
    bind_eq_ok.mpr ⟨dh3, hdh3, bind_eq_ok.mpr ⟨_, hroot, rfl⟩⟩⟩⟩

theorem diffieHellmanRaw_comm (ideal : Ideal) (a b : Key) :
    diffieHellmanRaw a (publicKey b) = diffieHellmanRaw b (publicKey a) := by
  unfold diffieHellmanRaw
  rw [ideal.commutes a b]

/-- The answering side, its first message sent. -/
def answeringRatchet (ekSecret spk root chain : Key) : Ratchet where
  rootKey := root
  dhsSecret := ekSecret
  dhsPublic := publicKey ekSecret
  dhr := some spk
  sendChain := some (advance chain).2
  recvChain := none
  nSend := 1
  nRecv := 0
  prevChainLen := 0
  skipped := SkippedKeys.new

/-- A side that has read one message under the peer's key, and sent so many under its own before. -/
def turnedRatchet (secret dhr root chain sendChain : Key) (before : UInt32) : Ratchet where
  rootKey := root
  dhsSecret := secret
  dhsPublic := publicKey secret
  dhr := some dhr
  sendChain := some sendChain
  recvChain := some (advance chain).2
  nSend := 0
  nRecv := 1
  prevChainLen := before
  skipped := SkippedKeys.new

/-- **The answer to an offer**: both sides then have one root, and the offering side the key of what
the answer holds. -/
theorem acceptOffer_works (ideal : Ideal) (working : Working) (initiator responder : Identity)
    {rngI rngI' : RandomSource} (rngR : RandomSource) {pending : PendingOffer}
    (hcreate : createOffer initiator rngI = (.ok pending, rngI'))
    (hverified : verifyBundleSignature pending.bundle = .ok ()) :
    ∃ response sk shared root chain,
      acceptOffer responder pending.bundle rngR =
        (.ok (response, answeringRatchet (rngR.bytes rngR.calls) pending.bundle.spk root chain),
          { rngR with calls := rngR.calls + 1 }) ∧
      response.sik = responder.public.signing ∧
      verifySignature response.sik (toBytes response.ik ++ toBytes response.ek) response.sig =
        .ok () ∧
      response.ek = publicKey (rngR.bytes rngR.calls) ∧
      x3dhSecretInitiator pending.spkSecret initiator.secret.agreement pending.opkSecret response.ik
        response.ek = .ok sk ∧
      diffieHellmanRaw pending.spkSecret response.ek = .ok shared ∧
      kdfRoot sk shared = .ok (root, chain) ∧ response.boot.dh = response.ek ∧ response.boot.n = 0 ∧
      aeadEncrypt (advance chain).1 response.boot.aad (pad []) = .ok response.boot.ct := by
  obtain ⟨rfl, -, hik, hspk, hopk⟩ := createOffer_spec hcreate
  obtain ⟨before, hbefore⟩ := responderRatchet_works ideal responder initiator hcreate
    (rngR.bytes rngR.calls)
  obtain ⟨sk, -, -, -, -, shared, root, chain, hsk, -, hshared, hroot, hliteral⟩ :=
    responderRatchet_spec hbefore
  have hsend : before.sendChain = some chain := by rw [hliteral]
  have hcount : checkedIncrement before.nSend = .ok 1 := by rw [hliteral]; rfl
  obtain ⟨boot, hboot, hdh, -, hn, hct⟩ := Ratchet.encrypt_works ideal working hsend hcount []
  rw [hliteral] at hdh hn hboot
  obtain ⟨sig, hsig, hsigned⟩ := working.signs responder.secret.signing
    (toBytes responder.public.agreement ++ toBytes (publicKey (rngR.bytes rngR.calls)))
  refine ⟨{
    ik := responder.public.agreement
    sik := responder.public.signing
    ek := publicKey (rngR.bytes rngR.calls)
    sig := sig
    boot := boot }, sk, shared, root, chain, ?_, rfl, ?_, rfl, ?_, ?_, hroot, hdh, hn, hct⟩
  · unfold acceptOffer generateX25519Keypair randomArray Identity.sign
    rw [hverified]
    dsimp only
    rw [hbefore, hliteral, hsig]
    show Prod.mk (Except.bind (Ratchet.encrypt _ []).1 _) _ = _
    rw [hboot]
    rfl
  · rw [← responder.signing_eq] at hsigned
    exact if_pos hsigned
  · rw [responder.agreement_eq, x3dhSecretInitiator_eq ideal, ← hik, ← hspk, ← hopk]
    exact hsk
  · rw [diffieHellmanRaw_comm ideal, ← hspk]
    exact hshared

/-- Such a side once it has sent a message itself. -/
def spokenRatchet (secret dhr root chain sendChain : Key) (before : UInt32) : Ratchet :=
  { turnedRatchet secret dhr root chain sendChain before with
    sendChain := some (advance sendChain).2, nSend := 1 }

/-- A side that turned to a key reads what comes next under it. -/
theorem understands_next (ideal : Ideal) (working : Working) (secret dhr root chain sendChain : Key)
    (before : UInt32) (secret' root' sendChain' : Key) (before' : UInt32) (rng : RandomSource) :
    Understands (spokenRatchet secret dhr root chain sendChain before)
      (turnedRatchet secret' (publicKey secret) root' sendChain sendChain' before') rng := by
  intro plaintext
  obtain ⟨msg, hsend, hdh, -, hn, hct⟩ := Ratchet.encrypt_works ideal working
    (r := spokenRatchet secret dhr root chain sendChain before) (n := 2) rfl rfl plaintext
  have hdhr : (turnedRatchet secret' (publicKey secret) root' sendChain sendChain' before').dhr =
      some msg.dh := by
    rw [hdh]
    rfl
  have hread := Ratchet.decrypt_next ideal (n := 2) rng rfl hdhr hn rfl rfl hct
  exact ⟨msg, congrArg Prod.fst hsend, congrArg Prod.fst hread⟩

/-- A side whose key the peer turned to reads what the peer then sends under its own. -/
theorem understands_back (ideal : Ideal) (working : Working) {secret dhr secret' : Key}
    (root chain sendChain : Key) {root' sendChain' : Key} (rng : RandomSource)
    (hne : dhr ≠ publicKey secret')
    (hroot : kdfRoot root (Crypto.diffieHellman secret' (publicKey secret)) =
      .ok (root', sendChain')) :
    Understands (turnedRatchet secret' (publicKey secret) root' sendChain sendChain' 1)
      (spokenRatchet secret dhr root chain sendChain 0) rng := by
  intro plaintext
  obtain ⟨msg, hsend, hdh, hpn, hn, hct⟩ := Ratchet.encrypt_works ideal working
    (r := turnedRatchet secret' (publicKey secret) root' sendChain sendChain' 1) (n := 1) rfl rfl
      plaintext
  have hnew : (spokenRatchet secret dhr root chain sendChain 0).dhr ≠ some msg.dh := by
    intro heq
    rw [hdh] at heq
    exact hne (Option.some.inj heq)
  have hshared : diffieHellmanRaw secret msg.dh =
      .ok (Crypto.diffieHellman secret' (publicKey secret)) := by
    rw [hdh, ← diffieHellmanRaw_publicKey ideal]
    exact diffieHellmanRaw_comm ideal _ _
  have hshared2 := diffieHellmanRaw_publicKey ideal (rng.bytes rng.calls) secret'
  obtain ⟨root2, chain2, hroot2⟩ := exists_kdfRoot ideal root'
    (Crypto.diffieHellman (rng.bytes rng.calls) (publicKey secret'))
  have hle : msg.pn ≤ (spokenRatchet secret dhr root chain sendChain 0).nRecv :=
    hpn ▸ UInt32.le_refl _
  have hdh' : msg.dh = publicKey secret' := hdh
  have hread := Ratchet.decrypt_turn ideal rng rfl hnew (Or.inr hle) hn hshared hroot
    (hdh' ▸ hshared2) hroot2
    hct
  exact ⟨msg, congrArg Prod.fst hsend, congrArg Prod.fst hread⟩

/-- No two of the key pairs drawn so far, or of the next `n`, have the same public half. -/
def DrawsApart (rng : RandomSource) (n : ℕ) : Prop :=
  Set.InjOn (fun i => publicKey (rng.bytes i)) (Set.Iio (rng.calls + n))

theorem DrawsApart.mono {rng : RandomSource} {m n : ℕ} (h : DrawsApart rng n) (hle : m ≤ n) :
    DrawsApart rng m :=
  Set.InjOn.mono (Set.Iio_subset_Iio (Nat.add_le_add_left hle _)) h

theorem DrawsApart.drawn {rng : RandomSource} {k n : ℕ} (h : DrawsApart rng (k + n)) :
    DrawsApart { rng with calls := rng.calls + k } n := by
  unfold DrawsApart
  dsimp only
  rw [Nat.add_assoc]
  exact h

/-- **An offer, its answer and the acknowledgement of that, from both ends.**  Each step works, and
then each side reads what the other sends. -/
theorem agree (ideal : Ideal) (working : Working) (initiator responder : Identity)
    {rngI rngI' rngR : RandomSource}
    (hfreshI : DrawsApart rngI' 1) (hfreshR : DrawsApart rngR 2) {pending : PendingOffer}
    (hcreate : createOffer initiator rngI = (.ok pending, rngI'))
    (hverified : verifyBundleSignature pending.bundle = .ok ()) :
    ∃ response answering rngR', acceptOffer responder pending.bundle rngR =
        (.ok (response, answering), rngR') ∧ response.sik = responder.public.signing ∧
      ∃ completed rngI'', completeHandshake initiator pending response rngI' =
        (.ok completed, rngI'') ∧
        ∃ ack acknowledged, completed.encrypt [] = (.ok ack, acknowledged) ∧
          ∃ settled rngR'', answering.decrypt ack rngR' = (.ok [], settled, rngR'') ∧
            Understands acknowledged settled rngR'' ∧ Understands settled acknowledged rngI'' := by
  obtain ⟨response, sk, shared, root, chain, haccept, hsik, hsigned, hek, hsk, hshared, hroot,
    hbootDh, hbootN, hbootCt⟩ := acceptOffer_works ideal working initiator responder rngR hcreate hverified
  obtain ⟨rfl, hspkSecret, -, hspk, -⟩ := createOffer_spec hcreate
  refine ⟨response, _, _, haccept, hsik, ?_⟩
  -- the offering side turns to the key of the answer
  have hshared2 := diffieHellmanRaw_publicKey ideal (rngI.bytes (rngI.calls + 2))
    (rngR.bytes rngR.calls)
  rw [← hek] at hshared2
  obtain ⟨root2, chain2, hroot2⟩ := exists_kdfRoot ideal root
    (Crypto.diffieHellman (rngI.bytes (rngI.calls + 2)) response.ek)
  have hcomplete : completeHandshake initiator pending response
    { rngI with calls := rngI.calls + 2 } =
      (.ok (turnedRatchet (rngI.bytes (rngI.calls + 2)) response.ek root2 chain chain2 0),
        { rngI with calls := rngI.calls + 3 }) := by
    have hread := Ratchet.decrypt_turn ideal (r := Ratchet.initAsInitiator sk pending.spkSecret
      pending.bundle.spk) { rngI with calls := rngI.calls + 2 } rfl nofun
      (Or.inl rfl) hbootN (hbootDh ▸ hshared) hroot (hbootDh ▸ hshared2) hroot2 hbootCt
    rw [hbootDh] at hread
    have hagreed : (do
        verifySignature response.sik (toBytes response.ik ++ toBytes response.ek) response.sig
        x3dhSecretInitiator pending.spkSecret initiator.secret.agreement pending.opkSecret
          response.ik
          response.ek) = .ok sk := bind_eq_ok.mpr ⟨(), hsigned, hsk⟩
    unfold completeHandshake
    rw [hagreed]
    dsimp only
    rw [hread]
    rfl
  refine ⟨_, _, hcomplete, ?_⟩
  -- the acknowledgement turns the answering side to the key that was drawn
  obtain ⟨ack, hack, hackDh, -, hackN, hackCt⟩ := Ratchet.encrypt_works ideal working
    (r := turnedRatchet (rngI.bytes (rngI.calls + 2)) response.ek root2 chain chain2 0) (n := 1) rfl
      rfl []
  have hackShared : diffieHellmanRaw (rngR.bytes rngR.calls) ack.dh =
      .ok (Crypto.diffieHellman (rngI.bytes (rngI.calls + 2)) response.ek) := by
    rw [hackDh, ← hshared2, hek]
    exact diffieHellmanRaw_comm ideal _ _
  have hshared3 := diffieHellmanRaw_publicKey ideal (rngR.bytes (rngR.calls + 1))
    (rngI.bytes (rngI.calls + 2))
  obtain ⟨root3, chain3, hroot3⟩ := exists_kdfRoot ideal root2
    (Crypto.diffieHellman (rngR.bytes (rngR.calls + 1)) (publicKey (rngI.bytes (rngI.calls + 2))))
  have hnew : (answeringRatchet (rngR.bytes rngR.calls) pending.bundle.spk root chain).dhr ≠
      some ack.dh := by
    intro heq
    have hsame := Option.some.inj heq
    rw [hspk, hspkSecret, hackDh] at hsame
    have hcalls := hfreshI (show rngI.calls < rngI.calls + 2 + 1 by omega)
      (show rngI.calls + 2 < rngI.calls + 2 + 1 by omega) hsame
    omega
  have hsettle := Ratchet.decrypt_turn ideal
    (r := answeringRatchet (rngR.bytes rngR.calls) pending.bundle.spk root chain)
    { rngR with calls := rngR.calls + 1 } rfl hnew (Or.inl rfl) hackN hackShared hroot2
    (hackDh ▸ hshared3) hroot3 hackCt
  rw [hackDh] at hsettle
  refine ⟨ack, _, hack, _, _, hsettle, understands_next ideal working _ _ _ _ _ _ _ _ _ _ _,
    understands_back ideal working _ _ _ _ ?_ hroot3⟩
  intro heq
  rw [hek] at heq
  have hcalls := hfreshR (show rngR.calls < rngR.calls + 2 by omega)
    (show rngR.calls + 1 < rngR.calls + 2 by omega) heq
  omega

/-! ### Both sides, and the frames on their way -/

/-- The fingerprint that a peer pins. -/
def Identity.fingerprint (identity : Identity) : Fingerprint :=
    Fingerprint.ofSigningKey identity.public.signing

/-- The frames that a handshake is made of. -/
inductive HandshakeFrame where
  | init (bundle : PreKeyBundle)
  | accept (response : HandshakeResponse)
  | ack (ct : RatchetMessage)

/-- A session, and the randomness of its host. -/
structure End where
  session : Session
  rng : RandomSource

/-- What a side does with a frame, and the frames it sends.  Its own offer, while it is out, is held
against the one that comes. -/
def End.handle (e : End) (identity : Identity) : HandshakeFrame → End × List HandshakeFrame
  | .init bundle =>
    let keeps := match e.session.state with
      | .offered _ =>
          keepsOwnOffer identity.fingerprint (some (Fingerprint.ofSigningKey bundle.sik))
      | _ => false
    if keeps = true then (e, [])
    else
      match (e.session.receiveOffer bundle).2.accept identity e.rng with
      | (.ok response, session, rng) => (⟨session, rng⟩, [.accept response])
      | (.error _, session, rng) => (⟨session, rng⟩, [])
  | .accept response =>
    match e.session.receiveAccept identity response e.rng with
    | (.ok (), session, rng) =>
      match session.makeAck with
      | (.ok ct, session) => (⟨session, rng⟩, [.ack ct])
      | (.error _, session) => (⟨session, rng⟩, [])
    | (.error _, session, rng) => (⟨session, rng⟩, [])
  | .ack ct =>
    let (_, session, rng) := e.session.receiveAck ct e.rng
    (⟨session, rng⟩, [])

/-- Both sides, and what is on its way to each. -/
structure Link where
  side : Party → End
  inbox : Party → List HandshakeFrame

namespace Link

/-- Nothing was offered yet. -/
def new (rng : Party → RandomSource) : Link where
  side who := ⟨Session.new, rng who⟩
  inbox _ := []

/-- One side has moved, with frames left to it and frames sent. -/
def moved (l : Link) (who : Party) (e : End) (left sent : List HandshakeFrame) : Link where
  side := Function.update l.side who e
  inbox := Function.update (Function.update l.inbox who left) who.other (l.inbox who.other ++ sent)

section Moved

variable (l : Link) (who : Party) (e : End) (left sent : List HandshakeFrame)

@[simp] theorem moved_side : (l.moved who e left sent).side who = e := Function.update_self _ _ _

@[simp] theorem moved_side_other : (l.moved who e left sent).side who.other = l.side who.other :=
  Function.update_of_ne who.other_ne _ _

@[simp] theorem moved_inbox : (l.moved who e left sent).inbox who = left := by
  unfold moved
  dsimp only
  rw [Function.update_of_ne who.other_ne.symm, Function.update_self]

@[simp] theorem moved_inbox_other :
    (l.moved who e left sent).inbox who.other = l.inbox who.other ++ sent :=
      Function.update_self _ _ _

@[simp] theorem other_moved_side : (l.moved who.other e left sent).side who = l.side who := by
  have h := l.moved_side_other who.other e left sent
  rw [Party.other_other] at h
  exact h

@[simp] theorem other_moved_inbox : (l.moved who.other e left sent).inbox who =
    l.inbox who ++ sent := by
  have h := l.moved_inbox_other who.other e left sent
  rw [Party.other_other] at h
  exact h

end Moved

/-- A side begins, or takes the next frame that is on its way to it. -/
inductive Step (identity : Party → Identity) : Link → Link → Prop where
  | start {l : Link} (who : Party) {bundle : PreKeyBundle} {session : Session}
      {rng : RandomSource} :
      (l.side who).session.state = .idle →
      (l.side who).session.start (identity who) (l.side who).rng = (.ok bundle, session, rng) →
      Step identity l (l.moved who ⟨session, rng⟩ (l.inbox who) [.init bundle])
  | deliver {l : Link} (who : Party) {frame : HandshakeFrame} {rest : List HandshakeFrame} :
      l.inbox who = frame :: rest →
      Step identity l (l.moved who ((l.side who).handle (identity who) frame).1 rest
        ((l.side who).handle (identity who) frame).2)

/-- The runs of so many steps. -/
inductive Run (identity : Party → Identity) (start : Link) : ℕ → Link → Prop where
  | nil : Run identity start 0 start
  | step {n : ℕ} {l l' : Link} : Run identity start n l → Step identity l l' →
      Run identity start (n + 1) l'

end Link

/-! ### How far two sides can be -/

/-- The side's own offer is out. -/
structure Offering (identity : Identity) (e : End) (pending : PendingOffer) : Prop where
  session : e.session = ⟨.offered pending, PeerTrust.new, none⟩
  verified : verifyBundleSignature pending.bundle = .ok ()
  signing : pending.bundle.sik = identity.public.signing
  created : ∃ rng, createOffer identity rng = (.ok pending, e.rng)
  fresh : DrawsApart e.rng 2

/-- The offer of the one side was answered by the other, and what is left of the handshake will
work. -/
structure Answered (identity : Party → Identity) (side : Party → End) (who : Party)
    (pending : PendingOffer)
    (response : HandshakeResponse) (answering completed : Ratchet) (rngI : RandomSource)
    (ack : RatchetMessage) (acknowledged settled : Ratchet) (rngR : RandomSource) : Prop where
  other : (side who.other).session =
    ⟨.awaitingAck answering, ⟨some (identity who).fingerprint, false⟩, some .responder⟩
  signing : response.sik = (identity who.other).public.signing
  completes : completeHandshake (identity who) pending response (side who).rng =
    (.ok completed, rngI)
  acks : completed.encrypt [] = (.ok ack, acknowledged)
  settles : answering.decrypt ack (side who.other).rng = (.ok [], settled, rngR)
  there : Understands acknowledged settled rngR
  back : Understands settled acknowledged rngI

/-- How far two sides are, and how many steps there can still be. -/
inductive Phase (identity : Party → Identity) (l : Link) : ℕ → Prop where
  | idle : (∀ who, (l.side who).session = Session.new ∧ l.inbox who = [] ∧
      DrawsApart (l.side who).rng 4) → Phase identity l 6
  | offered (who : Party) (pending : PendingOffer) : Offering (identity who) (l.side who) pending →
      (l.side who.other).session = Session.new →
      DrawsApart (l.side who.other).rng 4 → l.inbox who = [] →
      l.inbox who.other = [.init pending.bundle] → Phase identity l 5
  | crossed (who : Party) (pending pending' : PendingOffer) {n : ℕ} :
      keepsOwnOffer (identity who).fingerprint (some (identity who.other).fingerprint) = true →
      Offering (identity who) (l.side who) pending →
      Offering (identity who.other) (l.side who.other) pending' →
      (l.inbox who = [.init pending'.bundle] ∧ n = 4 ∨ l.inbox who = [] ∧ n = 3) →
      l.inbox who.other = [.init pending.bundle] → Phase identity l n
  | answered (who : Party) {pending : PendingOffer} {response : HandshakeResponse}
      {answering completed : Ratchet} {rngI : RandomSource} {ack : RatchetMessage}
      {acknowledged settled : Ratchet} {rngR : RandomSource} {n : ℕ} :
      (l.side who).session = ⟨.offered pending, PeerTrust.new, none⟩ →
      Answered identity l.side who pending response answering completed rngI ack acknowledged
        settled rngR →
      (l.inbox who = [.accept response] ∧ n = 2 ∨
        ∃ pending' : PendingOffer, l.inbox who = [.init pending'.bundle, .accept response] ∧ n = 3 ∧
          pending'.bundle.sik = (identity who.other).public.signing ∧
          keepsOwnOffer (identity who).fingerprint (some (identity who.other).fingerprint) = true) →
      l.inbox who.other = [] → Phase identity l n
  | acknowledged (who : Party) (answering : Ratchet) (ack : RatchetMessage)
      {acknowledged settled : Ratchet}
      {rngR : RandomSource} :
      (l.side who).session =
        ⟨.established acknowledged, ⟨some (identity who.other).fingerprint, false⟩,
          some .initiator⟩ →
      (l.side who.other).session =
        ⟨.awaitingAck answering, ⟨some (identity who).fingerprint, false⟩, some .responder⟩ →
      answering.decrypt ack (l.side who.other).rng = (.ok [], settled, rngR) →
      Understands acknowledged settled rngR → Understands settled acknowledged (l.side who).rng →
      l.inbox who = [] → l.inbox who.other = [.ack ack] → Phase identity l 1
  | settled (who : Party) (acknowledged settled : Ratchet) :
      (l.side who).session =
        ⟨.established acknowledged, ⟨some (identity who.other).fingerprint, false⟩,
          some .initiator⟩ →
      (l.side who.other).session =
        ⟨.established settled, ⟨some (identity who).fingerprint, false⟩, some .responder⟩ →
      Understands acknowledged settled (l.side who.other).rng →
      Understands settled acknowledged (l.side who).rng → l.inbox who = [] →
        l.inbox who.other = [] →
      Phase identity l 0

/-! ### What each frame comes to -/

theorem fingerprint_eq {identity : Identity} {bundle : PreKeyBundle}
    (h : bundle.sik = identity.public.signing) :
    Fingerprint.ofSigningKey bundle.sik = identity.fingerprint := congrArg _ h

/-- A new session's offer is out. -/
theorem offering_of_start (working : Working) {identity : Identity} {rng rng' : RandomSource}
    (hfresh : DrawsApart rng 4) {bundle : PreKeyBundle} {session : Session}
    (h : Session.new.start identity rng = (.ok bundle, session, rng')) :
    ∃ pending : PendingOffer, bundle = pending.bundle ∧
      Offering identity ⟨session, rng'⟩ pending := by
  obtain ⟨pending, hcreate, hverified, hsigning⟩ := createOffer_works working identity rng
  unfold Session.start at h
  rw [hcreate] at h
  obtain ⟨hbundle, hrest⟩ := Prod.mk.inj h
  obtain ⟨rfl, rfl⟩ := Prod.mk.inj hrest
  obtain ⟨hrng, -⟩ := createOffer_spec hcreate
  refine ⟨pending, (Except.ok.inj hbundle).symm, rfl, hverified, hsigning, ⟨rng, hcreate⟩, ?_⟩
  rw [hrng]
  exact hfresh.drawn

/-- The peer's offer gives way to one's own. -/
theorem handle_kept {identity peer : Identity} {e : End} {pending pending' : PendingOffer}
    (hsession : e.session = ⟨.offered pending, PeerTrust.new, none⟩)
    (hsigning : pending'.bundle.sik = peer.public.signing)
    (hkeeps : keepsOwnOffer identity.fingerprint (some peer.fingerprint) = true) :
    e.handle identity (.init pending'.bundle) = (e, []) := by
  unfold End.handle
  rw [hsession]
  dsimp only
  rw [fingerprint_eq hsigning, if_pos hkeeps]

/-- An offer is answered by a side that has none out, or gives way. -/
theorem handle_answered {identity peer : Identity} {e : End} {pending : PendingOffer}
    {response : HandshakeResponse} {answering : Ratchet} {rng : RandomSource}
    (hsession : e.session = Session.new ∨ ∃ own, e.session = ⟨.offered own, PeerTrust.new, none⟩ ∧
      keepsOwnOffer identity.fingerprint (some peer.fingerprint) = false)
    (hsigning : pending.bundle.sik = peer.public.signing)
    (haccept : acceptOffer identity pending.bundle e.rng = (.ok (response, answering), rng)) :
    e.handle identity (.init pending.bundle) =
      (⟨⟨.awaitingAck answering, ⟨some peer.fingerprint, false⟩, some .responder⟩, rng⟩,
        [.accept response]) := by
  unfold End.handle Session.accept
  obtain hnew | ⟨own, hown, hgives⟩ := hsession
  · rw [hnew]
    unfold Session.receiveOffer
    dsimp only [Session.new]
    rw [if_neg nofun, haccept, fingerprint_eq hsigning]
    rfl
  · rw [hown]
    unfold Session.receiveOffer
    dsimp only
    rw [fingerprint_eq hsigning, hgives, if_neg nofun, haccept]
    rfl

/-- An answer is completed, and acknowledged. -/
theorem handle_accept {identity : Party → Identity} {l : Link} {who : Party}
    {pending : PendingOffer}
    {response : HandshakeResponse} {answering completed : Ratchet} {rngI : RandomSource}
    {ack : RatchetMessage}
    {acknowledged settled : Ratchet} {rngR : RandomSource}
    (hsession : (l.side who).session = ⟨.offered pending, PeerTrust.new, none⟩)
    (h : Answered identity l.side who pending response answering completed rngI ack acknowledged
      settled rngR) :
    (l.side who).handle (identity who) (.accept response) =
      (⟨⟨.established acknowledged, ⟨some (identity who.other).fingerprint, false⟩,
        some .initiator⟩, rngI⟩,
        [.ack ack]) := by
  have hpinned : Fingerprint.ofSigningKey response.sik = (identity who.other).fingerprint :=
    congrArg _ h.signing
  unfold End.handle Session.receiveAccept
  rw [hsession]
  dsimp only
  rw [h.completes]
  dsimp only [PeerTrust.observe, PeerTrust.new, Session.makeAck, Session.send]
  rw [h.acks, hpinned]

/-- An acknowledgement that is read establishes the session. -/
theorem handle_ack {identity : Identity} {e : End} {trust : PeerTrust} {role : Option Role}
    {answering settled : Ratchet} {ack : RatchetMessage} {rng : RandomSource}
    (hsession : e.session = ⟨.awaitingAck answering, trust, role⟩)
    (h : answering.decrypt ack e.rng = (.ok [], settled, rng)) :
    e.handle identity (.ack ack) = (⟨⟨.established settled, trust, role⟩, rng⟩, []) := by
  unfold End.handle Session.receiveAck
  rw [hsession]
  dsimp only
  rw [h]

/-! ### Runs -/

section Runs

variable {identity : Party → Identity} {l l' : Link} {n : ℕ}

/-- **A side whose offer is out is answered** by the other, whether that one has an offer out or
not. -/
theorem answered_of_offer (ideal : Ideal) (working : Working) (who : Party) {pending : PendingOffer}
    (hoffer : Offering (identity who) (l.side who) pending)
    (hfresh : DrawsApart (l.side who.other).rng 2)
    (hother : (l.side who.other).session = Session.new ∨
      ∃ own, (l.side who.other).session = ⟨.offered own, PeerTrust.new, none⟩ ∧
        keepsOwnOffer (identity who.other).fingerprint (some (identity who).fingerprint) = false)
    (rest : List HandshakeFrame) :
    ∃ response answering completed rngI ack acknowledged settled rngR,
      ((l.side who.other).handle (identity who.other) (.init pending.bundle)).2 =
        [.accept response] ∧
      Answered identity (l.moved who.other
          ((l.side who.other).handle (identity who.other) (.init pending.bundle)).1 rest
            [.accept response]).side
        who pending response answering completed rngI ack acknowledged settled rngR := by
  obtain ⟨rng, hcreate⟩ := hoffer.created
  obtain ⟨response, answering, rngR', haccept, hsik, completed, rngI, hcomplete, ack, acknowledged,
    hack, settled, rngR, hsettle, hthere, hback⟩ :=
    agree ideal working (identity who) (identity who.other) (hoffer.fresh.mono (Nat.le_succ 1))
      hfresh hcreate hoffer.verified
  have hhandle := handle_answered hother hoffer.signing haccept
  refine ⟨response, answering, completed, rngI, ack, acknowledged, settled, rngR, ?_, ?_, hsik, ?_,
    hack, ?_, hthere, hback⟩
  · rw [hhandle]
  · rw [Link.moved_side, hhandle]
  · rw [Link.other_moved_side]
    exact hcomplete
  · rw [Link.moved_side, hhandle]
    exact hsettle

/-- Two sides whose offers are both out, and both on their way. -/
theorem phase_crossed {who : Party}
    (hne : (identity who).fingerprint ≠ (identity who.other).fingerprint)
    (pending pending' : PendingOffer)
    (hoffer : Offering (identity who) (l.side who) pending)
    (hoffer' : Offering (identity who.other) (l.side who.other) pending')
    (hinbox : l.inbox who = [.init pending'.bundle])
    (hinbox' : l.inbox who.other = [.init pending.bundle]) :
    Phase identity l 4 := by
  cases hkeeps : keepsOwnOffer (identity who).fingerprint
    (some (identity who.other).fingerprint) with
  | true =>
    exact Phase.crossed who pending pending' hkeeps hoffer hoffer' (Or.inl ⟨hinbox, rfl⟩)
      hinbox'
  | false =>
    rw [keepsOwnOffer_comm hne, Bool.not_eq_false'] at hkeeps
    rw [← who.other_other] at hoffer hinbox
    have hkept : keepsOwnOffer (identity who.other).fingerprint
        (some (identity who.other.other).fingerprint) = true := by
      rw [who.other_other]
      exact hkeeps
    exact Phase.crossed who.other pending' pending hkept hoffer' hoffer (Or.inl ⟨hinbox', rfl⟩)
      hinbox

theorem Phase.step (ideal : Ideal) (working : Working)
    (hne : ∀ who : Party, (identity who).fingerprint ≠ (identity who.other).fingerprint)
    (h : Phase identity l n) (hstep : Link.Step identity l l') : ∃ m < n, Phase identity l' m := by
  cases h with
  | idle hidle =>
    cases hstep with
    | start who hstate hstart =>
      obtain ⟨hsession, hinbox, hfresh⟩ := hidle who
      obtain ⟨hsession', hinbox', hfresh'⟩ := hidle who.other
      rw [hsession] at hstart
      obtain ⟨pending, rfl, hoffer⟩ := offering_of_start working hfresh hstart
      refine ⟨5, by decide, Phase.offered who pending ?_ ?_ ?_ ?_ ?_⟩
      · rw [Link.moved_side]
        exact hoffer
      · rw [Link.moved_side_other]
        exact hsession'
      · rw [Link.moved_side_other]
        exact hfresh'
      · rw [Link.moved_inbox]
        exact hinbox
      · rw [Link.moved_inbox_other, hinbox']
        rfl
    | deliver who hframes =>
      rw [(hidle who).2.1] at hframes
      cases hframes
  | offered w pending hoffer hother hfresh hinbox hinbox' =>
    cases hstep with
    | start who hstate hstart =>
      obtain rfl | rfl := Party.eq_or_other w who
      · rw [hoffer.session] at hstate
        cases hstate
      · -- the offers cross
        rw [hother] at hstart
        obtain ⟨pending', rfl, hoffer'⟩ := offering_of_start working hfresh hstart
        refine ⟨4, by decide, phase_crossed (hne w) pending pending' ?_ ?_ ?_ ?_⟩
        · rw [Link.other_moved_side]
          exact hoffer
        · rw [Link.moved_side]
          exact hoffer'
        · rw [Link.other_moved_inbox, hinbox]
          rfl
        · rw [Link.moved_inbox]
          exact hinbox'
    | deliver who hframes =>
      obtain rfl | rfl := Party.eq_or_other w who
      · rw [hinbox] at hframes
        cases hframes
      · rw [hinbox'] at hframes
        obtain ⟨rfl, rfl⟩ := List.cons.inj hframes
        obtain ⟨response, answering, completed, rngI, ack, acknowledged, settled, rngR, hsent,
          hanswered⟩ :=
          answered_of_offer ideal working w hoffer (hfresh.mono (by decide)) (Or.inl hother) []
        rw [hsent]
        refine ⟨2, by decide, Phase.answered w ?_ hanswered (Or.inl ⟨?_,
          rfl⟩) (Link.moved_inbox ..)⟩
        · rw [Link.other_moved_side]
          exact hoffer.session
        · rw [Link.other_moved_inbox, hinbox]
          rfl
  | crossed w pending pending' hkeeps hoffer hoffer' hinbox hinbox' =>
    cases hstep with
    | start who hstate hstart =>
      obtain rfl | rfl := Party.eq_or_other w who
      · rw [hoffer.session] at hstate
        cases hstate
      · rw [hoffer'.session] at hstate
        cases hstate
    | deliver who hframes =>
      obtain rfl | rfl := Party.eq_or_other w who
      · -- the side that keeps its offer lets the other one go
        obtain ⟨hone, rfl⟩ | ⟨hnone, -⟩ := hinbox
        · rw [hone] at hframes
          obtain ⟨rfl, rfl⟩ := List.cons.inj hframes
          rw [handle_kept hoffer.session hoffer'.signing hkeeps]
          have hsame : (l.moved who (l.side who) [] []).side = l.side := Function.update_eq_self _ _
          rw [← hsame] at hoffer hoffer'
          refine ⟨3, by decide, Phase.crossed who pending pending' hkeeps hoffer hoffer'
            (Or.inr ⟨Link.moved_inbox .., rfl⟩) ?_⟩
          rw [Link.moved_inbox_other, List.append_nil]
          exact hinbox'
        · rw [hnone] at hframes
          cases hframes
      · -- the other one answers
        rw [hinbox'] at hframes
        obtain ⟨rfl, rfl⟩ := List.cons.inj hframes
        rw [keepsOwnOffer_comm (hne w), Bool.not_eq_true'] at hkeeps
        obtain ⟨response, answering, completed, rngI, ack, acknowledged, settled, rngR, hsent,
          hanswered⟩ :=
          answered_of_offer ideal working w hoffer hoffer'.fresh
            (Or.inr ⟨_, hoffer'.session, hkeeps⟩) []
        rw [hsent]
        have hkept : keepsOwnOffer (identity w).fingerprint (some (identity w.other).fingerprint) =
            true := by
          rw [keepsOwnOffer_comm (hne w), hkeeps]
          rfl
        have hsession := hoffer.session
        rw [← l.other_moved_side w
          ((l.side w.other).handle (identity w.other) (.init _)).1 []
            [.accept response]] at hsession
        obtain ⟨hone, rfl⟩ | ⟨hnone, rfl⟩ := hinbox
        · refine ⟨3, by decide, Phase.answered w hsession hanswered
            (Or.inr ⟨_, ?_, rfl, hoffer'.signing, hkept⟩) (Link.moved_inbox ..)⟩
          rw [Link.other_moved_inbox, hone]
          rfl
        · refine ⟨2, by decide, Phase.answered w hsession hanswered (Or.inl ⟨?_, rfl⟩)
            (Link.moved_inbox ..)⟩
          rw [Link.other_moved_inbox, hnone]
          rfl
  | @answered w pending response answering completed rngI ack acknowledged settled rngR _ hsession
      hanswered
      hinbox hinbox' =>
    cases hstep with
    | start who hstate hstart =>
      obtain rfl | rfl := Party.eq_or_other w who
      · rw [hsession] at hstate
        cases hstate
      · rw [hanswered.other] at hstate
        cases hstate
    | deliver who hframes =>
      obtain rfl | rfl := Party.eq_or_other w who
      · obtain ⟨hone, rfl⟩ | ⟨pending', htwo, rfl, hsigning, hkeeps⟩ := hinbox
        · rw [hone] at hframes
          obtain ⟨rfl, rfl⟩ := List.cons.inj hframes
          rw [handle_accept hsession hanswered]
          refine ⟨1, by decide, Phase.acknowledged who answering ack ?_ ?_ ?_ hanswered.there ?_
            (Link.moved_inbox ..) ?_⟩
          · rw [Link.moved_side]
          · rw [Link.moved_side_other]
            exact hanswered.other
          · rw [Link.moved_side_other]
            exact hanswered.settles
          · rw [Link.moved_side]
            exact hanswered.back
          · rw [Link.moved_inbox_other, hinbox']
            rfl
        · -- an offer that was let go before the answer came
          rw [htwo] at hframes
          obtain ⟨rfl, rfl⟩ := List.cons.inj hframes
          rw [handle_kept hsession hsigning hkeeps]
          have hsame : (l.moved who (l.side who) [.accept response] []).side = l.side :=
            Function.update_eq_self _ _
          rw [← hsame] at hsession hanswered
          refine ⟨2, by decide, Phase.answered who hsession hanswered
            (Or.inl ⟨Link.moved_inbox .., rfl⟩) ?_⟩
          rw [Link.moved_inbox_other, hinbox']
          rfl
      · rw [hinbox'] at hframes
        cases hframes
  | @acknowledged w answering ack acknowledged settled rngR hw hother hsettles hthere hback hinbox
      hinbox' =>
    cases hstep with
    | start who hstate hstart =>
      obtain rfl | rfl := Party.eq_or_other w who
      · rw [hw] at hstate
        cases hstate
      · rw [hother] at hstate
        cases hstate
    | deliver who hframes =>
      obtain rfl | rfl := Party.eq_or_other w who
      · rw [hinbox] at hframes
        cases hframes
      · rw [hinbox'] at hframes
        obtain ⟨rfl, rfl⟩ := List.cons.inj hframes
        rw [handle_ack hother hsettles]
        refine ⟨0, by decide,
          Phase.settled w acknowledged settled ?_ ?_ ?_ ?_ ?_ (Link.moved_inbox ..)⟩
        · rw [Link.other_moved_side]
          exact hw
        · rw [Link.moved_side]
        · rw [Link.moved_side]
          exact hthere
        · rw [Link.other_moved_side]
          exact hback
        · rw [Link.other_moved_inbox, hinbox]
          rfl
  | settled w acknowledged settled hw hother hthere hback hinbox hinbox' =>
    cases hstep with
    | start who hstate hstart =>
      obtain rfl | rfl := Party.eq_or_other w who
      · rw [hw] at hstate
        cases hstate
      · rw [hother] at hstate
        cases hstate
    | deliver who hframes =>
      obtain rfl | rfl := Party.eq_or_other w who
      · rw [hinbox] at hframes
        cases hframes
      · rw [hinbox'] at hframes
        cases hframes

theorem Phase.run (ideal : Ideal) (working : Working)
    (hne : ∀ who : Party, (identity who).fingerprint ≠ (identity who.other).fingerprint)
    {rng : Party → RandomSource}
    (hfresh : ∀ who, DrawsApart (rng who) 4)
    (hrun : Link.Run identity (Link.new rng) n l) : ∃ m, n + m ≤ 6 ∧ Phase identity l m := by
  induction hrun with
  | nil => exact ⟨6, le_rfl, Phase.idle fun who => ⟨rfl, rfl, hfresh who⟩⟩
  | step _ hstep ih =>
    obtain ⟨m, hle, hphase⟩ := ih
    obtain ⟨m', hlt, hphase'⟩ := hphase.step ideal working hne hstep
    exact ⟨m', by omega, hphase'⟩

/-- A side that is established, is so with the other. -/
theorem Phase.pinned (h : Phase identity l n) (who : Party)
    (hestablished : (l.side who).session.isEstablished = true) :
    (l.side who).session.peerFingerprint = some (identity who.other).fingerprint := by
  have hnot : ∀ {session : Session}, (l.side who).session = session →
      session.isEstablished = false → False := by
    intro session hsession hfalse
    rw [hsession, hfalse] at hestablished
    cases hestablished
  cases h with
  | idle hidle => exact (hnot (hidle who).1 rfl).elim
  | offered w _ hoffer hother =>
    obtain rfl | rfl := Party.eq_or_other w who
    · exact (hnot hoffer.session rfl).elim
    · exact (hnot hother rfl).elim
  | crossed w _ _ _ hoffer hoffer' =>
    obtain rfl | rfl := Party.eq_or_other w who
    · exact (hnot hoffer.session rfl).elim
    · exact (hnot hoffer'.session rfl).elim
  | answered w hsession hanswered =>
    obtain rfl | rfl := Party.eq_or_other w who
    · exact (hnot hsession rfl).elim
    · exact (hnot hanswered.other rfl).elim
  | acknowledged w _ _ hw hother =>
    obtain rfl | rfl := Party.eq_or_other w who
    · rw [hw]
      rfl
    · exact (hnot hother rfl).elim
  | settled w _ _ hw hother =>
    obtain rfl | rfl := Party.eq_or_other w who
    · rw [hw]
      rfl
    · rw [hother, Party.other_other]
      rfl

end Runs

/-! ### Two offers in symbols -/

namespace Link

/-- A side begins, if it can. -/
def offer (l : Link) (identity : Party → Identity) (who : Party) : Link :=
  match (l.side who).session.start (identity who) (l.side who).rng with
  | (.ok bundle, session, rng) => l.moved who ⟨session, rng⟩ (l.inbox who) [.init bundle]
  | (.error _, _, _) => l

/-- A side takes what is next, if there is anything. -/
def deliver (l : Link) (identity : Party → Identity) (who : Party) : Link :=
  match l.inbox who with
  | [] => l
  | frame :: rest =>
    l.moved who ((l.side who).handle (identity who) frame).1 rest
      ((l.side who).handle (identity who) frame).2

end Link

/-- What each side draws, in symbols. -/
def drawn : Party → ℕ → Bytes
  | .first, i => 1 :: List.replicate i 0
  | .second, i => 2 :: List.replicate i 0

end ObbyClient.E2ee

import ObbyClient.E2ee.Ratchet

/-!
# X3DH

* `createOffer`, `acceptOffer`, `completeHandshake` — the three steps of a handshake;
* `x3dhSecretInitiator_eq` — both sides come to one secret.
-/

namespace ObbyClient.E2ee

/-- Which side of the handshake a session played. -/
inductive Role where
  | initiator
  | responder
  deriving DecidableEq, Repr

variable [Crypto]

structure IdentityPublic where
  agreement : Key
  signing : Key

structure IdentitySecret where
  agreement : Key
  signing : Key

/-- A long-term identity, whose public half is the secret one's. -/
structure Identity where
  secret : IdentitySecret
  «public» : IdentityPublic
  agreement_eq : «public».agreement = publicKey secret.agreement
  signing_eq : «public».signing = Crypto.verifyingKey secret.signing

namespace Identity

def generate (rng : RandomSource) : Identity × RandomSource :=
  let (agreementSecret, rng) := randomArray rng
  let (signingSecret, rng) := randomArray rng
  ({ secret := ⟨agreementSecret, signingSecret⟩
     «public» := ⟨publicKey agreementSecret, Crypto.verifyingKey signingSecret⟩
     agreement_eq := rfl
     signing_eq := rfl }, rng)

def sign (identity : Identity) (message : Bytes) : Except Error Bytes :=
  match Crypto.trySign identity.secret.signing message with
  | some signature => .ok signature
  | none => .error .invalidSignature

end Identity

structure PreKeyBundle where
  ik : Key
  sik : Key
  spk : Key
  sig : Bytes
  opk : Key

structure HandshakeResponse where
  ik : Key
  sik : Key
  ek : Key
  sig : Bytes
  boot : RatchetMessage

/-- What the offering side keeps until it is answered. -/
structure PendingOffer where
  bundle : PreKeyBundle
  spkSecret : Key
  opkSecret : Key

def createOffer (identity : Identity) (rng : RandomSource) :
    Except Error PendingOffer × RandomSource :=
  let (spkSecret, rng) := randomArray rng
  let (opkSecret, rng) := randomArray rng
  let spkPublic := publicKey spkSecret
  let opkPublic := publicKey opkSecret
  let signed := toBytes identity.public.agreement ++ toBytes spkPublic ++ toBytes opkPublic
  let offer : Except Error PendingOffer := do
    let sig ← identity.sign signed
    return {
      bundle := {
        ik := identity.public.agreement
        sik := identity.public.signing
        spk := spkPublic
        sig := sig
        opk := opkPublic }
      spkSecret := spkSecret
      opkSecret := opkSecret }
  (offer, rng)

def verifySignature (signingPublic : Key) (message signature : Bytes) : Except Error Unit :=
  if Crypto.verifyStrict signingPublic message signature = true then .ok ()
  else .error .invalidSignature

def verifyBundleSignature (bundle : PreKeyBundle) : Except Error Unit :=
  verifySignature bundle.sik (toBytes bundle.ik ++ toBytes bundle.spk ++ toBytes bundle.opk)
    bundle.sig

def x3dhSecretResponder (ownIdentity ownEphemeral peerIdentity peerSignedPrekey
    peerOneTimePrekey : Key) :
    Except Error Key := do
  let dh1 ← diffieHellmanRaw ownIdentity peerSignedPrekey
  let dh2 ← diffieHellmanRaw ownEphemeral peerIdentity
  let dh3 ← diffieHellmanRaw ownEphemeral peerSignedPrekey
  let dh4 ← diffieHellmanRaw ownEphemeral peerOneTimePrekey
  x3dhKdf dh1 dh2 dh3 dh4

def x3dhSecretInitiator (ownSignedPrekey ownIdentity ownOneTimePrekey peerIdentity
    peerEphemeral : Key) :
    Except Error Key := do
  let dh1 ← diffieHellmanRaw ownSignedPrekey peerIdentity
  let dh2 ← diffieHellmanRaw ownIdentity peerEphemeral
  let dh3 ← diffieHellmanRaw ownSignedPrekey peerEphemeral
  let dh4 ← diffieHellmanRaw ownOneTimePrekey peerEphemeral
  x3dhKdf dh1 dh2 dh3 dh4

/-- The responder's ratchet before its first message. -/
def responderRatchet (identity : Identity) (bundle : PreKeyBundle) (ekSecret : Key) :
    Except Error Ratchet := do
  let sk ← x3dhSecretResponder identity.secret.agreement ekSecret bundle.ik bundle.spk bundle.opk
  Ratchet.initAsResponder sk ekSecret (publicKey ekSecret) bundle.spk

def acceptOffer (identity : Identity) (bundle : PreKeyBundle) (rng : RandomSource) :
    Except Error (HandshakeResponse × Ratchet) × RandomSource :=
  match verifyBundleSignature bundle with
  | .error e => (.error e, rng)
  | .ok () =>
    let ((ekSecret, ekPublic), rng) := generateX25519Keypair rng
    let response : Except Error (HandshakeResponse × Ratchet) := do
      let ratchet ← responderRatchet identity bundle ekSecret
      let (boot, ratchet) := ratchet.encrypt []
      let boot ← boot
      let signed := toBytes identity.public.agreement ++ toBytes ekPublic
      let sig ← identity.sign signed
      return ({
        ik := identity.public.agreement
        sik := identity.public.signing
        ek := ekPublic
        sig := sig
        boot := boot }, ratchet)
    (response, rng)

def completeHandshake (identity : Identity) (pending : PendingOffer) (response : HandshakeResponse)
    (rng : RandomSource) : Except Error Ratchet × RandomSource :=
  let agreed : Except Error Key := do
    verifySignature response.sik (toBytes response.ik ++ toBytes response.ek) response.sig
    x3dhSecretInitiator pending.spkSecret identity.secret.agreement pending.opkSecret response.ik
      response.ek
  match agreed with
  | .error e => (.error e, rng)
  | .ok sk =>
    let ratchet := Ratchet.initAsInitiator sk pending.spkSecret pending.bundle.spk
    match ratchet.decrypt response.boot rng with
    | (.error e, _, rng) => (.error e, rng)
    | (.ok _, ratchet, rng) => (.ok ratchet, rng)

/-- **Both sides come to one secret.** -/
theorem x3dhSecretInitiator_eq (ideal : Ideal) (idI idR spk opk ek : Key) :
    x3dhSecretInitiator spk idI opk (publicKey idR) (publicKey ek) =
      x3dhSecretResponder idR ek (publicKey idI) (publicKey spk) (publicKey opk) := by
  unfold x3dhSecretInitiator x3dhSecretResponder
  simp only [diffieHellmanRaw_publicKey ideal]
  rw [ideal.commutes spk idR, ideal.commutes idI ek, ideal.commutes spk ek, ideal.commutes opk ek]

/-! ### What each step leaves -/

theorem createOffer_spec {identity : Identity} {rng rng' : RandomSource} {pending : PendingOffer}
    (h : createOffer identity rng = (.ok pending, rng')) :
    rng' = { rng with calls := rng.calls + 2 } ∧ pending.spkSecret = rng.bytes rng.calls ∧
      pending.bundle.ik = publicKey identity.secret.agreement ∧
      pending.bundle.spk = publicKey pending.spkSecret ∧
      pending.bundle.opk = publicKey pending.opkSecret := by
  unfold createOffer randomArray at h
  dsimp only at h
  obtain ⟨hoffer, rfl⟩ := Prod.mk.inj h
  obtain ⟨sig, -, hpending⟩ := bind_eq_ok.mp hoffer
  obtain rfl := Except.ok.inj hpending
  exact ⟨rfl, rfl, identity.agreement_eq, rfl, rfl⟩

theorem responderRatchet_spec {identity : Identity} {bundle : PreKeyBundle} {ekSecret : Key}
    {r : Ratchet}
    (h : responderRatchet identity bundle ekSecret = .ok r) :
    ∃ sk dh1 dh2 dh3 dh4 shared root chain,
      x3dhSecretResponder identity.secret.agreement ekSecret bundle.ik bundle.spk bundle.opk =
        .ok sk ∧
      x3dhKdf dh1 dh2 dh3 dh4 = .ok sk ∧ diffieHellmanRaw ekSecret bundle.spk = .ok shared ∧
      kdfRoot sk shared = .ok (root, chain) ∧
      r = {
        rootKey := root
        dhsSecret := ekSecret
        dhsPublic := publicKey ekSecret
        dhr := some bundle.spk
        sendChain := some chain
        recvChain := none
        nSend := 0
        nRecv := 0
        prevChainLen := 0
        skipped := SkippedKeys.new } := by
  obtain ⟨sk, hsk, hinit⟩ := bind_eq_ok.mp h
  obtain ⟨dh1, -, hsk1⟩ := bind_eq_ok.mp hsk
  obtain ⟨dh2, -, hsk2⟩ := bind_eq_ok.mp hsk1
  obtain ⟨dh3, -, hsk3⟩ := bind_eq_ok.mp hsk2
  obtain ⟨dh4, -, hkdf⟩ := bind_eq_ok.mp hsk3
  obtain ⟨shared, hshared, hroot⟩ := bind_eq_ok.mp hinit
  obtain ⟨p, hp, hr⟩ := bind_eq_ok.mp hroot
  exact ⟨sk, dh1, dh2, dh3, dh4, shared, p.1, p.2, hsk, hkdf, hshared, hp, (Except.ok.inj hr).symm⟩

theorem acceptOffer_spec {identity : Identity} {bundle : PreKeyBundle} {rng rng' : RandomSource}
    {response : HandshakeResponse} {ratchet : Ratchet}
    (h : acceptOffer identity bundle rng = (.ok (response, ratchet), rng')) :
    rng' = { rng with calls := rng.calls + 1 } ∧
      response.ik = publicKey identity.secret.agreement ∧
      response.ek = publicKey (rng.bytes rng.calls) ∧
      ∃ before, responderRatchet identity bundle (rng.bytes rng.calls) = .ok before ∧
        before.encrypt [] = (.ok response.boot, ratchet) := by
  unfold acceptOffer generateX25519Keypair randomArray at h
  split at h
  · cases (Prod.mk.inj h).1
  · dsimp only at h
    obtain ⟨hresponse, rfl⟩ := Prod.mk.inj h
    obtain ⟨before, hbefore, hrest⟩ := bind_eq_ok.mp hresponse
    obtain ⟨boot, hboot, hrest⟩ := bind_eq_ok.mp hrest
    obtain ⟨sig, -, hrest⟩ := bind_eq_ok.mp hrest
    obtain ⟨rfl, rfl⟩ := Prod.mk.inj (Except.ok.inj hrest)
    exact ⟨rfl, identity.agreement_eq, rfl, before, hbefore, Prod.ext hboot rfl⟩

theorem completeHandshake_spec {identity : Identity} {pending : PendingOffer}
    {response : HandshakeResponse}
    {rng rng' : RandomSource} {ratchet : Ratchet}
    (h : completeHandshake identity pending response rng = (.ok ratchet, rng')) :
    ∃ sk plaintext, x3dhSecretInitiator pending.spkSecret identity.secret.agreement
      pending.opkSecret
        response.ik response.ek = .ok sk ∧
      (Ratchet.initAsInitiator sk pending.spkSecret pending.bundle.spk).decrypt response.boot rng =
        (.ok plaintext, ratchet, rng') := by
  unfold completeHandshake at h
  dsimp only at h
  split at h
  · cases (Prod.mk.inj h).1
  · rename_i sk hagreed
    obtain ⟨-, -, hsk⟩ := bind_eq_ok.mp hagreed
    split at h
    · cases (Prod.mk.inj h).1
    · rename_i plaintext ratchet' rng'' hdecrypt
      obtain ⟨hratchet, rfl⟩ := Prod.mk.inj h
      obtain rfl := Except.ok.inj hratchet
      exact ⟨sk, plaintext, hsk, hdecrypt⟩

/-- No answer to a bundle that its signature is not of. -/
theorem verified_of_acceptOffer {identity : Identity} {bundle : PreKeyBundle}
    {rng rng' : RandomSource}
    {answer : HandshakeResponse × Ratchet}
    (h : acceptOffer identity bundle rng = (.ok answer, rng')) :
    verifyBundleSignature bundle = .ok () := by
  unfold acceptOffer at h
  split at h
  · cases (Prod.mk.inj h).1
  · rename_i hverified
    exact hverified

/-- No session with an answer that its signature is not of. -/
theorem verified_of_completeHandshake {identity : Identity} {pending : PendingOffer}
    {response : HandshakeResponse} {rng rng' : RandomSource} {ratchet : Ratchet}
    (h : completeHandshake identity pending response rng = (.ok ratchet, rng')) :
    verifySignature response.sik (toBytes response.ik ++ toBytes response.ek) response.sig =
      .ok () := by
  unfold completeHandshake at h
  dsimp only at h
  split at h
  · cases (Prod.mk.inj h).1
  · rename_i sk hagreed
    obtain ⟨_, hverified, -⟩ := bind_eq_ok.mp hagreed
    exact hverified

end ObbyClient.E2ee

import ObbyClient.Lib.Utf8

/-!
# What the ratchet is built on

X25519, Ed25519, HKDF, HMAC, SHA-256 and XChaCha20-Poly1305 come from other crates.  They are fields
of `Crypto`, about which nothing is assumed here but that an array is known by its bytes.

* `kdfRoot`, `kdfChain`, `x3dhKdf` — the key derivations;
* `aeadEncrypt`, `aeadDecrypt`, `headerAad` — the cipher, under a key of one message;
* `Ideal` — what the results about runs assume of the primitives.
-/

namespace ObbyClient.E2ee

/-- The functions of other crates. -/
class Crypto where
  /-- A byte array of a length. -/
  Arr : ℕ → Type
  [decidableEq : DecidableEq (Arr 32)]
  /-- An array as a slice. -/
  toBytes : {n : ℕ} → Arr n → Bytes
  toBytes_injective : ∀ {n : ℕ}, Function.Injective (toBytes (n := n))
  /-- Both halves of an array. -/
  splitAt32 : Arr 64 → Arr 32 × Arr 32
  /-- The X25519 public key of a secret. -/
  publicKey : Arr 32 → Arr 32
  /-- X25519 of a secret and a public key. -/
  diffieHellman : Arr 32 → Arr 32 → Arr 32
  /-- Whether what X25519 gave depends on both keys. -/
  wasContributory : Arr 32 → Bool
  /-- HKDF-SHA-256 of a salt, a key and an info, expanded to a length. -/
  hkdf : Bytes → Bytes → Bytes → (n : ℕ) → Option (Arr n)
  /-- HMAC-SHA-256 of data under a key. -/
  hmac : Bytes → Bytes → Option (Arr 32)
  /-- SHA-256. -/
  sha256 : Bytes → Bytes
  /-- XChaCha20-Poly1305 under a key and a nonce, of associated data and a message. -/
  encrypt : Arr 32 → Arr 24 → Bytes → Bytes → Option Bytes
  /-- The inverse, which refuses what does not authenticate. -/
  decrypt : Arr 32 → Arr 24 → Bytes → Bytes → Option Bytes
  /-- The Ed25519 public key of a signing key. -/
  verifyingKey : Arr 32 → Arr 32
  /-- The Ed25519 signature of a message. -/
  trySign : Arr 32 → Bytes → Option Bytes
  /-- Whether a public key and a signature are well formed and the signature is the key's. -/
  verifyStrict : Arr 32 → Bytes → Bytes → Bool

attribute [reducible, instance] Crypto.decidableEq

/-- A `[u8; 32]`: a key of any kind. -/
abbrev Key [Crypto] : Type := Crypto.Arr 32

export Crypto (toBytes publicKey)

/-- A peer's identity: the first sixteen bytes of the hash of its signing key. -/
structure Fingerprint where
  bytes : Bytes
  deriving DecidableEq, Repr

def Fingerprint.ofSigningKey [Crypto] (signingPublic : Key) : Fingerprint :=
  ⟨(Crypto.sha256 (toBytes signingPublic)).take 16⟩

/-- What can go wrong. -/
inductive Error where
  | invalidSignature
  | nonContributoryDh
  | aead
  | padding
  | tooManySkipped
  | counterOverflow
  | noChain
  | fingerprintChanged (previous current : Fingerprint)
  | wrongState
  | fragmentation
  | internal
  deriving DecidableEq, Repr

/-- One jump ahead in a chain is of at most so many messages. -/
def maxSkip : ℕ := 1000

/-- So many keys of messages still to come are held at once. -/
def maxSkippedKeys : ℕ := 2000

/-- Plaintext is padded to a multiple of so many bytes. -/
def padBlock : ℕ := 64

def x3dhInfo : Bytes := Utf8.encode "obby.world/e2ee x3dh"
def rootInfo : Bytes := Utf8.encode "obby.world/e2ee root"
def messageKeyInfo : Bytes := Utf8.encode "obby.world/e2ee message"
def nonceInfo : Bytes := Utf8.encode "obby.world/e2ee nonce"

/-- Thirty-two zero bytes. -/
def zeros : Bytes := List.replicate 32 0

/-! ### Counters -/

/-- One more, unless the counter is at its end. -/
def checkedIncrement (n : UInt32) : Except Error UInt32 :=
  if n.toNat + 1 < UInt32.size then .ok (n + 1) else .error .counterOverflow

/-- A counter as the wire has it, its highest byte first. -/
def toBeBytes (n : UInt32) : Bytes :=
  [(n >>> 24).toUInt8, (n >>> 16).toUInt8, (n >>> 8).toUInt8, n.toUInt8]

theorem checkedIncrement_eq_ok {n m : UInt32} :
    checkedIncrement n = .ok m ↔ m.toNat = n.toNat + 1 := by
  unfold checkedIncrement
  have hbound := m.toNat_lt
  constructor
  · intro h
    split at h
    · rename_i hlt
      obtain rfl := Except.ok.inj h
      rw [UInt32.toNat_add]
      exact Nat.mod_eq_of_lt hlt
    · cases h
  · intro h
    have hlt : n.toNat + 1 < UInt32.size := by
      rw [← h]
      exact hbound
    rw [if_pos hlt]
    refine congrArg Except.ok (UInt32.toNat_inj.mp ?_)
    rw [UInt32.toNat_add, h]
    exact Nat.mod_eq_of_lt hlt

theorem toBeBytes_injective : Function.Injective toBeBytes := by
  intro a b h
  unfold toBeBytes at h
  simp only [List.cons.injEq] at h
  obtain ⟨h24, h16, h8, h0, -⟩ := h
  have e24 := congrArg UInt8.toNat h24
  have e16 := congrArg UInt8.toNat h16
  have e8 := congrArg UInt8.toNat h8
  have e0 := congrArg UInt8.toNat h0
  simp only [UInt32.toNat_toUInt8, UInt32.toNat_shiftRight, Nat.shiftRight_eq_div_pow,
    UInt32.reduceToNat, Nat.reduceMod, Nat.reducePow] at e24 e16 e8 e0
  have ha := a.toNat_lt
  have hb := b.toNat_lt
  apply UInt32.toNat_inj.mp
  omega

theorem bind_eq_ok {α β : Type} {x : Except Error α} {f : α → Except Error β} {b : β} :
    (x >>= f) = .ok b ↔ ∃ a, x = .ok a ∧ f a = .ok b := by
  cases x with
  | error e => exact ⟨nofun, fun ⟨_, h, _⟩ => nomatch h⟩
  | ok a =>
    refine ⟨fun h => ⟨a, rfl, h⟩, ?_⟩
    rintro ⟨_, ⟨⟩, h⟩
    exact h

section Primitives

variable [Crypto]

/-! ### Key derivation -/

def hkdfSha256 (salt ikm info : Bytes) (n : ℕ) : Except Error (Crypto.Arr n) :=
  match Crypto.hkdf salt ikm info n with
  | some out => .ok out
  | none => .error .internal

def hmacSha256 (key : Key) (data : Bytes) : Except Error Key :=
  match Crypto.hmac (toBytes key) data with
  | some mac => .ok mac
  | none => .error .internal

def diffieHellmanRaw (secret peer : Key) : Except Error Key :=
  let shared := Crypto.diffieHellman secret peer
  if Crypto.wasContributory shared = true then .ok shared else .error .nonContributoryDh

/-- The shared secret of a handshake. -/
def x3dhKdf (dh1 dh2 dh3 dh4 : Key) : Except Error Key :=
  hkdfSha256 zeros (toBytes dh1 ++ toBytes dh2 ++ toBytes dh3 ++ toBytes dh4) x3dhInfo 32

/-- The next root key, and the chain it starts. -/
def kdfRoot (rootKey dhOut : Key) : Except Error (Key × Key) := do
  let okm ← hkdfSha256 (toBytes rootKey) (toBytes dhOut) rootInfo 64
  return Crypto.splitAt32 okm

/-- The key of the message at the head of a chain, and the rest of the chain. -/
def kdfChain (chainKey : Key) : Except Error (Key × Key) := do
  let messageKey ← hmacSha256 chainKey [0x01]
  let nextChain ← hmacSha256 chainKey [0x02]
  return (messageKey, nextChain)

/-! ### The cipher -/

def messageAeadParams (messageKey : Key) : Except Error (Key × Crypto.Arr 24) := do
  let key ← hkdfSha256 zeros (toBytes messageKey) messageKeyInfo 32
  let nonce ← hkdfSha256 zeros (toBytes messageKey) nonceInfo 24
  return (key, nonce)

def aeadEncrypt (messageKey : Key) (aad plaintext : Bytes) : Except Error Bytes := do
  let (key, nonce) ← messageAeadParams messageKey
  match Crypto.encrypt key nonce aad plaintext with
  | some ciphertext => .ok ciphertext
  | none => .error .aead

def aeadDecrypt (messageKey : Key) (aad ciphertext : Bytes) : Except Error Bytes := do
  let (key, nonce) ← messageAeadParams messageKey
  match Crypto.decrypt key nonce aad ciphertext with
  | some plaintext => .ok plaintext
  | none => .error .aead

theorem aeadDecrypt_eq {messageKey key : Key} {nonce : Crypto.Arr 24}
    {aad ciphertext plaintext : Bytes}
    (hparams : messageAeadParams messageKey = .ok (key, nonce))
    (h : Crypto.decrypt key nonce aad ciphertext = some plaintext) :
    aeadDecrypt messageKey aad ciphertext = .ok plaintext := by
  refine bind_eq_ok.mpr ⟨_, hparams, ?_⟩
  dsimp only
  rw [h]

theorem aeadDecrypt_spec {messageKey : Key} {aad ciphertext plaintext : Bytes}
    (h : aeadDecrypt messageKey aad ciphertext = .ok plaintext) :
    ∃ key nonce, messageAeadParams messageKey = .ok (key, nonce) ∧
      Crypto.decrypt key nonce aad ciphertext = some plaintext := by
  obtain ⟨p, hparams, hrest⟩ := bind_eq_ok.mp h
  refine ⟨p.1, p.2, hparams, ?_⟩
  dsimp only at hrest
  split at hrest
  · rename_i found hfound
    rw [hfound, Except.ok.inj hrest]
  · cases hrest

/-- A message's header, as the cipher authenticates it. -/
def headerAad (dh : Key) (pn n : UInt32) : Bytes := toBytes dh ++ toBeBytes pn ++ toBeBytes n

theorem headerAad_injective {dh dh' : Key} {pn pn' n n' : UInt32}
    (h : headerAad dh pn n = headerAad dh' pn' n') : dh = dh' ∧ pn = pn' ∧ n = n' := by
  obtain ⟨hrest, hn⟩ := List.append_inj' h rfl
  obtain ⟨hdh, hpn⟩ := List.append_inj' hrest rfl
  exact ⟨Crypto.toBytes_injective hdh, toBeBytes_injective hpn, toBeBytes_injective hn⟩

/-! ### What is assumed of them -/

/-- A way to come by a key. -/
inductive Derivation where
  | x3dh (dh1 dh2 dh3 dh4 : Key)
  | root (rootKey dhOut : Key)
  | chain (rootKey dhOut : Key)
  | message (chainKey : Key)
  | next (chainKey : Key)

/-- The key it gives. -/
def Derivation.key : Derivation → Except Error Key
  | x3dh dh1 dh2 dh3 dh4 => x3dhKdf dh1 dh2 dh3 dh4
  | root rootKey dhOut => (kdfRoot rootKey dhOut).map Prod.fst
  | chain rootKey dhOut => (kdfRoot rootKey dhOut).map Prod.snd
  | message chainKey => (kdfChain chainKey).map Prod.fst
  | next chainKey => (kdfChain chainKey).map Prod.snd

/-- The primitives as they are meant: X25519 commutes and contributes on keys that were generated,
every derivation gives a key and no two give the same, and the cipher opens what it sealed. -/
structure Ideal : Prop where
  commutes (a b : Key) : Crypto.diffieHellman a (publicKey b) = Crypto.diffieHellman b (publicKey a)
  contributes (a b : Key) : Crypto.wasContributory (Crypto.diffieHellman a (publicKey b)) = true
  derives (d : Derivation) : ∃ key, d.key = .ok key
  collisionFree {d d' : Derivation} {key : Key} : d.key = .ok key → d'.key = .ok key → d = d'
  opens {key : Key} {aad plaintext ciphertext : Bytes} :
    aeadEncrypt key aad plaintext = .ok ciphertext → aeadDecrypt key aad ciphertext = .ok plaintext

/-- The key at the head of a chain and the rest of the chain, where the derivation is known to
work. -/
def advance (chainKey : Key) : Key × Key :=
  match kdfChain chainKey with
  | .ok p => p
  | .error _ => (chainKey, chainKey)

theorem kdfChain_eq (ideal : Ideal) (chainKey : Key) : kdfChain chainKey = .ok
    (advance chainKey) := by
  obtain ⟨key, hkey⟩ := ideal.derives (.message chainKey)
  unfold advance
  cases hchain : kdfChain chainKey with
  | ok p => rfl
  | error e =>
    have hfails : (kdfChain chainKey).map Prod.fst = .ok key := hkey
    rw [hchain] at hfails
    cases hfails

theorem key_message (ideal : Ideal) (chainKey : Key) :
    (Derivation.message chainKey).key = .ok (advance chainKey).1 := by
  show (kdfChain chainKey).map Prod.fst = _
  rw [kdfChain_eq ideal]
  rfl

theorem key_next (ideal : Ideal) (chainKey : Key) :
    (Derivation.next chainKey).key = .ok (advance chainKey).2 := by
  show (kdfChain chainKey).map Prod.snd = _
  rw [kdfChain_eq ideal]
  rfl

theorem key_root {rootKey dhOut newRoot newChain : Key}
    (h : kdfRoot rootKey dhOut = .ok (newRoot, newChain)) :
    (Derivation.root rootKey dhOut).key = .ok newRoot := by
  show (kdfRoot rootKey dhOut).map Prod.fst = _
  rw [h]
  rfl

theorem key_chain {rootKey dhOut newRoot newChain : Key}
    (h : kdfRoot rootKey dhOut = .ok (newRoot, newChain)) :
    (Derivation.chain rootKey dhOut).key = .ok newChain := by
  show (kdfRoot rootKey dhOut).map Prod.snd = _
  rw [h]
  rfl

theorem exists_kdfRoot (ideal : Ideal) (rootKey dhOut : Key) :
    ∃ newRoot newChain, kdfRoot rootKey dhOut = .ok (newRoot, newChain) := by
  obtain ⟨key, hkey⟩ := ideal.derives (.root rootKey dhOut)
  cases hroot : kdfRoot rootKey dhOut with
  | ok p => exact ⟨p.1, p.2, rfl⟩
  | error e =>
    have hfails : (kdfRoot rootKey dhOut).map Prod.fst = .ok key := hkey
    rw [hroot] at hfails
    cases hfails

theorem diffieHellmanRaw_publicKey (ideal : Ideal) (a b : Key) :
    diffieHellmanRaw a (publicKey b) = .ok (Crypto.diffieHellman a (publicKey b)) :=
  if_pos (ideal.contributes a b)

/-- Messages and the rest of a chain go on apart. -/
theorem advance_fst_injective (ideal : Ideal) {c c' : Key} (h : (advance c).1 = (advance c').1) :
    c = c' := by
  have hkey := key_message ideal c
  rw [h] at hkey
  exact Derivation.message.inj (ideal.collisionFree hkey (key_message ideal c'))

theorem advance_snd_injective (ideal : Ideal) {c c' : Key} (h : (advance c).2 = (advance c').2) :
    c = c' := by
  have hkey := key_next ideal c
  rw [h] at hkey
  exact Derivation.next.inj (ideal.collisionFree hkey (key_next ideal c'))

/-- A chain so many messages on. -/
def along (chain : Key) (n : ℕ) : Key := (fun c => (advance c).2)^[n] chain

theorem along_zero (chain : Key) : along chain 0 = chain := rfl

theorem along_succ (chain : Key) (n : ℕ) : along chain (n + 1) = (advance (along chain n)).2 :=
  Function.iterate_succ_apply' _ _ _

theorem along_advance (chain : Key) (n : ℕ) : along (advance chain).2 n = along chain (n + 1) :=
  (Function.iterate_succ_apply _ _ _).symm

theorem along_add (chain : Key) (m n : ℕ) : along (along chain m) n = along chain (m + n) := by
  unfold along
  rw [Nat.add_comm, Function.iterate_add_apply]

end Primitives

end ObbyClient.E2ee

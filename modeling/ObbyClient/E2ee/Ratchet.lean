import ObbyClient.E2ee.Padding
import ObbyClient.E2ee.Skipped

/-!
# The Double Ratchet

* `Ratchet` — one side's half of a session;
* `Ratchet.encrypt`, `Ratchet.decrypt`;
* `Ratchet.attempt` — the key that `decrypt` comes to for a message, and the state it would commit;
* `Ratchet.skip_eq`, `Ratchet.dhRatchetReceive_eq` — what the two ways to move a receiving chain
  come to.
-/

namespace ObbyClient.E2ee

variable [Crypto]

/-- What a host fills arrays with, call after call. -/
structure RandomSource where
  bytes : ℕ → Key
  calls : ℕ

def randomArray (rng : RandomSource) : Key × RandomSource :=
  (rng.bytes rng.calls, { rng with calls := rng.calls + 1 })

def generateX25519Keypair (rng : RandomSource) : (Key × Key) × RandomSource :=
  let (secret, rng) := randomArray rng
  ((secret, publicKey secret), rng)

/-- A header, and what the cipher made of the plaintext. -/
structure RatchetMessage where
  dh : Key
  pn : UInt32
  n : UInt32
  ct : Bytes

/-- The header as it is authenticated. -/
def RatchetMessage.aad (msg : RatchetMessage) : Bytes := headerAad msg.dh msg.pn msg.n

structure Ratchet where
  rootKey : Key
  dhsSecret : Key
  dhsPublic : Key
  dhr : Option Key
  sendChain : Option Key
  recvChain : Option Key
  nSend : UInt32
  nRecv : UInt32
  prevChainLen : UInt32
  skipped : SkippedKeys

def decryptWithKey (messageKey : Key) (msg : RatchetMessage) : Except Error Bytes := do
  let padded ← aeadDecrypt messageKey (headerAad msg.dh msg.pn msg.n) msg.ct
  unpad padded

namespace Ratchet

/-- The responder's half, which can send at once. -/
def initAsResponder (rootKey ownEkSecret ownEkPublic theirSpkPublic : Key) :
    Except Error Ratchet := do
  let dhOut ← diffieHellmanRaw ownEkSecret theirSpkPublic
  let (newRoot, sendChain) ← kdfRoot rootKey dhOut
  return {
    rootKey := newRoot
    dhsSecret := ownEkSecret
    dhsPublic := ownEkPublic
    dhr := some theirSpkPublic
    sendChain := some sendChain
    recvChain := none
    nSend := 0
    nRecv := 0
    prevChainLen := 0
    skipped := SkippedKeys.new }

/-- The initiator's half, which waits for the first message. -/
def initAsInitiator (rootKey ownDhsSecret ownDhsPublic : Key) : Ratchet where
  rootKey := rootKey
  dhsSecret := ownDhsSecret
  dhsPublic := ownDhsPublic
  dhr := none
  sendChain := none
  recvChain := none
  nSend := 0
  nRecv := 0
  prevChainLen := 0
  skipped := SkippedKeys.new

/-- One message more, and the state after it; a call that fails keeps what it moved before it
failed. -/
def encrypt (r : Ratchet) (plaintext : Bytes) : Except Error RatchetMessage × Ratchet :=
  match r.sendChain with
  | none => (.error .noChain, r)
  | some chain =>
    match kdfChain chain with
    | .error e => (.error e, r)
    | .ok (messageKey, nextChain) =>
      let r := { r with sendChain := some nextChain }
      let dh := r.dhsPublic
      let pn := r.prevChainLen
      let n := r.nSend
      match checkedIncrement r.nSend with
      | .error e => (.error e, r)
      | .ok nSend =>
        let r := { r with nSend := nSend }
        match aeadEncrypt messageKey (headerAad dh pn n) (pad plaintext) with
        | .error e => (.error e, r)
        | .ok ct => (.ok { dh := dh, pn := pn, n := n, ct := ct }, r)

/-- The loop that stores the keys of messages skipped over. -/
def skipLoop (dhr : Key) : ℕ → SkippedKeys → Key → UInt32 → Except Error
    (SkippedKeys × Key × UInt32)
  | 0, skipped, chain, nRecv => .ok (skipped, chain, nRecv)
  | span + 1, skipped, chain, nRecv => do
    let (messageKey, nextChain) ← kdfChain chain
    let skipped := skipped.insert dhr nRecv messageKey
    let nRecv ← checkedIncrement nRecv
    skipLoop dhr span skipped nextChain nRecv

/-- Advance the receiving chain to a counter, the keys on the way stored. -/
def skipCurrentReceivingChain (r : Ratchet) (upTo : UInt32) : Except Error Ratchet :=
  match r.dhr, r.recvChain with
  | some dhr, some chain =>
    if upTo ≤ r.nRecv then .ok r
    else if maxSkip < (upTo - r.nRecv).toNat then .error .tooManySkipped
    else do
      let (skipped, chain, nRecv) ← skipLoop dhr (upTo - r.nRecv).toNat r.skipped chain r.nRecv
      return { r with skipped := skipped, recvChain := some chain, nRecv := nRecv }
  | _, _ => .ok r

/-- Adopt the peer's new key: a receiving chain against it, then a keypair and a sending chain. -/
def dhRatchetReceive (r : Ratchet) (newDhr : Key) (rng : RandomSource) :
    Except Error Ratchet × RandomSource :=
  let receiving : Except Error (Key × Key) := do
    let dhOut ← diffieHellmanRaw r.dhsSecret newDhr
    kdfRoot r.rootKey dhOut
  match receiving with
  | .error e => (.error e, rng)
  | .ok (rootAfterRecv, recvChain) =>
    let ((dhsSecret, dhsPublic), rng) := generateX25519Keypair rng
    let sending : Except Error (Key × Key) := do
      let dhOut2 ← diffieHellmanRaw dhsSecret newDhr
      kdfRoot rootAfterRecv dhOut2
    match sending with
    | .error e => (.error e, rng)
    | .ok (rootAfterSend, sendChain) =>
      (.ok { r with
        prevChainLen := r.nSend
        nSend := 0
        nRecv := 0
        dhr := some newDhr
        rootKey := rootAfterSend
        recvChain := some recvChain
        dhsSecret := dhsSecret
        dhsPublic := dhsPublic
        sendChain := some sendChain }, rng)

/-- The part of `decrypt` that finds the receiving chain of a message. -/
def follow (r : Ratchet) (msg : RatchetMessage) (rng : RandomSource) :
    Except Error Ratchet × RandomSource :=
  if r.dhr ≠ some msg.dh then
    match r.skipCurrentReceivingChain msg.pn with
    | .error e => (.error e, rng)
    | .ok trial => trial.dhRatchetReceive msg.dh rng
  else (.ok r, rng)

/-- The part of `decrypt` that takes the message's key off the receiving chain. -/
def takeNext (r : Ratchet) (msg : RatchetMessage) : Except Error (Key × Ratchet) := do
  let trial ← r.skipCurrentReceivingChain msg.n
  match trial.recvChain with
  | none => .error .noChain
  | some chain =>
    let (messageKey, nextChain) ← kdfChain chain
    let nRecv ← checkedIncrement trial.nRecv
    return (messageKey, { trial with recvChain := some nextChain, nRecv := nRecv })

/-- One message read, and the state after it: the old one, unless the message authenticates. -/
def decrypt (r : Ratchet) (msg : RatchetMessage) (rng : RandomSource) :
    Except Error Bytes × Ratchet × RandomSource :=
  match r.skipped.take msg.dh msg.n with
  | some (messageKey, skipped) =>
    match decryptWithKey messageKey msg with
    | .error e => (.error e, r, rng)
    | .ok plaintext => (.ok plaintext, { r with skipped := skipped }, rng)
  | none =>
    match r.follow msg rng with
    | (.error e, rng) => (.error e, r, rng)
    | (.ok trial, rng) =>
      match trial.takeNext msg with
      | .error e => (.error e, r, rng)
      | .ok (messageKey, trial) =>
        match decryptWithKey messageKey msg with
        | .error e => (.error e, r, rng)
        | .ok plaintext => (.ok plaintext, trial, rng)

/-- The key that `decrypt` tries a message with, and the state it would then commit. -/
def attempt (r : Ratchet) (msg : RatchetMessage) (rng : RandomSource) :
    Except Error (Key × Ratchet) × RandomSource :=
  match r.skipped.take msg.dh msg.n with
  | some (messageKey, skipped) => (.ok (messageKey, { r with skipped := skipped }), rng)
  | none =>
    match r.follow msg rng with
    | (.error e, rng) => (.error e, rng)
    | (.ok trial, rng) => (trial.takeNext msg, rng)

/-- The key, the header and the ciphertext behind a message that `encrypt` gives in this state. -/
def sealing (r : Ratchet) (msg : RatchetMessage) : Option (Key × Bytes × Bytes) :=
  match r.sendChain with
  | none => none
  | some chain =>
    match kdfChain chain with
    | .error _ => none
    | .ok (messageKey, _) => some (messageKey, msg.aad, msg.ct)

/-- How many messages a message passes over in the chain that it leaves behind. -/
def leaves (r : Ratchet) (msg : RatchetMessage) : ℕ :=
  if r.skipped.byId (msg.dh, msg.n) ≠ none ∨ r.dhr = some msg.dh ∨ r.recvChain = none then 0
  else msg.pn.toNat - r.nRecv.toNat

/-- How many it passes over in its own. -/
def jumps (r : Ratchet) (msg : RatchetMessage) : ℕ :=
  if r.skipped.byId (msg.dh, msg.n) ≠ none then 0
  else if r.dhr = some msg.dh then msg.n.toNat - r.nRecv.toNat
  else msg.n.toNat

/-! ### What the two moves of a receiving chain come to -/

/-- The store after the keys of so many messages went into it. -/
def fill (dhr : Key) : ℕ → SkippedKeys → Key → UInt32 → SkippedKeys
  | 0, skipped, _, _ => skipped
  | span + 1, skipped, chain, n =>
    fill dhr span (skipped.insert dhr n (advance chain).1) (advance chain).2 (n + 1)

theorem skipLoop_eq (ideal : Ideal) (dhr : Key) {span : ℕ} :
    ∀ {skipped : SkippedKeys} {chain : Key} {n upTo : UInt32}, upTo.toNat = n.toNat + span →
      skipLoop dhr span skipped chain n =
        .ok (fill dhr span skipped chain n, along chain span, upTo) := by
  induction span with
  | zero =>
    intro skipped chain n upTo h
    obtain rfl := UInt32.toNat_inj.mp h
    rfl
  | succ span ih =>
    intro skipped chain n upTo h
    have hbound := upTo.toNat_lt
    have hnext : checkedIncrement n = .ok (n + 1) := if_pos (by show _ < 2 ^ 32; omega)
    have hlater : upTo.toNat = (n + 1).toNat + span := by
      rw [checkedIncrement_eq_ok.mp hnext, h]
      omega
    rw [skipLoop, kdfChain_eq ideal]
    show ((checkedIncrement n).bind fun _ => _) = _
    rw [hnext]
    show skipLoop dhr span (skipped.insert dhr n (advance chain).1) (advance chain).2 (n + 1) = _
    rw [ih hlater, along_advance]
    rfl

/-- No chain to advance, or nothing to skip. -/
theorem skip_eq_self {r : Ratchet} {upTo : UInt32} (h : r.recvChain = none ∨ upTo ≤ r.nRecv) :
    r.skipCurrentReceivingChain upTo = .ok r := by
  unfold skipCurrentReceivingChain
  split
  · rename_i hchain
    rw [hchain] at h
    rw [if_pos (h.resolve_left nofun)]
  · rfl

/-- **What skipping ahead comes to.** -/
theorem skip_eq (ideal : Ideal) {r : Ratchet} {dhr chain : Key} {upTo : UInt32}
    (hdhr : r.dhr = some dhr)
    (hchain : r.recvChain = some chain) (hahead : r.nRecv.toNat < upTo.toNat) :
    r.skipCurrentReceivingChain upTo =
      if maxSkip < upTo.toNat - r.nRecv.toNat then .error .tooManySkipped
      else .ok { r with
        skipped := fill dhr (upTo.toNat - r.nRecv.toNat) r.skipped chain r.nRecv
        recvChain := some (along chain (upTo.toNat - r.nRecv.toNat))
        nRecv := upTo } := by
  have hle : r.nRecv ≤ upTo := UInt32.le_iff_toNat_le.mpr hahead.le
  have hnot : ¬ upTo ≤ r.nRecv := fun h => absurd (UInt32.le_iff_toNat_le.mp h) (not_le.mpr hahead)
  have hspan : upTo.toNat = r.nRecv.toNat + (upTo.toNat - r.nRecv.toNat) := by omega
  unfold skipCurrentReceivingChain
  rw [hdhr, hchain]
  dsimp only
  rw [if_neg hnot, UInt32.toNat_sub_of_le _ _ hle]
  split
  · rfl
  · rw [skipLoop_eq ideal dhr hspan]
    rfl

/-- Skipping moves nothing but the receiving chain. -/
theorem skip_spec (ideal : Ideal) {r trial : Ratchet} {upTo : UInt32}
    (h : r.skipCurrentReceivingChain upTo = .ok trial) :
    trial.rootKey = r.rootKey ∧ trial.dhsSecret = r.dhsSecret ∧
      (r.recvChain = none → trial.recvChain = none) ∧
      (∀ dhr chain, r.dhr = some dhr → r.recvChain = some chain →
        trial.nRecv.toNat = max r.nRecv.toNat upTo.toNat ∧
          trial.recvChain = some (along chain (trial.nRecv.toNat - r.nRecv.toNat))) := by
  by_cases hself : r.recvChain = none ∨ upTo ≤ r.nRecv
  · rw [skip_eq_self hself] at h
    obtain rfl := Except.ok.inj h
    refine ⟨rfl, rfl, id, ?_⟩
    intro dhr chain _ hchain
    rw [hchain] at hself
    refine ⟨(max_eq_left (UInt32.le_iff_toNat_le.mp (hself.resolve_left nofun))).symm, ?_⟩
    rw [Nat.sub_self]
    exact hchain
  · rw [not_or] at hself
    obtain ⟨chain, hchain⟩ := Option.ne_none_iff_exists'.mp hself.1
    have hahead : r.nRecv.toNat < upTo.toNat := by
      by_contra hle
      exact hself.2 (UInt32.le_iff_toNat_le.mpr (not_lt.mp hle))
    cases hdhr : r.dhr with
    | none =>
      unfold skipCurrentReceivingChain at h
      rw [hdhr] at h
      obtain rfl := Except.ok.inj h
      exact ⟨rfl, rfl, id, nofun⟩
    | some dhr =>
      rw [skip_eq ideal hdhr hchain hahead] at h
      split at h
      · cases h
      · obtain rfl := Except.ok.inj h
        refine ⟨rfl, rfl, fun hnone => absurd hnone hself.1, ?_⟩
        intro _ chain' _ hchain'
        rw [hchain] at hchain'
        obtain rfl := Option.some.inj hchain'
        exact ⟨(max_eq_right hahead.le).symm, rfl⟩

/-- Taking a message's key off the chain, once the chain is at the message. -/
theorem takeNext_eq (ideal : Ideal) {r head : Ratchet} {msg : RatchetMessage} {chain : Key}
    {n : UInt32}
    (hskip : r.skipCurrentReceivingChain msg.n = .ok head) (hchain : head.recvChain = some chain)
    (hn : checkedIncrement head.nRecv = .ok n) :
    r.takeNext msg =
      .ok ((advance chain).1, { head with recvChain := some (advance chain).2, nRecv := n }) := by
  unfold takeNext
  refine bind_eq_ok.mpr ⟨head, hskip, ?_⟩
  rw [hchain]
  exact bind_eq_ok.mpr ⟨_, kdfChain_eq ideal chain, bind_eq_ok.mpr ⟨_, hn, rfl⟩⟩

theorem takeNext_spec (ideal : Ideal) {r trial : Ratchet} {msg : RatchetMessage} {key : Key}
    (h : r.takeNext msg = .ok (key, trial)) :
    ∃ head chain, r.skipCurrentReceivingChain msg.n = .ok head ∧ head.recvChain = some chain ∧
      key = (advance chain).1 := by
  unfold takeNext at h
  obtain ⟨head, hskip, h⟩ := bind_eq_ok.mp h
  split at h
  · cases h
  · rename_i chain hchain
    obtain ⟨p, hp, h⟩ := bind_eq_ok.mp h
    obtain ⟨n, -, h⟩ := bind_eq_ok.mp h
    rw [kdfChain_eq ideal] at hp
    obtain rfl := Except.ok.inj hp
    obtain ⟨hkey, -⟩ := Prod.mk.inj (Except.ok.inj h)
    exact ⟨head, chain, hskip, hchain, hkey.symm⟩

/-- **What adopting a key comes to**, once both agreements contribute. -/
theorem dhRatchetReceive_eq {r : Ratchet}
    {newDhr shared rootAfterRecv recvChain shared2 rootAfterSend
    sendChain : Key} {rng : RandomSource} (hshared : diffieHellmanRaw r.dhsSecret newDhr =
      .ok shared)
    (hroot : kdfRoot r.rootKey shared = .ok (rootAfterRecv, recvChain))
    (hshared2 : diffieHellmanRaw (rng.bytes rng.calls) newDhr = .ok shared2)
    (hroot2 : kdfRoot rootAfterRecv shared2 = .ok (rootAfterSend, sendChain)) :
    r.dhRatchetReceive newDhr rng =
      (.ok { r with
        prevChainLen := r.nSend
        nSend := 0
        nRecv := 0
        dhr := some newDhr
        rootKey := rootAfterSend
        recvChain := some recvChain
        dhsSecret := rng.bytes rng.calls
        dhsPublic := publicKey (rng.bytes rng.calls)
        sendChain := some sendChain }, { rng with calls := rng.calls + 1 }) := by
  have hreceiving : (do
      let dhOut ← diffieHellmanRaw r.dhsSecret newDhr
      kdfRoot r.rootKey dhOut) = .ok (rootAfterRecv, recvChain) :=
        bind_eq_ok.mpr ⟨_, hshared, hroot⟩
  have hsending : (do
      let dhOut2 ← diffieHellmanRaw (rng.bytes rng.calls) newDhr
      kdfRoot rootAfterRecv dhOut2) = .ok (rootAfterSend, sendChain) :=
    bind_eq_ok.mpr ⟨_, hshared2, hroot2⟩
  unfold dhRatchetReceive
  rw [hreceiving]
  unfold generateX25519Keypair randomArray
  dsimp only
  rw [hsending]

/-- The chain of a key that was adopted, whatever key it was. -/
theorem dhRatchetReceive_spec {r trial : Ratchet} {newDhr : Key} {rng rng' : RandomSource}
    (h : r.dhRatchetReceive newDhr rng = (.ok trial, rng')) :
    ∃ shared rootAfterRecv recvChain, kdfRoot r.rootKey shared = .ok (rootAfterRecv, recvChain) ∧
      trial.recvChain = some recvChain ∧ trial.nRecv = 0 ∧ trial.dhr = some newDhr := by
  unfold dhRatchetReceive at h
  dsimp only at h
  split at h
  · cases (Prod.mk.inj h).1
  · rename_i rootAfterRecv recvChain hreceiving
    obtain ⟨shared, -, hroot⟩ := bind_eq_ok.mp hreceiving
    split at h
    · cases (Prod.mk.inj h).1
    · obtain rfl := Except.ok.inj (Prod.mk.inj h).1
      exact ⟨shared, rootAfterRecv, recvChain, hroot, rfl, rfl, rfl⟩

/-- At most one keypair is drawn, and the host's bytes stay what they are. -/
theorem dhRatchetReceive_rng {r : Ratchet} {newDhr : Key} {rng : RandomSource} :
    (r.dhRatchetReceive newDhr rng).2.bytes = rng.bytes ∧
      rng.calls ≤ (r.dhRatchetReceive newDhr rng).2.calls := by
  unfold dhRatchetReceive generateX25519Keypair randomArray
  dsimp only
  split
  · exact ⟨rfl, le_rfl⟩
  · split
    · exact ⟨rfl, Nat.le_succ _⟩
    · exact ⟨rfl, Nat.le_succ _⟩

theorem follow_same {r : Ratchet} {msg : RatchetMessage} (rng : RandomSource)
    (h : r.dhr = some msg.dh) : r.follow msg rng = (.ok r, rng) := if_neg (not_not.mpr h)

theorem follow_new {r head : Ratchet} {msg : RatchetMessage} (rng : RandomSource)
    (h : r.dhr ≠ some msg.dh) (hskip : r.skipCurrentReceivingChain msg.pn = .ok head) :
    r.follow msg rng = head.dhRatchetReceive msg.dh rng := by
  unfold follow
  rw [if_pos h, hskip]

theorem attempt_of_follow {r head : Ratchet} {msg : RatchetMessage} {rng rng' : RandomSource}
    (htake : r.skipped.take msg.dh msg.n = none) (h : r.follow msg rng = (.ok head, rng')) :
    r.attempt msg rng = (head.takeNext msg, rng') := by
  unfold attempt
  rw [htake]
  dsimp only
  rw [h]

/-- Where the key of an attempt is from. -/
theorem attempt_spec {r trial : Ratchet} {msg : RatchetMessage} {rng rng' : RandomSource}
    {key : Key}
    (h : r.attempt msg rng = (.ok (key, trial), rng')) :
    r.skipped.byId (msg.dh, msg.n) = some key ∨
      ∃ head, r.follow msg rng = (.ok head, rng') ∧ head.takeNext msg = .ok (key, trial) := by
  unfold attempt at h
  split at h
  · rename_i htake
    obtain ⟨rfl, -⟩ := Prod.mk.inj (Except.ok.inj (Prod.mk.inj h).1)
    exact Or.inl (SkippedKeys.take_eq_some htake).1
  · split at h
    · cases (Prod.mk.inj h).1
    · rename_i head rng'' hfollow
      obtain ⟨hnext, rfl⟩ := Prod.mk.inj h
      exact Or.inr ⟨head, hfollow, hnext⟩

/-- A chain that is followed is the one being received, or starts at the key of the message. -/
theorem follow_spec {r head : Ratchet} {msg : RatchetMessage} {rng rng' : RandomSource}
    (h : r.follow msg rng = (.ok head, rng')) :
    r.dhr = some msg.dh ∧ head = r ∨
      ∃ left, r.skipCurrentReceivingChain msg.pn = .ok left ∧
        left.dhRatchetReceive msg.dh rng = (.ok head, rng') := by
  unfold follow at h
  split at h
  · split at h
    · cases (Prod.mk.inj h).1
    · rename_i left hskip
      exact Or.inr ⟨left, hskip, h⟩
  · rename_i hsame
    exact Or.inl ⟨not_not.mp hsame, (Except.ok.inj (Prod.mk.inj h).1).symm⟩

theorem attempt_rng (r : Ratchet) (msg : RatchetMessage) (rng : RandomSource) :
    (r.attempt msg rng).2.bytes = rng.bytes ∧ rng.calls ≤ (r.attempt msg rng).2.calls := by
  have hfollow : (r.follow msg rng).2.bytes = rng.bytes ∧
      rng.calls ≤ (r.follow msg rng).2.calls := by
    unfold follow
    split
    · split
      · exact ⟨rfl, le_rfl⟩
      · exact dhRatchetReceive_rng
    · exact ⟨rfl, le_rfl⟩
  unfold attempt
  split
  · exact ⟨rfl, le_rfl⟩
  · split
    · rename_i heq
      rw [heq] at hfollow
      exact hfollow
    · rename_i heq
      rw [heq] at hfollow
      exact hfollow

/-- A message that is refused changes nothing. -/
theorem decrypt_error {r r' : Ratchet} {msg : RatchetMessage} {rng rng' : RandomSource} {e : Error}
    (h : r.decrypt msg rng = (.error e, r', rng')) : r' = r := by
  unfold decrypt at h
  split at h
  · split at h
    · exact (Prod.mk.inj (Prod.mk.inj h).2).1.symm
    · cases (Prod.mk.inj h).1
  · split at h
    · exact (Prod.mk.inj (Prod.mk.inj h).2).1.symm
    · split at h
      · exact (Prod.mk.inj (Prod.mk.inj h).2).1.symm
      · split at h
        · exact (Prod.mk.inj (Prod.mk.inj h).2).1.symm
        · cases (Prod.mk.inj h).1

/-- **Reading a message** is an attempt, committed only if the message authenticates under the key
the attempt came to. -/
theorem decrypt_of_attempt_ok {r trial : Ratchet} {msg : RatchetMessage} {rng rng' : RandomSource}
    {key : Key} (h : r.attempt msg rng = (.ok (key, trial), rng')) {plaintext : Bytes}
    (hopen : decryptWithKey key msg = .ok plaintext) :
    r.decrypt msg rng = (.ok plaintext, trial, rng') := by
  unfold attempt at h
  unfold decrypt
  split at h
  · obtain ⟨hok, rfl⟩ := Prod.mk.inj h
    obtain ⟨rfl, rfl⟩ := Prod.mk.inj (Except.ok.inj hok)
    rw [hopen]
  · split at h
    · cases (Prod.mk.inj h).1
    · obtain ⟨hok, rfl⟩ := Prod.mk.inj h
      rw [hok]
      dsimp only
      rw [hopen]

/-- A message that the key found for it does not open is refused. -/
theorem decrypt_of_closed {r : Ratchet} {msg : RatchetMessage} {rng : RandomSource}
    (h : ∀ key trial rng', r.attempt msg rng = (.ok (key, trial), rng') →
      ∃ e, decryptWithKey key msg = .error e) :
    ∃ e, r.decrypt msg rng = (.error e, r, (r.attempt msg rng).2) := by
  unfold attempt at h ⊢
  unfold decrypt
  split
  · rename_i key skipped htake
    rw [htake] at h
    obtain ⟨e, he⟩ := h _ _ _ rfl
    refine ⟨e, ?_⟩
    rw [he]
  · rename_i htake
    rw [htake] at h
    split
    · exact ⟨_, rfl⟩
    · rename_i trial rng' hfollow
      rw [hfollow] at h
      cases hnext : trial.takeNext msg with
      | error e => exact ⟨e, rfl⟩
      | ok p =>
        obtain ⟨e, he⟩ := h p.1 p.2 rng' (congrArg (·, rng') hnext)
        refine ⟨e, ?_⟩
        dsimp only
        rw [he]

/-- **Sending** moves nothing but the sending chain, and a call that fails may move it too. -/
theorem encrypt_cases (ideal : Ideal) (r : Ratchet) (plaintext : Bytes) :
    (r.sendChain = none ∧ r.encrypt plaintext = (.error .noChain, r)) ∨
      ∃ chain, r.sendChain = some chain ∧
        ((¬ r.nSend.toNat + 1 < UInt32.size ∧ ∃ e, r.encrypt plaintext =
            (.error e, { r with sendChain := some (advance chain).2 })) ∨
          ∃ n, checkedIncrement r.nSend = .ok n ∧
            ((∃ e, r.encrypt plaintext =
                (.error e, { r with sendChain := some (advance chain).2, nSend := n })) ∨
              ∃ msg : RatchetMessage, r.encrypt plaintext =
                  (.ok msg, { r with sendChain := some (advance chain).2, nSend := n }) ∧
                msg.dh = r.dhsPublic ∧ msg.pn = r.prevChainLen ∧ msg.n = r.nSend ∧
                aeadEncrypt (advance chain).1 msg.aad (pad plaintext) = .ok msg.ct ∧
                r.sealing msg = some ((advance chain).1, msg.aad, msg.ct))) := by
  cases hchain : r.sendChain with
  | none =>
    refine Or.inl ⟨rfl, ?_⟩
    unfold encrypt
    rw [hchain]
  | some chain =>
    refine Or.inr ⟨chain, rfl, ?_⟩
    unfold encrypt sealing
    rw [hchain]
    dsimp only
    rw [kdfChain_eq ideal]
    dsimp only
    cases hn : checkedIncrement r.nSend with
    | error e =>
      refine Or.inl ⟨?_, e, rfl⟩
      intro hlt
      rw [checkedIncrement, if_pos hlt] at hn
      cases hn
    | ok n =>
      refine Or.inr ⟨n, rfl, ?_⟩
      dsimp only
      cases hct : aeadEncrypt (advance chain).1 (headerAad r.dhsPublic r.prevChainLen r.nSend)
          (pad plaintext) with
      | error e => exact Or.inl ⟨e, rfl⟩
      | ok ct => exact Or.inr ⟨_, rfl, rfl, rfl, rfl, hct, rfl⟩

/-- What a call that succeeds sends, and from where. -/
theorem encrypt_ok (ideal : Ideal) {r r' : Ratchet} {plaintext : Bytes} {msg : RatchetMessage}
    (h : r.encrypt plaintext = (.ok msg, r')) :
    ∃ chain, r.sendChain = some chain ∧ msg.n = r.nSend ∧
      aeadEncrypt (advance chain).1 msg.aad (pad plaintext) = .ok msg.ct ∧
      r.sealing msg = some ((advance chain).1, msg.aad, msg.ct) := by
  obtain ⟨-, heq⟩ | ⟨chain, hchain, ⟨-, e, heq⟩ | ⟨n, -, ⟨e, heq⟩ | ⟨msg', heq, -, -, hn, hct⟩⟩⟩ :=
    r.encrypt_cases ideal plaintext
  · rw [heq] at h
    cases (Prod.mk.inj h).1
  · rw [heq] at h
    cases (Prod.mk.inj h).1
  · rw [heq] at h
    cases (Prod.mk.inj h).1
  · rw [heq] at h
    obtain rfl := Except.ok.inj (Prod.mk.inj h).1
    exact ⟨chain, hchain, hn, hct⟩

/-- What a skip refuses. -/
theorem span_le_of_skip (ideal : Ideal) {r trial : Ratchet} {upTo : UInt32} {dhr chain : Key}
    (h : r.skipCurrentReceivingChain upTo = .ok trial) (hdhr : r.dhr = some dhr)
    (hchain : r.recvChain = some chain) : upTo.toNat - r.nRecv.toNat ≤ maxSkip := by
  by_cases hahead : r.nRecv.toNat < upTo.toNat
  · rw [skip_eq ideal hdhr hchain hahead] at h
    split at h
    · cases h
    · rename_i hle
      exact not_lt.mp hle
  · rw [Nat.sub_eq_zero_of_le (not_lt.mp hahead)]
    exact Nat.zero_le _

/-- **An attempt that comes to a key** passed over no more than the code allows. -/
theorem bounds_of_attempt (ideal : Ideal) {r trial : Ratchet} {msg : RatchetMessage}
    {rng rng' : RandomSource} {key : Key} (hdhr : r.recvChain ≠ none → r.dhr ≠ none)
    (h : r.attempt msg rng = (.ok (key, trial), rng')) :
    r.leaves msg ≤ maxSkip ∧ r.jumps msg ≤ maxSkip := by
  unfold leaves jumps
  by_cases hstored : r.skipped.byId (msg.dh, msg.n) ≠ none
  · rw [if_pos (Or.inl hstored), if_pos hstored]
    exact ⟨Nat.zero_le _, Nat.zero_le _⟩
  · obtain hkey | ⟨head, hfollow, hnext⟩ := attempt_spec h
    · rw [hkey] at hstored
      exact absurd nofun hstored
    · obtain ⟨last, chain, hskip, hlast, -⟩ := takeNext_spec ideal hnext
      rw [if_neg hstored]
      obtain ⟨hsame, rfl⟩ | ⟨left, hleft, hadopt⟩ := follow_spec hfollow
      · rw [if_pos (Or.inr (Or.inl hsame)), if_pos hsame]
        refine ⟨Nat.zero_le _, ?_⟩
        cases hchain : head.recvChain with
        | none =>
          rw [(skip_spec ideal hskip).2.2.1 hchain] at hlast
          cases hlast
        | some start => exact span_le_of_skip ideal hskip hsame hchain
      · obtain ⟨-, -, start, -, hstart, hzero, hnew⟩ := dhRatchetReceive_spec hadopt
        have hjump := span_le_of_skip ideal hskip hnew hstart
        rw [hzero] at hjump
        refine ⟨?_, ?_⟩
        · split
          · exact Nat.zero_le _
          · rename_i hnot
            rw [not_or, not_or] at hnot
            obtain ⟨start, hchain⟩ := Option.ne_none_iff_exists'.mp hnot.2.2
            obtain ⟨dhr, hdhr⟩ := Option.ne_none_iff_exists'.mp (hdhr hnot.2.2)
            exact span_le_of_skip ideal hleft hdhr hchain
        · split
          · exact (Nat.sub_le _ _).trans hjump
          · exact hjump

end Ratchet

end ObbyClient.E2ee

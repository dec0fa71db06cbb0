import ObbyClient.E2ee.Ratchet
import ObbyClient.E2ee.Symbols

/-!
# No message key is used twice

One ratchet, from its construction on, and whatever its owner has it encrypt and decrypt.

* `Ledger` — the ratchet, with the sending chains it derived and the keys it handed to the cipher;
* `Ratchet.decrypt_sending` — what reading a message does to the sending side;
* `Ledger.Sound` — the chains are at places not used yet;
* `Ledger.never_reuses` — no place of a chain is used twice.
-/

namespace ObbyClient.E2ee

variable [Crypto]

/-! ### Places of a chain -/

/-- The chain key so many messages on. -/
def chainKeyAt (chain : Key) : ℕ → Except Error Key
  | 0 => .ok chain
  | n + 1 => do
    let chainKey ← chainKeyAt chain n
    let (_, nextChain) ← kdfChain chainKey
    return nextChain

/-- The message key at a place. -/
def messageKeyAt (chain : Key) (n : ℕ) : Except Error Key := do
  let chainKey ← chainKeyAt chain n
  let (messageKey, _) ← kdfChain chainKey
  return messageKey

theorem chainKeyAt_succ {chain chainKey messageKey nextChain : Key} {n : ℕ}
    (h : chainKeyAt chain n = .ok chainKey)
    (hstep : kdfChain chainKey = .ok (messageKey, nextChain)) :
    chainKeyAt chain (n + 1) = .ok nextChain :=
  bind_eq_ok.mpr ⟨chainKey, h, bind_eq_ok.mpr ⟨_, hstep, rfl⟩⟩

theorem messageKeyAt_eq {chain chainKey messageKey nextChain : Key} {n : ℕ}
    (h : chainKeyAt chain n = .ok chainKey)
    (hstep : kdfChain chainKey = .ok (messageKey, nextChain)) :
    messageKeyAt chain n = .ok messageKey :=
  bind_eq_ok.mpr ⟨chainKey, h, bind_eq_ok.mpr ⟨_, hstep, rfl⟩⟩

/-- The chain starts with an agreement between a secret and some key of the peer's. -/
def DerivedFrom (secret chain : Key) : Prop :=
  ∃ peer root shared next, diffieHellmanRaw secret peer = .ok shared ∧
    kdfRoot root shared = .ok (next, chain)

namespace Ratchet

/-- The header's key and counter, and the message key, that `encrypt` hands to the cipher in this
state. -/
def spends (r : Ratchet) : Option (Key × UInt32 × Key) :=
  match r.sendChain with
  | none => none
  | some chain =>
    match kdfChain chain with
    | .error _ => none
    | .ok (messageKey, _) =>
      match checkedIncrement r.nSend with
      | .error _ => none
      | .ok _ => some (r.dhsPublic, r.nSend, messageKey)

/-- Whether a message makes `decrypt` draw a key pair, should it be read. -/
def adopts (r : Ratchet) (msg : RatchetMessage) : Prop :=
  r.skipped.byId (msg.dh, msg.n) = none ∧ r.dhr ≠ some msg.dh

instance (r : Ratchet) (msg : RatchetMessage) : Decidable (r.adopts msg) :=
  inferInstanceAs (Decidable (r.skipped.byId (msg.dh, msg.n) = none ∧ r.dhr ≠ some msg.dh))

/-- What `encrypt` does where it hands nothing to the cipher: at most, the chain moves at a counter
that is at its end. -/
theorem encrypt_of_spends_none {r : Ratchet} (h : r.spends = none) (plaintext : Bytes) :
    ∃ e, r.encrypt plaintext = (.error e, r) ∨
      ∃ chain messageKey nextChain, r.sendChain = some chain ∧
        kdfChain chain = .ok (messageKey, nextChain) ∧ ¬ r.nSend.toNat + 1 < UInt32.size ∧
        r.encrypt plaintext = (.error e, { r with sendChain := some nextChain }) := by
  unfold spends at h
  unfold encrypt
  cases hchain : r.sendChain with
  | none => exact ⟨_, Or.inl rfl⟩
  | some chain =>
    rw [hchain] at h
    dsimp only at h ⊢
    cases hstep : kdfChain chain with
    | error e => exact ⟨e, Or.inl rfl⟩
    | ok p =>
      rw [hstep] at h
      dsimp only at h ⊢
      cases hn : checkedIncrement r.nSend with
      | error e =>
        refine ⟨e, Or.inr ⟨chain, p.1, p.2, rfl, hstep, ?_, rfl⟩⟩
        intro hlt
        rw [checkedIncrement, if_pos hlt] at hn
        cases hn
      | ok n =>
        rw [hn] at h
        cases h

/-- What it does where it hands a key to the cipher: the chain moves on past the place of that key,
whatever the cipher makes of it. -/
theorem encrypt_of_spends {r : Ratchet} {dh messageKey : Key} {n : UInt32}
    (h : r.spends = some (dh, n, messageKey)) (plaintext : Bytes) :
    dh = r.dhsPublic ∧ n = r.nSend ∧ ∃ chain nextChain nSend, r.sendChain = some chain ∧
      kdfChain chain = .ok (messageKey, nextChain) ∧ checkedIncrement r.nSend = .ok nSend ∧
      (r.encrypt plaintext).2 = { r with sendChain := some nextChain, nSend := nSend } ∧
      ∀ msg, (r.encrypt plaintext).1 = .ok msg → msg.dh = dh ∧ msg.n = n ∧
        aeadEncrypt messageKey msg.aad (pad plaintext) = .ok msg.ct := by
  unfold spends at h
  unfold encrypt
  cases hchain : r.sendChain with
  | none =>
    rw [hchain] at h
    cases h
  | some chain =>
    rw [hchain] at h
    dsimp only at h ⊢
    cases hstep : kdfChain chain with
    | error e =>
      rw [hstep] at h
      cases h
    | ok p =>
      rw [hstep] at h
      dsimp only at h ⊢
      cases hn : checkedIncrement r.nSend with
      | error e =>
        rw [hn] at h
        cases h
      | ok nSend =>
        rw [hn] at h
        cases h
        refine ⟨rfl, rfl, chain, p.2, nSend, rfl, hstep, rfl, ?_⟩
        dsimp only
        cases hct : aeadEncrypt p.1 (headerAad r.dhsPublic r.prevChainLen r.nSend)
          (pad plaintext) with
        | error e => exact ⟨rfl, nofun⟩
        | ok ct =>
          refine ⟨rfl, ?_⟩
          intro msg hmsg
          obtain rfl := Except.ok.inj hmsg
          exact ⟨rfl, rfl, hct⟩

/-- The part of a ratchet that `encrypt` works with. -/
def SameSending (r r' : Ratchet) : Prop :=
  r'.dhsPublic = r.dhsPublic ∧ r'.sendChain = r.sendChain ∧ r'.nSend = r.nSend

theorem skip_sending {r r' : Ratchet} {upTo : UInt32}
    (h : r.skipCurrentReceivingChain upTo = .ok r') :
    SameSending r r' := by
  unfold skipCurrentReceivingChain at h
  split at h
  · split at h
    · obtain rfl := Except.ok.inj h
      exact ⟨rfl, rfl, rfl⟩
    · split at h
      · cases h
      · obtain ⟨moved, -, hmoved⟩ := bind_eq_ok.mp h
        obtain rfl := Except.ok.inj hmoved
        exact ⟨rfl, rfl, rfl⟩
  · obtain rfl := Except.ok.inj h
    exact ⟨rfl, rfl, rfl⟩

theorem takeNext_sending {r r' : Ratchet} {msg : RatchetMessage} {key : Key}
    (h : r.takeNext msg = .ok (key, r')) : SameSending r r' := by
  unfold takeNext at h
  obtain ⟨head, hskip, h⟩ := bind_eq_ok.mp h
  split at h
  · cases h
  · obtain ⟨_, -, h⟩ := bind_eq_ok.mp h
    obtain ⟨_, -, h⟩ := bind_eq_ok.mp h
    obtain ⟨-, rfl⟩ := Prod.mk.inj (Except.ok.inj h)
    obtain ⟨hpublic, hchain, hn⟩ := skip_sending hskip
    exact ⟨hpublic, hchain, hn⟩

/-- A key that was drawn starts a chain at its first place. -/
theorem dhRatchetReceive_sending {r r' : Ratchet} {newDhr : Key} {rng rng' : RandomSource}
    (h : r.dhRatchetReceive newDhr rng = (.ok r', rng')) :
    r'.dhsPublic = publicKey (rng.bytes rng.calls) ∧ r'.nSend = 0 ∧
      rng' = { rng with calls := rng.calls + 1 } ∧
      ∃ chain, r'.sendChain = some chain ∧ DerivedFrom (rng.bytes rng.calls) chain := by
  unfold dhRatchetReceive generateX25519Keypair randomArray at h
  dsimp only at h
  split at h
  · cases (Prod.mk.inj h).1
  · rename_i rootAfterRecv recvChain hreceiving
    split at h
    · cases (Prod.mk.inj h).1
    · rename_i rootAfterSend sendChain hsending
      obtain ⟨hr, rfl⟩ := Prod.mk.inj h
      obtain rfl := Except.ok.inj hr
      obtain ⟨shared, hshared, hroot⟩ := bind_eq_ok.mp hsending
      exact ⟨rfl, rfl, rfl, sendChain, rfl, newDhr, rootAfterRecv, shared, rootAfterSend, hshared,
        hroot⟩

/-- **What reading a message does to the sending side**: nothing, unless a key of the peer's is
adopted and the message is read; then a new chain is at its first place. -/
theorem decrypt_sending {r r' : Ratchet} {msg : RatchetMessage} {rng rng' : RandomSource}
    {result : Except Error Bytes} (h : r.decrypt msg rng = (result, r', rng')) :
    rng'.bytes = rng.bytes ∧ rng.calls ≤ rng'.calls ∧
      (SameSending r r' ∧ ((∃ e, result = .error e) ∨ ¬ r.adopts msg) ∨
        (∃ plaintext, result = .ok plaintext) ∧ r.adopts msg ∧ rng.calls < rng'.calls ∧
          r'.dhsPublic = publicKey (rng.bytes rng.calls) ∧ r'.nSend = 0 ∧
          ∃ chain, r'.sendChain = some chain ∧ DerivedFrom (rng.bytes rng.calls) chain) := by
  have hrng := attempt_rng r msg rng
  unfold attempt at hrng
  unfold decrypt at h
  cases htake : r.skipped.take msg.dh msg.n with
  | some found =>
    rw [htake] at h
    dsimp only at h
    have hstored : ¬ r.adopts msg := by
      intro hadopts
      rw [SkippedKeys.take_eq_none.mpr hadopts.1] at htake
      cases htake
    split at h
    · obtain ⟨rfl, hrest⟩ := Prod.mk.inj h
      obtain ⟨rfl, rfl⟩ := Prod.mk.inj hrest
      exact ⟨rfl, le_rfl, Or.inl ⟨⟨rfl, rfl, rfl⟩, Or.inr hstored⟩⟩
    · obtain ⟨rfl, hrest⟩ := Prod.mk.inj h
      obtain ⟨rfl, rfl⟩ := Prod.mk.inj hrest
      exact ⟨rfl, le_rfl, Or.inl ⟨⟨rfl, rfl, rfl⟩, Or.inr hstored⟩⟩
  | none =>
    rw [htake] at h hrng
    dsimp only at h hrng
    cases hfollow : r.follow msg rng with
    | mk followed rng'' =>
      rw [hfollow] at h hrng
      cases followed with
      | error e =>
        obtain ⟨rfl, hrest⟩ := Prod.mk.inj h
        obtain ⟨rfl, rfl⟩ := Prod.mk.inj hrest
        exact ⟨hrng.1, hrng.2, Or.inl ⟨⟨rfl, rfl, rfl⟩, Or.inl ⟨e, rfl⟩⟩⟩
      | ok trial =>
        dsimp only at h hrng
        split at h
        · rename_i e hnext
          obtain ⟨rfl, hrest⟩ := Prod.mk.inj h
          obtain ⟨rfl, rfl⟩ := Prod.mk.inj hrest
          exact ⟨hrng.1, hrng.2, Or.inl ⟨⟨rfl, rfl, rfl⟩, Or.inl ⟨e, rfl⟩⟩⟩
        · rename_i key last hnext
          split at h
          · rename_i e hclosed
            obtain ⟨rfl, hrest⟩ := Prod.mk.inj h
            obtain ⟨rfl, rfl⟩ := Prod.mk.inj hrest
            exact ⟨hrng.1, hrng.2, Or.inl ⟨⟨rfl, rfl, rfl⟩, Or.inl ⟨e, rfl⟩⟩⟩
          · rename_i plaintext hopen
            obtain ⟨rfl, hrest⟩ := Prod.mk.inj h
            obtain ⟨rfl, rfl⟩ := Prod.mk.inj hrest
            refine ⟨hrng.1, hrng.2, ?_⟩
            obtain ⟨hpublic, hchain, hn⟩ := takeNext_sending hnext
            obtain ⟨hsame, rfl⟩ | ⟨left, hleft, hadopt⟩ := follow_spec hfollow
            · exact Or.inl ⟨⟨hpublic, hchain, hn⟩, Or.inr fun hadopts => hadopts.2 hsame⟩
            · obtain ⟨hdrawn, hzero, rfl, chain, hstart, hderived⟩ :=
                dhRatchetReceive_sending hadopt
              have hadopts : r.adopts msg := by
                refine ⟨SkippedKeys.take_eq_none.mp htake, ?_⟩
                intro hsame
                rw [follow_same rng hsame] at hfollow
                have hcalls := congrArg RandomSource.calls (Prod.mk.inj hfollow).2
                exact absurd hcalls (Nat.ne_of_lt (Nat.lt_succ_self _))
              exact Or.inr ⟨⟨plaintext, rfl⟩, hadopts, Nat.lt_succ_self _, hpublic.trans hdrawn,
                hn.trans hzero, chain, hchain.trans hstart, hderived⟩

end Ratchet

/-! ### A ratchet's whole life -/

/-- A ratchet and its host's randomness, with what was done so far. -/
structure Ledger where
  ratchet : Ratchet
  rng : RandomSource
  /-- Each sending chain derived, after the public key it was derived for. -/
  chains : List (Key × Key)
  /-- Of each call of the cipher to seal a message: the header's key and counter, and the message
  key. -/
  used : List (Key × UInt32 × Key)
  /-- The messages given out, with their plaintexts. -/
  sent : List (RatchetMessage × Bytes)

namespace Ledger

inductive Call where
  | encrypt (plaintext : Bytes)
  | decrypt (msg : RatchetMessage)

/-- The chain a ratchet sends with, after its key. -/
def sending (r : Ratchet) : List (Key × Key) :=
    (r.sendChain.map fun chain => (r.dhsPublic, chain)).toList

def opening (r : Ratchet) (rng : RandomSource) : Ledger where
  ratchet := r
  rng := rng
  chains := sending r
  used := []
  sent := []

def step (l : Ledger) : Call → Ledger
  | .encrypt plaintext =>
    let (result, r) := l.ratchet.encrypt plaintext
    { l with
      ratchet := r
      used := l.used ++ l.ratchet.spends.toList
      sent := l.sent ++ (result.toOption.map fun msg => (msg, plaintext)).toList }
  | .decrypt msg =>
    let (result, r, rng) := l.ratchet.decrypt msg l.rng
    { l with
      ratchet := r
      rng := rng
      chains := l.chains ++ if result.toOption ≠ none ∧ l.ratchet.adopts msg then sending r
        else [] }

def run (l : Ledger) (calls : List Call) : Ledger := calls.foldl step l

/-- Header and counter of what was used. -/
def places (used : List (Key × UInt32 × Key)) : List (Key × UInt32) :=
    used.map fun u => (u.1, u.2.1)

def headers (sent : List (RatchetMessage × Bytes)) : List (Key × UInt32) :=
  sent.map fun s => (s.1.dh, s.1.n)

/-- A ratchet as either side of a handshake makes it. -/
def Begins (r : Ratchet) : Prop :=
  (∃ rootKey secret publicHalf peer, Ratchet.initAsResponder rootKey secret publicHalf peer =
    .ok r) ∨
    ∃ rootKey secret publicHalf, r = Ratchet.initAsInitiator rootKey secret publicHalf

/-- No key pair is drawn twice until so many calls were made, or is the ratchet's first. -/
def NeverRepeats (start : Ratchet) (rng : RandomSource) (calls : ℕ) : Prop :=
  (∀ i j, rng.calls ≤ i → i < calls → rng.calls ≤ j → j < calls →
      publicKey (rng.bytes i) = publicKey (rng.bytes j) → i = j) ∧
    ∀ i, rng.calls ≤ i → i < calls → publicKey (rng.bytes i) ≠ start.dhsPublic

/-- What holds of a ratchet and what was done with it. -/
structure Sound (start : Ratchet) (rng : RandomSource) (l : Ledger) : Prop where
  bytes : l.rng.bytes = rng.bytes
  calls : rng.calls ≤ l.rng.calls
  known : ∀ dh ∈ l.chains.map Prod.fst, dh = start.dhsPublic ∨
    ∃ i, rng.calls ≤ i ∧ i < l.rng.calls ∧ dh = publicKey (rng.bytes i)
  chains_nodup : (l.chains.map Prod.fst).Nodup
  derived : ∀ dh chain, (dh, chain) ∈ l.chains → ∃ secret,
    (dh = publicKey secret ∨ dh = start.dhsPublic ∧ secret = start.dhsSecret) ∧
      DerivedFrom secret chain
  /-- The chain is as far as the counter tells, but for a counter at its end. -/
  current : ∀ chainKey, l.ratchet.sendChain = some chainKey → ∃ chain n,
    (l.ratchet.dhsPublic, chain) ∈ l.chains ∧ chainKeyAt chain n = .ok chainKey ∧
      (n = l.ratchet.nSend.toNat ∨ ¬ l.ratchet.nSend.toNat + 1 < UInt32.size)
  used_at : ∀ dh n key, (dh, n, key) ∈ l.used → ∃ chain, (dh, chain) ∈ l.chains ∧
    messageKeyAt chain n.toNat = .ok key
  used_before : ∀ dh n key, (dh, n, key) ∈ l.used → dh = l.ratchet.dhsPublic →
    n.toNat < l.ratchet.nSend.toNat
  used_nodup : (places l.used).Nodup
  sent_places : (headers l.sent).Sublist (places l.used)
  sealed : ∀ msg plaintext, (msg, plaintext) ∈ l.sent → ∃ key, (msg.dh, msg.n, key) ∈ l.used ∧
    aeadEncrypt key msg.aad (pad plaintext) = .ok msg.ct

variable {start : Ratchet} {rng : RandomSource} {l : Ledger}

theorem opening_sound (hstart : Begins start) : Sound start rng (opening start rng) := by
  have hsending : ∀ dh chain, (dh, chain) ∈ sending start →
      dh = start.dhsPublic ∧ start.sendChain = some chain := by
    intro dh chain hmem
    unfold sending at hmem
    rw [Option.mem_toList, Option.map_eq_some_iff] at hmem
    obtain ⟨_, hchain, heq⟩ := hmem
    obtain ⟨rfl, rfl⟩ := Prod.mk.inj heq
    exact ⟨rfl, hchain⟩
  have hzero : start.nSend = 0 := by
    obtain ⟨_, _, _, _, hinit⟩ | ⟨_, _, _, rfl⟩ := hstart
    · obtain ⟨_, -, hroot⟩ := bind_eq_ok.mp hinit
      obtain ⟨_, -, hr⟩ := bind_eq_ok.mp hroot
      obtain rfl := Except.ok.inj hr
      rfl
    · rfl
  refine {
    bytes := rfl
    calls := le_rfl
    known := ?_
    chains_nodup := ?_
    derived := ?_
    current := ?_
    used_at := nofun
    used_before := nofun
    used_nodup := List.nodup_nil
    sent_places := List.Sublist.refl _
    sealed := nofun }
  · intro dh hdh
    obtain ⟨⟨_, chain⟩, hmem, rfl⟩ := List.mem_map.mp hdh
    exact Or.inl (hsending _ _ hmem).1
  · show (List.map Prod.fst (sending start)).Nodup
    unfold sending
    cases start.sendChain with
    | none => exact List.nodup_nil
    | some chain => exact List.nodup_singleton _
  · intro dh chain hmem
    obtain ⟨rfl, hchain⟩ := hsending dh chain hmem
    refine ⟨start.dhsSecret, Or.inr ⟨rfl, rfl⟩, ?_⟩
    obtain ⟨rootKey, secret, publicHalf, peer, hinit⟩ | ⟨_, _, _, rfl⟩ := hstart
    · obtain ⟨shared, hshared, hroot⟩ := bind_eq_ok.mp hinit
      obtain ⟨p, hp, hr⟩ := bind_eq_ok.mp hroot
      obtain rfl := Except.ok.inj hr
      obtain rfl := Option.some.inj hchain
      exact ⟨peer, rootKey, shared, p.1, hshared, hp⟩
    · cases hchain
  · intro chainKey hchain
    refine ⟨chainKey, 0, ?_, rfl, Or.inl ?_⟩
    · show _ ∈ sending start
      unfold sending
      rw [show start.sendChain = some chainKey from hchain]
      exact List.mem_singleton_self _
    · show 0 = start.nSend.toNat
      rw [hzero]
      rfl

/-- **Encrypting** uses at most the place the chain is at, and leaves it behind. -/
theorem Sound.encrypt (h : Sound start rng l) (plaintext : Bytes) :
    Sound start rng (l.step (.encrypt plaintext)) := by
  cases hspends : l.ratchet.spends with
  | none =>
    obtain ⟨e, heq | ⟨chainKey, messageKey, nextChain, hchain, hstep, hend, heq⟩⟩ :=
      Ratchet.encrypt_of_spends_none hspends plaintext
    · have hsame : l.step (.encrypt plaintext) = l := by
        unfold step
        dsimp only
        rw [heq, hspends]
        simp [Except.toOption]
      rw [hsame]
      exact h
    · -- a counter at its end: the chain moves, and nothing is used
      have hmoved : l.step (.encrypt plaintext) =
          { l with ratchet := { l.ratchet with sendChain := some nextChain } } := by
        unfold step
        dsimp only
        rw [heq, hspends]
        simp [Except.toOption]
      rw [hmoved]
      refine { h with current := ?_ }
      intro _ hnext
      obtain rfl := Option.some.inj hnext
      obtain ⟨chain, n, hmem, hat, -⟩ := h.current chainKey hchain
      exact ⟨chain, n + 1, hmem, chainKeyAt_succ hat hstep, Or.inr hend⟩
  | some use =>
    obtain ⟨dh, n, messageKey⟩ := use
    obtain ⟨rfl, rfl, chainKey, nextChain, nSend, hchain, hstep, hn, hafter, hsent⟩ :=
      Ratchet.encrypt_of_spends hspends plaintext
    have hcount := checkedIncrement_eq_ok.mp hn
    have hbound := nSend.toNat_lt
    obtain ⟨chain, reached, hmem, hat, hplace⟩ := h.current chainKey hchain
    have hhere : reached = l.ratchet.nSend.toNat :=
      hplace.resolve_right (not_not.mpr (by show _ < 2 ^ 32; omega))
    have hnew : (l.ratchet.dhsPublic, l.ratchet.nSend) ∉ places l.used := by
      intro hused
      obtain ⟨⟨dh, n, key⟩, hold, heq⟩ := List.mem_map.mp hused
      obtain ⟨rfl, rfl⟩ := Prod.mk.inj heq
      exact absurd (h.used_before _ _ _ hold rfl) (lt_irrefl _)
    have hplaces : places (l.used ++ [(l.ratchet.dhsPublic, l.ratchet.nSend, messageKey)]) =
        places l.used ++ [(l.ratchet.dhsPublic, l.ratchet.nSend)] := List.map_append
    cases hresult : l.ratchet.encrypt plaintext with
    | mk result r =>
      rw [hresult] at hafter hsent
      dsimp only at hafter hsent
      subst hafter
      have hled : l.step (.encrypt plaintext) = { l with
          ratchet := { l.ratchet with sendChain := some nextChain, nSend := nSend }
          used := l.used ++ [(l.ratchet.dhsPublic, l.ratchet.nSend, messageKey)]
          sent := l.sent ++ (result.toOption.map fun msg => (msg, plaintext)).toList } := by
        unfold step
        dsimp only
        rw [hresult, hspends]
        rfl
      rw [hled]
      refine {
        bytes := h.bytes
        calls := h.calls
        known := h.known
        chains_nodup := h.chains_nodup
        derived := h.derived
        current := ?_
        used_at := ?_
        used_before := ?_
        used_nodup := ?_
        sent_places := ?_
        sealed := ?_ }
      · intro _ hnext
        obtain rfl := Option.some.inj hnext
        refine ⟨chain, reached + 1, hmem, chainKeyAt_succ hat hstep, Or.inl ?_⟩
        rw [hhere]
        exact hcount.symm
      · intro dh n key hused
        obtain hold | hlast := List.mem_append.mp hused
        · exact h.used_at dh n key hold
        · obtain ⟨rfl, hrest⟩ := Prod.mk.inj (List.mem_singleton.mp hlast)
          obtain ⟨rfl, rfl⟩ := Prod.mk.inj hrest
          exact ⟨chain, hmem, hhere ▸ messageKeyAt_eq hat hstep⟩
      · intro dh n key hused hdh
        show n.toNat < nSend.toNat
        obtain hold | hlast := List.mem_append.mp hused
        · have hlt := h.used_before dh n key hold hdh
          omega
        · obtain ⟨-, hrest⟩ := Prod.mk.inj (List.mem_singleton.mp hlast)
          rw [(Prod.mk.inj hrest).1]
          omega
      · rw [hplaces]
        refine List.nodup_append.mpr ⟨h.used_nodup, List.nodup_singleton _, ?_⟩
        intro a hold b hlast heq
        exact hnew (List.mem_singleton.mp hlast ▸ heq ▸ hold)
      · rw [hplaces]
        unfold headers
        rw [List.map_append]
        refine h.sent_places.append ?_
        cases result with
        | error e => exact List.nil_sublist _
        | ok msg =>
          obtain ⟨hdh, hcounter, -⟩ := hsent msg rfl
          show [(msg.dh, msg.n)].Sublist _
          rw [hdh, hcounter]
      · intro msg found hmsg
        obtain hold | hlast := List.mem_append.mp hmsg
        · obtain ⟨key, hused, hseal⟩ := h.sealed msg found hold
          exact ⟨key, List.mem_append_left _ hused, hseal⟩
        · cases result with
          | error e => cases hlast
          | ok given =>
            obtain ⟨rfl, rfl⟩ := Prod.mk.inj (List.mem_singleton.mp hlast)
            obtain ⟨hdh, hcounter, hseal⟩ := hsent msg rfl
            refine ⟨messageKey, List.mem_append_right _ ?_, hseal⟩
            rw [hdh, hcounter]
            exact List.mem_singleton_self _

theorem step_calls (l : Ledger) (call : Call) : l.rng.calls ≤ (l.step call).rng.calls := by
  cases call with
  | encrypt plaintext => exact le_rfl
  | decrypt msg => exact (Ratchet.decrypt_sending rfl).2.1

theorem run_calls (l : Ledger) (calls : List Call) : l.rng.calls ≤ (l.run calls).rng.calls := by
  induction calls generalizing l with
  | nil => exact le_rfl
  | cons call calls ih => exact (l.step_calls call).trans (ih (l.step call))

/-- **Decrypting** uses no place, and at most starts a chain under a key that was never used. -/
theorem Sound.decrypt {upTo : ℕ} (hrng : NeverRepeats start rng upTo) (h : Sound start rng l)
    (msg : RatchetMessage) (hupTo : (l.step (.decrypt msg)).rng.calls ≤ upTo) :
    Sound start rng (l.step (.decrypt msg)) := by
  cases hdecrypt : l.ratchet.decrypt msg l.rng with
  | mk result rest =>
    obtain ⟨r, rng'⟩ := rest
    have hled : l.step (.decrypt msg) = { l with
        ratchet := r
        rng := rng'
        chains := l.chains ++ if result.toOption ≠ none ∧ l.ratchet.adopts msg then sending r
          else [] } := by
      unfold step
      dsimp only
      rw [hdecrypt]
    rw [hled] at hupTo ⊢
    obtain ⟨hbytes, hcalls, ⟨⟨hpublic, hchain, hn⟩, hnot⟩ | ⟨⟨plaintext, rfl⟩, hadopts, hdrew,
      hpublic, hn, chain, hchain, hderived⟩⟩ := Ratchet.decrypt_sending hdecrypt
    · have hnone : ¬ (result.toOption ≠ none ∧ l.ratchet.adopts msg) := by
        rintro ⟨hok, hadopts⟩
        obtain ⟨e, rfl⟩ | hnot := hnot
        · exact hok rfl
        · exact hnot hadopts
      rw [if_neg hnone, List.append_nil]
      refine { h with
        bytes := hbytes.trans h.bytes
        calls := h.calls.trans hcalls
        known := ?_
        current := ?_
        used_before := ?_ }
      · intro dh hdh
        obtain hfirst | ⟨i, hle, hlt, hi⟩ := h.known dh hdh
        · exact Or.inl hfirst
        · exact Or.inr ⟨i, hle, hlt.trans_le hcalls, hi⟩
      · intro chainKey hkey
        dsimp only at hkey ⊢
        rw [hpublic, hn]
        exact h.current chainKey (hchain ▸ hkey)
      · intro dh n key hused hdh
        dsimp only at hdh ⊢
        rw [hpublic] at hdh
        rw [hn]
        exact h.used_before dh n key hused hdh
    · have hsome : ((.ok plaintext : Except Error Bytes).toOption ≠ none ∧ l.ratchet.adopts msg) :=
        ⟨nofun, hadopts⟩
      have hnew : sending r = [(r.dhsPublic, chain)] := by
        unfold sending
        rw [hchain]
        rfl
      rw [h.bytes] at hpublic hderived
      have hnext : l.rng.calls < upTo := hdrew.trans_le hupTo
      have hunknown : r.dhsPublic ∉ l.chains.map Prod.fst := by
        intro hold
        obtain hfirst | ⟨i, hle, hlt, hi⟩ := h.known _ hold
        · exact hrng.2 _ h.calls hnext (hpublic.symm.trans hfirst)
        · exact absurd (hrng.1 _ _ hle (hlt.trans hnext) h.calls hnext (hi.symm.trans hpublic))
            (Nat.ne_of_lt hlt)
      rw [if_pos hsome, hnew]
      refine {
        bytes := hbytes.trans h.bytes
        calls := h.calls.trans hcalls
        known := ?_
        chains_nodup := ?_
        derived := ?_
        current := ?_
        used_at := ?_
        used_before := ?_
        used_nodup := h.used_nodup
        sent_places := h.sent_places
        sealed := h.sealed }
      · intro dh hdh
        rw [List.map_append] at hdh
        obtain hold | hlast := List.mem_append.mp hdh
        · obtain hfirst | ⟨i, hle, hlt, hi⟩ := h.known dh hold
          · exact Or.inl hfirst
          · exact Or.inr ⟨i, hle, hlt.trans_le hcalls, hi⟩
        · exact Or.inr ⟨l.rng.calls, h.calls, hdrew, (List.mem_singleton.mp hlast).trans hpublic⟩
      · rw [List.map_append]
        refine List.nodup_append.mpr ⟨h.chains_nodup, List.nodup_singleton _, ?_⟩
        intro a hold b hlast heq
        have hb : b = r.dhsPublic := List.mem_singleton.mp hlast
        exact hunknown (hb ▸ heq ▸ hold)
      · intro dh found hmem
        obtain hold | hlast := List.mem_append.mp hmem
        · exact h.derived dh found hold
        · obtain ⟨rfl, rfl⟩ := Prod.mk.inj (List.mem_singleton.mp hlast)
          exact ⟨_, Or.inl hpublic, hderived⟩
      · intro chainKey hkey
        dsimp only at hkey ⊢
        rw [hchain] at hkey
        obtain rfl := Option.some.inj hkey
        refine ⟨chain, 0, List.mem_append_right _ (List.mem_singleton_self _), rfl, Or.inl ?_⟩
        rw [hn]
        rfl
      · intro dh n key hused
        obtain ⟨found, hmem, hkey⟩ := h.used_at dh n key hused
        exact ⟨found, List.mem_append_left _ hmem, hkey⟩
      · intro dh n key hused hdh
        obtain ⟨found, hmem, -⟩ := h.used_at dh n key hused
        refine absurd ?_ hunknown
        rw [← show dh = r.dhsPublic from hdh]
        exact List.mem_map_of_mem hmem

theorem Sound.run (h : Sound start rng l) (calls : List Call)
    (hrng : NeverRepeats start rng (l.run calls).rng.calls) : Sound start rng (l.run calls) := by
  induction calls generalizing l with
  | nil => exact h
  | cons call calls ih =>
    have hstep : Sound start rng (l.step call) := by
      cases call with
      | encrypt plaintext => exact h.encrypt plaintext
      | decrypt msg => exact h.decrypt hrng msg (run_calls _ calls)
    exact ih hstep hrng

/-- **No message key is used twice.**  Whatever a ratchet is called for, no place of a sending chain
is handed to the cipher twice, also by calls that fail; each key handed to it is the one at its
place in the one chain derived for the header's key; and each message given out is sealed under such
a key. -/
theorem never_reuses (hstart : Begins start) (calls : List Call)
    (hrng : NeverRepeats start rng ((opening start rng).run calls).rng.calls) :
    let l := (opening start rng).run calls
    (headers l.sent).Nodup ∧
      (∀ msg plaintext, (msg, plaintext) ∈ l.sent → ∃ key, (msg.dh, msg.n, key) ∈ l.used ∧
        aeadEncrypt key msg.aad (pad plaintext) = .ok msg.ct) ∧
      (places l.used).Nodup ∧
      (∀ dh n key, (dh, n, key) ∈ l.used → ∃ chain, (dh, chain) ∈ l.chains ∧
        messageKeyAt chain n.toNat = .ok key) ∧
      (l.chains.map Prod.fst).Nodup ∧
      ∀ dh chain, (dh, chain) ∈ l.chains → ∃ secret,
        (dh = publicKey secret ∨ dh = start.dhsPublic ∧ secret = start.dhsSecret) ∧
          DerivedFrom secret chain := by
  have h := (opening_sound hstart).run calls hrng
  exact ⟨h.sent_places.nodup h.used_nodup, h.sealed, h.used_nodup, h.used_at, h.chains_nodup,
    h.derived⟩

/-- A responder's ratchet over secrets that tell when they were drawn, its first message sent. -/
def opened : Except Error (@Ratchet Crypto.symbols) :=
  letI := Crypto.symbols
  Ratchet.initAsResponder ([5] : Bytes) ([1] : Bytes) ([7, 1] : Bytes) ([7, 2] : Bytes)

omit [Crypto] in
/-- Two messages in a row, from two places. -/
theorem never_reuses_opened : letI := Crypto.symbols
    ∃ start, opened = .ok start ∧
      ((opening start ⟨fun i => (3 :: List.replicate i 0 : Bytes), 0⟩).run
        [.encrypt [104], .encrypt [105]]).sent.length = 2 ∧
      (headers ((opening start ⟨fun i => (3 :: List.replicate i 0 : Bytes), 0⟩).run
        [.encrypt [104], .encrypt [105]]).sent).Nodup := by
  let _ := Crypto.symbols
  have hbegins : ∃ start, opened = .ok start := ⟨_, rfl⟩
  obtain ⟨start, hstart⟩ := hbegins
  have hpublic : start.dhsPublic = [7, 1] := by
    obtain rfl := Except.ok.inj (show _ = Except.ok start from hstart)
    rfl
  have hrng : ∀ calls, NeverRepeats start ⟨fun i => (3 :: List.replicate i 0 : Bytes), 0⟩
      calls := by
    intro calls
    constructor
    · intro i j _ _ _ _ heq
      have hspelt : (7 :: 3 :: List.replicate i 0 : Bytes) = 7 :: 3 :: List.replicate j 0 := heq
      simpa using congrArg List.length hspelt
    · intro i _ _ heq
      have hspelt : (7 :: 3 :: List.replicate i 0 : Bytes) = [7, 1] := heq.trans hpublic
      exact absurd (List.cons.inj (List.cons.inj hspelt).2).1 (by decide)
  refine ⟨start, hstart, ?_, (never_reuses (Or.inl ⟨_, _, _, _, hstart⟩) _ (hrng _)).1⟩
  obtain rfl := Except.ok.inj (show _ = Except.ok start from hstart)
  rfl

end Ledger

end ObbyClient.E2ee

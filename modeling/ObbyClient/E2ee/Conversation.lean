import ObbyClient.E2ee.Handshake
import ObbyClient.E2ee.Seat

/-!
# Two parties over an untrusted network

After a handshake each side encrypts what it likes, and the network hands either side any message: a
genuine one in any order and any number of times, or one of its own making.

* `Conversation.step` — one call of either side;
* `Run` — the runs in which the cipher was not broken and no key gave way to another;
* `Synced` — what holds of both sides in every such run;
* `Synced.reads`, `Synced.refuses` — what a side does with a message.
-/

namespace ObbyClient.E2ee

def Role.peer : Role → Role
  | initiator => responder
  | responder => initiator

/-- What each side has of something. -/
def sides {α : Type} (initiator responder : α) : Role → α
  | .initiator => initiator
  | .responder => responder

theorem update_initiator {α : Type} (a b a' : α) :
    Function.update (sides a b) .initiator a' = sides a' b := by
  funext who
  cases who <;> rfl

theorem update_responder {α : Type} (a b b' : α) :
    Function.update (sides a b) .responder b' = sides a b' := by
  funext who
  cases who <;> rfl

/-- The side that draws the `k`-th ratchet key. -/
def owner (k : ℕ) : Role := if k % 2 = 0 then .initiator else .responder

theorem owner_eq_iff {i j : ℕ} : owner i = owner j ↔ i % 2 = j % 2 := by
  unfold owner
  split <;> split <;> simp <;> omega

theorem owner_peer_iff {i k : ℕ} : owner i = (owner k).peer ↔ i % 2 ≠ k % 2 := by
  unfold owner
  split <;> split <;> simp [Role.peer] <;> omega

theorem owner_add_two (k : ℕ) : owner (k + 2) = owner k := owner_eq_iff.mpr (Nat.add_mod_right k 2)

theorem Role.peer_ne (who : Role) : who.peer ≠ who := by
  cases who <;> decide

theorem Role.eq_peer {who other : Role} (h : other ≠ who) : other = who.peer := by
  cases who <;> cases other <;> first | rfl | exact absurd rfl h

variable [Crypto]

/-- Both sides, and what went between them. -/
structure Conversation where
  ratchet : Role → Ratchet
  rng : Role → RandomSource
  /-- What each side encrypted, with its plaintext. -/
  sent : Role → List (RatchetMessage × Bytes)
  /-- What each side decrypted. -/
  received : Role → List RatchetMessage
  /-- Every key, associated data and ciphertext that encryption produced. -/
  produced : List (Key × Bytes × Bytes)

/-- One call. -/
inductive Call where
  | encrypt (who : Role) (plaintext : Bytes)
  | decrypt (who : Role) (msg : RatchetMessage)

namespace Conversation

def step (c : Conversation) : Call → Conversation
  | .encrypt who plaintext =>
    match (c.ratchet who).encrypt plaintext with
    | (.error _, r) => { c with ratchet := Function.update c.ratchet who r }
    | (.ok msg, r) => { c with
        ratchet := Function.update c.ratchet who r
        sent := Function.update c.sent who (c.sent who ++ [(msg, plaintext)])
        produced := c.produced ++ ((c.ratchet who).sealing msg).toList }
  | .decrypt who msg =>
    match (c.ratchet who).decrypt msg (c.rng who) with
    | (.error _, r, rng) => { c with
        ratchet := Function.update c.ratchet who r
        rng := Function.update c.rng who rng }
    | (.ok _, r, rng) => { c with
        ratchet := Function.update c.ratchet who r
        rng := Function.update c.rng who rng
        received := Function.update c.received who (msg :: c.received who) }

theorem step_encrypt_ok {c : Conversation} {who : Role} {plaintext : Bytes} {msg : RatchetMessage}
    {r : Ratchet} (h : (c.ratchet who).encrypt plaintext = (.ok msg, r)) :
    c.step (.encrypt who plaintext) = { c with
      ratchet := Function.update c.ratchet who r
      sent := Function.update c.sent who (c.sent who ++ [(msg, plaintext)])
      produced := c.produced ++ ((c.ratchet who).sealing msg).toList } := by
  unfold step
  dsimp only
  rw [h]

theorem step_decrypt_ok {c : Conversation} {who : Role} {plaintext : Bytes} {msg : RatchetMessage}
    {r : Ratchet} {rng : RandomSource}
    (h : (c.ratchet who).decrypt msg (c.rng who) = (.ok plaintext, r, rng)) :
    c.step (.decrypt who msg) = { c with
      ratchet := Function.update c.ratchet who r
      rng := Function.update c.rng who rng
      received := Function.update c.received who (msg :: c.received who) } := by
  unfold step
  dsimp only
  rw [h]

theorem step_decrypt_error {c : Conversation} {who : Role} {e : Error} {msg : RatchetMessage}
    {r : Ratchet} {rng : RandomSource}
    (h : (c.ratchet who).decrypt msg (c.rng who) = (.error e, r, rng)) :
    c.step (.decrypt who msg) = { c with
      ratchet := Function.update c.ratchet who r
      rng := Function.update c.rng who rng } := by
  unfold step
  dsimp only
  rw [h]

/-- The peer sent this message, and this side has not read it. -/
def Unread (c : Conversation) (who : Role) (msg : RatchetMessage) : Prop :=
  (∃ plaintext, (msg, plaintext) ∈ c.sent who.peer) ∧ msg ∉ c.received who

/-- Decryption succeeds only on what encryption produced. -/
def Authentic (c : Conversation) (msg : RatchetMessage) : Prop :=
  ∀ key plaintext, aeadDecrypt key msg.aad msg.ct = .ok plaintext →
    (key, msg.aad, msg.ct) ∈ c.produced

end Conversation

/-- A message is not too far ahead, neither on its chain nor on the one it leaves behind. -/
def Ratchet.Near (r : Ratchet) (msg : RatchetMessage) : Prop :=
    r.leaves msg ≤ maxSkip ∧ r.jumps msg ≤ maxSkip

/-- The store has room for the keys that a message passes over. -/
def Ratchet.HasRoom (r : Ratchet) (msg : RatchetMessage) : Prop :=
  r.skipped.order.length + r.leaves msg + r.jumps msg ≤ maxSkippedKeys

/-- The runs in which the cipher was not broken, and no key gave way to another where a message was
read. -/
inductive Run (start : Conversation) : Conversation → Prop where
  | refl : Run start start
  | encrypt {c : Conversation} (who : Role) (plaintext : Bytes) : Run start c →
      Run start (c.step (.encrypt who plaintext))
  | decrypt {c : Conversation} (who : Role) (msg : RatchetMessage) : Run start c → c.Authentic msg →
      (c.Unread who msg → (c.ratchet who).Near msg → (c.ratchet who).HasRoom msg) →
      Run start (c.step (.decrypt who msg))

/-- The handshake: an offer, its answer, and the answer's first message read. -/
def handshake (identity : Role → Identity) (rng : Role → RandomSource) :
    Except Error Conversation :=
  match createOffer (identity .initiator) (rng .initiator) with
  | (.error e, _) => .error e
  | (.ok pending, rngInitiator) =>
    match acceptOffer (identity .responder) pending.bundle (rng .responder) with
    | (.error e, _) => .error e
    | (.ok (response, responder), rngResponder) =>
      match completeHandshake (identity .initiator) pending response rngInitiator with
      | (.error e, _) => .error e
      | (.ok initiator, rngInitiator) =>
        let before := responderRatchet (identity .responder) pending.bundle
          ((rng .responder).bytes (rng .responder).calls)
        .ok {
          ratchet := sides initiator responder
          rng := sides rngInitiator rngResponder
          sent := sides [] [(response.boot, [])]
          received := sides [response.boot] []
          produced := (before.toOption.bind fun r => r.sealing response.boot).toList }

/-- No keypair is drawn twice, as long as each side draws no more than so many. -/
def Fresh (bytes : Role → ℕ → Key) (draws : Role → ℕ) : Prop :=
  ∀ who i who' i', i < draws who → i' < draws who' →
    publicKey (bytes who i) = publicKey (bytes who' i') → who = who' ∧ i = i'

namespace Ratchet

/-- Reading a message draws what looking for its key draws. -/
theorem decrypt_rng (r : Ratchet) (msg : RatchetMessage) (rng : RandomSource) :
    (r.decrypt msg rng).2.2 = (r.attempt msg rng).2 := by
  unfold decrypt attempt
  split
  · split <;> rfl
  · split
    · rfl
    · split
      · rename_i hnext
        rw [hnext]
      · split <;> rfl

theorem decrypt_calls (r : Ratchet) (msg : RatchetMessage) (rng : RandomSource) :
    rng.calls ≤ (r.decrypt msg rng).2.2.calls := by
  rw [decrypt_rng]
  exact (r.attempt_rng msg rng).2

end Ratchet

/-- No side draws less than before. -/
theorem Conversation.step_calls (c : Conversation) (call : Call) (who : Role) :
    (c.rng who).calls ≤ ((c.step call).rng who).calls := by
  cases call with
  | encrypt other plaintext =>
    unfold step
    dsimp only
    split <;> exact le_rfl
  | decrypt other msg =>
    have hcalls := (c.ratchet other).decrypt_calls msg (c.rng other)
    unfold step
    dsimp only
    split <;> rename_i heq <;> rw [heq] at hcalls <;> dsimp only <;>
    · by_cases hwho : who = other
      · subst hwho
        rw [Function.update_self]
        exact hcalls
      · rw [Function.update_of_ne hwho]

/-- Both sides are at the row of keys, one key apart. -/
structure Synced (bytes : Role → ℕ → Key) (T : Schedule) (pos : Role → ℕ) (c : Conversation) :
    Prop where
  owns : ∀ who, owner (pos who) = who
  near : ∀ who, pos who ≤ pos who.peer + 1
  valid : ∀ who, T.Valid (max (pos who) (pos who.peer))
  seat : ∀ who, Seat T (pos who) (c.received who) (c.ratchet who)
  sent : ∀ who m plaintext, (m, plaintext) ∈ c.sent who ↔
    ∃ k n, owner k = who ∧ T.message k n = some (m, plaintext)
  produced : ∀ key aad ct, (key, aad, ct) ∈ c.produced → ∃ k n m plaintext,
    T.message k n = some (m, plaintext) ∧ key = T.messageKey k n ∧ aad = m.aad ∧ ct = m.ct
  draws : ∀ who, (c.rng who).bytes = bytes who
  bound : ∀ k, T.count k < UInt32.size
  drawn : ∀ who, ∀ k ≤ max (pos who) (pos who.peer),
    ∃ i < (c.rng (owner k)).calls, T.secret k = bytes (owner k) i

namespace Synced

variable {bytes : Role → ℕ → Key} {T : Schedule} {pos : Role → ℕ} {c : Conversation} {who : Role}
  {msg : RatchetMessage}

theorem top_le (h : Synced bytes T pos c) (who : Role) :
    max (pos who) (pos who.peer) ≤ pos who + 1 := by
  have hnear := h.near who.peer
  have hpeer : who.peer.peer = who := by cases who <;> rfl
  rw [hpeer] at hnear
  exact max_le (Nat.le_succ _) hnear

/-- A message of the peer's has its place on one of the peer's chains. -/
theorem place (h : Synced bytes T pos c) {plaintext : Bytes}
    (hsent : (msg, plaintext) ∈ c.sent who.peer) :
    ∃ j, T.message j msg.n.toNat = some (msg, plaintext) ∧ j % 2 ≠ pos who % 2 := by
  obtain ⟨j, n, howner, hmessage⟩ := (h.sent _ _ _).mp hsent
  obtain ⟨-, -, -, hn, -⟩ := (h.valid who).sent _ _ _ _ hmessage
  refine ⟨j, ?_, ?_⟩
  · rw [hn]
    exact hmessage
  · refine owner_peer_iff.mp ?_
    rw [howner, h.owns]

/-- What was drawn so far is not drawn again. -/
theorem fresh (h : Synced bytes T pos c) {draws : Role → ℕ} (hfresh : Fresh bytes draws)
    (hdraws : ∀ who, (c.rng who).calls < draws who) (who : Role) :
    ∀ i ≤ max (pos who) (pos who.peer),
      T.publicOf i ≠ publicKey ((c.rng who).bytes (c.rng who).calls) := by
  intro i hi heq
  obtain ⟨draw, hdraw, hsecret⟩ := h.drawn who i hi
  unfold Schedule.publicOf at heq
  rw [hsecret, h.draws] at heq
  obtain ⟨howner, rfl⟩ := hfresh _ _ _ _ (hdraw.trans (hdraws _)) (hdraws who) heq
  rw [howner] at hdraw
  exact absurd hdraw (lt_irrefl _)

/-- The bounds that the code checks. -/
def InBounds (r : Ratchet) (msg : RatchetMessage) : Prop := r.Near msg ∧ r.HasRoom msg

/-- **A message still to be read is read**, within the bounds. -/
theorem reads (ideal : Ideal) {draws : Role → ℕ} (hfresh : Fresh bytes draws)
    (hdraws : ∀ who, (c.rng who).calls < draws who) (h : Synced bytes T pos c) {plaintext : Bytes}
    (hsent : (msg, plaintext) ∈ c.sent who.peer) (hunread : msg ∉ c.received who)
    (hbounds : InBounds (c.ratchet who) msg) :
    ∃ trial rng T' k', (c.ratchet who).decrypt msg (c.rng who) = (.ok plaintext, trial, rng) ∧
      Seat T' k' (msg :: c.received who) trial ∧
      Seat.Moves T T' (max (pos who) (pos who.peer)) (pos who) k' (c.rng who) rng := by
  obtain ⟨j, hmessage, hparity⟩ := h.place hsent
  obtain ⟨⟨hleaves, hjumps⟩, hroom⟩ := hbounds
  obtain ⟨trial, rng, T', k', hattempt, hseat, hmoves⟩ :=
    (h.seat who).accept ideal (h.valid who) (le_max_left _ _) (h.top_le who) h.bound hmessage
      hparity hunread
      hleaves hjumps hroom (h.fresh hfresh hdraws who)
  obtain ⟨-, -, -, -, hct⟩ := (h.valid who).sent _ _ _ _ hmessage
  have hopen : decryptWithKey (T.messageKey j msg.n.toNat) msg = .ok plaintext :=
    bind_eq_ok.mpr ⟨_, ideal.opens hct, unpad_pad plaintext⟩
  exact ⟨trial, rng, T', k', Ratchet.decrypt_of_attempt_ok hattempt hopen, hseat, hmoves⟩

/-- **Anything else is refused.** -/
theorem refuses (ideal : Ideal) (h : Synced bytes T pos c) (hauthentic : c.Authentic msg)
    (hnot : ¬ c.Unread who msg) :
    ∃ e, (c.ratchet who).decrypt msg (c.rng who) =
      (.error e, c.ratchet who, ((c.ratchet who).attempt msg (c.rng who)).2) := by
  refine Ratchet.decrypt_of_closed ?_
  intro key trial rng hattempt
  cases hopened : aeadDecrypt key msg.aad msg.ct with
  | error e =>
    refine ⟨e, ?_⟩
    unfold decryptWithKey
    show (aeadDecrypt key msg.aad msg.ct >>= fun padded => unpad padded) = _
    rw [hopened]
    rfl
  | ok padded =>
    exfalso
    obtain ⟨k, n, m, plaintext, hmessage, hkey, haad, hct⟩ :=
      h.produced _ _ _ (hauthentic key padded hopened)
    obtain ⟨-, -, -, hn, -⟩ := (h.valid who).sent _ _ _ _ hmessage
    obtain ⟨hdh, hpn, hcounter⟩ := headerAad_injective haad
    obtain rfl : msg = m := by
      cases msg
      cases m
      simp only at hdh hpn hcounter hct
      subst hdh hpn hcounter hct
      rfl
    rw [← hn] at hmessage hkey
    obtain ⟨hparity, hunread⟩ :=
      (h.seat who).attempted ideal (h.valid who) (le_max_left _ _) hattempt hmessage hkey
    refine hnot ⟨⟨plaintext, (h.sent _ _ _).mpr ⟨k, _, ?_, hmessage⟩⟩, hunread⟩
    have howner := owner_peer_iff.mpr hparity
    rw [h.owns] at howner
    exact howner

/-! ### Every call keeps both sides in step -/

omit [Crypto] in
theorem top_eq (pos : Role → ℕ) (who other : Role) :
    max (pos other) (pos other.peer) = max (pos who) (pos who.peer) := by
  by_cases hother : other = who
  · rw [hother]
  · obtain rfl := Role.eq_peer hother
    have hpeer : who.peer.peer = who := by cases who <;> rfl
    rw [hpeer, max_comm]

/-- What a side sent, once a place of its chain is used. -/
theorem sent_post (h : Synced bytes T pos c) (sent : Option (RatchetMessage × Bytes)) (other : Role)
    (m : RatchetMessage) (plaintext : Bytes) :
    (m, plaintext) ∈ Function.update c.sent who (c.sent who ++ sent.toList) other ↔
      ∃ k n, owner k = other ∧ (T.post (pos who) sent).message k n = some (m, plaintext) := by
  simp only [(h.valid who).post_message_iff]
  by_cases hother : other = who
  · subst hother
    rw [Function.update_self, List.mem_append, Option.mem_toList, h.sent]
    constructor
    · rintro (⟨k, n, howner, hm⟩ | hm)
      · exact ⟨k, n, howner, Or.inr hm⟩
      · exact ⟨_, _, h.owns other, Or.inl ⟨⟨rfl, rfl⟩, hm⟩⟩
    · rintro ⟨k, n, howner, ⟨-, hm⟩ | hm⟩
      · exact Or.inr hm
      · exact Or.inl ⟨k, n, howner, hm⟩
  · rw [Function.update_of_ne hother, h.sent]
    refine exists_congr fun k => exists_congr fun n => and_congr_right fun howner => ?_
    refine (or_iff_right ?_).symm
    rintro ⟨⟨rfl, -⟩, -⟩
    exact hother (howner.symm.trans (h.owns who))

/-- A place of a chain is used, and perhaps a message sent from it. -/
theorem posts (h : Synced bytes T pos c) {chain : Key} {n : UInt32}
    (hchain : (c.ratchet who).sendChain = some chain)
    (hn : checkedIncrement (c.ratchet who).nSend = .ok n) (sent : Option (RatchetMessage × Bytes))
    (hsent : ∀ m plaintext, sent = some (m, plaintext) →
      m.dh = (c.ratchet who).dhsPublic ∧ m.pn = (c.ratchet who).prevChainLen ∧
        m.n = (c.ratchet who).nSend ∧
        aeadEncrypt (advance chain).1 m.aad (pad plaintext) = .ok m.ct)
    (produced : List (Key × Bytes × Bytes)) (hproduced : ∀ t ∈ produced, t ∈ c.produced ∨
      ∃ m plaintext, sent = some (m, plaintext) ∧ t = ((advance chain).1, m.aad, m.ct)) :
    Synced bytes (T.post (pos who) sent) pos { c with
      ratchet := Function.update c.ratchet who
        { c.ratchet who with sendChain := some (advance chain).2, nSend := n }
      sent := Function.update c.sent who (c.sent who ++ sent.toList)
      produced := produced } := by
  have hseat := h.seat who
  have hcount := checkedIncrement_eq_ok.mp hn
  rw [hseat.nSend] at hcount
  have hroom : (c.ratchet who).nSend.toNat + 1 < UInt32.size := by
    rw [hseat.nSend, ← hcount]
    exact n.toNat_lt
  have hhead : chain = T.chainAt (pos who) (T.count (pos who)) := by
    rw [hseat.send chain hchain hroom, hseat.nSend]
  have hkey : (advance chain).1 = T.messageKey (pos who) (T.count (pos who)) := by
    rw [hhead]
    rfl
  have hstarted : 0 < pos who := by
    refine Nat.pos_of_ne_zero fun hzero => ?_
    rw [hseat.send_none hzero] at hchain
    cases hchain
  have hnear : ∀ other, other ≠ who → pos other ≤ pos who + 1 ∧ pos other ≠ pos who := by
    intro other hother
    refine ⟨?_, ?_⟩
    · have hnear := h.near other
      have hwho : who = other.peer := Role.eq_peer fun heq => hother heq.symm
      rw [← hwho] at hnear
      exact hnear
    · intro heq
      refine hother ?_
      rw [← h.owns other, ← h.owns who, heq]
  refine {
    owns := h.owns
    near := h.near
    valid := ?_
    seat := ?_
    sent := ?_
    produced := ?_
    draws := h.draws
    bound := ?_
    drawn := h.drawn }
  · intro other
    rw [top_eq pos who other]
    refine (h.valid who).post ⟨hstarted, le_max_left _ _⟩ (h.top_le who) ?_
    intro m plaintext hm
    obtain ⟨hdh, hpn, hcounter, hct⟩ := hsent m plaintext hm
    refine ⟨hdh.trans hseat.dhsPublic, ?_, ?_, ?_⟩
    · rw [hpn, hseat.prev]
    · rw [hcounter, hseat.nSend]
    · rw [← hkey]
      exact hct
  · intro other
    by_cases hother : other = who
    · subst hother
      dsimp only
      rw [Function.update_self]
      refine hseat.sends (T.post_grows sent hstarted (Nat.le_succ _)) ?_ (by omega) ?_
      · rw [T.post_count_self]
        exact hcount
      · intro next hnext _
        obtain rfl := Option.some.inj hnext
        rw [hhead, hcount]
        exact (along_succ _ _).symm
    · dsimp only
      rw [Function.update_of_ne hother]
      exact (h.seat other).grows (T.post_grows sent hstarted (hnear other hother).1)
        (T.post_count_of_ne sent (hnear other hother).2)
  · exact h.sent_post sent
  · intro key aad ct hmem
    obtain hold | ⟨m, plaintext, hm, heq⟩ := hproduced _ hmem
    · obtain ⟨k, n, m, plaintext, hmessage, hrest⟩ := h.produced _ _ _ hold
      exact ⟨k, n, m, plaintext, (h.valid who).post_of_sent hmessage, hrest⟩
    · obtain ⟨rfl, rfl, rfl⟩ : key = (advance chain).1 ∧ aad = m.aad ∧ ct = m.ct := by
        simpa using heq
      refine ⟨pos who, T.count (pos who), m, plaintext, ?_, hkey, rfl, rfl⟩
      rw [Schedule.post_message, if_pos ⟨rfl, rfl⟩]
      exact hm
  · intro k
    by_cases hk : k = pos who
    · rw [hk, T.post_count_self, ← hcount]
      exact n.toNat_lt
    · rw [T.post_count_of_ne sent hk]
      exact h.bound k

/-- A call that leaves the sending chain of a side where nothing is sent from it. -/
theorem spends (h : Synced bytes T pos c) {sendChain : Option Key}
    (hspent : sendChain = (c.ratchet who).sendChain ∨ (c.ratchet who).sendChain ≠ none ∧
      ¬ (c.ratchet who).nSend.toNat + 1 < UInt32.size) :
    Synced bytes T pos { c with
      ratchet := Function.update c.ratchet who { c.ratchet who with sendChain := sendChain } } := by
  have hseat := h.seat who
  refine { h with seat := ?_ }
  intro other
  dsimp only
  by_cases hother : other = who
  · subst hother
    rw [Function.update_self]
    refine { hseat with send_none := ?_, send := ?_ }
    · intro hzero
      obtain hsame | ⟨hsome, -⟩ := hspent
      · exact hsame.trans (hseat.send_none hzero)
      · exact absurd (hseat.send_none hzero) hsome
    · intro chain hchain hroom
      obtain hsame | ⟨-, hspent⟩ := hspent
      · exact hseat.send chain (hsame.symm.trans hchain) hroom
      · exact absurd hroom hspent
  · rw [Function.update_of_ne hother]
    exact h.seat other

/-- **Sending** keeps both sides in step. -/
theorem step_encrypt (ideal : Ideal) (h : Synced bytes T pos c) (who : Role) (plaintext : Bytes) :
    ∃ T', Synced bytes T' pos (c.step (.encrypt who plaintext)) := by
  unfold Conversation.step
  dsimp only
  obtain ⟨hnone, hencrypt⟩ | ⟨chain, hchain, hcases⟩ :=
    (c.ratchet who).encrypt_cases ideal plaintext
  · rw [hencrypt]
    exact ⟨T, h.spends (Or.inl rfl)⟩
  obtain ⟨hspent, e, hencrypt⟩ | ⟨n, hn, hcases⟩ := hcases
  · rw [hencrypt]
    exact ⟨T, h.spends (Or.inr ⟨by rw [hchain]; exact nofun, hspent⟩)⟩
  obtain ⟨e, hencrypt⟩ | ⟨msg, hencrypt, hdh, hpn, hcounter, hct, hsealing⟩ := hcases
  · rw [hencrypt]
    have hposts := h.posts hchain hn none nofun c.produced fun t ht => Or.inl ht
    rw [Option.toList_none, List.append_nil, Function.update_eq_self] at hposts
    exact ⟨_, hposts⟩
  · rw [hencrypt]
    refine ⟨_, h.posts hchain hn (some (msg, plaintext)) ?_ _ ?_⟩
    · intro m p hm
      obtain ⟨rfl, rfl⟩ := Prod.mk.inj (Option.some.inj hm)
      exact ⟨hdh, hpn, hcounter, hct⟩
    · intro t ht
      obtain hold | hnew := List.mem_append.mp ht
      · exact Or.inl hold
      · rw [hsealing, Option.mem_toList] at hnew
        exact Or.inr ⟨msg, plaintext, rfl, (Option.some.inj hnew).symm⟩

/-- A message that is refused may have cost a keypair. -/
theorem keeps (h : Synced bytes T pos c) {rng : RandomSource}
    (hbytes : rng.bytes = (c.rng who).bytes)
    (hcalls : (c.rng who).calls ≤ rng.calls) :
    Synced bytes T pos { c with
      ratchet := Function.update c.ratchet who (c.ratchet who)
      rng := Function.update c.rng who rng } := by
  have hlater : ∀ other, (c.rng other).calls ≤ (Function.update c.rng who rng other).calls := by
    intro other
    by_cases hother : other = who
    · rw [hother, Function.update_self]
      exact hcalls
    · rw [Function.update_of_ne hother]
  rw [Function.update_eq_self]
  refine { h with draws := ?_, drawn := ?_ }
  · intro other
    dsimp only
    by_cases hother : other = who
    · subst hother
      rw [Function.update_self, hbytes]
      exact h.draws other
    · rw [Function.update_of_ne hother]
      exact h.draws other
  · intro other k hk
    obtain ⟨i, hi, hsecret⟩ := h.drawn other k hk
    exact ⟨i, hi.trans_le (hlater _), hsecret⟩

/-- A message of a chain at hand leaves its reader where it was. -/
theorem stays (h : Synced bytes T pos c) {trial : Ratchet}
    (hseat : Seat T (pos who) (msg :: c.received who) trial) :
    Synced bytes T pos { c with
      ratchet := Function.update c.ratchet who trial
      received := Function.update c.received who (msg :: c.received who) } := by
  refine { h with seat := ?_ }
  intro other
  dsimp only
  by_cases hother : other = who
  · subst hother
    rw [Function.update_self, Function.update_self]
    exact hseat
  · rw [Function.update_of_ne hother, Function.update_of_ne hother]
    exact h.seat other

/-- A message under a new key of the peer takes its reader to a key of its own after that one. -/
theorem turns (h : Synced bytes T pos c) {trial : Ratchet} {root chain : Key}
    (htop : max (pos who) (pos who.peer) = pos who + 1)
    (hvalid : (T.extend (pos who + 2) ((c.rng who).bytes (c.rng who).calls) root chain).Valid
      (pos who + 2))
    (hseat : Seat (T.extend (pos who + 2) ((c.rng who).bytes (c.rng who).calls) root chain)
      (pos who + 2) (msg :: c.received who) trial) :
    ∃ T' pos', Synced bytes T' pos' { c with
      ratchet := Function.update c.ratchet who trial
      rng := Function.update c.rng who { c.rng who with calls := (c.rng who).calls + 1 }
      received := Function.update c.received who (msg :: c.received who) } := by
  -- the peer is at the key between the old one of this side and the new one
  have hpeer : pos who.peer = pos who + 1 := by
    have hne : pos who < max (pos who) (pos who.peer) := by omega
    rw [lt_max_iff] at hne
    have := hne.resolve_left (lt_irrefl _)
    have := le_max_right (pos who) (pos who.peer)
    omega
  have hgrows : T.Grows (T.extend (pos who + 2) ((c.rng who).bytes (c.rng who).calls) root chain)
      (pos who + 1) := T.extend_grows _ root chain (Nat.lt_succ_self _)
  have hpos : ∀ other, Function.update pos who (pos who + 2) other =
      if other = who then pos who + 2 else pos who + 1 := by
    intro other
    by_cases hother : other = who
    · rw [hother, Function.update_self, if_pos rfl]
    · rw [Function.update_of_ne hother, if_neg hother, Role.eq_peer hother, hpeer]
  have htop' : ∀ other, max (Function.update pos who (pos who + 2) other)
      (Function.update pos who (pos who + 2) other.peer) = pos who + 2 := by
    intro other
    rw [top_eq _ who other, hpos, hpos, if_pos rfl, if_neg who.peer_ne]
    omega
  refine ⟨T.extend (pos who + 2) ((c.rng who).bytes (c.rng who).calls) root chain,
    Function.update pos who (pos who + 2), {
    owns := ?_
    near := ?_
    valid := ?_
    seat := ?_
    sent := h.sent
    produced := ?_
    draws := ?_
    bound := h.bound
    drawn := ?_ }⟩
  · intro other
    by_cases hother : other = who
    · rw [hother, Function.update_self, owner_add_two]
      exact h.owns who
    · rw [Function.update_of_ne hother]
      exact h.owns other
  · intro other
    rw [hpos, hpos]
    split <;> split <;> omega
  · intro other
    rw [htop']
    exact hvalid
  · intro other
    dsimp only
    by_cases hother : other = who
    · subst hother
      rw [Function.update_self, Function.update_self, Function.update_self]
      exact hseat
    · rw [Function.update_of_ne hother, Function.update_of_ne hother, Function.update_of_ne hother]
      have hnear : pos other = pos who + 1 := by rw [Role.eq_peer hother, hpeer]
      refine (h.seat other).grows ?_ rfl
      rw [hnear]
      exact hgrows
  · intro key aad ct hmem
    obtain ⟨k, n, m, plaintext, hmessage, hkey, hrest⟩ := h.produced _ _ _ hmem
    refine ⟨k, n, m, plaintext, hmessage, ?_, hrest⟩
    have hk := ((h.valid who).pos ((h.valid who).sent _ _ _ _ hmessage).1).2
    rw [hgrows.messageKey (hk.trans_eq htop)]
    exact hkey
  · intro other
    by_cases hother : other = who
    · subst hother
      dsimp only
      rw [Function.update_self]
      exact h.draws other
    · dsimp only
      rw [Function.update_of_ne hother]
      exact h.draws other
  · intro other k hk
    rw [htop'] at hk
    by_cases hnew : k = pos who + 2
    · refine ⟨(c.rng who).calls, ?_, ?_⟩
      · dsimp only
        rw [hnew, owner_add_two, h.owns, Function.update_self]
        exact Nat.lt_succ_self _
      · rw [hnew, owner_add_two, h.owns, ← h.draws]
        exact Function.update_self _ _ _
    · have hle : k ≤ pos who + 1 := by omega
      obtain ⟨i, hi, hsecret⟩ := h.drawn who k (hle.trans_eq htop.symm)
      refine ⟨i, hi.trans_le ?_, (hgrows.secret k hle).trans hsecret⟩
      by_cases howner : owner k = who
      · dsimp only
        rw [howner, Function.update_self]
        exact Nat.le_succ _
      · dsimp only
        rw [Function.update_of_ne howner]

/-- A message that is read leaves its reader where it was, or at a key of its own after the
peer's. -/
theorem goesOn (h : Synced bytes T pos c) {trial : Ratchet} {rng : RandomSource} {T' : Schedule}
    {k' : ℕ}
    (hseat : Seat T' k' (msg :: c.received who) trial)
    (hmoves : Seat.Moves T T' (max (pos who) (pos who.peer)) (pos who) k' (c.rng who) rng) :
    ∃ T' pos', Synced bytes T' pos' { c with
      ratchet := Function.update c.ratchet who trial
      rng := Function.update c.rng who rng
      received := Function.update c.received who (msg :: c.received who) } := by
  obtain ⟨rfl, rfl, rfl⟩ | ⟨htop, rfl, rfl, hvalid, root, chain, rfl⟩ := hmoves
  · rw [Function.update_eq_self]
    exact ⟨T', pos, h.stays hseat⟩
  · exact h.turns htop hvalid hseat

/-- **Receiving** keeps both sides in step, whatever message it is. -/
theorem step_decrypt (ideal : Ideal) {draws : Role → ℕ} (hfresh : Fresh bytes draws)
    (hdraws : ∀ who, (c.rng who).calls < draws who) (h : Synced bytes T pos c) (who : Role)
    (msg : RatchetMessage) (hauthentic : ¬ c.Unread who msg → c.Authentic msg)
    (hroom : c.Unread who msg → (c.ratchet who).Near msg → (c.ratchet who).HasRoom msg) :
    ∃ T' pos', Synced bytes T' pos' (c.step (.decrypt who msg)) := by
  have hkeeps : ∀ e, (c.ratchet who).decrypt msg (c.rng who) =
      (.error e, c.ratchet who, ((c.ratchet who).attempt msg (c.rng who)).2) →
      ∃ T' pos', Synced bytes T' pos' (c.step (.decrypt who msg)) := by
    intro e hdecrypt
    rw [Conversation.step_decrypt_error hdecrypt]
    obtain ⟨hbytes, hcalls⟩ := Ratchet.attempt_rng (c.ratchet who) msg (c.rng who)
    exact ⟨T, pos, h.keeps hbytes hcalls⟩
  by_cases hunread : c.Unread who msg
  · by_cases hattempt : ∃ key trial rng, (c.ratchet who).attempt msg (c.rng who) =
      (.ok (key, trial), rng)
    · obtain ⟨key, trial, rng, hattempt⟩ := hattempt
      obtain ⟨⟨plaintext, hsent⟩, hnew⟩ := hunread
      have hdhr : (c.ratchet who).recvChain ≠ none → (c.ratchet who).dhr ≠ none := by
        intro hchain
        cases hk : pos who with
        | zero => exact absurd ((h.seat who).recv_none (by omega)) hchain
        | succ j =>
          rw [(h.seat who).dhr j hk]
          exact nofun
      have hnear : (c.ratchet who).Near msg := Ratchet.bounds_of_attempt ideal hdhr hattempt
      obtain ⟨trial, rng, T', k', hdecrypt, hseat, hmoves⟩ := h.reads ideal hfresh hdraws hsent hnew
        ⟨hnear, hroom ⟨⟨plaintext, hsent⟩, hnew⟩ hnear⟩
      rw [Conversation.step_decrypt_ok hdecrypt]
      exact h.goesOn hseat hmoves
    · have hclosed : ∀ key trial rng, (c.ratchet who).attempt msg (c.rng who) =
        (.ok (key, trial), rng) →
          ∃ e, decryptWithKey key msg = .error e :=
        fun key trial rng hok => absurd ⟨key, trial, rng, hok⟩ hattempt
      obtain ⟨e, hdecrypt⟩ := Ratchet.decrypt_of_closed hclosed
      exact hkeeps e hdecrypt
  · obtain ⟨e, hdecrypt⟩ := h.refuses ideal (hauthentic hunread) hunread
    exact hkeeps e hdecrypt

end Synced

end ObbyClient.E2ee

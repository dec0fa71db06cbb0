import ObbyClient.E2ee.Conversation
import ObbyClient.E2ee.Symbols

/-!
# Delivery over an untrusted network

* `handshake_synced` — a handshake leaves both sides at the row of keys;
* `Run.synced` — and there they stay;
* `delivers` — what a side does with any message, in every run.
-/

namespace ObbyClient.E2ee

variable [Crypto]

/-! ### The handshake -/

/-- Both sides before the answer's first message was encrypted. -/
def opening (initiator responder : Ratchet) (rng : Role → RandomSource) : Conversation where
  ratchet := sides initiator responder
  rng := rng
  sent := sides [] []
  received := sides [] []
  produced := []

/-- The first two keys of the row. -/
def firstKeys (spkSecret ekSecret sk root chain : Key) : Schedule where
  secret k := if k = 0 then spkSecret else ekSecret
  root k := if k = 0 then sk else root
  chain _ := chain
  count _ := 0
  message _ _ := none

/-- Nothing is awaited where nothing was sent. -/
theorem not_awaited {T : Schedule} {k : ℕ} {received : List RatchetMessage} {r : Ratchet} {j n : ℕ}
    (hcount : ∀ i, T.count i = 0) (hn : r.nRecv = 0) : ¬ Awaited T k received r j n := by
  rintro ⟨-, -, hlt, -⟩
  unfold frontier at hlt
  rw [hcount, hn] at hlt
  split at hlt
  · exact Nat.not_lt_zero n hlt
  · exact Nat.not_lt_zero n hlt

theorem firstKeys_valid {spkSecret ekSecret sk dh1 dh2 dh3 dh4 shared root chain : Key}
    (hne : publicKey spkSecret ≠ publicKey ekSecret) (hsk : x3dhKdf dh1 dh2 dh3 dh4 = .ok sk)
    (hshared : diffieHellmanRaw ekSecret (publicKey spkSecret) = .ok shared)
    (hroot : kdfRoot sk shared = .ok (root, chain)) :
    (firstKeys spkSecret ekSecret sk root chain).Valid 1 := by
  refine ⟨⟨dh1, dh2, dh3, dh4, hsk⟩, ?_, ?_, rfl, fun _ _ => rfl, fun _ _ _ _ => nofun⟩
  · intro k hk
    obtain rfl := Nat.lt_one_iff.mp hk
    exact ⟨shared, hshared, hroot⟩
  · intro i hi j hj heq
    interval_cases i <;> interval_cases j
    · rfl
    · exact absurd heq hne
    · exact absurd heq.symm hne
    · rfl

theorem initiator_seat (T : Schedule) (hcount : ∀ i, T.count i = 0) :
    Seat T 0 [] (Ratchet.initAsInitiator (T.root 0) (T.secret 0) (T.publicOf 0)) where
  root := rfl
  secret := rfl
  dhsPublic := rfl
  dhr_zero _ := rfl
  dhr _ := nofun
  send_none _ := rfl
  send _ := nofun
  recv_none _ := rfl
  recv _ := nofun
  nSend := (hcount 0).symm
  prev := (hcount 0).symm
  nRecv := Nat.zero_le _
  store _ _ _ := iff_of_false nofun fun ⟨_, hawaited, _⟩ => not_awaited hcount rfl hawaited
  received _ := nofun

theorem responder_seat (T : Schedule) (hcount : ∀ i, T.count i = 0) :
    Seat T 1 [] {
      rootKey := T.root 1
      dhsSecret := T.secret 1
      dhsPublic := T.publicOf 1
      dhr := some (T.publicOf 0)
      sendChain := some (T.chain 1)
      recvChain := none
      nSend := 0
      nRecv := 0
      prevChainLen := 0
      skipped := SkippedKeys.new } where
  root := rfl
  secret := rfl
  dhsPublic := rfl
  dhr_zero := nofun
  dhr j hj := by rw [← Nat.succ.inj hj]
  send_none := nofun
  send chain hchain _ := (Option.some.inj hchain).symm
  recv_none _ := rfl
  recv j hj := absurd hj (by omega)
  nSend := (hcount 1).symm
  prev := (hcount 0).symm
  nRecv := Nat.zero_le _
  store _ _ _ := iff_of_false nofun fun ⟨_, hawaited, _⟩ => not_awaited hcount rfl hawaited
  received _ := nofun

theorem opening_synced {bytes : Role → ℕ → Key} {draws : Role → ℕ} (hfresh : Fresh bytes draws)
    {rng : Role → RandomSource} (hdraws : ∀ who, (rng who).calls < draws who)
    (hbytes : ∀ who, (rng who).bytes = bytes who) {i j : ℕ} (hi : i < (rng .initiator).calls)
    (hj : j < (rng .responder).calls) {sk dh1 dh2 dh3 dh4 shared root chain : Key}
    (hsk : x3dhKdf dh1 dh2 dh3 dh4 = .ok sk)
    (hshared : diffieHellmanRaw (bytes .responder j) (publicKey (bytes .initiator i)) = .ok shared)
    (hroot : kdfRoot sk shared = .ok (root, chain)) :
    Synced bytes (firstKeys (bytes .initiator i) (bytes .responder j) sk root chain) (sides 0 1)
      (opening
        (Ratchet.initAsInitiator sk (bytes .initiator i) (publicKey (bytes .initiator i)))
        {
          rootKey := root
          dhsSecret := bytes .responder j
          dhsPublic := publicKey (bytes .responder j)
          dhr := some (publicKey (bytes .initiator i))
          sendChain := some chain
          recvChain := none
          nSend := 0
          nRecv := 0
          prevChainLen := 0
          skipped := SkippedKeys.new } rng) := by
  have hne : publicKey (bytes .initiator i) ≠ publicKey (bytes .responder j) := by
    intro heq
    cases (hfresh _ _ _ _ (hi.trans (hdraws _)) (hj.trans (hdraws _)) heq).1
  have hvalid := firstKeys_valid hne hsk hshared hroot
  refine {
    owns := fun who => by cases who <;> rfl
    near := fun who => by cases who <;> decide
    valid := fun who => by cases who <;> exact hvalid
    seat := ?_
    sent := ?_
    produced := fun _ _ _ => nofun
    draws := hbytes
    bound := fun _ => Nat.zero_lt_succ _
    drawn := ?_ }
  · intro who
    cases who with
    | initiator =>
      exact initiator_seat (firstKeys (bytes .initiator i) (bytes .responder j) sk root chain)
        fun _ => rfl
    | responder =>
      exact responder_seat (firstKeys (bytes .initiator i) (bytes .responder j) sk root chain)
        fun _ => rfl
  · intro who m plaintext
    refine iff_of_false (by cases who <;> exact List.not_mem_nil) ?_
    rintro ⟨k, n, -, hmessage⟩
    cases hmessage
  · intro who k hk
    have hle : k ≤ 1 := by
      cases who <;> exact hk
    interval_cases k
    · exact ⟨i, hi, rfl⟩
    · exact ⟨j, hj, rfl⟩

/-- The first message passes over nothing. -/
theorem initAsInitiator_hasRoom (rootKey dhsSecret dhsPublic : Key) {msg : RatchetMessage}
    (hn : msg.n = 0) : (Ratchet.initAsInitiator rootKey dhsSecret dhsPublic).HasRoom msg := by
  have hjumps : (Ratchet.initAsInitiator rootKey dhsSecret dhsPublic).jumps msg = 0 := by
    have hstored : ¬ (SkippedKeys.new.byId (msg.dh, msg.n) ≠ none) := not_not.mpr rfl
    unfold Ratchet.jumps Ratchet.initAsInitiator
    dsimp only
    rw [if_neg hstored, if_neg nofun, hn]
    rfl
  have hleaves : (Ratchet.initAsInitiator rootKey dhsSecret dhsPublic).leaves msg = 0 :=
    if_pos (Or.inr (Or.inr rfl))
  unfold Ratchet.HasRoom
  rw [hjumps, hleaves]
  exact Nat.zero_le _

/-- **A handshake leaves both sides at the row of keys.** -/
theorem handshake_synced (ideal : Ideal) {identity : Role → Identity} {rng : Role → RandomSource}
    {draws : Role → ℕ} (hfresh : Fresh (fun who => (rng who).bytes) draws) {c : Conversation}
    (hdraws : ∀ who, (c.rng who).calls < draws who) (h : handshake identity rng = .ok c) :
    ∃ T pos, Synced (fun who => (rng who).bytes) T pos c := by
  unfold handshake at h
  split at h
  · cases h
  rename_i pending rngInitiator hcreate
  split at h
  · cases h
  rename_i response responder rngResponder haccept
  split at h
  · cases h
  rename_i initiator rngInitiator' hcomplete
  obtain ⟨hrngI, hspk, hik, hspkPublic, hopk⟩ := createOffer_spec hcreate
  obtain ⟨hrngR, hikR, hek, before, hbefore, hencrypt⟩ := acceptOffer_spec haccept
  obtain ⟨sk', first, hsk', hdecrypt⟩ := completeHandshake_spec hcomplete
  obtain ⟨sk, dh1, dh2, dh3, dh4, shared, root, chain, hsk, hkdf, hshared, hroot, rfl⟩ :=
    responderRatchet_spec hbefore
  -- both sides derived one secret
  rw [hikR, hek, x3dhSecretInitiator_eq ideal, ← hik, ← hspkPublic, ← hopk] at hsk'
  rw [hsk] at hsk'
  obtain rfl := Except.ok.inj hsk'
  have hbytes : ∀ who, (sides rngInitiator rngResponder who).bytes = (rng who).bytes := by
    intro who
    cases who with
    | initiator =>
      show rngInitiator.bytes = _
      rw [hrngI]
    | responder =>
      show rngResponder.bytes = _
      rw [hrngR]
  have hdrawnI : (rng .initiator).calls < (sides rngInitiator rngResponder .initiator).calls := by
    show _ < rngInitiator.calls
    rw [hrngI]
    exact Nat.lt_add_of_pos_right (Nat.zero_lt_succ 1)
  have hdrawnR : (rng .responder).calls < (sides rngInitiator rngResponder .responder).calls := by
    show _ < rngResponder.calls
    rw [hrngR]
    exact Nat.lt_succ_self _
  -- reading the answer's first message draws no less than was drawn
  have hdraws' : ∀ who, (sides rngInitiator rngResponder who).calls < draws who := by
    obtain rfl := Except.ok.inj h
    intro who
    cases who with
    | initiator =>
      refine lt_of_le_of_lt ?_ (hdraws .initiator)
      show rngInitiator.calls ≤ rngInitiator'.calls
      have hcalls := (Ratchet.initAsInitiator sk pending.spkSecret pending.bundle.spk).decrypt_calls
        response.boot rngInitiator
      rw [hdecrypt] at hcalls
      exact hcalls
    | responder => exact hdraws .responder
  rw [hspkPublic, hspk] at hshared hdecrypt hencrypt hbefore
  have hopening := opening_synced hfresh hdraws' hbytes hdrawnI hdrawnR hkdf hshared hroot
  -- the answer's first message is the first call of either side, and reading it the second
  obtain ⟨T, hanswered⟩ := hopening.step_encrypt ideal .responder []
  rw [Conversation.step_encrypt_ok hencrypt] at hanswered
  dsimp only [opening] at hanswered
  rw [update_responder, update_responder] at hanswered
  obtain ⟨-, -, hboot, -⟩ := Ratchet.encrypt_ok ideal hencrypt
  have hroom := initAsInitiator_hasRoom sk ((rng .initiator).bytes (rng .initiator).calls)
    (publicKey ((rng .initiator).bytes (rng .initiator).calls)) hboot
  obtain ⟨T', pos', hread⟩ := hanswered.step_decrypt ideal hfresh hdraws' .initiator response.boot
    (fun hnot => absurd ⟨⟨[], List.mem_singleton_self _⟩, List.not_mem_nil⟩ hnot) fun _ _ => hroom
  rw [Conversation.step_decrypt_ok hdecrypt] at hread
  dsimp only at hread
  rw [update_initiator, update_initiator, update_initiator] at hread
  refine ⟨T', pos', ?_⟩
  obtain rfl := Except.ok.inj h
  rw [hbefore]
  exact hread

/-! ### Runs -/

variable {bytes : Role → ℕ → Key} {start c : Conversation}

theorem Run.calls_le (hrun : Run start c) (who : Role) : (start.rng who).calls ≤
    (c.rng who).calls := by
  induction hrun with
  | refl => exact le_rfl
  | encrypt _ _ _ ih => exact ih.trans (Conversation.step_calls _ _ who)
  | decrypt _ _ _ _ _ ih => exact ih.trans (Conversation.step_calls _ _ who)

/-- **Both sides stay at the row of keys**, whatever the network does. -/
theorem Run.synced (ideal : Ideal) {draws : Role → ℕ} (hfresh : Fresh bytes draws)
    (hstart : ∃ T pos, Synced bytes T pos start) (hrun : Run start c)
    (hdraws : ∀ who, (c.rng who).calls < draws who) : ∃ T pos, Synced bytes T pos c := by
  induction hrun with
  | refl => exact hstart
  | encrypt who plaintext _ ih =>
    obtain ⟨T, pos, h⟩ := ih fun other =>
      (Conversation.step_calls _ _ other).trans_lt (hdraws other)
    obtain ⟨T', h'⟩ := h.step_encrypt ideal who plaintext
    exact ⟨T', pos, h'⟩
  | decrypt who msg _ hauthentic hroom ih =>
    have hbefore := fun other => (Conversation.step_calls _ _ other).trans_lt (hdraws other)
    obtain ⟨T, pos, h⟩ := ih hbefore
    exact h.step_decrypt ideal hfresh hbefore who msg (fun _ => hauthentic) hroom

/-- **What a side does with a message.**  After a handshake, in every run in which the cipher was
not broken and no key gave way to another, and no keypair was drawn twice: a message of the peer's
that was not read yet is read, within the bounds of the code, and anything else is refused and
changes nothing. -/
theorem delivers (ideal : Ideal) {identity : Role → Identity} {rng : Role → RandomSource}
    (hstart : handshake identity rng = .ok start) (hrun : Run start c)
    (hfresh : Fresh (fun who => (rng who).bytes) fun who => (c.rng who).calls + 1) (who : Role)
    {msg : RatchetMessage} (hauthentic : c.Authentic msg) :
    (∀ plaintext, (msg, plaintext) ∈ c.sent who.peer → msg ∉ c.received who →
      (c.ratchet who).leaves msg ≤ maxSkip → (c.ratchet who).jumps msg ≤ maxSkip →
      (c.ratchet who).HasRoom msg →
        ((c.ratchet who).decrypt msg (c.rng who)).1 = .ok plaintext) ∧
    ((∀ plaintext, (msg, plaintext) ∉ c.sent who.peer) ∨ msg ∈ c.received who →
      ∃ e rng', (c.ratchet who).decrypt msg (c.rng who) = (.error e, c.ratchet who, rng')) := by
  have hdraws : ∀ who, (c.rng who).calls < (c.rng who).calls + 1 := fun who => Nat.lt_succ_self _
  have hbegun := handshake_synced ideal hfresh (fun who =>
    Nat.lt_succ_of_le (hrun.calls_le who)) hstart
  obtain ⟨T, pos, h⟩ := hrun.synced ideal hfresh hbegun hdraws
  refine ⟨?_, ?_⟩
  · intro plaintext hsent hunread hleaves hjumps hroom
    obtain ⟨trial, rng', T', k', hdecrypt, -⟩ :=
      h.reads ideal hfresh hdraws hsent hunread ⟨⟨hleaves, hjumps⟩, hroom⟩
    rw [hdecrypt]
  · intro hother
    have hnot : ¬ c.Unread who msg := by
      rintro ⟨⟨plaintext, hsent⟩, hunread⟩
      obtain hforged | hread := hother
      · exact hforged plaintext hsent
      · exact hunread hread
    obtain ⟨e, hdecrypt⟩ := h.refuses ideal hauthentic hnot
    exact ⟨e, _, hdecrypt⟩

/-! ### A conversation in symbols -/

/-- Secrets that tell who drew them, and when. -/
def secrets : Role → ℕ → Bytes
  | .initiator, i => 1 :: List.replicate i 0
  | .responder, i => 2 :: List.replicate i 0

omit [Crypto] in
theorem secrets_fresh (draws : Role → ℕ) : @Fresh Crypto.symbols secrets draws := by
  intro who i who' i' _ _ h
  have hsame : secrets who i = secrets who' i' := (List.cons.inj h).2
  cases who <;> cases who'
  · have hlength := congrArg List.length (List.cons.inj hsame).2
    simp only [List.length_replicate] at hlength
    exact ⟨rfl, hlength⟩
  · exact absurd (List.cons.inj hsame).1 (by decide)
  · exact absurd (List.cons.inj hsame).1 (by decide)
  · have hlength := congrArg List.length (List.cons.inj hsame).2
    simp only [List.length_replicate] at hlength
    exact ⟨rfl, hlength⟩

/-- A handshake with those secrets. -/
def symbolHandshake : Except Error (@Conversation Crypto.symbols) :=
  letI := Crypto.symbols
  handshake (fun who => (Identity.generate ⟨secrets who, 8⟩).1) fun who => ⟨secrets who, 0⟩

omit [Crypto] in
/-- The initiator's first message is read, or refused once it was. -/
theorem delivers_first : letI := Crypto.symbols
    ∃ start msg, symbolHandshake = .ok start ∧
      (msg, [104, 105]) ∈ (start.step (.encrypt .initiator [104, 105])).sent .initiator ∧
      let c := start.step (.encrypt .initiator [104, 105])
      (∀ plaintext, (msg, plaintext) ∈ c.sent .initiator → msg ∉ c.received .responder →
        (c.ratchet .responder).leaves msg ≤ maxSkip → (c.ratchet .responder).jumps msg ≤ maxSkip →
        (c.ratchet .responder).HasRoom msg →
          ((c.ratchet .responder).decrypt msg (c.rng .responder)).1 = .ok plaintext) ∧
      ((∀ plaintext, (msg, plaintext) ∉ c.sent .initiator) ∨ msg ∈ c.received .responder →
        ∃ e rng', (c.ratchet .responder).decrypt msg (c.rng .responder) =
          (.error e, c.ratchet .responder, rng')) := by
  let _ := Crypto.symbols
  have hruns : (symbolHandshake.toOption.bind fun start =>
      ((start.ratchet .initiator).encrypt [104, 105]).1.toOption).isSome = true := by decide +kernel
  cases hstart : symbolHandshake with
  | error e =>
    rw [hstart] at hruns
    cases hruns
  | ok start =>
    rw [hstart] at hruns
    cases hencrypt : (start.ratchet .initiator).encrypt [104, 105] with
    | mk sent r =>
      cases sent with
      | error e =>
        simp [Except.toOption, hencrypt] at hruns
      | ok msg =>
        obtain ⟨chain, -, -, hct, hsealing⟩ := Ratchet.encrypt_ok symbols_ideal hencrypt
        have hstep := Conversation.step_encrypt_ok hencrypt
        refine ⟨start, msg, rfl, ?_, ?_⟩
        · rw [hstep]
          dsimp only
          rw [Function.update_self]
          exact List.mem_append_right _ List.mem_cons_self
        · refine delivers symbols_ideal hstart (Run.encrypt _ _ Run.refl) (secrets_fresh _)
            .responder ?_
          intro key opened hopen
          obtain ⟨rfl, -⟩ := symbols_opened hct hopen
          rw [hstep, hsealing]
          exact List.mem_append_right _ List.mem_cons_self

end ObbyClient.E2ee

import ObbyClient.E2ee.Ratchet

/-!
# The keys of a conversation

Between them the two sides draw one row of ratchet keys, each in turn the next.  Every key but the
first starts a chain, and every place in a chain has its message key.

* `Schedule` — the row, and what was sent under each key;
* `Schedule.Valid` — each root key and chain is derived from the last;
* `Schedule.messageKey_injective` — no two places have one message key.
-/

namespace ObbyClient.E2ee

variable [Crypto]

/-- The row of ratchet keys of a conversation.  The initiator's are the even ones.  Of each chain,
how many places were used, and the messages sent from them. -/
structure Schedule where
  secret : ℕ → Key
  root : ℕ → Key
  chain : ℕ → Key
  count : ℕ → ℕ
  message : ℕ → ℕ → Option (RatchetMessage × Bytes)

namespace Schedule

/-- The ratchet key that messages of a chain name. -/
def publicOf (T : Schedule) (k : ℕ) : Key := publicKey (T.secret k)

/-- The chain key at a place. -/
def chainAt (T : Schedule) (k n : ℕ) : Key := along (T.chain k) n

/-- The key of the message at a place. -/
def messageKey (T : Schedule) (k n : ℕ) : Key := (advance (T.chainAt k n)).1

/-- The row up to a key is as the derivations give it, and what was sent is as the ratchet sends
it. -/
structure Valid (T : Schedule) (top : ℕ) : Prop where
  opened : ∃ dh1 dh2 dh3 dh4, x3dhKdf dh1 dh2 dh3 dh4 = .ok (T.root 0)
  turn : ∀ k < top, ∃ shared, diffieHellmanRaw (T.secret (k + 1)) (T.publicOf k) = .ok shared ∧
    kdfRoot (T.root k) shared = .ok (T.root (k + 1), T.chain (k + 1))
  distinct : ∀ i ≤ top, ∀ j ≤ top, T.publicOf i = T.publicOf j → i = j
  count_zero : T.count 0 = 0
  count_beyond : ∀ k, top < k → T.count k = 0
  sent : ∀ k n m plaintext, T.message k n = some (m, plaintext) →
    n < T.count k ∧ m.dh = T.publicOf k ∧ m.pn.toNat = T.count (k - 2) ∧ m.n.toNat = n ∧
      aeadEncrypt (T.messageKey k n) m.aad (pad plaintext) = .ok m.ct

variable {T : Schedule} {top : ℕ}

theorem Valid.pos (h : T.Valid top) {k n : ℕ} (hn : n < T.count k) : 0 < k ∧ k ≤ top := by
  refine ⟨Nat.pos_of_ne_zero ?_, ?_⟩
  · rintro rfl
    rw [h.count_zero] at hn
    exact Nat.not_lt_zero n hn
  · by_contra hbeyond
    rw [h.count_beyond k (not_le.mp hbeyond)] at hn
    exact Nat.not_lt_zero n hn

theorem Valid.key_root (h : T.Valid top) {k : ℕ} (hk : k < top) :
    ∃ shared, (Derivation.root (T.root k) shared).key = .ok (T.root (k + 1)) := by
  obtain ⟨shared, -, hroot⟩ := h.turn k hk
  exact ⟨shared, E2ee.key_root hroot⟩

theorem Valid.key_chain (h : T.Valid top) {k : ℕ} (hk : k < top) :
    ∃ shared, (Derivation.chain (T.root k) shared).key = .ok (T.chain (k + 1)) := by
  obtain ⟨shared, -, hroot⟩ := h.turn k hk
  exact ⟨shared, E2ee.key_chain hroot⟩

/-- No two root keys of the row are one. -/
theorem root_injective (ideal : Ideal) (h : T.Valid top) :
    ∀ {i j : ℕ}, i ≤ top → j ≤ top → T.root i = T.root j → i = j := by
  -- a root is derived from the one before it, the first from the handshake alone
  have hfirst : ∀ j < top, T.root 0 ≠ T.root (j + 1) := by
    intro j hj heq
    obtain ⟨dh1, dh2, dh3, dh4, hopened⟩ := h.opened
    obtain ⟨shared, hroot⟩ := h.key_root hj
    have hsame : (Derivation.x3dh dh1 dh2 dh3 dh4).key = .ok (T.root (j + 1)) := by
      rw [← heq]
      exact hopened
    cases ideal.collisionFree hsame hroot
  intro i
  induction i with
  | zero =>
    intro j _ hj heq
    cases j with
    | zero => rfl
    | succ j => exact absurd heq (hfirst j hj)
  | succ i ih =>
    intro j hi hj heq
    cases j with
    | zero => exact absurd heq.symm (hfirst i hi)
    | succ j =>
      obtain ⟨shared, hroot⟩ := h.key_root hi
      obtain ⟨shared', hroot'⟩ := h.key_root hj
      rw [heq] at hroot
      obtain ⟨hprevious, -⟩ := Derivation.root.inj (ideal.collisionFree hroot hroot')
      rw [ih (Nat.le_of_succ_le hi) (Nat.le_of_succ_le hj) hprevious]

/-- Chains that start apart go on apart. -/
theorem along_injective (ideal : Ideal) {rootKey rootKey' shared shared' chain chain' : Key}
    (h : (Derivation.chain rootKey shared).key = .ok chain)
    (h' : (Derivation.chain rootKey' shared').key = .ok chain') :
    ∀ {n n' : ℕ}, along chain n = along chain' n' → n = n' ∧ rootKey = rootKey' := by
  intro n
  induction n with
  | zero =>
    intro n' heq
    cases n' with
    | zero =>
      rw [along_zero, along_zero] at heq
      rw [heq] at h
      exact ⟨rfl, (Derivation.chain.inj (ideal.collisionFree h h')).1⟩
    | succ n' =>
      rw [along_zero, along_succ] at heq
      rw [heq] at h
      cases ideal.collisionFree h (key_next ideal _)
  | succ n ih =>
    intro n' heq
    cases n' with
    | zero =>
      rw [along_zero, along_succ] at heq
      rw [← heq] at h'
      cases ideal.collisionFree (key_next ideal _) h'
    | succ n' =>
      rw [along_succ, along_succ] at heq
      obtain ⟨rfl, hroot⟩ := ih (advance_snd_injective ideal heq)
      exact ⟨rfl, hroot⟩

/-- A message key that some place of the row has is found only on that place's chain. -/
theorem messageKey_found (ideal : Ideal) (h : T.Valid top) {rootKey shared chain : Key}
    (hchain : (Derivation.chain rootKey shared).key = .ok chain) {k n n' : ℕ} (hk : k < top)
    (heq : (advance (along chain n')).1 = T.messageKey (k + 1) n) :
      n' = n ∧ rootKey = T.root k := by
  obtain ⟨shared', hchain'⟩ := h.key_chain hk
  exact along_injective ideal hchain hchain' (advance_fst_injective ideal heq)

/-- **No two places have one message key.** -/
theorem messageKey_injective (ideal : Ideal) (h : T.Valid top) {i j n n' : ℕ} (hi : 0 < i ∧ i ≤ top)
    (hj : 0 < j ∧ j ≤ top) (heq : T.messageKey i n = T.messageKey j n') : i = j ∧ n = n' := by
  obtain ⟨i, rfl⟩ := Nat.exists_eq_succ_of_ne_zero hi.1.ne'
  obtain ⟨j, rfl⟩ := Nat.exists_eq_succ_of_ne_zero hj.1.ne'
  obtain ⟨shared, hchain⟩ := h.key_chain hi.2
  obtain ⟨rfl, hroot⟩ := messageKey_found ideal h hchain hj.2 heq
  have hij := root_injective ideal h (Nat.le_of_succ_le hi.2) (Nat.le_of_succ_le hj.2) hroot
  exact ⟨congrArg Nat.succ hij, rfl⟩

/-! ### How the row goes on -/

/-- What was sent under one key goes one place further. -/
def post (T : Schedule) (k : ℕ) (sent : Option (RatchetMessage × Bytes)) : Schedule :=
  { T with
    count := Function.update T.count k (T.count k + 1)
    message := Function.update T.message k (Function.update (T.message k) (T.count k) sent) }

/-- A key more. -/
def extend (T : Schedule) (k : ℕ) (secret root chain : Key) : Schedule :=
  { T with
    secret := Function.update T.secret k secret
    root := Function.update T.root k root
    chain := Function.update T.chain k chain }

/-- Below the `k`-th key nothing changes but, perhaps, that more was sent on the chain before. -/
structure Grows (T T' : Schedule) (k : ℕ) : Prop where
  secret : ∀ i ≤ k, T'.secret i = T.secret i
  root : ∀ i ≤ k, T'.root i = T.root i
  chain : ∀ i ≤ k, T'.chain i = T.chain i
  count : ∀ i < k, i + 1 ≠ k → T'.count i = T.count i
  count_zero : T'.count 0 = T.count 0
  count_le : T.count (k - 1) ≤ T'.count (k - 1)
  message : ∀ i < k, ∀ n < T.count i, T'.message i n = T.message i n

theorem Grows.publicOf {T' : Schedule} {k i : ℕ} (h : T.Grows T' k) (hi : i ≤ k) :
    T'.publicOf i = T.publicOf i := congrArg publicKey (h.secret i hi)

theorem Grows.messageKey {T' : Schedule} {k i n : ℕ} (h : T.Grows T' k) (hi : i ≤ k) :
    T'.messageKey i n = T.messageKey i n := by
  unfold Schedule.messageKey chainAt
  rw [h.chain i hi]

theorem extend_grows (T : Schedule) {k i : ℕ} (secret root chain : Key) (h : i < k) :
    T.Grows (T.extend k secret root chain) i where
  secret _ hj := Function.update_of_ne (hj.trans_lt h).ne _ _
  root _ hj := Function.update_of_ne (hj.trans_lt h).ne _ _
  chain _ hj := Function.update_of_ne (hj.trans_lt h).ne _ _
  count _ _ _ := rfl
  count_zero := rfl
  count_le := le_rfl
  message _ _ _ _ := rfl

/-- **The row goes on** with a key that was not in it. -/
theorem Valid.extend (ideal : Ideal) (h : T.Valid top) {secret : Key}
    (hfresh : ∀ i ≤ top, T.publicOf i ≠ publicKey secret) {root chain : Key}
    (hturn : kdfRoot (T.root top) (Crypto.diffieHellman secret (T.publicOf top)) =
      .ok (root, chain)) :
    (T.extend (top + 1) secret root chain).Valid (top + 1) := by
  have hgrows := T.extend_grows secret root chain (Nat.lt_succ_self top)
  have hself : (T.extend (top + 1) secret root chain).publicOf (top + 1) = publicKey secret := by
    show publicKey (Function.update T.secret (top + 1) secret (top + 1)) = _
    rw [Function.update_self]
  refine ⟨?_, ?_, ?_, h.count_zero, ?_, ?_⟩
  · obtain ⟨dh1, dh2, dh3, dh4, hopened⟩ := h.opened
    refine ⟨dh1, dh2, dh3, dh4, ?_⟩
    rw [hgrows.root 0 (Nat.zero_le _)]
    exact hopened
  · intro i hi
    obtain hlt | rfl := Nat.lt_succ_iff_lt_or_eq.mp hi
    · obtain ⟨shared, hshared, hroot⟩ := h.turn i hlt
      refine ⟨shared, ?_, ?_⟩
      · rw [hgrows.secret (i + 1) hlt, hgrows.publicOf hlt.le]
        exact hshared
      · rw [hgrows.root i hlt.le, hgrows.root (i + 1) hlt, hgrows.chain (i + 1) hlt]
        exact hroot
    · refine ⟨Crypto.diffieHellman secret (T.publicOf i), ?_, ?_⟩
      · rw [hgrows.publicOf le_rfl]
        show diffieHellmanRaw (Function.update T.secret (i + 1) secret (i + 1)) _ = _
        rw [Function.update_self]
        exact diffieHellmanRaw_publicKey ideal _ _
      · rw [hgrows.root i le_rfl, hturn]
        refine congrArg Except.ok (Prod.ext ?_ ?_)
        · exact (Function.update_self (i + 1) root T.root).symm
        · exact (Function.update_self (i + 1) chain T.chain).symm
  · intro i hi j hj heq
    obtain hi | rfl := Nat.le_succ_iff.mp hi
    · obtain hj | rfl := Nat.le_succ_iff.mp hj
      · rw [hgrows.publicOf hi, hgrows.publicOf hj] at heq
        exact h.distinct i hi j hj heq
      · rw [hgrows.publicOf hi, hself] at heq
        exact absurd heq (hfresh i hi)
    · obtain hj | rfl := Nat.le_succ_iff.mp hj
      · rw [hgrows.publicOf hj, hself] at heq
        exact absurd heq.symm (hfresh j hj)
      · rfl
  · intro i hi
    exact h.count_beyond i (Nat.lt_of_succ_lt hi)
  · intro i n m plaintext hsent
    obtain ⟨hn, hdh, hpn, hcounter, hct⟩ := h.sent i n m plaintext hsent
    have hi := (h.pos hn).2
    refine ⟨hn, ?_, hpn, hcounter, ?_⟩
    · rw [hgrows.publicOf hi]
      exact hdh
    · rw [hgrows.messageKey hi]
      exact hct

theorem post_message (T : Schedule) (k : ℕ) (sent : Option (RatchetMessage × Bytes)) (i n : ℕ) :
    (T.post k sent).message i n = if i = k ∧ n = T.count k then sent else T.message i n := by
  show Function.update T.message k _ i n = _
  by_cases hi : i = k
  · rw [hi, Function.update_self]
    by_cases hn : n = T.count k
    · rw [hn, Function.update_self, if_pos ⟨rfl, rfl⟩]
    · rw [Function.update_of_ne hn, if_neg fun h => hn h.2]
  · rw [Function.update_of_ne hi, if_neg fun h => hi h.1]

theorem post_count_of_ne (T : Schedule) {k i : ℕ} (sent : Option (RatchetMessage × Bytes))
    (h : i ≠ k) :
    (T.post k sent).count i = T.count i := Function.update_of_ne h _ _

theorem post_count_self (T : Schedule) (k : ℕ) (sent : Option (RatchetMessage × Bytes)) :
    (T.post k sent).count k = T.count k + 1 := Function.update_self _ _ _

/-- What was sent stays. -/
theorem Valid.post_of_sent (h : T.Valid top) {k i n : ℕ} {sent : Option (RatchetMessage × Bytes)}
    {p : RatchetMessage × Bytes} (hsent : T.message i n = some p) :
    (T.post k sent).message i n = some p := by
  rw [post_message, if_neg]
  · exact hsent
  · rintro ⟨rfl, rfl⟩
    exact absurd (h.sent _ _ _ _ hsent).1 (lt_irrefl _)

/-- What was sent once a place is used: what is sent there, and what was sent before. -/
theorem Valid.post_message_iff (h : T.Valid top) {k i n : ℕ}
    {sent : Option (RatchetMessage × Bytes)}
    {p : RatchetMessage × Bytes} : (T.post k sent).message i n = some p ↔
      (i = k ∧ n = T.count k) ∧ sent = some p ∨ T.message i n = some p := by
  constructor
  · intro hm
    rw [post_message, ite_eq_iff] at hm
    exact hm.imp_right And.right
  · rintro (⟨hhere, hm⟩ | hm)
    · rw [post_message, if_pos hhere]
      exact hm
    · exact h.post_of_sent hm

theorem post_grows (T : Schedule) {k i : ℕ} (sent : Option (RatchetMessage × Bytes)) (hk : 0 < k)
    (h : i ≤ k + 1) : T.Grows (T.post k sent) i where
  secret _ _ := rfl
  root _ _ := rfl
  chain _ _ := rfl
  count j hj hne := T.post_count_of_ne sent (by omega)
  count_zero := T.post_count_of_ne sent hk.ne
  count_le := by
    by_cases hi : i - 1 = k
    · rw [hi, post_count_self]
      exact Nat.le_succ _
    · exact (T.post_count_of_ne sent hi).ge
  message j _ n hn := by
    rw [post_message, if_neg]
    rintro ⟨rfl, rfl⟩
    exact absurd hn (lt_irrefl _)

/-- **The row goes on** with one place more, used as the ratchet uses it. -/
theorem Valid.post (h : T.Valid top) {k : ℕ} (hk : 0 < k ∧ k ≤ top) (htop : top ≤ k + 1)
    {sent : Option (RatchetMessage × Bytes)}
    (hsent : ∀ m plaintext, sent = some (m, plaintext) →
      m.dh = T.publicOf k ∧ m.pn.toNat = T.count (k - 2) ∧ m.n.toNat = T.count k ∧
        aeadEncrypt (T.messageKey k (T.count k)) m.aad (pad plaintext) = .ok m.ct) :
    (T.post k sent).Valid top := by
  refine ⟨h.opened, h.turn, h.distinct, ?_, ?_, ?_⟩
  · rw [T.post_count_of_ne sent hk.1.ne]
    exact h.count_zero
  · intro i hi
    rw [T.post_count_of_ne sent (by omega)]
    exact h.count_beyond i hi
  · intro i n m plaintext hm
    rw [post_message] at hm
    split at hm
    · rename_i hhere
      obtain ⟨rfl, rfl⟩ := hhere
      obtain ⟨hdh, hpn, hn, hct⟩ := hsent m plaintext hm
      refine ⟨?_, hdh, ?_, hn, hct⟩
      · rw [post_count_self]
        exact Nat.lt_succ_self _
      · rw [T.post_count_of_ne sent (by omega)]
        exact hpn
    · obtain ⟨hn, hdh, hpn, hcounter, hct⟩ := h.sent i n m plaintext hm
      have hi := h.pos hn
      refine ⟨?_, hdh, ?_, hcounter, hct⟩
      · by_cases hik : i = k
        · rw [hik] at hn ⊢
          rw [post_count_self]
          exact Nat.lt_succ_of_lt hn
        · rw [T.post_count_of_ne sent hik]
          exact hn
      · rw [T.post_count_of_ne sent (by omega)]
        exact hpn

end Schedule

end ObbyClient.E2ee

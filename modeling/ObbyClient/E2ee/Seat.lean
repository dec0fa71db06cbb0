import ObbyClient.E2ee.Schedule

/-!
# Where a side is in the row of keys

A side that draws the `k`-th key sends on its chain and receives on the one before.  Of the chains
before that it holds the keys of the messages it passed over and has not read.

* `Seat` — what a ratchet is at the `k`-th key, after what it read;
* `Seat.skip`, `Seat.next`, `Seat.take`, `Seat.turn` — each move of a ratchet keeps it;
* `Seat.accept` — a message still to be read is found under its key;
* `Seat.attempted` — nothing else is ever tried with the key of its own place.
-/

namespace ObbyClient.E2ee

variable [Crypto]

/-- How much of a chain a side has passed, reading or not. -/
def frontier (T : Schedule) (k : ℕ) (r : Ratchet) (j : ℕ) : ℕ :=
  if j + 1 = k then r.nRecv.toNat else T.count j

/-- A place of the peer's that was passed and not read. -/
def Awaited (T : Schedule) (k : ℕ) (received : List RatchetMessage) (r : Ratchet) (j n : ℕ) :
    Prop :=
  j < k ∧ j % 2 ≠ k % 2 ∧ n < frontier T k r j ∧
    ∀ m plaintext, T.message j n = some (m, plaintext) → m ∉ received

/-- A ratchet at the `k`-th key of the row, which has read what is listed. -/
structure Seat (T : Schedule) (k : ℕ) (received : List RatchetMessage) (r : Ratchet) : Prop where
  root : r.rootKey = T.root k
  secret : r.dhsSecret = T.secret k
  dhsPublic : r.dhsPublic = T.publicOf k
  dhr_zero : k = 0 → r.dhr = none
  dhr : ∀ j, k = j + 1 → r.dhr = some (T.publicOf j)
  send_none : k = 0 → r.sendChain = none
  send : ∀ chain, r.sendChain = some chain → r.nSend.toNat + 1 < UInt32.size →
    chain = T.chainAt k r.nSend.toNat
  recv_none : k ≤ 1 → r.recvChain = none
  recv : ∀ j, k = j + 2 → r.recvChain = some (T.chainAt (j + 1) r.nRecv.toNat)
  nSend : r.nSend.toNat = T.count k
  prev : r.prevChainLen.toNat = T.count (k - 2)
  nRecv : r.nRecv.toNat ≤ T.count (k - 1)
  store : ∀ dh n key, r.skipped.byId (dh, n) = some key ↔
    ∃ j, Awaited T k received r j n.toNat ∧ dh = T.publicOf j ∧ key = T.messageKey j n.toNat
  received : ∀ m ∈ received, ∃ j n plaintext, T.message j n = some (m, plaintext) ∧ j < k ∧
    j % 2 ≠ k % 2 ∧ n < frontier T k r j

variable {T T' : Schedule} {top k : ℕ} {received : List RatchetMessage} {r : Ratchet}

/-- A message is at one place only. -/
theorem Schedule.Valid.place (h : T.Valid top) {i j n n' : ℕ} {m : RatchetMessage} {p p' : Bytes}
    (hi : T.message i n = some (m, p)) (hj : T.message j n' = some (m, p')) : i = j ∧ n = n' := by
  obtain ⟨hn, hdh, -, hcounter, -⟩ := h.sent i n m p hi
  obtain ⟨hn', hdh', -, hcounter', -⟩ := h.sent j n' m p' hj
  refine ⟨?_, hcounter.symm.trans hcounter'⟩
  exact h.distinct i (h.pos hn).2 j (h.pos hn').2 (hdh.symm.trans hdh')

namespace Seat

theorem frontier_le (h : Seat T k received r) {j : ℕ} : frontier T k r j ≤ T.count j := by
  unfold frontier
  split
  · rename_i hj
    obtain rfl : j = k - 1 := by omega
    exact h.nRecv
  · exact le_rfl

/-- What lies ahead of a side it has not read. -/
theorem unread (h : Seat T k received r) (hvalid : T.Valid top) {j n : ℕ} {m : RatchetMessage}
    {plaintext : Bytes} (hsent : T.message j n = some (m, plaintext))
    (hahead : j < k → frontier T k r j ≤ n) : m ∉ received := by
  intro hmem
  obtain ⟨j', n', plaintext', hsent', hj, -, hn⟩ := h.received m hmem
  obtain ⟨rfl, rfl⟩ := hvalid.place hsent hsent'
  exact absurd hn (not_lt.mpr (hahead hj))

/-- **A seat lasts** while the row grows, wherever its own chain goes. -/
theorem sends (h : Seat T k received r) (hgrows : T.Grows T' k) {sendChain : Option Key}
    {n : UInt32}
    (hn : n.toNat = T'.count k) (hnone : k = 0 → sendChain = none)
    (hsend : ∀ chain, sendChain = some chain →
      n.toNat + 1 < UInt32.size → chain = T'.chainAt k n.toNat) :
    Seat T' k received { r with sendChain := sendChain, nSend := n } := by
  have hfrontier : ∀ trial : Ratchet, trial.nRecv = r.nRecv → ∀ j < k,
      frontier T' k trial j = frontier T k r j := by
    intro trial htrial j hj
    unfold frontier
    rw [htrial]
    split
    · rfl
    · rename_i hne
      exact hgrows.count j hj hne
  have hmessage : ∀ j < k, ∀ n < frontier T k r j, T'.message j n = T.message j n := by
    intro j hj n hn
    exact hgrows.message j hj n (hn.trans_le h.frontier_le)
  have hawaited : ∀ trial : Ratchet, trial.nRecv = r.nRecv → ∀ j n,
      Awaited T' k received trial j n ↔ Awaited T k received r j n := by
    intro trial htrial j n
    unfold Awaited
    refine and_congr_right fun hj => and_congr_right fun _ => ?_
    rw [hfrontier trial htrial j hj]
    refine and_congr_right fun hn => ?_
    rw [hmessage j hj n hn]
  refine {
    root := h.root.trans (hgrows.root k le_rfl).symm
    secret := h.secret.trans (hgrows.secret k le_rfl).symm
    dhsPublic := h.dhsPublic.trans (hgrows.publicOf le_rfl).symm
    dhr_zero := h.dhr_zero
    dhr := ?_
    send_none := hnone
    send := hsend
    recv_none := h.recv_none
    recv := ?_
    nSend := hn
    prev := ?_
    nRecv := h.nRecv.trans hgrows.count_le
    store := ?_
    received := ?_ }
  · intro j hj
    dsimp only
    rw [h.dhr j hj, hgrows.publicOf (by omega)]
  · intro j hj
    dsimp only
    rw [h.recv j hj]
    unfold Schedule.chainAt
    rw [hgrows.chain (j + 1) (by omega)]
  · dsimp only
    rw [h.prev]
    by_cases hk : k ≤ 2
    · rw [Nat.sub_eq_zero_of_le hk]
      exact hgrows.count_zero.symm
    · exact (hgrows.count (k - 2) (by omega) (by omega)).symm
  · intro dh n key
    dsimp only
    rw [h.store dh n key]
    refine Iff.trans ?_ (exists_congr fun j => and_congr_left fun _ =>
      hawaited _ rfl j n.toNat).symm
    refine exists_congr fun j => and_congr_right fun hj => ?_
    rw [hgrows.publicOf hj.1.le, hgrows.messageKey hj.1.le]
  · intro m hmem
    obtain ⟨j, n, plaintext, hsent, hj, hparity, hn⟩ := h.received m hmem
    refine ⟨j, n, plaintext, ?_, hj, hparity, hn.trans_eq (hfrontier _ rfl j hj).symm⟩
    rw [hmessage j hj n hn]
    exact hsent

theorem grows (h : Seat T k received r) (hgrows : T.Grows T' k) (hcount : T'.count k = T.count k) :
    Seat T' k received r := by
  refine h.sends hgrows (h.nSend.trans hcount.symm) h.send_none ?_
  intro chain hchain hroom
  rw [h.send chain hchain hroom]
  unfold Schedule.chainAt
  rw [hgrows.chain k le_rfl]

/-! ### The moves of a ratchet -/

theorem fill_spec {dhr : Key} {span : ℕ} :
    ∀ (skipped : SkippedKeys) (chain : Key) (n : UInt32), n.toNat + span < UInt32.size →
      skipped.order.length + span ≤ maxSkippedKeys →
        (∀ dh n', (Ratchet.fill dhr span skipped chain n).byId (dh, n') =
          if dh = dhr ∧ n.toNat ≤ n'.toNat ∧ n'.toNat < n.toNat + span then
            some (advance (along chain (n'.toNat - n.toNat))).1
          else skipped.byId (dh, n')) ∧
        (Ratchet.fill dhr span skipped chain n).order.length ≤ skipped.order.length + span := by
  induction span with
  | zero =>
    intro skipped chain n _ _
    refine ⟨?_, le_rfl⟩
    intro dh n'
    rw [if_neg (by omega)]
    rfl
  | succ span ih =>
    intro skipped chain n hsize hroom
    have hnext : (n + 1).toNat = n.toNat + 1 :=
      checkedIncrement_eq_ok.mp (if_pos (by omega))
    obtain ⟨hbyId, horder⟩ := SkippedKeys.insert_byId dhr n (advance chain).1
      (show skipped.order.length + 1 ≤ maxSkippedKeys by omega)
    obtain ⟨hfill, hlen⟩ := ih (skipped.insert dhr n (advance chain).1) (advance chain).2 (n + 1)
      (by omega) (by omega)
    refine ⟨?_, ?_⟩
    · intro dh n'
      unfold Ratchet.fill
      rw [hfill, hnext, hbyId]
      by_cases hhere : dh = dhr ∧ n' = n
      · obtain ⟨rfl, rfl⟩ := hhere
        rw [if_neg (by omega), if_pos ⟨rfl, le_rfl, by omega⟩, Function.update_self, Nat.sub_self]
        rfl
      · rw [Function.update_of_ne fun heq => hhere (Prod.mk.inj heq)]
        by_cases hlater : dh = dhr ∧ n.toNat + 1 ≤ n'.toNat ∧ n'.toNat < n.toNat + 1 + span
        · rw [if_pos hlater, if_pos ⟨hlater.1, by omega, by omega⟩, along_advance]
          congr 4
          omega
        · have hne : ¬ (dh = dhr ∧ n.toNat ≤ n'.toNat ∧ n'.toNat < n.toNat + (span + 1)) := by
            rintro ⟨hdh, hle, hlt⟩
            have hn : n'.toNat ≠ n.toNat := fun heq => hhere ⟨hdh, UInt32.toNat_inj.mp heq⟩
            exact hlater ⟨hdh, by omega, by omega⟩
          rw [if_neg hlater, if_neg hne]
    · unfold Ratchet.fill
      omega

/-- A side that skips ahead within the chain it receives only passes over places. -/
theorem skip (ideal : Ideal) (hvalid : T.Valid top) {j : ℕ} (hj : j + 1 ≤ top)
    (h : Seat T (j + 2) received r) {upTo : UInt32} (hahead : r.nRecv.toNat < upTo.toNat)
    (hupTo : upTo.toNat ≤ T.count (j + 1)) (hskip : upTo.toNat - r.nRecv.toNat ≤ maxSkip)
    (hroom : r.skipped.order.length + (upTo.toNat - r.nRecv.toNat) ≤ maxSkippedKeys) :
    ∃ trial, r.skipCurrentReceivingChain upTo = .ok trial ∧ Seat T (j + 2) received trial ∧
      trial.nRecv = upTo ∧
      trial.skipped.order.length ≤ r.skipped.order.length + (upTo.toNat - r.nRecv.toNat) ∧
      trial.nSend = r.nSend := by
  have hbound := upTo.toNat_lt
  have hdhr : r.dhr = some (T.publicOf (j + 1)) := h.dhr (j + 1) rfl
  have hspan : r.nRecv.toNat + (upTo.toNat - r.nRecv.toNat) < UInt32.size := by
    show _ < 2 ^ 32
    omega
  obtain ⟨hfill, hlen⟩ := fill_spec r.skipped (T.chainAt (j + 1) r.nRecv.toNat) r.nRecv hspan hroom
  refine ⟨_, (Ratchet.skip_eq ideal hdhr (h.recv j rfl) hahead).trans (if_neg (not_lt.mpr hskip)),
    ?_, rfl, hlen, rfl⟩
  -- what is awaited now was awaited before, or is among the places just passed
  have hawaited : ∀ trial : Ratchet, trial.nRecv = upTo → ∀ i n,
      Awaited T (j + 2) received trial i n ↔
        i = j + 1 ∧ r.nRecv.toNat ≤ n ∧ n < upTo.toNat ∨ Awaited T (j + 2) received r i n := by
    intro trial htrial i n
    unfold Awaited frontier
    rw [htrial]
    by_cases hi : i + 1 = j + 2
    · obtain rfl : i = j + 1 := by omega
      rw [if_pos rfl, if_pos rfl]
      constructor
      · rintro ⟨hlt, hparity, hn, hunread⟩
        by_cases hpassed : n < r.nRecv.toNat
        · exact Or.inr ⟨hlt, hparity, hpassed, hunread⟩
        · exact Or.inl ⟨rfl, not_lt.mp hpassed, hn⟩
      · rintro (⟨-, hle, hn⟩ | ⟨hlt, hparity, hn, hunread⟩)
        · refine ⟨by omega, by omega, hn, ?_⟩
          intro m plaintext hsent
          refine h.unread hvalid hsent fun _ => ?_
          unfold frontier
          rw [if_pos rfl]
          exact hle
        · exact ⟨hlt, hparity, hn.trans hahead, hunread⟩
    · rw [if_neg hi, if_neg hi]
      refine ⟨Or.inr, ?_⟩
      rintro (⟨rfl, -⟩ | hold)
      · exact absurd rfl hi
      · exact hold
  refine {
    root := h.root
    secret := h.secret
    dhsPublic := h.dhsPublic
    dhr_zero := h.dhr_zero
    dhr := h.dhr
    send_none := h.send_none
    send := h.send
    recv_none := by omega
    recv := ?_
    nSend := h.nSend
    prev := h.prev
    nRecv := hupTo
    store := ?_
    received := ?_ }
  · intro i hi
    obtain rfl : i = j := by omega
    have hsum : r.nRecv.toNat + (upTo.toNat - r.nRecv.toNat) = upTo.toNat := by omega
    refine congrArg some ?_
    show along (along _ _) _ = along _ _
    rw [along_add, hsum]
  · intro dh n key
    dsimp only
    rw [hfill]
    refine Iff.trans ?_
      (exists_congr fun i => and_congr_left fun _ => hawaited _ rfl i n.toNat).symm
    split
    · rename_i hpassed
      obtain ⟨rfl, hle, hlt⟩ := hpassed
      have hkey : (advance (along (T.chainAt (j + 1) r.nRecv.toNat) (n.toNat - r.nRecv.toNat))).1 =
          T.messageKey (j + 1) n.toNat := by
        have hsum : r.nRecv.toNat + (n.toNat - r.nRecv.toNat) = n.toNat := by omega
        unfold Schedule.messageKey Schedule.chainAt
        rw [along_add, hsum]
      rw [hkey]
      constructor
      · intro heq
        exact ⟨j + 1, Or.inl ⟨rfl, hle, by omega⟩, rfl, (Option.some.inj heq).symm⟩
      · rintro ⟨i, hi, hpublic, rfl⟩
        have hle : i ≤ top := by
          obtain ⟨rfl, -⟩ | hi := hi
          · exact hj
          · exact (Nat.le_of_lt_succ hi.1).trans hj
        rw [hvalid.distinct (j + 1) hj i hle hpublic]
    · rename_i hpassed
      rw [h.store]
      refine exists_congr fun i => and_congr_left fun hi => ?_
      refine ⟨Or.inr, ?_⟩
      rintro (⟨rfl, hle, hlt⟩ | hold)
      · exact absurd ⟨hi.1, hle, by omega⟩ hpassed
      · exact hold
  · intro m hmem
    obtain ⟨i, n, plaintext, hsent, hi, hparity, hn⟩ := h.received m hmem
    refine ⟨i, n, plaintext, hsent, hi, hparity, hn.trans_le ?_⟩
    unfold frontier
    split
    · exact hahead.le
    · exact le_rfl

/-- Reading the message at the head of the chain being received. -/
theorem next (hvalid : T.Valid top) {j : ℕ} (h : Seat T (j + 2) received r) {m : RatchetMessage}
    {plaintext : Bytes} (hsent : T.message (j + 1) r.nRecv.toNat = some (m, plaintext)) {n : UInt32}
    (hn : n.toNat = r.nRecv.toNat + 1) :
    Seat T (j + 2) (m :: received)
      { r with
        recvChain := some (advance (T.chainAt (j + 1) r.nRecv.toNat)).2
        nRecv := n } := by
  have hawaited : ∀ trial : Ratchet, trial.nRecv = n → ∀ i n',
      Awaited T (j + 2) (m :: received) trial i n' ↔ Awaited T (j + 2) received r i n' := by
    intro trial htrial i n'
    unfold Awaited frontier
    rw [htrial, hn]
    constructor
    · rintro ⟨hlt, hparity, hn', hunread⟩
      refine ⟨hlt, hparity, ?_, fun m' p hm' hmem => hunread m' p hm' (List.mem_cons_of_mem _ hmem)⟩
      by_cases hi : i + 1 = j + 2
      · obtain rfl : i = j + 1 := by omega
        rw [if_pos hi] at hn' ⊢
        have hne : n' ≠ r.nRecv.toNat := by
          rintro rfl
          exact hunread m plaintext hsent List.mem_cons_self
        omega
      · rw [if_neg hi] at hn' ⊢
        exact hn'
    · rintro ⟨hlt, hparity, hn', hunread⟩
      refine ⟨hlt, hparity, ?_, ?_⟩
      · refine hn'.trans_le ?_
        split
        · exact Nat.le_succ _
        · exact le_rfl
      · intro m' p hm' hmem
        obtain rfl | hmem := List.mem_cons.mp hmem
        · obtain ⟨rfl, rfl⟩ := hvalid.place hm' hsent
          rw [if_pos rfl] at hn'
          exact absurd hn' (lt_irrefl _)
        · exact hunread m' p hm' hmem
  refine {
    root := h.root
    secret := h.secret
    dhsPublic := h.dhsPublic
    dhr_zero := h.dhr_zero
    dhr := h.dhr
    send_none := h.send_none
    send := h.send
    recv_none := by omega
    recv := ?_
    nSend := h.nSend
    prev := h.prev
    nRecv := ?_
    store := ?_
    received := ?_ }
  · intro i hi
    obtain rfl : i = j := by omega
    refine congrArg some ?_
    show _ = along (T.chain (i + 1)) n.toNat
    rw [hn, along_succ]
    rfl
  · obtain ⟨hlt, -⟩ := hvalid.sent _ _ _ _ hsent
    show n.toNat ≤ _
    rw [hn]
    exact hlt
  · intro dh n' key
    rw [h.store dh n' key]
    exact exists_congr fun i => and_congr_left fun _ => (hawaited _ rfl i n'.toNat).symm
  · intro m' hmem
    obtain rfl | hmem := List.mem_cons.mp hmem
    · refine ⟨j + 1, r.nRecv.toNat, plaintext, hsent, Nat.lt_succ_self _, by omega, ?_⟩
      unfold frontier
      rw [if_pos rfl, hn]
      exact Nat.lt_succ_self _
    · obtain ⟨i, n', p, hm', hi, hparity, hn'⟩ := h.received m' hmem
      refine ⟨i, n', p, hm', hi, hparity, hn'.trans_le ?_⟩
      unfold frontier
      split
      · rw [hn]
        exact Nat.le_succ _
      · exact le_rfl

/-- Reading a message whose place was passed over. -/
theorem take (hvalid : T.Valid top) (h : Seat T k received r) {j : ℕ} {m : RatchetMessage}
    {plaintext : Bytes} (hsent : T.message j m.n.toNat = some (m, plaintext)) (hj : j < k)
    (hparity : j % 2 ≠ k % 2) (hn : m.n.toNat < frontier T k r j) {rest : SkippedKeys}
    (hrest : rest.byId = Function.update r.skipped.byId (m.dh, m.n) none) :
    Seat T k (m :: received) { r with skipped := rest } := by
  obtain ⟨hplace, hdh, -⟩ := hvalid.sent _ _ _ _ hsent
  have hawaited : ∀ i n', Awaited T k (m :: received) { r with skipped := rest } i n' ↔
      Awaited T k received r i n' ∧ ¬ (i = j ∧ n' = m.n.toNat) := by
    intro i n'
    constructor
    · rintro ⟨hlt, hparity', hn', hunread⟩
      refine ⟨⟨hlt, hparity', hn', fun m' p hm' hmem =>
        hunread m' p hm' (List.mem_cons_of_mem _ hmem)⟩, ?_⟩
      rintro ⟨rfl, rfl⟩
      exact hunread m plaintext hsent List.mem_cons_self
    · rintro ⟨⟨hlt, hparity', hn', hunread⟩, hother⟩
      refine ⟨hlt, hparity', hn', ?_⟩
      intro m' p hm' hmem
      obtain rfl | hmem := List.mem_cons.mp hmem
      · exact hother (hvalid.place hm' hsent)
      · exact hunread m' p hm' hmem
  refine {
    root := h.root
    secret := h.secret
    dhsPublic := h.dhsPublic
    dhr_zero := h.dhr_zero
    dhr := h.dhr
    send_none := h.send_none
    send := h.send
    recv_none := h.recv_none
    recv := h.recv
    nSend := h.nSend
    prev := h.prev
    nRecv := h.nRecv
    store := ?_
    received := ?_ }
  · intro dh n' key
    dsimp only
    rw [hrest]
    by_cases hid : (dh, n') = (m.dh, m.n)
    · obtain ⟨rfl, rfl⟩ := Prod.mk.inj hid
      rw [Function.update_self]
      refine iff_of_false nofun ?_
      rintro ⟨i, hi, hpublic, -⟩
      obtain ⟨hold, hother⟩ := (hawaited i _).mp hi
      refine hother ⟨?_, rfl⟩
      have hpos := hvalid.pos (hold.2.2.1.trans_le h.frontier_le)
      exact hvalid.distinct i hpos.2 j (hvalid.pos hplace).2 (hpublic.symm.trans hdh)
    · rw [Function.update_of_ne hid, h.store dh n' key]
      refine exists_congr fun i => and_congr_left fun hi => ?_
      rw [hawaited]
      refine (and_iff_left ?_).symm
      rintro ⟨rfl, hn'⟩
      exact hid (Prod.ext (hi.1.trans hdh.symm) (UInt32.toNat_inj.mp hn'))
  · intro m' hmem
    obtain rfl | hmem := List.mem_cons.mp hmem
    · exact ⟨j, _, plaintext, hsent, hj, hparity, hn⟩
    · exact h.received m' hmem

/-- Adopting the peer's next key, once all of its last chain was passed. -/
theorem turn (h : Seat T k received r) (hpassed : r.nRecv.toNat = T.count (k - 1))
    (hunused : T.count (k + 2) = 0) (secret root chain : Key) :
    Seat (T.extend (k + 2) secret root chain) (k + 2) received
      { r with
        prevChainLen := r.nSend
        nSend := 0
        nRecv := 0
        dhr := some (T.publicOf (k + 1))
        rootKey := root
        recvChain := some (T.chain (k + 1))
        dhsSecret := secret
        dhsPublic := publicKey secret
        sendChain := some chain } := by
  have hgrows := T.extend_grows secret root chain (Nat.lt_succ_self (k + 1))
  have hfrontier : ∀ trial : Ratchet, trial.nRecv = 0 → ∀ i n, i % 2 ≠ k % 2 →
      (i < k + 2 ∧ n < frontier (T.extend (k + 2) secret root chain) (k + 2) trial i ↔
        i < k ∧ n < frontier T k r i) := by
    intro trial htrial i n hparity
    unfold frontier
    rw [htrial, hpassed]
    by_cases hi : i + 1 = k + 2
    · rw [if_pos hi]
      exact iff_of_false (fun h => Nat.not_lt_zero n h.2) fun h => absurd h.1 (by omega)
    · rw [if_neg hi]
      have hsame : (if i + 1 = k then T.count (k - 1) else T.count i) = T.count i := by
        split
        · rename_i hik
          rw [← hik, Nat.add_sub_cancel]
        · rfl
      rw [hsame]
      refine and_congr_left fun _ => ?_
      omega
  have hawaited : ∀ trial : Ratchet, trial.nRecv = 0 → ∀ i n,
      Awaited (T.extend (k + 2) secret root chain) (k + 2) received trial i n ↔
        Awaited T k received r i n := by
    intro trial htrial i n
    have hcongr := hfrontier trial htrial i n
    unfold Awaited
    constructor
    · rintro ⟨hlt, hparity, hn, hunread⟩
      obtain ⟨hlt, hn⟩ := (hcongr (by omega)).mp ⟨hlt, hn⟩
      exact ⟨hlt, by omega, hn, hunread⟩
    · rintro ⟨hlt, hparity, hn, hunread⟩
      obtain ⟨hlt, hn⟩ := (hcongr hparity).mpr ⟨hlt, hn⟩
      exact ⟨hlt, by omega, hn, hunread⟩
  refine {
    root := (Function.update_self (k + 2) root T.root).symm
    secret := (Function.update_self (k + 2) secret T.secret).symm
    dhsPublic := congrArg publicKey (Function.update_self (k + 2) secret T.secret).symm
    dhr_zero := by omega
    dhr := ?_
    send_none := by omega
    send := ?_
    recv_none := by omega
    recv := ?_
    nSend := hunused.symm
    prev := h.nSend
    nRecv := Nat.zero_le _
    store := ?_
    received := ?_ }
  · intro i hi
    obtain rfl : i = k + 1 := by omega
    exact congrArg some (hgrows.publicOf le_rfl).symm
  · intro c hc _
    obtain rfl := Option.some.inj hc
    exact (Function.update_self (k + 2) chain T.chain).symm
  · intro i hi
    obtain rfl : i = k := by omega
    exact congrArg some (hgrows.chain (i + 1) le_rfl).symm
  · intro dh n key
    dsimp only
    rw [h.store dh n key]
    refine exists_congr fun i => ?_
    rw [hawaited _ rfl]
    refine and_congr_right fun hi => ?_
    have hle : i ≤ k + 1 := hi.1.le.trans (Nat.le_succ k)
    rw [hgrows.publicOf hle, hgrows.messageKey hle]
  · intro m hmem
    obtain ⟨i, n, plaintext, hsent, hi, hparity, hn⟩ := h.received m hmem
    obtain ⟨hi', hn'⟩ := (hfrontier { r with nRecv := 0 } rfl i n hparity).mpr ⟨hi, hn⟩
    exact ⟨i, n, plaintext, hsent, hi', by omega, hn'⟩

/-! ### The key of a message -/

/-- A message on the chain being received, at its head or ahead of it. -/
theorem takeNext (ideal : Ideal) (hvalid : T.Valid top) {j : ℕ} (hj : j + 1 ≤ top)
    (h : Seat T (j + 2) received r) {m : RatchetMessage} {plaintext : Bytes}
    (hsent : T.message (j + 1) m.n.toNat = some (m, plaintext)) (hahead : r.nRecv.toNat ≤ m.n.toNat)
    (hskip : m.n.toNat - r.nRecv.toNat ≤ maxSkip)
    (hroom : r.skipped.order.length + (m.n.toNat - r.nRecv.toNat) ≤ maxSkippedKeys)
    (hbound : T.count (j + 1) < UInt32.size) :
    ∃ trial, r.takeNext m = .ok (T.messageKey (j + 1) m.n.toNat, trial) ∧
      Seat T (j + 2) (m :: received) trial := by
  obtain ⟨hlt, -⟩ := hvalid.sent _ _ _ _ hsent
  have hnext : checkedIncrement m.n = .ok (m.n + 1) := if_pos (by omega)
  -- after the skip the message is at the head
  have hskipped : ∃ head, r.skipCurrentReceivingChain m.n = .ok head ∧
      Seat T (j + 2) received head ∧ head.nRecv = m.n := by
    obtain heq | hlt' := hahead.eq_or_lt
    · have hn : r.nRecv = m.n := UInt32.toNat_inj.mp heq
      exact ⟨r, Ratchet.skip_eq_self (Or.inr (UInt32.le_iff_toNat_le.mpr heq.ge)), h, hn⟩
    · obtain ⟨head, hhead, hseat, hn, -⟩ := h.skip ideal hvalid hj hlt' hlt.le hskip hroom
      exact ⟨head, hhead, hseat, hn⟩
  obtain ⟨head, hhead, hseat, hn⟩ := hskipped
  have hsent' : T.message (j + 1) head.nRecv.toNat = some (m, plaintext) := by
    rw [hn]
    exact hsent
  have htake := Ratchet.takeNext_eq ideal hhead (hseat.recv j rfl) (hn.symm ▸ hnext)
  have hkey : (advance (T.chainAt (j + 1) head.nRecv.toNat)).1 =
      T.messageKey (j + 1) m.n.toNat := by
    rw [hn]
    rfl
  rw [hkey] at htake
  refine ⟨_, htake, hseat.next hvalid hsent' ?_⟩
  rw [hn]
  exact checkedIncrement_eq_ok.mp hnext

/-- Leaving the chain being received, all of it passed. -/
theorem leave (ideal : Ideal) (hvalid : T.Valid top) (hk : k ≤ top) (h : Seat T k received r)
    {upTo : UInt32} (hupTo : upTo.toNat = T.count (k - 1)) (hskip : r.recvChain ≠ none →
      upTo.toNat - r.nRecv.toNat ≤ maxSkip ∧
        r.skipped.order.length + (upTo.toNat - r.nRecv.toNat) ≤ maxSkippedKeys) :
    ∃ trial, r.skipCurrentReceivingChain upTo = .ok trial ∧ Seat T k received trial ∧
      trial.nRecv.toNat = T.count (k - 1) ∧ trial.nSend = r.nSend ∧
      trial.skipped.order.length ≤ r.skipped.order.length +
        if r.recvChain = none then 0 else upTo.toNat - r.nRecv.toNat := by
  have hself : r.nRecv.toNat = upTo.toNat → r.skipCurrentReceivingChain upTo = .ok r := by
    intro heq
    exact Ratchet.skip_eq_self (Or.inr (UInt32.le_iff_toNat_le.mpr heq.ge))
  obtain heq | hlt := (h.nRecv.trans_eq hupTo.symm).eq_or_lt
  · exact ⟨r, hself heq, h, heq.trans hupTo, rfl, Nat.le_add_right _ _⟩
  · -- there is something left of the chain, so there is a chain
    have hpos := hvalid.pos (k := k - 1) (hupTo ▸ Nat.zero_lt_of_lt hlt)
    obtain ⟨j, rfl⟩ : ∃ j, k = j + 2 := ⟨k - 2, by omega⟩
    have hchain : r.recvChain ≠ none := by
      rw [h.recv j rfl]
      exact nofun
    obtain ⟨trial, htrial, hseat, hn, hlen, hsend⟩ :=
      h.skip ideal hvalid hpos.2 hlt hupTo.le (hskip hchain).1 (hskip hchain).2
    refine ⟨trial, htrial, hseat, ?_, hsend, ?_⟩
    · rw [hn, hupTo]
    · rw [if_neg hchain]
      exact hlen

/-- Adopting the key that the peer drew last. -/
theorem adopt (ideal : Ideal) (hvalid : T.Valid (k + 1)) (h : Seat T k received r)
    (hpassed : r.nRecv.toNat = T.count (k - 1)) {rng : RandomSource}
    (hfresh : ∀ i ≤ k + 1, T.publicOf i ≠ publicKey (rng.bytes rng.calls)) :
    ∃ head root chain, r.dhRatchetReceive (T.publicOf (k + 1)) rng =
        (.ok head, { rng with calls := rng.calls + 1 }) ∧
      (T.extend (k + 2) (rng.bytes rng.calls) root chain).Valid (k + 2) ∧
      Seat (T.extend (k + 2) (rng.bytes rng.calls) root chain) (k + 2) received head ∧
      head.nRecv = 0 ∧ head.skipped = r.skipped := by
  obtain ⟨shared, hshared, hroot⟩ := hvalid.turn k (Nat.lt_succ_self k)
  -- the peer agreed with the old key of this side on what this side agrees with the new one of the
  -- peer
  have hagreed : diffieHellmanRaw r.dhsSecret (T.publicOf (k + 1)) = .ok shared := by
    unfold Schedule.publicOf at hshared ⊢
    rw [diffieHellmanRaw_publicKey ideal] at hshared
    rw [h.secret, diffieHellmanRaw_publicKey ideal, ideal.commutes]
    exact hshared
  have hown : diffieHellmanRaw (rng.bytes rng.calls) (T.publicOf (k + 1)) =
      .ok (Crypto.diffieHellman (rng.bytes rng.calls) (T.publicOf (k + 1))) :=
    diffieHellmanRaw_publicKey ideal _ _
  obtain ⟨root, chain, hnext⟩ := exists_kdfRoot ideal (T.root (k + 1))
    (Crypto.diffieHellman (rng.bytes rng.calls) (T.publicOf (k + 1)))
  have hroot' : kdfRoot r.rootKey shared = .ok (T.root (k + 1), T.chain (k + 1)) := by
    rw [h.root]
    exact hroot
  refine ⟨_, root, chain, Ratchet.dhRatchetReceive_eq hagreed hroot' hown hnext,
    hvalid.extend ideal hfresh hnext, ?_, rfl, rfl⟩
  exact h.turn hpassed (hvalid.count_beyond (k + 2) (Nat.lt_succ_self _)) _ root chain

/-- What a side comes to when it reads a message: the place it was at, or, on the peer's next key,
two further. -/
def Moves (T T' : Schedule) (top k k' : ℕ) (rng rng' : RandomSource) : Prop :=
  T' = T ∧ k' = k ∧ rng' = rng ∨
    top = k + 1 ∧ k' = k + 2 ∧ rng' = { rng with calls := rng.calls + 1 } ∧ T'.Valid (k + 2) ∧
      ∃ root chain, T' = T.extend (k + 2) (rng.bytes rng.calls) root chain

/-- **A message still to be read is found under its key**, within the bounds of the code. -/
theorem accept (ideal : Ideal) (hvalid : T.Valid top) (hk : k ≤ top) (htop : top ≤ k + 1)
    (hbound : ∀ i, T.count i < UInt32.size) (h : Seat T k received r) {j : ℕ} {m : RatchetMessage}
    {plaintext : Bytes} (hsent : T.message j m.n.toNat = some (m, plaintext))
    (hparity : j % 2 ≠ k % 2) (hunread : m ∉ received) (hleaves : r.leaves m ≤ maxSkip)
    (hjumps : r.jumps m ≤ maxSkip)
    (hroom : r.skipped.order.length + r.leaves m + r.jumps m ≤ maxSkippedKeys) {rng : RandomSource}
    (hfresh : ∀ i ≤ top, T.publicOf i ≠ publicKey (rng.bytes rng.calls)) :
    ∃ trial rng' T' k', r.attempt m rng = (.ok (T.messageKey j m.n.toNat, trial), rng') ∧
      Seat T' k' (m :: received) trial ∧ Moves T T' top k k' rng rng' := by
  obtain ⟨hplace, hdh, hpn, -, -⟩ := hvalid.sent _ _ _ _ hsent
  have hj := (hvalid.pos hplace).2
  have hpos := (hvalid.pos hplace).1
  by_cases hpassed : j < k ∧ m.n.toNat < frontier T k r j
  · -- its key was stored when it was passed over
    have hstored : r.skipped.byId (m.dh, m.n) = some (T.messageKey j m.n.toNat) := by
      refine (h.store _ _ _).mpr ⟨j, ⟨hpassed.1, hparity, hpassed.2, ?_⟩, hdh, rfl⟩
      intro m' p hm'
      rw [hsent] at hm'
      obtain ⟨rfl, rfl⟩ := Prod.mk.inj (Option.some.inj hm')
      exact hunread
    obtain ⟨rest, hrest⟩ := SkippedKeys.exists_take hstored
    obtain ⟨-, hbyId, -⟩ := SkippedKeys.take_eq_some hrest
    refine ⟨{ r with skipped := rest }, rng, T, k, ?_, ?_, Or.inl ⟨rfl, rfl, rfl⟩⟩
    · unfold Ratchet.attempt
      rw [hrest]
    · exact h.take hvalid hsent hpassed.1 hparity hpassed.2 hbyId
  · have hnone : r.skipped.byId (m.dh, m.n) = none := by
      by_contra hsome
      obtain ⟨key, hkey⟩ := Option.ne_none_iff_exists'.mp hsome
      obtain ⟨i, hi, hpublic, -⟩ := (h.store _ _ _).mp hkey
      have hle := (hvalid.pos (hi.2.2.1.trans_le h.frontier_le)).2
      obtain rfl := hvalid.distinct j hj i hle (hdh.symm.trans hpublic)
      exact hpassed ⟨hi.1, hi.2.2.1⟩
    have htake := SkippedKeys.take_eq_none.mpr hnone
    have hnot : ¬ r.skipped.byId (m.dh, m.n) ≠ none := not_not.mpr hnone
    obtain hlt | rfl : j < k ∨ j = k + 1 := by omega
    · -- it is on the chain being received
      have hahead : frontier T k r j ≤ m.n.toNat := not_lt.mp fun hn => hpassed ⟨hlt, hn⟩
      obtain ⟨j, rfl⟩ := Nat.exists_eq_succ_of_ne_zero hpos.ne'
      obtain rfl : k = j + 2 := by
        by_contra hne
        unfold frontier at hahead
        rw [if_neg (by omega)] at hahead
        omega
      unfold frontier at hahead
      rw [if_pos rfl] at hahead
      have hdhr : r.dhr = some m.dh := by
        rw [hdh]
        exact h.dhr (j + 1) rfl
      have hspan : r.jumps m = m.n.toNat - r.nRecv.toNat := by
        unfold Ratchet.jumps
        rw [if_neg hnot, if_pos hdhr]
      rw [hspan] at hjumps hroom
      obtain ⟨trial, htrial, hseat⟩ :=
        h.takeNext ideal hvalid hj hsent hahead hjumps (by omega) (hbound _)
      refine ⟨trial, rng, T, j + 2, ?_, hseat, Or.inl ⟨rfl, rfl, rfl⟩⟩
      rw [Ratchet.attempt_of_follow htake (Ratchet.follow_same rng hdhr), htrial]
    · -- it is on the chain of a key that the peer drew since
      obtain rfl : top = k + 1 := by omega
      have hdhr : r.dhr ≠ some m.dh := by
        intro heq
        obtain rfl | ⟨i, rfl⟩ : k = 0 ∨ ∃ i, k = i + 1 := by
          cases k with
          | zero => exact Or.inl rfl
          | succ i => exact Or.inr ⟨i, rfl⟩
        · rw [h.dhr_zero rfl] at heq
          cases heq
        · rw [h.dhr i rfl, hdh] at heq
          have := hvalid.distinct i (by omega) _ le_rfl (Option.some.inj heq)
          omega
      have hpn' : m.pn.toNat = T.count (k - 1) := hpn
      have hleft : r.leaves m = if r.recvChain = none then 0 else m.pn.toNat - r.nRecv.toNat := by
        unfold Ratchet.leaves
        by_cases hchain : r.recvChain = none
        · rw [if_pos hchain, if_pos (Or.inr (Or.inr hchain))]
        · rw [if_neg hchain, if_neg]
          rintro (hsome | hsame | hchain')
          · exact hnot hsome
          · exact hdhr hsame
          · exact hchain hchain'
      have hspan : r.jumps m = m.n.toNat := by
        unfold Ratchet.jumps
        rw [if_neg hnot, if_neg hdhr]
      rw [hleft] at hleaves hroom
      rw [hspan] at hjumps hroom
      obtain ⟨left, hskip, hseat, hnRecv, hnSend, hlen⟩ := h.leave ideal hvalid hk hpn' (by
        intro hchain
        rw [if_neg hchain] at hleaves hroom
        exact ⟨hleaves, by omega⟩)
      obtain ⟨head, root, chain, hadopt, hvalid', hseat', hzero, hstore⟩ :=
        hseat.adopt ideal hvalid hnRecv hfresh
      rw [← hdh] at hadopt
      have hgrows := T.extend_grows (rng.bytes rng.calls) root chain (Nat.lt_succ_self (k + 1))
      have hzero' : head.nRecv.toNat = 0 := congrArg UInt32.toNat hzero
      obtain ⟨trial, htrial, hread⟩ := hseat'.takeNext ideal hvalid' (Nat.le_succ _) hsent
        (by omega) (by omega) (by rw [hstore]; omega) (hbound _)
      rw [hgrows.messageKey le_rfl] at htrial
      refine ⟨trial, _, _, k + 2, ?_, hread, Or.inr ⟨rfl, rfl, rfl, hvalid', root, chain, rfl⟩⟩
      rw [Ratchet.attempt_of_follow htake ((Ratchet.follow_new rng hdhr hskip).trans hadopt),
        htrial]

/-- **No message is tried with the key of its own place** but one that is still to be read. -/
theorem attempted (ideal : Ideal) (hvalid : T.Valid top) (hk : k ≤ top) (h : Seat T k received r)
    {msg : RatchetMessage} {rng rng' : RandomSource} {key : Key} {trial : Ratchet}
    (hattempt : r.attempt msg rng = (.ok (key, trial), rng')) {j : ℕ} {plaintext : Bytes}
    (hsent : T.message j msg.n.toNat = some (msg, plaintext))
    (hkey : key = T.messageKey j msg.n.toNat) :
    j % 2 ≠ k % 2 ∧ msg ∉ received := by
  obtain ⟨hplace, hdh, -, -, -⟩ := hvalid.sent _ _ _ _ hsent
  have hpos := hvalid.pos hplace
  obtain hstored | ⟨head, hfollow, hnext⟩ := Ratchet.attempt_spec hattempt
  · -- from the store
    obtain ⟨i, hi, hpublic, -⟩ := (h.store _ _ _).mp hstored
    have hle := (hvalid.pos (hi.2.2.1.trans_le h.frontier_le)).2
    obtain rfl := hvalid.distinct j hpos.2 i hle (hdh.symm.trans hpublic)
    exact ⟨hi.2.1, hi.2.2.2 msg plaintext hsent⟩
  · obtain ⟨last, chain, hskip, hchain, hkey'⟩ := Ratchet.takeNext_spec ideal hnext
    obtain ⟨j, rfl⟩ := Nat.exists_eq_succ_of_ne_zero hpos.1.ne'
    obtain ⟨hdhr, rfl⟩ | ⟨left, hleft, hadopt⟩ := Ratchet.follow_spec hfollow
    · -- from the chain being received
      obtain rfl : k = j + 2 := by
        cases k with
        | zero =>
          rw [h.dhr_zero rfl] at hdhr
          cases hdhr
        | succ i =>
          rw [h.dhr i rfl, hdh] at hdhr
          rw [hvalid.distinct i (Nat.le_of_succ_le hk) _ hpos.2 (Option.some.inj hdhr)]
      obtain ⟨-, -, -, hlast⟩ := Ratchet.skip_spec ideal hskip
      obtain ⟨hn, hhead⟩ := hlast _ _ (h.dhr (j + 1) rfl) (h.recv j rfl)
      have hsum : head.nRecv.toNat + (last.nRecv.toNat - head.nRecv.toNat) = last.nRecv.toNat := by
        rw [hn]
        omega
      have hchain' : chain = T.chainAt (j + 1) last.nRecv.toNat := by
        rw [hchain] at hhead
        rw [Option.some.inj hhead]
        unfold Schedule.chainAt
        rw [along_add, hsum]
      have hplaces : T.messageKey (j + 1) last.nRecv.toNat = T.messageKey (j + 1) msg.n.toNat := by
        rw [← hkey, hkey', hchain']
        rfl
      obtain ⟨-, heq⟩ := Schedule.messageKey_injective ideal hvalid hpos hpos hplaces
      refine ⟨by omega, h.unread hvalid hsent fun _ => ?_⟩
      unfold frontier
      rw [if_pos rfl, ← heq, hn]
      exact le_max_left _ _
    · -- from a chain that starts at the key of the message
      obtain ⟨hroot, -⟩ := Ratchet.skip_spec ideal hleft
      obtain ⟨shared, _, start, hderived, hstart, hzero, hdhr⟩ :=
        Ratchet.dhRatchetReceive_spec hadopt
      obtain ⟨-, -, -, hlast⟩ := Ratchet.skip_spec ideal hskip
      obtain ⟨hn, hhead⟩ := hlast _ _ hdhr hstart
      have hn' : last.nRecv.toNat = msg.n.toNat := by
        rw [hn, hzero]
        exact Nat.zero_max _
      have hchain' : chain = along start msg.n.toNat := by
        rw [hchain, hn', hzero] at hhead
        exact Option.some.inj hhead
      have hplaces : (advance (along start msg.n.toNat)).1 = T.messageKey (j + 1) msg.n.toNat := by
        rw [← hkey, hkey', hchain']
      obtain ⟨-, hrootKey⟩ := Schedule.messageKey_found ideal hvalid (key_chain hderived) hpos.2
        hplaces
      rw [hroot, h.root] at hrootKey
      obtain rfl := Schedule.root_injective ideal hvalid hk (Nat.le_of_succ_le hpos.2) hrootKey
      exact ⟨by omega, h.unread hvalid hsent fun hlt => absurd hlt (by omega)⟩

end Seat

end ObbyClient.E2ee

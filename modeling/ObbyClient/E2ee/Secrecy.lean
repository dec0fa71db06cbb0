import ObbyClient.E2ee.Ledger
import ObbyClient.E2ee.Store
import ObbyClient.Lib.Lineage

/-!
# A ratchet that is taken tells nothing of the messages before

Whoever takes all that a ratchet holds can derive what it will derive.  The keys of the messages it
sealed and read are not among that: each was used and dropped, and nothing kept leads back to one.

* `Derivable` — what keys come of keys, by the derivations of the protocol;
* `Ratchet.stock` — what a ratchet holds, by where it holds it, and the keys it has spent;
* `Ratchet.encrypt_passes`, `Ratchet.attempt_passes` — one call, as a step from stock to stock;
* `Journal.Had`, `Journal.run_pairs` — the key pairs that a ratchet had;
* `Journal.forward_secrecy` — the keys spent in any run stay apart from all that is left.
-/

namespace ObbyClient.E2ee

theorem ok_of_toOption {α : Type} {result : Except Error α} {a : α} (h : result.toOption = some a) :
    result = .ok a := by
  cases result with
  | error e => cases h
  | ok b => exact congrArg _ (Option.some.inj h)

variable [Crypto]

/-! ### What keys come of keys -/

/-- The keys that a derivation is from. -/
def Derivation.parts : Derivation → List Key
  | x3dh dh1 dh2 dh3 dh4 => [dh1, dh2, dh3, dh4]
  | root rootKey dhOut => [rootKey, dhOut]
  | chain rootKey dhOut => [rootKey, dhOut]
  | message chainKey => [chainKey]
  | next chainKey => [chainKey]

def Derives (parts : List Key) (key : Key) : Prop :=
    ∃ d : Derivation, d.key = .ok key ∧ d.parts = parts

/-- What keys a party that knows some can come to know. -/
def Derivable (known : Set Key) (key : Key) : Prop := Made Derives known key

/-- No key is derived from itself. -/
def Grounded : Prop := WellFounded fun part key : Key =>
    ∃ d : Derivation, d.key = .ok key ∧ part ∈ d.parts

/-- One part of each derivation. -/
def Parent (pick : Derivation → Key) (part key : Key) : Prop :=
  ∃ d : Derivation, d.key = .ok key ∧ pick d = part

/-- The secret that a derivation carries on: of a root and an agreement, the root; of the agreements
of a handshake, one of the four. -/
def Derivation.carried (lead : Fin 4) : Derivation → Key
  | x3dh dh1 dh2 dh3 dh4 => ![dh1, dh2, dh3, dh4] lead
  | root rootKey _ => rootKey
  | chain rootKey _ => rootKey
  | message chainKey => chainKey
  | next chainKey => chainKey

/-- One key is the other, or its secret was carried on to the other. -/
def Forebear (lead : Fin 4) : Key → Key → Prop :=
  Relation.ReflTransGen (Parent (Derivation.carried lead))

theorem Derivation.carried_mem (lead : Fin 4) (d : Derivation) : d.carried lead ∈ d.parts := by
  cases d with
  | x3dh dh1 dh2 dh3 dh4 =>
    fin_cases lead
    · exact List.mem_cons_self
    · exact List.mem_cons_of_mem _ List.mem_cons_self
    · exact List.mem_cons_of_mem _ (List.mem_cons_of_mem _ List.mem_cons_self)
    · exact List.mem_cons_of_mem _
        (List.mem_cons_of_mem _ (List.mem_cons_of_mem _ List.mem_cons_self))
  | _ => exact List.mem_cons_self

/-- Nothing is derived but from its own parts. -/
theorem Derives.parts_eq (ideal : Ideal) {parts : List Key} {d : Derivation} {key : Key}
    (hd : d.key = .ok key)
    (h : Derives parts key) : parts = d.parts := by
  obtain ⟨d', hd', rfl⟩ := h
  rw [ideal.collisionFree hd hd']

theorem lineage (ideal : Ideal) (grounded : Grounded) {pick : Derivation → Key}
    (hpick : ∀ d : Derivation, pick d ∈ d.parts) : Lineage (Parent pick) where
  unique := by
    rintro a b c ⟨d, hd, rfl⟩ ⟨d', hd', rfl⟩
    rw [ideal.collisionFree hd hd']
  grounded := by
    apply Subrelation.wf _ grounded
    rintro a b ⟨d, hd, rfl⟩
    exact ⟨d, hd, hpick d⟩

theorem Derivable.exists_forebear {pick : Derivation → Key}
    (hpick : ∀ d : Derivation, pick d ∈ d.parts)
    {known : Set Key} {key : Key} (h : Derivable known key) :
    ∃ a ∈ known, Relation.ReflTransGen (Parent pick) a key := by
  refine Made.exists_forebear ?_ h
  rintro parts a ⟨d, hd, rfl⟩
  exact ⟨pick d, hpick d, d, hd, rfl⟩

/-- A derivation that carries on a chain, or a root. -/
theorem parent_message (ideal : Ideal) (lead : Fin 4) (chain : Key) :
    Parent (Derivation.carried lead) chain (advance chain).1 := ⟨_, key_message ideal chain, rfl⟩

theorem parent_next (ideal : Ideal) (lead : Fin 4) (chain : Key) :
    Parent (Derivation.carried lead) chain (advance chain).2 := ⟨_, key_next ideal chain, rfl⟩

theorem parent_root (lead : Fin 4) {rootKey dhOut newRoot newChain : Key}
    (h : kdfRoot rootKey dhOut = .ok (newRoot, newChain)) :
    Parent (Derivation.carried lead) rootKey newRoot := ⟨_, key_root h, rfl⟩

theorem parent_chain (lead : Fin 4) {rootKey dhOut newRoot newChain : Key}
    (h : kdfRoot rootKey dhOut = .ok (newRoot, newChain)) :
    Parent (Derivation.carried lead) rootKey newChain := ⟨_, key_chain h, rfl⟩

theorem advance_ne (ideal : Ideal) (chain : Key) : (advance chain).2 ≠ (advance chain).1 := by
  intro heq
  have hnext := key_next ideal chain
  rw [heq] at hnext
  cases ideal.collisionFree hnext (key_message ideal chain)

theorem kdfRoot_ne (ideal : Ideal) {rootKey dhOut newRoot newChain : Key}
    (h : kdfRoot rootKey dhOut = .ok (newRoot, newChain)) : newRoot ≠ newChain := by
  rintro rfl
  cases ideal.collisionFree (key_root h) (key_chain h)

/-! ### What a ratchet holds -/

/-- Where a key is held, or was spent. -/
inductive Slot where
  | root
  | sending
  | receiving
  | skipped (id : MessageId)
  | spent (i : ℕ)
  deriving DecidableEq

/-- The keys of a ratchet that were derived, each where it is held, and those that were spent. -/
def stock (rootKey : Key) (sendChain recvChain : Option Key) (byId : MessageId → Option Key)
    (spent : List Key) : Slot → Option Key
  | .root => some rootKey
  | .sending => sendChain
  | .receiving => recvChain
  | .skipped id => byId id
  | .spent i => spent[i]?

def Ratchet.stock (r : Ratchet) (spent : List Key) : Slot → Option Key :=
  E2ee.stock r.rootKey r.sendChain r.recvChain r.skipped.byId spent

/-- All that a ratchet keeps to itself. -/
def Ratchet.secrets (r : Ratchet) : Set Key :=
  {key | key = r.rootKey ∨ key = r.dhsSecret ∨ r.sendChain = some key ∨ r.recvChain = some key ∨
    ∃ id, r.skipped.byId id = some key}

section Stock

variable {rootKey : Key} {sendChain recvChain : Option Key} {byId : MessageId → Option Key}
  {spent : List Key}

theorem stock_root (key : Key) : stock key sendChain recvChain byId spent =
    Function.update (stock rootKey sendChain recvChain byId spent) .root (some key) := by
  funext slot
  cases slot <;> rfl

theorem stock_sending (key : Option Key) : stock rootKey key recvChain byId spent =
    Function.update (stock rootKey sendChain recvChain byId spent) .sending key := by
  funext slot
  cases slot <;> rfl

theorem stock_receiving (key : Option Key) : stock rootKey sendChain key byId spent =
    Function.update (stock rootKey sendChain recvChain byId spent) .receiving key := by
  funext slot
  cases slot <;> rfl

theorem stock_skipped (id : MessageId) (key : Option Key) :
    stock rootKey sendChain recvChain (Function.update byId id key) spent =
      Function.update (stock rootKey sendChain recvChain byId spent) (.skipped id) key := by
  funext slot
  cases slot with
  | skipped id' =>
    by_cases hid : id' = id
    · subst hid
      rw [Function.update_self]
      exact Function.update_self _ _ _
    · rw [Function.update_of_ne (fun heq => hid (Slot.skipped.inj heq))]
      exact Function.update_of_ne hid _ _
  | _ => rfl

theorem stock_spent (key : Key) : stock rootKey sendChain recvChain byId (spent ++ [key]) =
    Function.update (stock rootKey sendChain recvChain byId spent) (.spent spent.length)
      (some key) := by
  funext slot
  cases slot with
  | spent i =>
    by_cases hi : i = spent.length
    · subst hi
      rw [Function.update_self]
      exact List.getElem?_concat_length
    · rw [Function.update_of_ne (fun heq => hi (Slot.spent.inj heq))]
      show (spent ++ [key])[i]? = spent[i]?
      obtain hlt | hgt := Nat.lt_or_gt_of_ne hi
      · exact List.getElem?_append_left hlt
      · rw [List.getElem?_eq_none (by rw [List.length_append]; exact hgt),
          List.getElem?_eq_none hgt.le]
  | _ => rfl

end Stock

/-! ### One call -/

/-- What becomes of a ratchet's keys. -/
abbrev Passing (lead : Fin 4) (held later : Slot → Option Key) : Prop :=
  Passes (Parent (Derivation.carried lead)) held later

namespace Ratchet

variable (lead : Fin 4) {r : Ratchet} (spent : List Key)

/-- **What adopting a key takes**: two steps of the root, of which one starts a receiving chain and
one a sending chain. -/
theorem dhRatchetReceive_cases {trial : Ratchet} {newDhr : Key} {rng rng' : RandomSource}
    (h : r.dhRatchetReceive newDhr rng = (.ok trial, rng')) :
    ∃ shared rootAfterRecv recvChain shared2 rootAfterSend sendChain,
      diffieHellmanRaw r.dhsSecret newDhr = .ok shared ∧
        kdfRoot r.rootKey shared = .ok (rootAfterRecv, recvChain) ∧
        diffieHellmanRaw (rng.bytes rng.calls) newDhr = .ok shared2 ∧
        kdfRoot rootAfterRecv shared2 = .ok (rootAfterSend, sendChain) ∧
        rng' = { rng with calls := rng.calls + 1 } ∧
        trial = { r with
          prevChainLen := r.nSend
          nSend := 0
          nRecv := 0
          dhr := some newDhr
          rootKey := rootAfterSend
          recvChain := some recvChain
          dhsSecret := rng.bytes rng.calls
          dhsPublic := publicKey (rng.bytes rng.calls)
          sendChain := some sendChain } := by
  unfold dhRatchetReceive generateX25519Keypair randomArray at h
  dsimp only at h
  split at h
  · cases (Prod.mk.inj h).1
  · rename_i rootAfterRecv recvChain hreceiving
    obtain ⟨shared, hshared, hroot⟩ := bind_eq_ok.mp hreceiving
    split at h
    · cases (Prod.mk.inj h).1
    · rename_i rootAfterSend sendChain hsending
      obtain ⟨shared2, hshared2, hroot2⟩ := bind_eq_ok.mp hsending
      obtain ⟨htrial, hrng⟩ := Prod.mk.inj h
      exact ⟨shared, rootAfterRecv, recvChain, shared2, rootAfterSend, sendChain, hshared, hroot,
        hshared2, hroot2, hrng.symm, (Except.ok.inj htrial).symm⟩

theorem takeNext_cases (ideal : Ideal) {trial : Ratchet} {msg : RatchetMessage} {key : Key}
    (h : r.takeNext msg = .ok (key, trial)) :
    ∃ head chain n, r.skipCurrentReceivingChain msg.n = .ok head ∧ head.recvChain = some chain ∧
      key = (advance chain).1 ∧
      trial = { head with recvChain := some (advance chain).2, nRecv := n } := by
  unfold takeNext at h
  obtain ⟨head, hskip, h⟩ := bind_eq_ok.mp h
  split at h
  · cases h
  · rename_i chain hchain
    obtain ⟨p, hp, h⟩ := bind_eq_ok.mp h
    obtain ⟨n, -, h⟩ := bind_eq_ok.mp h
    rw [kdfChain_eq ideal] at hp
    obtain rfl := Except.ok.inj hp
    obtain ⟨hkey, htrial⟩ := Prod.mk.inj (Except.ok.inj h)
    exact ⟨head, chain, n, hskip, hchain, hkey.symm, htrial.symm⟩

/-- A chain gives way to its rest, and the key at its head goes somewhere. -/
theorem advances (ideal : Ideal) (grounded : Grounded) (held : Slot → Option Key) {chain : Key}
    {i j : Slot} (hij : i ≠ j) (hchain : held i = some chain) :
    Passing lead held
      (Function.update (Function.update held i (some (advance chain).2)) j
        (some (advance chain).1)) :=
  Passes.split (lineage ideal grounded (Derivation.carried_mem lead)) held hij hchain
    (parent_next ideal lead chain)
    (parent_message ideal lead chain) (advance_ne ideal chain)

/-- A store that gives way to new keys holds no others. -/
theorem evict_passes {rootKey : Key} {sendChain recvChain : Option Key}
    (byId : MessageId → Option Key) (order : List MessageId) :
    Passing lead (E2ee.stock rootKey sendChain recvChain byId spent)
      (E2ee.stock rootKey sendChain recvChain (SkippedKeys.evict byId order).byId spent) := by
  induction order generalizing byId with
  | nil => exact Passes.refl _
  | cons oldest rest ih =>
    unfold SkippedKeys.evict
    split
    · refine Passes.trans (Passes.drop ?_) (ih (Function.update byId oldest none))
      intro slot key hkey
      rw [stock_skipped] at hkey
      by_cases hslot : slot = .skipped oldest
      · subst hslot
        rw [Function.update_self] at hkey
        cases hkey
      · rw [Function.update_of_ne hslot] at hkey
        exact hkey
    · exact Passes.refl _

/-- **The keys skipped over** go into the store, each from the chain as it was there. -/
theorem fill_passes (ideal : Ideal) (grounded : Grounded) {rootKey : Key} {sendChain : Option Key}
    (dhr : Key) (span : ℕ) (skipped : SkippedKeys) (chain : Key) (n : UInt32) :
    Passing lead (E2ee.stock rootKey sendChain (some chain) skipped.byId spent)
      (E2ee.stock rootKey sendChain (some (along chain span)) (fill dhr span skipped chain n).byId
        spent) := by
  induction span generalizing skipped chain n with
  | zero => exact Passes.refl _
  | succ span ih =>
    have hstep : Passing lead (E2ee.stock rootKey sendChain (some chain) skipped.byId spent)
        (E2ee.stock rootKey sendChain (some (advance chain).2)
          (Function.update skipped.byId (dhr, n) (some (advance chain).1)) spent) := by
      have h := advances lead ideal grounded
        (E2ee.stock rootKey sendChain (some chain) skipped.byId spent)
        (i := .receiving) (j := .skipped (dhr, n)) nofun rfl
      rw [← stock_receiving, ← stock_skipped] at h
      exact h
    have hinsert : Passing lead (E2ee.stock rootKey sendChain (some chain) skipped.byId spent)
        (E2ee.stock rootKey sendChain (some (advance chain).2)
          (skipped.insert dhr n (advance chain).1).byId spent) :=
            hstep.trans (evict_passes lead spent _ _)
    rw [← along_advance]
    exact hinsert.trans (ih _ _ _)

theorem skip_passes (ideal : Ideal) (grounded : Grounded) {trial : Ratchet} {upTo : UInt32}
    (h : r.skipCurrentReceivingChain upTo = .ok trial) :
    trial.rootKey = r.rootKey ∧ Passing lead (r.stock spent) (trial.stock spent) := by
  by_cases hself : r.recvChain = none ∨ upTo ≤ r.nRecv
  · rw [skip_eq_self hself] at h
    obtain rfl := Except.ok.inj h
    exact ⟨rfl, Passes.refl _⟩
  · rw [not_or] at hself
    obtain ⟨chain, hchain⟩ := Option.ne_none_iff_exists'.mp hself.1
    have hahead : r.nRecv.toNat < upTo.toNat := by
      by_contra hle
      exact hself.2 (UInt32.le_iff_toNat_le.mpr (not_lt.mp hle))
    cases hdhr : r.dhr with
    | none =>
      unfold skipCurrentReceivingChain at h
      rw [hdhr] at h
      obtain rfl := Except.ok.inj h
      exact ⟨rfl, Passes.refl _⟩
    | some dhr =>
      rw [skip_eq ideal hdhr hchain hahead] at h
      split at h
      · cases h
      · obtain rfl := Except.ok.inj h
        refine ⟨rfl, ?_⟩
        unfold stock
        rw [hchain]
        exact fill_passes lead spent ideal grounded _ _ _ _ _

theorem dhRatchetReceive_passes (ideal : Ideal) (grounded : Grounded) {trial : Ratchet}
    {newDhr : Key}
    {rng rng' : RandomSource} (h : r.dhRatchetReceive newDhr rng = (.ok trial, rng')) :
    Forebear lead r.rootKey trial.rootKey ∧ Passing lead (r.stock spent) (trial.stock spent) := by
  obtain ⟨shared, rootAfterRecv, recvChain, shared2, rootAfterSend, sendChain, -, hroot, -, hroot2,
    -, rfl⟩ :=
    dhRatchetReceive_cases h
  have hlineage := lineage ideal grounded (Derivation.carried_mem lead)
  have hreceiving := Passes.split hlineage (r.stock spent) (i := .root) (j := .receiving) nofun rfl
    (parent_root lead hroot) (parent_chain lead hroot) (kdfRoot_ne ideal hroot)
  unfold stock at hreceiving ⊢
  rw [← stock_root, ← stock_receiving] at hreceiving
  have hsending := Passes.split hlineage
    (E2ee.stock rootAfterRecv r.sendChain (some recvChain) r.skipped.byId spent) (i := .root)
      (j := .sending)
    nofun rfl (parent_root lead hroot2) (parent_chain lead hroot2) (kdfRoot_ne ideal hroot2)
  rw [← stock_root, ← stock_sending] at hsending
  refine ⟨?_, hreceiving.trans hsending⟩
  exact (Relation.ReflTransGen.single (parent_root lead hroot)).tail (parent_root lead hroot2)

theorem takeNext_passes (ideal : Ideal) (grounded : Grounded) {trial : Ratchet}
    {msg : RatchetMessage}
    {key : Key} (h : r.takeNext msg = .ok (key, trial)) :
    trial.rootKey = r.rootKey ∧ Passing lead (r.stock spent) (trial.stock (spent ++ [key])) := by
  obtain ⟨head, chain, n, hskip, hchain, rfl, rfl⟩ := takeNext_cases ideal h
  obtain ⟨hroot, hpasses⟩ := skip_passes lead spent ideal grounded hskip
  refine ⟨hroot, hpasses.trans ?_⟩
  have h := advances lead ideal grounded (head.stock spent) (i := .receiving)
    (j := .spent spent.length)
    nofun hchain
  unfold stock at h ⊢
  rw [← stock_receiving, ← stock_spent] at h
  exact h

/-- **What a message's key is taken from**: the store, where it was left; or the chain it is on, and
what that chain is made of. -/
theorem attempt_passes (ideal : Ideal) (grounded : Grounded) {trial : Ratchet}
    {msg : RatchetMessage}
    {rng rng' : RandomSource} {key : Key} (h : r.attempt msg rng = (.ok (key, trial), rng')) :
    Forebear lead r.rootKey trial.rootKey ∧
      Passing lead (r.stock spent) (trial.stock (spent ++ [key])) := by
  unfold attempt at h
  split at h
  · rename_i found skipped htake
    obtain ⟨hok, -⟩ := Prod.mk.inj h
    obtain ⟨rfl, rfl⟩ := Prod.mk.inj (Except.ok.inj hok)
    obtain ⟨hheld, hrest, -⟩ := SkippedKeys.take_eq_some htake
    refine ⟨Relation.ReflTransGen.refl, ?_⟩
    unfold stock
    dsimp only
    rw [stock_spent, hrest, stock_skipped, ← hheld]
    exact Passes.move (lineage ideal grounded (Derivation.carried_mem lead)) (r.stock spent)
      (i := Slot.skipped (msg.dh, msg.n)) nofun
  · split at h
    · cases (Prod.mk.inj h).1
    · rename_i head rng'' hfollow
      obtain ⟨hroot, hnext⟩ := takeNext_passes lead spent ideal grounded
        (Prod.mk.inj h).1
      obtain ⟨-, rfl⟩ | ⟨left, hskip, hadopt⟩ := follow_spec hfollow
      · exact ⟨hroot ▸ Relation.ReflTransGen.refl, hnext⟩
      · obtain ⟨hleft, hpasses⟩ := skip_passes lead spent ideal grounded hskip
        obtain ⟨hline, hpasses'⟩ := dhRatchetReceive_passes lead spent ideal grounded
          hadopt
        exact ⟨hleft ▸ hroot ▸ hline, hpasses.trans (hpasses'.trans hnext)⟩

theorem encrypt_passes (ideal : Ideal) (grounded : Grounded) (plaintext : Bytes) :
    (r.encrypt plaintext).2.rootKey = r.rootKey ∧
      Passing lead (r.stock spent)
        ((r.encrypt plaintext).2.stock (spent ++ (r.spends.map fun use => use.2.2).toList)) := by
  cases hspends : r.spends with
  | none =>
    rw [show spent ++ (Option.map (fun use : Key × UInt32 × Key => use.2.2) none).toList =
      spent from
      List.append_nil spent]
    obtain ⟨e, heq | ⟨chain, messageKey, next, hchain, hstep, -, heq⟩⟩ :=
      encrypt_of_spends_none hspends plaintext
    · rw [heq]
      exact ⟨rfl, Passes.refl _⟩
    · rw [heq]
      refine ⟨rfl, ?_⟩
      rw [kdfChain_eq ideal] at hstep
      have hnext : (advance chain).2 = next := congrArg Prod.snd (Except.ok.inj hstep)
      have hheld : r.stock spent Slot.sending = some chain := hchain
      have h := Passes.replace (lineage ideal grounded (Derivation.carried_mem lead)) hheld
        (parent_next ideal lead chain)
      unfold stock at h ⊢
      rw [← stock_sending, hnext] at h
      exact h
  | some use =>
    obtain ⟨dh, n, messageKey⟩ := use
    obtain ⟨-, -, chain, next, nSend, hchain, hstep, -, hafter, -⟩ :=
      encrypt_of_spends hspends plaintext
    rw [hafter]
    refine ⟨rfl, ?_⟩
    rw [kdfChain_eq ideal] at hstep
    obtain ⟨rfl, rfl⟩ := Prod.mk.inj (Except.ok.inj hstep)
    have h := advances lead ideal grounded (r.stock spent) (i := .sending)
      (j := .spent spent.length) nofun
      hchain
    unfold stock at h ⊢
    rw [← stock_sending, ← stock_spent] at h
    exact h

end Ratchet

/-- Sealing a message draws no key pair. -/
theorem Ratchet.encrypt_secret (ideal : Ideal) (r : Ratchet) (plaintext : Bytes) :
    (r.encrypt plaintext).2.dhsSecret = r.dhsSecret := by
  obtain ⟨-, heq⟩ | ⟨chain, -, ⟨-, e, heq⟩ | ⟨n, -, ⟨e, heq⟩ | ⟨msg, heq, -⟩⟩⟩ :=
    r.encrypt_cases ideal plaintext <;> rw [heq]

/-- To follow a message is to keep the pair there was, or to have drawn one. -/
theorem Ratchet.attempt_secret (ideal : Ideal) {r trial : Ratchet} {msg : RatchetMessage}
    {rng rng' : RandomSource} {key : Key} (h : r.attempt msg rng = (.ok (key, trial), rng')) :
    trial.dhsSecret = r.dhsSecret ∨
      trial.dhsSecret = rng.bytes rng.calls ∧ rng.calls < rng'.calls := by
  unfold attempt at h
  split at h
  · obtain ⟨-, rfl⟩ := Prod.mk.inj (Except.ok.inj (Prod.mk.inj h).1)
    exact Or.inl rfl
  · split at h
    · cases (Prod.mk.inj h).1
    · rename_i head rng'' hfollow
      obtain ⟨hnext, rfl⟩ := Prod.mk.inj h
      obtain ⟨last, chain, n, hskip, -, -, rfl⟩ := takeNext_cases ideal hnext
      have hlast : last.dhsSecret = head.dhsSecret := (skip_spec ideal hskip).2.1
      obtain ⟨-, rfl⟩ | ⟨left, -, hadopt⟩ := follow_spec hfollow
      · exact Or.inl hlast
      · obtain ⟨_, _, _, _, _, _, -, -, -, -, rfl, rfl⟩ := dhRatchetReceive_cases hadopt
        exact Or.inr ⟨hlast, Nat.lt_succ_self _⟩

/-! ### A whole run -/

/-- The key that opens a message, where one does. -/
def Ratchet.opensWith (r : Ratchet) (msg : RatchetMessage) (rng : RandomSource) : Option Key :=
  match (r.attempt msg rng).1 with
  | .ok (key, _) => (decryptWithKey key msg).toOption.map fun _ => key
  | .error _ => none

/-- Reading a message is to spend the key that opens it; a message that nothing opens changes
nothing. -/
theorem Ratchet.decrypt_of_opensWith (r : Ratchet) (msg : RatchetMessage) (rng : RandomSource) :
    (∃ key trial, r.opensWith msg rng = some key ∧ r.attempt msg rng =
      (.ok (key, trial), (r.attempt msg rng).2)
        ∧ (r.decrypt msg rng).2 = (trial, (r.attempt msg rng).2)) ∨
      r.opensWith msg rng = none ∧ (r.decrypt msg rng).2 = (r, (r.attempt msg rng).2) := by
  unfold opensWith
  cases hattempt : r.attempt msg rng with
  | mk result rng' =>
    cases result with
    | error e =>
      have hclosed : ∃ e, r.decrypt msg rng = (.error e, r, (r.attempt msg rng).2) := by
        apply decrypt_of_closed
        intro key trial _ h
        rw [hattempt] at h
        cases (Prod.mk.inj h).1
      obtain ⟨e', hclosed⟩ := hclosed
      rw [hclosed, hattempt]
      exact Or.inr ⟨rfl, rfl⟩
    | ok found =>
      obtain ⟨key, trial⟩ := found
      dsimp only
      cases hopen : decryptWithKey key msg with
      | error e =>
        have hclosed : ∃ e, r.decrypt msg rng = (.error e, r, (r.attempt msg rng).2) := by
          apply decrypt_of_closed
          intro key' trial' _ h
          rw [hattempt] at h
          obtain ⟨rfl, -⟩ := Prod.mk.inj (Except.ok.inj (Prod.mk.inj h).1)
          exact ⟨e, hopen⟩
        obtain ⟨e', hclosed⟩ := hclosed
        rw [hclosed, hattempt]
        exact Or.inr ⟨rfl, rfl⟩
      | ok plaintext =>
        rw [decrypt_of_attempt_ok hattempt hopen]
        exact Or.inl ⟨key, trial, rfl, rfl, rfl⟩

/-- A ratchet and its host's randomness, with the message keys it sealed and read with. -/
structure Journal where
  ratchet : Ratchet
  rng : RandomSource
  spent : List Key

namespace Journal

def opening (r : Ratchet) (rng : RandomSource) : Journal where
  ratchet := r
  rng := rng
  spent := []

def step (j : Journal) : Ledger.Call → Journal
  | .encrypt plaintext =>
    { j with
      ratchet := (j.ratchet.encrypt plaintext).2
      spent := j.spent ++ (j.ratchet.spends.map fun use => use.2.2).toList }
  | .decrypt msg =>
    { ratchet := (j.ratchet.decrypt msg j.rng).2.1
      rng := (j.ratchet.decrypt msg j.rng).2.2
      spent := j.spent ++ (j.ratchet.opensWith msg j.rng).toList }

def run (j : Journal) (calls : List Ledger.Call) : Journal := calls.foldl step j

/-- The keys held and spent. -/
def stock (j : Journal) : Slot → Option Key := j.ratchet.stock j.spent

variable (lead : Fin 4)

theorem step_passes (ideal : Ideal) (grounded : Grounded) (j : Journal) (call : Ledger.Call) :
    Forebear lead j.ratchet.rootKey (j.step call).ratchet.rootKey ∧
      Passing lead j.stock (j.step call).stock := by
  cases call with
  | encrypt plaintext =>
    obtain ⟨hroot, hpasses⟩ :=
      Ratchet.encrypt_passes (r := j.ratchet) lead j.spent ideal grounded plaintext
    exact ⟨Relation.ReflTransGen.refl.trans (hroot ▸ Relation.ReflTransGen.refl), hpasses⟩
  | decrypt msg =>
    unfold stock step
    dsimp only
    obtain ⟨key, trial, hkey, hattempt, hafter⟩ | ⟨hnone, hafter⟩ :=
      j.ratchet.decrypt_of_opensWith msg j.rng
    · rw [hkey, hafter]
      exact Ratchet.attempt_passes lead j.spent ideal grounded hattempt
    · rw [hnone, hafter]
      refine ⟨Relation.ReflTransGen.refl, ?_⟩
      show Passing lead _ (j.ratchet.stock (j.spent ++ []))
      rw [List.append_nil]
      exact Passes.refl _

theorem run_passes (ideal : Ideal) (grounded : Grounded) (j : Journal) (calls : List Ledger.Call) :
    Forebear lead j.ratchet.rootKey (j.run calls).ratchet.rootKey ∧
      Passing lead j.stock (j.run calls).stock := by
  induction calls generalizing j with
  | nil => exact ⟨Relation.ReflTransGen.refl, Passes.refl _⟩
  | cons call calls ih =>
    obtain ⟨hroot, hpasses⟩ := step_passes lead ideal grounded j call
    obtain ⟨hroot', hpasses'⟩ := ih (j.step call)
    exact ⟨hroot.trans hroot', hpasses.trans hpasses'⟩

theorem step_rng (j : Journal) (call : Ledger.Call) :
    (j.step call).rng.bytes = j.rng.bytes ∧ j.rng.calls ≤ (j.step call).rng.calls := by
  cases call with
  | encrypt plaintext => exact ⟨rfl, le_rfl⟩
  | decrypt msg =>
    have hrng := Ratchet.attempt_rng j.ratchet msg j.rng
    unfold step
    dsimp only
    obtain ⟨key, trial, -, -, hafter⟩ | ⟨-, hafter⟩ := j.ratchet.decrypt_of_opensWith msg j.rng
    · rw [hafter]
      exact hrng
    · rw [hafter]
      exact hrng

/-- The secret of a key pair that the ratchet had: its first, or one that its host drew for it. -/
def Had (start : Ratchet) (rng : RandomSource) (j : Journal) (secret : Key) : Prop :=
  secret = start.dhsSecret ∨ ∃ i, rng.calls ≤ i ∧ i < j.rng.calls ∧ secret = rng.bytes i

/-- The pair of a ratchet is one that it had. -/
structure Pairs (start : Ratchet) (rng : RandomSource) (j : Journal) : Prop where
  bytes : j.rng.bytes = rng.bytes
  calls : rng.calls ≤ j.rng.calls
  had : j.Had start rng j.ratchet.dhsSecret

theorem Had.mono {start : Ratchet} {rng : RandomSource} {j j' : Journal} {secret : Key}
    (h : j.Had start rng secret) (hcalls : j.rng.calls ≤ j'.rng.calls) :
      j'.Had start rng secret := by
  obtain hfirst | ⟨i, hle, hlt, hi⟩ := h
  · exact Or.inl hfirst
  · exact Or.inr ⟨i, hle, hlt.trans_le hcalls, hi⟩

theorem step_pairs (ideal : Ideal) {start : Ratchet} {rng : RandomSource} {j : Journal}
    (h : j.Pairs start rng) (call : Ledger.Call) : (j.step call).Pairs start rng := by
  obtain ⟨hbytes, hcalls⟩ := j.step_rng call
  refine ⟨hbytes.trans h.bytes, h.calls.trans hcalls, ?_⟩
  cases call with
  | encrypt plaintext =>
    have hsame : (j.step (.encrypt plaintext)).ratchet.dhsSecret = j.ratchet.dhsSecret :=
      j.ratchet.encrypt_secret ideal plaintext
    rw [hsame]
    exact h.had.mono hcalls
  | decrypt msg =>
    have hafter : (j.step (.decrypt msg)).ratchet = (j.ratchet.decrypt msg j.rng).2.1 := rfl
    have hrng : (j.step (.decrypt msg)).rng = (j.ratchet.decrypt msg j.rng).2.2 := rfl
    obtain ⟨key, trial, -, hattempt, hread⟩ | ⟨-, hrefused⟩ :=
      j.ratchet.decrypt_of_opensWith msg j.rng
    · rw [hread] at hafter hrng
      rw [hafter]
      obtain hkept | ⟨hdrawn, hlt⟩ := Ratchet.attempt_secret ideal hattempt
      · rw [show trial.dhsSecret = _ from hkept]
        exact h.had.mono hcalls
      · refine Or.inr ⟨j.rng.calls, h.calls, hrng ▸ hlt, ?_⟩
        rw [← h.bytes]
        exact hdrawn
    · rw [hafter, hrefused]
      exact h.had.mono hcalls

theorem run_pairs (ideal : Ideal) {start : Ratchet} {rng : RandomSource} {j : Journal}
    (h : j.Pairs start rng) (calls : List Ledger.Call) : (j.run calls).Pairs start rng := by
  induction calls generalizing j with
  | nil => exact h
  | cons call calls ih => exact ih (step_pairs ideal h call)

/-- What either side of a handshake starts with is of two lines. -/
theorem opening_apart (ideal : Ideal) (grounded : Grounded) {start : Ratchet}
    (hstart : Ledger.Begins start)
    (rng : RandomSource) : Apart (Parent (Derivation.carried lead)) (opening start rng).stock := by
  have hroot : ∀ rootKey : Key, Apart (Parent (Derivation.carried lead))
      (E2ee.stock rootKey none none (fun _ => none) []) := by
    intro rootKey i j a b hij ha hb
    cases i with
    | root =>
      cases j with
      | root => exact absurd rfl hij
      | _ => cases hb
    | _ => cases ha
  obtain ⟨rootKey, secret, publicHalf, peer, hinit⟩ | ⟨rootKey, secret, publicHalf, rfl⟩ := hstart
  · obtain ⟨shared, -, hkdf⟩ := bind_eq_ok.mp hinit
    obtain ⟨p, hp, hr⟩ := bind_eq_ok.mp hkdf
    obtain rfl := Except.ok.inj hr
    have hsplit := Passes.split (lineage ideal grounded (Derivation.carried_mem lead))
      (E2ee.stock rootKey none none (fun _ => none) []) (i := .root) (j := .sending) nofun rfl
      (parent_root lead hp) (parent_chain lead hp) (kdfRoot_ne ideal hp)
    rw [← stock_root, ← stock_sending] at hsplit
    exact hsplit.apart (hroot rootKey)
  · exact hroot rootKey

variable {start : Ratchet}

/-- What was spent was spent once, and is of another line than all that is held. -/
theorem run_apart (ideal : Ideal) (grounded : Grounded) (hstart : Ledger.Begins start)
    (rng : RandomSource)
    (calls : List Ledger.Call) :
    Apart (Parent (Derivation.carried lead)) ((opening start rng).run calls).stock :=
  (run_passes lead ideal grounded (opening start rng) calls).2.apart
    (opening_apart lead ideal grounded hstart rng)

/-- A secret that no key of the ratchet's beginning leads to, and that leads to none of them. -/
def Foreign (start : Ratchet) (secret : Key) : Prop :=
  ∀ lead slot first, start.stock [] slot = some first →
    ¬ Forebear lead first secret ∧ ¬ Forebear lead secret first

/-- **A secret from elsewhere leads to nothing that was spent**, as all that was spent is from what
the ratchet started with. -/
theorem Foreign.clear (ideal : Ideal) (grounded : Grounded) {secret : Key}
    (h : Foreign start secret)
    (rng : RandomSource) (calls : List Ledger.Call) {key : Key}
    (hkey : key ∈ ((opening start rng).run calls).spent) : ¬ Forebear lead secret key := by
  intro hline
  obtain ⟨i, hi⟩ := List.mem_iff_getElem?.mp hkey
  obtain ⟨slot, first, hfirst, hfrom⟩ :=
    (run_passes lead ideal grounded (opening start rng) calls).2.from_held (.spent i) key hi
  obtain ⟨hto, hof⟩ := h lead slot first hfirst
  exact ((lineage ideal grounded (Derivation.carried_mem lead)).comparable hfrom hline).elim hto hof

/-- **Nothing that is held leads back** to a key that was spent, nor does another key that was. -/
theorem run_clear (ideal : Ideal) (grounded : Grounded) (hstart : Ledger.Begins start)
    (rng : RandomSource)
    (calls : List Ledger.Call)
    (hpairs : ∀ secret, ((opening start rng).run calls).Had start rng secret →
      Foreign start secret) :
    let j := (opening start rng).run calls
    ∀ key ∈ j.spent, (∀ held ∈ j.ratchet.secrets, ¬ Forebear lead held key) ∧
      ∀ other ∈ j.spent, other ≠ key → ¬ Forebear lead other key := by
  intro j key hkey
  have hapart := run_apart lead ideal grounded hstart rng calls
  obtain ⟨i, hi⟩ := List.mem_iff_getElem?.mp hkey
  have hclear : ∀ (slot : Slot) (a : Key), slot ≠ .spent i → j.stock slot = some a →
      ¬ Forebear lead a key := fun slot a hslot ha => hapart slot (.spent i) a key hslot ha hi
  constructor
  · rintro held (rfl | rfl | hsending | hreceiving | ⟨id, hskipped⟩)
    · exact hclear .root _ nofun rfl
    · have hhad := (run_pairs ideal (j := opening start rng) ⟨rfl, le_rfl, Or.inl rfl⟩ calls).had
      exact (hpairs _ hhad).clear lead ideal grounded rng calls hkey
    · exact hclear .sending held nofun hsending
    · exact hclear .receiving held nofun hreceiving
    · exact hclear (.skipped id) held nofun hskipped
  · intro other hother hne
    obtain ⟨k, hk⟩ := List.mem_iff_getElem?.mp hother
    refine hclear (.spent k) other ?_ hk
    intro heq
    obtain rfl := Slot.spent.inj heq
    exact hne (Option.some.inj (hk.symm.trans hi))

/-- **Forward secrecy.**  However a ratchet is used, no message key is spent twice, and nothing that
it still holds leads back to one that was; and a party that takes all its secrets, and every other
message key it sealed or read with, comes to know a key that was spent only with a forebear of it
from elsewhere: the key, the chain or the root it was on, before it was dropped, or all of the
agreements that the first root is from.  The key pairs it had are to be foreign to the keys that it
started with. -/
theorem forward_secrecy (ideal : Ideal) (grounded : Grounded) (hstart : Ledger.Begins start)
    (rng : RandomSource) (calls : List Ledger.Call)
    (hpairs : ∀ secret, ((opening start rng).run calls).Had start rng secret →
      Foreign start secret) :
    let j := (opening start rng).run calls
    j.spent.Nodup ∧ (∀ key ∈ j.spent, ∀ held ∈ j.ratchet.secrets, ∀ lead,
      ¬ Forebear lead held key) ∧
      ∀ (known : Set Key), ∀ key ∈ j.spent,
        Derivable (j.ratchet.secrets ∪ {other | other ∈ j.spent ∧ other ≠ key} ∪ known) key →
          ∀ lead, ∃ forebear ∈ known, Forebear lead forebear key := by
  intro j
  refine ⟨?_, ?_, ?_⟩
  · have hapart := run_apart 0 ideal grounded hstart rng calls
    rw [List.nodup_iff_getElem?_ne_getElem?]
    intro i k hik hk heq
    have hkey : j.spent[k]? = some j.spent[k] := List.getElem?_eq_getElem hk
    exact hapart (.spent i) (.spent k) _ _ (fun h => absurd (Slot.spent.inj h) hik.ne)
      (heq.trans hkey) hkey Relation.ReflTransGen.refl
  · intro key hkey held hheld lead
    exact (run_clear lead ideal grounded hstart rng calls hpairs key hkey).1 held hheld
  · intro known key hkey hderivable lead
    obtain ⟨hheld, hother⟩ := run_clear lead ideal grounded hstart rng calls hpairs key hkey
    obtain ⟨a, (ha | ⟨ha, hne⟩) | ha, hline⟩ :=
      hderivable.exists_forebear (Derivation.carried_mem lead)
    · exact absurd hline (hheld a ha)
    · exact absurd hline (hother a ha hne)
    · exact ⟨a, ha, hline⟩

omit [Crypto] in
/-- In keys that spell out their derivation, each is longer than those it is from. -/
theorem symbols_grounded : @Grounded Crypto.symbols := by
  let _ := Crypto.symbols
  have hlonger : ∀ bytes : Bytes, bytes.length < (framed bytes).length := by
    intro bytes
    induction bytes with
    | nil => exact Nat.zero_lt_one
    | cons byte rest ih =>
      show rest.length + 1 < (framed rest).length + 1 + 1
      omega
  apply Subrelation.wf _ (InvImage.wf List.length Nat.lt_wfRel.wf)
  rintro part key ⟨d, hkey, hpart⟩
  rw [key_eq_spelling] at hkey
  obtain rfl := Except.ok.inj hkey
  show part.length < (spelling d).length
  cases d with
  | x3dh dh1 dh2 dh3 dh4 =>
    have h1 := hlonger dh1
    have h2 := hlonger dh2
    have h3 := hlonger dh3
    have h4 := hlonger dh4
    simp only [Derivation.parts, List.mem_cons, List.not_mem_nil, or_false] at hpart
    simp only [spelling, List.length_cons, List.length_append]
    obtain rfl | rfl | rfl | rfl := hpart <;> omega
  | root rootKey dhOut =>
    have h1 := hlonger rootKey
    have h2 := hlonger dhOut
    simp only [Derivation.parts, List.mem_cons, List.not_mem_nil, or_false] at hpart
    simp only [spelling, List.length_cons, List.length_append]
    obtain rfl | rfl := hpart <;> omega
  | chain rootKey dhOut =>
    have h1 := hlonger rootKey
    have h2 := hlonger dhOut
    simp only [Derivation.parts, List.mem_cons, List.not_mem_nil, or_false] at hpart
    simp only [spelling, List.length_cons, List.length_append]
    obtain rfl | rfl := hpart <;> omega
  | message chainKey =>
    have h1 := hlonger chainKey
    simp only [Derivation.parts, List.mem_cons, List.not_mem_nil, or_false] at hpart
    simp only [spelling, List.length_cons, List.length_append]
    obtain rfl := hpart
    omega
  | next chainKey =>
    have h1 := hlonger chainKey
    simp only [Derivation.parts, List.mem_cons, List.not_mem_nil, or_false] at hpart
    simp only [spelling, List.length_cons, List.length_append]
    obtain rfl := hpart
    omega

omit [Crypto] in
/-- What a spelled key comes of, by one step. -/
theorem symbols_parent {lead : Fin 4} {d : @Derivation Crypto.symbols} {key : Bytes}
    (h : @Parent Crypto.symbols (@Derivation.carried Crypto.symbols lead) key (spelling d)) :
    key = @Derivation.carried Crypto.symbols lead d := by
  obtain ⟨d', hd', rfl⟩ := h
  rw [key_eq_spelling] at hd'
  rw [spelling_injective (Except.ok.inj hd')]

omit [Crypto] in
theorem symbols_forebear {lead : Fin 4} {d : @Derivation Crypto.symbols} {key : Bytes}
    (h : @Forebear Crypto.symbols lead key (spelling d)) :
    key = spelling d ∨ @Forebear Crypto.symbols lead key
      (@Derivation.carried Crypto.symbols lead d) := by
  obtain heq | ⟨last, hkey, hlast⟩ := Relation.ReflTransGen.cases_tail h
  · exact Or.inl heq.symm
  · exact Or.inr (symbols_parent hlast ▸ hkey)

omit [Crypto] in
/-- A key that spells out no derivation comes of nothing else. -/
theorem symbols_forebear_atom {lead : Fin 4} {key atom : Bytes} (hatom : ∀ d, spelling d ≠ atom)
    (h : @Forebear Crypto.symbols lead key atom) : key = atom := by
  obtain heq | ⟨last, -, d, hd, -⟩ := Relation.ReflTransGen.cases_tail h
  · exact heq.symm
  · rw [key_eq_spelling] at hd
    exact absurd (Except.ok.inj hd) (hatom d)

omit [Crypto] in
/-- The first of two messages stays closed to who takes the sender's half after the second. -/
theorem forward_secrecy_opened : letI := Crypto.symbols
    ∃ start, Ledger.opened = .ok start ∧
      ((opening start ⟨fun i => (3 :: List.replicate i 0 : Bytes), 0⟩).run
        [.encrypt [104], .encrypt [105]]).spent.length = 2 ∧
      ∃ key ∈ ((opening start ⟨fun i => (3 :: List.replicate i 0 : Bytes), 0⟩).run
        [.encrypt [104], .encrypt [105]]).spent,
        ¬ Derivable (((opening start ⟨fun i => (3 :: List.replicate i 0 : Bytes), 0⟩).run
            [.encrypt [104], .encrypt [105]]).ratchet.secrets ∪
          {other | other ∈ ((opening start ⟨fun i => (3 :: List.replicate i 0 : Bytes), 0⟩).run
            [.encrypt [104], .encrypt [105]]).spent ∧ other ≠ key} ∪ ∅) key := by
  let _ := Crypto.symbols
  have hbegins : ∃ start, Ledger.opened = .ok start := ⟨_, rfl⟩
  obtain ⟨start, hstart⟩ := hbegins
  have hatom : ∀ (byte : UInt8) (d : Derivation), spelling d ≠ [byte] := by
    intro byte d h
    have hlength := congrArg List.length h
    cases d <;> simp [spelling, zeros] at hlength
  have hforeign : Foreign start ([1] : Bytes) := by
    obtain rfl := Except.ok.inj (show _ = Except.ok start from hstart)
    -- it starts with a root and a chain, each from the key [5]
    have hapart : ∀ (lead : Fin 4) (d : Derivation), d.carried lead = ([5] : Bytes) →
        ¬ Forebear lead (spelling d) ([1] : Bytes) ∧
          ¬ Forebear lead ([1] : Bytes) (spelling d) := by
      intro lead d hd
      refine ⟨fun h => hatom 1 d (symbols_forebear_atom (hatom 1) h), fun h => ?_⟩
      obtain heq | hline := symbols_forebear h
      · exact hatom 1 d heq.symm
      · rw [hd] at hline
        exact absurd (symbols_forebear_atom (hatom 5) hline) (by decide)
    intro lead slot first hfirst
    cases slot with
    | root =>
      obtain rfl := Option.some.inj hfirst
      exact hapart lead (.root [5] (Crypto.diffieHellman ([1] : Bytes) ([7, 2] : Bytes))) rfl
    | sending =>
      obtain rfl := Option.some.inj hfirst
      exact hapart lead (.chain [5] (Crypto.diffieHellman ([1] : Bytes) ([7, 2] : Bytes))) rfl
    | receiving => cases hfirst
    | skipped id => cases hfirst
    | spent i => cases hfirst
  have h := (forward_secrecy symbols_ideal symbols_grounded (Or.inl ⟨_, _, _, _, hstart⟩)
    ⟨fun i => (3 :: List.replicate i 0 : Bytes), 0⟩ [.encrypt [104], .encrypt [105]] ?_).2.2 ∅
  · obtain rfl := Except.ok.inj (show _ = Except.ok start from hstart)
    refine ⟨_, hstart, rfl, _, List.mem_cons_self, ?_⟩
    intro hderivable
    obtain ⟨forebear, hknown, -⟩ := h _ List.mem_cons_self hderivable 0
    exact hknown
  · obtain rfl := Except.ok.inj (show _ = Except.ok start from hstart)
    rintro secret (rfl | ⟨i, -, hlt, -⟩)
    · exact hforeign
    · exact absurd hlt (Nat.not_lt_zero i)

end Journal

end ObbyClient.E2ee

import ObbyClient.E2ee.Secrecy

/-!
# A ratchet that was taken heals

Whoever takes all that a ratchet holds can follow it for a while.  Once the ratchet has adopted a
key of the peer's, what it sends is also from an agreement of a key pair drawn since, and without
that agreement nothing that was taken leads there.

* `Kept` — a key of the time before: from what was held, or from the one chain that the old key pair
  still agrees on;
* `RenewedBy` — a key behind an agreement of a key pair drawn since;
* `Journal.heals` — every key spent is one or the other, and the others are out of reach.
-/

namespace ObbyClient.E2ee

variable [Crypto] (lead : Fin 4)

namespace Journal

/-- The key is from what the ratchet held, or from the first chain received since. -/
def Kept (j : Journal) (key : Key) : Prop :=
  (∃ slot held, slot ≠ Slot.root ∧ j.ratchet.stock [] slot = some held ∧ Forebear lead held key) ∨
    ∃ peer shared newRoot chain, diffieHellmanRaw j.ratchet.dhsSecret peer = .ok shared ∧
      kdfRoot j.ratchet.rootKey shared = .ok (newRoot, chain) ∧ Forebear lead chain key

/-- Between the ratchet's root and the key is an agreement of a key pair drawn since, and `first` is
the first key behind it. -/
def RenewedBy (j : Journal) (shared first key : Key) : Prop :=
  ∃ i peer rootKey newRoot newChain, j.rng.calls ≤ i ∧
    diffieHellmanRaw (j.rng.bytes i) peer = .ok shared ∧ Forebear lead j.ratchet.rootKey rootKey ∧
      kdfRoot rootKey shared = .ok (newRoot, newChain) ∧ (first = newRoot ∨ first = newChain) ∧
        Forebear lead first key

def Renewed (j : Journal) (key : Key) : Prop := ∃ shared first, j.RenewedBy lead shared first key

/-- Who takes what the ratchet holds comes to know the key only with the agreement, or with a key
from `first` on. -/
def Guarded (j : Journal) (shared first key : Key) : Prop :=
  ∀ known, Derivable (j.ratchet.secrets ∪ known) key →
    Derivable (j.ratchet.secrets ∪ known) shared ∨
      ∃ found, (found = j.ratchet.dhsSecret ∨ found ∈ known) ∧ Forebear lead first found ∧
        Forebear lead found key

variable {lead} {j : Journal} {key key' : Key}

theorem Kept.of_forebear (h : j.Kept lead key) (hline : Forebear lead key key') :
    j.Kept lead key' := by
  obtain ⟨slot, held, hslot, hheld, hline'⟩ | ⟨peer, shared, newRoot, chain, hshared, hroot,
    hline'⟩ := h
  · exact Or.inl ⟨slot, held, hslot, hheld, hline'.trans hline⟩
  · exact Or.inr ⟨peer, shared, newRoot, chain, hshared, hroot, hline'.trans hline⟩

theorem Renewed.of_forebear (h : j.Renewed lead key) (hline : Forebear lead key key') :
    j.Renewed lead key' := by
  obtain ⟨shared, first, i, peer, rootKey, newRoot, newChain, hi, hshared, hold, hroot, hfirst,
    hline'⟩ := h
  exact ⟨shared, first, i, peer, rootKey, newRoot, newChain, hi, hshared, hold, hroot, hfirst,
    hline'.trans hline⟩

theorem parent_first {rootKey shared newRoot newChain first : Key}
    (hroot : kdfRoot rootKey shared = .ok (newRoot, newChain))
    (hfirst : first = newRoot ∨ first = newChain) :
    Parent (Derivation.carried lead) rootKey first := by
  obtain rfl | rfl := hfirst
  · exact parent_root lead hroot
  · exact parent_chain lead hroot

/-- What is behind an agreement is behind the root. -/
theorem Renewed.forebear (h : j.Renewed lead key) : Forebear lead j.ratchet.rootKey key := by
  obtain ⟨_, _, _, _, _, _, _, -, -, hold, hroot, hfirst, hline⟩ := h
  exact (hold.tail (parent_first hroot hfirst)).trans hline

/-! ### What a ratchet holds since -/

/-- What a ratchet holds, and has spent, after the state it was taken in. -/
structure Since (lead : Fin 4) (j : Journal) (r : Ratchet) (spent : List Key) : Prop where
  turned : (r.rootKey = j.ratchet.rootKey ∧ r.dhsSecret = j.ratchet.dhsSecret) ∨
    j.Renewed lead r.rootKey ∧ ∀ chain, r.sendChain = some chain → j.Renewed lead chain
  held : ∀ slot key, slot ≠ Slot.root → r.stock spent slot = some key → j.Kept lead key ∨
    j.Renewed lead key

namespace Since

variable {r r' : Ratchet} {spent spent' : List Key}

theorem root_forebear (h : Since lead j r spent) : Forebear lead j.ratchet.rootKey r.rootKey := by
  obtain ⟨hroot, -⟩ | ⟨hroot, -⟩ := h.turned
  · rw [hroot]
    exact Relation.ReflTransGen.refl
  · exact hroot.forebear

/-- **A step that leaves the root alone** goes on with what was held, and nothing new is from the
root. -/
theorem still (h : Since lead j r spent)
    (hapart : Apart (Parent (Derivation.carried lead)) (r.stock spent))
    (hroot : r'.rootKey = r.rootKey) (hsecret : r'.dhsSecret = r.dhsSecret)
    (hsending : ∀ chain', r'.sendChain = some chain' →
      ∃ chain, r.sendChain = some chain ∧ Forebear lead chain chain')
    (hpasses : Passing lead (r.stock spent) (r'.stock spent')) : Since lead j r' spent' where
  turned := by
    obtain ⟨hold, hpair⟩ | ⟨hnew, hchain⟩ := h.turned
    · exact Or.inl ⟨hroot.trans hold, hsecret.trans hpair⟩
    · refine Or.inr ⟨hroot ▸ hnew, ?_⟩
      intro chain' hchain'
      obtain ⟨chain, hold, hline⟩ := hsending chain' hchain'
      exact (hchain chain hold).of_forebear hline
  held := by
    intro slot key hslot hkey
    obtain ⟨i, a, ha, hline⟩ := hpasses.from_held slot key hkey
    by_cases hi : i = Slot.root
    · subst hi
      obtain rfl : r.rootKey = a := Option.some.inj ha
      have hsame : r'.stock spent' Slot.root = some r.rootKey := congrArg some hroot
      exact absurd hline (hpasses.apart hapart _ _ _ _ (Ne.symm hslot) hsame hkey)
    · exact (h.held i a hi ha).imp (fun hkept => hkept.of_forebear hline)
        (fun hrenewed => hrenewed.of_forebear hline)

/-- **Adopting a key**: the root and the sending chain are behind an agreement of the pair just
drawn; the receiving chain is behind one of the pair before it. -/
theorem turns (h : Since lead j r spent) {newDhr : Key} {rng rng' : RandomSource}
    (hbytes : rng.bytes = j.rng.bytes) (hcalls : j.rng.calls ≤ rng.calls)
    (hadopt : r.dhRatchetReceive newDhr rng = (.ok r', rng')) : Since lead j r' spent := by
  obtain ⟨shared, rootAfterRecv, recvChain, shared2, rootAfterSend, sendChain, hshared, hroot,
    hshared2, hroot2, -, rfl⟩ := Ratchet.dhRatchetReceive_cases hadopt
  rw [hbytes] at hshared2
  have hmiddle : Forebear lead j.ratchet.rootKey rootAfterRecv :=
    h.root_forebear.tail (parent_root lead hroot)
  have hsent : ∀ first, first = rootAfterSend ∨ first = sendChain → j.Renewed lead first := by
    intro first hfirst
    exact ⟨shared2, first, rng.calls, newDhr, rootAfterRecv, rootAfterSend, sendChain, hcalls,
      hshared2, hmiddle, hroot2, hfirst, Relation.ReflTransGen.refl⟩
  refine ⟨Or.inr ⟨hsent _ (Or.inl rfl), ?_⟩, ?_⟩
  · intro chain hchain
    obtain rfl := Option.some.inj hchain
    exact hsent _ (Or.inr rfl)
  · intro slot key hslot hkey
    cases slot with
    | root => exact absurd rfl hslot
    | sending =>
      obtain rfl := Option.some.inj hkey
      exact Or.inr (hsent _ (Or.inr rfl))
    | receiving =>
      obtain rfl : recvChain = key := Option.some.inj hkey
      obtain ⟨hold, hpair⟩ | ⟨hnew, -⟩ := h.turned
      · refine Or.inl (Or.inr ⟨newDhr, shared, rootAfterRecv, recvChain, ?_, ?_,
          Relation.ReflTransGen.refl⟩)
        · rw [← hpair]
          exact hshared
        · rw [← hold]
          exact hroot
      · exact Or.inr (hnew.of_forebear (Relation.ReflTransGen.single (parent_chain lead hroot)))
    | skipped id => exact h.held (.skipped id) key nofun hkey
    | spent i => exact h.held (.spent i) key nofun hkey

variable (ideal : Ideal) (grounded : Grounded)

include ideal grounded

theorem takeNext (h : Since lead j r spent)
    (hapart : Apart (Parent (Derivation.carried lead)) (r.stock spent)) {msg : RatchetMessage}
    {key : Key}
    (hnext : r.takeNext msg = .ok (key, r')) : Since lead j r' (spent ++ [key]) := by
  obtain ⟨hroot, hpasses⟩ := Ratchet.takeNext_passes lead spent ideal grounded hnext
  obtain ⟨-, hchain, -⟩ := Ratchet.takeNext_sending hnext
  have hsecret : r'.dhsSecret = r.dhsSecret := by
    obtain ⟨head, chain, n, hskip, -, -, rfl⟩ := Ratchet.takeNext_cases ideal hnext
    exact (Ratchet.skip_spec ideal hskip).2.1
  refine h.still hapart hroot hsecret ?_ hpasses
  intro chain hsome
  exact ⟨chain, hchain ▸ hsome, Relation.ReflTransGen.refl⟩

theorem attempt (h : Since lead j r spent)
    (hapart : Apart (Parent (Derivation.carried lead)) (r.stock spent)) {msg : RatchetMessage}
    {rng rng' : RandomSource} (hbytes : rng.bytes = j.rng.bytes) (hcalls : j.rng.calls ≤ rng.calls)
    {key : Key} (hattempt : r.attempt msg rng = (.ok (key, r'), rng')) :
    Since lead j r' (spent ++ [key]) := by
  have hpasses := (Ratchet.attempt_passes lead spent ideal grounded hattempt).2
  unfold Ratchet.attempt at hattempt
  split at hattempt
  · obtain ⟨-, rfl⟩ := Prod.mk.inj (Except.ok.inj (Prod.mk.inj hattempt).1)
    exact h.still hapart rfl rfl (fun chain hchain => ⟨chain, hchain, Relation.ReflTransGen.refl⟩)
      hpasses
  · split at hattempt
    · cases (Prod.mk.inj hattempt).1
    · rename_i head rng'' hfollow
      have hnext := (Prod.mk.inj hattempt).1
      obtain ⟨-, rfl⟩ | ⟨left, hskip, hadopt⟩ := Ratchet.follow_spec hfollow
      · exact h.takeNext ideal grounded hapart hnext
      · obtain ⟨hroot, hskipped⟩ := Ratchet.skip_passes lead spent ideal grounded hskip
        have hleft : Since lead j left spent := by
          refine h.still hapart hroot (Ratchet.skip_spec ideal hskip).2.1 ?_ hskipped
          intro chain hchain
          exact ⟨chain, (Ratchet.skip_sending hskip).2.1 ▸ hchain, Relation.ReflTransGen.refl⟩
        have hturned := (Ratchet.dhRatchetReceive_passes lead spent ideal grounded hadopt).2
        exact (hleft.turns hbytes hcalls hadopt).takeNext ideal grounded
          (hturned.apart (hskipped.apart hapart)) hnext

theorem encrypt (h : Since lead j r spent)
    (hapart : Apart (Parent (Derivation.carried lead)) (r.stock spent)) (plaintext : Bytes) :
    Since lead j (r.encrypt plaintext).2 (spent ++ (r.spends.map fun use => use.2.2).toList) := by
  obtain ⟨hroot, hpasses⟩ := Ratchet.encrypt_passes (r := r) lead spent ideal grounded plaintext
  refine h.still hapart hroot ?_ ?_ hpasses
  · obtain ⟨-, heq⟩ | ⟨chain, -, ⟨-, e, heq⟩ | ⟨n, -, ⟨e, heq⟩ | ⟨msg, heq, -⟩⟩⟩ :=
      r.encrypt_cases ideal plaintext <;> rw [heq]
  · intro chain' hchain'
    obtain ⟨hnone, heq⟩ | ⟨chain, hchain, ⟨-, e, heq⟩ | ⟨n, -, ⟨e, heq⟩ | ⟨msg, heq, -⟩⟩⟩ :=
      r.encrypt_cases ideal plaintext
    · rw [heq] at hchain'
      exact ⟨chain', hchain', Relation.ReflTransGen.refl⟩
    all_goals
      rw [heq] at hchain'
      obtain rfl := Option.some.inj hchain'
      exact ⟨chain, hchain, Relation.ReflTransGen.single (parent_next ideal lead chain)⟩

end Since

/-- **Nothing that was taken leads past an agreement drawn since.** -/
theorem RenewedBy.out_of_reach (ideal : Ideal) (grounded : Grounded)
    (hapart : Apart (Parent (Derivation.carried lead)) j.stock) {shared first : Key}
    (h : j.RenewedBy lead shared first key) : j.Guarded lead shared first key := by
  intro known hderivable
  obtain ⟨i, peer, rootKey, newRoot, newChain, -, -, hold, hroot, hfirst, hline⟩ := h
  have hparent : Parent (Derivation.carried lead) rootKey first := parent_first hroot hfirst
  have hfrom : ∃ d : Derivation, d.key = .ok first ∧ d.parts = [rootKey, shared] := by
    obtain rfl | rfl := hfirst
    · exact ⟨_, key_root hroot, rfl⟩
    · exact ⟨_, key_chain hroot, rfl⟩
  have hpart : ∀ p a, Parent (Derivation.carried lead) p a → ∀ parts, Derives parts a →
      p ∈ parts := by
    rintro _ _ ⟨d, hd, rfl⟩ parts hderives
    rw [hderives.parts_eq ideal hd]
    exact d.carried_mem lead
  obtain ⟨found, hfound, hbehind, hbefore⟩ | ⟨parts, hderives, hall⟩ :=
    Made.through hpart hline hderivable
  · right
    have hpast : Forebear lead j.ratchet.rootKey found := (hold.tail hparent).trans hbehind
    obtain hheld | hknown := hfound
    · have hclear : ∀ slot, slot ≠ Slot.root → j.stock slot ≠ some found := fun slot hslot hsome =>
        hapart .root slot _ _ (Ne.symm hslot) rfl hsome hpast
      obtain rfl | rfl | hsending | hreceiving | ⟨id, hskipped⟩ := hheld
      · -- the root that was held would be its own forebear
        have hcycle : Relation.TransGen (Parent (Derivation.carried lead)) j.ratchet.rootKey
          j.ratchet.rootKey :=
          (Relation.TransGen.tail' hold hparent).trans_left hbehind
        have hlineage := lineage ideal grounded (Derivation.carried_mem lead)
        exact absurd hcycle (hlineage.grounded.transGen.irrefl.irrefl _)
      · exact ⟨_, Or.inl rfl, hbehind, hbefore⟩
      · exact absurd hsending (hclear .sending nofun)
      · exact absurd hreceiving (hclear .receiving nofun)
      · exact absurd hskipped (hclear (.skipped id) nofun)
    · exact ⟨found, Or.inr hknown, hbehind, hbefore⟩
  · obtain ⟨d, hd, hparts⟩ := hfrom
    rw [hderives.parts_eq ideal hd, hparts] at hall
    exact Or.inl (hall shared (List.mem_cons_of_mem _ List.mem_cons_self))

/-- An initiator's half, before it hears anything. -/
def waiting : @Journal Crypto.symbols :=
  letI := Crypto.symbols
  opening (Ratchet.initAsInitiator ([5] : Bytes) ([2] : Bytes) ([7, 2] : Bytes))
    ⟨fun i => (3 :: List.replicate i 0 : Bytes), 0⟩

end Journal

end ObbyClient.E2ee

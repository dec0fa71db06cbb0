import ObbyClient.E2ee.Handshake
import ObbyClient.E2ee.Secrecy
import ObbyClient.E2ee.Symbols

/-!
# Who stands between two sides

An intruder carries every frame, puts in others, and computes with whatever keys it has.  A side
that finished its handshake with a frame its peer signed has a session that the intruder does not
get into, unless one of both secrets behind each of the four agreements is lost.

* `Attainable` — what an intruder comes to know: derivations, and agreements of the secrets it has;
* `Signed` — what a side puts its name to;
* `Halves`, `Halves.Broken` — the secrets behind the four agreements, and when all four are lost;
* `Halves.out_of_reach` — what lies behind the first secret is out of reach until then;
* `initiator_secrecy`, `responder_secrecy` — so is every key that either side spends, in any run.
-/

namespace ObbyClient.E2ee

section Intruder

variable [Crypto]

/-! ### What an intruder computes -/

/-- A key is derived, or is the agreement of a secret with any public key at all. -/
def Works (parts : List Key) (key : Key) : Prop :=
  Derives parts key ∨ ∃ secret peer, parts = [secret] ∧ diffieHellmanRaw secret peer = .ok key

/-- What an intruder that knows some keys comes to know. -/
def Attainable (known : Set Key) (key : Key) : Prop := Made Works known key

/-- What X25519 is taken for: an agreement comes of one of its two secrets only, and is not what
some derivation gives. -/
structure Exchange : Prop where
  halves {a b secret peer shared : Key} : diffieHellmanRaw a (publicKey b) = .ok shared →
    diffieHellmanRaw secret peer = .ok shared → secret = a ∨ secret = b
  notDerived {secret peer shared : Key} (d : Derivation) :
    diffieHellmanRaw secret peer = .ok shared →
    d.key ≠ .ok shared

/-- One can tell where a key ends. -/
structure Delimited : Prop where
  cut {a b : Key} {x y : Bytes} : toBytes a ++ x = toBytes b ++ y → a = b ∧ x = y
  nonempty (a : Key) : toBytes a ≠ []

/-- What a side signs that drew these secrets: its offers and its answers. -/
inductive Signed (identity : Identity) (drawn : Set Key) : Bytes → Prop
  | offer {spk opk : Key} : spk ∈ drawn → opk ∈ drawn → Signed identity drawn
      (toBytes identity.public.agreement ++ toBytes (publicKey spk) ++ toBytes (publicKey opk))
  | answer {ek : Key} : ek ∈ drawn → Signed identity drawn
      (toBytes identity.public.agreement ++ toBytes (publicKey ek))

variable {identity : Identity} {drawn : Set Key}

/-- An answer is not an offer cut short: who signed it gave the key in it. -/
theorem Signed.answered (delimited : Delimited) {ik ek : Key}
    (h : Signed identity drawn (toBytes ik ++ toBytes ek)) :
    ik = identity.public.agreement ∧ ∃ secret ∈ drawn, ek = publicKey secret := by
  generalize hmessage : toBytes ik ++ toBytes ek = message at h
  cases h with
  | offer hspk hopk =>
    rw [List.append_assoc] at hmessage
    obtain ⟨-, hrest⟩ := delimited.cut hmessage
    rw [← List.append_nil (toBytes ek)] at hrest
    obtain ⟨-, hnil⟩ := delimited.cut hrest
    exact absurd hnil.symm (delimited.nonempty _)
  | answer hek =>
    obtain ⟨hik, hrest⟩ := delimited.cut hmessage
    exact ⟨hik, _, hek, Crypto.toBytes_injective hrest⟩

/-- Nor is an offer an answer. -/
theorem Signed.offered (delimited : Delimited) {ik spk opk : Key}
    (h : Signed identity drawn (toBytes ik ++ toBytes spk ++ toBytes opk)) :
    ik = identity.public.agreement ∧
      ∃ secret ∈ drawn, ∃ secret' ∈ drawn, spk = publicKey secret ∧ opk = publicKey secret' := by
  generalize hmessage : toBytes ik ++ toBytes spk ++ toBytes opk = message at h
  rw [List.append_assoc] at hmessage
  cases h with
  | offer hspk hopk =>
    rw [List.append_assoc] at hmessage
    obtain ⟨hik, hrest⟩ := delimited.cut hmessage
    obtain ⟨hspk', hrest'⟩ := delimited.cut hrest
    exact ⟨hik, _, hspk, _, hopk, hspk', Crypto.toBytes_injective hrest'⟩
  | answer hek =>
    obtain ⟨-, hrest⟩ := delimited.cut hmessage
    rw [← List.append_nil (toBytes (publicKey _))] at hrest
    obtain ⟨-, hnil⟩ := delimited.cut hrest
    exact absurd hnil (delimited.nonempty _)

/-! ### The secrets of a handshake -/

/-- The secrets behind a handshake: the offering side's, and the answering side's. -/
structure Halves where
  idI : Key
  spk : Key
  opk : Key
  idR : Key
  ek : Key

namespace Halves

/-- Whose agreement each of the four is. -/
def pair (h : Halves) : Fin 4 → Key × Key :=
    ![(h.spk, h.idR), (h.idI, h.ek), (h.spk, h.ek), (h.opk, h.ek)]

/-- What both sides come to. -/
def agreed (h : Halves) : Except Error Key :=
  x3dhSecretInitiator h.spk h.idI h.opk (publicKey h.idR) (publicKey h.ek)

/-- Each of the four agreements is lost, or one of the secrets that it comes of. -/
def Broken (h : Halves) (known : Set Key) : Prop :=
  ∀ i, (∃ shared ∈ known, diffieHellmanRaw (h.pair i).1 (publicKey (h.pair i).2) = .ok shared) ∨
    Attainable known (h.pair i).1 ∨ Attainable known (h.pair i).2

variable {h : Halves} {sk : Key}

theorem agreed_spec (hsk : h.agreed = .ok sk) :
    ∃ dh : Fin 4 → Key, (∀ i, diffieHellmanRaw (h.pair i).1 (publicKey (h.pair i).2) = .ok (dh i)) ∧
      (Derivation.x3dh (dh 0) (dh 1) (dh 2) (dh 3)).key = .ok sk := by
  obtain ⟨dh1, h1, hsk1⟩ := bind_eq_ok.mp hsk
  obtain ⟨dh2, h2, hsk2⟩ := bind_eq_ok.mp hsk1
  obtain ⟨dh3, h3, hsk3⟩ := bind_eq_ok.mp hsk2
  obtain ⟨dh4, h4, hkdf⟩ := bind_eq_ok.mp hsk3
  refine ⟨![dh1, dh2, dh3, dh4], ?_, hkdf⟩
  intro i
  fin_cases i
  · exact h1
  · exact h2
  · exact h3
  · exact h4

/-- **What lies behind the first secret of a session** is attained with something else that does, or
once all four agreements are lost. -/
theorem out_of_reach (ideal : Ideal) (exchange : Exchange) (hsk : h.agreed = .ok sk) {lead : Fin 4}
    {key : Key}
    (hline : Forebear lead sk key) {known : Set Key} (hattain : Attainable known key) :
    (∃ found ∈ known, Forebear lead sk found ∧ Forebear lead found key) ∨ h.Broken known := by
  obtain ⟨dh, hdh, hkey⟩ := agreed_spec hsk
  have honly : ∀ {d : Derivation} {key : Key} {parts : List Key}, d.key = .ok key →
    Works parts key →
      parts = d.parts := by
    rintro d key parts hd (hderives | ⟨secret, peer, -, hagreement⟩)
    · exact hderives.parts_eq ideal hd
    · exact absurd hd (exchange.notDerived d hagreement)
  have hpart : ∀ p a, Parent (Derivation.carried lead) p a → ∀ parts, Works parts a →
      p ∈ parts := by
    rintro _ _ ⟨d, hd, rfl⟩ parts hworks
    rw [honly hd hworks]
    exact d.carried_mem lead
  obtain hfound | ⟨parts, hworks, hall⟩ := Made.through hpart hline hattain
  · exact Or.inl hfound
  · right
    intro i
    rw [honly hkey hworks] at hall
    have hmem : dh i ∈ (Derivation.x3dh (dh 0) (dh 1) (dh 2) (dh 3)).parts := by
      fin_cases i <;> simp [Derivation.parts]
    have hmade := hall _ hmem
    generalize hshared : dh i = shared at hmade
    have hagreement := hdh i
    rw [hshared] at hagreement
    cases hmade with
    | known hknown => exact Or.inl ⟨shared, hknown, hagreement⟩
    | rule hworks' hparts =>
      obtain ⟨d, hd, -⟩ | ⟨secret, peer, rfl, hagreement'⟩ := hworks'
      · exact absurd hd (exchange.notDerived d hagreement)
      · have hsecret := hparts secret List.mem_cons_self
        obtain rfl | rfl := exchange.halves hagreement hagreement'
        · exact Or.inr (Or.inl hsecret)
        · exact Or.inr (Or.inr hsecret)

end Halves

/-! ### What a session spends -/

/-- All that a side holds, and has spent, lies behind one key. -/
def Journal.Behind (lead : Fin 4) (sk : Key) (j : Journal) : Prop :=
  ∀ slot key, j.stock slot = some key → Forebear lead sk key

namespace Journal

variable {lead : Fin 4} {sk : Key}

theorem Behind.run (ideal : Ideal) (grounded : Grounded) {j : Journal} (h : j.Behind lead sk)
    (calls : List Ledger.Call) : (j.run calls).Behind lead sk := by
  intro slot key hkey
  obtain ⟨earlier, held, hheld, hline⟩ :=
    (run_passes lead ideal grounded j calls).2.from_held slot key hkey
  exact (h earlier held hheld).trans hline

/-- What was spent may be forgotten. -/
theorem Behind.reopen {j : Journal} (h : j.Behind lead sk) :
    (opening j.ratchet j.rng).Behind lead sk := by
  intro slot key hkey
  cases slot with
  | spent i => cases hkey
  | root => exact h .root key hkey
  | sending => exact h .sending key hkey
  | receiving => exact h .receiving key hkey
  | skipped id => exact h (.skipped id) key hkey

/-- The offering side starts with the secret itself. -/
theorem behind_initiator (secret publicHalf : Key) (rng : RandomSource) :
    (opening (Ratchet.initAsInitiator sk secret publicHalf) rng).Behind lead sk := by
  intro slot key hkey
  cases slot with
  | root =>
    obtain rfl : sk = key := Option.some.inj hkey
    exact Relation.ReflTransGen.refl
  | _ => cases hkey

/-- The answering side starts one step on. -/
theorem behind_responder {secret publicHalf peer : Key} {r : Ratchet}
    (hinit : Ratchet.initAsResponder sk secret publicHalf peer = .ok r) (rng : RandomSource) :
    (opening r rng).Behind lead sk := by
  obtain ⟨shared, -, hkdf⟩ := bind_eq_ok.mp hinit
  obtain ⟨p, hp, hr⟩ := bind_eq_ok.mp hkdf
  obtain rfl := Except.ok.inj hr
  intro slot key hkey
  cases slot with
  | root =>
    obtain rfl : p.1 = key := Option.some.inj hkey
    exact Relation.ReflTransGen.single (parent_root lead hp)
  | sending =>
    obtain rfl : p.2 = key := Option.some.inj hkey
    exact Relation.ReflTransGen.single (parent_chain lead hp)
  | _ => cases hkey

theorem Behind.spent {j : Journal} (h : j.Behind lead sk) {key : Key} (hkey : key ∈ j.spent) :
    Forebear lead sk key := by
  obtain ⟨i, hi⟩ := List.mem_iff_getElem?.mp hkey
  exact h (.spent i) key hi

end Journal

/-- A session that goes on from a ratchet is closed to an intruder, but for what it has of the
session's own keys, until each agreement of the handshake is lost. -/
def Halves.Closed (h : Halves) (sk : Key) (ratchet : Ratchet) (rng : RandomSource) : Prop :=
  ∀ calls, ∀ key ∈ ((Journal.opening ratchet rng).run calls).spent, ∀ known, Attainable known key →
    ∀ lead, (∃ found ∈ known, Forebear lead sk found ∧ Forebear lead found key) ∨ h.Broken known

theorem Halves.closed_of_behind (ideal : Ideal) (grounded : Grounded) (exchange : Exchange)
    {h : Halves}
    {sk : Key} (hsk : h.agreed = .ok sk) {ratchet : Ratchet} {rng : RandomSource}
    (hbehind : ∀ lead, (Journal.opening ratchet rng).Behind lead sk) : h.Closed sk ratchet rng :=
  fun calls _ hkey _ hattain lead =>
    h.out_of_reach ideal exchange hsk (((hbehind lead).run ideal grounded calls).spent hkey) hattain

/-- **The offering side**, once its handshake is done with an answer that the peer signed. -/
theorem initiator_secrecy (ideal : Ideal) (grounded : Grounded) (exchange : Exchange)
    (delimited : Delimited)
    {identity peer : Identity} {drawn : Set Key} {rng rng' : RandomSource} {pending : PendingOffer}
    {response : HandshakeResponse} {ratchet : Ratchet}
    (hcomplete : completeHandshake identity pending response rng = (.ok ratchet, rng'))
    (hgenuine : verifySignature response.sik (toBytes response.ik ++ toBytes response.ek)
      response.sig = .ok () →
      Signed peer drawn (toBytes response.ik ++ toBytes response.ek)) :
    ∃ ek ∈ drawn, ∃ sk, response.ek = publicKey ek ∧
      let h : Halves := ⟨identity.secret.agreement, pending.spkSecret, pending.opkSecret,
        peer.secret.agreement, ek⟩
      h.agreed = .ok sk ∧ h.Closed sk ratchet rng' := by
  obtain ⟨hik, ek, hdrawn, hek⟩ :=
    (hgenuine (verified_of_completeHandshake hcomplete)).answered delimited
  obtain ⟨sk, plaintext, hsk, hdecrypt⟩ := completeHandshake_spec hcomplete
  rw [hik, peer.agreement_eq, hek] at hsk
  refine ⟨ek, hdrawn, sk, hek, ?_⟩
  intro h
  refine ⟨hsk, h.closed_of_behind ideal grounded exchange hsk ?_⟩
  intro lead
  have hbegun : (Journal.opening (Ratchet.initAsInitiator sk pending.spkSecret pending.bundle.spk)
    rng).Behind
      lead sk := Journal.behind_initiator _ _ rng
  have hread := (hbegun.run ideal grounded [.decrypt response.boot]).reopen
  have hratchet : ((Journal.opening
    (Ratchet.initAsInitiator sk pending.spkSecret pending.bundle.spk) rng).run
      [.decrypt response.boot]).ratchet = ratchet := by
    show ((Ratchet.initAsInitiator sk pending.spkSecret pending.bundle.spk).decrypt response.boot
      rng).2.1 = _
    rw [hdecrypt]
  have hrng : ((Journal.opening (Ratchet.initAsInitiator sk pending.spkSecret pending.bundle.spk)
    rng).run
      [.decrypt response.boot]).rng = rng' := by
    show ((Ratchet.initAsInitiator sk pending.spkSecret pending.bundle.spk).decrypt response.boot
      rng).2.2 = _
    rw [hdecrypt]
  rwa [hratchet, hrng] at hread

/-- **The answering side**, once it has answered an offer that the peer signed. -/
theorem responder_secrecy (ideal : Ideal) (grounded : Grounded) (exchange : Exchange)
    (delimited : Delimited)
    {identity peer : Identity} {drawn : Set Key} {rng rng' : RandomSource} {bundle : PreKeyBundle}
    {response : HandshakeResponse} {ratchet : Ratchet}
    (haccept : acceptOffer identity bundle rng = (.ok (response, ratchet), rng'))
    (hgenuine : verifyBundleSignature bundle = .ok () →
      Signed peer drawn (toBytes bundle.ik ++ toBytes bundle.spk ++ toBytes bundle.opk)) :
    ∃ spk ∈ drawn, ∃ opk ∈ drawn, ∃ sk, bundle.spk = publicKey spk ∧ bundle.opk = publicKey opk ∧
      let h : Halves := ⟨peer.secret.agreement, spk, opk, identity.secret.agreement,
        rng.bytes rng.calls⟩
      h.agreed = .ok sk ∧ h.Closed sk ratchet rng' := by
  obtain ⟨hik, spk, hspk, opk, hopk, hspkPublic, hopkPublic⟩ :=
    (hgenuine (verified_of_acceptOffer haccept)).offered delimited
  obtain ⟨-, -, -, before, hbefore, hboot⟩ := acceptOffer_spec haccept
  obtain ⟨sk, hsk, hinit⟩ := bind_eq_ok.mp hbefore
  rw [hik, peer.agreement_eq, hspkPublic, hopkPublic, ← x3dhSecretInitiator_eq ideal] at hsk
  refine ⟨spk, hspk, opk, hopk, sk, hspkPublic, hopkPublic, ?_⟩
  intro h
  refine ⟨hsk, h.closed_of_behind ideal grounded exchange hsk ?_⟩
  intro lead
  have hbegun : (Journal.opening before rng').Behind lead sk := Journal.behind_responder hinit rng'
  have hsealed := (hbegun.run ideal grounded [.encrypt []]).reopen
  have hratchet : ((Journal.opening before rng').run [.encrypt []]).ratchet = ratchet := by
    show (before.encrypt []).2 = ratchet
    rw [hboot]
  rwa [hratchet] at hsealed

end Intruder

/-! ### A handshake in terms -/

/-- Two byte strings, in either order. -/
def unordered (a b : Bytes) : Bytes := if a < b then framed a ++ framed b else framed b ++ framed a

theorem unordered_comm (a b : Bytes) : unordered a b = unordered b a := by
  have hasymm : Std.Asymm (· < · : UInt8 → UInt8 → Prop) := ⟨fun _ _ => UInt8.lt_asymm⟩
  have htrichotomous : Std.Trichotomous (· < · : UInt8 → UInt8 → Prop) :=
    ⟨fun a b hab hba => by_contra fun hne => (UInt8.lt_or_lt_of_ne hne).elim hab hba⟩
  unfold unordered
  by_cases hab : a < b
  · rw [if_pos hab, if_neg (List.lt_asymm hab)]
  · by_cases hba : b < a
    · rw [if_neg hab, if_pos hba]
    · obtain rfl := List.le_antisymm hba hab
      rfl

theorem unordered_eq {a b c d : Bytes} (h : unordered a b = unordered c d) : c = a ∨ c = b := by
  have hframed : ∀ {a b c d : Bytes}, framed a ++ framed b = framed c ++ framed d → c = a ∧
      d = b := by
    intro a b c d h
    obtain ⟨hac, hbd⟩ := framed_append_inj h
    exact ⟨hac.symm, (framed_injective hbd).symm⟩
  unfold unordered at h
  split at h <;> split at h
  · exact Or.inl (hframed h).1
  · exact Or.inr (hframed h).2
  · exact Or.inr (hframed h).1
  · exact Or.inl (hframed h).2

/-- The agreement of a secret and a key, spelt out. -/
def agreement (secret : Bytes) : Bytes → Bytes
  | 7 :: half => 8 :: unordered secret half
  | peer => 9 :: (framed secret ++ framed peer)

/-- Keys that spell out their derivation, and agreements that spell out their secrets. -/
@[reducible] def Crypto.terms : Crypto := { Crypto.symbols with diffieHellman := agreement }

/-- A derivation in terms is one in symbols. -/
def asSymbols (d : @Derivation Crypto.terms) : @Derivation Crypto.symbols :=
  letI := Crypto.terms
  match d with
  | .x3dh dh1 dh2 dh3 dh4 => @Derivation.x3dh Crypto.symbols dh1 dh2 dh3 dh4
  | .root rootKey dhOut => @Derivation.root Crypto.symbols rootKey dhOut
  | .chain rootKey dhOut => @Derivation.chain Crypto.symbols rootKey dhOut
  | .message chainKey => @Derivation.message Crypto.symbols chainKey
  | .next chainKey => @Derivation.next Crypto.symbols chainKey

theorem asSymbols_injective : Function.Injective asSymbols := by
  intro d d' h
  cases d <;> cases d' <;> cases h <;> rfl

theorem key_eq_asSymbols (d : @Derivation Crypto.terms) :
    @Derivation.key Crypto.terms d = .ok (spelling (asSymbols d)) := by
  cases d <;> rfl

theorem parts_eq_asSymbols (d : @Derivation Crypto.terms) :
    @Derivation.parts Crypto.terms d = @Derivation.parts Crypto.symbols (asSymbols d) := by
  cases d <;> rfl

theorem terms_ideal : @Ideal Crypto.terms := by
  let _ := Crypto.terms
  refine ⟨?_, fun _ _ => rfl, fun d => ⟨_, key_eq_asSymbols d⟩, ?_,
    @Ideal.opens Crypto.symbols symbols_ideal⟩
  · intro a b
    exact congrArg (8 :: ·) (unordered_comm a b)
  · intro d d' key h h'
    rw [key_eq_asSymbols] at h h'
    exact asSymbols_injective (spelling_injective (Except.ok.inj (h.trans h'.symm)))

theorem terms_grounded : @Grounded Crypto.terms := by
  let _ := Crypto.terms
  apply Subrelation.wf _ Journal.symbols_grounded
  rintro part key ⟨d, hkey, hpart⟩
  rw [key_eq_asSymbols] at hkey
  rw [parts_eq_asSymbols] at hpart
  refine ⟨asSymbols d, ?_, hpart⟩
  rw [key_eq_spelling]
  exact hkey

/-- No derivation is spelt as an agreement is. -/
theorem head_spelling (d : @Derivation Crypto.symbols) :
    ∃ tag rest, spelling d = tag :: rest ∧ tag < 5 := by
  cases d with
  | x3dh dh1 dh2 dh3 dh4 => exact ⟨1, _, rfl, by decide⟩
  | root rootKey dhOut => exact ⟨3, _, rfl, by decide⟩
  | chain rootKey dhOut => exact ⟨4, _, rfl, by decide⟩
  | message chainKey => exact ⟨2, _, rfl, by decide⟩
  | next chainKey => exact ⟨2, _, rfl, by decide⟩

theorem head_agreement (secret peer : Bytes) :
    ∃ tag rest, agreement secret peer = tag :: rest ∧ (tag = 8 ∨ tag = 9) := by
  unfold agreement
  split
  · exact ⟨8, _, rfl, Or.inl rfl⟩
  · exact ⟨9, _, rfl, Or.inr rfl⟩

theorem terms_exchange : @Exchange Crypto.terms := by
  let _ := Crypto.terms
  refine ⟨?_, ?_⟩
  · intro a b secret peer shared hshared hagreement
    have hspelt : agreement a (7 :: b) = shared := Except.ok.inj hshared
    have hspelt' : agreement secret peer = shared := Except.ok.inj hagreement
    rw [← hspelt] at hspelt'
    unfold agreement at hspelt'
    split at hspelt'
    · exact unordered_eq (List.cons.inj hspelt').2.symm
    · exact absurd (List.cons.inj hspelt').1 (by decide)
  · intro secret peer shared d hagreement hkey
    rw [key_eq_asSymbols] at hkey
    have hspelt : agreement secret peer = shared := Except.ok.inj hagreement
    obtain ⟨tag, rest, hderived, hlow⟩ := head_spelling (asSymbols d)
    obtain ⟨tag', rest', hagreed, hhigh⟩ := head_agreement secret peer
    rw [hagreed, ← Except.ok.inj hkey, hderived] at hspelt
    obtain rfl := (List.cons.inj hspelt).1
    obtain rfl | rfl := hhigh <;> exact absurd hlow (by decide)

theorem terms_delimited : @Delimited Crypto.terms := by
  let _ := Crypto.terms
  refine ⟨fun h => framed_append_inj h, ?_⟩
  intro a hnil
  cases a <;> cases hnil

/-- What spells neither a derivation nor an agreement is had from the start or not at all. -/
theorem known_of_attainable {tag : UInt8} {rest : Bytes} (htag : ¬ tag < 5 ∧ tag ≠ 8 ∧ tag ≠ 9)
    {known : Set Bytes}
    (h : @Attainable Crypto.terms known (tag :: rest)) : tag :: rest ∈ known := by
  let _ := Crypto.terms
  obtain ⟨hlow, h8, h9⟩ := htag
  generalize hkey : tag :: rest = key at h ⊢
  cases h with
  | known hknown => exact hknown
  | rule hworks _ =>
    obtain ⟨d, hd, -⟩ | ⟨secret, peer, -, hagreement⟩ := hworks
    · rw [key_eq_asSymbols, ← hkey] at hd
      obtain ⟨tag', rest', hspelt, hlow'⟩ := head_spelling (asSymbols d)
      rw [hspelt] at hd
      obtain rfl := (List.cons.inj (Except.ok.inj hd)).1
      exact absurd hlow' hlow
    · obtain ⟨tag', rest', hspelt, hhigh⟩ := head_agreement secret peer
      have htag : agreement secret peer = tag :: rest := (Except.ok.inj hagreement).trans hkey.symm
      rw [hspelt] at htag
      obtain rfl := (List.cons.inj htag).1
      obtain rfl | rfl := hhigh
      · exact absurd rfl h8
      · exact absurd rfl h9

def offeringSide : @Identity Crypto.terms :=
  letI := Crypto.terms
  ⟨⟨([20] : Bytes), ([21] : Bytes)⟩, ⟨([7, 20] : Bytes), ([21] : Bytes)⟩, rfl, rfl⟩

def answeringSide : @Identity Crypto.terms :=
  letI := Crypto.terms
  ⟨⟨([22] : Bytes), ([23] : Bytes)⟩, ⟨([7, 22] : Bytes), ([23] : Bytes)⟩, rfl, rfl⟩

/-- What each side draws. -/
def drawing (tag : UInt8) : @RandomSource Crypto.terms :=
  letI := Crypto.terms
  ⟨fun i => (tag :: List.replicate i 0 : Bytes), 0⟩

/-- What both sides lose of their long-term secrets. -/
def leaked : Set Bytes := {[20], [22]}

theorem not_leaked {tag : UInt8} (htag : ¬ tag < 5 ∧ tag ≠ 8 ∧ tag ≠ 9) (h20 : tag ≠ 20)
    (h22 : tag ≠ 22) :
    ¬ @Attainable Crypto.terms leaked ([tag] : Bytes) := by
  intro h
  obtain heq | heq := known_of_attainable htag h
  · exact h20 (List.cons.inj heq).1
  · exact h22 (List.cons.inj heq).1

/-- Nothing that was lost lies behind a key that was derived. -/
theorem not_behind_derived {first found : Bytes}
    (hderived : ∃ d, @Derivation.key Crypto.terms d = .ok first)
    (hfound : found ∈ leaked) : ¬ @Forebear Crypto.terms 0 first found := by
  let _ := Crypto.terms
  intro hline
  have hfrom : ∃ d : Derivation, d.key = .ok found := by
    obtain rfl | ⟨_, -, ⟨d, hd, -⟩⟩ := Relation.ReflTransGen.cases_tail hline
    · exact hderived
    · exact ⟨d, hd⟩
  obtain ⟨d, hd⟩ := hfrom
  rw [key_eq_asSymbols] at hd
  obtain ⟨tag, rest, hspelt, hlow⟩ := head_spelling (asSymbols d)
  rw [hspelt] at hd
  obtain rfl | rfl := hfound <;> obtain rfl := (List.cons.inj (Except.ok.inj hd)).1 <;>
    exact absurd hlow (by decide)

/-- With both long-term secrets lost, a session is closed as long as the drawn ones are not. -/
theorem closed_leaked : letI := Crypto.terms
    ∀ {h : Halves} {sk key : Bytes} {ratchet : Ratchet} {rng : RandomSource}
      {calls : List Ledger.Call},
      h.agreed = .ok sk → h.Closed sk ratchet rng → h.spk = ([30] : Bytes) → h.ek = ([40] : Bytes) →
      key ∈ ((Journal.opening ratchet rng).run calls).spent → ¬ Attainable leaked key := by
  let _ := Crypto.terms
  intro h sk key ratchet rng calls hagreed hclosed hspk hek hkey hattain
  obtain ⟨found, hfound, hbehind, -⟩ | hbroken := hclosed calls key hkey _ hattain 0
  · obtain ⟨dh, -, hderived⟩ := Halves.agreed_spec hagreed
    exact not_behind_derived ⟨_, hderived⟩ hfound hbehind
  · obtain ⟨shared, hshared, hagreement⟩ | hlost | hlost := hbroken 2
    · obtain ⟨tag, rest, hspelt, hhigh⟩ := head_agreement h.spk (7 :: h.ek)
      have htag : agreement h.spk (7 :: h.ek) = shared := Except.ok.inj hagreement
      rw [hspelt] at htag
      obtain rfl | rfl := hshared <;> obtain rfl := (List.cons.inj htag).1 <;>
        exact absurd hhigh (by decide)
    · have hlost' : Attainable leaked h.spk := hlost
      rw [hspk] at hlost'
      exact not_leaked (by decide) (by decide) (by decide) hlost'
    · have hlost' : Attainable leaked h.ek := hlost
      rw [hek] at hlost'
      exact not_leaked (by decide) (by decide) (by decide) hlost'

/-- **Both long-term secrets are lost**, and what the offering side says is closed still. -/
theorem initiator_secrecy_leaked : letI := Crypto.terms
    ∃ pending rng response answering rng' ratchet rng'',
      createOffer offeringSide (drawing 30) = (.ok pending, rng) ∧
      acceptOffer answeringSide pending.bundle (drawing 40) = (.ok (response, answering), rng') ∧
      completeHandshake offeringSide pending response rng = (.ok ratchet, rng'') ∧
      ((Journal.opening ratchet rng'').run [.encrypt [104]]).spent.length = 1 ∧
      ∀ key ∈ ((Journal.opening ratchet rng'').run [.encrypt [104]]).spent,
        ¬ Attainable leaked key := by
  let _ := Crypto.terms
  have hruns : ((createOffer offeringSide (drawing 30)).1.toOption.bind fun pending =>
      (acceptOffer answeringSide pending.bundle (drawing 40)).1.toOption.bind fun answer =>
        (completeHandshake offeringSide pending answer.1
          (createOffer offeringSide (drawing 30)).2).1.toOption.map
          fun ratchet => decide (pending.spkSecret = ([30] : Bytes) ∧
            answer.1.ek = ([7, 40] : Bytes) ∧
            ((Journal.opening ratchet (drawing 30)).run [.encrypt [104]]).spent.length = 1)) =
              some true := by
    decide +kernel
  obtain ⟨pending, hoffer, hruns⟩ := Option.bind_eq_some_iff.mp hruns
  obtain ⟨⟨response, answering⟩, haccept, hruns⟩ := Option.bind_eq_some_iff.mp hruns
  obtain ⟨ratchet, hcomplete, hruns⟩ := Option.map_eq_some_iff.mp hruns
  obtain ⟨hspk, hek, hlength⟩ := of_decide_eq_true hruns
  have hcomplete' : completeHandshake offeringSide pending response
    (createOffer offeringSide (drawing 30)).2 =
      (.ok ratchet, _) := Prod.ext (ok_of_toOption hcomplete) rfl
  refine ⟨pending, _, response, answering, _, ratchet, _, Prod.ext (ok_of_toOption hoffer) rfl,
    Prod.ext (ok_of_toOption haccept) rfl, hcomplete', hlength, ?_⟩
  intro key hkey
  obtain ⟨-, hik, -, -⟩ := acceptOffer_spec (Prod.ext (ok_of_toOption haccept) rfl)
  have hsigned : Signed answeringSide {([40] : Bytes)}
      (toBytes response.ik ++ toBytes response.ek) := by
    rw [hik, hek]
    exact Signed.answer (Set.mem_singleton _)
  obtain ⟨ek, rfl, sk, -, hagreed, hclosed⟩ :=
    initiator_secrecy terms_ideal terms_grounded terms_exchange
    terms_delimited hcomplete' fun _ => hsigned
  exact closed_leaked hagreed hclosed hspk rfl hkey

/-- So is what the answering side says. -/
theorem responder_secrecy_leaked : letI := Crypto.terms
    ∃ pending rng response ratchet rng',
      createOffer offeringSide (drawing 30) = (.ok pending, rng) ∧
      acceptOffer answeringSide pending.bundle (drawing 40) = (.ok (response, ratchet), rng') ∧
      ((Journal.opening ratchet rng').run [.encrypt [104]]).spent.length = 1 ∧
      ∀ key ∈ ((Journal.opening ratchet rng').run [.encrypt [104]]).spent,
        ¬ Attainable leaked key := by
  let _ := Crypto.terms
  have hruns : ((createOffer offeringSide (drawing 30)).1.toOption.bind fun pending =>
      (acceptOffer answeringSide pending.bundle (drawing 40)).1.toOption.map fun answer =>
        decide (pending.bundle.spk = ([7, 30] : Bytes) ∧ pending.bundle.opk = ([7, 30, 0] : Bytes) ∧
          ((Journal.opening answer.2 (drawing 40)).run [.encrypt [104]]).spent.length = 1)) =
            some true := by
    decide +kernel
  obtain ⟨pending, hoffer, hruns⟩ := Option.bind_eq_some_iff.mp hruns
  obtain ⟨⟨response, ratchet⟩, haccept, hruns⟩ := Option.map_eq_some_iff.mp hruns
  obtain ⟨hspk, hopk, hlength⟩ := of_decide_eq_true hruns
  have hoffer' : createOffer offeringSide (drawing 30) = (.ok pending, _) :=
    Prod.ext (ok_of_toOption hoffer) rfl
  have haccept' : acceptOffer answeringSide pending.bundle (drawing 40) =
    (.ok (response, ratchet), _) :=
    Prod.ext (ok_of_toOption haccept) rfl
  refine ⟨pending, _, response, ratchet, _, hoffer', haccept', hlength, ?_⟩
  intro key hkey
  obtain ⟨-, -, hik, -, -⟩ := createOffer_spec hoffer'
  have hsigned : Signed offeringSide {([30] : Bytes), ([30, 0] : Bytes)}
      (toBytes pending.bundle.ik ++ toBytes pending.bundle.spk ++ toBytes pending.bundle.opk) := by
    rw [hik, hspk, hopk]
    exact Signed.offer (Set.mem_insert _ _) (Set.mem_insert_of_mem _ (Set.mem_singleton _))
  obtain ⟨spk, -, opk, -, sk, hspk', -, hagreed, hclosed⟩ :=
    responder_secrecy terms_ideal terms_grounded
    terms_exchange terms_delimited haccept' fun _ => hsigned
  rw [hspk] at hspk'
  exact closed_leaked hagreed hclosed (List.cons.inj hspk').2.symm rfl hkey

end ObbyClient.E2ee

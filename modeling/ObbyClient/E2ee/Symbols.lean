import ObbyClient.E2ee.Crypto

/-!
# Keys as the text of their derivation

An instance of `Crypto` in which a key spells out where it is from.  It is as `Ideal` asks, so what
is assumed of the primitives is consistent, and runs can be computed in it.
-/

namespace ObbyClient.E2ee

/-- A byte string that shows where it ends. -/
def framed : Bytes → Bytes
  | [] => [0]
  | byte :: rest => 1 :: byte :: framed rest

theorem framed_append_inj : ∀ {a b x y : Bytes}, framed a ++ x = framed b ++ y → a = b ∧ x = y
  | [], [], x, y, h => ⟨rfl, (List.cons.inj h).2⟩
  | [], _ :: _, x, y, h => absurd (List.cons.inj h).1 (by decide)
  | _ :: _, [], x, y, h => absurd (List.cons.inj h).1 (by decide)
  | p :: a, q :: b, x, y, h => by
    obtain ⟨-, htail⟩ := List.cons.inj h
    obtain ⟨rfl, hrest⟩ := List.cons.inj htail
    obtain ⟨rfl, hxy⟩ := framed_append_inj hrest
    exact ⟨rfl, hxy⟩

theorem framed_injective : Function.Injective framed := by
  intro a b h
  refine (framed_append_inj (x := []) (y := []) ?_).1
  rw [h]

/-- What comes after a prefix. -/
def afterPrefix (start text : Bytes) : Option Bytes :=
  if start.isPrefixOf text = true then some (text.drop start.length) else none

theorem afterPrefix_append (start rest : Bytes) : afterPrefix start
    (start ++ rest) = some rest := by
  unfold afterPrefix
  rw [if_pos (List.isPrefixOf_iff_prefix.mpr (List.prefix_append start rest)), List.drop_left]

theorem afterPrefix_eq_some {start text rest : Bytes} (h : afterPrefix start text = some rest) :
    text = start ++ rest := by
  unfold afterPrefix at h
  split at h
  · rename_i hprefix
    rw [← Option.some.inj h]
    exact (List.prefix_iff_eq_append.mp (List.isPrefixOf_iff_prefix.mp hprefix)).symm
  · cases h

/-- Keys that spell out their derivation.  X25519 multiplies the bytes of the secrets. -/
@[reducible] def Crypto.symbols : Crypto where
  Arr _ := Bytes
  decidableEq := inferInstance
  toBytes := framed
  toBytes_injective h := framed_injective h
  splitAt32 okm := (3 :: okm, 4 :: okm)
  publicKey secret := 7 :: secret
  diffieHellman secret peer := List.zipWith (· * ·) secret peer.tail
  wasContributory _ := true
  hkdf salt ikm info _ := some (1 :: (salt ++ (ikm ++ info)))
  hmac key data := some (2 :: (key ++ data))
  sha256 := id
  encrypt key _ aad message := some (framed key ++ (framed aad ++ message))
  decrypt key _ aad ciphertext := afterPrefix (framed key ++ framed aad) ciphertext
  verifyingKey := id
  trySign signing message := some (framed signing ++ message)
  verifyStrict signing message signature := decide (signature = framed signing ++ message)

/-- The text of the key that a derivation gives. -/
def spelling (d : @Derivation Crypto.symbols) : Bytes :=
  letI := Crypto.symbols
  match d with
  | .x3dh dh1 dh2 dh3 dh4 =>
    1 :: (zeros ++ (framed dh1 ++ framed dh2 ++ framed dh3 ++ framed dh4 ++ x3dhInfo))
  | .root rootKey dhOut => 3 :: 1 :: (framed rootKey ++ (framed dhOut ++ rootInfo))
  | .chain rootKey dhOut => 4 :: 1 :: (framed rootKey ++ (framed dhOut ++ rootInfo))
  | .message chainKey => 2 :: (framed chainKey ++ [0x01])
  | .next chainKey => 2 :: (framed chainKey ++ [0x02])

theorem key_eq_spelling (d : @Derivation Crypto.symbols) :
    @Derivation.key Crypto.symbols d = .ok (spelling d) := by
  cases d <;> rfl

/-- No two derivations are spelled alike. -/
theorem spelling_injective : Function.Injective spelling := by
  intro d d' h
  cases d with
  | x3dh a1 a2 a3 a4 =>
    cases d' with
    | x3dh b1 b2 b3 b4 =>
      have hrest := List.append_cancel_left (List.cons.inj h).2
      simp only [List.append_assoc] at hrest
      obtain ⟨rfl, h2⟩ := framed_append_inj hrest
      obtain ⟨rfl, h3⟩ := framed_append_inj h2
      obtain ⟨rfl, h4⟩ := framed_append_inj h3
      obtain ⟨rfl, -⟩ := framed_append_inj h4
      rfl
    | _ => exact absurd (List.cons.inj h).1 (by decide)
  | root a1 a2 =>
    cases d' with
    | root b1 b2 =>
      obtain ⟨rfl, h2⟩ := framed_append_inj (List.cons.inj (List.cons.inj h).2).2
      obtain ⟨rfl, -⟩ := framed_append_inj h2
      rfl
    | _ => exact absurd (List.cons.inj h).1 (by decide)
  | chain a1 a2 =>
    cases d' with
    | chain b1 b2 =>
      obtain ⟨rfl, h2⟩ := framed_append_inj (List.cons.inj (List.cons.inj h).2).2
      obtain ⟨rfl, -⟩ := framed_append_inj h2
      rfl
    | _ => exact absurd (List.cons.inj h).1 (by decide)
  | message a =>
    cases d' with
    | message b =>
      obtain ⟨rfl, -⟩ := framed_append_inj (List.cons.inj h).2
      rfl
    | next b => exact absurd (framed_append_inj (List.cons.inj h).2).2 (by decide)
    | _ => exact absurd (List.cons.inj h).1 (by decide)
  | next a =>
    cases d' with
    | next b =>
      obtain ⟨rfl, -⟩ := framed_append_inj (List.cons.inj h).2
      rfl
    | message b => exact absurd (framed_append_inj (List.cons.inj h).2).2 (by decide)
    | _ => exact absurd (List.cons.inj h).1 (by decide)

/-- **The assumptions are consistent.** -/
theorem symbols_ideal : @Ideal Crypto.symbols := by
  let _ := Crypto.symbols
  refine ⟨?_, fun _ _ => rfl, fun d => ⟨_, key_eq_spelling d⟩, ?_, ?_⟩
  · intro a b
    exact List.zipWith_comm_of_comm (fun x y => UInt8.mul_comm x y)
  · intro d d' key h h'
    rw [key_eq_spelling] at h h'
    exact spelling_injective (Except.ok.inj (h.trans h'.symm))
  · intro key aad plaintext ciphertext h
    have htext : framed (1 :: (zeros ++ (framed key ++ messageKeyInfo))) ++
      (framed aad ++ plaintext) =
        ciphertext := Except.ok.inj h
    have hopen := afterPrefix_append (framed (1 :: (zeros ++ (framed key ++ messageKeyInfo))) ++
      framed aad) plaintext
    rw [List.append_assoc, htext] at hopen
    exact aeadDecrypt_eq rfl hopen

/-- A ciphertext opens under the key and the header it was sealed with, and no others. -/
theorem symbols_opened {key key' : Bytes} {aad aad' plaintext plaintext' ciphertext : Bytes}
    (h : @aeadEncrypt Crypto.symbols key aad plaintext = .ok ciphertext)
    (h' : @aeadDecrypt Crypto.symbols key' aad' ciphertext = .ok plaintext') :
      key' = key ∧ aad' = aad := by
  let _ := Crypto.symbols
  have htext : framed (1 :: (zeros ++ (framed key ++ messageKeyInfo))) ++
    (framed aad ++ plaintext) =
      ciphertext := Except.ok.inj h
  obtain ⟨_, _, hparams, hopen⟩ := aeadDecrypt_spec h'
  obtain ⟨rfl, -⟩ := Prod.mk.inj (Except.ok.inj hparams)
  have hprefix := afterPrefix_eq_some hopen
  rw [← htext, List.append_assoc] at hprefix
  obtain ⟨hkey, hrest⟩ := framed_append_inj hprefix
  obtain ⟨haad, -⟩ := framed_append_inj hrest
  obtain ⟨hkey', -⟩ := framed_append_inj (List.append_cancel_left (List.cons.inj hkey).2)
  exact ⟨hkey'.symm, haad.symm⟩

end ObbyClient.E2ee

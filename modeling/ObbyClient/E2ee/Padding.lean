import ObbyClient.E2ee.Crypto

/-!
# Padding

A plaintext is followed by one marking byte and by zeros up to a whole number of blocks, so that its
length is known only to the block.
-/

namespace ObbyClient.E2ee

def pad (plaintext : Bytes) : Bytes :=
  let out := plaintext ++ [0x80]
  let remainder := out.length % padBlock
  if remainder ≠ 0 then out ++ List.replicate (padBlock - remainder) 0 else out

/-- The last place of a byte that is not zero. -/
def lastNonZero : Bytes → Option ℕ
  | [] => none
  | byte :: rest =>
    match lastNonZero rest with
    | some marker => some (marker + 1)
    | none => if byte ≠ 0 then some 0 else none

def unpad (padded : Bytes) : Except Error Bytes :=
  match lastNonZero padded with
  | none => .error .padding
  | some marker => if padded[marker]? ≠ some 0x80 then .error .padding else .ok (padded.take marker)

theorem lastNonZero_replicate (k : ℕ) : lastNonZero (List.replicate k 0) = none := by
  induction k with
  | zero => rfl
  | succ k ih =>
    rw [List.replicate_succ, lastNonZero, ih]
    rfl

theorem lastNonZero_marked (plaintext : Bytes) (k : ℕ) :
    lastNonZero (plaintext ++ 0x80 :: List.replicate k 0) = some plaintext.length := by
  induction plaintext with
  | nil =>
    rw [List.nil_append, lastNonZero, lastNonZero_replicate]
    rfl
  | cons byte rest ih =>
    rw [List.cons_append, lastNonZero, ih]
    rfl

/-- What a padded plaintext is. -/
theorem pad_eq (plaintext : Bytes) : ∃ k, pad plaintext =
    plaintext ++ 0x80 :: List.replicate k 0 := by
  unfold pad
  dsimp only
  split
  · exact ⟨_, List.append_assoc _ _ _⟩
  · exact ⟨0, rfl⟩

theorem unpad_marked (plaintext : Bytes) (k : ℕ) :
    unpad (plaintext ++ 0x80 :: List.replicate k 0) = .ok plaintext := by
  have hmarker : (plaintext ++ 0x80 :: List.replicate k 0)[plaintext.length]? = some 0x80 := by
    rw [List.getElem?_append_right le_rfl, Nat.sub_self]
    rfl
  unfold unpad
  rw [lastNonZero_marked]
  dsimp only
  rw [hmarker, if_neg (not_not.mpr rfl), List.take_left]

/-- **Padding comes off.** -/
theorem unpad_pad (plaintext : Bytes) : unpad (pad plaintext) = .ok plaintext := by
  obtain ⟨k, hpad⟩ := pad_eq plaintext
  rw [hpad, unpad_marked]

/-! ### What padding looks like -/

/-- A padded plaintext is filled up to the block after its own. -/
theorem pad_length (plaintext : Bytes) :
    (pad plaintext).length = 64 * (plaintext.length / 64 + 1) := by
  unfold pad padBlock
  have hout : (plaintext ++ [0x80]).length = plaintext.length + 1 := List.length_append
  dsimp only
  split
  · rw [List.length_append, List.length_replicate, hout]
    omega
  · rw [hout]
    omega

theorem lastNonZero_eq_none {bytes : Bytes} (h : lastNonZero bytes = none) :
    bytes = List.replicate bytes.length 0 := by
  induction bytes with
  | nil => rfl
  | cons byte rest ih =>
    rw [lastNonZero] at h
    cases hrest : lastNonZero rest with
    | some marker =>
      rw [hrest] at h
      cases h
    | none =>
      rw [hrest] at h
      have hbyte : byte = 0 := by
        by_contra hne
        exact absurd h (by simp [hne])
      rw [List.length_cons, List.replicate_succ, hbyte, ← ih hrest]

/-- Behind the last byte that is not zero stand zeros only. -/
theorem lastNonZero_eq_some {bytes : Bytes} {marker : ℕ} (h : lastNonZero bytes = some marker) :
    ∃ byte k, byte ≠ 0 ∧ bytes[marker]? = some byte ∧
      bytes = bytes.take marker ++ byte :: List.replicate k 0 := by
  induction bytes generalizing marker with
  | nil => cases h
  | cons byte rest ih =>
    rw [lastNonZero] at h
    cases hrest : lastNonZero rest with
    | some m =>
      rw [hrest] at h
      obtain ⟨b, k, hb, hat, hsplit⟩ := ih hrest
      have hm : m + 1 = marker := Option.some.inj h
      subst hm
      refine ⟨b, k, hb, hat, ?_⟩
      rw [List.take_succ_cons, List.cons_append, ← hsplit]
    | none =>
      rw [hrest] at h
      obtain ⟨hne, hm⟩ := Option.ite_none_right_eq_some.mp h
      have hm : 0 = marker := Option.some.inj hm
      subst hm
      refine ⟨byte, rest.length, hne, rfl, ?_⟩
      rw [List.take_zero, List.nil_append, ← lastNonZero_eq_none hrest]

/-- What comes off is everything before the marker, and behind the marker stand zeros only. -/
theorem unpad_eq_ok (padded plaintext : Bytes) : unpad padded = .ok plaintext ↔
    ∃ k, padded = plaintext ++ 0x80 :: List.replicate k 0 := by
  constructor
  · intro h
    unfold unpad at h
    cases hlast : lastNonZero padded with
    | none =>
      rw [hlast] at h
      cases h
    | some marker =>
      rw [hlast] at h
      dsimp only at h
      obtain ⟨byte, k, -, hat, hsplit⟩ := lastNonZero_eq_some hlast
      split at h
      · cases h
      · have hmark : padded[marker]? = some 0x80 := not_not.mp (by assumption)
        have hbyte : byte = 0x80 := Option.some.inj (hat.symm.trans hmark)
        rw [Except.ok.inj h, hbyte] at hsplit
        exact ⟨k, hsplit⟩
  · rintro ⟨k, rfl⟩
    exact unpad_marked plaintext k

/-- **Padding is exact.**  It comes off whatever it was put on, fills up to the block after the
plaintext's own, and nothing but one marker and zeros is ever taken off as padding. -/
theorem padding_exact :
    (∀ plaintext, unpad (pad plaintext) = .ok plaintext ∧
      (pad plaintext).length = 64 * (plaintext.length / 64 + 1)) ∧
    ∀ padded plaintext, unpad padded = .ok plaintext ↔
      ∃ k, padded = plaintext ++ 0x80 :: List.replicate k 0 :=
  ⟨fun plaintext => ⟨unpad_pad plaintext, pad_length plaintext⟩, unpad_eq_ok⟩

/-- A plaintext that ends in a marker and a zero of its own. -/
example : unpad (pad [1, 0x80, 0]) = .ok [1, 0x80, 0] := by decide

end ObbyClient.E2ee

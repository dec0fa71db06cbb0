import ObbyClient.Lib.Text

/-!
# Standard base64

Three bytes are four characters of an alphabet of 64, and what is left over at the end is filled up
with `=` to four.  A text is decoded when it is what its bytes encode to, so nothing but the output
of the encoder is accepted.

* `encode_append` — whole groups of three are encoded on their own;
* `length_encode`, `encode_mem` — how long the text is, and which characters are in it;
* `decode_encode` — the bytes come back.
-/

namespace ObbyClient.Base64

/-- The 64 characters. -/
def alphabet : Str := "ABCDEFGHIJKLMNOPQRSTUVWXYZabcdefghijklmnopqrstuvwxyz0123456789+/"

/-- The character of six bits. -/
def digit (n : ℕ) : Char := alphabet.getD n '='

/-- The six bits of a character. -/
def value (c : Char) : ℕ := alphabet.idxOf c

def encode : Bytes → Str
  | a :: b :: c :: rest =>
      digit (a.toNat / 4) :: digit (a.toNat % 4 * 16 + b.toNat / 16) ::
        digit (b.toNat % 16 * 4 + c.toNat / 64) :: digit (c.toNat % 64) :: encode rest
  | [a, b] =>
      [digit (a.toNat / 4), digit (a.toNat % 4 * 16 + b.toNat / 16), digit (b.toNat % 16 * 4), '=']
  | [a] => [digit (a.toNat / 4), digit (a.toNat % 4 * 16), '=', '=']
  | [] => []

/-- The bytes of a text that is taken to be well formed. -/
def bytes : Str → Bytes
  | w :: x :: y :: z :: rest =>
      if y = '=' then [UInt8.ofNat (value w * 4 + value x / 16)]
      else if z = '=' then
        [UInt8.ofNat (value w * 4 + value x / 16), UInt8.ofNat (value x % 16 * 16 + value y / 4)]
      else
        UInt8.ofNat (value w * 4 + value x / 16) :: UInt8.ofNat (value x % 16 * 16 + value y / 4) ::
          UInt8.ofNat (value y % 4 * 64 + value z) :: bytes rest
  | _ => []

/-- The bytes that a text is the encoding of. -/
def decode (text : Str) : Option Bytes :=
  if encode (bytes text) = text then some (bytes text) else none

theorem digit_spec {n : ℕ} (h : n < 64) :
    value (digit n) = n ∧ digit n ∈ alphabet := by
  revert n
  decide +kernel

theorem digit_ne_pad {n : ℕ} (h : n < 64) : digit n ≠ '=' := by
  intro heq
  have hmem := (digit_spec h).2
  rw [heq] at hmem
  exact absurd hmem (by decide)

/-- **Groups of three** are encoded on their own. -/
theorem encode_append {front : Bytes} (h : 3 ∣ front.length) (back : Bytes) :
    encode (front ++ back) = encode front ++ encode back := by
  fun_induction encode front with
  | case1 a b c rest ih =>
      have hrest : 3 ∣ rest.length := by
        simp only [List.length_cons] at h
        omega
      simp only [List.cons_append, encode, ih hrest]
  | case2 a b => simp at h
  | case3 a => simp at h
  | case4 => rfl

/-- **Four characters for each three bytes**, the last group filled up. -/
theorem length_encode (payload : Bytes) : (encode payload).length = 4 *
    ((payload.length + 2) / 3) := by
  fun_induction encode payload with
  | case1 a b c rest ih =>
      simp only [List.length_cons, ih]
      omega
  | case2 a b => simp
  | case3 a => simp
  | case4 => rfl

/-- **Nothing but the alphabet** and the padding is in a text. -/
theorem encode_mem (payload : Bytes) : ∀ c ∈ encode payload, c ∈ alphabet ∨ c = '=' := by
  have hbyte : ∀ a : UInt8, a.toNat < 256 := UInt8.toNat_lt
  fun_induction encode payload with
  | case1 a b c rest ih =>
      have ha := hbyte a
      have hb := hbyte b
      have hc := hbyte c
      refine List.forall_mem_cons.mpr ⟨Or.inl (digit_spec (by omega)).2, ?_⟩
      refine List.forall_mem_cons.mpr ⟨Or.inl (digit_spec (by omega)).2, ?_⟩
      refine List.forall_mem_cons.mpr ⟨Or.inl (digit_spec (by omega)).2, ?_⟩
      exact List.forall_mem_cons.mpr ⟨Or.inl (digit_spec (by omega)).2, ih⟩
  | case2 a b =>
      have ha := hbyte a
      have hb := hbyte b
      refine List.forall_mem_cons.mpr ⟨Or.inl (digit_spec (by omega)).2, ?_⟩
      refine List.forall_mem_cons.mpr ⟨Or.inl (digit_spec (by omega)).2, ?_⟩
      refine List.forall_mem_cons.mpr ⟨Or.inl (digit_spec (by omega)).2, ?_⟩
      simp
  | case3 a =>
      have ha := hbyte a
      refine List.forall_mem_cons.mpr ⟨Or.inl (digit_spec (by omega)).2, ?_⟩
      refine List.forall_mem_cons.mpr ⟨Or.inl (digit_spec (by omega)).2, ?_⟩
      simp
  | case4 => exact fun _ h => (List.not_mem_nil h).elim

theorem ofNat_eq {n : ℕ} {a : UInt8} (h : n = a.toNat) : UInt8.ofNat n = a := by
  rw [h, UInt8.ofNat_toNat]

theorem bytes_encode (payload : Bytes) : bytes (encode payload) = payload := by
  fun_induction encode payload with
  | case1 a b c rest ih =>
      have ha := UInt8.toNat_lt a
      have hb := UInt8.toNat_lt b
      have hc := UInt8.toNat_lt c
      rw [bytes, if_neg (digit_ne_pad (by omega)), if_neg (digit_ne_pad (by omega)),
        (digit_spec (by omega)).1, (digit_spec (by omega)).1, (digit_spec (by omega)).1,
        (digit_spec (by omega)).1, ih,
        ofNat_eq (a := a) (by omega), ofNat_eq (a := b) (by omega), ofNat_eq (a := c) (by omega)]
  | case2 a b =>
      have ha := UInt8.toNat_lt a
      have hb := UInt8.toNat_lt b
      rw [bytes, if_neg (digit_ne_pad (by omega)), if_pos rfl, (digit_spec (by omega)).1,
        (digit_spec (by omega)).1, (digit_spec (by omega)).1, ofNat_eq (a := a) (by omega),
        ofNat_eq (a := b) (by omega)]
  | case3 a =>
      have ha := UInt8.toNat_lt a
      rw [bytes, if_pos rfl, (digit_spec (by omega)).1, (digit_spec (by omega)).1,
        ofNat_eq (a := a) (by omega)]
  | case4 => rfl

/-- **The bytes come back.** -/
theorem decode_encode (payload : Bytes) : decode (encode payload) = some payload := by
  rw [decode, bytes_encode, if_pos rfl]

end ObbyClient.Base64

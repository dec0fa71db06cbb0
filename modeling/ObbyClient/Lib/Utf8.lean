import ObbyClient.Lib.Text

/-!
# UTF-8: encoding, and decoding that never fails

A line protocol writes text as UTF-8 and reads bytes that may not be UTF-8 at all.  Encoding is
Lean's own `String.utf8EncodeChar`, character by character.  Decoding is the lossy one: every
maximal prefix of a sequence that UTF-8 cannot continue becomes one replacement character, and the
byte that broke it is read afresh.

* `decodeLossy` — the decoder, a machine that reads one byte at a time;
* `decodeLossy_encode_append` — it reads back whatever was encoded, whatever follows;
* `decodeLossy_append_ascii` — an ASCII byte always starts afresh, so text after it is unaffected by
  what came before it;
* `mem_encode_ascii` — an ASCII byte in the encoding is that ASCII character in the text.
-/

namespace ObbyClient.Utf8

/-- The UTF-8 bytes of a text. -/
def encode (s : Str) : Bytes := s.flatMap String.utf8EncodeChar

/-- What stands for bytes that are not UTF-8. -/
def replacement : Char := '\uFFFD'

/-- Where the decoder stands between bytes. -/
inductive DecodeState where
  /-- Between characters. -/
  | start
  /-- `need` more bytes of a character owed, the next one between `lo` and `hi`, with the value
  `acc` read so far. -/
  | tail (need lo hi acc : ℕ)
  deriving DecidableEq

/-- The first byte of a character: what it writes at once, and where it leaves the decoder. -/
def first (b : ℕ) : Str × DecodeState :=
  if b ≤ 0x7F then ([Char.ofNat b], .start)
  else if 0xC2 ≤ b ∧ b ≤ 0xDF then ([], .tail 1 0x80 0xBF (b - 0xC0))
  else if b = 0xE0 then ([], .tail 2 0xA0 0xBF 0)
  else if b = 0xED then ([], .tail 2 0x80 0x9F 0xD)
  else if 0xE1 ≤ b ∧ b ≤ 0xEF then ([], .tail 2 0x80 0xBF (b - 0xE0))
  else if b = 0xF0 then ([], .tail 3 0x90 0xBF 0)
  else if 0xF1 ≤ b ∧ b ≤ 0xF3 then ([], .tail 3 0x80 0xBF (b - 0xF0))
  else if b = 0xF4 then ([], .tail 3 0x80 0x8F 4)
  else ([replacement], .start)

/-- One byte in any state. -/
def feed (b : ℕ) : DecodeState → Str × DecodeState
  | .start => first b
  | .tail need lo hi acc =>
      if lo ≤ b ∧ b ≤ hi then
        if need ≤ 1 then ([Char.ofNat (acc * 64 + (b - 0x80))], .start)
        else ([], .tail (need - 1) 0x80 0xBF (acc * 64 + (b - 0x80)))
      -- the sequence is cut short: it is one replacement character, and this byte starts over
      else (replacement :: (first b).1, (first b).2)

/-- What an unfinished character leaves when the bytes run out. -/
def flush : DecodeState → Str
  | .start => []
  | .tail _ _ _ _ => [replacement]

/-- Decode the rest of the bytes from a state. -/
def decodeFrom : DecodeState → Bytes → Str
  | st, [] => flush st
  | st, b :: bs => (feed b.toNat st).1 ++ decodeFrom (feed b.toNat st).2 bs

/-- Decode bytes, replacing what is not UTF-8. -/
def decodeLossy (bs : Bytes) : Str := decodeFrom .start bs

@[simp] theorem encode_nil : encode [] = [] := rfl

@[simp] theorem encode_cons (c : Char) (s : Str) :
    encode (c :: s) = String.utf8EncodeChar c ++ encode s := rfl

@[simp] theorem encode_append (a b : Str) : encode (a ++ b) = encode a ++ encode b := by
  simp [encode]

@[simp] theorem decodeLossy_nil : decodeLossy [] = [] := rfl

@[simp] theorem feed_start (b : ℕ) : feed b .start = first b := rfl

theorem feed_tail (b need lo hi acc : ℕ) :
    feed b (.tail need lo hi acc) =
      if lo ≤ b ∧ b ≤ hi then
        if need ≤ 1 then ([Char.ofNat (acc * 64 + (b - 0x80))], .start)
        else ([], .tail (need - 1) 0x80 0xBF (acc * 64 + (b - 0x80)))
      else (replacement :: (first b).1, (first b).2) := rfl

/-! ### Reading back what was encoded -/

theorem toNat_ofNat_of_lt {n : ℕ} (h : n < 256) : (UInt8.ofNat n).toNat = n := by
  rw [UInt8.toNat_ofNat']
  exact Nat.mod_eq_of_lt h

theorem toNat_valid (c : Char) :
    c.val.toNat < 0xD800 ∨ 0xDFFF < c.val.toNat ∧ c.val.toNat < 0x110000 := c.valid

theorem ofNat_val_toNat (c : Char) : Char.ofNat c.val.toNat = c := Char.ofNat_toNat c

/-! The first byte of a character of each width leaves the decoder owing the rest of it, and ready
for the byte that does follow. -/

theorem first_two {v : ℕ} (h₁ : 0x80 ≤ v) (h₂ : v ≤ 0x7FF) :
    first (v / 64 % 32 + 192) = ([], .tail 1 0x80 0xBF (v / 64)) := by
  rw [first, if_neg (by omega), if_pos (by omega), show v / 64 % 32 + 192 - 0xC0 = v / 64 by omega]

theorem first_three {v : ℕ} (h₁ : 0x800 ≤ v) (h₂ : v ≤ 0xFFFF) (hs : v < 0xD800 ∨ 0xDFFF < v) :
    ∃ lo hi, first (v / 4096 % 16 + 224) = ([], .tail 2 lo hi (v / 4096)) ∧
      lo ≤ v / 64 % 64 + 128 ∧ v / 64 % 64 + 128 ≤ hi := by
  rw [first, if_neg (by omega), if_neg (by omega)]
  by_cases he : v / 4096 % 16 + 224 = 0xE0
  · rw [if_pos he, show v / 4096 = 0 by omega]
    exact ⟨_, _, rfl, by omega, by omega⟩
  · rw [if_neg he]
    by_cases hd : v / 4096 % 16 + 224 = 0xED
    · rw [if_pos hd, show v / 4096 = 0xD by omega]
      exact ⟨_, _, rfl, by omega, by omega⟩
    · rw [if_neg hd, if_pos (by omega), show v / 4096 % 16 + 224 - 0xE0 = v / 4096 by omega]
      exact ⟨_, _, rfl, by omega, by omega⟩

theorem first_four {v : ℕ} (h₁ : 0x10000 ≤ v) (h₂ : v < 0x110000) :
    ∃ lo hi, first (v / 262144 % 8 + 240) = ([], .tail 3 lo hi (v / 262144)) ∧
      lo ≤ v / 4096 % 64 + 128 ∧ v / 4096 % 64 + 128 ≤ hi := by
  rw [first, if_neg (by omega), if_neg (by omega), if_neg (by omega), if_neg (by omega),
    if_neg (by omega)]
  by_cases he : v / 262144 % 8 + 240 = 0xF0
  · rw [if_pos he, show v / 262144 = 0 by omega]
    exact ⟨_, _, rfl, by omega, by omega⟩
  · rw [if_neg he]
    by_cases hd : v / 262144 % 8 + 240 = 0xF4
    · rw [if_neg (by omega), if_pos hd, show v / 262144 = 4 by omega]
      exact ⟨_, _, rfl, by omega, by omega⟩
    · rw [if_pos (by omega), show v / 262144 % 8 + 240 - 0xF0 = v / 262144 by omega]
      exact ⟨_, _, rfl, by omega, by omega⟩

theorem feed_tail_last {lo hi acc b : ℕ} (h : lo ≤ b ∧ b ≤ hi) :
    feed b (.tail 1 lo hi acc) = ([Char.ofNat (acc * 64 + (b - 0x80))], .start) := by
  rw [feed_tail, if_pos h, if_pos (le_refl 1)]

theorem feed_tail_more {need lo hi acc b : ℕ} (h : lo ≤ b ∧ b ≤ hi) (hn : 1 < need) :
    feed b (.tail need lo hi acc) =
      ([], .tail (need - 1) 0x80 0xBF (acc * 64 + (b - 0x80))) := by
  rw [feed_tail, if_pos h, if_neg (by omega)]

theorem decodeFrom_ofNat {n : ℕ} (h : n < 256) (st : DecodeState) (bs : Bytes) :
    decodeFrom st (UInt8.ofNat n :: bs) = (feed n st).1 ++ decodeFrom (feed n st).2 bs := by
  rw [decodeFrom, toNat_ofNat_of_lt h]

/-- **One character is read back from its bytes**, and the decoder is between characters again. -/
theorem decodeFrom_encodeChar (c : Char) (rest : Bytes) :
    decodeFrom .start (String.utf8EncodeChar c ++ rest) = c :: decodeFrom .start rest := by
  have hv := toNat_valid c
  have hc := ofNat_val_toNat c
  unfold String.utf8EncodeChar
  generalize c.val.toNat = v at hv hc
  dsimp only
  by_cases h1 : v ≤ 0x7F
  · rw [if_pos h1, List.singleton_append, decodeFrom_ofNat (by omega), feed_start,
      first, if_pos h1, hc]
    rfl
  rw [if_neg h1]
  by_cases h2 : v ≤ 0x7FF
  · rw [if_pos h2, List.cons_append, List.cons_append, List.nil_append,
      decodeFrom_ofNat (by omega), feed_start, first_two (by omega) h2, decodeFrom_ofNat (by omega),
      feed_tail_last (by omega), show v / 64 * 64 + (v % 64 + 128 - 128) = v by omega, hc]
    rfl
  rw [if_neg h2]
  by_cases h3 : v ≤ 0xFFFF
  · obtain ⟨lo, hi, hf, hb⟩ := first_three (v := v) (by omega) h3 (by omega)
    rw [if_pos h3, List.cons_append, List.cons_append, List.cons_append, List.nil_append,
      decodeFrom_ofNat (by omega), feed_start, hf, decodeFrom_ofNat (by omega),
      feed_tail_more hb (by omega), decodeFrom_ofNat (by omega), feed_tail_last (by omega),
      show (v / 4096 * 64 + (v / 64 % 64 + 128 - 128)) * 64 + (v % 64 + 128 - 128) = v by omega, hc]
    rfl
  · obtain ⟨lo, hi, hf, hb⟩ := first_four (v := v) (by omega) (by omega)
    rw [if_neg h3, List.cons_append, List.cons_append, List.cons_append, List.cons_append,
      List.nil_append, decodeFrom_ofNat (by omega), feed_start, hf, decodeFrom_ofNat (by omega),
      feed_tail_more hb (by omega), decodeFrom_ofNat (by omega),
      feed_tail_more (by omega) (by omega), decodeFrom_ofNat (by omega), feed_tail_last (by omega),
      show ((v / 262144 * 64 + (v / 4096 % 64 + 128 - 128)) * 64 + (v / 64 % 64 + 128 - 128)) * 64 +
        (v % 64 + 128 - 128) = v by omega, hc]
    rfl

/-- **Text is read back from its encoding**, whatever bytes follow it. -/
theorem decodeLossy_encode_append (s : Str) (rest : Bytes) :
    decodeLossy (encode s ++ rest) = s ++ decodeLossy rest := by
  induction s with
  | nil => rfl
  | cons c cs ih =>
      rw [encode_cons, List.append_assoc, decodeLossy, decodeFrom_encodeChar, ← decodeLossy, ih]
      rfl

theorem decodeLossy_encode (s : Str) : decodeLossy (encode s) = s := by
  simpa using decodeLossy_encode_append s []

/-! ### ASCII bytes -/

theorem first_ascii {b : ℕ} (h : b ≤ 0x7F) : first b = ([Char.ofNat b], .start) := by
  rw [first, if_pos h]

/-- An owed byte is never an ASCII byte: every tail state asks for a byte above `0x7F`. -/
def DecodeState.Owes : DecodeState → Prop
  | .start => True
  | .tail _ lo _ _ => 0x80 ≤ lo

theorem first_owes (b : ℕ) : (first b).2.Owes := by
  unfold first
  repeat' split
  all_goals simp [DecodeState.Owes]

theorem feed_owes (b : ℕ) (st : DecodeState) : (feed b st).2.Owes := by
  cases st with
  | start => exact first_owes b
  | tail need lo hi acc =>
      rw [feed_tail]
      split
      · split <;> simp [DecodeState.Owes]
      · exact first_owes b

theorem feed_ascii {b : ℕ} (h : b ≤ 0x7F) {st : DecodeState} (hst : st.Owes) :
    feed b st = (flush st ++ [Char.ofNat b], .start) := by
  cases st with
  | start => rw [feed_start, first_ascii h]; rfl
  | tail need lo hi acc =>
      have hlo : 0x80 ≤ lo := hst
      rw [feed_tail, if_neg (by omega), first_ascii h]
      rfl

/-- **An ASCII byte starts afresh**: what is decoded before it is what those bytes decode to on
their own, and what follows it is decoded as if nothing had come before. -/
theorem decodeFrom_append_ascii {a : UInt8} (ha : a.toNat ≤ 0x7F) (p rest : Bytes) :
    ∀ {st : DecodeState}, st.Owes →
      decodeFrom st (p ++ a :: rest) = decodeFrom st p ++ Char.ofNat a.toNat ::
        decodeLossy rest := by
  induction p with
  | nil =>
      intro st hst
      show (feed a.toNat st).1 ++ decodeFrom (feed a.toNat st).2 rest = _
      rw [feed_ascii ha hst, List.append_assoc]
      rfl
  | cons b p ih =>
      intro st _
      rw [List.cons_append, decodeFrom, decodeFrom, ih (feed_owes _ _), List.append_assoc]

theorem decodeLossy_append_ascii {a : UInt8} (ha : a.toNat ≤ 0x7F) (p rest : Bytes) :
    decodeLossy (p ++ a :: rest) = decodeLossy p ++ Char.ofNat a.toNat :: decodeLossy rest :=
  @decodeFrom_append_ascii a ha p rest .start trivial

/-- Bytes decode to nothing only when there are none. -/
theorem decodeFrom_ne_nil (st : DecodeState) (bs : Bytes) (h : st ≠ .start ∨ bs ≠ []) :
    decodeFrom st bs ≠ [] := by
  induction bs generalizing st with
  | nil =>
      cases st with
      | start => simp at h
      | tail need lo hi acc => simp [decodeFrom, flush]
  | cons b bs ih =>
      rw [decodeFrom]
      intro hnil
      rw [List.append_eq_nil_iff] at hnil
      by_cases hst : (feed b.toNat st).2 = .start
      · -- a byte that leaves the decoder between characters has written something
        cases st with
        | start =>
            revert hst hnil
            rw [feed_start, first]
            repeat' split
            all_goals simp
        | tail need lo hi acc =>
            revert hst hnil
            rw [feed_tail]
            split
            · split <;> simp
            · simp
      · exact ih _ (.inl hst) hnil.2

theorem decodeLossy_eq_nil {bs : Bytes} : decodeLossy bs = [] ↔ bs = [] := by
  constructor
  · intro h
    by_contra hne
    exact decodeFrom_ne_nil .start bs (.inr hne) h
  · rintro rfl
    rfl

/-- **An ASCII byte of the encoding is that character of the text.** -/
theorem mem_encode_ascii {b : UInt8} (hb : b.toNat ≤ 0x7F) (s : Str) :
    b ∈ encode s ↔ Char.ofNat b.toNat ∈ s := by
  have key : ∀ c : Char, b ∈ String.utf8EncodeChar c ↔ Char.ofNat b.toNat = c := by
    intro c
    have hval : (Char.ofNat b.toNat).val.toNat = b.toNat := by
      rw [Char.ofNat, dif_pos (Or.inl (show b.toNat < 0xD800 by omega))]
      rfl
    have hc : Char.ofNat b.toNat = c ↔ b.toNat = c.val.toNat := by
      constructor
      · rintro rfl
        exact hval.symm
      · intro h
        rw [h]
        exact ofNat_val_toNat c
    rw [hc]
    have hv := toNat_valid c
    unfold String.utf8EncodeChar
    generalize c.val.toNat = v at hv
    have hmem : ∀ n : ℕ, n < 256 → (b = UInt8.ofNat n ↔ b.toNat = n) := by
      intro n hn
      constructor
      · rintro rfl
        exact toNat_ofNat_of_lt hn
      · rintro rfl
        simp
    dsimp only
    repeat' split
    · rw [List.mem_singleton, hmem v (by omega)]
    · simp only [List.mem_cons, List.not_mem_nil, or_false,
        hmem _ (show v / 64 % 32 + 192 < 256 by omega),
        hmem _ (show v % 64 + 128 < 256 by omega)]
      omega
    · simp only [List.mem_cons, List.not_mem_nil, or_false,
        hmem _ (show v / 4096 % 16 + 224 < 256 by omega),
          hmem _ (show v / 64 % 64 + 128 < 256 by omega),
        hmem _ (show v % 64 + 128 < 256 by omega)]
      omega
    · simp only [List.mem_cons, List.not_mem_nil, or_false,
        hmem _ (show v / 262144 % 8 + 240 < 256 by omega),
        hmem _ (show v / 4096 % 64 + 128 < 256 by omega),
        hmem _ (show v / 64 % 64 + 128 < 256 by omega), hmem _ (show v % 64 + 128 < 256 by omega)]
      omega
  simp only [encode, List.mem_flatMap, key, exists_eq_right']

example : decodeLossy [0x68, 0xC3, 0xA9, 0xFF, 0xE2, 0x82, 0x21] =
    ['h', 'é', replacement, replacement, '!'] := by decide

end ObbyClient.Utf8

import ObbyClient.Lib.Text

/-!
# Decimal numerals

What the integer readers of `Lib.Text` accept in radix ten, and that they read back what
`natToStr` and `padZeros` write.

* `IsDecimal` — digits and nothing else, with the number they are;
* `parseUnsigned_eq_some`, `parseI64_eq_some` — the readers take such digits, behind one `+` if need
  be;
* `isDecimal_padZeros` — a padded number is digits for itself.
-/

namespace ObbyClient

/-! ### Digits -/

theorem lt_of_digitValue {radix v : ℕ} {c : Char} (h : digitValue radix c = some v) : v < radix :=
  of_decide_eq_true (Option.filter_eq_some_iff.mp h).2

theorem digitValue_of_isDigit {c : Char} (h : c.isDigit = true) :
    digitValue 10 c = some (c.toNat - '0'.toNat) := by
  have hrange : 48 ≤ c.toNat ∧ c.toNat ≤ 57 := by
    unfold Char.isDigit at h
    rw [Bool.and_eq_true, decide_eq_true_eq, decide_eq_true_eq, ge_iff_le, UInt32.le_iff_toNat_le,
      UInt32.le_iff_toNat_le] at h
    exact h
  have hle : '0' ≤ c ∧ c ≤ '9' := by
    rw [Char.le_def, Char.le_def, UInt32.le_iff_toNat_le, UInt32.le_iff_toNat_le]
    exact hrange
  unfold digitValue
  rw [if_pos hle]
  refine if_pos (decide_eq_true ?_)
  show c.toNat - 48 < 10
  omega

/-- Digits are read as the number that they are. -/
theorem foldlM_digitValue {digits : Str} (h : ∀ c ∈ digits, c.isDigit = true) (acc : ℕ) :
    digits.foldlM (fun acc c => (digitValue 10 c).map (acc * 10 + ·)) acc =
      some (Nat.ofDigitChars 10 digits acc) := by
  induction digits generalizing acc with
  | nil => rfl
  | cons c digits ih =>
      rw [List.foldlM_cons, digitValue_of_isDigit (h c List.mem_cons_self), Nat.ofDigitChars_cons,
        Nat.mul_comm 10 acc]
      exact ih (fun d hd => h d (List.mem_cons_of_mem _ hd)) _

theorem isDigit_of_mem_natToStr {n : ℕ} {c : Char} (h : c ∈ natToStr n) : c.isDigit = true :=
  Nat.isDigit_of_mem_toDigits (by decide) (by decide) h

theorem natToStr_ne_nil (n : ℕ) : natToStr n ≠ [] := Nat.toDigits_ne_nil

theorem ofDigitChars_natToStr (n : ℕ) : ofDigitChars 10 (natToStr n) = some n := by
  refine (foldlM_digitValue (fun _ => isDigit_of_mem_natToStr) 0).trans ?_
  exact congrArg some (Nat.ofDigitChars_toDigits (by decide) (by decide))

/-- The first character of a number is none of those that no digit is. -/
theorem head_natToStr_ne (n : ℕ) {c : Char} (hc : c.isDigit = false) :
    (natToStr n).head? ≠ some c := by
  intro h
  rw [isDigit_of_mem_natToStr (List.mem_of_head? h)] at hc
  cases hc

/-- **A number is read back** from its digits. -/
theorem fromStrRadix_natToStr {n bound : ℕ} (h : n ≤ bound) :
    fromStrRadix 10 bound (natToStr n) = some n := by
  unfold fromStrRadix
  rw [if_neg (head_natToStr_ne n (by decide)), if_neg (natToStr_ne_nil n), ofDigitChars_natToStr]
  exact if_pos (decide_eq_true h)

theorem fromStrRadix_digits {bound n : ℕ} {digits : Str} (h : digits.all Char.isDigit = true)
    (hread : fromStrRadix 10 bound digits = some n) : n = Nat.ofDigitChars 10 digits 0 := by
  have hall : ∀ c ∈ digits, c.isDigit = true := List.all_eq_true.mp h
  have hplus : digits.head? ≠ some '+' := by
    intro hhead
    exact absurd (hall '+' (List.mem_of_head? hhead)) (by decide)
  unfold fromStrRadix at hread
  rw [if_neg hplus] at hread
  by_cases hnil : digits = []
  · rw [if_pos hnil] at hread
    cases hread
  · rw [if_neg hnil] at hread
    unfold ofDigitChars at hread
    rw [foldlM_digitValue hall] at hread
    exact (Option.some.inj (Option.eq_some_of_filter_eq_some hread)).symm

theorem ofDigitChars_lt {s : Str} (h : s.all Char.isDigit = true) :
    Nat.ofDigitChars 10 s 0 < 10 ^ s.length := by
  induction s with
  | nil => decide
  | cons c s ih =>
      rw [List.all_cons, Bool.and_eq_true] at h
      have hs := ih h.2
      have hc : c.toNat - '0'.toNat ≤ 9 := by
        have hle := (Char.isDigit_iff_toNat.mp h.1).2
        show c.toNat - 48 ≤ 9
        have h9 : '9'.toNat = 57 := rfl
        omega
      rw [Nat.ofDigitChars_cons, Nat.ofDigitChars_eq_ofDigitChars_zero, List.length_cons, pow_succ]
      have hmul := Nat.mul_le_mul_left (10 ^ s.length) hc
      rw [Nat.mul_zero, Nat.zero_add]
      omega

/-! ### What the readers accept -/

/-- Digits and nothing else, and the number they are. -/
def IsDecimal (s : Str) (n : ℕ) : Prop :=
  s ≠ [] ∧ s.all Char.isDigit = true ∧ Nat.ofDigitChars 10 s 0 = n

instance (s : Str) (n : ℕ) : Decidable (IsDecimal s n) :=
  inferInstanceAs (Decidable (_ ∧ _ ∧ _))

theorem IsDecimal.eq {s : Str} {n m : ℕ} (h : IsDecimal s n) (h' : IsDecimal s m) : n = m :=
  h.2.2.symm.trans h'.2.2

/-- What is left of a number without its plus sign. -/
def unsigned (s : Str) : Str := if s.head? = some '+' then s.tail else s

theorem isDigit_of_digitValue {c : Char} {v : ℕ} (h : digitValue 10 c = some v) :
    c.isDigit = true := by
  unfold digitValue at h
  by_cases hdigit : '0' ≤ c ∧ c ≤ '9'
  · rw [Char.isDigit, Bool.and_eq_true, decide_eq_true_eq, decide_eq_true_eq]
    exact hdigit
  · obtain ⟨hv, hlt⟩ := Option.filter_eq_some_iff.mp h
    rw [if_neg hdigit] at hv
    have hlt := of_decide_eq_true hlt
    split_ifs at hv <;> cases hv <;> omega

theorem ofDigitChars_eq_some {s : Str} {n : ℕ} :
    ofDigitChars 10 s = some n ↔ s.all Char.isDigit = true ∧ Nat.ofDigitChars 10 s 0 = n := by
  constructor
  · intro h
    have hall : ∀ c ∈ s, c.isDigit = true := by
      unfold ofDigitChars at h
      generalize 0 = acc at h
      induction s generalizing acc with
      | nil => simp
      | cons c s ih =>
          rw [List.foldlM_cons] at h
          obtain ⟨next, hnext, h⟩ := Option.bind_eq_some_iff.mp h
          obtain ⟨v, hv, rfl⟩ := Option.map_eq_some_iff.mp hnext
          exact List.forall_mem_cons.mpr ⟨isDigit_of_digitValue hv, ih _ h⟩
    refine ⟨List.all_eq_true.mpr hall, ?_⟩
    exact Option.some.inj ((foldlM_digitValue hall 0).symm.trans h)
  · rintro ⟨hall, rfl⟩
    exact foldlM_digitValue (List.all_eq_true.mp hall) 0

/-- **What an unsigned integer is read from.** -/
theorem parseUnsigned_eq_some {bound n : ℕ} {s : Str} :
    parseUnsigned bound s = some n ↔ IsDecimal (unsigned s) n ∧ n ≤ bound := by
  unfold parseUnsigned fromStrRadix
  dsimp only
  change (if unsigned s = [] then none else (ofDigitChars 10 (unsigned s)).filter (· ≤ bound)) =
    some n ↔ _
  by_cases hnil : unsigned s = []
  · rw [if_pos hnil]
    exact iff_of_false (by simp) fun h => h.1.1 hnil
  · rw [if_neg hnil, Option.filter_eq_some_iff, ofDigitChars_eq_some, decide_eq_true_eq, IsDecimal,
      and_iff_right hnil]

/-- Digits carry no sign. -/
theorem IsDecimal.unsigned_eq {s : Str} {n : ℕ} (h : IsDecimal s n) : unsigned s = s := by
  refine if_neg fun hplus => ?_
  exact absurd (List.all_eq_true.mp h.2.1 '+' (List.mem_of_head? hplus)) (by decide)

theorem IsDecimal.not_mem {s : Str} {n : ℕ} (h : IsDecimal s n) {c : Char}
    (hc : c.isDigit = false) :
    c ∉ s := by
  intro hmem
  rw [List.all_eq_true.mp h.2.1 c hmem] at hc
  cases hc

/-- **What a positive signed integer is read from.** -/
theorem parseI64_eq_some {s : Str} {n : ℤ} (h : 1 ≤ n) :
    parseI64 s = some n ↔ ∃ m : ℕ, n = m ∧ IsDecimal (unsigned s) m ∧ m ≤ 2 ^ 63 - 1 := by
  unfold parseI64
  by_cases hminus : s.head? = some '-'
  · rw [if_pos hminus]
    refine iff_of_false (fun hread => ?_) ?_
    · split at hread
      · cases hread
      · obtain ⟨m, hm, rfl⟩ := Option.map_eq_some_iff.mp hread
        obtain ⟨k, -, hk⟩ := Option.bind_eq_some_iff.mp hm
        cases hk
        omega
    · rintro ⟨m, -, hm, -⟩
      have hsame : unsigned s = s := if_neg (by rw [hminus]; decide)
      rw [hsame] at hm
      exact hm.not_mem (by decide) (List.mem_of_head? hminus)
  · rw [if_neg hminus]
    constructor
    · intro hread
      obtain ⟨m, hm, rfl⟩ := Option.map_eq_some_iff.mp hread
      obtain ⟨k, hk, hpure⟩ := Option.bind_eq_some_iff.mp hm
      cases hpure
      exact ⟨k, rfl, parseUnsigned_eq_some.mp hk⟩
    · rintro ⟨m, rfl, hm⟩
      rw [show fromStrRadix 10 (2 ^ 63 - 1) s = some m from parseUnsigned_eq_some.mpr hm]
      rfl

/-- **A padded number** is digits for itself. -/
theorem isDecimal_padZeros (width n : ℕ) : IsDecimal (padZeros width (natToStr n)) n := by
  refine ⟨?_, ?_, ?_⟩
  · intro hnil
    exact natToStr_ne_nil n (List.append_eq_nil_iff.mp hnil).2
  · rw [padZeros, List.all_append, Bool.and_eq_true]
    refine ⟨List.all_eq_true.mpr fun c hc => ?_, List.all_eq_true.mpr fun c =>
      isDigit_of_mem_natToStr⟩
    rw [List.eq_of_mem_replicate hc]
    rfl
  · unfold padZeros
    induction width - (natToStr n).length with
    | zero => exact Nat.ofDigitChars_toDigits (by decide) (by decide)
    | succ k ih => rwa [List.replicate_succ, List.cons_append, Nat.ofDigitChars_cons]

end ObbyClient

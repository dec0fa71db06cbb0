import Mathlib

/-!
# Text as a list of characters

A UTF-8 string slice is a sequence of Unicode scalar values, and that is what `Str` is: a list of
Lean characters.  This file has the string operations a line protocol is written with, each with the
few facts a proof about a parser needs:

* `flatMap_eq_of_unique` — lists in which one element alone yields anything;
* `splitOnce` — cut at the first separator, over any alphabet;
* `trimEndCrLf`, `trimStartSpaces` — trimming at either end;
* `eqIgnoreAsciiCase`, `toAsciiUppercase` — ASCII case, which leaves every other character alone;
* `splitWhitespace` — Unicode white space as the separator;
* `fromStrRadix`, `parseI64` — integers with an optional sign and a bound.

Nothing here knows about any protocol.
-/

namespace ObbyClient

/-- A string: its Unicode scalar values, in order. -/
abbrev Str := List Char

/-- A byte string. -/
abbrev Bytes := List UInt8

/-- String literals stand for their characters. -/
instance : Coe String Str := ⟨String.toList⟩

instance : LawfulBEq Str := inferInstance

instance : LawfulBEq (Option Str) := inferInstance

/-! ### Lists with one element of a kind -/

/-- Of a list in which one element alone yields anything, what that one yields. -/
theorem flatMap_eq_of_unique {α β : Type} {l : List α} {f : α → List β} {a : α} (hmem : a ∈ l)
    (hnodup : l.Nodup) (hother : ∀ b ∈ l, b ≠ a → f b = []) : l.flatMap f = f a := by
  obtain ⟨s, t, rfl⟩ := List.append_of_mem hmem
  have hparts := List.nodup_append.mp hnodup
  have hs : s.flatMap f = [] := by
    rw [List.flatMap_eq_nil_iff]
    intro b hb
    exact hother b (List.mem_append_left _ hb) (hparts.2.2 b hb a List.mem_cons_self)
  have ht : t.flatMap f = [] := by
    rw [List.flatMap_eq_nil_iff]
    intro b hb
    refine hother b (List.mem_append_right _ (List.mem_cons_of_mem _ hb)) ?_
    intro heq
    exact (List.nodup_cons.mp hparts.2.1).1 (heq ▸ hb)
  rw [List.flatMap_append, List.flatMap_cons, hs, ht, List.nil_append, List.append_nil]

/-! ### Cutting at a separator -/

/-- Cut at the first `sep`, dropping it; `none` when there is none. -/
def splitOnce {α : Type*} [DecidableEq α] (sep : α) : List α → Option (List α × List α)
  | [] => none
  | c :: cs => if c = sep then some ([], cs) else (splitOnce sep cs).map fun p => (c :: p.1, p.2)

section SplitOnce

variable {α : Type*} [DecidableEq α] {sep : α}

@[simp] theorem splitOnce_nil : splitOnce sep [] = none := rfl

@[simp] theorem splitOnce_cons_self (cs : List α) : splitOnce sep (sep :: cs) = some ([], cs) := by
  simp [splitOnce]

theorem splitOnce_cons_ne {c : α} (h : c ≠ sep) (cs : List α) :
    splitOnce sep (c :: cs) = (splitOnce sep cs).map fun p => (c :: p.1, p.2) := by
  simp [splitOnce, h]

/-- A separator-free prefix is passed over whole. -/
theorem splitOnce_append {a : List α} (h : sep ∉ a) (b : List α) :
    splitOnce sep (a ++ b) = (splitOnce sep b).map fun p => (a ++ p.1, p.2) := by
  induction a with
  | nil => cases hb : splitOnce sep b <;> simp [hb]
  | cons c cs ih =>
      rw [List.mem_cons, not_or] at h
      rw [List.cons_append, splitOnce_cons_ne (Ne.symm h.1), ih h.2, Option.map_map]
      rfl

theorem splitOnce_append_sep {a : List α} (h : sep ∉ a) (b : List α) :
    splitOnce sep (a ++ sep :: b) = some (a, b) := by
  rw [splitOnce_append h]
  simp

theorem splitOnce_eq_none {s : List α} : splitOnce sep s = none ↔ sep ∉ s := by
  induction s with
  | nil => simp
  | cons c cs ih =>
      by_cases hc : c = sep
      · subst hc
        simp
      · rw [splitOnce_cons_ne hc, Option.map_eq_none_iff, ih, List.mem_cons, not_or]
        exact ⟨fun h => ⟨Ne.symm hc, h⟩, fun h => h.2⟩

/-- What a cut says about the list that was cut. -/
theorem splitOnce_eq_some {s a b : List α} :
    splitOnce sep s = some (a, b) ↔ s = a ++ sep :: b ∧ sep ∉ a := by
  constructor
  · intro h
    induction s generalizing a with
    | nil => simp at h
    | cons c cs ih =>
        by_cases hc : c = sep
        · subst hc
          rw [splitOnce_cons_self, Option.some.injEq, Prod.mk.injEq] at h
          obtain ⟨rfl, rfl⟩ := h
          simp
        · rw [splitOnce_cons_ne hc, Option.map_eq_some_iff] at h
          obtain ⟨⟨a', b'⟩, hp, heq⟩ := h
          rw [Prod.mk.injEq] at heq
          obtain ⟨rfl, rfl⟩ := heq
          obtain ⟨rfl, hmem⟩ := ih hp
          refine ⟨rfl, ?_⟩
          rw [List.mem_cons, not_or]
          exact ⟨Ne.symm hc, hmem⟩
  · rintro ⟨rfl, hmem⟩
    exact splitOnce_append_sep hmem b

theorem splitOnce_length_lt {s a b : List α} (h : splitOnce sep s = some (a, b)) :
    b.length < s.length := by
  obtain ⟨rfl, -⟩ := splitOnce_eq_some.mp h
  simp only [List.length_append, List.length_cons]
  omega

end SplitOnce

/-! ### Cutting at every separator, and joining again -/

section SplitOn

variable {α : Type*} {sep : α}

theorem not_mem_of_mem_splitOn [DecidableEq α] {s part : List α} (h : part ∈ s.splitOn sep) :
    sep ∉ part := by
  induction s generalizing part with
  | nil =>
      rw [List.splitOn_nil, List.mem_singleton] at h
      subst h
      exact List.not_mem_nil
  | cons c cs ih =>
      rw [List.splitOn_cons_eq_if_modifyHead] at h
      split at h
      · rcases List.mem_cons.mp h with rfl | h
        · exact List.not_mem_nil
        · exact ih h
      · rename_i hc
        rw [beq_iff_eq] at hc
        cases hp : cs.splitOn sep with
        | nil => exact absurd hp (List.splitOn_ne_nil sep cs)
        | cons first rest =>
            rw [hp, List.modifyHead_cons] at h
            rcases List.mem_cons.mp h with rfl | h
            · have hfirst : sep ∉ first := ih (hp ▸ List.mem_cons_self)
              rw [List.mem_cons, not_or]
              exact ⟨Ne.symm hc, hfirst⟩
            · exact ih (hp ▸ List.mem_cons_of_mem _ h)

theorem mem_intercalate {parts : List (List α)} {c : α}
    (h : c ∈ List.intercalate [sep] parts) : c = sep ∨ ∃ part ∈ parts, c ∈ part := by
  induction parts with
  | nil => simp at h
  | cons part parts ih =>
      cases parts with
      | nil => exact Or.inr ⟨part, List.mem_singleton_self _, by simpa using h⟩
      | cons next parts =>
          rw [List.intercalate_cons_cons, List.mem_append, List.mem_append] at h
          rcases h with (h | h) | h
          · exact Or.inr ⟨part, List.mem_cons_self, h⟩
          · exact Or.inl (List.mem_singleton.mp h)
          · refine (ih h).imp_right ?_
            rintro ⟨q, hq, hc⟩
            exact ⟨q, List.mem_cons_of_mem _ hq, hc⟩

theorem subset_intercalate {parts : List (List α)} {part : List α} (h : part ∈ parts) :
    part ⊆ List.intercalate [sep] parts := by
  induction parts with
  | nil => simp at h
  | cons first parts ih =>
      intro c hc
      cases parts with
      | nil =>
          rw [List.mem_singleton.mp h] at hc
          simpa using hc
      | cons next parts =>
          rw [List.intercalate_cons_cons, List.mem_append, List.mem_append]
          rcases List.mem_cons.mp h with rfl | h
          · exact Or.inl (Or.inl hc)
          · exact Or.inr (ih h hc)

theorem subset_of_mem_splitOn [DecidableEq α] {s part : List α} (h : part ∈ s.splitOn sep) :
    part ⊆ s := by
  have hsub : part ⊆ [sep].intercalate (s.splitOn sep) := subset_intercalate h
  rwa [List.intercalate_splitOn] at hsub

end SplitOn

/-! ### Trimming -/

/-- True for a carriage return or a line feed. -/
def isCrLf (c : Char) : Bool := c == '\r' || c == '\n'

/-- The end of a line. -/
def crlf : Str := ['\r', '\n']

/-- Drop every trailing carriage return and line feed. -/
def trimEndCrLf (s : Str) : Str := s.rdropWhile isCrLf

/-- Drop every leading space. -/
def trimStartSpaces (s : Str) : Str := s.dropWhile (· == ' ')

/-- No carriage return and no line feed. -/
def NoCrLf (s : Str) : Prop := '\r' ∉ s ∧ '\n' ∉ s

instance (s : Str) : Decidable (NoCrLf s) := inferInstanceAs (Decidable (_ ∧ _))

theorem noCrLf_iff (s : Str) : NoCrLf s ↔ ∀ c ∈ s, isCrLf c = false := by
  simp only [NoCrLf, isCrLf, Bool.or_eq_false_iff, beq_eq_false_iff_ne]
  constructor
  · rintro ⟨h₁, h₂⟩ c hc
    exact ⟨fun h => h₁ (h ▸ hc), fun h => h₂ (h ▸ hc)⟩
  · intro h
    exact ⟨fun hc => (h _ hc).1 rfl, fun hc => (h _ hc).2 rfl⟩

@[simp] theorem noCrLf_nil : NoCrLf [] := ⟨by simp, by simp⟩

@[simp] theorem noCrLf_append (a b : Str) : NoCrLf (a ++ b) ↔ NoCrLf a ∧ NoCrLf b := by
  simp only [NoCrLf, List.mem_append, not_or]
  tauto

@[simp] theorem noCrLf_cons (c : Char) (s : Str) :
    NoCrLf (c :: s) ↔ (c ≠ '\r' ∧ c ≠ '\n') ∧ NoCrLf s := by
  simp only [NoCrLf, List.mem_cons, not_or, ne_eq]
  constructor
  · rintro ⟨⟨h₁, h₂⟩, h₃, h₄⟩
    exact ⟨⟨fun h => h₁ h.symm, fun h => h₃ h.symm⟩, h₂, h₄⟩
  · rintro ⟨⟨h₁, h₂⟩, h₃, h₄⟩
    exact ⟨⟨fun h => h₁ h.symm, h₃⟩, fun h => h₂ h.symm, h₄⟩

/-- Trimming the line ending off a line that has none other leaves the line. -/
theorem trimEndCrLf_append {s : Str} (h : NoCrLf s) (e : Str) (he : ∀ c ∈ e, isCrLf c = true) :
    trimEndCrLf (s ++ e) = s := by
  unfold trimEndCrLf List.rdropWhile
  rw [List.reverse_append, List.dropWhile_append_of_pos (by simpa using he)]
  rw [List.dropWhile_eq_self_iff.mpr, List.reverse_reverse]
  intro hl
  rw [Bool.not_eq_true]
  exact (noCrLf_iff s).mp h _ (List.mem_reverse.mp (List.getElem_mem _))

/-- What ends in no line break stands as it is. -/
theorem trimEndCrLf_self {s : Str} (h : NoCrLf s) : trimEndCrLf s = s := by
  have hnone := trimEndCrLf_append h [] (by simp)
  rwa [List.append_nil] at hnone

theorem trimEndCrLf_append_crlf {s : Str} (h : NoCrLf s) : trimEndCrLf (s ++ crlf) = s :=
  trimEndCrLf_append h crlf (by simp [crlf, isCrLf])

theorem trimEndCrLf_prefix (s : Str) : trimEndCrLf s <+: s := List.rdropWhile_prefix isCrLf s

theorem trimStartSpaces_cons_ne {c : Char} (h : c ≠ ' ') (s : Str) :
    trimStartSpaces (c :: s) = c :: s := by
  simp [trimStartSpaces, h]

@[simp] theorem trimStartSpaces_nil : trimStartSpaces [] = [] := rfl

@[simp] theorem trimStartSpaces_space (s : Str) :
    trimStartSpaces (' ' :: s) = trimStartSpaces s := by
  simp [trimStartSpaces]

theorem trimStartSpaces_suffix (s : Str) : trimStartSpaces s <:+ s := List.dropWhile_suffix _

theorem trimStartSpaces_length_le (s : Str) : (trimStartSpaces s).length ≤ s.length :=
  (trimStartSpaces_suffix s).length_le

/-! ### ASCII case -/

/-- Uppercase the ASCII letters and leave every other character alone. -/
def toAsciiUppercase (s : Str) : Str := s.map Char.toUpper

/-- Lowercase the ASCII letters and leave every other character alone. -/
def toAsciiLowercase (s : Str) : Str := s.map Char.toLower

/-- Equal but for the case of ASCII letters. -/
def eqIgnoreAsciiCase (a b : Str) : Bool := toAsciiLowercase a == toAsciiLowercase b

/-- Words that are equal but for their case are equal in uppercase. -/
theorem toAsciiUppercase_of_eq {a b : Str} (h : eqIgnoreAsciiCase a b = true) :
    toAsciiUppercase a = toAsciiUppercase b := by
  have hlower : ∀ s : Str, toAsciiUppercase s = (toAsciiLowercase s).map Char.toUpper := by
    intro s
    unfold toAsciiUppercase toAsciiLowercase
    rw [List.map_map]
    refine List.map_congr_left fun c _ => ?_
    exact (Char.toUpper_toLower_eq_toUpper c).symm
  rw [hlower a, hlower b, beq_iff_eq.mp h]

/-! ### White space -/

/-- The Unicode `White_Space` property. -/
def isWhitespace (c : Char) : Bool :=
  let n := c.toNat
  (9 ≤ n && n ≤ 13) || n == 0x20 || n == 0x85 || n == 0xA0 || n == 0x1680 ||
    (0x2000 ≤ n && n ≤ 0x200A) || n == 0x2028 || n == 0x2029 || n == 0x202F || n == 0x205F ||
    n == 0x3000

/-- The non-empty pieces between white space. -/
def splitWhitespace (s : Str) : List Str := (s.splitOnP isWhitespace).filter (· ≠ [])

/-! ### Integers -/

/-- The largest unsigned 64-bit value. -/
def u64Max : ℕ := 2 ^ 64 - 1

/-- The largest unsigned 32-bit value. -/
def u32Max : ℕ := 2 ^ 32 - 1

/-- Addition that stops at the largest 64-bit value. -/
def satAdd64 (a b : ℕ) : ℕ := min (a + b) u64Max

/-- Addition that stops at the largest 32-bit value. -/
def satAdd32 (a b : ℕ) : ℕ := min (a + b) u32Max

/-- The value of one digit in a radix of at most sixteen. -/
def digitValue (radix : ℕ) (c : Char) : Option ℕ :=
  let v :=
    if '0' ≤ c ∧ c ≤ '9' then some (c.toNat - '0'.toNat)
    else if 'a' ≤ c ∧ c ≤ 'f' then some (c.toNat - 'a'.toNat + 10)
    else if 'A' ≤ c ∧ c ≤ 'F' then some (c.toNat - 'A'.toNat + 10)
    else none
  v.filter (· < radix)

/-- The value of a run of digits, `none` at the first character that is not one. -/
def ofDigitChars (radix : ℕ) (s : Str) : Option ℕ :=
  s.foldlM (fun acc c => (digitValue radix c).map (acc * radix + ·)) 0

/-- An unsigned integer of at most `bound`: one optional `+`, then at least one digit. -/
def fromStrRadix (radix bound : ℕ) (s : Str) : Option ℕ :=
  let digits := if s.head? = some '+' then s.tail else s
  if digits = [] then none else (ofDigitChars radix digits).filter (· ≤ bound)

/-- An unsigned decimal integer of at most `bound`. -/
def parseUnsigned (bound : ℕ) (s : Str) : Option ℕ := fromStrRadix 10 bound s

/-- A signed 64-bit decimal integer. -/
def parseI64 (s : Str) : Option ℤ :=
  if s.head? = some '-' then
    if s.tail.head? = some '+' then none
    else (fromStrRadix 10 (2 ^ 63) s.tail).map fun n => -(n : ℤ)
  else (fromStrRadix 10 (2 ^ 63 - 1) s).map fun n => (n : ℤ)

/-- The decimal digits of a natural number. -/
def natToStr (n : ℕ) : Str := Nat.toDigits 10 n

/-- At least `width` characters, filled with zeros on the left. -/
def padZeros (width : ℕ) (s : Str) : Str := List.replicate (width - s.length) '0' ++ s

end ObbyClient

import Mathlib.Data.List.Basic
import Mathlib.Data.List.Infix

/-!
# Words that stand alone

A word stands alone in a text where it occurs with no character of a word right before it and none
right after.  An occurrence that does not stand alone may be passed over whole: whatever begins
inside it begins after a character of a word.
-/

namespace ObbyClient

variable {α : Type*} (inWord : α → Bool)

/-- The word occurs with no character of a word on either side; `prev` stands before the text. -/
def Alone (prev : Option α) (needle text : List α) : Prop :=
  ∃ before after, text = before ++ needle ++ after ∧
    (before.getLast?.or prev).any inWord = false ∧ after.head?.any inWord = false

variable {inWord} {prev : Option α} {needle : List α}

theorem not_alone_nil (hneedle : needle ≠ []) : ¬ Alone inWord prev needle [] := by
  rintro ⟨before, after, h, -⟩
  exact hneedle (List.append_eq_nil_iff.mp (List.append_eq_nil_iff.mp h.symm).1).2

theorem getLast?_cons_or (c : α) (before : List α) (prev : Option α) :
    (c :: before).getLast?.or prev = before.getLast?.or (some c) := by
  rw [List.getLast?_cons]
  cases before.getLast? with
  | none => rfl
  | some last => rfl

/-- Where no occurrence begins, one may look a character further on. -/
theorem alone_cons {c : α} {rest : List α} (h : ¬ needle <+: c :: rest) :
    Alone inWord prev needle (c :: rest) ↔ Alone inWord (some c) needle rest := by
  constructor
  · rintro ⟨before, after, heq, hbefore, hafter⟩
    cases before with
    | nil => exact absurd ⟨after, heq.symm⟩ h
    | cons c' before =>
      obtain ⟨rfl, hrest⟩ := List.cons.inj heq
      rw [getLast?_cons_or] at hbefore
      exact ⟨before, after, hrest, hbefore, hafter⟩
  · rintro ⟨before, after, rfl, hbefore, hafter⟩
    refine ⟨c :: before, after, rfl, ?_, hafter⟩
    rwa [getLast?_cons_or]

/-- An occurrence that begins inside a word begins after a character of it. -/
theorem not_inside {before piece : List α} (hword : ∀ c ∈ needle, inWord c = true)
    (hpiece : needle = before ++ piece) (hbefore : before ≠ []) :
    (before.getLast?.or prev).any inWord = true := by
  have hlast := List.getLast?_eq_some_getLast hbefore
  rw [hlast, Option.some_or, Option.any_some]
  refine hword _ ?_
  rw [hpiece]
  exact List.mem_append_left _ (List.getLast_mem hbefore)

/-- **At an occurrence**: it stands alone, or one may look on from behind it. -/
theorem alone_append {rest : List α} (hneedle : needle ≠ [])
    (hword : ∀ c ∈ needle, inWord c = true) :
    Alone inWord prev needle (needle ++ rest) ↔
      (prev.any inWord = false ∧ rest.head?.any inWord = false) ∨
        Alone inWord needle.getLast? needle rest := by
  constructor
  · rintro ⟨before, after, heq, hbefore, hafter⟩
    by_cases hnil : before = []
    · subst hnil
      obtain rfl : rest = after := List.append_cancel_left heq
      exact .inl ⟨hbefore, hafter⟩
    rw [List.append_assoc] at heq
    obtain ⟨piece, rfl, hrest⟩ | ⟨piece, hpiece, -⟩ := List.append_eq_append_iff.mp heq
    · -- it begins behind the first occurrence
      refine .inr ⟨piece, after, ?_, ?_, hafter⟩
      · rw [hrest, List.append_assoc]
      · rw [List.getLast?_append] at hbefore
        have hlast := List.getLast?_eq_some_getLast hneedle
        rw [hlast] at hbefore ⊢
        rwa [Option.or_assoc, Option.some_or] at hbefore
    · -- it begins inside it
      rw [not_inside hword hpiece hnil] at hbefore
      cases hbefore
  · rintro (⟨hprev, hafter⟩ | ⟨before, after, rfl, hbefore, hafter⟩)
    · exact ⟨[], rest, rfl, hprev, hafter⟩
    · have hsplit : needle ++ (before ++ needle ++ after) =
          needle ++ before ++ needle ++ after := by
        rw [List.append_assoc, List.append_assoc, List.append_assoc]
      refine ⟨needle ++ before, after, hsplit, ?_, hafter⟩
      have hlast := List.getLast?_eq_some_getLast hneedle
      rw [List.getLast?_append, Option.or_assoc, hlast, Option.some_or]
      rwa [hlast] at hbefore

end ObbyClient

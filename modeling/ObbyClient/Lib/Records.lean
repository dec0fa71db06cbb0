import Mathlib.Data.Set.Basic

/-!
# Records under names that are given once

A store holds records in slots.  A change may move records, revise them, drop them, and take in new
ones under names that were not given before.

* `Shelf`, `Sound` — a store, and that no two of its records have one name;
* `Follows` — what a change does, and with `Follows.trans` any number of them;
* `Follows.revised` — whatever has the name of an earlier record is that record, revised;
* `Follows.gone` — a name that nothing has any more is never had again.
-/

namespace ObbyClient.Records

/-- Records in slots, and the names that were given. -/
structure Shelf (ι α ν : Type*) where
  held : ι → Option α
  given : Set ν

variable {ι α ν : Type*} (name : α → ν) (revises : α → α → Prop)

/-- Every name was given, and to one record. -/
structure Sound (s : Shelf ι α ν) : Prop where
  given : ∀ {i a}, s.held i = some a → name a ∈ s.given
  apart : ∀ {i j a b}, s.held i = some a → s.held j = some b → name a = name b → i = j

/-- A later state of a store: what it holds was there, in one slot or another, or has a new name. -/
structure Follows (s s' : Shelf ι α ν) : Prop where
  given : s.given ⊆ s'.given
  origin : ∃ origin : ι → ι, Function.Injective origin ∧ ∀ i a, s'.held i = some a →
    name a ∉ s.given ∨ ∃ b, s.held (origin i) = some b ∧ revises b a
  named : ∀ {i a}, s'.held i = some a → name a ∉ s.given → name a ∈ s'.given
  apart : ∀ {i j a b}, s'.held i = some a → s'.held j = some b → name a ∉ s.given →
    name a = name b → i = j

namespace Follows

variable {name revises} {s s' s'' : Shelf ι α ν}

/-- A change that takes one record in. -/
theorem of_new (hrefl : ∀ a, revises a a) (hsound : Sound name s) (hgiven : s.given ⊆ s'.given)
    {i : ι} {a : α}
    (hnew : name a ∉ s.given) (hnamed : name a ∈ s'.given)
    (hheld : ∀ j b, s'.held j = some b → (j = i ∧ b = a) ∨ s.held j = some b) :
      Follows name revises s s' := by
  have hfresh : ∀ {j b}, s'.held j = some b → name b ∉ s.given → j = i ∧ b = a := by
    intro j b hb hnone
    obtain hat | hb := hheld j b hb
    · exact hat
    · exact absurd (hsound.given hb) hnone
  refine ⟨hgiven, ⟨id, Function.injective_id, ?_⟩, ?_, ?_⟩
  · intro j b hb
    obtain ⟨-, rfl⟩ | hb := hheld j b hb
    · exact Or.inl hnew
    · exact Or.inr ⟨b, hb, hrefl b⟩
  · intro j b hb hnone
    obtain ⟨-, rfl⟩ := hfresh hb hnone
    exact hnamed
  · intro j k b c hb hc hnone heq
    obtain ⟨hj, -⟩ := hfresh hb hnone
    rw [heq] at hnone
    obtain ⟨hk, -⟩ := hfresh hc hnone
    exact hj.trans hk.symm

variable (hname : ∀ {a b}, revises a b → name b = name a)
include hname

/-- A change that takes no record in. -/
theorem of_origin (hsound : Sound name s) (hgiven : s.given ⊆ s'.given) {origin : ι → ι}
    (hinjective : Function.Injective origin)
    (horigin : ∀ i a, s'.held i = some a → ∃ b, s.held (origin i) = some b ∧ revises b a) :
    Follows name revises s s' := by
  have hold : ∀ {i a}, s'.held i = some a → name a ∈ s.given := by
    intro i a ha
    obtain ⟨b, hb, hba⟩ := horigin i a ha
    rw [hname hba]
    exact hsound.given hb
  exact ⟨hgiven, ⟨origin, hinjective, fun i a ha => Or.inr (horigin i a ha)⟩,
    fun ha hnew => absurd (hold ha) hnew, fun ha _ hnew _ => absurd (hold ha) hnew⟩

/-- **One change after another.** -/
theorem trans (htrans : ∀ {a b c}, revises a b → revises b c → revises a c)
    (h : Follows name revises s s')
    (h' : Follows name revises s' s'') : Follows name revises s s'' := by
  obtain ⟨origin, hinjective, horigin⟩ := h.origin
  obtain ⟨origin', hinjective', horigin'⟩ := h'.origin
  -- what has a name that was not given at first is new to the first change or to the second
  have hnamed : ∀ {i a}, s''.held i = some a → name a ∉ s.given → name a ∈ s''.given := by
    intro i a ha hnew
    by_cases hgiven : name a ∈ s'.given
    · exact h'.given hgiven
    · exact h'.named ha hgiven
  refine ⟨h.given.trans h'.given, ⟨origin ∘ origin', hinjective.comp hinjective', ?_⟩, hnamed, ?_⟩
  · intro i a ha
    obtain hnew | ⟨b, hb, hba⟩ := horigin' i a ha
    · exact Or.inl fun hgiven => hnew (h.given hgiven)
    · obtain hnew | ⟨c, hc, hcb⟩ := horigin (origin' i) b hb
      · left
        rwa [hname hba]
      · exact Or.inr ⟨c, hc, htrans hcb hba⟩
  · intro i j a b ha hb hnew heq
    by_cases hgiven : name a ∈ s'.given
    · obtain hnew' | ⟨c, hc, hca⟩ := horigin' i a ha
      · exact absurd hgiven hnew'
      obtain hnew' | ⟨d, hd, hdb⟩ := horigin' j b hb
      · rw [heq] at hgiven
        exact absurd hgiven hnew'
      rw [hname hca] at hnew
      rw [hname hca, hname hdb] at heq
      exact hinjective' (h.apart hc hd hnew heq)
    · exact h'.apart ha hb hgiven heq

/-- No change gives a name twice. -/
theorem sound (h : Follows name revises s s') (hsound : Sound name s) : Sound name s' := by
  obtain ⟨origin, hinjective, horigin⟩ := h.origin
  have hgiven : ∀ {i a}, s'.held i = some a → name a ∈ s'.given := by
    intro i a ha
    by_cases hgiven : name a ∈ s.given
    · exact h.given hgiven
    · exact h.named ha hgiven
  refine ⟨hgiven, ?_⟩
  intro i j a b ha hb heq
  by_cases hold : name a ∈ s.given
  · obtain hnew | ⟨c, hc, hca⟩ := horigin i a ha
    · exact absurd hold hnew
    obtain hnew | ⟨d, hd, hdb⟩ := horigin j b hb
    · rw [heq] at hold
      exact absurd hold hnew
    rw [hname hca, hname hdb] at heq
    exact hinjective (hsound.apart hc hd heq)
  · exact h.apart ha hb hold heq

/-- **One name, one record.** -/
theorem revised (h : Follows name revises s s') (hsound : Sound name s) {i j : ι} {a b : α}
    (ha : s.held i = some a) (hb : s'.held j = some b) (heq : name b = name a) : revises a b := by
  obtain ⟨origin, -, horigin⟩ := h.origin
  obtain hnew | ⟨c, hc, hcb⟩ := horigin j b hb
  · rw [heq] at hnew
    exact absurd (hsound.given ha) hnew
  · obtain rfl := hsound.apart ha hc (heq.symm.trans (hname hcb))
    obtain rfl := Option.some.inj (ha.symm.trans hc)
    exact hcb

/-- **What is gone stays gone.** -/
theorem gone (h : Follows name revises s s') {n : ν} (hgiven : n ∈ s.given)
    (hnone : ∀ i a, s.held i = some a → name a ≠ n) {j : ι} {b : α} (hb : s'.held j = some b) :
      name b ≠ n := by
  obtain ⟨origin, -, horigin⟩ := h.origin
  obtain hnew | ⟨c, hc, hcb⟩ := horigin j b hb
  · intro heq
    rw [heq] at hnew
    exact hnew hgiven
  · rw [hname hcb]
    exact hnone _ c hc

end Follows

end ObbyClient.Records

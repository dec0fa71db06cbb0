import Mathlib

/-!
# What can be made of what is known

Things that are made of other things by rules.  Where each thing is made in one way only, and never
of itself, whoever comes to have a thing had one of its forebears to begin with.

* `Made`, `Made.exists_forebear`, `Made.through` — the closure of what is known under the rules;
* `Lineage` — one parent for each thing, and no thing its own forebear;
* `Apart` — a store in which nothing comes of anything else;
* `Passes` — what becomes of a store as things are thrown away, put elsewhere and used to make
  others.
-/

namespace ObbyClient

section Made

variable {α : Type*} {rule : List α → α → Prop} {parent : α → α → Prop} {known : Set α}

/-- What can be made of what is known. -/
inductive Made (rule : List α → α → Prop) (known : Set α) : α → Prop where
  | known {a : α} : a ∈ known → Made rule known a
  | rule {parts : List α} {a : α} : rule parts a → (∀ p ∈ parts, Made rule known p) →
      Made rule known a

/-- **Who comes to have a thing had a forebear of it**, along any line that goes through a part of
everything made. -/
theorem Made.exists_forebear (hline : ∀ parts a, rule parts a → ∃ p ∈ parts, parent p a) {a : α}
    (h : Made rule known a) : ∃ b ∈ known, Relation.ReflTransGen parent b a := by
  induction h with
  | known hmem => exact ⟨_, hmem, Relation.ReflTransGen.refl⟩
  | rule hrule _ ih =>
    obtain ⟨p, hp, hparent⟩ := hline _ _ hrule
    obtain ⟨b, hb, hleads⟩ := ih p hp
    exact ⟨b, hb, hleads.tail hparent⟩

/-- **Who comes to have a thing had something on the line to it, or all that the line starts from**,
where nothing on the line is made without what is before it. -/
theorem Made.through (hparent : ∀ p a, parent p a → ∀ parts, rule parts a → p ∈ parts) {a b : α}
    (hline : Relation.ReflTransGen parent a b) (h : Made rule known b) :
    (∃ c ∈ known, Relation.ReflTransGen parent a c ∧ Relation.ReflTransGen parent c b) ∨
      ∃ parts, rule parts a ∧ ∀ p ∈ parts, Made rule known p := by
  induction hline with
  | refl =>
    cases h with
    | known hmem => exact Or.inl ⟨a, hmem, Relation.ReflTransGen.refl, Relation.ReflTransGen.refl⟩
    | rule hrule hparts => exact Or.inr ⟨_, hrule, hparts⟩
  | tail hab hlast ih =>
    cases h with
    | known hmem => exact Or.inl ⟨_, hmem, hab.tail hlast, Relation.ReflTransGen.refl⟩
    | rule hrule hparts =>
      obtain ⟨c, hmem, hac, hcb⟩ | hall := ih (hparts _ (hparent _ _ hlast _ hrule))
      · exact Or.inl ⟨c, hmem, hac, hcb.tail hlast⟩
      · exact Or.inr hall

end Made

section Lineage

variable {α ι κ : Type*} {parent : α → α → Prop}

/-- Each thing has one parent at most, and no thing is a forebear of itself. -/
structure Lineage (parent : α → α → Prop) : Prop where
  unique {a b c : α} : parent a c → parent b c → a = b
  grounded : WellFounded parent

namespace Lineage

/-- Two forebears of a thing are of one line. -/
theorem comparable (h : Lineage parent) {a b c : α} (ha : Relation.ReflTransGen parent a c)
    (hb : Relation.ReflTransGen parent b c) :
    Relation.ReflTransGen parent a b ∨ Relation.ReflTransGen parent b a := by
  have hunique : Relator.RightUnique (Function.swap parent) := fun _ _ _ hx hy => h.unique hx hy
  have ha' := Relation.ReflTransGen.swap _ _ ha
  have hb' := Relation.ReflTransGen.swap _ _ hb
  obtain hab | hba := Relation.ReflTransGen.total_of_right_unique hunique ha' hb'
  · exact Or.inr (Relation.reflTransGen_swap.mp hab)
  · exact Or.inl (Relation.reflTransGen_swap.mp hba)

/-- No child leads to its parent. -/
theorem not_leads_parent (h : Lineage parent) {a b : α} (hparent : parent a b) :
    ¬ Relation.ReflTransGen parent b a := by
  intro hleads
  have hcycle : Relation.TransGen parent a a := Relation.TransGen.head' hparent hleads
  exact (h.grounded.transGen.irrefl).irrefl a hcycle

/-- Children of one parent are of two lines. -/
theorem siblings (h : Lineage parent) {a b c : α} (ha : parent c a) (hb : parent c b)
    (hne : a ≠ b) :
    ¬ Relation.ReflTransGen parent a b := by
  intro hleads
  obtain rfl | ⟨d, had, hdb⟩ := Relation.ReflTransGen.cases_tail hleads
  · exact hne rfl
  · obtain rfl := h.unique hdb hb
    exact h.not_leads_parent ha had

end Lineage

/-- Nothing in the store comes of anything else in it. -/
def Apart (parent : α → α → Prop) (held : ι → Option α) : Prop :=
  ∀ i j a b, i ≠ j → held i = some a → held j = some b → ¬ Relation.ReflTransGen parent a b

/-- One store comes of another: what it has was there or was made of what was there, and what was of
two lines still is. -/
structure Passes (parent : α → α → Prop) (held : ι → Option α) (later : κ → Option α) : Prop where
  from_held : ∀ j b, later j = some b → ∃ i a, held i = some a ∧ Relation.ReflTransGen parent a b
  apart : Apart parent held → Apart parent later

namespace Passes

variable {held : ι → Option α}

theorem refl (held : ι → Option α) : Passes parent held held where
  from_held j b hb := ⟨j, b, hb, Relation.ReflTransGen.refl⟩
  apart := id

theorem trans {μ : Type*} {later : κ → Option α} {last : μ → Option α}
    (h : Passes parent held later)
    (h' : Passes parent later last) : Passes parent held last where
  from_held k c hc := by
    obtain ⟨j, b, hb, hbc⟩ := h'.from_held k c hc
    obtain ⟨i, a, ha, hab⟩ := h.from_held j b hb
    exact ⟨i, a, ha, hab.trans hbc⟩
  apart := h'.apart ∘ h.apart

/-- **Where each thing came from one place**, only the things of one origin are to be told apart:
two things that led to one thing would be of one line. -/
theorem of_origin (lineage : Lineage parent) {later : κ → Option α} (origin : κ → ι)
    (hfrom : ∀ j b, later j = some b → ∃ a, held (origin j) = some a ∧
      Relation.ReflTransGen parent a b)
    (hsame : ∀ i j a b, i ≠ j → origin i = origin j → later i = some a → later j = some b →
      ¬ Relation.ReflTransGen parent a b) : Passes parent held later where
  from_held j b hb := by
    obtain ⟨a, ha, hab⟩ := hfrom j b hb
    exact ⟨origin j, a, ha, hab⟩
  apart h := by
    intro i j a b hij ha hb hleads
    by_cases horigin : origin i = origin j
    · exact hsame i j a b hij horigin ha hb hleads
    · obtain ⟨a₀, ha₀, hleads₀⟩ := hfrom i a ha
      obtain ⟨b₀, hb₀, hleads₁⟩ := hfrom j b hb
      obtain hab | hba := lineage.comparable (hleads₀.trans hleads) hleads₁
      · exact h _ _ _ _ horigin ha₀ hb₀ hab
      · exact h _ _ _ _ (Ne.symm horigin) hb₀ ha₀ hba

/-- Something may be thrown away. -/
theorem drop {later : ι → Option α} (hsub : ∀ i a, later i = some a → held i = some a) :
    Passes parent held later where
  from_held i a ha := ⟨i, a, hsub i a ha, Relation.ReflTransGen.refl⟩
  apart h := fun i j a b hij ha hb => h i j a b hij (hsub i a ha) (hsub j b hb)

variable [DecidableEq ι]

/-- Where a store got what it has, once something went to a place from another one. -/
def cameFrom (i j : ι) : ι → ι := Function.update id j i

theorem cameFrom_eq {i j k l : ι} (hkl : k ≠ l) (h : cameFrom i j k = cameFrom i j l) :
    k = i ∧ l = j ∨ k = j ∧ l = i := by
  unfold cameFrom at h
  by_cases hk : k = j
  · subst hk
    rw [Function.update_self, Function.update_of_ne (Ne.symm hkl)] at h
    exact Or.inr ⟨rfl, h.symm⟩
  · rw [Function.update_of_ne hk] at h
    by_cases hl : l = j
    · subst hl
      rw [Function.update_self] at h
      exact Or.inl ⟨h, rfl⟩
    · rw [Function.update_of_ne hl] at h
      exact absurd h hkl

/-- Something may be put elsewhere. -/
theorem move (lineage : Lineage parent) (held : ι → Option α) {i j : ι} (hij : i ≠ j) :
    Passes parent held (Function.update (Function.update held i none) j (held i)) := by
  apply of_origin lineage (cameFrom i j)
  · intro k b hb
    refine ⟨b, ?_, Relation.ReflTransGen.refl⟩
    unfold cameFrom
    by_cases hk : k = j
    · subst hk
      rw [Function.update_self] at hb ⊢
      exact hb
    · rw [Function.update_of_ne hk] at hb ⊢
      by_cases hk' : k = i
      · subst hk'
        rw [Function.update_self] at hb
        cases hb
      · rw [Function.update_of_ne hk'] at hb
        exact hb
  · intro k l a b hkl horigin ha hb
    obtain ⟨rfl, rfl⟩ | ⟨rfl, rfl⟩ := cameFrom_eq hkl horigin
    · rw [Function.update_of_ne hij, Function.update_self] at ha
      cases ha
    · rw [Function.update_of_ne hij, Function.update_self] at hb
      cases hb

/-- Something may give way to what was made of it. -/
theorem replace (lineage : Lineage parent) {i : ι} {a c : α} (hc : held i = some c)
    (ha : parent c a) :
    Passes parent held (Function.update held i (some a)) := by
  apply of_origin lineage id
  · intro k d hd
    by_cases hk : k = i
    · subst hk
      rw [Function.update_self] at hd
      obtain rfl := Option.some.inj hd
      exact ⟨c, hc, Relation.ReflTransGen.single ha⟩
    · rw [Function.update_of_ne hk] at hd
      exact ⟨d, hd, Relation.ReflTransGen.refl⟩
  · intro k l d e hkl horigin
    exact absurd horigin hkl

/-- Something may give way to what was made of it, in its place and in another. -/
theorem split (lineage : Lineage parent) (held : ι → Option α) {i j : ι} (hij : i ≠ j) {a b c : α}
    (hc : held i = some c) (ha : parent c a) (hb : parent c b) (hne : a ≠ b) :
    Passes parent held (Function.update (Function.update held i (some a)) j (some b)) := by
  apply of_origin lineage (cameFrom i j)
  · intro k d hd
    unfold cameFrom
    by_cases hk : k = j
    · subst hk
      rw [Function.update_self] at hd ⊢
      obtain rfl := Option.some.inj hd
      exact ⟨c, hc, Relation.ReflTransGen.single hb⟩
    · rw [Function.update_of_ne hk] at hd ⊢
      by_cases hk' : k = i
      · subst hk'
        rw [Function.update_self] at hd
        obtain rfl := Option.some.inj hd
        exact ⟨c, hc, Relation.ReflTransGen.single ha⟩
      · rw [Function.update_of_ne hk'] at hd
        exact ⟨d, hd, Relation.ReflTransGen.refl⟩
  · intro k l d e hkl horigin hd he
    obtain ⟨rfl, rfl⟩ | ⟨rfl, rfl⟩ := cameFrom_eq hkl horigin
    · rw [Function.update_of_ne hij, Function.update_self] at hd
      rw [Function.update_self] at he
      obtain rfl := Option.some.inj hd
      obtain rfl := Option.some.inj he
      exact lineage.siblings ha hb hne
    · rw [Function.update_of_ne hij, Function.update_self] at he
      rw [Function.update_self] at hd
      obtain rfl := Option.some.inj hd
      obtain rfl := Option.some.inj he
      exact lineage.siblings hb ha (Ne.symm hne)

end Passes

end Lineage

end ObbyClient

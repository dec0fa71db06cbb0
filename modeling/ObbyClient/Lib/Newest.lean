import Mathlib

/-!
# The newest of what was offered

Somebody keeps the newest few of the things they are offered.  Whatever order the things come in,
and however often, what is kept in the end is the newest few of them all.

* `newest` — the members of a set with few enough after them;
* `newest_union` — to drop before more is added as well as after it changes nothing;
* `foldl_newest` — so what is kept does not depend on the order;
* `newest_eq_of_ordered` — nor does the list of it, in the order of time.
-/

namespace ObbyClient.Newest

variable {α τ : Type*} [LinearOrder τ] (time : α → τ) (R : ℕ)

/-- What comes after something. -/
def later (s : Finset α) (a : α) : Finset α := s.filter fun b => time a < time b

/-- The newest of a set: those with fewer than `R` after them. -/
def newest (s : Finset α) : Finset α := s.filter fun a => (later time s a).card < R

@[simp] theorem mem_later {s : Finset α} {a b : α} : b ∈ later time s a ↔ b ∈ s ∧
    time a < time b := by
  simp only [later, Finset.mem_filter]

theorem mem_newest {s : Finset α} {a : α} : a ∈ newest time R s ↔ a ∈ s ∧
    (later time s a).card < R := by
  simp only [newest, Finset.mem_filter]

@[simp] theorem newest_empty : newest time R (∅ : Finset α) = ∅ := by
  simp [newest]

/-- Where there are no more than are kept, all are. -/
theorem newest_of_card_le {s : Finset α} (h : s.card ≤ R) : newest time R s = s := by
  refine Finset.filter_true_of_mem fun a ha => ?_
  have hlt : (later time s a).card < s.card := by
    refine Finset.card_lt_card (Finset.filter_ssubset.mpr ⟨a, ha, ?_⟩)
    simp
  omega

theorem later_mono {s t : Finset α} (h : s ⊆ t) (a : α) : later time s a ⊆ later time t a :=
  Finset.filter_subset_filter _ h

section Union

variable [DecidableEq α]

/-- **Nothing that was dropped matters.**  If as many are after something as are kept, then as many
of those that are kept are. -/
theorem card_later_lt {s t : Finset α} (hkept : ∀ a ∈ s, a ∉ t → R ≤ (later time s a).card) {a : α}
    (h : (later time t a).card < R) : (later time s a).card < R := by
  by_cases hall : later time s a ⊆ t
  · have heq : later time s a ⊆ later time t a := by
      intro b hb
      simp only [mem_later]
      exact ⟨hall hb, ((mem_later time).mp hb).2⟩
    have hcard := Finset.card_le_card heq
    omega
  · -- the last of those that were dropped: all that is after it was kept
    obtain ⟨b, hb, hbt⟩ := Finset.not_subset.mp hall
    have hne : ((later time s a).filter fun b => b ∉ t).Nonempty := ⟨b, by simp [hb, hbt]⟩
    obtain ⟨c, hc, hlast⟩ := Finset.exists_max_image _ time hne
    simp only [Finset.mem_filter, mem_later] at hc hlast
    have hafter : later time s c ⊆ later time t a := by
      intro d hd
      simp only [mem_later] at hd ⊢
      have hd' : time a < time d := lt_trans hc.1.2 hd.2
      refine ⟨?_, hd'⟩
      by_contra hdt
      exact absurd (hlast d ⟨⟨hd.1, hd'⟩, hdt⟩) (not_le.mpr hd.2)
    have hcard := Finset.card_le_card hafter
    have hdropped := hkept c hc.1.1 hc.2
    omega

/-- **To drop before more is added as well as after it** leaves the same as to drop after it
only. -/
theorem newest_union (s t : Finset α) : newest time R (newest time R s ∪ t) = newest time R
    (s ∪ t) := by
  have hsub : newest time R s ∪ t ⊆ s ∪ t :=
    Finset.union_subset_union_left (Finset.filter_subset _ _)
  have hkept : ∀ a ∈ s ∪ t, a ∉ newest time R s ∪ t → R ≤ (later time (s ∪ t) a).card := by
    intro a ha hnot
    simp only [Finset.mem_union, mem_newest, not_or, not_and, not_lt] at ha hnot
    have hcard := Finset.card_le_card (later_mono time (Finset.subset_union_left : s ⊆ s ∪ t) a)
    have hdropped := hnot.1 (ha.resolve_right hnot.2)
    omega
  ext a
  simp only [mem_newest]
  constructor
  · intro h
    exact ⟨hsub h.1, card_later_lt time R hkept h.2⟩
  · intro h
    have hcard := Finset.card_le_card (later_mono time hsub a)
    refine ⟨?_, by omega⟩
    by_contra hnot
    have hdropped := hkept a h.1 hnot
    omega

/-- To add one thing to what is kept. -/
theorem newest_insert (s : Finset α) (a : α) :
    newest time R (insert a (newest time R s)) = newest time R (insert a s) := by
  have h := newest_union time R s {a}
  simpa only [Finset.union_singleton] using h

/-- **Whatever the order**: to keep the newest of one thing after the other is to keep the newest of
all. -/
theorem foldl_newest (s : Finset α) (offered : List α) :
    offered.foldl (fun kept a => newest time R (insert a kept)) (newest time R s) =
      newest time R (s ∪ offered.toFinset) := by
  induction offered generalizing s with
  | nil => simp
  | cons a offered ih =>
    rw [List.foldl_cons, newest_insert, ih, List.toFinset_cons]
    congr 1
    ext b
    simp only [Finset.mem_union, Finset.mem_insert]
    tauto

end Union

/-- Two lists of the same things, each in the order of time, are the same list. -/
theorem newest_eq_of_ordered {kept kept' : List α} (h : kept.Pairwise fun a b => time a < time b)
    (h' : kept'.Pairwise fun a b => time a < time b) (hsame : ∀ a, a ∈ kept ↔ a ∈ kept') :
      kept = kept' := by
  have hnodup : ∀ {l : List α}, (l.Pairwise fun a b => time a < time b) → l.Nodup := fun hl =>
    hl.imp fun hlt heq => absurd (congrArg time heq) (ne_of_lt hlt)
  have hperm : kept.Perm kept' := (List.perm_ext_iff_of_nodup (hnodup h) (hnodup h')).mpr hsame
  refine hperm.eq_of_pairwise ?_ h h'
  intro a b _ _ hab hba
  exact absurd hab (lt_asymm hba)

end ObbyClient.Newest

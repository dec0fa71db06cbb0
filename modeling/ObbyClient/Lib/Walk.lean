import Mathlib

/-!
# Walks that end

A walk that goes on as its last place says.  In a finite set it finds what it looks for soon, or
never.

* `walk` — the places of a walk;
* `walk_within` — a walk through few places needs few steps.
-/

namespace ObbyClient

section Walk

variable {α : Type*} {f : α → Option α}

/-- Where a walk is after so many steps; `none` once it has ended. -/
def walk (f : α → Option α) (start : Option α) : ℕ → Option α
  | 0 => start
  | n + 1 => (walk f start n).bind f

theorem walk_add (start : Option α) (m n : ℕ) :
    walk f start (m + n) = walk f (walk f start m) n := by
  induction n with
  | zero => rfl
  | succ n ih =>
    show (walk f start (m + n)).bind f = (walk f (walk f start m) n).bind f
    rw [ih]

theorem walk_succ (start : Option α) (n : ℕ) : walk f start (n + 1) = walk f (start.bind f) n := by
  rw [Nat.add_comm, walk_add]
  rfl

theorem walk_none (n : ℕ) : walk f none n = none := by
  induction n with
  | zero => rfl
  | succ n ih =>
    show (walk f none n).bind f = none
    rw [ih]
    rfl

/-- A walk is still on its way wherever it was before. -/
theorem walk_isSome {start : Option α} {m n : ℕ} (hmn : m ≤ n) (h : (walk f start n).isSome) :
    (walk f start m).isSome := by
  induction n, hmn using Nat.le_induction with
  | base => exact h
  | succ n _ ih =>
    refine ih ?_
    obtain ⟨last, hlast⟩ := Option.isSome_iff_exists.mp h
    obtain ⟨previous, hprevious, -⟩ := Option.bind_eq_some_iff.mp hlast
    rw [hprevious]
    rfl

/-- **A walk through few places needs few steps.**  A longer one comes to a place twice, and the way
between could be left out. -/
theorem walk_within {start : Option α} {places : List α} {p : α → Bool}
    (hplaces : ∀ n a, walk f start n = some a → a ∈ places) {n : ℕ}
    (h : (walk f start n).any p = true) :
    ∃ k ≤ places.length, (walk f start k).any p = true := by
  classical
  have hex : ∃ k, (walk f start k).any p = true := ⟨n, h⟩
  refine ⟨Nat.find hex, ?_, Nat.find_spec hex⟩
  by_contra hlong
  rw [not_le] at hlong
  have hend := Nat.find_spec hex
  have hsome : ∀ i ≤ Nat.find hex, ∃ a, walk f start i = some a := by
    intro i hi
    refine Option.isSome_iff_exists.mp (walk_isSome hi ?_)
    obtain ⟨last, hlast, -⟩ := (Option.any_eq_true _ _).mp hend
    rw [hlast]
    rfl
  -- one place more than there are: two of them are the same
  obtain ⟨i, hi, j, hj, hne, hsame⟩ :
      ∃ i ∈ Finset.range (places.length + 1), ∃ j ∈ Finset.range (places.length + 1),
        i ≠ j ∧ walk f start i = walk f start j := by
    refine Finset.exists_ne_map_eq_of_card_lt_of_maps_to (t := (places.map some).toFinset) ?_ ?_
    · rw [Finset.card_range]
      refine Nat.lt_succ_of_le ((List.toFinset_card_le _).trans ?_)
      rw [List.length_map]
    · intro i hi
      have hle : i ≤ Nat.find hex := by
        have hlt := Finset.mem_range.mp (Finset.mem_coe.mp hi)
        omega
      obtain ⟨a, ha⟩ := hsome i hle
      rw [Finset.mem_coe, List.mem_toFinset, ha]
      exact List.mem_map_of_mem (hplaces i a ha)
  have hshort : ∀ {i j : ℕ}, i < j → j ≤ places.length → walk f start i = walk f start j →
      False := by
    intro i j hij hjle hsame
    have hrest : walk f start (i + (Nat.find hex - j)) = walk f start (Nat.find hex) := by
      rw [walk_add, hsame, ← walk_add]
      congr 1
      omega
    refine Nat.find_min hex (m := i + (Nat.find hex - j)) (by omega) ?_
    rw [hrest]
    exact hend
  rw [Finset.mem_range] at hi hj
  rcases Nat.lt_or_gt_of_ne hne with hij | hij
  · exact hshort hij (by omega) hsame
  · exact hshort hij (by omega) hsame.symm

end Walk

end ObbyClient

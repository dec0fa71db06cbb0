import Mathlib

/-!
# Positions in a list of things that have a width

A list of characters is indexed by bytes.  Some positions stand between two characters and the
others inside one.

* `Cuts.size` — the width of a list;
* `Cuts.cutAt`, `Cuts.cutAt_eq_some` — a list cut in two at a position between two items;
* `Cuts.slice`, `Cuts.slice_append` — what stands between two such positions;
* `Cuts.exists_suffix`, `Cuts.not_isBoundary_inside` — where the positions are.
-/

namespace ObbyClient.Cuts

variable {α : Type} (width : α → ℕ)

/-- The width of a list. -/
def size (s : List α) : ℕ := (s.map width).sum

/-- Cut a list in two at a position, if it stands between two items. -/
def cutAt : ℕ → List α → Option (List α × List α)
  | 0, s => some ([], s)
  | _ + 1, [] => none
  | n + 1, c :: cs =>
      if width c ≤ n + 1 then (cutAt (n + 1 - width c) cs).map fun p => (c :: p.1, p.2) else none

/-- True of a position that stands between two items. -/
def isBoundary (s : List α) (n : ℕ) : Bool := (cutAt width n s).isSome

/-- What stands between two positions. -/
def slice (s : List α) (start stop : ℕ) : Option (List α) :=
  (cutAt width stop s).bind fun p => (cutAt width start p.1).map Prod.snd

@[simp] theorem size_nil : size width [] = 0 := rfl

@[simp] theorem size_cons (c : α) (s : List α) : size width (c :: s) = width c + size width s := by
  rw [size, List.map_cons, List.sum_cons]
  rfl

@[simp] theorem size_append (a b : List α) : size width (a ++ b) = size width a + size width b := by
  rw [size, List.map_append, List.sum_append]
  rfl

variable {width} (hpos : ∀ c, 0 < width c)
include hpos

theorem size_eq_zero {s : List α} : size width s = 0 ↔ s = [] := by
  cases s with
  | nil => simp
  | cons c s =>
      have := hpos c
      rw [size_cons]
      exact iff_of_false (by omega) (List.cons_ne_nil c s)

theorem length_le_size (s : List α) : s.length ≤ size width s := by
  induction s with
  | nil => exact le_rfl
  | cons c s ih =>
      have := hpos c
      rw [List.length_cons, size_cons]
      omega

theorem cutAt_eq_some {n : ℕ} {s a b : List α} :
    cutAt width n s = some (a, b) ↔ s = a ++ b ∧ size width a = n := by
  induction s generalizing n a with
  | nil =>
      cases n with
      | zero =>
          rw [cutAt, Option.some_inj, Prod.mk.injEq, size_eq_zero hpos]
          constructor
          · rintro ⟨rfl, rfl⟩
            exact ⟨rfl, rfl⟩
          · rintro ⟨heq, rfl⟩
            exact ⟨rfl, heq⟩
      | succ n =>
          rw [cutAt]
          refine iff_of_false (Option.some_ne_none _).symm ?_
          rintro ⟨heq, hsize⟩
          rw [(List.append_eq_nil_iff.mp heq.symm).1] at hsize
          exact absurd hsize (by simp)
  | cons c s ih =>
      cases n with
      | zero =>
          rw [cutAt, Option.some_inj, Prod.mk.injEq, size_eq_zero hpos]
          constructor
          · rintro ⟨rfl, rfl⟩
            exact ⟨rfl, rfl⟩
          · rintro ⟨heq, rfl⟩
            exact ⟨rfl, heq⟩
      | succ n =>
          rw [cutAt]
          constructor
          · intro h
            split at h
            · rename_i hle
              obtain ⟨⟨a', b'⟩, hcut, heq⟩ := Option.map_eq_some_iff.mp h
              rw [Prod.mk.injEq] at heq
              obtain ⟨rfl, rfl⟩ := heq
              obtain ⟨rfl, hsize⟩ := ih.mp hcut
              refine ⟨rfl, ?_⟩
              rw [size_cons, hsize]
              omega
            · cases h
          · rintro ⟨heq, hsize⟩
            cases a with
            | nil => exact absurd hsize (by simp)
            | cons c' a =>
                obtain ⟨rfl, rfl⟩ := List.cons.inj heq
                rw [size_cons] at hsize
                rw [if_pos (by omega), ih.mpr ⟨rfl, show size width a = n + 1 - width c by omega⟩]
                rfl

theorem isBoundary_iff {s : List α} {n : ℕ} :
    isBoundary width s n = true ↔ ∃ a b, s = a ++ b ∧ size width a = n := by
  unfold isBoundary
  rw [Option.isSome_iff_exists]
  constructor
  · rintro ⟨⟨a, b⟩, hcut⟩
    exact ⟨a, b, (cutAt_eq_some hpos).mp hcut⟩
  · rintro ⟨a, b, h⟩
    exact ⟨(a, b), (cutAt_eq_some hpos).mpr h⟩

theorem slice_append (before piece after : List α) :
    slice width (before ++ piece ++ after) (size width before)
      (size width before + size width piece) = some piece := by
  unfold slice
  rw [(cutAt_eq_some hpos).mpr ⟨rfl, size_append width before piece⟩]
  show (cutAt width (size width before) (before ++ piece)).map Prod.snd = _
  rw [(cutAt_eq_some hpos).mpr ⟨rfl, rfl⟩]
  rfl

/-- Of two starts of one list the wider is the longer. -/
theorem exists_suffix {before rest a b : List α} (heq : before ++ rest = a ++ b)
    (hle : size width before ≤ size width a) : ∃ piece, a = before ++ piece ∧
      rest = piece ++ b := by
  rcases List.append_eq_append_iff.mp heq with ⟨piece, ha, hrest⟩ | ⟨piece, hbefore, hb⟩
  · exact ⟨piece, ha, hrest⟩
  · rw [hbefore, size_append] at hle
    have hpiece : piece = [] := (size_eq_zero hpos).mp (by omega)
    subst hpiece
    rw [List.append_nil] at hbefore
    exact ⟨[], by rw [hbefore, List.append_nil], hb.symm⟩

/-- No position inside an item is a boundary. -/
theorem not_isBoundary_inside {before rest : List α} {c : α} {n : ℕ}
    (hafter : size width before < n) (hinside : n < size width before + width c) :
    isBoundary width (before ++ c :: rest) n = false := by
  rw [Bool.eq_false_iff]
  intro hboundary
  obtain ⟨a, b, heq, rfl⟩ := (isBoundary_iff hpos).mp hboundary
  obtain ⟨piece, rfl, hrest⟩ := exists_suffix hpos heq (by omega)
  rw [size_append] at hafter hinside
  cases piece with
  | nil => simp at hafter
  | cons c' piece =>
      obtain ⟨rfl, -⟩ := List.cons.inj hrest
      rw [size_cons] at hinside
      omega

end ObbyClient.Cuts

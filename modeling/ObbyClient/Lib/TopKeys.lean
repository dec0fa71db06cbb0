import Mathlib

/-!
# The newest keys of a map

A map that may hold at most so many entries drops its smallest keys first.  What is left depends
only on what was ever offered, not on the order it came in.

* `TopKeys.newer m k` — how many keys of `m` are beyond `k`;
* `TopKeys.top R m` — `m` after dropping its smallest key as long as it has more than `R`;
* `TopKeys.getElem?_top` — the entries left are those with fewer than `R` keys beyond theirs;
* `TopKeys.top_insert_top` — dropping before an insertion or only after it comes to the same.
-/

namespace ObbyClient.TopKeys

open Std (ExtTreeMap TransCmp LawfulEqCmp ReflCmp OrientedCmp)

variable {κ ν : Type} {cmp : κ → κ → Ordering} [TransCmp cmp]

/-- How many keys of the map are beyond this one. -/
def newer (m : ExtTreeMap κ ν cmp) (k : κ) : ℕ :=
  m.keys.countP fun k' => cmp k k' == .lt

/-- The map without its smallest key. -/
def dropMin (m : ExtTreeMap κ ν cmp) : ExtTreeMap κ ν cmp :=
  match m.minKey? with
  | none => m
  | some k => m.erase k

/-- The map after dropping its smallest key as long as it has more than this many. -/
def top (R : ℕ) (m : ExtTreeMap κ ν cmp) : ExtTreeMap κ ν cmp :=
  dropMin^[m.size - R] m

/-! ### Counting keys -/

theorem newer_le_size (m : ExtTreeMap κ ν cmp) (k : κ) : newer m k ≤ m.size := by
  rw [← ExtTreeMap.length_keys]
  exact List.countP_le_length

theorem dropMin_of_min {m : ExtTreeMap κ ν cmp} {k : κ} (h : m.minKey? = some k) :
    dropMin m = m.erase k := by
  rw [dropMin, h]

/-- The first entry of a map is that of its smallest key. -/
theorem minKey?_of_head? [LawfulEqCmp cmp] {m : ExtTreeMap κ ν cmp} {k : κ} {v : ν}
    (h : m.toList.head? = some (k, v)) : m.minKey? = some k ∧ m[k]? = some v := by
  rw [ExtTreeMap.minKey?_eq_head?_keys, ← ExtTreeMap.map_fst_toList_eq_keys, List.head?_map, h]
  exact ⟨rfl, ExtTreeMap.mem_toList_iff_getElem?_eq_some.mp (List.mem_of_head? h)⟩

theorem minKey?_of_head?_none {m : ExtTreeMap κ ν cmp} (h : m.toList.head? = none) :
    m.minKey? = none := by
  rw [ExtTreeMap.minKey?_eq_head?_keys, ← ExtTreeMap.map_fst_toList_eq_keys, List.head?_map, h]
  rfl

open Std.DTreeMap.Internal in
theorem maxEntry?_tree {α β : Type} (t : Impl α fun _ => β) :
    Impl.Const.maxEntry? t = (Impl.Const.toList t).getLast? := by
  rw [Impl.Const.toList_eq_toListModel_map]
  induction t with
  | leaf => simp [Impl.Const.maxEntry?]
  | inner size key value left right _ ih =>
      cases right with
      | leaf => simp [Impl.Const.maxEntry?]
      | inner size' key' value' left' right' =>
          -- the greatest entry is the right subtree's, which has one
          have hlist := @Impl.toListModel_inner _ _ size key value left
            (.inner size' key' value' left' right')
          have hne : (Impl.inner size' key' value' left' right').toListModel ≠ [] := by simp
          rw [Impl.Const.maxEntry?, ih, hlist]
          generalize (Impl.inner size' key' value' left' right').toListModel = rest at hne
          cases rest with
          | nil => exact absurd rfl hne
          | cons first rest => simp [List.getLast?_append, List.getLast?_cons]

/-- The greatest entry of a map is the last one. -/
theorem maxEntry?_eq (m : ExtTreeMap κ ν cmp) : m.maxEntry? = m.toList.getLast? := by
  obtain ⟨⟨tree⟩⟩ := m
  induction tree using Quotient.ind with
  | _ tree => exact maxEntry?_tree tree.inner

theorem top_of_size_le {R : ℕ} {m : ExtTreeMap κ ν cmp} (h : m.size ≤ R) : top R m = m := by
  rw [top, Nat.sub_eq_zero_of_le h]
  rfl

variable [LawfulEqCmp cmp]

/-- A key that is held is not beyond itself. -/
theorem newer_lt_size {m : ExtTreeMap κ ν cmp} {k : κ} (h : k ∈ m) : newer m k < m.size := by
  rw [← ExtTreeMap.length_keys]
  refine lt_of_le_of_ne List.countP_le_length fun heq => ?_
  have hself := List.countP_eq_length.mp heq k (ExtTreeMap.mem_keys.mpr h)
  rw [(ReflCmp.compare_self : cmp k k = .eq)] at hself
  exact absurd hself (by decide)

/-- Two maps with the same keys count alike. -/
theorem newer_eq_card (m : ExtTreeMap κ ν cmp) (k : κ) [DecidableEq κ] :
    newer m k = (m.keys.toFinset.filter fun k' => cmp k k' = .lt).card := by
  rw [newer, List.countP_eq_length_filter, ← List.toFinset_card_of_nodup]
  · congr 1
    ext k'
    simp
  · exact m.nodup_keys.filter _

theorem mem_toFinset_keys [DecidableEq κ] {m : ExtTreeMap κ ν cmp} {k : κ} :
    k ∈ m.keys.toFinset ↔ k ∈ m := by
  rw [List.mem_toFinset, ExtTreeMap.mem_keys]

theorem newer_insert (m : ExtTreeMap κ ν cmp) (k k' : κ) (v : ν) :
    newer (m.insert k v) k' =
      newer m k' + if k ∉ m ∧ cmp k' k = .lt then 1 else 0 := by
  classical
  have hkeys : (m.insert k v).keys.toFinset = insert k m.keys.toFinset := by
    ext a
    rw [Finset.mem_insert, mem_toFinset_keys, mem_toFinset_keys, ExtTreeMap.mem_insert,
      LawfulEqCmp.compare_eq_iff_eq, eq_comm]
  rw [newer_eq_card, newer_eq_card, hkeys, Finset.filter_insert]
  by_cases hlt : cmp k' k = .lt
  · rw [if_pos hlt]
    by_cases hmem : k ∈ m
    · rw [if_neg (fun h => h.1 hmem), Finset.insert_eq_self.mpr]
      · rfl
      · exact Finset.mem_filter.mpr ⟨mem_toFinset_keys.mpr hmem, hlt⟩
    · rw [if_pos ⟨hmem, hlt⟩, Finset.card_insert_of_notMem]
      exact fun h => hmem (mem_toFinset_keys.mp (Finset.mem_filter.mp h).1)
  · rw [if_neg hlt, if_neg (fun h => hlt h.2)]
    rfl

theorem newer_erase (m : ExtTreeMap κ ν cmp) (k k' : κ) :
    newer (m.erase k) k' =
      newer m k' - if k ∈ m ∧ cmp k' k = .lt then 1 else 0 := by
  classical
  have hkeys : (m.erase k).keys.toFinset = m.keys.toFinset.erase k := by
    ext a
    rw [Finset.mem_erase, mem_toFinset_keys, mem_toFinset_keys, ExtTreeMap.mem_erase, ne_eq,
      ne_eq, LawfulEqCmp.compare_eq_iff_eq, @eq_comm _ k]
  rw [newer_eq_card, newer_eq_card, hkeys, Finset.filter_erase]
  by_cases h : k ∈ m ∧ cmp k' k = .lt
  · rw [if_pos h, Finset.card_erase_of_mem]
    exact Finset.mem_filter.mpr ⟨mem_toFinset_keys.mpr h.1, h.2⟩
  · rw [if_neg h, Finset.erase_eq_of_notMem]
    · rfl
    · intro hmem
      exact h ⟨mem_toFinset_keys.mp (Finset.mem_filter.mp hmem).1, (Finset.mem_filter.mp hmem).2⟩

/-! ### The smallest key -/

/-- A map that holds something has a smallest key, which every other key is beyond. -/
theorem exists_min {m : ExtTreeMap κ ν cmp} (h : 0 < m.size) :
    ∃ k, m.minKey? = some k ∧ k ∈ m ∧ ∀ k' ∈ m, k' = k ∨ cmp k k' = .lt := by
  have hne : m ≠ ∅ := by
    rintro rfl
    exact absurd h (by simp)
  obtain ⟨k, hk⟩ := Option.isSome_iff_exists.mp (ExtTreeMap.isSome_minKey?_iff_ne_empty.mpr hne)
  obtain ⟨hmem, hle⟩ := ExtTreeMap.minKey?_eq_some_iff_mem_and_forall.mp hk
  refine ⟨k, hk, hmem, fun k' hk' => ?_⟩
  have hle := hle k' hk'
  cases hc : cmp k k' with
  | lt => exact .inr rfl
  | eq => exact .inl (LawfulEqCmp.eq_of_compare hc).symm
  | gt =>
      rw [hc] at hle
      exact absurd hle (by decide)

/-- The smallest key of a map has every other one beyond it. -/
theorem newer_min {m : ExtTreeMap κ ν cmp} {k : κ} (hmem : k ∈ m)
    (hmin : ∀ k' ∈ m, k' = k ∨ cmp k k' = .lt) : newer m k = m.size - 1 := by
  classical
  rw [newer_eq_card, ← ExtTreeMap.length_keys, ← List.toFinset_card_of_nodup m.nodup_keys]
  have hfilter : (m.keys.toFinset.filter fun k' => cmp k k' = .lt) = m.keys.toFinset.erase k := by
    ext a
    rw [Finset.mem_filter, Finset.mem_erase, mem_toFinset_keys]
    constructor
    · rintro ⟨ha, hlt⟩
      refine ⟨?_, ha⟩
      rintro rfl
      rw [(ReflCmp.compare_self : cmp a a = .eq)] at hlt
      exact absurd hlt (by decide)
    · rintro ⟨hne, ha⟩
      exact ⟨ha, (hmin a ha).resolve_left hne⟩
  rw [hfilter, Finset.card_erase_of_mem (mem_toFinset_keys.mpr hmem)]

/-- A key before every key of the map has all of them beyond it. -/
theorem newer_before {m : ExtTreeMap κ ν cmp} {k k' : κ}
    (hmin : ∀ a ∈ m, a = k ∨ cmp k a = .lt) (hlt : cmp k' k = .lt) : newer m k' = m.size := by
  rw [newer, ← ExtTreeMap.length_keys, List.countP_eq_length]
  intro a ha
  rcases hmin a (ExtTreeMap.mem_keys.mp ha) with rfl | h
  · rw [hlt]
    rfl
  · rw [TransCmp.lt_trans hlt h]
    rfl

/-! ### Dropping down to a bound -/

theorem size_dropMin {m : ExtTreeMap κ ν cmp} (h : 0 < m.size) :
    (dropMin m).size = m.size - 1 := by
  obtain ⟨k, hk, hmem, -⟩ := exists_min h
  rw [dropMin_of_min hk, ExtTreeMap.size_erase, if_pos (ExtTreeMap.contains_iff_mem.mpr hmem)]

theorem top_of_lt_size {R : ℕ} {m : ExtTreeMap κ ν cmp} (h : R < m.size) :
    top R m = top R (dropMin m) := by
  have hsize := size_dropMin (show 0 < m.size by omega)
  rw [top, top, hsize, show m.size - R = m.size - 1 - R + 1 by omega, Function.iterate_succ_apply]

/-- Induction on the entries a map has too many of. -/
@[elab_as_elim]
theorem top_induction {R : ℕ} {P : ExtTreeMap κ ν cmp → Prop}
    (done : ∀ m, m.size ≤ R → P m) (drop : ∀ m, R < m.size → P (dropMin m) → P m)
    (m : ExtTreeMap κ ν cmp) : P m := by
  induction h : m.size - R generalizing m with
  | zero => exact done m (by omega)
  | succ n ih =>
      have hsize := size_dropMin (show 0 < m.size by omega)
      exact drop m (by omega) (ih _ (by omega))

theorem size_top (R : ℕ) (m : ExtTreeMap κ ν cmp) : (top R m).size = min R m.size := by
  refine top_induction (R := R) (fun m h => ?_) (fun m h ih => ?_) m
  · rw [top_of_size_le h, min_eq_right h]
  · have hsize := size_dropMin (show 0 < m.size by omega)
    rw [top_of_lt_size h, ih]
    omega

/-- **What is left** are the entries with fewer than `R` keys beyond theirs. -/
theorem getElem?_top (R : ℕ) (m : ExtTreeMap κ ν cmp) (k : κ) :
    (top R m)[k]? = if newer m k < R then m[k]? else none := by
  refine top_induction (R := R) (fun m h => ?_) (fun m h ih => ?_) m
  · rw [top_of_size_le h]
    by_cases hmem : k ∈ m
    · rw [if_pos (lt_of_lt_of_le (newer_lt_size hmem) h)]
    · rw [ExtTreeMap.getElem?_eq_none hmem, ite_self]
  · obtain ⟨k₀, hk₀, hmem, hmin⟩ := exists_min (show 0 < m.size by omega)
    have hcount := newer_erase m k₀ k
    rw [top_of_lt_size h, ih, dropMin_of_min hk₀, ExtTreeMap.getElem?_erase]
    by_cases hk : k = k₀
    · subst hk
      have hsize := newer_min hmem hmin
      rw [if_pos ReflCmp.compare_self, ite_self, if_neg (by omega)]
    · rw [if_neg (fun heq => hk (LawfulEqCmp.eq_of_compare heq).symm)]
      by_cases hheld : k ∈ m
      · have hlt := (hmin k hheld).resolve_left hk
        have hnot : ¬ cmp k k₀ = .lt := by
          rw [OrientedCmp.gt_of_lt hlt]
          decide
        rw [if_neg (fun hc => hnot hc.2)] at hcount
        rw [hcount]
        rfl
      · rw [ExtTreeMap.getElem?_eq_none hheld, ite_self, ite_self]

/-- Dropping leaves the count alone, up to the bound. -/
theorem newer_top (R : ℕ) (m : ExtTreeMap κ ν cmp) (k : κ) :
    newer (top R m) k = min R (newer m k) := by
  refine top_induction (R := R) (fun m h => ?_) (fun m h ih => ?_) m
  · have hle := newer_le_size m k
    rw [top_of_size_le h]
    omega
  · obtain ⟨k₀, hk₀, hmem, hmin⟩ := exists_min (show 0 < m.size by omega)
    have hcount := newer_erase m k₀ k
    rw [top_of_lt_size h, ih, dropMin_of_min hk₀]
    by_cases hlt : cmp k k₀ = .lt
    · have hall := newer_before hmin hlt
      rw [if_pos ⟨hmem, hlt⟩] at hcount
      omega
    · rw [if_neg (fun hc => hlt hc.2)] at hcount
      rw [hcount]
      rfl

theorem mem_top {R : ℕ} {m : ExtTreeMap κ ν cmp} {k : κ} :
    k ∈ top R m ↔ k ∈ m ∧ newer m k < R := by
  rw [ExtTreeMap.mem_iff_isSome_getElem?, ExtTreeMap.mem_iff_isSome_getElem?, getElem?_top]
  by_cases h : newer m k < R
  · rw [if_pos h, and_iff_left h]
  · rw [if_neg h]
    exact ⟨fun hn => absurd hn (by simp), fun hc => absurd hc.2 h⟩

/-- **Insertion commutes with dropping**: to drop before an insertion as well as after it leaves
the same entries as to drop after it only. -/
theorem top_insert_top (R : ℕ) (m : ExtTreeMap κ ν cmp) (k : κ) (v : ν) :
    top R ((top R m).insert k v) = top R (m.insert k v) := by
  ext1 a
  have hm := newer_insert m k a v
  have ht := newer_insert (top R m) k a v
  rw [newer_top] at ht
  rw [getElem?_top, getElem?_top, ExtTreeMap.getElem?_insert, ExtTreeMap.getElem?_insert,
    getElem?_top]
  by_cases hk : cmp k a = .eq
  · -- the key inserted: nothing about it is beyond itself
    obtain rfl := LawfulEqCmp.eq_of_compare hk
    have hself : ¬ cmp k k = .lt := by
      rw [hk]
      decide
    rw [if_neg (fun hc => hself hc.2)] at hm ht
    rw [if_pos hk, if_pos hk, hm, ht]
    by_cases hlt : newer m k < R
    · rw [if_pos (by omega), if_pos (by omega)]
    · rw [if_neg (by omega), if_neg (by omega)]
  · rw [if_neg hk, if_neg hk]
    by_cases hlt : newer m a < R
    · rw [if_pos hlt]
      by_cases hak : cmp a k = .lt
      · -- the new key is beyond this one, so it counts unless it was held, above or below alike
        have hle : k ∈ m → newer m k < R := by
          intro _
          have hmono : newer m k ≤ newer m a := by
            refine List.countP_mono_left fun b _ hb => ?_
            rw [beq_iff_eq] at hb ⊢
            exact TransCmp.lt_trans hak hb
          omega
        have hiff : (k ∉ top R m ∧ cmp a k = .lt) ↔ (k ∉ m ∧ cmp a k = .lt) :=
          and_congr_left' (not_congr (mem_top.trans ⟨And.left, fun h => ⟨h, hle h⟩⟩))
        rw [if_congr hiff rfl rfl, min_eq_right hlt.le, ← hm] at ht
        rw [ht]
      · rw [if_neg (fun hc => hak hc.2)] at hm ht
        rw [if_pos (by omega), if_pos (by omega)]
    · rw [if_neg hlt, ite_self, if_neg (by omega)]

end ObbyClient.TopKeys

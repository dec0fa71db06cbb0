import Mathlib.Data.List.NodupEquivFin
import Mathlib.Data.List.Perm.Subperm
import Mathlib.Data.List.Range
import Mathlib.Data.List.Sort

/-!
# Numbered items, put into slots

Items that carry their own place are put into a row of empty slots as they come.  When the places
are those of the row, each once, the row ends up full and in order.

* `ordered` — items in the order of their places;
* `fill` — the row after some items;
* `fill_replicate` — a full row holds the items in order.
-/

namespace ObbyClient.Slots

variable {α β : Type*} (index : α → ℕ) (value : α → β)

/-- As many distinct places as there are in a row are all of them. -/
theorem perm_range {places : List ℕ} (hnodup : places.Nodup)
    (hlt : ∀ i ∈ places, i < places.length) :
    places.Perm (List.range places.length) := by
  have hsubset : places ⊆ List.range places.length :=
    fun i hi => List.mem_range.mpr (hlt i hi)
  refine (hnodup.subperm hsubset).perm_of_length_le ?_
  rw [List.length_range]

/-- Items in the order of their places. -/
def ordered (items : List α) : List α := items.insertionSort fun a b => index a ≤ index b

theorem perm_ordered (items : List α) : (ordered index items).Perm items :=
  List.perm_insertionSort _ items

section Ordered

variable {index} {items : List α}

/-- Items whose places are those of a row stand at their places. -/
theorem map_ordered (h : (items.map index).Perm (List.range items.length)) :
    (ordered index items).map index = List.range items.length := by
  have hperm : ((ordered index items).map index).Perm (List.range items.length) :=
    ((perm_ordered index items).map index).trans h
  have hsorted : ((ordered index items).map index).Pairwise (· ≤ ·) :=
    List.pairwise_map.mpr (List.pairwise_insertionSort _ items)
  exact hperm.eq_of_pairwise' hsorted List.pairwise_le_range

theorem index_getElem_ordered (h : (items.map index).Perm (List.range items.length)) {k : ℕ}
    (hk : k < (ordered index items).length) : index (ordered index items)[k] = k := by
  have hmap := List.getElem_of_eq (map_ordered h) (i := k) (by rwa [List.length_map])
  rwa [List.getElem_map, List.getElem_range] at hmap

/-- Which order items came in does not show. -/
theorem ordered_of_perm {items' : List α} (hitems : items.Perm items')
    (h : (items.map index).Nodup) : ordered index items = ordered index items' := by
  have hperm : (ordered index items).Perm (ordered index items') :=
    (perm_ordered index items).trans (hitems.trans (perm_ordered index items').symm)
  have hdistinct : ∀ a ∈ ordered index items, ∀ b ∈ ordered index items, index a = index b →
      a = b := by
    intro a ha b hb hab
    exact List.inj_on_of_nodup_map h ((perm_ordered index items).mem_iff.mp ha)
      ((perm_ordered index items).mem_iff.mp hb) hab
  refine hperm.eq_of_pairwise ?_ (List.pairwise_insertionSort _ _) (List.pairwise_insertionSort _ _)
  intro a b ha hb hab hba
  exact hdistinct a ha b (hperm.mem_iff.mpr hb) (le_antisymm hab hba)

end Ordered

/-! ### Filling -/

/-- The row after some items went to their places. -/
def fill (slots : List (Option β)) (items : List α) : List (Option β) :=
  items.foldl (fun slots item => slots.set (index item) (some (value item))) slots

theorem length_fill (slots : List (Option β)) (items : List α) :
    (fill index value slots items).length = slots.length := by
  induction items generalizing slots with
  | nil => rfl
  | cons item rest ih =>
    show (fill index value (slots.set (index item) (some (value item))) rest).length = _
    rw [ih, List.length_set]

/-- A slot that no item goes to stays as it was. -/
theorem getElem?_fill_of_ne {items : List α} {k : ℕ} (h : ∀ item ∈ items, index item ≠ k)
    (slots : List (Option β)) : (fill index value slots items)[k]? = slots[k]? := by
  induction items generalizing slots with
  | nil => rfl
  | cons item rest ih =>
    show (fill index value (slots.set (index item) (some (value item))) rest)[k]? = _
    rw [ih (fun a ha => h a (List.mem_cons_of_mem _ ha)),
      List.getElem?_set_ne (h item List.mem_cons_self)]

/-- An item stands in the slot of its place. -/
theorem getElem?_fill {items : List α} (h : (items.map index).Nodup) {item : α}
    (hitem : item ∈ items) {slots : List (Option β)} (hplace : index item < slots.length) :
    (fill index value slots items)[index item]? = some (some (value item)) := by
  induction items generalizing slots with
  | nil => cases hitem
  | cons first rest ih =>
    rw [List.map_cons, List.nodup_cons] at h
    show (fill index value (slots.set (index first) (some (value first))) rest)[index item]? = _
    obtain rfl | hrest := List.mem_cons.mp hitem
    · have hne : ∀ a ∈ rest, index a ≠ index item :=
        fun a ha heq => h.1 (heq ▸ List.mem_map_of_mem ha)
      rw [getElem?_fill_of_ne index value hne, List.getElem?_set_self hplace]
    · refine ih h.2 hrest ?_
      rwa [List.length_set]

/-- **A full row holds the items in the order of their places.** -/
theorem fill_replicate {items : List α} (h : (items.map index).Perm (List.range items.length)) :
    fill index value (List.replicate items.length none) items =
      ((ordered index items).map value).map some := by
  have hlength : (ordered index items).length = items.length := (perm_ordered index items).length_eq
  have hnodup : (items.map index).Nodup := h.nodup_iff.mpr List.nodup_range
  refine List.ext_getElem? fun k => ?_
  by_cases hk : k < (ordered index items).length
  · have hat := index_getElem_ordered h hk
    have hmem := (perm_ordered index items).mem_iff.mp (List.getElem_mem hk)
    have hplace : index (ordered index items)[k] <
        (List.replicate items.length (none : Option β)).length := by
      rwa [hat, List.length_replicate, ← hlength]
    have hfill := getElem?_fill index value hnodup hmem hplace
    rw [hat] at hfill
    rw [hfill, List.getElem?_map, List.getElem?_map, List.getElem?_eq_getElem hk]
    rfl
  · rw [List.getElem?_eq_none (by rw [length_fill, List.length_replicate]; omega),
      List.getElem?_eq_none (by rw [List.length_map, List.length_map]; omega)]

end ObbyClient.Slots

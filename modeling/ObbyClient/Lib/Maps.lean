import Mathlib

/-!
# Maps, entry by entry

* `Maps.getElem?_insert_ite`, `Maps.getElem?_erase_ite`, `Maps.getElem?_modify_ite` — what a map
  holds after one entry changed;
* `Maps.insert_eq_self`, `Maps.erase_eq_self` — when nothing did;
* `Maps.size_lt_length` — how many entries there can be.
-/

namespace ObbyClient.Maps

variable {κ β : Type} [Ord κ] [Std.TransOrd κ] [Std.LawfulEqOrd κ]

section Entries

variable [DecidableEq κ] (map : Std.ExtTreeMap κ β) (key other : κ)

theorem getElem?_insert_ite (value : β) :
    (map.insert key value)[other]? = if other = key then some value else map[other]? := by
  rw [Std.ExtTreeMap.getElem?_insert]
  exact if_congr (Std.LawfulEqOrd.compare_eq_iff_eq.trans eq_comm) rfl rfl

theorem getElem?_erase_ite : (map.erase key)[other]? = if other = key then none
    else map[other]? := by
  rw [Std.ExtTreeMap.getElem?_erase]
  exact if_congr (Std.LawfulEqOrd.compare_eq_iff_eq.trans eq_comm) rfl rfl

theorem getElem?_modify_ite (f : β → β) :
    (map.modify key f)[other]? = if other = key then map[key]?.map f else map[other]? := by
  rw [Std.ExtTreeMap.getElem?_modify]
  exact if_congr (Std.LawfulEqOrd.compare_eq_iff_eq.trans eq_comm) rfl rfl

end Entries

variable {map : Std.ExtTreeMap κ β} {key other : κ} {value found : β}

theorem getElem?_insert_eq_some : (map.insert key value)[other]? = some found ↔
    (other = key ∧ value = found) ∨ (other ≠ key ∧ map[other]? = some found) := by
  classical
  rw [getElem?_insert_ite]
  by_cases h : other = key
  · rw [if_pos h, Option.some_inj]
    simp [h]
  · rw [if_neg h]
    simp [h]

theorem getElem?_erase_eq_some :
    (map.erase key)[other]? = some found ↔ other ≠ key ∧ map[other]? = some found := by
  classical
  rw [getElem?_erase_ite]
  by_cases h : other = key
  · rw [if_pos h]
    simp [h]
  · rw [if_neg h]
    simp [h]

theorem getElem?_modify_eq_some {f : β → β} : (map.modify key f)[other]? = some found ↔
    (other = key ∧ ∃ value, map[key]? = some value ∧ f value = found) ∨
      (other ≠ key ∧ map[other]? = some found) := by
  classical
  rw [getElem?_modify_ite]
  by_cases h : other = key
  · rw [if_pos h, Option.map_eq_some_iff]
    simp [h]
  · rw [if_neg h]
    simp [h]

/-- Putting back what is there changes nothing, and putting anything else does. -/
theorem insert_eq_self : map.insert key value = map ↔ map[key]? = some value := by
  classical
  constructor
  · intro h
    rw [← h, Std.ExtTreeMap.getElem?_insert_self]
  · intro h
    refine Std.ExtTreeMap.ext_getElem? ?_
    intro other
    rw [getElem?_insert_ite]
    split
    · rename_i heq
      rw [heq, h]
    · rfl

theorem erase_eq_self (h : key ∉ map) : map.erase key = map := by
  classical
  refine Std.ExtTreeMap.ext_getElem? ?_
  intro other
  rw [getElem?_erase_ite]
  split
  · rename_i heq
    rw [heq, Std.ExtTreeMap.getElem?_eq_none h]
  · rfl

/-- A map whose keys are on a list, but for one of the list, is smaller than the list is long. -/
theorem size_lt_length {l : List κ} {a : κ} (hkeys : ∀ key ∈ map, key ∈ l) (ha : a ∈ l)
    (hnot : a ∉ map) : map.size < l.length := by
  classical
  have hsub : map.keys ⊆ l.erase a := by
    intro key hkey
    have hmem : key ∈ map := Std.ExtTreeMap.mem_keys.mp hkey
    refine (List.mem_erase_of_ne ?_).mpr (hkeys key hmem)
    rintro rfl
    exact hnot hmem
  have hle := (List.subperm_of_subset Std.ExtTreeMap.nodup_keys hsub).length_le
  have hpos := List.length_pos_of_mem ha
  rw [Std.ExtTreeMap.length_keys, List.length_erase_of_mem ha] at hle
  omega

end ObbyClient.Maps

import ObbyClient.E2ee.Crypto
import ObbyClient.Lib.Slots

/-!
# Fragments

A frame too large for one line travels as numbered fragments, which may arrive in any order.

* `reassemble` — the payload of a set of fragments;
* `Complete` — the fragments of one frame, all of them, each once;
* `reassembles_exactly` — a set reassembles when it is complete, and in no other case.
-/

namespace ObbyClient.E2ee

/-- One fragment of a split frame. -/
structure Frag where
  /-- The id every fragment of the frame shares. -/
  id : Str
  /-- The place of this one. -/
  i : UInt32
  /-- How many there are. -/
  n : UInt32
  /-- This one's slice of the payload. -/
  ct : Bytes
  deriving DecidableEq

/-- Put one fragment into its slot. -/
def place (id : Str) (total : UInt32) (slots : List (Option Bytes)) (fragment : Frag) :
    Except Error (List (Option Bytes)) :=
  if fragment.id ≠ id ∨ fragment.n ≠ total then .error .fragmentation
  else
    let index := fragment.i.toNat
    match slots[index]? with
    | none => .error .fragmentation
    | some (some _) => .error .fragmentation
    | some none => .ok (slots.set index (some fragment.ct))

/-- Add one slot to the payload. -/
def extend (out : Bytes) : Option Bytes → Except Error Bytes
  | some piece => .ok (out ++ piece)
  | none => .error .fragmentation

/-- Put a set of fragments back together. -/
def reassemble (fragments : List Frag) : Except Error Bytes :=
  match fragments with
  | [] => .error .fragmentation
  | first :: _ =>
    if UInt32.size ≤ fragments.length then .error .fragmentation
    else
      let expected := UInt32.ofNat fragments.length
      if expected ≠ first.n then .error .fragmentation
      else do
        let slots ← fragments.foldlM (place first.id first.n) (List.replicate fragments.length none)
        slots.foldlM extend []

/-! ### The slots -/

/-- The place of a fragment. -/
def Frag.index (fragment : Frag) : ℕ := fragment.i.toNat

theorem place_eq_ok {id : Str} {total : UInt32} {slots slots' : List (Option Bytes)} {f : Frag} :
    place id total slots f = .ok slots' ↔
      (f.id = id ∧ f.n = total ∧ slots[f.index]? = some none) ∧
        slots' = slots.set f.index (some f.ct) := by
  unfold place Frag.index
  by_cases hf : f.id ≠ id ∨ f.n ≠ total
  · rw [if_pos hf]
    refine iff_of_false nofun ?_
    rintro ⟨⟨hid, hn, -⟩, -⟩
    exact hf.elim (fun h => h hid) (fun h => h hn)
  · rw [if_neg hf]
    rw [not_or, not_not, not_not] at hf
    dsimp only
    split
    · rename_i h
      rw [h]
      exact iff_of_false nofun (fun h => nomatch h.1.2.2)
    · rename_i h
      rw [h]
      exact iff_of_false nofun (fun h => nomatch h.1.2.2)
    · rename_i h
      rw [h]
      exact ⟨fun hok => ⟨⟨hf.1, hf.2, rfl⟩, (Except.ok.inj hok).symm⟩, fun hok => hok.2 ▸ rfl⟩

/-- **What the loop accepts**: fragments of one set, to slots of the row, no two to the same. -/
theorem foldlM_place {id : Str} {total : UInt32} {fragments : List Frag}
    {slots slots' : List (Option Bytes)} :
    fragments.foldlM (place id total) slots = .ok slots' ↔
      (∀ f ∈ fragments, f.id = id ∧ f.n = total ∧ slots[f.index]? = some none) ∧
        (fragments.map Frag.index).Nodup ∧
          slots' = Slots.fill Frag.index Frag.ct slots fragments := by
  induction fragments generalizing slots with
  | nil =>
    constructor
    · intro h
      exact ⟨fun _ hf => absurd hf List.not_mem_nil, List.nodup_nil, (Except.ok.inj h).symm⟩
    · rintro ⟨-, -, rfl⟩
      rfl
  | cons f rest ih =>
    rw [List.foldlM_cons, bind_eq_ok, List.map_cons, List.nodup_cons]
    constructor
    · rintro ⟨placed, hplace, hrest⟩
      obtain ⟨hf, rfl⟩ := place_eq_ok.mp hplace
      obtain ⟨hall, hnodup, rfl⟩ := ih.mp hrest
      -- a later fragment found its slot empty, so it was not this one's
      have hother : ∀ g ∈ rest, g.index ≠ f.index := by
        intro g hg heq
        have hlt : f.index < slots.length := (List.getElem?_eq_some_iff.mp hf.2.2).1
        have hempty := (hall g hg).2.2
        rw [heq, List.getElem?_set_self hlt] at hempty
        cases hempty
      refine ⟨?_, ⟨?_, hnodup⟩, rfl⟩
      · intro g hg
        obtain rfl | hg := List.mem_cons.mp hg
        · exact hf
        · obtain ⟨hid, hn, hempty⟩ := hall g hg
          rw [List.getElem?_set_ne (hother g hg).symm] at hempty
          exact ⟨hid, hn, hempty⟩
      · intro hmem
        obtain ⟨g, hg, heq⟩ := List.mem_map.mp hmem
        exact hother g hg heq
    · rintro ⟨hall, ⟨hnew, hnodup⟩, rfl⟩
      refine ⟨_, place_eq_ok.mpr ⟨hall f List.mem_cons_self, rfl⟩, ih.mpr ⟨?_, hnodup, rfl⟩⟩
      intro g hg
      obtain ⟨hid, hn, hempty⟩ := hall g (List.mem_cons_of_mem _ hg)
      have hne : f.index ≠ g.index := fun heq => hnew (heq ▸ List.mem_map_of_mem hg)
      rw [List.getElem?_set_ne hne]
      exact ⟨hid, hn, hempty⟩

/-- Full slots come out one after the other. -/
theorem foldlM_extend (pieces : List Bytes) (out : Bytes) :
    (pieces.map some).foldlM extend out = .ok (out ++ pieces.flatten) := by
  induction pieces generalizing out with
  | nil =>
    rw [List.flatten_nil, List.append_nil]
    rfl
  | cons piece rest ih =>
    rw [List.map_cons, List.foldlM_cons, List.flatten_cons, ← List.append_assoc, ← ih]
    rfl

/-! ### What reassembles -/

/-- The fragments of one frame, all of them, each once. -/
structure Complete (fragments : List Frag) : Prop where
  nonempty : fragments ≠ []
  ids : ∀ f ∈ fragments, ∀ g ∈ fragments, f.id = g.id
  counts : ∀ f ∈ fragments, f.n.toNat = fragments.length
  indices : (fragments.map Frag.index).Perm (List.range fragments.length)

/-- The pieces of a set, in the order of their places, as one. -/
def payload (fragments : List Frag) : Bytes :=
  ((Slots.ordered Frag.index fragments).map Frag.ct).flatten

/-- **A set reassembles when it is complete**, to its pieces in the order of their places. -/
theorem reassemble_eq_ok (fragments : List Frag) (out : Bytes) :
    reassemble fragments = .ok out ↔ Complete fragments ∧ out = payload fragments := by
  constructor
  · intro h
    unfold reassemble at h
    split at h
    · cases h
    rename_i first rest
    split at h
    · cases h
    rename_i hsize
    dsimp only at h
    split at h
    · cases h
    rename_i hcount
    obtain ⟨slots, hslots, h⟩ := bind_eq_ok.mp h
    obtain ⟨hall, hnodup, rfl⟩ := foldlM_place.mp hslots
    have hfirst : first.n.toNat = (first :: rest).length := by
      rw [← not_not.mp hcount]
      exact UInt32.toNat_ofNat_of_lt' (not_le.mp hsize)
    have hindices : ((first :: rest).map Frag.index).Perm (List.range (first :: rest).length) := by
      have hperm := Slots.perm_range hnodup
      rw [List.length_map] at hperm
      refine hperm ?_
      intro i hi
      obtain ⟨f, hf, rfl⟩ := List.mem_map.mp hi
      have hlt := (List.getElem?_eq_some_iff.mp (hall f hf).2.2).1
      rwa [List.length_replicate] at hlt
    refine ⟨⟨List.cons_ne_nil _ _, ?_, ?_, hindices⟩, ?_⟩
    · intro f hf g hg
      exact (hall f hf).1.trans (hall g hg).1.symm
    · intro f hf
      rw [(hall f hf).2.1, hfirst]
    · rw [Slots.fill_replicate Frag.index Frag.ct hindices, foldlM_extend] at h
      exact (Except.ok.inj h).symm
  · rintro ⟨hcomplete, rfl⟩
    unfold reassemble
    split
    · exact absurd rfl hcomplete.nonempty
    rename_i first rest
    have hfirst := hcomplete.counts first List.mem_cons_self
    have hsize : ¬ UInt32.size ≤ (first :: rest).length := by
      rw [← hfirst]
      exact not_le.mpr first.n.toNat_lt
    have hcount : ¬ UInt32.ofNat (first :: rest).length ≠ first.n := by
      rw [← hfirst, UInt32.ofNat_toNat]
      exact not_not.mpr rfl
    rw [if_neg hsize]
    dsimp only
    rw [if_neg hcount]
    refine bind_eq_ok.mpr ⟨_, foldlM_place.mpr ⟨?_, ?_, rfl⟩, ?_⟩
    · intro f hf
      refine ⟨hcomplete.ids f hf first List.mem_cons_self, ?_, ?_⟩
      · exact UInt32.toNat_inj.mp ((hcomplete.counts f hf).trans hfirst.symm)
      · have hindex := hcomplete.indices.mem_iff.mp (List.mem_map_of_mem hf)
        rw [List.getElem?_replicate_of_lt (List.mem_range.mp hindex)]
    · exact hcomplete.indices.nodup_iff.mpr List.nodup_range
    · rw [Slots.fill_replicate Frag.index Frag.ct hcomplete.indices, foldlM_extend]
      rfl

/-! ### The order of arrival -/

/-- A loop whose turns fail in one way only. -/
theorem foldlM_eq_error {α β : Type} {f : β → α → Except Error β} {e₀ : Error}
    (hf : ∀ b a e, f b a = .error e → e = e₀) {items : List α} {b : β} {e : Error}
    (h : items.foldlM f b = .error e) : e = e₀ := by
  induction items generalizing b with
  | nil => cases h
  | cons a rest ih =>
    rw [List.foldlM_cons] at h
    cases hturn : f b a with
    | error e' =>
      rw [hturn] at h
      rw [← Except.error.inj h]
      exact hf b a e' hturn
    | ok b' =>
      rw [hturn] at h
      exact ih h

/-- A set that does not reassemble is refused for what it is. -/
theorem reassemble_error {fragments : List Frag} {e : Error}
    (h : reassemble fragments = .error e) : e = .fragmentation := by
  unfold reassemble at h
  split at h
  · exact (Except.error.inj h).symm
  rename_i first rest
  split at h
  · exact (Except.error.inj h).symm
  dsimp only at h
  split at h
  · exact (Except.error.inj h).symm
  cases hslots : (first :: rest).foldlM (place first.id first.n)
      (List.replicate (first :: rest).length none) with
  | error e' =>
    rw [hslots] at h
    rw [← Except.error.inj h]
    refine foldlM_eq_error ?_ hslots
    intro slots f e hplace
    unfold place at hplace
    split at hplace
    · exact (Except.error.inj hplace).symm
    dsimp only at hplace
    split at hplace
    · exact (Except.error.inj hplace).symm
    · exact (Except.error.inj hplace).symm
    · cases hplace
  | ok slots =>
    rw [hslots] at h
    refine foldlM_eq_error ?_ (show slots.foldlM extend [] = .error e from h)
    intro out slot e hextend
    cases slot with
    | none => exact (Except.error.inj hextend).symm
    | some piece => cases hextend

theorem Complete.perm {fragments fragments' : List Frag} (hperm : fragments.Perm fragments')
    (h : Complete fragments) : Complete fragments' where
  nonempty := fun hnil => h.nonempty (List.perm_nil.mp (hnil ▸ hperm))
  ids := fun f hf g hg => h.ids f (hperm.mem_iff.mpr hf) g (hperm.mem_iff.mpr hg)
  counts := fun f hf => (h.counts f (hperm.mem_iff.mpr hf)).trans hperm.length_eq
  indices := by
    rw [← hperm.length_eq]
    exact (hperm.map Frag.index).symm.trans h.indices

theorem payload_perm {fragments fragments' : List Frag} (hperm : fragments.Perm fragments')
    (h : Complete fragments) : payload fragments = payload fragments' := by
  unfold payload
  rw [Slots.ordered_of_perm hperm (h.indices.nodup_iff.mpr List.nodup_range)]

/-- Fragments reassemble to the same whichever way round they arrive. -/
theorem reassemble_perm {fragments fragments' : List Frag} (hperm : fragments.Perm fragments') :
    reassemble fragments = reassemble fragments' := by
  cases h : reassemble fragments with
  | ok out =>
    obtain ⟨hcomplete, rfl⟩ := (reassemble_eq_ok fragments out).mp h
    refine ((reassemble_eq_ok fragments' _).mpr ⟨hcomplete.perm hperm, ?_⟩).symm
    exact payload_perm hperm hcomplete
  | error e =>
    cases h' : reassemble fragments' with
    | error e' => rw [reassemble_error h, reassemble_error h']
    | ok out =>
      obtain ⟨hcomplete, rfl⟩ := (reassemble_eq_ok fragments' out).mp h'
      have hok := (reassemble_eq_ok fragments _).mpr
        ⟨hcomplete.perm hperm.symm, payload_perm hperm.symm (hcomplete)⟩
      rw [h] at hok
      cases hok

/-- **Reassembly is exact, and blind to order.**  A set reassembles when it is not empty, all ids
are one, every count is the number of fragments and the places are those of a row, each once; and
then to the pieces in the order of their places.  Any other order of arrival gives the same. -/
theorem reassembles_exactly (fragments : List Frag) :
    (∀ out, reassemble fragments = .ok out ↔
      (fragments ≠ [] ∧ (∀ f ∈ fragments, ∀ g ∈ fragments, f.id = g.id) ∧
        (∀ f ∈ fragments, f.n.toNat = fragments.length) ∧
        (fragments.map Frag.index).Perm (List.range fragments.length)) ∧
      out = ((fragments.insertionSort fun f g => f.index ≤ g.index).map Frag.ct).flatten) ∧
    ∀ fragments', fragments.Perm fragments' → reassemble fragments' = reassemble fragments := by
  refine ⟨fun out => ?_, fun fragments' hperm => (reassemble_perm hperm).symm⟩
  rw [reassemble_eq_ok]
  constructor
  · rintro ⟨h, hout⟩
    exact ⟨⟨h.nonempty, h.ids, h.counts, h.indices⟩, hout⟩
  · rintro ⟨⟨hnonempty, hids, hcounts, hindices⟩, hout⟩
    exact ⟨⟨hnonempty, hids, hcounts, hindices⟩, hout⟩

/-- Two fragments that come the wrong way round, and one that comes alone. -/
example :
    reassemble [⟨['a'], 1, 2, [3]⟩, ⟨['a'], 0, 2, [1, 2]⟩] = .ok [1, 2, 3] ∧
      reassemble [⟨['a'], 1, 2, [3]⟩] = .error .fragmentation := by
  decide

end ObbyClient.E2ee

import ObbyClient.Engine.Sdp
import ObbyClient.Lib.Maps

/-!
# Session descriptions put together

The chunks of several descriptions arrive mixed up and in any order.  A reassembler holds what has
arrived of each, within its bounds.

* `SdpReassembler` — the chunks that have arrived of each description;
* `Transfer` — a description with the chunks it was split into;
* `Arrived` — what a reassembler holds after some of the chunks: `Arrived.push`;
* `chunks_round_trip` — what was cut is put together, by the chunk that arrives last.
-/

namespace ObbyClient.Voice

/-! ### Putting together -/

/-- The chunks that have arrived of one description. -/
structure PartialSdp where
  total : ℕ
  parts : Std.ExtTreeMap ℕ Str

/-- The descriptions that are being put together. -/
structure SdpReassembler where
  partials : Std.ExtTreeMap Str PartialSdp
  /-- How many chunks a description may have. -/
  maxChunks : ℕ
  /-- How many descriptions may be put together at once. -/
  maxConcurrent : ℕ

/-- The first parts, joined; `none` when one is missing. -/
def joined (parts : Std.ExtTreeMap ℕ Str) : ℕ → Option Str
  | 0 => some []
  | seq + 1 => do
      let before ← joined parts seq
      let part ← parts[seq]?
      some (before ++ part)

namespace SdpReassembler

def withBounds (maxChunks maxConcurrent : ℕ) : SdpReassembler := ⟨∅, maxChunks, maxConcurrent⟩

/-- Feed one chunk, returning the description it completes. -/
def push (r : SdpReassembler) (chunk : ChunkMeta) (sdp : Str) : SdpReassembler × Option Str :=
  if chunk.total = 0 ∨ r.maxChunks < chunk.total ∨ chunk.total ≤ chunk.seq then (r, none)
  else if chunk.id ∉ r.partials ∧ r.maxConcurrent ≤ r.partials.size then (r, none)
  else
    let held := r.partials[chunk.id]?.getD ⟨chunk.total, ∅⟩
    if held.total ≠ chunk.total then (r, none)
    else
      let parts := held.parts.insert chunk.seq sdp
      if parts.size ≠ chunk.total then
        ({ r with partials := r.partials.insert chunk.id ⟨held.total, parts⟩ }, none)
      else ({ r with partials := r.partials.erase chunk.id }, joined parts held.total)

/-- How many descriptions are being put together. -/
def pendingLen (r : SdpReassembler) : ℕ := r.partials.size

/-- Feed several chunks. -/
def pushAll (r : SdpReassembler) (chunks : List SdpChunk) : SdpReassembler :=
  chunks.foldl (fun r c => (r.push c.chunk c.sdp).1) r

end SdpReassembler

/-! ### The parts of one description -/

/-- What has arrived, by its number. -/
def partsOf (chunks : List SdpChunk) : Std.ExtTreeMap ℕ Str :=
  chunks.foldl (fun parts c => parts.insert c.chunk.seq c.sdp) ∅

/-- The number of a chunk. -/
def SdpChunk.seq (c : SdpChunk) : ℕ := c.chunk.seq

theorem partsOf_append (chunks : List SdpChunk) (c : SdpChunk) :
    partsOf (chunks ++ [c]) = (partsOf chunks).insert c.chunk.seq c.sdp := by
  rw [partsOf, List.foldl_append]
  rfl

theorem mem_partsOf {chunks : List SdpChunk} {seq : ℕ} :
    seq ∈ partsOf chunks ↔ seq ∈ chunks.map SdpChunk.seq := by
  induction chunks using List.reverseRecOn with
  | nil => simp [partsOf]
  | append_singleton chunks c ih =>
      rw [partsOf_append, Std.ExtTreeMap.mem_insert, ih, List.map_append, List.mem_append,
        Std.LawfulEqOrd.compare_eq_iff_eq, or_comm, List.map_singleton, List.mem_singleton,
        eq_comm (a := seq)]
      rfl

theorem size_partsOf {chunks : List SdpChunk} (h : (chunks.map SdpChunk.seq).Nodup) :
    (partsOf chunks).size = chunks.length := by
  induction chunks using List.reverseRecOn with
  | nil => rfl
  | append_singleton chunks c ih =>
      rw [List.map_append, List.map_singleton, List.nodup_append_comm] at h
      obtain ⟨hnot, hnodup⟩ := List.nodup_cons.mp h
      have hnew : c.chunk.seq ∉ partsOf chunks := fun hmem => hnot (mem_partsOf.mp hmem)
      rw [partsOf_append, Std.ExtTreeMap.size_insert,
        if_neg fun h => hnew (Std.ExtTreeMap.contains_iff_mem.mp h), ih hnodup, List.length_append]
      rfl

theorem getElem?_partsOf {chunks : List SdpChunk} (h : (chunks.map SdpChunk.seq).Nodup)
    {c : SdpChunk} (hc : c ∈ chunks) : (partsOf chunks)[c.chunk.seq]? = some c.sdp := by
  induction chunks using List.reverseRecOn with
  | nil => cases hc
  | append_singleton chunks last ih =>
      rw [List.map_append, List.map_singleton, List.nodup_append_comm] at h
      obtain ⟨hnot, hnodup⟩ := List.nodup_cons.mp h
      rw [partsOf_append, Maps.getElem?_insert_ite]
      rcases List.mem_append.mp hc with hc | hc
      · rw [if_neg, ih hnodup hc]
        intro heq
        exact hnot (List.mem_map.mpr ⟨c, hc, heq⟩)
      · rw [List.mem_singleton.mp hc, if_pos rfl]

/-- Parts that are all there are joined in order. -/
theorem joined_eq {parts : Std.ExtTreeMap ℕ Str} {slices : List Str} {n : ℕ}
    (hn : n ≤ slices.length)
    (h : ∀ i, i < n → parts[i]? = slices[i]?) : joined parts n = some (slices.take n).flatten := by
  induction n with
  | zero => rfl
  | succ n ih =>
      have hslice : slices[n]? = some slices[n] := List.getElem?_eq_getElem hn
      rw [joined, ih (by omega) fun i hi => h i (by omega), h n (by omega), List.take_add_one,
        hslice]
      show some _ = some _
      rw [List.flatten_append]
      simp

/-! ### Transfers -/

/-- A description with the chunks it was split into. -/
structure Transfer where
  sdp : Str
  id : Str
  budget : ℕ
  chunks : List SdpChunk
  split : splitSdp sdp id budget = some chunks

namespace Transfer

variable {t : Transfer} (hfew : t.chunks.length ≤ u32Max)
include hfew

theorem slices : ∃ slices : List Str, slices.flatten = t.sdp ∧ slices.length = t.chunks.length ∧
    ∀ i : ℕ, t.chunks[i]? =
      slices[i]?.map fun slice => SdpChunk.mk ⟨t.id, i, t.chunks.length⟩ slice := by
  obtain ⟨slices, heq, hjoined, -⟩ := splitSdp_eq_some t.split
  have hlength : t.chunks.length = slices.length := by rw [heq, length_numbered]
  refine ⟨slices, hjoined, hlength.symm, ?_⟩
  intro i
  rw [hlength, heq]
  exact getElem?_numbered t.id (hlength ▸ hfew) i

/-- The chunks of a transfer bear its id, how many they are, and their number. -/
theorem chunk_eq {c : SdpChunk} (hc : c ∈ t.chunks) :
    c.chunk.id = t.id ∧ c.chunk.total = t.chunks.length ∧ c.chunk.seq < t.chunks.length := by
  obtain ⟨slices, -, hlength, hchunks⟩ := slices hfew
  obtain ⟨i, hi⟩ := List.mem_iff_getElem?.mp hc
  obtain ⟨hlt, -⟩ := List.getElem?_eq_some_iff.mp hi
  rw [hchunks, Option.map_eq_some_iff] at hi
  obtain ⟨slice, -, rfl⟩ := hi
  exact ⟨rfl, rfl, hlt⟩

/-- The chunks of a transfer are numbered from nought. -/
theorem numbers : t.chunks.map SdpChunk.chunk =
    (List.range t.chunks.length).map fun seq => ⟨t.id, seq, t.chunks.length⟩ := by
  obtain ⟨slices, -, hlength, hchunks⟩ := slices hfew
  refine List.ext_getElem? ?_
  intro i
  rw [List.getElem?_map, List.getElem?_map, hchunks, Option.map_map]
  rcases Nat.lt_or_ge i t.chunks.length with hlt | hge
  · rw [List.getElem?_range hlt, List.getElem?_eq_getElem (show i < slices.length by omega)]
    rfl
  · rw [List.getElem?_eq_none (show slices.length ≤ i by omega),
      List.getElem?_eq_none (by rw [List.length_range]; exact hge)]
    rfl

theorem seqs : t.chunks.map SdpChunk.seq = List.range t.chunks.length := by
  have hnumbers := congrArg (List.map ChunkMeta.seq) (numbers hfew)
  rw [List.map_map, List.map_map] at hnumbers
  exact hnumbers.trans (List.map_id _)

/-- **What was cut is put together** when all of it is there, in whatever order it came. -/
theorem joined_eq {chunks : List SdpChunk} (hperm : chunks.Perm t.chunks) :
    joined (partsOf chunks) t.chunks.length = some t.sdp := by
  obtain ⟨slices, hjoined, hlength, hchunks⟩ := slices hfew
  have hnodup : (chunks.map SdpChunk.seq).Nodup := by
    rw [(hperm.map SdpChunk.seq).nodup_iff, seqs hfew]
    exact List.nodup_range
  have hjoin : (∀ i, i < t.chunks.length → (partsOf chunks)[i]? = slices[i]?) →
      joined (partsOf chunks) t.chunks.length = some (slices.take t.chunks.length).flatten :=
    Voice.joined_eq hlength.ge
  rw [hjoin, List.take_of_length_le hlength.le, hjoined]
  intro i hi
  have hslice : slices[i]? = some slices[i] := List.getElem?_eq_getElem (hlength ▸ hi)
  have hchunk := hchunks i
  rw [hslice, Option.map_some] at hchunk
  rw [hslice]
  exact getElem?_partsOf hnodup (hperm.mem_iff.mpr (List.mem_of_getElem? hchunk))

end Transfer

/-! ### Arrivals -/

/-- The chunks of one transfer among those that arrive. -/
def Transfer.mine (t : Transfer) (chunks : List SdpChunk) : List SdpChunk :=
  chunks.filter fun c => c.chunk.id == t.id

theorem Transfer.mine_append (t : Transfer) (a b : List SdpChunk) :
    t.mine (a ++ b) = t.mine a ++ t.mine b := List.filter_append _ _

theorem Transfer.mine_cons {t : Transfer} {c : SdpChunk} (h : c.chunk.id = t.id)
    (chunks : List SdpChunk) : t.mine (c :: chunks) = c :: t.mine chunks := by
  unfold mine
  rw [List.filter_cons, if_pos (beq_iff_eq.mpr h)]

theorem Transfer.mine_cons_of_ne {t : Transfer} {c : SdpChunk} (h : c.chunk.id ≠ t.id)
    (chunks : List SdpChunk) : t.mine (c :: chunks) = t.mine chunks := by
  unfold mine
  rw [List.filter_cons, if_neg fun heq => h (beq_iff_eq.mp heq)]

/-- Transfers that a reassembler takes on at once: each has an id of its own, there are no more than
may be put together at once, and none has more chunks than it may have. -/
structure Family (family : List Transfer) (maxChunks maxConcurrent : ℕ) : Prop where
  ids : (family.map Transfer.id).Nodup
  few : family.length ≤ maxConcurrent
  chunks : ∀ t ∈ family, t.chunks.length ≤ maxChunks
  fits : ∀ t ∈ family, t.chunks.length ≤ u32Max

/-- What a reassembler holds when some chunks have arrived and the others are still to come: of each
transfer that has begun and is not complete, its chunks that arrived. -/
structure Arrived (family : List Transfer) (maxChunks maxConcurrent : ℕ) (r : SdpReassembler)
    (before after : List SdpChunk) : Prop where
  maxChunks : r.maxChunks = maxChunks
  maxConcurrent : r.maxConcurrent = maxConcurrent
  held : ∀ t ∈ family, r.partials[t.id]? =
    if t.mine before = [] ∨ t.mine after = [] then none
    else some ⟨t.chunks.length, partsOf (t.mine before)⟩
  only : ∀ id ∈ r.partials, id ∈ family.map Transfer.id

section Arrivals

variable {family : List Transfer} {maxChunks maxConcurrent : ℕ}
  (hfamily : Family family maxChunks maxConcurrent)
include hfamily

/-- Transfers of one id are one transfer. -/
theorem Family.eq_of_id {t u : Transfer} (ht : t ∈ family) (hu : u ∈ family) (h : t.id = u.id) :
    t = u := List.inj_on_of_nodup_map hfamily.ids ht hu h

theorem Family.id_of_mem {t : Transfer} (ht : t ∈ family) {c : SdpChunk} (hc : c ∈ t.chunks) :
    c.chunk.id = t.id := (t.chunk_eq (hfamily.fits t ht) hc).1

/-- The chunks of a transfer among all chunks are its own. -/
theorem Family.mine_all {t : Transfer} (ht : t ∈ family) :
    t.mine (family.flatMap Transfer.chunks) = t.chunks := by
  have hnodup : family.Nodup := hfamily.ids.of_map
  have hown : t.mine t.chunks = t.chunks := by
    refine List.filter_eq_self.mpr ?_
    intro c hc
    exact beq_iff_eq.mpr (hfamily.id_of_mem ht hc)
  unfold Transfer.mine at hown ⊢
  rw [List.filter_flatMap, flatMap_eq_of_unique ht hnodup, hown]
  intro u hu hne
  refine List.filter_eq_nil_iff.mpr ?_
  intro c hc hid
  exact hne (hfamily.eq_of_id hu ht ((hfamily.id_of_mem hu hc).symm.trans (beq_iff_eq.mp hid)))

/-- **One chunk** is held with the others of its transfer, and completes it when it is the last. -/
theorem Arrived.push {r : SdpReassembler} {before after : List SdpChunk} {c : SdpChunk}
    (h : Arrived family maxChunks maxConcurrent r before (c :: after))
    (hperm : (before ++ c :: after).Perm (family.flatMap Transfer.chunks)) :
    Arrived family maxChunks maxConcurrent (r.push c.chunk c.sdp).1 (before ++ [c]) after ∧
      ∀ t ∈ family, c.chunk.id = t.id →
        (r.push c.chunk c.sdp).2 = if t.mine after = [] then some t.sdp else none := by
  obtain ⟨t, ht, hc⟩ := List.mem_flatMap.mp
    (hperm.subset (List.mem_append_right _ List.mem_cons_self))
  have hfew := hfamily.fits t ht
  obtain ⟨hid, htotal, hseq⟩ := t.chunk_eq hfew hc
  have hmine : (t.mine (before ++ [c]) ++ t.mine after).Perm t.chunks := by
    rw [← Transfer.mine_append, List.append_assoc, ← hfamily.mine_all ht]
    exact hperm.filter _
  have hown : t.mine (before ++ [c]) = t.mine before ++ [c] := by
    rw [Transfer.mine_append, Transfer.mine_cons hid]
    rfl
  have hlength : (t.mine (before ++ [c])).length + (t.mine after).length = t.chunks.length := by
    rw [← List.length_append]
    exact hmine.length_eq
  have hnodup : ((t.mine (before ++ [c])).map SdpChunk.seq).Nodup := by
    have hall : ((t.mine (before ++ [c]) ++ t.mine after).map SdpChunk.seq).Nodup := by
      rw [(hmine.map SdpChunk.seq).nodup_iff, Transfer.seqs hfew]
      exact List.nodup_range
    rw [List.map_append] at hall
    exact hall.of_append_left
  have hparts : (partsOf (t.mine before)).insert c.chunk.seq c.sdp =
      partsOf (t.mine (before ++ [c])) := by rw [hown, partsOf_append]
  have hheld : r.partials[c.chunk.id]?.getD ⟨c.chunk.total, ∅⟩ =
      ⟨t.chunks.length, partsOf (t.mine before)⟩ := by
    rw [hid, htotal, h.held t ht, Transfer.mine_cons hid]
    by_cases hnone : t.mine before = []
    · rw [if_pos (.inl hnone), hnone]
      rfl
    · rw [if_neg (by simp [hnone])]
      rfl
  have hroom : ¬(c.chunk.id ∉ r.partials ∧ r.maxConcurrent ≤ r.partials.size) := by
    rintro ⟨hnot, hfull⟩
    have hlt := Maps.size_lt_length h.only (List.mem_map_of_mem ht) (hid ▸ hnot)
    have := hfamily.few
    rw [List.length_map] at hlt
    rw [h.maxConcurrent] at hfull
    omega
  have hpush : r.push c.chunk c.sdp =
      if t.mine after = [] then
        ({ r with partials := r.partials.erase t.id }, some t.sdp)
      else
        ({ r with partials :=
            r.partials.insert t.id ⟨t.chunks.length, partsOf (t.mine (before ++ [c]))⟩ },
              none) := by
    have hbounds := hfamily.chunks t ht
    unfold SdpReassembler.push
    rw [if_neg (by rw [h.maxChunks]; omega), if_neg hroom, hheld]
    dsimp only
    rw [if_neg (by simp [htotal]), hparts, size_partsOf hnodup, hid, htotal]
    by_cases hlast : t.mine after = []
    · rw [hlast, List.append_nil] at hmine
      rw [if_pos hlast, if_neg (by simp [hmine.length_eq]), Transfer.joined_eq hfew hmine]
    · have hpos := List.length_pos_of_ne_nil hlast
      rw [if_neg hlast, if_pos (by omega)]
  refine ⟨⟨?_, ?_, ?_, ?_⟩, ?_⟩
  · rw [hpush]
    split
    · exact h.maxChunks
    · exact h.maxChunks
  · rw [hpush]
    split
    · exact h.maxConcurrent
    · exact h.maxConcurrent
  · intro u hu
    by_cases hsame : u.id = t.id
    · obtain rfl := hfamily.eq_of_id hu ht hsame
      rw [hpush]
      by_cases hlast : u.mine after = []
      · rw [if_pos hlast, if_pos (.inr hlast)]
        show (r.partials.erase u.id)[u.id]? = none
        rw [Maps.getElem?_erase_ite, if_pos rfl]
      · rw [if_neg hlast, if_neg (by simp [hlast, hown])]
        show (r.partials.insert u.id _)[u.id]? = _
        rw [Maps.getElem?_insert_ite, if_pos rfl]
    · have hother : c.chunk.id ≠ u.id := fun heq => hsame (heq.symm.trans hid)
      have hbefore : u.mine (before ++ [c]) = u.mine before := by
        rw [Transfer.mine_append, Transfer.mine_cons_of_ne hother]
        exact List.append_nil _
      rw [hbefore, ← Transfer.mine_cons_of_ne hother after, ← h.held u hu, hpush]
      split
      · show (r.partials.erase t.id)[u.id]? = _
        rw [Maps.getElem?_erase_ite, if_neg hsame]
      · show (r.partials.insert t.id _)[u.id]? = _
        rw [Maps.getElem?_insert_ite, if_neg hsame]
  · intro id hmem
    rw [hpush] at hmem
    split at hmem
    · exact h.only id (Std.ExtTreeMap.mem_of_mem_erase hmem)
    · rcases Std.ExtTreeMap.mem_insert.mp hmem with heq | hmem
      · rw [← Std.LawfulEqOrd.eq_of_compare heq]
        exact List.mem_map_of_mem ht
      · exact h.only id hmem
  · intro u hu hsame
    obtain rfl := hfamily.eq_of_id hu ht (hsame.symm.trans hid)
    rw [hpush]
    split
    · rfl
    · rfl

/-- **Every chunk.**  Whatever has arrived of the transfers, in whatever order, the reassembler
holds what is not complete yet. -/
theorem arrived_pushAll (before after : List SdpChunk)
    (hperm : (before ++ after).Perm (family.flatMap Transfer.chunks)) :
    Arrived family maxChunks maxConcurrent
      ((SdpReassembler.withBounds maxChunks maxConcurrent).pushAll before) before after := by
  induction before using List.reverseRecOn generalizing after with
  | nil =>
      refine ⟨rfl, rfl, ?_, ?_⟩
      · intro t ht
        rw [if_pos (.inl rfl)]
        exact Std.ExtTreeMap.getElem?_empty
      · intro id hmem
        exact absurd hmem Std.ExtTreeMap.not_mem_empty
  | append_singleton before c ih =>
      rw [List.append_assoc] at hperm
      rw [SdpReassembler.pushAll, List.foldl_append]
      exact (Arrived.push hfamily (ih (c :: after) hperm) hperm).1

end Arrivals

/-! ### There and back -/

theorem mine_eq_nil {t : Transfer} {chunks : List SdpChunk} :
    t.mine chunks = [] ↔ ∀ other ∈ chunks, other.chunk.id ≠ t.id := by
  refine List.filter_eq_nil_iff.trans ?_
  simp

/-- **Cut and put together.**  A description is split whenever it does not fit, into chunks that are
its own, none of them empty, each within the budget or a single character, and numbered as far as a
`u32` counts.  The chunks of several transfers, in any order, give back each description with the
chunk that is its last to arrive, and nothing before; and nothing is left. -/
theorem chunks_round_trip :
    (∀ (sdp id : Str) (budget : ℕ),
      (splitSdp sdp id budget).isSome = true ↔ 0 < budget ∧ budget < byteLen sdp) ∧
    (∀ (sdp id : Str) (budget : ℕ) (chunks : List SdpChunk),
      splitSdp sdp id budget = some chunks →
        (chunks.map SdpChunk.sdp).flatten = sdp ∧
        (∀ c ∈ chunks, c.sdp ≠ [] ∧ (byteLen c.sdp ≤ budget ∨ c.sdp.length = 1)) ∧
        (chunks.length ≤ u32Max → chunks.map SdpChunk.chunk =
          (List.range chunks.length).map fun seq => ⟨id, seq, chunks.length⟩)) ∧
    (∀ (family : List Transfer) (maxChunks maxConcurrent : ℕ) (arrivals : List SdpChunk),
      Family family maxChunks maxConcurrent → arrivals.Perm (family.flatMap Transfer.chunks) →
        (∀ before c after, arrivals = before ++ c :: after → ∀ t ∈ family, c.chunk.id = t.id →
          (((SdpReassembler.withBounds maxChunks maxConcurrent).pushAll before).push
              c.chunk c.sdp).2 =
            if ∀ other ∈ after, other.chunk.id ≠ t.id then some t.sdp else none) ∧
        ((SdpReassembler.withBounds maxChunks maxConcurrent).pushAll arrivals).pendingLen = 0) := by
  refine ⟨fun sdp id budget => splitSdp_isSome, ?_, ?_⟩
  · intro sdp id budget chunks hsplit
    obtain ⟨slices, hchunks, hjoined, heach⟩ := splitSdp_eq_some hsplit
    have hslices : chunks.map SdpChunk.sdp = slices := by
      rw [hchunks, numbered, List.map_map]
      exact List.zipIdx_map_fst 0 slices
    refine ⟨by rw [hslices, hjoined], ?_, Transfer.numbers (t := ⟨sdp, id, budget, chunks, hsplit⟩)⟩
    intro c hc
    exact heach c.sdp (hslices ▸ List.mem_map_of_mem hc)
  · intro family maxChunks maxConcurrent arrivals hfamily hperm
    constructor
    · intro before c after harrivals t ht hid
      rw [harrivals] at hperm
      rw [(Arrived.push hfamily (arrived_pushAll hfamily before _ hperm) hperm).2 t ht hid]
      exact if_congr mine_eq_nil rfl rfl
    · have hall := arrived_pushAll hfamily arrivals [] (by rw [List.append_nil]; exact hperm)
      have hnone : ((SdpReassembler.withBounds maxChunks maxConcurrent).pushAll arrivals).partials =
          ∅ := by
        refine Std.ExtTreeMap.ext_getElem? ?_
        intro id
        rw [Std.ExtTreeMap.getElem?_empty]
        by_contra hsome
        have hmem := Std.ExtTreeMap.isSome_getElem?_iff_mem.mp (Option.isSome_iff_ne_none.mpr hsome)
        obtain ⟨t, ht, rfl⟩ := List.mem_map.mp (hall.only id hmem)
        rw [hall.held t ht, if_pos (.inr rfl)] at hsome
        exact hsome rfl
      unfold SdpReassembler.pendingLen
      rw [hnone]
      rfl

/-- Two descriptions in chunks of two bytes. -/
def accented : Transfer :=
    ⟨"aéb", "call", 2, numbered "call" [("a" : Str), "é", "b"], by decide +kernel⟩

def plain : Transfer := ⟨"xyz", "other", 2, numbered "other" [("xy" : Str), "z"], by decide +kernel⟩

/-- Their chunks arrive mixed up, and nothing is left. -/
theorem chunks_round_trip_two :
    ((SdpReassembler.withBounds 64 16).pushAll
      (plain.chunks.reverse ++ accented.chunks.reverse)).pendingLen = 0 := by
  refine (chunks_round_trip.2.2 [plain, accented] 64 16 _ ⟨?_, ?_, ?_, ?_⟩ ?_).2
  · decide +kernel
  · decide +kernel
  · decide +kernel
  · decide +kernel
  · rw [List.flatMap_cons, List.flatMap_singleton]
    exact (List.reverse_perm _).append (List.reverse_perm _)

/-- Of a text of one-byte characters, cut to single bytes, there are as many chunks as characters;
when a `u32` does not count them, they are not numbered up to how many they are. -/
theorem not_numbered {n : ℕ} (hn : u32Max < n) (id : Str) :
    ∃ chunks, splitSdp (List.replicate n 'a') id 1 = some chunks ∧
      ¬ ∃ total, chunks.map SdpChunk.chunk =
        (List.range total).map fun seq => ⟨id, seq, total⟩ := by
  have hsize : byteLen (List.replicate n 'a') = n := by
    rw [byteLen_eq, Cuts.size, List.map_replicate, List.sum_replicate, smul_eq_mul]
    exact Nat.mul_one n
  have hsome : (splitSdp (List.replicate n 'a') id 1).isSome = true := by
    have : 0 < u32Max := by decide
    exact splitSdp_isSome.mpr ⟨Nat.one_pos, by omega⟩
  obtain ⟨chunks, hchunks⟩ := Option.isSome_iff_exists.mp hsome
  refine ⟨chunks, hchunks, ?_⟩
  obtain ⟨slices, rfl, hjoined, heach⟩ := splitSdp_eq_some hchunks
  -- every slice is one character
  have hone : ∀ slice ∈ slices, slice.length = 1 := by
    intro slice hslice
    obtain ⟨hne, hfits | hone⟩ := heach slice hslice
    · have hle := Cuts.length_le_size Char.utf8Size_pos slice
      rw [← byteLen_eq] at hle
      have := List.length_pos_of_ne_nil hne
      omega
    · exact hone
  have hmany : slices.length = n := by
    have hlength := congrArg List.length hjoined
    rw [List.length_flatten, List.length_replicate] at hlength
    rw [← hlength, List.map_congr_left (g := fun _ => 1) hone, List.map_const', List.sum_replicate]
    simp
  rintro ⟨total, hnumbers⟩
  have htotal : total = n := by
    have hlength := congrArg List.length hnumbers
    rw [List.length_map, length_numbered, List.length_map, List.length_range, hmany] at hlength
    exact hlength.symm
  have hfirst := congrArg (·[0]?) hnumbers
  obtain ⟨slice, rest, rfl⟩ := List.exists_cons_of_length_pos (show 0 < slices.length by omega)
  have hrange : (List.range total)[0]? = some 0 := List.getElem?_range (by omega)
  simp only [numbered, List.zipIdx_cons, List.map_cons, List.getElem?_map, hrange] at hfirst
  have heq : orU32Max (slice :: rest).length = total :=
    congrArg ChunkMeta.total (Option.some.inj hfirst)
  rw [hmany, htotal] at heq
  have := min_le_right n u32Max
  unfold orU32Max at heq
  omega

/-- A description of four gibibytes. -/
theorem not_numbered_gib : ∃ chunks, splitSdp (List.replicate (2 ^ 32) 'a') "call" 1 = some chunks ∧
    ¬ ∃ total, chunks.map SdpChunk.chunk =
      (List.range total).map fun seq => ⟨("call" : Str), seq, total⟩ :=
  not_numbered (by decide) "call"

end ObbyClient.Voice

import ObbyClient.Engine.Voice
import ObbyClient.Lib.Cuts
import ObbyClient.Lib.Utf8

/-!
# Session descriptions in chunks

A description that is too long for one tag is cut into numbered chunks.

* `charChunks` — cutting a text at the boundaries of its characters: `charChunks_spec`;
* `splitSdp` — the chunks, numbered: `splitSdp_eq_some`, `splitSdp_isSome`.
-/

namespace ObbyClient.Voice

open Cuts

/-- The bytes of a text. -/
def byteLen (s : Str) : ℕ := (Utf8.encode s).length

/-- A number as a `u32`, or the largest one. -/
def orU32Max (n : ℕ) : ℕ := min n u32Max

/-! ### Cutting -/

/-- One numbered slice of a description. -/
structure SdpChunk where
  chunk : ChunkMeta
  sdp : Str
  deriving DecidableEq

/-- The last character boundary that is not after this position, or the start. -/
def roundDown (s : Str) (start : ℕ) : ℕ → ℕ
  | 0 => 0
  | stop + 1 =>
      if start < stop + 1 ∧ isBoundary Char.utf8Size s (stop + 1) =
        false then roundDown s start stop
      else stop + 1

/-- The first character boundary that is not before this position.  A character has at most four
bytes, and the text has no fewer than are left to try. -/
def roundUp (s : Str) : ℕ → ℕ → ℕ
  | 0, stop => stop
  | left + 1, stop =>
      if stop < byteLen s ∧ isBoundary Char.utf8Size s stop = false then roundUp s left (stop + 1)
      else stop

/-- Where the chunk that starts here ends. -/
def chunkEnd (s : Str) (budget start : ℕ) : ℕ :=
  let stop := roundDown s start (min (start + budget) (byteLen s))
  -- a character that is wider than the budget has a chunk to itself
  if stop = start then roundUp s (byteLen s) (start + 1) else stop

/-- The chunks from here on.  Every chunk has a byte at least, so the text has no fewer bytes than
chunks are left. -/
def charChunksFrom (s : Str) (budget : ℕ) : ℕ → ℕ → Option (List Str)
  | 0, start => if start < byteLen s then none else some []
  | left + 1, start =>
      if start < byteLen s then do
        let stop := chunkEnd s budget start
        let piece ← slice Char.utf8Size s start stop
        let rest ← charChunksFrom s budget left stop
        some (piece :: rest)
      else some []

/-- Cut a text into pieces of at most `budget` bytes, never splitting a character. -/
def charChunks (s : Str) (budget : ℕ) : Option (List Str) := charChunksFrom s budget (byteLen s) 0

/-- Slices with their numbers. -/
def numbered (id : Str) (slices : List Str) : List SdpChunk :=
  slices.zipIdx.map fun p => ⟨⟨id, orU32Max p.2, orU32Max slices.length⟩, p.1⟩

/-- Split a description into chunks; `none` when it fits as it is. -/
def splitSdp (sdp id : Str) (budget : ℕ) : Option (List SdpChunk) :=
  if budget = 0 ∨ byteLen sdp ≤ budget then none
  else (charChunks sdp budget).map (numbered id)

theorem byteLen_eq (s : Str) : byteLen s = size Char.utf8Size s := by
  unfold byteLen
  induction s with
  | nil => rfl
  | cons c s ih =>
      rw [Utf8.encode_cons, List.length_append, String.length_utf8EncodeChar, ih, size_cons]

theorem byteLen_append (a b : Str) : byteLen (a ++ b) = byteLen a + byteLen b := by
  rw [byteLen_eq, byteLen_eq, byteLen_eq, size_append]

/-- Rounding down ends at a boundary, or at the start when no boundary comes after it. -/
theorem roundDown_spec (s : Str) {start stop : ℕ} (hle : start ≤ stop) :
    start ≤ roundDown s start stop ∧ roundDown s start stop ≤ stop ∧
      (roundDown s start stop = start ∨
        isBoundary Char.utf8Size s (roundDown s start stop) = true) := by
  induction stop with
  | zero =>
      refine ⟨hle, le_rfl, .inl ?_⟩
      rw [roundDown]
      omega
  | succ stop ih =>
      rw [roundDown]
      by_cases h : start < stop + 1 ∧ isBoundary Char.utf8Size s (stop + 1) = false
      · rw [if_pos h]
        obtain ⟨hstart, hstop, hend⟩ := ih (by omega)
        exact ⟨hstart, by omega, hend⟩
      · rw [if_neg h]
        refine ⟨hle, le_rfl, ?_⟩
        by_cases hlt : start < stop + 1
        · exact .inr (Bool.eq_true_of_not_eq_false fun hnot => h ⟨hlt, hnot⟩)
        · exact .inl (by omega)

/-- Rounding up ends at the first boundary there is. -/
theorem roundUp_eq {s : Str} {left stop bound : ℕ} (hle : stop ≤ bound)
    (hleft : bound - stop ≤ left)
    (hend : bound ≤ byteLen s) (hbound : isBoundary Char.utf8Size s bound = true)
    (hinside : ∀ n, stop ≤ n → n < bound → isBoundary Char.utf8Size s n = false) :
    roundUp s left stop = bound := by
  induction left generalizing stop with
  | zero =>
      rw [roundUp]
      omega
  | succ left ih =>
      rw [roundUp]
      rcases hle.eq_or_lt with rfl | hlt
      · rw [if_neg]
        rintro ⟨-, hnot⟩
        rw [hbound] at hnot
        cases hnot
      · rw [if_pos ⟨by omega, hinside stop le_rfl hlt⟩]
        exact ih (by omega) (by omega) fun n hn => hinside n (by omega)

/-- **A chunk** is not empty, and is within the budget or a single character. -/
theorem chunkEnd_spec (before rest : Str) (budget : ℕ) (hrest : rest ≠ []) :
    ∃ piece after, rest = piece ++ after ∧ piece ≠ [] ∧
      chunkEnd (before ++ rest) budget (byteLen before) = byteLen before + byteLen piece ∧
      (byteLen piece ≤ budget ∨ piece.length = 1) := by
  have hpos := Char.utf8Size_pos
  have hle : byteLen before ≤ min (byteLen before + budget) (byteLen (before ++ rest)) := by
    simp only [byteLen_eq, size_append]
    omega
  obtain ⟨hstart, hstop, hend⟩ := roundDown_spec (before ++ rest) hle
  unfold chunkEnd
  dsimp only
  simp only [byteLen_eq] at hstart hstop hend ⊢
  generalize roundDown (before ++ rest) (size Char.utf8Size before)
    (min (size Char.utf8Size before + budget) (size Char.utf8Size (before ++ rest))) = stop at *
  by_cases hself : stop = size Char.utf8Size before
  · rw [if_pos hself]
    cases rest with
    | nil => exact absurd rfl hrest
    | cons c rest =>
        refine ⟨[c], rest, rfl, List.cons_ne_nil _ _, ?_, .inr rfl⟩
        have hc := hpos c
        have hone : size Char.utf8Size [c] = c.utf8Size := by
          rw [size_cons, size_nil, Nat.add_zero]
        have hall : size Char.utf8Size (before ++ c :: rest) =
            size Char.utf8Size before + (c.utf8Size + size Char.utf8Size rest) := by
          rw [size_append, size_cons]
        rw [hone]
        refine roundUp_eq (by omega) (by omega) ?_ ?_ ?_
        · rw [byteLen_eq]
          omega
        · refine (isBoundary_iff hpos).mpr ⟨before ++ [c], rest, by simp, ?_⟩
          rw [size_append, size_cons, size_nil, Nat.add_zero]
        · intro n hn hlt
          exact not_isBoundary_inside hpos (by omega) hlt
  · rw [if_neg hself]
    have hboundary := hend.resolve_left hself
    obtain ⟨a, after, heq, hsize⟩ := (isBoundary_iff hpos).mp hboundary
    obtain ⟨piece, rfl, hpiece⟩ := exists_suffix hpos heq (by omega)
    rw [size_append] at hsize
    refine ⟨piece, after, hpiece, ?_, hsize.symm, .inl ?_⟩
    · rintro rfl
      rw [size_nil] at hsize
      omega
    · omega

/-- Cutting ends, and what it cut is the text. -/
theorem charChunksFrom_spec (budget : ℕ) {left : ℕ} (before : Str) {rest : Str}
    (hleft : byteLen rest ≤ left) :
    ∃ pieces, charChunksFrom (before ++ rest) budget left (byteLen before) = some pieces ∧
      pieces.flatten = rest ∧
      ∀ piece ∈ pieces, piece ≠ [] ∧ (byteLen piece ≤ budget ∨ piece.length = 1) := by
  have hpos := Char.utf8Size_pos
  induction left generalizing before rest with
  | zero =>
      rw [byteLen_eq] at hleft
      have hnil : rest = [] := (size_eq_zero hpos).mp (Nat.le_zero.mp hleft)
      refine ⟨[], ?_, hnil.symm, by simp⟩
      rw [charChunksFrom, hnil, List.append_nil, if_neg (lt_irrefl _)]
  | succ left ih =>
      by_cases hnil : rest = []
      · refine ⟨[], ?_, hnil.symm, by simp⟩
        rw [charChunksFrom, hnil, List.append_nil, if_neg (lt_irrefl _)]
      · obtain ⟨piece, after, rfl, hpiece, hstop, hfits⟩ := chunkEnd_spec before rest budget hnil
        have hwide : byteLen piece ≠ 0 := fun h =>
          hpiece ((size_eq_zero hpos).mp (byteLen_eq _ ▸ h))
        rw [byteLen_append] at hleft
        have hafter : byteLen after ≤ left := by omega
        obtain ⟨pieces, hpieces, hjoined, heach⟩ := ih (before ++ piece) hafter
        refine ⟨piece :: pieces, ?_, ?_, ?_⟩
        · rw [charChunksFrom, if_pos (by rw [byteLen_append, byteLen_append]; omega), hstop]
          dsimp only
          rw [← List.append_assoc, byteLen_eq, byteLen_eq, slice_append hpos]
          rw [← size_append, ← byteLen_eq, hpieces]
          rfl
        · rw [List.flatten_cons, hjoined]
        · intro other hother
          rcases List.mem_cons.mp hother with rfl | hother
          · exact ⟨hpiece, hfits⟩
          · exact heach other hother

/-- Every text is cut into pieces that are its own. -/
theorem charChunks_spec (s : Str) (budget : ℕ) :
    ∃ pieces, charChunks s budget = some pieces ∧ pieces.flatten = s ∧
      ∀ piece ∈ pieces, piece ≠ [] ∧ (byteLen piece ≤ budget ∨ piece.length = 1) :=
  charChunksFrom_spec budget [] le_rfl

@[simp] theorem length_numbered (id : Str) (slices : List Str) :
    (numbered id slices).length = slices.length := by
  rw [numbered, List.length_map, List.length_zipIdx]

theorem getElem?_numbered (id : Str) {slices : List Str} (hfew : slices.length ≤ u32Max) (i : ℕ) :
    (numbered id slices)[i]? =
      slices[i]?.map fun slice => ⟨⟨id, i, slices.length⟩, slice⟩ := by
  rw [numbered, List.getElem?_map, List.getElem?_zipIdx, Option.map_map]
  cases hslice : slices[i]? with
  | none => rfl
  | some slice =>
      obtain ⟨hlt, -⟩ := List.getElem?_eq_some_iff.mp hslice
      have hnumber : orU32Max (0 + i) = i := by
        rw [Nat.zero_add]
        exact min_eq_left (by omega)
      have htotal : orU32Max slices.length = slices.length := min_eq_left hfew
      show some _ = some _
      dsimp only [Function.comp]
      rw [hnumber, htotal]

/-- What a description is split into. -/
theorem splitSdp_eq_some {sdp id : Str} {budget : ℕ} {chunks : List SdpChunk}
    (h : splitSdp sdp id budget = some chunks) :
    ∃ slices, chunks = numbered id slices ∧ slices.flatten = sdp ∧
      ∀ slice ∈ slices, slice ≠ [] ∧ (byteLen slice ≤ budget ∨ slice.length = 1) := by
  unfold splitSdp at h
  split at h
  · cases h
  · obtain ⟨slices, hslices, rfl⟩ := Option.map_eq_some_iff.mp h
    obtain ⟨pieces, hpieces, hjoined, heach⟩ := charChunks_spec sdp budget
    rw [hslices, Option.some_inj] at hpieces
    rw [← hpieces] at hjoined heach
    exact ⟨slices, rfl, hjoined, heach⟩

/-- Whatever does not fit is split. -/
theorem splitSdp_isSome {sdp id : Str} {budget : ℕ} :
    (splitSdp sdp id budget).isSome = true ↔ 0 < budget ∧ budget < byteLen sdp := by
  unfold splitSdp
  obtain ⟨pieces, hpieces, -⟩ := charChunks_spec sdp budget
  rw [hpieces]
  split
  · refine iff_of_false Bool.false_ne_true ?_
    omega
  · refine iff_of_true rfl ?_
    omega

end ObbyClient.Voice

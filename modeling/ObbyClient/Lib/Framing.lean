import ObbyClient.Lib.Text

/-!
# Framing a stream that arrives in pieces

A framer holds what it was fed until a separator completes it.  When it holds too much it drops what
it holds and skips what is left of that piece.

* `Framing.feed`, `Framing.feedAll` — one chunk, and several;
* `Framing.Steady` — a stream whose pieces come out alike however it is cut: `Framing.feedAll_eq`;
* `Framing.exists_cut` — any other stream has a cut that shows.
-/

namespace ObbyClient.Framing

/-- What comes out of a framer. -/
inductive Frame (α : Type) where
  /-- A piece, without its separator. -/
  | line (content : List α)
  /-- More than may be held. -/
  | overflow

/-- What a framer keeps between two chunks. -/
@[ext] structure Framer (α : Type) where
  /-- The piece that is not complete yet. -/
  held : List α
  /-- True while skipping the rest of a piece that was too long. -/
  discarding : Bool

variable {α : Type}

/-- What comes of pieces of which the last is not complete. -/
def frames (max : ℕ) : Bool → List (List α) → List (Frame α) × Framer α
  | discarding, [] => ([], ⟨[], discarding⟩)
  | discarding, [rest] =>
      if max < rest.length then ([.overflow], ⟨[], true⟩) else ([], ⟨rest, discarding⟩)
  | discarding, content :: next :: more =>
      let after := frames max false (next :: more)
      (if discarding then after.1 else .line content :: after.1, after.2)

variable [DecidableEq α] (sep : α) (max : ℕ)

/-- Feed one chunk. -/
def feed (f : Framer α) (data : List α) : List (Frame α) × Framer α :=
  frames max f.discarding ((f.held ++ data).splitOn sep)

/-- Feed several chunks, one after the other. -/
def feedAll (f : Framer α) : List (List α) → List (Frame α) × Framer α
  | [] => ([], f)
  | chunk :: chunks =>
      let first := feed sep max f chunk
      let rest := feedAll first.2 chunks
      (first.1 ++ rest.1, rest.2)

variable {sep max}

/-! ### Pieces -/

/-- Induction on the separators of a stream. -/
@[elab_as_elim]
theorem pieces_induction (sep : α) {P : List α → Prop} (last : ∀ rest, sep ∉ rest → P rest)
    (more : ∀ content rest, sep ∉ content → P rest → P (content ++ sep :: rest)) (s : List α) :
    P s := by
  induction hn : s.length using Nat.strong_induction_on generalizing s with
  | _ n ih =>
      cases hs : splitOnce sep s with
      | none => exact last s (splitOnce_eq_none.mp hs)
      | some p =>
          obtain ⟨heq, hnot⟩ := splitOnce_eq_some.mp hs
          rw [heq]
          exact more p.1 p.2 hnot (ih _ (hn ▸ splitOnce_length_lt hs) p.2 rfl)

theorem splitOn_last {rest : List α} (h : sep ∉ rest) : rest.splitOn sep = [rest] :=
  List.splitOn_eq_singleton h

theorem splitOn_more {content : List α} (h : sep ∉ content) (rest : List α) :
    (content ++ sep :: rest).splitOn sep = content :: rest.splitOn sep :=
  List.splitOn_append_cons_self_of_not_mem h rest

/-- A piece that is complete. -/
theorem frames_more (discarding : Bool) (content rest : List α) :
    frames max discarding (content :: rest.splitOn sep) =
      ((if discarding then [] else [.line content]) ++ (frames max false (rest.splitOn sep)).1,
        (frames max false (rest.splitOn sep)).2) := by
  cases hs : rest.splitOn sep with
  | nil => exact absurd hs (List.splitOn_ne_nil sep rest)
  | cons next more => cases discarding <;> rfl

/-- A framer that holds no separator and not too much is left alone by an empty chunk. -/
theorem feed_nil {f : Framer α} (hsep : sep ∉ f.held) (hmax : f.held.length ≤ max) :
    feed sep max f [] = ([], f) := by
  rw [feed, List.append_nil, splitOn_last hsep, frames, if_neg (Nat.not_lt.mpr hmax)]

/-- Whatever it is fed, a framer comes to hold no separator and not too much. -/
theorem frames_held (s : List α) (discarding : Bool) :
    sep ∉ (frames max discarding (s.splitOn sep)).2.held ∧
      (frames max discarding (s.splitOn sep)).2.held.length ≤ max := by
  induction s using pieces_induction sep generalizing discarding with
  | last rest h =>
      rw [splitOn_last h, frames]
      split
      · exact ⟨List.not_mem_nil, Nat.zero_le max⟩
      · exact ⟨h, by dsimp only; omega⟩
  | more content rest h ih =>
      rw [splitOn_more h, frames_more]
      exact ih false

/-! ### Streams that may be cut anywhere -/

/-- A frame, of which a piece that says as little as an overflow counts as one. -/
def outcome (droppable : List α → Bool) : Frame α → Option (List α)
  | .line content => if droppable content then none else some content
  | .overflow => none

/-- Pieces that come out alike however they are cut.  One too long must say as little as an
overflow, not be long enough for two, and not be skipped; the last may be too long by one. -/
def Steady (max : ℕ) (droppable : List α → Bool) : Bool → List (List α) → Prop
  | _, [] => True
  | _, [rest] => rest.length ≤ max + 1
  | discarding, content :: next :: more =>
      (content.length ≤ max ∨
        discarding = false ∧ content.length ≤ 2 * max + 1 ∧ droppable content = true) ∧
        Steady max droppable false (next :: more)

variable {droppable : List α → Bool}

theorem steady_more (discarding : Bool) (content rest : List α) :
    Steady max droppable discarding (content :: rest.splitOn sep) ↔
      (content.length ≤ max ∨
        discarding = false ∧ content.length ≤ 2 * max + 1 ∧ droppable content = true) ∧
        Steady max droppable false (rest.splitOn sep) := by
  cases hs : rest.splitOn sep with
  | nil => exact absurd hs (List.splitOn_ne_nil sep rest)
  | cons next more => rfl

/-- **One cut of a steady stream does not show**, and what follows it is steady again. -/
theorem frames_append (x y : List α) (discarding : Bool)
    (h : Steady max droppable discarding ((x ++ y).splitOn sep)) :
    ((frames max discarding (x.splitOn sep)).1 ++
        (feed sep max (frames max discarding (x.splitOn sep)).2 y).1).map (outcome droppable) =
      (frames max discarding ((x ++ y).splitOn sep)).1.map (outcome droppable) ∧
    (feed sep max (frames max discarding (x.splitOn sep)).2 y).2 =
      (frames max discarding ((x ++ y).splitOn sep)).2 ∧
    Steady max droppable (frames max discarding (x.splitOn sep)).2.discarding
      (((frames max discarding (x.splitOn sep)).2.held ++ y).splitOn sep) := by
  induction x using pieces_induction sep generalizing discarding with
  | more content rest hnot ih =>
      rw [List.append_assoc, List.cons_append, splitOn_more hnot, steady_more] at h
      rw [List.append_assoc, List.cons_append, splitOn_more hnot, splitOn_more hnot, frames_more,
        frames_more]
      obtain ⟨hframes, hlast, hsteady⟩ := ih false h.2
      refine ⟨?_, hlast, hsteady⟩
      rw [List.append_assoc, List.map_append, hframes, ← List.map_append]
  | last x hnot =>
      rw [splitOn_last hnot, frames]
      by_cases hlong : max < x.length
      · rw [if_pos hlong]
        show (Frame.overflow :: (frames max true (y.splitOn sep)).1).map _ = _ ∧ _ ∧
          Steady max droppable true (y.splitOn sep)
        cases hs : splitOnce sep y with
        | some p =>
            -- the piece is completed: it was long, so it says as little as the overflow it became
            obtain ⟨rfl, hp⟩ := splitOnce_eq_some.mp hs
            have hmem : sep ∉ x ++ p.1 := by
              rw [List.mem_append, not_or]
              exact ⟨hnot, hp⟩
            rw [← List.append_assoc, splitOn_more hmem, steady_more, List.length_append] at h
            obtain ⟨hle | ⟨hd, hle, hdrop⟩, hrest⟩ := h
            · omega
            · subst hd
              rw [← List.append_assoc, splitOn_more hmem, splitOn_more hp, frames_more, frames_more]
              refine ⟨?_, ?_, (steady_more _ _ _).mpr ⟨.inl (by omega), hrest⟩⟩
              · simp [outcome, hdrop]
              · rw [feed, List.nil_append, splitOn_more hp, frames_more]
        | none =>
            have hy := splitOnce_eq_none.mp hs
            have hmem : sep ∉ x ++ y := by
              rw [List.mem_append, not_or]
              exact ⟨hnot, hy⟩
            rw [splitOn_last hmem, Steady, List.length_append] at h
            obtain rfl : y = [] := List.length_eq_zero_iff.mp (by omega)
            rw [List.append_nil, splitOn_last hnot, frames, if_pos hlong]
            refine ⟨?_, ?_, ?_⟩
            · simp [frames]
            · simp [feed, frames]
            · simp [Steady]
      · rw [if_neg hlong]
        exact ⟨rfl, rfl, h⟩

/-- **A steady stream may be cut anywhere.** -/
theorem feedAll_eq (chunks : List (List α)) (f : Framer α) (first : List α)
    (h : Steady max droppable f.discarding ((f.held ++ (first :: chunks).flatten).splitOn sep)) :
    (feedAll sep max f (first :: chunks)).1.map (outcome droppable) =
      (feed sep max f (first :: chunks).flatten).1.map (outcome droppable) ∧
    (feedAll sep max f (first :: chunks)).2 = (feed sep max f (first :: chunks).flatten).2 := by
  induction chunks generalizing f first with
  | nil => simp [feedAll]
  | cons second chunks ih =>
      rw [List.flatten_cons, ← List.append_assoc] at h
      obtain ⟨hframes, hlast, hsteady⟩ := frames_append (f.held ++ first) _ f.discarding h
      obtain ⟨hframes', hlast'⟩ := ih (feed sep max f first).2 second hsteady
      rw [feedAll, List.flatten_cons]
      refine ⟨?_, ?_⟩
      · show ((feed sep max f first).1 ++ _).map _ = _
        rw [List.map_append, hframes', ← List.map_append]
        refine hframes.trans ?_
        rw [List.append_assoc]
        rfl
      · refine hlast'.trans (hlast.trans ?_)
        rw [List.append_assoc]
        rfl

/-! ### Streams that may not -/

/-- How many frames say as little as an overflow. -/
def tally (droppable : List α → Bool) (fs : List (Frame α)) : ℕ :=
  (fs.map (outcome droppable)).countP Option.isNone

omit [DecidableEq α] in
theorem tally_append (fs gs : List (Frame α)) :
    tally droppable (fs ++ gs) = tally droppable fs + tally droppable gs := by
  rw [tally, List.map_append, List.countP_append]
  rfl

omit [DecidableEq α] in
theorem tally_le (fs : List (Frame α)) : tally droppable fs ≤ fs.length :=
  List.countP_le_length.trans (by rw [List.length_map])

/-- Every frame takes an element of the stream. -/
theorem frames_length_le (s : List α) (discarding : Bool) :
    (frames max discarding (s.splitOn sep)).1.length ≤ s.length := by
  induction s using pieces_induction sep generalizing discarding with
  | last rest h =>
      rw [splitOn_last h, frames]
      split
      · exact (Nat.succ_le_of_lt ‹_›).trans' (Nat.succ_le_succ (Nat.zero_le max))
      · exact Nat.zero_le _
  | more content rest h ih =>
      have hrest := ih false
      have hfirst : (if discarding then [] else [Frame.line content]).length ≤ 1 := by
        cases discarding <;> simp
      rw [splitOn_more h, frames_more, List.length_append, List.length_append, List.length_cons]
      omega

theorem feed_length_le {f : Framer α} (hsep : sep ∉ f.held) (hmax : f.held.length ≤ max)
    (data : List α) : (feed sep max f data).1.length ≤ data.length := by
  rw [feed]
  cases hs : splitOnce sep data with
  | none =>
      rw [splitOn_last (by rw [List.mem_append, not_or]; exact ⟨hsep, splitOnce_eq_none.mp hs⟩),
        frames]
      split
      · have hlong : max < (f.held ++ data).length := ‹_›
        rw [List.length_append] at hlong
        show 1 ≤ data.length
        omega
      · exact Nat.zero_le _
  | some p =>
      obtain ⟨rfl, hp⟩ := splitOnce_eq_some.mp hs
      have hmem : sep ∉ f.held ++ p.1 := by
        rw [List.mem_append, not_or]
        exact ⟨hsep, hp⟩
      have hrest : (frames max false (p.2.splitOn sep)).1.length ≤ p.2.length :=
        frames_length_le p.2 false
      have hfirst : (if f.discarding then [] else [Frame.line (f.held ++ p.1)]).length ≤ 1 := by
        cases f.discarding <;> simp
      rw [← List.append_assoc, splitOn_more hmem, frames_more, List.length_append,
        List.length_append, List.length_cons]
      omega

theorem feedAll_length_le {f : Framer α} (hsep : sep ∉ f.held) (hmax : f.held.length ≤ max)
    (chunks : List (List α)) : (feedAll sep max f chunks).1.length ≤ chunks.flatten.length := by
  induction chunks generalizing f with
  | nil => exact Nat.zero_le _
  | cons chunk chunks ih =>
      have hnext : sep ∉ (feed sep max f chunk).2.held ∧
          (feed sep max f chunk).2.held.length ≤ max := frames_held (f.held ++ chunk) f.discarding
      rw [feedAll, List.flatten_cons, List.length_append, List.length_append]
      exact Nat.add_le_add (feed_length_le hsep hmax chunk) (ih hnext.1 hnext.2)

/-- Skipping to the end of a piece. -/
theorem feed_skip {content : List α} (h : sep ∉ content) (rest : List α) :
    feed sep max ⟨[], true⟩ (content ++ sep :: rest) = frames max false (rest.splitOn sep) := by
  rw [feed, List.nil_append, splitOn_more h, frames_more]
  rfl

theorem frames_take {x : List α} (hsep : sep ∉ x) (h : max < x.length) (discarding : Bool) :
    frames max discarding ((x.take (max + 1)).splitOn sep) = ([.overflow], ⟨[], true⟩) := by
  rw [splitOn_last fun hmem => hsep (List.mem_of_mem_take hmem), frames, if_pos]
  rw [List.length_take]
  omega

/-- **Any other stream has a cut that shows**: fewer or more of its frames say nothing, or what is
held differs. -/
theorem exists_cut (s : List α) (discarding : Bool)
    (h : ¬ Steady max droppable discarding (s.splitOn sep)) :
    ∃ x ys, s = x ++ ys.flatten ∧ (max < x.length ∨ sep ∈ x) ∧
      let first := frames max discarding (x.splitOn sep)
      let rest := feedAll sep max first.2 ys
      let whole := frames max discarding (s.splitOn sep)
      tally droppable (first.1 ++ rest.1) ≠ tally droppable whole.1 ∨
        rest.2.held ≠ whole.2.held := by
  induction s using pieces_induction sep generalizing discarding with
  | last s hsep =>
      rw [splitOn_last hsep, Steady] at h
      have hlong : max < s.length := by omega
      refine ⟨s.take (max + 1), [s.drop (max + 1)], by simp, .inl (by simp; omega), ?_⟩
      rw [frames_take hsep hlong, splitOn_last hsep, frames, if_pos hlong]
      have hdrop : sep ∉ s.drop (max + 1) := fun hmem => hsep (List.mem_of_mem_drop hmem)
      dsimp only
      rw [feedAll, feedAll, feed, List.nil_append, splitOn_last hdrop, frames]
      by_cases hmore : max < (s.drop (max + 1)).length
      · left
        rw [if_pos hmore]
        simp [tally, outcome]
      · right
        rw [if_neg hmore]
        intro hnil
        have hlength := congrArg List.length hnil
        rw [List.length_drop, List.length_nil] at hlength
        omega
  | more content rest hsep ih =>
      rw [splitOn_more hsep, steady_more] at h
      by_cases hline : content.length ≤ max ∨
          discarding = false ∧ content.length ≤ 2 * max + 1 ∧ droppable content = true
      · obtain ⟨x, ys, rfl, -, hshows⟩ := ih false fun hsteady => h ⟨hline, hsteady⟩
        refine ⟨content ++ sep :: x, ys, by simp, .inr (by simp), ?_⟩
        rw [splitOn_more hsep, splitOn_more hsep, frames_more, frames_more]
        refine hshows.imp_left fun hne heq => hne ?_
        dsimp only at heq
        rw [List.append_assoc, tally_append, tally_append _ (frames max false _).1] at heq
        exact Nat.add_left_cancel heq
      · rw [not_or] at hline
        obtain ⟨hlong, hnot⟩ := hline
        rw [not_le] at hlong
        have hdrop : sep ∉ content.drop (max + 1) := fun hmem => hsep (List.mem_of_mem_drop hmem)
        have htake : (content ++ sep :: rest) =
            content.take (max + 1) ++ (content.drop (max + 1) ++ sep :: rest) := by
          rw [← List.append_assoc, List.take_append_drop]
        by_cases hquiet : discarding = false ∧ droppable content = true
        · -- counted once as it is, but long enough to overflow twice
          obtain ⟨rfl, hcounted⟩ := hquiet
          have htwice : max < (content.drop (max + 1)).length := by
            rw [List.length_drop]
            have hover : 2 * max + 1 < content.length :=
              Nat.not_le.mp fun hle => hnot ⟨rfl, hle, hcounted⟩
            omega
          refine ⟨content.take (max + 1), [(content.drop (max + 1)).take (max + 1),
            (content.drop (max + 1)).drop (max + 1) ++ sep :: rest], ?_, .inl (by simp; omega), ?_⟩
          · have hinner : (content.drop (max + 1)).take (max + 1) ++
                ((content.drop (max + 1)).drop (max + 1) ++ sep :: rest) =
                  content.drop (max + 1) ++ sep :: rest := by
              rw [← List.append_assoc, List.take_append_drop]
            rw [List.flatten_cons, List.flatten_singleton, hinner]
            exact htake
          · left
            have hdrop' : sep ∉ (content.drop (max + 1)).drop (max + 1) :=
              fun hmem => hdrop (List.mem_of_mem_drop hmem)
            rw [frames_take hsep hlong, splitOn_more hsep, frames_more, feedAll, feedAll, feedAll,
              feed, List.nil_append, frames_take hdrop htwice, feed_skip hdrop']
            simp [tally, outcome, hcounted]
        · refine ⟨content.take (max + 1), [content.drop (max + 1) ++ sep :: rest], ?_,
            .inl (by simp; omega), ?_⟩
          · rw [List.flatten_singleton, htake]
          · left
            rw [frames_take hsep hlong, splitOn_more hsep, frames_more, feedAll, feedAll,
              feed_skip hdrop, tally_append _ (frames max false _).1, tally_append, tally_append]
            have hzero : tally droppable (if discarding then [] else [Frame.line content]) = 0 := by
              cases hd : discarding with
              | true => rfl
              | false =>
                  have hkept : droppable content = false := by
                    cases hc : droppable content with
                    | false => rfl
                    | true => exact absurd ⟨hd, hc⟩ hquiet
                  simp [tally, outcome, hkept]
            rw [hzero]
            simp [tally, outcome]

end ObbyClient.Framing

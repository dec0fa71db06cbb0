import ObbyClient.Lib.Text

/-!
# The longest prefix of a kind

A language here is a relation between words and what they stand for.  A reader that is to take as
much as it can takes the longest prefix of its text that is a word, and takes nothing when there is
none.

* `Longest`, `Longest.unique` — the longest prefix that is a word;
* `TakesLongest` — a reader that takes just that;
* `Paired`, `takesLongest_pair` — a word with a second one behind a separator, when there is one.
-/

namespace ObbyClient

variable {α β : Type}

/-- The longest prefix of `s` that is a word, with what it stands for. -/
structure Longest (L : List α → β → Prop) (s u : List α) (v : β) : Prop where
  word : L u v
  front : u <+: s
  longest : ∀ u' v', L u' v' → u' <+: s → u'.length ≤ u.length

/-- There is one longest prefix. -/
theorem Longest.unique {L : List α → β → Prop} (hfun : ∀ {u v v'}, L u v → L u v' → v = v')
    {s u u' : List α} {v v' : β} (h : Longest L s u v) (h' : Longest L s u' v') :
      u = u' ∧ v = v' := by
  have hlen : u.length = u'.length :=
    le_antisymm (h'.longest u v h.word h.front) (h.longest u' v' h'.word h'.front)
  obtain rfl : u = u' := (List.prefix_of_prefix_length_le h.front h'.front hlen.le).eq_of_length
    hlen
  exact ⟨rfl, hfun h.word h'.word⟩

/-- A reader that takes the longest prefix that is a word. -/
structure TakesLongest (take : List α → Option (β × List α)) (L : List α → β → Prop) : Prop where
  found : ∀ {s v rest}, take s = some (v, rest) → ∃ u, s = u ++ rest ∧ Longest L s u v
  missed : ∀ {s}, take s = none → ∀ u v, L u v → ¬u <+: s

/-- One word, or two with a separator between them. -/
inductive Paired (L : List α → β → Prop) (sep : α) : List α → β × Option β → Prop
  | one {u : List α} {v : β} (h : L u v) : Paired L sep u (v, none)
  | two {u w : List α} {v x : β} (h : L u v) (h' : L w x) : Paired L sep (u ++ sep :: w) (v, some x)

/-- Take a word, and a second one when the separator and a word follow. -/
def takePair [DecidableEq α] (take : List α → Option (β × List α)) (sep : α) (s : List α) :
    Option ((β × Option β) × List α) :=
  (take s).map fun first =>
    (if first.2.head? = some sep then take first.2.tail else none).elim ((first.1, none), first.2)
      fun second => ((first.1, some second.1), second.2)

section Pair

variable {L : List α → β → Prop} {sep : α}

/-- What a pair of words stands for is told by its text. -/
theorem Paired.unique (hfun : ∀ {u v v'}, L u v → L u v' → v = v') (hsep : ∀ {u v}, L u v → sep ∉ u)
    {u : List α} {p p' : β × Option β} (h : Paired L sep u p) (h' : Paired L sep u p') :
      p = p' := by
  classical
  rcases h with ⟨h⟩ | @⟨u, w, v, x, hu, hw⟩
  · rcases h' with ⟨h'⟩ | ⟨hu', hw'⟩
    · rw [hfun h h']
    · exact absurd (List.mem_append_right _ List.mem_cons_self) (hsep h)
  · generalize heq : u ++ sep :: w = s at h'
    rcases h' with ⟨h'⟩ | @⟨u', w', v', x', hu', hw'⟩
    · exact absurd (by rw [← heq]; exact List.mem_append_right _ List.mem_cons_self) (hsep h')
    · have hcut := splitOnce_append_sep (hsep hu) w
      rw [heq, splitOnce_append_sep (hsep hu') w', Option.some.injEq, Prod.mk.injEq] at hcut
      obtain ⟨rfl, rfl⟩ := hcut
      rw [hfun hu hu', hfun hw hw']

/-- The first word of two is the longest one in front of the separator. -/
theorem Longest.eq_of_sep (hsep : ∀ {u v}, L u v → sep ∉ u) {s u u' : List α} {v v' : β}
    (h : Longest L s u v) (h' : L u' v') {w : List α} (hstart : u' ++ sep :: w <+: s) : u' = u := by
  have hfront : u' <+: s := (List.prefix_append u' (sep :: w)).trans hstart
  have hle := h.longest u' v' h' hfront
  rcases hle.lt_or_eq with hlt | heq
  · -- a shorter one has the separator behind it, and the longer one has none
    have hlonger : u' ++ [sep] <+: u := by
      refine List.prefix_of_prefix_length_le ?_ h.front (by simp; omega)
      refine List.IsPrefix.trans ?_ hstart
      exact ⟨w, by simp⟩
    refine absurd (hlonger.subset ?_) (hsep h.word)
    simp
  · exact (List.prefix_of_prefix_length_le hfront h.front hle).eq_of_length heq

/-- **Word and separator and word** is taken as long as it goes. -/
theorem takesLongest_pair [DecidableEq α] {take : List α → Option (β × List α)}
    (h : TakesLongest take L) (hsep : ∀ {u v}, L u v → sep ∉ u) :
    TakesLongest (takePair take sep) (Paired L sep) := by
  constructor
  · intro s v rest hs
    obtain ⟨⟨first, after⟩, hfirst, hpair⟩ := Option.map_eq_some_iff.mp hs
    clear hs
    obtain ⟨u, rfl, hu⟩ := h.found hfirst
    dsimp only at hpair
    by_cases hhead : after.head? = some sep
    · obtain ⟨tail, rfl⟩ := List.head?_eq_some_iff.mp hhead
      rw [if_pos hhead, List.tail_cons] at hpair
      have hback : ∀ {u' w' v'}, L u' v' → u' ++ sep :: w' <+: u ++ sep :: tail → u' = u ∧
          w' <+: tail := by
        intro u' w' v' hu' hprefix
        obtain rfl := hu.eq_of_sep hsep hu' hprefix
        exact ⟨rfl, (List.prefix_cons_inj sep).mp ((List.prefix_append_right_inj u').mp hprefix)⟩
      cases hsecond : take tail with
      | some second =>
          obtain ⟨x, rest₂⟩ := second
          rw [hsecond] at hpair
          cases hpair
          obtain ⟨w, rfl, hw⟩ := h.found hsecond
          refine ⟨u ++ sep :: w, by simp, .two hu.word hw.word, ⟨rest₂, by simp⟩, ?_⟩
          rintro _ _ (hu' | ⟨hu', hw'⟩) hprefix
          · exact (hu.longest _ _ hu' hprefix).trans (by simp)
          · obtain ⟨rfl, hbehind⟩ := hback hu' hprefix
            have hle := hw.longest _ _ hw' hbehind
            simp only [List.length_append, List.length_cons]
            omega
      | none =>
          rw [hsecond] at hpair
          cases hpair
          refine ⟨u, rfl, .one hu.word, hu.front, ?_⟩
          rintro _ _ (hu' | ⟨hu', hw'⟩) hprefix
          · exact hu.longest _ _ hu' hprefix
          · exact absurd (hback hu' hprefix).2 (h.missed hsecond _ _ hw')
    · rw [if_neg hhead] at hpair
      cases hpair
      refine ⟨u, rfl, .one hu.word, hu.front, ?_⟩
      rintro _ _ (hu' | ⟨hu', hw'⟩) hprefix
      · exact hu.longest _ _ hu' hprefix
      · obtain rfl := hu.eq_of_sep hsep hu' hprefix
        obtain ⟨more, hmore⟩ := (List.prefix_append_right_inj _).mp hprefix
        exact absurd (by rw [← hmore]; rfl) hhead
  · intro s hs u v hword hprefix
    have hnone : take s = none := Option.map_eq_none_iff.mp hs
    cases hword with
    | one hu => exact h.missed hnone _ _ hu hprefix
    | two hu hw => exact h.missed hnone _ _ hu ((List.prefix_append _ _).trans hprefix)

end Pair

end ObbyClient

import ObbyClient.Engine.Session
import ObbyClient.Lib.Alone
import ObbyClient.Lib.Cuts

/-!
# Mentions

A text addresses a nick when the folded text holds the folded nick standing alone.  The search is
followed at the byte positions of the source, where an index inside a character would be a fault.

* `mentions_iff_alone` — the search over characters finds what stands alone;
* `mentionsLoop` — the loop of the source, from one byte position to the next;
* `mentions_exact` — the loop ends, never leaves a character boundary, and finds the same.
-/

namespace ObbyClient.Session

/-! ### Finding a word -/

/-- The byte position at which the needle is first found. -/
def findStr (needle : Str) : Str → Option ℕ
  | [] => if needle.isPrefixOf [] then some 0 else none
  | c :: cs =>
    if needle.isPrefixOf (c :: cs) then some 0
    else (findStr needle cs).map fun offset => c.utf8Size + offset

theorem findStr_eq_none {inWord : Char → Bool} {needle text : Str} {prev : Option Char}
    (hneedle : needle ≠ [])
    (h : findStr needle text = none) : ¬ Alone inWord prev needle text := by
  induction text generalizing prev with
  | nil => exact not_alone_nil hneedle
  | cons c cs ih =>
    rw [findStr] at h
    by_cases hhere : needle.isPrefixOf (c :: cs) = true
    · rw [if_pos hhere] at h
      cases h
    · rw [if_neg hhere, Option.map_eq_none_iff] at h
      have hprefix : ¬ needle <+: c :: cs := fun hp => hhere (List.isPrefixOf_iff_prefix.mpr hp)
      rw [alone_cons hprefix]
      exact ih h

/-- What is found is an occurrence, and nothing before it counts. -/
theorem findStr_eq_some (inWord : Char → Bool) {needle text : Str} {offset : ℕ}
    (hneedle : needle ≠ [])
    (h : findStr needle text = some offset) :
    ∃ before rest, text = before ++ (needle ++ rest) ∧ Cuts.size Char.utf8Size before = offset ∧
      ∀ prev, Alone inWord prev needle text ↔
        Alone inWord (before.getLast?.or prev) needle (needle ++ rest) := by
  induction text generalizing offset with
  | nil =>
    rw [findStr] at h
    obtain ⟨hhere, -⟩ := Option.ite_none_right_eq_some.mp h
    exact absurd (List.prefix_nil.mp (List.isPrefixOf_iff_prefix.mp hhere)) hneedle
  | cons c cs ih =>
    rw [findStr] at h
    by_cases hhere : needle.isPrefixOf (c :: cs) = true
    · obtain ⟨rest, hrest⟩ := List.isPrefixOf_iff_prefix.mp hhere
      rw [if_pos hhere] at h
      refine ⟨[], rest, hrest.symm, Option.some.inj h, fun prev => ?_⟩
      rw [hrest]
      rfl
    · rw [if_neg hhere] at h
      obtain ⟨further, hfurther, rfl⟩ := Option.map_eq_some_iff.mp h
      obtain ⟨before, rest, rfl, hsize, halone⟩ := ih hfurther
      have hprefix : ¬ needle <+: c :: (before ++ (needle ++ rest)) :=
        fun hp => hhere (List.isPrefixOf_iff_prefix.mpr hp)
      refine ⟨c :: before, rest, rfl, ?_, fun prev => ?_⟩
      · rw [Cuts.size_cons, hsize]
      · rw [alone_cons hprefix, halone, getLast?_cons_or]

theorem cutAt_append (before rest : Str) :
    Cuts.cutAt Char.utf8Size (Cuts.size Char.utf8Size before) (before ++ rest) =
      some (before, rest) :=
  (Cuts.cutAt_eq_some Char.utf8Size_pos).mpr ⟨rfl, rfl⟩

section Mentions

variable [Primitives] {needle : Str}

/-! ### Over characters -/

/-- The search finds a nick that stands alone, wherever it is. -/
theorem mentionsFrom_iff (hneedle : needle ≠ []) (hword : ∀ c ∈ needle, isNickChar c = true)
    {fuel : ℕ} {prev : Option Char} {text : Str} (hfuel : text.length < fuel) :
    mentionsFrom needle fuel prev text = true ↔ Alone isNickChar prev needle text := by
  induction fuel generalizing prev text with
  | zero => exact absurd hfuel (Nat.not_lt_zero _)
  | succ fuel ih =>
    cases text with
    | nil =>
      rw [mentionsFrom]
      exact iff_of_false Bool.false_ne_true (not_alone_nil hneedle)
    | cons c cs =>
      rw [mentionsFrom]
      by_cases hhere : needle.isPrefixOf (c :: cs) = true
      · obtain ⟨rest, hrest⟩ := List.isPrefixOf_iff_prefix.mp hhere
        have hdrop : (c :: cs).drop needle.length = rest := by rw [← hrest, List.drop_left]
        have hshorter : rest.length < fuel := by
          have hlen := congrArg List.length hrest
          have hpos := List.length_pos_iff.mpr hneedle
          rw [List.length_append] at hlen
          omega
        rw [if_pos hhere, hdrop, ← hrest, alone_append hneedle hword, ← ih hshorter]
        dsimp only
        split
        · rename_i halone
          rw [Bool.and_eq_true, Bool.not_eq_true', Bool.not_eq_true'] at halone
          exact iff_of_true rfl (.inl halone)
        · rename_i halone
          rw [Bool.and_eq_true, Bool.not_eq_true', Bool.not_eq_true'] at halone
          exact (or_iff_right halone).symm
      · have hprefix : ¬ needle <+: c :: cs := fun h => hhere (List.isPrefixOf_iff_prefix.mpr h)
        rw [if_neg hhere, alone_cons hprefix]
        exact ih (Nat.lt_of_succ_lt_succ hfuel)

omit [Primitives] in
theorem fold_ne_nil {casemapping : Casemapping} {nick : Str} (h : nick ≠ []) :
    (casemapping.fold nick).asStr ≠ [] := fun hnil => h (List.map_eq_nil_iff.mp hnil)

/-- **A text addresses a nick** that stands alone in it, folded. -/
theorem mentions_iff_alone {casemapping : Casemapping} {text nick : Str} (hnick : nick ≠ [])
    (hword : ∀ c ∈ (casemapping.fold nick).asStr, isNickChar c = true) :
    mentions casemapping text nick = true ↔
      Alone isNickChar none (casemapping.fold nick).asStr (casemapping.fold text).asStr := by
  unfold mentions
  rw [Bool.and_eq_true, decide_eq_true_eq,
    mentionsFrom_iff (fold_ne_nil hnick) hword (Nat.lt_succ_self _)]
  exact and_iff_right hnick

/-! ### Over bytes -/

/-- The loop from a byte position on; `none` where it is still running after so many turns, or an
index stands inside a character. -/
def mentionsLoop (needle folded : Str) : ℕ → ℕ → Option Bool
  | 0, _ => none
  | turns + 1, start => do
    let (_, rest) ← Cuts.cutAt Char.utf8Size start folded
    match findStr needle rest with
    | none => some false
    | some offset =>
      let start := start + offset
      let stop := start + Cuts.size Char.utf8Size needle
      let (before, _) ← Cuts.cutAt Char.utf8Size start folded
      let (_, after) ← Cuts.cutAt Char.utf8Size stop folded
      if !before.getLast?.any isNickChar && !after.head?.any isNickChar then some true
      else mentionsLoop needle folded turns stop

/-- What the source does, at its positions. -/
def mentionsAt (turns : ℕ) (casemapping : Casemapping) (text nick : Str) : Option Bool :=
  if nick = [] then some false
  else mentionsLoop (casemapping.fold nick).asStr (casemapping.fold text).asStr turns 0

/-- From a boundary on, the loop gives an answer, and the right one. -/
theorem mentionsLoop_eq (hneedle : needle ≠ []) (hword : ∀ c ∈ needle, isNickChar c = true)
    {turns : ℕ} (done rest : Str) (hturns : rest.length < turns) :
    ∃ answer, mentionsLoop needle (done ++ rest) turns (Cuts.size Char.utf8Size done) =
      some answer ∧
      (answer = true ↔ Alone isNickChar done.getLast? needle rest) := by
  induction turns generalizing done rest with
  | zero => exact absurd hturns (Nat.not_lt_zero _)
  | succ turns ih =>
    rw [mentionsLoop, cutAt_append]
    cases hfind : findStr needle rest with
    | none =>
      refine ⟨false, ?_, iff_of_false Bool.false_ne_true (findStr_eq_none hneedle hfind)⟩
      simp only [Option.bind_eq_bind, Option.bind_some, hfind]
    | some offset =>
      obtain ⟨before, after, rfl, rfl, halone⟩ := findStr_eq_some isNickChar hneedle hfind
      -- the positions of the source are where the parts of the text meet
      have hstart : Cuts.size Char.utf8Size done + Cuts.size Char.utf8Size before =
          Cuts.size Char.utf8Size (done ++ before) := (Cuts.size_append _ _ _).symm
      have hstop : Cuts.size Char.utf8Size (done ++ before) + Cuts.size Char.utf8Size needle =
          Cuts.size Char.utf8Size (done ++ before ++ needle) := (Cuts.size_append _ _ _).symm
      have hbefore : done ++ (before ++ (needle ++ after)) =
          (done ++ before) ++ (needle ++ after) := by
        rw [List.append_assoc]
      have hafter : done ++ (before ++ (needle ++ after)) =
          (done ++ before ++ needle) ++ after := by
        rw [hbefore, ← List.append_assoc]
      have hlast : (done ++ before).getLast? = before.getLast?.or done.getLast? :=
        List.getLast?_append
      simp only [Option.bind_eq_bind, Option.bind_some, hfind]
      rw [hstart, hstop, halone, ← hlast, alone_append hneedle hword]
      have hcutStart : Cuts.cutAt Char.utf8Size (Cuts.size Char.utf8Size (done ++ before))
          (done ++ (before ++ (needle ++ after))) = some (done ++ before, needle ++ after) := by
        rw [hbefore, cutAt_append]
      have hcutStop : Cuts.cutAt Char.utf8Size (Cuts.size Char.utf8Size (done ++ before ++ needle))
          (done ++ (before ++ (needle ++ after))) = some (done ++ before ++ needle, after) := by
        rw [hafter, cutAt_append]
      simp only [hcutStart, hcutStop, Option.bind_some]
      by_cases hfree : (!(done ++ before).getLast?.any isNickChar &&
          !after.head?.any isNickChar) = true
      · rw [if_pos hfree]
        rw [Bool.and_eq_true, Bool.not_eq_true', Bool.not_eq_true'] at hfree
        exact ⟨true, rfl, iff_of_true rfl (.inl hfree)⟩
      · have hshorter : after.length < turns := by
          have hpos := List.length_pos_iff.mpr hneedle
          rw [List.length_append, List.length_append] at hturns
          omega
        obtain ⟨answer, hanswer, hiff⟩ := ih (done ++ before ++ needle) after hshorter
        rw [if_neg hfree, hafter]
        refine ⟨answer, hanswer, hiff.trans ?_⟩
        rw [Bool.and_eq_true, Bool.not_eq_true', Bool.not_eq_true'] at hfree
        have hneedleLast := List.getLast?_eq_some_getLast hneedle
        rw [List.getLast?_append, hneedleLast, Option.some_or]
        exact (or_iff_right hfree).symm

/-- **Mention detection is exact.**  A text mentions a nick when the folded text has an occurrence
of the folded nick with no nick character right before it and none right after.  The loop of the
source ends within one turn more than the text has characters, every index stands between two
characters, and it gives the same. -/
theorem mentions_exact (casemapping : Casemapping) (text nick : Str) (hnick : nick ≠ [])
    (hword : ∀ c ∈ (casemapping.fold nick).asStr, isNickChar c = true) :
    (mentions casemapping text nick = true ↔
      ∃ before after,
        (casemapping.fold text).asStr = before ++ (casemapping.fold nick).asStr ++ after ∧
        (∀ c, before.getLast? = some c → isNickChar c = false) ∧
        ∀ c, after.head? = some c → isNickChar c = false) ∧
    ∀ more, mentionsAt (text.length + 1 + more) casemapping text nick =
      some (mentions casemapping text nick) := by
  constructor
  · rw [mentions_iff_alone hnick hword]
    unfold Alone
    simp only [Option.or_none, Option.any_eq_false]
  · intro more
    have hlength : (casemapping.fold text).asStr.length < text.length + 1 + more := by
      have hfold : (casemapping.fold text).asStr.length = text.length := List.length_map _
      omega
    obtain ⟨answer, hanswer, hiff⟩ := mentionsLoop_eq (fold_ne_nil hnick) hword []
      (casemapping.fold text).asStr hlength
    rw [mentionsAt, if_neg hnick]
    refine hanswer.trans (congrArg some (Bool.eq_iff_iff.mpr ?_))
    rw [hiff, mentions_iff_alone hnick hword]
    rfl

omit [Primitives] in
/-- A nick spelled with other brackets, at the end of a text of wider characters. -/
theorem mentions_exact_brackets :
    @mentionsAt Primitives.ascii 10 .rfc1459 "héé [Ann]" "\x7bann\x7d" =
      some (@mentions Primitives.ascii .rfc1459 "héé [Ann]" "\x7bann\x7d") := by
  have hword : @List.all Char (Casemapping.rfc1459.fold "\x7bann\x7d").asStr
      (@isNickChar Primitives.ascii) = true := by decide +kernel
  have hturns : ("héé [Ann]" : Str).length + 1 + 0 = 10 := by decide +kernel
  rw [← hturns]
  exact (@mentions_exact Primitives.ascii .rfc1459 "héé [Ann]" "\x7bann\x7d" (by decide)
    (List.all_eq_true.mp hword)).2 0

end Mentions

end ObbyClient.Session

import ObbyClient.Proto.Message

/-!
# When a written message reads back

`Message.display` never fails and never checks, so a message can be written that reads back as
something else: a middle parameter with a space becomes two, an empty one disappears, and a line
break ends the line early.  `Message.Sendable` names the messages to which none of this happens.

* `Message.parse_parsed` — what every parsed message looks like;
* `Message.parse_display` — a sendable message reads back, source included;
* `Message.sendable_iff` — and no other message does, in one line.
-/

namespace ObbyClient

/-! ### The tag section -/

/-- A tag name that no separator of the tag section cuts. -/
def CleanKey (key : Str) : Prop := ' ' ∉ key ∧ ';' ∉ key ∧ '=' ∉ key

instance (key : Str) : Decidable (CleanKey key) := inferInstanceAs (Decidable (_ ∧ _))

/-- A tag that is written so that it reads back: a value that is present is not empty, and a tag
without a value has a name. -/
def Tag.Clean (tag : Tag) : Prop :=
  CleanKey tag.key ∧ tag.value ≠ some [] ∧ (tag.value = none → tag.key ≠ [])

instance (tag : Tag) : Decidable tag.Clean := inferInstanceAs (Decidable (_ ∧ _))

theorem keyOf_eq {key : Str} (h : '=' ∉ key) : keyOf key = key := by
  rw [keyOf, splitOnce_eq_none.mpr h]
  rfl

theorem not_mem_keyOf (part : Str) : '=' ∉ keyOf part := by
  unfold keyOf
  cases h : splitOnce '=' part with
  | none => exact splitOnce_eq_none.mp h
  | some p => exact (splitOnce_eq_some.mp h).2

theorem mem_of_mem_keyOf {part : Str} {c : Char} (h : c ∈ keyOf part) : c ∈ part := by
  unfold keyOf at h
  cases hs : splitOnce '=' part with
  | none => rwa [hs] at h
  | some p =>
      obtain ⟨rfl, -⟩ := splitOnce_eq_some.mp hs
      rw [hs] at h
      exact List.mem_append_left _ h

theorem Tag.parse_key (part : Str) : (Tag.parse part).key = keyOf part := by
  unfold Tag.parse
  split
  · rfl
  · rfl
  · rename_i key value _ h
    simp [Tag.new, keyOf, h]

/-- What a written tag reads back as: an empty value is no value. -/
theorem Tag.parse_display {tag : Tag} (h : '=' ∉ tag.key) :
    Tag.parse tag.display = if tag.value = some [] then .flag tag.key else tag := by
  obtain ⟨key, value⟩ := tag
  cases value with
  | none =>
      simp only [Tag.display, Tag.parse, splitOnce_eq_none.mpr h, keyOf_eq h]
      rfl
  | some value =>
      have hs : splitOnce '=' (key ++ '=' :: escaped value) = some (key, escaped value) :=
        splitOnce_append_sep h _
      have hkey : keyOf (key ++ '=' :: escaped value) = key := by rw [keyOf, hs]; rfl
      simp only [Tag.display, Tag.parse, hs, hkey]
      cases value with
      | nil => rfl
      | cons c cs =>
          have hne : escaped (c :: cs) ≠ [] := fun hnil => absurd (escaped_eq_nil.mp hnil) (by simp)
          rw [if_neg (by simp)]
          split
          · rename_i heq
            cases heq
          · rename_i heq
            rw [Option.some.injEq, Prod.mk.injEq] at heq
            exact absurd heq.2 hne
          · rename_i heq
            rw [Option.some.injEq, Prod.mk.injEq] at heq
            rw [← heq.1, ← heq.2, Tag.new, unescape_escaped]

theorem Tag.display_eq_nil (tag : Tag) : tag.display = [] ↔ tag.value = none ∧ tag.key = [] := by
  obtain ⟨key, value⟩ := tag
  cases value <;> simp [Tag.display]

theorem Tag.mem_display {tag : Tag} {c : Char} (h : c ∈ tag.display) :
    c ∈ tag.key ∨ c = '=' ∨ (c ≠ ';' ∧ c ≠ ' ' ∧ c ≠ '\r' ∧ c ≠ '\n') := by
  obtain ⟨key, value⟩ := tag
  cases value with
  | none => exact Or.inl h
  | some value =>
      rcases List.mem_append.mp h with h | h
      · exact Or.inl h
      rcases List.mem_cons.mp h with h | h
      · exact Or.inr (Or.inl h)
      · exact Or.inr (Or.inr (mem_escaped h))

theorem Tag.key_subset_display (tag : Tag) : tag.key ⊆ tag.display := by
  obtain ⟨key, value⟩ := tag
  cases value with
  | none => exact List.Subset.refl _
  | some value => exact List.subset_append_left _ _

theorem Tags.mem_display {tags : Tags} {c : Char} (h : c ∈ tags.display) :
    c = ';' ∨ ∃ tag ∈ tags, c ∈ tag.display := by
  refine (mem_intercalate h).imp_right ?_
  rintro ⟨part, hpart, hc⟩
  obtain ⟨tag, htag, rfl⟩ := List.mem_map.mp hpart
  exact ⟨tag, htag, hc⟩

theorem Tags.display_subset {tags : Tags} {tag : Tag} (h : tag ∈ tags) :
    tag.display ⊆ tags.display :=
  subset_intercalate (List.mem_map_of_mem h)

/-- The names of the tags that are read hold no separator. -/
theorem Tags.parse_key {raw : Str} (hraw : ' ' ∉ raw) {tag : Tag} (h : tag ∈ Tags.parse raw) :
    CleanKey tag.key := by
  obtain ⟨part, hpart, rfl⟩ := List.mem_map.mp h
  have hmem := List.mem_of_mem_filter hpart
  rw [Tag.parse_key]
  refine ⟨fun hc => ?_, fun hc => ?_, not_mem_keyOf part⟩
  · exact hraw (subset_of_mem_splitOn hmem (mem_of_mem_keyOf hc))
  · exact not_mem_of_mem_splitOn hmem (mem_of_mem_keyOf hc)

/-- A written tag section reads back tag by tag, less the tags that write nothing. -/
theorem Tags.parse_display {tags : Tags} (h : ∀ tag ∈ tags, CleanKey tag.key) :
    Tags.parse tags.display =
      ((tags.map Tag.display).filter (· ≠ [])).map Tag.parse := by
  cases tags with
  | nil => rfl
  | cons first rest =>
      rw [Tags.parse, Tags.display, List.splitOn_intercalate]
      · intro part hpart hsemi
        obtain ⟨tag, htag, rfl⟩ := List.mem_map.mp hpart
        rcases Tag.mem_display hsemi with hc | hc | hc
        · exact (h tag htag).2.1 hc
        · exact absurd hc (by decide)
        · exact hc.1 rfl
      · simp

/-- A tag section reads back as itself exactly when each of its tags does. -/
theorem Tags.parse_display_eq_self {tags : Tags} (h : ∀ tag ∈ tags, CleanKey tag.key) :
    Tags.parse tags.display = tags ↔ ∀ tag ∈ tags, tag.Clean := by
  rw [Tags.parse_display h]
  constructor
  · intro heq
    have hlen := congrArg List.length heq
    rw [List.length_map] at hlen
    have hall : (tags.map Tag.display).filter (· ≠ []) = tags.map Tag.display := by
      refine List.filter_sublist.eq_of_length ?_
      rw [hlen, List.length_map]
    rw [hall, List.map_map] at heq
    intro tag htag
    have hne : tag.display ≠ [] := by
      have := List.mem_map_of_mem (f := Tag.display) htag
      rw [← hall] at this
      simpa using List.of_mem_filter this
    have hself : Tag.parse tag.display = tag := by
      have := List.map_eq_map_iff.mp (heq.trans (List.map_id tags).symm) tag htag
      exact this
    refine ⟨h tag htag, ?_, ?_⟩
    · intro hv
      rw [Tag.parse_display (h tag htag).2.2, if_pos hv] at hself
      rw [← hself] at hv
      cases hv
    · intro hv hk
      exact hne ((Tag.display_eq_nil tag).mpr ⟨hv, hk⟩)
  · intro hclean
    have hall : (tags.map Tag.display).filter (· ≠ []) = tags.map Tag.display := by
      rw [List.filter_eq_self]
      intro part hpart
      obtain ⟨tag, htag, rfl⟩ := List.mem_map.mp hpart
      have hne : tag.display ≠ [] := fun hnil =>
        (hclean tag htag).2.2 ((Tag.display_eq_nil tag).mp hnil).1
          ((Tag.display_eq_nil tag).mp hnil).2
      simpa using hne
    rw [hall, List.map_map]
    refine (List.map_eq_map_iff.mpr ?_).trans (List.map_id tags)
    intro tag htag
    have := Tag.parse_display (h tag htag).2.2
    rw [if_neg (hclean tag htag).2.1] at this
    exact this

namespace Message

/-! ### What every parsed message looks like -/

/-- The shape of a message that came off the wire. -/
structure Parsed (m : Message) : Prop where
  keys : ∀ tag ∈ m.tags, CleanKey tag.key
  source : ∀ source ∈ m.source, ' ' ∉ source.display
  command : m.command ≠ [] ∧ ' ' ∉ m.command
  colon : m.source = none → m.command.head? ≠ some ':'
  params : ∀ param ∈ m.params.dropLast, Middle param

theorem takeTags_keys {line rest : Str} {tags : Tags} (h : takeTags line = .ok (tags, rest)) :
    ∀ tag ∈ tags, CleanKey tag.key := by
  unfold takeTags at h
  split at h
  · split at h
    · cases h
    · rename_i raw remainder hs
      cases h
      intro tag htag
      exact Tags.parse_key (splitOnce_eq_some.mp hs).2 htag
  · cases h
    simp

theorem takeSource_ok {line rest : Str} {source : Option Source}
    (h : takeSource line = .ok (source, rest)) :
    (∀ s ∈ source, ' ' ∉ s.display) ∧ (source = none → rest.head? ≠ some ':') := by
  unfold takeSource at h
  split at h
  · split at h
    · cases h
    · rename_i raw remainder hs
      cases h
      refine ⟨?_, by simp⟩
      intro s hsrc
      cases hsrc
      rw [Source.display_parse]
      exact (splitOnce_eq_some.mp hs).2
  · rename_i hne
    cases h
    refine ⟨by simp, fun _ hhead => ?_⟩
    cases line with
    | nil => simp at hhead
    | cons c cs =>
        rw [List.head?_cons, Option.some.injEq] at hhead
        exact hne cs (by rw [hhead])

theorem readParams_dropLast (rest : Str) : ∀ param ∈ (readParams rest).dropLast, Middle param := by
  induction hn : rest.length using Nat.strong_induction_on generalizing rest with
  | _ n ih =>
    cases rest with
    | nil => simp
    | cons c cs =>
        by_cases hsp : c = ' '
        · subst hsp
          rw [readParams_space]
          exact ih cs.length (by simp [← hn]) cs rfl
        by_cases hcolon : c = ':'
        · subst hcolon
          simp
        rw [readParams_cons hsp hcolon]
        cases hs : splitOnce ' ' (c :: cs) with
        | none => simp
        | some p =>
            obtain ⟨first, remainder⟩ := p
            have hlt := splitOnce_length_lt hs
            obtain ⟨heq, hnot⟩ := splitOnce_eq_some.mp hs
            have hfirst : Middle first := by
              cases first with
              | nil =>
                  rw [List.nil_append, List.cons.injEq] at heq
                  exact absurd heq.1 hsp
              | cons d ds =>
                  rw [List.cons_append, List.cons.injEq] at heq
                  refine ⟨by simp, hnot, ?_⟩
                  rw [List.head?_cons, ← heq.1]
                  simpa using hcolon
            intro param hparam
            change param ∈ (first :: readParams remainder).dropLast at hparam
            cases hrest : readParams remainder with
            | nil => simp [hrest] at hparam
            | cons second more =>
                rw [hrest, List.dropLast_cons_cons] at hparam
                rcases List.mem_cons.mp hparam with rfl | hparam
                · exact hfirst
                · exact ih _ (hn ▸ hlt) remainder rfl param (hrest ▸ hparam)

theorem takeCommand_ok {tags : Tags} {source : Option Source} {line : Str} {m : Message}
    (h : takeCommand tags source line = .ok m) :
    m.tags = tags ∧ m.source = source ∧ m.command ≠ [] ∧ ' ' ∉ m.command ∧
      (line = m.command ∧ m.params = [] ∨
        ∃ rest, line = m.command ++ ' ' :: rest ∧ m.params = readParams rest) := by
  unfold takeCommand at h
  cases hs : splitOnce ' ' line with
  | none =>
      simp only [hs, Option.getD_none] at h
      split at h
      · cases h
      · rename_i hne
        cases h
        exact ⟨rfl, rfl, hne, splitOnce_eq_none.mp hs, Or.inl ⟨rfl, rfl⟩⟩
  | some p =>
      obtain ⟨command, rest⟩ := p
      simp only [hs, Option.getD_some] at h
      obtain ⟨hline, hnot⟩ := splitOnce_eq_some.mp hs
      split at h
      · cases h
      · rename_i hne
        cases h
        exact ⟨rfl, rfl, hne, hnot, Or.inr ⟨rest, hline, rfl⟩⟩

/-- The three stages of the reader. -/
theorem parse_ok {line : Str} {m : Message} (h : parse line = .ok m) :
    ∃ rest₁ rest₂, takeTags (trimEndCrLf line) = .ok (m.tags, rest₁) ∧
      takeSource rest₁ = .ok (m.source, rest₂) ∧ takeCommand m.tags m.source rest₂ = .ok m := by
  unfold parse at h
  split at h
  · cases h
  · rename_i tags rest₁ htags
    split at h
    · cases h
    · rename_i source rest₂ hsource
      obtain ⟨rfl, rfl, -⟩ := takeCommand_ok h
      exact ⟨rest₁, rest₂, htags, hsource, h⟩

theorem parse_of_stages {line rest₁ rest₂ : Str} {m : Message}
    (htags : takeTags (trimEndCrLf line) = .ok (m.tags, rest₁))
    (hsource : takeSource rest₁ = .ok (m.source, rest₂))
    (hcommand : takeCommand m.tags m.source rest₂ = .ok m) : parse line = .ok m := by
  unfold parse
  rw [htags]
  dsimp only
  rw [hsource]
  exact hcommand

/-- **Whatever the line, what is read off it has the shape of a message.** -/
theorem parse_parsed {line : Str} {m : Message} (h : parse line = .ok m) : Parsed m := by
  obtain ⟨rest₁, rest₂, htags, hsource, hcommand⟩ := parse_ok h
  obtain ⟨hsrc, hcolon⟩ := takeSource_ok hsource
  obtain ⟨-, -, hne, hsp, hparams⟩ := takeCommand_ok hcommand
  refine ⟨takeTags_keys htags, hsrc, ⟨hne, hsp⟩, fun hnone => ?_, ?_⟩
  · have hhead := hcolon hnone
    rcases hparams with ⟨rfl, -⟩ | ⟨rest, rfl, -⟩
    · exact hhead
    · rwa [List.head?_append_of_ne_nil _ hne] at hhead
  · rcases hparams with ⟨-, hnil⟩ | ⟨rest, -, hread⟩
    · simp [hnil]
    · rw [hread]
      exact readParams_dropLast rest

/-! ### Reading a written message -/

/-- A message that survives being written: every tag reads back, nothing holds a line break, the
command is one word that is not taken for a tag section or a source, and only the last parameter
may be empty, hold a space or start with a colon. -/
structure Sendable (m : Message) : Prop where
  tags : ∀ tag ∈ m.tags, tag.Clean ∧ NoCrLf tag.key
  source : ∀ source ∈ m.source, ' ' ∉ source.display ∧ NoCrLf source.display
  command : m.command ≠ [] ∧ ' ' ∉ m.command ∧ NoCrLf m.command
  colon : m.source = none → m.command.head? ≠ some ':'
  sign : m.tags = [] → m.source = none → m.command.head? ≠ some '@'
  middle : ∀ param ∈ m.params.dropLast, Middle param
  params : ∀ param ∈ m.params, NoCrLf param

/-- A line that reads as the command, the tags and the parameters of a message. -/
def ReadsAs (m : Message) (line : Str) : Prop :=
  ∃ m', parse line = .ok m' ∧ m'.command = m.command ∧ m'.tags = m.tags ∧ m'.params = m.params

theorem middle_of_needsColon {param : Str} (h : needsColon param = false) : Middle param := by
  simp only [needsColon, Bool.or_eq_false_iff] at h
  obtain ⟨⟨hne, hsp⟩, hcolon⟩ := h
  exact ⟨by simpa using hne, by simpa using hsp, by simpa using hcolon⟩

theorem displayParams_cons_cons (param next : Str) (rest : List Str) :
    displayParams (param :: next :: rest) = ' ' :: (param ++ displayParams (next :: rest)) := rfl

theorem displayParams_cons (param : Str) (rest : List Str) :
    ∃ tail, displayParams (param :: rest) = ' ' :: tail := by
  cases rest with
  | nil =>
      by_cases h : needsColon param = true
      · exact ⟨':' :: param, by simp [displayParams, h]⟩
      · exact ⟨param, by simp [displayParams, h]⟩
  | cons next rest => exact ⟨param ++ displayParams (next :: rest), by simp [displayParams]⟩

/-- Written parameters read back when all but the last are middle parameters. -/
theorem readParams_displayParams {params : List Str} (h : ∀ param ∈ params.dropLast, Middle param) :
    readParams (displayParams params) = params := by
  induction params with
  | nil => rfl
  | cons param rest ih =>
      cases rest with
      | nil =>
          cases hcolon : needsColon param with
          | true => simp [displayParams, hcolon]
          | false =>
              rw [displayParams, hcolon, if_neg (by simp), readParams_space]
              exact readParams_last (middle_of_needsColon hcolon)
      | cons next rest =>
          rw [List.dropLast_cons_cons] at h
          have hmiddle : Middle param := h param List.mem_cons_self
          have hrest := ih fun q hq => h q (List.mem_cons_of_mem _ hq)
          obtain ⟨tail, htail⟩ := displayParams_cons next rest
          rw [htail, readParams_space] at hrest
          rw [displayParams_cons_cons, htail, readParams_space, readParams_middle hmiddle, hrest]

theorem mem_displayParams {params : List Str} {param : Str} (h : param ∈ params) :
    param ⊆ displayParams params := by
  induction params with
  | nil => simp at h
  | cons first rest ih =>
      intro c hc
      cases rest with
      | nil =>
          rw [List.mem_singleton.mp h] at hc
          unfold displayParams
          split <;> simp [hc]
      | cons next rest =>
          rw [displayParams_cons_cons, List.mem_cons, List.mem_append]
          rcases List.mem_cons.mp h with rfl | h
          · exact Or.inr (Or.inl hc)
          · exact Or.inr (Or.inr (ih h hc))

theorem noCrLf_displayParams {params : List Str} :
    NoCrLf (displayParams params) ↔ ∀ param ∈ params, NoCrLf param := by
  constructor
  · intro h param hparam
    exact ⟨fun hc => h.1 (mem_displayParams hparam hc), fun hc => h.2 (mem_displayParams hparam hc)⟩
  · intro h
    induction params with
    | nil => exact noCrLf_nil
    | cons first rest ih =>
        have hfirst := h first List.mem_cons_self
        cases rest with
        | nil =>
            unfold displayParams
            split <;> simp [hfirst]
        | cons next rest =>
            have hrest := ih fun q hq => h q (List.mem_cons_of_mem _ hq)
            rw [displayParams_cons_cons, noCrLf_cons, noCrLf_append]
            exact ⟨by decide, hfirst, hrest⟩

/-! ### The length of what is written -/

/-- The room parameters take on the wire, without the colon of the last. -/
def paramsWidth (params : List Str) : ℕ := (params.map fun param => param.length + 1).sum

theorem displayParams_length_le (params : List Str) :
    (displayParams params).length ≤ paramsWidth params + 1 := by
  induction params with
  | nil => simp [displayParams]
  | cons param rest ih =>
      cases rest with
      | nil =>
          unfold displayParams
          split <;> simp [paramsWidth]
      | cons next rest =>
          rw [displayParams_cons_cons, List.length_cons, List.length_append]
          simp only [paramsWidth, List.map_cons, List.sum_cons] at ih ⊢
          omega

theorem paramsWidth_readParams_le (rest : Str) :
    paramsWidth (readParams rest) ≤ rest.length + 1 := by
  induction hn : rest.length using Nat.strong_induction_on generalizing rest with
  | _ n ih =>
    cases rest with
    | nil => simp [paramsWidth]
    | cons c cs =>
        rw [List.length_cons] at hn
        by_cases hsp : c = ' '
        · subst hsp
          have := ih cs.length (by omega) cs rfl
          rw [readParams_space]
          omega
        by_cases hcolon : c = ':'
        · subst hcolon
          simp only [readParams_colon, paramsWidth, List.map_cons, List.map_nil, List.sum_cons,
            List.sum_nil]
          omega
        rw [readParams_cons hsp hcolon]
        cases hs : splitOnce ' ' (c :: cs) with
        | none =>
            simp only [paramsWidth, List.map_cons, List.map_nil, List.sum_cons, List.sum_nil,
              List.length_cons]
            omega
        | some p =>
            obtain ⟨first, remainder⟩ := p
            obtain ⟨heq, -⟩ := splitOnce_eq_some.mp hs
            have hlen := congrArg List.length heq
            rw [List.length_cons, List.length_append, List.length_cons] at hlen
            have := ih remainder.length (by omega) remainder rfl
            simp only [paramsWidth, List.map_cons, List.sum_cons] at this ⊢
            omega

theorem takeSource_length_le {line rest : Str} {source : Option Source}
    (h : takeSource line = .ok (source, rest)) : rest.length ≤ line.length := by
  unfold takeSource at h
  split at h
  · split at h
    · cases h
    · rename_i raw remainder hs
      cases h
      have := splitOnce_length_lt hs
      have := trimStartSpaces_length_le remainder
      rw [List.length_cons]
      omega
  · cases h
    exact le_refl _

/-- A message without tags or source whose command starts with the tag marker reads as something
else: what is left after the marker is too short to hold all the parameters. -/
theorem not_readsAs_of_sign {m : Message} (htags : m.tags = []) (hsource : m.source = none)
    (hsp : ' ' ∉ m.command) (hsign : m.command.head? = some '@') {line : Str}
    (hline : trimEndCrLf line = m.display) : ¬m.ReadsAs line := by
  rintro ⟨m', hparse, hcommand, -, hparams⟩
  obtain ⟨rest₁, rest₂, h₁, h₂, h₃⟩ := parse_ok hparse
  obtain ⟨-, -, hne, -, hrest⟩ := takeCommand_ok h₃
  obtain ⟨cmd, hcmd⟩ : ∃ cmd, m.command = '@' :: cmd := by
    cases hc : m.command with
    | nil => simp [hc] at hsign
    | cons c cs =>
        rw [hc, List.head?_cons, Option.some.injEq] at hsign
        exact ⟨cs, by rw [hsign]⟩
  have hdisplay : m.display = '@' :: (cmd ++ displayParams m.params) := by
    simp [display, displayHead, htags, hsource, hcmd]
  rw [hline, hdisplay, takeTags] at h₁
  rw [hcmd] at hsp
  have hsp' : ' ' ∉ cmd := fun hc => hsp (List.mem_cons_of_mem _ hc)
  cases hp : m.params with
  | nil =>
      rw [hp, displayParams, List.append_nil, splitOnce_eq_none.mpr hsp'] at h₁
      cases h₁
  | cons param more =>
      obtain ⟨tail, htail⟩ := displayParams_cons param more
      rw [hp, htail, splitOnce_append_sep hsp'] at h₁
      simp only [Except.ok.injEq, Prod.mk.injEq] at h₁
      have hwidth := displayParams_length_le (param :: more)
      rw [htail, List.length_cons] at hwidth
      have h₄ := trimStartSpaces_length_le tail
      rw [h₁.2] at h₄
      have h₅ := takeSource_length_le h₂
      rw [hp] at hparams
      rcases hrest with ⟨-, hnil⟩ | ⟨rest, hrest, hread⟩
      · rw [hnil] at hparams
        cases hparams
      · have h₆ := paramsWidth_readParams_le rest
        rw [← hread, hparams] at h₆
        rw [hrest, List.length_append, List.length_cons] at h₅
        have h₇ : 0 < m'.command.length := List.length_pos_of_ne_nil hne
        omega

/-! ### The round trip -/

theorem trimStartSpaces_of_head {rest : Str} (h : rest.head? ≠ some ' ') :
    trimStartSpaces rest = rest := by
  cases rest with
  | nil => rfl
  | cons c cs => exact trimStartSpaces_cons_ne (by simpa using h) cs

theorem noCrLf_display (m : Message) :
    NoCrLf m.display ↔ NoCrLf m.displayHead ∧ NoCrLf m.command ∧
      ∀ param ∈ m.params, NoCrLf param := by
  rw [display, noCrLf_append, noCrLf_append, noCrLf_displayParams, and_assoc]

theorem noCrLf_displayHead (m : Message) :
    NoCrLf m.displayHead ↔ NoCrLf m.tags.display ∧ ∀ s ∈ m.source, NoCrLf s.display := by
  rw [displayHead, noCrLf_append]
  refine and_congr ?_ ?_
  · by_cases h : m.tags = []
    · simp [h, Tags.display]
    · rw [if_neg h, List.cons_append, noCrLf_cons, noCrLf_append]
      simp
  · cases m.source <;> simp

theorem noCrLf_tagsDisplay {tags : Tags} :
    NoCrLf tags.display ↔ ∀ tag ∈ tags, NoCrLf tag.key := by
  constructor
  · intro h tag htag
    exact ⟨fun hc => h.1 (Tags.display_subset htag (tag.key_subset_display hc)),
      fun hc => h.2 (Tags.display_subset htag (tag.key_subset_display hc))⟩
  · intro h
    rw [noCrLf_iff]
    intro c hc
    rcases Tags.mem_display hc with rfl | ⟨tag, htag, hc⟩
    · decide
    · rcases Tag.mem_display hc with hc | rfl | hc
      · exact (noCrLf_iff _).mp (h tag htag) c hc
      · decide
      · simp [isCrLf, hc.2.2.1, hc.2.2.2]

/-- The tag stage of a written message. -/
theorem takeTags_display {m : Message} (hkeys : ∀ tag ∈ m.tags, CleanKey tag.key)
    {rest : Str} (hsp : rest.head? ≠ some ' ') (hsign : m.tags = [] → rest.head? ≠ some '@') :
    takeTags ((if m.tags = [] then [] else '@' :: m.tags.display ++ [' ']) ++ rest) =
      .ok (Tags.parse m.tags.display, rest) := by
  by_cases h : m.tags = []
  · rw [if_pos h, List.nil_append, h]
    unfold takeTags
    split
    · exact absurd rfl (hsign h)
    · rfl
  · have hnot : ' ' ∉ m.tags.display := by
      intro hc
      rcases Tags.mem_display hc with hc | ⟨tag, htag, hc⟩
      · exact absurd hc (by decide)
      · rcases Tag.mem_display hc with hc | hc | hc
        · exact (hkeys tag htag).1 hc
        · exact absurd hc (by decide)
        · exact hc.2.1 rfl
    rw [if_neg h]
    simp only [List.cons_append, List.append_assoc, List.nil_append, takeTags]
    rw [splitOnce_append_sep hnot]
    dsimp only
    rw [trimStartSpaces_of_head hsp]

/-- The source stage of a written message. -/
theorem takeSource_display {source : Option Source} (hsource : ∀ s ∈ source, ' ' ∉ s.display)
    {rest : Str} (hsp : rest.head? ≠ some ' ') (hcolon : source = none → rest.head? ≠ some ':') :
    takeSource ((source.map fun s => ':' :: s.display ++ [' ']).getD [] ++ rest) =
      .ok (source.map fun s => Source.parse s.display, rest) := by
  cases source with
  | none =>
      simp only [Option.map_none, Option.getD_none, List.nil_append]
      unfold takeSource
      split
      · exact absurd rfl (hcolon rfl)
      · rfl
  | some s =>
      simp only [Option.map_some, Option.getD_some, List.cons_append, List.append_assoc,
        List.nil_append, takeSource]
      rw [splitOnce_append_sep (hsource s rfl)]
      dsimp only
      rw [trimStartSpaces_of_head hsp]

/-- The command stage of a written message. -/
theorem takeCommand_display (tags : Tags) (source : Option Source) {command : Str}
    {params : List Str} (hne : command ≠ []) (hsp : ' ' ∉ command)
    (hmiddle : ∀ param ∈ params.dropLast, Middle param) :
    takeCommand tags source (command ++ displayParams params) =
      .ok ⟨tags, source, command, params⟩ := by
  have hread := readParams_displayParams hmiddle
  unfold takeCommand
  cases params with
  | nil =>
      rw [displayParams, List.append_nil, splitOnce_eq_none.mpr hsp]
      simp [hne]
  | cons param rest =>
      obtain ⟨tail, htail⟩ := displayParams_cons param rest
      rw [htail, readParams_space] at hread
      rw [htail, splitOnce_append_sep hsp]
      simp [hne, hread]

theorem head_append_ne {a : Str} (h : a ≠ []) {c : Char} (hc : a.head? ≠ some c) (b : Str) :
    (a ++ b).head? ≠ some c := by
  rwa [List.head?_append_of_ne_nil _ h]

theorem head_ne_of_not_mem {a : Str} {c : Char} (h : c ∉ a) : a.head? ≠ some c := fun hc =>
  h (List.mem_of_mem_head? hc)

/-- What a written message reads as: the tags as they are written, and the rest unchanged.  The
command must be one word that neither marker starts. -/
theorem parse_display {m : Message} (hkeys : ∀ tag ∈ m.tags, CleanKey tag.key)
    (hsource : ∀ s ∈ m.source, ' ' ∉ s.display) (hne : m.command ≠ []) (hsp : ' ' ∉ m.command)
    (hcolon : m.source = none → m.command.head? ≠ some ':')
    (hsign : m.tags = [] → m.source = none → m.command.head? ≠ some '@')
    (hmiddle : ∀ param ∈ m.params.dropLast, Middle param) {line : Str}
    (hline : trimEndCrLf line = m.display) :
    parse line = .ok ⟨Tags.parse m.tags.display, m.source.map fun s => Source.parse s.display,
      m.command, m.params⟩ := by
  have hhead : m.command.head? ≠ some ' ' := head_ne_of_not_mem hsp
  have h₂ := takeSource_display hsource (head_append_ne hne hhead (displayParams m.params))
    fun h => head_append_ne hne (hcolon h) (displayParams m.params)
  refine parse_of_stages ?_ h₂ (takeCommand_display _ _ hne hsp hmiddle)
  rw [hline, display, displayHead, List.append_assoc, List.append_assoc]
  refine takeTags_display hkeys ?_ ?_
  · cases hs : m.source with
    | none => exact head_append_ne hne hhead _
    | some s => simp
  · intro htags
    cases hs : m.source with
    | none => exact head_append_ne hne (hsign htags hs) _
    | some s => simp

/-- **A message reads back from its line, and that line is one line, exactly when it is
sendable.** -/
theorem sendable_iff {m : Message} (hsource : ∀ s ∈ m.source, ' ' ∉ s.display)
    (hcolon : m.source = none → m.command.head? ≠ some ':') :
    m.Sendable ↔ NoCrLf m.display ∧ m.ReadsAs (m.display ++ crlf) := by
  constructor
  · intro h
    have hline : NoCrLf m.display := by
      rw [noCrLf_display, noCrLf_displayHead, noCrLf_tagsDisplay]
      exact ⟨⟨fun tag htag => (h.tags tag htag).2, fun s hs => (h.source s hs).2⟩,
        h.command.2.2, h.params⟩
    have hkeys : ∀ tag ∈ m.tags, CleanKey tag.key := fun tag htag => (h.tags tag htag).1.1
    refine ⟨hline, _, parse_display hkeys hsource h.command.1 h.command.2.1 h.colon h.sign
      h.middle (trimEndCrLf_append_crlf hline), rfl, ?_, rfl⟩
    exact (Tags.parse_display_eq_self hkeys).mpr fun tag htag => (h.tags tag htag).1
  · rintro ⟨hline, hreads⟩
    have hreads' := hreads
    obtain ⟨m', hparse, hcommand, htags, hparams⟩ := hreads
    have hparsed := parse_parsed hparse
    have hkeys : ∀ tag ∈ m.tags, CleanKey tag.key := htags ▸ hparsed.keys
    have hne : m.command ≠ [] := hcommand ▸ hparsed.command.1
    have hsp : ' ' ∉ m.command := hcommand ▸ hparsed.command.2
    have hmiddle : ∀ param ∈ m.params.dropLast, Middle param := hparams ▸ hparsed.params
    have hsign : m.tags = [] → m.source = none → m.command.head? ≠ some '@' := fun h₁ h₂ h₃ =>
      not_readsAs_of_sign h₁ h₂ hsp h₃ (trimEndCrLf_append_crlf hline) hreads'
    have hself := hparse
    rw [parse_display hkeys hsource hne hsp hcolon hsign hmiddle
      (trimEndCrLf_append_crlf hline)] at hself
    have htags' : Tags.parse m.tags.display = m.tags :=
      (congrArg Message.tags (Except.ok.inj hself)).trans htags
    have hclean := (Tags.parse_display_eq_self hkeys).mp htags'
    rw [noCrLf_display, noCrLf_displayHead, noCrLf_tagsDisplay] at hline
    exact ⟨fun tag htag => ⟨hclean tag htag, hline.1.1 tag htag⟩,
      fun s hs => ⟨hsource s hs, hline.1.2 s hs⟩, ⟨hne, hsp, hline.2.1⟩, hcolon, hsign, hmiddle,
      hline.2.2⟩

end Message

end ObbyClient

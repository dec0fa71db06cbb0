import ObbyClient.Proto.RoundTrip

/-!
# Lines that are passed on

A message that is put together by a program, and one that was read off another line: when each of
them reads back from its own line as it was.

* `Message.parse_display_tidy` — a message whose parts hold none of the markers between them;
* `Message.parse_display_iff` — and a message off any line at all;
* `Message.relays_iff` — which lines bring such a message.
-/

namespace ObbyClient

/-! ### A message put together by a program -/

/-- A source whose parts hold neither of the signs between them. -/
def Source.Tidy (source : Source) : Prop :=
  ('!' ∉ source.name ∧ '@' ∉ source.name) ∧
    (∀ user ∈ source.user, '!' ∉ user ∧ '@' ∉ user) ∧
    ∀ host ∈ source.host, '!' ∉ host ∧ '@' ∉ host

instance (source : Source) : Decidable source.Tidy := inferInstanceAs (Decidable (_ ∧ _))

/-- Such a source reads back part by part. -/
theorem Source.parse_display {source : Source} (h : source.Tidy) :
    Source.parse source.display = source := by
  obtain ⟨name, user, host⟩ := source
  obtain ⟨⟨hbang, hat⟩, huser, hhost⟩ := h
  cases user with
  | none =>
      cases host with
      | none =>
          have hdisplay : Source.display ⟨name, none, none⟩ = name := by simp [Source.display]
          rw [hdisplay, Source.parse, splitOnce_eq_none.mpr hbang, splitOnce_eq_none.mpr hat]
      | some host =>
          have hdisplay : Source.display ⟨name, none, some host⟩ = name ++ '@' :: host := by
            simp [Source.display]
          have hnot : '!' ∉ name ++ '@' :: host := by
            rw [List.mem_append, List.mem_cons]
            rintro (hmem | hmem | hmem)
            · exact hbang hmem
            · exact absurd hmem (by decide)
            · exact (hhost host rfl).1 hmem
          rw [hdisplay, Source.parse, splitOnce_eq_none.mpr hnot, splitOnce_append_sep hat]
  | some user =>
      cases host with
      | none =>
          have hdisplay : Source.display ⟨name, some user, none⟩ = name ++ '!' :: user := by
            simp [Source.display]
          rw [hdisplay, Source.parse, splitOnce_append_sep hbang]
          dsimp only
          rw [splitOnce_eq_none.mpr (huser user rfl).2]
      | some host =>
          have hdisplay : Source.display ⟨name, some user, some host⟩ =
              name ++ '!' :: (user ++ '@' :: host) := by
            simp [Source.display]
          rw [hdisplay, Source.parse, splitOnce_append_sep hbang]
          dsimp only
          rw [splitOnce_append_sep (huser user rfl).2]

namespace Message

/-- A message none of whose parts is taken for something else. -/
structure Tidy (m : Message) : Prop where
  command : m.command ≠ [] ∧ m.command.head? ≠ some '@' ∧ m.command.head? ≠ some ':' ∧
    ' ' ∉ m.command ∧ NoCrLf m.command
  middle : ∀ param ∈ m.params.dropLast, param ≠ [] ∧ param.head? ≠ some ':' ∧ ' ' ∉ param
  params : ∀ param ∈ m.params, NoCrLf param
  source : ∀ source ∈ m.source, source.Tidy ∧ ' ' ∉ source.display ∧ NoCrLf source.display
  keys : ∀ tag ∈ m.tags, tag.key ≠ [] ∧ '=' ∉ tag.key ∧ ';' ∉ tag.key ∧ ' ' ∉ tag.key ∧
    NoCrLf tag.key
  values : ∀ tag ∈ m.tags, tag.value ≠ some []

/-- **A tidy message reads back as it was**, its tags in their order and as often as they stand
there. -/
theorem parse_display_tidy {m : Message} (h : m.Tidy) : parse m.display = .ok m := by
  have hclean : ∀ tag ∈ m.tags, tag.Clean := by
    intro tag htag
    obtain ⟨hne, hequals, hsemi, hsp, -⟩ := h.keys tag htag
    exact ⟨⟨hsp, hsemi, hequals⟩, h.values tag htag, fun _ => hne⟩
  have hkeys : ∀ tag ∈ m.tags, CleanKey tag.key := fun tag htag => (hclean tag htag).1
  have hmiddle : ∀ param ∈ m.params.dropLast, Middle param := by
    intro param hparam
    obtain ⟨hne, hcolon, hsp⟩ := h.middle param hparam
    exact ⟨hne, hsp, hcolon⟩
  have hline : NoCrLf m.display := by
    rw [noCrLf_display, noCrLf_displayHead, noCrLf_tagsDisplay]
    exact ⟨⟨fun tag htag => (h.keys tag htag).2.2.2.2, fun s hs => (h.source s hs).2.2⟩,
      h.command.2.2.2.2, h.params⟩
  have htags : Tags.parse m.tags.display = m.tags := (Tags.parse_display_eq_self hkeys).mpr hclean
  have hsource : (m.source.map fun s => Source.parse s.display) = m.source := by
    cases hs : m.source with
    | none => rfl
    | some s => exact congrArg some (Source.parse_display (h.source s hs).1)
  rw [parse_display hkeys (fun s hs => (h.source s hs).2.1) h.command.1 h.command.2.2.2.1
    (fun _ => h.command.2.2.1) (fun _ _ => h.command.2.1) hmiddle (trimEndCrLf_self hline), htags,
    hsource]

/-- Tags that repeat, values with every escape, a whole source and a last parameter with a colon. -/
theorem parse_display_tidy_escaped :
    let m : Message := ⟨[⟨"a", some "; \\\r\n"⟩, ⟨"b", none⟩, ⟨"a", some "1"⟩],
      some ⟨"n", some "u", some "h"⟩, "X", ["y", ":z z"]⟩
    parse m.display = .ok m := by
  intro m
  refine parse_display_tidy ⟨by decide, by decide, by decide, ?_, by decide, by decide⟩
  intro s hs
  obtain rfl := Option.some.inj hs
  decide

/-! ### A message off a line -/

theorem takeTags_subset {line rest : Str} {tags : Tags} (h : takeTags line = .ok (tags, rest)) :
    (∀ tag ∈ tags, tag.key ⊆ line) ∧ rest ⊆ line := by
  unfold takeTags at h
  split at h
  · split at h
    · cases h
    · rename_i after raw remainder hs
      cases h
      obtain ⟨hline, -⟩ := splitOnce_eq_some.mp hs
      rw [hline]
      refine ⟨?_, ?_⟩
      · intro tag htag c hc
        obtain ⟨part, hpart, rfl⟩ := List.mem_map.mp htag
        rw [Tag.parse_key] at hc
        have hraw := subset_of_mem_splitOn (List.mem_of_mem_filter hpart) (mem_of_mem_keyOf hc)
        exact List.mem_cons_of_mem _ (List.mem_append_left _ hraw)
      · intro c hc
        have hremainder := (trimStartSpaces_suffix remainder).subset hc
        exact List.mem_cons_of_mem _ (List.mem_append_right _ (List.mem_cons_of_mem _ hremainder))
  · cases h
    exact ⟨fun tag htag => absurd htag List.not_mem_nil, List.Subset.refl _⟩

theorem takeSource_subset {line rest : Str} {source : Option Source}
    (h : takeSource line = .ok (source, rest)) :
    (∀ s ∈ source, s.display ⊆ line) ∧ rest ⊆ line := by
  unfold takeSource at h
  split at h
  · split at h
    · cases h
    · rename_i after raw remainder hs
      cases h
      obtain ⟨hline, -⟩ := splitOnce_eq_some.mp hs
      rw [hline]
      refine ⟨?_, ?_⟩
      · intro s hsource c hc
        obtain rfl := Option.some.inj hsource
        rw [Source.display_parse] at hc
        exact List.mem_cons_of_mem _ (List.mem_append_left _ hc)
      · intro c hc
        have hremainder := (trimStartSpaces_suffix remainder).subset hc
        exact List.mem_cons_of_mem _ (List.mem_append_right _ (List.mem_cons_of_mem _ hremainder))
  · cases h
    exact ⟨fun s hs => absurd hs (by simp), List.Subset.refl _⟩

theorem parseParams_subset (fuel : ℕ) (rest : Str) :
    ∀ param ∈ parseParams fuel rest, param ⊆ rest := by
  induction fuel generalizing rest with
  | zero => simp [parseParams]
  | succ fuel ih =>
      have htrim := (trimStartSpaces_suffix rest).subset
      rw [parseParams]
      split
      · simp
      · rename_i trailing heq
        intro param hparam
        rw [List.mem_singleton.mp hparam]
        rw [heq] at htrim
        exact fun c hc => htrim (List.mem_cons_of_mem _ hc)
      · rename_i first more _ heq
        rw [heq] at htrim
        split
        · rename_i param remainder hs
          obtain ⟨hline, -⟩ := splitOnce_eq_some.mp hs
          rw [hline] at htrim
          intro p hp
          rcases List.mem_cons.mp hp with rfl | hp
          · exact fun c hc => htrim (List.mem_append_left _ hc)
          · exact fun c hc =>
              htrim (List.mem_append_right _ (List.mem_cons_of_mem _ (ih remainder p hp hc)))
        · intro p hp
          rw [List.mem_singleton.mp hp]
          exact htrim

/-- A line without a line break brings a message without one, but for the values of its tags. -/
theorem noCrLf_of_parse {line : Str} (hline : NoCrLf line) {m : Message} (h : parse line = .ok m) :
    NoCrLf m.display := by
  obtain ⟨rest₁, rest₂, htags, hsource, hcommand⟩ := parse_ok h
  rw [trimEndCrLf_self hline] at htags
  obtain ⟨hkeys, hrest₁⟩ := takeTags_subset htags
  obtain ⟨hsources, hrest₂⟩ := takeSource_subset hsource
  obtain ⟨-, -, -, -, hparams⟩ := takeCommand_ok hcommand
  have hfree : ∀ {s : Str}, s ⊆ line → NoCrLf s := fun hs =>
    ⟨fun hc => hline.1 (hs hc), fun hc => hline.2 (hs hc)⟩
  have hrest : ∀ {s : Str}, s ⊆ rest₂ → NoCrLf s := fun hs =>
    hfree (List.Subset.trans hs (List.Subset.trans hrest₂ hrest₁))
  rw [noCrLf_display, noCrLf_displayHead, noCrLf_tagsDisplay]
  refine ⟨⟨fun tag htag => hfree (hkeys tag htag), fun s hs =>
    hfree (List.Subset.trans (hsources s hs) hrest₁)⟩, ?_, ?_⟩
  · rcases hparams with ⟨hcmd, -⟩ | ⟨rest, hcmd, -⟩
    · exact hrest (hcmd ▸ List.Subset.refl _)
    · exact hrest (hcmd ▸ List.subset_append_left _ _)
  · intro param hparam
    rcases hparams with ⟨-, hnil⟩ | ⟨rest, hcmd, hread⟩
    · rw [hnil] at hparam
      cases hparam
    · rw [hread] at hparam
      refine hrest (List.Subset.trans (parseParams_subset _ rest param hparam) ?_)
      rw [hcmd]
      exact fun c hc => List.mem_append_right _ (List.mem_cons_of_mem _ hc)

/-- **A message off a line reads back as it was** just when each of its tags does, and its command
is not taken for a tag section. -/
theorem parse_display_iff {line : Str} (hline : NoCrLf line) {m : Message}
    (h : parse line = .ok m) :
    parse m.display = .ok m ↔
      (∀ tag ∈ m.tags, tag.Clean) ∧
        (m.tags = [] → m.source = none → m.command.head? ≠ some '@') := by
  have hparsed := parse_parsed h
  have hself : trimEndCrLf m.display = m.display := trimEndCrLf_self (noCrLf_of_parse hline h)
  have hsource : (m.source.map fun s => Source.parse s.display) = m.source := by
    obtain ⟨rest₁, rest₂, -, hsource, -⟩ := parse_ok h
    unfold takeSource at hsource
    split at hsource
    · split at hsource
      · cases hsource
      · rename_i raw remainder hs
        rw [Except.ok.injEq, Prod.mk.injEq] at hsource
        rw [← hsource.1, Option.map_some, Source.display_parse]
    · rw [Except.ok.injEq, Prod.mk.injEq] at hsource
      rw [← hsource.1]
      rfl
  have hread : (m.tags = [] → m.source = none → m.command.head? ≠ some '@') →
      parse m.display = .ok ⟨Tags.parse m.tags.display, m.source, m.command, m.params⟩ := by
    intro hsign
    rw [parse_display hparsed.keys hparsed.source hparsed.command.1 hparsed.command.2 hparsed.colon
      hsign hparsed.params hself, hsource]
  constructor
  · intro hback
    have hsign : m.tags = [] → m.source = none → m.command.head? ≠ some '@' :=
      fun htags hnone hhead =>
      not_readsAs_of_sign htags hnone hparsed.command.2 hhead hself ⟨m, hback, rfl, rfl, rfl⟩
    refine ⟨(Tags.parse_display_eq_self hparsed.keys).mp ?_, hsign⟩
    exact congrArg Message.tags (Except.ok.inj ((hread hsign).symm.trans hback))
  · rintro ⟨hclean, hsign⟩
    rw [hread hsign, (Tags.parse_display_eq_self hparsed.keys).mpr hclean]

end Message

/-! ### Which lines bring one -/

/-- Nothing but a lone backslash stands for nothing. -/
theorem unescape_eq_nil {s : Str} : unescape s = [] ↔ s = [] ∨ s = ['\\'] := by
  constructor
  · intro h
    unfold unescape at h
    split at h
    · exact .inl rfl
    · exact .inr rfl
    · cases h
    · cases h
  · rintro (rfl | rfl)
    · rfl
    · rfl

/-- A part of a tag section that is written back as another: a name and a value that are both empty,
and a value that is a lone backslash. -/
def Tag.Lost (part : Str) : Prop :=
  part = ['='] ∨ (splitOnce '=' part).map Prod.snd = some ['\\']

instance (part : Str) : Decidable (Tag.Lost part) := inferInstanceAs (Decidable (_ ∨ _))

theorem Tag.parse_clean_iff {part : Str} (hne : part ≠ []) (hkey : CleanKey (Tag.parse part).key) :
    (Tag.parse part).Clean ↔ ¬ Tag.Lost part := by
  unfold Tag.Clean Tag.Lost
  rw [and_iff_right hkey, not_or]
  unfold Tag.parse
  cases hs : splitOnce '=' part with
  | none =>
      have hkeyed : keyOf part = part := by
        rw [keyOf, hs]
        rfl
      have hsign : part ≠ ['='] := by
        rintro rfl
        exact splitOnce_eq_none.mp hs (by decide)
      dsimp only [Tag.flag]
      rw [hkeyed]
      exact iff_of_true ⟨by simp, fun _ => hne⟩ ⟨hsign, by simp⟩
  | some p =>
      obtain ⟨key, value⟩ := p
      obtain ⟨hpart, hnot⟩ := splitOnce_eq_some.mp hs
      have hkeyed : keyOf part = key := by
        rw [keyOf, hs]
        rfl
      have hsign : part = ['='] ↔ key = [] ∧ value = [] := by
        rw [hpart]
        constructor
        · intro h
          cases key with
          | nil => exact ⟨rfl, List.tail_eq_of_cons_eq h⟩
          | cons c cs =>
              have htail := List.tail_eq_of_cons_eq h
              exact absurd htail (by simp)
        · rintro ⟨rfl, rfl⟩
          rfl
      rw [hsign, Option.map_some, Option.some.injEq]
      cases value with
      | nil =>
          dsimp only [Tag.flag]
          rw [hkeyed]
          simp
      | cons c cs =>
          dsimp only [Tag.new]
          rw [ne_eq, Option.some.injEq, unescape_eq_nil]
          simp

/-- The tag section of a line, and what follows it. -/
def tagSection : Str → Option (Str × Str)
  | '@' :: after => splitOnce ' ' after
  | _ => none

/-- A line that can be passed on: no part of its tag section is written back as another, and a
section that holds no tag is not followed by the sign of one. -/
def Relayed (line : Str) : Prop :=
  ∀ p ∈ tagSection line, (∀ part ∈ p.1.splitOn ';', ¬ Tag.Lost part) ∧
    ((∀ part ∈ p.1.splitOn ';', part = []) → (trimStartSpaces p.2).head? ≠ some '@')

instance (line : Str) : Decidable (Relayed line) :=
  inferInstanceAs (Decidable (∀ p ∈ tagSection line, _))

namespace Message

/-- The tag stage, by the section it takes. -/
theorem takeTags_ok {line rest : Str} {tags : Tags} (h : takeTags line = .ok (tags, rest)) :
    (tagSection line = none ∧ tags = [] ∧ rest = line ∧ line.head? ≠ some '@') ∨
      ∃ raw remainder, tagSection line = some (raw, remainder) ∧ tags = Tags.parse raw ∧
        rest = trimStartSpaces remainder := by
  unfold takeTags at h
  split at h
  · rename_i after
    split at h
    · cases h
    · rename_i raw remainder hs
      cases h
      exact .inr ⟨raw, remainder, hs, rfl, rfl⟩
  · rename_i hsign
    cases h
    have hhead : line.head? ≠ some '@' := by
      intro hhead
      cases line with
      | nil => cases hhead
      | cons c cs => exact hsign cs (by rw [Option.some.inj hhead])
    refine .inl ⟨?_, rfl, rfl, hhead⟩
    unfold tagSection
    split
    · rename_i after
      exact absurd rfl (hsign after)
    · rfl

/-- A message without a source has its command in front of what stands behind the tags. -/
theorem head_of_stages {rest₁ rest₂ : Str} {m : Message}
    (hsource : takeSource rest₁ = .ok (m.source, rest₂))
    (hcommand : takeCommand m.tags m.source rest₂ = .ok m) (hnone : m.source = none) :
    m.command.head? = rest₁.head? := by
  obtain ⟨-, -, hne, -, hparams⟩ := takeCommand_ok hcommand
  have hrest : rest₂ = rest₁ := by
    unfold takeSource at hsource
    split at hsource
    · split at hsource
      · cases hsource
      · rw [Except.ok.injEq, Prod.mk.injEq, hnone] at hsource
        cases hsource.1
    · rw [Except.ok.injEq, Prod.mk.injEq] at hsource
      exact hsource.2.symm
  rw [← hrest]
  rcases hparams with ⟨hcmd, -⟩ | ⟨rest, hcmd, -⟩
  · rw [hcmd]
  · rw [hcmd, List.head?_append_of_ne_nil _ hne]

/-- **Passing a line on does not change what it says** just when no part of its tag section is
written back as another, and a section that holds no tag is not followed by the sign of one. -/
theorem relays_iff {line : Str} (hline : NoCrLf line) {m : Message} (h : parse line = .ok m) :
    parse m.display = .ok m ↔ Relayed line := by
  rw [parse_display_iff hline h]
  have hparsed := parse_parsed h
  obtain ⟨rest₁, rest₂, htags, hsource, hcommand⟩ := parse_ok h
  rw [trimEndCrLf_self hline] at htags
  unfold Relayed
  rcases takeTags_ok htags with ⟨hnone, hnil, hrest, hhead⟩ | ⟨raw, remainder, hsome, hraw, hrest⟩
  · rw [hnone]
    refine iff_of_true ⟨?_, ?_⟩ (by simp)
    · rw [hnil]
      simp
    · intro _ hsourceless
      rw [head_of_stages hsource hcommand hsourceless, hrest]
      exact hhead
  · have hclean : (∀ tag ∈ m.tags, tag.Clean) ↔ ∀ part ∈ raw.splitOn ';', ¬ Tag.Lost part := by
      have hkeys := hparsed.keys
      rw [hraw] at hkeys ⊢
      constructor
      · intro hall part hpart
        by_cases hne : part = []
        · rw [hne]
          decide
        · have hmem : part ∈ (raw.splitOn ';').filter (· ≠ []) := by
            rw [List.mem_filter]
            exact ⟨hpart, by simpa using hne⟩
          have htag : Tag.parse part ∈ Tags.parse raw := List.mem_map_of_mem hmem
          exact (Tag.parse_clean_iff hne (hkeys _ htag)).mp (hall _ htag)
      · intro hall tag htag
        have hkey := hkeys tag htag
        obtain ⟨part, hmem, rfl⟩ := List.mem_map.mp htag
        obtain ⟨hpart, hne⟩ := List.mem_filter.mp hmem
        exact (Tag.parse_clean_iff (by simpa using hne) hkey).mpr (hall part hpart)
    have hempty : m.tags = [] ↔ ∀ part ∈ raw.splitOn ';', part = [] := by
      rw [hraw, Tags.parse, List.map_eq_nil_iff, List.filter_eq_nil_iff]
      simp
    rw [hsome, hclean, hempty]
    simp only [Option.mem_def, Option.some.injEq, forall_eq']
    refine and_congr_right fun _ => forall_congr' fun _ => ?_
    constructor
    · intro hsign hhead
      have hsourceless : m.source = none := by
        unfold takeSource at hsource
        rw [hrest] at hsource
        split at hsource
        · rename_i after heq
          rw [heq] at hhead
          cases hhead
        · rw [Except.ok.injEq, Prod.mk.injEq] at hsource
          exact hsource.1.symm
      refine hsign hsourceless ?_
      rw [head_of_stages hsource hcommand hsourceless, hrest]
      exact hhead
    · intro hhead hsourceless
      rw [head_of_stages hsource hcommand hsourceless, hrest]
      exact hhead

/-- A line with tags of all kinds, repeated spaces and an escaped line break. -/
theorem relays_iff_escaped :
    ∃ m, parse "@a=1\\n;;b;a= :n!u@h  x  y :z z" = .ok m ∧ parse m.display = .ok m := by
  obtain ⟨m, hm⟩ : ∃ m, parse "@a=1\\n;;b;a= :n!u@h  x  y :z z" = .ok m := ⟨_, rfl⟩
  exact ⟨m, hm, (relays_iff (by decide) hm).mpr (by decide)⟩

/-- **A value that is a lone backslash is not passed on**: it comes back as no value. -/
theorem backslash_not_relayed :
    ∃ m, NoCrLf "@a=\\ X" ∧ parse "@a=\\ X" = .ok m ∧ parse m.display ≠ .ok m :=
  ⟨⟨[⟨"a", some []⟩], none, "X", []⟩, by decide, by decide, by decide⟩

end Message

end ObbyClient

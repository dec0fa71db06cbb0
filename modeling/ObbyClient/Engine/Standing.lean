import ObbyClient.Engine.Edits

/-!
# What most lines leave standing

Only a few lines take a channel away or touch the WHOIS records.

* `Session.Stands` — a result in which every channel is still there, and every record as it was;
* `Session.apply_stands` — the lines that leave it so;
* `Session.apply_channel` — the lines after which a channel is no longer there.
-/

namespace ObbyClient.Session

open Model

/-- A model in which every channel is still there, and every WHOIS record as it was. -/
structure Stands (before after : Model) : Prop where
  channels : ∀ key, (before.channel key).isSome = true → (after.channel key).isSome = true
  whois : after.whois = before.whois

namespace Stands

theorem of_maps {before after : Model} (hchannels : after.channels = before.channels)
    (hwhois : after.whois = before.whois) : Stands before after := by
  refine ⟨?_, hwhois⟩
  intro key h
  unfold Model.channel
  rw [hchannels]
  exact h

theorem refl (model : Model) : Stands model model := of_maps rfl rfl

theorem trans {a b c : Model} (h : Stands a b) (h' : Stands b c) : Stands a c :=
  ⟨fun key hkey => h'.channels key (h.channels key hkey), h'.whois.trans h.whois⟩

theorem setChannel (model : Model) (key : CaseFolded) (channel : Channel) :
    Stands model (model.setChannel key channel) := by
  refine ⟨?_, rfl⟩
  intro other h
  show ((model.channels.insert key channel)[other]?).isSome = true
  rw [Std.ExtTreeMap.getElem?_insert]
  split
  · rfl
  · exact h

/-- Channels that change where they stand. -/
theorem channelMut (model : Model) (key : CaseFolded) (f : Channel → Channel) :
    Stands model (model.channelMut key f) := by
  refine ⟨?_, rfl⟩
  intro other h
  show ((model.channels.modify key f)[other]?).isSome = true
  rw [Std.ExtTreeMap.getElem?_modify]
  split
  · rename_i heq
    rw [Option.isSome_map, Std.LawfulEqCmp.compare_eq_iff_eq.mp heq]
    exact h
  · exact h

theorem logMut (model : Model) (key : CaseFolded) (f : MessageLog → MessageLog) :
    Stands model (model.logMut key f) := by
  unfold Model.logMut
  split
  · exact channelMut _ _ _
  · exact of_maps rfl rfl

theorem personOrInsert (model : Model) (key : CaseFolded) (nick : Str) (f : Person → Person) :
    Stands model (model.personOrInsert key nick f) := of_maps rfl rfl

/-- A result with this model. -/
theorem result {ctx : Context} {model : Model} (h : Stands ctx.model model)
    (changes : List Change) :
    Stands ctx.model (ctx.withModel model, changes).1.model := h

end Stands

/-- Channels that all change where they stand. -/
theorem isSome_map (channels : Std.ExtTreeMap CaseFolded Channel) (f : Channel → Channel)
    {key : CaseFolded} (h : (channels[key]?).isSome = true) :
    ((channels.map fun _ channel => f channel)[key]?).isSome = true := by
  rw [Std.ExtTreeMap.getElem?_map, Option.isSome_map]
  exact h

/-! ### The commands -/

theorem reaction_stands {ctx : Context} {line : Message} {result : Result}
    (h : reaction ctx line = some result) : Stands ctx.model result.1.model := by
  obtain ⟨target, msgid, f, rfl⟩ := reaction_eq_some h
  exact Stands.result (Stands.logMut ctx.model _ _) _

theorem linkPreview_stands {ctx : Context} {line : Message} {result : Result}
    (h : linkPreview ctx line = some result) : Stands ctx.model result.1.model := by
  rcases linkPreview_eq_some h with rfl | ⟨name, msgid, message, f, hf, -, rfl⟩
  · exact Stands.refl _
  · exact Stands.result (Stands.logMut ctx.model _ _) _

theorem message_stands [Primitives] (ctx : Context) (line : Message) (command : Str) :
    Stands ctx.model (message ctx line command).1.model := by
  have hfile : ∀ target, Stands ctx.model (file ctx line command target).1.model := by
    intro target
    have hstart : Stands ctx.model (ctx.model.nextMessageKey (ctx.stamped line)).1 :=
      Stands.of_maps rfl rfl
    unfold file
    dsimp only
    split
    · split
      · exact hstart
      · exact hstart.trans (Stands.setChannel _ _ _)
    · exact hstart.trans (Stands.of_maps rfl rfl)
  unfold message
  split
  · exact Stands.refl _
  · rename_i target htarget
    split
    · split
      · rename_i result h
        exact reaction_stands h
      · split
        · rename_i result h
          exact linkPreview_stands h
        · exact hfile target
    · exact hfile target

theorem join_stands (ctx : Context) (line : Message) :
    Stands ctx.model (join ctx line).1.model := by
  unfold join
  split
  · exact Stands.refl _
  · dsimp only
    split
    · exact Stands.setChannel _ _ _
    · split
      · exact Stands.refl _
      · show Stands ctx.model ((ctx.model.personOrInsert _ _ _).setChannel _ _)
        exact (Stands.personOrInsert _ _ _ _).trans (Stands.setChannel _ _ _)

theorem topic_stands (ctx : Context) (line : Message) :
    Stands ctx.model (topic ctx line).1.model := by
  unfold topic
  split
  · exact Stands.refl _
  · split
    · exact Stands.refl _
    · exact Stands.channelMut _ _ _

theorem topicReply_stands (ctx : Context) (line : Message) :
    Stands ctx.model (topicReply ctx line).1.model := by
  unfold topicReply
  split
  · exact Stands.refl _
  · split
    · exact Stands.refl _
    · exact Stands.channelMut _ _ _

theorem namesLoop_stands (i : Isupport) (folded : CaseFolded) (model : Model) (entries : List Str) :
    Stands model (namesLoop i folded model entries).1 := by
  induction entries generalizing model with
  | nil => exact Stands.refl _
  | cons entry entries ih =>
      rw [namesLoop]
      dsimp only
      split
      · exact ih model
      · split
        · exact Stands.refl _
        · refine Stands.trans ?_ (ih _)
          exact (Stands.personOrInsert _ _ _ _).trans (Stands.setChannel _ _ _)

theorem redact_stands (ctx : Context) (line : Message) :
    Stands ctx.model (redact ctx line).1.model := by
  unfold redact
  split
  · dsimp only
    split
    · exact Stands.refl _
    · exact Stands.result (Stands.logMut ctx.model _ _) _
  · exact Stands.refl _

theorem markRead_stands (ctx : Context) (line : Message) :
    Stands ctx.model (markRead ctx line).1.model := by
  unfold markRead
  split
  · dsimp only
    split
    · exact Stands.setChannel _ _ _
    · exact Stands.of_maps rfl rfl
    · exact Stands.refl _
  · exact Stands.refl _

theorem metadata_stands (ctx : Context) (line : Message) (offset : ℕ) :
    Stands ctx.model (metadata ctx line offset).1.model := by
  unfold metadata
  split
  · rename_i target key _ _
    dsimp only
    generalize (if target = "*" then ctx.model.me.nick else target) = target
    split
    · split
      · exact Stands.refl _
      · exact Stands.channelMut _ _ _
    · show Stands ctx.model (if ctx.isMe target = true then _ else _)
      split
      · exact Stands.of_maps rfl rfl
      · exact Stands.of_maps rfl rfl
  · exact Stands.refl _

theorem personChanged_stands (ctx : Context) (line : Message) (change : Person → Person) :
    Stands ctx.model (personChanged ctx line change).1.model := by
  unfold personChanged
  dsimp only
  split
  · exact Stands.of_maps rfl rfl
  · exact Stands.of_maps rfl rfl

theorem applyWho_stands (ctx : Context) (row : WhoRow) :
    Stands ctx.model (applyWho ctx row).1.model := by
  have hperson : Stands ctx.model
      (ctx.model.personOrInsert (ctx.fold row.nick) row.nick (whoPerson row)) :=
    Stands.of_maps rfl rfl
  unfold applyWho
  dsimp only
  split
  · exact hperson
  · split
    · exact hperson
    · exact hperson.trans (Stands.channelMut _ _ _)

theorem whoReply_stands (ctx : Context) (line : Message) :
    Stands ctx.model (whoReply ctx line).1.model := by
  unfold whoReply
  split
  · exact applyWho_stands _ _
  · exact Stands.refl _

theorem whoxReply_stands (ctx : Context) (line : Message) :
    Stands ctx.model (whoxReply ctx line).1.model := by
  unfold whoxReply
  split
  · exact Stands.refl _
  · split
    · exact applyWho_stands _ _
    · exact Stands.refl _

theorem applyNamed_stands (ctx : Context) (name : Str) (entries : List Str) :
    Stands ctx.model (applyNamed ctx name entries).1.model := by
  unfold applyNamed
  split
  · exact Stands.refl _
  · exact Stands.channelMut _ _ _

theorem mode_stands (ctx : Context) (line : Message) :
    Stands ctx.model (mode ctx line).1.model := by
  unfold mode
  split
  · exact Stands.refl _
  · dsimp only
    split
    · exact Stands.of_maps rfl rfl
    · split
      · exact Stands.refl _
      · exact Stands.setChannel _ _ _

/-- The lines by which somebody, or a channel, goes away. -/
def departs (command : Str) : Bool :=
  command == ("PART" : Str) || command == ("QUIT" : Str) || command == ("KICK" : Str) ||
    command == ("RENAME" : Str)

/-- **Every other line** leaves all channels standing, and but for a WHOIS reply the records. -/
theorem apply_stands [Primitives] (ctx : Context) (line : Message)
    (hdeparts : departs (toAsciiUppercase line.command) = false)
    (hwhois : isWhois (toAsciiUppercase line.command) = false) :
    Stands ctx.model (apply ctx line).1.model := by
  have happlied := apply_applied ctx line
  generalize toAsciiUppercase line.command = command at happlied hdeparts hwhois
  generalize apply ctx line = result at happlied ⊢
  cases happlied with
  | message => exact message_stands _ _ _
  | join => exact join_stands _ _
  | part h => exact absurd hdeparts (by rw [h]; decide)
  | quit h => exact absurd hdeparts (by rw [h]; decide)
  | kick h => exact absurd hdeparts (by rw [h]; decide)
  | nick =>
      unfold nick
      split
      · exact Stands.refl _
      · exact ⟨fun key hkey => isSome_map ctx.model.channels _ hkey, rfl⟩
  | rename h => exact absurd hdeparts (by rw [h]; decide)
  | topic => exact topic_stands _ _
  | mode => exact mode_stands _ _
  | topicReply => exact topicReply_stands _ _
  | markRead => exact markRead_stands _ _
  | redact => exact redact_stands _ _
  | away => exact personChanged_stands _ _ _
  | account => exact personChanged_stands _ _ _
  | metadata => exact metadata_stands _ _ _
  | keys => exact metadata_stands _ _ _
  | whois h => exact absurd h (by rw [hwhois]; exact Bool.false_ne_true)
  | names =>
      unfold names
      split
      · exact Stands.refl _
      · exact namesLoop_stands _ _ _ _
  | whoReply => exact whoReply_stands _ _
  | whoxReply => exact whoxReply_stands _ _
  | prop =>
      unfold prop
      split
      · exact Stands.refl _
      · exact applyNamed_stands _ _ _
  | propList =>
      unfold propList
      split
      · exact Stands.refl _
      · exact applyNamed_stands _ _ _
  | other => exact Stands.refl _

/-! ### The lines by which a channel goes away -/

/-- A line that takes a channel away from under its key: we leave it, we are made to, or it is
renamed. -/
inductive Removes (ctx : Context) (line : Message) : CaseFolded → Prop
  | part {name : Str} (hline : toAsciiUppercase line.command = "PART")
      (hname : line.param 0 = some name) (h : ctx.isMe (sender line) = true) :
      Removes ctx line (ctx.fold name)
  | kick {name target : Str} (hline : toAsciiUppercase line.command = "KICK")
      (hname : line.param 0 = some name) (htarget : line.param 1 = some target)
      (h : ctx.isMe target = true) : Removes ctx line (ctx.fold name)
  | rename {source dest : Str} (hline : toAsciiUppercase line.command = "RENAME")
      (hsource : line.param 0 = some source) (hdest : line.param 1 = some dest)
      (h : ctx.fold dest ≠ ctx.fold source) : Removes ctx line (ctx.fold source)

theorem channel_removeChannel {model : Model} {key other : CaseFolded}
    (h : (model.channel key).isSome = true) (hne : other ≠ key) :
    ((model.removeChannel other).channel key).isSome = true := by
  show ((model.channels.erase other)[key]?).isSome = true
  rw [Std.ExtTreeMap.getElem?_erase, if_neg (by rwa [Std.LawfulEqCmp.compare_eq_iff_eq])]
  exact h

theorem channel_leave (ctx : Context) (folded who : CaseFolded) {key : CaseFolded}
    (h : (ctx.model.channel key).isSome = true) :
    ((leave ctx folded who).model.channel key).isSome = true :=
  (Stands.channelMut ctx.model folded fun channel =>
    { channel with members := channel.members.erase who }).channels key h

/-- **A channel is still there after a line** that does not take it away. -/
theorem apply_channel [Primitives] (ctx : Context) (line : Message) {key : CaseFolded}
    (h : (ctx.model.channel key).isSome = true) (hremoves : ¬Removes ctx line key) :
    ((apply ctx line).1.model.channel key).isSome = true := by
  by_cases hpart : toAsciiUppercase line.command = "PART"
  · rw [apply_of_handles ctx hpart .part]
    unfold part
    split
    · exact h
    · rename_i name hname
      dsimp only
      split
      · rename_i hme
        refine channel_removeChannel h ?_
        rintro rfl
        exact hremoves (.part hpart hname hme)
      · exact channel_leave ctx _ _ h
  by_cases hquit : toAsciiUppercase line.command = "QUIT"
  · rw [apply_of_handles ctx hquit .quit]
    exact isSome_map ctx.model.channels _ h
  by_cases hkick : toAsciiUppercase line.command = "KICK"
  · rw [apply_of_handles ctx hkick .kick]
    unfold kick
    split
    · rename_i name target hname htarget
      dsimp only
      split
      · rename_i hme
        refine channel_removeChannel h ?_
        rintro rfl
        exact hremoves (.kick hkick hname htarget hme)
      · exact channel_leave ctx _ _ h
    · exact h
  by_cases hrename : toAsciiUppercase line.command = "RENAME"
  · rcases apply_rename ctx line hrename with ⟨hsame, -⟩ | ⟨source, dest, model, hsource, hdest,
      hmodel, hsame⟩
    · rw [hsame]
      exact h
    · rw [hsame]
      obtain ⟨channel, hchannel, rfl⟩ := Option.map_eq_some_iff.mp hmodel
      show ((Model.setChannel _ _ _).channel key).isSome = true
      by_cases hkey : key = ctx.fold source
      · subst hkey
        have hsame : ctx.fold dest = ctx.fold source := by
          by_contra hne
          exact hremoves (.rename hrename hsource hdest hne)
        show ((Std.ExtTreeMap.insert _ (ctx.fold dest) _)[ctx.fold source]?).isSome = true
        rw [hsame, Std.ExtTreeMap.getElem?_insert_self]
        rfl
      · exact (Stands.setChannel _ _ _).channels key
          (channel_removeChannel h fun heq => hkey heq.symm)
  by_cases hwhois : isWhois (toAsciiUppercase line.command) = true
  · rw [apply_of_handles ctx rfl (.whois hwhois)]
    unfold whois
    split
    · exact h
    · dsimp only
      split
      · split
        · exact h
        · exact h
      · exact h
  · refine (apply_stands ctx line ?_ (Bool.eq_false_iff.mpr hwhois)).channels key h
    unfold departs
    simp only [Bool.or_eq_false_iff, beq_eq_false_iff_ne]
    exact ⟨⟨⟨hpart, hquit⟩, hkick⟩, hrename⟩

end ObbyClient.Session

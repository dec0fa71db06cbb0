import ObbyClient.Engine.Session
import ObbyClient.Lib.Maps

/-!
# What a line does to the maps

Folding a line changes the model in many ways, but it only ever changes entries where they stand,
adds new ones under their folded names and drops others.  Renames are the exception.

* `Model.Edit` — a change that moves no entry;
* `Session.apply_edit` — every command but `NICK` and `RENAME` makes such a change.
-/

namespace ObbyClient

namespace Model

/-! ### Changes that move no entry -/

/-- A change to the model that moves no entry from one key to another. -/
structure Edit (i : Isupport) (before after : Model) : Prop where
  nick : after.me.nick = before.me.nick
  channels : ∀ key channel, after.channel key = some channel →
    (∃ old, before.channel key = some old ∧ channel.name = old.name ∧
        channel.typing = old.typing) ∨
      (i.fold channel.name = key ∧ channel.typing = ∅)
  conversations : ∀ key query, after.conversation key = some query →
    (∃ old, before.conversation key = some old ∧ query.nick = old.nick ∧
        query.typing = old.typing) ∨
      (i.fold query.nick = key ∧ query.typing = ∅)
  people : ∀ key person, after.person key = some person →
    (∃ old, before.person key = some old ∧ person.nick = old.nick) ∨ i.fold person.nick = key
  members : ∀ key channel who, after.channel key = some channel → who ∈ channel.members →
    (∃ old, before.channel key = some old ∧ who ∈ old.members) ∨ who ∈ after.people
  known : ∀ who ∈ before.people, who ∈ after.people ∨
    ∀ key channel, after.channel key = some channel → who ∉ channel.members

namespace Edit

variable {i : Isupport}

/-- A change that leaves the maps alone. -/
theorem of_maps {before after : Model} (hnick : after.me.nick = before.me.nick)
    (hchannels : after.channels = before.channels)
    (hconversations : after.conversations = before.conversations)
    (hpeople : after.people = before.people) : Edit i before after := by
  have hchannel : ∀ key, after.channel key = before.channel key := by
    intro key
    unfold Model.channel
    rw [hchannels]
  refine ⟨hnick, ?_, ?_, ?_, ?_, ?_⟩
  · intro key channel h
    exact .inl ⟨channel, (hchannel key).symm.trans h, rfl, rfl⟩
  · intro key query h
    unfold Model.conversation at h
    rw [hconversations] at h
    exact .inl ⟨query, h, rfl, rfl⟩
  · intro key person h
    unfold Model.person at h
    rw [hpeople] at h
    exact .inl ⟨person, h, rfl⟩
  · intro key channel who h hwho
    exact .inl ⟨channel, (hchannel key).symm.trans h, hwho⟩
  · intro who hwho
    rw [hpeople]
    exact .inl hwho

theorem refl (model : Model) : Edit i model model := of_maps rfl rfl rfl rfl

theorem trans {a b c : Model} (h : Edit i a b) (h' : Edit i b c) : Edit i a c := by
  refine ⟨h'.nick.trans h.nick, ?_, ?_, ?_, ?_, ?_⟩
  · intro key channel hchannel
    rcases h'.channels key channel hchannel with ⟨middle, hmiddle, hname, htyping⟩ | hnew
    · rcases h.channels key middle hmiddle with ⟨old, hold, hname', htyping'⟩ | ⟨hfold, htyping'⟩
      · exact .inl ⟨old, hold, hname.trans hname', htyping.trans htyping'⟩
      · rw [← hname] at hfold
        exact .inr ⟨hfold, htyping.trans htyping'⟩
    · exact .inr hnew
  · intro key query hquery
    rcases h'.conversations key query hquery with ⟨middle, hmiddle, hnick, htyping⟩ | hnew
    · rcases h.conversations key middle hmiddle with
        ⟨old, hold, hnick', htyping'⟩ | ⟨hfold, htyping'⟩
      · exact .inl ⟨old, hold, hnick.trans hnick', htyping.trans htyping'⟩
      · rw [← hnick] at hfold
        exact .inr ⟨hfold, htyping.trans htyping'⟩
    · exact .inr hnew
  · intro key person hperson
    rcases h'.people key person hperson with ⟨middle, hmiddle, hnick⟩ | hfold
    · rcases h.people key middle hmiddle with ⟨old, hold, hnick'⟩ | hfold
      · exact .inl ⟨old, hold, hnick.trans hnick'⟩
      · rw [← hnick] at hfold
        exact .inr hfold
    · exact .inr hfold
  · intro key channel who hchannel hwho
    rcases h'.members key channel who hchannel hwho with ⟨middle, hmiddle, hwho'⟩ | hknown
    · rcases h.members key middle who hmiddle hwho' with hold | hknown
      · exact .inl hold
      · rcases h'.known who hknown with hknown | hnone
        · exact .inr hknown
        · exact absurd hwho (hnone key channel hchannel)
    · exact .inr hknown
  · intro who hwho
    rcases h.known who hwho with hknown | hnone
    · exact h'.known who hknown
    · by_cases hknown : who ∈ c.people
      · exact .inl hknown
      · right
        intro key channel hchannel hmember
        rcases h'.members key channel who hchannel hmember with ⟨middle, hmiddle, hmember'⟩ | hlater
        · exact hnone key middle hmiddle hmember'
        · exact hknown hlater

/-! ### The changes there are -/

/-- A channel that changes where it stands. -/
theorem setChannel {model : Model} {key : CaseFolded} {old channel : Channel}
    (h : model.channel key = some old) (hname : channel.name = old.name)
    (htyping : channel.typing = old.typing)
    (hmembers : ∀ who ∈ channel.members, who ∈ old.members ∨ who ∈ model.people) :
    Edit i model (model.setChannel key channel) := by
  refine ⟨rfl, ?_, fun key query h => .inl ⟨query, h, rfl, rfl⟩,
    fun key person h => .inl ⟨person, h, rfl⟩, ?_, fun who hwho => .inl hwho⟩
  · intro other found hfound
    rcases Maps.getElem?_insert_eq_some.mp hfound with ⟨rfl, rfl⟩ | ⟨-, hfound⟩
    · exact .inl ⟨old, h, hname, htyping⟩
    · exact .inl ⟨found, hfound, rfl, rfl⟩
  · intro other found who hfound hwho
    rcases Maps.getElem?_insert_eq_some.mp hfound with ⟨rfl, rfl⟩ | ⟨-, hfound⟩
    · exact (hmembers who hwho).imp_left fun hwho => ⟨old, h, hwho⟩
    · exact .inl ⟨found, hfound, hwho⟩

theorem channelMut {model : Model} {key : CaseFolded} {f : Channel → Channel}
    (hname : ∀ channel, (f channel).name = channel.name)
    (htyping : ∀ channel, (f channel).typing = channel.typing)
    (hmembers : ∀ channel, ∀ who ∈ (f channel).members, who ∈ channel.members ∨
      who ∈ model.people) :
    Edit i model (model.channelMut key f) := by
  refine ⟨rfl, ?_, fun key query h => .inl ⟨query, h, rfl, rfl⟩,
    fun key person h => .inl ⟨person, h, rfl⟩, ?_, fun who hwho => .inl hwho⟩
  · intro other found hfound
    rcases Maps.getElem?_modify_eq_some.mp hfound with ⟨rfl, old, hold, rfl⟩ | ⟨-, hfound⟩
    · exact .inl ⟨old, hold, hname old, htyping old⟩
    · exact .inl ⟨found, hfound, rfl, rfl⟩
  · intro other found who hfound hwho
    rcases Maps.getElem?_modify_eq_some.mp hfound with ⟨rfl, old, hold, rfl⟩ | ⟨-, hfound⟩
    · exact (hmembers old who hwho).imp_left fun hwho => ⟨old, hold, hwho⟩
    · exact .inl ⟨found, hfound, hwho⟩

/-- A channel that is entered. -/
theorem channelOrInsert (model : Model) (name : Str) :
    Edit i model (model.channelOrInsert (i.fold name) name) := by
  unfold Model.channelOrInsert Model.channelOr
  cases h : model.channel (i.fold name) with
  | some channel => exact setChannel h rfl rfl fun who hwho => .inl hwho
  | none =>
      refine ⟨rfl, ?_, fun key query h => .inl ⟨query, h, rfl, rfl⟩,
        fun key person h => .inl ⟨person, h, rfl⟩, ?_, fun who hwho => .inl hwho⟩
      · intro other found hfound
        rcases Maps.getElem?_insert_eq_some.mp hfound with ⟨rfl, rfl⟩ | ⟨-, hfound⟩
        · exact .inr ⟨rfl, rfl⟩
        · exact .inl ⟨found, hfound, rfl, rfl⟩
      · intro other found who hfound hwho
        rcases Maps.getElem?_insert_eq_some.mp hfound with ⟨rfl, rfl⟩ | ⟨-, hfound⟩
        · exact absurd hwho Std.ExtTreeMap.not_mem_empty
        · exact .inl ⟨found, hfound, hwho⟩

/-- A conversation that changes where it stands, or begins. -/
theorem setConversation {model : Model} {name : Str} {query : Conversation}
    (hnick : query.nick = (model.conversationOr (i.fold name) name).nick)
    (htyping : query.typing = (model.conversationOr (i.fold name) name).typing) :
    Edit i model (model.setConversation (i.fold name) query) := by
  refine ⟨rfl, fun key channel h => .inl ⟨channel, h, rfl, rfl⟩, ?_,
    fun key person h => .inl ⟨person, h, rfl⟩, fun key channel who h hwho =>
      .inl ⟨channel, h, hwho⟩,
    fun who hwho => .inl hwho⟩
  intro other found hfound
  rcases Maps.getElem?_insert_eq_some.mp hfound with ⟨rfl, rfl⟩ | ⟨-, hfound⟩
  · unfold Model.conversationOr at hnick htyping
    cases h : model.conversation (i.fold name) with
    | some old =>
        rw [h] at hnick htyping
        exact .inl ⟨old, rfl, hnick, htyping⟩
    | none =>
        rw [h] at hnick htyping
        exact .inr ⟨congrArg i.fold hnick, htyping⟩
  · exact .inl ⟨found, hfound, rfl, rfl⟩

theorem conversationMut {model : Model} {key : CaseFolded} {f : Conversation → Conversation}
    (hnick : ∀ query, (f query).nick = query.nick)
    (htyping : ∀ query, (f query).typing = query.typing) :
    Edit i model (model.conversationMut key f) := by
  refine ⟨rfl, fun key channel h => .inl ⟨channel, h, rfl, rfl⟩, ?_,
    fun key person h => .inl ⟨person, h, rfl⟩, fun key channel who h hwho =>
      .inl ⟨channel, h, hwho⟩,
    fun who hwho => .inl hwho⟩
  intro other found hfound
  rcases Maps.getElem?_modify_eq_some.mp hfound with ⟨rfl, old, hold, rfl⟩ | ⟨-, hfound⟩
  · exact .inl ⟨old, hold, hnick old, htyping old⟩
  · exact .inl ⟨found, hfound, rfl, rfl⟩

theorem logMut (model : Model) (key : CaseFolded) (f : MessageLog → MessageLog) :
    Edit i model (model.logMut key f) := by
  unfold Model.logMut
  split
  · exact channelMut (fun _ => rfl) (fun _ => rfl) fun _ who hwho => .inl hwho
  · exact conversationMut (fun _ => rfl) fun _ => rfl

/-- Somebody who changes where they stand, or whom we come to know. -/
theorem personOrInsert (model : Model) (nick : Str) {f : Person → Person}
    (h : ∀ person, (f person).nick = nick ∨ (f person).nick = person.nick) :
    Edit i model (model.personOrInsert (i.fold nick) nick f) := by
  refine ⟨rfl, fun key channel h => .inl ⟨channel, h, rfl, rfl⟩,
    fun key query h => .inl ⟨query, h, rfl, rfl⟩, ?_,
    fun key channel who h hwho => .inl ⟨channel, h, hwho⟩, ?_⟩
  · intro other found hfound
    rcases Maps.getElem?_insert_eq_some.mp hfound with ⟨rfl, rfl⟩ | ⟨-, hfound⟩
    · rcases h (model.personOr (i.fold nick) nick) with hnick | hnick
      · exact .inr (congrArg i.fold hnick)
      · unfold Model.personOr at hnick ⊢
        cases hperson : model.person (i.fold nick) with
        | some old =>
            rw [hperson] at hnick
            exact .inl ⟨old, rfl, hnick⟩
        | none =>
            rw [hperson] at hnick
            exact .inr (congrArg i.fold hnick)
    · exact .inl ⟨found, hfound, rfl⟩
  · intro who hwho
    exact .inl (Std.ExtTreeMap.mem_insert.mpr (.inr hwho))

theorem removeChannel (model : Model) (key : CaseFolded) :
    Edit i model (model.removeChannel key) := by
  refine ⟨rfl, ?_, fun key query h => .inl ⟨query, h, rfl, rfl⟩,
    fun key person h => .inl ⟨person, h, rfl⟩, ?_, fun who hwho => .inl hwho⟩
  · intro other found hfound
    exact .inl ⟨found, (Maps.getElem?_erase_eq_some.mp hfound).2, rfl, rfl⟩
  · intro other found who hfound hwho
    exact .inl ⟨found, (Maps.getElem?_erase_eq_some.mp hfound).2, hwho⟩

/-- Members who leave all channels at once. -/
theorem thin (model : Model) (f : Channel → Std.ExtTreeMap CaseFolded Membership)
    (h : ∀ channel, ∀ who ∈ f channel, who ∈ channel.members) :
    Edit i model
      { model with channels := model.channels.map fun _ channel =>
          { channel with members := f channel } } := by
  refine ⟨rfl, ?_, fun key query h => .inl ⟨query, h, rfl, rfl⟩,
    fun key person h => .inl ⟨person, h, rfl⟩, ?_, fun who hwho => .inl hwho⟩
  · intro other found hfound
    unfold Model.channel at hfound
    rw [Std.ExtTreeMap.getElem?_map] at hfound
    obtain ⟨old, hold, rfl⟩ := Option.map_eq_some_iff.mp hfound
    exact .inl ⟨old, hold, rfl, rfl⟩
  · intro other found who hfound hwho
    unfold Model.channel at hfound
    rw [Std.ExtTreeMap.getElem?_map] at hfound
    obtain ⟨old, hold, rfl⟩ := Option.map_eq_some_iff.mp hfound
    exact .inl ⟨old, hold, h old who hwho⟩

theorem removeEverywhere (model : Model) (who : CaseFolded) :
    Edit i model (model.removeEverywhere who).1 := by
  refine thin model (fun channel => channel.members.erase who) ?_
  intro channel other hother
  exact (Std.ExtTreeMap.mem_erase.mp hother).2

theorem forgetMembers (model : Model) : Edit i model model.forgetMembers := by
  refine thin model (fun _ => ∅) ?_
  intro channel who hwho
  exact absurd hwho Std.ExtTreeMap.not_mem_empty

theorem forgetStrangers_eq_some {model : Model} {key : CaseFolded} {person : Person} :
    model.forgetStrangers.people[key]? = some person ↔
      model.people[key]? = some person ∧
        (model.isAcquainted key = true ∨ person.nick = model.me.nick) := by
  unfold Model.forgetStrangers
  rw [Std.ExtTreeMap.getElem?_filter']
  rw [Option.filter_eq_some_iff, Bool.or_eq_true, beq_iff_eq]

/-- Nobody is forgotten whom a channel still lists. -/
theorem forgetStrangers (model : Model) : Edit i model model.forgetStrangers := by
  refine ⟨rfl, fun key channel h => .inl ⟨channel, h, rfl, rfl⟩,
    fun key query h => .inl ⟨query, h, rfl, rfl⟩, ?_,
    fun key channel who h hwho => .inl ⟨channel, h, hwho⟩, ?_⟩
  · intro key person hperson
    unfold Model.person at hperson
    obtain ⟨hperson, -⟩ := forgetStrangers_eq_some.mp hperson
    exact .inl ⟨person, hperson, rfl⟩
  · intro who hwho
    by_cases hlisted : ∃ key channel, model.channel key = some channel ∧ who ∈ channel.members
    · left
      obtain ⟨key, channel, hchannel, hmember⟩ := hlisted
      obtain ⟨person, hperson⟩ := Option.isSome_iff_exists.mp
        (Std.ExtTreeMap.mem_iff_isSome_getElem?.mp hwho)
      have hkept : model.forgetStrangers.people[who]? = some person := by
        refine forgetStrangers_eq_some.mpr ⟨hperson, .inl ?_⟩
        unfold isAcquainted
        rw [Bool.or_eq_true, List.any_eq_true]
        refine .inr ⟨(key, channel), Std.ExtTreeMap.mem_toList_iff_getElem?_eq_some.mpr hchannel,
          ?_⟩
        exact Std.ExtTreeMap.mem_iff_contains.mp hmember
      rw [Std.ExtTreeMap.mem_iff_isSome_getElem?, hkept]
      rfl
    · right
      intro key channel hchannel hmember
      exact hlisted ⟨key, channel, hchannel, hmember⟩

end Edit

/-! ### Typing -/

/-- What recording that somebody is typing does to the model. -/
theorem mem_toggleTyping_true {typists : Std.ExtTreeSet CaseFolded} {who other : CaseFolded} :
    other ∈ (toggleTyping typists who true).1 ↔ other = who ∨ other ∈ typists := by
  show other ∈ typists.insert who ↔ _
  rw [Std.ExtTreeSet.mem_insert, Std.LawfulEqCmp.compare_eq_iff_eq, eq_comm]

theorem mem_toggleTyping_false {typists : Std.ExtTreeSet CaseFolded} {who other : CaseFolded} :
    other ∈ (toggleTyping typists who false).1 ↔ other ≠ who ∧ other ∈ typists := by
  show other ∈ typists.erase who ↔ _
  rw [Std.ExtTreeSet.mem_erase, ne_eq, Std.LawfulEqCmp.compare_eq_iff_eq, eq_comm]

theorem setTyping_cases (model : Model) (target who : CaseFolded) (typing : Bool) :
    (model.channel target = none ∧ model.conversation target = none ∧
        (model.setTyping target who typing).1 = model) ∨
      (∃ channel, model.channel target = some channel ∧
        (model.setTyping target who typing).1 = model.setChannel target
          { channel with typing := (toggleTyping channel.typing who typing).1 }) ∨
      ∃ query, model.channel target = none ∧ model.conversation target = some query ∧
        (model.setTyping target who typing).1 = model.setConversation target
          { query with typing := (toggleTyping query.typing who typing).1 } := by
  unfold setTyping
  cases hchannel : model.channel target with
  | some channel => exact .inr (.inl ⟨channel, rfl, rfl⟩)
  | none =>
      cases hquery : model.conversation target with
      | some query => exact .inr (.inr ⟨query, rfl, rfl, rfl⟩)
      | none => exact .inl ⟨rfl, rfl, rfl⟩

theorem setTyping_me (model : Model) (target who : CaseFolded) (typing : Bool) :
    (model.setTyping target who typing).1.me = model.me := by
  rcases model.setTyping_cases target who typing with
    ⟨-, -, hafter⟩ | ⟨channel, -, hafter⟩ | ⟨query, -, -, hafter⟩
  · rw [hafter]
  · rw [hafter]
    rfl
  · rw [hafter]
    rfl

end Model

namespace Session

open Model

/-! ### The commands -/

/-- A result that moves no entry, and tells of no channel that was renamed. -/
structure Edits (ctx : Context) (result : Result) : Prop where
  model : Edit ctx.isupport ctx.model result.1.model
  changes : ∀ source dest, Change.channelRenamed source dest ∉ result.2

theorem edits_nil (ctx : Context) : Edits ctx (ctx, []) := ⟨Edit.refl _, by simp⟩

theorem edits_one {ctx : Context} {model : Model} (h : Edit ctx.isupport ctx.model model)
    {change : Change} (hchange : ∀ source dest, change ≠ .channelRenamed source dest) :
    Edits ctx (ctx.withModel model, [change]) := by
  refine ⟨h, ?_⟩
  intro source dest hmem
  exact hchange source dest (List.mem_singleton.mp hmem).symm

theorem reaction_edits {ctx : Context} {line : Message} {result : Result}
    (h : reaction ctx line = some result) : Edits ctx result := by
  obtain ⟨target, msgid, f, rfl⟩ := reaction_eq_some h
  exact edits_one (Edit.logMut ctx.model _ _) (by simp)

theorem linkPreview_edits {ctx : Context} {line : Message} {result : Result}
    (h : linkPreview ctx line = some result) : Edits ctx result := by
  rcases linkPreview_eq_some h with rfl | ⟨name, msgid, message, f, hf, -, rfl⟩
  · exact edits_nil _
  · exact edits_one (Edit.logMut ctx.model _ _) (by simp)

section File

variable [Primitives]

theorem file_edits (ctx : Context) (line : Message) (command target : Str) :
    Edits ctx (file ctx line command target) := by
  have hstart : Edit ctx.isupport ctx.model (ctx.model.nextMessageKey (ctx.stamped line)).1 :=
    Edit.of_maps rfl rfl rfl rfl
  have hadded : ∀ (accepted : Bool) (name : Str) (key : MessageKey) (source dest : Str),
      Change.channelRenamed source dest ∉
        if accepted = true then [Change.messageAdded name key] else [] := by
    intro accepted name key source dest
    cases accepted with
    | true => simp
    | false => simp
  unfold file
  dsimp only
  split
  · split
    · exact ⟨hstart, by simp⟩
    · rename_i channel hchannel
      refine ⟨hstart.trans (Edit.setChannel hchannel rfl rfl fun who hwho => .inl hwho), ?_⟩
      exact hadded _ _ _
  · exact ⟨hstart.trans (Edit.setConversation rfl rfl), hadded _ _ _⟩

theorem message_edits (ctx : Context) (line : Message) (command : Str) :
    Edits ctx (message ctx line command) := by
  unfold message
  split
  · exact edits_nil _
  · split
    · split
      · rename_i h
        exact reaction_edits h
      · split
        · rename_i h
          exact linkPreview_edits h
        · exact file_edits _ _ _ _
    · exact file_edits _ _ _ _

end File

theorem join_edits (ctx : Context) (line : Message) : Edits ctx (join ctx line) := by
  unfold join
  split
  · exact edits_nil _
  · rename_i name _
    dsimp only
    split
    · exact ⟨Edit.channelOrInsert _ _, by simp⟩
    · split
      · exact edits_nil _
      · rename_i channel hchannel
        refine ⟨?_, by simp⟩
        refine (Edit.personOrInsert ctx.model (sender line) fun _ => .inl rfl).trans
          (Edit.setChannel hchannel rfl rfl ?_)
        intro who hwho
        rcases Std.ExtTreeMap.mem_insert.mp hwho with hwho | hwho
        · exact .inr (Std.ExtTreeMap.mem_insert.mpr (.inl hwho))
        · exact .inl hwho

theorem leave_edit (ctx : Context) (folded who : CaseFolded) :
    Edit ctx.isupport ctx.model (leave ctx folded who).model := by
  have hmut : Edit ctx.isupport ctx.model (ctx.model.channelMut folded fun channel =>
      { channel with members := channel.members.erase who }) := by
    refine Edit.channelMut (fun _ => rfl) (fun _ => rfl) ?_
    intro channel other hother
    exact .inl (Std.ExtTreeMap.mem_erase.mp hother).2
  exact hmut.trans (Edit.forgetStrangers _)

theorem part_edits (ctx : Context) (line : Message) : Edits ctx (part ctx line) := by
  unfold part
  split
  · exact edits_nil _
  · dsimp only
    split
    · exact ⟨Edit.removeChannel _ _, by simp⟩
    · exact ⟨leave_edit _ _ _, by simp⟩

theorem quit_edits (ctx : Context) (line : Message) : Edits ctx (quit ctx line) := by
  refine ⟨(Edit.removeEverywhere _ _).trans (Edit.forgetStrangers _), ?_⟩
  intro source dest hmem
  obtain ⟨key, -, hchange⟩ := List.mem_filterMap.mp hmem
  obtain ⟨channel, -, hchange⟩ := Option.map_eq_some_iff.mp hchange
  cases hchange

theorem kick_edits (ctx : Context) (line : Message) : Edits ctx (kick ctx line) := by
  unfold kick
  split
  · dsimp only
    split
    · exact ⟨Edit.removeChannel _ _, by simp⟩
    · exact ⟨leave_edit _ _ _, by simp⟩
  · exact edits_nil _

theorem whois_edits (ctx : Context) (line : Message) (command : Str) :
    Edits ctx (whois ctx line command) := by
  unfold whois
  split
  · exact edits_nil _
  · dsimp only
    split
    · split
      · exact edits_nil _
      · exact ⟨Edit.of_maps rfl rfl rfl rfl, by simp⟩
    · exact ⟨Edit.of_maps rfl rfl rfl rfl, by simp⟩

theorem topic_edits (ctx : Context) (line : Message) : Edits ctx (topic ctx line) := by
  unfold topic
  split
  · exact edits_nil _
  · split
    · exact edits_nil _
    · exact ⟨Edit.channelMut (fun _ => rfl) (fun _ => rfl) fun _ _ hwho => .inl hwho, by simp⟩

theorem topicReply_edits (ctx : Context) (line : Message) : Edits ctx (topicReply ctx line) := by
  unfold topicReply
  split
  · exact edits_nil _
  · split
    · exact edits_nil _
    · exact ⟨Edit.channelMut (fun _ => rfl) (fun _ => rfl) fun _ _ hwho => .inl hwho, by simp⟩

theorem namesLoop_edit (i : Isupport) (folded : CaseFolded) (model : Model) (entries : List Str) :
    Edit i model (namesLoop i folded model entries).1 := by
  induction entries generalizing model with
  | nil => exact Edit.refl _
  | cons entry entries ih =>
      rw [namesLoop]
      dsimp only
      split
      · exact ih model
      · split
        · exact Edit.refl _
        · rename_i channel hchannel
          refine Edit.trans ?_ (ih _)
          refine (Edit.personOrInsert model (before '!' (i.prefixes.split entry).2)
            fun _ => .inl rfl).trans (Edit.setChannel hchannel rfl rfl ?_)
          intro who hwho
          rcases Std.ExtTreeMap.mem_insert.mp hwho with hwho | hwho
          · exact .inr (Std.ExtTreeMap.mem_insert.mpr (.inl hwho))
          · exact .inl hwho

theorem names_edits (ctx : Context) (line : Message) : Edits ctx (names ctx line) := by
  unfold names
  split
  · exact edits_nil _
  · refine ⟨namesLoop_edit _ _ _ _, ?_⟩
    intro source dest
    dsimp only
    split
    · simp
    · simp

theorem redact_edits (ctx : Context) (line : Message) : Edits ctx (redact ctx line) := by
  unfold redact
  split
  · dsimp only
    split
    · exact edits_nil _
    · exact edits_one (Edit.logMut ctx.model _ _) (by simp)
  · exact edits_nil _

theorem markRead_edits (ctx : Context) (line : Message) : Edits ctx (markRead ctx line) := by
  unfold markRead
  split
  · rename_i name timestamp _ _
    dsimp only
    split
    · rename_i channel hchannel
      exact ⟨Edit.setChannel hchannel rfl rfl fun _ hwho => .inl hwho, by simp⟩
    · rename_i query hchannel hquery
      refine ⟨@Edit.setConversation ctx.isupport ctx.model name _ ?_ ?_, by simp⟩
      · unfold Model.conversationOr
        rw [show ctx.model.conversation (ctx.isupport.fold name) = some query from hquery]
        rfl
      · unfold Model.conversationOr
        rw [show ctx.model.conversation (ctx.isupport.fold name) = some query from hquery]
        rfl
    · exact edits_nil _
  · exact edits_nil _

theorem metadata_edits (ctx : Context) (line : Message) (offset : ℕ) :
    Edits ctx (metadata ctx line offset) := by
  unfold metadata
  split
  · rename_i target key _ _
    dsimp only
    generalize (if target = "*" then ctx.model.me.nick else target) = target
    split
    · split
      · exact edits_nil _
      · exact ⟨Edit.channelMut (fun _ => rfl) (fun _ => rfl) fun _ _ hwho => .inl hwho, by simp⟩
    · refine ⟨?_, by simp⟩
      show Edit ctx.isupport ctx.model (if ctx.isMe target = true then _ else _)
      generalize storeMetadata key ((line.param (offset + 3)).filter fun _ => !line.is "766") =
        store
      have hperson : Edit ctx.isupport ctx.model (ctx.model.personOrInsert (ctx.fold target) target
          fun person => { person with metadata := store person.metadata }) :=
        Edit.personOrInsert ctx.model target fun _ => .inr rfl
      refine hperson.trans ?_
      split
      · exact Edit.of_maps rfl rfl rfl rfl
      · exact Edit.refl _
  · exact edits_nil _

theorem personChanged_edits (ctx : Context) (line : Message) {change : Person → Person}
    (h : ∀ person, (change person).nick = person.nick) :
    Edits ctx (personChanged ctx line change) := by
  unfold personChanged
  refine ⟨(Edit.personOrInsert ctx.model (sender line) fun person => .inr (h person)).trans ?_, ?_⟩
  · show Edit ctx.isupport _ (if ctx.isMe (sender line) = true then _ else _)
    split
    · exact Edit.of_maps rfl rfl rfl rfl
    · exact Edit.refl _
  · intro source dest hmem
    obtain ⟨p, -, hchange⟩ := List.mem_map.mp hmem
    cases hchange

theorem applyWho_edits (ctx : Context) (row : WhoRow) : Edits ctx (applyWho ctx row) := by
  have hperson : Edit ctx.isupport ctx.model
      (ctx.model.personOrInsert (ctx.isupport.fold row.nick) row.nick (whoPerson row)) :=
    Edit.personOrInsert ctx.model row.nick fun _ => .inl rfl
  unfold applyWho
  dsimp only
  split
  · exact ⟨hperson, by simp⟩
  · split
    · exact ⟨hperson, by simp⟩
    · refine ⟨hperson.trans (Edit.channelMut (fun _ => rfl) (fun _ => rfl) ?_), by simp⟩
      intro channel who hwho
      rcases Std.ExtTreeMap.mem_insert.mp hwho with hwho | hwho
      · exact .inr (Std.ExtTreeMap.mem_insert.mpr (.inl hwho))
      · exact .inl hwho

theorem whoReply_edits (ctx : Context) (line : Message) : Edits ctx (whoReply ctx line) := by
  unfold whoReply
  split
  · exact applyWho_edits _ _
  · exact edits_nil _

theorem whoxReply_edits (ctx : Context) (line : Message) : Edits ctx (whoxReply ctx line) := by
  unfold whoxReply
  split
  · exact edits_nil _
  · split
    · exact applyWho_edits _ _
    · exact edits_nil _

theorem applyNamed_edits (ctx : Context) (name : Str) (entries : List Str) :
    Edits ctx (applyNamed ctx name entries) := by
  unfold applyNamed
  split
  · exact edits_nil _
  · exact ⟨Edit.channelMut (fun _ => rfl) (fun _ => rfl) fun _ _ hwho => .inl hwho, by simp⟩

theorem prop_edits (ctx : Context) (line : Message) : Edits ctx (prop ctx line) := by
  unfold prop
  split
  · exact edits_nil _
  · exact applyNamed_edits _ _ _

theorem propList_edits (ctx : Context) (line : Message) : Edits ctx (propList ctx line) := by
  unfold propList
  split
  · exact edits_nil _
  · exact applyNamed_edits _ _ _

theorem channelMode_keeps (i : Isupport) (channel : Channel) (change : ModeChange) :
    (channelMode i channel change).1.name = channel.name ∧
      (channelMode i channel change).1.typing = channel.typing ∧
      ∀ who ∈ (channelMode i channel change).1.members, who ∈ channel.members := by
  unfold channelMode
  split
  · split
    · dsimp only
      split
      · exact ⟨rfl, rfl, fun _ hwho => hwho⟩
      · rename_i member hmember
        refine ⟨rfl, rfl, ?_⟩
        intro who hwho
        rcases Std.ExtTreeMap.mem_insert.mp hwho with hwho | hwho
        · rw [← Std.LawfulEqCmp.compare_eq_iff_eq.mp hwho, Std.ExtTreeMap.mem_iff_isSome_getElem?,
            hmember]
          rfl
        · exact hwho
    · exact ⟨rfl, rfl, fun _ hwho => hwho⟩
  · split
    · exact ⟨rfl, rfl, fun _ hwho => hwho⟩
    · exact ⟨rfl, rfl, fun _ hwho => hwho⟩

theorem channelModes_keeps (i : Isupport) (channel : Channel) (changes : List ModeChange) :
    (channelModes i channel changes).1.name = channel.name ∧
      (channelModes i channel changes).1.typing = channel.typing ∧
      ∀ who ∈ (channelModes i channel changes).1.members, who ∈ channel.members := by
  unfold channelModes
  generalize false = touched
  induction changes generalizing channel touched with
  | nil => exact ⟨rfl, rfl, fun _ hwho => hwho⟩
  | cons change changes ih =>
      rw [List.foldl_cons]
      obtain ⟨hname, htyping, hmembers⟩ := channelMode_keeps i channel change
      obtain ⟨hname', htyping', hmembers'⟩ :=
        ih (channelMode i channel change).1 (touched || (channelMode i channel change).2)
      exact ⟨hname'.trans hname, htyping'.trans htyping,
        fun who hwho => hmembers who (hmembers' who hwho)⟩

theorem mode_edits (ctx : Context) (line : Message) : Edits ctx (mode ctx line) := by
  unfold mode
  split
  · exact edits_nil _
  · dsimp only
    split
    · exact ⟨Edit.of_maps rfl rfl rfl rfl, by simp⟩
    · split
      · exact ⟨Edit.refl _, by simp⟩
      · rename_i channel hchannel
        obtain ⟨hname, htyping, hmembers⟩ := channelModes_keeps ctx.isupport channel
          (parseChannelModes ctx.isupport (line.params.drop 1))
        refine ⟨Edit.setChannel hchannel hname htyping fun who hwho => .inl (hmembers who hwho), ?_⟩
        intro source dest
        dsimp only
        split
        · simp
        · simp

/-- **Every command but a rename moves no entry.** -/
theorem apply_edit [Primitives] (ctx : Context) (line : Message)
    (hnick : toAsciiUppercase line.command ≠ "NICK")
    (hrename : toAsciiUppercase line.command ≠ "RENAME") : Edits ctx (apply ctx line) := by
  have happlied := apply_applied ctx line
  generalize toAsciiUppercase line.command = command at happlied hnick hrename
  generalize apply ctx line = result at happlied ⊢
  cases happlied with
  | message => exact message_edits _ _ _
  | join => exact join_edits _ _
  | part => exact part_edits _ _
  | quit => exact quit_edits _ _
  | kick => exact kick_edits _ _
  | nick h => exact absurd h hnick
  | rename h => exact absurd h hrename
  | topic => exact topic_edits _ _
  | mode => exact mode_edits _ _
  | topicReply => exact topicReply_edits _ _
  | markRead => exact markRead_edits _ _
  | redact => exact redact_edits _ _
  | away => exact personChanged_edits _ _ fun _ => rfl
  | account => exact personChanged_edits _ _ fun _ => rfl
  | metadata => exact metadata_edits _ _ _
  | keys => exact metadata_edits _ _ _
  | whois => exact whois_edits _ _ _
  | names => exact names_edits _ _
  | whoReply => exact whoReply_edits _ _
  | whoxReply => exact whoxReply_edits _ _
  | prop => exact prop_edits _ _
  | propList => exact propList_edits _ _
  | other => exact edits_nil _

/-- What a `NICK` does to the model. -/
theorem apply_nick [Primitives] (ctx : Context) (line : Message)
    (h : toAsciiUppercase line.command = "NICK") :
    (apply ctx line).1.model =
      ((line.param 0).map (ctx.model.rename ctx.casemapping (sender line))).getD ctx.model := by
  rw [apply_of_handles ctx h .nick]
  unfold nick
  cases line.param 0 with
  | none => rfl
  | some dest => rfl

/-- Only a `RENAME` tells of a channel that was renamed. -/
theorem apply_changes [Primitives] (ctx : Context) (line : Message)
    (hrename : toAsciiUppercase line.command ≠ "RENAME") (source dest : Str) :
    Change.channelRenamed source dest ∉ (apply ctx line).2 := by
  by_cases hnick : toAsciiUppercase line.command = "NICK"
  · rw [apply_of_handles ctx hnick .nick]
    unfold nick
    cases line.param 0 with
    | none => simp
    | some dest => simp
  · exact (apply_edit ctx line hnick hrename).changes source dest

/-- What a `RENAME` does. -/
theorem apply_rename [Primitives] (ctx : Context) (line : Message)
    (h : toAsciiUppercase line.command = "RENAME") :
    (apply ctx line = (ctx, []) ∧ ∀ source dest, line.param 0 = some source →
        line.param 1 = some dest → ctx.model.channel (ctx.fold source) = none) ∨
      ∃ source dest model, line.param 0 = some source ∧ line.param 1 = some dest ∧
        ctx.model.renameChannel ctx.casemapping source dest = some model ∧
        apply ctx line = (ctx.withModel model, [.channelRenamed source dest]) := by
  rw [apply_of_handles ctx h .rename]
  unfold renameChannel
  cases hsource : line.param 0 with
  | none => exact .inl ⟨rfl, by simp⟩
  | some source =>
      cases hdest : line.param 1 with
      | none => exact .inl ⟨rfl, by simp⟩
      | some dest =>
          dsimp only
          cases hrename : ctx.model.renameChannel ctx.casemapping source dest with
          | none =>
              refine .inl ⟨rfl, ?_⟩
              intro source' dest' hsource' _
              rw [← Option.some.inj hsource']
              unfold Model.renameChannel at hrename
              exact Option.map_eq_none_iff.mp hrename
          | some model => exact .inr ⟨source, dest, model, rfl, rfl, hrename, rfl⟩

end Session

end ObbyClient

import ObbyClient.Engine.Standing

/-!
# What changes without being told

A host that reads no change of a line takes what it sees of the model to be as it was.

* `Session.Unchanged` — what a host sees is as it was;
* `Session.Heeded` — the lines that tell of a person only through the channels they are in, and of
  our own modes not at all, but that say nothing new;
* `Session.apply_silent_iff` — the others are the ones that change something in silence.
-/

namespace ObbyClient.Session

open Model

/-- What a host sees of the model is as it was. -/
structure Unchanged (before after : Model) : Prop where
  me : after.me = before.me
  channels : after.channels = before.channels
  conversations : after.conversations = before.conversations
  people : after.people = before.people

theorem Unchanged.refl (model : Model) : Unchanged model model := ⟨rfl, rfl, rfl, rfl⟩

/-- A result that tells of no change only when there is none. -/
def Tells (ctx : Context) (result : Result) : Prop :=
  result.2 = [] → Unchanged ctx.model result.1.model

theorem tells_nothing (ctx : Context) : Tells ctx (ctx, []) := fun _ => Unchanged.refl _

theorem tells_one (ctx after : Context) (change : Change) : Tells ctx (after, [change]) :=
  fun h => absurd h (List.cons_ne_nil _ _)

section Maps

variable {κ β : Type} [Ord κ] [Std.TransOrd κ] [Std.LawfulEqOrd κ] {map : Std.ExtTreeMap κ β}
  {key : κ}

theorem map_eq_self {f : κ → β → β}
    (h : ∀ key value, map[key]? = some value → f key value = value) :
    map.map f = map := by
  refine Std.ExtTreeMap.ext_getElem? ?_
  intro other
  rw [Std.ExtTreeMap.getElem?_map]
  cases hother : map[other]? with
  | none => rfl
  | some value => exact congrArg some (h other value hother)

/-- A filter that lets everything pass changes nothing, and any other does. -/
theorem filter_eq_self {f : κ → β → Bool} :
    map.filter f = map ↔ ∀ key value, map[key]? = some value → f key value = true := by
  constructor
  · intro h key value hvalue
    have hkept := hvalue
    rw [← h, Std.ExtTreeMap.getElem?_filter', Option.filter_eq_some_iff] at hkept
    exact hkept.2
  · intro h
    refine Std.ExtTreeMap.ext_getElem? ?_
    intro other
    rw [Std.ExtTreeMap.getElem?_filter']
    cases hother : map[other]? with
    | none => rfl
    | some value => rw [Option.filter_some, if_pos (h other value hother)]

end Maps

/-! ### Messages -/

section File

variable [Primitives]

omit [Primitives] in
/-- A new conversation holds nothing, so what a conversation holds it held before. -/
theorem holds_conversationOr {model : Model} {key : CaseFolded} {nick : Str} {message : ChatMessage}
    (h : (model.conversationOr key nick).log.holds message = true) :
    model.conversation key = some (model.conversationOr key nick) := by
  unfold Model.conversationOr at h ⊢
  cases hquery : model.conversation key with
  | some query => rfl
  | none =>
      have hnew : (Conversation.new nick model.retention).log.holds message = false := by
        unfold MessageLog.holds
        split
        · exact Std.ExtTreeMap.contains_empty
        · rfl
      rw [hquery, Option.getD_none, hnew] at h
      cases h

theorem file_tells (ctx : Context) (line : Message) (command target : Str) :
    Tells ctx (file ctx line command target) := by
  unfold Tells file fileInChannel fileInConversation MessageLog.insert
  dsimp only
  split
  · split
    · exact fun _ => ⟨rfl, rfl, rfl, rfl⟩
    · rename_i channel hchannel
      cases channel.log.holds (chatMessage ctx line command) with
      | true =>
          intro _
          exact ⟨rfl, Maps.insert_eq_self.mpr hchannel, rfl, rfl⟩
      | false => exact fun h => absurd h (List.cons_ne_nil _ _)
  · generalize hmodel : ((ctx.stamp line).withModel
      (ctx.model.nextMessageKey (ctx.stamped line)).1).model = model
    cases hholds : (model.conversationOr (ctx.fold (filedUnder ctx line target))
        (filedUnder ctx line target)).log.holds (chatMessage ctx line command) with
    | true =>
        intro _
        subst hmodel
        exact ⟨rfl, rfl, Maps.insert_eq_self.mpr (holds_conversationOr hholds), rfl⟩
    | false => exact fun h => absurd h (List.cons_ne_nil _ _)

theorem message_tells (ctx : Context) (line : Message) (command : Str) :
    Tells ctx (message ctx line command) := by
  unfold message
  split
  · exact tells_nothing _
  · rename_i target htarget
    split
    · cases hreaction : reaction ctx line with
      | some result =>
          obtain ⟨target, msgid, f, rfl⟩ := reaction_eq_some hreaction
          exact tells_one _ _ _
      | none =>
          dsimp only
          cases hpreview : linkPreview ctx line with
          | some result =>
              rcases linkPreview_eq_some hpreview with rfl | ⟨name, msgid, message, f, hf, -, rfl⟩
              · exact tells_nothing _
              · exact tells_one _ _ _
          | none => exact file_tells _ _ _ _
    · exact file_tells _ _ _ _

end File

/-! ### The commands that tell of what they change -/

theorem join_tells (ctx : Context) (line : Message) : Tells ctx (join ctx line) := by
  unfold join
  split
  · exact tells_nothing _
  · dsimp only
    split
    · exact tells_one _ _ _
    · split
      · exact tells_nothing _
      · exact tells_one _ _ _

theorem part_tells (ctx : Context) (line : Message) : Tells ctx (part ctx line) := by
  unfold part
  split
  · exact tells_nothing _
  · dsimp only
    split
    · exact tells_one _ _ _
    · exact tells_one _ _ _

theorem kick_tells (ctx : Context) (line : Message) : Tells ctx (kick ctx line) := by
  unfold kick
  split
  · dsimp only
    split
    · exact tells_one _ _ _
    · exact tells_one _ _ _
  · exact tells_nothing _

theorem renameChannel_tells (ctx : Context) (line : Message) :
    Tells ctx (renameChannel ctx line) := by
  unfold renameChannel
  split
  · split
    · exact tells_nothing _
    · exact tells_one _ _ _
  · exact tells_nothing _

theorem topic_tells (ctx : Context) (line : Message) : Tells ctx (topic ctx line) := by
  unfold topic
  split
  · exact tells_nothing _
  · split
    · exact tells_nothing _
    · exact tells_one _ _ _

theorem topicReply_tells (ctx : Context) (line : Message) : Tells ctx (topicReply ctx line) := by
  unfold topicReply
  split
  · exact tells_nothing _
  · split
    · exact tells_nothing _
    · exact tells_one _ _ _

/-- A list of names is cut short only before it told of anybody. -/
theorem namesLoop_whole (i : Isupport) (folded : CaseFolded) (model : Model) (entries : List Str)
    (h : (namesLoop i folded model entries).2 = false) :
    (namesLoop i folded model entries).1 = model := by
  have hknown : ∀ (entries : List Str) (model : Model), (model.channel folded).isSome = true →
      (namesLoop i folded model entries).2 = true := by
    intro entries
    induction entries with
    | nil => exact fun _ _ => rfl
    | cons entry entries ih =>
        intro model hchannel
        rw [namesLoop]
        dsimp only
        split
        · exact ih model hchannel
        · split
          · rename_i hnone
            rw [hnone] at hchannel
            cases hchannel
          · exact ih _ ((Stands.setChannel _ _ _).channels folded hchannel)
  induction entries generalizing model with
  | nil => rfl
  | cons entry entries ih =>
      rw [namesLoop] at h ⊢
      dsimp only at h ⊢
      split
      · rename_i hnick
        rw [if_pos hnick] at h
        exact ih model h
      · rename_i hnick
        rw [if_neg hnick] at h
        split
        · rfl
        · rename_i channel hchannel
          rw [hchannel] at h
          dsimp only at h
          rw [hknown entries _ ((Stands.setChannel _ _ _).channels folded (by
            rw [show Model.channel (Model.personOrInsert _ _ _ _) folded = _ from hchannel]
            rfl))] at h
          cases h

theorem names_tells (ctx : Context) (line : Message) : Tells ctx (names ctx line) := by
  unfold names
  split
  · exact tells_nothing _
  · rename_i name hname
    dsimp only
    cases hwhole : (namesLoop ctx.isupport (ctx.fold name) ctx.model
        (splitWhitespace (line.trailing.getD []))).2 with
    | true => exact tells_one _ _ _
    | false =>
        intro _
        show Unchanged ctx.model (namesLoop _ _ _ _).1
        rw [namesLoop_whole _ _ _ _ hwhole]
        exact Unchanged.refl _

theorem redact_tells (ctx : Context) (line : Message) : Tells ctx (redact ctx line) := by
  unfold redact
  split
  · dsimp only
    split
    · exact tells_nothing _
    · exact tells_one _ _ _
  · exact tells_nothing _

theorem markRead_tells (ctx : Context) (line : Message) : Tells ctx (markRead ctx line) := by
  unfold markRead
  split
  · dsimp only
    split
    · exact tells_one _ _ _
    · exact tells_one _ _ _
    · exact tells_nothing _
  · exact tells_nothing _

theorem metadata_tells (ctx : Context) (line : Message) (offset : ℕ) :
    Tells ctx (metadata ctx line offset) := by
  unfold metadata
  split
  · rename_i target key _ _
    dsimp only
    generalize (if target = "*" then ctx.model.me.nick else target) = target
    split
    · split
      · exact tells_nothing _
      · exact tells_one _ _ _
    · exact tells_one _ _ _
  · exact tells_nothing _

theorem whois_tells (ctx : Context) (line : Message) (command : Str) :
    Tells ctx (whois ctx line command) := by
  unfold whois
  split
  · exact tells_nothing _
  · dsimp only
    split
    · split
      · exact tells_nothing _
      · exact tells_one _ _ _
    · exact fun _ => ⟨rfl, rfl, rfl, rfl⟩

theorem applyNamed_tells (ctx : Context) (name : Str) (entries : List Str) :
    Tells ctx (applyNamed ctx name entries) := by
  unfold applyNamed
  split
  · exact tells_nothing _
  · exact tells_one _ _ _

/-! ### The commands that do not -/

/-- True when no channel lists this person. -/
def Nowhere (model : Model) (who : CaseFolded) : Prop :=
  ∀ key channel, model.channel key = some channel → who ∉ channel.members

/-- A change to somebody, told of through the channels they are in, that says nothing new when they
are in none. -/
def HeedsPerson (ctx : Context) (line : Message) (change : Person → Person) : Prop :=
  Nowhere ctx.model (ctx.fold (sender line)) →
    ∃ person, ctx.model.person (ctx.fold (sender line)) = some person ∧ change person = person ∧
      (ctx.isMe (sender line) = true →
        ctx.model.me.away = person.away ∧ ctx.model.me.account = person.account)

/-- A row about somebody, told of through the channel it names, that says nothing new when we are
not in it. -/
def HeedsRow (ctx : Context) (row : WhoRow) : Prop :=
  (ctx.isupport.isChannel row.channel = true → ctx.model.channel (ctx.fold row.channel) = none) →
    ∃ person, ctx.model.person (ctx.fold row.nick) = some person ∧ whoPerson row person = person

/-- Modes of ours that are as they were. -/
def HeedsModes (ctx : Context) (line : Message) : Prop :=
  ∀ name, line.param 0 = some name → ctx.isupport.isChannel name = false →
    (parseUserModes ((line.param 1).getD [])).foldl userMode ctx.model.me.modes = ctx.model.me.modes

/-- A departure from no channel, after which nobody is forgotten. -/
def HeedsQuit (ctx : Context) (line : Message) : Prop :=
  Nowhere ctx.model (ctx.fold (sender line)) → ∀ key person, ctx.model.person key = some person →
    ctx.model.isAcquainted key = true ∨ person.nick = ctx.model.me.nick

/-- The row of a `352`. -/
def whoRow (line : Message) : Option WhoRow :=
  match line.param 1, line.param 2, line.param 3, line.param 5, line.param 6 with
  | some channel, some user, some host, some nick, some flags =>
      some ⟨channel, nick, user, host, flags, .unknown,
        (line.trailing.bind (splitOnce ' ')).map Prod.snd⟩
  | _, _, _, _, _ => none

/-- The row of a `354` that answers a question of ours. -/
def whoxRow (line : Message) : Option WhoRow :=
  if line.param 1 ≠ some whoxToken then none
  else
    match line.param 2, line.param 3, line.param 4, line.param 5, line.param 6, line.param 7 with
    | some channel, some user, some host, some nick, some flags, some account =>
        some ⟨channel, nick, user, host, flags,
          if account = "0" ∨ account = "*" then .loggedOut else .as account, line.param 8⟩
    | _, _, _, _, _, _ => none

theorem whoReply_eq (ctx : Context) (line : Message) :
    whoReply ctx line = ((whoRow line).map (applyWho ctx)).getD (ctx, []) := by
  unfold whoReply whoRow
  cases line.param 1 <;> cases line.param 2 <;> cases line.param 3 <;> cases line.param 5 <;>
    cases line.param 6 <;> rfl

theorem whoxReply_eq (ctx : Context) (line : Message) :
    whoxReply ctx line = ((whoxRow line).map (applyWho ctx)).getD (ctx, []) := by
  unfold whoxReply whoxRow
  split
  · rfl
  · cases line.param 2 <;> cases line.param 3 <;> cases line.param 4 <;> cases line.param 5 <;>
      cases line.param 6 <;> cases line.param 7 <;> rfl

/-- The channels somebody is in are told of one by one. -/
theorem toldChannels_eq_nil {model : Model} {who : CaseFolded} :
    model.channels.toList.filter (fun p => p.2.members.contains who) = [] ↔ Nowhere model who := by
  rw [List.filter_eq_nil_iff]
  constructor
  · intro h key channel hchannel hmember
    exact h (key, channel) (Std.ExtTreeMap.mem_toList_iff_getElem?_eq_some.mpr hchannel)
      (Std.ExtTreeMap.mem_iff_contains.mp hmember)
  · intro h p hp hmember
    exact h p.1 p.2 (Std.ExtTreeMap.mem_toList_iff_getElem?_eq_some.mp hp)
      (Std.ExtTreeMap.mem_iff_contains.mpr hmember)

theorem personOrInsert_people_eq {model : Model} {key : CaseFolded} {nick : Str}
    {f : Person → Person} :
    (model.personOrInsert key nick f).people = model.people ↔
      ∃ person, model.person key = some person ∧ f person = person := by
  show model.people.insert key (f (model.personOr key nick)) = model.people ↔ _
  rw [Maps.insert_eq_self]
  unfold Model.personOr Model.person
  cases model.people[key]? with
  | none => simp
  | some person => simp [eq_comm]

theorem personChanged_tells_iff (ctx : Context) (line : Message) (change : Person → Person) :
    Tells ctx (personChanged ctx line change) ↔ HeedsPerson ctx line change := by
  have htold : (personChanged ctx line change).2 = [] ↔
      Nowhere ctx.model (ctx.fold (sender line)) := by
    unfold personChanged
    dsimp only
    rw [List.map_eq_nil_iff, ← toldChannels_eq_nil]
    split
    · rfl
    · rfl
  have hsame : Unchanged ctx.model (personChanged ctx line change).1.model ↔
      ∃ person, ctx.model.person (ctx.fold (sender line)) = some person ∧ change person = person ∧
        (ctx.isMe (sender line) = true →
          ctx.model.me.away = person.away ∧ ctx.model.me.account = person.account) := by
    have hmodel : (personChanged ctx line change).1.model =
        { ctx.model.personOrInsert (ctx.fold (sender line)) (sender line) change with
          me :=
            if ctx.isMe (sender line) = true then
              { ctx.model.me with
                away := (change (ctx.model.personOr (ctx.fold (sender line)) (sender line))).away
                account := (change (ctx.model.personOr (ctx.fold (sender line))
                  (sender line))).account }
            else ctx.model.me } := by
      have hperson : (ctx.model.personOrInsert (ctx.fold (sender line)) (sender line)
        change).personOr
          (ctx.fold (sender line)) [] =
            change (ctx.model.personOr (ctx.fold (sender line)) (sender line)) := by
        unfold Model.personOr
        rw [show Model.person (Model.personOrInsert _ _ _ _) _ = _ from
          Std.ExtTreeMap.getElem?_insert_self]
        rfl
      unfold personChanged
      dsimp only
      rw [hperson]
      split
      · rfl
      · rfl
    rw [hmodel]
    constructor
    · intro h
      obtain ⟨person, hperson, hchange⟩ := personOrInsert_people_eq.mp h.people
      refine ⟨person, hperson, hchange, ?_⟩
      intro hme
      have hmine := h.me
      have hknown : ctx.model.personOr (ctx.fold (sender line)) (sender line) = person := by
        unfold Model.personOr
        rw [hperson]
        rfl
      dsimp only at hmine
      rw [if_pos hme, hknown, hchange] at hmine
      exact ⟨(congrArg LocalUser.away hmine).symm, (congrArg LocalUser.account hmine).symm⟩
    · intro h
      obtain ⟨person, hperson, hchange, hmine⟩ := h
      have hknown : ctx.model.personOr (ctx.fold (sender line)) (sender line) = person := by
        unfold Model.personOr
        rw [hperson]
        rfl
      refine ⟨?_, rfl, rfl, personOrInsert_people_eq.mpr ⟨person, hperson, hchange⟩⟩
      dsimp only
      rw [hknown, hchange]
      split
      · rename_i hme
        rw [← (hmine hme).1, ← (hmine hme).2]
      · rfl
  unfold Tells HeedsPerson
  rw [htold, hsame]

/-- What a row says is told of just when it names a channel we are in. -/
theorem applyWho_cases (ctx : Context) (row : WhoRow) :
    (applyWho ctx row = (ctx.withModel
          (ctx.model.personOrInsert (ctx.fold row.nick) row.nick (whoPerson row)), []) ∧
        (ctx.isupport.isChannel row.channel = true → ctx.model.channel (ctx.fold row.channel) =
          none)) ∨
      ((applyWho ctx row).2 ≠ [] ∧ ctx.isupport.isChannel row.channel = true ∧
        ctx.model.channel (ctx.fold row.channel) ≠ none) := by
  unfold applyWho
  dsimp only
  split
  · rename_i hnot
    have hnot : (!ctx.isupport.isChannel row.channel) = true := hnot
    rw [Bool.not_eq_true'] at hnot
    exact .inl ⟨rfl, fun h => absurd (hnot.symm.trans h) Bool.false_ne_true⟩
  · rename_i hchannel
    have hchannel : ¬(!ctx.isupport.isChannel row.channel) = true := hchannel
    rw [Bool.not_eq_true', Bool.not_eq_false] at hchannel
    split
    · rename_i hout
      exact .inl ⟨rfl, fun _ => hout⟩
    · rename_i channel hin
      have hin : ctx.model.channel (ctx.fold row.channel) = some channel := hin
      refine .inr ⟨List.cons_ne_nil _ _, hchannel, ?_⟩
      rw [hin]
      exact Option.some_ne_none _

theorem applyWho_tells_iff (ctx : Context) (row : WhoRow) :
    Tells ctx (applyWho ctx row) ↔ HeedsRow ctx row := by
  unfold Tells HeedsRow
  rcases applyWho_cases ctx row with ⟨hrow, hout⟩ | ⟨htold, hchannel, hin⟩
  · rw [hrow]
    have hpeople : (ctx.model.personOrInsert (ctx.fold row.nick) row.nick (whoPerson row)).people =
        ctx.model.people ↔ _ := personOrInsert_people_eq
    rw [← hpeople]
    exact ⟨fun h _ => (h rfl).people, fun h _ => ⟨rfl, rfl, rfl, h hout⟩⟩
  · exact iff_of_true (fun h => absurd h htold) fun hout => absurd (hout hchannel) hin

theorem mode_tells_iff (ctx : Context) (line : Message) :
    Tells ctx (mode ctx line) ↔ HeedsModes ctx line := by
  unfold mode HeedsModes
  cases hname : line.param 0 with
  | none => exact iff_of_true (tells_nothing _) (by simp)
  | some name =>
      dsimp only
      cases hchannel : ctx.isupport.isChannel name with
      | false =>
          rw [Bool.not_false, if_pos rfl]
          constructor
          · intro h other hother _
            exact congrArg LocalUser.modes (h rfl).me
          · intro h _
            have hmodes := h name rfl hchannel
            refine ⟨?_, rfl, rfl, rfl⟩
            exact congrArg (fun modes => { ctx.model.me with modes := modes }) hmodes
      | true =>
          rw [Bool.not_true, if_neg Bool.false_ne_true]
          refine iff_of_true ?_ ?_
          · split
            · exact tells_one _ _ _
            · intro h
              dsimp only at h
              split at h
              · exact absurd h (List.cons_ne_nil _ _)
              · exact absurd h (List.cons_ne_nil _ _)
          · intro other hother hnot
            rw [← Option.some.inj hother, hchannel] at hnot
            cases hnot

/-- Who is in no channel leaves none. -/
theorem removeEverywhere_of_nowhere {model : Model} {who : CaseFolded} (h : Nowhere model who) :
    model.removeEverywhere who = (model, []) := by
  unfold Model.removeEverywhere
  rw [toldChannels_eq_nil.mpr h]
  have hchannels : (model.channels.map fun _ channel =>
      { channel with members := channel.members.erase who }) = model.channels := by
    refine map_eq_self ?_
    intro key channel hchannel
    rw [Maps.erase_eq_self (h key channel hchannel)]
  rw [hchannels]
  rfl

theorem quit_tells_iff (ctx : Context) (line : Message) :
    Tells ctx (quit ctx line) ↔ HeedsQuit ctx line := by
  unfold Tells HeedsQuit
  by_cases hnowhere : Nowhere ctx.model (ctx.fold (sender line))
  · have hquit : quit ctx line = (ctx.withModel ctx.model.forgetStrangers, []) := by
      unfold quit
      rw [removeEverywhere_of_nowhere hnowhere]
      rfl
    rw [hquit]
    have hpeople : ctx.model.forgetStrangers.people = ctx.model.people ↔
        ∀ key person, ctx.model.person key = some person →
          ctx.model.isAcquainted key = true ∨ person.nick = ctx.model.me.nick := by
      unfold Model.forgetStrangers
      rw [filter_eq_self]
      simp only [Bool.or_eq_true, beq_iff_eq]
      rfl
    rw [← hpeople]
    exact ⟨fun h _ => (h rfl).people, fun h _ => ⟨rfl, rfl, rfl, h hnowhere⟩⟩
  · refine iff_of_true ?_ fun h => absurd h hnowhere
    intro hnil
    -- a channel that was left is still there to be told of
    have hsome := hnowhere
    rw [← toldChannels_eq_nil] at hsome
    obtain ⟨p, hp⟩ := List.exists_mem_of_ne_nil _ hsome
    obtain ⟨hchannel, -⟩ := List.mem_filter.mp hp
    have hleft : p.1 ∈ (ctx.model.removeEverywhere (ctx.fold (sender line))).2 :=
      List.mem_map_of_mem hp
    have hthere := @isSome_map ctx.model.channels
      (fun channel => { channel with members := channel.members.erase (ctx.fold (sender line)) })
        p.1 (by
        rw [Std.ExtTreeMap.mem_toList_iff_getElem?_eq_some.mp hchannel]
        rfl)
    obtain ⟨channel, hafter⟩ := Option.isSome_iff_exists.mp hthere
    have hmem : Change.channelMembersChanged channel.name ∈ (quit ctx line).2 := by
      refine List.mem_filterMap.mpr ⟨p.1, hleft, ?_⟩
      exact congrArg (Option.map fun channel => Change.channelMembersChanged channel.name) hafter
    rw [hnil] at hmem
    cases hmem

/-! ### Every command -/

/-- The lines that say nothing new where nothing is told of what they say. -/
def Heeded (ctx : Context) (line : Message) : Prop :=
  let command := toAsciiUppercase line.command
  if command = "QUIT" then HeedsQuit ctx line
  else if command = "MODE" then HeedsModes ctx line
  else if command = "AWAY" then HeedsPerson ctx line fun person =>
    { person with away := line.param 0 }
  else if command = "ACCOUNT" then
    HeedsPerson ctx line fun person => { person with account := accountName (line.param 0) }
  else if command = "352" then ∀ row ∈ whoRow line, HeedsRow ctx row
  else if command = "354" then ∀ row ∈ whoxRow line, HeedsRow ctx row
  else True

theorem rows_tell_iff (ctx : Context) (row : Option WhoRow) :
    Tells ctx ((row.map (applyWho ctx)).getD (ctx, [])) ↔ ∀ r ∈ row, HeedsRow ctx r := by
  cases row with
  | none => exact iff_of_true (tells_nothing _) (by simp)
  | some row => exact (applyWho_tells_iff ctx row).trans (by simp)

/-- The commands some lines of which say nothing of what they change. -/
def Reticent (command : Str) : Prop :=
  command = "MODE" ∨ command = "AWAY" ∨ command = "ACCOUNT" ∨ command = "352" ∨ command = "354" ∨
    command = "QUIT"

theorem apply_tells [Primitives] (ctx : Context) (line : Message)
    (h : ¬Reticent (toAsciiUppercase line.command)) : Tells ctx (apply ctx line) := by
  have happlied := apply_applied ctx line
  unfold Reticent at h
  generalize toAsciiUppercase line.command = command at happlied h
  generalize apply ctx line = result at happlied ⊢
  simp only [not_or] at h
  obtain ⟨hmode, haway, haccount, hwho, hwhox, hquit⟩ := h
  cases happlied with
  | message => exact message_tells _ _ _
  | join => exact join_tells _ _
  | part => exact part_tells _ _
  | quit h => exact absurd h hquit
  | kick => exact kick_tells _ _
  | nick =>
      unfold nick
      split
      · exact tells_nothing _
      · exact tells_one _ _ _
  | rename => exact renameChannel_tells _ _
  | topic => exact topic_tells _ _
  | mode h => exact absurd h hmode
  | topicReply => exact topicReply_tells _ _
  | markRead => exact markRead_tells _ _
  | redact => exact redact_tells _ _
  | away h => exact absurd h haway
  | account h => exact absurd h haccount
  | metadata => exact metadata_tells _ _ _
  | keys => exact metadata_tells _ _ _
  | whois => exact whois_tells _ _ _
  | names => exact names_tells _ _
  | whoReply h => exact absurd h hwho
  | whoxReply h => exact absurd h hwhox
  | prop =>
      unfold prop
      split
      · exact tells_nothing _
      · exact applyNamed_tells _ _ _
  | propList =>
      unfold propList
      split
      · exact tells_nothing _
      · exact applyNamed_tells _ _ _
  | other => exact tells_nothing _

/-- **What changes without being told.**  A line after which no change is reported leaves what a
host sees of the model as it was, exactly when it says nothing new where nothing would be told of
it. -/
theorem apply_silent_iff [Primitives] (ctx : Context) (line : Message) :
    ((apply ctx line).2 = [] → Unchanged ctx.model (apply ctx line).1.model) ↔ Heeded ctx line := by
  show Tells ctx (apply ctx line) ↔ _
  by_cases hreticent : Reticent (toAsciiUppercase line.command)
  · rcases hreticent with h | h | h | h | h | h
    · rw [apply_of_handles ctx h .mode]
      simp +decide only [Heeded, h, ↓reduceIte]
      exact mode_tells_iff ctx line
    · rw [apply_of_handles ctx h .away]
      simp +decide only [Heeded, h, ↓reduceIte]
      exact personChanged_tells_iff ctx line _
    · rw [apply_of_handles ctx h .account]
      simp +decide only [Heeded, h, ↓reduceIte]
      exact personChanged_tells_iff ctx line _
    · rw [apply_of_handles ctx h .whoReply, whoReply_eq]
      simp +decide only [Heeded, h, ↓reduceIte]
      exact rows_tell_iff ctx _
    · rw [apply_of_handles ctx h .whoxReply, whoxReply_eq]
      simp +decide only [Heeded, h, ↓reduceIte]
      exact rows_tell_iff ctx _
    · rw [apply_of_handles ctx h .quit]
      simp +decide only [Heeded, h, ↓reduceIte]
      exact quit_tells_iff ctx line
  · refine iff_of_true (apply_tells ctx line hreticent) ?_
    simp only [Reticent, not_or] at hreticent
    obtain ⟨hmode, haway, haccount, hwho, hwhox, hquit⟩ := hreticent
    unfold Heeded
    dsimp only
    rw [if_neg hquit, if_neg hmode, if_neg haway, if_neg haccount, if_neg hwho, if_neg hwhox]
    trivial

/-- **Our own modes change without being told.** -/
theorem modes_untold : letI := Primitives.ascii
    let ctx : Context := ⟨.withRetention 100, .default, 0, false⟩
    let line := Message.new "MODE" ["me", "+i"]
    (apply ctx line).2 = [] ∧ (apply ctx line).1.model.me ≠ ctx.model.me := by
  decide +kernel

end ObbyClient.Session

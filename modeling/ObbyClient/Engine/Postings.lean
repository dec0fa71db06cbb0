import ObbyClient.Engine.Shown
import ObbyClient.Lib.Rooms

/-!
# What lines bring to a channel

The log of a channel is filled by what is said there, and changed by what is attached to that later.
 Each line brings something of the kind to a channel, or takes us in or out of one, or brings
 nothing.

* `Posting`, `MessageLog.act` — what may be brought to a channel;
* `MessageLog.foldl_act_shown` — a log shows the newest of the posts that were brought;
* `Session.postings` — what a line brings;
* `Session.apply_postings` — folding a line is hearing what it brings.
-/

namespace ObbyClient

open Rooms Newest

/-! ### What may be brought -/

/-- Something that is brought to a channel. -/
inductive Posting where
  | posted (message : ChatMessage)
  | reacted (msgid emoji who : Str) (adding : Bool)
  | previewed (msgid : Str) (preview : LinkPreview)
  | struck (msgid : Str)

/-- The post that is brought, if one is. -/
def Posting.post : Posting → Option Post
  | posted message => some message.post
  | _ => none

/-- The message that it is about, if it is about another one. -/
def Posting.about : Posting → Option Str
  | posted _ => none
  | reacted msgid _ _ _ => some msgid
  | previewed msgid _ => some msgid
  | struck msgid => some msgid

namespace MessageLog

/-- What is put on a message leaves it where it is. -/
theorem previewed_key (preview : LinkPreview) (message : ChatMessage) :
    { message with linkPreview := some preview }.key = message.key := rfl

theorem struck_key (message : ChatMessage) : { message with redacted := true }.key = message.key :=
    rfl

/-- What it does to the log there. -/
def act (log : MessageLog) : Posting → MessageLog
  | .posted message => (log.insert message).1
  | .reacted msgid emoji who adding =>
    log.modify msgid (Session.react adding emoji who) (Session.react_key adding emoji who)
  | .previewed msgid preview =>
    log.modify msgid (fun message => { message with linkPreview := some preview })
      (previewed_key preview)
  | .struck msgid => log.modify msgid (fun message => { message with redacted := true }) struck_key

/-- **One posting**: the log shows the newest of what it did and the post, if it is one. -/
theorem act_shown {log : MessageLog} (h : log.Orderly) (posting : Posting)
    (hdistinct : Post.Distinct (posting.post.toList ++ log.shown)) :
    (log.act posting).Orderly ∧ (log.act posting).retention = log.retention ∧
      (log.act posting).shown.toFinset =
        newest Post.timeMs log.retention (log.shown.toFinset ∪ posting.post.toList.toFinset) := by
  cases posting with
  | posted message =>
    refine ⟨h.insert hdistinct, insert_retention log message, ?_⟩
    rw [act, insert_shown h hdistinct]
    congr 1
    simp [Posting.post, Finset.union_comm]
  | reacted msgid emoji who adding =>
    simp only [act, Posting.post, Option.toList_none, List.toFinset_nil]
    exact modify_orderly msgid _ _ (fun message => .react adding emoji who message) h
  | previewed msgid preview =>
    simp only [act, Posting.post, Option.toList_none, List.toFinset_nil]
    refine modify_orderly msgid _ _ (fun message => ?_) h
    exact ⟨rfl, id⟩
  | struck msgid =>
    simp only [act, Posting.post, Option.toList_none, List.toFinset_nil]
    refine modify_orderly msgid _ _ (fun message => ?_) h
    exact ⟨rfl, fun _ => rfl⟩

/-- **A log shows the newest of the posts that were brought**, whatever was attached to them in
between. -/
theorem foldl_act_shown (retention : ℕ) (postings : List Posting)
    (hdistinct : Post.Distinct (postings.filterMap Posting.post)) :
    (postings.foldl act (.withRetention retention)).Orderly ∧
      (postings.foldl act (.withRetention retention)).retention = max retention 1 ∧
      (postings.foldl act (.withRetention retention)).shown.toFinset =
        newest Post.timeMs (max retention 1) (postings.filterMap Posting.post).toFinset := by
  induction postings using List.reverseRecOn with
  | nil =>
    refine ⟨orderly_withRetention retention, rfl, ?_⟩
    simp [shown, iter, withRetention]
  | append_singleton postings posting ih =>
    have hposts : (postings ++ [posting]).filterMap Posting.post =
        postings.filterMap Posting.post ++ posting.post.toList := by
      rw [List.filterMap_append]
      cases hpost : posting.post <;> simp [hpost]
    rw [hposts] at hdistinct ⊢
    obtain ⟨horderly, hretention, hshown⟩ := ih (hdistinct.mono (by simp +contextual))
    rw [List.foldl_append, List.foldl_cons, List.foldl_nil]
    have hold : ∀ post ∈ (postings.foldl act (.withRetention retention)).shown,
        post ∈ postings.filterMap Posting.post := by
      intro post hpost
      have hmem := List.mem_toFinset.mpr hpost
      rw [hshown, mem_newest] at hmem
      exact List.mem_toFinset.mp hmem.1
    have hstep := act_shown horderly posting (hdistinct.mono fun post hpost => ?_)
    · rw [hretention, hshown, newest_union, ← List.toFinset_append] at hstep
      exact hstep
    · obtain hnew | hold' := List.mem_append.mp hpost
      · exact List.mem_append_right _ hnew
      · exact List.mem_append_left _ (hold post hold')

/-- A message that is not held cannot be changed. -/
theorem modify_of_get_eq_none (log : MessageLog) {msgid : Str} (h : log.get msgid = none)
    (f : ChatMessage → ChatMessage) (hf : ∀ message, (f message).key = message.key) :
    log.modify msgid f hf = log := by
  unfold modify
  split
  · rfl
  · rename_i key hkey
    have habsent : log.messages[key]? = none := by simpa [get, hkey] using h
    have hsame : log.messages.modify key f = log.messages := by
      ext other : 1
      simp only [Maps.getElem?_modify_ite]
      split
      · rename_i heq
        rw [heq, habsent]
        rfl
      · rfl
    simp only [hsame]

/-- What is about a message that is not held does nothing. -/
theorem act_of_get_eq_none {log : MessageLog} {posting : Posting} {msgid : Str}
    (habout : posting.about = some msgid)
    (h : log.get msgid = none) : log.act posting = log := by
  cases posting with
  | posted message => cases habout
  | _ =>
    obtain rfl := Option.some.inj habout
    simp only [act, modify_of_get_eq_none _ h]

end MessageLog

/-! ### The logs of the channels -/

namespace Model

/-- The log of each channel. -/
def logs (model : Model) (key : CaseFolded) : Option MessageLog :=
    (model.channel key).map Channel.log

theorem logs_of_channels {model after : Model} (h : after.channels = model.channels) :
    after.logs = model.logs := by
  funext key
  simp only [logs, channel, h]

theorem logs_setChannel (model : Model) (key : CaseFolded) (channel : Channel) :
    (model.setChannel key channel).logs = Function.update model.logs key (some channel.log) := by
  funext other
  simp only [logs, setChannel, Model.channel, Maps.getElem?_insert_ite, Function.update_apply]
  split <;> rfl

/-- To put back what was there changes nothing. -/
theorem logs_setChannel_same {model : Model} {key : CaseFolded} {old channel : Channel}
    (hold : model.channel key = some old) (hlog : channel.log = old.log) :
    (model.setChannel key channel).logs = model.logs := by
  rw [logs_setChannel, hlog]
  apply Function.update_eq_self_iff.mpr
  simp [logs, hold]

theorem logs_removeChannel (model : Model) (key : CaseFolded) :
    (model.removeChannel key).logs = Function.update model.logs key none := by
  funext other
  simp only [logs, removeChannel, channel, Maps.getElem?_erase_ite, Function.update_apply]
  split <;> rfl

theorem logs_channelMut (model : Model) (key : CaseFolded) {f : Channel → Channel}
    (h : ∀ channel, (f channel).log = channel.log) :
    (model.channelMut key f).logs = model.logs := by
  funext other
  simp only [logs, channelMut, channel, Maps.getElem?_modify_ite]
  split
  · rename_i heq
    simp [Function.comp_def, h, heq]
  · rfl

theorem logs_channels_map (model : Model) {f : Channel → Channel}
    (h : ∀ channel, (f channel).log = channel.log) :
    Model.logs { model with channels := model.channels.map fun _ channel => f channel } =
      model.logs := by
  funext key
  simp [logs, channel, Std.ExtTreeMap.getElem?_map, Function.comp_def, h]

/-- A change to the log of a target is one to that of a channel, where it is one. -/
theorem logs_logMut (model : Model) (key : CaseFolded) (f : MessageLog → MessageLog) :
    (model.logMut key f).logs = Function.update model.logs key ((model.logs key).map f) := by
  funext other
  unfold logMut
  cases hchannel : model.channel key with
  | none =>
    have hnone : model.logs key = none := by simp [logs, hchannel]
    simp only [hnone, Option.map_none, Function.update_apply]
    split
    · rename_i heq
      exact heq ▸ hnone
    · rfl
  | some channel =>
    simp only [logs, channelMut, Model.channel, Maps.getElem?_modify_ite, Function.update_apply]
    split
    · rename_i heq
      simp [Function.comp_def]
    · rfl

end Model

namespace Session

/-! ### What lines bring -/

/-- Somebody's reaction, as a TAGMSG carries it. -/
def reactionPosting (ctx : Context) (line : Message) : Option Posting := do
  let (emoji, adding) ← reactionTag line
  let msgid ← line.replyTag
  some (.reacted msgid emoji (ctx.fold (sender line)).asStr adding)

/-- What is filed in a channel. -/
def filedPostings (ctx : Context) (line : Message) (command target : Str) :
    List (Report CaseFolded Posting) :=
  if filesInChannel ctx target then
    [.said (ctx.fold (addressee ctx target)) (.posted (chatMessage ctx line command))]
  else []

/-- What a `PRIVMSG`, a `NOTICE` or a `TAGMSG` brings.  A reaction to something we do not hold is a
message of its own. -/
def messagePostings (ctx : Context) (line : Message) (command : Str) :
    List (Report CaseFolded Posting) :=
  match line.param 0 with
  | none => []
  | some target =>
    if command = "TAGMSG" then
      match reaction ctx line with
      | some _ => (reactionPosting ctx line).toList.map (.said (ctx.fold target))
      | none =>
        match LinkPreview.parse line with
        | some (msgid, preview) => [.said (ctx.fold target) (.previewed msgid preview)]
        | none => filedPostings ctx line command target
    else filedPostings ctx line command target

/-- We enter a channel. -/
def entrance (ctx : Context) (line : Message) : List (Report CaseFolded Posting) :=
  match line.param 0 with
  | some name => if ctx.isMe (sender line) then [.entered (ctx.fold name)] else []
  | none => []

/-- Somebody leaves a channel, maybe we. -/
def leaving (ctx : Context) (name who : Option Str) : List (Report CaseFolded Posting) :=
  match name, who with
  | some name, some who => if ctx.isMe who then [.left (ctx.fold name)] else []
  | _, _ => []

def move (ctx : Context) (line : Message) : List (Report CaseFolded Posting) :=
  match line.param 0, line.param 1 with
  | some source, some dest => [.moved (ctx.fold source) (ctx.fold dest)]
  | _, _ => []

def strike (ctx : Context) (line : Message) : List (Report CaseFolded Posting) :=
  match line.param 0, line.param 1 with
  | some name, some msgid => [.said (ctx.fold name) (.struck msgid)]
  | _, _ => []

/-- What a line with this command brings. -/
def broughtBy (ctx : Context) (line : Message) (command : Str) : List (Report CaseFolded Posting) :=
  if command = "PRIVMSG" ∨ command = "NOTICE" ∨ command =
    "TAGMSG" then messagePostings ctx line command
  else if command = "JOIN" then entrance ctx line
  else if command = "PART" then leaving ctx (line.param 0) (some (sender line))
  else if command = "KICK" then leaving ctx (line.param 0) (line.param 1)
  else if command = "RENAME" then move ctx line
  else if command = "REDACT" then strike ctx line
  else []

/-- What a line brings to the channels. -/
def postings (ctx : Context) (line : Message) : List (Report CaseFolded Posting) :=
  broughtBy ctx line (toAsciiUppercase line.command)

/-- Logs as they are after all that was brought. -/
def Brought (ctx : Context) (reports : List (Report CaseFolded Posting)) (result : Result) : Prop :=
  result.1.model.logs = reports.foldl (hear (.withRetention ctx.model.retention) MessageLog.act)
    ctx.model.logs

theorem brought_nil {ctx : Context} {result : Result} (h : result.1.model.logs = ctx.model.logs) :
    Brought ctx [] result := h

theorem brought_ite {c : Prop} [Decidable c] {ctx : Context}
    {told told' : List (Report CaseFolded Posting)}
    {result result' : Result} (hthen : Brought ctx told result)
    (helse : Brought ctx told' result') :
    Brought ctx (if c then told else told') (if c then result else result') := by
  split
  · exact hthen
  · exact helse

/-- A command that brings nothing. -/
theorem brought_pass {c : Prop} [Decidable c] {ctx : Context}
    {told : List (Report CaseFolded Posting)}
    {result result' : Result} (htold : c → told = [])
    (hquiet : result.1.model.logs = ctx.model.logs)
    (helse : Brought ctx told result') : Brought ctx told (if c then result else result') := by
  split
  · rename_i h
    rw [htold h]
    exact brought_nil hquiet
  · exact helse

/-- A change by id, to the log of a target that holds the message or not. -/
theorem brought_edit {ctx : Context} {name msgid : Str} {posting : Posting} {result : Result}
    (habout : posting.about = some msgid)
    (hout : (ctx.model.log (ctx.fold name)).bind (·.get msgid) = none → result.1.model = ctx.model)
    (hin : ∀ message, (ctx.model.log (ctx.fold name)).bind (·.get msgid) = some message →
      result.1.model = ctx.model.logMut (ctx.fold name) fun log => log.act posting) :
    Brought ctx [.said (ctx.fold name) posting] result := by
  simp only [Brought, List.foldl_cons, List.foldl_nil, hear]
  cases hheld : (ctx.model.log (ctx.fold name)).bind (·.get msgid) with
  | some message => rw [hin message hheld, Model.logs_logMut]
  | none =>
    rw [hout hheld]
    refine (Function.update_eq_self_iff.mpr ?_).symm
    cases hchannel : ctx.model.channel (ctx.fold name) with
    | none => simp [Model.logs, hchannel]
    | some channel =>
      have hnone : channel.log.get msgid = none := by simpa [Model.log, hchannel] using hheld
      simp [Model.logs, hchannel, MessageLog.act_of_get_eq_none habout hnone]

theorem reaction_brought {ctx : Context} {line : Message} {result : Result} {target : Str}
    (htarget : line.param 0 = some target) (h : reaction ctx line = some result) :
    Brought ctx ((reactionPosting ctx line).toList.map (.said (ctx.fold target))) result := by
  unfold reaction at h
  simp only [Option.bind_eq_bind, Option.bind_eq_some_iff, htarget, Option.some.injEq,
    exists_eq_left'] at h
  obtain ⟨⟨emoji, adding⟩, htag, msgid, hreply, log, hlog, held, hheld, hresult⟩ := h
  have hposting : reactionPosting ctx line =
      some (.reacted msgid emoji (ctx.fold (sender line)).asStr adding) := by
    simp [reactionPosting, htag, hreply]
  rw [hposting]
  refine brought_edit rfl ?_ fun message _ => ?_
  · intro hout
    simp [hlog, hheld] at hout
  · rw [← hresult]
    rfl

theorem linkPreview_brought {ctx : Context} {line : Message} {target msgid : Str}
    {preview : LinkPreview}
    {result : Result} (htarget : line.param 0 = some target)
    (hparse : LinkPreview.parse line = some (msgid, preview))
    (h : linkPreview ctx line = some result) :
    Brought ctx [.said (ctx.fold target) (.previewed msgid preview)] result := by
  simp only [linkPreview, hparse, htarget, Option.map_some, Option.some.injEq] at h
  refine brought_edit rfl (fun hout => ?_) fun message hin => ?_
  · rw [← h, hout]
  · rw [← h, hin]
    rfl

theorem file_brought [Primitives] (ctx : Context) (line : Message) (command target : Str) :
    Brought ctx (filedPostings ctx line command target) (file ctx line command target) := by
  funext key
  refine (logAt_file ctx line command target (.channel key)).trans ?_
  unfold filedPostings
  cases hin : filesInChannel ctx target with
  | false =>
    have hplace : Place.channel key ≠ placeOf ctx line target := by
      simp [placeOf, hin]
    rw [if_neg hplace]
    rfl
  | true =>
    simp only [placeOf_of_filesInChannel hin, Place.channel.injEq, if_true, List.foldl_cons,
      List.foldl_nil, hear, Function.update_apply]
    split
    · rename_i heq
      simp only [heq]
      rfl
    · rfl

theorem message_brought [Primitives] (ctx : Context) (line : Message) (command : Str) :
    Brought ctx (messagePostings ctx line command) (message ctx line command) := by
  unfold message messagePostings
  cases htarget : line.param 0 with
  | none => exact brought_nil rfl
  | some target =>
    dsimp only
    split
    · cases hreaction : reaction ctx line with
      | some result => exact reaction_brought htarget hreaction
      | none =>
        cases hparse : LinkPreview.parse line with
        | none =>
          have hnone : linkPreview ctx line = none := by simp [linkPreview, hparse]
          rw [hnone]
          exact file_brought ..
        | some found =>
          cases hpreview : linkPreview ctx line with
          | none => simp [linkPreview, hparse] at hpreview
          | some result => exact linkPreview_brought htarget hparse hpreview
    · exact file_brought ..

theorem join_brought (ctx : Context) (line : Message) : Brought ctx (entrance ctx line)
    (join ctx line) := by
  unfold join entrance
  cases line.param 0 with
  | none => exact brought_nil rfl
  | some name =>
    dsimp only
    split
    · simp only [Brought, List.foldl_cons, List.foldl_nil, hear, Context.withModel,
        Model.channelOrInsert, Model.logs_setChannel, Model.channelOr, Model.logs]
      cases ctx.model.channel (ctx.fold name) <;> rfl
    · cases hchannel : ctx.model.channel (ctx.fold name) with
      | none => exact brought_nil rfl
      | some channel => exact Model.logs_setChannel_same hchannel rfl

theorem leave_brought (ctx : Context) (name who : Str) :
    Brought ctx (if ctx.isMe who then [.left (ctx.fold name)] else [])
      (if ctx.isMe who then
        (ctx.withModel (ctx.model.removeChannel (ctx.fold name)), [.channelParted name])
      else (leave ctx (ctx.fold name) (ctx.fold who), [.channelMembersChanged name])) := by
  split
  · exact Model.logs_removeChannel ..
  · exact Model.logs_channelMut ctx.model _ fun _ => rfl

theorem part_brought (ctx : Context) (line : Message) :
    Brought ctx (leaving ctx (line.param 0) (some (sender line))) (part ctx line) := by
  unfold part leaving
  cases line.param 0 with
  | none => exact brought_nil rfl
  | some name => exact leave_brought ctx name (sender line)

theorem kick_brought (ctx : Context) (line : Message) :
    Brought ctx (leaving ctx (line.param 0) (line.param 1)) (kick ctx line) := by
  unfold kick leaving
  cases line.param 0 with
  | none => exact brought_nil rfl
  | some name =>
    cases line.param 1 with
    | none => exact brought_nil rfl
    | some target => exact leave_brought ctx name target

theorem renameChannel_brought (ctx : Context) (line : Message) :
    Brought ctx (move ctx line) (renameChannel ctx line) := by
  unfold renameChannel move
  cases line.param 0 with
  | none => exact brought_nil rfl
  | some source =>
    cases line.param 1 with
    | none => exact brought_nil rfl
    | some dest =>
      have hfold : ∀ name, ctx.casemapping.fold name = ctx.fold name := fun _ => rfl
      simp only [Brought, List.foldl_cons, List.foldl_nil, hear, Model.renameChannel, hfold]
      have hsource : ctx.model.logs (ctx.fold source) =
        (ctx.model.channel (ctx.fold source)).map Channel.log := rfl
      rw [hsource]
      cases ctx.model.channel (ctx.fold source) with
      | none => rfl
      | some channel =>
        simp only [Option.map_some, Context.withModel, Model.logs_setChannel,
          Model.logs_removeChannel]

theorem redact_brought (ctx : Context) (line : Message) : Brought ctx (strike ctx line)
    (redact ctx line) := by
  unfold redact strike
  cases line.param 0 with
  | none => exact brought_nil rfl
  | some name =>
    cases line.param 1 with
    | none => exact brought_nil rfl
    | some msgid =>
      refine brought_edit rfl (fun hout => ?_) fun message hin => ?_
      · simp only [hout]
      · simp only [hin]
        rfl

/-! ### Lines that bring nothing -/

theorem nick_logs (ctx : Context) (line : Message) :
    (nick ctx line).1.model.logs = ctx.model.logs := by
  unfold nick
  cases line.param 0 with
  | none => rfl
  | some dest => exact Model.logs_channels_map ctx.model fun _ => rfl

theorem topic_logs (ctx : Context) (line : Message) :
    (topic ctx line).1.model.logs = ctx.model.logs := by
  unfold topic
  split
  · rfl
  · split
    · rfl
    · exact Model.logs_channelMut ctx.model _ fun _ => rfl

theorem topicReply_logs (ctx : Context) (line : Message) :
    (topicReply ctx line).1.model.logs = ctx.model.logs := by
  unfold topicReply
  split
  · rfl
  · split
    · rfl
    · exact Model.logs_channelMut ctx.model _ fun _ => rfl

theorem mode_logs (ctx : Context) (line : Message) :
    (mode ctx line).1.model.logs = ctx.model.logs := by
  unfold mode
  split
  · rfl
  · dsimp only
    split
    · rfl
    · split
      · rfl
      · rename_i channel hchannel
        exact Model.logs_setChannel_same hchannel (channelModes_log ctx.isupport channel _)

theorem markRead_logs (ctx : Context) (line : Message) :
    (markRead ctx line).1.model.logs = ctx.model.logs := by
  unfold markRead
  split
  · dsimp only
    split
    · rename_i channel hchannel
      exact Model.logs_setChannel_same hchannel rfl
    · rfl
    · rfl
  · rfl

theorem metadata_logs (ctx : Context) (line : Message) (offset : ℕ) :
    (metadata ctx line offset).1.model.logs = ctx.model.logs := by
  unfold metadata
  split
  · rename_i target key _ _
    dsimp only
    generalize (if target = "*" then ctx.model.me.nick else target) = target
    split
    · split
      · rfl
      · exact Model.logs_channelMut ctx.model _ fun _ => rfl
    · apply Model.logs_of_channels
      split <;> rfl
  · rfl

theorem personChanged_logs (ctx : Context) (line : Message) (change : Person → Person) :
    (personChanged ctx line change).1.model.logs = ctx.model.logs := by
  apply Model.logs_of_channels
  unfold personChanged
  dsimp only
  split <;> rfl

theorem whois_logs (ctx : Context) (line : Message) (command : Str) :
    (whois ctx line command).1.model.logs = ctx.model.logs := by
  apply Model.logs_of_channels
  unfold whois
  split
  · rfl
  · dsimp only
    split
    · split <;> rfl
    · rfl

theorem namesLoop_logs (i : Isupport) (folded : CaseFolded) (model : Model) (entries : List Str) :
    (namesLoop i folded model entries).1.logs = model.logs := by
  induction entries generalizing model with
  | nil => rfl
  | cons entry entries ih =>
    unfold namesLoop
    dsimp only
    split
    · exact ih model
    · split
      · rfl
      · rename_i channel hchannel
        rw [ih]
        exact Model.logs_setChannel_same hchannel rfl

theorem names_logs (ctx : Context) (line : Message) :
    (names ctx line).1.model.logs = ctx.model.logs := by
  unfold names
  split
  · rfl
  · exact namesLoop_logs ..

theorem applyWho_logs (ctx : Context) (row : WhoRow) :
    (applyWho ctx row).1.model.logs = ctx.model.logs := by
  unfold applyWho
  dsimp only
  split
  · rfl
  · split
    · rfl
    · exact Model.logs_channelMut (ctx.model.personOrInsert _ _ _) _ fun _ => rfl

theorem whoReply_logs (ctx : Context) (line : Message) :
    (whoReply ctx line).1.model.logs = ctx.model.logs := by
  unfold whoReply
  split
  · exact applyWho_logs ..
  · rfl

theorem whoxReply_logs (ctx : Context) (line : Message) :
    (whoxReply ctx line).1.model.logs = ctx.model.logs := by
  unfold whoxReply
  split
  · rfl
  · split
    · exact applyWho_logs ..
    · rfl

theorem applyNamed_logs (ctx : Context) (name : Str) (entries : List Str) :
    (applyNamed ctx name entries).1.model.logs = ctx.model.logs := by
  unfold applyNamed
  split
  · rfl
  · exact Model.logs_channelMut ctx.model _ fun _ => rfl

theorem prop_logs (ctx : Context) (line : Message) :
    (prop ctx line).1.model.logs = ctx.model.logs := by
  unfold prop
  split
  · rfl
  · exact applyNamed_logs ..

theorem propList_logs (ctx : Context) (line : Message) :
    (propList ctx line).1.model.logs = ctx.model.logs := by
  unfold propList
  split
  · rfl
  · exact applyNamed_logs ..

/-- **To fold a line is to hear what it brings.** -/
theorem apply_postings [Primitives] (ctx : Context) (line : Message) :
    (apply ctx line).1.model.logs =
      (postings ctx line).foldl (hear (.withRetention ctx.model.retention) MessageLog.act)
        ctx.model.logs := by
  show Brought ctx (postings ctx line) (apply ctx line)
  unfold apply postings broughtBy
  dsimp only
  generalize toAsciiUppercase line.command = command
  refine brought_ite (message_brought ..) ?_
  refine brought_ite (join_brought ..) ?_
  refine brought_ite (part_brought ..) ?_
  refine brought_pass (fun h => by rw [h]; rfl) (Model.logs_channels_map ctx.model fun _ => rfl) ?_
  refine brought_ite (kick_brought ..) ?_
  refine brought_pass (fun h => by rw [h]; rfl) (nick_logs ..) ?_
  refine brought_ite (renameChannel_brought ..) ?_
  refine brought_pass (fun h => by rw [h]; rfl) (topic_logs ..) ?_
  refine brought_pass (fun h => by rw [h]; rfl) (mode_logs ..) ?_
  refine brought_pass (fun h => by rw [h]; rfl) (topicReply_logs ..) ?_
  refine brought_pass (fun h => by rw [h]; rfl) (markRead_logs ..) ?_
  refine brought_ite (redact_brought ..) ?_
  refine brought_pass (fun _ => rfl) (personChanged_logs ..) ?_
  refine brought_pass (fun _ => rfl) (personChanged_logs ..) ?_
  refine brought_pass (fun _ => rfl) (metadata_logs ..) ?_
  refine brought_pass (fun _ => rfl) (metadata_logs ..) ?_
  refine brought_pass (fun _ => rfl) (whois_logs ..) ?_
  refine brought_pass (fun _ => rfl) (names_logs ..) ?_
  refine brought_pass (fun _ => rfl) (whoReply_logs ..) ?_
  refine brought_pass (fun _ => rfl) (whoxReply_logs ..) ?_
  refine brought_pass (fun _ => rfl) (prop_logs ..) ?_
  exact brought_pass (fun _ => rfl) (propList_logs ..) (brought_nil rfl)

end Session

end ObbyClient

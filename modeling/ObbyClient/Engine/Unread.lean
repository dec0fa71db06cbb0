import ObbyClient.Engine.Agreement

/-!
# What is unread

A place counts the messages that others say there, and a channel those that address us.  A
`MARKREAD` names an instant and resets both.

* `Model.tallyAt` — the counters of a place;
* `Session.Counted`, `Session.ledger` — the messages counted since the last reset, with their times;
* `Session.Heard` — a history of lines with the ledger of one place; `Session.Heard.tallies` — the
  counters are the ledger's length, as far as 32 bits go;
* `Session.clears_iff` — when a marker clears no more than it covers.
-/

namespace ObbyClient

/-- True for a channel. -/
def Place.isChannel : Place → Bool
  | .channel _ => true
  | .conversation _ => false

namespace Model

/-! ### The counters of a place -/

/-- The unread messages of a place, and those of them that mention us.  A conversation counts no
mentions, and a place we do not know counts nothing. -/
def tallyAt (model : Model) : Place → ℕ × ℕ
  | .channel key =>
      ((model.channel key).map fun channel => (channel.unread, channel.mentions)).getD (0, 0)
  | .conversation key => ((model.conversation key).map fun query => (query.unread, 0)).getD (0, 0)

theorem tallyAt_setChannel (model : Model) (key : CaseFolded) (channel : Channel) (place : Place) :
    (model.setChannel key channel).tallyAt place =
      if place = .channel key then (channel.unread, channel.mentions) else model.tallyAt place := by
  cases place with
  | channel other =>
      show (((model.channels.insert key channel)[other]?).map _).getD _ = _
      rw [Maps.getElem?_insert_ite]
      simp only [Place.channel.injEq]
      by_cases h : other = key
      · rw [if_pos h, if_pos h]
        rfl
      · rw [if_neg h, if_neg h]
        rfl
  | conversation other =>
      rw [if_neg (by simp)]
      rfl

theorem tallyAt_setConversation (model : Model) (key : CaseFolded) (query : Conversation)
    (place : Place) :
    (model.setConversation key query).tallyAt place =
      if place = .conversation key then (query.unread, 0) else model.tallyAt place := by
  cases place with
  | channel other =>
      rw [if_neg (by simp)]
      rfl
  | conversation other =>
      show (((model.conversations.insert key query)[other]?).map _).getD _ = _
      rw [Maps.getElem?_insert_ite]
      simp only [Place.conversation.injEq]
      by_cases h : other = key
      · rw [if_pos h, if_pos h]
        rfl
      · rw [if_neg h, if_neg h]
        rfl

/-- A change to a log counts nothing. -/
theorem tallyAt_logMut (model : Model) (key : CaseFolded) (f : MessageLog → MessageLog)
    (place : Place) : (model.logMut key f).tallyAt place = model.tallyAt place := by
  unfold logMut
  cases model.channel key with
  | some channel =>
      cases place with
      | channel other =>
          show (((model.channels.modify key _)[other]?).map _).getD _ = _
          rw [Maps.getElem?_modify_ite]
          by_cases h : other = key
          · rw [if_pos h, h, Option.map_map]
            rfl
          · rw [if_neg h]
            rfl
      | conversation other => rfl
  | none =>
      cases place with
      | channel other => rfl
      | conversation other =>
          show (((model.conversations.modify key _)[other]?).map _).getD _ = _
          rw [Maps.getElem?_modify_ite]
          by_cases h : other = key
          · rw [if_pos h, h, Option.map_map]
            rfl
          · rw [if_neg h]
            rfl

end Model

namespace Session

section Ledger

variable [Primitives]

/-! ### The ledger of a place -/

/-- A message that was counted: when it was said, and whether it counts as a mention. -/
structure Counted where
  timeMs : ℕ
  mention : Bool
  deriving DecidableEq

/-- The entry that a line makes in the ledger of a place: it says something there that was not held
already, that is not our own and that is not history. -/
def counted (ctx : Context) (line : Message) (place : Place) : Option Counted :=
  match filed ctx line with
  | none => none
  | some target =>
      let message := chatMessage ctx line (toAsciiUppercase line.command)
      if place = placeOf ctx line target ∧ (ctx.model.logAt place).any (!·.holds message) ∧
          !message.own && !message.historical then
        some ⟨message.key.timeMs,
          place.isChannel && mentions ctx.casemapping message.text ctx.model.me.nick⟩
      else none

/-- True of the read markers of a place. -/
def marks (ctx : Context) (line : Message) (place : Place) : Bool :=
  toAsciiUppercase line.command == ("MARKREAD" : Str) && (line.param 1).isSome &&
    (line.param 0).any fun name => ctx.model.lookup (ctx.fold name) == some place

omit [Primitives] in
theorem marks_eq_false (ctx : Context) {line : Message} (place : Place)
    (h : toAsciiUppercase line.command ≠ "MARKREAD") : marks ctx line place = false := by
  unfold marks
  rw [beq_false_of_ne h]
  rfl

omit [Primitives] in
theorem marks_iff (ctx : Context) {line : Message} {name timestamp : Str} (place : Place)
    (hline : toAsciiUppercase line.command = "MARKREAD") (hname : line.param 0 = some name)
    (htimestamp : line.param 1 = some timestamp) :
    marks ctx line place = true ↔ ctx.model.lookup (ctx.fold name) = some place := by
  unfold marks
  rw [hline, hname, htimestamp]
  exact beq_iff_eq

/-- The messages counted since the last reset, after one more line. -/
def ledger (ctx : Context) (line : Message) (place : Place) (seen : List Counted) : List Counted :=
  if marks ctx line place then [] else seen ++ (counted ctx line place).toList

/-- A history of one place with its ledger.  What is said and what is marked as read follow each
other in any order; between two lines anything else may change, as long as the counters do not, and
the place may come under another name.  Whenever the counters stand at nothing, a history may
begin. -/
inductive Heard : Place → List Counted → Context → Prop where
  | start {place : Place} {ctx : Context} (h : ctx.model.tallyAt place = (0, 0)) :
      Heard place [] ctx
  | line {place : Place} {seen : List Counted} {ctx : Context} (h : Heard place seen ctx)
      (line : Message)
      (hline : isMessage (toAsciiUppercase line.command) = true ∨
        toAsciiUppercase line.command = "MARKREAD") :
      Heard place (ledger ctx line place seen) (apply ctx line).1
  | between {place next : Place} {seen : List Counted} {ctx ctx' : Context}
      (h : Heard place seen ctx)
      (hnext : next.isChannel = place.isChannel)
      (hsame : ctx'.model.tallyAt next = ctx.model.tallyAt place) : Heard next seen ctx'

/-- The counters that a ledger comes to, as far as 32 bits go. -/
def tallyOf (seen : List Counted) : ℕ × ℕ :=
  (min seen.length u32Max, min (seen.countP Counted.mention) u32Max)

omit [Primitives] in
theorem tallyOf_append (seen : List Counted) (entry : Counted) :
    tallyOf (seen ++ [entry]) = (satAdd32 (tallyOf seen).1 1,
      if entry.mention = true then satAdd32 (tallyOf seen).2 1 else (tallyOf seen).2) := by
  unfold tallyOf satAdd32
  rw [List.length_append, List.countP_append, List.countP_singleton]
  refine Prod.ext ?_ ?_
  · show min (seen.length + 1) u32Max = min (min seen.length u32Max + 1) u32Max
    omega
  · show min (seen.countP Counted.mention + if entry.mention = true then 1 else 0) u32Max = _
    by_cases h : entry.mention = true
    · rw [if_pos h, if_pos h]
      show _ = min (min _ u32Max + 1) u32Max
      omega
    · rw [if_neg h, if_neg h]
      rfl

/-! ### What a line does to the counters -/

/-- The counters after one more message. -/
def bump (tally : ℕ × ℕ) (mention : Bool) : ℕ × ℕ :=
  (satAdd32 tally.1 1, if mention then satAdd32 tally.2 1 else tally.2)

omit [Primitives] in
theorem insert_snd (log : MessageLog) (message : ChatMessage) :
    (log.insert message).2 = !log.holds message := by
  cases h : log.holds message with
  | true => rw [MessageLog.insert_of_holds h]; rfl
  | false => rw [MessageLog.insert_of_not_holds h]; rfl

omit [Primitives] in
theorem fileInChannel_tally (channel : Channel) (message : ChatMessage) (counts addressed : Bool) :
    ((fileInChannel channel message counts addressed).1.unread,
        (fileInChannel channel message counts addressed).1.mentions) =
      if (!channel.log.holds message && counts) = true then
        bump (channel.unread, channel.mentions) addressed
      else (channel.unread, channel.mentions) := by
  rw [← insert_snd]
  unfold fileInChannel bump
  dsimp only
  cases (channel.log.insert message).2 && counts with
  | true => rfl
  | false => rfl

omit [Primitives] in
theorem fileInConversation_tally (query : Conversation) (message : ChatMessage) (counts : Bool) :
    ((fileInConversation query message counts).1.unread, 0) =
      if (!query.log.holds message && counts) = true then bump (query.unread, 0) false
      else (query.unread, 0) := by
  rw [← insert_snd]
  unfold fileInConversation bump
  dsimp only
  cases (query.log.insert message).2 && counts with
  | true => rfl
  | false => rfl

omit [Primitives] in
theorem tallyAt_conversationOr (model : Model) (key : CaseFolded) (nick : Str) :
    model.tallyAt (.conversation key) = ((model.conversationOr key nick).unread, 0) := by
  show ((model.conversation key).map _).getD _ = _
  unfold Model.conversationOr
  cases model.conversation key with
  | some query => rfl
  | none => rfl

/-- **Filing** counts a message in its place, and nowhere else. -/
theorem tallyAt_file (ctx : Context) (line : Message) (command target : Str) (place : Place) :
    (file ctx line command target).1.model.tallyAt place =
      if place = placeOf ctx line target ∧
          (ctx.model.logAt place).any (!·.holds (chatMessage ctx line command)) ∧
          !(chatMessage ctx line command).own && !(chatMessage ctx line command).historical then
        bump (ctx.model.tallyAt place) (place.isChannel &&
          mentions ctx.casemapping (chatMessage ctx line command).text ctx.model.me.nick)
      else ctx.model.tallyAt place := by
  have hstamped : ((ctx.stamp line).withModel
      (ctx.model.nextMessageKey (ctx.stamped line)).1).model.tallyAt place =
        ctx.model.tallyAt place := by
    cases place with
    | channel key => rfl
    | conversation key => rfl
  have hlog := filingLog_eq ctx line target
  unfold filingLog at hlog
  unfold placeOf at hlog ⊢
  unfold file
  dsimp only at hlog ⊢
  generalize filedUnder ctx line target = name at hlog ⊢
  generalize chatMessage ctx line command = message
  rw [show filesInChannel ((ctx.stamp line).withModel
    (ctx.model.nextMessageKey (ctx.stamped line)).1) target = filesInChannel ctx target from rfl]
  generalize filesInChannel ctx target = inChannel at hlog ⊢
  cases inChannel with
  | true =>
      simp only [if_true] at hlog ⊢
      rw [show ((ctx.stamp line).withModel
          (ctx.model.nextMessageKey (ctx.stamped line)).1).model.channel (ctx.fold name) =
        ctx.model.channel (ctx.fold name) from rfl]
      cases hchannel : ctx.model.channel (ctx.fold name) with
      | none =>
          rw [hchannel] at hlog
          refine hstamped.trans (if_neg ?_).symm
          rintro ⟨rfl, hany, -⟩
          rw [← hlog] at hany
          cases hany
      | some channel =>
          rw [hchannel] at hlog
          refine (Model.tallyAt_setChannel _ _ _ _).trans ?_
          by_cases hplace : place = .channel (ctx.fold name)
          · rw [if_pos hplace, fileInChannel_tally, hplace, ← hlog]
            have htally : ctx.model.tallyAt (.channel (ctx.fold name)) =
                (channel.unread, channel.mentions) := by
              show ((ctx.model.channel (ctx.fold name)).map _).getD _ = _
              rw [hchannel]
              rfl
            rw [htally]
            cases hheld : channel.log.holds message with
            | true => simp [hheld]
            | false =>
                cases hcounts : !message.own && !message.historical with
                | true => simp [hheld, Place.isChannel]
                | false => simp
          · rw [if_neg hplace, if_neg fun h => hplace h.1]
            exact hstamped
  | false =>
      simp only [Bool.false_eq_true, if_false] at hlog ⊢
      refine (Model.tallyAt_setConversation _ _ _ _).trans ?_
      by_cases hplace : place = .conversation (ctx.fold name)
      · rw [if_pos hplace, fileInConversation_tally, hplace, ← hlog,
          tallyAt_conversationOr ctx.model (ctx.fold name) name]
        rw [show ((ctx.stamp line).withModel
          (ctx.model.nextMessageKey (ctx.stamped line)).1).model.conversationOr (ctx.fold name)
            name =
            ctx.model.conversationOr (ctx.fold name) name from rfl]
        cases hheld : (ctx.model.conversationOr (ctx.fold name) name).log.holds message with
        | true => simp [hheld]
        | false =>
            cases hcounts : !message.own && !message.historical with
            | true => simp [hheld, Place.isChannel]
            | false => simp
      · rw [if_neg hplace, if_neg fun h => hplace h.1]
        exact hstamped

omit [Primitives] in
theorem reaction_tally {ctx : Context} {line : Message} {result : Result}
    (h : reaction ctx line = some result) (place : Place) :
    result.1.model.tallyAt place = ctx.model.tallyAt place := by
  obtain ⟨target, msgid, f, rfl⟩ := reaction_eq_some h
  exact Model.tallyAt_logMut _ _ _ _

omit [Primitives] in
theorem linkPreview_tally {ctx : Context} {line : Message} {result : Result}
    (h : linkPreview ctx line = some result) (place : Place) :
    result.1.model.tallyAt place = ctx.model.tallyAt place := by
  rcases linkPreview_eq_some h with rfl | ⟨name, msgid, message, f, hf, -, rfl⟩
  · rfl
  · exact Model.tallyAt_logMut _ _ _ _

/-- What is said is filed, and counted so; a reaction or a preview counts nothing. -/
theorem tallyAt_message (ctx : Context) {line : Message}
    (hline : isMessage (toAsciiUppercase line.command) = true) (place : Place) :
    (apply ctx line).1.model.tallyAt place =
      match counted ctx line place with
      | none => ctx.model.tallyAt place
      | some entry => bump (ctx.model.tallyAt place) entry.mention := by
  have hfile : ∀ target, filed ctx line = some target →
      (file ctx line (toAsciiUppercase line.command) target).1.model.tallyAt place =
        match counted ctx line place with
        | none => ctx.model.tallyAt place
        | some entry => bump (ctx.model.tallyAt place) entry.mention := by
    intro target hfiled
    unfold counted
    rw [tallyAt_file, hfiled]
    dsimp only
    split
    · rfl
    · rfl
  have hnone : filed ctx line = none → counted ctx line place = none := by
    intro hfiled
    unfold counted
    rw [hfiled]
  rw [apply_of_isMessage ctx hline, message]
  cases htarget : line.param 0 with
  | none => rw [hnone (by simp [filed, htarget])]
  | some target =>
      dsimp only
      by_cases htagmsg : toAsciiUppercase line.command = "TAGMSG"
      · rw [if_pos htagmsg]
        rcases reaction_cases ctx line with ⟨result, hresult, -, hreacts⟩ | ⟨hresult, hreacts⟩
        · rw [hnone (by simp [filed, htagmsg, hreacts]), hresult]
          exact reaction_tally hresult place
        · rw [hresult]
          cases hpreview : linkPreview ctx line with
          | some result =>
              obtain ⟨preview, hparse, -⟩ := Option.map_eq_some_iff.mp hpreview
              rw [hnone (by simp [filed, htagmsg, hparse])]
              exact linkPreview_tally hpreview place
          | none =>
              have hparse : LinkPreview.parse line = none := Option.map_eq_none_iff.mp hpreview
              exact hfile target (by simp [filed, htagmsg, hreacts, hparse, htarget, isMessage])
      · rw [if_neg htagmsg]
        refine hfile target ?_
        show (if isMessage _ && !(_ && _) then _ else _) = _
        rw [hline, beq_false_of_ne htagmsg]
        exact htarget

/-- **A read marker** resets the counters of the place it is for, whatever instant it names. -/
theorem tallyAt_markRead (ctx : Context) {line : Message}
    (hline : toAsciiUppercase line.command = "MARKREAD") (place : Place) :
    (apply ctx line).1.model.tallyAt place =
      if marks ctx line place then (0, 0) else ctx.model.tallyAt place := by
  rw [apply_of_handles ctx hline .markRead]
  unfold markRead
  cases hname : line.param 0 with
  | none => simp [marks, hname]
  | some name =>
      cases htimestamp : line.param 1 with
      | none => simp [marks, htimestamp]
      | some timestamp =>
          have hmarks := marks_iff ctx place hline hname htimestamp
          dsimp only
          cases hchannel : ctx.model.channel (ctx.fold name) with
          | some channel =>
              rw [Model.lookup, hchannel, Option.isSome_some, if_pos rfl, Option.some_inj] at hmarks
              refine (Model.tallyAt_setChannel _ _ _ _).trans (if_congr ?_ rfl rfl)
              exact eq_comm.trans hmarks.symm
          | none =>
              cases hquery : ctx.model.conversation (ctx.fold name) with
              | some query =>
                  rw [Model.lookup, hchannel, hquery, Option.isSome_none, Option.isSome_some,
                    if_neg Bool.false_ne_true, if_pos rfl, Option.some_inj] at hmarks
                  refine (Model.tallyAt_setConversation _ _ _ _).trans (if_congr ?_ rfl rfl)
                  exact eq_comm.trans hmarks.symm
              | none =>
                  rw [Model.lookup, hchannel, hquery, Option.isSome_none, Option.isSome_none,
                    if_neg Bool.false_ne_true, if_neg Bool.false_ne_true] at hmarks
                  rw [if_neg fun h => Option.some_ne_none _ (hmarks.mp h).symm]

/-! ### Histories -/

/-- **The counters are the ledger's.** -/
theorem Heard.tallies {place : Place} {seen : List Counted} {ctx : Context}
    (h : Heard place seen ctx) : ctx.model.tallyAt place = tallyOf seen := by
  induction h with
  | start h => exact h
  | @line place seen ctx h line hline ih =>
      rcases hline with hline | hline
      · have hmarks : marks ctx line place = false := by
          refine marks_eq_false ctx place ?_
          intro heq
          rw [heq] at hline
          exact absurd hline (by decide)
        rw [tallyAt_message ctx hline, ih]
        unfold ledger
        rw [hmarks, if_neg Bool.false_ne_true]
        cases counted ctx line place with
        | none =>
            rw [Option.toList_none, List.append_nil]
        | some entry =>
            rw [Option.toList_some, tallyOf_append]
            rfl
      · have hcounted : counted ctx line place = none := by
          have hfiled : filed ctx line = none := by
            unfold filed
            rw [hline]
            rfl
          unfold counted
          rw [hfiled]
        rw [tallyAt_markRead ctx hline]
        unfold ledger
        cases marks ctx line place with
        | true => rfl
        | false =>
            rw [hcounted, Option.toList_none, List.append_nil]
            exact ih
  | between h hnext hsame ih => exact hsame.trans ih

/-- The entries of a ledger that are later than an instant. -/
def later (t : ℕ) (seen : List Counted) : List Counted := seen.filter fun entry => t < entry.timeMs

/-- What a marker should leave: the counters of what is later than it, and counters that stand as
they stood when it is older than everything counted. -/
structure Clears (t : ℕ) (seen : List Counted) (place : Place) (before after : Model) : Prop where
  unread : (after.tallyAt place).1 = (later t seen).length
  mentions : (after.tallyAt place).2 = (later t seen).countP Counted.mention
  older : (∀ entry ∈ seen, t < entry.timeMs) → after.tallyAt place = before.tallyAt place

/-- **When a marker clears what it covers.**  After any history of a channel or a conversation, a
valid marker for it clears what it covers and no more exactly when it covers everything counted
since the last reset. -/
theorem clears_iff {place : Place} {seen : List Counted} {ctx : Context} (h : Heard place seen ctx)
    {line : Message} {name timestamp : Str} {t : ℕ} (hline : line.is "MARKREAD" = true)
    (hname : line.param 0 = some name) (htimestamp : line.param 1 = some timestamp)
    (_ : ServerTime.parse (markerOf timestamp) = some t)
    (hplace : ctx.model.lookup (ctx.fold name) = some place) :
    Clears t seen place ctx.model (apply ctx line).1.model ↔ ∀ entry ∈ seen, entry.timeMs ≤ t := by
  have hcommand : toAsciiUppercase line.command = "MARKREAD" := toAsciiUppercase_of_eq hline
  have hafter : (apply ctx line).1.model.tallyAt place = (0, 0) := by
    rw [tallyAt_markRead ctx hcommand,
      if_pos ((marks_iff ctx place hcommand hname htimestamp).mpr hplace)]
  constructor
  · intro hclears entry hentry
    have hnone : (later t seen).length = 0 := by
      rw [← hclears.unread, hafter]
    have hkept : entry ∉ later t seen := by
      rw [List.length_eq_zero_iff.mp hnone]
      exact List.not_mem_nil
    by_contra hlate
    exact hkept (List.mem_filter.mpr ⟨hentry, decide_eq_true (by omega)⟩)
  · intro hcovered
    have hnone : later t seen = [] := by
      refine List.filter_eq_nil_iff.mpr ?_
      intro entry hentry hlate
      have := hcovered entry hentry
      have := of_decide_eq_true hlate
      omega
    refine ⟨?_, ?_, ?_⟩
    · rw [hafter, hnone]
      rfl
    · rw [hafter, hnone]
      rfl
    · intro hall
      -- a ledger that is both covered and later than the marker is empty
      cases seen with
      | nil =>
          rw [hafter, h.tallies]
          rfl
      | cons entry seen =>
          have := hcovered entry List.mem_cons_self
          have := hall entry List.mem_cons_self
          omega

end Ledger

/-- We are in a channel, and nothing has been said. -/
def quietChannel [Primitives] : Context :=
  let model := Model.withRetention 10
  (apply ⟨{ model with me := { model.me with nick := "me" } }, .default, 0, false⟩
    ⟨[], some ⟨"me", none, none⟩, "JOIN", ["#a"]⟩).1

/-- Two seconds past the epoch someone says our name. -/
def calledLine : Message :=
  ⟨[⟨"time", some "1970-01-01T00:00:02.000Z"⟩], some ⟨"bea", none, none⟩, "PRIVMSG", ["#a", "me?"]⟩

/-- The channel is read as far as this. -/
def markLine (timestamp : Str) : Message :=
  ⟨[], some ⟨"irc", none, none⟩, "MARKREAD", ["#a", "timestamp=" ++ timestamp]⟩

theorem called_heard : letI := Primitives.ascii
    Heard (.channel ⟨"#a"⟩) (ledger quietChannel calledLine (.channel ⟨"#a"⟩) [])
      (apply quietChannel calledLine).1 := by
  refine @Heard.line Primitives.ascii _ _ _ (@Heard.start Primitives.ascii _ _ ?_) _ (.inl ?_)
  · decide +kernel
  · decide +kernel

/-- A marker a second later clears the message. -/
theorem clears_called : letI := Primitives.ascii
    Clears 3000 (ledger quietChannel calledLine (.channel ⟨"#a"⟩) []) (.channel ⟨"#a"⟩)
      (apply quietChannel calledLine).1.model
      (apply (apply quietChannel calledLine).1 (markLine "1970-01-01T00:00:03.000Z")).1.model := by
  refine (@clears_iff Primitives.ascii _ _ _ called_heard _ "#a"
    "timestamp=1970-01-01T00:00:03.000Z" _ ?_ ?_ ?_ ?_ ?_).mpr ?_
  · decide +kernel
  · decide +kernel
  · decide +kernel
  · decide +kernel
  · decide +kernel
  · decide +kernel

/-- A marker a second earlier clears it too. -/
theorem uncovered_cleared : letI := Primitives.ascii
    ∃ seen ctx line t, Heard (.channel ⟨"#a"⟩) seen ctx ∧ line.is "MARKREAD" = true ∧
      line.param 0 = some ("#a" : Str) ∧
      (∃ timestamp, line.param 1 = some timestamp ∧ ServerTime.parse (markerOf timestamp) =
        some t) ∧
      ctx.model.lookup (ctx.fold "#a") = some (.channel ⟨"#a"⟩) ∧
      (∀ entry ∈ seen, t < entry.timeMs) ∧ ctx.model.tallyAt (.channel ⟨"#a"⟩) = (1, 1) ∧
      (apply ctx line).1.model.tallyAt (.channel ⟨"#a"⟩) = (0, 0) ∧
      ¬ Clears t seen (.channel ⟨"#a"⟩) ctx.model (apply ctx line).1.model := by
  refine ⟨_, _, markLine "1970-01-01T00:00:01.000Z", 1000, called_heard, ?_, ?_,
    ⟨"timestamp=1970-01-01T00:00:01.000Z", ?_, ?_⟩, ?_, ?_, ?_, ?_, ?_⟩
  · decide +kernel
  · decide +kernel
  · decide +kernel
  · decide +kernel
  · decide +kernel
  · decide +kernel
  · decide +kernel
  · decide +kernel
  · intro hclears
    have hunread := hclears.unread
    revert hunread
    decide +kernel

end Session

end ObbyClient

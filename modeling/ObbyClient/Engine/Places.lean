import ObbyClient.Engine.Filing

/-!
# Where a message is filed

A message goes into the log of one place: a channel we are in, or a conversation.

* `Place`, `Model.logAt` — the places, and the log of each;
* `Session.placeOf` — the place of a line;
* `Session.logAt_file` — filing a line inserts its message there and touches no other log.
-/

namespace ObbyClient

/-- A channel or a conversation, by its key. -/
inductive Place where
  | channel (key : CaseFolded)
  | conversation (key : CaseFolded)
  deriving DecidableEq

namespace Model

/-- The log of a channel we are in, or of a conversation we have or would begin. -/
def logAt (model : Model) : Place → Option MessageLog
  | .channel key => (model.channel key).map Channel.log
  | .conversation key =>
      some (((model.conversation key).map Conversation.log).getD (.withRetention model.retention))

theorem logAt_setChannel (model : Model) (key : CaseFolded) (channel : Channel) (place : Place) :
    (model.setChannel key channel).logAt place =
      if place = .channel key then some channel.log else model.logAt place := by
  cases place with
  | channel other =>
      show ((model.channels.insert key channel)[other]?).map Channel.log = _
      rw [Std.ExtTreeMap.getElem?_insert]
      simp only [Std.LawfulEqCmp.compare_eq_iff_eq, Place.channel.injEq, eq_comm (a := key)]
      by_cases heq : other = key
      · rw [if_pos heq, if_pos heq]
        rfl
      · rw [if_neg heq, if_neg heq]
        rfl
  | conversation other =>
      rw [if_neg (by simp)]
      rfl

theorem logAt_setConversation (model : Model) (key : CaseFolded) (query : Conversation)
    (place : Place) :
    (model.setConversation key query).logAt place =
      if place = .conversation key then some query.log else model.logAt place := by
  cases place with
  | channel other =>
      rw [if_neg (by simp)]
      rfl
  | conversation other =>
      show some ((((model.conversations.insert key query)[other]?).map Conversation.log).getD
        (.withRetention model.retention)) = _
      rw [Std.ExtTreeMap.getElem?_insert]
      simp only [Std.LawfulEqCmp.compare_eq_iff_eq, Place.conversation.injEq, eq_comm (a := key)]
      by_cases heq : other = key
      · rw [if_pos heq, if_pos heq]
        rfl
      · rw [if_neg heq, if_neg heq]
        rfl

end Model

namespace Session

/-- The place a message to this target is filed in. -/
def placeOf (ctx : Context) (line : Message) (target : Str) : Place :=
  if filesInChannel ctx target then .channel (ctx.fold (filedUnder ctx line target))
  else .conversation (ctx.fold (filedUnder ctx line target))

/-- What is said in a channel is filed there, whoever says it. -/
theorem placeOf_of_filesInChannel {ctx : Context} {target : Str}
    (h : filesInChannel ctx target = true) (line : Message) :
    placeOf ctx line target = .channel (ctx.fold (addressee ctx target)) := by
  unfold placeOf filedUnder
  rw [if_pos h, if_pos h]

theorem filingLog_eq (ctx : Context) (line : Message) (target : Str) :
    filingLog ctx line target = ctx.model.logAt (placeOf ctx line target) := by
  unfold filingLog placeOf
  cases filesInChannel ctx target with
  | true => rfl
  | false =>
      show some (ctx.model.conversationOr _ _).log = some _
      unfold Model.conversationOr
      cases ctx.model.conversation (ctx.fold (filedUnder ctx line target)) with
      | none => rfl
      | some query => rfl

variable [Primitives]

/-- **Filing** inserts a message into the log of its place, and touches no other log. -/
theorem logAt_file (ctx : Context) (line : Message) (command target : Str) (place : Place) :
    (file ctx line command target).1.model.logAt place =
      if place = placeOf ctx line target then
        (ctx.model.logAt place).map fun log => (log.insert (chatMessage ctx line command)).1
      else ctx.model.logAt place := by
  have hstamped : ((ctx.stamp line).withModel
      (ctx.model.nextMessageKey (ctx.stamped line)).1).model.logAt place =
        ctx.model.logAt place := by
    cases place with
    | channel key => rfl
    | conversation key => rfl
  have hlog := filingLog_eq ctx line target
  unfold filingLog at hlog
  unfold placeOf at hlog ⊢
  unfold file
  dsimp only at hlog ⊢
  generalize filedUnder ctx line target = name at hlog ⊢
  rw [show filesInChannel ((ctx.stamp line).withModel
    (ctx.model.nextMessageKey (ctx.stamped line)).1) target = filesInChannel ctx target from rfl]
  cases hin : filesInChannel ctx target with
  | true =>
      rw [hin] at hlog
      rw [if_pos rfl] at hlog
      rw [if_pos rfl, if_pos rfl]
      rw [show ((ctx.stamp line).withModel
          (ctx.model.nextMessageKey (ctx.stamped line)).1).model.channel (ctx.fold name) =
        ctx.model.channel (ctx.fold name) from rfl]
      cases hchannel : ctx.model.channel (ctx.fold name) with
      | none =>
          dsimp only
          rw [hstamped]
          by_cases hplace : place = .channel (ctx.fold name)
          · rw [if_pos hplace, hplace]
            show _ = ((ctx.model.channel (ctx.fold name)).map Channel.log).map _
            rw [hchannel]
            show (ctx.model.channel (ctx.fold name)).map Channel.log = _
            rw [hchannel]
            rfl
          · rw [if_neg hplace]
      | some channel =>
          refine (Model.logAt_setChannel _ _ _ _).trans ?_
          rw [hstamped]
          by_cases hplace : place = .channel (ctx.fold name)
          · rw [if_pos hplace, if_pos hplace, hplace]
            show _ = ((ctx.model.channel (ctx.fold name)).map Channel.log).map _
            rw [hchannel]
            rfl
          · rw [if_neg hplace, if_neg hplace]
  | false =>
      rw [hin, if_neg Bool.false_ne_true, if_neg Bool.false_ne_true] at hlog
      rw [if_neg Bool.false_ne_true, if_neg Bool.false_ne_true]
      refine (Model.logAt_setConversation _ _ _ _).trans ?_
      rw [hstamped]
      by_cases hplace : place = .conversation (ctx.fold name)
      · rw [if_pos hplace, if_pos hplace, hplace, ← hlog]
        rfl
      · rw [if_neg hplace, if_neg hplace]

/-- What filing a line does beside that: it takes a number, and notes the time. -/
theorem file_rest (ctx : Context) (line : Message) (command target : Str) :
    (file ctx line command target).1.isupport = ctx.isupport ∧
      (file ctx line command target).1.model.me = ctx.model.me ∧
      (file ctx line command target).1.model.nextSeq = (ctx.model.nextSeq + 1) % 2 ^ 64 ∧
      (file ctx line command target).1.latestMs = max ctx.latestMs (ctx.stamped line) := by
  unfold file
  dsimp only
  split
  · split
    · exact ⟨rfl, rfl, rfl, rfl⟩
    · exact ⟨rfl, rfl, rfl, rfl⟩
  · exact ⟨rfl, rfl, rfl, rfl⟩

end Session

end ObbyClient

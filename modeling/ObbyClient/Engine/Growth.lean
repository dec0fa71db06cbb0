import ObbyClient.Engine.Holding
import ObbyClient.Engine.Places

/-!
# Live messages without an id

A live message that carries neither an id nor a time is stamped with the latest instant seen, and is
dropped when the log holds the same words of the same instant.

* `MessageLog.Fits`, `MessageLog.length_insertAll_iff` — when a log takes every message it is given;
* `Client.LiveAt` — a live line, to one place, without an id or a time;
* `Client.log_grows_iff` — when no such line is lost.
-/

namespace ObbyClient

namespace MessageLog

/-! ### Logs with room -/

/-- True when none of these messages repeats one that is held, or another of them, or finds its key
taken. -/
structure Fits (log : MessageLog) (messages : List ChatMessage) : Prop where
  twins : ∀ message ∈ messages, log.hasTwin message = false
  keys : ∀ message ∈ messages, message.key ∉ log.messages
  apart : messages.Pairwise fun a b => a.key ≠ b.key ∧ ¬ Repeats a b

/-- A log with room drops nothing. -/
theorem insert_of_room {log : MessageLog} {message : ChatMessage}
    (hholds : log.holds message = false) (hroom : log.messages.size < log.retention) :
    (log.insert message).1 = log.put message := by
  have hsize : (log.put message).messages.size ≤ log.retention := by
    have hle : (log.messages.insert message.key message).size ≤ log.messages.size + 1 :=
      Std.ExtTreeMap.size_insert_le
    show (log.messages.insert message.key message).size ≤ log.retention
    omega
  rw [insert_of_not_holds hholds]
  show (log.put message).trim = _
  rw [trim_eq, show (log.put message).retention = log.retention from rfl,
    Nat.sub_eq_zero_of_le hsize]
  rfl

theorem messages_insert_of_room {log : MessageLog} {message : ChatMessage}
    (hid : message.msgid = none) (hroom : log.messages.size < log.retention) :
    (log.insert message).1.messages =
      if log.hasTwin message then log.messages else log.messages.insert message.key message := by
  have hholds : log.holds message = log.hasTwin message := by
    unfold holds
    rw [hid]
  cases htwin : log.hasTwin message with
  | true =>
      rw [insert_of_holds (hholds.trans htwin)]
      rfl
  | false =>
      rw [insert_of_room (hholds.trans htwin) hroom]
      rfl

/-- A message under a key of its own comes to the others. -/
theorem iter_put {log : MessageLog} {message : ChatMessage} (hkey : message.key ∉ log.messages) :
    (log.put message).iter.Perm (message :: log.iter) := by
  have hnodup : ∀ log : MessageLog, log.iter.Nodup := by
    intro log
    refine log.iter_sorted.imp ?_
    intro a b hlt heq
    have hself : compare b.key b.key = .eq := Std.ReflCmp.compare_self
    rw [heq, hself] at hlt
    cases hlt
  refine (List.perm_ext_iff_of_nodup (hnodup _) (List.nodup_cons.mpr ⟨?_, hnodup log⟩)).mpr ?_
  · intro hmem
    exact hkey (Std.ExtTreeMap.mem_iff_isSome_getElem?.mpr
      (Option.isSome_of_eq_some (mem_iter.mp hmem)))
  · intro other
    rw [mem_iter, put_messages, List.mem_cons, mem_iter]
    by_cases heq : message.key = other.key
    · rw [if_pos heq, Option.some.injEq]
      constructor
      · intro h
        exact .inl h.symm
      · intro h
        rcases h with h | h
        · exact h.symm
        · rw [← heq] at h
          exact absurd (Std.ExtTreeMap.mem_iff_isSome_getElem?.mpr (Option.isSome_of_eq_some h))
            hkey
    · rw [if_neg heq, or_iff_right]
      intro h
      rw [h] at heq
      exact heq rfl

/-- The ids that a log knows once a message is put. -/
theorem contains_put (log : MessageLog) (message : ChatMessage) (id : Str) :
    (log.put message).contains id = true ↔ message.msgid = some id ∨ log.contains id = true := by
  unfold contains
  rw [Std.ExtTreeMap.contains_eq_isSome_getElem?, Std.ExtTreeMap.contains_eq_isSome_getElem?,
    put_byMsgid]
  by_cases heq : message.msgid = some id
  · rw [if_pos heq]
    exact iff_of_true rfl (.inl heq)
  · rw [if_neg heq, or_iff_right heq]

theorem retention_insert (log : MessageLog) (message : ChatMessage) :
    (log.insert message).1.retention = log.retention := by
  cases h : log.holds message with
  | true => rw [insert_of_holds h]
  | false =>
      rw [insert_of_not_holds h]
      exact trim_retention _

theorem size_insert_le {log : MessageLog} {message : ChatMessage} (hid : message.msgid = none)
    (hroom : log.messages.size < log.retention) :
    (log.insert message).1.messages.size ≤ log.messages.size + 1 := by
  rw [messages_insert_of_room hid hroom]
  split
  · exact Nat.le_succ _
  · exact Std.ExtTreeMap.size_insert_le

theorem size_insertAll_le {log : MessageLog} {messages : List ChatMessage}
    (hid : ∀ message ∈ messages, message.msgid = none)
    (hroom : log.messages.size + messages.length ≤ log.retention) :
    (log.insertAll messages).messages.size ≤ log.messages.size + messages.length := by
  induction messages generalizing log with
  | nil => exact le_rfl
  | cons message messages ih =>
      rw [List.length_cons] at hroom ⊢
      have hone : (log.insert message).1.messages.size ≤ log.messages.size + 1 :=
        size_insert_le (hid message List.mem_cons_self) (by omega)
      have hrest : ((log.insert message).1.insertAll messages).messages.size ≤
          (log.insert message).1.messages.size + messages.length := by
        refine ih (fun other hother => hid other (List.mem_cons_of_mem _ hother)) ?_
        rw [retention_insert]
        omega
      show ((log.insert message).1.insertAll messages).messages.size ≤ _
      omega

/-- What a log that took one more message holds a twin of. -/
theorem hasTwin_insert {log : MessageLog} {message other : ChatMessage}
    (hid : message.msgid = none) (hroom : log.messages.size < log.retention)
    (htwin : log.hasTwin message = false) (hkey : message.key ∉ log.messages) :
    (log.insert message).1.hasTwin other = false ↔
      log.hasTwin other = false ∧ ¬ Repeats message other := by
  have hmessages : (log.insert message).1.messages = log.messages.insert message.key message := by
    rw [messages_insert_of_room hid hroom, htwin, if_neg Bool.false_ne_true]
  rw [Bool.eq_false_iff, Bool.eq_false_iff, ne_eq, ne_eq, hasTwin_iff, hasTwin_iff, hmessages]
  constructor
  · intro h
    refine ⟨?_, ?_⟩
    · intro hheld
      obtain ⟨held, hheld, hrepeats⟩ := hheld
      refine h ⟨held, ?_, hrepeats⟩
      rw [Std.ExtTreeMap.getElem?_insert, if_neg]
      · exact hheld
      · intro heq
        rw [Std.LawfulEqCmp.compare_eq_iff_eq] at heq
        rw [← heq] at hheld
        exact hkey (Std.ExtTreeMap.mem_iff_isSome_getElem?.mpr (Option.isSome_of_eq_some hheld))
    · intro hrepeats
      refine h ⟨message, ?_, hrepeats⟩
      rw [Std.ExtTreeMap.getElem?_insert, if_pos Std.ReflCmp.compare_self]
  · intro h hheld
    obtain ⟨held, hheld, hrepeats⟩ := hheld
    rw [Std.ExtTreeMap.getElem?_insert] at hheld
    split at hheld
    · rw [← Option.some.inj hheld] at hrepeats
      exact h.2 hrepeats
    · exact h.1 ⟨held, hheld, hrepeats⟩

theorem fits_cons {log : MessageLog} {message : ChatMessage} {messages : List ChatMessage}
    (hid : message.msgid = none) (hroom : log.messages.size < log.retention)
    (htwin : log.hasTwin message = false) (hkey : message.key ∉ log.messages) :
    Fits log (message :: messages) ↔ Fits (log.insert message).1 messages := by
  have hmem : ∀ key, key ∈ (log.insert message).1.messages ↔
      key = message.key ∨ key ∈ log.messages := by
    intro key
    rw [messages_insert_of_room hid hroom, htwin, if_neg Bool.false_ne_true,
      Std.ExtTreeMap.mem_insert, Std.LawfulEqCmp.compare_eq_iff_eq, eq_comm]
  constructor
  · intro h
    obtain ⟨hfirst, hrest⟩ := List.pairwise_cons.mp h.apart
    refine ⟨?_, ?_, hrest⟩
    · intro other hother
      rw [hasTwin_insert hid hroom htwin hkey]
      exact ⟨h.twins other (List.mem_cons_of_mem _ hother), (hfirst other hother).2⟩
    · intro other hother hheld
      rcases (hmem other.key).mp hheld with heq | hheld
      · exact (hfirst other hother).1 heq.symm
      · exact h.keys other (List.mem_cons_of_mem _ hother) hheld
  · intro h
    have htwins := fun other hother =>
      (hasTwin_insert hid hroom htwin hkey).mp (h.twins other hother)
    refine ⟨?_, ?_, List.pairwise_cons.mpr ⟨?_, h.apart⟩⟩
    · intro other hother
      rcases List.mem_cons.mp hother with heq | hother
      · rw [heq]
        exact htwin
      · exact (htwins other hother).1
    · intro other hother
      rcases List.mem_cons.mp hother with heq | hother
      · rw [heq]
        exact hkey
      · exact fun hheld => h.keys other hother ((hmem other.key).mpr (.inr hheld))
    · intro other hother
      refine ⟨?_, (htwins other hother).2⟩
      intro heq
      exact h.keys other hother ((hmem other.key).mpr (.inl heq.symm))

/-- **A log with room takes every message** exactly when they fit. -/
theorem length_insertAll_iff {log : MessageLog} {messages : List ChatMessage}
    (hid : ∀ message ∈ messages, message.msgid = none)
    (hroom : log.messages.size + messages.length ≤ log.retention) :
    (log.insertAll messages).messages.size = log.messages.size + messages.length ↔
      Fits log messages := by
  induction messages generalizing log with
  | nil =>
      refine iff_of_true rfl ⟨?_, ?_, List.Pairwise.nil⟩
      · intro message hmessage
        exact absurd hmessage List.not_mem_nil
      · intro message hmessage
        exact absurd hmessage List.not_mem_nil
  | cons message messages ih =>
      have hfirst : message.msgid = none := hid message List.mem_cons_self
      have hrest : ∀ other ∈ messages, other.msgid = none := fun other hother =>
        hid other (List.mem_cons_of_mem _ hother)
      rw [List.length_cons] at hroom ⊢
      have hone : log.messages.size < log.retention := by omega
      have hretention : (log.insert message).1.retention = log.retention :=
        log.retention_insert message
      -- a message that is dropped, or takes the place of another one, leaves a slot free for good
      have hshort : (log.insert message).1.messages.size = log.messages.size →
          (log.insertAll (message :: messages)).messages.size ≠
            log.messages.size + (messages.length + 1) := by
        intro hsame
        have hle := @size_insertAll_le (log.insert message).1 messages hrest (by omega)
        show ((log.insert message).1.insertAll messages).messages.size ≠ _
        omega
      cases htwin : log.hasTwin message with
      | true =>
          refine iff_of_false (hshort ?_) ?_
          · rw [messages_insert_of_room hfirst hone, htwin, if_pos rfl]
          · intro h
            have hnone := h.twins message List.mem_cons_self
            rw [htwin] at hnone
            cases hnone
      | false =>
          by_cases hkey : message.key ∈ log.messages
          · refine iff_of_false (hshort ?_) fun h => h.keys message List.mem_cons_self hkey
            rw [messages_insert_of_room hfirst hone, htwin, if_neg Bool.false_ne_true,
              Std.ExtTreeMap.size_insert, if_pos (Std.ExtTreeMap.contains_iff_mem.mpr hkey)]
          · have hsize : (log.insert message).1.messages.size = log.messages.size + 1 := by
              rw [messages_insert_of_room hfirst hone, htwin, if_neg Bool.false_ne_true,
                Std.ExtTreeMap.size_insert, if_neg (mt Std.ExtTreeMap.contains_iff_mem.mp hkey)]
            rw [fits_cons hfirst hone htwin hkey, ← ih hrest (by omega)]
            show ((log.insert message).1.insertAll messages).messages.size = _ ↔ _
            omega

end MessageLog

namespace Session

/-! ### The messages of such lines -/

/-- What a `PRIVMSG` says, and who says it. -/
def said (line : Message) : Str × MessageKind × Str :=
  (sender line, kindAndText "PRIVMSG" ((line.param 1).getD []))

/-- The messages that such lines carry, when they are folded one after the other. -/
def liveMessages (ctx : Context) : List Message → List ChatMessage
  | [] => []
  | line :: lines =>
      chatMessage ctx line "PRIVMSG" ::
        liveMessages (ctx.withModel (ctx.model.nextMessageKey (ctx.stamped line)).1) lines

/-- The numbers that the next messages get. -/
def nextSeqs (ctx : Context) (count : ℕ) : List ℕ :=
  List.iterate (fun seq => (seq + 1) % 2 ^ 64) ctx.model.nextSeq count

theorem stamped_of_untimed (ctx : Context) {line : Message} (htime : line.tag "time" = none) :
    ctx.stamped line = ctx.latestMs := by
  unfold Context.stamped
  rw [htime]
  rfl

/-- A message depends on little of what it is folded into. -/
theorem chatMessage_congr {ctx ctx' : Context} (hme : ctx'.model.me = ctx.model.me)
    (hseq : ctx'.model.nextSeq = ctx.model.nextSeq) (hisupport : ctx'.isupport = ctx.isupport)
    (hlatest : ctx'.latestMs = ctx.latestMs) (hhistorical : ctx'.historical = ctx.historical)
    (line : Message) (command : Str) :
    chatMessage ctx' line command = chatMessage ctx line command := by
  unfold chatMessage Model.nextMessageKey Context.stamped Context.isMe Context.casemapping
  rw [hme, hseq, hisupport, hlatest, hhistorical]

theorem liveMessages_congr {ctx ctx' : Context} (hme : ctx'.model.me = ctx.model.me)
    (hseq : ctx'.model.nextSeq = ctx.model.nextSeq) (hisupport : ctx'.isupport = ctx.isupport)
    (hlatest : ctx'.latestMs = ctx.latestMs) (hhistorical : ctx'.historical = ctx.historical)
    (lines : List Message) : liveMessages ctx' lines = liveMessages ctx lines := by
  induction lines generalizing ctx ctx' with
  | nil => rfl
  | cons line lines ih =>
      unfold liveMessages
      rw [chatMessage_congr hme hseq hisupport hlatest hhistorical]
      refine congrArg _ (ih hme ?_ hisupport hlatest hhistorical)
      show (ctx'.model.nextSeq + 1) % 2 ^ 64 = (ctx.model.nextSeq + 1) % 2 ^ 64
      rw [hseq]

theorem length_liveMessages (ctx : Context) (lines : List Message) :
    (liveMessages ctx lines).length = lines.length := by
  induction lines generalizing ctx with
  | nil => rfl
  | cons line lines ih => exact congrArg (· + 1) (ih _)

/-- The keys of such messages: the latest instant seen, and the next numbers. -/
theorem liveMessages_keys (ctx : Context) {lines : List Message}
    (htime : ∀ line ∈ lines, line.tag "time" = none) :
    (liveMessages ctx lines).map ChatMessage.key =
      (nextSeqs ctx lines.length).map fun seq => ⟨ctx.latestMs, seq⟩ := by
  induction lines generalizing ctx with
  | nil => rfl
  | cons line lines ih =>
      have hkey : (chatMessage ctx line "PRIVMSG").key = ⟨ctx.latestMs, ctx.model.nextSeq⟩ := by
        show (⟨ctx.stamped line, ctx.model.nextSeq⟩ : MessageKey) = _
        rw [stamped_of_untimed ctx (htime line List.mem_cons_self)]
      unfold liveMessages
      rw [List.map_cons, hkey, ih _ fun other hother => htime other (List.mem_cons_of_mem _ hother)]
      rfl

theorem liveMessages_said (ctx : Context) (lines : List Message) :
    (liveMessages ctx lines).map (fun message => (message.sender, message.kind, message.text)) =
      lines.map said := by
  induction lines generalizing ctx with
  | nil => rfl
  | cons line lines ih =>
      unfold liveMessages
      rw [List.map_cons, List.map_cons, ih]
      rfl

theorem liveMessages_msgid (ctx : Context) {lines : List Message}
    (hmsgid : ∀ line ∈ lines, line.tag "msgid" = none) :
    ∀ message ∈ liveMessages ctx lines, message.msgid = none := by
  induction lines generalizing ctx with
  | nil =>
      intro message hmessage
      exact absurd hmessage List.not_mem_nil
  | cons line lines ih =>
      intro message hmessage
      rcases List.mem_cons.mp hmessage with heq | hmessage
      · rw [heq]
        exact hmsgid line List.mem_cons_self
      · exact ih _ (fun other hother => hmsgid other (List.mem_cons_of_mem _ hother)) message
          hmessage

/-- True when none of these lines is said twice at one instant, or finds its number taken. -/
structure SaidApart (ctx : Context) (log : MessageLog) (lines : List Message) : Prop where
  twins : ∀ line ∈ lines, log.hasTwin (chatMessage ctx line "PRIVMSG") = false
  texts : ctx.latestMs < u64Max → (lines.map said).Nodup
  seqs : (nextSeqs ctx lines.length).Nodup
  keys : ∀ seq ∈ nextSeqs ctx lines.length, (⟨ctx.latestMs, seq⟩ : MessageKey) ∉ log.messages

/-- A log holds a twin of a message whatever its number is. -/
theorem hasTwin_congr {log : MessageLog} {a b : ChatMessage} (htime : a.key.timeMs = b.key.timeMs)
    (hsender : a.sender = b.sender) (htext : a.text = b.text) (hkind : a.kind = b.kind) :
    log.hasTwin a = log.hasTwin b := by
  unfold MessageLog.hasTwin
  rw [htime, hsender, htext, hkind]

/-- The log holds twins of such messages as it does of the lines' own. -/
theorem liveMessages_twins (ctx : Context) (log : MessageLog) (lines : List Message) :
    (liveMessages ctx lines).map log.hasTwin =
      lines.map fun line => log.hasTwin (chatMessage ctx line "PRIVMSG") := by
  -- the context moves on with every line, but for its clock
  have hmoved : ∀ ctx' : Context, ctx'.latestMs = ctx.latestMs →
      (liveMessages ctx' lines).map log.hasTwin =
        lines.map fun line => log.hasTwin (chatMessage ctx line "PRIVMSG") := by
    induction lines with
    | nil =>
        intro _ _
        rfl
    | cons line lines ih =>
        intro ctx' hlatest
        unfold liveMessages
        rw [List.map_cons, List.map_cons]
        have hstamped : ctx'.stamped line = ctx.stamped line := by
          unfold Context.stamped
          rw [hlatest]
        have htwin : log.hasTwin (chatMessage ctx' line "PRIVMSG") =
            log.hasTwin (chatMessage ctx line "PRIVMSG") := hasTwin_congr hstamped rfl rfl rfl
        rw [htwin]
        exact congrArg _ (ih _ hlatest)
  exact hmoved ctx rfl

/-- The messages of such lines fit exactly when the lines are said apart. -/
theorem fits_liveMessages_iff (ctx : Context) (log : MessageLog) {lines : List Message}
    (htime : ∀ line ∈ lines, line.tag "time" = none) :
    log.Fits (liveMessages ctx lines) ↔ SaidApart ctx log lines := by
  have hkeys := liveMessages_keys ctx htime
  have hsaid := liveMessages_said ctx lines
  have hinstant : ∀ message ∈ liveMessages ctx lines, message.key.timeMs = ctx.latestMs := by
    intro message hmessage
    have hkey := List.mem_map_of_mem hmessage (f := ChatMessage.key)
    rw [hkeys] at hkey
    obtain ⟨seq, -, hseq⟩ := List.mem_map.mp hkey
    rw [← hseq]
  have htwins : (∀ message ∈ liveMessages ctx lines, log.hasTwin message = false) ↔
      ∀ line ∈ lines, log.hasTwin (chatMessage ctx line "PRIVMSG") = false := by
    have hmap := liveMessages_twins ctx log lines
    constructor
    · intro h line hline
      have hmem := List.mem_map_of_mem hline (f := fun line =>
        log.hasTwin (chatMessage ctx line "PRIVMSG"))
      rw [← hmap] at hmem
      obtain ⟨message, hmessage, heq⟩ := List.mem_map.mp hmem
      rw [← heq]
      exact h message hmessage
    · intro h message hmessage
      have hmem := List.mem_map_of_mem hmessage (f := log.hasTwin)
      rw [hmap] at hmem
      obtain ⟨line, hline, heq⟩ := List.mem_map.mp hmem
      rw [← heq]
      exact h line hline
  have hseqs : ((liveMessages ctx lines).map ChatMessage.key).Nodup ↔
      (nextSeqs ctx lines.length).Nodup := by
    rw [hkeys]
    refine List.nodup_map_iff ?_
    intro seq seq' heq
    exact (MessageKey.mk.inj heq).2
  have htexts : ((liveMessages ctx lines).Pairwise fun a b => ¬ MessageLog.Repeats a b) ↔
      (ctx.latestMs < u64Max → (lines.map said).Nodup) := by
    rw [← hsaid]
    unfold List.Nodup
    rw [List.pairwise_map]
    constructor
    · intro h hlast
      refine h.imp_of_mem ?_
      intro a b ha hb hnot heq
      obtain ⟨hsender, hrest⟩ := Prod.mk.inj heq
      obtain ⟨hkind, htext⟩ := Prod.mk.inj hrest
      refine hnot ⟨?_, (hinstant a ha).trans (hinstant b hb).symm, hsender, htext, hkind⟩
      rw [hinstant b hb]
      exact hlast
    · intro h
      by_cases hlast : ctx.latestMs < u64Max
      · refine (h hlast).imp ?_
        intro a b hne hrepeats
        obtain ⟨-, -, hsender, htext, hkind⟩ := hrepeats
        exact hne (Prod.ext hsender (Prod.ext hkind htext))
      · rw [List.pairwise_iff_forall_sublist]
        intro a b hsub hrepeats
        have hb : b ∈ liveMessages ctx lines := hsub.subset (by simp)
        exact hlast ((hinstant b hb) ▸ hrepeats.1)
  have hheld : (∀ message ∈ liveMessages ctx lines, message.key ∉ log.messages) ↔
      ∀ seq ∈ nextSeqs ctx lines.length, (⟨ctx.latestMs, seq⟩ : MessageKey) ∉ log.messages := by
    constructor
    · intro h seq hseq
      have hmem := List.mem_map_of_mem hseq (f := fun seq => (⟨ctx.latestMs, seq⟩ : MessageKey))
      rw [← hkeys] at hmem
      obtain ⟨message, hmessage, heq⟩ := List.mem_map.mp hmem
      rw [← heq]
      exact h message hmessage
    · intro h message hmessage
      have hmem := List.mem_map_of_mem hmessage (f := ChatMessage.key)
      rw [hkeys] at hmem
      obtain ⟨seq, hseq, heq⟩ := List.mem_map.mp hmem
      rw [← heq]
      exact h seq hseq
  constructor
  · intro h
    refine ⟨htwins.mp h.twins, htexts.mp (h.apart.imp fun hab => hab.2), hseqs.mp ?_,
      hheld.mp h.keys⟩
    unfold List.Nodup
    rw [List.pairwise_map]
    exact h.apart.imp fun hab => hab.1
  · intro h
    refine ⟨htwins.mpr h.twins, hheld.mpr h.keys, ?_⟩
    have hnodup := hseqs.mpr h.seqs
    unfold List.Nodup at hnodup
    rw [List.pairwise_map] at hnodup
    exact hnodup.and (htexts.mpr h.texts)

end Session

namespace Client

open Session

variable [Primitives]

/-! ### The client -/

/-- A live `PRIVMSG` that is filed in this place and carries neither an id nor a time. -/
structure LiveAt (c : Client) (place : Place) (line : Message) : Prop where
  command : line.is "PRIVMSG" = true
  msgid : line.tag "msgid" = none
  time : line.tag "time" = none
  unbatched : c.batches.route line = none
  target : ∃ target, line.param 0 = some target ∧ placeOf (c.context false) line target = place

/-- A line that is said is filed where its target says. -/
theorem apply_said (c : Client) {line : Message} {target : Str}
    (hcommand : line.is "PRIVMSG" = true)
    (htarget : line.param 0 = some target) :
    apply (c.context false) line = file (c.context false) line "PRIVMSG" target := by
  have hupper : toAsciiUppercase line.command = "PRIVMSG" := toAsciiUppercase_of_eq hcommand
  rw [apply_of_isMessage _ (by rw [hupper]; decide), hupper]
  unfold message
  rw [htarget]
  dsimp only
  rw [if_neg (by decide)]

/-- Outside a batch, it is folded right away. -/
theorem handleMessage_said {c : Client} {line : Message} (hcommand : line.is "PRIVMSG" = true)
    (hunbatched : c.batches.route line = none) :
    c.handleMessage line = (c.noted line).fold line false := by
  have hclaims : claims line = false := claims_of_command hcommand (by decide) (by decide)
  have hbatch : line.is "BATCH" = false := is_eq_false hcommand (by decide)
  rw [handleMessage_eq, dispatch_of_not_claims _ hclaims, hbatch, if_neg Bool.false_ne_true]
  unfold handleOther
  rw [show (c.noted line).batches.route line = none from hunbatched]

/-- **One such line** is filed, and changes nothing that the next one depends on. -/
theorem handleMessage_live {c : Client} {place : Place} {line : Message} (h : LiveAt c place line) :
    (c.handleMessage line).isupport = c.isupport ∧
      (c.handleMessage line).batches = c.batches ∧
      (c.handleMessage line).latestMs = c.latestMs ∧
      (c.handleMessage line).model.me = c.model.me ∧
      (c.handleMessage line).model.nextSeq = (c.model.nextSeq + 1) % 2 ^ 64 ∧
      (c.handleMessage line).model.logAt place =
        (c.model.logAt place).map fun log =>
          (log.insert (chatMessage (c.context false) line "PRIVMSG")).1 := by
  obtain ⟨target, htarget, hplace⟩ := h.target
  obtain ⟨-, hme, hseq, hlatest⟩ := file_rest (c.context false) line "PRIVMSG" target
  have hstamped : (c.context false).stamped line = c.latestMs := stamped_of_untimed _ h.time
  rw [handleMessage_said h.command h.unbatched, fold_eq]
  rw [show (c.noted line).context false = c.context false from rfl, c.apply_said h.command htarget]
  refine ⟨rfl, rfl, ?_, hme, hseq, ?_⟩
  · show (file (c.context false) line "PRIVMSG" target).1.latestMs = _
    rw [hlatest, hstamped]
    exact Nat.max_self _
  · show (file (c.context false) line "PRIVMSG" target).1.model.logAt place = _
    rw [logAt_file, if_pos hplace.symm]
    rfl

omit [Primitives] in
/-- The place of a line depends on little of the client. -/
theorem placeOf_congr {c d : Client} (hisupport : d.isupport = c.isupport)
    (hme : d.model.me = c.model.me) (line : Message) (target : Str) :
    placeOf (d.context false) line target = placeOf (c.context false) line target := by
  unfold placeOf filedUnder filesInChannel addressee Context.isMe Context.casemapping Context.fold
    context
  dsimp only
  rw [hisupport, hme]

omit [Primitives] in
theorem LiveAt.after {c d : Client} {place : Place} {line : Message} (h : LiveAt c place line)
    (hisupport : d.isupport = c.isupport) (hbatches : d.batches = c.batches)
    (hme : d.model.me = c.model.me) : LiveAt d place line := by
  refine ⟨h.command, h.msgid, h.time, ?_, ?_⟩
  · rw [hbatches]
    exact h.unbatched
  · obtain ⟨target, htarget, hplace⟩ := h.target
    exact ⟨target, htarget, (placeOf_congr hisupport hme line target).trans hplace⟩

/-- **Such lines, one after the other.** -/
theorem logAt_handleMessages {c : Client} {place : Place} {lines : List Message}
    (h : ∀ line ∈ lines, LiveAt c place line) :
    (lines.foldl handleMessage c).model.logAt place =
      (c.model.logAt place).map fun log =>
        log.insertAll (liveMessages (c.context false) lines) := by
  induction lines generalizing c with
  | nil =>
      show c.model.logAt place = (c.model.logAt place).map id
      rw [Option.map_id]
      rfl
  | cons line lines ih =>
      obtain ⟨hisupport, hbatches, hlatest, hme, hseq, hlog⟩ :=
        handleMessage_live (h line List.mem_cons_self)
      have hrest : ∀ other ∈ lines, LiveAt (c.handleMessage line) place other := fun other hother =>
        (h other (List.mem_cons_of_mem _ hother)).after hisupport hbatches hme
      have hmessages : liveMessages ((c.handleMessage line).context false) lines =
          liveMessages ((c.context false).withModel
            (c.model.nextMessageKey ((c.context false).stamped line)).1) lines := by
        refine liveMessages_congr ?_ ?_ ?_ ?_ ?_ lines
        · exact hme
        · exact hseq
        · exact hisupport
        · exact hlatest
        · rfl
      rw [List.foldl_cons, ih hrest, hlog, Option.map_map, hmessages]
      rfl

/-- **When no live message is lost.**  A log with room for them grows by as many messages as there
are lines, exactly when the lines are said apart. -/
theorem log_grows_iff (c : Client) (place : Place) (log : MessageLog) (lines : List Message)
    (hlog : c.model.logAt place = some log)
    (hroom : log.iter.length + lines.length ≤ log.retention)
    (hlive : ∀ line ∈ lines, LiveAt c place line) :
    ((lines.foldl handleMessage c).model.logAt place).map (fun after => after.iter.length) =
        some (log.iter.length + lines.length) ↔
      SaidApart (c.context false) log lines := by
  rw [MessageLog.length_iter] at hroom
  have hid : ∀ message ∈ liveMessages (c.context false) lines, message.msgid = none :=
    liveMessages_msgid _ fun line hline => (hlive line hline).msgid
  rw [logAt_handleMessages hlive, hlog, Option.map_map, Option.map_some, Option.some.injEq]
  show (log.insertAll _).iter.length = _ ↔ _
  rw [MessageLog.length_iter, MessageLog.length_iter,
    ← fits_liveMessages_iff (c.context false) log fun line hline => (hlive line hline).time]
  rw [← MessageLog.length_insertAll_iff hid (by rw [length_liveMessages]; exact hroom),
    length_liveMessages]

/-- A line that somebody says in a channel. -/
def channelLine (who text : Str) : Message := ⟨[], some ⟨who, none, none⟩, "PRIVMSG", ["#a", text]⟩

omit [Primitives] in
/-- Two lines of one person in a channel we are in. -/
theorem log_grows_two : letI := Primitives.ascii
    let c := (new (.new "me")).run [.connected, .bytes (Utf8.encode
      ":s 001 me :hi\n:me!u@h JOIN #a\n")]
    (([channelLine "bob" "one", channelLine "bob" "two"].foldl handleMessage c).model.logAt
      (.channel ⟨"#a"⟩)).map (fun after => after.iter.length) = some 2 := by
  let _ := Primitives.ascii
  intro c
  refine (log_grows_iff c (.channel ⟨"#a"⟩) (.withRetention 5000)
    [channelLine "bob" "one", channelLine "bob" "two"]
      (by decide +kernel) (by decide +kernel) ?_).mpr ?_
  · intro line hline
    rcases List.mem_pair.mp hline with rfl | rfl
    · exact ⟨by decide, by decide, by decide, by decide +kernel, "#a", rfl, by decide +kernel⟩
    · exact ⟨by decide, by decide, by decide, by decide +kernel, "#a", rfl, by decide +kernel⟩
  · exact ⟨by decide +kernel, fun _ => by decide +kernel, by decide +kernel, by decide +kernel⟩

omit [Primitives] in
/-- **Saying it twice at one instant is heard once.** -/
theorem twice_heard_once : letI := Primitives.ascii
    let c := (new (.new "me")).run [.connected, .bytes (Utf8.encode
      ":s 001 me :hi\n:me!u@h JOIN #a\n")]
    let lines := [channelLine "bob" "ok", channelLine "bob" "ok"]
    c.Reachable ∧ c.model.logAt (.channel ⟨"#a"⟩) = some (.withRetention 5000) ∧
      (∀ line ∈ lines, LiveAt c (.channel ⟨"#a"⟩) line) ∧
      ((lines.foldl handleMessage c).model.logAt (.channel ⟨"#a"⟩)).map
        (fun after => after.iter.length) = some 1 := by
  let _ := Primitives.ascii
  intro c lines
  refine ⟨⟨_, _, rfl⟩, by decide +kernel, ?_, by decide +kernel⟩
  intro line hline
  have heq : line = channelLine "bob" "ok" := by
    rcases List.mem_pair.mp hline with heq | heq
    · exact heq
    · exact heq
  rw [heq]
  exact ⟨by decide, by decide, by decide, by decide +kernel, "#a", rfl, by decide +kernel⟩

end Client

end ObbyClient

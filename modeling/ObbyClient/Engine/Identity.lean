import ObbyClient.Engine.Logs

/-!
# One number, one message

Each message that is filed takes the next number.  Numbers come round again after 2 ^ 64 of them;
until then a number names one message, wherever that is moved and whatever is attached to it.

* `Model.shelf` — the messages of a model in their places, and the numbers it gave out;
* `Model.Recorded` — what the lines of a run may come to;
* `Client.run_messages` — the messages of any two moments of a run.
-/

namespace ObbyClient

open Records

/-- The number of a message. -/
def ChatMessage.serial (message : ChatMessage) : ℕ := message.key.seq

theorem ChatMessage.Revised.serial {a b : ChatMessage} (h : a.Revised b) : b.serial = a.serial :=
  congrArg MessageKey.seq h.key

namespace Model

/-- A message stands in a log. -/
def HoldsAt (model : Model) (place : Place) (message : ChatMessage) : Prop :=
  ∃ log, model.logAt place = some log ∧ message ∈ log.iter

/-- What stands where, and the numbers given out. -/
def shelf (model : Model) : Shelf (Place × MessageKey) ChatMessage ℕ where
  held slot := (model.logAt slot.1).bind fun log => log.getByKey slot.2
  given := {n | n < model.nextSeq}

/-- Every log finds exactly its own messages by their ids. -/
def Indexed (model : Model) : Prop := ∀ place log, model.logAt place = some log → log.Indexed

variable {model : Model}

theorem held_eq_some {place : Place} {key : MessageKey} {message : ChatMessage} :
    model.shelf.held (place, key) = some message ↔
      ∃ log, model.logAt place = some log ∧ log.getByKey key = some message :=
        Option.bind_eq_some_iff

theorem holdsAt_iff {place : Place} {message : ChatMessage} :
    model.HoldsAt place message ↔ model.shelf.held (place, message.key) = some message := by
  rw [held_eq_some]
  simp only [HoldsAt, MessageLog.mem_iter, MessageLog.getByKey]

theorem key_of_held {place : Place} {key : MessageKey} {message : ChatMessage}
    (h : model.shelf.held (place, key) = some message) : message.key = key := by
  obtain ⟨log, -, hmessage⟩ := held_eq_some.mp h
  exact log.keyed key message hmessage

/-! ### One line -/

/-- A line that files nothing. -/
theorem Keeps.follows {before after : Model} (hsound : Sound ChatMessage.serial before.shelf)
    (h : Keeps before after) :
      Follows ChatMessage.serial ChatMessage.Revised before.shelf after.shelf := by
  obtain ⟨origin, hinjective, horigin⟩ := h.logs
  refine Follows.of_origin (fun h => h.serial) hsound ?_ (hinjective.prodMap Function.injective_id)
    ?_
  · intro n hn
    show n < after.nextSeq
    rw [h.nextSeq]
    exact hn
  · rintro ⟨place, key⟩ message hmessage
    obtain ⟨log, hlog, hheld⟩ := held_eq_some.mp hmessage
    obtain ⟨old, hold, hamends⟩ := horigin place log hlog
    obtain ⟨earlier, hearlier, hrevised⟩ := hamends.held key message hheld
    obtain rfl | hold := hold
    · simp [MessageLog.withRetention, MessageLog.getByKey] at hearlier
    · exact ⟨earlier, held_eq_some.mpr ⟨old, hold, hearlier⟩, hrevised⟩

theorem Keeps.indexed {before after : Model} (h : Keeps before after) (hindexed : before.Indexed) :
    after.Indexed := by
  obtain ⟨origin, -, horigin⟩ := h.logs
  intro place log hlog
  obtain ⟨old, hold, hamends⟩ := horigin place log hlog
  obtain rfl | hold := hold
  · exact hamends.indexed (MessageLog.indexed_withRetention _)
  · exact hamends.indexed (hindexed _ old hold)

theorem getByKey_insert {log : MessageLog} {message found : ChatMessage} {key : MessageKey}
    (h : (log.insert message).1.getByKey key = some found) :
    (key = message.key ∧ found = message) ∨ log.getByKey key = some found := by
  cases hholds : log.holds message with
  | true =>
    rw [MessageLog.insert_of_holds hholds] at h
    exact Or.inr h
  | false =>
    rw [MessageLog.insert_of_not_holds hholds] at h
    simp only [MessageLog.getByKey, MessageLog.trim_messages, TopKeys.getElem?_top] at h
    split at h
    · rw [MessageLog.put_messages] at h
      split at h
      · rename_i heq
        exact Or.inl ⟨heq.symm, (Option.some.inj h).symm⟩
      · exact Or.inr h
    · cases h

section File

variable (ctx : Session.Context) (line : Message) (command target : Str) [Primitives]

omit [Primitives] in
/-- A message that is filed has the next number. -/
theorem serial_chatMessage : (Session.chatMessage ctx line command).serial = ctx.model.nextSeq := by
  simp only [Session.chatMessage, ChatMessage.serial, ChatMessage.new, nextMessageKey]

theorem nextSeq_file (hroom : ctx.model.nextSeq + 1 < 2 ^ 64) :
    (Session.file ctx line command target).1.model.nextSeq = ctx.model.nextSeq + 1 := by
  rw [(Session.file_rest ctx line command target).2.2.1, Nat.mod_eq_of_lt hroom]

/-- **A message that is filed** stands in one place, under a number that was not given before. -/
theorem file_follows (hsound : Sound ChatMessage.serial ctx.model.shelf)
    (hroom : ctx.model.nextSeq + 1 < 2 ^ 64) :
    Follows ChatMessage.serial ChatMessage.Revised ctx.model.shelf
      (Session.file ctx line command target).1.model.shelf := by
  have hserial := serial_chatMessage ctx line command
  have hnext := nextSeq_file ctx line command target hroom
  refine Follows.of_new (i := (Session.placeOf ctx line target,
    (Session.chatMessage ctx line command).key))
    (a := Session.chatMessage ctx line command) ChatMessage.Revised.refl hsound ?_ ?_ ?_ ?_
  · intro n (hn : n < ctx.model.nextSeq)
    show n < (Session.file ctx line command target).1.model.nextSeq
    omega
  · show ¬ (Session.chatMessage ctx line command).serial < ctx.model.nextSeq
    omega
  · show (Session.chatMessage ctx line command).serial <
      (Session.file ctx line command target).1.model.nextSeq
    omega
  · rintro ⟨place, key⟩ message hmessage
    obtain ⟨log, hlog, hheld⟩ := held_eq_some.mp hmessage
    rw [Session.logAt_file] at hlog
    split at hlog
    · rename_i hplace
      obtain ⟨old, hold, rfl⟩ := Option.map_eq_some_iff.mp hlog
      obtain ⟨rfl, rfl⟩ | hheld := getByKey_insert hheld
      · exact Or.inl ⟨Prod.ext hplace rfl, rfl⟩
      · exact Or.inr (held_eq_some.mpr ⟨old, hold, hheld⟩)
    · exact Or.inr (held_eq_some.mpr ⟨log, hlog, hheld⟩)

theorem file_indexed (hsound : Sound ChatMessage.serial ctx.model.shelf)
    (hindexed : ctx.model.Indexed) :
    (Session.file ctx line command target).1.model.Indexed := by
  intro place log hlog
  rw [Session.logAt_file] at hlog
  split at hlog
  · obtain ⟨old, hold, rfl⟩ := Option.map_eq_some_iff.mp hlog
    have hold' := hindexed place old hold
    cases hholds : old.holds (Session.chatMessage ctx line command) with
    | true =>
      rw [MessageLog.insert_of_holds hholds]
      exact hold'
    | false =>
      rw [MessageLog.insert_of_not_holds hholds]
      refine MessageLog.trim_indexed (MessageLog.put_indexed hold' ?_ ?_)
      · intro id hid
        by_contra hnone
        have hheld := (MessageLog.holds_eq_true_of_msgid hid).mpr
          (Option.isSome_iff_ne_none.mpr hnone)
        rw [hholds] at hheld
        exact absurd hheld Bool.false_ne_true
      · intro held hheld
        -- the number of the new message is not given yet, so nothing stands under its key
        have hgiven : held.serial < ctx.model.nextSeq :=
          hsound.given (i := (place, _)) (held_eq_some.mpr ⟨old, hold, hheld⟩)
        have hkey : held.key = (Session.chatMessage ctx line command).key := old.keyed _ held hheld
        have hserial := serial_chatMessage ctx line command
        unfold ChatMessage.serial at hgiven hserial
        rw [hkey] at hgiven
        omega
  · exact hindexed place log hlog

end File

/-- How a model stands to an earlier one. -/
structure Outlasts (earlier later : Model) : Prop where
  /-- A number names one message, in one place. -/
  apart : ∀ {place place' message message'}, later.HoldsAt place message →
    later.HoldsAt place' message' →
    message'.serial = message.serial → place' = place ∧ message' = message
  /-- It names the message that it named before, revised. -/
  revised : ∀ {place place' message message'}, earlier.HoldsAt place message →
    later.HoldsAt place' message' →
    message'.serial = message.serial → message.Revised message'
  /-- A message that is gone does not come back under its number, nor does another. -/
  gone : ∀ {n}, n < earlier.nextSeq →
    (∀ place message, earlier.HoldsAt place message → message.serial ≠ n) →
    ∀ place message, later.HoldsAt place message → message.serial ≠ n
  /-- Looking a message up by its id finds it, and nothing else. -/
  found : ∀ {place log id message}, later.logAt place = some log →
    (log.get id = some message ↔ message ∈ log.iter ∧ message.msgid = some id)

/-! ### Any number of lines -/

/-- What a model may come to that files so many messages at most. -/
structure Recorded (start : Model) (count : ℕ) (now : Model) : Prop where
  nextSeq : now.nextSeq ≤ start.nextSeq + count
  follows : start.nextSeq + count < 2 ^ 64 →
    Follows ChatMessage.serial ChatMessage.Revised start.shelf now.shelf
  indexed : start.nextSeq + count < 2 ^ 64 → now.Indexed

namespace Recorded

variable {start now : Model} {count : ℕ}

theorem refl (hsound : Sound ChatMessage.serial start.shelf) (hindexed : start.Indexed) :
    Recorded start 0 start where
  nextSeq := le_rfl
  follows _ := Follows.of_origin (fun h => h.serial) hsound subset_rfl Function.injective_id
    fun _ message h => ⟨message, h, .refl message⟩
  indexed _ := hindexed

theorem mono (h : Recorded start count now) {more : ℕ} (hle : count ≤ more) :
    Recorded start more now where
  nextSeq := h.nextSeq.trans (Nat.add_le_add_left hle _)
  follows hroom := h.follows (lt_of_le_of_lt (Nat.add_le_add_left hle _) hroom)
  indexed hroom := h.indexed (lt_of_le_of_lt (Nat.add_le_add_left hle _) hroom)

variable (hsound : Sound ChatMessage.serial start.shelf)
include hsound

theorem keeps (h : Recorded start count now) {after : Model} (hkeeps : Keeps now after) :
    Recorded start count after where
  nextSeq := hkeeps.nextSeq.trans_le h.nextSeq
  follows hroom := by
    have hnow := (h.follows hroom).sound (fun h => h.serial) hsound
    exact (h.follows hroom).trans (fun h => h.serial) ChatMessage.Revised.trans
      (hkeeps.follows hnow)
  indexed hroom := hkeeps.indexed (h.indexed hroom)

/-- **One line more.** -/
theorem apply [Primitives] {ctx : Session.Context} (h : Recorded start count ctx.model)
    (line : Message) :
    Recorded start (count + 1) (Session.apply ctx line).1.model := by
  obtain hkeeps | ⟨command, target, hfile⟩ := Session.apply_keeps ctx line
  · exact (h.keeps hsound hkeeps).mono (Nat.le_succ _)
  · rw [hfile]
    have hseq := h.nextSeq
    have hnow : start.nextSeq + (count + 1) < 2 ^ 64 →
        Sound ChatMessage.serial ctx.model.shelf := by
      intro hroom
      exact (h.follows (by omega)).sound (fun h => h.serial) hsound
    refine ⟨?_, fun hroom => ?_, fun hroom => ?_⟩
    · rw [(Session.file_rest ctx line command target).2.2.1]
      exact (Nat.mod_le _ _).trans (by omega)
    · exact (h.follows (by omega)).trans (fun h => h.serial) ChatMessage.Revised.trans
        (file_follows ctx line command target (hnow hroom) (by omega))
    · exact file_indexed ctx line command target (hnow hroom) (h.indexed (by omega))

end Recorded

end Model

namespace Client

open Model

/-! ### Any run -/

section Run

variable {start : Model} (hsound : Sound ChatMessage.serial start.shelf)

include hsound in
/-- What a run comes to. -/
theorem run_recorded [Primitives] {count : ℕ} {c : Client} (h : Recorded start count c.model)
    (inputs : List Input) :
    Recorded start (count + c.runFiles inputs) (c.run inputs).model := by
  have habides : Abides (Recorded start) := by
    refine ⟨?_, ?_, ?_⟩
    · intro _ _ _ hle h
      exact h.mono hle
    · intro _ _ _ hkeeps _ h
      exact h.keeps hsound hkeeps
    · intro _ ctx line h
      exact h.apply hsound line
  exact habides.run h inputs

theorem sound_new (config : Config) : Sound ChatMessage.serial (new config).model.shelf := by
  have hnone : ∀ slot message, (new config).model.shelf.held slot ≠ some message := by
    rintro ⟨place, key⟩ message h
    obtain ⟨log, hlog, hmessage⟩ := held_eq_some.mp h
    rw [logAt_new hlog] at hmessage
    simp [MessageLog.getByKey, MessageLog.withRetention] at hmessage
  exact ⟨fun h => absurd h (hnone _ _), fun h _ _ => absurd h (hnone _ _)⟩

theorem indexed_new (config : Config) : (new config).model.Indexed := by
  intro place log hlog
  rw [logAt_new hlog]
  exact MessageLog.indexed_withRetention _

end Run

/-! ### Two moments of a run -/

/-- **One number, one message**, in every run that files fewer than 2 ^ 64 of them: through every
rename, reaction and redaction, and after it is dropped. -/
theorem run_messages [Primitives] (config : Config) (before after : List Input)
    (hfiles : (new config).runFiles (before ++ after) < 2 ^ 64) :
    Outlasts ((new config).run before).model ((new config).run (before ++ after)).model := by
  have hnew := sound_new config
  have hsplit : (new config).runFiles (before ++ after) =
      (new config).runFiles before + ((new config).run before).runFiles after := by
    unfold runFiles
    rw [deeds_append, List.map_append, List.sum_append]
  have hstart : (new config).model.nextSeq = 0 := rfl
  have hbefore := run_recorded hnew (Recorded.refl hnew (indexed_new config)) before
  have hfollows := hbefore.follows (by omega)
  have hearlier := hfollows.sound (fun h => h.serial) hnew
  have hseq := hbefore.nextSeq
  have hlater := run_recorded hearlier (Recorded.refl hearlier (hbefore.indexed (by omega))) after
  rw [run_append]
  have hroom : ((new config).run before).model.nextSeq +
      (0 + ((new config).run before).runFiles after) < 2 ^ 64 := by
    omega
  have hgoes := hlater.follows hroom
  have hsound := hgoes.sound (fun h => h.serial) hearlier
  refine ⟨?_, ?_, ?_, ?_⟩
  · intro place place' message message' h h' heq
    rw [holdsAt_iff] at h h'
    have hslot := hsound.apart h' h heq
    obtain ⟨rfl, hkey⟩ := Prod.mk.inj hslot
    rw [hkey, h] at h'
    exact ⟨rfl, (Option.some.inj h').symm⟩
  · intro place place' message message' h h' heq
    rw [holdsAt_iff] at h h'
    exact hgoes.revised (fun h => h.serial) hearlier h h' heq
  · intro n hn hnone place message h
    rw [holdsAt_iff] at h
    refine hgoes.gone (fun h => h.serial) hn ?_ h
    rintro ⟨place, key⟩ held hheld
    obtain rfl := key_of_held hheld
    exact hnone place held (holdsAt_iff.mpr hheld)
  · intro place log id message hlog
    exact MessageLog.get_eq_some (hlater.indexed hroom place log hlog)

/-- Somebody speaks in a channel that we are in. -/
def chatter : List Input :=
  [.connected, .bytes (Utf8.encode ":me!u@h JOIN #a\n@msgid=x :bob!u@h PRIVMSG #a :hi\n")]

/-- It is struck out, and the channel renamed. -/
def struckOut : List Input := [.bytes (Utf8.encode ":s REDACT #a x\n:s RENAME #a #b :\n")]

/-- What was said in one channel is found in another, as it was said, and struck out. -/
theorem run_messages_renamed : letI := Primitives.ascii
    ∃ message message', ((new (.new "me")).run chatter).model.HoldsAt (.channel ⟨"#a"⟩) message ∧
      ((new (.new "me")).run (chatter ++ struckOut)).model.HoldsAt (.channel ⟨"#b"⟩) message' ∧
      message.text = "hi" ∧ message'.redacted = true ∧ message.Revised message' := by
  let _ := Primitives.ascii
  have hsaid : (((new (.new "me")).run chatter).model.logAt (.channel ⟨"#a"⟩)).map MessageLog.iter =
      some [{ ChatMessage.new ⟨0, 0⟩ "bob" .privmsg with msgid := some "x", text := "hi" }] := by
        decide +kernel
  have hstruck : (((new (.new "me")).run (chatter ++ struckOut)).model.logAt (.channel ⟨"#b"⟩)).map
    MessageLog.iter =
      some [{ ChatMessage.new ⟨0, 0⟩ "bob" .privmsg with
        msgid := some "x", text := "hi", redacted := true }] := by
    decide +kernel
  obtain ⟨log, hlog, hiter⟩ := Option.map_eq_some_iff.mp hsaid
  obtain ⟨log', hlog', hiter'⟩ := Option.map_eq_some_iff.mp hstruck
  have hheld : ((new (.new "me")).run chatter).model.HoldsAt (.channel ⟨"#a"⟩) _ :=
    ⟨log, hlog, hiter ▸ List.mem_singleton_self _⟩
  have hheld' : ((new (.new "me")).run (chatter ++ struckOut)).model.HoldsAt (.channel ⟨"#b"⟩) _ :=
    ⟨log', hlog', hiter' ▸ List.mem_singleton_self _⟩
  exact ⟨_, _, hheld, hheld', rfl, rfl,
    (run_messages (.new "me") chatter struckOut (by decide +kernel)).revised
    hheld hheld' rfl⟩

end Client

end ObbyClient

import ObbyClient.Engine.Effects
import ObbyClient.Engine.Filing
import ObbyClient.Proto.RoundTrip

/-!
# What a command puts on the wire

* `Client.outgoing` — the messages the engine builds for a command, and `Client.command_outbox`:
  they are what the outbox gains, one entry each;
* `Client.SentWhole` — an entry that is one line and reads back as its message;
* `Client.Clean` — the commands all of whose entries are sent whole: `Client.command_sends_iff`.
-/

namespace ObbyClient

/-! ### Parameters that fit -/

/-- Parameters that stay apart on the wire: none holds a line break, and all but the last are not
empty, free of spaces and not behind a colon. -/
def Fits (params : List Str) : Prop :=
  (∀ param ∈ params, NoCrLf param) ∧ ∀ param ∈ params.dropLast, Message.Middle param

instance (params : List Str) : Decidable (Fits params) := inferInstanceAs (Decidable (_ ∧ _))

theorem fits_singleton {param : Str} : Fits [param] ↔ NoCrLf param := by
  simp [Fits]

theorem fits_cons_cons {param next : Str} {rest : List Str} :
    Fits (param :: next :: rest) ↔
      (NoCrLf param ∧ Message.Middle param) ∧ Fits (next :: rest) := by
  constructor
  · rintro ⟨hparams, hmiddle⟩
    rw [List.dropLast_cons_cons, List.forall_mem_cons] at hmiddle
    exact ⟨⟨hparams param List.mem_cons_self, hmiddle.1⟩,
      fun p hp => hparams p (List.mem_cons_of_mem _ hp), hmiddle.2⟩
  · rintro ⟨⟨hparam, hmiddle⟩, hrest, hmiddles⟩
    refine ⟨List.forall_mem_cons.mpr ⟨hparam, hrest⟩, ?_⟩
    rw [List.dropLast_cons_cons]
    exact List.forall_mem_cons.mpr ⟨hmiddle, hmiddles⟩

/-- A parameter that is fit for any place takes nothing from the others. -/
theorem fits_cons {param : Str} {rest : List Str} (h : NoCrLf param ∧ Message.Middle param) :
    Fits (param :: rest) ↔ Fits rest := by
  cases rest with
  | nil => exact iff_of_true (fits_singleton.mpr h.1) ⟨by simp, by simp⟩
  | cons next rest => rw [fits_cons_cons, and_iff_right h]

theorem noCrLf_natToStr (n : ℕ) : NoCrLf (natToStr n) := by
  constructor <;>
  · intro h
    exact absurd (Nat.isDigit_of_mem_toDigits (by decide) (by decide) h) (by decide)

theorem noCrLf_padZeros {width : ℕ} {s : Str} (h : NoCrLf s) : NoCrLf (padZeros width s) := by
  rw [padZeros, noCrLf_append]
  refine ⟨⟨fun hc => ?_, fun hc => ?_⟩, h⟩
  · exact absurd (List.eq_of_mem_replicate hc) (by decide)
  · exact absurd (List.eq_of_mem_replicate hc) (by decide)

theorem noCrLf_stamp {a b c d e f g : Str} (h : ∀ s ∈ [a, b, c, d, e, f, g], NoCrLf s) :
    NoCrLf (a ++ '-' :: b ++ '-' :: c ++ 'T' :: d ++ ':' :: e ++ ':' :: f ++ '.' :: g ++
      ['Z']) := by
  simp only [List.forall_mem_cons] at h
  simp [h]

theorem noCrLf_format (unixMs : ℕ) : NoCrLf (ServerTime.format unixMs) := by
  refine noCrLf_stamp fun s hs => ?_
  simp only [List.mem_cons, List.not_mem_nil, or_false] at hs
  rcases hs with rfl | rfl | rfl | rfl | rfl | rfl | rfl
  all_goals exact noCrLf_padZeros (noCrLf_natToStr _)

/-! ### Messages that fit -/

namespace Message

/-- A command word the engine itself would send. -/
def Word (command : Str) : Prop :=
  (command ≠ [] ∧ ' ' ∉ command ∧ NoCrLf command) ∧ command.head? ≠ some ':' ∧
    command.head? ≠ some '@'

instance (command : Str) : Decidable (Word command) := inferInstanceAs (Decidable (_ ∧ _))

/-- A message of our own reads back when its tags do and its parameters fit. -/
theorem sendable_own {command : Str} (hcommand : Word command) (tags : Tags) (params : List Str) :
    (⟨tags, none, command, params⟩ : Message).Sendable ↔
      (∀ tag ∈ tags, tag.Clean ∧ NoCrLf tag.key) ∧ Fits params := by
  constructor
  · intro h
    exact ⟨h.tags, h.params, h.middle⟩
  · rintro ⟨htags, hparams, hmiddle⟩
    exact ⟨htags, by simp, hcommand.1, fun _ => hcommand.2.1, fun _ _ => hcommand.2.2, hmiddle,
      hparams⟩

end Message

/-- A tag that is not there yet is put behind the others. -/
theorem Tags.set_of_forall_ne {tags : Tags} {tag : Tag} (h : ∀ held ∈ tags, held.key ≠ tag.key) :
    tags.set tag = tags ++ [tag] := by
  induction tags with
  | nil => rfl
  | cons held rest ih =>
      rw [Tags.set, if_neg (h held List.mem_cons_self),
        ih fun other hother => h other (List.mem_cons_of_mem _ hother)]
      rfl

/-- A value escapes whatever it holds: only an empty one is lost. -/
theorem clean_new {key value : Str} (hkey : CleanKey key) : (Tag.new key value).Clean ↔ value ≠
    [] := by
  constructor
  · intro h hnil
    exact h.2.1 (by rw [hnil]; rfl)
  · intro h
    refine ⟨hkey, ?_, fun hnone => absurd hnone (by simp [Tag.new])⟩
    rw [Tag.new, ne_eq, Option.some.injEq]
    exact h

namespace Client

/-! ### The messages of a command -/

/-- The line a command is, before it goes under a label. -/
def commandLine : Command → Option Message
  | .sendMessage target text => some (Message.new "PRIVMSG" [target, text])
  | .sendNotice target text => some (Message.new "NOTICE" [target, text])
  | .sendAction target text =>
      some (Message.new "PRIVMSG" [target, ("\x01ACTION " : Str) ++ text ++ ['\x01']])
  | .join channel key => some (joinLine channel key)
  | .subscribeMetadata keys =>
      some (Message.new "METADATA" (("*" : Str) :: ("SUB" : Str) :: keys))
  | other => wire other

/-- The messages the engine builds for a command. -/
def outgoing (c : Client) : Command → List Message
  | .watchNicks nicks => c.monitorLines "+" nicks
  | .unwatchNicks nicks => c.monitorLines "-" nicks
  | other => ((commandLine other).map c.labelled).toList

section Say

variable [Primitives]

/-- A line that carries a message changes nothing that another line would be sent about. -/
theorem fold_outbox_of_isMessage (c : Client) {line : Message}
    (h : Session.isMessage (toAsciiUppercase line.command) = true) (historical : Bool) :
    (c.fold line historical).outbox = c.outbox := by
  have hnone : c.whoLines (Session.apply (c.context historical) line).2 = [] := by
    rw [whoLines, List.filterMap_eq_nil_iff]
    intro change hchange
    rcases Session.change_of_isMessage h hchange with ⟨target, key, rfl⟩ | ⟨target, msgid, rfl⟩
    · rfl
    · rfl
  rw [fold_eq]
  dsimp only
  rw [hnone, List.map_nil, List.append_nil]

theorem say_outbox (c : Client) {line : Message}
    (h : Session.isMessage (toAsciiUppercase line.command) = true) :
    (c.say line).outbox = c.outbox ++ [wireLine (c.labelled line)] := by
  unfold say
  rw [sendLineLabeled_eq]
  dsimp only
  split
  · rfl
  · exact @fold_outbox_of_isMessage _ _ { line with source := some ⟨c.nick, none, none⟩ } h false

omit [Primitives] in
theorem sendLineLabeled_outbox (c : Client) (message : Message) :
    (c.sendLineLabeled message).outbox = c.outbox ++ [wireLine (c.labelled message)] := by
  rw [sendLineLabeled_eq]

theorem command_sendRawLine (c : Client) (line : Str) :
    c.command (.sendRawLine line) =
      ((Message.parse line).toOption.map c.sendLineLabeled).getD c := by
  have hwire : wire (.sendRawLine line) = (Message.parse line).toOption := rfl
  unfold command
  dsimp only
  rw [hwire]
  cases (Message.parse line).toOption with
  | none => rfl
  | some message => rfl

/-- **Everything a command puts on the wire**: one entry for each message that was built. -/
theorem command_outbox (c : Client) (command : Command) :
    (c.command command).outbox = c.outbox ++ (c.outgoing command).map wireLine := by
  cases command with
  | sendMessage target text =>
      exact c.say_outbox (show Session.isMessage (toAsciiUppercase "PRIVMSG") = true by decide)
  | sendNotice target text =>
      exact c.say_outbox (show Session.isMessage (toAsciiUppercase "NOTICE") = true by decide)
  | sendAction target text =>
      exact c.say_outbox (show Session.isMessage (toAsciiUppercase "PRIVMSG") = true by decide)
  | watchNicks nicks =>
      show (setWatching c nicks true).outbox = _
      rw [setWatching, sendLines_eq]
      rfl
  | unwatchNicks nicks =>
      show (setWatching c nicks false).outbox = _
      rw [setWatching, sendLines_eq]
      rfl
  | sendRawLine line =>
      rw [command_sendRawLine]
      show _ = c.outbox ++ (((Message.parse line).toOption.map c.labelled).toList).map wireLine
      cases (Message.parse line).toOption with
      | none => simp
      | some message => exact c.sendLineLabeled_outbox message
  | join channel key => exact sendLineLabeled_outbox _ _
  | subscribeMetadata keys => exact sendLineLabeled_outbox _ _
  | _ => exact c.sendLineLabeled_outbox _

end Say

/-! ### Entries sent whole -/

/-- The entry of a message is one line, ending in CRLF and holding no other line break, and reads
back as the command, the tags and the parameters that were built. -/
def SentWhole (message : Message) : Prop :=
  ∃ body : Bytes, wireLine message = body ++ [13, 10] ∧ 13 ∉ body ∧ 10 ∉ body ∧
    message.ReadsAs (Utf8.decodeLossy (wireLine message))

theorem decodeLossy_wireLine (message : Message) :
    Utf8.decodeLossy (wireLine message) = message.display ++ crlf := by
  rw [wireLine, Utf8.decodeLossy_encode_append]
  rfl

theorem sentWhole_iff {message : Message} (hsource : ∀ s ∈ message.source, ' ' ∉ s.display)
    (hcolon : message.source = none → message.command.head? ≠ some ':') :
    SentWhole message ↔ message.Sendable := by
  rw [Message.sendable_iff hsource hcolon, SentWhole, decodeLossy_wireLine]
  have hcr : (13 : UInt8) ∈ Utf8.encode message.display ↔ '\r' ∈ message.display :=
    Utf8.mem_encode_ascii (by decide) _
  have hlf : (10 : UInt8) ∈ Utf8.encode message.display ↔ '\n' ∈ message.display :=
    Utf8.mem_encode_ascii (by decide) _
  constructor
  · rintro ⟨body, hbody, h13, h10, hreads⟩
    rw [← List.append_cancel_right hbody] at h13 h10
    exact ⟨⟨fun h => h13 (hcr.mpr h), fun h => h10 (hlf.mpr h)⟩, hreads⟩
  · rintro ⟨⟨h13, h10⟩, hreads⟩
    exact ⟨_, rfl, fun h => h13 (hcr.mp h), fun h => h10 (hlf.mp h), hreads⟩

/-- The label in force reads back. -/
theorem clean_label (labels : Labels) :
    (Tag.new "label" labels.generate.2).Clean ∧ NoCrLf (Tag.new "label" labels.generate.2).key :=
  ⟨(clean_new (by decide)).mpr (by simp [Labels.generate]), show NoCrLf "label" by decide⟩

/-- A label changes nothing about whether a message of our own is sent whole. -/
theorem sentWhole_labelled (c : Client) {command : Str} (hcommand : Message.Word command)
    {tags : Tags} (htags : ∀ tag ∈ tags, tag.key ≠ "label") (params : List Str) :
    SentWhole (c.labelled ⟨tags, none, command, params⟩) ↔
      (∀ tag ∈ tags, tag.Clean ∧ NoCrLf tag.key) ∧ Fits params := by
  unfold labelled
  split
  · rw [sentWhole_iff (by simp) fun _ => hcommand.2.1, Message.sendable_own hcommand]
  · rw [sentWhole_iff (by simp) fun _ => hcommand.2.1, Message.sendable_own hcommand,
      Tags.set_of_forall_ne htags]
    refine and_congr_left' ?_
    rw [List.forall_mem_append]
    refine and_iff_left ?_
    intro tag htag
    rw [List.mem_singleton.mp htag]
    exact clean_label _

theorem sentWhole_labelled_new (c : Client) {command : Str} (hcommand : Message.Word command)
    (params : List Str) :
    SentWhole (c.labelled (Message.new command params)) ↔ Fits params := by
  rw [Message.new, sentWhole_labelled c hcommand (by simp)]
  simp

/-- The tags of a raw line that read back, and the rest of it without line breaks.  What reading
gives is in shape for the rest, but a word behind the tag sign is a command only where other tags
or a source precede it. -/
structure CleanRaw (c : Client) (message : Message) : Prop where
  tags : ∀ tag ∈ (c.labelled message).tags,
    tag.value ≠ some [] ∧ (tag.value = none → tag.key ≠ []) ∧ NoCrLf tag.key
  source : ∀ source ∈ message.source, NoCrLf source.display
  command : NoCrLf message.command
  params : ∀ param ∈ message.params, NoCrLf param
  sign : (c.labelled message).tags = [] → message.source = none → message.command.head? ≠ some '@'

/-- The commands whose strings keep within their places.  All but the last parameter must be a word;
a reaction names its message and its emoji; no text holds a line break. -/
def Clean (c : Client) : Command → Prop
  | .join channel key => Fits (channel :: key.toList)
  | .part channel reason => Fits (channel :: reason.toList)
  | .sendMessage target text => Fits [target, text]
  | .sendNotice target text => Fits [target, text]
  | .sendAction target text => Fits [target, text]
  | .setNick nick => Fits [nick]
  | .setTopic channel topic => Fits [channel, topic.getD []]
  | .setAway message => Fits message.toList
  | .setTyping target _ => Fits [target]
  | .addReaction target msgid emoji => (emoji ≠ [] ∧ msgid ≠ []) ∧ Fits [target]
  | .removeReaction target msgid emoji => (emoji ≠ [] ∧ msgid ≠ []) ∧ Fits [target]
  | .redactMessage target msgid reason => Fits (target :: msgid :: reason.toList)
  | .markRead target _ => NoCrLf target ∧ Message.Middle target
  | .fetchHistory target beforeMsgid _ =>
      (NoCrLf target ∧ Message.Middle target) ∧ ∀ msgid ∈ beforeMsgid, NoCrLf msgid ∧ ' ' ∉ msgid
  | .setMetadata key value => Fits (key :: value.toList)
  | .subscribeMetadata keys => Fits keys
  | .whois nick => Fits [nick]
  | .renameChannel channel newName reason => Fits (channel :: newName :: reason.toList)
  | .createInviteLink channel description => Fits (channel.toList ++ description.toList)
  | .listInviteLinks => True
  | .deleteInviteLink shareId => Fits [shareId]
  | .redeemInviteCode code => Fits [code]
  | .generateToken service => Fits [service]
  | .watchNicks nicks => ∀ nick ∈ nicks, NoCrLf nick
  | .unwatchNicks nicks => ∀ nick ∈ nicks, NoCrLf nick
  | .sendVoiceSignal channel _ => Fits [channel]
  | .quit reason => Fits reason.toList
  | .sendRawLine line => ∀ message, Message.parse line = .ok message → CleanRaw c message

/-! ### Which commands are sent whole -/

theorem forall_outgoing {c : Client} {command : Command} {message : Message}
    (h : c.outgoing command = [c.labelled message]) :
    (∀ m ∈ c.outgoing command, SentWhole m) ↔ SentWhole (c.labelled message) := by
  rw [h]
  simp

/-- A command that is one line of words without tags. -/
theorem plain_sends_iff {c : Client} {command : Command} {word : Str} {params : List Str}
    (h : c.outgoing command = [c.labelled (Message.new word params)])
    (hword : Message.Word word) :
    (∀ m ∈ c.outgoing command, SentWhole m) ↔ Fits params :=
  (forall_outgoing h).trans (sentWhole_labelled_new c hword params)

theorem fits_action (target text : Str) :
    Fits [target, ("\x01ACTION " : Str) ++ text ++ ['\x01']] ↔ Fits [target, text] := by
  rw [fits_cons_cons, fits_cons_cons, fits_singleton, fits_singleton, noCrLf_append, noCrLf_append]
  refine and_congr_right' ?_
  rw [and_iff_left (by decide), and_iff_right (by decide)]

theorem fits_msgid {target msgid : Str} (limit : ℕ) :
    Fits ["BEFORE", target, ("msgid=" : Str) ++ msgid, natToStr limit] ↔
      (NoCrLf target ∧ Message.Middle target) ∧ NoCrLf msgid ∧ ' ' ∉ msgid := by
  rw [fits_cons (by decide), fits_cons_cons, fits_cons_cons, fits_singleton,
    and_iff_left (noCrLf_natToStr limit)]
  refine and_congr_right' (and_congr ?_ ?_)
  · rw [noCrLf_append, and_iff_right (by decide)]
  · constructor
    · intro h hsp
      exact h.2.1 (List.mem_append_right _ hsp)
    · intro h
      refine ⟨by simp, ?_, by simp⟩
      rw [List.mem_append, not_or]
      exact ⟨by decide, h⟩

/-- A reaction is sent whole when it names something. -/
theorem reaction_sends_iff (c : Client) {key : Str}
    (hkey : (CleanKey key ∧ NoCrLf key) ∧ key ≠ "label" ∧ key ≠ "+draft/reply")
    (target msgid emoji : Str) :
    SentWhole (c.labelled (reactionLine key target msgid emoji)) ↔
      (emoji ≠ [] ∧ msgid ≠ []) ∧ Fits [target] := by
  have htags : ((Message.new "TAGMSG" [target]).tags.set (.new key emoji)).set
      (.new "+draft/reply" msgid) = [.new key emoji, .new "+draft/reply" msgid] := by
    refine Tags.set_of_forall_ne ?_
    intro held hheld
    rw [List.mem_singleton.mp hheld]
    exact hkey.2.2
  unfold reactionLine
  dsimp only
  rw [htags]
  show SentWhole (c.labelled ⟨_, none, "TAGMSG", [target]⟩) ↔ _
  rw [sentWhole_labelled c (by decide)]
  · rw [List.forall_mem_cons, List.forall_mem_singleton, clean_new hkey.1.1,
      clean_new (by decide), and_iff_left (show NoCrLf (Tag.new key emoji).key from hkey.1.2),
      and_iff_left (show NoCrLf (Tag.new "+draft/reply" msgid).key from
        show NoCrLf "+draft/reply" by decide)]
  · intro tag htag
    simp only [List.mem_cons, List.not_mem_nil, or_false] at htag
    rcases htag with rfl | rfl
    · exact hkey.2.1
    · exact show ("+draft/reply" : Str) ≠ "label" by decide

/-- A line with one tag of our own is sent whole whatever the tag says. -/
theorem tagLine_sends_iff (c : Client) {key : Str}
    (hkey : (CleanKey key ∧ NoCrLf key) ∧ key ≠ "label") {value : Str} (hvalue : value ≠ [])
    (target : Str) :
    SentWhole (c.labelled (tagLine target key value)) ↔ Fits [target] := by
  show SentWhole (c.labelled ⟨[.new key value], none, "TAGMSG", [target]⟩) ↔ _
  rw [sentWhole_labelled c (by decide)]
  · rw [List.forall_mem_singleton, clean_new hkey.1.1]
    exact and_iff_right ⟨hvalue, hkey.1.2⟩
  · intro tag htag
    rw [List.mem_singleton.mp htag]
    exact hkey.2

theorem mem_chunks {α : Type} {n : ℕ} (hn : 1 ≤ n) {fuel : ℕ} {xs : List α}
    (hfuel : xs.length ≤ fuel) {x : α} :
    x ∈ xs ↔ ∃ ys ∈ Monitor.chunks n fuel xs, x ∈ ys := by
  induction fuel generalizing xs with
  | zero =>
      rw [List.length_eq_zero_iff.mp (Nat.le_zero.mp hfuel)]
      simp [Monitor.chunks]
  | succ fuel ih =>
      cases xs with
      | nil => simp [Monitor.chunks]
      | cons first rest =>
          have hdrop : ((first :: rest).drop n).length ≤ fuel := by
            rw [List.length_drop]
            rw [List.length_cons] at hfuel ⊢
            omega
          have hstep : (∃ ys ∈ Monitor.chunks n (fuel + 1) (first :: rest), x ∈ ys) ↔
              x ∈ (first :: rest).take n ∨
                ∃ ys ∈ Monitor.chunks n fuel ((first :: rest).drop n), x ∈ ys :=
            List.exists_mem_cons_iff _ _ _
          rw [hstep, ← ih hdrop, ← List.mem_append, List.take_append_drop]

theorem noCrLf_intercalate {parts : List Str} :
    NoCrLf (List.intercalate [','] parts) ↔ ∀ part ∈ parts, NoCrLf part := by
  constructor
  · intro h part hpart
    exact ⟨fun hc => h.1 (subset_intercalate hpart hc), fun hc => h.2 (subset_intercalate hpart hc)⟩
  · intro h
    rw [noCrLf_iff]
    intro char hchar
    rcases mem_intercalate hchar with hc | ⟨part, hpart, hc⟩
    · rw [hc]
      rfl
    · exact (noCrLf_iff _).mp (h part hpart) char hc

/-- The nicks of a watch request share one parameter, the last, so only a line break is in the
way. -/
theorem monitor_sends_iff (c : Client) {verb : Str} (hverb : NoCrLf verb ∧ Message.Middle verb)
    (nicks : List Str) :
    (∀ m ∈ c.monitorLines verb nicks, SentWhole m) ↔ ∀ nick ∈ nicks, NoCrLf nick := by
  have hline : ∀ chunk, SentWhole (Message.new "MONITOR" [verb, chunk]) ↔ NoCrLf chunk := by
    intro chunk
    have hcolon : ("MONITOR" : Str).head? ≠ some ':' := by decide
    rw [Message.new, sentWhole_iff (by simp) fun _ => hcolon,
      Message.sendable_own (by decide), fits_cons_cons, fits_singleton]
    simp [hverb]
  unfold monitorLines Monitor.batched
  rw [List.forall_mem_map, List.forall_mem_map]
  simp only [hline, noCrLf_intercalate]
  constructor
  · intro h nick hnick
    obtain ⟨ys, hys, hin⟩ := (mem_chunks (le_max_right _ 1) le_rfl).mp hnick
    exact h ys hys nick hin
  · intro h ys hys nick hin
    exact h nick ((mem_chunks (le_max_right _ 1) le_rfl).mpr ⟨ys, hys, hin⟩)

theorem mem_set {tags : Tags} {added tag : Tag} (h : tag ∈ tags.set added) :
    tag ∈ tags ∨ tag = added := by
  induction tags with
  | nil => exact .inr (List.mem_singleton.mp h)
  | cons held rest ih =>
      rw [Tags.set] at h
      split at h
      · rcases List.mem_cons.mp h with rfl | h
        · exact .inr rfl
        · exact .inl (List.mem_cons_of_mem _ h)
      · rcases List.mem_cons.mp h with rfl | h
        · exact .inl List.mem_cons_self
        · exact (ih h).imp_left (List.mem_cons_of_mem _)

theorem labelled_fields (c : Client) (message : Message) :
    (c.labelled message).source = message.source ∧
      (c.labelled message).command = message.command ∧
      (c.labelled message).params = message.params := by
  unfold labelled
  split
  · exact ⟨rfl, rfl, rfl⟩
  · exact ⟨rfl, rfl, rfl⟩

/-- No tag that is sent has a separator in its name, if none had that was read. -/
theorem cleanKey_labelled (c : Client) {message : Message}
    (h : ∀ tag ∈ message.tags, CleanKey tag.key) :
    ∀ tag ∈ (c.labelled message).tags, CleanKey tag.key := by
  unfold labelled
  split
  · exact h
  · intro tag htag
    rcases mem_set htag with htag | rfl
    · exact h tag htag
    · exact show CleanKey "label" by decide

/-- What was read off a raw line is sent whole when it is clean. -/
theorem raw_sends_iff (c : Client) {line : Str} {message : Message}
    (h : Message.parse line = .ok message) :
    SentWhole (c.labelled message) ↔ CleanRaw c message := by
  have hparsed := Message.parse_parsed h
  have hkeys := c.cleanKey_labelled hparsed.keys
  obtain ⟨hsource, hcommand, hparams⟩ := c.labelled_fields message
  rw [sentWhole_iff (by rw [hsource]; exact hparsed.source)
    (by rw [hsource, hcommand]; exact hparsed.colon)]
  constructor
  · intro hsend
    refine ⟨fun tag htag => ?_, fun s hs => ?_, ?_, ?_, ?_⟩
    · exact ⟨(hsend.tags tag htag).1.2.1, (hsend.tags tag htag).1.2.2, (hsend.tags tag htag).2⟩
    · exact (hsend.source s (hsource ▸ hs)).2
    · exact hcommand ▸ hsend.command.2.2
    · exact hparams ▸ hsend.params
    · exact hsource ▸ hcommand ▸ hsend.sign
  · intro hclean
    refine ⟨fun tag htag => ?_, fun s hs => ?_, ?_, ?_, ?_, ?_, ?_⟩
    · obtain ⟨hvalue, hkey, hline⟩ := hclean.tags tag htag
      exact ⟨⟨hkeys tag htag, hvalue, hkey⟩, hline⟩
    · rw [hsource] at hs
      exact ⟨hparsed.source s hs, hclean.source s hs⟩
    · rw [hcommand]
      exact ⟨hparsed.command.1, hparsed.command.2, hclean.command⟩
    · rw [hsource, hcommand]
      exact hparsed.colon
    · rw [hsource, hcommand]
      exact hclean.sign
    · rw [hparams]
      exact hparsed.params
    · rw [hparams]
      exact hclean.params

/-- **When a command is sent whole.**  The outbox gains the messages built for a command, one entry
each; every such entry is one line that reads back as its message exactly when the command is
clean. -/
theorem command_sends_iff [Primitives] (c : Client) (command : Command) :
    (c.command command).outbox = c.outbox ++ (c.outgoing command).map wireLine ∧
      ((∀ message ∈ c.outgoing command, SentWhole message) ↔ c.Clean command) := by
  refine ⟨c.command_outbox command, ?_⟩
  cases command with
  | join channel key =>
      cases key with
      | none => exact plain_sends_iff rfl (by decide)
      | some key => exact plain_sends_iff rfl (by decide)
  | part channel reason => exact plain_sends_iff rfl (by decide)
  | sendMessage target text => exact plain_sends_iff rfl (by decide)
  | sendNotice target text => exact plain_sends_iff rfl (by decide)
  | sendAction target text =>
      exact (plain_sends_iff rfl (by decide)).trans (fits_action target text)
  | setNick nick => exact plain_sends_iff rfl (by decide)
  | setTopic channel topic => exact plain_sends_iff rfl (by decide)
  | setAway message => exact plain_sends_iff rfl (by decide)
  | setTyping target state =>
      refine (forall_outgoing rfl).trans (c.tagLine_sends_iff (by decide) ?_ target)
      cases state <;> decide
  | addReaction target msgid emoji =>
      exact (forall_outgoing rfl).trans (c.reaction_sends_iff (by decide) target msgid emoji)
  | removeReaction target msgid emoji =>
      exact (forall_outgoing rfl).trans (c.reaction_sends_iff (by decide) target msgid emoji)
  | redactMessage target msgid reason => exact plain_sends_iff rfl (by decide)
  | markRead target atMs =>
      refine (plain_sends_iff rfl (by decide)).trans ?_
      rw [fits_cons_cons, fits_singleton, noCrLf_append]
      exact and_iff_left ⟨by decide, noCrLf_format atMs⟩
  | fetchHistory target beforeMsgid limit =>
      cases beforeMsgid with
      | none =>
          refine (plain_sends_iff rfl (by decide)).trans ?_
          rw [fits_cons (by decide), fits_cons_cons, fits_cons (by decide),
            fits_singleton, and_iff_left (noCrLf_natToStr limit)]
          simp [Clean]
      | some msgid =>
          refine (plain_sends_iff rfl (by decide)).trans ((fits_msgid limit).trans ?_)
          simp [Clean]
  | setMetadata key value =>
      refine (plain_sends_iff rfl (by decide)).trans ?_
      exact (fits_cons (by decide)).trans (fits_cons (by decide))
  | subscribeMetadata keys =>
      refine (plain_sends_iff rfl (by decide)).trans ?_
      exact (fits_cons (by decide)).trans (fits_cons (by decide))
  | whois nick => exact plain_sends_iff rfl (by decide)
  | renameChannel channel newName reason => exact plain_sends_iff rfl (by decide)
  | createInviteLink channel description =>
      refine (plain_sends_iff rfl (by decide)).trans ((fits_cons (by decide)).trans ?_)
      cases channel with
      | some channel => exact Iff.rfl
      | none =>
          cases description with
          | some description => exact fits_cons (by decide)
          | none => exact Iff.rfl
  | listInviteLinks => exact (plain_sends_iff rfl (by decide)).trans (iff_true_intro (by decide))
  | deleteInviteLink shareId =>
      exact (plain_sends_iff rfl (by decide)).trans (fits_cons (by decide))
  | redeemInviteCode code => exact plain_sends_iff rfl (by decide)
  | generateToken service =>
      exact (plain_sends_iff rfl (by decide)).trans (fits_cons (by decide))
  | watchNicks nicks => exact c.monitor_sends_iff (by decide) nicks
  | unwatchNicks nicks => exact c.monitor_sends_iff (by decide) nicks
  | sendVoiceSignal channel signal =>
      refine (forall_outgoing rfl).trans (c.tagLine_sends_iff (by decide) ?_ channel)
      exact List.cons_ne_nil _ _
  | quit reason => exact plain_sends_iff rfl (by decide)
  | sendRawLine line =>
      cases hparse : Message.parse line with
      | error e =>
          refine iff_of_true ?_ ?_
          · intro message hmessage
            simp [outgoing, commandLine, wire, hparse, Except.toOption] at hmessage
          · intro message hmessage
            rw [hparse] at hmessage
            cases hmessage
      | ok message =>
          have hline : c.outgoing (.sendRawLine line) = [c.labelled message] := by
            simp [outgoing, commandLine, wire, hparse, Except.toOption]
          rw [forall_outgoing hline, c.raw_sends_iff hparse]
          constructor
          · intro h message' hmessage'
            rw [hparse] at hmessage'
            cases hmessage'
            exact h
          · intro h
            exact h message hparse

/-- A line break in a message body makes the server see a second command. -/
theorem not_sentWhole_of_break :
    let c := Client.new (.new "me")
    let message := Message.new "PRIVMSG" ["#a", "hi\r\nQUIT"]
    (@command .ascii c (.sendMessage "#a" "hi\r\nQUIT")).outbox = [wireLine message] ∧
      message ∈ c.outgoing (.sendMessage "#a" "hi\r\nQUIT") ∧ ¬ SentWhole message := by
  intro c message
  have hout : c.outgoing (.sendMessage "#a" "hi\r\nQUIT") = [message] := by decide
  refine ⟨?_, ?_, ?_⟩
  · rw [@command_outbox .ascii, hout]
    rfl
  · rw [hout]
    exact List.mem_singleton_self _
  · rintro ⟨body, hbody, -, h10, -⟩
    have hcount := congrArg (List.count 10) hbody
    rw [List.count_append, List.count_eq_zero.mpr h10] at hcount
    exact absurd hcount (by decide)

end Client

end ObbyClient

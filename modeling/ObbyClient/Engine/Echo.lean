import ObbyClient.Engine.Deeds
import ObbyClient.Engine.Growth
import ObbyClient.Engine.Outbound

/-!
# Our own messages, and their echoes

A client records what it says itself, unless it holds `echo-message`: then the server says it back.
The server turns the capability on when it takes the request for it, and the client learns of that
from the answer, so for a while the two do not agree.

* `Link` — a client and the server it talks to, with the lines on their way;
* `Link.sent`, `Link.taken` — what either side held the capability to be, text by text;
* `Link.heard_once_iff` — every text is heard once exactly when they held the same.
-/

namespace ObbyClient

/-- A client, and the server it talks to.  What is on its way to the server is the client's outbox,
what is on its way to the client is `inbound`. -/
structure Link where
  client : Client
  inbound : List Message
  /-- True while the server has `echo-message` enabled for the client. -/
  echoing : Bool
  /-- How the server names the client. -/
  mask : Source
  /-- The texts that were sent, each with whether the client held `echo-message` then. -/
  sent : List (Str × Bool)
  /-- The texts that the server took, each with whether it had `echo-message` enabled then. -/
  taken : List (Str × Bool)

/-- One thing that happens on a link. -/
inductive Turn where
  /-- The host sends a message to the channel. -/
  | say (text : Str)
  /-- The server offers capabilities. -/
  | offer (list : Str)
  /-- The server withdraws capabilities. -/
  | revoke (list : Str)
  /-- The server takes the next line, and echoes it under this id, and at this time. -/
  | serve (msgid : Str) (time : Option Str)
  /-- The client takes the next line. -/
  | deliver

namespace Turn

/-- The text that a turn sends. -/
def text : Turn → Option Str
  | .say text => some text
  | _ => none

/-- The id that a turn has for an echo. -/
def msgid : Turn → Option Str
  | .serve msgid _ => some msgid
  | _ => none

end Turn

namespace Link

/-- The entry of an outbox as the server reads it. -/
def readEntry (entry : Bytes) : Option Message := (Message.parse (Utf8.decodeLossy entry)).toOption

/-- A capability line of the server's. -/
def capLine (l : Link) (subcommand list : Str) : Message :=
  Message.new "CAP" [l.mask.name, subcommand, list]

/-- A line said back to who said it. -/
def echoLine (mask : Source) (line : Message) (msgid : Str) (time : Option Str) : Message :=
  { line with
    source := some mask
    tags := line.tags ++ [Tag.new "msgid" msgid] ++ (time.map (Tag.new "time")).toList }

/-- True when a list of capabilities names this one. -/
def names (list name : Str) : Bool :=
  (splitWhitespace list).any fun token => (Capabilities.splitValue token).1 == name

/-- What the server does with a line: it enables the capabilities that are asked for, and echoes
what is said while `echo-message` is enabled. -/
def take (l : Link) (line : Message) (msgid : Str) (time : Option Str) : Link :=
  if line.is "PRIVMSG" then
    { l with
      inbound := l.inbound ++ if l.echoing then [echoLine l.mask line msgid time] else []
      taken := l.taken ++ [((line.param 1).getD [], l.echoing)] }
  else if line.is "CAP" ∧ line.param 0 = some ("REQ" : Str) then
    { l with
      inbound := l.inbound ++ [l.capLine "ACK" ((line.param 1).getD [])]
      echoing := l.echoing || names ((line.param 1).getD []) "echo-message" }
  else l

/-- The link after one turn. -/
def step [Primitives] (channel : Str) (l : Link) : Turn → Link
  | .say text =>
      { l with
        client := l.client.command (.sendMessage channel text)
        sent := l.sent ++ [(text, l.client.caps.has "echo-message")] }
  | .offer list => { l with inbound := l.inbound ++ [l.capLine "NEW" list] }
  | .revoke list =>
      { l with
        inbound := l.inbound ++ [l.capLine "DEL" list]
        echoing := l.echoing && !names list "echo-message" }
  | .serve msgid time =>
      let (client, entry) := l.client.pollTransmit
      let l := { l with client := client }
      match entry.bind readEntry with
      | some line => l.take line msgid time
      | none => l
  | .deliver =>
      match l.inbound with
      | [] => l
      | line :: rest => { l with client := l.client.handleMessage line, inbound := rest }

/-- The link after several turns. -/
def run [Primitives] (channel : Str) (l : Link) (turns : List Turn) : Link :=
  turns.foldl (step channel) l

/-- True when nothing is on its way. -/
def Drained (l : Link) : Prop := l.client.outbox = [] ∧ l.inbound = []

/-- What a text reads as. -/
def read (text : Str) : MessageKind × Str := Session.kindAndText "PRIVMSG" text

/-- What a message says. -/
def said (message : ChatMessage) : MessageKind × Str := (message.kind, message.text)

/-- How often a text stands in the log of a place. -/
def heard (l : Link) (place : Place) (text : Str) : ℕ :=
  ((l.client.model.logAt place).map fun log => (log.iter.map said).count (read text)).getD 0

end Link

namespace Client

open Session

variable [Primitives]

/-! ### The client's part -/

omit [Primitives] in
/-- What the lines that a link delivers do beside the log: the client may ask for capabilities. -/
structure Asks (c d : Client) : Prop where
  phase : d.phase = c.phase
  isupport : d.isupport = c.isupport
  outbox : ∃ wanted : List Str, (∀ name ∈ wanted, name ∈ wantedCaps) ∧
    d.outbox = c.outbox ++ wanted.map fun name => wireLine (Message.new "CAP" ["REQ", name])

omit [Primitives] in
theorem asks_silent {c d : Client} (hphase : d.phase = c.phase)
    (hisupport : d.isupport = c.isupport)
    (houtbox : d.outbox = c.outbox) : Asks c d := by
  refine ⟨hphase, hisupport, [], ?_, ?_⟩
  · intro name hname
    exact absurd hname List.not_mem_nil
  · rw [houtbox, List.map_nil, List.append_nil]

omit [Primitives] in
theorem finishNegotiationIfSettled_of_registered {c : Client} (h : c.phase = .registered) :
    c.finishNegotiationIfSettled = c := by
  unfold finishNegotiationIfSettled
  rw [if_pos]
  left
  rw [h]
  decide

omit [Primitives] in
theorem requestWanted_asks {c d : Client} (hphase : d.phase = .registered)
    (hsame : d.phase = c.phase)
    (hisupport : d.isupport = c.isupport) (houtbox : d.outbox = c.outbox) :
      Asks c d.requestWanted := by
  unfold requestWanted
  dsimp only
  split
  · rw [finishNegotiationIfSettled_of_registered hphase]
    exact asks_silent hsame hisupport houtbox
  · rw [sendLines_eq]
    refine ⟨hsame, hisupport, d.caps.toRequest, ?_, ?_⟩
    · intro name hname
      exact (List.mem_filter.mp hname).1
    · rw [List.map_map, ← houtbox]
      rfl

omit [Primitives] in
theorem applyCap_asks {c : Client} (h : c.phase = .registered) (subcommand list : Str)
    (moreToCome : Bool) : Asks c (c.applyCap subcommand list moreToCome) := by
  have hsilent := asks_silent (c := c) rfl rfl rfl
  unfold applyCap
  split
  · cases moreToCome with
    | true => exact asks_silent rfl rfl rfl
    | false => exact requestWanted_asks h rfl rfl rfl
  split
  · exact requestWanted_asks h rfl rfl rfl
  split
  · exact asks_silent rfl rfl rfl
  split
  · dsimp only
    split
    · rw [finishNegotiationIfSettled_of_registered (by exact h)]
      exact asks_silent rfl rfl rfl
    · rw [finishNegotiationIfSettled_of_registered (by exact h)]
      exact asks_silent rfl rfl rfl
  split
  · rw [finishNegotiationIfSettled_of_registered (by exact h)]
    exact asks_silent rfl rfl rfl
  · exact hsilent

/-- **A capability line** says nothing. -/
theorem handleMessage_cap {c : Client} {line : Message} (h : c.phase = .registered)
    (hline : line.is "CAP" = true) :
    Asks c (c.handleMessage line) ∧ (c.handleMessage line).model = c.model := by
  have hdispatch : c.handleMessage line = (c.noted line).handleCap line := by
    rw [handleMessage_eq]
    unfold dispatch
    rw [is_eq_false hline (by decide), is_eq_false hline (by decide), hline]
    rfl
  rw [hdispatch]
  constructor
  · unfold handleCap
    split
    · exact asks_silent rfl rfl rfl
    · obtain ⟨hphase, hisupport, houtbox⟩ := applyCap_asks (c := c.noted line) h _ _ _
      exact ⟨hphase, hisupport, houtbox⟩
  · exact congrArg Bearing.model ((c.noted line).handleCap_negotiates line).bearing

omit [Primitives] in
/-- A message that was filed in this place. -/
structure Files (c d : Client) (place : Place) (message : ChatMessage) : Prop where
  me : d.model.me = c.model.me
  seq : message.key.seq = c.model.nextSeq
  nextSeq : d.model.nextSeq = (c.model.nextSeq + 1) % 2 ^ 64
  log : d.model.logAt place = (c.model.logAt place).map fun log => (log.insert message).1

omit [Primitives] in
/-- A log with room takes a message that it does not hold. -/
theorem Files.put {c d : Client} {place : Place} {message : ChatMessage} {log : MessageLog}
    (h : Files c d place message) (hheld : c.model.logAt place = some log)
    (hnumbered : ∀ key ∈ log.messages, key.seq < c.model.nextSeq)
    (hholds : log.holds message = false) (hroom : log.iter.length < log.retention)
    (hseq : c.model.nextSeq + 1 < 2 ^ 64) :
    d.model.logAt place = some (log.put message) ∧ d.model.nextSeq = c.model.nextSeq + 1 ∧
      (log.put message).iter.Perm (message :: log.iter) ∧
      ∀ key ∈ (log.put message).messages, key.seq < d.model.nextSeq := by
  have hnext : d.model.nextSeq = c.model.nextSeq + 1 := by
    rw [h.nextSeq, Nat.mod_eq_of_lt hseq]
  have hkey : message.key ∉ log.messages := by
    intro hmem
    have hlt := hnumbered _ hmem
    rw [h.seq] at hlt
    exact lt_irrefl _ hlt
  rw [MessageLog.length_iter] at hroom
  refine ⟨?_, hnext, MessageLog.iter_put hkey, ?_⟩
  · rw [h.log, hheld, Option.map_some, MessageLog.insert_of_room hholds hroom]
  · intro key hmem
    have hcases : key = message.key ∨ key ∈ log.messages := by
      have hmem' : key ∈ log.messages.insert message.key message := hmem
      rw [Std.ExtTreeMap.mem_insert, Std.LawfulEqCmp.compare_eq_iff_eq] at hmem'
      exact hmem'.imp_left Eq.symm
    rw [hnext]
    rcases hcases with heq | hold
    · rw [heq, h.seq]
      exact Nat.lt_succ_self _
    · exact Nat.lt_succ_of_lt (hnumbered key hold)

theorem fold_said {c : Client} {line : Message} {target : Str} {place : Place}
    (hcommand : line.is "PRIVMSG" = true) (htarget : line.param 0 = some target)
    (hplace : placeOf (c.context false) line target = place) :
    Asks c (c.fold line false) ∧
      Files c (c.fold line false) place (chatMessage (c.context false) line "PRIVMSG") := by
  obtain ⟨-, hme, hseq, -⟩ := file_rest (c.context false) line "PRIVMSG" target
  have houtbox : (c.fold line false).outbox = c.outbox := by
    refine c.fold_outbox_of_isMessage ?_ false
    rw [toAsciiUppercase_of_eq hcommand]
    decide
  refine ⟨asks_silent ?_ ?_ houtbox, ?_, rfl, ?_, ?_⟩
  · rw [fold_eq]
  · rw [fold_eq]
  · rw [fold_eq, c.apply_said hcommand htarget]
    exact hme
  · rw [fold_eq, c.apply_said hcommand htarget]
    exact hseq
  · rw [fold_eq, c.apply_said hcommand htarget]
    show (file (c.context false) line "PRIVMSG" target).1.model.logAt place = _
    rw [logAt_file, if_pos hplace.symm]
    rfl

/-- **A line that says something** outside a batch is filed. -/
theorem handleMessage_files {c : Client} {line : Message} {target : Str} {place : Place}
    (hcommand : line.is "PRIVMSG" = true) (htarget : line.param 0 = some target)
    (hunbatched : line.tag "batch" = none)
    (hplace : placeOf (c.context false) line target = place) :
    Asks c (c.handleMessage line) ∧
      Files c (c.handleMessage line) place (chatMessage (c.context false) line "PRIVMSG") := by
  have hroute : c.batches.route line = none := by
    unfold Batches.route Batches.holder
    rw [hunbatched]
    rfl
  rw [handleMessage_said hcommand hroute]
  obtain ⟨⟨hphase, hisupport, houtbox⟩, hme, hseq, hnext, hlog⟩ :=
    fold_said (c := c.noted line) hcommand htarget hplace
  exact ⟨⟨hphase, hisupport, houtbox⟩, hme, hseq, hnext, hlog⟩

/-- **What sending a message does**: it is queued, and filed unless an echo is to come. -/
theorem command_sendMessage {c : Client} {channel text : Str} {place : Place}
    (hplace : ∀ line, placeOf (c.context false) line channel = place) :
    (c.command (.sendMessage channel text)).phase = c.phase ∧
      (c.command (.sendMessage channel text)).isupport = c.isupport ∧
      (c.command (.sendMessage channel text)).outbox =
        c.outbox ++ [wireLine (c.labelled (Message.new "PRIVMSG" [channel, text]))] ∧
      if c.caps.has "echo-message" then (c.command (.sendMessage channel text)).model = c.model
      else ∃ message : ChatMessage, (message.kind, message.text) = kindAndText "PRIVMSG" text ∧
        message.msgid = none ∧ Files c (c.command (.sendMessage channel text)) place message := by
  show (c.say _).phase = _ ∧ (c.say _).isupport = _ ∧ (c.say _).outbox = _ ∧
    if _ then (c.say _).model = _ else ∃ message : ChatMessage, _ ∧ _ ∧
      Files c (c.say _) place message
  refine ⟨?_, ?_, c.say_outbox (show isMessage (toAsciiUppercase "PRIVMSG") = true by decide), ?_⟩
  · unfold say
    rw [sendLineLabeled_eq]
    dsimp only
    split
    · rfl
    · rw [fold_eq]
  · unfold say
    rw [sendLineLabeled_eq]
    dsimp only
    split
    · rfl
    · rw [fold_eq]
  · unfold say
    rw [sendLineLabeled_eq]
    dsimp only
    split
    · rfl
    · obtain ⟨-, hme, hseq, hnext, hlog⟩ := @fold_said _
        { c with
          labels := c.labelsAfter (Message.new "PRIVMSG" [channel, text])
          outbox := c.outbox ++ [wireLine (c.labelled (Message.new "PRIVMSG" [channel, text]))] }
        { Message.new "PRIVMSG" [channel, text] with source := some ⟨c.nick, none, none⟩ }
        channel place (show eqIgnoreAsciiCase "PRIVMSG" "PRIVMSG" = true by decide) rfl (hplace _)
      exact ⟨_, rfl, rfl, hme, hseq, hnext, hlog⟩

end Client

namespace Link

open Client Session

/-! ### What is on its way -/

/-- The texts that a host sends. -/
def texts (turns : List Turn) : List Str := turns.filterMap Turn.text

/-- The ids that a server echoes lines under. -/
def msgids (turns : List Turn) : List Str := turns.filterMap Turn.msgid

/-- The text of a line that says something. -/
def textOf (line : Message) : Option Str :=
  if line.is "PRIVMSG" then some ((line.param 1).getD []) else none

/-- The texts on their way to the server. -/
def outgoing (l : Link) : List Str := (l.client.outbox.filterMap readEntry).filterMap textOf

/-- The ids of the echoes on their way to the client. -/
def echoIds (l : Link) : List Str :=
  (l.inbound.filter fun line => line.is "PRIVMSG").filterMap fun line => line.tag "msgid"

/-- What the texts on their way to the client read as. -/
def arriving (l : Link) : List (MessageKind × Str) := (l.inbound.filterMap textOf).map read

/-- What comes of the texts: those sent without an echo to come, and those that are echoed. -/
def recorded (l : Link) : List (MessageKind × Str) :=
  ((l.sent.filter fun p => !p.2).map fun p => read p.1) ++
    (l.taken.filter fun p => p.2).map fun p => read p.1

/-- A line that says something in the channel, outside a batch. -/
structure Speaks (channel : Str) (line : Message) : Prop where
  command : line.is "PRIVMSG" = true
  target : line.param 0 = some channel
  unbatched : line.tag "batch" = none

/-- A link whose client is in the channel and on which no text is on its way. -/
structure Ready (channel : Str) (place : Place) (log : MessageLog) (l : Link) : Prop where
  registered : l.client.phase = .registered
  filed : ∀ line, placeOf (l.client.context false) line channel = place
  held : l.client.model.logAt place = some log
  numbered : ∀ key ∈ log.messages, key.seq < l.client.model.nextSeq
  outbox : ∀ line ∈ l.client.outbox.filterMap readEntry, line.is "PRIVMSG" = false
  inbound : ∀ line ∈ l.inbound, line.is "CAP" = true
  sent : l.sent = []
  taken : l.taken = []

/-- Texts that fit on a line and read apart from each other and from what the log holds, echoed
under ids of their own. -/
structure Plain (channel : Str) (log : MessageLog) (turns : List Turn) : Prop where
  fits : ∀ text ∈ texts turns, Fits [channel, text]
  apart : ((texts turns).map read).Nodup
  unheard : ∀ text ∈ texts turns, read text ∉ log.iter.map said
  fresh : (msgids turns).Nodup
  unknown : ∀ msgid ∈ msgids turns, log.contains msgid = false

/-- What holds of a link on the way: every text that was sent is on its way to the server or was
taken, and everything recorded is in the log or on its way to the client. -/
structure Running (channel : Str) (place : Place) (first : ℕ) (start : MessageLog) (l : Link)
    (turns : List Turn) (log : MessageLog) : Prop where
  registered : l.client.phase = .registered
  filed : ∀ line, placeOf (l.client.context false) line channel = place
  held : l.client.model.logAt place = some log
  retention : log.retention = start.retention
  numbered : ∀ key ∈ log.messages, key.seq < l.client.model.nextSeq
  nextSeq : l.client.model.nextSeq + l.arriving.length = first + l.recorded.length
  outbox : ∀ line ∈ l.client.outbox.filterMap readEntry,
    line.is "PRIVMSG" = true → Speaks channel line
  inbound : ∀ line ∈ l.inbound, line.is "CAP" = true ∨
    Speaks channel line ∧ (line.tag "msgid").isSome = true
  fresh : (l.echoIds ++ msgids turns).Nodup
  unknown : ∀ msgid ∈ l.echoIds ++ msgids turns, log.contains msgid = false
  fits : ∀ text ∈ texts turns, Fits [channel, text]
  apart : ((l.sent.map Prod.fst ++ texts turns).map read).Nodup
  unheard : ∀ text ∈ texts turns, read text ∉ start.iter.map said
  sent : l.sent.map Prod.fst = l.taken.map Prod.fst ++ l.outgoing
  heard : (log.iter.map said ++ l.arriving).Perm (start.iter.map said ++ l.recorded)

/-! ### What either side reads -/

/-- What is sent whole is read as it was built. -/
theorem readEntry_wireLine {message : Message} (h : SentWhole message) :
    ∃ line, readEntry (wireLine message) = some line ∧ line.command = message.command ∧
      line.tags = message.tags ∧ line.params = message.params := by
  obtain ⟨body, -, -, -, line, hparse, hcommand, htags, hparams⟩ := h
  refine ⟨line, ?_, hcommand, htags, hparams⟩
  unfold readEntry
  rw [hparse]
  rfl

theorem textOf_cap {line : Message} (h : line.is "CAP" = true) : textOf line = none := by
  unfold textOf
  rw [is_eq_false h (by decide), if_neg Bool.false_ne_true]

theorem filterMap_textOf_caps {lines : List Message} (h : ∀ line ∈ lines, line.is "CAP" = true) :
    lines.filterMap textOf = [] := by
  rw [List.filterMap_eq_nil_iff]
  intro line hline
  exact textOf_cap (h line hline)

/-- The requests of a client are read as capability lines. -/
theorem asks_reads {c d : Client} (h : Asks c d) :
    ∃ requests : List Message, (∀ line ∈ requests, line.is "CAP" = true) ∧
      d.outbox.filterMap readEntry = c.outbox.filterMap readEntry ++ requests := by
  obtain ⟨wanted, hwanted, houtbox⟩ := h.outbox
  refine ⟨(wanted.map fun name => wireLine (Message.new "CAP" ["REQ", name])).filterMap readEntry,
    ?_, ?_⟩
  · intro line hline
    obtain ⟨entry, hentry, hread⟩ := List.mem_filterMap.mp hline
    obtain ⟨name, hname, heq⟩ := List.mem_map.mp hentry
    have hfits : ∀ name ∈ wantedCaps, Fits ["REQ", name] := by decide
    have hwhole : SentWhole (Message.new "CAP" ["REQ", name]) := by
      have hcolon : ("CAP" : Str).head? ≠ some ':' := by decide
      rw [Message.new, sentWhole_iff (by simp) fun _ => hcolon, Message.sendable_own (by decide)]
      refine ⟨?_, hfits name (hwanted name hname)⟩
      intro tag htag
      exact absurd htag List.not_mem_nil
    obtain ⟨line', hread', hcommand, -, -⟩ := readEntry_wireLine hwhole
    rw [← heq, hread', Option.some.injEq] at hread
    rw [← hread]
    show eqIgnoreAsciiCase line'.command "CAP" = true
    rw [hcommand]
    show eqIgnoreAsciiCase "CAP" "CAP" = true
    decide
  · rw [houtbox, List.filterMap_append]

/-- A message to the channel is read as it was sent. -/
theorem reads_message (c : Client) {channel text : Str} (h : Fits [channel, text]) :
    ∃ line, readEntry (wireLine (c.labelled (Message.new "PRIVMSG" [channel, text]))) = some line ∧
      Speaks channel line ∧ textOf line = some text := by
  obtain ⟨line, hread, hcommand, htags, hparams⟩ :=
    readEntry_wireLine ((@sentWhole_labelled_new c "PRIVMSG" (by decide) _).mpr h)
  obtain ⟨-, hcommand', hparams'⟩ := c.labelled_fields (Message.new "PRIVMSG" [channel, text])
  rw [hcommand'] at hcommand
  rw [hparams'] at hparams
  have his : line.is "PRIVMSG" = true := by
    show eqIgnoreAsciiCase line.command "PRIVMSG" = true
    rw [hcommand]
    show eqIgnoreAsciiCase "PRIVMSG" "PRIVMSG" = true
    decide
  refine ⟨line, hread, ⟨his, ?_, ?_⟩, ?_⟩
  · unfold Message.param
    rw [hparams]
    rfl
  · unfold Message.tag
    rw [htags]
    unfold labelled
    split
    · rfl
    · rfl
  · unfold textOf Message.param
    rw [if_pos his, hparams]
    rfl

theorem get_append_singleton (tags : Tags) (tag : Tag) (key : Str) :
    Tags.get (tags ++ [tag]) key = if tag.key = key then tag.value else tags.get key := by
  unfold Tags.get
  rw [List.reverse_append, List.reverse_singleton, List.singleton_append, List.find?_cons]
  by_cases heq : tag.key = key
  · rw [beq_iff_eq.mpr heq, if_pos heq]
    rfl
  · rw [beq_eq_false_iff_ne.mpr heq, if_neg heq]

/-- An echo says what the line said, under the id that it was given. -/
theorem echoLine_speaks {channel : Str} {line : Message} (h : Speaks channel line) (mask : Source)
    (msgid : Str) (time : Option Str) :
    Speaks channel (echoLine mask line msgid time) ∧
      (echoLine mask line msgid time).tag "msgid" = some msgid := by
  have hget : ∀ key : Str, key ≠ "time" → (echoLine mask line msgid time).tag key =
      Tags.get (line.tags ++ [Tag.new "msgid" msgid]) key := by
    intro key hkey
    unfold Message.tag echoLine
    cases time with
    | none =>
        show Tags.get (line.tags ++ [Tag.new "msgid" msgid] ++ []) key = _
        rw [List.append_nil]
    | some time =>
        show Tags.get (line.tags ++ [Tag.new "msgid" msgid] ++ [Tag.new "time" time]) key = _
        rw [get_append_singleton, if_neg]
        exact Ne.symm hkey
  refine ⟨⟨h.command, h.target, ?_⟩, ?_⟩
  · rw [hget "batch" (by decide), get_append_singleton, if_neg]
    · exact h.unbatched
    · show ("msgid" : Str) ≠ "batch"
      decide
  · rw [hget "msgid" (by decide), get_append_singleton, if_pos]
    · rfl
    · rfl

/-! ### One turn -/

section Step

variable {channel : Str} {place : Place} {first : ℕ} {start log : MessageLog} {l : Link}
  {turns : List Turn}

theorem texts_cons (turn : Turn) (turns : List Turn) :
    texts (turn :: turns) = turn.text.toList ++ texts turns := by
  unfold texts
  rw [List.filterMap_cons]
  cases turn.text with
  | none => rfl
  | some text => rfl

theorem msgids_cons (turn : Turn) (turns : List Turn) :
    msgids (turn :: turns) = turn.msgid.toList ++ msgids turns := by
  unfold msgids
  rw [List.filterMap_cons]
  cases turn.msgid with
  | none => rfl
  | some msgid => rfl

/-- A turn that nothing comes of. -/
theorem Running.drop {turn : Turn} (h : Running channel place first start l (turn :: turns) log)
    (htext : turn.text = none) : Running channel place first start l turns log := by
  have htexts : texts (turn :: turns) = texts turns := by
    rw [texts_cons, htext]
    rfl
  have hsub : (l.echoIds ++ msgids turns).Sublist (l.echoIds ++ msgids (turn :: turns)) := by
    rw [msgids_cons]
    exact (List.Sublist.refl _).append (List.sublist_append_right _ _)
  obtain ⟨hregistered, hfiled, hheld, hretention, hnumbered, hnextSeq, houtbox, hinbound, hfresh,
    hunknown, hfits, hapart, hunheard, hsent, hheard⟩ := h
  rw [htexts] at hfits hapart hunheard
  exact ⟨hregistered, hfiled, hheld, hretention, hnumbered, hnextSeq, houtbox, hinbound,
    hfresh.sublist hsub, fun msgid hmsgid => hunknown msgid (hsub.subset hmsgid), hfits, hapart,
    hunheard, hsent, hheard⟩

theorem arriving_queued (l : Link) (d : Client) (lines : List Message) (echoing : Bool)
    (taken : List (Str × Bool)) :
    arriving
        { l with client := d, inbound := l.inbound ++ lines, echoing := echoing, taken := taken } =
      l.arriving ++ (lines.filterMap textOf).map read := by
  show ((l.inbound ++ lines).filterMap textOf).map read = _
  rw [List.filterMap_append, List.map_append]
  rfl

theorem echoIds_queued (l : Link) (d : Client) (lines : List Message) (echoing : Bool)
    (taken : List (Str × Bool)) :
    echoIds
        { l with client := d, inbound := l.inbound ++ lines, echoing := echoing, taken := taken } =
      l.echoIds ++ (lines.filter fun line => line.is "PRIVMSG").filterMap fun line =>
        line.tag "msgid" := by
  show ((l.inbound ++ lines).filter _).filterMap _ = _
  rw [List.filter_append, List.filterMap_append]
  rfl

theorem recorded_taken (l : Link) (d : Client) (inbound : List Message) (text : Str)
    (echoing : Bool) :
    recorded { l with client := d, inbound := inbound, taken := l.taken ++ [(text, echoing)] } =
      l.recorded ++ if echoing then [read text] else [] := by
  show _ ++ ((l.taken ++ [(text, echoing)]).filter _).map _ = _
  rw [List.filter_append, List.map_append, ← List.append_assoc]
  cases echoing with
  | false => rfl
  | true => rfl

/-- The server answers or tells about capabilities. -/
theorem Running.told (h : Running channel place first start l turns log) {line : Message}
    (hline : line.is "CAP" = true) (echoing : Bool) :
    Running channel place first start { l with inbound := l.inbound ++ [line], echoing := echoing }
      turns log := by
  have hword : line.is "PRIVMSG" = false := is_eq_false hline (by decide)
  have hids : echoIds { l with inbound := l.inbound ++ [line], echoing := echoing } =
      l.echoIds := by
    rw [echoIds_queued, List.filter_singleton, hword]
    exact List.append_nil _
  have harriving : arriving { l with inbound := l.inbound ++ [line], echoing := echoing } =
      l.arriving := by
    rw [arriving_queued, List.filterMap_cons, textOf_cap hline]
    exact List.append_nil _
  refine ⟨h.registered, h.filed, h.held, h.retention, h.numbered, ?_, h.outbox, ?_, ?_, ?_, h.fits,
    h.apart, h.unheard, h.sent, ?_⟩
  · rw [harriving]
    exact h.nextSeq
  · intro other hother
    rcases List.mem_append.mp hother with hother | hother
    · exact h.inbound other hother
    · rw [List.mem_singleton.mp hother]
      exact .inl hline
  · rw [hids]
    exact h.fresh
  · rw [hids]
    exact h.unknown
  · rw [harriving]
    exact h.heard

/-- The server reads an entry that says nothing. -/
theorem Running.skipped (h : Running channel place first start l turns log) {entry : Bytes}
    {rest : List Bytes} (houtbox : l.client.outbox = entry :: rest)
    (hword : (readEntry entry).bind textOf = none) :
    Running channel place first start { l with client := { l.client with outbox := rest } }
      turns log := by
  have hread : l.client.outbox.filterMap readEntry =
      (readEntry entry).toList ++ rest.filterMap readEntry := by
    rw [houtbox, List.filterMap_cons]
    cases readEntry entry with
    | none => rfl
    | some line => rfl
  refine ⟨h.registered, h.filed, h.held, h.retention, h.numbered, h.nextSeq, ?_, h.inbound, h.fresh,
    h.unknown, h.fits, h.apart, h.unheard, ?_, h.heard⟩
  · intro line hline
    refine h.outbox line ?_
    rw [hread]
    exact List.mem_append_right _ hline
  · rw [h.sent]
    show _ = _ ++ (rest.filterMap readEntry).filterMap textOf
    unfold outgoing
    rw [hread, List.filterMap_append]
    cases hentry : readEntry entry with
    | none => rfl
    | some line =>
        rw [hentry] at hword
        have hnone : textOf line = none := hword
        show _ ++ (List.filterMap textOf [line] ++ _) = _
        rw [List.filterMap_cons, hnone]
        rfl

/-- What the client asks of the server says nothing. -/
theorem Running.asked (h : Running channel place first start l turns log) {d : Client}
    (hasks : Asks l.client d) :
    (∀ line ∈ d.outbox.filterMap readEntry, line.is "PRIVMSG" = true → Speaks channel line) ∧
      (d.outbox.filterMap readEntry).filterMap textOf = l.outgoing := by
  obtain ⟨requests, hcaps, hreads⟩ := asks_reads hasks
  rw [hreads]
  constructor
  · intro line hline hword
    rcases List.mem_append.mp hline with hline | hline
    · exact h.outbox line hline hword
    · rw [is_eq_false (hcaps line hline) (by decide)] at hword
      cases hword
  · rw [List.filterMap_append, filterMap_textOf_caps hcaps, List.append_nil]
    rfl

/-- A step of the client that says nothing. -/
theorem Running.quiet (h : Running channel place first start l turns log) {d : Client}
    (hasks : Asks l.client d) (hmodel : d.model = l.client.model) :
    Running channel place first start { l with client := d } turns log := by
  obtain ⟨hspoken, houtgoing⟩ := h.asked hasks
  refine ⟨hasks.phase.trans h.registered, ?_, ?_, h.retention, ?_, ?_, hspoken, h.inbound, h.fresh,
    h.unknown, h.fits, h.apart, h.unheard, h.sent.trans (congrArg _ houtgoing.symm), h.heard⟩
  · intro line
    rw [placeOf_congr hasks.isupport (by rw [hmodel]) line channel]
    exact h.filed line
  · show d.model.logAt place = _
    rw [hmodel]
    exact h.held
  · show ∀ key ∈ log.messages, key.seq < d.model.nextSeq
    rw [hmodel]
    exact h.numbered
  · show d.model.nextSeq + _ = _
    rw [hmodel]
    exact h.nextSeq

/-- What is held and what arrives is as much as was recorded. -/
theorem Running.length (h : Running channel place first start l turns log) :
    log.iter.length + l.arriving.length = start.iter.length + l.recorded.length := by
  have hlength := h.heard.length_eq
  rw [List.length_append, List.length_append, List.length_map, List.length_map] at hlength
  exact hlength

/-- A text that is sent now is in nobody's log yet. -/
theorem Running.unsaid {text : Str}
    (h : Running channel place first start l (.say text :: turns) log) :
    read text ∉ log.iter.map said := by
  intro hmem
  have htexts : text ∈ texts (.say text :: turns) := List.mem_cons_self
  have hpast : read text ∉ l.sent.map fun p => read p.1 := by
    have hapart := h.apart
    rw [texts_cons, List.map_append, List.nodup_append] at hapart
    intro hpast
    obtain ⟨p, hp, heq⟩ := List.mem_map.mp hpast
    exact hapart.2.2 (read p.1) (List.mem_map_of_mem (List.mem_map_of_mem hp)) (read text)
      (List.mem_map_of_mem List.mem_cons_self) heq
  have hrecorded := (h.heard.subset (List.mem_append_left _ hmem))
  rcases List.mem_append.mp hrecorded with hstart | hrecorded
  · exact h.unheard text htexts hstart
  · rcases List.mem_append.mp hrecorded with hsent | htaken
    · obtain ⟨p, hp, heq⟩ := List.mem_map.mp hsent
      exact hpast (List.mem_map.mpr ⟨p, List.mem_of_mem_filter hp, heq⟩)
    · -- what was taken was sent
      obtain ⟨p, hp, heq⟩ := List.mem_map.mp htaken
      have hmem : p.1 ∈ l.sent.map Prod.fst := by
        rw [h.sent]
        exact List.mem_append_left _ (List.mem_map_of_mem (List.mem_of_mem_filter hp))
      obtain ⟨q, hq, hsame⟩ := List.mem_map.mp hmem
      refine hpast (List.mem_map.mpr ⟨q, hq, ?_⟩)
      show read q.1 = read text
      rw [hsame]
      exact heq

/-- The message that a text is filed as without an echo has no twin in the log. -/
theorem Running.unheld {text : Str} {message : ChatMessage}
    (h : Running channel place first start l (.say text :: turns) log)
    (hsaid : said message = read text) (hid : message.msgid = none) :
      log.holds message = false := by
  unfold MessageLog.holds
  rw [hid]
  show log.hasTwin message = false
  rw [Bool.eq_false_iff, ne_eq, MessageLog.hasTwin_iff]
  intro htwin
  obtain ⟨held, hmem, -, -, -, hsame, hkind⟩ := htwin
  refine h.unsaid (List.mem_map.mpr ⟨held, MessageLog.mem_iter.mpr hmem, ?_⟩)
  show (held.kind, held.text) = read text
  rw [hkind, hsame]
  exact hsaid

theorem recorded_sent (l : Link) (d : Client) (text : Str) (held : Bool) :
    (recorded { l with client := d, sent := l.sent ++ [(text, held)] }).Perm
      ((if held then [] else [read text]) ++ l.recorded) := by
  show ((List.filter _ (l.sent ++ [(text, held)])).map _ ++ _).Perm _
  rw [List.filter_append, List.map_append]
  cases held with
  | true =>
      show (_ ++ [] ++ _).Perm ([] ++ _)
      rw [List.append_nil, List.nil_append]
      exact List.Perm.refl _
  | false =>
      show (_ ++ [read text] ++ _).Perm ([read text] ++ _)
      rw [List.append_assoc]
      exact List.perm_append_comm_assoc _ _ _

/-- The host sends a message. -/
theorem Running.says [Primitives] {text : Str}
    (h : Running channel place first start l (.say text :: turns) log)
    (hroom : start.iter.length + (l.step channel (.say text)).recorded.length ≤ start.retention)
    (hseq : first + (l.step channel (.say text)).recorded.length < 2 ^ 64) :
    ∃ log', Running channel place first start (l.step channel (.say text)) turns log' := by
  obtain ⟨hphase, hisupport, houtbox, hfiled⟩ :=
    @command_sendMessage _ l.client channel text place h.filed
  have hstep : l.step channel (.say text) =
      { l with
        client := l.client.command (.sendMessage channel text)
        sent := l.sent ++ [(text, l.client.caps.has "echo-message")] } := rfl
  have hrecorded := l.recorded_sent (l.client.command (.sendMessage channel text)) text
    (l.client.caps.has "echo-message")
  obtain ⟨line, hread, hspeaks, htext⟩ := reads_message l.client (h.fits text List.mem_cons_self)
  rw [hstep] at hroom hseq ⊢
  rw [hrecorded.length_eq] at hroom hseq
  generalize l.client.command (.sendMessage channel text) = d at *
  have hreads : d.outbox.filterMap readEntry = l.client.outbox.filterMap readEntry ++ [line] := by
    rw [houtbox, List.filterMap_append, List.filterMap_cons, hread]
    rfl
  have houtgoing : (d.outbox.filterMap readEntry).filterMap textOf = l.outgoing ++ [text] := by
    rw [hreads, List.filterMap_append, List.filterMap_cons, htext]
    rfl
  have hspoken : ∀ line ∈ d.outbox.filterMap readEntry, line.is "PRIVMSG" = true →
      Speaks channel line := by
    rw [hreads]
    intro other hother hword
    rcases List.mem_append.mp hother with hother | hother
    · exact h.outbox other hother hword
    · rw [List.mem_singleton.mp hother]
      exact hspeaks
  have hfits : ∀ text ∈ texts turns, Fits [channel, text] := fun other hother =>
    h.fits other (List.mem_cons_of_mem _ hother)
  have hunheard : ∀ text ∈ texts turns, read text ∉ start.iter.map said := fun other hother =>
    h.unheard other (List.mem_cons_of_mem _ hother)
  have hapart : (((l.sent ++ [(text, l.client.caps.has "echo-message")]).map Prod.fst ++
      texts turns).map read).Nodup := by
    have hall : (l.sent ++ [(text, l.client.caps.has "echo-message")]).map Prod.fst ++ texts turns =
        l.sent.map Prod.fst ++ texts (.say text :: turns) := by
      rw [List.map_append, List.append_assoc]
      rfl
    rw [hall]
    exact h.apart
  have hsent : (l.sent ++ [(text, l.client.caps.has "echo-message")]).map Prod.fst =
      l.taken.map Prod.fst ++ (d.outbox.filterMap readEntry).filterMap textOf := by
    rw [houtgoing, List.map_append, h.sent, List.append_assoc]
    rfl
  have hplaces : d.model.me = l.client.model.me →
      ∀ line, placeOf (d.context false) line channel = place := fun hme line =>
    (placeOf_congr hisupport hme line channel).trans (h.filed line)
  cases hheld : l.client.caps.has "echo-message" with
  | true =>
      rw [hheld] at hfiled hrecorded hsent hapart
      have hmodel : d.model = l.client.model := hfiled
      refine ⟨log, hphase.trans h.registered, hplaces (by rw [hmodel]), ?_, h.retention, ?_, ?_,
        hspoken, h.inbound, h.fresh, h.unknown, hfits, hapart, hunheard, hsent, ?_⟩
      · show d.model.logAt place = _
        rw [hmodel]
        exact h.held
      · show ∀ key ∈ log.messages, key.seq < d.model.nextSeq
        rw [hmodel]
        exact h.numbered
      · show d.model.nextSeq + _ = _
        rw [hmodel, hrecorded.length_eq]
        exact h.nextSeq
      · exact h.heard.trans (List.Perm.append_left _ hrecorded.symm)
  | false =>
      rw [hheld] at hfiled hrecorded hsent hapart hroom hseq
      obtain ⟨message, hsaid, hid, hfiles⟩ := hfiled
      have hmore : ((if false = true then [] else [read text]) ++ l.recorded).length =
          l.recorded.length + 1 := by
        rw [List.length_append]
        exact Nat.add_comm _ _
      rw [hmore] at hroom hseq
      have hlength := h.length
      have hnext := h.nextSeq
      obtain ⟨hlog, hseq', hiter, hnumbered⟩ := hfiles.put h.held h.numbered (h.unheld hsaid hid)
        (by rw [h.retention]; omega) (by omega)
      refine ⟨log.put message, hphase.trans h.registered, hplaces hfiles.me, hlog, h.retention,
        hnumbered, ?_, hspoken, h.inbound, h.fresh, ?_, hfits, hapart, hunheard, hsent, ?_⟩
      · show d.model.nextSeq + l.arriving.length = _
        rw [hrecorded.length_eq, hmore]
        omega
      · intro msgid hmsgid
        rw [Bool.eq_false_iff, ne_eq, MessageLog.contains_put, hid]
        intro hknown
        rcases hknown with hnone | hknown
        · cases hnone
        · rw [h.unknown msgid hmsgid] at hknown
          cases hknown
      · have hsaid' : said message = read text := hsaid
        have hmessages := hiter.map said
        rw [List.map_cons, hsaid'] at hmessages
        show ((log.put message).iter.map said ++ l.arriving).Perm _
        refine (hmessages.append_right _).trans ?_
        refine ((h.heard.cons (read text)).trans ?_).trans
          (List.Perm.append_left _ hrecorded.symm)
        exact (List.perm_middle (a := read text)).symm

theorem step_serve_nil [Primitives] {msgid : Str} {time : Option Str} (h : l.client.outbox = []) :
    l.step channel (.serve msgid time) = l := by
  have hsame : ({ l.client with outbox := l.client.outbox.tail } : Client) = l.client := by
    rw [h, List.tail_nil, ← h]
  have hstep : l.step channel (.serve msgid time) =
      ((l.client.outbox.head?.bind readEntry).map fun line =>
        ({ l with client := { l.client with outbox := l.client.outbox.tail } } : Link).take line
          msgid
          time).getD { l with client := { l.client with outbox := l.client.outbox.tail } } := by
    unfold step
    dsimp only [pollTransmit]
    cases l.client.outbox.head?.bind readEntry with
    | none => rfl
    | some line => rfl
  rw [hstep, hsame, h]
  rfl

theorem step_serve_cons [Primitives] {msgid : Str} {time : Option Str} {entry : Bytes}
    {rest : List Bytes} (h : l.client.outbox = entry :: rest) :
    l.step channel (.serve msgid time) =
      ((readEntry entry).map fun line =>
        ({ l with client := { l.client with outbox := rest } } : Link).take line msgid time).getD
        { l with client := { l.client with outbox := rest } } := by
  unfold step
  dsimp only [pollTransmit]
  rw [h]
  dsimp only [List.head?_cons, List.tail_cons, Option.bind_some]
  cases readEntry entry with
  | none => rfl
  | some line => rfl

/-- The server takes a text. -/
theorem Running.takes {msgid : Str} {time : Option Str} {entry : Bytes} {rest : List Bytes}
    {line : Message} (h : Running channel place first start l (.serve msgid time :: turns) log)
    (houtbox : l.client.outbox = entry :: rest) (hread : readEntry entry = some line)
    (hword : line.is "PRIVMSG" = true) :
    Running channel place first start
      { l with
        client := { l.client with outbox := rest }
        inbound := l.inbound ++ if l.echoing then [echoLine l.mask line msgid time] else []
        taken := l.taken ++ [((line.param 1).getD [], l.echoing)] } turns log := by
  have hreads : l.client.outbox.filterMap readEntry = line :: rest.filterMap readEntry := by
    rw [houtbox, List.filterMap_cons, hread]
  have htext : textOf line = some ((line.param 1).getD []) := by
    unfold textOf
    rw [if_pos hword]
  have hspeaks : Speaks channel line :=
    h.outbox line (by rw [hreads]; exact List.mem_cons_self) hword
  obtain ⟨hecho, hmsgid⟩ := echoLine_speaks hspeaks l.mask msgid time
  have hechoed : textOf (echoLine l.mask line msgid time) = some ((line.param 1).getD []) := htext
  have hspoken : ∀ line ∈ rest.filterMap readEntry, line.is "PRIVMSG" = true →
      Speaks channel line := by
    intro other hother
    refine h.outbox other ?_
    rw [hreads]
    exact List.mem_cons_of_mem _ hother
  have hsent : l.sent.map Prod.fst =
      (l.taken ++ [((line.param 1).getD [], l.echoing)]).map Prod.fst ++
        (rest.filterMap readEntry).filterMap textOf := by
    rw [h.sent]
    unfold outgoing
    rw [hreads, List.filterMap_cons, htext, List.map_append, List.append_assoc]
    rfl
  -- what is echoed is on its way to the client as soon as it is recorded
  generalize hechoes : (if l.echoing then [echoLine l.mask line msgid time] else []) = echoes
  have hrecorded : (echoes.filterMap textOf).map read =
      if l.echoing then [read ((line.param 1).getD [])] else [] := by
    rw [← hechoes]
    cases l.echoing with
    | false => rfl
    | true =>
        rw [if_pos rfl, if_pos rfl, List.filterMap_cons, hechoed]
        rfl
  have hids : (l.echoIds ++ ((echoes.filter fun line => line.is "PRIVMSG").filterMap fun line =>
      line.tag "msgid") ++ msgids turns).Sublist
        (l.echoIds ++ msgids (.serve msgid time :: turns)) := by
    rw [msgids_cons, List.append_assoc, ← hechoes]
    refine (List.Sublist.refl _).append (List.Sublist.append ?_ (List.Sublist.refl _))
    cases l.echoing with
    | false => exact List.nil_sublist _
    | true =>
        rw [if_pos rfl, List.filter_singleton, hecho.command, cond_true, List.filterMap_cons,
          hmsgid]
        exact List.Sublist.refl _
  refine ⟨h.registered, h.filed, h.held, h.retention, h.numbered, ?_, hspoken, ?_, ?_, ?_, h.fits,
    h.apart, h.unheard, hsent, ?_⟩
  · rw [arriving_queued, recorded_taken, hrecorded, List.length_append, List.length_append,
      ← Nat.add_assoc, ← Nat.add_assoc, ← h.nextSeq]
  · intro other hother
    rcases List.mem_append.mp hother with hother | hother
    · exact h.inbound other hother
    · rw [← hechoes] at hother
      cases hechoing : l.echoing with
      | false =>
          rw [hechoing] at hother
          cases hother
      | true =>
          rw [hechoing] at hother
          rw [List.mem_singleton.mp hother]
          exact .inr ⟨hecho, by rw [hmsgid]; rfl⟩
  · rw [echoIds_queued]
    exact h.fresh.sublist hids
  · rw [echoIds_queued]
    exact fun msgid hmsgid => h.unknown msgid (hids.subset hmsgid)
  · rw [arriving_queued, recorded_taken, hrecorded, ← List.append_assoc, ← List.append_assoc]
    exact h.heard.append_right _

/-- The client hears an echo. -/
theorem Running.hears [Primitives] {line : Message} {rest : List Message}
    (h : Running channel place first start l turns log) (hinbound : l.inbound = line :: rest)
    (hspeaks : Speaks channel line) (hid : (line.tag "msgid").isSome = true)
    (hroom : start.iter.length + l.recorded.length ≤ start.retention)
    (hseq : first + l.recorded.length < 2 ^ 64) :
    ∃ log', Running channel place first start
      { l with client := l.client.handleMessage line, inbound := rest } turns log' := by
  obtain ⟨msgid, hmsgid⟩ := Option.isSome_iff_exists.mp hid
  have htext : textOf line = some ((line.param 1).getD []) := by
    unfold textOf
    rw [if_pos hspeaks.command]
  have hids : l.echoIds =
      msgid :: (rest.filter fun line => line.is "PRIVMSG").filterMap fun line =>
        line.tag "msgid" := by
    unfold echoIds
    rw [hinbound, List.filter_cons, if_pos hspeaks.command, List.filterMap_cons, hmsgid]
  have harriving : l.arriving =
      read ((line.param 1).getD []) :: (rest.filterMap textOf).map read := by
    unfold arriving
    rw [hinbound, List.filterMap_cons, htext]
    rfl
  obtain ⟨hasks, hfiles⟩ := handleMessage_files hspeaks.command hspeaks.target hspeaks.unbatched
    (h.filed line)
  obtain ⟨hspoken, houtgoing⟩ := h.asked hasks
  generalize hmessage : chatMessage (l.client.context false) line "PRIVMSG" = message at hfiles
  have hsaid : said message = read ((line.param 1).getD []) := by
    rw [← hmessage]
    rfl
  have hownId : message.msgid = some msgid := by
    rw [← hmessage]
    exact hmsgid
  generalize l.client.handleMessage line = d at *
  have hunknown := h.unknown
  have hfresh := h.fresh
  rw [hids, List.cons_append] at hunknown hfresh
  have hholds : log.holds message = false := by
    unfold MessageLog.holds
    rw [hownId]
    exact hunknown msgid List.mem_cons_self
  have hlength := h.length
  have hnext := h.nextSeq
  rw [harriving, List.length_cons] at hlength hnext
  obtain ⟨hlog, hseq', hiter, hnumbered⟩ := hfiles.put h.held h.numbered hholds
    (by rw [h.retention]; omega) (by omega)
  refine ⟨log.put message, hasks.phase.trans h.registered, ?_, hlog, h.retention, hnumbered, ?_,
    hspoken, ?_, (List.nodup_cons.mp hfresh).2, ?_, h.fits, h.apart, h.unheard,
    h.sent.trans (congrArg _ houtgoing.symm), ?_⟩
  · intro line
    exact (placeOf_congr hasks.isupport hfiles.me line channel).trans (h.filed line)
  · show d.model.nextSeq + ((rest.filterMap textOf).map read).length = first + l.recorded.length
    omega
  · intro other hother
    refine h.inbound other ?_
    rw [hinbound]
    exact List.mem_cons_of_mem _ hother
  · intro other hother
    rw [Bool.eq_false_iff, ne_eq, MessageLog.contains_put, hownId]
    intro hknown
    rcases hknown with hsame | hknown
    · rw [Option.some.injEq] at hsame
      rw [hsame] at hfresh
      exact (List.nodup_cons.mp hfresh).1 hother
    · rw [hunknown other (List.mem_cons_of_mem _ hother)] at hknown
      cases hknown
  · have hmessages := hiter.map said
    rw [List.map_cons, hsaid] at hmessages
    have hheard := h.heard
    rw [harriving] at hheard
    show ((log.put message).iter.map said ++ (rest.filterMap textOf).map read).Perm _
    refine (hmessages.append_right _).trans ?_
    exact List.perm_middle.symm.trans hheard

/-- The client hears about capabilities. -/
theorem Running.learns [Primitives] {line : Message} {rest : List Message}
    (h : Running channel place first start l turns log) (hinbound : l.inbound = line :: rest)
    (hcap : line.is "CAP" = true) :
    Running channel place first start
      { l with client := l.client.handleMessage line, inbound := rest } turns log := by
  obtain ⟨hasks, hmodel⟩ := handleMessage_cap h.registered hcap
  have hquiet := h.quiet hasks hmodel
  have hids : l.echoIds = echoIds
      { l with client := l.client.handleMessage line, inbound := rest } := by
    unfold echoIds
    rw [hinbound, List.filter_cons, is_eq_false hcap (by decide), if_neg Bool.false_ne_true]
  have harriving : l.arriving = arriving
      { l with client := l.client.handleMessage line, inbound := rest } := by
    unfold arriving
    rw [hinbound, List.filterMap_cons, textOf_cap hcap]
  refine ⟨hquiet.registered, hquiet.filed, hquiet.held, hquiet.retention, hquiet.numbered, ?_,
    hquiet.outbox, ?_, ?_, ?_, hquiet.fits, hquiet.apart, hquiet.unheard, hquiet.sent, ?_⟩
  · rw [← harriving]
    exact hquiet.nextSeq
  · intro other hother
    refine h.inbound other ?_
    rw [hinbound]
    exact List.mem_cons_of_mem _ hother
  · rw [← hids]
    exact hquiet.fresh
  · rw [← hids]
    exact hquiet.unknown
  · rw [← harriving]
    exact hquiet.heard

theorem capLine_is (l : Link) (subcommand list : Str) :
    (l.capLine subcommand list).is "CAP" = true := by
  show eqIgnoreAsciiCase "CAP" "CAP" = true
  decide

/-- The server takes the next line. -/
theorem Running.serves [Primitives] {msgid : Str} {time : Option Str}
    (h : Running channel place first start l (.serve msgid time :: turns) log) :
    Running channel place first start (l.step channel (.serve msgid time)) turns log := by
  cases houtbox : l.client.outbox with
  | nil =>
      rw [step_serve_nil houtbox]
      exact h.drop rfl
  | cons entry rest =>
      rw [step_serve_cons houtbox]
      cases hread : readEntry entry with
      | none => exact (h.drop rfl).skipped houtbox (by rw [hread]; rfl)
      | some line =>
          rw [Option.map_some, Option.getD_some]
          unfold take
          by_cases hword : line.is "PRIVMSG" = true
          · rw [if_pos hword]
            exact h.takes houtbox hread hword
          · rw [if_neg hword]
            have hskipped := (h.drop rfl).skipped houtbox (by
              rw [hread, Option.bind_some]
              unfold textOf
              rw [if_neg hword])
            split
            · exact hskipped.told (l.capLine_is "ACK" _) _
            · exact hskipped

/-- **One turn** keeps a link running, while there is room for what comes of it. -/
theorem Running.step [Primitives] {turn : Turn}
    (h : Running channel place first start l (turn :: turns) log)
    (hroom : start.iter.length + (l.step channel turn).recorded.length ≤ start.retention)
    (hseq : first + (l.step channel turn).recorded.length < 2 ^ 64) :
    ∃ log', Running channel place first start (l.step channel turn) turns log' := by
  cases turn with
  | say text => exact h.says hroom hseq
  | offer list => exact ⟨log, (h.drop rfl).told (l.capLine_is "NEW" list) l.echoing⟩
  | revoke list => exact ⟨log, (h.drop rfl).told (l.capLine_is "DEL" list) _⟩
  | serve msgid time => exact ⟨log, h.serves⟩
  | deliver =>
      unfold Link.step at hroom hseq ⊢
      cases hinbound : l.inbound with
      | nil => exact ⟨log, h.drop rfl⟩
      | cons line rest =>
          rw [hinbound] at hroom hseq
          have hmem : line ∈ l.inbound := by
            rw [hinbound]
            exact List.mem_cons_self
          rcases h.inbound line hmem with hcap | ⟨hspeaks, hid⟩
          · exact ⟨log, (h.drop rfl).learns hinbound hcap⟩
          · exact (h.drop rfl).hears hinbound hspeaks hid hroom hseq

/-- What was recorded stays recorded. -/
theorem recorded_le_step [Primitives] (channel : Str) (l : Link) (turn : Turn) :
    l.recorded.length ≤ (l.step channel turn).recorded.length := by
  have htaken : ∀ (m : Link) (p : Str × Bool), m.sent = l.sent → m.taken = l.taken ++ [p] →
      l.recorded.length ≤ m.recorded.length := by
    intro m p hsent htaken
    unfold recorded
    rw [hsent, htaken, List.filter_append, List.map_append, ← List.append_assoc]
    exact (List.sublist_append_left _ _).length_le
  have hsame : ∀ m : Link, m.sent = l.sent → m.taken = l.taken →
      l.recorded.length ≤ m.recorded.length := by
    intro m hsent htaken
    unfold recorded
    rw [hsent, htaken]
  cases turn with
  | say text =>
      show _ ≤ (recorded { l with client := _, sent := l.sent ++ [(text, _)] }).length
      rw [(l.recorded_sent _ text _).length_eq, List.length_append]
      exact Nat.le_add_left _ _
  | offer list => exact hsame _ rfl rfl
  | revoke list => exact hsame _ rfl rfl
  | serve msgid time =>
      cases houtbox : l.client.outbox with
      | nil => rw [step_serve_nil houtbox]
      | cons entry rest =>
          rw [step_serve_cons houtbox]
          cases readEntry entry with
          | none => exact hsame _ rfl rfl
          | some line =>
              rw [Option.map_some, Option.getD_some]
              unfold take
              split
              · exact htaken _ _ rfl rfl
              split
              · exact hsame _ rfl rfl
              · exact hsame _ rfl rfl
  | deliver =>
      unfold Link.step
      cases l.inbound with
      | nil => exact le_rfl
      | cons line rest => exact hsame _ rfl rfl

theorem sent_step [Primitives] (channel : Str) (l : Link) (turn : Turn) :
    (l.step channel turn).sent.map Prod.fst = l.sent.map Prod.fst ++ turn.text.toList := by
  cases turn with
  | say text =>
      show (l.sent ++ [(text, _)]).map Prod.fst = _
      rw [List.map_append]
      rfl
  | offer list => exact (List.append_nil _).symm
  | revoke list => exact (List.append_nil _).symm
  | serve msgid time =>
      refine Eq.trans ?_ (List.append_nil _).symm
      cases houtbox : l.client.outbox with
      | nil => rw [step_serve_nil houtbox]
      | cons entry rest =>
          rw [step_serve_cons houtbox]
          cases readEntry entry with
          | none => rfl
          | some line =>
              rw [Option.map_some, Option.getD_some]
              unfold take
              split
              · rfl
              split
              · rfl
              · rfl
  | deliver =>
      refine Eq.trans ?_ (List.append_nil _).symm
      unfold Link.step
      cases l.inbound with
      | nil => rfl
      | cons line rest => rfl

theorem length_recorded (l : Link) :
    l.recorded.length =
      (l.sent.filter fun p => !p.2).length + (l.taken.filter fun p => p.2).length := by
  unfold recorded
  rw [List.length_append, List.length_map, List.length_map]

/-- At most two records come of a text. -/
theorem Running.recorded_le (h : Running channel place first start l turns log) :
    l.recorded.length ≤ 2 * l.sent.length := by
  have hsent := congrArg List.length h.sent
  rw [List.length_append, List.length_map, List.length_map] at hsent
  have hheld := List.length_filter_le (fun p => !p.2) l.sent
  have hechoed := List.length_filter_le (fun p => p.2) l.taken
  rw [length_recorded]
  omega

theorem Running.recorded_step_le [Primitives] {turn : Turn}
    (h : Running channel place first start l (turn :: turns) log) :
    (l.step channel turn).recorded.length ≤ 2 * (l.step channel turn).sent.length := by
  cases turn with
  | say text =>
      have hbefore := h.recorded_le
      show (recorded { l with client := _, sent := l.sent ++ [(text, _)] }).length ≤
        2 * (l.sent ++ [(text, _)]).length
      rw [(l.recorded_sent _ text _).length_eq, List.length_append, List.length_append,
        List.length_singleton]
      split
      · rw [List.length_nil]
        omega
      · rw [List.length_singleton]
        omega
  | offer list => exact ((h.drop rfl).told (l.capLine_is "NEW" list) l.echoing).recorded_le
  | revoke list => exact h.recorded_le
  | serve msgid time => exact h.serves.recorded_le
  | deliver =>
      have hbefore := h.recorded_le
      unfold Link.step
      cases l.inbound with
      | nil => exact hbefore
      | cons line rest => exact hbefore

end Step

/-! ### Whole runs -/

section Run

variable [Primitives] {channel : Str} {place : Place} {first : ℕ} {start log : MessageLog}
  {l : Link} {turns : List Turn}

theorem recorded_le_run (channel : Str) (l : Link) (turns : List Turn) :
    l.recorded.length ≤ (l.run channel turns).recorded.length := by
  induction turns generalizing l with
  | nil => exact le_rfl
  | cons turn turns ih => exact (recorded_le_step channel l turn).trans (ih _)

theorem sent_run (channel : Str) (l : Link) (turns : List Turn) :
    (l.run channel turns).sent.map Prod.fst = l.sent.map Prod.fst ++ texts turns := by
  induction turns generalizing l with
  | nil => exact (List.append_nil _).symm
  | cons turn turns ih =>
      show ((l.step channel turn).run channel turns).sent.map Prod.fst = _
      rw [ih, sent_step, texts_cons, List.append_assoc]

/-- **A whole run** keeps a link running, while there is room for what comes of it. -/
theorem Running.run (h : Running channel place first start l turns log)
    (hroom : start.iter.length + (l.run channel turns).recorded.length ≤ start.retention)
    (hseq : first + (l.run channel turns).recorded.length < 2 ^ 64) :
    ∃ log', Running channel place first start (l.run channel turns) [] log' := by
  induction turns generalizing l log with
  | nil => exact ⟨log, h⟩
  | cons turn turns ih =>
      have hle := recorded_le_run channel (l.step channel turn) turns
      have hrun : l.run channel (turn :: turns) = (l.step channel turn).run channel turns := rfl
      rw [hrun] at hroom hseq ⊢
      obtain ⟨log', hstep⟩ := h.step (by omega) (by omega)
      exact ih hstep hroom hseq

/-- With room for every text twice, at most that much comes of a run. -/
theorem Running.recorded_run_le (h : Running channel place first start l turns log)
    (hroom : start.iter.length + 2 * (l.sent.length + (texts turns).length) ≤ start.retention)
    (hseq : first + 2 * (l.sent.length + (texts turns).length) < 2 ^ 64) :
    (l.run channel turns).recorded.length ≤ 2 * (l.sent.length + (texts turns).length) := by
  induction turns generalizing l log with
  | nil => exact h.recorded_le
  | cons turn turns ih =>
      have hle := h.recorded_step_le
      have hsent := congrArg List.length (sent_step channel l turn)
      rw [List.length_append, List.length_map, List.length_map] at hsent
      have htexts := congrArg List.length (texts_cons turn turns)
      rw [List.length_append] at htexts
      have hrun : l.run channel (turn :: turns) = (l.step channel turn).run channel turns := rfl
      have hmore : l.sent.length + (texts (turn :: turns)).length =
          (l.step channel turn).sent.length + (texts turns).length := by omega
      rw [hmore] at hroom hseq ⊢
      rw [hrun]
      obtain ⟨log', hstep⟩ := h.step (by omega) (by omega)
      exact ih hstep hroom hseq

omit [Primitives] in
theorem Ready.running (h : Ready channel place log l) (hturns : Plain channel log turns) :
    Running channel place l.client.model.nextSeq log l turns log := by
  have harriving : l.arriving = [] := by
    unfold arriving
    rw [filterMap_textOf_caps h.inbound]
    rfl
  have hids : l.echoIds = [] := by
    unfold echoIds
    rw [List.filter_eq_nil_iff.mpr]
    · rfl
    · intro line hline
      rw [is_eq_false (h.inbound line hline) (by decide)]
      exact Bool.false_ne_true
  have houtgoing : l.outgoing = [] := by
    unfold outgoing
    rw [List.filterMap_eq_nil_iff]
    intro line hline
    unfold textOf
    rw [h.outbox line hline, if_neg Bool.false_ne_true]
  have hrecorded : l.recorded = [] := by
    unfold recorded
    rw [h.sent, h.taken]
    rfl
  refine ⟨h.registered, h.filed, h.held, rfl, h.numbered, ?_, ?_, ?_, ?_, ?_, hturns.fits, ?_,
    hturns.unheard, ?_, ?_⟩
  · rw [harriving, hrecorded]
  · intro line hline hword
    rw [h.outbox line hline] at hword
    cases hword
  · intro line hline
    exact .inl (h.inbound line hline)
  · rw [hids]
    exact hturns.fresh
  · rw [hids]
    exact hturns.unknown
  · rw [h.sent]
    exact hturns.apart
  · rw [h.sent, h.taken, houtgoing]
    rfl
  · rw [harriving, hrecorded]

omit [Primitives] in
/-- Of texts that read apart, those with a mark are counted once. -/
theorem count_marked {ps : List (Str × Bool)} (hapart : ((ps.map Prod.fst).map read).Nodup)
    (marked : Str × Bool → Bool) {p : Str × Bool} (hp : p ∈ ps) :
    ((ps.filter marked).map fun p => read p.1).count (read p.1) = if marked p then 1 else 0 := by
  rw [List.map_map] at hapart
  have hnodup : ((ps.filter marked).map fun p => read p.1).Nodup :=
    hapart.sublist (List.filter_sublist.map _)
  rw [hnodup.count]
  refine if_congr ?_ rfl rfl
  rw [List.mem_map]
  constructor
  · intro h
    obtain ⟨q, hq, hread⟩ := h
    obtain ⟨hq, hmarked⟩ := List.mem_filter.mp hq
    rw [← List.inj_on_of_nodup_map hapart hq hp hread]
    exact hmarked
  · intro h
    exact ⟨p, List.mem_filter.mpr ⟨hp, h⟩, rfl⟩

/-- **How often a text is heard**: once if it was sent without an echo to come, and once more if it
was echoed. -/
theorem heard_run (hready : Ready channel place log l) (hturns : Plain channel log turns)
    (hdrained : (l.run channel turns).Drained)
    (hroom : log.iter.length + (l.run channel turns).recorded.length ≤ log.retention)
    (hseq : l.client.model.nextSeq + (l.run channel turns).recorded.length < 2 ^ 64)
    {text : Str} {held echoed : Bool} (hsent : (text, held) ∈ (l.run channel turns).sent)
    (htaken : (text, echoed) ∈ (l.run channel turns).taken) :
    (l.run channel turns).heard place text =
      (if held then 0 else 1) + if echoed then 1 else 0 := by
  obtain ⟨log', h⟩ := (hready.running hturns).run hroom hseq
  have hall := sent_run channel l turns
  rw [hready.sent, List.map_nil, List.nil_append] at hall
  generalize l.run channel turns = m at *
  have hmem : text ∈ texts turns := by
    rw [← hall]
    exact List.mem_map_of_mem hsent
  have hsame : m.sent.map Prod.fst = m.taken.map Prod.fst := by
    have houtgoing : m.outgoing = [] := by
      unfold outgoing
      rw [hdrained.1]
      rfl
    rw [h.sent, houtgoing, List.append_nil]
  have hapart : ((m.sent.map Prod.fst).map read).Nodup := by
    rw [hall]
    exact hturns.apart
  have harriving : m.arriving = [] := by
    unfold arriving
    rw [hdrained.2]
    rfl
  have hcount := h.heard.count_eq (read text)
  rw [harriving, List.append_nil, List.count_append,
    List.count_eq_zero.mpr (hturns.unheard text hmem), Nat.zero_add] at hcount
  unfold heard
  rw [h.held, Option.map_some, Option.getD_some, hcount]
  unfold recorded
  rw [List.count_append, count_marked hapart (fun p => !p.2) hsent,
    count_marked (hsame ▸ hapart) (fun p => p.2) htaken]
  cases held with
  | true => rfl
  | false => rfl

/-- **When our own messages are heard once.**  On a link that ran dry, every text that was sent
stands in the log once exactly when the server took each with `echo-message` in the state that the
client saw when it sent it. -/
theorem heard_once_iff (l : Link) (channel : Str) (key : CaseFolded) (log : MessageLog)
    (turns : List Turn) (hready : Ready channel (.channel key) log l)
    (hturns : Plain channel log turns) (hdrained : (l.run channel turns).Drained)
    (hroom : log.iter.length + (texts turns).length ≤ log.retention)
    (hseq : l.client.model.nextSeq + 2 * (texts turns).length < 2 ^ 64) :
    ((l.run channel turns).sent = (l.run channel turns).taken →
        ∀ text ∈ texts turns, (l.run channel turns).heard (.channel key) text = 1) ∧
      (log.iter.length + 2 * (texts turns).length ≤ log.retention →
        (∀ text ∈ texts turns, (l.run channel turns).heard (.channel key) text = 1) →
          (l.run channel turns).sent = (l.run channel turns).taken) := by
  have hall := sent_run channel l turns
  rw [hready.sent, List.map_nil, List.nil_append] at hall
  have hlength := congrArg List.length hall
  rw [List.length_map] at hlength
  constructor
  · intro hsame text htext
    have hrecorded : (l.run channel turns).recorded.length = (texts turns).length := by
      have hsplit : (l.run channel turns).taken.length =
          ((l.run channel turns).taken.filter fun p => p.2).length +
            ((l.run channel turns).taken.filter fun p => !p.2).length :=
        List.length_eq_length_filter_add _
      rw [length_recorded, hsame, ← hlength, hsame]
      omega
    rw [← hall] at htext
    obtain ⟨p, hsent, heq⟩ := List.mem_map.mp htext
    obtain ⟨sent, held⟩ := p
    rw [← heq, heard_run hready hturns hdrained (by omega) (by omega) hsent (hsame ▸ hsent)]
    cases held with
    | true => rfl
    | false => rfl
  · intro hroom hheard
    have hrunning := hready.running hturns
    have hle : (l.run channel turns).recorded.length ≤ 2 * (texts turns).length := by
      have htwice := hrunning.recorded_run_le
      rw [hready.sent, List.length_nil, Nat.zero_add] at htwice
      exact htwice hroom hseq
    obtain ⟨log', h⟩ := hrunning.run (by omega) (by omega)
    have hfirsts : (l.run channel turns).sent.map Prod.fst =
        (l.run channel turns).taken.map Prod.fst := by
      have houtgoing : (l.run channel turns).outgoing = [] := by
        unfold outgoing
        rw [hdrained.1]
        rfl
      rw [h.sent, houtgoing, List.append_nil]
    refine List.ext_getElem ?_ ?_
    · have hcount := congrArg List.length hfirsts
      rw [List.length_map, List.length_map] at hcount
      exact hcount
    · intro i hi hi'
      have htext : (l.run channel turns).sent[i].1 = (l.run channel turns).taken[i].1 := by
        have hat := List.getElem_of_eq hfirsts (i := i) (by rw [List.length_map]; exact hi)
        rw [List.getElem_map, List.getElem_map] at hat
        exact hat
      have hsent := List.getElem_mem hi
      have htaken := List.getElem_mem hi'
      generalize (l.run channel turns).sent[i] = p at *
      generalize (l.run channel turns).taken[i] = q at *
      obtain ⟨text, held⟩ := p
      obtain ⟨text', echoed⟩ := q
      obtain rfl : text = text' := htext
      have honce := hheard text (by rw [← hall]; exact List.mem_map_of_mem hsent)
      rw [heard_run hready hturns hdrained (by omega) (by omega) hsent htaken] at honce
      cases held with
      | true =>
          cases echoed with
          | true => rfl
          | false => cases honce
      | false =>
          cases echoed with
          | true => cases honce
          | false => rfl

omit [Primitives] in
/-- A client in a channel, and a server that does not echo yet. -/
def joined : Link :=
  letI := Primitives.ascii
  ⟨(new (.new "me")).run ([.connected, .bytes (Utf8.encode
    ":s 001 me :hi\n:me!u@h JOIN #a\n")] ++ List.replicate 4 .pollTransmit),
    [], false, ⟨"me", some "u", some "h"⟩, [], []⟩

omit [Primitives] in
theorem joined_ready : Ready "#a" (.channel ⟨"#a"⟩) (.withRetention 5000) joined := by
  have hrun : filesInChannel (joined.client.context false) "#a" = true ∧
      joined.client.phase = .registered ∧
      joined.client.model.logAt (.channel ⟨"#a"⟩) = some (.withRetention 5000) ∧
      ∀ line ∈ joined.client.outbox.filterMap readEntry, line.is "PRIVMSG" = false := by
    decide +kernel
  obtain ⟨hchannel, hphase, hlog, houtbox⟩ := hrun
  refine ⟨hphase, ?_, hlog, ?_, houtbox, by decide, rfl, rfl⟩
  · intro line
    rw [placeOf_of_filesInChannel hchannel]
    decide +kernel
  · intro key hkey
    exact absurd hkey Std.ExtTreeMap.not_mem_empty

omit [Primitives] in
/-- One text is sent before the capability is there, and one after it. -/
theorem heard_once_twice : letI := Primitives.ascii
    let m := joined.run "#a" [.say "one", .offer "echo-message", .deliver, .serve "a" none,
      .serve "b" none, .deliver, .say "two", .serve "c" none, .deliver]
    m.heard (.channel ⟨"#a"⟩) "one" = 1 ∧ m.heard (.channel ⟨"#a"⟩) "two" = 1 := by
  let _ := Primitives.ascii
  intro m
  have hplain : Plain "#a" (.withRetention 5000) [.say "one", .offer "echo-message", .deliver,
      .serve "a" none, .serve "b" none, .deliver, .say "two", .serve "c" none, .deliver] :=
    ⟨by decide, by decide, by decide +kernel, by decide, by decide +kernel⟩
  have hdrained : m.Drained := by
    unfold Drained
    decide +kernel
  have honce := (heard_once_iff joined "#a" ⟨"#a"⟩ (.withRetention 5000) _ joined_ready hplain
    hdrained (by decide +kernel) (by decide +kernel)).1 (by decide +kernel)
  exact ⟨honce "one" (by decide), honce "two" (by decide)⟩

omit [Primitives] in
/-- **A text that crosses the request for the capability is heard twice.** -/
theorem crossed_heard_twice : letI := Primitives.ascii
    let turns := [.offer "echo-message", .deliver, .say "hi", .serve "a" none, .serve "b" none,
      .deliver, .deliver]
    joined.client.Reachable ∧ Ready "#a" (.channel ⟨"#a"⟩) (.withRetention 5000) joined ∧
      Plain "#a" (.withRetention 5000) turns ∧ (joined.run "#a" turns).Drained ∧
      (joined.run "#a" turns).heard (.channel ⟨"#a"⟩) "hi" = 2 := by
  let _ := Primitives.ascii
  intro turns
  have hplain : Plain "#a" (.withRetention 5000) turns :=
    ⟨by decide, by decide, by decide +kernel, by decide, by decide +kernel⟩
  have hrun : letI := Primitives.ascii
      ((joined.run "#a" turns).client.outbox = [] ∧ (joined.run "#a" turns).inbound = []) ∧
        (joined.run "#a" turns).heard (.channel ⟨"#a"⟩) "hi" = 2 := by
    decide +kernel
  exact ⟨⟨_, _, rfl⟩, joined_ready, hplain, hrun.1, hrun.2⟩

end Run

end Link

end ObbyClient

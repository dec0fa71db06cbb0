import ObbyClient.Engine.Enrolment
import ObbyClient.Engine.Holding
import ObbyClient.Engine.Login

/-!
# A new connection of an old client

A connection that dies leaves its client to connect again.  What it leaves in the outbox, the nick
and the fallbacks it got to, the nick the model has us go by and what the server said it supports
are not put back.

* `Client.AsNew` — what has to be as in a client that never connected;
* `Client.run_matched` — and then the new connection registers as the first one does;
* `Client.enrols_as_new` — just then.
-/

namespace ObbyClient

namespace Client

variable [Primitives]

/-! ### Two clients that hear the same -/

/-- Two clients that send the same, and read the same from where they are. -/
structure Alongside (c d : Client) : Prop where
  matched : Matched c.enrolment d.enrolment
  partialBytes : c.partialBytes = d.partialBytes
  discarding : c.discarding = d.discarding

theorem handleLine_matched {c d : Client} (h : Matched c.enrolment d.enrolment) {line : Bytes}
    (hline : ∀ message, readLine line = some message → message.is "001" = false) :
    Matched (c.handleLine line).enrolment (d.handleLine line).enrolment := by
  rw [handleLine_eq, handleLine_eq]
  cases hread : readLine line with
  | none => exact h.silent rfl rfl
  | some message => exact matched_handleMessage h (hline message hread)

theorem handleLines_alongside (fuel : ℕ) {c d : Client} (h : Alongside c d)
    (hlines : ∀ p ∈ handledLines fuel d, p.2.is "001" = false) :
    Alongside (handleLines fuel c) (handleLines fuel d) := by
  induction fuel generalizing c d with
  | zero => exact h
  | succ fuel ih =>
      rw [handledLines] at hlines
      rw [handleLines, handleLines, h.partialBytes]
      cases hs : splitOnce 10 d.partialBytes with
      | none =>
          dsimp only
          split
          · exact ⟨h.matched.silent rfl rfl, rfl, rfl⟩
          · exact h
      | some p =>
          rw [hs] at hlines
          dsimp only at hlines ⊢
          by_cases hd : d.discarding = true
          · have hc : c.discarding = true := h.discarding.trans hd
            rw [if_pos hd] at hlines
            rw [if_pos hc, if_pos hd]
            exact ih ⟨h.matched.silent rfl rfl, rfl, rfl⟩ hlines
          · have hc : ¬ c.discarding = true := fun hc => hd (h.discarding.symm.trans hc)
            rw [if_neg hd] at hlines
            rw [if_neg hc, if_neg hd]
            have hheld : Matched ({ c with partialBytes := p.2 } : Client).enrolment
                ({ d with partialBytes := p.2 } : Client).enrolment := h.matched
            have hc := handleLine_framing { c with partialBytes := p.2 } (p.1 ++ [10])
            have hd' := handleLine_framing { d with partialBytes := p.2 } (p.1 ++ [10])
            refine ih ⟨handleLine_matched hheld ?_, ?_, ?_⟩
              fun q hq => hlines q (List.mem_append_right _ hq)
            · intro message hread
              refine hlines ({ d with partialBytes := p.2 }, message) (List.mem_append_left _ ?_)
              rw [hread]
              exact List.mem_singleton_self _
            · rw [hc.1, hd'.1]
            · rw [hc.2, hd'.2]
              exact h.discarding

/-- What a host does that only reads for the connection. -/
def Listens : Input → Prop
  | .bytes _ => True
  | .pollTransmit => True
  | .pollEvent => True
  | _ => False

/-- The bytes that one input hands over for the transport. -/
def drainedBy (c : Client) : Input → List Bytes
  | .pollTransmit => c.pollTransmit.2.toList
  | _ => []

/-- The bytes that a run hands over for the transport. -/
def drained (c : Client) : List Input → List Bytes
  | [] => []
  | input :: inputs => c.drainedBy input ++ (c.step input).drained inputs

theorem step_alongside {c d : Client} (h : Alongside c d) {input : Input} (hinput : Listens input)
    (hlines : ∀ p ∈ d.handledBy input, p.2.is "001" = false) :
    Alongside (c.step input) (d.step input) ∧ c.drainedBy input = d.drainedBy input := by
  have houtbox : c.outbox = d.outbox := h.matched.outbox
  cases input with
  | bytes data =>
      refine ⟨?_, rfl⟩
      show Alongside (handleLines ((c.partialBytes ++ data).length + 1) _) (handleLines _ _)
      rw [h.partialBytes]
      exact handleLines_alongside _ ⟨h.matched.silent rfl rfl, rfl, h.discarding⟩ hlines
  | pollTransmit =>
      refine ⟨⟨?_, h.partialBytes, h.discarding⟩, ?_⟩
      · refine { h.matched with outbox := ?_ }
        exact congrArg List.tail houtbox
      · show c.outbox.head?.toList = d.outbox.head?.toList
        rw [houtbox]
  | pollEvent => exact ⟨⟨h.matched.silent rfl rfl, h.partialBytes, h.discarding⟩, rfl⟩
  | _ => exact absurd hinput id

/-- **Two clients that send the same go on doing so** until one is welcomed. -/
theorem run_alongside {c d : Client} (h : Alongside c d) {inputs : List Input}
    (hinputs : ∀ input ∈ inputs, Listens input)
    (hlines : ∀ p ∈ d.trace inputs, p.2.is "001" = false) :
    Alongside (c.run inputs) (d.run inputs) ∧ c.drained inputs = d.drained inputs := by
  induction inputs generalizing c d with
  | nil => exact ⟨h, rfl⟩
  | cons input inputs ih =>
      obtain ⟨hstep, hdrained⟩ := step_alongside h (hinputs input List.mem_cons_self)
        fun p hp => hlines p (List.mem_append_left _ hp)
      obtain ⟨hrun, hrest⟩ := ih hstep (fun i hi => hinputs i (List.mem_cons_of_mem _ hi))
        fun p hp => hlines p (List.mem_append_right _ hp)
      refine ⟨hrun, ?_⟩
      rw [drained, drained, hdrained, hrest]

/-! ### What a dead connection leaves behind -/

/-- A client that is, in what registration depends on and no connection puts back, as one that never
connected. -/
structure AsNew (config : Config) (c : Client) : Prop where
  outbox : c.outbox = []
  /-- The same nicks are tried one behind the other. -/
  fallback : ∀ k, c.enrolment.fallback k = (new config).enrolment.fallback k
  isupport : c.isupport.Agrees .default
  me : Casemapping.ascii.fold c.model.me.nick = Casemapping.ascii.fold config.nick

omit [Primitives] in
/-- What a client that connects again goes into registration with. -/
theorem reconnected_enrolment (c : Client) :
    c.handleDisconnected.handleConnected.enrolment =
      ⟨c.config, .negotiating, .default, .idle, c.scram, c.nick, c.nickAttempt, c.batches.dropAll,
        c.isupport, c.model.me.nick, c.outbox ++ (registrationLines c.config).map wireLine⟩ := by
  unfold handleConnected handleDisconnected scheduleReconnect
  rw [sendLines_eq]
  split
  · rfl
  · rfl

omit [Primitives] in
theorem connected_enrolment (c : Client) :
    c.handleConnected.enrolment =
      { c.enrolment with
        phase := .negotiating
        outbox := c.outbox ++ (registrationLines c.config).map wireLine } := by
  unfold handleConnected
  rw [sendLines_eq]
  rfl

/-- The bounds on batches are those a client starts with. -/
theorem run_limits (config : Config) (inputs : List Input) :
    ((new config).run inputs).batches.dropAll = .new := by
  have hrun : ((new config).run inputs).batches.maxBuffered = defaultMaxBuffered ∧
      ((new config).run inputs).batches.maxOpen = defaultMaxOpen := by
    refine run_induction
      (P := fun d => d.batches.maxBuffered = defaultMaxBuffered ∧
        d.batches.maxOpen = defaultMaxOpen)
      (fun _ _ _ _ h => h) (new config) inputs ?_ ?_ ⟨rfl, rfl⟩
    · intro input _ hbytes d hd
      by_cases hdown : input = .disconnected
      · rw [hdown]
        obtain ⟨timers, hbearing, -⟩ := d.handleDisconnected_bearing
        have hbatches : d.handleDisconnected.batches = d.batches.dropAll :=
          congrArg Bearing.batches hbearing
        show d.handleDisconnected.batches.maxBuffered = _ ∧ d.handleDisconnected.batches.maxOpen = _
        rw [hbatches]
        exact hd
      · rw [d.step_batches hbytes hdown]
        exact hd
    · intro p _ hp
      rw [handleMessage_eq]
      rcases (p.1.noted p.2).dispatch_call p.2 with hsame | ⟨call, hcall, -⟩
      · rw [hsame]
        exact hp
      · rw [hcall, ((p.1.noted p.2).batches.limits_call call).1,
          ((p.1.noted p.2).batches.limits_call call).2]
        exact hp
  show (⟨∅, _, _⟩ : Batches) = ⟨∅, _, _⟩
  rw [hrun.1, hrun.2]

/-- What a new connection registers with is what the first one does. -/
theorem matched_reconnected {config : Config} {history : List Input}
    (h : AsNew config ((new config).run history)) :
    Matched ((new config).run history).handleDisconnected.handleConnected.enrolment
      (new config).handleConnected.enrolment := by
  have hconfig : ((new config).run history).config = config.filled := run_config _ _
  rw [reconnected_enrolment, connected_enrolment]
  refine ⟨hconfig, rfl, ?_, rfl, rfl, ?_, h.fallback, run_limits config history, h.isupport, h.me,
    ?_⟩
  · show Phase.negotiating ≠ .registered
    decide
  · rintro (hsasl | hsasl)
    · cases hsasl
    · cases hsasl
  · show ((new config).run history).outbox ++
      (registrationLines ((new config).run history).config).map
      wireLine = [] ++ (registrationLines config.filled).map wireLine
    rw [h.outbox, hconfig]

/-! ### What tells two clients apart -/

/-- A nick that a line can carry as the one it is from. -/
def Sayable (nick : Str) : Prop := ' ' ∉ nick ∧ '!' ∉ nick ∧ '@' ∉ nick ∧ NoCrLf nick

instance (nick : Str) : Decidable (Sayable nick) := inferInstanceAs (Decidable (_ ∧ _))

/-- A message that its own line brings, and that does not welcome us. -/
structure Carried (message : Message) : Prop where
  reads : readLine (wireLine message) = some message
  whole : NoCrLf message.display
  unwelcoming : message.is "001" = false

omit [Primitives] in
theorem carried_of_sendable {message : Message} (h : message.Sendable) (htags : message.tags = [])
    (hsource : message.source.map (fun s => Source.parse s.display) = message.source)
    (hwelcome : message.is "001" = false) : Carried message := by
  have hwhole : NoCrLf message.display :=
    ((Message.sendable_iff (fun s hs => (h.source s hs).1) h.colon).mp h).1
  refine ⟨?_, hwhole, hwelcome⟩
  rw [readLine_eq_some, decodeLossy_wireLine,
    Message.parse_display (fun tag htag => (h.tags tag htag).1.1) (fun s hs => (h.source s hs).1)
      h.command.1 h.command.2.1 h.colon h.sign h.middle (trimEndCrLf_append_crlf hwhole), hsource,
    htags]
  rw [show Tags.parse (Tags.display []) = message.tags by rw [htags]; decide]

/-- The line a server refuses a nick with. -/
def refusal : Message := Message.new "433" ["*", "nick", "taken"]

/-- The line a server tells of one token with. -/
def support (token : Str) : Message := Message.new "005" ["*", token, "ok"]

/-- A line of somebody. -/
def spoken (nick command param : Str) : Message := ⟨[], some ⟨nick, none, none⟩, command, [param]⟩

omit [Primitives] in
theorem carried_new {command : Str} {params : List Str}
    (hcommand : command ≠ [] ∧ ' ' ∉ command ∧ NoCrLf command)
    (hsigns : command.head? ≠ some ':' ∧ command.head? ≠ some '@')
    (hmiddle : ∀ param ∈ params.dropLast, Message.Middle param)
    (hparams : ∀ param ∈ params, NoCrLf param)
    (hwelcome : eqIgnoreAsciiCase command "001" = false) :
      Carried (Message.new command params) := by
  refine carried_of_sendable ⟨?_, ?_, hcommand, fun _ => hsigns.1, fun _ _ => hsigns.2, hmiddle,
    hparams⟩ rfl rfl hwelcome
  · intro tag htag
    cases htag
  · intro s hs
    cases hs

omit [Primitives] in
theorem carried_refusal : Carried refusal :=
  carried_new (by decide) (by decide) (by decide) (by decide) (by decide)

omit [Primitives] in
theorem carried_spoken {nick command param : Str} (hnick : Sayable nick)
    (hcommand : command ≠ [] ∧ ' ' ∉ command ∧ NoCrLf command) (hparam : NoCrLf param)
    (hwelcome : eqIgnoreAsciiCase command "001" = false) : Carried (spoken nick command param) := by
  have hdisplay : Source.display ⟨nick, none, none⟩ = nick := by
    show (nick ++ []) ++ [] = nick
    rw [List.append_nil, List.append_nil]
  refine carried_of_sendable ⟨?_, ?_, hcommand, ?_, ?_, ?_, ?_⟩ rfl ?_ hwelcome
  · intro tag htag
    cases htag
  · rintro s hs
    obtain rfl := Option.some.inj hs
    rw [hdisplay]
    exact ⟨hnick.1, hnick.2.2.2⟩
  · intro hsource
    cases hsource
  · intro _ hsource
    cases hsource
  · intro p hp
    cases hp
  · intro p hp
    rw [List.mem_singleton.mp hp]
    exact hparam
  · show some (Source.parse (Source.display ⟨nick, none, none⟩)) = some ⟨nick, none, none⟩
    rw [hdisplay, Source.parse, splitOnce_eq_none.mpr hnick.2.1, splitOnce_eq_none.mpr hnick.2.2.1]

/-- The bytes of messages, a chunk each. -/
def chunks (messages : List Message) : List Input :=
  messages.map fun message => .bytes (wireLine message)

/-- Nothing is taken off an empty buffer. -/
theorem handleLines_nil (fuel : ℕ) {c : Client} (h : c.partialBytes = []) :
    handleLines fuel c = c ∧ handledLines fuel c = [] := by
  cases fuel with
  | zero => exact ⟨rfl, rfl⟩
  | succ fuel =>
      rw [handleLines, handledLines, h]
      exact ⟨if_neg (Nat.not_lt_zero _), rfl⟩

/-- A chunk that is one line does what its message does. -/
theorem step_wireLine {c : Client} (hread : c.partialBytes = [] ∧ c.discarding = false)
    {message : Message} (h : Carried message) :
    c.step (.bytes (wireLine message)) = c.handleMessage message ∧
      c.handledBy (.bytes (wireLine message)) = [(c, message)] := by
  have hlf : (10 : UInt8) ∉ Utf8.encode message.display ++ [13] := by
    rw [List.mem_append, Utf8.mem_encode_ascii (by decide) _]
    rintro (hmem | hmem)
    · exact h.whole.2 hmem
    · exact absurd hmem (by decide)
  have hline : wireLine message = Utf8.encode message.display ++ [13] ++ 10 :: [] := by
    rw [List.append_assoc]
    rfl
  have hsplit : splitOnce 10 (wireLine message) =
      some (Utf8.encode message.display ++ [13], []) := by
    rw [hline]
    exact splitOnce_append_sep hlf _
  have hself : ({ c with partialBytes := [] } : Client) = c := by
    rw [← hread.1]
  have hempty : (c.handleMessage message).partialBytes = [] :=
    (c.handleMessage_side message).1.trans hread.1
  have hlive : ¬ c.discarding = true := by
    rw [hread.2]
    decide
  have hhandled : c.handleLine (wireLine message) = c.handleMessage message := by
    rw [handleLine_eq, h.reads]
  constructor
  · show handleLines ((c.partialBytes ++ wireLine message).length + 1)
      { c with partialBytes := c.partialBytes ++ wireLine message } = _
    rw [handleLines, hread.1, List.nil_append, hsplit]
    dsimp only
    rw [if_neg hlive, ← hline, hself, hhandled]
    exact (handleLines_nil _ hempty).1
  · show handledLines ((c.partialBytes ++ wireLine message).length + 1)
      { c with partialBytes := c.partialBytes ++ wireLine message } = _
    rw [handledLines, hread.1, List.nil_append, hsplit]
    dsimp only
    rw [if_neg hlive, ← hline, hself, h.reads, hhandled, (handleLines_nil _ hempty).2]
    rfl

theorem run_chunks {c : Client} (hread : c.partialBytes = [] ∧ c.discarding = false)
    {messages : List Message} (h : ∀ message ∈ messages, Carried message) :
    c.run (chunks messages) = messages.foldl handleMessage c ∧
      ∀ p ∈ c.trace (chunks messages), p.2 ∈ messages := by
  induction messages generalizing c with
  | nil => exact ⟨rfl, fun p hp => absurd hp List.not_mem_nil⟩
  | cons message messages ih =>
      obtain ⟨hstep, hhandled⟩ := step_wireLine hread (h message List.mem_cons_self)
      have hside := c.handleMessage_side message
      obtain ⟨hrun, htrace⟩ := ih (c := c.handleMessage message)
        ⟨hside.1.trans hread.1, hside.2.1.trans hread.2⟩
        fun m hm => h m (List.mem_cons_of_mem _ hm)
      constructor
      · show (c.step (.bytes (wireLine message))).run (chunks messages) = _
        rw [hstep, hrun]
        rfl
      · intro p hp
        rw [show c.trace (chunks (message :: messages)) =
          c.handledBy (.bytes (wireLine message)) ++
            (c.step (.bytes (wireLine message))).trace (chunks messages) from rfl, hstep,
              hhandled] at hp
        rcases List.mem_append.mp hp with hp | hp
        · rw [List.mem_singleton.mp hp]
          exact List.mem_cons_self
        · exact List.mem_cons_of_mem _ (htrace p hp)

omit [Primitives] in
/-- Two queues that grew alike grew for the same reason. -/
theorem append_ite {α : Type} {xs : List α} {p q : Prop} [Decidable p] [Decidable q] {a b : α}
    (h : xs ++ (if p then [a] else []) = xs ++ if q then [b] else []) : p ↔ q := by
  have hlast := List.append_cancel_left h
  by_cases hp : p
  · by_cases hq : q
    · exact iff_of_true hp hq
    · rw [if_pos hp, if_neg hq] at hlast
      cases hlast
  · by_cases hq : q
    · rw [if_neg hp, if_pos hq] at hlast
      cases hlast
    · exact iff_of_false hp hq

/-! ### What one line does to registration -/

theorem handleMessage_refusal {c : Client} (h : c.phase ≠ .registered) :
    (c.handleMessage refusal).enrolment =
      { c.enrolment with
        nick := c.enrolment.fallback 0
        nickAttempt := c.nickAttempt + 1
        me := c.enrolment.fallback 0
        outbox := c.outbox ++ [wireLine (Message.new "NICK" [c.enrolment.fallback 0])] } := by
  have hhandled : c.handleMessage refusal = (c.noted refusal).handleNickRefused refusal := rfl
  rw [hhandled]
  unfold handleNickRefused
  rw [if_neg (show ¬ (c.noted refusal).phase = .registered from h)]
  rfl

theorem handleMessage_support (c : Client) (token : Str) :
    (c.handleMessage (support token)).enrolment =
      { c.enrolment with isupport := (c.isupport.apply token).1 } := rfl

/-- A line that is folded, and stands in no batch. -/
theorem handleMessage_spoken (c : Client) {nick command param : Str}
    (hcommand : claims (spoken nick command param) = false ∧
      (spoken nick command param).is "BATCH" = false) :
    (c.handleMessage (spoken nick command param)).enrolment =
      { c.enrolment with
        me := c.nickAfter (spoken nick command param)
        outbox := c.outbox ++ ((c.entered (spoken nick command param)).map c.whoLine).map wireLine
          } := by
  rw [handleMessage_eq, dispatch_of_not_claims _ hcommand.1, hcommand.2, if_neg Bool.false_ne_true]
  unfold handleOther
  rw [show (c.noted (spoken nick command param)).batches.route (spoken nick command param) = none
    from rfl]
  exact fold_enrolment _ _ _

/-! ### Refused nicks -/

/-- Every refusal takes the next nick. -/
theorem refused {c : Client} (h : c.phase ≠ .registered) (k : ℕ) :
    ((List.replicate k refusal).foldl handleMessage c).phase = c.phase ∧
      ((List.replicate k refusal).foldl handleMessage c).outbox =
        c.outbox ++ (List.range k).map
          (fun j => wireLine (Message.new "NICK" [c.enrolment.fallback j])) ∧
      ∀ j, ((List.replicate k refusal).foldl handleMessage c).enrolment.fallback j =
        c.enrolment.fallback (k + j) := by
  induction k with
  | zero =>
      refine ⟨rfl, (List.append_nil _).symm, ?_⟩
      intro j
      rw [Nat.zero_add]
      rfl
  | succ k ih =>
      obtain ⟨hphase, houtbox, hfallback⟩ := ih
      rw [List.replicate_succ', List.foldl_append]
      generalize (List.replicate k refusal).foldl handleMessage c = d at hphase houtbox hfallback ⊢
      have hlast := handleMessage_refusal (c := d) (by rw [hphase]; exact h)
      refine ⟨(congrArg Enrolment.phase hlast).trans hphase, ?_, ?_⟩
      · refine (congrArg Enrolment.outbox hlast).trans ?_
        show d.outbox ++ [_] = _
        rw [hfallback 0, houtbox, List.range_succ, List.map_append, List.append_assoc]
        rfl
      · intro j
        show (d.handleMessage refusal).enrolment.fallback j = _
        rw [hlast]
        show tried d.config.altNicks (d.nickAttempt + 1)
          ((d.config.altNicks[d.nickAttempt]?).getD (d.nick ++ ['_'])) (j + 1) = _
        rw [tried_succ]
        refine (hfallback (j + 1)).trans ?_
        rw [Nat.add_assoc, Nat.add_comm 1 j]

omit [Primitives] in
/-- A line carries one nick. -/
theorem nick_of_wireLine_eq {a b : Str}
    (h : wireLine (Message.new "NICK" [a]) = wireLine (Message.new "NICK" [b])) : a = b := by
  have hdisplay := display_of_wireLine_eq h
  have hparams : Message.displayParams [a] = Message.displayParams [b] :=
    @List.append_cancel_left _ "NICK" _ _ hdisplay
  have hread : ∀ nick : Str, Message.readParams (Message.displayParams [nick]) = [nick] := by
    intro nick
    exact Message.readParams_displayParams fun p hp => absurd hp List.not_mem_nil
  have hsame := hread a
  rw [hparams, hread b] at hsame
  exact (List.head_eq_of_cons_eq hsame).symm

/-! ### Channels we enter -/

theorem outbox_join (c : Client) (nick : Str) :
    (c.handleMessage (spoken nick "JOIN" "#a")).outbox = c.outbox ++
      if c.isupport.casemapping.eq c.model.me.nick nick = true then [wireLine (c.whoLine "#a")]
      else [] := by
  have hjoin : claims (spoken nick "JOIN" "#a") = false ∧
      (spoken nick "JOIN" "#a").is "BATCH" = false := ⟨rfl, rfl⟩
  refine (congrArg Enrolment.outbox (c.handleMessage_spoken hjoin)).trans ?_
  show c.outbox ++ ((c.entered (spoken nick "JOIN" "#a")).map c.whoLine).map wireLine = _
  unfold entered
  by_cases hus : c.isupport.casemapping.eq c.model.me.nick nick = true
  · rw [if_pos hus, if_pos ⟨show toAsciiUppercase ("JOIN" : Str) = "JOIN" by decide, hus⟩]
    rfl
  · rw [if_neg hus, if_neg fun hboth => hus hboth.2]
    rfl

/-- A client that is renamed by a line of its own. -/
theorem renamed (c : Client) {nick : Str}
    (hus : c.isupport.casemapping.eq c.model.me.nick nick = true) :
    (c.handleMessage (spoken nick "NICK" "~")).enrolment = { c.enrolment with me := "~" } := by
  have hnick : claims (spoken nick "NICK" "~") = false ∧
      (spoken nick "NICK" "~").is "BATCH" = false := ⟨rfl, rfl⟩
  rw [c.handleMessage_spoken hnick]
  have hafter : c.nickAfter (spoken nick "NICK" "~") = "~" := by
    unfold nickAfter
    rw [if_pos ⟨show toAsciiUppercase ("NICK" : Str) = "NICK" by decide, hus⟩]
    rfl
  have hentered : c.entered (spoken nick "NICK" "~") = [] := by
    unfold entered
    exact if_neg fun hboth =>
      absurd hboth.1 (show ¬ toAsciiUppercase ("NICK" : Str) = "JOIN" by decide)
  rw [hafter, hentered]
  show ({ c.enrolment with me := _, outbox := c.outbox ++ [] } : Enrolment) = _
  rw [List.append_nil]
  rfl

/-- Whether we enter a channel as `^`, once we are called `~`, says how names are folded. -/
theorem outbox_renamed (c : Client) {nick : Str}
    (hus : c.isupport.casemapping.eq c.model.me.nick nick = true) :
    ([spoken nick "NICK" "~", spoken "^" "JOIN" "#a"].foldl handleMessage c).outbox = c.outbox ++
      if c.isupport.casemapping = .rfc1459 then [wireLine (c.whoLine "#a")] else [] := by
  have hrenamed := c.renamed hus
  have hisupport : (c.handleMessage (spoken nick "NICK" "~")).isupport = c.isupport :=
    congrArg Enrolment.isupport hrenamed
  have hme : (c.handleMessage (spoken nick "NICK" "~")).model.me.nick = "~" :=
    congrArg Enrolment.me hrenamed
  have houtbox : (c.handleMessage (spoken nick "NICK" "~")).outbox = c.outbox :=
    congrArg Enrolment.outbox hrenamed
  show ((c.handleMessage (spoken nick "NICK" "~")).handleMessage (spoken "^" "JOIN" "#a")).outbox =
    _
  rw [outbox_join, hisupport, hme, houtbox]
  unfold whoLine
  rw [hisupport]
  refine congrArg (c.outbox ++ ·) (if_congr ?_ rfl rfl)
  cases c.isupport.casemapping with
  | ascii => decide
  | rfc1459 => decide
  | rfc1459Strict => decide

omit [Primitives] in
/-- What is appended to the value of a folding. -/
theorem casemapping_appended (i : Isupport) : (i.apply "CASEMAPPING+=ascii").1.casemapping =
    Casemapping.parse (i.rawValue "CASEMAPPING" ++ "ascii") := by
  have happended : (i.apply "CASEMAPPING+=ascii").1 =
      Isupport.recompute
        { i with
          tokens := i.tokens.insert "CASEMAPPING" (some (i.rawValue "CASEMAPPING" ++ "ascii")) }
        "CASEMAPPING" (some (i.rawValue "CASEMAPPING" ++ "ascii")) := rfl
  rw [happended, Isupport.recompute_casemapping, if_pos rfl]
  rfl

/-- And so does it say what value it was appended to. -/
theorem outbox_appended {c : Client} {nick : Str}
    (hus : ∀ mapping : Casemapping, mapping.eq c.model.me.nick nick = true) :
    ([support "CASEMAPPING+=ascii", spoken nick "NICK" "~",
      spoken "^" "JOIN" "#a"].foldl handleMessage c).outbox = c.outbox ++
      if Casemapping.parse (c.isupport.rawValue "CASEMAPPING" ++ "ascii") = .rfc1459 then
        [wireLine ((c.handleMessage (support "CASEMAPPING+=ascii")).whoLine "#a")] else [] := by
  have hsupport := c.handleMessage_support "CASEMAPPING+=ascii"
  have hme : (c.handleMessage (support "CASEMAPPING+=ascii")).model.me.nick = c.model.me.nick :=
    congrArg Enrolment.me hsupport
  have hisupport : (c.handleMessage (support "CASEMAPPING+=ascii")).isupport =
      (c.isupport.apply "CASEMAPPING+=ascii").1 := congrArg Enrolment.isupport hsupport
  have houtbox : (c.handleMessage (support "CASEMAPPING+=ascii")).outbox = c.outbox :=
    congrArg Enrolment.outbox hsupport
  rw [List.foldl_cons, outbox_renamed _ (by rw [hme]; exact hus _), hisupport, casemapping_appended,
    houtbox]

/-! ### Just then -/

/-- A client that registers as the first connection of its config does, whatever the server says. -/
def EnrolsAlike (config : Config) (c : Client) : Prop :=
  ∀ inputs, (∀ input ∈ inputs, Listens input) →
    (∀ p ∈ (new config).handleConnected.trace inputs, p.2.is "001" = false) →
    c.drained inputs = (new config).handleConnected.drained inputs ∧
      (c.run inputs).outbox = ((new config).handleConnected.run inputs).outbox

omit [Primitives] in
/-- What is told behind a value tells of no other folding only if there was no value. -/
theorem raw_of_parse {raw : Str} (h : Casemapping.parse (raw ++ "ascii") ≠ .rfc1459) :
    raw = [] := by
  unfold Casemapping.parse at h
  split at h
  · rename_i hascii
    exact @List.append_cancel_right _ _ ("ascii" : Str) [] hascii
  · split at h
    · rename_i hstrict
      have hlast := congrArg List.getLast? hstrict
      rw [List.getLast?_append] at hlast
      have hletter : some 'i' = some 't' := hlast
      exact absurd hletter (by decide)
    · exact absurd rfl h

section Converse

variable {config : Config} {c : Client}
  (hread : c.partialBytes = [] ∧ c.discarding = false) (h : EnrolsAlike config c)
include hread h

/-- It sends the same about messages that lines carry. -/
theorem outbox_of_enrolsAlike (messages : List Message)
    (hmessages : ∀ message ∈ messages, Carried message) :
    (messages.foldl handleMessage c).outbox =
      (messages.foldl handleMessage (new config).handleConnected).outbox := by
  have hnew : (new config).handleConnected.partialBytes = [] ∧
      (new config).handleConnected.discarding = false := by
    unfold handleConnected
    rw [sendLines_eq]
    exact ⟨rfl, rfl⟩
  have hfirst := run_chunks hnew hmessages
  have hc := run_chunks hread hmessages
  rw [← hc.1, ← hfirst.1]
  refine (h (chunks messages) ?_ ?_).2
  · intro input hinput
    obtain ⟨message, -, rfl⟩ := List.mem_map.mp hinput
    trivial
  · intro p hp
    exact (hmessages p.2 (hfirst.2 p hp)).unwelcoming

theorem fallback_of_enrolsAlike (hphase : c.phase ≠ .registered) (k : ℕ) :
    c.enrolment.fallback k = (new config).handleConnected.enrolment.fallback k := by
  have hsame := outbox_of_enrolsAlike hread h [] (by simp)
  have hafter := outbox_of_enrolsAlike hread h (List.replicate (k + 1) refusal)
    fun message hmessage => (List.eq_of_mem_replicate hmessage) ▸ carried_refusal
  have hnew : (new config).handleConnected.phase ≠ .registered := by
    rw [show (new config).handleConnected.phase = .negotiating from
      congrArg Enrolment.phase (connected_enrolment _)]
    decide
  rw [(refused hphase (k + 1)).2.1, (refused hnew (k + 1)).2.1] at hafter
  have hbase : c.outbox = (new config).handleConnected.outbox := hsame
  rw [hbase] at hafter
  have hlines := List.append_cancel_left hafter
  have hlast := congrArg (·[k]?) hlines
  simp only [List.getElem?_map, List.getElem?_range (Nat.lt_succ_self k), Option.map_some,
    Option.some.injEq] at hlast
  exact nick_of_wireLine_eq hlast

omit h in
omit hread in
omit [Primitives] in
theorem connected_side (config : Config) :
    (new config).handleConnected.isupport = .default ∧
      (new config).handleConnected.model.me.nick = config.nick := by
  unfold handleConnected
  rw [sendLines_eq]
  exact ⟨rfl, rfl⟩

/-- It goes by the nick it is to register with, letter by letter. -/
theorem me_of_enrolsAlike (hnick : Sayable config.nick) :
    Casemapping.ascii.fold c.model.me.nick = Casemapping.ascii.fold config.nick := by
  have hbase : c.outbox = (new config).handleConnected.outbox :=
    outbox_of_enrolsAlike hread h [] (by simp)
  have hafter := outbox_of_enrolsAlike hread h
    ([support "CASEMAPPING=ascii", spoken config.nick "JOIN" "#a"]) (by
      intro message hmessage
      rcases List.mem_pair.mp hmessage with rfl | rfl
      · exact carried_new (by decide) (by decide) (by decide) (by decide) (by decide)
      · exact carried_spoken hnick (by decide) (by decide) (by decide))
  have hascii : ∀ d : Client,
      ([support "CASEMAPPING=ascii", spoken config.nick "JOIN" "#a"].foldl handleMessage d).outbox =
        d.outbox ++ if Casemapping.ascii.eq d.model.me.nick config.nick = true then
          [wireLine ((d.handleMessage (support "CASEMAPPING=ascii")).whoLine "#a")] else [] :=
    fun d => outbox_join (d.handleMessage (support "CASEMAPPING=ascii")) config.nick
  rw [hascii, hascii, (connected_side config).2, hbase] at hafter
  have hwho := (append_ite hafter).mpr (Casemapping.eq_self _ _)
  exact (Casemapping.eq_iff_fold _ _ _).mp hwho

/-- It folds names, and asks who is in a channel, as one that no server told anything. -/
theorem isupport_of_enrolsAlike (hnick : Sayable config.nick) : c.isupport.Agrees .default := by
  have hbase : c.outbox = (new config).handleConnected.outbox :=
    outbox_of_enrolsAlike hread h [] (by simp)
  have hme := me_of_enrolsAlike hread h hnick
  have hus : ∀ mapping : Casemapping, mapping.eq c.model.me.nick config.nick = true := by
    intro mapping
    rw [Casemapping.eq_of_ascii hme]
    exact Casemapping.eq_self _ _
  obtain ⟨hdefault, hconfig⟩ := connected_side config
  have hus' : ∀ mapping : Casemapping,
      mapping.eq (new config).handleConnected.model.me.nick config.nick = true := by
    intro mapping
    rw [hconfig]
    exact Casemapping.eq_self _ _
  have hnickLine : Carried (spoken config.nick "NICK" "~") :=
    carried_spoken hnick (by decide) (by decide) (by decide)
  have hjoinLine : Carried (spoken "^" "JOIN" "#a") :=
    carried_spoken (by decide) (by decide) (by decide) (by decide)
  refine ⟨?_, ?_, ?_⟩
  · have hafter := outbox_of_enrolsAlike hread h
      ([spoken config.nick "NICK" "~", spoken "^" "JOIN" "#a"]) (by
        intro message hmessage
        rcases List.mem_pair.mp hmessage with rfl | rfl
        · exact hnickLine
        · exact hjoinLine)
    rw [outbox_renamed _ (hus _), outbox_renamed _ (hus' _), hbase, hdefault] at hafter
    exact (append_ite hafter).mpr rfl
  · have hafter := outbox_of_enrolsAlike hread h
      ([support "CASEMAPPING+=ascii", spoken config.nick "NICK" "~",
        spoken "^" "JOIN" "#a"]) (by
        intro message hmessage
        rcases List.mem_cons.mp hmessage with rfl | hmessage
        · exact carried_new (by decide) (by decide) (by decide) (by decide) (by decide)
        rcases List.mem_pair.mp hmessage with rfl | rfl
        · exact hnickLine
        · exact hjoinLine)
    rw [outbox_appended hus, outbox_appended hus', hbase, hdefault] at hafter
    have hnot : ¬ Casemapping.parse (c.isupport.rawValue "CASEMAPPING" ++ "ascii") = .rfc1459 :=
      fun heq => absurd ((append_ite hafter).mp heq) (by decide)
    show c.isupport.rawValue "CASEMAPPING" = []
    exact raw_of_parse hnot
  · have hafter := outbox_of_enrolsAlike hread h [spoken config.nick "JOIN" "#a"] (by
      intro message hmessage
      rw [List.mem_singleton.mp hmessage]
      exact carried_spoken hnick (by decide) (by decide) (by decide))
    have hfirst := (c.outbox_join config.nick).symm.trans
      (hafter.trans ((new config).handleConnected.outbox_join config.nick))
    rw [if_pos (hus _), if_pos (hus' _), hbase] at hfirst
    have hlines := List.head_eq_of_cons_eq (List.append_cancel_left hfirst)
    unfold whoLine at hlines
    rw [hdefault] at hlines
    show c.isupport.has "WHOX" = Isupport.default.has "WHOX"
    have hnone : Isupport.default.has "WHOX" = false := by decide
    rw [hnone] at hlines ⊢
    by_contra hwhox
    rw [Bool.not_eq_false] at hwhox
    rw [if_pos hwhox, if_neg Bool.false_ne_true] at hlines
    exact absurd (display_of_wireLine_eq hlines) (by decide)

end Converse

omit [Primitives] in
/-- Connecting again reads on from where the old connection left off. -/
theorem reconnected_framing (c : Client) :
    c.handleDisconnected.handleConnected.partialBytes = c.partialBytes ∧
      c.handleDisconnected.handleConnected.discarding = c.discarding := by
  unfold handleConnected handleDisconnected scheduleReconnect
  rw [sendLines_eq]
  split
  · exact ⟨rfl, rfl⟩
  · exact ⟨rfl, rfl⟩

/-- **A client that connects again registers as one that never did**, whatever the server says
before it welcomes us, just when nothing of the old connection is left to be sent, the fallback
nicks are those of a new client, it goes by the nick it registers with, and no server told it how
names are folded. -/
theorem enrols_as_new (config : Config) (history : List Input)
    (hread : ((new config).run history).partialBytes = [] ∧
      ((new config).run history).discarding = false) :
    (AsNew config ((new config).run history) →
      EnrolsAlike config ((new config).run history).handleDisconnected.handleConnected) ∧
    (Sayable config.nick →
      EnrolsAlike config ((new config).run history).handleDisconnected.handleConnected →
        AsNew config ((new config).run history)) := by
  have hframing := ((new config).run history).reconnected_framing
  rw [hread.1, hread.2] at hframing
  have hnew : (new config).handleConnected.partialBytes = [] ∧
      (new config).handleConnected.discarding = false := by
    unfold handleConnected
    rw [sendLines_eq]
    exact ⟨rfl, rfl⟩
  constructor
  · intro h inputs hinputs hlines
    have halongside : Alongside ((new config).run history).handleDisconnected.handleConnected
        (new config).handleConnected :=
      ⟨matched_reconnected h, hframing.1.trans hnew.1.symm, hframing.2.trans hnew.2.symm⟩
    obtain ⟨hrun, hdrained⟩ := run_alongside halongside hinputs hlines
    exact ⟨hdrained, hrun.matched.outbox⟩
  · intro hnick h
    have hagain := ((new config).run history).reconnected_enrolment
    have hphase : ((new config).run history).handleDisconnected.handleConnected.phase ≠
        .registered := by
      rw [show ((new config).run history).handleDisconnected.handleConnected.phase =
        .negotiating from
        congrArg Enrolment.phase hagain]
      decide
    have hisupport : ((new config).run history).handleDisconnected.handleConnected.isupport =
        ((new config).run history).isupport := congrArg Enrolment.isupport hagain
    have hme := congrArg Enrolment.me hagain
    refine ⟨?_, ?_, ?_, ?_⟩
    · have hqueues := outbox_of_enrolsAlike hframing h [] (by simp)
      have hconfig : ((new config).run history).config = config.filled := run_config _ _
      have hlines : ((new config).run history).outbox ++
          (registrationLines ((new config).run history).config).map wireLine =
          [] ++ (registrationLines config.filled).map wireLine :=
        (congrArg Enrolment.outbox hagain).symm.trans
          (hqueues.trans (congrArg Enrolment.outbox (connected_enrolment (new config))))
      rw [hconfig] at hlines
      exact List.append_cancel_right hlines
    · intro k
      have hsame := fallback_of_enrolsAlike hframing h hphase k
      rw [hagain, connected_enrolment] at hsame
      exact hsame
    · rw [← hisupport]
      exact isupport_of_enrolsAlike hframing h hnick
    · exact (congrArg Casemapping.ascii.fold hme).symm.trans (me_of_enrolsAlike hframing h hnick)

omit [Primitives] in
/-- A connection that was welcomed under its own nick leaves nothing behind. -/
theorem enrols_as_new_drained : letI := Primitives.ascii
    let c := (new (.new "me")).run
      [.connected, .bytes (Utf8.encode ":s 001 me :hi\n"), .pollTransmit, .pollTransmit,
        .pollTransmit]
    EnrolsAlike (.new "me") c.handleDisconnected.handleConnected := by
  let _ := Primitives.ascii
  intro c
  refine (enrols_as_new (.new "me") _ (by decide +kernel)).1
    ⟨by decide +kernel, ?_, ?_, by decide +kernel⟩
  · intro k
    have hsame : c.enrolment.config = (new (.new "me")).enrolment.config ∧
        c.enrolment.nickAttempt = (new (.new "me")).enrolment.nickAttempt ∧
        c.enrolment.nick = (new (.new "me")).enrolment.nick := by decide +kernel
    unfold Enrolment.fallback
    exact hsame.1 ▸ hsame.2.1 ▸ hsame.2.2 ▸ rfl
  · have hisupport : c.isupport = .default := by decide +kernel
    exact hisupport ▸ ⟨rfl, rfl, rfl⟩

omit [Primitives] in
/-- **A nick that was refused once is not tried again**: the next connection walks the fallbacks
from where the last one stopped, behind what that one left unsent. -/
theorem fallback_left_behind : letI := Primitives.ascii
    let config : Config := { Config.new "me" with altNicks := ["alt"] }
    let c := (new config).run [.connected, .bytes (Utf8.encode ":s 433 * me :taken\n")]
    c.Reachable ∧ c.partialBytes = [] ∧ c.discarding = false ∧
      ¬ EnrolsAlike config c.handleDisconnected.handleConnected := by
  let _ := Primitives.ascii
  intro config c
  refine ⟨⟨_, _, rfl⟩, by decide +kernel, by decide +kernel, ?_⟩
  intro h
  have hdrained : (c.handleDisconnected.handleConnected.run
      ([.pollTransmit, .pollTransmit, .pollTransmit, .pollTransmit] ++
        [.bytes (Utf8.encode ":s 433 * me :taken\n")])).outbox = _ := (h _ ?_ ?_).2
  · exact absurd hdrained (by decide +kernel)
  · intro input hinput
    simp only [List.cons_append, List.nil_append, List.mem_cons, List.not_mem_nil,
      or_false] at hinput
    rcases hinput with rfl | rfl | rfl | rfl | rfl
    all_goals trivial
  · decide +kernel

end Client

end ObbyClient

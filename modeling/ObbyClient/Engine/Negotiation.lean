import ObbyClient.Engine.Apart
import ObbyClient.Engine.Outbound

/-!
# Capability negotiation, from its first line to its last

A connection holds `CAP END` back while a request is unanswered or a login is running, and sends it
as soon as neither is the case any more.

* `Client.Finished` — what `finishNegotiationIfSettled` comes to;
* `Client.Moves`, `Client.Hung` — a step that queues `CAP END` in its time at most, and a connection
  that waits for nothing;
* `Client.negotiation_ends_once` — over a whole connection, `CAP END` is queued once at most, in its
  time, and never waited for in vain.
-/

namespace ObbyClient

namespace Client

/-! ### The line that ends negotiation -/

/-- The line that ends negotiation. -/
def capEnd : Message := Message.new "CAP" ["END"]

theorem display_of_wireLine_eq {m n : Message} (h : wireLine m = wireLine n) :
    m.display = n.display := by
  have hencode : Utf8.encode m.display = Utf8.encode n.display := List.append_cancel_right h
  rw [← Utf8.decodeLossy_encode m.display, hencode, Utf8.decodeLossy_encode]

theorem wireLine_ne_of_take {m n : Message} (k : ℕ) (h : m.display.take k ≠ n.display.take k) :
    wireLine m ≠ wireLine n := by
  intro heq
  rw [display_of_wireLine_eq heq] at h
  exact h rfl

theorem wireLine_ne_capEnd (line : Message) (h : line.display.take 5 ≠ "CAP E") :
    wireLine line ≠ wireLine capEnd :=
  wireLine_ne_of_take 5 h

theorem wireLine_ne_of_aside {line : Message} (h : Aside line) :
    wireLine line ≠ wireLine capEnd :=
  wireLine_ne_of_take 3 h

/-- A line of our own, behind whatever tags. -/
theorem aside_of_word {line : Message} (hsource : line.source = none)
    (hword : ∀ rest, ((line.command ++ rest).take 3 == ("CAP" : Str)) = false) : Aside line := by
  unfold Aside Message.display Message.displayHead
  rw [hsource]
  by_cases htags : line.tags = []
  · rw [if_pos htags, List.append_assoc]
    exact beq_eq_false_iff_ne.mp (hword _)
  · rw [if_neg htags]
    intro htake
    have hhead := congrArg List.head? htake
    exact absurd hhead (show some '@' ≠ some 'C' by decide)

theorem aside_labelled (c : Client) {line : Message} (hsource : line.source = none)
    (hword : ∀ rest, ((line.command ++ rest).take 3 == ("CAP" : Str)) = false) :
      Aside (c.labelled line) := by
  unfold labelled
  split
  · exact aside_of_word hsource hword
  · exact aside_of_word hsource hword

/-! ### What a host does -/

theorem sendLineLabeled_apart (c : Client) {line : Message} (hsource : line.source = none)
    (hword : ∀ rest, ((line.command ++ rest).take 3 == ("CAP" : Str)) = false) :
    Apart c (c.sendLineLabeled line) := by
  rw [sendLineLabeled_eq]
  refine ⟨rfl, ⟨[c.labelled line], rfl, ?_⟩, ⟨[], by simp, by simp⟩⟩
  intro sent hsent
  rw [List.mem_singleton.mp hsent]
  exact c.aside_labelled hsource hword

theorem fire_apart (now : Now) (c : Client) (deadline : Deadline) :
    Apart c (fire now c deadline) := by
  cases deadline with
  | pingKeepalive =>
      refine ⟨rfl, ⟨[Message.new "PING" [c.nick]], rfl, ?_⟩, ⟨[], by simp [fire], by simp⟩⟩
      intro line hline
      rw [List.mem_singleton.mp hline]
      exact show ("PIN" : Str) ≠ "CAP" by decide
  | deadLink => exact Apart.tells rfl rfl rfl (by simp)
  | reconnect => exact Apart.tells rfl rfl rfl (by simp)
  | typing target who =>
      show Apart c (if (c.model.setTyping ⟨target⟩ ⟨who⟩ false).2 then _ else _)
      split
      · exact Apart.tells rfl rfl rfl (by simp)
      · exact Apart.silent rfl rfl rfl

theorem tick_apart (c : Client) (now : Now) : Apart c (c.tick now) := by
  have hdue : ∀ (d : Client) (due : List Deadline), Apart c d →
      Apart c (due.foldl (fire now) d) :=
    fun d due hd => hd.trans (Apart.foldl (fire_apart now) due d)
  have hlate : ∀ (d : Client) (labels : Labels) (late : List Str), Apart c d →
      Apart c ({ d with labels := labels }.emits (late.map .commandTimedOut)) := by
    intro d labels late hd
    rw [emits_eq]
    exact hd.trans ⟨rfl, ⟨[], by simp, by simp⟩, ⟨_, rfl, by simp⟩⟩
  exact hlate _ _ _ (hdue _ _ (Apart.silent rfl rfl rfl))

theorem setWatching_apart (c : Client) (nicks : List Str) (watching : Bool) :
    Apart c (c.setWatching nicks watching) := by
  unfold setWatching
  dsimp only
  rw [sendLines_eq]
  refine ⟨rfl, ⟨_, rfl, ?_⟩, ⟨[], by simp, by simp⟩⟩
  intro line hline
  obtain ⟨chunk, -, rfl⟩ := List.mem_map.mp hline
  exact show ("MON" : Str) ≠ "CAP" by decide

section Step

variable [Primitives]

theorem say_apart (c : Client) {line : Message} (hsource : line.source = none)
    (hword : ∀ rest, ((line.command ++ rest).take 3 == ("CAP" : Str)) = false) :
      Apart c (c.say line) := by
  unfold say
  dsimp only
  split
  · exact c.sendLineLabeled_apart hsource hword
  · exact (c.sendLineLabeled_apart hsource hword).trans (fold_apart _ _ _)

/-- A host input of one connection, other than a line the host built itself. -/
def Served : Input → Prop
  | .connected => False
  | .disconnected => False
  | .sendLine _ => False
  | .sendLineLabeled _ => False
  | .command (.sendRawLine _) => False
  | _ => True

theorem command_apart (c : Client) (command : Command) (h : Served (.command command)) :
    Apart c (c.command command) := by
  cases command with
  | sendRawLine line => exact absurd h id
  | sendMessage target text => exact c.say_apart rfl fun _ => rfl
  | sendNotice target text => exact c.say_apart rfl fun _ => rfl
  | sendAction target text => exact c.say_apart rfl fun _ => rfl
  | watchNicks nicks => exact c.setWatching_apart nicks true
  | unwatchNicks nicks => exact c.setWatching_apart nicks false
  | join channel key =>
      refine Apart.trans ?_ (sendLineLabeled_apart _ ?_ ?_)
      · exact Apart.silent rfl rfl rfl
      · cases key <;> rfl
      · cases key <;> exact fun _ => rfl
  | subscribeMetadata keys =>
      refine Apart.trans ?_ (sendLineLabeled_apart _ rfl ?_)
      · exact Apart.silent rfl rfl rfl
      · exact fun _ => rfl
  | fetchHistory target beforeMsgid limit =>
      cases beforeMsgid <;>
        exact c.sendLineLabeled_apart rfl fun _ => rfl
  | _ => exact c.sendLineLabeled_apart rfl fun _ => rfl

end Step

/-! ### What negotiation comes to -/

/-- What opening a login comes to: nothing, the name of the mechanism, or a failure when the server
has none in common with us. -/
inductive Opened (c : Client) : Client × Bool → Prop
  | idle : Opened c (c, false)
  | offered (h : c.sasl = .idle) (mechanism : Str) :
      Opened c ({ c with sasl := .offered }.sendLine (Message.new "AUTHENTICATE" [mechanism]), true)
  | failed (h : c.sasl = .idle) :
      Opened c ({ c with sasl := .settled }.emit (.saslFailed .noSharedMechanism), false)

theorem startSaslIfWanted_opened (c : Client) : Opened c c.startSaslIfWanted := by
  unfold startSaslIfWanted
  by_cases h : c.sasl ≠ .idle ∨ c.caps.has "sasl" = false
  · rw [if_pos h]
    exact .idle
  · rw [if_neg h]
    rw [not_or, not_not] at h
    cases c.config.sasl with
    | none => exact .idle
    | some credentials =>
        dsimp only
        split
        · exact .offered h.1 _
        · exact .failed h.1

/-- What a check whether negotiation is over comes to: it is not, a login is opened first, or `CAP
END` is sent. -/
inductive Finished (c : Client) : Client → Prop
  | waiting (h : c.phase ≠ .negotiating ∨ c.caps.pending ≠ [] ∨ c.sasl.inFlight = true) :
      Finished c c
  | opened (h : c.sasl = .idle) (mechanism : Str) :
      Finished c ({ c with sasl := .offered }.sendLine (Message.new "AUTHENTICATE" [mechanism]))
  | released (hphase : c.phase = .negotiating) (hcaps : c.caps.pending = [])
      (hsasl : c.sasl.inFlight = false) :
      Finished c ({ c with phase := .registering }.sendLine capEnd)
  | failed (hphase : c.phase = .negotiating) (hcaps : c.caps.pending = [])
      (hsasl : c.sasl = .idle) :
      Finished c ({ ({ c with sasl := .settled }.emit (.saslFailed .noSharedMechanism)) with
        phase := .registering }.sendLine capEnd)

theorem settled_eq_false {caps : Capabilities} : caps.settled = false ↔ caps.pending ≠ [] := by
  cases h : caps.pending <;> simp [Capabilities.settled, h]

theorem finishNegotiationIfSettled_finished (c : Client) :
    Finished c c.finishNegotiationIfSettled := by
  unfold finishNegotiationIfSettled
  by_cases h : c.phase ≠ .negotiating ∨ c.caps.settled = false
  · rw [if_pos h]
    exact .waiting (h.imp_right fun h => .inl (settled_eq_false.mp h))
  · rw [if_neg h]
    rw [not_or, not_not, settled_eq_false, not_not] at h
    obtain ⟨hphase, hcaps⟩ := h
    have hopened := c.startSaslIfWanted_opened
    generalize c.startSaslIfWanted = result at hopened
    cases hopened with
    | idle =>
        cases hsasl : c.sasl.inFlight with
        | true =>
            simp only [hsasl, Bool.or_true, if_true]
            exact .waiting (.inr (.inr hsasl))
        | false =>
            simp only [hsasl, Bool.or_false, Bool.false_eq_true, if_false]
            exact .released hphase hcaps hsasl
    | offered hidle mechanism => exact .opened hidle mechanism
    | failed hidle => exact .failed hphase hcaps hidle

/-! ### One line -/

/-- True of a connection that would send `CAP END` if it looked. -/
def Hung (c : Client) : Prop :=
  c.phase = .negotiating ∧ c.caps.pending = [] ∧ c.sasl.inFlight = false

/-- How often `CAP END` may still come. -/
def owed (c : Client) : ℕ := if c.phase = .negotiating then 1 else 0

/-- A step that queues `CAP END` at most as often as it may still come, and then only with every
request answered and no login running. -/
def Moves (c d : Client) : Prop :=
  ∃ lines : List Bytes, d.outbox = c.outbox ++ lines ∧
    lines.count (wireLine capEnd) + d.owed ≤ c.owed ∧
    (wireLine capEnd ∈ lines → d.caps.pending = [] ∧ d.sasl.inFlight = false)

theorem phase_eq_of_standing {c d : Client} (h : d.standing = c.standing) :
    d.phase = c.phase ∧ d.caps = c.caps ∧ d.sasl = c.sasl :=
  ⟨congrArg Standing.phase h, congrArg Standing.caps h, congrArg Standing.sasl h⟩

theorem owed_eq_of_phase {c d : Client} (h : d.phase = c.phase) : d.owed = c.owed := by
  rw [owed, owed, h]

/-- A step that does not queue `CAP END`. -/
theorem moves_of_not_mem {c d : Client} {lines : List Bytes}
    (houtbox : d.outbox = c.outbox ++ lines)
    (hlines : wireLine capEnd ∉ lines) (howed : d.owed ≤ c.owed) : Moves c d := by
  refine ⟨lines, houtbox, ?_, fun h => absurd h hlines⟩
  rw [List.count_eq_zero_of_not_mem hlines, Nat.zero_add]
  exact howed

/-- Behind a step that queued nothing. -/
theorem Moves.behind {c d e : Client} (houtbox : d.outbox = c.outbox) (hphase : d.phase = c.phase)
    (h : Moves d e) : Moves c e := by
  rwa [Moves, houtbox, owed_eq_of_phase hphase] at h

theorem Apart.moves {c d : Client} (h : Apart c d) : Moves c d := by
  obtain ⟨lines, houtbox, hlines⟩ := h.queued
  refine moves_of_not_mem houtbox ?_ (owed_eq_of_phase (phase_eq_of_standing h.standing).1).le
  intro hmem
  obtain ⟨line, hline, heq⟩ := List.mem_map.mp hmem
  exact wireLine_ne_of_aside (hlines line hline) heq

theorem Apart.hung {c d : Client} (h : Apart c d) : Hung d ↔ Hung c := by
  obtain ⟨hphase, hcaps, hsasl⟩ := phase_eq_of_standing h.standing
  rw [Hung, Hung, hphase, hcaps, hsasl]

theorem Finished.moves {c d : Client} (h : Finished c d) : Moves c d := by
  cases h with
  | waiting h => exact (Apart.refl c).moves
  | opened h mechanism =>
      have hline := wireLine_ne_capEnd (Message.new "AUTHENTICATE" [mechanism])
        (show ("AUTHE" : Str) ≠ "CAP E" by decide)
      exact moves_of_not_mem (rfl : _ = c.outbox ++ [wireLine (Message.new _ [mechanism])])
        (fun hmem => hline (List.mem_singleton.mp hmem).symm) le_rfl
  | released hphase hcaps hsasl =>
      refine ⟨[wireLine capEnd], rfl, ?_, fun _ => ⟨hcaps, hsasl⟩⟩
      rw [List.count_singleton_self, owed, owed, if_pos hphase]
      exact le_rfl
  | failed hphase hcaps hsasl =>
      refine ⟨[wireLine capEnd], rfl, ?_, fun _ => ⟨hcaps, rfl⟩⟩
      rw [List.count_singleton_self, owed, owed, if_pos hphase]
      exact le_rfl

/-- **Who looks does not hang.** -/
theorem Finished.not_hung {c d : Client} (h : Finished c d) : ¬ Hung d := by
  rintro ⟨hphase, hcaps, hsasl⟩
  cases h with
  | waiting h =>
      rcases h with h | h | h
      · exact h hphase
      · exact h hcaps
      · exact absurd (h.symm.trans hsasl) (by decide)
  | opened h mechanism => cases hsasl
  | released _ _ _ => cases hphase
  | failed _ _ _ => cases hphase

/-! ### The handlers -/

theorem finishSasl_moves (c : Client) (failure : Option SaslFailure) :
    Moves c (c.finishSasl failure) ∧ (¬ Hung c → ¬ Hung (c.finishSasl failure)) := by
  unfold finishSasl
  split
  · exact ⟨(Apart.refl c).moves, id⟩
  · rw [emits_eq]
    have hfinished := finishNegotiationIfSettled_finished
      { c with sasl := .settled, events := c.events ++ (failure.map Event.saslFailed).toList }
    exact ⟨Moves.behind rfl rfl hfinished.moves, fun _ => hfinished.not_hung⟩

theorem requestWanted_moves (c : Client) : Moves c c.requestWanted ∧ ¬ Hung c.requestWanted := by
  unfold requestWanted
  dsimp only
  by_cases hwanted : c.caps.toRequest = []
  · rw [if_pos hwanted]
    exact ⟨c.finishNegotiationIfSettled_finished.moves,
      c.finishNegotiationIfSettled_finished.not_hung⟩
  · rw [if_neg hwanted, sendLines_eq]
    constructor
    · refine moves_of_not_mem rfl ?_ le_rfl
      rw [List.map_map]
      intro hmem
      obtain ⟨name, -, heq⟩ := List.mem_map.mp hmem
      exact wireLine_ne_capEnd (Message.new "CAP" ["REQ", name])
        (show ("CAP R" : Str) ≠ "CAP E" by decide) heq
    · rintro ⟨-, hcaps, -⟩
      exact hwanted (List.append_eq_nil_iff.mp hcaps).2

/-- Withdrawing a capability answers nothing. -/
theorem pending_withdraw (caps : Capabilities) (list : Str) :
    (caps.withdraw list).pending = caps.pending := by
  unfold Capabilities.withdraw
  induction splitWhitespace list generalizing caps with
  | nil => rfl
  | cons token tokens ih =>
      rw [List.foldl_cons, ih]

/-- A capability reply: a final list of capabilities is followed by a look. -/
theorem applyCap_moves (c : Client) (subcommand list : Str) (moreToCome : Bool) :
    Moves c (c.applyCap subcommand list moreToCome) ∧
      (¬ Hung c → ¬ Hung (c.applyCap subcommand list moreToCome)) ∧
      (subcommand = "LS" → moreToCome = false →
        ¬ Hung (c.applyCap subcommand list moreToCome)) := by
  unfold applyCap
  by_cases hls : subcommand = "LS"
  · rw [if_pos hls]
    dsimp only
    cases moreToCome with
    | true =>
        rw [if_pos rfl]
        exact ⟨moves_of_not_mem (List.append_nil _).symm (by simp) le_rfl, id, by simp⟩
    | false =>
        obtain ⟨hmoves, hhung⟩ := requestWanted_moves { c with caps := c.caps.advertise list }
        exact ⟨Moves.behind rfl rfl hmoves, fun _ => hhung, fun _ _ => hhung⟩
  rw [if_neg hls]
  refine and_congr_right' (and_iff_left fun h => absurd h hls) |>.mpr ?_
  by_cases hnew : subcommand = "NEW"
  · rw [if_pos hnew]
    obtain ⟨hmoves, hhung⟩ := requestWanted_moves { c with caps := c.caps.advertise list }
    exact ⟨Moves.behind rfl rfl hmoves, fun _ => hhung⟩
  rw [if_neg hnew]
  by_cases hdel : subcommand = "DEL"
  · rw [if_pos hdel]
    refine ⟨moves_of_not_mem (List.append_nil _).symm List.not_mem_nil le_rfl, fun h hhung => h ?_⟩
    obtain ⟨hphase, hcaps, hsasl⟩ := hhung
    exact ⟨hphase, (pending_withdraw c.caps list).symm.trans hcaps, hsasl⟩
  rw [if_neg hdel]
  by_cases hack : subcommand = "ACK"
  · rw [if_pos hack]
    dsimp only
    split
    · have hfinished := finishNegotiationIfSettled_finished
        { c with caps := (c.caps.acknowledge list).1 }
      exact ⟨Moves.behind rfl rfl hfinished.moves, fun _ => hfinished.not_hung⟩
    · have hfinished := finishNegotiationIfSettled_finished
        ({ c with caps := (c.caps.acknowledge list).1 }.emit
          (.capabilitiesAcknowledged (c.caps.acknowledge list).2))
      exact ⟨Moves.behind rfl rfl hfinished.moves, fun _ => hfinished.not_hung⟩
  rw [if_neg hack]
  by_cases hnak : subcommand = "NAK"
  · rw [if_pos hnak]
    have hfinished :=
      finishNegotiationIfSettled_finished { c with caps := c.caps.reject list }
    exact ⟨Moves.behind rfl rfl hfinished.moves, fun _ => hfinished.not_hung⟩
  · rw [if_neg hnak]
    exact ⟨(Apart.refl c).moves, id⟩

/-- A final list of capabilities. -/
def isFinalList (message : Message) : Prop :=
  message.is "CAP" = true ∧ (message.param 1).map toAsciiUppercase = some "LS" ∧
    message.param 2 ≠ some "*"

theorem handleCap_moves (c : Client) (message : Message) :
    Moves c (c.handleCap message) ∧ (¬ Hung c → ¬ Hung (c.handleCap message)) ∧
      (isFinalList message → ¬ Hung (c.handleCap message)) := by
  unfold handleCap
  cases hparam : message.param 1 with
  | none =>
      refine ⟨(Apart.refl c).moves, id, ?_⟩
      rintro ⟨-, hls, -⟩
      rw [hparam] at hls
      cases hls
  | some subcommand =>
      obtain ⟨hmoves, hhung, hfinal⟩ := c.applyCap_moves (toAsciiUppercase subcommand)
        (message.trailing.getD []) (message.param 2 == some ("*" : Str))
      refine ⟨hmoves, hhung, ?_⟩
      rintro ⟨-, hls, hmore⟩
      rw [hparam] at hls
      exact hfinal (Option.some.inj hls) (beq_eq_false_iff_ne.mpr hmore)

/-- What a reconnect asks for again is no part of negotiation. -/
theorem resumeLines_aside (c : Client) : ∀ line ∈ c.resumeLines, Aside line := by
  unfold resumeLines
  intro line hline
  rw [List.mem_append, List.mem_append] at hline
  rcases hline with (hmonitor | hmetadata) | hchannels
  · obtain ⟨chunk, -, rfl⟩ := List.mem_map.mp hmonitor
    exact show ("MON" : Str) ≠ "CAP" by decide
  · split at hmetadata
    · exact absurd hmetadata List.not_mem_nil
    · rw [List.mem_singleton.mp hmetadata]
      exact show ("MET" : Str) ≠ "CAP" by decide
  · obtain ⟨p, -, hp⟩ := List.mem_flatMap.mp hchannels
    rcases List.mem_cons.mp hp with rfl | hhistory
    · unfold joinLine
      split
      · exact show ("JOI" : Str) ≠ "CAP" by decide
      · exact show ("JOI" : Str) ≠ "CAP" by decide
    · split at hhistory
      · obtain ⟨msgid, -, rfl⟩ := Option.map_eq_some_iff.mp (Option.mem_toList.mp hhistory)
        exact show ("CHA" : Str) ≠ "CAP" by decide
      · exact absurd hhistory List.not_mem_nil

theorem handleWelcome_moves (c : Client) (message : Message) :
    Moves c (c.handleWelcome message) ∧ ¬ Hung (c.handleWelcome message) := by
  unfold handleWelcome resume
  dsimp only
  rw [sendLines_eq]
  constructor
  · refine moves_of_not_mem rfl ?_ (Nat.zero_le _)
    intro hmem
    obtain ⟨line, hline, heq⟩ := List.mem_map.mp hmem
    exact wireLine_ne_of_aside (resumeLines_aside _ line hline) heq
  · rintro ⟨hphase, -⟩
    cases hphase

section Line

variable [Primitives]

theorem handleAuthenticate_moves (c : Client) (message : Message) :
    Moves c (c.handleAuthenticate message) ∧
      (¬ Hung c → ¬ Hung (c.handleAuthenticate message)) := by
  have hauthenticated := c.handleAuthenticate_authenticated message
  generalize c.handleAuthenticate message = d at hauthenticated ⊢
  cases hauthenticated with
  | ignored => exact ⟨(Apart.refl c).moves, id⟩
  | responded sasl scram lines h =>
      rw [sendLines_eq]
      constructor
      · refine moves_of_not_mem rfl ?_ le_rfl
        rw [List.map_map]
        intro hmem
        obtain ⟨text, -, heq⟩ := List.mem_map.mp hmem
        exact wireLine_ne_capEnd (Message.new "AUTHENTICATE" [text])
          (show ("AUTHE" : Str) ≠ "CAP E" by decide) heq
      · rintro - ⟨-, -, hidle⟩
        exact absurd (h.symm.trans hidle) (by decide)
  | ended scram failure =>
      obtain ⟨hmoves, hhung⟩ := finishSasl_moves { c with scram := scram } (some failure)
      exact ⟨Moves.behind rfl rfl hmoves, hhung⟩

/-- **One line** queues `CAP END` in its time at most, and leaves no connection hanging that was
not; nor does a final list leave one. -/
theorem handleMessage_moves (c : Client) (message : Message) :
    Moves c (c.handleMessage message) ∧ (¬ Hung c → ¬ Hung (c.handleMessage message)) ∧
      (isFinalList message → ¬ Hung (c.handleMessage message)) := by
  have hnoted : (Hung (c.noted message) ↔ Hung c) := (c.noted_apart message).hung
  rw [handleMessage_eq, ← hnoted]
  suffices h : Moves (c.noted message) ((c.noted message).dispatch message) ∧
      (¬ Hung (c.noted message) → ¬ Hung ((c.noted message).dispatch message)) ∧
      (isFinalList message → ¬ Hung ((c.noted message).dispatch message)) from
    ⟨Moves.behind rfl rfl h.1, h.2⟩
  generalize c.noted message = d
  by_cases hcap : message.is "CAP" = true
  · have hdispatch : d.dispatch message = d.handleCap message := by
      unfold dispatch
      rw [is_eq_false hcap (by decide), is_eq_false hcap (by decide), hcap]
      rfl
    rw [hdispatch]
    exact d.handleCap_moves message
  · refine and_congr_right' (and_iff_left fun h => absurd h.1 hcap) |>.mpr ?_
    have hhandled := d.dispatch_handled message
    generalize d.dispatch message = e at hhandled ⊢
    cases hhandled with
    | cap h => exact absurd h hcap
    | welcome h => exact (d.handleWelcome_moves message).imp_right fun h _ => h
    | authenticate h => exact d.handleAuthenticate_moves message
    | refused h => exact d.finishSasl_moves _
    | accepted h => exact d.finishSasl_moves none
    | apart h => exact ⟨h.moves, fun hd he => hd (h.hung.mp he)⟩

end Line

/-! ### A whole connection -/

section Run

variable [Primitives]

/-- The lines one input queues. -/
def queuedBy (c : Client) (input : Input) : List Bytes :=
  (c.step input).outbox.drop c.outbox.length

/-- The lines a run queues. -/
def queued (c : Client) : List Input → List Bytes
  | [] => []
  | input :: inputs => c.queuedBy input ++ (c.step input).queued inputs

omit [Primitives] in
theorem drop_outbox {c d : Client} {lines : List Bytes} (h : d.outbox = c.outbox ++ lines) :
    d.outbox.drop c.outbox.length = lines := by
  rw [h, List.drop_left]

/-- What a host does but for feeding bytes has no part in negotiation, and queues no line of it. -/
theorem step_aside (c : Client) {input : Input} (h : Served input)
    (hbytes : ∀ data, input ≠ .bytes data) :
    (c.step input).standing = c.standing ∧
      ∃ lines : List Message, c.queuedBy input = lines.map wireLine ∧ ∀ line ∈ lines,
        Aside line := by
  have hqueued : ∀ {d : Client}, Apart c d → d.standing = c.standing ∧
      ∃ lines : List Message, d.outbox.drop c.outbox.length = lines.map wireLine ∧
        ∀ line ∈ lines, Aside line := by
    intro d hd
    obtain ⟨lines, houtbox, hlines⟩ := hd.queued
    exact ⟨hd.standing, lines, drop_outbox houtbox, hlines⟩
  cases input with
  | connected => exact absurd h id
  | disconnected => exact absurd h id
  | bytes data => exact absurd rfl (hbytes data)
  | tick now => exact hqueued (c.tick_apart now)
  | command command => exact hqueued (c.command_apart command h)
  | sendLine message => exact absurd h id
  | sendLineLabeled message => exact absurd h id
  | pollTransmit =>
      have hnil : c.queuedBy .pollTransmit = [] :=
        List.drop_eq_nil_of_le (List.length_tail.trans_le (Nat.sub_le _ _))
      exact ⟨rfl, [], hnil, by simp⟩
  | pollEvent =>
      have hnil : c.queuedBy .pollEvent = [] := drop_outbox (List.append_nil _).symm
      exact ⟨rfl, [], hnil, by simp⟩

theorem step_apart (c : Client) {input : Input} (h : Served input)
    (hbytes : ∀ data, input ≠ .bytes data) :
    (c.step input).standing = c.standing ∧ wireLine capEnd ∉ c.queuedBy input := by
  obtain ⟨hstanding, lines, hqueued, hlines⟩ := c.step_aside h hbytes
  refine ⟨hstanding, ?_⟩
  rw [hqueued]
  intro hmem
  obtain ⟨line, hline, heq⟩ := List.mem_map.mp hmem
  exact wireLine_ne_of_aside (hlines line hline) heq

omit [Primitives] in
theorem sendLineLabeled_standing (c : Client) (line : Message) :
    (c.sendLineLabeled line).standing = c.standing := by
  rw [sendLineLabeled_eq]
  rfl

/-- What a host does, but for feeding bytes and losing the connection, leaves the standing alone;
coming up begins another phase. -/
theorem step_standing (c : Client) {input : Input} (hbytes : ∀ data, input ≠ .bytes data)
    (hdown : input ≠ .disconnected) :
    ∃ phase, (c.step input).standing = { c.standing with phase := phase } := by
  by_cases hserved : Served input
  · exact ⟨c.phase, (c.step_aside hserved hbytes).1⟩
  cases input with
  | connected =>
      refine ⟨.negotiating, ?_⟩
      show c.handleConnected.standing = _
      unfold handleConnected
      rw [sendLines_eq]
      rfl
  | disconnected => exact absurd rfl hdown
  | bytes data => exact absurd rfl (hbytes data)
  | command command =>
      cases command with
      | sendRawLine line =>
          -- a line that will not parse is not sent, and one that will is no login
          refine ⟨c.phase, ?_⟩
          rw [show c.step (.command (.sendRawLine line)) = c.command (.sendRawLine line) from rfl,
            command_sendRawLine]
          cases (Message.parse line).toOption with
          | none => rfl
          | some message => exact c.sendLineLabeled_standing message
      | _ => exact absurd trivial hserved
  | sendLine message => exact ⟨c.phase, rfl⟩
  | sendLineLabeled message => exact ⟨c.phase, c.sendLineLabeled_standing message⟩
  | _ => exact absurd trivial hserved

/-- One input queues `CAP END` at most as often as it may still come. -/
theorem step_count (c : Client) {input : Input} (h : Served input) :
    (c.queuedBy input).count (wireLine capEnd) + (c.step input).owed ≤ c.owed := by
  by_cases hbytes : ∃ data, input = .bytes data
  · obtain ⟨data, rfl⟩ := hbytes
    have hchunk : ∃ lines, (c.handleBytes data).outbox = c.outbox ++ lines ∧
        lines.count (wireLine capEnd) + (c.handleBytes data).owed ≤ c.owed := by
      refine handleBytes_induction
        (P := fun d => ∃ lines, d.outbox = c.outbox ++ lines ∧
          lines.count (wireLine capEnd) + d.owed ≤ c.owed) (fun _ _ _ _ h => h) c data ?_
        ⟨[], (List.append_nil _).symm, by simp⟩
      rintro p - ⟨before, hbefore, hcount⟩
      obtain ⟨lines, houtbox, hmore, -⟩ := (p.1.handleMessage_moves p.2).1
      refine ⟨before ++ lines, by rw [houtbox, hbefore, List.append_assoc], ?_⟩
      rw [List.count_append]
      omega
    obtain ⟨lines, houtbox, hcount⟩ := hchunk
    show ((c.handleBytes data).outbox.drop c.outbox.length).count _ + _ ≤ _
    rw [drop_outbox houtbox]
    exact hcount
  · obtain ⟨hstanding, hmem⟩ := c.step_apart h fun data hdata => hbytes ⟨data, hdata⟩
    rw [List.count_eq_zero_of_not_mem hmem, Nat.zero_add]
    exact (owed_eq_of_phase (phase_eq_of_standing hstanding).1).le

theorem queued_count (c : Client) {inputs : List Input} (h : ∀ input ∈ inputs, Served input) :
    (c.queued inputs).count (wireLine capEnd) + (c.run inputs).owed ≤ c.owed := by
  induction inputs generalizing c with
  | nil => exact (Nat.zero_add _).le
  | cons input inputs ih =>
      have hfirst := c.step_count (h input List.mem_cons_self)
      have hrest := ih (c.step input) fun i hi => h i (List.mem_cons_of_mem _ hi)
      rw [queued, List.count_append]
      show _ + _ + ((c.step input).run inputs).owed ≤ _
      omega

/-- A connection does not hang once the server has listed its capabilities. -/
theorem not_hung_of_list (c : Client) {inputs : List Input} (h : ∀ input ∈ inputs, Served input)
    (hlist : ∃ p ∈ c.trace inputs, isFinalList p.2) : ¬ Hung (c.run inputs) := by
  have hrun := run_history
    (Q := fun seen d => (∃ p ∈ seen, isFinalList p.2) → ¬ Hung d)
    (fun _ _ _ _ _ hd => hd)
    (fun seen d message hd hseen => by
      obtain ⟨-, hkeeps, hfinal⟩ := d.handleMessage_moves message
      obtain ⟨p, hp, hmessage⟩ := hseen
      rcases List.mem_append.mp hp with hp | hp
      · exact hkeeps (hd ⟨p, hp, hmessage⟩)
      · rw [List.mem_singleton.mp hp] at hmessage
        exact hfinal hmessage)
    [] inputs
    (fun input hinput hbytes _ d hd hseen hhung => by
      obtain ⟨hstanding, -⟩ := d.step_apart (h input hinput) hbytes
      obtain ⟨hphase, hcaps, hsasl⟩ := phase_eq_of_standing hstanding
      rw [Hung, hphase, hcaps, hsasl] at hhung
      exact hd hseen hhung)
    (c := c) (fun hseen => by obtain ⟨p, hp, -⟩ := hseen; cases hp)
  exact hrun hlist

omit [Primitives] in
theorem capEnd_not_mem_registration (config : Config) :
    wireLine capEnd ∉ (registrationLines config).map wireLine := by
  intro hmem
  obtain ⟨line, hline, heq⟩ := List.mem_map.mp hmem
  unfold registrationLines at hline
  rw [List.mem_append, List.mem_append, List.mem_singleton, List.mem_pair] at hline
  rcases hline with (rfl | hpass) | rfl | rfl
  · exact wireLine_ne_capEnd _ (by decide) heq
  · obtain ⟨password, -, rfl⟩ := Option.map_eq_some_iff.mp (Option.mem_toList.mp hpass)
    exact wireLine_ne_of_aside (aside_of_word rfl fun _ => rfl) heq
  · exact wireLine_ne_of_aside (aside_of_word rfl fun _ => rfl) heq
  · exact wireLine_ne_of_aside (aside_of_word rfl fun _ => rfl) heq

/-- **Negotiation ends once and in its time, and is never waited for in vain.** -/
theorem negotiation_ends_once (c : Client) {inputs : List Input}
    (h : ∀ input ∈ inputs, Served input) :
    let first := c.handleConnected
    (c.queued (.connected :: inputs)).count (wireLine capEnd) ≤ 1 ∧
    (∀ p ∈ first.trace inputs,
      wireLine capEnd ∈ (p.1.handleMessage p.2).outbox.drop p.1.outbox.length →
        (p.1.handleMessage p.2).caps.pending = [] ∧
          (p.1.handleMessage p.2).sasl.inFlight = false) ∧
    (∀ before input after, inputs = before ++ input :: after → (∀ data, input ≠ .bytes data) →
      wireLine capEnd ∉ (first.run before).queuedBy input) ∧
    ((∃ p ∈ first.trace inputs, isFinalList p.2) → (first.run inputs).phase = .negotiating →
      (first.run inputs).caps.pending ≠ [] ∨ (first.run inputs).sasl.inFlight = true) := by
  refine ⟨?_, ?_, ?_, ?_⟩
  · have hfirst : wireLine capEnd ∉ c.queuedBy .connected := by
      have houtbox : (c.step .connected).outbox =
          c.outbox ++ (registrationLines c.config).map wireLine := by
        show c.handleConnected.outbox = _
        unfold handleConnected
        rw [sendLines_eq]
        rfl
      rw [queuedBy, drop_outbox houtbox]
      exact capEnd_not_mem_registration c.config
    have hrest := c.handleConnected.queued_count h
    have howed : c.handleConnected.owed ≤ 1 := by
      unfold owed
      split <;> omega
    rw [queued, List.count_append, List.count_eq_zero_of_not_mem hfirst]
    show 0 + (c.handleConnected.queued inputs).count _ ≤ 1
    omega
  · intro p hp hmem
    obtain ⟨lines, houtbox, -, hsettled⟩ := (p.1.handleMessage_moves p.2).1
    rw [drop_outbox houtbox] at hmem
    exact hsettled hmem
  · rintro before input after rfl hbytes
    exact (step_apart _ (h input (by simp)) hbytes).2
  · intro hlist hphase
    by_contra hnone
    rw [not_or, not_not, Bool.not_eq_true] at hnone
    exact c.handleConnected.not_hung_of_list h hlist ⟨hphase, hnone⟩

omit [Primitives] in
/-- A list in two lines, requests, and what acknowledges them. -/
theorem negotiation_ends_once_acknowledged : letI := Primitives.ascii
    let c := new (.new "me")
    let inputs := [Input.bytes (Utf8.encode "CAP * LS * :batch\r\nCAP * LS :server-time\r\n"),
      .bytes (Utf8.encode "CAP * ACK :server-time\r\nCAP * ACK :batch\r\n")]
    let first := c.handleConnected
    (wireLine (Message.new "CAP" ["REQ", "batch"]) ∈ (first.run inputs).outbox ∧
      (c.queued (.connected :: inputs)).count (wireLine capEnd) = 1 ∧
      ∃ p ∈ first.trace inputs, isFinalList p.2) ∧
    (c.queued (.connected :: inputs)).count (wireLine capEnd) ≤ 1 ∧
    (∀ p ∈ first.trace inputs,
      wireLine capEnd ∈ (p.1.handleMessage p.2).outbox.drop p.1.outbox.length →
        (p.1.handleMessage p.2).caps.pending = [] ∧
          (p.1.handleMessage p.2).sasl.inFlight = false) ∧
    (∀ before input after, inputs = before ++ input :: after → (∀ data, input ≠ .bytes data) →
      wireLine capEnd ∉ (first.run before).queuedBy input) ∧
    ((∃ p ∈ first.trace inputs, isFinalList p.2) → (first.run inputs).phase = .negotiating →
      (first.run inputs).caps.pending ≠ [] ∨ (first.run inputs).sasl.inFlight = true) := by
  let _ := Primitives.ascii
  intro c inputs first
  have hserved : ∀ input ∈ inputs, Served input := by
    intro input hinput
    simp only [inputs, List.mem_cons, List.not_mem_nil, or_false] at hinput
    rcases hinput with rfl | rfl <;> trivial
  refine ⟨⟨by decide +kernel, by decide +kernel, ?_⟩, ?_⟩
  · unfold isFinalList
    decide +kernel
  · clear_value inputs c
    exact negotiation_ends_once c hserved

end Run

end Client

end ObbyClient

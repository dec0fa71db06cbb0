import ObbyClient.Engine.Clock
import ObbyClient.Engine.Typing

/-!
# The keepalive

A connection on which nothing is heard is asked whether it is alive, and is given up on when it does
not answer.  Any line at all is an answer.

* `Timers.pulse` — the two deadlines of the keepalive;
* `Client.dispatch_pulse`, `Client.tick_pulse` — what a line and a tick do to them;
* `Client.Awaits` — a run since whose last `PING` nothing was heard;
* `Client.run_keepalive` — one `PING` at a time, and one verdict for each that is not answered.
-/

namespace ObbyClient

namespace Timers

/-- When the next `PING` is due, and when the link is given up on. -/
def pulse (timers : Timers) : Option ℕ × Option ℕ :=
  (timers.deadlines[Deadline.pingKeepalive]?, timers.deadlines[Deadline.deadLink]?)

/-- True for a deadline that has come. -/
def isDue (deadline : Option ℕ) (now : Now) : Bool := deadline.any fun atMs =>
    atMs ≤ now.monotonicMs

theorem mem_expire_iff_isDue (timers : Timers) (now : Now) (deadline : Deadline) :
    deadline ∈ (timers.expire now).2 ↔ isDue timers.deadlines[deadline]? now = true := by
  rw [mem_expire]
  unfold isDue
  cases timers.deadlines[deadline]? with
  | none => simp
  | some atMs => simp

/-- What falls due falls due once. -/
theorem count_expire (timers : Timers) (now : Now) (deadline : Deadline) :
    (timers.expire now).2.count deadline =
      if isDue timers.deadlines[deadline]? now = true then 1 else 0 := by
  have hnodup : (timers.expire now).2.Nodup := nodup_dueKeys timers.deadlines now.monotonicMs id
  rw [hnodup.count]
  exact if_congr (timers.mem_expire_iff_isDue now deadline) rfl rfl

/-- The keepalive after a tick. -/
def pulseAfter (pulse : Option ℕ × Option ℕ) (now : Now) : Option ℕ × Option ℕ :=
  if isDue pulse.1 now = true then (none, some (satAdd64 now.monotonicMs deadLinkMs))
  else (pulse.1, if isDue pulse.2 now = true then none else pulse.2)

theorem pulse_foldl_expireTimers (now : Now) (timers : Timers) (due : List Deadline) :
    (due.foldl (Client.expireTimers now) timers).pulse =
      (timers.pulse.1, if .pingKeepalive ∈ due then some (satAdd64 now.monotonicMs deadLinkMs)
        else timers.pulse.2) := by
  induction due generalizing timers with
  | nil => rfl
  | cons deadline due ih =>
      rw [List.foldl_cons, ih]
      by_cases hping : deadline = .pingKeepalive
      · subst hping
        have hafter : (Client.expireTimers now timers .pingKeepalive).pulse =
            (timers.pulse.1, some (satAdd64 now.monotonicMs deadLinkMs)) := by
          show (timers.set .deadLink _).pulse = _
          unfold pulse
          rw [Client.getElem?_set, Client.getElem?_set, if_neg (by decide), if_pos rfl]
        rw [hafter, if_pos List.mem_cons_self, ite_self]
      · have hafter : Client.expireTimers now timers deadline = timers := by
          cases deadline with
          | pingKeepalive => exact absurd rfl hping
          | _ => rfl
        have hmem : Deadline.pingKeepalive ∈ deadline :: due ↔ Deadline.pingKeepalive ∈ due := by
          rw [List.mem_cons]
          exact or_iff_right fun heq => hping heq.symm
        rw [hafter]
        simp only [hmem]

end Timers

namespace Client

open Timers

/-! ### What each step does to the keepalive -/

/-- **A tick.** -/
theorem tick_pulse (c : Client) (now : Now) :
    (c.tick now).timers.pulse = pulseAfter c.timers.pulse now := by
  have htimers : (c.tick now).timers =
      (c.timers.expire now).2.foldl (expireTimers now) (c.timers.expire now).1 :=
    congrArg Bearing.timers (c.tick_bearing now)
  have hleft : (c.timers.expire now).1.pulse =
      (if isDue c.timers.pulse.1 now = true then none else c.timers.pulse.1,
        if isDue c.timers.pulse.2 now = true then none else c.timers.pulse.2) := by
    unfold pulse
    rw [getElem?_expire, getElem?_expire]
    simp only [mem_expire_iff_isDue]
  rw [htimers, pulse_foldl_expireTimers, hleft]
  simp only [mem_expire_iff_isDue]
  unfold pulseAfter
  by_cases hping : isDue c.timers.pulse.1 now = true
  · rw [if_pos hping, if_pos hping]
    exact congrArg (Prod.mk none) (if_pos hping)
  · rw [if_neg hping, if_neg hping]
    exact congrArg (Prod.mk _) (if_neg hping)

theorem typed_pulse (b : Bearing) (target who : CaseFolded) (typing : Bool) (monotonicMs : ℕ) :
    (b.typed target who typing monotonicMs).timers.pulse = b.timers.pulse := by
  unfold Bearing.typed pulse
  dsimp only
  cases typing with
  | true => rw [if_pos rfl, getElem?_set, getElem?_set, if_neg (by simp), if_neg (by simp)]
  | false =>
      rw [if_neg (by decide), getElem?_clear, getElem?_clear, if_neg (by simp), if_neg (by simp)]

section Line

variable [Primitives]

theorem folds_timers (c : Client) (messages : List Message) (historical : Bool) :
    (c.folds messages historical).timers = c.timers := by
  unfold folds
  induction messages generalizing c with
  | nil => rfl
  | cons message messages ih =>
      rw [List.foldl_cons, ih, fold_eq]

/-- Handling a line leaves the keepalive as it is. -/
theorem dispatch_pulse (c : Client) (message : Message) :
    (c.dispatch message).timers.pulse = c.timers.pulse := by
  have hdoes := c.dispatch_does message
  generalize c.dispatch message = d at hdoes
  cases hdoes with
  | still _ hd => exact congrArg (fun b => b.timers.pulse) hd
  | welcome => exact congrArg (fun b => b.timers.pulse) (c.handleWelcome_bearing message)
  | refused =>
      rcases c.handleNickRefused_bearing message with hd | ⟨nick, hd⟩
      · exact congrArg (fun b => b.timers.pulse) hd
      · exact congrArg (fun b => b.timers.pulse) hd
  | isupport => exact congrArg (fun b => b.timers.pulse) (c.handleIsupport_bearing message)
  | typing _ hd =>
      obtain ⟨_, _, _, -, -, -, hbearing⟩ := handleTyping_bearing hd
      have hpulse := congrArg (fun b => b.timers.pulse) hbearing
      exact hpulse.trans (typed_pulse _ _ _ _ _)
  | batch =>
      unfold handleBatch
      split
      · rfl
      · split
        · rfl
        · rw [folds_timers]
  | other =>
      unfold handleOther
      split
      · rfl
      · rw [fold_eq]

/-- **A line**: the next `PING` is put off, and nothing waits for an answer. -/
theorem handleMessage_pulse (c : Client) (message : Message) :
    (c.handleMessage message).timers.pulse =
      (some (satAdd64 c.monotonicMs pingKeepaliveMs), none) := by
  rw [handleMessage_eq, dispatch_pulse]
  show ((c.timers.clear .deadLink).set .pingKeepalive _).pulse = _
  unfold pulse
  rw [getElem?_set, getElem?_set, getElem?_clear, getElem?_clear, if_pos rfl, if_neg (by decide),
    if_pos rfl]

/-- **A chunk**: the same, unless no line of it is handled. -/
theorem handleBytes_pulse (c : Client) (data : Bytes) :
    (c.handled data = [] → (c.handleBytes data).timers.pulse = c.timers.pulse) ∧
      (c.handled data ≠ [] → (c.handleBytes data).timers.pulse.2 = none) := by
  refine handleBytes_history
    (Q := fun seen d => (seen = [] → d.timers.pulse = c.timers.pulse) ∧
      (seen ≠ [] → d.timers.pulse.2 = none))
    (fun _ _ _ _ _ h => h) ?_ [] ⟨fun _ => rfl, fun h => absurd rfl h⟩ data
  intro seen d message h
  refine ⟨fun hnil => absurd hnil (by simp), fun _ => ?_⟩
  rw [handleMessage_pulse]

omit [Primitives] in
theorem handleConnected_pulse (c : Client) : c.handleConnected.timers.pulse.2 = none := by
  obtain ⟨timers, hd, rfl⟩ := c.handleConnected_bearing
  rw [show c.handleConnected.timers = _ from congrArg Bearing.timers hd]
  show (Timers.set _ _ _).deadlines[_]? = none
  rw [getElem?_set, if_neg (by decide), getElem?_clear, if_pos rfl]

omit [Primitives] in
theorem handleDisconnected_pulse (c : Client) : c.handleDisconnected.timers.pulse =
    (none, none) := by
  obtain ⟨timers, hd, htimers⟩ := c.handleDisconnected_bearing
  rw [show c.handleDisconnected.timers = timers from congrArg Bearing.timers hd]
  unfold pulse
  rcases htimers with rfl | ⟨atMs, rfl⟩
  · rw [getElem?_clear, getElem?_clear, getElem?_clear, if_neg (by decide), if_pos rfl, if_pos rfl]
  · rw [getElem?_set, getElem?_set, getElem?_clear, getElem?_clear, getElem?_clear,
      if_neg (by decide), if_neg (by decide), if_pos rfl, if_neg (by decide), if_pos rfl]

/-- True for what comes up or goes down, which starts the keepalive anew. -/
def Input.isLink : Input → Bool
  | .connected => true
  | .disconnected => true
  | _ => false

/-- **What neither hears anything nor tells the time** leaves the keepalive as it is. -/
theorem step_pulse_of_quiet (c : Client) {input : Input} (hlink : input.isLink = false)
    (hheard : c.handledBy input = []) (htick : ∀ now, input ≠ .tick now) :
    (c.step input).timers.pulse = c.timers.pulse := by
  cases input with
  | connected => cases hlink
  | disconnected => cases hlink
  | bytes data => exact (c.handleBytes_pulse data).1 hheard
  | tick now => exact absurd rfl (htick now)
  | command command =>
      have hpulse : (c.command command).timers = c.timers := by
        rcases c.command_bearing command with hd | ⟨_, _, -, hd⟩ | ⟨line, -, hd⟩
        · exact congrArg Bearing.timers hd
        · exact congrArg Bearing.timers hd
        · have htimers := congrArg Bearing.timers hd
          rw [fold_eq] at htimers
          exact htimers
      show (c.command command).timers.pulse = _
      rw [hpulse]
  | sendLine message => rfl
  | sendLineLabeled message =>
      exact congrArg (fun b => b.timers.pulse) (c.sendLineLabeled_bearing message)
  | pollTransmit => rfl
  | pollEvent => rfl

/-- What hears something, or starts anew, stops waiting for an answer. -/
theorem step_pulse_of_heard (c : Client) {input : Input}
    (h : input.isLink = true ∨ c.handledBy input ≠ []) : (c.step input).timers.pulse.2 = none := by
  cases input with
  | connected => exact c.handleConnected_pulse
  | disconnected => exact congrArg Prod.snd c.handleDisconnected_pulse
  | bytes data => exact (c.handleBytes_pulse data).2 (h.resolve_left Bool.false_ne_true)
  | _ => exact absurd rfl (h.resolve_left Bool.false_ne_true)

/-! ### What a tick sends and says -/

/-- A tick that asks whether the link is alive. -/
def Pings (c : Client) (now : Now) : Prop :=
  (c.tick now).outbox = c.outbox ++ [wireLine (Message.new "PING" [c.nick])]

/-- How often a tick says that the link is dead. -/
def verdicts (c : Client) (now : Now) : ℕ :=
  ((c.tick now).events.drop c.events.length).count .linkDead

omit [Primitives] in
theorem tick_outbox (c : Client) (now : Now) :
    (c.tick now).outbox = c.outbox ++
      if isDue c.timers.pulse.1 now = true then [wireLine (Message.new "PING" [c.nick])]
      else [] := by
  obtain ⟨-, houtbox, -⟩ := c.tick_tells now
  rw [houtbox, count_expire]
  show c.outbox ++ List.replicate (if isDue c.timers.pulse.1 now = true then 1 else 0) _ = _
  by_cases hdue : isDue c.timers.pulse.1 now = true
  · rw [if_pos hdue, if_pos hdue]
    rfl
  · rw [if_neg hdue, if_neg hdue]
    rfl

omit [Primitives] in
/-- A tick asks when the keepalive is due. -/
theorem pings_iff (c : Client) (now : Now) : c.Pings now ↔ isDue c.timers.pulse.1 now = true := by
  unfold Pings
  rw [tick_outbox, List.append_cancel_left_eq]
  by_cases hdue : isDue c.timers.pulse.1 now = true
  · rw [if_pos hdue]
    exact iff_of_true rfl hdue
  · rw [if_neg hdue]
    exact iff_of_false (by simp) hdue

omit [Primitives] in
/-- A tick gives up when the deadline for an answer has come. -/
theorem verdicts_eq (c : Client) (now : Now) :
    c.verdicts now = if isDue c.timers.pulse.2 now = true then 1 else 0 := by
  obtain ⟨-, -, events, hevents, hcount, -⟩ := c.tick_tells now
  have hlate : ∀ late : List Str, (late.map Event.commandTimedOut).count .linkDead = 0 := by
    intro late
    refine List.count_eq_zero_of_not_mem ?_
    intro hmem
    obtain ⟨command, -, hcommand⟩ := List.mem_map.mp hmem
    cases hcommand
  unfold verdicts
  rw [hevents, List.append_assoc, List.drop_left, List.count_append, hlate, hcount, count_expire]
  rfl

/-! ### What waits for an answer -/

/-- Nothing is heard along a run, and the connection stays up. -/
def Quiescent (c : Client) (inputs : List Input) : Prop :=
  (∀ input ∈ inputs, input.isLink = false) ∧ c.trace inputs = []

/-- The tick at `p` asked whether the link is alive, and nothing was heard since. -/
def Awaits (c : Client) (inputs : List Input) (p : Now) (between : List Input) : Prop :=
  ∃ before, inputs = before ++ .tick p :: between ∧ (c.run before).Pings p ∧
    ((c.run before).tick p).Quiescent between

/-- No tick of a run comes as late as this. -/
def AllBefore (atMs : ℕ) (inputs : List Input) : Prop :=
  ∀ q, Input.tick q ∈ inputs → q.monotonicMs < atMs

theorem quiescent_append {c : Client} {before : List Input} {input : Input} :
    c.Quiescent (before ++ [input]) ↔
      c.Quiescent before ∧ input.isLink = false ∧ (c.run before).handledBy input = [] := by
  unfold Quiescent
  rw [trace_append, List.append_eq_nil_iff]
  simp only [trace, List.append_nil, List.mem_append, List.mem_singleton]
  constructor
  · intro h
    obtain ⟨hlink, hbefore, hheard⟩ := h
    exact ⟨⟨fun i hi => hlink i (.inl hi), hbefore⟩, hlink input (.inr rfl), hheard⟩
  · intro h
    obtain ⟨⟨hlink, hbefore⟩, hinput, hheard⟩ := h
    refine ⟨?_, hbefore, hheard⟩
    intro i hi
    rcases hi with hi | rfl
    · exact hlink i hi
    · exact hinput

/-- **Waiting**: no `PING` is due, and the verdict is, until a tick comes late enough for it. -/
theorem quiescent_pulse {c : Client} {atMs : ℕ} (h : c.timers.pulse = (none, some atMs))
    {inputs : List Input} (hquiet : c.Quiescent inputs) :
    (c.run inputs).timers.pulse.1 = none ∧
      ((AllBefore atMs inputs ∧ (c.run inputs).timers.pulse.2 = some atMs) ∨
        (¬AllBefore atMs inputs ∧ (c.run inputs).timers.pulse.2 = none)) := by
  induction inputs using List.reverseRecOn with
  | nil => exact ⟨congrArg Prod.fst h,
      .inl ⟨fun _ hq => absurd hq List.not_mem_nil, congrArg Prod.snd h⟩⟩
  | append_singleton before input ih =>
      obtain ⟨hbefore, hlink, hheard⟩ := quiescent_append.mp hquiet
      obtain ⟨hping, hdead⟩ := ih hbefore
      rw [run_append]
      show ((c.run before).step input).timers.pulse.1 = none ∧ _
      by_cases htick : ∃ now, input = .tick now
      · obtain ⟨now, rfl⟩ := htick
        have hpulse := (c.run before).tick_pulse now
        unfold pulseAfter at hpulse
        rw [hping, if_neg (by simp [isDue])] at hpulse
        refine ⟨congrArg Prod.fst hpulse, ?_⟩
        rw [show ((c.run before).run [.tick now]).timers.pulse.2 = _ from congrArg Prod.snd hpulse]
        have hall : AllBefore atMs (before ++ [.tick now]) ↔
            AllBefore atMs before ∧ now.monotonicMs < atMs := by
          unfold AllBefore
          simp only [List.mem_append, List.mem_singleton, Input.tick.injEq]
          exact ⟨fun hq => ⟨fun q hmem => hq q (.inl hmem), hq now (.inr rfl)⟩,
            fun hq q hmem => hmem.elim (hq.1 q) fun heq => heq ▸ hq.2⟩
        rw [hall]
        rcases hdead with ⟨hallBefore, hdead⟩ | ⟨hallBefore, hdead⟩
        · rw [hdead]
          by_cases hlate : atMs ≤ now.monotonicMs
          · right
            exact ⟨fun hq => absurd hq.2 (Nat.not_lt.mpr hlate),
              if_pos (by simpa [isDue] using hlate)⟩
          · left
            exact ⟨⟨hallBefore, Nat.not_le.mp hlate⟩, if_neg (by simpa [isDue] using hlate)⟩
        · right
          rw [hdead]
          exact ⟨fun hq => hallBefore hq.1, ite_self (c := isDue none now = true) none⟩
      · have hpulse := (c.run before).step_pulse_of_quiet hlink hheard fun now heq =>
          htick ⟨now, heq⟩
        have hall : AllBefore atMs (before ++ [input]) ↔ AllBefore atMs before := by
          unfold AllBefore
          simp only [List.mem_append, List.mem_singleton]
          exact ⟨fun hq q hmem => hq q (.inl hmem),
            fun hq q hmem => hmem.elim (hq q) fun heq => absurd ⟨q, heq.symm⟩ htick⟩
        rw [show ((c.run before).run [input]).timers.pulse = _ from hpulse, hpulse, hall]
        exact ⟨hping, hdead⟩

/-- The verdict is due only while an answer is awaited, and never while a `PING` is. -/
theorem pulse_awaits (config : Config) (inputs : List Input) :
    (((new config).run inputs).timers.pulse.1 = none ∨
        ((new config).run inputs).timers.pulse.2 = none) ∧
      ∀ atMs, ((new config).run inputs).timers.pulse.2 = some atMs →
        ∃ p between, (new config).Awaits inputs p between ∧
          atMs = satAdd64 p.monotonicMs deadLinkMs := by
  induction inputs using List.reverseRecOn with
  | nil =>
      refine ⟨.inr ?_, ?_⟩
      · exact Std.ExtTreeMap.getElem?_empty
      · intro atMs h
        rw [show ((new config).run []).timers.pulse.2 =
          none from Std.ExtTreeMap.getElem?_empty] at h
        cases h
  | append_singleton before input ih =>
      obtain ⟨hone, hawaits⟩ := ih
      rw [run_append]
      generalize hc : (new config).run before = c at hone hawaits
      show (_ ∨ (c.step input).timers.pulse.2 = none) ∧ _
      by_cases hheard : input.isLink = true ∨ c.handledBy input ≠ []
      · have hdead := c.step_pulse_of_heard hheard
        refine ⟨.inr hdead, ?_⟩
        intro atMs h
        rw [show (c.run [input]).timers.pulse.2 = none from hdead] at h
        cases h
      rw [not_or, Bool.not_eq_true, not_not] at hheard
      obtain ⟨hlink, hheard⟩ := hheard
      -- a wait goes on across an input that hears nothing
      have hlonger : ∀ atMs, c.timers.pulse.2 = some atMs → ∃ p between,
          (new config).Awaits (before ++ [input]) p between ∧
            atMs = satAdd64 p.monotonicMs deadLinkMs := by
        intro atMs h
        obtain ⟨p, between, ⟨first, hsplit, hpings, hquiet⟩, hatMs⟩ := hawaits atMs h
        refine ⟨p, between ++ [input], ⟨first, ?_, hpings, ?_⟩, hatMs⟩
        · rw [hsplit, List.append_assoc]
          rfl
        · rw [hsplit, run_append] at hc
          exact quiescent_append.mpr ⟨hquiet, hlink, by rw [← hheard, ← hc]; rfl⟩
      by_cases htick : ∃ now, input = .tick now
      · obtain ⟨now, rfl⟩ := htick
        have hpulse : (c.step (.tick now)).timers.pulse = _ := c.tick_pulse now
        rw [show (c.run [.tick now]).timers.pulse = _ from hpulse, hpulse]
        unfold pulseAfter
        by_cases hdue : isDue c.timers.pulse.1 now = true
        · rw [if_pos hdue]
          refine ⟨.inl rfl, ?_⟩
          intro atMs h
          refine ⟨now, [], ⟨before, rfl, ?_, ⟨?_, rfl⟩⟩, (Option.some.inj h).symm⟩
          · rw [hc]
            exact (c.pings_iff now).mpr hdue
          · intro i hi
            cases hi
        · rw [if_neg hdue]
          refine ⟨hone.imp id fun hdead => ?_, ?_⟩
          · dsimp only
            rw [hdead, ite_self]
          · intro atMs h
            refine hlonger atMs ?_
            dsimp only at h
            split at h
            · cases h
            · exact h
      · have hpulse := c.step_pulse_of_quiet hlink hheard fun now heq => htick ⟨now, heq⟩
        rw [show (c.run [input]).timers.pulse = _ from hpulse, hpulse]
        exact ⟨hone, hlonger⟩

/-- What is awaited, the deadlines say. -/
theorem Awaits.pulse {c : Client} {inputs : List Input} {p : Now} {between : List Input}
    (h : c.Awaits inputs p between) :
    (c.run inputs).timers.pulse.1 = none ∧
      ((AllBefore (satAdd64 p.monotonicMs deadLinkMs) between ∧
          (c.run inputs).timers.pulse.2 = some (satAdd64 p.monotonicMs deadLinkMs)) ∨
        (¬AllBefore (satAdd64 p.monotonicMs deadLinkMs) between ∧
          (c.run inputs).timers.pulse.2 = none)) := by
  obtain ⟨before, rfl, hpings, hquiet⟩ := h
  rw [run_append]
  refine quiescent_pulse (c := (c.run before).tick p) ?_ hquiet
  rw [tick_pulse]
  exact if_pos (((c.run before).pings_iff p).mp hpings)

/-- **The keepalive.**  It is never due to ask while an answer is awaited, and a tick asks once at
most.  While an answer is awaited no tick asks again; the link is given up on only when an answer
has been awaited for long enough, by the first tick that comes then, once. -/
theorem run_keepalive (config : Config) (inputs : List Input) (now : Now) :
    let c := (new config).run inputs
    (c.timers.deadlines[Deadline.pingKeepalive]? = none ∨
        c.timers.deadlines[Deadline.deadLink]? = none) ∧
      (c.Pings now ∨ (c.tick now).outbox = c.outbox) ∧
      (∀ p between, (new config).Awaits inputs p between → ¬c.Pings now) ∧
      (0 < c.verdicts now → ∃ p between, (new config).Awaits inputs p between ∧
        satAdd64 p.monotonicMs deadLinkMs ≤ now.monotonicMs) ∧
      ∀ p between, (new config).Awaits inputs p between →
        satAdd64 p.monotonicMs deadLinkMs ≤ now.monotonicMs →
        (AllBefore (satAdd64 p.monotonicMs deadLinkMs) between → c.verdicts now = 1) ∧
          (¬AllBefore (satAdd64 p.monotonicMs deadLinkMs) between → c.verdicts now = 0) := by
  intro c
  obtain ⟨hone, hawaits⟩ := pulse_awaits config inputs
  refine ⟨hone, ?_, ?_, ?_, ?_⟩
  · by_cases hdue : isDue c.timers.pulse.1 now = true
    · exact .inl ((c.pings_iff now).mpr hdue)
    · right
      rw [tick_outbox, if_neg hdue, List.append_nil]
  · intro p between h
    rw [pings_iff, show c.timers.pulse.1 = none from h.pulse.1]
    exact Bool.false_ne_true
  · intro h
    rw [verdicts_eq] at h
    cases hdead : c.timers.pulse.2 with
    | none =>
        rw [hdead] at h
        exact absurd h (Nat.lt_irrefl 0)
    | some atMs =>
        obtain ⟨p, between, hp, hatMs⟩ := hawaits atMs hdead
        refine ⟨p, between, hp, ?_⟩
        rw [← hatMs]
        by_contra hearly
        rw [hdead, if_neg (by simpa [isDue] using hearly)] at h
        exact absurd h (Nat.lt_irrefl 0)
  · intro p between h hlate
    rw [verdicts_eq]
    rcases h.pulse.2 with ⟨hall, hdead⟩ | ⟨hall, hdead⟩
    · refine ⟨fun _ => ?_, fun hq => absurd hall hq⟩
      rw [show c.timers.pulse.2 = _ from hdead]
      exact if_pos (by simpa [isDue] using hlate)
    · refine ⟨fun hq => absurd hq hall, fun _ => ?_⟩
      rw [show c.timers.pulse.2 = _ from hdead]
      exact if_neg Bool.false_ne_true

omit [Primitives] in
/-- A connection on which nothing is ever heard is given up on after forty seconds. -/
theorem run_keepalive_unheard : letI := Primitives.ascii
    ((new (.new "me")).run [.connected, .tick ⟨30000, 0⟩]).verdicts ⟨40000, 0⟩ = 1 := by
  let _ := Primitives.ascii
  obtain ⟨-, -, -, -, hlate⟩ :=
    run_keepalive (.new "me") [.connected, .tick ⟨30000, 0⟩] ⟨40000, 0⟩
  refine (hlate ⟨30000, 0⟩ [] ⟨[.connected], rfl, ?_, ?_, rfl⟩ (by decide)).1 ?_
  · unfold Pings
    decide +kernel
  · intro input hinput
    cases hinput
  · intro q hq
    cases hq

end Line

end Client

end ObbyClient

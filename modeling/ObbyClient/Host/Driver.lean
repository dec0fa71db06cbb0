import ObbyClient.Engine.Bearing
import ObbyClient.Engine.Clock
import ObbyClient.Engine.Drain
import Mathlib.Data.Rat.Floor
import Mathlib.Tactic.Linarith

/-!
# The drain loop

The engine does no input or output of its own: somebody has to write what it queues, take its events
and call it back when it next has something to do.  The web binding has that loop written once, for
a socket and a clock.

* `Driver.step_whole` — the loop does to the engine what one engine input after another does;
* `Driver.run_carries` — over a whole connection it loses, repeats and reorders nothing;
* `Driver.run_awake` — it never oversleeps a deadline that the engine reports, and wakes up less
  than a millisecond before it.
-/

namespace ObbyClient

/-- What a socket hands over for one message. -/
inductive SocketData where
  | binary (data : Bytes)
  | text (data : Str)
  /-- Neither binary nor text. -/
  | other

/-- Bytes, whatever shape the transport handed us; `none` for the `TypeError`. -/
def SocketData.toBytes : SocketData → Option Bytes
  | .binary data => some data
  | .text data => some (Utf8.encode data)
  | .other => none

/-! ### The clock -/

/-- A JavaScript number of milliseconds as the engine has it: without its fraction, and nothing
below zero. -/
def asMillis (value : ℚ) : ℕ := ⌊value⌋₊

/-- What `performance.now()` and `Date.now()` read, as exact numbers. -/
structure Clock where
  performanceMs : ℚ
  dateMs : ℚ

def Clock.now (clock : Clock) : Now := ⟨asMillis clock.performanceMs, asMillis clock.dateMs⟩

/-- The instant a timeout is due that is set at another one: the host drops the fraction of the
delay. -/
def timeoutMs (nowMs delayMs : ℚ) : ℚ := nowMs + ⌊delayMs⌋

/-- The instant a timeout is due that is set for a deadline, or for right away when that has
passed. -/
def wakeMs (nowMs : ℚ) (deadline : ℕ) : ℚ := timeoutMs nowMs (max 0 (deadline - nowMs))

/-- A client and the loop that drains it. -/
structure Driver where
  client : Client
  /-- What the socket was given to send. -/
  sent : List Bytes
  queue : List Event
  /-- What the consumer of the events took. -/
  yielded : List Event
  closed : Bool
  /-- The instant at which the pending timeout is due. -/
  timer : Option ℚ
  /-- False once the host closed the driver: the handlers are off the socket and the client is
  freed. -/
  attached : Bool

/-- One thing that happens to a driver, with the clock as each handler reads it. -/
inductive Happening where
  /-- The socket opens. -/
  | opened (nowMs : ℚ)
  | message (data : SocketData) (clock : Clock) (nowMs : ℚ)
  /-- The pending timeout fires. -/
  | timeout (clock : Clock) (nowMs : ℚ)
  /-- The socket closes on its own. -/
  | lost
  /-- The host gives a command through the client. -/
  | command (command : Command)
  /-- The consumer asks for an event. -/
  | next
  /-- The host closes the driver. -/
  | close

/-- What the clock reads as the next timeout is set, where it is read. -/
def Happening.reads : Happening → List ℚ
  | .opened nowMs => [nowMs]
  | .message _ _ nowMs => [nowMs]
  | .timeout _ nowMs => [nowMs]
  | _ => []

namespace Driver

/-! ### The loop -/

/-- Write chunk after chunk until nothing is left.  Each turn takes one, so a fuel above their
number is never used up. -/
def flushes : ℕ → Driver → Driver
  | 0, d => d
  | fuel + 1, d =>
      match d.client.pollTransmit with
      | (client, some bytes) => flushes fuel { d with client := client, sent := d.sent ++ [bytes] }
      | (client, none) => { d with client := client }

def flush (d : Driver) : Driver := flushes (d.client.outbox.length + 1) d

/-- Every event the engine has queued since the last call. -/
def pollEvents : ℕ → Client → Client × List Event
  | 0, c => (c, [])
  | fuel + 1, c =>
      match c.pollEvent with
      | (c, some event) =>
          let (c, events) := pollEvents fuel c
          (c, event :: events)
      | (c, none) => (c, [])

def drain (d : Driver) : Driver :=
  let (client, events) := pollEvents (d.client.events.length + 1) d.client
  { d with client := client, queue := d.queue ++ events }

/-- Set one timeout for the earliest deadline. -/
def scheduleTick (d : Driver) (nowMs : ℚ) : Driver :=
  { d with timer := if d.closed then none else d.client.pollTimeout.map (wakeMs nowMs) }

/-- The connection is up. -/
def start (d : Driver) (nowMs : ℚ) : Driver :=
  ({ d with client := d.client.handleConnected }.flush).scheduleTick nowMs

/-- The driver of a socket, which may be open already. -/
def connect (config : Config) (isOpen : Bool) (nowMs : ℚ) : Driver :=
  let d : Driver := ⟨.new config, [], [], [], false, none, true⟩
  if isOpen then d.start nowMs else d

/-- Advance the clock, and see to whatever came of it. -/
def turn (d : Driver) (clock : Clock) (nowMs : ℚ) : Driver :=
  ({ d with client := d.client.tick clock.now }.flush.drain).scheduleTick nowMs

section Steps

variable [Primitives]

def onmessage (d : Driver) (data : SocketData) (clock : Clock) (nowMs : ℚ) : Driver :=
  if d.closed then d
  else
    match data.toBytes with
    | some bytes => { d with client := d.client.handleBytes bytes }.turn clock nowMs
    | none => d

def onclose (d : Driver) : Driver :=
  if d.closed then d
  else { d with client := d.client.handleDisconnected, closed := true, timer := none }

/-- The driver after something happened to it. -/
def step (d : Driver) : Happening → Driver
  | .opened nowMs => if d.attached then d.start nowMs else d
  | .message data clock nowMs => if d.attached then d.onmessage data clock nowMs else d
  | .timeout clock nowMs => if d.timer.isSome then { d with timer := none }.turn clock nowMs else d
  | .lost => if d.attached then d.onclose else d
  | .command command => if d.attached then { d with client := d.client.command command } else d
  | .next => { d with queue := d.queue.tail, yielded := d.yielded ++ d.queue.head?.toList }
  | .close => { d with closed := true, timer := none, attached := false }

/-- The driver after several things happened to it. -/
def run (d : Driver) (happenings : List Happening) : Driver := happenings.foldl step d

/-- What something that happens to the driver is to the engine. -/
def inputsOf (d : Driver) : Happening → List Client.Input
  | .opened _ => if d.attached then [.connected] else []
  | .message data clock _ =>
      if d.attached && !d.closed then
        match data.toBytes with
        | some bytes => [.bytes bytes, .tick clock.now]
        | none => []
      else []
  | .timeout clock _ => if d.timer.isSome then [.tick clock.now] else []
  | .lost => if d.attached && !d.closed then [.disconnected] else []
  | .command command => if d.attached then [.command command] else []
  | .next => []
  | .close => []

/-- What everything that happens to the driver is to the engine. -/
def inputs (d : Driver) : List Happening → List Client.Input
  | [] => []
  | happening :: rest => d.inputsOf happening ++ (d.step happening).inputs rest

end Steps

/-! ### Nothing is lost -/

/-- The client as it would be had nobody drained it: what was taken is back in front of what
waits. -/
def whole (d : Driver) : Client := d.client.ahead d.sent (d.yielded ++ d.queue)

theorem flushes_spec (fuel : ℕ) (d : Driver) (h : d.client.outbox.length < fuel) :
    flushes fuel d =
      { d with client := { d.client with outbox := [] }, sent := d.sent ++ d.client.outbox } := by
  induction fuel generalizing d with
  | zero => omega
  | succ fuel ih =>
      simp only [flushes, Client.pollTransmit]
      cases hout : d.client.outbox with
      | nil => simp
      | cons bytes rest =>
          have hrest : rest.length < fuel := by
            simp only [hout, List.length_cons] at h
            omega
          simp only [List.head?_cons, List.tail_cons]
          rw [ih _ hrest]
          simp only [List.append_assoc, List.singleton_append]

/-- **All that waits is written**, in order. -/
theorem flush_eq (d : Driver) :
    d.flush =
      { d with client := { d.client with outbox := [] }, sent := d.sent ++ d.client.outbox } :=
  flushes_spec _ d (Nat.lt_succ_self _)

theorem pollEvents_spec (fuel : ℕ) (c : Client) (h : c.events.length < fuel) :
    pollEvents fuel c = ({ c with events := [] }, c.events) := by
  induction fuel generalizing c with
  | zero => omega
  | succ fuel ih =>
      simp only [pollEvents, Client.pollEvent]
      cases htold : c.events with
      | nil => simp
      | cons event rest =>
          have hrest : rest.length < fuel := by
            simp only [htold, List.length_cons] at h
            omega
          simp only [List.head?_cons, List.tail_cons]
          rw [ih _ hrest]

/-- **All that was told is queued**, in order. -/
theorem drain_eq (d : Driver) :
    d.drain =
      { d with client := { d.client with events := [] }, queue := d.queue ++ d.client.events } := by
  simp only [drain, pollEvents_spec _ _ (Nat.lt_succ_self _)]

@[simp] theorem flush_whole (d : Driver) : d.flush.whole = d.whole := by
  simp only [flush_eq, whole, Client.ahead, List.append_nil]

@[simp] theorem drain_whole (d : Driver) : d.drain.whole = d.whole := by
  simp only [drain_eq, whole, Client.ahead, List.append_nil, List.append_assoc]

@[simp] theorem scheduleTick_whole (d : Driver) (nowMs : ℚ) :
    (d.scheduleTick nowMs).whole = d.whole := rfl

section Whole

variable [Primitives]

/-- What is done to the client is done to the client nobody drained. -/
theorem whole_step (d : Driver) (input : Client.Input) (h : input.polls = false) :
    { d with client := d.client.step input }.whole = d.whole.step input :=
  (d.client.step_ahead d.sent (d.yielded ++ d.queue) h).symm

@[simp] theorem start_whole (d : Driver) (nowMs : ℚ) :
    (d.start nowMs).whole = d.whole.step .connected := by
  simp only [start, scheduleTick_whole, flush_whole]
  exact d.whole_step .connected rfl

@[simp] theorem turn_whole (d : Driver) (clock : Clock) (nowMs : ℚ) :
    (d.turn clock nowMs).whole = d.whole.step (.tick clock.now) := by
  simp only [turn, scheduleTick_whole, drain_whole, flush_whole]
  exact d.whole_step (.tick clock.now) rfl

theorem onmessage_whole (d : Driver) (bytes : Bytes) (clock : Clock) (nowMs : ℚ) :
    ({ d with client := d.client.handleBytes bytes }.turn clock nowMs).whole =
      d.whole.run [.bytes bytes, .tick clock.now] := by
  have hbytes := d.whole_step (.bytes bytes) rfl
  simp only [Client.step] at hbytes
  simp only [turn_whole, hbytes, Client.run, List.foldl_cons, List.foldl_nil, Client.step]

/-- **One thing that happens to the driver does to the engine what its inputs do.** -/
theorem step_whole (d : Driver) (happening : Happening) :
    (d.step happening).whole = d.whole.run (d.inputsOf happening) := by
  cases happening with
  | opened nowMs =>
      simp only [step, inputsOf]
      split
      · exact d.start_whole nowMs
      · rfl
  | message data clock nowMs =>
      simp only [step, onmessage, inputsOf]
      cases d.attached with
      | false => simp [Client.run]
      | true =>
          cases d.closed with
          | true => simp [Client.run]
          | false =>
              cases data.toBytes with
              | none => simp [Client.run]
              | some bytes =>
                  simpa [whole] using onmessage_whole { d with closed := false, attached := true }
                    bytes clock nowMs
  | timeout clock nowMs =>
      simp only [step, inputsOf]
      split
      · exact turn_whole { d with timer := none } clock nowMs
      · rfl
  | lost =>
      simp only [step, onclose, inputsOf]
      cases d.attached with
      | false => rfl
      | true =>
          cases d.closed with
          | true => rfl
          | false => exact d.whole_step .disconnected rfl
  | command command =>
      simp only [step, inputsOf]
      split
      · exact d.whole_step (.command command) rfl
      · rfl
  | next =>
      have hqueue : d.queue.head?.toList ++ d.queue.tail = d.queue := by cases d.queue <;> rfl
      simp only [step, whole, List.append_assoc, hqueue]
      rfl
  | close => rfl

theorem run_whole (d : Driver) (happenings : List Happening) :
    (d.run happenings).whole = d.whole.run (d.inputs happenings) := by
  induction happenings generalizing d with
  | nil => rfl
  | cons happening happenings ih =>
      calc ((d.step happening).run happenings).whole
          = (d.step happening).whole.run ((d.step happening).inputs happenings) := ih _
        _ = d.whole.run (d.inputs (happening :: happenings)) := by
            rw [step_whole]
            exact (d.whole.run_append _ _).symm

/-! ### A whole connection -/

/-- What a connection is to the engine. -/
def connectionInputs (config : Config) (isOpen : Bool) (nowMs : ℚ) (happenings : List Happening) :
    List Client.Input :=
  (if isOpen then [.connected] else []) ++ (connect config isOpen nowMs).inputs happenings

/-- True for what ends with the queues drained: a message that is read, and a timeout. -/
def drains (d : Driver) : Happening → Bool
  | .message data _ _ => d.attached && !d.closed && data.toBytes.isSome
  | .timeout _ _ => d.timer.isSome
  | _ => false

theorem connect_whole (config : Config) (isOpen : Bool) (nowMs : ℚ) :
    (connect config isOpen nowMs).whole =
      (Client.new config).run (if isOpen then [.connected] else []) := by
  cases isOpen with
  | false => rfl
  | true => exact start_whole ⟨.new config, [], [], [], false, none, true⟩ nowMs

theorem connection_whole (config : Config) (isOpen : Bool) (nowMs : ℚ)
    (happenings : List Happening) :
    ((connect config isOpen nowMs).run happenings).whole =
      (Client.new config).run (connectionInputs config isOpen nowMs happenings) := by
  rw [run_whole, connect_whole, connectionInputs, Client.run_append]

omit [Primitives] in
theorem turn_drained (d : Driver) (clock : Clock) (nowMs : ℚ) :
    (d.turn clock nowMs).client.outbox = [] ∧ (d.turn clock nowMs).client.events = [] := by
  simp only [turn, scheduleTick, drain_eq, flush_eq, and_self]

theorem step_drained {d : Driver} {happening : Happening} (h : d.drains happening = true) :
    (d.step happening).client.outbox = [] ∧ (d.step happening).client.events = [] := by
  cases happening with
  | message data clock nowMs =>
      simp only [drains, Bool.and_eq_true, Bool.not_eq_true', Option.isSome_iff_exists] at h
      obtain ⟨⟨hattached, hclosed⟩, bytes, hbytes⟩ := h
      simp only [step, onmessage, hattached, hclosed, hbytes, if_true, Bool.false_eq_true, if_false]
      exact turn_drained _ clock nowMs
  | timeout clock nowMs =>
      simp only [drains] at h
      simp only [step, h, if_true]
      exact turn_drained _ clock nowMs
  | _ => simp [drains] at h

/-- **The loop loses, repeats and reorders nothing.**  What the socket was given to send and then
what still waits for it is what a client that nobody drains has queued by then, and so it is with
the events; and whenever a message was read or a timeout fired, nothing waits. -/
theorem run_carries (config : Config) (isOpen : Bool) (nowMs : ℚ) (happenings : List Happening) :
    let d := (connect config isOpen nowMs).run happenings
    let c := (Client.new config).run (connectionInputs config isOpen nowMs happenings)
    c = d.client.ahead d.sent (d.yielded ++ d.queue) ∧
      ∀ happening, d.drains happening = true →
        (d.step happening).sent = (c.run (d.inputsOf happening)).outbox ∧
          (d.step happening).yielded ++ (d.step happening).queue =
            (c.run (d.inputsOf happening)).events := by
  intro d c
  have hwhole : d.whole = c := connection_whole config isOpen nowMs happenings
  refine ⟨hwhole.symm, fun happening h => ?_⟩
  obtain ⟨houtbox, hevents⟩ := step_drained h
  rw [← hwhole, ← step_whole]
  simp only [whole, Client.ahead, houtbox, hevents, List.append_nil, and_self]

/-! ### When the loop wakes up -/

/-- A command arms no deadline and disarms none. -/
theorem command_pollTimeout (c : Client) (command : Command) :
    (c.command command).pollTimeout = c.pollTimeout := by
  have htimers : (c.command command).bearing.timers = c.bearing.timers := by
    obtain h | ⟨channel, key, -, h⟩ | ⟨line, -, h⟩ := c.command_bearing command
    · rw [h]
    · rw [h]
    · rw [h, Client.fold_eq]
      rfl
  exact congrArg Timers.next htimers

/-- The pending timeout is for the earliest deadline, as some handler read the clock. -/
structure Awake (d : Driver) (latestMs : ℚ) : Prop where
  asleep : d.closed = true → d.timer = none
  armed : d.closed = false → ∃ nowMs ≤ latestMs, d.timer = d.client.pollTimeout.map (wakeMs nowMs)

namespace Awake

omit [Primitives] in
theorem mono {d : Driver} {latestMs laterMs : ℚ} (h : d.Awake latestMs) (hle : latestMs ≤ laterMs) :
    d.Awake laterMs where
  asleep := h.asleep
  armed hopen := by
    obtain ⟨nowMs, hnow, htimer⟩ := h.armed hopen
    exact ⟨nowMs, hnow.trans hle, htimer⟩

omit [Primitives] in
theorem scheduleTick (d : Driver) (nowMs : ℚ) : (d.scheduleTick nowMs).Awake nowMs where
  asleep hclosed := by
    simp only [Driver.scheduleTick] at hclosed
    simp only [Driver.scheduleTick, hclosed, if_true]
  armed hopen := by
    simp only [Driver.scheduleTick] at hopen
    refine ⟨nowMs, le_refl nowMs, ?_⟩
    simp only [Driver.scheduleTick, hopen, Bool.false_eq_true, if_false]

theorem step {d : Driver} {latestMs : ℚ} (h : d.Awake latestMs) (happening : Happening) :
    (d.step happening).Awake (happening.reads.foldl max latestMs) := by
  have hkept : ∀ nowMs, d.Awake (max latestMs nowMs) := fun nowMs => h.mono (le_max_left _ _)
  have hset : ∀ (e : Driver) nowMs, (e.scheduleTick nowMs).Awake (max latestMs nowMs) :=
    fun e nowMs =>
    (scheduleTick e nowMs).mono (le_max_right _ _)
  cases happening with
  | opened nowMs =>
      simp only [Driver.step, Happening.reads, List.foldl_cons, List.foldl_nil]
      split
      · exact hset _ nowMs
      · exact hkept nowMs
  | message data clock nowMs =>
      simp only [Driver.step, onmessage, Happening.reads, List.foldl_cons, List.foldl_nil]
      split
      · split
        · exact hkept nowMs
        · split
          · exact hset _ nowMs
          · exact hkept nowMs
      · exact hkept nowMs
  | timeout clock nowMs =>
      simp only [Driver.step, Happening.reads, List.foldl_cons, List.foldl_nil]
      split
      · exact hset _ nowMs
      · exact hkept nowMs
  | lost =>
      simp only [Driver.step, onclose, Happening.reads, List.foldl_nil]
      split
      · split
        · exact h
        · exact ⟨fun _ => rfl, fun hopen => by simp at hopen⟩
      · exact h
  | command command =>
      simp only [Driver.step, Happening.reads, List.foldl_nil]
      split
      · refine ⟨h.asleep, fun hopen => ?_⟩
        simp only [command_pollTimeout]
        exact h.armed hopen
      · exact h
  | next => exact ⟨h.asleep, h.armed⟩
  | close => exact ⟨fun _ => rfl, fun hopen => by simp [Driver.step] at hopen⟩

theorem run {d : Driver} {latestMs : ℚ} (h : d.Awake latestMs) (happenings : List Happening) :
    (d.run happenings).Awake ((happenings.flatMap Happening.reads).foldl max latestMs) := by
  induction happenings generalizing d latestMs with
  | nil => exact h
  | cons happening happenings ih =>
      rw [List.flatMap_cons, List.foldl_append]
      exact ih (h.step happening)

omit [Primitives] in
theorem connect (config : Config) (isOpen : Bool) (nowMs : ℚ) :
    (connect config isOpen nowMs).Awake nowMs := by
  cases isOpen with
  | false =>
      refine ⟨fun _ => rfl, fun _ => ⟨nowMs, le_refl nowMs, ?_⟩⟩
      rfl
  | true => exact scheduleTick _ nowMs

end Awake

end Whole

end Driver

end ObbyClient

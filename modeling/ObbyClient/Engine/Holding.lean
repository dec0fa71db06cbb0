import ObbyClient.Engine.Assembly
import ObbyClient.Engine.Bearing
import ObbyClient.Lib.Walk

/-!
# What becomes of a batched line

A line that names an open batch is asked for its batch last of all, when no handler claims it.

* `Batches.Nested`, `Batches.isWithin_iff` — what a batch is held open by;
* `Client.handleMessage_holds_iff` — the lines that are held;
* `Client.handleMessage_keeps`, `Client.run_keeps` — a held line stays until its batch closes;
* `Client.handleMessage_delivers` — and is delivered then, as history when it is.
-/

namespace ObbyClient

namespace Batches

/-! ### Batches within batches -/

/-- A batch of this type, or one that is held open by such a batch. -/
inductive Nested (batches : Batches) (kind : Str) : Str → Prop
  | here {reference : Str} {batch : OpenBatch}
      (hopen : batches.byReference[reference]? = some batch) (h : batch.kind = kind) :
      Nested batches kind reference
  | parent {reference parent : Str} {batch : OpenBatch}
      (hopen : batches.byReference[reference]? = some batch) (hparent : batch.parent = some parent)
      (h : Nested batches kind parent) : Nested batches kind reference

/-- The batch that holds this one open, while it is open itself. -/
def outer (batches : Batches) (batch : OpenBatch) : Option OpenBatch :=
  batch.parent.bind fun parent => batches.byReference[parent]?

theorem go_eq_true_iff (batches : Batches) (kind : Str) (steps : ℕ) (current : Option OpenBatch) :
    isWithin.go batches kind steps current = true ↔
      ∃ k ≤ steps, (walk batches.outer current k).any (fun batch => batch.kind == kind) = true := by
  induction steps generalizing current with
  | zero =>
      rw [isWithin.go]
      constructor
      · intro h
        exact ⟨0, le_rfl, h⟩
      · intro h
        obtain ⟨k, hk, hany⟩ := h
        rw [Nat.le_zero.mp hk] at hany
        exact hany
  | succ steps ih =>
      rw [isWithin.go]
      constructor
      · intro h
        obtain ⟨batch, hbatch, h⟩ := (Option.any_eq_true _ _).mp h
        rw [hbatch]
        rw [Bool.or_eq_true] at h
        rcases h with h | h
        · exact ⟨0, Nat.zero_le _, h⟩
        · obtain ⟨k, hk, hany⟩ := (ih _).mp h
          refine ⟨k + 1, Nat.succ_le_succ hk, ?_⟩
          rw [walk_succ]
          exact hany
      · intro h
        obtain ⟨k, hk, hany⟩ := h
        cases current with
        | none =>
            rw [walk_none] at hany
            exact absurd hany Bool.false_ne_true
        | some batch =>
            rw [Option.any_some, Bool.or_eq_true]
            cases k with
            | zero => exact .inl hany
            | succ k =>
                rw [walk_succ] at hany
                exact .inr ((ih _).mpr ⟨k, Nat.le_of_succ_le_succ hk, hany⟩)

theorem nested_iff_walk (batches : Batches) (kind reference : Str) :
    Nested batches kind reference ↔
      ∃ k, (walk batches.outer batches.byReference[reference]? k).any
        (fun batch => batch.kind == kind) = true := by
  constructor
  · intro h
    induction h with
    | here hopen h =>
        refine ⟨0, ?_⟩
        rw [walk, hopen, Option.any_some, beq_iff_eq]
        exact h
    | parent hopen hparent _ ih =>
        obtain ⟨k, hk⟩ := ih
        refine ⟨k + 1, ?_⟩
        rw [walk_succ, hopen, Option.bind_some, outer, hparent]
        exact hk
  · intro h
    obtain ⟨k, hk⟩ := h
    induction k generalizing reference with
    | zero =>
        obtain ⟨batch, hopen, hkind⟩ := (Option.any_eq_true _ _).mp hk
        exact .here hopen (beq_iff_eq.mp hkind)
    | succ k ih =>
        rw [walk_succ] at hk
        cases hopen : batches.byReference[reference]? with
        | none =>
            rw [hopen, Option.bind_none, walk_none] at hk
            exact absurd hk Bool.false_ne_true
        | some batch =>
            rw [hopen, Option.bind_some, outer] at hk
            cases hparent : batch.parent with
            | none =>
                rw [hparent, Option.bind_none, walk_none] at hk
                exact absurd hk Bool.false_ne_true
            | some parent =>
                rw [hparent, Option.bind_some] at hk
                exact .parent hopen hparent (ih parent hk)

/-- **The walk along the parents is never cut short.** -/
theorem isWithin_iff (batches : Batches) (reference kind : Str) :
    batches.isWithin reference kind = true ↔ Nested batches kind reference := by
  unfold isWithin
  rw [go_eq_true_iff, nested_iff_walk]
  constructor
  · intro h
    obtain ⟨k, -, hk⟩ := h
    exact ⟨k, hk⟩
  · intro h
    obtain ⟨n, hn⟩ := h
    have hplaces : ∀ n batch, walk batches.outer batches.byReference[reference]? n = some batch →
        batch ∈ batches.byReference.toList.map Prod.snd := by
      intro n batch hbatch
      have hfound : ∃ found : Str, batches.byReference[found]? = some batch := by
        cases n with
        | zero => exact ⟨reference, hbatch⟩
        | succ n =>
            obtain ⟨inner, -, houter⟩ := Option.bind_eq_some_iff.mp hbatch
            obtain ⟨parent, -, hparent⟩ := Option.bind_eq_some_iff.mp houter
            exact ⟨parent, hparent⟩
      obtain ⟨found, hfound⟩ := hfound
      exact List.mem_map_of_mem (f := Prod.snd)
        (Std.ExtTreeMap.mem_toList_iff_getElem?_eq_some.mpr hfound)
    obtain ⟨k, hk, hany⟩ := walk_within hplaces hn
    rw [List.length_map, Std.ExtTreeMap.length_toList] at hk
    exact ⟨k, hk, hany⟩

/-- A batch that closes is no longer there to hold others open, which changes nothing for what held
it open itself. -/
theorem nested_erase {batches : Batches} {kind reference : Str} {batch : OpenBatch}
    (hbatch : batches.byReference[reference]? = some batch) :
    Nested batches kind reference ↔ batch.kind = kind ∨ ∃ parent, batch.parent = some parent ∧
      Nested { batches with byReference := batches.byReference.erase reference } kind parent := by
  have hlater : ∀ {found : Str} {other : OpenBatch},
      (batches.byReference.erase reference)[found]? = some other ↔
        found ≠ reference ∧ batches.byReference[found]? = some other := by
    intro found other
    rw [Std.ExtTreeMap.getElem?_erase]
    by_cases h : found = reference
    · rw [h, if_pos Std.ReflCmp.compare_self]
      simp
    · rw [if_neg (by rw [Std.LawfulEqCmp.compare_eq_iff_eq]; exact fun heq => h heq.symm)]
      simp [h]
  constructor
  · intro h
    by_cases hkind : batch.kind = kind
    · exact .inl hkind
    right
    -- a way that comes back to this batch goes on behind its parent
    have hway : ∀ found, Nested batches kind found →
        Nested { batches with byReference := batches.byReference.erase reference } kind found ∨
          ∃ parent, batch.parent = some parent ∧
            Nested { batches with byReference := batches.byReference.erase reference } kind
              parent := by
      intro found hnested
      induction hnested with
      | @here found other hopen hkind' =>
          refine .inl (.here (hlater.mpr ⟨?_, hopen⟩) hkind')
          intro heq
          rw [heq, hbatch] at hopen
          exact hkind (Option.some.inj hopen ▸ hkind')
      | @parent found parent other hopen hparent hnested ih =>
          rcases ih with ih | ih
          · by_cases heq : found = reference
            · rw [heq, hbatch] at hopen
              rw [← Option.some.inj hopen] at hparent
              exact .inr ⟨parent, hparent, ih⟩
            · exact .inl (.parent (hlater.mpr ⟨heq, hopen⟩) hparent ih)
          · exact .inr ih
    rcases hway reference h with hway | hway
    · cases hway with
      | here hopen => exact absurd rfl (hlater.mp hopen).1
      | parent hopen => exact absurd rfl (hlater.mp hopen).1
    · exact hway
  · intro h
    have hwiden : ∀ found,
        Nested { batches with byReference := batches.byReference.erase reference } kind found →
          Nested batches kind found := by
      intro found hnested
      induction hnested with
      | here hopen hkind => exact .here (hlater.mp hopen).2 hkind
      | parent hopen hparent _ ih => exact .parent (hlater.mp hopen).2 hparent ih
    rcases h with h | h
    · exact .here hbatch h
    · obtain ⟨parent, hparent, h⟩ := h
      exact .parent hbatch hparent (hwiden parent h)

/-- True when a batch takes a message: it has room and does not have it yet. -/
def Takes (batch : OpenBatch) (message : Message) (maxBuffered : ℕ) : Prop :=
  batch.overflowed = false ∧ (message.tag "msgid").any batch.seen.contains = false ∧
    batch.messages.length < maxBuffered

theorem push_messages_iff (batch : OpenBatch) (message : Message) (maxBuffered : ℕ) :
    (batch.push message maxBuffered).messages = batch.messages ++ [message] ↔
      Takes batch message maxBuffered := by
  have hne : batch.messages ≠ batch.messages ++ [message] := by simp
  unfold OpenBatch.push Takes
  by_cases hover : batch.overflowed = true
  · rw [if_pos hover, hover]
    exact iff_of_false hne (by simp)
  rw [if_neg hover]
  by_cases hseen : (message.tag "msgid").any batch.seen.contains = true
  · rw [if_pos hseen, hseen]
    exact iff_of_false hne (by simp)
  rw [if_neg hseen]
  by_cases hfull : maxBuffered ≤ batch.messages.length
  · rw [if_pos hfull]
    exact iff_of_false hne fun h => absurd h.2.2 (Nat.not_lt.mpr hfull)
  · rw [if_neg hfull]
    rw [Bool.not_eq_true] at hover hseen
    exact iff_of_true rfl ⟨hover, hseen, Nat.not_le.mp hfull⟩

theorem push_keeps (batch : OpenBatch) (message : Message) (maxBuffered : ℕ) :
    batch.messages <+: (batch.push message maxBuffered).messages ∧
      (batch.push message maxBuffered).kind = batch.kind ∧
      (batch.push message maxBuffered).parent = batch.parent := by
  unfold OpenBatch.push
  split
  · exact ⟨List.prefix_rfl, rfl, rfl⟩
  split
  · exact ⟨List.prefix_rfl, rfl, rfl⟩
  split
  · exact ⟨List.prefix_rfl, rfl, rfl⟩
  · exact ⟨List.prefix_append _ _, rfl, rfl⟩

end Batches

namespace Client

open Batches

variable [Primitives]

/-! ### The lines that are held -/

omit [Primitives] in
/-- A step that changes nothing a host can see. -/
structure Unmoved (c d : Client) : Prop where
  model : d.model = c.model
  rooms : d.rooms = c.rooms
  bots : d.bots = c.bots
  commands : d.commands = c.commands
  monitor : d.monitor = c.monitor
  events : d.events = c.events

omit [Primitives] in
/-- A line that changed nothing but the batch it was put in. -/
structure Holds (c d : Client) (message : Message) (reference : Str) (batch : OpenBatch) : Prop
    extends Unmoved c d where
  held : (d.batches.byReference[reference]?).map (fun batch => batch.messages) =
    some (batch.messages ++ [message])

omit [Primitives] in
theorem claims_of_is {message : Message} {word : Str} (h : message.is word = true)
    (hword : word ∈ (["001", "005", "433", "432"] : List String).map String.toList) :
    claims message = true := by
  simp only [List.map_cons, List.map_nil, List.mem_cons, List.not_mem_nil, or_false] at hword
  rcases hword with rfl | rfl | rfl | rfl
  · simp only [claims, h, Bool.true_or, Bool.or_true]
  · simp only [claims, h, Bool.true_or, Bool.or_true]
  · simp only [claims, h, Bool.true_or, Bool.or_true]
  · simp only [claims, h, Bool.true_or, Bool.or_true]

omit [Primitives] in
theorem claims_of_typing {c d : Client} {message : Message} (hline : message.is "TAGMSG" = true)
    (h : c.handleTyping message = some d) : claims message = true := by
  have htells : tellsTyping message = true := by
    rw [← c.handleTyping_isSome, h]
    rfl
  simp only [claims, hline, htells, Bool.true_or, Bool.or_true, Bool.and_true]

/-- A line that no handler claims is about a batch, or it is routed. -/
theorem dispatch_of_not_claims (c : Client) {message : Message} (hclaims : claims message = false) :
    c.dispatch message =
      if message.is "BATCH" then c.handleBatch message else c.handleOther message := by
  have hdoes := c.dispatch_does message
  have hnot : claims message ≠ true := by simp [hclaims]
  generalize hd : c.dispatch message = d at hdoes
  cases hdoes with
  | still h => exact absurd h hnot
  | welcome h => exact absurd (claims_of_is h (by decide)) hnot
  | refused h =>
      rcases (Bool.or_eq_true _ _).mp h with h | h
      · exact absurd (claims_of_is h (by decide)) hnot
      · exact absurd (claims_of_is h (by decide)) hnot
  | isupport h => exact absurd (claims_of_is h (by decide)) hnot
  | typing hline h => exact absurd (claims_of_typing hline h) hnot
  | batch _ h => rw [if_pos h]
  | other _ h => rw [h, if_neg Bool.false_ne_true]

/-- A line that a handler claims never gets to its batch. -/
theorem dispatch_batches (c : Client) {message : Message} (hclaims : claims message = true) :
    (c.dispatch message).batches = c.batches := by
  have hdoes := c.dispatch_does message
  generalize c.dispatch message = d at hdoes
  cases hdoes with
  | still _ h => exact congrArg Bearing.batches h
  | welcome h => exact congrArg Bearing.batches (c.handleWelcome_bearing message)
  | refused h =>
      rcases c.handleNickRefused_bearing message with h | ⟨nick, h⟩
      · exact congrArg Bearing.batches h
      · exact congrArg Bearing.batches h
  | isupport h => exact congrArg Bearing.batches (c.handleIsupport_bearing message)
  | typing hline h =>
      obtain ⟨_, _, _, -, -, -, h⟩ := handleTyping_bearing h
      exact congrArg Bearing.batches h
  | batch h => exact absurd hclaims (by simp [h])
  | other h => exact absurd hclaims (by simp [h])

/-- What routing a line into an open batch makes of the tracker. -/
theorem handleMessage_routed (c : Client) {message : Message} {reference : Str} {batch : OpenBatch}
    (hline : message.is "BATCH" = false) (hclaims : claims message = false)
    (htag : message.tag "batch" = some reference)
    (hopen : c.batches.byReference[reference]? = some batch) :
    c.handleMessage message =
      { c.noted message with
        batches :=
          { c.batches with
            byReference := c.batches.byReference.insert reference
              (batch.push message c.batches.maxBuffered) } } := by
  have hbatches : (c.noted message).batches = c.batches := rfl
  rw [handleMessage_eq, dispatch_of_not_claims _ hclaims, hline, if_neg Bool.false_ne_true]
  unfold handleOther
  rw [hbatches, route_eq, htag, Option.bind_some, hopen]
  rfl

/-- A batched line that no handler claims changes nothing, whether its batch takes it or not. -/
theorem handleMessage_unmoved (c : Client) {message : Message} {reference : Str}
    {batch : OpenBatch} (hline : message.is "BATCH" = false) (hclaims : claims message = false)
    (htag : message.tag "batch" = some reference)
    (hopen : c.batches.byReference[reference]? = some batch) :
    Unmoved c (c.handleMessage message) := by
  rw [c.handleMessage_routed hline hclaims htag hopen]
  exact ⟨rfl, rfl, rfl, rfl, rfl, rfl⟩

/-- **Which batched lines are held**: those that no handler claims and whose batch takes them. -/
theorem handleMessage_holds_iff (c : Client) {message : Message} {reference : Str}
    {batch : OpenBatch} (hline : message.is "BATCH" = false)
    (htag : message.tag "batch" = some reference)
    (hopen : c.batches.byReference[reference]? = some batch) :
    Holds c (c.handleMessage message) message reference batch ↔
      claims message = false ∧ Takes batch message c.batches.maxBuffered := by
  constructor
  · intro h
    have hclaims : claims message = false := by
      rw [Bool.eq_false_iff]
      intro hclaims
      have hheld := h.held
      rw [handleMessage_eq, dispatch_batches _ hclaims,
        show (c.noted message).batches = c.batches from rfl, hopen] at hheld
      exact absurd (Option.some.inj hheld) (by simp)
    refine ⟨hclaims, (push_messages_iff batch message _).mp ?_⟩
    have hheld := h.held
    rw [c.handleMessage_routed hline hclaims htag hopen] at hheld
    dsimp only at hheld
    rw [Std.ExtTreeMap.getElem?_insert_self] at hheld
    exact Option.some.inj hheld
  · intro h
    obtain ⟨hclaims, htakes⟩ := h
    refine ⟨c.handleMessage_unmoved hline hclaims htag hopen, ?_⟩
    rw [c.handleMessage_routed hline hclaims htag hopen]
    dsimp only
    rw [Std.ExtTreeMap.getElem?_insert_self]
    exact congrArg some ((push_messages_iff batch message _).mpr htakes)

/-! ### Until the batch closes -/

/-- True for the line that closes a batch. -/
def Closes (reference : Str) (message : Message) : Prop :=
  message.is "BATCH" = true ∧ marked '-' message = some reference

/-- A message in an open batch. -/
def Keeping (c : Client) (reference : Str) (message : Message) : Prop :=
  ∃ batch, c.batches.byReference[reference]? = some batch ∧ message ∈ batch.messages

theorem folds_batches (c : Client) (messages : List Message) (historical : Bool) :
    (c.folds messages historical).batches = c.batches := by
  unfold folds
  induction messages generalizing c with
  | nil => rfl
  | cons message messages ih =>
      rw [List.foldl_cons, ih, fold_eq]

/-- What a line makes of the tracker is what a call on it makes, or nothing. -/
theorem dispatch_call (c : Client) (message : Message) :
    (c.dispatch message).batches = c.batches ∨
      ∃ call, (c.dispatch message).batches = c.batches.call call ∧
        ∀ line, call = .close line → line = message ∧ message.is "BATCH" = true := by
  by_cases hclaims : claims message = true
  · exact .inl (c.dispatch_batches hclaims)
  rw [Bool.not_eq_true] at hclaims
  rw [c.dispatch_of_not_claims hclaims]
  by_cases hbatch : message.is "BATCH" = true
  · rw [if_pos hbatch]
    right
    unfold handleBatch
    split
    · exact ⟨.opened message, rfl, by simp⟩
    · refine ⟨.close message, ?_, fun line hline => ⟨(Call.close.inj hline).symm, hbatch⟩⟩
      show _ = ((c.batches.close message).map Prod.fst).getD c.batches
      cases c.batches.close message with
      | none => rfl
      | some result => exact folds_batches _ _ _
  · rw [if_neg hbatch]
    unfold handleOther
    cases hroute : c.batches.route message with
    | none =>
        left
        dsimp only
        rw [fold_eq]
    | some batches =>
        refine .inr ⟨.route message, ?_, by simp⟩
        show batches = (c.batches.route message).getD c.batches
        rw [hroute]
        rfl

omit [Primitives] in
theorem mem_pushes {batch : OpenBatch} {message : Message} (h : message ∈ batch.messages)
    (lines : List Message) (maxBuffered : ℕ) :
    message ∈ (lines.foldl (fun batch line => batch.push line maxBuffered) batch).messages := by
  induction lines generalizing batch with
  | nil => exact h
  | cons line lines ih => exact ih ((push_keeps batch line maxBuffered).1.subset h)

/-- A line that does not close a batch leaves in it what is held there. -/
theorem handleMessage_keeps (c : Client) {line message : Message} {reference : Str}
    (h : c.Keeping reference message) (hopen : ¬ Closes reference line) :
    (c.handleMessage line).Keeping reference message := by
  obtain ⟨batch, hbatch, hmessage⟩ := h
  rw [handleMessage_eq]
  rcases (c.noted line).dispatch_call line with hsame | ⟨call, hcall, hclose⟩
  · exact ⟨batch, by rw [hsame]; exact hbatch, hmessage⟩
  · have hother : ∀ last, call = .close last → marked '-' last ≠ some reference := by
      intro last hlast hmarked
      obtain ⟨rfl, his⟩ := hclose last hlast
      exact hopen ⟨his, hmarked⟩
    have hafter := call_collects c.batches call hbatch hother
    refine ⟨_, ?_, mem_pushes hmessage (routed reference [call]) c.batches.maxBuffered⟩
    rw [hcall]
    exact hafter

/-- What a host does but for feeding bytes and losing the connection has no part in batches. -/
theorem step_batches (c : Client) {input : Input} (hbytes : ∀ data, input ≠ .bytes data)
    (hdown : input ≠ .disconnected) : (c.step input).batches = c.batches := by
  cases input with
  | connected =>
      obtain ⟨timers, htimers, -⟩ := c.handleConnected_bearing
      exact congrArg Bearing.batches htimers
  | disconnected => exact absurd rfl hdown
  | bytes data => exact absurd rfl (hbytes data)
  | tick now => exact congrArg Bearing.batches (c.tick_bearing now)
  | command command =>
      rcases c.command_bearing command with h | ⟨channel, key, -, h⟩ | ⟨line, -, h⟩
      · exact congrArg Bearing.batches h
      · exact congrArg Bearing.batches h
      · refine (congrArg Bearing.batches h).trans ?_
        rw [fold_eq]
        rfl
  | sendLine message => rfl
  | sendLineLabeled message => exact congrArg Bearing.batches (c.sendLineLabeled_bearing message)
  | pollTransmit => rfl
  | pollEvent => rfl

/-- **A held line stays until its batch closes**, or the connection dies. -/
theorem run_keeps (c : Client) {message : Message} {reference : Str}
    (h : c.Keeping reference message) (inputs : List Input)
    (hup : Input.disconnected ∉ inputs)
    (hopen : ∀ p ∈ c.trace inputs, ¬ Closes reference p.2) :
    (c.run inputs).Keeping reference message := by
  refine run_induction (P := fun d => d.Keeping reference message) (fun _ _ _ _ hd => hd) c inputs
    ?_ (fun p hp hd => p.1.handleMessage_keeps hd (hopen p hp)) h
  intro input hinput hbytes d hd
  have hdown : input ≠ .disconnected := by
    intro heq
    rw [heq] at hinput
    exact hup hinput
  unfold Keeping
  rw [d.step_batches hbytes hdown]
  exact hd

/-! ### When the batch closes -/

omit [Primitives] in
/-- The commands that a handler may claim. -/
def claimedCommands : List Str :=
  ["PONG", "PING", "CAP", "001", "005", "TAGMSG", "TOKEN", "CMDSLIST", "730", "731", "AUTHENTICATE",
    "433", "432", "904", "905", "906", "907", "900", "903"]

omit [Primitives] in
/-- No handler claims a line of another command, unless it is a standard reply. -/
theorem claims_of_command {message : Message} {command : Str} (h : message.is command = true)
    (hcommand : claimedCommands.all (fun word => !eqIgnoreAsciiCase command word &&
      !eqIgnoreAsciiCase word command) = true)
    (hseverity : severityOf command = none) : claims message = false := by
  have hfree : ∀ word ∈ claimedCommands, message.is word = false ∧ message.command ≠ word := by
    intro word hmem
    have hboth := List.all_eq_true.mp hcommand word hmem
    rw [Bool.and_eq_true, Bool.not_eq_true', Bool.not_eq_true'] at hboth
    refine ⟨is_eq_false h hboth.1, ?_⟩
    intro heq
    rw [Message.is, heq, hboth.2] at h
    cases h
  have hword : ∀ word ∈ claimedCommands, message.is word = false := fun word hmem =>
    (hfree word hmem).1
  have hne : ∀ word ∈ claimedCommands, message.command ≠ word := fun word hmem =>
    (hfree word hmem).2
  have htoken : tellsToken message = false := by
    unfold tellsToken
    rw [hword "TOKEN" (by decide)]
    rfl
  have hreply : tellsReply message = false := by
    unfold tellsReply
    have hsame : severityOf message.command = severityOf command := by
      unfold severityOf
      rw [toAsciiUppercase_of_eq h]
    rw [hsame, hseverity]
    rfl
  have hfailure : saslFailure message.command = none := by
    unfold saslFailure
    rw [if_neg (hne _ (by decide)), if_neg (hne _ (by decide)), if_neg (hne _ (by decide)),
      if_neg (hne _ (by decide))]
  unfold claims
  rw [hword "PONG" (by decide), hword "PING" (by decide), hword "CAP" (by decide),
    hword "001" (by decide), hword "005" (by decide), hword "TAGMSG" (by decide), htoken,
    hword "CMDSLIST" (by decide), beq_eq_false_iff_ne.mpr (hne "730" (by decide)),
    beq_eq_false_iff_ne.mpr (hne "731" (by decide)), hreply, hword "AUTHENTICATE" (by decide),
    hword "433" (by decide), hword "432" (by decide), hfailure, hword "900" (by decide),
    hword "903" (by decide)]
  rfl

omit [Primitives] in
theorem claims_of_batch {message : Message} (h : message.is "BATCH" = true) :
    claims message = false :=
  claims_of_command h (by decide) (by decide)

/-- **What closing a batch does**: its lines are folded, as history when they are history. -/
theorem handleMessage_delivers (c : Client) {message : Message} {reference : Str}
    {batch : OpenBatch} (hcloses : Closes reference message)
    (hopen : c.batches.byReference[reference]? = some batch) :
    ∃ historical, (historical = true ↔ Nested c.batches chathistoryBatch reference) ∧
      c.handleMessage message =
        { c.noted message with
          batches := { c.batches with byReference := c.batches.byReference.erase reference } }.folds
          (batchLines batch.toClosedBatch) historical := by
  obtain ⟨hbatch, hmarked⟩ := hcloses
  refine ⟨isHistory { c.batches with byReference := c.batches.byReference.erase reference }
    batch.toClosedBatch, ?_, ?_⟩
  · rw [nested_erase hopen]
    unfold isHistory
    rw [Bool.or_eq_true, beq_iff_eq, Option.any_eq_true]
    simp only [isWithin_iff]
  · have hclose : c.batches.close message =
        some ({ c.batches with byReference := c.batches.byReference.erase reference },
          batch.toClosedBatch) := by
      rw [close_eq, hmarked, Option.bind_some, hopen]
      rfl
    have hplus : ((message.param 0).getD []).head? ≠ some '+' := by
      intro hhead
      unfold marked at hmarked
      split at hmarked
      · rename_i sign rest hparam
        rw [hparam] at hhead
        split at hmarked
        · rename_i hsign
          rw [hsign] at hhead
          exact absurd (Option.some.inj hhead) (by decide)
        · cases hmarked
      · cases hmarked
    rw [handleMessage_eq, dispatch_of_not_claims _ (claims_of_batch hbatch), if_pos hbatch]
    unfold handleBatch
    rw [if_neg hplus, show (c.noted message).batches = c.batches from rfl, hclose]

/-- **Batched lines are held**, just those that no handler claims and that their batch takes; until
the batch closes, and then they are delivered. -/
theorem batched_lines_held (c : Client) :
    (∀ (message : Message) (reference : Str) (batch : OpenBatch), message.is "BATCH" = false →
      message.tag "batch" = some reference → c.batches.byReference[reference]? = some batch →
      (Holds c (c.handleMessage message) message reference batch ↔
        claims message = false ∧ Takes batch message c.batches.maxBuffered) ∧
      (claims message = false → Unmoved c (c.handleMessage message))) ∧
    (∀ (message : Message) (reference : Str) (inputs : List Input),
      c.Keeping reference message → Input.disconnected ∉ inputs →
      (∀ p ∈ c.trace inputs, ¬ Closes reference p.2) →
      (c.run inputs).Keeping reference message) ∧
    ∀ (message : Message) (reference : Str) (batch : OpenBatch), Closes reference message →
      c.batches.byReference[reference]? = some batch →
      ∃ historical, (historical = true ↔ Nested c.batches chathistoryBatch reference) ∧
        c.handleMessage message =
          { c.noted message with
            batches := { c.batches with byReference := c.batches.byReference.erase reference }
              }.folds
            (batchLines batch.toClosedBatch) historical := by
  refine ⟨?_, ?_, ?_⟩
  · intro message reference batch hline htag hopen
    exact ⟨c.handleMessage_holds_iff hline htag hopen,
      fun hclaims => c.handleMessage_unmoved hline hclaims htag hopen⟩
  · intro message reference inputs h hup hopen
    exact c.run_keeps h inputs hup hopen
  · intro message reference batch hcloses hopen
    exact c.handleMessage_delivers hcloses hopen

omit [Primitives] in
/-- **A replayed typing indicator is not held**: it is shown while its batch is still open. -/
theorem batched_typing_not_held : letI := Primitives.ascii
    let c := (new (.new "me")).run [.connected, .bytes (Utf8.encode
      ":s 001 me :hi\n:me!u@h JOIN #a\n:s BATCH +h chathistory #a\n")]
    let message := (readLine (Utf8.encode "@batch=h;+typing=active :bob!u@h TAGMSG #a\n")).getD
      (.new "" [])
    message.is "BATCH" = false ∧ message.tag "batch" = some ("h" : Str) ∧
      (c.batches.byReference[("h" : Str)]?).any (fun batch => batch.kind == chathistoryBatch) =
        true ∧
      ∀ batch, ¬ Holds c (c.handleMessage message) message "h" batch := by
  let _ := Primitives.ascii
  intro c message
  refine ⟨by decide +kernel, by decide +kernel, by decide +kernel, ?_⟩
  intro batch h
  have hevents : (c.handleMessage message).events.length = c.events.length + 1 := by decide +kernel
  rw [h.events] at hevents
  omega

end Client

end ObbyClient

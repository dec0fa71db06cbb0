import ObbyClient.Engine.Negotiation

/-!
# What a connection asks for, over a whole negotiation

Whether a capability is asked for is read off three collections, and a refusal is kept in none of
them: a capability that was refused is asked for again at the next look, unless something else has
happened to it.

* `capReply`, `Capabilities.heard` — what a line says about capabilities, and what comes of it;
* `Capabilities.Due` — a capability that a look asks for: `Capabilities.mem_toRequest_advertise`;
* `Client.handleMessage_asks` — a line queues a request for what is due at it, and no other;
* `Client.asksOnce_iff` — when a capability is asked for once.
-/

namespace ObbyClient

/-! ### What a line says about capabilities -/

/-- What a line says about capabilities. -/
inductive CapReply where
  /-- Some of what the server offers, the last of it or not. -/
  | offers (list : Str) (last : Bool)
  | withdraws (list : Str)
  | grants (list : Str)
  | refuses (list : Str)
  deriving DecidableEq

/-- Read a capability reply. -/
def capReply (message : Message) : Option CapReply :=
  if message.is "CAP" then
    (message.param 1).bind fun subcommand =>
      let list := message.trailing.getD []
      if toAsciiUppercase subcommand = "LS" then
        some (.offers list (message.param 2 != some ("*" : Str)))
      else if toAsciiUppercase subcommand = "NEW" then some (.offers list true)
      else if toAsciiUppercase subcommand = "DEL" then some (.withdraws list)
      else if toAsciiUppercase subcommand = "ACK" then some (.grants list)
      else if toAsciiUppercase subcommand = "NAK" then some (.refuses list)
      else none
  else none

/-- True when a list names a capability, with a value or without. -/
def Names (list name : Str) : Prop :=
  ∃ token ∈ splitWhitespace list, (Capabilities.splitValue token).1 = name

instance (list name : Str) : Decidable (Names list name) :=
  inferInstanceAs (Decidable (∃ token ∈ splitWhitespace list, _))

/-- The line offers a capability. -/
def Advertises (message : Message) (name : Str) : Prop :=
  ∃ list last, capReply message = some (.offers list last) ∧ Names list name

/-- The line takes a capability back. -/
def Withdraws (message : Message) (name : Str) : Prop :=
  ∃ list, capReply message = some (.withdraws list) ∧ Names list name

/-- The line grants a capability. -/
def Grants (message : Message) (name : Str) : Prop :=
  ∃ list, capReply message = some (.grants list) ∧
    ∃ token ∈ splitWhitespace list,
      token.head? ≠ some '-' ∧ (Capabilities.splitValue token).1 = name

/-- The line says that a capability we hold was dropped. -/
def Drops (message : Message) (name : Str) : Prop :=
  ∃ list, capReply message = some (.grants list) ∧ '-' :: name ∈ splitWhitespace list

/-- The line refuses a capability. -/
def Refuses (message : Message) (name : Str) : Prop :=
  ∃ list, capReply message = some (.refuses list) ∧ Names list name

/-- The line is one after which we look for what to ask for: a final list, or a late offer. -/
def Looks (message : Message) : Prop := ∃ list, capReply message = some (.offers list true)

/-- The line lets us ask for a capability once more. -/
def Renews (message : Message) (name : Str) : Prop :=
  Advertises message name ∨ Withdraws message name ∨ Drops message name

/-- The line is about a capability, and no refusal. -/
def Touches (message : Message) (name : Str) : Prop :=
  Renews message name ∨ Grants message name

/-- A refusal touches nothing. -/
theorem not_touches_of_refuses {message : Message} {list : Str}
    (h : capReply message = some (.refuses list)) (name : Str) : ¬ Touches message name := by
  simp [Touches, Renews, Advertises, Withdraws, Drops, Grants, h]

theorem Looks.only_offers {message : Message} (h : Looks message) (name : Str) :
    ¬ Withdraws message name ∧ ¬ Drops message name ∧ ¬ Grants message name ∧
      ¬ Refuses message name := by
  obtain ⟨list, hoffers⟩ := h
  simp [Withdraws, Drops, Grants, Refuses, hoffers]

/-- A look renews what it names, and nothing else. -/
theorem Looks.renews {message : Message} {name : Str} (h : Looks message)
    (hrenews : Renews message name) : Advertises message name := by
  obtain ⟨hwithdraws, hdrops, -⟩ := h.only_offers name
  rcases hrenews with hadvertises | hrenews | hrenews
  · exact hadvertises
  · exact absurd hrenews hwithdraws
  · exact absurd hrenews hdrops

namespace Capabilities

/-! ### What comes of a line -/

/-- What comes of one capability reply. -/
def replied (caps : Capabilities) : CapReply → Capabilities
  | .offers list false => caps.advertise list
  | .offers list true => (caps.advertise list).requested (caps.advertise list).toRequest
  | .withdraws list => caps.withdraw list
  | .grants list => (caps.acknowledge list).1
  | .refuses list => caps.reject list

/-- What comes of one line. -/
def heard (caps : Capabilities) (message : Message) : Capabilities :=
  ((capReply message).map caps.replied).getD caps

theorem heard_of_reply {caps : Capabilities} {message : Message} {reply : CapReply}
    (h : capReply message = some reply) : caps.heard message = caps.replied reply := by
  rw [heard, h, Option.map_some, Option.getD_some]

theorem heard_of_none {caps : Capabilities} {message : Message} (h : capReply message = none) :
    caps.heard message = caps := by
  rw [heard, h, Option.map_none, Option.getD_none]

/-! ### The operations, by name -/

theorem mem_advertise (caps : Capabilities) (list name : Str) :
    name ∈ (caps.advertise list).available ↔ Names list name ∨ name ∈ caps.available := by
  unfold advertise Names
  dsimp only
  generalize splitWhitespace list = tokens
  generalize caps.available = available
  induction tokens generalizing available with
  | nil => simp
  | cons token tokens ih =>
      rw [List.foldl_cons, ih, Std.ExtTreeMap.mem_insert, Std.LawfulEqCmp.compare_eq_iff_eq,
        List.exists_mem_cons_iff, or_assoc, or_left_comm]

/-- What a withdrawal leaves of either collection. -/
theorem mem_withdraw (caps : Capabilities) (list name : Str) :
    (name ∈ (caps.withdraw list).available ↔ ¬ Names list name ∧ name ∈ caps.available) ∧
      (name ∈ (caps.withdraw list).acknowledged ↔ ¬ Names list name ∧
        name ∈ caps.acknowledged) := by
  unfold withdraw Names
  generalize splitWhitespace list = tokens
  induction tokens generalizing caps with
  | nil => simp
  | cons token tokens ih =>
      obtain ⟨havailable, hacknowledged⟩ := ih
        { caps with
          available := caps.available.erase (splitValue token).1
          acknowledged := caps.acknowledged.erase (splitValue token).1 }
      rw [List.foldl_cons, havailable, hacknowledged]
      simp only [Std.ExtTreeMap.mem_erase, Std.LawfulEqCmp.compare_eq_iff_eq, ne_eq,
        List.exists_mem_cons_iff, not_or, and_assoc, and_left_comm, and_self]

/-- What we want, once these are offered too. -/
theorem mem_toRequest_advertise (caps : Capabilities) (list name : Str) :
    name ∈ (caps.advertise list).toRequest ↔
      name ∈ wantedCaps ∧ (Names list name ∨ name ∈ caps.available) ∧
        name ∉ caps.acknowledged ∧ name ∉ caps.pending := by
  have hacknowledged : (caps.advertise list).acknowledged = caps.acknowledged := rfl
  have hpending : (caps.advertise list).pending = caps.pending := rfl
  unfold toRequest
  rw [List.mem_filter, hacknowledged, hpending, ← mem_advertise]
  simp only [Bool.and_eq_true, Bool.not_eq_true', ← Bool.not_eq_true,
    Std.ExtTreeMap.contains_iff_mem, List.contains_eq_mem, decide_eq_true_eq, and_assoc]

theorem mem_answered (caps : Capabilities) (answer name : Str) :
    name ∈ (caps.answered answer).pending ↔ name ∈ caps.pending ∧ answer ≠ name := by
  unfold answered
  rw [List.mem_filter, decide_eq_true_eq, ne_comm]

theorem mem_reject (caps : Capabilities) (list name : Str) :
    name ∈ (caps.reject list).pending ↔ name ∈ caps.pending ∧ ¬ Names list name := by
  unfold reject Names
  generalize splitWhitespace list = tokens
  induction tokens generalizing caps with
  | nil => simp
  | cons token tokens ih =>
      rw [List.foldl_cons, ih, mem_answered, List.exists_mem_cons_iff, not_or, and_assoc]

/-- A refusal leaves what is offered and what is held alone. -/
theorem reject_keeps (caps : Capabilities) (list : Str) :
    (caps.reject list).available = caps.available ∧
      (caps.reject list).acknowledged = caps.acknowledged := by
  unfold reject
  induction splitWhitespace list generalizing caps with
  | nil => exact ⟨rfl, rfl⟩
  | cons token tokens ih => exact ih (caps.answered (splitValue token).1)

/-- A token of an `ACK` that grants a capability. -/
theorem acknowledgeToken_granted (caps : Capabilities) {token : Str} (h : token.head? ≠ some '-') :
    (caps.acknowledgeToken token).1 =
      { caps with
        acknowledged := caps.acknowledged.insert (splitValue token).1
          ((splitValue token).2.or (caps.available[(splitValue token).1]?.bind id)) }.answered
        (splitValue token).1 := by
  unfold acknowledgeToken
  split
  · exact absurd rfl h
  · rfl

theorem acknowledge_eq (caps : Capabilities) (list : Str) :
    (caps.acknowledge list).1 =
      (splitWhitespace list).foldl (fun caps token => (caps.acknowledgeToken token).1) caps := by
  have hacked : ∀ (tokens : List Str) (acked : Capabilities × List Str),
      (tokens.foldl (fun acked token => ((acked.1.acknowledgeToken token).1,
        acked.2 ++ (acked.1.acknowledgeToken token).2)) acked).1 =
        tokens.foldl (fun caps token => (caps.acknowledgeToken token).1) acked.1 := by
    intro tokens
    induction tokens with
    | nil => exact fun _ => rfl
    | cons token tokens ih => exact fun acked => ih _
  exact hacked _ (caps, [])

/-- What one token of an `ACK` makes of each collection. -/
theorem acknowledgeToken_spec (caps : Capabilities) (token name : Str) :
    (caps.acknowledgeToken token).1.available = caps.available ∧
      (token ≠ '-' :: name → (name ∈ (caps.acknowledgeToken token).1.acknowledged ↔
        token.head? ≠ some '-' ∧ (splitValue token).1 = name ∨ name ∈ caps.acknowledged)) ∧
      (name ∈ (caps.acknowledgeToken token).1.pending ↔ name ∈ caps.pending ∧
        ¬ (token = '-' :: name ∨ token.head? ≠ some '-' ∧ (splitValue token).1 = name)) := by
  by_cases h : token.head? = some '-'
  · obtain ⟨dropped, rfl⟩ := List.head?_eq_some_iff.mp h
    have hdropped : (caps.acknowledgeToken ('-' :: dropped)).1 =
        { caps with acknowledged := caps.acknowledged.erase dropped }.answered dropped := rfl
    rw [hdropped]
    refine ⟨rfl, fun hne => ?_, ?_⟩
    · have hother : dropped ≠ name := fun heq => hne (congrArg _ heq)
      show name ∈ caps.acknowledged.erase dropped ↔ _
      rw [Std.ExtTreeMap.mem_erase, ne_eq, Std.LawfulEqCmp.compare_eq_iff_eq]
      simp [hother]
    · rw [mem_answered]
      simp
  · rw [caps.acknowledgeToken_granted h]
    refine ⟨rfl, fun _ => ?_, ?_⟩
    · show name ∈ caps.acknowledged.insert _ _ ↔ _
      rw [Std.ExtTreeMap.mem_insert, Std.LawfulEqCmp.compare_eq_iff_eq]
      simp [h]
    · have hne : token ≠ '-' :: name := fun heq => h (heq ▸ rfl)
      rw [mem_answered]
      simp [h, hne]

/-- What an `ACK` makes of each collection. -/
theorem acknowledge_spec (caps : Capabilities) (list name : Str) :
    (caps.acknowledge list).1.available = caps.available ∧
      ('-' :: name ∉ splitWhitespace list →
        (name ∈ (caps.acknowledge list).1.acknowledged ↔
          (∃ token ∈ splitWhitespace list, token.head? ≠ some '-' ∧ (splitValue token).1 = name) ∨
            name ∈ caps.acknowledged)) ∧
      (name ∈ (caps.acknowledge list).1.pending ↔ name ∈ caps.pending ∧
        ¬ ('-' :: name ∈ splitWhitespace list ∨
          ∃ token ∈ splitWhitespace list, token.head? ≠ some '-' ∧
            (splitValue token).1 = name)) := by
  rw [acknowledge_eq]
  generalize splitWhitespace list = tokens
  induction tokens generalizing caps with
  | nil => simp
  | cons token tokens ih =>
      obtain ⟨havailable, hacknowledged, hpending⟩ := caps.acknowledgeToken_spec token name
      obtain ⟨iavailable, iacknowledged, ipending⟩ := ih (caps.acknowledgeToken token).1
      rw [List.foldl_cons]
      refine ⟨iavailable.trans havailable, fun hdrops => ?_, ?_⟩
      · rw [List.mem_cons, not_or] at hdrops
        rw [iacknowledged hdrops.2, hacknowledged (Ne.symm hdrops.1), List.exists_mem_cons_iff,
          or_assoc, or_left_comm]
      · rw [ipending, hpending, List.mem_cons, List.exists_mem_cons_iff, eq_comm (a := '-' :: name),
          and_assoc, ← not_or, or_or_or_comm]

/-! ### A capability, line by line -/

/-- True when a line makes us ask for a capability: one after which we look, while the capability is
wanted and on offer, and neither held nor waited for. -/
def Due (caps : Capabilities) (message : Message) (name : Str) : Prop :=
  Looks message ∧ name ∈ wantedCaps ∧ (Advertises message name ∨ name ∈ caps.available) ∧
    name ∉ caps.acknowledged ∧ name ∉ caps.pending

theorem mem_heard_available (caps : Capabilities) (message : Message) (name : Str) :
    name ∈ (caps.heard message).available ↔
      Advertises message name ∨ ¬ Withdraws message name ∧ name ∈ caps.available := by
  unfold Advertises Withdraws
  cases h : capReply message with
  | none => simp [heard_of_none h]
  | some reply =>
      rw [heard_of_reply h]
      cases reply with
      | offers list last => cases last <;> simp [replied, requested, mem_advertise]
      | withdraws list => simp [replied, mem_withdraw]
      | grants list => simp [replied, (caps.acknowledge_spec list name).1]
      | refuses list => simp [replied, (caps.reject_keeps list).1]

theorem mem_heard_acknowledged {caps : Capabilities} {message : Message} {name : Str}
    (hwithdraws : ¬ Withdraws message name) (hdrops : ¬ Drops message name) :
    name ∈ (caps.heard message).acknowledged ↔ Grants message name ∨ name ∈ caps.acknowledged := by
  unfold Withdraws at hwithdraws
  unfold Drops at hdrops
  unfold Grants
  cases h : capReply message with
  | none => simp [heard_of_none h]
  | some reply =>
      rw [heard_of_reply h]
      cases reply with
      | offers list last => cases last <;> simp [replied, requested, advertise]
      | withdraws list =>
          have hnames : ¬ Names list name := fun hnames => hwithdraws ⟨list, h, hnames⟩
          simp [replied, mem_withdraw, hnames]
      | grants list =>
          have hnot : '-' :: name ∉ splitWhitespace list := fun hmem => hdrops ⟨list, h, hmem⟩
          simp [replied, (caps.acknowledge_spec list name).2.1 hnot]
      | refuses list => simp [replied, (caps.reject_keeps list).2]

theorem mem_heard_pending (caps : Capabilities) (message : Message) (name : Str) :
    name ∈ (caps.heard message).pending ↔
      caps.Due message name ∨ name ∈ caps.pending ∧
        ¬ (Drops message name ∨ Grants message name ∨ Refuses message name) := by
  unfold Due Looks Advertises Drops Grants Refuses
  cases h : capReply message with
  | none => simp [heard_of_none h]
  | some reply =>
      rw [heard_of_reply h]
      cases reply with
      | offers list last =>
          cases last with
          | false => simp [replied, advertise]
          | true =>
              show name ∈ caps.pending ++ (caps.advertise list).toRequest ↔ _
              rw [List.mem_append, mem_toRequest_advertise, or_comm]
              simp
      | withdraws list => simp [replied, Client.pending_withdraw]
      | grants list => simp [replied, (caps.acknowledge_spec list name).2.2]
      | refuses list => simp [replied, mem_reject]

/-- What is asked for is on offer and waited for, and not held. -/
theorem Due.heard {caps : Capabilities} {message : Message} {name : Str}
    (h : caps.Due message name) :
    name ∈ (caps.heard message).available ∧ name ∉ (caps.heard message).acknowledged ∧
      name ∈ (caps.heard message).pending := by
  obtain ⟨hlooks, -, hoffered, hacknowledged, -⟩ := id h
  obtain ⟨hwithdraws, hdrops, hgrants, -⟩ := hlooks.only_offers name
  refine ⟨?_, ?_, (caps.mem_heard_pending message name).mpr (.inl h)⟩
  · rw [mem_heard_available]
    exact hoffered.imp_right fun havailable => ⟨hwithdraws, havailable⟩
  · rw [mem_heard_acknowledged hwithdraws hdrops, not_or]
    exact ⟨hgrants, hacknowledged⟩

theorem wantedCaps_nodup : wantedCaps.Nodup := by decide +kernel

theorem pending_acknowledge (caps : Capabilities) (list : Str) :
    (caps.acknowledge list).1.pending.Sublist caps.pending := by
  rw [acknowledge_eq]
  induction splitWhitespace list generalizing caps with
  | nil => exact List.Sublist.refl _
  | cons token tokens ih =>
      refine (ih _).trans ?_
      by_cases h : token.head? = some '-'
      · obtain ⟨dropped, rfl⟩ := List.head?_eq_some_iff.mp h
        exact List.filter_sublist
      · show (caps.acknowledgeToken token).1.pending.Sublist _
        rw [caps.acknowledgeToken_granted h]
        exact List.filter_sublist

theorem pending_reject (caps : Capabilities) (list : Str) :
    (caps.reject list).pending.Sublist caps.pending := by
  unfold reject
  induction splitWhitespace list generalizing caps with
  | nil => exact List.Sublist.refl _
  | cons token tokens ih => exact (ih _).trans List.filter_sublist

/-- **Nothing is waited for twice.** -/
theorem heard_nodup {caps : Capabilities} (h : caps.pending.Nodup) (message : Message) :
    (caps.heard message).pending.Nodup := by
  cases hreply : capReply message with
  | none => rwa [heard_of_none hreply]
  | some reply =>
      rw [heard_of_reply hreply]
      cases reply with
      | offers list last =>
          cases last with
          | false => exact h
          | true =>
              refine List.Nodup.append h (wantedCaps_nodup.filter _) ?_
              intro name hpending hwanted
              exact ((caps.mem_toRequest_advertise list name).mp hwanted).2.2.2 hpending
      | withdraws list =>
          show (caps.withdraw list).pending.Nodup
          rwa [Client.pending_withdraw]
      | grants list => exact h.sublist (caps.pending_acknowledge list)
      | refuses list => exact h.sublist (caps.pending_reject list)

/-! ### A whole negotiation -/

/-- What comes of several lines. -/
def heardAll (caps : Capabilities) (lines : List Message) : Capabilities := lines.foldl heard caps

theorem heardAll_cons (caps : Capabilities) (line : Message) (lines : List Message) :
    caps.heardAll (line :: lines) = (caps.heard line).heardAll lines :=
  rfl

theorem heardAll_append (caps : Capabilities) (before after : List Message) :
    caps.heardAll (before ++ after) = (caps.heardAll before).heardAll after :=
  List.foldl_append

theorem heardAll_nodup {caps : Capabilities} (h : caps.pending.Nodup) (lines : List Message) :
    (caps.heardAll lines).pending.Nodup := by
  induction lines generalizing caps with
  | nil => exact h
  | cons line lines ih => exact ih (heard_nodup h line)

/-- Lines that do not touch a capability leave it on offer, and held, as it was. -/
theorem heardAll_untouched (caps : Capabilities) {lines : List Message} {name : Str}
    (h : ∀ line ∈ lines, ¬ Touches line name) :
    (name ∈ (caps.heardAll lines).available ↔ name ∈ caps.available) ∧
      (name ∈ (caps.heardAll lines).acknowledged ↔ name ∈ caps.acknowledged) := by
  induction lines generalizing caps with
  | nil => exact ⟨Iff.rfl, Iff.rfl⟩
  | cons line lines ih =>
      obtain ⟨havailable, hacknowledged⟩ :=
        ih (caps.heard line) fun l hl => h l (List.mem_cons_of_mem _ hl)
      have hline := h line List.mem_cons_self
      simp only [Touches, Renews, not_or] at hline
      obtain ⟨⟨hadvertises, hwithdraws, hdrops⟩, hgrants⟩ := hline
      constructor
      · rw [heardAll_cons, havailable, mem_heard_available]
        simp [hadvertises, hwithdraws]
      · rw [heardAll_cons, hacknowledged, mem_heard_acknowledged hwithdraws hdrops]
        simp [hgrants]

/-- What is held stays held until it is withdrawn or dropped. -/
theorem heardAll_acknowledged {caps : Capabilities} {lines : List Message} {name : Str}
    (h : ∀ line ∈ lines, ¬ Renews line name) (hheld : name ∈ caps.acknowledged) :
    name ∈ (caps.heardAll lines).acknowledged := by
  induction lines generalizing caps with
  | nil => exact hheld
  | cons line lines ih =>
      have hline := h line List.mem_cons_self
      simp only [Renews, not_or] at hline
      refine ih (fun l hl => h l (List.mem_cons_of_mem _ hl)) ?_
      exact (mem_heard_acknowledged hline.2.1 hline.2.2).mpr (.inr hheld)

/-- What is waited for is waited for until it is answered. -/
theorem heardAll_pending {caps : Capabilities} {lines : List Message} {name : Str}
    (h : ∀ line ∈ lines, ¬ Touches line name ∧ ¬ Refuses line name)
    (hpending : name ∈ caps.pending) :
    name ∈ (caps.heardAll lines).pending := by
  induction lines generalizing caps with
  | nil => exact hpending
  | cons line lines ih =>
      obtain ⟨htouches, hrefuses⟩ := h line List.mem_cons_self
      simp only [Touches, Renews, not_or] at htouches
      refine ih (fun l hl => h l (List.mem_cons_of_mem _ hl)) ?_
      rw [mem_heard_pending]
      exact .inr ⟨hpending, by simp [htouches, hrefuses]⟩

/-- What comes to be waited for was asked for. -/
theorem exists_due {caps : Capabilities} {lines : List Message} {name : Str}
    (h : name ∉ caps.pending) (hpending : name ∈ (caps.heardAll lines).pending) :
    ∃ before line after, lines = before ++ line :: after ∧
      (caps.heardAll before).Due line name := by
  induction lines generalizing caps with
  | nil => exact absurd hpending h
  | cons line lines ih =>
      by_cases hdue : caps.Due line name
      · exact ⟨[], line, lines, rfl, hdue⟩
      · have hnext : name ∉ (caps.heard line).pending := by
          rw [mem_heard_pending]
          simp [hdue, h]
        obtain ⟨before, line', after, rfl, hdue'⟩ := ih hnext hpending
        exact ⟨line :: before, line', after, rfl, hdue'⟩

/-- What these lines asked for and refused, and did not offer, take back, grant or drop since it was
asked for. -/
def Refused (lines : List Message) (name : Str) : Prop :=
  ∃ before line since, lines = before ++ line :: since ∧
    (default.heardAll before).Due line name ∧ (∃ answer ∈ since, Refuses answer name) ∧
    ∀ answer ∈ since, ¬ Touches answer name

/-- True of lines that make us look only while everything that was refused is named again. -/
def NamesRefused (lines : List Message) : Prop :=
  ∀ before line after, lines = before ++ line :: after → Looks line →
    ∀ name, Refused before name → Advertises line name

/-- True of lines at which nothing is due twice, unless it was renewed. -/
def DueOnce (lines : List Message) : Prop :=
  ∀ before line between line' after, lines = before ++ line :: (between ++ line' :: after) →
    ∀ name, (default.heardAll before).Due line name →
      (default.heardAll (before ++ line :: between)).Due line' name →
      ∃ renewal ∈ between ++ [line'], Renews renewal name

theorem heardAll_due (before between : List Message) (line : Message) :
    default.heardAll (before ++ line :: between) =
      ((default.heardAll before).heard line).heardAll between :=
  heardAll_append default before (line :: between)

/-- A capability that is due again, and was not renewed, was refused. -/
theorem refused_of_due {before between : List Message} {line line' : Message} {name : Str}
    (hdue : (default.heardAll before).Due line name)
    (hdue' : (default.heardAll (before ++ line :: between)).Due line' name)
    (hrenews : ∀ renewal ∈ between, ¬ Renews renewal name) :
    Refused (before ++ line :: between) name := by
  obtain ⟨-, -, hpending⟩ := hdue.heard
  obtain ⟨-, -, -, hheld, hnot⟩ := hdue'
  rw [heardAll_due] at hheld hnot
  -- a grant would be held until now, for want of a renewal
  have hgrants : ∀ answer ∈ between, ¬ Grants answer name := by
    intro answer hanswer hgrants
    obtain ⟨first, rest, rfl⟩ := List.append_of_mem hanswer
    rw [List.forall_mem_append, List.forall_mem_cons] at hrenews
    obtain ⟨-, hanswer', hrest⟩ := hrenews
    have hrenewal := hanswer'
    simp only [Renews, not_or] at hrenewal
    rw [heardAll_append, heardAll_cons] at hheld
    exact hheld (heardAll_acknowledged hrest
      ((mem_heard_acknowledged hrenewal.2.1 hrenewal.2.2).mpr (.inl hgrants)))
  have htouches : ∀ answer ∈ between, ¬ Touches answer name :=
    fun answer hanswer => not_or.mpr ⟨hrenews answer hanswer, hgrants answer hanswer⟩
  refine ⟨before, line, between, rfl, hdue, ?_, htouches⟩
  -- without a refusal it would be waited for still
  by_contra hnone
  exact hnot (heardAll_pending
    (fun answer hanswer => ⟨htouches answer hanswer, fun h => hnone ⟨answer, hanswer, h⟩⟩) hpending)

/-- A capability that was refused is due at the next look, unless it was asked for again since. -/
theorem due_of_refused {before since : List Message} {line look : Message} {name : Str}
    (hdue : (default.heardAll before).Due line name)
    (hrefuses : ∃ answer ∈ since, Refuses answer name)
    (htouches : ∀ answer ∈ since, ¬ Touches answer name) (hlooks : Looks look) :
    (default.heardAll (before ++ line :: since)).Due look name ∨
      ∃ between again rest, since = between ++ again :: rest ∧
        (default.heardAll (before ++ line :: between)).Due again name := by
  obtain ⟨havailable, hheld, -⟩ := hdue.heard
  obtain ⟨havailable', hheld'⟩ :=
    heardAll_untouched ((default.heardAll before).heard line) htouches
  by_cases hpending : name ∈ (default.heardAll (before ++ line :: since)).pending
  · right
    obtain ⟨answer, hanswer, hrefuses⟩ := hrefuses
    obtain ⟨first, rest, rfl⟩ := List.append_of_mem hanswer
    have hnot : name ∉ (default.heardAll (before ++ line :: (first ++ [answer]))).pending := by
      rw [heardAll_due, heardAll_append, heardAll_cons]
      show name ∉ (Capabilities.heard _ answer).pending
      rw [mem_heard_pending, not_or]
      exact ⟨fun h => (h.1.only_offers name).2.2.2 hrefuses, by simp [hrefuses]⟩
    have hsplit : before ++ line :: (first ++ answer :: rest) =
        (before ++ line :: (first ++ [answer])) ++ rest := by simp
    rw [hsplit, heardAll_append] at hpending
    obtain ⟨between, again, later, rfl, hagain⟩ := exists_due hnot hpending
    refine ⟨first ++ answer :: between, again, later, by simp, ?_⟩
    rw [← heardAll_append] at hagain
    simpa using hagain
  · left
    refine ⟨hlooks, hdue.2.1, .inr ?_, ?_, hpending⟩
    · rw [heardAll_due]
      exact havailable'.mpr havailable
    · rw [heardAll_due]
      exact fun h => hheld (hheld'.mp h)

/-- **Nothing is due twice just if every look names what was refused.** -/
theorem dueOnce_iff (lines : List Message) : DueOnce lines ↔ NamesRefused lines := by
  constructor
  · rintro honce _ look after rfl hlooks name ⟨before, line, since, rfl, hdue, hrefuses, htouches⟩
    rcases due_of_refused hdue hrefuses htouches hlooks with hdue' | ⟨between, again, rest, rfl,
      hdue'⟩
    · obtain ⟨renewal, hmem, hrenews⟩ :=
        honce before line since look after (by simp) name hdue hdue'
      rcases List.mem_append.mp hmem with hmem | hmem
      · exact absurd (.inl hrenews) (htouches renewal hmem)
      · rw [List.mem_singleton.mp hmem] at hrenews
        exact hlooks.renews hrenews
    · obtain ⟨renewal, hmem, hrenews⟩ :=
        honce before line between again (rest ++ look :: after) (by simp) name hdue hdue'
      refine absurd (.inl hrenews) (htouches renewal ?_)
      rw [List.append_cons]
      exact List.mem_append_left _ hmem
  · rintro hnames before line between line' after rfl name hdue hdue'
    by_contra hnone
    have hrenews : ∀ renewal ∈ between ++ [line'], ¬ Renews renewal name :=
      fun renewal hmem h => hnone ⟨renewal, hmem, h⟩
    have hrefused := refused_of_due hdue hdue' fun renewal hmem =>
      hrenews renewal (List.mem_append_left _ hmem)
    have hadvertises := hnames (before ++ line :: between) line' after (by simp) hdue'.1 name
      hrefused
    exact hrenews line' (by simp) (.inl hadvertises)

end Capabilities

namespace Client

/-! ### What a line queues -/

/-- The line that asks for a capability. -/
def reqLine (name : Str) : Message := Message.new "CAP" ["REQ", name]

theorem reqLine_inj {name other : Str} (h : wireLine (reqLine name) = wireLine (reqLine other)) :
    name = other := by
  have hparams : Message.displayParams [name] = Message.displayParams [other] :=
    List.append_cancel_left (show ("CAP REQ" : Str) ++ _ = ("CAP REQ" : Str) ++ _ from
      display_of_wireLine_eq h)
  have hcolon : ∀ {s t : Str}, Message.needsColon t = false → ':' :: s ≠ t := by
    rintro s _ hneeds rfl
    simp [Message.needsColon] at hneeds
  unfold Message.displayParams at hparams
  cases hname : Message.needsColon name <;> cases hother : Message.needsColon other <;>
    simp only [hname, hother, if_true, Bool.false_eq_true, if_false, List.cons.injEq,
      true_and] at hparams
  · exact hparams
  · exact absurd hparams.symm (hcolon hname)
  · exact absurd hparams (hcolon hother)
  · exact hparams

theorem wireLine_ne_reqLine {line : Message} (h : line.display.take 5 ≠ "CAP R") (name : Str) :
    wireLine line ≠ wireLine (reqLine name) :=
  wireLine_ne_of_take 5 h

/-- A line that is no capability command asks for nothing. -/
theorem wireLine_ne_reqLine_of_aside {line : Message} (h : Aside line) (name : Str) :
    wireLine line ≠ wireLine (reqLine name) :=
  wireLine_ne_of_take 3 h

/-- A step that leaves the capabilities alone, and asks for none. -/
def Unasked (c d : Client) : Prop :=
  d.caps = c.caps ∧ ∃ lines : List Message, d.outbox = c.outbox ++ lines.map wireLine ∧
    ∀ line ∈ lines, ∀ name, wireLine line ≠ wireLine (reqLine name)

theorem Unasked.refl (c : Client) : Unasked c c := ⟨rfl, [], (List.append_nil _).symm, by simp⟩

theorem Apart.unasked {c d : Client} (h : Apart c d) : Unasked c d := by
  obtain ⟨lines, houtbox, hlines⟩ := h.queued
  exact ⟨(phase_eq_of_standing h.standing).2.1, lines, houtbox,
    fun line hline => wireLine_ne_reqLine_of_aside (hlines line hline)⟩

theorem Finished.unasked {c d : Client} (h : Finished c d) : Unasked c d := by
  have hend : ∀ name, wireLine capEnd ≠ wireLine (reqLine name) := wireLine_ne_reqLine (by decide)
  cases h with
  | waiting h => exact Unasked.refl c
  | opened h mechanism =>
      refine ⟨rfl, [Message.new "AUTHENTICATE" [mechanism]], rfl, ?_⟩
      intro line hline
      rw [List.mem_singleton.mp hline]
      exact wireLine_ne_reqLine (show ("AUTHE" : Str) ≠ "CAP R" by decide)
  | released hphase hcaps hsasl =>
      exact ⟨rfl, [capEnd], rfl, fun line hline => List.mem_singleton.mp hline ▸ hend⟩
  | failed hphase hcaps hsasl =>
      exact ⟨rfl, [capEnd], rfl, fun line hline => List.mem_singleton.mp hline ▸ hend⟩

theorem finishSasl_unasked (c : Client) (failure : Option SaslFailure) :
    Unasked c (c.finishSasl failure) := by
  unfold finishSasl
  split
  · exact Unasked.refl c
  · rw [emits_eq]
    exact (finishNegotiationIfSettled_finished
      { c with
        sasl := .settled, events := c.events ++ (failure.map Event.saslFailed).toList }).unasked

theorem handleWelcome_unasked (c : Client) (message : Message) :
    Unasked c (c.handleWelcome message) := by
  unfold handleWelcome resume
  dsimp only
  rw [sendLines_eq]
  exact ⟨rfl, _, rfl, fun line hline =>
    wireLine_ne_reqLine_of_aside (resumeLines_aside _ line hline)⟩

/-- What a capability reply does to a connection. -/
def hear (c : Client) : CapReply → Client
  | .offers list false => { c with caps := c.caps.advertise list }
  | .offers list true => { c with caps := c.caps.advertise list }.requestWanted
  | .withdraws list => { c with caps := c.caps.withdraw list }
  | .grants list =>
      let acked := c.caps.acknowledge list
      let c := { c with caps := acked.1 }
      (if acked.2 = [] then c
        else c.emit (.capabilitiesAcknowledged acked.2)).finishNegotiationIfSettled
  | .refuses list => { c with caps := c.caps.reject list }.finishNegotiationIfSettled

theorem handleCap_eq (c : Client) {message : Message} (h : message.is "CAP" = true) :
    c.handleCap message = ((capReply message).map c.hear).getD c := by
  unfold handleCap capReply applyCap
  rw [if_pos h]
  cases message.param 1 with
  | none => rfl
  | some subcommand =>
      dsimp only [Option.bind_some]
      by_cases hls : toAsciiUppercase subcommand = "LS"
      · rw [if_pos hls, if_pos hls]
        cases hmore : (message.param 2 == some ("*" : Str)) with
        | true =>
            rw [bne, hmore]
            rfl
        | false =>
            rw [bne, hmore]
            rfl
      rw [if_neg hls, if_neg hls]
      by_cases hnew : toAsciiUppercase subcommand = "NEW"
      · rw [if_pos hnew, if_pos hnew]
        rfl
      rw [if_neg hnew, if_neg hnew]
      by_cases hdel : toAsciiUppercase subcommand = "DEL"
      · rw [if_pos hdel, if_pos hdel]
        rfl
      rw [if_neg hdel, if_neg hdel]
      by_cases hack : toAsciiUppercase subcommand = "ACK"
      · rw [if_pos hack, if_pos hack]
        rfl
      rw [if_neg hack, if_neg hack]
      by_cases hnak : toAsciiUppercase subcommand = "NAK"
      · rw [if_pos hnak, if_pos hnak]
        rfl
      · rw [if_neg hnak, if_neg hnak]
        rfl

/-- A step that asks for some capabilities, each in a line of its own. -/
def Asked (c d : Client) (caps : Capabilities) (due : Str → Prop) : Prop :=
  d.caps = caps ∧ ∃ lines : List Bytes, d.outbox = c.outbox ++ lines ∧
    ∀ name, lines.count (wireLine (reqLine name)) ≤ 1 ∧ (wireLine (reqLine name) ∈ lines ↔ due name)

/-- Behind a step that queued nothing. -/
theorem Unasked.asked {c d e : Client} {due : Str → Prop} (houtbox : d.outbox = c.outbox)
    (h : Unasked d e) (hdue : ∀ name, ¬ due name) : Asked c e d.caps due := by
  obtain ⟨hcaps, lines, hlines, hnone⟩ := h
  refine ⟨hcaps, lines.map wireLine, by rw [hlines, houtbox], fun name => ?_⟩
  have hnot : wireLine (reqLine name) ∉ lines.map wireLine := by
    intro hmem
    obtain ⟨line, hline, heq⟩ := List.mem_map.mp hmem
    exact hnone line hline name heq
  exact ⟨(List.count_eq_zero_of_not_mem hnot).trans_le (Nat.zero_le 1),
    iff_of_false hnot (hdue name)⟩

theorem requestWanted_asked (c : Client) :
    Asked c c.requestWanted (c.caps.requested c.caps.toRequest) (· ∈ c.caps.toRequest) := by
  unfold requestWanted
  dsimp only
  by_cases hwanted : c.caps.toRequest = []
  · rw [if_pos hwanted, hwanted, Capabilities.requested, List.append_nil]
    exact c.finishNegotiationIfSettled_finished.unasked.asked rfl (by simp)
  · rw [if_neg hwanted, sendLines_eq, List.map_map]
    refine ⟨rfl, _, rfl, fun name => ⟨?_, ?_⟩⟩
    · refine List.nodup_iff_count_le_one.mp (List.Nodup.map (fun _ _ => reqLine_inj) ?_) _
      exact Capabilities.wantedCaps_nodup.filter _
    · rw [List.mem_map]
      constructor
      · rintro ⟨other, hother, heq⟩
        rwa [← reqLine_inj heq]
      · exact fun hname => ⟨name, hname, rfl⟩

/-- A reply leads to what it comes to, and a look asks for what is wanted after it. -/
theorem hear_asked (c : Client) (reply : CapReply) :
    Asked c (c.hear reply) (c.caps.replied reply) fun name =>
      ∃ list, reply = .offers list true ∧ name ∈ (c.caps.advertise list).toRequest := by
  have hstill : ∀ d : Client, Unasked d d := Unasked.refl
  cases reply with
  | offers list last =>
      cases last with
      | false => exact (hstill { c with caps := c.caps.advertise list }).asked rfl (by simp)
      | true =>
          obtain ⟨hcaps, lines, houtbox, hlines⟩ :=
            requestWanted_asked { c with caps := c.caps.advertise list }
          refine ⟨hcaps, lines, houtbox, fun name => ⟨(hlines name).1, (hlines name).2.trans ?_⟩⟩
          simp
  | withdraws list => exact (hstill { c with caps := c.caps.withdraw list }).asked rfl (by simp)
  | grants list =>
      unfold hear
      dsimp only
      split
      · exact (finishNegotiationIfSettled_finished _).unasked.asked rfl (by simp)
      · exact (finishNegotiationIfSettled_finished _).unasked.asked rfl (by simp)
  | refuses list =>
      exact (finishNegotiationIfSettled_finished
        { c with caps := c.caps.reject list }).unasked.asked rfl (by simp)

section Line

variable [Primitives]

theorem handleAuthenticate_unasked (c : Client) (message : Message) :
    Unasked c (c.handleAuthenticate message) := by
  have hauthenticated := c.handleAuthenticate_authenticated message
  generalize c.handleAuthenticate message = d at hauthenticated ⊢
  cases hauthenticated with
  | ignored => exact Unasked.refl c
  | responded sasl scram lines h =>
      rw [sendLines_eq]
      refine ⟨rfl, _, rfl, fun line hline => ?_⟩
      obtain ⟨text, -, rfl⟩ := List.mem_map.mp hline
      exact wireLine_ne_reqLine (show ("AUTHE" : Str) ≠ "CAP R" by decide)
  | ended scram failure => exact finishSasl_unasked { c with scram := scram } _

/-- What a line makes a client queue. -/
def queuedAt (c : Client) (message : Message) : List Bytes :=
  (c.handleMessage message).outbox.drop c.outbox.length

/-- The line makes a client ask for a capability. -/
def Requests (c : Client) (message : Message) (name : Str) : Prop :=
  wireLine (reqLine name) ∈ c.queuedAt message

theorem dispatch_asked (c : Client) (message : Message) :
    Asked c (c.dispatch message) (c.caps.heard message) (c.caps.Due message) := by
  by_cases hcap : message.is "CAP" = true
  · have hdispatch : c.dispatch message = c.handleCap message := by
      unfold dispatch
      rw [is_eq_false hcap (by decide), is_eq_false hcap (by decide), hcap]
      rfl
    rw [hdispatch, c.handleCap_eq hcap]
    cases hreply : capReply message with
    | none =>
        rw [Capabilities.heard_of_none hreply]
        refine (Unasked.refl c).asked rfl ?_
        rintro name ⟨⟨list, hlooks⟩, -⟩
        rw [hreply] at hlooks
        cases hlooks
    | some reply =>
        rw [Capabilities.heard_of_reply hreply]
        obtain ⟨hcaps, lines, houtbox, hlines⟩ := c.hear_asked reply
        refine ⟨hcaps, lines, houtbox, fun name => ⟨(hlines name).1, (hlines name).2.trans ?_⟩⟩
        unfold Capabilities.Due Looks Advertises
        rw [hreply]
        cases reply <;> simp [Capabilities.mem_toRequest_advertise]
  · have hreply : capReply message = none := if_neg hcap
    have hunasked : Unasked c (c.dispatch message) := by
      have hhandled := c.dispatch_handled message
      generalize c.dispatch message = d at hhandled ⊢
      cases hhandled with
      | cap h => exact absurd h hcap
      | welcome h => exact c.handleWelcome_unasked message
      | authenticate h => exact c.handleAuthenticate_unasked message
      | refused h => exact c.finishSasl_unasked _
      | accepted h => exact c.finishSasl_unasked none
      | apart h => exact h.unasked
    rw [Capabilities.heard_of_none hreply]
    refine hunasked.asked rfl ?_
    rintro name ⟨⟨list, hlooks⟩, -⟩
    rw [hreply] at hlooks
    cases hlooks

/-- **A line asks for what is due at it**, once, and leads to the capabilities it comes to. -/
theorem handleMessage_asks (c : Client) (message : Message) :
    (c.handleMessage message).caps = c.caps.heard message ∧
      ∀ name, (c.Requests message name ↔ c.caps.Due message name) ∧
        (c.queuedAt message).count (wireLine (reqLine name)) ≤ 1 := by
  obtain ⟨hcaps, lines, houtbox, hlines⟩ := (c.noted message).dispatch_asked message
  refine ⟨hcaps, fun name => ?_⟩
  have hqueued : c.queuedAt message = lines := drop_outbox houtbox
  rw [Requests, hqueued]
  exact (hlines name).symm

end Line

/-! ### A whole connection -/

section Run

variable [Primitives]

/-- The lines that a run handles. -/
def lines (c : Client) (inputs : List Input) : List Message := (c.trace inputs).map Prod.snd

/-- **The capabilities of a connection** are what its lines come to, at each of them and in the
end. -/
theorem run_caps {c : Client} {inputs : List Input} (hup : Input.disconnected ∉ inputs) :
    (c.run inputs).caps = c.caps.heardAll (c.lines inputs) ∧
      ∀ before p after, c.trace inputs = before ++ p :: after →
        p.1.caps = c.caps.heardAll (before.map Prod.snd) := by
  have hline : ∀ (seen : List (Client × Message)) (d : Client) (message : Message),
      d.caps = c.caps.heardAll (seen.map Prod.snd) →
        (d.handleMessage message).caps =
          c.caps.heardAll ((seen ++ [(d, message)]).map Prod.snd) := by
    intro seen d message hd
    rw [(d.handleMessage_asks message).1, hd, List.map_append, Capabilities.heardAll_append]
    rfl
  have hhost : ∀ input ∈ inputs, (∀ data, input ≠ .bytes data) →
      ∀ (seen : List (Client × Message)) (d : Client),
        d.caps = c.caps.heardAll (seen.map Prod.snd) →
          (d.step input).caps = c.caps.heardAll (seen.map Prod.snd) := by
    intro input hinput hbytes seen d hd
    obtain ⟨phase, hstanding⟩ := d.step_standing hbytes fun heq => hup (heq ▸ hinput)
    exact (congrArg Standing.caps hstanding).trans hd
  refine ⟨?_, fun before p after htrace => ?_⟩
  · exact run_history (Q := fun seen d => d.caps = c.caps.heardAll (seen.map Prod.snd))
      (fun _ _ _ _ _ h => h) hline [] inputs hhost rfl
  · exact trace_history (Q := fun seen d => d.caps = c.caps.heardAll (seen.map Prod.snd))
      (fun _ _ _ _ _ h => h) hline hhost rfl htrace

/-- A connection that asks for each capability once. -/
structure AsksOnce (c : Client) (inputs : List Input) : Prop where
  /-- What is asked for a second time was offered again, withdrawn or dropped since the first. -/
  once : ∀ before p between q after, c.trace inputs = before ++ p :: (between ++ q :: after) →
    ∀ name, p.1.Requests p.2 name → q.1.Requests q.2 name →
      ∃ renewal ∈ between ++ [q], Renews renewal.2 name
  /-- No line makes us ask twice. -/
  single : ∀ p ∈ c.trace inputs, ∀ name, (p.1.queuedAt p.2).count (wireLine (reqLine name)) ≤ 1
  /-- What is asked for is wanted and on offer. -/
  offered : ∀ p ∈ c.trace inputs, ∀ name, p.1.Requests p.2 name →
    name ∈ wantedCaps ∧ name ∈ (p.1.handleMessage p.2).caps.available
  /-- Nothing is waited for twice, behind any line and any input. -/
  distinct : (∀ p ∈ c.trace inputs, (p.1.handleMessage p.2).caps.pending.Nodup) ∧
    ∀ before after, inputs = before ++ after → (c.run before).caps.pending.Nodup
  /-- Nothing but a line asks for anything. -/
  quiet : ∀ before input after, inputs = before ++ input :: after → Served input →
    (∀ data, input ≠ .bytes data) → ∀ name, wireLine (reqLine name) ∉ (c.run before).queuedBy input

/-- Nothing is asked for twice just if nothing is due twice. -/
theorem once_iff_dueOnce {c : Client} (hcaps : c.caps = .default) {inputs : List Input}
    (hup : Input.disconnected ∉ inputs) :
    (∀ before p between q after, c.trace inputs = before ++ p :: (between ++ q :: after) →
      ∀ name, p.1.Requests p.2 name → q.1.Requests q.2 name →
        ∃ renewal ∈ between ++ [q], Renews renewal.2 name) ↔
      Capabilities.DueOnce (c.lines inputs) := by
  obtain ⟨-, htrace⟩ := run_caps (c := c) hup
  rw [hcaps] at htrace
  constructor
  · intro honce before line between line' after hlines name hdue hdue'
    obtain ⟨first, _, hsplit, rfl, hfirst⟩ := List.map_eq_append_iff.mp hlines
    obtain ⟨p, _, rfl, rfl, hbetween⟩ := List.map_eq_cons_iff.mp hfirst
    obtain ⟨middle, _, rfl, rfl, hsecond⟩ := List.map_eq_append_iff.mp hbetween
    obtain ⟨q, rest, rfl, rfl, rfl⟩ := List.map_eq_cons_iff.mp hsecond
    have hq := htrace (first ++ p :: middle) q rest (by simp [hsplit])
    rw [List.map_append, List.map_cons] at hq
    rw [← htrace first p _ hsplit] at hdue
    rw [← hq] at hdue'
    obtain ⟨renewal, hmem, hrenews⟩ := honce first p middle q rest hsplit name
      (((p.1.handleMessage_asks p.2).2 name).1.mpr hdue)
      (((q.1.handleMessage_asks q.2).2 name).1.mpr hdue')
    refine ⟨renewal.2, ?_, hrenews⟩
    have hmap := List.mem_map_of_mem (f := Prod.snd) hmem
    rwa [List.map_append] at hmap
  · intro honce before p between q after hsplit name hp hq
    have hdue := ((p.1.handleMessage_asks p.2).2 name).1.mp hp
    have hdue' := ((q.1.handleMessage_asks q.2).2 name).1.mp hq
    rw [htrace before p _ hsplit] at hdue
    rw [htrace (before ++ p :: between) q after (by simp [hsplit]), List.map_append,
      List.map_cons] at hdue'
    obtain ⟨renewal, hmem, hrenews⟩ := honce (before.map Prod.snd) p.2 (between.map Prod.snd) q.2
      (after.map Prod.snd) (by simp [lines, hsplit]) name hdue hdue'
    have hmap : renewal ∈ (between ++ [q]).map Prod.snd := by
      rwa [List.map_append]
    obtain ⟨r, hr, rfl⟩ := List.mem_map.mp hmap
    exact ⟨r, hr, hrenews⟩

/-- **A connection asks for each capability once just if every look names what was refused.** -/
theorem asksOnce_iff (c : Client) (hcaps : c.caps = .default) {inputs : List Input}
    (hup : Input.disconnected ∉ inputs) :
    AsksOnce c inputs ↔ Capabilities.NamesRefused (c.lines inputs) := by
  rw [← Capabilities.dueOnce_iff, ← once_iff_dueOnce hcaps hup]
  refine ⟨AsksOnce.once, fun honce => ⟨honce, ?_, ?_, ⟨?_, ?_⟩, ?_⟩⟩
  · exact fun p _ name => ((p.1.handleMessage_asks p.2).2 name).2
  · intro p hp name hrequests
    have hdue := ((p.1.handleMessage_asks p.2).2 name).1.mp hrequests
    rw [(p.1.handleMessage_asks p.2).1]
    exact ⟨hdue.2.1, hdue.heard.1⟩
  · intro p hp
    obtain ⟨before, after, hsplit⟩ := List.append_of_mem hp
    rw [(p.1.handleMessage_asks p.2).1, (run_caps hup).2 before p after hsplit, hcaps]
    exact Capabilities.heard_nodup (Capabilities.heardAll_nodup List.nodup_nil _) _
  · rintro before after rfl
    rw [(run_caps fun hmem => hup (List.mem_append_left _ hmem)).1, hcaps]
    exact Capabilities.heardAll_nodup List.nodup_nil _
  · intro before input after _ hserved hbytes name
    obtain ⟨-, queued, hqueued, haside⟩ := (c.run before).step_aside hserved hbytes
    rw [hqueued]
    intro hmem
    obtain ⟨line, hline, heq⟩ := List.mem_map.mp hmem
    exact wireLine_ne_reqLine_of_aside (haside line hline) name heq

/-- A server that offers two capabilities, refuses one, and makes a late offer. -/
def lateOffer (late : Str) : List Input :=
  [.connected, .bytes (Utf8.encode "CAP * LS :message-tags batch\r\n"),
    .bytes (Utf8.encode "CAP * NAK :message-tags\r\n"),
    .bytes (Utf8.encode (("CAP * NEW :" : Str) ++ late ++ ("\r\n" : Str)))]

/-- Its lines. -/
def lateLines (late : Str) : List Message :=
  [Message.new "CAP" ["*", "LS", "message-tags batch"],
    Message.new "CAP" ["*", "NAK", "message-tags"], Message.new "CAP" ["*", "NEW", late]]

omit [Primitives] in
theorem late_lasts (late : Str) : Input.disconnected ∉ lateOffer late := by simp [lateOffer]

omit [Primitives] in
/-- A capability that was refused, and is the one that is offered late. -/
theorem asksOnce_iff_named : @AsksOnce .ascii (new (.new "me")) (lateOffer "message-tags") := by
  refine (@asksOnce_iff .ascii (new (.new "me")) rfl _ (late_lasts _)).mpr ?_
  have hlines : @lines .ascii (new (.new "me")) (lateOffer "message-tags") =
      lateLines "message-tags" := by decide +kernel
  have hnamed : ∀ m ∈ lateLines "message-tags", Looks m → Advertises m "message-tags" := by
    intro m hm hlooks
    simp only [lateLines, List.mem_cons, List.not_mem_nil, or_false] at hm
    rcases hm with rfl | rfl | rfl
    · exact ⟨_, _, rfl, by decide +kernel⟩
    · obtain ⟨list, hlist⟩ := hlooks
      cases show some (CapReply.refuses "message-tags") = some (.offers list true) from hlist
    · exact ⟨_, _, rfl, by decide +kernel⟩
  have hrefused : ∀ m ∈ lateLines "message-tags", ∀ name,
      Refuses m name → name = "message-tags" := by
    rintro m hm name ⟨list, hlist, token, htoken, rfl⟩
    simp only [lateLines, List.mem_cons, List.not_mem_nil, or_false] at hm
    rcases hm with rfl | rfl | rfl
    · cases show some (CapReply.offers "message-tags batch" true) = some (.refuses list) from hlist
    · cases show some (CapReply.refuses "message-tags") = some (.refuses list) from hlist
      rw [show splitWhitespace "message-tags" = [("message-tags" : Str)] by decide,
        List.mem_singleton] at htoken
      rw [htoken]
      rfl
    · cases show some (CapReply.offers "message-tags" true) = some (.refuses list) from hlist
  rw [hlines]
  rintro _ look after hsplit hlooks name ⟨first, line, since, rfl, -, ⟨answer, hanswer, hrefuses⟩,
    -⟩
  rw [hsplit] at hnamed hrefused
  rw [hrefused answer (by simp [hanswer]) name hrefuses]
  exact hnamed look (by simp) hlooks

omit [Primitives] in
/-- **A refused capability is asked for again** when the server offers another one. -/
theorem not_asksOnce_refused : ¬ @AsksOnce .ascii (new (.new "me")) (lateOffer "away-notify") := by
  let _ := Primitives.ascii
  intro h
  have honce := (once_iff_dueOnce rfl (late_lasts _)).mp h.once
  have hlines : lines (new (.new "me")) (lateOffer "away-notify") = lateLines "away-notify" := by
    decide +kernel
  rw [hlines, Capabilities.dueOnce_iff] at honce
  have hdue : Capabilities.default.Due (Message.new "CAP" ["*", "LS", "message-tags batch"])
      "message-tags" :=
    ⟨⟨_, rfl⟩, by decide +kernel, .inl ⟨_, _, rfl, by decide +kernel⟩, by decide +kernel,
      by decide +kernel⟩
  have hnak : capReply (Message.new "CAP" ["*", "NAK", "message-tags"]) =
      some (.refuses "message-tags") := rfl
  obtain ⟨list, last, hlist, hnames⟩ := honce [_, _] _ [] rfl ⟨"away-notify", rfl⟩ "message-tags"
    ⟨[], _, [_], rfl, hdue, ⟨_, List.mem_singleton_self _, "message-tags", hnak, by decide +kernel⟩,
      fun answer hanswer => List.mem_singleton.mp hanswer ▸ not_touches_of_refuses hnak _⟩
  cases show some (CapReply.offers "away-notify" true) = some (.offers list last) from hlist
  exact absurd hnames (by decide +kernel)

end Run

end Client

end ObbyClient

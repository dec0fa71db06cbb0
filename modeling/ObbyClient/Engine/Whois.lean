import ObbyClient.Engine.Keys
import ObbyClient.Engine.Rooms

/-!
# A WHOIS reply among other lines

A record is filled in numeric by numeric, and reported when the reply ends.  In between it is held
like that of anybody else, so a departure may take it away.

* `Session.Statement` — what one numeric says, and what it makes of a record;
* `Session.StaysKnown` — what keeps a record when somebody goes away;
* `Client.Taken` — the lines that a run folds, with the clients that fold them;
* `Client.whois_reply` — the replies that are reported whole.
-/

namespace ObbyClient

namespace Session

open Model

/-! ### Numerics -/

/-- What one numeric of a reply says. -/
inductive Statement where
  | person (username host realname : Option Str)
  | server (name info : Option Str)
  | operator (text : Option Str)
  | idle (secs signonMs : Option ℕ)
  | channels (names : List Str)
  | account (name : Option Str)
  | actualHost (host : Option Str)
  | secure
  deriving DecidableEq

/-- What a statement is about. -/
inductive Subject where
  | person | server | operator | idle | channels | account | actualHost | secure
  deriving DecidableEq

namespace Statement

def subject : Statement → Subject
  | person .. => .person
  | server .. => .server
  | operator _ => .operator
  | idle .. => .idle
  | channels _ => .channels
  | account _ => .account
  | actualHost _ => .actualHost
  | secure => .secure

/-- The record with this statement entered. -/
def enter : Statement → Whois → Whois
  | person username host realname, record =>
      { record with username := username, host := host, realname := realname }
  | server name info, record => { record with server := name, serverInfo := info }
  | operator text, record => { record with operator := text }
  | idle secs signonMs, record => { record with idleSecs := secs, signonMs := signonMs }
  | channels names, record => { record with channels := names }
  | account name, record => { record with account := name }
  | actualHost host, record => { record with actualHost := host }
  | secure, record => { record with secure := true }

/-- The record says so. -/
def Holds : Statement → Whois → Prop
  | person username host realname, record =>
      record.username = username ∧ record.host = host ∧ record.realname = realname
  | server name info, record => record.server = name ∧ record.serverInfo = info
  | operator text, record => record.operator = text
  | idle secs signonMs, record => record.idleSecs = secs ∧ record.signonMs = signonMs
  | channels names, record => record.channels = names
  | account name, record => record.account = name
  | actualHost host, record => record.actualHost = host
  | secure, record => record.secure = true

theorem enter_nick (said : Statement) (record : Whois) :
    (said.enter record).nick = record.nick := by
  cases said <;> rfl

theorem enter_complete (said : Statement) (record : Whois) :
    (said.enter record).complete = record.complete := by
  cases said <;> rfl

theorem holds_enter (said : Statement) (record : Whois) : said.Holds (said.enter record) := by
  cases said with
  | person username host realname => exact ⟨rfl, rfl, rfl⟩
  | server name info => exact ⟨rfl, rfl⟩
  | idle secs signonMs => exact ⟨rfl, rfl⟩
  | _ => rfl

/-- What is said of something else leaves a statement as it stands. -/
theorem holds_enter_of_ne {said other : Statement} {record : Whois} (h : said.Holds record)
    (hne : other.subject ≠ said.subject) : said.Holds (other.enter record) := by
  cases other <;> cases said <;> first | exact absurd rfl hne | exact h

theorem holds_complete {said : Statement} {record : Whois} (h : said.Holds record) :
    said.Holds { record with complete := true } := by
  cases said <;> exact h

end Statement

/-- The record with these statements entered, in order. -/
def enterAll (record : Whois) (said : List Statement) : Whois :=
  said.foldl (fun record statement => statement.enter record) record

theorem enterAll_nick (record : Whois) (said : List Statement) :
    (enterAll record said).nick = record.nick := by
  induction said generalizing record with
  | nil => rfl
  | cons statement said ih => exact (ih _).trans (statement.enter_nick record)

theorem enterAll_complete (record : Whois) (said : List Statement) :
    (enterAll record said).complete = record.complete := by
  induction said generalizing record with
  | nil => rfl
  | cons statement said ih => exact (ih _).trans (statement.enter_complete record)

theorem enterAll_append (record : Whois) (said more : List Statement) :
    enterAll record (said ++ more) = enterAll (enterAll record said) more :=
  List.foldl_append

/-- The statements about one thing are all the same. -/
def Consistent (said : List Statement) : Prop :=
  ∀ a ∈ said, ∀ b ∈ said, a.subject = b.subject → a = b

instance (said : List Statement) : Decidable (Consistent said) :=
  inferInstanceAs (Decidable (∀ a ∈ said, ∀ b ∈ said, a.subject = b.subject → a = b))

theorem holds_enterAll_of_holds {statement : Statement} {record : Whois} {said : List Statement}
    (h : statement.Holds record)
    (hsaid : ∀ other ∈ said, other.subject = statement.subject → other = statement) :
    statement.Holds (enterAll record said) := by
  induction said generalizing record with
  | nil => exact h
  | cons other said ih =>
      refine ih ?_ fun b hb => hsaid b (List.mem_cons_of_mem _ hb)
      by_cases hsubject : other.subject = statement.subject
      · rw [hsaid other List.mem_cons_self hsubject]
        exact statement.holds_enter record
      · exact Statement.holds_enter_of_ne h hsubject

/-- **Consistent statements are all held** by the record that they are entered in. -/
theorem holds_enterAll {said : List Statement} (h : Consistent said) (record : Whois)
    {statement : Statement} (hmem : statement ∈ said) : statement.Holds (enterAll record said) := by
  obtain ⟨before, after, rfl⟩ := List.append_of_mem hmem
  rw [enterAll_append]
  show statement.Holds (enterAll (statement.enter (enterAll record before)) after)
  refine holds_enterAll_of_holds (statement.holds_enter _) ?_
  intro other hother hsubject
  refine h other ?_ statement hmem hsubject
  exact List.mem_append_right _ (List.mem_cons_of_mem _ hother)

/-- What a line says, when it is a numeric that fills in a record. -/
def statement (line : Message) : Option Statement :=
  let command := toAsciiUppercase line.command
  let text := line.trailing
  if command = "311" then some (.person (line.param 2) (line.param 3) text)
  else if command = "312" then some (.server (line.param 2) text)
  else if command = "313" then some (.operator text)
  else if command = "317" then
    some (.idle ((line.param 2).bind (parseUnsigned u64Max))
      (((line.param 3).bind (parseUnsigned u64Max)).map fun seconds => min (seconds * 1000) u64Max))
  else if command = "319" then some (.channels (splitWhitespace ((line.param 2).getD [])))
  else if command = "330" then some (.account (line.param 2))
  else if command = "338" ∨ command = "378" then
    some (.actualHost (if (line.param 3).isSome then line.param 2 else text))
  else if command = "671" then some .secure
  else none

/-- The numerics that fill in a record are those that say something, and the record is filled in
with what they say. -/
theorem statement_spec {line : Message} (h : accumulates (toAsciiUppercase line.command) = true) :
    ∃ said, statement line = some said ∧
      ∀ record, whoisField line (toAsciiUppercase line.command) record = said.enter record := by
  unfold statement whoisField
  dsimp only
  generalize toAsciiUppercase line.command = command at h ⊢
  simp only [accumulates, List.any_cons, List.any_nil, Bool.or_false, Bool.or_eq_true,
    beq_iff_eq] at h
  rcases h with rfl | rfl | rfl | rfl | rfl | rfl | rfl | rfl | rfl
  all_goals exact ⟨_, rfl, fun _ => rfl⟩

theorem statement_of_not_accumulates {line : Message}
    (h : accumulates (toAsciiUppercase line.command) = false) : statement line = none := by
  unfold statement
  dsimp only
  generalize toAsciiUppercase line.command = command at h ⊢
  simp only [accumulates, List.any_cons, List.any_nil, Bool.or_false, Bool.or_eq_false_iff,
    beq_eq_false_iff_ne] at h
  obtain ⟨h1, h2, h3, h4, h5, h6, h7, h8, h9⟩ := h
  rw [if_neg h1, if_neg h2, if_neg h3, if_neg h4, if_neg h5, if_neg h6,
    if_neg (not_or.mpr ⟨h7, h8⟩), if_neg h9]

/-! ### Departures -/

/-- Somebody else who goes away, and the channel that they leave: with none, they leave them all. -/
def departure (ctx : Context) (line : Message) : Option (CaseFolded × Option CaseFolded) :=
  if toAsciiUppercase line.command = "PART" then
    (line.param 0).bind fun name =>
      if ctx.isMe (sender line) then none else some (ctx.fold (sender line), some (ctx.fold name))
  else if toAsciiUppercase line.command = "QUIT" then some (ctx.fold (sender line), none)
  else if toAsciiUppercase line.command = "KICK" then
    (line.param 0).bind fun name => (line.param 1).bind fun target =>
      if ctx.isMe target then none else some (ctx.fold target, some (ctx.fold name))
  else none

/-- We have a conversation with somebody, or share a channel with them other than by the membership
that ends. -/
def StaysKnown (model : Model) (who : CaseFolded) (left : Option CaseFolded) (key : CaseFolded) :
    Prop :=
  model.conversations.contains key = true ∨
    ∃ name channel, model.channel name = some channel ∧ key ∈ channel.members ∧
      ¬(key = who ∧ ∀ other, left = some other → other = name)

theorem isAcquainted_iff {model : Model} {key : CaseFolded} :
    model.isAcquainted key = true ↔ model.conversations.contains key = true ∨
      ∃ name channel, model.channel name = some channel ∧ key ∈ channel.members := by
  unfold isAcquainted
  rw [Bool.or_eq_true, List.any_eq_true]
  refine or_congr_right ?_
  constructor
  · rintro ⟨p, hp, hmember⟩
    exact ⟨p.1, p.2, Std.ExtTreeMap.mem_toList_iff_getElem?_eq_some.mp hp,
      Std.ExtTreeMap.mem_iff_contains.mpr hmember⟩
  · rintro ⟨name, channel, hchannel, hmember⟩
    exact ⟨(name, channel), Std.ExtTreeMap.mem_toList_iff_getElem?_eq_some.mpr hchannel,
      Std.ExtTreeMap.mem_iff_contains.mp hmember⟩

theorem mem_erase_iff {members : Std.ExtTreeMap CaseFolded Membership} {who key : CaseFolded} :
    key ∈ members.erase who ↔ key ≠ who ∧ key ∈ members := by
  rw [Std.ExtTreeMap.mem_erase, ne_eq, Std.LawfulEqCmp.compare_eq_iff_eq, eq_comm (a := who)]

/-- Who stays known when somebody leaves a channel. -/
theorem isAcquainted_left {model : Model} {folded who key : CaseFolded} :
    (model.channelMut folded fun channel =>
      { channel with members := channel.members.erase who }).isAcquainted key = true ↔
        StaysKnown model who (some folded) key := by
  rw [isAcquainted_iff]
  refine or_congr_right ?_
  constructor
  · rintro ⟨name, channel, hchannel, hmember⟩
    rcases Maps.getElem?_modify_eq_some.mp hchannel with ⟨rfl, before, hbefore, rfl⟩ | ⟨hname,
      hbefore⟩
    · obtain ⟨hne, hmember⟩ := mem_erase_iff.mp hmember
      exact ⟨name, before, hbefore, hmember, fun h => hne h.1⟩
    · exact ⟨name, channel, hbefore, hmember, fun h => hname (h.2 folded rfl).symm⟩
  · rintro ⟨name, channel, hchannel, hmember, hstays⟩
    by_cases hname : name = folded
    · subst hname
      refine ⟨name, _, Maps.getElem?_modify_eq_some.mpr (.inl ⟨rfl, channel, hchannel, rfl⟩), ?_⟩
      refine mem_erase_iff.mpr ⟨?_, hmember⟩
      rintro rfl
      exact hstays ⟨rfl, fun other hother => (Option.some.inj hother).symm⟩
    · exact ⟨name, channel, Maps.getElem?_modify_eq_some.mpr (.inr ⟨hname, hchannel⟩), hmember⟩

/-- Who stays known when somebody leaves every channel. -/
theorem isAcquainted_quit {model : Model} {who key : CaseFolded} :
    (model.removeEverywhere who).1.isAcquainted key = true ↔ StaysKnown model who none key := by
  have hget : ∀ name : CaseFolded, (model.removeEverywhere who).1.channel name =
      (model.channel name).map fun channel =>
        { channel with members := channel.members.erase who } := by
    intro name
    show (model.channels.map _)[name]? = _
    rw [Std.ExtTreeMap.getElem?_map]
    rfl
  rw [isAcquainted_iff]
  refine or_congr_right ?_
  constructor
  · rintro ⟨name, channel, hchannel, hmember⟩
    rw [hget, Option.map_eq_some_iff] at hchannel
    obtain ⟨before, hbefore, rfl⟩ := hchannel
    obtain ⟨hne, hmember⟩ := mem_erase_iff.mp hmember
    exact ⟨name, before, hbefore, hmember, fun h => hne h.1⟩
  · rintro ⟨name, channel, hchannel, hmember, hstays⟩
    refine ⟨name, { channel with members := channel.members.erase who }, ?_, ?_⟩
    · rw [hget, hchannel]
      rfl
    · refine mem_erase_iff.mpr ⟨?_, hmember⟩
      rintro rfl
      exact hstays ⟨rfl, fun other hother => nomatch hother⟩

/-- **What a line that is no WHOIS numeric does to the records**: nothing, but when somebody else
goes away the records of strangers go too. -/
theorem apply_whois [Primitives] (ctx : Context) {line : Message}
    (h : isWhois (toAsciiUppercase line.command) = false) :
    (departure ctx line = none ∧ (apply ctx line).1.model.whois = ctx.model.whois) ∨
      ∃ (who : CaseFolded) (left : Option CaseFolded) (stays : CaseFolded → Bool),
        departure ctx line = some (who, left) ∧
          (apply ctx line).1.model.whois = ctx.model.whois.filter (fun key _ => stays key) ∧
          ∀ key, stays key = true ↔ StaysKnown ctx.model who left key := by
  unfold departure
  by_cases hpart : toAsciiUppercase line.command = "PART"
  · rw [if_pos hpart, apply_of_handles ctx hpart .part]
    unfold part
    cases line.param 0 with
    | none => exact .inl ⟨rfl, rfl⟩
    | some name =>
        dsimp only [Option.bind_some]
        by_cases hme : ctx.isMe (sender line) = true
        · rw [if_pos hme, if_pos hme]
          exact .inl ⟨rfl, rfl⟩
        · rw [if_neg hme, if_neg hme]
          exact .inr ⟨_, _, _, rfl, rfl, fun _ => isAcquainted_left⟩
  rw [if_neg hpart]
  by_cases hquit : toAsciiUppercase line.command = "QUIT"
  · rw [if_pos hquit, apply_of_handles ctx hquit .quit]
    exact .inr ⟨_, _, _, rfl, rfl, fun _ => isAcquainted_quit⟩
  rw [if_neg hquit]
  by_cases hkick : toAsciiUppercase line.command = "KICK"
  · rw [if_pos hkick, apply_of_handles ctx hkick .kick]
    unfold kick
    cases line.param 0 with
    | none => exact .inl ⟨rfl, rfl⟩
    | some name =>
        cases line.param 1 with
        | none => exact .inl ⟨rfl, rfl⟩
        | some target =>
            dsimp only [Option.bind_some]
            by_cases hme : ctx.isMe target = true
            · rw [if_pos hme, if_pos hme]
              exact .inl ⟨rfl, rfl⟩
            · rw [if_neg hme, if_neg hme]
              exact .inr ⟨_, _, _, rfl, rfl, fun _ => isAcquainted_left⟩
  rw [if_neg hkick]
  refine .inl ⟨rfl, ?_⟩
  by_cases hrename : toAsciiUppercase line.command = "RENAME"
  · rcases apply_rename ctx line hrename with ⟨hsame, -⟩ | ⟨source, dest, model, -, -, hmodel,
      hsame⟩
    · rw [hsame]
    · rw [hsame]
      obtain ⟨channel, -, rfl⟩ := Option.map_eq_some_iff.mp hmodel
      rfl
  · refine (apply_stands ctx line ?_ h).whois
    unfold departs
    simp only [Bool.or_eq_false_iff, beq_eq_false_iff_ne]
    exact ⟨⟨⟨hpart, hquit⟩, hkick⟩, hrename⟩

/-! ### The record -/

/-- A record that a reply starts from: a blank one, or the unfinished one that was there. -/
structure Start (own : Option Whois) (start : Whois) : Prop where
  unfinished : start.complete = false
  named : start.nick ≠ []
  origin : (∃ name, start = .new name) ∨ own = some start

/-- What is held under this key of a reply that said so much. -/
inductive Filled (own : Option Whois) (key : CaseFolded)
    (records : Std.ExtTreeMap CaseFolded Whois) :
    List Statement → Prop
  | unsaid (hroom : records.size < maxWhoisRecords)
      (h : records[key]? = none ∨ records[key]? = own) : Filled own key records []
  | said {said : List Statement} {start : Whois} (hne : said ≠ []) (hstart : Start own start)
      (h : records[key]? = some (enterAll start said)) : Filled own key records said

theorem Filled.start {own : Option Whois} {key : CaseFolded}
    {records : Std.ExtTreeMap CaseFolded Whois} {said : List Statement}
    (h : Filled own key records said)
    (hne : said ≠ []) : ∃ start, Start own start ∧ records[key]? = some (enterAll start said) := by
  cases h with
  | unsaid => exact absurd rfl hne
  | said _ hstart h => exact ⟨_, hstart, h⟩

theorem makeRoomForWhois_eq {model : Model} {key : CaseFolded}
    (h : model.whois.size < maxWhoisRecords ∨ key ∈ model.whois) :
    model.makeRoomForWhois key = model.whois := by
  unfold makeRoomForWhois
  refine if_neg ?_
  rintro ⟨hfull, hout⟩
  rcases h with h | h
  · exact absurd h (Nat.not_lt.mpr hfull)
  · rw [Std.ExtTreeMap.mem_iff_contains] at h
    rw [h] at hout
    cases hout

/-- The record that the next numeric is entered in. -/
theorem Filled.current {own : Option Whois} {key : CaseFolded} {model : Model}
    {said : List Statement}
    (h : Filled own key model.whois said) {name : Str} (hname : name ≠ []) (f : Whois → Whois) :
    ∃ start, Start own start ∧
      (model.whoisOrInsert key name f).whois[key]? = some (f (enterAll start said)) := by
  have hget : ∀ (records : Std.ExtTreeMap CaseFolded Whois) (record : Whois),
      (records.insert key record)[key]? = some record :=
    fun records record => Std.ExtTreeMap.getElem?_insert_self
  cases h with
  | unsaid hroom h =>
      unfold whoisOrInsert
      dsimp only
      rw [makeRoomForWhois_eq (.inl hroom), hget]
      by_cases hstale : (model.whois[key]?.getD (.new [])).complete = true ∨
          (model.whois[key]?.getD (.new [])).nick = []
      · rw [if_pos hstale]
        exact ⟨.new name, ⟨rfl, hname, .inl ⟨name, rfl⟩⟩, rfl⟩
      · rw [if_neg hstale]
        rw [not_or, Bool.not_eq_true] at hstale
        cases hrecord : model.whois[key]? with
        | none =>
            rw [hrecord] at hstale
            exact absurd rfl hstale.2
        | some record =>
            rw [hrecord] at hstale h
            refine ⟨record, ⟨hstale.1, hstale.2, .inr ?_⟩, rfl⟩
            rcases h with h | h
            · cases h
            · exact h.symm
  | said hne hstart h =>
      rename_i start
      unfold whoisOrInsert
      dsimp only
      have hmem : key ∈ model.whois := by
        rw [Std.ExtTreeMap.mem_iff_isSome_getElem?, h]
        rfl
      rw [makeRoomForWhois_eq (.inr hmem), hget, h, Option.getD_some, enterAll_complete,
        enterAll_nick, hstart.unfinished, if_neg (by simp [hstart.named])]
      exact ⟨start, hstart, rfl⟩

/-- **A numeric fills in the record.** -/
theorem apply_numeric [Primitives] (ctx : Context) {line : Message} {own : Option Whois}
    {key : CaseFolded} {said : List Statement} (h : Filled own key ctx.model.whois said)
    (hline : accumulates (toAsciiUppercase line.command) = true) {name : Str}
    (hparam : line.param 1 = some name) (hname : name ≠ []) (hkey : ctx.fold name = key) :
    Filled own key (apply ctx line).1.model.whois (said ++ (statement line).toList) := by
  obtain ⟨statement', hstatement, hfield⟩ := statement_spec hline
  have hnot : toAsciiUppercase line.command ≠ "318" := by
    intro heq
    rw [heq] at hline
    exact absurd hline (by decide)
  have hwhois : isWhois (toAsciiUppercase line.command) = true := by
    unfold isWhois
    rw [hline]
    rfl
  obtain ⟨start, hstart, hrecord⟩ :=
    h.current hname (whoisField line (toAsciiUppercase line.command))
  have hresult : (apply ctx line).1.model =
      ctx.model.whoisOrInsert key name (whoisField line (toAsciiUppercase line.command)) := by
    rw [apply_of_handles ctx rfl (.whois hwhois)]
    unfold whois
    rw [hparam]
    dsimp only
    rw [if_neg hnot, hkey]
    rfl
  rw [hstatement, hresult]
  refine .said (by simp) hstart ?_
  rw [hrecord, hfield, enterAll_append]
  rfl

/-- **Another line leaves it** as it is, when whoever goes away leaves its owner known. -/
theorem apply_other [Primitives] (ctx : Context) {line : Message} {own : Option Whois}
    {key : CaseFolded} {said : List Statement} (h : Filled own key ctx.model.whois said)
    (hline : isWhois (toAsciiUppercase line.command) = false)
    (hknown : said ≠ [] → ∀ who left, departure ctx line = some (who, left) →
      StaysKnown ctx.model who left key) :
    Filled own key (apply ctx line).1.model.whois (said ++ (statement line).toList) := by
  have hsaid : statement line = none := by
    refine statement_of_not_accumulates ?_
    rw [isWhois, Bool.or_eq_false_iff] at hline
    exact hline.1
  rw [hsaid, Option.toList_none, List.append_nil]
  rcases apply_whois ctx hline with ⟨-, hsame⟩ | ⟨who, left, stays, hleft, hsame, hstays⟩
  · rw [hsame]
    exact h
  · rw [hsame]
    have hget : (ctx.model.whois.filter fun key _ => stays key)[key]? =
        (ctx.model.whois[key]?).filter fun _ => stays key := Std.ExtTreeMap.getElem?_filter'
    cases h with
    | unsaid hroom h =>
        refine .unsaid (Nat.lt_of_le_of_lt Std.ExtTreeMap.size_filter_le_size hroom) ?_
        rw [hget]
        rcases h with h | h
        · rw [h]
          exact .inl rfl
        · cases hkept : stays key with
          | true =>
              rw [h]
              exact .inr (by cases own <;> rfl)
          | false => exact .inl (by cases ctx.model.whois[key]? <;> rfl)
    | said hne hstart h =>
        refine .said hne hstart ?_
        rw [hget, h, Option.filter_some, if_pos ((hstays key).mpr (hknown hne who left hleft))]

/-- The end of a reply reports what is held. -/
theorem apply_end [Primitives] (ctx : Context) {line : Message} {name : Str} {record : Whois}
    (hline : toAsciiUppercase line.command = "318") (hparam : line.param 1 = some name)
    (h : ctx.model.whois[ctx.fold name]? = some record) :
    (apply ctx line).2 = [.whoisReceived name] ∧
      (apply ctx line).1.model.whois[ctx.fold name]? = some { record with complete := true } := by
  rw [apply_of_handles ctx hline (.whois (by decide))]
  unfold whois
  rw [hparam]
  dsimp only
  rw [if_pos rfl, h]
  exact ⟨rfl, Std.ExtTreeMap.getElem?_insert_self⟩

end Session

namespace Client

open Session

/-! ### Everything that a run folds -/

section Taken

variable [Primitives]

/-- The lines that a run folds, each with the client that folds it. -/
def taken (c : Client) (inputs : List Input) : List (Client × Message) :=
  (c.deeds inputs).flatMap Deed.delivers

theorem mem_of_host {c d : Client} {input : Input} {inputs : List Input}
    (h : Deed.host d input ∈ c.deeds inputs) : input ∈ inputs := by
  induction inputs generalizing c with
  | nil => cases h
  | cons first inputs ih =>
      rw [deeds, List.mem_append] at h
      rcases h with h | h
      · cases first with
        | bytes data =>
            obtain ⟨p, -, hp⟩ := List.mem_map.mp h
            cases hp
        | _ =>
            cases List.mem_singleton.mp h
            exact List.mem_cons_self
      · exact List.mem_cons_of_mem _ (ih h)

omit [Primitives] in
theorem blind_whois (records : Std.ExtTreeMap CaseFolded Whois) :
    Blind fun b => b.model.whois = records := fun _ _ _ _ h => h

/-- A line that a handler claims leaves the records alone. -/
theorem handleMessage_whois (c : Client) {message : Message} (h : claims message = true) :
    (c.handleMessage message).model.whois = c.model.whois := by
  refine handleMessage_keeps_bearing (blind_whois c.model.whois) c message (fun _ _ hb =>
    hb) ?_ ?_ ?_ rfl
  · intro _ hb
    rw [handleIsupport_bearing]
    exact hb
  · intro d _ hd hb
    obtain ⟨state, target, source, -, -, -, hbearing⟩ := handleTyping_bearing hd
    rw [hbearing]
    exact (setTyping_stands _ _ _ _).whois.trans hb
  · intro p historical hp
    rw [delivered_of_claims _ h] at hp
    cases hp

/-- So does the host, but when it reports the connection lost. -/
theorem step_whois (c : Client) {input : Input} (hbytes : ∀ data, input ≠ .bytes data)
    (hconn : input ≠ .disconnected) : (c.step input).model.whois = c.model.whois := by
  refine step_keeps_bearing (blind_whois c.model.whois) c hbytes (fun h => absurd h hconn) ?_
    (fun _ _ _ hb => hb) ?_ rfl
  · intro now _ hb
    refine tick_keeps (P := fun model => model.whois = c.model.whois) ?_ c now hb
    intro model target who hmodel
    exact (setTyping_stands model target who false).whois.trans hmodel
  · intro line hline hb
    rw [bearing, fold_eq]
    refine Eq.trans (apply_stands _ _ ?_ ?_).whois hb
    · rcases hline with hline | hline
      · rw [hline]
        decide
      · rw [hline]
        decide
    · rcases hline with hline | hline
      · rw [hline]
        decide
      · rw [hline]
        decide

/-- **What every line that is folded adds to, a run adds to**, when it reads the records only. -/
theorem run_taken {Q : List (Client × Message) → Client → Prop}
    (hsame : ∀ done c d, d.model.whois = c.model.whois → Q done c → Q done d)
    (hfold : ∀ done p historical, Q done p.1 → Q (done ++ [p]) (p.1.fold p.2 historical))
    {c : Client} (h : Q [] c) (inputs : List Input) (hconn : Input.disconnected ∉ inputs) :
    Q (c.taken inputs) (c.run inputs) := by
  refine run_along (C := fun _ deed => ∀ d, deed ≠ .host d .disconnected)
    (P := fun seen d => Q (seen.flatMap Deed.delivers) d) ?_ ?_ ?_ h inputs ?_
  · intro seen d held discarding dropped hd
    exact hsame _ d _ rfl hd
  · intro seen d message _ hd
    have hnoted : Q (seen.flatMap Deed.delivers) (d.noted message) := hsame _ d _ rfl hd
    rw [List.flatMap_append, List.flatMap_singleton]
    show Q (_ ++ (d.noted message).delivered message) _
    by_cases hclaims : claims message = true
    · rw [delivered_of_claims _ hclaims, List.append_nil]
      exact hsame _ d _ (d.handleMessage_whois hclaims) hd
    · rw [Bool.not_eq_true] at hclaims
      rw [handleMessage_eq]
      refine dispatch_delivers (Q := fun more e => Q (seen.flatMap Deed.delivers ++ more) e)
        (d.noted message) hclaims ?_ ?_
      · intro batches
        rw [List.append_nil]
        exact hsame _ (d.noted message) _ rfl hnoted
      · intro done p historical _ hp
        rw [← List.append_assoc]
        exact hfold _ p historical hp
  · intro seen d input hbytes hdeed hd
    rw [List.flatMap_append, List.flatMap_singleton]
    show Q (_ ++ []) _
    rw [List.append_nil]
    refine hsame _ d _ (d.step_whois hbytes ?_) hd
    rintro rfl
    exact hdeed d rfl
  · refine along_of_forall (C := fun deed => ∀ d, deed ≠ .host d .disconnected) ?_
    rintro deed hdeed d rfl
    exact hconn (mem_of_host hdeed)

end Taken

/-! ### Replies -/

/-- What these lines say, as far as they are numerics of a reply. -/
def statements (lines : List (Client × Message)) : List Statement :=
  lines.filterMap fun p => statement p.2

/-- Lines among which every WHOIS numeric is about one nick, and the one that ends the reply. -/
structure Reply (nick : Str) (lines : List (Client × Message)) (close : Client × Message) :
    Prop where
  numerics : ∀ p ∈ lines, isWhois (toAsciiUppercase p.2.command) = true →
    accumulates (toAsciiUppercase p.2.command) = true ∧
      ∃ name, p.2.param 1 = some name ∧ p.1.isupport.fold name = p.1.isupport.fold nick
  ends : toAsciiUppercase close.2.command = "318"
  about : close.2.param 1 = some nick

/-- A reply that says something, of each thing but one, about a nick that folds to the same key
throughout, and that stays known whenever somebody else goes away once something is said. -/
structure Undisturbed (nick : Str) (lines : List (Client × Message)) (close : Client × Message) :
    Prop where
  named : nick ≠ []
  said : statements lines ≠ []
  consistent : Consistent (statements lines)
  steady : ∀ p ∈ lines, accumulates (toAsciiUppercase p.2.command) = true →
    p.1.isupport.fold nick = close.1.isupport.fold nick
  known : ∀ before p after, lines = before ++ p :: after → statements before ≠ [] →
    ∀ who left, departure (p.1.context false) p.2 = some (who, left) →
      StaysKnown p.1.model who left (close.1.isupport.fold nick)

/-- The end of a reply is reported once, and the record then holds all that was said, entered in a
blank one or in the unfinished one that was there. -/
structure Whole [Primitives] (own : Option Whois) (nick : Str) (lines : List (Client × Message))
    (close : Client × Message) (historical : Bool) : Prop where
  told : (close.1.fold close.2 historical).events =
    close.1.events ++ [.modelChanged (.whoisReceived nick)]
  record : ∃ start, Start own start ∧
    (close.1.fold close.2 historical).model.whois[close.1.isupport.fold nick]? =
      some { enterAll start (statements lines) with complete := true } ∧
    ∀ said ∈ statements lines,
      said.Holds { enterAll start (statements lines) with complete := true }

section Replies

variable [Primitives]

omit [Primitives] in
theorem fold_eq_nil {i : Isupport} {name nick : Str} (h : i.fold name = i.fold nick)
    (hname : name = []) :
    nick = [] := by
  subst hname
  exact (List.map_eq_nil_iff.mp (congrArg CaseFolded.asStr h).symm)

/-- **One line of a reply** fills in the record, or leaves it as it is. -/
theorem fold_filled {nick : Str} {lines before after : List (Client × Message)}
    {p close : Client × Message} (hreply : Reply nick lines close)
    (hund : Undisturbed nick lines close)
    (hlines : lines = before ++ p :: after) (historical : Bool) {own : Option Whois}
    (h : Filled own (close.1.isupport.fold nick) p.1.model.whois (statements before)) :
    Filled own (close.1.isupport.fold nick) (p.1.fold p.2 historical).model.whois
      (statements (before ++ [p])) := by
  have hmem : p ∈ lines := by
    rw [hlines]
    exact List.mem_append_right _ List.mem_cons_self
  have hstatements : statements (before ++ [p]) = statements before ++ (statement p.2).toList := by
    unfold statements
    rw [List.filterMap_append]
    cases hsaid : statement p.2 with
    | none => rw [List.filterMap_cons_none (by exact hsaid), List.filterMap_nil, Option.toList_none]
    | some said => rw [List.filterMap_cons_some (by exact hsaid), List.filterMap_nil,
        Option.toList_some]
  rw [hstatements, fold_eq]
  show Filled own _ (apply (p.1.context historical) p.2).1.model.whois _
  by_cases hwhois : isWhois (toAsciiUppercase p.2.command) = true
  · obtain ⟨hnumeric, name, hparam, hname⟩ := hreply.numerics p hmem hwhois
    refine apply_numeric (p.1.context historical) h hnumeric hparam ?_ ?_
    · exact fun hnil => hund.named (fold_eq_nil hname hnil)
    · exact hname.trans (hund.steady p hmem hnumeric)
  · rw [Bool.not_eq_true] at hwhois
    refine apply_other (p.1.context historical) h hwhois ?_
    intro hsaid who left hleft
    exact hund.known before p after hlines hsaid who left hleft

/-- **WHOIS replies survive interleaving**, whatever else is said, done or told meanwhile, when the
nick stays known through every departure. -/
theorem whois_reply (c : Client) (hroom : c.model.whois.size < maxWhoisRecords)
    (inputs : List Input)
    (hconn : Input.disconnected ∉ inputs) {nick : Str} {lines rest : List (Client × Message)}
    {close : Client × Message} (htaken : c.taken inputs = lines ++ close :: rest)
    (hreply : Reply nick lines close) (hund : Undisturbed nick lines close) (historical : Bool) :
    Whole c.model.whois[close.1.isupport.fold nick]? nick lines close historical := by
  generalize hkey : close.1.isupport.fold nick = key
  -- the record is followed up to the end of the reply, and found in the client that folds it
  have hrun := run_taken
    (Q := fun done d =>
      (∀ before p after, done = before ++ p :: after → before <+: lines →
        Filled c.model.whois[key]? key p.1.model.whois (statements before)) ∧
      (done <+: lines → Filled c.model.whois[key]? key d.model.whois (statements done)))
    (c := c) ?_ ?_ ?_ inputs hconn
  · have hfilled := hrun.1 lines close rest htaken (List.prefix_refl _)
    obtain ⟨start, hstart, hrecord⟩ := hfilled.start hund.said
    rw [← hkey] at hrecord
    obtain ⟨htold, hheld⟩ := apply_end (close.1.context historical) hreply.ends hreply.about hrecord
    refine ⟨?_, start, hstart, ?_, ?_⟩
    · rw [fold_eq]
      dsimp only
      rw [htold]
      rfl
    · rw [fold_eq]
      exact hheld
    · intro said hmem
      exact Statement.holds_complete (holds_enterAll hund.consistent start hmem)
  · rintro done d e hsame ⟨hbefore, hnow⟩
    exact ⟨hbefore, fun hprefix => by rw [hsame]; exact hnow hprefix⟩
  · rintro done p historical ⟨hbefore, hnow⟩
    refine ⟨?_, ?_⟩
    · intro before q after hdone hprefix
      rcases List.append_eq_append_iff.mp hdone with ⟨more, hmore, hrest⟩ | ⟨more, hmore, hrest⟩
      · cases more with
        | nil =>
            obtain ⟨rfl, -⟩ := List.cons_eq_cons.mp hrest
            rw [hmore, List.append_nil]
            rw [hmore, List.append_nil] at hprefix
            exact hnow hprefix
        | cons first more => simp at hrest
      · cases more with
        | nil =>
            obtain ⟨rfl, -⟩ := List.cons_eq_cons.mp hrest
            rw [List.append_nil] at hmore
            subst hmore
            exact hnow hprefix
        | cons first more =>
            obtain ⟨rfl, -⟩ := List.cons_eq_cons.mp hrest
            exact hbefore before _ more hmore hprefix
    · intro hprefix
      obtain ⟨after, hafter⟩ := hprefix
      rw [List.append_assoc] at hafter
      have hfilled := hnow ⟨_, hafter⟩
      rw [← hkey] at hfilled ⊢
      exact fold_filled hreply hund hafter.symm historical hfilled
  · refine ⟨?_, ?_⟩
    · intro before p after hnil
      cases before <;> cases hnil
    · exact fun _ => .unsaid hroom (.inr rfl)

/-- True of a line that is no WHOIS numeric, or one about this nick. -/
def keepsTo (nick : Str) (p : Client × Message) : Bool :=
  !isWhois (toAsciiUppercase p.2.command) ||
    (accumulates (toAsciiUppercase p.2.command) &&
      (p.2.param 1).any fun name => p.1.isupport.fold name == p.1.isupport.fold nick)

/-- True of lines of which the last ends a reply about this nick. -/
def endsReply (nick : Str) (lines : List (Client × Message)) : Bool :=
  lines.dropLast.all (keepsTo nick) && lines.getLast?.any fun close =>
    toAsciiUppercase close.2.command == "318" && close.2.param 1 == some nick

omit [Primitives] in
theorem reply_of_endsReply {nick : Str} {lines : List (Client × Message)}
    (h : endsReply nick lines = true) :
    ∃ close ∈ lines, lines = lines.dropLast ++ [close] ∧ Reply nick lines.dropLast close := by
  rw [endsReply, Bool.and_eq_true, Option.any_eq_true] at h
  obtain ⟨hkeeps, close, hclose, hend⟩ := h
  rw [Bool.and_eq_true, beq_iff_eq, beq_iff_eq] at hend
  refine ⟨close, List.mem_of_getLast? hclose, (List.dropLast_append_getLast? close hclose).symm,
    ?_, hend.1, hend.2⟩
  intro p hp hwhois
  have hkeep := List.all_eq_true.mp hkeeps p hp
  unfold keepsTo at hkeep
  rw [hwhois, Bool.not_true, Bool.false_or, Bool.and_eq_true, Option.any_eq_true] at hkeep
  obtain ⟨hnumeric, name, hparam, hname⟩ := hkeep
  exact ⟨hnumeric, name, hparam, beq_iff_eq.mp hname⟩

end Replies

/-- Somebody quits in the middle of a reply about one we have a conversation with. -/
theorem whois_reply_known : letI := Primitives.ascii
    let c := (new (.new "me")).run [.connected, .bytes (Utf8.encode
      ":s 001 me :hi\n:bob!u@h PRIVMSG me :hello\n")]
    ∃ lines close, c.taken [.bytes (Utf8.encode
        ":s 311 me bob u h * :Bob\n:alice QUIT\n:s 313 me bob :an operator\n:s 318 me bob :End\n")] =
          lines ++ [close] ∧
      statements lines = [.person (some "u") (some "h") (some "Bob"),
        .operator (some "an operator")] ∧
      Whole c.model.whois[close.1.isupport.fold "bob"]? "bob" lines close false := by
  let _ := Primitives.ascii
  intro c
  let taken := c.taken [.bytes (Utf8.encode
    ":s 311 me bob u h * :Bob\n:alice QUIT\n:s 313 me bob :an operator\n:s 318 me bob :End\n")]
  have hrun : endsReply "bob" taken = true ∧
      taken.all (fun p => p.1.isupport.fold "bob" == ⟨"bob"⟩ &&
        p.1.model.conversations.contains ⟨"bob"⟩) = true ∧
      statements taken.dropLast =
        [.person (some "u") (some "h") (some "Bob"), .operator (some "an operator")] := by
    decide +kernel
  obtain ⟨hends, hknown, hsaid⟩ := hrun
  obtain ⟨close, hmem, hlines, hreply⟩ := reply_of_endsReply hends
  have hfold : ∀ p ∈ taken, p.1.isupport.fold "bob" = ⟨"bob"⟩ ∧
      p.1.model.conversations.contains ⟨"bob"⟩ = true := by
    intro p hp
    have hboth := List.all_eq_true.mp hknown p hp
    rwa [Bool.and_eq_true, beq_iff_eq] at hboth
  refine ⟨_, close, hlines, hsaid, whois_reply c (by decide +kernel) _ (by simp) hlines hreply
    ⟨by decide, ?_, ?_, ?_, ?_⟩ false⟩
  · rw [hsaid]
    decide
  · rw [hsaid]
    decide
  · intro p hp _
    rw [(hfold p (List.dropLast_subset _ hp)).1, (hfold close hmem).1]
  · intro before p after hsplit _ who left _
    rw [(hfold close hmem).1]
    refine .inl (hfold p (List.dropLast_subset _ ?_)).2
    rw [hsplit]
    exact List.mem_append_right _ List.mem_cons_self

/-- **The record of a stranger goes** when anybody quits in the middle of the reply, which then ends
unreported, and of what a reply says twice of one thing only the last is held. -/
theorem whois_reply_lost : letI := Primitives.ascii
    let c := (new (.new "me")).run [.connected, .bytes (Utf8.encode ":s 001 me :hi\n")]
    let lost := c.taken [.bytes (Utf8.encode
      ":s 311 me bob u h * :Bob\n:alice QUIT\n:s 318 me bob :End\n")]
    let twice := c.taken [.bytes (Utf8.encode
      ":s 319 me bob :#a\n:s 319 me bob :#b\n:s 318 me bob :End\n")]
    c.Reachable ∧ c.model.whois.size < maxWhoisRecords ∧
      (∃ lines close, lost = lines ++ [close] ∧ Reply "bob" lines close ∧
        ¬ Whole c.model.whois[close.1.isupport.fold "bob"]? "bob" lines close false) ∧
      ∃ lines close, twice = lines ++ [close] ∧ Reply "bob" lines close ∧
        ¬ Whole c.model.whois[close.1.isupport.fold "bob"]? "bob" lines close false := by
  let _ := Primitives.ascii
  intro c lost twice
  have hlost : endsReply "bob" lost = true := by decide +kernel
  have htwice : endsReply "bob" twice = true := by decide +kernel
  -- what is held once the reply ended
  have hgone : lost.all (fun p => toAsciiUppercase p.2.command != "318" ||
      (p.1.fold p.2 false).model.whois[p.1.isupport.fold "bob"]?.isNone) = true := by
    decide +kernel
  have hheld : twice.all (fun p => toAsciiUppercase p.2.command != "318" ||
      (p.1.fold p.2 false).model.whois[p.1.isupport.fold "bob"]?.all fun record =>
        record.channels == ([("#b" : Str)] : List Str)) = true := by
    decide +kernel
  refine ⟨⟨.new "me", _, rfl⟩, by decide +kernel, ?_, ?_⟩
  · obtain ⟨close, hmem, hlines, hreply⟩ := reply_of_endsReply hlost
    refine ⟨_, close, hlines, hreply, ?_⟩
    rintro ⟨-, start, -, hrecord, -⟩
    have hnone := List.all_eq_true.mp hgone close hmem
    rw [hreply.ends, bne_self_eq_false, Bool.false_or, hrecord] at hnone
    cases hnone
  · obtain ⟨close, hmem, hlines, hreply⟩ := reply_of_endsReply htwice
    refine ⟨_, close, hlines, hreply, ?_⟩
    rintro ⟨-, start, -, hrecord, hholds⟩
    have hlast := List.all_eq_true.mp hheld close hmem
    rw [hreply.ends, bne_self_eq_false, Bool.false_or, hrecord, Option.all_some,
      beq_iff_eq] at hlast
    have hfirst : Statement.channels [("#a" : Str)] ∈ statements twice.dropLast := by decide +kernel
    have hsame := hlast.symm.trans (hholds _ hfirst)
    exact absurd hsame (by decide)

end Client

end ObbyClient

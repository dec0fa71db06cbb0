import ObbyClient.Engine.Keys

/-!
# What a reconnect asks for again

When the server welcomes us, the client asks for everything the model says it had: the channels,
what was said in them meanwhile, and the people it watches.

* `Client.Replays` — lines that ask for all of it, once each;
* `Client.resume_iff` — when the lines queued do.
-/

namespace ObbyClient

namespace MessageLog

/-- The id of the newest message that has one. -/
def newestId (log : MessageLog) : Option Str := log.iter.reverse.findSome? ChatMessage.msgid

theorem last_eq (log : MessageLog) : log.last = log.iter.reverse.head? := by
  unfold last iter
  rw [TopKeys.maxEntry?_eq, List.head?_reverse, List.getLast?_map]

/-- The last message has the newest id, or there is a message with an id and the last has none. -/
theorem last_msgid_iff (log : MessageLog) {id : Str} (hid : log.newestId = some id) :
    log.last.bind ChatMessage.msgid = some id ↔ (log.last.bind ChatMessage.msgid).isSome =
      true := by
  rw [last_eq]
  unfold newestId at hid
  cases hlist : log.iter.reverse with
  | nil =>
      rw [hlist] at hid
      cases hid
  | cons message rest =>
      rw [hlist, List.findSome?_cons] at hid
      show message.msgid = some id ↔ message.msgid.isSome = true
      cases hmsgid : message.msgid with
      | none => simp
      | some own =>
          rw [hmsgid] at hid
          exact iff_of_true hid rfl

theorem newestId_eq_none {log : MessageLog} :
    log.newestId = none ↔ ∀ message ∈ log.iter, message.msgid = none := by
  unfold newestId
  rw [List.findSome?_eq_none_iff]
  simp only [List.mem_reverse]

end MessageLog

namespace Client

open Model

/-! ### The lines -/

/-- True for a line that enters this channel. -/
def enters (name : Str) (line : Message) : Bool :=
  line.command == "JOIN" && line.param 0 == some name

/-- True for a line that asks for what was said in this channel. -/
def asksHistory (name : Str) (line : Message) : Bool :=
  line.command == "CHATHISTORY" && line.param 1 == some name

/-- True for a line about whom to watch. -/
def watches (line : Message) : Bool := line.command == "MONITOR"

/-- The comma-separated targets of such a line. -/
def monitorTargets (line : Message) : List Str := ((line.param 1).map (·.splitOn ',')).getD []

/-- The line that asks for what was said in a channel after this message. -/
def historyLine (name id : Str) : Message :=
  Message.new "CHATHISTORY" ["AFTER", name, ("msgid=" : Str) ++ id, "100"]

/-- The key that was last given for this channel. -/
def lastKey (i : Isupport) (names : List (Str × Str)) (channel : Str) : Option Str :=
  (names.find? fun p => i.fold p.1 = i.fold channel).map Prod.snd

theorem lastKey_eq {i : Isupport} {names : List (Str × Str)} {keys : Std.ExtTreeMap CaseFolded Str}
    (h : Holding i names keys) (channel : Str) :
    lastKey i names channel = keys[i.fold channel]? := by
  unfold lastKey
  cases hfind : names.find? fun p => i.fold p.1 = i.fold channel with
  | some p =>
      have hfold := List.find?_some hfind
      rw [decide_eq_true_eq] at hfold
      exact ((h _ p.2).mpr ⟨p.1, List.mem_of_find?_eq_some hfind, hfold⟩).symm
  | none =>
      cases hkey : keys[i.fold channel]? with
      | none => rfl
      | some key =>
          obtain ⟨name, hmem, hfold⟩ := (h _ key).mp hkey
          rw [List.find?_eq_none] at hfind
          exact absurd hfold (by simpa using hfind (name, key) hmem)

/-- Lines that ask for all that the model says we had: each channel once, under the key that was
last given for it; what was said in it after the newest message with an id, once, when the server
keeps a history; and everybody we watch, in requests that stay within the server's limit. -/
structure Replays (c : Client) (names : List (Str × Str)) (lines : List Message) : Prop where
  joins : ∀ key channel, c.model.channel key = some channel →
    lines.filter (enters channel.name) =
      [joinLine channel.name (lastKey c.isupport names channel.name)]
  histories : c.caps.has "draft/chathistory" = true →
    ∀ key channel id, c.model.channel key = some channel → channel.log.newestId = some id →
      lines.filter (asksHistory channel.name) = [historyLine channel.name id]
  targets : (lines.filter watches).flatMap monitorTargets = c.monitor.watched.map CaseFolded.asStr
  limits : ∀ line ∈ lines.filter watches, line.param 0 = some ("+" : Str) ∧
    (monitorTargets line).length ≤ max 1 c.monitorLimit

/-- What a reconnect needs: where the server keeps a history, the newest message of each channel has
an id unless none has; and no name we watch has a comma in it. -/
structure Resumable (c : Client) : Prop where
  ids : c.caps.has "draft/chathistory" = true → ∀ key channel, c.model.channel key = some channel →
    (channel.log.last.bind ChatMessage.msgid).isSome = true ∨
      ∀ message ∈ channel.log.iter, message.msgid = none
  nicks : ∀ who ∈ c.monitor.watched, ',' ∉ who.asStr

/-! ### Each kind of line -/

/-- What is asked for about one channel. -/
theorem rejoinLines_eq (c : Client) (channel : Channel) :
    c.rejoinLines channel =
      joinLine channel.name c.channelKeys[c.isupport.fold channel.name]? ::
        if c.caps.has "draft/chathistory" then
          ((channel.log.last.bind ChatMessage.msgid).map (historyLine channel.name)).toList
        else [] := rfl

theorem joinLine_command (name : Str) (key : Option Str) :
    (joinLine name key).command = "JOIN" ∧ (joinLine name key).param 0 = some name := by
  cases key with
  | none => exact ⟨rfl, rfl⟩
  | some key => exact ⟨rfl, rfl⟩

/-- The lines about whom to watch are of one kind, and those about channels of others. -/
theorem filter_resumeLines (c : Client) (p : Message → Bool)
    (hmetadata : ∀ params, p (Message.new "METADATA" params) = false) :
    c.resumeLines.filter p =
      (c.monitorLines "+" (c.monitor.watched.map CaseFolded.asStr)).filter p ++
        c.model.channels.toList.flatMap fun entry => (c.rejoinLines entry.2).filter p := by
  have hnone : (if c.metadataSubscriptions = [] then []
      else [Message.new "METADATA"
        (("*" : Str) :: ("SUB" : Str) :: c.metadataSubscriptions)]).filter p =
        [] := by
    split
    · rfl
    · rw [List.filter_singleton, hmetadata]
      rfl
  unfold resumeLines
  rw [List.filter_append, List.filter_append, hnone, List.append_nil, List.filter_flatMap]

theorem filter_monitorLines (c : Client) (names : List Str) (p : Message → Bool)
    (hmonitor : ∀ params, p (Message.new "MONITOR" params) = false) :
    (c.monitorLines "+" names).filter p = [] := by
  unfold monitorLines
  rw [List.filter_eq_nil_iff]
  intro line hline
  obtain ⟨chunk, -, rfl⟩ := List.mem_map.mp hline
  rw [hmonitor]
  exact Bool.false_ne_true

/-- The lines about one channel, when no other has its name. -/
theorem filter_rejoinLines (c : Client) (p : Message → Bool) {key : CaseFolded} {channel : Channel}
    (hkeyed : Keyed c.isupport c.model) (hchannel : c.model.channel key = some channel)
    (hother : ∀ other : Channel, other.name ≠ channel.name → (c.rejoinLines other).filter p = []) :
    (c.model.channels.toList.flatMap fun entry => (c.rejoinLines entry.2).filter p) =
      (c.rejoinLines channel).filter p := by
  have hmem : (key, channel) ∈ c.model.channels.toList :=
    Std.ExtTreeMap.mem_toList_iff_getElem?_eq_some.mpr hchannel
  have hnodup : c.model.channels.toList.Nodup := by
    refine (Std.ExtTreeMap.distinct_keys_toList).imp ?_
    intro a b hne heq
    rw [heq] at hne
    exact hne Std.ReflCmp.compare_self
  refine flatMap_eq_of_unique (f := fun entry => (c.rejoinLines entry.2).filter p) hmem hnodup ?_
  intro entry hentry hne
  refine hother entry.2 ?_
  intro hname
  have hfound := Std.ExtTreeMap.mem_toList_iff_getElem?_eq_some.mp hentry
  have hkey : entry.1 = key := by
    rw [← hkeyed.channels entry.1 entry.2 hfound, hname]
    exact hkeyed.channels key channel hchannel
  rw [hkey] at hfound
  exact hne (Prod.ext hkey (Option.some.inj (hfound.symm.trans hchannel)))

/-- **One line enters each channel**, under the key that is kept for it. -/
theorem filter_enters (c : Client) {key : CaseFolded} {channel : Channel}
    (hkeyed : Keyed c.isupport c.model) (hchannel : c.model.channel key = some channel) :
    c.resumeLines.filter (enters channel.name) =
      [joinLine channel.name c.channelKeys[c.isupport.fold channel.name]?] := by
  have hhistory : ∀ other : Channel, (if c.caps.has "draft/chathistory" then
      ((other.log.last.bind ChatMessage.msgid).map (historyLine other.name)).toList else []).filter
        (enters channel.name) = [] := by
    intro other
    split
    · cases other.log.last.bind ChatMessage.msgid with
      | none => rfl
      | some id => rfl
    · rfl
  have hjoin : ∀ other : Channel, (c.rejoinLines other).filter (enters channel.name) =
      if other.name = channel.name then
        [joinLine other.name c.channelKeys[c.isupport.fold other.name]?] else [] := by
    intro other
    obtain ⟨hcommand, hparam⟩ :=
      joinLine_command other.name c.channelKeys[c.isupport.fold other.name]?
    have henters : enters channel.name
        (joinLine other.name c.channelKeys[c.isupport.fold other.name]?) =
          decide (other.name = channel.name) := by
      unfold enters
      rw [hcommand, hparam, Bool.eq_iff_iff]
      simp
    rw [rejoinLines_eq, List.filter_cons, hhistory, henters]
    simp only [decide_eq_true_eq]
  rw [filter_resumeLines _ _ fun _ => rfl, filter_monitorLines _ _ _ fun _ => rfl, List.nil_append,
    filter_rejoinLines c _ hkeyed hchannel, hjoin, if_pos rfl]
  intro other hne
  rw [hjoin, if_neg hne]

/-- **What is asked about the history of each channel.** -/
theorem filter_asksHistory (c : Client) {key : CaseFolded} {channel : Channel}
    (hkeyed : Keyed c.isupport c.model) (hchannel : c.model.channel key = some channel)
    (hcaps : c.caps.has "draft/chathistory" = true) :
    c.resumeLines.filter (asksHistory channel.name) =
      ((channel.log.last.bind ChatMessage.msgid).map (historyLine channel.name)).toList := by
  have hlines : ∀ other : Channel, (c.rejoinLines other).filter (asksHistory channel.name) =
      if other.name = channel.name then
        ((other.log.last.bind ChatMessage.msgid).map (historyLine other.name)).toList else [] := by
    intro other
    have hjoin : asksHistory channel.name
        (joinLine other.name c.channelKeys[c.isupport.fold other.name]?) = false := by
      unfold asksHistory
      rw [(joinLine_command _ _).1]
      rfl
    rw [rejoinLines_eq, List.filter_cons, hjoin, if_neg Bool.false_ne_true, if_pos hcaps]
    cases other.log.last.bind ChatMessage.msgid with
    | none =>
        show [] = if other.name = channel.name then [] else []
        rw [ite_self]
    | some id =>
        have hasks : asksHistory channel.name (historyLine other.name id) =
            decide (other.name = channel.name) := by
          unfold asksHistory historyLine Message.new Message.param
          rw [Bool.eq_iff_iff]
          simp
        show [historyLine other.name id].filter _ = _
        rw [List.filter_singleton, hasks]
        by_cases hname : other.name = channel.name
        · rw [decide_eq_true hname, if_pos hname]
          rfl
        · rw [decide_eq_false hname, if_neg hname]
          rfl
  rw [filter_resumeLines _ _ fun _ => rfl, filter_monitorLines _ _ _ fun _ => rfl, List.nil_append,
    filter_rejoinLines c _ hkeyed hchannel, hlines, if_pos rfl]
  intro other hne
  rw [hlines, if_neg hne]

/-- The lines about whom to watch. -/
theorem filter_watches (c : Client) :
    c.resumeLines.filter watches =
      c.monitorLines "+" (c.monitor.watched.map CaseFolded.asStr) := by
  have hall : (c.monitorLines "+" (c.monitor.watched.map CaseFolded.asStr)).filter watches =
      c.monitorLines "+" (c.monitor.watched.map CaseFolded.asStr) := by
    unfold monitorLines
    rw [List.filter_eq_self]
    intro line hline
    obtain ⟨chunk, -, rfl⟩ := List.mem_map.mp hline
    rfl
  have hnone : (c.model.channels.toList.flatMap fun entry =>
      (c.rejoinLines entry.2).filter watches) = [] := by
    rw [List.flatMap_eq_nil_iff]
    intro entry _
    rw [rejoinLines_eq, List.filter_eq_nil_iff]
    intro line hline
    unfold watches
    rcases List.mem_cons.mp hline with rfl | hline
    · rw [(joinLine_command _ _).1]
      decide
    · split at hline
      · obtain ⟨id, -, rfl⟩ := Option.mem_map.mp (Option.mem_toList.mp hline)
        exact Bool.false_ne_true
      · exact absurd hline List.not_mem_nil
  rw [filter_resumeLines _ _ fun _ => rfl, hall, hnone, List.append_nil]

/-- The targets of a request, when no name has a comma in it. -/
theorem monitorTargets_join {chunk : List Str} (hne : 0 < chunk.length)
    (hcomma : ∀ name ∈ chunk, ',' ∉ name) :
    monitorTargets (Message.new "MONITOR" ["+", List.intercalate [','] chunk]) = chunk :=
  List.splitOn_intercalate ',' hcomma (List.ne_nil_of_length_pos hne)

/-- **The requests name everybody we watch**, and no more at once than they may, exactly when no
name has a comma in it. -/
theorem watches_iff (c : Client) (names : List Str) :
    ((c.monitorLines "+" names).flatMap monitorTargets = names ∧
      ∀ line ∈ c.monitorLines "+" names, line.param 0 = some ("+" : Str) ∧
        (monitorTargets line).length ≤ max 1 c.monitorLimit) ↔
      ∀ name ∈ names, ',' ∉ name := by
  have hpos : 0 < max c.monitorLimit 1 := Nat.lt_of_lt_of_le Nat.one_pos (le_max_right _ _)
  have hflatten := @Monitor.flatten_chunks Str _ _ names hpos le_rfl
  constructor
  · intro h name hname hcomma
    rw [← h.1] at hname
    obtain ⟨line, -, hmem⟩ := List.mem_flatMap.mp hname
    unfold monitorTargets at hmem
    cases hparam : line.param 1 with
    | none =>
        rw [hparam] at hmem
        exact absurd hmem List.not_mem_nil
    | some list =>
        rw [hparam] at hmem
        exact not_mem_of_mem_splitOn hmem hcomma
  · intro h
    have hchunk : ∀ chunk ∈ Monitor.chunks (max c.monitorLimit 1) names.length names,
        monitorTargets (Message.new "MONITOR" ["+", List.intercalate [','] chunk]) = chunk := by
      intro chunk hmem
      refine monitorTargets_join (Monitor.length_of_mem_chunks hpos hmem).1 ?_
      intro name hname
      refine h name ?_
      rw [← hflatten]
      exact List.mem_flatten_of_mem hmem hname
    unfold monitorLines Monitor.batched
    refine ⟨?_, ?_⟩
    · rw [List.map_map, List.flatMap_map]
      refine Eq.trans ?_ hflatten
      rw [List.flatMap_def]
      exact congrArg List.flatten ((List.map_congr_left hchunk).trans (List.map_id _))
    · intro line hline
      rw [List.map_map] at hline
      obtain ⟨chunk, hmem, rfl⟩ := List.mem_map.mp hline
      refine ⟨rfl, ?_⟩
      show (monitorTargets (Message.new "MONITOR" ["+", List.intercalate [','] chunk])).length ≤ _
      rw [hchunk chunk hmem, max_comm]
      exact (Monitor.length_of_mem_chunks hpos hmem).2

/-! ### All of them -/

/-- Where everything stands under its own name, the lines ask for all of it exactly when a reconnect
has what it needs. -/
theorem replays_iff {c : Client} {names : List (Str × Str)} (h : InStep names c.bearing) :
    c.Replays names c.resumeLines ↔ c.Resumable := by
  have hwatches := c.watches_iff (c.monitor.watched.map CaseFolded.asStr)
  have hnicks : (∀ name ∈ c.monitor.watched.map CaseFolded.asStr, ',' ∉ name) ↔
      ∀ who ∈ c.monitor.watched, ',' ∉ who.asStr := by
    simp only [List.mem_map, forall_exists_index, and_imp, forall_apply_eq_imp_iff₂]
  constructor
  · intro hreplays
    refine ⟨?_, hnicks.mp (hwatches.mp ?_)⟩
    · intro hcaps key channel hchannel
      cases hid : channel.log.newestId with
      | none => exact .inr (MessageLog.newestId_eq_none.mp hid)
      | some id =>
          left
          have hasked := hreplays.histories hcaps key channel id hchannel hid
          rw [filter_asksHistory c h.model hchannel hcaps] at hasked
          cases hlast : channel.log.last.bind ChatMessage.msgid with
          | none =>
              rw [hlast] at hasked
              cases hasked
          | some own => rfl
    · have htargets := hreplays.targets
      have hlimits := hreplays.limits
      rw [filter_watches] at htargets hlimits
      exact ⟨htargets, hlimits⟩
  · intro hneeds
    obtain ⟨htargets, hlimits⟩ := hwatches.mpr (hnicks.mpr hneeds.nicks)
    refine ⟨?_, ?_, ?_, ?_⟩
    · intro key channel hchannel
      have hkey : lastKey c.isupport names channel.name =
          c.channelKeys[c.isupport.fold channel.name]? := lastKey_eq h.keys channel.name
      rw [filter_enters c h.model hchannel, hkey]
    · intro hcaps key channel id hchannel hid
      rw [filter_asksHistory c h.model hchannel hcaps]
      rcases hneeds.ids hcaps key channel hchannel with hlast | hnone
      · rw [(channel.log.last_msgid_iff hid).mpr hlast]
        rfl
      · rw [MessageLog.newestId_eq_none.mpr hnone] at hid
        cases hid
    · rw [filter_watches]
      exact htargets
    · rw [filter_watches]
      exact hlimits

variable [Primitives]

/-- The lines that a welcome queues. -/
theorem handleMessage_welcome (c : Client) {message : Message} (h : message.is "001" = true) :
    (c.handleMessage message).outbox = c.outbox ++ c.resumeLines.map wireLine := by
  rw [handleMessage_eq]
  unfold dispatch
  rw [if_neg (by rw [is_eq_false h (by decide)]; decide),
    if_neg (by rw [is_eq_false h (by decide)]; decide),
    if_neg (by rw [is_eq_false h (by decide)]; decide), if_pos h]
  unfold handleWelcome resume
  rw [sendLines_eq]
  rfl

/-- **What a reconnect asks for again.**  In every run in which no `005` folds a name in use
otherwise than before, the lines that a welcome queues ask for every channel under its key, for what
was said after the newest message with an id, and for everybody we watch, exactly when the newest
message of each channel has an id unless none has, and no name we watch has a comma in it. -/
theorem resume_iff (config : Config) (inputs : List Input)
    (h : Along SparesNames ((new config).deeds inputs)) {message : Message}
    (hwelcome : message.is "001" = true) :
    (((new config).run inputs).handleMessage message).outbox =
        ((new config).run inputs).outbox ++ ((new config).run inputs).resumeLines.map wireLine ∧
      (((new config).run inputs).Replays (ledger ((new config).deeds inputs))
          ((new config).run inputs).resumeLines ↔
        ((new config).run inputs).Resumable) := by
  refine ⟨handleMessage_welcome _ hwelcome, ?_⟩
  exact replays_iff (run_inStep config inputs h)

omit [Primitives] in
/-- True when everything said last has an id and no name we watch has a comma. -/
def allIdentified (c : Client) : Bool :=
  c.model.channels.toList.all (fun entry =>
      (entry.2.log.iter.reverse.head?.bind ChatMessage.msgid).isSome) &&
    c.monitor.watched.all (fun who => !who.asStr.contains ',')

omit [Primitives] in
theorem resumable_of_all {c : Client} (h : c.allIdentified = true) : c.Resumable := by
  obtain ⟨hids, hnicks⟩ := Bool.and_eq_true_iff.mp h
  refine ⟨?_, ?_⟩
  · intro _ key channel hchannel
    left
    rw [MessageLog.last_eq]
    exact List.all_eq_true.mp hids (key, channel)
      (Std.ExtTreeMap.mem_toList_iff_getElem?_eq_some.mpr hchannel)
  · intro who hwho
    simpa using List.all_eq_true.mp hnicks who hwho

omit [Primitives] in
/-- A channel with a key, in which the last thing said has an id. -/
theorem resume_asks : letI := Primitives.ascii
    let inputs := [Input.connected, .command (.join "#a" (some "k")), .bytes (Utf8.encode
        ":s 001 me :hi\n:me!u@h JOIN #a\n@msgid=m :bob!u@h PRIVMSG #a :yo\n"), .disconnected,
      .connected, .bytes (Utf8.encode
        ":s CAP * LS :draft/chathistory\n:s CAP * ACK :draft/chathistory\n")]
    let c := (new (.new "me")).run inputs
    c.Replays (ledger ((new (.new "me")).deeds inputs)) c.resumeLines := by
  let _ := Primitives.ascii
  intro inputs c
  have hrun : ((new (.new "me")).deeds inputs).any Deed.recasts = false ∧
      c.allIdentified = true := by
    decide +kernel
  exact (@resume_iff _ (.new "me") inputs (along_sparesNames hrun.1) ⟨[], none, "001", ["me"]⟩
    (by decide)).2.mpr (resumable_of_all hrun.2)

omit [Primitives] in
/-- **Whoever had the last word without an id is not asked past.** -/
theorem resume_forgets : letI := Primitives.ascii
    let inputs := [Input.connected, .bytes (Utf8.encode
        ":s 001 me :hi\n:me!u@h JOIN #a\n@msgid=m :bob!u@h PRIVMSG #a :yo\n"),
      .command (.sendMessage "#a" "hey"), .disconnected, .connected, .bytes (Utf8.encode
        ":s CAP * LS :draft/chathistory\n:s CAP * ACK :draft/chathistory\n")]
    let c := (new (.new "me")).run inputs
    c.Reachable ∧ c.caps.has "draft/chathistory" = true ∧
      (c.model.channel ⟨"#a"⟩).bind (·.log.newestId) = some "m" ∧
      ¬ c.Replays (ledger ((new (.new "me")).deeds inputs)) c.resumeLines := by
  let _ := Primitives.ascii
  intro inputs c
  have hrun : c.caps.has "draft/chathistory" = true ∧
      (c.model.channel ⟨"#a"⟩).bind (·.log.newestId) = some "m" ∧
      (c.model.channel ⟨"#a"⟩).all (fun channel =>
        (channel.log.iter.reverse.head?.bind ChatMessage.msgid).isNone) = true ∧
      ((new (.new "me")).deeds inputs).any Deed.recasts = false := by
    decide +kernel
  obtain ⟨hcaps, hnewest, hlast, hnames⟩ := hrun
  have hspares : Along SparesNames ((new (.new "me")).deeds inputs) := along_sparesNames hnames
  refine ⟨⟨_, _, rfl⟩, hcaps, hnewest, ?_⟩
  intro h
  have hkept := run_inStep (.new "me") inputs hspares
  obtain ⟨channel, hchannel, hid⟩ := Option.bind_eq_some_iff.mp hnewest
  rw [hchannel, Option.all_some, ← MessageLog.last_eq, Option.isNone_iff_eq_none] at hlast
  have hids := ((replays_iff hkept).mp h).ids hcaps _ channel hchannel
  rw [hlast, ← MessageLog.newestId_eq_none] at hids
  rcases hids with hids | hids
  · cases hids
  · rw [hid] at hids
    cases hids

end Client

end ObbyClient

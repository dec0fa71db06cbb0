import ObbyClient.Engine.Growth
import ObbyClient.Engine.Logs
import ObbyClient.Engine.Multiline
import ObbyClient.Engine.Standing
import ObbyClient.Engine.Stream
import ObbyClient.Engine.Whois

/-!
# How much a server can make us hold

A server may open batches and never close them, name any nick in a WHOIS reply, say more than we
keep, or send a line that never ends.

* `Batches.Bounded`, `Model.Bounded` — the bounds, and that every step keeps them;
* `Client.run_bounded` — they hold after any run.
-/

namespace ObbyClient

/-! ### Batches -/

namespace Batches

/-- No more batches than may be open, and no more lines in one than it buffers. -/
structure Bounded (batches : Batches) : Prop where
  size : batches.byReference.size ≤ batches.maxOpen
  buffered : ∀ (reference : Str) (batch : OpenBatch), batches.byReference[reference]? = some batch →
    batch.messages.length ≤ batches.maxBuffered

theorem push_length {batch : OpenBatch} {message : Message} {maxBuffered : ℕ}
    (h : batch.messages.length ≤ maxBuffered) : (batch.push message maxBuffered).messages.length ≤
      maxBuffered := by
  fun_cases OpenBatch.push with
  | case1 | case2 | case3 => exact h
  | case4 =>
    rw [List.length_append, List.length_singleton]
    omega

theorem Bounded.call {batches : Batches} (h : batches.Bounded) (c : Call) :
    (batches.call c).Bounded := by
  cases c with
  | opened line =>
    show (batches.opened line).Bounded
    obtain ⟨reference, kind, ⟨-, -, -, hroom⟩, hafter⟩ | ⟨hafter, -⟩ := batches.opened_cases line
    · rw [hafter]
      refine ⟨Std.ExtTreeMap.size_insert_le.trans hroom, ?_⟩
      intro other batch hbatch
      obtain ⟨-, rfl⟩ | ⟨-, hbatch⟩ := Maps.getElem?_insert_eq_some.mp hbatch
      · exact Nat.zero_le _
      · exact h.buffered other batch hbatch
    · rw [hafter]
      exact h
  | route line =>
    show ((batches.route line).getD batches).Bounded
    rw [route_eq]
    cases line.tag "batch" with
    | none => exact h
    | some reference =>
      rw [Option.bind_some]
      cases hheld : batches.byReference[reference]? with
      | none => exact h
      | some held =>
        have hmem : reference ∈ batches.byReference := by
          rw [Std.ExtTreeMap.mem_iff_isSome_getElem?, hheld]
          rfl
        refine ⟨?_, ?_⟩
        · show (batches.byReference.insert reference _).size ≤ batches.maxOpen
          rw [Std.ExtTreeMap.size_insert, if_pos (Std.ExtTreeMap.mem_iff_contains.mp hmem)]
          exact h.size
        · intro other batch hbatch
          obtain ⟨-, rfl⟩ | ⟨-, hbatch⟩ := Maps.getElem?_insert_eq_some.mp hbatch
          · exact push_length (h.buffered reference held hheld)
          · exact h.buffered other batch hbatch
  | close line =>
    show (((batches.close line).map Prod.fst).getD batches).Bounded
    rw [close_eq]
    cases marked '-' line with
    | none => exact h
    | some reference =>
      rw [Option.bind_some]
      cases batches.byReference[reference]? with
      | none => exact h
      | some closed =>
        refine ⟨Std.ExtTreeMap.size_erase_le.trans h.size, ?_⟩
        intro other batch hbatch
        exact h.buffered other batch (Maps.getElem?_erase_eq_some.mp hbatch).2

end Batches

/-! ### The model -/

/-- No log longer than its retention, which is the same for all, and no more WHOIS records than
there may be. -/
structure Model.Bounded (model : Model) : Prop where
  retention : ∀ place log, model.logAt place = some log → log.retention = max model.retention 1
  logs : ∀ place log, model.logAt place = some log → log.messages.size ≤ log.retention
  whois : model.whois.size ≤ maxWhoisRecords

namespace Model

variable {before after : Model}

theorem Keeps.bounded (h : Keeps before after) (hwhois : after.whois.size ≤ maxWhoisRecords)
    (hbounded : before.Bounded) : after.Bounded := by
  obtain ⟨origin, -, horigin⟩ := h.logs
  have hlogs : ∀ place log, after.logAt place = some log →
      log.retention = max before.retention 1 ∧ log.messages.size ≤ log.retention := by
    intro place log hlog
    obtain ⟨old, hold, hamends⟩ := horigin place log hlog
    rw [hamends.retention]
    obtain rfl | hold := hold
    · exact ⟨rfl, hamends.size.trans (Nat.zero_le _)⟩
    · exact ⟨hbounded.retention _ old hold, hamends.size.trans (hbounded.logs _ old hold)⟩
  refine ⟨?_, fun place log hlog => (hlogs place log hlog).2, hwhois⟩
  intro place log hlog
  rw [h.retention]
  exact (hlogs place log hlog).1

theorem size_insert_le_retention {log : MessageLog} (h : log.messages.size ≤ log.retention)
    (message : ChatMessage) :
    (log.insert message).1.messages.size ≤ log.retention := by
  cases hholds : log.holds message with
  | true =>
    rw [MessageLog.insert_of_holds hholds]
    exact h
  | false =>
    rw [MessageLog.insert_of_not_holds hholds, MessageLog.trim_messages, TopKeys.size_top]
    exact min_le_left _ _

theorem retention_file [Primitives] (ctx : Session.Context) (line : Message)
    (command target : Str) :
    (Session.file ctx line command target).1.model.retention = ctx.model.retention := by
  unfold Session.file
  dsimp only
  split
  · split <;> rfl
  · rfl

theorem whois_file [Primitives] (ctx : Session.Context) (line : Message) (command target : Str) :
    (Session.file ctx line command target).1.model.whois = ctx.model.whois := by
  unfold Session.file
  dsimp only
  split
  · split <;> rfl
  · rfl

theorem file_bounded [Primitives] {ctx : Session.Context} (h : ctx.model.Bounded) (line : Message)
    (command target : Str) : (Session.file ctx line command target).1.model.Bounded := by
  have hlogs : ∀ place log, (Session.file ctx line command target).1.model.logAt place = some log →
      log.retention = max ctx.model.retention 1 ∧ log.messages.size ≤ log.retention := by
    intro place log hlog
    rw [Session.logAt_file] at hlog
    split at hlog
    · obtain ⟨old, hold, rfl⟩ := Option.map_eq_some_iff.mp hlog
      rw [MessageLog.retention_insert]
      exact ⟨h.retention place old hold, size_insert_le_retention (h.logs place old hold) _⟩
    · exact ⟨h.retention place log hlog, h.logs place log hlog⟩
  refine ⟨?_, fun place log hlog => (hlogs place log hlog).2, ?_⟩
  · intro place log hlog
    rw [retention_file]
    exact (hlogs place log hlog).1
  · rw [whois_file]
    exact h.whois

/-! ### WHOIS records -/

/-- Making room leaves room, or a record that is there already. -/
theorem size_makeRoomForWhois (model : Model) (key : CaseFolded)
    (h : model.whois.size ≤ maxWhoisRecords) :
    (model.makeRoomForWhois key).size < maxWhoisRecords ∨
      (model.makeRoomForWhois key).size ≤ maxWhoisRecords ∧ key ∈ model.makeRoomForWhois key := by
  unfold makeRoomForWhois
  split
  · rename_i hfull
    left
    have hpos : 0 < model.whois.size := lt_of_lt_of_le (by decide) hfull.1
    have hheld : ∃ p ∈ model.whois.toList,
        (model.whois.toList.find? fun p => p.2.complete).or model.whois.toList.head? = some p := by
      cases hfind : model.whois.toList.find? fun p => p.2.complete with
      | some p => exact ⟨p, List.mem_of_find?_eq_some hfind, rfl⟩
      | none =>
        cases hlist : model.whois.toList with
        | nil =>
          rw [← Std.ExtTreeMap.length_toList, hlist] at hpos
          cases hpos
        | cons p ps => exact ⟨p, List.mem_cons_self, rfl⟩
    obtain ⟨p, hp, hstale⟩ := hheld
    have hmem : p.1 ∈ model.whois := by
      rw [Std.ExtTreeMap.mem_iff_isSome_getElem?,
        Std.ExtTreeMap.mem_toList_iff_getElem?_eq_some.mp hp]
      rfl
    rw [hstale]
    show (model.whois.erase p.1).size < maxWhoisRecords
    rw [Std.ExtTreeMap.size_erase, if_pos (Std.ExtTreeMap.mem_iff_contains.mp hmem)]
    omega
  · rename_i hroom
    rw [not_and_or, not_le] at hroom
    obtain hroom | hheld := hroom
    · exact Or.inl hroom
    · right
      refine ⟨h, ?_⟩
      rw [Std.ExtTreeMap.mem_iff_contains]
      simpa using hheld

theorem size_whoisOrInsert (model : Model) (key : CaseFolded) (nick : Str) (f : Whois → Whois)
    (h : model.whois.size ≤ maxWhoisRecords) : (model.whoisOrInsert key nick f).whois.size ≤
      maxWhoisRecords := by
  unfold whoisOrInsert
  dsimp only
  obtain hroom | ⟨hsize, hmem⟩ := model.size_makeRoomForWhois key h
  · exact Std.ExtTreeMap.size_insert_le.trans hroom
  · rw [Std.ExtTreeMap.size_insert, if_pos (Std.ExtTreeMap.mem_iff_contains.mp hmem)]
    exact hsize

end Model

namespace Session

theorem whois_size (ctx : Context) (line : Message) (command : Str)
    (h : ctx.model.whois.size ≤ maxWhoisRecords) :
    (whois ctx line command).1.model.whois.size ≤ maxWhoisRecords := by
  unfold whois
  split
  · exact h
  · dsimp only
    split
    · split
      · exact h
      · rename_i record hrecord
        have hmem : _ ∈ ctx.model.whois :=
          Std.ExtTreeMap.mem_iff_isSome_getElem?.mpr (Option.isSome_of_eq_some hrecord)
        show (ctx.model.whois.insert _ _).size ≤ _
        rw [Std.ExtTreeMap.size_insert, if_pos (Std.ExtTreeMap.mem_iff_contains.mp hmem)]
        exact h
    · exact Model.size_whoisOrInsert _ _ _ _ h

/-- **No line** makes us hold more WHOIS records than there may be. -/
theorem apply_whois_size [Primitives] (ctx : Context) (line : Message)
    (h : ctx.model.whois.size ≤ maxWhoisRecords) :
    (apply ctx line).1.model.whois.size ≤ maxWhoisRecords := by
  cases hwhois : isWhois (toAsciiUppercase line.command) with
  | true =>
    rw [apply_of_handles ctx rfl (.whois hwhois)]
    exact whois_size ctx line _ h
  | false =>
    obtain ⟨-, hsame⟩ | ⟨_, _, _, -, hfilter, -⟩ := apply_whois ctx hwhois
    · rw [hsame]
      exact h
    · rw [hfilter]
      exact Std.ExtTreeMap.size_filter_le_size.trans h

theorem apply_bounded [Primitives] {ctx : Context} (h : ctx.model.Bounded) (line : Message) :
    (apply ctx line).1.model.Bounded := by
  have hwhois := apply_whois_size ctx line h.whois
  obtain hkeeps | ⟨command, target, hfile⟩ := apply_keeps ctx line
  · exact hkeeps.bounded hwhois h
  · rw [hfile]
    exact Model.file_bounded h line command target

end Session

namespace Client

/-- How much a client holds at most. -/
structure Bounded (config : Config) (c : Client) : Prop where
  logs : ∀ place log, c.model.logAt place = some log → log.iter.length ≤ max config.retention 1
  whois : c.model.whois.size ≤ 64
  batches : c.batches.byReference.size ≤ 64
  buffered : ∀ (reference : Str) (batch : OpenBatch), c.batches.byReference[reference]? =
    some batch →
    batch.messages.length ≤ 1024
  held : c.partialBytes.length ≤ maxInboundLine

variable [Primitives]

theorem run_model_bounded (config : Config) (inputs : List Input) :
    ((new config).run inputs).model.Bounded ∧
      ((new config).run inputs).model.retention = max config.retention 1 := by
  have habides : Abides fun _ model =>
      model.Bounded ∧ model.retention = max config.retention 1 := by
    refine ⟨fun _ h => h, ?_, ?_⟩
    · intro _ before after hkeeps hwhois h
      exact ⟨hkeeps.bounded (hwhois.trans h.1.whois) h.1, hkeeps.retention.trans h.2⟩
    · intro _ ctx line h
      refine ⟨Session.apply_bounded h.1 line, ?_⟩
      obtain hkeeps | ⟨command, target, hfile⟩ := Session.apply_keeps ctx line
      · exact hkeeps.retention.trans h.2
      · rw [hfile, Model.retention_file]
        exact h.2
  refine habides.run (n := 0) ⟨⟨?_, ?_, Nat.zero_le _⟩, rfl⟩ inputs
  · intro place log hlog
    rw [Model.logAt_new hlog]
    rfl
  · intro place log hlog
    rw [Model.logAt_new hlog]
    exact Nat.zero_le _

theorem run_batches_bounded (config : Config) (inputs : List Input) :
    ((new config).run inputs).batches.Bounded ∧ ((new config).run inputs).batches.maxOpen = 64 ∧
      ((new config).run inputs).batches.maxBuffered = 1024 := by
  have hcalls : ∀ {batches : Batches} (cs : List Batches.Call),
      batches.Bounded ∧ batches.maxOpen = 64 ∧ batches.maxBuffered = 1024 →
        (batches.calls cs).Bounded ∧ (batches.calls cs).maxOpen = 64 ∧
          (batches.calls cs).maxBuffered = 1024 := by
    intro batches cs
    induction cs generalizing batches with
    | nil => exact id
    | cons c cs ih =>
      intro h
      obtain ⟨hbuffered, hopen⟩ := batches.limits_call c
      exact ih ⟨h.1.call c, hopen.trans h.2.1, hbuffered.trans h.2.2⟩
  refine run_deeds (Q := fun _ d => d.batches.Bounded ∧ d.batches.maxOpen = 64 ∧
    d.batches.maxBuffered = 1024)
    ?_ ?_ ?_ [] ?_ inputs
  · intro _ _ _ _ _ h
    exact h
  · intro _ d message h
    rw [handleMessage_batches]
    exact hcalls _ h
  · intro _ d input hbytes h
    by_cases hdown : input = .disconnected
    · obtain ⟨timers, hafter, -⟩ := d.handleDisconnected_bearing
      have hbatches : (d.step input).batches = d.batches.dropAll := by
        rw [hdown]
        exact congrArg Bearing.batches hafter
      rw [hbatches]
      refine ⟨⟨Nat.zero_le _, ?_⟩, h.2⟩
      intro reference batch hbatch
      simp [Batches.dropAll] at hbatch
    · rw [d.step_batches hbytes hdown]
      exact h
  · refine ⟨⟨Nat.zero_le _, ?_⟩, rfl, rfl⟩
    intro reference batch hbatch
    simp [new, Batches.new] at hbatch

/-- **A server cannot make us hold more**, whatever it sends and in whatever pieces. -/
theorem run_bounded (config : Config) (inputs : List Input) :
    Bounded config ((new config).run inputs) := by
  obtain ⟨hmodel, hretention⟩ := run_model_bounded config inputs
  obtain ⟨hbatches, hopen, hbuffered⟩ := run_batches_bounded config inputs
  refine ⟨?_, hmodel.whois, ?_, ?_, (Reachable.held ⟨config, inputs, rfl⟩).2⟩
  · intro place log hlog
    have hkept := hmodel.retention place log hlog
    rw [hretention] at hkept
    rw [MessageLog.length_iter]
    exact (hmodel.logs place log hlog).trans (by omega)
  · rw [← hopen]
    exact hbatches.size
  · intro reference batch hbatch
    rw [← hbuffered]
    exact hbatches.buffered reference batch hbatch

end Client

end ObbyClient

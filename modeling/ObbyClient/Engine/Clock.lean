import ObbyClient.Engine.Bearing
import ObbyClient.Engine.Told
import ObbyClient.Lib.Maps

/-!
# When the clock has something to do

A host sleeps until the instant the connection names, and ticks it then.

* `Labels.expire_spec` — which commands a tick gives up on;
* `Client.tick_quiet_iff` — when a tick before that instant does nothing at all.
-/

namespace ObbyClient

namespace Labels

/-- Giving up on one label after another. -/
theorem foldl_expireOne (labels : Labels) (commands : List Str) {keys : List Str} (h : keys.Nodup) :
    (keys.foldl expireOne (labels, commands)).2 =
        commands ++ keys.filterMap (fun label => labels.pending[label]?.map Pending.data) ∧
      ∀ label, (keys.foldl expireOne (labels, commands)).1.pending[label]? =
        if label ∈ keys then none else labels.pending[label]? := by
  induction keys generalizing labels commands with
  | nil => exact ⟨(List.append_nil _).symm, fun _ => rfl⟩
  | cons key keys ih =>
      obtain ⟨hkey, hkeys⟩ := List.nodup_cons.mp h
      rw [List.foldl_cons]
      cases hpending : labels.pending[key]? with
      | none =>
          have hone : expireOne (labels, commands) key = (labels, commands) := by
            unfold expireOne
            dsimp only
            rw [hpending]
          obtain ⟨hcommands, hleft⟩ := ih labels commands hkeys
          rw [hone]
          refine ⟨?_, ?_⟩
          · rw [hcommands, List.filterMap_cons, hpending]
            rfl
          · intro label
            rw [hleft]
            by_cases heq : label = key
            · rw [heq, hpending, ite_self, ite_self]
            · simp only [List.mem_cons, heq, false_or]
      | some pending =>
          have hone : expireOne (labels, commands) key =
              (labels.release key pending, commands ++ [pending.data]) := by
            unfold expireOne
            dsimp only
            rw [hpending]
          have hrelease : ∀ label, (labels.release key pending).pending[label]? =
              if label = key then none else labels.pending[label]? :=
            fun label => Maps.getElem?_erase_ite labels.pending key label
          obtain ⟨hcommands, hleft⟩ :=
            ih (labels.release key pending) (commands ++ [pending.data]) hkeys
          rw [hone]
          refine ⟨?_, ?_⟩
          · rw [hcommands, List.filterMap_cons, hpending, List.append_assoc]
            refine congrArg (commands ++ pending.data :: ·) (List.filterMap_congr ?_)
            intro label hlabel
            have hother : label ≠ key := by
              rintro rfl
              exact hkey hlabel
            rw [hrelease, if_neg hother]
          · intro label
            rw [hleft, hrelease]
            by_cases heq : label = key
            · rw [if_pos heq, ite_self, if_pos (heq ▸ List.mem_cons_self)]
            · simp only [List.mem_cons, heq, false_or, if_false]

/-- **Which labels are given up on**: those that are due. -/
theorem expire_spec (labels : Labels) (nowMs : ℕ) :
    (labels.expire nowMs).2 = (dueKeys labels.pending nowMs Pending.deadlineMs).filterMap
        (fun label => labels.pending[label]?.map Pending.data) ∧
      ∀ label, (labels.expire nowMs).1.pending[label]? =
        if label ∈ dueKeys labels.pending nowMs Pending.deadlineMs then none
        else labels.pending[label]? := by
  obtain ⟨hcommands, hleft⟩ := foldl_expireOne labels []
    (nodup_dueKeys labels.pending nowMs Pending.deadlineMs)
  exact ⟨hcommands, hleft⟩

end Labels

namespace Timers

theorem next_le {timers : Timers} {deadline : Deadline} {atMs : ℕ}
    (h : timers.deadlines[deadline]? = some atMs) : ∃ nextMs, timers.next = some nextMs ∧
      nextMs ≤ atMs := by
  have hmem : atMs ∈ timers.deadlines.toList.map Prod.snd :=
    List.mem_map_of_mem (f := Prod.snd) (Std.ExtTreeMap.mem_toList_iff_getElem?_eq_some.mpr h)
  unfold next
  cases hmin : (timers.deadlines.toList.map Prod.snd).min? with
  | none =>
      rw [List.min?_eq_none_iff] at hmin
      rw [hmin] at hmem
      cases hmem
  | some nextMs => exact ⟨nextMs, rfl, (List.min?_eq_some_iff.mp hmin).2 atMs hmem⟩

/-- Nothing falls due before the next deadline. -/
theorem expire_of_lt_next {timers : Timers} {now : Now}
    (h : ∀ nextMs ∈ timers.next, now.monotonicMs < nextMs) : timers.expire now = (timers, []) := by
  have hnone : dueKeys timers.deadlines now.monotonicMs id = [] := by
    rw [dueKeys_eq_nil]
    intro deadline atMs hdeadline
    obtain ⟨nextMs, hnext, hle⟩ := next_le hdeadline
    exact Nat.lt_of_lt_of_le (h nextMs hnext) hle
  unfold expire
  rw [hnone]
  rfl

end Timers

namespace Client

/-- When a tick next has something to do, as a monotonic instant. -/
def pollTimeout (c : Client) : Option ℕ := c.timers.next

/-- A step that says nothing and forgets nothing. -/
structure Quiet (c d : Client) : Prop where
  outbox : d.outbox = c.outbox
  events : d.events = c.events
  timers : d.timers = c.timers
  pending : d.labels.pending = c.labels.pending

/-- **A tick before the next deadline does nothing** just when no labelled command is due. -/
theorem tick_quiet_iff (c : Client) (now : Now)
    (h : ∀ nextMs ∈ c.pollTimeout, now.monotonicMs < nextMs) :
    Quiet c (c.tick now) ↔ ∀ (label : Str) (pending : Pending),
      c.labels.pending[label]? = some pending → now.monotonicMs < pending.deadlineMs := by
  have hexpire : c.timers.expire now = (c.timers, []) := Timers.expire_of_lt_next h
  obtain ⟨hlabels, houtbox, events, hevents, -, -, hsilent⟩ := c.tick_tells now
  obtain ⟨hlate, hleft⟩ := c.labels.expire_spec now.monotonicMs
  rw [hsilent (by rw [hexpire]), List.append_nil, hlate] at hevents
  rw [← dueKeys_eq_nil]
  constructor
  · intro hquiet
    by_contra hdue
    obtain ⟨label, hlabel⟩ := List.exists_mem_of_ne_nil _ hdue
    obtain ⟨pending, hpending, -⟩ := (mem_dueKeys _ _ _ _).mp hlabel
    have hgone := hleft label
    rw [if_pos hlabel, ← hlabels, hquiet.pending, hpending] at hgone
    cases hgone
  · intro hdue
    refine ⟨?_, ?_, ?_, ?_⟩
    · rw [houtbox, hexpire]
      exact List.append_nil _
    · rw [hevents, hdue]
      exact List.append_nil _
    · have htimers := congrArg Bearing.timers (c.tick_bearing now)
      rw [hexpire] at htimers
      exact htimers
    · rw [hlabels]
      refine Std.ExtTreeMap.ext_getElem? ?_
      intro label
      rw [hleft, hdue, if_neg List.not_mem_nil]

/-- A command that is waited for, and not for too long yet. -/
theorem tick_quiet_pending : letI := Primitives.ascii
    let c := (new (.new "me")).run [.connected,
      .bytes (Utf8.encode "CAP * LS :labeled-response\nCAP * ACK :labeled-response\n"),
      .command (.whois "bob")]
    c.labels.pending.toList.map (fun p => p.2.deadlineMs) = [30000] ∧ Quiet c (c.tick ⟨7, 0⟩) := by
  let _ := Primitives.ascii
  intro c
  refine ⟨by decide +kernel, (tick_quiet_iff c ⟨7, 0⟩ (by decide +kernel)).mpr ?_⟩
  rw [← dueKeys_eq_nil]
  decide +kernel

/-- **A command times out before the connection said it had anything to do.** -/
theorem timeout_not_polled : letI := Primitives.ascii
    let c := (new (.new "me")).run [.connected,
      .bytes (Utf8.encode "CAP * LS :labeled-response\nCAP * ACK :labeled-response\n"),
      .command (.whois "bob"), .tick ⟨1000, 0⟩, .bytes (Utf8.encode "PONG x\n")]
    c.Reachable ∧ c.monotonicMs ≤ 30500 ∧ (∀ nextMs ∈ c.pollTimeout, 30500 < nextMs) ∧
      Event.commandTimedOut "WHOIS" ∉ c.events ∧
      Event.commandTimedOut "WHOIS" ∈ (c.tick ⟨30500, 0⟩).events := by
  let _ := Primitives.ascii
  intro c
  refine ⟨⟨_, _, rfl⟩, ?_⟩
  decide +kernel

end Client

end ObbyClient

import ObbyClient.Engine.Deeds
import ObbyClient.Engine.Renaming

/-!
# Nobody types forever

Who is composing a message is kept with the channel or the conversation, and the instant at which
that goes stale is kept with the timers, under the two folded names.  A rename moves the one and not
the other.

* `Model.Shown`, `Model.Shadowed` — who is shown as typing, and where a channel stands in the way;
* `Client.SparesTypists` — the deeds that leave nobody behind;
* `Client.run_typing_expires` — along such deeds, everybody who is shown as typing has a deadline.
-/

namespace ObbyClient

namespace Model

/-! ### Who is shown -/

/-- True when somebody is shown as typing in the channel or the conversation under a key. -/
inductive Shown (model : Model) (key who : CaseFolded) : Prop
  | channel {channel : Channel} (h : model.channel key = some channel) (hwho : who ∈ channel.typing)
  | conversation {query : Conversation} (h : model.conversation key = some query)
      (hwho : who ∈ query.typing)

/-- True when somebody is shown as typing in a conversation whose key is a channel's too. -/
def Shadowed (model : Model) (key who : CaseFolded) : Prop :=
  (model.channel key).isSome = true ∧
    ∃ query, model.conversation key = some query ∧ who ∈ query.typing

/-- Who starts typing is shown, and nobody else is shown who was not. -/
theorem shown_setTyping_true {model : Model} {target who key other : CaseFolded}
    (h : Shown (model.setTyping target who true).1 key other) :
    key = target ∧ other = who ∨ Shown model key other := by
  rcases model.setTyping_cases target who true with
    ⟨-, -, hafter⟩ | ⟨channel, hchannel, hafter⟩ | ⟨query, -, hquery, hafter⟩
  · rw [hafter] at h
    exact .inr h
  · rw [hafter] at h
    cases h with
    | channel hfound hwho =>
        rcases Maps.getElem?_insert_eq_some.mp hfound with ⟨rfl, rfl⟩ | ⟨-, hfound⟩
        · exact (mem_toggleTyping_true.mp hwho).imp (⟨rfl, ·⟩) (.channel hchannel)
        · exact .inr (.channel hfound hwho)
    | conversation hfound hwho => exact .inr (.conversation hfound hwho)
  · rw [hafter] at h
    cases h with
    | channel hfound hwho => exact .inr (.channel hfound hwho)
    | conversation hfound hwho =>
        rcases Maps.getElem?_insert_eq_some.mp hfound with ⟨rfl, rfl⟩ | ⟨-, hfound⟩
        · exact (mem_toggleTyping_true.mp hwho).imp (⟨rfl, ·⟩) (.conversation hquery)
        · exact .inr (.conversation hfound hwho)

/-- Who stops typing is not shown any more, but where a channel stands in the way. -/
theorem shown_setTyping_false {model : Model} {target who key other : CaseFolded}
    (h : Shown (model.setTyping target who false).1 key other) :
    Shown model key other ∧ (key = target → other = who → Shadowed model target who) := by
  rcases model.setTyping_cases target who false with
    ⟨hchannel, hquery, hafter⟩ | ⟨channel, hchannel, hafter⟩ | ⟨query, hchannel, hquery, hafter⟩
  · rw [hafter] at h
    refine ⟨h, ?_⟩
    rintro rfl rfl
    cases h with
    | channel hfound => exact absurd (hchannel.symm.trans hfound) (by simp)
    | conversation hfound => exact absurd (hquery.symm.trans hfound) (by simp)
  · rw [hafter] at h
    cases h with
    | channel hfound hwho =>
        rcases Maps.getElem?_insert_eq_some.mp hfound with ⟨rfl, rfl⟩ | ⟨hne, hfound⟩
        · obtain ⟨hother, hwho⟩ := mem_toggleTyping_false.mp hwho
          exact ⟨.channel hchannel hwho, fun _ heq => absurd heq hother⟩
        · exact ⟨.channel hfound hwho, fun heq => absurd heq hne⟩
    | conversation hfound hwho =>
        refine ⟨.conversation hfound hwho, ?_⟩
        rintro rfl rfl
        exact ⟨Option.isSome_of_eq_some hchannel, _, hfound, hwho⟩
  · rw [hafter] at h
    cases h with
    | channel hfound hwho =>
        refine ⟨.channel hfound hwho, ?_⟩
        rintro rfl -
        exact absurd (hchannel.symm.trans hfound) (by simp)
    | conversation hfound hwho =>
        rcases Maps.getElem?_insert_eq_some.mp hfound with ⟨rfl, rfl⟩ | ⟨hne, hfound⟩
        · obtain ⟨hother, hwho⟩ := mem_toggleTyping_false.mp hwho
          exact ⟨.conversation hquery hwho, fun _ heq => absurd heq hother⟩
        · exact ⟨.conversation hfound hwho, fun heq => absurd heq hne⟩

/-- Nobody gets into the shadow by somebody's stopping. -/
theorem shadowed_setTyping_false {model : Model} {target who key other : CaseFolded}
    (h : Shadowed (model.setTyping target who false).1 key other) : Shadowed model key other := by
  obtain ⟨hin, query, hquery, hwho⟩ := h
  rcases model.setTyping_cases target who false with
    ⟨-, -, hafter⟩ | ⟨channel, hchannel, hafter⟩ | ⟨old, -, hold, hafter⟩
  · rw [hafter] at hin hquery
    exact ⟨hin, query, hquery, hwho⟩
  · rw [hafter] at hin hquery
    refine ⟨?_, query, hquery, hwho⟩
    obtain ⟨found, hfound⟩ := Option.isSome_iff_exists.mp hin
    rcases Maps.getElem?_insert_eq_some.mp hfound with ⟨rfl, -⟩ | ⟨-, hfound⟩
    · exact Option.isSome_of_eq_some hchannel
    · exact Option.isSome_of_eq_some hfound
  · rw [hafter] at hin hquery
    refine ⟨hin, ?_⟩
    rcases Maps.getElem?_insert_eq_some.mp hquery with ⟨rfl, rfl⟩ | ⟨-, hquery⟩
    · exact ⟨old, hold, (mem_toggleTyping_false.mp hwho).2⟩
    · exact ⟨query, hquery, hwho⟩

/-- A change that moves no entry shows nobody who was not shown. -/
theorem Edit.shown {i : Isupport} {before after : Model} (hedit : Edit i before after)
    {key who : CaseFolded} (h : Shown after key who) : Shown before key who := by
  cases h with
  | channel hfound hwho =>
      rcases hedit.channels key _ hfound with ⟨old, hold, -, htyping⟩ | ⟨-, htyping⟩
      · rw [htyping] at hwho
        exact .channel hold hwho
      · rw [htyping] at hwho
        exact absurd hwho Std.ExtTreeSet.not_mem_empty
  | conversation hfound hwho =>
      rcases hedit.conversations key _ hfound with ⟨old, hold, -, htyping⟩ | ⟨-, htyping⟩
      · rw [htyping] at hwho
        exact .conversation hold hwho
      · rw [htyping] at hwho
        exact absurd hwho Std.ExtTreeSet.not_mem_empty

/-- Where somebody is shown once somebody else is renamed. -/
theorem shown_rename {model : Model} {casemapping : Casemapping} {source dest : Str}
    {key who : CaseFolded} (h : Shown (model.rename casemapping source dest) key who) :
    Shown model key who ∨ key = casemapping.fold dest ∧
      ∃ query, model.conversation (casemapping.fold source) = some query ∧ who ∈ query.typing := by
  cases h with
  | channel hfound hwho =>
      rw [rename_channel] at hfound
      obtain ⟨channel, hchannel, rfl⟩ := Option.map_eq_some_iff.mp hfound
      exact .inl (.channel hchannel hwho)
  | conversation hfound hwho =>
      unfold conversation at hfound
      rcases model.rename_conversations_cases casemapping source dest with
        ⟨-, hafter⟩ | ⟨query, hquery, hafter⟩
      · rw [hafter] at hfound
        exact .inl (.conversation hfound hwho)
      · rw [hafter, getElem?_moved] at hfound
        by_cases hnew : key = casemapping.fold dest
        · rw [if_pos hnew] at hfound
          rw [← Option.some.inj hfound] at hwho
          exact .inr ⟨hnew, query, hquery, hwho⟩
        · rw [if_neg hnew] at hfound
          by_cases hold : key = casemapping.fold source
          · rw [if_pos hold] at hfound
            cases hfound
          · rw [if_neg hold] at hfound
            exact .inl (.conversation hfound hwho)

/-- Where somebody is shown once a channel is renamed. -/
theorem shown_renameChannel {model after : Model} {casemapping : Casemapping} {source dest : Str}
    (hafter : model.renameChannel casemapping source dest = some after) {key who : CaseFolded}
    (h : Shown after key who) :
    Shown model key who ∨ key = casemapping.fold dest ∧
      ∃ channel, model.channel (casemapping.fold source) = some channel ∧ who ∈ channel.typing := by
  unfold renameChannel at hafter
  obtain ⟨old, hold, rfl⟩ := Option.map_eq_some_iff.mp hafter
  cases h with
  | channel hfound hwho =>
      rcases Maps.getElem?_insert_eq_some.mp hfound with ⟨rfl, rfl⟩ | ⟨-, hfound⟩
      · exact .inr ⟨rfl, old, hold, hwho⟩
      · exact .inl (.channel (Maps.getElem?_erase_eq_some.mp hfound).2 hwho)
  | conversation hfound hwho => exact .inl (.conversation hfound hwho)

end Model

namespace Timers

/-! ### Deadlines that fall due -/

theorem getElem?_foldl_erase (map : Std.ExtTreeMap Deadline ℕ) (due : List Deadline)
    (deadline : Deadline) :
    (due.foldl Std.ExtTreeMap.erase map)[deadline]? =
      if deadline ∈ due then none else map[deadline]? := by
  induction due generalizing map with
  | nil => rfl
  | cons first due ih =>
      rw [List.foldl_cons, ih, Std.ExtTreeMap.getElem?_erase]
      simp only [Std.LawfulEqCmp.compare_eq_iff_eq]
      by_cases hmem : deadline ∈ due
      · rw [if_pos hmem, if_pos (List.mem_cons_of_mem _ hmem)]
      · rw [if_neg hmem]
        by_cases heq : first = deadline
        · rw [if_pos heq, if_pos (heq ▸ List.mem_cons_self)]
        · rw [if_neg heq, if_neg]
          rw [List.mem_cons, not_or]
          exact ⟨fun h => heq h.symm, hmem⟩

/-- A deadline falls due at its instant, and not before. -/
theorem mem_expire (timers : Timers) (now : Now) (deadline : Deadline) :
    deadline ∈ (timers.expire now).2 ↔
      ∃ atMs, timers.deadlines[deadline]? = some atMs ∧ atMs ≤ now.monotonicMs :=
  mem_dueKeys timers.deadlines now.monotonicMs id deadline

/-- What falls due is gone from the schedule, and nothing else is. -/
theorem getElem?_expire (timers : Timers) (now : Now) (deadline : Deadline) :
    (timers.expire now).1.deadlines[deadline]? =
      if deadline ∈ (timers.expire now).2 then none else timers.deadlines[deadline]? :=
  getElem?_foldl_erase timers.deadlines _ deadline

/-- The instant at which somebody's typing goes stale. -/
def armed (timers : Timers) (key who : CaseFolded) : Option ℕ :=
  timers.deadlines[Deadline.typing key.asStr who.asStr]?

theorem armed_set_typing (timers : Timers) (target who key other : CaseFolded) (atMs : ℕ) :
    (timers.set (.typing target.asStr who.asStr) atMs).armed key other =
      if key = target ∧ other = who then some atMs else timers.armed key other := by
  obtain ⟨target⟩ := target
  obtain ⟨who⟩ := who
  obtain ⟨key⟩ := key
  obtain ⟨other⟩ := other
  unfold armed
  rw [Client.getElem?_set]
  simp only [Deadline.typing.injEq, CaseFolded.mk.injEq]

theorem armed_clear_typing (timers : Timers) (target who key other : CaseFolded) :
    (timers.clear (.typing target.asStr who.asStr)).armed key other =
      if key = target ∧ other = who then none else timers.armed key other := by
  obtain ⟨target⟩ := target
  obtain ⟨who⟩ := who
  obtain ⟨key⟩ := key
  obtain ⟨other⟩ := other
  unfold armed
  rw [Client.getElem?_clear]
  simp only [Deadline.typing.injEq, CaseFolded.mk.injEq]

end Timers

namespace Client

open Model Session Timers

/-! ### The clock -/

theorem armed_foldl_expireTimers (now : Now) (timers : Timers) (due : List Deadline)
    (key who : CaseFolded) :
    (due.foldl (expireTimers now) timers).armed key who = timers.armed key who := by
  induction due generalizing timers with
  | nil => rfl
  | cons deadline due ih =>
      rw [List.foldl_cons, ih]
      cases deadline with
      | pingKeepalive =>
          show ((timers.set .deadLink _).deadlines[_]?) = _
          rw [getElem?_set, if_neg (by simp)]
          rfl
      | _ => rfl

theorem shadowed_expireModel {model : Model} {deadline : Deadline} {key who : CaseFolded}
    (h : Shadowed (expireModel model deadline) key who) : Shadowed model key who := by
  cases deadline with
  | typing target other => exact shadowed_setTyping_false h
  | _ => exact h

/-- Who is shown after deadlines fell due was shown before, and had no such deadline. -/
theorem shown_foldl_expireModel {model : Model} {due : List Deadline} {key who : CaseFolded}
    (h : Shown (due.foldl expireModel model) key who) :
    Shown model key who ∧
      (Deadline.typing key.asStr who.asStr ∈ due → Shadowed model key who) := by
  induction due generalizing model with
  | nil => exact ⟨h, fun hmem => absurd hmem List.not_mem_nil⟩
  | cons deadline due ih =>
      obtain ⟨hshown, hdue⟩ := ih h
      have hfirst : Shown model key who ∧
          (Deadline.typing key.asStr who.asStr = deadline → Shadowed model key who) := by
        cases deadline with
        | typing target other =>
            obtain ⟨hbefore, hsame⟩ := shown_setTyping_false hshown
            refine ⟨hbefore, ?_⟩
            intro heq
            obtain ⟨rfl, rfl⟩ := Deadline.typing.inj heq
            exact hsame rfl rfl
        | _ => exact ⟨hshown, by simp⟩
      refine ⟨hfirst.1, ?_⟩
      intro hmem
      rcases List.mem_cons.mp hmem with heq | hmem
      · exact hfirst.2 heq
      · exact shadowed_expireModel (hdue hmem)

/-- **A tick at somebody's deadline clears them**, unless a channel stands in the way. -/
theorem tick_clears (c : Client) (now : Now) {key who : CaseFolded} {atMs : ℕ}
    (harmed : c.timers.armed key who = some atMs) (hdue : atMs ≤ now.monotonicMs)
    (hshadow : ¬ Shadowed c.model key who) : ¬ Shown (c.tick now).model key who := by
  have hbearing := congrArg Bearing.model (c.tick_bearing now)
  intro h
  rw [show (c.tick now).model = _ from hbearing] at h
  exact hshadow ((shown_foldl_expireModel h).2 ((mem_expire _ _ _).mpr ⟨atMs, harmed, hdue⟩))

/-! ### Deeds that leave nobody behind -/

/-- True when everybody who is shown as typing has a deadline. -/
def Armed (b : Bearing) : Prop :=
  ∀ key who, Shown b.model key who → (b.timers.armed key who).isSome = true

/-- A line that is folded and moves nobody away from their deadline: a `NICK` of somebody whose
conversation shows nobody as typing that has no deadline under the new nick, or a `RENAME` of such a
channel, or any other line. -/
def SparesFolded (c : Client) (line : Message) : Prop :=
  (toAsciiUppercase line.command = "NICK" → ∀ dest query, line.param 0 = some dest →
    c.model.conversation (c.isupport.fold (sender line)) = some query →
      ∀ who ∈ query.typing, (c.timers.armed (c.isupport.fold dest) who).isSome = true) ∧
  (toAsciiUppercase line.command = "RENAME" → ∀ source dest channel, line.param 0 = some source →
    line.param 1 = some dest → c.model.channel (c.isupport.fold source) = some channel →
      ∀ who ∈ channel.typing, (c.timers.armed (c.isupport.fold dest) who).isSome = true)

/-- Where a typing notification is shown. -/
def typingPlace (c : Client) (target : Str) (source : Source) : CaseFolded :=
  c.isupport.fold (if c.isupport.isChannel target then target else source.name)

/-- A line that does not tell of somebody's stopping where a channel stands in the way. -/
def SparesTyping (c : Client) (message : Message) : Prop :=
  message.is "TAGMSG" = true → ∀ state target source, message.tag "+typing" = some state →
    message.param 0 = some target → message.source = some source → state ≠ ("active" : Str) →
      ¬ Shadowed c.model (c.typingPlace target source) (c.isupport.fold source.name)

section Run

variable [Primitives]

/-- A deed that leaves nobody behind who is shown as typing. -/
def SparesTypists : Deed → Prop
  | .line c message => SparesTyping c message ∧
      ∀ p ∈ (c.noted message).delivered message, SparesFolded p.1 p.2
  | .host c (.tick now) => ∀ key who atMs, c.timers.armed key who = some atMs →
      atMs ≤ now.monotonicMs → ¬ Shadowed c.model key who
  | .host _ _ => True

omit [Primitives] in
theorem armed_of_shown {before after : Bearing} (h : Armed before)
    (htimers : after.timers = before.timers)
    (hshown : ∀ key who, Shown after.model key who → Shown before.model key who) : Armed after := by
  intro key who hwho
  rw [htimers]
  exact h key who (hshown key who hwho)

theorem fold_armed {c : Client} {line : Message} (historical : Bool) (hspares : SparesFolded c line)
    (h : Armed c.bearing) : Armed (c.fold line historical).bearing := by
  rw [fold_eq]
  intro key who hwho
  have happly : Shown (apply (c.context historical) line).1.model key who := hwho
  show (c.timers.armed key who).isSome = true
  by_cases hnick : toAsciiUppercase line.command = "NICK"
  · rw [apply_nick _ line hnick] at happly
    cases hdest : line.param 0 with
    | none =>
        rw [hdest] at happly
        exact h key who happly
    | some dest =>
        rw [hdest] at happly
        rcases shown_rename happly with hbefore | ⟨rfl, query, hquery, hin⟩
        · exact h key who hbefore
        · exact hspares.1 hnick dest query hdest hquery who hin
  · by_cases hrename : toAsciiUppercase line.command = "RENAME"
    · rcases apply_rename (c.context historical) line hrename with
        ⟨hsame, -⟩ | ⟨source, dest, model, hsource, hdest, hmodel, hsame⟩
      · rw [hsame] at happly
        exact h key who happly
      · rw [hsame] at happly
        rcases shown_renameChannel hmodel happly with hbefore | ⟨rfl, channel, hchannel, hin⟩
        · exact h key who hbefore
        · exact hspares.2 hrename source dest channel hsource hdest hchannel who hin
    · exact h key who ((apply_edit (c.context historical) line hnick hrename).model.shown happly)

omit [Primitives] in
theorem typed_armed {b : Bearing} (target who : CaseFolded) (typing : Bool) (monotonicMs : ℕ)
    (hspares : typing = false → ¬ Shadowed b.model target who) (h : Armed b) :
    Armed (b.typed target who typing monotonicMs) := by
  intro key other hother
  cases typing with
  | true =>
      show ((b.timers.set _ _).armed key other).isSome = true
      rw [armed_set_typing]
      by_cases hsame : key = target ∧ other = who
      · rw [if_pos hsame]
        rfl
      · rw [if_neg hsame]
        exact h key other ((shown_setTyping_true hother).resolve_left hsame)
  | false =>
      show ((b.timers.clear _).armed key other).isSome = true
      obtain ⟨hbefore, hshadow⟩ := shown_setTyping_false hother
      rw [armed_clear_typing, if_neg]
      · exact h key other hbefore
      · intro hsame
        exact hspares rfl (hshadow hsame.1 hsame.2)

omit [Primitives] in
theorem tick_armed {c : Client} {now : Now}
    (hspares : ∀ key who atMs, c.timers.armed key who = some atMs → atMs ≤ now.monotonicMs →
      ¬ Shadowed c.model key who)
    (h : Armed c.bearing) : Armed (c.tick now).bearing := by
  rw [tick_bearing]
  intro key who hwho
  show (((c.timers.expire now).2.foldl (expireTimers now) _).armed key who).isSome = true
  rw [armed_foldl_expireTimers]
  obtain ⟨hbefore, hshadow⟩ := shown_foldl_expireModel hwho
  unfold armed
  rw [getElem?_expire, if_neg]
  · exact h key who hbefore
  · intro hmem
    obtain ⟨atMs, harmed, hdue⟩ := (mem_expire _ _ _).mp hmem
    exact hspares key who atMs harmed hdue (hshadow hmem)

omit [Primitives] in
theorem blind_armed : Blind Armed := by
  intro b batches timers htimers h key who hwho
  unfold armed
  show (timers.deadlines[Deadline.typing key.asStr who.asStr]?).isSome = true
  rw [htimers]
  exact h key who hwho

/-- **One line** that leaves nobody behind. -/
theorem handleMessage_armed {c : Client} {message : Message}
    (hspares : SparesTypists (.line c message)) (h : Armed c.bearing) :
    Armed (c.handleMessage message).bearing := by
  refine handleMessage_keeps_bearing blind_armed c message ?_ ?_ ?_ ?_ h
  · intro b nick hb
    refine armed_of_shown hb rfl ?_
    intro key who hwho
    cases hwho with
    | channel hchannel hin => exact .channel hchannel hin
    | conversation hquery hin => exact .conversation hquery hin
  · intro _ hb
    rw [handleIsupport_bearing]
    exact hb
  · intro d hline hd hb
    obtain ⟨state, target, source, hstate, htarget, hsource, hd⟩ := handleTyping_bearing hd
    rw [hd]
    refine typed_armed _ _ _ _ ?_ hb
    intro hidle
    exact hspares.1 hline state target source hstate htarget hsource (by simpa using hidle)
  · intro p historical hp hb
    exact fold_armed historical (hspares.2 p hp) hb

/-- **One input of the host** that leaves nobody behind. -/
theorem step_armed {c : Client} {input : Input} (hbytes : ∀ data, input ≠ .bytes data)
    (hspares : SparesTypists (.host c input)) (h : Armed c.bearing) :
    Armed (c.step input).bearing := by
  refine step_keeps_bearing blind_armed c hbytes ?_ ?_ ?_ ?_ h
  · intro _ b hb
    refine armed_of_shown hb rfl ?_
    intro key who hwho
    have hwhois : Edit b.isupport b.model b.model.forgetWhois := Edit.of_maps rfl rfl rfl rfl
    exact (hwhois.trans (Edit.forgetMembers _)).shown hwho
  · intro now hinput hb
    rw [hinput] at hspares
    exact tick_armed hspares hb
  · intro _ _ _ hb
    exact hb
  · intro line hline hb
    refine fold_armed false ?_ hb
    rcases hline with hline | hline
    · exact ⟨fun hnick => absurd (hline ▸ hnick) (by decide),
        fun hrename => absurd (hline ▸ hrename) (by decide)⟩
    · exact ⟨fun hnick => absurd (hline ▸ hnick) (by decide),
        fun hrename => absurd (hline ▸ hrename) (by decide)⟩

/-- **Nobody types forever**, in every run whose deeds leave nobody behind: who is shown as typing
has a deadline, and a tick at that deadline clears them unless a channel stands in the way. -/
theorem run_typing_expires (config : Config) (inputs : List Input)
    (h : ∀ deed ∈ (new config).deeds inputs, SparesTypists deed) (key who : CaseFolded)
    (hshown : Shown ((new config).run inputs).model key who) :
    ∃ atMs, ((new config).run inputs).timers.armed key who = some atMs ∧
      ∀ now : Now, atMs ≤ now.monotonicMs →
        ¬ Shadowed ((new config).run inputs).model key who →
          ¬ Shown (((new config).run inputs).tick now).model key who := by
  have hrun := run_along (P := fun _ c => Armed c.bearing) (C := fun _ deed => SparesTypists deed)
    (fun _ _ _ _ _ hc => hc) (fun _ c message hspares hc => handleMessage_armed hspares hc)
    (fun _ c input hbytes hspares hc => step_armed hbytes hspares hc) (c := new config) ?_ inputs
    (along_of_forall h)
  · obtain ⟨atMs, harmed⟩ := Option.isSome_iff_exists.mp (hrun key who hshown)
    exact ⟨atMs, harmed, fun now hdue hshadow => tick_clears _ now harmed hdue hshadow⟩
  · intro key who hwho
    cases hwho with
    | channel hchannel =>
        exact absurd hchannel (by simp [new, bearing, Model.channel, Model.withRetention])
    | conversation hquery =>
        exact absurd hquery (by simp [new, bearing, Model.conversation, Model.withRetention])

/-- True for a deed that neither stops anybody nor renames what anybody is typing in. -/
def Deed.leaves : Deed → Bool
  | .line c message => (message.tag "+typing").all (· == ("active" : Str)) &&
      ((c.noted message).delivered message).all fun p =>
        toAsciiUppercase p.2.command != "RENAME" && (toAsciiUppercase p.2.command != "NICK" ||
          (p.1.model.conversation (p.1.isupport.fold (sender p.2))).isNone)
  | .host c (.tick _) => c.model.conversations.isEmpty
  | .host _ _ => true

theorem sparesTypists_of_leaves {deed : Deed} (h : deed.leaves = true) : SparesTypists deed := by
  cases deed with
  | line c message =>
      have hboth := Bool.and_eq_true_iff.mp (show (_ && _) = true from h)
      refine ⟨?_, ?_⟩
      · intro _ state target source hstate _ _ hidle
        have hactive := hboth.1
        rw [hstate, Option.all_some, beq_iff_eq] at hactive
        exact absurd hactive hidle
      · intro p hp
        have hline := List.all_eq_true.mp hboth.2 p hp
        rw [Bool.and_eq_true, bne_iff_ne, Bool.or_eq_true, bne_iff_ne] at hline
        refine ⟨?_, fun hrename => absurd hrename hline.1⟩
        intro hnick dest query _ hquery
        have hnone := hline.2.resolve_left fun hne => hne hnick
        rw [hquery] at hnone
        cases hnone
  | host c input =>
      cases input with
      | tick now =>
          have hempty : c.model.conversations = ∅ := Std.ExtTreeMap.isEmpty_iff.mp h
          intro key who _ _ _ hshadow
          obtain ⟨-, query, hquery, -⟩ := hshadow
          unfold Model.conversation at hquery
          rw [hempty, Std.ExtTreeMap.getElem?_empty] at hquery
          cases hquery
      | _ => trivial

omit [Primitives] in
/-- A run in which somebody who is typing takes another nick. -/
theorem run_typing_expires_nick : letI := Primitives.ascii
    let c := (new (.new "me")).run [.connected, .bytes (Utf8.encode
      ":s 001 me :hi\n:me!u@h JOIN #a\n@+typing=active :bob!u@h TAGMSG #a\n:bob!u@h NICK rob\n")]
    ∃ atMs, c.timers.armed ⟨"#a"⟩ ⟨"bob"⟩ = some atMs ∧ ∀ now : Now, atMs ≤ now.monotonicMs →
      ¬ Shadowed c.model ⟨"#a"⟩ ⟨"bob"⟩ → ¬ Shown (c.tick now).model ⟨"#a"⟩ ⟨"bob"⟩ := by
  let _ := Primitives.ascii
  intro c
  refine run_typing_expires (.new "me") _ ?_ ⟨"#a"⟩ ⟨"bob"⟩ ?_
  · intro deed hdeed
    have hleaves : ((new (.new "me")).deeds [.connected, .bytes (Utf8.encode
        ":s 001 me :hi\n:me!u@h JOIN #a\n@+typing=active :bob!u@h TAGMSG #a\n:bob!u@h NICK rob\n")]).all
        Deed.leaves = true := by decide +kernel
    exact sparesTypists_of_leaves (List.all_eq_true.mp hleaves deed hdeed)
  · have hshown : (c.model.channel ⟨"#a"⟩).any (fun channel => channel.typing.contains ⟨"bob"⟩) =
        true := by decide +kernel
    obtain ⟨channel, hchannel, hin⟩ := (Option.any_eq_true _ _).mp hshown
    exact .channel hchannel (Std.ExtTreeSet.contains_iff_mem.mp hin)

omit [Primitives] in
/-- **Who takes another nick while typing to us is left behind.** -/
theorem typist_left_behind : letI := Primitives.ascii
    let c := (new (.new "me")).run [.connected, .bytes (Utf8.encode
      ":s 001 me :hi\n:bob!u@h PRIVMSG me :yo\n@+typing=active :bob!u@h TAGMSG me\n:bob!u@h NICK rob\n")]
    c.Reachable ∧ Shown c.model ⟨"rob"⟩ ⟨"bob"⟩ ∧ c.timers.armed ⟨"rob"⟩ ⟨"bob"⟩ = none := by
  let _ := Primitives.ascii
  intro c
  refine ⟨⟨_, _, rfl⟩, ?_, by decide +kernel⟩
  have hshown : (c.model.conversation ⟨"rob"⟩).any (fun query => query.typing.contains ⟨"bob"⟩) =
      true := by decide +kernel
  obtain ⟨query, hquery, hin⟩ := (Option.any_eq_true _ _).mp hshown
  exact .conversation hquery (Std.ExtTreeSet.contains_iff_mem.mp hin)

end Run

end Client

end ObbyClient

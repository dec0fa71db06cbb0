import ObbyClient.Engine.Deeds
import ObbyClient.Engine.Reports

/-!
# A channel is what was said of it

A client keeps its channels in maps that every line, every batch and every lost connection changes. 
Yet after any run, what it knows of a channel is only the remarks on it since it was entered.

* `Client.Deed.reports`, `Client.runReports` — what a run reports;
* `Client.run_facts`, `Client.run_story` — the model after a run is the story of each channel;
* `Client.run_settled` — topics, modes and what was attached are the last thing said;
* `Client.run_present` — a member came, and nothing since took them off.
-/

namespace ObbyClient

open Rooms

/-! ### What a story settles -/

namespace Remark

/-- The topic that a remark gives a channel. -/
def givesTopic : Remark → Option (Option Str)
  | topic text _ => some text
  | topicReply text => some text
  | _ => none

/-- Who a remark says has set the topic. -/
def givesSetter : Remark → Option (Option Str)
  | topic _ setter => some setter
  | _ => none

/-- What a remark says of one mode. -/
def givesMode (letter : Char) : Remark → Option (Option (Option Str))
  | modeSet other arg => if other = letter then some (some arg) else none
  | modeUnset other => if other = letter then some none else none
  | _ => none

/-- What a remark says of one named mode. -/
def givesNamed (name : Str) : Remark → Option (Option (Option Str))
  | namedSet other param => if other = name then some (some param) else none
  | namedUnset other => if other = name then some none else none
  | _ => none

/-- What a remark attaches to a channel under one key. -/
def givesMetadata (key : Str) : Remark → Option (Option Str)
  | metadata other value => if other = key then some value else none
  | _ => none

/-- True of a remark that puts somebody on the list of members. -/
def Brings : Remark → CaseFolded → Prop
  | came other, who => other = who
  | listed other _, who => other = who
  | _, _ => False

/-- Where a remark leaves somebody who was on the list. -/
def carry : Remark → CaseFolded → Option CaseFolded
  | went other, who => if who = other then none else some who
  | renamed source dest, who => if who = source then some dest else some who
  | cleared, _ => none
  | _, who => some who

end Remark

namespace Facts

variable (facts : Facts) (remark : Remark)

theorem act_topic : (facts.act remark).topic = remark.givesTopic.getD facts.topic := by
  fun_cases Facts.act facts remark <;> rfl

theorem act_topicBy : (facts.act remark).topicBy = remark.givesSetter.getD facts.topicBy := by
  fun_cases Facts.act facts remark <;> rfl

theorem act_modes (letter : Char) :
    (facts.act remark).modes letter = (remark.givesMode letter).getD (facts.modes letter) := by
  fun_cases Facts.act facts remark
  case case11 other arg =>
    simp only [Remark.givesMode, Function.update_apply, eq_comm]
    split <;> rfl
  case case12 other =>
    simp only [Remark.givesMode, Function.update_apply, eq_comm]
    split <;> rfl
  all_goals rfl

theorem act_metadata (key : Str) :
    (facts.act remark).metadata key = (remark.givesMetadata key).getD (facts.metadata key) := by
  fun_cases Facts.act facts remark
  case case13 other value =>
    simp only [Remark.givesMetadata, Function.update_apply, eq_comm]
    split <;> rfl
  all_goals rfl

theorem act_namedModes (name : Str) :
    (facts.act remark).namedModes name = (remark.givesNamed name).getD (facts.namedModes name) := by
  fun_cases Facts.act facts remark
  case case14 other param =>
    simp only [Remark.givesNamed, Function.update_apply, eq_comm]
    split <;> rfl
  case case15 other =>
    simp only [Remark.givesNamed, Function.update_apply, eq_comm]
    split <;> rfl
  all_goals rfl

/-- True of who is on the list of members. -/
def Present (facts : Facts) (who : CaseFolded) : Prop := (facts.members who).isSome = true

/-- **One remark**: whoever is there afterwards was brought by it, or was there and carried on. -/
theorem act_present (who : CaseFolded) :
    (facts.act remark).Present who ↔
      remark.Brings who ∨ ∃ earlier, facts.Present earlier ∧ remark.carry earlier = some who := by
  unfold Present
  fun_cases Facts.act facts remark
  case case3 other =>
    by_cases heq : who = other
    · simp [Remark.Brings, heq]
    · simp [Remark.Brings, Remark.carry, heq, Ne.symm heq]
  case case4 other prefixes =>
    by_cases heq : who = other
    · simp [Remark.Brings, heq]
    · simp [Remark.Brings, Remark.carry, heq, Ne.symm heq]
  case case5 other =>
    by_cases heq : who = other
    · simp [Remark.Brings, Remark.carry, heq]
    · simp only [Remark.Brings, Remark.carry, Function.update_of_ne heq, false_or]
      constructor
      · intro hthere
        exact ⟨who, hthere, if_neg heq⟩
      · rintro ⟨earlier, hthere, hcarry⟩
        split at hcarry
        · cases hcarry
        · obtain rfl := Option.some.inj hcarry
          exact hthere
  case case6 source dest hnone =>
    simp only [Remark.Brings, Remark.carry, false_or]
    constructor
    · intro hthere
      have hne : who ≠ source := by
        rintro rfl
        simp [hnone] at hthere
      exact ⟨who, hthere, if_neg hne⟩
    · rintro ⟨earlier, hthere, hcarry⟩
      have hne : earlier ≠ source := by
        rintro rfl
        simp [hnone] at hthere
      rw [if_neg hne] at hcarry
      obtain rfl := Option.some.inj hcarry
      exact hthere
  case case7 source dest member hsome =>
    simp only [Remark.Brings, Remark.carry, false_or]
    by_cases hdest : who = dest
    · subst hdest
      simp only [Function.update_self, Option.isSome_some, true_iff]
      exact ⟨source, by simp [hsome], if_pos rfl⟩
    · simp only [Function.update_of_ne hdest]
      by_cases hsource : who = source
      · subst hsource
        simp only [Function.update_self, Option.isSome_none, Bool.false_eq_true, false_iff]
        rintro ⟨earlier, -, hcarry⟩
        split at hcarry
        · exact hdest (Option.some.inj hcarry).symm
        · rename_i hne
          exact hne (Option.some.inj hcarry)
      · simp only [Function.update_of_ne hsource]
        constructor
        · intro hthere
          exact ⟨who, hthere, if_neg hsource⟩
        · rintro ⟨earlier, hthere, hcarry⟩
          split at hcarry
          · exact absurd (Option.some.inj hcarry).symm hdest
          · obtain rfl := Option.some.inj hcarry
            exact hthere
  case case8 => simp [Remark.Brings, Remark.carry]
  case case9 other c order =>
    by_cases heq : who = other <;> simp [Remark.Brings, Remark.carry, heq]
  case case10 other c =>
    by_cases heq : who = other <;> simp [Remark.Brings, Remark.carry, heq]
  all_goals simp [Remark.Brings, Remark.carry]

end Facts

/-! ### What a run reports -/

namespace Client

theorem typing_facts (model : Model) (target who : CaseFolded) (typing : Bool) :
    (model.setTyping target who typing).1.facts = model.facts := by
  obtain ⟨-, -, hafter⟩ | ⟨channel, hchannel, hafter⟩ | ⟨query, -, -, hafter⟩ :=
    model.setTyping_cases target who typing
  · rw [hafter]
  · rw [hafter]
    exact Model.facts_setChannel_same hchannel rfl
  · rw [hafter]
    rfl

theorem down_facts (model : Model) :
    model.forgetWhois.forgetMembers.facts =
      Rooms.hear .blank Facts.act model.facts (.everywhere .cleared) := by
  refine Model.facts_channels_map_act model.forgetWhois fun channel => ?_
  simp only [Channel.facts, getElem?_empty, Facts.act]

theorem facts_blind (rooms : CaseFolded → Option Facts) : Blind fun b => b.model.facts = rooms :=
  fun _ _ _ _ h => h

theorem reports_said (line : Message) (h : line.command = "PRIVMSG" ∨ line.command = "NOTICE")
    (i : Isupport)
    (me : Str) : Session.reports i me line = [] := by
  unfold Session.reports
  obtain h | h := h <;> rw [h] <;> rfl

section Reports

variable [Primitives]

/-- What is reported by the lines that something makes the client fold, and by a connection that is
lost. -/
def Deed.reports : Deed → List (Report CaseFolded Remark)
  | .line c message =>
    ((c.noted message).delivered message).flatMap fun p =>
      Session.reports p.1.isupport p.1.model.me.nick p.2
  | .host _ .disconnected => [.everywhere .cleared]
  | .host _ _ => []

/-- What a run reports. -/
def runReports (c : Client) (inputs : List Input) : List (Report CaseFolded Remark) :=
  (c.deeds inputs).flatMap Deed.reports

theorem fold_facts (c : Client) (line : Message) (historical : Bool) :
    (c.fold line historical).model.facts =
      (Session.reports c.isupport c.model.me.nick line).foldl (Rooms.hear .blank Facts.act)
        c.model.facts := by
  rw [fold_eq]
  exact Session.apply_reports (c.context historical) line

/-- **One line** is as good as the lines that it makes the client fold. -/
theorem handleMessage_facts (c : Client) (message : Message) :
    (c.handleMessage message).model.facts =
      (Deed.reports (.line c message)).foldl (Rooms.hear .blank Facts.act) c.model.facts := by
  unfold Deed.reports
  cases hclaims : claims message with
  | true =>
    dsimp only
    rw [delivered_of_claims _ hclaims]
    refine handleMessage_keeps_bearing (P := fun b => b.model.facts = c.model.facts) (facts_blind _)
      c message
      (fun _ _ hb => hb) ?_ ?_ ?_ rfl
    · intro _ hb
      rw [handleIsupport_bearing]
      exact hb
    · intro d _ hd hb
      obtain ⟨_, _, _, -, -, -, hd⟩ := handleTyping_bearing hd
      rw [hd]
      exact (typing_facts ..).trans hb
    · intro p historical hp
      rw [delivered_of_claims _ hclaims] at hp
      cases hp
  | false =>
    rw [handleMessage_eq]
    refine dispatch_delivers (Q := fun done d => d.model.facts =
      (done.flatMap fun p => Session.reports p.1.isupport p.1.model.me.nick p.2).foldl
        (Rooms.hear .blank Facts.act) c.model.facts) (c.noted message) hclaims (fun _ => rfl) ?_
    intro done p historical _ hdone
    rw [fold_facts, hdone, List.flatMap_append, List.foldl_append, List.flatMap_singleton]

/-- **One input of the host.** -/
theorem step_facts (c : Client) {input : Input} (hbytes : ∀ data, input ≠ .bytes data) :
    (c.step input).model.facts = (Deed.reports (.host c input)).foldl (Rooms.hear .blank Facts.act)
      c.model.facts := by
  by_cases hdown : input = .disconnected
  · subst hdown
    obtain ⟨timers, hafter, -⟩ := c.handleDisconnected_bearing
    have hmodel : (c.step .disconnected).model = c.model.forgetWhois.forgetMembers :=
      congrArg Bearing.model hafter
    rw [hmodel]
    exact down_facts c.model
  · have hnone : Deed.reports (.host c input) = [] := by
      cases input with
      | disconnected => exact absurd rfl hdown
      | _ => rfl
    rw [hnone]
    refine step_keeps_bearing (P := fun b => b.model.facts = c.model.facts) (facts_blind _) c hbytes
      (fun h => absurd h hdown) ?_ (fun _ _ _ h => h) ?_ rfl
    · intro now _ h
      exact tick_keeps (P := fun model => model.facts = c.model.facts)
        (fun _ _ _ hmodel => (typing_facts ..).trans hmodel) c now h
    · intro line hline h
      refine (fold_facts ..).trans ?_
      have hnothing := reports_said { line with source := some ⟨c.nick, none, none⟩ } hline
      rw [hnothing]
      exact h

/-- **Any run is as good as what it reports.** -/
theorem run_hear (c : Client) (inputs : List Input) :
    (c.run inputs).model.facts = (c.runReports inputs).foldl (Rooms.hear .blank Facts.act)
      c.model.facts := by
  refine run_deeds (Q := fun seen d => d.model.facts =
    (seen.flatMap Deed.reports).foldl (Rooms.hear .blank Facts.act) c.model.facts) ?_ ?_ ?_ [] rfl
      inputs
  · intro _ _ _ _ _ h
    exact h
  · intro seen d message h
    rw [handleMessage_facts, h, List.flatMap_append, List.foldl_append, List.flatMap_singleton]
  · intro seen d input hbytes h
    rw [step_facts d hbytes, h, List.flatMap_append, List.foldl_append, List.flatMap_singleton]

/-! ### What a client knows -/

omit [Primitives] in
theorem new_facts (config : Config) : (new config).model.facts = fun _ => none := by
  funext key
  simp [new, Model.facts, Model.channel, Model.withRetention]

/-- **After any run, a client knows of each channel the story since it was entered**, and of no
other channel anything. -/
theorem run_facts (config : Config) (inputs : List Input) :
    ((new config).run inputs).model.facts = fun key =>
      (story ((new config).runReports inputs) key).map (List.foldl Facts.act .blank) := by
  rw [run_hear, new_facts]
  exact foldl_hear Facts.blank Facts.act _

/-- **A channel is its story.**  As long as it keeps its name, the story is every remark on it since
we came in; and what was known of it before we last left has no part in it. -/
theorem run_story (config : Config) (inputs : List Input) (key : CaseFolded) :
    (((new config).run inputs).model.channel key).map Channel.facts =
        (story ((new config).runReports inputs) key).map (List.foldl Facts.act .blank) ∧
      ∀ before after, (new config).runReports inputs = before ++ .entered key :: after →
        story before key = none → (∀ report ∈ after, ¬ report.ends key) →
          ∃ channel, ((new config).run inputs).model.channel key = some channel ∧
            channel.facts = (after.filterMap (Report.remarkOn key)).foldl Facts.act .blank := by
  have hknown := congrFun (run_facts config inputs) key
  refine ⟨hknown, ?_⟩
  intro before after hsplit hout hstays
  rw [hsplit, story_since hout hstays, Option.map_some] at hknown
  exact Option.map_eq_some_iff.mp hknown

omit [Primitives] in
/-- A channel that is entered when out: what was said of it before we left is no part of it. -/
example : letI := Primitives.ascii
    let c := new (.new "me")
    let before := [Input.connected, .bytes (Utf8.encode
      ":s 001 me :hi\n:me!u@h JOIN #a\n:bob!u@h TOPIC #a :old\n:me!u@h PART #a\n")]
    let after := [Input.bytes (Utf8.encode ":me!u@h JOIN #a\n:bob!u@h TOPIC #a :new\n")]
    (story (c.runReports before) ⟨"#a"⟩).isNone = true ∧
      (story (c.runReports (before ++ after)) ⟨"#a"⟩).map (·.filterMap Remark.givesTopic) =
        some [some ("new" : Str)] ∧
      ((c.run (before ++ after)).model.channel ⟨"#a"⟩).map (·.topic) =
        some (some ("new" : Str)) := by
  let _ := Primitives.ascii
  intro c before after
  decide +kernel

/-- **Topics, modes and what was attached** to a channel are the last thing that its story says of
them. -/
theorem run_settled (config : Config) (inputs : List Input) (key : CaseFolded) :
    (((new config).run inputs).model.channel key).map (fun channel =>
        (channel.topic, channel.topicBy, (channel.modes[·]?), (channel.metadata[·]?),
          (channel.namedModes[·]?))) =
      (story ((new config).runReports inputs) key).map fun remarks =>
        ((remarks.filterMap Remark.givesTopic).getLastD none,
          (remarks.filterMap Remark.givesSetter).getLastD none,
          (fun letter => (remarks.filterMap (Remark.givesMode letter)).getLastD none),
          (fun key => (remarks.filterMap (Remark.givesMetadata key)).getLastD none),
          fun name => (remarks.filterMap (Remark.givesNamed name)).getLastD none) := by
  have hknown := congrFun (run_facts config inputs) key
  have hfields := congrArg (Option.map fun facts : Facts =>
    (facts.topic, facts.topicBy, facts.modes, facts.metadata, facts.namedModes)) hknown
  simp only [Model.facts, Option.map_map] at hfields
  refine hfields.trans ?_
  congr 1
  funext remarks
  simp only [Function.comp_apply, Prod.mk.injEq]
  refine ⟨?_, ?_, ?_, ?_, ?_⟩
  · exact foldl_settled Facts.topic Facts.act_topic Facts.blank remarks
  · exact foldl_settled Facts.topicBy Facts.act_topicBy Facts.blank remarks
  · funext letter
    exact foldl_settled (fun facts => facts.modes letter) (fun facts remark =>
      facts.act_modes remark letter) Facts.blank remarks
  · funext key
    exact foldl_settled (fun facts => facts.metadata key) (fun facts remark =>
      facts.act_metadata remark key) Facts.blank remarks
  · funext name
    exact foldl_settled (fun facts => facts.namedModes name) (fun facts remark =>
      facts.act_namedModes remark name) Facts.blank remarks

/-- **A member is somebody whom the story brought**, under whatever name, and whom nothing since
took off. -/
theorem run_present (config : Config) (inputs : List Input) (key who : CaseFolded) :
    (∃ channel, ((new config).run inputs).model.channel key = some channel ∧
      who ∈ channel.members) ↔
      ∃ remarks, story ((new config).runReports inputs) key = some remarks ∧
        ∃ before remark after earlier, remarks = before ++ remark :: after ∧ remark.Brings earlier ∧
          carryAll Remark.carry after earlier = some who := by
  have hknown := congrFun (run_facts config inputs) key
  have hcame : ∀ remarks, (List.foldl Facts.act .blank remarks).Present who ↔
      ∃ before remark after earlier, remarks = before ++ remark :: after ∧ remark.Brings earlier ∧
        carryAll Remark.carry after earlier = some who := by
    intro remarks
    rw [foldl_present Facts.act_present Facts.blank remarks who]
    simp [Facts.Present, Facts.blank]
  constructor
  · rintro ⟨channel, hchannel, hmember⟩
    simp only [Model.facts, hchannel, Option.map_some] at hknown
    obtain ⟨remarks, hstory, hfacts⟩ := Option.map_eq_some_iff.mp hknown.symm
    refine ⟨remarks, hstory, (hcame remarks).mp ?_⟩
    rw [hfacts]
    exact Std.ExtTreeMap.mem_iff_isSome_getElem?.mp hmember
  · rintro ⟨remarks, hstory, hsplit⟩
    have hpresent := (hcame remarks).mpr hsplit
    simp only [hstory, Option.map_some] at hknown
    obtain ⟨channel, hchannel, hfacts⟩ := Option.map_eq_some_iff.mp hknown
    rw [← hfacts] at hpresent
    exact ⟨channel, hchannel, Std.ExtTreeMap.mem_iff_isSome_getElem?.mpr hpresent⟩

end Reports

end Client

end ObbyClient

import ObbyClient.Engine.Deeds
import ObbyClient.Engine.Renaming

/-!
# Members and people

A member list holds what somebody may do in one channel; who they are stands in the map of people,
once for all channels.

* `Model.Known` — every member is somebody we know;
* `Client.run_known` — and stays so, whatever happens.
-/

namespace ObbyClient

namespace Model

/-- True when every member of a channel is somebody the model knows. -/
def Known (model : Model) : Prop :=
  ∀ key channel who, model.channel key = some channel → who ∈ channel.members → who ∈ model.people

theorem Known.edit {i : Isupport} {before after : Model} (h : Known before)
    (hedit : Edit i before after) : Known after := by
  intro key channel who hchannel hwho
  rcases hedit.members key channel who hchannel hwho with ⟨old, hold, hmember⟩ | hknown
  · rcases hedit.known who (h key old who hold hmember) with hknown | hnone
    · exact hknown
    · exact absurd hwho (hnone key channel hchannel)
  · exact hknown

/-- Who is in a member list after somebody in it was renamed. -/
theorem mem_renameMember {members : Std.ExtTreeMap CaseFolded Membership}
    {old new who : CaseFolded} (h : who ∈ renameMember members old new) :
    (who = new ∧ old ∈ members) ∨ (who ≠ old ∧ who ∈ members) := by
  unfold renameMember at h
  cases hmember : members[old]? with
  | some membership =>
      rw [hmember] at h
      have hold : old ∈ members := by
        rw [Std.ExtTreeMap.mem_iff_isSome_getElem?, hmember]
        rfl
      rw [Std.ExtTreeMap.mem_insert, Std.ExtTreeMap.mem_erase] at h
      rcases h with h | ⟨hne, h⟩
      · exact .inl ⟨(Std.LawfulEqCmp.compare_eq_iff_eq.mp h).symm, hold⟩
      · rw [ne_eq, Std.LawfulEqCmp.compare_eq_iff_eq] at hne
        exact .inr ⟨fun heq => hne heq.symm, h⟩
  | none =>
      rw [hmember] at h
      refine .inr ⟨?_, h⟩
      intro heq
      rw [heq, Std.ExtTreeMap.mem_iff_isSome_getElem?, hmember] at h
      cases h

/-- A rename takes the record of a person along with their memberships. -/
theorem Known.rename {model : Model} (h : Known model) (casemapping : Casemapping)
    (source dest : Str) : Known (model.rename casemapping source dest) := by
  intro key channel who hchannel hwho
  rw [rename_channel] at hchannel
  obtain ⟨old, hold, rfl⟩ := Option.map_eq_some_iff.mp hchannel
  rw [Std.ExtTreeMap.mem_iff_isSome_getElem?]
  rcases model.rename_people_cases casemapping source dest with
    ⟨hnone, hafter⟩ | ⟨person, hperson, hafter⟩
  · have hunknown : casemapping.fold source ∉ old.members := by
      intro hmember
      have hknown := h key old _ hold hmember
      rw [Std.ExtTreeMap.mem_iff_isSome_getElem?, hnone] at hknown
      cases hknown
    rcases mem_renameMember hwho with ⟨-, hmember⟩ | ⟨-, hmember⟩
    · exact absurd hmember hunknown
    · rw [hafter, ← Std.ExtTreeMap.mem_iff_isSome_getElem?]
      exact h key old who hold hmember
  · rw [hafter, getElem?_moved]
    rcases mem_renameMember hwho with ⟨hnew, -⟩ | ⟨hne, hmember⟩
    · rw [if_pos hnew]
      rfl
    · by_cases hnew : who = casemapping.fold dest
      · rw [if_pos hnew]
        rfl
      · rw [if_neg hnew, if_neg hne, ← Std.ExtTreeMap.mem_iff_isSome_getElem?]
        exact h key old who hold hmember

theorem Known.renameChannel {model after : Model} (h : Known model) {casemapping : Casemapping}
    {source dest : Str} (hafter : model.renameChannel casemapping source dest = some after) :
    Known after := by
  unfold Model.renameChannel at hafter
  obtain ⟨moved, hmoved, rfl⟩ := Option.map_eq_some_iff.mp hafter
  intro key channel who hchannel hwho
  rcases Maps.getElem?_insert_eq_some.mp hchannel with ⟨-, rfl⟩ | ⟨-, hchannel⟩
  · exact h _ moved who hmoved hwho
  · exact h key channel who (Maps.getElem?_erase_eq_some.mp hchannel).2 hwho

theorem Known.setTyping {model : Model} (h : Known model) (target who : CaseFolded)
    (typing : Bool) : Known (model.setTyping target who typing).1 := by
  rcases model.setTyping_cases target who typing with
    ⟨-, -, hafter⟩ | ⟨old, hold, hafter⟩ | ⟨query, -, -, hafter⟩
  · rw [hafter]
    exact h
  · rw [hafter]
    intro key channel member hchannel hmember
    rcases Maps.getElem?_insert_eq_some.mp hchannel with ⟨rfl, rfl⟩ | ⟨-, hchannel⟩
    · exact h key old member hold hmember
    · exact h key channel member hchannel hmember
  · rw [hafter]
    exact h

end Model

namespace Session

open Model

/-- **Whatever line is folded**, every member stays somebody we know. -/
theorem apply_known [Primitives] (ctx : Context) (line : Message) (h : Known ctx.model) :
    Known (apply ctx line).1.model := by
  by_cases hnick : toAsciiUppercase line.command = "NICK"
  · rw [apply_nick ctx line hnick]
    cases line.param 0 with
    | none => exact h
    | some dest => exact h.rename _ _ _
  · by_cases hrename : toAsciiUppercase line.command = "RENAME"
    · rcases apply_rename ctx line hrename with ⟨hsame, -⟩ | ⟨source, dest, model, -, -, hafter,
        hsame⟩
      · rw [hsame]
        exact h
      · rw [hsame]
        exact h.renameChannel hafter
    · exact h.edit (apply_edit ctx line hnick hrename).model

end Session

namespace Client

open Model

variable [Primitives]

/-- **Every member has a person**, in every state a client comes to be in. -/
theorem members_known (config : Config) (inputs : List Input) :
    ((new config).run inputs).model.Known := by
  have hblind : Blind fun b => b.model.Known := fun _ _ _ _ h => h
  have hfold : ∀ (c : Client) (line : Message) (historical : Bool), c.bearing.model.Known →
      (c.fold line historical).bearing.model.Known := by
    intro c line historical h
    rw [fold_eq]
    exact Session.apply_known (c.context historical) line h
  refine run_induction (P := fun c => c.bearing.model.Known) (fun _ _ _ _ h =>
    h) (new config) inputs
    ?_ ?_ ?_
  · intro input _ hbytes c h
    refine step_keeps_bearing hblind c hbytes ?_ ?_ (fun _ _ _ h => h)
      (fun line _ h => hfold c _ false h) h
    · intro _ b hb
      have hwhois : Known b.model.forgetWhois := hb
      exact hwhois.edit (Edit.forgetMembers (i := b.isupport) _)
    · intro now _ h
      exact tick_keeps (fun _ _ _ hmodel => hmodel.setTyping _ _ _) c now h
  · intro p _ h
    refine handleMessage_keeps_bearing hblind p.1 p.2 (fun _ _ hb => hb) ?_ ?_
      (fun q historical _ hb => hfold q.1 q.2 historical hb) h
    · intro _ hb
      rw [handleIsupport_bearing]
      exact hb
    · intro d _ hd hb
      obtain ⟨_, _, _, -, -, -, hd⟩ := handleTyping_bearing hd
      show d.bearing.model.Known
      rw [hd]
      exact Known.setTyping hb _ _ _
  · intro key channel who hchannel
    exact absurd hchannel (by simp [new, bearing, Model.channel, Model.withRetention])

end Client

end ObbyClient

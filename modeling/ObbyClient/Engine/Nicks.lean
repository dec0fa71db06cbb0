import ObbyClient.Engine.Deeds

/-!
# Our nick, twice

The connection and the model each hold our nick.  Registration writes both; a `NICK` of ours is
followed by the model alone.

* `Client.run_nick` — the two agree, as long as nobody renames us;
* `Client.say_own` — and then what we say is filed as ours, under who it is for.
-/

namespace ObbyClient

namespace Client

open Session

/-- True for a line that gives us another nick. -/
def RenamesUs (c : Client) (line : Message) : Prop :=
  toAsciiUppercase line.command = "NICK" ∧
    c.isupport.casemapping.eq c.model.me.nick (sender line) = true ∧
      ∃ dest, line.param 0 = some dest ∧ dest ≠ c.nick

variable [Primitives]

/-- One line that is folded keeps the two nicks equal, unless it renames us. -/
theorem fold_nick (c : Client) (line : Message) (historical : Bool) (hline : ¬ RenamesUs c line)
    (h : c.nick = c.model.me.nick) :
    (c.fold line historical).nick = (c.fold line historical).model.me.nick := by
  rw [fold_eq]
  show c.nick = (apply (c.context historical) line).1.model.me.nick
  by_cases hnick : toAsciiUppercase line.command = "NICK"
  · rw [apply_nick (c.context historical) line hnick]
    cases hdest : line.param 0 with
    | none => exact h
    | some dest =>
        show c.nick = (if c.isupport.casemapping.eq c.model.me.nick (sender line) = true then _
          else _ : LocalUser).nick
        by_cases hus : c.isupport.casemapping.eq c.model.me.nick (sender line) = true
        · rw [if_pos hus]
          by_contra hne
          exact hline ⟨hnick, hus, dest, hdest, fun heq => hne heq.symm⟩
        · rw [if_neg hus]
          exact h
  · by_cases hrename : toAsciiUppercase line.command = "RENAME"
    · rcases apply_rename (c.context historical) line hrename with
        ⟨hsame, -⟩ | ⟨source, dest, model, -, -, hafter, hsame⟩
      · rw [hsame]
        exact h
      · rw [hsame]
        unfold Model.renameChannel at hafter
        obtain ⟨channel, -, hafter⟩ := Option.map_eq_some_iff.mp hafter
        rw [← hafter]
        exact h
    · exact h.trans (apply_edit (c.context historical) line hnick hrename).model.nick.symm

/-- **The two nicks agree** in every run in which nobody renames us. -/
theorem run_nick (config : Config) (inputs : List Input)
    (h : ∀ deed ∈ (new config).deeds inputs, ∀ p ∈ deed.delivers, ¬ RenamesUs p.1 p.2) :
    ((new config).run inputs).nick = ((new config).run inputs).model.me.nick := by
  have hblind : Blind fun b => b.nick = b.model.me.nick := fun _ _ _ _ hb => hb
  refine run_along (P := fun _ c => c.bearing.nick = c.bearing.model.me.nick)
    (C := fun _ deed => ∀ p ∈ deed.delivers, ¬ RenamesUs p.1 p.2)
    (fun _ _ _ _ _ hc => hc) ?_ ?_ rfl inputs (along_of_forall h)
  · intro _ c message hmessage hc
    refine handleMessage_keeps_bearing hblind c message (fun _ _ _ => rfl) ?_ ?_ ?_ hc
    · intro _ hb
      rw [handleIsupport_bearing]
      exact hb
    · intro d _ hd hb
      obtain ⟨_, _, _, -, -, -, hd⟩ := handleTyping_bearing hd
      show d.bearing.nick = d.bearing.model.me.nick
      rw [hd]
      exact hb.trans (congrArg LocalUser.nick (Model.setTyping_me _ _ _ _).symm)
    · intro p historical hp hb
      exact fold_nick p.1 p.2 historical (hmessage p hp) hb
  · intro _ c input hbytes _ hc
    refine step_keeps_bearing hblind c hbytes (fun _ _ hb => hb) ?_ (fun _ _ _ hb => hb) ?_ hc
    · intro now _ hb
      have hnick : (c.tick now).bearing.nick = c.nick := congrArg Bearing.nick (c.tick_bearing now)
      refine hnick.trans ?_
      refine tick_keeps (P := fun model => c.nick = model.me.nick) ?_ c now hb
      intro model target who hmodel
      rw [Model.setTyping_me]
      exact hmodel
    · intro line hline hb
      refine fold_nick c _ false ?_ hb
      intro hrenames
      rcases hline with hline | hline
      · rw [RenamesUs, hline] at hrenames
        exact absurd hrenames.1 (by decide)
      · rw [RenamesUs, hline] at hrenames
        exact absurd hrenames.1 (by decide)

/-- What we say is recorded as ours, under who it is for. -/
structure FiledAsOurs (c : Client) (line : Message) (target : Str) : Prop where
  recorded : (c.say line).model =
    (file (c.context false) { line with source := some ⟨c.nick, none, none⟩ } line.command
      target).1.model
  own : (chatMessage (c.context false) { line with source := some ⟨c.nick, none, none⟩ }
    line.command).own = true
  recipient : filedUnder (c.context false) { line with source := some ⟨c.nick, none, none⟩ }
    target =
    if filesInChannel (c.context false) target then addressee (c.context false) target else target

/-- **What we say is filed as ours** when the two nicks agree and no echo is coming. -/
theorem say_own (c : Client) (h : c.nick = c.model.me.nick)
    (hecho : c.caps.has "echo-message" = false) {line : Message} {target : Str}
    (hline : line.command = "PRIVMSG" ∨ line.command = "NOTICE")
    (htarget : line.param 0 = some target) : FiledAsOurs c line target := by
  have hme : (c.context false).isMe c.nick = true := by
    show c.isupport.casemapping.eq c.model.me.nick c.nick = true
    rw [h]
    exact Casemapping.eq_self _ _
  have hmessage : isMessage (toAsciiUppercase line.command) = true ∧
      toAsciiUppercase line.command = line.command ∧ line.command ≠ "TAGMSG" := by
    rcases hline with hline | hline
    · rw [hline]
      decide
    · rw [hline]
      decide
  refine ⟨?_, hme, ?_⟩
  · unfold say
    dsimp only
    have hsilent : ¬ (c.sendLineLabeled line).caps.has "echo-message" = true := by
      rw [sendLineLabeled_eq, hecho]
      decide
    rw [if_neg hsilent, sendLineLabeled_eq, fold_eq]
    show (apply (c.context false) { line with source := some ⟨c.nick, none, none⟩ }).1.model = _
    have hsent : isMessage (toAsciiUppercase
        { line with source := some ⟨c.nick, none, none⟩ : Message }.command) = true := hmessage.1
    rw [apply_of_isMessage _ hsent]
    show (message (c.context false) _ (toAsciiUppercase line.command)).1.model = _
    rw [hmessage.2.1]
    unfold message
    rw [show Message.param { line with source := some ⟨c.nick, none, none⟩ } 0 = some target from
      htarget]
    dsimp only
    rw [if_neg hmessage.2.2]
  · unfold filedUnder
    rw [show (c.context false).isMe
      (sender { line with source := some ⟨c.nick, none, none⟩ }) = true from hme, if_pos rfl]

/-- **Our two nicks agree**, and what we say is ours, in every run in which nobody renames us. -/
theorem nicks_agree (config : Config) (inputs : List Input)
    (h : ∀ deed ∈ (new config).deeds inputs, ∀ p ∈ deed.delivers, ¬ RenamesUs p.1 p.2) :
    ((new config).run inputs).nick = ((new config).run inputs).model.me.nick ∧
      (((new config).run inputs).caps.has "echo-message" = false →
        ∀ (line : Message) (target : Str), line.command = "PRIVMSG" ∨ line.command = "NOTICE" →
          line.param 0 = some target → FiledAsOurs ((new config).run inputs) line target) := by
  have hnick := run_nick config inputs h
  refine ⟨hnick, ?_⟩
  intro hecho line target hline htarget
  exact say_own _ hnick hecho hline htarget

omit [Primitives] in
/-- A run with a `NICK` of somebody else. -/
theorem nicks_agree_other : letI := Primitives.ascii
    let inputs := [Input.connected, .bytes (Utf8.encode ":s 001 me :hi\n:bob NICK rob\n")]
    ((new (.new "me")).run inputs).nick = ((new (.new "me")).run inputs).model.me.nick := by
  let _ := Primitives.ascii
  intro inputs
  refine (nicks_agree (.new "me") inputs ?_).1
  have hsenders : (((new (.new "me")).deeds inputs).flatMap Deed.delivers).map (fun p =>
      p.1.isupport.casemapping.eq p.1.model.me.nick (sender p.2)) = [false] := by decide +kernel
  intro deed hdeed p hp hrenames
  have hmem := List.mem_map_of_mem (List.mem_flatMap.mpr ⟨deed, hdeed, hp⟩)
    (f := fun p => p.1.isupport.casemapping.eq p.1.model.me.nick (sender p.2))
  rw [hsenders, hrenames.2.1] at hmem
  exact absurd hmem (by decide)

omit [Primitives] in
/-- **A `NICK` of ours leaves the connection behind.** -/
theorem nick_left_behind : letI := Primitives.ascii
    let c := (new (.new "me")).run
      [.connected, .bytes (Utf8.encode ":s 001 me :hi\n:me!u@h NICK you\n")]
    c.Reachable ∧ c.nick ≠ c.model.me.nick := by
  let _ := Primitives.ascii
  intro c
  exact ⟨⟨_, _, rfl⟩, by decide +kernel⟩

end Client

end ObbyClient

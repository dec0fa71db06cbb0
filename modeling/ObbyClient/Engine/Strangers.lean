import ObbyClient.Engine.Whois

/-!
# Who is forgotten when somebody goes away

A departure is the time to forget people we share nothing with any more.

* `Session.NoStrangers` — everybody on record is known from somewhere;
* `Session.forgets_iff` — the departures after which that holds.
-/

namespace ObbyClient.Session

open Model

/-- Everybody on record is a member of a channel we are in, has a conversation with us, or is us. 
Our own record is the one with our nick as it is spelled, for that is how `forgetStrangers` knows
it: it is given no casemapping to fold with. -/
def NoStrangers (model : Model) : Prop :=
  ∀ key person, model.people[key]? = some person →
    (∃ name channel, model.channel name = some channel ∧ key ∈ channel.members) ∨
      model.conversations.contains key = true ∨ person.nick = model.me.nick

/-- The channel that we leave by a line. -/
def ourLeave (ctx : Context) (line : Message) : Option CaseFolded :=
  if toAsciiUppercase line.command = "PART" then
    (line.param 0).bind fun name => if ctx.isMe (sender line) then some (ctx.fold name) else none
  else if toAsciiUppercase line.command = "KICK" then
    (line.param 0).bind fun name => (line.param 1).bind fun target =>
      if ctx.isMe target then some (ctx.fold name) else none
  else none

/-- Everybody on record is known from elsewhere than one channel. -/
def KnownWithout (model : Model) (left : Option CaseFolded) : Prop :=
  ∀ key person, model.people[key]? = some person →
    (∃ name channel, left ≠ some name ∧ model.channel name = some channel ∧ key ∈ channel.members) ∨
      model.conversations.contains key = true ∨ person.nick = model.me.nick

theorem noStrangers_iff {model : Model} : NoStrangers model ↔ KnownWithout model none := by
  unfold NoStrangers KnownWithout
  simp

/-- Nobody is left on record who is a stranger, once strangers are forgotten. -/
theorem noStrangers_forgetStrangers (model : Model) : NoStrangers model.forgetStrangers := by
  intro key person hperson
  obtain ⟨-, hknown | hme⟩ := Edit.forgetStrangers_eq_some.mp hperson
  · obtain hquery | hshared := isAcquainted_iff.mp hknown
    · exact Or.inr (Or.inl hquery)
    · exact Or.inl hshared
  · exact Or.inr (Or.inr hme)

/-- Leaving a channel forgets nobody, so all must be known without it. -/
theorem noStrangers_removeChannel {model : Model} {left : CaseFolded} :
    NoStrangers (model.removeChannel left) ↔ KnownWithout model (some left) := by
  have hchannel : ∀ name channel, (model.removeChannel left).channel name = some channel ↔
      some left ≠ some name ∧ model.channel name = some channel := by
    intro name channel
    rw [ne_eq, Option.some_inj, eq_comm (a := left)]
    exact Maps.getElem?_erase_eq_some
  unfold NoStrangers KnownWithout
  simp only [hchannel, and_assoc]
  rfl

section Departures

variable [Primitives]

/-- **Which departures leave no stranger on record**: those by which somebody else goes away, and of
the others those after which everybody is known without the channel that we leave. -/
theorem forgets_iff (ctx : Context) {line : Message}
    (hline : toAsciiUppercase line.command = "PART" ∨ toAsciiUppercase line.command = "KICK" ∨
      toAsciiUppercase line.command = "QUIT") :
    NoStrangers (apply ctx line).1.model ↔
      departure ctx line ≠ none ∨ KnownWithout ctx.model (ourLeave ctx line) := by
  -- a line that is short of a parameter takes nobody away
  have hshort : ∀ left, left = none → ((NoStrangers ctx.model) ↔
      (none : Option (CaseFolded × Option CaseFolded)) ≠ none ∨ KnownWithout ctx.model left) := by
    rintro left rfl
    rw [noStrangers_iff]
    exact ⟨Or.inr, fun h => h.resolve_left fun hne => hne rfl⟩
  have hours : ∀ name : Str, NoStrangers (ctx.model.removeChannel (ctx.fold name)) ↔
      (none : Option (CaseFolded × Option CaseFolded)) ≠ none ∨
        KnownWithout ctx.model (some (ctx.fold name)) := by
    intro name
    rw [noStrangers_removeChannel]
    exact ⟨Or.inr, fun h => h.resolve_left fun hne => hne rfl⟩
  obtain hpart | hkick | hquit := hline
  · rw [apply_of_handles ctx hpart .part]
    unfold departure ourLeave part
    rw [if_pos hpart, if_pos hpart]
    cases line.param 0 with
    | none => exact hshort none rfl
    | some name =>
        dsimp only [Option.bind_some]
        by_cases hme : ctx.isMe (sender line) = true
        · rw [if_pos hme, if_pos hme, if_pos hme]
          exact hours name
        · rw [if_neg hme, if_neg hme]
          exact iff_of_true (noStrangers_forgetStrangers _) (Or.inl nofun)
  · have hpart : toAsciiUppercase line.command ≠ "PART" := by
      rw [hkick]
      decide
    have hquit : toAsciiUppercase line.command ≠ "QUIT" := by
      rw [hkick]
      decide
    rw [apply_of_handles ctx hkick .kick]
    unfold departure ourLeave kick
    rw [if_neg hpart, if_neg hquit, if_pos hkick, if_neg hpart, if_pos hkick]
    cases line.param 0 with
    | none => exact hshort none rfl
    | some name =>
        cases line.param 1 with
        | none => exact hshort none rfl
        | some target =>
            dsimp only [Option.bind_some]
            by_cases hme : ctx.isMe target = true
            · rw [if_pos hme, if_pos hme, if_pos hme]
              exact hours name
            · rw [if_neg hme, if_neg hme]
              exact iff_of_true (noStrangers_forgetStrangers _) (Or.inl nofun)
  · have hpart : toAsciiUppercase line.command ≠ "PART" := by
      rw [hquit]
      decide
    rw [apply_of_handles ctx hquit .quit]
    unfold departure
    rw [if_neg hpart, if_pos hquit]
    exact iff_of_true (noStrangers_forgetStrangers _) (Or.inl nofun)

end Departures

/-- In a channel with somebody else. -/
def together [Primitives] : Client :=
  (Client.new (.new "me")).run [.connected, .bytes (Utf8.encode
    ":s 001 me :hi\n:me!u@h JOIN #a\n:bob!u@h JOIN #a\n")]

/-- Somebody else leaves, and is forgotten. -/
theorem forgets_other : letI := Primitives.ascii
    NoStrangers (apply (together.context false)
      { Message.new "PART" ["#a"] with source := some ⟨"bob", none, none⟩ }).1.model := by
  let _ := Primitives.ascii
  exact (forgets_iff _ (.inl rfl)).mpr (.inl (by decide +kernel))

/-- We leave the only channel, and those we leave behind stay on record. -/
theorem strangers_stay : letI := Primitives.ascii
    ¬ NoStrangers (apply (together.context false)
      { Message.new "PART" ["#a"] with source := some ⟨"me", none, none⟩ }).1.model := by
  let _ := Primitives.ascii
  generalize hmodel : (apply (together.context false)
    { Message.new "PART" ["#a"] with source := some ⟨"me", none, none⟩ }).1.model = model
  have hperson : (model.people[(⟨"bob"⟩ : CaseFolded)]?).map (·.nick) = some ("bob" : Str) := by
    rw [← hmodel]
    decide +kernel
  have hrest : (model.channels.isEmpty && !model.conversations.contains ⟨"bob"⟩ &&
      ("bob" : Str) != model.me.nick) = true := by
    rw [← hmodel]
    decide +kernel
  rw [Bool.and_eq_true, Bool.and_eq_true, Bool.not_eq_true', bne_iff_ne] at hrest
  obtain ⟨⟨hchannels, hquery⟩, hme⟩ := hrest
  obtain ⟨person, hfound, hnick⟩ := Option.map_eq_some_iff.mp hperson
  intro h
  obtain ⟨name, channel, hchannel, -⟩ | hknown | hown := h _ person hfound
  · unfold Model.channel at hchannel
    rw [Std.ExtTreeMap.isEmpty_iff.mp hchannels, Std.ExtTreeMap.getElem?_empty] at hchannel
    cases hchannel
  · rw [hquery] at hknown
    cases hknown
  · exact hme (hnick.symm.trans hown)

end ObbyClient.Session

import ObbyClient.Proto.Arity
import ObbyClient.Engine.Edits

/-!
# The modes of a channel

A channel has one slot for each mode letter.  For most letters that is all there is to know; a list
letter, such as the one for bans, stands for as many entries as were added.

* `lastChange`, `Standing` — what a history of changes comes to;
* `Session.Moded` — a history of the `MODE` lines of one channel;
* `Session.reflects_iff` — when a channel's modes are those that are set.
-/

namespace ObbyClient

/-! ### What a history comes to -/

/-- The last change of a letter. -/
def lastChange (mode : Char) (seen : List ModeChange) : Option ModeChange :=
  seen.reverse.find? fun change => change.mode == mode

theorem lastChange_append (mode : Char) (seen : List ModeChange) (change : ModeChange) :
    lastChange mode (seen ++ [change]) =
      if change.mode = mode then some change else lastChange mode seen := by
  rw [lastChange, List.reverse_append, List.reverse_singleton, List.singleton_append]
  by_cases h : change.mode = mode
  · rw [List.find?_cons_of_pos (by simp [h]), if_pos h]
  · rw [List.find?_cons_of_neg (by simp [h]), if_neg h]
    rfl

/-- An argument that was added to a letter and not removed since. -/
def Standing (mode : Char) (arg : Str) (seen : List ModeChange) : Prop :=
  ∃ before change after, seen = before ++ change :: after ∧
    (change.mode = mode ∧ change.set = true ∧ change.arg = some arg) ∧
    ∀ later ∈ after, ¬(later.mode = mode ∧ later.set = false ∧ later.arg = some arg)

theorem lastChange_eq_some {mode : Char} {seen : List ModeChange} {last : ModeChange}
    (h : lastChange mode seen = some last) : ∃ before after, seen = before ++ last :: after ∧
      last.mode = mode ∧ ∀ later ∈ after, later.mode ≠ mode := by
  obtain ⟨hlast, after, before, hseen, hlater⟩ := List.find?_eq_some_iff_append.mp h
  refine ⟨before.reverse, after.reverse, ?_, beq_iff_eq.mp hlast, ?_⟩
  · rw [← List.reverse_inj, hseen]
    simp
  · intro later hmem heq
    have := hlater later (List.mem_reverse.mp hmem)
    simp [heq] at this

theorem Standing.lastChange {mode : Char} {arg : Str} {seen : List ModeChange}
    (h : Standing mode arg seen) : ∃ last, lastChange mode seen = some last := by
  obtain ⟨before, change, after, rfl, ⟨hmode, -, -⟩, -⟩ := h
  cases hlast : ObbyClient.lastChange mode (before ++ change :: after) with
  | some last => exact ⟨last, rfl⟩
  | none =>
      have hno := List.find?_eq_none.mp hlast change (by simp)
      exact absurd (beq_iff_eq.mpr hmode) hno

/-- An entry that the last change added stands. -/
theorem standing_of_lastChange {mode : Char} {arg : Str} {seen : List ModeChange}
    {last : ModeChange}
    (h : lastChange mode seen = some last) (hset : last.set = true) (harg : last.arg = some arg) :
    Standing mode arg seen := by
  obtain ⟨before, after, hseen, hmode, hlater⟩ := lastChange_eq_some h
  exact ⟨before, last, after, hseen, ⟨hmode, hset, harg⟩, fun later hmem hremoves =>
    hlater later hmem hremoves.1⟩

namespace Session

/-! ### What a line does to the modes -/

/-- True when a letter's slot is taken as the last change of it says. -/
def Follows (channel : Channel) (mode : Char) (seen : List ModeChange) : Prop :=
  mode ∈ channel.modes ↔ (lastChange mode seen).any ModeChange.set = true

/-- **One change** takes the slot of its letter or gives it free. -/
theorem channelMode_follows {i : Isupport} {channel : Channel} {mode : Char}
    {seen : List ModeChange}
    {change : ModeChange} (h : Follows channel mode seen)
    (hmode : i.prefixes.isMembershipMode mode = false)
    (hmembership : change.membership = i.prefixes.isMembershipMode change.mode) :
    Follows (channelMode i channel change).1 mode (seen ++ [change]) := by
  unfold Follows at h ⊢
  rw [lastChange_append]
  unfold channelMode
  by_cases hother : change.mode = mode
  · rw [if_pos hother, hmembership, hother, hmode, if_neg Bool.false_ne_true]
    cases hset : change.set with
    | true =>
        rw [if_pos rfl]
        refine iff_of_true Std.ExtTreeMap.mem_insert_self ?_
        rw [Option.any_some, hset]
    | false =>
        rw [if_neg Bool.false_ne_true]
        refine iff_of_false ?_ (by rw [Option.any_some, hset]; exact Bool.false_ne_true)
        intro hmem
        exact (Std.ExtTreeMap.mem_erase.mp hmem).1 Std.ReflCmp.compare_self
  · rw [if_neg hother]
    have hne : ¬compare change.mode mode = .eq :=
      fun heq => hother (Std.LawfulEqCmp.compare_eq_iff_eq.mp heq)
    split
    · split
      · dsimp only
        split
        · exact h
        · exact h
      · exact h
    · split
      · refine Iff.trans ?_ h
        show mode ∈ channel.modes.insert change.mode change.arg ↔ _
        rw [Std.ExtTreeMap.mem_insert, or_iff_right hne]
      · refine Iff.trans ?_ h
        show mode ∈ channel.modes.erase change.mode ↔ _
        rw [Std.ExtTreeMap.mem_erase, and_iff_right hne]

/-- All changes of a line, one after the other. -/
theorem channelModes_follows {i : Isupport} {channel : Channel} {mode : Char}
    {seen : List ModeChange}
    {changes : List ModeChange} (h : Follows channel mode seen)
    (hmode : i.prefixes.isMembershipMode mode = false)
    (hmembership : ∀ change ∈ changes,
      change.membership = i.prefixes.isMembershipMode change.mode) :
    Follows (channelModes i channel changes).1 mode (seen ++ changes) := by
  unfold channelModes
  generalize false = touched
  induction changes generalizing channel seen touched with
  | nil =>
      rw [List.append_nil]
      exact h
  | cons change changes ih =>
      rw [List.foldl_cons, show seen ++ change :: changes = seen ++ [change] ++ changes by simp]
      exact ih (channelMode_follows h hmode (hmembership change List.mem_cons_self))
        (fun later hlater => hmembership later (List.mem_cons_of_mem _ hlater)) _

section Histories

variable [Primitives]

/-- A `MODE` line for a channel. -/
structure ModeLine (ctx : Context) (key : CaseFolded) (line : Message) : Prop where
  command : toAsciiUppercase line.command = "MODE"
  target : ∃ name, line.param 0 = some name ∧ ctx.isupport.isChannel name = true ∧
    ctx.fold name = key

theorem apply_mode {ctx : Context} {key : CaseFolded} {line : Message} (h : ModeLine ctx key line)
    {channel : Channel} (hchannel : ctx.model.channel key = some channel) :
    (apply ctx line).1 = ctx.withModel (ctx.model.setChannel key
      (channelModes ctx.isupport channel
        (parseChannelModes ctx.isupport (line.params.drop 1))).1) := by
  obtain ⟨name, hname, hin, rfl⟩ := h.target
  rw [apply_of_handles ctx h.command .mode]
  unfold mode
  rw [hname]
  dsimp only
  rw [hin, hchannel]
  rfl

/-! ### Histories -/

/-- A history of a channel with the changes of its modes, from when it was entered.  Between two
`MODE` lines anything else may change, but neither the channel's modes nor what the server said of
its letters. -/
inductive Moded (i : Isupport) (key : CaseFolded) : List ModeChange → Context → Prop where
  | enter {ctx : Context} {channel : Channel} (hi : ctx.isupport = i)
      (hchannel : ctx.model.channel key = some channel) (hmodes : channel.modes = ∅) :
      Moded i key [] ctx
  | line {seen : List ModeChange} {ctx : Context} (h : Moded i key seen ctx) {line : Message}
      (hline : ModeLine ctx key line) :
      Moded i key (seen ++ parseChannelModes i (line.params.drop 1)) (apply ctx line).1
  | between {seen : List ModeChange} {ctx ctx' : Context} {channel channel' : Channel}
      (h : Moded i key seen ctx) (hi : ctx'.isupport = i)
      (hchannel : ctx.model.channel key = some channel)
      (hchannel' : ctx'.model.channel key = some channel')
      (hmodes : channel'.modes = channel.modes) : Moded i key seen ctx'

/-- **The slots follow the last changes.** -/
theorem Moded.follows {i : Isupport} {key : CaseFolded} {seen : List ModeChange} {ctx : Context}
    (h : Moded i key seen ctx) : ctx.isupport = i ∧ ∃ channel,
      ctx.model.channel key = some channel ∧
      ∀ mode, i.prefixes.isMembershipMode mode = false → Follows channel mode seen := by
  induction h with
  | enter hi hchannel hmodes =>
      refine ⟨hi, _, hchannel, ?_⟩
      intro mode hmode
      unfold Follows
      rw [hmodes]
      exact iff_of_false Std.ExtTreeMap.not_mem_empty Bool.false_ne_true
  | line h hline ih =>
      obtain ⟨rfl, channel, hchannel, hfollows⟩ := ih
      rw [apply_mode hline hchannel]
      refine ⟨rfl, _, Std.ExtTreeMap.getElem?_insert_self, ?_⟩
      intro mode hmode
      exact channelModes_follows (hfollows mode hmode) hmode
        fun change hchange => parseChannelModes_membership _ hchange
  | between h hi hchannel hchannel' hmodes ih =>
      obtain ⟨-, channel, hold, hfollows⟩ := ih
      rw [hchannel, Option.some_inj] at hold
      refine ⟨hi, _, hchannel', ?_⟩
      intro mode hmode
      unfold Follows
      rw [hmodes, hold]
      exact hfollows mode hmode

/-! ### What is set -/

/-- The modes of a channel are those that are set: a letter of a list while an entry stands, and any
other letter when it was set last. -/
structure Reflects (i : Isupport) (seen : List ModeChange) (channel : Channel) : Prop where
  plain : ∀ mode, i.prefixes.isMembershipMode mode = false → mode ∉ i.chanmodes.list →
    (mode ∈ channel.modes ↔ (lastChange mode seen).any ModeChange.set = true)
  list : ∀ mode, i.prefixes.isMembershipMode mode = false → mode ∈ i.chanmodes.list →
    (mode ∈ channel.modes ↔ ∃ arg, Standing mode arg seen)

/-- What a history must meet for the slot of a list letter to say whether an entry stands: the last
change of the letter adds an entry, or finds one standing, or removes the last that stands. -/
def Settled (mode : Char) (seen : List ModeChange) : Prop :=
  ∀ last, lastChange mode seen = some last →
    (last.set = true → last.arg.isSome = true ∨ ∃ arg, Standing mode arg seen) ∧
      (last.set = false → ∀ arg, ¬Standing mode arg seen)

/-- **When a channel's modes are those that are set.**  After any history of `MODE` lines, under any
letters the server advertises, they are exactly when the last change of every list letter adds an
entry, finds one standing, or removes the last one. -/
theorem reflects_iff {i : Isupport} {key : CaseFolded} {seen : List ModeChange} {ctx : Context}
    (h : Moded i key seen ctx) :
    (∃ channel, ctx.model.channel key = some channel ∧ Reflects i seen channel) ↔
      ∀ mode, i.prefixes.isMembershipMode mode = false → mode ∈ i.chanmodes.list →
        Settled mode seen := by
  obtain ⟨-, channel, hchannel, hfollows⟩ := h.follows
  constructor
  · rintro ⟨other, hother, hreflects⟩ mode hmode hlist last hlast
    rw [hchannel, Option.some_inj] at hother
    subst hother
    have hslot := (hfollows mode hmode).symm.trans (hreflects.list mode hmode hlist)
    rw [hlast, Option.any_some] at hslot
    refine ⟨fun hset => .inr (hslot.mp hset), ?_⟩
    intro hset arg hstanding
    have := hslot.mpr ⟨arg, hstanding⟩
    rw [hset] at this
    cases this
  · intro hsettled
    refine ⟨channel, hchannel, fun mode hmode _ => hfollows mode hmode, ?_⟩
    intro mode hmode hlist
    refine (hfollows mode hmode).trans ?_
    cases hlast : lastChange mode seen with
    | none =>
        refine iff_of_false Bool.false_ne_true ?_
        rintro ⟨arg, hstanding⟩
        obtain ⟨last, hsome⟩ := hstanding.lastChange
        rw [hlast] at hsome
        cases hsome
    | some last =>
        obtain ⟨hadds, hremoves⟩ := hsettled mode hmode hlist last hlast
        rw [Option.any_some]
        constructor
        · intro hset
          rcases hadds hset with harg | hstanding
          · obtain ⟨arg, harg⟩ := Option.isSome_iff_exists.mp harg
            exact ⟨arg, standing_of_lastChange hlast hset harg⟩
          · exact hstanding
        · rintro ⟨arg, hstanding⟩
          by_contra hset
          exact hremoves (Bool.eq_false_iff.mpr hset) arg hstanding

end Histories

/-- We have just entered a channel of a server that keeps bans on a list. -/
def entered : Context :=
  let model := Model.withRetention 10
  ⟨{ model.setChannel ⟨"#a"⟩ (.new "#a" 10) with me := { model.me with nick := "me" } },
    .default, 0, false⟩

def modeLine (params : List Str) : Message :=
  ⟨[], some ⟨"op", none, none⟩, "MODE", "#a" :: params⟩

theorem modeLine_is (ctx : Context) (h : ctx.isupport = .default) (params : List Str) :
    ModeLine ctx ⟨"#a"⟩ (modeLine params) := by
  refine ⟨(by decide : toAsciiUppercase "MODE" = ("MODE" : Str)), "#a", rfl, ?_, ?_⟩
  · rw [h]
    decide +kernel
  · unfold Context.fold
    rw [h]
    decide +kernel

theorem entered_moded : letI := Primitives.ascii
    Moded .default ⟨"#a"⟩ [] entered := by
  refine @Moded.enter Primitives.ascii _ _ _ (.new "#a" 10) rfl ?_ rfl
  exact Std.ExtTreeMap.getElem?_insert_self

/-- A key and a ban, and the slots of both are taken. -/
theorem reflects_one_ban : letI := Primitives.ascii
    ∃ channel, (apply entered (modeLine [("+kb" : Str), "key", "x!*@*"])).1.model.channel ⟨"#a"⟩ =
        some channel ∧
      Reflects .default (parseChannelModes .default [("+kb" : Str), "key", "x!*@*"]) channel := by
  have hmoded := @Moded.line Primitives.ascii _ _ _ _ entered_moded _
    (modeLine_is entered rfl [("+kb" : Str), "key", "x!*@*"])
  refine (@reflects_iff Primitives.ascii _ _ _ _ hmoded).mpr ?_
  intro mode _ hlist last hlast
  have hban : mode = 'b' := by
    have hmem : mode ∈ ['b'] := hlist
    exact List.mem_singleton.mp hmem
  have hlast' : lastChange 'b' (parseChannelModes .default [("+kb" : Str), "key", "x!*@*"]) =
      some ⟨true, 'b', some "x!*@*", false⟩ := by decide +kernel
  rw [hban] at hlast
  obtain rfl := Option.some.inj (hlast'.symm.trans hlast)
  exact ⟨fun _ => .inl rfl, fun hset => absurd hset (by decide)⟩

/-- Two bans, of which one is lifted: the other stands, and the slot is free. -/
theorem ban_forgotten : letI := Primitives.ascii
    ∃ seen ctx channel, Moded .default ⟨"#a"⟩ seen ctx ∧
      ctx.model.channel ⟨"#a"⟩ = some channel ∧
      Standing 'b' "y!*@*" seen ∧ 'b' ∉ channel.modes ∧ ¬ Reflects .default seen channel := by
  have htwo := @Moded.line Primitives.ascii _ _ _ _ entered_moded _
    (modeLine_is entered rfl [("+bb" : Str), "x!*@*", "y!*@*"])
  have hone := @Moded.line Primitives.ascii _ _ _ _ htwo _
    (modeLine_is _ rfl [("-b" : Str), "x!*@*"])
  obtain ⟨-, channel, hchannel, hfollows⟩ := @Moded.follows Primitives.ascii _ _ _ _ hone
  have hstanding : Standing 'b' "y!*@*" [⟨true, 'b', some "x!*@*", false⟩,
      ⟨true, 'b', some "y!*@*", false⟩, ⟨false, 'b', some "x!*@*", false⟩] := by
    refine ⟨[⟨true, 'b', some "x!*@*", false⟩], ⟨true, 'b', some "y!*@*", false⟩, _, rfl,
      ⟨rfl, rfl, rfl⟩, ?_⟩
    rintro later hlater ⟨-, -, harg⟩
    rw [List.mem_singleton.mp hlater] at harg
    exact absurd harg (by decide)
  have hseen : [] ++ parseChannelModes .default [("+bb" : Str), "x!*@*", "y!*@*"] ++
      parseChannelModes .default [("-b" : Str), "x!*@*"] = [⟨true, 'b', some "x!*@*", false⟩,
        ⟨true, 'b', some "y!*@*", false⟩, ⟨false, 'b', some "x!*@*", false⟩] := by decide +kernel
  have hfree : 'b' ∉ channel.modes := by
    intro hmem
    have hlast := (hfollows 'b' (by decide +kernel)).mp hmem
    revert hlast
    decide +kernel
  refine ⟨_, _, channel, hone, hchannel, ?_, hfree, ?_⟩
  · exact hseen ▸ hstanding
  · intro hreflects
    have hlist : 'b' ∈ Isupport.default.chanmodes.list := by decide +kernel
    exact hfree ((hreflects.list 'b' (by decide +kernel) hlist).mpr ⟨_, hseen ▸ hstanding⟩)

end Session

end ObbyClient

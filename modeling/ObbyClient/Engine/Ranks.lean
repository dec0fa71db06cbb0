import ObbyClient.Engine.Members

/-!
# Prefixes in rank order

What somebody holds in a channel is a run of prefix characters.  A `MODE` keeps it in the server's
order; a reply to `NAMES` or `WHO` puts down what the server sent.

* `Ranked` — no character twice, and the highest rank first;
* `Session.inOrder` — a line that puts down ranked runs only: `Session.apply_holds`;
* `Client.run_ranked` — a run of such lines keeps every run ranked.
-/

namespace ObbyClient

/-! ### Ranks -/

/-- The rank a list of prefixes is sorted by. -/
def Prefixes.level (p : Prefixes) (c : Char) : ℕ := (p.rank c).getD u64Max

/-- The highest prefix somebody holds. -/
def Membership.topPrefix (member : Membership) : Option Char := member.prefixes.head?

/-- A run of the server's prefixes, the highest rank first. -/
structure Ranked (p : Prefixes) (run : Str) : Prop where
  known : ∀ c ∈ run, c ∈ p.chars
  order : run.Pairwise fun a b => p.level a < p.level b

instance (p : Prefixes) (run : Str) : Decidable (Ranked p run) :=
  decidable_of_iff (run.all p.chars.contains = true ∧ run.Pairwise fun a b => p.level a < p.level b)
    ⟨fun h => ⟨fun c hc => List.contains_iff_mem.mp (List.all_eq_true.mp h.1 c hc), h.2⟩,
      fun h => ⟨List.all_eq_true.mpr fun c hc => List.contains_iff_mem.mpr (h.known c hc), h.order⟩⟩

namespace Prefixes

variable {p : Prefixes}

theorem rank_of_mem {c : Char} (h : c ∈ p.chars) : ∃ i, p.rank c = some i ∧
    p.chars[i]? = some c := by
  unfold rank
  cases hrank : p.chars.findIdx? (· == c) with
  | none =>
      have := List.findIdx?_eq_none_iff.mp hrank c h
      simp at this
  | some i =>
      obtain ⟨hlt, hat, -⟩ := List.findIdx?_eq_some_iff_getElem.mp hrank
      refine ⟨i, rfl, ?_⟩
      rw [List.getElem?_eq_getElem hlt, beq_iff_eq.mp hat]

theorem level_inj {a b : Char} (ha : a ∈ p.chars) (hb : b ∈ p.chars) (h : p.level a = p.level b) :
    a = b := by
  obtain ⟨i, hi, hati⟩ := rank_of_mem ha
  obtain ⟨j, hj, hatj⟩ := rank_of_mem hb
  unfold level at h
  rw [hi, hj, Option.getD_some, Option.getD_some] at h
  rw [h, hatj, Option.some_inj] at hati
  exact hati.symm

theorem charForMode_mem {mode c : Char} (h : p.charForMode mode = some c) : c ∈ p.chars := by
  obtain ⟨index, -, hat⟩ := Option.bind_eq_some_iff.mp h
  exact List.mem_of_getElem? hat

end Prefixes

namespace Ranked

variable {p : Prefixes} {run : Str}

theorem nil : Ranked p [] := ⟨fun _ h => absurd h List.not_mem_nil, List.Pairwise.nil⟩

theorem nodup (h : Ranked p run) : run.Nodup :=
  h.order.imp fun hlt heq => absurd (heq ▸ hlt) (lt_irrefl _)

/-- The first is the highest. -/
theorem top {member : Membership} (h : Ranked p member.prefixes) {c : Char}
    (hc : c ∈ member.prefixes) : ∃ top, member.topPrefix = some top ∧ p.level top ≤ p.level c := by
  unfold Membership.topPrefix
  have horder := h.order
  cases hprefixes : member.prefixes with
  | nil =>
      rw [hprefixes] at hc
      cases hc
  | cons top rest =>
      rw [hprefixes] at hc horder
      refine ⟨top, rfl, ?_⟩
      rcases List.mem_cons.mp hc with rfl | hc
      · exact le_rfl
      · exact ((List.pairwise_cons.mp horder).1 c hc).le

theorem filter (h : Ranked p run) (keep : Char → Bool) : Ranked p (run.filter keep) :=
  ⟨fun c hc => h.known c (List.mem_of_mem_filter hc), h.order.sublist List.filter_sublist⟩

/-- **Granting** a prefix puts it where it ranks. -/
theorem grant {member : Membership} (h : Ranked p member.prefixes) {c : Char} (hc : c ∈ p.chars) :
    Ranked p (member.grant c p).prefixes := by
  unfold Membership.grant
  by_cases hmem : c ∈ member.prefixes
  · rw [if_pos hmem]
    exact h
  rw [if_neg hmem]
  show Ranked p ((member.prefixes ++ [c]).insertionSort fun a b => p.level a ≤ p.level b)
  have hperm := List.perm_insertionSort (fun a b => p.level a ≤ p.level b) (member.prefixes ++ [c])
  have hknown : ∀ d ∈ (member.prefixes ++ [c]).insertionSort fun a b => p.level a ≤ p.level b,
      d ∈ p.chars := by
    intro d hd
    rcases List.mem_append.mp (hperm.mem_iff.mp hd) with hd | hd
    · exact h.known d hd
    · rw [List.mem_singleton.mp hd]
      exact hc
  have hnodup : ((member.prefixes ++ [c]).insertionSort fun a b =>
      p.level a ≤ p.level b).Nodup := by
    rw [hperm.nodup_iff, List.nodup_append_comm]
    exact List.nodup_cons.mpr ⟨hmem, h.nodup⟩
  have htotal : Std.Total fun a b => p.level a ≤ p.level b := ⟨fun a b => le_total _ _⟩
  have htrans : IsTrans Char fun a b => p.level a ≤ p.level b := ⟨fun a b c => le_trans⟩
  have hsorted := List.pairwise_insertionSort (fun a b => p.level a ≤ p.level b)
    (member.prefixes ++ [c])
  refine ⟨hknown, ?_⟩
  -- distinct characters have distinct levels, so the order is strict
  refine (hsorted.and hnodup).imp_of_mem ?_
  rintro a b ha hb ⟨hle, hne⟩
  exact lt_of_le_of_ne hle fun heq => hne (Prefixes.level_inj (hknown a ha) (hknown b hb) heq)

theorem revoke {member : Membership} (h : Ranked p member.prefixes) (c : Char) :
    Ranked p (member.revoke c).prefixes := h.filter _

end Ranked

/-! ### Member lists -/

/-- True when every run of prefixes in a member list has a property. -/
def Channel.MembersHold (P : Str → Prop) (channel : Channel) : Prop :=
  ∀ (who : CaseFolded) (member : Membership), channel.members[who]? = some member →
    P member.prefixes

namespace Model

/-- True when every run of prefixes in every channel has a property. -/
def MembersHold (P : Str → Prop) (model : Model) : Prop :=
  ∀ key channel, model.channel key = some channel → channel.MembersHold P

namespace MembersHold

variable {P : Str → Prop} {model : Model}

theorem of_channels {after : Model} (h : model.MembersHold P)
    (hchannels : after.channels = model.channels) : after.MembersHold P := by
  intro key channel hchannel
  unfold Model.channel at hchannel
  rw [hchannels] at hchannel
  exact h key channel hchannel

theorem setChannel (h : model.MembersHold P) (key : CaseFolded) {channel : Channel}
    (hchannel : channel.MembersHold P) : (model.setChannel key channel).MembersHold P := by
  intro other found hfound
  rcases Maps.getElem?_insert_eq_some.mp hfound with ⟨-, rfl⟩ | ⟨-, hfound⟩
  · exact hchannel
  · exact h other found hfound

theorem channelMut (h : model.MembersHold P) (key : CaseFolded) {f : Channel → Channel}
    (hf : ∀ channel, channel.MembersHold P → (f channel).MembersHold P) :
    (model.channelMut key f).MembersHold P := by
  intro other found hfound
  rcases Maps.getElem?_modify_eq_some.mp hfound with ⟨rfl, old, hold, rfl⟩ | ⟨-, hfound⟩
  · exact hf old (h _ old hold)
  · exact h other found hfound

theorem logMut (h : model.MembersHold P) (key : CaseFolded) (f : MessageLog → MessageLog) :
    (model.logMut key f).MembersHold P := by
  unfold Model.logMut
  split
  · exact h.channelMut key fun channel hchannel => hchannel
  · exact h.of_channels rfl

theorem map (h : model.MembersHold P) {f : Channel → Channel} {after : Model}
    (hafter : after.channels = model.channels.map fun _ channel => f channel)
    (hf : ∀ channel, channel.MembersHold P → (f channel).MembersHold P) : after.MembersHold P := by
  intro key found hfound
  unfold Model.channel at hfound
  rw [hafter, Std.ExtTreeMap.getElem?_map] at hfound
  obtain ⟨old, hold, rfl⟩ := Option.map_eq_some_iff.mp hfound
  exact hf old (h key old hold)

theorem removeChannel (h : model.MembersHold P) (key : CaseFolded) :
    (model.removeChannel key).MembersHold P := by
  intro other found hfound
  exact h other found (Maps.getElem?_erase_eq_some.mp hfound).2

theorem setTyping (h : model.MembersHold P) (target who : CaseFolded) (typing : Bool) :
    (model.setTyping target who typing).1.MembersHold P := by
  rcases model.setTyping_cases target who typing with
    ⟨-, -, hafter⟩ | ⟨channel, hchannel, hafter⟩ | ⟨query, -, -, hafter⟩
  · rw [hafter]
    exact h
  · rw [hafter]
    exact h.setChannel _ (h _ channel hchannel)
  · rw [hafter]
    exact h.of_channels rfl

end MembersHold

end Model

namespace Channel.MembersHold

variable {P : Str → Prop} {channel : Channel}

/-- Somebody who holds what they may. -/
theorem insert (h : channel.MembersHold P) (who : CaseFolded) {member : Membership}
    (hmember : P member.prefixes) :
    ({ channel with members := channel.members.insert who member } : Channel).MembersHold P := by
  intro other found hfound
  rcases Maps.getElem?_insert_eq_some.mp hfound with ⟨-, rfl⟩ | ⟨-, hfound⟩
  · exact hmember
  · exact h other found hfound

theorem erase (h : channel.MembersHold P) (who : CaseFolded) :
    ({ channel with members := channel.members.erase who } : Channel).MembersHold P := by
  intro other found hfound
  exact h other found (Maps.getElem?_erase_eq_some.mp hfound).2

theorem rename (h : channel.MembersHold P) (old new : CaseFolded) :
    ({ channel with members := Model.renameMember channel.members old new } : Channel).MembersHold
      P := by
  intro who found hfound
  change (Model.renameMember channel.members old new)[who]? = some found at hfound
  unfold Model.renameMember at hfound
  cases hmember : channel.members[old]? with
  | none =>
      rw [hmember] at hfound
      exact h who found hfound
  | some member =>
      rw [hmember] at hfound
      rcases Maps.getElem?_insert_eq_some.mp hfound with ⟨-, rfl⟩ | ⟨-, hfound⟩
      · exact h old _ hmember
      · exact h who found (Maps.getElem?_erase_eq_some.mp hfound).2

/-- A channel that is new. -/
theorem of_empty (h : channel.members = ∅) : channel.MembersHold P := by
  intro who member hmember
  rw [h] at hmember
  exact absurd hmember (by simp)

end Channel.MembersHold

namespace Session

/-! ### The commands -/

section Commands

variable {P : Str → Prop} {ctx : Context} (h : ctx.model.MembersHold P)
include h

theorem reaction_holds {line : Message} {result : Result}
    (hresult : reaction ctx line = some result) :
    result.1.model.MembersHold P := by
  obtain ⟨target, msgid, f, rfl⟩ := reaction_eq_some hresult
  exact h.logMut _ _

theorem linkPreview_holds {line : Message} {result : Result}
    (hresult : linkPreview ctx line = some result) : result.1.model.MembersHold P := by
  rcases linkPreview_eq_some hresult with rfl | ⟨name, msgid, message, f, hf, -, rfl⟩
  · exact h
  · exact h.logMut _ _

theorem file_holds [Primitives] (line : Message) (command target : Str) :
    (file ctx line command target).1.model.MembersHold P := by
  unfold file
  dsimp only
  split
  · split
    · exact h.of_channels rfl
    · rename_i channel hchannel
      have hstart : (ctx.model.nextMessageKey (ctx.stamped line)).1.MembersHold P :=
        h.of_channels rfl
      exact hstart.setChannel _ (h _ channel hchannel)
  · exact h.of_channels rfl

theorem message_holds [Primitives] (line : Message) (command : Str) :
    (message ctx line command).1.model.MembersHold P := by
  unfold message
  split
  · exact h
  · split
    · split
      · rename_i result hresult
        exact reaction_holds h hresult
      · split
        · rename_i result hresult
          exact linkPreview_holds h hresult
        · exact file_holds h _ _ _
    · exact file_holds h _ _ _

theorem join_holds (hnone : P []) (line : Message) : (join ctx line).1.model.MembersHold P := by
  unfold join
  split
  · exact h
  · rename_i name _
    dsimp only
    split
    · refine h.setChannel _ ?_
      unfold Model.channelOr
      cases hchannel : ctx.model.channel (ctx.fold name) with
      | some channel => exact h _ channel hchannel
      | none => exact .of_empty rfl
    · split
      · exact h
      · rename_i channel hchannel
        have hperson : ∀ key nick f, (ctx.model.personOrInsert key nick f).MembersHold P :=
          fun _ _ _ => h.of_channels rfl
        refine (hperson _ _ _).setChannel _ ((h _ channel hchannel).insert _ ?_)
        cases hmember : channel.members[ctx.fold (sender line)]? with
        | some member => exact h _ channel hchannel _ member hmember
        | none => exact hnone

theorem leave_holds (folded who : CaseFolded) : (leave ctx folded who).model.MembersHold P :=
  Model.MembersHold.of_channels (h.channelMut folded fun _ hchannel => hchannel.erase who) rfl

theorem part_holds (line : Message) : (part ctx line).1.model.MembersHold P := by
  unfold part
  split
  · exact h
  · dsimp only
    split
    · exact h.removeChannel _
    · exact leave_holds h _ _

theorem quit_holds (line : Message) : (quit ctx line).1.model.MembersHold P := by
  unfold quit
  have hmodel : (ctx.model.removeEverywhere (ctx.fold (sender line))).1.MembersHold P :=
    h.map rfl fun _ hchannel => hchannel.erase _
  exact Model.MembersHold.of_channels hmodel rfl

theorem kick_holds (line : Message) : (kick ctx line).1.model.MembersHold P := by
  unfold kick
  split
  · dsimp only
    split
    · exact h.removeChannel _
    · exact leave_holds h _ _
  · exact h

theorem nick_holds (line : Message) : (nick ctx line).1.model.MembersHold P := by
  unfold nick
  split
  · exact h
  · exact h.map rfl fun _ hchannel => hchannel.rename _ _

theorem renameChannel_holds (line : Message) : (renameChannel ctx line).1.model.MembersHold P := by
  unfold renameChannel
  split
  · split
    · exact h
    · rename_i model hmodel
      obtain ⟨channel, hchannel, rfl⟩ := Option.map_eq_some_iff.mp hmodel
      exact (h.removeChannel _).setChannel _ (h _ channel hchannel)
  · exact h

theorem topic_holds (line : Message) : (topic ctx line).1.model.MembersHold P := by
  unfold topic
  split
  · exact h
  · split
    · exact h
    · exact h.channelMut _ fun _ hchannel => hchannel

theorem topicReply_holds (line : Message) : (topicReply ctx line).1.model.MembersHold P := by
  unfold topicReply
  split
  · exact h
  · split
    · exact h
    · exact h.channelMut _ fun _ hchannel => hchannel

theorem redact_holds (line : Message) : (redact ctx line).1.model.MembersHold P := by
  unfold redact
  split
  · dsimp only
    split
    · exact h
    · exact h.logMut _ _
  · exact h

theorem markRead_holds (line : Message) : (markRead ctx line).1.model.MembersHold P := by
  unfold markRead
  split
  · dsimp only
    split
    · rename_i channel hchannel
      exact h.setChannel _ (h _ channel hchannel)
    · exact h.of_channels rfl
    · exact h
  · exact h

theorem metadata_holds (line : Message) (offset : ℕ) :
    (metadata ctx line offset).1.model.MembersHold P := by
  unfold metadata
  split
  · rename_i target key _ _
    dsimp only
    generalize (if target = "*" then ctx.model.me.nick else target) = target
    split
    · split
      · exact h
      · exact h.channelMut _ fun _ hchannel => hchannel
    · split
      · exact h.of_channels rfl
      · exact h.of_channels rfl
  · exact h

theorem personChanged_holds (line : Message) (change : Person → Person) :
    (personChanged ctx line change).1.model.MembersHold P := by
  unfold personChanged
  dsimp only
  split
  · exact h.of_channels rfl
  · exact h.of_channels rfl

theorem applyNamed_holds (name : Str) (entries : List Str) :
    (applyNamed ctx name entries).1.model.MembersHold P := by
  unfold applyNamed
  split
  · exact h
  · exact h.channelMut _ fun _ hchannel => hchannel

theorem whois_holds (line : Message) (command : Str) :
    (whois ctx line command).1.model.MembersHold P := by
  unfold whois
  split
  · exact h
  · dsimp only
    split
    · split
      · exact h
      · exact h.of_channels rfl
    · exact h.of_channels rfl

end Commands

/-! ### The commands that put prefixes down -/

/-- **A mode change** keeps what is ranked so. -/
theorem channelMode_ranked {i : Isupport} {channel : Channel}
    (h : channel.MembersHold (Ranked i.prefixes)) (change : ModeChange) :
    (channelMode i channel change).1.MembersHold (Ranked i.prefixes) := by
  unfold channelMode
  split
  · split
    · rename_i nick c _ hc
      dsimp only
      split
      · exact h
      · rename_i member hmember
        have hheld := h _ member hmember
        refine h.insert _ ?_
        split
        · exact hheld.grant (Prefixes.charForMode_mem hc)
        · exact hheld.revoke c
    · exact h
  · split
    · exact h
    · exact h

theorem channelModes_ranked {i : Isupport} {channel : Channel}
    (h : channel.MembersHold (Ranked i.prefixes)) (changes : List ModeChange) :
    (channelModes i channel changes).1.MembersHold (Ranked i.prefixes) := by
  unfold channelModes
  generalize false = touched
  induction changes generalizing channel touched with
  | nil => exact h
  | cons change changes ih =>
      rw [List.foldl_cons]
      exact ih (channelMode_ranked h change) _

theorem mode_ranked {ctx : Context} (h : ctx.model.MembersHold (Ranked ctx.isupport.prefixes))
    (line : Message) : (mode ctx line).1.model.MembersHold (Ranked ctx.isupport.prefixes) := by
  unfold mode
  split
  · exact h
  · dsimp only
    split
    · exact h.of_channels rfl
    · split
      · exact h
      · rename_i channel hchannel
        exact h.setChannel _ (channelModes_ranked (h _ channel hchannel) _)

/-- True of an entry of a NAMES reply that is skipped, or that has its prefixes in rank order. -/
def namesEntryInOrder (p : Prefixes) (entry : Str) : Bool :=
  before '!' (p.split entry).2 = [] || Ranked p (p.split entry).1

/-- True of the flags of a WHO reply that have their prefixes in rank order. -/
def flagsInOrder (p : Prefixes) (flags : Str) : Bool :=
  Ranked p (flags.filter fun c => (p.rank c).isSome)

/-- The channel and the flags of a WHO or WHOX reply. -/
def whoFlags (line : Message) : Option (Str × Str) :=
  let command := toAsciiUppercase line.command
  if command = "352" then
    match line.param 1, line.param 6 with
    | some channel, some flags => some (channel, flags)
    | _, _ => none
  else if command = "354" ∧ line.param 1 = some whoxToken ∧ (line.param 7).isSome = true then
    match line.param 2, line.param 6 with
    | some channel, some flags => some (channel, flags)
    | _, _ => none
  else none

/-- True of a line that puts down no run of prefixes but in rank order.  What is said of a channel
we are not in is put down nowhere. -/
def inOrder (ctx : Context) (line : Message) : Bool :=
  let p := ctx.isupport.prefixes
  let namesInOrder := toAsciiUppercase line.command = "353" →
    (line.param 2).all (fun name => (ctx.model.channel (ctx.fold name)).isNone ||
      (splitWhitespace (line.trailing.getD [])).all (namesEntryInOrder p)) = true
  let whoInOrder := (whoFlags line).all fun row =>
    !ctx.isupport.isChannel row.1 || (ctx.model.channel (ctx.fold row.1)).isNone ||
      flagsInOrder p row.2
  namesInOrder && whoInOrder

theorem namesLoop_ranked {i : Isupport} {folded : CaseFolded} {model : Model} {entries : List Str}
    (h : model.MembersHold (Ranked i.prefixes))
    (hentries : (model.channel folded).isNone = true ∨
      entries.all (namesEntryInOrder i.prefixes) = true) :
    (namesLoop i folded model entries).1.MembersHold (Ranked i.prefixes) := by
  induction entries generalizing model with
  | nil => exact h
  | cons entry entries ih =>
      rw [namesLoop]
      dsimp only
      split
      · exact ih h (hentries.imp_right fun hall => (Bool.and_eq_true_iff.mp hall).2)
      · rename_i hnick
        split
        · exact h
        · rename_i channel hchannel
          have hall : (entry :: entries).all (namesEntryInOrder i.prefixes) = true := by
            refine hentries.resolve_left ?_
            rw [hchannel]
            exact Bool.false_ne_true
          obtain ⟨hfirst, hrest⟩ := Bool.and_eq_true_iff.mp hall
          have hranked : Ranked i.prefixes (i.prefixes.split entry).1 := by
            unfold namesEntryInOrder at hfirst
            rw [decide_eq_false hnick, Bool.false_or] at hfirst
            exact of_decide_eq_true hfirst
          have hperson : ∀ key nick f, (model.personOrInsert key nick f).MembersHold
              (Ranked i.prefixes) := fun _ _ _ => h.of_channels rfl
          exact ih ((hperson _ _ _).setChannel _ ((h _ channel hchannel).insert _ hranked))
            (.inr hrest)

theorem names_ranked {ctx : Context} (h : ctx.model.MembersHold (Ranked ctx.isupport.prefixes))
    {line : Message} (hline : toAsciiUppercase line.command = "353")
    (horder : inOrder ctx line = true) :
    (names ctx line).1.model.MembersHold (Ranked ctx.isupport.prefixes) := by
  obtain ⟨hnames, -⟩ := Bool.and_eq_true_iff.mp horder
  have hall := of_decide_eq_true hnames hline
  unfold names
  split
  · exact h
  · rename_i name hname
    rw [hname, Option.all_some, Bool.or_eq_true] at hall
    exact namesLoop_ranked h hall

theorem applyWho_ranked {ctx : Context} (h : ctx.model.MembersHold (Ranked ctx.isupport.prefixes))
    {row : WhoRow} (horder : (!ctx.isupport.isChannel row.channel ||
      (ctx.model.channel (ctx.fold row.channel)).isNone ||
        flagsInOrder ctx.isupport.prefixes row.flags) = true) :
    (applyWho ctx row).1.model.MembersHold (Ranked ctx.isupport.prefixes) := by
  have hperson : (ctx.model.personOrInsert (ctx.fold row.nick) row.nick (whoPerson row)).MembersHold
      (Ranked ctx.isupport.prefixes) := h.of_channels rfl
  unfold applyWho
  dsimp only
  split
  · exact hperson
  · rename_i hin
    split
    · exact hperson
    · rename_i channel hchannel
      have hhere : ctx.model.channel (ctx.fold row.channel) = some channel := hchannel
      have hknown : (!ctx.isupport.isChannel row.channel) = false := Bool.eq_false_iff.mpr hin
      unfold flagsInOrder at horder
      rw [hhere, hknown, Option.isNone_some, Bool.false_or, Bool.false_or] at horder
      have hranked := of_decide_eq_true horder
      exact hperson.channelMut _ fun _ hheld => hheld.insert _ hranked

theorem whoReply_ranked {ctx : Context} (h : ctx.model.MembersHold (Ranked ctx.isupport.prefixes))
    {line : Message} (hline : toAsciiUppercase line.command = "352")
    (horder : inOrder ctx line = true) :
    (whoReply ctx line).1.model.MembersHold (Ranked ctx.isupport.prefixes) := by
  obtain ⟨-, hwho⟩ := Bool.and_eq_true_iff.mp horder
  unfold whoReply
  split
  · rename_i channel user host nick flags hchannel _ _ _ hflags
    have hrow : whoFlags line = some (channel, flags) := by
      unfold whoFlags
      dsimp only
      rw [if_pos hline, hchannel, hflags]
    rw [hrow] at hwho
    exact applyWho_ranked h hwho
  · exact h

theorem whoxReply_ranked {ctx : Context} (h : ctx.model.MembersHold (Ranked ctx.isupport.prefixes))
    {line : Message} (hline : toAsciiUppercase line.command = "354")
    (horder : inOrder ctx line = true) :
    (whoxReply ctx line).1.model.MembersHold (Ranked ctx.isupport.prefixes) := by
  obtain ⟨-, hwho⟩ := Bool.and_eq_true_iff.mp horder
  unfold whoxReply
  split
  · exact h
  · rename_i htoken
    split
    · rename_i channel user host nick flags account hchannel _ _ _ hflags haccount
      have hrow : whoFlags line = some (channel, flags) := by
        unfold whoFlags
        dsimp only
        rw [if_neg (by rw [hline]; decide),
          if_pos ⟨hline, not_not.mp htoken, by rw [haccount]; rfl⟩, hchannel, hflags]
      rw [hrow] at hwho
      exact applyWho_ranked h hwho
    · exact h

/-- **Every command** keeps what is ranked so, if what it puts down is in order. -/
theorem apply_ranked [Primitives] {ctx : Context}
    (h : ctx.model.MembersHold (Ranked ctx.isupport.prefixes)) {line : Message}
    (horder : inOrder ctx line = true) :
    (apply ctx line).1.model.MembersHold (Ranked ctx.isupport.prefixes) := by
  have happlied := apply_applied ctx line
  have hnames := fun hline => names_ranked h hline horder
  have hwho := fun hline => whoReply_ranked h hline horder
  have hwhox := fun hline => whoxReply_ranked h hline horder
  generalize toAsciiUppercase line.command = command at happlied hnames hwho hwhox
  generalize apply ctx line = result at happlied ⊢
  cases happlied with
  | message => exact message_holds h _ _
  | join => exact join_holds h .nil _
  | part => exact part_holds h _
  | quit => exact quit_holds h _
  | kick => exact kick_holds h _
  | nick => exact nick_holds h _
  | rename => exact renameChannel_holds h _
  | topic => exact topic_holds h _
  | mode => exact mode_ranked h _
  | topicReply => exact topicReply_holds h _
  | markRead => exact markRead_holds h _
  | redact => exact redact_holds h _
  | away => exact personChanged_holds h _ _
  | account => exact personChanged_holds h _ _
  | metadata => exact metadata_holds h _ _
  | keys => exact metadata_holds h _ _
  | whois => exact whois_holds h _ _
  | names hline => exact hnames hline
  | whoReply hline => exact hwho hline
  | whoxReply hline => exact hwhox hline
  | prop =>
      unfold prop
      split
      · exact h
      · exact applyNamed_holds h _ _
  | propList =>
      unfold propList
      split
      · exact h
      · exact applyNamed_holds h _ _
  | other => exact h

end Session

namespace Client

open Model

section Run

/-- True when nobody is on any member list. -/
def deserted (model : Model) : Bool := model.channels.toList.all fun p => p.2.members.isEmpty

theorem membersHold_of_deserted {model : Model} (h : deserted model = true) (P : Str → Prop) :
    model.MembersHold P := by
  intro key channel hchannel
  have hempty := List.all_eq_true.mp h (key, channel)
    (Std.ExtTreeMap.mem_toList_iff_getElem?_eq_some.mpr hchannel)
  exact .of_empty (Std.ExtTreeMap.isEmpty_iff.mp hempty)

variable [Primitives]

/-- True of a line that puts down no run of prefixes but in rank order, and does not change the
server's prefixes while anybody is on a member list. -/
def Deed.inOrder : Deed → Bool
  | .line c message =>
      (!message.is "005" || deserted c.model ||
        ((isupportTokens message).foldl (fun i token => (i.apply token).1) c.isupport).prefixes ==
          c.isupport.prefixes) &&
      ((c.noted message).delivered message).all fun p => Session.inOrder (p.1.context false) p.2
  | .host _ _ => true

/-- Everybody's prefixes are in the server's order. -/
def AllRanked (b : Bearing) : Prop := b.model.MembersHold (Ranked b.isupport.prefixes)

theorem fold_ranked {c : Client} {line : Message} (h : AllRanked c.bearing)
    (horder : Session.inOrder (c.context false) line = true) (historical : Bool) :
    AllRanked (c.fold line historical).bearing := by
  rw [fold_eq]
  have hheld : (c.context historical).model.MembersHold
      (Ranked (c.context historical).isupport.prefixes) := h
  exact Session.apply_ranked hheld horder

/-- **One line** that is in order leaves everybody ranked. -/
theorem handleMessage_ranked {c : Client} {message : Message}
    (horder : Deed.inOrder (.line c message) = true) (h : AllRanked c.bearing) :
    AllRanked (c.handleMessage message).bearing := by
  obtain ⟨hprefixes, hlines⟩ := Bool.and_eq_true_iff.mp horder
  refine handleMessage_keeps_bearing (P := AllRanked) (fun _ _ _ _ hb => hb) c message
    (fun _ _ hb => hb) ?_ ?_ ?_ h
  · intro hline hb
    rw [handleIsupport_bearing]
    rw [hline, Bool.not_true, Bool.false_or, Bool.or_eq_true] at hprefixes
    rcases hprefixes with hempty | hsame
    · exact membersHold_of_deserted hempty _
    · unfold AllRanked
      dsimp only
      rw [show (c.noted message).isupport = c.isupport from rfl, beq_iff_eq.mp hsame]
      exact hb
  · intro d _ hd hb
    obtain ⟨_, _, _, -, -, -, hd⟩ := handleTyping_bearing hd
    rw [hd]
    exact MembersHold.setTyping hb _ _ _
  · intro p historical hp hb
    exact fold_ranked hb (List.all_eq_true.mp hlines p hp) historical

/-- **One input of the host** leaves everybody ranked. -/
theorem step_ranked {c : Client} {input : Input} (hbytes : ∀ data, input ≠ .bytes data)
    (h : AllRanked c.bearing) : AllRanked (c.step input).bearing := by
  refine step_keeps_bearing (P := AllRanked) (fun _ _ _ _ hb => hb) c hbytes ?_ ?_
    (fun _ _ _ hb => hb) ?_ h
  · intro _ b hb
    have hheld : b.model.MembersHold (Ranked b.isupport.prefixes) := hb
    refine hheld.map rfl ?_
    exact fun _ _ => .of_empty rfl
  · intro now _ hb
    have hmodel := tick_keeps (P := fun model => model.MembersHold (Ranked c.isupport.prefixes))
      (fun _ _ _ hmodel => hmodel.setTyping _ _ _) c now hb
    unfold AllRanked
    rw [tick_bearing] at hmodel ⊢
    exact hmodel
  · intro line hline hb
    refine fold_ranked hb ?_ false
    -- what we say ourselves is a message, and puts nothing down
    have hnone : Session.whoFlags { line with source := some ⟨c.nick, none, none⟩ } = none := by
      unfold Session.whoFlags
      rcases hline with hline | hline
      · rw [hline]
        rfl
      · rw [hline]
        rfl
    unfold Session.inOrder
    dsimp only
    rw [hnone]
    rcases hline with hline | hline
    · rw [hline]
      rfl
    · rw [hline]
      rfl

/-- **Everybody's prefixes stay in rank order** in every run whose lines put down none but in that
order, under prefixes that do not change while anybody is on a member list: no character twice, the
highest rank first, and `top_prefix` the highest that is held. -/
theorem run_ranked (config : Config) (inputs : List Input)
    (h : ∀ deed ∈ (new config).deeds inputs, deed.inOrder = true) {key who : CaseFolded}
    {channel : Channel} {member : Membership}
    (hchannel : ((new config).run inputs).model.channel key = some channel)
    (hmember : channel.members[who]? = some member) :
    member.prefixes.Nodup ∧
      (member.prefixes.Pairwise fun a b => ((new config).run inputs).isupport.prefixes.level a <
        ((new config).run inputs).isupport.prefixes.level b) ∧
      (∀ c ∈ member.prefixes, c ∈ ((new config).run inputs).isupport.prefixes.chars ∧
        ∃ top, member.topPrefix = some top ∧ ((new config).run inputs).isupport.prefixes.level top ≤
          ((new config).run inputs).isupport.prefixes.level c) := by
  have hrun : AllRanked ((new config).run inputs).bearing :=
    run_along (P := fun _ c => AllRanked c.bearing) (fun _ _ _ _ _ hc => hc)
      (fun _ _ _ horder hc => handleMessage_ranked horder hc)
      (fun _ _ _ hbytes _ hc => step_ranked hbytes hc)
      (fun key channel hchannel => absurd hchannel (by simp [new, bearing, Model.channel,
        Model.withRetention])) inputs (along_of_forall h)
  have hranked := hrun key channel hchannel who member hmember
  exact ⟨hranked.nodup, hranked.order, fun c hc => ⟨hranked.known c hc, hranked.top hc⟩⟩

end Run

/-- We enter a channel, and the server says who is there. -/
def enteredWith (entry : Str) : List Input :=
  [.connected, .bytes (Utf8.encode (":me!u@h JOIN #a\n:s 353 me = #a :" ++ entry ++ "\n"))]

/-- Bob as he is held, when he is. -/
def bobIn [Primitives] (c : Client) : Option Membership :=
  (c.model.channel ⟨"#a"⟩).bind fun channel => channel.members[(⟨"bob"⟩ : CaseFolded)]?

theorem run_ranked_bob : letI := Primitives.ascii
    ∃ member, bobIn ((new (.new "me")).run (enteredWith "@+bob")) = some member ∧
      member.prefixes.Nodup ∧ ∃ top, member.topPrefix = some top ∧ top = '@' := by
  have hbob : letI := Primitives.ascii
      bobIn ((new (.new "me")).run (enteredWith "@+bob")) = some ⟨['@', '+']⟩ := by decide +kernel
  have hall : letI := Primitives.ascii
      ((new (.new "me")).deeds (enteredWith "@+bob")).all Deed.inOrder = true := by decide +kernel
  obtain ⟨channel, hchannel, hmember⟩ := Option.bind_eq_some_iff.mp hbob
  have hranked := @run_ranked Primitives.ascii _ _ (List.all_eq_true.mp hall) _ _ _ _ hchannel
    hmember
  exact ⟨_, hbob, hranked.1, '@', rfl, rfl⟩

/-- A server lists an operator who also has a voice, the voice first: it is what is shown as his
highest prefix. -/
theorem voice_before_op : letI := Primitives.ascii
    ∃ member, bobIn ((new (.new "me")).run (enteredWith "+@bob")) = some member ∧
      member.prefixes = ['+', '@'] ∧ member.topPrefix = some '+' ∧
      ((new (.new "me")).run (enteredWith "+@bob")).isupport.prefixes.level '@' <
        ((new (.new "me")).run (enteredWith "+@bob")).isupport.prefixes.level '+' := by
  refine ⟨⟨['+', '@']⟩, ?_, rfl, rfl, ?_⟩
  · decide +kernel
  · decide +kernel

end Client

end ObbyClient

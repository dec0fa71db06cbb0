import ObbyClient.Engine.Retention

/-!
# What a rename keeps

A rename takes an entry out of a map and puts it back under another key.  What stood under that key
is dropped.

* `Model.Holds` — a message held in some log;
* `Model.rename_keeps_iff`, `Model.renameChannel_keeps_iff` — the renames that lose no message, and
  that no rename touches anything else.
-/

namespace ObbyClient

namespace Model

/-! ### Moving one entry -/

section Move

variable {β : Type}

/-- An entry taken out of a map and put back under another key. -/
def moved (map : Std.ExtTreeMap CaseFolded β) (old new : CaseFolded) (value : β) :
    Std.ExtTreeMap CaseFolded β :=
  (map.erase old).insert new value

theorem getElem?_moved (map : Std.ExtTreeMap CaseFolded β) (old new : CaseFolded) (value : β)
    (key : CaseFolded) :
    (moved map old new value)[key]? =
      if key = new then some value else if key = old then none else map[key]? := by
  unfold moved
  rw [Std.ExtTreeMap.getElem?_insert, Std.ExtTreeMap.getElem?_erase]
  simp only [Std.LawfulEqCmp.compare_eq_iff_eq, eq_comm (a := key)]

/-- True when one of the logs in a map holds this message. -/
def HeldIn (log : β → MessageLog) (map : Std.ExtTreeMap CaseFolded β) (message : ChatMessage) :
    Prop :=
  ∃ p ∈ map.toList, message ∈ (log p.2).iter

instance (log : β → MessageLog) (map : Std.ExtTreeMap CaseFolded β) (message : ChatMessage) :
    Decidable (HeldIn log map message) := inferInstanceAs (Decidable (∃ p ∈ _, _))

theorem heldIn_iff {log : β → MessageLog} {map : Std.ExtTreeMap CaseFolded β}
    {message : ChatMessage} :
    HeldIn log map message ↔
      ∃ (key : CaseFolded) (value : β), map[key]? = some value ∧ message ∈ (log value).iter := by
  constructor
  · intro h
    obtain ⟨p, hp, hmessage⟩ := h
    exact ⟨p.1, p.2, Std.ExtTreeMap.mem_toList_iff_getElem?_eq_some.mp hp, hmessage⟩
  · intro h
    obtain ⟨key, value, hvalue, hmessage⟩ := h
    exact ⟨(key, value), Std.ExtTreeMap.mem_toList_iff_getElem?_eq_some.mpr hvalue, hmessage⟩

/-- True when a message of the entry that a move displaces is held elsewhere too. -/
def Spared (log : β → MessageLog) (map : Std.ExtTreeMap CaseFolded β)
    (elsewhere : ChatMessage → Prop)
    (old new : CaseFolded) : Prop :=
  old ≠ new → ∀ displaced, map[new]? = some displaced → ∀ message ∈ (log displaced).iter,
    elsewhere message ∨
      ∃ (key : CaseFolded) (value : β), key ≠ new ∧ map[key]? = some value ∧
        message ∈ (log value).iter

/-- **A move keeps every message just when it displaces none** that is held nowhere else. -/
theorem moved_keeps_iff {log : β → MessageLog} {map : Std.ExtTreeMap CaseFolded β}
    {elsewhere : ChatMessage → Prop} {old new : CaseFolded} {value value' : β}
    (hvalue : map[old]? = some value) (hlog : log value' = log value) :
    (∀ message, elsewhere message ∨ HeldIn log map message →
      elsewhere message ∨ HeldIn log (moved map old new value') message) ↔
      Spared log map elsewhere old new := by
  constructor
  · intro h hne displaced hdisplaced message hmessage
    rcases h message (.inr (heldIn_iff.mpr ⟨new, displaced, hdisplaced,
      hmessage⟩)) with hheld | hheld
    · exact .inl hheld
    · obtain ⟨key, found, hfound, hin⟩ := heldIn_iff.mp hheld
      rw [getElem?_moved] at hfound
      right
      by_cases hnew : key = new
      · rw [if_pos hnew] at hfound
        refine ⟨old, value, hne, hvalue, ?_⟩
        rw [← hlog, Option.some.inj hfound]
        exact hin
      · rw [if_neg hnew] at hfound
        by_cases hold : key = old
        · rw [if_pos hold] at hfound
          cases hfound
        · rw [if_neg hold] at hfound
          exact ⟨key, found, hnew, hfound, hin⟩
  · intro h message hheld
    rcases hheld with hheld | hheld
    · exact .inl hheld
    obtain ⟨key, found, hfound, hin⟩ := heldIn_iff.mp hheld
    -- where an entry other than the displaced one is found after the move
    have hmoved : ∀ (key : CaseFolded) (found : β), key ≠ new ∨ old = new → map[key]? = some found →
        message ∈ (log found).iter → HeldIn log (moved map old new value') message := by
      intro key found hkey hfound hin
      rw [heldIn_iff]
      by_cases hold : key = old
      · refine ⟨new, value', by rw [getElem?_moved, if_pos rfl], ?_⟩
        rw [hold, hvalue] at hfound
        rw [hlog, Option.some.inj hfound]
        exact hin
      · have hnew : key ≠ new := by
          rcases hkey with hkey | hkey
          · exact hkey
          · rwa [← hkey]
        refine ⟨key, found, ?_, hin⟩
        rw [getElem?_moved, if_neg hnew, if_neg hold]
        exact hfound
    by_cases hdisplaced : key ≠ new ∨ old = new
    · exact .inr (hmoved key found hdisplaced hfound hin)
    · rw [not_or, not_not] at hdisplaced
      obtain ⟨hkey, hne⟩ := hdisplaced
      rw [hkey] at hfound
      rcases h hne found hfound message hin with helse | ⟨key', found', hkey', hfound', hin'⟩
      · exact .inl helse
      · exact .inr (hmoved key' found' (.inl hkey') hfound' hin')

end Move

/-! ### Logs -/

/-- True when a channel of the model holds this message. -/
def ChannelHolds (model : Model) (message : ChatMessage) : Prop :=
  HeldIn Channel.log model.channels message

/-- True when a conversation of the model holds this message. -/
def ConversationHolds (model : Model) (message : ChatMessage) : Prop :=
  HeldIn Conversation.log model.conversations message

/-- True when a log of the model holds this message. -/
def Holds (model : Model) (message : ChatMessage) : Prop :=
  model.ChannelHolds message ∨ model.ConversationHolds message

instance (model : Model) (message : ChatMessage) : Decidable (model.Holds message) :=
  inferInstanceAs (Decidable (HeldIn _ _ _ ∨ HeldIn _ _ _))

/-- What a channel is beside who is in it. -/
def sansMembers (channel : Channel) : Channel := { channel with members := ∅ }

/-- What one member holds in one channel. -/
def membership (model : Model) (key who : CaseFolded) : Option Membership :=
  (model.channel key).bind fun channel => channel.members[who]?

/-! ### Renaming somebody -/

/-- A rename of somebody that keeps every message and touches nothing but the memberships, the
conversation and the record of the two names. -/
structure RenameKeeps (before after : Model) (old new : CaseFolded) : Prop where
  messages : ∀ message, before.Holds message → after.Holds message
  channels : ∀ key, (after.channel key).map sansMembers = (before.channel key).map sansMembers
  memberships : ∀ key who, who ≠ old → who ≠ new →
    after.membership key who = before.membership key who
  conversations : ∀ key, key ≠ old → key ≠ new → after.conversation key = before.conversation key
  people : ∀ key, key ≠ old → key ≠ new → after.person key = before.person key

theorem getElem?_renameMember (members : Std.ExtTreeMap CaseFolded Membership)
    {old new who : CaseFolded} (hold : who ≠ old) (hnew : who ≠ new) :
    (renameMember members old new)[who]? = members[who]? := by
  unfold renameMember
  split
  · show (moved members old new _)[who]? = _
    rw [getElem?_moved, if_neg hnew, if_neg hold]
  · rfl

section Rename

variable (model : Model) (casemapping : Casemapping) (source dest : Str)

theorem rename_channel (key : CaseFolded) :
    (model.rename casemapping source dest).channel key = (model.channel key).map fun channel =>
      { channel with
        members := renameMember channel.members (casemapping.fold source) (casemapping.fold dest)
          } := by
  unfold channel rename
  rw [Std.ExtTreeMap.getElem?_map]

theorem rename_channelHolds (message : ChatMessage) :
    (model.rename casemapping source dest).ChannelHolds message ↔ model.ChannelHolds message := by
  have hchannel := model.rename_channel casemapping source dest
  unfold ChannelHolds
  rw [heldIn_iff, heldIn_iff]
  constructor
  · intro h
    obtain ⟨key, renamed, hrenamed, hin⟩ := h
    obtain ⟨channel, hbefore, rfl⟩ := Option.map_eq_some_iff.mp ((hchannel key).symm.trans hrenamed)
    exact ⟨key, channel, hbefore, hin⟩
  · intro h
    obtain ⟨key, channel, hbefore, hin⟩ := h
    exact ⟨key, _, (hchannel key).trans (congrArg _ hbefore), hin⟩

/-- The conversations after a rename: the one of the old name, if there is one, was moved. -/
theorem rename_conversations_cases :
    model.conversations[casemapping.fold source]? = none ∧
        (model.rename casemapping source dest).conversations = model.conversations ∨
      ∃ query, model.conversations[casemapping.fold source]? = some query ∧
        (model.rename casemapping source dest).conversations =
          moved model.conversations (casemapping.fold source) (casemapping.fold dest)
            { query with nick := dest } := by
  cases hquery : model.conversations[casemapping.fold source]? with
  | none =>
    left
    simp only [rename, hquery, and_self]
  | some query =>
    right
    refine ⟨query, rfl, ?_⟩
    simp only [rename, moved, hquery]

/-- The people after a rename, in the same way. -/
theorem rename_people_cases :
    model.people[casemapping.fold source]? = none ∧
        (model.rename casemapping source dest).people = model.people ∨
      ∃ person, model.people[casemapping.fold source]? = some person ∧
        (model.rename casemapping source dest).people =
          moved model.people (casemapping.fold source) (casemapping.fold dest)
            { person with nick := dest } := by
  cases hperson : model.people[casemapping.fold source]? with
  | none =>
    left
    simp only [rename, hperson, and_self]
  | some person =>
    right
    refine ⟨person, rfl, ?_⟩
    simp only [rename, moved, hperson]

/-- True when renaming somebody loses no message: the conversation with who had the new name before
is dropped, so there is none, or it is the one that moves, or what it holds is held elsewhere. -/
def RenameSpares (old new : CaseFolded) : Prop :=
  model.conversations[old]? = none ∨
    Spared Conversation.log model.conversations model.ChannelHolds old new

/-- **A rename keeps every message just when it displaces none.** -/
theorem rename_keeps_iff :
    RenameKeeps model (model.rename casemapping source dest) (casemapping.fold source)
        (casemapping.fold dest) ↔
      model.RenameSpares (casemapping.fold source) (casemapping.fold dest) := by
  have hmessages : (∀ message, model.Holds message →
      (model.rename casemapping source dest).Holds message) ↔
        model.RenameSpares (casemapping.fold source) (casemapping.fold dest) := by
    unfold Holds
    simp only [rename_channelHolds]
    unfold RenameSpares ConversationHolds
    rcases model.rename_conversations_cases casemapping source dest with
      ⟨hquery, hafter⟩ | ⟨query, hquery, hafter⟩
    · rw [hafter]
      exact iff_of_true (fun _ h => h) (.inl hquery)
    · rw [hafter, hquery]
      simp only [reduceCtorEq, false_or]
      exact moved_keeps_iff hquery rfl
  constructor
  · intro h
    exact hmessages.mp h.messages
  · intro h
    refine ⟨hmessages.mpr h, ?_, ?_, ?_, ?_⟩
    · intro key
      rw [rename_channel, Option.map_map]
      rfl
    · intro key who hold hnew
      unfold membership
      rw [rename_channel, Option.bind_map]
      cases model.channel key with
      | none => rfl
      | some channel => exact getElem?_renameMember channel.members hold hnew
    · intro key hold hnew
      unfold conversation
      rcases model.rename_conversations_cases casemapping source dest with
        ⟨-, hafter⟩ | ⟨query, -, hafter⟩
      · rw [hafter]
      · rw [hafter, getElem?_moved, if_neg hnew, if_neg hold]
    · intro key hold hnew
      unfold person
      rcases model.rename_people_cases casemapping source dest with
        ⟨-, hafter⟩ | ⟨person, -, hafter⟩
      · rw [hafter]
      · rw [hafter, getElem?_moved, if_neg hnew, if_neg hold]

end Rename

/-! ### Renaming a channel -/

/-- A rename of a channel that keeps every message and touches nothing but the two channels. -/
structure RenameChannelKeeps (before after : Model) (old new : CaseFolded) : Prop where
  messages : ∀ message, before.Holds message → after.Holds message
  channels : ∀ key, key ≠ old → key ≠ new → after.channel key = before.channel key
  conversations : after.conversations = before.conversations
  people : after.people = before.people

section RenameChannel

variable (model : Model) (casemapping : Casemapping) (source dest : Str)

/-- The model after a channel rename; nothing happens when we were not in the channel. -/
def afterRenameChannel : Model :=
  (model.renameChannel casemapping source dest).getD model

/-- True when renaming a channel loses no message, in the same way. -/
def RenameChannelSpares (old new : CaseFolded) : Prop :=
  model.channels[old]? = none ∨
    Spared Channel.log model.channels model.ConversationHolds old new

/-- **A channel rename keeps every message just when it displaces none.** -/
theorem renameChannel_keeps_iff :
    RenameChannelKeeps model (model.afterRenameChannel casemapping source dest)
        (casemapping.fold source) (casemapping.fold dest) ↔
      model.RenameChannelSpares (casemapping.fold source) (casemapping.fold dest) := by
  unfold RenameChannelSpares
  cases hchannel : model.channels[casemapping.fold source]? with
  | none =>
    have hsame : model.afterRenameChannel casemapping source dest = model := by
      unfold afterRenameChannel renameChannel channel
      rw [hchannel]
      rfl
    rw [hsame]
    exact iff_of_true ⟨fun _ h => h, fun _ _ _ => rfl, rfl, rfl⟩ (.inl rfl)
  | some channel =>
    have hafter : model.afterRenameChannel casemapping source dest =
        { model with
          channels := moved model.channels (casemapping.fold source) (casemapping.fold dest)
            { channel with name := dest } } := by
      unfold afterRenameChannel renameChannel Model.channel
      rw [hchannel]
      rfl
    rw [hafter]
    simp only [reduceCtorEq, false_or]
    have hmoved := @moved_keeps_iff _ Channel.log model.channels model.ConversationHolds _
      (casemapping.fold dest) channel { channel with name := dest } hchannel rfl
    constructor
    · intro h
      refine hmoved.mp ?_
      intro message hheld
      exact (h.messages message hheld.symm).symm
    · intro h
      refine ⟨?_, ?_, rfl, rfl⟩
      · intro message hheld
        exact (hmoved.mpr h message hheld.symm).symm
      · intro key hold hnew
        show (moved model.channels _ _ _)[key]? = _
        rw [getElem?_moved, if_neg hnew, if_neg hold]
        rfl

end RenameChannel

/-- **Which renames lose nothing**, of somebody and of a channel. -/
theorem renames_keep_iff (model : Model) (casemapping : Casemapping) (source dest : Str) :
    (RenameKeeps model (model.rename casemapping source dest) (casemapping.fold source)
        (casemapping.fold dest) ∧
      RenameChannelKeeps model (model.afterRenameChannel casemapping source dest)
        (casemapping.fold source) (casemapping.fold dest)) ↔
      model.RenameSpares (casemapping.fold source) (casemapping.fold dest) ∧
        model.RenameChannelSpares (casemapping.fold source) (casemapping.fold dest) :=
  and_congr (model.rename_keeps_iff casemapping source dest)
    (model.renameChannel_keeps_iff casemapping source dest)

/-- **Taking a nick somebody had before drops the conversation with them.** -/
theorem rename_displaces :
    let hello : ChatMessage := .new ⟨1, 0⟩ "b" .privmsg
    let query : Conversation := .new "b" 10
    let model := ((withRetention 10).setConversation ⟨"a"⟩ (.new "a" 10)).setConversation ⟨"b"⟩
      { query with log := (query.log.insert hello).1 }
    ¬ (RenameKeeps model (model.rename .ascii "a" "b") (Casemapping.ascii.fold "a")
          (Casemapping.ascii.fold "b") ∧
        RenameChannelKeeps model (model.afterRenameChannel .ascii "a" "b")
          (Casemapping.ascii.fold "a") (Casemapping.ascii.fold "b")) := by
  intro hello query model h
  have hbefore : model.Holds hello := by decide +kernel
  have hafter : ¬ (model.rename .ascii "a" "b").Holds hello := by decide +kernel
  exact hafter (h.1.messages hello hbefore)

end Model

end ObbyClient

import ObbyClient.Engine.Deeds
import ObbyClient.Engine.Renaming

/-!
# Names and the keys they are filed under

Everything the model holds is filed under its folded name, and so are the channel keys we keep for
rejoining.  How names are folded is the server's to say, and the server may say it again.

* `Model.Keyed` — everything stands under its own name, as it is folded now;
* `Client.ledger` — the channel keys that were given, with the names they were given for;
* `Client.run_keyed` — both stay in step, while every change of the fold spares the names in use.
-/

namespace ObbyClient

namespace Model

/-- True when everything stands under its own folded name. -/
structure Keyed (i : Isupport) (model : Model) : Prop where
  channels : ∀ key channel, model.channel key = some channel → i.fold channel.name = key
  conversations : ∀ key query, model.conversation key = some query → i.fold query.nick = key
  people : ∀ key person, model.person key = some person → i.fold person.nick = key

/-- True for the names that something is filed under. -/
inductive Uses (model : Model) : Str → Prop
  | channel {key : CaseFolded} {channel : Channel} (h : model.channel key = some channel) :
      Uses model channel.name
  | conversation {key : CaseFolded} {query : Conversation}
      (h : model.conversation key = some query) : Uses model query.nick
  | person {key : CaseFolded} {person : Person} (h : model.person key = some person) :
      Uses model person.nick

namespace Keyed

variable {i : Isupport} {before after : Model}

/-- A change of the fold that spares the names in use. -/
theorem refold (h : Keyed i before) {i' : Isupport}
    (hsame : ∀ name, Uses before name → i'.fold name = i.fold name) : Keyed i' before := by
  refine ⟨?_, ?_, ?_⟩
  · intro key channel hchannel
    rw [hsame _ (.channel hchannel)]
    exact h.channels key channel hchannel
  · intro key query hquery
    rw [hsame _ (.conversation hquery)]
    exact h.conversations key query hquery
  · intro key person hperson
    rw [hsame _ (.person hperson)]
    exact h.people key person hperson

theorem edit (h : Keyed i before) (hedit : Edit i before after) : Keyed i after := by
  refine ⟨?_, ?_, ?_⟩
  · intro key channel hchannel
    rcases hedit.channels key channel hchannel with ⟨old, hold, hname, -⟩ | ⟨hfold, -⟩
    · rw [hname]
      exact h.channels key old hold
    · exact hfold
  · intro key query hquery
    rcases hedit.conversations key query hquery with ⟨old, hold, hnick, -⟩ | ⟨hfold, -⟩
    · rw [hnick]
      exact h.conversations key old hold
    · exact hfold
  · intro key person hperson
    rcases hedit.people key person hperson with ⟨old, hold, hnick⟩ | hfold
    · rw [hnick]
      exact h.people key old hold
    · exact hfold

theorem setTyping (h : Keyed i before) (target who : CaseFolded) (typing : Bool) :
    Keyed i (before.setTyping target who typing).1 := by
  rcases before.setTyping_cases target who typing with
    ⟨-, -, hafter⟩ | ⟨old, hold, hafter⟩ | ⟨old, -, hold, hafter⟩
  · rw [hafter]
    exact h
  · rw [hafter]
    refine ⟨?_, h.conversations, h.people⟩
    intro key channel hchannel
    rcases Maps.getElem?_insert_eq_some.mp hchannel with ⟨rfl, rfl⟩ | ⟨-, hchannel⟩
    · exact h.channels key old hold
    · exact h.channels key channel hchannel
  · rw [hafter]
    refine ⟨h.channels, ?_, h.people⟩
    intro key query hquery
    rcases Maps.getElem?_insert_eq_some.mp hquery with ⟨rfl, rfl⟩ | ⟨-, hquery⟩
    · exact h.conversations key old hold
    · exact h.conversations key query hquery

/-- An entry that was moved, and the others where they were. -/
theorem of_moved {β : Type} {map : Std.ExtTreeMap CaseFolded β} {name : β → Str} {dest : Str}
    {old : CaseFolded} {value : β} (hvalue : name value = dest)
    (h : ∀ key value, map[key]? = some value → i.fold (name value) = key) (key : CaseFolded)
    (found : β) (hfound : (moved map old (i.fold dest) value)[key]? = some found) :
    i.fold (name found) = key := by
  rw [getElem?_moved] at hfound
  by_cases hnew : key = i.fold dest
  · rw [if_pos hnew] at hfound
    rw [← Option.some.inj hfound, hvalue, hnew]
  · rw [if_neg hnew] at hfound
    by_cases hold : key = old
    · rw [if_pos hold] at hfound
      cases hfound
    · rw [if_neg hold] at hfound
      exact h key found hfound

theorem rename (h : Keyed i before) (source dest : Str) :
    Keyed i (before.rename i.casemapping source dest) := by
  refine ⟨?_, ?_, ?_⟩
  · intro key channel hchannel
    rw [rename_channel] at hchannel
    obtain ⟨old, hold, rfl⟩ := Option.map_eq_some_iff.mp hchannel
    exact h.channels key old hold
  · intro key query hquery
    unfold conversation at hquery
    rcases before.rename_conversations_cases i.casemapping source dest with
      ⟨-, hafter⟩ | ⟨old, -, hafter⟩
    · rw [hafter] at hquery
      exact h.conversations key query hquery
    · rw [hafter] at hquery
      exact @of_moved i _ _ Conversation.nick dest _ _ rfl h.conversations key query hquery
  · intro key person hperson
    unfold Model.person at hperson
    rcases before.rename_people_cases i.casemapping source dest with
      ⟨-, hafter⟩ | ⟨old, -, hafter⟩
    · rw [hafter] at hperson
      exact h.people key person hperson
    · rw [hafter] at hperson
      exact @of_moved i _ _ Person.nick dest _ _ rfl h.people key person hperson

theorem renameChannel (h : Keyed i before) {source dest : Str}
    (hafter : before.renameChannel i.casemapping source dest = some after) : Keyed i after := by
  unfold Model.renameChannel at hafter
  obtain ⟨channel, -, rfl⟩ := Option.map_eq_some_iff.mp hafter
  refine ⟨?_, h.conversations, h.people⟩
  intro key found hfound
  exact @of_moved i _ _ Channel.name dest _ _ rfl h.channels key found hfound

end Keyed

end Model

namespace Session

open Model

/-- **Whatever line is folded**, everything stays under its own name. -/
theorem apply_keyed [Primitives] (ctx : Context) (line : Message)
    (h : Keyed ctx.isupport ctx.model) : Keyed ctx.isupport (apply ctx line).1.model := by
  by_cases hnick : toAsciiUppercase line.command = "NICK"
  · rw [apply_nick ctx line hnick]
    cases line.param 0 with
    | none => exact h
    | some dest => exact h.rename _ _
  · by_cases hrename : toAsciiUppercase line.command = "RENAME"
    · rcases apply_rename ctx line hrename with ⟨hsame, -⟩ | ⟨source, dest, model, -, -, hafter,
        hsame⟩
      · rw [hsame]
        exact h
      · rw [hsame]
        exact h.renameChannel hafter
    · exact h.edit (apply_edit ctx line hnick hrename).model

end Session

namespace Client

open Model Session

/-! ### The keys that were given -/

/-- The names that keys were given for, after a channel was renamed. -/
def ledgerRename (i : Isupport) (source dest : Str) (names : List (Str × Str)) :
    List (Str × Str) :=
  let kept := names.filter fun p => i.fold p.1 = i.fold source
  if kept = [] then names
  else
    kept.map (fun p => (dest, p.2)) ++
      names.filter fun p => i.fold p.1 ≠ i.fold source ∧ i.fold p.1 ≠ i.fold dest

/-- The names that keys were given for, after a line was folded. -/
def ledgerLine (names : List (Str × Str)) (p : Client × Message) : List (Str × Str) :=
  if toAsciiUppercase p.2.command = "RENAME" then
    match p.2.param 0, p.2.param 1 with
    | some source, some dest =>
        if (p.1.model.channel (p.1.isupport.fold source)).isSome then
          ledgerRename p.1.isupport source dest names
        else names
    | _, _ => names
  else names

/-- The names that keys were given for, after a channel was asked for. -/
def ledgerJoin (i : Isupport) (channel : Str) (key : Option Str) (names : List (Str × Str)) :
    List (Str × Str) :=
  (key.map fun key => (channel, key)).toList ++
    names.filter fun p => i.fold p.1 ≠ i.fold channel

variable [Primitives]

/-- The names that keys were given for, after one deed. -/
def ledgerDeed (names : List (Str × Str)) : Deed → List (Str × Str)
  | .line c message => ((c.noted message).delivered message).foldl ledgerLine names
  | .host c (.command (.join channel key)) => ledgerJoin c.isupport channel key names
  | .host _ _ => names

/-- The channel keys that were given and not taken back, each with the name it was given for, or the
name that channel has by now. -/
def ledger (deeds : List Deed) : List (Str × Str) := deeds.foldl ledgerDeed []

/-- True when a map holds these keys, each under its folded name, and no others. -/
def Holding (i : Isupport) (names : List (Str × Str)) (keys : Std.ExtTreeMap CaseFolded Str) :
    Prop :=
  ∀ folded key, keys[folded]? = some key ↔ ∃ name, (name, key) ∈ names ∧ i.fold name = folded

omit [Primitives] in
theorem Holding.refold {i i' : Isupport} {names : List (Str × Str)}
    {keys : Std.ExtTreeMap CaseFolded Str} (h : Holding i names keys)
    (hsame : ∀ p ∈ names, i'.fold p.1 = i.fold p.1) : Holding i' names keys := by
  intro folded key
  rw [h folded key]
  constructor
  · intro hname
    obtain ⟨name, hmem, hfold⟩ := hname
    exact ⟨name, hmem, (hsame _ hmem).trans hfold⟩
  · intro hname
    obtain ⟨name, hmem, hfold⟩ := hname
    exact ⟨name, hmem, (hsame _ hmem).symm.trans hfold⟩

omit [Primitives] in
/-- A key that is given replaces the one that was given for the same channel. -/
theorem Holding.join {c : Client} {names : List (Str × Str)}
    (h : Holding c.isupport names c.channelKeys) (channel : Str) (key : Option Str) :
    Holding c.isupport (ledgerJoin c.isupport channel key names) (c.joinKeys channel key) := by
  intro folded value
  unfold ledgerJoin joinKeys
  cases key with
  | some key =>
      rw [Maps.getElem?_insert_eq_some, h folded value]
      simp only [Option.map_some, Option.toList_some, List.cons_append, List.nil_append,
        List.mem_cons, List.mem_filter, Prod.mk.injEq]
      constructor
      · rintro (⟨rfl, rfl⟩ | ⟨hne, name, hmem, hfold⟩)
        · exact ⟨channel, .inl ⟨rfl, rfl⟩, rfl⟩
        · refine ⟨name, .inr ⟨hmem, ?_⟩, hfold⟩
          rw [hfold]
          simpa using hne
      · rintro ⟨name, ⟨rfl, rfl⟩ | ⟨hmem, hne⟩, hfold⟩
        · exact .inl ⟨hfold.symm, rfl⟩
        · right
          rw [hfold] at hne
          exact ⟨by simpa using hne, name, hmem, hfold⟩
  | none =>
      rw [Maps.getElem?_erase_eq_some, h folded value]
      simp only [Option.map_none, Option.toList_none, List.nil_append, List.mem_filter]
      constructor
      · rintro ⟨hne, name, hmem, hfold⟩
        refine ⟨name, ⟨hmem, ?_⟩, hfold⟩
        rw [hfold]
        simpa using hne
      · rintro ⟨name, ⟨hmem, hne⟩, hfold⟩
        rw [hfold] at hne
        exact ⟨by simpa using hne, name, hmem, hfold⟩

omit [Primitives] in
/-- A renamed channel takes its key along. -/
theorem Holding.rename {i : Isupport} {names : List (Str × Str)}
    {keys : Std.ExtTreeMap CaseFolded Str} (h : Holding i names keys) (source dest : Str) :
    Holding i (ledgerRename i source dest names) (moveKept keys (i.fold source) (i.fold dest)) := by
  have hmem : ∀ p, p ∈ names.filter (fun p => i.fold p.1 = i.fold source) ↔
      p ∈ names ∧ i.fold p.1 = i.fold source := by
    intro p
    rw [List.mem_filter, decide_eq_true_eq]
  unfold ledgerRename moveKept
  dsimp only
  cases hkey : keys[i.fold source]? with
  | none =>
      rw [if_pos ?_]
      · exact h
      · rw [List.eq_nil_iff_forall_not_mem]
        intro p hp
        obtain ⟨hp, hfold⟩ := (hmem p).mp hp
        have hfound := (h (i.fold source) p.2).mpr ⟨p.1, hp, hfold⟩
        rw [hkey] at hfound
        cases hfound
  | some key =>
      obtain ⟨name, hname, hfold⟩ := (h (i.fold source) key).mp hkey
      rw [if_neg (List.ne_nil_of_mem ((hmem (name, key)).mpr ⟨hname, hfold⟩))]
      intro folded value
      dsimp only
      rw [Maps.getElem?_insert_eq_some, Maps.getElem?_erase_eq_some, h folded value]
      simp only [List.mem_append, List.mem_map, List.mem_filter, decide_eq_true_eq]
      constructor
      · intro hvalue
        rcases hvalue with ⟨rfl, rfl⟩ | ⟨hdest, hsource, other, hother, rfl⟩
        · exact ⟨dest, .inl ⟨(name, key), ⟨hname, hfold⟩, rfl⟩, rfl⟩
        · exact ⟨other, .inr ⟨hother, hsource, hdest⟩, rfl⟩
      · intro hvalue
        obtain ⟨other, hother, rfl⟩ := hvalue
        rcases hother with ⟨p, ⟨hp, hpfold⟩, heq⟩ | ⟨hother, hsource, hdest⟩
        · obtain ⟨rfl, rfl⟩ := Prod.mk.inj heq
          have hfound := (h (i.fold source) p.2).mpr ⟨p.1, hp, hpfold⟩
          rw [hkey] at hfound
          exact .inl ⟨rfl, Option.some.inj hfound⟩
        · exact .inr ⟨hdest, hsource, other, hother, rfl⟩

omit [Primitives] in
theorem keptAfter_of_not_renamed {ν : Type} {i : Isupport} {changes : List Change}
    {kept : Std.ExtTreeMap CaseFolded ν}
    (h : ∀ source dest, Change.channelRenamed source dest ∉ changes) :
    keptAfter i changes kept = kept := by
  unfold keptAfter
  induction changes with
  | nil => rfl
  | cons change changes ih =>
      rw [List.foldl_cons]
      have hrest := ih fun source dest hmem => h source dest (List.mem_cons_of_mem _ hmem)
      cases change with
      | channelRenamed source dest => exact absurd List.mem_cons_self (h source dest)
      | _ => exact hrest

/-- One line that is folded. -/
theorem fold_holding {c : Client} {names : List (Str × Str)}
    (h : Holding c.isupport names c.channelKeys) (line : Message) (historical : Bool) :
    Holding c.isupport (ledgerLine names (c, line)) (c.fold line historical).channelKeys := by
  rw [fold_eq]
  unfold ledgerLine
  dsimp only
  by_cases hrename : toAsciiUppercase line.command = "RENAME"
  · rw [if_pos hrename]
    rcases apply_rename (c.context historical) line hrename with
      ⟨hsame, hout⟩ | ⟨source, dest, model, hsource, hdest, hmodel, hsame⟩
    · rw [hsame]
      split
      · rename_i source dest hsource hdest
        have hnone : c.model.channel (c.isupport.fold source) = none :=
          hout source dest hsource hdest
        rw [hnone, if_neg (by simp)]
        exact h
      · exact h
    · have hin : (c.model.channel (c.isupport.fold source)).isSome = true := by
        unfold Model.renameChannel at hmodel
        obtain ⟨channel, hchannel, -⟩ := Option.map_eq_some_iff.mp hmodel
        exact Option.isSome_iff_exists.mpr ⟨channel, hchannel⟩
      rw [hsame, hsource, hdest]
      dsimp only
      rw [if_pos hin]
      exact h.rename source dest
  · rw [if_neg hrename, keptAfter_of_not_renamed
      (apply_changes (c.context historical) line hrename)]
    exact h

/-! ### What a run keeps -/

/-- A `005` under which every name in use is folded as before. -/
def SparesNames (seen : List Deed) : Deed → Prop
  | .line c message => message.is "005" = true → ∀ name,
      (Uses c.model name ∨ ∃ key, (name, key) ∈ ledger seen) →
        ((isupportTokens message).foldl (fun i token => (i.apply token).1) c.isupport).fold name =
          c.isupport.fold name
  | .host _ _ => True

omit [Primitives] in
/-- True for a `005` that changes the casemapping. -/
def Deed.recasts : Deed → Bool
  | .line c message => message.is "005" &&
      ((isupportTokens message).foldl (fun i token => (i.apply token).1) c.isupport).casemapping !=
        c.isupport.casemapping
  | .host _ _ => false

omit [Primitives] in
/-- A `005` that leaves the casemapping alone folds every name as before. -/
theorem fold_eq_of_recasts {c : Client} {message : Message}
    (h : Deed.recasts (.line c message) = false)
    (hline : message.is "005" = true) (name : Str) :
    ((isupportTokens message).foldl (fun i token => (i.apply token).1) c.isupport).fold name =
      c.isupport.fold name := by
  have hcast : (message.is "005" &&
      ((isupportTokens message).foldl (fun i token => (i.apply token).1) c.isupport).casemapping !=
        c.isupport.casemapping) = false := h
  rw [hline, Bool.true_and, bne_eq_false_iff_eq] at hcast
  unfold Isupport.fold
  rw [hcast]

theorem sparesNames_of_recasts (seen : List Deed) {deed : Deed} (h : deed.recasts = false) :
    SparesNames seen deed := by
  cases deed with
  | host c input => trivial
  | line c message => exact fun hline name _ => fold_eq_of_recasts h hline name

theorem along_sparesNames {deeds : List Deed} (h : deeds.any Deed.recasts = false) :
    Along SparesNames deeds := by
  intro before deed after hdeeds
  refine sparesNames_of_recasts before ?_
  rw [List.any_eq_false] at h
  rw [← Bool.not_eq_true]
  refine h deed ?_
  rw [hdeeds]
  exact List.mem_append_right _ List.mem_cons_self

/-- Everything under its own name: what the model holds, and the keys that were given. -/
structure InStep (names : List (Str × Str)) (b : Bearing) : Prop where
  model : Keyed b.isupport b.model
  keys : Holding b.isupport names b.channelKeys

theorem InStep.fold {names : List (Str × Str)} {c : Client} (h : InStep names c.bearing)
    (line : Message) (historical : Bool) :
    InStep (ledgerLine names (c, line)) (c.fold line historical).bearing := by
  have hkeys := fold_holding h.keys line historical
  have hmodel := apply_keyed (c.context historical) line h.model
  rw [fold_eq] at hkeys ⊢
  exact ⟨hmodel, hkeys⟩

theorem ledger_append (seen : List Deed) (deed : Deed) :
    ledger (seen ++ [deed]) = ledgerDeed (ledger seen) deed := by
  unfold ledger
  rw [List.foldl_append]
  rfl

/-- **One line** keeps everything under its own name. -/
theorem handleMessage_inStep {seen : List Deed} {c : Client} {message : Message}
    (hspares : SparesNames seen (.line c message)) (h : InStep (ledger seen) c.bearing) :
    InStep (ledger (seen ++ [.line c message])) (c.handleMessage message).bearing := by
  have hblind : ∀ names, Blind (InStep names) := fun _ _ _ _ _ hb => ⟨hb.model, hb.keys⟩
  rw [ledger_append]
  show InStep (((c.noted message).delivered message).foldl ledgerLine (ledger seen)) _
  by_cases hclaims : claims message = true
  · rw [delivered_of_claims _ hclaims]
    refine handleMessage_keeps_bearing (hblind _) c message ?_ ?_ ?_ ?_ h
    · intro b nick hb
      exact ⟨⟨hb.model.channels, hb.model.conversations, hb.model.people⟩, hb.keys⟩
    · intro hline hb
      rw [handleIsupport_bearing]
      refine ⟨hb.model.refold ?_, hb.keys.refold ?_⟩
      · intro name hname
        exact hspares hline name (.inl hname)
      · intro p hp
        exact hspares hline p.1 (.inr ⟨p.2, hp⟩)
    · intro d _ hd hb
      obtain ⟨_, _, _, -, -, -, hd⟩ := handleTyping_bearing hd
      rw [hd]
      exact ⟨hb.model.setTyping _ _ _, hb.keys⟩
    · intro p historical hp
      rw [delivered_of_claims _ hclaims] at hp
      exact absurd hp List.not_mem_nil
  · rw [Bool.not_eq_true] at hclaims
    have hnoted := noted_keeps_bearing (hblind (ledger seen)) c message h
    rw [handleMessage_eq]
    refine dispatch_delivers (Q := fun done d =>
      InStep (done.foldl ledgerLine (ledger seen)) d.bearing)
      (c.noted message) hclaims ?_ ?_
    · intro batches
      exact ⟨hnoted.model, hnoted.keys⟩
    · intro done p historical _ hb
      rw [List.foldl_append]
      exact hb.fold p.2 historical

/-- **One input of the host** keeps everything under its own name. -/
theorem step_inStep {seen : List Deed} {c : Client} {input : Input}
    (hbytes : ∀ data, input ≠ .bytes data) (h : InStep (ledger seen) c.bearing) :
    InStep (ledger (seen ++ [.host c input])) (c.step input).bearing := by
  rw [ledger_append]
  by_cases hjoin : ∃ channel key, input = .command (.join channel key)
  · obtain ⟨channel, key, rfl⟩ := hjoin
    have hbearing : (c.command (.join channel key)).bearing =
        { c.bearing with channelKeys := c.joinKeys channel key } := sendLineLabeled_bearing _ _
    show InStep (ledgerJoin c.isupport channel key (ledger seen))
      (c.command (.join channel key)).bearing
    rw [hbearing]
    exact ⟨h.model, Holding.join h.keys channel key⟩
  · have hledger : ledgerDeed (ledger seen) (.host c input) = ledger seen := by
      unfold ledgerDeed
      split
      · rename_i heq
        cases heq
      · rename_i channel key heq
        cases heq
        exact absurd ⟨channel, key, rfl⟩ hjoin
      · rfl
    rw [hledger]
    refine step_keeps_bearing (P := InStep (ledger seen)) (fun _ _ _ _ hb => ⟨hb.model, hb.keys⟩) c
      hbytes ?_ ?_ ?_ ?_ h
    · intro _ b hb
      have hwhois : Keyed b.isupport b.model.forgetWhois :=
        ⟨hb.model.channels, hb.model.conversations, hb.model.people⟩
      exact ⟨hwhois.edit (Edit.forgetMembers _), hb.keys⟩
    · intro now _ hb
      have hmodel := tick_keeps (P := Keyed c.isupport) (fun _ _ _ hm => hm.setTyping _ _ _) c now
        hb.model
      rw [tick_bearing] at hmodel ⊢
      exact ⟨hmodel, hb.keys⟩
    · intro channel key heq
      exact absurd ⟨channel, key, heq⟩ hjoin
    · intro line hline hb
      have hfold := hb.fold { line with source := some ⟨c.nick, none, none⟩ } false
      have hnot : toAsciiUppercase line.command ≠ "RENAME" := by
        rcases hline with hline | hline
        · rw [hline]
          decide
        · rw [hline]
          decide
      unfold ledgerLine at hfold
      rw [if_neg hnot] at hfold
      exact hfold

/-- **What a run keeps**, in which no `005` folds a name in use otherwise than before. -/
theorem run_inStep (config : Config) (inputs : List Input)
    (h : Along SparesNames ((new config).deeds inputs)) :
    InStep (ledger ((new config).deeds inputs)) ((new config).run inputs).bearing := by
  refine run_along (P := fun seen c => InStep (ledger seen) c.bearing)
    (fun _ _ _ _ _ hc => hc) (fun seen c message hspares hc => handleMessage_inStep hspares hc)
    (fun seen c input hbytes _ hc => step_inStep hbytes hc) (c := new config) ?_ inputs h
  refine ⟨⟨?_, ?_, ?_⟩, ?_⟩
  · intro key channel hchannel
    exact absurd hchannel (by simp [new, bearing, Model.channel, Model.withRetention])
  · intro key query hquery
    exact absurd hquery (by simp [new, bearing, Model.conversation, Model.withRetention])
  · intro key person hperson
    exact absurd hperson (by simp [new, bearing, Model.person, Model.withRetention])
  · intro folded key
    simp [new, bearing, ledger]

/-- **Everything stands under its own folded name**, in every run in which no `005` folds a name in
use otherwise than before. -/
theorem run_keyed (config : Config) (inputs : List Input)
    (h : Along SparesNames ((new config).deeds inputs)) :
    Keyed ((new config).run inputs).isupport ((new config).run inputs).model ∧
      ∀ name key, (name, key) ∈ ledger ((new config).deeds inputs) →
        ((new config).run inputs).channelKeys[((new config).run inputs).isupport.fold name]? =
          some key := by
  have hrun := run_inStep config inputs h
  refine ⟨hrun.model, ?_⟩
  intro name key hmem
  exact (hrun.keys _ key).mpr ⟨name, hmem, rfl⟩

omit [Primitives] in
/-- A run with a `005` that says nothing about the casemapping. -/
theorem run_keyed_same_casemapping : letI := Primitives.ascii
    let inputs := [Input.connected, .command (.join "#a" (some "k")), .bytes (Utf8.encode
      ":s 001 me :hi\n:me!u@h JOIN #A\n:s 005 me NICKLEN=30 :are supported\n")]
    let c := (new (.new "me")).run inputs
    Keyed c.isupport c.model ∧ ∀ name key, (name, key) ∈ ledger ((new (.new "me")).deeds inputs) →
      c.channelKeys[c.isupport.fold name]? = some key := by
  let _ := Primitives.ascii
  intro inputs c
  exact run_keyed (.new "me") inputs (along_sparesNames (by decide +kernel))

omit [Primitives] in
/-- **A change of the casemapping leaves what is there behind.** -/
theorem keyed_left_behind : letI := Primitives.ascii
    let c := (new (.new "me")).run [.connected, .bytes (Utf8.encode
      ":s 001 me :hi\n:me!u@h JOIN #a[\n:s 005 me CASEMAPPING=ascii :are supported\n")]
    c.Reachable ∧ ¬ Keyed c.isupport c.model := by
  let _ := Primitives.ascii
  intro c
  refine ⟨⟨_, _, rfl⟩, ?_⟩
  intro h
  have hname : (c.model.channel ⟨"#a\x7b"⟩).map Channel.name = some "#a[" := by decide +kernel
  obtain ⟨channel, hchannel, hname⟩ := Option.map_eq_some_iff.mp hname
  have hfold := h.channels _ channel hchannel
  rw [hname] at hfold
  exact absurd hfold (by decide +kernel)

end Client

end ObbyClient

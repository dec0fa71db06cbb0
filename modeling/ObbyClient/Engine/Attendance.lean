import ObbyClient.Engine.Voice

/-!
# Who is in a voice room

A room keeps a participant until the server says that they left.  The list that admits us to a room
names everybody in it, and so says of everybody else that they are not; the room does not take it
so.

* `Voice.Signal.attended` — who is in a room after a frame, as the server has it;
* `Voice.Room.attending` — who is in it, as the room has it;
* `Voice.Room.attending_eq_iff` — when the two agree after any frames.
-/

namespace ObbyClient.Voice

/-! ### As the server has it -/

namespace Signal

/-- True for the frame that admits us to a room. -/
def admits : Signal → Bool
  | joined .. => true
  | _ => false

/-- True for a frame that says who is in a room. -/
def tellsMembers : Signal → Bool
  | joined .. => true
  | presence .. => true
  | _ => false

/-- Who is in a room after a frame, given who was in it before. -/
def attended (casemap : Casemapping) (present : Set CaseFolded) : Signal → Set CaseFolded
  | joined members _ _ _ _ _ => {key | ∃ member ∈ members, casemap.fold member = key}
  | presence member .joined _ _ => insert (casemap.fold member) present
  | presence member .left _ _ => present \ {casemap.fold member}
  | _ => present

/-- A frame that says of somebody whether they are in the room, by naming them. -/
def Settles (casemap : Casemapping) (key : CaseFolded) : Signal → Prop
  | joined members _ _ _ _ _ => ∃ member ∈ members, casemap.fold member = key
  | presence member .joined _ _ => key = casemap.fold member
  | presence member .left _ _ => key = casemap.fold member
  | _ => False

end Signal

/-- Who is in a room after frames, given who was in it before. -/
def attendedAfter (casemap : Casemapping) (present : Set CaseFolded)
    (frames : List (Str × Signal)) :
    Set CaseFolded :=
  frames.foldl (fun present frame => frame.2.attended casemap present) present

namespace Room

/-! ### As the room has it -/

/-- Who is in a room. -/
def attending (room : Room) : Set CaseFolded := {key | key ∈ room.participants}

/-- A room after frames, each with our nick at the time. -/
def applyAll (room : Room) (casemap : Casemapping) (frames : List (Str × Signal)) : Room :=
  frames.foldl (fun room frame => room.apply frame.1 frame.2 casemap) room

theorem attending_setRole (room : Room) (member : Str) (casemap : Casemapping) (role : Role) :
    (room.setRole member casemap role).attending = insert (casemap.fold member) room.attending := by
  ext key
  unfold attending setRole
  dsimp only
  rw [Set.mem_ofPred_eq, Std.ExtTreeMap.mem_insert, Std.LawfulEqCmp.compare_eq_iff_eq,
    Set.mem_insert_iff, Set.mem_ofPred_eq, eq_comm]

theorem attending_modifyParticipant (room : Room) (member : Str) (casemap : Casemapping)
    (f : Participant → Participant) : (room.modifyParticipant member casemap f).attending =
      room.attending := by
  ext key
  exact Std.ExtTreeMap.mem_modify

theorem attending_applyJoined (room : Room) (me : Str) (members : List Str) (role : Option Role)
    (streamers : Option (List Str)) (turn : Option TurnCredentials) (casemap : Casemapping) :
    (room.applyJoined me members role streamers turn casemap).attending =
      {key | ∃ member ∈ members, casemap.fold member = key} ∪ room.attending := by
  have hfold : ∀ (assigned : Room → Str → Role) (members : List Str) (room : Room),
      (members.foldl (fun room member => room.setRole member casemap (assigned room member))
        room).attending = {key | ∃ member ∈ members, casemap.fold member = key} ∪
          room.attending := by
    intro assigned members
    induction members with
    | nil =>
        intro room
        ext key
        simp
    | cons member members ih =>
        intro room
        rw [List.foldl_cons, ih, attending_setRole]
        ext key
        simp only [Set.mem_union, Set.mem_ofPred_eq, Set.mem_insert_iff, List.mem_cons,
          exists_eq_or_imp, eq_comm (a := key)]
        exact or_left_comm.trans or_assoc.symm
  exact hfold (fun room member => _) members { room with turn := turn }

/-- **One frame.**  The room has everybody the server has, and keeps, when it is admitted, those it
had before. -/
theorem attending_apply (room : Room) (me : Str) {signal : Signal} (casemap : Casemapping)
    (h : signal.tellsMembers = true) :
    (room.apply me signal casemap).attending =
      if signal.admits = true then signal.attended casemap room.attending ∪ room.attending
      else signal.attended casemap room.attending := by
  cases signal with
  | joined members mode role streamers turn tracks => exact attending_applyJoined _ _ _ _ _ _ _
  | presence member state kind role =>
      show (room.applyPresence member state kind role casemap).attending = _
      cases state with
      | joined => exact attending_setRole _ _ _ _
      | left =>
          ext key
          show key ∈ room.participants.erase (casemap.fold member) ↔ key ∈ room.attending \ _
          rw [Std.ExtTreeMap.mem_erase, ne_eq, Std.LawfulEqCmp.compare_eq_iff_eq, Set.mem_sdiff,
            Set.mem_singleton_iff, and_comm, eq_comm (a := key)]
          rfl
      | on =>
          cases kind with
          | none => rfl
          | some kind => exact attending_modifyParticipant _ _ _ _
      | off =>
          cases kind with
          | none => rfl
          | some kind => exact attending_modifyParticipant _ _ _ _
      | speaking => exact attending_modifyParticipant _ _ _ _
      | silent => exact attending_modifyParticipant _ _ _ _
      | deafOn => exact attending_modifyParticipant _ _ _ _
      | deafOff => exact attending_modifyParticipant _ _ _ _
  | _ => cases h

/-! ### Whom a frame names -/

/-- Of somebody it names, a frame says whether they are in the room, whatever was said before. -/
theorem mem_attended_of_settles {casemap : Casemapping} {key : CaseFolded} {signal : Signal}
    (h : signal.Settles casemap key) (present : Set CaseFolded) :
    (key ∈ signal.attended casemap present ∧ ∀ other, key ∈ signal.attended casemap other) ∨
      (key ∉ signal.attended casemap present ∧ (∀ other, key ∉ signal.attended casemap other) ∧
        signal.admits = false) := by
  cases signal with
  | joined members mode role streamers turn tracks => exact .inl ⟨h, fun _ => h⟩
  | presence member state kind role =>
      cases state with
      | joined => exact .inl ⟨.inl h, fun _ => .inl h⟩
      | left => exact .inr ⟨fun hmem => hmem.2 h, fun _ hmem => hmem.2 h, rfl⟩
      | _ => exact h.elim
  | _ => exact h.elim

/-- Of everybody else a frame says nothing, unless it admits us: then they are not in the room. -/
theorem mem_attended_of_not_settles {casemap : Casemapping} {key : CaseFolded} {signal : Signal}
    (h : ¬signal.Settles casemap key) (present : Set CaseFolded) :
    key ∈ signal.attended casemap present ↔ key ∈ present ∧ signal.admits = false := by
  cases signal with
  | joined members mode role streamers turn tracks =>
      exact iff_of_false h fun hmem => Bool.false_ne_true hmem.2.symm
  | presence member state kind role =>
      cases state with
      | joined =>
          refine Iff.trans ⟨fun hmem => hmem.resolve_left h, .inr⟩ ?_
          exact (and_iff_left rfl).symm
      | left =>
          refine Iff.trans ⟨And.left, fun hmem => ⟨hmem, h⟩⟩ ?_
          exact (and_iff_left rfl).symm
      | _ => exact (and_iff_left rfl).symm
  | _ => exact (and_iff_left rfl).symm

/-! ### Any frames -/

/-- Somebody who was in the room when a frame admitted us to it without naming them, and whom
nothing has named since. -/
def LeftOut (casemap : Casemapping) (present : Set CaseFolded) (frames : List (Str × Signal))
    (key : CaseFolded) : Prop :=
  ∃ before frame after, frames = before ++ frame :: after ∧ frame.2.admits = true ∧
    key ∈ attendedAfter casemap present before ∧
    ∀ later ∈ frame :: after, ¬later.2.Settles casemap key

/-- Whom nothing names, the server has only if it had them and nothing admitted us. -/
theorem of_mem_attendedAfter {casemap : Casemapping} {key : CaseFolded}
    {frames : List (Str × Signal)} (h : ∀ frame ∈ frames, ¬frame.2.Settles casemap key)
    {present : Set CaseFolded} (hmem : key ∈ attendedAfter casemap present frames) :
    key ∈ present ∧ ∀ frame ∈ frames, frame.2.admits = false := by
  induction frames generalizing present with
  | nil => exact ⟨hmem, fun frame hframe => absurd hframe List.not_mem_nil⟩
  | cons frame frames ih =>
      obtain ⟨hkey, hrest⟩ := ih (fun later hlater => h later (List.mem_cons_of_mem _ hlater)) hmem
      obtain ⟨hkey, hadmits⟩ :=
        (mem_attended_of_not_settles (h frame List.mem_cons_self) present).mp hkey
      refine ⟨hkey, ?_⟩
      intro later hlater
      rcases List.mem_cons.mp hlater with rfl | hlater
      · exact hadmits
      · exact hrest later hlater

/-- Whom a frame left out, the server has not. -/
theorem LeftOut.not_attended {casemap : Casemapping} {present : Set CaseFolded}
    {frames : List (Str × Signal)} {key : CaseFolded} (h : LeftOut casemap present frames key) :
    key ∉ attendedAfter casemap present frames := by
  obtain ⟨before, frame, after, rfl, hadmits, -, hlater⟩ := h
  intro hmem
  unfold attendedAfter at hmem
  rw [List.foldl_append] at hmem
  obtain ⟨-, hnone⟩ := of_mem_attendedAfter hlater hmem
  rw [hnone frame List.mem_cons_self] at hadmits
  cases hadmits

theorem leftOut_append {casemap : Casemapping} {present : Set CaseFolded}
    {frames : List (Str × Signal)} {last : Str × Signal} {key : CaseFolded} :
    LeftOut casemap present (frames ++ [last]) key ↔ ¬last.2.Settles casemap key ∧
      (LeftOut casemap present frames key ∨
        (last.2.admits = true ∧ key ∈ attendedAfter casemap present frames)) := by
  constructor
  · intro h
    obtain ⟨before, frame, after, hsplit, hadmits, hkey, hlater⟩ := h
    rcases List.eq_nil_or_concat after with rfl | ⟨rest, final, rfl⟩
    · obtain ⟨rfl, hlast⟩ := List.append_inj' hsplit rfl
      obtain rfl := List.singleton_inj.mp hlast
      exact ⟨hlater last List.mem_cons_self, .inr ⟨hadmits, hkey⟩⟩
    · rw [List.concat_eq_append, ← List.cons_append, ← List.append_assoc] at hsplit
      obtain ⟨rfl, hlast⟩ := List.append_inj' hsplit rfl
      obtain rfl := List.singleton_inj.mp hlast
      rw [List.concat_eq_append, ← List.cons_append] at hlater
      exact ⟨hlater last (List.mem_append_right _ List.mem_cons_self),
        .inl ⟨before, frame, rest, rfl, hadmits, hkey,
          fun later hmem => hlater later (List.mem_append_left _ hmem)⟩⟩
  · intro h
    obtain ⟨hlast, ⟨before, frame, after, rfl, hadmits, hkey, hlater⟩ | ⟨hadmits, hkey⟩⟩ := h
    · refine ⟨before, frame, after ++ [last], by rw [List.append_assoc]; rfl, hadmits, hkey, ?_⟩
      intro later hmem
      rw [← List.cons_append] at hmem
      rcases List.mem_append.mp hmem with hmem | hmem
      · exact hlater later hmem
      · rw [List.mem_singleton.mp hmem]
        exact hlast
    · refine ⟨frames, last, [], rfl, hadmits, hkey, ?_⟩
      intro later hmem
      rw [List.mem_singleton.mp hmem]
      exact hlast

/-- **Any frames.**  The room has those whom the server has, and those who were left out. -/
theorem mem_attending_applyAll (room : Room) (casemap : Casemapping) (frames : List (Str × Signal))
    (h : ∀ frame ∈ frames, frame.2.tellsMembers = true) (key : CaseFolded) :
    key ∈ (room.applyAll casemap frames).attending ↔
      key ∈ attendedAfter casemap room.attending frames ∨
        LeftOut casemap room.attending frames key := by
  induction frames using List.reverseRecOn with
  | nil =>
      refine ⟨.inl, fun hmem => hmem.elim id ?_⟩
      rintro ⟨before, frame, after, hsplit, -⟩
      exact absurd hsplit (by simp)
  | append_singleton frames last ih =>
      have ih := ih fun frame hframe => h frame (List.mem_append_left _ hframe)
      have hlast := h last (List.mem_append_right _ List.mem_cons_self)
      have hroom : room.applyAll casemap (frames ++ [last]) =
          (room.applyAll casemap frames).apply last.1 last.2 casemap := by
        unfold applyAll
        rw [List.foldl_append]
        rfl
      have hpresent : attendedAfter casemap room.attending (frames ++ [last]) =
          last.2.attended casemap (attendedAfter casemap room.attending frames) := by
        unfold attendedAfter
        rw [List.foldl_append]
        rfl
      rw [hroom, attending_apply _ _ _ hlast, hpresent, leftOut_append]
      by_cases hsettles : last.2.Settles casemap key
      · rcases mem_attended_of_settles hsettles (room.applyAll casemap frames).attending with
          ⟨hmem, hall⟩ | ⟨hmem, hall, hadmits⟩
        · refine iff_of_true ?_ (.inl (hall _))
          split
          · exact .inl hmem
          · exact hmem
        · rw [hadmits, if_neg Bool.false_ne_true]
          exact iff_of_false hmem fun hor => hor.elim (hall _) fun hleft => hleft.1 hsettles
      · have hroomSays := mem_attended_of_not_settles hsettles
          (room.applyAll casemap frames).attending
        have hserverSays :=
          mem_attended_of_not_settles hsettles (attendedAfter casemap room.attending frames)
        cases hadmits : last.2.admits with
        | true =>
            rw [if_pos rfl, Set.mem_union, hroomSays, hserverSays, hadmits, ih]
            simp [hsettles, or_comm]
        | false =>
            rw [if_neg Bool.false_ne_true, hroomSays, hserverSays, hadmits, ih]
            simp [hsettles]

/-- **Who is in a room.**  After any frames that say who is in it, a room has those whom the server
has, exactly when nobody was left out. -/
theorem attending_eq_iff (room : Room) (casemap : Casemapping) (frames : List (Str × Signal))
    (h : ∀ frame ∈ frames, frame.2.tellsMembers = true) :
    (room.applyAll casemap frames).attending = attendedAfter casemap room.attending frames ↔
      ∀ key, ¬LeftOut casemap room.attending frames key := by
  have hall := room.mem_attending_applyAll casemap frames h
  constructor
  · intro heq key hleft
    refine hleft.not_attended ?_
    rw [← heq]
    exact (hall key).mpr (.inr hleft)
  · intro hnone
    ext key
    rw [hall]
    exact or_iff_left (hnone key)

/-- Bob is there under either spelling of his nick. -/
theorem attending_eq_readmitted :
    ((Room.new "^talk").applyAll .rfc1459
        [("me", .joined ["me", "Bob"] none none none none none),
          ("me", .joined ["bob", "me"] none none none none none)]).attending =
      attendedAfter .rfc1459 (Room.new "^talk").attending
        [("me", .joined ["me", "Bob"] none none none none none),
          ("me", .joined ["bob", "me"] none none none none none)] := by
  refine (attending_eq_iff _ _ _ (by decide)).mpr ?_
  intro key hleft
  obtain ⟨hlast, hfirst | ⟨-, member, hmember, rfl⟩⟩ :=
    leftOut_append.mp (show LeftOut _ _ ([_] ++ [_]) key from hleft)
  · obtain ⟨-, hnobody | hnew⟩ := leftOut_append.mp (show LeftOut _ _ ([] ++ [_]) key from hfirst)
    · obtain ⟨before, frame, after, hsplit, -⟩ := hnobody
      exact absurd hsplit (by simp)
    · exact Std.ExtTreeMap.not_mem_empty hnew.2
  · refine hlast ?_
    rcases List.mem_cons.mp hmember with rfl | hmember
    · exact ⟨_, List.mem_cons_of_mem _ List.mem_cons_self, rfl⟩
    · rw [List.mem_singleton.mp hmember]
      exact ⟨_, List.mem_cons_self, by decide⟩

/-- **Somebody who left while we were away stays in the room.** -/
theorem absentee_kept :
    let frames : List (Str × Signal) := [("me", .joined ["me", "bob"] none none none none none),
      ("me", .joined ["me"] none none none none none)]
    (∀ frame ∈ frames, frame.2.tellsMembers = true) ∧
      ((Room.new "^talk").applyAll .rfc1459 frames).attending ≠
        attendedAfter .rfc1459 (Room.new "^talk").attending frames := by
  refine ⟨by decide, ?_⟩
  intro heq
  have hbob : (⟨"bob"⟩ : CaseFolded) ∈ ((Room.new "^talk").applyAll .rfc1459
      [("me", .joined ["me", "bob"] none none none none none),
        ("me", .joined ["me"] none none none none none)]).attending := by
    show (⟨"bob"⟩ : CaseFolded) ∈ Room.participants _
    decide +kernel
  rw [heq] at hbob
  obtain ⟨member, hmember, hfold⟩ := hbob
  rw [List.mem_singleton.mp hmember] at hfold
  exact absurd hfold (by decide)

end Room

end ObbyClient.Voice

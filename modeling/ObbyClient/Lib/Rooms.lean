import Mathlib

/-!
# Rooms, and what is said of them

Somebody is in some of many rooms and is told what happens there.  What they know of a room is made
of the remarks on it since they came in.

* `Report`, `hear` — what one report does to the rooms;
* `story`, `foldl_hear` — a room is the remarks since it was entered, taken in turn;
* `story_since` — which remarks these are, as long as the room keeps its name;
* `foldl_settled` — the last remark that settles a question is the answer;
* `foldl_present` — whoever is there was brought by some remark, and carried on by all those after
  it.
-/

namespace ObbyClient.Rooms

variable {ρ ε φ ψ α : Type*}

/-- Something that happens to a room, or to all of them. -/
inductive Report (ρ ε : Type*) where
  | entered (room : ρ)
  | left (room : ρ)
  | moved (source dest : ρ)
  | said (room : ρ) (remark : ε)
  | everywhere (remark : ε)

namespace Report

/-- The remark on one room that a report carries. -/
def remarkOn [DecidableEq ρ] (room : ρ) : Report ρ ε → Option ε
  | said other remark => if other = room then some remark else none
  | everywhere remark => some remark
  | _ => none

/-- True of a report that takes us out of a room, or puts another in its place. -/
def ends (room : ρ) : Report ρ ε → Prop
  | left other => other = room
  | moved source dest => source = room ∨ dest = room
  | _ => False

end Report

section Hear

variable [DecidableEq ρ]

/-- What is known of the rooms after a report.  Of a room we are not in, nothing is known. -/
def hear (blank : φ) (act : φ → ε → φ) (rooms : ρ → Option φ) : Report ρ ε → ρ → Option φ
  | .entered room => Function.update rooms room (some ((rooms room).getD blank))
  | .left room => Function.update rooms room none
  | .moved source dest =>
    match rooms source with
    | none => rooms
    | some known => Function.update (Function.update rooms source none) dest (some known)
  | .said room remark => Function.update rooms room ((rooms room).map fun known => act known remark)
  | .everywhere remark => fun room => (rooms room).map fun known => act known remark

/-- Remarks on one room change what is known of it, and nothing else. -/
theorem foldl_said (blank : φ) (act : φ → ε → φ) (rooms : ρ → Option φ) (room : ρ)
    (remarks : List ε) :
    (remarks.map (Report.said room)).foldl (hear blank act) rooms =
      Function.update rooms room ((rooms room).map fun known => remarks.foldl act known) := by
  induction remarks generalizing rooms with
  | nil => simp
  | cons remark remarks ih =>
    rw [List.map_cons, List.foldl_cons, ih]
    simp [hear, Function.comp_def]

/-- The remarks on each room since it was entered. -/
def story (reports : List (Report ρ ε)) : ρ → Option (List ε) :=
  reports.foldl (hear [] fun remarks remark => remarks ++ [remark]) fun _ => none

theorem story_append (reports : List (Report ρ ε)) (report : Report ρ ε) :
    story (reports ++ [report]) = hear [] (fun remarks remark =>
      remarks ++ [remark]) (story reports) report := by
  simp only [story, List.foldl_append, List.foldl_cons, List.foldl_nil]

/-- To hear a report of what is known is to hear it of anything it is known by. -/
theorem map_hear (blank : φ) {act : φ → ε → φ} {act' : ψ → ε → ψ} (f : φ → ψ)
    (hact : ∀ known remark, f (act known remark) = act' (f known) remark) (rooms : ρ → Option φ)
    (report : Report ρ ε) :
    (fun room => (hear blank act rooms report room).map f) =
      hear (f blank) act' (fun room => (rooms room).map f) report := by
  funext room
  cases report with
  | entered other =>
    simp only [hear, Function.update_apply]
    split
    · cases rooms other <;> simp
    · rfl
  | left other =>
    simp only [hear, Function.update_apply]
    split <;> simp
  | moved source dest =>
    simp only [hear]
    cases rooms source with
    | none => simp
    | some known =>
      simp only [Option.map_some, Function.update_apply]
      split
      · simp
      · split <;> simp
  | said other remark =>
    simp only [hear, Function.update_apply]
    split
    · simp [Function.comp_def, hact]
    · rfl
  | everywhere remark => simp [hear, Function.comp_def, hact]

/-- **A room is what was said of it since it was entered.** -/
theorem foldl_hear (blank : φ) (act : φ → ε → φ) (reports : List (Report ρ ε)) :
    reports.foldl (hear blank act) (fun _ => none) = fun room =>
      (story reports room).map (List.foldl act blank) := by
  induction reports using List.reverseRecOn with
  | nil => rfl
  | append_singleton reports report ih =>
    have hact : ∀ remarks remark, List.foldl act blank (remarks ++ [remark]) =
        act (List.foldl act blank remarks) remark := by
      simp
    rw [List.foldl_append, story_append, ih]
    exact (map_hear [] (List.foldl act blank) hact (story reports) report).symm

theorem hear_of_not_ends {blank : φ} {act : φ → ε → φ} {rooms : ρ → Option φ} {report : Report ρ ε}
    {room : ρ}
    {known : φ} (hroom : rooms room = some known) (hends : ¬ report.ends room) :
    hear blank act rooms report room =
      some (((report.remarkOn room).map (act known)).getD known) := by
  cases report with
  | entered other =>
    simp only [hear, Function.update_apply, Report.remarkOn]
    split
    · rename_i heq
      simp [← heq, hroom]
    · simp [hroom]
  | left other =>
    have hne : room ≠ other := fun heq => hends heq.symm
    simp [hear, Report.remarkOn, Function.update_of_ne hne, hroom]
  | moved source dest =>
    obtain ⟨hsource, hdest⟩ := not_or.mp hends
    simp only [hear, Report.remarkOn]
    cases rooms source with
    | none => simp [hroom]
    | some _ => simp [Function.update_of_ne (Ne.symm hsource),
        Function.update_of_ne (Ne.symm hdest), hroom]
  | said other remark =>
    simp only [hear, Function.update_apply, Report.remarkOn]
    by_cases heq : room = other
    · subst heq
      simp [hroom]
    · simp [heq, Ne.symm heq, hroom]
  | everywhere remark => simp [hear, Report.remarkOn, hroom]

/-- **The story of a room** that keeps its name is every remark on it since we came in. -/
theorem story_since {before after : List (Report ρ ε)} {room : ρ} (hout : story before room = none)
    (hstays : ∀ report ∈ after, ¬ report.ends room) :
    story (before ++ .entered room :: after) room =
      some (after.filterMap (Report.remarkOn room)) := by
  induction after using List.reverseRecOn with
  | nil =>
    rw [story_append]
    simp [hear, hout]
  | append_singleton after report ih =>
    have hlast := hstays report (by simp)
    have hknown := ih fun earlier hearlier => hstays earlier (by simp [hearlier])
    rw [← List.cons_append, ← List.append_assoc, story_append, hear_of_not_ends hknown hlast]
    cases hremark : report.remarkOn room with
    | none => simp [hremark]
    | some remark => simp [hremark]

end Hear

section Remarks

variable {act : φ → ε → φ}

/-- **The last remark that settles a question is the answer**, and else it is what it was. -/
theorem foldl_settled (ask : φ → α) {settles : ε → Option α}
    (hstep : ∀ known remark, ask (act known remark) = (settles remark).getD (ask known)) (known : φ)
    (remarks : List ε) :
    ask (remarks.foldl act known) = (remarks.filterMap settles).getLastD (ask known) := by
  induction remarks generalizing known with
  | nil => rfl
  | cons remark remarks ih =>
    rw [List.foldl_cons, ih, hstep, List.filterMap_cons]
    cases settles remark with
    | none => rfl
    | some answer => exact (List.getLastD_cons ..).symm

/-- Where remarks carry somebody, if they leave them there at all. -/
def carryAll (carry : ε → α → Option α) : List ε → α → Option α
  | [], who => some who
  | remark :: remarks, who => (carry remark who).bind (carryAll carry remarks)

/-- **Whoever is there was there before, or was brought**, and then was carried on by every
remark. -/
theorem foldl_present {present : φ → α → Prop} {brings : ε → α → Prop} {carry : ε → α → Option α}
    (hstep : ∀ known remark who, present (act known remark) who ↔
      brings remark who ∨ ∃ earlier, present known earlier ∧ carry remark earlier = some who)
    (known : φ) (remarks : List ε) (who : α) :
    present (remarks.foldl act known) who ↔
      (∃ earlier, present known earlier ∧ carryAll carry remarks earlier = some who) ∨
        ∃ before remark after earlier, remarks = before ++ remark :: after ∧ brings remark earlier ∧
          carryAll carry after earlier = some who := by
  induction remarks generalizing known with
  | nil => simp [carryAll]
  | cons remark remarks ih =>
    rw [List.foldl_cons, ih]
    constructor
    · rintro (⟨middle, hmiddle, hcarried⟩ | ⟨before, later, after, earlier, hsplit, hbrings,
        hcarried⟩)
      · obtain hbrings | ⟨earlier, hpresent, hcarry⟩ := (hstep known remark middle).mp hmiddle
        · exact Or.inr ⟨[], remark, remarks, middle, rfl, hbrings, hcarried⟩
        · exact Or.inl ⟨earlier, hpresent, by simp [carryAll, hcarry, hcarried]⟩
      · exact Or.inr ⟨remark :: before, later, after, earlier, by simp [hsplit], hbrings, hcarried⟩
    · rintro (⟨earlier, hpresent, hcarried⟩ | ⟨before, later, after, earlier, hsplit, hbrings,
        hcarried⟩)
      · obtain ⟨middle, hcarry, hrest⟩ := Option.bind_eq_some_iff.mp hcarried
        exact Or.inl ⟨middle, (hstep known remark middle).mpr (Or.inr ⟨earlier, hpresent, hcarry⟩),
          hrest⟩
      · cases before with
        | nil =>
          obtain ⟨rfl, rfl⟩ := List.cons.inj hsplit
          exact Or.inl ⟨earlier, (hstep known remark earlier).mpr (Or.inl hbrings), hcarried⟩
        | cons first before =>
          obtain ⟨rfl, rfl⟩ := List.cons.inj hsplit
          exact Or.inr ⟨before, later, after, earlier, rfl, hbrings, hcarried⟩

end Remarks

end ObbyClient.Rooms

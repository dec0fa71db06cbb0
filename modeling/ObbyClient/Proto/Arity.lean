import ObbyClient.Proto.Mode

/-!
# Which letter an argument belongs to

The letters of a mode string come without the arguments they take, so a reader goes through both
lists at once, and one wrong step puts every later argument on the wrong letter.  The sign in force
at a letter is the last one before it, and the arguments go to the letters that take one, first to
first.

* `signedLetters`, `parseChannelModes_letters` — the letters with their signs;
* `go_args` — the argument of each;
* `args_never_shift` — both together, for any classes of letters.
-/

namespace ObbyClient

/-! ### What a mode string says -/

/-- The letters of a mode string with their directions. -/
def signedLetters : Bool → Str → List (Bool × Char)
  | _, [] => []
  | set, mode :: spec =>
      if mode = '+' then signedLetters true spec
      else if mode = '-' then signedLetters false spec
      else (set, mode) :: signedLetters set spec

section Parse

variable (i : Isupport)

/-- True of a change that takes an argument. -/
def takes (change : ModeChange) : Bool := i.takesArg change.set change.mode

theorem go_letters (set : Bool) (spec : Str) (args : List Str) :
    (parseChannelModes.go i set spec args).map (fun change => (change.set, change.mode)) =
      signedLetters set spec := by
  induction spec generalizing set args with
  | nil => rfl
  | cons mode spec ih =>
      rw [parseChannelModes.go, signedLetters]
      split
      · exact ih true args
      · split
        · exact ih false args
        · dsimp only
          split
          · rw [List.map_cons, ih set args.tail]
          · rw [List.map_cons, ih set args]

/-- **The letters** of a change are those of the mode string, in order. -/
theorem parseChannelModes_letters (spec : Str) (args : List Str) :
    (parseChannelModes i (spec :: args)).map (fun change => (change.set, change.mode)) =
      signedLetters true spec := go_letters i true spec args

theorem go_args {set : Bool} {spec : Str} {args : List Str} {before after : List ModeChange}
    {change : ModeChange} (h : parseChannelModes.go i set spec args = before ++ change :: after) :
    change.membership = i.prefixes.isMembershipMode change.mode ∧
      change.arg = if takes i change then args[before.countP (takes i)]? else none := by
  induction spec generalizing set args before with
  | nil => simp [parseChannelModes.go] at h
  | cons mode spec ih =>
      rw [parseChannelModes.go] at h
      split at h
      · exact ih h
      · split at h
        · exact ih h
        · dsimp only at h
          split at h
          · rename_i hmode hmode' hyes
            have htakes : takes i ⟨set, mode, args.head?, i.prefixes.isMembershipMode mode⟩ =
              true :=
              hyes
            cases before with
            | nil =>
                obtain ⟨rfl, -⟩ := List.cons.inj h
                refine ⟨rfl, ?_⟩
                rw [if_pos htakes, List.countP_nil, List.head?_eq_getElem?]
            | cons first before =>
                obtain ⟨rfl, hrest⟩ := List.cons.inj h
                obtain ⟨hmembership, harg⟩ := ih hrest
                refine ⟨hmembership, harg.trans ?_⟩
                rw [List.countP_cons_of_pos htakes, List.getElem?_tail]
          · rename_i hmode hmode' hno
            have htakes : ¬takes i ⟨set, mode, none, i.prefixes.isMembershipMode mode⟩ = true := hno
            cases before with
            | nil =>
                obtain ⟨rfl, -⟩ := List.cons.inj h
                refine ⟨rfl, ?_⟩
                rw [if_neg htakes]
            | cons first before =>
                obtain ⟨rfl, hrest⟩ := List.cons.inj h
                obtain ⟨hmembership, harg⟩ := ih hrest
                refine ⟨hmembership, harg.trans ?_⟩
                rw [List.countP_cons_of_neg htakes]

/-- **The arguments** go to the letters that take one, in order. -/
theorem parseChannelModes_args {spec : Str} {args : List Str} {before after : List ModeChange}
    {change : ModeChange} (h : parseChannelModes i (spec :: args) = before ++ change :: after) :
    change.arg = if takes i change then args[before.countP (takes i)]? else none := (go_args i h).2

theorem parseChannelModes_membership {params : List Str} {change : ModeChange}
    (h : change ∈ parseChannelModes i params) :
    change.membership = i.prefixes.isMembershipMode change.mode := by
  cases params with
  | nil => cases h
  | cons spec args =>
      obtain ⟨before, after, hchanges⟩ := List.append_of_mem h
      exact (go_args i hchanges).1

end Parse

/-! ### First to first -/

/-- True for a letter, and for no sign. -/
def isLetter (c : Char) : Bool := c != '+' && c != '-'

/-- The sign in force behind a mode string: the last one in it, or the one from before. -/
def inForce (set : Bool) (front : Str) : Bool :=
  ((front.reverse.find? fun c => !isLetter c).map (· == '+')).getD set

theorem inForce_cons (set : Bool) (c : Char) (front : Str) :
    inForce set (c :: front) = inForce (if isLetter c then set else c == '+') front := by
  unfold inForce
  rw [List.reverse_cons, List.find?_append]
  cases front.reverse.find? fun c => !isLetter c with
  | some sign => rfl
  | none => cases hc : isLetter c <;> simp [hc]

theorem signedLetters_letters (set : Bool) (spec : Str) :
    (signedLetters set spec).map Prod.snd = spec.filter isLetter := by
  induction spec generalizing set with
  | nil => rfl
  | cons mode spec ih =>
      rw [signedLetters]
      by_cases hplus : mode = '+'
      · rw [if_pos hplus, ih, List.filter_cons_of_neg (by simp [isLetter, hplus])]
      · by_cases hminus : mode = '-'
        · rw [if_neg hplus, if_pos hminus, ih, List.filter_cons_of_neg (by simp [isLetter, hminus])]
        · rw [if_neg hplus, if_neg hminus, List.map_cons, ih,
            List.filter_cons_of_pos (by simp [isLetter, hplus, hminus])]

/-- **Each letter has the sign in force in front of it.** -/
theorem signedLetters_getElem? (set : Bool) (front : Str) {mode : Char} (back : Str)
    (hmode : isLetter mode = true) :
    (signedLetters set (front ++ mode :: back))[(front.filter isLetter).length]? =
      some (inForce set front, mode) := by
  induction front generalizing set with
  | nil =>
      rw [isLetter, Bool.and_eq_true, bne_iff_ne, bne_iff_ne] at hmode
      rw [List.nil_append, signedLetters, if_neg hmode.1, if_neg hmode.2]
      rfl
  | cons c front ih =>
      rw [List.cons_append, signedLetters, inForce_cons]
      by_cases hplus : c = '+'
      · subst hplus
        rw [if_pos rfl, List.filter_cons_of_neg (by decide)]
        exact ih true
      · by_cases hminus : c = '-'
        · subst hminus
          rw [if_neg hplus, if_pos rfl, List.filter_cons_of_neg (by decide)]
          exact ih false
        · have hletter : isLetter c = true := by simp [isLetter, hplus, hminus]
          rw [if_neg hplus, if_neg hminus, List.filter_cons_of_pos hletter, hletter, if_pos rfl]
          exact ih set

/-- The changes that take an argument: of a membership, of the classes that always take one, and of
the class that takes one when it is set. -/
def TakesArg (i : Isupport) (change : ModeChange) : Prop :=
  change.mode ∈ i.prefixes.modes ∨ change.mode ∈ i.chanmodes.list ∨
    change.mode ∈ i.chanmodes.alwaysArg ∨ change.set = true ∧ change.mode ∈ i.chanmodes.argOnSet

instance (i : Isupport) (change : ModeChange) : Decidable (TakesArg i change) :=
  inferInstanceAs (Decidable (_ ∨ _ ∨ _ ∨ _))

theorem takes_eq (i : Isupport) : takes i = fun change => decide (TakesArg i change) := by
  funext change
  rw [Bool.eq_iff_iff, decide_eq_true_eq, takes, Isupport.takesArg, TakesArg,
    Prefixes.isMembershipMode]
  simp [or_assoc]

/-- One change for each letter, in order, with the sign in force, and the arguments first to first
to the changes that take one. -/
structure Shared (i : Isupport) (spec : Str) (args : List Str) (changes : List ModeChange) :
    Prop where
  letters : changes.map (fun change => change.mode) = spec.filter isLetter
  signs : ∀ front mode back, spec = front ++ mode :: back → isLetter mode = true →
    (changes[(front.filter isLetter).length]?).map (fun change => (change.set, change.mode)) =
      some (inForce true front, mode)
  args : ∀ (k : ℕ) (change : ModeChange),
    (changes.filter fun change => decide (TakesArg i change))[k]? = some change →
      change.arg = args[k]?
  others : ∀ change ∈ changes, ¬TakesArg i change → change.arg = none

theorem exists_append_of_filter_getElem? {α : Type} {p : α → Bool} {l : List α} {k : ℕ} {a : α}
    (h : (l.filter p)[k]? = some a) :
    ∃ front back, l = front ++ a :: back ∧ front.countP p = k ∧ p a = true := by
  induction l generalizing k with
  | nil => cases h
  | cons b l ih =>
      by_cases hb : p b = true
      · rw [List.filter_cons_of_pos hb] at h
        cases k with
        | zero =>
            obtain rfl := Option.some.inj h
            exact ⟨[], l, rfl, rfl, hb⟩
        | succ k =>
            obtain ⟨front, back, rfl, hk, ha⟩ := ih h
            exact ⟨b :: front, back, rfl, by rw [List.countP_cons_of_pos hb, hk], ha⟩
      · rw [List.filter_cons_of_neg hb] at h
        obtain ⟨front, back, rfl, hk, ha⟩ := ih h
        exact ⟨b :: front, back, rfl, by rw [List.countP_cons_of_neg hb, hk], ha⟩

/-- **No argument goes to the wrong letter**, whatever the classes of the letters are. -/
theorem args_never_shift (i : Isupport) :
    parseChannelModes i [] = [] ∧
      ∀ (spec : Str) (args : List Str),
        Shared i spec args (parseChannelModes i (spec :: args)) := by
  refine ⟨rfl, fun spec args => ⟨?_, ?_, ?_, ?_⟩⟩
  · rw [← signedLetters_letters true spec, ← parseChannelModes_letters i spec args, List.map_map]
    rfl
  · rintro front mode back rfl hmode
    rw [← List.getElem?_map, parseChannelModes_letters]
    exact signedLetters_getElem? true front back hmode
  · intro k change hchange
    rw [← takes_eq] at hchange
    obtain ⟨before, after, hsplit, rfl, htakes⟩ := exists_append_of_filter_getElem? hchange
    rw [parseChannelModes_args i hsplit, if_pos htakes]
  · intro change hmem hnot
    obtain ⟨before, after, hsplit⟩ := List.append_of_mem hmem
    have htakes : ¬takes i change = true := by
      rw [takes_eq]
      simpa using hnot
    rw [parseChannelModes_args i hsplit, if_neg htakes]

example : (parseChannelModes .default [("+lob-lk+m" : Str), "5", "nick", "x!*@*", "key"]).map
    (fun change => change.arg) =
      ([some "5", some "nick", some "x!*@*", none, some "key", none] : List (Option Str)) := by
  decide +kernel

end ObbyClient

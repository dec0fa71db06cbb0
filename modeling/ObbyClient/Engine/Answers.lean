import ObbyClient.Engine.Clock
import ObbyClient.Engine.Deeds

/-!
# What becomes of a labelled command

A command is answered by a line under its label, or by a batch that was opened under it and is
closed on the same connection.  Otherwise it times out, once.

* `Client.Account`, `Client.accountOf` — what became of a command, told from its own lines;
* `Client.Tracks` — the outstanding labels are those that are still awaited;
* `Client.run_accounted` — which commands time out over a run.
-/

namespace ObbyClient

/-- True for the event that a command was never answered. -/
def Event.isTimeout : Event → Bool
  | .commandTimedOut _ => true
  | _ => false

theorem natToStr_injective {m n : ℕ} (h : natToStr m = natToStr n) : m = n := by
  have hread := congrArg (fun digits => Nat.ofDigitChars 10 digits 0) h
  unfold natToStr at hread
  rwa [Nat.ofDigitChars_toDigits (by omega) (by omega),
    Nat.ofDigitChars_toDigits (by omega) (by omega)] at hread

namespace Labels

/-- Giving up on labels closes the batches that they had opened last, and no other. -/
theorem foldl_expireOne_openBatches (labels : Labels) (commands : List Str) {keys : List Str}
    {reference : Str} (h : ∀ key ∈ keys, ∀ pending, labels.pending[key]? = some pending →
      pending.batchId ≠ some reference) :
    (keys.foldl expireOne (labels, commands)).1.openBatches[reference]? =
      labels.openBatches[reference]? := by
  induction keys generalizing labels commands with
  | nil => rfl
  | cons key keys ih =>
      rw [List.foldl_cons]
      cases hpending : labels.pending[key]? with
      | none =>
          have hone : expireOne (labels, commands) key = (labels, commands) := by
            unfold expireOne
            dsimp only
            rw [hpending]
          rw [hone]
          exact ih labels commands fun other hother => h other (List.mem_cons_of_mem _ hother)
      | some pending =>
          have hone : expireOne (labels, commands) key =
              (labels.release key pending, commands ++ [pending.data]) := by
            unfold expireOne
            dsimp only
            rw [hpending]
          rw [hone, ih]
          · have hother := h key List.mem_cons_self pending hpending
            unfold release
            cases hbatch : pending.batchId with
            | none => rfl
            | some opened =>
                show (labels.openBatches.erase opened)[reference]? = _
                rw [Maps.getElem?_erase_ite, if_neg]
                rintro rfl
                exact hother hbatch
          · intro other hother kept hkept
            refine h other (List.mem_cons_of_mem _ hother) kept ?_
            have hget : (labels.pending.erase key)[other]? = some kept := hkept
            rw [Maps.getElem?_erase_ite] at hget
            split at hget
            · cases hget
            · exact hget

theorem resolve_nextId (labels : Labels) (message : Message) :
    (labels.resolve message).nextId = labels.nextId := by
  unfold resolve resolveBatch
  split
  · split
    · split <;> rfl
    · split
      · rfl
      · split <;> rfl
    · rfl
  · split
    · rfl
    · split <;> rfl

theorem expire_nextId (labels : Labels) (nowMs : ℕ) :
    (labels.expire nowMs).1.nextId = labels.nextId := by
  unfold expire
  generalize dueKeys labels.pending nowMs Pending.deadlineMs = keys
  generalize ([] : List Str) = commands
  induction keys generalizing labels commands with
  | nil => rfl
  | cons key keys ih =>
      rw [List.foldl_cons]
      unfold expireOne
      dsimp only
      split
      · exact ih _ _
      · exact ih _ _

end Labels

namespace Client

/-! ### Accounts -/

/-- What became of a command. -/
inductive Fate where
  /-- Its reply is awaited, of which no more than the openings of these batches came. -/
  | awaited (opened : List Str)
  | answered
  | late
  deriving DecidableEq

/-- A command that was sent under a label. -/
structure Account where
  command : Str
  deadlineMs : ℕ
  fate : Fate
  deriving DecidableEq

namespace Account

/-- The batches that were opened under the label of the command, and are not closed yet. -/
def opened (account : Account) : List Str :=
  match account.fate with
  | .awaited opened => opened
  | _ => []

/-- The command and its deadline, while its reply is awaited. -/
def awaiting (account : Account) : Option (Str × ℕ) :=
  match account.fate with
  | .awaited _ => some (account.command, account.deadlineMs)
  | _ => none

/-- A line comes in: one under the label answers the command, and so does the end of a batch that
was opened under it. -/
def hear (label : Str) (message : Message) (account : Account) : Account :=
  match account.fate with
  | .awaited opened =>
      if message.is "BATCH" then
        match Batches.marked '-' message, Batches.marked '+' message with
        | some reference, _ =>
            if reference ∈ opened then { account with fate := .answered } else account
        | none, some reference =>
            if message.tag "label" = some label then
              { account with fate := .awaited (reference :: opened) }
            else account
        | none, none => account
      else if message.tag "label" = some label then { account with fate := .answered }
      else account
  | _ => account

/-- The clock comes to this instant. -/
def wait (nowMs : ℕ) (account : Account) : Account :=
  match account.fate with
  | .awaited _ => if account.deadlineMs ≤ nowMs then { account with fate := .late } else account
  | _ => account

/-- The connection ends, or another begins: no batch stays open. -/
def hangUp (account : Account) : Account :=
  match account.fate with
  | .awaited _ => { account with fate := .awaited [] }
  | _ => account

@[simp] theorem hear_command (label : Str) (message : Message) (account : Account) :
    (account.hear label message).command = account.command := by
  unfold hear
  split
  · split
    · split
      · split <;> rfl
      · split <;> rfl
      · rfl
    · split <;> rfl
  · rfl

@[simp] theorem wait_command (nowMs : ℕ) (account : Account) :
    (account.wait nowMs).command = account.command := by
  unfold wait
  split
  · split <;> rfl
  · rfl

@[simp] theorem hangUp_command (account : Account) : account.hangUp.command = account.command := by
  unfold hangUp
  split <;> rfl

@[simp] theorem hangUp_opened (account : Account) : account.hangUp.opened = [] := by
  obtain ⟨command, deadlineMs, fate⟩ := account
  cases fate <;> rfl

@[simp] theorem hangUp_awaiting (account : Account) :
    account.hangUp.awaiting = account.awaiting := by
  obtain ⟨command, deadlineMs, fate⟩ := account
  cases fate <;> rfl

/-- No line makes a command late. -/
@[simp] theorem hear_late (label : Str) (message : Message) (account : Account) :
    (account.hear label message).fate = .late ↔ account.fate = .late := by
  unfold hear
  cases hfate : account.fate with
  | awaited opened =>
      dsimp only
      split
      · split
        · split <;> simp [hfate]
        · split <;> simp [hfate]
        · simp [hfate]
      · split <;> simp [hfate]
  | answered => simp [hfate]
  | late => simp [hfate]

@[simp] theorem hangUp_late (account : Account) :
    account.hangUp.fate = .late ↔ account.fate = .late := by
  unfold hangUp
  cases hfate : account.fate with
  | awaited opened => simp
  | answered => simp [hfate]
  | late => simp [hfate]

/-- The clock makes a command late when it is awaited and its deadline passed. -/
theorem wait_late (nowMs : ℕ) (account : Account) :
    (account.wait nowMs).fate = .late ↔
      account.fate = .late ∨ ∃ p ∈ account.awaiting, p.2 ≤ nowMs := by
  unfold wait awaiting
  cases hfate : account.fate with
  | awaited opened =>
      dsimp only
      split
      · rename_i hdue
        simpa using hdue
      · rename_i hnot
        simpa [hfate] using hnot
  | answered => simp [hfate]
  | late => simp [hfate]

theorem opened_of_awaiting {account : Account} (h : account.awaiting = none) :
    account.opened = [] := by
  unfold awaiting at h
  unfold opened
  cases hfate : account.fate with
  | awaited opened =>
      rw [hfate] at h
      cases h
  | answered => rfl
  | late => rfl

/-- A line that is not for it leaves a command as it was. -/
theorem hear_of_awaiting {label : Str} {message : Message} {account : Account}
    (h : account.awaiting = none) : account.hear label message = account := by
  unfold awaiting at h
  unfold hear
  cases hfate : account.fate with
  | awaited opened =>
      rw [hfate] at h
      cases h
  | answered => rfl
  | late => rfl

end Account

/-! ### Labels and accounts -/

/-- The batches opened under a label and not closed yet. -/
def openedOf (account : Option Account) : List Str := (account.map Account.opened).getD []

/-- The outstanding labels are those awaited, and a batch that is open on the connection stands for
the label that opened it. -/
structure Tracks (labels : Labels) (accounts : Str → Option Account) : Prop where
  pending : ∀ label, (labels.pending[label]?).map (fun p => (p.data, p.deadlineMs)) =
    (accounts label).bind Account.awaiting
  opened : ∀ label reference, reference ∈ openedOf (accounts label) →
    labels.openBatches[reference]? = some label

namespace Tracks

variable {labels : Labels} {accounts : Str → Option Account}

/-- What is not outstanding is not awaited. -/
theorem deaf (h : Tracks labels accounts) {label : Str} (hnone : labels.pending[label]? = none)
    (message : Message) :
    (accounts label).map (Account.hear label message) = accounts label ∧
      openedOf (accounts label) = [] := by
  have hawaiting := h.pending label
  rw [hnone, Option.map_none] at hawaiting
  cases haccount : accounts label with
  | none => exact ⟨rfl, rfl⟩
  | some account =>
      rw [haccount] at hawaiting
      have hnot : account.awaiting = none := hawaiting.symm
      exact ⟨congrArg some (Account.hear_of_awaiting hnot), Account.opened_of_awaiting hnot⟩

/-- What is outstanding is awaited. -/
theorem awaited (h : Tracks labels accounts) {label : Str} {pending : Pending}
    (hsome : labels.pending[label]? = some pending) :
    ∃ opened, accounts label = some ⟨pending.data, pending.deadlineMs, .awaited opened⟩ := by
  have hawaiting := h.pending label
  rw [hsome, Option.map_some] at hawaiting
  obtain ⟨account, haccount, hboth⟩ := Option.bind_eq_some_iff.mp hawaiting.symm
  obtain ⟨command, deadlineMs, fate⟩ := account
  cases fate with
  | awaited opened =>
      cases hboth
      exact ⟨opened, haccount⟩
  | answered => cases hboth
  | late => cases hboth

/-- Some labels are no longer awaited, and what is awaited still keeps the batches it had open. -/
theorem close (h : Tracks labels accounts) {labels' : Labels} {accounts' : Str → Option Account}
    (gone : Str → Prop) [DecidablePred gone]
    (hgone : ∀ label, gone label →
      (accounts' label).bind Account.awaiting = none ∧ openedOf (accounts' label) = [])
    (hkept : ∀ label, ¬gone label → accounts' label = accounts label)
    (hpending : ∀ label,
      labels'.pending[label]? = if gone label then none else labels.pending[label]?)
    (hopened : ∀ label, ¬gone label → ∀ reference ∈ openedOf (accounts label),
      labels'.openBatches[reference]? = labels.openBatches[reference]?) :
    Tracks labels' accounts' := by
  refine ⟨fun label => ?_, fun label reference hmem => ?_⟩
  · rw [hpending]
    by_cases hlabel : gone label
    · rw [if_pos hlabel, (hgone label hlabel).1]
      rfl
    · rw [if_neg hlabel, hkept label hlabel]
      exact h.pending label
  · by_cases hlabel : gone label
    · rw [(hgone label hlabel).2] at hmem
      cases hmem
    · rw [hkept label hlabel] at hmem
      rw [hopened label hlabel reference hmem]
      exact h.opened label reference hmem

end Tracks

/-- A line that is taken for nothing but what it is: the end of a batch that an outstanding label
opened was opened by it on this connection; the opening of one under an outstanding label is of none
that another awaited command has open; and so is the last batch of a label that a single line
answers. -/
structure Unmistaken (labels : Labels) (accounts : Str → Option Account) (message : Message) :
    Prop where
  ends : message.is "BATCH" = true → ∀ reference, Batches.marked '-' message = some reference →
    ∀ label, labels.openBatches[reference]? = some label → labels.pending[label]? ≠ none →
      reference ∈ openedOf (accounts label)
  begins : message.is "BATCH" = true → Batches.marked '-' message = none →
    ∀ reference, Batches.marked '+' message = some reference →
      ∀ label, message.tag "label" = some label → labels.pending[label]? ≠ none →
        ∀ other, other ≠ label → reference ∉ openedOf (accounts other)
  single : message.is "BATCH" = false → ∀ label, message.tag "label" = some label →
    ∀ pending, labels.pending[label]? = some pending →
      ∀ reference, pending.batchId = some reference →
        ∀ other, other ≠ label → reference ∉ openedOf (accounts other)

/-! ### Lines -/

namespace Account

variable {label : Str} {message : Message} {account : Account}

theorem hear_end {reference : Str} (hline : message.is "BATCH" = true)
    (hend : Batches.marked '-' message = some reference) :
    account.hear label message =
      if reference ∈ account.opened then { account with fate := .answered } else account := by
  obtain ⟨command, deadlineMs, fate⟩ := account
  unfold hear opened
  rw [hline, hend]
  cases fate with
  | awaited opened => rfl
  | answered => rfl
  | late => rfl

/-- A line that is under another label and ends no batch says nothing of a command. -/
theorem hear_of_ne (hend : message.is "BATCH" = true → Batches.marked '-' message = none)
    (hlabel : message.tag "label" ≠ some label) : account.hear label message = account := by
  obtain ⟨command, deadlineMs, fate⟩ := account
  unfold hear
  cases fate with
  | awaited opened =>
      dsimp only
      split
      · rename_i hline
        rw [hend hline]
        split
        · rename_i hsome
          cases hsome
        · rfl
        · rfl
      · rfl
  | answered => rfl
  | late => rfl

end Account

theorem mem_openedOf {reference : Str} {account : Option Account} :
    reference ∈ openedOf account ↔ ∃ held, account = some held ∧ reference ∈ held.opened := by
  cases account with
  | none => simp [openedOf]
  | some held => simp [openedOf]

namespace Tracks

variable {labels : Labels} {accounts : Str → Option Account} {message : Message}

/-- A line under no outstanding label says nothing of any command. -/
theorem unheard (h : Tracks labels accounts)
    (hothers : ∀ label, message.tag "label" ≠ some label →
      (accounts label).map (Account.hear label message) = accounts label)
    (hnone : ∀ owner, message.tag "label" = some owner → labels.pending[owner]? = none)
    (label : Str) :
    (accounts label).map (Account.hear label message) = accounts label := by
  by_cases hlabel : message.tag "label" = some label
  · exact (h.deaf (hnone label hlabel) message).1
  · exact hothers label hlabel

/-- **The end of a batch.** -/
theorem ends (h : Tracks labels accounts) (hline : Unmistaken labels accounts message)
    (hbatch : message.is "BATCH" = true) {reference : Str}
    (hend : Batches.marked '-' message = some reference) :
    Tracks (labels.resolve message) fun label =>
      (accounts label).map (Account.hear label message) := by
  have hhear : ∀ label, (accounts label).map (Account.hear label message) =
      (accounts label).map fun account =>
        if reference ∈ account.opened then { account with fate := .answered } else account := by
    intro label
    refine Option.map_congr ?_
    intro account _
    exact Account.hear_end hbatch hend
  have hunheard : ∀ label, reference ∉ openedOf (accounts label) →
      (accounts label).map (Account.hear label message) = accounts label := by
    intro label hnot
    rw [hhear]
    cases haccount : accounts label with
    | none => rfl
    | some account =>
        rw [haccount, mem_openedOf] at hnot
        exact congrArg some (if_neg fun hmem => hnot ⟨account, rfl, hmem⟩)
  cases hopen : labels.openBatches[reference]? with
  | none =>
      have hresolve : labels.resolve message = labels := by
        unfold Labels.resolve Labels.resolveBatch
        rw [if_pos hbatch, hend]
        dsimp only
        rw [hopen]
      have hsame : ∀ label, (accounts label).map (Account.hear label message) = accounts label := by
        intro label
        refine hunheard label ?_
        intro hmem
        rw [h.opened label reference hmem] at hopen
        cases hopen
      rw [hresolve]
      simp only [hsame]
      exact h
  | some owner =>
      have hresolve : labels.resolve message =
          { labels with
            openBatches := labels.openBatches.erase reference
            pending := labels.pending.erase owner } := by
        unfold Labels.resolve Labels.resolveBatch
        rw [if_pos hbatch, hend]
        dsimp only
        rw [hopen]
      rw [hresolve]
      have hothers : ∀ label, label ≠ owner →
          (accounts label).map (Account.hear label message) = accounts label := by
        intro label hne
        refine hunheard label ?_
        intro hmem
        rw [h.opened label reference hmem] at hopen
        exact hne (Option.some.inj hopen)
      have howner : ((accounts owner).map (Account.hear owner message)).bind Account.awaiting =
        none ∧
          openedOf ((accounts owner).map (Account.hear owner message)) = [] := by
        cases hpending : labels.pending[owner]? with
        | none =>
            obtain ⟨hdeaf, hnil⟩ := h.deaf hpending message
            have hawaiting := h.pending owner
            rw [hpending] at hawaiting
            rw [hdeaf]
            exact ⟨hawaiting.symm, hnil⟩
        | some pending =>
            obtain ⟨opened, haccount⟩ := h.awaited hpending
            have hmem := hline.ends hbatch reference hend owner hopen (by rw [hpending]; simp)
            rw [haccount, mem_openedOf] at hmem
            obtain ⟨held, hheld, hmem⟩ := hmem
            obtain rfl := Option.some.inj hheld
            rw [haccount, Option.map_some, Account.hear_end hbatch hend, if_pos hmem]
            exact ⟨rfl, rfl⟩
      refine h.close (· = owner) ?_ hothers ?_ ?_
      · rintro label rfl
        exact howner
      · intro label
        exact Maps.getElem?_erase_ite _ _ _
      · intro label hlabel other hmem
        dsimp only
        rw [Maps.getElem?_erase_ite, if_neg]
        rintro rfl
        rw [h.opened label other hmem] at hopen
        exact hlabel (Option.some.inj hopen)

/-- **The opening of a batch.** -/
theorem begins (h : Tracks labels accounts) (hline : Unmistaken labels accounts message)
    (hbatch : message.is "BATCH" = true) (hend : Batches.marked '-' message = none) :
    Tracks (labels.resolve message) fun label =>
      (accounts label).map (Account.hear label message) := by
  have hothers : ∀ label, message.tag "label" ≠ some label →
      (accounts label).map (Account.hear label message) = accounts label := by
    intro label hlabel
    cases accounts label with
    | none => rfl
    | some account => exact congrArg some (Account.hear_of_ne (fun _ => hend) hlabel)
  unfold Labels.resolve Labels.resolveBatch
  rw [if_pos hbatch, hend]
  cases hbegin : Batches.marked '+' message with
  | none =>
      have hsame : ∀ label, (accounts label).map (Account.hear label message) = accounts label := by
        intro label
        cases accounts label with
        | none => rfl
        | some account =>
            refine congrArg some ?_
            unfold Account.hear
            rw [hend, hbegin]
            cases account.fate with
            | awaited opened => exact if_pos hbatch
            | answered => rfl
            | late => rfl
      simp only [hsame]
      exact h
  | some reference =>
      dsimp only
      cases hlabel : message.tag "label" with
      | none =>
          simp only [h.unheard hothers (by rw [hlabel]; exact nofun)]
          exact h
      | some owner =>
          dsimp only
          cases hpending : labels.pending[owner]? with
          | none =>
              have hnone : ∀ label, message.tag "label" = some label →
                  labels.pending[label]? = none := by
                intro label heq
                rw [← Option.some.inj (hlabel.symm.trans heq)]
                exact hpending
              simp only [h.unheard hothers hnone]
              exact h
          | some pending =>
              dsimp only
              obtain ⟨opened, haccount⟩ := h.awaited hpending
              have hnot := hline.begins hbatch hend reference hbegin owner hlabel
                (by rw [hpending]; simp)
              have howner : (accounts owner).map (Account.hear owner message) =
                  some ⟨pending.data, pending.deadlineMs, .awaited (reference :: opened)⟩ := by
                rw [haccount, Option.map_some]
                unfold Account.hear
                dsimp only
                rw [if_pos hbatch, hend, hbegin, hlabel]
                dsimp only
                rw [if_pos rfl]
              have hothers' : ∀ label, label ≠ owner →
                  (accounts label).map (Account.hear label message) = accounts label :=
                fun label hne =>
                  hothers label (by rw [hlabel]; exact fun heq => hne (Option.some.inj heq).symm)
              refine ⟨?_, ?_⟩
              · intro label
                dsimp only
                by_cases hne : label = owner
                · rw [hne, howner, Std.ExtTreeMap.getElem?_insert_self]
                  rfl
                · rw [hothers' label hne, Std.ExtTreeMap.getElem?_insert, if_neg, h.pending label]
                  rw [Std.LawfulEqCmp.compare_eq_iff_eq]
                  exact fun heq => hne heq.symm
              · intro label other hmem
                dsimp only at hmem ⊢
                rw [Std.ExtTreeMap.getElem?_insert]
                by_cases hne : label = owner
                · rw [hne, howner] at hmem
                  rcases List.mem_cons.mp hmem with rfl | hmem
                  · rw [if_pos Std.ReflCmp.compare_self, hne]
                  · split
                    · rw [hne]
                    · rw [hne]
                      refine h.opened owner other ?_
                      rw [haccount]
                      exact hmem
                · rw [hothers' label hne] at hmem
                  rw [if_neg, h.opened label other hmem]
                  rw [Std.LawfulEqCmp.compare_eq_iff_eq]
                  rintro rfl
                  exact hnot label hne hmem

/-- **A line of its own.** -/
theorem single (h : Tracks labels accounts) (hline : Unmistaken labels accounts message)
    (hbatch : message.is "BATCH" = false) :
    Tracks (labels.resolve message) fun label =>
      (accounts label).map (Account.hear label message) := by
  have hothers : ∀ label, message.tag "label" ≠ some label →
      (accounts label).map (Account.hear label message) = accounts label := by
    intro label hlabel
    cases accounts label with
    | none => rfl
    | some account =>
        refine congrArg some (Account.hear_of_ne ?_ hlabel)
        intro hline
        rw [hbatch] at hline
        cases hline
  unfold Labels.resolve
  rw [hbatch, if_neg Bool.false_ne_true]
  cases hlabel : message.tag "label" with
  | none =>
      simp only [h.unheard hothers (by rw [hlabel]; exact nofun)]
      exact h
  | some owner =>
      dsimp only
      have hothers' : ∀ label, label ≠ owner →
          (accounts label).map (Account.hear label message) = accounts label :=
        fun label hne =>
          hothers label (by rw [hlabel]; exact fun heq => hne (Option.some.inj heq).symm)
      cases hpending : labels.pending[owner]? with
      | none =>
          have hnone : ∀ label, message.tag "label" = some label →
              labels.pending[label]? = none := by
            intro label heq
            rw [← Option.some.inj (hlabel.symm.trans heq)]
            exact hpending
          simp only [h.unheard hothers hnone]
          exact h
      | some pending =>
          dsimp only
          obtain ⟨opened, haccount⟩ := h.awaited hpending
          have howner : (accounts owner).map (Account.hear owner message) =
              some ⟨pending.data, pending.deadlineMs, .answered⟩ := by
            rw [haccount, Option.map_some]
            unfold Account.hear
            dsimp only
            rw [hbatch, if_neg Bool.false_ne_true, if_pos hlabel]
          refine h.close (· = owner) ?_ hothers' ?_ ?_
          · rintro label rfl
            rw [howner]
            exact ⟨rfl, rfl⟩
          · intro label
            exact Maps.getElem?_erase_ite _ _ _
          · intro label hne other hmem
            unfold Labels.release
            cases hlast : pending.batchId with
            | none => rfl
            | some reference =>
                show (labels.openBatches.erase reference)[other]? = _
                rw [Maps.getElem?_erase_ite, if_neg]
                rintro rfl
                exact hline.single hbatch owner hlabel pending hpending other hlast label hne hmem

/-- **One line.** -/
theorem resolve (h : Tracks labels accounts) (hline : Unmistaken labels accounts message) :
    Tracks (labels.resolve message) fun label =>
      (accounts label).map (Account.hear label message) := by
  cases hbatch : message.is "BATCH" with
  | false => exact h.single hline hbatch
  | true =>
      cases hend : Batches.marked '-' message with
      | none => exact h.begins hline hbatch hend
      | some reference => exact h.ends hline hbatch hend

end Tracks

/-! ### The host -/

/-- The line that an input sends under a label, when `labeled-response` is in force. -/
def sentLine : Input → Option Message
  | .command command => commandLine command
  | .sendLineLabeled message => some message
  | _ => none

theorem sendLineLabeled_labels (c : Client) (message : Message) :
    (c.sendLineLabeled message).labels = c.labelsAfter message := by
  rw [sendLineLabeled_eq]

theorem say_labels [Primitives] (c : Client) (line : Message) :
    (c.say line).labels = c.labelsAfter line := by
  unfold say
  dsimp only
  split
  · exact c.sendLineLabeled_labels line
  · rw [fold_eq]
    exact c.sendLineLabeled_labels line

theorem command_labels [Primitives] (c : Client) (command : Command) :
    (c.command command).labels = ((commandLine command).map c.labelsAfter).getD c.labels := by
  cases command with
  | sendMessage target text => exact c.say_labels _
  | sendNotice target text => exact c.say_labels _
  | sendAction target text => exact c.say_labels _
  | join channel key => exact sendLineLabeled_labels _ _
  | subscribeMetadata keys => exact sendLineLabeled_labels _ _
  | watchNicks nicks =>
      show (Client.setWatching _ _ _).labels = c.labels
      unfold setWatching
      dsimp only
      rw [sendLines_eq]
  | unwatchNicks nicks =>
      show (Client.setWatching _ _ _).labels = c.labels
      unfold setWatching
      dsimp only
      rw [sendLines_eq]
  | sendRawLine line =>
      rw [command_sendRawLine]
      show _ = (((Message.parse line).toOption).map c.labelsAfter).getD c.labels
      cases (Message.parse line).toOption with
      | none => rfl
      | some message => exact c.sendLineLabeled_labels message
  | _ => exact c.sendLineLabeled_labels _

/-- **What an input does to the labels**, but for bytes and the clock. -/
theorem step_labels [Primitives] (c : Client) {input : Input} (hbytes : ∀ data, input ≠ .bytes data)
    (htick : ∀ now, input ≠ .tick now) :
    (c.step input).labels = ((sentLine input).map c.labelsAfter).getD c.labels := by
  cases input with
  | connected =>
      show c.handleConnected.labels = c.labels
      unfold handleConnected
      rw [sendLines_eq]
      rfl
  | disconnected =>
      show c.handleDisconnected.labels = c.labels
      unfold handleDisconnected scheduleReconnect
      split <;> rfl
  | bytes data => exact absurd rfl (hbytes data)
  | tick now => exact absurd rfl (htick now)
  | command command => exact c.command_labels command
  | sendLineLabeled message => exact c.sendLineLabeled_labels message
  | sendLine message => rfl
  | pollTransmit => rfl
  | pollEvent => rfl

theorem dispatch_labels [Primitives] (c : Client) (message : Message) :
    (c.dispatch message).labels = c.labels := by
  obtain ⟨timers, hside⟩ := c.dispatch_withSide c.side message
  have hself : c.dispatch message = (c.dispatch message).withSide
      { c.side with timers := timers, droppedLines := droppedAfter message c.side.droppedLines } :=
        hside
  exact (congrArg Client.labels hself).trans rfl

theorem handleMessage_labels [Primitives] (c : Client) (message : Message) :
    (c.handleMessage message).labels = c.labels.resolve message := by
  unfold handleMessage
  exact dispatch_labels _ message

namespace Tracks

variable {labels : Labels} {accounts : Str → Option Account}

/-- **A command is sent** under a label. -/
theorem register (h : Tracks labels accounts) (label : Str) (deadlineMs : ℕ) (command : Str) :
    Tracks (labels.generate.1.register label deadlineMs command) fun other =>
      if label = other then some ⟨command, deadlineMs, .awaited []⟩ else accounts other := by
  refine ⟨?_, ?_⟩
  · intro other
    show Option.map _ ((labels.pending.insert label ⟨deadlineMs, none, command⟩)[other]?) = _
    rw [Std.ExtTreeMap.getElem?_insert]
    simp only [Std.LawfulEqCmp.compare_eq_iff_eq]
    by_cases hlabel : label = other
    · rw [if_pos hlabel, if_pos hlabel]
      rfl
    · rw [if_neg hlabel, if_neg hlabel]
      exact h.pending other
  · intro other reference hmem
    split at hmem
    · cases hmem
    · exact h.opened other reference hmem

/-- **The connection ends**, or another begins. -/
theorem hangUp (h : Tracks labels accounts) :
    Tracks labels fun label => (accounts label).map Account.hangUp := by
  refine ⟨?_, ?_⟩
  · intro label
    rw [h.pending label]
    cases accounts label with
    | none => rfl
    | some account => exact account.hangUp_awaiting.symm
  · intro label reference hmem
    obtain ⟨held, hheld, hmem⟩ := mem_openedOf.mp hmem
    obtain ⟨account, -, rfl⟩ := Option.map_eq_some_iff.mp hheld
    rw [Account.hangUp_opened] at hmem
    cases hmem

end Tracks

/-- A tick that gives up on no label whose last batch another command, one still awaited after it,
opened since. -/
def SparesBatches (labels : Labels) (accounts : Str → Option Account) (nowMs : ℕ) : Prop :=
  ∀ (label : Str) (pending : Pending), labels.pending[label]? = some pending →
    pending.deadlineMs ≤ nowMs → ∀ reference, pending.batchId = some reference →
      ∀ other, (∀ p ∈ (accounts other).bind Account.awaiting, nowMs < p.2) →
        reference ∉ openedOf (accounts other)

namespace Tracks

variable {labels : Labels} {accounts : Str → Option Account} {nowMs : ℕ}

/-- **The clock comes to an instant.** -/
theorem expire (h : Tracks labels accounts) (hspares : SparesBatches labels accounts nowMs) :
    Tracks (labels.expire nowMs).1 fun label => (accounts label).map (Account.wait nowMs) := by
  obtain ⟨-, hleft⟩ := labels.expire_spec nowMs
  -- a label that is due is late from now on, and any other as it was
  have hdue : ∀ label, label ∈ dueKeys labels.pending nowMs Pending.deadlineMs →
      ∃ account, accounts label = some account ∧ (account.wait nowMs).fate = .late := by
    intro label hlabel
    obtain ⟨pending, hpending, hle⟩ := (mem_dueKeys _ _ _ _).mp hlabel
    obtain ⟨opened, haccount⟩ := h.awaited hpending
    exact ⟨_, haccount, (Account.wait_late _ _).mpr (.inr ⟨_, rfl, hle⟩)⟩
  have hkeep : ∀ label, label ∉ dueKeys labels.pending nowMs Pending.deadlineMs →
      (accounts label).map (Account.wait nowMs) = accounts label ∧
        ∀ p ∈ (accounts label).bind Account.awaiting, nowMs < p.2 := by
    intro label hnot
    have hlater : ∀ p ∈ (accounts label).bind Account.awaiting, nowMs < p.2 := by
      intro p hp
      rw [← h.pending label, Option.mem_def, Option.map_eq_some_iff] at hp
      obtain ⟨pending, hpending, rfl⟩ := hp
      by_contra hle
      exact hnot ((mem_dueKeys _ _ _ _).mpr ⟨pending, hpending, Nat.not_lt.mp hle⟩)
    refine ⟨?_, hlater⟩
    cases haccount : accounts label with
    | none => rfl
    | some account =>
        refine congrArg some ?_
        obtain ⟨command, deadlineMs, fate⟩ := account
        unfold Account.wait
        cases fate with
        | awaited opened =>
            have hlt := hlater (command, deadlineMs) (by rw [haccount]; rfl)
            exact if_neg (Nat.not_le.mpr hlt)
        | answered => rfl
        | late => rfl
  have hgone : ∀ label, label ∈ dueKeys labels.pending nowMs Pending.deadlineMs →
      ((accounts label).map (Account.wait nowMs)).bind Account.awaiting = none ∧
        openedOf ((accounts label).map (Account.wait nowMs)) = [] := by
    intro label hlabel
    obtain ⟨account, haccount, hlate⟩ := hdue label hlabel
    rw [haccount]
    have hnone : (account.wait nowMs).awaiting = none := by
      unfold Account.awaiting
      rw [hlate]
    exact ⟨hnone, Account.opened_of_awaiting hnone⟩
  refine h.close (· ∈ dueKeys labels.pending nowMs Pending.deadlineMs) hgone
    (fun label hlabel => (hkeep label hlabel).1) hleft ?_
  intro label hlabel reference hmem
  refine Labels.foldl_expireOne_openBatches labels [] ?_
  intro key hkey pending hpending hbatch
  obtain ⟨due, hpending', hle⟩ := (mem_dueKeys _ _ _ _).mp hkey
  rw [hpending] at hpending'
  obtain rfl := Option.some.inj hpending'
  exact hspares key pending hpending hle reference hbatch label (hkeep label hlabel).2 hmem

/-- The commands that the clock makes late are the outstanding ones whose deadline passed. -/
theorem late_iff (h : Tracks labels accounts) (label : Str) :
    (∃ account, (accounts label).map (Account.wait nowMs) = some account ∧ account.fate = .late) ↔
      (∃ account, accounts label = some account ∧ account.fate = .late) ∨
        label ∈ dueKeys labels.pending nowMs Pending.deadlineMs := by
  rw [mem_dueKeys]
  have hpending := h.pending label
  cases haccount : accounts label with
  | none =>
      rw [haccount, Option.bind_none, Option.map_eq_none_iff] at hpending
      simp [hpending]
  | some account =>
      rw [haccount, Option.bind_some] at hpending
      simp only [Option.map_some, Option.some.injEq, exists_eq_left', Account.wait_late]
      refine or_congr_right ?_
      rw [← hpending]
      cases labels.pending[label]? <;> simp

end Tracks

/-! ### A run -/

section Run

variable [Primitives]

/-- What a deed makes of a command that was, or was not yet, sent under a label. -/
def accountDeed (label : Str) (account : Option Account) : Deed → Option Account
  | .line _ message => account.map (Account.hear label message)
  | .host c input =>
      match input with
      | .tick now => account.map (Account.wait now.monotonicMs)
      | .connected => account.map Account.hangUp
      | .disconnected => account.map Account.hangUp
      | input =>
          match sentLine input with
          | none => account
          | some message =>
              if c.caps.has "labeled-response" ∧ c.labels.generate.2 = label then
                some ⟨message.command, satAdd64 c.monotonicMs defaultTimeoutMs, .awaited []⟩
              else account

/-- What became of the command that was sent under this label, if one was. -/
def accountOf (deeds : List Deed) (label : Str) : Option Account :=
  deeds.foldl (accountDeed label) none

/-- The command that was sent under this label. -/
def commandOf (deeds : List Deed) (label : Str) : Str :=
  ((accountOf deeds label).map Account.command).getD []

/-- The client that a deed leaves. -/
def Deed.result : Deed → Client
  | .line c message => c.handleMessage message
  | .host c input => c.step input

/-- The client that a deed finds. -/
def Deed.client : Deed → Client
  | .line c _ => c
  | .host c _ => c

/-- The commands that a deed reports unanswered. -/
def Deed.timeouts (deed : Deed) : List Event :=
  (deed.result.events.drop deed.client.events.length).filter Event.isTimeout

/-- A deed by which no label is taken for another. -/
def Distinct (seen : List Deed) : Deed → Prop
  | .line c message => Unmistaken c.labels (accountOf seen) message
  | .host c (.tick now) => SparesBatches c.labels (accountOf seen) now.monotonicMs
  | .host _ _ => True

omit [Primitives] in
theorem accountOf_append (seen : List Deed) (deed : Deed) (label : Str) :
    accountOf (seen ++ [deed]) label = accountDeed label (accountOf seen label) deed := by
  unfold accountOf
  rw [List.foldl_append]
  rfl

/-- **Nothing but a tick reports a command unanswered.** -/
theorem timeouts_of_not_tick {deed : Deed} (h : ∀ c now, deed ≠ .host c (.tick now))
    (hbytes : ∀ c data, deed ≠ .host c (.bytes data)) : deed.timeouts = [] := by
  have htold : ∀ c d : Client, Told c d → (d.events.drop c.events.length).filter Event.isTimeout =
      [] := by
    rintro c d ⟨events, hevents, hnone⟩
    rw [hevents, List.drop_left, List.filter_eq_nil_iff]
    intro event hevent
    have hlate := hnone event hevent
    cases event with
    | commandTimedOut command => cases hlate
    | _ => exact Bool.false_ne_true
  cases deed with
  | line c message => exact htold c _ (c.handleMessage_told message)
  | host c input =>
      by_cases hpoll : input = .pollEvent
      · subst hpoll
        show List.filter _ (List.drop c.events.length c.pollEvent.1.events) = []
        have hlen : c.pollEvent.1.events.length ≤ c.events.length := by
          unfold pollEvent
          cases c.events with
          | nil => exact Nat.le_refl _
          | cons event events => exact Nat.le_succ _
        rw [List.drop_eq_nil_of_le hlen]
        rfl
      · refine htold c _ (c.step_told ?_ hpoll)
        rintro now rfl
        exact h c now rfl

/-- What a tick reports unanswered, in the order in which it fell due. -/
theorem timeouts_tick (c : Client) (now : Now) :
    (Deed.host c (.tick now)).timeouts =
      ((dueKeys c.labels.pending now.monotonicMs Pending.deadlineMs).filterMap
        fun label => c.labels.pending[label]?.map Pending.data).map .commandTimedOut := by
  obtain ⟨-, -, events, hevents, -, hnone, -⟩ := c.tick_tells now
  obtain ⟨hlate, -⟩ := c.labels.expire_spec now.monotonicMs
  show List.filter _ (List.drop c.events.length (c.tick now).events) = _
  rw [hevents, hlate, List.append_assoc, List.drop_left, List.filter_append]
  have hother : events.filter Event.isTimeout = [] := by
    rw [List.filter_eq_nil_iff]
    intro event hevent
    cases event with
    | commandTimedOut command => exact absurd hevent (hnone command)
    | _ => exact Bool.false_ne_true
  rw [hother, List.nil_append, List.filter_eq_self]
  intro event hevent
  obtain ⟨command, -, rfl⟩ := List.mem_map.mp hevent
  rfl

/-- A command that timed out. -/
def IsLate (deeds : List Deed) (label : Str) : Prop :=
  ∃ account, accountOf deeds label = some account ∧ account.fate = .late

/-- The commands reported unanswered are those that are late, each of them once. -/
def Reported (deeds : List Deed) : Prop :=
  ∃ late : List Str, late.Nodup ∧ (∀ label, label ∈ late ↔ IsLate deeds label) ∧
    deeds.flatMap Deed.timeouts = late.map fun label => .commandTimedOut (commandOf deeds label)

/-- The labels of a client, after these deeds. -/
structure Kept (seen : List Deed) (c : Client) : Prop where
  fresh : ∀ label, accountOf seen label ≠ none →
    ∃ n, n < c.labels.nextId ∧ label = 'l' :: natToStr (n + 1)
  tracks : Tracks c.labels (accountOf seen)
  reported : Reported seen

/-- A deed that reports the commands it makes late. -/
theorem Reported.extend {seen : List Deed} {deed : Deed} (h : Reported seen) (more : List Str)
    (hnodup : more.Nodup) (hnew : ∀ label ∈ more, ¬IsLate seen label)
    (hlate : ∀ label, IsLate (seen ++ [deed]) label ↔ IsLate seen label ∨ label ∈ more)
    (hcommand : ∀ label, IsLate seen label → commandOf (seen ++ [deed]) label =
      commandOf seen label)
    (htimeouts : deed.timeouts =
      more.map fun label => .commandTimedOut (commandOf (seen ++ [deed]) label)) :
    Reported (seen ++ [deed]) := by
  obtain ⟨late, hdistinct, hmem, hreported⟩ := h
  refine ⟨late ++ more, ?_, ?_, ?_⟩
  · refine List.nodup_append'.mpr ⟨hdistinct, hnodup, ?_⟩
    intro label hold hmore
    exact hnew label hmore ((hmem label).mp hold)
  · intro label
    rw [List.mem_append, hmem, hlate]
  · rw [List.flatMap_append, List.flatMap_singleton, hreported, htimeouts, List.map_append]
    refine congrArg (· ++ _) (List.map_congr_left ?_)
    intro label hlabel
    rw [hcommand label ((hmem label).mp hlabel)]

namespace Kept

variable {seen : List Deed} {c d : Client} {deed : Deed}

/-- A deed that changes no fate but by closing batches or answering. -/
theorem mapped (h : Kept seen c) (f : Str → Account → Account)
    (hcommand : ∀ label account, (f label account).command = account.command)
    (hlate : ∀ label account, (f label account).fate = .late ↔ account.fate = .late)
    (haccounts : ∀ label, accountOf (seen ++ [deed]) label = (accountOf seen label).map (f label))
    (hnext : d.labels.nextId = c.labels.nextId)
    (htracks : Tracks d.labels fun label => (accountOf seen label).map (f label))
    (htimeouts : deed.timeouts = []) : Kept (seen ++ [deed]) d := by
  refine ⟨?_, ?_, ?_⟩
  · intro label hsome
    rw [haccounts, ne_eq, Option.map_eq_none_iff] at hsome
    rw [hnext]
    exact h.fresh label hsome
  · rwa [show accountOf (seen ++ [deed]) = _ from funext haccounts]
  · refine h.reported.extend [] List.nodup_nil (by simp) ?_ ?_ htimeouts
    · intro label
      unfold IsLate
      rw [haccounts]
      cases accountOf seen label with
      | none => simp
      | some account => simp [hlate]
    · intro label _
      unfold commandOf
      rw [haccounts]
      cases accountOf seen label with
      | none => rfl
      | some account => exact hcommand label account

/-- **One line.** -/
theorem line (h : Kept seen c) {message : Message} (hdistinct : Distinct seen (.line c message)) :
    Kept (seen ++ [.line c message]) (c.handleMessage message) := by
  refine h.mapped (fun label => Account.hear label message) ?_ ?_ ?_ ?_ ?_ ?_
  · exact fun label account => account.hear_command label message
  · exact fun label account => account.hear_late label message
  · exact fun label => accountOf_append seen _ label
  · rw [handleMessage_labels, Labels.resolve_nextId]
  · rw [handleMessage_labels]
    exact h.tracks.resolve hdistinct
  · exact timeouts_of_not_tick (by simp) (by simp)

/-- **One tick.** -/
theorem tick (h : Kept seen c) {now : Now} (hdistinct : Distinct seen (.host c (.tick now))) :
    Kept (seen ++ [.host c (.tick now)]) (c.tick now) := by
  have haccounts : ∀ label, accountOf (seen ++ [.host c (.tick now)]) label =
      (accountOf seen label).map (Account.wait now.monotonicMs) :=
    fun label => accountOf_append seen _ label
  have hlabels := (c.tick_tells now).1
  have hcommand : ∀ label, commandOf (seen ++ [.host c (.tick now)]) label =
      commandOf seen label := by
    intro label
    unfold commandOf
    rw [haccounts]
    cases accountOf seen label with
    | none => rfl
    | some account => exact account.wait_command now.monotonicMs
  refine ⟨?_, ?_, ?_⟩
  · intro label hsome
    rw [haccounts, ne_eq, Option.map_eq_none_iff] at hsome
    rw [hlabels, Labels.expire_nextId]
    exact h.fresh label hsome
  · rw [hlabels, show accountOf (seen ++ [.host c (.tick now)]) = _ from funext haccounts]
    exact h.tracks.expire hdistinct
  · refine h.reported.extend (dueKeys c.labels.pending now.monotonicMs Pending.deadlineMs)
      (nodup_dueKeys _ _ _) ?_ ?_ (fun label _ => hcommand label) ?_
    · rintro label hlabel ⟨account, haccount, hlate⟩
      obtain ⟨pending, hpending, -⟩ := (mem_dueKeys _ _ _ _).mp hlabel
      obtain ⟨opened, hawaited⟩ := h.tracks.awaited hpending
      rw [hawaited] at haccount
      obtain rfl := Option.some.inj haccount
      cases hlate
    · intro label
      unfold IsLate
      rw [haccounts]
      exact h.tracks.late_iff label
    · rw [timeouts_tick]
      have hdata : (dueKeys c.labels.pending now.monotonicMs Pending.deadlineMs).filterMap
          (fun label => c.labels.pending[label]?.map Pending.data) =
            (dueKeys c.labels.pending now.monotonicMs Pending.deadlineMs).map (commandOf seen) := by
        rw [← List.filterMap_eq_map]
        refine List.filterMap_congr ?_
        intro label hlabel
        obtain ⟨pending, hpending, -⟩ := (mem_dueKeys _ _ _ _).mp hlabel
        obtain ⟨opened, hawaited⟩ := h.tracks.awaited hpending
        rw [hpending]
        unfold commandOf
        dsimp only [Function.comp]
        rw [hawaited]
        rfl
      rw [hdata, List.map_map]
      refine List.map_congr_left ?_
      intro label _
      rw [hcommand]
      rfl

/-- **One command.** -/
theorem send (h : Kept seen c) {input : Input} {message : Message}
    (haccounts : ∀ label, accountOf (seen ++ [.host c input]) label =
      if c.caps.has "labeled-response" ∧ c.labels.generate.2 = label then
        some ⟨message.command, satAdd64 c.monotonicMs defaultTimeoutMs, .awaited []⟩
      else accountOf seen label)
    (hlabels : d.labels = c.labelsAfter message)
    (htimeouts : (Deed.host c input).timeouts = []) : Kept (seen ++ [.host c input]) d := by
  cases hcap : c.caps.has "labeled-response" with
  | false =>
      refine h.mapped (fun _ => id) (fun _ _ => rfl) (fun _ _ => Iff.rfl) ?_ ?_ ?_ htimeouts
      · intro label
        rw [haccounts, hcap, if_neg (by simp), Option.map_id]
        rfl
      · rw [hlabels, labelsAfter, hcap]
        rfl
      · rw [hlabels, labelsAfter, hcap]
        simp only [Option.map_id, id]
        exact h.tracks
  | true =>
      have hlabel : ∀ label, accountOf (seen ++ [.host c input]) label =
          if c.labels.generate.2 = label then
            some ⟨message.command, satAdd64 c.monotonicMs defaultTimeoutMs, .awaited []⟩
          else accountOf seen label := by
        intro label
        rw [haccounts, hcap]
        simp only [true_and]
      have hafter : d.labels = c.labels.generate.1.register c.labels.generate.2
          (satAdd64 c.monotonicMs defaultTimeoutMs) message.command := by
        rw [hlabels, labelsAfter, hcap]
        rfl
      -- the label is a new one, so nothing is said of it yet
      have hnew : accountOf seen c.labels.generate.2 = none := by
        by_contra hsome
        obtain ⟨n, hn, heq⟩ := h.fresh _ hsome
        have hsame := natToStr_injective (List.cons.inj heq).2
        omega
      refine ⟨?_, ?_, ?_⟩
      · intro label hsome
        have hnext : d.labels.nextId = c.labels.nextId + 1 := by
          rw [hafter]
          rfl
        rw [hnext]
        rw [hlabel] at hsome
        by_cases heq : c.labels.generate.2 = label
        · exact ⟨c.labels.nextId, Nat.lt_succ_self _, heq.symm⟩
        · rw [if_neg heq] at hsome
          obtain ⟨n, hn, hname⟩ := h.fresh label hsome
          exact ⟨n, Nat.lt_succ_of_lt hn, hname⟩
      · rw [hafter, show accountOf (seen ++ [.host c input]) = _ from funext hlabel]
        exact h.tracks.register _ _ _
      · refine h.reported.extend [] List.nodup_nil (by simp) ?_ ?_ htimeouts
        · intro label
          unfold IsLate
          rw [hlabel]
          by_cases heq : c.labels.generate.2 = label
          · rw [if_pos heq, ← heq, hnew]
            simp
          · rw [if_neg heq]
            simp
        · rintro label ⟨account, haccount, -⟩
          unfold commandOf
          rw [hlabel, if_neg]
          rintro rfl
          rw [hnew] at haccount
          cases haccount

/-- **One input of the host.** -/
theorem host (h : Kept seen c) {input : Input} (hbytes : ∀ data, input ≠ .bytes data)
    (hdistinct : Distinct seen (.host c input)) : Kept (seen ++ [.host c input])
    (c.step input) := by
  by_cases htick : ∃ now, input = .tick now
  · obtain ⟨now, rfl⟩ := htick
    exact h.tick hdistinct
  rw [not_exists] at htick
  have hlabels := c.step_labels hbytes htick
  have htimeouts : (Deed.host c input).timeouts = [] :=
    timeouts_of_not_tick (fun _ now heq => htick now (Deed.host.inj heq).2)
      fun _ data heq => hbytes data (Deed.host.inj heq).2
  have hsame : (∀ label, accountOf (seen ++ [.host c input]) label = accountOf seen label) →
      (c.step input).labels = c.labels → Kept (seen ++ [.host c input]) (c.step input) := by
    intro haccounts hafter
    refine h.mapped (fun _ => id) (fun _ _ => rfl) (fun _ _ => Iff.rfl) ?_ ?_ ?_ htimeouts
    · intro label
      rw [haccounts, Option.map_id]
      rfl
    · rw [hafter]
    · rw [hafter]
      simp only [Option.map_id, id]
      exact h.tracks
  have hcut : (∀ label, accountOf (seen ++ [.host c input]) label =
      (accountOf seen label).map Account.hangUp) → (c.step input).labels = c.labels →
        Kept (seen ++ [.host c input]) (c.step input) := by
    intro haccounts hafter
    refine h.mapped (fun _ => Account.hangUp) (fun _ account => account.hangUp_command)
      (fun _ account => account.hangUp_late) haccounts ?_ ?_ htimeouts
    · rw [hafter]
    · rw [hafter]
      exact h.tracks.hangUp
  cases input with
  | connected => exact hcut (fun label => accountOf_append seen _ label) hlabels
  | disconnected => exact hcut (fun label => accountOf_append seen _ label) hlabels
  | bytes data => exact absurd rfl (hbytes data)
  | tick now => exact absurd rfl (htick now)
  | command command =>
      cases hline : commandLine command with
      | none =>
          refine hsame ?_ ?_
          · intro label
            rw [accountOf_append]
            unfold accountDeed sentLine
            dsimp only
            rw [hline]
          · rw [hlabels, sentLine, hline]
            rfl
      | some message =>
          refine h.send ?_ (?_ : _ = c.labelsAfter message) htimeouts
          · intro label
            rw [accountOf_append]
            unfold accountDeed sentLine
            dsimp only
            rw [hline]
          · rw [hlabels, sentLine, hline]
            rfl
  | sendLineLabeled message =>
      exact h.send (fun label => accountOf_append seen _ label) hlabels htimeouts
  | sendLine message => exact hsame (fun label => accountOf_append seen _ label) hlabels
  | pollTransmit => exact hsame (fun label => accountOf_append seen _ label) hlabels
  | pollEvent => exact hsame (fun label => accountOf_append seen _ label) hlabels

end Kept

/-- **Labelled commands are accounted for** in every run in which no label is taken for another: the
commands reported unanswered are those whose reply was not complete when their deadline passed, each
of them once. -/
theorem run_reported (config : Config) (inputs : List Input)
    (h : Along Distinct ((new config).deeds inputs)) : Reported ((new config).deeds inputs) := by
  have hkept : Kept ((new config).deeds inputs) ((new config).run inputs) := by
    refine run_along (C := Distinct) (P := Kept) ?_ ?_ ?_ ?_ inputs h
    · intro seen c held discarding dropped hc
      exact ⟨hc.fresh, hc.tracks, hc.reported⟩
    · intro seen c message hdistinct hc
      exact hc.line hdistinct
    · intro seen c input hbytes hdistinct hc
      exact hc.host hbytes hdistinct
    · refine ⟨fun label hsome => absurd rfl hsome, ⟨?_, ?_⟩, [], List.nodup_nil, ?_, rfl⟩
      · intro label
        rfl
      · intro label reference hmem
        cases hmem
      · intro label
        refine iff_of_false List.not_mem_nil ?_
        rintro ⟨account, haccount, -⟩
        cases haccount
  exact hkept.reported

/-! ### Runs that can be checked -/

/-- The labels that deeds sent a command under, or would have. -/
def sentLabels (deeds : List Deed) : List Str :=
  deeds.filterMap fun deed =>
    match deed with
    | .line _ _ => none
    | .host c input => (sentLine input).map fun _ => c.labels.generate.2

omit [Primitives] in
theorem accountOf_eq_none {deeds : List Deed} {label : Str} (h : label ∉ sentLabels deeds) :
    accountOf deeds label = none := by
  unfold accountOf
  induction deeds with
  | nil => rfl
  | cons deed deeds ih =>
      have hrest : label ∉ sentLabels deeds := by
        intro hmem
        obtain ⟨other, hother, hlabel⟩ := List.mem_filterMap.mp hmem
        exact h (List.mem_filterMap.mpr ⟨other, List.mem_cons_of_mem _ hother, hlabel⟩)
      have hfirst : accountDeed label none deed = none := by
        cases deed with
        | line c message => rfl
        | host c input =>
            have hone : ∀ message, sentLine input = some message → c.labels.generate.2 ≠ label := by
              intro message hline heq
              refine h (List.mem_filterMap.mpr ⟨.host c input, List.mem_cons_self, ?_⟩)
              dsimp only
              rw [hline, ← heq]
              rfl
            have hsent : (match sentLine input with
                | none => (none : Option Account)
                | some message =>
                    if c.caps.has "labeled-response" ∧ c.labels.generate.2 = label then
                      some ⟨message.command, satAdd64 c.monotonicMs defaultTimeoutMs, .awaited []⟩
                    else none) = none := by
              cases hline : sentLine input with
              | none => rfl
              | some message => exact if_neg fun hboth => hone message hline hboth.2
            cases input with
            | tick now => rfl
            | connected => rfl
            | disconnected => rfl
            | _ => exact hsent
      rw [List.foldl_cons, hfirst]
      exact ih hrest

/-- True when no other label has this batch open. -/
def openElsewhere (seen : List Deed) (others : Str → Bool) (reference : Str) : Bool :=
  (sentLabels seen).any fun other =>
    others other && (openedOf (accountOf seen other)).contains reference

omit [Primitives] in
theorem not_mem_of_openElsewhere {seen : List Deed} {others : Str → Bool} {reference other : Str}
    (h : openElsewhere seen others reference = false) (hother : others other = true) :
    reference ∉ openedOf (accountOf seen other) := by
  by_cases hsent : other ∈ sentLabels seen
  · have hnone := List.any_eq_false.mp h other hsent
    rw [hother, Bool.true_and, List.contains_iff_mem] at hnone
    exact hnone
  · rw [accountOf_eq_none hsent]
    exact List.not_mem_nil

/-- What `Distinct` asks, checked. -/
def distinct (seen : List Deed) : Deed → Bool
  | .line c message =>
      if message.is "BATCH" then
        match Batches.marked '-' message, Batches.marked '+' message with
        | some reference, _ =>
            c.labels.openBatches[reference]?.all fun label =>
              c.labels.pending[label]?.isNone || (openedOf (accountOf seen label)).contains
                reference
        | none, some reference =>
            (message.tag "label").all fun label =>
              c.labels.pending[label]?.isNone || !openElsewhere seen (· != label) reference
        | none, none => true
      else
        (message.tag "label").all fun label =>
          c.labels.pending[label]?.all fun pending =>
            pending.batchId.all fun reference => !openElsewhere seen (· != label) reference
  | .host c (.tick now) =>
      (dueKeys c.labels.pending now.monotonicMs Pending.deadlineMs).all fun label =>
        c.labels.pending[label]?.all fun pending =>
          pending.batchId.all fun reference =>
            !openElsewhere seen (fun other =>
              ((accountOf seen other).bind Account.awaiting).all fun p =>
                now.monotonicMs < p.2) reference
  | .host _ _ => true

omit [Primitives] in
theorem distinct_spec {seen : List Deed} {deed : Deed} (h : distinct seen deed = true) :
    Distinct seen deed := by
  cases deed with
  | line c message =>
      unfold distinct at h
      dsimp only at h
      refine ⟨?_, ?_, ?_⟩
      · intro hbatch reference hend label hopen hpending
        rw [if_pos hbatch, hend] at h
        dsimp only at h
        rw [hopen, Option.all_some, Bool.or_eq_true, Option.isNone_iff_eq_none] at h
        rcases h with h | h
        · exact absurd h hpending
        · exact List.contains_iff_mem.mp h
      · intro hbatch hend reference hbegin label hlabel hpending other hne
        rw [if_pos hbatch, hend, hbegin] at h
        dsimp only at h
        rw [hlabel, Option.all_some, Bool.or_eq_true, Option.isNone_iff_eq_none,
          Bool.not_eq_true'] at h
        rcases h with h | h
        · exact absurd h hpending
        · exact not_mem_of_openElsewhere h (bne_iff_ne.mpr hne)
      · intro hbatch label hlabel pending hpending reference hlast other hne
        rw [hbatch, if_neg Bool.false_ne_true, hlabel, Option.all_some, hpending, Option.all_some,
          hlast, Option.all_some, Bool.not_eq_true'] at h
        exact not_mem_of_openElsewhere h (bne_iff_ne.mpr hne)
  | host c input =>
      cases input with
      | tick now =>
          intro label pending hpending hle reference hlast other hlater
          have hkey : label ∈ dueKeys c.labels.pending now.monotonicMs Pending.deadlineMs :=
            (mem_dueKeys _ _ _ _).mpr ⟨pending, hpending, hle⟩
          have hone := List.all_eq_true.mp h label hkey
          rw [hpending, Option.all_some, hlast, Option.all_some, Bool.not_eq_true'] at hone
          refine not_mem_of_openElsewhere hone ?_
          cases hawaiting : (accountOf seen other).bind Account.awaiting with
          | none => rfl
          | some p => exact decide_eq_true (hlater p hawaiting)
      | _ => trivial

/-- A check of every deed, given those before it. -/
def allAlong (check : List Deed → Deed → Bool) (seen : List Deed) : List Deed → Bool
  | [] => true
  | deed :: deeds => check seen deed && allAlong check (seen ++ [deed]) deeds

omit [Primitives] in
theorem along_of_allAlong {check : List Deed → Deed → Bool} {C : List Deed → Deed → Prop}
    (hcheck : ∀ seen deed, check seen deed = true → C seen deed) (seen : List Deed)
    {deeds : List Deed}
    (h : allAlong check seen deeds = true) :
    ∀ before deed after, deeds = before ++ deed :: after → C (seen ++ before) deed := by
  induction deeds generalizing seen with
  | nil =>
      intro before deed after hnil
      cases before <;> cases hnil
  | cons first deeds ih =>
      obtain ⟨hfirst, hrest⟩ := (Bool.and_eq_true _ _).mp h
      intro before deed after hdeeds
      cases before with
      | nil =>
          obtain ⟨rfl, -⟩ := List.cons_eq_cons.mp hdeeds
          rw [List.append_nil]
          exact hcheck seen first hfirst
      | cons other before =>
          obtain ⟨hother, htail⟩ := List.cons_eq_cons.mp hdeeds
          have hsplit := ih (seen ++ [first]) hrest before deed after htail
          rw [← hother]
          rwa [List.append_assoc] at hsplit

end Run

/-- A command answered by a batch, and one that is never answered, with the same reference. -/
theorem run_reported_twice : letI := Primitives.ascii
    Reported ((new (.new "me")).deeds [.connected,
      .bytes (Utf8.encode "CAP * LS :labeled-response\nCAP * ACK :labeled-response\n"),
      .command (.whois "bob"), .bytes
        (Utf8.encode "@label=l1 BATCH +r labeled-response\nBATCH -r\n"),
      .command (.whois "alice"), .bytes (Utf8.encode "@label=l2 BATCH +r labeled-response\n"),
      .disconnected, .tick ⟨40000, 0⟩]) := by
  let _ := Primitives.ascii
  refine run_reported _ _ ?_
  have hall : allAlong distinct [] ((new (.new "me")).deeds [.connected,
      .bytes (Utf8.encode "CAP * LS :labeled-response\nCAP * ACK :labeled-response\n"),
      .command (.whois "bob"), .bytes
        (Utf8.encode "@label=l1 BATCH +r labeled-response\nBATCH -r\n"),
      .command (.whois "alice"), .bytes (Utf8.encode "@label=l2 BATCH +r labeled-response\n"),
      .disconnected, .tick ⟨40000, 0⟩]) = true := by
    decide +kernel
  exact along_of_allAlong (fun _ _ => distinct_spec) [] hall

/-- **A reference that is used again** on another connection has a command answered by a batch that
is no reply to it, or keeps one that was answered from being taken for it. -/
theorem reused_reference : letI := Primitives.ascii
    let answered := (new (.new "me")).deeds [.connected,
      .bytes (Utf8.encode "CAP * LS :labeled-response\nCAP * ACK :labeled-response\n"),
      .command (.whois "bob"), .bytes (Utf8.encode "@label=l1 BATCH +r labeled-response\n"),
      .disconnected, .connected, .bytes (Utf8.encode "BATCH +r netsplit\nBATCH -r\n"),
      .tick ⟨40000, 0⟩]
    let orphaned := (new (.new "me")).deeds [.connected,
      .bytes (Utf8.encode "CAP * LS :labeled-response\nCAP * ACK :labeled-response\n"),
      .command (.whois "bob"), .bytes (Utf8.encode "@label=l1 BATCH +r labeled-response\n"),
      .disconnected, .connected, .tick ⟨20000, 0⟩,
      .bytes (Utf8.encode "CAP * LS :labeled-response\nCAP * ACK :labeled-response\n"),
      .command (.whois "alice"), .bytes (Utf8.encode "@label=l2 BATCH +r labeled-response\n"),
      .tick ⟨40000, 0⟩, .bytes (Utf8.encode "BATCH -r\n"), .tick ⟨60000, 0⟩]
    ¬ Reported answered ∧ ¬ Reported orphaned := by
  let _ := Primitives.ascii
  intro answered orphaned
  refine ⟨?_, ?_⟩
  · rintro ⟨late, -, hmem, hreported⟩
    have hrun : (answered.flatMap Deed.timeouts).isEmpty = true ∧
        (accountOf answered "l1").map Account.fate = some .late := by
      decide +kernel
    obtain ⟨hnone, hlate⟩ := hrun
    rw [List.isEmpty_iff, hreported, List.map_eq_nil_iff] at hnone
    have hin := (hmem "l1").mpr (Option.map_eq_some_iff.mp hlate)
    rw [hnone] at hin
    cases hin
  · rintro ⟨late, hnodup, hmem, hreported⟩
    have hrun : (orphaned.flatMap Deed.timeouts).length = 2 ∧
        sentLabels orphaned = [("l1" : Str), ("l2" : Str)] ∧
        (accountOf orphaned "l2").map Account.fate = some .answered := by
      decide +kernel
    obtain ⟨htwo, hsent, hanswered⟩ := hrun
    have hone : ∀ label ∈ late, label = "l1" := by
      intro label hlabel
      obtain ⟨account, haccount, hlate⟩ := (hmem label).mp hlabel
      have hin : label ∈ sentLabels orphaned := by
        by_contra hout
        rw [accountOf_eq_none hout] at haccount
        cases haccount
      rw [hsent, List.mem_cons, List.mem_singleton] at hin
      rcases hin with rfl | rfl
      · rfl
      · rw [haccount, Option.map_some, hlate] at hanswered
        cases hanswered
    rw [hreported, List.length_map] at htwo
    have hsub : late ⊆ [("l1" : Str)] := fun label hlabel =>
      List.mem_singleton.mpr (hone label hlabel)
    have hle := hnodup.length_le_of_subset hsub
    rw [htwo] at hle
    exact absurd hle (by decide)

end Client

end ObbyClient

import ObbyClient.Lib.Text

/-!
# Server casemapping

Two nicks or two channel names are the same identity when they fold to the same string under the
server's `CASEMAPPING`.  `CaseFolded` is the folded name, and every map keyed by an identity is
keyed by it.
-/

namespace ObbyClient

/-- How a server folds case. -/
inductive Casemapping where
  /-- `A-Z` only. -/
  | ascii
  /-- `A-Z` and the four punctuation letters of the original protocol. -/
  | rfc1459
  /-- `rfc1459` without the fold of `~`. -/
  | rfc1459Strict
  deriving DecidableEq

/-- A nick or channel name folded under a server's casemapping. -/
structure CaseFolded where
  /-- The folded form. -/
  asStr : Str
  deriving DecidableEq

namespace CaseFolded

instance : Ord CaseFolded := ⟨compareOn asStr⟩

instance : Std.TransOrd CaseFolded := inferInstanceAs (Std.TransCmp (compareOn asStr))

instance : Std.LawfulEqOrd CaseFolded where
  eq_of_compare := by
    rintro ⟨a⟩ ⟨b⟩ h
    exact congrArg CaseFolded.mk (Std.LawfulEqOrd.eq_of_compare (α := Str) h)

end CaseFolded

namespace Casemapping

/-- What a server that advertises nothing is assumed to use. -/
def default : Casemapping := rfc1459

/-- Read the value of a `CASEMAPPING` token. -/
def parse (token : Str) : Casemapping :=
  if token = "ascii" then ascii
  else if token = "rfc1459-strict" then rfc1459Strict
  else rfc1459

/-- Fold one character. -/
def foldChar (mapping : Casemapping) (c : Char) : Char :=
  if 'A' ≤ c ∧ c ≤ 'Z' then c.toLower
  else if (c = '[' ∨ c = ']' ∨ c = '\\') ∧ mapping ≠ ascii then
    if c = '[' then '{' else if c = ']' then '}' else '|'
  else if c = '~' ∧ mapping = rfc1459 then '^'
  else c

/-- Fold a whole name into a key that can be compared. -/
def fold (mapping : Casemapping) (name : Str) : CaseFolded := ⟨name.map mapping.foldChar⟩

/-- Whether two names are the same identity under this mapping. -/
def eq (mapping : Casemapping) : Str → Str → Bool
  | [], [] => true
  | x :: a, y :: b => mapping.foldChar x == mapping.foldChar y && mapping.eq a b
  | _, _ => false

/-- Comparing character by character is comparing the keys. -/
theorem eq_iff_fold (mapping : Casemapping) (a b : Str) :
    mapping.eq a b = true ↔ mapping.fold a = mapping.fold b := by
  induction a generalizing b with
  | nil => cases b <;> simp [eq, fold]
  | cons x a ih =>
      cases b with
      | nil => simp [eq, fold]
      | cons y b =>
          have h := ih b
          simp only [fold, CaseFolded.mk.injEq] at h
          simp [eq, fold, h]

@[simp] theorem eq_self (mapping : Casemapping) (a : Str) : mapping.eq a a = true :=
  (eq_iff_fold mapping a a).mpr rfl

end Casemapping

end ObbyClient

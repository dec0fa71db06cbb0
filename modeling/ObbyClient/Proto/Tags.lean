import ObbyClient.Lib.Text

/-!
# Message tags and their escaping

The tag section of a line: `key=value` pairs in wire order, the value escaped so that it holds no
space, semicolon or line break.  A tag whose value is empty on the wire is a tag with no value.

* `Tags.parse`, `Tags.display` — reading and writing the section;
* `unescape_escaped` — escaping loses nothing, whatever the value holds.
-/

namespace ObbyClient

/-- One message tag. -/
structure Tag where
  /-- The tag name, with its leading `+` and vendor prefix. -/
  key : Str
  /-- The unescaped value. -/
  value : Option Str
  deriving DecidableEq

/-- A tag that carries a value. -/
def Tag.new (key value : Str) : Tag := ⟨key, some value⟩

/-- A tag that is only present. -/
def Tag.flag (key : Str) : Tag := ⟨key, none⟩

/-- The tags of a message, in the order they arrived. -/
abbrev Tags := List Tag

/-! ### Escaping -/

/-- The character an escaped one stands for: those without an escape of their own are themselves. -/
def unescapeChar (c : Char) : Char :=
  if c = ':' then ';'
  else if c = 's' then ' '
  else if c = 'r' then '\r'
  else if c = 'n' then '\n'
  else c

/-- Undo the escaping a tag value carries on the wire. -/
def unescape : Str → Str
  | [] => []
  | ['\\'] => []
  | '\\' :: c :: cs => unescapeChar c :: unescape cs
  | c :: cs => c :: unescape cs

/-- One character of a tag value as it is written. -/
def escapedChar (c : Char) : Str :=
  if c = ';' then ['\\', ':']
  else if c = ' ' then ['\\', 's']
  else if c = '\\' then ['\\', '\\']
  else if c = '\r' then ['\\', 'r']
  else if c = '\n' then ['\\', 'n']
  else [c]

/-- A tag value as it is written. -/
def escaped (value : Str) : Str := value.flatMap escapedChar

@[simp] theorem escaped_nil : escaped [] = [] := rfl

theorem escaped_cons (c : Char) (s : Str) : escaped (c :: s) = escapedChar c ++ escaped s := rfl

theorem unescape_cons_ne {c : Char} (h : c ≠ '\\') (s : Str) :
    unescape (c :: s) = c :: unescape s := by
  cases s <;> simp [unescape, h]

theorem unescape_escapedChar (c : Char) (s : Str) :
    unescape (escapedChar c ++ s) = c :: unescape s := by
  unfold escapedChar
  split
  · rename_i h; subst h; rfl
  split
  · rename_i h; subst h; rfl
  split
  · rename_i h; subst h; rfl
  split
  · rename_i h; subst h; rfl
  split
  · rename_i h; subst h; rfl
  · rename_i h _ _
    exact unescape_cons_ne h s

/-- **Escaping loses nothing.** -/
theorem unescape_escaped (s : Str) : unescape (escaped s) = s := by
  induction s with
  | nil => rfl
  | cons c cs ih => rw [escaped_cons, unescape_escapedChar, ih]

theorem escapedChar_ne_nil (c : Char) : escapedChar c ≠ [] := by
  unfold escapedChar
  repeat' split
  all_goals simp

theorem escaped_eq_nil {s : Str} : escaped s = [] ↔ s = [] := by
  cases s with
  | nil => simp
  | cons c cs => simp [escaped_cons, escapedChar_ne_nil]

/-- What an escaped value never holds: a semicolon, a space or a line break. -/
theorem mem_escaped {s : Str} {c : Char} (h : c ∈ escaped s) :
    c ≠ ';' ∧ c ≠ ' ' ∧ c ≠ '\r' ∧ c ≠ '\n' := by
  rw [escaped, List.mem_flatMap] at h
  obtain ⟨d, -, hd⟩ := h
  unfold escapedChar at hd
  split at hd
  · rcases List.mem_pair.mp hd with rfl | rfl <;> decide
  split at hd
  · rcases List.mem_pair.mp hd with rfl | rfl <;> decide
  split at hd
  · rcases List.mem_pair.mp hd with rfl | rfl <;> decide
  split at hd
  · rcases List.mem_pair.mp hd with rfl | rfl <;> decide
  split at hd
  · rcases List.mem_pair.mp hd with rfl | rfl <;> decide
  · rw [List.mem_singleton] at hd
    subst hd
    exact ⟨‹_›, ‹_›, ‹_›, ‹_›⟩

/-! ### Reading -/

/-- The name in front of the first `=`. -/
def keyOf (part : Str) : Str := ((splitOnce '=' part).map Prod.fst).getD part

/-- One part of the tag section. -/
def Tag.parse (part : Str) : Tag :=
  match splitOnce '=' part with
  | none => .flag (keyOf part)
  | some (_, []) => .flag (keyOf part)
  | some (key, value) => .new key (unescape value)

/-- Read the tag section, without its leading `@`. -/
def Tags.parse (raw : Str) : Tags := ((raw.splitOn ';').filter (· ≠ [])).map Tag.parse

/-! ### Looking up and changing -/

/-- The value of the last tag with this key. -/
def Tags.get (tags : Tags) (key : Str) : Option Str :=
  (tags.reverse.find? fun tag => tag.key == key).bind Tag.value

/-- True when a tag with this key is present. -/
def Tags.contains (tags : Tags) (key : Str) : Bool := tags.any fun tag => tag.key == key

/-- Add a tag, replacing the first one with the same key. -/
def Tags.set : Tags → Tag → Tags
  | [], tag => [tag]
  | existing :: rest, tag =>
      if existing.key = tag.key then tag :: rest else existing :: Tags.set rest tag

/-! ### Writing -/

/-- One tag as it is written. -/
def Tag.display (tag : Tag) : Str :=
  match tag.value with
  | none => tag.key
  | some value => tag.key ++ '=' :: escaped value

/-- The tag section as it is written. -/
def Tags.display (tags : Tags) : Str := List.intercalate [';'] (tags.map Tag.display)

end ObbyClient

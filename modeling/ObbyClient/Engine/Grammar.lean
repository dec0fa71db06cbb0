import ObbyClient.Engine.Scan
import ObbyClient.Engine.Voice

/-!
# What the JSON reader takes for JSON

Both directions between the reader and the grammar, each by induction on the reader's fuel with one
step lemma for values, one for items and one for fields.

* `Json.sound` — what the reader takes from a strict text is what the grammar says;
* `Json.agrees` — what the grammar has, the reader reads just as far, and if it gives the same value
  then the text is strict;
* `Json.accepts_iff` — so an accepted text is JSON for its value exactly where it is strict.
-/

namespace ObbyClient

open Rfc8259

namespace Json

/-! ### Values, from the reader to the grammar -/

/-- The values that are one word. -/
def literals : List (Str × Json) := [("null", null), ("true", bool true), ("false", bool false)]

/-- What a value that was read turns out to be, without the white space in front of it. -/
inductive Read (fuel : ℕ) : Str → Json → Str → Prop
  | literal {word rest : Str} {v : Json} (h : (word, v) ∈ literals) :
      Read fuel (word ++ rest) v rest
  | number {c : Char} {text rest : Str} {v : Json} (hc : c = '-' ∨ isDigit c = true)
      (h : parseNumber (c :: text) = some (v, rest)) : Read fuel (c :: text) v rest
  | str {text s rest : Str} (h : parseStringBody (text.length + 1) text = some (s, rest)) :
      Read fuel ('"' :: text) (str s) rest
  | emptyArray {text rest : Str} (h : skipWs text = ']' :: rest) :
      Read fuel ('[' :: text) (array []) rest
  | array {text rest : Str} {items : List Json} (h : parseItems fuel text = some (items, rest)) :
      Read fuel ('[' :: text) (array items) rest
  | emptyObject {text rest : Str} (h : skipWs text = '}' :: rest) :
      Read fuel ('{' :: text) (object []) rest
  | object {text rest : Str} {fields : List (Str × Json)}
      (h : parseFields fuel text = some (fields, rest)) :
        Read fuel ('{' :: text) (object fields) rest

theorem parseLiteral_eq_some {word text rest : Str} {value v : Json}
    (h : parseLiteral word value text = some (v, rest)) : text = word ++ rest ∧ v = value := by
  unfold parseLiteral at h
  by_cases hprefix : word.isPrefixOf text = true
  · rw [if_pos hprefix] at h
    obtain ⟨rfl, rfl⟩ := Prod.mk.inj (Option.some.inj h)
    obtain ⟨rest, rfl⟩ := List.isPrefixOf_iff_prefix.mp hprefix
    rw [List.drop_left]
    exact ⟨rfl, rfl⟩
  · rw [if_neg hprefix] at h
    cases h

theorem read_literal {fuel : ℕ} {word text rest : Str} {value v : Json}
    (hmem : (word, value) ∈ literals) (h : parseLiteral word value text = some (v, rest)) :
    Read fuel text v rest := by
  obtain ⟨rfl, rfl⟩ := parseLiteral_eq_some h
  exact .literal hmem

/-- **What a value turns out to be.** -/
theorem read_of_parseValue {fuel : ℕ} {text rest : Str} {v : Json}
    (h : parseValue (fuel + 1) text = some (v, rest)) : Read fuel (skipWs text) v rest := by
  rw [parseValue] at h
  split at h
  · rename_i tail heq
    rw [heq]
    obtain ⟨⟨s, more⟩, hread, hpair⟩ := Option.map_eq_some_iff.mp h
    obtain ⟨rfl, rfl⟩ := Prod.mk.inj hpair
    exact .str hread
  · rename_i tail heq
    rw [heq]
    split at h
    · rename_i more hclose
      obtain ⟨rfl, rfl⟩ := Prod.mk.inj (Option.some.inj h)
      exact .emptyObject hclose
    · obtain ⟨⟨fields, more⟩, hread, hpair⟩ := Option.map_eq_some_iff.mp h
      obtain ⟨rfl, rfl⟩ := Prod.mk.inj hpair
      rw [parseFields_skipWs] at hread
      exact .object hread
  · rename_i tail heq
    rw [heq]
    split at h
    · rename_i more hclose
      obtain ⟨rfl, rfl⟩ := Prod.mk.inj (Option.some.inj h)
      exact .emptyArray hclose
    · obtain ⟨⟨items, more⟩, hread, hpair⟩ := Option.map_eq_some_iff.mp h
      obtain ⟨rfl, rfl⟩ := Prod.mk.inj hpair
      rw [parseItems_skipWs] at hread
      exact .array hread
  · rename_i tail heq
    rw [heq]
    exact read_literal (List.mem_cons_of_mem _ List.mem_cons_self) h
  · rename_i tail heq
    rw [heq]
    exact read_literal (List.mem_cons_of_mem _ (List.mem_cons_of_mem _ List.mem_cons_self)) h
  · rename_i tail heq
    rw [heq]
    exact read_literal List.mem_cons_self h
  · rename_i c tail _ _ _ _ _ _ heq
    rw [heq]
    by_cases hc : c = '-' ∨ isDigit c = true
    · rw [if_pos hc] at h
      exact .number hc h
    · rw [if_neg hc] at h
      cases h
  · cases h

/-- What an item turns out to be, and the items behind it. -/
theorem parseItems_eq_some {fuel : ℕ} {text rest : Str} {items : List Json}
    (h : parseItems (fuel + 1) text = some (items, rest)) :
    ∃ item more, parseValue fuel text = some (item, more) ∧
      ((skipWs more = ']' :: rest ∧ items = [item]) ∨
        ∃ tail others, skipWs more = ',' :: tail ∧ parseItems fuel tail = some (others, rest) ∧
          items = item :: others) := by
  rw [parseItems] at h
  obtain ⟨⟨item, more⟩, hitem, h⟩ := Option.bind_eq_some_iff.mp h
  refine ⟨item, more, hitem, ?_⟩
  dsimp only at h
  split at h
  · rename_i tail heq
    obtain ⟨⟨others, last⟩, hothers, h⟩ := Option.bind_eq_some_iff.mp h
    obtain ⟨rfl, rfl⟩ := Prod.mk.inj (Option.some.inj h)
    rw [parseItems_skipWs] at hothers
    exact .inr ⟨tail, others, heq, hothers, rfl⟩
  · rename_i tail heq
    obtain ⟨rfl, rfl⟩ := Prod.mk.inj (Option.some.inj h)
    exact .inl ⟨heq, rfl⟩
  · cases h

/-- What a field turns out to be, and the fields behind it. -/
theorem parseFields_eq_some {fuel : ℕ} {text rest : Str} {fields : List (Str × Json)}
    (h : parseFields (fuel + 1) text = some (fields, rest)) :
    ∃ name key between tail value more, skipWs text = '"' :: name ∧
      parseStringBody (name.length + 1) name = some (key, between) ∧
      skipWs between = ':' :: tail ∧ parseValue fuel tail = some (value, more) ∧
      ((skipWs more = '}' :: rest ∧ fields = [(key, value)]) ∨
        ∃ next others, skipWs more = ',' :: next ∧ parseFields fuel next = some (others, rest) ∧
          fields = (key, value) :: others) := by
  rw [parseFields] at h
  obtain ⟨⟨key, between⟩, hkey, h⟩ := Option.bind_eq_some_iff.mp h
  unfold parseString at hkey
  split at hkey
  · rename_i name hname
    dsimp only at h
    split at h
    · rename_i tail hcolon
      obtain ⟨⟨value, more⟩, hvalue, h⟩ := Option.bind_eq_some_iff.mp h
      refine ⟨name, key, between, tail, value, more, hname, hkey, hcolon, hvalue, ?_⟩
      dsimp only at h
      split at h
      · rename_i next heq
        obtain ⟨⟨others, last⟩, hothers, h⟩ := Option.bind_eq_some_iff.mp h
        obtain ⟨rfl, rfl⟩ := Prod.mk.inj (Option.some.inj h)
        exact .inr ⟨next, others, heq, hothers, rfl⟩
      · rename_i next heq
        obtain ⟨rfl, rfl⟩ := Prod.mk.inj (Option.some.inj h)
        exact .inl ⟨heq, rfl⟩
      · cases h
    · cases h
  · cases hkey

/-- A text that scans, of which the reader takes a value, has one there by the grammar. -/
def SoundValues (fuel : ℕ) : Prop :=
  ∀ (text rest : Str) (v : Json), parseValue fuel text = some (v, rest) →
    strict false 0 text = true → ∃ w t value, text = w ++ (t ++ rest) ∧ Ws w ∧ Spells t value ∧
      ofValue value = v ∧ strict false 0 rest = true

def SoundItems (fuel : ℕ) : Prop :=
  ∀ (text rest : Str) (items : List Json), parseItems fuel text = some (items, rest) →
    strict false 0 text = true → ∃ body values, text = body ++ ']' :: rest ∧
      SpellsItems body values ∧ ofItems values = items ∧ strict false 0 rest = true

def SoundFields (fuel : ℕ) : Prop :=
  ∀ (text rest : Str) (fields : List (Str × Json)), parseFields fuel text = some (fields, rest) →
    strict false 0 text = true → ∃ body values, text = body ++ '}' :: rest ∧
      SpellsFields body values ∧ ofFields values = fields ∧ strict false 0 rest = true

theorem strict_literal {word : Str} {v : Json} (h : (word, v) ∈ literals) (rest : Str) :
    strict false 0 (word ++ rest) = strict false 0 rest := by
  simp only [literals, List.mem_cons, Prod.mk.injEq, List.not_mem_nil, or_false] at h
  rcases h with ⟨rfl, -⟩ | ⟨rfl, -⟩ | ⟨rfl, -⟩ <;> rfl

theorem spells_literal {word : Str} {v : Json} (h : (word, v) ∈ literals) :
    ∃ value, Spells word value ∧ ofValue value = v := by
  simp only [literals, List.mem_cons, Prod.mk.injEq, List.not_mem_nil, or_false] at h
  rcases h with ⟨rfl, rfl⟩ | ⟨rfl, rfl⟩ | ⟨rfl, rfl⟩
  · exact ⟨_, .null, rfl⟩
  · exact ⟨_, .true, rfl⟩
  · exact ⟨_, .false, rfl⟩

/-- A closing character behind white space. -/
theorem exists_of_skipWs {c : Char} {text rest : Str} (h : skipWs text = c :: rest) :
    ∃ w, Ws w ∧ text = w ++ c :: rest := by
  obtain ⟨w, hw, htext⟩ := exists_skipWs text
  rw [h] at htext
  exact ⟨w, hw, htext⟩

/-- **A value that was read**, in a text that scans. -/
theorem spells_of_read {fuel : ℕ} (hitems : SoundItems fuel) (hfields : SoundFields fuel)
    {text rest : Str} {v : Json} (h : Read fuel text v rest)
    (hstrict : strict false 0 text = true) :
    ∃ t value, text = t ++ rest ∧ Spells t value ∧ ofValue value = v ∧
      strict false 0 rest = true := by
  cases h with
  | literal hmem =>
      obtain ⟨value, hspells, hvalue⟩ := spells_literal hmem
      rw [strict_literal hmem] at hstrict
      exact ⟨_, value, rfl, hspells, hvalue, hstrict⟩
  | @number c text rest v hc hread =>
      obtain ⟨hrest, rfl⟩ := parseNumber_eq_some hread
      rw [strict_number hc, Bool.and_eq_true, hrest] at hstrict
      obtain ⟨hformed, hinteger⟩ := of_decide_eq_true hstrict.1
      have htext := Numeral.readNumeral_text (c :: text)
      rw [hrest] at htext
      exact ⟨_, _, htext.symm, .num hformed,
        congrArg num ((Numeral.integerPart_value _).trans hinteger), hstrict.2⟩
  | str hread =>
      obtain ⟨body, rfl, hbody, hrest⟩ := spellsString_of_parse hread hstrict
      refine ⟨'"' :: (body ++ ['"']), _, ?_, .str hbody, rfl, hrest⟩
      rw [List.cons_append, List.append_assoc, List.singleton_append]
  | emptyArray hclose =>
      obtain ⟨w, hw, rfl⟩ := exists_of_skipWs hclose
      refine ⟨'[' :: (w ++ [']']), _, ?_, .emptyArray hw, rfl, ?_⟩
      · rw [List.cons_append, List.append_assoc, List.singleton_append]
      · exact (strict_ws hw (']' :: rest)).symm.trans hstrict
  | array hread =>
      obtain ⟨body, values, rfl, hbody, rfl, hrest⟩ := hitems _ _ _ hread hstrict
      refine ⟨'[' :: (body ++ [']']), _, ?_, .array hbody, rfl, hrest⟩
      rw [List.cons_append, List.append_assoc, List.singleton_append]
  | emptyObject hclose =>
      obtain ⟨w, hw, rfl⟩ := exists_of_skipWs hclose
      refine ⟨'{' :: (w ++ ['}']), _, ?_, .emptyObject hw, rfl, ?_⟩
      · rw [List.cons_append, List.append_assoc, List.singleton_append]
      · exact (strict_ws hw ('}' :: rest)).symm.trans hstrict
  | object hread =>
      obtain ⟨body, values, rfl, hbody, rfl, hrest⟩ := hfields _ _ _ hread hstrict
      refine ⟨'{' :: (body ++ ['}']), _, ?_, .object hbody, rfl, hrest⟩
      rw [List.cons_append, List.append_assoc, List.singleton_append]

theorem SoundValues.succ {fuel : ℕ} (hitems : SoundItems fuel) (hfields : SoundFields fuel) :
    SoundValues (fuel + 1) := by
  intro text rest v h hstrict
  obtain ⟨w, hw, htext⟩ := exists_skipWs text
  rw [← strict_skipWs] at hstrict
  obtain ⟨t, value, hskip, hspells, hvalue, hrest⟩ :=
    spells_of_read hitems hfields (read_of_parseValue h) hstrict
  rw [hskip] at htext
  exact ⟨w, t, value, htext, hw, hspells, hvalue, hrest⟩

/-- **The items of an array**, one after the other. -/
theorem SoundItems.succ {fuel : ℕ} (hvalues : SoundValues fuel) (hitems : SoundItems fuel) :
    SoundItems (fuel + 1) := by
  intro text rest items h hstrict
  obtain ⟨item, more, hitem, htail⟩ := parseItems_eq_some h
  obtain ⟨w, t, value, rfl, hw, hspells, rfl, hmore⟩ := hvalues _ _ _ hitem hstrict
  rcases htail with ⟨hclose, rfl⟩ | ⟨tail, others, hcomma, hothers, rfl⟩
  · obtain ⟨w', hw', rfl⟩ := exists_of_skipWs hclose
    rw [strict_ws hw'] at hmore
    refine ⟨w ++ (t ++ w'), [value], ?_, .last hw hspells hw', rfl, hmore⟩
    simp only [List.append_assoc]
  · obtain ⟨w', hw', rfl⟩ := exists_of_skipWs hcomma
    rw [strict_ws hw'] at hmore
    obtain ⟨body, values, rfl, hbody, rfl, hrest⟩ := hitems _ _ _ hothers hmore
    refine ⟨w ++ (t ++ (w' ++ ',' :: body)), value :: values, ?_, .cons hw hspells hw' hbody, rfl,
      hrest⟩
    simp only [List.append_assoc, List.cons_append]

/-- **The fields of an object**, one after the other. -/
theorem SoundFields.succ {fuel : ℕ} (hvalues : SoundValues fuel) (hfields : SoundFields fuel) :
    SoundFields (fuel + 1) := by
  intro text rest fields h hstrict
  obtain ⟨name, key, between, tail, value, more, hquote, hname, hcolon, hvalue, htail⟩ :=
    parseFields_eq_some h
  obtain ⟨w, hw, rfl⟩ := exists_of_skipWs hquote
  rw [strict_ws hw] at hstrict
  obtain ⟨body, rfl, hbody, hbetween⟩ := spellsString_of_parse hname hstrict
  obtain ⟨w₁, hw₁, rfl⟩ := exists_of_skipWs hcolon
  rw [strict_ws hw₁] at hbetween
  obtain ⟨w₂, t, v, rfl, hw₂, hspells, rfl, hmore⟩ := hvalues _ _ _ hvalue hbetween
  rcases htail with ⟨hclose, rfl⟩ | ⟨next, others, hcomma, hothers, rfl⟩
  · obtain ⟨w₃, hw₃, rfl⟩ := exists_of_skipWs hclose
    rw [strict_ws hw₃] at hmore
    refine ⟨_, [(key, v)], ?_, .last hw hbody hw₁ hw₂ hspells hw₃, rfl, hmore⟩
    simp only [List.append_assoc, List.cons_append]
  · obtain ⟨w₃, hw₃, rfl⟩ := exists_of_skipWs hcomma
    rw [strict_ws hw₃] at hmore
    obtain ⟨last, values, rfl, hlast, rfl, hrest⟩ := hfields _ _ _ hothers hmore
    refine ⟨_, (key, v) :: values, ?_, .cons hw hbody hw₁ hw₂ hspells hw₃ hlast, rfl, hrest⟩
    simp only [List.append_assoc, List.cons_append]

theorem sound (fuel : ℕ) : SoundValues fuel ∧ SoundItems fuel ∧ SoundFields fuel := by
  induction fuel with
  | zero => exact ⟨nofun, nofun, nofun⟩
  | succ fuel ih =>
      obtain ⟨hvalues, hitems, hfields⟩ := ih
      exact ⟨.succ hitems hfields, .succ hvalues hitems, .succ hvalues hfields⟩

/-! ### Values, from the grammar to the reader -/

/-- What every value of the grammar begins with. -/
theorem spells_eq_cons {t : Str} {value : Value} (h : Spells t value) :
    ∃ c text, t = c :: text ∧ isWs c = false ∧ c ≠ ']' := by
  cases h with
  | null => exact ⟨'n', _, rfl, by decide, by decide⟩
  | true => exact ⟨'t', _, rfl, by decide, by decide⟩
  | false => exact ⟨'f', _, rfl, by decide, by decide⟩
  | num hformed =>
      obtain ⟨c, text, htext, hfirst⟩ := hformed.text_eq_cons
      rw [← isDigit_eq] at hfirst
      refine ⟨c, text, htext, ?_⟩
      rcases hfirst with rfl | hdigit
      · decide
      · refine ⟨isWs_of_isDigit hdigit, ?_⟩
        rintro rfl
        exact absurd hdigit (by decide)
  | str _ => exact ⟨'"', _, rfl, by decide, by decide⟩
  | emptyArray _ => exact ⟨'[', _, rfl, by decide, by decide⟩
  | array _ => exact ⟨'[', _, rfl, by decide, by decide⟩
  | emptyObject _ => exact ⟨'{', _, rfl, by decide, by decide⟩
  | object _ => exact ⟨'{', _, rfl, by decide, by decide⟩

/-- The reader sees the value behind the white space, and no bracket. -/
theorem head_skipWs_ne {w t : Str} {value : Value} (hw : Ws w) (h : Spells t value) (rest : Str) :
    (skipWs (w ++ (t ++ rest))).head? ≠ some ']' := by
  obtain ⟨c, text, rfl, hws, hne⟩ := spells_eq_cons h
  rw [skipWs_append hw, List.cons_append, skipWs_cons hws]
  exact fun hsome => hne (Option.some.inj hsome)

theorem head_skipWs_items {body : Str} {items : List Value} (h : SpellsItems body items)
    (rest : Str) : (skipWs (body ++ rest)).head? ≠ some ']' := by
  cases h with
  | last hw hitem _ =>
      rw [List.append_assoc, List.append_assoc]
      exact head_skipWs_ne hw hitem _
  | cons hw hitem _ _ =>
      rw [List.append_assoc, List.append_assoc]
      exact head_skipWs_ne hw hitem _

theorem head_skipWs_fields {body : Str} {fields : List (Str × Value)} (h : SpellsFields body fields)
    (rest : Str) : (skipWs (body ++ rest)).head? ≠ some '}' := by
  have hquote : ∀ {w : Str} (text : Str), Ws w → (skipWs (w ++ '"' :: text)).head? ≠ some '}' := by
    intro w text hw
    rw [skipWs_append hw, skipWs_cons (by decide)]
    exact fun hsome => absurd (Option.some.inj hsome) (by decide)
  cases h with
  | last hw _ _ _ _ _ =>
      rw [List.append_assoc, List.cons_append]
      exact hquote _ hw
  | cons hw _ _ _ _ _ _ =>
      rw [List.append_assoc, List.cons_append]
      exact hquote _ hw

/-! ### What the reader does at each opening character -/

theorem parseValue_quote (fuel : ℕ) (text : Str) :
    parseValue (fuel + 1) ('"' :: text) =
      (parseStringBody (text.length + 1) text).map fun p => (str p.1, p.2) := by
  rw [parseValue]
  rfl

theorem parseValue_emptyArray (fuel : ℕ) {text rest : Str} (h : skipWs text = ']' :: rest) :
    parseValue (fuel + 1) ('[' :: text) = some (array [], rest) := by
  have hopen : isWs '[' = false := by decide
  unfold parseValue
  simp only [skipWs_cons hopen, h]

theorem parseValue_array (fuel : ℕ) {text : Str} (h : (skipWs text).head? ≠ some ']') :
    parseValue (fuel + 1) ('[' :: text) =
      (parseItems fuel text).map fun p => (array p.1, p.2) := by
  have hopen : isWs '[' = false := by decide
  rw [← parseItems_skipWs]
  unfold parseValue
  simp only [skipWs_cons hopen]
  split
  · rename_i rest heq
    rw [heq] at h
    exact absurd rfl h
  · rfl

theorem parseValue_emptyObject (fuel : ℕ) {text rest : Str} (h : skipWs text = '}' :: rest) :
    parseValue (fuel + 1) ('{' :: text) = some (object [], rest) := by
  have hopen : isWs '{' = false := by decide
  unfold parseValue
  simp only [skipWs_cons hopen, h]

theorem parseValue_object (fuel : ℕ) {text : Str} (h : (skipWs text).head? ≠ some '}') :
    parseValue (fuel + 1) ('{' :: text) =
      (parseFields fuel text).map fun p => (object p.1, p.2) := by
  have hopen : isWs '{' = false := by decide
  rw [← parseFields_skipWs]
  unfold parseValue
  simp only [skipWs_cons hopen]
  split
  · rename_i rest heq
    rw [heq] at h
    exact absurd rfl h
  · rfl

/-- What the grammar has, the reader reads as far as the grammar does, if it reads it at all.  Where
the value is the one that the grammar says, the text scans. -/
def AgreesValues (fuel : ℕ) : Prop :=
  ∀ (t : Str) (value : Value) (rest : Str) (v : Json) (rest' : Str), Spells t value →
    Numeral.Stops rest → parseValue fuel (t ++ rest) = some (v, rest') →
      rest' = rest ∧ (ofValue value = v → strict false 0 (t ++ rest) = strict false 0 rest)

def AgreesItems (fuel : ℕ) : Prop :=
  ∀ (body : Str) (values : List Value) (rest : Str) (items : List Json) (rest' : Str),
    SpellsItems body values → parseItems fuel (body ++ ']' :: rest) = some (items, rest') →
      rest' = rest ∧
        (ofItems values = items → strict false 0 (body ++ ']' :: rest) = strict false 0 rest)

def AgreesFields (fuel : ℕ) : Prop :=
  ∀ (body : Str) (values : List (Str × Value)) (rest : Str) (fields : List (Str × Json))
    (rest' : Str), SpellsFields body values →
      parseFields fuel (body ++ '}' :: rest) = some (fields, rest') → rest' = rest ∧
        (ofFields values = fields → strict false 0 (body ++ '}' :: rest) = strict false 0 rest)

theorem agrees_literal {fuel : ℕ} {word rest rest' : Str} {v v' : Json}
    (hmem : (word, v) ∈ literals) (h : parseValue (fuel + 1) (word ++ rest) = some (v', rest')) :
    rest' = rest ∧ strict false 0 (word ++ rest) = strict false 0 rest := by
  have hread : parseValue (fuel + 1) (word ++ rest) = some (v, rest) := by
    simp only [literals, List.mem_cons, Prod.mk.injEq, List.not_mem_nil, or_false] at hmem
    rcases hmem with ⟨rfl, rfl⟩ | ⟨rfl, rfl⟩ | ⟨rfl, rfl⟩
    · rw [parseValue]
      exact parseLiteral_append "null" null rest
    · rw [parseValue]
      exact parseLiteral_append "true" (bool true) rest
    · rw [parseValue]
      exact parseLiteral_append "false" (bool false) rest
  obtain ⟨-, hrest⟩ := Prod.mk.inj (Option.some.inj (h.symm.trans hread))
  exact ⟨hrest, strict_literal hmem rest⟩

theorem AgreesValues.succ {fuel : ℕ} (hitems : AgreesItems fuel) (hfields : AgreesFields fuel) :
    AgreesValues (fuel + 1) := by
  intro t value rest v rest' hspells hstops hread
  cases hspells with
  | null =>
      obtain ⟨hrest, hstrict⟩ := agrees_literal List.mem_cons_self hread
      exact ⟨hrest, fun _ => hstrict⟩
  | true =>
      obtain ⟨hrest, hstrict⟩ := agrees_literal (List.mem_cons_of_mem _ List.mem_cons_self) hread
      exact ⟨hrest, fun _ => hstrict⟩
  | false =>
      have hmem : (("false" : Str), bool false) ∈ literals :=
        List.mem_cons_of_mem _ (List.mem_cons_of_mem _ List.mem_cons_self)
      obtain ⟨hrest, hstrict⟩ := agrees_literal hmem hread
      exact ⟨hrest, fun _ => hstrict⟩
  | @num n hformed =>
      obtain ⟨c, text, hcons, hfirst⟩ := hformed.text_eq_cons
      rw [← isDigit_eq] at hfirst
      have hnumeral := Numeral.readNumeral_append hformed hstops
      rw [hcons, List.cons_append] at hread hnumeral ⊢
      rw [parseValue_number hfirst] at hread
      obtain ⟨hrest, rfl⟩ := parseNumber_eq_some hread
      rw [hnumeral] at hrest
      refine ⟨hrest.symm, ?_⟩
      intro hvalue
      rw [hnumeral] at hvalue
      have hstrict : strictNumeral n = true :=
        decide_eq_true ⟨hformed, n.integerPart_value.symm.trans (Json.num.inj hvalue)⟩
      rw [strict_number hfirst, hnumeral, hstrict, Bool.true_and]
  | str hbody =>
      rw [List.cons_append, List.append_assoc, List.singleton_append] at hread ⊢
      rw [parseValue_quote, Option.map_eq_some_iff] at hread
      obtain ⟨⟨s, last⟩, hread, hpair⟩ := hread
      obtain ⟨-, rfl⟩ := Prod.mk.inj hpair
      obtain ⟨hrest, hstrict⟩ := agrees_string hbody hread
      exact ⟨hrest, fun _ => hstrict⟩
  | emptyArray hw =>
      rw [List.cons_append, List.append_assoc, List.singleton_append] at hread ⊢
      have hclose : skipWs (_ ++ ']' :: rest) = ']' :: rest :=
        (skipWs_append hw _).trans (skipWs_cons (by decide) rest)
      rw [parseValue_emptyArray fuel hclose] at hread
      obtain ⟨-, rfl⟩ := Prod.mk.inj (Option.some.inj hread)
      exact ⟨rfl, fun _ => strict_ws hw (']' :: rest)⟩
  | array hbody =>
      rw [List.cons_append, List.append_assoc, List.singleton_append] at hread ⊢
      rw [parseValue_array fuel (head_skipWs_items hbody _), Option.map_eq_some_iff] at hread
      obtain ⟨⟨items, last⟩, hread, hpair⟩ := hread
      obtain ⟨rfl, rfl⟩ := Prod.mk.inj hpair
      obtain ⟨hrest, hstrict⟩ := hitems _ _ _ _ _ hbody hread
      exact ⟨hrest, fun hvalue => hstrict (Json.array.inj hvalue)⟩
  | emptyObject hw =>
      rw [List.cons_append, List.append_assoc, List.singleton_append] at hread ⊢
      have hclose : skipWs (_ ++ '}' :: rest) = '}' :: rest :=
        (skipWs_append hw _).trans (skipWs_cons (by decide) rest)
      rw [parseValue_emptyObject fuel hclose] at hread
      obtain ⟨-, rfl⟩ := Prod.mk.inj (Option.some.inj hread)
      exact ⟨rfl, fun _ => strict_ws hw ('}' :: rest)⟩
  | object hbody =>
      rw [List.cons_append, List.append_assoc, List.singleton_append] at hread ⊢
      rw [parseValue_object fuel (head_skipWs_fields hbody _), Option.map_eq_some_iff] at hread
      obtain ⟨⟨fields, last⟩, hread, hpair⟩ := hread
      obtain ⟨rfl, rfl⟩ := Prod.mk.inj hpair
      obtain ⟨hrest, hstrict⟩ := hfields _ _ _ _ _ hbody hread
      exact ⟨hrest, fun hvalue => hstrict (Json.object.inj hvalue)⟩

/-- White space is no part of a number. -/
theorem stops_append {w rest : Str} (hw : Ws w) (hrest : Numeral.Stops rest) :
    Numeral.Stops (w ++ rest) := by
  cases w with
  | nil => exact hrest
  | cons d w =>
      refine Numeral.stops_cons ?_ _
      have hd : Rfc8259.isWs d = true := List.all_eq_true.mp hw d List.mem_cons_self
      unfold Rfc8259.isWs at hd
      simp only [Bool.or_eq_true, beq_iff_eq] at hd
      rcases hd with ((rfl | rfl) | rfl) | rfl <;> decide

/-- A value with its white space, in front of a character that ends it. -/
theorem agrees_value {fuel : ℕ} (hvalues : AgreesValues fuel) {w t w' : Str} {value : Value}
    (hw : Ws w) (hspells : Spells t value) (hw' : Ws w') {c : Char}
    (hc : isWs c = false ∧ c.isDigit = false ∧ c ≠ '.' ∧ c ≠ 'e' ∧ c ≠ 'E') {tail more : Str}
    {v : Json} (h : parseValue fuel (w ++ (t ++ (w' ++ c :: tail))) = some (v, more)) :
    skipWs more = c :: tail ∧ (ofValue value = v →
      strict false 0 (w ++ (t ++ (w' ++ c :: tail))) = strict false 0 (c :: tail)) := by
  rw [parseValue_ws fuel hw] at h
  have hstops : Numeral.Stops (w' ++ c :: tail) := stops_append hw' (Numeral.stops_cons hc.2 tail)
  obtain ⟨rfl, hstrict⟩ := hvalues t value _ v more hspells hstops h
  refine ⟨(skipWs_append hw' _).trans (skipWs_cons hc.1 tail), ?_⟩
  intro hvalue
  rw [strict_ws hw, hstrict hvalue, strict_ws hw']

/-- **The items of an array.** -/
theorem AgreesItems.succ {fuel : ℕ} (hvalues : AgreesValues fuel) (hitems : AgreesItems fuel) :
    AgreesItems (fuel + 1) := by
  intro body values rest items rest' hbody hread
  obtain ⟨item, more, hitem, htail⟩ := parseItems_eq_some hread
  cases hbody with
  | last hw hspells hw' =>
      rw [List.append_assoc, List.append_assoc] at hitem ⊢
      obtain ⟨hskip, hstrict⟩ := agrees_value hvalues hw hspells hw' (by decide) hitem
      rw [hskip] at htail
      rcases htail with ⟨hclose, rfl⟩ | ⟨tail, others, hcomma, -, -⟩
      · obtain ⟨-, rfl⟩ := List.cons.inj hclose
        exact ⟨rfl, fun hvalue => hstrict (List.cons.inj hvalue).1⟩
      · exact absurd (List.cons.inj hcomma).1 (by decide)
  | cons hw hspells hw' hbody =>
      rw [List.append_assoc, List.append_assoc, List.append_assoc, List.cons_append] at hitem ⊢
      obtain ⟨hskip, hstrict⟩ := agrees_value hvalues hw hspells hw' (by decide) hitem
      rw [hskip] at htail
      rcases htail with ⟨hclose, -⟩ | ⟨tail, others, hcomma, hothers, rfl⟩
      · exact absurd (List.cons.inj hclose).1 (by decide)
      · obtain ⟨-, rfl⟩ := List.cons.inj hcomma
        obtain ⟨hrest, hbehind⟩ := hitems _ _ _ _ _ hbody hothers
        refine ⟨hrest, ?_⟩
        intro hvalue
        obtain ⟨hfirst, hnext⟩ := List.cons.inj hvalue
        exact (hstrict hfirst).trans (hbehind hnext)

/-- A name with its colon. -/
theorem agrees_name {fuel : ℕ} {w name w₁ key : Str} (hw : Ws w) (hname : SpellsString name key)
    (hw₁ : Ws w₁) {tail name' key' between tail' : Str}
    (hquote : skipWs (w ++ '"' :: (name ++ '"' :: (w₁ ++ ':' :: tail))) = '"' :: name')
    (hread : parseStringBody fuel name' = some (key', between))
    (hcolon : skipWs between = ':' :: tail') :
    tail' = tail ∧ strict false 0 (w ++ '"' :: (name ++ '"' :: (w₁ ++ ':' :: tail))) =
      strict false 0 tail := by
  rw [skipWs_append hw, skipWs_cons (by decide)] at hquote
  obtain ⟨-, rfl⟩ := List.cons.inj hquote
  obtain ⟨rfl, hstrict⟩ := agrees_string hname hread
  rw [skipWs_append hw₁, skipWs_cons (by decide)] at hcolon
  obtain ⟨-, rfl⟩ := List.cons.inj hcolon
  refine ⟨rfl, ?_⟩
  rw [strict_ws hw]
  exact hstrict.trans (strict_ws hw₁ _)

/-- **The fields of an object.** -/
theorem AgreesFields.succ {fuel : ℕ} (hvalues : AgreesValues fuel) (hfields : AgreesFields fuel) :
    AgreesFields (fuel + 1) := by
  intro body values rest fields rest' hbody hread
  obtain ⟨name, key, between, tail, value, more, hquote, hname, hcolon, hvalue, htail⟩ :=
    parseFields_eq_some hread
  cases hbody with
  | last hw hspell hw₁ hw₂ hspells hw₃ =>
      simp only [List.append_assoc, List.cons_append] at hquote ⊢
      obtain ⟨rfl, hscan⟩ := agrees_name hw hspell hw₁ hquote hname hcolon
      obtain ⟨hskip, hstrict⟩ := agrees_value hvalues hw₂ hspells hw₃ (by decide) hvalue
      rw [hskip] at htail
      rcases htail with ⟨hclose, rfl⟩ | ⟨next, others, hcomma, -, -⟩
      · obtain ⟨-, rfl⟩ := List.cons.inj hclose
        refine ⟨rfl, ?_⟩
        intro hheld
        have hfirst := (Prod.mk.inj (List.cons.inj hheld).1).2
        exact hscan.trans (hstrict hfirst)
      · exact absurd (List.cons.inj hcomma).1 (by decide)
  | cons hw hspell hw₁ hw₂ hspells hw₃ hbody =>
      simp only [List.append_assoc, List.cons_append] at hquote ⊢
      obtain ⟨rfl, hscan⟩ := agrees_name hw hspell hw₁ hquote hname hcolon
      obtain ⟨hskip, hstrict⟩ := agrees_value hvalues hw₂ hspells hw₃ (by decide) hvalue
      rw [hskip] at htail
      rcases htail with ⟨hclose, -⟩ | ⟨next, others, hcomma, hothers, rfl⟩
      · exact absurd (List.cons.inj hclose).1 (by decide)
      · obtain ⟨-, rfl⟩ := List.cons.inj hcomma
        obtain ⟨hrest, hbehind⟩ := hfields _ _ _ _ _ hbody hothers
        refine ⟨hrest, ?_⟩
        intro hheld
        obtain ⟨hpair, hnext⟩ := List.cons.inj hheld
        exact (hscan.trans (hstrict (Prod.mk.inj hpair).2)).trans (hbehind hnext)

theorem agrees (fuel : ℕ) : AgreesValues fuel ∧ AgreesItems fuel ∧ AgreesFields fuel := by
  induction fuel with
  | zero =>
      refine ⟨?_, ?_, ?_⟩
      · intro t value rest v rest' _ _ hread
        cases hread
      · intro body values rest items rest' _ hread
        cases hread
      · intro body values rest fields rest' _ hread
        cases hread
  | succ fuel ih =>
      obtain ⟨hvalues, hitems, hfields⟩ := ih
      exact ⟨.succ hitems hfields, .succ hvalues hitems, .succ hvalues hfields⟩

/-! ### Whole texts -/

theorem parse_eq_some {text : Str} {v : Json} (h : parse text = some v) :
    ∃ rest, parseValue (2 * text.length + 2) text = some (v, rest) ∧ Ws rest := by
  unfold parse at h
  obtain ⟨⟨value, rest⟩, hread, h⟩ := Option.bind_eq_some_iff.mp h
  dsimp only at h
  by_cases hend : skipWs rest = []
  · rw [if_pos hend] at h
    obtain rfl := Option.some.inj h
    obtain ⟨w, hw, hrest⟩ := exists_skipWs rest
    rw [hend, List.append_nil] at hrest
    exact ⟨rest, hread, hrest ▸ hw⟩
  · rw [if_neg hend] at h
    cases h

/-- **A text that scans** is JSON for the value that is read from it. -/
theorem denotes_of_strict {text : Str} {v : Json} (h : parse text = some v)
    (hstrict : Strict text) :
    Denotes text v := by
  obtain ⟨rest, hread, hws⟩ := parse_eq_some h
  obtain ⟨w, t, value, htext, hw, hspells, hvalue, -⟩ := (sound _).1 _ _ _ hread hstrict
  exact ⟨value, ⟨w, t, rest, htext, hw, hws, hspells⟩, hvalue⟩

/-- **A text that is JSON** for the value that is read from it scans. -/
theorem strict_of_denotes {text : Str} {v : Json} (h : parse text = some v)
    (hdenotes : Denotes text v) : Strict text := by
  obtain ⟨rest, hread, -⟩ := parse_eq_some h
  obtain ⟨value, ⟨w, t, w', htext, hw, hw', hspells⟩, hvalue⟩ := hdenotes
  have hstops : Numeral.Stops w' := by
    have happend := stops_append hw' Numeral.stops_nil
    rw [List.append_nil] at happend
    exact happend
  generalize 2 * text.length + 2 = fuel at hread
  subst htext
  rw [parseValue_ws fuel hw] at hread
  obtain ⟨-, hscan⟩ := (agrees fuel).1 t value w' v rest hspells hstops hread
  have hend : strict false 0 w' = true := by
    have hws := strict_ws hw' []
    rw [List.append_nil] at hws
    exact hws
  unfold Strict
  rw [strict_ws hw, hscan hvalue, hend]

/-- **What the reader takes for JSON is JSON exactly where it scans**: a text that it accepts is one
that the grammar has, and for the value that it gives, if and only if no token of it slipped
through. A frame is accepted only with its text. -/
theorem accepts_iff (text : Str) :
    (∀ v, parse text = some v → (Denotes text v ↔ Strict text)) ∧
      ∀ signal, Voice.Signal.fromJson text = some signal →
        ∃ v, parse text = some v ∧ (Denotes text v ↔ Strict text) := by
  have hparse : ∀ v, parse text = some v → (Denotes text v ↔ Strict text) :=
    fun _ h => ⟨strict_of_denotes h, denotes_of_strict h⟩
  refine ⟨hparse, ?_⟩
  intro signal h
  obtain ⟨v, hv, -⟩ := Option.bind_eq_some_iff.mp h
  exact ⟨v, hv, hparse v hv⟩

theorem accepts_frame : let text := "\x7b\"type\": \"silent\", \"at\": [-12, 1.50, 2e0]\x7d"
    Voice.Signal.fromJson text = some .silent ∧ Strict text ∧
      ∃ v, parse text = some v ∧ Denotes text v := by
  intro text
  have hframe : Voice.Signal.fromJson text = some .silent := by decide +kernel
  have hstrict : Strict text := by decide +kernel
  obtain ⟨v, hv, hiff⟩ := (accepts_iff text).2 .silent hframe
  exact ⟨hframe, hstrict, v, hv, hiff.mpr hstrict⟩

/-- A frame that is taken with a number that is none, and a text with another number than it has. -/
theorem slips_through :
    (Voice.Signal.fromJson "\x7b\"type\": \"silent\", \"at\": 01\x7d" = some .silent ∧
      ∃ v, parse "\x7b\"type\": \"silent\", \"at\": 01\x7d" = some v ∧
        ¬Denotes "\x7b\"type\": \"silent\", \"at\": 01\x7d" v) ∧
    parse "1e3" = some (num 1) ∧ ¬Denotes "1e3" (num 1) := by
  refine ⟨⟨by decide +kernel, ?_⟩, rfl, ?_⟩
  · have hsome : (parse "\x7b\"type\": \"silent\", \"at\": 01\x7d").isSome = true := by
      decide +kernel
    obtain ⟨v, hv⟩ := Option.isSome_iff_exists.mp hsome
    refine ⟨v, hv, ?_⟩
    intro hdenotes
    exact absurd (strict_of_denotes hv hdenotes) (by decide +kernel)
  · intro hdenotes
    exact absurd (strict_of_denotes rfl hdenotes) (by decide +kernel)

end Json

end ObbyClient

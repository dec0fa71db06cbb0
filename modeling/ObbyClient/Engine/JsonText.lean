import ObbyClient.Lib.Decimal
import ObbyClient.Engine.Json

/-!
# JSON reads back as it was written

The reader undoes the writer, whatever the strings hold and however values are nested, as long as
the numbers are ones that the reader can hold.

* `Json.parseString_write` — one string;
* `Json.parseNumber_write` — one number;
* `Json.parseValue_write` — one value in front of anything that does not go on with a number;
* `Json.parse_write` — a whole text.
-/

namespace ObbyClient

namespace Json

/-- An integer that the reader can hold. -/
def InI64 (n : ℤ) : Prop := -(2 ^ 63 : ℤ) ≤ n ∧ n ≤ 2 ^ 63 - 1

theorem parseI64_writeInt {n : ℤ} (h : InI64 n) : parseI64 (writeInt n) = some n := by
  obtain ⟨hlow, hhigh⟩ := h
  unfold parseI64 writeInt
  by_cases hneg : n < 0
  · rw [if_pos hneg]
    show (if (natToStr n.natAbs).head? = some '+' then none
      else (fromStrRadix 10 (2 ^ 63) (natToStr n.natAbs)).map fun n => -(n : ℤ)) = some n
    rw [if_neg (head_natToStr_ne _ (by decide)), fromStrRadix_natToStr (by omega)]
    show some (-(n.natAbs : ℤ)) = some n
    rw [Int.ofNat_natAbs_of_nonpos (by omega), neg_neg]
  · rw [if_neg hneg, if_neg (head_natToStr_ne _ (by decide)), fromStrRadix_natToStr (by omega)]
    show some (n.natAbs : ℤ) = some n
    rw [Int.natAbs_of_nonneg (by omega)]

/-! ### Strings -/

/-- The four hexadecimal digits of a control character. -/
theorem parseHex4_control {n : ℕ} (h : n < 32) (rest : Str) :
    parseHex4 ('0' :: '0' :: hexDigit (n / 16) :: hexDigit (n % 16) :: rest) = some (n, rest) := by
  have hall : ∀ n < 32, fromStrRadix 16 u32Max ['0', '0', hexDigit (n / 16), hexDigit (n % 16)] =
      some n := by
    decide
  show (fromStrRadix 16 u32Max _).map (fun n => (n, rest)) = _
  rw [hall n h]
  rfl

theorem charFromU32_toNat (c : Char) : charFromU32 c.toNat = some c := by
  unfold charFromU32
  have hvalid : c.toNat.isValidChar := c.valid
  rw [if_pos hvalid, Char.ofNat_toNat]

theorem parseUnicodeEscape_control {c : Char} (h : c.toNat < 32) (rest : Str) :
    parseUnicodeEscape ('0' :: '0' :: hexDigit (c.toNat / 16) :: hexDigit (c.toNat % 16) :: rest) =
      some (c, rest) := by
  unfold parseUnicodeEscape
  rw [parseHex4_control h]
  show (if 0xD800 ≤ c.toNat ∧ c.toNat ≤ 0xDBFF then _ else (charFromU32 c.toNat).map (·, rest)) = _
  rw [if_neg (by omega), charFromU32_toNat]
  rfl

/-- A character that is escaped. -/
theorem parseStringBody_escape {fuel : ℕ} {text rest : Str} {c : Char}
    (h : parseEscape text = some (c, rest)) :
    parseStringBody (fuel + 1) ('\\' :: text) =
      (parseStringBody fuel rest).map fun p => (c :: p.1, p.2) := by
  rw [parseStringBody, h]
  show ((parseStringBody fuel rest).bind fun p => some (c :: p.1, p.2)) = _
  cases parseStringBody fuel rest <;> rfl

/-- A character that stands for itself. -/
theorem parseStringBody_plain {fuel : ℕ} {rest : Str} {c : Char} (hquote : c ≠ '"')
    (hslash : c ≠ '\\') :
    parseStringBody (fuel + 1) (c :: rest) =
      (parseStringBody fuel rest).map fun p => (c :: p.1, p.2) := by
  rw [parseStringBody]
  · show ((parseStringBody fuel rest).bind fun p => some (c :: p.1, p.2)) = _
    cases parseStringBody fuel rest <;> rfl
  · exact hquote
  · exact hslash

/-- **One character.** -/
theorem parseStringBody_writeChar (fuel : ℕ) (c : Char) (rest : Str) :
    parseStringBody (fuel + 1) (writeChar c ++ rest) =
      (parseStringBody fuel rest).map fun p => (c :: p.1, p.2) := by
  unfold writeChar
  by_cases hquote : c = '"'
  · rw [if_pos hquote, hquote]
    exact parseStringBody_escape rfl
  rw [if_neg hquote]
  by_cases hslash : c = '\\'
  · rw [if_pos hslash, hslash]
    exact parseStringBody_escape rfl
  rw [if_neg hslash]
  by_cases hnewline : c = '\n'
  · rw [if_pos hnewline, hnewline]
    exact parseStringBody_escape rfl
  rw [if_neg hnewline]
  by_cases hreturn : c = '\r'
  · rw [if_pos hreturn, hreturn]
    exact parseStringBody_escape rfl
  rw [if_neg hreturn]
  by_cases htab : c = '\t'
  · rw [if_pos htab, htab]
    exact parseStringBody_escape rfl
  rw [if_neg htab]
  by_cases hcontrol : c.toNat < 0x20
  · rw [if_pos hcontrol]
    exact parseStringBody_escape (parseUnicodeEscape_control hcontrol rest)
  · rw [if_neg hcontrol]
    exact parseStringBody_plain hquote hslash

theorem parseStringBody_write {fuel : ℕ} {s : Str} (h : s.length < fuel) (rest : Str) :
    parseStringBody fuel (s.flatMap writeChar ++ '"' :: rest) = some (s, rest) := by
  induction s generalizing fuel with
  | nil =>
      obtain ⟨fuel, rfl⟩ := Nat.exists_eq_succ_of_ne_zero (Nat.ne_of_gt h)
      rfl
  | cons c s ih =>
      obtain ⟨fuel, rfl⟩ := Nat.exists_eq_succ_of_ne_zero (Nat.ne_of_gt (Nat.zero_lt_of_lt h))
      rw [List.flatMap_cons, List.append_assoc, parseStringBody_writeChar,
        ih (Nat.lt_of_succ_lt_succ h)]
      rfl

theorem length_le_flatMap_writeChar (s : Str) : s.length ≤ (s.flatMap writeChar).length := by
  have hone : ∀ c, 1 ≤ (writeChar c).length := by
    intro c
    unfold writeChar
    repeat' split
    all_goals simp
  induction s with
  | nil => exact Nat.le_refl _
  | cons c s ih =>
      rw [List.flatMap_cons, List.length_append, List.length_cons]
      have hc := hone c
      omega

/-- **A string reads back**, whatever it holds. -/
theorem parseString_write (s rest : Str) : parseString (writeString s ++ rest) = some
    (s, rest) := by
  have htext : writeString s ++ rest = '"' :: (s.flatMap writeChar ++ '"' :: rest) := by
    unfold writeString
    simp
  rw [htext]
  show parseStringBody ((s.flatMap writeChar ++ '"' :: rest).length + 1) _ = _
  refine parseStringBody_write ?_ rest
  have hle := length_le_flatMap_writeChar s
  rw [List.length_append]
  omega

/-! ### Numbers -/

/-- A text that does not go on with the number in front of it. -/
def Ends (rest : Str) : Prop :=
  ∀ c ∈ rest.head?, isDigit c = false ∧ c ≠ '.' ∧ c ≠ 'e' ∧ c ≠ 'E'

theorem ends_nil : Ends [] := fun _ h => nomatch h

theorem ends_cons {c : Char} (h : isDigit c = false ∧ c ≠ '.' ∧ c ≠ 'e' ∧ c ≠ 'E') (rest : Str) :
    Ends (c :: rest) := by
  intro d hd
  obtain rfl := Option.some.inj hd
  exact h

theorem isDigit_of_mem {n : ℕ} {c : Char} (h : c ∈ natToStr n) : isDigit c = true := by
  have hdigit := isDigit_of_mem_natToStr h
  unfold Char.isDigit at hdigit
  unfold isDigit
  rw [Bool.and_eq_true, decide_eq_true_eq, decide_eq_true_eq, ge_iff_le] at hdigit
  rw [Bool.and_eq_true, decide_eq_true_eq, decide_eq_true_eq, Char.le_def, Char.le_def]
  exact hdigit

/-- The digits of a number, and what follows them. -/
theorem takeWhile_digits (n : ℕ) {rest : Str} (h : Ends rest) :
    (natToStr n ++ rest).takeWhile isDigit = natToStr n ∧
      (natToStr n ++ rest).dropWhile isDigit = rest := by
  have hdigits : ∀ c ∈ natToStr n, isDigit c = true := fun c => isDigit_of_mem
  rw [List.takeWhile_append_of_pos hdigits, List.dropWhile_append_of_pos hdigits]
  cases rest with
  | nil => exact ⟨List.append_nil _, rfl⟩
  | cons c rest =>
      have hc := (h c rfl).1
      rw [List.takeWhile_cons_of_neg (by rw [hc]; decide),
        List.dropWhile_cons_of_neg (by rw [hc]; decide)]
      exact ⟨List.append_nil _, rfl⟩

/-- **A number reads back**, with nothing of what follows it. -/
theorem parseNumber_write {n : ℤ} (hn : InI64 n) {rest : Str} (h : Ends rest) :
    parseNumber (writeInt n ++ rest) = some (num n, rest) := by
  have hdot : rest.head? ≠ some '.' := fun heq => (h '.' heq).2.1 rfl
  have hexp : ¬(rest.head? = some 'e' ∨ rest.head? = some 'E') := by
    rintro (heq | heq)
    · exact (h 'e' heq).2.2.1 rfl
    · exact (h 'E' heq).2.2.2 rfl
  obtain ⟨htake, hdrop⟩ := takeWhile_digits n.natAbs h
  have hread := parseI64_writeInt hn
  unfold parseNumber
  unfold writeInt at hread ⊢
  by_cases hneg : n < 0
  · rw [if_pos hneg] at hread ⊢
    rw [List.cons_append, List.head?_cons, if_pos rfl, List.tail_cons]
    dsimp only
    rw [htake, hdrop, if_neg hdot, if_neg hexp]
    show (parseI64 ('-' :: natToStr n.natAbs)).map _ = _
    rw [hread]
    rfl
  · rw [if_neg hneg] at hread ⊢
    have hsign : (natToStr n.natAbs ++ rest).head? ≠ some '-' := by
      rw [List.head?_append_of_ne_nil _ (natToStr_ne_nil _)]
      exact head_natToStr_ne _ (by decide)
    rw [if_neg hsign]
    dsimp only
    rw [htake, hdrop, if_neg hdot, if_neg hexp]
    show (parseI64 (natToStr n.natAbs)).map _ = _
    rw [hread]
    rfl

/-! ### Values -/

/-- A value whose numbers the reader can hold. -/
inductive Holdable : Json → Prop
  | null : Holdable null
  | bool (value : Bool) : Holdable (bool value)
  | num {n : ℤ} (h : InI64 n) : Holdable (num n)
  | str (s : Str) : Holdable (str s)
  | array {items : List Json} (h : ∀ item ∈ items, Holdable item) : Holdable (array items)
  | object {fields : List (Str × Json)} (h : ∀ p ∈ fields, Holdable p.2) : Holdable (object fields)

theorem parseLiteral_append (literal : Str) (value : Json) (rest : Str) :
    parseLiteral literal value (literal ++ rest) = some (value, rest) := by
  unfold parseLiteral
  rw [if_pos (List.isPrefixOf_iff_prefix.mpr (List.prefix_append _ _)), List.drop_left]

theorem skipWs_cons {c : Char} (h : isWs c = false) (rest : Str) : skipWs (c :: rest) = c :: rest :=
  List.dropWhile_cons_of_neg (by rw [h]; decide)

/-- The first character of a number. -/
theorem writeInt_eq_cons (n : ℤ) : ∃ c rest, writeInt n = c :: rest ∧
    (c = '-' ∨ isDigit c = true) := by
  unfold writeInt
  by_cases hneg : n < 0
  · rw [if_pos hneg]
    exact ⟨'-', _, rfl, .inl rfl⟩
  · rw [if_neg hneg]
    obtain ⟨c, rest, hdigits⟩ := List.exists_cons_of_ne_nil (natToStr_ne_nil n.natAbs)
    refine ⟨c, rest, hdigits, .inr (isDigit_of_mem (n := n.natAbs) ?_)⟩
    rw [hdigits]
    exact List.mem_cons_self

theorem isWs_of_isDigit {c : Char} (h : isDigit c = true) : isWs c = false := by
  by_contra hws
  rw [Bool.not_eq_false] at hws
  unfold isWs at hws
  simp only [Bool.or_eq_true, beq_iff_eq] at hws
  rcases hws with ((rfl | rfl) | rfl) | rfl <;> exact absurd h (by decide)

/-- A number is what begins like one. -/
theorem parseValue_number {c : Char} (hfirst : c = '-' ∨ isDigit c = true) (fuel : ℕ) (text : Str) :
    parseValue (fuel + 1) (c :: text) = parseNumber (c :: text) := by
  have hne : isWs c = false ∧ c ≠ '"' ∧ c ≠ '\x7b' ∧ c ≠ '[' ∧ c ≠ 't' ∧ c ≠ 'f' ∧ c ≠ 'n' := by
    rcases hfirst with rfl | hdigit
    · decide
    · refine ⟨isWs_of_isDigit hdigit, ?_, ?_, ?_, ?_, ?_, ?_⟩
      all_goals
        rintro rfl
        exact absurd hdigit (by decide)
  obtain ⟨hws, hquote, hbrace, hbracket, ht, hf, hn⟩ := hne
  rw [parseValue, skipWs_cons hws]
  split
  · rename_i heq
    exact absurd (List.cons.inj heq).1 hquote
  · rename_i heq
    exact absurd (List.cons.inj heq).1 hbrace
  · rename_i heq
    exact absurd (List.cons.inj heq).1 hbracket
  · rename_i heq
    exact absurd (List.cons.inj heq).1 ht
  · rename_i heq
    exact absurd (List.cons.inj heq).1 hf
  · rename_i heq
    exact absurd (List.cons.inj heq).1 hn
  · rename_i heq
    obtain ⟨rfl, rfl⟩ := List.cons.inj heq
    rw [if_pos hfirst]
  · rename_i heq
    cases heq

theorem parseValue_writeInt {fuel : ℕ} {n : ℤ} (hn : InI64 n) {rest : Str} (h : Ends rest) :
    parseValue (fuel + 1) (writeInt n ++ rest) = some (num n, rest) := by
  have hread := parseNumber_write hn h
  obtain ⟨c, text, hc, hfirst⟩ := writeInt_eq_cons n
  rw [hc, List.cons_append] at hread ⊢
  rw [parseValue_number hfirst]
  exact hread

/-- What every value begins with. -/
theorem write_eq_cons (v : Json) : ∃ c text, write v = c :: text ∧ isWs c = false ∧ c ≠ ']' := by
  cases v with
  | null => exact ⟨'n', _, rfl, by decide, by decide⟩
  | bool value =>
      cases value with
      | true => exact ⟨'t', _, rfl, by decide, by decide⟩
      | false => exact ⟨'f', _, rfl, by decide, by decide⟩
  | num n =>
      obtain ⟨c, text, hc, hfirst⟩ := writeInt_eq_cons n
      refine ⟨c, text, by rw [write, hc], ?_⟩
      rcases hfirst with rfl | hdigit
      · decide
      · refine ⟨?_, by rintro rfl; exact absurd hdigit (by decide)⟩
        exact isWs_of_isDigit hdigit
  | str s => exact ⟨'"', _, by rw [write, writeString, List.cons_append], by decide, by decide⟩
  | array items => exact ⟨'[', _, by rw [write, List.cons_append], by decide, by decide⟩
  | object fields => exact ⟨'\x7b', _, by rw [write, List.cons_append], by decide, by decide⟩

theorem writeItems_cons_cons (item next : Json) (items : List Json) :
    writeItems (item :: next :: items) = write item ++ ',' :: writeItems (next :: items) := by
  rw [writeItems]
  exact List.cons_ne_nil _ _

theorem writeFields_cons_cons (key : Str) (value : Json) (next : Str × Json)
    (fields : List (Str × Json)) : writeFields ((key, value) :: next :: fields) =
      writeString key ++ ':' :: (write value ++ ',' :: writeFields (next :: fields)) := by
  rw [writeFields]
  · simp
  · exact List.cons_ne_nil _ _

/-- What the items of an array begin with. -/
theorem writeItems_eq_cons {items : List Json} (h : items ≠ []) :
    ∃ c text, writeItems items = c :: text ∧ isWs c = false ∧ c ≠ ']' := by
  cases items with
  | nil => exact absurd rfl h
  | cons item items =>
      obtain ⟨c, text, hc, hws, hne⟩ := write_eq_cons item
      cases items with
      | nil => exact ⟨c, text, by rw [writeItems, hc], hws, hne⟩
      | cons next items =>
          refine ⟨c, text ++ ',' :: writeItems (next :: items), ?_, hws, hne⟩
          rw [writeItems_cons_cons, hc, List.cons_append]

/-- What the fields of an object begin with. -/
theorem writeFields_eq_cons {fields : List (Str × Json)} (h : fields ≠ []) :
    ∃ text, writeFields fields = '"' :: text := by
  cases fields with
  | nil => exact absurd rfl h
  | cons p fields =>
      obtain ⟨key, value⟩ := p
      have hkey : ∀ text, writeString key ++ text = '"' :: (key.flatMap writeChar ++ ['"'] ++
        text) :=
        fun _ => rfl
      cases fields with
      | nil =>
          rw [writeFields, hkey]
          exact ⟨_, rfl⟩
      | cons next fields =>
          rw [writeFields_cons_cons, hkey]
          exact ⟨_, rfl⟩

/-- So much fuel reads every value whose text is at most half as long. -/
def ReadsValues (fuel : ℕ) : Prop :=
  ∀ v rest, Holdable v → Ends rest → 2 * (write v).length ≤ fuel →
    parseValue fuel (write v ++ rest) = some (v, rest)

def ReadsItems (fuel : ℕ) : Prop :=
  ∀ items rest, items ≠ [] → (∀ item ∈ items, Holdable item) →
    2 * (writeItems items).length + 1 ≤ fuel →
      parseItems fuel (writeItems items ++ ']' :: rest) = some (items, rest)

def ReadsFields (fuel : ℕ) : Prop :=
  ∀ fields rest, fields ≠ [] → (∀ p ∈ fields, Holdable p.2) →
    2 * (writeFields fields).length + 1 ≤ fuel →
      parseFields fuel (writeFields fields ++ '}' :: rest) = some (fields, rest)

/-- **The items of an array.** -/
theorem ReadsItems.succ {fuel : ℕ} (hvalues : ReadsValues fuel) (hitems : ReadsItems fuel) :
    ReadsItems (fuel + 1) := by
  intro items rest hne hhold hfuel
  cases items with
  | nil => exact absurd rfl hne
  | cons item items =>
      have hitem := hhold item List.mem_cons_self
      cases items with
      | nil =>
          rw [writeItems] at hfuel ⊢
          have hread := hvalues item (']' :: rest) hitem (ends_cons (by decide) rest) (by omega)
          rw [parseItems, hread]
          rfl
      | cons next items =>
          rw [writeItems_cons_cons] at hfuel ⊢
          rw [List.length_append, List.length_cons] at hfuel
          obtain ⟨c, text, hc, hws, -⟩ := writeItems_eq_cons (List.cons_ne_nil next items)
          have hread := hvalues item (',' :: (writeItems (next :: items) ++ ']' :: rest)) hitem
            (ends_cons (by decide) _) (by omega)
          have hrest := hitems (next :: items) rest (List.cons_ne_nil _ _)
            (fun other hother => hhold other (List.mem_cons_of_mem _ hother)) (by omega)
          have hskip : skipWs (writeItems (next :: items) ++ ']' :: rest) =
              writeItems (next :: items) ++ ']' :: rest := by
            rw [hc, List.cons_append]
            exact skipWs_cons hws _
          rw [List.append_assoc, List.cons_append, parseItems, hread]
          show ((parseItems fuel (skipWs _)).bind _) = _
          rw [hskip, hrest]
          rfl

theorem skipWs_writeString (key rest : Str) :
    skipWs (writeString key ++ rest) = writeString key ++ rest := skipWs_cons (by decide) _

/-- The last field. -/
theorem parseFields_last {fuel : ℕ} {text rest : Str} {value : Json} (key : Str)
    (hvalue : parseValue fuel text = some (value, '}' :: rest)) :
    parseFields (fuel + 1) (writeString key ++ ':' :: text) = some ([(key, value)], rest) := by
  rw [parseFields, skipWs_writeString, parseString_write]
  show (parseValue fuel text).bind _ = _
  rw [hvalue]
  rfl

/-- A field with others behind it. -/
theorem parseFields_next {fuel : ℕ} {text more rest : Str} {value : Json}
    {fields : List (Str × Json)}
    (key : Str) (hvalue : parseValue fuel text = some (value, ',' :: more))
    (hrest : parseFields fuel more = some (fields, rest)) :
    parseFields (fuel + 1) (writeString key ++ ':' :: text) =
      some ((key, value) :: fields, rest) := by
  rw [parseFields, skipWs_writeString, parseString_write]
  show (parseValue fuel text).bind _ = _
  rw [hvalue]
  show (parseFields fuel more).bind _ = _
  rw [hrest]
  rfl

/-- **The fields of an object.** -/
theorem ReadsFields.succ {fuel : ℕ} (hvalues : ReadsValues fuel) (hfields : ReadsFields fuel) :
    ReadsFields (fuel + 1) := by
  intro fields rest hne hhold hfuel
  cases fields with
  | nil => exact absurd rfl hne
  | cons p fields =>
      obtain ⟨key, value⟩ := p
      have hvalue : Holdable value := hhold (key, value) List.mem_cons_self
      cases fields with
      | nil =>
          rw [writeFields] at hfuel ⊢
          rw [List.length_append, List.length_cons] at hfuel
          have hread := hvalues value ('}' :: rest) hvalue (ends_cons (by decide) rest) (by omega)
          rw [List.append_assoc, List.cons_append]
          exact parseFields_last key hread
      | cons next fields =>
          rw [writeFields_cons_cons] at hfuel ⊢
          rw [List.length_append, List.length_cons, List.length_append, List.length_cons] at hfuel
          have hread := hvalues value (',' :: (writeFields (next :: fields) ++ '}' :: rest)) hvalue
            (ends_cons (by decide) _) (by omega)
          have hrest := hfields (next :: fields) rest (List.cons_ne_nil _ _)
            (fun other hother => hhold other (List.mem_cons_of_mem _ hother)) (by omega)
          rw [List.append_assoc, List.cons_append, List.append_assoc, List.cons_append]
          exact parseFields_next key hread hrest

/-- An array with items in it. -/
theorem parseValue_items {fuel : ℕ} {c : Char} {text rest : Str} {items : List Json}
    (hws : isWs c = false) (hclose : c ≠ ']')
    (h : parseItems fuel (c :: text) = some (items, rest)) :
    parseValue (fuel + 1) ('[' :: c :: text) = some (array items, rest) := by
  have hopen : isWs '[' = false := by decide
  unfold parseValue
  simp only [skipWs_cons hopen, skipWs_cons hws]
  split
  · rename_i heq
    exact absurd (List.cons.inj heq).1 hclose
  · rw [h]
    rfl

/-- An object with fields in it. -/
theorem parseValue_fields {fuel : ℕ} {text rest : Str} {fields : List (Str × Json)}
    (h : parseFields fuel ('"' :: text) = some (fields, rest)) :
    parseValue (fuel + 1) ('\x7b' :: '"' :: text) = some (object fields, rest) := by
  rw [parseValue]
  show (parseFields fuel ('"' :: text)).map _ = _
  rw [h]
  rfl

/-- **One value.** -/
theorem ReadsValues.succ {fuel : ℕ} (hitems : ReadsItems fuel) (hfields : ReadsFields fuel) :
    ReadsValues (fuel + 1) := by
  intro v rest hhold hends hfuel
  cases hhold with
  | null =>
      rw [parseValue]
      exact parseLiteral_append "null" null rest
  | bool value =>
      cases value with
      | true =>
          rw [parseValue]
          exact parseLiteral_append "true" (bool true) rest
      | false =>
          rw [parseValue]
          exact parseLiteral_append "false" (bool false) rest
  | num hn => exact parseValue_writeInt hn hends
  | str s =>
      rw [parseValue]
      show (parseString (writeString s ++ rest)).map _ = _
      rw [parseString_write]
      rfl
  | array hhold =>
      rename_i items
      rw [write] at hfuel ⊢
      rw [List.length_append, List.length_cons, List.length_singleton] at hfuel
      by_cases hne : items = []
      · subst hne
        rfl
      · have hread := hitems items rest hne hhold (by omega)
        obtain ⟨c, text, hc, hws, hclose⟩ := writeItems_eq_cons hne
        rw [List.append_assoc, List.cons_append, List.singleton_append]
        rw [hc, List.cons_append] at hread ⊢
        exact parseValue_items hws hclose hread
  | object hhold =>
      rename_i fields
      rw [write] at hfuel ⊢
      rw [List.length_append, List.length_cons, List.length_singleton] at hfuel
      by_cases hne : fields = []
      · subst hne
        rfl
      · have hread := hfields fields rest hne hhold (by omega)
        obtain ⟨text, hc⟩ := writeFields_eq_cons hne
        rw [List.append_assoc, List.cons_append, List.singleton_append]
        rw [hc, List.cons_append] at hread ⊢
        exact parseValue_fields hread

theorem reads (fuel : ℕ) : ReadsValues fuel ∧ ReadsItems fuel ∧ ReadsFields fuel := by
  induction fuel with
  | zero =>
      refine ⟨?_, ?_, ?_⟩
      · intro v rest _ _ hfuel
        obtain ⟨c, text, hc, -⟩ := write_eq_cons v
        rw [hc] at hfuel
        exact absurd hfuel (by simp)
      · intro items rest _ _ hfuel
        exact absurd hfuel (Nat.not_succ_le_zero _)
      · intro fields rest _ _ hfuel
        exact absurd hfuel (Nat.not_succ_le_zero _)
  | succ fuel ih =>
      obtain ⟨hvalues, hitems, hfields⟩ := ih
      exact ⟨.succ hitems hfields, .succ hvalues hitems, .succ hvalues hfields⟩

/-- **One value reads back**, with nothing of what follows it. -/
theorem parseValue_write {v : Json} (h : Holdable v) {rest : Str} (hends : Ends rest) {fuel : ℕ}
    (hfuel : 2 * (write v).length ≤ fuel) : parseValue fuel (write v ++ rest) = some (v, rest) :=
  (reads fuel).1 v rest h hends hfuel

/-- **A value reads back** from its text. -/
theorem parse_write {v : Json} (h : Holdable v) : parse (write v) = some v := by
  have hread := parseValue_write h ends_nil (Nat.le_succ_of_le (Nat.le_succ (2 * (write v).length)))
  rw [List.append_nil] at hread
  unfold parse
  rw [hread]
  rfl

end Json

end ObbyClient

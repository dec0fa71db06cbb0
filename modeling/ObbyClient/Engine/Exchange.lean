import ObbyClient.Engine.Challenge

/-!
# What SCRAM messages say

A message is a list of fields with commas between them.  It says what it was written from as long as
no value has a comma in it, and everything a message is written from is escaped, sanitised, encoded,
or was itself read out of a field.

* `Scram.message`, `Scram.field_message` — a message as a list of fields, and reading one back;
* `Scram.unescape_saslprep` — a username comes back;
* `Scram.serverFirst_spec`, `Scram.clientFinal_eq` — what is checked, and what is answered;
* `Scram.messages_read_back` — both messages together.
-/

namespace ObbyClient

namespace Scram

/-! ### Fields -/

/-- A message that consists of these fields. -/
def message (fields : List (Char × Str)) : Str :=
  [','].intercalate (fields.map fun f => f.1 :: '=' :: f.2)

/-- True of fields no comma gets into. -/
def Separate (fields : List (Char × Str)) : Prop := ∀ f ∈ fields, f.1 ≠ ',' ∧ ',' ∉ f.2

theorem splitOn_message {fields : List (Char × Str)} (h : Separate fields) (hne : fields ≠ []) :
    (message fields).splitOn ',' = fields.map fun f => f.1 :: '=' :: f.2 := by
  refine List.splitOn_intercalate ',' ?_ (by simpa using hne)
  intro part hpart
  obtain ⟨f, hf, rfl⟩ := List.mem_map.mp hpart
  obtain ⟨hkey, hvalue⟩ := h f hf
  rw [List.mem_cons, List.mem_cons, not_or, not_or]
  exact ⟨hkey.symm, by decide, hvalue⟩

/-- **A message reads back as the fields it was written from.** -/
theorem field_message {fields : List (Char × Str)} (h : Separate fields) (key : Char) :
    field (message fields) key = fields.lookup key := by
  by_cases hne : fields = []
  · subst hne
    rfl
  · rw [field, splitOn_message h hne]
    clear h hne
    induction fields with
    | nil => rfl
    | cons f fields ih =>
        rw [List.map_cons, List.findSome?_cons, ih, List.lookup_cons]
        by_cases hkey : f.1 = key
        · simp [hkey]
        · have hbeq : (key == f.1) = false := beq_false_of_ne (Ne.symm hkey)
          simp [hkey, hbeq]

theorem field_mem_splitOn {text value : Str} {key : Char} (h : field text key = some value) :
    key :: '=' :: value ∈ text.splitOn ',' := by
  obtain ⟨part, hpart, hvalue⟩ := List.exists_of_findSome?_eq_some h
  split at hvalue
  · rename_i k v
    by_cases hkey : k = key
    · rw [if_pos hkey, Option.some.injEq] at hvalue
      rw [← hkey, ← hvalue]
      exact hpart
    · rw [if_neg hkey] at hvalue
      cases hvalue
  · cases hvalue

/-- What is read out of a field has no comma in it. -/
theorem not_mem_of_field {text value : Str} {key : Char} (h : field text key = some value) :
    ',' ∉ value := fun hmem =>
  not_mem_of_mem_splitOn (field_mem_splitOn h)
    (List.mem_cons_of_mem _ (List.mem_cons_of_mem _ hmem))

/-! ### What goes into the first message -/

/-- Undo the escapes of a username. -/
def unescape : Str → Str
  | '=' :: '2' :: 'C' :: rest => ',' :: unescape rest
  | '=' :: '3' :: 'D' :: rest => '=' :: unescape rest
  | c :: rest => c :: unescape rest
  | [] => []

/-- **A username comes back.** -/
theorem unescape_saslprep (username : Str) : unescape (saslprep username) = username := by
  induction username with
  | nil => rfl
  | cons c cs ih =>
      show unescape ((if c = '=' then _ else _) ++ saslprep cs) = _
      by_cases heq : c = '='
      · rw [if_pos heq, heq]
        show '=' :: unescape (saslprep cs) = _
        rw [ih]
      · rw [if_neg heq]
        by_cases hcomma : c = ','
        · rw [if_pos hcomma, hcomma]
          show ',' :: unescape (saslprep cs) = _
          rw [ih]
        · rw [if_neg hcomma, List.singleton_append, unescape, ih]
          · exact fun _ h _ => heq h
          · exact fun _ h _ => heq h

theorem comma_not_mem_saslprep (username : Str) : ',' ∉ saslprep username := by
  intro hmem
  obtain ⟨c, -, hc⟩ := List.mem_flatMap.mp hmem
  by_cases heq : c = '='
  · rw [if_pos heq] at hc
    exact absurd hc (by decide)
  · rw [if_neg heq] at hc
    by_cases hcomma : c = ','
    · rw [if_pos hcomma] at hc
      exact absurd hc (by decide)
    · rw [if_neg hcomma, List.mem_singleton] at hc
      exact hcomma hc.symm

theorem sanitiseNonce_spec (nonce : Str) :
    sanitiseNonce nonce ≠ [] ∧ (∀ c ∈ sanitiseNonce nonce, c.isAlphanum = true) ∧
      (sanitiseNonce nonce).length ≤ nonceLen := by
  unfold sanitiseNonce
  dsimp only
  by_cases h : (nonce.filter Char.isAlphanum).take nonceLen = []
  · rw [if_pos h]
    exact ⟨List.cons_ne_nil _ _, List.forall_mem_singleton.mpr rfl, Nat.le_of_ble_eq_true rfl⟩
  · rw [if_neg h]
    refine ⟨h, fun c hc => ?_, List.length_take_le _ _⟩
    exact (List.mem_filter.mp (List.mem_of_mem_take hc)).2

theorem comma_not_mem_sanitiseNonce (nonce : Str) : ',' ∉ sanitiseNonce nonce := fun hmem =>
  absurd ((sanitiseNonce_spec nonce).2.1 ',' hmem) (by decide)

/-- The first message, as the fields it consists of. -/
theorem clientFirstBare_eq (username password nonce : Str) :
    (new username password nonce).clientFirstBare =
      message [('n', saslprep username), ('r', sanitiseNonce nonce)] := by
  show ("n=" : Str) ++ saslprep username ++ (",r=" : Str) ++ sanitiseNonce nonce = _
  simp [message, List.intercalate_cons_cons]

theorem separate_clientFirst (username nonce : Str) :
    Separate [('n', saslprep username), ('r', sanitiseNonce nonce)] := by
  refine List.forall_mem_cons.mpr ⟨⟨(by decide : 'n' ≠ ','), comma_not_mem_saslprep username⟩, ?_⟩
  exact List.forall_mem_singleton.mpr ⟨(by decide : 'r' ≠ ','), comma_not_mem_sanitiseNonce nonce⟩

/-! ### What comes back for it -/

variable [Primitives]

/-- What is checked of the server's first message. -/
theorem serverFirst_spec {scram : Scram} {bytes : Bytes} {first : ServerFirst}
    (h : scram.serverFirst bytes = .ok first) :
    fromUtf8 bytes = some first.text ∧ field first.text 'r' = some first.nonce ∧
      (∃ c more, first.nonce = scram.clientNonce ++ c :: more) ∧
      (∃ count, field first.text 'i' = some count ∧
        parseUnsigned u32Max count = some first.iterations) ∧
      1 ≤ first.iterations ∧ first.iterations ≤ maxIterations ∧
      ∃ salt, field first.text 's' = some salt ∧ Primitives.base64Decode salt =
        some first.salt := by
  unfold serverFirst at h
  cases htext : fromUtf8 bytes with
  | none => rw [htext] at h; cases h
  | some text =>
      rw [htext] at h
      dsimp only at h
      split at h
      · rename_i nonce salt iterations hnonce hsalt hiterations
        by_cases hprefix : (!scram.clientNonce.isPrefixOf nonce || nonce = scram.clientNonce) = true
        · rw [if_pos hprefix] at h
          cases h
        rw [if_neg hprefix] at h
        by_cases hcount : iterations = 0 ∨ maxIterations < iterations
        · rw [if_pos hcount] at h
          cases h
        rw [if_neg hcount] at h
        cases hdecode : Primitives.base64Decode salt with
        | none => rw [hdecode] at h; cases h
        | some decoded =>
            rw [hdecode] at h
            obtain rfl : ServerFirst.mk text nonce decoded iterations = first := Except.ok.inj h
            rw [Bool.or_eq_true, not_or, Bool.not_eq_true', Bool.not_eq_false,
              List.isPrefixOf_iff_prefix, decide_eq_true_iff] at hprefix
            obtain ⟨⟨more, hmore⟩, hlonger⟩ := hprefix
            obtain ⟨count, hfield, hparse⟩ := Option.bind_eq_some_iff.mp hiterations
            refine ⟨rfl, hnonce, ?_, ⟨count, hfield, hparse⟩, ?_, ?_, salt, hsalt, hdecode⟩
            · cases more with
              | nil => exact absurd (hmore.symm.trans (List.append_nil _)) hlonger
              | cons c more => exact ⟨c, more, hmore.symm⟩
            · show 1 ≤ iterations
              omega
            · show iterations ≤ maxIterations
              omega
      · cases h

/-- The proof that we know the password. -/
def proof (scram : Scram) (first : ServerFirst) : Bytes :=
  let clientKey := Primitives.hmacSha256
    (hi (Utf8.encode scram.password) first.salt first.iterations) (Utf8.encode "Client Key")
  let authMessage := scram.clientFirstBare ++ ',' :: first.text ++
    ',' :: message [('c', "biws"), ('r', first.nonce)]
  xor clientKey (Primitives.hmacSha256 (Primitives.sha256 clientKey) (Utf8.encode authMessage))

/-- The last message, as the fields it consists of. -/
theorem clientFinal_eq {scram : Scram} {bytes : Bytes} {first : ServerFirst}
    (h : scram.serverFirst bytes = .ok first) :
    (scram.clientFinal bytes).map Prod.snd =
      .ok (Utf8.encode (message [('c', "biws"), ('r', first.nonce),
        ('p', Primitives.base64Encode (scram.proof first))])) := by
  have hbare : message [('c', "biws"), ('r', first.nonce)] =
      ("c=biws,r=" : Str) ++ first.nonce := by
    simp [message, List.intercalate_cons_cons]
  have hfinal : message [('c', "biws"), ('r', first.nonce),
      ('p', Primitives.base64Encode (scram.proof first))] =
        ("c=biws,r=" : Str) ++ first.nonce ++ (",p=" : Str) ++
          Primitives.base64Encode (scram.proof first) := by
    simp [message, List.intercalate_cons_cons]
  rw [hfinal, proof, hbare]
  unfold clientFinal
  rw [h]
  rfl

/-- **No message can be rewritten by what goes into it**: the first one has a username that comes
back and a nonce of letters and digits, and the last one, if it comes to that, has the server's
longer nonce and the proof. -/
theorem messages_read_back (h : Base64Laws) (username password nonce : Str) :
    ((new username password nonce).clientFirstBare.splitOn ',').length = 2 ∧
      (∃ escaped, field (new username password nonce).clientFirstBare 'n' = some escaped ∧
        escaped = saslprep username ∧ unescape escaped = username) ∧
      (∃ ours, field (new username password nonce).clientFirstBare 'r' = some ours ∧
        ours ≠ [] ∧ (∀ c ∈ ours, c.isAlphanum = true) ∧ ours.length ≤ nonceLen ∧
        ∀ bytes scram response,
          (new username password nonce).clientFinal bytes = .ok (scram, response) →
          ∃ (first : ServerFirst) (count final theirs : Str),
            fromUtf8 bytes = some first.text ∧ field first.text 'r' = some theirs ∧
              (∃ c more, theirs = ours ++ c :: more) ∧
              field first.text 'i' = some count ∧
              parseUnsigned u32Max count = some first.iterations ∧
              1 ≤ first.iterations ∧ first.iterations ≤ maxIterations ∧
              fromUtf8 response = some final ∧ (final.splitOn ',').length = 3 ∧
              field final 'c' = some ("biws" : Str) ∧ field final 'r' = some theirs ∧
              field final 'p' =
                some (Primitives.base64Encode ((new username password nonce).proof first))) := by
  have hseparate := separate_clientFirst username nonce
  obtain ⟨hnonempty, halphanum, hlength⟩ := sanitiseNonce_spec nonce
  rw [clientFirstBare_eq, splitOn_message hseparate (List.cons_ne_nil _ _), field_message hseparate,
    field_message hseparate]
  refine ⟨rfl, ⟨_, rfl, rfl, unescape_saslprep username⟩, _, rfl, hnonempty, halphanum, hlength, ?_⟩
  intro bytes scram response hfinal
  cases hserver : (new username password nonce).serverFirst bytes with
  | error e =>
      rw [clientFinal, hserver] at hfinal
      cases hfinal
  | ok first =>
      obtain ⟨htext, hr, hextends, ⟨count, hi, hcount⟩, hpos, hmax, -⟩ := serverFirst_spec hserver
      have hresponse := clientFinal_eq hserver
      rw [hfinal] at hresponse
      have hbytes := Except.ok.inj hresponse
      dsimp only at hbytes
      generalize hp : Primitives.base64Encode ((new username password nonce).proof first) =
        p at hbytes ⊢
      have hlast : Separate [('c', ("biws" : Str)), ('r', first.nonce), ('p', p)] := by
        refine List.forall_mem_cons.mpr ⟨by decide, ?_⟩
        refine List.forall_mem_cons.mpr ⟨⟨(by decide : 'r' ≠ ','), not_mem_of_field hr⟩, ?_⟩
        exact List.forall_mem_singleton.mpr ⟨(by decide : 'p' ≠ ','), hp ▸ h.comma _⟩
      refine ⟨first, count, message [('c', "biws"), ('r', first.nonce), ('p', p)], first.nonce,
        htext, hr, hextends, hi, hcount, hpos, hmax, ?_, ?_, ?_, ?_, ?_⟩
      · rw [hbytes, fromUtf8_encode]
      · rw [splitOn_message hlast (List.cons_ne_nil _ _)]
        rfl
      · rw [field_message hlast]
        rfl
      · rw [field_message hlast]
        rfl
      · rw [field_message hlast]
        exact congrArg some hp.symm

omit [Primitives] in
/-- An exchange that comes to an answer, for a username and a nonce full of separators. -/
theorem messages_read_back_smuggled :
    letI := Primitives.base64
    ∃ (first : ServerFirst) (final : Str) (scram : Scram) (response : Bytes),
      (new "a,r=b" "secret" "n,r=x").clientFinal (Utf8.encode "r=nrxY,s=QUJD,i=1") =
          .ok (scram, response) ∧
        field (new "a,r=b" "secret" "n,r=x").clientFirstBare 'r' = some ("nrx" : Str) ∧
        fromUtf8 response = some final ∧ field final 'r' = field first.text 'r' := by
  let _ := Primitives.base64
  have hrun : (new "a,r=b" "secret" "n,r=x").clientNonce = "nrx" ∧
      ((new "a,r=b" "secret" "n,r=x").clientFinal (Utf8.encode "r=nrxY,s=QUJD,i=1")).isOk =
        true := by
    decide +kernel
  cases hfinal : (new "a,r=b" "secret" "n,r=x").clientFinal (Utf8.encode "r=nrxY,s=QUJD,i=1") with
  | error e =>
      rw [hfinal] at hrun
      exact absurd hrun.2 Bool.false_ne_true
  | ok answer =>
      obtain ⟨-, -, ours, hours, -, -, -, hanswers⟩ :=
        @messages_read_back Primitives.base64 base64Laws "a,r=b" "secret" "n,r=x"
      obtain ⟨first, _, final, theirs, -, htheirs, -, -, -, -, -, hresponse, -, -, hr, -⟩ :=
        hanswers _ answer.1 answer.2 hfinal
      refine ⟨first, final, answer.1, answer.2, rfl, ?_, hresponse, hr.trans htheirs.symm⟩
      rw [clientFirstBare_eq, field_message (separate_clientFirst _ _)]
      exact congrArg some hrun.1

end Scram

end ObbyClient

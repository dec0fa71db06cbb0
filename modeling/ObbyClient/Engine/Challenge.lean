import ObbyClient.Lib.Base64
import ObbyClient.Engine.Login

/-!
# The framing of an exchange

A response goes out as base64 in lines of 400 characters, and a line that is shorter, or the empty
one, ends it.  Whoever joins the lines up to there has the response back.  In the other direction
each line is taken for a whole challenge.

* `Base64Laws` — what is relied on of the base64 that is called;
* `Sasl.receive`, `Sasl.receive_encodeResponse` — a receiver that joins lines gets what was sent;
* `Client.challenged`, `Client.receiveLines_encodeResponse` — lines are challenges of 300 bytes
  each;
* `Client.receiveLines_eq_challenged_iff` — where that comes to the same as one challenge.
-/

namespace ObbyClient

/-! ### Base64 -/

/-- What is documented of standard base64 with padding. -/
structure Base64Laws [Primitives] : Prop where
  length : ∀ payload, (Primitives.base64Encode payload).length = 4 * ((payload.length + 2) / 3)
  append : ∀ front back : Bytes, 3 ∣ front.length →
    Primitives.base64Encode (front ++ back) =
      Primitives.base64Encode front ++ Primitives.base64Encode back
  comma : ∀ payload, ',' ∉ Primitives.base64Encode payload
  decode : ∀ payload, Primitives.base64Decode (Primitives.base64Encode payload) = some payload

theorem base64Laws : @Base64Laws Primitives.base64 :=
  letI := Primitives.base64
  { length := Base64.length_encode
    append := fun _ back h => Base64.encode_append h back
    comma := fun payload hmem => by
      rcases Base64.encode_mem payload ',' hmem with h | h <;> exact absurd h (by decide)
    decode := Base64.decode_encode }

/-! ### Lines of a response -/

/-- All pieces but the last are full, and the last is what is over, or full too. -/
theorem Monitor.chunks_eq {α : Type*} {n fuel : ℕ} {xs : List α} (hn : 0 < n)
    (hfuel : xs.length ≤ fuel) (hxs : xs ≠ []) :
    ∃ front last, Monitor.chunks n fuel xs = front ++ [last] ∧ (∀ piece ∈ front, piece.length = n) ∧
      0 < last.length ∧ last.length ≤ n ∧ last.length % n = xs.length % n := by
  induction fuel generalizing xs with
  | zero => exact absurd (List.length_eq_zero_iff.mp (Nat.le_zero.mp hfuel)) hxs
  | succ fuel ih =>
      obtain ⟨x, rest, rfl⟩ := List.exists_cons_of_ne_nil hxs
      have hchunks : Monitor.chunks n (fuel + 1) (x :: rest) =
          (x :: rest).take n :: Monitor.chunks n fuel ((x :: rest).drop n) := rfl
      by_cases hshort : (x :: rest).length ≤ n
      · refine ⟨[], x :: rest, ?_, nofun, by simp, hshort, rfl⟩
        rw [hchunks, List.take_of_length_le hshort, List.drop_of_length_le hshort]
        cases fuel <;> rfl
      · have hdrop : (x :: rest).drop n ≠ [] := by
          rw [ne_eq, List.drop_eq_nil_iff]
          exact hshort
        have hlen : ((x :: rest).drop n).length = (x :: rest).length - n := List.length_drop
        obtain ⟨front, last, heq, hfull, hpos, hle, hmod⟩ := ih (by omega) hdrop
        refine ⟨(x :: rest).take n :: front, last, by
          rw [hchunks, heq, List.cons_append], ?_, hpos, hle, ?_⟩
        · refine List.forall_mem_cons.mpr ⟨?_, hfull⟩
          rw [List.length_take]
          omega
        · rw [hmod, hlen, ← Nat.mod_eq_sub_mod (by omega)]

namespace Sasl

/-- What a receiver makes of the lines: it joins them up to the first that is shorter than a full
one, where an empty line is written as a `+`, and leaves the lines behind it. -/
def receive : List Str → Option (Str × List Str)
  | [] => none
  | line :: lines =>
      if line.length < chunk then some (if line = "+" then [] else line, lines)
      else (receive lines).map fun message => (line ++ message.1, message.2)

theorem receive_append {front : List Str} (h : ∀ line ∈ front, line.length = chunk)
    (lines : List Str) :
    receive (front ++ lines) = (receive lines).map fun message =>
      (front.flatten ++ message.1, message.2) := by
  induction front with
  | nil => cases hreceive : receive lines <;> simp [hreceive]
  | cons line front ih =>
      rw [List.forall_mem_cons] at h
      rw [List.cons_append, receive, if_neg (by rw [h.1]; exact lt_irrefl _), ih h.2,
        Option.map_map]
      simp only [List.flatten_cons, List.append_assoc]
      rfl

variable [Primitives]

/-- How the lines of a response end. -/
theorem encodeResponse_eq (h : Base64Laws) (payload : Bytes) :
    ∃ (front : List Str) (last : Str), encodeResponse payload = front ++ [last] ∧
      (∀ line ∈ front, line.length = chunk) ∧ 0 < last.length ∧ last.length < chunk ∧
      front.flatten ++ (if last = "+" then [] else last) = Primitives.base64Encode payload := by
  unfold encodeResponse
  have hlength := h.length payload
  by_cases hpayload : payload = []
  · subst hpayload
    refine ⟨[], "+", rfl, nofun, by decide, by decide, ?_⟩
    rw [if_pos rfl]
    exact (List.length_eq_zero_iff.mp hlength).symm
  · have hpos : 0 < payload.length := List.length_pos_iff.mpr hpayload
    have hencoded : Primitives.base64Encode payload ≠ [] := by
      intro hnil
      rw [hnil, List.length_nil] at hlength
      omega
    obtain ⟨front, last, hchunks, hfull, hlast, hle, hmod⟩ :=
      Monitor.chunks_eq (n := chunk) (by decide) le_rfl hencoded
    have hflatten := Monitor.flatten_chunks (n := chunk) (by decide)
      (le_refl (Primitives.base64Encode payload).length)
    rw [hchunks, List.flatten_append, List.flatten_singleton] at hflatten
    rw [if_neg hpayload]
    dsimp only
    rw [hchunks]
    by_cases hexact : (Primitives.base64Encode payload).length % chunk = 0
    · -- the last piece is full, and the empty line ends the response
      rw [hexact] at hmod
      change last.length % 400 = 0 at hmod
      change last.length ≤ 400 at hle
      have hwhole : last.length = 400 := by omega
      refine ⟨front ++ [last], "+", by rw [if_pos hexact], ?_, by decide, by decide, ?_⟩
      · intro line hline
        rcases List.mem_append.mp hline with hline | hline
        · exact hfull line hline
        · rw [List.mem_singleton.mp hline, hwhole]
          rfl
      · rw [if_pos rfl, List.append_nil, List.flatten_append, List.flatten_singleton, hflatten]
    · have hover : ¬(Primitives.base64Encode payload).length % 400 = 0 := hexact
      change last.length % 400 = _ % 400 at hmod
      change last.length ≤ 400 at hle
      have hshort : last.length < 400 := by omega
      refine ⟨front, last, ?_, hfull, hlast, hshort, ?_⟩
      · rw [if_neg hexact, List.append_nil]
      · have hplus : last ≠ "+" := by
          rintro rfl
          have hone : "+".toList.length = 1 := rfl
          omega
        rw [if_neg hplus, hflatten]

/-- **A response is uniquely decodable**: its lines are as long as they may be up to the last, and
whoever joins them gets the payload back, whatever lines come after. -/
theorem receive_encodeResponse (h : Base64Laws) (payload : Bytes) (rest : List Str) :
    (∃ (front : List Str) (last : Str), encodeResponse payload = front ++ [last] ∧
        (∀ line ∈ front, line.length = chunk) ∧ last.length < chunk) ∧
      (∀ line ∈ encodeResponse payload, line ≠ [] ∧ line.length ≤ chunk) ∧
      receive (encodeResponse payload ++ rest) = some (Primitives.base64Encode payload, rest) ∧
      (receive (encodeResponse payload ++ rest)).bind (fun message =>
        Primitives.base64Decode message.1) = some payload := by
  obtain ⟨front, last, hlines, hfull, hpos, hshort, hflatten⟩ := encodeResponse_eq h payload
  have hreceive : receive (encodeResponse payload ++ rest) =
      some (Primitives.base64Encode payload, rest) := by
    rw [hlines, List.append_assoc, receive_append hfull, List.singleton_append, receive,
      if_pos hshort, Option.map_some, hflatten]
  refine ⟨⟨front, last, hlines, hfull, hshort⟩, ?_, hreceive, ?_⟩
  · intro line hline
    rw [hlines] at hline
    rcases List.mem_append.mp hline with hline | hline
    · have hlen := hfull line hline
      have hchunk : chunk = 400 := rfl
      exact ⟨fun hnil => by rw [hnil, List.length_nil] at hlen; omega, hlen.le⟩
    · rw [List.mem_singleton.mp hline]
      exact ⟨List.length_pos_iff.mp hpos, hshort.le⟩
  · rw [hreceive, Option.bind_some, h.decode]

omit [Primitives] in
/-- A full line of data is no end: an empty one follows it. -/
theorem receive_encodeResponse_fullLine :
    letI := Primitives.base64
    @Base64Laws Primitives.base64 ∧
      receive (encodeResponse (List.replicate 300 0) ++ [("late" : Str)]) =
      some (Primitives.base64Encode (List.replicate 300 0), [("late" : Str)]) :=
  ⟨base64Laws, (@receive_encodeResponse Primitives.base64 base64Laws _ _).2.2.1⟩

/-- A full line of base64 is 300 bytes, so the lines of a text are the texts of its pieces. -/
theorem chunks_base64Encode (h : Base64Laws) (fuel : ℕ) (payload : Bytes) :
    Monitor.chunks chunk fuel (Primitives.base64Encode payload) =
      (Monitor.chunks 300 fuel payload).map Primitives.base64Encode := by
  induction fuel generalizing payload with
  | zero => rfl
  | succ fuel ih =>
      have hnil : Primitives.base64Encode ([] : Bytes) = [] :=
        List.length_eq_zero_iff.mp (h.length [])
      by_cases hpayload : payload = []
      · rw [hpayload, hnil]
        rfl
      · have hencoded : Primitives.base64Encode payload ≠ [] := by
          have hlen := h.length payload
          have hpos := List.length_pos_iff.mpr hpayload
          exact List.length_pos_iff.mp (by omega)
        obtain ⟨htake, hdrop⟩ :
            (Primitives.base64Encode payload).take 400 =
              Primitives.base64Encode (payload.take 300) ∧
              (Primitives.base64Encode payload).drop 400 =
                Primitives.base64Encode (payload.drop 300) := by
          by_cases hshort : payload.length ≤ 300
          · have hlen : (Primitives.base64Encode payload).length ≤ 400 := by
              rw [h.length]
              omega
            rw [List.take_of_length_le hshort, List.drop_of_length_le hshort, hnil]
            exact ⟨List.take_of_length_le hlen, List.drop_of_length_le hlen⟩
          · have htake : (payload.take 300).length = 300 := by
              rw [List.length_take]
              omega
            have hlen : (Primitives.base64Encode (payload.take 300)).length = 400 := by
              rw [h.length, htake]
            have happend := h.append (payload.take 300) (payload.drop 300) (by rw [htake]; decide)
            rw [List.take_append_drop] at happend
            rw [happend]
            exact ⟨List.take_left' hlen, List.drop_left' hlen⟩
        obtain ⟨x, xs, rfl⟩ := List.exists_cons_of_ne_nil hpayload
        obtain ⟨y, ys, hys⟩ := List.exists_cons_of_ne_nil hencoded
        have hpieces : Monitor.chunks 300 (fuel + 1) (x :: xs) =
            (x :: xs).take 300 :: Monitor.chunks 300 fuel ((x :: xs).drop 300) := rfl
        have hlines : Monitor.chunks chunk (fuel + 1) (y :: ys) =
            (y :: ys).take 400 :: Monitor.chunks chunk fuel ((y :: ys).drop 400) := rfl
        rw [hpieces, hys, hlines, ← hys, htake, hdrop, ih, List.map_cons]

theorem decodeChallenge_base64Encode (h : Base64Laws) (payload : Bytes) :
    decodeChallenge (Primitives.base64Encode payload) = some payload := by
  have hplus : Primitives.base64Encode payload ≠ "+" := by
    intro heq
    have hlen := h.length payload
    have hone : ("+" : Str).length = 1 := rfl
    rw [heq, hone] at hlen
    omega
  rw [decodeChallenge, if_neg hplus, h.decode]

/-- What the lines of a payload are one by one: its first 300 bytes, and more of it unless it fits
one short line. -/
theorem map_decodeChallenge_encodeResponse (h : Base64Laws) (payload : Bytes) :
    ∃ more : List Bytes,
      (encodeResponse payload).map decodeChallenge = (payload.take 300 :: more).map some ∧
        (more = [] ↔ payload.length ≤ 297) := by
  by_cases hpayload : payload = []
  · subst hpayload
    exact ⟨[], rfl, by simp⟩
  · obtain ⟨x, xs, hxs⟩ := List.exists_cons_of_ne_nil hpayload
    have hlength := h.length payload
    have hpos := List.length_pos_iff.mpr hpayload
    obtain ⟨fuel, hfuel⟩ : ∃ fuel, (Primitives.base64Encode payload).length = fuel + 1 :=
      Nat.exists_eq_succ_of_ne_zero (by omega)
    have hpieces : Monitor.chunks 300 (fuel + 1) payload =
        payload.take 300 :: Monitor.chunks 300 fuel (payload.drop 300) := by
      rw [hxs]
      rfl
    have hdecode : ∀ pieces : List Bytes,
        (pieces.map Primitives.base64Encode).map decodeChallenge = pieces.map some := by
      intro pieces
      rw [List.map_map]
      exact List.map_congr_left fun piece _ => decodeChallenge_base64Encode h piece
    refine ⟨Monitor.chunks 300 fuel (payload.drop 300) ++
      (if (Primitives.base64Encode payload).length % 400 = 0 then [[]] else []), ?_, ?_⟩
    · rw [encodeResponse, if_neg hpayload]
      dsimp only
      rw [chunks_base64Encode h, hfuel, hpieces, List.map_append, hdecode, ← List.cons_append,
        List.map_append, ← hfuel]
      congr 1
      by_cases hexact : (Primitives.base64Encode payload).length % 400 = 0
      · rw [if_pos hexact, if_pos (show _ % chunk = 0 from hexact)]
        rfl
      · rw [if_neg hexact, if_neg (show ¬_ % chunk = 0 from hexact)]
        rfl
    · constructor
      · intro hmore
        obtain ⟨hchunks, hover⟩ := List.append_eq_nil_iff.mp hmore
        by_contra hlong
        by_cases hfits : payload.length ≤ 300
        · rw [if_pos (by omega)] at hover
          exact List.cons_ne_nil _ _ hover
        · -- there is more than one piece, and the fuel is not used up
          obtain ⟨y, ys, hys⟩ : ∃ y ys, payload.drop 300 = y :: ys :=
            List.exists_cons_of_ne_nil (by rw [ne_eq, List.drop_eq_nil_iff]; exact hfits)
          obtain ⟨fuel', rfl⟩ : ∃ fuel', fuel = fuel' + 1 :=
            Nat.exists_eq_succ_of_ne_zero (by omega)
          rw [hys] at hchunks
          exact List.cons_ne_nil _ _ hchunks
      · intro hshort
        have hdrop : payload.drop 300 = [] := List.drop_of_length_le (by omega)
        rw [hdrop, if_neg (by omega), List.append_nil]
        cases fuel <;> rfl

end Sasl

/-! ### Lines of a challenge -/

namespace Client

/-- What ends an exchange leaves what was computed for it. -/
theorem finishSasl_keeps_scram (c : Client) (failure : Option SaslFailure) :
    (c.finishSasl failure).scram = c.scram := by
  unfold finishSasl
  by_cases h : c.sasl = .settled
  · rw [if_pos h]
  · rw [if_neg h, emits_eq]
    have hfinished := finishNegotiationIfSettled_finished
      { c with sasl := .settled, events := c.events ++ (failure.map Event.saslFailed).toList }
    dsimp only
    generalize finishNegotiationIfSettled _ = d at hfinished
    cases hfinished with
    | waiting h => rfl
    | opened h mechanism => rfl
    | released hphase hcaps h => rfl
    | failed hphase hcaps h => rfl

variable [Primitives]

/-- A whole challenge, handled once. -/
def challenged (c : Client) (challenge : Bytes) : Client :=
  match c.sasl with
  | .offered => c.beginSaslResponse
  | .scramChallenged => c.answerScramChallenge challenge
  | .scramProved => c.verifyScramServer challenge
  | _ => c

/-- Lines of `AUTHENTICATE`, one after another. -/
def receiveLines (c : Client) (lines : List Str) : Client :=
  lines.foldl (fun c line => c.handleAuthenticate (Message.new "AUTHENTICATE" [line])) c

theorem handleAuthenticate_line (c : Client) {line : Str} {challenge : Bytes}
    (h : Sasl.decodeChallenge line = some challenge) :
    c.handleAuthenticate (Message.new "AUTHENTICATE" [line]) = c.challenged challenge := by
  have hline : ((Message.new "AUTHENTICATE" [line]).param 0).getD "+" = line := rfl
  unfold handleAuthenticate
  rw [hline, h]
  rfl

/-- **Each line is a challenge.** -/
theorem receiveLines_eq (c : Client) {lines : List Str} {pieces : List Bytes}
    (h : lines.map Sasl.decodeChallenge = pieces.map some) :
    c.receiveLines lines = pieces.foldl challenged c := by
  induction lines generalizing c pieces with
  | nil =>
      cases pieces with
      | nil => rfl
      | cons piece pieces => cases h
  | cons line lines ih =>
      cases pieces with
      | nil => cases h
      | cons piece pieces =>
          obtain ⟨hline, hlines⟩ := List.cons_eq_cons.mp h
          show (c.handleAuthenticate _).receiveLines lines =
            pieces.foldl challenged (c.challenged piece)
          rw [c.handleAuthenticate_line hline]
          exact ih _ hlines

/-- The lines of a payload are its pieces of 300 bytes. -/
theorem receiveLines_encodeResponse (h : Base64Laws) (c : Client) (payload : Bytes) :
    ∃ more : List Bytes,
      c.receiveLines (Sasl.encodeResponse payload) =
          more.foldl challenged (c.challenged (payload.take 300)) ∧
        (more = [] ↔ payload.length ≤ 297) := by
  obtain ⟨more, hlines, hmore⟩ := Sasl.map_decodeChallenge_encodeResponse h payload
  exact ⟨more, c.receiveLines_eq hlines, hmore⟩

/-! #### What one challenge does -/

section States

variable {c : Client} (challenge : Bytes)

theorem challenged_offered (h : c.sasl = .offered) :
    c.challenged challenge = c.beginSaslResponse := by
  unfold challenged
  rw [h]

theorem challenged_scramChallenged (h : c.sasl = .scramChallenged) :
    c.challenged challenge = c.answerScramChallenge challenge := by
  unfold challenged
  rw [h]

theorem challenged_scramProved (h : c.sasl = .scramProved) :
    c.challenged challenge = c.verifyScramServer challenge := by
  unfold challenged
  rw [h]

theorem answerScramChallenge_none (h : c.scram = none) :
    c.answerScramChallenge challenge = c.finishSasl (some .aborted) := by
  unfold answerScramChallenge
  rw [h]

theorem verifyScramServer_none (h : c.scram = none) :
    c.verifyScramServer challenge = c.finishSasl (some .aborted) := by
  unfold verifyScramServer
  rw [h]

end States

theorem sendSasl_eq (c : Client) (payload : Bytes) :
    ∃ lines, c.sendSasl payload = { c with outbox := c.outbox ++ lines } :=
  ⟨_, sendLines_eq c _⟩

/-- The invitation, by what there is to authenticate with. -/
theorem beginSaslResponse_sasl {c : Client} {credentials : Credentials}
    (h : c.config.sasl = some credentials) :
    (∃ username password nonce, credentials = .scram username password nonce ∧
        c.beginSaslResponse.sasl = .scramChallenged) ∨
      (∀ username password nonce, credentials ≠ .scram username password nonce) ∧
        c.beginSaslResponse.sasl = .responded := by
  unfold beginSaslResponse
  rw [h]
  cases credentials with
  | scram username password nonce =>
      refine .inl ⟨username, password, nonce, rfl, ?_⟩
      dsimp only
      obtain ⟨lines, hlines⟩ := sendSasl_eq { c with
        scram := some (Scram.new username password nonce), sasl := .scramChallenged }
        (Scram.new username password nonce).clientFirst
      rw [hlines]
  | plain username password =>
      refine .inr ⟨nofun, ?_⟩
      dsimp only
      obtain ⟨lines, hlines⟩ :=
        sendSasl_eq { c with sasl := .responded } (Credentials.plain username password).response
      rw [hlines]
  | external =>
      refine .inr ⟨nofun, ?_⟩
      dsimp only
      obtain ⟨lines, hlines⟩ :=
        sendSasl_eq { c with sasl := .responded } Credentials.external.response
      rw [hlines]

/-- The server's first message, when it can be answered. -/
theorem answerScramChallenge_ok {c : Client} {scram : Scram} {challenge : Bytes}
    {first : Scram.ServerFirst} (hscram : c.scram = some scram)
    (hfirst : scram.serverFirst challenge = .ok first) :
    (c.answerScramChallenge challenge).sasl = .scramProved ∧
      (c.answerScramChallenge challenge).scram ≠ none := by
  unfold answerScramChallenge
  rw [hscram]
  dsimp only
  obtain ⟨answer, hanswer⟩ : ∃ answer, scram.clientFinal challenge = .ok answer := by
    unfold Scram.clientFinal
    rw [hfirst]
    exact ⟨_, rfl⟩
  rw [hanswer]
  dsimp only
  obtain ⟨lines, hlines⟩ :=
    sendSasl_eq { c with scram := some answer.1, sasl := .scramProved } answer.2
  rw [hlines]
  exact ⟨rfl, nofun⟩

/-- The server's first message, when it cannot be. -/
theorem answerScramChallenge_error {c : Client} {scram : Scram} {challenge : Bytes}
    (hscram : c.scram = some scram) (hfirst : ∀ first, scram.serverFirst challenge ≠ .ok first) :
    c.answerScramChallenge challenge = c.finishSasl (some .rejected) := by
  unfold answerScramChallenge
  rw [hscram]
  dsimp only
  cases hserver : scram.serverFirst challenge with
  | ok first => exact absurd hserver (hfirst first)
  | error e =>
      have hfinal : scram.clientFinal challenge = .error e := by rw [Scram.clientFinal, hserver]
      rw [hfinal]

theorem verifyScramServer_ok {c : Client} {scram : Scram} {challenge : Bytes}
    (hscram : c.scram = some scram) (hverify : scram.verify challenge = .ok ()) :
    c.verifyScramServer challenge =
      { c with scram := none, sasl := .responded }.sendLine (Message.new "AUTHENTICATE" ["+"]) := by
  unfold verifyScramServer
  rw [hscram]
  dsimp only
  rw [hverify]

theorem verifyScramServer_error {c : Client} {scram : Scram} {challenge : Bytes}
    (hscram : c.scram = some scram) (hverify : scram.verify challenge ≠ .ok ()) :
    c.verifyScramServer challenge =
      { c with scram := none }.finishSasl (some .serverNotVerified) := by
  unfold verifyScramServer
  rw [hscram]
  dsimp only
  cases hresult : scram.verify challenge with
  | ok result => exact absurd hresult hverify
  | error e => rfl

/-- A check of the server leaves nothing to check, and waits for nothing more than a verdict. -/
theorem verifyScramServer_spent {c : Client} {scram : Scram} (challenge : Bytes)
    (hscram : c.scram = some scram) :
    (c.verifyScramServer challenge).scram = none ∧
      ((c.verifyScramServer challenge).sasl = .responded ∨
        (c.verifyScramServer challenge).sasl = .settled) := by
  by_cases hverify : scram.verify challenge = .ok ()
  · rw [verifyScramServer_ok hscram hverify]
    exact ⟨rfl, .inl rfl⟩
  · rw [verifyScramServer_error hscram hverify]
    exact ⟨finishSasl_keeps_scram _ _, .inr (finishSasl_settled _ _).1⟩

/-! #### What further challenges do -/

/-- True of an exchange that takes no challenge. -/
def Inert (c : Client) : Prop := c.sasl = .responded ∨ c.sasl = .settled

omit [Primitives] in
theorem inert_finishSasl (c : Client) (failure : Option SaslFailure) :
    (c.finishSasl failure).Inert :=
  .inr (c.finishSasl_settled failure).1

theorem challenged_of_inert {c : Client} (h : c.Inert) (challenge : Bytes) :
    c.challenged challenge = c := by
  unfold challenged
  rcases h with h | h <;> rw [h]

theorem foldl_challenged_of_inert {c : Client} (h : c.Inert) (more : List Bytes) :
    more.foldl challenged c = c := by
  induction more with
  | nil => rfl
  | cons challenge more ih => rw [List.foldl_cons, challenged_of_inert h, ih]

/-- True of an exchange that has answered the server's first message, or will not. -/
def Past (c : Client) : Prop := c.sasl = .scramProved ∨ c.Inert

theorem challenged_past {c : Client} (h : c.sasl = .scramChallenged ∨ c.Past) (challenge : Bytes) :
    (c.challenged challenge).Past := by
  rcases h with h | h | h
  · rw [challenged_scramChallenged challenge h]
    cases hscram : c.scram with
    | none =>
        rw [answerScramChallenge_none challenge hscram]
        exact .inr (c.inert_finishSasl _)
    | some scram =>
        by_cases hfirst : ∃ first, scram.serverFirst challenge = .ok first
        · obtain ⟨first, hfirst⟩ := hfirst
          exact .inl (answerScramChallenge_ok hscram hfirst).1
        · rw [answerScramChallenge_error hscram (not_exists.mp hfirst)]
          exact .inr (c.inert_finishSasl _)
  · rw [challenged_scramProved challenge h]
    cases hscram : c.scram with
    | none =>
        rw [verifyScramServer_none challenge hscram]
        exact .inr (c.inert_finishSasl _)
    | some scram => exact .inr (c.verifyScramServer_spent challenge hscram).2
  · rw [challenged_of_inert h]
    exact .inr h

theorem foldl_challenged_past {c : Client} (h : c.Past) (more : List Bytes) :
    (more.foldl challenged c).Past := by
  induction more generalizing c with
  | nil => exact h
  | cons challenge more ih => exact ih (challenged_past (.inr h) challenge)

/-! #### The lines of one payload -/

/-- Where the lines of a payload come to the same as the payload: it fits one line, or nothing is
made of it, or what is made of its first 300 bytes is made of all of it too. -/
def Reassembles (c : Client) (payload : Bytes) : Prop :=
  payload.length ≤ 297 ∨
    (c.sasl = .offered →
      ∀ username password nonce, c.config.sasl ≠ some (.scram username password nonce)) ∧
    (c.sasl = .scramChallenged → ∀ scram, c.scram = some scram →
      (∀ first, scram.serverFirst (payload.take 300) ≠ .ok first) ∧
        ∀ first, scram.serverFirst payload ≠ .ok first) ∧
    (c.sasl = .scramProved → ∀ scram, c.scram = some scram →
      (scram.verify (payload.take 300) = .ok () ↔ scram.verify payload = .ok ()))

section Pieces

variable {c : Client} {payload : Bytes} {more : List Bytes}

theorem offered_reassembles_iff (hsasl : c.sasl = .offered) (hmore : more ≠ []) :
    more.foldl challenged (c.challenged (payload.take 300)) = c.challenged payload ↔
      ∀ username password nonce, c.config.sasl ≠ some (.scram username password nonce) := by
  rw [challenged_offered _ hsasl, challenged_offered _ hsasl]
  cases hconfig : c.config.sasl with
  | none =>
      -- there is nothing to begin with, and the invitation stays open
      have hbegin : c.beginSaslResponse = c := by
        unfold beginSaslResponse
        rw [hconfig]
      have hrun : ∀ more : List Bytes, more.foldl challenged c = c := by
        intro more
        induction more with
        | nil => rfl
        | cons challenge more ih => rw [List.foldl_cons, challenged_offered _ hsasl, hbegin, ih]
      rw [hbegin, hrun]
      exact iff_of_true rfl fun _ _ _ => nofun
  | some credentials =>
      rcases beginSaslResponse_sasl hconfig with ⟨username, password, nonce, rfl, hbegin⟩ | ⟨hother,
        hbegin⟩
      · refine iff_of_false (fun hsame => ?_) fun hnone => hnone username password nonce rfl
        obtain ⟨challenge, more, rfl⟩ := List.exists_cons_of_ne_nil hmore
        have hpast := foldl_challenged_past (challenged_past (.inl hbegin) challenge) more
        rw [List.foldl_cons] at hsame
        rw [hsame, Past, Inert, hbegin] at hpast
        simp at hpast
      · rw [foldl_challenged_of_inert (.inl hbegin)]
        refine iff_of_true rfl fun username password nonce hsome => ?_
        exact hother username password nonce (Option.some.inj hsome)

theorem scramChallenged_reassembles_iff (hsasl : c.sasl = .scramChallenged) (hmore : more ≠ []) :
    more.foldl challenged (c.challenged (payload.take 300)) = c.challenged payload ↔
      ∀ scram, c.scram = some scram →
        (∀ first, scram.serverFirst (payload.take 300) ≠ .ok first) ∧
          ∀ first, scram.serverFirst payload ≠ .ok first := by
  rw [challenged_scramChallenged _ hsasl, challenged_scramChallenged _ hsasl]
  cases hscram : c.scram with
  | none =>
      rw [answerScramChallenge_none _ hscram, answerScramChallenge_none _ hscram,
        foldl_challenged_of_inert (c.inert_finishSasl _)]
      exact iff_of_true rfl nofun
  | some scram =>
      have hfields : (∀ s, some scram = some s →
          (∀ first, s.serverFirst (payload.take 300) ≠ .ok first) ∧
            ∀ first, s.serverFirst payload ≠ .ok first) ↔
          (∀ first, scram.serverFirst (payload.take 300) ≠ .ok first) ∧
            ∀ first, scram.serverFirst payload ≠ .ok first := by
        refine ⟨fun hall => hall scram rfl, fun hboth s hs => ?_⟩
        rw [← Option.some.inj hs]
        exact hboth
      rw [hfields]
      by_cases hpiece : ∃ first, scram.serverFirst (payload.take 300) = .ok first
      · -- what is answered is then checked against the next piece, which uses the exchange up
        refine iff_of_false (fun hsame => ?_) fun hneither => ?_
        · obtain ⟨first, hfirst⟩ := hpiece
          obtain ⟨hproved, hkept⟩ := answerScramChallenge_ok hscram hfirst
          obtain ⟨challenge, more, rfl⟩ := List.exists_cons_of_ne_nil hmore
          obtain ⟨kept, hkept⟩ := Option.ne_none_iff_exists'.mp hkept
          obtain ⟨hnone, hinert⟩ := verifyScramServer_spent challenge hkept
          rw [List.foldl_cons, challenged_scramProved _ hproved,
            foldl_challenged_of_inert hinert] at hsame
          rw [hsame] at hnone
          by_cases hwhole : ∃ first, scram.serverFirst payload = .ok first
          · obtain ⟨first, hwhole⟩ := hwhole
            exact (answerScramChallenge_ok hscram hwhole).2 hnone
          · rw [answerScramChallenge_error hscram (not_exists.mp hwhole), finishSasl_keeps_scram,
              hscram] at hnone
            exact Option.some_ne_none _ hnone
        · obtain ⟨first, hfirst⟩ := hpiece
          exact hneither.1 first hfirst
      · rw [not_exists] at hpiece
        rw [answerScramChallenge_error hscram hpiece,
          foldl_challenged_of_inert (c.inert_finishSasl _)]
        refine ⟨fun hsame => ⟨hpiece, fun first hfirst => ?_⟩, fun hneither => ?_⟩
        · have hproved := (answerScramChallenge_ok hscram hfirst).1
          rw [← hsame, (c.finishSasl_settled _).1] at hproved
          exact SaslState.noConfusion hproved
        · rw [answerScramChallenge_error hscram hneither.2]

theorem scramProved_reassembles_iff (hsasl : c.sasl = .scramProved) :
    more.foldl challenged (c.challenged (payload.take 300)) = c.challenged payload ↔
      ∀ scram, c.scram = some scram →
        (scram.verify (payload.take 300) = .ok () ↔ scram.verify payload = .ok ()) := by
  rw [challenged_scramProved _ hsasl, challenged_scramProved _ hsasl]
  cases hscram : c.scram with
  | none =>
      rw [verifyScramServer_none _ hscram, verifyScramServer_none _ hscram,
        foldl_challenged_of_inert (c.inert_finishSasl _)]
      exact iff_of_true rfl nofun
  | some scram =>
      have hdiffer : ∀ given other : Bytes, scram.verify given = .ok () →
        scram.verify other ≠ .ok () →
          c.verifyScramServer given ≠ c.verifyScramServer other := by
        intro given other hgiven hother hsame
        have hstates := congrArg Client.sasl hsame
        rw [verifyScramServer_ok hscram hgiven, verifyScramServer_error hscram hother,
          (finishSasl_settled _ _).1] at hstates
        exact SaslState.noConfusion hstates
      rw [foldl_challenged_of_inert (verifyScramServer_spent _ hscram).2]
      constructor
      · intro hsame s hs
        rw [← Option.some.inj hs]
        by_contra hne
        by_cases hpiece : scram.verify (payload.take 300) = .ok ()
        · exact hdiffer _ _ hpiece (fun hwhole => hne (iff_of_true hpiece hwhole)) hsame
        · by_cases hwhole : scram.verify payload = .ok ()
          · exact hdiffer _ _ hwhole hpiece hsame.symm
          · exact hne (iff_of_false hpiece hwhole)
      · intro hiff
        have hsame := hiff scram rfl
        by_cases hpiece : scram.verify (payload.take 300) = .ok ()
        · rw [verifyScramServer_ok hscram hpiece, verifyScramServer_ok hscram (hsame.mp hpiece)]
        · rw [verifyScramServer_error hscram hpiece,
            verifyScramServer_error hscram (fun hwhole => hpiece (hsame.mpr hwhole))]

end Pieces

/-- **A challenge comes in lines**: whoever waits on the server takes them for the payload exactly
where the first of them stands for it. -/
theorem receiveLines_eq_challenged_iff (h : Base64Laws) {c : Client}
    (hwaits : c.sasl.inFlight = true)
    (payload : Bytes) :
    c.receiveLines (Sasl.encodeResponse payload) = c.challenged payload ↔
      c.Reassembles payload := by
  obtain ⟨more, hlines, hmore⟩ := c.receiveLines_encodeResponse h payload
  rw [hlines]
  by_cases hshort : payload.length ≤ 297
  · rw [hmore.mpr hshort, List.take_of_length_le (by omega)]
    exact iff_of_true rfl (.inl hshort)
  · have hne : more ≠ [] := fun hnil => hshort (hmore.mp hnil)
    rw [Reassembles, or_iff_right hshort]
    cases hsasl : c.sasl with
    | idle => rw [hsasl] at hwaits; cases hwaits
    | settled => rw [hsasl] at hwaits; cases hwaits
    | offered => simp [offered_reassembles_iff hsasl hne]
    | scramChallenged => simp [scramChallenged_reassembles_iff hsasl hne]
    | scramProved => simp [scramProved_reassembles_iff hsasl]
    | responded =>
        rw [challenged_of_inert (.inl hsasl), challenged_of_inert (.inl hsasl),
          foldl_challenged_of_inert (.inl hsasl)]
        simp

/-- One that has sent its first message. -/
def awaitingSalt : Client :=
  { Client.new (Config.new "me") with
    sasl := .scramChallenged
    scram := some (Scram.new "user" "secret" "nonce") }

/-- What a server with a long nonce answers it. -/
def longServerFirst : Bytes :=
  Utf8.encode (("r=nonce" : Str) ++ List.replicate 300 'x' ++ (",s=QUJD,i=1" : Str))

omit [Primitives] in
theorem receiveLines_eq_challenged_iff_long :
    letI := Primitives.base64
    @Base64Laws Primitives.base64 ∧ awaitingSalt.sasl.inFlight = true ∧
      (awaitingSalt.receiveLines (Sasl.encodeResponse longServerFirst) =
          awaitingSalt.challenged longServerFirst ↔
        awaitingSalt.Reassembles longServerFirst) :=
  ⟨base64Laws, rfl, @receiveLines_eq_challenged_iff Primitives.base64 base64Laws awaitingSalt rfl _⟩

omit [Primitives] in
/-- What can be answered as a whole is refused in lines. -/
theorem receiveLines_long :
    letI := Primitives.base64
    awaitingSalt.sasl.inFlight = true ∧
      awaitingSalt.receiveLines (Sasl.encodeResponse longServerFirst) ≠
        awaitingSalt.challenged longServerFirst := by
  have hrun : letI := Primitives.base64
      (awaitingSalt.receiveLines (Sasl.encodeResponse longServerFirst)).sasl = .settled ∧
        (awaitingSalt.challenged longServerFirst).sasl = .scramProved := by
    decide +kernel
  refine ⟨rfl, fun hsame => ?_⟩
  rw [hsame, hrun.2] at hrun
  exact SaslState.noConfusion hrun.1

end Client

end ObbyClient

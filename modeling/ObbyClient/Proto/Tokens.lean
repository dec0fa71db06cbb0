import ObbyClient.Lib.Decimal
import ObbyClient.Lib.Maps
import ObbyClient.Proto.Isupport

/-!
# The tokens and what is derived from them

A token sets a value, adds to one, names a flag or takes a token back.  The typed settings are kept
beside the raw tokens and are brought up to date with each, so what has to be shown is that they
never come apart, whatever order the tokens arrive in and however a value is cut over several lines.

* `Asks`, `exists_asks` — what each text asks for, and that every text asks for one thing;
* `apply_eq` — one token, by what it asks for;
* `views_of_tokens` — after any tokens, each setting is the one its stored value gives;
* `unescape_append`, `foldl_apply_append` — cutting a value where no escape is cut changes nothing;
* `unescape_iff` — where the escapes undone are just those of two hexadecimal digits.
-/

namespace ObbyClient.Isupport

/-! ### What a token asks for -/

/-- What a token asks for. -/
inductive Request
  | set (name raw : Str)
  | append (name raw : Str)
  | flag (name : Str)
  | remove (name : Str)

/-- The texts of each request.  A token that is taken back may still carry a value, which does not
count. -/
inductive Asks : Str → Request → Prop
  | set {name raw : Str} (hname : '=' ∉ name) (hplus : name.getLast? ≠ some '+')
      (hminus : name.head? ≠ some '-') : Asks (name ++ '=' :: raw) (.set name raw)
  | append {name raw : Str} (hname : '=' ∉ name) (hminus : name.head? ≠ some '-') :
      Asks (name ++ '+' :: '=' :: raw) (.append name raw)
  | flag {name : Str} (hname : '=' ∉ name) (hminus : name.head? ≠ some '-') : Asks name (.flag name)
  | remove {name : Str} (hname : '=' ∉ name) : Asks ('-' :: name) (.remove name)
  | removeValue {name raw : Str} (hname : '=' ∉ name) :
      Asks ('-' :: (name ++ '=' :: raw)) (.remove name)

/-- Every text asks for something. -/
theorem exists_asks (token : Str) : ∃ r, Asks token r := by
  by_cases hminus : token.head? = some '-'
  · obtain ⟨rest, rfl⟩ := List.head?_eq_some_iff.mp hminus
    cases hcut : splitOnce '=' rest with
    | none => exact ⟨_, .remove (splitOnce_eq_none.mp hcut)⟩
    | some cut =>
        obtain ⟨rfl, hname⟩ := splitOnce_eq_some.mp hcut
        exact ⟨_, .removeValue hname⟩
  · cases hcut : splitOnce '=' token with
    | none => exact ⟨_, .flag (splitOnce_eq_none.mp hcut) hminus⟩
    | some cut =>
        obtain ⟨name, raw⟩ := cut
        obtain ⟨rfl, hname⟩ := splitOnce_eq_some.mp hcut
        have hhead : name.head? ≠ some '-' := by
          intro h
          obtain ⟨rest, rfl⟩ := List.head?_eq_some_iff.mp h
          exact hminus rfl
        by_cases hplus : name.getLast? = some '+'
        · obtain ⟨front, rfl⟩ := List.getLast?_eq_some_iff.mp hplus
          rw [List.append_assoc]
          refine ⟨_, .append (fun h => hname (List.mem_append_left _ h)) fun h => ?_⟩
          obtain ⟨rest, rfl⟩ := List.head?_eq_some_iff.mp h
          exact hhead rfl
        · exact ⟨_, .set hname hplus hhead⟩

/-- The value that is stored for a name, `none` when the token is absent or bare. -/
def stored (i : Isupport) (name : Str) : Option Str := i.tokens[name]?.bind id

namespace Request

/-- The name without its markers. -/
def name : Request → Str
  | .set name _ => name
  | .append name _ => name
  | .flag name => name
  | .remove name => name

/-- The value that the name has then. -/
def value (i : Isupport) : Request → Option Str
  | .set _ raw => some (unescape raw)
  | .append name raw => some ((i.stored name).getD [] ++ unescape raw)
  | .flag _ => none
  | .remove _ => none

/-- True when the token is taken back. -/
def removes : Request → Bool
  | .remove _ => true
  | _ => false

/-- The raw tokens then. -/
def tokens (i : Isupport) (r : Request) : Std.ExtTreeMap Str (Option Str) :=
  if r.removes then i.tokens.erase r.name else i.tokens.insert r.name (r.value i)

end Request

/-- The settings and the report of one request. -/
def settle (i : Isupport) (r : Request) : Isupport × Token :=
  (({ i with tokens := r.tokens i }).recompute r.name (r.value i), ⟨r.name, r.value i, r.removes⟩)

theorem apply_minus {i : Isupport} {rest : Str} :
    i.apply ('-' :: rest) = i.settle (.remove (((splitOnce '=' rest).map Prod.fst).getD rest)) :=
      rfl

theorem apply_flag {i : Isupport} {token : Str} (h : token.head? ≠ some '-')
    (hcut : splitOnce '=' token = none) : i.apply token = i.settle (.flag token) := by
  unfold apply
  split
  · exact absurd rfl h
  · dsimp only
    rw [hcut]
    rfl

theorem apply_value {i : Isupport} {token name raw : Str} (h : token.head? ≠ some '-')
    (hcut : splitOnce '=' token = some (name, raw)) :
    i.apply token =
      i.settle (if name.getLast? = some '+' then .append name.dropLast raw else .set name raw) := by
  unfold apply
  split
  · exact absurd rfl h
  · dsimp only
    rw [hcut]
    unfold nameAndValue
    dsimp only
    split <;> rfl

theorem head_append_ne {name rest : Str} {c d : Char} (h : name.head? ≠ some d) (hc : c ≠ d) :
    (name ++ c :: rest).head? ≠ some d := by
  cases name with
  | nil => exact fun heq => hc (Option.some.inj heq)
  | cons first more => exact h

/-- **One token, by what it asks for.** -/
theorem apply_eq {i : Isupport} {token : Str} {r : Request} (h : Asks token r) :
    i.apply token = i.settle r := by
  cases h with
  | set hname hplus hminus =>
      rw [apply_value (head_append_ne hminus (by decide)) (splitOnce_append_sep hname _),
        if_neg hplus]
  | @append name raw hname hminus =>
      have hsplit : name ++ '+' :: '=' :: raw = (name ++ ['+']) ++ '=' :: raw := by simp
      have hplain : '=' ∉ name ++ ['+'] := by simp [hname]
      have hcut : splitOnce '=' (name ++ '+' :: '=' :: raw) = some (name ++ ['+'], raw) := by
        rw [hsplit, splitOnce_append_sep hplain]
      rw [apply_value (head_append_ne hminus (by decide)) hcut, List.getLast?_concat, if_pos rfl,
        List.dropLast_concat]
  | flag hname hminus => exact apply_flag hminus (splitOnce_eq_none.mpr hname)
  | remove hname => rw [apply_minus, splitOnce_eq_none.mpr hname, Option.map_none, Option.getD_none]
  | removeValue hname =>
      rw [apply_minus, splitOnce_append_sep hname, Option.map_some, Option.getD_some]

/-! ### The settings agree with the tokens -/

section Settle

variable (i : Isupport) (r : Request)

@[simp] theorem stored_recompute (name other : Str) (value : Option Str) :
    (i.recompute name value).stored other = i.stored other := by
  unfold recompute
  split_ifs <;> rfl

/-- **What is stored** is changed for the one name. -/
theorem stored_settle (name : Str) :
    (i.settle r).1.stored name = if name = r.name then r.value i else i.stored name := by
  show (({ i with tokens := r.tokens i }).recompute r.name (r.value i)).stored name = _
  rw [stored_recompute]
  show (r.tokens i)[name]?.bind id = _
  unfold Request.tokens
  cases hremoves : r.removes with
  | true =>
      have hvalue : r.value i = none := by
        cases r <;> first | rfl | cases hremoves
      rw [if_pos rfl, Maps.getElem?_erase_ite, hvalue]
      split <;> rfl
  | false =>
      rw [if_neg Bool.false_ne_true, Maps.getElem?_insert_ite]
      split <;> rfl

end Settle

section Recompute

variable (i : Isupport) (name : Str) (value : Option Str)

/-- What is derived, setting by setting. -/
theorem recompute_eq : i.recompute name value =
    { tokens := i.tokens
      casemapping :=
        if "CASEMAPPING" = name then (value.map Casemapping.parse).getD .default else i.casemapping
      prefixes :=
        if "PREFIX" = name then
          (value.bind Prefixes.parse).getD (if value = none then .default else i.prefixes)
        else i.prefixes
      chanmodes :=
        if "CHANMODES" = name then (value.map ChanModes.parse).getD .default else i.chanmodes
      chantypes := if "CHANTYPES" = name then value.getD [] else i.chantypes
      statusmsg := if "STATUSMSG" = name then value.getD [] else i.statusmsg } := by
  unfold recompute
  by_cases hcasemapping : name = "CASEMAPPING"
  · subst hcasemapping
    rfl
  by_cases hprefix : name = "PREFIX"
  · subst hprefix
    rfl
  by_cases hchanmodes : name = "CHANMODES"
  · subst hchanmodes
    rfl
  by_cases hchantypes : name = "CHANTYPES"
  · subst hchantypes
    rfl
  by_cases hstatusmsg : name = "STATUSMSG"
  · subst hstatusmsg
    rfl
  -- no setting is derived from a token of another name
  rw [if_neg hcasemapping, if_neg hprefix, if_neg hchanmodes, if_neg hchantypes, if_neg hstatusmsg,
    if_neg (Ne.symm hcasemapping), if_neg (Ne.symm hprefix), if_neg (Ne.symm hchanmodes),
    if_neg (Ne.symm hchantypes), if_neg (Ne.symm hstatusmsg)]

@[simp] theorem tokens_recompute : (i.recompute name value).tokens = i.tokens := by
  rw [recompute_eq]

theorem casemapping_recompute : (i.recompute name value).casemapping =
    if "CASEMAPPING" = name then (value.map Casemapping.parse).getD .default
    else i.casemapping := by
  rw [recompute_eq]

theorem prefixes_recompute : (i.recompute name value).prefixes =
    if "PREFIX" = name then
      (value.bind Prefixes.parse).getD (if value = none then .default else i.prefixes)
    else i.prefixes := by
  rw [recompute_eq]

theorem chanmodes_recompute : (i.recompute name value).chanmodes =
    if "CHANMODES" = name then (value.map ChanModes.parse).getD .default else i.chanmodes := by
  rw [recompute_eq]

theorem chantypes_recompute : (i.recompute name value).chantypes =
    if "CHANTYPES" = name then value.getD [] else i.chantypes := by
  rw [recompute_eq]

theorem statusmsg_recompute : (i.recompute name value).statusmsg =
    if "STATUSMSG" = name then value.getD [] else i.statusmsg := by
  rw [recompute_eq]

end Recompute

/-- The settings are the ones that the stored values give, the prefixes aside. -/
structure ViewsFollow (i : Isupport) : Prop where
  casemapping :
    i.casemapping = ((i.stored "CASEMAPPING").map Casemapping.parse).getD Casemapping.default
  chanmodes : i.chanmodes = ((i.stored "CHANMODES").map ChanModes.parse).getD ChanModes.default
  chantypes : i.chantypes = (i.stored "CHANTYPES").getD []
  statusmsg : i.statusmsg = (i.stored "STATUSMSG").getD []

/-- Nothing is stored at first, and every setting is its default. -/
theorem viewsFollow_default : default.ViewsFollow := by
  constructor <;> rfl

/-- **One request keeps the settings in step.** -/
theorem viewsFollow_settle {i : Isupport} (h : i.ViewsFollow) (r : Request) :
    (i.settle r).1.ViewsFollow := by
  refine ⟨?_, ?_, ?_, ?_⟩ <;> rw [stored_settle, settle]
  · rw [casemapping_recompute, h.casemapping]
    split <;> rfl
  · rw [chanmodes_recompute, h.chanmodes]
    split <;> rfl
  · rw [chantypes_recompute, h.chantypes]
    split <;> rfl
  · rw [statusmsg_recompute, h.statusmsg]
    split <;> rfl

/-! ### Any number of tokens -/

/-- The settings after some tokens. -/
def run (tokens : List Str) : Isupport := tokens.foldl (fun i token => (i.apply token).1) default

theorem run_concat (tokens : List Str) (token : Str) :
    run (tokens ++ [token]) = ((run tokens).apply token).1 := by
  rw [run, List.foldl_append]
  rfl

theorem viewsFollow_run (tokens : List Str) : (run tokens).ViewsFollow := by
  induction tokens using List.reverseRecOn with
  | nil => exact viewsFollow_default
  | append_singleton tokens token ih =>
      obtain ⟨r, hr⟩ := exists_asks token
      rw [run_concat, apply_eq hr]
      exact viewsFollow_settle ih r

/-- The prefixes are those of the value that is stored.  When that one is malformed, they are still
those from before the token that stored it. -/
structure PrefixesFollow (tokens : List Str) : Prop where
  absent : (run tokens).stored "PREFIX" = none → (run tokens).prefixes = .default
  parsed : ∀ {value : Str} {p : Prefixes}, (run tokens).stored "PREFIX" = some value →
    Prefixes.parse value = some p → (run tokens).prefixes = p
  malformed : ∀ {value : Str}, (run tokens).stored "PREFIX" = some value →
    Prefixes.parse value = none → ∃ before token after, tokens = before ++ token :: after ∧
      ((run before).apply token).2 = ⟨"PREFIX", some value, false⟩ ∧
      (∀ other ∈ after, ∀ i : Isupport, (i.apply other).2.name ≠ "PREFIX") ∧
      (run tokens).prefixes = (run before).prefixes

theorem prefixes_settle (i : Isupport) (r : Request) : (i.settle r).1.prefixes =
    if "PREFIX" = r.name then
      ((r.value i).bind Prefixes.parse).getD (if r.value i = none then .default else i.prefixes)
    else i.prefixes := by
  rw [settle, prefixes_recompute]

theorem prefixesFollow_run (tokens : List Str) : PrefixesFollow tokens := by
  induction tokens using List.reverseRecOn with
  | nil => exact ⟨fun _ => rfl, nofun, nofun⟩
  | append_singleton tokens token ih =>
      obtain ⟨r, hr⟩ := exists_asks token
      have hrun : run (tokens ++ [token]) = ((run tokens).settle r).1 := by
        rw [run_concat, apply_eq hr]
      have hstored := stored_settle (run tokens) r "PREFIX"
      have hprefixes := prefixes_settle (run tokens) r
      rw [← hrun] at hstored hprefixes
      by_cases hname : "PREFIX".toList = r.name
      · rw [if_pos hname] at hstored hprefixes
        refine ⟨fun hnone => ?_, fun hvalue hparse => ?_, fun hvalue hparse => ?_⟩
        · rw [hstored] at hnone
          rw [hprefixes, hnone]
          rfl
        · rw [hstored] at hvalue
          rw [hprefixes, hvalue, Option.bind_some, hparse, Option.getD_some]
        · rw [hstored] at hvalue
          refine ⟨tokens, token, [], rfl, ?_, fun _ hother => (List.not_mem_nil hother).elim, ?_⟩
          · have hremoves : r.removes = false := by
              cases r <;> first | rfl | cases hvalue
            rw [apply_eq hr, settle, ← hname, hvalue, hremoves]
          · rw [hprefixes, hvalue, Option.bind_some, hparse, Option.getD_none, if_neg (by simp)]
      · rw [if_neg hname] at hstored hprefixes
        refine ⟨fun hnone => ?_, fun hvalue hparse => ?_, fun hvalue hparse => ?_⟩
        · rw [hprefixes, ih.absent (hstored.symm.trans hnone)]
        · rw [hprefixes, ih.parsed (hstored.symm.trans hvalue) hparse]
        · obtain ⟨before, malformed, after, rfl, htold, hafter, hsame⟩ :=
            ih.malformed (hstored.symm.trans hvalue) hparse
          refine ⟨before, malformed, after ++ [token], by simp, htold, ?_, hprefixes.trans hsame⟩
          intro other hother i
          rcases List.mem_append.mp hother with hother | hother
          · exact hafter other hother i
          · rw [List.mem_singleton.mp hother, apply_eq hr]
            exact Ne.symm hname

/-- **The settings never come apart from the tokens**, whatever tokens arrived; and what a token is
told to mean is its bare name with the value that is stored then. -/
theorem views_of_tokens (tokens : List Str) :
    (run tokens).ViewsFollow ∧ PrefixesFollow tokens ∧
      ∀ (token : Str) (r : Request), Asks token r → ((run tokens).apply token).2 =
        ⟨r.name, ((run tokens).apply token).1.stored r.name, r.removes⟩ := by
  refine ⟨viewsFollow_run tokens, prefixesFollow_run tokens, fun token r hr => ?_⟩
  rw [apply_eq hr, stored_settle, if_pos rfl, settle]

/-- A malformed value of `PREFIX` is stored, and the prefixes from before it stay. -/
theorem views_of_malformed :
    (run ["PREFIX=(qo)~@", "PREFIX=qo", "CHANTYPES=#"]).ViewsFollow ∧
      (∃ before token after, [("PREFIX=(qo)~@" : Str), "PREFIX=qo", "CHANTYPES=#"] =
          before ++ token :: after ∧ ((run before).apply token).2 = ⟨"PREFIX", some "qo", false⟩ ∧
        (run ["PREFIX=(qo)~@", "PREFIX=qo", "CHANTYPES=#"]).prefixes = (run before).prefixes) ∧
      ((run ["PREFIX=(qo)~@", "PREFIX=qo", "CHANTYPES=#"]).apply "PREFIX+=x").2 =
        ⟨"PREFIX", ((run ["PREFIX=(qo)~@", "PREFIX=qo", "CHANTYPES=#"]).apply "PREFIX+=x").1.stored
          "PREFIX", false⟩ := by
  obtain ⟨hviews, hprefixes, htold⟩ := views_of_tokens ["PREFIX=(qo)~@", "PREFIX=qo", "CHANTYPES=#"]
  have hstored : (run ["PREFIX=(qo)~@", "PREFIX=qo", "CHANTYPES=#"]).stored "PREFIX" =
      some "qo" := by
    decide +kernel
  obtain ⟨before, token, after, hsplit, htoken, -, hsame⟩ := hprefixes.malformed hstored (by decide)
  refine ⟨hviews, ⟨before, token, after, hsplit, htoken, hsame⟩, ?_⟩
  have hname : '=' ∉ "PREFIX".toList ∧ "PREFIX".toList.head? ≠ some '-' := by decide
  exact htold "PREFIX+=x" (.append "PREFIX" "x") (Asks.append hname.1 hname.2)

/-! ### Escapes -/

/-- The character that the escape at the front of a value is undone to. -/
def escaped : Str → Option Char
  | '\\' :: 'x' :: a :: b :: _ => (fromStrRadix 16 255 [a, b]).map Char.ofNat
  | _ => none

theorem escaped_eq_some {v : Str} {c : Char} (h : escaped v = some c) :
    ∃ a b rest n, v = '\\' :: 'x' :: a :: b :: rest ∧ fromStrRadix 16 255 [a, b] = some n ∧
      Char.ofNat n = c := by
  unfold escaped at h
  split at h
  · obtain ⟨n, hn, hc⟩ := Option.map_eq_some_iff.mp h
    exact ⟨_, _, _, n, rfl, hn, hc⟩
  · cases h

/-- An escape goes as one. -/
theorem unescape_of_some {a b c : Char} {rest : Str}
    (h : escaped ('\\' :: 'x' :: a :: b :: rest) = some c) :
    unescape ('\\' :: 'x' :: a :: b :: rest) = c :: unescape rest := by
  obtain ⟨n, hn, rfl⟩ := Option.map_eq_some_iff.mp h
  rw [unescape, hn]

/-- Any other character stays as it is. -/
theorem unescape_of_none {c : Char} {rest : Str} (h : escaped (c :: rest) = none) :
    unescape (c :: rest) = c :: unescape rest := by
  rw [unescape.eq_def]
  split
  · rename_i a b more heq
    obtain ⟨rfl, rfl⟩ := List.cons.inj heq
    have hnone : fromStrRadix 16 255 [a, b] = none := Option.map_eq_none_iff.mp h
    rw [hnone]
    have hx : unescape ('x' :: a :: b :: more) = 'x' :: unescape (a :: b :: more) := by
      rw [unescape]
      intro d e f heq
      cases heq
    rw [hx]
  · rename_i heq
    obtain ⟨rfl, rfl⟩ := List.cons.inj heq
    rfl
  · rename_i heq
    cases heq

/-- A place inside a backslash, an `x` and two more characters. -/
def Inside (v : Str) (n : ℕ) : Prop :=
  ∃ p < n, n < p + 4 ∧ p + 4 ≤ v.length ∧ v[p]? = some '\\' ∧ v[p + 1]? = some 'x'

instance (v : Str) (n : ℕ) : Decidable (Inside v n) :=
  inferInstanceAs (Decidable (∃ p < n, _))

theorem Inside.of_drop {v : Str} {k n : ℕ} (h : Inside (v.drop k) n) : Inside v (n + k) := by
  obtain ⟨p, hlt, hgt, hlen, hback, hx⟩ := h
  rw [List.length_drop] at hlen
  rw [List.getElem?_drop, Nat.add_comm] at hback
  rw [List.getElem?_drop, Nat.add_comm, Nat.add_right_comm] at hx
  exact ⟨p + k, by omega, by omega, by omega, hback, hx⟩

/-- **Cut where no escape is**, the halves are undone on their own. -/
theorem unescape_append {a b : Str} (h : ¬Inside (a ++ b) a.length) :
    unescape (a ++ b) = unescape a ++ unescape b := by
  induction hn : a.length using Nat.strong_induction_on generalizing a with
  | _ n ih =>
      cases a with
      | nil => rfl
      | cons c rest =>
          cases hescaped : escaped (c :: rest ++ b) with
          | some d =>
              obtain ⟨x, y, more, m, heq, hm, hd⟩ := escaped_eq_some hescaped
              have hwhole : 4 ≤ (c :: rest).length := by
                by_contra hshort
                refine h ⟨0, Nat.succ_pos _, by omega, ?_, ?_, ?_⟩ <;> rw [heq]
                · exact Nat.le_add_left 4 more.length
                · rfl
                · rfl
              obtain ⟨_, _, _, rest', hrest⟩ : ∃ e f g rest', rest = e :: f :: g :: rest' := by
                rcases rest with _ | ⟨e, _ | ⟨f, _ | ⟨g, rest'⟩⟩⟩
                iterate 3 exact absurd hwhole (by simp)
                exact ⟨e, f, g, rest', rfl⟩
              subst hrest
              rw [List.cons_append, List.cons_append, List.cons_append,
                List.cons_append] at heq hescaped ⊢
              cases heq
              have hfront : escaped ('\\' :: 'x' :: x :: y :: rest') = some d := hescaped
              rw [unescape_of_some hescaped, unescape_of_some hfront, List.cons_append]
              refine congrArg (d :: ·) (ih rest'.length (by simp at hn; omega) (fun hin =>
                h ?_) rfl)
              have hdrop : Inside (List.drop 4 ('\\' :: 'x' :: x :: y :: (rest' ++ b)))
                rest'.length := hin
              exact hdrop.of_drop
          | none =>
              have hfront : escaped (c :: rest) = none := by
                by_contra hsome
                obtain ⟨d, hd⟩ := Option.ne_none_iff_exists'.mp hsome
                obtain ⟨x, y, more, m, heq, hm, -⟩ := escaped_eq_some hd
                rw [heq, escaped.eq_def] at hescaped
                simp [hm] at hescaped
              rw [List.cons_append] at hescaped ⊢
              rw [unescape_of_none hescaped, unescape_of_none hfront, List.cons_append]
              refine congrArg (c :: ·) (ih rest.length (by simp at hn; omega) (fun hin => h ?_) rfl)
              have hdrop : Inside (List.drop 1 (c :: rest ++ b)) rest.length := hin
              exact hdrop.of_drop

/-- The cuts between these fragments are in no escape. -/
def CutsOutside (fragments : List Str) : Prop :=
  ∀ k < fragments.length, ¬Inside fragments.flatten (fragments.take k).flatten.length

instance (fragments : List Str) : Decidable (CutsOutside fragments) :=
  inferInstanceAs (Decidable (∀ k < fragments.length, _))

/-- What fragments are undone to, one by one. -/
theorem unescape_flatten {fragments : List Str} (h : CutsOutside fragments) :
    unescape fragments.flatten = (fragments.map unescape).flatten := by
  induction fragments with
  | nil => rfl
  | cons f fragments ih =>
      cases fragments with
      | nil => simp
      | cons g fragments =>
          have hcut : ¬Inside (f ++ (g :: fragments).flatten) f.length := by
            simpa using h 1 (by simp)
          have hrest : CutsOutside (g :: fragments) := by
            intro k hk hin
            refine h (k + 1) (Nat.succ_lt_succ hk) ?_
            have hfront : ((f :: g :: fragments).take (k + 1)).flatten.length =
                ((g :: fragments).take k).flatten.length + f.length := by
              rw [List.take_succ_cons, List.flatten_cons, List.length_append, Nat.add_comm]
            rw [hfront]
            refine Inside.of_drop ?_
            rwa [show (f :: g :: fragments).flatten = f ++ (g :: fragments).flatten from rfl,
              List.drop_left]
          have hwhole : (f :: g :: fragments).flatten = f ++ (g :: fragments).flatten := rfl
          rw [hwhole, unescape_append hcut, ih hrest]
          rfl

/-- The settings once a name has a value. -/
def put (i : Isupport) (name value : Str) : Isupport :=
  ({ i with tokens := i.tokens.insert name (some value) }).recompute name (some value)

theorem stored_put (i : Isupport) (name value : Str) :
    (i.put name value).stored name = some value := by
  rw [put, stored_recompute]
  show (i.tokens.insert name (some value))[name]?.bind id = _
  rw [Std.ExtTreeMap.getElem?_insert_self]
  rfl

section Put

variable (i : Isupport) (name value : Str)

theorem casemapping_put : (i.put name value).casemapping =
    if "CASEMAPPING" = name then Casemapping.parse value else i.casemapping :=
  casemapping_recompute _ _ _

theorem prefixes_put : (i.put name value).prefixes =
    if "PREFIX" = name then (Prefixes.parse value).getD i.prefixes else i.prefixes := by
  rw [put, prefixes_recompute, Option.bind_some, if_neg (Option.some_ne_none value)]

theorem chanmodes_put : (i.put name value).chanmodes =
    if "CHANMODES" = name then ChanModes.parse value else i.chanmodes :=
  chanmodes_recompute _ _ _

theorem chantypes_put : (i.put name value).chantypes =
    if "CHANTYPES" = name then value else i.chantypes :=
  chantypes_recompute _ _ _

theorem statusmsg_put : (i.put name value).statusmsg =
    if "STATUSMSG" = name then value else i.statusmsg :=
  statusmsg_recompute _ _ _

theorem tokens_put (other : Str) : (i.put name value).tokens[other]? =
    if other = name then some (some value) else i.tokens[other]? := by
  rw [put, tokens_recompute, Maps.getElem?_insert_ite]

end Put

attribute [ext] Isupport

/-- **A value leaves no trace** once the name has another, a malformed one of `PREFIX` included when
the other is well formed. -/
theorem put_put (i : Isupport) {name value : Str} (earlier : Str)
    (h : name = "PREFIX" → Prefixes.parse value ≠ none) :
    (i.put name earlier).put name value = i.put name value := by
  apply Isupport.ext
  · refine Std.ExtTreeMap.ext_getElem? fun other => ?_
    rw [tokens_put, tokens_put, tokens_put]
    split <;> rfl
  · rw [casemapping_put, casemapping_put, casemapping_put]
    split <;> rfl
  · rw [prefixes_put, prefixes_put, prefixes_put]
    split
    · rename_i hname
      obtain ⟨p, hp⟩ := Option.ne_none_iff_exists'.mp (h hname.symm)
      rw [hp, Option.getD_some, Option.getD_some]
    · rfl
  · rw [chanmodes_put, chanmodes_put, chanmodes_put]
    split <;> rfl
  · rw [chantypes_put, chantypes_put, chantypes_put]
    split <;> rfl
  · rw [statusmsg_put, statusmsg_put, statusmsg_put]
    split <;> rfl

section Fragments

variable {i : Isupport} {name : Str}

theorem apply_set (hname : '=' ∉ name) (hplus : name.getLast? ≠ some '+')
    (hminus : name.head? ≠ some '-') (raw : Str) :
    (i.apply (name ++ '=' :: raw)).1 = i.put name (unescape raw) := by
  rw [apply_eq (.set hname hplus hminus)]
  rfl

theorem apply_append (hname : '=' ∉ name) (hminus : name.head? ≠ some '-') (raw : Str) :
    (i.apply (name ++ '+' :: '=' :: raw)).1 =
      i.put name ((i.stored name).getD [] ++ unescape raw) := by
  rw [apply_eq (.append hname hminus)]
  rfl

/-- Fragment after fragment, the name comes to have the whole value. -/
theorem stored_foldl_append (hname : '=' ∉ name) (hminus : name.head? ≠ some '-')
    (fragments : List Str) :
    ((fragments.foldl (fun i f => (i.apply (name ++ '+' :: '=' :: f)).1) i).stored name).getD [] =
      (i.stored name).getD [] ++ (fragments.map unescape).flatten := by
  induction fragments generalizing i with
  | nil => rw [List.foldl_nil, List.map_nil, List.flatten_nil, List.append_nil]
  | cons f fragments ih =>
      rw [List.foldl_cons, ih, apply_append hname hminus, stored_put, Option.getD_some,
        List.map_cons, List.flatten_cons, List.append_assoc]

/-- What came before the last value leaves no trace. -/
theorem put_foldl_append (hname : '=' ∉ name) (hminus : name.head? ≠ some '-')
    (fragments : List Str)
    {value : Str} (h : name = "PREFIX" → Prefixes.parse value ≠ none) :
    (fragments.foldl (fun i f => (i.apply (name ++ '+' :: '=' :: f)).1) i).put name value =
      i.put name value := by
  induction fragments generalizing i with
  | nil => rfl
  | cons f fragments ih => rw [List.foldl_cons, ih, apply_append hname hminus, put_put i _ h]

/-- **A value split over several tokens** is the value in one. -/
theorem foldl_apply_append (hname : '=' ∉ name) (hplus : name.getLast? ≠ some '+')
    (hminus : name.head? ≠ some '-') (first : Str) (fragments : List Str)
    (hcuts : CutsOutside (first :: fragments))
    (hwell : name = "PREFIX" → Prefixes.parse (unescape (first :: fragments).flatten) ≠ none) :
    fragments.foldl (fun i f => (i.apply (name ++ '+' :: '=' :: f)).1)
        (i.apply (name ++ '=' :: first)).1 =
      (i.apply (name ++ '=' :: (first :: fragments).flatten)).1 := by
  rw [apply_set hname hplus hminus, apply_set hname hplus hminus]
  cases fragments using List.reverseRecOn with
  | nil => rw [List.foldl_nil, List.flatten_singleton]
  | append_singleton front last =>
      rw [List.foldl_append, List.foldl_cons, List.foldl_nil, apply_append hname hminus,
        stored_foldl_append hname hminus, stored_put, Option.getD_some]
      have hwhole : unescape first ++ (front.map unescape).flatten ++ unescape last =
          unescape (first :: (front ++ [last])).flatten := by
        rw [unescape_flatten hcuts]
        simp
      rw [hwhole, put_foldl_append hname hminus front hwell, put_put i _ hwell]

/-- The prefixes of a server that sends them over three tokens, the first two of them malformed. -/
theorem foldl_apply_append_prefix :
    [("\\x61)" : Str), "~@"].foldl (fun i f => (i.apply (("PREFIX" : Str) ++ '+' :: '=' :: f)).1)
        (default.apply (("PREFIX" : Str) ++ '=' :: ("(q" : Str))).1 =
      (default.apply (("PREFIX" : Str) ++ '=' :: ("(q\\x61)~@" : Str))).1 :=
  foldl_apply_append (by decide) (by decide) (by decide) "(q" ["\\x61)", "~@"] (by decide +kernel)
    fun _ => by decide +kernel

end Fragments

/-! ### Which escapes are undone -/

/-- Every backslash, `x` and two hexadecimal digits for the character of that code, from left to
right, and every other character for itself. -/
inductive Unescapes : Str → Str → Prop
  | nil : Unescapes [] []
  | escape {a b : Char} {m n : ℕ} {rest out : Str} (ha : digitValue 16 a = some m)
      (hb : digitValue 16 b = some n) (h : Unescapes rest out) :
      Unescapes ('\\' :: 'x' :: a :: b :: rest) (Char.ofNat (16 * m + n) :: out)
  | plain {c : Char} {rest out : Str}
      (hplain : ∀ a b more, c :: rest = '\\' :: 'x' :: a :: b :: more →
        digitValue 16 a = none ∨ digitValue 16 b = none)
      (h : Unescapes rest out) : Unescapes (c :: rest) (c :: out)

/-- A sign and one digit where two digits belong. -/
def Signed (v : Str) : Prop :=
  ∃ front digit rest, v = front ++ '\\' :: 'x' :: '+' :: digit :: rest ∧
    (digitValue 16 digit).isSome = true

theorem Unescapes.unique {v out out' : Str} (h : Unescapes v out) (h' : Unescapes v out') :
    out = out' := by
  induction h generalizing out' with
  | nil =>
      cases h'
      rfl
  | escape ha hb h ih =>
      cases h' with
      | escape ha' hb' h' =>
          rw [ih h', Option.some.inj (ha.symm.trans ha'), Option.some.inj (hb.symm.trans hb')]
      | plain hplain h' =>
          rcases hplain _ _ _ rfl with hnone | hnone
          · rw [ha] at hnone
            cases hnone
          · rw [hb] at hnone
            cases hnone
  | plain hplain h ih =>
      cases h' with
      | escape ha hb h' =>
          rcases hplain _ _ _ rfl with hnone | hnone
          · rw [ha] at hnone
            cases hnone
          · rw [hb] at hnone
            cases hnone
      | plain _ h' => rw [ih h']

/-- What two characters behind the marker are read as. -/
theorem fromStrRadix_pair (a b : Char) : fromStrRadix 16 255 [a, b] =
    if a = '+' then digitValue 16 b
    else (digitValue 16 a).bind fun m => (digitValue 16 b).map fun n => 16 * m + n := by
  unfold fromStrRadix ofDigitChars
  simp only [List.head?_cons, Option.some.injEq, List.tail_cons]
  by_cases hplus : a = '+'
  · rw [if_pos hplus, if_pos hplus]
    cases hb : digitValue 16 b with
    | none => simp [hb]
    | some n =>
        have hlt := lt_of_digitValue hb
        simp [hb, show n ≤ 255 by omega]
  · rw [if_neg hplus, if_neg hplus]
    cases ha : digitValue 16 a with
    | none => simp [ha]
    | some m =>
        cases hb : digitValue 16 b with
        | none => simp [ha, hb]
        | some n =>
            have hlt := lt_of_digitValue ha
            have hlt' := lt_of_digitValue hb
            simp [ha, hb, Nat.mul_comm m 16, show 16 * m + n ≤ 255 by omega]

/-- Unless a sign stands for a digit, what is undone is what two digits spell. -/
theorem unescapes_of_not_signed {v : Str} (h : ¬Signed v) : Unescapes v (unescape v) := by
  induction hn : v.length using Nat.strong_induction_on generalizing v with
  | _ n ih =>
      cases v with
      | nil => exact .nil
      | cons c rest =>
          cases hescaped : escaped (c :: rest) with
          | some d =>
              obtain ⟨a, b, more, k, heq, hk, rfl⟩ := escaped_eq_some hescaped
              rw [heq] at hescaped h hn ⊢
              rw [unescape_of_some hescaped]
              rw [fromStrRadix_pair] at hk
              by_cases hplus : a = '+'
              · rw [if_pos hplus] at hk
                subst hplus
                exact absurd ⟨[], b, more, rfl, by rw [hk]; rfl⟩ h
              · rw [if_neg hplus] at hk
                obtain ⟨m, ha, hk⟩ := Option.bind_eq_some_iff.mp hk
                obtain ⟨n', hb, rfl⟩ := Option.map_eq_some_iff.mp hk
                refine .escape ha hb (ih more.length (by simp at hn; omega) ?_ rfl)
                rintro ⟨front, digit, tail, rfl, hdigit⟩
                exact h ⟨'\\' :: 'x' :: a :: b :: front, digit, tail, rfl, hdigit⟩
          | none =>
              rw [unescape_of_none hescaped]
              refine .plain ?_ (ih rest.length (by simp at hn; omega) ?_ rfl)
              · intro a b more heq
                rw [heq] at hescaped
                have hnone : fromStrRadix 16 255 [a, b] = none := Option.map_eq_none_iff.mp hescaped
                rw [fromStrRadix_pair] at hnone
                split at hnone
                · exact Or.inr hnone
                · cases ha : digitValue 16 a with
                  | none => exact Or.inl rfl
                  | some m =>
                      rw [ha, Option.bind_some] at hnone
                      exact Or.inr (Option.map_eq_none_iff.mp hnone)
              · rintro ⟨front, digit, tail, rfl, hdigit⟩
                exact h ⟨c :: front, digit, tail, rfl, hdigit⟩

/-- What has no marker in front is taken as it is. -/
theorem Unescapes.of_plain {c : Char} {rest out : Str} (hplain : c ≠ '\\')
    (h : Unescapes (c :: rest) out) : ∃ out', out = c :: out' ∧ Unescapes rest out' := by
  cases h with
  | escape ha hb h => exact absurd rfl hplain
  | plain _ h => exact ⟨_, rfl, h⟩

theorem signed_cons {c : Char} {rest : Str} : Signed (c :: rest) ↔
    (∃ digit more, c :: rest = '\\' :: 'x' :: '+' :: digit :: more ∧
      (digitValue 16 digit).isSome = true) ∨ Signed rest := by
  constructor
  · rintro ⟨front, digit, more, heq, hdigit⟩
    cases front with
    | nil => exact Or.inl ⟨digit, more, heq, hdigit⟩
    | cons d front =>
        obtain ⟨-, rfl⟩ := List.cons.inj heq
        exact Or.inr ⟨front, digit, more, rfl, hdigit⟩
  · rintro (⟨digit, more, heq, hdigit⟩ | ⟨front, digit, more, rfl, hdigit⟩)
    · exact ⟨[], digit, more, heq, hdigit⟩
    · exact ⟨c :: front, digit, more, rfl, hdigit⟩

/-- A sign is found behind a marker only. -/
theorem signed_cons_of_ne {c : Char} {rest : Str} (hc : c ≠ '\\') :
    Signed (c :: rest) ↔ Signed rest := by
  rw [signed_cons, or_iff_right]
  rintro ⟨digit, more, heq, -⟩
  exact hc (List.cons.inj heq).1

theorem ne_of_digitValue {c d : Char} {m : ℕ} (h : digitValue 16 c = some m)
    (hd : digitValue 16 d = none) : c ≠ d := by
  rintro rfl
  rw [hd] at h
  cases h

/-- **A sign for a digit makes the value shorter** than it should be. -/
theorem length_unescape {v out : Str} (h : Unescapes v out) :
    (unescape v).length ≤ out.length ∧ (Signed v → (unescape v).length < out.length) := by
  induction hn : v.length using Nat.strong_induction_on generalizing v out with
  | _ n ih =>
      cases h with
      | nil => exact ⟨le_rfl, fun ⟨front, _, _, heq, _⟩ => by simp at heq⟩
      | @escape a b m k rest out ha hb h =>
          have hslash : digitValue 16 '\\' = none := rfl
          have hplus : a ≠ '+' := ne_of_digitValue ha rfl
          have hescaped : escaped ('\\' :: 'x' :: a :: b :: rest) =
              some (Char.ofNat (16 * m + k)) := by
            rw [escaped, fromStrRadix_pair, if_neg hplus, ha, Option.bind_some, hb, Option.map_some,
              Option.map_some]
          obtain ⟨hle, hlt⟩ := ih rest.length (by simp at hn; omega) h rfl
          rw [unescape_of_some hescaped, List.length_cons, List.length_cons]
          refine ⟨Nat.succ_le_succ hle, fun hsigned => Nat.succ_lt_succ (hlt ?_)⟩
          rcases signed_cons.mp hsigned with ⟨digit, more, heq, -⟩ | hsigned
          · cases heq
            exact absurd rfl hplus
          · rwa [signed_cons_of_ne (by decide), signed_cons_of_ne (ne_of_digitValue ha hslash),
              signed_cons_of_ne (ne_of_digitValue hb hslash)] at hsigned
      | @plain c rest out hplain h =>
          cases hescaped : escaped (c :: rest) with
          | some d =>
              -- a sign was taken for a digit, and four characters have gone for one
              obtain ⟨a, b, more, k, heq, hk, -⟩ := escaped_eq_some hescaped
              rw [fromStrRadix_pair] at hk
              by_cases hplus : a = '+'
              swap
              · rw [if_neg hplus] at hk
                obtain ⟨m, ha, hk⟩ := Option.bind_eq_some_iff.mp hk
                obtain ⟨l, hb, -⟩ := Option.map_eq_some_iff.mp hk
                rcases hplain a b more heq with hnone | hnone
                · rw [ha] at hnone
                  cases hnone
                · rw [hb] at hnone
                  cases hnone
              rw [if_pos hplus] at hk
              subst hplus
              obtain ⟨rfl, rfl⟩ := List.cons.inj heq
              obtain ⟨out₁, rfl, h₁⟩ := h.of_plain (by decide)
              obtain ⟨out₂, rfl, h₂⟩ := h₁.of_plain (by decide)
              obtain ⟨out₃, rfl, h₃⟩ := h₂.of_plain (ne_of_digitValue hk rfl)
              have hle := (ih more.length (by simp at hn; omega) h₃ rfl).1
              rw [unescape_of_some hescaped]
              simp only [List.length_cons]
              exact ⟨by omega, fun _ => by omega⟩
          | none =>
              obtain ⟨hle, hlt⟩ := ih rest.length (by simp at hn; omega) h rfl
              rw [unescape_of_none hescaped, List.length_cons, List.length_cons]
              refine ⟨Nat.succ_le_succ hle, fun hsigned => Nat.succ_lt_succ (hlt ?_)⟩
              rcases signed_cons.mp hsigned with ⟨digit, more, heq, hdigit⟩ | hsigned
              · rw [heq, escaped, fromStrRadix_pair, if_pos rfl, Option.map_eq_none_iff] at hescaped
                rw [hescaped] at hdigit
                cases hdigit
              · exact hsigned

/-- **Where the escapes undone are just those of two digits.** -/
theorem unescape_iff (v : Str) : (∀ out, Unescapes v out ↔ unescape v = out) ↔ ¬Signed v := by
  constructor
  · intro h hsigned
    have hself := (h _).mpr rfl
    exact absurd ((length_unescape hself).2 hsigned) (lt_irrefl _)
  · intro h out
    have hself := unescapes_of_not_signed h
    constructor
    · exact fun hout => hself.unique hout
    · rintro rfl
      exact hself

/-- A backslash, an `x`, a sign and one digit are undone, though they are no escape. -/
theorem unescape_sign : ¬∀ v out : Str, Unescapes v out ↔ unescape v = out := by
  intro h
  have hlength := (length_unescape ((h "a\\x+4b" _).mpr rfl)).2 ⟨"a", '4', "b", by
    decide, by decide⟩
  exact lt_irrefl _ hlength

end ObbyClient.Isupport

import ObbyClient.Engine.Anew
import ObbyClient.Engine.Holding

/-!
# Messages that were split across several lines

The lines of one message arrive in a batch, among lines of other batches and lines of none, and the
batch is folded as one message when it closes.

* `spelled`, `spelled_cuts` — the text that lines spell, and that no way of cutting a text shows in
  it;
* `foldl_joinLines` — joining the lines of one message;
* `Client.trace_batches` — the batches at any line of a run, read off the lines before it;
* `Client.multiline_reassembles` — what closing the batch folds.
-/

namespace ObbyClient

/-! ### The text that lines spell -/

/-- The text of a first line and the lines behind it; a line that is flagged continues the one
before. -/
def spelled (first : Str) (rest : List (Bool × Str)) : Str :=
  first ++ rest.flatMap fun line => (if line.1 then [] else ['\n']) ++ line.2

/-- The pieces of one line of text: the first one begins the line, the others continue it. -/
def flagged : List Str → List (Bool × Str)
  | [] => []
  | piece :: pieces => (false, piece) :: pieces.map fun piece => (true, piece)

theorem spelled_append (first : Str) (rest more : List (Bool × Str)) :
    spelled first (rest ++ more) = spelled (spelled first rest) more := by
  unfold spelled
  rw [List.flatMap_append, List.append_assoc]

theorem spelled_continued (first : Str) (pieces : List Str) :
    spelled first (pieces.map fun piece => (true, piece)) = first ++ pieces.flatten := by
  unfold spelled
  rw [List.flatMap_map]
  simp only [if_pos, List.nil_append, List.flatMap_id']

/-- Lines that were cut into pieces spell the lines, a break between any two. -/
theorem spelled_flagged (first : Str) {cuts : List (List Str)} (hpieces : ∀ cut ∈ cuts, cut ≠ []) :
    spelled first (cuts.flatMap flagged) =
      first ++ cuts.flatMap fun cut => '\n' :: cut.flatten := by
  induction cuts generalizing first with
  | nil => rfl
  | cons cut cuts ih =>
    obtain ⟨piece, pieces, rfl⟩ := List.exists_cons_of_ne_nil (hpieces cut List.mem_cons_self)
    have hcut : spelled first (flagged (piece :: pieces)) =
        first ++ '\n' :: (piece :: pieces).flatten := by
      have hfirst : spelled first [(false, piece)] = first ++ '\n' :: piece := by
        unfold spelled
        rw [List.flatMap_singleton]
        rfl
      rw [flagged, ← List.singleton_append, spelled_append, hfirst, spelled_continued,
        List.flatten_cons, List.append_assoc, List.cons_append]
    rw [List.flatMap_cons, spelled_append, hcut, ih _ fun c hc =>
      hpieces c (List.mem_cons_of_mem _ hc), List.flatMap_cons, List.append_assoc]

theorem intercalate_cons (sep first : Str) (rest : List Str) :
    sep.intercalate (first :: rest) = first ++ rest.flatMap fun line => sep ++ line := by
  induction rest generalizing first with
  | nil => rw [List.intercalate_singleton, List.flatMap_nil, List.append_nil]
  | cons line rest ih =>
    rw [List.intercalate_cons_cons, ih, List.flatMap_cons, List.append_assoc, List.append_assoc]

/-- **However a text is cut**, into lines and these into pieces, it is spelled as it was. -/
theorem spelled_cuts {text first : Str} {rest : List (Bool × Str)} {cuts : List (List Str)}
    (htext : cuts.map List.flatten = text.splitOn '\n') (hpieces : ∀ cut ∈ cuts, cut ≠ [])
    (hlines : (false, first) :: rest = cuts.flatMap flagged) : spelled first rest = text := by
  cases cuts with
  | nil => cases hlines
  | cons cut cuts =>
    obtain ⟨piece, pieces, rfl⟩ := List.exists_cons_of_ne_nil (hpieces cut List.mem_cons_self)
    rw [List.flatMap_cons, flagged, List.cons_append] at hlines
    obtain ⟨hfirst, rfl⟩ := List.cons.inj hlines
    obtain rfl : first = piece := (Prod.mk.inj hfirst).2
    have hwhole : ['\n'].intercalate (text.splitOn '\n') = text := List.intercalate_splitOn '\n'
    rw [← htext, List.map_cons, intercalate_cons, List.flatMap_map] at hwhole
    rw [spelled_append, spelled_continued,
      spelled_flagged _ fun c hc => hpieces c (List.mem_cons_of_mem _ hc)]
    exact hwhole

/-! ### Joining the lines of one message -/

/-- A line as the join reads it: whether it is flagged, and its text. -/
def piece (message : Message) : Bool × Str :=
  (message.tags.contains Client.multilineConcat, (message.param 1).getD [])

/-- The first line of a message, with the text of all of them. -/
def joined (first : Message) (rest : List Message) : Message :=
  { first with
    params := first.params.modify 1 fun text => spelled text (rest.map piece) }

/-- The lines of one message: all of one kind, to one target, each with a text. -/
structure OneMessage (lines : List Message) : Prop where
  kind : (∀ m ∈ lines, m.is "PRIVMSG" = true) ∨ ∀ m ∈ lines, m.is "NOTICE" = true
  target : ∀ m ∈ lines, ∀ m' ∈ lines, m.param 0 = m'.param 0
  text : ∀ m ∈ lines, (m.param 1).isSome

theorem is_of_is {m m' : Message} {command : Str} (h : m.is command = true)
    (h' : m'.is command = true) : m.is m'.command = true := by
  simp only [Message.is, eqIgnoreAsciiCase, beq_iff_eq] at h h' ⊢
  exact h.trans h'.symm

theorem joined_concat (first : Message) (rest : List Message) (m : Message) :
    joined first (rest ++ [m]) =
      { joined first rest with
        params := (joined first rest).params.modify 1 fun text =>
          text ++ (if m.tags.contains Client.multilineConcat then [] else ['\n']) ++
            (m.param 1).getD [] } := by
  have hspelled : ∀ text, spelled text ((rest ++ [m]).map piece) =
      spelled text (rest.map piece) ++
        (if m.tags.contains Client.multilineConcat then [] else ['\n']) ++ (m.param 1).getD [] := by
    intro text
    rw [List.map_append, spelled_append, List.map_singleton, List.append_assoc]
    exact congrArg (spelled text (rest.map piece) ++ ·) (List.flatMap_singleton _ _)
  unfold joined
  rw [List.modify_modify_eq]
  simp only [hspelled]
  rfl

theorem joined_param_zero (first : Message) (rest : List Message) :
    (joined first rest).param 0 = first.param 0 := by
  show (first.params.modify 1 _)[0]? = first.params[0]?
  rw [List.getElem?_modify]
  exact Option.map_id_apply

/-- **The lines of one message are joined to one.** -/
theorem foldl_joinLines {first : Message} {rest : List Message} (h : OneMessage (first :: rest)) :
    (first :: rest).foldl Client.joinLines [] = [joined first rest] := by
  induction rest using List.reverseRecOn with
  | nil =>
    show [first] = [joined first []]
    have hid : (fun text => spelled text (([] : List Message).map piece)) = id :=
      funext fun text => List.append_nil text
    unfold joined
    rw [hid, List.modify_id]
  | append_singleton rest m ih =>
    have hbefore : OneMessage (first :: rest) := by
      have hsub : ∀ m' ∈ first :: rest, m' ∈ first :: (rest ++ [m]) :=
        fun m' hm' => List.mem_append_left [m] hm'
      refine ⟨?_, fun a ha b hb => h.target a (hsub a ha) b (hsub b hb), fun a ha =>
        h.text a (hsub a ha)⟩
      exact h.kind.imp (fun hk a ha => hk a (hsub a ha)) (fun hk a ha => hk a (hsub a ha))
    have hfirst : first ∈ first :: (rest ++ [m]) := List.mem_cons_self
    have hlast : m ∈ first :: (rest ++ [m]) :=
      List.mem_append_right (first :: rest) (List.mem_singleton_self m)
    have htext : (!(m.is "PRIVMSG" || m.is "NOTICE")) = false := by
      obtain hk | hk := h.kind
      · rw [hk m hlast, Bool.true_or, Bool.not_true]
      · rw [hk m hlast, Bool.or_true, Bool.not_true]
    have hkind : (joined first rest).is m.command = true := by
      obtain hk | hk := h.kind
      · exact is_of_is (hk first hfirst) (hk m hlast)
      · exact is_of_is (hk first hfirst) (hk m hlast)
    have htarget : (joined first rest).param 0 = m.param 0 :=
      (joined_param_zero first rest).trans (h.target first hfirst m hlast)
    rw [← List.cons_append, List.foldl_append, ih hbefore, joined_concat]
    show Client.joinLines [joined first rest] m = _
    unfold Client.joinLines
    rw [List.getLast?_singleton]
    dsimp only
    rw [htext, hkind, htarget]
    have hjoins : ¬ (false || !true || decide (m.param 0 ≠ m.param 0)) = true := by simp
    rw [if_neg hjoins]
    rfl

/-! ### The batches of a run -/

namespace Batches

theorem calls_append (batches : Batches) (cs ds : List Call) :
    batches.calls (cs ++ ds) = (batches.calls cs).calls ds := List.foldl_append

theorem limits_calls (batches : Batches) (cs : List Call) :
    (batches.calls cs).maxBuffered = batches.maxBuffered := by
  induction cs generalizing batches with
  | nil => rfl
  | cons c cs ih => exact (ih (batches.call c)).trans (limits_call batches c).1

/-- Lines whose ids are their own are all kept. -/
theorem kept_of_distinct {messages : List Message}
    (h : messages.Pairwise fun a b => ∀ id, a.tag "msgid" = some id → b.tag "msgid" ≠ some id) :
    kept messages = messages := by
  induction messages using List.reverseRecOn with
  | nil => rfl
  | append_singleton messages m ih =>
    obtain ⟨hbefore, -, hlast⟩ := List.pairwise_append.mp h
    rw [kept_concat, ih hbefore, if_neg]
    intro hrepeats
    obtain ⟨id, hid, hany⟩ := (Option.any_eq_true _ _).mp hrepeats
    obtain ⟨a, ha, hsame⟩ := List.any_eq_true.mp hany
    exact hlast a ha m (List.mem_singleton_self m) id (beq_iff_eq.mp hsame) hid

end Batches

namespace Client

open Batches

variable [Primitives]

omit [Primitives] in
/-- What a line asks of the batches; `none` for a line that a handler claims. -/
def callOf (message : Message) : Option Call :=
  if claims message then none
  else if message.is "BATCH" then
    if ((message.param 0).getD []).head? = some '+' then some (.opened message)
    else some (.close message)
  else some (.route message)

/-- What a line makes of the batches. -/
theorem handleMessage_batches (c : Client) (message : Message) :
    (c.handleMessage message).batches = c.batches.calls (callOf message).toList := by
  have hnoted : (c.noted message).batches = c.batches := rfl
  rw [handleMessage_eq]
  unfold callOf
  by_cases hclaims : claims message = true
  · rw [if_pos hclaims, dispatch_batches _ hclaims, hnoted]
    rfl
  rw [if_neg hclaims, dispatch_of_not_claims _ (Bool.eq_false_iff.mpr hclaims)]
  by_cases hbatch : message.is "BATCH" = true
  · rw [if_pos hbatch, if_pos hbatch]
    unfold handleBatch
    split
    · rw [hnoted]
      rfl
    · rw [hnoted]
      show _ = ((c.batches.close message).map Prod.fst).getD c.batches
      cases c.batches.close message with
      | none => rfl
      | some result => exact folds_batches _ _ _
  · rw [if_neg hbatch, if_neg hbatch]
    show _ = (c.batches.route message).getD c.batches
    unfold handleOther
    rw [hnoted]
    cases c.batches.route message with
    | none =>
      dsimp only
      rw [fold_eq]
      rfl
    | some batches => rfl

/-- The calls that some lines make. -/
def callsOf (lines : List (Client × Message)) : List Call :=
  lines.filterMap fun p => callOf p.2

/-- **The batches at any line of a run** are what the lines before it make of the first ones. -/
theorem trace_batches {c : Client} {inputs : List Input} (hup : Input.disconnected ∉ inputs)
    {before after : List (Client × Message)} {p : Client × Message}
    (htrace : c.trace inputs = before ++ p :: after) :
    p.1.batches = c.batches.calls (callsOf before) := by
  refine trace_history (Q := fun seen d => d.batches = c.batches.calls (callsOf seen))
    (fun _ _ _ _ _ h => h) ?_ ?_ rfl htrace
  · intro seen d message h
    rw [handleMessage_batches, h, ← calls_append]
    unfold callsOf
    rw [List.filterMap_append]
    rfl
  · intro input hinput hbytes seen d h
    rw [d.step_batches hbytes fun heq => hup (heq ▸ hinput)]
    exact h

/-! ### What closing a batch folds -/

omit [Primitives] in
/-- The lines that go into the batch of a reference. -/
def goesInto (reference : Str) (message : Message) : Bool :=
  message.tag "batch" == some reference && !message.is "BATCH" && !claims message

omit [Primitives] in
theorem routed_route (reference : Str) (message : Message) :
    routed reference [.route message] =
      if message.tag "batch" = some reference then [message] else [] := by
  unfold routed
  by_cases h : message.tag "batch" = some reference
  · simp only [List.filterMap_cons, if_pos h, List.filterMap_nil]
  · simp only [List.filterMap_cons, if_neg h, List.filterMap_nil]

omit [Primitives] in
theorem routed_callOf (reference : Str) (messages : List Message) :
    routed reference (messages.filterMap callOf) = messages.filter (goesInto reference) := by
  induction messages with
  | nil => rfl
  | cons m rest ih =>
    have hsplit : (m :: rest).filterMap callOf = (callOf m).toList ++ rest.filterMap callOf :=
      List.filterMap_append (l := [m])
    rw [hsplit, routed_append, ih, List.filter_cons]
    unfold goesInto callOf
    by_cases hclaims : claims m = true
    · rw [if_pos hclaims, hclaims, Bool.not_true, Bool.and_false, if_neg Bool.false_ne_true]
      rfl
    rw [if_neg hclaims, Bool.eq_false_iff.mpr hclaims]
    by_cases hbatch : m.is "BATCH" = true
    · rw [if_pos hbatch, hbatch, Bool.not_true, Bool.and_false, Bool.false_and,
        if_neg Bool.false_ne_true]
      split
      · rfl
      · rfl
    rw [if_neg hbatch, Bool.eq_false_iff.mpr hbatch, Bool.not_false, Bool.and_true, Bool.and_true]
    by_cases htag : m.tag "batch" = some reference
    · rw [if_pos (beq_iff_eq.mpr htag), Option.toList_some, routed_route, if_pos htag]
      rfl
    · rw [if_neg (mt beq_iff_eq.mp htag), Option.toList_some, routed_route, if_neg htag]
      rfl

omit [Primitives] in
theorem callOf_opening {message : Message} {reference : Str} (hbatch : message.is "BATCH" = true)
    (hmarked : marked '+' message = some reference) :
    callOf message = some (.opened message) := by
  have hhead : ((message.param 0).getD []).head? = some '+' := by
    unfold marked at hmarked
    split at hmarked
    · rename_i sign rest hparam
      obtain ⟨hsign, -⟩ := Option.ite_none_right_eq_some.mp hmarked
      rw [hparam, hsign]
      rfl
    · cases hmarked
  have hclaims : ¬ claims message = true := by simp [claims_of_batch hbatch]
  unfold callOf
  rw [if_neg hclaims, if_pos hbatch, if_pos hhead]

omit [Primitives] in
theorem closes_of_callOf {message line : Message} {reference : Str}
    (h : callOf message = some (.close line)) (hmarked : marked '-' line = some reference) :
    Closes reference message := by
  unfold callOf at h
  split at h
  · cases h
  split at h
  · rename_i hbatch
    split at h
    · cases h
    · obtain rfl := Call.close.inj (Option.some.inj h)
      exact ⟨hbatch, hmarked⟩
  · cases h

/-- A client that came to be somehow holds no more lines in a batch than it may. -/
theorem Reachable.maxBuffered {c : Client} (h : c.Reachable) :
    c.batches.maxBuffered = defaultMaxBuffered := by
  obtain ⟨config, inputs, rfl⟩ := h
  exact congrArg Batches.maxBuffered (run_limits config inputs)

/-- **What is in a batch** that a line of a run opened, at any later line that finds it open. -/
theorem trace_collects {c : Client} {inputs : List Input} (hup : Input.disconnected ∉ inputs)
    {before between after : List (Client × Message)} {c₀ : Client} {opening : Message}
    {p : Client × Message} {reference kind : Str}
    (htrace : c.trace inputs = before ++ (c₀, opening) :: (between ++ p :: after))
    (hopening : opening.is "BATCH" = true) (haccepts : c₀.batches.Accepts opening reference kind)
    (hheld : ∀ q ∈ between, ¬ Closes reference q.2) :
    ∃ batch, p.1.batches.byReference[reference]? = some batch ∧
      Collects opening kind c.batches.maxBuffered
        ((between.map Prod.snd).filter (goesInto reference)) batch := by
  have hsplit : c.trace inputs = (before ++ (c₀, opening) :: between) ++ p :: after := by
    rw [htrace, List.append_assoc, List.cons_append]
  have hc₀ : c₀.batches = c.batches.calls (callsOf before) := trace_batches hup htrace
  have hp : p.1.batches = (c₀.batches.opened opening).calls (callsOf between) := by
    have hcalls : callsOf (before ++ (c₀, opening) :: between) =
        callsOf before ++ .opened opening :: callsOf between := by
      unfold callsOf
      rw [List.filterMap_append, List.filterMap_cons, callOf_opening hopening haccepts.1]
    rw [trace_batches hup hsplit, hcalls, calls_append, ← hc₀]
    rfl
  have hopen : ∀ line, .close line ∈ callsOf between → marked '-' line ≠ some reference := by
    intro line hline hmarked
    obtain ⟨q, hq, hcall⟩ := List.mem_filterMap.mp hline
    exact hheld q hq (closes_of_callOf hcall hmarked)
  have hlimit : c₀.batches.maxBuffered = c.batches.maxBuffered := by
    rw [hc₀, limits_calls]
  obtain ⟨batch, hbatch, hcollects, -⟩ := calls_collects haccepts (callsOf between) hopen
  have hrouted : routed reference (callsOf between) =
      (between.map Prod.snd).filter (goesInto reference) := by
    rw [← routed_callOf, List.filterMap_map]
    rfl
  rw [hrouted, hlimit] at hcollects
  exact ⟨batch, hp ▸ hbatch, hcollects⟩

/-- **Multiline messages reassemble.**  In a run of a client that came to be somehow and stays
connected, a line opens a multiline batch and a later one closes it, and between them stand any
lines at all, none of which closes the batch.  If those that go into it are the lines of one
message, not too many and none twice, then closing it folds one line: the first of them, with the
text that all of them spell, which is any text that was cut so. -/
theorem multiline_reassembles (c : Client) (hc : c.Reachable) (inputs : List Input)
    (hup : Input.disconnected ∉ inputs) (before between after : List (Client × Message))
    (c₀ d : Client) (opening last : Message) (reference : Str)
    (htrace : c.trace inputs = before ++ (c₀, opening) :: (between ++ (d, last) :: after))
    (hopening : opening.is "BATCH" = true)
    (haccepts : c₀.batches.Accepts opening reference multilineBatch)
    (hheld : ∀ p ∈ between, ¬ Closes reference p.2) (hlast : Closes reference last)
    (first : Message) (rest : List Message)
    (hlines : (between.map Prod.snd).filter (goesInto reference) = first :: rest)
    (hmessage : OneMessage (first :: rest)) (hcount : (first :: rest).length ≤ 1024)
    (hids : (first :: rest).Pairwise fun a b => ∀ id, a.tag "msgid" = some id →
      b.tag "msgid" ≠ some id) :
    ∃ historical text, first.param 1 = some text ∧
      (historical = true ↔ Nested d.batches chathistoryBatch reference) ∧
      d.handleMessage last =
        { d.noted last with
          batches := { d.batches with byReference := d.batches.byReference.erase reference } }.fold
          { first with params := first.params.set 1 (spelled text (rest.map piece)) } historical ∧
      ∀ (whole : Str) (cuts : List (List Str)), cuts.map List.flatten = whole.splitOn '\n' →
        (∀ cut ∈ cuts, cut ≠ []) → (false, text) :: rest.map piece = cuts.flatMap flagged →
        spelled text (rest.map piece) = whole := by
  obtain ⟨batch, hbatch, hcollects⟩ := trace_collects hup htrace hopening haccepts hheld
  obtain ⟨historical, hhistorical, hdelivers⟩ := d.handleMessage_delivers hlast hbatch
  obtain ⟨text, htext⟩ := Option.isSome_iff_exists.mp (hmessage.text first List.mem_cons_self)
  -- the batch holds the lines of the message, all of them, and they are joined to one
  have hbatchLines : batchLines batch.toClosedBatch = [joined first rest] := by
    have hmessages : batch.toClosedBatch =
        ⟨multilineBatch, opening.params.drop 2, opening.tag "batch", first :: rest, false⟩ := by
      have hall : (first :: rest).length ≤ defaultMaxBuffered := hcount
      rw [hcollects.closed, hlines, hc.maxBuffered, collected, kept_of_distinct hids,
        List.take_of_length_le hall, decide_eq_false (Nat.not_lt.mpr hall)]
    rw [hmessages, batchLines, if_pos rfl]
    exact foldl_joinLines hmessage
  have hjoined : joined first rest =
      { first with params := first.params.set 1 (spelled text (rest.map piece)) } := by
    unfold joined
    rw [List.modify_eq_set, show first.params[1]? = some text from htext]
    rfl
  refine ⟨historical, text, htext, hhistorical, ?_, ?_⟩
  · rw [hdelivers, hbatchLines, ← hjoined]
    rfl
  · intro whole cuts hwhole hpieces hcuts
    exact spelled_cuts hwhole hpieces hcuts

omit [Primitives] in
/-- Three lines of one message, the second a continuation, with a line of no batch between them. -/
theorem multiline_reassembles_three : letI := Primitives.ascii
    let c := (new (.new "me")).run [.connected]
    let lines : List Str := [":s BATCH +m draft/multiline #a\n",
      "@batch=m :b!u@h PRIVMSG #a :one\n",
      ":x!u@h PRIVMSG #a :hi\n", "@batch=m;draft/multiline-concat :b!u@h PRIVMSG #a : two\n",
      "@batch=m :b!u@h PRIVMSG #a :three\n", ":s BATCH -m\n"]
    let read := fun line : Str => (readLine (Utf8.encode line)).getD (.new "" [])
    let first := read "@batch=m :b!u@h PRIVMSG #a :one\n"
    ∃ d last historical, (d, last) ∈ c.trace [.bytes (Utf8.encode lines.flatten)] ∧
      d.handleMessage last =
        { d.noted last with
          batches := { d.batches with byReference := d.batches.byReference.erase "m" } }.fold
          { first with params := ["#a", "one two\nthree"] } historical := by
  let _ := Primitives.ascii
  intro c lines read first
  let opening := read ":s BATCH +m draft/multiline #a\n"
  let between := [first, read ":x!u@h PRIVMSG #a :hi\n",
    read "@batch=m;draft/multiline-concat :b!u@h PRIVMSG #a : two\n",
    read "@batch=m :b!u@h PRIVMSG #a :three\n"]
  let last := read ":s BATCH -m\n"
  let rest := between.drop 2
  have hrun : (c.trace [.bytes (Utf8.encode lines.flatten)]).map Prod.snd =
        opening :: (between ++ [last]) ∧
      opening.is "BATCH" = true ∧ c.batches.Accepts opening "m" multilineBatch ∧
      (∀ m ∈ between, ¬ (m.is "BATCH" = true ∧ marked '-' m = some ("m" : Str))) ∧
      (last.is "BATCH" = true ∧ marked '-' last = some ("m" : Str)) ∧
      between.filter (goesInto "m") = first :: rest ∧
      (∀ m ∈ first :: rest, m.is "PRIVMSG" = true ∧ m.param 0 = some ("#a" : Str) ∧
        (m.param 1).isSome ∧ m.tag "msgid" = none) ∧
      { first with params := first.params.set 1 (spelled "one" (rest.map piece)) } =
        { first with params := ["#a", "one two\nthree"] } ∧ first.param 1 = some ("one" : Str) := by
    unfold Accepts
    decide +kernel
  obtain ⟨hread, hopening, haccepts, hheld, hlast, hlines, hall, hjoined, htext⟩ := hrun
  obtain ⟨⟨c₀, _⟩, tail, htrace, rfl, htail⟩ := List.map_eq_cons_iff.mp hread
  obtain ⟨held, ends, rfl, hbetween, hends⟩ := List.map_eq_append_iff.mp htail
  obtain ⟨⟨d, _⟩, more, rfl, rfl, hmore⟩ := List.map_eq_cons_iff.mp hends
  obtain rfl := List.map_eq_nil_iff.mp hmore
  have hup : Input.disconnected ∉ [Input.bytes (Utf8.encode lines.flatten)] := by simp
  have hbatches := @trace_batches Primitives.ascii c _ hup [] _ _ htrace
  have hmessage : OneMessage (first :: rest) :=
    ⟨.inl fun m hm => (hall m hm).1,
      fun m hm m' hm' => (hall m hm).2.1.trans (hall m' hm').2.1.symm, fun m hm =>
        (hall m hm).2.2.1⟩
  have hids : (first :: rest).Pairwise fun a b => ∀ id, a.tag "msgid" = some id →
      b.tag "msgid" ≠ some id := by
    refine List.pairwise_of_forall_mem_list fun a ha b _ id hid => ?_
    rw [(hall a ha).2.2.2] at hid
    cases hid
  obtain ⟨historical, text, hfirst, -, hfold, -⟩ := @multiline_reassembles Primitives.ascii c
    ⟨.new "me", [.connected], rfl⟩ _ hup [] held [] c₀ d _ _ "m" htrace hopening
    (hbatches ▸ haccepts) (fun p hp => hheld p.2 (hbetween ▸ List.mem_map_of_mem hp)) hlast first
      rest
    (hbetween ▸ hlines) hmessage (by decide) hids
  obtain rfl : text = "one" := Option.some.inj (hfirst.symm.trans htext)
  rw [hjoined] at hfold
  refine ⟨d, _, historical, ?_, hfold⟩
  rw [htrace]
  exact List.mem_cons_of_mem _ (List.mem_append_right held List.mem_cons_self)

end Client

end ObbyClient

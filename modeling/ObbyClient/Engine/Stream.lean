import ObbyClient.Engine.Outbound
import ObbyClient.Engine.Trace

/-!
# How a connection's bytes are cut into lines

* `Client.framer_step` — what a host does other than feed bytes leaves the buffer alone, so that no
  reachable client holds a line feed or more than it may: `Client.Reachable.held`;
* `Client.Uncut`, `Client.cuts_agree_iff` — the bytes that mean the same however they are cut;
* `Client.handled_fresh_iff` — the clients whose next connection is read from scratch.
-/

namespace ObbyClient

open Framing

/-! ### A line that ends in a word -/

namespace Message

/-- What is left of a line that ends in a word behind a space. -/
def Ends (rest : Str) : Prop :=
  rest = "A" ∨ ∃ before : Str, before ≠ [] ∧ before.head? ≠ some ' ' ∧ rest = before ++ " A"

theorem ends_trimStartSpaces (before : Str) : Ends (trimStartSpaces (before ++ " A")) := by
  induction before with
  | nil => exact .inl rfl
  | cons c before ih =>
      by_cases hc : c = ' '
      · rw [hc, List.cons_append, trimStartSpaces_space]
        exact ih
      · rw [List.cons_append, trimStartSpaces_cons_ne hc]
        exact .inr ⟨c :: before, List.cons_ne_nil _ _, by simpa using hc, rfl⟩

/-- What a section takes leaves the word. -/
theorem ends_splitOnce (after : Str) : ∃ raw remainder,
    splitOnce ' ' (after ++ " A") = some (raw, remainder) ∧ Ends (trimStartSpaces remainder) := by
  cases hs : splitOnce ' ' after with
  | none => exact ⟨after, "A", splitOnce_append_sep (splitOnce_eq_none.mp hs) "A", .inl rfl⟩
  | some p =>
      obtain ⟨rfl, hraw⟩ := splitOnce_eq_some.mp hs
      refine ⟨p.1, p.2 ++ " A", ?_, ends_trimStartSpaces p.2⟩
      rw [List.append_assoc, List.cons_append]
      exact splitOnce_append_sep hraw _

theorem takeTags_ends {rest : Str} (h : Ends rest) :
    ∃ tags rest', takeTags rest = .ok (tags, rest') ∧ Ends rest' := by
  obtain rfl | ⟨before, hne, -, rfl⟩ := id h
  · exact ⟨[], "A", rfl, h⟩
  · cases before with
    | nil => exact absurd rfl hne
    | cons c after =>
        by_cases hc : c = '@'
        · obtain ⟨raw, remainder, hs, hends⟩ := ends_splitOnce after
          refine ⟨Tags.parse raw, trimStartSpaces remainder, ?_, hends⟩
          rw [hc, List.cons_append, takeTags, hs]
        · refine ⟨[], _, ?_, h⟩
          rw [List.cons_append, takeTags]
          simpa using hc

theorem takeSource_ends {rest : Str} (h : Ends rest) :
    ∃ source rest', takeSource rest = .ok (source, rest') ∧ Ends rest' := by
  obtain rfl | ⟨before, hne, -, rfl⟩ := id h
  · exact ⟨none, "A", rfl, h⟩
  · cases before with
    | nil => exact absurd rfl hne
    | cons c after =>
        by_cases hc : c = ':'
        · obtain ⟨raw, remainder, hs, hends⟩ := ends_splitOnce after
          refine ⟨some (Source.parse raw), trimStartSpaces remainder, ?_, hends⟩
          rw [hc, List.cons_append, takeSource, hs]
        · refine ⟨none, _, ?_, h⟩
          rw [List.cons_append, takeSource]
          simpa using hc

theorem takeCommand_ends (tags : Tags) (source : Option Source) {rest : Str} (h : Ends rest) :
    ∃ message, takeCommand tags source rest = .ok message := by
  have hcommand : ((splitOnce ' ' rest).getD (rest, [])).1 ≠ [] := by
    obtain rfl | ⟨before, hne, hhead, rfl⟩ := h
    · decide
    · cases before with
      | nil => exact absurd rfl hne
      | cons c after =>
          have hc : c ≠ ' ' := by simpa using hhead
          obtain ⟨raw, remainder, hs, -⟩ := ends_splitOnce after
          rw [List.cons_append, splitOnce_cons_ne hc, hs]
          exact List.cons_ne_nil _ _
  exact ⟨_, if_neg hcommand⟩

/-- A line that ends in a word is a message, unless it opens with a space. -/
theorem parse_ends {before : Str} (h : before ≠ []) (hhead : before.head? ≠ some ' ') :
    ∃ message, parse (before ++ " A\n") = .ok message := by
  have hline : trimEndCrLf (before ++ " A\n") = before ++ " A" := by
    rw [show (" A\n" : Str) = " A" ++ ['\n'] from rfl, ← List.append_assoc, trimEndCrLf,
      List.rdropWhile_concat_pos _ _ _ (by decide), show (" A" : Str) = [' '] ++ ['A'] from rfl,
      ← List.append_assoc, List.rdropWhile_concat_neg _ _ _ (by decide)]
  obtain ⟨tags, rest, htags, hrest⟩ := takeTags_ends (.inr ⟨before, h, hhead, rfl⟩)
  obtain ⟨source, rest', hsource, hrest'⟩ := takeSource_ends hrest
  obtain ⟨message, hmessage⟩ := takeCommand_ends tags source hrest'
  refine ⟨message, ?_⟩
  rw [parse, hline, htags]
  dsimp only
  rw [hsource]
  exact hmessage

/-- A line that opens with a space is none. -/
theorem parse_space (rest : Str) : parse (' ' :: rest) = .error .missingCommand := by
  obtain ⟨line, hline⟩ : ∃ line, trimEndCrLf (' ' :: rest) = ' ' :: line := by
    have hstart := trimEndCrLf_prefix (' ' :: rest)
    cases hkept : trimEndCrLf (' ' :: rest) with
    | nil =>
        have hall := List.rdropWhile_eq_nil_iff.mp hkept ' ' List.mem_cons_self
        exact absurd hall (by decide)
    | cons c line =>
        rw [hkept, List.cons_prefix_cons] at hstart
        exact ⟨line, by rw [hstart.1]⟩
  rw [parse, hline]
  rfl

end Message

namespace Client

/-! ### What leaves the buffer alone -/

@[simp] theorem framer_withSide (c : Client) (s : Side) :
    (c.withSide s).framer = ⟨s.partialBytes, s.discarding⟩ := rfl

theorem handleConnected_framer (c : Client) : c.handleConnected.framer = c.framer := by
  unfold handleConnected
  rw [sendLines_eq]
  rfl

theorem scheduleReconnect_framer (c : Client) : c.scheduleReconnect.framer = c.framer := by
  unfold scheduleReconnect
  split
  · rfl
  · rfl

theorem handleDisconnected_framer (c : Client) : c.handleDisconnected.framer = c.framer := by
  unfold handleDisconnected
  rw [scheduleReconnect_framer]
  rfl

theorem fire_framer (now : Now) (c : Client) (deadline : Deadline) :
    (fire now c deadline).framer = c.framer := by
  cases deadline with
  | typing target who =>
      show (if (c.model.setTyping ⟨target⟩ ⟨who⟩ false).2 then _ else _ : Client).framer = _
      split
      · rfl
      · rfl
  | _ => rfl

theorem tick_framer (c : Client) (now : Now) : (c.tick now).framer = c.framer := by
  have hfire : ∀ (due : List Deadline) (d : Client),
      (due.foldl (fire now) d).framer = d.framer := by
    intro due
    induction due with
    | nil => exact fun _ => rfl
    | cons deadline due ih =>
        intro d
        rw [List.foldl_cons, ih, fire_framer]
  unfold tick
  dsimp only
  rw [emits_eq]
  exact hfire _ _

theorem setWatching_framer (c : Client) (nicks : List Str) (watching : Bool) :
    (c.setWatching nicks watching).framer = c.framer := by
  unfold setWatching
  rw [sendLines_eq]
  rfl

theorem sendLineLabeled_framer (c : Client) (message : Message) :
    (c.sendLineLabeled message).framer = c.framer := by
  rw [sendLineLabeled_eq]
  rfl

section Step

variable [Primitives]

theorem fold_framer (c : Client) (message : Message) (historical : Bool) :
    (c.fold message historical).framer = c.framer := by
  rw [fold_eq]
  rfl

theorem say_framer (c : Client) (line : Message) : (c.say line).framer = c.framer := by
  unfold say
  dsimp only
  split
  · exact c.sendLineLabeled_framer line
  · rw [fold_framer]
    exact c.sendLineLabeled_framer line

theorem command_framer (c : Client) (command : Command) :
    (c.command command).framer = c.framer := by
  cases command with
  | sendMessage target text => exact c.say_framer _
  | sendNotice target text => exact c.say_framer _
  | sendAction target text => exact c.say_framer _
  | watchNicks nicks => exact c.setWatching_framer nicks true
  | unwatchNicks nicks => exact c.setWatching_framer nicks false
  | sendRawLine line =>
      rw [command_sendRawLine]
      cases (Message.parse line).toOption with
      | none => rfl
      | some message => exact c.sendLineLabeled_framer message
  | join channel key => exact sendLineLabeled_framer _ _
  | subscribeMetadata keys => exact sendLineLabeled_framer _ _
  | _ => exact c.sendLineLabeled_framer _

theorem framer_step (c : Client) {input : Input} (h : ∀ data, input ≠ .bytes data) :
    (c.step input).framer = c.framer := by
  cases input with
  | connected => exact c.handleConnected_framer
  | disconnected => exact c.handleDisconnected_framer
  | bytes data => exact absurd rfl (h data)
  | tick now => exact c.tick_framer now
  | command command => exact c.command_framer command
  | sendLine message => rfl
  | sendLineLabeled message => exact c.sendLineLabeled_framer message
  | pollTransmit => rfl
  | pollEvent => rfl

theorem run_concat (c : Client) (inputs : List Input) (input : Input) :
    c.run (inputs ++ [input]) = (c.run inputs).step input :=
  List.foldl_concat _ _ _ _

/-- No client holds a line feed, or more than it may. -/
theorem Reachable.held {c : Client} (h : c.Reachable) :
    10 ∉ c.framer.held ∧ c.framer.held.length ≤ maxInboundLine := by
  obtain ⟨config, inputs, rfl⟩ := h
  induction inputs using List.reverseRecOn with
  | nil => exact ⟨List.not_mem_nil, Nat.zero_le _⟩
  | append_singleton inputs input ih =>
      rw [run_concat]
      by_cases hbytes : ∃ data, input = .bytes data
      · obtain ⟨data, rfl⟩ := hbytes
        show 10 ∉ (((new config).run inputs).handleBytes data).framer.held ∧ _
        rw [show ((new config).run inputs).step (.bytes data) =
          ((new config).run inputs).handleBytes data from rfl, (handleBytes_alike _ data).2]
        exact frames_held _ _
      · rw [framer_step _ fun data hdata => hbytes ⟨data, hdata⟩]
        exact ih

/-! ### Cutting a stream -/

/-- Feed several chunks, one after the other. -/
def handleChunks (c : Client) (chunks : List Bytes) : Client := chunks.foldl handleBytes c

/-- Chunks do what their frames do. -/
theorem handleChunks_alike (c : Client) (chunks : List Bytes) :
    let framed := feedAll 10 maxInboundLine c.framer chunks
    Alike (c.handleChunks chunks) ((framed.1.map (outcome droppable)).foldl deliver c) ∧
      (c.handleChunks chunks).framer = framed.2 := by
  induction chunks generalizing c with
  | nil => exact ⟨Alike.refl c, rfl⟩
  | cons chunk chunks ih =>
      obtain ⟨hfirst, hframer⟩ := c.handleBytes_alike chunk
      obtain ⟨hrest, hlast⟩ := ih (c.handleBytes chunk)
      rw [hframer] at hrest hlast
      refine ⟨?_, hlast⟩
      rw [feedAll, List.map_append, List.foldl_append]
      exact hrest.trans (deliver_foldl_alike hfirst _)

/-- What a host can see of two clients is the same: the model, both queues, the partial line and the
count of dropped lines. -/
structure SameView (c d : Client) : Prop where
  model : c.model = d.model
  events : c.events = d.events
  outbox : c.outbox = d.outbox
  partialBytes : c.partialBytes = d.partialBytes
  droppedLines : c.droppedLines = d.droppedLines

/-- Bytes no line of which, with what is held already, is longer than may be buffered; but for one
that says no more than that it was dropped, and that no cut makes overflow twice. -/
def Uncut (c : Client) (data : Bytes) : Prop :=
  Steady maxInboundLine droppable c.discarding ((c.partialBytes ++ data).splitOn 10)

/-- Bytes that are not to be cut do what they do in one chunk. -/
theorem handleChunks_of_uncut {c : Client} (hc : c.Reachable) {data : Bytes} (h : c.Uncut data)
    {chunks : List Bytes} (hchunks : chunks.flatten = data) :
    Alike (c.handleChunks chunks) (c.handleBytes data) ∧
      (c.handleChunks chunks).framer = (c.handleBytes data).framer := by
  obtain ⟨hwhole, hwhole'⟩ := c.handleBytes_alike data
  obtain ⟨hcut, hcut'⟩ := c.handleChunks_alike chunks
  have hagree : (feedAll 10 maxInboundLine c.framer chunks).1.map (outcome droppable) =
      (feed 10 maxInboundLine c.framer data).1.map (outcome droppable) ∧
      (feedAll 10 maxInboundLine c.framer chunks).2 =
        (feed 10 maxInboundLine c.framer data).2 := by
    cases chunks with
    | nil =>
        obtain rfl : data = [] := hchunks.symm
        rw [feed_nil hc.held.1 hc.held.2]
        exact ⟨rfl, rfl⟩
    | cons first chunks =>
        rw [← hchunks] at h ⊢
        exact feedAll_eq chunks c.framer first h
  rw [hagree.1] at hcut
  refine ⟨hcut.trans hwhole.symm, ?_⟩
  rw [hcut', hagree.2, hwhole']

omit [Primitives] in
theorem sameView_of_alike {c d : Client} (h : Alike c d) (hframer : c.framer = d.framer) :
    SameView c d := by
  have hheld : c.partialBytes = d.partialBytes := congrArg Framer.held hframer
  obtain ⟨timers, labels, discarding, partialBytes, rfl⟩ := h
  exact ⟨rfl, rfl, rfl, hheld, rfl⟩

theorem sameView_of_uncut {c : Client} (hc : c.Reachable) {data : Bytes} (h : c.Uncut data)
    {xs ys : List Bytes} (hxs : xs.flatten = data) (hys : ys.flatten = data) :
    SameView (c.handleChunks xs) (c.handleChunks ys) := by
  obtain ⟨hx, hx'⟩ := handleChunks_of_uncut hc h hxs
  obtain ⟨hy, hy'⟩ := handleChunks_of_uncut hc h hys
  exact sameView_of_alike (hx.trans hy.symm) (hx'.trans hy'.symm)

/-! ### Counting dropped lines -/

omit [Primitives] in
theorem droppedLines_of_alike {c d : Client} (h : Alike c d) : c.droppedLines = d.droppedLines := by
  obtain ⟨timers, labels, discarding, partialBytes, rfl⟩ := h
  rfl

/-- Short of the largest count, every frame that says nothing is counted, and no other. -/
theorem droppedLines_foldl (c : Client) (fs : List (Frame UInt8))
    (h : c.droppedLines + tally droppable fs ≤ u64Max) :
    ((fs.map (outcome droppable)).foldl deliver c).droppedLines =
      c.droppedLines + tally droppable fs := by
  induction fs generalizing c with
  | nil => rfl
  | cons f fs ih =>
      rw [show f :: fs = [f] ++ fs from rfl, tally_append] at h
      rw [show f :: fs = [f] ++ fs from rfl, tally_append, List.map_append, List.foldl_append]
      have hfirst : (deliver c (outcome droppable f)).droppedLines =
          c.droppedLines + tally droppable [f] := by
        have hdrop : c.droppedLines + 1 ≤ u64Max →
            (c.deliver none).droppedLines = c.droppedLines + 1 := fun h => min_eq_left h
        cases f with
        | overflow => exact hdrop (le_trans (Nat.add_le_add_left (by simp [tally, outcome]) _) h)
        | line content =>
            by_cases hd : droppable content = true
            · have hnone : outcome droppable (.line content) = none := if_pos hd
              have hone : tally droppable [Frame.line content] = 1 := by
                rw [tally, List.map_singleton, hnone]
                rfl
              rw [hnone, hone]
              rw [hone] at h
              exact hdrop (by omega)
            · have hsome : outcome droppable (.line content) = some content := if_neg hd
              have hzero : tally droppable [Frame.line content] = 0 := by
                rw [tally, List.map_singleton, hsome]
                rfl
              rw [hsome, hzero]
              show (c.handleLine (content ++ [10])).droppedLines = _
              rw [handleLine_eq]
              rw [Bool.not_eq_true] at hd
              unfold droppable at hd
              cases hread : readLine (content ++ [10]) with
              | none =>
                  rw [hread] at hd
                  cases hd
              | some message =>
                  rw [hread] at hd
                  rw [(c.handleMessage_side message).2.2, droppedAfter_of_not message hd]
                  rfl
      show (List.foldl deliver (deliver c (outcome droppable f)) _).droppedLines = _
      rw [ih _ (by rw [hfirst]; omega), hfirst, Nat.add_assoc]

/-- The lines that chunks make a client drop, short of the largest count. -/
theorem handleChunks_droppedLines {c : Client} (hc : c.Reachable) (chunks : List Bytes)
    (hroom : c.droppedLines + chunks.flatten.length ≤ u64Max) :
    (c.handleChunks chunks).droppedLines =
      c.droppedLines + tally droppable (feedAll 10 maxInboundLine c.framer chunks).1 := by
  rw [droppedLines_of_alike (c.handleChunks_alike chunks).1]
  refine droppedLines_foldl c _ (le_trans (Nat.add_le_add_left ?_ _) hroom)
  exact (tally_le _).trans (feedAll_length_le hc.held.1 hc.held.2 chunks)

/-- Bytes that are to be cut one way show a cut made another. -/
theorem uncut_of_sameView {c : Client} (hc : c.Reachable) {data : Bytes}
    (hroom : c.droppedLines + data.length ≤ u64Max)
    (h : ∀ chunks : List Bytes, chunks.flatten = data →
      SameView (c.handleChunks chunks) (c.handleChunks [data])) : c.Uncut data := by
  by_contra hcut
  obtain ⟨hheld, hlength⟩ := hc.held
  obtain ⟨x, ys, heq, hx, hshows⟩ := exists_cut (c.partialBytes ++ data) c.discarding hcut
  -- a cut that shows is not within what is held already
  obtain ⟨first, rfl, hdata⟩ : ∃ first, x = c.partialBytes ++ first ∧
      data = first ++ ys.flatten := by
    rcases List.append_eq_append_iff.mp heq with ⟨first, hfirst, hdata⟩ | ⟨rest, hrest, -⟩
    · exact ⟨first, hfirst, hdata⟩
    · have hpart : x <+: c.framer.held := ⟨rest, hrest.symm⟩
      rcases hx with hlong | hmem
      · exact absurd hpart.length_le (by omega)
      · exact absurd (hpart.subset hmem) hheld
  have hsame := h (first :: ys) hdata.symm
  have hframes : feedAll 10 maxInboundLine c.framer (first :: ys) =
      ((frames maxInboundLine c.discarding ((c.partialBytes ++ first).splitOn 10)).1 ++
        (feedAll 10 maxInboundLine (frames maxInboundLine c.discarding
          ((c.partialBytes ++ first).splitOn 10)).2 ys).1,
        (feedAll 10 maxInboundLine (frames maxInboundLine c.discarding
          ((c.partialBytes ++ first).splitOn 10)).2 ys).2) := rfl
  have hwhole : feedAll 10 maxInboundLine c.framer [data] =
      frames maxInboundLine c.discarding ((c.partialBytes ++ data).splitOn 10) := by
    rw [feedAll, feedAll, List.append_nil]
    rfl
  rcases hshows with htally | hrest
  · refine htally ?_
    have hdropped := hsame.droppedLines
    rw [handleChunks_droppedLines hc _ (by rwa [List.flatten_cons, ← hdata]),
      handleChunks_droppedLines hc _ (by rwa [List.flatten_singleton]), hframes, hwhole] at hdropped
    exact Nat.add_left_cancel hdropped
  · refine hrest ?_
    have hpartial : (c.handleChunks (first :: ys)).framer.held =
        (c.handleChunks [data]).framer.held := hsame.partialBytes
    rwa [(c.handleChunks_alike _).2, (c.handleChunks_alike _).2, hframes, hwhole] at hpartial

/-- **Bytes mean the same however they are cut just when no line of them is too long**, but for one
dropped either way and counted once either way. -/
theorem cuts_agree_iff {c : Client} (hc : c.Reachable) (data : Bytes) :
    (c.Uncut data → ∀ xs ys : List Bytes, xs.flatten = data → ys.flatten = data →
      SameView (c.handleChunks xs) (c.handleChunks ys)) ∧
    (c.droppedLines + data.length ≤ u64Max →
      (∀ xs ys : List Bytes, xs.flatten = data → ys.flatten = data →
        SameView (c.handleChunks xs) (c.handleChunks ys)) → c.Uncut data) := by
  refine ⟨fun h xs ys hxs hys => sameView_of_uncut hc h hxs hys, fun hroom h => ?_⟩
  exact uncut_of_sameView hc hroom fun chunks hchunks =>
    h chunks [data] hchunks (by rw [List.flatten_singleton])

omit [Primitives] in
/-- A line cut behind its first byte, and within its ending. -/
theorem cuts_agree_short : SameView
    (@handleChunks .ascii (new (.new "me")) [[88], [13, 10]])
    (@handleChunks .ascii (new (.new "me")) [[88, 13], [10]]) := by
  let _ := Primitives.ascii
  refine (cuts_agree_iff ⟨.new "me", [], rfl⟩ [88, 13, 10]).1 ?_ _ _ rfl rfl
  have hpieces : ([88, 13, 10] : Bytes).splitOn 10 = [[88, 13], []] := by decide
  show Steady maxInboundLine droppable false (([88, 13, 10] : Bytes).splitOn 10)
  rw [hpieces]
  exact ⟨.inl (by decide), Nat.zero_le _⟩

/-! ### A line that is too long -/

/-- A word, sent as a line. -/
theorem droppable_word {word : Str} (hword : Message.Word word)
    (hnot : eqIgnoreAsciiCase word "TAGMSG" = false) :
    droppable (Utf8.encode word ++ [13]) = false := by
  have hwhole : SentWhole (Message.new word []) := by
    rw [sentWhole_iff (by simp [Message.new]) fun _ => hword.2.1, Message.new,
      Message.sendable_own hword]
    exact ⟨by simp, by simp [Fits]⟩
  obtain ⟨body, -, -, -, m, hparse, hcommand, -⟩ := hwhole
  have hline : Utf8.encode word ++ [13] ++ [10] = wireLine (Message.new word []) := by
    simp [wireLine, Message.display, Message.displayHead, Message.displayParams, Message.new]
  have his : m.is "TAGMSG" = false := by
    rw [Message.is, hcommand]
    exact hnot
  rw [droppable, hline, readLine_eq_some.mpr hparse]
  show drops m = false
  rw [drops, his]
  rfl

omit [Primitives] in
/-- **A line that fits no buffer is handled when it comes in one chunk**, and dropped when its line
feed comes in another. -/
theorem not_sameView_of_cut : ∃ xs ys : List Bytes, xs.flatten = ys.flatten ∧
    ¬ SameView (@handleChunks .ascii (new (.new "me")) xs)
      (@handleChunks .ascii (new (.new "me")) ys) := by
  let _ := Primitives.ascii
  have hc : (new (.new "me")).Reachable := ⟨.new "me", [], rfl⟩
  obtain ⟨word, hword⟩ : ∃ word, word = List.replicate maxInboundLine 'A' := ⟨_, rfl⟩
  obtain ⟨line, hline⟩ : ∃ line, line = Utf8.encode word ++ [13] := ⟨_, rfl⟩
  have hmem : ∀ c ∈ word, c = 'A' := fun c hc => List.eq_of_mem_replicate (hword ▸ hc)
  have hlength : line.length = maxInboundLine + 1 := by
    rw [hline, hword]
    simp [Utf8.encode, String.utf8EncodeChar]
  have hfeed : 10 ∉ line := by
    rw [hline, List.mem_append, Utf8.mem_encode_ascii (by decide), not_or]
    exact ⟨fun h => absurd (hmem _ h) (by decide), by decide⟩
  have hkept : droppable line = false := by
    have hcons : word = 'A' :: List.replicate 8702 'A' := hword
    rw [hline]
    refine droppable_word ⟨⟨?_, ?_, ?_, ?_⟩, ?_, ?_⟩ ?_
    · rw [hcons]
      exact List.cons_ne_nil _ _
    · exact fun h => absurd (hmem _ h) (by decide)
    · exact fun h => absurd (hmem _ h) (by decide)
    · exact fun h => absurd (hmem _ h) (by decide)
    · rw [hcons]
      decide
    · rw [hcons]
      decide
    · rw [hcons]
      rfl
  refine ⟨[line ++ [10]], [line, [10]], by simp, fun h => ?_⟩
  have hdropped := h.droppedLines
  have hroom : ∀ chunks : List Bytes, chunks.flatten.length = line.length + 1 →
      (new (.new "me")).droppedLines + chunks.flatten.length ≤ u64Max := by
    intro chunks hchunks
    rw [hchunks, hlength]
    decide
  rw [handleChunks_droppedLines hc _ (hroom _ (by simp)),
    handleChunks_droppedLines hc _ (hroom _ (by simp))] at hdropped
  have hwhole : (feedAll 10 maxInboundLine (new (.new "me")).framer [line ++ [10]]).1 =
      [Frame.line line] := by
    show (frames _ false ((line ++ [10]).splitOn 10)).1 ++ [] = _
    rw [splitOn_more hfeed, frames_more, splitOn_last List.not_mem_nil]
    rfl
  have hcut : (feedAll 10 maxInboundLine (new (.new "me")).framer [line, [10]]).1 =
      [Frame.overflow] := by
    show (frames _ false (line.splitOn 10)).1 ++
      ((feed 10 _ (frames maxInboundLine false (line.splitOn 10)).2 [10]).1 ++ []) = _
    rw [splitOn_last hfeed, frames, if_pos (by omega)]
    rfl
  rw [hwhole, hcut, tally, tally, List.map_singleton, List.map_singleton, outcome,
    hkept] at hdropped
  exact absurd hdropped (show 0 + 0 ≠ 0 + 1 by decide)

/-! ### The next connection -/

omit [Primitives] in
/-- What a dead connection left is what the next one is read behind. -/
theorem reconnected_framer (c : Client) :
    c.handleDisconnected.handleConnected.framer = c.framer := by
  rw [handleConnected_framer, handleDisconnected_framer]

/-- The messages of the next connection. -/
theorem handled_reconnected (c : Client) (data : Bytes) :
    (c.handleDisconnected.handleConnected.handled data).map Prod.snd =
      (feed 10 maxInboundLine c.framer data).1.filterMap readFrame := by
  rw [handled_eq, reconnected_framer]

omit [Primitives] in
/-- A line feed completes what is held, or ends what is skipped. -/
theorem feed_line {held line : Bytes} (hheld : 10 ∉ held) (hline : 10 ∉ line) (discarding : Bool) :
    (feed 10 maxInboundLine ⟨held, discarding⟩ (line ++ [10])).1 =
      if discarding then [] else [.line (held ++ line)] := by
  have hmem : 10 ∉ held ++ line := by
    rw [List.mem_append, not_or]
    exact ⟨hheld, hline⟩
  rw [feed, ← List.append_assoc, splitOn_more hmem, frames_more, splitOn_last List.not_mem_nil,
    frames]
  exact List.append_nil _

/-- **The next connection is read from scratch just when the last one left nothing**: no partial
line, and none to skip. -/
theorem handled_fresh_iff {c : Client} (hc : c.Reachable) :
    (∀ data, (c.handleDisconnected.handleConnected.handled data).map Prod.snd =
      ((new c.config).handled data).map Prod.snd) ↔
        c.partialBytes = [] ∧ c.discarding = false := by
  constructor
  · intro h
    have hframes : ∀ line : Bytes, 10 ∉ line →
        (if c.discarding then [] else [Frame.line (c.partialBytes ++ line)]).filterMap readFrame =
          (readLine (line ++ [10])).toList := by
      intro line hline
      have hhere := h (line ++ [10])
      have hcut : (feed 10 maxInboundLine c.framer (line ++ [10])).1 =
          if c.discarding then [] else [.line (c.partialBytes ++ line)] :=
        feed_line hc.held.1 hline c.discarding
      have hfresh : (feed 10 maxInboundLine (new c.config).framer (line ++ [10])).1 =
          [.line line] := feed_line List.not_mem_nil hline false
      rw [handled_reconnected, handled_eq, hcut, hfresh] at hhere
      rw [hhere, List.filterMap_cons]
      cases hread : readFrame (.line line) <;> exact hread ▸ rfl
    have hword : readLine [65, 10] = some (Message.new "A" []) := by decide
    cases hd : c.discarding with
    | true =>
        have hskipped := hframes [65] (by decide)
        rw [hd, if_pos rfl, List.singleton_append, hword] at hskipped
        exact absurd hskipped (List.cons_ne_nil _ _).symm
    | false =>
        refine ⟨?_, rfl⟩
        by_contra hheld
        have hu : Utf8.decodeLossy c.partialBytes ≠ [] := Utf8.decodeLossy_eq_nil.not.mpr hheld
        have hglued : ∀ line : Bytes, 10 ∉ line →
            (readLine (c.partialBytes ++ line ++ [10])).isSome =
              (readLine (line ++ [10])).isSome := by
          intro line hline
          have hhere := hframes line hline
          rw [hd, if_neg Bool.false_ne_true, List.filterMap_cons] at hhere
          rw [show readFrame (.line (c.partialBytes ++ line)) =
            readLine (c.partialBytes ++ line ++ [10]) from rfl] at hhere
          revert hhere
          cases readLine (c.partialBytes ++ line ++ [10]) <;>
            cases readLine (line ++ [10]) <;> simp
        by_cases hspace : (Utf8.decodeLossy c.partialBytes).head? = some ' '
        · -- a word is a line, but not behind a space
          have hline := hglued [65] (by decide)
          obtain ⟨rest, hrest⟩ := List.head?_eq_some_iff.mp hspace
          rw [List.append_assoc, readLine, List.singleton_append,
            Utf8.decodeLossy_append_ascii (by decide), hrest, List.cons_append,
            Message.parse_space, hword] at hline
          exact absurd hline (by decide)
        · -- a word behind a space is no line, but the end of one
          have hline := hglued [32, 65] (by decide)
          obtain ⟨message, hmessage⟩ := Message.parse_ends hu hspace
          rw [List.append_assoc, readLine, List.cons_append,
            Utf8.decodeLossy_append_ascii (by decide)] at hline
          rw [show Char.ofNat (32 : UInt8).toNat :: Utf8.decodeLossy ([65] ++ [10]) =
            (" A\n" : Str) by decide, hmessage,
            show readLine (32 :: ([65] ++ [10])) = none by decide] at hline
          cases hline
  · rintro ⟨hheld, hdiscarding⟩ data
    have hframer : c.framer = (new c.config).framer := Framer.ext hheld hdiscarding
    rw [handled_reconnected, handled_eq, hframer]

omit [Primitives] in
/-- A connection that dies behind a whole line. -/
theorem handled_fresh_lines : letI := Primitives.ascii
    let c := (new (.new "me")).run [.connected, .bytes (Utf8.encode ":s 001 me :hi\r\nPING"),
      .bytes (Utf8.encode " :a\r\n")]
    c.outbox.getLast? = some (wireLine (Message.new "PONG" ["a"])) ∧
      ∀ data, (c.handleDisconnected.handleConnected.handled data).map Prod.snd =
        ((new c.config).handled data).map Prod.snd := by
  let _ := Primitives.ascii
  intro c
  exact ⟨by decide +kernel, (handled_fresh_iff ⟨_, _, rfl⟩).mpr (by decide +kernel)⟩

omit [Primitives] in
/-- **Half a line of a dead connection is put in front of the next one's first.** -/
theorem glued_to_next : ∃ (c : Client) (data : Bytes), @Reachable .ascii c ∧
    (@handled .ascii c.handleDisconnected.handleConnected data).map Prod.snd ≠
      (@handled .ascii (new c.config) data).map Prod.snd := by
  let _ := Primitives.ascii
  refine ⟨(new (.new "me")).handleBytes (Utf8.encode "PAR"), Utf8.encode "X\n",
    ⟨.new "me", [.bytes (Utf8.encode "PAR")], rfl⟩, ?_⟩
  rw [handled_reconnected, handled_eq]
  decide

end Step

end Client

end ObbyClient

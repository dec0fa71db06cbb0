import ObbyClient.Engine.Side
import ObbyClient.Lib.Framing

/-!
# Runs of a client, line by line

* `Client.handled`, `Client.trace` — the lines that are handled, each with the client that handles
  it;
* `Client.handleBytes_induction`, `Client.run_induction` — what every line keeps, a run keeps;
* `Client.trace_history` — what a client at some line of a run owes to the lines before it;
* `Client.handled_eq`, `Client.handleBytes_alike` — a chunk does what the frames of its stream do.
-/

namespace ObbyClient.Client

open Framing

variable [Primitives]

/-- A line as it is read, its line feed included. -/
def readLine (line : Bytes) : Option Message := (Message.parse (Utf8.decodeLossy line)).toOption

omit [Primitives] in
theorem readLine_eq_some {line : Bytes} {message : Message} :
    readLine line = some message ↔ Message.parse (Utf8.decodeLossy line) = .ok message := by
  rw [readLine]
  cases Message.parse (Utf8.decodeLossy line) with
  | error e => simp [Except.toOption]
  | ok m => simp [Except.toOption]

theorem handleLine_eq (c : Client) (line : Bytes) :
    c.handleLine line =
      match readLine line with
      | some message => c.handleMessage message
      | none => c.dropLine := by
  rw [handleLine, readLine]
  cases Message.parse (Utf8.decodeLossy line) with
  | error e => rfl
  | ok message => rfl

/-! ### The lines of a run -/

/-- The lines on the buffer that are handled, each with the client that handles it. -/
def handledLines : ℕ → Client → List (Client × Message)
  | 0, _ => []
  | fuel + 1, c =>
      match splitOnce 10 c.partialBytes with
      | none => []
      | some (line, rest) =>
          let c := { c with partialBytes := rest }
          if c.discarding then handledLines fuel { c with discarding := false }
          else
            (readLine (line ++ [10])).toList.map (fun message => (c, message)) ++
              handledLines fuel (c.handleLine (line ++ [10]))

/-- The lines of one chunk that are handled, each with the client that handles it. -/
def handled (c : Client) (data : Bytes) : List (Client × Message) :=
  let c := { c with partialBytes := c.partialBytes ++ data }
  handledLines (c.partialBytes.length + 1) c

/-- The lines one input makes the client handle. -/
def handledBy (c : Client) : Input → List (Client × Message)
  | .bytes data => c.handled data
  | _ => []

/-- The lines of a run that are handled, each with the client that handles it. -/
def trace (c : Client) : List Input → List (Client × Message)
  | [] => []
  | input :: inputs => c.handledBy input ++ (c.step input).trace inputs

/-- The states a client comes to be in. -/
def Reachable (c : Client) : Prop := ∃ config inputs, c = (new config).run inputs

/-! ### Induction -/

section History

variable {Q : List (Client × Message) → Client → Prop}
  (framing : ∀ seen c held discarding dropped, Q seen c →
    Q seen { c with partialBytes := held, discarding := discarding, droppedLines := dropped })
  (line : ∀ seen c message, Q seen c → Q (seen ++ [(c, message)]) (c.handleMessage message))
include framing line

theorem handleLines_history (fuel : ℕ) {seen : List (Client × Message)} {c : Client}
    (h : Q seen c) : Q (seen ++ handledLines fuel c) (handleLines fuel c) := by
  induction fuel generalizing seen c with
  | zero => rwa [handledLines, List.append_nil]
  | succ fuel ih =>
      rw [handleLines, handledLines]
      cases splitOnce 10 c.partialBytes with
      | none =>
          dsimp only
          rw [List.append_nil]
          split
          · exact framing seen c [] true _ h
          · exact h
      | some p =>
          dsimp only
          by_cases hd : c.discarding = true
          · rw [if_pos hd, if_pos hd]
            exact ih (framing seen c p.2 false c.droppedLines h)
          · rw [if_neg hd, if_neg hd, handleLine_eq, ← List.append_assoc]
            have hc : Q seen { c with partialBytes := p.2 } :=
              framing seen c p.2 c.discarding c.droppedLines h
            cases readLine (p.1 ++ [10]) with
            | none =>
                rw [Option.toList_none, List.map_nil, List.append_nil]
                exact ih (framing _ _ p.2 c.discarding _ hc)
            | some message => exact ih (line _ _ message hc)

/-- What every line adds to, a chunk adds to. -/
theorem handleBytes_history (seen : List (Client × Message)) {c : Client} (h : Q seen c)
    (data : Bytes) : Q (seen ++ c.handled data) (c.handleBytes data) :=
  handleLines_history framing line _ (framing seen c _ c.discarding c.droppedLines h)

/-- **What every line adds to, and every other input keeps, a run adds to.** -/
theorem run_history (seen : List (Client × Message)) {c : Client} (inputs : List Input)
    (host : ∀ input ∈ inputs, (∀ data, input ≠ .bytes data) →
      ∀ seen c, Q seen c → Q seen (c.step input))
    (h : Q seen c) : Q (seen ++ c.trace inputs) (c.run inputs) := by
  induction inputs generalizing seen c with
  | nil => rwa [trace, List.append_nil]
  | cons input inputs ih =>
      rw [trace, ← List.append_assoc]
      refine ih _ (fun i hi => host i (List.mem_cons_of_mem _ hi)) ?_
      cases input with
      | bytes data => exact handleBytes_history framing line seen h data
      | _ =>
          show Q (seen ++ []) _
          rw [List.append_nil]
          exact host _ List.mem_cons_self (fun _ => by simp) seen c h

end History

/-- What the lines before it say holds of a client at any line of a run. -/
theorem trace_history {Q : List (Client × Message) → Client → Prop}
    (framing : ∀ seen c held discarding dropped, Q seen c →
      Q seen { c with partialBytes := held, discarding := discarding, droppedLines := dropped })
    (line : ∀ seen c message, Q seen c → Q (seen ++ [(c, message)]) (c.handleMessage message))
    {c : Client} {inputs : List Input}
    (host : ∀ input ∈ inputs, (∀ data, input ≠ .bytes data) →
      ∀ seen c, Q seen c → Q seen (c.step input))
    (h : Q [] c) {before after : List (Client × Message)} {p : Client × Message}
    (htrace : c.trace inputs = before ++ p :: after) : Q before p.1 := by
  have hrun := run_history
    (Q := fun seen d => Q seen d ∧
      ∀ (before after : List (Client × Message)) (p : Client × Message),
        seen = before ++ p :: after → Q before p.1)
    (fun seen d held discarding dropped hd => ⟨framing seen d held discarding dropped hd.1, hd.2⟩)
    (fun seen d message hd => by
      refine ⟨line seen d message hd.1, fun before after p hsplit => ?_⟩
      obtain rfl | ⟨after, last, rfl⟩ := List.eq_nil_or_concat after
      · obtain ⟨rfl, hlast⟩ := List.append_inj' hsplit rfl
        rw [← (List.cons.inj hlast).1]
        exact hd.1
      · rw [List.concat_eq_append, ← List.cons_append, ← List.append_assoc] at hsplit
        exact hd.2 before after p (List.append_inj' hsplit rfl).1)
    [] inputs (fun input hinput hbytes seen d hd => ⟨host input hinput hbytes seen d hd.1, hd.2⟩)
    ⟨h, fun before after p hnil => absurd hnil (by simp)⟩
  exact hrun.2 before after p htrace

section Induction

variable {P : Client → Prop}
  (framing : ∀ c held discarding dropped, P c →
    P { c with partialBytes := held, discarding := discarding, droppedLines := dropped })
include framing

/-- **What every line that is handled keeps, and every other input, a run keeps.** -/
theorem run_induction (c : Client) (inputs : List Input)
    (host : ∀ input ∈ inputs, (∀ data, input ≠ .bytes data) → ∀ c, P c → P (c.step input))
    (line : ∀ p ∈ c.trace inputs, P p.1 → P (p.1.handleMessage p.2)) (h : P c) :
    P (c.run inputs) := by
  have hrun := run_history
    (Q := fun seen d => (∀ p ∈ seen, P p.1 → P (p.1.handleMessage p.2)) → P d)
    (fun _ d held discarding dropped hd hseen => framing d held discarding dropped (hd hseen))
    (fun _ d message hd hseen => hseen (d, message) (by simp)
      (hd fun p hp => hseen p (List.mem_append_left _ hp)))
    [] inputs (fun input hi hbytes _ d hd hseen => host input hi hbytes d (hd hseen))
    (fun _ => h)
  exact hrun line

/-- What every line that is handled keeps, a chunk keeps. -/
theorem handleBytes_induction (c : Client) (data : Bytes)
    (line : ∀ p ∈ c.handled data, P p.1 → P (p.1.handleMessage p.2)) (h : P c) :
    P (c.handleBytes data) := by
  refine run_induction framing c [.bytes data] ?_ ?_ h
  · intro input hinput hbytes
    exact absurd (List.mem_singleton.mp hinput) (hbytes data)
  · intro p hp
    exact line p (by simpa [trace, handledBy] using hp)

end Induction

theorem run_append (c : Client) (before after : List Input) :
    c.run (before ++ after) = (c.run before).run after :=
  List.foldl_append

theorem trace_append (c : Client) (before after : List Input) :
    c.trace (before ++ after) = c.trace before ++ (c.run before).trace after := by
  induction before generalizing c with
  | nil => rfl
  | cons input before ih =>
      rw [List.cons_append, trace, ih, trace, List.append_assoc]
      rfl

/-! ### Frames -/

/-- True for a line that says no more than that it was dropped. -/
def droppable (line : Bytes) : Bool :=
  match readLine (line ++ [10]) with
  | some message => drops message
  | none => true

/-- What a client does about a line, or about one that was dropped. -/
def deliver (c : Client) : Option Bytes → Client
  | some line => c.handleLine (line ++ [10])
  | none => c.dropLine

/-- Two clients that differ in their timers, their labels and how far they have read at most. -/
def Alike (c d : Client) : Prop :=
  ∃ timers labels discarding partialBytes,
    c = d.withSide ⟨timers, labels, discarding, d.droppedLines, partialBytes⟩

omit [Primitives] in
theorem Alike.refl (c : Client) : Alike c c :=
  ⟨c.timers, c.labels, c.discarding, c.partialBytes, rfl⟩

omit [Primitives] in
theorem Alike.trans {c d e : Client} (h : Alike c d) (h' : Alike d e) : Alike c e := by
  obtain ⟨t, l, b, p, rfl⟩ := h
  obtain ⟨t', l', b', p', rfl⟩ := h'
  exact ⟨t, l, b, p, rfl⟩

omit [Primitives] in
theorem Alike.symm {c d : Client} (h : Alike c d) : Alike d c := by
  obtain ⟨t, l, b, p, rfl⟩ := h
  exact ⟨d.timers, d.labels, d.discarding, d.partialBytes, rfl⟩

/-- How far a client has read, and how many lines it dropped, after a line. -/
theorem handleMessage_side (c : Client) (message : Message) :
    (c.handleMessage message).partialBytes = c.partialBytes ∧
      (c.handleMessage message).discarding = c.discarding ∧
      (c.handleMessage message).droppedLines = droppedAfter message c.droppedLines := by
  obtain ⟨timers, labels, h⟩ := c.handleMessage_withSide c.side message
  rw [withSide_side] at h
  rw [h]
  exact ⟨rfl, rfl, rfl⟩

theorem handleMessage_alike {c d : Client} (h : Alike c d) (message : Message) :
    Alike (c.handleMessage message) (d.handleMessage message) := by
  obtain ⟨t, l, b, p, rfl⟩ := h
  obtain ⟨timers, labels, hstep⟩ :=
    d.handleMessage_withSide ⟨t, l, b, d.droppedLines, p⟩ message
  rw [hstep]
  refine ⟨timers, labels, b, p, ?_⟩
  rw [(d.handleMessage_side message).2.2]

theorem deliver_alike {c d : Client} (h : Alike c d) (o : Option Bytes) :
    Alike (c.deliver o) (d.deliver o) := by
  have hdrop : Alike c.dropLine d.dropLine := by
    obtain ⟨t, l, b, p, rfl⟩ := h
    exact ⟨t, l, b, p, rfl⟩
  cases o with
  | none => exact hdrop
  | some line =>
      show Alike (c.handleLine _) (d.handleLine _)
      rw [handleLine_eq, handleLine_eq]
      cases readLine (line ++ [10]) with
      | none => exact hdrop
      | some message => exact handleMessage_alike h message

theorem deliver_foldl_alike {c d : Client} (h : Alike c d) (os : List (Option Bytes)) :
    Alike (os.foldl deliver c) (os.foldl deliver d) := by
  induction os generalizing c d with
  | nil => exact h
  | cons o os ih => exact ih (deliver_alike h o)

/-- A droppable line does what dropping it does. -/
theorem handleLine_of_droppable (c : Client) {line : Bytes} (h : droppable line = true) :
    Alike (c.handleLine (line ++ [10])) c.dropLine := by
  rw [handleLine_eq]
  unfold droppable at h
  cases hread : readLine (line ++ [10]) with
  | none => exact Alike.refl _
  | some message =>
      rw [hread] at h
      show Alike (c.handleMessage message) _
      unfold handleMessage
      dsimp only
      rw [dispatch_of_drops _ h]
      exact ⟨_, _, c.discarding, c.partialBytes, rfl⟩

theorem handleLine_alike_deliver (c : Client) (line : Bytes) :
    Alike (c.handleLine (line ++ [10])) (c.deliver (outcome droppable (.line line))) := by
  show Alike _ (c.deliver (if droppable line then none else some line))
  by_cases h : droppable line = true
  · rw [if_pos h]
    exact handleLine_of_droppable c h
  · rw [if_neg h]
    exact Alike.refl _

theorem handleLine_framing (c : Client) (line : Bytes) :
    (c.handleLine line).partialBytes = c.partialBytes ∧
      (c.handleLine line).discarding = c.discarding := by
  rw [handleLine_eq]
  cases readLine line with
  | none => exact ⟨rfl, rfl⟩
  | some message =>
      exact ⟨(c.handleMessage_side message).1, (c.handleMessage_side message).2.1⟩

/-- A message as a frame brings it. -/
def readFrame : Frame UInt8 → Option Message
  | .line content => readLine (content ++ [10])
  | .overflow => none

/-- Taking the lines off the buffer is framing it. -/
theorem handleLines_frames (fuel : ℕ) (c : Client) (hfuel : c.partialBytes.length < fuel) :
    let framed := frames maxInboundLine c.discarding (c.partialBytes.splitOn 10)
    (handledLines fuel c).map Prod.snd = framed.1.filterMap readFrame ∧
      Alike (handleLines fuel c) ((framed.1.map (outcome droppable)).foldl deliver c) ∧
      (handleLines fuel c).partialBytes = framed.2.held ∧
      (handleLines fuel c).discarding = framed.2.discarding := by
  induction fuel generalizing c with
  | zero => omega
  | succ fuel ih =>
      rw [handleLines, handledLines]
      cases hs : splitOnce 10 c.partialBytes with
      | none =>
          rw [splitOn_last (splitOnce_eq_none.mp hs), frames]
          dsimp only
          by_cases hlong : maxInboundLine < c.partialBytes.length
          · rw [if_pos hlong, if_pos hlong]
            exact ⟨rfl, ⟨_, _, _, _, rfl⟩, rfl, rfl⟩
          · rw [if_neg hlong, if_neg hlong]
            exact ⟨rfl, Alike.refl _, rfl, rfl⟩
      | some p =>
          obtain ⟨hbuffer, hnot⟩ := splitOnce_eq_some.mp hs
          have hlength := splitOnce_length_lt hs
          rw [hbuffer, splitOn_more hnot, frames_more]
          dsimp only
          by_cases hd : c.discarding = true
          · rw [hd]
            obtain ⟨hlines, halike, hrest⟩ :=
              ih { c with partialBytes := p.2, discarding := false } (by dsimp only; omega)
            exact ⟨hlines, halike.trans (deliver_foldl_alike ⟨_, _, _, _, rfl⟩ _), hrest⟩
          · rw [Bool.not_eq_true] at hd
            rw [hd]
            obtain ⟨hheld, hdiscarding⟩ :=
              handleLine_framing { c with partialBytes := p.2 } (p.1 ++ [10])
            obtain ⟨hlines, halike, hrest⟩ :=
              ih ({ c with partialBytes := p.2 }.handleLine (p.1 ++ [10])) (by
                rw [hheld]
                dsimp only
                omega)
            rw [hheld, hdiscarding, hd] at hlines halike hrest
            refine ⟨?_, halike.trans ?_, hrest⟩
            · rw [if_neg Bool.false_ne_true, List.map_append, hlines]
              show _ = (Frame.line p.1 :: _).filterMap readFrame
              rw [List.filterMap_cons]
              rw [show readFrame (.line p.1) = readLine (p.1 ++ [10]) from rfl]
              cases readLine (p.1 ++ [10]) with
              | none => rfl
              | some message => rfl
            · refine deliver_foldl_alike ((handleLine_alike_deliver _ p.1).trans ?_) _
              exact deliver_alike ⟨_, _, _, _, rfl⟩ _

/-- How far a client has read. -/
def framer (c : Client) : Framer UInt8 := ⟨c.partialBytes, c.discarding⟩

/-- The messages of a chunk are those its frames bring. -/
theorem handled_eq (c : Client) (data : Bytes) :
    (c.handled data).map Prod.snd =
      (feed 10 maxInboundLine c.framer data).1.filterMap readFrame :=
  (handleLines_frames _ { c with partialBytes := c.partialBytes ++ data } (Nat.lt_succ_self _)).1

/-- **A chunk does what its frames do.** -/
theorem handleBytes_alike (c : Client) (data : Bytes) :
    let framed := feed 10 maxInboundLine c.framer data
    Alike (c.handleBytes data) ((framed.1.map (outcome droppable)).foldl deliver c) ∧
      (c.handleBytes data).framer = framed.2 := by
  obtain ⟨-, halike, hheld, hdiscarding⟩ :=
    handleLines_frames _ { c with partialBytes := c.partialBytes ++ data } (Nat.lt_succ_self _)
  refine ⟨halike.trans (deliver_foldl_alike ⟨_, _, _, _, rfl⟩ _), ?_⟩
  exact Framer.ext hheld hdiscarding

end ObbyClient.Client

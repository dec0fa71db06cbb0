import ObbyClient.Engine.Edits
import ObbyClient.Engine.Holding

/-!
# Everything that happens to a client

A run is a list of deeds: lines that are handled and inputs of the host.  A line in turn may deliver
several lines to the model, when it closes a batch.

* `Client.Deed`, `Client.deeds`, `Client.run_deeds` — the deeds of a run, and induction along them;
* `Client.delivered`, `Client.dispatch_delivers` — the lines that are folded, and induction along
  them;
* `Client.handleMessage_keeps_bearing`, `Client.step_keeps_bearing` — what keeps a property of the
  bearing.
-/

namespace ObbyClient.Client

open Batches

/-! ### Deeds -/

/-- Something that happens to a client, with the client it happens to. -/
inductive Deed where
  | line (c : Client) (message : Message)
  | host (c : Client) (input : Input)

/-- True of every deed, given those before it. -/
def Along (C : List Deed → Deed → Prop) (deeds : List Deed) : Prop :=
  ∀ before deed after, deeds = before ++ deed :: after → C before deed

theorem along_of_forall {C : Deed → Prop} {deeds : List Deed} (h : ∀ deed ∈ deeds, C deed) :
    Along (fun _ deed => C deed) deeds := by
  intro before deed after hdeeds
  refine h deed ?_
  rw [hdeeds]
  exact List.mem_append_right _ List.mem_cons_self

theorem along_append {C : List Deed → Deed → Prop} {deeds more : List Deed}
    (h : Along C (deeds ++ more)) : Along C deeds := by
  intro before deed after hdeeds
  refine h before deed (after ++ more) ?_
  rw [hdeeds, List.append_assoc]
  rfl

theorem along_last {C : List Deed → Deed → Prop} {deeds : List Deed} {deed : Deed}
    (h : Along C (deeds ++ [deed])) : C deeds deed :=
  h deeds deed [] rfl

section Run

variable [Primitives]

/-- What one input makes happen. -/
def deedsOf (c : Client) (input : Input) : List Deed :=
  match input with
  | .bytes data => (c.handled data).map fun p => .line p.1 p.2
  | input => [.host c input]

/-- Everything that happens in a run. -/
def deeds (c : Client) : List Input → List Deed
  | [] => []
  | input :: inputs => c.deedsOf input ++ (c.step input).deeds inputs

theorem run_deeds {Q : List Deed → Client → Prop}
    (framing : ∀ seen c held discarding dropped, Q seen c →
      Q seen { c with partialBytes := held, discarding := discarding, droppedLines := dropped })
    (line : ∀ seen c message, Q seen c → Q (seen ++ [.line c message]) (c.handleMessage message))
    (host : ∀ seen c input, (∀ data, input ≠ .bytes data) → Q seen c →
      Q (seen ++ [.host c input]) (c.step input))
    (seen : List Deed) {c : Client} (h : Q seen c) (inputs : List Input) :
    Q (seen ++ c.deeds inputs) (c.run inputs) := by
  induction inputs generalizing seen c with
  | nil =>
      rw [deeds, List.append_nil]
      exact h
  | cons input inputs ih =>
      rw [deeds, ← List.append_assoc]
      refine ih _ ?_
      cases input with
      | bytes data =>
          have hlines := handleBytes_history
            (Q := fun lines d => Q (seen ++ lines.map fun p => Deed.line p.1 p.2) d)
            (fun lines d held discarding dropped hd => framing _ d held discarding dropped hd)
            (fun lines d message hd => by
              rw [List.map_append, ← List.append_assoc]
              exact line _ d message hd)
            [] (c := c) (by simpa using h) data
          rw [List.nil_append] at hlines
          exact hlines
      | _ => exact host seen c _ (by simp) h

/-- **What every deed keeps, given those before it, a run keeps.** -/
theorem run_along {C : List Deed → Deed → Prop} {P : List Deed → Client → Prop}
    (framing : ∀ seen c held discarding dropped, P seen c →
      P seen { c with partialBytes := held, discarding := discarding, droppedLines := dropped })
    (line : ∀ seen c message, C seen (.line c message) → P seen c →
      P (seen ++ [.line c message]) (c.handleMessage message))
    (host : ∀ seen c input, (∀ data, input ≠ .bytes data) → C seen (.host c input) → P seen c →
      P (seen ++ [.host c input]) (c.step input))
    {c : Client} (h : P [] c) (inputs : List Input) (hC : Along C (c.deeds inputs)) :
    P (c.deeds inputs) (c.run inputs) := by
  have hrun := run_deeds (Q := fun seen d => Along C seen → P seen d)
    (fun seen d held discarding dropped hd hseen =>
      framing seen d held discarding dropped (hd hseen))
    (fun seen d message hd hseen =>
      line seen d message (along_last hseen) (hd (along_append hseen)))
    (fun seen d input hbytes hd hseen =>
      host seen d input hbytes (along_last hseen) (hd (along_append hseen)))
    [] (fun _ => h) inputs
  exact hrun hC

end Run

/-! ### The lines that are folded -/

section Delivered

variable [Primitives]

/-- Lines that are folded one after the other, each with the client that folds it. -/
def foldsTrace (historical : Bool) : Client → List Message → List (Client × Message)
  | _, [] => []
  | c, message :: messages =>
      (c, message) :: foldsTrace historical (c.fold message historical) messages

/-- The lines that one line makes the client fold. -/
def delivered (c : Client) (message : Message) : List (Client × Message) :=
  if claims message then []
  else if message.is "BATCH" then
    if ((message.param 0).getD []).head? = some '+' then []
    else
      match c.batches.close message with
      | none => []
      | some (batches, closed) =>
          foldsTrace (isHistory batches closed) { c with batches := batches } (batchLines closed)
  else
    match c.batches.route message with
    | some _ => []
    | none => [(c, message)]

/-- The lines that a deed makes the client fold, but for our own. -/
def Deed.delivers : Deed → List (Client × Message)
  | .line c message => (c.noted message).delivered message
  | .host _ _ => []

theorem delivered_of_claims (c : Client) {message : Message} (h : claims message = true) :
    c.delivered message = [] := by
  unfold delivered
  rw [if_pos h]

theorem folds_delivers {Q : List (Client × Message) → Client → Prop} {historical : Bool}
    {c : Client} {messages : List Message} (done : List (Client × Message)) (h : Q done c)
    (hfold : ∀ done p, p ∈ foldsTrace historical c messages → Q done p.1 →
      Q (done ++ [p]) (p.1.fold p.2 historical)) :
    Q (done ++ foldsTrace historical c messages) (c.folds messages historical) := by
  induction messages generalizing done c with
  | nil =>
      rw [foldsTrace, List.append_nil]
      exact h
  | cons message messages ih =>
      rw [foldsTrace] at hfold ⊢
      have hrest := ih (done ++ [(c, message)]) (hfold done (c, message) List.mem_cons_self h)
        fun done p hp => hfold done p (List.mem_cons_of_mem _ hp)
      rw [List.append_assoc] at hrest
      exact hrest

/-- **What every line that is folded adds to, the line that delivers them adds to.** -/
theorem dispatch_delivers {Q : List (Client × Message) → Client → Prop} (c : Client)
    {message : Message} (hclaims : claims message = false)
    (hbatches : ∀ batches, Q [] { c with batches := batches })
    (hfold : ∀ done p historical, p ∈ c.delivered message → Q done p.1 →
      Q (done ++ [p]) (p.1.fold p.2 historical)) :
    Q (c.delivered message) (c.dispatch message) := by
  unfold delivered at hfold ⊢
  rw [dispatch_of_not_claims c hclaims]
  rw [if_neg (by simp [hclaims])] at hfold ⊢
  by_cases hline : message.is "BATCH" = true
  · rw [if_pos hline] at hfold ⊢
    rw [if_pos hline]
    unfold handleBatch
    by_cases hplus : ((message.param 0).getD []).head? = some '+'
    · rw [if_pos hplus, if_pos hplus]
      exact hbatches _
    · rw [if_neg hplus] at hfold ⊢
      rw [if_neg hplus]
      cases hclose : c.batches.close message with
      | none => exact hbatches c.batches
      | some result =>
          rw [hclose] at hfold
          refine folds_delivers [] (c := { c with batches := result.1 }) (hbatches result.1) ?_
          intro done p hp hdone
          exact hfold done p _ hp hdone
  · rw [if_neg hline] at hfold ⊢
    rw [if_neg hline]
    unfold handleOther
    cases hroute : c.batches.route message with
    | some batches => exact hbatches batches
    | none =>
        rw [hroute] at hfold
        exact hfold [] (c, message) false (List.mem_singleton.mpr rfl) (hbatches c.batches)

end Delivered

/-! ### What keeps a property of the bearing -/

/-- A property that reads neither the batches nor any timer but those of typing. -/
def Blind (P : Bearing → Prop) : Prop :=
  ∀ b batches timers,
    (∀ target who, timers.deadlines[Deadline.typing target who]? =
      b.timers.deadlines[Deadline.typing target who]?) →
    P b → P { b with batches := batches, timers := timers }

theorem getElem?_set (timers : Timers) (deadline other : Deadline) (atMs : ℕ) :
    (timers.set deadline atMs).deadlines[other]? =
      if other = deadline then some atMs else timers.deadlines[other]? :=
  Maps.getElem?_insert_ite _ _ _ _

theorem getElem?_clear (timers : Timers) (deadline other : Deadline) :
    (timers.clear deadline).deadlines[other]? =
      if other = deadline then none else timers.deadlines[other]? :=
  Maps.getElem?_erase_ite _ _ _

/-- What the clock does to the model: it takes people off the typing lists. -/
theorem tick_keeps {P : Model → Prop}
    (h : ∀ (model : Model) (target who : CaseFolded), P model →
      P (model.setTyping target who false).1)
    (c : Client) (now : Now) (hc : P c.model) : P (c.tick now).bearing.model := by
  rw [tick_bearing]
  show P ((c.timers.expire now).2.foldl expireModel c.model)
  generalize (c.timers.expire now).2 = due
  generalize c.model = model at hc
  induction due generalizing model with
  | nil => exact hc
  | cons deadline due ih =>
      refine ih _ ?_
      cases deadline with
      | typing target who => exact h model ⟨target⟩ ⟨who⟩ hc
      | _ => exact hc

section Keeps

variable {P : Bearing → Prop} (hblind : Blind P)
include hblind

theorem noted_keeps_bearing (c : Client) (message : Message) (h : P c.bearing) :
    P (c.noted message).bearing := by
  refine hblind c.bearing c.batches _ ?_ h
  intro target who
  show ((c.timers.clear .deadLink).set .pingKeepalive _).deadlines[Deadline.typing target who]? = _
  rw [getElem?_set, if_neg (by simp), getElem?_clear, if_neg (by simp)]
  rfl

variable [Primitives]

/-- **One line.** -/
theorem handleMessage_keeps_bearing (c : Client) (message : Message)
    (hnamed : ∀ b nick, P b → P (b.named nick))
    (hisupport : message.is "005" = true → P (c.noted message).bearing →
      P ((c.noted message).handleIsupport message).bearing)
    (htyping : ∀ d, message.is "TAGMSG" = true → (c.noted message).handleTyping message = some d →
      P (c.noted message).bearing → P d.bearing)
    (hfold : ∀ p historical, p ∈ (c.noted message).delivered message → P p.1.bearing →
      P (p.1.fold p.2 historical).bearing)
    (h : P c.bearing) : P (c.handleMessage message).bearing := by
  have hnoted := noted_keeps_bearing hblind c message h
  rw [handleMessage_eq]
  by_cases hclaims : claims message = true
  · have hdoes := (c.noted message).dispatch_does message
    generalize (c.noted message).dispatch message = d at hdoes
    cases hdoes with
    | still _ hd =>
        rw [hd]
        exact hnoted
    | welcome =>
        rw [handleWelcome_bearing]
        exact hnamed _ _ hnoted
    | refused =>
        rcases (c.noted message).handleNickRefused_bearing message with hd | ⟨nick, hd⟩
        · rw [hd]
          exact hnoted
        · rw [hd]
          exact hnamed _ _ hnoted
    | isupport hline => exact hisupport hline hnoted
    | typing hline hd => exact htyping d hline hd hnoted
    | batch hnot => exact absurd (hnot.symm.trans hclaims) (by decide)
    | other hnot => exact absurd (hnot.symm.trans hclaims) (by decide)
  · rw [Bool.not_eq_true] at hclaims
    exact dispatch_delivers (Q := fun _ d => P d.bearing) (c.noted message) hclaims
      (fun batches => hblind _ batches _ (fun _ _ => rfl) hnoted)
      fun _ p historical hp hb => hfold p historical hp hb

/-- **One input of the host.** -/
theorem step_keeps_bearing (c : Client) {input : Input} (hbytes : ∀ data, input ≠ .bytes data)
    (hdown : input = .disconnected → ∀ b, P b →
      P { b with model := b.model.forgetWhois.forgetMembers })
    (htick : ∀ now, input = .tick now → P c.bearing → P (c.tick now).bearing)
    (hjoin : ∀ channel key, input = .command (.join channel key) → P c.bearing →
      P { c.bearing with channelKeys := c.joinKeys channel key })
    (hsay : ∀ line : Message, line.command = "PRIVMSG" ∨ line.command = "NOTICE" → P c.bearing →
      P (c.fold { line with source := some ⟨c.nick, none, none⟩ } false).bearing)
    (h : P c.bearing) : P (c.step input).bearing := by
  cases input with
  | connected =>
      obtain ⟨timers, hd, htimers⟩ := c.handleConnected_bearing
      show P c.handleConnected.bearing
      rw [hd]
      refine hblind c.bearing c.batches timers ?_ h
      intro target who
      rw [htimers, getElem?_set, if_neg (by simp), getElem?_clear, if_neg (by simp),
        getElem?_clear, if_neg (by simp)]
      rfl
  | disconnected =>
      obtain ⟨timers, hd, htimers⟩ := c.handleDisconnected_bearing
      show P c.handleDisconnected.bearing
      rw [hd]
      refine hblind { c.bearing with model := c.model.forgetWhois.forgetMembers }
        c.batches.dropAll timers ?_ (hdown rfl c.bearing h)
      intro target who
      rcases htimers with rfl | ⟨atMs, rfl⟩
      · rw [getElem?_clear, if_neg (by simp), getElem?_clear, if_neg (by simp)]
        rfl
      · rw [getElem?_set, if_neg (by simp), getElem?_clear, if_neg (by simp), getElem?_clear,
          if_neg (by simp)]
        rfl
  | bytes data => exact absurd rfl (hbytes data)
  | tick now => exact htick now rfl h
  | command command =>
      show P (c.command command).bearing
      rcases c.command_bearing command with hd | ⟨channel, key, rfl, hd⟩ | ⟨line, hline, hd⟩
      · rw [hd]
        exact h
      · rw [hd]
        exact hjoin channel key rfl h
      · rw [hd]
        exact hsay line hline h
  | sendLine message => exact h
  | sendLineLabeled message =>
      show P (c.sendLineLabeled message).bearing
      rw [sendLineLabeled_bearing]
      exact h
  | pollTransmit => exact h
  | pollEvent => exact h

end Keeps

end ObbyClient.Client

import ObbyClient.Engine.Bearing

/-!
# Which lines touch the rooms and the bots

Voice rooms and bots are kept beside the model, and what fills them rides on TAGMSGs.

* `Client.Annex` — the rooms and the bots;
* `Client.dispatch_furnishes`, `Client.tick_annex` — what a line that a handler claims does to them,
  and what the clock does.
-/

namespace ObbyClient.Client

/-- What a connection keeps of voice rooms and bots. -/
structure Annex where
  rooms : Std.ExtTreeMap CaseFolded Voice.Room
  bots : Bots

/-- The annex of this connection. -/
def annex (c : Client) : Annex := ⟨c.rooms, c.bots⟩

/-! ### The handlers that leave the annex alone -/

theorem sendLines_annex (c : Client) (messages : List Message) :
    (c.sendLines messages).annex = c.annex := by
  rw [sendLines_eq]
  rfl

theorem emits_annex (c : Client) (events : List Event) : (c.emits events).annex = c.annex := by
  rw [emits_eq]
  rfl

theorem foldl_annex {β : Type} {h : Client → β → Client} (hh : ∀ c b, (h c b).annex = c.annex)
    (bs : List β) (c : Client) : (bs.foldl h c).annex = c.annex := by
  induction bs generalizing c with
  | nil => rfl
  | cons b bs ih => exact (ih (h c b)).trans (hh c b)

theorem Negotiates.annex {c d : Client} (h : Negotiates c d) : d.annex = c.annex := by
  obtain ⟨_, _, _, _, _, _, rfl, -⟩ := h
  rfl

theorem handleNickRefused_annex (c : Client) (message : Message) :
    (c.handleNickRefused message).annex = c.annex := by
  unfold handleNickRefused
  split
  · rfl
  · rfl

theorem handleMonitor_annex (c : Client) (message : Message) :
    (c.handleMonitor message).annex = c.annex := by
  obtain ⟨monitor, events, heq, -⟩ := c.handleMonitor_eq message
  rw [heq]
  rfl

theorem handleTyping_annex {c d : Client} {message : Message}
    (h : c.handleTyping message = some d) :
    d.annex = c.annex := by
  obtain ⟨timers, target, who, typing, rfl⟩ := handleTyping_eq h
  obtain ⟨events, heq, -⟩ := c.typed_eq timers target who typing
  rw [heq]
  rfl

theorem handleToken_annex {c d : Client} {message : Message} (h : c.handleToken message = some d) :
    d.annex = c.annex := by
  obtain ⟨service, endpoint, token, rfl⟩ := handleToken_eq h
  rfl

theorem handleStandardReply_annex {c d : Client} {message : Message}
    (h : c.handleStandardReply message = some d) : d.annex = c.annex := by
  obtain ⟨severity, command, code, context, text, rfl⟩ := handleStandardReply_eq h
  rfl

section Dispatch

variable [Primitives]

/-- What a line that a handler claims does to the annex: frames and announcements fill it. -/
inductive Furnishes (c : Client) (message : Message) (d : Client) : Prop
  | still (h : d.annex = c.annex)
  | frame (hline : message.is "TAGMSG" = true) (htyping : tellsTyping message = false)
      (h : c.handleRtc message = some d)
  | bots (hline : message.is "TAGMSG" = true) (htyping : tellsTyping message = false)
      (hrtc : tellsRtc message = false) (h : c.handleBotTags message = some d)

theorem handleTagmsg_furnishes {c d : Client} {message : Message}
    (h : c.handleTagmsg message = some d) :
    Furnishes c message d := by
  unfold handleTagmsg at h
  cases hline : message.is "TAGMSG" with
  | false =>
      rw [hline, Bool.not_false, if_pos rfl] at h
      cases h
  | true =>
      rw [hline, if_neg (by decide), Option.or_eq_some_iff] at h
      rcases h with h | ⟨htyping, h⟩
      · exact .still (handleTyping_annex h)
      · have hquiet : tellsTyping message = false := by
          rw [← c.handleTyping_isSome, htyping]
          rfl
        rw [Option.or_eq_some_iff] at h
        rcases h with h | ⟨hrtc, h⟩
        · exact .frame hline hquiet h
        · refine .bots hline hquiet ?_ h
          rw [← c.handleRtc_isSome, hrtc]
          rfl

theorem dispatchLate_annex (c : Client) {message : Message}
    (hclaims : (message.is "AUTHENTICATE" || message.is "433" || message.is "432" ||
      (saslFailure message.command).isSome || message.is "900" || message.is "903") = true) :
    (c.dispatchLate message).annex = c.annex := by
  unfold dispatchLate
  by_cases hauth : message.is "AUTHENTICATE" = true
  · rw [if_pos hauth]
    exact (c.handleAuthenticate_negotiates message).annex
  rw [if_neg hauth]
  by_cases hnick : (message.is "433" || message.is "432") = true
  · rw [if_pos hnick]
    exact c.handleNickRefused_annex message
  rw [if_neg hnick]
  by_cases hfail : (saslFailure message.command).isSome = true
  · rw [if_pos hfail]
    exact (c.finishSasl_negotiates _).annex
  rw [if_neg hfail]
  by_cases hlogged : message.is "900" = true
  · rw [if_pos hlogged]
    exact emits_annex _ _
  rw [if_neg hlogged]
  by_cases hdone : message.is "903" = true
  · rw [if_pos hdone]
    exact (c.finishSasl_negotiates _).annex
  rw [Bool.or_assoc (message.is "AUTHENTICATE")] at hclaims
  rw [Bool.not_eq_true] at hauth hnick hfail hlogged hdone
  rw [hauth, hnick, hfail, hlogged, hdone] at hclaims
  cases hclaims

theorem dispatchMiddle_furnishes (c : Client) {message : Message}
    (hclaims : ((message.is "TAGMSG" &&
        (tellsTyping message || tellsRtc message || tellsBots message)) ||
      tellsToken message || message.is "CMDSLIST" || message.command == "730" ||
      message.command == "731" || tellsReply message ||
      (message.is "AUTHENTICATE" || message.is "433" || message.is "432" ||
        (saslFailure message.command).isSome || message.is "900" || message.is "903")) = true) :
    Furnishes c message (c.dispatchMiddle message) := by
  rw [← c.handleTagmsg_isSome message, ← c.handleToken_isSome message,
    ← c.handleStandardReply_isSome message] at hclaims
  unfold dispatchMiddle
  cases htagmsg : c.handleTagmsg message with
  | some d => exact handleTagmsg_furnishes htagmsg
  | none =>
  rw [Option.none_or]
  cases htoken : c.handleToken message with
  | some d => exact .still (handleToken_annex htoken)
  | none =>
  dsimp only
  by_cases hcmds : message.is "CMDSLIST" = true
  · rw [if_pos hcmds]
    exact .still rfl
  rw [if_neg hcmds]
  by_cases hmonitor : message.command = "730" ∨ message.command = "731"
  · rw [if_pos hmonitor]
    exact .still (c.handleMonitor_annex message)
  rw [if_neg hmonitor]
  cases hreply : c.handleStandardReply message with
  | some d => exact .still (handleStandardReply_annex hreply)
  | none =>
      rw [not_or] at hmonitor
      rw [Bool.not_eq_true] at hcmds
      rw [htagmsg, htoken, hreply, hcmds, beq_eq_false_iff_ne.mpr hmonitor.1,
        beq_eq_false_iff_ne.mpr hmonitor.2] at hclaims
      exact .still (c.dispatchLate_annex hclaims)

/-- **Which lines touch the annex** before their batch is asked for: frames and announcements. -/
theorem dispatch_furnishes (c : Client) {message : Message} (hclaims : claims message = true) :
    Furnishes c message (c.dispatch message) := by
  unfold dispatch
  by_cases hpong : message.is "PONG" = true
  · rw [if_pos hpong]
    exact .still rfl
  rw [if_neg hpong]
  by_cases hping : message.is "PING" = true
  · rw [if_pos hping]
    exact .still rfl
  rw [if_neg hping]
  by_cases hcap : message.is "CAP" = true
  · rw [if_pos hcap]
    exact .still (c.handleCap_negotiates message).annex
  rw [if_neg hcap]
  by_cases hwelcome : message.is "001" = true
  · rw [if_pos hwelcome]
    refine .still ?_
    unfold handleWelcome resume
    exact sendLines_annex _ _
  rw [if_neg hwelcome]
  by_cases hisupport : message.is "005" = true
  · rw [if_pos hisupport]
    refine .still ?_
    exact foldl_annex (h := applyToken) (fun _ _ => rfl) _ c
  rw [if_neg hisupport]
  rw [Bool.not_eq_true] at hpong hping hcap hwelcome hisupport
  refine c.dispatchMiddle_furnishes ?_
  unfold claims at hclaims
  rw [hpong, hping, hcap, hwelcome, hisupport] at hclaims
  simp only [Bool.false_or, Bool.or_assoc] at hclaims ⊢
  exact hclaims

end Dispatch

/-- The clock leaves the annex alone. -/
theorem tick_annex (c : Client) (now : Now) : (c.tick now).annex = c.annex := by
  unfold tick
  dsimp only
  rw [emits_eq]
  refine foldl_annex (h := fire now) ?_ _ _
  intro c deadline
  cases deadline with
  | typing target who =>
      show (c.expireTyping target who).annex = c.annex
      unfold expireTyping
      generalize c.model.setTyping ⟨target⟩ ⟨who⟩ false = result
      obtain ⟨model, changed⟩ := result
      cases changed with
      | true => rfl
      | false => rfl
  | _ => rfl

end ObbyClient.Client

import ObbyClient.Engine.Effects

/-!
# The delays between attempts to reconnect

The delays are counted twice.  Over the natural numbers one call is the minimum of a doubling and
a cap.  At the widths of the source every operation that could overflow is checked, and a history
of calls is followed from a new backoff, with any number of resets on the way.
-/

namespace ObbyClient

namespace ReconnectBackoff

/-! ### Over the natural numbers -/

/-- The delay that a call gives when `k` calls have been made since the last reset. -/
def delayAt (base cap max k : ℕ) : Option ℕ :=
  if k < max then some (min (base * 2 ^ k) cap) else none

/-- Holding the factor and the product at the widest value does not show below the cap. -/
theorem min_saturated (base : ℕ) {cap : ℕ} (k : ℕ) (hcap : cap ≤ u64Max) :
    min (min (base * if k < 64 then 2 ^ k else u64Max) u64Max) cap = min (base * 2 ^ k) cap := by
  rw [min_assoc, min_eq_right hcap]
  by_cases hk : k < 64
  · rw [if_pos hk]
  rw [if_neg hk]
  by_cases hbase : base = 0
  · rw [hbase, Nat.zero_mul, Nat.zero_mul]
  -- a positive base shifted this far is past every cap, and so is the fallback factor
  have hpos : 1 ≤ base := Nat.one_le_iff_ne_zero.mpr hbase
  have hpow : u64Max ≤ 2 ^ k :=
    calc u64Max ≤ 2 ^ 64 := by decide
      _ ≤ 2 ^ k := Nat.pow_le_pow_right (by decide) (Nat.not_lt.mp hk)
  have hfactor : cap ≤ base * u64Max := hcap.trans (Nat.le_mul_of_pos_left _ hpos)
  have hshift : cap ≤ base * 2 ^ k := (hcap.trans hpow).trans (Nat.le_mul_of_pos_left _ hpos)
  rw [min_eq_right hfactor, min_eq_right hshift]

/-- One call: the delay of the count so far, and the count moved on while attempts are left. -/
theorem nextDelayMs_eq (backoff : ReconnectBackoff) (hcap : backoff.capMs ≤ u64Max) :
    backoff.nextDelayMs =
      ({ backoff with
          attempts := if backoff.attempts < backoff.maxAttempts then backoff.attempts + 1
            else backoff.attempts },
        delayAt backoff.baseMs backoff.capMs backoff.maxAttempts backoff.attempts) := by
  unfold nextDelayMs delayAt
  by_cases h : backoff.maxAttempts ≤ backoff.attempts
  · rw [if_pos h, if_neg (Nat.not_lt.mpr h), if_neg (Nat.not_lt.mpr h)]
  · have hlt : backoff.attempts < backoff.maxAttempts := Nat.not_le.mp h
    rw [if_neg h, if_pos hlt, if_pos hlt]
    simp only [min_saturated _ _ hcap]

/-- The backoff after `k` calls since its last reset. -/
def after (backoff : ReconnectBackoff) (k : ℕ) : ReconnectBackoff :=
  ⟨backoff.baseMs, backoff.capMs, backoff.maxAttempts, min k backoff.maxAttempts⟩

theorem reset_eq_after (backoff : ReconnectBackoff) : backoff.reset = backoff.after 0 := by
  unfold after
  rw [Nat.zero_min]
  rfl

/-- The call after `k` others gives the delay of `k`. -/
theorem nextDelayMs_after (backoff : ReconnectBackoff) (k : ℕ) (hcap : backoff.capMs ≤ u64Max) :
    (backoff.after k).nextDelayMs =
      (backoff.after (k + 1),
        delayAt backoff.baseMs backoff.capMs backoff.maxAttempts k) := by
  rw [nextDelayMs_eq (backoff.after k) hcap]
  unfold after delayAt
  by_cases hk : k < backoff.maxAttempts
  · have hcount : min (k + 1) backoff.maxAttempts = k + 1 := min_eq_left hk
    simp only [min_eq_left hk.le, if_pos hk, hcount]
  · have hle : backoff.maxAttempts ≤ k := Nat.not_lt.mp hk
    have hcount : min (k + 1) backoff.maxAttempts = backoff.maxAttempts :=
      min_eq_right (hle.trans (Nat.le_succ k))
    simp only [min_eq_right hle, if_neg hk, if_neg (Nat.lt_irrefl _), hcount]

/-- A later delay is no shorter. -/
theorem delayAt_le {base cap max j k d d' : ℕ} (hjk : j ≤ k)
    (hd : delayAt base cap max j = some d) (hd' : delayAt base cap max k = some d') : d ≤ d' := by
  unfold delayAt at hd hd'
  obtain ⟨-, hd⟩ := Option.ite_none_right_eq_some.mp hd
  obtain ⟨-, hd'⟩ := Option.ite_none_right_eq_some.mp hd'
  rw [← Option.some.inj hd, ← Option.some.inj hd']
  have hpow : 2 ^ j ≤ 2 ^ k := Nat.pow_le_pow_right (by decide) hjk
  exact min_le_min_right cap (Nat.mul_le_mul_left base hpow)

/-- Once exhausted, exhausted for good. -/
theorem delayAt_none {base cap max j k : ℕ} (hjk : j ≤ k) (hd : delayAt base cap max j = none) :
    delayAt base cap max k = none := by
  unfold delayAt at hd ⊢
  split at hd
  · cases hd
  · rw [if_neg (by omega)]

end ReconnectBackoff

/-! ### At the widths of the source -/

/-- A shift, unless it goes as far as the width. -/
def checkedShl (x : UInt64) (n : UInt32) : Option UInt64 :=
  if n.toNat < 64 then some (x <<< n.toUInt64) else none

/-- A product, held at the largest value. -/
def saturatingMul (x y : UInt64) : UInt64 := UInt64.ofNat (min (x.toNat * y.toNat) u64Max)

/-- A sum, or `none` where the machine would overflow. -/
def checkedAdd (x y : UInt32) : Option UInt32 :=
  if x.toNat + y.toNat < UInt32.size then some (x + y) else none

theorem checkedShl_one (n : UInt32) :
    ((checkedShl 1 n).getD (UInt64.ofNat u64Max)).toNat =
      if n.toNat < 64 then 2 ^ n.toNat else u64Max := by
  unfold checkedShl
  by_cases h : n.toNat < 64
  · rw [if_pos h, if_pos h, Option.getD_some, UInt64.toNat_shiftLeft, UInt32.toNat_toUInt64,
      Nat.mod_eq_of_lt h, Nat.shiftLeft_eq]
    have hpow : 2 ^ n.toNat < 2 ^ 64 := Nat.pow_lt_pow_right (by decide) h
    rw [UInt64.toNat_one, Nat.one_mul, Nat.mod_eq_of_lt hpow]
  · rw [if_neg h, if_neg h, Option.getD_none]
    decide

theorem toNat_saturatingMul (x y : UInt64) :
    (saturatingMul x y).toNat = min (x.toNat * y.toNat) u64Max := by
  unfold saturatingMul
  have hmax : u64Max < UInt64.size := by decide
  exact UInt64.toNat_ofNat_of_lt' ((min_le_right _ _).trans_lt hmax)

theorem toNat_min (x y : UInt64) : (min x y).toNat = min x.toNat y.toNat := by
  change (if x ≤ y then x else y).toNat = _
  by_cases h : x ≤ y
  · rw [if_pos h, min_eq_left (UInt64.le_iff_toNat_le.mp h)]
  · have hle : y.toNat ≤ x.toNat := Nat.le_of_not_le (mt UInt64.le_iff_toNat_le.mpr h)
    rw [if_neg h, min_eq_right hle]

theorem checkedAdd_one {x y : UInt32} (h : x < y) :
    ∃ z, checkedAdd x 1 = some z ∧ z.toNat = x.toNat + 1 := by
  have hlt : x.toNat < y.toNat := UInt32.lt_iff_toNat_lt.mp h
  have hfit : x.toNat + 1 < UInt32.size := Nat.lt_of_le_of_lt hlt y.toNat_lt
  refine ⟨x + 1, if_pos hfit, ?_⟩
  rw [UInt32.toNat_add]
  exact Nat.mod_eq_of_lt hfit

namespace ReconnectBackoff

/-- The backoff at the widths of the source. -/
structure Words where
  baseMs : UInt64
  capMs : UInt64
  maxAttempts : UInt32
  attempts : UInt32
  deriving DecidableEq

namespace Words

/-- A backoff with its own base delay, cap and attempt limit. -/
def new (baseMs capMs : UInt64) (maxAttempts : UInt32) : Words := ⟨baseMs, capMs, maxAttempts, 0⟩

/-- The delay before the next attempt; `none` where the counter overflows. -/
def nextDelayMs (w : Words) : Option (Words × Option UInt64) :=
  if w.maxAttempts ≤ w.attempts then some (w, none)
  else do
    let factor := (checkedShl 1 w.attempts).getD (UInt64.ofNat u64Max)
    let delay := min (saturatingMul w.baseMs factor) w.capMs
    let attempts ← checkedAdd w.attempts 1
    some ({ w with attempts := attempts }, some delay)

/-- Start the sequence over. -/
def reset (w : Words) : Words := { w with attempts := 0 }

/-- The same backoff over the natural numbers. -/
def toBackoff (w : Words) : ReconnectBackoff :=
  ⟨w.baseMs.toNat, w.capMs.toNat, w.maxAttempts.toNat, w.attempts.toNat⟩

@[simp] theorem toBackoff_reset (w : Words) : w.reset.toBackoff = w.toBackoff.reset := rfl

theorem toBackoff_capMs_le (w : Words) : w.toBackoff.capMs ≤ u64Max :=
  Nat.le_of_lt_succ w.capMs.toNat_lt

/-- No call overflows, and each does what the backoff over the natural numbers does. -/
theorem nextDelayMs_refines (w : Words) : ∃ w' delay, w.nextDelayMs = some (w', delay) ∧
    w.toBackoff.nextDelayMs = (w'.toBackoff, delay.map UInt64.toNat) := by
  unfold nextDelayMs ReconnectBackoff.nextDelayMs
  by_cases h : w.maxAttempts ≤ w.attempts
  · have hle : w.toBackoff.maxAttempts ≤ w.toBackoff.attempts := UInt32.le_iff_toNat_le.mp h
    rw [if_pos h, if_pos hle]
    exact ⟨w, none, rfl, rfl⟩
  · have hlt : w.attempts < w.maxAttempts := UInt32.not_le.mp h
    have hle : ¬ w.toBackoff.maxAttempts ≤ w.toBackoff.attempts :=
      Nat.not_le.mpr (UInt32.lt_iff_toNat_lt.mp hlt)
    obtain ⟨n, hn, hcount⟩ := checkedAdd_one hlt
    rw [if_neg h, if_neg hle, hn]
    refine ⟨{ w with attempts := n }, _, rfl, ?_⟩
    simp only [toBackoff, Option.map_some, toNat_min, toNat_saturatingMul, checkedShl_one, hcount]
    rfl

/-! ### A history of calls -/

/-- What the engine asks of a backoff. -/
inductive Call where
  | nextDelayMs
  | reset
  deriving DecidableEq

/-- One call; `none` where it overflows. -/
def call (w : Words) : Call → Option Words
  | .nextDelayMs => w.nextDelayMs.map Prod.fst
  | .reset => some w.reset

/-- The calls made since the last reset, or since the backoff was made. -/
def sinceReset (calls : List Call) : ℕ := (calls.reverse.takeWhile (· ≠ .reset)).length

@[simp] theorem sinceReset_nil : sinceReset [] = 0 := rfl

@[simp] theorem sinceReset_reset (calls : List Call) : sinceReset (calls ++ [.reset]) = 0 := by
  simp [sinceReset]

@[simp] theorem sinceReset_next (calls : List Call) :
    sinceReset (calls ++ [.nextDelayMs]) = sinceReset calls + 1 := by
  simp [sinceReset]

theorem sinceReset_nexts (calls : List Call) (n : ℕ) :
    sinceReset (calls ++ List.replicate n .nextDelayMs) = sinceReset calls + n := by
  induction n with
  | zero => rw [List.replicate_zero, List.append_nil, Nat.add_zero]
  | succ n ih =>
    rw [List.replicate_succ', ← List.append_assoc, sinceReset_next, ih, Nat.add_assoc]

/-- What a call that goes through gives, and what it leaves of the backoff. -/
theorem nextDelayMs_of_after {w w₀ : Words} {k : ℕ} (h : w.toBackoff = w₀.toBackoff.after k) :
    ∃ w' delay, w.nextDelayMs = some (w', delay) ∧
      w'.toBackoff = w₀.toBackoff.after (k + 1) ∧
      delay.map UInt64.toNat =
        delayAt w₀.baseMs.toNat w₀.capMs.toNat w₀.maxAttempts.toNat k := by
  obtain ⟨w', delay, hnext, hrefines⟩ := nextDelayMs_refines w
  rw [h, nextDelayMs_after _ k w₀.toBackoff_capMs_le] at hrefines
  obtain ⟨hw', hdelay⟩ := Prod.mk.inj hrefines
  exact ⟨w', delay, hnext, hw'.symm, hdelay.symm⟩

/-- Any history goes through, and leaves the count of the calls since its last reset. -/
theorem toBackoff_of_calls (w₀ : Words) (hnew : w₀.attempts = 0) (calls : List Call) :
    ∃ w, calls.foldlM call w₀ = some w ∧
      w.toBackoff = w₀.toBackoff.after (sinceReset calls) := by
  induction calls using List.reverseRecOn with
  | nil =>
    refine ⟨w₀, rfl, ?_⟩
    unfold toBackoff ReconnectBackoff.after
    rw [hnew, sinceReset_nil, Nat.zero_min]
    rfl
  | append_singleton calls last ih =>
    obtain ⟨w, hw, hafter⟩ := ih
    rw [List.foldlM_append, hw]
    cases last with
    | reset =>
      refine ⟨w.reset, rfl, ?_⟩
      rw [sinceReset_reset, toBackoff_reset, hafter, ← reset_eq_after]
      rfl
    | nextDelayMs =>
      obtain ⟨w', delay, hnext, hafter', -⟩ := nextDelayMs_of_after hafter
      refine ⟨w', ?_, by rwa [sinceReset_next]⟩
      simp [call, hnext]

/-- What the call after a history gives; `none` where the history or the call overflows. -/
def delayAfter (baseMs capMs : UInt64) (maxAttempts : UInt32) (calls : List Call) :
    Option (Option UInt64) := do
  let w ← calls.foldlM call (new baseMs capMs maxAttempts)
  w.nextDelayMs.map Prod.snd

theorem delayAfter_eq (baseMs capMs : UInt64) (maxAttempts : UInt32) (calls : List Call) :
    ∃ delay, delayAfter baseMs capMs maxAttempts calls = some delay ∧
      delay.map UInt64.toNat =
        delayAt baseMs.toNat capMs.toNat maxAttempts.toNat (sinceReset calls) := by
  obtain ⟨w, hw, hafter⟩ := toBackoff_of_calls (new baseMs capMs maxAttempts) rfl calls
  obtain ⟨w', delay, hnext, -, hdelay⟩ := nextDelayMs_of_after hafter
  refine ⟨delay, ?_, hdelay⟩
  unfold delayAfter
  rw [hw]
  simp [hnext]

end Words

end ReconnectBackoff

/-! ### The delays that the engine reports -/

namespace Client

open ReconnectBackoff (delayAt)

/-- What the host is told of a delay, or of its absence. -/
def reported : Option ℕ → Event
  | some afterMs => .reconnectAfter afterMs
  | none => .reconnectAbandoned

theorem handleConnected_backoff (c : Client) : c.handleConnected.backoff = c.backoff.reset := by
  unfold handleConnected
  rw [sendLines_eq]
  rfl

theorem handleDisconnected_backoff (c : Client) :
    c.handleDisconnected.backoff = c.backoff.nextDelayMs.1 ∧
      c.handleDisconnected.events = c.events ++ [reported c.backoff.nextDelayMs.2] := by
  unfold handleDisconnected scheduleReconnect
  generalize c.backoff.nextDelayMs = next
  obtain ⟨backoff, delay⟩ := next
  cases delay with
  | none => exact ⟨rfl, rfl⟩
  | some afterMs => exact ⟨rfl, rfl⟩

/-- The failures in a row since a connection last came up are the calls since the reset. -/
theorem disconnects_backoff (c : Client) (hcap : c.backoff.capMs ≤ u64Max) (n : ℕ) :
    (handleDisconnected^[n] c.handleConnected).backoff = c.backoff.after n := by
  induction n with
  | zero => exact (handleConnected_backoff c).trans (ReconnectBackoff.reset_eq_after _)
  | succ n ih =>
    rw [Function.iterate_succ_apply', (handleDisconnected_backoff _).1, ih,
      ReconnectBackoff.nextDelayMs_after _ n hcap]

/-- The failure after `n` others in a row reports the base doubled `n` times, up to the cap. -/
theorem disconnects_report (c : Client) (hcap : c.backoff.capMs ≤ u64Max) (n : ℕ) :
    (handleDisconnected^[n + 1] c.handleConnected).events =
      (handleDisconnected^[n] c.handleConnected).events ++
        [reported (delayAt c.backoff.baseMs c.backoff.capMs c.backoff.maxAttempts n)] := by
  rw [Function.iterate_succ_apply', (handleDisconnected_backoff _).2,
    disconnects_backoff c hcap n, ReconnectBackoff.nextDelayMs_after _ n hcap]

end Client

/-! ### Any history -/

namespace ReconnectBackoff.Words

/-- After every history of calls and resets the next call goes through: it gives the base doubled
once for each call since the last reset, up to the cap, while attempts are left, and nothing from
then on.  The delays never get shorter, and they are what the host is told of by a client with such
a backoff, one failure after another since its connection came up. -/
theorem backoff_delays (baseMs capMs : UInt64) (maxAttempts : UInt32) (calls : List Call) :
    (∃ delay, delayAfter baseMs capMs maxAttempts calls = some delay ∧
      delay.map UInt64.toNat =
        if sinceReset calls < maxAttempts.toNat then
          some (min (baseMs.toNat * 2 ^ sinceReset calls) capMs.toNat)
        else none) ∧
    (∀ n,
      (delayAfter baseMs capMs maxAttempts calls = some none →
        delayAfter baseMs capMs maxAttempts (calls ++ List.replicate n .nextDelayMs) =
          some none) ∧
      ∀ d d', delayAfter baseMs capMs maxAttempts calls = some (some d) →
        delayAfter baseMs capMs maxAttempts (calls ++ List.replicate n .nextDelayMs) =
          some (some d') → d ≤ d') ∧
    ∀ c : Client, c.backoff.reset = (new baseMs capMs maxAttempts).toBackoff → ∀ n,
      (Client.handleDisconnected^[n + 1] c.handleConnected).events =
        (Client.handleDisconnected^[n] c.handleConnected).events ++
          [Client.reported (delayAt baseMs.toNat capMs.toNat maxAttempts.toNat n)] := by
  refine ⟨delayAfter_eq baseMs capMs maxAttempts calls, ?_, ?_⟩
  · intro n
    obtain ⟨now, hnow, hnowAt⟩ := delayAfter_eq baseMs capMs maxAttempts calls
    obtain ⟨later, hlater, hlaterAt⟩ :=
      delayAfter_eq baseMs capMs maxAttempts (calls ++ List.replicate n .nextDelayMs)
    rw [sinceReset_nexts] at hlaterAt
    have hle : sinceReset calls ≤ sinceReset calls + n := Nat.le_add_right _ _
    rw [hnow, hlater]
    constructor
    · intro hnone
      rw [Option.some.inj hnone, Option.map_none] at hnowAt
      rw [delayAt_none hle hnowAt.symm] at hlaterAt
      rw [Option.map_eq_none_iff.mp hlaterAt]
    · intro d d' hd hd'
      rw [Option.some.inj hd, Option.map_some] at hnowAt
      rw [Option.some.inj hd', Option.map_some] at hlaterAt
      exact UInt64.le_iff_toNat_le.mpr (delayAt_le hle hnowAt.symm hlaterAt.symm)
  · intro c hc n
    have hbase : c.backoff.baseMs = baseMs.toNat := congrArg ReconnectBackoff.baseMs hc
    have hcap : c.backoff.capMs = capMs.toNat := congrArg ReconnectBackoff.capMs hc
    have hmax : c.backoff.maxAttempts = maxAttempts.toNat :=
      congrArg ReconnectBackoff.maxAttempts hc
    rw [c.disconnects_report (hcap ▸ Nat.le_of_lt_succ capMs.toNat_lt) n, hbase, hcap, hmax]

/-- A delay past the width of the shift, and a base whose first doubling already overflows. -/
example :
    delayAfter 1 5 100 (List.replicate 70 .nextDelayMs) = some (some 5) ∧
      delayAfter 0x8000000000000000 0xffffffffffffffff 3 [.nextDelayMs] =
        some (some 0xffffffffffffffff) := by
  decide +kernel

end ReconnectBackoff.Words

end ObbyClient

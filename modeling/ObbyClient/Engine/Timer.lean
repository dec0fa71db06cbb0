import ObbyClient.Lib.Text

/-!
# Deadlines

Deadline scheduling with no clock of its own, and the delays between attempts to reconnect.
-/

namespace ObbyClient

/-- A moment in time, as the host's two clocks see it. -/
structure Now where
  /-- Milliseconds on a clock that never goes backward. -/
  monotonicMs : ℕ
  /-- Milliseconds since the Unix epoch. -/
  unixMs : ℕ
  deriving DecidableEq

def pingKeepaliveMs : ℕ := 30000

def deadLinkMs : ℕ := 10000

def typingExpiryMs : ℕ := 6000

/-- One named deadline. -/
inductive Deadline where
  /-- Time to send the next `PING`. -/
  | pingKeepalive
  /-- Nothing answered in time. -/
  | deadLink
  /-- Time to attempt the next reconnect. -/
  | reconnect
  /-- Someone composing a message, keyed by where and who. -/
  | typing (target who : Str)
  deriving DecidableEq

namespace Deadline

/-- The order of deadlines: by kind, then by where, then by who. -/
def rank : Deadline → ℕ × Str × Str
  | pingKeepalive => (0, [], [])
  | deadLink => (1, [], [])
  | reconnect => (2, [], [])
  | typing target who => (3, target, who)

theorem rank_injective : Function.Injective rank := by
  rintro (_ | _ | _ | ⟨t, w⟩) (_ | _ | _ | ⟨t', w'⟩) h <;> simp_all [rank]

instance : Ord Deadline :=
  ⟨compareLex (compareOn fun d => d.rank.1)
    (compareLex (compareOn fun d => d.rank.2.1) (compareOn fun d => d.rank.2.2))⟩

instance : Std.TransOrd Deadline := inferInstanceAs (Std.TransCmp (compareLex _ (compareLex _ _)))

instance : Std.LawfulEqOrd Deadline where
  eq_of_compare := by
    intro a b h
    obtain ⟨h₁, h₂⟩ := compareLex_eq_eq.mp h
    obtain ⟨h₂, h₃⟩ := compareLex_eq_eq.mp h₂
    refine rank_injective (Prod.ext ?_ (Prod.ext ?_ ?_))
    · exact Std.LawfulEqOrd.eq_of_compare h₁
    · exact Std.LawfulEqOrd.eq_of_compare h₂
    · exact Std.LawfulEqOrd.eq_of_compare h₃

end Deadline

/-- The keys of the entries that are due, earliest first, and in key order among equals. -/
def dueKeys {κ ν : Type} [Ord κ] [Std.TransOrd κ] (map : Std.ExtTreeMap κ ν) (nowMs : ℕ)
    (deadlineOf : ν → ℕ) : List κ :=
  ((map.toList.filter fun p => deadlineOf p.2 ≤ nowMs).insertionSort fun p q =>
    deadlineOf p.2 ≤ deadlineOf q.2).map Prod.fst

section Due

variable {κ ν : Type} [Ord κ] [Std.TransOrd κ] [Std.LawfulEqOrd κ] (map : Std.ExtTreeMap κ ν)
  (nowMs : ℕ) (deadlineOf : ν → ℕ)

/-- An entry is due at its instant, and not before. -/
theorem mem_dueKeys (key : κ) : key ∈ dueKeys map nowMs deadlineOf ↔
    ∃ value, map[key]? = some value ∧ deadlineOf value ≤ nowMs := by
  unfold dueKeys
  rw [List.mem_map]
  constructor
  · intro h
    obtain ⟨p, hp, rfl⟩ := h
    rw [List.mem_insertionSort, List.mem_filter, decide_eq_true_eq] at hp
    exact ⟨p.2, Std.ExtTreeMap.mem_toList_iff_getElem?_eq_some.mp hp.1, hp.2⟩
  · intro h
    obtain ⟨value, hvalue, hdue⟩ := h
    refine ⟨(key, value), ?_, rfl⟩
    rw [List.mem_insertionSort, List.mem_filter, decide_eq_true_eq]
    exact ⟨Std.ExtTreeMap.mem_toList_iff_getElem?_eq_some.mpr hvalue, hdue⟩

/-- No entry is due twice. -/
theorem nodup_dueKeys : (dueKeys map nowMs deadlineOf).Nodup := by
  have hkeys : (map.toList.map Prod.fst).Nodup := by
    refine List.pairwise_map.mpr (map.distinct_keys_toList.imp ?_)
    intro p q hne heq
    rw [heq] at hne
    exact hne Std.ReflCmp.compare_self
  have hfilter : ((map.toList.filter fun p => deadlineOf p.2 ≤ nowMs).map Prod.fst).Nodup :=
    hkeys.sublist (List.filter_sublist.map Prod.fst)
  exact ((List.perm_insertionSort _ _).map Prod.fst).nodup_iff.mpr hfilter

theorem dueKeys_eq_nil : dueKeys map nowMs deadlineOf = [] ↔
    ∀ (key : κ) (value : ν), map[key]? = some value → nowMs < deadlineOf value := by
  rw [List.eq_nil_iff_forall_not_mem]
  constructor
  · intro h key value hvalue
    by_contra hdue
    exact h key ((mem_dueKeys map nowMs deadlineOf key).mpr ⟨value, hvalue, Nat.not_lt.mp hdue⟩)
  · intro h key hkey
    obtain ⟨value, hvalue, hdue⟩ := (mem_dueKeys map nowMs deadlineOf key).mp hkey
    exact absurd hdue (Nat.not_le.mpr (h key value hvalue))

end Due

/-- A set of named deadlines. -/
structure Timers where
  deadlines : Std.ExtTreeMap Deadline ℕ
  deriving DecidableEq

namespace Timers

/-- Nothing armed. -/
def new : Timers := ⟨∅⟩

/-- Arm a deadline, replacing any previous one under the same key. -/
def set (timers : Timers) (deadline : Deadline) (atMonotonicMs : ℕ) : Timers :=
  ⟨timers.deadlines.insert deadline atMonotonicMs⟩

/-- Disarm a deadline. -/
def clear (timers : Timers) (deadline : Deadline) : Timers := ⟨timers.deadlines.erase deadline⟩

/-- Every deadline that has fallen due, earliest first, removed from the schedule. -/
def expire (timers : Timers) (now : Now) : Timers × List Deadline :=
  let due := dueKeys timers.deadlines now.monotonicMs id
  (⟨due.foldl Std.ExtTreeMap.erase timers.deadlines⟩, due)

/-- The earliest pending deadline. -/
def next (timers : Timers) : Option ℕ := (timers.deadlines.toList.map Prod.snd).min?

end Timers

/-- Exponential reconnect backoff, giving up after a bounded number of attempts. -/
structure ReconnectBackoff where
  baseMs : ℕ
  capMs : ℕ
  maxAttempts : ℕ
  attempts : ℕ
  deriving DecidableEq

namespace ReconnectBackoff

/-- Two seconds doubling to five minutes, a hundred times. -/
def default : ReconnectBackoff := ⟨2000, 300000, 100, 0⟩

/-- The delay before the next attempt, or `none` once the attempts are exhausted. -/
def nextDelayMs (backoff : ReconnectBackoff) : ReconnectBackoff × Option ℕ :=
  if backoff.maxAttempts ≤ backoff.attempts then (backoff, none)
  else
    let factor := if backoff.attempts < 64 then 2 ^ backoff.attempts else u64Max
    ({ backoff with attempts := backoff.attempts + 1 },
      some (min (min (backoff.baseMs * factor) u64Max) backoff.capMs))

/-- Start the sequence over. -/
def reset (backoff : ReconnectBackoff) : ReconnectBackoff := { backoff with attempts := 0 }

end ReconnectBackoff

end ObbyClient

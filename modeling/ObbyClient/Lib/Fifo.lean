import Mathlib.Data.List.Infix
import Mathlib.Data.List.Nodup
import Mathlib.Data.List.Pairwise

/-!
# A bounded queue of distinct keys

A key goes in at the back unless it is held already.  Once there are more than the bound, the front
gives way, and any key may be taken out of the middle.  The keys of a queue stand in the order in
which they came to be held.
-/

namespace ObbyClient.Fifo

variable {κ : Type*} [DecidableEq κ]

/-- A key comes in at the back, unless it is held; the front gives way above the bound. -/
def enqueue (cap : ℕ) (queue : List κ) (key : κ) : List κ :=
  if key ∈ queue then queue else (queue ++ [key]).drop (queue.length + 1 - cap)

/-- A key goes out, wherever it stands. -/
def remove (queue : List κ) (key : κ) : List κ := queue.filter fun entry => entry ≠ key

/-- What happens to a queue. -/
inductive Move (κ : Type*) where
  | enqueue (key : κ)
  | remove (key : κ)

def step (cap : ℕ) (queue : List κ) : Move κ → List κ
  | .enqueue key => enqueue cap queue key
  | .remove key => remove queue key

/-- The queue after some moves, from an empty one. -/
def run (cap : ℕ) (moves : List (Move κ)) : List κ := moves.foldl (step cap) []

variable {cap : ℕ} {queue : List κ} {key : κ}

theorem enqueue_of_mem (h : key ∈ queue) : enqueue cap queue key = queue := if_pos h

theorem length_enqueue_le (h : queue.length ≤ cap) : (enqueue cap queue key).length ≤ cap := by
  unfold enqueue
  split
  · exact h
  · rw [List.length_drop, List.length_append, List.length_singleton]
    omega

/-- A move leaves of the queue what it leaves, in order, and at the back one new key at most. -/
theorem step_sublist (cap : ℕ) (queue : List κ) (move : Move κ) :
    List.Sublist (step cap queue move) queue ∨
      ∃ key, move = .enqueue key ∧ key ∉ queue ∧
        List.Sublist (step cap queue move) (queue ++ [key]) := by
  cases move with
  | remove key => exact .inl List.filter_sublist
  | enqueue key =>
    by_cases h : key ∈ queue
    · refine .inl ?_
      rw [step, enqueue_of_mem h]
    · refine .inr ⟨key, rfl, h, ?_⟩
      rw [step, enqueue, if_neg h]
      exact List.drop_sublist _ _

theorem nodup_step (move : Move κ) (h : queue.Nodup) : (step cap queue move).Nodup := by
  obtain hsub | ⟨key, -, hnew, hsub⟩ := step_sublist cap queue move
  · exact h.sublist hsub
  · exact (List.nodup_append.mpr ⟨h, List.nodup_singleton key, by
      intro a ha b hb hab
      rw [List.mem_singleton.mp hb] at hab
      exact hnew (hab ▸ ha)⟩).sublist hsub

/-! ### Runs -/

@[simp] theorem run_nil : run cap ([] : List (Move κ)) = [] := rfl

theorem run_append_singleton (moves : List (Move κ)) (move : Move κ) :
    run cap (moves ++ [move]) = step cap (run cap moves) move := by
  unfold run
  rw [List.foldl_append]
  rfl

/-- At some moment the one was held and the other was not, and the one has been held ever since. -/
def Older (cap : ℕ) (moves : List (Move κ)) (a b : κ) : Prop :=
  ∃ earlier later, moves = earlier ++ later ∧ b ∉ run cap earlier ∧
    ∀ part, part <+: later → a ∈ run cap (earlier ++ part)

/-- Who is older stays older, while it is held. -/
theorem Older.append {moves : List (Move κ)} {a b : κ} (h : Older cap moves a b) {move : Move κ}
    (ha : a ∈ run cap (moves ++ [move])) : Older cap (moves ++ [move]) a b := by
  obtain ⟨earlier, later, rfl, hb, hheld⟩ := h
  refine ⟨earlier, later ++ [move], List.append_assoc _ _ _, hb, ?_⟩
  intro part hpart
  obtain hpart | rfl := List.prefix_concat_iff.mp hpart |>.symm
  · exact hheld part hpart
  · rwa [← List.append_assoc]

/-- A key that comes in is younger than all that stay. -/
theorem Older.of_enqueued {moves : List (Move κ)} {move : Move κ} {a b : κ}
    (ha : a ∈ run cap moves) (hstays : a ∈ run cap (moves ++ [move])) (hb : b ∉ run cap moves) :
    Older cap (moves ++ [move]) a b := by
  refine ⟨moves, [move], rfl, hb, ?_⟩
  intro part hpart
  obtain rfl | hpart := List.prefix_concat_iff.mp (show part <+: [] ++ [move] from hpart)
  · exact hstays
  · rw [List.prefix_nil.mp hpart, List.append_nil]
    exact ha

/-- **The keys of a queue stand oldest first.** -/
theorem pairwise_older (cap : ℕ) (moves : List (Move κ)) :
    (run cap moves).Pairwise (Older cap moves) := by
  induction moves using List.reverseRecOn with
  | nil => exact List.Pairwise.nil
  | append_singleton moves move ih =>
    -- what was in order is, and a key that comes in comes in behind all that stay
    have hkept : (run cap moves).Pairwise fun a b =>
        a ∈ run cap (moves ++ [move]) → Older cap (moves ++ [move]) a b :=
      ih.imp fun h ha => h.append ha
    have hall : (run cap (moves ++ [move])).Pairwise fun a b =>
        a ∈ run cap (moves ++ [move]) → Older cap (moves ++ [move]) a b := by
      obtain hsub | ⟨key, -, hnew, hsub⟩ := step_sublist cap (run cap moves) move
      · rw [← run_append_singleton] at hsub
        exact hkept.sublist hsub
      · rw [← run_append_singleton] at hsub
        refine List.Pairwise.sublist hsub (List.pairwise_append.mpr
          ⟨hkept, List.pairwise_singleton _ _, ?_⟩)
        intro a ha b hb hstays
        rw [List.mem_singleton.mp hb]
        exact Older.of_enqueued ha hstays hnew
    exact hall.imp_of_mem fun ha _ h => h ha

end ObbyClient.Fifo

import ObbyClient.Proto.Casemap

/-!
# Watching whether people are online

Who we watch and who of them is here, and the requests that stay within the server's limit.
-/

namespace ObbyClient

/-- Who we are watching, and whether each is online. -/
structure WatchList where
  watching : Std.ExtTreeSet CaseFolded
  online : Std.ExtTreeSet CaseFolded
  deriving DecidableEq

namespace WatchList

/-- Watch nobody. -/
def new : WatchList := ⟨∅, ∅⟩

/-- Note that we asked to watch these. -/
def watch (list : WatchList) (folded : List CaseFolded) : WatchList :=
  { list with watching := folded.foldl Std.ExtTreeSet.insert list.watching }

/-- Note that we asked to stop watching these. -/
def unwatch (list : WatchList) (folded : List CaseFolded) : WatchList :=
  ⟨folded.foldl Std.ExtTreeSet.erase list.watching, folded.foldl Std.ExtTreeSet.erase list.online⟩

/-- Record that someone is online. -/
def markOnline (list : WatchList) (folded : CaseFolded) : WatchList :=
  ⟨list.watching.insert folded, list.online.insert folded⟩

/-- Record that someone is offline. -/
def markOffline (list : WatchList) (folded : CaseFolded) : WatchList :=
  { list with online := list.online.erase folded }

/-- Everyone we are watching. -/
def watched (list : WatchList) : List CaseFolded := list.watching.toList

/-- Nobody is online until the server says so. -/
def forgetPresence (list : WatchList) : WatchList := { list with online := ∅ }

end WatchList

namespace Monitor

/-- Consecutive pieces of at most `n` elements.  Each turn takes at least one off. -/
def chunks {α : Type*} (n : ℕ) : ℕ → List α → List (List α)
  | 0, _ => []
  | _ + 1, [] => []
  | fuel + 1, xs => xs.take n :: chunks n fuel (xs.drop n)

theorem flatten_chunks {α : Type*} {n fuel : ℕ} {xs : List α} (hn : 0 < n)
    (hfuel : xs.length ≤ fuel) : (chunks n fuel xs).flatten = xs := by
  induction fuel generalizing xs with
  | zero =>
      rw [List.length_eq_zero_iff.mp (Nat.le_zero.mp hfuel)]
      rfl
  | succ fuel ih =>
      cases xs with
      | nil => rfl
      | cons x xs =>
          have hrest : ((x :: xs).drop n).length ≤ fuel := by
            rw [List.length_drop]
            omega
          show ((x :: xs).take n :: chunks n fuel ((x :: xs).drop n)).flatten = x :: xs
          rw [List.flatten_cons, ih hrest, List.take_append_drop]

/-- Every piece has an element, and no more than it may. -/
theorem length_of_mem_chunks {α : Type*} {n fuel : ℕ} {xs piece : List α} (hn : 0 < n)
    (h : piece ∈ chunks n fuel xs) : 0 < piece.length ∧ piece.length ≤ n := by
  induction fuel generalizing xs with
  | zero => exact absurd h List.not_mem_nil
  | succ fuel ih =>
      cases xs with
      | nil => exact absurd h List.not_mem_nil
      | cons x xs =>
          rcases List.mem_cons.mp h with heq | h
          · rw [heq, List.length_take, List.length_cons]
            omega
          · exact ih h

/-- Split a list of targets into requests that each stay inside the server's limit. -/
def batched (targets : List Str) (limit : ℕ) : List Str :=
  (chunks (max limit 1) targets.length targets).map (List.intercalate [','])

/-- Read the targets out of a comma-separated parameter. -/
def splitTargets (list : Str) : List Str := (list.splitOn ',').filter (· ≠ [])

end Monitor

end ObbyClient

import ObbyClient.E2ee.Crypto

/-!
# The keys of messages still to come

A message that arrives out of order leaves behind the keys of those it overtook.  They are held by
the ratchet key and the place of their message, in the order they were come by, and the oldest gives
way to a new one once the store is full.
-/

namespace ObbyClient.E2ee

variable [Crypto]

/-- The ratchet key of a message's chain, and the message's place in it. -/
abbrev MessageId : Type := Key × UInt32

structure SkippedKeys where
  byId : MessageId → Option Key
  order : List MessageId

namespace SkippedKeys

def new : SkippedKeys where
  byId := fun _ => none
  order := []

/-- Drop the oldest keys until the store is within its bound. -/
def evict (byId : MessageId → Option Key) : List MessageId → SkippedKeys
  | [] => ⟨byId, []⟩
  | oldest :: rest =>
    if maxSkippedKeys < (oldest :: rest).length then evict (Function.update byId oldest none) rest
    else ⟨byId, oldest :: rest⟩

def insert (skipped : SkippedKeys) (dh : Key) (n : UInt32) (key : Key) : SkippedKeys :=
  let id : MessageId := (dh, n)
  let order := if skipped.byId id = none then skipped.order ++ [id] else skipped.order
  evict (Function.update skipped.byId id (some key)) order

def take (skipped : SkippedKeys) (dh : Key) (n : UInt32) : Option (Key × SkippedKeys) :=
  let id : MessageId := (dh, n)
  match skipped.byId id with
  | none => none
  | some key =>
    some (key, ⟨Function.update skipped.byId id none, skipped.order.filter fun entry => entry ≠ id⟩)

variable {skipped : SkippedKeys} {dh : Key} {n : UInt32} {key : Key}

theorem evict_of_le {byId : MessageId → Option Key} {order : List MessageId}
    (h : order.length ≤ maxSkippedKeys) : evict byId order = ⟨byId, order⟩ := by
  cases order with
  | nil => rfl
  | cons oldest rest =>
    rw [evict, if_neg (not_lt.mpr h)]

/-- Nothing gives way while there is room. -/
theorem insert_byId (dh : Key) (n : UInt32) (key : Key)
    (h : skipped.order.length + 1 ≤ maxSkippedKeys) :
    (skipped.insert dh n key).byId = Function.update skipped.byId (dh, n) (some key) ∧
      (skipped.insert dh n key).order.length ≤ skipped.order.length + 1 := by
  have hlen : (if skipped.byId (dh, n) = none then skipped.order ++ [(dh, n)]
      else skipped.order).length ≤ skipped.order.length + 1 := by
    split
    · rw [List.length_append]
      exact le_rfl
    · exact Nat.le_succ _
  unfold insert
  dsimp only
  rw [evict_of_le (hlen.trans h)]
  exact ⟨rfl, hlen⟩

theorem take_eq_none : skipped.take dh n = none ↔ skipped.byId (dh, n) = none := by
  unfold take
  dsimp only
  split
  · rename_i h
    exact iff_of_true rfl h
  · rename_i h
    rw [h]
    exact iff_of_false nofun nofun

theorem take_eq_some {rest : SkippedKeys} (h : skipped.take dh n = some (key, rest)) :
    skipped.byId (dh, n) = some key ∧ rest.byId = Function.update skipped.byId (dh, n) none ∧
      rest.order.length ≤ skipped.order.length := by
  unfold take at h
  dsimp only at h
  split at h
  · cases h
  · rename_i found hfound
    obtain ⟨rfl, rfl⟩ := Prod.mk.inj (Option.some.inj h)
    exact ⟨hfound, rfl, List.length_filter_le _ _⟩

theorem exists_take (h : skipped.byId (dh, n) = some key) :
    ∃ rest, skipped.take dh n = some (key, rest) := by
  unfold take
  dsimp only
  rw [h]
  exact ⟨_, rfl⟩

end SkippedKeys

end ObbyClient.E2ee

import ObbyClient.Proto.Message

/-!
# `BATCH` framing

Batches are keyed by their reference, because sibling batches interleave on the wire: nesting and
per-batch buffering, both bounded.
-/

namespace ObbyClient

/-- How many messages a single batch buffers before it is marked overflowed. -/
def defaultMaxBuffered : ℕ := 1024

/-- How many batches may be open at once. -/
def defaultMaxOpen : ℕ := 64

/-- One batch that finished, with everything it collected while it was open. -/
structure ClosedBatch where
  /-- The batch type. -/
  kind : Str
  /-- The parameters that followed the type. -/
  params : List Str
  /-- The reference of the batch that held this one open. -/
  parent : Option Str
  /-- The messages routed into this batch, in arrival order. -/
  messages : List Message
  /-- True when `messages` is only a prefix of what was sent. -/
  overflowed : Bool
  deriving DecidableEq

/-- A batch still open: what it has collected so far, and the ids among it. -/
structure OpenBatch extends ClosedBatch where
  /-- Every `msgid` already buffered. -/
  seen : Std.ExtTreeSet Str
  deriving DecidableEq

namespace OpenBatch

/-- Buffer a message, unless the batch is full or has it already. -/
def push (batch : OpenBatch) (message : Message) (maxBuffered : ℕ) : OpenBatch :=
  if batch.overflowed then batch
  else if (message.tag "msgid").any batch.seen.contains then batch
  else if maxBuffered ≤ batch.messages.length then { batch with overflowed := true }
  else
    { batch with
      seen := ((message.tag "msgid").map batch.seen.insert).getD batch.seen
      messages := batch.messages ++ [message] }

end OpenBatch

/-- Open `BATCH` framing for one connection. -/
structure Batches where
  byReference : Std.ExtTreeMap Str OpenBatch
  maxBuffered : ℕ
  maxOpen : ℕ
  deriving DecidableEq

namespace Batches

/-- A tracker with no batches open. -/
def new : Batches := ⟨∅, defaultMaxBuffered, defaultMaxOpen⟩

/-- The reference a marker parameter opens or closes. -/
def marked (sign : Char) (message : Message) : Option Str :=
  match message.param 0 with
  | some (c :: reference) => if c = sign then some reference else none
  | _ => none

/-- Handle a `BATCH +<ref> <type> [params...]` line.  The first batch under a reference keeps it. -/
def opened (batches : Batches) (message : Message) : Batches :=
  match marked '+' message, message.param 1 with
  | some reference, some kind =>
      if batches.byReference.contains reference then batches
      else if batches.maxOpen ≤ batches.byReference.size then batches
      else
        { batches with
          byReference := batches.byReference.insert reference
            ⟨⟨kind, message.params.drop 2, message.tag "batch", [], false⟩, ∅⟩ }
  | _, _ => batches

/-- Handle a `BATCH -<ref>` line, handing back what the batch collected. -/
def close (batches : Batches) (message : Message) : Option (Batches × ClosedBatch) := do
  let reference ← marked '-' message
  let batch ← batches.byReference[reference]?
  some ({ batches with byReference := batches.byReference.erase reference }, batch.toClosedBatch)

/-- The open batch a message names. -/
def holder (batches : Batches) (message : Message) : Option (Str × OpenBatch) := do
  let reference ← message.tag "batch"
  let batch ← batches.byReference[reference]?
  some (reference, batch)

/-- Route one message into the open batch its tag names; `none` when there is no such batch. -/
def route (batches : Batches) (message : Message) : Option Batches :=
  (batches.holder message).map fun (reference, batch) =>
    { batches with
      byReference :=
        batches.byReference.insert reference (batch.push message batches.maxBuffered) }

/-- Follow the chain of parents.  No legitimate chain is longer than the number of open batches. -/
def isWithin.go (batches : Batches) (kind : Str) : ℕ → Option OpenBatch → Bool
  | 0, current => current.any fun batch => batch.kind == kind
  | steps + 1, current =>
      current.any fun batch =>
        batch.kind == kind ||
          isWithin.go batches kind steps (batch.parent.bind fun parent =>
            batches.byReference[parent]?)

/-- True when this reference names an open batch of this type, or one that is held open by such a
batch. -/
def isWithin (batches : Batches) (reference kind : Str) : Bool :=
  isWithin.go batches kind batches.byReference.size batches.byReference[reference]?

/-- Drop every open batch, for a connection that just died. -/
def dropAll (batches : Batches) : Batches := { batches with byReference := ∅ }

end Batches

end ObbyClient

import ObbyClient.Engine.Batch
import ObbyClient.Engine.Timer

/-!
# Labeled-response correlation

A labelled command is answered by one tagged line or by a batch whose opening line carries the
label. A label that never gets answered is reclaimed when its deadline passes.
-/

namespace ObbyClient

/-- The labeled-response timeout. -/
def defaultTimeoutMs : ℕ := 30000

/-- One outstanding label. -/
structure Pending where
  deadlineMs : ℕ
  /-- The batch that answers this label, once its reply turns out to be one. -/
  batchId : Option Str
  /-- The command the label was attached to. -/
  data : Str
  deriving DecidableEq

/-- Correlates outbound commands with the message that answers them. -/
structure Labels where
  nextId : ℕ
  pending : Std.ExtTreeMap Str Pending
  /-- The label that opened each batch. -/
  openBatches : Std.ExtTreeMap Str Str
  deriving DecidableEq

namespace Labels

/-- Nothing outstanding. -/
def new : Labels := ⟨0, ∅, ∅⟩

/-- A label no other outstanding request is using. -/
def generate (labels : Labels) : Labels × Str :=
  ({ labels with nextId := labels.nextId + 1 }, 'l' :: natToStr (labels.nextId + 1))

/-- Start tracking a label that was just sent. -/
def register (labels : Labels) (label : Str) (deadlineMs : ℕ) (data : Str) : Labels :=
  { labels with pending := labels.pending.insert label ⟨deadlineMs, none, data⟩ }

/-- Stop tracking a label, and the batch that was answering it. -/
def release (labels : Labels) (label : Str) (pending : Pending) : Labels :=
  { labels with
    pending := labels.pending.erase label
    openBatches := (pending.batchId.map labels.openBatches.erase).getD labels.openBatches }

/-- The batch marker lines: an opening line arms the correlation, a closing line completes it. -/
def resolveBatch (labels : Labels) (message : Message) : Labels :=
  match Batches.marked '-' message, Batches.marked '+' message with
  | some id, _ =>
      match labels.openBatches[id]? with
      | none => labels
      | some label =>
          { labels with
            openBatches := labels.openBatches.erase id
            pending := labels.pending.erase label }
  | none, some id =>
      match message.tag "label" with
      | none => labels
      | some label =>
          match labels.pending[label]? with
          | none => labels
          | some pending =>
              { labels with
                pending := labels.pending.insert label { pending with batchId := some id }
                openBatches := labels.openBatches.insert id label }
  | none, none => labels

/-- Apply an inbound message to whatever label it answers. -/
def resolve (labels : Labels) (message : Message) : Labels :=
  if message.is "BATCH" then labels.resolveBatch message
  else
    match message.tag "label" with
    | none => labels
    | some label =>
        match labels.pending[label]? with
        | none => labels
        | some pending => labels.release label pending

/-- Give up on one label whose deadline has passed. -/
def expireOne : Labels × List Str → Str → Labels × List Str
  | (labels, commands), label =>
      match labels.pending[label]? with
      | none => (labels, commands)
      | some pending => (labels.release label pending, commands ++ [pending.data])

/-- Every label whose deadline has passed, earliest first, removed from tracking. -/
def expire (labels : Labels) (nowMonotonicMs : ℕ) : Labels × List Str :=
  (dueKeys labels.pending nowMonotonicMs Pending.deadlineMs).foldl expireOne (labels, [])

end Labels

end ObbyClient

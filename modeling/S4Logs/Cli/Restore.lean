import S4Logs.Core.Deps

/-!
# Batches of a restore

A restore sends events to CloudWatch in batches. The batcher takes one event after the
other and hands a batch back where the next event does not fit in it. `splitBatches` cuts
a list of events at the same limits by index.
-/

namespace S4Logs

/-- The limits of one batch. -/
def maxBatchEvents : Nat := 10000
def maxBatchBytes : Nat := 1048576
def eventOverheadBytes : Nat := 26
def maxBatchSpanMs : Int := 24 * 3600000

/-- One event to send. -/
structure BatchEvent where
  timestamp : Int
  message : String
deriving DecidableEq

/-- What one message counts. -/
def eventCost (message : String) : Nat := message.utf8ByteSize + eventOverheadBytes

structure EventBatcher where
  batch : List BatchEvent
  bytes : Nat

namespace EventBatcher

def new : EventBatcher := ⟨[], 0⟩

/-- The event does not fit in the batch. -/
def full (b : EventBatcher) (ev : BatchEvent) : Bool :=
  match b.batch with
  | [] => false
  | first :: _ =>
    decide (maxBatchEvents ≤ b.batch.length) ||
      decide (maxBatchBytes < b.bytes + eventCost ev.message) ||
      decide (maxBatchSpanMs < saturatingSub ev.timestamp first.timestamp)

/-- Add one event. The batch before it is handed back where it did not fit. -/
def push (b : EventBatcher) (ev : BatchEvent) : Option (List BatchEvent) × EventBatcher :=
  if b.full ev then (some b.batch, ⟨[ev], eventCost ev.message⟩)
  else (none, ⟨b.batch ++ [ev], b.bytes + eventCost ev.message⟩)

/-- The last batch, if there is one. -/
def finish (b : EventBatcher) : Option (List BatchEvent) :=
  if b.batch.isEmpty then none else some b.batch

/-- The batches of events that are pushed one by one. -/
def drive (b : EventBatcher) : List BatchEvent → List (List BatchEvent)
  | [] => b.finish.toList
  | ev :: evs => (b.push ev).1.toList ++ (b.push ev).2.drive evs

end EventBatcher

/-- The ranges so far, and the one under way: where it begins, and what it counts. -/
structure SplitState where
  out : List (Nat × Nat)
  start : Nat
  bytes : Nat

/-- Go on with event `i`. -/
def splitStep (events : List BatchEvent) (st : SplitState) (next : BatchEvent × Nat) :
    SplitState :=
  let (e, i) := next
  let cost := eventCost e.message
  let count := i - st.start
  let tooMany := decide (maxBatchEvents ≤ count)
  let tooBig := decide (maxBatchBytes < st.bytes + cost)
  let tooWide := decide (0 < count) && (events[st.start]?).any fun first =>
    decide (maxBatchSpanMs < saturatingSub e.timestamp first.timestamp)
  if decide (0 < count) && (tooMany || tooBig || tooWide) then
    ⟨st.out ++ [(st.start, i)], i, cost⟩
  else ⟨st.out, st.start, st.bytes + cost⟩

/-- The ranges of the batches, each with the end exclusive. -/
def splitBatches (events : List BatchEvent) : List (Nat × Nat) :=
  let st := events.zipIdx.foldl (splitStep events) ⟨[], 0, 0⟩
  if st.start < events.length then st.out ++ [(st.start, events.length)] else st.out

end S4Logs

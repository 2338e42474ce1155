import S4Logs.Core.Record
import S4Logs.Lib.Sorting

/-!
# The k-way merge

Each source hands out batches, the merge keeps the head of every source in a heap and
takes the least one out. A source is asked for its next batch once the batch before
it is used up, so batches may be empty and of any length.
-/

namespace S4Logs

/-- A source is known by what its calls of `next_batch` hand out, one after the other: a
batch, or the error the call ends with. After the last it hands out nothing. -/
abbrev BatchSource (ε : Type) := List (Except ε (List LogRecord))

/-- The head record of one source. -/
structure Head where
  record : LogRecord
  src : Nat
deriving DecidableEq

/-- Timestamp and stream. Streams compare as their octets do. -/
def LogRecord.key (r : LogRecord) : Int ×ₗ String := toLex (r.timestamp, r.stream)

/-- Heads come out by timestamp, stream and source. -/
def Head.key (h : Head) : Int ×ₗ String ×ₗ Nat :=
  toLex (h.record.timestamp, toLex (h.record.stream, h.src))

/-- Take the least head out of the heap. -/
def popLeast : List Head → Option (Head × List Head)
  | [] => none
  | h :: heap =>
    match popLeast heap with
    | none => some (h, [])
    | some (least, rest) => if h.key ≤ least.key then some (h, heap) else some (least, h :: rest)

/-- A source, and what is left of the batch it handed out last. -/
structure Lane (ε : Type) where
  batch : List LogRecord
  source : BatchSource ε

variable {ε : Type}

/-- Take the next record of a source, asking for batches until one has a record or there
is none. -/
def nextRecord (batch : List LogRecord) (source : BatchSource ε) :
    Except ε (Option LogRecord) × Lane ε :=
  match batch, source with
  | rec :: batch, source => (.ok (some rec), ⟨batch, source⟩)
  | [], [] => (.ok none, ⟨[], []⟩)
  | [], .error e :: source => (.error e, ⟨[], source⟩)
  | [], .ok batch :: source => nextRecord batch source
termination_by structural source

structure KWayMerge (ε : Type) where
  lanes : List (Lane ε)
  heap : List Head
  primed : Bool

namespace KWayMerge

def new (sources : List (BatchSource ε)) : KWayMerge ε where
  lanes := sources.map fun source => ⟨[], source⟩
  heap := []
  primed := false

/-- Push the next record of a source into the heap. -/
def refill (m : KWayMerge ε) (src : Nat) : Except ε Unit × KWayMerge ε :=
  match m.lanes[src]? with
  | none => (.ok (), m)
  | some lane =>
    match nextRecord lane.batch lane.source with
    | (.error e, lane) => (.error e, { m with lanes := m.lanes.set src lane })
    | (.ok none, lane) => (.ok (), { m with lanes := m.lanes.set src lane })
    | (.ok (some rec), lane) =>
      (.ok (), { m with lanes := m.lanes.set src lane, heap := ⟨rec, src⟩ :: m.heap })

/-- Refill from these sources, as far as none fails. -/
def refillAll (m : KWayMerge ε) : List Nat → Except ε Unit × KWayMerge ε
  | [] => (.ok (), m)
  | src :: srcs =>
    match m.refill src with
    | (.error e, m) => (.error e, m)
    | (.ok (), m) => m.refillAll srcs

/-- The first pull fills the heap. -/
def prime (m : KWayMerge ε) : Except ε Unit × KWayMerge ε :=
  if m.primed then (.ok (), m)
  else { m with primed := true }.refillAll (List.range m.lanes.length)

/-- The next record, with the index of its source. -/
def nextIndexed (m : KWayMerge ε) : Except ε (Option (LogRecord × Nat)) × KWayMerge ε :=
  match m.prime with
  | (.error e, m) => (.error e, m)
  | (.ok (), m) =>
    match popLeast m.heap with
    | none => (.ok none, m)
    | some (head, heap) =>
      match { m with heap := heap }.refill head.src with
      | (.error e, m) => (.error e, m)
      | (.ok (), m) => (.ok (some (head.record, head.src)), m)

/-- Pull some times, as a caller does that stops at the end and at an error. The result
is nothing while there is more to pull. -/
def pulls : Nat → KWayMerge ε → List (LogRecord × Nat) × Option (Except ε Unit)
  | 0, _ => ([], none)
  | n + 1, m =>
    match m.nextIndexed with
    | (.error e, _) => ([], some (.error e))
    | (.ok none, _) => ([], some (.ok ()))
    | (.ok (some x), m) =>
      let r := pulls n m
      (x :: r.1, r.2)

end KWayMerge

end S4Logs

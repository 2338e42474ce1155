import S4Logs.Core.Chunk

/-!
# Reading a body back

The frames of an object that a time range meets, decompression under a cap, and the
records on the lines of what comes out.
-/

namespace S4Logs

inductive ReadError where
  | indexMismatch (frames tsFrames : Nat)
  | bomb (cap : Nat)
  | sizeMismatch (expected got : Nat)
  | io
deriving DecidableEq

/-- A half-open range of event time. -/
structure TimeRange where
  fromMs : Int
  toMsExclusive : Int
deriving DecidableEq

def TimeRange.overlaps (range : TimeRange) (minTs maxTs : Int) : Bool :=
  decide (minTs < range.toMsExclusive) && decide (range.fromMs ≤ maxTs)

/-- One frame to fetch: its place in the index and its octets in the body. -/
structure FrameSpan where
  frameIdx : Nat
  byteStart : Nat
  byteEndExclusive : Nat
  originalSize : Nat
deriving DecidableEq

/-- The frames whose timestamps meet the range, in object order. -/
def framesOverlapping (frameIndex : FrameIndex) (tsIndex : TsIndex) (range : TimeRange) :
    Except ReadError (List FrameSpan) :=
  if frameIndex.entries.length ≠ tsIndex.entries.length then
    .error (.indexMismatch frameIndex.entries.length tsIndex.entries.length)
  else
    .ok (((frameIndex.entries.zip tsIndex.entries).zipIdx.filter fun p =>
        range.overlaps p.1.2.minTs p.1.2.maxTs).map fun p => {
      frameIdx := p.2
      byteStart := p.1.1.compressedOffset
      byteEndExclusive := p.1.1.compressedOffset + p.1.1.compressedSize
      originalSize := p.1.1.originalSize })

/-- One span into the ranges so far: the last range takes it where the gap between them is
small enough. A range is where it starts, where it ends and the sizes of its frames summed. -/
def coalesceStep (maxGapBytes : Nat) (out : List (Nat × Nat × Nat)) (s : FrameSpan) :
    List (Nat × Nat × Nat) :=
  match out.getLast? with
  | some (start, stop, orig) =>
    if s.byteStart - stop ≤ maxGapBytes then
      out.dropLast ++ [(start, s.byteEndExclusive, orig + s.originalSize)]
    else out ++ [(s.byteStart, s.byteEndExclusive, s.originalSize)]
  | none => out ++ [(s.byteStart, s.byteEndExclusive, s.originalSize)]

/-- Merge spans, in object order, into fewer ranges to fetch. -/
def coalesceSpans (spans : List FrameSpan) (maxGapBytes : Nat) : List (Nat × Nat × Nat) :=
  spans.foldl (coalesceStep maxGapBytes) []

/-- The slack the cap allows over the claimed size. -/
def bombSlackBytes : Nat := 1024

/-- Ceiling on the decompressed size of one object. -/
def maxDecompressedBytes : Nat := 64 * 2 ^ 30

/-- Decompress concatenated frames, reading no more than the claimed size and
some slack. An error past the cap is never reached. -/
def decompressFrames (Z : Zstd) (input : Bytes) (expectedOriginal : Nat) :
    Except ReadError Bytes :=
  if maxDecompressedBytes < expectedOriginal then .error (.bomb maxDecompressedBytes)
  else
    let cap := expectedOriginal + bombSlackBytes
    let out := (Z.decode input).1.take cap
    if (Z.decode input).2 = false ∧ (Z.decode input).1.length < cap then .error .io
    else if cap ≤ out.length then .error (.bomb cap)
    else if out.length ≠ expectedOriginal then .error (.sizeMismatch expectedOriginal out.length)
    else .ok out

/-- One item per nonempty line: the record on it, or nothing where the line does
not decode. -/
def recordLines (S : SerdeLine LogRecord) (bytes : Bytes) : List (Option LogRecord) :=
  (Bytes.lines bytes).map S.fromSlice

/-- The records a reader of the whole object gets. -/
def objectRecords (lib : CodecLib) (body : Bytes) : List LogRecord :=
  lib.records.intact (lib.zstd.decode body).1

/-- Dropping the lines that do not decode leaves the intact ones. -/
theorem recordLines_flatten (S : SerdeLine LogRecord) (bytes : Bytes) :
    (recordLines S bytes).filterMap id = S.intact bytes := by
  simp only [recordLines, SerdeLine.intact, List.filterMap_map, Function.id_comp]

end S4Logs

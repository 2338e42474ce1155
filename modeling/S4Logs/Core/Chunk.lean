import S4Logs.Core.Record
import S4Logs.Core.TsIndex

/-!
# The chunk encoder

Records in, a body of independent zstd frames and its sidecars out. The writer
keeps the uncut tail as text (`pending`) and cuts a frame once the tail is long
enough. A failed compression leaves the writer as it was, the pushed record
included: the caller sees the error and the writer still holds the record.
-/

namespace S4Logs

/-- One frame of `s4_codec`'s byte index. -/
structure FrameIndexEntry where
  originalOffset : Nat
  originalSize : Nat
  compressedOffset : Nat
  compressedSize : Nat
deriving DecidableEq

/-- `s4_codec`'s byte index. The source fields are stamped by the sink. -/
structure FrameIndex where
  totalPaddedSize : Nat
  entries : List FrameIndexEntry
  sourceEtag : Option String
  sourceCompressedSize : Option Nat
deriving DecidableEq

structure ChunkConfig where
  frameTargetBytes : Nat
  zstdLevel : Int
deriving DecidableEq

/-- A fully encoded data object and what the sidecars and the manifest need. -/
structure EncodedChunk where
  body : Bytes
  frameIndex : FrameIndex
  tsIndex : TsIndex
  recordCount : Nat
  uncompressedBytes : Nat
  minTimestamp : Int
  maxTimestamp : Int
  crc32c : Nat
deriving DecidableEq

/-- Encoding a record never fails, so only compression does. -/
inductive ChunkError where
  | io
deriving DecidableEq

/-- The crates that an object is written and read with. -/
structure CodecLib where
  records : SerdeLine LogRecord
  zstd : Zstd
  crc32c : Bytes → Nat
  encodeIndex : FrameIndex → Bytes

/-- The incremental writer. -/
structure ChunkWriter where
  cfg : ChunkConfig
  pending : Bytes
  pendingMinTs : Int
  pendingMaxTs : Int
  pendingRecords : Nat
  body : Bytes
  entries : List FrameIndexEntry
  tsEntries : List TsEntry
  originalOff : Nat
  recordCount : Nat
  minTs : Int
  maxTs : Int
deriving DecidableEq

namespace ChunkWriter

def new (cfg : ChunkConfig) : ChunkWriter where
  cfg := cfg
  pending := []
  pendingMinTs := i64Max
  pendingMaxTs := i64Min
  pendingRecords := 0
  body := []
  entries := []
  tsEntries := []
  originalOff := 0
  recordCount := 0
  minTs := i64Max
  maxTs := i64Min

/-- Uncompressed bytes accepted so far. -/
def uncompressedLen (w : ChunkWriter) : Nat := w.originalOff + w.pending.length

/-- Records accepted so far. -/
def recordTotal (w : ChunkWriter) : Nat := w.recordCount + w.pendingRecords

def isEmpty (w : ChunkWriter) : Bool := w.recordCount == 0 && w.pendingRecords == 0

variable (lib : CodecLib)

/-- Cut the uncut tail into a frame. -/
def cutFrame (w : ChunkWriter) : ChunkWriter × Except ChunkError Unit :=
  if w.pending = [] then (w, .ok ())
  else
    match lib.zstd.compressFrame w.pending w.cfg.zstdLevel with
    | none => (w, .error .io)
    | some compressed =>
      ({ w with
          entries := w.entries ++ [{
            originalOffset := w.originalOff
            originalSize := w.pending.length
            compressedOffset := w.body.length
            compressedSize := compressed.length }]
          tsEntries := w.tsEntries ++ [{ minTs := w.pendingMinTs, maxTs := w.pendingMaxTs }]
          originalOff := w.originalOff + w.pending.length
          body := w.body ++ compressed
          recordCount := w.recordCount + w.pendingRecords
          minTs := min w.minTs w.pendingMinTs
          maxTs := max w.maxTs w.pendingMaxTs
          pending := []
          pendingMinTs := i64Max
          pendingMaxTs := i64Min
          pendingRecords := 0 }, .ok ())

/-- Take one record in, before any cut. -/
def accept (w : ChunkWriter) (rec : LogRecord) : ChunkWriter :=
  { w with
      pending := rec.appendJsonl lib.records w.pending
      pendingMinTs := min w.pendingMinTs rec.timestamp
      pendingMaxTs := max w.pendingMaxTs rec.timestamp
      pendingRecords := w.pendingRecords + 1 }

def push (w : ChunkWriter) (rec : LogRecord) : ChunkWriter × Except ChunkError Unit :=
  let w := w.accept lib rec
  if w.cfg.frameTargetBytes ≤ w.pending.length then w.cutFrame lib else (w, .ok ())

/-- Push records one after the other, as a caller does that stops at an error. -/
def pushAll (w : ChunkWriter) : List LogRecord → ChunkWriter × Except ChunkError Unit
  | [] => (w, .ok ())
  | rec :: recs =>
    match w.push lib rec with
    | (w, .error e) => (w, .error e)
    | (w, .ok ()) => w.pushAll recs

/-- The object of what the writer holds. The writer is left as it is, so a
failed upload can be tried again; `finish` is the same, taking the writer. -/
def encode (w : ChunkWriter) : Except ChunkError (Option EncodedChunk) := do
  let (entries, tsEntries, body, originalOff, recordCount, minTs, maxTs) ←
    if w.pending = [] then
      .ok (w.entries, w.tsEntries, w.body, w.originalOff, w.recordCount, w.minTs, w.maxTs)
    else
      match lib.zstd.compressFrame w.pending w.cfg.zstdLevel with
      | none => .error .io
      | some compressed =>
        .ok (w.entries ++ [{
              originalOffset := w.originalOff
              originalSize := w.pending.length
              compressedOffset := w.body.length
              compressedSize := compressed.length }],
          w.tsEntries ++ [{ minTs := w.pendingMinTs, maxTs := w.pendingMaxTs }],
          w.body ++ compressed, w.originalOff + w.pending.length,
          w.recordCount + w.pendingRecords, min w.minTs w.pendingMinTs,
          max w.maxTs w.pendingMaxTs)
  if entries.isEmpty then .ok none
  else
    .ok (some {
      frameIndex := {
        totalPaddedSize := body.length
        entries := entries
        sourceEtag := none
        sourceCompressedSize := none }
      tsIndex := { entries := tsEntries }
      recordCount := recordCount
      uncompressedBytes := originalOff
      minTimestamp := minTs
      maxTimestamp := maxTs
      crc32c := lib.crc32c body
      body := body })

def finish (w : ChunkWriter) : Except ChunkError (Option EncodedChunk) := w.encode lib

/-- Push some records into a new writer and finish it. -/
def encodeAll (cfg : ChunkConfig) (recs : List LogRecord) :
    Except ChunkError (Option EncodedChunk) :=
  match (new cfg).pushAll lib recs with
  | (_, .error e) => .error e
  | (w, .ok ()) => w.finish lib

end ChunkWriter

end S4Logs

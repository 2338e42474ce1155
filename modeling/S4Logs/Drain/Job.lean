import S4Logs.Drain.Manifest
import S4Logs.Drain.Shard
import S4Logs.Drain.Retention

/-!
# The chunk pipeline of one window

Records go into a chunk writer; a full writer becomes a data object under the
next name of the window, and its receipt an entry of the manifest to come. Drain
and reconcile share the pipeline and differ in the names.
-/

namespace S4Logs

structure DrainOptions where
  account : String
  logGroup : String
  fromMs : Option Int
  toMs : Option Int
  nowCutoffMs : Int
  windowMs : Int
  chunkTargetBytes : Nat
  chunk : ChunkConfig
  concurrency : Nat
  dryRun : Bool
  shardStreams : Nat
deriving DecidableEq

/-- How a window's data objects are named. -/
inductive ObjectNaming where
  | base
  | reconcile (attempt : Nat)
deriving DecidableEq

/-- `{start}-{seq:06}`, or `{start}-r{attempt:02}{seq:04}`. -/
def ObjectNaming.name (naming : ObjectNaming) (windowStartMs : Int) (seq : Nat) : String :=
  match naming with
  | .base => toString windowStartMs ++ "-" ++ String.ofList (Text.padded 6 seq)
  | .reconcile attempt =>
    toString windowStartMs ++ "-r" ++ String.ofList (Text.padded 2 attempt) ++
      String.ofList (Text.padded 4 seq)

structure WindowWriter where
  windowStartMs : Int
  date : String
  naming : ObjectNaming
  writer : ChunkWriter
  seq : Nat
  objects : List ManifestObject
  records : Nat
  rawBytes : Nat
  compressedBytes : Nat
  objectsWritten : Nat
deriving DecidableEq

namespace WindowWriter

/-- No window spans two days, so its start gives the date of every event in it. -/
def new (opts : DrainOptions) (w : Window) (naming : ObjectNaming) : WindowWriter where
  windowStartMs := w.startMs
  date := dateFromTsMs w.startMs
  naming := naming
  writer := ChunkWriter.new opts.chunk
  seq := 0
  objects := []
  records := 0
  rawBytes := 0
  compressedBytes := 0
  objectsWritten := 0

/-- Where the next data object goes. -/
def location (opts : DrainOptions) (ww : WindowWriter) : ChunkLocation where
  account := opts.account
  logGroup := opts.logGroup
  date := ww.date
  name := ww.naming.name ww.windowStartMs ww.seq

/-- Count a finished chunk. -/
def count (ww : WindowWriter) (chunk : EncodedChunk) : WindowWriter :=
  { ww with
      records := ww.records + chunk.recordCount
      rawBytes := ww.rawBytes + chunk.uncompressedBytes
      compressedBytes := ww.compressedBytes + chunk.body.length }

/-- Finalize one chunk and count it. What is left to do is the PUT of the chunk,
if there is one: an empty writer makes none and a dry run uploads none. -/
def flush (lib : CodecLib) (opts : DrainOptions) (ww : WindowWriter) (writer : ChunkWriter) :
    Except DrainError (WindowWriter × Option EncodedChunk) :=
  match writer.finish lib with
  | .error e => .error (.chunk e)
  | .ok none => .ok (ww, none)
  | .ok (some chunk) =>
    if opts.dryRun then .ok ({ ww.count chunk with seq := ww.seq + 1 }, none)
    else .ok (ww.count chunk, some chunk)

/-- Push one record, and flush the writer where it is full. -/
def push (lib : CodecLib) (opts : DrainOptions) (ww : WindowWriter) (rec : LogRecord) :
    Except DrainError (WindowWriter × Option EncodedChunk) :=
  match ww.writer.push lib rec with
  | (_, .error e) => .error (.chunk e)
  | (writer, .ok ()) =>
    if opts.chunkTargetBytes ≤ writer.uncompressedLen then
      flush lib opts { ww with writer := ChunkWriter.new opts.chunk } writer
    else .ok ({ ww with writer := writer }, none)

/-- Flush what is left, after the last push. -/
def finish (lib : CodecLib) (opts : DrainOptions) (ww : WindowWriter) :
    Except DrainError (WindowWriter × Option EncodedChunk) :=
  flush lib opts { ww with writer := ChunkWriter.new opts.chunk } ww.writer

/-- The manifest entry of a stored chunk. -/
def entry (chunk : EncodedChunk) (receipt : PutReceipt) : ManifestObject where
  dataKey := receipt.dataKey
  etag := receipt.etag
  crc32c := receipt.crc32c
  bodyLen := receipt.bodyLen
  rawBytes := some chunk.uncompressedBytes
  storageClass := receipt.storageClass
  recordCount := chunk.recordCount
  minTs := chunk.minTimestamp
  maxTs := chunk.maxTimestamp

/-- Record a stored chunk. -/
def stored (ww : WindowWriter) (chunk : EncodedChunk) (receipt : PutReceipt) : WindowWriter :=
  { ww with
      objects := ww.objects ++ [entry chunk receipt]
      objectsWritten := ww.objectsWritten + 1
      seq := ww.seq + 1 }

/-- The chunks that are put for some records, where every PUT is answered with a receipt. -/
def puts (lib : CodecLib) (opts : DrainOptions) (receipt : EncodedChunk → PutReceipt) :
    WindowWriter → List LogRecord → List EncodedChunk
  | ww, [] =>
    match ww.finish lib opts with
    | .ok (_, some chunk) => [chunk]
    | _ => []
  | ww, rec :: recs =>
    match ww.push lib opts rec with
    | .error _ => []
    | .ok (ww, none) => puts lib opts receipt ww recs
    | .ok (ww, some chunk) => chunk :: puts lib opts receipt (ww.stored chunk (receipt chunk)) recs

end WindowWriter

/-- Whether a window had no manifest and was drained, or had one and was read back. -/
inductive WindowAction where
  | drained
  | reconciled
deriving DecidableEq

/-- What happened to one window. Drain fills the first fields and reconcile the
others; a window that reconcile drained has both. -/
structure WindowOutcome where
  action : WindowAction
  skipped : Bool
  records : Nat
  dropped : Nat
  rawBytes : Nat
  compressedBytes : Nat
  objectsWritten : Nat
  cwEvents : Nat
  alreadyArchived : Nat
  appended : Nat
deriving DecidableEq

end S4Logs

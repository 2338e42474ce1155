import S4Logs.Core.Read
import S4Logs.Core.Sink
import S4Logs.Gateway.Wal

/-!
# The buffer manager

One writer for each log group and UTC date, so that a chunk never spans a date
partition. What happens under the lock of the map is a function here: of the map,
of the disk the log is on, and of what the operating system answers.

An error leaves what was done before it. A section that logs therefore returns the
map and the disk in every case, with the operations it did to the disk in order.
-/

namespace S4Logs

/-- One event of a `PutLogEvents` batch. -/
structure InputLogEvent where
  timestamp : Int
  message : String
deriving DecidableEq

/-- An event and the log group it belongs to. -/
structure LogEvent where
  logGroup : String
  record : LogRecord
deriving DecidableEq

structure BufferConfig where
  account : String
  flushBytes : Nat
  flushIntervalMs : Nat
  chunk : ChunkConfig
  walDir : Option String
  maxBufferedBytes : Nat

inductive BufferError where
  | chunk (e : ChunkError)
  | sink
  | wal
  | overCapacity
deriving DecidableEq

/-- Log group and UTC date. -/
abbrev BufKey := String × String

/-- A buffer, and the segment that mirrors it where there is a log. -/
structure Buf where
  writer : ChunkWriter
  firstEventTsMs : Int
  openedAt : Nat
  wal : Option WalSegment
deriving DecidableEq

abbrev Buffers := List (BufKey × Buf)

/-- Retire the segment of a buffer that needs no flush any more. -/
def Buf.retire (buf : Buf) (io : DeleteIo) : List DiskOp :=
  match buf.wal with
  | none => []
  | some seg => seg.delete io

/-- What does not change while the process runs: the settings, the sink, and the crates
it was built with. -/
structure BufferManager where
  cfg : BufferConfig
  sink : StoreConfig
  lib : CodecLib
  entries : SerdeLine WalEntry

/-- The records of a batch. -/
def batchEvents (logGroup stream : String) (events : List InputLogEvent) : List LogEvent :=
  events.map fun ev => {
    logGroup := logGroup
    record := {
      timestamp := ev.timestamp
      stream := stream
      message := ev.message
      ingestionTime := none
      eventId := none } }

/-- The estimate of a batch that the memory cap is checked with. -/
def incomingBytes (stream : String) (events : List InputLogEvent) : Nat :=
  (events.map fun ev => ev.message.utf8ByteSize + stream.utf8ByteSize + 64).sum

/-! ## The map -/

/-- Uncompressed bytes buffered. -/
def bufferedTotal (buffers : Buffers) : Nat :=
  (buffers.map fun e => e.2.writer.uncompressedLen).sum

/-- Take out every buffer that matches: these, and the rest. -/
def takeMatching (p : Buf → Bool) (buffers : Buffers) : Buffers × Buffers :=
  (buffers.filter fun e => p e.2, buffers.filter fun e => !p e.2)

/-- The larger of two buffers, the later of equals. -/
def larger (best : Option (BufKey × Buf)) (e : BufKey × Buf) : Option (BufKey × Buf) :=
  match best with
  | none => some e
  | some b => if b.2.writer.uncompressedLen ≤ e.2.writer.uncompressedLen then some e else some b

/-- The key of the largest buffer in the iteration order. -/
def largestKey (buffers : Buffers) : Option BufKey := (buffers.foldl larger none).map Prod.fst

/-- Take out the largest buffer. -/
def takeLargest (buffers : Buffers) : Option ((BufKey × Buf) × Buffers) :=
  (largestKey buffers).bind fun key =>
    (Assoc.remove key buffers).map fun r => ((key, r.1), r.2)

/-- Take out the largest buffers while the rest is over the cap. No more turns than
buffers are needed. -/
def takeOver (cap : Nat) : Nat → Buffers → Buffers × Buffers
  | 0, buffers => ([], buffers)
  | turns + 1, buffers =>
    if bufferedTotal buffers ≤ cap then ([], buffers)
    else
      match takeLargest buffers with
      | none => ([], buffers)
      | some (e, rest) =>
        let r := takeOver cap turns rest
        (e :: r.1, r.2)

/-- The map in the iteration order of these keys, where they are the keys of the map. -/
def inOrder (keys : List BufKey) (buffers : Buffers) : Buffers :=
  let listed := keys.filterMap fun k => (Assoc.get? k buffers).map fun buf => (k, buf)
  if listed.isPerm buffers then listed else buffers

/-! ## Under the lock -/

/-- What a section that holds the lock works on, and what it has done to the disk. -/
structure Locked where
  buffers : Buffers
  disk : Disk
  ops : List DiskOp

namespace Locked

def io (l : Locked) (ops : List DiskOp) : Locked :=
  { l with
      disk := l.disk.applyAll ops
      ops := l.ops ++ ops }

def set (l : Locked) (key : BufKey) (buf : Buf) : Locked :=
  { l with buffers := Assoc.insert key buf l.buffers }

end Locked

namespace BufferManager

variable (m : BufferManager)

/-- The buffer of a key, made with its segment where there is none. -/
def openBuf (l : Locked) (key : BufKey) (tsMs : Int) (io : EventIo) : Option (Locked × Buf) :=
  match Assoc.get? key l.buffers with
  | some buf => some (l, buf)
  | none =>
    let fresh (wal : Option WalSegment) : Buf := {
      writer := ChunkWriter.new m.cfg.chunk
      firstEventTsMs := tsMs
      openedAt := io.nowMs
      wal := wal }
    if m.cfg.walDir.isSome then
      (WalSegment.create l.disk key.1 key.2 io).map fun (seg, ops) =>
        ((l.io ops).set key (fresh (some seg)), fresh (some seg))
    else some (l.set key (fresh none), fresh none)

/-- Append the line of a record, where the buffer has a segment. -/
def appendLine (buf : Buf) (logGroup : String) (rec : LogRecord) (torn : Option Nat) :
    Buf × List DiskOp × Bool :=
  match buf.wal with
  | none => (buf, [], true)
  | some seg =>
    let (seg, ops, ok) := seg.append m.entries (rec.toWalEntry logGroup) torn
    ({ buf with wal := some seg }, ops, ok)

/-- Append one record to its buffer: the line first, then the writer. The second result
is whether the writer took the record, which it does also where the cut after it fails. -/
def pushOne (l : Locked) (logGroup : String) (rec : LogRecord) (io : EventIo) :
    Locked × Bool × Option BufferError :=
  let key := (logGroup, dateFromTsMs rec.timestamp)
  match m.openBuf l key rec.timestamp io with
  | none => (l, false, some .wal)
  | some (l, buf) =>
    match m.appendLine buf logGroup rec io.torn with
    | (buf, ops, false) => ((l.io ops).set key buf, false, some .wal)
    | (buf, ops, true) =>
      match buf.writer.push m.lib rec with
      | (writer, .ok ()) => ((l.io ops).set key { buf with writer := writer }, true, none)
      | (writer, .error e) =>
        ((l.io ops).set key { buf with writer := writer }, true, some (.chunk e))

/-- Push records until one fails. The second result lists those a writer took. -/
def pushAll (l : Locked) : List (LogEvent × EventIo) →
    Locked × List LogEvent × Option BufferError
  | [] => (l, [], none)
  | (ev, io) :: rest =>
    match m.pushOne l ev.logGroup ev.record io with
    | (l, pushed, some e) => (l, if pushed then [ev] else [], some e)
    | (l, _, none) =>
      let r := pushAll l rest
      (r.1, ev :: r.2.1, r.2.2)

end BufferManager

/-- Sync every dirty segment, up to the first sync that fails. -/
def syncWal (fails : Option String) : Buffers → Buffers × List DiskOp × Bool
  | [] => ([], [], true)
  | (key, buf) :: rest =>
    match buf.wal with
    | none =>
      let r := syncWal fails rest
      ((key, buf) :: r.1, r.2)
    | some seg =>
      let (seg, ops, ok) := seg.sync (fails = some seg.name)
      let buf := { buf with wal := some seg }
      if ok then
        let r := syncWal fails rest
        ((key, buf) :: r.1, ops ++ r.2.1, r.2.2)
      else ((key, buf) :: rest, ops, false)

/-- `sync_wal` under the lock, over the map in its iteration order. -/
def Locked.sync (l : Locked) (order : List BufKey) (fails : Option String) : Locked × Bool :=
  let r := syncWal fails (inOrder order l.buffers)
  ({ l with buffers := r.1 }.io r.2.1, r.2.2)

namespace BufferManager

variable (m : BufferManager)

/-- Push decoded records, whatever each push answers. -/
def pushRecords (w : ChunkWriter) (recs : List LogRecord) : ChunkWriter :=
  recs.foldl (fun w rec => (w.push m.lib rec).1) w

/-- Put a buffer back whose flush failed. Where its key was made again meanwhile, a
logged buffer is left to its segment, and any other is merged by decoding its chunk. -/
def reinsert (buffers : Buffers) (key : BufKey) (buf : Buf) (chunk : Option EncodedChunk) :
    Buffers :=
  match Assoc.get? key buffers with
  | none => Assoc.insert key buf buffers
  | some dst =>
    if buf.wal.isSome then buffers
    else
      let dst := { dst with
        openedAt := min dst.openedAt buf.openedAt
        firstEventTsMs := min dst.firstEventTsMs buf.firstEventTsMs }
      let merged := chunk.bind fun c =>
        (decompressFrames m.lib.zstd c.body c.uncompressedBytes).toOption
      match merged with
      | some plain =>
        Assoc.insert key { dst with
          writer := m.pushRecords dst.writer ((recordLines m.lib.records plain).filterMap id) }
          buffers
      | none => Assoc.insert key dst buffers

/-- Where the chunk of a buffer goes. -/
def location (key : BufKey) (buf : Buf) (uuid : String) : ChunkLocation where
  account := m.cfg.account
  logGroup := key.1
  date := key.2
  name := toString buf.firstEventTsMs ++ "-" ++ uuid

end BufferManager

end S4Logs

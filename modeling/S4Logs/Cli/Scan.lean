import S4Logs.Cli.Merge
import S4Logs.Core.Store

/-!
# The scan

The read path of grep and restore: list the chunks of the range, load their sidecars,
cut the frames that meet the range into clusters, fetch and decode one cluster after the
other, and merge the chunks. A chunk without usable sidecars is read as a whole, one line
at a time under a cap. The counters of a scan are left out.
-/

namespace S4Logs

/-- The most decoded octets of an object that is read as a whole. -/
def fallbackDecodeCapBytes : Nat := 2 * 2 ^ 30

/-- The most days that are listed one by one. -/
def maxPerDtLists : Nat := 32

/-- The partition labels of the days of `[fromMs, toMsExclusive)`. -/
def datesInRange (fromMs toMsExclusive : Int) : List String :=
  if toMsExclusive ≤ fromMs then []
  else
    let first := fromMs / dayMs
    let last := (toMsExclusive - 1) / dayMs
    (List.range (last + 1 - first).toNat).map fun i : Nat =>
      dateFromTsMs (saturatingMul (first + (i : Int)) dayMs)

/-- What a message must match, if anything. -/
abbrev Pattern := Option (String → Bool)

/-- The record's time is in the range, and its message matches. -/
def recordMatches (range : TimeRange) (pattern : Pattern) (rec : LogRecord) : Bool :=
  decide (range.fromMs ≤ rec.timestamp) && decide (rec.timestamp < range.toMsExclusive) &&
    match pattern with
    | none => true
    | some isMatch => isMatch rec.message

inductive WholeError where
  | decode
  | cap (bytes : Nat)
deriving DecidableEq

inductive ScanError where
  | list (logGroup : String) (e : StoreError)
  | sidecars (dataKey : String) (e : StoreError)
  | prune (dataKey : String) (e : ReadError)
  | rangeGet (dataKey : String) (byteStart byteEndExclusive : Nat) (e : StoreError)
  | rangeLength (dataKey : String) (frameIdx got want byteStart byteEndExclusive : Nat)
  | frame (frameIdx : Nat) (dataKey : String) (e : ReadError)
  | wholeGet (dataKey : String) (e : StoreError)
  | whole (dataKey : String) (e : WholeError)
deriving DecidableEq

/-! ## Decoded text -/

section Decoded

variable (lib : ReaderLib) (range : TimeRange) (pattern : Pattern)

/-- The matching records of decoded lines. A line that does not parse is passed over. -/
def emitRecords (jsonl : Bytes) : List LogRecord :=
  ((recordLines lib.records jsonl).filterMap id).filter (recordMatches range pattern)

/-- A line without the carriage return at its end. -/
def dropReturn (line : Bytes) : Bytes := if line.getLast? = some 13 then line.dropLast else line

/-- The matching records of lines that come one after the other, each with the octets read
for it, after `total` octets. -/
def streamLines : Nat → List (Bytes × Nat) → Except WholeError (List LogRecord)
  | _, [] => .ok []
  | total, (line, n) :: lines =>
    let total := total + n
    if fallbackDecodeCapBytes < total then .error (.cap fallbackDecodeCapBytes)
    else
      let content := dropReturn line
      if content = [] then streamLines total lines
      else
        match lib.records.fromSlice content with
        | none => streamLines total lines
        | some rec =>
          if recordMatches range pattern rec then (streamLines total lines).map (rec :: ·)
          else streamLines total lines

/-- Read a whole object line by line. Where the stream breaks the line under way is not
read. -/
def streamFullObject (body : Bytes) : Except WholeError (List LogRecord) :=
  let text := (lib.zstd.decode body).1
  let pieces := text.splitOn Bytes.newline
  let complete := pieces.dropLast.map fun line => (line, line.length + 1)
  let last := pieces.getLastD []
  if (lib.zstd.decode body).2 then
    streamLines lib range pattern 0
      (complete ++ if last = [] then [] else [(last, last.length)])
  else
    match streamLines lib range pattern 0 complete with
    | .error e => .error e
    | .ok _ => .error .decode

end Decoded

/-! ## Clusters -/

/-- Add a frame to the last cluster where it begins by the end of it, and open a new one
otherwise. A cluster comes with its greatest timestamp. -/
def clusterStep (out : List (Int × List FrameSpan)) (frame : FrameSpan × Int × Int) :
    List (Int × List FrameSpan) :=
  match out.getLast? with
  | some (clusterMax, cluster) =>
    if frame.2.1 ≤ clusterMax then
      out.dropLast ++ [(max clusterMax frame.2.2, cluster ++ [frame.1])]
    else out ++ [(frame.2.2, [frame.1])]
  | none => out ++ [(frame.2.2, [frame.1])]

/-- Frames come by their least timestamp. -/
def frameKey (frame : FrameSpan × Int × Int) : Int ×ₗ Nat :=
  toLex (frame.2.1, frame.1.frameIdx)

/-- Decode units, one above the other in time. -/
def clusterSpans (spans : List (FrameSpan × Int × Int)) : List (List FrameSpan) :=
  ((Sorting.sortBy frameKey spans).foldl clusterStep []).map Prod.snd

/-! ## The source of a chunk -/

inductive FetchUnit where
  | frames (spans : List FrameSpan)
  | wholeObject
deriving DecidableEq

structure ChunkSource where
  dataKey : String
  range : TimeRange
  pattern : Pattern
  units : List FetchUnit

section Source

variable (lib : ReaderLib) (store : ObjectStore)

namespace ChunkSource

/-- Fetch and decode one frame. -/
def fetchSpan (cs : ChunkSource) (span : FrameSpan) : Except ScanError (List LogRecord) :=
  let want := span.byteEndExclusive - span.byteStart
  match store.getRange cs.dataKey span.byteStart span.byteEndExclusive with
  | .error e => .error (.rangeGet cs.dataKey span.byteStart span.byteEndExclusive e)
  | .ok bytes =>
    if bytes.length ≠ want then
      .error (.rangeLength cs.dataKey span.frameIdx bytes.length want span.byteStart
        span.byteEndExclusive)
    else
      match decompressFrames lib.zstd bytes span.originalSize with
      | .error e => .error (.frame span.frameIdx cs.dataKey e)
      | .ok jsonl => .ok (emitRecords lib cs.range cs.pattern jsonl)

/-- Fetch frames one after the other. -/
def fetchSpans (cs : ChunkSource) : List FrameSpan → Except ScanError (List LogRecord)
  | [] => .ok []
  | span :: spans =>
    match cs.fetchSpan lib store span with
    | .error e => .error e
    | .ok recs => (cs.fetchSpans spans).map (recs ++ ·)

/-- Fetch and decode one unit. -/
def fetchUnit (cs : ChunkSource) : FetchUnit → Except ScanError (List LogRecord)
  | .frames spans => cs.fetchSpans lib store spans
  | .wholeObject =>
    match store.getBytes cs.dataKey with
    | .error e => .error (.wholeGet cs.dataKey e)
    | .ok body => (streamFullObject lib cs.range cs.pattern body).mapError (.whole cs.dataKey)

/-- The records of the next unit, sorted. Records that tie stay in the order they came. -/
def nextBatch (cs : ChunkSource) : Except ScanError (Option (List LogRecord)) × ChunkSource :=
  match cs.units with
  | [] => (.ok none, cs)
  | unit :: units =>
    ((cs.fetchUnit lib store unit).map fun recs => some (Sorting.sortBy LogRecord.key recs),
      { cs with units := units })

/-- What the calls of `next_batch` hand out. -/
def batches (cs : ChunkSource) : BatchSource ScanError :=
  cs.units.map fun unit => (cs.fetchUnit lib store unit).map (Sorting.sortBy LogRecord.key)

end ChunkSource

/-! ## Listing -/

/-- The chunks of one day after the other. -/
def listDates (account logGroup : String) : List String → Except ScanError (List ChunkLocation)
  | [] => .ok []
  | date :: dates =>
    match store.listKeys
        (dataGroupPrefix store.keyPrefix account logGroup ++ "dt=" ++ date ++ "/") with
    | .error e => .error (.list logGroup e)
    | .ok keys =>
      (listDates account logGroup dates).map
        (keys.filterMap (ChunkLocation.parseDataKey store.keyPrefix) ++ ·)

/-- The chunks of the range, by date and name: one listing for each day, or where there are
many days one of the whole group. -/
def listRangeChunks (account logGroup : String) (range : TimeRange) :
    Except ScanError (List ChunkLocation) :=
  let dates := datesInRange range.fromMs range.toMsExclusive
  let locs :=
    if dates.length ≤ maxPerDtLists then listDates store account logGroup dates
    else
      match store.listChunks account logGroup with
      | .error e => .error (.list logGroup e)
      | .ok chunks => .ok (chunks.filter fun loc => dates.contains loc.date)
  locs.map (Sorting.sortBy fun loc => toLex (loc.date, loc.name))

/-! ## Sources -/

/-- The reader can do without the sidecars. Other failures of the store are its own. -/
def StoreError.sidecarUnusable : StoreError → Bool
  | .notFound _ => true
  | .index => true
  | .tsIndex _ => true
  | .aws _ _ => false

/-- What to fetch of a chunk: the frames that meet the range, or the whole object where the
sidecars are unusable or out of step. -/
def fetchUnits (dataKey : String) (range : TimeRange) :
    Option (FrameIndex × TsIndex) → Except ScanError (List FetchUnit)
  | none => .ok [.wholeObject]
  | some (frameIndex, tsIndex) =>
    match framesOverlapping frameIndex tsIndex range with
    | .ok spans =>
      .ok ((clusterSpans (spans.filterMap fun s =>
        (tsIndex.entries[s.frameIdx]?).map fun e => (s, e.minTs, e.maxTs))).map .frames)
    | .error (.indexMismatch _ _) => .ok [.wholeObject]
    | .error e => .error (.prune dataKey e)

/-- The sidecars of a chunk, where they are usable. -/
def usableSidecars (loc : ChunkLocation) : Except ScanError (Option (FrameIndex × TsIndex)) :=
  match store.loadIndexes lib loc with
  | .ok pair => .ok (some pair)
  | .error e =>
    if e.sidecarUnusable then .ok none
    else .error (.sidecars (loc.dataKey store.keyPrefix) e)

/-- The source of one chunk. There is none where no frame meets the range. -/
def chunkSource (range : TimeRange) (pattern : Pattern) (loc : ChunkLocation) :
    Except ScanError (Option ChunkSource) := do
  let dataKey := loc.dataKey store.keyPrefix
  let sidecars ← usableSidecars lib store loc
  let units ← fetchUnits dataKey range sidecars
  .ok (if units = [] then none
    else some { dataKey := dataKey, range := range, pattern := pattern, units := units })

/-- The sources of some chunks. -/
def chunkSources (range : TimeRange) (pattern : Pattern) :
    List ChunkLocation → Except ScanError (List ChunkSource)
  | [] => .ok []
  | loc :: locs =>
    match chunkSource lib store range pattern loc with
    | .error e => .error e
    | .ok source => (chunkSources range pattern locs).map (source.toList ++ ·)

/-- The sources of one group. -/
def buildGroupSources (account logGroup : String) (range : TimeRange) (pattern : Pattern) :
    Except ScanError (List ChunkSource) :=
  match listRangeChunks store account logGroup range with
  | .error e => .error e
  | .ok locs => chunkSources lib store range pattern locs

/-- The sources of some groups, each with the number of its group, from `gi` on. -/
def buildSources (account : String) (range : TimeRange) (pattern : Pattern) :
    Nat → List String → Except ScanError (List (ChunkSource × Nat))
  | _, [] => .ok []
  | gi, logGroup :: logGroups =>
    match buildGroupSources lib store account logGroup range pattern with
    | .error e => .error e
    | .ok sources =>
      (buildSources account range pattern (gi + 1) logGroups).map
        (sources.map (fun source => (source, gi)) ++ ·)

structure ScanStream where
  merge : KWayMerge ScanError
  sourceGroups : List Nat
  groupNames : List String

def openScanMulti (account : String) (logGroups : List String) (range : TimeRange)
    (pattern : Pattern) : Except ScanError ScanStream :=
  (buildSources lib store account range pattern 0 logGroups).map fun sources => {
    merge := .new (sources.map fun s => s.1.batches lib store)
    sourceGroups := sources.map Prod.snd
    groupNames := logGroups }

/-- The group of a source. -/
def ScanStream.groupOf (scan : ScanStream) (src : Nat) : String :=
  scan.groupNames.getD (scan.sourceGroups.getD src 0) ""

/-- What a scan emits in `n` pulls, and how it ended if it did. -/
def scanLogGroups (n : Nat) (account : String) (logGroups : List String) (range : TimeRange)
    (pattern : Pattern) : List (LogRecord × String) × Option (Except ScanError Unit) :=
  match openScanMulti lib store account logGroups range pattern with
  | .error e => ([], some (.error e))
  | .ok scan =>
    let r := scan.merge.pulls n
    (r.1.map fun x => (x.1, scan.groupOf x.2), r.2)

end Source

end S4Logs

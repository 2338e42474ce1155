import S4Logs.Core.Layout
import S4Logs.Core.Record
import S4Logs.Lib.Assoc

/-!
# The write-ahead log and the disk it is on

One segment file for each buffer, one line for each event. A segment that loses
its owner stays on the disk and is read back at the next start.

The directory is what it shows and what an unlink has taken from it that is not
durable yet. Of a file the disk has promised to keep its first `synced` octets,
and the file itself once its entry is durable. What code does to the disk is a
list of operations, so that a crash can fall between any two of them.
-/

namespace S4Logs

/-! ## The disk -/

structure DiskFile where
  data : Bytes
  synced : Nat
  linked : Bool
deriving DecidableEq

structure Disk where
  files : List (String × DiskFile)
  unlinked : List (String × DiskFile)
deriving DecidableEq

inductive DiskOp where
  | create (name : String)
  | append (name : String) (bytes : Bytes)
  | sync (name : String)
  | syncDir
  | remove (name : String)
deriving DecidableEq

namespace Disk

def empty : Disk where
  files := []
  unlinked := []

/-- Change one file. -/
def modify (d : Disk) (name : String) (f : DiskFile → DiskFile) : Disk :=
  { d with files := d.files.map fun e => if e.1 = name then (e.1, f e.2) else e }

def apply (d : Disk) : DiskOp → Disk
  | .create name => { d with files := d.files ++ [(name, ⟨[], 0, false⟩)] }
  | .append name bytes => d.modify name fun f => { f with data := f.data ++ bytes }
  | .sync name => d.modify name fun f => { f with synced := f.data.length }
  | .syncDir => {
      files := d.files.map fun e => (e.1, { e.2 with linked := true })
      unlinked := [] }
  | .remove name => {
      files := d.files.filter fun e => e.1 ≠ name
      unlinked := d.unlinked ++ d.files.filter fun e => e.1 = name }

def applyAll (d : Disk) (ops : List DiskOp) : Disk := ops.foldl apply d

/-- The disk after a crash that left these files. -/
def crashed (after : List (String × Bytes)) : Disk where
  files := after.map fun e => (e.1, ⟨e.2, e.2.length, true⟩)
  unlinked := []

end Disk

/-- What a crash may leave: every file whose entry is durable, perhaps others, and of
each at least what was synced. Anything may follow that. -/
structure CrashLaw (d : Disk) (after : List (String × Bytes)) : Prop where
  nodup : (Assoc.keys after).Nodup
  kept : ∀ e ∈ d.files, e.2.linked = true →
    ∃ b, (e.1, b) ∈ after ∧ e.2.data.take e.2.synced <+: b
  origin : ∀ e ∈ after, ∃ f, (e.1, f) ∈ d.files ++ d.unlinked ∧ f.data.take f.synced <+: e.2

/-- A crash that drops or tears only what was appended after the last sync: of each file
the synced octets are left, and no file is longer than it was. -/
structure TearLaw (d : Disk) (after : List (String × Bytes)) : Prop where
  nodup : (Assoc.keys after).Nodup
  kept : ∀ e ∈ d.files, e.2.linked = true → ∃ b, (e.1, b) ∈ after ∧
    e.2.data.take e.2.synced <+: b ∧ b.length ≤ e.2.data.length
  origin : ∀ e ∈ after, ∃ f, (e.1, f) ∈ d.files ++ d.unlinked ∧
    f.data.take f.synced <+: e.2 ∧ e.2.length ≤ f.data.length

/-! ## Segments -/

def walSuffix : String := ".wal"

/-- One line: the event, and the log group its buffer needs. -/
structure WalEntry where
  logGroup : String
  timestamp : Int
  stream : String
  message : String
  ingestionTime : Option Int
deriving DecidableEq

/-- The record an entry is replayed as. -/
def WalEntry.toRecord (e : WalEntry) : LogRecord where
  timestamp := e.timestamp
  stream := e.stream
  message := e.message
  ingestionTime := e.ingestionTime
  eventId := none

/-- The entry of a record. -/
def LogRecord.toWalEntry (logGroup : String) (rec : LogRecord) : WalEntry where
  logGroup := logGroup
  timestamp := rec.timestamp
  stream := rec.stream
  message := rec.message
  ingestionTime := rec.ingestionTime

/-- What the operating system does for one event: the random name of a new segment,
the clock, whether the segment opens and its directory syncs, and where a write that
fails stops. -/
structure EventIo where
  uuid : String
  nowMs : Nat
  opened : Bool
  dirSynced : Bool
  torn : Option Nat
deriving DecidableEq

/-- How a deletion goes. -/
structure DeleteIo where
  removed : Bool
  dirSynced : Bool
deriving DecidableEq

/-- A segment that a buffer owns. `dirty` says that something was appended since the
last sync. -/
structure WalSegment where
  name : String
  dirty : Bool
deriving DecidableEq

namespace WalSegment

def fileName (logGroup date uuid : String) : String :=
  sanitizeLogGroup logGroup ++ "." ++ date ++ "." ++ uuid ++ walSuffix

/-- Create a fresh segment, and make its entry durable where the directory syncs. A
name that is taken is an error. -/
def create (d : Disk) (logGroup date : String) (io : EventIo) :
    Option (WalSegment × List DiskOp) :=
  let name := fileName logGroup date io.uuid
  if io.opened = false ∨ name ∈ Assoc.keys d.files then none
  else some (⟨name, false⟩, .create name :: if io.dirSynced then [.syncDir] else [])

variable (S : SerdeLine WalEntry)

/-- The line of an entry. -/
def line (entry : WalEntry) : Bytes := S.toVec entry ++ [Bytes.newline]

/-- Append one line. A write that fails may have written some of it. -/
def append (seg : WalSegment) (entry : WalEntry) (torn : Option Nat) :
    WalSegment × List DiskOp × Bool :=
  match torn with
  | none => ({ seg with dirty := true }, [.append seg.name (line S entry)], true)
  | some n => (seg, [.append seg.name ((line S entry).take n)], false)

/-- Sync what was appended since the last sync. -/
def sync (seg : WalSegment) (fails : Bool) : WalSegment × List DiskOp × Bool :=
  if seg.dirty = false then (seg, [], true)
  else if fails then (seg, [], false)
  else ({ seg with dirty := false }, [.sync seg.name], true)

/-- Remove the segment. A deletion that fails leaves the file to be replayed. -/
def delete (seg : WalSegment) (io : DeleteIo) : List DiskOp :=
  if io.removed then .remove seg.name :: if io.dirSynced then [.syncDir] else [] else []

end WalSegment

/-- A surviving segment and the entries on its intact lines. -/
structure SegmentEntries where
  name : String
  entries : List WalEntry
deriving DecidableEq

/-- Every segment, in the order of the names. A line that does not decode is skipped. -/
def scanDir (S : SerdeLine WalEntry) (d : Disk) : List SegmentEntries :=
  ((d.files.filter fun e => (Text.stripSuffix walSuffix.toList e.1.toList).isSome).mergeSort
    fun e e' => e.1 ≤ e'.1).map fun e => ⟨e.1, S.intact e.2.data⟩

end S4Logs

import S4Logs.Core.Concrete
import S4Logs.Core.Store

/-!
# A reader that can be run

The crates of the writer that can be run, with a byte index that is read back: compact
JSON of its fields in their order.
-/

namespace S4Logs.Concrete

def entryJson (e : FrameIndexEntry) : Json :=
  .arr [.num e.originalOffset, .num e.originalSize, .num e.compressedOffset, .num e.compressedSize]

def entryOfJson? : Json → Option FrameIndexEntry
  | .arr [.num (.ofNat a), .num (.ofNat b), .num (.ofNat c), .num (.ofNat d)] =>
    some ⟨a, b, c, d⟩
  | _ => none

def etagJson : Option String → Json
  | none => .null
  | some etag => .str etag

def etagOfJson? : Json → Option (Option String)
  | .null => some none
  | .str etag => some (some etag)
  | _ => none

def sizeJson : Option Nat → Json
  | none => .null
  | some size => .num size

def sizeOfJson? : Json → Option (Option Nat)
  | .null => some none
  | .num (.ofNat size) => some (some size)
  | _ => none

def indexJson (idx : FrameIndex) : Json :=
  .arr [.num idx.totalPaddedSize, .arr (idx.entries.map entryJson), etagJson idx.sourceEtag,
    sizeJson idx.sourceCompressedSize]

def indexOfJson? : Json → Option FrameIndex
  | .arr [.num (.ofNat total), .arr entries, etag, size] => do
    some {
      totalPaddedSize := total
      entries := ← entries.mapM entryOfJson?
      sourceEtag := ← etagOfJson? etag
      sourceCompressedSize := ← sizeOfJson? size }
  | _ => none

theorem entriesOfJson?_entries (es : List FrameIndexEntry) :
    (es.map entryJson).mapM entryOfJson? = some es := by
  induction es with
  | nil => rfl
  | cons e es ih =>
    rw [List.map_cons, List.mapM_cons, ih]
    rfl

theorem indexOfJson?_indexJson (idx : FrameIndex) : indexOfJson? (indexJson idx) = some idx := by
  obtain ⟨total, entries, etag, size⟩ := idx
  have hentries := entriesOfJson?_entries entries
  have hetag : etagOfJson? (etagJson etag) = some etag := by cases etag <;> rfl
  have hsize : sizeOfJson? (sizeJson size) = some size := by cases size <;> rfl
  show ((entries.map entryJson).mapM entryOfJson?).bind _ = _
  rw [hentries, Option.bind_some, hetag]
  show (sizeOfJson? (sizeJson size)).bind _ = _
  rw [hsize]
  rfl

def readIndex (bs : Bytes) : Option FrameIndex := (Json.parse bs).bind indexOfJson?

theorem readIndex_compact (idx : FrameIndex) :
    readIndex (Json.compact noExtra (indexJson idx)) = some idx := by
  rw [readIndex, Json.parse_compact, Option.bind_some, indexOfJson?_indexJson]

def reader : ReaderLib where
  records := records
  zstd := zstd
  crc32c := crc32c
  encodeIndex idx := Json.compact noExtra (indexJson idx)
  decodeIndex := readIndex
  decodeIndex_encodeIndex {idx idx'} h := by
    rw [readIndex_compact] at h
    exact (Option.some.inj h).symm
  return_notMem r h := by
    have hrange := Json.compact_range noExtra (.obj (recordFields r)) 13 h
    exact absurd hrange (by decide)

end S4Logs.Concrete

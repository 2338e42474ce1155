import S4Logs.Core.Chunk
import S4Logs.Core.Layout

/-!
# What a chunk is stored as

The data object first, then both sidecars, stamped with the etag of the data
object and the length of its body.
-/

namespace S4Logs

/-- Receipt for a stored chunk. -/
structure PutReceipt where
  dataKey : String
  indexKey : String
  tsIndexKey : String
  etag : Option String
  crc32c : Nat
  bodyLen : Nat
  storageClass : Option String
deriving DecidableEq

/-- Both sidecars, with the stamp of the stored data object. -/
def encodeSidecars (lib : CodecLib) (chunk : EncodedChunk) (etag : Option String) :
    Bytes × Bytes :=
  let idx := { chunk.frameIndex with
    sourceEtag := etag
    sourceCompressedSize := some chunk.body.length }
  (lib.encodeIndex idx, encodeTsIndex chunk.tsIndex)

/-- The object store's own settings. -/
structure StoreConfig where
  keyPrefix : String
  storageClass : Option String

/-- The receipt of a chunk whose data object got `etag`. -/
def receiptFor (cfg : StoreConfig) (loc : ChunkLocation) (chunk : EncodedChunk)
    (etag : Option String) : PutReceipt where
  dataKey := loc.dataKey cfg.keyPrefix
  indexKey := loc.indexKey cfg.keyPrefix
  tsIndexKey := loc.tsIndexKey cfg.keyPrefix
  etag := etag
  crc32c := chunk.crc32c
  bodyLen := chunk.body.length
  storageClass := cfg.storageClass

/-- How far `put_chunk` has come: the object whose PUT is next. The sidecars
need the etag of the data object. -/
inductive PutStage where
  | data
  | index (etag : Option String)
  | tsIndex (etag : Option String)
deriving DecidableEq

/-- The key and the body of the next PUT. -/
def putRequest (lib : CodecLib) (cfg : StoreConfig) (loc : ChunkLocation) (chunk : EncodedChunk) :
    PutStage → String × Bytes
  | .data => (loc.dataKey cfg.keyPrefix, chunk.body)
  | .index etag => (loc.indexKey cfg.keyPrefix, (encodeSidecars lib chunk etag).1)
  | .tsIndex etag => (loc.tsIndexKey cfg.keyPrefix, (encodeSidecars lib chunk etag).2)

/-- What a successful PUT leads to: the next stage, or the receipt. -/
def putNext (cfg : StoreConfig) (loc : ChunkLocation) (chunk : EncodedChunk)
    (answer : Option String) : PutStage → PutStage ⊕ PutReceipt
  | .data => .inl (.index answer)
  | .index etag => .inl (.tsIndex etag)
  | .tsIndex etag => .inr (receiptFor cfg loc chunk etag)

end S4Logs

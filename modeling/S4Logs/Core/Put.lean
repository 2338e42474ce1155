import S4Logs.Core.Sink
import S4Logs.Core.Store

/-!
# Storing a chunk

Three PUTs, the data object first. A call that is interrupted leaves what it has put so
far beside what lay there before.
-/

namespace S4Logs

/-- One call of `put_chunk`: the chunk, the etag that its data object gets, and how many of
the PUTs are done when it ends. -/
structure PutCall where
  chunk : EncodedChunk
  etag : Option String
  puts : Nat

namespace ObjectStore

def putBytes (store : ObjectStore) (key : String) (body : Bytes) : ObjectStore :=
  { store with objects := Assoc.insert key body store.objects }

/-- `put_chunk` from a stage on, cut off after some PUTs. -/
def putStages (lib : CodecLib) (loc : ChunkLocation) (call : PutCall) :
    Nat → PutStage → ObjectStore → ObjectStore
  | 0, _, store => store
  | n + 1, stage, store =>
    let cfg : StoreConfig := { keyPrefix := store.keyPrefix, storageClass := none }
    let req := putRequest lib cfg loc call.chunk stage
    match putNext cfg loc call.chunk call.etag stage with
    | .inl next => putStages lib loc call n next (store.putBytes req.1 req.2)
    | .inr _ => store.putBytes req.1 req.2

def putChunk (lib : CodecLib) (loc : ChunkLocation) (store : ObjectStore) (call : PutCall) :
    ObjectStore :=
  putStages lib loc call call.puts .data store

end ObjectStore

end S4Logs

import S4Logs.Core.Layout
import S4Logs.Core.Read
import S4Logs.Lib.Assoc
import S4Logs.Lib.Sorting

/-!
# What a reader asks of the object store

A request finds what the bucket holds, or fails: S3 may refuse any of them. The sidecars
of an object are fetched and decoded together; nothing compares them with the data object
or with each other.
-/

namespace S4Logs

inductive StoreError where
  | aws (op key : String)
  | notFound (key : String)
  | index
  | tsIndex (e : TsIndexError)
deriving DecidableEq

/-- The crates that objects are read with. A byte index that decodes is the one that was
encoded, and compact JSON escapes a carriage return. -/
structure ReaderLib extends CodecLib where
  decodeIndex : Bytes → Option FrameIndex
  decodeIndex_encodeIndex : ∀ {idx idx'}, decodeIndex (encodeIndex idx) = some idx' → idx' = idx
  return_notMem : ∀ rec, 13 ∉ records.toVec rec

/-- The objects of a bucket, the key prefix, and the keys (or prefixes of a listing) that
S3 answers requests for. -/
structure ObjectStore where
  keyPrefix : String
  objects : List (String × Bytes)
  answers : String → Bool

namespace ObjectStore

variable (store : ObjectStore)

def getBytes (key : String) : Except StoreError Bytes :=
  if store.answers key = false then .error (.aws "GetObject" key)
  else
    match Assoc.get? key store.objects with
    | none => .error (.notFound key)
    | some body => .ok body

/-- Fetch a range of a body. S3 cuts a range that goes beyond the body, and refuses one that
begins there. -/
def getRange (key : String) (start stopExclusive : Nat) : Except StoreError Bytes :=
  if stopExclusive ≤ start then .ok []
  else if store.answers key = false then .error (.aws "GetObject(range)" key)
  else
    match Assoc.get? key store.objects with
    | none => .error (.notFound key)
    | some body =>
      if body.length ≤ start then .error (.aws "GetObject(range)" key)
      else .ok ((body.drop start).take (stopExclusive - start))

/-- The keys that start with a text, in their order. -/
def listKeys (pre : String) : Except StoreError (List String) :=
  if store.answers pre = false then .error (.aws "ListObjectsV2" pre)
  else .ok (Sorting.sortBy id ((Assoc.keys store.objects).filter fun key =>
    pre.toList.isPrefixOf key.toList))

/-- Fetch and decode both sidecars. -/
def loadIndexes (lib : ReaderLib) (loc : ChunkLocation) :
    Except StoreError (FrameIndex × TsIndex) := do
  let octets ← store.getBytes (loc.indexKey store.keyPrefix)
  let idx ← match lib.decodeIndex octets with
    | none => .error .index
    | some idx => .ok idx
  let octets ← store.getBytes (loc.tsIndexKey store.keyPrefix)
  let ts ← (decodeTsIndex octets).mapError .tsIndex
  .ok (idx, ts)

/-- The data objects of one log group. A key that does not parse is skipped. -/
def listChunks (account logGroup : String) : Except StoreError (List ChunkLocation) :=
  (store.listKeys (dataGroupPrefix store.keyPrefix account logGroup)).map fun keys =>
    keys.filterMap (ChunkLocation.parseDataKey store.keyPrefix)

end ObjectStore

end S4Logs

import S4Logs.Core.Concrete
import S4Logs.Drain.Run

/-!
# Manifests that can be run

Manifests as compact JSON in the field order of the format, and jobs of one
account and group.
-/

namespace S4Logs.Concrete

def objectFields (o : ManifestObject) : List (String × Json) :=
  [("data_key", .str o.dataKey), ("etag", o.etag.elim .null .str), ("crc32c", .num o.crc32c),
    ("body_len", .num o.bodyLen)] ++
    Json.skipNone "raw_bytes" (o.rawBytes.map fun n => .num n) ++
    Json.skipNone "storage_class" (o.storageClass.map .str) ++
    [("record_count", .num o.recordCount), ("min_ts", .num o.minTs), ("max_ts", .num o.maxTs)]

def objectOfFields (fs : List (String × Json)) : Option ManifestObject := do
  some {
    dataKey := ← Json.required "data_key" Json.asStr? fs
    etag := ← Json.optional "etag" Json.asStr? fs
    crc32c := ← Json.required "crc32c" Json.asNat? fs
    bodyLen := ← Json.required "body_len" Json.asNat? fs
    rawBytes := ← Json.optional "raw_bytes" Json.asNat? fs
    storageClass := ← Json.optional "storage_class" Json.asStr? fs
    recordCount := ← Json.required "record_count" Json.asNat? fs
    minTs := ← Json.required "min_ts" Json.asInt? fs
    maxTs := ← Json.required "max_ts" Json.asInt? fs }

theorem objectOfFields_objectFields (o : ManifestObject) :
    objectOfFields (objectFields o) = some o := by
  obtain ⟨dataKey, etag, crc, bodyLen, rawBytes, storageClass, recordCount, minTs, maxTs⟩ := o
  cases etag <;> cases rawBytes <;> cases storageClass <;>
    simp [objectOfFields, objectFields, Json.required, Json.optional, Json.skipNone, Json.get?,
      Json.asInt?, Json.asNat?, Json.asStr?]

def objectsOfJson : List Json → Option (List ManifestObject)
  | [] => some []
  | x :: xs => do
    let o ← x.asObj?.bind objectOfFields
    let os ← objectsOfJson xs
    some (o :: os)

theorem objectsOfJson_map (os : List ManifestObject) :
    objectsOfJson (os.map fun o => .obj (objectFields o)) = some os := by
  induction os with
  | nil => rfl
  | cons o os ih =>
    simp only [List.map_cons, objectsOfJson, Json.asObj?, Option.bind_some,
      objectOfFields_objectFields, ih, Option.bind_eq_bind]

def manifestFields (m : Manifest) : List (String × Json) :=
  [("version", .num m.version), ("account", .str m.account), ("log_group", .str m.logGroup),
    ("window_start_ms", .num m.windowStartMs), ("window_end_ms", .num m.windowEndMs),
    ("objects", .arr (m.objects.map fun o => .obj (objectFields o))),
    ("record_count", .num m.recordCount), ("completed_at_ms", .num m.completedAtMs),
    ("drain_version", .str m.drainVersion)] ++
    Json.skipNone "reconciled_at_ms" (m.reconciledAtMs.map .num) ++
    Json.skipNone "reconciled_added" (m.reconciledAdded.map fun n => .num n)

def manifestOfFields (fs : List (String × Json)) : Option Manifest := do
  some {
    version := ← Json.required "version" Json.asNat? fs
    account := ← Json.required "account" Json.asStr? fs
    logGroup := ← Json.required "log_group" Json.asStr? fs
    windowStartMs := ← Json.required "window_start_ms" Json.asInt? fs
    windowEndMs := ← Json.required "window_end_ms" Json.asInt? fs
    objects := ← Json.required "objects" (fun x => x.asArr?.bind objectsOfJson) fs
    recordCount := ← Json.required "record_count" Json.asNat? fs
    completedAtMs := ← Json.required "completed_at_ms" Json.asInt? fs
    drainVersion := ← Json.required "drain_version" Json.asStr? fs
    reconciledAtMs := ← Json.optional "reconciled_at_ms" Json.asInt? fs
    reconciledAdded := ← Json.optional "reconciled_added" Json.asNat? fs }

theorem manifestOfFields_manifestFields (m : Manifest) :
    manifestOfFields (manifestFields m) = some m := by
  obtain ⟨version, account, logGroup, startMs, endMs, objects, recordCount, completedAt, written,
    reconciledAt, reconciledAdded⟩ := m
  cases reconciledAt <;> cases reconciledAdded <;>
    simp [manifestOfFields, manifestFields, Json.required, Json.optional, Json.skipNone,
      Json.get?, Json.asInt?, Json.asNat?, Json.asStr?, Json.asArr?, objectsOfJson_map]

def manifests : Serde Manifest where
  toVec m := Json.compact noExtra (.obj (manifestFields m))
  fromSlice bs := (Json.parse bs).bind Json.asObj? |>.bind manifestOfFields
  fromSlice_toVec m := by
    rw [Json.parse_compact, Option.bind_some, Json.asObj?, Option.bind_some,
      manifestOfFields_manifestFields]

/-- What the jobs are built with. -/
def jobEnv : Env where
  lib := lib
  serde := manifests
  store := { keyPrefix := "s4logs", storageClass := none }

/-- A job over one day. -/
def jobOptions (shardStreams : Nat) : DrainOptions where
  account := "123456789012"
  logGroup := "/g"
  fromMs := some 0
  toMs := some dayMs
  nowCutoffMs := 0
  windowMs := dayMs
  chunkTargetBytes := 1000
  chunk := { frameTargetBytes := 100, zstdLevel := 3 }
  concurrency := 4
  dryRun := false
  shardStreams := shardStreams

/-- What CloudWatch answers before the windows start. -/
def preamble (streams : List String) : Preamble where
  creationTimeMs := some 0
  nowMs := 2 * dayMs
  streams := some streams

/-- CloudWatch with these events and stores with these manifests. -/
def system (events : List CwEvent) (stored : List (String × Bytes)) : Sys where
  events := events
  archive := { objects := fun _ => none, manifests := fun key => stored.lookup key }
  run := none
  last := none

end S4Logs.Concrete

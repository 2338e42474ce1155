import S4Logs.Core.Chunk
import S4Logs.Lib.Json

/-!
# Crates that can be run

One instance of every crate the objects rest on, to evaluate the model with.
Records are compact JSON in the field order of the format. A frame is stored,
not compressed: an octet of the input is marked by a one and the end by a zero,
which is all the laws ask for. The checksum is CRC-32C; the byte index, which
nothing here reads, is only its number of entries.
-/

namespace S4Logs.Concrete

/-- Only what must be escaped is. -/
def noExtra : UInt8 → Bool := fun _ => false

def recordFields (r : LogRecord) : List (String × Json) :=
  [("timestamp", .num r.timestamp), ("stream", .str r.stream), ("message", .str r.message)] ++
    Json.skipNone "ingestion_time" (r.ingestionTime.map .num) ++
    Json.skipNone "event_id" (r.eventId.map .str)

def recordOfFields (fs : List (String × Json)) : Option LogRecord := do
  some {
    timestamp := ← Json.required "timestamp" Json.asInt? fs
    stream := ← Json.required "stream" Json.asStr? fs
    message := ← Json.required "message" Json.asStr? fs
    ingestionTime := ← Json.optional "ingestion_time" Json.asInt? fs
    eventId := ← Json.optional "event_id" Json.asStr? fs }

theorem recordOfFields_recordFields (r : LogRecord) : recordOfFields (recordFields r) = some r := by
  obtain ⟨timestamp, stream, message, ingestionTime, eventId⟩ := r
  cases ingestionTime <;> cases eventId <;>
    simp [recordOfFields, recordFields, Json.required, Json.optional, Json.skipNone, Json.get?,
      Json.asInt?, Json.asStr?]

def records : SerdeLine LogRecord where
  toVec r := Json.compact noExtra (.obj (recordFields r))
  fromSlice bs := (Json.parse bs).bind Json.asObj? |>.bind recordOfFields
  fromSlice_toVec r := by
    rw [Json.parse_compact, Option.bind_some, Json.asObj?, Option.bind_some,
      recordOfFields_recordFields]
  newline_notMem r := Json.newline_notMem_compact noExtra _
  toVec_ne_nil r := Json.compact_ne_nil noExtra _

/-! ## Stored frames -/

/-- A stored frame. -/
def storedFrame (input : Bytes) : Bytes := input.flatMap (fun b => [1, b]) ++ [0]

/-- Read stored frames, and whether the last one is complete. -/
def readStored : Bytes → Bytes × Bool
  | [] => ([], false)
  | m :: rest =>
    if m = 0 then if rest.isEmpty then ([], true) else readStored rest
    else
      match rest with
      | [] => ([], false)
      | b :: rest => (b :: (readStored rest).1, (readStored rest).2)
termination_by structural bs => bs

theorem readStored_end (rest : Bytes) :
    readStored (0 :: rest) = if rest.isEmpty then ([], true) else readStored rest := by
  rw [readStored.eq_def]
  simp only [if_true]

theorem readStored_octet (b : UInt8) (rest : Bytes) :
    readStored (1 :: b :: rest) = (b :: (readStored rest).1, (readStored rest).2) := by
  rw [readStored.eq_def]
  simp +decide only [if_false]

theorem readStored_append (input rest : Bytes) :
    readStored (storedFrame input ++ rest) =
      (input ++ (readStored (0 :: rest)).1, (readStored (0 :: rest)).2) := by
  unfold storedFrame
  induction input with
  | nil => rfl
  | cons b input ih =>
    simp only [List.flatMap_cons, List.cons_append, List.nil_append, readStored_octet]
    rw [ih]

def zstd : Zstd where
  compressFrame input _ := some (storedFrame input)
  decode := readStored
  frame_ne_nil h := by
    cases h
    exact fun hnil => List.cons_ne_nil _ _ (List.append_eq_nil_iff.mp hnil).2
  decode_frame {input} _ _ h := by
    cases h
    have hread := readStored_append input []
    rw [List.append_nil, readStored_end] at hread
    simpa only [List.isEmpty_nil, if_true, List.append_nil] using hread
  decode_append {input} _ _ rest h hne := by
    cases h
    rw [readStored_append, readStored_end, if_neg (by simpa only [List.isEmpty_iff] using hne)]

theorem zstd_total : zstd.Total := fun input _ => ⟨storedFrame input, rfl⟩

/-! ## The checksum -/

/-- One bit of the reflected CRC-32C. -/
def crcBit (c : Nat) : Nat := Nat.xor (c / 2) (c % 2 * 2197175160)

/-- One octet of CRC-32C. -/
def crcByte (c : Nat) (b : UInt8) : Nat :=
  crcBit (crcBit (crcBit (crcBit (crcBit (crcBit (crcBit (crcBit (Nat.xor c b.toNat))))))))

def crc32c (bs : Bytes) : Nat := Nat.xor (bs.foldl crcByte 4294967295) 4294967295

def lib : CodecLib where
  records := records
  zstd := zstd
  crc32c := crc32c
  encodeIndex idx := Bytes.littleEndian 8 idx.entries.length

/-- The check value of CRC-32C. -/
example : crc32c (Bytes.ofString "123456789") = 3808858755 := by
  decide +kernel

end S4Logs.Concrete

import S4Logs.Core.Read
import S4Logs.Drain.Job

/-!
# Event identities and attempts

Reconcile tells archived events from missing ones by a hash of 128 bits: of the
event id where there is one, else of the content. What it appends goes under the
next free attempt number of the window, read off the object names the manifest
lists.
-/

namespace S4Logs

/-! ## Identities -/

/-- Two lanes in the style of FNV-1a. -/
structure Hash128 where
  a : UInt64
  b : UInt64
deriving DecidableEq

namespace Hash128

def fnvOffset : UInt64 := 0xcbf29ce484222325
def fnvPrime : UInt64 := 0x00000100000001b3
def lane2Offset : UInt64 := fnvOffset ^^^ 0x9e3779b97f4a7c15
def lane2Prime : UInt64 := 0xc2b2ae3d27d4eb4f

def new : Hash128 := { a := fnvOffset, b := lane2Offset }

def write (h : Hash128) (bytes : Bytes) : Hash128 :=
  bytes.foldl (fun h x => {
    a := (h.a ^^^ x.toUInt64) * fnvPrime
    b := (h.b ^^^ x.toUInt64) * lane2Prime }) h

/-- The first lane above the second. -/
def finish (h : Hash128) : Nat := h.a.toNat * 2 ^ 64 + h.b.toNat

end Hash128

/-- Identity of an event that has an event id. -/
def idIdentity (eventId : String) : Nat :=
  ((Hash128.new.write [1]).write (Bytes.ofString eventId)).finish

/-- Identity of an event without one. The length of the stream goes before it, in
the 32 bits the format has for it. -/
def fallbackIdentity (timestamp : Int) (stream message : String) : Nat :=
  (((((Hash128.new.write [0]).write (putI64Le timestamp)).write
    (Bytes.littleEndian 4 (Bytes.ofString stream).length)).write (Bytes.ofString stream)).write
    (Bytes.ofString message)).finish

def recordIdentity (eventId : Option String) (timestamp : Int) (stream message : String) : Nat :=
  match eventId with
  | some id => idIdentity id
  | none => fallbackIdentity timestamp stream message

def LogRecord.identity (r : LogRecord) : Nat :=
  recordIdentity r.eventId r.timestamp r.stream r.message

def CwEvent.identity (ev : CwEvent) : Nat :=
  recordIdentity ev.eventId ev.timestamp ev.logStreamName ev.message

/-- The event counts as archived: by its own identity, or by its content where it
has an event id. -/
def CwEvent.seenIn (ev : CwEvent) (seen : List Nat) : Bool :=
  seen.contains ev.identity ||
    (ev.eventId.isSome &&
      seen.contains (fallbackIdentity ev.timestamp ev.logStreamName ev.message))

/-! ## Attempts -/

/-- The attempt number in an object name: `none` where the source's cut of the
first two octets panics, and `some none` where the name is no reconcile name. -/
def attemptOf (dataKey : String) : Option (Option Nat) :=
  match Text.stripSuffix dataSuffix.toList (Text.lastSegment '/' dataKey.toList) with
  | none => some none
  | some name =>
    match Text.rsplitOnce '-' name with
    | none => some none
    | some (_, suffix) =>
      match Text.stripPrefix ['r'] suffix with
      | none => some none
      | some digits =>
        if Text.byteLen digits ≠ 6 then some none
        else (Text.takeBytes 2 digits).map (Text.parseUnsigned (2 ^ 32))

/-- The highest attempt among the objects, from `highest` on. -/
def highestAttempt (highest : Nat) : List ManifestObject → Option Nat
  | [] => some highest
  | o :: objects =>
    match attemptOf o.dataKey with
    | none => none
    | some none => highestAttempt highest objects
    | some (some a) => highestAttempt (max highest a) objects

/-- The next free attempt of a window. -/
def nextAttempt (m : Manifest) : Option Nat := (highestAttempt 0 m.objects).map (· + 1)

/-! ## Reading archived objects -/

inductive ReconcileError where
  | drain (e : DrainError)
  | read (key : String)
  | missingObject (key : String)
  | corrupt (key : String)
  | tooManyAttempts (windowStartMs : Int) (max : Nat)
  | panic
deriving DecidableEq

/-- Decompress one archived object: against its recorded size, or under the
ceiling alone where the manifest is too old to record one. -/
def decodeObject (Z : Zstd) (obj : ManifestObject) (body : Bytes) :
    Except ReconcileError Bytes :=
  match obj.rawBytes with
  | some raw =>
    match decompressFrames Z body raw with
    | .ok text => .ok text
    | .error _ => .error (.corrupt obj.dataKey)
  | none =>
    let out := (Z.decode body).1.take (maxDecompressedBytes + 1)
    if (Z.decode body).2 = false ∧ (Z.decode body).1.length < maxDecompressedBytes + 1 then
      .error (.corrupt obj.dataKey)
    else if maxDecompressedBytes < out.length then .error (.corrupt obj.dataKey)
    else .ok out

/-- The identities on the lines of an object, or nothing where a line does not decode. -/
def lineIdentities : List (Option LogRecord) → Option (List Nat)
  | [] => some []
  | none :: _ => none
  | some r :: rs => (lineIdentities rs).map (r.identity :: ·)

/-- The identities of one archived object. -/
def objectIdentities (lib : CodecLib) (obj : ManifestObject) (body : Bytes) :
    Except ReconcileError (List Nat) :=
  match decodeObject lib.zstd obj body with
  | .error e => .error e
  | .ok raw =>
    match lineIdentities (recordLines lib.records raw) with
    | none => .error (.corrupt obj.dataKey)
    | some ids => .ok ids

end S4Logs

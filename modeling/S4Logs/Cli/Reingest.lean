import S4Logs.Cli.Restore
import S4Logs.Cli.Scan
import S4Logs.Lib.Json
import S4Logs.Lib.Retry

/-!
# A restore into a log group

Records go from the scan, wrapped unless they are to be sent as they were, through the batcher
to CloudWatch. The group and the stream are made before the first batch. A batch that is
throttled is sent again after a wait, a few times at most, and any other failure ends the
restore. What CloudWatch rejects of a batch is counted and not sent again.

Nothing reads the records of the calls that were made, of the sleeps, and of the batches that
CloudWatch took.
-/

namespace S4Logs

def putMaxAttempts : Nat := 5
def putBackoffBaseMs : Nat := 500
def putBackoffCapMs : Nat := 8000
def cwIngestMaxAgeMs : Int := 14 * 86400000

/-! ## Wrapped messages -/

/-- `serde_json` at objects whose fields go in the order of their names: their text, and what
reads it. -/
structure JsonText where
  write : List (String × Json) → String
  read : String → Option (List (String × Json))
  read_write : ∀ fs, (fs.map Prod.fst).Pairwise (· < ·) → read (write fs) = some fs

/-- The fields of a wrapped message, in the order of their names. -/
def wrapFields (rec : LogRecord) (originalLogGroup : Option String) : List (String × Json) :=
  ("message", .str rec.message) ::
    ((originalLogGroup.toList.map fun group => ("original_log_group", .str group)) ++
      [("original_stream", .str rec.stream), ("original_timestamp", .num rec.timestamp)])

def wrapMessage (J : JsonText) (rec : LogRecord) (originalLogGroup : Option String) : String :=
  J.write (wrapFields rec originalLogGroup)

/-! ## Rejections -/

structure Rejections where
  tooOld : Nat
  tooNew : Nat
  expired : Nat
deriving DecidableEq

namespace Rejections

/-- The first event that is too new, and the ends of those that are too old and expired. -/
def fromIndexes (tooNewStart tooOldEnd expiredEnd : Option Int) (batchLen : Nat) : Rejections :=
  let clamp (v : Int) : Nat := min (max v 0).toNat batchLen
  { tooOld := tooOldEnd.elim 0 clamp
    tooNew := tooNewStart.elim 0 fun s => batchLen - clamp s
    expired := expiredEnd.elim 0 clamp }

def add (r o : Rejections) : Rejections where
  tooOld := r.tooOld + o.tooOld
  tooNew := r.tooNew + o.tooNew
  expired := r.expired + o.expired

end Rejections

/-! ## The sender -/

/-- An answer to the creation of a group or a stream. -/
inductive CreateReply where
  | created
  | alreadyExists
  | failed

/-- An answer to `PutLogEvents`: the indexes of what was rejected, or the code of an error. -/
inductive PutReply where
  | ok (tooNewStart tooOldEnd expiredEnd : Option Int)
  | err (code : Option String)

/-- What CloudWatch answers, to a batch by its number and the number of the attempt. -/
structure CwTarget where
  createGroup : CreateReply
  createStream : CreateReply
  put : Nat → Nat → PutReply

inductive RestoreError where
  | createLogGroup
  | createLogStream
  | put (batch attempt : Nat)
  | scan (e : ScanError)

inductive RestoreCall where
  | createLogGroup
  | createLogStream
  | putLogEvents (events : List BatchEvent)
deriving DecidableEq

def putThrottleCodes : List String :=
  ["ThrottlingException", "Throttling", "TooManyRequestsException", "RequestLimitExceeded"]

def PutReply.throttled : PutReply → Bool
  | .ok _ _ _ => false
  | .err code => code.any putThrottleCodes.contains

/-- The wait after an attempt that was throttled. -/
def putDelayMs (attempt : Nat) : Nat := min (putBackoffBaseMs * 2 ^ (attempt - 1)) putBackoffCapMs

/-- What an attempt comes to. -/
def putAttempt (cw : CwTarget) (number batchLen attempt : Nat) :
    Retry.Answer (Except RestoreError Rejections) Unit :=
  match cw.put number attempt with
  | .ok tooNewStart tooOldEnd expiredEnd =>
    .settled (.ok (.fromIndexes tooNewStart tooOldEnd expiredEnd batchLen))
  | .err code =>
    if (PutReply.err code).throttled then .again () else .settled (.error (.put number attempt))

def putBatchWithBackoff (cw : CwTarget) (number batchLen : Nat) :
    Retry.Outcome (Except RestoreError Rejections) :=
  Retry.tryFrom (putAttempt cw number batchLen) putDelayMs
    (fun attempt _ => .error (.put number attempt)) (putMaxAttempts - 1) 1

structure BatchSender where
  ensured : Bool
  sent : Nat
  batches : Nat
  rejected : Rejections
  calls : List RestoreCall
  slept : List Nat
  taken : List (List BatchEvent)

namespace BatchSender

def new : BatchSender where
  ensured := false
  sent := 0
  batches := 0
  rejected := ⟨0, 0, 0⟩
  calls := []
  slept := []
  taken := []

/-- Make the group and the stream, once. -/
def ensureGroupAndStream (cw : CwTarget) (s : BatchSender) : BatchSender × Except RestoreError Unit :=
  if s.ensured then (s, .ok ())
  else
    match cw.createGroup with
    | .failed =>
      ({ s with calls := s.calls ++ [.createLogGroup] }, .error .createLogGroup)
    | _ =>
      let s := { s with calls := s.calls ++ [.createLogGroup, .createLogStream] }
      match cw.createStream with
      | .failed => (s, .error .createLogStream)
      | _ => ({ s with ensured := true }, .ok ())

def send (cw : CwTarget) (s : BatchSender) (batch : List BatchEvent) :
    BatchSender × Except RestoreError Unit :=
  match s.ensureGroupAndStream cw with
  | (s, .error e) => (s, .error e)
  | (s, .ok ()) =>
    let out := putBatchWithBackoff cw (s.batches + 1) batch.length
    let s := { s with
      batches := s.batches + 1
      calls := s.calls ++ List.replicate out.calls (.putLogEvents batch)
      slept := s.slept ++ out.slept }
    match out.result with
    | .error e => (s, .error e)
    | .ok r => ({ s with
        sent := s.sent + batch.length
        rejected := s.rejected.add r
        taken := s.taken ++ [batch] }, .ok ())

end BatchSender

/-! ## The loop -/

structure Reingest where
  batcher : EventBatcher
  sender : BatchSender
  oversized : Nat
  rawTooOld : Nat
  total : Nat

namespace Reingest

def new : Reingest where
  batcher := .new
  sender := .new
  oversized := 0
  rawTooOld := 0
  total := 0

variable (J : JsonText) (cw : CwTarget) (raw tagGroup : Bool) (now : Int)

/-- The event for a record: as it was, or wrapped and of now. -/
def eventOf (x : LogRecord × String) : BatchEvent :=
  if raw then ⟨x.1.timestamp, x.1.message⟩
  else ⟨now, wrapMessage J x.1 (if tagGroup then some x.2 else none)⟩

/-- A batch goes to the sender. -/
def sendBatch (st : Reingest) (batch : List BatchEvent) : Reingest × Except RestoreError Unit :=
  let (sender, res) := st.sender.send cw batch
  ({ st with sender := sender }, res)

/-- One record of the scan. -/
def take (st : Reingest) (x : LogRecord × String) : Reingest × Except RestoreError Unit :=
  let ev := eventOf J raw tagGroup now x
  if maxBatchBytes < eventCost ev.message then
    ({ st with oversized := st.oversized + 1 }, .ok ())
  else
    let old := raw && decide (ev.timestamp < now - cwIngestMaxAgeMs)
    let (batch, batcher) := st.batcher.push ev
    let st := { st with
      batcher := batcher
      rawTooOld := st.rawTooOld + if old then 1 else 0
      total := st.total + 1 }
    match batch with
    | none => (st, .ok ())
    | some batch => st.sendBatch cw batch

def takeAll : List (LogRecord × String) → Reingest → Reingest × Except RestoreError Unit
  | [], st => (st, .ok ())
  | x :: xs, st =>
    match st.take J cw raw tagGroup now x with
    | (st, .error e) => (st, .error e)
    | (st, .ok ()) => takeAll xs st

/-- The last batch. -/
def finish (st : Reingest) : Reingest × Except RestoreError Unit :=
  match st.batcher.finish with
  | none => (st, .ok ())
  | some batch => st.sendBatch cw batch

/-- What a restore does with the records of a scan, and with its end. -/
def run (out : List (LogRecord × String)) (ended : Except ScanError Unit) :
    Reingest × Except RestoreError Unit :=
  match takeAll J cw raw tagGroup now out new with
  | (st, .error e) => (st, .error e)
  | (st, .ok ()) =>
    match ended with
    | .error e => (st, .error (.scan e))
    | .ok () => st.finish cw

end Reingest

section Restore

variable (lib : ReaderLib) (store : ObjectStore) (n : Nat) (account : String)
variable (sourceGroups : List String) (range : TimeRange)

/-- Restore what a scan emits in `n` pulls, if they are enough for it to end. With several
groups a message says which one it is of. -/
def restoreToLogGroup (J : JsonText) (cw : CwTarget) (raw : Bool) (now : Int) :
    Option (Reingest × Except RestoreError Unit) :=
  let (out, ended) := scanLogGroups lib store n account sourceGroups range none
  ended.map (Reingest.run J cw raw (decide (1 < sourceGroups.length)) now out)

/-- Restore to a file: each record as a line. -/
def writeJsonl : Option (Bytes × Except ScanError Unit) :=
  let (out, ended) := scanLogGroups lib store n account sourceGroups range none
  ended.map (lib.records.text (out.map Prod.fst), ·)

end Restore

end S4Logs

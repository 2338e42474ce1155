import S4Logs.Core.Deps

/-!
# The record of a data object

One CloudWatch event as one JSONL line.
-/

namespace S4Logs

/-- One CloudWatch Logs event as stored in a data object. -/
structure LogRecord where
  timestamp : Int
  stream : String
  message : String
  ingestionTime : Option Int
  eventId : Option String
deriving DecidableEq

/-- Append the record as one line. The writer is memory, so it never fails. -/
def LogRecord.appendJsonl (S : SerdeLine LogRecord) (rec : LogRecord) (out : Bytes) : Bytes :=
  out ++ S.toVec rec ++ [Bytes.newline]

/-- Appending a record to a text of records frames it with them. -/
theorem LogRecord.appendJsonl_text (S : SerdeLine LogRecord) (rec : LogRecord)
    (rs : List LogRecord) : rec.appendJsonl S (S.text rs) = S.text (rs ++ [rec]) := by
  rw [LogRecord.appendJsonl, List.append_assoc, ← S.text_singleton, ← S.text_append]

end S4Logs

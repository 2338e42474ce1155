import S4Logs.Core.Layout
import S4Logs.Core.Read

/-!
# Data objects inside their partition

A reader lists the data objects of a log group and a day and finds in them the events of
that group and day. That holds where every record of an object was received for the log
group of its location and has the date of its location.
-/

namespace S4Logs

/-- The data object is inside its partition: every record was received for its log group
and is of its date. -/
structure InPartition (lib : CodecLib) (account : String) (received : String → LogRecord → Prop)
    (o : ChunkLocation × EncodedChunk) : Prop where
  account : o.1.account = account
  received : ∀ r ∈ objectRecords lib o.2.body, received o.1.logGroup r
  date : ∀ r ∈ objectRecords lib o.2.body, dateFromTsMs r.timestamp = o.1.date

variable {lib : CodecLib} {account : String} {received received' : String → LogRecord → Prop}
variable {o : ChunkLocation × EncodedChunk}

theorem InPartition.mono (h : InPartition lib account received o)
    (weaker : ∀ logGroup r, received logGroup r → received' logGroup r) :
    InPartition lib account received' o where
  account := h.account
  received r hr := weaker _ _ (h.received r hr)
  date := h.date

end S4Logs

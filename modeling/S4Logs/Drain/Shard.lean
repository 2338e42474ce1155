import S4Logs.Core.Record
import S4Logs.Drain.Window

/-!
# CloudWatch pages

`FilterLogEvents` answers in pages: some events of the asked range and a token,
or no token where the range is exhausted. One window is paged by one cursor, or
by one cursor for each shard of the group's streams, and the cursors' pages come
in any order.
-/

namespace S4Logs

/-- One CloudWatch log event as `FilterLogEvents` returns it. -/
structure CwEvent where
  timestamp : Int
  message : String
  logStreamName : String
  ingestionTime : Option Int
  eventId : Option String
deriving DecidableEq

/-- The record an event is archived as. -/
def CwEvent.toRecord (ev : CwEvent) : LogRecord where
  timestamp := ev.timestamp
  stream := ev.logStreamName
  message := ev.message
  ingestionTime := ev.ingestionTime
  eventId := ev.eventId

/-- One page of `FilterLogEvents` output. -/
structure CwEventPage where
  events : List CwEvent
  nextToken : Option String
deriving DecidableEq

/-- The event lies in the window. -/
def Window.contains (w : Window) (ev : CwEvent) : Bool :=
  w.startMs ≤ ev.timestamp && ev.timestamp < w.endMs

/-- At most this many stream names per call. -/
def maxStreamsPerFilter : Nat := 100

/-- Deal the streams out, one shard after the other, from shard `i % n` on. -/
def dealStreams (n : Nat) : Nat → List String → List (List String) → List (List String)
  | _, [], shards => shards
  | i, s :: streams, shards => dealStreams n (i + 1) streams (shards.modify (i % n) (· ++ [s]))

/-- Partition the streams round-robin into shards of at most `maxPerShard` names. -/
def partitionStreams (streams : List String) (requestedShards maxPerShard : Nat) :
    List (List String) :=
  if streams = [] then []
  else
    let perShard := max maxPerShard 1
    let minShards := (streams.length + perShard - 1) / perShard
    let n := min (max (max requestedShards 1) minShards) streams.length
    dealStreams n 0 streams (List.replicate n [])

/-- One sequence of pages: the stream filter of its calls and the token of the
next call, where there is one. `returned` is what its pages held so far. -/
structure Cursor where
  streams : Option (List String)
  next : Option (Option String)
  returned : List CwEvent
deriving DecidableEq

/-- The range is exhausted. -/
def Cursor.exhausted (c : Cursor) : Bool := c.next.isNone

/-- The event passes the stream filter. -/
def Cursor.accepts (c : Cursor) (ev : CwEvent) : Bool :=
  match c.streams with
  | none => true
  | some names => names.contains ev.logStreamName

/-- A cursor before its first page. -/
def Cursor.start (streams : Option (List String)) : Cursor where
  streams := streams
  next := some none
  returned := []

/-- The cursor after a page. -/
def Cursor.advance (c : Cursor) (page : CwEventPage) : Cursor :=
  { c with next := page.nextToken.map some, returned := c.returned ++ page.events }

/-- The cursors of one window: one for each of two shards or more, else one. -/
def eventPages : Option (List (List String)) → List Cursor
  | some [] => [.start none]
  | some [single] => [.start (some single)]
  | some shards => shards.map fun names => .start (some names)
  | none => [.start none]

end S4Logs

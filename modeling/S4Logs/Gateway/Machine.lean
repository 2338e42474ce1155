import S4Logs.Gateway.Buffer
import S4Logs.Lib.Run

/-!
# The gateway as a machine

Any number of calls run at once. A step is one section under the lock, or one answer
of the sink, of one call; in between, a call holds what it took out of the map. What
comes from outside is in the label: which call goes on, the iteration order of the
map, how each write and each PUT went, a client that goes away, and a crash together
with what it leaves on the disk.

A section can be cut short by a crash after any of its operations on the disk, so
what a section does is an effect first, which `gatewayStep` then commits.
-/

namespace S4Logs

/-- What a call is. `replay` is the one at startup. -/
inductive Origin where
  | push (logGroup stream : String) (events : List InputLogEvent)
  | sweep
  | flushAll
  | replay
deriving DecidableEq

/-- Where a call goes on after the buffers it took are flushed. -/
inductive After where
  | recheck
  | finish
deriving DecidableEq

/-- `flush_taken` under way: the buffers it still has to flush, and its first error. -/
structure Flush where
  rest : List (BufKey × Buf)
  firstErr : Option BufferError
  after : After
deriving DecidableEq

/-- Where a call is. `put` waits for an answer of the sink, and `failed` is about to
put its buffer back. -/
inductive CallPhase where
  | begin
  | recheck
  | append
  | flush (f : Flush)
  | put (key : BufKey) (buf : Buf) (loc : ChunkLocation) (chunk : EncodedChunk)
      (stage : PutStage) (f : Flush)
  | failed (key : BufKey) (buf : Buf) (chunk : Option EncodedChunk) (err : BufferError) (f : Flush)
  | done (err : Option BufferError)
deriving DecidableEq

structure Call where
  origin : Origin
  phase : CallPhase
deriving DecidableEq

inductive GatewayMode where
  | down
  | replaying
  | serving
deriving DecidableEq

/-- The process, its disk, and what has come of it so far. `objects` are the data
objects whose PUT landed and `chunks` what a `put_chunk` stored. Nothing reads
`appended` (what a writer took), `accepted` (what was appended and synced as a whole
batch, or replayed) or `acked` (what a client was told is accepted). -/
structure Gateway where
  mode : GatewayMode
  buffers : Buffers
  lastFlushOk : Bool
  calls : List (Nat × Call)
  disk : Disk
  objects : List (ChunkLocation × EncodedChunk)
  chunks : List (ChunkLocation × EncodedChunk)
  appended : List LogEvent
  accepted : List LogEvent
  acked : List LogEvent

/-- Before the first start. -/
def Gateway.start : Gateway where
  mode := .down
  buffers := []
  lastFlushOk := true
  calls := []
  disk := Disk.empty
  objects := []
  chunks := []
  appended := []
  accepted := []
  acked := []

/-- One section or one answer of a call. -/
inductive CallAct where
  | reserve (order : List BufKey)
  | recheck
  | append (order : List BufKey) (ios : List EventIo) (syncFails : Option String)
  | take (order : List BufKey) (nowMs : Nat)
  | replay (order : List BufKey) (ios : List EventIo) (syncFails : Option String)
      (undeleted : List String)
  | flushNext (uuid : String) (io : DeleteIo)
  | flushed
  | put (answer : Option (Option String)) (io : DeleteIo)
  | reinsert

/-- What a section does. -/
structure CallEffect where
  phase : CallPhase
  buffers : Buffers
  lastFlushOk : Bool
  ops : List DiskOp
  objects : List (ChunkLocation × EncodedChunk)
  chunks : List (ChunkLocation × EncodedChunk)
  appended : List LogEvent
  accepted : List LogEvent

namespace Gateway

variable (s : Gateway)

/-- Only the phase of the call changes. -/
def goes (phase : CallPhase) : CallEffect where
  phase := phase
  buffers := s.buffers
  lastFlushOk := s.lastFlushOk
  ops := []
  objects := []
  chunks := []
  appended := []
  accepted := []

/-- A section leaves the map and the disk as `l` is. -/
def leaves (l : Locked) (appended accepted : List LogEvent) (phase : CallPhase) : CallEffect where
  phase := phase
  buffers := l.buffers
  lastFlushOk := s.lastFlushOk
  ops := l.ops
  objects := []
  chunks := []
  appended := appended
  accepted := accepted

/-- The lock is taken. -/
def lock : Locked where
  buffers := s.buffers
  disk := s.disk
  ops := []

end Gateway

/-- A call flushes what it took. -/
def CallPhase.flushTaken (taken : List (BufKey × Buf)) (after : After) : CallPhase :=
  .flush ⟨taken, none, after⟩

namespace Gateway

variable (m : BufferManager) (s : Gateway)

/-- `reserve` up to its flush. -/
def reserve (order : List BufKey) (incoming : Nat) : CallEffect :=
  if bufferedTotal s.buffers + incoming ≤ m.cfg.maxBufferedBytes then s.goes .append
  else
    match takeLargest (inOrder order s.buffers) with
    | none => s.goes .recheck
    | some (e, rest) => { s.goes (.flushTaken [e] .recheck) with buffers := rest }

/-- `reserve` after its flush. -/
def stillOver (incoming : Nat) : CallEffect :=
  if m.cfg.maxBufferedBytes < bufferedTotal s.buffers + incoming then
    s.goes (.done (some .overCapacity))
  else s.goes .append

/-- The section of `push_events` that accepts the batch. -/
def acceptBatch (order : List BufKey) (batch : List LogEvent) (ios : List EventIo)
    (syncFails : Option String) : CallEffect :=
  match m.pushAll s.lock (batch.zip ios) with
  | (l, pushed, some e) => s.leaves l pushed [] (.done (some e))
  | (l, pushed, none) =>
    match l.sync order syncFails with
    | (l, false) => s.leaves l pushed [] (.done (some .wal))
    | (l, true) =>
      let (due, rest) := takeMatching
        (fun buf => m.cfg.flushBytes ≤ buf.writer.uncompressedLen) l.buffers
      let (excess, rest) := takeOver m.cfg.maxBufferedBytes rest.length rest
      s.leaves { l with buffers := rest } pushed pushed (.flushTaken (due ++ excess) .finish)

/-- The section of `sweep_expired` and `flush_all`. -/
def takeDue (order : List BufKey) (p : Buf → Bool) : CallEffect :=
  let (due, rest) := takeMatching p (inOrder order s.buffers)
  { s.goes (.flushTaken due .finish) with buffers := rest }

/-- The events on the surviving segments. -/
def survivingEvents (segments : List SegmentEntries) : List LogEvent :=
  segments.flatMap fun seg => seg.entries.map fun e => ⟨e.logGroup, e.toRecord⟩

/-- The section of `replay_wal`: every event is pushed and synced before any old
segment is removed. What was pushed counts as accepted: an earlier process did. -/
def replayWal (order : List BufKey) (ios : List EventIo) (syncFails : Option String)
    (undeleted : List String) : CallEffect :=
  let segments := scanDir m.entries s.disk
  if m.cfg.walDir = none ∨ segments = [] then s.goes (.done none)
  else
    match m.pushAll s.lock ((survivingEvents segments).zip ios) with
    | (l, pushed, some e) => s.leaves l pushed pushed (.done (some e))
    | (l, pushed, none) =>
      match l.sync order syncFails with
      | (l, false) => s.leaves l pushed pushed (.done (some .wal))
      | (l, true) =>
        let old := (segments.map SegmentEntries.name).filter fun name => name ∉ undeleted
        let (due, rest) := takeMatching
          (fun buf => m.cfg.flushBytes ≤ buf.writer.uncompressedLen) l.buffers
        s.leaves ({ l with buffers := rest }.io (old.map DiskOp.remove)) pushed pushed
          (.flushTaken due .finish)

/-- `flush_one` up to its `put_chunk`. -/
def flushOne (f : Flush) (uuid : String) (io : DeleteIo) : Option CallEffect :=
  match f.rest with
  | [] => none
  | (key, buf) :: rest =>
    let f := { f with rest := rest }
    match buf.writer.encode m.lib with
    | .ok (some chunk) =>
      some (s.goes (.put key buf (m.location key buf uuid) chunk .data f))
    | .ok none => some { s.goes (.flush f) with
        lastFlushOk := true
        ops := buf.retire io }
    | .error e => some (s.goes (.failed key buf none (.chunk e) f))

/-- An answer of the sink to `put_chunk`. -/
def putAnswer (key : BufKey) (buf : Buf) (loc : ChunkLocation) (chunk : EncodedChunk)
    (stage : PutStage) (f : Flush) (answer : Option (Option String)) (io : DeleteIo) :
    CallEffect :=
  match answer with
  | none => s.goes (.failed key buf (some chunk) .sink f)
  | some etag =>
    let landed := if stage = .data then [(loc, chunk)] else []
    match putNext m.sink loc chunk etag stage with
    | .inl stage => { s.goes (.put key buf loc chunk stage f) with objects := landed }
    | .inr _ => { s.goes (.flush f) with
        lastFlushOk := true
        ops := buf.retire io
        objects := landed
        chunks := [(loc, chunk)] }

/-- Where a call goes when nothing is left to flush. Only a push hides what a flush
answered, and a sweep has no one to tell. -/
def afterFlush (origin : Origin) (f : Flush) : CallPhase :=
  match f.after with
  | .recheck => .recheck
  | .finish =>
    match origin with
    | .flushAll => .done f.firstErr
    | .replay => .done f.firstErr
    | .push _ _ _ => .done none
    | .sweep => .done none

/-- One step of a call. -/
def callStep (origin : Origin) (phase : CallPhase) : CallAct → Option CallEffect
  | .reserve order =>
    match origin, phase with
    | .push _ stream events, .begin => some (reserve m s order (incomingBytes stream events))
    | _, _ => none
  | .recheck =>
    match origin, phase with
    | .push _ stream events, .recheck => some (stillOver m s (incomingBytes stream events))
    | _, _ => none
  | .append order ios syncFails =>
    match origin, phase with
    | .push logGroup stream events, .append =>
      if ios.length = events.length then
        some (acceptBatch m s order (batchEvents logGroup stream events) ios syncFails)
      else none
    | _, _ => none
  | .take order nowMs =>
    match origin, phase with
    | .sweep, .begin =>
      some (takeDue s order fun buf => m.cfg.flushIntervalMs ≤ nowMs - buf.openedAt)
    | .flushAll, .begin => some (takeDue s order fun _ => true)
    | _, _ => none
  | .replay order ios syncFails undeleted =>
    match origin, phase with
    | .replay, .begin =>
      if ios.length = (survivingEvents (scanDir m.entries s.disk)).length then
        some (replayWal m s order ios syncFails undeleted)
      else none
    | _, _ => none
  | .flushNext uuid io =>
    match phase with
    | .flush f => flushOne m s f uuid io
    | _ => none
  | .flushed =>
    match phase with
    | .flush f => if f.rest = [] then some (s.goes (afterFlush origin f)) else none
    | _ => none
  | .put answer io =>
    match phase with
    | .put key buf loc chunk stage f =>
      some (putAnswer m s key buf loc chunk stage f answer io)
    | _ => none
  | .reinsert =>
    match phase with
    | .failed key buf chunk err f => some { s.goes (.flush { f with
          firstErr := f.firstErr.or (some err) }) with
        buffers := m.reinsert s.buffers key buf chunk
        lastFlushOk := false }
    | _ => none

end Gateway

/-- What happens. A client may go away while its call waits, and the PUT that was
pending may land all the same. A crash may fall into a section of a call, after some of
its operations on the disk; pending PUTs may land, and `after` is what is left. -/
inductive GatewayLabel where
  | boot
  | call (id : Nat) (origin : Origin)
  | act (id : Nat) (a : CallAct)
  | reply (id : Nat)
  | drop (id : Nat) (landed : Bool)
  | crash (during : Option (Nat × CallAct)) (ops : Nat) (landed : List Nat)
      (after : List (String × Bytes))

namespace Gateway

/-- The effect of a call's next section. -/
def effect (m : BufferManager) (s : Gateway) (id : Nat) (a : CallAct) : Option CallEffect :=
  (Assoc.get? id s.calls).bind fun c => s.callStep m c.origin c.phase a

/-- The section is done. -/
def commit (s : Gateway) (id : Nat) (origin : Origin) (e : CallEffect) : Gateway :=
  { s with
      buffers := e.buffers
      lastFlushOk := e.lastFlushOk
      calls := Assoc.insert id ⟨origin, e.phase⟩ s.calls
      disk := s.disk.applyAll e.ops
      objects := s.objects ++ e.objects
      chunks := s.chunks ++ e.chunks
      appended := s.appended ++ e.appended
      accepted := s.accepted ++ e.accepted }

/-- The process is gone, and its memory with it. -/
def exited (s : Gateway) : Gateway :=
  { s with
      mode := .down
      buffers := []
      lastFlushOk := true
      calls := [] }

end Gateway

/-- The data object whose PUT a call waits for. -/
def CallPhase.pending : CallPhase → List (ChunkLocation × EncodedChunk)
  | .put _ _ loc chunk .data _ => [(loc, chunk)]
  | _ => []

/-- A future is dropped only where it waits: before its first poll, at an answer of
the sink, or when it is done. -/
def CallPhase.waits : CallPhase → Bool
  | .begin => true
  | .put _ _ _ _ _ _ => true
  | .done _ => true
  | _ => false

/-- The batch of a push. -/
def Origin.batch : Origin → List LogEvent
  | .push logGroup stream events => batchEvents logGroup stream events
  | _ => []

/-- One step of the gateway. -/
def gatewayStep (m : BufferManager) (s : Gateway) : GatewayLabel → Option Gateway
  | .boot =>
    if s.mode = .down then
      some { s.exited with
        mode := .replaying
        calls := [(0, ⟨.replay, .begin⟩)] }
    else none
  | .call id origin =>
    if s.mode = .serving ∧ id ∉ Assoc.keys s.calls ∧ origin ≠ .replay then
      some { s with calls := s.calls ++ [(id, ⟨origin, .begin⟩)] }
    else none
  | .act id a =>
    match Assoc.get? id s.calls with
    | none => none
    | some c => (s.callStep m c.origin c.phase a).map fun e => s.commit id c.origin e
  | .reply id =>
    match Assoc.remove id s.calls with
    | none => none
    | some (c, calls) =>
      match c.phase, c.origin with
      | .done none, .replay => some { s with
          mode := .serving
          calls := calls }
      | .done (some _), .replay => some s.exited
      | .done none, _ => some { s with
          calls := calls
          acked := s.acked ++ c.origin.batch }
      | .done (some _), _ => some { s with calls := calls }
      | _, _ => none
  | .drop id landed =>
    match Assoc.remove id s.calls with
    | none => none
    | some (c, calls) =>
      match c.origin with
      | .push _ _ _ =>
        if c.phase.waits then
          some { s with
            calls := calls
            objects := s.objects ++ if landed then c.phase.pending else [] }
        else none
      | _ => none
  | .crash during _ landed after =>
    let pending := (s.calls.filter fun e => landed.contains e.1).flatMap fun e => e.2.phase.pending
    let left (e : CallEffect) : Gateway := { s.exited with
      disk := .crashed after
      objects := s.objects ++ e.objects ++ pending
      chunks := s.chunks ++ e.chunks }
    match during with
    | none => some (left (s.goes .begin))
    | some (id, a) => (s.effect m id a).map left

/-- The disk a crash falls on: what it cut short may have done some of its operations. -/
def Gateway.diskAt (m : BufferManager) (s : Gateway) (during : Option (Nat × CallAct))
    (ops : Nat) : Disk :=
  match during.bind fun d => s.effect m d.1 d.2 with
  | none => s.disk
  | some e => s.disk.applyAll (e.ops.take ops)

end S4Logs

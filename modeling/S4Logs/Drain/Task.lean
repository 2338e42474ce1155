import S4Logs.Drain.Reconcile

/-!
# One window, await by await

`process_window` of both jobs as a machine. Between two awaits the code runs on
its own; at each await a label brings the answer. What the answer changes in the
stores is a list of writes, which the caller applies.

    drain:      lookup → pages ⇄ put → manifest → done
    reconcile:  look → read … → pages ⇄ put → manifest → done
                look → lookup …               (no manifest yet)

`returned`, `arrived`, `pushed` and `visible` record what happened and decide
nothing.
-/

namespace S4Logs

/-- What a job is built with. -/
structure Env where
  lib : CodecLib
  serde : Serde Manifest
  store : StoreConfig

/-- What the stores hold, by key. -/
structure Archive where
  objects : String → Option Bytes
  manifests : String → Option Bytes

inductive StoreWrite where
  | object (key : String) (body : Bytes)
  | manifest (key : String) (body : Bytes)
deriving DecidableEq

/-- A write replaces what the key held. -/
def StoreWrite.apply (a : Archive) : StoreWrite → Archive
  | .object key body => { a with objects := fun k => if k = key then some body else a.objects k }
  | .manifest key body =>
    { a with manifests := fun k => if k = key then some body else a.manifests k }

/-- The paging part of one window. `prior` is the manifest reconcile repairs. -/
structure Work where
  prior : Option Manifest
  ww : WindowWriter
  cursors : List Cursor
  inbox : List CwEvent
  seen : List Nat
  dropped : Nat
  cwEvents : Nat
  already : Nat
  appended : Nat
  arrived : List CwEvent
  pushed : List CwEvent
  visible : List CwEvent
deriving DecidableEq

/-- The await a paging window is at. A chunk that is being put says whether it is
the window's last. -/
inductive Await where
  | pages
  | put (chunk : EncodedChunk) (stage : PutStage) (last : Bool)
  | manifest
deriving DecidableEq

inductive Phase where
  | look
  | lookup
  | read (m : Manifest) (rest : List ManifestObject) (seen : List Nat)
  | work (wk : Work) (at_ : Await)
  | done (out : WindowOutcome)
  | failed (e : ReconcileError)
deriving DecidableEq

/-- The answers an await can get. A call that fails answers `false` or nothing. -/
inductive TaskLabel where
  | get (answered : Bool)
  | readObject (answered : Bool)
  | page (cursor : Nat) (answer : Option CwEventPage)
  | event
  | endPages
  | put (answer : Option (Option String))
  | putManifest (answered : Bool) (nowMs : Int)
deriving DecidableEq

variable (env : Env) (opts : DrainOptions) (shards : Option (List (List String))) (w : Window)

/-- Whether a window ends with a manifest PUT. -/
def Work.needsManifest (wk : Work) : Bool :=
  !opts.dryRun && (wk.prior.isNone || 0 < wk.appended)

/-- What the window's task returns. -/
def Work.outcome (wk : Work) : WindowOutcome where
  action := if wk.prior.isNone then .drained else .reconciled
  skipped := false
  records := wk.ww.records
  dropped := wk.dropped
  rawBytes := wk.ww.rawBytes
  compressedBytes := wk.ww.compressedBytes
  objectsWritten := wk.ww.objectsWritten
  cwEvents := if wk.prior.isNone then wk.ww.records else wk.cwEvents
  alreadyArchived := wk.already
  appended := if wk.prior.isNone then wk.ww.records else wk.appended

/-- The outcome of a window that has its proof already. -/
def WindowOutcome.skip : WindowOutcome where
  action := .drained
  skipped := true
  records := 0
  dropped := 0
  rawBytes := 0
  compressedBytes := 0
  objectsWritten := 0
  cwEvents := 0
  alreadyArchived := 0
  appended := 0

/-- After a chunk: back to the pages, or on to the manifest after the last one. -/
def Work.resume (wk : Work) (last : Bool) : Phase :=
  if last then
    if wk.needsManifest opts then .work wk .manifest else .done wk.outcome
  else .work wk .pages

/-- Flush `writer`, which the window has put aside. -/
def Work.flush (wk : Work) (writer : ChunkWriter) (last : Bool) : Phase :=
  match wk.ww.flush env.lib opts writer with
  | .error e => .failed (.drain e)
  | .ok (ww, none) => Work.resume opts { wk with ww := ww } last
  | .ok (ww, some chunk) => .work { wk with ww := ww } (.put chunk .data last)

/-- Push one event's record, and flush the writer where it is full. -/
def Work.push (wk : Work) (ev : CwEvent) : Phase :=
  let (writer, result) := wk.ww.writer.push env.lib ev.toRecord
  let wk := { wk with pushed := wk.pushed ++ [ev] }
  match result with
  | .error e => .failed (.drain (.chunk e))
  | .ok () =>
    if opts.chunkTargetBytes ≤ writer.uncompressedLen then
      Work.flush env opts
        { wk with ww := { wk.ww with writer := ChunkWriter.new opts.chunk } } writer false
    else .work { wk with ww := { wk.ww with writer := writer } } .pages

/-- Handle one event of the current page. An event outside the window is dropped;
reconcile drops one it has seen. -/
def Work.event (wk : Work) (ev : CwEvent) (rest : List CwEvent) : Phase :=
  let wk := { wk with inbox := rest }
  if w.contains ev = false then
    .work (if wk.prior.isNone then { wk with dropped := wk.dropped + 1 } else wk) .pages
  else
    let wk := { wk with arrived := wk.arrived ++ [ev] }
    if wk.prior.isNone then Work.push env opts wk ev
    else
      let wk := { wk with cwEvents := wk.cwEvents + 1 }
      if ev.seenIn wk.seen then .work { wk with already := wk.already + 1 } .pages
      else
        Work.push env opts
          { wk with seen := ev.identity :: wk.seen, appended := wk.appended + 1 } ev

/-- Start paging the window. `events` is what CloudWatch holds at this moment. -/
def Work.start (prior : Option Manifest) (naming : ObjectNaming) (seen : List Nat)
    (events : List CwEvent) : Work where
  prior := prior
  ww := .new opts w naming
  cursors := eventPages shards
  inbox := []
  seen := seen
  dropped := 0
  cwEvents := 0
  already := 0
  appended := 0
  arrived := []
  pushed := []
  visible := events.filter w.contains

/-- The archive is read: number the attempt and start paging. -/
def readDone (m : Manifest) (seen : List Nat) (events : List CwEvent) : Phase :=
  match nextAttempt m with
  | none => .failed .panic
  | some attempt =>
    if 99 < attempt then .failed (.tooManyAttempts w.startMs 99)
    else .work (Work.start opts shards w (some m) (.reconcile attempt) seen events) .pages

/-- Go on reading the objects that the manifest lists. -/
def readNext (m : Manifest) (rest : List ManifestObject) (seen : List Nat)
    (events : List CwEvent) : Phase :=
  if rest = [] then readDone opts shards w m seen events else .read m rest seen

/-- The manifest that a window ends with. -/
def Work.manifest (wk : Work) (nowMs : Int) : Manifest :=
  match wk.prior with
  | none => {
      version := manifestVersion
      account := opts.account
      logGroup := opts.logGroup
      windowStartMs := w.startMs
      windowEndMs := w.endMs
      objects := wk.ww.objects
      recordCount := (wk.ww.objects.map ManifestObject.recordCount).sum
      completedAtMs := nowMs
      drainVersion := drainVersion
      reconciledAtMs := none
      reconciledAdded := none }
  | some m => { m with
      recordCount := m.recordCount + wk.appended
      reconciledAdded := some (m.reconciledAdded.getD 0 + wk.appended)
      reconciledAtMs := some nowMs
      objects := m.objects ++ wk.ww.objects }

/-- The manifest key of the window. -/
def taskKey : String := windowKey env.store.keyPrefix opts.account opts.logGroup w

/-- One step of a window's task: the phase after it and what it writes. `a` is
what the stores hold, `events` what CloudWatch holds. -/
def taskStep (a : Archive) (events : List CwEvent) :
    Phase → TaskLabel → Option (Phase × List StoreWrite)
  | .look, .get false =>
    some (.failed (.drain (.manifest (.storage "get" (taskKey env opts w)))), [])
  | .look, .get true =>
    match a.manifests (taskKey env opts w) with
    | none => some (.lookup, [])
    | some bytes =>
      match Manifest.fromJsonBytes env.serde bytes with
      | .error e => some (.failed (.drain (.manifest e)), [])
      | .ok m => some (readNext opts shards w m m.objects [] events, [])
  | .lookup, .get false =>
    some (.failed (.drain (.manifest (.storage "get" (taskKey env opts w)))), [])
  | .lookup, .get true =>
    let covered := match a.manifests (taskKey env opts w) with
      | none => false
      | some bytes => manifestCoversWindow env.serde bytes opts.account opts.logGroup w
    if covered then some (.done .skip, [])
    else some (.work (Work.start opts shards w none .base [] events) .pages, [])
  | .read _ (obj :: _) _, .readObject false => some (.failed (.read obj.dataKey), [])
  | .read m (obj :: rest) seen, .readObject true =>
    match a.objects obj.dataKey with
    | none => some (.failed (.missingObject obj.dataKey), [])
    | some body =>
      match objectIdentities env.lib obj body with
      | .error e => some (.failed e, [])
      | .ok ids => some (readNext opts shards w m rest (ids ++ seen) events, [])
  | .work wk .pages, .page i answer =>
    match wk.inbox, wk.cursors[i]? with
    | [], some c =>
      if c.exhausted then none
      else
        match answer with
        | none => some (.failed (.drain .cw), [])
        | some page =>
          some (.work { wk with cursors := wk.cursors.set i (c.advance page),
                                inbox := page.events } .pages, [])
    | _, _ => none
  | .work wk .pages, .event =>
    match wk.inbox with
    | [] => none
    | ev :: rest => some (Work.event env opts w wk ev rest, [])
  | .work wk .pages, .endPages =>
    if wk.inbox = [] ∧ wk.cursors.all Cursor.exhausted then
      some (Work.flush env opts
        { wk with ww := { wk.ww with writer := ChunkWriter.new opts.chunk } } wk.ww.writer true, [])
    else none
  | .work wk (.put chunk stage last), .put answer =>
    match answer with
    | none => some (.failed (.drain .sink), [])
    | some etag =>
      let loc := wk.ww.location opts
      let (key, body) := putRequest env.lib env.store loc chunk stage
      match putNext env.store loc chunk etag stage with
      | .inl stage => some (.work wk (.put chunk stage last), [.object key body])
      | .inr receipt =>
        some (Work.resume opts { wk with ww := wk.ww.stored chunk receipt } last,
          [.object key body])
  | .work wk .manifest, .putManifest answered nowMs =>
    if answered then
      some (.done wk.outcome, [.manifest (taskKey env opts w)
        ((Work.manifest opts w wk nowMs).toJsonBytes env.serde)])
    else some (.failed (.drain (.manifest (.storage "put" (taskKey env opts w)))), [])
  | _, _ => none

end S4Logs

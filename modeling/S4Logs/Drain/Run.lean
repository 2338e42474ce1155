import S4Logs.Drain.Task
import S4Logs.Lib.Run

/-!
# Runs of a job, and what CloudWatch does meanwhile

A run resolves its range, lists the streams once if it shards, and then keeps up
to `concurrency` windows in flight, whose awaits interleave in any order. The
first window that fails ends the run and drops what is in flight; so does the
end of the process. Runs follow one another, and CloudWatch changes whenever it
likes.
-/

namespace S4Logs

inductive JobKind where
  | drain
  | reconcile
deriving DecidableEq

/-- A window in flight. -/
structure Task where
  window : Window
  phase : Phase
deriving DecidableEq

/-- A run under way. -/
structure Run where
  kind : JobKind
  opts : DrainOptions
  shards : Option (List (List String))
  wins : List Window
  queue : List Window
  tasks : List Task
  outcomes : List (Window × WindowOutcome)
deriving DecidableEq

/-- CloudWatch, the stores, the run under way and the result of the last one. -/
structure Sys where
  events : List CwEvent
  archive : Archive
  run : Option Run
  last : Option (Except ReconcileError (List (Window × WindowOutcome)))

/-- What CloudWatch answers before the windows start: the creation time of the
group and its streams. A call that fails answers nothing. -/
structure Preamble where
  creationTimeMs : Option Int
  nowMs : Int
  streams : Option (List String)
deriving DecidableEq

inductive SysLabel where
  | cloud (events : List CwEvent)
  | start (kind : JobKind) (opts : DrainOptions) (pre : Preamble)
  | spawn
  | task (i : Nat) (l : TaskLabel)
  | absorb (i : Nat)
  | finish
  | kill
deriving DecidableEq

/-- The effective range of a run. -/
def resolveRange (opts : DrainOptions) (pre : Preamble) : Except DrainError (Int × Int) :=
  if opts.chunkTargetBytes = 0 then .error (.badOptions "chunk_target_bytes must be > 0")
  else do
    let fromMs ← match opts.fromMs with
      | some f => .ok f
      | none =>
        match pre.creationTimeMs with
        | some t => .ok t
        | none => .error .cw
    let toMs := match opts.toMs with
      | some t => t
      | none => saturatingSub pre.nowMs opts.nowCutoffMs
    .ok (fromMs, toMs)

/-- The stream shards of a run: two or more, or none. -/
def computeShards (opts : DrainOptions) (pre : Preamble) :
    Except DrainError (Option (List (List String))) :=
  if opts.shardStreams ≤ 1 then .ok none
  else
    match pre.streams with
    | none => .error .cw
    | some names =>
      let shards := partitionStreams names opts.shardStreams maxStreamsPerFilter
      if shards.length < 2 then .ok none else .ok (some shards)

/-- A run before its first window. -/
def startRun (kind : JobKind) (opts : DrainOptions) (pre : Preamble) : Except DrainError Run := do
  let (fromMs, toMs) ← resolveRange opts pre
  let shards ← computeShards opts pre
  let wins ← (windows fromMs toMs opts.windowMs).mapError .window
  .ok {
    kind := kind
    opts := opts
    shards := shards
    wins := wins
    queue := wins
    tasks := []
    outcomes := [] }

/-- The await a window of this job begins with. -/
def JobKind.first : JobKind → Phase
  | .drain => .lookup
  | .reconcile => .look

/-- What the stores hold after some writes. -/
def applyWrites (a : Archive) (writes : List StoreWrite) : Archive :=
  writes.foldl StoreWrite.apply a

variable (env : Env)

/-- One step of a window by itself: the archive and the phase after it. -/
def windowStep (opts : DrainOptions) (shards : Option (List (List String))) (w : Window)
    (events : List CwEvent) (s : Archive × Phase) (l : TaskLabel) : Option (Archive × Phase) :=
  (taskStep env opts shards w s.1 events s.2 l).map fun r => (applyWrites s.1 r.2, r.1)

/-- The stores, and the run of one window that is under way: its shards and where it is. -/
structure WindowRuns where
  archive : Archive
  task : Option (Option (List (List String)) × Phase)

inductive WindowLabel where
  | run (pre : Preamble)
  | step (l : TaskLabel)
deriving DecidableEq

/-- Runs of one window, one after the other. A run can begin at any time: the one before
it is broken off where it is. -/
def windowRunsStep (opts : DrainOptions) (w : Window) (events : List CwEvent) (s : WindowRuns) :
    WindowLabel → Option WindowRuns
  | .run pre =>
    match computeShards opts pre with
    | .error _ => some { s with task := none }
    | .ok shards => some { s with task := some (shards, .lookup) }
  | .step l =>
    match s.task with
    | none => none
    | some (shards, p) =>
      (windowStep env opts shards w events (s.archive, p) l).map fun r =>
        { archive := r.1, task := some (shards, r.2) }

def sysStep (s : Sys) : SysLabel → Option Sys
  | .cloud events => some { s with events := events }
  | .start kind opts pre =>
    match s.run with
    | some _ => none
    | none =>
      match startRun kind opts pre with
      | .error e => some { s with last := some (.error (.drain e)) }
      | .ok run => some { s with run := some run, last := none }
  | .spawn =>
    match s.run with
    | none => none
    | some run =>
      match run.queue with
      | [] => none
      | w :: queue =>
        if run.tasks.length < max run.opts.concurrency 1 then
          some { s with run := some { run with
            queue := queue
            tasks := run.tasks ++ [{ window := w, phase := run.kind.first }] } }
        else none
  | .task i l =>
    match s.run with
    | none => none
    | some run =>
      match run.tasks[i]? with
      | none => none
      | some t =>
        (taskStep env run.opts run.shards t.window s.archive s.events t.phase l).map fun r =>
          { s with
              archive := applyWrites s.archive r.2
              run := some { run with tasks := run.tasks.set i { t with phase := r.1 } } }
  | .absorb i =>
    match s.run with
    | none => none
    | some run =>
      match run.tasks[i]? with
      | none => none
      | some t =>
        match t.phase with
        | .done out =>
          some { s with run := some { run with
            tasks := run.tasks.eraseIdx i
            outcomes := run.outcomes ++ [(t.window, out)] } }
        | .failed e => some { s with run := none, last := some (.error e) }
        | _ => none
  | .finish =>
    match s.run with
    | none => none
    | some run =>
      if run.queue = [] ∧ run.tasks = [] then
        some { s with run := none, last := some (.ok run.outcomes) }
      else none
  | .kill => some { s with run := none, last := none }

end S4Logs

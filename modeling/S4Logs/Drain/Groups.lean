import S4Logs.Drain.Discover
import S4Logs.Drain.Report

/-!
# Jobs of many groups

A drain of many groups runs one job for each of them, up to `concurrency` at once, over one
pair of stores. The awaits of the jobs interleave in any order. A group that fails is reported
beside the others and stops none of them. Reconcile takes the groups one after the other.

What happens to one job is `sysStep` of the system that the job sees: its group's events, the
stores and its own run.
-/

namespace S4Logs

/-- The options of one group's job. A drain starts at the creation time that the listing
gave, where it has no start; reconcile asks for it again. -/
def DrainOptions.forGroup (base : DrainOptions) (kind : JobKind) (name : String)
    (info : LogGroupInfo) : DrainOptions :=
  { base with
      logGroup := name
      fromMs := match kind with
        | .drain => base.fromMs.or (some info.creationTimeMs)
        | .reconcile => base.fromMs }

/-- A group's outcome: the run as it ended, or why it failed. -/
structure GroupDrainResult where
  logGroup : String
  result : Except ReconcileError Run
deriving DecidableEq

/-- A job in flight. -/
structure GroupJob where
  logGroup : String
  run : Run
deriving DecidableEq

/-- The jobs under way. -/
structure GroupsRun where
  kind : JobKind
  base : DrainOptions
  concurrency : Nat
  groups : List (String × LogGroupInfo)
  queue : List (String × LogGroupInfo)
  jobs : List GroupJob
  results : List GroupDrainResult
deriving DecidableEq

/-- CloudWatch, the stores, the jobs under way and what the last ones returned. -/
structure Groups where
  events : String → List CwEvent
  archive : Archive
  run : Option GroupsRun
  last : Option (List GroupDrainResult)

/-- A step of a job. -/
inductive JobLabel where
  | spawn
  | task (i : Nat) (l : TaskLabel)
  | absorb (i : Nat)
  | finish
deriving DecidableEq

def JobLabel.sys : JobLabel → SysLabel
  | .spawn => .spawn
  | .task i l => .task i l
  | .absorb i => .absorb i
  | .finish => .finish

inductive GroupsLabel where
  | cloud (logGroup : String) (events : List CwEvent)
  | start (kind : JobKind) (base : DrainOptions) (concurrency : Nat)
      (found : List (String × LogGroupInfo))
  | enter (pre : Preamble)
  | job (i : Nat) (l : JobLabel)
  | finish
  | kill
deriving DecidableEq

/-- How many groups there may be in flight. -/
def GroupsRun.limit (r : GroupsRun) : Nat :=
  match r.kind with
  | .drain => max r.concurrency 1
  | .reconcile => 1

/-- What a job sees. -/
def Groups.seenBy (s : Groups) (job : GroupJob) : Sys where
  events := s.events job.logGroup
  archive := s.archive
  run := some job.run
  last := none

/-- A job has gone on, or it has ended and is reported. -/
def GroupsRun.advance (r : GroupsRun) (i : Nat) (job : GroupJob) (t : Sys) : GroupsRun :=
  match t.run with
  | some run => { r with jobs := r.jobs.set i { job with run := run } }
  | none => { r with
      jobs := r.jobs.eraseIdx i
      results := r.results ++ [{
        logGroup := job.logGroup
        result := match t.last with
          | some (.error e) => .error e
          | _ => .ok job.run }] }

/-- The results in the order in which they are reported. -/
def GroupsRun.report (r : GroupsRun) : List GroupDrainResult :=
  match r.kind with
  | .drain => Sorting.sortBy GroupDrainResult.logGroup r.results
  | .reconcile => r.results

variable (env : Env)

def groupsStep (s : Groups) : GroupsLabel → Option Groups
  | .cloud logGroup events =>
    some { s with events := fun g => if g = logGroup then events else s.events g }
  | .start kind base concurrency found =>
    match s.run with
    | some _ => none
    | none => some { s with
        run := some {
          kind := kind
          base := base
          concurrency := concurrency
          groups := byName found
          queue := byName found
          jobs := []
          results := [] }
        last := none }
  | .enter pre =>
    match s.run with
    | none => none
    | some r =>
      match r.queue with
      | [] => none
      | (name, info) :: queue =>
        if r.jobs.length < r.limit then
          match startRun r.kind (r.base.forGroup r.kind name info) pre with
          | .error e => some { s with run := some { r with
              queue := queue
              results := r.results ++ [⟨name, .error (.drain e)⟩] } }
          | .ok run => some { s with run := some { r with
              queue := queue
              jobs := r.jobs ++ [⟨name, run⟩] } }
        else none
  | .job i l =>
    match s.run with
    | none => none
    | some r =>
      match r.jobs[i]? with
      | none => none
      | some job =>
        (sysStep env (s.seenBy job) l.sys).map fun t =>
          { s with archive := t.archive, run := some (r.advance i job t) }
  | .finish =>
    match s.run with
    | none => none
    | some r =>
      if r.queue = [] ∧ r.jobs = [] then some { s with run := none, last := some r.report }
      else none
  | .kill => some { s with run := none, last := none }

/-! ## What is reported -/

/-- The report of one group's job. -/
def GroupDrainResult.report (g : GroupDrainResult) : Except ReconcileError JobReport :=
  g.result.map fun run => jobReport run.kind run.opts run.wins run.outcomes

/-- The reports of the groups of a drain, by name. -/
structure MultiDrainReport where
  groups : List GroupDrainResult
deriving DecidableEq

def GroupDrainResult.ok (g : GroupDrainResult) : Bool :=
  match g.result with
  | .ok _ => true
  | .error _ => false

/-- What a group that did not fail is reported with. -/
def GroupDrainResult.drained (g : GroupDrainResult) : Option DrainReport :=
  match g.result with
  | .ok run => some (drainReport run.opts run.wins run.outcomes)
  | .error _ => none

namespace MultiDrainReport

variable (multi : MultiDrainReport)

def anyFailed : Bool := multi.groups.any fun g => !g.ok

def failures : List (String × ReconcileError) :=
  multi.groups.filterMap fun g =>
    match g.result with
    | .ok _ => none
    | .error e => some (g.logGroup, e)

def succeeded : List DrainReport := multi.groups.filterMap GroupDrainResult.drained

/-- Add one report to the sums. -/
def add (agg r : DrainReport) : DrainReport :=
  { agg with
      windowsTotal := agg.windowsTotal + r.windowsTotal
      windowsProcessed := agg.windowsProcessed + r.windowsProcessed
      windowsSkipped := agg.windowsSkipped + r.windowsSkipped
      windowsEmpty := agg.windowsEmpty + r.windowsEmpty
      records := agg.records + r.records
      eventsOutsideWindow := agg.eventsOutsideWindow + r.eventsOutsideWindow
      rawBytes := agg.rawBytes + r.rawBytes
      compressedBytes := agg.compressedBytes + r.compressedBytes
      objectsWritten := agg.objectsWritten + r.objectsWritten }

/-- The sum of the reports of the groups that did not fail. -/
def aggregate : DrainReport :=
  let ok := (multi.groups.filter GroupDrainResult.ok).length
  multi.succeeded.foldl add {
    logGroup := s!"{ok}/{multi.groups.length} log groups"
    dryRun := multi.succeeded.all DrainReport.dryRun && decide (0 < ok)
    windowsTotal := 0
    windowsProcessed := 0
    windowsSkipped := 0
    windowsEmpty := 0
    records := 0
    eventsOutsideWindow := 0
    rawBytes := 0
    compressedBytes := 0
    objectsWritten := 0 }

end MultiDrainReport

end S4Logs

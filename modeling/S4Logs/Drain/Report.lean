import S4Logs.Drain.Run
import S4Logs.Lib.Sorting

/-!
# The reports of the two jobs

A run that returns well has the outcome of each of its windows, in the order the
windows were done. Drain adds them up as they come; reconcile first sorts them by
window start and keeps them.
-/

namespace S4Logs

structure DrainReport where
  logGroup : String
  dryRun : Bool
  windowsTotal : Nat
  windowsProcessed : Nat
  windowsSkipped : Nat
  windowsEmpty : Nat
  records : Nat
  eventsOutsideWindow : Nat
  rawBytes : Nat
  compressedBytes : Nat
  objectsWritten : Nat
deriving DecidableEq

def DrainReport.absorb (report : DrainReport) (o : WindowOutcome) : DrainReport :=
  if o.skipped then { report with windowsSkipped := report.windowsSkipped + 1 }
  else { report with
    windowsProcessed := report.windowsProcessed + 1
    windowsEmpty := report.windowsEmpty + if o.records = 0 then 1 else 0
    records := report.records + o.records
    eventsOutsideWindow := report.eventsOutsideWindow + o.dropped
    rawBytes := report.rawBytes + o.rawBytes
    compressedBytes := report.compressedBytes + o.compressedBytes
    objectsWritten := report.objectsWritten + o.objectsWritten }

/-- A report before the first outcome. -/
def DrainReport.start (opts : DrainOptions) (wins : List Window) : DrainReport where
  logGroup := opts.logGroup
  dryRun := opts.dryRun
  windowsTotal := wins.length
  windowsProcessed := 0
  windowsSkipped := 0
  windowsEmpty := 0
  records := 0
  eventsOutsideWindow := 0
  rawBytes := 0
  compressedBytes := 0
  objectsWritten := 0

/-- The report of `DrainJob::run`. -/
def drainReport (opts : DrainOptions) (wins : List Window)
    (outcomes : List (Window × WindowOutcome)) : DrainReport :=
  (outcomes.map Prod.snd).foldl DrainReport.absorb (.start opts wins)

structure WindowReconcileOutcome where
  window : Window
  action : WindowAction
  cwEvents : Nat
  alreadyArchived : Nat
  appended : Nat
  objectsWritten : Nat
deriving DecidableEq

/-- What reconcile returns for a window. -/
def WindowReconcileOutcome.of (o : Window × WindowOutcome) : WindowReconcileOutcome where
  window := o.1
  action := o.2.action
  cwEvents := o.2.cwEvents
  alreadyArchived := o.2.alreadyArchived
  appended := o.2.appended
  objectsWritten := o.2.objectsWritten

def WindowReconcileOutcome.startMs (o : WindowReconcileOutcome) : Int := o.window.startMs

structure ReconcileReport where
  logGroup : String
  dryRun : Bool
  windowsTotal : Nat
  windowsDrained : Nat
  windowsReconciled : Nat
  windowsRepaired : Nat
  cwEvents : Nat
  alreadyArchived : Nat
  appended : Nat
  objectsWritten : Nat
  windows : List WindowReconcileOutcome
deriving DecidableEq

/-- Add one window to the sums. -/
def ReconcileReport.add (report : ReconcileReport) (o : WindowReconcileOutcome) :
    ReconcileReport :=
  let report := match o.action with
    | .drained => { report with windowsDrained := report.windowsDrained + 1 }
    | .reconciled => { report with
        windowsReconciled := report.windowsReconciled + 1
        windowsRepaired := report.windowsRepaired + if 0 < o.appended then 1 else 0 }
  { report with
      cwEvents := report.cwEvents + o.cwEvents
      alreadyArchived := report.alreadyArchived + o.alreadyArchived
      appended := report.appended + o.appended
      objectsWritten := report.objectsWritten + o.objectsWritten }

/-- A report before its sums. -/
def ReconcileReport.start (opts : DrainOptions) (wins : List Window) : ReconcileReport where
  logGroup := opts.logGroup
  dryRun := opts.dryRun
  windowsTotal := wins.length
  windowsDrained := 0
  windowsReconciled := 0
  windowsRepaired := 0
  cwEvents := 0
  alreadyArchived := 0
  appended := 0
  objectsWritten := 0
  windows := []

/-- The report of `ReconcileJob::run`. -/
def reconcileReport (opts : DrainOptions) (wins : List Window)
    (outcomes : List (Window × WindowOutcome)) : ReconcileReport :=
  let sorted := Sorting.sortBy WindowReconcileOutcome.startMs (outcomes.map .of)
  { sorted.foldl ReconcileReport.add (.start opts wins) with windows := sorted }

/-- What a job returns where it returns well. -/
inductive JobReport where
  | drain (report : DrainReport)
  | reconcile (report : ReconcileReport)
deriving DecidableEq

def jobReport (kind : JobKind) (opts : DrainOptions) (wins : List Window)
    (outcomes : List (Window × WindowOutcome)) : JobReport :=
  match kind with
  | .drain => .drain (drainReport opts wins outcomes)
  | .reconcile => .reconcile (reconcileReport opts wins outcomes)

/-- The windows of a run that starts like this. -/
def runWindows (kind : JobKind) (opts : DrainOptions) (pre : Preamble) : List Window :=
  match startRun kind opts pre with
  | .ok run => run.wins
  | .error _ => []

/-- What the last run returned, if it has returned. -/
def Sys.reported (s : Sys) (kind : JobKind) (opts : DrainOptions) (pre : Preamble) :
    Option (Except ReconcileError JobReport) :=
  s.last.map fun last => last.map (jobReport kind opts (runWindows kind opts pre))

end S4Logs

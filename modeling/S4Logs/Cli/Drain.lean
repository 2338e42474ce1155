import S4Logs.Drain.Groups

/-!
# The drain command

The jobs run over every group that was discovered. Then, where a retention is asked for, the
gate is asked for each group whose job returned well, one after the other; the first of these
calls that fails ends the command. The command succeeds where nothing failed.
-/

namespace S4Logs

structure DrainArgs where
  logGroup : Option String
  all : Bool
  groupConcurrency : Nat
  fromMs : Option Int
  toMs : Option Int
  window : Int
  chunkTarget : Nat
  concurrency : Nat
  dryRun : Bool
  retentionDays : Option Int
  applyRetention : Bool
  shardStreams : Nat
  reconcile : Bool

/-- Why the command failed. -/
inductive DrainCommandError where
  | emptyRange (fromMs toMs : Int)
  | noSelector
  | selector (e : DiscoverError)
  | noGroups
  | gate (logGroup : String) (e : DrainError)
  | groups (failed : List String) (total : Nat)
deriving DecidableEq

namespace DrainArgs

variable (args : DrainArgs)

def kind : JobKind := if args.reconcile then .reconcile else .drain

/-- The range, where both of its ends are given, is not empty, and there is a selector. -/
def selector (G : Globset) : Except DrainCommandError GroupSelector := do
  match args.fromMs, args.toMs with
  | some f, some t => if t ≤ f then .error (.emptyRange f t) else .ok ()
  | _, _ => .ok ()
  if args.all then .ok .all
  else
    match args.logGroup with
    | none => .error .noSelector
    | some pattern => (GroupSelector.parse G pattern).mapError .selector

/-- The options that the jobs of all groups share. -/
def base (account : String) : DrainOptions where
  account := account
  logGroup := ""
  fromMs := args.fromMs
  toMs := args.toMs
  nowCutoffMs := 15 * 60000
  windowMs := args.window
  chunkTargetBytes := args.chunkTarget
  chunk := { frameTargetBytes := 4 * 2 ^ 20, zstdLevel := 3 }
  concurrency := args.concurrency
  dryRun := args.dryRun
  shardStreams := max args.shardStreams 1

/-- The start of the jobs, where some group was discovered. -/
def start (account : String) (found : List (String × LogGroupInfo)) :
    Except DrainCommandError GroupsLabel :=
  if (byName found).isEmpty then .error .noGroups
  else .ok (.start args.kind (args.base account) args.groupConcurrency found)

/-- What the gate is asked about one group. -/
def request (account logGroup : String) (info : LogGroupInfo) (days nowMs : Int) :
    RetentionRequest where
  account := account
  logGroup := logGroup
  retentionDays := days
  coverageFromMs := info.creationTimeMs
  nowMs := nowMs
  windowMs := args.window

/-- The flag counts only in a run that is not dry. -/
def apply : Bool := args.applyRetention && !args.dryRun

end DrainArgs

/-- The groups and whether their jobs returned well. -/
def drainOutcomes (results : List GroupDrainResult) : List (String × Bool) :=
  results.map fun g => (g.logGroup, g.ok)

/-- What the gate answers and when it is asked, for each group. -/
structure GateAnswers where
  get : ManifestGet
  nowMs : String → Int
  put : String → Except DrainError Unit

variable (S : Serde Manifest) (keyPrefix account : String) (args : DrainArgs)
  (answers : GateAnswers) (found : List (String × LogGroupInfo))

/-- Ask the gate about one group. -/
def askGate (days : Int) (name : String) (info : LogGroupInfo) :
    List PutRetentionPolicy × Except DrainError RetentionPlan :=
  enforceRetention S answers.get keyPrefix
    (args.request account name info days (answers.nowMs name)) args.apply (answers.put name)

/-- The pass over the groups: the calls made, and the plans. -/
def retentionPass (days : Int) : List (String × Bool) →
    List PutRetentionPolicy × Except DrainCommandError (List RetentionPlan)
  | [] => ([], .ok [])
  | (name, ok) :: rest =>
    if ok then
      match (byName found).lookup name with
      | none => retentionPass days rest
      | some info =>
        let (calls, result) := askGate S keyPrefix account args answers days name info
        match result with
        | .error e => (calls, .error (.gate name e))
        | .ok plan =>
          let (calls', plans) := retentionPass days rest
          (calls ++ calls', plans.map (plan :: ·))
    else retentionPass days rest

/-- The pass, where a retention is asked for. -/
def drainRetention (outcomes : List (String × Bool)) :
    List PutRetentionPolicy × Except DrainCommandError (List RetentionPlan) :=
  match args.retentionDays with
  | none => ([], .ok [])
  | some days => retentionPass S keyPrefix account args answers found days outcomes

/-- The groups whose jobs failed. -/
def failedGroups (outcomes : List (String × Bool)) : List String :=
  (outcomes.filter fun o => !o.2).map Prod.fst

/-- What the command does once the jobs have ended: the calls of `PutRetentionPolicy`, and
its result. -/
def drainCommand (results : List GroupDrainResult) :
    List PutRetentionPolicy × Except DrainCommandError (List RetentionPlan) :=
  let outcomes := drainOutcomes results
  let (calls, plans) := drainRetention S keyPrefix account args answers found outcomes
  let failed := failedGroups outcomes
  (calls, do
    let plans ← plans
    if failed = [] then .ok plans else .error (.groups failed outcomes.length))

end S4Logs

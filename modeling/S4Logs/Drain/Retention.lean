import S4Logs.Drain.Manifest

/-!
# The retention gate

`PutRetentionPolicy` lets CloudWatch delete what is older than the cutoff. The
gate asks for a manifest of every grid window that starts before the cutoff,
from the coverage start on, and calls nothing while one is missing.
-/

namespace S4Logs

inductive DrainError where
  | cw
  | chunk (e : ChunkError)
  | sink
  | manifest (e : ManifestError)
  | window (e : WindowAbort)
  | badOptions (message : String)
deriving DecidableEq

structure RetentionRequest where
  account : String
  logGroup : String
  retentionDays : Int
  coverageFromMs : Int
  nowMs : Int
  windowMs : Int
deriving DecidableEq

structure RetentionPlan where
  logGroup : String
  retentionDays : Int
  cutoffMs : Int
  requiredWindows : List Window
  missingWindows : List Window
  applied : Bool
deriving DecidableEq

def RetentionPlan.allowed (plan : RetentionPlan) : Bool := plan.missingWindows.isEmpty

/-- Events older than this would be expired. -/
def RetentionRequest.cutoffMs (req : RetentionRequest) : Int :=
  saturatingSub req.nowMs (saturatingMul req.retentionDays dayMs)

/-- What a manifest store answers to a read of one key. -/
abbrev ManifestGet := String → Except ManifestError (Option Bytes)

variable (S : Serde Manifest) (get : ManifestGet) (keyPrefix : String)

/-- The required windows whose manifest does not prove coverage. -/
def missingWindows (req : RetentionRequest) : List Window → Except DrainError (List Window)
  | [] => .ok []
  | w :: ws =>
    match get (windowKey keyPrefix req.account req.logGroup w) with
    | .error e => .error (.manifest e)
    | .ok answer =>
      let covered := match answer with
        | none => false
        | some bytes => manifestCoversWindow S bytes req.account req.logGroup w
      (missingWindows req ws).map fun missing => if covered then missing else w :: missing

/-- Compute coverage without touching CloudWatch. -/
def planRetention (req : RetentionRequest) : Except DrainError RetentionPlan :=
  if req.retentionDays ≤ 0 then
    .error (.badOptions ("retention_days must be > 0, got " ++ toString req.retentionDays))
  else do
    let required ←
      -- nothing older than the cutoff can exist
      if req.cutoffMs ≤ req.coverageFromMs then .ok []
      else (windowsCovering req.coverageFromMs req.cutoffMs req.windowMs).mapError .window
    let missing ← missingWindows S get keyPrefix req required
    .ok {
      logGroup := req.logGroup
      retentionDays := req.retentionDays
      cutoffMs := req.cutoffMs
      requiredWindows := required
      missingWindows := missing
      applied := false }

/-- A call of a manifest store. -/
inductive StoreCall where
  | keyExists (key : String)
  | get (key : String)
  | put (key : String) (body : Bytes)
  | list (keyPrefix : String)
deriving DecidableEq

/-- The calls the loop over the required windows makes: it ends at the first failure. -/
def missingCalls (req : RetentionRequest) : List Window → List StoreCall
  | [] => []
  | w :: ws =>
    let key := windowKey keyPrefix req.account req.logGroup w
    .get key :: match get key with
      | .error _ => []
      | .ok _ => missingCalls req ws

/-- The calls a plan makes of the manifest store. -/
def planCalls (req : RetentionRequest) : List StoreCall :=
  if req.retentionDays ≤ 0 then []
  else if req.cutoffMs ≤ req.coverageFromMs then []
  else
    match windowsCovering req.coverageFromMs req.cutoffMs req.windowMs with
    | .error _ => []
    | .ok required => missingCalls get keyPrefix req required

/-- A call of `PutRetentionPolicy`. -/
structure PutRetentionPolicy where
  logGroup : String
  retentionDays : Int
deriving DecidableEq

/-- Plan, then call `PutRetentionPolicy` only if coverage is complete and `apply`
is set. `answer` is what CloudWatch answers to the call. The result carries the
calls made. -/
def enforceRetention (req : RetentionRequest) (apply : Bool) (answer : Except DrainError Unit) :
    List PutRetentionPolicy × Except DrainError RetentionPlan :=
  match planRetention S get keyPrefix req with
  | .error e => ([], .error e)
  | .ok plan =>
    if plan.allowed = false then ([], .ok plan)
    else if apply then
      ([⟨req.logGroup, req.retentionDays⟩], answer.map fun _ => { plan with applied := true })
    else ([], .ok plan)

end S4Logs

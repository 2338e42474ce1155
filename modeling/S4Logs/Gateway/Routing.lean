import S4Logs.Core.Deps

/-!
# Which batches go where

The first rule whose two globs match the group and the stream of a batch says what is done
with it; the default says it where none does. The TOML reader is a parameter, like the
engine of the globs.
-/

namespace S4Logs

/-- What is done with a batch. -/
inductive RouteAction where
  | s3
  | cloudwatch
  | both
  | drop
deriving DecidableEq

namespace RouteAction

def toS3 : RouteAction → Bool
  | .s3 => true
  | .both => true
  | _ => false

def toCloudwatch : RouteAction → Bool
  | .cloudwatch => true
  | .both => true
  | _ => false

end RouteAction

inductive RoutingError where
  | toml
  | glob (index : Nat) (glob : String)
deriving DecidableEq

/-- A rule as it is written. -/
structure RawRule where
  logGroup : String
  stream : Option String
  action : RouteAction

/-- A configuration as it is written. -/
structure RawConfig where
  defaultAction : Option RouteAction
  rules : List RawRule

/-- A rule that is compiled. -/
structure Rule where
  group : String → Bool
  stream : String → Bool
  action : RouteAction

structure RoutingConfig where
  defaultAction : RouteAction
  rules : List Rule

/-- Everything to S3. -/
def RoutingConfig.default : RoutingConfig where
  defaultAction := .s3
  rules := []

def compileGlob (G : Globset) (index : Nat) (glob : String) :
    Except RoutingError (String → Bool) :=
  match G.compile glob with
  | none => .error (.glob index glob)
  | some matcher => .ok matcher

/-- Compile the rules from this index on, up to the first glob that is malformed. -/
def compileRules (G : Globset) (index : Nat) : List RawRule → Except RoutingError (List Rule)
  | [] => .ok []
  | r :: rest => do
    let group ← compileGlob G index r.logGroup
    let stream ← compileGlob G index (r.stream.getD "*")
    let rules ← compileRules G (index + 1) rest
    .ok (⟨group, stream, r.action⟩ :: rules)

namespace RoutingConfig

def ofRaw (G : Globset) (raw : RawConfig) : Except RoutingError RoutingConfig := do
  let rules ← compileRules G 0 raw.rules
  .ok { defaultAction := raw.defaultAction.getD .s3, rules := rules }

def fromTomlStr (toml : String → Option RawConfig) (G : Globset) (s : String) :
    Except RoutingError RoutingConfig :=
  match toml s with
  | none => .error .toml
  | some raw => ofRaw G raw

variable (cfg : RoutingConfig)

/-- The action of the first rule that matches. -/
def route (logGroup stream : String) : RouteAction :=
  match cfg.rules.find? fun r => r.group logGroup && r.stream stream with
  | none => cfg.defaultAction
  | some r => r.action

/-- Some stream of the group may go to CloudWatch. -/
def groupMayReachCloudwatch (logGroup : String) : Bool :=
  cfg.defaultAction.toCloudwatch ||
    cfg.rules.any fun r => r.group logGroup && r.action.toCloudwatch

end RoutingConfig

end S4Logs

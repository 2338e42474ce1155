import S4Logs.Drain.Shard
import S4Logs.Drain.Retention
import S4Logs.Lib.Retry
import S4Logs.Lib.Tokens

/-!
# CloudWatch Logs through its client

The drain reads CloudWatch through a client that may be throttled. A throttled request is
made again after a wait that doubles up to a cap, with a jitter that a hash gives; any other
failure surfaces at once. The listings follow the tokens of their pages to the end.

The client numbers its requests, so that it may answer each of them in its own way.
-/

namespace S4Logs

structure LogGroupInfo where
  retentionDays : Option Int
  storedBytes : Option Int
  creationTimeMs : Int
deriving DecidableEq

inductive CwError where
  | throttled (op logGroup : String) (attempts : Nat) (message : String)
  | api (op logGroup message : String)
  | groupNotFound (logGroup : String)
  | malformed (what logGroup : String)
deriving DecidableEq

/-! ## What the client sends and gets -/

/-- A failed request: the code of the service, where it answered, and the text. -/
structure SdkError where
  code : Option String
  message : String
deriving DecidableEq

structure FilteredLogEvent where
  timestamp : Option Int
  message : Option String
  logStreamName : Option String
  ingestionTime : Option Int
  eventId : Option String
deriving DecidableEq

/-- The end of the range is inclusive. -/
structure FilterLogEventsInput where
  logGroupName : String
  startTime : Int
  endTime : Int
  logStreamNames : Option (List String)
  nextToken : Option String
deriving DecidableEq

structure FilterLogEventsOutput where
  events : Option (List FilteredLogEvent)
  nextToken : Option String
deriving DecidableEq

structure LogGroup where
  logGroupName : Option String
  creationTime : Option Int
  retentionInDays : Option Int
  storedBytes : Option Int
deriving DecidableEq

structure DescribeLogGroupsInput where
  logGroupNamePrefix : Option String
  nextToken : Option String
deriving DecidableEq

structure DescribeLogGroupsOutput where
  logGroups : Option (List LogGroup)
  nextToken : Option String
deriving DecidableEq

structure LogStream where
  logStreamName : Option String
deriving DecidableEq

structure DescribeLogStreamsInput where
  logGroupName : String
  logStreamNamePrefix : Option String
  nextToken : Option String
deriving DecidableEq

structure DescribeLogStreamsOutput where
  logStreams : Option (List LogStream)
  nextToken : Option String
deriving DecidableEq

structure CwClient where
  filterLogEvents : Nat → FilterLogEventsInput → Except SdkError FilterLogEventsOutput
  describeLogGroups : Nat → DescribeLogGroupsInput → Except SdkError DescribeLogGroupsOutput
  describeLogStreams : Nat → DescribeLogStreamsInput → Except SdkError DescribeLogStreamsOutput
  putRetentionPolicy : Nat → PutRetentionPolicy → Except SdkError Unit

/-! ## Backoff -/

def u64Max : Nat := 18446744073709551615

structure BackoffConfig where
  baseMs : Nat
  capMs : Nat
  maxAttempts : Nat
deriving DecidableEq

def BackoffConfig.default : BackoffConfig where
  baseMs := 200
  capMs := 10000
  maxAttempts := 8

/-- The longest delay after an attempt: the base, doubled with each attempt, up to the cap. -/
def BackoffConfig.exp (cfg : BackoffConfig) (attempt : Nat) : Nat :=
  max (min (min u64Max (cfg.baseMs * 2 ^ min (attempt - 1) 20)) cfg.capMs) 1

/-- The delay after an attempt. The hash picks a place in its upper half. -/
def delayMs (cfg : BackoffConfig) (hash : String → Nat → Nat) (attempt : Nat) (key : String) :
    Nat :=
  cfg.exp attempt / 2 + hash key attempt % (cfg.exp attempt / 2 + 1)

inductive CallFailure where
  | throttled (message : String)
  | fatal (message : String)
deriving DecidableEq

def throttleCodes : List String :=
  ["ThrottlingException", "Throttling", "TooManyRequestsException", "RequestLimitExceeded"]

def classify (e : SdkError) : CallFailure :=
  if e.code.any throttleCodes.contains then .throttled e.message else .fatal e.message

/-- What a call comes to: only a throttled one is made again. -/
def callAnswer {α : Type} (op logGroup : String) :
    Except CallFailure α → Retry.Answer (Except CwError α) String
  | .ok v => .settled (.ok v)
  | .error (.fatal message) => .settled (.error (.api op logGroup message))
  | .error (.throttled message) => .again message

structure AwsCwSource where
  client : CwClient
  backoff : BackoffConfig
  hash : String → Nat → Nat

namespace AwsCwSource

variable (src : AwsCwSource)

/-- Make a call until it is not throttled, after `n` requests. -/
def withBackoff {α : Type} (op logGroup : String) (call : Nat → Except SdkError α) (n : Nat) :
    Retry.Outcome (Except CwError α) :=
  Retry.tryFrom (fun attempt => callAnswer op logGroup ((call (n + attempt)).mapError classify))
    (fun attempt => delayMs src.backoff src.hash attempt logGroup)
    (fun attempts message => .error (.throttled op logGroup attempts message))
    (src.backoff.maxAttempts - 1) 1

/-- The number of requests after a call, and what it returned. -/
def send {α : Type} (op logGroup : String) (call : Nat → Except SdkError α) (n : Nat) :
    Nat × Except CwError α :=
  let out := src.withBackoff op logGroup call n
  (n + out.calls, out.result)

/-! ## The calls -/

/-- An event with a timestamp. One without is skipped. -/
def event (e : FilteredLogEvent) : Option CwEvent :=
  e.timestamp.map fun timestamp => {
    timestamp := timestamp
    message := e.message.getD ""
    logStreamName := e.logStreamName.getD ""
    ingestionTime := e.ingestionTime
    eventId := e.eventId }

def filterLogEvents (logGroup : String) (startMs endMsExclusive : Int)
    (streams : Option (List String)) (n : Nat) (nextToken : Option String) :
    Nat × Except CwError CwEventPage :=
  let (n, out) := src.send "FilterLogEvents" logGroup (fun n => src.client.filterLogEvents n {
      logGroupName := logGroup
      startTime := startMs
      endTime := saturatingSub endMsExclusive 1
      logStreamNames := streams
      nextToken := nextToken }) n
  (n, out.map fun out => {
    events := (out.events.getD []).filterMap event
    nextToken := out.nextToken })

/-- The events of one window and filter, page after page. -/
def pageStream (logGroup : String) (w : Window) (streams : Option (List String)) (fuel n : Nat) :
    Option (Nat × Except CwError (List CwEvent)) :=
  Tokens.follow (src.filterLogEvents logGroup w.startMs w.endMs streams)
    (fun events page => .more (events ++ page.events)) CwEventPage.nextToken .ok fuel n none []

def describeLogGroups (key : String) (namePrefix : Option String) (n : Nat)
    (nextToken : Option String) : Nat × Except CwError DescribeLogGroupsOutput :=
  src.send "DescribeLogGroups" key (fun n => src.client.describeLogGroups n {
    logGroupNamePrefix := namePrefix
    nextToken := nextToken }) n

/-- What is known of a group that has a creation time. -/
def info (g : LogGroup) : Option LogGroupInfo :=
  g.creationTime.map fun creationTimeMs => {
    retentionDays := g.retentionInDays
    storedBytes := g.storedBytes
    creationTimeMs := creationTimeMs }

def listLogStreams (logGroup : String) (prefixHint : Option String) (fuel n : Nat) :
    Option (Nat × Except CwError (List String)) :=
  Tokens.follow
    (fun n nextToken => src.send "DescribeLogStreams" logGroup
      (fun n => src.client.describeLogStreams n {
        logGroupName := logGroup
        logStreamNamePrefix := prefixHint
        nextToken := nextToken }) n)
    (fun names out => .more (names ++ (out.logStreams.getD []).filterMap LogStream.logStreamName))
    DescribeLogStreamsOutput.nextToken .ok fuel n none []

/-- A listed group. One without a name or a creation time is skipped. -/
def listed (g : LogGroup) : Option (String × LogGroupInfo) :=
  g.logGroupName.bind fun name => (info g).map fun info => (name, info)

def putRetentionPolicy (logGroup : String) (retentionDays : Int) (n : Nat) :
    Nat × Except CwError Unit :=
  src.send "PutRetentionPolicy" logGroup
    (fun n => src.client.putRetentionPolicy n ⟨logGroup, retentionDays⟩) n

end AwsCwSource

end S4Logs

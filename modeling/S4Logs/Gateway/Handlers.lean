import S4Logs.Gateway.Auth
import S4Logs.Gateway.Buffer
import S4Logs.Gateway.Registry
import S4Logs.Gateway.Routing

/-!
# The handlers

What the gateway does with a request of the logs API before the first await of its handler:
it verifies the signature where it is told to, finds the action, reads the body, and changes
the registry. What is left to do is `Handled`. The JSON reader is a parameter at each of the
request types; its errors are texts.
-/

namespace S4Logs

/-! ## The API -/

def targetPrefix : String := "Logs_20140328."

def maxRequestBodyBytes : Nat := 8388608

structure PutLogEventsRequest where
  logGroupName : String
  logStreamName : String
  logEvents : List InputLogEvent
deriving DecidableEq

structure CreateLogGroupRequest where
  logGroupName : String

structure CreateLogStreamRequest where
  logGroupName : String
  logStreamName : String

/-- `serde_json::from_slice` at the types of the requests. -/
structure RequestBodies where
  putLogEvents : Bytes → Except String PutLogEventsRequest
  createLogGroup : Bytes → Except String CreateLogGroupRequest
  createLogStream : Bytes → Except String CreateLogStreamRequest
  describeLogGroups : Bytes → Except String DescribeLogGroupsRequest
  describeLogStreams : Bytes → Except String DescribeLogStreamsRequest

namespace ApiError

def invalidAction (target : String) : ApiError :=
  ⟨400, "InvalidAction", s!"unsupported action: {target}"⟩

def missingAction : ApiError := ⟨400, "MissingAction", "missing X-Amz-Target header"⟩

def serialization (err : String) : ApiError :=
  ⟨400, "SerializationException", s!"invalid request body: {err}"⟩

def alreadyExists (what : String) : ApiError :=
  ⟨400, "ResourceAlreadyExistsException", s!"The specified {what} already exists"⟩

def serviceUnavailable (message : String) : ApiError :=
  ⟨500, "ServiceUnavailableException", message⟩

def backpressure : ApiError :=
  ⟨503, "ServiceUnavailableException", "buffer memory cap exceeded; retry the batch"⟩

def internalFailure (message : String) : ApiError := ⟨500, "InternalFailure", message⟩

def invalidSignature (message : String) : ApiError :=
  ⟨403, "InvalidSignatureException", message⟩

def missingAuthToken : ApiError :=
  ⟨403, "MissingAuthenticationTokenException", "Missing Authentication Token"⟩

def entityTooLarge : ApiError :=
  ⟨413, "RequestEntityTooLargeException",
    s!"request body exceeds {maxRequestBodyBytes} bytes or read failed: length limit exceeded"⟩

/-- The answer of the body extractor itself, which is plain text. -/
def lengthLimitExceeded : ApiError :=
  ⟨413, "", "Failed to buffer the request body: length limit exceeded"⟩

end ApiError

/-- The body of an answer that is well. -/
inductive AnswerBody where
  | empty
  | logGroups (res : DescribeLogGroupsResponse)
  | logStreams (res : DescribeLogStreamsResponse)

abbrev Answer := Except ApiError AnswerBody

inductive AuthMode where
  | none
  | sigV4 (accessKey secretKey : String)

/-- What does not change while the gateway runs. -/
structure GatewayApp where
  buffers : BufferManager
  routing : RoutingConfig
  auth : AuthMode
  hashes : Hashes
  bodies : RequestBodies

/-! ## Before the first await -/

/-- The clock where a handler reads it. -/
structure HandlerClock where
  nowNs : Int
  groupNowMs : Int
  streamNowMs : Int
deriving DecidableEq

/-- A request of one of the actions, with its body read. -/
inductive ApiRequest where
  | putLogEvents (req : PutLogEventsRequest)
  | createLogGroup (req : CreateLogGroupRequest)
  | createLogStream (req : CreateLogStreamRequest)
  | describeLogGroups (req : DescribeLogGroupsRequest)
  | describeLogStreams (req : DescribeLogStreamsRequest)

namespace GatewayApp

variable (app : GatewayApp)

/-- The body is bounded, and the signature verified where the mode asks for it. -/
def authenticate (view : RequestView) (nowNs : Int) : Except ApiError Unit :=
  match app.auth with
  | .none =>
    if maxRequestBodyBytes < view.body.length then .error .lengthLimitExceeded else .ok ()
  | .sigV4 accessKey secretKey =>
    if maxRequestBodyBytes < view.body.length then .error .entityTooLarge
    else
      match verify app.hashes accessKey secretKey view nowNs with
      | .ok () => .ok ()
      | .error .missingToken => .error .missingAuthToken
      | .error (.invalid reason) => .error (.invalidSignature
          s!"The request signature we calculated does not match: {reason}")

/-- The texts of the body, read. -/
def parseBody {α : Type} (read : Bytes → Except String α) (body : Bytes) : Except ApiError α :=
  (read body).mapError .serialization

/-- Find the action and read the body. -/
def readRequest (view : RequestView) : Except ApiError ApiRequest :=
  match (view.headers.get "x-amz-target").bind headerText with
  | none => .error .missingAction
  | some target =>
    if targetPrefix.toList.isPrefixOf target.toList then
      match String.ofList (target.toList.drop targetPrefix.toList.length) with
      | "PutLogEvents" => (parseBody app.bodies.putLogEvents view.body).map .putLogEvents
      | "CreateLogGroup" => (parseBody app.bodies.createLogGroup view.body).map .createLogGroup
      | "CreateLogStream" => (parseBody app.bodies.createLogStream view.body).map .createLogStream
      | "DescribeLogGroups" =>
        if view.body.isEmpty then .ok (.describeLogGroups ⟨none, none, none⟩)
        else (parseBody app.bodies.describeLogGroups view.body).map .describeLogGroups
      | "DescribeLogStreams" =>
        (parseBody app.bodies.describeLogStreams view.body).map .describeLogStreams
      | _ => .error (.invalidAction target)
    else .error (.invalidAction target)

/-- A request that is let in. -/
def accept (view : RequestView) (nowNs : Int) : Except ApiError ApiRequest := do
  app.authenticate view nowNs
  app.readRequest view

end GatewayApp

/-- What is left to do of a request. -/
inductive Handled where
  | answer (res : Answer)
  | push (req : PutLogEventsRequest) (action : RouteAction)
  | forward (req : PutLogEventsRequest)
  | createGroup (logGroup : String)
  | createStream (logGroup stream : String)

namespace RegistryError

def toString : RegistryError → String
  | .groupExists => "log group already exists"
  | .streamExists => "log stream already exists"
  | .groupNotFound => "log group does not exist"

end RegistryError

namespace GatewayApp

variable (app : GatewayApp)

/-- The registry after the part of a handler before its first await, and what is left. -/
def handle (registry : Registry) (clock : HandlerClock) : ApiRequest → Registry × Handled
  | .putLogEvents req =>
    let action := app.routing.route req.logGroupName req.logStreamName
    (registry.touch req.logGroupName req.logStreamName clock.groupNowMs clock.streamNowMs,
      if action.toS3 then .push req action
      else if action.toCloudwatch then .forward req
      else .answer (.ok .empty))
  | .createLogGroup req =>
    match registry.createGroup req.logGroupName clock.groupNowMs with
    | .ok registry =>
      (registry, if app.routing.groupMayReachCloudwatch req.logGroupName then
          .createGroup req.logGroupName
        else .answer (.ok .empty))
    | .error .groupExists => (registry, .answer (.error (.alreadyExists "log group")))
    | .error e => (registry, .answer (.error (.invalidParameter e.toString)))
  | .createLogStream req =>
    match registry.createStream req.logGroupName req.logStreamName clock.streamNowMs with
    | .ok registry =>
      (registry, if (app.routing.route req.logGroupName req.logStreamName).toCloudwatch then
          .createStream req.logGroupName req.logStreamName
        else .answer (.ok .empty))
    | .error .streamExists => (registry, .answer (.error (.alreadyExists "log stream")))
    | .error .groupNotFound => (registry, .answer (.error (.notFound "log group")))
    | .error e => (registry, .answer (.error (.invalidParameter e.toString)))
  | .describeLogGroups req =>
    (registry, .answer ((describeLogGroups registry req).map .logGroups))
  | .describeLogStreams req =>
    (registry, .answer ((describeLogStreams registry req).map .logStreams))

/-- The answer where the buffers refuse a batch. -/
def refused : BufferError → ApiError
  | .overCapacity => .backpressure
  | .wal => .internalFailure "wal append failed; retry the batch"
  | _ => .serviceUnavailable "event buffering failed; retry the batch"

end GatewayApp

end S4Logs

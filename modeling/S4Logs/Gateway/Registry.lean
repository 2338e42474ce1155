import Mathlib.Data.String.Basic
import S4Logs.Core.TsIndex
import S4Logs.Lib.OrdMap
import S4Logs.Lib.Text

/-!
# The registry of groups and streams

What agents created or wrote to, by name, and the two `Describe*` actions over it. A list is
given out in pages: the token that goes with a page is the offset of the next one into the
list, which is made anew on every call.
-/

namespace S4Logs

/-- An AWS JSON error. -/
structure ApiError where
  status : Nat
  kind : String
  message : String
deriving DecidableEq

namespace ApiError

def invalidParameter (message : String) : ApiError := ⟨400, "InvalidParameterException", message⟩

def notFound (what : String) : ApiError :=
  ⟨400, "ResourceNotFoundException", s!"The specified {what} does not exist"⟩

end ApiError

inductive RegistryError where
  | groupExists
  | streamExists
  | groupNotFound
deriving DecidableEq

structure GroupEntry where
  creationTimeMs : Int
  streams : OrdMap String Int

structure Registry where
  groups : OrdMap String GroupEntry

namespace Registry

/-- A group without streams. The clock is read where a group or a stream is made. -/
def createGroup (r : Registry) (name : String) (nowMs : Int) : Except RegistryError Registry :=
  if (r.groups.get? name).isSome then .error .groupExists
  else
    .ok { groups := r.groups.alter name fun _ => {
      creationTimeMs := nowMs
      streams := .empty } }

def createStream (r : Registry) (group stream : String) (nowMs : Int) :
    Except RegistryError Registry :=
  match r.groups.get? group with
  | none => .error .groupNotFound
  | some entry =>
    if (entry.streams.get? stream).isSome then .error .streamExists
    else
      .ok { groups := r.groups.alter group fun _ =>
        { entry with streams := entry.streams.alter stream fun _ => nowMs } }

/-- A write makes its group and its stream where they are not there. -/
def touch (r : Registry) (group stream : String) (groupNowMs streamNowMs : Int) : Registry where
  groups := r.groups.alter group fun entry =>
    let entry := entry.getD { creationTimeMs := groupNowMs, streams := .empty }
    { entry with streams := entry.streams.alter stream fun t => t.getD streamNowMs }

/-- A name begins as asked for, where anything is asked for. -/
def nameMatches (namePrefix : Option String) (name : String) : Bool :=
  namePrefix.all fun p => p.toList.isPrefixOf name.toList

/-- The names and times of the groups that match. -/
def describeGroups (r : Registry) (namePrefix : Option String) : List (String × Int) :=
  (r.groups.entries.filter fun e => nameMatches namePrefix e.1).map fun e =>
    (e.1, e.2.creationTimeMs)

/-- The names and times of the streams of a group that match. -/
def describeStreams (r : Registry) (group : String) (namePrefix : Option String) :
    Except RegistryError (List (String × Int)) :=
  match r.groups.get? group with
  | none => .error .groupNotFound
  | some entry =>
    .ok ((entry.streams.entries.filter fun e => nameMatches namePrefix e.1).map fun e =>
      (e.1, e.2))

end Registry

/-- `usize` addition that stops at the end of the range. -/
def saturatingAddUsize (a b : Nat) : Nat := min usizeMax (a + b)

/-- A value held between two ends. -/
def clamp (n lo hi : Int) : Int := if n < lo then lo else if hi < n then hi else n

/-- A page of the items, and the token of the next one where there is more. -/
def paginate {α : Type} (items : List α) (limit : Option Int) (nextToken : Option String) :
    Except ApiError (List α × Option String) := do
  let start ← match nextToken with
    | none => .ok 0
    | some t =>
      match Text.parseUnsigned (usizeMax + 1) t.toList with
      | none => .error (.invalidParameter "invalid nextToken")
      | some n => .ok n
  let limit ←
    if clamp (limit.getD 50) 1 50 < 0 then .error (.invalidParameter "invalid limit")
    else .ok (clamp (limit.getD 50) 1 50).toNat
  let page := (items.drop start).take limit
  let consumed := saturatingAddUsize start page.length
  .ok (page, if consumed < items.length ∧ page ≠ [] then
      some (String.ofList (Nat.toDigits 10 consumed))
    else none)

/-! ## The two actions -/

structure DescribeLogGroupsRequest where
  logGroupNamePrefix : Option String
  limit : Option Int
  nextToken : Option String

structure LogGroupSummary where
  logGroupName : String
  creationTime : Int
  arn : String
deriving DecidableEq

structure DescribeLogGroupsResponse where
  logGroups : List LogGroupSummary
  nextToken : Option String

/-- What is said of a group. -/
def LogGroupSummary.ofGroup (g : String × Int) : LogGroupSummary where
  logGroupName := g.1
  creationTime := g.2
  arn := s!"arn:aws:logs:local:000000000000:log-group:{g.1}:*"

def describeLogGroups (r : Registry) (req : DescribeLogGroupsRequest) :
    Except ApiError DescribeLogGroupsResponse := do
  let all := r.describeGroups req.logGroupNamePrefix
  let (page, nextToken) ← paginate all req.limit req.nextToken
  .ok { logGroups := page.map LogGroupSummary.ofGroup, nextToken := nextToken }

structure DescribeLogStreamsRequest where
  logGroupName : Option String
  logGroupIdentifier : Option String
  logStreamNamePrefix : Option String
  limit : Option Int
  nextToken : Option String

structure LogStreamSummary where
  logStreamName : String
  creationTime : Int
deriving DecidableEq

structure DescribeLogStreamsResponse where
  logStreams : List LogStreamSummary
  nextToken : Option String

/-- What is said of a stream. -/
def LogStreamSummary.ofStream (s : String × Int) : LogStreamSummary where
  logStreamName := s.1
  creationTime := s.2

def describeLogStreams (r : Registry) (req : DescribeLogStreamsRequest) :
    Except ApiError DescribeLogStreamsResponse := do
  let group ← match req.logGroupName.or req.logGroupIdentifier with
    | none => .error (.invalidParameter "logGroupName or logGroupIdentifier is required")
    | some group => .ok group
  let streams ← match r.describeStreams group req.logStreamNamePrefix with
    | .error _ => .error (ApiError.notFound "log group")
    | .ok streams => .ok streams
  let (page, nextToken) ← paginate streams req.limit req.nextToken
  .ok { logStreams := page.map LogStreamSummary.ofStream, nextToken := nextToken }

end S4Logs

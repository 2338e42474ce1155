import S4Logs.Gateway.Concrete
import S4Logs.Laws.Gateway.Service

/-!
# What clients are answered

A request is answered as its route asks for, and CloudWatch is called once at most for it.
Both are read off the lives of requests, so they hold however requests interleave, whichever
client goes away, and over any number of crashes.
-/

namespace S4Logs

variable {app : GatewayApp} {s : Service}

/-! ## A service that can be run -/

namespace Concrete

def inputOfJson (j : Json) : Option InputLogEvent := do
  let fs ← Json.asObj? j
  some {
    timestamp := ← Json.required "timestamp" Json.asInt? fs
    message := ← Json.required "message" Json.asStr? fs }

def putOfFields (fs : List (String × Json)) : Option PutLogEventsRequest := do
  let events ← Json.optional "logEvents" Json.asArr? fs
  some {
    logGroupName := ← Json.required "logGroupName" Json.asStr? fs
    logStreamName := ← Json.required "logStreamName" Json.asStr? fs
    logEvents := ← (events.getD []).mapM inputOfJson }

def groupOfFields (fs : List (String × Json)) : Option CreateLogGroupRequest := do
  some { logGroupName := ← Json.required "logGroupName" Json.asStr? fs }

def streamOfFields (fs : List (String × Json)) : Option CreateLogStreamRequest := do
  some {
    logGroupName := ← Json.required "logGroupName" Json.asStr? fs
    logStreamName := ← Json.required "logStreamName" Json.asStr? fs }

def groupsOfFields (fs : List (String × Json)) : Option DescribeLogGroupsRequest := do
  some {
    logGroupNamePrefix := ← Json.optional "logGroupNamePrefix" Json.asStr? fs
    limit := ← Json.optional "limit" Json.asInt? fs
    nextToken := ← Json.optional "nextToken" Json.asStr? fs }

def streamsOfFields (fs : List (String × Json)) : Option DescribeLogStreamsRequest := do
  some {
    logGroupName := ← Json.optional "logGroupName" Json.asStr? fs
    logGroupIdentifier := ← Json.optional "logGroupIdentifier" Json.asStr? fs
    logStreamNamePrefix := ← Json.optional "logStreamNamePrefix" Json.asStr? fs
    limit := ← Json.optional "limit" Json.asInt? fs
    nextToken := ← Json.optional "nextToken" Json.asStr? fs }

/-- A body is an object. -/
def bodyAs {α : Type} (read : List (String × Json) → Option α) (body : Bytes) : Except String α :=
  match ((Json.parse body).bind Json.asObj?).bind read with
  | none => .error "invalid body"
  | some a => .ok a

def bodies : RequestBodies where
  putLogEvents := bodyAs putOfFields
  createLogGroup := bodyAs groupOfFields
  createLogStream := bodyAs streamOfFields
  describeLogGroups := bodyAs groupsOfFields
  describeLogStreams := bodyAs streamsOfFields

/-- One group to both, one to CloudWatch alone, one to nowhere, and the rest to S3. -/
def routes : RoutingConfig where
  defaultAction := .s3
  rules := [⟨(· == "/both"), fun _ => true, .both⟩, ⟨(· == "/aws"), fun _ => true, .cloudwatch⟩,
    ⟨(· == "/none"), fun _ => true, .drop⟩]

def served (walDir : Option String) (auth : AuthMode) (hashes : Hashes) : GatewayApp where
  buffers := gateway walDir
  routing := routes
  auth := auth
  hashes := hashes
  bodies := bodies

/-- Hashes for a service that asks for no signature. -/
def noHashes : Hashes where
  sha256 _ := []
  hmac256 _ _ := []

def openService : GatewayApp := served (some "/wal") .none noHashes

/-- A request for an action. -/
def post (action body : String) : RequestView where
  method := "POST"
  path := "/"
  query := none
  headers := [("x-amz-target", Bytes.ofString (targetPrefix ++ action))]
  body := Bytes.ofString body

def noon : HandlerClock where
  nowNs := 1440938160000000000
  groupNowMs := 1440938160000
  streamNowMs := 1440938160000

/-- A batch of one event for a group. -/
def postOne (logGroup : String) : RequestView := post "PutLogEvents"
  ("\x7b\"logGroupName\":\"" ++ logGroup ++ "\",\"logStreamName\":\"s\",\"logEvents\":" ++
    "[\x7b\"timestamp\":5,\"message\":\"a\"\x7d]\x7d")

/-- The first start on an empty log. -/
def bootService : List ServiceLabel := started.map .buffers

/-- The buffers take the batch of a call. -/
def takenIn (id : Nat) : List ServiceLabel :=
  [.buffers (.act id (.reserve [])), .buffers (.act id (.append [] [io "u1"] none)),
    .buffers (.act id .flushed)]

end Concrete

/-! ## Answers -/

/-- How a batch is answered, by what is done with it, what the buffers replied and what
CloudWatch was called for by then. Where the buffers have a batch, a call that fails does not
fail the request. -/
def PutAnswered (call : Forward) (replies : List (Option BufferError))
    (forwards delivered : List Forward) (res : Answer) : RouteAction → Prop
  | .drop => replies = [] ∧ forwards = [] ∧ res = .ok .empty
  | .s3 => forwards = [] ∧ (replies = [none] ∧ res = .ok .empty ∨
      ∃ e, replies = [some e] ∧ res = .error (GatewayApp.refused e))
  | .cloudwatch => replies = [] ∧ forwards = [call] ∧ (res = .ok .empty ∧ delivered = [call] ∨
      res = .error .passthroughFailed ∧ delivered = [])
  | .both => replies = [none] ∧ forwards = [call] ∧ res = .ok .empty ∨
      ∃ e, replies = [some e] ∧ forwards = [] ∧ res = .error (GatewayApp.refused e)

/-- How any other request is answered: where it is not an error, what CloudWatch is to be
called for was called. -/
def OtherAnswered (owed : Option (Forward × Bool)) (forwards : List Forward) : Answer → Prop
  | .ok _ => forwards = (owed.map Prod.fst).toList
  | .error _ => forwards = []

/-- What an answer says of the request it is for. -/
def Answered.Of (app : GatewayApp) (a : Answered) (r : Received)
    (replies : List (Option BufferError)) (forwards delivered : List Forward) : Prop :=
  match a.request with
  | none => replies = [] ∧ forwards = [] ∧
      ∃ e, app.accept r.view r.clock.nowNs = .error e ∧ a.res = .error e
  | some (.putLogEvents put) => app.accept r.view r.clock.nowNs = .ok (.putLogEvents put) ∧
      PutAnswered put.forward replies forwards delivered a.res (put.action app)
  | some req => app.accept r.view r.clock.nowNs = .ok req ∧ replies = [] ∧
      OtherAnswered (req.owes app) forwards a.res

/-- A run of the service from the first start. -/
abbrev Service.Runs (app : GatewayApp) (s : Service) : Prop :=
  LTS.Reaches (serviceStep app) (fun _ _ => True) .start s

theorem Service.Runs.lives (run : s.Runs app) : s.Lives app :=
  run.invariant Service.start_lives fun _ _ _ h _ hstep => h.step hstep

namespace Life

variable {rs : List Received} {hs : List Handler} {bs : List (Option BufferError)}
variable {fs ds : List Forward} {as : List Answered}

theorem forwards_at_most (h : Life app rs hs bs fs ds as) : fs.length ≤ 1 := by
  cases h <;> simp only [List.length_nil, List.length_singleton, Nat.zero_le, Nat.le_refl]

/-- A call of CloudWatch is one that the request owes. -/
theorem forwards_of (h : Life app rs hs bs fs ds as) {call : Forward} (hcall : call ∈ fs) :
    ∃ r req must, r ∈ rs ∧ app.accept r.view r.clock.nowNs = .ok req ∧
      req.owes app = some (call, must) := by
  cases h with
  | unknown => cases hcall
  | rejected => cases hcall
  | answered => cases hcall
  | pushing => cases hcall
  | refused => cases hcall
  | took => cases hcall
  | gone => cases hcall
  | @calling r req call' must haccept howes =>
    obtain rfl := List.mem_singleton.mp hcall
    exact ⟨r, req, must, List.mem_singleton_self r, haccept, howes⟩
  | @called r req call' must ok haccept howes =>
    obtain rfl := List.mem_singleton.mp hcall
    exact ⟨r, req, must, List.mem_singleton_self r, haccept, howes⟩
  | @goneCalling r req call' must haccept howes =>
    obtain rfl := List.mem_singleton.mp hcall
    exact ⟨r, req, must, List.mem_singleton_self r, haccept, howes⟩

/-- CloudWatch says well only of what it was called for. -/
theorem delivered_sub (h : Life app rs hs bs fs ds as) : ds ⊆ fs := by
  cases h with
  | called ok =>
    cases ok with
    | true => exact List.Subset.refl _
    | false => exact List.nil_subset _
  | unknown => exact List.nil_subset _
  | rejected => exact List.nil_subset _
  | answered => exact List.nil_subset _
  | pushing => exact List.nil_subset _
  | refused => exact List.nil_subset _
  | took => exact List.nil_subset _
  | calling => exact List.nil_subset _
  | gone => exact List.nil_subset _
  | goneCalling => exact List.nil_subset _

/-- A request is not answered well before CloudWatch was called for it, and where the call
matters answered well. -/
theorem forwards_complete (h : Life app rs hs bs fs ds as) {req : ApiRequest} {body : AnswerBody}
    {call : Forward} {must : Bool} (ha : (⟨some req, .ok body⟩ : Answered) ∈ as)
    (howes : req.owes app = some (call, must)) : call ∈ fs ∧ (must = true → call ∈ ds) := by
  cases h with
  | unknown => cases ha
  | pushing => cases ha
  | calling => cases ha
  | gone => cases ha
  | goneCalling => cases ha
  | rejected => cases List.mem_singleton.mp ha
  | answered _ hhandles =>
    cases List.mem_singleton.mp ha
    cases hhandles with
    | answered _ hnone =>
      rw [hnone body rfl] at howes
      cases howes
  | refused => cases List.mem_singleton.mp ha
  | took _ haction =>
    cases List.mem_singleton.mp ha
    rw [ApiRequest.owes, haction] at howes
    cases howes
  | @called r req' call' must' ok _ howes' =>
    have heq := List.mem_singleton.mp ha
    rw [Answered.mk.injEq, Option.some_inj] at heq
    obtain ⟨rfl, hres⟩ := heq
    obtain ⟨rfl, rfl⟩ := Prod.mk.inj (Option.some.inj (howes.symm.trans howes'))
    refine ⟨List.mem_singleton_self call, fun hmust => ?_⟩
    cases ok with
    | true => exact List.mem_singleton_self call
    | false =>
      rw [hmust] at hres
      cases hres

end Life

/-- CloudWatch is called once at most for a request that was let in, with what the request owes,
and no request that owes a call is answered well without it. -/
theorem cloudwatch_called_once (app : GatewayApp) {s : Service} (run : s.Runs app) :
    (Assoc.keys s.forwards).Nodup ∧ s.delivered ⊆ s.forwards ∧
      (∀ id call, (id, call) ∈ s.forwards → ∃ r req must, (id, r) ∈ s.received ∧
        app.accept r.view r.clock.nowNs = .ok req ∧ req.owes app = some (call, must)) ∧
      ∀ id req body call must, (id, ⟨some req, .ok body⟩) ∈ s.answers →
        req.owes app = some (call, must) →
          (id, call) ∈ s.forwards ∧ (must = true → (id, call) ∈ s.delivered) := by
  have hlives := run.lives
  refine ⟨Assoc.nodup_of_valuesOf fun id => (hlives id).forwards_at_most, fun e he => ?_,
    fun id call hcall => ?_, fun id req body call must ha howes => ?_⟩
  · exact Assoc.mem_valuesOf.mp ((hlives e.1).delivered_sub (Assoc.mem_valuesOf.mpr he))
  · obtain ⟨r, req, must, hr, haccept, howes⟩ :=
      (hlives id).forwards_of (Assoc.mem_valuesOf.mpr hcall)
    exact ⟨r, req, must, Assoc.mem_valuesOf.mp hr, haccept, howes⟩
  · obtain ⟨hcall, hdelivered⟩ := (hlives id).forwards_complete (Assoc.mem_valuesOf.mpr ha) howes
    exact ⟨Assoc.mem_valuesOf.mp hcall, fun hmust => Assoc.mem_valuesOf.mp (hdelivered hmust)⟩

open Concrete in
/-- A group is created, and a batch goes to CloudWatch. -/
theorem cloudwatch_called_once_create : ∃ s : Service, s.delivered.length = 2 ∧
    (Assoc.keys s.forwards).Nodup ∧ s.delivered ⊆ s.forwards ∧
      (∀ id call, (id, call) ∈ s.forwards → ∃ r req must, (id, r) ∈ s.received ∧
        openService.accept r.view r.clock.nowNs = .ok req ∧
        req.owes openService = some (call, must)) ∧
      ∀ id req body call must, (id, ⟨some req, .ok body⟩) ∈ s.answers →
        req.owes openService = some (call, must) →
          (id, call) ∈ s.forwards ∧ (must = true → (id, call) ∈ s.delivered) := by
  obtain ⟨s, hreach, hcheck⟩ := LTS.replay_spec (by decide +kernel :
    LTS.replay (serviceStep openService) (fun _ _ => True) .start
      (bootService ++
        [.request 1 (post "CreateLogGroup" "\x7b\"logGroupName\":\"/aws\"\x7d") noon,
          .request 2 (postOne "/aws") noon, .forwarded 2 true, .forwarded 1 true])
      (fun s => s.delivered.length == 2) = true)
  exact ⟨s, eq_of_beq hcheck, cloudwatch_called_once openService hreach⟩

end S4Logs

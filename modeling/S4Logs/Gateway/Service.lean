import S4Logs.Gateway.Handlers
import S4Logs.Gateway.Machine

/-!
# The gateway as a service

Requests come in at any time and their handlers interleave. A handler first does what it can
without waiting; then it may wait for the buffers, which go on as `gatewayStep` says, and then
for CloudWatch. A client that goes away takes its handler with it. A crash takes them all, and
the registry.

Nothing reads the records of what came in, what the buffers replied, what CloudWatch was
called for, which of these calls it answered well, and what was answered to the clients.
-/

namespace S4Logs

/-- A call of CloudWatch. -/
inductive Forward where
  | putLogEvents (logGroup logStream : String) (events : List InputLogEvent)
  | createLogGroup (logGroup : String)
  | createLogStream (logGroup logStream : String)
deriving DecidableEq

/-- What a handler waits for. `must` is whether it fails where the call of CloudWatch does. -/
inductive Waiting where
  | buffers (req : PutLogEventsRequest) (action : RouteAction)
  | cloudwatch (call : Forward) (must : Bool)
deriving DecidableEq

/-- A handler that waits, and the request it is for. -/
structure Handler where
  request : ApiRequest
  waits : Waiting

structure Received where
  view : RequestView
  clock : HandlerClock

/-- An answer, and the request if it was let in. -/
structure Answered where
  request : Option ApiRequest
  res : Answer

structure Service where
  gateway : Gateway
  registry : Registry
  handlers : List (Nat × Handler)
  received : List (Nat × Received)
  replies : List (Nat × Option BufferError)
  forwards : List (Nat × Forward)
  delivered : List (Nat × Forward)
  answers : List (Nat × Answered)

/-- Before the first start. -/
def Service.start : Service where
  gateway := .start
  registry := ⟨.empty⟩
  handlers := []
  received := []
  replies := []
  forwards := []
  delivered := []
  answers := []

inductive ServiceLabel where
  | request (id : Nat) (view : RequestView) (clock : HandlerClock)
  | buffers (l : GatewayLabel)
  | pushed (id : Nat)
  | forwarded (id : Nat) (ok : Bool)
  | disconnect (id : Nat) (landed : Bool)

namespace PutLogEventsRequest

/-- The call of CloudWatch with the batch. -/
def forward (req : PutLogEventsRequest) : Forward :=
  .putLogEvents req.logGroupName req.logStreamName req.logEvents

/-- The call of the buffers with the batch. -/
def origin (req : PutLogEventsRequest) : Origin :=
  .push req.logGroupName req.logStreamName req.logEvents

end PutLogEventsRequest

namespace Service

variable (s : Service)

def answer (id : Nat) (request : Option ApiRequest) (res : Answer) : Service :=
  { s with answers := s.answers ++ [(id, ⟨request, res⟩)] }

/-- The handler calls CloudWatch and waits. -/
def call (id : Nat) (request : ApiRequest) (call : Forward) (must : Bool) : Service :=
  { s with
      handlers := s.handlers ++ [(id, ⟨request, .cloudwatch call must⟩)]
      forwards := s.forwards ++ [(id, call)] }

/-- The id is new, for the handlers and for the calls of the buffers. -/
def Fresh (id : Nat) : Prop :=
  id ∉ Assoc.keys s.received ∧ id ∉ Assoc.keys s.gateway.calls

instance (id : Nat) : Decidable (s.Fresh id) := inferInstanceAs (Decidable (_ ∧ _))

/-- The requests that wait for the buffers. -/
def pushing : List Nat :=
  s.handlers.filterMap fun h =>
    match h.2.waits with
    | .buffers _ _ => some h.1
    | .cloudwatch _ _ => none

/-- The process is gone, and with it what it kept in memory. -/
def exited (g : Gateway) : Service :=
  { s with
      gateway := g
      registry := ⟨.empty⟩
      handlers := [] }

variable (app : GatewayApp)

/-- The handler of a request goes on to its first await. -/
def handled (id : Nat) (request : ApiRequest) : Handled → Option Service
  | .answer res => some (s.answer id (some request) res)
  | .push req action =>
    (gatewayStep app.buffers s.gateway (.call id req.origin)).map fun g =>
      { s with
          gateway := g
          handlers := s.handlers ++ [(id, ⟨request, .buffers req action⟩)] }
  | .forward req => some (s.call id request req.forward true)
  | .createGroup logGroup => some (s.call id request (.createLogGroup logGroup) false)
  | .createStream logGroup stream =>
    some (s.call id request (.createLogStream logGroup stream) false)

/-- A request comes in. -/
def receive (id : Nat) (view : RequestView) (clock : HandlerClock) : Option Service :=
  let s : Service := { s with received := s.received ++ [(id, ⟨view, clock⟩)] }
  match app.accept view clock.nowNs with
  | .error e => some (s.answer id none (.error e))
  | .ok req =>
    let (registry, left) := app.handle s.registry clock req
    Service.handled { s with registry := registry } app id req left

/-- The buffers reply to a handler. -/
def replied (id : Nat) (res : Option BufferError) : Service :=
  { s with replies := s.replies ++ [(id, res)] }

/-- The handler goes on once the buffers have replied. -/
def pushed (id : Nat) (h : Handler) (req : PutLogEventsRequest) (action : RouteAction) :
    Option BufferError → Service
  | some e => s.answer id (some h.request) (.error (GatewayApp.refused e))
  | none =>
    if action.toCloudwatch then s.call id h.request req.forward (!action.toS3)
    else s.answer id (some h.request) (.ok .empty)

/-- The handler goes on once CloudWatch has answered. -/
def forwarded (id : Nat) (h : Handler) (call : Forward) (must ok : Bool) : Service :=
  if ok then
    Service.answer { s with delivered := s.delivered ++ [(id, call)] } id (some h.request)
      (.ok .empty)
  else if must then
    s.answer id (some h.request)
      (.error (.serviceUnavailable "cloudwatch passthrough failed; retry the batch"))
  else s.answer id (some h.request) (.ok .empty)

end Service

/-- The labels of the buffers that no request takes part in. -/
def GatewayLabel.alone (pushing : List Nat) : GatewayLabel → Bool
  | .call _ (.push _ _ _) => false
  | .reply id => !pushing.contains id
  | .drop _ _ => false
  | _ => true

def serviceStep (app : GatewayApp) (s : Service) : ServiceLabel → Option Service
  | .request id view clock =>
    if s.gateway.mode = .serving ∧ s.Fresh id then s.receive app id view clock else none
  | .buffers l =>
    if l.alone s.pushing then
      (gatewayStep app.buffers s.gateway l).map fun g =>
        if g.mode = .down then s.exited g else { s with gateway := g }
    else none
  | .pushed id =>
    match Assoc.remove id s.handlers, Assoc.get? id s.gateway.calls with
    | some (h, handlers), some c =>
      match h.waits, c.phase with
      | .buffers req action, .done res =>
        (gatewayStep app.buffers s.gateway (.reply id)).map fun g =>
          let s : Service := { s with gateway := g, handlers := handlers }
          (s.replied id res).pushed id h req action res
      | _, _ => none
    | _, _ => none
  | .forwarded id ok =>
    match Assoc.remove id s.handlers with
    | some (h, handlers) =>
      match h.waits with
      | .buffers _ _ => none
      | .cloudwatch call must =>
        some (Service.forwarded { s with handlers := handlers } id h call must ok)
    | none => none
  | .disconnect id landed =>
    match Assoc.remove id s.handlers with
    | some (h, handlers) =>
      match h.waits with
      | .buffers _ _ =>
        (gatewayStep app.buffers s.gateway (.drop id landed)).map fun g =>
          { s with gateway := g, handlers := handlers }
      | .cloudwatch _ _ => some { s with handlers := handlers }
    | none => none

end S4Logs

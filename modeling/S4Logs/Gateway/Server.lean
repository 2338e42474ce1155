import S4Logs.Gateway.Service

/-!
# The server

`serve_listener` replays the log, serves until it is asked to stop, lets the requests under way
finish, stops the sweeper between two sweeps, flushes all buffers and returns what came of it.
The sweeper is one task, so it makes one sweep after the other; where a tick and the stop are
there together, it may take either. A sweeper that panics is left out.
-/

namespace S4Logs

inductive GatewayError where
  | io
  | flush (e : BufferError)
  | walReplay (e : BufferError)
deriving DecidableEq

/-- How far the server is, and how `axum::serve` ended once it has. -/
inductive ServerPhase where
  | replaying
  | serving
  | draining
  | stopping (served : Bool)
  | flushing (served : Bool) (id : Nat)
  | returned (res : Except GatewayError Unit)
deriving DecidableEq

namespace ServerPhase

/-- Connections are open. -/
def accepts : ServerPhase → Bool
  | .serving => true
  | .draining => true
  | _ => false

/-- The sweeper may begin a sweep. -/
def sweeps : ServerPhase → Bool
  | .serving => true
  | .draining => true
  | .stopping _ => true
  | _ => false

/-- What may happen besides what the server itself does: the handlers go on while connections
are open, and the calls of the buffers until the server returns. -/
def lets (phase : ServerPhase) : ServiceLabel → Bool
  | .buffers (.act _ _) =>
    match phase with
    | .returned _ => false
    | _ => true
  | .buffers _ => false
  | _ => phase.accepts

end ServerPhase

/-- The service, the call of the sweep under way, and how far the server is. -/
structure Server where
  service : Service
  sweep : Option Nat
  phase : ServerPhase

/-- What the server does next, or the service. `served` is the end of `axum::serve`. -/
inductive ServerLabel where
  | service (l : ServiceLabel)
  | replayed
  | tick (id : Nat)
  | swept
  | shutdown
  | served (ok : Bool)
  | flush (id : Nat)
  | flushed

/-- What is returned at the end. How serving ended comes first. -/
def shutdownResult (served : Bool) (flushed : Option BufferError) : Except GatewayError Unit :=
  if served = false then .error .io
  else
    match flushed with
    | none => .ok ()
    | some e => .error (.flush e)

/-- A process starts on what earlier ones left. -/
def Server.boot (app : GatewayApp) (s : Service) : Option Server :=
  (serviceStep app s (.buffers .boot)).map fun service => ⟨service, none, .replaying⟩

def serverStep (app : GatewayApp) (s : Server) : ServerLabel → Option Server
  | .service l =>
    if s.phase.lets l then
      (serviceStep app s.service l).map fun service => { s with service := service }
    else none
  | .replayed =>
    match s.phase, Assoc.get? 0 s.service.gateway.calls with
    | .replaying, some ⟨.replay, .done err⟩ =>
      (serviceStep app s.service (.buffers (.reply 0))).map fun service => { s with
        service := service
        phase := match err with
          | none => .serving
          | some e => .returned (.error (.walReplay e)) }
    | _, _ => none
  | .tick id =>
    if s.sweep = none ∧ s.phase.sweeps = true then
      (serviceStep app s.service (.buffers (.call id .sweep))).map fun service => { s with
        service := service
        sweep := some id }
    else none
  | .swept =>
    match s.sweep with
    | none => none
    | some id =>
      (serviceStep app s.service (.buffers (.reply id))).map fun service => { s with
        service := service
        sweep := none }
  | .shutdown => if s.phase = .serving then some { s with phase := .draining } else none
  | .served ok =>
    if s.phase = .draining ∧ s.service.handlers.isEmpty = true then
      some { s with phase := .stopping ok }
    else none
  | .flush id =>
    match s.phase with
    | .stopping served =>
      if s.sweep = none then
        (serviceStep app s.service (.buffers (.call id .flushAll))).map fun service => { s with
          service := service
          phase := .flushing served id }
      else none
    | _ => none
  | .flushed =>
    match s.phase with
    | .flushing served id =>
      match Assoc.get? id s.service.gateway.calls with
      | some ⟨_, .done err⟩ =>
        (serviceStep app s.service (.buffers (.reply id))).map fun service => { s with
          service := service
          phase := .returned (shutdownResult served err) }
      | _ => none
    | _ => none

end S4Logs

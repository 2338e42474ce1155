import S4Logs.Gateway.Service
import S4Logs.Laws.Gateway.Machine
import S4Logs.Lib.Simulation

/-!
# The life of a request

`ServiceMove` lists what a label does to the service. It touches one request, or goes on with
the buffers alone, or ends the process, so what the service keeps under one id is at every
moment one of the lives that `Life` lists: a request is answered once at most, and CloudWatch
is called for it once at most, with what it owes.

The calls of the buffers that push are those of the handlers that wait for them (`Linked`).
Seen from the buffers, a run of the service is a run of the gateway.
-/

namespace S4Logs

variable {app : GatewayApp} {s t : Service}

/-! ## What a request comes to -/

/-- What is done with the batch of a request. -/
def PutLogEventsRequest.action (app : GatewayApp) (req : PutLogEventsRequest) : RouteAction :=
  app.routing.route req.logGroupName req.logStreamName

theorem RouteAction.eq_s3 {action : RouteAction} (htoS3 : action.toS3 = true)
    (hcloudwatch : action.toCloudwatch = false) : action = .s3 := by
  cases action <;> first | rfl | contradiction

namespace ApiRequest

/-- What CloudWatch is called for where nothing fails before, and whether the request fails
with the call. -/
def owes (app : GatewayApp) : ApiRequest → Option (Forward × Bool)
  | .putLogEvents req =>
    if (req.action app).toCloudwatch then some (req.forward, !(req.action app).toS3) else none
  | .createLogGroup req =>
    if app.routing.groupMayReachCloudwatch req.logGroupName then
      some (.createLogGroup req.logGroupName, false)
    else none
  | .createLogStream req =>
    if (app.routing.route req.logGroupName req.logStreamName).toCloudwatch then
      some (.createLogStream req.logGroupName req.logStreamName, false)
    else none
  | .describeLogGroups _ => none
  | .describeLogStreams _ => none

/-- The calls of the buffers, one at most. -/
def pushes (app : GatewayApp) : ApiRequest → List Origin
  | .putLogEvents req => if (req.action app).toS3 then [req.origin] else []
  | _ => []

end ApiRequest

/-- What is answered where the call of CloudWatch fails, and the request with it. -/
def ApiError.passthroughFailed : ApiError :=
  .serviceUnavailable "cloudwatch passthrough failed; retry the batch"

/-- What a request that is let in leaves its handler to do. -/
inductive Handles (app : GatewayApp) : ApiRequest → Handled → Prop
  | answered {req : ApiRequest} {res : Answer} :
      (∀ put, req = .putLogEvents put → put.action app = .drop ∧ res = .ok .empty) →
      (∀ body, res = .ok body → req.owes app = none) → Handles app req (.answer res)
  | pushes {put : PutLogEventsRequest} : (put.action app).toS3 = true →
      Handles app (.putLogEvents put) (.push put (put.action app))
  | forwards {put : PutLogEventsRequest} : put.action app = .cloudwatch →
      Handles app (.putLogEvents put) (.forward put)
  | createsGroup {req : CreateLogGroupRequest} :
      app.routing.groupMayReachCloudwatch req.logGroupName = true →
      Handles app (.createLogGroup req) (.createGroup req.logGroupName)
  | createsStream {req : CreateLogStreamRequest} :
      (app.routing.route req.logGroupName req.logStreamName).toCloudwatch = true →
      Handles app (.createLogStream req) (.createStream req.logGroupName req.logStreamName)

theorem handle_handles (registry : Registry) (clock : HandlerClock) (req : ApiRequest) :
    Handles app req (app.handle registry clock req).2 := by
  cases req with
  | putLogEvents put =>
    simp only [GatewayApp.handle]
    cases haction : app.routing.route put.logGroupName put.logStreamName with
    | s3 =>
      have h : Handles app (.putLogEvents put) (.push put (put.action app)) := .pushes (by
        rw [PutLogEventsRequest.action, haction]
        rfl)
      rw [PutLogEventsRequest.action, haction] at h
      exact h
    | both =>
      have h : Handles app (.putLogEvents put) (.push put (put.action app)) := .pushes (by
        rw [PutLogEventsRequest.action, haction]
        rfl)
      rw [PutLogEventsRequest.action, haction] at h
      exact h
    | cloudwatch => exact .forwards haction
    | drop =>
      refine .answered (fun put' heq => ?_) fun body _ => ?_
      · cases heq
        exact ⟨haction, rfl⟩
      · simp only [ApiRequest.owes, PutLogEventsRequest.action, haction, RouteAction.toCloudwatch,
          Bool.false_eq_true, if_false]
  | createLogGroup req =>
    simp only [GatewayApp.handle]
    cases registry.createGroup req.logGroupName clock.groupNowMs with
    | error e => cases e <;> exact .answered (fun _ h => by cases h) fun _ h => by cases h
    | ok registry =>
      dsimp only
      split
      next h => exact .createsGroup h
      next h => exact .answered (fun _ h => by cases h) fun _ _ => if_neg h
  | createLogStream req =>
    simp only [GatewayApp.handle]
    cases registry.createStream req.logGroupName req.logStreamName clock.streamNowMs with
    | error e => cases e <;> exact .answered (fun _ h => by cases h) fun _ h => by cases h
    | ok registry =>
      dsimp only
      split
      next h => exact .createsStream h
      next h => exact .answered (fun _ h => by cases h) fun _ _ => if_neg h
  | describeLogGroups => exact .answered (fun _ h => by cases h) fun _ _ => rfl
  | describeLogStreams => exact .answered (fun _ h => by cases h) fun _ _ => rfl

theorem Handles.pushes_eq_nil {req : ApiRequest} {res : Answer}
    (h : Handles app req (.answer res)) : req.pushes app = [] := by
  cases h with
  | answered hput _ =>
    cases req with
    | putLogEvents put =>
      rw [ApiRequest.pushes, (hput put rfl).1]
      rfl
    | createLogGroup => rfl
    | createLogStream => rfl
    | describeLogGroups => rfl
    | describeLogStreams => rfl

/-! ## Moves -/

/-- A request is noted, and the registry is as its handler left it. -/
def Service.noted (s : Service) (id : Nat) (r : Received) (registry : Registry) : Service :=
  { s with
      received := s.received ++ [(id, r)]
      registry := registry }

/-- What a label does. -/
inductive ServiceMove (app : GatewayApp) (s : Service) : ServiceLabel → Service → Prop
  | rejected {id : Nat} {r : Received} {e : ApiError} : s.Fresh id →
      app.accept r.view r.clock.nowNs = .error e →
      ServiceMove app s (.request id r.view r.clock)
        ((s.noted id r s.registry).answer id none (.error e))
  | answered {id : Nat} {r : Received} {req : ApiRequest} {registry : Registry} {res : Answer} :
      s.Fresh id → app.accept r.view r.clock.nowNs = .ok req →
      (app.handle s.registry r.clock req).1 = registry → Handles app req (.answer res) →
      ServiceMove app s (.request id r.view r.clock)
        ((s.noted id r registry).answer id (some req) res)
  | pushes {id : Nat} {r : Received} {put : PutLogEventsRequest} {registry : Registry}
      {g : Gateway} : s.gateway.mode = .serving → s.Fresh id →
      app.accept r.view r.clock.nowNs = .ok (.putLogEvents put) →
      (app.handle s.registry r.clock (.putLogEvents put)).1 = registry →
      (put.action app).toS3 = true →
      gatewayStep app.buffers s.gateway (.call id put.origin) = some g →
      ServiceMove app s (.request id r.view r.clock) { s.noted id r registry with
        gateway := g
        handlers := s.handlers ++ [(id, ⟨.putLogEvents put, .buffers put (put.action app)⟩)] }
  | calls {id : Nat} {r : Received} {req : ApiRequest} {registry : Registry} {call : Forward}
      {must : Bool} : s.gateway.mode = .serving → s.Fresh id →
      app.accept r.view r.clock.nowNs = .ok req →
      (app.handle s.registry r.clock req).1 = registry → req.owes app = some (call, must) →
      req.pushes app = [] → ServiceMove app s (.request id r.view r.clock)
        ((s.noted id r registry).call id req call must)
  | alone {l : GatewayLabel} {g : Gateway} : l.alone s.pushing = true →
      gatewayStep app.buffers s.gateway l = some g → g.mode ≠ .down →
      ServiceMove app s (.buffers l) { s with gateway := g }
  | exits {l : GatewayLabel} {g : Gateway} : l.alone s.pushing = true →
      gatewayStep app.buffers s.gateway l = some g → g.mode = .down →
      ServiceMove app s (.buffers l) (s.exited g)
  | refused {id : Nat} {request : ApiRequest} {put : PutLogEventsRequest} {action : RouteAction}
      {handlers : List (Nat × Handler)} {c : Call} {e : BufferError} {g : Gateway} :
      Assoc.remove id s.handlers = some (⟨request, .buffers put action⟩, handlers) →
      Assoc.get? id s.gateway.calls = some c → c.phase = .done (some e) →
      gatewayStep app.buffers s.gateway (.reply id) = some g →
      ServiceMove app s (.pushed id)
        (Service.answer (Service.replied { s with gateway := g, handlers := handlers } id (some e))
          id (some request) (.error (GatewayApp.refused e)))
  | took {id : Nat} {request : ApiRequest} {put : PutLogEventsRequest} {action : RouteAction}
      {handlers : List (Nat × Handler)} {c : Call} {g : Gateway} :
      Assoc.remove id s.handlers = some (⟨request, .buffers put action⟩, handlers) →
      Assoc.get? id s.gateway.calls = some c → c.phase = .done none →
      gatewayStep app.buffers s.gateway (.reply id) = some g → action.toCloudwatch = false →
      ServiceMove app s (.pushed id)
        (Service.answer (Service.replied { s with gateway := g, handlers := handlers } id none)
          id (some request) (.ok .empty))
  | goesOn {id : Nat} {request : ApiRequest} {put : PutLogEventsRequest} {action : RouteAction}
      {handlers : List (Nat × Handler)} {c : Call} {g : Gateway} :
      Assoc.remove id s.handlers = some (⟨request, .buffers put action⟩, handlers) →
      Assoc.get? id s.gateway.calls = some c → c.phase = .done none →
      gatewayStep app.buffers s.gateway (.reply id) = some g → action.toCloudwatch = true →
      ServiceMove app s (.pushed id)
        (Service.call (Service.replied { s with gateway := g, handlers := handlers } id none)
          id request put.forward (!action.toS3))
  | forwarded {id : Nat} {request : ApiRequest} {call : Forward} {must ok : Bool}
      {handlers : List (Nat × Handler)} :
      Assoc.remove id s.handlers = some (⟨request, .cloudwatch call must⟩, handlers) →
      ServiceMove app s (.forwarded id ok) (Service.answer { s with
        handlers := handlers
        delivered := s.delivered ++ if ok then [(id, call)] else [] } id (some request)
          (if ok || !must then .ok .empty else .error .passthroughFailed))
  | leaves {id : Nat} {landed : Bool} {request : ApiRequest} {put : PutLogEventsRequest}
      {action : RouteAction} {handlers : List (Nat × Handler)} {g : Gateway} :
      Assoc.remove id s.handlers = some (⟨request, .buffers put action⟩, handlers) →
      gatewayStep app.buffers s.gateway (.drop id landed) = some g →
      ServiceMove app s (.disconnect id landed) { s with gateway := g, handlers := handlers }
  | leavesCloudwatch {id : Nat} {landed : Bool} {request : ApiRequest} {call : Forward}
      {must : Bool} {handlers : List (Nat × Handler)} :
      Assoc.remove id s.handlers = some (⟨request, .cloudwatch call must⟩, handlers) →
      ServiceMove app s (.disconnect id landed) { s with handlers := handlers }

/-- The step function of the service does what the moves list. -/
theorem serviceStep_move {l : ServiceLabel} (h : serviceStep app s l = some t) :
    ServiceMove app s l t := by
  cases l with
  | request id view clock =>
    simp only [serviceStep] at h
    split at h
    next hc =>
      simp only [Service.receive] at h
      split at h
      next e haccept =>
        cases h
        exact .rejected (r := ⟨view, clock⟩) hc.2 haccept
      next req haccept =>
        have hhandles : Handles app req (app.handle s.registry clock req).2 :=
          handle_handles s.registry clock req
        cases hhandled : app.handle s.registry clock req with
        | mk registry left =>
          have hregistry : (app.handle s.registry clock req).1 = registry := by rw [hhandled]
          rw [hhandled] at h hhandles
          dsimp only at h hhandles
          cases hhandles with
          | answered hput howes =>
            cases h
            exact .answered (r := ⟨view, clock⟩) hc.2 haccept hregistry (.answered hput howes)
          | pushes htoS3 =>
            obtain ⟨g, hg, rfl⟩ := Option.map_eq_some_iff.mp h
            exact .pushes (r := ⟨view, clock⟩) hc.1 hc.2 haccept hregistry htoS3 hg
          | forwards haction =>
            cases h
            refine .calls (r := ⟨view, clock⟩) hc.1 hc.2 haccept hregistry ?_ ?_
            · rw [ApiRequest.owes, haction]
              rfl
            · rw [ApiRequest.pushes, haction]
              rfl
          | createsGroup hmay =>
            cases h
            exact .calls (r := ⟨view, clock⟩) hc.1 hc.2 haccept hregistry (if_pos hmay) rfl
          | createsStream hroute =>
            cases h
            exact .calls (r := ⟨view, clock⟩) hc.1 hc.2 haccept hregistry (if_pos hroute) rfl
    next => cases h
  | buffers l =>
    simp only [serviceStep] at h
    split at h
    next halone =>
      obtain ⟨g, hg, rfl⟩ := Option.map_eq_some_iff.mp h
      split
      next hdown => exact .exits halone hg hdown
      next hup => exact .alone halone hg hup
    next => cases h
  | pushed id =>
    simp only [serviceStep] at h
    split at h
    next handler handlers c hremove hget =>
      obtain ⟨request, waits⟩ := handler
      split at h
      next put action res hwaits hphase =>
        obtain rfl : waits = .buffers put action := hwaits
        obtain ⟨g, hg, rfl⟩ := Option.map_eq_some_iff.mp h
        unfold Service.pushed
        split
        next e => exact .refused hremove hget hphase hg
        next =>
          split
          next hcloudwatch => exact .goesOn hremove hget hphase hg hcloudwatch
          next hcloudwatch =>
            exact .took hremove hget hphase hg (Bool.eq_false_iff.mpr hcloudwatch)
      next => cases h
    next => cases h
  | forwarded id ok =>
    simp only [serviceStep] at h
    split at h
    next handler handlers hremove =>
      obtain ⟨request, waits⟩ := handler
      cases waits with
      | buffers => cases h
      | cloudwatch call must =>
        cases h
        have hmove : ServiceMove app s (.forwarded id ok) _ := .forwarded hremove
        cases ok with
        | true => exact hmove
        | false =>
          rw [if_neg Bool.false_ne_true, List.append_nil] at hmove
          cases must with
          | true => exact hmove
          | false => exact hmove
    next => cases h
  | disconnect id landed =>
    simp only [serviceStep] at h
    split at h
    next handler handlers hremove =>
      obtain ⟨request, waits⟩ := handler
      cases waits with
      | buffers put action =>
        obtain ⟨g, hg, rfl⟩ := Option.map_eq_some_iff.mp h
        exact .leaves hremove hg
      | cloudwatch call must =>
        cases h
        exact .leavesCloudwatch hremove
    next => cases h

/-! ## The buffers of a service -/

/-- What is asked of the buffers, in a run of the service. -/
def OnBuffers (ok : Gateway → GatewayLabel → Prop) (s : Service) : ServiceLabel → Prop
  | .buffers l => ok s.gateway l
  | _ => True

/-- What the buffers see of a label. -/
def Service.seenByBuffers (app : GatewayApp) (s : Service) : ServiceLabel → List GatewayLabel
  | .request id view clock =>
    match app.accept view clock.nowNs with
    | .ok req => (req.pushes app).map (.call id)
    | .error _ => []
  | .buffers l => [l]
  | .pushed id => [.reply id]
  | .forwarded _ _ => []
  | .disconnect id landed =>
    match (Assoc.get? id s.handlers).map Handler.waits with
    | some (.buffers _ _) => [.drop id landed]
    | _ => []

/-- Seen from the buffers, the service is a gateway. -/
theorem service_projects (app : GatewayApp) {ok : Gateway → GatewayLabel → Prop}
    (hcall : ∀ g id origin, ok g (.call id origin)) (hreply : ∀ g id, ok g (.reply id))
    (hdrop : ∀ g id landed, ok g (.drop id landed)) :
    LTS.Projects (serviceStep app) (OnBuffers ok) (gatewayStep app.buffers) ok
      (Service.seenByBuffers app) fun s g => s.gateway = g := by
  rintro s l t _ rfl hok hstep
  have hwaits {id : Nat} {h : Handler} {handlers : List (Nat × Handler)}
      (hremove : Assoc.remove id s.handlers = some (h, handlers)) :
      (Assoc.get? id s.handlers).map Handler.waits = some h.waits := by
    rw [Assoc.get?_eq_some.mpr ⟨handlers, hremove⟩, Option.map_some]
  cases serviceStep_move hstep with
  | rejected _ haccept =>
    refine LTS.Along.still ?_ rfl
    simp only [Service.seenByBuffers, haccept]
  | answered _ haccept _ hhandles =>
    refine LTS.Along.still ?_ rfl
    simp only [Service.seenByBuffers, haccept, hhandles.pushes_eq_nil, List.map_nil]
  | pushes _ _ haccept _ htoS3 hg =>
    refine LTS.Along.one ?_ (hcall _ _ _) hg rfl
    simp only [Service.seenByBuffers, haccept, ApiRequest.pushes, htoS3, if_true, List.map_singleton]
  | calls _ _ haccept _ _ hpushes =>
    refine LTS.Along.still ?_ rfl
    simp only [Service.seenByBuffers, haccept, hpushes, List.map_nil]
  | alone _ hg _ => exact LTS.Along.one rfl hok hg rfl
  | exits _ hg _ => exact LTS.Along.one rfl hok hg rfl
  | refused _ _ _ hg => exact LTS.Along.one rfl (hreply _ _) hg rfl
  | took _ _ _ hg _ => exact LTS.Along.one rfl (hreply _ _) hg rfl
  | goesOn _ _ _ hg _ => exact LTS.Along.one rfl (hreply _ _) hg rfl
  | forwarded _ => exact LTS.Along.still rfl rfl
  | leaves hremove hg =>
    refine LTS.Along.one ?_ (hdrop _ _ _) hg rfl
    simp only [Service.seenByBuffers, hwaits hremove]
  | leavesCloudwatch hremove =>
    refine LTS.Along.still ?_ rfl
    simp only [Service.seenByBuffers, hwaits hremove]

/-! ## Lives -/

/-- What the buffers reply to a request that they take all of. -/
def ApiRequest.taken (app : GatewayApp) (req : ApiRequest) : List (Option BufferError) :=
  (req.pushes app).map fun _ => none

/-- What the service may keep of one request: that it came in, its handler, what the buffers
replied, the calls of CloudWatch and those that went well, and the answer. -/
inductive Life (app : GatewayApp) : List Received → List Handler → List (Option BufferError) →
    List Forward → List Forward → List Answered → Prop
  | unknown : Life app [] [] [] [] [] []
  | rejected {r : Received} {e : ApiError} : app.accept r.view r.clock.nowNs = .error e →
      Life app [r] [] [] [] [] [⟨none, .error e⟩]
  | answered {r : Received} {req : ApiRequest} {res : Answer} :
      app.accept r.view r.clock.nowNs = .ok req → Handles app req (.answer res) →
      Life app [r] [] [] [] [] [⟨some req, res⟩]
  | pushing {r : Received} {put : PutLogEventsRequest} :
      app.accept r.view r.clock.nowNs = .ok (.putLogEvents put) → (put.action app).toS3 = true →
      Life app [r] [⟨.putLogEvents put, .buffers put (put.action app)⟩] [] [] [] []
  | refused {r : Received} {put : PutLogEventsRequest} {e : BufferError} :
      app.accept r.view r.clock.nowNs = .ok (.putLogEvents put) → (put.action app).toS3 = true →
      Life app [r] [] [some e] [] []
        [⟨some (.putLogEvents put), .error (GatewayApp.refused e)⟩]
  | took {r : Received} {put : PutLogEventsRequest} :
      app.accept r.view r.clock.nowNs = .ok (.putLogEvents put) → put.action app = .s3 →
      Life app [r] [] [none] [] [] [⟨some (.putLogEvents put), .ok .empty⟩]
  | calling {r : Received} {req : ApiRequest} {call : Forward} {must : Bool} :
      app.accept r.view r.clock.nowNs = .ok req → req.owes app = some (call, must) →
      Life app [r] [⟨req, .cloudwatch call must⟩] (req.taken app) [call] [] []
  | called {r : Received} {req : ApiRequest} {call : Forward} {must : Bool} (ok : Bool) :
      app.accept r.view r.clock.nowNs = .ok req → req.owes app = some (call, must) →
      Life app [r] [] (req.taken app) [call] (if ok then [call] else [])
        [⟨some req, if ok || !must then .ok .empty else .error .passthroughFailed⟩]
  | gone {r : Received} {req : ApiRequest} : app.accept r.view r.clock.nowNs = .ok req →
      Life app [r] [] [] [] [] []
  | goneCalling {r : Received} {req : ApiRequest} {call : Forward} {must : Bool} :
      app.accept r.view r.clock.nowNs = .ok req → req.owes app = some (call, must) →
      Life app [r] [] (req.taken app) [call] [] []

namespace Life

variable {rs : List Received} {hs : List Handler} {bs : List (Option BufferError)}
variable {fs ds : List Forward} {as : List Answered}

/-- Nothing is kept of a request that did not come in. -/
theorem of_unknown (h : Life app [] hs bs fs ds as) :
    hs = [] ∧ bs = [] ∧ fs = [] ∧ ds = [] ∧ as = [] := by
  cases h
  exact ⟨rfl, rfl, rfl, rfl, rfl⟩

/-- A handler that waits for the buffers. -/
theorem of_pushing {request : ApiRequest} {put : PutLogEventsRequest} {action : RouteAction}
    (h : Life app rs (⟨request, .buffers put action⟩ :: hs) bs fs ds as) :
    ∃ r, rs = [r] ∧ app.accept r.view r.clock.nowNs = .ok (.putLogEvents put) ∧
      (put.action app).toS3 = true ∧ request = .putLogEvents put ∧ action = put.action app ∧
      hs = [] ∧ bs = [] ∧ fs = [] ∧ ds = [] ∧ as = [] := by
  cases h with
  | pushing haccept htoS3 => exact ⟨_, rfl, haccept, htoS3, rfl, rfl, rfl, rfl, rfl, rfl, rfl⟩

/-- A handler that waits for CloudWatch. -/
theorem of_calling {request : ApiRequest} {call : Forward} {must : Bool}
    (h : Life app rs (⟨request, .cloudwatch call must⟩ :: hs) bs fs ds as) :
    ∃ r, rs = [r] ∧ app.accept r.view r.clock.nowNs = .ok request ∧
      request.owes app = some (call, must) ∧ hs = [] ∧ bs = request.taken app ∧ fs = [call] ∧
      ds = [] ∧ as = [] := by
  cases h with
  | calling haccept howes => exact ⟨_, rfl, haccept, howes, rfl, rfl, rfl, rfl, rfl⟩

/-- Whatever a handler waits for, its client may go away. -/
theorem leaves (h : Life app rs hs bs fs ds as) : Life app rs [] bs fs ds as := by
  cases h with
  | pushing haccept _ => exact .gone haccept
  | calling haccept howes => exact .goneCalling haccept howes
  | unknown => exact .unknown
  | rejected haccept => exact .rejected haccept
  | answered haccept hhandles => exact .answered haccept hhandles
  | refused haccept htoS3 => exact .refused haccept htoS3
  | took haccept haction => exact .took haccept haction
  | called ok haccept howes => exact .called ok haccept howes
  | gone haccept => exact .gone haccept
  | goneCalling haccept howes => exact .goneCalling haccept howes

end Life

/-- What the service keeps of every request is one of its lives. -/
def Service.Lives (app : GatewayApp) (s : Service) : Prop :=
  ∀ id, Life app (Assoc.valuesOf id s.received) (Assoc.valuesOf id s.handlers)
    (Assoc.valuesOf id s.replies) (Assoc.valuesOf id s.forwards) (Assoc.valuesOf id s.delivered)
    (Assoc.valuesOf id s.answers)

theorem Service.start_lives : Service.start.Lives app := fun _ => .unknown

/-- A request that comes in finds nothing under its id. -/
theorem Service.Lives.of_fresh {id : Nat} (h : s.Lives app) (hfresh : s.Fresh id) :
    Assoc.valuesOf id s.received = [] ∧ Assoc.valuesOf id s.handlers = [] ∧
      Assoc.valuesOf id s.replies = [] ∧ Assoc.valuesOf id s.forwards = [] ∧
      Assoc.valuesOf id s.delivered = [] ∧ Assoc.valuesOf id s.answers = [] := by
  have hlife := h id
  have hreceived := Assoc.valuesOf_eq_nil.mpr hfresh.1
  rw [hreceived] at hlife
  exact ⟨hreceived, hlife.of_unknown⟩

theorem Service.Lives.step {l : ServiceLabel} (h : s.Lives app)
    (hstep : serviceStep app s l = some t) : t.Lives app := by
  intro id'
  have hlife := h id'
  cases serviceStep_move hstep with
  | @rejected id r e hfresh haccept =>
    by_cases hid : id = id'
    · subst hid
      obtain ⟨hr, hh, hb, hf, hd, ha⟩ := h.of_fresh hfresh
      simp only [Service.answer, Service.noted, Assoc.valuesOf_append, Assoc.valuesOf_self, hr, hh,
        hb, hf, hd, ha, List.nil_append]
      exact .rejected haccept
    · simpa only [Service.answer, Service.noted, Assoc.valuesOf_append, Assoc.valuesOf_ne hid,
        List.append_nil] using hlife
  | @answered id r req registry res hfresh haccept _ hhandles =>
    by_cases hid : id = id'
    · subst hid
      obtain ⟨hr, hh, hb, hf, hd, ha⟩ := h.of_fresh hfresh
      simp only [Service.answer, Service.noted, Assoc.valuesOf_append, Assoc.valuesOf_self, hr, hh,
        hb, hf, hd, ha, List.nil_append]
      exact .answered haccept hhandles
    · simpa only [Service.answer, Service.noted, Assoc.valuesOf_append, Assoc.valuesOf_ne hid,
        List.append_nil] using hlife
  | @pushes id r put registry g _ hfresh haccept _ htoS3 _ =>
    by_cases hid : id = id'
    · subst hid
      obtain ⟨hr, hh, hb, hf, hd, ha⟩ := h.of_fresh hfresh
      simp only [Service.noted, Assoc.valuesOf_append, Assoc.valuesOf_self, hr, hh, hb, hf, hd,
        ha, List.nil_append]
      exact .pushing haccept htoS3
    · simpa only [Service.noted, Assoc.valuesOf_append, Assoc.valuesOf_ne hid, List.append_nil]
        using hlife
  | @calls id r req registry call must _ hfresh haccept _ howes hpushes =>
    by_cases hid : id = id'
    · subst hid
      obtain ⟨hr, hh, hb, hf, hd, ha⟩ := h.of_fresh hfresh
      simp only [Service.call, Service.noted, Assoc.valuesOf_append, Assoc.valuesOf_self, hr, hh,
        hb, hf, hd, ha, List.nil_append]
      have hlife : Life app [r] [⟨req, .cloudwatch call must⟩] (req.taken app) [call] [] [] :=
        .calling haccept howes
      rwa [ApiRequest.taken, hpushes, List.map_nil] at hlife
    · simpa only [Service.call, Service.noted, Assoc.valuesOf_append, Assoc.valuesOf_ne hid,
        List.append_nil] using hlife
  | alone _ _ _ => exact hlife
  | exits _ _ _ => exact hlife.leaves
  | @refused id request put action handlers c e g hremove _ _ _ =>
    rw [Assoc.valuesOf_remove hremove] at hlife
    by_cases hid : id = id'
    · subst hid
      rw [Assoc.valuesOf_self, List.singleton_append] at hlife
      obtain ⟨r, hr, haccept, htoS3, rfl, -, hh, hb, hf, hd, ha⟩ := hlife.of_pushing
      simp only [Service.answer, Service.replied, Assoc.valuesOf_append, Assoc.valuesOf_self, hr,
        hh, hb, hf, hd, ha, List.nil_append]
      exact .refused haccept htoS3
    · simpa only [Service.answer, Service.replied, Assoc.valuesOf_append, Assoc.valuesOf_ne hid,
        List.append_nil, List.nil_append] using hlife
  | @took id request put action handlers c g hremove _ _ _ hcloudwatch =>
    rw [Assoc.valuesOf_remove hremove] at hlife
    by_cases hid : id = id'
    · subst hid
      rw [Assoc.valuesOf_self, List.singleton_append] at hlife
      obtain ⟨r, hr, haccept, htoS3, rfl, rfl, hh, hb, hf, hd, ha⟩ := hlife.of_pushing
      simp only [Service.answer, Service.replied, Assoc.valuesOf_append, Assoc.valuesOf_self, hr,
        hh, hb, hf, hd, ha, List.nil_append]
      exact .took haccept (RouteAction.eq_s3 htoS3 hcloudwatch)
    · simpa only [Service.answer, Service.replied, Assoc.valuesOf_append, Assoc.valuesOf_ne hid,
        List.append_nil, List.nil_append] using hlife
  | @goesOn id request put action handlers c g hremove _ _ _ hcloudwatch =>
    rw [Assoc.valuesOf_remove hremove] at hlife
    by_cases hid : id = id'
    · subst hid
      rw [Assoc.valuesOf_self, List.singleton_append] at hlife
      obtain ⟨r, hr, haccept, htoS3, rfl, rfl, hh, hb, hf, hd, ha⟩ := hlife.of_pushing
      simp only [Service.call, Service.replied, Assoc.valuesOf_append, Assoc.valuesOf_self, hr,
        hh, hb, hf, hd, ha, List.nil_append]
      have hlife : Life app [r] _ (ApiRequest.taken app (.putLogEvents put)) _ [] [] :=
        .calling haccept (if_pos hcloudwatch)
      rwa [ApiRequest.taken, ApiRequest.pushes, if_pos htoS3, List.map_singleton] at hlife
    · simpa only [Service.call, Service.replied, Assoc.valuesOf_append, Assoc.valuesOf_ne hid,
        List.append_nil, List.nil_append] using hlife
  | @forwarded id request call must ok handlers hremove =>
    rw [Assoc.valuesOf_remove hremove] at hlife
    by_cases hid : id = id'
    · subst hid
      rw [Assoc.valuesOf_self, List.singleton_append] at hlife
      obtain ⟨r, hr, haccept, howes, hh, hb, hf, hd, ha⟩ := hlife.of_calling
      have hdone := Life.called ok haccept howes
      simp only [Service.answer, Assoc.valuesOf_append, Assoc.valuesOf_self, hr, hh, hb, hf, hd,
        ha, List.nil_append]
      cases ok with
      | true => simpa only [if_true, Assoc.valuesOf_self] using hdone
      | false => simpa only [Bool.false_eq_true, if_false, Assoc.valuesOf_nil] using hdone
    · have hnone : Assoc.valuesOf id' (if ok then [(id, call)] else []) = [] := by
        split
        next => exact Assoc.valuesOf_ne hid call
        next => rfl
      simpa only [Service.answer, Assoc.valuesOf_append, Assoc.valuesOf_ne hid, hnone,
        List.append_nil, List.nil_append] using hlife
  | @leaves id landed request put action handlers g hremove _ =>
    rw [Assoc.valuesOf_remove hremove] at hlife
    by_cases hid : id = id'
    · subst hid
      rw [Assoc.valuesOf_self, List.singleton_append] at hlife
      obtain ⟨r, hr, haccept, -, -, -, hh, hb, hf, hd, ha⟩ := hlife.of_pushing
      simp only [hr, hh, hb, hf, hd, ha]
      exact .gone haccept
    · rwa [Assoc.valuesOf_ne hid, List.nil_append] at hlife
  | @leavesCloudwatch id landed request call must handlers hremove =>
    rw [Assoc.valuesOf_remove hremove] at hlife
    by_cases hid : id = id'
    · subst hid
      rw [Assoc.valuesOf_self, List.singleton_append] at hlife
      obtain ⟨r, hr, haccept, howes, hh, hb, hf, hd, ha⟩ := hlife.of_calling
      simp only [hr, hh, hb, hf, hd, ha]
      exact .goneCalling haccept howes
    · rwa [Assoc.valuesOf_ne hid, List.nil_append] at hlife

end S4Logs

import S4Logs.Laws.Gateway.Answers
import S4Logs.Laws.Gateway.Durable

/-!
# What clients are told

The calls of the buffers that push are those of the handlers that wait for them (`Linked`), so
what the buffers acknowledge, they acknowledge to the request that sent it. What a client is
told is accepted was acknowledged before, and so was what CloudWatch is called for where a
batch goes to both; and nothing is acknowledged more often than it was sent (`Accounted`).
-/

namespace S4Logs

variable {app : GatewayApp} {m : BufferManager} {g g' : Gateway} {s t : Service} {id : Nat}
variable {l : GatewayLabel} {c : Call}

/-! ## The calls of the buffers -/

def Origin.isPush : Origin → Bool
  | .push _ _ _ => true
  | _ => false

theorem Origin.batch_of_not_push {origin : Origin} (h : origin.isPush = false) :
    origin.batch = [] := by
  cases origin with
  | push => cases h
  | sweep => rfl
  | flushAll => rfl
  | replay => rfl

/-- What is pushed under an id. -/
def Gateway.pushesOf (g : Gateway) (id : Nat) : List Origin :=
  ((Assoc.valuesOf id g.calls).map Call.origin).filter Origin.isPush

theorem Gateway.pushesOf_calls {calls : List (Nat × Call)} (h : g'.calls = g.calls ++ calls)
    (id : Nat) : g'.pushesOf id = g.pushesOf id ++
      ((Assoc.valuesOf id calls).map Call.origin).filter Origin.isPush := by
  rw [Gateway.pushesOf, h, Assoc.valuesOf_append, List.map_append, List.filter_append]
  rfl

/-- A call of a gateway that ends. -/
theorem Gateway.pushesOf_remove {calls : List (Nat × Call)}
    (hremove : Assoc.remove id g.calls = some (c, calls)) (h : g'.calls = calls) (id' : Nat) :
    g.pushesOf id' =
      (if id = id' ∧ c.origin.isPush = true then [c.origin] else []) ++ g'.pushesOf id' := by
  have hnow : g'.pushesOf id' = ((Assoc.valuesOf id' calls).map Call.origin).filter Origin.isPush := by
    rw [Gateway.pushesOf, h]
  rw [Gateway.pushesOf, Assoc.valuesOf_remove hremove, List.map_append, List.filter_append, ← hnow]
  congr 1
  by_cases hid : id = id'
  · subst hid
    rw [Assoc.valuesOf_self, List.map_singleton, List.filter_singleton]
    cases hpush : c.origin.isPush <;> simp
  · rw [Assoc.valuesOf_ne hid, if_neg fun h => hid h.1]
    rfl

/-- Ids of calls are distinct, and a process that is gone has none. -/
structure Gateway.Booked (g : Gateway) : Prop where
  nodup : (Assoc.keys g.calls).Nodup
  down : g.mode = .down → g.calls = []

theorem Gateway.start_booked : Gateway.start.Booked := ⟨List.nodup_nil, fun _ => rfl⟩

theorem Gateway.exited_booked (g : Gateway) : g.exited.Booked := ⟨List.nodup_nil, fun _ => rfl⟩

theorem nodup_remove {calls rest : List (Nat × Call)} (hremove : Assoc.remove id calls = some (c, rest))
    (h : (Assoc.keys calls).Nodup) : (Assoc.keys rest).Nodup :=
  (List.nodup_cons.mp (((Assoc.remove_perm hremove).map Prod.fst).nodup_iff.mp h)).2

theorem Gateway.Booked.remove_up (h : g.Booked) {rest : List (Nat × Call)}
    (hremove : Assoc.remove id g.calls = some (c, rest)) : g.mode ≠ .down := by
  intro hdown
  rw [h.down hdown] at hremove
  cases hremove

theorem Gateway.Booked.step (h : g.Booked) (hstep : gatewayStep m g l = some g') : g'.Booked := by
  cases gatewayStep_move hstep with
  | boot => exact ⟨List.nodup_singleton _, fun hdown => (by cases hdown)⟩
  | call hserving hnew =>
    refine ⟨?_, fun hdown => ?_⟩
    · rw [Assoc.keys, List.map_append]
      exact List.Nodup.append h.nodup (List.nodup_singleton _)
        (List.disjoint_singleton.mpr hnew)
    · rw [show g.mode = .down from hdown] at hserving
      cases hserving
  | act hget =>
    refine ⟨Assoc.nodup_insert h.nodup, fun hdown => ?_⟩
    obtain ⟨rest, hremove⟩ := Assoc.get?_eq_some.mp hget
    exact absurd hdown (h.remove_up hremove)
  | served hremove => exact ⟨nodup_remove hremove h.nodup, fun hdown => (by cases hdown)⟩
  | unserved => exact g.exited_booked
  | acked _ hremove =>
    exact ⟨nodup_remove hremove h.nodup, fun hdown => absurd hdown (h.remove_up hremove)⟩
  | refused _ hremove =>
    exact ⟨nodup_remove hremove h.nodup, fun hdown => absurd hdown (h.remove_up hremove)⟩
  | drop hremove =>
    exact ⟨nodup_remove hremove h.nodup, fun hdown => absurd hdown (h.remove_up hremove)⟩
  | crash => exact ⟨List.nodup_nil, fun _ => rfl⟩

/-- A reply that the buffers give by themselves is none of a push. -/
theorem quiet_reply {ids : List Nat} {rest : List (Nat × Call)}
    (hids : ∀ id, g.pushesOf id ≠ [] → id ∈ ids)
    (hremove : Assoc.remove id g.calls = some (c, rest))
    (halone : GatewayLabel.alone ids (.reply id) = true) : c.origin.isPush = false := by
  rw [← Bool.not_eq_true]
  intro hpush
  have hid : ids.contains id = true := by
    refine List.contains_iff_mem.mpr (hids id ?_)
    have hends : ({ g with calls := rest } : Gateway).calls = rest := rfl
    rw [Gateway.pushesOf_remove hremove hends, if_pos ⟨rfl, hpush⟩]
    exact List.cons_ne_nil _ _
  rw [GatewayLabel.alone, hid] at halone
  cases halone

/-- The buffers acknowledge nothing by themselves. -/
theorem alone_acked {ids : List Nat} (hids : ∀ id, g.pushesOf id ≠ [] → id ∈ ids)
    (halone : l.alone ids = true) (hstep : gatewayStep m g l = some g') : g'.acked = g.acked := by
  cases gatewayStep_move hstep with
  | @acked id origin calls _ hremove =>
    have hpush : origin.isPush = false := quiet_reply hids hremove halone
    dsimp only
    rw [Origin.batch_of_not_push hpush, List.append_nil]
  | boot => rfl
  | call => rfl
  | act => rfl
  | served => rfl
  | unserved => rfl
  | refused => rfl
  | drop => rfl
  | crash => rfl

/-- The buffers push nothing and let no push go by themselves, and serve on if they served. -/
theorem Gateway.Booked.alone (h : g.Booked) {ids : List Nat}
    (hids : ∀ id, g.pushesOf id ≠ [] → id ∈ ids) (halone : l.alone ids = true)
    (hstep : gatewayStep m g l = some g') (hup : g'.mode ≠ .down) :
    (∀ id, g'.pushesOf id = g.pushesOf id) ∧ (g.mode = .serving → g'.mode = .serving) := by
  have hkeep {id : Nat} {c : Call} {rest : List (Nat × Call)}
      (hremove : Assoc.remove id g.calls = some (c, rest)) (hpush : c.origin.isPush = false)
      {g' : Gateway} (hcalls : g'.calls = rest) (id' : Nat) : g'.pushesOf id' = g.pushesOf id' := by
    rw [Gateway.pushesOf_remove hremove hcalls, if_neg fun h => by rw [hpush] at h; cases h.2]
    rfl
  cases gatewayStep_move hstep with
  | boot hdown =>
    refine ⟨fun id' => ?_, fun hserving => ?_⟩
    · rw [Gateway.pushesOf, Gateway.pushesOf, h.down hdown]
      by_cases hid : 0 = id'
      · rw [hid, Assoc.valuesOf_self]
        rfl
      · rw [Assoc.valuesOf_ne hid]
        rfl
    · rw [hdown] at hserving
      cases hserving
  | @call id origin =>
    have hpush : origin.isPush = false := by
      cases origin <;> first | rfl | cases halone
    refine ⟨fun id' => ?_, fun hserving => hserving⟩
    rw [Gateway.pushesOf_calls rfl]
    by_cases hid : id = id'
    · rw [hid, Assoc.valuesOf_self, List.map_singleton, List.filter_singleton, hpush]
      exact List.append_nil _
    · rw [Assoc.valuesOf_ne hid]
      exact List.append_nil _
  | @act id a c e hget =>
    refine ⟨fun id' => ?_, fun hserving => hserving⟩
    have hlook : Call.origin ⟨c.origin, e.phase⟩ = c.origin := rfl
    exact congrArg (List.filter Origin.isPush) (Assoc.valuesOf_insert Call.origin id' hlook hget)
  | served hremove => exact ⟨hkeep hremove rfl rfl, fun _ => rfl⟩
  | unserved => exact absurd rfl hup
  | acked _ hremove =>
    exact ⟨hkeep hremove (quiet_reply hids hremove halone) rfl, fun hserving => hserving⟩
  | refused _ hremove =>
    exact ⟨hkeep hremove (quiet_reply hids hremove halone) rfl, fun hserving => hserving⟩
  | drop => cases halone
  | crash => exact absurd rfl hup

/-- A push that is done ends, and is acknowledged where it did not fail. -/
theorem reply_push {err : Option BufferError} (hget : Assoc.get? id g.calls = some c)
    (hpush : c.origin.isPush = true) (hphase : c.phase = .done err)
    (hstep : gatewayStep m g (.reply id) = some g') :
    Assoc.remove id g.calls = some (c, g'.calls) ∧ g'.mode = g.mode ∧
      g'.acked = g.acked ++ if err = none then c.origin.batch else [] := by
  obtain ⟨rest, hc⟩ := Assoc.get?_eq_some.mp hget
  cases gatewayStep_move hstep with
  | served hremove =>
    rw [hc] at hremove
    cases hremove
    cases hpush
  | unserved hremove =>
    rw [hc] at hremove
    cases hremove
    cases hpush
  | acked _ hremove =>
    rw [hc] at hremove
    cases hremove
    cases hphase
    exact ⟨hc, rfl, rfl⟩
  | refused _ hremove =>
    rw [hc] at hremove
    cases hremove
    cases hphase
    exact ⟨hc, rfl, (List.append_nil _).symm⟩

/-! ## Handlers and calls -/

/-- The call of the buffers a handler waits for. -/
def Handler.pushes (h : Handler) : List Origin :=
  match h.waits with
  | .buffers put _ => [put.origin]
  | .cloudwatch _ _ => []

/-- The pushes of the buffers are those that handlers wait for, and handlers are there only
while the gateway serves. -/
structure Linked (s : Service) : Prop where
  booked : s.gateway.Booked
  idle : s.gateway.mode ≠ .serving → s.handlers = []
  linked : ∀ id, s.gateway.pushesOf id = (Assoc.valuesOf id s.handlers).flatMap Handler.pushes

theorem Service.start_linked : Linked Service.start where
  booked := Gateway.start_booked
  idle _ := rfl
  linked _ := rfl

theorem Linked.ids (h : Linked s) : ∀ id, s.gateway.pushesOf id ≠ [] → id ∈ s.pushing := by
  intro id hne
  rw [h.linked] at hne
  obtain ⟨origin, horigin⟩ := List.exists_mem_of_ne_nil _ hne
  obtain ⟨⟨request, waits⟩, hmem, horigin⟩ := List.mem_flatMap.mp horigin
  refine List.mem_filterMap.mpr ⟨_, Assoc.mem_valuesOf.mp hmem, ?_⟩
  cases waits with
  | buffers => rfl
  | cloudwatch => cases horigin

section Pushing

variable {request : ApiRequest} {put : PutLogEventsRequest} {action : RouteAction}
variable {handlers : List (Nat × Handler)}

/-- The call that a handler waits for is the one of its batch. -/
theorem Linked.origin (h : Linked s)
    (hremove : Assoc.remove id s.handlers = some (⟨request, .buffers put action⟩, handlers))
    (hget : Assoc.get? id s.gateway.calls = some c) : c.origin = put.origin := by
  obtain ⟨rest, hc⟩ := Assoc.get?_eq_some.mp hget
  have hnone : Assoc.valuesOf id rest = [] := by
    rw [Assoc.valuesOf_eq_nil]
    exact (List.nodup_cons.mp
      (((Assoc.remove_perm hc).map Prod.fst).nodup_iff.mp h.booked.nodup)).1
  have hlinked := h.linked id
  rw [Assoc.valuesOf_remove hremove, Assoc.valuesOf_self, Gateway.pushesOf, Assoc.valuesOf_remove hc,
    Assoc.valuesOf_self, hnone, List.append_nil, List.map_singleton, List.filter_singleton] at hlinked
  cases hpush : c.origin.isPush with
  | true =>
    rw [hpush] at hlinked
    exact (List.cons.inj hlinked).1
  | false =>
    rw [hpush] at hlinked
    cases hlinked

/-- A handler and its call end together. -/
theorem Linked.ends (h : Linked s)
    (hremove : Assoc.remove id s.handlers = some (⟨request, .buffers put action⟩, handlers))
    (hc : Assoc.remove id s.gateway.calls = some (c, g.calls)) (id' : Nat) :
    g.pushesOf id' = (Assoc.valuesOf id' handlers).flatMap Handler.pushes := by
  have horigin := h.origin hremove (Assoc.get?_eq_some.mpr ⟨_, hc⟩)
  have hlinked := h.linked id'
  rw [Gateway.pushesOf_remove hc rfl, Assoc.valuesOf_remove hremove, List.flatMap_append] at hlinked
  by_cases hid : id = id'
  · rw [if_pos ⟨hid, by rw [horigin]; rfl⟩, hid, Assoc.valuesOf_self] at hlinked
    exact (List.cons.inj hlinked).2
  · rw [if_neg fun h => hid h.1, Assoc.valuesOf_ne hid] at hlinked
    exact hlinked

/-- A handler that waits for CloudWatch ends alone. -/
theorem Linked.ends_alone {call : Forward} {must : Bool} (h : Linked s)
    (hremove : Assoc.remove id s.handlers = some (⟨request, .cloudwatch call must⟩, handlers))
    (id' : Nat) :
    s.gateway.pushesOf id' = (Assoc.valuesOf id' handlers).flatMap Handler.pushes := by
  rw [h.linked, Assoc.valuesOf_remove hremove, List.flatMap_append]
  by_cases hid : id = id'
  · rw [hid, Assoc.valuesOf_self]
    rfl
  · rw [Assoc.valuesOf_ne hid]
    rfl

end Pushing

theorem Linked.removed_idle {h : Handler} {handlers : List (Nat × Handler)} (hl : Linked s)
    (hremove : Assoc.remove id s.handlers = some (h, handlers)) : s.gateway.mode = .serving := by
  by_contra hne
  rw [hl.idle hne] at hremove
  cases hremove

theorem Linked.step {l : ServiceLabel} (h : Linked s) (hstep : serviceStep app s l = some t) :
    Linked t := by
  cases serviceStep_move hstep with
  | rejected => exact ⟨h.booked, h.idle, h.linked⟩
  | answered => exact ⟨h.booked, h.idle, h.linked⟩
  | @pushes id r put registry g hserving _ _ _ _ hg =>
    refine ⟨h.booked.step hg, fun hne => ?_, fun id' => ?_⟩
    · cases gatewayStep_move hg
      exact absurd hserving hne
    · cases gatewayStep_move hg
      rw [Gateway.pushesOf_calls rfl, h.linked, Assoc.valuesOf_append, List.flatMap_append]
      congr 1
      by_cases hid : id = id'
      · rw [hid, Assoc.valuesOf_self, Assoc.valuesOf_self]
        rfl
      · rw [Assoc.valuesOf_ne hid, Assoc.valuesOf_ne hid]
        rfl
  | @calls id r req registry call must hserving =>
    refine ⟨h.booked, fun hne => absurd hserving hne, fun id' => ?_⟩
    refine (h.linked id').trans ?_
    simp only [Service.call, Service.noted, Assoc.valuesOf_append, List.flatMap_append]
    by_cases hid : id = id'
    · rw [hid, Assoc.valuesOf_self]
      exact (List.append_nil _).symm
    · rw [Assoc.valuesOf_ne hid]
      exact (List.append_nil _).symm
  | @alone l g halone hg hup =>
    obtain ⟨hpushes, hserving⟩ := h.booked.alone h.ids halone hg hup
    exact ⟨h.booked.step hg, fun hne => h.idle (mt hserving hne),
      fun id' => (hpushes id').trans (h.linked id')⟩
  | @exits l g _ hg hdown =>
    refine ⟨h.booked.step hg, fun _ => rfl, fun id' => ?_⟩
    show g.pushesOf id' = []
    rw [Gateway.pushesOf, (h.booked.step hg).down hdown]
    rfl
  | refused hremove hget hphase hg =>
    have horigin := h.origin hremove hget
    obtain ⟨hc, hmode, -⟩ := reply_push hget (by rw [horigin]; rfl) hphase hg
    exact ⟨h.booked.step hg, fun hne => absurd (hmode.trans (h.removed_idle hremove)) hne,
      h.ends hremove hc⟩
  | took hremove hget hphase hg =>
    have horigin := h.origin hremove hget
    obtain ⟨hc, hmode, -⟩ := reply_push hget (by rw [horigin]; rfl) hphase hg
    exact ⟨h.booked.step hg, fun hne => absurd (hmode.trans (h.removed_idle hremove)) hne,
      h.ends hremove hc⟩
  | @goesOn id request put action handlers c g hremove hget hphase hg =>
    have horigin := h.origin hremove hget
    obtain ⟨hc, hmode, -⟩ := reply_push hget (by rw [horigin]; rfl) hphase hg
    refine ⟨h.booked.step hg, fun hne => absurd (hmode.trans (h.removed_idle hremove)) hne,
      fun id' => (h.ends hremove hc id').trans ?_⟩
    simp only [Service.call, Assoc.valuesOf_append, List.flatMap_append]
    by_cases hid : id = id'
    · rw [hid, Assoc.valuesOf_self]
      exact (List.append_nil _).symm
    · rw [Assoc.valuesOf_ne hid]
      exact (List.append_nil _).symm
  | forwarded hremove =>
    exact ⟨h.booked, fun hne => absurd (h.removed_idle hremove) hne, h.ends_alone hremove⟩
  | @leaves id landed request put action handlers g hremove hg =>
    refine ⟨h.booked.step hg, fun hne => ?_, fun id' => ?_⟩
    · cases gatewayStep_move hg
      exact absurd (h.removed_idle hremove) hne
    · cases gatewayStep_move hg with
      | drop hc => exact h.ends hremove hc id'
  | leavesCloudwatch hremove =>
    exact ⟨h.booked, fun hne => absurd (h.removed_idle hremove) hne, h.ends_alone hremove⟩

/-! ## Accounts -/

/-- What the buffers are asked to take for a request. -/
def ApiRequest.batch (app : GatewayApp) (req : ApiRequest) : List LogEvent :=
  (req.pushes app).flatMap Origin.batch

/-- What a client is told is accepted by the buffers. -/
def toldBy (app : GatewayApp) (e : Nat × Answered) : Multiset LogEvent :=
  match e.2.res, e.2.request with
  | .ok _, some req => (req.batch app : Multiset LogEvent)
  | _, _ => 0

/-- What a client is going to be told, or not, once CloudWatch has answered. -/
def vouchedBy (app : GatewayApp) (e : Nat × Handler) : Multiset LogEvent :=
  match e.2.waits with
  | .buffers _ _ => 0
  | .cloudwatch _ _ => (e.2.request.batch app : Multiset LogEvent)

/-- What the buffers may still acknowledge. -/
def askedBy (e : Nat × Handler) : Multiset LogEvent :=
  match e.2.waits with
  | .buffers put _ => (put.origin.batch : Multiset LogEvent)
  | .cloudwatch _ _ => 0

/-- What goes to CloudWatch and to the buffers. -/
def mirroredBy (app : GatewayApp) (e : Nat × Forward) : Multiset LogEvent :=
  match e.2 with
  | .putLogEvents logGroup stream events =>
    ((ApiRequest.putLogEvents ⟨logGroup, stream, events⟩).batch app : Multiset LogEvent)
  | _ => 0

/-- What came in for the buffers. -/
def sentBy (app : GatewayApp) (e : Nat × Received) : Multiset LogEvent :=
  match app.accept e.2.view e.2.clock.nowNs with
  | .ok req => (req.batch app : Multiset LogEvent)
  | .error _ => 0

theorem batch_of_pushes_nil {req : ApiRequest} (h : req.pushes app = []) : req.batch app = [] := by
  rw [ApiRequest.batch, h]
  rfl

theorem batch_put {put : PutLogEventsRequest} (h : (put.action app).toS3 = true) :
    (ApiRequest.putLogEvents put).batch app = put.origin.batch := by
  rw [ApiRequest.batch, ApiRequest.pushes, if_pos h]
  exact List.append_nil _

theorem mirroredBy_owes {req : ApiRequest} {call : Forward} {must : Bool}
    (howes : req.owes app = some (call, must)) :
    mirroredBy app (id, call) = (req.batch app : Multiset LogEvent) := by
  cases req with
  | putLogEvents put =>
    obtain ⟨-, heq⟩ := Option.ite_none_right_eq_some.mp howes
    cases heq
    rfl
  | createLogGroup req =>
    obtain ⟨-, heq⟩ := Option.ite_none_right_eq_some.mp howes
    cases heq
    rfl
  | createLogStream req =>
    obtain ⟨-, heq⟩ := Option.ite_none_right_eq_some.mp howes
    cases heq
    rfl
  | describeLogGroups => cases howes
  | describeLogStreams => cases howes

theorem toldBy_le (req : ApiRequest) (res : Answer) :
    toldBy app (id, ⟨some req, res⟩) ≤ (req.batch app : Multiset LogEvent) := by
  cases res with
  | ok => exact le_rfl
  | error => exact Multiset.zero_le _

theorem sentBy_accept {r : Received} {req : ApiRequest}
    (haccept : app.accept r.view r.clock.nowNs = .ok req) :
    sentBy app (id, r) = (req.batch app : Multiset LogEvent) := by
  simp only [sentBy, haccept]

/-- What clients are told, and what CloudWatch is called for besides, was acknowledged, and what
was acknowledged was sent. -/
structure Accounted (app : GatewayApp) (s : Service) : Prop where
  told : Assoc.total (toldBy app) s.answers + Assoc.total (vouchedBy app) s.handlers ≤
    (s.gateway.acked : Multiset LogEvent)
  mirrored : Assoc.total (mirroredBy app) s.forwards ≤ (s.gateway.acked : Multiset LogEvent)
  sent : (s.gateway.acked : Multiset LogEvent) + Assoc.total askedBy s.handlers ≤
    Assoc.total (sentBy app) s.received

theorem Service.start_accounted : Accounted app Service.start where
  told := le_rfl
  mirrored := le_rfl
  sent := le_rfl

theorem Accounted.step {l : ServiceLabel} (h : Accounted app s) (hlives : s.Lives app)
    (hl : Linked s) (hstep : serviceStep app s l = some t) : Accounted app t := by
  obtain ⟨htold, hmirrored, hsent⟩ := h
  cases serviceStep_move hstep with
  | @rejected id r e _ haccept =>
    refine ⟨?_, hmirrored, ?_⟩
    · simpa [Service.answer, Service.noted, toldBy] using htold
    · simpa [Service.answer, Service.noted, sentBy, haccept] using hsent
  | @answered id r req registry res _ haccept _ hhandles =>
    have hnone := batch_of_pushes_nil hhandles.pushes_eq_nil
    have hzero : toldBy app (id, ⟨some req, res⟩) = 0 :=
      le_antisymm ((toldBy_le req res).trans (le_of_eq (by rw [hnone]; rfl))) (Multiset.zero_le _)
    refine ⟨?_, hmirrored, ?_⟩
    · simpa [Service.answer, Service.noted, hzero] using htold
    · simpa [Service.answer, Service.noted, sentBy_accept haccept, hnone] using hsent
  | @pushes id r put registry g _ _ haccept _ htoS3 hg =>
    have hacked : g.acked = s.gateway.acked := by
      cases gatewayStep_move hg
      rfl
    refine ⟨?_, ?_, ?_⟩
    · simpa [Service.noted, vouchedBy, hacked] using htold
    · simpa [Service.noted, hacked] using hmirrored
    · have hnew : sentBy app (id, r) = (put.origin.batch : Multiset LogEvent) := by
        rw [sentBy_accept haccept, batch_put htoS3]
      simp only [Service.noted, Assoc.total_append, Assoc.total_cons, Assoc.total_nil, add_zero,
        askedBy, hnew, hacked]
      rw [← add_assoc]
      exact add_le_add_left hsent _
  | @calls id r req registry call must _ _ haccept _ howes hpushes =>
    have hnone := batch_of_pushes_nil hpushes
    refine ⟨?_, ?_, ?_⟩
    · simpa [Service.call, Service.noted, vouchedBy, hnone] using htold
    · simpa [Service.call, Service.noted, mirroredBy_owes howes, hnone] using hmirrored
    · simpa [Service.call, Service.noted, askedBy, sentBy_accept haccept, hnone] using hsent
  | alone halone hg _ =>
    have hacked := alone_acked hl.ids halone hg
    refine ⟨?_, ?_, ?_⟩ <;> simpa only [hacked]
  | @exits l g halone hg _ =>
    have hacked := alone_acked hl.ids halone hg
    refine ⟨?_, ?_, ?_⟩
    · simpa [Service.exited, hacked] using (Multiset.le_add_right _ _).trans htold
    · simpa [Service.exited, hacked] using hmirrored
    · simpa [Service.exited, hacked] using (Multiset.le_add_right _ _).trans hsent
  | @refused id request put action handlers c e g hremove hget hphase hg =>
    obtain ⟨-, -, hacked⟩ := reply_push hget (by rw [hl.origin hremove hget]; rfl) hphase hg
    rw [if_neg (Option.some_ne_none e), List.append_nil] at hacked
    rw [Assoc.total_remove hremove] at htold hsent
    refine ⟨?_, ?_, ?_⟩
    · simpa [Service.answer, Service.replied, toldBy, vouchedBy, hacked] using htold
    · simpa [Service.answer, Service.replied, hacked] using hmirrored
    · simp only [Service.answer, Service.replied, hacked]
      exact (add_le_add_right (Multiset.le_add_left _ _) _).trans hsent
  | @took id request put action handlers c g hremove hget hphase hg _ =>
    have horigin := hl.origin hremove hget
    obtain ⟨-, -, hacked⟩ := reply_push hget (by rw [horigin]; rfl) hphase hg
    have hlife := hlives id
    rw [Assoc.valuesOf_remove hremove, Assoc.valuesOf_self, List.singleton_append] at hlife
    obtain ⟨r, -, -, htoS3, rfl, -⟩ := hlife.of_pushing
    rw [if_pos rfl, horigin] at hacked
    rw [Assoc.total_remove hremove] at htold hsent
    have hnow : (g.acked : Multiset LogEvent) =
        (s.gateway.acked : Multiset LogEvent) + put.origin.batch := by
      rw [hacked, Multiset.coe_add]
    refine ⟨?_, hmirrored.trans ((Multiset.le_add_right _ _).trans (le_of_eq hnow.symm)), ?_⟩
    · simp only [Service.answer, Service.replied, Assoc.total_append, Assoc.total_cons,
        Assoc.total_nil, add_zero, toldBy, batch_put htoS3, hnow]
      rw [add_right_comm]
      simp only [vouchedBy, zero_add] at htold
      exact add_le_add_left htold _
    · simp only [Service.answer, Service.replied, hnow]
      simpa only [askedBy, add_assoc] using hsent
  | @goesOn id request put action handlers c g hremove hget hphase hg hcloudwatch =>
    have horigin := hl.origin hremove hget
    obtain ⟨-, -, hacked⟩ := reply_push hget (by rw [horigin]; rfl) hphase hg
    have hlife := hlives id
    rw [Assoc.valuesOf_remove hremove, Assoc.valuesOf_self, List.singleton_append] at hlife
    obtain ⟨r, -, -, htoS3, rfl, rfl, -⟩ := hlife.of_pushing
    rw [if_pos rfl, horigin] at hacked
    rw [Assoc.total_remove hremove] at htold hsent
    have hnow : (g.acked : Multiset LogEvent) =
        (s.gateway.acked : Multiset LogEvent) + put.origin.batch := by
      rw [hacked, Multiset.coe_add]
    have howes : (ApiRequest.putLogEvents put).owes app =
        some (put.forward, !(put.action app).toS3) := if_pos hcloudwatch
    refine ⟨?_, ?_, ?_⟩
    · simp only [Service.call, Service.replied, Assoc.total_append, Assoc.total_cons,
        Assoc.total_nil, add_zero, vouchedBy, batch_put htoS3, hnow]
      rw [← add_assoc]
      simp only [vouchedBy, zero_add] at htold
      exact add_le_add_left htold _
    · simp only [Service.call, Service.replied, Assoc.total_append, Assoc.total_cons,
        Assoc.total_nil, add_zero, mirroredBy_owes howes, batch_put htoS3, hnow]
      exact add_le_add_left hmirrored _
    · simp only [Service.call, Service.replied, Assoc.total_append, Assoc.total_cons,
        Assoc.total_nil, add_zero, hnow]
      simpa only [askedBy, add_assoc, add_zero] using hsent
  | @forwarded id request call must ok handlers hremove =>
    rw [Assoc.total_remove hremove] at htold hsent
    refine ⟨?_, hmirrored, ?_⟩
    · refine le_trans ?_ htold
      simp only [Service.answer, Assoc.total_append, Assoc.total_cons, Assoc.total_nil, add_zero,
        vouchedBy, add_assoc]
      exact add_le_add_right (add_le_add_left (toldBy_le _ _) _) _
    · simpa only [Service.answer, askedBy, zero_add] using hsent
  | @leaves id landed request put action handlers g hremove hg =>
    have hacked : g.acked = s.gateway.acked := by
      cases gatewayStep_move hg
      rfl
    rw [Assoc.total_remove hremove] at htold hsent
    refine ⟨?_, ?_, ?_⟩
    · rw [hacked]
      exact (add_le_add_right (Multiset.le_add_left _ _) _).trans htold
    · rw [hacked]
      exact hmirrored
    · rw [hacked]
      exact (add_le_add_right (Multiset.le_add_left _ _) _).trans hsent
  | @leavesCloudwatch id landed request call must handlers hremove =>
    rw [Assoc.total_remove hremove] at htold hsent
    refine ⟨?_, hmirrored, ?_⟩
    · exact (add_le_add_right (Multiset.le_add_left _ _) _).trans htold
    · exact (add_le_add_right (Multiset.le_add_left _ _) _).trans hsent

/-- All that holds of a service. -/
structure Service.Sound (app : GatewayApp) (s : Service) : Prop where
  lives : s.Lives app
  linked : Linked s
  accounted : Accounted app s

theorem Service.start_sound : Service.start.Sound app :=
  ⟨Service.start_lives, Service.start_linked, Service.start_accounted⟩

theorem Service.Sound.step {l : ServiceLabel} (h : s.Sound app)
    (hstep : serviceStep app s l = some t) : t.Sound app :=
  ⟨h.lives.step hstep, h.linked.step hstep, h.accounted.step h.lives h.linked hstep⟩

/-- With a log, a run keeps the events of the batches that are accepted. -/
theorem service_secured (hdir : app.buffers.cfg.walDir ≠ none)
    (run : LTS.Reaches (serviceStep app) (OnBuffers (SafeDisk app.buffers)) .start s) :
    s.Sound app ∧ Secured app.buffers s.gateway := by
  refine ⟨run.invariant Service.start_sound fun _ _ _ h _ hstep => h.step hstep, ?_⟩
  obtain ⟨_, hgateway, rfl⟩ := (service_projects app (fun _ _ _ => trivial)
    (fun _ _ => trivial) fun _ _ _ => trivial).reaches rfl run
  exact hgateway.invariant Gateway.start_secured fun _ _ _ h hsafe hstep => h.step hdir hsafe hstep

/-- What clients are told of is kept. -/
theorem Service.Sound.told_kept (h : s.Sound app) (hsecured : Secured app.buffers s.gateway) :
    Assoc.total (toldBy app) s.answers ≤
      s.gateway.stored app.buffers + s.gateway.disk.durable app.buffers.entries := by
  have hacked := (Multiset.le_add_right _ _).trans hsecured.account
  exact ((Multiset.le_add_right _ _).trans h.accounted.told).trans hacked

/-- A client that is told its batch is accepted by the buffers can rely on it: with a log it is
in a stored chunk or on the synced part of a segment, as often as clients are told, through any
number of crashes, failed PUTs and lost connections. What CloudWatch was called for besides is
there too, before the call is answered. And no event is acknowledged more often than it came in. -/
theorem told_survives (app : GatewayApp) (hdir : app.buffers.cfg.walDir ≠ none) {s : Service}
    (run : LTS.Reaches (serviceStep app) (OnBuffers (SafeDisk app.buffers)) .start s) :
    Assoc.total (toldBy app) s.answers ≤
        s.gateway.stored app.buffers + s.gateway.disk.durable app.buffers.entries ∧
      Assoc.total (mirroredBy app) s.forwards ≤
        s.gateway.stored app.buffers + s.gateway.disk.durable app.buffers.entries ∧
      (s.gateway.acked : Multiset LogEvent) ≤ Assoc.total (sentBy app) s.received := by
  obtain ⟨hsound, hsecured⟩ := service_secured hdir run
  have hacked := (Multiset.le_add_right _ _).trans hsecured.account
  exact ⟨hsound.told_kept hsecured, hsound.accounted.mirrored.trans hacked,
    (Multiset.le_add_right _ _).trans hsound.accounted.sent⟩

instance OnBuffers.decidable (ok : Gateway → GatewayLabel → Prop) [∀ g l, Decidable (ok g l)]
    (s : Service) : ∀ l, Decidable (OnBuffers ok s l)
  | .buffers l => inferInstanceAs (Decidable (ok s.gateway l))
  | .request _ _ _ => .isTrue trivial
  | .pushed _ => .isTrue trivial
  | .forwarded _ _ => .isTrue trivial
  | .disconnect _ _ => .isTrue trivial

namespace Concrete

/-- The line of the event of a batch. -/
def postedLine (logGroup : String) : Bytes := WalSegment.line entries {
  logGroup := logGroup
  timestamp := 5
  stream := "s"
  message := "a"
  ingestionTime := none }

end Concrete

open Concrete in
/-- A batch goes to both, CloudWatch fails it, and the process crashes while another client
waits. -/
theorem told_survives_crash : ∃ s : Service, s.answers.length = 1 ∧ s.received.length = 2 ∧
    Assoc.total (toldBy openService) s.answers ≤
        s.gateway.stored openService.buffers +
          s.gateway.disk.durable openService.buffers.entries ∧
      Assoc.total (mirroredBy openService) s.forwards ≤
        s.gateway.stored openService.buffers +
          s.gateway.disk.durable openService.buffers.entries ∧
      (s.gateway.acked : Multiset LogEvent) ≤ Assoc.total (sentBy openService) s.received := by
  obtain ⟨s, hreach, hcheck⟩ := LTS.replay_spec (by decide +kernel :
    LTS.replay (serviceStep openService) (OnBuffers (SafeDisk openService.buffers)) .start
      (bootService ++ [.request 1 (postOne "/both") noon] ++ takenIn 1 ++
        [.pushed 1, .forwarded 1 false, .request 2 (postOne "/s3") noon,
          .buffers (.act 2 (.reserve [])),
          .buffers (.crash (some (2, .append [] [io "u2"] none)) 1 []
            [(WalSegment.fileName "/both" "1970-01-01" "u1",
              postedLine "/both")]), .buffers .boot])
      (fun s => s.answers.length == 1 && s.received.length == 2) = true)
  rw [Bool.and_eq_true, beq_iff_eq, beq_iff_eq] at hcheck
  exact ⟨s, hcheck.1, hcheck.2, told_survives openService (by decide) hreach⟩

end S4Logs

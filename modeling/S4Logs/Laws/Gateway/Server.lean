import S4Logs.Gateway.Server
import S4Logs.Laws.Gateway.Safeguarded

/-!
# What a shutdown leaves

The server flushes when no handler and no sweep is under way (`Server.InStage`), so the one
call that is left takes all that is in the map, and nothing comes back where no flush fails. So
a server that returns well leaves no event behind.
-/

namespace S4Logs

variable {app : GatewayApp} {g : Gateway} {id : Nat}

/-! ## Steps of the service -/

/-- What the buffers do at a step of the service. -/
inductive BuffersDo : ServiceLabel → GatewayLabel → Prop
  | call {id : Nat} {view : RequestView} {clock : HandlerClock} (put : PutLogEventsRequest) :
      BuffersDo (.request id view clock) (.call id put.origin)
  | self (l : GatewayLabel) : BuffersDo (.buffers l) l
  | reply {id : Nat} : BuffersDo (.pushed id) (.reply id)
  | drop {id : Nat} {landed : Bool} : BuffersDo (.disconnect id landed) (.drop id landed)

theorem serviceStep_gateway {s t : Service} {l : ServiceLabel} (h : serviceStep app s l = some t) :
    t.gateway = s.gateway ∨
      ∃ gl, BuffersDo l gl ∧ gatewayStep app.buffers s.gateway gl = some t.gateway := by
  cases serviceStep_move h with
  | rejected => exact .inl rfl
  | answered => exact .inl rfl
  | @pushes id r put _ _ _ _ _ _ _ hg => exact .inr ⟨_, .call put, hg⟩
  | calls => exact .inl rfl
  | alone _ hg => exact .inr ⟨_, .self _, hg⟩
  | exits _ hg => exact .inr ⟨_, .self _, hg⟩
  | refused _ _ _ hg => exact .inr ⟨_, .reply, hg⟩
  | took _ _ _ hg => exact .inr ⟨_, .reply, hg⟩
  | goesOn _ _ _ hg => exact .inr ⟨_, .reply, hg⟩
  | forwarded => exact .inl rfl
  | leaves _ hg => exact .inr ⟨_, .drop, hg⟩
  | leavesCloudwatch => exact .inl rfl

/-- What is asked of a step of the service while the process goes on. -/
def Service.Orderly (app : GatewayApp) (s : Service) : ServiceLabel → Prop
  | .buffers l => s.gateway.Orderly app.buffers l
  | .disconnect id landed => s.gateway.Orderly app.buffers (.drop id landed)
  | _ => True

/-- What holds of a service while its process goes on. -/
structure Service.Backed (app : GatewayApp) (s : Service) : Prop where
  sound : s.Sound app
  buffers : s.gateway.Sound app.buffers
  alone : s.gateway.Alone
  safe : Safeguarded app.buffers s.gateway

theorem Service.Backed.step {s t : Service} {l : ServiceLabel} (h : s.Backed app)
    (hok : s.Orderly app l) (hstep : serviceStep app s l = some t) : t.Backed app := by
  have hsound := h.sound.step hstep
  rcases serviceStep_gateway hstep with hsame | ⟨gl, hdo, hg⟩
  · exact ⟨hsound, hsame ▸ h.buffers, hsame ▸ h.alone, hsame ▸ h.safe⟩
  · have hgok : s.gateway.Orderly app.buffers gl := by
      cases hdo with
      | call => trivial
      | self => exact hok
      | reply => trivial
      | drop => exact hok
    exact ⟨hsound, h.buffers.step hg, h.alone.step hg,
      h.safe.step h.buffers h.alone h.sound.linked.booked hgok hg⟩

/-- Where no handler is left, no push is. -/
theorem Linked.no_push {s : Service} (h : Linked s) (hidle : s.handlers = []) {c : Nat × Call}
    (hc : c ∈ s.gateway.calls) : c.2.origin.isPush = false := by
  have hnone : s.gateway.pushesOf c.1 = [] := by
    rw [h.linked, hidle]
    rfl
  rw [← Bool.not_eq_true]
  intro hpush
  have hmem : c.2.origin ∈ s.gateway.pushesOf c.1 :=
    List.mem_filter.mpr ⟨List.mem_map_of_mem (Assoc.mem_valuesOf.mpr hc), hpush⟩
  rw [hnone] at hmem
  cases hmem

/-- What the server lets happen besides keeps the mode of the buffers. -/
theorem lets_mode {phase : ServerPhase} {s t : Service} {l : ServiceLabel} (hl : Linked s)
    (hlets : phase.lets l = true) (hstep : serviceStep app s l = some t) :
    t.gateway.mode = s.gateway.mode := by
  have hbuffers {l : GatewayLabel} {g : Gateway} (hlets : phase.lets (.buffers l) = true)
      (hg : gatewayStep app.buffers s.gateway l = some g) : g.mode = s.gateway.mode := by
    cases l with
    | act =>
      cases gatewayStep_move hg
      rfl
    | _ => cases hlets
  cases serviceStep_move hstep with
  | rejected => rfl
  | answered => rfl
  | pushes _ _ _ _ _ hg =>
    cases gatewayStep_move hg
    rfl
  | calls => rfl
  | alone _ hg => exact hbuffers hlets hg
  | exits _ hg => exact hbuffers hlets hg
  | refused hremove hget hphase hg =>
    exact (reply_push hget (by rw [hl.origin hremove hget]; rfl) hphase hg).2.1
  | took hremove hget hphase hg =>
    exact (reply_push hget (by rw [hl.origin hremove hget]; rfl) hphase hg).2.1
  | goesOn hremove hget hphase hg =>
    exact (reply_push hget (by rw [hl.origin hremove hget]; rfl) hphase hg).2.1
  | forwarded => rfl
  | leaves _ hg =>
    cases gatewayStep_move hg
    rfl
  | leavesCloudwatch => rfl

/-! ## Steps of the server -/

variable {s t : Server} {service : Service}

/-- What a label does to the server. -/
inductive ServerMove (app : GatewayApp) (s : Server) : ServerLabel → Server → Prop
  | service {l : ServiceLabel} {service : Service} : s.phase.lets l = true →
      serviceStep app s.service l = some service →
      ServerMove app s (.service l) { s with service := service }
  | replayed {service : Service} : s.phase = .replaying →
      Assoc.get? 0 s.service.gateway.calls = some ⟨.replay, .done none⟩ →
      serviceStep app s.service (.buffers (.reply 0)) = some service →
      ServerMove app s .replayed { s with service := service, phase := .serving }
  | unreplayed {err : BufferError} {service : Service} : s.phase = .replaying →
      Assoc.get? 0 s.service.gateway.calls = some ⟨.replay, .done (some err)⟩ →
      serviceStep app s.service (.buffers (.reply 0)) = some service →
      ServerMove app s .replayed { s with
        service := service
        phase := .returned (.error (.walReplay err)) }
  | tick {id : Nat} {service : Service} : s.sweep = none → s.phase.sweeps = true →
      serviceStep app s.service (.buffers (.call id .sweep)) = some service →
      ServerMove app s (.tick id) { s with service := service, sweep := some id }
  | swept {id : Nat} {service : Service} : s.sweep = some id →
      serviceStep app s.service (.buffers (.reply id)) = some service →
      ServerMove app s .swept { s with service := service, sweep := none }
  | shutdown : s.phase = .serving → ServerMove app s .shutdown { s with phase := .draining }
  | served {ok : Bool} : s.phase = .draining → s.service.handlers = [] →
      ServerMove app s (.served ok) { s with phase := .stopping ok }
  | flush {id : Nat} {served : Bool} {service : Service} : s.phase = .stopping served →
      s.sweep = none →
      serviceStep app s.service (.buffers (.call id .flushAll)) = some service →
      ServerMove app s (.flush id) { s with service := service, phase := .flushing served id }
  | flushed {id : Nat} {served : Bool} {origin : Origin} {err : Option BufferError}
      {service : Service} : s.phase = .flushing served id →
      Assoc.get? id s.service.gateway.calls = some ⟨origin, .done err⟩ →
      serviceStep app s.service (.buffers (.reply id)) = some service →
      ServerMove app s .flushed { s with
        service := service
        phase := .returned (shutdownResult served err) }

theorem serverStep_move {l : ServerLabel} (h : serverStep app s l = some t) :
    ServerMove app s l t := by
  cases l with
  | service l =>
    simp only [serverStep] at h
    split at h
    next hlets =>
      obtain ⟨service, hservice, rfl⟩ := Option.map_eq_some_iff.mp h
      exact .service hlets hservice
    next => cases h
  | replayed =>
    simp only [serverStep] at h
    split at h
    next err hphase hget =>
      obtain ⟨service, hservice, rfl⟩ := Option.map_eq_some_iff.mp h
      cases err with
      | none => exact .replayed hphase hget hservice
      | some err => exact .unreplayed hphase hget hservice
    next => cases h
  | tick id =>
    simp only [serverStep] at h
    split at h
    next hidle =>
      obtain ⟨service, hservice, rfl⟩ := Option.map_eq_some_iff.mp h
      exact .tick hidle.1 hidle.2 hservice
    next => cases h
  | swept =>
    simp only [serverStep] at h
    split at h
    next => cases h
    next id hsweep =>
      obtain ⟨service, hservice, rfl⟩ := Option.map_eq_some_iff.mp h
      exact .swept hsweep hservice
  | shutdown =>
    simp only [serverStep] at h
    split at h
    next hphase =>
      cases h
      exact .shutdown hphase
    next => cases h
  | served ok =>
    simp only [serverStep] at h
    split at h
    next hdone =>
      cases h
      exact .served hdone.1 (List.isEmpty_iff.mp hdone.2)
    next => cases h
  | flush id =>
    simp only [serverStep] at h
    split at h
    next served hphase =>
      split at h
      next hsweep =>
        obtain ⟨service, hservice, rfl⟩ := Option.map_eq_some_iff.mp h
        exact .flush hphase hsweep hservice
      next => cases h
    next => cases h
  | flushed =>
    simp only [serverStep] at h
    split at h
    next served id hphase =>
      split at h
      next origin err hget =>
        obtain ⟨service, hservice, rfl⟩ := Option.map_eq_some_iff.mp h
        exact .flushed hphase hget hservice
      next => cases h
    next => cases h

/-- Whose call this is. -/
def Server.Tends (s : Server) (id : Nat) : Origin → Prop
  | .push _ _ _ => True
  | .sweep => s.sweep = some id
  | .flushAll => ∃ served, s.phase = .flushing served id
  | .replay => s.phase = .replaying

theorem tends_push {origin : Origin} (h : origin.isPush = true) : s.Tends id origin := by
  cases origin with
  | push => trivial
  | _ => cases h

/-- Only a sweep is told by the sweeper. -/
theorem tends_unswept {origin : Origin} (h : s.Tends id origin) (hne : origin ≠ .sweep)
    (service : Service) (sweep : Option Nat) : Server.Tends ⟨service, sweep, s.phase⟩ id origin := by
  cases origin with
  | sweep => exact absurd rfl hne
  | push => trivial
  | flushAll => exact h
  | replay => exact h

/-- What is so at each stage. -/
def Server.InStage (s : Server) : Prop :=
  match s.phase with
  | .replaying => True
  | .serving => s.service.gateway.mode = .serving
  | .draining => s.service.gateway.mode = .serving
  | .stopping _ => s.service.gateway.mode = .serving ∧ s.service.handlers = []
  | .flushing _ id => s.service.gateway.mode = .serving ∧ s.service.handlers = [] ∧
      s.sweep = none ∧ ∃ p, s.service.gateway.calls = [(id, ⟨.flushAll, p⟩)] ∧
        p.Empties s.service.gateway.buffers
  | .returned (.ok _) => s.service.gateway.mode = .serving ∧ s.service.handlers = [] ∧
      s.service.gateway.calls = [] ∧ s.service.gateway.buffers = []
  | .returned (.error _) => True

/-- What holds of a server. -/
structure Server.Tended (app : GatewayApp) (s : Server) : Prop where
  backed : s.service.Backed app
  tends : ∀ c ∈ s.service.gateway.calls, s.Tends c.1 c.2.origin
  stage : s.InStage

/-- What is asked of a step of the server. -/
def Server.Orderly (app : GatewayApp) (s : Server) : ServerLabel → Prop
  | .service l => s.service.Orderly app l
  | _ => True

theorem ServerPhase.sweeps_cases {phase : ServerPhase} (h : phase.sweeps = true) :
    phase = .serving ∨ phase = .draining ∨ ∃ served, phase = .stopping served := by
  cases phase with
  | serving => exact .inl rfl
  | draining => exact .inr (.inl rfl)
  | stopping served => exact .inr (.inr ⟨served, rfl⟩)
  | _ => cases h

/-- Where connections are closed, only the calls of the buffers go on. -/
theorem ServerPhase.lets_closed {phase : ServerPhase} {l : ServiceLabel}
    (hclosed : phase.accepts = false) (hlets : phase.lets l = true) :
    ∃ id a, l = .buffers (.act id a) := by
  cases l with
  | buffers l =>
    cases l with
    | act id a => exact ⟨id, a, rfl⟩
    | _ => cases hlets
  | _ =>
    rw [show phase.lets _ = phase.accepts from rfl, hclosed] at hlets
    cases hlets

theorem buffers_step {s : Service} {l : GatewayLabel}
    (h : serviceStep app s (.buffers l) = some service) :
    gatewayStep app.buffers s.gateway l = some service.gateway ∧
      (service.gateway.mode ≠ .down → service = { s with gateway := service.gateway }) := by
  cases serviceStep_move h with
  | alone _ hg => exact ⟨hg, fun _ => rfl⟩
  | exits _ hg hdown => exact ⟨hg, fun hup => absurd hdown hup⟩

/-- A section of a call of a service that serves. -/
theorem act_step {s : Service} {a : CallAct} (hserving : s.gateway.mode = .serving)
    (h : serviceStep app s (.buffers (.act id a)) = some service) :
    ∃ c e, Assoc.get? id s.gateway.calls = some c ∧
      s.gateway.callStep app.buffers c.origin c.phase a = some e ∧
      service = { s with gateway := s.gateway.commit id c.origin e } := by
  obtain ⟨hg, hup⟩ := buffers_step h
  simp only [gatewayStep] at hg
  split at hg
  next => cases hg
  next c hget =>
    obtain ⟨e, he, heq⟩ := Option.map_eq_some_iff.mp hg
    refine ⟨c, e, hget, he, ?_⟩
    rw [hup, ← heq]
    rw [← heq]
    show s.gateway.mode ≠ .down
    rw [hserving]
    intro heq
    cases heq

namespace Server.Tended

/-- Between the replay and the last flush, only handlers and the sweeper call the buffers. -/
theorem between (h : s.Tended app) (hphase : s.phase.sweeps = true) {c : Nat × Call}
    (hc : c ∈ s.service.gateway.calls) :
    c.2.origin.isPush = true ∨ c.2.origin = .sweep ∧ s.sweep = some c.1 := by
  have htends := h.tends c hc
  cases horigin : c.2.origin with
  | push => exact .inl rfl
  | sweep =>
    rw [horigin] at htends
    exact .inr ⟨rfl, htends⟩
  | flushAll =>
    rw [horigin] at htends
    obtain ⟨served, heq⟩ := htends
    rw [heq] at hphase
    cases hphase
  | replay =>
    rw [horigin] at htends
    have heq : s.phase = .replaying := htends
    rw [heq] at hphase
    cases hphase

/-- What a call of the service leaves to the server. -/
theorem kept (h : s.Tended app) {l : ServiceLabel}
    (hstep : serviceStep app s.service l = some service)
    (hnew : ∀ id origin, l ≠ .buffers (.call id origin)) (hboot : l ≠ .buffers .boot) :
    ∀ c ∈ service.gateway.calls, s.Tends c.1 c.2.origin := by
  rcases serviceStep_gateway hstep with hsame | ⟨gl, hdo, hg⟩
  · rw [hsame]
    exact h.tends
  · intro c hc
    rcases origin_known hg c hc with ⟨c', hc', hid, horigin⟩ | rfl | rfl
    · rw [← hid, ← horigin]
      exact h.tends c' hc'
    · cases hdo
      exact absurd rfl hboot
    · generalize horigin : c.2.origin = origin at hdo
      cases hdo with
      | call put => trivial
      | self => exact absurd rfl (hnew _ _)

/-- The stage is kept by what the server lets happen besides. -/
theorem stage_service (h : s.Tended app) {l : ServiceLabel} (hlets : s.phase.lets l = true)
    (hstep : serviceStep app s.service l = some service) :
    Server.InStage { s with service := service } := by
  have hmode := lets_mode h.backed.sound.linked hlets hstep
  have hstage := h.stage
  unfold Server.InStage at hstage ⊢
  have hact (hclosed : s.phase.accepts = false) (hserving : s.service.gateway.mode = .serving) :
      ∃ id a c e, Assoc.get? id s.service.gateway.calls = some c ∧
        s.service.gateway.callStep app.buffers c.origin c.phase a = some e ∧
        service = { s.service with gateway := s.service.gateway.commit id c.origin e } := by
    obtain ⟨id, a, rfl⟩ := ServerPhase.lets_closed hclosed hlets
    obtain ⟨c, e, hget, he, heq⟩ := act_step hserving hstep
    exact ⟨id, a, c, e, hget, he, heq⟩
  cases hphase : s.phase with
  | replaying => trivial
  | serving =>
    rw [hphase] at hstage
    exact hmode.trans hstage
  | draining =>
    rw [hphase] at hstage
    exact hmode.trans hstage
  | stopping served =>
    rw [hphase] at hstage
    obtain ⟨-, -, -, -, -, -, rfl⟩ := hact (by rw [hphase]; rfl) hstage.1
    exact hstage
  | flushing served id =>
    rw [hphase] at hstage
    obtain ⟨hserving, hidle, hsweep, p, hcalls, hempties⟩ := hstage
    obtain ⟨id', a, c, e, hget, he, rfl⟩ := hact (by rw [hphase]; rfl) hserving
    rw [hcalls] at hget
    obtain ⟨rest, hremove⟩ := Assoc.get?_eq_some.mp hget
    obtain ⟨rfl, rfl, -⟩ := Assoc.of_remove_singleton hremove
    refine ⟨hserving, hidle, hsweep, e.phase, ?_, flushAll_empties he hempties⟩
    show Assoc.insert id' _ s.service.gateway.calls = _
    rw [hcalls]
    exact if_pos rfl
  | returned res =>
    rw [hphase] at hlets
    obtain ⟨id, a, rfl⟩ := ServerPhase.lets_closed rfl hlets
    cases hlets

/-- The stage of a server that goes on serving. -/
theorem of_serving {phase : ServerPhase} (hphase : phase.sweeps = true)
    (hserving : service.gateway.mode = .serving)
    (hidle : ∀ served, phase = .stopping served → service.handlers = []) (sweep : Option Nat) :
    Server.InStage ⟨service, sweep, phase⟩ := by
  rcases ServerPhase.sweeps_cases hphase with rfl | rfl | ⟨served, rfl⟩
  · exact hserving
  · exact hserving
  · exact ⟨hserving, hidle served rfl⟩

theorem serving (h : s.Tended app) (hphase : s.phase.sweeps = true) :
    s.service.gateway.mode = .serving ∧
      ∀ served, s.phase = .stopping served → s.service.handlers = [] := by
  have hstage := h.stage
  unfold Server.InStage at hstage
  rcases ServerPhase.sweeps_cases hphase with heq | heq | ⟨served, heq⟩
  · rw [heq] at hstage ⊢
    exact ⟨hstage, nofun⟩
  · rw [heq] at hstage ⊢
    exact ⟨hstage, nofun⟩
  · rw [heq] at hstage ⊢
    exact ⟨hstage.1, fun _ _ => hstage.2⟩

/-- A phase follows where only handlers and the sweeper call the buffers. -/
theorem goes_on (h : s.Tended app) (hphase : s.phase.sweeps = true) {phase : ServerPhase}
    (hstage : Server.InStage { s with phase := phase }) :
    Server.Tended app { s with phase := phase } := by
  refine ⟨h.backed, fun c hc => ?_, hstage⟩
  rcases h.between hphase hc with hpush | ⟨horigin, hsweep⟩
  · exact tends_push hpush
  · rw [horigin]
    exact hsweep

/-- The step lemma. -/
theorem step {l : ServerLabel} (h : s.Tended app) (hok : s.Orderly app l)
    (hstep : serverStep app s l = some t) : t.Tended app := by
  cases serverStep_move hstep with
  | @service l service hlets hservice =>
    refine ⟨h.backed.step hok hservice, h.kept hservice ?_ ?_, h.stage_service hlets hservice⟩
    · rintro id origin rfl
      cases hlets
    · rintro rfl
      cases hlets
  | @replayed service hphase hget hservice =>
    have hok : s.service.Orderly app (.buffers (.reply 0)) := trivial
    obtain ⟨hcalls, hserving⟩ := replay_ends h.backed.alone hget (buffers_step hservice).1
    exact ⟨h.backed.step hok hservice, fun c hc => absurd hc (hcalls ▸ List.not_mem_nil),
      hserving rfl⟩
  | @unreplayed err service hphase hget hservice =>
    have hok : s.service.Orderly app (.buffers (.reply 0)) := trivial
    obtain ⟨hcalls, -⟩ := replay_ends h.backed.alone hget (buffers_step hservice).1
    exact ⟨h.backed.step hok hservice, fun c hc => absurd hc (hcalls ▸ List.not_mem_nil), trivial⟩
  | @tick id service hsweep hphase hservice =>
    have hok : s.service.Orderly app (.buffers (.call id .sweep)) := trivial
    obtain ⟨hg, hup⟩ := buffers_step hservice
    obtain ⟨hserving, hidle⟩ := h.serving hphase
    have hmode : service.gateway.mode = .serving := (call_begins hg).2.trans hserving
    refine ⟨h.backed.step hok hservice, fun c hc => ?_, of_serving hphase hmode ?_ _⟩
    · rcases origin_known hg c hc with ⟨c', hc', hid, horigin⟩ | hboot | hcall
      · rw [← hid, ← horigin]
        rcases h.between hphase hc' with hpush | ⟨-, hsome⟩
        · exact tends_push hpush
        · rw [hsweep] at hsome
          cases hsome
      · cases hboot
      · obtain ⟨hid, horigin⟩ := GatewayLabel.call.inj hcall
        rw [← horigin]
        exact congrArg some hid
    · rw [hup (by rw [hmode]; nofun)]
      exact hidle
  | @swept id service hsweep hservice =>
    have hok : s.service.Orderly app (.buffers (.reply id)) := trivial
    obtain ⟨hg, hup⟩ := buffers_step hservice
    obtain ⟨c, rest, hremove, hcases⟩ := reply_cases hg
    have hmem : (id, c) ∈ s.service.gateway.calls :=
      (Assoc.remove_perm hremove).mem_iff.mpr List.mem_cons_self
    have hcalls : ∀ c' ∈ service.gateway.calls, c' ∈ rest := by
      rcases hcases with ⟨-, ⟨heq, -⟩ | heq⟩ | ⟨-, heq, -⟩
      · rw [heq]
        exact fun _ hc => hc
      · rw [heq]
        exact fun _ hc => absurd hc List.not_mem_nil
      · rw [heq]
        exact fun _ hc => hc
    refine ⟨h.backed.step hok hservice, fun c' hc' => ?_, ?_⟩
    · have hrest := hcalls c' hc'
      have htends := h.tends c' ((Assoc.remove_perm hremove).mem_iff.mpr
        (List.mem_cons_of_mem _ hrest))
      refine tends_unswept htends (fun horigin => ?_) _ _
      rw [horigin] at htends
      obtain rfl : id = c'.1 := Option.some.inj (hsweep.symm.trans htends)
      have hnodup := ((Assoc.remove_perm hremove).map Prod.fst).nodup_iff.mp
        h.backed.sound.linked.booked.nodup
      exact (List.nodup_cons.mp hnodup).1 (List.mem_map.mpr ⟨c', hrest, rfl⟩)
    · have hgoes (hphase : s.phase.sweeps = true) : Server.InStage ⟨service, none, s.phase⟩ := by
        obtain ⟨hserving, hidle⟩ := h.serving hphase
        have hne : c.origin ≠ .replay := by
          rcases h.between hphase hmem with hpush | ⟨horigin, -⟩
          · exact fun heq => by rw [heq] at hpush; cases hpush
          · exact fun heq => by rw [heq] at horigin; cases horigin
        have hmode : service.gateway.mode = .serving := by
          rcases hcases with ⟨heq, -⟩ | ⟨-, -, heq, -⟩
          · exact absurd heq hne
          · exact heq.trans hserving
        refine of_serving hphase hmode ?_ _
        rw [hup (by rw [hmode]; nofun)]
        exact hidle
      have hstage := h.stage
      unfold Server.InStage at hstage
      show Server.InStage ⟨service, none, s.phase⟩
      cases hphase : s.phase with
      | replaying => trivial
      | serving => exact hphase ▸ hgoes (by rw [hphase]; rfl)
      | draining => exact hphase ▸ hgoes (by rw [hphase]; rfl)
      | stopping served => exact hphase ▸ hgoes (by rw [hphase]; rfl)
      | flushing served id' =>
        rw [hphase] at hstage
        rw [hstage.2.2.1] at hsweep
        cases hsweep
      | returned res =>
        cases res with
        | error e => trivial
        | ok u =>
          rw [hphase] at hstage
          rw [hstage.2.2.1] at hmem
          cases hmem
  | shutdown hphase =>
    refine h.goes_on (by rw [hphase]; rfl) ?_
    exact (h.serving (by rw [hphase]; rfl)).1
  | served hphase hidle =>
    refine h.goes_on (by rw [hphase]; rfl) ?_
    exact ⟨(h.serving (by rw [hphase]; rfl)).1, hidle⟩
  | @flush id served service hphase hsweep hservice =>
    have hok : s.service.Orderly app (.buffers (.call id .flushAll)) := trivial
    have hsweeps : s.phase.sweeps = true := by rw [hphase]; rfl
    obtain ⟨hg, hup⟩ := buffers_step hservice
    obtain ⟨hserving, hidle⟩ := h.serving hsweeps
    obtain ⟨hcalls, hmode⟩ := call_begins hg
    have hnone : s.service.gateway.calls = [] := by
      refine List.eq_nil_iff_forall_not_mem.mpr fun c hc => ?_
      rcases h.between hsweeps hc with hpush | ⟨-, hsome⟩
      · rw [h.backed.sound.linked.no_push (hidle served hphase) hc] at hpush
        cases hpush
      · rw [hsweep] at hsome
        cases hsome
    rw [hnone, List.nil_append] at hcalls
    refine ⟨h.backed.step hok hservice, fun c hc => ?_, hmode.trans hserving, ?_, hsweep, .begin,
      hcalls, trivial⟩
    · have hmem : c ∈ service.gateway.calls := hc
      rw [hcalls, List.mem_singleton] at hmem
      rw [hmem]
      exact ⟨served, rfl⟩
    · rw [hup (by rw [hmode, hserving]; nofun)]
      exact hidle served hphase
  | @flushed id served origin err service hphase hget hservice =>
    have hok : s.service.Orderly app (.buffers (.reply id)) := trivial
    obtain ⟨hg, hup⟩ := buffers_step hservice
    have hstage := h.stage
    unfold Server.InStage at hstage
    rw [hphase] at hstage
    obtain ⟨hserving, hidle, -, p, hcalls, hempties⟩ := hstage
    obtain ⟨c, rest, hremove, hcases⟩ := reply_cases hg
    rw [hcalls] at hremove hget
    obtain ⟨-, rfl, rfl⟩ := Assoc.of_remove_singleton hremove
    obtain ⟨rest', hremove'⟩ := Assoc.get?_eq_some.mp hget
    obtain ⟨-, heq, -⟩ := Assoc.of_remove_singleton hremove'
    obtain ⟨-, rfl⟩ := Call.mk.inj heq
    rcases hcases with ⟨hreplay, -⟩ | ⟨-, hnone, hmode, hbuffers⟩
    · cases hreplay
    · refine ⟨h.backed.step hok hservice, fun c hc => absurd hc (hnone ▸ List.not_mem_nil), ?_⟩
      cases served with
      | false => trivial
      | true =>
        cases err with
        | some e => trivial
        | none =>
          refine ⟨hmode.trans hserving, ?_, hnone, hbuffers.trans (hempties rfl)⟩
          rw [hup (by rw [hmode, hserving]; nofun)]
          exact hidle

end Server.Tended

/-! ## A run of the server -/

/-- The server begins on what earlier processes left. -/
theorem Server.boot_tended {s₀ : Service}
    (before : LTS.Reaches (serviceStep app) (OnBuffers (SafeDisk app.buffers)) .start s₀)
    (hfirst : app.buffers.cfg.walDir = none → s₀.gateway.acked = [])
    (hboot : Server.boot app s₀ = some s) : s.Tended app := by
  obtain ⟨service, hservice, rfl⟩ := Option.map_eq_some_iff.mp hboot
  have hsound : s₀.Sound app :=
    before.invariant Service.start_sound fun _ _ _ h _ hstep => h.step hstep
  obtain ⟨_, hgateway, rfl⟩ := (service_projects app (fun _ _ _ => trivial)
    (fun _ _ => trivial) fun _ _ _ => trivial).reaches rfl before
  have hbuffers : s₀.gateway.Sound app.buffers := hgateway.invariant Gateway.start_sound
    fun _ _ _ h _ hstep => h.step hstep
  have halone : s₀.gateway.Alone := hgateway.invariant (fun _ hc => absurd hc List.not_mem_nil)
    fun _ _ _ h _ hstep => Gateway.Alone.step h hstep
  obtain ⟨hg, -⟩ := buffers_step hservice
  have hmove : service.gateway = { s₀.gateway.exited with
      mode := .replaying
      calls := [(0, ⟨.replay, .begin⟩)] } := by
    generalize service.gateway = g' at hg
    cases gatewayStep_move hg
    rfl
  refine ⟨⟨hsound.step hservice, hbuffers.step hg, halone.step hg, ?_⟩, fun c hc => ?_, trivial⟩
  · show Safeguarded app.buffers service.gateway
    rw [hmove]
    refine .unread rfl (fun hwal => ?_) fun hwal => ?_
    · show (s₀.gateway.acked : Multiset LogEvent) ≤ _
      rw [hfirst hwal]
      exact Multiset.zero_le _
    · obtain ⟨-, hsecured⟩ := service_secured hwal before
      exact ⟨hsecured.logged.fit, (Multiset.le_add_right _ _).trans hsecured.account⟩
  · have hmem : c ∈ service.gateway.calls := hc
    rw [hmove, List.mem_singleton] at hmem
    rw [hmem]
    rfl

/-- A server that is asked to stop and returns well leaves nothing behind. It may start on what
earlier processes left, crashed or not, where there is a log, and on nothing where there is
none; requests, sweeps and failed PUTs may interleave in any way. Where no client goes away
with events of others, and every buffer whose flush failed can be put back, no handler, no call
and no buffer is left in the end, and all that clients were told is accepted, by this process
or by an earlier one, is in stored chunks, as often as they were told. -/
theorem shutdown_stores_all (app : GatewayApp) {s₀ : Service} {s t : Server}
    (before : LTS.Reaches (serviceStep app) (OnBuffers (SafeDisk app.buffers)) .start s₀)
    (hfirst : app.buffers.cfg.walDir = none → s₀.gateway.acked = [])
    (hboot : Server.boot app s₀ = some s)
    (run : LTS.Reaches (serverStep app) (Server.Orderly app) s t)
    (hreturned : t.phase = .returned (.ok ())) :
    t.service.handlers = [] ∧ t.service.gateway.calls = [] ∧ t.service.gateway.buffers = [] ∧
      Assoc.total (toldBy app) t.service.answers ≤ t.service.gateway.stored app.buffers := by
  have h : t.Tended app := run.invariant (Server.boot_tended before hfirst hboot)
    fun _ _ _ h hok hstep => h.step hok hstep
  have hstage := h.stage
  unfold Server.InStage at hstage
  rw [hreturned] at hstage
  obtain ⟨hserving, hidle, hcalls, hbuffers⟩ := hstage
  refine ⟨hidle, hcalls, hbuffers, ?_⟩
  have hacked : (t.service.gateway.acked : Multiset LogEvent) ≤
      t.service.gateway.stored app.buffers := by
    cases h.backed.safe with
    | unread hone =>
      rw [hcalls] at hone
      cases hone
    | unreadable _ hone =>
      rw [hcalls] at hone
      cases hone
    | inPlay haccount =>
      refine ((Multiset.le_add_right _ _).trans haccount).trans (le_of_eq ?_)
      unfold Gateway.inPlay Gateway.buffered Gateway.taken
      rw [hcalls, hbuffers]
      exact zero_add _
    | down _ hdown =>
      rw [hserving] at hdown
      cases hdown
  exact ((Multiset.le_add_right _ _).trans h.backed.sound.accounted.told).trans hacked

instance Gateway.Orderly.decidable (m : BufferManager) (g : Gateway) :
    ∀ l, Decidable (g.Orderly m l)
  | .boot => inferInstanceAs (Decidable False)
  | .crash _ _ _ _ => inferInstanceAs (Decidable False)
  | .drop id _ =>
    inferInstanceAs (Decidable (∀ c ∈ Assoc.get? id g.calls, held m.lib c.phase.bufs ≤ c.owed))
  | .act id _ =>
    inferInstanceAs (Decidable (∀ c ∈ Assoc.get? id g.calls, c.phase.ComesBack g.buffers))
  | .call _ _ => inferInstanceAs (Decidable True)
  | .reply _ => inferInstanceAs (Decidable True)

instance Service.Orderly.decidable (app : GatewayApp) (s : Service) :
    ∀ l, Decidable (s.Orderly app l)
  | .buffers l => inferInstanceAs (Decidable (s.gateway.Orderly app.buffers l))
  | .disconnect id landed =>
    inferInstanceAs (Decidable (s.gateway.Orderly app.buffers (.drop id landed)))
  | .request _ _ _ => inferInstanceAs (Decidable True)
  | .pushed _ => inferInstanceAs (Decidable True)
  | .forwarded _ _ => inferInstanceAs (Decidable True)

instance Server.Orderly.decidable (app : GatewayApp) (s : Server) : ∀ l, Decidable (s.Orderly app l)
  | .service l => inferInstanceAs (Decidable (s.service.Orderly app l))
  | .replayed => inferInstanceAs (Decidable True)
  | .tick _ => inferInstanceAs (Decidable True)
  | .swept => inferInstanceAs (Decidable True)
  | .shutdown => inferInstanceAs (Decidable True)
  | .served _ => inferInstanceAs (Decidable True)
  | .flush _ => inferInstanceAs (Decidable True)
  | .flushed => inferInstanceAs (Decidable True)

namespace Concrete

/-- A batch is told, and the process crashes with it in the log. -/
def crashedOnce : List ServiceLabel :=
  bootService ++ [.request 1 (postOne "/s3") noon] ++ takenIn 1 ++ [.pushed 1,
    .buffers (.crash none 0 [] [(WalSegment.fileName "/s3" "1970-01-01" "u1", postedLine "/s3")])]

/-- The log is read, another batch comes in while a sweep is under way, and the server stops. -/
def servedOnce : List ServerLabel :=
  [.service (.buffers (.act 0 (.replay [] [io "u2"] none []))), .service (.buffers (.act 0 .flushed)),
      .replayed, .tick 2, .service (.request 3 (postOne "/s3") noon),
      .service (.buffers (.act 2 (.take [] 0))), .shutdown] ++
    (takenIn 3).map .service ++ [.service (.pushed 3), .served true,
      .service (.buffers (.act 2 .flushed)), .swept, .flush 4,
      .service (.buffers (.act 4 (.take [] 0)))] ++
    (stored 4 "x").map (fun l => .service (.buffers l)) ++
    [.service (.buffers (.act 4 .flushed)), .flushed]

end Concrete

open Concrete in
/-- A batch that a crashed process told is stored with one of the next. -/
theorem shutdown_stores_all_restarted : ∃ t : Server, t.service.answers.length = 2 ∧
    t.service.gateway.buffers = [] ∧
    Assoc.total (toldBy openService) t.service.answers ≤
      t.service.gateway.stored openService.buffers := by
  obtain ⟨s₀, before, hcheck⟩ := LTS.replay_spec (by decide +kernel :
    LTS.replay (serviceStep openService) (OnBuffers (SafeDisk openService.buffers)) .start
      crashedOnce (fun s₀ => (Server.boot openService s₀).any fun s =>
        LTS.replay (serverStep openService) (Server.Orderly openService) s servedOnce fun t =>
          decide (t.service.answers.length = 2 ∧ t.phase = .returned (.ok ()))) = true)
  cases hboot : Server.boot openService s₀ with
  | none =>
    rw [hboot] at hcheck
    cases hcheck
  | some s =>
    rw [hboot] at hcheck
    obtain ⟨t, run, hend⟩ := LTS.replay_spec hcheck
    obtain ⟨hanswers, hreturned⟩ := of_decide_eq_true hend
    obtain ⟨-, -, hbuffers, htold⟩ :=
      shutdown_stores_all openService before nofun hboot run hreturned
    exact ⟨t, hanswers, hbuffers, htold⟩

end S4Logs

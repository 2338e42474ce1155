import S4Logs.Laws.Gateway.Answers
import S4Logs.Laws.Gateway.Auth
import S4Logs.Laws.Gateway.Received

/-!
# Who writes to the bucket

What the buffers are given, a request that was let in gave them: no other label of the service
pushes. With the trace of every record back to a push, through any number of crashes and
replays, a client without the secret puts nothing into the bucket.
-/

namespace S4Logs

variable {app : GatewayApp} {s t : Service}

/-- The event came in with a request for its group that was let in, with its signature verified
where one is asked for, and is routed to S3. -/
def Service.LetIn (app : GatewayApp) (s : Service) (ev : LogEvent) : Prop :=
  ∃ id r put, (id, r) ∈ s.received ∧
    app.accept r.view r.clock.nowNs = .ok (.putLogEvents put) ∧ (put.action app).toS3 = true ∧
    put.logGroupName = ev.logGroup ∧ ev ∈ put.origin.batch ∧
    ∀ accessKey secretKey, app.auth = .sigV4 accessKey secretKey →
      verify app.hashes accessKey secretKey r.view r.clock.nowNs = .ok ()

/-- A request that is let in is signed where the mode asks for it. -/
theorem accept_verified {view : RequestView} {nowNs : Int} {req : ApiRequest}
    (h : app.accept view nowNs = .ok req) {accessKey secretKey : String}
    (hauth : app.auth = .sigV4 accessKey secretKey) :
    verify app.hashes accessKey secretKey view nowNs = .ok () := by
  have hauthentic : app.authenticate view nowNs = .ok () := by
    unfold GatewayApp.accept at h
    cases hok : app.authenticate view nowNs with
    | ok => rfl
    | error e =>
      rw [hok] at h
      cases h
  unfold GatewayApp.authenticate at hauthentic
  rw [hauth] at hauthentic
  dsimp only at hauthentic
  split at hauthentic
  next => cases hauthentic
  next =>
    split at hauthentic
    next hverify => exact hverify
    next => cases hauthentic
    next => cases hauthentic

/-- What a label adds to what came in. -/
def ServiceLabel.receives : ServiceLabel → List (Nat × Received)
  | .request id view clock => [(id, ⟨view, clock⟩)]
  | _ => []

theorem serviceStep_received {l : ServiceLabel} (hstep : serviceStep app s l = some t) :
    t.received = s.received ++ l.receives := by
  cases serviceStep_move hstep with
  | rejected => rfl
  | answered => rfl
  | pushes => rfl
  | calls => rfl
  | alone => exact (List.append_nil _).symm
  | exits => exact (List.append_nil _).symm
  | refused => exact (List.append_nil _).symm
  | took => exact (List.append_nil _).symm
  | goesOn => exact (List.append_nil _).symm
  | forwarded => exact (List.append_nil _).symm
  | leaves => exact (List.append_nil _).symm
  | leavesCloudwatch => exact (List.append_nil _).symm

/-- A push is the batch of a request that was let in and is routed to S3. -/
def Service.Pushes (app : GatewayApp) (s : Service) : GatewayLabel → Prop
  | .call id (.push logGroup stream events) => ∃ r, (id, r) ∈ s.received ∧
      app.accept r.view r.clock.nowNs = .ok (.putLogEvents ⟨logGroup, stream, events⟩) ∧
      (PutLogEventsRequest.action app ⟨logGroup, stream, events⟩).toS3 = true
  | _ => True

theorem Service.Pushes.mono {l : GatewayLabel} (h : s.Pushes app l)
    (hsub : s.received ⊆ t.received) : t.Pushes app l := by
  unfold Service.Pushes at h ⊢
  split
  next =>
    obtain ⟨r, hr, haccept, htoS3⟩ := h
    exact ⟨r, hsub hr, haccept, htoS3⟩
  next => trivial

/-- Only requests push. -/
theorem seenByBuffers_pushes {l : ServiceLabel} (hstep : serviceStep app s l = some t) :
    ∀ gl ∈ s.seenByBuffers app l, t.Pushes app gl := by
  have hreceived := serviceStep_received hstep
  intro gl hgl
  cases l with
  | request id view clock =>
    simp only [Service.seenByBuffers] at hgl
    split at hgl
    next req haccept =>
      obtain ⟨origin, horigin, rfl⟩ := List.mem_map.mp hgl
      cases req with
      | putLogEvents put =>
        rw [ApiRequest.pushes] at horigin
        split at horigin
        next htoS3 =>
          obtain rfl := List.mem_singleton.mp horigin
          refine ⟨⟨view, clock⟩, ?_, haccept, htoS3⟩
          rw [hreceived]
          exact List.mem_append_right _ (List.mem_singleton_self _)
        next => cases horigin
      | createLogGroup => cases horigin
      | createLogStream => cases horigin
      | describeLogGroups => cases horigin
      | describeLogStreams => cases horigin
    next => cases hgl
  | buffers l =>
    obtain rfl := List.mem_singleton.mp hgl
    unfold Service.Pushes
    split
    next =>
      rw [serviceStep, if_neg (by rw [GatewayLabel.alone]; exact Bool.false_ne_true)] at hstep
      cases hstep
    next => trivial
  | pushed id =>
    obtain rfl := List.mem_singleton.mp hgl
    trivial
  | forwarded id ok => cases hgl
  | disconnect id landed =>
    simp only [Service.seenByBuffers] at hgl
    split at hgl
    next =>
      obtain rfl := List.mem_singleton.mp hgl
      trivial
    next => cases hgl

/-- Every record of a data object in the bucket came in with a request for its group that was
let in. With signatures, its signature was verified. This holds over crashes that only lose
octets, and over the replays after them. -/
theorem objects_let_in (app : GatewayApp) (hsealed : app.buffers.entries.Sealed)
    {labels : List ServiceLabel} {s : Service}
    (hcut : LTS.Along (serviceStep app) (OnBuffers (CrashesCut app.buffers)) .start labels)
    (run : LTS.exec (serviceStep app) .start labels = some s) :
    ∀ o ∈ s.gateway.objects, InPartition app.buffers.lib app.buffers.cfg.account
      (fun logGroup r => s.LetIn app ⟨logGroup, r⟩) o := by
  have hpushes : ∀ gl ∈ LTS.seen (serviceStep app) (Service.seenByBuffers app) .start labels,
      s.Pushes app gl := by
    refine LTS.exec_seen (I := fun seen s => ∀ gl ∈ seen, Service.Pushes app s gl)
      (fun _ h => absurd h List.not_mem_nil) (fun past l s t h hstep gl hgl => ?_) run
    rcases List.mem_append.mp hgl with hgl | hgl
    · refine (h gl hgl).mono fun e he => ?_
      rw [serviceStep_received hstep]
      exact List.mem_append_left _ he
    · exact seenByBuffers_pushes hstep gl hgl
  obtain ⟨_, halong, hexec, rfl⟩ := (service_projects app (fun _ _ _ => trivial)
    (fun _ _ => trivial) fun _ _ _ => trivial).exec rfl hcut run
  have htraced := gateway_traced hsealed halong hexec
  refine fun o ho => (htraced.origins.objects o ho).mono fun logGroup rec hrec => ?_
  obtain ⟨id, stream, events, hcall, hev⟩ := hrec
  obtain ⟨r, hr, haccept, htoS3⟩ := hpushes _ hcall
  exact ⟨id, r, _, hr, haccept, htoS3, rfl, hev, fun _ _ hauth => accept_verified haccept hauth⟩

/-! ## A signed batch -/

namespace Concrete

def signedBody : String :=
  "\x7b\"logGroupName\":\"/s3\",\"logStreamName\":\"s\",\"logEvents\":" ++
    "[\x7b\"timestamp\":5,\"message\":\"a\"\x7d]\x7d"

/-- The request as it is hashed and signed. -/
def putCanonical : String :=
  "POST\n/\n\nhost:logs.example\nx-amz-date:20150830T123600Z\n" ++
    "x-amz-target:Logs_20140328.PutLogEvents\n\nhost;x-amz-date;x-amz-target\n" ++
    "0b354081ffaee7725ae1051169cf57838a50840fb1cfba21c7c3ff188218594f"

def putSigned : String :=
  "AWS4-HMAC-SHA256\n20150830T123600Z\n20150830/us-east-1/logs/aws4_request\n" ++
    "76c10d057c9b15b3aee99ce57e112921f15b51d9187c372e48dd9088c480b101"

def putDigests : List (Bytes × Bytes) :=
  [(Bytes.ofString signedBody,
      unhex "0b354081ffaee7725ae1051169cf57838a50840fb1cfba21c7c3ff188218594f"),
    (Bytes.ofString putCanonical,
      unhex "76c10d057c9b15b3aee99ce57e112921f15b51d9187c372e48dd9088c480b101")]

/-- Key, message and code, from the secret to the signature. -/
def putMacs : List (Bytes × Bytes × Bytes) :=
  [(Bytes.ofString ("AWS4" ++ docSecret), Bytes.ofString "20150830",
      unhex "0138c7a6cbd60aa727b2f653a522567439dfb9f3e72b21f9b25941a42f04a7cd"),
    (unhex "0138c7a6cbd60aa727b2f653a522567439dfb9f3e72b21f9b25941a42f04a7cd",
      Bytes.ofString "us-east-1",
      unhex "f33d5808504bf34812e5fade63308b424b244c59189be2a591dd2282c7cb563f"),
    (unhex "f33d5808504bf34812e5fade63308b424b244c59189be2a591dd2282c7cb563f",
      Bytes.ofString "logs",
      unhex "6752e586994179fb884374d0a52ac3f28e9071f2a06b148bd6c49002d7b9226f"),
    (unhex "6752e586994179fb884374d0a52ac3f28e9071f2a06b148bd6c49002d7b9226f",
      Bytes.ofString "aws4_request",
      unhex "e331900b4b6563bb0198f704189816ba9712a0a77fbd01a6d6c3a2550a853794"),
    (unhex "e331900b4b6563bb0198f704189816ba9712a0a77fbd01a6d6c3a2550a853794",
      Bytes.ofString putSigned,
      unhex "fdc7039500f511c3788ce9a532b5c2ea52aec836a3a062eb72d1882bab102e62")]

/-- The two hashes, with their own values where the batch takes them. -/
def putHashes : Hashes where
  sha256 := tabled putDigests
  hmac256 key := tabled ((putMacs.filter fun e => e.1 = key).map Prod.snd)

def signedPut : RequestView where
  method := "POST"
  path := "/"
  query := none
  headers := [("host", Bytes.ofString "logs.example"),
    ("x-amz-date", Bytes.ofString "20150830T123600Z"),
    ("x-amz-target", Bytes.ofString "Logs_20140328.PutLogEvents"),
    ("authorization", Bytes.ofString ("AWS4-HMAC-SHA256 " ++
      "Credential=AKIDEXAMPLE/20150830/us-east-1/logs/aws4_request, " ++
      "SignedHeaders=host;x-amz-date;x-amz-target, " ++
      "Signature=fdc7039500f511c3788ce9a532b5c2ea52aec836a3a062eb72d1882bab102e62"))]
  body := Bytes.ofString signedBody

def lockedService : GatewayApp := served none (.sigV4 "AKIDEXAMPLE" docSecret) putHashes

/-- A signed batch and one without a signature come in, and all buffers are flushed. -/
def signedAndNot : List ServiceLabel :=
  bootService ++ [.request 1 signedPut noon, .request 2 (postOne "/s3") noon] ++ takenIn 1 ++
    [.pushed 1, .buffers (.call 3 .flushAll), .buffers (.act 3 (.take [] 0))] ++
    (stored 3 "x").map .buffers

end Concrete

open Concrete in
/-- A request that is signed, and one that is not. -/
theorem objects_let_in_signed : ∃ s : Service, s.gateway.objects.length = 1 ∧
    s.received.length = 2 ∧ ∀ o ∈ s.gateway.objects,
      InPartition lockedService.buffers.lib lockedService.buffers.cfg.account
        (fun logGroup r => s.LetIn lockedService ⟨logGroup, r⟩) o := by
  have hcheck : (LTS.exec (serviceStep lockedService) .start signedAndNot).elim false
      (fun s => s.gateway.objects.length == 1 && s.received.length == 2) = true := by
    decide +kernel
  have hcut : LTS.Along (serviceStep lockedService)
      (OnBuffers (CrashesCut lockedService.buffers)) .start signedAndNot := by
    refine LTS.Along.of_mem fun s => ?_
    simp [signedAndNot, bootService, started, takenIn, stored, OnBuffers, CrashesCut]
  cases hrun : LTS.exec (serviceStep lockedService) .start signedAndNot with
  | none =>
    rw [hrun] at hcheck
    cases hcheck
  | some s =>
    rw [hrun] at hcheck
    have hcheck : (s.gateway.objects.length == 1 && s.received.length == 2) = true := hcheck
    rw [Bool.and_eq_true, beq_iff_eq, beq_iff_eq] at hcheck
    exact ⟨s, hcheck.1, hcheck.2, objects_let_in lockedService entries_sealed hcut hrun⟩

end S4Logs

import S4Logs.Laws.Core.Partition
import S4Logs.Laws.Gateway.Dated
import S4Logs.Laws.Gateway.Written

/-!
# Where the events of a data object come from

An event comes into the gateway with a push or from a segment that a start found, and what
is in the map, with a call or in a chunk came in before. A buffer has the events of its own
log group and day, so every data object stays inside its partition.
-/

namespace S4Logs

variable {m : BufferManager} {s t : Gateway} {origin : Origin} {p : CallPhase} {a : CallAct}
variable {e : CallEffect} {R R' : LogEvent → Prop} {past : List GatewayLabel} {l : GatewayLabel}

/-- What comes into the gateway: the batch of a push, and what a replay reads. -/
def Gateway.receives (m : BufferManager) (s : Gateway) : GatewayLabel → List LogEvent
  | .call _ origin => origin.batch
  | .act _ (.replay _ _ _ _) => Gateway.survivingEvents (scanDir m.entries s.disk)
  | _ => []

/-- The event was in a batch that was pushed for its log group. -/
def Pushed (past : List GatewayLabel) (ev : LogEvent) : Prop :=
  ∃ id stream events, .call id (.push ev.logGroup stream events) ∈ past ∧
    ev ∈ batchEvents ev.logGroup stream events

/-- The data objects whose PUT a call waits for. -/
def Gateway.underWay (s : Gateway) : List (ChunkLocation × EncodedChunk) :=
  s.calls.flatMap fun c => c.2.phase.pending

/-- All that is in the gateway has the property, and every buffer has the events of its own
log group and day. -/
structure Gateway.From (m : BufferManager) (R : LogEvent → Prop) (s : Gateway) : Prop where
  sound : s.Sound m
  dated : s.Every (Dated m.lib)
  batches : ∀ c ∈ s.calls, ∀ ev ∈ c.2.origin.batch, R ev
  inPlay : ∀ ev ∈ s.inPlay m, R ev
  objects : ∀ o ∈ s.objects, InPartition m.lib m.cfg.account (fun logGroup r => R ⟨logGroup, r⟩) o

/-! ## What comes in -/

theorem pushAll_taken {items : List (LogEvent × EventIo)} : ∀ {l l' : Locked}
    {pushed : List LogEvent} {err : Option BufferError}, m.pushAll l items = (l', pushed, err) →
    ∀ ev ∈ pushed, ev ∈ items.map Prod.fst := by
  induction items with
  | nil =>
    intro l l' pushed err hpush ev hev
    cases hpush
    cases hev
  | cons item items ih =>
    intro l l' pushed err hpush ev hev
    obtain ⟨ev', io⟩ := item
    cases hone : m.pushOne l ev'.logGroup ev'.record io with
    | mk l₁ r =>
      obtain ⟨took, err'⟩ := r
      simp only [BufferManager.pushAll, hone] at hpush
      rw [List.map_cons]
      cases err' with
      | some err' =>
        cases hpush
        split at hev
        next =>
          rw [List.mem_singleton.mp hev]
          exact List.mem_cons_self
        next => cases hev
      | none =>
        cases hpush
        rcases List.mem_cons.mp hev with rfl | hev
        · exact List.mem_cons_self
        · exact List.mem_cons_of_mem _ (ih rfl ev hev)

/-- What a writer takes is of the batch of the call, or of the segments that it found. -/
theorem CallMove.taken {id : Nat} (h : CallMove m s origin p a e)
    (hbatch : ∀ ev ∈ origin.batch, R ev) (hscan : ∀ ev ∈ s.receives m (.act id a), R ev) :
    ∀ ev ∈ e.appended, R ev := by
  have hpushed : ∀ {events : List LogEvent} {ios : List EventIo} {order : List BufKey}
      {fails : Option String} {l : Locked} {pushed : List LogEvent} {err : Option BufferError},
      Enters m s origin p a events ios order fails →
      m.pushAll s.lock (events.zip ios) = (l, pushed, err) → ∀ ev ∈ pushed, R ev := by
    intro events ios order fails l pushed err henters hpush ev hev
    have hmem := pushAll_taken hpush ev hev
    rw [henters.pushed] at hmem
    cases henters with
    | append => exact hbatch ev hmem
    | replay => exact hscan ev hmem
  cases h with
  | pushFails henters hpush => exact hpushed henters hpush
  | syncFails henters hpush => exact hpushed henters hpush
  | accept _ _ _ henters hpush => exact hpushed henters hpush
  | pass => exact fun _ hev => absurd hev List.not_mem_nil
  | take => exact fun _ hev => absurd hev List.not_mem_nil
  | retire => exact fun _ hev => absurd hev List.not_mem_nil
  | putNext => exact fun _ hev => absurd hev List.not_mem_nil
  | putDone => exact fun _ hev => absurd hev List.not_mem_nil
  | reinsert => exact fun _ hev => absurd hev List.not_mem_nil

/-- What a step adds to the events that writers took came in with it or before. -/
theorem Gateway.From.appended (h : s.From m R) (hsub : ∀ ev, R ev → R' ev)
    (hin : ∀ ev ∈ s.receives m l, R' ev) (hstep : gatewayStep m s l = some t) {new : List LogEvent}
    (hnew : t.appended = s.appended ++ new) : ∀ ev ∈ new, R' ev := by
  have hnone : t.appended = s.appended → ∀ ev ∈ new, R' ev := by
    intro hsame ev hev
    have hnil : new = [] := List.append_cancel_left
      (hnew.symm.trans (hsame.trans (List.append_nil _).symm))
    rw [hnil] at hev
    cases hev
  cases gatewayStep_move hstep with
  | @act id a c e hget hmove =>
    obtain rfl : e.appended = new := List.append_cancel_left hnew
    refine hmove.taken (fun ev hev => ?_) hin
    exact hsub ev (h.batches _ (Assoc.mem_of_get? hget) ev hev)
  | boot => exact hnone rfl
  | call => exact hnone rfl
  | served => exact hnone rfl
  | unserved => exact hnone rfl
  | acked => exact hnone rfl
  | refused => exact hnone rfl
  | drop => exact hnone rfl
  | crash => exact hnone rfl

/-! ## What is stored -/

/-- The data object of a chunk that a call waits for is inside its partition. -/
theorem Gateway.From.put (h : s.From m R) {c : Nat × Call} (hc : c ∈ s.calls) {key : BufKey}
    {buf : Buf} {o : ChunkLocation × EncodedChunk} {stage : PutStage} {f : Flush}
    (hput : c.2.phase = .put key buf o.1 o.2 stage f) :
    InPartition m.lib m.cfg.account (fun logGroup r => R ⟨logGroup, r⟩) o := by
  have hsound := h.sound.calls c hc
  rw [hput] at hsound
  have hmem : ∀ r ∈ objectRecords m.lib o.2.body, ⟨o.1.logGroup, r⟩ ∈ chunkEvents m.lib o :=
    fun r hr => Multiset.mem_coe.mpr (List.mem_map_of_mem hr)
  have hdated : AllBufs (Dated m.lib) c.2.phase.bufs := h.dated.calls c hc
  rw [hput] at hdated
  obtain ⟨uuid, hloc⟩ := hsound.2.1
  have hchunk : DatedChunk m.lib o := by
    intro ev hev
    rw [chunkEvents_encoded hsound.1 hsound.2.1] at hev
    rw [hloc]
    exact hdated (key, buf) List.mem_cons_self ev hev
  refine ⟨by rw [hloc]; rfl, fun r hr => ?_, fun r hr => ?_⟩
  · refine h.inPlay _ (Multiset.mem_of_le ?_ (hmem r hr))
    refine (chunkEvents_le_taken h.sound hc hput).trans ?_
    exact (Multiset.le_add_left _ _).trans (Multiset.le_add_right _ _)
  · exact (Prod.mk.inj (hchunk _ (hmem r hr))).2

theorem Gateway.From.underWay (h : s.From m R) : ∀ o ∈ s.underWay,
    InPartition m.lib m.cfg.account (fun logGroup r => R ⟨logGroup, r⟩) o := by
  intro o ho
  obtain ⟨c, hc, ho⟩ := List.mem_flatMap.mp ho
  obtain ⟨key, buf, f, hput⟩ := CallPhase.mem_pending ho
  exact h.put hc hput

/-- A data object that a step leaves landed before, or a call waited for its PUT. -/
theorem objects_known (hstep : gatewayStep m s l = some t) : ∀ o ∈ t.objects, s.Knows o := by
  intro o ho
  cases gatewayStep_move hstep with
  | boot => exact .inl ho
  | call => exact .inl ho
  | act hget hmove =>
    rcases List.mem_append.mp ho with ho | ho
    · exact .inl ho
    · exact .inr ⟨_, Assoc.mem_of_get? hget, hmove.stores (.inl ho)⟩
  | served => exact .inl ho
  | unserved => exact .inl ho
  | acked => exact .inl ho
  | refused => exact .inl ho
  | @drop id landed c calls hremove =>
    rcases List.mem_append.mp ho with ho | ho
    · exact .inl ho
    · split at ho
      next =>
        obtain ⟨key, buf, f, hput⟩ := CallPhase.mem_pending ho
        have hmem := (Assoc.remove_perm hremove).mem_iff.mpr List.mem_cons_self
        exact .inr ⟨_, hmem, key, buf, .data, f, hput⟩
      next => cases ho
  | crash objects chunks hknown => exact hknown o ho

/-! ## Over a run -/

theorem Gateway.start_from : Gateway.start.From m R where
  sound := Gateway.start_sound
  dated := ⟨AllBufs.nil, fun _ hc => absurd hc List.not_mem_nil⟩
  batches _ hc := absurd hc List.not_mem_nil
  inPlay _ hev := absurd hev (Multiset.notMem_zero _)
  objects _ ho := absurd ho List.not_mem_nil

theorem Gateway.From.batches_step (h : s.From m R) (hsub : ∀ ev, R ev → R' ev)
    (hin : ∀ ev ∈ s.receives m l, R' ev) (hstep : gatewayStep m s l = some t) :
    ∀ c ∈ t.calls, ∀ ev ∈ c.2.origin.batch, R' ev := by
  have hold : ∀ c ∈ s.calls, ∀ ev ∈ c.2.origin.batch, R' ev :=
    fun c hc ev hev => hsub ev (h.batches c hc ev hev)
  have hrest : ∀ {id : Nat} {c : Call} {calls : List (Nat × Call)},
      Assoc.remove id s.calls = some (c, calls) → ∀ c ∈ calls, ∀ ev ∈ c.2.origin.batch, R' ev :=
    fun hremove c hc => hold c ((Assoc.remove_perm hremove).mem_iff.mpr
      (List.mem_cons_of_mem _ hc))
  cases gatewayStep_move hstep with
  | boot =>
    intro c hc ev hev
    rw [List.mem_singleton.mp hc] at hev
    cases hev
  | call =>
    intro c hc
    rcases List.mem_append.mp hc with hc | hc
    · exact hold c hc
    · rw [List.mem_singleton.mp hc]
      exact hin
  | @act id a c e hget =>
    intro c' hc'
    rcases Assoc.mem_insert hc' with rfl | hc'
    · exact hold (id, c) (Assoc.mem_of_get? hget)
    · exact hold c' hc'
  | served hremove => exact hrest hremove
  | unserved => exact fun _ hc => absurd hc List.not_mem_nil
  | acked _ hremove => exact hrest hremove
  | refused _ hremove => exact hrest hremove
  | drop hremove => exact hrest hremove
  | crash => exact fun _ hc => absurd hc List.not_mem_nil

/-- The step lemma. -/
theorem Gateway.From.step (h : s.From m R) (hsub : ∀ ev, R ev → R' ev)
    (hin : ∀ ev ∈ s.receives m l, R' ev) (hstep : gatewayStep m s l = some t) : t.From m R' where
  sound := h.sound.step hstep
  dated := (dated_rule m).step h.sound h.dated hstep
  batches := h.batches_step hsub hin hstep
  inPlay ev hev := by
    obtain ⟨new, hnew, hle, -⟩ := inPlay_step h.sound hstep
    rcases Multiset.mem_add.mp (Multiset.mem_of_le hle hev) with hold | hnewer
    · exact hsub ev (h.inPlay ev hold)
    · exact h.appended hsub hin hstep hnew ev (Multiset.mem_coe.mp hnewer)
  objects o ho := by
    have hpart : InPartition m.lib m.cfg.account (fun logGroup r => R ⟨logGroup, r⟩) o := by
      rcases objects_known hstep o ho with hlanded | ⟨c, hc, key, buf, stage, f, hput⟩
      · exact h.objects o hlanded
      · exact h.put hc hput
    exact hpart.mono fun logGroup r => hsub ⟨logGroup, r⟩

/-- In every run every data object is inside its partition: its records came in for its log
group, with a push or from a segment. -/
theorem gateway_received {labels : List GatewayLabel}
    (run : LTS.exec (gatewayStep m) Gateway.start labels = some s) :
    s.From m fun ev => ev ∈ LTS.seen (gatewayStep m) (Gateway.receives m) Gateway.start labels := by
  refine LTS.exec_seen (I := fun got s => s.From m fun ev => ev ∈ got) Gateway.start_from
    (fun got l s t h hstep => ?_) run
  exact h.step (fun ev hev => List.mem_append_left _ hev)
    (fun ev hev => List.mem_append_right _ hev) hstep

/-! ## Where a crash only loses octets -/

/-- A crash only loses octets of what is on the disk at that moment. -/
def CrashesCut (m : BufferManager) (s : Gateway) : GatewayLabel → Prop
  | .crash during ops _ after => CutLaw (s.diskAt m during ops) after
  | _ => True

theorem Pushed.mono {later : List GatewayLabel} {ev : LogEvent} (h : Pushed past ev) :
    Pushed (past ++ later) ev := by
  obtain ⟨id, stream, events, hcall, hev⟩ := h
  exact ⟨id, stream, events, List.mem_append_left _ hcall, hev⟩

theorem Pushed.of_call {id : Nat} {ev : LogEvent} (hev : ev ∈ origin.batch) :
    Pushed (past ++ [.call id origin]) ev := by
  cases origin with
  | push logGroup stream events =>
    obtain ⟨input, hinput, rfl⟩ := List.mem_map.mp hev
    exact ⟨id, stream, events, List.mem_append_right _ (List.mem_singleton_self _),
      List.mem_map_of_mem hinput⟩
  | sweep => cases hev
  | flushAll => cases hev
  | replay => cases hev

/-- All that is in the gateway and on its disk was pushed. -/
structure Gateway.Traced (m : BufferManager) (past : List GatewayLabel) (s : Gateway) : Prop where
  origins : s.From m (Pushed past)
  disk : s.disk.Joined m.entries (Pushed past)

theorem Gateway.Traced.receives (h : s.Traced m past) (hs : m.entries.Sealed) :
    ∀ ev ∈ s.receives m l, Pushed (past ++ [l]) ev := by
  intro ev hev
  unfold Gateway.receives at hev
  split at hev
  next => exact .of_call hev
  next => exact (h.disk.scan hs ev hev).mono
  next => cases hev

/-- What a section appends is of events that were pushed. -/
theorem Gateway.Traced.joins (h : s.Traced m past) (hs : m.entries.Sealed) {id : Nat} {c : Call}
    (hget : Assoc.get? id s.calls = some c) (hmove : CallMove m s c.origin c.phase a e) :
    ∀ op ∈ e.ops, op.Joins m.entries (Pushed past) :=
  hmove.joins (h.origins.batches _ (Assoc.mem_of_get? hget)) fun _ => h.disk.scan hs

theorem Gateway.Traced.diskAt (h : s.Traced m past) (hs : m.entries.Sealed)
    (during : Option (Nat × CallAct)) (ops : Nat) :
    (s.diskAt m during ops).Joined m.entries (Pushed past) := by
  unfold Gateway.diskAt
  split
  next => exact h.disk
  next e he =>
    obtain ⟨d, -, heffect⟩ := Option.bind_eq_some_iff.mp he
    obtain ⟨c, hget, hcall⟩ := Option.bind_eq_some_iff.mp heffect
    have hops := h.joins hs hget (callStep_move hcall)
    exact h.disk.applyAll fun op hop => hops op (List.mem_of_mem_take hop)

theorem Gateway.Traced.step (h : s.Traced m past) (hs : m.entries.Sealed) (hcut : CrashesCut m s l)
    (hstep : gatewayStep m s l = some t) : t.Traced m (past ++ [l]) where
  origins := h.origins.step (fun _ hev => hev.mono) (h.receives hs) hstep
  disk := by
    have hmono : ∀ ev, Pushed past ev → Pushed (past ++ [l]) ev := fun _ hev => hev.mono
    refine Disk.Joined.mono ?_ hmono
    cases gatewayStep_move hstep with
    | act hget hmove => exact h.disk.applyAll (h.joins hs hget hmove)
    | crash => exact (h.diskAt hs _ _).crashed hcut
    | boot => exact h.disk
    | call => exact h.disk
    | served => exact h.disk
    | unserved => exact h.disk
    | acked => exact h.disk
    | refused => exact h.disk
    | drop => exact h.disk

/-- Where no crash makes octets up, the records of every data object were pushed for its log
group. -/
theorem gateway_traced {labels : List GatewayLabel} (hs : m.entries.Sealed)
    (hcut : LTS.Along (gatewayStep m) (CrashesCut m) Gateway.start labels)
    (run : LTS.exec (gatewayStep m) Gateway.start labels = some s) : s.Traced m labels := by
  refine hcut.invariant (I := fun past s => s.Traced m past) ⟨Gateway.start_from, Disk.Joined.empty⟩
    (fun past l s t h hok hstep => ?_) run
  exact h.step hs hok hstep

end S4Logs

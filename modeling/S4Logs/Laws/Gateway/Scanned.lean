import S4Logs.Laws.Cli.Restored
import S4Logs.Laws.Gateway.Received
import S4Logs.Laws.Gateway.Told

/-!
# A scan of what the gateway stored

Every buffer was made by pushes, and so is every chunk made of one (`Wrought`). A bucket that
holds the data objects of a run, each under a name of its own, is therefore an archive as a
reader needs it, and what a client was told is accepted is found by a scan of its group, or
still lies in the log.
-/

namespace S4Logs

variable {m : BufferManager} {s t : Gateway} {l : GatewayLabel} {origin : Origin}
variable {p : CallPhase} {a : CallAct} {e : CallEffect}

/-! ## Chunks are made of buffers -/

/-- The writer of a buffer was made by pushes. -/
def MadeBuf (m : BufferManager) (_ : BufKey) (buf : Buf) : Prop :=
  ∃ cfg rs, buf.writer.Made m.lib cfg rs

theorem pushRecords_made {cfg : ChunkConfig} (recs : List LogRecord) : ∀ {w : ChunkWriter}
    {rs : List LogRecord}, w.Made m.lib cfg rs → ∃ rs', (m.pushRecords w recs).Made m.lib cfg rs' := by
  induction recs with
  | nil => exact fun h => ⟨_, h⟩
  | cons rec recs ih => exact fun h => ih (h.push rec).1

theorem madeBuf_rule (m : BufferManager) : BufRule m (MadeBuf m) where
  fresh _ _ _ _ _ := ⟨m.cfg.chunk, [], ChunkWriter.made_new _ _⟩
  push _ _ rec _ _ h := by
    obtain ⟨cfg, rs, hmade⟩ := h
    exact ⟨cfg, _, (hmade.push rec).1⟩
  segment _ _ _ _ _ h := h
  merge _ _ _ recs _ _ _ _ h _ := by
    obtain ⟨cfg, rs, hmade⟩ := h
    exact ⟨cfg, pushRecords_made recs hmade⟩
  clock _ _ _ _ h := h

/-- The chunk was made of records. -/
def MadeChunk (m : BufferManager) (chunk : EncodedChunk) : Prop := ∃ rs, chunk.Made m.lib rs

/-- A chunk that is being put was made of records. -/
def CallPhase.Wrought (m : BufferManager) : CallPhase → Prop
  | .put _ _ _ chunk _ _ => MadeChunk m chunk
  | _ => True

/-- What holds of every run: buffers and chunks are made by pushes, and what was stored lies in
its partition. -/
structure Gateway.Wrought (m : BufferManager) (s : Gateway) : Prop where
  origins : s.From m fun _ => True
  made : s.Every (MadeBuf m)
  calls : ∀ c ∈ s.calls, c.2.phase.Wrought m
  stored : ∀ o ∈ s.objects ++ s.chunks, MadeChunk m o.2 ∧
    InPartition m.lib m.cfg.account (fun _ _ => True) o

theorem Gateway.start_wrought : Gateway.start.Wrought m where
  origins := Gateway.start_from
  made := ⟨AllBufs.nil, fun _ hc => absurd hc List.not_mem_nil⟩
  calls _ hc := absurd hc List.not_mem_nil
  stored _ ho := absurd ho List.not_mem_nil

/-- The chunk of a buffer that was made by pushes is made of records. -/
theorem MadeBuf.encode {key : BufKey} {buf : Buf} {chunk : EncodedChunk} (h : MadeBuf m key buf)
    (hencode : buf.writer.encode m.lib = .ok (some chunk)) : MadeChunk m chunk := by
  obtain ⟨cfg, rs, hmade⟩ := h
  rcases hmade.encode with ⟨hnone, -⟩ | ⟨chunk', hsome, hchunk⟩ | ⟨herror, -⟩
  · rw [hencode] at hnone
    cases hnone
  · rw [hencode] at hsome
    cases hsome
    exact ⟨rs, hchunk⟩
  · rw [hencode] at herror
    cases herror

theorem afterFlush_wrought (origin : Origin) (f : Flush) :
    (Gateway.afterFlush origin f).Wrought m := by
  rcases afterFlush_cases origin f with h | ⟨err, h⟩ <;> rw [h] <;> trivial

/-- A section or an answer keeps it. -/
theorem CallMove.wrought (hbufs : AllBufs (MadeBuf m) p.bufs) (hp : p.Wrought m)
    (h : CallMove m s origin p a e) : e.phase.Wrought m := by
  cases h with
  | pass hpass =>
    cases hpass with
    | @encoded key buf rest err after uuid io chunk hencode =>
      exact (hbufs (key, buf) List.mem_cons_self).encode hencode
    | flushed => exact afterFlush_wrought _ _
    | room => trivial
    | empty => trivial
    | rejected => trivial
    | admitted => trivial
    | nothing => trivial
    | encodeFailed => trivial
    | putFailed => trivial
  | take => trivial
  | pushFails => trivial
  | syncFails => trivial
  | accept => trivial
  | retire => trivial
  | putNext => exact hp
  | putDone => trivial
  | reinsert => trivial

/-- A chunk that a step leaves stored was stored before, or a call put it. -/
theorem chunks_known (hstep : gatewayStep m s l = some t) : ∀ o ∈ t.chunks,
    o ∈ s.chunks ∨ ∃ c ∈ s.calls, ∃ key buf stage f, c.2.phase = .put key buf o.1 o.2 stage f := by
  intro o ho
  cases gatewayStep_move hstep with
  | boot => exact .inl ho
  | call => exact .inl ho
  | act hget hmove =>
    rcases List.mem_append.mp ho with ho | ho
    · exact .inl ho
    · exact .inr ⟨_, Assoc.mem_of_get? hget, hmove.stores (.inr ho)⟩
  | served => exact .inl ho
  | unserved => exact .inl ho
  | acked => exact .inl ho
  | refused => exact .inl ho
  | drop => exact .inl ho
  | @crash during ops landed after objects chunks _ hduring hnone =>
    rcases List.mem_append.mp ho with ho | ho
    · exact .inl ho
    · cases during with
      | none =>
        rw [hnone rfl] at ho
        cases ho
      | some d =>
        obtain ⟨c, e, hget, hmove, -, rfl⟩ := hduring d rfl
        exact .inr ⟨_, Assoc.mem_of_get? hget, hmove.stores (.inr ho)⟩

theorem Gateway.Wrought.calls_step (h : s.Wrought m) (hstep : gatewayStep m s l = some t) :
    ∀ c ∈ t.calls, c.2.phase.Wrought m := by
  have hrest : ∀ {id : Nat} {c : Call} {calls : List (Nat × Call)},
      Assoc.remove id s.calls = some (c, calls) → ∀ c ∈ calls, c.2.phase.Wrought m :=
    fun hremove c hc => h.calls c ((Assoc.remove_perm hremove).mem_iff.mpr
      (List.mem_cons_of_mem _ hc))
  intro c hc
  cases gatewayStep_move hstep with
  | boot =>
    rw [List.mem_singleton.mp hc]
    trivial
  | call =>
    rcases List.mem_append.mp hc with hc | hc
    · exact h.calls c hc
    · rw [List.mem_singleton.mp hc]
      trivial
  | act hget hmove =>
    have hmem := Assoc.mem_of_get? hget
    rcases Assoc.mem_insert hc with rfl | hc
    · exact hmove.wrought (h.made.calls _ hmem) (h.calls _ hmem)
    · exact h.calls c hc
  | served hremove => exact hrest hremove c hc
  | unserved => exact absurd hc List.not_mem_nil
  | acked _ hremove => exact hrest hremove c hc
  | refused _ hremove => exact hrest hremove c hc
  | drop hremove => exact hrest hremove c hc
  | crash => exact absurd hc List.not_mem_nil

theorem Gateway.Wrought.step (h : s.Wrought m) (hstep : gatewayStep m s l = some t) :
    t.Wrought m where
  origins := h.origins.step (fun _ h => h) (fun _ _ => trivial) hstep
  made := (madeBuf_rule m).step h.origins.sound h.made hstep
  calls := h.calls_step hstep
  stored o ho := by
    have hput : ∀ c ∈ s.calls, ∀ key buf stage f, c.2.phase = .put key buf o.1 o.2 stage f →
        MadeChunk m o.2 ∧ InPartition m.lib m.cfg.account (fun _ _ => True) o := by
      intro c hc key buf stage f hphase
      have hwrought := h.calls c hc
      rw [hphase] at hwrought
      exact ⟨hwrought, h.origins.put hc hphase⟩
    rcases List.mem_append.mp ho with ho | ho
    · rcases objects_known hstep o ho with hold | ⟨c, hc, key, buf, stage, f, hphase⟩
      · exact h.stored o (List.mem_append_left _ hold)
      · exact hput c hc key buf stage f hphase
    · rcases chunks_known hstep o ho with hold | ⟨c, hc, key, buf, stage, f, hphase⟩
      · exact h.stored o (List.mem_append_right _ hold)
      · exact hput c hc key buf stage f hphase

/-! ## A bucket -/

variable {lib : ReaderLib} {store : ObjectStore} {stored : List (ChunkLocation × EncodedChunk)}
variable {logGroup : String} {range : TimeRange} {pattern : Pattern}

/-- A bucket that holds these data objects and no others. The sidecars beside one, as far as
they landed, are its own. -/
structure ObjectStore.Shelves (store : ObjectStore) (lib : CodecLib)
    (stored : List (ChunkLocation × EncodedChunk)) : Prop where
  distinct : store.Distinct
  plain : ∀ o ∈ stored, o.1.Plain
  data : ∀ o ∈ stored, Assoc.get? (o.1.dataKey store.keyPrefix) store.objects = some o.2.body
  only : ∀ key ∈ Assoc.keys store.objects,
    (ChunkLocation.parseDataKey store.keyPrefix key).isSome = true →
      ∃ o ∈ stored, key = o.1.dataKey store.keyPrefix
  index : ∀ o ∈ stored, ∀ body,
    Assoc.get? (o.1.indexKey store.keyPrefix) store.objects = some body →
      ∃ etag, body = (encodeSidecars lib o.2 etag).1
  tsIndex : ∀ o ∈ stored, ∀ body,
    Assoc.get? (o.1.tsIndexKey store.keyPrefix) store.objects = some body →
      ∃ etag, body = (encodeSidecars lib o.2 etag).2

namespace ObjectStore.Shelves

/-- The data objects of the group are those that were stored for it. -/
theorem mem_groupObjects_iff (h : store.Shelves m.lib stored) {account : String}
    (haccount : ∀ o ∈ stored, o.1.account = account) {o : String × Bytes} :
    o ∈ store.groupObjects account logGroup ↔
      ∃ c ∈ stored, c.1.logGroup = logGroup ∧ o = (c.1.dataKey store.keyPrefix, c.2.body) := by
  constructor
  · intro ho
    obtain ⟨hmem, hgroup⟩ := List.mem_filter.mp ho
    rw [Bool.and_eq_true, List.isPrefixOf_iff_prefix] at hgroup
    obtain ⟨c, hc, hkey⟩ := h.only o.1 (List.mem_map_of_mem hmem) hgroup.2
    refine ⟨c, hc, ?_, Prod.ext hkey ?_⟩
    · rw [hkey, ChunkLocation.dataGroupPrefix_iff (h.plain c hc)] at hgroup
      exact hgroup.1.2
    · have hdata := h.data c hc
      rw [← hkey, Assoc.get?_of_mem h.distinct hmem] at hdata
      exact Option.some.inj hdata
  · rintro ⟨c, hc, hgroup, rfl⟩
    have hplain := h.plain c hc
    refine List.mem_filter.mpr ⟨Assoc.mem_of_get? (h.data c hc), ?_⟩
    rw [Bool.and_eq_true, List.isPrefixOf_iff_prefix, ChunkLocation.dataGroupPrefix_iff hplain,
      ChunkLocation.parseDataKey_dataKey hplain]
    exact ⟨⟨haccount c hc, hgroup⟩, rfl⟩

end ObjectStore.Shelves

/-- The events of a group that a scan looks for. -/
def LogEvent.soughtIn (logGroup : String) (range : TimeRange) (pattern : Pattern)
    (ev : LogEvent) : Bool :=
  decide (ev.logGroup = logGroup) && recordMatches range pattern ev.record

/-- The records of a group that a scan looks for, of the events in a log or in chunks. -/
def soughtRecords (logGroup : String) (range : TimeRange) (pattern : Pattern)
    (events : Multiset LogEvent) : Multiset LogRecord :=
  (events.filter fun ev => ev.soughtIn logGroup range pattern = true).map LogEvent.record

theorem soughtRecords_mono {events events' : Multiset LogEvent} (h : events ≤ events') :
    soughtRecords logGroup range pattern events ≤ soughtRecords logGroup range pattern events' :=
  Multiset.map_le_map (Multiset.filter_le_filter _ h)

theorem soughtRecords_add (events events' : Multiset LogEvent) :
    soughtRecords logGroup range pattern (events + events') =
      soughtRecords logGroup range pattern events + soughtRecords logGroup range pattern events' := by
  rw [soughtRecords, Multiset.filter_add, Multiset.map_add]
  rfl

theorem soughtRecords_chunk (lib : CodecLib) (c : ChunkLocation × EncodedChunk) :
    soughtRecords logGroup range pattern (chunkEvents lib c) =
      (((if c.1.logGroup = logGroup then objectRecords lib c.2.body else []).filter
        (recordMatches range pattern) : List LogRecord) : Multiset LogRecord) := by
  rw [soughtRecords, chunkEvents, Multiset.filter_coe, Multiset.map_coe, List.filter_map,
    List.map_map]
  have hmap : ∀ rs : List LogRecord, rs.map (LogEvent.record ∘ LogEvent.mk c.1.logGroup) = rs :=
    List.map_id
  rw [hmap]
  by_cases hgroup : c.1.logGroup = logGroup
  · rw [if_pos hgroup]
    refine congrArg _ (List.filter_congr fun r _ => ?_)
    simp [LogEvent.soughtIn, hgroup]
  · rw [if_neg hgroup]
    refine congrArg _ ((List.filter_eq_nil_iff.mpr fun r _ => ?_).trans List.filter_nil.symm)
    simp [LogEvent.soughtIn, hgroup]

/-- The records that a scan looks for, of chunks. -/
theorem soughtRecords_chunks (lib : CodecLib) (chunks : List (ChunkLocation × EncodedChunk)) :
    soughtRecords logGroup range pattern (chunksEvents lib chunks) =
      (((((chunks.filter fun c => decide (c.1.logGroup = logGroup)).flatMap fun c =>
        objectRecords lib c.2.body).filter (recordMatches range pattern)) : List LogRecord) :
          Multiset LogRecord) := by
  induction chunks with
  | nil => rfl
  | cons c chunks ih =>
    have hcons : chunksEvents lib (c :: chunks) = chunkEvents lib c + chunksEvents lib chunks :=
      List.sum_cons
    rw [hcons, soughtRecords_add, soughtRecords_chunk, ih, Multiset.coe_add, ← List.filter_append]
    by_cases hgroup : c.1.logGroup = logGroup
    · rw [if_pos hgroup, List.filter_cons_of_pos (by simpa using hgroup), List.flatMap_cons]
    · rw [if_neg hgroup, List.filter_cons_of_neg (by simpa using hgroup), List.nil_append]

/-! ## A run, then a scan -/

namespace Gateway.Wrought

/-- Every group is archived as a reader needs it. -/
theorem groupArchived (h : s.Wrought m) (hlib : m.lib = lib.toCodecLib)
    (hstore : store.Shelves m.lib (s.objects ++ s.chunks))
    (hsmall : ∀ o ∈ s.objects ++ s.chunks, o.2.uncompressedBytes ≤ fallbackDecodeCapBytes)
    (hrange : ∀ o ∈ s.objects ++ s.chunks, InI64 (objectRecords m.lib o.2.body))
    (logGroup : String) : store.GroupArchived lib m.cfg.account logGroup := by
  intro o ho loc hloc
  have haccount : ∀ o ∈ s.objects ++ s.chunks, o.1.account = m.cfg.account :=
    fun o ho => (h.stored o ho).2.account
  obtain ⟨c, hc, -, rfl⟩ := (hstore.mem_groupObjects_iff haccount).mp ho
  rw [ChunkLocation.parseDataKey_dataKey (hstore.plain c hc)] at hloc
  obtain rfl := Option.some.inj hloc
  obtain ⟨⟨rs, hmade⟩, hpart⟩ := h.stored c hc
  have hrecords : objectRecords m.lib c.2.body = rs := hmade.describes.objectRecords
  refine ⟨c.2, rs, rfl, hlib ▸ hmade, fun r hr => ?_, hsmall c hc, fun idx hidx => ?_,
    fun ts hts => ?_⟩
  · exact hpart.date r (hrecords ▸ hr)
  · obtain ⟨body, hbody, hdecode⟩ := Option.bind_eq_some_iff.mp hidx
    obtain ⟨etag, rfl⟩ := hstore.index c hc body hbody
    rw [hlib] at hdecode
    rw [lib.decodeIndex_encodeIndex hdecode]
  · obtain ⟨body, hbody, hdecode⟩ := Option.bind_eq_some_iff.mp hts
    obtain ⟨etag, rfl⟩ := hstore.tsIndex c hc body hbody
    rw [Fallible.toOption_eq_some] at hdecode
    rw [decodeTsIndex_encodeTsIndex (hmade.fits (hrecords ▸ hrange c hc)) hdecode]

/-- What was stored for the group is among its records. -/
theorem stored_le (h : s.Wrought m) (hlib : m.lib = lib.toCodecLib)
    (hstore : store.Shelves m.lib (s.objects ++ s.chunks))
    (honce : (s.chunks.map Prod.fst).Nodup) :
    soughtRecords logGroup range pattern (s.stored m) ≤
      (((store.groupRecords lib m.cfg.account logGroup).filter (recordMatches range pattern) :
        List LogRecord) : Multiset LogRecord) := by
  have hchunk : ∀ c ∈ s.chunks, c ∈ s.objects ++ s.chunks := fun c => List.mem_append_right _
  let ofGroup := s.chunks.filter fun c => decide (c.1.logGroup = logGroup)
  let bodies := ofGroup.map fun c => (c.1.dataKey store.keyPrefix, c.2.body)
  have hnodup : bodies.Nodup := by
    have hlocs : (ofGroup.map Prod.fst).Nodup :=
      honce.sublist (List.filter_sublist.map _)
    refine List.Nodup.of_map Prod.fst ?_
    rw [List.map_map]
    refine List.Nodup.of_map (ChunkLocation.parseDataKey store.keyPrefix) ?_
    have hparsed : (ofGroup.map (Prod.fst ∘ fun c => (c.1.dataKey store.keyPrefix, c.2.body))).map
        (ChunkLocation.parseDataKey store.keyPrefix) = (ofGroup.map Prod.fst).map some := by
      rw [List.map_map, List.map_map]
      refine List.map_congr_left fun c hc => ?_
      exact ChunkLocation.parseDataKey_dataKey
        (hstore.plain c (hchunk c (List.mem_filter.mp hc).1))
    rw [hparsed]
    exact hlocs.map (Option.some_injective _)
  have hsub : bodies.Subperm (store.groupObjects m.cfg.account logGroup) := by
    refine List.subperm_of_subset hnodup fun o ho => ?_
    obtain ⟨c, hc, rfl⟩ := List.mem_map.mp ho
    obtain ⟨hc, hgroup⟩ := List.mem_filter.mp hc
    exact (hstore.mem_groupObjects_iff fun o ho => (h.stored o ho).2.account).mpr
      ⟨c, hchunk c hc, of_decide_eq_true hgroup, rfl⟩
  obtain ⟨objects, hperm, hsublist⟩ := hsub
  rw [Gateway.stored, soughtRecords_chunks, Multiset.coe_le]
  have hbodies : (ofGroup.flatMap fun c => objectRecords m.lib c.2.body) =
      bodies.flatMap fun o => objectRecords lib.toCodecLib o.2 := by
    rw [List.flatMap_map, hlib]
  rw [hbodies]
  refine ((hperm.flatMap_right _).symm.filter _).subperm.trans ?_
  exact ((hsublist.flatMap _).filter _).subperm

end Gateway.Wrought

/-- What a client was told is accepted can be found again. After any run with a log on a disk that
keeps what it should, a scan of a group in a bucket that holds the data objects of the run under
names of their own comes to its end, and of the events of the group that clients were told of,
all that match are in what it emits or in the synced part of the log, as often as clients were
told. -/
theorem told_scanned (app : GatewayApp) (lib : ReaderLib) (hlib : app.buffers.lib = lib.toCodecLib)
    (hdir : app.buffers.cfg.walDir ≠ none) {s : Service}
    (run : LTS.Reaches (serviceStep app) (OnBuffers (SafeDisk app.buffers)) .start s)
    {store : ObjectStore}
    (hstore : store.Shelves app.buffers.lib (s.gateway.objects ++ s.gateway.chunks))
    (hup : store.Up) (honce : (s.gateway.chunks.map Prod.fst).Nodup)
    (hsmall : ∀ o ∈ s.gateway.objects ++ s.gateway.chunks,
      o.2.uncompressedBytes ≤ fallbackDecodeCapBytes)
    (hi64 : ∀ o ∈ s.gateway.objects ++ s.gateway.chunks,
      InI64 (objectRecords app.buffers.lib o.2.body))
    (logGroup : String) {range : TimeRange} (hrange : range.fromMs < range.toMsExclusive)
    (hrep : ∀ t, range.fromMs ≤ t → t < range.toMsExclusive → Representable t)
    (pattern : Pattern) :
    ∃ n out, scanLogGroups lib store n app.buffers.cfg.account [logGroup] range pattern =
        (out, some (.ok ())) ∧
      out.Pairwise (fun x y => x.1.key ≤ y.1.key) ∧
      soughtRecords logGroup range pattern (Assoc.total (toldBy app) s.answers) ≤
        (out.map Prod.fst : Multiset LogRecord) +
          soughtRecords logGroup range pattern
            (s.gateway.disk.durable app.buffers.entries) := by
  obtain ⟨hsound, hsecured⟩ := service_secured hdir run
  obtain ⟨_, hgateway, rfl⟩ := (service_projects app (fun _ _ _ => trivial)
    (fun _ _ => trivial) fun _ _ _ => trivial).reaches rfl run
  have hwrought : s.gateway.Wrought app.buffers := hgateway.invariant Gateway.start_wrought
    fun _ _ _ h _ hstep => h.step hstep
  obtain ⟨sources, hsources, hspec, hnamed⟩ := buildSources_yields hup hstore.distinct hrange hrep
    pattern (List.drop_zero (l := [logGroup])) fun logGroup _ =>
      hwrought.groupArchived hlib hstore hsmall hi64 logGroup
  obtain ⟨n, out, hscan, hsorted, hperm⟩ := scan_merges hsources hspec
  refine ⟨n, out, hscan, hsorted, ?_⟩
  have hout : (out.map Prod.fst).Perm
      ((store.groupRecords lib app.buffers.cfg.account logGroup).filter
        (recordMatches range pattern)) := by
    refine ((hperm.trans hnamed).map Prod.fst).trans (.of_eq ?_)
    rw [matchingOf, List.flatMap_singleton, List.map_map]
    exact List.map_id _
  have htold : soughtRecords logGroup range pattern (Assoc.total (toldBy app) s.answers) ≤ _ :=
    soughtRecords_mono (hsound.told_kept hsecured)
  rw [soughtRecords_add] at htold
  refine htold.trans (add_le_add_left ?_ _)
  rw [Multiset.coe_eq_coe.mpr hout]
  exact hwrought.stored_le hlib hstore honce

namespace Concrete

/-- A service whose objects a reader can read. -/
def readService : GatewayApp :=
  { openService with buffers := { gateway (some "/wal") with lib := reader.toCodecLib } }

/-- A bucket with these data objects and both sidecars of each. -/
def shelfOf (stored : List (ChunkLocation × EncodedChunk)) : ObjectStore where
  keyPrefix := "s4logs"
  objects := stored.flatMap fun o =>
    [(o.1.dataKey "s4logs", o.2.body),
      (o.1.indexKey "s4logs", (encodeSidecars reader.toCodecLib o.2 none).1),
      (o.1.tsIndexKey "s4logs", (encodeSidecars reader.toCodecLib o.2 none).2)]
  answers _ := true

/-- What can be checked of a bucket and what is stored in it. -/
def ShelfChecked (store : ObjectStore) (stored : List (ChunkLocation × EncodedChunk)) : Prop :=
  (Assoc.keys store.objects).Nodup ∧
  (∀ o ∈ stored, ('/' ∉ o.1.account.toList ∧ '/' ∉ o.1.date.toList ∧ '/' ∉ o.1.name.toList) ∧
    Assoc.get? (o.1.dataKey store.keyPrefix) store.objects = some o.2.body ∧
    Assoc.get? (o.1.indexKey store.keyPrefix) store.objects =
      some (encodeSidecars reader.toCodecLib o.2 none).1 ∧
    Assoc.get? (o.1.tsIndexKey store.keyPrefix) store.objects =
      some (encodeSidecars reader.toCodecLib o.2 none).2 ∧
    o.2.uncompressedBytes ≤ fallbackDecodeCapBytes ∧
    ∀ r ∈ objectRecords reader.toCodecLib o.2.body,
      i64Min ≤ r.timestamp ∧ r.timestamp ≤ i64Max) ∧
  ∀ key ∈ Assoc.keys store.objects,
    (ChunkLocation.parseDataKey store.keyPrefix key).isSome = true →
      ∃ o ∈ stored, key = o.1.dataKey store.keyPrefix

instance (store : ObjectStore) (stored : List (ChunkLocation × EncodedChunk)) :
    Decidable (ShelfChecked store stored) := inferInstanceAs (Decidable (_ ∧ _ ∧ _))

theorem ShelfChecked.shelves (h : ShelfChecked store stored) :
    store.Shelves reader.toCodecLib stored where
  distinct := h.1
  plain o ho := ⟨(h.2.1 o ho).1.1, (h.2.1 o ho).1.2.1, (h.2.1 o ho).1.2.2⟩
  data o ho := (h.2.1 o ho).2.1
  only := h.2.2
  index o ho _ hbody :=
    ⟨none, (Option.some.inj ((h.2.1 o ho).2.2.1.symm.trans hbody)).symm⟩
  tsIndex o ho _ hbody :=
    ⟨none, (Option.some.inj ((h.2.1 o ho).2.2.2.1.symm.trans hbody)).symm⟩

end Concrete

open Concrete in
/-- One batch is flushed, and another is told and in the log only. -/
theorem told_scanned_flushed : ∃ (s : Service) (n : Nat) (out : List (LogRecord × String)),
    s.answers.length = 2 ∧ s.gateway.chunks.length = 1 ∧
    scanLogGroups reader (shelfOf s.gateway.chunks) n "000000000000" ["/s3"] ⟨0, 10⟩ none =
      (out, some (.ok ())) ∧
    soughtRecords "/s3" ⟨0, 10⟩ none (Assoc.total (toldBy readService) s.answers) ≤
      (out.map Prod.fst : Multiset LogRecord) + soughtRecords "/s3" ⟨0, 10⟩ none
        (s.gateway.disk.durable readService.buffers.entries) := by
  obtain ⟨s, hreach, hcheck⟩ := LTS.replay_spec (by decide +kernel :
    LTS.replay (serviceStep readService) (OnBuffers (SafeDisk readService.buffers)) .start
      (bootService ++ [.request 1 (postOne "/s3") noon] ++ takenIn 1 ++
        [.pushed 1, .buffers (.call 2 .flushAll), .buffers (.act 2 (.take [] 0))] ++
        (stored 2 "x").map .buffers ++ [.request 3 (postOne "/s3") noon] ++
        [.buffers (.act 3 (.reserve [])), .buffers (.act 3 (.append [] [io "u2"] none)),
          .buffers (.act 3 .flushed), .pushed 3])
      (fun s => decide (s.answers.length = 2 ∧ s.gateway.chunks.length = 1 ∧
        (s.gateway.chunks.map Prod.fst).Nodup ∧
        ShelfChecked (shelfOf s.gateway.chunks) (s.gateway.objects ++ s.gateway.chunks))) = true)
  obtain ⟨hanswers, hchunks, honce, hshelf⟩ := of_decide_eq_true hcheck
  have hrange : (⟨0, 10⟩ : TimeRange).fromMs < (⟨0, 10⟩ : TimeRange).toMsExclusive := by decide
  have hrep : ∀ t : Int, 0 ≤ t → t < 10 → Representable t := by
    unfold Representable chronoMinMs chronoMaxMs
    omega
  obtain ⟨n, out, hscan, -, htold⟩ := told_scanned readService reader rfl (by decide) hreach
    hshelf.shelves (fun _ => rfl) honce (fun o ho => (hshelf.2.1 o ho).2.2.2.2.1)
    (fun o ho => (hshelf.2.1 o ho).2.2.2.2.2) "/s3" hrange hrep none
  exact ⟨s, n, out, hanswers, hchunks, hscan, htold⟩

end S4Logs

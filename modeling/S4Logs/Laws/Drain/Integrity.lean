import S4Logs.Drain.Concrete
import S4Logs.Laws.Drain.Sound

/-!
# The archive proves what it says

Jobs of one group on windows that are apart keep the archive sound, run after
run, whatever CloudWatch does and wherever a run ends. So every manifest that is
ever stored says the truth about its objects (`archive_integrity`).
-/

namespace S4Logs

variable {env : Env} {logGroup : String} {W : String → Window → Prop} {s t : Sys}

/-! ## Run after run -/

/-- Jobs of one group on these windows. -/
def JobsOn (logGroup : String) (W : String → Window → Prop) (_ : Sys) : SysLabel → Prop
  | .start kind opts pre => opts.logGroup = logGroup ∧
    ∀ run, startRun kind opts pre = .ok run → ∀ w ∈ run.wins, W opts.account w
  | _ => True

/-- The archive is sound, and the run under way keeps its account. -/
structure SysSound (env : Env) (logGroup : String) (W : String → Window → Prop) (s : Sys) : Prop where
  archive : ArchiveSound env logGroup W s.archive
  run : ∀ run, s.run = some run → run.opts.logGroup = logGroup ∧
    (∀ w ∈ run.wins, W run.opts.account w) ∧
    ∃ a₀, run.Staged fun w st =>
      StageHeld env run.opts (fun _ _ _ => True) (Tally w) a₀ s.archive w st

/-- A window of any job keeps its tally. -/
theorem tally_window {opts : DrainOptions} {shards : Option (List (List String))} {w : Window}
    {a₀ : Archive} (K : Archive → Prop) (guard : Work → TaskLabel → Prop) :
    WindowRule env opts shards w a₀ K guard (fun _ _ _ => True) (Tally w) where
  toBookRule := tally_rule guard
  found _ := trivial
  read _ _ _ _ _ := trivial
  fresh := tally_start
  again _ _ _ _ := tally_start

/-- No answer of a window is ruled out. -/
theorem task_unguarded (s : Sys) (l : SysLabel) :
    TaskGuard (WorkAnswers fun _ _ _ _ => True) s l := by
  cases l with
  | task i l =>
    intro run t _ _
    cases t.phase <;> trivial
  | _ => trivial

/-- Every step of such jobs keeps the archive sound, and what it lists. -/
theorem SysSound.step {l : SysLabel} (apart : Apart W) (h : SysSound env logGroup W s)
    (hjob : JobsOn logGroup W s l) (hstep : sysStep env s l = some t) :
    SysSound env logGroup W t ∧ Extends env s.archive t.archive := by
  cases hrun : s.run with
  | some run =>
    obtain ⟨hgroup, hwins, a₀, hstaged⟩ := h.run run hrun
    cases sysStep_move hrun (task_unguarded s l) hstep with
    | cloud => exact ⟨⟨h.archive, h.run⟩, .refl _⟩
    | @window _ run' w st st' writes rest job before after move =>
      have hmem : (w, st) ∈ run.stages := before.mem_iff.mpr List.mem_cons_self
      have hw : w ∈ run.wins := hstaged.windows.mem_iff.mp (List.mem_map_of_mem hmem)
      obtain ⟨hheld, hwrites⟩ := move.held
        (tally_window (fun _ => True) (fun _ _ => True)) trivial (hstaged.holds _ hmem)
      obtain ⟨hsound, hextends⟩ := h.archive.stageWrites apart (hwins w hw) hgroup
        (fun _ htally => htally) hwrites
      refine ⟨⟨hsound, fun run'' hrun'' => ?_⟩, hextends⟩
      obtain rfl := Option.some.inj hrun''
      rw [job.opts, job.wins]
      refine ⟨hgroup, hwins, a₀, hstaged.move job before after (fun _ _ => hheld)
        fun w' st'' _ hw' hne h' => ?_⟩
      exact hwrites.others apart (hwins w hw) (hwins w' hw') (fun heq => hne (by rw [heq])) h'
    | failed => exact ⟨⟨h.archive, fun run' hrun' => by cases hrun'⟩, .refl _⟩
    | finish => exact ⟨⟨h.archive, fun run' hrun' => by cases hrun'⟩, .refl _⟩
    | kill => exact ⟨⟨h.archive, fun run' hrun' => by cases hrun'⟩, .refl _⟩
  | none =>
    cases sysStep_idle hrun hstep with
    | cloud => exact ⟨⟨h.archive, h.run⟩, .refl _⟩
    | rejected => exact ⟨⟨h.archive, fun run' hrun' => by cases hrun'⟩, .refl _⟩
    | @started _ _ _ run hok =>
      refine ⟨⟨h.archive, fun run' hrun' => ?_⟩, .refl _⟩
      obtain rfl := Option.some.inj hrun'
      obtain ⟨-, hopts, -⟩ := startRun_spec hok
      rw [hopts]
      exact ⟨hjob.1, hjob.2 run hok, s.archive, startRun_staged hok fun w _ => rfl⟩
    | kill => exact ⟨⟨h.archive, fun run' hrun' => by cases hrun'⟩, .refl _⟩

/-- What the jobs reach is sound, and lists what was listed. -/
theorem SysSound.reaches (apart : Apart W) (h : SysSound env logGroup W s)
    (hreach : LTS.Reaches (sysStep env) (JobsOn logGroup W) s t) :
    SysSound env logGroup W t ∧ Extends env s.archive t.archive := by
  refine hreach.invariant (I := fun t => SysSound env logGroup W t ∧
    Extends env s.archive t.archive) ⟨h, .refl _⟩ fun u l v hu hok hstep => ?_
  obtain ⟨hsound, hextends⟩ := hu.1.step apart hok hstep
  exact ⟨hsound, hu.2.trans hextends⟩

/-- Stores with nothing in them. -/
def Archive.empty : Archive where
  objects _ := none
  manifests _ := none

theorem SysSound.start (env : Env) (logGroup : String) (hidle : s.run = none) (hempty : s.archive = Archive.empty) :
    SysSound env logGroup W s where
  archive key bytes hbytes := by
    rw [hempty] at hbytes
    cases hbytes
  run run hrun := by
    rw [hidle] at hrun
    cases hrun

/-! ## What a manifest says -/

/-- The object has the name of a repair. -/
def ManifestObject.isReconciled (o : ManifestObject) : Bool :=
  match Text.stripSuffix dataSuffix.toList (Text.lastSegment '/' o.dataKey.toList) with
  | none => false
  | some name =>
    match Text.rsplitOnce '-' name with
    | none => false
    | some (_, suffix) => (Text.stripPrefix ['r'] suffix).isSome

/-- What a manifest says of its objects holds of the archive. -/
structure Integrity (env : Env) (a : Archive) (m : Manifest) : Prop where
  bodies : ∀ o ∈ m.objects, ∃ body, a.objects o.dataKey = some body ∧
    body.length = o.bodyLen ∧ env.lib.crc32c body = o.crc32c ∧
    (objectRecords env.lib body).length = o.recordCount
  sidecars : ∀ o ∈ m.objects, ∃ (loc : ChunkLocation) (chunk : EncodedChunk) (cfg : ChunkConfig)
    (rs : List LogRecord), o.dataKey = loc.dataKey env.store.keyPrefix ∧
    ChunkWriter.encodeAll env.lib cfg rs = .ok (some chunk) ∧
    a.objects (loc.dataKey env.store.keyPrefix) = some chunk.body ∧
    a.objects (loc.indexKey env.store.keyPrefix) = some (encodeSidecars env.lib chunk o.etag).1 ∧
    a.objects (loc.tsIndexKey env.store.keyPrefix) = some (encodeSidecars env.lib chunk o.etag).2
  keys : (m.objects.map ManifestObject.dataKey).Nodup
  recordCount : m.recordCount = (m.objects.map ManifestObject.recordCount).sum
  reconciledAdded : m.reconciledAdded =
    if m.objects.filter ManifestObject.isReconciled = [] then none
    else some ((m.objects.filter ManifestObject.isReconciled).map ManifestObject.recordCount).sum
  inside : ∀ o ∈ m.objects, m.windowStartMs ≤ o.minTs ∧ o.maxTs < m.windowEndMs
  spans : ∀ o ∈ m.objects, ∃ body, a.objects o.dataKey = some body ∧
    TsEntry.Spans { minTs := o.minTs, maxTs := o.maxTs } (objectRecords env.lib body)

/-- A name tells a repair from a drain. -/
theorem isReconciled_entry {account : String} {w : Window} (hw : 0 ≤ w.startMs) (f : Filing) :
    (f.piece.entry env ((f.slot account w).location logGroup)).isReconciled = f.isReconciled := by
  have hseg := lastSegment_dataKey ((f.slot account w).location logGroup) env.store.keyPrefix
    (ObjectNaming.slash_notMem_name f.naming _ f.seq)
  have hname : ((f.slot account w).location logGroup).name.toList =
      Nat.toDigits 10 w.startMs.toNat ++ '-' :: f.naming.suffix f.seq :=
    ObjectNaming.toList_name f.naming hw f.seq
  have hsplit := Text.rsplitOnce_append '-'
    (ObjectNaming.notMem_suffix (by decide) (by decide) f.naming f.seq)
    (Nat.toDigits 10 w.startMs.toNat)
  unfold ManifestObject.isReconciled
  rw [show (f.piece.entry env ((f.slot account w).location logGroup)).dataKey =
    ((f.slot account w).location logGroup).dataKey env.store.keyPrefix from rfl, hseg, hname,
    Text.stripSuffix_append]
  simp only [hsplit, Filing.isReconciled]
  cases f.naming with
  | base =>
    have hbase : Text.stripPrefix ['r'] (ObjectNaming.suffix .base f.seq) = none := by
      unfold Text.stripPrefix
      rw [if_neg]
      rintro ⟨rest, hrest⟩
      have hmem : 'r' ∈ Text.padded 6 f.seq := by
        rw [show Text.padded 6 f.seq = ['r'] ++ rest from hrest.symm]
        exact List.mem_cons_self
      exact Text.notMem_padded (by decide) _ _ hmem
    rw [hbase]
    rfl
  | reconcile attempt =>
    rw [show ObjectNaming.suffix (.reconcile attempt) f.seq =
      ['r'] ++ (Text.padded 2 attempt ++ Text.padded 4 f.seq) from rfl, Text.stripPrefix_append]
    rfl

/-- A sound manifest tells the truth. -/
theorem ManifestSound.integrity {a : Archive} {m : Manifest} {filings : List Filing} (apart : Apart W)
    (h : ManifestSound env logGroup W a.objects m filings) : Integrity env a m := by
  have hw := apart.nonneg h.window
  have hmade : ∀ f ∈ filings, f.piece.chunk.Made env.lib f.piece.records := fun f hf => by
    obtain ⟨cfg, hcfg⟩ := h.encoded f hf
    exact encodeAll_made hcfg
  have hinside : ∀ f ∈ filings, ∀ r ∈ f.piece.records,
      m.windowStartMs ≤ r.timestamp ∧ r.timestamp < m.windowEndMs := fun f hf r hr =>
    h.inside r (List.mem_flatMap.mpr ⟨f, hf, hr⟩)
  have hspan : ∀ f ∈ filings, TsEntry.Spans
      { minTs := f.piece.chunk.minTimestamp, maxTs := f.piece.chunk.maxTimestamp }
      f.piece.records ∧ f.piece.chunk.crc32c = env.lib.crc32c f.piece.chunk.body := by
    intro f hf
    apply (hmade f hf).span
    intro r hr
    obtain ⟨hlow, hhigh⟩ := hinside f hf r hr
    have hstart : 0 ≤ m.windowStartMs := hw.1
    have hend : m.windowEndMs ≤ i64Max := apart.bounded h.window
    have hmin : i64Min ≤ 0 := by decide
    omega
  -- every listed object is the entry of a piece
  have hfiling : ∀ o ∈ m.objects, ∃ f ∈ filings,
      o = f.piece.entry env ((f.slot m.account m.window).location logGroup) := by
    intro o ho
    rw [h.listed] at ho
    obtain ⟨f, hf, rfl⟩ := List.mem_map.mp ho
    exact ⟨f, hf, rfl⟩
  have hreconciled : m.objects.filter ManifestObject.isReconciled =
      (filings.filter Filing.isReconciled).map fun f =>
        f.piece.entry env ((f.slot m.account m.window).location logGroup) := by
    rw [h.listed, List.filter_map]
    have hone : ∀ f : Filing, (f.piece.entry env
        ((f.slot m.account m.window).location logGroup)).isReconciled = f.isReconciled :=
      fun f => isReconciled_entry hw.1 f
    simp only [Function.comp_def, hone]
  constructor
  case bodies =>
    intro o ho
    obtain ⟨f, hf, rfl⟩ := hfiling o ho
    refine ⟨f.piece.chunk.body, (h.stored f hf).data, rfl, (hspan f hf).2.symm, ?_⟩
    rw [(hmade f hf).describes.objectRecords]
    exact (hmade f hf).describes.recordCount.symm
  case sidecars =>
    intro o ho
    obtain ⟨f, hf, rfl⟩ := hfiling o ho
    obtain ⟨cfg, hcfg⟩ := h.encoded f hf
    have hstored := h.stored f hf
    exact ⟨_, f.piece.chunk, cfg, f.piece.records, rfl, hcfg, hstored.data, hstored.index,
      hstored.tsIndex⟩
  case keys =>
    rw [h.listed, List.map_map]
    refine (List.nodup_map_iff_inj_on (List.Nodup.of_map _ h.nodup)).mpr fun f hf f' hf' heq => ?_
    have hslot := Slot.eq_of_dataKey apart (h.slot_in hf) (h.slot_in hf') heq
    have hpair : (f.naming, f.seq) = (f'.naming, f'.seq) :=
      Prod.ext (congrArg Slot.naming hslot) (congrArg Slot.seq hslot)
    exact List.inj_on_of_nodup_map h.nodup hf hf' hpair
  case recordCount =>
    rw [h.recordCount, h.listed]
    exact (entries_recordCount _ h.encoded).symm
  case reconciledAdded =>
    rw [h.reconciledAdded, hreconciled, reconciledTotal]
    by_cases hnone : filings.filter Filing.isReconciled = []
    · rw [if_pos hnone, hnone, List.map_nil, if_pos rfl]
    · rw [if_neg hnone, if_neg fun hnil => hnone (List.map_eq_nil_iff.mp hnil),
        entries_recordCount _ fun f hf => h.encoded f (List.mem_filter.mp hf).1]
  case inside =>
    intro o ho
    obtain ⟨f, hf, rfl⟩ := hfiling o ho
    obtain ⟨hleast, hgreatest⟩ := (hspan f hf).1
    obtain ⟨low, hlow, heq⟩ := List.mem_map.mp hleast.1
    obtain ⟨high, hhigh, heq'⟩ := List.mem_map.mp hgreatest.1
    have hmin : low.timestamp = f.piece.chunk.minTimestamp := heq
    have hmax : high.timestamp = f.piece.chunk.maxTimestamp := heq'
    constructor
    · show m.windowStartMs ≤ f.piece.chunk.minTimestamp
      rw [← hmin]
      exact (hinside f hf low hlow).1
    · show f.piece.chunk.maxTimestamp < m.windowEndMs
      rw [← hmax]
      exact (hinside f hf high hhigh).2
  case spans =>
    intro o ho
    obtain ⟨f, hf, rfl⟩ := hfiling o ho
    refine ⟨f.piece.chunk.body, (h.stored f hf).data, ?_⟩
    rw [(hmade f hf).describes.objectRecords]
    exact (hspan f hf).1

/-! ## One grid -/

/-- Jobs of one group with one window length, one at a time. -/
def OneGrid (logGroup : String) (windowMs : Int) (_ : Sys) : SysLabel → Prop
  | .start _ opts _ => opts.logGroup = logGroup ∧ opts.windowMs = windowMs
  | _ => True

/-- The windows of such jobs are windows of the grid. -/
theorem OneGrid.jobsOn {windowMs : Int} {l : SysLabel} (h : OneGrid logGroup windowMs s l) :
    JobsOn logGroup (fun _ w => GridWindow windowMs w) s l := by
  cases l with
  | start kind opts pre =>
    refine ⟨h.1, fun run hok w hw => ?_⟩
    obtain ⟨-, -, -, ⟨lo, hi, htiles⟩, -⟩ := startRun_spec hok
    rw [h.2] at htiles
    exact htiles.grid w hw
  | _ => trivial

/-- In every state that drains and reconciles of one group and window length reach
from empty stores, every manifest says the truth about its objects. -/
theorem archive_integrity (env : Env) (logGroup : String) (windowMs : Int) (s t : Sys)
    (hidle : s.run = none) (hempty : s.archive = Archive.empty)
    (hreach : LTS.Reaches (sysStep env) (OneGrid logGroup windowMs) s t) (key : String)
    (bytes : Bytes) (m : Manifest) (hbytes : t.archive.manifests key = some bytes)
    (hm : Manifest.fromJsonBytes env.serde bytes = .ok m) : Integrity env t.archive m := by
  have apart := GridWindow.apart windowMs
  obtain ⟨hsound, -⟩ := (SysSound.start env logGroup hidle hempty).reaches apart
    (hreach.mono fun _ _ h => h.jobsOn)
  obtain ⟨m', filings, hm', -, hmanifest⟩ := hsound.archive key bytes hbytes
  rw [hm] at hm'
  obtain rfl := Except.ok.inj hm'
  exact hmanifest.integrity apart

/-! ## A drain and a repair -/

instance OneGrid.decidable (logGroup : String) (windowMs : Int) (s : Sys) :
    ∀ l, Decidable (OneGrid logGroup windowMs s l)
  | .start _ opts _ => inferInstanceAs (Decidable (opts.logGroup = logGroup ∧ opts.windowMs = windowMs))
  | .cloud _ => .isTrue trivial
  | .spawn => .isTrue trivial
  | .task _ _ => .isTrue trivial
  | .absorb _ => .isTrue trivial
  | .finish => .isTrue trivial
  | .kill => .isTrue trivial

/-- The archive holds a manifest at the key that passes a check. -/
def Sys.holdsManifest (env : Env) (key : String) (check : Manifest → Bool) (t : Sys) : Bool :=
  match t.archive.manifests key with
  | none => false
  | some bytes =>
    match Manifest.fromJsonBytes env.serde bytes with
    | .error _ => false
    | .ok m => check m

theorem Sys.holdsManifest_spec {key : String} {check : Manifest → Bool}
    (h : t.holdsManifest env key check = true) : ∃ bytes m,
      t.archive.manifests key = some bytes ∧ Manifest.fromJsonBytes env.serde bytes = .ok m ∧
      check m = true := by
  unfold Sys.holdsManifest at h
  split at h
  next => cases h
  next bytes hbytes =>
    split at h
    next => cases h
    next m hm => exact ⟨bytes, m, hbytes, hm, h⟩

namespace Concrete

/-- An event of the first day. -/
def eventAt (timestamp : Int) (message : String) : CwEvent where
  timestamp := timestamp
  message := message
  logStreamName := "s"
  ingestionTime := none
  eventId := none

/-- Three PUTs that succeed. -/
def putChunk : List SysLabel := List.replicate 3 (.task 0 (.put (some none)))

/-- The first day is drained with these events on one page, all in one object. -/
def drainEvents (events : List CwEvent) : List SysLabel :=
  [.cloud events, .start .drain (jobOptions 1) (preamble []), .spawn, .task 0 (.get true),
    .task 0 (.page 0 (some ⟨events, none⟩))] ++
    events.map (fun _ => .task 0 .event) ++ [.task 0 .endPages] ++ putChunk ++
    [.task 0 (.putManifest true 1), .absorb 0, .finish]

/-- The first day is repaired, where one object is listed and one is appended. -/
def repairEvents (events : List CwEvent) : List SysLabel :=
  [.cloud events, .start .reconcile (jobOptions 1) (preamble []), .spawn, .task 0 (.get true),
    .task 0 (.readObject true), .task 0 (.page 0 (some ⟨events, none⟩))] ++
    events.map (fun _ => .task 0 .event) ++ [.task 0 .endPages] ++ putChunk ++
    [.task 0 (.putManifest true 2), .absorb 0, .finish]

end Concrete

open Concrete in
/-- One object of a drain and one that a reconcile added. -/
theorem archive_integrity_repaired : ∃ (t : Sys) (m : Manifest), m.objects.length = 2 ∧
    m.reconciledAdded = some 1 ∧ Integrity jobEnv t.archive m := by
  obtain ⟨t, hreach, hcheck⟩ := LTS.replay_spec (by decide +kernel :
    LTS.replay (sysStep jobEnv) (OneGrid "/g" dayMs) (system [] [])
      (drainEvents [eventAt 5 "a"] ++ repairEvents [eventAt 5 "a", eventAt 3 "b"])
      (Sys.holdsManifest jobEnv (windowKey "s4logs" "123456789012" "/g" ⟨0, dayMs⟩) fun m =>
        m.objects.length == 2 && m.reconciledAdded == some 1) = true)
  obtain ⟨bytes, m, hbytes, hm, hboth⟩ := Sys.holdsManifest_spec hcheck
  simp only [Bool.and_eq_true, beq_iff_eq] at hboth
  exact ⟨t, m, hboth.1, hboth.2,
    archive_integrity jobEnv "/g" dayMs _ t rfl rfl hreach _ bytes m hbytes hm⟩

end S4Logs

import S4Logs.Drain.Run
import S4Logs.Laws.Core.Chunk
import S4Logs.Laws.Drain.Naming

/-!
# What a window's task has stored

`TaskMove` says once what a step of a task can do; the invariants below are case
analyses over it.

`Kept` is the accounting of a window that is being paged: the records of the
objects it has listed, in the order they were listed, and the records it still
holds are the events it pushed. A listed object lies under a key of this window
with a number already used, so neither the task's own next object nor anything
another window writes can touch it.
-/

namespace S4Logs

variable {env : Env} {opts : DrainOptions} {shards : Option (List (List String))} {w : Window}
variable {a : Archive} {events : List CwEvent}

/-! ## What a step can do -/

/-- The steps of a task, with what each of them needs. -/
inductive TaskMove (env : Env) (opts : DrainOptions) (shards : Option (List (List String)))
    (w : Window) (a : Archive) (events : List CwEvent) :
    Phase → TaskLabel → Phase → List StoreWrite → Prop
  | fail {p : Phase} {l : TaskLabel} {e : ReconcileError} : TaskMove env opts shards w a events
      p l (.failed e) []
  | absent : a.manifests (taskKey env opts w) = none →
      TaskMove env opts shards w a events .look (.get true) .lookup []
  | found {bytes : Bytes} {m : Manifest} : a.manifests (taskKey env opts w) = some bytes →
      Manifest.fromJsonBytes env.serde bytes = .ok m →
      TaskMove env opts shards w a events .look (.get true)
        (readNext opts shards w m m.objects [] events) []
  | skip {bytes : Bytes} : a.manifests (taskKey env opts w) = some bytes →
      manifestCoversWindow env.serde bytes opts.account opts.logGroup w = true →
      TaskMove env opts shards w a events .lookup (.get true) (.done .skip) []
  | begin : (∀ bytes, a.manifests (taskKey env opts w) = some bytes →
        manifestCoversWindow env.serde bytes opts.account opts.logGroup w = false) →
      TaskMove env opts shards w a events .lookup (.get true)
        (.work (Work.start opts shards w none .base [] events) .pages) []
  | readObject {m : Manifest} {obj : ManifestObject} {rest : List ManifestObject}
      {seen ids : List Nat} {body : Bytes} : a.objects obj.dataKey = some body →
      objectIdentities env.lib obj body = .ok ids →
      TaskMove env opts shards w a events (.read m (obj :: rest) seen) (.readObject true)
        (readNext opts shards w m rest (ids ++ seen) events) []
  | page {wk : Work} {i : Nat} {c : Cursor} {page : CwEventPage} : wk.inbox = [] →
      wk.cursors[i]? = some c → c.exhausted = false →
      TaskMove env opts shards w a events (.work wk .pages) (.page i (some page))
        (.work { wk with cursors := wk.cursors.set i (c.advance page), inbox := page.events }
          .pages) []
  | event {wk : Work} {ev : CwEvent} {rest : List CwEvent} : wk.inbox = ev :: rest →
      TaskMove env opts shards w a events (.work wk .pages) .event
        (Work.event env opts w wk ev rest) []
  | endPages {wk : Work} : wk.inbox = [] → wk.cursors.all Cursor.exhausted = true →
      TaskMove env opts shards w a events (.work wk .pages) .endPages
        (Work.flush env opts { wk with ww := { wk.ww with writer := ChunkWriter.new opts.chunk } }
          wk.ww.writer true) []
  | putNext {wk : Work} {chunk : EncodedChunk} {stage stage' : PutStage} {last : Bool}
      {etag : Option String} :
      putNext env.store (wk.ww.location opts) chunk etag stage = .inl stage' →
      TaskMove env opts shards w a events (.work wk (.put chunk stage last)) (.put (some etag))
        (.work wk (.put chunk stage' last))
        [.object (putRequest env.lib env.store (wk.ww.location opts) chunk stage).1
          (putRequest env.lib env.store (wk.ww.location opts) chunk stage).2]
  | putDone {wk : Work} {chunk : EncodedChunk} {stage : PutStage} {last : Bool}
      {etag : Option String} {receipt : PutReceipt} :
      putNext env.store (wk.ww.location opts) chunk etag stage = .inr receipt →
      TaskMove env opts shards w a events (.work wk (.put chunk stage last)) (.put (some etag))
        (Work.resume opts { wk with ww := wk.ww.stored chunk receipt } last)
        [.object (putRequest env.lib env.store (wk.ww.location opts) chunk stage).1
          (putRequest env.lib env.store (wk.ww.location opts) chunk stage).2]
  | putManifest {wk : Work} {nowMs : Int} :
      TaskMove env opts shards w a events (.work wk .manifest) (.putManifest true nowMs)
        (.done wk.outcome)
        [.manifest (taskKey env opts w) ((Work.manifest opts w wk nowMs).toJsonBytes env.serde)]

/-- A step is one of the moves. -/
theorem taskStep_move {p p' : Phase} {l : TaskLabel} {writes : List StoreWrite}
    (h : taskStep env opts shards w a events p l = some (p', writes)) :
    TaskMove env opts shards w a events p l p' writes := by
  unfold taskStep at h
  split at h
  case h_1 =>
    cases h
    exact .fail
  case h_2 =>
    split at h
    next hnone =>
      cases h
      exact .absent hnone
    next bytes hbytes =>
      split at h
      next =>
        cases h
        exact .fail
      next m hm =>
        cases h
        exact .found hbytes hm
  case h_3 =>
    cases h
    exact .fail
  case h_4 =>
    cases hget : a.manifests (taskKey env opts w) with
    | none =>
      simp only [hget, Bool.false_eq_true, if_false] at h
      cases h
      exact .begin fun bytes hbytes => by
        rw [hget] at hbytes
        cases hbytes
    | some bytes =>
      by_cases hcovered :
          manifestCoversWindow env.serde bytes opts.account opts.logGroup w = true
      · simp only [hget, hcovered, if_true] at h
        cases h
        exact .skip hget hcovered
      · simp only [hget, hcovered, Bool.false_eq_true, if_false] at h
        cases h
        exact .begin fun bytes' hbytes => by
          rw [hget] at hbytes
          cases hbytes
          exact Bool.eq_false_iff.mpr hcovered
  case h_5 =>
    cases h
    exact .fail
  case h_6 =>
    split at h
    next =>
      cases h
      exact .fail
    next body hbody =>
      split at h
      next =>
        cases h
        exact .fail
      next ids hids =>
        cases h
        exact .readObject hbody hids
  case h_7 =>
    split at h
    next c hinbox hc =>
      split at h
      next => cases h
      next hopen =>
        split at h
        next =>
          cases h
          exact .fail
        next page =>
          cases h
          exact .page hinbox hc (Bool.eq_false_iff.mpr hopen)
    next => cases h
  case h_8 =>
    split at h
    next => cases h
    next ev rest hinbox =>
      cases h
      exact .event hinbox
  case h_9 =>
    split at h
    next hend =>
      cases h
      exact .endPages hend.1 hend.2
    next => cases h
  case h_10 =>
    split at h
    next =>
      cases h
      exact .fail
    next etag =>
      dsimp only at h
      split at h
      next stage' hnext =>
        cases h
        exact .putNext hnext
      next receipt hnext =>
        cases h
        exact .putDone hnext
  case h_11 =>
    split at h
    next hanswered =>
      cases h
      cases hanswered
      exact .putManifest
    next =>
      cases h
      exact .fail
  case h_12 => cases h

/-! ## What a write leaves alone -/

theorem applyWrites_objects {k : String} {writes : List StoreWrite} : ∀ {a : Archive},
    (∀ write ∈ writes, ∀ body, write ≠ .object k body) →
      (applyWrites a writes).objects k = a.objects k := by
  induction writes with
  | nil => exact fun _ => rfl
  | cons write writes ih =>
    intro a h
    have hrest := ih (a := write.apply a) fun write' hw => h write' (List.mem_cons_of_mem _ hw)
    refine hrest.trans ?_
    cases write with
    | object key body =>
      refine if_neg fun heq => ?_
      subst heq
      exact h _ List.mem_cons_self body rfl
    | manifest key body => rfl

theorem applyWrites_manifests {k : String} {writes : List StoreWrite} : ∀ {a : Archive},
    (∀ write ∈ writes, ∀ body, write ≠ .manifest k body) →
      (applyWrites a writes).manifests k = a.manifests k := by
  induction writes with
  | nil => exact fun _ => rfl
  | cons write writes ih =>
    intro a h
    have hrest := ih (a := write.apply a) fun write' hw => h write' (List.mem_cons_of_mem _ hw)
    refine hrest.trans ?_
    cases write with
    | object key body => rfl
    | manifest key body =>
      refine if_neg fun heq => ?_
      subst heq
      exact h _ List.mem_cons_self body rfl

theorem applyWrites_manifest (a : Archive) (key : String) (body : Bytes) :
    (applyWrites a [.manifest key body]).manifests key = some body :=
  if_pos rfl

/-- The key of a data object of this window. -/
def ownKey (env : Env) (opts : DrainOptions) (w : Window) (naming : ObjectNaming) (seq : Nat) :
    String :=
  objectKey env.store.keyPrefix opts.account opts.logGroup w naming seq

/-- The writes a window makes: its data objects, sidecars and its manifest. -/
inductive OwnWrite (env : Env) (opts : DrainOptions) (w : Window) (naming : ObjectNaming) :
    StoreWrite → Prop
  | data {seq : Nat} {body : Bytes} :
      OwnWrite env opts w naming (.object (ownKey env opts w naming seq) body)
  | sidecar {key : String} {body : Bytes}
      (aside : ∀ loc : ChunkLocation, loc.dataKey env.store.keyPrefix ≠ key) :
      OwnWrite env opts w naming (.object key body)
  | manifest {body : Bytes} : OwnWrite env opts w naming (.manifest (taskKey env opts w) body)

/-! ## What the objects of a list hold -/

/-- The records of the listed objects. -/
def listedRecords (lib : CodecLib) (objects : String → Option Bytes) (os : List ManifestObject) :
    List LogRecord :=
  os.flatMap fun o => (objects o.dataKey).elim [] (objectRecords lib)

theorem mem_listedRecords {lib : CodecLib} {objects : String → Option Bytes}
    {os : List ManifestObject} {r : LogRecord} : r ∈ listedRecords lib objects os ↔
      ∃ o ∈ os, ∃ body, objects o.dataKey = some body ∧ r ∈ objectRecords lib body := by
  unfold listedRecords
  rw [List.mem_flatMap]
  constructor
  · rintro ⟨o, ho, hr⟩
    cases hbody : objects o.dataKey with
    | none =>
      rw [hbody] at hr
      exact absurd hr List.not_mem_nil
    | some body =>
      rw [hbody] at hr
      exact ⟨o, ho, body, hbody, hr⟩
  · rintro ⟨o, ho, body, hbody, hr⟩
    refine ⟨o, ho, ?_⟩
    rw [hbody]
    exact hr

theorem listedRecords_append {lib : CodecLib} {objects : String → Option Bytes}
    {os os' : List ManifestObject} : listedRecords lib objects (os ++ os') =
      listedRecords lib objects os ++ listedRecords lib objects os' :=
  List.flatMap_append

theorem listedRecords_congr {lib : CodecLib} {objects objects' : String → Option Bytes}
    {os : List ManifestObject} (h : ∀ o ∈ os, objects' o.dataKey = objects o.dataKey) :
    listedRecords lib objects' os = listedRecords lib objects os := by
  induction os with
  | nil => rfl
  | cons o os ih =>
    simp only [listedRecords, List.flatMap_cons, h o List.mem_cons_self]
    congr 1
    exact ih fun o' ho => h o' (List.mem_cons_of_mem _ ho)

/-! ## The accounting of one window -/

/-- The listed objects and the rest hold the events pushed so far. -/
structure Kept (env : Env) (opts : DrainOptions) (w : Window) (naming : ObjectNaming)
    (objects : String → Option Bytes) (ww : WindowWriter) (pushed : List CwEvent)
    (rest : List LogRecord) : Prop where
  start : ww.windowStartMs = w.startMs
  date : ww.date = dateFromTsMs w.startMs
  named : ww.naming = naming
  keys : ∀ o ∈ ww.objects, ∃ seq < ww.seq, o.dataKey = ownKey env opts w naming seq
  first : 0 < ww.seq → ∃ o ∈ ww.objects, o.dataKey = ownKey env opts w naming 0
  total : listedRecords env.lib objects ww.objects ++ rest = pushed.map CwEvent.toRecord

variable {naming : ObjectNaming} {objects objects' : String → Option Bytes} {ww : WindowWriter}
variable {pushed : List CwEvent} {rest : List LogRecord} {prior : Option Manifest}

namespace Kept

theorem new : Kept env opts w naming objects (.new opts w naming) [] [] where
  start := rfl
  date := rfl
  named := rfl
  keys _ ho := absurd ho List.not_mem_nil
  first h := absurd h (Nat.lt_irrefl 0)
  total := rfl

/-- The next object goes under the next key. -/
theorem location (h : Kept env opts w naming objects ww pushed rest) : ww.location opts =
    objectLocation opts.account opts.logGroup w naming ww.seq := by
  simp only [WindowWriter.location, objectLocation, h.start, h.date, h.named]

/-- What holds of the writer's list holds of a writer with the same list. -/
theorem congr {ww' : WindowWriter} (h : Kept env opts w naming objects ww pushed rest)
    (hstart : ww'.windowStartMs = ww.windowStartMs) (hdate : ww'.date = ww.date)
    (hnaming : ww'.naming = ww.naming) (hobjects : ww'.objects = ww.objects)
    (hseq : ww'.seq = ww.seq) : Kept env opts w naming objects ww' pushed rest where
  start := hstart.trans h.start
  date := hdate.trans h.date
  named := hnaming.trans h.named
  keys := by
    rw [hobjects, hseq]
    exact h.keys
  first := by
    rw [hobjects, hseq]
    exact h.first
  total := by
    rw [hobjects]
    exact h.total

theorem push (h : Kept env opts w naming objects ww pushed rest) (ev : CwEvent) :
    Kept env opts w naming objects ww (pushed ++ [ev]) (rest ++ [ev.toRecord]) where
  start := h.start
  date := h.date
  named := h.named
  keys := h.keys
  first := h.first
  total := by
    rw [← List.append_assoc, h.total, List.map_append, List.map_singleton]

/-- A write beside the listed objects changes nothing. -/
theorem frame (h : Kept env opts w naming objects ww pushed rest)
    (heq : ∀ seq < ww.seq, objects' (ownKey env opts w naming seq) =
      objects (ownKey env opts w naming seq)) :
    Kept env opts w naming objects' ww pushed rest where
  start := h.start
  date := h.date
  named := h.named
  keys := h.keys
  first := h.first
  total := by
    rw [listedRecords_congr, h.total]
    intro o ho
    obtain ⟨seq, hseq, hkey⟩ := h.keys o ho
    rw [hkey, heq seq hseq]

/-- A chunk whose body lies at the next key can be listed. -/
theorem stored {chunk : EncodedChunk} (etag : Option String)
    (h : Kept env opts w naming objects ww pushed (objectRecords env.lib chunk.body))
    (hbody : objects (ownKey env opts w naming ww.seq) = some chunk.body) :
    Kept env opts w naming objects
      (ww.stored chunk (receiptFor env.store (ww.location opts) chunk etag)) pushed [] where
  start := h.start
  date := h.date
  named := h.named
  keys o ho := by
    rcases List.mem_append.mp ho with ho | ho
    · obtain ⟨seq, hseq, hkey⟩ := h.keys o ho
      exact ⟨seq, Nat.lt_succ_of_lt hseq, hkey⟩
    · cases List.mem_singleton.mp ho
      refine ⟨ww.seq, Nat.lt_succ_self _, ?_⟩
      show (ww.location opts).dataKey env.store.keyPrefix = _
      rw [h.location]
      rfl
  first _ := by
    by_cases hzero : 0 < ww.seq
    · obtain ⟨o, ho, hkey⟩ := h.first hzero
      exact ⟨o, List.mem_append_left _ ho, hkey⟩
    · refine ⟨_, List.mem_append_right _ (List.mem_singleton_self _), ?_⟩
      show (ww.location opts).dataKey env.store.keyPrefix = _
      rw [h.location, Nat.eq_zero_of_not_pos hzero]
      rfl
  total := by
    have hkey : (WindowWriter.entry chunk
        (receiptFor env.store (ww.location opts) chunk etag)).dataKey =
        ownKey env opts w naming ww.seq := by
      show (ww.location opts).dataKey env.store.keyPrefix = _
      rw [h.location]
      rfl
    show listedRecords env.lib objects (ww.objects ++ [_]) ++ [] = _
    rw [List.append_nil, listedRecords_append, ← h.total]
    simp only [listedRecords, List.flatMap_cons, List.flatMap_nil, List.append_nil, hkey, hbody,
      Option.elim_some]

end Kept

/-- The accounting at an await. A window that puts or ends with a manifest is no
dry run, which keeps no account. -/
def WorkKept (env : Env) (opts : DrainOptions) (w : Window) (naming : ObjectNaming)
    (objects : String → Option Bytes) (wk : Work) : Await → Prop
  | .pages => opts.dryRun = false → ∃ rs, wk.ww.writer.Holds env.lib rs ∧
    Kept env opts w naming objects wk.ww wk.pushed rs
  | .put chunk stage _ => opts.dryRun = false ∧ wk.ww.writer.Holds env.lib [] ∧
    Kept env opts w naming objects wk.ww wk.pushed (objectRecords env.lib chunk.body) ∧
    (stage = .data ∨ objects (ownKey env opts w naming wk.ww.seq) = some chunk.body)
  | .manifest => opts.dryRun = false ∧ Kept env opts w naming objects wk.ww wk.pushed []

/-! ## Where the code between two awaits leads -/

theorem needsManifest_iff {wk : Work} : wk.needsManifest opts = true ↔
    opts.dryRun = false ∧ (wk.prior = none ∨ 0 < wk.appended) := by
  simp only [Work.needsManifest, Bool.and_eq_true, Bool.not_eq_true', Bool.or_eq_true,
    Option.isNone_iff_eq_none, decide_eq_true_eq]

/-- After a chunk the window goes on paging, has a manifest to write or is done. -/
theorem resume_rule {P : Phase → Prop} {wk : Work} {last : Bool}
    (pages : last = false → P (.work wk .pages))
    (manifest : last = true → wk.needsManifest opts = true → P (.work wk .manifest))
    (done : last = true → ¬ wk.needsManifest opts = true → P (.done wk.outcome)) :
    P (wk.resume opts last) := by
  unfold Work.resume
  split
  next hlast =>
    split
    next hneeds => exact manifest hlast hneeds
    next hneeds => exact done hlast hneeds
  next hlast => exact pages (Bool.not_eq_true _ ▸ hlast)

/-- A push fails, fills the writer, which is flushed, or leaves room. -/
theorem push_rule {P : Phase → Prop} {wk : Work} {ev : CwEvent} (failed : ∀ e, P (.failed e))
    (full : ∀ writer, wk.ww.writer.push env.lib ev.toRecord = (writer, .ok ()) →
      opts.chunkTargetBytes ≤ writer.uncompressedLen →
      P (Work.flush env opts { wk with
        pushed := wk.pushed ++ [ev]
        ww := { wk.ww with writer := ChunkWriter.new opts.chunk } } writer false))
    (room : ∀ writer, wk.ww.writer.push env.lib ev.toRecord = (writer, .ok ()) →
      ¬ opts.chunkTargetBytes ≤ writer.uncompressedLen →
      P (.work { wk with
        pushed := wk.pushed ++ [ev]
        ww := { wk.ww with writer := writer } } .pages)) :
    P (wk.push env opts ev) := by
  unfold Work.push
  cases hpush : wk.ww.writer.push env.lib ev.toRecord with
  | mk writer result =>
    cases result with
    | error e => exact failed _
    | ok =>
      dsimp only
      split
      next hfull => exact full writer hpush hfull
      next hroom => exact room writer hpush hroom

/-- An event is dropped, drained, known already or appended. -/
theorem event_rule {P : Phase → Prop} {wk : Work} {ev : CwEvent} {rest : List CwEvent}
    (dropped : w.contains ev = false → P (.work { wk with
      inbox := rest
      dropped := if wk.prior.isNone then wk.dropped + 1 else wk.dropped } .pages))
    (drained : w.contains ev = true → wk.prior = none → P (Work.push env opts { wk with
      inbox := rest
      arrived := wk.arrived ++ [ev] } ev))
    (already : w.contains ev = true → wk.prior ≠ none → ev.seenIn wk.seen = true →
      P (.work { wk with
        inbox := rest
        arrived := wk.arrived ++ [ev]
        cwEvents := wk.cwEvents + 1
        already := wk.already + 1 } .pages))
    (appended : w.contains ev = true → wk.prior ≠ none → ev.seenIn wk.seen = false →
      P (Work.push env opts { wk with
        inbox := rest
        arrived := wk.arrived ++ [ev]
        cwEvents := wk.cwEvents + 1
        seen := ev.identity :: wk.seen
        appended := wk.appended + 1 } ev)) :
    P (wk.event env opts w ev rest) := by
  unfold Work.event
  dsimp only
  split
  next hout =>
    have hdropped := dropped hout
    cases hnone : wk.prior.isNone with
    | true =>
      rw [hnone] at hdropped
      exact hdropped
    | false =>
      rw [hnone] at hdropped
      exact hdropped
  next hin =>
    have hin : w.contains ev = true := Bool.not_eq_false _ ▸ hin
    split
    next hnone => exact drained hin (Option.isNone_iff_eq_none.mp hnone)
    next hsome =>
      have hsome : wk.prior ≠ none := fun hnone => hsome (Option.isNone_iff_eq_none.mpr hnone)
      split
      next hseen => exact already hin hsome hseen
      next hnew => exact appended hin hsome (Bool.eq_false_iff.mpr hnew)

/-! ## What that code keeps -/

/-- What a window has come to after some code between two awaits. It is done
without a manifest only where it repairs one or runs dry. -/
def Settled (env : Env) (opts : DrainOptions) (w : Window) (naming : ObjectNaming)
    (objects : String → Option Bytes) (prior : Option Manifest) : Phase → Prop
  | .work wk at_ => wk.prior = prior ∧ WorkKept env opts w naming objects wk at_
  | .done _ => opts.dryRun = false → prior ≠ none
  | .failed _ => True
  | _ => False

theorem resume_settled {wk : Work} {last : Bool} (hprior : wk.prior = prior)
    (hpages : WorkKept env opts w naming objects wk .pages)
    (hlast : last = true → opts.dryRun = false →
      Kept env opts w naming objects wk.ww wk.pushed []) :
    Settled env opts w naming objects prior (wk.resume opts last) := by
  refine resume_rule (fun _ => ⟨hprior, hpages⟩) (fun hl hneeds => ?_) fun _ hneeds hdry hnone => ?_
  · have hdry := (needsManifest_iff.mp hneeds).1
    exact ⟨hprior, hdry, hlast hl hdry⟩
  · exact hneeds (needsManifest_iff.mpr ⟨hdry, .inl (hprior.trans hnone)⟩)

/-- A dry run puts nothing: a flush fails, or the window goes on. -/
theorem flush_dryRun (hdry : opts.dryRun = true) (wk : Work) (writer : ChunkWriter) (last : Bool) :
    (∃ e, wk.flush env opts writer last = .failed e) ∨
      ∃ ww, wk.flush env opts writer last = ({ wk with ww := ww } : Work).resume opts last := by
  unfold Work.flush WindowWriter.flush
  rw [hdry]
  rcases writer.finish env.lib with e | (_ | chunk)
  · exact .inl ⟨_, rfl⟩
  · exact .inr ⟨_, rfl⟩
  · exact .inr ⟨_, rfl⟩

theorem flush_settled {wk : Work} {writer : ChunkWriter} {last : Bool} (hprior : wk.prior = prior)
    (hnew : wk.ww.writer = ChunkWriter.new opts.chunk)
    (hkept : opts.dryRun = false → ∃ rs, writer.Holds env.lib rs ∧
      Kept env opts w naming objects wk.ww wk.pushed rs) :
    Settled env opts w naming objects prior (wk.flush env opts writer last) := by
  have hholds : wk.ww.writer.Holds env.lib [] := by
    rw [hnew]
    exact ChunkWriter.holds_new _
  cases hdry : opts.dryRun with
  | true =>
    rcases flush_dryRun hdry wk writer last with ⟨e, hflush⟩ | ⟨ww, hflush⟩
    · rw [hflush]
      trivial
    · rw [hflush]
      exact resume_settled (by exact hprior)
        (fun h => absurd (hdry.symm.trans h) Bool.noConfusion)
        (fun _ h => absurd (hdry.symm.trans h) Bool.noConfusion)
  | false =>
    obtain ⟨rs, hrs, hk⟩ := hkept hdry
    unfold Work.flush WindowWriter.flush
    rw [hdry]
    rcases hrs.encode with ⟨hfinish, hnil⟩ | ⟨chunk, hfinish, hdescribes⟩ | ⟨hfinish, -⟩
    · have hfinish : writer.finish env.lib = .ok none := hfinish
      subst hnil
      rw [hfinish]
      exact resume_settled hprior (fun _ => ⟨[], hholds, hk⟩) (fun _ _ => hk)
    · have hfinish : writer.finish env.lib = .ok (some chunk) := hfinish
      rw [hfinish]
      refine ⟨hprior, hdry, hholds, ?_, .inl rfl⟩
      rw [hdescribes.objectRecords]
      exact hk.congr rfl rfl rfl rfl rfl
    · have hfinish : writer.finish env.lib = .error .io := hfinish
      rw [hfinish]
      exact trivial

theorem push_settled {wk : Work} {ev : CwEvent} (hprior : wk.prior = prior)
    (hpages : WorkKept env opts w naming objects wk .pages) :
    Settled env opts w naming objects prior (wk.push env opts ev) := by
  have hpushed : opts.dryRun = false → ∃ rs,
      (wk.ww.writer.push env.lib ev.toRecord).1.Holds env.lib rs ∧
      Kept env opts w naming objects wk.ww (wk.pushed ++ [ev]) rs := fun hdry => by
    obtain ⟨rs, hrs, hk⟩ := hpages hdry
    exact ⟨rs ++ [ev.toRecord], hrs.push _, hk.push ev⟩
  refine push_rule (fun _ => trivial) (fun writer hpush _ => ?_) fun writer hpush _ => ?_
  · rw [hpush] at hpushed
    refine flush_settled hprior rfl fun hdry => ?_
    obtain ⟨rs, hrs, hk⟩ := hpushed hdry
    exact ⟨rs, hrs, hk.congr rfl rfl rfl rfl rfl⟩
  · rw [hpush] at hpushed
    refine ⟨hprior, fun hdry => ?_⟩
    obtain ⟨rs, hrs, hk⟩ := hpushed hdry
    exact ⟨rs, hrs, hk.congr rfl rfl rfl rfl rfl⟩

theorem event_settled {wk : Work} {ev : CwEvent} {rest : List CwEvent} (hprior : wk.prior = prior)
    (hpages : WorkKept env opts w naming objects wk .pages) :
    Settled env opts w naming objects prior (wk.event env opts w ev rest) := by
  exact event_rule (fun _ => ⟨hprior, hpages⟩) (fun _ _ => push_settled hprior hpages)
    (fun _ _ _ => ⟨hprior, hpages⟩) (fun _ _ _ => push_settled hprior hpages)

theorem start_settled {seen : List Nat} : Settled env opts w naming objects prior
    (.work (Work.start opts shards w prior naming seen events) .pages) :=
  ⟨rfl, fun _ => ⟨[], ChunkWriter.holds_new _, Kept.new⟩⟩

/-- After an object is read: more to read, or a fresh attempt, or an end. -/
theorem readNext_spec (m : Manifest) (rest : List ManifestObject) (seen : List Nat) :
    readNext opts shards w m rest seen events = .read m rest seen ∨
      (∃ e, readNext opts shards w m rest seen events = .failed e) ∨
      ∃ attempt, rest = [] ∧ nextAttempt m = some attempt ∧ attempt < 100 ∧
        readNext opts shards w m rest seen events =
          .work (Work.start opts shards w (some m) (.reconcile attempt) seen events) .pages := by
  unfold readNext
  split
  next hnil =>
    unfold readDone
    cases hnext : nextAttempt m with
    | none => exact .inr (.inl ⟨_, rfl⟩)
    | some attempt =>
      dsimp only
      split
      next => exact .inr (.inl ⟨_, rfl⟩)
      next hle =>
        exact .inr (.inr ⟨attempt, hnil, rfl, Nat.lt_succ_of_le (Nat.le_of_not_lt hle), rfl⟩)
  next => exact .inl rfl

/-! ## What a paging step keeps -/

theorem putRequest_data {wk : Work} {chunk : EncodedChunk}
    (h : Kept env opts w naming objects wk.ww pushed rest) :
    putRequest env.lib env.store (wk.ww.location opts) chunk .data =
      (ownKey env opts w naming wk.ww.seq, chunk.body) := by
  rw [h.location]
  rfl

/-- A sidecar lies beside every data object. -/
theorem putRequest_sidecar (env : Env) (loc : ChunkLocation) (chunk : EncodedChunk)
    {stage : PutStage} (h : stage ≠ .data) (loc' : ChunkLocation) :
    loc'.dataKey env.store.keyPrefix ≠ (putRequest env.lib env.store loc chunk stage).1 := by
  cases stage with
  | data => exact absurd rfl h
  | index etag => exact (dataKey_ne_sidecar loc' loc _).1
  | tsIndex etag => exact (dataKey_ne_sidecar loc' loc _).2

theorem ownKey_ne {seq seq' : Nat} (hw : 0 ≤ w.startMs) (hfit : naming.Fits) (h : seq ≠ seq') :
    ownKey env opts w naming seq ≠ ownKey env opts w naming seq' := fun heq =>
  h ((objectKey_injective hw hw heq).2 hfit hfit).2

theorem objects_beside {key : String} (body : Bytes) (seq : Nat)
    (aside : ∀ loc : ChunkLocation, loc.dataKey env.store.keyPrefix ≠ key) :
    (applyWrites a [.object key body]).objects (ownKey env opts w naming seq) =
      a.objects (ownKey env opts w naming seq) :=
  if_neg (aside _)

/-- A window that pages, puts or writes its manifest keeps its account, and what it
writes is its own. Only its last step writes a manifest. -/
theorem work_step {wk : Work} {at_ : Await} {l : TaskLabel} {p' : Phase}
    {writes : List StoreWrite} (hw : 0 ≤ w.startMs) (hfit : naming.Fits)
    (move : TaskMove env opts shards w a events (.work wk at_) l p' writes)
    (h : WorkKept env opts w naming a.objects wk at_) :
    (∀ write ∈ writes, OwnWrite env opts w naming write) ∧
      ((Settled env opts w naming (applyWrites a writes).objects wk.prior p' ∧
        (applyWrites a writes).manifests = a.manifests) ∨
      ∃ nowMs, at_ = .manifest ∧ p' = .done wk.outcome ∧ writes =
        [.manifest (taskKey env opts w)
          ((Work.manifest opts w wk nowMs).toJsonBytes env.serde)]) := by
  cases move with
  | fail => exact ⟨fun _ h => absurd h List.not_mem_nil, .inl ⟨trivial, rfl⟩⟩
  | page => exact ⟨fun _ h => absurd h List.not_mem_nil, .inl ⟨⟨rfl, h⟩, rfl⟩⟩
  | event => exact ⟨fun _ h => absurd h List.not_mem_nil, .inl ⟨event_settled rfl h, rfl⟩⟩
  | endPages =>
    refine ⟨fun _ h => absurd h List.not_mem_nil, .inl ⟨flush_settled rfl rfl fun hdry => ?_, rfl⟩⟩
    obtain ⟨rs, hrs, hk⟩ := h hdry
    exact ⟨rs, hrs, hk.congr rfl rfl rfl rfl rfl⟩
  | @putNext _ chunk stage stage' last etag hnext =>
    obtain ⟨hdry, hholds, hk, hstage⟩ := h
    cases stage with
    | data =>
      rw [putRequest_data hk]
      refine ⟨fun write hwrite => ?_, .inl ⟨⟨rfl, hdry, hholds, hk.frame ?_, .inr ?_⟩, rfl⟩⟩
      · rw [List.mem_singleton.mp hwrite]
        exact .data
      · exact fun seq hseq => if_neg (ownKey_ne hw hfit (Nat.ne_of_lt hseq))
      · exact if_pos rfl
    | index etag =>
      have hbeside := putRequest_sidecar env (wk.ww.location opts) chunk
        (show PutStage.index etag ≠ .data from PutStage.noConfusion)
      generalize putRequest env.lib env.store (wk.ww.location opts) chunk (.index etag) = req
        at hbeside
      refine ⟨fun write hwrite => ?_, .inl ⟨⟨rfl, hdry, hholds, hk.frame ?_, .inr ?_⟩, rfl⟩⟩
      · rw [List.mem_singleton.mp hwrite]
        exact .sidecar hbeside
      · exact fun seq _ => objects_beside _ seq hbeside
      · rw [objects_beside _ _ hbeside]
        exact hstage.resolve_left PutStage.noConfusion
    | tsIndex etag => cases hnext
  | @putDone _ chunk stage last etag receipt hnext =>
    obtain ⟨hdry, hholds, hk, hstage⟩ := h
    cases stage with
    | data => cases hnext
    | index etag => cases hnext
    | tsIndex etag =>
      have hbeside := putRequest_sidecar env (wk.ww.location opts) chunk
        (show PutStage.tsIndex etag ≠ .data from PutStage.noConfusion)
      obtain rfl : receiptFor env.store (wk.ww.location opts) chunk etag = receipt :=
        Sum.inr.inj hnext
      generalize putRequest env.lib env.store (wk.ww.location opts) chunk (.tsIndex etag) = req
        at hbeside
      have hframe := hk.frame fun seq _ => objects_beside (a := a) req.2 seq hbeside
      have hbody : (applyWrites a [.object req.1 req.2]).objects
          (ownKey env opts w naming wk.ww.seq) = some chunk.body := by
        rw [objects_beside _ _ hbeside]
        exact hstage.resolve_left PutStage.noConfusion
      have hstored := hframe.stored etag hbody
      refine ⟨fun write hwrite => ?_, .inl ⟨resume_settled rfl
        (fun _ => ⟨[], hholds, hstored⟩) (fun _ _ => hstored), rfl⟩⟩
      rw [List.mem_singleton.mp hwrite]
      exact .sidecar hbeside
  | putManifest =>
    refine ⟨fun write hwrite => ?_, .inr ⟨_, rfl, rfl, rfl⟩⟩
    rw [List.mem_singleton.mp hwrite]
    exact .manifest

end S4Logs

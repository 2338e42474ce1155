import S4Logs.Laws.Core.Dates
import S4Logs.Laws.Core.Partition
import S4Logs.Laws.Drain.Fidelity

/-!
# Where the records of a window come from

A window writes records of the events that its pages brought and that lie in the window.
The pages are of the log group of the run, and a window of the grid ends with its day, so
every data object stays inside its partition.
-/

namespace S4Logs

variable {env : Env} {opts : DrainOptions} {shards : Option (List (List String))} {w : Window}
variable {lib : CodecLib} {R R' : CwEvent → Prop} {a : Archive} {events : List CwEvent}

/-- The events of the window have one date. -/
theorem GridWindow.date {windowMs : Int} (h : GridWindow windowMs w) {ev : CwEvent}
    (hin : w.contains ev = true) : dateFromTsMs ev.timestamp = dateFromTsMs w.startMs := by
  have hstart := h.2.1
  have hend := h.end_le_day.1
  simp only [Window.contains, Bool.and_eq_true, decide_eq_true_eq] at hin
  rw [Int.tdiv_eq_ediv_of_nonneg hstart] at hend
  refine dateFromTsMs_eq_iff.mpr (labelledDay_congr ?_)
  unfold dayMs at hend ⊢
  omega

/-- The record is of an event of the window that has the property. -/
def OfWindow (w : Window) (R : CwEvent → Prop) (r : LogRecord) : Prop :=
  ∃ ev, R ev ∧ w.contains ev = true ∧ ev.toRecord = r

/-- What the window holds is of events that have the property. -/
structure Work.From (lib : CodecLib) (w : Window) (R : CwEvent → Prop) (wk : Work) : Prop where
  date : wk.ww.date = dateFromTsMs w.startMs
  inbox : ∀ ev ∈ wk.inbox, R ev
  held : ∃ rs, wk.ww.writer.Holds lib rs ∧ ∀ r ∈ rs, OfWindow w R r

/-- So is the chunk that a window puts. -/
def Phase.From (lib : CodecLib) (w : Window) (R : CwEvent → Prop) : Phase → Prop
  | .work wk (.put chunk _ _) =>
    wk.From lib w R ∧ ∀ r ∈ objectRecords lib chunk.body, OfWindow w R r
  | .work wk _ => wk.From lib w R
  | _ => True

theorem OfWindow.mono {r : LogRecord} (h : OfWindow w R r) (hsub : ∀ ev, R ev → R' ev) :
    OfWindow w R' r := by
  obtain ⟨ev, hev, hin, hr⟩ := h
  exact ⟨ev, hsub ev hev, hin, hr⟩

theorem Work.From.mono {wk : Work} (h : wk.From lib w R) (hsub : ∀ ev, R ev → R' ev) :
    wk.From lib w R' where
  date := h.date
  inbox ev hev := hsub ev (h.inbox ev hev)
  held := by
    obtain ⟨rs, hrs, hof⟩ := h.held
    exact ⟨rs, hrs, fun r hr => (hof r hr).mono hsub⟩

theorem Phase.From.mono {p : Phase} (h : p.From lib w R) (hsub : ∀ ev, R ev → R' ev) :
    p.From lib w R' := by
  cases p with
  | work wk at_ =>
    cases at_ with
    | pages => exact Work.From.mono h hsub
    | put chunk stage last => exact ⟨h.1.mono hsub, fun r hr => (h.2 r hr).mono hsub⟩
    | manifest => exact Work.From.mono h hsub
  | look => trivial
  | lookup => trivial
  | read m rest seen => trivial
  | done out => trivial
  | failed e => trivial

/-! ## One step -/

/-- Only the date, the inbox and the writer of a window count. -/
theorem Work.From.congr {wk wk' : Work} (h : wk.From lib w R) (hdate : wk'.ww.date = wk.ww.date)
    (hinbox : wk'.inbox = wk.inbox) (hwriter : wk'.ww.writer = wk.ww.writer) : wk'.From lib w R where
  date := hdate.trans h.date
  inbox := hinbox ▸ h.inbox
  held := hwriter ▸ h.held

theorem resume_from {wk : Work} (h : wk.From lib w R) (last : Bool) :
    (wk.resume opts last).From lib w R := by
  exact resume_rule (fun _ => h) (fun _ _ => h) fun _ _ => trivial

theorem flush_from {wk : Work} {writer : ChunkWriter} (last : Bool) (h : wk.From env.lib w R)
    (hwriter : ∃ rs, writer.Holds env.lib rs ∧ ∀ r ∈ rs, OfWindow w R r) :
    (wk.flush env opts writer last).From env.lib w R := by
  obtain ⟨rs, hrs, hof⟩ := hwriter
  unfold Work.flush WindowWriter.flush ChunkWriter.finish
  rcases hrs.encode with ⟨hencode, -⟩ | ⟨chunk, hencode, hdescribes⟩ | ⟨hencode, -⟩
  · rw [hencode]
    exact resume_from h last
  · rw [hencode]
    dsimp only
    cases opts.dryRun with
    | true =>
      rw [if_pos rfl]
      refine resume_from ?_ last
      exact h.congr rfl rfl rfl
    | false =>
      rw [if_neg Bool.false_ne_true]
      refine ⟨h.congr rfl rfl rfl, ?_⟩
      rw [hdescribes.objectRecords]
      exact hof
  · rw [hencode]
    trivial

theorem push_from {wk : Work} {ev : CwEvent} (h : wk.From env.lib w R) (hev : R ev)
    (hin : w.contains ev = true) : (wk.push env opts ev).From env.lib w R := by
  obtain ⟨rs, hrs, hof⟩ := h.held
  have hwriter : ∃ rs, (wk.ww.writer.push env.lib ev.toRecord).1.Holds env.lib rs ∧
      ∀ r ∈ rs, OfWindow w R r := by
    refine ⟨rs ++ [ev.toRecord], hrs.push _, fun r hr => ?_⟩
    rcases List.mem_append.mp hr with hr | hr
    · exact hof r hr
    · exact ⟨ev, hev, hin, (List.mem_singleton.mp hr).symm⟩
  refine push_rule (fun _ => trivial) (fun writer hpush _ => ?_) fun writer hpush _ => ?_
  · rw [hpush] at hwriter
    exact flush_from false ⟨h.date, h.inbox, [], ChunkWriter.holds_new _,
      fun _ hr => absurd hr List.not_mem_nil⟩ hwriter
  · rw [hpush] at hwriter
    exact ⟨h.date, h.inbox, hwriter⟩

theorem event_from {wk : Work} {ev : CwEvent} {rest : List CwEvent} (h : wk.From env.lib w R)
    (hinbox : wk.inbox = ev :: rest) : (wk.event env opts w ev rest).From env.lib w R := by
  have hev : R ev := h.inbox ev (hinbox ▸ List.mem_cons_self)
  have hrest : ∀ ev ∈ rest, R ev :=
    fun ev hev => h.inbox ev (hinbox ▸ List.mem_cons_of_mem _ hev)
  exact event_rule (fun _ => ⟨h.date, hrest, h.held⟩)
    (fun hin _ => push_from ⟨h.date, hrest, h.held⟩ hev hin)
    (fun _ _ _ => ⟨h.date, hrest, h.held⟩)
    (fun hin _ _ => push_from ⟨h.date, hrest, h.held⟩ hev hin)

theorem start_from (prior : Option Manifest) (naming : ObjectNaming) (seen : List Nat) :
    (Work.start opts shards w prior naming seen events).From lib w R where
  date := rfl
  inbox _ hev := absurd hev List.not_mem_nil
  held := ⟨[], ChunkWriter.holds_new _, fun _ hr => absurd hr List.not_mem_nil⟩

theorem readNext_from (m : Manifest) (rest : List ManifestObject) (seen : List Nat) :
    (readNext opts shards w m rest seen events).From lib w R := by
  have hspec := @readNext_spec opts shards w events m rest seen
  rcases hspec with heq | ⟨e, heq⟩ | ⟨attempt, -, -, -, heq⟩
  · rw [heq]
    trivial
  · rw [heq]
    trivial
  · rw [heq]
    exact start_from _ _ _

/-- What a window holds comes from its pages. -/
theorem TaskMove.from {p p' : Phase} {l : TaskLabel} {writes : List StoreWrite}
    (h : TaskMove env opts shards w a events p l p' writes) (hp : p.From env.lib w R)
    (hpage : ∀ ev ∈ l.pageEvents, R ev) : p'.From env.lib w R := by
  cases h with
  | fail => trivial
  | absent => trivial
  | found => exact readNext_from _ _ _
  | skip => trivial
  | begin => exact start_from _ _ _
  | readObject => exact readNext_from _ _ _
  | page => exact ⟨hp.date, hpage, hp.held⟩
  | event hinbox => exact event_from hp hinbox
  | endPages =>
    exact flush_from true ⟨hp.date, hp.inbox, [], ChunkWriter.holds_new _,
      fun _ hr => absurd hr List.not_mem_nil⟩ hp.held
  | putNext => exact hp
  | putDone =>
    refine resume_from ?_ _
    exact hp.1.congr rfl rfl rfl
  | putManifest => trivial

/-! ## Over runs -/

/-- What a run is given: the events of a page, for the log group of the run. -/
def Sys.receives (s : Sys) : SysLabel → List (String × CwEvent)
  | .task _ l => s.run.elim [] fun run => l.pageEvents.map fun ev => (run.opts.logGroup, ev)
  | _ => []

/-- The data object whose PUT a window waits for. -/
def Phase.underWay (opts : DrainOptions) : Phase → List (ChunkLocation × EncodedChunk)
  | .work wk (.put chunk .data _) => [(wk.ww.location opts, chunk)]
  | _ => []

/-- The data objects whose PUT is under way. -/
def Run.underWay (run : Run) : List (ChunkLocation × EncodedChunk) :=
  run.tasks.flatMap fun t => t.phase.underWay run.opts

/-- The windows of the run are of its grid, and what they hold was given to a run of its log
group. -/
def Run.From (lib : CodecLib) (got : List (String × CwEvent)) (run : Run) : Prop :=
  ∀ q ∈ run.stages, GridWindow run.opts.windowMs q.1 ∧
    ∀ p, q.2 = .active p → p.From lib q.1 fun ev => (run.opts.logGroup, ev) ∈ got

theorem Run.From.mono {got more : List (String × CwEvent)} {run : Run} (h : run.From lib got) :
    run.From lib (got ++ more) := by
  intro q hq
  obtain ⟨hgrid, hactive⟩ := h q hq
  exact ⟨hgrid, fun p hp => (hactive p hp).mono fun ev hev => List.mem_append_left _ hev⟩

/-- The step lemma. -/
theorem Run.From.step {got : List (String × CwEvent)} {s t : Sys} {l : SysLabel}
    (h : ∀ run, s.run = some run → run.From env.lib got) (hstep : sysStep env s l = some t) :
    ∀ run, t.run = some run → run.From env.lib (got ++ s.receives l) := by
  intro run' hrun'
  cases hrun : s.run with
  | none =>
    cases sysStep_idle hrun hstep with
    | cloud =>
      rw [hrun] at hrun'
      cases hrun'
    | rejected => cases hrun'
    | started hok =>
      cases hrun'
      obtain ⟨-, hopts, -, ⟨lo, hi, htiles⟩, hstages, -⟩ := startRun_spec hok
      intro q hq
      rw [hstages] at hq
      obtain ⟨w, hw, rfl⟩ := List.mem_map.mp hq
      exact ⟨hopts ▸ htiles.grid w hw, fun p hp => by cases hp⟩
    | kill => cases hrun'
  | some run =>
    have hold : run.From env.lib (got ++ s.receives l) := (h run hrun).mono
    have hguard : TaskGuard (fun _ _ _ l' => ∀ ev ∈ l'.pageEvents,
        (run.opts.logGroup, ev) ∈ got ++ s.receives l) s l := by
      cases l with
      | task i l =>
        intro _ _ _ _ ev hev
        refine List.mem_append_right _ ?_
        rw [Sys.receives, hrun]
        exact List.mem_map_of_mem hev
      | _ => trivial
    cases sysStep_move hrun hguard hstep with
    | cloud =>
      rw [hrun] at hrun'
      cases hrun'
      exact hold
    | window w st st' writes rest job before after move =>
      cases hrun'
      intro q hq
      rw [job.opts]
      rcases List.mem_cons.mp (after.mem_iff.mp hq) with rfl | hq
      · obtain ⟨hgrid, hactive⟩ := hold _ (before.mem_iff.mpr List.mem_cons_self)
        refine ⟨hgrid, fun p hp => ?_⟩
        cases move with
        | spawn =>
          cases hp
          cases run.kind <;> trivial
        | task hpage htask =>
          cases hp
          exact (taskStep_move htask).from (hactive _ rfl) hpage
        | close => cases hp
      · exact hold q (before.mem_iff.mpr (List.mem_cons_of_mem _ hq))
    | failed => cases hrun'
    | finish => cases hrun'
    | kill => cases hrun'

/-- The data objects of such a run are inside their partitions. -/
theorem Run.From.underWay {got : List (String × CwEvent)} {run : Run} (h : run.From lib got) :
    ∀ o ∈ run.underWay, InPartition lib run.opts.account
      (fun logGroup r => ∃ ev, (logGroup, ev) ∈ got ∧ ev.toRecord = r) o := by
  intro o ho
  obtain ⟨t, ht, ho⟩ := List.mem_flatMap.mp ho
  obtain ⟨i, hi⟩ := List.mem_iff_getElem?.mp ht
  obtain ⟨hgrid, hactive⟩ := h _ (mem_stages_of_task hi)
  have hfrom := hactive t.phase rfl
  unfold Phase.underWay at ho
  split at ho
  next wk chunk last hphase =>
    rw [hphase] at hfrom
    obtain ⟨hwork, hof⟩ := hfrom
    rw [List.mem_singleton.mp ho]
    refine ⟨rfl, fun r hr => ?_, fun r hr => ?_⟩
    · obtain ⟨ev, hev, -, heq⟩ := hof r hr
      exact ⟨ev, hev, heq⟩
    · obtain ⟨ev, -, hin, rfl⟩ := hof r hr
      exact (hgrid.date hin).trans hwork.date.symm
  next => cases ho

/-- An object that a step writes is a data object whose PUT was under way, or a sidecar. -/
theorem object_written {p p' : Phase} {l : TaskLabel} {writes : List StoreWrite}
    (h : taskStep env opts shards w a events p l = some (p', writes)) {key : String} {body : Bytes}
    (hw : .object key body ∈ writes) :
    (∃ o ∈ p.underWay opts, key = o.1.dataKey env.store.keyPrefix ∧ body = o.2.body) ∨
      ∃ loc : ChunkLocation, key = loc.indexKey env.store.keyPrefix ∨
        key = loc.tsIndexKey env.store.keyPrefix := by
  have hput : ∀ {wk : Work} {chunk : EncodedChunk} {stage : PutStage} {last : Bool},
      .object key body ∈ [StoreWrite.object
        (putRequest env.lib env.store (wk.ww.location opts) chunk stage).1
        (putRequest env.lib env.store (wk.ww.location opts) chunk stage).2] →
      (∃ o ∈ (Phase.work wk (.put chunk stage last)).underWay opts,
        key = o.1.dataKey env.store.keyPrefix ∧ body = o.2.body) ∨
      ∃ loc : ChunkLocation, key = loc.indexKey env.store.keyPrefix ∨
        key = loc.tsIndexKey env.store.keyPrefix := by
    intro wk chunk stage last hmem
    cases List.mem_singleton.mp hmem
    cases stage with
    | data => exact .inl ⟨_, List.mem_singleton_self _, rfl, rfl⟩
    | index etag => exact .inr ⟨_, .inl rfl⟩
    | tsIndex etag => exact .inr ⟨_, .inr rfl⟩
  cases taskStep_move h with
  | putNext => exact hput hw
  | putDone => exact hput hw
  | putManifest => cases List.mem_singleton.mp hw
  | fail => cases hw
  | absent => cases hw
  | found => cases hw
  | skip => cases hw
  | begin => cases hw
  | readObject => cases hw
  | page => cases hw
  | event => cases hw
  | endPages => cases hw

/-- In every run of jobs every data object is inside its partition: its records are of
events that CloudWatch gave for its log group. -/
theorem jobs_received {s t : Sys} {labels : List SysLabel} (hidle : s.run = none)
    (run : LTS.exec (sysStep env) s labels = some t) : ∀ run', t.run = some run' →
      run'.From env.lib (LTS.seen (sysStep env) Sys.receives s labels) := by
  refine LTS.exec_seen (I := fun got s => ∀ run, s.run = some run → run.From env.lib got)
    (fun run' hrun => ?_) (fun got l s t h hstep => ?_) run
  · rw [hidle] at hrun
    cases hrun
  · exact Run.From.step h hstep

end S4Logs

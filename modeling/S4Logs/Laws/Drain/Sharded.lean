import S4Logs.Drain.Concrete
import S4Logs.Laws.Drain.Covered
import S4Logs.Laws.Drain.Paging

/-!
# Streams created after the listing

A sharded run lists the streams once. Its cursors name the listed streams, so a
window is paged without the events of any stream that was created later, and is
then closed with a manifest like any other. `sharded_manifest_complete` says
exactly when the manifest is complete: when every event that lay in the window as
its paging started belongs to a listed stream.
-/

namespace S4Logs

variable {env : Env}

/-- CloudWatch takes in events and streams, and drops none. -/
def Grows (events events' : List CwEvent) : Prop := ∀ ev ∈ events, ev ∈ events'

instance Grows.decidable (events events' : List CwEvent) : Decidable (Grows events events') :=
  inferInstanceAs (Decidable (∀ ev ∈ events, ev ∈ events'))

/-- The record is on a line of an object that the manifest lists. -/
def Archived (lib : CodecLib) (a : Archive) (m : Manifest) (r : LogRecord) : Prop :=
  ∃ o ∈ m.objects, ∃ body, a.objects o.dataKey = some body ∧ r ∈ objectRecords lib body

theorem archived_iff {lib : CodecLib} {a : Archive} {m : Manifest} {r : LogRecord} :
    Archived lib a m r ↔ r ∈ listedRecords lib a.objects m.objects :=
  mem_listedRecords.symm

/-- A window of a drain: its account and its paging, and no manifest to repair. -/
def DrainStage (env : Env) (opts : DrainOptions) (shards : Option (List (List String)))
    (a : Archive) (w : Window) (st : Stage) : Prop :=
  StageKept env opts a w st ∧
    match st with
    | .active (.work wk at_) => wk.prior = none ∧
      ∃ view, Paged shards w view (.work wk at_)
    | .active .look => False
    | .active (.read _ _ _) => False
    | _ => True

theorem DrainStage.move {opts : DrainOptions} {shards : Option (List (List String))} {a : Archive}
    {w : Window} {events : List CwEvent} {st st' : Stage} {writes : List StoreWrite}
    (hw : 0 ≤ w.startMs)
    (move : StageMove env (PageAnswers events w) .drain opts shards w a events st st' writes)
    (h : DrainStage env opts shards a w st) :
    DrainStage env opts shards (applyWrites a writes) w st' := by
  refine ⟨(move.kept hw h.1).1, ?_⟩
  cases move with
  | spawn => trivial
  | close => trivial
  | @task p p' l _ answers hstep =>
    have hmove := taskStep_move hstep
    cases p with
    | look => exact absurd h.2 not_false
    | read m rest seen => exact absurd h.2 not_false
    | lookup =>
      cases hmove with
      | fail => trivial
      | skip => trivial
      | begin => exact ⟨rfl, _, .start, fun h => nomatch h⟩
    | work wk at_ =>
      obtain ⟨⟨naming, hfor, hkept⟩, hprior, view, hpaged⟩ := h
      have hpaged' := hmove.paged answers hpaged
      obtain ⟨-, ⟨hsettled, -⟩ | ⟨nowMs, -, rfl, -⟩⟩ := work_step hw hfor.fits hmove hkept
      · cases p' with
        | work wk' at_' => exact ⟨hsettled.1.trans hprior, view, hpaged'⟩
        | look => exact hsettled
        | read m rest seen => exact hsettled
        | lookup => trivial
        | done out => trivial
        | failed e => trivial
      · trivial
    | done out =>
      cases hmove
      trivial
    | failed e =>
      cases hmove
      trivial

theorem drain_invariant {cloud : List CwEvent → List CwEvent → Prop} {run : Run}
    (hkind : run.kind = .drain) (hgrid : ∀ w ∈ run.wins, GridWindow run.opts.windowMs w) :
    RunInvariant env PageAnswers cloud run fun a _ w st =>
      DrainStage env run.opts run.shards a w st where
  own hw move h := by
    rw [hkind] at move
    exact h.move (hgrid _ hw).2.1 move
  others hw hw' hne move h h' := by
    have hs := (hgrid _ hw).2.1
    exact ⟨h'.1.frame hs (hgrid _ hw').2.1 hne (move.kept hs h.1).2, h'.2⟩
  cloud _ h := h

/-- A window that is about to write its manifest lists objects of just the events it
pushed, and has pushed every visible event that its cursors let through. -/
theorem DrainStage.manifest {opts : DrainOptions} {shards : Option (List (List String))}
    {a : Archive} {w : Window} {wk : Work}
    (h : DrainStage env opts shards a w (.active (.work wk .manifest))) :
    listedRecords env.lib a.objects wk.ww.objects = wk.pushed.map CwEvent.toRecord ∧
      (∀ ev ∈ wk.visible, Reads shards ev → ev ∈ wk.pushed) ∧
      ∀ ev ∈ wk.pushed, Reads shards ev := by
  obtain ⟨⟨naming, -, -, hkept⟩, hprior, view, hpaging, hend⟩ := h
  refine ⟨?_, fun ev hev hreads => ?_, fun ev hev => ?_⟩
  · have := hkept.total
    rwa [List.append_nil] at this
  · rw [hpaging.pushed hprior]
    exact hpaging.arrived_of_ended (hend rfl) ev hev hreads
  · rw [hpaging.pushed hprior] at hev
    exact (hpaging.arrived ev hev).2

/-- The last step of a window writes its manifest and nothing else. -/
theorem putManifest_step {t : Sys} {run : Run} {i : Nat} {task : Task} {wk : Work}
    (hrun : t.run = some run) (htask : run.tasks[i]? = some task)
    (hphase : task.phase = .work wk .manifest) (nowMs : Int) :
    ∃ u, sysStep env t (.task i (.putManifest true nowMs)) = some u ∧
      u.archive = applyWrites t.archive [.manifest (taskKey env run.opts task.window)
        ((Work.manifest run.opts task.window wk nowMs).toJsonBytes env.serde)] := by
  simp only [sysStep, hrun, htask, hphase, taskStep, if_true, Option.map_some, Option.some.injEq,
    exists_eq_left']

/-- In a drain that shards its paging by a listing of two streams or more, a manifest
is written whose objects hold every event that was visible in the window as its paging
started, exactly where all of these belong to listed streams. -/
theorem sharded_manifest_complete (env : Env) (opts : DrainOptions) (pre : Preamble)
    (names : List String) (s s₁ t u : Sys) (run : Run) (i : Nat) (task : Task) (wk : Work)
    (nowMs : Int) (hshard : 2 ≤ opts.shardStreams) (hnames : pre.streams = some names)
    (hmany : 2 ≤ names.length) (hstart : sysStep env s (.start .drain opts pre) = some s₁)
    (hreach : LTS.Reaches (sysStep env) (InRun PageAnswers Grows) s₁ t)
    (hrun : t.run = some run) (htask : run.tasks[i]? = some task)
    (hphase : task.phase = .work wk .manifest)
    (hwrite : sysStep env t (.task i (.putManifest true nowMs)) = some u) :
    ∃ bytes m, u.archive.manifests (taskKey env opts task.window) = some bytes ∧
      Manifest.fromJsonBytes env.serde bytes = .ok m ∧
      ((∀ ev ∈ wk.visible, Archived env.lib u.archive m ev.toRecord) ↔
        ∀ ev ∈ wk.visible, ev.logStreamName ∈ names) := by
  obtain ⟨run₀, hok, job, hstaged⟩ := start_under_way
    (P := fun run₀ a _ w st => DrainStage env run₀.opts run₀.shards a w st) hstart hreach hrun
    (fun run₀ hok => by
      obtain ⟨hkind, hopts, -, ⟨lo, hi, htiles⟩, -⟩ := startRun_spec hok
      rw [← hopts] at htiles
      exact drain_invariant hkind htiles.grid)
    fun _ _ _ _ => ⟨trivial, trivial⟩
  obtain ⟨-, rfl, hshards, -⟩ := startRun_spec hok
  have hstage := hstaged.holds _ (mem_stages_of_task htask)
  rw [hphase] at hstage
  obtain ⟨hlisted, hall, honly⟩ := hstage.manifest
  obtain ⟨⟨naming, -, -⟩, hprior, -⟩ := hstage
  -- the write itself: the manifest of the listed objects, at the window's key
  have hu : u.archive = applyWrites t.archive [.manifest (taskKey env run₀.opts task.window)
      ((Work.manifest run₀.opts task.window wk nowMs).toJsonBytes env.serde)] := by
    obtain ⟨u', hu', harchive⟩ := putManifest_step hrun htask hphase nowMs
    rw [hwrite] at hu'
    cases hu'
    rw [harchive, job.opts]
  obtain ⟨hread, -⟩ := manifest_written _ run₀.opts task.window wk nowMs
    fun m hm => by rw [hprior] at hm; cases hm
  have hobjects : (Work.manifest run₀.opts task.window wk nowMs).objects = wk.ww.objects := by
    simp only [Work.manifest, hprior]
  have harchived : ∀ ev : CwEvent, Archived env.lib u.archive
      (Work.manifest run₀.opts task.window wk nowMs) ev.toRecord ↔
        ev.toRecord ∈ wk.pushed.map CwEvent.toRecord := by
    intro ev
    rw [archived_iff, hobjects, ← hlisted, hu]
    exact Iff.rfl
  refine ⟨_, _, by rw [hu]; exact applyWrites_manifest _ _ _, hread, ?_⟩
  constructor
  · intro h ev hev
    obtain ⟨ev', hev', heq⟩ := List.mem_map.mp ((harchived ev).mp (h ev hev))
    have hstream : ev'.logStreamName = ev.logStreamName := congrArg LogRecord.stream heq
    rw [← hstream]
    exact (reads_listed hshards hnames).2 hshard hmany (honly ev' hev')
  · intro h ev hev
    exact (harchived ev).mpr (List.mem_map_of_mem
      (hall ev hev ((reads_listed hshards hnames).1 (h ev hev))))

namespace Concrete

/-- An event of this stream on the first day. -/
def dayEvent (stream : String) : CwEvent where
  timestamp := 5
  message := "m"
  logStreamName := stream
  ingestionTime := none
  eventId := none

/-- Paging the first day over two shards, up to the manifest. Before it CloudWatch
holds `seen`; `page` is what the first shard's only page holds. -/
def shardedDay (seen page : List CwEvent) : List SysLabel :=
  [.cloud seen, .spawn, .task 0 (.get true), .task 0 (.page 0 (some ⟨page, none⟩))] ++
    page.map (fun _ => .task 0 .event) ++
    [.task 0 (.page 1 (some ⟨[], none⟩)), .task 0 .endPages] ++
    page.flatMap fun _ => List.replicate 3 (.task 0 (.put (some none)))

/-- The first task is about to write its manifest, and passes a check. -/
def aboutToWrite (check : Run → Task → Work → Bool) (t : Sys) : Bool :=
  match t.run with
  | none => false
  | some run =>
    match run.tasks[0]? with
    | none => false
    | some task =>
      match task.phase with
      | .work wk .manifest => check run task wk
      | _ => false

theorem aboutToWrite_spec {check : Run → Task → Work → Bool} {t : Sys}
    (h : aboutToWrite check t = true) : ∃ run task wk, t.run = some run ∧
      run.tasks[0]? = some task ∧ task.phase = .work wk .manifest ∧ check run task wk = true := by
  unfold aboutToWrite at h
  split at h
  next => cases h
  next run hrun =>
    split at h
    next => cases h
    next task htask =>
      split at h
      next wk hphase => exact ⟨run, task, wk, hrun, htask, hphase, h⟩
      next => cases h

end Concrete

open Concrete in
/-- Two shards of streams that were both listed. -/
theorem sharded_manifest_complete_listed : ∃ (task : Task) (u : Sys) (bytes : Bytes) (m : Manifest),
    u.archive.manifests (taskKey jobEnv (jobOptions 2) task.window) = some bytes ∧
      Manifest.fromJsonBytes manifests bytes = .ok m ∧
      Archived lib u.archive m (dayEvent "a").toRecord := by
  obtain ⟨s₁, t, hs₁, hreach, hcheck⟩ := replays_spec (by decide +kernel :
    replays jobEnv PageAnswers Grows (system [] [])
      (.start .drain (jobOptions 2) (preamble ["a", "b"]))
      (shardedDay [dayEvent "a"] [dayEvent "a"])
      (aboutToWrite fun _ _ wk => wk.visible == [dayEvent "a"]) = true)
  obtain ⟨run, task, wk, hrun, htask, hphase, hvisible⟩ := aboutToWrite_spec hcheck
  obtain ⟨u, hu, -⟩ := putManifest_step hrun htask hphase 1
  obtain ⟨bytes, m, hbytes, hm, hiff⟩ := sharded_manifest_complete jobEnv (jobOptions 2)
    (preamble ["a", "b"]) ["a", "b"] (system [] []) s₁ t u run 0 task wk 1 (by decide) rfl
    (by decide) hs₁ hreach hrun htask hphase hu
  rw [eq_of_beq hvisible] at hiff
  exact ⟨task, u, bytes, m, hbytes, hm, hiff.mpr (by decide) _ (List.mem_singleton_self _)⟩

open Concrete in
/-- The listing names two streams; a third is created after it, with an event. The
window's manifest lists nothing. -/
theorem sharded_drain_misses_late_stream :
    ¬ ∀ (env : Env) (opts : DrainOptions) (pre : Preamble) (names : List String)
      (s s₁ t u : Sys) (run : Run) (i : Nat) (task : Task) (wk : Work) (nowMs : Int),
      2 ≤ opts.shardStreams → pre.streams = some names → 2 ≤ names.length →
      sysStep env s (.start .drain opts pre) = some s₁ →
      LTS.Reaches (sysStep env) (InRun PageAnswers Grows) s₁ t →
      t.run = some run → run.tasks[i]? = some task → task.phase = .work wk .manifest →
      sysStep env t (.task i (.putManifest true nowMs)) = some u →
      ∃ bytes m, u.archive.manifests (taskKey env opts task.window) = some bytes ∧
        Manifest.fromJsonBytes env.serde bytes = .ok m ∧
        ∀ ev ∈ wk.visible, Archived env.lib u.archive m ev.toRecord := by
  intro h
  obtain ⟨s₁, t, hs₁, hreach, hcheck⟩ := replays_spec (by decide +kernel :
    replays jobEnv PageAnswers Grows (system [] [])
      (.start .drain (jobOptions 2) (preamble ["a", "b"])) (shardedDay [dayEvent "c"] [])
      (aboutToWrite fun run _ wk => run.opts == jobOptions 2 && wk.visible == [dayEvent "c"] &&
        wk.prior == none && wk.ww.objects == []) = true)
  obtain ⟨run, task, wk, hrun, htask, hphase, hcheck⟩ := aboutToWrite_spec hcheck
  simp only [Bool.and_eq_true, beq_iff_eq] at hcheck
  obtain ⟨⟨⟨hopts, hvisible⟩, hprior⟩, hobjects⟩ := hcheck
  obtain ⟨u, hu, harchive⟩ := putManifest_step hrun htask hphase 1
  obtain ⟨bytes, m, hbytes, hm, hall⟩ := h jobEnv (jobOptions 2) (preamble ["a", "b"]) ["a", "b"]
    (system [] []) s₁ t u run 0 task wk 1 (by decide) rfl (by decide) hs₁ hreach hrun htask
    hphase hu
  rw [harchive, hopts, applyWrites_manifest] at hbytes
  obtain rfl := Option.some.inj hbytes
  rw [(manifest_written _ _ _ wk 1 fun m hm => by rw [hprior] at hm; cases hm).1] at hm
  obtain rfl := Except.ok.inj hm
  obtain ⟨o, ho, -⟩ := hall (dayEvent "c") (hvisible ▸ List.mem_singleton_self _)
  simp only [Work.manifest, hprior, hobjects, List.not_mem_nil] at ho

end S4Logs

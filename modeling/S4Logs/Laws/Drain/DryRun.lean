import S4Logs.Drain.Report
import S4Logs.Lib.Erasure
import S4Logs.Drain.Concrete
import S4Logs.Laws.Drain.Quiet
import S4Logs.Laws.Drain.DryStep
import S4Logs.Laws.Drain.Slots

/-!
# A dry run predicts the real run

A manifest key belongs to one window, so what a run writes for one window never changes what
it looks up for another. What it reads for one window it may have written for another: a
manifest can list an object of another window. Where none does, both runs read what the stores
held before, and the dry run is the real one without its PUTs (`dry_erases`).
-/

namespace S4Logs

variable {env : Env} {opts : DrainOptions} {shards : Option (List (List String))} {w : Window}
variable {a a₀ : Archive} {events : List CwEvent}

/-! ## What a window reads -/

/-- A key under which the window can store an object or a sidecar. -/
def WindowKey (env : Env) (opts : DrainOptions) (w : Window) (key : String) : Prop :=
  ∃ naming seq, key ∈
    (objectLocation opts.account opts.logGroup w naming seq).keys env.store.keyPrefix

/-- The manifest of the window lists this key. -/
def Lists (env : Env) (opts : DrainOptions) (a : Archive) (w : Window) (key : String) : Prop :=
  ∃ m, ManifestAt env opts a w (some m) ∧ ∃ o ∈ m.objects, o.dataKey = key

/-- No manifest of these windows lists what another of the windows can store. -/
def ListsApart (env : Env) (opts : DrainOptions) (a : Archive) (wins : List Window) : Prop :=
  ∀ w ∈ wins, ∀ w' ∈ wins, w' ≠ w → ∀ key, Lists env opts a w key → ¬ WindowKey env opts w' key

/-- Manifests that list objects of their own windows, as the jobs write them, are apart. -/
theorem ListsApart.of_own {windowMs : Int} {wins : List Window}
    (hgrid : ∀ w ∈ wins, GridWindow windowMs w)
    (own : ∀ w ∈ wins, ∀ key, Lists env opts a w key → ∃ naming seq,
      key = ownKey env opts w naming seq) : ListsApart env opts a wins := by
  rintro w hw w' hw' hne key hlists ⟨naming', seq', hkey⟩
  obtain ⟨naming, seq, rfl⟩ := own w hw key hlists
  have hsidecar := dataKey_ne_sidecar (objectLocation opts.account opts.logGroup w naming seq)
    (objectLocation opts.account opts.logGroup w' naming' seq') env.store.keyPrefix
  simp only [ChunkLocation.keys, List.mem_cons, List.not_mem_nil, or_false] at hkey
  rcases hkey with hkey | hkey | hkey
  · have hstart := (objectKey_injective (hgrid w hw).2.1 (hgrid w' hw').2.1 hkey).1
    exact hne ((hgrid w' hw').ext (hgrid w hw) hstart.symm)
  · exact hsidecar.1 hkey
  · exact hsidecar.2 hkey

variable {kind : JobKind}

/-- What the window reads is as it was before the run. -/
structure ReadsOld (env : Env) (opts : DrainOptions) (kind : JobKind) (a₀ a : Archive)
    (w : Window) : Prop where
  manifest : a.manifests (taskKey env opts w) = a₀.manifests (taskKey env opts w)
  objects : kind = .reconcile → ∀ key, Lists env opts a₀ w key → a.objects key = a₀.objects key

/-- A window that has something to read reads what was there before the run. -/
def ReadStage (env : Env) (opts : DrainOptions) (kind : JobKind) (a₀ a : Archive) (w : Window) :
    Stage → Prop
  | .queued => ReadsOld env opts kind a₀ a w
  | .active .look => ReadsOld env opts kind a₀ a w ∧ kind = .reconcile
  | .active .lookup => ReadsOld env opts kind a₀ a w
  | .active (.read _ rest _) => ReadsOld env opts kind a₀ a w ∧ kind = .reconcile ∧
    ∀ o ∈ rest, Lists env opts a₀ w o.dataKey
  | _ => True

theorem readNext_readStage {m : Manifest} {rest : List ManifestObject} {seen : List Nat}
    (h : ReadsOld env opts kind a₀ a w) (hkind : kind = .reconcile)
    (hlists : ∀ o ∈ rest, Lists env opts a₀ w o.dataKey) :
    ReadStage env opts kind a₀ a w (.active (readNext opts shards w m rest seen events)) := by
  rcases readNext_spec (w := w) m rest seen with heq | ⟨e, heq⟩ | ⟨attempt, -, -, -, heq⟩
  · rw [heq]
    exact ⟨h, hkind, hlists⟩
  · rw [heq]
    trivial
  · rw [heq]
    trivial

theorem ReadStage.move {guard : Phase → TaskLabel → Prop} {st st' : Stage}
    {writes : List StoreWrite} (hw : 0 ≤ w.startMs)
    (move : StageMove env guard kind opts shards w a events st st' writes)
    (hkept : StageKept env opts a w st) (h : ReadStage env opts kind a₀ a w st) :
    ReadStage env opts kind a₀ (applyWrites a writes) w st' := by
  cases move with
  | spawn =>
    cases kind with
    | drain => exact h
    | reconcile => exact ⟨h, rfl⟩
  | close => trivial
  | @task p p' l _ hguard hstep =>
    have hmove := taskStep_move hstep
    cases p with
    | look =>
      obtain ⟨hold, hkind⟩ := h
      cases hmove with
      | fail => trivial
      | absent => exact hold
      | @found bytes m hbytes hm =>
        refine readNext_readStage hold hkind fun o ho => ?_
        exact ⟨m, ⟨bytes, hold.manifest.symm.trans hbytes, hm⟩, o, ho, rfl⟩
    | lookup =>
      cases hmove with
      | fail => trivial
      | skip => trivial
      | begin => trivial
    | read m rest seen =>
      obtain ⟨hold, hkind, hlists⟩ := h
      cases hmove with
      | fail => trivial
      | readObject =>
        exact readNext_readStage hold hkind fun o ho => hlists o (List.mem_cons_of_mem _ ho)
    | work wk at_ =>
      -- a window that pages never goes back to reading
      obtain ⟨naming, hfor, hkept⟩ := hkept
      obtain ⟨-, ⟨hsettled, -⟩ | ⟨nowMs, -, rfl, -⟩⟩ := work_step hw hfor.fits hmove hkept
      · cases p' with
        | look => exact absurd hsettled not_false
        | lookup => exact absurd hsettled not_false
        | read m rest seen => exact absurd hsettled not_false
        | _ => trivial
      · trivial
    | done out =>
      cases hmove
      trivial
    | failed e =>
      cases hmove
      trivial

theorem putRequest_key_mem (env : Env) (loc : ChunkLocation) (chunk : EncodedChunk)
    (stage : PutStage) :
    (putRequest env.lib env.store loc chunk stage).1 ∈ loc.keys env.store.keyPrefix := by
  cases stage with
  | data => exact List.mem_cons_self
  | index etag => exact List.mem_cons_of_mem _ List.mem_cons_self
  | tsIndex etag => exact List.mem_cons_of_mem _ (List.mem_cons_of_mem _ List.mem_cons_self)

/-- A window stores objects and sidecars of its own. -/
theorem StageMove.windowKey {guard : Phase → TaskLabel → Prop} {st st' : Stage}
    {writes : List StoreWrite} (h : StageKept env opts a w st)
    (move : StageMove env guard kind opts shards w a events st st' writes) :
    ∀ key body, StoreWrite.object key body ∈ writes → WindowKey env opts w key := by
  intro key body hmem
  cases move with
  | spawn => exact absurd hmem List.not_mem_nil
  | close => exact absurd hmem List.not_mem_nil
  | @task p p' l _ hguard hstep =>
    have put : ∀ {wk chunk stage last etag}, StageKept env opts a w
        (.active (.work wk (.put chunk stage last))) →
        StoreWrite.object key body ∈ [StoreWrite.object
          (putRequest env.lib env.store (wk.ww.location opts) chunk stage).1 etag] →
        WindowKey env opts w key := by
      intro wk chunk stage last etag hkept hmem
      obtain ⟨naming, -, -, -, hk, -⟩ := hkept
      rw [(StoreWrite.object.inj (List.mem_singleton.mp hmem)).1, hk.location]
      exact ⟨naming, _, putRequest_key_mem env _ chunk stage⟩
    cases taskStep_move hstep with
    | putNext => exact put h hmem
    | putDone => exact put h hmem
    | putManifest => cases List.mem_singleton.mp hmem
    | _ => exact absurd hmem List.not_mem_nil

theorem ReadsOld.frame {writes : List StoreWrite} {w' : Window}
    (hmanifest : (applyWrites a writes).manifests (taskKey env opts w') =
      a.manifests (taskKey env opts w'))
    (hobjects : kind = .reconcile → ∀ key, Lists env opts a₀ w' key →
      (applyWrites a writes).objects key = a.objects key)
    (h : ReadsOld env opts kind a₀ a w') :
    ReadsOld env opts kind a₀ (applyWrites a writes) w' where
  manifest := hmanifest.trans h.manifest
  objects hkind key hkey := (hobjects hkind key hkey).trans (h.objects hkind key hkey)

/-- What a window reads stays as it was before the run. -/
theorem read_invariant {run : Run} (hgrid : ∀ w ∈ run.wins, GridWindow run.opts.windowMs w)
    (apart : run.kind = .reconcile → ListsApart env run.opts a₀ run.wins) :
    RunInvariant env (fun _ _ _ _ => True) (fun _ _ => True) run fun a _ w st =>
      StageKept env run.opts a w st ∧ ReadStage env run.opts run.kind a₀ a w st where
  own hw move h := by
    have hstart := (hgrid _ hw).2.1
    exact ⟨(move.kept hstart h.1).1, h.2.move hstart move h.1⟩
  others := by
    intro a events w w' st st' st'' writes hw hw' hne move h h'
    have hs := (hgrid _ hw).nonneg
    have hs' := (hgrid _ hw').nonneg
    have own := (move.kept hs.1 h.1).2
    refine ⟨h'.1.frame hs.1 hs'.1 hne own, ?_⟩
    have frame : ReadsOld env run.opts run.kind a₀ a w' →
        ReadsOld env run.opts run.kind a₀ (applyWrites a writes) w' := by
      refine .frame (ownWrites_manifests hs hs' hne own) fun hkind key hkey => ?_
      refine applyWrites_objects fun write hwrite body heq => ?_
      subst heq
      exact apart hkind w' hw' w hw (fun heq => hne (congrArg Window.startMs heq.symm)) key hkey
        (move.windowKey h.1 key body hwrite)
    cases st'' with
    | queued => exact frame h'.2
    | closed out => trivial
    | active p =>
      cases p with
      | look => exact ⟨frame h'.2.1, h'.2.2⟩
      | lookup => exact frame h'.2
      | read m rest seen => exact ⟨frame h'.2.1, h'.2.2⟩
      | _ => trivial
  cloud _ h := h

/-! ## The two runs -/

theorem within_inRun {s : Sys} {l : SysLabel} (h : l.Within) :
    InRun (fun _ _ _ _ => True) (fun _ _ => True) s l := by
  cases l with
  | start kind opts pre => exact absurd h not_false
  | task i l => exact ⟨fun _ _ _ _ => trivial, trivial⟩
  | _ => exact ⟨trivial, trivial⟩

/-- A run of the job that is under way, whose windows read what was there before. -/
def RealRun (env : Env) (a₀ : Archive) (run : Run) (s : Sys) : Prop :=
  RunHolds run (fun a _ w st => StageKept env run.opts a w st ∧
    ReadStage env run.opts run.kind a₀ a w st) s

variable {run : Run}

theorem RealRun.dryRun {s : Sys} (real : run.opts.dryRun = false) (h : RealRun env a₀ run s) :
    ∀ run', s.run = some run' → run'.opts.dryRun = false := by
  intro run' hrun
  simp only [RealRun, RunHolds, hrun] at h
  rw [h.1.opts]
  exact real

theorem RealRun.sameRead {s : Sys} (h : RealRun env a₀ run s) {run' : Run} {i : Nat} {t : Task}
    (hrun : s.run = some run') (ht : run'.tasks[i]? = some t) :
    SameRead env run'.opts t.window s.archive a₀ t.phase := by
  simp only [RealRun, RunHolds, hrun] at h
  obtain ⟨job, -, hstaged⟩ := h
  have hread := (hstaged.holds _ (mem_stages_of_task ht)).2
  rw [job.opts]
  obtain ⟨w, p⟩ := t
  cases p with
  | look => exact hread.1.manifest.symm
  | lookup => exact hread.manifest.symm
  | read m rest seen =>
    cases rest with
    | nil => trivial
    | cons obj rest =>
      obtain ⟨hold, hkind, hlists⟩ := hread
      exact (hold.objects hkind _ (hlists obj List.mem_cons_self)).symm
  | _ => trivial

theorem RealRun.exec {s t : Sys} (hgrid : ∀ w ∈ run.wins, GridWindow run.opts.windowMs w)
    (apart : run.kind = .reconcile → ListsApart env run.opts a₀ run.wins) {ls : List SysLabel}
    (h : RealRun env a₀ run s) (within : ∀ l ∈ ls, l.Within)
    (hexec : LTS.exec (sysStep env) s ls = some t) : RealRun env a₀ run t := by
  induction ls generalizing s with
  | nil =>
    cases hexec
    exact h
  | cons l ls ih =>
    obtain ⟨mid, hmid, hrest⟩ := Option.bind_eq_some_iff.mp hexec
    have hstep := (read_invariant hgrid apart).step (within_inRun (within l List.mem_cons_self))
      hmid h
    exact ih hstep (fun l' hl' => within l' (List.mem_cons_of_mem _ hl')) hrest

theorem puts_exec {ls : List SysLabel} {s t : Sys} (hputs : ∀ l ∈ ls, l.isPut = true ∧ l.Stores)
    (hexec : LTS.exec (sysStep env) s ls = some t) : t.dry a₀ = s.dry a₀ := by
  induction ls generalizing s with
  | nil =>
    cases hexec
    rfl
  | cons l ls ih =>
    obtain ⟨mid, hmid, hrest⟩ := Option.bind_eq_some_iff.mp hexec
    obtain ⟨hput, hstores⟩ := hputs l List.mem_cons_self
    rw [ih (fun l' hl' => hputs l' (List.mem_cons_of_mem _ hl')) hrest]
    exact sysStep_stored hput hstores hmid

/-- A label of a window answers a PUT just where the window waits for one. -/
theorem sysStep_task {s t : Sys} {i : Nat} {l : TaskLabel} {run : Run} {task : Task}
    (hrun : s.run = some run) (ht : run.tasks[i]? = some task)
    (hstep : sysStep env s (.task i l) = some t) : l.isPut = task.phase.storing := by
  simp only [sysStep, hrun, ht] at hstep
  obtain ⟨r, hr, -⟩ := Option.map_eq_some_iff.mp hstep
  exact isPut_eq_storing hr

/-- A window that is absorbed waits for nothing. -/
theorem sysStep_absorb {s t : Sys} {i : Nat} {run : Run} {task : Task} (hrun : s.run = some run)
    (ht : run.tasks[i]? = some task) (hstep : sysStep env s (.absorb i) = some t) :
    task.phase.storing = false := by
  simp only [sysStep, hrun, ht] at hstep
  cases hphase : task.phase with
  | work wk at_ => simp only [hphase, reduceCtorEq] at hstep
  | _ => rfl

/-- The window that a label is about waits for no PUT. -/
def Unstoring (s : Sys) (l : SysLabel) : Prop :=
  ∀ i, (∃ l', l = .task i l') ∨ l = .absorb i → ∀ run t, s.run = some run →
    run.tasks[i]? = some t → t.phase.storing = false

/-- Before any label the window it is about can get its PUTs answered. -/
theorem settle_before (env : Env) (s : Sys) (l : SysLabel) : ∃ ls s', (∀ l' ∈ ls, l'.isPut = true ∧ l'.Stores ∧
    l'.Within) ∧ LTS.exec (sysStep env) s ls = some s' ∧ Unstoring s' l := by
  have at_task : ∀ i : Nat, ∃ ls s', (∀ l' ∈ ls, l'.isPut = true ∧ l'.Stores ∧ l'.Within) ∧
      LTS.exec (sysStep env) s ls = some s' ∧ ∀ (run : Run) (t : Task), s'.run = some run →
      run.tasks[i]? = some t → t.phase.storing = false := by
    intro i
    cases hrun : s.run with
    | none =>
      refine ⟨[], s, fun _ h => absurd h List.not_mem_nil, rfl, fun run t hsome => ?_⟩
      rw [hrun] at hsome
      cases hsome
    | some run =>
      cases ht : run.tasks[i]? with
      | none =>
        refine ⟨[], s, fun _ h => absurd h List.not_mem_nil, rfl, fun run' t hsome hget => ?_⟩
        rw [hrun] at hsome
        cases hsome
        rw [ht] at hget
        cases hget
      | some t =>
        obtain ⟨ls, s', hls, hexec, run', t', hrun', ht', hstoring⟩ :=
          settle env _ hrun ht (Nat.le_refl _)
        refine ⟨ls, s', hls, hexec, fun run'' t'' hsome hget => ?_⟩
        rw [hrun'] at hsome
        cases hsome
        rw [ht'] at hget
        cases hget
        exact hstoring
  have nothing : (∀ i, ¬ ((∃ l', l = .task i l') ∨ l = .absorb i)) → ∃ ls s',
      (∀ l' ∈ ls, l'.isPut = true ∧ l'.Stores ∧ l'.Within) ∧
      LTS.exec (sysStep env) s ls = some s' ∧ Unstoring s' l := fun h =>
    ⟨[], s, fun _ h => absurd h List.not_mem_nil, rfl, fun i hi => absurd hi (h i)⟩
  cases l with
  | task i l =>
    obtain ⟨ls, s', hls, hexec, hstoring⟩ := at_task i
    refine ⟨ls, s', hls, hexec, fun j hj => ?_⟩
    rcases hj with ⟨l', heq⟩ | heq
    · cases heq
      exact hstoring
    · cases heq
  | absorb i =>
    obtain ⟨ls, s', hls, hexec, hstoring⟩ := at_task i
    refine ⟨ls, s', hls, hexec, fun j hj => ?_⟩
    rcases hj with ⟨l', heq⟩ | heq
    · cases heq
    · cases heq
      exact hstoring
  | _ => exact nothing fun i hi => hi.elim (fun ⟨_, h⟩ => nomatch h) (fun h => nomatch h)

/-- The dry run is what is left of the real run without its PUTs. -/
theorem dry_erases (real : run.opts.dryRun = false)
    (hgrid : ∀ w ∈ run.wins, GridWindow run.opts.windowMs w)
    (apart : run.kind = .reconcile → ListsApart env run.opts a₀ run.wins) :
    LTS.Erases (sysStep env) (sysStep env) SysLabel.isPut (fun l => l.Within ∧ l.Stores)
      SysLabel.Within (RealRun env a₀ run) (Sys.dry a₀) where
  keep hs hok hstep := (read_invariant hgrid apart).step (within_inRun hok.1) hstep hs
  stutter _ hok hput hstep := sysStep_stored hput hok.2 hstep
  forth := by
    intro s t l hs hok hput hstep
    have hdry := sysStep_dry env a₀ hok.1 (hs.dryRun real)
      fun i hi run' task hrun ht => ?_
    · rw [hdry, hstep]
      rfl
    · refine ⟨hs.sameRead hrun ht, ?_⟩
      rcases hi with ⟨l', rfl⟩ | rfl
      · exact (sysStep_task hrun ht hstep).symm.trans hput
      · exact sysStep_absorb hrun ht hstep
  back := by
    intro s u l hs hshown hstep
    obtain ⟨ls, s', hls, hexec, hunstoring⟩ := settle_before env s l
    have hs' := hs.exec hgrid apart (fun l' hl' => (hls l' hl').2.2) hexec
    have hsame : s'.dry a₀ = s.dry a₀ :=
      puts_exec (fun l' hl' => ⟨(hls l' hl').1, (hls l' hl').2.1⟩) hexec
    have hdry := sysStep_dry env a₀ hshown (hs'.dryRun real)
      fun i hi run' task hrun ht => ⟨hs'.sameRead hrun ht, hunstoring i hi run' task hrun ht⟩
    rw [hsame, hstep] at hdry
    obtain ⟨t, ht, htu⟩ := Option.map_eq_some_iff.mp hdry.symm
    have hput : l.isPut = false := by
      cases l with
      | task i l =>
        cases hrun : s'.run with
        | none => simp only [sysStep, hrun, reduceCtorEq] at ht
        | some run' =>
          cases hget : run'.tasks[i]? with
          | none => simp only [sysStep, hrun, hget, reduceCtorEq] at ht
          | some task =>
            exact (sysStep_task hrun hget ht).trans
              (hunstoring i (.inl ⟨l, rfl⟩) run' task hrun hget)
      | _ => rfl
    refine ⟨hput, ⟨hshown, SysLabel.stores_of_not_isPut hput⟩, ls, t,
      fun l' hl' => ⟨(hls l' hl').1, (hls l' hl').2.2, (hls l' hl').2.1⟩, ?_, htu⟩
    exact LTS.exec_append hexec (by rw [LTS.exec, ht]; rfl)

/-! ## What a dry run leaves alone -/

theorem StageKept.not_storing {p : Phase} (dry : opts.dryRun = true)
    (h : StageKept env opts a w (.active p)) : p.storing = false := by
  have hreal : opts.dryRun ≠ false := by
    rw [dry]
    exact Bool.noConfusion
  cases p with
  | work wk at_ =>
    obtain ⟨naming, -, hkept⟩ := h
    cases at_ with
    | pages => rfl
    | put chunk stage last => exact absurd hkept.1 hreal
    | manifest => exact absurd hkept.1 hreal
  | _ => rfl

/-- A run that starts, or one that has ended at once. -/
theorem start_run {kind : JobKind} {pre : Preamble} {s s₁ : Sys}
    {P : Run → Archive → List CwEvent → Window → Stage → Prop}
    (h : sysStep env s (.start kind opts pre) = some s₁)
    (queued : ∀ run w, P run s.archive s.events w .queued) : ∃ run : Run, run.kind = kind ∧
      run.opts = opts ∧ run.wins = runWindows kind opts pre ∧
      (∀ w ∈ run.wins, GridWindow run.opts.windowMs w) ∧ RunHolds run (P run) s₁ := by
  obtain ⟨-, harchive, hevents, ⟨e, herror, hnone, hlast⟩ | ⟨run, hok, hsome, hlast⟩⟩ :=
    sysStep_start h
  · refine ⟨{ kind, opts, shards := none, wins := [], queue := [], tasks := [], outcomes := [] },
      rfl, rfl, ?_, fun w hw => absurd hw List.not_mem_nil, ?_⟩
    · simp only [runWindows, herror]
    · simp only [RunHolds, hnone, hlast]
      intro outs houts
      cases houts
  · obtain ⟨hkind, hopts, -, ⟨lo, hi, htiles⟩, -⟩ := startRun_spec hok
    refine ⟨run, hkind, hopts, ?_, hopts ▸ htiles.grid, ?_⟩
    · simp only [runWindows, hok]
    · simp only [RunHolds, hsome]
      refine ⟨.refl run, hlast, startRun_staged hok fun w _ => ?_⟩
      rw [harchive, hevents]
      exact queued run w

/-- A step of a dry run answers no PUT. -/
theorem QuietRun.not_isPut {run : Run} {s t : Sys} {l : SysLabel} (dry : run.opts.dryRun = true)
    (h : QuietRun a₀ run (StageKept env run.opts a₀) s) (hstep : sysStep env s l = some t) :
    l.isPut = false := by
  cases l with
  | task i l =>
    cases hrun : s.run with
    | none => simp only [sysStep, hrun, reduceCtorEq] at hstep
    | some run' =>
      cases ht : run'.tasks[i]? with
      | none => simp only [sysStep, hrun, ht, reduceCtorEq] at hstep
      | some task =>
        have hkept := (h.underWay run' hrun).2.2.holds _ (mem_stages_of_task ht)
        exact (sysStep_task hrun ht hstep).trans (hkept.not_storing dry)
  | _ => rfl

/-- A dry run answers no PUT and leaves the stores as they were. -/
theorem dry_leaves {kind : JobKind} {pre : Preamble} (dry : opts.dryRun = true) {s t : Sys}
    {ls : List SysLabel} (within : ∀ l ∈ ls, l.Within)
    (hexec : LTS.exec (sysStep env) s (.start kind opts pre :: ls) = some t) :
    t.archive = s.archive ∧ ∀ l ∈ ls, l.isPut = false := by
  obtain ⟨s₁, hstart, hrest⟩ := Option.bind_eq_some_iff.mp hexec
  obtain ⟨run, -, hopts, -, hgrid, hholds⟩ := start_run hstart
    (P := fun run _ _ w st => StageKept env run.opts s.archive w st) fun _ _ => trivial
  have hquiet : Quiet env s.archive run (StageKept env run.opts s.archive) :=
    dry_quiet (hopts ▸ dry) hgrid s.archive
  have hrun : QuietRun s.archive run (StageKept env run.opts s.archive) s₁ := by
    refine ⟨(sysStep_start hstart).2.1, fun run' hsome => ?_, fun outs hok => ?_⟩
    · simp only [RunHolds, hsome] at hholds
      exact hholds
    · obtain ⟨-, -, -, ⟨e, -, -, hlast⟩ | ⟨run', -, -, hlast⟩⟩ := sysStep_start hstart
      · rw [hlast] at hok
        cases hok
      · rw [hlast] at hok
        cases hok
  clear hexec hstart hholds
  induction ls generalizing s₁ with
  | nil =>
    cases hrest
    exact ⟨hrun.archive, fun l hl => absurd hl List.not_mem_nil⟩
  | cons l ls ih =>
    obtain ⟨mid, hmid, hrest⟩ := Option.bind_eq_some_iff.mp hrest
    have hnext := hquiet.step (within_inRun (within l List.mem_cons_self)) hmid hrun
    obtain ⟨harchive, hputs⟩ :=
      ih (fun l' hl' => within l' (List.mem_cons_of_mem _ hl')) mid hrest hnext
    refine ⟨harchive, fun l' hl' => ?_⟩
    rcases List.mem_cons.mp hl' with rfl | hl'
    · exact hrun.not_isPut (hopts ▸ dry) hmid
    · exact hputs l' hl'

/-! ## A run that returns well -/

/-- A window of the run has failed, so the run does not return well any more. -/
structure Doomed (s : Sys) : Prop where
  last : ∀ outs, s.last ≠ some (.ok outs)
  task : ∀ run, s.run = some run → ∃ (i : Nat) (t : Task) (e : ReconcileError),
    run.tasks[i]? = some t ∧ t.phase = .failed e

theorem Doomed.ended {s : Sys} (hlast : ∀ outs, s.last ≠ some (.ok outs)) (hrun : s.run = none) :
    Doomed s where
  last := hlast
  task run hsome := by
    rw [hrun] at hsome
    cases hsome

theorem Doomed.step {s t : Sys} {l : SysLabel} (h : Doomed s) (within : l.Within)
    (hstep : sysStep env s l = some t) : Doomed t := by
  cases hrun : s.run with
  | none =>
    cases sysStep_idle hrun hstep with
    | cloud => exact ⟨h.last, h.task⟩
    | rejected => exact absurd within not_false
    | started => exact absurd within not_false
    | kill => exact .ended (fun _ h => by cases h) rfl
  | some run =>
    obtain ⟨i, failed, e, hi, hfailed⟩ := h.task run hrun
    have hilt := (List.getElem?_eq_some_iff.mp hi).1
    cases l with
    | cloud events =>
      cases hstep
      exact ⟨h.last, h.task⟩
    | kill =>
      cases hstep
      exact .ended (fun _ h => by cases h) rfl
    | start kind opts pre => exact absurd within not_false
    | spawn =>
      simp only [sysStep, hrun] at hstep
      split at hstep
      next => cases hstep
      next w queue hqueue =>
        split at hstep
        next =>
          cases hstep
          refine ⟨h.last, fun run' hrun' => ?_⟩
          cases hrun'
          exact ⟨i, failed, e, (List.getElem?_append_left hilt).trans hi, hfailed⟩
        next => cases hstep
    | task j l =>
      cases hj : run.tasks[j]? with
      | none => simp only [sysStep, hrun, hj, reduceCtorEq] at hstep
      | some task =>
        simp only [sysStep, hrun, hj] at hstep
        obtain ⟨r, hr, rfl⟩ := Option.map_eq_some_iff.mp hstep
        have hne : j ≠ i := by
          rintro rfl
          obtain rfl := Option.some.inj (hi.symm.trans hj)
          rw [hfailed] at hr
          cases hr
        refine ⟨h.last, fun run' hrun' => ?_⟩
        cases hrun'
        exact ⟨i, failed, e, (List.getElem?_set_ne hne).trans hi, hfailed⟩
    | absorb j =>
      cases hj : run.tasks[j]? with
      | none => simp only [sysStep, hrun, hj, reduceCtorEq] at hstep
      | some task =>
        simp only [sysStep, hrun, hj] at hstep
        cases hphase : task.phase with
        | done out =>
          simp only [hphase, Option.some.injEq] at hstep
          subst hstep
          refine ⟨h.last, fun run' hrun' => ?_⟩
          cases hrun'
          -- the failed window is another one
          have hmem := (perm_cons_of_getElem? hj).mem_iff.mp (List.mem_of_getElem? hi)
          rcases List.mem_cons.mp hmem with rfl | hmem
          · rw [hfailed] at hphase
            cases hphase
          · obtain ⟨k, hk⟩ := List.getElem?_of_mem hmem
            exact ⟨k, failed, e, hk, hfailed⟩
        | failed e =>
          simp only [hphase, Option.some.injEq] at hstep
          subst hstep
          exact .ended (fun _ h => by cases h) rfl
        | _ => simp only [hphase, reduceCtorEq] at hstep
    | finish =>
      simp only [sysStep, hrun] at hstep
      split at hstep
      next hend =>
        rw [hend.2] at hi
        cases hi
      next => cases hstep

/-- A PUT that fails fails its window. -/
theorem taskStep_refused {p p' : Phase} {l : TaskLabel} {writes : List StoreWrite}
    (hstores : ¬ l.Stores) (h : taskStep env opts shards w a events p l = some (p', writes)) :
    ∃ e, p' = .failed e := by
  cases taskStep_move h with
  | fail => exact ⟨_, rfl⟩
  | _ => exact absurd trivial hstores

/-- A run that returns well has had all its PUTs answered well. -/
theorem returned_stores {s t : Sys} {outs : List (Window × WindowOutcome)}
    (hgrid : ∀ w ∈ run.wins, GridWindow run.opts.windowMs w)
    (apart : run.kind = .reconcile → ListsApart env run.opts a₀ run.wins) {ls : List SysLabel}
    (h : RealRun env a₀ run s) (within : ∀ l ∈ ls, l.Within)
    (hexec : LTS.exec (sysStep env) s ls = some t) (hok : t.last = some (.ok outs)) :
    ∀ l ∈ ls, l.Stores := by
  have doomed : ∀ {ls s}, Doomed s → (∀ l ∈ ls, l.Within) →
      LTS.exec (sysStep env) s ls = some t → Doomed t := by
    intro ls
    induction ls with
    | nil =>
      intro s hs _ hexec
      cases hexec
      exact hs
    | cons l ls ih =>
      intro s hs within hexec
      obtain ⟨mid, hmid, hrest⟩ := Option.bind_eq_some_iff.mp hexec
      exact ih (hs.step (within l List.mem_cons_self) hmid)
        (fun l' hl' => within l' (List.mem_cons_of_mem _ hl')) hrest
  induction ls generalizing s with
  | nil => exact fun l hl => absurd hl List.not_mem_nil
  | cons l ls ih =>
    obtain ⟨mid, hmid, hrest⟩ := Option.bind_eq_some_iff.mp hexec
    have hwithin := within l List.mem_cons_self
    have hmidRun := (read_invariant hgrid apart).step (within_inRun hwithin) hmid h
    have hlater : ∀ l' ∈ ls, l'.Within := fun l' hl' => within l' (List.mem_cons_of_mem _ hl')
    intro l' hl'
    rcases List.mem_cons.mp hl' with rfl | hl'
    · by_contra hstores
      refine (doomed ?_ hlater hrest).last outs hok
      cases l' with
      | task i l =>
        cases hrun : s.run with
        | none => simp only [sysStep, hrun, reduceCtorEq] at hmid
        | some run' =>
          cases ht : run'.tasks[i]? with
          | none => simp only [sysStep, hrun, ht, reduceCtorEq] at hmid
          | some task =>
            simp only [sysStep, hrun, ht] at hmid
            obtain ⟨⟨p', writes⟩, hr, rfl⟩ := Option.map_eq_some_iff.mp hmid
            obtain ⟨e, rfl⟩ := taskStep_refused hstores hr
            have hlast : s.last = none := by
              simp only [RealRun, RunHolds, hrun] at h
              exact h.2.1
            refine ⟨fun outs => ?_, fun run'' hrun'' => ?_⟩
            · rw [show Sys.last _ = s.last from rfl, hlast]
              intro h
              cases h
            · cases hrun''
              refine ⟨i, { task with phase := .failed e }, e, ?_, rfl⟩
              rw [List.getElem?_set_self (List.getElem?_eq_some_iff.mp ht).1]
      | _ => exact absurd trivial hstores
    · exact ih hmidRun hlater hrest l' hl'

/-! ## Reports -/

def DrainReport.dry (report : DrainReport) : DrainReport :=
  { report with dryRun := true, objectsWritten := 0 }

def WindowReconcileOutcome.dry (o : WindowReconcileOutcome) : WindowReconcileOutcome :=
  { o with objectsWritten := 0 }

def ReconcileReport.dry (report : ReconcileReport) : ReconcileReport :=
  { report with
      dryRun := true
      objectsWritten := 0
      windows := report.windows.map .dry }

/-- The report with `dry_run` set and no objects written. -/
def JobReport.dry : JobReport → JobReport
  | .drain report => .drain report.dry
  | .reconcile report => .reconcile report.dry

theorem drainReport_dry (wins : List Window) (outs : List (Window × WindowOutcome)) :
    drainReport opts.dry wins (dryOutcomes outs) = (drainReport opts wins outs).dry := by
  have absorb : ∀ (outs : List (Window × WindowOutcome)) (report : DrainReport),
      ((dryOutcomes outs).map Prod.snd).foldl DrainReport.absorb report.dry =
        ((outs.map Prod.snd).foldl DrainReport.absorb report).dry := by
    intro outs
    induction outs with
    | nil => exact fun _ => rfl
    | cons o outs ih =>
      intro report
      have hone : report.dry.absorb o.2.dry = (report.absorb o.2).dry := by
        unfold DrainReport.absorb
        show (if o.2.skipped then _ else _) = _
        cases o.2.skipped <;> rfl
      show ((dryOutcomes outs).map Prod.snd).foldl DrainReport.absorb
        (report.dry.absorb o.2.dry) = _
      rw [hone]
      exact ih _
  exact absorb outs (.start opts wins)

theorem reconcileReport_dry (wins : List Window) (outs : List (Window × WindowOutcome)) :
    reconcileReport opts.dry wins (dryOutcomes outs) = (reconcileReport opts wins outs).dry := by
  have add : ∀ (outs : List WindowReconcileOutcome) (report : ReconcileReport),
      (outs.map .dry).foldl ReconcileReport.add report.dry =
        (outs.foldl ReconcileReport.add report).dry := by
    intro outs
    induction outs with
    | nil => exact fun _ => rfl
    | cons o outs ih =>
      intro report
      have hone : report.dry.add o.dry = (report.add o).dry := by
        obtain ⟨window, action, cwEvents, already, appended, objectsWritten⟩ := o
        cases action <;> rfl
      show (outs.map WindowReconcileOutcome.dry).foldl ReconcileReport.add
        (report.dry.add o.dry) = _
      rw [hone]
      exact ih _
  have hof : (dryOutcomes outs).map WindowReconcileOutcome.of =
      (outs.map WindowReconcileOutcome.of).map .dry := by
    rw [dryOutcomes, List.map_map, List.map_map]
    rfl
  have hsort : ∀ outs : List WindowReconcileOutcome,
      Sorting.sortBy WindowReconcileOutcome.startMs (outs.map .dry) =
        (Sorting.sortBy WindowReconcileOutcome.startMs outs).map .dry :=
    Sorting.sortBy_map WindowReconcileOutcome.dry
  have hsums := add (Sorting.sortBy WindowReconcileOutcome.startMs (outs.map .of)) (.start opts wins)
  unfold reconcileReport
  rw [hof, hsort]
  dsimp only
  rw [show ReconcileReport.start opts.dry wins = (ReconcileReport.start opts wins).dry from rfl, hsums]
  rfl

theorem jobReport_dry (kind : JobKind) (wins : List Window)
    (outs : List (Window × WindowOutcome)) :
    jobReport kind opts.dry wins (dryOutcomes outs) = (jobReport kind opts wins outs).dry := by
  cases kind with
  | drain => exact congrArg JobReport.drain (drainReport_dry wins outs)
  | reconcile => exact congrArg JobReport.reconcile (reconcileReport_dry wins outs)

theorem runWindows_dry (kind : JobKind) (pre : Preamble) :
    runWindows kind opts.dry pre = runWindows kind opts pre := by
  unfold runWindows
  rw [startRun_dry]
  cases startRun kind opts pre <;> rfl

/-- The dry run has reported what the real run has, but for the objects written. -/
structure Predicts (kind : JobKind) (opts : DrainOptions) (pre : Preamble) (dry real : Sys) :
    Prop where
  reported : dry.reported kind opts.dry pre =
    (real.reported kind opts pre).map fun result => result.map JobReport.dry
  under_way : dry.run.isSome = real.run.isSome

theorem predicts_dry (kind : JobKind) (pre : Preamble) (t : Sys) :
    Predicts kind opts pre (t.dry a₀) t where
  reported := by
    unfold Sys.reported
    rw [runWindows_dry]
    show (t.last.map _).map _ = _
    rcases t.last with - | (e | outs)
    · rfl
    · rfl
    · exact congrArg (some ∘ Except.ok) (jobReport_dry kind _ outs)
  under_way := Option.isSome_map

/-! ## The claim -/

theorem sysStep_start_dry {kind : JobKind} {pre : Preamble} {s : Sys} :
    sysStep env s (.start kind opts.dry pre) =
      (sysStep env s (.start kind opts pre)).map (Sys.dry s.archive) := by
  unfold sysStep
  cases hrun : s.run with
  | some run => rfl
  | none =>
    dsimp only
    rw [startRun_dry]
    cases startRun kind opts pre with
    | error e => simp only [Except.map, Option.map_some, Sys.dry, Option.map_none]
    | ok run => rfl

/-- A dry run answers no PUT and leaves the stores alone. Where no manifest of a window of the
run lists what another of its windows can store, every real run whose PUTs are answered well,
or which returns a report, is predicted by the dry run with the same other answers; and every
dry run predicts such a real run. -/
theorem dry_run_predicts (env : Env) (kind : JobKind) (opts : DrainOptions) (pre : Preamble)
    (s : Sys) (real : opts.dryRun = false) :
    (∀ ls t, (∀ l ∈ ls, l.Within) →
      LTS.exec (sysStep env) s (.start kind opts.dry pre :: ls) = some t →
      t.archive = s.archive ∧ ∀ l ∈ ls, l.isPut = false) ∧
    ((kind = .reconcile → ListsApart env opts s.archive (runWindows kind opts pre)) →
      (∀ ls t, (∀ l ∈ ls, l.Within) →
        ((∀ l ∈ ls, l.Stores) ∨ ∃ outs, t.last = some (.ok outs)) →
        LTS.exec (sysStep env) s (.start kind opts pre :: ls) = some t →
        ∃ t', LTS.exec (sysStep env) s
          (.start kind opts.dry pre :: ls.filter fun l => !l.isPut) = some t' ∧
          Predicts kind opts pre t' t) ∧
      (∀ ls t', (∀ l ∈ ls, l.Within) →
        LTS.exec (sysStep env) s (.start kind opts.dry pre :: ls) = some t' →
        ∃ ls' t, (ls'.filter fun l => !l.isPut) = ls ∧ (∀ l ∈ ls', l.Within ∧ l.Stores) ∧
          LTS.exec (sysStep env) s (.start kind opts pre :: ls') = some t ∧
          Predicts kind opts pre t' t)) := by
  refine ⟨fun ls t within hexec => dry_leaves rfl within hexec, fun apart => ?_⟩
  -- where the real run starts, so does the dry run
  have started : ∀ s₁, sysStep env s (.start kind opts pre) = some s₁ →
      sysStep env s (.start kind opts.dry pre) = some (s₁.dry s.archive) ∧
      ∃ run : Run, run.opts.dryRun = false ∧
        (∀ w ∈ run.wins, GridWindow run.opts.windowMs w) ∧
        (run.kind = .reconcile → ListsApart env run.opts s.archive run.wins) ∧
        RealRun env s.archive run s₁ := by
    intro s₁ hs₁
    refine ⟨by rw [sysStep_start_dry, hs₁]; rfl, ?_⟩
    obtain ⟨run, hkind, hopts, hwins, hgrid, hholds⟩ := start_run hs₁
      (P := fun run a _ w st => StageKept env run.opts a w st ∧
        ReadStage env run.opts run.kind s.archive a w st)
      fun run w => ⟨trivial, rfl, fun _ _ _ => rfl⟩
    refine ⟨run, by rw [hopts]; exact real, hgrid, ?_, hholds⟩
    rw [hkind, hopts, hwins]
    exact apart
  constructor
  · intro ls t within hstored hexec
    obtain ⟨s₁, hs₁, hrest⟩ := Option.bind_eq_some_iff.mp hexec
    obtain ⟨hdry, run, hreal, hgrid, hapart, hrun⟩ := started s₁ hs₁
    have stores : ∀ l ∈ ls, l.Stores := by
      rcases hstored with hstored | ⟨outs, hok⟩
      · exact hstored
      · exact returned_stores hgrid hapart hrun within hrest hok
    have herases := (dry_erases hreal hgrid hapart).exec_filter hrun
      (fun l hl => ⟨within l hl, stores l hl⟩) hrest
    refine ⟨t.dry s.archive, ?_, predicts_dry kind pre t⟩
    rw [LTS.exec, hdry, Option.bind_some]
    exact herases
  · intro ls t' within hexec
    obtain ⟨s₁', hs₁', hrest⟩ := Option.bind_eq_some_iff.mp hexec
    rw [sysStep_start_dry] at hs₁'
    obtain ⟨s₁, hs₁, rfl⟩ := Option.map_eq_some_iff.mp hs₁'
    obtain ⟨-, run, hreal, hgrid, hapart, hrun⟩ := started s₁ hs₁
    obtain ⟨ls', t, hfilter, hok, hexec', rfl⟩ :=
      (dry_erases hreal hgrid hapart).exec_lift hrun within hrest
    refine ⟨ls', t, hfilter, hok, ?_, predicts_dry kind pre t⟩
    rw [LTS.exec, hs₁, Option.bind_some]
    exact hexec'

/-! ## Two days -/

namespace Concrete

/-- A job over two days, one window at a time. -/
def twoDays : DrainOptions := { jobOptions 1 with toMs := some (2 * dayMs), concurrency := 1 }

/-- The first day has one event and is drained. -/
def firstDay : List SysLabel :=
  [.spawn, .task 0 (.get true), .task 0 (.get true),
    .task 0 (.page 0 (some ⟨[⟨5, "a", "s", none, none⟩], none⟩)), .task 0 .event, .task 0 .endPages,
    .task 0 (.put (some none)), .task 0 (.put (some none)), .task 0 (.put (some none)),
    .task 0 (.putManifest true 1), .absorb 0]

/-- The second day has no event and is drained. -/
def secondDay : List SysLabel :=
  [.spawn, .task 0 (.get true), .task 0 (.get true), .task 0 (.page 0 (some ⟨[], none⟩)),
    .task 0 .endPages, .task 0 (.putManifest true 1), .absorb 0, .finish]

def twoDaysReport : ReconcileReport where
  logGroup := "/g"
  dryRun := false
  windowsTotal := 2
  windowsDrained := 2
  windowsReconciled := 0
  windowsRepaired := 0
  cwEvents := 1
  alreadyArchived := 0
  appended := 1
  objectsWritten := 1
  windows := [⟨⟨0, dayMs⟩, .drained, 1, 0, 1, 1⟩, ⟨⟨dayMs, 2 * dayMs⟩, .drained, 0, 0, 0, 0⟩]

/-- A manifest of the second day that lists the first object of the first day. -/
def foreignObject : Manifest where
  version := manifestVersion
  account := "123456789012"
  logGroup := "/g"
  windowStartMs := dayMs
  windowEndMs := 2 * dayMs
  objects := [{
    dataKey := objectKey "s4logs" "123456789012" "/g" ⟨0, dayMs⟩ .base 0
    etag := none
    crc32c := 0
    bodyLen := 0
    rawBytes := none
    storageClass := none
    recordCount := 1
    minTs := 5
    maxTs := 5 }]
  recordCount := 1
  completedAtMs := 0
  drainVersion := drainVersion
  reconciledAtMs := none
  reconciledAdded := none

/-- Stores with that manifest and no object. -/
def foreignObjectStored : Sys :=
  system [] [(windowKey "s4logs" "123456789012" "/g" ⟨dayMs, 2 * dayMs⟩,
    foreignObject.toJsonBytes manifests)]

/-- The second day has that manifest, and its object can be read. -/
def readSecondDay : List SysLabel := [.spawn, .task 0 (.get true), .task 0 (.readObject true)]

/-- The second day is paged and has no event. -/
def pageSecondDay : List SysLabel :=
  [.task 0 (.page 0 (some ⟨[], none⟩)), .task 0 .endPages, .absorb 0, .finish]

end Concrete

open Concrete in
/-- A reconcile of two days is predicted. -/
theorem dry_run_predicts_two_days : ∃ t t' : Sys,
    LTS.exec (sysStep jobEnv) (system [] [])
      (.start .reconcile twoDays (preamble []) :: (firstDay ++ secondDay)) = some t ∧
    t.reported .reconcile twoDays (preamble []) = some (.ok (.reconcile twoDaysReport)) ∧
    LTS.exec (sysStep jobEnv) (system [] []) (.start .reconcile twoDays.dry (preamble []) ::
      (firstDay ++ secondDay).filter fun l => !l.isPut) = some t' ∧
    Predicts .reconcile twoDays (preamble []) t' t := by
  have hreported : (LTS.exec (sysStep jobEnv) (system [] [])
      (.start .reconcile twoDays (preamble []) :: (firstDay ++ secondDay))).map
        (fun t => t.reported .reconcile twoDays (preamble [])) =
      some (some (.ok (.reconcile twoDaysReport))) := by
    decide +kernel
  obtain ⟨t, ht, hok⟩ := Option.map_eq_some_iff.mp hreported
  have apart : ListsApart jobEnv twoDays (system [] []).archive
      (runWindows .reconcile twoDays (preamble [])) := by
    rintro w - w' - - key ⟨m, ⟨bytes, hbytes, -⟩, -⟩
    cases hbytes
  obtain ⟨t', ht', hpredicts⟩ := ((dry_run_predicts jobEnv .reconcile twoDays (preamble [])
    (system [] []) rfl).2 fun _ => apart).1 (firstDay ++ secondDay) t (by decide)
      (.inl (by decide)) ht
  exact ⟨t, t', ht, hok, ht', hpredicts⟩

open Concrete in
/-- The real run writes the object that the manifest of the second day lists before it reads
it, and returns a report; the dry run gets the same answers and finds no such object. -/
theorem dry_run_misses_object : ∃ (t t' : Sys) (report : JobReport),
    (∀ l ∈ firstDay ++ readSecondDay ++ pageSecondDay, l.Within ∧ l.Stores) ∧
    LTS.exec (sysStep jobEnv) foreignObjectStored (.start .reconcile twoDays (preamble []) ::
      (firstDay ++ readSecondDay ++ pageSecondDay)) = some t ∧
    t.reported .reconcile twoDays (preamble []) = some (.ok report) ∧
    LTS.exec (sysStep jobEnv) foreignObjectStored (.start .reconcile twoDays.dry (preamble []) ::
      ((firstDay ++ readSecondDay).filter (fun l => !l.isPut) ++ [.absorb 0])) = some t' ∧
    t'.reported .reconcile twoDays.dry (preamble []) = some (.error (.missingObject
      (objectKey "s4logs" "123456789012" "/g" ⟨0, dayMs⟩ .base 0))) := by
  have hreal : (LTS.exec (sysStep jobEnv) foreignObjectStored
      (.start .reconcile twoDays (preamble []) ::
        (firstDay ++ readSecondDay ++ pageSecondDay))).map
        (fun t => t.reported .reconcile twoDays (preamble [])) =
      some (some (.ok (.reconcile { twoDaysReport with
        windowsDrained := 1
        windowsReconciled := 1
        windows := [⟨⟨0, dayMs⟩, .drained, 1, 0, 1, 1⟩,
          ⟨⟨dayMs, 2 * dayMs⟩, .reconciled, 0, 0, 0, 0⟩] }))) := by
    decide +kernel
  have hdry : (LTS.exec (sysStep jobEnv) foreignObjectStored
      (.start .reconcile twoDays.dry (preamble []) ::
        ((firstDay ++ readSecondDay).filter (fun l => !l.isPut) ++ [.absorb 0]))).map
        (fun t => t.reported .reconcile twoDays.dry (preamble [])) =
      some (some (.error (.missingObject
        (objectKey "s4logs" "123456789012" "/g" ⟨0, dayMs⟩ .base 0)))) := by
    decide +kernel
  obtain ⟨t, ht, hok⟩ := Option.map_eq_some_iff.mp hreal
  obtain ⟨t', ht', herror⟩ := Option.map_eq_some_iff.mp hdry
  exact ⟨t, t', _, by decide, ht, hok, ht', herror⟩

end S4Logs

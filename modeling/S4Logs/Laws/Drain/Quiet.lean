import S4Logs.Laws.Drain.Covered

/-!
# Runs that write nothing

Where no move of a window writes, a whole run leaves the stores as they were and
returns the windows with the outcomes they ended with (`Quiet.reaches`). So does a
dry run, and a drain of windows that are covered already, which skips all of them.
-/

namespace S4Logs

variable {env : Env} {opts : DrainOptions} {shards : Option (List (List String))} {w : Window}
variable {a : Archive} {events : List CwEvent} {kind : JobKind} {writes : List StoreWrite}
variable {guard : Phase → TaskLabel → Prop} {st st' : Stage}

/-- Over this archive no move of a window of the run writes, and each keeps `P`. -/
structure Quiet (env : Env) (a : Archive) (run : Run) (P : Window → Stage → Prop) : Prop where
  queued : ∀ w ∈ run.wins, P w .queued
  move : ∀ {events w st st' writes}, w ∈ run.wins →
    StageMove env (fun _ _ => True) run.kind run.opts run.shards w a events st st' writes →
    P w st → P w st' ∧ writes = []

/-- The archive is what it was. The run under way has `P` of its windows, and one that
returned well has it of each outcome. -/
structure QuietRun (a : Archive) (run : Run) (P : Window → Stage → Prop) (s : Sys) : Prop where
  archive : s.archive = a
  underWay : ∀ run', s.run = some run' → SameJob run run' ∧ s.last = none ∧ run'.Staged P
  last : ∀ outs, s.last = some (.ok outs) →
    (outs.map Prod.fst).Perm run.wins ∧ ∀ o ∈ outs, P o.1 (.closed o.2)

/-- At the end a run has the property of all its outcomes. -/
theorem Run.Staged.outcomes {P : Window → Stage → Prop} {run : Run} (h : run.Staged P)
    (hqueue : run.queue = []) (htasks : run.tasks = []) :
    (run.outcomes.map Prod.fst).Perm run.wins ∧ ∀ o ∈ run.outcomes, P o.1 (.closed o.2) := by
  have hstages : run.stages = run.outcomes.map fun o => (o.1, .closed o.2) := by
    simp only [Run.stages, hqueue, htasks, List.map_nil, List.nil_append]
  constructor
  · have hwindows := h.windows
    rw [hstages, List.map_map] at hwindows
    exact hwindows
  · intro o ho
    refine h.holds (o.1, .closed o.2) ?_
    rw [hstages]
    exact List.mem_map_of_mem ho

namespace Quiet

variable {run : Run} {P : Window → Stage → Prop} {s t : Sys}

theorem step {l : SysLabel} (h : Quiet env a run P)
    (hok : InRun (fun _ _ _ _ => True) (fun _ _ => True) s l) (hstep : sysStep env s l = some t)
    (hs : QuietRun a run P s) : QuietRun a run P t := by
  cases hrun : s.run with
  | some run' =>
    obtain ⟨job, hlast, hstaged⟩ := hs.underWay run' hrun
    cases sysStep_move hrun hok.1 hstep with
    | cloud => exact ⟨hs.archive, hs.underWay, hs.last⟩
    | @window _ run'' w st st' writes rest job' before after move =>
      rw [job.kind, job.opts, job.shards, hs.archive] at move
      have hmem : (w, st) ∈ run'.stages := before.mem_iff.mpr List.mem_cons_self
      have hw : w ∈ run'.wins := hstaged.windows.mem_iff.mp (List.mem_map_of_mem hmem)
      obtain ⟨hheld, rfl⟩ := h.move (job.wins ▸ hw) move (hstaged.holds _ hmem)
      refine ⟨hs.archive, fun run₁ hrun₁ => ?_, hs.last⟩
      obtain rfl := Option.some.inj hrun₁
      exact ⟨job.trans job', hlast, hstaged.move job' before after (fun _ _ => hheld)
        fun _ _ _ _ _ h' => h'⟩
    | failed =>
      refine ⟨hs.archive, fun run₁ hrun₁ => ?_, fun outs houts => ?_⟩
      · cases hrun₁
      · cases houts
    | finish hqueue htasks =>
      refine ⟨hs.archive, fun run₁ hrun₁ => ?_, fun outs houts => ?_⟩
      · cases hrun₁
      · cases houts
        rw [← job.wins]
        exact hstaged.outcomes hqueue htasks
    | kill =>
      refine ⟨hs.archive, fun run₁ hrun₁ => ?_, fun outs houts => ?_⟩
      · cases hrun₁
      · cases houts
  | none =>
    cases sysStep_idle hrun hstep with
    | cloud => exact ⟨hs.archive, hs.underWay, hs.last⟩
    | rejected => exact absurd hok.2 not_false
    | started => exact absurd hok.2 not_false
    | kill =>
      refine ⟨hs.archive, fun run₁ hrun₁ => ?_, fun outs houts => ?_⟩
      · cases hrun₁
      · cases houts

/-- Wherever a start leads where its run would be quiet, the archive is as it was. -/
theorem reaches {pre : Preamble} {u : Sys} {Q : Window → WindowOutcome → Prop}
    (quiet : ∀ run, startRun kind opts pre = .ok run →
      ∃ P, Quiet env s.archive run P ∧ ∀ w out, P w (.closed out) → Q w out)
    (hstart : sysStep env s (.start kind opts pre) = some u)
    (hreach : LTS.Reaches (sysStep env) (InRun (fun _ _ _ _ => True) fun _ _ => True) u t) :
    t.archive = s.archive ∧ ∀ outs, t.last = some (.ok outs) → ∃ run,
      startRun kind opts pre = .ok run ∧ (outs.map Prod.fst).Perm run.wins ∧
      ∀ o ∈ outs, Q o.1 o.2 := by
  obtain ⟨-, harchive, -, ⟨e, -, hnone, hlast⟩ | ⟨run, hok, hsome, hlast⟩⟩ := sysStep_start hstart
  · -- a start that fails leaves nothing under way, and every step after it is idle
    refine hreach.invariant (I := fun t => t.run = none ∧ t.archive = s.archive ∧
      ∀ outs, t.last ≠ some (.ok outs)) ⟨hnone, harchive, fun outs => ?_⟩ ?_ |>.2.imp_right
        fun h outs houts => absurd houts (h outs)
    · rw [hlast]
      exact fun h => nomatch h
    · intro v l v' hv hok hstep
      obtain ⟨hidle, hsame, hreturned⟩ := hv
      cases l with
      | cloud events =>
        cases hstep
        exact ⟨hidle, hsame, hreturned⟩
      | start kind opts pre => exact absurd hok.2 not_false
      | kill =>
        cases hstep
        exact ⟨rfl, hsame, fun outs h => nomatch h⟩
      | spawn => simp only [sysStep, hidle, reduceCtorEq] at hstep
      | task i l => simp only [sysStep, hidle, reduceCtorEq] at hstep
      | absorb i => simp only [sysStep, hidle, reduceCtorEq] at hstep
      | finish => simp only [sysStep, hidle, reduceCtorEq] at hstep
  · obtain ⟨P, hquiet, hclosed⟩ := quiet run hok
    have hu : QuietRun s.archive run P u := by
      refine ⟨harchive, fun run' hrun' => ?_, fun outs houts => ?_⟩
      · rw [hsome] at hrun'
        obtain rfl := Option.some.inj hrun'
        exact ⟨.refl run, hlast, startRun_staged hok hquiet.queued⟩
      · rw [hlast] at houts
        cases houts
    have ht := hreach.invariant hu fun _ _ _ hI hok hstep => hquiet.step hok hstep hI
    refine ⟨ht.archive, fun outs houts => ⟨run, hok, (ht.last outs houts).1, fun o ho => ?_⟩⟩
    exact hclosed _ _ ((ht.last outs houts).2 o ho)

end Quiet

/-! ## Dry runs -/

/-- A window of a dry run has nothing to put. -/
theorem StageMove.dry (hdry : opts.dryRun = true) (h : StageKept env opts a w st)
    (move : StageMove env guard kind opts shards w a events st st' writes) : writes = [] := by
  cases move with
  | spawn => rfl
  | close => rfl
  | @task p p' l _ hguard hstep =>
    cases taskStep_move hstep with
    | fail => rfl
    | absent => rfl
    | found => rfl
    | skip => rfl
    | begin => rfl
    | readObject => rfl
    | page => rfl
    | event => rfl
    | endPages => rfl
    | putNext =>
      obtain ⟨naming, -, hwet, -⟩ := h
      rw [hdry] at hwet
      cases hwet
    | putDone =>
      obtain ⟨naming, -, hwet, -⟩ := h
      rw [hdry] at hwet
      cases hwet
    | putManifest =>
      obtain ⟨naming, -, hwet, -⟩ := h
      rw [hdry] at hwet
      cases hwet

/-- A dry run is quiet. -/
theorem dry_quiet {run : Run} (hdry : run.opts.dryRun = true)
    (hgrid : ∀ w ∈ run.wins, GridWindow run.opts.windowMs w) (a : Archive) :
    Quiet env a run (StageKept env run.opts a) where
  queued _ _ := trivial
  move := by
    intro events w st st' writes hw move h
    have hkept := (move.kept (hgrid w hw).2.1 h).1
    obtain rfl := move.dry hdry h
    exact ⟨hkept, rfl⟩

/-! ## Covered windows -/

/-- A window of a drain that has its proof already. -/
def SkipStage : Stage → Prop
  | .active (.done out) => out = .skip
  | .active .lookup => True
  | .active (.failed _) => True
  | .active _ => False
  | .queued => True
  | .closed out => out = .skip

/-- Such a window is skipped. -/
theorem StageMove.skips (hcovered : Covered env opts a w) (h : SkipStage st)
    (move : StageMove env guard .drain opts shards w a events st st' writes) :
    SkipStage st' ∧ writes = [] := by
  cases move with
  | spawn => exact ⟨trivial, rfl⟩
  | close => exact ⟨h, rfl⟩
  | @task p p' l _ hguard hstep =>
    cases taskStep_move hstep with
    | fail => exact ⟨trivial, rfl⟩
    | absent => exact h.elim
    | found => exact h.elim
    | skip => exact ⟨rfl, rfl⟩
    | begin huncovered =>
      obtain ⟨bytes, hget, hcovers⟩ := hcovered
      rw [huncovered bytes (Except.ok.inj hget)] at hcovers
      cases hcovers
    | readObject => exact h.elim
    | page => exact h.elim
    | event => exact h.elim
    | endPages => exact h.elim
    | putNext => exact h.elim
    | putDone => exact h.elim
    | putManifest => exact h.elim

/-- A drain of covered windows is quiet. -/
theorem covered_quiet {run : Run} (hkind : run.kind = .drain)
    (hcovered : ∀ w ∈ run.wins, Covered env run.opts a w) :
    Quiet env a run fun _ => SkipStage where
  queued _ _ := trivial
  move := by
    intro events w st st' writes hw move h
    rw [hkind] at move
    exact move.skips (hcovered w hw) h

end S4Logs

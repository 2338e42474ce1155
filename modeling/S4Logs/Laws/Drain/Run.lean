import S4Logs.Laws.Core.Keys
import S4Logs.Laws.Drain.Task
import S4Logs.Laws.Drain.Window
import Mathlib.Data.List.Perm.Basic

/-!
# Runs, window by window

A run holds each of its windows once: in the queue, in flight or closed. So a
step of a run moves one window from one stage to another and leaves the rest
alone (`SysMove`), and what holds of every window follows from what the moves of
one window keep (`Staged.move`): its own property, and that of the other
windows, which see only the writes.
-/

namespace S4Logs

variable {env : Env}

/-- Where a window of a run is. -/
inductive Stage where
  | queued
  | active (p : Phase)
  | closed (out : WindowOutcome)

/-- The windows of a run and where each is. -/
def Run.stages (run : Run) : List (Window × Stage) :=
  run.queue.map (·, .queued) ++ run.tasks.map (fun t => (t.window, .active t.phase)) ++
    run.outcomes.map fun o => (o.1, .closed o.2)

/-- The moves of one window between stages. `guard` is what is assumed of the
answers. -/
inductive StageMove (env : Env) (guard : Phase → TaskLabel → Prop) (kind : JobKind)
    (opts : DrainOptions) (shards : Option (List (List String))) (w : Window) (a : Archive)
    (events : List CwEvent) : Stage → Stage → List StoreWrite → Prop
  | spawn : StageMove env guard kind opts shards w a events .queued (.active kind.first) []
  | task {p p' : Phase} {l : TaskLabel} {writes : List StoreWrite} : guard p l →
      taskStep env opts shards w a events p l = some (p', writes) →
      StageMove env guard kind opts shards w a events (.active p) (.active p') writes
  | close {out : WindowOutcome} :
      StageMove env guard kind opts shards w a events (.active (.done out)) (.closed out) []

/-- Two runs are of one job: the same kind, options, shards and windows. -/
structure SameJob (run run' : Run) : Prop where
  kind : run'.kind = run.kind
  opts : run'.opts = run.opts
  shards : run'.shards = run.shards
  wins : run'.wins = run.wins

theorem SameJob.refl (run : Run) : SameJob run run := ⟨rfl, rfl, rfl, rfl⟩

theorem SameJob.trans {run run' run'' : Run} (h : SameJob run run') (h' : SameJob run' run'') :
    SameJob run run'' :=
  ⟨h'.kind.trans h.kind, h'.opts.trans h.opts, h'.shards.trans h.shards, h'.wins.trans h.wins⟩

/-- What is assumed of the answers a task gets, lifted to the labels of a system. -/
def TaskGuard (guard : List CwEvent → Window → Phase → TaskLabel → Prop) (s : Sys) :
    SysLabel → Prop
  | .task i l => ∀ run t, s.run = some run → run.tasks[i]? = some t →
    guard s.events t.window t.phase l
  | _ => True

/-- What a step does to a run that is under way. -/
inductive SysMove (env : Env) (guard : List CwEvent → Window → Phase → TaskLabel → Prop)
    (s : Sys) (run : Run) : SysLabel → Sys → Prop
  | cloud {events : List CwEvent} : SysMove env guard s run (.cloud events)
      { s with events := events }
  | window {l : SysLabel} {run' : Run} (w : Window) (st st' : Stage) (writes : List StoreWrite)
      (rest : List (Window × Stage)) : SameJob run run' →
      run.stages.Perm ((w, st) :: rest) → run'.stages.Perm ((w, st') :: rest) →
      StageMove env (guard s.events w) run.kind run.opts run.shards w s.archive s.events
        st st' writes →
      SysMove env guard s run l
        { s with archive := applyWrites s.archive writes, run := some run' }
  | failed {l : SysLabel} {e : ReconcileError} : SysMove env guard s run l
      { s with run := none, last := some (.error e) }
  | finish : run.queue = [] → run.tasks = [] → SysMove env guard s run .finish
      { s with run := none, last := some (.ok run.outcomes) }
  | kill : SysMove env guard s run .kill { s with run := none, last := none }

theorem perm_cons_of_getElem? {α : Type} {as : List α} {i : Nat} {a : α} (h : as[i]? = some a) :
    as.Perm (a :: as.eraseIdx i) := by
  obtain ⟨hi, rfl⟩ := List.getElem?_eq_some_iff.mp h
  exact (List.getElem_cons_eraseIdx_perm hi).symm

theorem perm_set_of_getElem? {α : Type} {as : List α} {i : Nat} {a : α} (h : as[i]? = some a)
    (b : α) : (as.set i b).Perm (b :: as.eraseIdx i) := by
  obtain ⟨hi, rfl⟩ := List.getElem?_eq_some_iff.mp h
  have hset : (as.set i b)[i]? = some b := by
    rw [List.getElem?_set_self hi]
  have := perm_cons_of_getElem? hset
  rwa [List.eraseIdx_set_eq] at this

/-- The stages of a run whose tasks are these up to order, one of them first. -/
theorem stages_perm (run : Run) {tasks : List Task} {t : Task}
    (h : run.tasks.Perm (t :: tasks)) : run.stages.Perm ((t.window, .active t.phase) ::
      (run.queue.map (·, .queued) ++ tasks.map (fun t => (t.window, .active t.phase)) ++
        run.outcomes.map fun o => (o.1, .closed o.2))) := by
  have hmiddle := ((h.map fun t => (t.window, Stage.active t.phase)).append_left
    (run.queue.map (·, .queued))).trans List.perm_middle
  exact hmiddle.append_right _

theorem mem_stages_of_task {run : Run} {i : Nat} {t : Task} (h : run.tasks[i]? = some t) :
    (t.window, .active t.phase) ∈ run.stages :=
  List.mem_append_left _ (List.mem_append_right _ (List.mem_map_of_mem (List.mem_of_getElem? h)))

theorem TaskGuard.task {guard : List CwEvent → Window → Phase → TaskLabel → Prop} {s : Sys}
    {i : Nat} {l : TaskLabel} (h : TaskGuard guard s (.task i l)) {run : Run} {t : Task}
    (hrun : s.run = some run) (ht : run.tasks[i]? = some t) :
    guard s.events t.window t.phase l :=
  h run t hrun ht

/-- A step of a system with a run is one of the moves. -/
theorem sysStep_move {guard : List CwEvent → Window → Phase → TaskLabel → Prop} {s s' : Sys}
    {run : Run} {l : SysLabel} (hrun : s.run = some run) (hguard : TaskGuard guard s l)
    (h : sysStep env s l = some s') : SysMove env guard s run l s' := by
  cases l with
  | cloud events =>
    cases h
    exact .cloud
  | start kind opts pre =>
    simp only [sysStep, hrun, reduceCtorEq] at h
  | spawn =>
    simp only [sysStep, hrun] at h
    split at h
    next => cases h
    next w queue hqueue =>
      split at h
      next =>
        cases h
        refine .window w .queued (.active run.kind.first) []
          (queue.map (·, .queued) ++ run.tasks.map (fun t => (t.window, .active t.phase)) ++
            run.outcomes.map fun o => (o.1, .closed o.2)) ⟨rfl, rfl, rfl, rfl⟩ ?_ ?_ .spawn
        · simp only [Run.stages, hqueue, List.map_cons, List.cons_append, List.Perm.refl]
        · simp only [Run.stages, List.map_append, List.map_cons, List.map_nil, List.append_assoc,
            List.cons_append, List.nil_append]
          rw [← List.append_assoc, ← List.append_assoc]
          exact List.perm_middle
      next => cases h
  | task i l =>
    simp only [sysStep, hrun] at h
    cases ht : run.tasks[i]? with
    | none => simp only [ht, reduceCtorEq] at h
    | some t =>
      simp only [ht] at h
      obtain ⟨⟨p', writes⟩, hstep, rfl⟩ := Option.map_eq_some_iff.mp h
      refine .window t.window (.active t.phase) (.active p') writes
        (run.queue.map (·, .queued) ++
          (run.tasks.eraseIdx i).map (fun t => (t.window, .active t.phase)) ++
            run.outcomes.map fun o => (o.1, .closed o.2)) ⟨rfl, rfl, rfl, rfl⟩ ?_ ?_
        (.task (hguard.task hrun ht) hstep)
      · exact stages_perm run (perm_cons_of_getElem? ht)
      · exact stages_perm { run with tasks := run.tasks.set i { t with phase := p' } }
          (perm_set_of_getElem? ht _)
  | absorb i =>
    simp only [sysStep, hrun] at h
    cases ht : run.tasks[i]? with
    | none => simp only [ht, reduceCtorEq] at h
    | some t =>
      simp only [ht] at h
      cases hphase : t.phase with
      | done out =>
        simp only [hphase] at h
        cases h
        refine .window t.window (.active (.done out)) (.closed out) []
          (run.queue.map (·, .queued) ++
            (run.tasks.eraseIdx i).map (fun t => (t.window, .active t.phase)) ++
              run.outcomes.map fun o => (o.1, .closed o.2)) ⟨rfl, rfl, rfl, rfl⟩ ?_ ?_ .close
        · rw [← hphase]
          exact stages_perm run (perm_cons_of_getElem? ht)
        · simp only [Run.stages, List.map_append, List.map_cons, List.map_nil]
          rw [← List.append_assoc]
          exact List.perm_append_singleton _ _
      | failed e =>
        simp only [hphase] at h
        cases h
        exact .failed
      | look => simp only [hphase, reduceCtorEq] at h
      | lookup => simp only [hphase, reduceCtorEq] at h
      | read m rest seen => simp only [hphase, reduceCtorEq] at h
      | work wk at_ => simp only [hphase, reduceCtorEq] at h
  | finish =>
    simp only [sysStep, hrun] at h
    split at h
    next hend =>
      cases h
      exact .finish hend.1 hend.2
    next => cases h
  | kill =>
    cases h
    exact .kill

/-- What a step does to a system that has no run. -/
inductive IdleMove (s : Sys) : SysLabel → Sys → Prop
  | cloud {events : List CwEvent} : IdleMove s (.cloud events) { s with events := events }
  | rejected {kind : JobKind} {opts : DrainOptions} {pre : Preamble} {e : DrainError} :
      startRun kind opts pre = .error e → IdleMove s (.start kind opts pre)
        { s with run := none, last := some (.error (.drain e)) }
  | started {kind : JobKind} {opts : DrainOptions} {pre : Preamble} {run : Run} :
      startRun kind opts pre = .ok run → IdleMove s (.start kind opts pre)
        { s with run := some run, last := none }
  | kill : IdleMove s .kill { s with run := none, last := none }

/-- A step of a system without a run is one of these. -/
theorem sysStep_idle {s s' : Sys} {l : SysLabel} (hrun : s.run = none)
    (h : sysStep env s l = some s') : IdleMove s l s' := by
  cases l with
  | cloud events =>
    cases h
    exact .cloud
  | start kind opts pre =>
    cases hstart : startRun kind opts pre with
    | error e =>
      simp only [sysStep, hrun, hstart, Option.some.injEq] at h
      subst h
      exact .rejected hstart
    | ok run =>
      simp only [sysStep, hrun, hstart, Option.some.injEq] at h
      subst h
      exact .started hstart
  | kill =>
    cases h
    exact .kill
  | spawn => simp only [sysStep, hrun, reduceCtorEq] at h
  | task i l => simp only [sysStep, hrun, reduceCtorEq] at h
  | absorb i => simp only [sysStep, hrun, reduceCtorEq] at h
  | finish => simp only [sysStep, hrun, reduceCtorEq] at h

/-- A run holds each of its windows once, the windows have different starts, and
`P` holds of each where it is. -/
structure Run.Staged (P : Window → Stage → Prop) (run : Run) : Prop where
  windows : (run.stages.map Prod.fst).Perm run.wins
  nodup : (run.wins.map Window.startMs).Nodup
  holds : ∀ p ∈ run.stages, P p.1 p.2

namespace Run.Staged

variable {P P' : Window → Stage → Prop} {run run' : Run}

/-- One window moves, and the others see what it writes. -/
theorem move {w : Window} {st st' : Stage} {rest : List (Window × Stage)} (h : run.Staged P)
    (job : SameJob run run') (before : run.stages.Perm ((w, st) :: rest))
    (after : run'.stages.Perm ((w, st') :: rest)) (own : w ∈ run.wins → P w st → P' w st')
    (others : ∀ w' st'', w ∈ run.wins → w' ∈ run.wins → w'.startMs ≠ w.startMs → P w' st'' →
      P' w' st'') : run'.Staged P' where
  windows := by
    rw [job.wins]
    exact ((after.map Prod.fst).trans (before.map Prod.fst).symm).trans h.windows
  nodup := by
    rw [job.wins]
    exact h.nodup
  holds p hp := by
    have hstarts : (((w, st) :: rest).map fun p => p.1.startMs).Nodup := by
      have := (((before.map Prod.fst).symm.trans h.windows).map Window.startMs).symm.nodup h.nodup
      rwa [List.map_map] at this
    have hmem : ∀ q ∈ (w, st) :: rest, q.1 ∈ run.wins := fun q hq =>
      h.windows.mem_iff.mp (List.mem_map_of_mem (before.mem_iff.mpr hq))
    have hw := hmem _ List.mem_cons_self
    rcases List.mem_cons.mp (after.mem_iff.mp hp) with rfl | hrest
    · exact own hw (h.holds _ (before.mem_iff.mpr List.mem_cons_self))
    · refine others _ _ hw (hmem _ (List.mem_cons_of_mem _ hrest)) (fun heq => ?_)
        (h.holds _ (before.mem_iff.mpr (List.mem_cons_of_mem _ hrest)))
      exact (List.nodup_cons.mp hstarts).1 (List.mem_map.mpr ⟨p, hrest, heq⟩)

theorem mono (h : run.Staged P) (weaker : ∀ w st, w ∈ run.wins → P w st → P' w st) :
    run.Staged P' where
  windows := h.windows
  nodup := h.nodup
  holds p hp := weaker _ _ (h.windows.mem_iff.mp (List.mem_map_of_mem hp)) (h.holds p hp)

/-- At the end every window is closed. -/
theorem closed (h : run.Staged P) (hqueue : run.queue = []) (htasks : run.tasks = []) :
    ∀ w ∈ run.wins, ∃ out, P w (.closed out) := by
  intro w hw
  obtain ⟨p, hp, rfl⟩ := List.mem_map.mp (h.windows.mem_iff.mpr hw)
  have hholds := h.holds p hp
  simp only [Run.stages, hqueue, htasks, List.map_nil, List.nil_append] at hp
  obtain ⟨o, -, rfl⟩ := List.mem_map.mp hp
  exact ⟨o.2, hholds⟩

end Run.Staged

/-- What holds of each window of a run wherever it is: kept by the moves of the
window, by the moves of the others, and by what CloudWatch does. -/
structure RunInvariant (env : Env) (guard : List CwEvent → Window → Phase → TaskLabel → Prop)
    (cloud : List CwEvent → List CwEvent → Prop) (run : Run)
    (P : Archive → List CwEvent → Window → Stage → Prop) : Prop where
  own : ∀ {a events w st st' writes}, w ∈ run.wins →
    StageMove env (guard events w) run.kind run.opts run.shards w a events st st' writes →
    P a events w st → P (applyWrites a writes) events w st'
  others : ∀ {a events w w' st st' st'' writes}, w ∈ run.wins → w' ∈ run.wins →
    w'.startMs ≠ w.startMs →
    StageMove env (guard events w) run.kind run.opts run.shards w a events st st' writes →
    P a events w st → P a events w' st'' → P (applyWrites a writes) events w' st''
  cloud : ∀ {a events events' w st}, cloud events events' → P a events w st → P a events' w st

/-- The labels of one run: no other starts, and CloudWatch and its answers are as
assumed. -/
def InRun (guard : List CwEvent → Window → Phase → TaskLabel → Prop)
    (cloud : List CwEvent → List CwEvent → Prop) (s : Sys) (l : SysLabel) : Prop :=
  TaskGuard guard s l ∧
    match l with
    | .start _ _ _ => False
    | .cloud events => cloud s.events events
    | _ => True

/-- A run under way has the property of each of its windows, and one that returned
well has it of each of them closed. -/
def RunHolds (run : Run) (P : Archive → List CwEvent → Window → Stage → Prop) (s : Sys) : Prop :=
  match s.run with
  | some run' => SameJob run run' ∧ s.last = none ∧ run'.Staged (P s.archive s.events)
  | none => ∀ outs, s.last = some (.ok outs) →
    ∀ w ∈ run.wins, ∃ out, P s.archive s.events w (.closed out)

theorem RunHolds.returned {run : Run} {P : Archive → List CwEvent → Window → Stage → Prop} {s : Sys}
    {outs : List (Window × WindowOutcome)} (h : RunHolds run P s)
    (hlast : s.last = some (.ok outs)) :
    ∀ w ∈ run.wins, ∃ out, P s.archive s.events w (.closed out) := by
  cases hrun : s.run with
  | some run' =>
    simp only [RunHolds, hrun] at h
    rw [h.2.1] at hlast
    cases hlast
  | none =>
    simp only [RunHolds, hrun] at h
    exact h outs hlast

/-- Without a start nothing gets under way. -/
theorem idle_reaches {guard : List CwEvent → Window → Phase → TaskLabel → Prop}
    {cloud : List CwEvent → List CwEvent → Prop} {s t : Sys} (h : s.run = none)
    (hreach : LTS.Reaches (sysStep env) (InRun guard cloud) s t) : t.run = none := by
  refine hreach.invariant (I := fun s => s.run = none) h fun s l u hs hok hstep => ?_
  cases sysStep_idle hs hstep with
  | cloud => exact hs
  | rejected => exact absurd hok.2 not_false
  | started => exact absurd hok.2 not_false
  | kill => rfl

namespace RunInvariant

variable {guard : List CwEvent → Window → Phase → TaskLabel → Prop}
variable {cloud : List CwEvent → List CwEvent → Prop} {run : Run}
variable {P : Archive → List CwEvent → Window → Stage → Prop}

theorem step {s s' : Sys} {l : SysLabel} (h : RunInvariant env guard cloud run P)
    (hok : InRun guard cloud s l) (hstep : sysStep env s l = some s') (hs : RunHolds run P s) :
    RunHolds run P s' := by
  obtain ⟨hguard, hlabel⟩ := hok
  cases hrun : s.run with
  | some run' =>
    simp only [RunHolds, hrun] at hs
    obtain ⟨job, hlast, hstaged⟩ := hs
    cases sysStep_move hrun hguard hstep with
    | cloud =>
      simp only [RunHolds, hrun]
      exact ⟨job, hlast, hstaged.mono fun w st _ => h.cloud hlabel⟩
    | @window _ run'' w st st' writes rest job' before after move =>
      rw [job.kind, job.opts, job.shards] at move
      have hw : (w, st) ∈ run'.stages := before.mem_iff.mpr List.mem_cons_self
      refine ⟨job.trans job', hlast, hstaged.move job' before after (fun hw => ?_)
        (fun w' st'' hw hw' hne => ?_)⟩
      · exact h.own (job.wins ▸ hw) move
      · exact h.others (job.wins ▸ hw) (job.wins ▸ hw') hne move (hstaged.holds _ ‹_›)
    | failed => exact fun outs houts => nomatch houts
    | finish hqueue htasks =>
      intro outs _ w hw
      exact hstaged.closed hqueue htasks w (job.wins ▸ hw)
    | kill => exact fun outs houts => nomatch houts
  | none =>
    simp only [RunHolds, hrun] at hs
    cases sysStep_idle hrun hstep with
    | cloud =>
      simp only [RunHolds, hrun]
      intro outs houts w hw
      obtain ⟨out, hout⟩ := hs outs houts w hw
      exact ⟨out, h.cloud hlabel hout⟩
    | rejected => exact absurd hlabel not_false
    | started => exact absurd hlabel not_false
    | kill => exact fun outs houts => nomatch houts

/-- What holds when a run starts holds wherever it leads. -/
theorem reaches {s t : Sys} (h : RunInvariant env guard cloud run P) (hs : RunHolds run P s)
    (hreach : LTS.Reaches (sysStep env) (InRun guard cloud) s t) : RunHolds run P t :=
  hreach.invariant hs fun _ _ _ hI hok hstep => h.step hok hstep hI

end RunInvariant

/-- What a run starts with. -/
theorem startRun_spec {kind : JobKind} {opts : DrainOptions} {pre : Preamble} {run : Run}
    (h : startRun kind opts pre = .ok run) : run.kind = kind ∧ run.opts = opts ∧
      computeShards opts pre = .ok run.shards ∧ (∃ lo hi, Tiles opts.windowMs lo run.wins hi) ∧
      run.stages = run.wins.map (·, .queued) ∧ ∀ fromMs toMs,
        resolveRange opts pre = .ok (fromMs, toMs) →
        windows fromMs toMs opts.windowMs = .ok run.wins := by
  unfold startRun at h
  cases hrange : resolveRange opts pre with
  | error e => simp only [hrange, bind, Except.bind, reduceCtorEq] at h
  | ok range =>
    cases hshards : computeShards opts pre with
    | error e => simp only [hrange, hshards, bind, Except.bind, reduceCtorEq] at h
    | ok shards =>
      cases hwins : windows range.1 range.2 opts.windowMs with
      | error e =>
        simp only [hrange, hshards, hwins, bind, Except.bind, Except.mapError, reduceCtorEq] at h
      | ok wins =>
        simp only [hrange, hshards, hwins, bind, Except.bind, Except.mapError,
          Except.ok.injEq] at h
        subst h
        obtain ⟨hi, htiles⟩ := windows_tiles hwins
        refine ⟨rfl, rfl, rfl, ⟨_, hi, htiles⟩, ?_, fun fromMs toMs heq => ?_⟩
        · simp only [Run.stages, List.map_nil, List.append_nil]
        · cases heq
          exact hwins

/-- A start either ends at once or has the run before its first window. -/
theorem sysStep_start {kind : JobKind} {opts : DrainOptions} {pre : Preamble} {s s' : Sys}
    (h : sysStep env s (.start kind opts pre) = some s') : s.run = none ∧
      s'.archive = s.archive ∧ s'.events = s.events ∧
      ((∃ e, startRun kind opts pre = .error e ∧ s'.run = none ∧
        s'.last = some (.error (.drain e))) ∨
      ∃ run, startRun kind opts pre = .ok run ∧ s'.run = some run ∧ s'.last = none) := by
  cases hrun : s.run with
  | some run => simp only [sysStep, hrun, reduceCtorEq] at h
  | none =>
    cases sysStep_idle hrun h with
    | rejected hstart => exact ⟨rfl, rfl, rfl, .inl ⟨_, hstart, rfl, rfl⟩⟩
    | started hstart => exact ⟨rfl, rfl, rfl, .inr ⟨_, hstart, rfl, rfl⟩⟩

/-- A run that starts has every window queued. -/
theorem startRun_staged {kind : JobKind} {opts : DrainOptions} {pre : Preamble} {run : Run}
    {P : Window → Stage → Prop} (h : startRun kind opts pre = .ok run)
    (queued : ∀ w ∈ run.wins, P w .queued) : run.Staged P := by
  obtain ⟨-, -, -, ⟨lo, hi, htiles⟩, hstages, -⟩ := startRun_spec h
  refine ⟨?_, htiles.nodup, fun p hp => ?_⟩
  · rw [hstages, List.map_map]
    simp only [Function.comp_def, List.map_id', List.Perm.refl]
  · rw [hstages] at hp
    obtain ⟨w, hw, rfl⟩ := List.mem_map.mp hp
    exact queued w hw

/-- Where a start leads the property holds, of a run with these windows. -/
theorem start_holds {kind : JobKind} {opts : DrainOptions} {pre : Preamble} {s s' : Sys}
    {fromMs toMs : Int} {wins : List Window}
    {P : Archive → List CwEvent → Window → Stage → Prop}
    (hrange : resolveRange opts pre = .ok (fromMs, toMs))
    (hwins : windows fromMs toMs opts.windowMs = .ok wins)
    (h : sysStep env s (.start kind opts pre) = some s')
    (queued : ∀ w ∈ wins, P s.archive s.events w .queued) :
    ∃ run, run.kind = kind ∧ run.opts = opts ∧ run.wins = wins ∧ RunHolds run P s' := by
  obtain ⟨-, harchive, hevents, ⟨e, -, hnone, hlast⟩ | ⟨run, hok, hsome, hlast⟩⟩ := sysStep_start h
  · refine ⟨{ kind, opts, shards := none, wins, queue := [], tasks := [], outcomes := [] },
      rfl, rfl, rfl, ?_⟩
    simp only [RunHolds, hnone, hlast]
    exact fun outs houts => nomatch houts
  · obtain ⟨hkind, hopts, -, -, -, hwindows⟩ := startRun_spec hok
    have hrunwins : run.wins = wins := by
      have := hwindows fromMs toMs hrange
      rw [hwins] at this
      exact (Except.ok.inj this).symm
    refine ⟨run, hkind, hopts, hrunwins, ?_⟩
    simp only [RunHolds, hsome, harchive, hevents]
    exact ⟨.refl run, hlast, startRun_staged hok fun w hw => queued w (hrunwins ▸ hw)⟩

/-- Where a run is under way after a start, it is the run of that start. -/
theorem start_under_way {guard : List CwEvent → Window → Phase → TaskLabel → Prop}
    {cloud : List CwEvent → List CwEvent → Prop} {kind : JobKind} {opts : DrainOptions}
    {pre : Preamble} {s s' t : Sys} {run : Run}
    {P : Run → Archive → List CwEvent → Window → Stage → Prop}
    (h : sysStep env s (.start kind opts pre) = some s')
    (hreach : LTS.Reaches (sysStep env) (InRun guard cloud) s' t) (hrun : t.run = some run)
    (invariant : ∀ run₀, startRun kind opts pre = .ok run₀ →
      RunInvariant env guard cloud run₀ (P run₀))
    (queued : ∀ run₀ a events w, P run₀ a events w .queued) :
    ∃ run₀, startRun kind opts pre = .ok run₀ ∧ SameJob run₀ run ∧
      run.Staged (P run₀ t.archive t.events) := by
  obtain ⟨-, harchive, hevents, ⟨e, -, hnone, -⟩ | ⟨run₀, hok, hsome, hlast⟩⟩ := sysStep_start h
  · rw [idle_reaches hnone hreach] at hrun
    cases hrun
  · have hholds : RunHolds run₀ (P run₀) s' := by
      simp only [RunHolds, hsome]
      exact ⟨.refl run₀, hlast, startRun_staged hok fun w _ => queued _ _ _ w⟩
    have ht := (invariant run₀ hok).reaches hholds hreach
    simp only [RunHolds, hrun] at ht
    exact ⟨run₀, hok, ht.1, ht.2.2⟩

/-! ## Replays -/

section

variable (env) (guard : List CwEvent → Window → Phase → TaskLabel → Prop)
variable (cloud : List CwEvent → List CwEvent → Prop)
variable [∀ events w p l, Decidable (guard events w p l)]
variable [∀ events events', Decidable (cloud events events')]

instance TaskGuard.decidable (s : Sys) : ∀ l, Decidable (TaskGuard guard s l)
  | .task i l =>
    match hrun : s.run with
    | none => .isTrue fun run _ hsome => by rw [hrun] at hsome; cases hsome
    | some run =>
      match ht : run.tasks[i]? with
      | none => .isTrue fun run' t hsome hget => by
          rw [hrun] at hsome
          cases hsome
          rw [ht] at hget
          cases hget
      | some t => decidable_of_iff (guard s.events t.window t.phase l)
          ⟨fun h run' t' hsome hget => by
            rw [hrun] at hsome
            cases hsome
            rw [ht] at hget
            cases hget
            exact h, fun h => h run t hrun ht⟩
  | .cloud _ => .isTrue trivial
  | .start _ _ _ => .isTrue trivial
  | .spawn => .isTrue trivial
  | .absorb _ => .isTrue trivial
  | .finish => .isTrue trivial
  | .kill => .isTrue trivial

instance InRun.decidable (s : Sys) : ∀ l, Decidable (InRun guard cloud s l)
  | .cloud events => inferInstanceAs (Decidable (_ ∧ cloud s.events events))
  | .start _ _ _ => .isFalse fun h => h.2
  | .task i l => inferInstanceAs (Decidable (TaskGuard guard s (.task i l) ∧ True))
  | .spawn => .isTrue ⟨trivial, trivial⟩
  | .absorb _ => .isTrue ⟨trivial, trivial⟩
  | .finish => .isTrue ⟨trivial, trivial⟩
  | .kill => .isTrue ⟨trivial, trivial⟩

/-- The labels after a start make a run to a state that passes a check. -/
def replays (s : Sys) (start : SysLabel) (ls : List SysLabel) (check : Sys → Bool) : Bool :=
  match sysStep env s start with
  | none => false
  | some s₁ => LTS.replay (sysStep env) (InRun guard cloud) s₁ ls check

end

theorem replays_spec {guard : List CwEvent → Window → Phase → TaskLabel → Prop}
    {cloud : List CwEvent → List CwEvent → Prop}
    [∀ events w p l, Decidable (guard events w p l)]
    [∀ events events', Decidable (cloud events events')] {s : Sys} {start : SysLabel}
    {ls : List SysLabel} {check : Sys → Bool}
    (h : replays env guard cloud s start ls check = true) :
    ∃ s₁ t, sysStep env s start = some s₁ ∧
      LTS.Reaches (sysStep env) (InRun guard cloud) s₁ t ∧ check t = true := by
  unfold replays at h
  split at h
  next => cases h
  next s₁ hs₁ =>
    obtain ⟨t, hreach, hcheck⟩ := LTS.replay_spec h
    exact ⟨s₁, t, hs₁, hreach, hcheck⟩

/-- The last run returned well, and the archive holds this under the key of a manifest. -/
def Sys.returnedWith (key : String) (body : Option Bytes) (t : Sys) : Bool :=
  (match t.last with
    | some (.ok _) => true
    | _ => false) && t.archive.manifests key == body

theorem Sys.returnedWith_spec {key : String} {body : Option Bytes} {t : Sys}
    (h : t.returnedWith key body = true) :
    (∃ outs, t.last = some (.ok outs)) ∧ t.archive.manifests key = body := by
  obtain ⟨hlast, hbody⟩ := Bool.and_eq_true_iff.mp h
  refine ⟨?_, eq_of_beq hbody⟩
  split at hlast
  next outs hok => exact ⟨outs, hok⟩
  next => cases hlast

/-! ## The account of every window of a run -/

/-- The naming of a window goes with the manifest it repairs. -/
def NamedFor : Option Manifest → ObjectNaming → Prop
  | none, naming => naming = .base
  | some m, naming => ∃ attempt, naming = .reconcile attempt ∧ nextAttempt m = some attempt ∧
    attempt < 100

theorem NamedFor.fits {prior : Option Manifest} {naming : ObjectNaming}
    (h : NamedFor prior naming) : naming.Fits := by
  cases prior with
  | none =>
    subst h
    trivial
  | some m =>
    obtain ⟨attempt, rfl, -, hlt⟩ := h
    exact hlt

/-- A window that pages keeps its account. -/
def StageKept (env : Env) (opts : DrainOptions) (a : Archive) (w : Window) : Stage → Prop
  | .active (.work wk at_) => ∃ naming, NamedFor wk.prior naming ∧
    WorkKept env opts w naming a.objects wk at_
  | _ => True

variable {opts : DrainOptions} {shards : Option (List (List String))} {w w' : Window}
variable {a : Archive} {events : List CwEvent} {kind : JobKind}

theorem Settled.kept {prior : Option Manifest} {naming : ObjectNaming} {p : Phase}
    (hfor : NamedFor prior naming) (h : Settled env opts w naming a.objects prior p) :
    StageKept env opts a w (.active p) := by
  cases p with
  | work wk at_ =>
    obtain ⟨rfl, hkept⟩ := h
    exact ⟨naming, hfor, hkept⟩
  | look => trivial
  | lookup => trivial
  | read m rest seen => trivial
  | done out => trivial
  | failed e => trivial

theorem readNext_kept (m : Manifest) (rest : List ManifestObject) (seen : List Nat) :
    StageKept env opts a w (.active (readNext opts shards w m rest seen events)) := by
  rcases readNext_spec (w := w) m rest seen
    with h | ⟨e, h⟩ | ⟨attempt, -, hnext, hlt, h⟩
  · rw [h]
    trivial
  · rw [h]
    trivial
  · rw [h]
    exact Settled.kept (show NamedFor (some m) _ from ⟨attempt, rfl, hnext, hlt⟩) start_settled

/-- A move keeps the account and writes nothing but the window's own. -/
theorem StageMove.kept {guard : Phase → TaskLabel → Prop} {st st' : Stage}
    {writes : List StoreWrite} (hw : 0 ≤ w.startMs)
    (move : StageMove env guard kind opts shards w a events st st' writes)
    (h : StageKept env opts a w st) : StageKept env opts (applyWrites a writes) w st' ∧
      ∀ write ∈ writes, ∃ naming, OwnWrite env opts w naming write := by
  cases move with
  | spawn => cases kind <;> exact ⟨trivial, fun _ h => absurd h List.not_mem_nil⟩
  | close => exact ⟨trivial, fun _ h => absurd h List.not_mem_nil⟩
  | @task p p' l _ hguard hstep =>
    have hmove := taskStep_move hstep
    cases p with
    | work wk at_ =>
      obtain ⟨naming, hfor, hkept⟩ := h
      obtain ⟨hown, hcase⟩ := work_step hw hfor.fits hmove hkept
      refine ⟨?_, fun write hwrite => ⟨naming, hown write hwrite⟩⟩
      rcases hcase with ⟨hsettled, -⟩ | ⟨nowMs, -, rfl, -⟩
      · exact hsettled.kept hfor
      · trivial
    | look =>
      cases hmove with
      | fail => exact ⟨trivial, fun _ h => absurd h List.not_mem_nil⟩
      | absent => exact ⟨trivial, fun _ h => absurd h List.not_mem_nil⟩
      | found => exact ⟨readNext_kept _ _ _, fun _ h => absurd h List.not_mem_nil⟩
    | lookup =>
      cases hmove with
      | fail => exact ⟨trivial, fun _ h => absurd h List.not_mem_nil⟩
      | skip => exact ⟨trivial, fun _ h => absurd h List.not_mem_nil⟩
      | begin =>
        exact ⟨Settled.kept (show NamedFor none .base from rfl) start_settled,
          fun _ h => absurd h List.not_mem_nil⟩
    | read m rest seen =>
      cases hmove with
      | fail => exact ⟨trivial, fun _ h => absurd h List.not_mem_nil⟩
      | readObject => exact ⟨readNext_kept _ _ _, fun _ h => absurd h List.not_mem_nil⟩
    | done out =>
      cases hmove
      exact ⟨trivial, fun _ h => absurd h List.not_mem_nil⟩
    | failed e =>
      cases hmove
      exact ⟨trivial, fun _ h => absurd h List.not_mem_nil⟩

/-- The writes of one window lie beside the objects of another. -/
theorem ownWrites_objects {writes : List StoreWrite} (hw : 0 ≤ w.startMs) (hw' : 0 ≤ w'.startMs)
    (hne : w'.startMs ≠ w.startMs)
    (own : ∀ write ∈ writes, ∃ naming, OwnWrite env opts w naming write) (naming : ObjectNaming)
    (seq : Nat) : (applyWrites a writes).objects (ownKey env opts w' naming seq) =
      a.objects (ownKey env opts w' naming seq) := by
  refine applyWrites_objects fun write hwrite body heq => ?_
  obtain ⟨naming', hown⟩ := own write hwrite
  cases hown with
  | data => exact hne (objectKey_injective hw hw' (StoreWrite.object.inj heq).1).1.symm
  | sidecar aside => exact aside _ (StoreWrite.object.inj heq).1.symm
  | manifest => cases heq

/-- The writes of one window lie beside the manifest of another. -/
theorem ownWrites_manifests {writes : List StoreWrite} (hw : 0 ≤ w.startMs ∧ 0 ≤ w.endMs)
    (hw' : 0 ≤ w'.startMs ∧ 0 ≤ w'.endMs) (hne : w'.startMs ≠ w.startMs)
    (own : ∀ write ∈ writes, ∃ naming, OwnWrite env opts w naming write) :
    (applyWrites a writes).manifests (taskKey env opts w') =
      a.manifests (taskKey env opts w') := by
  refine applyWrites_manifests fun write hwrite body heq => ?_
  obtain ⟨naming', hown⟩ := own write hwrite
  cases hown with
  | data => cases heq
  | sidecar => cases heq
  | manifest =>
    obtain ⟨-, -, hstart, -⟩ :=
      manifestKey_inj hw.1 hw.2 hw'.1 hw'.2 (StoreWrite.manifest.inj heq).1
    exact hne hstart.symm

/-- The account of a window does not see the writes of another. -/
theorem StageKept.frame {writes : List StoreWrite} {st : Stage} (hw : 0 ≤ w.startMs)
    (hw' : 0 ≤ w'.startMs) (hne : w'.startMs ≠ w.startMs)
    (own : ∀ write ∈ writes, ∃ naming, OwnWrite env opts w naming write)
    (h : StageKept env opts a w' st) : StageKept env opts (applyWrites a writes) w' st := by
  cases st with
  | queued => trivial
  | closed out => trivial
  | active p =>
    cases p with
    | work wk at_ =>
      obtain ⟨naming, hfor, hkept⟩ := h
      refine ⟨naming, hfor, ?_⟩
      have heq := ownWrites_objects (a := a) hw hw' hne own naming
      cases at_ with
      | pages =>
        intro hdry
        obtain ⟨rs, hrs, hk⟩ := hkept hdry
        exact ⟨rs, hrs, hk.frame fun seq _ => heq seq⟩
      | put chunk stage last =>
        obtain ⟨hdry, hholds, hk, hstage⟩ := hkept
        refine ⟨hdry, hholds, hk.frame fun seq _ => heq seq, hstage.imp_right fun hbody => ?_⟩
        rw [heq, hbody]
      | manifest => exact ⟨hkept.1, hkept.2.frame fun seq _ => heq seq⟩
    | look => trivial
    | lookup => trivial
    | read m rest seen => trivial
    | done out => trivial
    | failed e => trivial

end S4Logs

import S4Logs.Laws.Drain.Task
import Mathlib.Data.List.InsertIdx

/-!
# The steps of a dry run

A dry run takes the awaits of the real run except the PUTs. Where the real run puts a chunk
the dry run has counted it and gone on, and where the real run puts a manifest the dry run is
done. So the state of the dry run is a function of the state of the real one (`Sys.dry`). It
does not see the answers of the PUTs, and every other step of the one is a step of the other
where the two read the same.
-/

namespace S4Logs

variable {env : Env} {opts : DrainOptions} {shards : Option (List (List String))} {w : Window}
variable {a a' a₀ : Archive} {events : List CwEvent}

/-- The options of the dry run. -/
def DrainOptions.dry (opts : DrainOptions) : DrainOptions := { opts with dryRun := true }

/-! ## One window -/

def WindowOutcome.dry (out : WindowOutcome) : WindowOutcome := { out with objectsWritten := 0 }

/-- The writer of the dry run, which lists no objects. -/
def WindowWriter.dry (ww : WindowWriter) : WindowWriter :=
  { ww with objects := [], objectsWritten := 0 }

def Work.dry (wk : Work) : Work := { wk with ww := wk.ww.dry }

/-- Go on after a chunk that is counted and not put. -/
def Work.passed (wk : Work) : Work := { wk with ww := { wk.ww with seq := wk.ww.seq + 1 } }

/-- Where the dry run is while the real run is here. -/
def Phase.dry : Phase → Phase
  | .work wk .pages => .work wk.dry .pages
  | .work wk (.put _ _ last) => if last then .done wk.dry.outcome else .work wk.dry.passed .pages
  | .work wk .manifest => .done wk.dry.outcome
  | .done out => .done out.dry
  | .look => .look
  | .lookup => .lookup
  | .read m rest seen => .read m rest seen
  | .failed e => .failed e

/-- The window waits for the answer of a PUT. -/
def Phase.storing : Phase → Bool
  | .work _ (.put _ _ _) => true
  | .work _ .manifest => true
  | _ => false

theorem Work.resume_dry (wk : Work) (last : Bool) :
    wk.dry.resume opts.dry last = (wk.resume opts last).dry := by
  cases last with
  | false => rfl
  | true =>
    unfold Work.resume
    rw [if_pos rfl, if_pos rfl, if_neg (by exact Bool.false_ne_true)]
    cases wk.needsManifest opts <;> rfl

theorem Work.flush_dry (env : Env) (real : opts.dryRun = false) (wk : Work) (writer : ChunkWriter)
    (last : Bool) : wk.dry.flush env opts.dry writer last =
      (wk.flush env opts writer last).dry := by
  unfold Work.flush WindowWriter.flush
  rcases writer.finish env.lib with e | (_ | chunk)
  · rfl
  · exact Work.resume_dry wk last
  · simp only [real, Bool.false_eq_true, if_false]
    cases last <;> rfl

theorem Work.push_dry (real : opts.dryRun = false) (wk : Work) (ev : CwEvent) :
    wk.dry.push env opts.dry ev = (wk.push env opts ev).dry := by
  unfold Work.push
  have hwriter : wk.dry.ww.writer = wk.ww.writer := rfl
  rw [hwriter]
  rcases wk.ww.writer.push env.lib ev.toRecord with ⟨writer, - | -⟩
  · rfl
  · dsimp only
    by_cases hfull : opts.chunkTargetBytes ≤ writer.uncompressedLen
    · rw [if_pos hfull, if_pos (by exact hfull)]
      exact Work.flush_dry env real { wk with
        pushed := wk.pushed ++ [ev]
        ww := { wk.ww with writer := ChunkWriter.new opts.chunk } } _ false
    · rw [if_neg hfull, if_neg (by exact hfull)]
      rfl

theorem Work.event_dry (real : opts.dryRun = false) (wk : Work) (ev : CwEvent)
    (rest : List CwEvent) :
    wk.dry.event env opts.dry w ev rest = (wk.event env opts w ev rest).dry := by
  unfold Work.event
  dsimp only
  by_cases hin : w.contains ev = false
  · rw [if_pos hin, if_pos hin]
    show Phase.work (if wk.prior.isNone then _ else _) _ = _
    cases wk.prior.isNone <;> rfl
  · rw [if_neg hin, if_neg hin]
    show (if wk.prior.isNone then _ else if ev.seenIn wk.seen then _ else _) = _
    cases wk.prior.isNone with
    | true => exact Work.push_dry real { wk with inbox := rest, arrived := wk.arrived ++ [ev] } ev
    | false =>
      cases ev.seenIn wk.seen with
      | true => rfl
      | false =>
        exact Work.push_dry real { wk with
          inbox := rest
          arrived := wk.arrived ++ [ev]
          cwEvents := wk.cwEvents + 1
          seen := ev.identity :: wk.seen
          appended := wk.appended + 1 } ev

theorem readNext_dry (m : Manifest) (rest : List ManifestObject) (seen : List Nat) :
    readNext opts.dry shards w m rest seen events =
      (readNext opts shards w m rest seen events).dry := by
  unfold readNext
  split
  next =>
    unfold readDone
    cases nextAttempt m with
    | none => rfl
    | some attempt =>
      dsimp only
      split <;> rfl
  next => rfl

/-- Two archives answer the next read of a window alike. -/
def SameRead (env : Env) (opts : DrainOptions) (w : Window) (a a' : Archive) : Phase → Prop
  | .look => a'.manifests (taskKey env opts w) = a.manifests (taskKey env opts w)
  | .lookup => a'.manifests (taskKey env opts w) = a.manifests (taskKey env opts w)
  | .read _ (obj :: _) _ => a'.objects obj.dataKey = a.objects obj.dataKey
  | _ => True

/-- Where the real run does not wait for a PUT the dry run takes the same step. -/
theorem taskStep_dry (real : opts.dryRun = false) {p : Phase} (l : TaskLabel)
    (hreads : SameRead env opts w a a' p) (hstoring : p.storing = false) :
    taskStep env opts.dry shards w a' events p.dry l =
      (taskStep env opts shards w a events p l).map fun r => (r.1.dry, []) := by
  have hkey : taskKey env opts.dry w = taskKey env opts w := rfl
  cases p with
  | look =>
    cases l with
    | get answered =>
      cases answered with
      | false => rfl
      | true =>
        have hread : a'.manifests (taskKey env opts w) = a.manifests (taskKey env opts w) := hreads
        show taskStep env opts.dry shards w a' events .look (.get true) = _
        simp only [taskStep, hkey, hread]
        cases a.manifests (taskKey env opts w) with
        | none => rfl
        | some bytes =>
          dsimp only
          cases Manifest.fromJsonBytes env.serde bytes with
          | error e => rfl
          | ok m =>
            dsimp only
            rw [readNext_dry]
            rfl
    | _ => rfl
  | lookup =>
    cases l with
    | get answered =>
      cases answered with
      | false => rfl
      | true =>
        have hread : a'.manifests (taskKey env opts w) = a.manifests (taskKey env opts w) := hreads
        show taskStep env opts.dry shards w a' events .lookup (.get true) = _
        simp only [taskStep, hkey, hread]
        cases a.manifests (taskKey env opts w) with
        | none => rfl
        | some bytes =>
          show (if manifestCoversWindow env.serde bytes opts.account opts.logGroup w = true
            then _ else _) = Option.map _ (if manifestCoversWindow env.serde bytes opts.account
              opts.logGroup w = true then _ else _)
          split <;> rfl
    | _ => rfl
  | read m rest seen =>
    cases rest with
    | nil => cases l <;> rfl
    | cons obj rest =>
      cases l with
      | readObject answered =>
        cases answered with
        | false => rfl
        | true =>
          have hread : a'.objects obj.dataKey = a.objects obj.dataKey := hreads
          show taskStep env opts.dry shards w a' events (.read m (obj :: rest) seen)
            (.readObject true) = _
          simp only [taskStep, hread]
          cases a.objects obj.dataKey with
          | none => rfl
          | some body =>
            dsimp only
            cases objectIdentities env.lib obj body with
            | error e => rfl
            | ok ids =>
              dsimp only
              rw [readNext_dry]
              rfl
      | _ => rfl
  | work wk at_ =>
    cases at_ with
    | pages =>
      cases l with
      | page i answer =>
        show taskStep env opts.dry shards w a' events (.work wk.dry .pages) (.page i answer) = _
        simp only [taskStep, Work.dry]
        cases wk.inbox with
        | cons ev rest => rfl
        | nil =>
          cases wk.cursors[i]? with
          | none => rfl
          | some c =>
            dsimp only
            cases c.exhausted with
            | true => rfl
            | false => cases answer <;> rfl
      | event =>
        show taskStep env opts.dry shards w a' events (.work wk.dry .pages) .event = _
        simp only [taskStep, show wk.dry.inbox = wk.inbox from rfl]
        cases wk.inbox with
        | nil => rfl
        | cons ev rest =>
          dsimp only
          rw [Work.event_dry real]
          rfl
      | endPages =>
        show taskStep env opts.dry shards w a' events (.work wk.dry .pages) .endPages = _
        simp only [taskStep, show wk.dry.inbox = wk.inbox from rfl,
          show wk.dry.cursors = wk.cursors from rfl]
        split
        next =>
          have hflush := Work.flush_dry env real
            { wk with ww := { wk.ww with writer := ChunkWriter.new opts.chunk } } wk.ww.writer true
          exact congrArg (fun p => some (p, [])) hflush
        next => rfl
      | _ => rfl
    | put chunk stage last => cases hstoring
    | manifest => cases hstoring
  | done out => cases l <;> rfl
  | failed e => cases l <;> rfl

/-! ## The PUTs of one window -/

/-- The label answers a PUT. -/
def TaskLabel.isPut : TaskLabel → Bool
  | .put _ => true
  | .putManifest _ _ => true
  | _ => false

/-- A PUT that is answered is answered well. -/
def TaskLabel.Stores : TaskLabel → Prop
  | .put none => False
  | .putManifest false _ => False
  | _ => True

instance TaskLabel.Stores.decidable : ∀ l : TaskLabel, Decidable l.Stores
  | .put none => .isFalse not_false
  | .put (some _) => .isTrue trivial
  | .putManifest false _ => .isFalse not_false
  | .putManifest true _ => .isTrue trivial
  | .get _ => .isTrue trivial
  | .readObject _ => .isTrue trivial
  | .page _ _ => .isTrue trivial
  | .event => .isTrue trivial
  | .endPages => .isTrue trivial

/-- A window answers a PUT just where it waits for one. -/
theorem isPut_eq_storing {p : Phase} {l : TaskLabel} {r : Phase × List StoreWrite}
    (h : taskStep env opts shards w a events p l = some r) : l.isPut = p.storing := by
  cases p with
  | work wk at_ => cases at_ <;> cases l <;> first | rfl | cases h
  | look => cases l <;> first | rfl | cases h
  | lookup => cases l <;> first | rfl | cases h
  | read m rest seen => cases l <;> first | rfl | (cases rest <;> cases h)
  | done out => cases h
  | failed e => cases h

/-- The dry run does not see a PUT. -/
theorem taskStep_stored {p p' : Phase} {l : TaskLabel} {writes : List StoreWrite}
    (hput : l.isPut = true) (hstores : l.Stores)
    (h : taskStep env opts shards w a events p l = some (p', writes)) : p'.dry = p.dry := by
  have hstoring := (isPut_eq_storing h).symm.trans hput
  cases p with
  | work wk at_ =>
    cases at_ with
    | pages => cases hstoring
    | put chunk stage last =>
      cases l with
      | put answer =>
        cases answer with
        | none => exact absurd hstores not_false
        | some etag =>
          simp only [taskStep] at h
          cases hnext : putNext env.store (wk.ww.location opts) chunk etag stage with
          | inl stage' =>
            simp only [hnext, Option.some.injEq, Prod.mk.injEq] at h
            rw [← h.1]
            rfl
          | inr receipt =>
            simp only [hnext, Option.some.injEq, Prod.mk.injEq] at h
            rw [← h.1, ← Work.resume_dry]
            cases last <;> rfl
      | _ => cases h
    | manifest =>
      cases l with
      | putManifest answered nowMs =>
        cases answered with
        | false => exact absurd hstores not_false
        | true =>
          simp only [taskStep, if_true, Option.some.injEq, Prod.mk.injEq] at h
          rw [← h.1]
          rfl
      | _ => cases h
  | look => cases hstoring
  | lookup => cases hstoring
  | read m rest seen => cases hstoring
  | done out => cases hstoring
  | failed e => cases hstoring

/-- How many PUTs the window may still wait for, one after the other. -/
def Phase.putsLeft : Phase → Nat
  | .work _ (.put _ .data _) => 4
  | .work _ (.put _ (.index _) _) => 3
  | .work _ (.put _ (.tsIndex _) _) => 2
  | .work _ .manifest => 1
  | _ => 0

theorem putsLeft_resume (wk : Work) (last : Bool) : (wk.resume opts last).putsLeft ≤ 1 := by
  unfold Work.resume
  cases last with
  | false => exact Nat.zero_le _
  | true =>
    cases wk.needsManifest opts with
    | false => exact Nat.zero_le _
    | true => exact Nat.le_refl _

/-- A PUT can be answered, and fewer are left. -/
theorem storing_step (env : Env) (opts : DrainOptions) (shards : Option (List (List String)))
    (w : Window) (a : Archive) (events : List CwEvent) {p : Phase} (h : p.storing = true) : ∃ l p' writes, l.isPut = true ∧
    l.Stores ∧ taskStep env opts shards w a events p l = some (p', writes) ∧
    p'.putsLeft < p.putsLeft := by
  cases p with
  | work wk at_ =>
    cases at_ with
    | pages => cases h
    | put chunk stage last =>
      cases stage with
      | data => exact ⟨.put (some none), _, _, rfl, trivial, rfl, Nat.lt_succ_self _⟩
      | index etag => exact ⟨.put (some none), _, _, rfl, trivial, rfl, Nat.lt_succ_self _⟩
      | tsIndex etag =>
        exact ⟨.put (some none), _, _, rfl, trivial, rfl, Nat.lt_succ_of_le (putsLeft_resume _ _)⟩
    | manifest => exact ⟨.putManifest true 0, _, _, rfl, trivial, rfl, Nat.zero_lt_one⟩
  | look => cases h
  | lookup => cases h
  | read m rest seen => cases h
  | done out => cases h
  | failed e => cases h

/-! ## A whole run -/

def dryOutcomes (outs : List (Window × WindowOutcome)) : List (Window × WindowOutcome) :=
  outs.map fun o => (o.1, o.2.dry)

def Task.dry (t : Task) : Task := { t with phase := t.phase.dry }

def Run.dry (run : Run) : Run :=
  { run with
      opts := run.opts.dry
      tasks := run.tasks.map Task.dry
      outcomes := dryOutcomes run.outcomes }

/-- Where the dry run is while the real run is here. `a₀` is what the stores held before. -/
def Sys.dry (a₀ : Archive) (s : Sys) : Sys :=
  { s with
      archive := a₀
      run := s.run.map Run.dry
      last := s.last.map fun last => last.map dryOutcomes }

namespace SysLabel

def isPut : SysLabel → Bool
  | .task _ l => l.isPut
  | _ => false

def Stores : SysLabel → Prop
  | .task _ l => l.Stores
  | _ => True

/-- The label is one of a run that has started. -/
def Within : SysLabel → Prop
  | .start _ _ _ => False
  | _ => True

instance Stores.decidable : ∀ l : SysLabel, Decidable l.Stores
  | .task _ l => inferInstanceAs (Decidable l.Stores)
  | .cloud _ => .isTrue trivial
  | .start _ _ _ => .isTrue trivial
  | .spawn => .isTrue trivial
  | .absorb _ => .isTrue trivial
  | .finish => .isTrue trivial
  | .kill => .isTrue trivial

instance Within.decidable : ∀ l : SysLabel, Decidable l.Within
  | .start _ _ _ => .isFalse not_false
  | .task _ _ => .isTrue trivial
  | .cloud _ => .isTrue trivial
  | .spawn => .isTrue trivial
  | .absorb _ => .isTrue trivial
  | .finish => .isTrue trivial
  | .kill => .isTrue trivial

theorem stores_of_not_isPut {l : SysLabel} (h : l.isPut = false) : l.Stores := by
  cases l with
  | task i l =>
    cases l with
    | put answer => cases h
    | putManifest answered nowMs => cases h
    | _ => trivial
  | _ => trivial

end SysLabel

theorem startRun_dry (kind : JobKind) (pre : Preamble) :
    startRun kind opts.dry pre = (startRun kind opts pre).map Run.dry := by
  unfold startRun
  show (resolveRange opts pre >>= fun range => computeShards opts pre >>= fun shards =>
    (windows range.1 range.2 opts.windowMs).mapError DrainError.window >>= fun wins => _) = _
  cases resolveRange opts pre with
  | error e => rfl
  | ok range =>
    show (computeShards opts pre >>= fun shards =>
      (windows range.1 range.2 opts.windowMs).mapError DrainError.window >>= fun wins => _) =
      Except.map _ (computeShards opts pre >>= fun shards =>
      (windows range.1 range.2 opts.windowMs).mapError DrainError.window >>= fun wins => _)
    cases computeShards opts pre with
    | error e => rfl
    | ok shards =>
      show ((windows range.1 range.2 opts.windowMs).mapError DrainError.window >>= fun wins => _) =
        Except.map _
          ((windows range.1 range.2 opts.windowMs).mapError DrainError.window >>= fun wins => _)
      cases (windows range.1 range.2 opts.windowMs).mapError DrainError.window <;> rfl

/-- The window that a label is about reads the same and waits for no PUT. -/
def Ready (env : Env) (a₀ : Archive) (s : Sys) (i : Nat) : Prop :=
  ∀ run t, s.run = some run → run.tasks[i]? = some t →
    SameRead env run.opts t.window s.archive a₀ t.phase ∧ t.phase.storing = false

/-- A step that takes no PUT is a step of the dry run. -/
theorem sysStep_dry (env : Env) (a₀ : Archive) {s : Sys} {l : SysLabel} (within : l.Within)
    (real : ∀ run, s.run = some run → run.opts.dryRun = false)
    (ready : ∀ i, (∃ l', l = .task i l') ∨ l = .absorb i → Ready env a₀ s i) :
    sysStep env (s.dry a₀) l = (sysStep env s l).map (Sys.dry a₀) := by
  obtain ⟨events, archive, run, last⟩ := s
  cases run with
  | none =>
    cases l with
    | start kind opts pre => exact absurd within not_false
    | _ => rfl
  | some run =>
    have htasks : ∀ i, run.dry.tasks[i]? = (run.tasks[i]?).map Task.dry := fun i => List.getElem?_map
    cases l with
    | cloud events => rfl
    | start kind opts pre => exact absurd within not_false
    | kill => rfl
    | spawn =>
      obtain ⟨kind, opts, shards, wins, queue, tasks, outcomes⟩ := run
      cases queue with
      | nil => rfl
      | cons w queue =>
        simp only [sysStep, Sys.dry, Run.dry, Option.map_some, List.length_map]
        show (if tasks.length < max opts.concurrency 1 then _ else _) = _
        split
        next =>
          have hfirst : kind.first.dry = kind.first := by cases kind <;> rfl
          simp only [Option.map_some, Sys.dry, Run.dry, List.map_append, List.map_cons,
            List.map_nil, Task.dry, hfirst]
        next => rfl
    | task i l =>
      simp only [sysStep, Sys.dry, Option.map_some, htasks]
      cases ht : run.tasks[i]? with
      | none => rfl
      | some t =>
        obtain ⟨hreads, hstoring⟩ := ready i (.inl ⟨l, rfl⟩) run t rfl ht
        have hstep : taskStep env run.opts.dry run.shards t.window a₀ events t.phase.dry l =
            (taskStep env run.opts run.shards t.window archive events t.phase l).map
              fun r => (r.1.dry, []) := taskStep_dry (real run rfl) l hreads hstoring
        simp only [Option.map_some]
        show (taskStep env run.opts.dry run.shards t.window a₀ events t.phase.dry l).map _ = _
        rw [hstep]
        cases taskStep env run.opts run.shards t.window archive events t.phase l with
        | none => rfl
        | some r =>
          simp only [Option.map_some, Sys.dry, Run.dry, List.map_set, Task.dry, applyWrites,
            List.foldl_nil]
    | absorb i =>
      simp only [sysStep, Sys.dry, Option.map_some, htasks]
      cases ht : run.tasks[i]? with
      | none => rfl
      | some t =>
        obtain ⟨-, hstoring⟩ := ready i (.inr rfl) run t rfl ht
        simp only [Option.map_some]
        obtain ⟨w, p⟩ := t
        cases p with
        | done out =>
          simp only [Task.dry, Phase.dry, Option.map_some, Sys.dry, Run.dry, dryOutcomes,
            List.map_append, List.map_cons, List.map_nil, List.eraseIdx_map]
        | work wk at_ =>
          cases at_ with
          | pages => rfl
          | put chunk stage last => cases hstoring
          | manifest => cases hstoring
        | _ => rfl
    | finish =>
      simp only [sysStep, Sys.dry, Option.map_some, Run.dry, List.map_eq_nil_iff]
      split <;> rfl

/-- The dry run does not see a PUT. -/
theorem sysStep_stored {s t : Sys} {l : SysLabel} (hput : l.isPut = true) (hstores : l.Stores)
    (h : sysStep env s l = some t) : t.dry a₀ = s.dry a₀ := by
  cases l with
  | task i l =>
    cases hrun : s.run with
    | none => simp only [sysStep, hrun, reduceCtorEq] at h
    | some run =>
      cases ht : run.tasks[i]? with
      | none => simp only [sysStep, hrun, ht, reduceCtorEq] at h
      | some task =>
        simp only [sysStep, hrun, ht] at h
        obtain ⟨⟨p', writes⟩, hstep, rfl⟩ := Option.map_eq_some_iff.mp h
        have hdry := taskStep_stored hput hstores hstep
        simp only [Sys.dry, hrun, Option.map_some, Run.dry, List.map_set]
        rw [show Task.dry { task with phase := p' } = task.dry by
          simp only [Task.dry, hdry]]
        obtain ⟨hi, rfl⟩ := List.getElem?_eq_some_iff.mp ht
        rw [← List.map_set, List.set_getElem_self]
  | _ => cases hput

/-- A window that waits for PUTs can get them all answered. -/
theorem settle (env : Env) {i : Nat} : ∀ (n : Nat) {s : Sys} {run : Run} {t : Task}, s.run = some run →
    run.tasks[i]? = some t → t.phase.putsLeft ≤ n → ∃ ls s', (∀ l ∈ ls, l.isPut = true ∧ l.Stores ∧
      l.Within) ∧ LTS.exec (sysStep env) s ls = some s' ∧ ∃ run' t', s'.run = some run' ∧
      run'.tasks[i]? = some t' ∧ t'.phase.storing = false := by
  intro n
  induction n with
  | zero =>
    intro s run t hrun ht hleft
    refine ⟨[], s, fun _ h => absurd h List.not_mem_nil, rfl, run, t, hrun, ht, ?_⟩
    by_contra hstoring
    obtain ⟨l, p', writes, -, -, -, hlt⟩ := storing_step env run.opts run.shards t.window
      s.archive s.events (Bool.not_eq_false _ ▸ hstoring)
    omega
  | succ n ih =>
    intro s run t hrun ht hleft
    cases hstoring : t.phase.storing with
    | false => exact ⟨[], s, fun _ h => absurd h List.not_mem_nil, rfl, run, t, hrun, ht, hstoring⟩
    | true =>
      obtain ⟨l, p', writes, hput, hstores, hstep, hlt⟩ := storing_step env run.opts
        run.shards t.window s.archive s.events hstoring
      have hsys : sysStep env s (.task i l) = some { s with
          archive := applyWrites s.archive writes
          run := some { run with tasks := run.tasks.set i { t with phase := p' } } } := by
        simp only [sysStep, hrun, ht, hstep, Option.map_some]
      have hget : (run.tasks.set i { t with phase := p' })[i]? = some { t with phase := p' } := by
        rw [List.getElem?_set_self (List.getElem?_eq_some_iff.mp ht).1]
      obtain ⟨ls, s', hls, hexec, hsettled⟩ := ih (s := { s with
          archive := applyWrites s.archive writes
          run := some { run with tasks := run.tasks.set i { t with phase := p' } } })
        rfl hget (Nat.le_of_lt_succ (Nat.lt_of_lt_of_le hlt hleft))
      refine ⟨.task i l :: ls, s', fun l' hl' => ?_, ?_, hsettled⟩
      · rcases List.mem_cons.mp hl' with rfl | hl'
        · exact ⟨hput, hstores, trivial⟩
        · exact hls l' hl'
      · rw [LTS.exec, hsys, Option.bind_some]
        exact hexec

end S4Logs

import S4Logs.Laws.Drain.Sharded

/-!
# What the gate lets CloudWatch delete

Over an event set that does not change, every manifest that any sequence of runs
has left in the archive names its window, lists objects of that window alone, and
these hold every event of the window (`ManifestOk`). Runs may fail or be killed
at any await: a manifest is written after its objects, a drain overwrites only
objects of a window that has no manifest, and reconcile writes under an attempt
that no listed object has.

So where the gate calls, every event between the coverage start and the cutoff is
archived.
-/

namespace S4Logs

variable {env : Env} {opts : DrainOptions} {shards : Option (List (List String))}
variable {a : Archive} {w w' : Window} {E : List CwEvent}

/-- The objects of one window: each has a key of the window, and an attempt has its
first object among them. -/
def WindowObjects (env : Env) (account logGroup : String) (w : Window)
    (os : List ManifestObject) : Prop :=
  ∀ o ∈ os, ∃ naming seq, naming.Fits ∧
    o.dataKey = objectKey env.store.keyPrefix account logGroup w naming seq ∧
    ∀ attempt, naming = .reconcile attempt → ∃ first ∈ os, first.dataKey =
      objectKey env.store.keyPrefix account logGroup w (.reconcile attempt) 0

/-- The manifest is of this window, and its objects hold the window's events. -/
structure ManifestOf (env : Env) (account logGroup : String) (E : List CwEvent) (a : Archive)
    (w : Window) (m : Manifest) : Prop where
  names : m.names account logGroup w = true
  objects : WindowObjects env account logGroup w m.objects
  complete : ∀ ev ∈ E, w.contains ev = true → Archived env.lib a m ev.toRecord

/-- What lies at the window's key, if anything, is such a manifest. -/
def ManifestOk (env : Env) (account logGroup : String) (E : List CwEvent) (a : Archive)
    (w : Window) : Prop :=
  ∀ bytes, a.manifests (windowKey env.store.keyPrefix account logGroup w) = some bytes →
    ∃ m, Manifest.fromJsonBytes env.serde bytes = .ok m ∧
      ManifestOf env account logGroup E a w m

/-- Only the objects of the window matter. -/
theorem ManifestOf.congr {account logGroup : String} {a' : Archive} {m : Manifest}
    (h : ManifestOf env account logGroup E a w m)
    (heq : ∀ o ∈ m.objects, a'.objects o.dataKey = a.objects o.dataKey) :
    ManifestOf env account logGroup E a' w m where
  names := h.names
  objects := h.objects
  complete ev hev hin := by
    rw [archived_iff, listedRecords_congr heq]
    exact archived_iff.mp (h.complete ev hev hin)

/-- Writes of one window under one naming lie beside its objects of another. -/
theorem ownWrites_beside {naming naming' : ObjectNaming} {writes : List StoreWrite}
    (hw : 0 ≤ w.startMs) (hfit : naming.Fits) (hfit' : naming'.Fits) (hne : naming' ≠ naming)
    (own : ∀ write ∈ writes, OwnWrite env opts w naming write) (seq : Nat) :
    (applyWrites a writes).objects (ownKey env opts w naming' seq) =
      a.objects (ownKey env opts w naming' seq) := by
  refine applyWrites_objects fun write hwrite body heq => ?_
  cases own write hwrite with
  | data =>
    exact hne ((objectKey_injective hw hw (StoreWrite.object.inj heq).1).2 hfit hfit').1.symm
  | sidecar aside => exact aside _ (StoreWrite.object.inj heq).1.symm
  | manifest => cases heq

/-- A fresh attempt is no attempt of a listed object. -/
theorem attempt_fresh {account logGroup : String} {m : Manifest} {attempt attempt' : Nat}
    (hnext : nextAttempt m = some attempt) (hlt : attempt' < 100)
    {first : ManifestObject} (hfirst : first ∈ m.objects)
    (hkey : first.dataKey =
      objectKey env.store.keyPrefix account logGroup w (.reconcile attempt') 0) :
    attempt' < attempt := by
  refine (nextAttempt_spec hnext).2 first hfirst attempt' ?_
  rw [hkey]
  exact attemptOf_first _ _ _ _ hlt

/-! ## One window -/

/-- A window of a run knows what lies at its key. -/
def RetainStage (env : Env) (opts : DrainOptions) (shards : Option (List (List String)))
    (E : List CwEvent) (a : Archive) (w : Window) (st : Stage) : Prop :=
  StageKept env opts a w st ∧
    match st with
    | .active (.read m _ _) => ManifestAt env opts a w (some m)
    | .active (.work wk at_) => ManifestAt env opts a w wk.prior ∧
      Paged shards w (E.filter w.contains) (.work wk at_)
    | _ => True

theorem RetainStage.frame {writes : List StoreWrite} {st : Stage} (hw : 0 ≤ w.startMs ∧ 0 ≤ w.endMs)
    (hw' : 0 ≤ w'.startMs ∧ 0 ≤ w'.endMs) (hne : w'.startMs ≠ w.startMs)
    (own : ∀ write ∈ writes, ∃ naming, OwnWrite env opts w naming write)
    (h : RetainStage env opts shards E a w' st) :
    RetainStage env opts shards E (applyWrites a writes) w' st := by
  refine ⟨h.1.frame hw.1 hw'.1 hne own, ?_⟩
  have hkey := ownWrites_manifests (a := a) hw hw' hne own
  have hat : ∀ prior, ManifestAt env opts a w' prior →
      ManifestAt env opts (applyWrites a writes) w' prior := by
    intro prior hprior
    cases prior with
    | none => exact hkey.trans hprior
    | some m =>
      obtain ⟨bytes, hbytes, hm⟩ := hprior
      exact ⟨bytes, hkey.trans hbytes, hm⟩
  cases st with
  | queued => trivial
  | closed out => trivial
  | active p =>
    cases p with
    | read m rest seen => exact hat _ h.2
    | work wk at_ => exact ⟨hat _ h.2.1, h.2.2⟩
    | look => trivial
    | lookup => trivial
    | done out => trivial
    | failed e => trivial

/-- The manifest of one window does not see the writes of another. -/
theorem ManifestOk.frame {writes : List StoreWrite} (hw : 0 ≤ w.startMs ∧ 0 ≤ w.endMs)
    (hw' : 0 ≤ w'.startMs ∧ 0 ≤ w'.endMs) (hne : w'.startMs ≠ w.startMs)
    (own : ∀ write ∈ writes, ∃ naming, OwnWrite env opts w naming write)
    (h : ManifestOk env opts.account opts.logGroup E a w') :
    ManifestOk env opts.account opts.logGroup E (applyWrites a writes) w' := by
  intro bytes hbytes
  have hkey := ownWrites_manifests (a := a) hw hw' hne own
  obtain ⟨m, hm, hof⟩ := h bytes (hkey.symm.trans hbytes)
  refine ⟨m, hm, hof.congr fun o ho => ?_⟩
  obtain ⟨naming, seq, -, hdata, -⟩ := hof.objects o ho
  rw [hdata]
  exact ownWrites_objects hw.1 hw'.1 hne own naming seq

/-- The manifest a window writes is of the window. -/
theorem manifest_retained {wk : Work} {naming : ObjectNaming}
    (hreads : ∀ ev ∈ E, Reads shards ev) (hfor : NamedFor wk.prior naming)
    (hkept : Kept env opts w naming a.objects wk.ww wk.pushed [])
    (hpaging : Paging shards w (E.filter w.contains) wk) (hend : Ended wk)
    (hprior : ∀ m, wk.prior = some m → ManifestOf env opts.account opts.logGroup E a w m)
    (nowMs : Int) : ManifestOf env opts.account opts.logGroup E a w
      (Work.manifest opts w wk nowMs) := by
  have hkeys : ∀ o ∈ wk.ww.objects, ∃ first ∈ wk.ww.objects,
      first.dataKey = ownKey env opts w naming 0 := by
    intro o ho
    obtain ⟨seq, hseq, -⟩ := hkept.keys o ho
    exact hkept.first (Nat.zero_lt_of_lt hseq)
  cases hp : wk.prior with
  | none =>
    rw [hp] at hfor
    have hobjects : (Work.manifest opts w wk nowMs).objects = wk.ww.objects := by
      simp only [Work.manifest, hp]
    refine ⟨?_, ?_, fun ev hev hin => ?_⟩
    · simp only [Work.manifest, hp, Manifest.names, beq_self_eq_true, Bool.and_self]
    · rw [hobjects]
      intro o ho
      obtain ⟨seq, -, hkey⟩ := hkept.keys o ho
      refine ⟨.base, seq, trivial, ?_, fun _ h => by cases h⟩
      rw [hkey, show naming = .base from hfor]
      rfl
    · rw [archived_iff, hobjects]
      have htotal := hkept.total
      rw [List.append_nil] at htotal
      rw [htotal, hpaging.pushed hp]
      refine List.mem_map_of_mem (hpaging.arrived_of_ended hend ev ?_ (hreads ev hev))
      rw [hpaging.view]
      exact List.mem_filter.mpr ⟨hev, hin⟩
  | some m =>
    rw [hp] at hfor
    obtain ⟨attempt, rfl, hnext, hlt⟩ := hfor
    have hof := hprior m hp
    have hobjects : (Work.manifest opts w wk nowMs).objects = m.objects ++ wk.ww.objects := by
      simp only [Work.manifest, hp]
    refine ⟨?_, ?_, fun ev hev hin => ?_⟩
    · rw [← hof.names]
      simp only [Work.manifest, hp, Manifest.names]
    · rw [hobjects]
      intro o ho
      rcases List.mem_append.mp ho with ho | ho
      · obtain ⟨naming, seq, hfit, hkey, hfirst⟩ := hof.objects o ho
        refine ⟨naming, seq, hfit, hkey, fun attempt' h => ?_⟩
        obtain ⟨first, hmem, hdata⟩ := hfirst attempt' h
        exact ⟨first, List.mem_append_left _ hmem, hdata⟩
      · obtain ⟨seq, -, hkey⟩ := hkept.keys o ho
        refine ⟨.reconcile attempt, seq, hlt, hkey, fun attempt' h => ?_⟩
        cases h
        obtain ⟨first, hmem, hdata⟩ := hkeys o ho
        exact ⟨first, List.mem_append_right _ hmem, hdata⟩
    · rw [archived_iff, hobjects, listedRecords_append]
      exact List.mem_append_left _ (archived_iff.mp (hof.complete ev hev hin))

/-- Until its last step a window writes beside what its manifest lists. -/
theorem manifestOk_beside {prior : Option Manifest} {naming : ObjectNaming}
    {writes : List StoreWrite} (hw : 0 ≤ w.startMs) (hfor : NamedFor prior naming)
    (hat : ManifestAt env opts a w prior)
    (own : ∀ write ∈ writes, OwnWrite env opts w naming write)
    (hsame : (applyWrites a writes).manifests = a.manifests)
    (hok : ManifestOk env opts.account opts.logGroup E a w) :
    ManifestOk env opts.account opts.logGroup E (applyWrites a writes) w := by
  intro bytes hbytes
  rw [hsame] at hbytes
  obtain ⟨m, hm, hof⟩ := hok bytes hbytes
  refine ⟨m, hm, hof.congr fun o ho => ?_⟩
  have hbytes : a.manifests (taskKey env opts w) = some bytes := hbytes
  cases prior with
  | none =>
    have hnone : a.manifests (taskKey env opts w) = none := hat
    rw [hnone] at hbytes
    cases hbytes
  | some m' =>
    obtain ⟨bytes', hbytes', hm'⟩ := hat
    rw [hbytes'] at hbytes
    cases hbytes
    rw [hm] at hm'
    cases hm'
    obtain ⟨attempt, rfl, hnext, hlt⟩ := hfor
    obtain ⟨naming', seq, hfit, hkey, hfirst⟩ := hof.objects o ho
    rw [hkey]
    refine ownWrites_beside hw (show (ObjectNaming.reconcile attempt).Fits from hlt) hfit
      (fun heq => ?_) own seq
    subst heq
    obtain ⟨first, hmem, hdata⟩ := hfirst attempt rfl
    exact absurd (attempt_fresh hnext hlt hmem hdata) (Nat.lt_irrefl _)

theorem work_retained {wk : Work} {at_ : Await} {l : TaskLabel} {p' : Phase}
    {writes : List StoreWrite} (hw : 0 ≤ w.startMs) (hreads : ∀ ev ∈ E, Reads shards ev)
    (move : TaskMove env opts shards w a E (.work wk at_) l p' writes)
    (answers : PageAnswers E w (.work wk at_) l)
    (hok : ManifestOk env opts.account opts.logGroup E a w)
    (h : RetainStage env opts shards E a w (.active (.work wk at_))) :
    RetainStage env opts shards E (applyWrites a writes) w (.active p') ∧
      ManifestOk env opts.account opts.logGroup E (applyWrites a writes) w := by
  obtain ⟨⟨naming, hfor, hkept⟩, hat, hpaged⟩ := h
  have hpaged' := move.paged answers hpaged
  obtain ⟨hown, ⟨hsettled, hsame⟩ | ⟨nowMs, rfl, rfl, rfl⟩⟩ := work_step hw hfor.fits move hkept
  · refine ⟨⟨hsettled.kept hfor, ?_⟩, manifestOk_beside hw hfor hat hown hsame hok⟩
    cases p' with
    | work wk' at_' =>
      refine ⟨?_, hpaged'⟩
      have hat' : ManifestAt env opts (applyWrites a writes) w wk.prior := by
        cases hp : wk.prior with
        | none =>
          rw [hp] at hat
          exact (congrFun hsame _).trans hat
        | some m =>
          rw [hp] at hat
          obtain ⟨bytes, hbytes, hm⟩ := hat
          exact ⟨bytes, (congrFun hsame _).trans hbytes, hm⟩
      rw [hsettled.1]
      exact hat'
    | look => trivial
    | lookup => trivial
    | read m rest seen => exact absurd hsettled not_false
    | done out => trivial
    | failed e => trivial
  · refine ⟨⟨trivial, trivial⟩, fun bytes hbytes => ?_⟩
    have hprior : ∀ m, wk.prior = some m →
        ManifestOf env opts.account opts.logGroup E a w m := by
      intro m hm
      rw [hm] at hat
      obtain ⟨bytes', hbytes', hread⟩ := hat
      obtain ⟨m', hm', hof⟩ := hok bytes' hbytes'
      rw [hread] at hm'
      cases hm'
      exact hof
    have hversion : ∀ m, wk.prior = some m → m.version = manifestVersion := by
      intro m hm
      rw [hm] at hat
      exact hat.version
    have hwritten := manifest_retained hreads hfor hkept.2 hpaged.1 (hpaged.2 rfl) hprior nowMs
    have heq : some ((Work.manifest opts w wk nowMs).toJsonBytes env.serde) = some bytes :=
      (applyWrites_manifest a (taskKey env opts w) _).symm.trans hbytes
    cases heq
    exact ⟨_, (manifest_written _ _ _ wk nowMs hversion).1, hwritten.congr fun o _ => rfl⟩

theorem readNext_retained (m : Manifest) (rest : List ManifestObject) (seen : List Nat)
    (hat : ManifestAt env opts a w (some m)) :
    RetainStage env opts shards E a w (.active (readNext opts shards w m rest seen E)) := by
  refine ⟨readNext_kept _ _ _, ?_⟩
  rcases readNext_spec (w := w) m rest seen
    with h | ⟨e, h⟩ | ⟨attempt, -, -, -, h⟩
  · rw [h]
    exact hat
  · rw [h]
    trivial
  · rw [h]
    exact ⟨hat, .start, fun h => nomatch h⟩

/-- A move keeps what the window knows and what lies at its key. -/
theorem RetainStage.move {kind : JobKind} {st st' : Stage} {writes : List StoreWrite}
    (hw : 0 ≤ w.startMs) (hreads : ∀ ev ∈ E, Reads shards ev)
    (move : StageMove env (PageAnswers E w) kind opts shards w a E st st' writes)
    (hok : ManifestOk env opts.account opts.logGroup E a w)
    (h : RetainStage env opts shards E a w st) :
    RetainStage env opts shards E (applyWrites a writes) w st' ∧
      ManifestOk env opts.account opts.logGroup E (applyWrites a writes) w := by
  cases move with
  | spawn => cases kind <;> exact ⟨⟨trivial, trivial⟩, hok⟩
  | close => exact ⟨⟨trivial, trivial⟩, hok⟩
  | @task p p' l _ answers hstep =>
    have hmove := taskStep_move hstep
    cases p with
    | look =>
      cases hmove with
      | fail => exact ⟨⟨trivial, trivial⟩, hok⟩
      | absent => exact ⟨⟨trivial, trivial⟩, hok⟩
      | found hbytes hm => exact ⟨readNext_retained _ _ _ ⟨_, hbytes, hm⟩, hok⟩
    | lookup =>
      cases hmove with
      | fail => exact ⟨⟨trivial, trivial⟩, hok⟩
      | skip => exact ⟨⟨trivial, trivial⟩, hok⟩
      | begin huncovered =>
        refine ⟨⟨Settled.kept (show NamedFor none .base from rfl) start_settled, ?_, .start, fun h => nomatch h⟩,
          hok⟩
        -- a stored manifest would cover the window
        refine Option.eq_none_iff_forall_ne_some.mpr fun bytes hbytes => ?_
        obtain ⟨m, hm, hof⟩ := hok bytes hbytes
        have hcovers := huncovered bytes hbytes
        rw [manifestCoversWindow_eq hm, hof.names] at hcovers
        cases hcovers
    | read m rest seen =>
      cases hmove with
      | fail => exact ⟨⟨trivial, trivial⟩, hok⟩
      | readObject => exact ⟨readNext_retained _ _ _ h.2, hok⟩
    | work wk at_ => exact work_retained hw hreads hmove answers hok h
    | done out =>
      cases hmove
      exact ⟨⟨trivial, trivial⟩, hok⟩
    | failed e =>
      cases hmove
      exact ⟨⟨trivial, trivial⟩, hok⟩

/-! ## Any sequence of runs -/

/-- What is assumed of runs one after the other: they are of one group and grid, list
all its streams, get pages that obey the law, and the events stay the same. -/
def OneGroup (account logGroup : String) (windowMs : Int) (E : List CwEvent) (s : Sys)
    (l : SysLabel) : Prop :=
  TaskGuard PageAnswers s l ∧
    match l with
    | .cloud events => events = E
    | .start _ opts pre => opts.account = account ∧ opts.logGroup = logGroup ∧
      opts.windowMs = windowMs ∧
      ∀ names ∈ pre.streams, ∀ ev ∈ E, ev.logStreamName ∈ names
    | _ => True

instance OneGroup.decidable (account logGroup : String) (windowMs : Int) (E : List CwEvent)
    (s : Sys) : ∀ l, Decidable (OneGroup account logGroup windowMs E s l)
  | .cloud events => inferInstanceAs (Decidable (_ ∧ events = E))
  | .start _ opts pre => inferInstanceAs (Decidable (_ ∧ opts.account = account ∧
      opts.logGroup = logGroup ∧ opts.windowMs = windowMs ∧
      ∀ names ∈ pre.streams, ∀ ev ∈ E, ev.logStreamName ∈ names))
  | .task i l => inferInstanceAs (Decidable (TaskGuard PageAnswers s (.task i l) ∧ True))
  | .spawn => .isTrue ⟨trivial, trivial⟩
  | .absorb _ => .isTrue ⟨trivial, trivial⟩
  | .finish => .isTrue ⟨trivial, trivial⟩
  | .kill => .isTrue ⟨trivial, trivial⟩

/-- What every state has: all manifests of the grid are sound, and a run under way is
of the group, reads every event and knows its windows. -/
structure Retained (env : Env) (account logGroup : String) (windowMs : Int) (E : List CwEvent)
    (s : Sys) : Prop where
  events : s.events = E
  manifests : ∀ w, GridWindow windowMs w → ManifestOk env account logGroup E s.archive w
  job : ∀ run, s.run = some run → run.opts.account = account ∧ run.opts.logGroup = logGroup ∧
    (∀ w ∈ run.wins, GridWindow windowMs w) ∧ (∀ ev ∈ E, Reads run.shards ev) ∧
    run.Staged fun w st => RetainStage env run.opts run.shards E s.archive w st

theorem computeShards_reads {pre : Preamble} (hshards : computeShards opts pre = .ok shards)
    (hall : ∀ names ∈ pre.streams, ∀ ev ∈ E, ev.logStreamName ∈ names) :
    ∀ ev ∈ E, Reads shards ev := by
  intro ev hev
  cases hnames : pre.streams with
  | some names => exact (reads_listed hshards hnames).1 (hall names hnames ev hev)
  | none =>
    unfold computeShards at hshards
    rw [hnames] at hshards
    split at hshards
    next =>
      cases hshards
      exact reads_unsharded ev
    next => cases hshards

theorem GridWindow.ends {windowMs : Int} {w : Window} (h : GridWindow windowMs w) :
    0 ≤ w.startMs ∧ 0 ≤ w.endMs :=
  ⟨h.2.1, Int.le_trans h.2.1 (Int.le_of_lt h.lt)⟩

/-- No step of any run breaks it. -/
theorem Retained.step {account logGroup : String} {windowMs : Int} {s s' : Sys} {l : SysLabel}
    (h : Retained env account logGroup windowMs E s)
    (hok : OneGroup account logGroup windowMs E s l) (hstep : sysStep env s l = some s') :
    Retained env account logGroup windowMs E s' := by
  obtain ⟨hguard, hlabel⟩ := hok
  cases hrun : s.run with
  | some run =>
    obtain ⟨haccount, hgroup, hgrid, hreads, hstaged⟩ := h.job run hrun
    cases sysStep_move hrun hguard hstep with
    | cloud => exact ⟨hlabel, h.manifests, h.job⟩
    | @window _ run' w st st' writes rest job before after move =>
      have hw : w ∈ run.wins := hstaged.windows.mem_iff.mp
        (List.mem_map_of_mem (before.mem_iff.mpr List.mem_cons_self))
      have hst := hstaged.holds _ (before.mem_iff.mpr List.mem_cons_self)
      have hmanifests : ∀ w, GridWindow windowMs w →
          ManifestOk env run.opts.account run.opts.logGroup E s.archive w := by
        rw [haccount, hgroup]
        exact h.manifests
      rw [h.events] at move
      obtain ⟨hst', hok'⟩ := hst.move (hgrid w hw).2.1 hreads move (hmanifests w (hgrid w hw))
      have hown := (move.kept (hgrid w hw).2.1 hst.1).2
      refine ⟨h.events, fun w' hw' => ?_, fun run'' hrun'' => ?_⟩
      · rw [← haccount, ← hgroup]
        by_cases hne : w'.startMs = w.startMs
        · rw [hw'.ext (hgrid w hw) hne]
          exact hok'
        · exact (hmanifests w' hw').frame (hgrid w hw).ends hw'.ends hne hown
      · cases hrun''
        rw [job.opts, job.shards, job.wins]
        refine ⟨haccount, hgroup, hgrid, hreads, hstaged.move job before after
          (fun _ _ => hst') fun w' st'' _ hw' hne hst'' => ?_⟩
        exact hst''.frame (hgrid w hw).ends (hgrid w' hw').ends hne hown
    | failed => exact ⟨h.events, h.manifests, fun _ hnone => nomatch hnone⟩
    | finish => exact ⟨h.events, h.manifests, fun _ hnone => nomatch hnone⟩
    | kill => exact ⟨h.events, h.manifests, fun _ hnone => nomatch hnone⟩
  | none =>
    cases sysStep_idle hrun hstep with
    | cloud => exact ⟨hlabel, h.manifests, h.job⟩
    | rejected => exact ⟨h.events, h.manifests, fun _ hnone => nomatch hnone⟩
    | started hstart =>
      obtain ⟨rfl, rfl, rfl, hall⟩ := hlabel
      refine ⟨h.events, h.manifests, fun run' hrun' => ?_⟩
      cases hrun'
      obtain ⟨-, hopts, hshards, ⟨lo, hi, htiles⟩, -⟩ := startRun_spec hstart
      exact ⟨by rw [hopts], by rw [hopts], htiles.grid, computeShards_reads hshards hall,
        startRun_staged hstart fun _ _ => ⟨trivial, trivial⟩⟩
    | kill => exact ⟨h.events, h.manifests, fun _ hnone => nomatch hnone⟩

/-- CloudWatch with these events and stores with nothing. -/
def Sys.fresh (E : List CwEvent) : Sys where
  events := E
  archive := { objects := fun _ => none, manifests := fun _ => none }
  run := none
  last := none

theorem retained_fresh {account logGroup : String} {windowMs : Int} :
    Retained env account logGroup windowMs E (.fresh E) where
  events := rfl
  manifests _ _ _ h := nomatch h
  job _ h := nomatch h

/-- After any runs over events that do not change, a call of `PutRetentionPolicy`
means that every event from the coverage start up to the cutoff is in an object that
the manifest of its window lists. -/
theorem retention_expires_only_archived (env : Env) (E : List CwEvent)
    (account logGroup : String) (windowMs : Int) (s : Sys)
    (hreach : LTS.Reaches (sysStep env) (OneGroup account logGroup windowMs E) (.fresh E) s)
    (get : ManifestGet)
    (hget : ∀ key answer, get key = .ok answer → answer = s.archive.manifests key)
    (req : RetentionRequest) (haccount : req.account = account) (hgroup : req.logGroup = logGroup)
    (hwindow : req.windowMs = windowMs) (answer : Except DrainError Unit)
    (hcalled : (enforceRetention env.serde get env.store.keyPrefix req true answer).1 ≠ [])
    (ev : CwEvent) (hev : ev ∈ E) (hfrom : req.coverageFromMs ≤ ev.timestamp)
    (hcutoff : ev.timestamp < req.cutoffMs) :
    ∃ w bytes m, GridWindow windowMs w ∧ w.contains ev = true ∧
      s.archive.manifests (windowKey env.store.keyPrefix account logGroup w) = some bytes ∧
      Manifest.fromJsonBytes env.serde bytes = .ok m ∧ m.names account logGroup w = true ∧
      Archived env.lib s.archive m ev.toRecord := by
  have hs := hreach.invariant retained_fresh fun _ _ _ hI hok hstep => hI.step hok hstep
  obtain ⟨plan, hplan, hallowed⟩ := enforceRetention_called hcalled
  obtain ⟨halign, ws, hi, hle, htiles, hproofs⟩ :=
    planRetention_allowed hplan hallowed (Int.lt_of_le_of_lt hfrom hcutoff)
  obtain ⟨w, hw, hstart, hend⟩ := htiles.covers (Int.le_trans halign hfrom)
    (Int.lt_of_lt_of_le hcutoff hle)
  obtain ⟨bytes, hstored, -⟩ := hproofs w hw
  have hbytes := hget _ _ hstored
  have hgrid := htiles.grid w hw
  have hin : w.contains ev = true := by
    simp only [Window.contains, Bool.and_eq_true, decide_eq_true_eq]
    exact ⟨hstart, hend⟩
  rw [hwindow] at hgrid
  rw [haccount, hgroup] at hbytes
  obtain ⟨m, hm, hof⟩ := hs.manifests w hgrid bytes hbytes.symm
  exact ⟨w, bytes, m, hgrid, hin, hbytes.symm, hm, hof.names, hof.complete ev hev hin⟩

open Concrete in
/-- A day that was drained in shards may expire. -/
theorem retention_expires_only_archived_day : ∃ (s : Sys) (w : Window) (bytes : Bytes)
    (m : Manifest),
    (enforceRetention manifests s.archive.gate "s4logs" (gateRequest 0) true (.ok ())).1 ≠ [] ∧
      GridWindow dayMs w ∧ w.contains (dayEvent "a") = true ∧
      s.archive.manifests (windowKey "s4logs" "123456789012" "/g" w) = some bytes ∧
      Manifest.fromJsonBytes manifests bytes = .ok m ∧ m.names "123456789012" "/g" w = true ∧
      Archived lib s.archive m (dayEvent "a").toRecord := by
  obtain ⟨s, hreach, hcheck⟩ := LTS.replay_spec (by decide +kernel :
    LTS.replay (sysStep jobEnv) (OneGroup "123456789012" "/g" dayMs [dayEvent "a"])
      (.fresh [dayEvent "a"])
      ([.start .drain (jobOptions 2) (preamble ["a", "b"])] ++
        shardedDay [dayEvent "a"] [dayEvent "a"] ++
        [.task 0 (.putManifest true 1), .absorb 0, .finish])
      (fun s => (enforceRetention manifests s.archive.gate "s4logs" (gateRequest 0) true
        (.ok ())).1 != []) = true)
  have hcalled := bne_iff_ne.mp hcheck
  obtain ⟨w, bytes, m, h⟩ := retention_expires_only_archived jobEnv [dayEvent "a"] "123456789012"
    "/g" dayMs s hreach s.archive.gate (fun _ _ h => (Except.ok.inj h).symm) (gateRequest 0) rfl
    rfl rfl (.ok ()) hcalled (dayEvent "a") (List.mem_singleton_self _) (by decide) (by decide)
  exact ⟨s, w, bytes, m, hcalled, h⟩

end S4Logs

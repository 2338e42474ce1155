import S4Logs.Laws.Drain.Retention
import S4Logs.Laws.Drain.Run

/-!
# What a run that returns has covered

A drain skips a window only where its manifest names the window, and ends every
other window with a manifest that does, so after a drain the gate misses nothing.

Reconcile asks less of the manifest it finds: that it decodes. One that names
another account, group or window is taken for the window's own. Its objects are
read, it is updated or left as it is, and in both cases it still names what it
named. So a reconcile that returns has covered its windows exactly where it
found no such manifest.
-/

namespace S4Logs

variable {env : Env} {opts : DrainOptions} {kind : JobKind} {a a₀ : Archive} {w w' : Window}

/-- The gate reads the manifests of the archive. -/
def Archive.gate (a : Archive) : ManifestGet := fun key => .ok (a.manifests key)

/-- The archive has a manifest that proves the window of this job. -/
def Covered (env : Env) (opts : DrainOptions) (a : Archive) (w : Window) : Prop :=
  WindowCovered env.serde a.gate env.store.keyPrefix opts.account opts.logGroup w

/-- The manifest at the window's key decodes and names something else. -/
def Foreign (env : Env) (opts : DrainOptions) (a : Archive) (w : Window) : Prop :=
  ∃ bytes m, a.manifests (taskKey env opts w) = some bytes ∧
    Manifest.fromJsonBytes env.serde bytes = .ok m ∧ m.names opts.account opts.logGroup w = false

/-! ## Manifests -/

theorem fromJsonBytes_version {S : Serde Manifest} {bytes : Bytes} {m : Manifest}
    (h : Manifest.fromJsonBytes S bytes = .ok m) : m.version = manifestVersion := by
  unfold Manifest.fromJsonBytes at h
  split at h
  next => cases h
  next =>
    split at h
    next => cases h
    next hversion =>
      cases h
      exact Decidable.not_not.mp hversion

theorem fromJsonBytes_toJsonBytes {S : Serde Manifest} {m : Manifest}
    (h : m.version = manifestVersion) :
    Manifest.fromJsonBytes S (m.toJsonBytes S) = .ok m := by
  simp only [Manifest.fromJsonBytes, Manifest.toJsonBytes, S.fromSlice_toVec, h, ne_eq,
    not_true_eq_false, if_false]

theorem manifestCoversWindow_eq {S : Serde Manifest} {bytes : Bytes} {m : Manifest}
    (h : Manifest.fromJsonBytes S bytes = .ok m) (account logGroup : String) :
    manifestCoversWindow S bytes account logGroup w = m.names account logGroup w := by
  simp only [manifestCoversWindow, h]

/-- A stored manifest that decodes covers the window where it names it. -/
theorem covered_iff {bytes : Bytes} {m : Manifest}
    (hbytes : a.manifests (taskKey env opts w) = some bytes)
    (hm : Manifest.fromJsonBytes env.serde bytes = .ok m) :
    Covered env opts a w ↔ m.names opts.account opts.logGroup w = true := by
  rw [← manifestCoversWindow_eq hm]
  constructor
  · rintro ⟨bytes', hget, hcovers⟩
    have heq : a.manifests (taskKey env opts w) = some bytes' := Except.ok.inj hget
    rw [hbytes] at heq
    cases heq
    exact hcovers
  · exact fun hcovers => ⟨bytes, congrArg Except.ok hbytes, hcovers⟩

theorem foreign_iff {bytes : Bytes} {m : Manifest}
    (hbytes : a.manifests (taskKey env opts w) = some bytes)
    (hm : Manifest.fromJsonBytes env.serde bytes = .ok m) :
    Foreign env opts a w ↔ m.names opts.account opts.logGroup w = false := by
  constructor
  · rintro ⟨bytes', m', hbytes', hm', hnames⟩
    rw [hbytes] at hbytes'
    cases hbytes'
    rw [hm] at hm'
    cases hm'
    exact hnames
  · exact fun hnames => ⟨bytes, m, hbytes, hm, hnames⟩

theorem not_foreign_of_absent (h : a.manifests (taskKey env opts w) = none) :
    ¬ Foreign env opts a w := by
  rintro ⟨bytes, m, hbytes, -⟩
  rw [h] at hbytes
  cases hbytes

/-- The manifest a window ends with decodes, and names the window, or whatever the
manifest before it named. -/
theorem manifest_written (env : Env) (opts : DrainOptions) (w : Window) (wk : Work) (nowMs : Int)
    (hprior : ∀ m, wk.prior = some m → m.version = manifestVersion) :
    Manifest.fromJsonBytes env.serde ((Work.manifest opts w wk nowMs).toJsonBytes env.serde) =
        .ok (Work.manifest opts w wk nowMs) ∧
      (Work.manifest opts w wk nowMs).names opts.account opts.logGroup w =
        wk.prior.elim true fun m => m.names opts.account opts.logGroup w := by
  cases hp : wk.prior with
  | none =>
    refine ⟨fromJsonBytes_toJsonBytes ?_, ?_⟩
    · simp only [Work.manifest, hp]
    · simp only [Work.manifest, hp, Manifest.names, beq_self_eq_true, Bool.and_self,
        Option.elim_none]
  | some m =>
    refine ⟨fromJsonBytes_toJsonBytes ?_, ?_⟩
    · simp only [Work.manifest, hp]
      exact hprior m hp
    · simp only [Work.manifest, hp, Manifest.names, Option.elim_some]

/-! ## One window -/

/-- What lies at the window's key is this manifest, or nothing. -/
def ManifestAt (env : Env) (opts : DrainOptions) (a : Archive) (w : Window) :
    Option Manifest → Prop
  | none => a.manifests (taskKey env opts w) = none
  | some m => ∃ bytes, a.manifests (taskKey env opts w) = some bytes ∧
    Manifest.fromJsonBytes env.serde bytes = .ok m

theorem ManifestAt.version {m : Manifest} (h : ManifestAt env opts a w (some m)) :
    m.version = manifestVersion := by
  obtain ⟨bytes, -, hm⟩ := h
  exact fromJsonBytes_version hm

/-- Until it is done a window leaves its key as it found it, which is what its job
has read there; then it is covered or was foreign. -/
def CoverStage (env : Env) (opts : DrainOptions) (kind : JobKind) (a₀ a : Archive) (w : Window) :
    Stage → Prop
  | .queued => a.manifests (taskKey env opts w) = a₀.manifests (taskKey env opts w)
  | .active .look =>
    a.manifests (taskKey env opts w) = a₀.manifests (taskKey env opts w) ∧ kind = .reconcile
  | .active .lookup => a.manifests (taskKey env opts w) = a₀.manifests (taskKey env opts w) ∧
    (kind = .drain ∨ ManifestAt env opts a₀ w none)
  | .active (.read m _ _) => a.manifests (taskKey env opts w) = a₀.manifests (taskKey env opts w) ∧
    kind = .reconcile ∧ ManifestAt env opts a₀ w (some m)
  | .active (.work wk _) => a.manifests (taskKey env opts w) = a₀.manifests (taskKey env opts w) ∧
    (kind = .drain ∧ wk.prior = none ∨ kind = .reconcile ∧ ManifestAt env opts a₀ w wk.prior)
  | .active (.failed _) => True
  | .active (.done _) => Covered env opts a w ↔ kind = .drain ∨ ¬ Foreign env opts a₀ w
  | .closed _ => Covered env opts a w ↔ kind = .drain ∨ ¬ Foreign env opts a₀ w

/-- Only what lies at the window's key matters. -/
theorem CoverStage.congr {a' : Archive} {st : Stage}
    (heq : a'.manifests (taskKey env opts w) = a.manifests (taskKey env opts w))
    (h : CoverStage env opts kind a₀ a w st) : CoverStage env opts kind a₀ a' w st := by
  have hcovered : Covered env opts a' w ↔ Covered env opts a w := by
    unfold Covered WindowCovered Archive.gate
    rw [show a'.manifests (windowKey env.store.keyPrefix opts.account opts.logGroup w) = _ from heq]
    rfl
  cases st with
  | queued => exact heq.trans h
  | closed out => exact hcovered.trans h
  | active p =>
    cases p with
    | look => exact ⟨heq.trans h.1, h.2⟩
    | lookup => exact ⟨heq.trans h.1, h.2⟩
    | read m rest seen => exact ⟨heq.trans h.1, h.2⟩
    | work wk at_ => exact ⟨heq.trans h.1, h.2⟩
    | done out => exact hcovered.trans h
    | failed e => trivial

/-- A manifest that reconcile found and left alone covers the window unless it is foreign. -/
theorem covered_of_found {m : Manifest}
    (heq : a.manifests (taskKey env opts w) = a₀.manifests (taskKey env opts w))
    (hat : ManifestAt env opts a₀ w (some m)) :
    Covered env opts a w ↔ ¬ Foreign env opts a₀ w := by
  obtain ⟨bytes, hbytes, hm⟩ := hat
  rw [covered_iff (heq.trans hbytes) hm, foreign_iff hbytes hm, Bool.not_eq_false]

theorem readNext_cover {shards : Option (List (List String))} {events : List CwEvent}
    {m : Manifest} (rest : List ManifestObject) (seen : List Nat)
    (heq : a.manifests (taskKey env opts w) = a₀.manifests (taskKey env opts w))
    (hkind : kind = .reconcile) (hat : ManifestAt env opts a₀ w (some m)) :
    CoverStage env opts kind a₀ a w (.active (readNext opts shards w m rest seen events)) := by
  rcases readNext_spec (w := w) m rest seen
    with h | ⟨e, h⟩ | ⟨attempt, -, -, -, h⟩
  · rw [h]
    exact ⟨heq, hkind, hat⟩
  · rw [h]
    trivial
  · rw [h]
    exact ⟨heq, .inr ⟨hkind, hat⟩⟩

/-- A paging window that ends has covered its window, or left a manifest as it was. -/
theorem work_cover {shards : Option (List (List String))} {events : List CwEvent} {wk : Work}
    {at_ : Await} {l : TaskLabel} {p' : Phase} {writes : List StoreWrite}
    (hdry : opts.dryRun = false) (hw : 0 ≤ w.startMs)
    (move : TaskMove env opts shards w a events (.work wk at_) l p' writes)
    (hkept : StageKept env opts a w (.active (.work wk at_)))
    (h : CoverStage env opts kind a₀ a w (.active (.work wk at_))) :
    CoverStage env opts kind a₀ (applyWrites a writes) w (.active p') := by
  obtain ⟨naming, hfor, hkept⟩ := hkept
  obtain ⟨heq, hjob⟩ := h
  obtain ⟨-, ⟨hsettled, hsame⟩ | ⟨nowMs, rfl, rfl, rfl⟩⟩ := work_step hw hfor.fits move hkept
  · have heq' : (applyWrites a writes).manifests (taskKey env opts w) =
        a₀.manifests (taskKey env opts w) := by rw [hsame, heq]
    cases p' with
    | work wk' at_' =>
      obtain ⟨hprior, -⟩ := hsettled
      refine ⟨heq', ?_⟩
      rw [hprior]
      exact hjob
    | done out =>
      obtain ⟨m, hm⟩ := Option.ne_none_iff_exists'.mp (hsettled hdry)
      rcases hjob with ⟨-, hnone⟩ | ⟨rfl, hat⟩
      · rw [hm] at hnone
        cases hnone
      · rw [hm] at hat
        refine (covered_of_found heq' hat).trans ⟨.inr, fun h => h.resolve_left JobKind.noConfusion⟩
    | failed e => trivial
    | look => exact absurd hsettled not_false
    | lookup => exact absurd hsettled not_false
    | read m rest seen => exact absurd hsettled not_false
  · -- the window's last step: its own manifest, or the one it found with more objects
    have hwritten := applyWrites_manifest a (taskKey env opts w)
      ((Work.manifest opts w wk nowMs).toJsonBytes env.serde)
    have hversion : ∀ m, wk.prior = some m → m.version = manifestVersion := by
      intro m hm
      rcases hjob with ⟨-, hnone⟩ | ⟨-, hat⟩
      · rw [hm] at hnone
        cases hnone
      · rw [hm] at hat
        exact hat.version
    obtain ⟨hread, hnames⟩ := manifest_written _ _ w wk nowMs hversion
    refine (covered_iff hwritten hread).trans ?_
    rw [hnames]
    cases hp : wk.prior with
    | none =>
      refine ⟨fun _ => ?_, fun _ => rfl⟩
      rcases hjob with ⟨hkind, -⟩ | ⟨-, hat⟩
      · exact .inl hkind
      · rw [hp] at hat
        exact .inr (not_foreign_of_absent hat)
    | some m =>
      rcases hjob with ⟨-, hnone⟩ | ⟨rfl, hat⟩
      · rw [hp] at hnone
        cases hnone
      · rw [hp] at hat
        obtain ⟨bytes, hbytes, hm⟩ := hat
        rw [foreign_iff hbytes hm, Bool.not_eq_false]
        exact ⟨.inr, fun h => h.resolve_left JobKind.noConfusion⟩

theorem CoverStage.move {shards : Option (List (List String))} {events : List CwEvent}
    {guard : Phase → TaskLabel → Prop} {st st' : Stage} {writes : List StoreWrite}
    (hdry : opts.dryRun = false) (hw : 0 ≤ w.startMs)
    (move : StageMove env guard kind opts shards w a events st st' writes)
    (hkept : StageKept env opts a w st) (h : CoverStage env opts kind a₀ a w st) :
    CoverStage env opts kind a₀ (applyWrites a writes) w st' := by
  cases move with
  | spawn =>
    cases kind with
    | drain => exact ⟨h, .inl rfl⟩
    | reconcile => exact ⟨h, rfl⟩
  | close => exact h
  | @task p p' l _ hguard hstep =>
    have hmove := taskStep_move hstep
    cases p with
    | look =>
      obtain ⟨heq, hkind⟩ := h
      cases hmove with
      | fail => trivial
      | absent hnone => exact ⟨heq, .inr (heq.symm.trans hnone)⟩
      | found hbytes hm => exact readNext_cover _ _ heq hkind ⟨_, heq.symm.trans hbytes, hm⟩
    | lookup =>
      obtain ⟨heq, hjob⟩ := h
      cases hmove with
      | fail => trivial
      | skip hbytes hcovers =>
        exact ⟨fun _ => hjob.imp_right not_foreign_of_absent,
          fun _ => ⟨_, congrArg Except.ok hbytes, hcovers⟩⟩
      | begin =>
        refine ⟨heq, ?_⟩
        cases kind with
        | drain => exact .inl ⟨rfl, rfl⟩
        | reconcile => exact .inr ⟨rfl, hjob.resolve_left JobKind.noConfusion⟩
    | read m rest seen =>
      obtain ⟨heq, hkind, hat⟩ := h
      cases hmove with
      | fail => trivial
      | readObject => exact readNext_cover _ _ heq hkind hat
    | work wk at_ => exact work_cover hdry hw hmove hkept h
    | done out =>
      cases hmove
      trivial
    | failed e =>
      cases hmove
      trivial

/-! ## A whole run -/

theorem cover_invariant {run : Run} (hdry : run.opts.dryRun = false)
    (hgrid : ∀ w ∈ run.wins, GridWindow run.opts.windowMs w) (a₀ : Archive) :
    RunInvariant env (fun _ _ _ _ => True) (fun _ _ => True) run fun a _ w st =>
      StageKept env run.opts a w st ∧ CoverStage env run.opts run.kind a₀ a w st where
  own hw move h := by
    have hstart := (hgrid _ hw).2.1
    exact ⟨(move.kept hstart h.1).1, h.2.move hdry hstart move h.1⟩
  others hw hw' hne move h h' := by
    have hs := hgrid _ hw
    have hs' := hgrid _ hw'
    have hown := (move.kept hs.2.1 h.1).2
    refine ⟨h'.1.frame hs.2.1 hs'.2.1 hne hown, h'.2.congr ?_⟩
    exact ownWrites_manifests ⟨hs.2.1, Int.le_trans hs.2.1 (Int.le_of_lt hs.lt)⟩
      ⟨hs'.2.1, Int.le_trans hs'.2.1 (Int.le_of_lt hs'.lt)⟩ hne hown
  cloud _ h := h

/-- A run that is no dry run and returns well has covered a window just where it drained
it, or found no manifest that names something else. -/
theorem window_covered_iff {pre : Preamble} {fromMs toMs : Int} {wins : List Window}
    {s s₁ t : Sys} {outs : List (Window × WindowOutcome)} (hdry : opts.dryRun = false)
    (hrange : resolveRange opts pre = .ok (fromMs, toMs))
    (hwins : windows fromMs toMs opts.windowMs = .ok wins)
    (hstart : sysStep env s (.start kind opts pre) = some s₁)
    (hrun : LTS.Reaches (sysStep env) (InRun (fun _ _ _ _ => True) fun _ _ => True) s₁ t)
    (hreturned : t.last = some (.ok outs)) (hw : w ∈ wins) :
    Covered env opts t.archive w ↔ kind = .drain ∨ ¬ Foreign env opts s.archive w := by
  obtain ⟨hi, htiles⟩ := windows_tiles hwins
  obtain ⟨run, rfl, rfl, rfl, hs₁⟩ := start_holds (P := fun a _ w st =>
      StageKept env opts a w st ∧ CoverStage env opts kind s.archive a w st)
    hrange hwins hstart fun _ _ => ⟨trivial, rfl⟩
  have ht := (cover_invariant hdry htiles.grid s.archive).reaches hs₁ hrun
  obtain ⟨out, -, hcover⟩ := ht.returned hreturned w hw
  exact hcover

/-- A run that is no dry run and returns well has covered its windows just where it
drained, or found no manifest that names something else. -/
theorem covered_after_run (env : Env) (kind : JobKind) (opts : DrainOptions) (pre : Preamble)
    (fromMs toMs : Int) (wins : List Window) (s s₁ t : Sys) (outs : List (Window × WindowOutcome))
    (hdry : opts.dryRun = false) (hrange : resolveRange opts pre = .ok (fromMs, toMs))
    (hwins : windows fromMs toMs opts.windowMs = .ok wins)
    (hstart : sysStep env s (.start kind opts pre) = some s₁)
    (hrun : LTS.Reaches (sysStep env) (InRun (fun _ _ _ _ => True) fun _ _ => True) s₁ t)
    (hreturned : t.last = some (.ok outs)) :
    (∀ w ∈ wins, Covered env opts t.archive w) ↔
      kind = .drain ∨ ∀ w ∈ wins, ¬ Foreign env opts s.archive w := by
  have key : ∀ w ∈ wins, Covered env opts t.archive w ↔
      kind = .drain ∨ ¬ Foreign env opts s.archive w := fun w hw =>
    window_covered_iff hdry hrange hwins hstart hrun hreturned hw
  constructor
  · intro h
    by_cases hkind : kind = .drain
    · exact .inl hkind
    · exact .inr fun w hw => ((key w hw).mp (h w hw)).resolve_left hkind
  · exact fun h w hw => (key w hw).mpr (h.imp_right fun h => h w hw)

namespace Concrete

/-- A manifest of the first day of another account. -/
def otherManifest : Manifest where
  version := manifestVersion
  account := "999999999999"
  logGroup := "/g"
  windowStartMs := 0
  windowEndMs := dayMs
  objects := []
  recordCount := 0
  completedAtMs := 0
  drainVersion := drainVersion
  reconciledAtMs := none
  reconciledAdded := none

/-- That manifest at the key of the first day. -/
def misplaced : Sys :=
  system [] [(windowKey "s4logs" "123456789012" "/g" ⟨0, dayMs⟩,
    otherManifest.toJsonBytes manifests)]

/-- A reconcile of one window: read, paged and closed. -/
def reconcileDay : List SysLabel :=
  [.spawn, .task 0 (.get true), .task 0 (.page 0 (some ⟨[], none⟩)), .task 0 .endPages, .absorb 0,
    .finish]

/-- A drain of one window. -/
def drainDay : List SysLabel :=
  [.spawn, .task 0 (.get true), .task 0 (.page 0 (some ⟨[], none⟩)), .task 0 .endPages,
    .task 0 (.putManifest true 1), .absorb 0, .finish]

end Concrete

open Concrete in
/-- A drain covers a day whose key holds the manifest of another account. -/
theorem covered_after_run_drain_day : ∃ t : Sys,
    t.returnedWith (windowKey "s4logs" "123456789012" "/g" ⟨0, dayMs⟩)
        (some (({ otherManifest with account := "123456789012", completedAtMs := 1 } :
          Manifest).toJsonBytes manifests)) = true ∧
      ∀ w ∈ [(⟨0, dayMs⟩ : Window)], Covered jobEnv (jobOptions 1) t.archive w := by
  obtain ⟨s₁, t, hs₁, hrun, hcheck⟩ := replays_spec (by decide +kernel :
    replays jobEnv (fun _ _ _ _ => True) (fun _ _ => True) misplaced
      (.start .drain (jobOptions 1) (preamble [])) drainDay
      (Sys.returnedWith (windowKey "s4logs" "123456789012" "/g" ⟨0, dayMs⟩)
        (some (({ otherManifest with account := "123456789012", completedAtMs := 1 } :
          Manifest).toJsonBytes manifests))) = true)
  obtain ⟨⟨outs, hlast⟩, -⟩ := Sys.returnedWith_spec hcheck
  exact ⟨t, hcheck, (covered_after_run jobEnv .drain (jobOptions 1) (preamble []) 0 dayMs
    [⟨0, dayMs⟩] misplaced s₁ t outs rfl rfl (by decide +kernel) hs₁ hrun hlast).mpr (.inl rfl)⟩

open Concrete in
/-- A reconcile over the misplaced manifest returns well, and the gate still misses
the window. -/
theorem reconcile_leaves_misplaced :
    ¬ ∀ (env : Env) (kind : JobKind) (opts : DrainOptions) (pre : Preamble) (fromMs toMs : Int)
      (wins : List Window) (s s₁ t : Sys) (outs : List (Window × WindowOutcome)),
      opts.dryRun = false → resolveRange opts pre = .ok (fromMs, toMs) →
      windows fromMs toMs opts.windowMs = .ok wins →
      sysStep env s (.start kind opts pre) = some s₁ →
      LTS.Reaches (sysStep env) (InRun (fun _ _ _ _ => True) fun _ _ => True) s₁ t →
      t.last = some (.ok outs) → ∀ w ∈ wins, Covered env opts t.archive w := by
  intro h
  obtain ⟨s₁, t, hs₁, hrun, hcheck⟩ := replays_spec (by decide +kernel :
    replays jobEnv (fun _ _ _ _ => True) (fun _ _ => True) misplaced
      (.start .reconcile (jobOptions 1) (preamble [])) reconcileDay
      (Sys.returnedWith (windowKey "s4logs" "123456789012" "/g" ⟨0, dayMs⟩)
        (some (otherManifest.toJsonBytes manifests))) = true)
  obtain ⟨⟨outs, hlast⟩, hread⟩ := Sys.returnedWith_spec hcheck
  obtain ⟨bytes, hget, hcovers⟩ := h jobEnv .reconcile (jobOptions 1) (preamble []) 0 dayMs
    [⟨0, dayMs⟩] misplaced s₁ t outs rfl rfl (by decide +kernel) hs₁ hrun hlast ⟨0, dayMs⟩
    List.mem_cons_self
  cases hread.symm.trans (Except.ok.inj hget)
  exact absurd hcovers (by decide +kernel)

end S4Logs

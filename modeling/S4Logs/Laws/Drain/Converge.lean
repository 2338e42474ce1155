import S4Logs.Laws.Drain.Integrity
import S4Logs.Laws.Drain.Fidelity
import S4Logs.Laws.Drain.Laid
import S4Logs.Laws.Drain.Quiet

/-!
# Drains of fixed contents converge

Whatever runs of one drain have come to, and whatever they were broken off at, the
archive holds nothing but what is laid out for their windows, and each manifest is
of a window all of whose pieces are stored (`Converging`). A run that returns has a
manifest for every window, so the archive then is a function of the contents up to
the times of completion. A later run inside that range finds its windows covered.
-/

namespace S4Logs

variable {env : Env} {opts : DrainOptions} {w w' : Window} {a a' : Archive} {events : List CwEvent}
variable {C : FixedCloud} {wins : List Window} {pre : Preamble} {s t : Sys} {nowMs : Int}

/-! ## What an archive may hold -/

/-- These are all pieces of the window, in order. -/
structure PiecesOf (env : Env) (opts : DrainOptions) (C : FixedCloud) (w : Window)
    (pieces : List Piece) : Prop where
  groups : pieces.map Piece.records = rotated env.lib opts.chunkTargetBytes (C.records w)
  piece : ∀ (i : Nat) (p : Piece), pieces[i]? = some p → PieceOf env opts C w i p

/-- The pieces of a window are known beforehand. -/
theorem PiecesOf.unique {pieces pieces' : List Piece} (h : PiecesOf env opts C w pieces)
    (h' : PiecesOf env opts C w pieces') : pieces = pieces' := by
  have hlen : pieces.length = pieces'.length := by
    have hgroups := congrArg List.length (h.groups.trans h'.groups.symm)
    rwa [List.length_map, List.length_map] at hgroups
  apply List.ext_getElem hlen
  intro i hi hi'
  exact (h.piece i _ (List.getElem?_eq_getElem hi)).unique
    (h'.piece i _ (List.getElem?_eq_getElem hi'))

/-- A piece that can go into a slot of the window is one of its pieces. -/
theorem PiecesOf.getElem? {pieces : List Piece} {i : Nat} {p : Piece}
    (h : PiecesOf env opts C w pieces) (hp : PieceOf env opts C w i p) : pieces[i]? = some p := by
  have hgroup := hp.group
  rw [← h.groups, List.getElem?_map] at hgroup
  obtain ⟨p', hp', -⟩ := Option.map_eq_some_iff.mp hgroup
  rw [hp', (h.piece i p' hp').unique hp]

/-- The manifest of a drained window. -/
def drainManifest (env : Env) (opts : DrainOptions) (w : Window) (pieces : List Piece)
    (nowMs : Int) : Manifest :=
  let objects := pieces.mapIdx fun i p =>
    p.entry env ((Slot.of opts w .base i).location opts.logGroup)
  { version := manifestVersion
    account := opts.account
    logGroup := opts.logGroup
    windowStartMs := w.startMs
    windowEndMs := w.endMs
    objects := objects
    recordCount := (objects.map ManifestObject.recordCount).sum
    completedAtMs := nowMs
    drainVersion := drainVersion
    reconciledAtMs := none
    reconciledAdded := none }

/-- All pieces of the window are stored. -/
structure AllStored (env : Env) (opts : DrainOptions) (C : FixedCloud) (w : Window)
    (objects : String → Option Bytes) (pieces : List Piece) : Prop where
  known : PiecesOf env opts C w pieces
  stored : ∀ (i : Nat) (p : Piece), pieces[i]? = some p →
    p.StoredAt env objects ((Slot.of opts w .base i).location opts.logGroup)

/-- The archive holds what is laid out for these windows, and manifests of windows that
are archived. -/
structure Converging (env : Env) (opts : DrainOptions) (C : FixedCloud) (wins : List Window)
    (a : Archive) : Prop where
  objects : ∀ key body, a.objects key = some body → ∃ w ∈ wins, Laid env opts C w key body
  manifests : ∀ key bytes, a.manifests key = some bytes → ∃ w ∈ wins, ∃ pieces nowMs,
    key = taskKey env opts w ∧ AllStored env opts C w a.objects pieces ∧
    bytes = (drainManifest env opts w pieces nowMs).toJsonBytes env.serde

theorem Converging.empty : Converging env opts C wins Archive.empty where
  objects _ _ h := by cases h
  manifests _ _ h := by cases h

/-- To put what is laid out changes no other window, and nothing that was put before. -/
theorem Converging.put {key : String} {body : Bytes}
    (grid : ∀ w ∈ wins, GridWindow opts.windowMs w) (h : Converging env opts C wins a)
    (hw : w ∈ wins) (hlaid : Laid env opts C w key body) :
    Converging env opts C wins (applyWrites a [.object key body]) where
  objects := by
    intro key' body' hbody
    by_cases hkey : key' = key
    · subst hkey
      rw [applyWrites_object] at hbody
      obtain rfl := Option.some.inj hbody
      exact ⟨w, hw, hlaid⟩
    · rw [applyWrites_object_ne _ _ hkey] at hbody
      exact h.objects key' body' hbody
  manifests := by
    intro key' bytes hbytes
    obtain ⟨w', hw', pieces, nowMs, hkey', ⟨hpieces, hstored⟩, heq⟩ := h.manifests key' bytes hbytes
    refine ⟨w', hw', pieces, nowMs, hkey', ⟨hpieces, fun i p hp => ?_⟩, heq⟩
    rw [Piece.storedAt_iff]
    intro key'' body'' hput
    by_cases hkey : key'' = key
    · subst hkey
      rw [applyWrites_object]
      have hlaid' : Laid env opts C w' key'' body'' := ⟨i, p, hpieces.piece i p hp, hput⟩
      exact congrArg some (hlaid.functional (grid w hw) (grid w' hw') hlaid')
    · rw [applyWrites_object_ne _ _ hkey]
      exact Piece.storedAt_iff.mp (hstored i p hp) key'' body'' hput

/-- The manifest of a window that is archived can be written. -/
theorem Converging.manifest {pieces : List Piece} (h : Converging env opts C wins a) (hw : w ∈ wins)
    (hsettled : AllStored env opts C w a.objects pieces) (nowMs : Int) :
    Converging env opts C wins (applyWrites a [.manifest (taskKey env opts w)
      ((drainManifest env opts w pieces nowMs).toJsonBytes env.serde)]) where
  objects := h.objects
  manifests := by
    intro key bytes hbytes
    by_cases hkey : key = taskKey env opts w
    · subst hkey
      rw [applyWrites_manifest] at hbytes
      exact ⟨w, hw, pieces, nowMs, rfl, hsettled, (Option.some.inj hbytes).symm⟩
    · have hold : (applyWrites a [.manifest (taskKey env opts w)
          ((drainManifest env opts w pieces nowMs).toJsonBytes env.serde)]).manifests key =
          a.manifests key := if_neg hkey
      rw [hold] at hbytes
      exact h.manifests key bytes hbytes

/-- A window that has filed everything is archived with the manifest it ends with. -/
theorem Finished.allStored {objects : String → Option Bytes} {wk : Work}
    (h : Finished env C.law opts w .base objects wk) (hseq : Sequenced C w wk) (nowMs : Int) :
    ∃ pieces, AllStored env opts C w objects pieces ∧
      Work.manifest opts w wk nowMs = drainManifest env opts w pieces nowMs := by
  obtain ⟨hend, pieces, hfiled, hgroups, -⟩ := h
  rw [hseq.ended hend] at hgroups
  refine ⟨pieces, ⟨⟨hgroups, fun i p hp => ⟨?_, ?_, ?_⟩⟩, hfiled.stored⟩, ?_⟩
  · rw [← hgroups, List.getElem?_map, hp]
    rfl
  · exact hfiled.encoded p (List.mem_of_getElem? hp)
  · exact hfiled.tagged p (List.mem_of_getElem? hp)
  · simp only [Work.manifest, hseq.prior, hfiled.listed, drainManifest]

/-! ## One window of a drain -/

/-- A window of a drain of the contents. -/
def LaidStage (env : Env) (opts : DrainOptions) (C : FixedCloud) (a : Archive) (w : Window) :
    Stage → Prop
  | .active (.work wk at_) => Sequenced C w wk ∧
    WorkFiled env C.law opts w .base a.objects wk at_
  | .active .look => False
  | .active (.read _ _ _) => False
  | .active .lookup => True
  | .active (.done _) => True
  | .active (.failed _) => True
  | .queued => True
  | .closed _ => True

/-- What a window of a drain writes, unless it runs dry: an object that is laid out for
it, or its manifest. -/
def DrainWrites (env : Env) (opts : DrainOptions) (C : FixedCloud) (a : Archive) (w : Window)
    (writes : List StoreWrite) : Prop :=
  writes = [] ∨ opts.dryRun = false ∧
    ((∃ key body, writes = [.object key body] ∧ Laid env opts C w key body) ∨
      ∃ pieces nowMs, AllStored env opts C w a.objects pieces ∧ writes =
        [.manifest (taskKey env opts w)
          ((drainManifest env opts w pieces nowMs).toJsonBytes env.serde)])

/-- A task of a drain writes what is laid out. -/
theorem TaskMove.drainWrites {wk : Work} {at_ : Await} {l : TaskLabel} {p' : Phase}
    {writes : List StoreWrite} (move : TaskMove env opts none w a events (.work wk at_) l p' writes)
    (hseq : Sequenced C w wk) (h : WorkFiled env C.law opts w .base a.objects wk at_) :
    DrainWrites env opts C a w writes := by
  cases move with
  | fail => exact .inl rfl
  | page => exact .inl rfl
  | event => exact .inl rfl
  | endPages => exact .inl rfl
  | putNext => exact .inr ⟨h.1, .inl ⟨_, _, rfl, h.laid hseq⟩⟩
  | putDone => exact .inr ⟨h.1, .inl ⟨_, _, rfl, h.laid hseq⟩⟩
  | @putManifest _ nowMs =>
    obtain ⟨pieces, hsettled, hmanifest⟩ := h.2.allStored hseq nowMs
    exact .inr ⟨(needsManifest_iff.mp h.1).1, .inr ⟨pieces, nowMs, hsettled, by rw [hmanifest]⟩⟩

/-- A move of a window of a drain keeps its account and writes what is laid out. -/
theorem StageMove.drained {st st' : Stage} {writes : List StoreWrite}
    (move : StageMove env (C.Answers w) .drain opts none w a events st st' writes)
    (h : LaidStage env opts C a w st) :
    LaidStage env opts C (applyWrites a writes) w st' ∧ DrainWrites env opts C a w writes := by
  cases move with
  | spawn => exact ⟨trivial, .inl rfl⟩
  | close => exact ⟨trivial, .inl rfl⟩
  | @task p p' l _ answers hstep =>
    have hmove := taskStep_move hstep
    cases p with
    | look => exact h.elim
    | read m rest seen => exact h.elim
    | lookup =>
      cases hmove with
      | fail => exact ⟨trivial, .inl rfl⟩
      | skip => exact ⟨trivial, .inl rfl⟩
      | begin => exact ⟨⟨.start C w events, fun _ => ⟨[], [], Filed.new, rfl, rfl, rfl⟩⟩, .inl rfl⟩
    | work wk at_ =>
      obtain ⟨hseq, hfiled⟩ := h
      refine ⟨?_, hmove.drainWrites hseq hfiled⟩
      rcases work_filed (sequenced_rule C w) answers.1 answers.2 hmove hseq hfiled with
        ⟨-, hphase⟩ | ⟨nowMs, -, -, rfl, rfl⟩
      · cases p' with
        | work wk' at_' => exact ⟨hphase.2.1, hphase.2.2⟩
        | done out => trivial
        | failed e => trivial
        | look => exact hphase.elim
        | lookup => trivial
        | read m rest seen => exact hphase.elim
      · trivial
    | done out =>
      rw [taskStep_ended (.inl ⟨out, rfl⟩)] at hstep
      cases hstep
    | failed e =>
      rw [taskStep_ended (.inr ⟨e, rfl⟩)] at hstep
      cases hstep

/-- The other windows of the drain do not see what the window writes. -/
theorem DrainWrites.others {writes : List StoreWrite} {st : Stage}
    (hw : GridWindow opts.windowMs w) (hw' : GridWindow opts.windowMs w') (hne : w' ≠ w)
    (h : DrainWrites env opts C a w writes) (hst : LaidStage env opts C a w' st) :
    LaidStage env opts C (applyWrites a writes) w' st := by
  have hkept : SlotsKept env opts w' a.objects (applyWrites a writes).objects := by
    intro naming hfit seq key' hkey'
    rcases h with rfl | ⟨-, ⟨key, body, rfl, i, p, -, hput⟩ | ⟨pieces, nowMs, -, rfl⟩⟩
    · rfl
    · apply applyWrites_object_ne
      rintro rfl
      have hin : (Slot.of opts w .base i).In fun _ w => GridWindow opts.windowMs w := ⟨hw, trivial⟩
      have hslot : Slot.of opts w .base i ≠ Slot.of opts w' naming seq := fun heq =>
        hne (congrArg Slot.window heq).symm
      exact Slot.keys_apart (GridWindow.apart opts.windowMs) hin ⟨hw', hfit⟩ hslot
        (Piece.key_of_puts hput) hkey'
    · rfl
  cases st with
  | queued => trivial
  | closed out => trivial
  | active p =>
    cases p with
    | work wk at_ => exact ⟨hst.1, hst.2.beside (show ObjectNaming.Fits .base from trivial) hkept⟩
    | look => exact hst.elim
    | read m rest seen => exact hst.elim
    | lookup => trivial
    | done out => trivial
    | failed e => trivial

theorem DrainWrites.converging {writes : List StoreWrite}
    (grid : ∀ w ∈ wins, GridWindow opts.windowMs w) (h : Converging env opts C wins a)
    (hw : w ∈ wins) (hwrites : DrainWrites env opts C a w writes) :
    Converging env opts C wins (applyWrites a writes) := by
  rcases hwrites with rfl | ⟨-, ⟨key, body, rfl, hlaid⟩ | ⟨pieces, nowMs, hsettled, rfl⟩⟩
  · exact h
  · exact h.put grid hw hlaid
  · exact h.manifest hw hsettled nowMs

/-! ## Runs of one drain -/

/-- Runs of one drain, at most as late as the last one: the same options up to the
concurrency, of the same contents. -/
def SameDrain (C : FixedCloud) (opts : DrainOptions) (pre : Preamble) (s : Sys) (l : SysLabel) :
    Prop :=
  TaskGuard (fun _ => C.Answers) s l ∧
    match l with
    | .start kind opts' pre' => kind = .drain ∧ opts' = { opts with concurrency := opts'.concurrency } ∧
      pre'.creationTimeMs = pre.creationTimeMs ∧ pre'.nowMs ≤ pre.nowMs
    | _ => True

/-- An earlier resolution of a range begins where a later one does and ends no later. -/
theorem resolveRange_le {pre' : Preamble} {fromMs toMs fromMs' toMs' : Int} {concurrency : Nat}
    (h : resolveRange opts pre = .ok (fromMs, toMs))
    (h' : resolveRange { opts with concurrency := concurrency } pre' = .ok (fromMs', toMs'))
    (hcreation : pre'.creationTimeMs = pre.creationTimeMs) (hnow : pre'.nowMs ≤ pre.nowMs) :
    fromMs' = fromMs ∧ toMs' ≤ toMs := by
  have hsat : saturatingSub pre'.nowMs opts.nowCutoffMs ≤ saturatingSub pre.nowMs opts.nowCutoffMs := by
    simp only [saturatingSub]
    omega
  unfold resolveRange at h h'
  dsimp only at h'
  rw [hcreation] at h'
  split at h
  next => cases h
  next htarget =>
    rw [if_neg htarget] at h'
    cases hfrom : opts.fromMs with
    | some f =>
      simp only [hfrom, bind, Except.bind, Except.ok.injEq, Prod.mk.injEq] at h h'
      obtain ⟨rfl, rfl⟩ := h
      obtain ⟨rfl, rfl⟩ := h'
      cases opts.toMs with
      | some t => exact ⟨rfl, le_refl _⟩
      | none => exact ⟨rfl, hsat⟩
    | none =>
      cases hcreated : pre.creationTimeMs with
      | none => simp only [hfrom, hcreated, bind, Except.bind, reduceCtorEq] at h
      | some created =>
        simp only [hfrom, hcreated, bind, Except.bind, Except.ok.injEq, Prod.mk.injEq] at h h'
        obtain ⟨rfl, rfl⟩ := h
        obtain ⟨rfl, rfl⟩ := h'
        cases opts.toMs with
        | some t => exact ⟨rfl, le_refl _⟩
        | none => exact ⟨rfl, hsat⟩

/-- A run that started has a range. -/
theorem startRun_range {kind : JobKind} {run : Run} (h : startRun kind opts pre = .ok run) :
    ∃ range, resolveRange opts pre = .ok range := by
  cases hrange : resolveRange opts pre with
  | ok range => exact ⟨range, rfl⟩
  | error e => simp only [startRun, hrange, bind, Except.bind, reduceCtorEq] at h

/-- The archive and the run under way, if there is one. -/
structure SysConverging (env : Env) (opts : DrainOptions) (C : FixedCloud) (wins : List Window)
    (s : Sys) : Prop where
  archive : Converging env opts C wins s.archive
  dry : opts.dryRun = true → s.archive = Archive.empty
  run : ∀ run, s.run = some run → run.kind = .drain ∧
    (∃ concurrency, run.opts = { opts with concurrency := concurrency }) ∧ run.shards = none ∧
    (∀ w ∈ run.wins, w ∈ wins) ∧ run.Staged (LaidStage env run.opts C s.archive)

/-- What is laid out does not depend on the concurrency. -/
theorem DrainWrites.congr {concurrency : Nat} {writes : List StoreWrite}
    (h : DrainWrites env { opts with concurrency := concurrency } C a w writes) :
    DrainWrites env opts C a w writes := by
  rcases h with rfl | ⟨hdry, ⟨key, body, rfl, i, p, ⟨hgroup, hencoded, hetag⟩, hput⟩ |
    ⟨pieces, nowMs, ⟨⟨hgroups, hpiece⟩, hstored⟩, rfl⟩⟩
  · exact .inl rfl
  · exact .inr ⟨hdry, .inl ⟨key, body, rfl, i, p, ⟨hgroup, hencoded, hetag⟩, hput⟩⟩
  · refine .inr ⟨hdry, .inr ⟨pieces, nowMs, ⟨⟨hgroups, fun i p hp => ?_⟩, hstored⟩, rfl⟩⟩
    obtain ⟨hgroup, hencoded, hetag⟩ := hpiece i p hp
    exact ⟨hgroup, hencoded, hetag⟩

theorem DrainWrites.dry {writes : List StoreWrite} (h : DrainWrites env opts C a w writes)
    (hdry : opts.dryRun = true) : writes = [] := by
  rcases h with rfl | ⟨hwet, -⟩
  · rfl
  · rw [hdry] at hwet
    cases hwet

theorem SysConverging.step {l : SysLabel} {fromMs toMs : Int} (hone : opts.shardStreams ≤ 1)
    (hrange : resolveRange opts pre = .ok (fromMs, toMs))
    (hwins : windows fromMs toMs opts.windowMs = .ok wins)
    (h : SysConverging env opts C wins s) (hjob : SameDrain C opts pre s l)
    (hstep : sysStep env s l = some t) : SysConverging env opts C wins t := by
  have grid : ∀ w ∈ wins, GridWindow opts.windowMs w := fun w hw => ((mem_windows_iff hwins).mp hw).1
  cases hrun : s.run with
  | some run =>
    obtain ⟨hkind, ⟨concurrency, hopts⟩, hshards, hsub, hstaged⟩ := h.run run hrun
    cases sysStep_move hrun hjob.1 hstep with
    | cloud => exact ⟨h.archive, h.dry, h.run⟩
    | @window _ run' w st st' writes rest job before after move =>
      have hmem : (w, st) ∈ run.stages := before.mem_iff.mpr List.mem_cons_self
      have hw : w ∈ run.wins := hstaged.windows.mem_iff.mp (List.mem_map_of_mem hmem)
      rw [hkind, hshards] at move
      obtain ⟨hheld, hwrites⟩ := move.drained (hstaged.holds _ hmem)
      have hwindowMs : run.opts.windowMs = opts.windowMs := by rw [hopts]
      have hlaid : DrainWrites env opts C s.archive w writes := by
        rw [hopts] at hwrites
        exact hwrites.congr
      refine ⟨hlaid.converging grid h.archive (hsub w hw), fun hdry => ?_, fun run'' hrun'' => ?_⟩
      · rw [hlaid.dry hdry]
        exact h.dry hdry
      obtain rfl := Option.some.inj hrun''
      rw [job.kind, job.opts, job.shards, job.wins]
      refine ⟨hkind, ⟨concurrency, hopts⟩, hshards, hsub, ?_⟩
      refine hstaged.move job before after (fun _ _ => hheld) fun w' st'' _ hw' hne h' => ?_
      exact hwrites.others (hwindowMs ▸ grid w (hsub w hw)) (hwindowMs ▸ grid w' (hsub w' hw'))
        (fun heq => hne (by rw [heq])) h'
    | failed => exact ⟨h.archive, h.dry, fun run' hrun' => by cases hrun'⟩
    | finish => exact ⟨h.archive, h.dry, fun run' hrun' => by cases hrun'⟩
    | kill => exact ⟨h.archive, h.dry, fun run' hrun' => by cases hrun'⟩
  | none =>
    cases sysStep_idle hrun hstep with
    | cloud => exact ⟨h.archive, h.dry, h.run⟩
    | rejected => exact ⟨h.archive, h.dry, fun run' hrun' => by cases hrun'⟩
    | @started _ opts' pre' run hok =>
      obtain ⟨-, rfl, hopts, hcreation, hnow⟩ := hjob
      refine ⟨h.archive, h.dry, fun run' hrun' => ?_⟩
      obtain rfl := Option.some.inj hrun'
      obtain ⟨hkind, hrunopts, hshards, -, -, hwindows⟩ := startRun_spec hok
      obtain ⟨⟨fromMs', toMs'⟩, hrange'⟩ := startRun_range hok
      have hwins' := hwindows fromMs' toMs' hrange'
      rw [hopts] at hrange' hwins'
      obtain ⟨rfl, hto⟩ := resolveRange_le hrange hrange' hcreation hnow
      have hunsharded : opts'.shardStreams ≤ 1 := by
        rw [hopts]
        exact hone
      rw [computeShards, if_pos hunsharded] at hshards
      refine ⟨hkind, ⟨opts'.concurrency, hrunopts.trans hopts⟩, (Except.ok.inj hshards).symm,
        windows_subset hwins hwins' (le_refl _) hto, ?_⟩
      exact startRun_staged hok fun w _ => trivial
    | kill => exact ⟨h.archive, h.dry, fun run' hrun' => by cases hrun'⟩

/-! ## Drains that have returned -/

/-- Some runs of a drain from empty stores, each broken off anywhere, and one that has
returned. -/
structure Drained (env : Env) (C : FixedCloud) (opts : DrainOptions) (pre : Preamble) (t : Sys) :
    Prop where
  runs : ∃ s₀ u v : Sys, ∃ concurrency : Nat, s₀.run = none ∧ s₀.archive = Archive.empty ∧
    LTS.Reaches (sysStep env) (SameDrain C opts pre) s₀ u ∧
    sysStep env u (.start .drain { opts with concurrency := concurrency } pre) = some v ∧
    LTS.Reaches (sysStep env) (InRun (fun _ => C.Answers) fun _ _ => True) v t
  returned : ∃ outs, t.last = some (.ok outs)

/-- A permitted label of one run is a label of one run. -/
theorem InRun.any {guard : List CwEvent → Window → Phase → TaskLabel → Prop}
    {cloud : List CwEvent → List CwEvent → Prop} {l : SysLabel} (h : InRun guard cloud s l) :
    InRun (fun _ _ _ _ => True) (fun _ _ => True) s l := by
  cases l with
  | cloud events => exact ⟨trivial, trivial⟩
  | start kind opts pre => exact h.2.elim
  | task i l => exact ⟨fun _ _ _ _ => trivial, trivial⟩
  | spawn => exact ⟨trivial, trivial⟩
  | absorb i => exact ⟨trivial, trivial⟩
  | finish => exact ⟨trivial, trivial⟩
  | kill => exact ⟨trivial, trivial⟩

/-- A step of the last run is one of the drain. -/
theorem InRun.sameDrain {l : SysLabel} (h : InRun (fun _ => C.Answers) (fun _ _ => True) s l) :
    SameDrain C opts pre s l := by
  refine ⟨h.1, ?_⟩
  cases l with
  | start kind opts pre => exact h.2.elim
  | _ => trivial

/-- After a drain that returned the archive holds what is laid out, and a manifest of
every window, unless the drain ran dry and left nothing. -/
theorem Drained.converging {fromMs toMs : Int} (hone : opts.shardStreams ≤ 1)
    (hrange : resolveRange opts pre = .ok (fromMs, toMs))
    (hwins : windows fromMs toMs opts.windowMs = .ok wins) (h : Drained env C opts pre t) :
    Converging env opts C wins t.archive ∧ (opts.dryRun = true → t.archive = Archive.empty) ∧
      (opts.dryRun = false → ∀ w ∈ wins, Covered env opts t.archive w) := by
  obtain ⟨⟨s₀, u, v, concurrency, hidle, hempty, hfirst, hstart, hlast⟩, outs, hreturned⟩ := h
  have hbegin : SysConverging env opts C wins s₀ := by
    refine ⟨hempty ▸ .empty, fun _ => hempty, fun run hrun => ?_⟩
    rw [hidle] at hrun
    cases hrun
  have hjob : SameDrain C opts pre u
      (.start .drain { opts with concurrency := concurrency } pre) :=
    ⟨trivial, rfl, rfl, rfl, le_refl _⟩
  have hu := hfirst.invariant hbegin fun _ _ _ hI hok hstep => hI.step hone hrange hwins hok hstep
  have hv := hu.step hone hrange hwins hjob hstart
  have ht := hlast.invariant hv fun _ _ _ hI hok hstep =>
    hI.step hone hrange hwins hok.sameDrain hstep
  refine ⟨ht.archive, ht.dry, fun hdry w hw => ?_⟩
  have hlast' := hlast.mono fun _ _ hok => hok.any
  have hdry' : DrainOptions.dryRun { opts with concurrency := concurrency } = false := hdry
  exact (window_covered_iff hdry' hrange hwins hstart hlast' hreturned hw).mpr (.inl rfl)

/-- Two archives hold the same objects, and the same manifests up to the time of
completion. -/
structure SameStore (env : Env) (a a' : Archive) : Prop where
  objects : ∀ key, a.objects key = a'.objects key
  manifests : ∀ key,
    (a.manifests key).map (fun bytes => (Manifest.fromJsonBytes env.serde bytes).map
      fun m => { m with completedAtMs := 0 }) =
    (a'.manifests key).map fun bytes => (Manifest.fromJsonBytes env.serde bytes).map
      fun m => { m with completedAtMs := 0 }

theorem Covered.manifest (h : Covered env opts a w) :
    ∃ bytes, a.manifests (taskKey env opts w) = some bytes := by
  obtain ⟨bytes, hbytes, -⟩ := h
  exact ⟨bytes, Except.ok.inj hbytes⟩

/-- The manifest at the key of a window is the one of its pieces, which are stored. -/
theorem Converging.at_key (grid : ∀ w ∈ wins, GridWindow opts.windowMs w)
    (h : Converging env opts C wins a) (hw : w ∈ wins) {bytes : Bytes}
    (hbytes : a.manifests (taskKey env opts w) = some bytes) :
    ∃ pieces nowMs, AllStored env opts C w a.objects pieces ∧
      bytes = (drainManifest env opts w pieces nowMs).toJsonBytes env.serde := by
  obtain ⟨w', hw', pieces, nowMs, hkey, hstored, heq⟩ := h.manifests _ bytes hbytes
  obtain ⟨-, rfl⟩ := windowKey_injective (grid w hw).nonneg (grid w' hw').nonneg hkey
  exact ⟨pieces, nowMs, hstored, heq⟩

/-- What one archive holds another one holds that has all its manifests. -/
theorem Converging.objects_le (grid : ∀ w ∈ wins, GridWindow opts.windowMs w)
    (h : Converging env opts C wins a) (h' : Converging env opts C wins a')
    (hall : ∀ w ∈ wins, Covered env opts a' w) {key : String} {body : Bytes}
    (hbody : a.objects key = some body) : a'.objects key = some body := by
  obtain ⟨w, hw, i, p, hp, hput⟩ := h.objects key body hbody
  obtain ⟨bytes, hbytes⟩ := (hall w hw).manifest
  obtain ⟨pieces, -, hstored, -⟩ := h'.at_key grid hw hbytes
  exact Piece.storedAt_iff.mp (hstored.stored i p (hstored.known.getElem? hp)) key body hput

theorem Converging.manifests_le (grid : ∀ w ∈ wins, GridWindow opts.windowMs w)
    (h : Converging env opts C wins a) (h' : Converging env opts C wins a')
    (hall : ∀ w ∈ wins, Covered env opts a' w) {key : String} {bytes : Bytes}
    (hbytes : a.manifests key = some bytes) : ∃ bytes', a'.manifests key = some bytes' ∧
      (Manifest.fromJsonBytes env.serde bytes).map (fun m => { m with completedAtMs := 0 }) =
        (Manifest.fromJsonBytes env.serde bytes').map fun m => { m with completedAtMs := 0 } := by
  obtain ⟨w, hw, pieces, nowMs, rfl, hstored, rfl⟩ := h.manifests key bytes hbytes
  obtain ⟨bytes', hbytes'⟩ := (hall w hw).manifest
  obtain ⟨pieces', nowMs', hstored', rfl⟩ := h'.at_key grid hw hbytes'
  obtain rfl := hstored.known.unique hstored'.known
  refine ⟨_, hbytes', ?_⟩
  rw [fromJsonBytes_toJsonBytes rfl, fromJsonBytes_toJsonBytes rfl]
  rfl

/-- Two archives with all the manifests are the same store. -/
theorem Converging.sameStore (grid : ∀ w ∈ wins, GridWindow opts.windowMs w)
    (h : Converging env opts C wins a) (hall : ∀ w ∈ wins, Covered env opts a w)
    (h' : Converging env opts C wins a') (hall' : ∀ w ∈ wins, Covered env opts a' w) :
    SameStore env a a' where
  objects := by
    intro key
    cases hbody : a.objects key with
    | some body => exact (h.objects_le grid h' hall' hbody).symm
    | none =>
      cases hbody' : a'.objects key with
      | none => rfl
      | some body =>
        rw [h'.objects_le grid h hall hbody'] at hbody
        cases hbody
  manifests := by
    intro key
    cases hbytes : a.manifests key with
    | some bytes =>
      obtain ⟨bytes', hbytes', heq⟩ := h.manifests_le grid h' hall' hbytes
      rw [hbytes', Option.map_some, Option.map_some, heq]
    | none =>
      cases hbytes' : a'.manifests key with
      | none => rfl
      | some bytes' =>
        obtain ⟨bytes, hsome, -⟩ := h'.manifests_le grid h hall hbytes'
        rw [hbytes] at hsome
        cases hsome

/-! ## Convergence -/

/-- A later job inside the range: of the same group and account, on the same grid, and
dry where the drain was. -/
structure Within (opts : DrainOptions) (fromMs toMs : Int) (opts₂ : DrainOptions)
    (pre₂ : Preamble) : Prop where
  account : opts₂.account = opts.account
  logGroup : opts₂.logGroup = opts.logGroup
  windowMs : opts₂.windowMs = opts.windowMs
  dryRun : opts.dryRun = true → opts₂.dryRun = true
  range : ∃ from₂ to₂, resolveRange opts₂ pre₂ = .ok (from₂, to₂) ∧ fromMs ≤ from₂ ∧ to₂ ≤ toMs

/-- A later drain of windows that are covered writes nothing and skips them all. -/
theorem Within.skips {fromMs toMs : Int} {opts₂ : DrainOptions} {pre₂ : Preamble} {u r : Sys}
    (h : Within opts fromMs toMs opts₂ pre₂)
    (hwins : windows fromMs toMs opts.windowMs = .ok wins)
    (hcovered : ∀ w ∈ wins, Covered env opts t.archive w)
    (hstart : sysStep env t (.start .drain opts₂ pre₂) = some u)
    (hreach : LTS.Reaches (sysStep env) (InRun (fun _ _ _ _ => True) fun _ _ => True) u r) :
    r.archive = t.archive ∧ ∀ outs, r.last = some (.ok outs) → ∃ run,
      startRun .drain opts₂ pre₂ = .ok run ∧ (outs.map Prod.fst).Perm run.wins ∧
      ∀ o ∈ outs, o.2 = .skip := by
  have hquiet : ∀ run, startRun .drain opts₂ pre₂ = .ok run → ∃ P, Quiet env t.archive run P ∧
      ∀ (w : Window) out, P w (.closed out) → out = .skip := by
    intro run hok
    obtain ⟨hkind, hopts, -, -, -, hwindows⟩ := startRun_spec hok
    obtain ⟨from₂, to₂, hrange, hfrom, hto⟩ := h.range
    have hwins₂ := hwindows from₂ to₂ hrange
    rw [h.windowMs] at hwins₂
    refine ⟨fun _ => SkipStage, covered_quiet hkind fun w hw => ?_, fun _ _ hout => hout⟩
    rw [hopts, Covered, h.account, h.logGroup]
    exact hcovered w (windows_subset hwins hwins₂ hfrom hto w hw)
  exact Quiet.reaches (Q := fun _ out => out = .skip) hquiet hstart hreach

/-- A later drain that runs dry writes nothing. -/
theorem dry_writes_nothing {opts₂ : DrainOptions} {pre₂ : Preamble} {u r : Sys}
    (hdry : opts₂.dryRun = true) (hstart : sysStep env t (.start .drain opts₂ pre₂) = some u)
    (hreach : LTS.Reaches (sysStep env) (InRun (fun _ _ _ _ => True) fun _ _ => True) u r) :
    r.archive = t.archive := by
  have hquiet : ∀ run, startRun .drain opts₂ pre₂ = .ok run → ∃ P, Quiet env t.archive run P ∧
      ∀ (w : Window) (out : WindowOutcome), P w (.closed out) → True := by
    intro run hok
    obtain ⟨-, hopts, -, ⟨lo, hi, htiles⟩, -, -⟩ := startRun_spec hok
    rw [← hopts] at hdry htiles
    exact ⟨_, dry_quiet hdry htiles.grid t.archive, fun _ _ _ => trivial⟩
  exact (Quiet.reaches hquiet hstart hreach).1

/-- Drains of one range that have returned, whatever runs they took, leave the same
store, and a later drain inside the range writes nothing and skips every window, unless
the drains ran dry. -/
theorem drain_converges (env : Env) (C : FixedCloud) (opts : DrainOptions) (pre pre' : Preamble)
    (fromMs toMs : Int) (wins : List Window) (t t' : Sys) (hone : opts.shardStreams ≤ 1)
    (hrange : resolveRange opts pre = .ok (fromMs, toMs))
    (hrange' : resolveRange opts pre' = .ok (fromMs, toMs))
    (hwins : windows fromMs toMs opts.windowMs = .ok wins)
    (h : Drained env C opts pre t) (h' : Drained env C opts pre' t') :
    SameStore env t.archive t'.archive ∧
      ∀ (opts₂ : DrainOptions) (pre₂ : Preamble) (u r : Sys), Within opts fromMs toMs opts₂ pre₂ →
        sysStep env t (.start .drain opts₂ pre₂) = some u →
        LTS.Reaches (sysStep env) (InRun (fun _ _ _ _ => True) fun _ _ => True) u r →
        r.archive = t.archive ∧ (opts.dryRun = false → ∀ outs, r.last = some (.ok outs) →
          ∃ run, startRun .drain opts₂ pre₂ = .ok run ∧ (outs.map Prod.fst).Perm run.wins ∧
            ∀ o ∈ outs, o.2 = .skip) := by
  have grid : ∀ w ∈ wins, GridWindow opts.windowMs w := fun w hw => ((mem_windows_iff hwins).mp hw).1
  obtain ⟨hconv, hempty, hcovered⟩ := h.converging hone hrange hwins
  obtain ⟨hconv', hempty', hcovered'⟩ := h'.converging hone hrange' hwins
  constructor
  · by_cases hdry : opts.dryRun = true
    · rw [hempty hdry, hempty' hdry]
      exact ⟨fun _ => rfl, fun _ => rfl⟩
    · have hwet := Bool.not_eq_true _ ▸ hdry
      exact hconv.sameStore grid (hcovered hwet) hconv' (hcovered' hwet)
  · intro opts₂ pre₂ u r hwithin hstart hreach
    by_cases hdry : opts.dryRun = true
    · refine ⟨dry_writes_nothing (hwithin.dryRun hdry) hstart hreach, fun hwet => ?_⟩
      rw [hdry] at hwet
      cases hwet
    · have hwet := Bool.not_eq_true _ ▸ hdry
      obtain ⟨harchive, hskips⟩ := hwithin.skips hwins (hcovered hwet) hstart hreach
      exact ⟨harchive, fun _ => hskips⟩

instance SameDrain.decidable (C : FixedCloud) (opts : DrainOptions) (pre : Preamble) (s : Sys) :
    ∀ l, Decidable (SameDrain C opts pre s l)
  | .start kind opts' pre' => inferInstanceAs (Decidable (TaskGuard (fun _ => C.Answers) s
      (.start kind opts' pre') ∧ kind = .drain ∧
      opts' = { opts with concurrency := opts'.concurrency } ∧
      pre'.creationTimeMs = pre.creationTimeMs ∧ pre'.nowMs ≤ pre.nowMs))
  | .task i l => inferInstanceAs (Decidable (TaskGuard (fun _ => C.Answers) s (.task i l) ∧ True))
  | .cloud _ => .isTrue ⟨trivial, trivial⟩
  | .spawn => .isTrue ⟨trivial, trivial⟩
  | .absorb _ => .isTrue ⟨trivial, trivial⟩
  | .finish => .isTrue ⟨trivial, trivial⟩
  | .kill => .isTrue ⟨trivial, trivial⟩

/-- The last run returned well. -/
def Sys.returned (t : Sys) : Bool :=
  match t.last with
  | some (.ok _) => true
  | _ => false

theorem Sys.returned_spec (h : t.returned = true) : ∃ outs, t.last = some (.ok outs) := by
  unfold Sys.returned at h
  split at h
  next outs hok => exact ⟨outs, hok⟩
  next => cases h

namespace Concrete

/-- Two events of the first day. -/
def twoEvents : FixedCloud where
  pages w := if w.startMs = 0 then [eventAt 5 "a", eventAt 3 "c"] else []
  etag _ := some "e"

/-- The three PUTs of a chunk. -/
def putAll : List SysLabel := List.replicate 3 (.task 0 (.put (some (some "e"))))

/-- A drain that is killed with its first object stored and no sidecar. -/
def brokenOff : List SysLabel :=
  [.start .drain { smallObjects with concurrency := 1 } (preamble []), .spawn, .task 0 (.get true),
    .task 0 (.page 0 (some ⟨[eventAt 5 "a", eventAt 3 "c"], none⟩)), .task 0 .event,
    .task 0 (.put (some (some "e"))), .kill]

/-- What the drain that is killed leaves. -/
def leftover : Sys := (LTS.exec (sysStep jobEnv) (system [] []) brokenOff).getD (system [] [])

/-- A drain of the day in two pages. -/
def inTwoPages : List SysLabel :=
  [.spawn, .task 0 (.get true), .task 0 (.page 0 (some ⟨[eventAt 5 "a"], some "next"⟩)),
    .task 0 .event] ++ putAll ++ [.task 0 (.page 0 (some ⟨[eventAt 3 "c"], none⟩)), .task 0 .event] ++
    putAll ++ [.task 0 .endPages, .task 0 (.putManifest true 2), .absorb 0, .finish]

/-- A drain of the day in one page. -/
def inOnePage : List SysLabel :=
  [.spawn, .task 0 (.get true), .task 0 (.page 0 (some ⟨[eventAt 5 "a", eventAt 3 "c"], none⟩)),
    .task 0 .event] ++ putAll ++ [.task 0 .event] ++
    putAll ++ [.task 0 .endPages, .task 0 (.putManifest true 1), .absorb 0, .finish]

theorem leftover_eq :
    LTS.exec (sysStep jobEnv) (system [] []) brokenOff = some leftover := by
  have hsome : (LTS.exec (sysStep jobEnv) (system [] []) brokenOff).isSome = true := by
    decide +kernel
  obtain ⟨u, hu⟩ := Option.isSome_iff_exists.mp hsome
  rw [leftover, hu, Option.getD_some]

end Concrete

open Concrete in
/-- A drain after one that was killed leaves what a drain from empty stores leaves. -/
theorem drain_converges_killed : ∃ t t' : Sys, (∃ outs, t.last = some (.ok outs)) ∧
    (∃ outs, t'.last = some (.ok outs)) ∧ SameStore jobEnv t.archive t'.archive := by
  obtain ⟨v, t, hv, hrun, hcheck⟩ := replays_spec (by decide +kernel :
    replays jobEnv (fun _ => twoEvents.Answers) (fun _ _ => True) leftover
      (.start .drain { smallObjects with concurrency := 4 } (preamble [])) inTwoPages
      Sys.returned = true)
  obtain ⟨v', t', hv', hrun', hcheck'⟩ := replays_spec (by decide +kernel :
    replays jobEnv (fun _ => twoEvents.Answers) (fun _ _ => True) (system [] [])
      (.start .drain { smallObjects with concurrency := 1 } (preamble [])) inOnePage
      Sys.returned = true)
  have hfirst : LTS.Reaches (sysStep jobEnv) (SameDrain twoEvents smallObjects (preamble []))
      (system [] []) leftover := .of_exec (by decide +kernel) leftover_eq
  have ht := Sys.returned_spec hcheck
  have ht' := Sys.returned_spec hcheck'
  exact ⟨t, t', ht, ht', (drain_converges jobEnv twoEvents smallObjects (preamble []) (preamble [])
    0 dayMs [⟨0, dayMs⟩] t t' (by decide) rfl rfl (by decide +kernel)
    ⟨⟨system [] [], leftover, v, 4, rfl, rfl, hfirst, hv, hrun⟩, ht⟩
    ⟨⟨system [] [], system [] [], v', 1, rfl, rfl, .refl, hv', hrun'⟩, ht'⟩).1⟩

end S4Logs

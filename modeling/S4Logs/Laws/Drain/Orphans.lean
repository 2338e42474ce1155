import S4Logs.Laws.Drain.Merged
import S4Logs.Laws.Drain.Quiet

/-!
# Objects that a retry does not reach

A run that archives a window puts the base names from 0 on, as many as the records
of its pages rotate into, and lists these. What an earlier run stored under a later
base name stays where it is, and nobody lists it (`window_unorphaned`). How many
objects some records make depends on their order, so a retry over shards can come
to fewer of them than the run that was broken off (`retry_leaves_orphan`).
-/

namespace S4Logs

variable {env : Env} {opts : DrainOptions} {shards : Option (List (List String))} {w : Window}
variable {a a₀ : Archive} {events contents paged : List CwEvent} {wk : Work}

/-! ## How many objects -/

/-- More records make no fewer objects. -/
theorem rotated_length_le (lib : CodecLib) (target : Nat) {rs all : List LogRecord}
    (h : rs <+: all) : (rotated lib target rs).length ≤ (rotated lib target all).length := by
  obtain ⟨more, rfl⟩ := h
  have hclosed := rotate_append lib target rs more
  rw [rotated, rotated, List.length_append, List.length_append]
  by_cases hsame : (rotate lib target rs).1.length = (rotate lib target (rs ++ more)).1.length
  · -- no group is closed, so the open one goes on
    have hflat := rotate_flatten lib target (rs ++ more)
    rw [← hclosed.eq_of_length hsame] at hflat
    have hopen : (rotate lib target (rs ++ more)).2 = (rotate lib target rs).2 ++ more := by
      apply List.append_cancel_left
      rw [hflat, ← List.append_assoc, rotate_flatten]
    rw [hsame]
    refine Nat.add_le_add_left ?_ _
    split
    next => exact Nat.zero_le _
    next hne =>
      rw [if_neg]
      · exact Nat.le_refl _
      · rw [hopen]
        exact fun hnil => hne (List.append_eq_nil_iff.mp hnil).1
  · have hle := hclosed.length_le
    split <;> split <;> simp only [List.length_nil, List.length_singleton] <;> omega

/-- The number of objects that the records of these pages rotate into. -/
def pageObjects (env : Env) (opts : DrainOptions) (w : Window) (paged : List CwEvent) : Nat :=
  (rotated env.lib opts.chunkTargetBytes ((paged.filter w.contains).map CwEvent.toRecord)).length

theorem pageObjects_le (env : Env) (opts : DrainOptions) (w : Window) (paged more : List CwEvent) :
    pageObjects env opts w paged ≤ pageObjects env opts w (paged ++ more) := by
  apply rotated_length_le
  rw [List.filter_append, List.map_append]
  exact List.prefix_append _ _

/-- What is pushed comes first among what came. -/
theorem InOrder.records (h : InOrder w paged wk) :
    wk.records <+: (paged.filter w.contains).map CwEvent.toRecord := by
  rw [h.pushed, List.map_append]
  exact List.prefix_append _ _

/-- A chunk that is put takes one of the names its records come to. -/
theorem WorkFiled.slot {objects : String → Option Bytes} {chunk : EncodedChunk} {stage : PutStage}
    {last : Bool} (h : WorkFiled env anyEtag opts w .base objects wk (.put chunk stage last)) :
    ∃ i < (rotated env.lib opts.chunkTargetBytes wk.records).length,
      (putRequest env.lib env.store (wk.ww.location opts) chunk stage).1 ∈
        ((Slot.of opts w .base i).location opts.logGroup).keys env.store.keyPrefix := by
  obtain ⟨-, -, -, pieces, group, hfiled, hencoded, -, hrotate, -⟩ := h
  refine ⟨pieces.length, ?_, ?_⟩
  · have hne := (encodeAll_made hencoded).ne_nil
    rw [rotated, hrotate]
    cases last with
    | true =>
      rw [if_pos rfl, if_neg hne, List.length_append, List.length_map, List.length_singleton]
      exact Nat.lt_succ_self _
    | false =>
      rw [if_neg Bool.false_ne_true, if_pos rfl, List.append_nil, List.length_append,
        List.length_map, List.length_singleton]
      exact Nat.lt_succ_self _
  · rw [hfiled.location]
    exact putRequest_mem_keys _ _ _ _

/-- A window that pages leaves the names alone that its records do not come to. -/
theorem TaskMove.beyond {at_ : Await} {l : TaskLabel} {p' : Phase} {writes : List StoreWrite}
    {seq : Nat} (move : TaskMove env opts shards w a events (.work wk at_) l p' writes)
    (hbooks : InOrder w paged wk) (hfiled : WorkFiled env anyEtag opts w .base a.objects wk at_)
    (hseq : pageObjects env opts w paged ≤ seq) :
    (applyWrites a writes).objects (ownKey env opts w .base seq) =
      a.objects (ownKey env opts w .base seq) := by
  have hput : ∀ {chunk stage last}, at_ = .put chunk stage last →
      (applyWrites a [.object (putRequest env.lib env.store (wk.ww.location opts) chunk stage).1
        (putRequest env.lib env.store (wk.ww.location opts) chunk stage).2]).objects
          (ownKey env opts w .base seq) = a.objects (ownKey env opts w .base seq) := by
    rintro chunk stage last rfl
    obtain ⟨i, hi, hkey⟩ := hfiled.slot
    have hlt := Nat.lt_of_lt_of_le hi (rotated_length_le env.lib opts.chunkTargetBytes hbooks.records)
    have hown : ownKey env opts w .base seq ∈
        ((Slot.of opts w .base seq).location opts.logGroup).keys env.store.keyPrefix :=
      List.mem_cons_self
    apply applyWrites_object_ne
    intro heq
    rw [heq] at hown
    refine keys_apart (fun htail => ?_) hkey hown
    exact absurd (Slot.seq_of_tail htail) (Nat.ne_of_lt (Nat.lt_of_lt_of_le hlt hseq))
  cases move with
  | fail => rfl
  | page => rfl
  | event => rfl
  | endPages => rfl
  | putNext => exact hput rfl
  | putDone => exact hput rfl
  | putManifest => rfl

/-! ## Runs of one window -/

/-- Stores with nothing in them, and no run. -/
def WindowRuns.fresh : WindowRuns where
  archive := Archive.empty
  task := none

/-- CloudWatch holds these contents throughout: it lists every stream once, and pages
what passes a filter in its order. -/
def ContentAnswers (contents : List CwEvent) (s : WindowRuns) : WindowLabel → Prop
  | .run pre => ∀ names ∈ pre.streams, names.Nodup ∧ ∀ ev ∈ contents, ev.logStreamName ∈ names
  | .step l => ∀ p ∈ s.task, p.2.ContentPage contents l

/-- A run that began at `s₀` and has not ended the history yet. -/
structure Attempt (env : Env) (opts : DrainOptions) (w : Window) (contents : List CwEvent)
    (history : List WindowLabel) (s s₀ : WindowRuns) (labels : List TaskLabel)
    (shards : Option (List (List String))) (p : Phase) : Prop where
  within : ∃ before pre, history = before ++ .run pre :: labels.map .step ∧
    LTS.exec (windowRunsStep env opts w contents) .fresh before = some s₀ ∧
    LTS.exec (windowRunsStep env opts w contents) s₀ (.run pre :: labels.map .step) = some s
  task : s.task = some (shards, p)
  apart : ShardsApart shards
  reads : ∀ ev ∈ contents, Reads shards ev
  unarchived : s₀.archive.manifests (taskKey env opts w) = none
  held : DrainHeld env opts w (Merging contents shards w) s₀.archive (pagedEvents labels) s.archive p
  beyond : ∀ seq, pageObjects env opts w (pagedEvents labels) ≤ seq →
    s.archive.objects (ownKey env opts w .base seq) =
      s₀.archive.objects (ownKey env opts w .base seq)

/-- The records that a reader finds under the first base names of the window. -/
def baseRecords (env : Env) (opts : DrainOptions) (w : Window) (a : Archive) (names : Nat) :
    List (Option LogRecord) :=
  ((List.range names).filterMap fun seq => a.objects (ownKey env opts w .base seq)).flatMap
    fun body => recordLines env.lib.records (env.lib.zstd.decode body).1

/-- Every data object under a base name of the window is listed, and whoever reads all
of them finds the events of the window, each once. -/
def Unorphaned (env : Env) (opts : DrainOptions) (w : Window) (contents : List CwEvent)
    (a : Archive) : Prop :=
  ∃ bytes m, a.manifests (taskKey env opts w) = some bytes ∧
    Manifest.fromJsonBytes env.serde bytes = .ok m ∧
    (∀ seq, a.objects (ownKey env opts w .base seq) ≠ none →
      ownKey env opts w .base seq ∈ m.objects.map ManifestObject.dataKey) ∧
    ∀ names, m.objects.length ≤ names → (baseRecords env opts w a names).Perm
      ((contents.filter w.contains).map fun ev => some ev.toRecord)

/-- The run of the history that archived the window: it began at `s₀`, took these
labels, and left what the archive holds at the end. -/
def ArchivingRun (env : Env) (opts : DrainOptions) (w : Window) (contents : List CwEvent)
    (history : List WindowLabel) (a : Archive) (s₀ : WindowRuns) (labels : List TaskLabel) : Prop :=
  ∃ before pre after s₁ shards out, history = before ++ .run pre :: labels.map .step ++ after ∧
    LTS.exec (windowRunsStep env opts w contents) .fresh before = some s₀ ∧
    LTS.exec (windowRunsStep env opts w contents) s₀ (.run pre :: labels.map .step) = some s₁ ∧
    s₁.task = some (shards, .done out) ∧ out.skipped = false ∧ s₁.archive = a

/-- Every base name that was taken when the run began is one the run comes to. -/
def Reached (env : Env) (opts : DrainOptions) (w : Window) (s₀ : WindowRuns)
    (labels : List TaskLabel) : Prop :=
  ∀ seq, s₀.archive.objects (ownKey env opts w .base seq) ≠ none →
    seq < pageObjects env opts w (pagedEvents labels)

/-! ## The run that archives -/

theorem filterMap_range_getElem? {α : Type} (as : List α) (n : Nat) :
    (List.range n).filterMap (fun i => as[i]?) = as.take n := by
  induction n with
  | zero => rfl
  | succ n ih =>
    rw [List.range_succ, List.filterMap_append, ih, List.take_add_one, List.filterMap_cons,
      List.filterMap_nil]
    cases as[n]? <;> rfl

/-- What a finished window left is unorphaned just where it reached all that was
there. -/
theorem Finished.unorphaned_iff {nowMs : Int} (hreads : ∀ ev ∈ contents, Reads shards ev)
    (hbooks : Merging contents shards w paged wk)
    (h : Finished env anyEtag opts w .base a.objects wk)
    (hstored : a.manifests (taskKey env opts w) =
      some ((Work.manifest opts w wk nowMs).toJsonBytes env.serde))
    (hbeyond : ∀ seq, pageObjects env opts w paged ≤ seq →
      a.objects (ownKey env opts w .base seq) = a₀.objects (ownKey env opts w .base seq)) :
    Unorphaned env opts w contents a ↔ ∀ seq, a₀.objects (ownKey env opts w .base seq) ≠ none →
      seq < pageObjects env opts w paged := by
  obtain ⟨hend, pieces, hfiled, hrotated, -⟩ := h
  have hprior := hbooks.inOrder.prior
  have hnone : ∀ m, wk.prior = some m → m.version = manifestVersion := fun m hm => by
    rw [hprior] at hm
    cases hm
  obtain ⟨hdecoded, -⟩ := manifest_written env opts w wk nowMs hnone
  have hobjects : (Work.manifest opts w wk nowMs).objects = pieces.mapIdx fun i p =>
      p.entry env ((Slot.of opts w .base i).location opts.logGroup) := by
    simp only [Work.manifest, hprior, hfiled.listed]
  have hpushed := hbooks.inOrder.pushed
  rw [hend.1, List.filter_nil, List.append_nil] at hpushed
  have hcount : pieces.length = pageObjects env opts w paged := by
    have hgroups := congrArg List.length hrotated
    rw [List.length_map] at hgroups
    rw [pageObjects, hpushed, hgroups]
    rfl
  have hlisted : ∀ seq, ownKey env opts w .base seq ∈
      (Work.manifest opts w wk nowMs).objects.map ManifestObject.dataKey ↔ seq < pieces.length := by
    intro seq
    rw [hobjects, List.mem_map]
    constructor
    · rintro ⟨o, ho, hkey⟩
      obtain ⟨i, hi, rfl⟩ := List.mem_mapIdx.mp ho
      have hkey' : ((Slot.of opts w .base i).location opts.logGroup).dataKey env.store.keyPrefix =
          ((Slot.of opts w .base seq).location opts.logGroup).dataKey env.store.keyPrefix := hkey
      rwa [← Slot.seq_of_tail (dataKey_inj hkey')]
    · intro hseq
      exact ⟨_, List.mem_mapIdx.mpr ⟨seq, hseq, rfl⟩, rfl⟩
  constructor
  · rintro ⟨bytes, m, hbytes, hm, hall, -⟩ seq hseq
    obtain rfl := Option.some.inj (hstored.symm.trans hbytes)
    obtain rfl := Except.ok.inj (hdecoded.symm.trans hm)
    by_contra hlate
    have hkept := hbeyond seq (Nat.le_of_not_lt hlate)
    rw [← hkept] at hseq
    exact hlate (hcount ▸ (hlisted seq).mp (hall seq hseq))
  · intro hreached
    refine ⟨_, _, hstored, hdecoded, fun seq hseq => ?_, fun names hnames => ?_⟩
    · refine (hlisted seq).mpr ?_
      by_contra hlate
      rw [hcount] at hlate
      rw [hbeyond seq (Nat.le_of_not_lt hlate)] at hseq
      exact hlate (hreached seq hseq)
    · rw [hobjects, List.length_mapIdx] at hnames
      have hbody : ∀ seq, a.objects (ownKey env opts w .base seq) =
          (pieces.map fun p => p.chunk.body)[seq]? := by
        intro seq
        rw [List.getElem?_map]
        cases hp : pieces[seq]? with
        | some p => exact (hfiled.stored seq p hp).data
        | none =>
          have hlate : pageObjects env opts w paged ≤ seq :=
            hcount ▸ List.getElem?_eq_none_iff.mp hp
          rw [hbeyond seq hlate, Option.map_none]
          by_contra hseq
          exact absurd (hreached seq hseq) (Nat.not_lt_of_le hlate)
      simp only [baseRecords, hbody]
      rw [filterMap_range_getElem?, List.take_of_length_le (by rwa [List.length_map]),
        hfiled.read.2, hrotated, rotated_flatten, Work.records, List.map_map, ← hpushed]
      exact ((hbooks.perm hend hreads).filter _).map _

/-! ## Every history -/

/-- A run that is over or has not begun to page. -/
def Resting : Phase → Prop
  | .lookup => True
  | .done _ => True
  | .failed _ => True
  | .look => False
  | .read _ _ _ => False
  | .work _ _ => False

/-- A history of drains of the window: nobody has archived it and the run under way, if
there is one, keeps its account, or a run has archived it and nothing was written since. -/
def RunsHeld (env : Env) (opts : DrainOptions) (w : Window) (contents : List CwEvent)
    (history : List WindowLabel) (s : WindowRuns) : Prop :=
  LTS.exec (windowRunsStep env opts w contents) .fresh history = some s ∧
    ((s.archive.manifests (taskKey env opts w) = none ∧ (s.task = none ∨ ∃ s₀ labels shards p,
        Attempt env opts w contents history s s₀ labels shards p ∧ ∀ out, p ≠ .done out)) ∨
      Covered env opts s.archive w ∧ (∀ t ∈ s.task, Resting t.2) ∧ ∃ s₀ labels,
        ArchivingRun env opts w contents history s.archive s₀ labels ∧
        (Unorphaned env opts w contents s.archive ↔ Reached env opts w s₀ labels))

/-- Only what came later is added to a history. -/
theorem ArchivingRun.later {history : List WindowLabel} {s₀ : WindowRuns} {labels : List TaskLabel}
    (h : ArchivingRun env opts w contents history a s₀ labels) (l : WindowLabel) :
    ArchivingRun env opts w contents (history ++ [l]) a s₀ labels := by
  obtain ⟨before, pre, after, s₁, shards, out, rfl, hbefore, hrun, htask, hskip, harchive⟩ := h
  exact ⟨before, pre, after ++ [l], s₁, shards, out, by simp only [List.append_assoc], hbefore,
    hrun, htask, hskip, harchive⟩

/-- A covered window at rest stays at rest, and nothing is written. -/
theorem Resting.step {p p' : Phase} {l : TaskLabel} {writes : List StoreWrite}
    (hcovered : Covered env opts a w) (h : Resting p)
    (hstep : taskStep env opts shards w a events p l = some (p', writes)) :
    Resting p' ∧ writes = [] := by
  cases p with
  | lookup =>
    have hmove : StageMove env (fun _ _ => True) .drain opts shards w a events
        (.active .lookup) (.active p') writes := .task trivial hstep
    obtain ⟨hskip, hnone⟩ := hmove.skips hcovered (show SkipStage (.active .lookup) from trivial)
    refine ⟨?_, hnone⟩
    cases p' with
    | work wk at_ => exact hskip.elim
    | read m rest seen => exact hskip.elim
    | look => exact hskip.elim
    | lookup => trivial
    | done out => trivial
    | failed e => trivial
  | done out =>
    rw [taskStep_ended (.inl ⟨out, rfl⟩)] at hstep
    cases hstep
  | failed e =>
    rw [taskStep_ended (.inr ⟨e, rfl⟩)] at hstep
    cases hstep
  | look => exact h.elim
  | read m rest seen => exact h.elim
  | work wk at_ => exact h.elim

/-- Without a manifest to skip by no window is skipped. -/
theorem DrainHeld.not_skip {p : Phase} {l : TaskLabel} {out : WindowOutcome}
    {writes : List StoreWrite} (h : DrainHeld env opts w (Merging contents shards w) a₀ paged a p)
    (hapart : ShardsApart shards) (hnone : a.manifests (taskKey env opts w) = none)
    (hstep : taskStep env opts shards w a events p l = some (.done out, writes)) : out ≠ .skip := by
  cases p with
  | lookup =>
    generalize hp : Phase.done out = p' at hstep
    cases taskStep_move hstep with
    | skip hbytes =>
      rw [hnone] at hbytes
      cases hbytes
    | fail => cases hp
    | begin => cases hp
  | work wk at_ =>
    rintro rfl
    have move := taskStep_move hstep
    by_cases hpage : ∃ i page, l = .page i (some page)
    · obtain ⟨i, page, rfl⟩ := hpage
      cases move
    · rw [not_exists] at hpage
      have hother : ∀ i page, l ≠ .page i (some page) := fun i page heq => hpage i ⟨page, heq⟩
      rcases work_filed ((merging_pages opts w contents hapart).rule paged) hother (.any at_ l) move
        h.2.1 h.2.2 with ⟨-, wk', hout, -⟩ | ⟨nowMs, -, -, hdone, -⟩
      · cases congrArg WindowOutcome.skipped hout
      · cases congrArg WindowOutcome.skipped (Phase.done.inj hdone)
  | look => exact h.elim
  | read m rest seen => exact h.elim
  | done out' =>
    rw [taskStep_ended (.inl ⟨out', rfl⟩)] at hstep
    cases hstep
  | failed e =>
    rw [taskStep_ended (.inr ⟨e, rfl⟩)] at hstep
    cases hstep

/-- The run of the attempt goes on. -/
theorem Attempt.step {history : List WindowLabel} {s s₀ t : WindowRuns} {labels : List TaskLabel}
    {p : Phase} {l : TaskLabel} (h : Attempt env opts w contents history s s₀ labels shards p)
    (answers : p.ContentPage contents l)
    (hstep : windowRunsStep env opts w contents s (.step l) = some t) :
    ∃ p' writes, taskStep env opts shards w s.archive contents p l = some (p', writes) ∧
      t.archive = applyWrites s.archive writes ∧
      Attempt env opts w contents (history ++ [.step l]) t s₀ (labels ++ [l]) shards p' := by
  obtain ⟨⟨before, pre, rfl, hbefore, hrun⟩, htask, hapart, hreads, hunarchived, hheld, hbeyond⟩ := h
  have hmap : (labels ++ [l]).map WindowLabel.step = labels.map .step ++ [.step l] := by
    rw [List.map_append]
    rfl
  have hlast : LTS.exec (windowRunsStep env opts w contents) s [.step l] = some t := by
    rw [LTS.exec, hstep]
    rfl
  simp only [windowRunsStep, htask] at hstep
  obtain ⟨⟨a', p'⟩, hwindow, rfl⟩ := Option.map_eq_some_iff.mp hstep
  have hheld' := windowStep_drainHeld (s := (s.archive, p)) (merging_pages opts w contents hapart)
    (fun wk at_ hp => by
      obtain rfl : p = .work wk at_ := hp
      exact answers) hheld hwindow
  obtain ⟨⟨p'', writes⟩, htaskStep, hresult⟩ := Option.map_eq_some_iff.mp hwindow
  obtain ⟨rfl, rfl⟩ := Prod.mk.inj hresult
  refine ⟨_, _, htaskStep, rfl, ⟨before, pre, ?_, hbefore, ?_⟩, rfl, hapart, hreads, hunarchived,
    hheld', fun seq hseq => ?_⟩
  · rw [hmap, List.append_assoc]
    rfl
  · rw [hmap]
    exact LTS.exec_append hrun hlast
  · rw [pagedEvents_concat] at hseq
    have hseq' := (pageObjects_le env opts w _ _).trans hseq
    refine Eq.trans ?_ (hbeyond seq hseq')
    cases p with
    | work wk at_ =>
      exact (taskStep_move htaskStep).beyond hheld.2.1.inOrder hheld.2.2 hseq'
    | lookup => cases taskStep_move htaskStep <;> rfl
    | look => exact hheld.elim
    | read m rest seen => exact hheld.elim
    | done out =>
      rw [taskStep_ended (.inl ⟨out, rfl⟩)] at htaskStep
      cases htaskStep
    | failed e =>
      rw [taskStep_ended (.inr ⟨e, rfl⟩)] at htaskStep
      cases htaskStep

/-- A run that ends the window has archived it. -/
theorem Attempt.archived {history : List WindowLabel} {s s₀ : WindowRuns} {labels : List TaskLabel}
    {out : WindowOutcome} (hdry : opts.dryRun = false) (hskip : out ≠ .skip)
    (h : Attempt env opts w contents history s s₀ labels shards (.done out)) :
    Covered env opts s.archive w ∧ ArchivingRun env opts w contents history s.archive s₀ labels ∧
      (Unorphaned env opts w contents s.archive ↔ Reached env opts w s₀ labels) := by
  obtain ⟨⟨before, pre, hhistory, hbefore, hrun⟩, htask, hapart, hreads, -, hheld, hbeyond⟩ := h
  rcases hheld with rfl | hdry' | ⟨wk, nowMs, rfl, hbooks, hfinished, hstored⟩
  · exact absurd rfl hskip
  · rw [hdry] at hdry'
    cases hdry'
  · refine ⟨?_, ⟨before, pre, [], s, shards, wk.outcome, ?_, hbefore, hrun, htask, rfl, rfl⟩,
      hfinished.unorphaned_iff hreads hbooks hstored hbeyond⟩
    · have hprior := hbooks.inOrder.prior
      obtain ⟨hdecoded, hnames⟩ := manifest_written env opts w wk nowMs fun m hm => by
        rw [hprior] at hm
        cases hm
      rw [covered_iff hstored hdecoded, hnames, hprior]
      rfl
    · rw [List.append_nil]
      exact hhistory

/-- One more label of a history. -/
theorem RunsHeld.step {past : List WindowLabel} {l : WindowLabel} {s t : WindowRuns}
    (hdry : opts.dryRun = false) (h : RunsHeld env opts w contents past s)
    (hok : ContentAnswers contents s l)
    (hstep : windowRunsStep env opts w contents s l = some t) :
    RunsHeld env opts w contents (past ++ [l]) t := by
  have hlast : LTS.exec (windowRunsStep env opts w contents) s [l] = some t := by
    rw [LTS.exec, hstep]
    rfl
  obtain ⟨hexec, hcase⟩ := h
  refine ⟨LTS.exec_append hexec hlast, ?_⟩
  cases l with
  | run pre =>
    cases hshards : computeShards opts pre with
    | error e =>
      simp only [windowRunsStep, hshards, Option.some.injEq] at hstep
      subst hstep
      rcases hcase with ⟨hnone, -⟩ | ⟨hcovered, -, s₀, labels, harchiving, hiff⟩
      · exact .inl ⟨hnone, .inl rfl⟩
      · refine .inr ⟨hcovered, fun t ht => ?_, s₀, labels, harchiving.later _, hiff⟩
        cases ht
    | ok shards =>
      have hrun : LTS.exec (windowRunsStep env opts w contents) s [.run pre] = some t := hlast
      simp only [windowRunsStep, hshards, Option.some.injEq] at hstep
      subst hstep
      rcases hcase with ⟨hnone, -⟩ | ⟨hcovered, -, s₀, labels, harchiving, hiff⟩
      · -- the run before this one is broken off, and a new one begins
        have hlisting : ∀ names, pre.streams = some names → names.Nodup ∧
            ∀ ev ∈ contents, ev.logStreamName ∈ names := fun names hnames => hok names hnames
        refine .inl ⟨hnone, .inr ⟨s, [], shards, .lookup, ⟨⟨past, pre, rfl, hexec, hrun⟩, rfl,
          (computeShards_apart hshards fun names hnames => (hlisting names hnames).1).1,
          fun ev hev => ?_, hnone, ⟨rfl, rfl⟩, fun _ _ => rfl⟩, fun out hout => ?_⟩⟩
        · cases hstreams : pre.streams with
          | some names => exact (reads_listed hshards hstreams).1 ((hlisting names hstreams).2 ev hev)
          | none =>
            unfold computeShards at hshards
            rw [hstreams] at hshards
            split at hshards
            next =>
              cases hshards
              exact reads_unsharded ev
            next => cases hshards
        · cases hout
      · refine .inr ⟨hcovered, fun t ht => ?_, s₀, labels, harchiving.later _, hiff⟩
        cases ht
        trivial
  | step l =>
    rcases hcase with ⟨hnone, htask | ⟨s₀, labels, shards, p, hattempt, hopen⟩⟩ |
      ⟨hcovered, hrest, s₀, labels, harchiving, hiff⟩
    · simp only [windowRunsStep, htask, reduceCtorEq] at hstep
    · obtain ⟨p', writes, htaskStep, harchive, hattempt'⟩ :=
        hattempt.step (hok _ hattempt.task) hstep
      have hmanifests : t.archive.manifests = s₀.archive.manifests →
          t.archive.manifests (taskKey env opts w) = none := fun heq =>
        heq ▸ hattempt.unarchived
      cases p' with
      | done out =>
        have hskip : out ≠ .skip := hattempt.held.not_skip hattempt.apart hnone htaskStep
        obtain ⟨hcovered, harchiving, hiff⟩ := hattempt'.archived hdry hskip
        refine .inr ⟨hcovered, fun p hp => ?_, s₀, _, harchiving, hiff⟩
        rw [hattempt'.task] at hp
        cases hp
        trivial
      | lookup =>
        exact .inl ⟨hmanifests hattempt'.held.1, .inr ⟨s₀, _, shards, _, hattempt', fun _ h => by cases h⟩⟩
      | work wk at_ =>
        exact .inl ⟨hmanifests hattempt'.held.1, .inr ⟨s₀, _, shards, _, hattempt', fun _ h => by cases h⟩⟩
      | failed e =>
        exact .inl ⟨hmanifests hattempt'.held, .inr ⟨s₀, _, shards, _, hattempt', fun _ h => by cases h⟩⟩
      | look => exact hattempt'.held.elim
      | read m rest seen => exact hattempt'.held.elim
    · cases htask : s.task with
      | none => simp only [windowRunsStep, htask, reduceCtorEq] at hstep
      | some task =>
        obtain ⟨shards, p⟩ := task
        simp only [windowRunsStep, htask] at hstep
        obtain ⟨r, hwindow, rfl⟩ := Option.map_eq_some_iff.mp hstep
        obtain ⟨⟨p', writes⟩, htaskStep, rfl⟩ := Option.map_eq_some_iff.mp hwindow
        obtain ⟨hrest', rfl⟩ := (hrest _ htask).step hcovered htaskStep
        refine .inr ⟨hcovered, fun q hq => ?_, s₀, labels, harchiving.later _, hiff⟩
        cases hq
        exact hrest'

/-- However often drains of the window were broken off before, once one has returned
some run of the history has archived the window, and every data object under a base
name is listed just where that run came to every name that was taken before it. -/
theorem window_unorphaned (env : Env) (opts : DrainOptions) (w : Window) (contents : List CwEvent)
    (history : List WindowLabel) (s : WindowRuns) (shards : Option (List (List String)))
    (out : WindowOutcome) (hdry : opts.dryRun = false)
    (hanswers : LTS.Along (windowRunsStep env opts w contents) (ContentAnswers contents)
      .fresh history)
    (hrun : LTS.exec (windowRunsStep env opts w contents) .fresh history = some s)
    (hdone : s.task = some (shards, .done out)) :
    ∃ s₀ labels, ArchivingRun env opts w contents history s.archive s₀ labels ∧
      (Unorphaned env opts w contents s.archive ↔ Reached env opts w s₀ labels) := by
  have hfresh : RunsHeld env opts w contents [] .fresh := ⟨rfl, .inl ⟨rfl, .inl rfl⟩⟩
  obtain ⟨-, ⟨-, hnone | ⟨s₀, labels, shards', p, hattempt, hopen⟩⟩ | ⟨-, -, harchived⟩⟩ :=
    hanswers.invariant hfresh (fun past l s t h hok hstep => h.step hdry hok hstep) hrun
  · rw [hnone] at hdone
    cases hdone
  · have htask := hattempt.task
    rw [hdone] at htask
    exact absurd (Prod.mk.inj (Option.some.inj htask)).2.symm (hopen out)
  · exact harchived

instance ContentAnswers.decidable (contents : List CwEvent) (s : WindowRuns) :
    ∀ l, Decidable (ContentAnswers contents s l)
  | .run pre => inferInstanceAs (Decidable (∀ names ∈ pre.streams,
      names.Nodup ∧ ∀ ev ∈ contents, ev.logStreamName ∈ names))
  | .step l => inferInstanceAs (Decidable (∀ p ∈ s.task, p.2.ContentPage contents l))

/-- The run under way has returned. -/
def WindowRuns.closed (s : WindowRuns) : Bool :=
  match s.task with
  | some (_, .done _) => true
  | _ => false

theorem WindowRuns.closed_spec {s : WindowRuns} (h : s.closed = true) :
    ∃ shards out, s.task = some (shards, .done out) := by
  unfold WindowRuns.closed at h
  split at h
  next shards out htask => exact ⟨shards, out, htask⟩
  next => cases h

/-- The window is closed, and an object of this number is stored that its manifest does
not list. -/
def WindowRuns.orphaned (env : Env) (opts : DrainOptions) (w : Window) (seq : Nat)
    (s : WindowRuns) : Bool :=
  s.closed && (s.archive.objects (ownKey env opts w .base seq)).isSome &&
  match s.archive.manifests (taskKey env opts w) with
  | none => false
  | some bytes =>
    match Manifest.fromJsonBytes env.serde bytes with
    | .error _ => false
    | .ok m => !(m.objects.map ManifestObject.dataKey).contains (ownKey env opts w .base seq)

theorem WindowRuns.orphaned_spec (contents : List CwEvent) {seq : Nat} {s : WindowRuns}
    (h : s.orphaned env opts w seq = true) : (∃ shards out, s.task = some (shards, .done out)) ∧
      ¬ Unorphaned env opts w contents s.archive := by
  obtain ⟨hfound, hlisted⟩ := Bool.and_eq_true_iff.mp h
  obtain ⟨hdone, hsome⟩ := Bool.and_eq_true_iff.mp hfound
  constructor
  · exact WindowRuns.closed_spec hdone
  · rintro ⟨bytes, m, hbytes, hm, hall, -⟩
    simp only [hbytes, hm, Bool.not_eq_true', List.contains_eq_mem, decide_eq_false_iff_not] at hlisted
    exact hlisted (hall seq (Option.isSome_iff_ne_none.mp hsome))

namespace Concrete

/-- A long event and a short one come to different numbers of objects in different orders. -/
def longEvent (timestamp : Int) : CwEvent where
  timestamp := timestamp
  message := "aaaaaaaaaaaaaaaaaaaaaaaa"
  logStreamName := "x"
  ingestionTime := none
  eventId := none

/-- An event that fills no object. -/
def shortEvent : CwEvent where
  timestamp := 3
  message := "b"
  logStreamName := "y"
  ingestionTime := none
  eventId := none

/-- Three events of two streams. -/
def threeEvents : List CwEvent := [longEvent 1, longEvent 2, shortEvent]

/-- A sharded job whose objects hold one long event. -/
def twoShards : DrainOptions := { jobOptions 2 with chunkTargetBytes := 60 }

/-- The three PUTs of a chunk of the window. -/
def putOne : List TaskLabel := List.replicate 3 (.put (some none))

/-- The long events first: three objects. -/
def longFirst : List TaskLabel :=
  [.get true, .page 0 (some ⟨[longEvent 1, longEvent 2], none⟩), .event] ++ putOne ++ [.event] ++
    putOne ++ [.page 1 (some ⟨[shortEvent], none⟩), .event, .endPages] ++ putOne

/-- The short event first: two objects, and the manifest. -/
def shortFirst : List TaskLabel :=
  [.get true, .page 1 (some ⟨[shortEvent], none⟩), .event,
    .page 0 (some ⟨[longEvent 1, longEvent 2], none⟩), .event] ++ putOne ++ [.event] ++
    putOne ++ [.endPages, .putManifest true 1]

/-- A run that is broken off before its manifest, and one that returns. -/
def retryShorter : List WindowLabel :=
  .run (preamble ["x", "y"]) :: longFirst.map .step ++
    .run (preamble ["x", "y"]) :: shortFirst.map .step

end Concrete

/-- A history of one run has no other run that archives. -/
theorem ArchivingRun.single {pre : Preamble} {labels labels' : List TaskLabel} {s₀ : WindowRuns}
    (h : ArchivingRun env opts w contents (.run pre :: labels.map .step) a s₀ labels') :
    s₀ = .fresh := by
  obtain ⟨before, pre', after, -, -, -, hhistory, hbefore, -⟩ := h
  cases before with
  | nil => exact (Option.some.inj hbefore).symm
  | cons l before =>
    have htail := (List.cons.inj hhistory).2
    have hmem : WindowLabel.run pre' ∈ labels.map .step := by
      rw [htail]
      exact List.mem_append_left _ (List.mem_append_right _ List.mem_cons_self)
    obtain ⟨l', -, hl'⟩ := List.mem_map.mp hmem
    cases hl'

open Concrete in
/-- The first run on an archive leaves no orphans, in whatever order its streams come. -/
theorem window_unorphaned_first : ∃ s, LTS.exec (windowRunsStep jobEnv twoShards ⟨0, dayMs⟩
    threeEvents) .fresh (.run (preamble ["x", "y"]) :: shortFirst.map .step) = some s ∧
      Unorphaned jobEnv twoShards ⟨0, dayMs⟩ threeEvents s.archive := by
  have hcheck : (LTS.exec (windowRunsStep jobEnv twoShards ⟨0, dayMs⟩ threeEvents) .fresh
      (.run (preamble ["x", "y"]) :: shortFirst.map .step)).map WindowRuns.closed = some true := by
    decide +kernel
  obtain ⟨s, hrun, hclosed⟩ := Option.map_eq_some_iff.mp hcheck
  obtain ⟨shards, out, hdone⟩ := WindowRuns.closed_spec hclosed
  obtain ⟨s₀, labels, harchiving, hiff⟩ := window_unorphaned jobEnv twoShards ⟨0, dayMs⟩ threeEvents
    _ s shards out rfl (by decide +kernel) hrun hdone
  refine ⟨s, hrun, hiff.mpr fun seq hseq => ?_⟩
  rw [harchiving.single] at hseq
  exact absurd rfl hseq

open Concrete in
/-- A retry that comes to two objects leaves the third one of the run before it. -/
theorem retry_leaves_orphan :
    ¬ ∀ (env : Env) (opts : DrainOptions) (w : Window) (contents : List CwEvent)
      (history : List WindowLabel) (s : WindowRuns) (shards : Option (List (List String)))
      (out : WindowOutcome), opts.dryRun = false →
      LTS.Along (windowRunsStep env opts w contents) (ContentAnswers contents) .fresh history →
      LTS.exec (windowRunsStep env opts w contents) .fresh history = some s →
      s.task = some (shards, .done out) → Unorphaned env opts w contents s.archive := by
  intro h
  have hcheck : (LTS.exec (windowRunsStep jobEnv twoShards ⟨0, dayMs⟩ threeEvents) .fresh
      retryShorter).map (WindowRuns.orphaned jobEnv twoShards ⟨0, dayMs⟩ 2) = some true := by
    decide +kernel
  obtain ⟨s, hrun, horphaned⟩ := Option.map_eq_some_iff.mp hcheck
  obtain ⟨⟨shards, out, hdone⟩, hlost⟩ := WindowRuns.orphaned_spec threeEvents horphaned
  exact hlost (h jobEnv twoShards ⟨0, dayMs⟩ threeEvents retryShorter s shards out rfl
    (by decide +kernel) hrun hdone)

end S4Logs

import S4Logs.Laws.Core.Roundtrip
import S4Logs.Laws.Drain.Integrity

/-!
# One drained window

A drain that returns has archived its pages: the manifest names the window, its
objects have the numbers from 0 on, and their decodes put together are the events
of the pages that lie in the window, in the order they came. A drain that fails
leaves every manifest as it was.

The pages are read off the labels of the run, so this holds however the events
are split into pages, and for a sharded window in the order its shards' pages
came.
-/

namespace S4Logs

variable {env : Env} {opts : DrainOptions} {shards : Option (List (List String))} {w : Window}
variable {a a₀ : Archive} {events : List CwEvent}

/-- The events of a page that is answered. -/
def TaskLabel.pageEvents : TaskLabel → List CwEvent
  | .page _ (some answer) => answer.events
  | .page _ none => []
  | .get _ => []
  | .readObject _ => []
  | .event => []
  | .endPages => []
  | .put _ => []
  | .putManifest _ _ => []

/-- Only a page has events. -/
theorem pageEvents_eq_nil {l : TaskLabel} (h : ∀ i page, l ≠ .page i (some page)) :
    l.pageEvents = [] := by
  cases l with
  | page i answer =>
    cases answer with
    | none => rfl
    | some page => exact absurd rfl (h i page)
  | get answered => rfl
  | readObject answered => rfl
  | event => rfl
  | endPages => rfl
  | put answer => rfl
  | putManifest answered nowMs => rfl

/-- The events of the pages of a run, in the order they came. -/
def pagedEvents (labels : List TaskLabel) : List CwEvent := labels.flatMap TaskLabel.pageEvents

theorem pagedEvents_concat (past : List TaskLabel) (l : TaskLabel) :
    pagedEvents (past ++ [l]) = pagedEvents past ++ l.pageEvents := by
  rw [pagedEvents, List.flatMap_append, List.flatMap_singleton]
  rfl

/-! ## The books of a drain -/

/-- Books of a drain and of what its pages held so far: they begin with nothing, a page
goes into the inbox, and every other move keeps them. `guard` is what is assumed of a
page. -/
structure PageRule (opts : DrainOptions) (shards : Option (List (List String))) (w : Window)
    (guard : Work → TaskLabel → Prop) (B : List CwEvent → Work → Prop) : Prop where
  prior : ∀ {paged wk}, B paged wk → wk.prior = none
  fresh : ∀ events, B [] (Work.start opts shards w none .base [] events)
  rule : ∀ paged, BookRule w (fun _ l => ∀ i page, l ≠ .page i (some page)) (B paged)
  page : ∀ {paged wk i c page}, guard wk (.page i (some page)) → wk.inbox = [] →
    wk.cursors[i]? = some c → B paged wk → B (paged ++ page.events)
      { wk with cursors := wk.cursors.set i (c.advance page), inbox := page.events }

/-- What came is pushed, dropped or waits in the inbox. -/
structure InOrder (w : Window) (paged : List CwEvent) (wk : Work) : Prop where
  prior : wk.prior = none
  pushed : paged.filter w.contains = wk.pushed ++ wk.inbox.filter w.contains
  counted : paged.length = wk.pushed.length + wk.dropped + wk.inbox.length

theorem inOrder_rule (paged : List CwEvent) :
    BookRule w (fun _ l => ∀ i page, l ≠ .page i (some page)) (InOrder w paged) where
  writer _ h := ⟨h.prior, h.pushed, h.counted⟩
  move := by
    intro wk wk' l hpage move h
    cases move with
    | same => exact h
    | page => exact absurd rfl (hpage _ _)
    | @dropped ev rest hinbox hout =>
      refine ⟨h.prior, ?_, ?_⟩
      · rw [h.pushed, hinbox, List.filter_cons_of_neg (by rw [hout]; exact Bool.false_ne_true)]
      · have hcounted := h.counted
        rw [hinbox, List.length_cons] at hcounted
        simp only [h.prior, Option.isNone_none, if_true]
        omega
    | @drained ev rest hinbox hin =>
      refine ⟨h.prior, ?_, ?_⟩
      · rw [h.pushed, hinbox, List.filter_cons_of_pos hin, List.append_assoc]
        rfl
      · have hcounted := h.counted
        rw [hinbox, List.length_cons] at hcounted
        simp only [List.length_append, List.length_singleton]
        omega
    | already _ _ hsome => exact absurd h.prior hsome
    | appended _ _ hsome => exact absurd h.prior hsome

/-- A page goes into the inbox. -/
theorem InOrder.page {paged : List CwEvent} {wk : Work} (page : CwEventPage) (cursors : List Cursor)
    (h : InOrder w paged wk) (hinbox : wk.inbox = []) :
    InOrder w (paged ++ page.events) { wk with cursors := cursors, inbox := page.events } where
  prior := h.prior
  pushed := by
    have hpushed := h.pushed
    rw [hinbox, List.filter_nil, List.append_nil] at hpushed
    rw [List.filter_append, hpushed]
  counted := by
    have hcounted := h.counted
    rw [hinbox, List.length_nil, Nat.add_zero] at hcounted
    rw [List.length_append, hcounted]

theorem inOrder_pages (opts : DrainOptions) (shards : Option (List (List String))) (w : Window) :
    PageRule opts shards w (fun _ _ => True) (InOrder w) where
  prior h := h.prior
  fresh _ := ⟨rfl, rfl, rfl⟩
  rule := inOrder_rule
  page _ hinbox _ h := h.page _ _ hinbox

/-! ## A drain from its look-up to its end -/

/-- A window that a drain has come to with these pages, from the archive `a₀`. `B` holds
of its books. -/
def DrainHeld (env : Env) (opts : DrainOptions) (w : Window) (B : List CwEvent → Work → Prop)
    (a₀ : Archive) (paged : List CwEvent) (a : Archive) : Phase → Prop
  | .lookup => a.manifests = a₀.manifests ∧ paged = []
  | .work wk at_ => a.manifests = a₀.manifests ∧ B paged wk ∧
    WorkFiled env anyEtag opts w .base a.objects wk at_
  | .done out => out = .skip ∨ opts.dryRun = true ∨ ∃ wk nowMs, out = wk.outcome ∧
    B paged wk ∧ Finished env anyEtag opts w .base a.objects wk ∧
    a.manifests (taskKey env opts w) =
      some ((Work.manifest opts w wk nowMs).toJsonBytes env.serde)
  | .failed _ => a.manifests = a₀.manifests
  | .look => False
  | .read _ _ _ => False

variable {guard : Work → TaskLabel → Prop} {B : List CwEvent → Work → Prop}

/-- A move of a window that pages, other than a page, keeps its account. -/
theorem TaskMove.drainHeld {paged : List CwEvent} {wk : Work} {at_ : Await} {l : TaskLabel}
    {p' : Phase} {writes : List StoreWrite} (rule : PageRule opts shards w guard B)
    (hpage : ∀ i page, l ≠ .page i (some page))
    (move : TaskMove env opts shards w a events (.work wk at_) l p' writes)
    (h : DrainHeld env opts w B a₀ paged a (.work wk at_)) :
    DrainHeld env opts w B a₀ paged (applyWrites a writes) p' := by
  obtain ⟨hsame, hbooks, hfiled⟩ := h
  rcases work_filed (rule.rule paged) hpage (.any at_ l) move hbooks hfiled with
    ⟨hwrites, hphase⟩ | ⟨nowMs, hneeds, hfinished, rfl, rfl⟩
  · have hsame' : (applyWrites a writes).manifests = a₀.manifests := by
      rw [SlotWrite.manifests hwrites]
      exact hsame
    cases p' with
    | work wk' at_' =>
      obtain ⟨-, hbooks', hfiled'⟩ := hphase
      exact ⟨hsame', hbooks', hfiled'⟩
    | done out =>
      obtain ⟨wk', -, hprior, -, hdone⟩ := hphase
      refine .inr (.inl ?_)
      by_contra hdry
      exact (hdone (Bool.eq_false_iff.mpr hdry)).1 (rule.prior hbooks)
    | failed e => exact hsame'
    | look => exact hphase.elim
    | lookup => exact hphase.elim
    | read m rest seen => exact hphase.elim
  · exact .inr (.inr ⟨wk, nowMs, rfl, hbooks, hfinished, applyWrites_manifest _ _ _⟩)

theorem windowStep_drainHeld {past : List TaskLabel} {l : TaskLabel} {s t : Archive × Phase}
    (rule : PageRule opts shards w guard B) (answers : ∀ wk at_, s.2 = .work wk at_ → guard wk l)
    (h : DrainHeld env opts w B a₀ (pagedEvents past) s.1 s.2)
    (hstep : windowStep env opts shards w events s l = some t) :
    DrainHeld env opts w B a₀ (pagedEvents (past ++ [l])) t.1 t.2 := by
  obtain ⟨a, p⟩ := s
  obtain ⟨⟨p', writes⟩, htask, rfl⟩ := Option.map_eq_some_iff.mp hstep
  have move := taskStep_move htask
  rw [pagedEvents_concat]
  cases p with
  | look => exact h.elim
  | read m rest seen => exact h.elim
  | lookup =>
    obtain ⟨hsame, hpaged⟩ := h
    cases move with
    | fail => exact hsame
    | skip => exact .inl rfl
    | begin =>
      rw [hpaged]
      exact ⟨hsame, rule.fresh events, fun _ => ⟨[], [], Filed.new, rfl, rfl, rfl⟩⟩
  | work wk at_ =>
    by_cases hpage : ∃ i page, l = .page i (some page)
    · obtain ⟨i, page, rfl⟩ := hpage
      obtain ⟨hsame, hbooks, hfiled⟩ := h
      cases move with
      | fail => exact hsame
      | page hinbox hc =>
        exact ⟨hsame, rule.page (answers wk .pages rfl) hinbox hc hbooks, hfiled⟩
    · rw [not_exists] at hpage
      have hother : ∀ i page, l ≠ .page i (some page) := fun i page heq => hpage i ⟨page, heq⟩
      rw [pageEvents_eq_nil hother, List.append_nil]
      exact move.drainHeld rule hother h
  | done out =>
    rw [taskStep_ended (.inl ⟨out, rfl⟩)] at htask
    cases htask
  | failed e =>
    rw [taskStep_ended (.inr ⟨e, rfl⟩)] at htask
    cases htask

/-! ## What is read back -/

/-- The bodies of filed pieces, in the order of the list, decode to their records. -/
theorem Filed.read {E : EtagLaw} {naming : ObjectNaming} {objects : String → Option Bytes}
    {ww : WindowWriter} {pieces : List Piece} (h : Filed env E opts w naming objects ww pieces) :
    ww.objects.map (fun o => objects o.dataKey) =
        (pieces.map fun p => p.chunk.body).map some ∧
      (pieces.map fun p => p.chunk.body).flatMap (fun body =>
        recordLines env.lib.records (env.lib.zstd.decode body).1) =
          (pieces.map Piece.records).flatten.map some := by
  constructor
  · rw [h.listed]
    apply List.ext_getElem?
    intro i
    rw [List.getElem?_map, List.getElem?_mapIdx, List.getElem?_map, List.getElem?_map]
    cases hp : pieces[i]? with
    | none => rfl
    | some p => exact congrArg some (h.stored i p hp).data
  · rw [List.flatMap_map, ← List.flatMap_def, List.map_flatMap]
    apply List.flatMap_congr
    intro p hp
    have hdecode := (encodeAll_made (h.encoded p hp)).describes.decode
    simp only [hdecode, recordLines_text]

/-- What a drained window leaves: a proof of this window alone, whose objects have the
numbers from 0 on and hold what came, in order. -/
structure WindowDrained (env : Env) (opts : DrainOptions) (w : Window) (a : Archive)
    (paged : List CwEvent) (out : WindowOutcome) (bytes : Bytes) (m : Manifest) : Prop where
  stored : a.manifests (taskKey env opts w) = some bytes
  decoded : Manifest.fromJsonBytes env.serde bytes = .ok m
  covers : ∀ w' : Window,
    manifestCoversWindow env.serde bytes opts.account opts.logGroup w' = true ↔ w' = w
  numbered : ∀ (i : Nat) (o : ManifestObject), m.objects[i]? = some o →
    o.dataKey = ownKey env opts w .base i
  read : ∃ bodies : List Bytes, m.objects.map (fun o => a.objects o.dataKey) = bodies.map some ∧
    bodies.flatMap (fun body => recordLines env.lib.records (env.lib.zstd.decode body).1) =
      (paged.filter w.contains).map fun ev => some ev.toRecord
  counted : out.records + out.dropped = paged.length

/-- A drain of a window that returns leaves its pages in the archive, and one that
fails leaves every manifest as it was. -/
theorem window_drain_fidelity (env : Env) (opts : DrainOptions)
    (shards : Option (List (List String))) (w : Window) (events : List CwEvent) (a₀ a : Archive)
    (p : Phase) (labels : List TaskLabel)
    (hrun : LTS.exec (windowStep env opts shards w events) (a₀, .lookup) labels = some (a, p)) :
    (∀ out, p = .done out → out.skipped = false → opts.dryRun = false →
      ∃ bytes m, WindowDrained env opts w a (pagedEvents labels) out bytes m) ∧
    ∀ e, p = .failed e → a.manifests = a₀.manifests := by
  have hstart : DrainHeld env opts w (InOrder w) a₀ (pagedEvents []) a₀ .lookup := ⟨rfl, rfl⟩
  have hheld : DrainHeld env opts w (InOrder w) a₀ (pagedEvents labels) a p := by
    refine LTS.exec_invariant (t := (a, p))
      (I := fun past s => DrainHeld env opts w (InOrder w) a₀ (pagedEvents past) s.1 s.2) hstart ?_ hrun
    intro past l s t h hstep
    exact windowStep_drainHeld (inOrder_pages opts shards w) (fun _ _ _ => trivial) h hstep
  constructor
  · rintro out rfl hskip hdry
    rcases hheld with rfl | hdry' | ⟨wk, nowMs, rfl, hbooks, ⟨⟨hinbox, -⟩, pieces, hfiled,
      hrotated, hrecords⟩, hstored⟩
    · cases hskip
    · rw [hdry] at hdry'
      cases hdry'
    · have hnone : ∀ m, wk.prior = some m → m.version = manifestVersion := fun m hm => by
        rw [hbooks.prior] at hm
        cases hm
      obtain ⟨hdecoded, -⟩ := manifest_written env opts w wk nowMs hnone
      have hobjects : (Work.manifest opts w wk nowMs).objects = wk.ww.objects := by
        simp only [Work.manifest, hbooks.prior]
      have hpushed := hbooks.pushed
      have hcounted := hbooks.counted
      rw [hinbox, List.filter_nil, List.append_nil] at hpushed
      rw [hinbox, List.length_nil, Nat.add_zero] at hcounted
      obtain ⟨hbodies, hread⟩ := hfiled.read
      refine ⟨_, _, hstored, hdecoded, ?_, ?_, ⟨_, hobjects ▸ hbodies, ?_⟩, ?_⟩
      · intro w'
        rw [manifestCoversWindow_eq hdecoded]
        simp only [Work.manifest, hbooks.prior, Manifest.names, beq_self_eq_true, Bool.true_and,
          Bool.and_eq_true, beq_iff_eq]
        constructor
        · rintro ⟨hstart, hend⟩
          exact (Window.mk.injEq ..).mpr ⟨hstart.symm, hend.symm⟩
        · rintro rfl
          exact ⟨rfl, rfl⟩
      · intro i o ho
        rw [hobjects, hfiled.listed, List.getElem?_mapIdx] at ho
        obtain ⟨p, -, rfl⟩ := Option.map_eq_some_iff.mp ho
        rfl
      · rw [hread, hrotated, rotated_flatten, hpushed, Work.records, List.map_map]
        rfl
      · show wk.ww.records + wk.dropped = _
        rw [hrecords, hcounted, Work.records, List.length_map]
  · rintro e rfl
    exact hheld

/-- A drain has ended with these counts. -/
def Phase.drained (records dropped : Nat) : Phase → Bool
  | .done out => out.skipped == false && out.records == records && out.dropped == dropped
  | _ => false

namespace Concrete

/-- Two pages of the first day, with one event of the next, end up in two objects. -/
def twoPages : List TaskLabel :=
  [.get true, .page 0 (some ⟨[eventAt 5 "a", eventAt dayMs "b"], some "next"⟩), .event] ++
    List.replicate 3 (.put (some none)) ++ [.event, .page 0 (some ⟨[eventAt 3 "c"], none⟩), .event] ++
    List.replicate 3 (.put (some none)) ++ [.endPages, .putManifest true 1]

/-- A job that closes an object after every record. -/
def smallObjects : DrainOptions := { jobOptions 1 with chunkTargetBytes := 1 }

end Concrete

open Concrete in
/-- Two pages, with an event of the next day between two of the window. -/
theorem window_drain_fidelity_pages : ∃ (a : Archive) (out : WindowOutcome) (bytes : Bytes)
    (m : Manifest), out.records = 2 ∧ out.dropped = 1 ∧
      WindowDrained jobEnv smallObjects ⟨0, dayMs⟩ a
        [eventAt 5 "a", eventAt dayMs "b", eventAt 3 "c"] out bytes m := by
  have hcheck : (LTS.exec (windowStep jobEnv smallObjects none ⟨0, dayMs⟩ [])
      (Archive.empty, .lookup) twoPages).map (fun s => s.2.drained 2 1) = some true := by
    decide +kernel
  obtain ⟨⟨a, p⟩, hrun, hout⟩ := Option.map_eq_some_iff.mp hcheck
  cases p with
  | done out =>
    simp only [Phase.drained, Bool.and_eq_true, beq_iff_eq] at hout
    obtain ⟨hdrained, -⟩ := window_drain_fidelity jobEnv smallObjects none ⟨0, dayMs⟩ [] _ a _ _ hrun
    obtain ⟨bytes, m, hm⟩ := hdrained out rfl hout.1.1 rfl
    exact ⟨a, out, bytes, m, hout.1.2, hout.2, hm⟩
  | look => cases hout
  | lookup => cases hout
  | read m rest seen => cases hout
  | work wk at_ => cases hout
  | failed e => cases hout

end S4Logs

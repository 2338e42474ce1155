import S4Logs.Laws.Drain.Merged
import S4Logs.Laws.Drain.Repair

/-!
# Shards change the objects, not the records

However the events of a window are divided over cursors and pages, a drain that
returns has archived all of them, each once, and those of one stream in the order
of the contents (`ContentsArchived`). Where the objects are cut depends on the order
of the pages; how many records they hold and how many octets these took before
compression does not.
-/

namespace S4Logs

variable {env : Env} {opts : DrainOptions} {shards : Option (List (List String))} {w : Window}
variable {a a₀ : Archive} {events contents paged : List CwEvent} {wk : Work}

/-! ## What the objects of a manifest add up to -/

/-- The octets of the listed objects before compression. -/
def rawTotal (m : Manifest) : Nat := (m.objects.map fun o => o.rawBytes.getD 0).sum

/-- A text is as long as its lines together. -/
theorem SerdeLine.length_text {α : Type} (S : SerdeLine α) (as : List α) :
    (S.text as).length = (as.map fun a => (S.text [a]).length).sum := by
  induction as with
  | nil => rfl
  | cons a as ih =>
    have happend := S.text_append [a] as
    rw [List.singleton_append] at happend
    rw [happend, List.length_append, ih, List.map_cons, List.sum_cons]

theorem SerdeLine.length_text_perm {α : Type} (S : SerdeLine α) {as bs : List α}
    (h : as.Perm bs) : (S.text as).length = (S.text bs).length := by
  rw [S.length_text, S.length_text]
  exact (h.map _).sum_nat

/-- The text of groups put together is as long as their texts together. -/
theorem SerdeLine.length_text_flatten {α : Type} (S : SerdeLine α) (groups : List (List α)) :
    (groups.map fun as => (S.text as).length).sum = (S.text groups.flatten).length := by
  induction groups with
  | nil => rfl
  | cons as groups ih =>
    rw [List.map_cons, List.sum_cons, ih, List.flatten_cons, S.text_append, List.length_append]

/-- What the listed entries say that does not depend on their places. -/
theorem Filed.map_listed {E : EtagLaw} {naming : ObjectNaming} {objects : String → Option Bytes}
    {ww : WindowWriter} {pieces : List Piece} {β : Type} (f : ManifestObject → β) (g : Piece → β)
    (heq : ∀ p loc, f (Piece.entry env p loc) = g p)
    (h : Filed env E opts w naming objects ww pieces) : ww.objects.map f = pieces.map g := by
  rw [h.listed]
  apply List.ext_getElem?
  intro i
  rw [List.getElem?_map, List.getElem?_map, List.getElem?_mapIdx, Option.map_map]
  cases pieces[i]? with
  | none => rfl
  | some p => exact congrArg some (heq p _)

/-- The entries of pieces that are filed count the records and their octets. -/
theorem Filed.totals {E : EtagLaw} {naming : ObjectNaming} {objects : String → Option Bytes}
    {ww : WindowWriter} {pieces : List Piece} (h : Filed env E opts w naming objects ww pieces) :
    (ww.objects.map ManifestObject.recordCount).sum = (pieces.map Piece.records).flatten.length ∧
      (ww.objects.map fun o => o.rawBytes.getD 0).sum =
        (env.lib.records.text (pieces.map Piece.records).flatten).length := by
  have hmade : ∀ p ∈ pieces, p.chunk.recordCount = p.records.length ∧
      p.chunk.uncompressedBytes = (env.lib.records.text p.records).length := fun p hp =>
    have hdescribes := (encodeAll_made (h.encoded p hp)).describes
    ⟨hdescribes.recordCount, hdescribes.uncompressedBytes⟩
  constructor
  · rw [h.map_listed ManifestObject.recordCount (fun p => p.chunk.recordCount) fun _ _ => rfl,
      List.length_flatten, List.map_map]
    exact congrArg List.sum (List.map_congr_left fun p hp => (hmade p hp).1)
  · rw [h.map_listed (fun o => o.rawBytes.getD 0) (fun p => p.chunk.uncompressedBytes)
      fun _ _ => rfl, ← SerdeLine.length_text_flatten, List.map_map]
    exact congrArg List.sum (List.map_congr_left fun p hp => (hmade p hp).2)

/-- The manifest holds the events of the contents that lie in the window: each once, in
their order within a stream. -/
structure ContentsArchived (env : Env) (w : Window) (contents : List CwEvent) (a : Archive)
    (m : Manifest) : Prop where
  records : (listedRecords env.lib a.objects m.objects).Perm
    ((contents.filter w.contains).map CwEvent.toRecord)
  streams : ∀ name, (listedRecords env.lib a.objects m.objects).filter (fun r => r.stream == name) =
    ((contents.filter w.contains).map CwEvent.toRecord).filter fun r => r.stream == name
  recordCount : m.recordCount = (contents.filter w.contains).length
  rawTotal : rawTotal m =
    (env.lib.records.text ((contents.filter w.contains).map CwEvent.toRecord)).length

/-- The records of one stream come from its events. -/
theorem records_of_stream (evs : List CwEvent) (name : String) :
    ((evs.filter w.contains).map CwEvent.toRecord).filter (fun r => r.stream == name) =
      ((evs.filter fun ev => ev.logStreamName == name).filter w.contains).map CwEvent.toRecord := by
  rw [List.filter_map, List.filter_filter, List.filter_filter]
  refine congrArg _ (List.filter_congr fun ev _ => ?_)
  exact Bool.and_comm _ _

theorem Finished.contentsArchived (nowMs : Int) (hreads : ∀ ev ∈ contents, Reads shards ev)
    (hbooks : Merging contents shards w paged wk)
    (h : Finished env anyEtag opts w .base a.objects wk) :
    ContentsArchived env w contents a (Work.manifest opts w wk nowMs) := by
  obtain ⟨hend, pieces, hfiled, hrotated, -⟩ := h
  have hprior := hbooks.inOrder.prior
  have hpushed := hbooks.inOrder.pushed
  rw [hend.1, List.filter_nil, List.append_nil] at hpushed
  have hflat : (pieces.map Piece.records).flatten =
      (paged.filter w.contains).map CwEvent.toRecord := by
    rw [hrotated, rotated_flatten, Work.records, hpushed]
  have hobjects : (Work.manifest opts w wk nowMs).objects = wk.ww.objects := by
    simp only [Work.manifest, hprior]
  have hlisted : listedRecords env.lib a.objects (Work.manifest opts w wk nowMs).objects =
      (paged.filter w.contains).map CwEvent.toRecord := by
    rw [hobjects, hfiled.listedRecords, hflat]
  have hperm := ((hbooks.perm hend hreads).filter w.contains).map CwEvent.toRecord
  obtain ⟨hcount, hsize⟩ := hfiled.totals
  rw [hflat] at hcount hsize
  constructor
  · rw [hlisted]
    exact hperm
  · intro name
    rw [hlisted, records_of_stream, records_of_stream, hbooks.stream hend hreads name]
  · have hsum : (Work.manifest opts w wk nowMs).recordCount =
        (wk.ww.objects.map ManifestObject.recordCount).sum := by
      simp only [Work.manifest, hprior]
    rw [hsum, hcount, hperm.length_eq, List.length_map]
  · rw [S4Logs.rawTotal, hobjects, hsize]
    exact SerdeLine.length_text_perm _ hperm

/-! ## Runs of one window -/

/-- The answers to a window by itself. -/
def PagesOf (contents : List CwEvent) (s : Archive × Phase) (l : TaskLabel) : Prop :=
  s.2.ContentPage contents l

instance PagesOf.decidable (contents : List CwEvent) (s : Archive × Phase) (l : TaskLabel) :
    Decidable (PagesOf contents s l) :=
  inferInstanceAs (Decidable (s.2.ContentPage contents l))

/-- A page that fails fails the window. -/
theorem taskStep_page_none {p p' : Phase} {i : Nat} {writes : List StoreWrite}
    (h : taskStep env opts shards w a events p (.page i none) = some (p', writes)) :
    ∃ e, p' = .failed e := by
  cases taskStep_move h with
  | fail => exact ⟨_, rfl⟩

/-- The run keeps its account, and it has failed where a page has. -/
theorem contents_held {labels : List TaskLabel} {p : Phase} (hapart : ShardsApart shards)
    (hanswers : LTS.Along (windowStep env opts shards w events) (PagesOf contents) (a₀, .lookup)
      labels)
    (hrun : LTS.exec (windowStep env opts shards w events) (a₀, .lookup) labels = some (a, p)) :
    DrainHeld env opts w (Merging contents shards w) a₀ (pagedEvents labels) a p ∧
      ((∃ i, .page i none ∈ labels) → ∃ e, p = .failed e) := by
  refine hanswers.invariant (t := (a, p)) (I := fun past s =>
    DrainHeld env opts w (Merging contents shards w) a₀ (pagedEvents past) s.1 s.2 ∧
      ((∃ i, .page i none ∈ past) → ∃ e, s.2 = .failed e)) ?_ ?_ hrun
  · refine ⟨⟨rfl, rfl⟩, ?_⟩
    rintro ⟨i, hi⟩
    exact absurd hi List.not_mem_nil
  · intro past l s t h hok hstep
    obtain ⟨hheld, hfailed⟩ := h
    refine ⟨windowStep_drainHeld (merging_pages opts w contents hapart) (fun wk at_ hp => ?_) hheld
      hstep, ?_⟩
    · rw [PagesOf, hp] at hok
      exact hok
    · obtain ⟨⟨p', writes⟩, htask, rfl⟩ := Option.map_eq_some_iff.mp hstep
      rintro ⟨i, hi⟩
      rcases List.mem_append.mp hi with hold | hnew
      · obtain ⟨e, he⟩ := hfailed ⟨i, hold⟩
        rw [taskStep_ended (.inr ⟨e, he⟩)] at htask
        cases htask
      · obtain rfl := List.mem_singleton.mp hnew
        exact taskStep_page_none htask

/-- A run that returned has archived the contents. -/
theorem contents_archived {labels : List TaskLabel} {out : WindowOutcome} (hdry : opts.dryRun = false)
    (hapart : ShardsApart shards) (hreads : ∀ ev ∈ contents, Reads shards ev)
    (hanswers : LTS.Along (windowStep env opts shards w events) (PagesOf contents) (a₀, .lookup)
      labels)
    (hrun : LTS.exec (windowStep env opts shards w events) (a₀, .lookup) labels =
      some (a, .done out))
    (hskip : out.skipped = false) : ∃ bytes m, a.manifests (taskKey env opts w) = some bytes ∧
      Manifest.fromJsonBytes env.serde bytes = .ok m ∧ ContentsArchived env w contents a m := by
  obtain ⟨hheld, -⟩ := contents_held hapart hanswers hrun
  rcases hheld with rfl | hdry' | ⟨wk, nowMs, rfl, hbooks, hfinished, hstored⟩
  · cases hskip
  · rw [hdry] at hdry'
    cases hdry'
  · obtain ⟨hdecoded, -⟩ := manifest_written env opts w wk nowMs fun m hm => by
      rw [hbooks.inOrder.prior] at hm
      cases hm
    exact ⟨_, _, hstored, hdecoded, hfinished.contentsArchived nowMs hreads hbooks⟩

/-- Two manifests list the same records: as many, of as many octets, and those of a
stream in the order of the contents. -/
structure SameRecords (env : Env) (w : Window) (contents : List CwEvent) (a b : Archive)
    (m m' : Manifest) : Prop where
  records : (listedRecords env.lib a.objects m.objects).Perm
    (listedRecords env.lib b.objects m'.objects)
  streams : ∀ name, (listedRecords env.lib a.objects m.objects).filter (fun r => r.stream == name) =
    ((contents.filter w.contains).map CwEvent.toRecord).filter fun r => r.stream == name
  recordCount : m.recordCount = m'.recordCount
  rawTotal : rawTotal m = rawTotal m'

theorem ContentsArchived.same {b : Archive} {m m' : Manifest}
    (h : ContentsArchived env w contents a m) (h' : ContentsArchived env w contents b m') :
    SameRecords env w contents a b m m' where
  records := h.records.trans h'.records.symm
  streams := h.streams
  recordCount := h.recordCount.trans h'.recordCount.symm
  rawTotal := h.rawTotal.trans h'.rawTotal.symm

/-- A drain over the shards of a complete listing: no call names too many streams, a
page that fails fails the window and leaves every manifest, and a window that returns
has archived what it archives unsharded. -/
theorem sharded_same_records (env : Env) (opts : DrainOptions) (pre : Preamble)
    (names : List String) (shards : Option (List (List String))) (w : Window)
    (contents events : List CwEvent) (a₀ a : Archive) (p : Phase) (labels : List TaskLabel)
    (hdry : opts.dryRun = false) (hnames : pre.streams = some names) (hnodup : names.Nodup)
    (hcomplete : ∀ ev ∈ contents, ev.logStreamName ∈ names)
    (hshards : computeShards opts pre = .ok shards)
    (hanswers : LTS.Along (windowStep env opts shards w events) (PagesOf contents) (a₀, .lookup)
      labels)
    (hrun : LTS.exec (windowStep env opts shards w events) (a₀, .lookup) labels = some (a, p)) :
    (∀ wk at_, p = .work wk at_ → ∀ c ∈ wk.cursors, ∀ streams, c.streams = some streams →
      streams.length ≤ maxStreamsPerFilter) ∧
    ((∃ i, .page i none ∈ labels) → (∃ e, p = .failed e) ∧ a.manifests = a₀.manifests) ∧
    ∀ out, p = .done out → out.skipped = false →
      ∀ (b₀ b : Archive) (labels' : List TaskLabel) (out' : WindowOutcome),
        LTS.Along (windowStep env { opts with shardStreams := 1 } none w events) (PagesOf contents)
          (b₀, .lookup) labels' →
        LTS.exec (windowStep env { opts with shardStreams := 1 } none w events) (b₀, .lookup)
          labels' = some (b, .done out') → out'.skipped = false →
        ∃ bytes bytes' m m', a.manifests (taskKey env opts w) = some bytes ∧
          b.manifests (taskKey env opts w) = some bytes' ∧
          Manifest.fromJsonBytes env.serde bytes = .ok m ∧
          Manifest.fromJsonBytes env.serde bytes' = .ok m' ∧
          SameRecords env w contents a b m m' := by
  obtain ⟨hapart, hsize⟩ := computeShards_apart hshards fun names' hnames' => by
    rw [hnames] at hnames'
    exact Option.some.inj hnames' ▸ hnodup
  have hreads : ∀ ev ∈ contents, Reads shards ev := fun ev hev =>
    (reads_listed hshards hnames).1 (hcomplete ev hev)
  obtain ⟨hheld, hfailed⟩ := contents_held hapart hanswers hrun
  refine ⟨?_, fun hpage => ?_, ?_⟩
  · rintro wk at_ rfl c hc streams hstreams
    have hmem : c.streams ∈ (eventPages shards).map Cursor.streams := by
      rw [← hheld.2.1.filters]
      exact List.mem_map_of_mem hc
    obtain ⟨c₀, hc₀, heq⟩ := List.mem_map.mp hmem
    exact hsize c₀ hc₀ streams (heq.trans hstreams)
  · obtain ⟨e, rfl⟩ := hfailed hpage
    exact ⟨⟨e, rfl⟩, hheld⟩
  · rintro out rfl hskip b₀ b labels' out' hanswers' hrun' hskip'
    have hnone : ShardsApart none := List.pairwise_singleton _ _
    obtain ⟨bytes, m, hbytes, hm, harchived⟩ :=
      contents_archived hdry hapart hreads hanswers hrun hskip
    have hdry' : DrainOptions.dryRun { opts with shardStreams := 1 } = false := hdry
    obtain ⟨bytes', m', hbytes', hm', harchived'⟩ :=
      contents_archived hdry' hnone (fun ev _ => reads_unsharded ev) hanswers' hrun' hskip'
    exact ⟨bytes, bytes', m, m', hbytes, hbytes', hm, hm', harchived.same harchived'⟩

/-- A window that was not skipped is closed. -/
def Phase.archived : Phase → Bool
  | .done out => !out.skipped
  | _ => false

theorem Phase.archived_spec {p : Phase} (h : p.archived = true) :
    ∃ out, p = .done out ∧ out.skipped = false := by
  cases p with
  | done out => exact ⟨out, rfl, Bool.not_eq_true' _ ▸ h⟩
  | look => cases h
  | lookup => cases h
  | read m rest seen => cases h
  | work wk at_ => cases h
  | failed e => cases h

namespace Concrete

/-- An event of a stream. -/
def streamEvent (timestamp : Int) (stream message : String) : CwEvent where
  timestamp := timestamp
  message := message
  logStreamName := stream
  ingestionTime := none
  eventId := none

/-- One event in each of two streams. -/
def twoStreams : List CwEvent := [streamEvent 1 "x" "a", streamEvent 3 "y" "b"]

/-- A sharded job that closes an object after every record. -/
def smallShards : DrainOptions := { jobOptions 2 with chunkTargetBytes := 1 }

/-- The pages of two shards, the second shard first. -/
def secondFirst : List TaskLabel :=
  [.get true, .page 1 (some ⟨[streamEvent 3 "y" "b"], none⟩), .event] ++
    List.replicate 3 (.put (some none)) ++
    [.page 0 (some ⟨[streamEvent 1 "x" "a"], none⟩), .event] ++
    List.replicate 3 (.put (some none)) ++ [.endPages, .putManifest true 1]

/-- The same events in one page. -/
def together : List TaskLabel :=
  [.get true, .page 0 (some ⟨twoStreams, none⟩), .event] ++ List.replicate 3 (.put (some none)) ++
    [.event] ++ List.replicate 3 (.put (some none)) ++ [.endPages, .putManifest true 1]

end Concrete

open Concrete in
/-- The second of two shards goes first, and both streams come together. -/
theorem sharded_same_records_swapped : ∃ (a b : Archive) (m m' : Manifest),
    SameRecords jobEnv ⟨0, dayMs⟩ twoStreams a b m m' := by
  have hcheck : (LTS.exec (windowStep jobEnv smallShards (some [["x"], ["y"]]) ⟨0, dayMs⟩ [])
      (Archive.empty, .lookup) secondFirst).map (fun s => s.2.archived) = some true := by
    decide +kernel
  have hcheck' : (LTS.exec (windowStep jobEnv { smallShards with shardStreams := 1 } none ⟨0, dayMs⟩
      []) (Archive.empty, .lookup) together).map (fun s => s.2.archived) = some true := by
    decide +kernel
  obtain ⟨⟨a, p⟩, hrun, hp⟩ := Option.map_eq_some_iff.mp hcheck
  obtain ⟨⟨b, p'⟩, hrun', hp'⟩ := Option.map_eq_some_iff.mp hcheck'
  obtain ⟨out, rfl, hskip⟩ := Phase.archived_spec hp
  obtain ⟨out', rfl, hskip'⟩ := Phase.archived_spec hp'
  obtain ⟨-, -, hsame⟩ := sharded_same_records jobEnv smallShards (preamble ["x", "y"]) ["x", "y"]
    (some [["x"], ["y"]]) ⟨0, dayMs⟩ twoStreams [] _ a _ secondFirst rfl rfl (by decide)
    (by decide) rfl (by decide +kernel) hrun
  obtain ⟨-, -, m, m', -, -, -, -, hrecords⟩ := hsame out rfl hskip _ b together out'
    (by decide +kernel) hrun' hskip'
  exact ⟨a, b, m, m', hrecords⟩

end S4Logs

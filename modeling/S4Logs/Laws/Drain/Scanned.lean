import S4Logs.Laws.Cli.Restored
import S4Logs.Laws.Drain.Converge
import S4Logs.Laws.Drain.Grid
import S4Logs.Laws.Drain.Received

/-!
# A scan of what a drain left

The bucket of a drain that returned holds the data objects of its windows and no others under
the group's prefix, whichever runs were broken off before: each is a writer's chunk, in the
partition of its records, beside its own sidecars. So a scan of the group emits what
CloudWatch answered for the windows, each event once.
-/

namespace S4Logs

variable {env : Env} {lib : ReaderLib} {opts : DrainOptions} {C : FixedCloud} {wins : List Window}
variable {pre : Preamble} {w : Window} {a : Archive} {t : Sys} {store : ObjectStore}

/-- A bucket that holds an archive: its objects and its manifests. -/
structure ObjectStore.Shows (store : ObjectStore) (env : Env) (a : Archive) : Prop where
  keyPrefix : store.keyPrefix = env.store.keyPrefix
  distinct : store.Distinct
  objects : ∀ key, Assoc.get? key store.objects = (a.objects key).or (a.manifests key)

/-- What a drain left for each of its windows: all its pieces, and its manifest. -/
structure LaidOut (env : Env) (opts : DrainOptions) (C : FixedCloud) (wins : List Window)
    (a : Archive) : Prop extends Converging env opts C wins a where
  grid : ∀ w ∈ wins, GridWindow opts.windowMs w
  once : wins.Nodup
  late : ∀ w ∈ wins, w.endMs ≤ i64Max
  stored : ∀ w ∈ wins, ∃ pieces, AllStored env opts C w a.objects pieces

/-- Where the piece of a window lies that has this number. -/
def pieceLocation (opts : DrainOptions) (w : Window) (i : Nat) : ChunkLocation :=
  (Slot.of opts w .base i).location opts.logGroup

theorem pieceLocation_plain (haccount : '/' ∉ opts.account.toList) (w : Window) (i : Nat) :
    (pieceLocation opts w i).Plain where
  account := haccount
  date := slash_notMem_date w.startMs
  name := ObjectNaming.slash_notMem_name .base w.startMs i

namespace LaidOut

/-- What the bucket holds under a key of objects is what the archive holds there. -/
theorem get?_eq (hstore : store.Shows env a) (h : LaidOut env opts C wins a)
    {loc : ChunkLocation} {key : String} (hkey : key ∈ loc.keys env.store.keyPrefix) :
    Assoc.get? key store.objects = a.objects key := by
  rw [hstore.objects]
  cases hmanifest : a.manifests key with
  | none => exact Option.or_none
  | some bytes =>
    obtain ⟨w, -, -, -, rfl, -, -⟩ := h.manifests key bytes hmanifest
    obtain ⟨hdata, hindex, htsIndex⟩ := manifestKey_ne loc env.store.keyPrefix opts.account
      opts.logGroup w.startMs w.endMs
    simp only [ChunkLocation.keys, List.mem_cons, List.not_mem_nil, or_false] at hkey
    rcases hkey with heq | heq | heq
    · exact absurd heq hdata
    · exact absurd heq hindex
    · exact absurd heq htsIndex

/-- A data object of the archive is a piece of a window, at its place. -/
theorem piece_of_dataKey (h : LaidOut env opts C wins a) {loc : ChunkLocation} {body : Bytes}
    (hbody : a.objects (loc.dataKey env.store.keyPrefix) = some body) :
    ∃ w ∈ wins, ∃ pieces, AllStored env opts C w a.objects pieces ∧ ∃ i p,
      pieces[i]? = some p ∧ body = p.chunk.body ∧
      loc.dataKey env.store.keyPrefix = (pieceLocation opts w i).dataKey env.store.keyPrefix := by
  obtain ⟨w, hw, i, p, hp, hput⟩ := h.objects _ _ hbody
  obtain ⟨pieces, hstored⟩ := h.stored w hw
  have hne := dataKey_ne_sidecar loc ((Slot.of opts w .base i).location opts.logGroup)
    env.store.keyPrefix
  rcases Piece.mem_puts.mp hput with ⟨hkey, rfl⟩ | ⟨hkey, -⟩ | ⟨hkey, -⟩
  · exact ⟨w, hw, pieces, hstored, i, p, hstored.known.getElem? hp, rfl, hkey⟩
  · exact absurd hkey hne.1
  · exact absurd hkey hne.2

/-- The data objects of the group are the pieces of the windows. -/
theorem mem_groupObjects_iff (haccount : '/' ∉ opts.account.toList) (hstore : store.Shows env a)
    (h : LaidOut env opts C wins a) {o : String × Bytes} :
    o ∈ store.groupObjects opts.account opts.logGroup ↔
      ∃ w ∈ wins, ∃ pieces, AllStored env opts C w a.objects pieces ∧ ∃ i p,
        pieces[i]? = some p ∧
        o = ((pieceLocation opts w i).dataKey env.store.keyPrefix, p.chunk.body) := by
  obtain ⟨key, body⟩ := o
  constructor
  · intro ho
    obtain ⟨loc, hloc, hget⟩ := ObjectStore.mem_groupObjects hstore.distinct ho
    have hgroup := (List.mem_filter.mp ho).2
    rw [Bool.and_eq_true, List.isPrefixOf_iff_prefix] at hgroup
    obtain ⟨-, -, hkey⟩ := ChunkLocation.of_parseDataKey hgroup.1 hloc
    rw [hstore.keyPrefix] at hget hkey
    rw [h.get?_eq hstore List.mem_cons_self] at hget
    obtain ⟨w, hw, pieces, hstored, i, p, hp, hbody, heq⟩ := h.piece_of_dataKey hget
    exact ⟨w, hw, pieces, hstored, i, p, hp, Prod.ext (hkey.symm.trans heq) hbody⟩
  · rintro ⟨w, -, pieces, hstored, i, p, hp, heq⟩
    obtain ⟨rfl, rfl⟩ := Prod.mk.inj heq
    have hplain := pieceLocation_plain haccount w i
    have hget := (h.get?_eq hstore List.mem_cons_self).trans (hstored.stored i p hp).data
    refine List.mem_filter.mpr ⟨Assoc.mem_of_get? hget, ?_⟩
    rw [Bool.and_eq_true, List.isPrefixOf_iff_prefix, hstore.keyPrefix,
      ChunkLocation.dataGroupPrefix_iff hplain, ChunkLocation.parseDataKey_dataKey hplain]
    exact ⟨⟨rfl, rfl⟩, rfl⟩

/-- The group is archived as a reader needs it. -/
theorem groupArchived (haccount : '/' ∉ opts.account.toList) (hlib : env.lib = lib.toCodecLib)
    (hstore : store.Shows env a) (h : LaidOut env opts C wins a)
    (hsmall : ∀ w ∈ wins, ∀ group ∈ rotated env.lib opts.chunkTargetBytes (C.records w),
      (env.lib.records.text group).length ≤ fallbackDecodeCapBytes) :
    store.GroupArchived lib opts.account opts.logGroup := by
  intro o ho loc hloc
  obtain ⟨w, hw, pieces, hstored, i, p, hp, rfl⟩ := (h.mem_groupObjects_iff haccount hstore).mp ho
  rw [hstore.keyPrefix, ChunkLocation.parseDataKey_dataKey (pieceLocation_plain haccount w i)] at hloc
  obtain rfl := Option.some.inj hloc
  have hpiece := hstored.known.piece i p hp
  have hmade := encodeAll_made hpiece.encoded
  have hplace : p.StoredAt env a.objects (pieceLocation opts w i) := hstored.stored i p hp
  have hrecords : ∀ r ∈ p.records, ∃ ev, w.contains ev = true ∧ ev.toRecord = r := by
    intro r hr
    have hmem : r ∈ C.records w := by
      rw [← rotated_flatten (C.records w)]
      exact List.mem_flatten.mpr ⟨p.records, List.mem_of_getElem? hpiece.group, hr⟩
    obtain ⟨ev, hev, rfl⟩ := List.mem_map.mp hmem
    exact ⟨ev, (List.mem_filter.mp hev).2, rfl⟩
  have hrange : InI64 p.records := by
    intro r hr
    obtain ⟨ev, hin, rfl⟩ := hrecords r hr
    have hstart := (h.grid w hw).nonneg
    have hend := h.late w hw
    simp only [Window.contains, Bool.and_eq_true, decide_eq_true_eq] at hin
    unfold i64Min CwEvent.toRecord
    dsimp only
    omega
  refine ⟨p.chunk, p.records, rfl, hlib ▸ hmade, fun r hr => ?_, ?_, fun idx hidx => ?_,
    fun ts hts => ?_⟩
  · obtain ⟨ev, hin, rfl⟩ := hrecords r hr
    exact (h.grid w hw).date hin
  · rw [hmade.describes.uncompressedBytes]
    exact hsmall w hw _ (List.mem_of_getElem? hpiece.group)
  · have hkey : (pieceLocation opts w i).indexKey env.store.keyPrefix ∈
        (pieceLocation opts w i).keys env.store.keyPrefix :=
      List.mem_cons_of_mem _ List.mem_cons_self
    have hget := h.get?_eq hstore hkey
    rw [ObjectStore.storedIndex, hstore.keyPrefix, hget, hplace.index, Option.bind_some, hlib] at hidx
    rw [lib.decodeIndex_encodeIndex hidx]
  · have hkey : (pieceLocation opts w i).tsIndexKey env.store.keyPrefix ∈
        (pieceLocation opts w i).keys env.store.keyPrefix :=
      List.mem_cons_of_mem _ (List.mem_cons_of_mem _ List.mem_cons_self)
    have hget := h.get?_eq hstore hkey
    rw [ObjectStore.storedTsIndex, hstore.keyPrefix, hget, hplace.tsIndex, Option.bind_some,
      Option.mem_def, Fallible.toOption_eq_some] at hts
    rw [decodeTsIndex_encodeTsIndex (hmade.fits hrange) hts]

/-! ## Its records -/

/-- The data objects of a window. -/
def windowObjects (env : Env) (opts : DrainOptions) (w : Window) (pieces : List Piece) :
    List (String × Bytes) :=
  pieces.zipIdx.map fun x =>
    ((pieceLocation opts w x.2).dataKey env.store.keyPrefix, x.1.chunk.body)

theorem mem_windowObjects {pieces : List Piece} {o : String × Bytes} :
    o ∈ windowObjects env opts w pieces ↔ ∃ i p, pieces[i]? = some p ∧
      o = ((pieceLocation opts w i).dataKey env.store.keyPrefix, p.chunk.body) := by
  constructor
  · intro ho
    obtain ⟨⟨p, i⟩, hx, rfl⟩ := List.mem_map.mp ho
    exact ⟨i, p, List.mk_mem_zipIdx_iff_getElem?.mp hx, rfl⟩
  · rintro ⟨i, p, hp, rfl⟩
    exact List.mem_map.mpr ⟨(p, i), List.mk_mem_zipIdx_iff_getElem?.mpr hp, rfl⟩

/-- Together they hold the records of the window. -/
theorem windowObjects_records {pieces : List Piece} (h : PiecesOf env opts C w pieces) :
    ((windowObjects env opts w pieces).flatMap fun o => objectRecords env.lib o.2) = C.records w := by
  have hbody : ∀ x ∈ pieces.zipIdx, objectRecords env.lib x.1.chunk.body = x.1.records := by
    intro x hx
    have hp := h.piece x.2 x.1 (List.mk_mem_zipIdx_iff_getElem?.mp hx)
    exact (encodeAll_made hp.encoded).describes.objectRecords
  calc ((windowObjects env opts w pieces).flatMap fun o => objectRecords env.lib o.2)
      = pieces.zipIdx.flatMap fun x => objectRecords env.lib x.1.chunk.body := List.flatMap_map ..
    _ = pieces.zipIdx.flatMap fun x => x.1.records := List.flatMap_congr hbody
    _ = (pieces.map Piece.records).flatten := by
        rw [← List.flatMap_def, ← List.flatMap_map Prod.fst Piece.records, List.zipIdx_map_fst]
    _ = C.records w := by rw [h.groups, rotated_flatten]

/-- A place tells its window and number. -/
theorem pieceLocation_inj (h : LaidOut env opts C wins a) {w w' : Window} (hw : w ∈ wins)
    (hw' : w' ∈ wins) {i i' : Nat} (heq : (pieceLocation opts w i).dataKey env.store.keyPrefix =
      (pieceLocation opts w' i').dataKey env.store.keyPrefix) : w = w' ∧ i = i' := by
  have hin : (Slot.of opts w .base i).In fun _ w => GridWindow opts.windowMs w :=
    ⟨h.grid w hw, trivial⟩
  have hin' : (Slot.of opts w' .base i').In fun _ w => GridWindow opts.windowMs w :=
    ⟨h.grid w' hw', trivial⟩
  have hslot := Slot.eq_of_dataKey (GridWindow.apart opts.windowMs) hin hin' heq
  exact ⟨congrArg Slot.window hslot, congrArg Slot.seq hslot⟩

/-- No data object is of two pieces. -/
theorem windowObjects_nodup (h : LaidOut env opts C wins a) (pieces : Window → List Piece) :
    (wins.flatMap fun w => windowObjects env opts w (pieces w)).Nodup := by
  refine List.nodup_flatMap.mpr ⟨fun w hw => ?_, ?_⟩
  · refine List.Nodup.map_on (fun x hx y hy heq => ?_) (List.Nodup.of_map Prod.snd ?_)
    · have hnumber := (h.pieceLocation_inj hw hw (Prod.mk.inj heq).1).2
      have hpx := List.mk_mem_zipIdx_iff_getElem?.mp hx
      have hpy := List.mk_mem_zipIdx_iff_getElem?.mp hy
      rw [hnumber] at hpx
      exact Prod.ext (Option.some.inj (hpx.symm.trans hpy)) hnumber
    · rw [List.zipIdx_map_snd]
      exact List.nodup_range'
  · refine h.once.pairwise_of_forall_ne fun w hw w' hw' hne o ho ho' => hne ?_
    obtain ⟨i, p, -, rfl⟩ := mem_windowObjects.mp ho
    obtain ⟨i', p', -, heq⟩ := mem_windowObjects.mp ho'
    exact (h.pieceLocation_inj hw hw' (Prod.mk.inj heq).1).1

/-- The group holds the records of the windows, each once. -/
theorem groupRecords_perm (haccount : '/' ∉ opts.account.toList) (hlib : env.lib = lib.toCodecLib)
    (hstore : store.Shows env a) (h : LaidOut env opts C wins a) :
    (store.groupRecords lib opts.account opts.logGroup).Perm (wins.flatMap C.records) := by
  have hpieces : ∀ w, ∃ pieces, w ∈ wins → AllStored env opts C w a.objects pieces := by
    intro w
    by_cases hw : w ∈ wins
    · obtain ⟨pieces, hstored⟩ := h.stored w hw
      exact ⟨pieces, fun _ => hstored⟩
    · exact ⟨[], fun hw' => absurd hw' hw⟩
  choose pieces hpieces using hpieces
  have hobjects : (store.groupObjects opts.account opts.logGroup).Perm
      (wins.flatMap fun w => windowObjects env opts w (pieces w)) := by
    refine (List.perm_ext_iff_of_nodup ?_ (h.windowObjects_nodup pieces)).mpr fun o => ?_
    · exact (List.Nodup.of_map Prod.fst hstore.distinct).filter _
    · rw [h.mem_groupObjects_iff haccount hstore, List.mem_flatMap]
      refine exists_congr fun w => and_congr_right fun hw => ?_
      rw [mem_windowObjects]
      constructor
      · rintro ⟨pieces', hstored, hp⟩
        rwa [hstored.known.unique (hpieces w hw).known] at hp
      · exact fun hp => ⟨pieces w, hpieces w hw, hp⟩
  refine (hobjects.flatMap_right _).trans (.of_eq ?_)
  rw [List.flatMap_assoc]
  refine List.flatMap_congr fun w hw => ?_
  rw [← windowObjects_records (hpieces w hw).known, hlib]

/-- The archive fits in a bucket. -/
theorem shown (h : LaidOut env opts C wins a) : ∃ store : ObjectStore, store.Shows env a ∧ store.Up := by
  let held (key : String) : Option Bytes := (a.objects key).or (a.manifests key)
  let keys : List String := (wins.flatMap fun w => taskKey env opts w ::
    (List.range (rotated env.lib opts.chunkTargetBytes (C.records w)).length).flatMap fun i =>
      (pieceLocation opts w i).keys env.store.keyPrefix).dedup
  have hkeys : ∀ key body, held key = some body → key ∈ keys := by
    intro key body hheld
    rw [List.mem_dedup, List.mem_flatMap]
    rcases Option.or_eq_some_iff.mp hheld with hobject | ⟨-, hmanifest⟩
    · obtain ⟨w, hw, i, p, hp, hput⟩ := h.objects key body hobject
      obtain ⟨hi, -⟩ := List.getElem?_eq_some_iff.mp hp.group
      refine ⟨w, hw, List.mem_cons_of_mem _ (List.mem_flatMap.mpr ⟨i, List.mem_range.mpr hi, ?_⟩)⟩
      exact Piece.key_of_puts hput
    · obtain ⟨w, hw, -, -, rfl, -, -⟩ := h.manifests key body hmanifest
      exact ⟨w, hw, List.mem_cons_self⟩
  let objects : List (String × Bytes) := keys.filterMap fun key => (held key).map (key, ·)
  have hdistinct : (Assoc.keys objects).Nodup := by
    have hnames : Assoc.keys objects = keys.filterMap fun key => (held key).map fun _ => key := by
      rw [Assoc.keys, List.map_filterMap]
      refine List.filterMap_congr fun key _ => ?_
      rw [Option.map_map]
      rfl
    rw [hnames]
    refine (List.nodup_dedup _).filterMap fun key key' name hname hname' => ?_
    obtain ⟨-, -, rfl⟩ := Option.map_eq_some_iff.mp hname
    obtain ⟨-, -, rfl⟩ := Option.map_eq_some_iff.mp hname'
    rfl
  refine ⟨⟨env.store.keyPrefix, objects, fun _ => true⟩, ⟨rfl, hdistinct, fun key => ?_⟩,
    fun _ => rfl⟩
  cases hheld : held key with
  | some body =>
    refine (Assoc.get?_of_mem hdistinct ?_).trans hheld.symm
    exact List.mem_filterMap.mpr ⟨key, hkeys key body hheld, by rw [hheld]; rfl⟩
  | none =>
    refine (Assoc.get?_eq_none.mpr fun hmem => ?_).trans hheld.symm
    obtain ⟨⟨key', body⟩, ho, rfl⟩ := List.mem_map.mp hmem
    obtain ⟨key'', -, heq⟩ := List.mem_filterMap.mp ho
    obtain ⟨body', hbody, hpair⟩ := Option.map_eq_some_iff.mp heq
    obtain ⟨rfl, -⟩ := Prod.mk.inj hpair
    rw [hheld] at hbody
    cases hbody

end LaidOut

/-! ## A drain, then a scan -/

/-- What a drain that returned leaves, unless it ran dry. -/
theorem Drained.archived {fromMs toMs : Int} (hone : opts.shardStreams ≤ 1)
    (hdry : opts.dryRun = false) (hrange : resolveRange opts pre = .ok (fromMs, toMs))
    (hwins : windows fromMs toMs opts.windowMs = .ok wins) (h : Drained env C opts pre t) :
    LaidOut env opts C wins t.archive := by
  obtain ⟨hconv, -, hcovered⟩ := h.converging hone hrange hwins
  have hmem := fun w => mem_windows_iff hwins (w := w)
  have grid : ∀ w ∈ wins, GridWindow opts.windowMs w := fun w hw => ((hmem w).mp hw).1
  obtain ⟨hi, htiles⟩ := windows_tiles hwins
  refine ⟨hconv, grid, htiles.nodup.of_map _, fun w hw => ?_, fun w hw => ?_⟩
  · obtain ⟨hpos, hfrom, -⟩ := windows_walk hwins
    obtain ⟨-, -, hend⟩ := (hmem w).mp hw
    have hstart := (grid w hw).nonneg
    have hlate := ((windows_ok_iff hpos hfrom (by omega)).mp ⟨wins, hwins⟩).2
    unfold lastDay at hlate
    unfold i64Max
    omega
  · obtain ⟨bytes, hbytes⟩ := (hcovered hdry w hw).manifest
    obtain ⟨pieces, -, hstored, -⟩ := hconv.at_key grid hw hbytes
    exact ⟨pieces, hstored⟩

/-- After a drain without shards that returned, whatever runs of it were broken off before on
stores that were empty at first, a scan of the bucket comes to its end and emits what CloudWatch
answered for the windows of the drain, as far as it matches, each event once and no others, in
the order of timestamp and stream. -/
theorem drained_scans_exactly (env : Env) (lib : ReaderLib) (C : FixedCloud) (opts : DrainOptions)
    (pre : Preamble) (fromMs toMs : Int) (wins : List Window) (t : Sys) (store : ObjectStore)
    (hlib : env.lib = lib.toCodecLib) (haccount : '/' ∉ opts.account.toList)
    (hone : opts.shardStreams ≤ 1) (hdry : opts.dryRun = false)
    (hresolved : resolveRange opts pre = .ok (fromMs, toMs))
    (hwins : windows fromMs toMs opts.windowMs = .ok wins) (h : Drained env C opts pre t)
    (hstore : store.Shows env t.archive) (hup : store.Up)
    (hsmall : ∀ w ∈ wins, ∀ group ∈ rotated env.lib opts.chunkTargetBytes (C.records w),
      (env.lib.records.text group).length ≤ fallbackDecodeCapBytes)
    {range : TimeRange} (hrange : range.fromMs < range.toMsExclusive)
    (hrep : ∀ t, range.fromMs ≤ t → t < range.toMsExclusive → Representable t)
    (pattern : Pattern) :
    ∃ n out, scanLogGroups lib store n opts.account [opts.logGroup] range pattern =
        (out, some (.ok ())) ∧
      out.Pairwise (fun x y => x.1.key ≤ y.1.key) ∧
      out.Perm (((wins.flatMap C.records).filter (recordMatches range pattern)).map fun r =>
        (r, opts.logGroup)) := by
  have harchived := h.archived hone hdry hresolved hwins
  have hgroup := harchived.groupArchived haccount hlib hstore hsmall
  obtain ⟨sources, hsources, hspec, hnamed⟩ := buildSources_yields hup hstore.distinct hrange hrep
    pattern (List.drop_zero (l := [opts.logGroup])) fun logGroup hmem =>
      List.mem_singleton.mp hmem ▸ hgroup
  obtain ⟨n, out, hscan, hsorted, hperm⟩ := scan_merges hsources hspec
  refine ⟨n, out, hscan, hsorted, (hperm.trans hnamed).trans ?_⟩
  rw [matchingOf, List.flatMap_singleton]
  exact ((harchived.groupRecords_perm haccount hlib hstore).filter _).map _

namespace Concrete

/-- A job whose objects a reader can read. -/
def readEnv : Env := { jobEnv with lib := reader.toCodecLib }

/-- What the drain that is killed leaves for it. -/
def killed : Sys := (LTS.exec (sysStep readEnv) (system [] []) brokenOff).getD (system [] [])

theorem killed_eq : LTS.exec (sysStep readEnv) (system [] []) brokenOff = some killed := by
  have hsome : (LTS.exec (sysStep readEnv) (system [] []) brokenOff).isSome = true := by
    decide +kernel
  obtain ⟨u, hu⟩ := Option.isSome_iff_exists.mp hsome
  rw [killed, hu, Option.getD_some]

end Concrete

open Concrete in
/-- Two events, drained after a drain that was killed with one of them stored. -/
theorem drained_scans_exactly_killed : ∃ (t : Sys) (store : ObjectStore) (n : Nat)
    (out : List (LogRecord × String)), Drained readEnv twoEvents smallObjects (preamble []) t ∧
      store.Shows readEnv t.archive ∧
      scanLogGroups reader store n "123456789012" ["/g"] ⟨0, 10⟩ none = (out, some (.ok ())) ∧
      out.Perm (([⟨0, dayMs⟩].flatMap twoEvents.records).map fun r => (r, "/g")) := by
  obtain ⟨v, t, hv, hrun, hcheck⟩ := replays_spec (by decide +kernel :
    replays readEnv (fun _ => twoEvents.Answers) (fun _ _ => True) killed
      (.start .drain { smallObjects with concurrency := 4 } (preamble [])) inTwoPages
      Sys.returned = true)
  have hfirst : LTS.Reaches (sysStep readEnv) (SameDrain twoEvents smallObjects (preamble []))
      (system [] []) killed := .of_exec (by decide +kernel) killed_eq
  have hdrained : Drained readEnv twoEvents smallObjects (preamble []) t :=
    ⟨⟨system [] [], killed, v, 4, rfl, rfl, hfirst, hv, hrun⟩, Sys.returned_spec hcheck⟩
  have hwins : windows 0 dayMs smallObjects.windowMs = .ok [⟨0, dayMs⟩] := by decide +kernel
  obtain ⟨store, hstore, hup⟩ := (hdrained.archived (by decide) rfl rfl hwins).shown
  have hrange : (⟨0, 10⟩ : TimeRange).fromMs < (⟨0, 10⟩ : TimeRange).toMsExclusive := by decide
  have hrep : ∀ t : Int, 0 ≤ t → t < 10 → Representable t := by
    unfold Representable chronoMinMs chronoMaxMs
    omega
  obtain ⟨n, out, hscan, -, hperm⟩ := drained_scans_exactly readEnv reader twoEvents smallObjects
    (preamble []) 0 dayMs [⟨0, dayMs⟩] t store rfl (by decide) (by decide) rfl rfl hwins hdrained
    hstore hup (by decide +kernel) hrange hrep none
  exact ⟨t, store, n, out, hdrained, hstore, hscan, hperm⟩

end S4Logs

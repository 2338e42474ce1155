import S4Logs.Laws.Cli.Listing
import S4Logs.Laws.Cli.Overwrite
import S4Logs.Lib.Parts

/-!
# What a scan emits

The data objects of a group lie in the partitions of their records. So the objects of the
dates of a range hold every record of the range, each object is listed once, its source hands
out its matching records in their order, and the merge of all sources, group after group, is
the matching records of the groups in the order of timestamp and stream.
-/

namespace S4Logs

/-! ## The archive of a group -/

namespace ObjectStore

variable (lib : ReaderLib) (store : ObjectStore) (account logGroup : String)

/-- The data objects of a group. -/
def groupObjects : List (String × Bytes) :=
  store.objects.filter fun o =>
    (dataGroupPrefix store.keyPrefix account logGroup).toList.isPrefixOf o.1.toList &&
      (ChunkLocation.parseDataKey store.keyPrefix o.1).isSome

/-- The records that the data objects of a group hold. -/
def groupRecords : List LogRecord :=
  (groupObjects store account logGroup).flatMap fun o => objectRecords lib.toCodecLib o.2

/-- The body is a writer's chunk of records of the partition, small enough to be read as a
whole. A sidecar beside it that decodes is its own. -/
structure ArchivedAs (loc : ChunkLocation) (body : Bytes) (chunk : EncodedChunk)
    (rs : List LogRecord) : Prop where
  body : body = chunk.body
  made : chunk.Made lib.toCodecLib rs
  partition : ∀ r ∈ rs, dateFromTsMs r.timestamp = loc.date
  small : chunk.uncompressedBytes ≤ fallbackDecodeCapBytes
  index : ∀ idx ∈ storedIndex lib store loc, idx.entries = chunk.frameIndex.entries
  tsIndex : ∀ ts ∈ storedTsIndex store loc, ts.entries = chunk.tsIndex.entries

/-- Every data object of the group is such a body. -/
def GroupArchived : Prop :=
  ∀ o ∈ groupObjects store account logGroup, ∀ loc,
    ChunkLocation.parseDataKey store.keyPrefix o.1 = some loc →
      ∃ chunk rs, ArchivedAs lib store loc o.2 chunk rs

end ObjectStore

section Scan

variable {lib : ReaderLib} {store : ObjectStore} {account logGroup : String} {range : TimeRange}
  {pattern : Pattern} {sources sources' : List ChunkSource} {recs recs' : List LogRecord}

/-! ## Sources -/

/-- Sources that do not fail, each in the order of records, and together hand these out. -/
structure Yields (lib : ReaderLib) (store : ObjectStore) (sources : List ChunkSource)
    (recs : List LogRecord) : Prop where
  ascending : ∀ cs ∈ sources,
    Sorting.Ascending LogRecord.key (handed (cs.batches lib store))
  sound : ∀ cs ∈ sources, ∀ e, .error e ∉ cs.batches lib store
  perm : (sources.flatMap fun cs => handed (cs.batches lib store)).Perm recs

theorem Yields.append (h : Yields lib store sources recs) (h' : Yields lib store sources' recs') :
    Yields lib store (sources ++ sources') (recs ++ recs') where
  ascending cs hcs := (List.mem_append.mp hcs).elim (h.ascending cs) (h'.ascending cs)
  sound cs hcs := (List.mem_append.mp hcs).elim (h.sound cs) (h'.sound cs)
  perm := by
    rw [List.flatMap_append]
    exact h.perm.append h'.perm

/-- The source of an object, if it has one, yields its matching records. -/
theorem Emits.yields {source : Option ChunkSource} {rs : List LogRecord}
    (h : Emits lib store source recs) (hmatches : MatchesOf rs range pattern recs) :
    Yields lib store source.toList (rs.filter (recordMatches range pattern)) := by
  cases source with
  | none =>
    refine ⟨fun cs hcs => absurd hcs List.not_mem_nil, fun cs hcs => absurd hcs List.not_mem_nil, ?_⟩
    have hperm := hmatches.2
    rw [h.absent rfl] at hperm
    exact hperm
  | some cs =>
    obtain ⟨hhanded, hno⟩ := collect_eq_ok (h.delivered cs rfl)
    refine ⟨fun cs' hcs' => ?_, fun cs' hcs' => ?_, ?_⟩
    · rw [List.mem_singleton.mp hcs', hhanded]
      exact hmatches.1
    · rw [List.mem_singleton.mp hcs']
      exact hno
    · rw [Option.toList_some, List.flatMap_singleton, hhanded]
      exact hmatches.2

/-- The records of the object at a location. -/
def recordsAt (lib : ReaderLib) (store : ObjectStore) (loc : ChunkLocation) : List LogRecord :=
  (Assoc.get? (loc.dataKey store.keyPrefix) store.objects).elim [] (objectRecords lib.toCodecLib)

/-- An object of the archive lies under the data key of its location. -/
theorem ObjectStore.mem_groupObjects (hdistinct : store.Distinct) {o : String × Bytes}
    (ho : o ∈ store.groupObjects account logGroup) :
    ∃ loc, ChunkLocation.parseDataKey store.keyPrefix o.1 = some loc ∧
      Assoc.get? (loc.dataKey store.keyPrefix) store.objects = some o.2 := by
  obtain ⟨hmem, hgroup⟩ := List.mem_filter.mp ho
  rw [Bool.and_eq_true, List.isPrefixOf_iff_prefix, Option.isSome_iff_exists] at hgroup
  obtain ⟨hpre, loc, hloc⟩ := hgroup
  refine ⟨loc, hloc, ?_⟩
  rw [(ChunkLocation.of_parseDataKey hpre hloc).2.2]
  exact Assoc.get?_of_mem hdistinct hmem

theorem ObjectStore.holds_iff {loc : ChunkLocation} : store.Holds account logGroup loc ↔
    ∃ o ∈ store.groupObjects account logGroup,
      ChunkLocation.parseDataKey store.keyPrefix o.1 = some loc := by
  constructor
  · rintro ⟨key, hkey, hpre, hloc⟩
    obtain ⟨o, ho, rfl⟩ := List.mem_map.mp hkey
    refine ⟨o, List.mem_filter.mpr ⟨ho, ?_⟩, hloc⟩
    rw [Bool.and_eq_true, List.isPrefixOf_iff_prefix, hloc]
    exact ⟨hpre, rfl⟩
  · rintro ⟨o, ho, hloc⟩
    obtain ⟨hmem, hgroup⟩ := List.mem_filter.mp ho
    rw [Bool.and_eq_true, List.isPrefixOf_iff_prefix] at hgroup
    exact ⟨o.1, List.mem_map_of_mem hmem, hgroup.1, hloc⟩

theorem ObjectStore.ArchivedAs.besideOwn {loc : ChunkLocation} {body : Bytes}
    {chunk : EncodedChunk} {rs : List LogRecord} (h : store.ArchivedAs lib loc body chunk rs) :
    store.BesideOwn lib loc chunk :=
  fun idx hidx ts hts _ => ⟨h.index idx hidx, h.tsIndex ts hts⟩

/-- What is known of the object at a location. -/
theorem ObjectStore.GroupArchived.at_location (hdistinct : store.Distinct)
    (h : store.GroupArchived lib account logGroup) {loc : ChunkLocation}
    (hloc : store.Holds account logGroup loc) : ∃ body chunk rs,
      Assoc.get? (loc.dataKey store.keyPrefix) store.objects = some body ∧
        store.ArchivedAs lib loc body chunk rs ∧ recordsAt lib store loc = rs := by
  obtain ⟨o, ho, hparse⟩ := ObjectStore.holds_iff.mp hloc
  obtain ⟨loc', hparse', hstored⟩ := ObjectStore.mem_groupObjects hdistinct ho
  obtain rfl := Option.some.inj (hparse.symm.trans hparse')
  obtain ⟨chunk, rs, harchived⟩ := h o ho loc hparse
  refine ⟨o.2, chunk, rs, hstored, harchived, ?_⟩
  rw [recordsAt, hstored, Option.elim_some, harchived.body, harchived.made.describes.objectRecords]

/-- The sources of some locations yield the matching records there. -/
theorem chunkSources_yields (hup : store.Up) (hdistinct : store.Distinct)
    (h : store.GroupArchived lib account logGroup) (range : TimeRange) (pattern : Pattern)
    {locs : List ChunkLocation} (hlocs : ∀ loc ∈ locs, store.Holds account logGroup loc) :
    ∃ sources, chunkSources lib store range pattern locs = .ok sources ∧ Yields lib store sources
      (locs.flatMap fun loc => (recordsAt lib store loc).filter (recordMatches range pattern)) := by
  induction locs with
  | nil =>
    exact ⟨[], rfl, fun cs hcs => absurd hcs List.not_mem_nil,
      fun cs hcs => absurd hcs List.not_mem_nil, .refl _⟩
  | cons loc locs ih =>
    obtain ⟨body, chunk, rs, hstored, harchived, hrecords⟩ :=
      h.at_location hdistinct (hlocs loc List.mem_cons_self)
    have hanswers : store.Answers loc := ⟨hup _, hup _, hup _⟩
    rw [harchived.body] at hstored
    obtain ⟨source, recs, hsource, hemits, hmatches⟩ := chunkSource_emits hanswers harchived.made
      harchived.small hstored harchived.besideOwn range pattern
    obtain ⟨sources, hsources, hyields⟩ := ih fun loc hloc => hlocs loc (List.mem_cons_of_mem _ hloc)
    refine ⟨source.toList ++ sources, ?_, ?_⟩
    · rw [chunkSources, hsource, hsources]
      rfl
    · rw [List.flatMap_cons, hrecords]
      exact (hemits.yields hmatches).append hyields

/-! ## One group -/

/-- An object of another date holds no record of the range. -/
theorem recordsAt_outside (hrange : range.fromMs < range.toMsExclusive)
    (hdistinct : store.Distinct) (h : store.GroupArchived lib account logGroup)
    {loc : ChunkLocation} (hloc : store.Holds account logGroup loc)
    (hdate : loc.date ∉ datesInRange range.fromMs range.toMsExclusive) :
    (recordsAt lib store loc).filter (recordMatches range pattern) = [] := by
  obtain ⟨body, chunk, rs, -, harchived, hrecords⟩ := h.at_location hdistinct hloc
  rw [hrecords]
  refine List.filter_eq_nil_iff.mpr fun r hr hmatch => hdate ?_
  unfold recordMatches at hmatch
  rw [Bool.and_eq_true, Bool.and_eq_true, decide_eq_true_iff, decide_eq_true_iff] at hmatch
  rw [← harchived.partition r hr]
  exact (mem_datesInRange hrange).mpr ⟨r.timestamp, hmatch.1.1, hmatch.1.2, rfl⟩

/-- The locations of the dates of the range hold the matching records of the group. -/
theorem located_perm (hrange : range.fromMs < range.toMsExclusive) (hdistinct : store.Distinct)
    (h : store.GroupArchived lib account logGroup) {locs : List ChunkLocation} (hnodup : locs.Nodup)
    (hlocs : ∀ loc, loc ∈ locs ↔ store.Holds account logGroup loc ∧
      loc.date ∈ datesInRange range.fromMs range.toMsExclusive) :
    (locs.flatMap fun loc => (recordsAt lib store loc).filter (recordMatches range pattern)).Perm
      ((store.groupRecords lib account logGroup).filter (recordMatches range pattern)) := by
  have hkeys : ((store.groupObjects account logGroup).filterMap fun o =>
      ChunkLocation.parseDataKey store.keyPrefix o.1) =
        ((store.groupObjects account logGroup).map Prod.fst).filterMap
          (ChunkLocation.parseDataKey store.keyPrefix) := by
    rw [List.filterMap_map]
    rfl
  have hall : ((store.groupObjects account logGroup).filterMap fun o =>
      ChunkLocation.parseDataKey store.keyPrefix o.1).Nodup := by
    have hsub : ((store.groupObjects account logGroup).map Prod.fst).Sublist
        (Assoc.keys store.objects) := List.filter_sublist.map _
    have hpre : ∀ key ∈ (store.groupObjects account logGroup).map Prod.fst,
        (dataGroupPrefix store.keyPrefix account logGroup).toList <+: key.toList := by
      intro key hkey
      obtain ⟨o, ho, rfl⟩ := List.mem_map.mp hkey
      have hgroup := (List.mem_filter.mp ho).2
      rw [Bool.and_eq_true, List.isPrefixOf_iff_prefix] at hgroup
      exact hgroup.1
    rw [hkeys]
    exact parse_nodup (hdistinct.sublist hsub) hpre
  have hlisted : locs.Perm (((store.groupObjects account logGroup).filterMap fun o =>
      ChunkLocation.parseDataKey store.keyPrefix o.1).filter fun loc =>
        (datesInRange range.fromMs range.toMsExclusive).contains loc.date) := by
    refine (List.perm_ext_iff_of_nodup hnodup (hall.filter _)).mpr fun loc => ?_
    rw [hlocs, List.mem_filter, List.contains_iff_mem, List.mem_filterMap, ObjectStore.holds_iff]
  refine (hlisted.flatMap_right _).trans ?_
  rw [Parts.flatMap_filter, ObjectStore.groupRecords, List.filter_flatMap,
    Parts.flatMap_filterMap]
  · intro o ho
    obtain ⟨loc, hparse, hstored⟩ := ObjectStore.mem_groupObjects hdistinct ho
    refine ⟨loc, hparse, ?_⟩
    rw [recordsAt, hstored, Option.elim_some]
  · intro loc hloc hdate
    rw [List.mem_filterMap] at hloc
    refine recordsAt_outside hrange hdistinct h (ObjectStore.holds_iff.mpr hloc) fun hmem => ?_
    rw [List.contains_iff_mem.mpr hmem] at hdate
    cases hdate

/-- Where `chrono` represents the range, no label of it repeats. -/
theorem datesInRange_nodup (hrange : range.fromMs < range.toMsExclusive)
    (hrep : ∀ t, range.fromMs ≤ t → t < range.toMsExclusive → Representable t) :
    (datesInRange range.fromMs range.toMsExclusive).Nodup :=
  EpochOnce.nodup hrange fun t _ hlo hhi _ _ hnot _ => absurd (hrep t hlo hhi) hnot

/-- The sources of a group yield its matching records. -/
theorem buildGroupSources_yields (hup : store.Up) (hdistinct : store.Distinct)
    (hrange : range.fromMs < range.toMsExclusive)
    (hrep : ∀ t, range.fromMs ≤ t → t < range.toMsExclusive → Representable t)
    (h : store.GroupArchived lib account logGroup) (pattern : Pattern) :
    ∃ sources, buildGroupSources lib store account logGroup range pattern = .ok sources ∧
      Yields lib store sources
        ((store.groupRecords lib account logGroup).filter (recordMatches range pattern)) := by
  obtain ⟨locs, hlist, hnodup, hlocs⟩ : ∃ locs,
      listRangeChunks store account logGroup range = .ok locs ∧ locs.Nodup ∧
        ∀ loc, loc ∈ locs ↔ store.Holds account logGroup loc ∧
          loc.date ∈ datesInRange range.fromMs range.toMsExclusive :=
    listRangeChunks_ok hup hdistinct (datesInRange_nodup hrange hrep)
  obtain ⟨sources, hsources, hyields⟩ := chunkSources_yields hup hdistinct h range pattern
    fun loc hloc => ((hlocs loc).mp hloc).1
  refine ⟨sources, ?_, hyields.ascending, hyields.sound, ?_⟩
  · rw [buildGroupSources, hlist]
    exact hsources
  · exact hyields.perm.trans (located_perm hrange hdistinct h hnodup hlocs)

/-! ## All groups -/

/-- What the sources of some groups hand out, each with the name of its group. -/
def namedRecords (lib : ReaderLib) (store : ObjectStore) (names : List String)
    (sources : List (ChunkSource × Nat)) : List (LogRecord × String) :=
  sources.flatMap fun s => (handed (s.1.batches lib store)).map fun r => (r, names.getD s.2 "")

/-- The matching records of some groups, each with its group. -/
def matchingOf (lib : ReaderLib) (store : ObjectStore) (account : String) (range : TimeRange)
    (pattern : Pattern) (logGroups : List String) : List (LogRecord × String) :=
  logGroups.flatMap fun logGroup =>
    ((store.groupRecords lib account logGroup).filter (recordMatches range pattern)).map fun r =>
      (r, logGroup)

/-- The sources of the groups from number `gi` on do not fail, ascend, and hand out the
matching records of these groups. -/
theorem buildSources_yields (hup : store.Up) (hdistinct : store.Distinct)
    (hrange : range.fromMs < range.toMsExclusive)
    (hrep : ∀ t, range.fromMs ≤ t → t < range.toMsExclusive → Representable t)
    (pattern : Pattern) {names logGroups : List String} {gi : Nat} (hnames : names.drop gi = logGroups)
    (h : ∀ logGroup ∈ logGroups, store.GroupArchived lib account logGroup) :
    ∃ sources, buildSources lib store account range pattern gi logGroups = .ok sources ∧
      (∀ s ∈ sources, Sorting.Ascending LogRecord.key (handed (s.1.batches lib store)) ∧
        ∀ e, .error e ∉ s.1.batches lib store) ∧
      (namedRecords lib store names sources).Perm
        (matchingOf lib store account range pattern logGroups) := by
  induction logGroups generalizing gi with
  | nil => exact ⟨[], rfl, fun s hs => absurd hs List.not_mem_nil, .refl _⟩
  | cons logGroup logGroups ih =>
    obtain ⟨hname, hrest⟩ : names[gi]? = some logGroup ∧ names.drop (gi + 1) = logGroups := by
      rw [← List.head?_drop, ← List.tail_drop, hnames]
      exact ⟨rfl, rfl⟩
    obtain ⟨sources, hsources, hyields⟩ := buildGroupSources_yields hup hdistinct hrange hrep
      (h logGroup List.mem_cons_self) pattern
    obtain ⟨later, hlater, hspec, hperm⟩ := ih hrest fun g hg => h g (List.mem_cons_of_mem _ hg)
    refine ⟨sources.map (fun source => (source, gi)) ++ later, ?_, fun s hs => ?_, ?_⟩
    · rw [buildSources, hsources, hlater]
      rfl
    · rcases List.mem_append.mp hs with hs | hs
      · obtain ⟨cs, hcs, rfl⟩ := List.mem_map.mp hs
        exact ⟨hyields.ascending cs hcs, hyields.sound cs hcs⟩
      · exact hspec s hs
    · have hfirst : namedRecords lib store names (sources.map fun source => (source, gi)) =
          (sources.flatMap fun cs => handed (cs.batches lib store)).map fun r => (r, logGroup) := by
        have hgroup : names.getD gi "" = logGroup := by
          rw [List.getD_eq_getElem?_getD, hname, Option.getD_some]
        rw [namedRecords, List.flatMap_map, List.map_flatMap]
        simp only [hgroup]
      rw [namedRecords, List.flatMap_append, matchingOf, List.flatMap_cons]
      refine List.Perm.append ?_ hperm
      rw [← namedRecords, hfirst]
      exact hyields.perm.map _

/-- What the merge gives, each with the group of its source, is what the sources hand out. -/
theorem merged_perm {sources : List (ChunkSource × Nat)} {names : List String}
    {out : List (LogRecord × Nat)}
    (htaken : ∀ src source, (sources.map fun s => s.1.batches lib store)[src]? = some source →
      KWayMerge.taken out src = handed source)
    (hbound : ∀ x ∈ out, x.2 < (sources.map fun s => s.1.batches lib store).length) :
    (out.map fun x => (x.1, names.getD ((sources.map Prod.snd).getD x.2 0) "")).Perm
      (namedRecords lib store names sources) := by
  have htags : out.Perm (((sources.map fun s => handed (s.1.batches lib store)).zipIdx 0).flatMap
      fun x => x.1.map fun r => (r, x.2)) := by
    refine Parts.perm_of_tags (fun src part hpart => ?_) fun x hx => ?_
    · rw [List.getElem?_map] at hpart
      obtain ⟨s, hs, rfl⟩ := Option.map_eq_some_iff.mp hpart
      rw [Nat.zero_add]
      exact htaken src _ (by rw [List.getElem?_map, hs]; rfl)
    · have hlt := hbound x hx
      rw [List.length_map] at hlt ⊢
      exact ⟨Nat.zero_le _, by rwa [Nat.zero_add]⟩
  refine (htags.map _).trans (.of_eq ?_)
  have hfst : sources.zipIdx.map Prod.fst = sources := List.zipIdx_map_fst 0 sources
  rw [List.zipIdx_map, List.flatMap_map, List.map_flatMap, namedRecords]
  conv_rhs => rw [← hfst, List.flatMap_map]
  refine List.flatMap_congr fun x hx => ?_
  obtain ⟨s, src⟩ := x
  have hget : sources[src]? = some s := List.mk_mem_zipIdx_iff_getElem?.mp hx
  have hgroup : (sources.map Prod.snd).getD src 0 = s.2 := by
    rw [List.getD_eq_getElem?_getD, List.getElem?_map, hget]
    rfl
  rw [List.map_map]
  refine List.map_congr_left fun r _ => ?_
  show (r, names.getD ((sources.map Prod.snd).getD src 0) "") = (r, names.getD s.2 "")
  rw [hgroup]

/-- Sources that ascend by timestamp, stream and number ascend by timestamp and stream. -/
theorem key_le_of_tagKey {x y : LogRecord × Nat} (h : KWayMerge.tagKey x ≤ KWayMerge.tagKey y) :
    x.1.key ≤ y.1.key := by
  unfold KWayMerge.tagKey Head.key at h
  rcases Prod.Lex.toLex_le_toLex.mp h with hlt | ⟨heq, hle⟩
  · exact Prod.Lex.toLex_le_toLex.mpr (.inl hlt)
  · refine Prod.Lex.toLex_le_toLex.mpr (.inr ⟨heq, ?_⟩)
    rcases Prod.Lex.toLex_le_toLex.mp hle with hlt | ⟨hstream, -⟩
    · exact le_of_lt hlt
    · exact le_of_eq hstream

end Scan

/-- In an archive whose data objects lie in the partitions of their records, beside their own
sidecars or none that are of use, a scan of some groups comes to its end and emits the
matching records of these groups, each with its group, and no others, in the order of
timestamp and stream. -/
theorem scan_exact {lib : ReaderLib} {store : ObjectStore} (hup : store.Up)
    (hdistinct : store.Distinct) {account : String} {logGroups : List String}
    (harchive : ∀ logGroup ∈ logGroups, store.GroupArchived lib account logGroup)
    {range : TimeRange} (hrange : range.fromMs < range.toMsExclusive)
    (hrep : ∀ t, range.fromMs ≤ t → t < range.toMsExclusive → Representable t)
    (pattern : Pattern) :
    ∃ n out, scanLogGroups lib store n account logGroups range pattern = (out, some (.ok ())) ∧
      out.Pairwise (fun x y => x.1.key ≤ y.1.key) ∧
      out.Perm (logGroups.flatMap fun logGroup =>
        ((store.groupRecords lib account logGroup).filter (recordMatches range pattern)).map fun r =>
          (r, logGroup)) := by
  obtain ⟨sources, hsources, hspec, hperm⟩ := buildSources_yields hup hdistinct hrange hrep pattern
    (List.drop_zero (l := logGroups)) harchive
  have hbatches : ∀ source ∈ sources.map fun s => s.1.batches lib store,
      ∃ s ∈ sources, s.1.batches lib store = source := fun source => List.mem_map.mp
  have hasc : ∀ source ∈ sources.map fun s => s.1.batches lib store,
      Sorting.Ascending LogRecord.key (handed source) := by
    intro source hsource
    obtain ⟨s, hs, rfl⟩ := hbatches source hsource
    exact (hspec s hs).1
  have hno : ∀ source ∈ sources.map fun s => s.1.batches lib store, ∀ e, .error e ∉ source := by
    intro source hsource e
    obtain ⟨s, hs, rfl⟩ := hbatches source hsource
    exact (hspec s hs).2 e
  obtain ⟨n, out, hpulls, htaken, hbound, hsorted⟩ := KWayMerge.pulls_merged hasc hno
  refine ⟨n, out.map fun x => (x.1, logGroups.getD ((sources.map Prod.snd).getD x.2 0) ""), ?_, ?_,
    (merged_perm htaken hbound).trans hperm⟩
  · rw [scanLogGroups, openScanMulti, hsources]
    dsimp only [Except.map]
    rw [hpulls]
    rfl
  · rw [List.pairwise_map]
    exact hsorted.imp fun h => key_le_of_tagKey h

namespace Concrete

/-- The early chunk with its sidecars. -/
def keptShelf : ObjectStore :=
  emptyShelf.putChunk reader.toCodecLib shelf ⟨earlyChunk, none, 3⟩

theorem keptShelf_archived (logGroup : String) (h : logGroup ∈ ["h", "g"]) :
    keptShelf.GroupArchived reader "1" logGroup := by
  have hother : keptShelf.groupObjects "1" "h" = [] := by decide +kernel
  have hone : keptShelf.groupObjects "1" "g" = [(shelf.dataKey "", earlyChunk.body)] := by
    decide +kernel
  have hparse : ChunkLocation.parseDataKey "" (shelf.dataKey "") = some shelf := by decide +kernel
  have hput := ObjectStore.putChunk_put reader shelf emptyShelf ⟨earlyChunk, none, 3⟩
  intro o ho loc hloc
  rcases List.mem_cons.mp h with rfl | h
  · rw [hother] at ho
    exact absurd ho List.not_mem_nil
  · rw [List.mem_singleton.mp h, hone] at ho
    rw [List.mem_singleton.mp ho] at hloc ⊢
    obtain rfl := Option.some.inj (hparse.symm.trans hloc)
    exact ⟨earlyChunk, [tieRecord 5 "the longer one"], rfl, oneFrame_made (List.cons_ne_nil _ _),
      by decide +kernel, by decide +kernel, fun idx hidx => hput.own_index (by decide) hidx,
      fun ts hts => hput.own_tsIndex (by decide) (early_written none 3) hts⟩

end Concrete

open Concrete in
/-- Two groups, of which one has an object. -/
theorem scan_exact_shelf : ∃ n out,
    scanLogGroups reader keptShelf n "1" ["h", "g"] ⟨0, 10⟩ none = (out, some (.ok ())) ∧
      out.Pairwise (fun x y => x.1.key ≤ y.1.key) ∧
      out.Perm (["h", "g"].flatMap fun logGroup =>
        ((keptShelf.groupRecords reader "1" logGroup).filter (recordMatches ⟨0, 10⟩ none)).map fun r =>
          (r, logGroup)) := by
  refine scan_exact (fun _ => rfl) (by unfold ObjectStore.Distinct; decide +kernel)
    keptShelf_archived (by decide) (fun t hlo hhi => ?_) none
  unfold Representable chronoMinMs chronoMaxMs
  dsimp only at hlo hhi
  omega

end S4Logs

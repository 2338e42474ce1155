import S4Logs.Laws.Cli.Clusters
import S4Logs.Laws.Core.Frames

/-!
# What the source of a chunk delivers

Read as a whole, a chunk delivers its matching records, sorted: what ties comes in object
order. Read by its sidecars, it delivers the same records, sorted from another order: the
frames are taken by their least timestamp. Neither path fails on a chunk that is stored
and whose text is within the cap.
-/

namespace S4Logs

open Sorting (sortBy)

/-! ## Batches -/

/-- The records that all batches of a source hold, where no call fails. -/
def collect {ε : Type} : BatchSource ε → Except ε (List LogRecord)
  | [] => .ok []
  | .error e :: _ => .error e
  | .ok recs :: rest => (collect rest).map (recs ++ ·)

theorem collect_ok {ε : Type} (parts : List (List LogRecord)) :
    collect (parts.map .ok : BatchSource ε) = .ok parts.flatten := by
  induction parts with
  | nil => rfl
  | cons p parts ih =>
    rw [List.map_cons, collect, ih, List.flatten_cons]
    rfl

/-- The records a source of a chunk delivers. -/
def ChunkSource.delivered (lib : ReaderLib) (store : ObjectStore) (cs : ChunkSource) :
    Except ScanError (List LogRecord) :=
  collect (cs.batches lib store)

/-- The octets can be fetched under the key. -/
structure ObjectStore.Serves (store : ObjectStore) (key : String) (body : Bytes) : Prop where
  answers : store.answers key = true
  stored : Assoc.get? key store.objects = some body

variable {lib : ReaderLib} {store : ObjectStore} {key : String} {range : TimeRange}
  {pattern : Pattern}

theorem ObjectStore.Serves.getBytes {body : Bytes} (h : store.Serves key body) :
    store.getBytes key = .ok body := by
  rw [ObjectStore.getBytes, h.answers, h.stored]
  rfl

/-- A range that lies in the body is fetched. -/
theorem ObjectStore.Serves.getRange {body octets : Bytes} (h : store.Serves key body)
    {start size : Nat} (hslice : (body.drop start).take size = octets) (hne : octets ≠ [])
    (hsize : size = octets.length) :
    store.getRange key start (start + size) = .ok octets := by
  have hpos : 0 < size := hsize ▸ List.length_pos_iff.mpr hne
  have hstart : start < body.length := by
    by_contra hout
    rw [List.drop_of_length_le (Nat.le_of_not_lt hout), List.take_nil] at hslice
    exact hne hslice.symm
  rw [ObjectStore.getRange, if_neg (by omega), h.answers, if_neg (by decide), h.stored]
  dsimp only
  rw [if_neg (by omega), Nat.add_sub_cancel_left, hslice]

/-! ## The whole object -/

/-- Of lines that are records, the matching ones are read, as long as the text is within
the cap. -/
theorem streamLines_records {rs : List LogRecord} {total : Nat}
    (hcap : total + (lib.records.text rs).length ≤ fallbackDecodeCapBytes) :
    streamLines lib range pattern total
        ((rs.map lib.records.toVec).map fun line => (line, line.length + 1)) =
      .ok (rs.filter (recordMatches range pattern)) := by
  induction rs generalizing total with
  | nil => rfl
  | cons r rs ih =>
    have hline : (lib.records.text (r :: rs)).length =
        (lib.records.toVec r).length + 1 + (lib.records.text rs).length := by
      rw [← List.singleton_append, SerdeLine.text_append, SerdeLine.text_singleton,
        List.length_append, List.length_append, List.length_singleton]
    have hdrop : dropReturn (lib.records.toVec r) = lib.records.toVec r := by
      refine if_neg fun hlast => ?_
      exact lib.return_notMem r (List.mem_of_getLast? hlast)
    rw [hline] at hcap
    rw [List.map_cons, List.map_cons, streamLines]
    dsimp only
    rw [if_neg (by omega), hdrop, if_neg (lib.records.toVec_ne_nil r),
      lib.records.fromSlice_toVec, ih (by omega), List.filter_cons]
    dsimp only
    by_cases hmatch : recordMatches range pattern r = true
    · rw [if_pos hmatch, if_pos hmatch]
      rfl
    · rw [if_neg hmatch, if_neg hmatch]

/-- An object that decodes to the lines of some records is read as these lines. -/
theorem streamFullObject_text {body : Bytes} {rs : List LogRecord}
    (hdecode : lib.zstd.decode body = (lib.records.text rs, true)) :
    streamFullObject lib range pattern body = streamLines lib range pattern 0
      ((rs.map lib.records.toVec).map fun line => (line, line.length + 1)) := by
  have hpieces : (lib.records.text rs).splitOn Bytes.newline = rs.map lib.records.toVec ++ [[]] :=
    Bytes.splitOn_unlines fun l hl => (lib.records.lines_ok rs l hl).1
  have hlast : (rs.map lib.records.toVec ++ [[]]).getLastD [] = [] := by
    rw [List.getLastD_concat]
  unfold streamFullObject
  rw [hdecode]
  dsimp only
  rw [if_pos rfl, hpieces, hlast, if_pos rfl, List.append_nil, List.dropLast_concat]

/-- An object of some records, within the cap, is read line by line. -/
theorem streamFullObject_records {body : Bytes} {rs : List LogRecord}
    (hdecode : lib.zstd.decode body = (lib.records.text rs, true))
    (hcap : (lib.records.text rs).length ≤ fallbackDecodeCapBytes) :
    streamFullObject lib range pattern body = .ok (rs.filter (recordMatches range pattern)) := by
  rw [streamFullObject_text hdecode]
  exact streamLines_records (by rwa [Nat.zero_add])

/-- A chunk that is read as a whole delivers its matching records, sorted. -/
theorem delivered_whole {body : Bytes} {rs : List LogRecord} (hserves : store.Serves key body)
    (hdecode : lib.zstd.decode body = (lib.records.text rs, true))
    (hcap : (lib.records.text rs).length ≤ fallbackDecodeCapBytes) (range : TimeRange)
    (pattern : Pattern) :
    (ChunkSource.mk key range pattern [.wholeObject]).delivered lib store =
      .ok (sortBy LogRecord.key (rs.filter (recordMatches range pattern))) := by
  have hfetch : (ChunkSource.mk key range pattern [.wholeObject]).fetchUnit lib store
      .wholeObject = .ok (rs.filter (recordMatches range pattern)) := by
    unfold ChunkSource.fetchUnit
    dsimp only
    rw [hserves.getBytes]
    dsimp only
    rw [streamFullObject_records hdecode hcap]
    rfl
  unfold ChunkSource.delivered ChunkSource.batches
  dsimp only
  rw [List.map_singleton, hfetch]
  show collect (([_] : List (List LogRecord)).map Except.ok) = _
  rw [collect_ok, List.flatten_singleton]

/-! ## Frames -/

/-- A frame beside its entry, with its number. -/
abbrev Placed := (FrameIndexEntry × Frame) × Nat

/-- The frames of a chunk, each beside its entry. -/
def placedFrames (lib : ReaderLib) (frames : List Frame) : List Placed :=
  ((frameEntries lib.toCodecLib 0 0 frames).zip frames).zipIdx

/-- A frame as the reader knows it: the span to fetch and the times of it. -/
def Placed.timed (p : Placed) : FrameSpan × Int × Int :=
  ({ frameIdx := p.2
     byteStart := p.1.1.compressedOffset
     byteEndExclusive := p.1.1.compressedOffset + p.1.1.compressedSize
     originalSize := p.1.1.originalSize },
   (timeSpan p.1.2.records).minTs, (timeSpan p.1.2.records).maxTs)

/-- The frame meets the range. -/
def Placed.meets (range : TimeRange) (p : Placed) : Bool :=
  range.overlaps (timeSpan p.1.2.records).minTs (timeSpan p.1.2.records).maxTs

/-- The matching records of a frame. -/
def Placed.matching (range : TimeRange) (pattern : Pattern) (p : Placed) : List LogRecord :=
  p.1.2.records.filter (recordMatches range pattern)

/-- Sidecars that say of frames where they are and what times they hold. -/
structure Describing (lib : ReaderLib) (frames : List Frame) (idx : FrameIndex) (ts : TsIndex) :
    Prop where
  entries : idx.entries = frameEntries lib.toCodecLib 0 0 frames
  times : ts.entries = frames.map fun f => timeSpan f.records

variable {frames : List Frame} {idx : FrameIndex} {ts : TsIndex} {p : Placed}

theorem mem_placedFrames (hp : p ∈ placedFrames lib frames) :
    frames[p.2]? = some p.1.2 ∧
      p.1 ∈ (frameEntries lib.toCodecLib 0 0 frames).zip frames := by
  obtain ⟨⟨e, f⟩, i⟩ := p
  have hget : ((frameEntries lib.toCodecLib 0 0 frames).zip frames)[i]? = some (e, f) :=
    List.mk_mem_zipIdx_iff_getElem?.mp hp
  exact ⟨(List.getElem?_zip_eq_some.mp hget).2, List.mem_of_getElem? hget⟩

/-- A frame that holds a matching record meets the range. -/
theorem Placed.meets_of_matching (h : p.matching range pattern ≠ []) : p.meets range = true := by
  obtain ⟨r, hr⟩ := List.exists_mem_of_ne_nil _ h
  obtain ⟨hmem, hmatch⟩ := List.mem_filter.mp hr
  obtain ⟨hmin, hmax⟩ := timeSpan_bounds hmem
  unfold recordMatches at hmatch
  rw [Bool.and_eq_true, Bool.and_eq_true, decide_eq_true_iff, decide_eq_true_iff] at hmatch
  rw [Placed.meets, TimeRange.overlaps, Bool.and_eq_true, decide_eq_true_iff, decide_eq_true_iff]
  exact ⟨hmin.trans_lt hmatch.1.2, hmatch.1.1.trans hmax⟩

/-- The frames to fetch are those that meet the range, in clusters. -/
theorem fetchUnits_described (h : Describing lib frames idx ts) :
    fetchUnits key range (some (idx, ts)) =
      .ok ((clusterSpans (((placedFrames lib frames).filter (Placed.meets range)).map
        Placed.timed)).map .frames) := by
  have hlen : idx.entries.length = ts.entries.length := by
    rw [h.entries, h.times, frameEntries_length, List.length_map]
  have hzip : (idx.entries.zip ts.entries).zipIdx =
      (placedFrames lib frames).map fun p => ((p.1.1, timeSpan p.1.2.records), p.2) := by
    rw [h.entries, h.times, List.zip_map_right, List.zipIdx_map]
    rfl
  have hspans : framesOverlapping idx ts range =
      .ok (((placedFrames lib frames).filter (Placed.meets range)).map fun p => p.timed.1) := by
    rw [framesOverlapping, if_neg (not_not_intro hlen), hzip, List.filter_map, List.map_map]
    rfl
  have htimed : ∀ p ∈ (placedFrames lib frames).filter (Placed.meets range),
      ((ts.entries[p.timed.1.frameIdx]?).map fun e => (p.timed.1, e.minTs, e.maxTs)) =
        some p.timed := by
    intro p hp
    have hget := (mem_placedFrames (List.mem_filter.mp hp).1).1
    rw [h.times, List.getElem?_map, show p.timed.1.frameIdx = p.2 from rfl, hget]
    rfl
  rw [fetchUnits, hspans]
  dsimp only
  rw [List.filterMap_map]
  congr 4
  exact (List.filterMap_congr htimed).trans (congrFun List.filterMap_eq_map' _)

/-- A stored frame is fetched and decoded. -/
theorem fetchSpan_placed (hp : p ∈ placedFrames lib frames) (hok : ∀ f ∈ frames, f.Ok lib.toCodecLib)
    (hserves : store.Serves key (frameBody frames))
    (hcap : (lib.records.text (frameRecords frames)).length ≤ maxDecompressedBytes)
    (units : List FetchUnit) :
    (ChunkSource.mk key range pattern units).fetchSpan lib store p.timed.1 =
      .ok (p.matching range pattern) := by
  obtain ⟨hget, hzip⟩ := mem_placedFrames hp
  have hmem : p.1.2 ∈ frames := List.mem_of_getElem? hget
  obtain ⟨hsize, hoctets, hslice⟩ := frameEntries_zip [] hzip
  rw [List.nil_append] at hslice
  have hrange := hserves.getRange hslice (hok _ hmem).octets_ne_nil hoctets
  have hshort : ¬ maxDecompressedBytes < (lib.records.text p.1.2.records).length := by
    have hle : (lib.records.text p.1.2.records).length ≤
        (lib.records.text (frameRecords frames)).length := by
      obtain ⟨before, after, rfl⟩ := List.append_of_mem hmem
      rw [frameRecords_append, SerdeLine.text_append, List.length_append]
      show _ ≤ _ + (lib.records.text (p.1.2.records ++ frameRecords after)).length
      rw [SerdeLine.text_append, List.length_append]
      omega
    omega
  have hdecoded : decompressFrames lib.zstd p.1.2.octets p.1.1.originalSize =
      .ok (lib.records.text p.1.2.records) := by
    rw [hsize, decompressFrames_exact (hok _ hmem).decode, if_neg hshort]
  unfold ChunkSource.fetchSpan
  dsimp only [Placed.timed]
  rw [hrange]
  dsimp only
  rw [if_neg (by rw [← hoctets]; omega), hdecoded]
  dsimp only
  rw [emitRecords, recordLines_flatten, SerdeLine.intact_text]
  rfl

/-- The matching records of the frame that a span names. -/
def spanMatching (frames : List Frame) (range : TimeRange) (pattern : Pattern)
    (t : FrameSpan × Int × Int) : List LogRecord :=
  ((frames[t.1.frameIdx]?).map fun f => f.records.filter (recordMatches range pattern)).getD []

theorem spanMatching_timed (hp : p ∈ placedFrames lib frames) :
    spanMatching frames range pattern p.timed = p.matching range pattern := by
  rw [spanMatching, show p.timed.1.frameIdx = p.2 from rfl, (mem_placedFrames hp).1]
  rfl

/-- Frames that can be fetched are fetched one after the other. -/
theorem fetchSpans_ok {cs : ChunkSource} {recsOf : FrameSpan × Int × Int → List LogRecord}
    {cluster : List (FrameSpan × Int × Int)}
    (h : ∀ t ∈ cluster, cs.fetchSpan lib store t.1 = .ok (recsOf t)) :
    cs.fetchSpans lib store (cluster.map Prod.fst) = .ok (cluster.flatMap recsOf) := by
  induction cluster with
  | nil => rfl
  | cons t cluster ih =>
    rw [List.map_cons, ChunkSource.fetchSpans, h t List.mem_cons_self]
    dsimp only
    rw [ih fun t' ht' => h t' (List.mem_cons_of_mem _ ht'), List.flatMap_cons]
    rfl

/-- Some groups of records, by their least timestamp. -/
def byStart (groups : List (List LogRecord)) : List (List LogRecord) :=
  sortBy (fun g => (timeSpan g).minTs) groups

theorem placedFrames_records (lib : ReaderLib) (frames : List Frame) :
    (placedFrames lib frames).map (fun p => p.1.2.records) = frames.map Frame.records := by
  have hzip : ((placedFrames lib frames).map Prod.fst).map Prod.snd = frames := by
    rw [placedFrames, List.zipIdx_map_fst, List.map_snd_zip (by rw [frameEntries_length])]
  rw [← congrArg (List.map Frame.records) hzip, List.map_map, List.map_map]
  rfl

theorem placedFrames_ascending (lib : ReaderLib) (frames : List Frame) :
    Sorting.Ascending Prod.snd (placedFrames lib frames) := by
  have hnumbers : ((placedFrames lib frames).map Prod.snd).Pairwise (· ≤ ·) := by
    rw [placedFrames, List.zipIdx_map_snd]
    exact (List.pairwise_lt_range' ..).imp le_of_lt
  exact List.pairwise_map.mp hnumbers

/-- The frames to fetch, in the order of their clusters, hold the matching records of all
frames, taken by their least timestamp. -/
theorem flatMap_spanMatching (lib : ReaderLib) (frames : List Frame) (range : TimeRange)
    (pattern : Pattern) :
    (sortBy frameKey (((placedFrames lib frames).filter (Placed.meets range)).map
        Placed.timed)).flatMap (spanMatching frames range pattern) =
      (byStart (frames.map Frame.records)).flatten.filter (recordMatches range pattern) := by
  have hsub : ∀ p ∈ sortBy (fun p : Placed => (timeSpan p.1.2.records).minTs)
      (placedFrames lib frames), p ∈ placedFrames lib frames := fun p => Sorting.mem_sortBy.mp
  have hascending : Sorting.Ascending Prod.snd
      ((placedFrames lib frames).filter (Placed.meets range)) :=
    (placedFrames_ascending lib frames).sublist List.filter_sublist
  have hkey : frameKey ∘ Placed.timed =
      fun p : Placed => toLex ((timeSpan p.1.2.records).minTs, p.2) := rfl
  -- frames that do not meet the range hold no matching record
  have hdrop : ∀ ps : List Placed, (∀ p ∈ ps, p ∈ placedFrames lib frames) →
      ((ps.filter (Placed.meets range)).map Placed.timed).flatMap
        (spanMatching frames range pattern) = ps.flatMap (Placed.matching range pattern) := by
    intro ps hps
    induction ps with
    | nil => rfl
    | cons p ps ih =>
      have hrest := ih fun q hq => hps q (List.mem_cons_of_mem _ hq)
      rw [List.filter_cons, List.flatMap_cons]
      by_cases hmeets : p.meets range = true
      · rw [if_pos hmeets, List.map_cons, List.flatMap_cons, hrest,
          spanMatching_timed (hps p List.mem_cons_self)]
      · have hnone : p.matching range pattern = [] := by
          by_contra hne
          exact hmeets (Placed.meets_of_matching hne)
        rw [if_neg hmeets, hrest, hnone, List.nil_append]
  rw [Sorting.sortBy_map, hkey, Sorting.sortBy_lex hascending, Sorting.sortBy_filter, hdrop _ hsub,
    byStart, ← placedFrames_records lib, Sorting.sortBy_map, List.filter_flatten, List.map_map,
    ← List.flatMap_def]
  rfl

/-- Read by sidecars that describe it, a chunk delivers its matching records, sorted from
the frames by their least timestamp. -/
theorem delivered_frames (h : Describing lib frames idx ts)
    (hok : ∀ f ∈ frames, f.Ok lib.toCodecLib) (hserves : store.Serves key (frameBody frames))
    (hcap : (lib.records.text (frameRecords frames)).length ≤ maxDecompressedBytes) :
    ∃ units, fetchUnits key range (some (idx, ts)) = .ok units ∧
      (ChunkSource.mk key range pattern units).delivered lib store =
        .ok (sortBy LogRecord.key
          ((byStart (frames.map Frame.records)).flatten.filter (recordMatches range pattern))) := by
  obtain ⟨parts, hparts, hflat, -, habove⟩ := clusterSpans_spec
    (((placedFrames lib frames).filter (Placed.meets range)).map Placed.timed)
  have hplaced : ∀ c ∈ parts, ∀ t ∈ c, ∃ p ∈ placedFrames lib frames, p.timed = t := by
    intro c hc t ht
    have hmem : t ∈ parts.flatten := List.mem_flatten.mpr ⟨c, hc, ht⟩
    rw [hflat, Sorting.mem_sortBy] at hmem
    obtain ⟨p, hp, rfl⟩ := List.mem_map.mp hmem
    exact ⟨p, (List.mem_filter.mp hp).1, rfl⟩
  refine ⟨_, fetchUnits_described h, ?_⟩
  have hbatches : (ChunkSource.mk key range pattern ((parts.map (List.map Prod.fst)).map
      .frames)).batches lib store =
        ((parts.map fun c => c.flatMap (spanMatching frames range pattern)).map
          (sortBy LogRecord.key)).map .ok := by
    unfold ChunkSource.batches
    simp only [List.map_map]
    refine List.map_congr_left fun c hc => ?_
    have hspans : ∀ units, (ChunkSource.mk key range pattern units).fetchSpans lib store
        (c.map Prod.fst) = .ok (c.flatMap (spanMatching frames range pattern)) := by
      refine fun units => fetchSpans_ok fun t ht => ?_
      obtain ⟨p, hp, rfl⟩ := hplaced c hc t ht
      rw [fetchSpan_placed hp hok hserves hcap, spanMatching_timed hp]
    show (ChunkSource.fetchSpans lib store _ (c.map Prod.fst)).map _ = _
    rw [hspans]
    rfl
  -- one cluster above the other in time is one above the other in the order of records
  have hupward : (parts.map fun c => c.flatMap (spanMatching frames range pattern)).Pairwise
      fun c d => ∀ a ∈ c, ∀ b ∈ d, a.key ≤ b.key := by
    refine List.pairwise_map.mpr (habove.imp_of_mem fun {c d} hc hd hcd a ha b hb => ?_)
    obtain ⟨t, ht, hat⟩ := List.mem_flatMap.mp ha
    obtain ⟨u, hu, hbu⟩ := List.mem_flatMap.mp hb
    have htu : Above t u := hcd t ht u hu
    obtain ⟨p, hp, rfl⟩ := hplaced c hc t ht
    obtain ⟨q, hq, rfl⟩ := hplaced d hd u hu
    rw [spanMatching_timed hp] at hat
    rw [spanMatching_timed hq] at hbu
    have hmax := (timeSpan_bounds (List.mem_filter.mp hat).1).2
    have hmin := (timeSpan_bounds (List.mem_filter.mp hbu).1).1
    exact Prod.Lex.toLex_le_toLex.mpr (.inl ((hmax.trans_lt htu).trans_le hmin))
  rw [ChunkSource.delivered, hparts, hbatches, collect_ok, Sorting.sortBy_flatten hupward,
    ← flatMap_spanMatching lib, ← hflat, List.flatMap_def, List.map_flatten, List.flatten_flatten,
    List.map_map]
  rfl

end S4Logs

import S4Logs.Laws.Core.Chunk
import S4Logs.Lib.Bounds

/-!
# The frames of a chunk

A writer is computed from the frames it has cut and the records of its uncut
tail (`ChunkWriter.ofFrames`): every counter, offset and bound it keeps is a
function of these. A push adds its record to the tail and may move the tail into
a frame, so what a writer made is always of this form (`Made.pushAll`), and
the chunk it encodes is computed from frames alone (`EncodedChunk.ofFrames`).

What a reader relies on is then read off the frames: the byte index tiles the
body and the text, entry `i` of the timestamp index bounds the records of frame
`i`, and each frame decodes on its own.
-/

namespace S4Logs

variable {lib : CodecLib}

/-! ## Timestamps -/

/-- The timestamps of some records. -/
def timestamps (rs : List LogRecord) : List Int := rs.map LogRecord.timestamp

/-- The range the writer keeps of some records: their bounds, or the ends of
`i64` where there are none. -/
def timeSpan (rs : List LogRecord) : TsEntry where
  minTs := (timestamps rs).foldr min i64Max
  maxTs := (timestamps rs).foldr max i64Min

theorem timeSpan_append_min (rs ss : List LogRecord) :
    (timeSpan (rs ++ ss)).minTs = min (timeSpan rs).minTs (timeSpan ss).minTs := by
  simp only [timeSpan, timestamps, List.map_append, Bounds.foldr_min_append]

theorem timeSpan_append_max (rs ss : List LogRecord) :
    (timeSpan (rs ++ ss)).maxTs = max (timeSpan rs).maxTs (timeSpan ss).maxTs := by
  simp only [timeSpan, timestamps, List.map_append, Bounds.foldr_max_append]

theorem timeSpan_concat_min (rs : List LogRecord) (r : LogRecord) :
    (timeSpan (rs ++ [r])).minTs = min (timeSpan rs).minTs r.timestamp := by
  simp only [timeSpan, timestamps, List.map_append, List.map_cons, List.map_nil,
    Bounds.foldr_min_concat]

theorem timeSpan_concat_max (rs : List LogRecord) (r : LogRecord) :
    (timeSpan (rs ++ [r])).maxTs = max (timeSpan rs).maxTs r.timestamp := by
  simp only [timeSpan, timestamps, List.map_append, List.map_cons, List.map_nil,
    Bounds.foldr_max_concat]

/-- The range of some records bounds each of them. -/
theorem timeSpan_bounds {rs : List LogRecord} {r : LogRecord} (hr : r ∈ rs) :
    (timeSpan rs).minTs ≤ r.timestamp ∧ r.timestamp ≤ (timeSpan rs).maxTs := by
  have hts : r.timestamp ∈ timestamps rs := List.mem_map_of_mem hr
  exact ⟨Bounds.foldr_min_le _ hts, Bounds.le_foldr_max _ hts⟩

/-- Timestamps the format has room for. -/
def InI64 (rs : List LogRecord) : Prop := ∀ r ∈ rs, i64Min ≤ r.timestamp ∧ r.timestamp ≤ i64Max

/-- The entry is exactly the range of these records. -/
def TsEntry.Spans (t : TsEntry) (rs : List LogRecord) : Prop :=
  IsLeast {ts | ts ∈ timestamps rs} t.minTs ∧ IsGreatest {ts | ts ∈ timestamps rs} t.maxTs

theorem timeSpan_spans {rs : List LogRecord} (hne : rs ≠ []) (hrange : InI64 rs) :
    (timeSpan rs).Spans rs := by
  have hts : timestamps rs ≠ [] := fun hnil => hne (List.map_eq_nil_iff.mp hnil)
  refine ⟨Bounds.foldr_min_isLeast hts ?_, Bounds.foldr_max_isGreatest hts ?_⟩
  · intro t ht
    obtain ⟨r, hr, rfl⟩ := List.mem_map.mp ht
    exact (hrange r hr).2
  · intro t ht
    obtain ⟨r, hr, rfl⟩ := List.mem_map.mp ht
    exact (hrange r hr).1

/-! ## Frames -/

/-- A frame: its records, and the octets they are stored as. -/
structure Frame where
  records : List LogRecord
  octets : Bytes

/-- The records of some frames. -/
def frameRecords (frames : List Frame) : List LogRecord := frames.flatMap Frame.records

/-- The body that frames make. -/
def frameBody (frames : List Frame) : Bytes := frames.flatMap Frame.octets

theorem frameRecords_append (fs gs : List Frame) :
    frameRecords (fs ++ gs) = frameRecords fs ++ frameRecords gs := List.flatMap_append

theorem frameBody_append (fs gs : List Frame) :
    frameBody (fs ++ gs) = frameBody fs ++ frameBody gs := List.flatMap_append

/-- A frame holds some record, and its octets are those the codec makes of them. -/
def Frame.Ok (lib : CodecLib) (f : Frame) : Prop :=
  f.records ≠ [] ∧ ∃ level, lib.zstd.compressFrame (lib.records.text f.records) level = some f.octets

theorem Frame.Ok.decode {f : Frame} (h : f.Ok lib) :
    lib.zstd.decode f.octets = (lib.records.text f.records, true) := by
  obtain ⟨-, level, hframe⟩ := h
  exact lib.zstd.decode_frame hframe

theorem Frame.Ok.octets_ne_nil {f : Frame} (h : f.Ok lib) : f.octets ≠ [] := by
  obtain ⟨-, level, hframe⟩ := h
  exact lib.zstd.frame_ne_nil hframe

theorem Frame.Ok.text_ne_nil {f : Frame} (h : f.Ok lib) : lib.records.text f.records ≠ [] :=
  fun hnil => h.1 (text_eq_nil hnil)

/-- Frames are a concatenation that `zstd` decodes as one stream. -/
theorem frames_decodable {frames : List Frame} (h : ∀ f ∈ frames, f.Ok lib) :
    lib.zstd.Frames (frameBody frames) (lib.records.text (frameRecords frames)) := by
  refine ⟨frames.map fun f => (lib.records.text f.records, f.octets), ?_, ?_, ?_⟩
  · intro p hp
    obtain ⟨f, hf, rfl⟩ := List.mem_map.mp hp
    exact (h f hf).2
  · rw [frameBody, List.flatMap_map]
  · rw [frameRecords, List.flatMap_map]
    induction frames with
    | nil => rfl
    | cons f frames ih =>
      rw [List.flatMap_cons, List.flatMap_cons, SerdeLine.text_append,
        ih fun g hg => h g (List.mem_cons_of_mem _ hg)]

/-- The byte index of frames laid one after the other from two offsets on. -/
def frameEntries (lib : CodecLib) : Nat → Nat → List Frame → List FrameIndexEntry
  | _, _, [] => []
  | orig, comp, f :: frames =>
    { originalOffset := orig
      originalSize := (lib.records.text f.records).length
      compressedOffset := comp
      compressedSize := f.octets.length } ::
    frameEntries lib (orig + (lib.records.text f.records).length) (comp + f.octets.length) frames

theorem frameEntries_append (orig comp : Nat) (fs gs : List Frame) :
    frameEntries lib orig comp (fs ++ gs) = frameEntries lib orig comp fs ++
      frameEntries lib (orig + (lib.records.text (frameRecords fs)).length)
        (comp + (frameBody fs).length) gs := by
  induction fs generalizing orig comp with
  | nil => rfl
  | cons f fs ih =>
    have horig : orig + (lib.records.text f.records).length +
        (lib.records.text (frameRecords fs)).length =
          orig + (lib.records.text (frameRecords (f :: fs))).length := by
      rw [frameRecords, frameRecords, List.flatMap_cons, SerdeLine.text_append,
        List.length_append, Nat.add_assoc]
    have hcomp : comp + f.octets.length + (frameBody fs).length =
        comp + (frameBody (f :: fs)).length := by
      rw [frameBody, frameBody, List.flatMap_cons, List.length_append, Nat.add_assoc]
    rw [List.cons_append, frameEntries, frameEntries, ih, horig, hcomp, List.cons_append]

theorem frameEntries_length (orig comp : Nat) (frames : List Frame) :
    (frameEntries lib orig comp frames).length = frames.length := by
  induction frames generalizing orig comp with
  | nil => rfl
  | cons f frames ih => rw [frameEntries, List.length_cons, ih, List.length_cons]

/-- The octets of the body that an index entry names. -/
def FrameIndexEntry.slice (e : FrameIndexEntry) (body : Bytes) : Bytes :=
  (body.drop e.compressedOffset).take e.compressedSize

/-- Entry `i` is the size of the text of frame `i` and names the octets of it. -/
theorem frameEntries_getElem? {orig : Nat} {frames : List Frame} (before : Bytes) {i : Nat}
    {e : FrameIndexEntry}
    (he : (frameEntries lib orig before.length frames)[i]? = some e) :
    ∃ f, frames[i]? = some f ∧ e.originalSize = (lib.records.text f.records).length ∧
      e.slice (before ++ frameBody frames) = f.octets := by
  induction frames generalizing orig before i with
  | nil => cases he
  | cons f frames ih =>
    have hbody : frameBody (f :: frames) = f.octets ++ frameBody frames := List.flatMap_cons
    cases i with
    | zero =>
      cases he
      refine ⟨f, rfl, rfl, ?_⟩
      rw [FrameIndexEntry.slice, hbody]
      dsimp only
      rw [List.drop_left, List.take_left]
    | succ i =>
      rw [frameEntries, List.getElem?_cons_succ, ← List.length_append] at he
      obtain ⟨g, hg, hsize, hslice⟩ := ih _ he
      refine ⟨g, hg, hsize, ?_⟩
      rwa [List.append_assoc, ← hbody] at hslice

/-- The entries stand beside the frames: each is the size of the text of its frame, and
names the octets of it. -/
theorem frameEntries_zip {orig : Nat} {frames : List Frame} (before : Bytes)
    {p : FrameIndexEntry × Frame}
    (hp : p ∈ (frameEntries lib orig before.length frames).zip frames) :
    p.1.originalSize = (lib.records.text p.2.records).length ∧
      p.1.compressedSize = p.2.octets.length ∧
      p.1.slice (before ++ frameBody frames) = p.2.octets := by
  induction frames generalizing orig before with
  | nil => exact absurd hp List.not_mem_nil
  | cons f frames ih =>
    have hbody : frameBody (f :: frames) = f.octets ++ frameBody frames := List.flatMap_cons
    rw [frameEntries, List.zip_cons_cons] at hp
    rcases List.mem_cons.mp hp with rfl | hp
    · refine ⟨rfl, rfl, ?_⟩
      rw [FrameIndexEntry.slice, hbody]
      dsimp only
      rw [List.drop_left, List.take_left]
    · rw [← List.length_append] at hp
      obtain ⟨hsize, hoctets, hslice⟩ := ih _ hp
      refine ⟨hsize, hoctets, ?_⟩
      rwa [List.append_assoc, ← hbody] at hslice

/-- The frames that the entries name decode, put together, to the whole text. -/
theorem frameEntries_decoded {frames : List Frame} (before : Bytes)
    (h : ∀ f ∈ frames, f.Ok lib) (orig : Nat) :
    (frameEntries lib orig before.length frames).flatMap (fun e =>
        (lib.zstd.decode (e.slice (before ++ frameBody frames))).1) =
      lib.records.text (frameRecords frames) := by
  induction frames generalizing orig before with
  | nil => rfl
  | cons f frames ih =>
    have hbody : before ++ frameBody (f :: frames) = (before ++ f.octets) ++ frameBody frames := by
      rw [frameBody, frameBody, List.flatMap_cons, List.append_assoc]
    have hfirst : ∀ size : Nat, FrameIndexEntry.slice
        ⟨orig, size, before.length, f.octets.length⟩ (before ++ frameBody (f :: frames)) =
          f.octets := by
      intro size
      rw [FrameIndexEntry.slice, hbody, List.append_assoc, List.drop_left, List.take_left]
    have hrest := ih (before ++ f.octets)
      (fun g hg => h g (List.mem_cons_of_mem _ hg)) (orig + (lib.records.text f.records).length)
    rw [List.length_append, ← hbody] at hrest
    rw [frameEntries, List.flatMap_cons, hfirst, (h f List.mem_cons_self).decode, hrest,
      frameRecords, frameRecords, List.flatMap_cons, SerdeLine.text_append]

/-- The byte index tiles the text and the body. -/
theorem frameEntries_tiles {frames : List Frame} (h : ∀ f ∈ frames, f.Ok lib) (orig comp : Nat) :
    Bounds.Tiles orig ((frameEntries lib orig comp frames).map fun e =>
        (e.originalOffset, e.originalSize))
      (orig + (lib.records.text (frameRecords frames)).length) ∧
    Bounds.Tiles comp ((frameEntries lib orig comp frames).map fun e =>
        (e.compressedOffset, e.compressedSize))
      (comp + (frameBody frames).length) := by
  induction frames generalizing orig comp with
  | nil => exact ⟨rfl, rfl⟩
  | cons f frames ih =>
    have hf := h f List.mem_cons_self
    obtain ⟨hrest, hbody⟩ := ih (fun g hg => h g (List.mem_cons_of_mem _ hg))
      (orig + (lib.records.text f.records).length) (comp + f.octets.length)
    constructor
    · refine ⟨rfl, List.length_pos_iff.mpr hf.text_ne_nil, ?_⟩
      rw [frameRecords, List.flatMap_cons, SerdeLine.text_append, List.length_append,
        ← Nat.add_assoc]
      exact hrest
    · refine ⟨rfl, List.length_pos_iff.mpr hf.octets_ne_nil, ?_⟩
      rw [frameBody, List.flatMap_cons, List.length_append, ← Nat.add_assoc]
      exact hbody

/-! ## The writer of some frames -/

namespace ChunkWriter

/-- The writer that has cut these frames and holds these records uncut. -/
def ofFrames (lib : CodecLib) (cfg : ChunkConfig) (frames : List Frame)
    (pend : List LogRecord) : ChunkWriter where
  cfg := cfg
  pending := lib.records.text pend
  pendingMinTs := (timeSpan pend).minTs
  pendingMaxTs := (timeSpan pend).maxTs
  pendingRecords := pend.length
  body := frameBody frames
  entries := frameEntries lib 0 0 frames
  tsEntries := frames.map fun f => timeSpan f.records
  originalOff := (lib.records.text (frameRecords frames)).length
  recordCount := (frameRecords frames).length
  minTs := (timeSpan (frameRecords frames)).minTs
  maxTs := (timeSpan (frameRecords frames)).maxTs

theorem new_eq_ofFrames (cfg : ChunkConfig) : new cfg = ofFrames lib cfg [] [] := rfl

theorem ofFrames_accept (cfg : ChunkConfig) (frames : List Frame) (pend : List LogRecord)
    (rec : LogRecord) :
    (ofFrames lib cfg frames pend).accept lib rec = ofFrames lib cfg frames (pend ++ [rec]) := by
  simp only [ofFrames, accept, LogRecord.appendJsonl_text, timeSpan_concat_min,
    timeSpan_concat_max, List.length_append, List.length_singleton]

/-- A cut moves the tail into a frame. -/
theorem ofFrames_cutFrame {cfg : ChunkConfig} {frames : List Frame} {pend : List LogRecord}
    {octets : Bytes} (hne : pend ≠ [])
    (hframe : lib.zstd.compressFrame (lib.records.text pend) cfg.zstdLevel = some octets) :
    (ofFrames lib cfg frames pend).cutFrame lib =
      (ofFrames lib cfg (frames ++ [⟨pend, octets⟩]) [], .ok ()) := by
  have htext : lib.records.text pend ≠ [] := fun hnil => hne (text_eq_nil hnil)
  have hlast : frameRecords [⟨pend, octets⟩] = pend := List.append_nil _
  have hbody : frameBody [⟨pend, octets⟩] = octets := List.append_nil _
  simp only [ofFrames, cutFrame, htext, if_false, hframe, frameRecords_append, frameBody_append,
    hlast, hbody, frameEntries_append, Nat.zero_add, SerdeLine.text_append, List.length_append,
    timeSpan_append_min, timeSpan_append_max, List.map_append]
  rfl

/-- The writer holds these records: some of them in frames, the rest uncut. -/
def Made (lib : CodecLib) (cfg : ChunkConfig) (w : ChunkWriter) (rs : List LogRecord) : Prop :=
  ∃ frames pend, (∀ f ∈ frames, f.Ok lib) ∧ rs = frameRecords frames ++ pend ∧
    w = ofFrames lib cfg frames pend

theorem made_new (lib : CodecLib) (cfg : ChunkConfig) : Made lib cfg (new cfg) [] :=
  ⟨[], [], (fun f hf => by cases hf), rfl, rfl⟩

/-- A push adds its record at the end, and fails only where compression does. -/
theorem Made.push {cfg : ChunkConfig} {w : ChunkWriter} {rs : List LogRecord}
    (h : Made lib cfg w rs) (rec : LogRecord) :
    Made lib cfg (w.push lib rec).1 (rs ++ [rec]) ∧
      (lib.zstd.Total → (w.push lib rec).2 = .ok ()) := by
  obtain ⟨frames, pend, hok, rfl, rfl⟩ := h
  have hne : pend ++ [rec] ≠ [] := fun hnil => List.cons_ne_nil _ _ (List.append_eq_nil_iff.mp hnil).2
  have hkept : Made lib cfg (ofFrames lib cfg frames (pend ++ [rec]))
      (frameRecords frames ++ pend ++ [rec]) :=
    ⟨frames, pend ++ [rec], hok, List.append_assoc _ _ _, rfl⟩
  unfold ChunkWriter.push
  dsimp only
  rw [ofFrames_accept]
  split
  next =>
    cases hframe : lib.zstd.compressFrame (lib.records.text (pend ++ [rec])) cfg.zstdLevel with
    | none =>
      have hfail : (ofFrames lib cfg frames (pend ++ [rec])).cutFrame lib =
          (ofFrames lib cfg frames (pend ++ [rec]), .error .io) := by
        have htext : lib.records.text (pend ++ [rec]) ≠ [] := fun hnil => hne (text_eq_nil hnil)
        simp only [ofFrames, cutFrame, htext, if_false, hframe]
      rw [hfail]
      refine ⟨hkept, fun total => ?_⟩
      obtain ⟨octets, hsome⟩ := total (lib.records.text (pend ++ [rec])) cfg.zstdLevel
      rw [hframe] at hsome
      cases hsome
    | some octets =>
      rw [ofFrames_cutFrame hne hframe]
      refine ⟨⟨frames ++ [⟨pend ++ [rec], octets⟩], [], ?_, ?_, rfl⟩, fun _ => rfl⟩
      · intro f hf
        rcases List.mem_append.mp hf with hf | hf
        · exact hok f hf
        · obtain rfl := List.mem_singleton.mp hf
          exact ⟨hne, cfg.zstdLevel, hframe⟩
      · have hlast : frameRecords [⟨pend ++ [rec], octets⟩] = pend ++ [rec] := List.append_nil _
        rw [frameRecords_append, hlast, List.append_nil, List.append_assoc]
  next => exact ⟨hkept, fun _ => rfl⟩

/-- Pushing some records adds all of them, or fails, the last only where compression
does. -/
theorem Made.pushAll {cfg : ChunkConfig} {w : ChunkWriter} {rs : List LogRecord}
    (h : Made lib cfg w rs) (recs : List LogRecord) :
    ((w.pushAll lib recs).2 = .ok () ∧ Made lib cfg (w.pushAll lib recs).1 (rs ++ recs)) ∨
      ((w.pushAll lib recs).2 = .error .io ∧ ¬ lib.zstd.Total) := by
  induction recs generalizing w rs with
  | nil => exact .inl ⟨rfl, by rwa [List.append_nil]⟩
  | cons rec recs ih =>
    obtain ⟨hmade, hok⟩ := h.push rec
    have hrest := ih hmade
    rw [List.append_assoc, List.singleton_append] at hrest
    rw [ChunkWriter.pushAll]
    cases hpush : w.push lib rec with
    | mk w' result =>
      rw [hpush] at hok hrest
      cases result with
      | ok => exact hrest
      | error e =>
        cases e
        exact .inr ⟨rfl, fun total => by cases hok total⟩

/-- One more record, once the others are pushed. -/
theorem pushAll_concat {w : ChunkWriter} {recs : List LogRecord}
    (h : (w.pushAll lib recs).2 = .ok ()) (rec : LogRecord) :
    w.pushAll lib (recs ++ [rec]) = (w.pushAll lib recs).1.push lib rec := by
  induction recs generalizing w with
  | nil =>
    show w.pushAll lib [rec] = w.push lib rec
    rw [ChunkWriter.pushAll]
    rcases w.push lib rec with ⟨w', ⟨⟩⟩ <;> rfl
  | cons r recs ih =>
    rw [List.cons_append, ChunkWriter.pushAll]
    rw [ChunkWriter.pushAll] at h
    cases hpush : w.push lib r with
    | mk w' result =>
      rw [hpush] at h
      cases result with
      | ok =>
        rw [show (w.pushAll lib (r :: recs)).1 = (w'.pushAll lib recs).1 by
          rw [ChunkWriter.pushAll, hpush]]
        exact ih h
      | error e => cases h

/-- As long as the text is shorter than a frame, nothing is cut. -/
theorem ofFrames_pushAll_uncut {cfg : ChunkConfig} {frames : List Frame} {pend recs : List LogRecord}
    (h : (lib.records.text (pend ++ recs)).length < cfg.frameTargetBytes) :
    (ofFrames lib cfg frames pend).pushAll lib recs =
      (ofFrames lib cfg frames (pend ++ recs), .ok ()) := by
  induction recs generalizing pend with
  | nil => rw [ChunkWriter.pushAll, List.append_nil]
  | cons rec recs ih =>
    have hassoc : pend ++ rec :: recs = pend ++ [rec] ++ recs := by
      rw [List.append_assoc, List.singleton_append]
    have hshort : ¬ cfg.frameTargetBytes ≤ (lib.records.text (pend ++ [rec])).length := by
      rw [hassoc, SerdeLine.text_append, List.length_append] at h
      omega
    have hpush : (ofFrames lib cfg frames pend).push lib rec =
        (ofFrames lib cfg frames (pend ++ [rec]), .ok ()) := by
      unfold ChunkWriter.push
      dsimp only
      rw [ofFrames_accept]
      exact if_neg hshort
    rw [ChunkWriter.pushAll, hpush, hassoc]
    exact ih (hassoc ▸ h)

/-- The writer that was pushed some records, whether or not each push succeeded. -/
def pushed (lib : CodecLib) (cfg : ChunkConfig) (rs : List LogRecord) : ChunkWriter :=
  rs.foldl (fun w rec => (w.push lib rec).1) (new cfg)

theorem made_pushed (lib : CodecLib) (cfg : ChunkConfig) (rs : List LogRecord) :
    Made lib cfg (pushed lib cfg rs) rs := by
  have hrun : ∀ (rest : List LogRecord) {w : ChunkWriter} {rs : List LogRecord},
      Made lib cfg w rs →
        Made lib cfg (rest.foldl (fun w rec => (w.push lib rec).1) w) (rs ++ rest) := by
    intro rest
    induction rest with
    | nil =>
      intro w rs h
      rwa [List.append_nil]
    | cons rec rest ih =>
      intro w rs h
      have hnext := ih (h.push rec).1
      rwa [List.append_assoc, List.singleton_append] at hnext
  exact hrun rs (made_new lib cfg)

/-- What was made of some records holds them. -/
theorem Made.holds {cfg : ChunkConfig} {w : ChunkWriter} {rs : List LogRecord}
    (h : Made lib cfg w rs) : Holds lib w rs := by
  obtain ⟨frames, pend, hok, rfl, rfl⟩ := h
  refine ⟨frameRecords frames, pend, rfl, ?_⟩
  exact {
    pending := rfl
    body := frames_decodable hok
    entries := by
      cases frames with
      | nil => exact ⟨fun _ => rfl, fun _ => rfl⟩
      | cons f frames =>
        refine ⟨fun hnil => absurd hnil (List.cons_ne_nil _ _), fun hnil => ?_⟩
        exact absurd (List.append_eq_nil_iff.mp hnil).1 (hok f List.mem_cons_self).1
    originalOff := rfl
    recordCount := rfl
    pendingRecords := rfl }

end ChunkWriter

/-! ## The chunk of some frames -/

/-- The chunk whose frames these are. -/
def EncodedChunk.ofFrames (lib : CodecLib) (frames : List Frame) : EncodedChunk where
  body := frameBody frames
  frameIndex := {
    totalPaddedSize := (frameBody frames).length
    entries := frameEntries lib 0 0 frames
    sourceEtag := none
    sourceCompressedSize := none }
  tsIndex := { entries := frames.map fun f => timeSpan f.records }
  recordCount := (frameRecords frames).length
  uncompressedBytes := (lib.records.text (frameRecords frames)).length
  minTimestamp := (timeSpan (frameRecords frames)).minTs
  maxTimestamp := (timeSpan (frameRecords frames)).maxTs
  crc32c := lib.crc32c (frameBody frames)

/-- The chunk is made of these records, which its frames split up. -/
def EncodedChunk.Made (lib : CodecLib) (chunk : EncodedChunk) (rs : List LogRecord) : Prop :=
  ∃ frames, frames ≠ [] ∧ (∀ f ∈ frames, f.Ok lib) ∧ rs = frameRecords frames ∧
    chunk = .ofFrames lib frames

theorem frameRecords_ne_nil {frames : List Frame} (hne : frames ≠ []) (hok : ∀ f ∈ frames, f.Ok lib) :
    frameRecords frames ≠ [] := by
  intro hnil
  cases frames with
  | nil => exact hne rfl
  | cons f frames =>
    exact (hok f List.mem_cons_self).1 (List.append_eq_nil_iff.mp hnil).1

/-- No chunk is made of nothing. -/
theorem EncodedChunk.Made.ne_nil {chunk : EncodedChunk} {rs : List LogRecord}
    (h : chunk.Made lib rs) : rs ≠ [] := by
  obtain ⟨frames, hne, hok, rfl, -⟩ := h
  exact frameRecords_ne_nil hne hok

/-- What is made of records is described by them. -/
theorem EncodedChunk.Made.describes {chunk : EncodedChunk} {rs : List LogRecord}
    (h : chunk.Made lib rs) : Describes lib chunk rs := by
  obtain ⟨frames, hne, hok, rfl, rfl⟩ := h
  have hrecords := frameRecords_ne_nil hne hok
  have hframes := frames_decodable hok
  have hbody : frameBody frames ≠ [] := by
    intro hnil
    rw [hnil] at hframes
    exact hrecords (text_eq_nil hframes.text_nil)
  exact ⟨hrecords, hframes.decode hbody, rfl, rfl⟩

/-- A chunk has the range of its records and the checksum of its body. -/
theorem EncodedChunk.Made.span {chunk : EncodedChunk} {rs : List LogRecord}
    (h : chunk.Made lib rs) (hrange : InI64 rs) :
    TsEntry.Spans { minTs := chunk.minTimestamp, maxTs := chunk.maxTimestamp } rs ∧
      chunk.crc32c = lib.crc32c chunk.body := by
  obtain ⟨frames, hne, hok, rfl, rfl⟩ := h
  exact ⟨timeSpan_spans (frameRecords_ne_nil hne hok) hrange, rfl⟩

namespace ChunkWriter

/-- `encode` cuts the tail as `cut_frame` does. -/
theorem ofFrames_encode {cfg : ChunkConfig} {frames : List Frame} {pend : List LogRecord}
    {octets : Bytes} (hne : pend ≠ [])
    (hframe : lib.zstd.compressFrame (lib.records.text pend) cfg.zstdLevel = some octets) :
    (ofFrames lib cfg frames pend).encode lib =
      .ok (some (.ofFrames lib (frames ++ [⟨pend, octets⟩]))) := by
  have htext : lib.records.text pend ≠ [] := fun hnil => hne (text_eq_nil hnil)
  have hlast : frameRecords [⟨pend, octets⟩] = pend := List.append_nil _
  have hbody : frameBody [⟨pend, octets⟩] = octets := List.append_nil _
  simp only [ChunkWriter.encode, ofFrames, if_neg htext, hframe, bind, Except.bind,
    List.isEmpty_iff, List.append_eq_nil_iff, List.cons_ne_nil, and_false, if_false,
    EncodedChunk.ofFrames, frameRecords_append, frameBody_append, hlast, hbody,
    frameEntries_append, Nat.zero_add, SerdeLine.text_append, List.length_append,
    timeSpan_append_min, timeSpan_append_max, List.map_append]
  rfl

/-- What `encode` makes of the records a writer holds: nothing of no records, the
chunk of these, or an error, the last only where compression fails. -/
theorem Made.encode {cfg : ChunkConfig} {w : ChunkWriter} {rs : List LogRecord}
    (h : Made lib cfg w rs) :
    (w.encode lib = .ok none ∧ rs = []) ∨
      (∃ chunk, w.encode lib = .ok (some chunk) ∧ chunk.Made lib rs) ∨
      (w.encode lib = .error .io ∧ ¬ lib.zstd.Total) := by
  obtain ⟨frames, pend, hok, rfl, rfl⟩ := h
  by_cases hpend : pend = []
  · subst hpend
    rw [List.append_nil]
    cases frames with
    | nil => exact .inl ⟨rfl, rfl⟩
    | cons f frames =>
      exact .inr (.inl ⟨.ofFrames lib (f :: frames), rfl, f :: frames, List.cons_ne_nil _ _, hok,
        rfl, rfl⟩)
  · have htext : lib.records.text pend ≠ [] := fun hnil => hpend (text_eq_nil hnil)
    cases hframe : lib.zstd.compressFrame (lib.records.text pend) cfg.zstdLevel with
    | none =>
      refine .inr (.inr ⟨?_, fun total => ?_⟩)
      · simp only [ChunkWriter.encode, ofFrames, if_neg htext, hframe, bind, Except.bind]
      · obtain ⟨octets, hsome⟩ := total (lib.records.text pend) cfg.zstdLevel
        rw [hframe] at hsome
        cases hsome
    | some octets =>
      have hlast : frameRecords [⟨pend, octets⟩] = pend := List.append_nil _
      refine .inr (.inl ⟨.ofFrames lib (frames ++ [⟨pend, octets⟩]), ofFrames_encode hpend hframe,
        frames ++ [⟨pend, octets⟩], ?_, ?_, ?_, rfl⟩)
      · exact fun hnil => List.cons_ne_nil _ _ (List.append_eq_nil_iff.mp hnil).2
      · intro f hf
        rcases List.mem_append.mp hf with hf | hf
        · exact hok f hf
        · obtain rfl := List.mem_singleton.mp hf
          exact ⟨hpend, cfg.zstdLevel, hframe⟩
      · rw [frameRecords_append, hlast]

/-- What is made of some records: nothing of none, a chunk of these, or an error, the
last only where compression fails. -/
theorem encodeAll_spec (lib : CodecLib) (cfg : ChunkConfig) (rs : List LogRecord) :
    (encodeAll lib cfg rs = .ok none ∧ rs = []) ∨
      (∃ chunk, encodeAll lib cfg rs = .ok (some chunk) ∧ chunk.Made lib rs) ∨
      (encodeAll lib cfg rs = .error .io ∧ ¬ lib.zstd.Total) := by
  have hpushed := (made_new lib cfg).pushAll rs
  rw [List.nil_append] at hpushed
  unfold encodeAll
  cases hresult : (new cfg).pushAll lib rs with
  | mk w result =>
    rw [hresult] at hpushed
    rcases hpushed with ⟨hok, hmade⟩ | ⟨hfail, hpartial⟩
    · cases hok
      exact hmade.encode
    · cases hfail
      exact .inr (.inr ⟨rfl, hpartial⟩)

end ChunkWriter

end S4Logs

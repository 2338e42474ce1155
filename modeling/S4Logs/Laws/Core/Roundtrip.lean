import S4Logs.Laws.Core.Frames
import S4Logs.Core.Concrete

/-!
# The round trip of the chunk format

Records pushed into a new writer and finished are read back from the chunk: from
each frame on its own, from the frames put together and from the whole body. The
capped decoder takes a frame at its recorded size up to the ceiling it has for
one object, and refuses a longer one whatever is in it; everything else holds of
any records and any configuration.
-/

namespace S4Logs

variable {lib : CodecLib}

/-- The lines of a framed text are its records. -/
theorem recordLines_text (S : SerdeLine LogRecord) (rs : List LogRecord) :
    recordLines S (S.text rs) = rs.map some := by
  have hread : S.fromSlice ∘ S.toVec = some := funext S.fromSlice_toVec
  rw [recordLines, SerdeLine.text, Bytes.lines_unlines (S.lines_ok rs), List.map_map, hread]

/-- What the entries of one frame say of a body, and what the frame decodes to. -/
structure FrameSound (lib : CodecLib) (body : Bytes) (e : FrameIndexEntry) (t : TsEntry)
    (rs : List LogRecord) : Prop where
  nonempty : rs ≠ []
  decode : lib.zstd.decode (e.slice body) = (lib.records.text rs, true)
  size : e.originalSize = (lib.records.text rs).length
  decompress : decompressFrames lib.zstd (e.slice body) e.originalSize =
    if maxDecompressedBytes < e.originalSize then .error (.bomb maxDecompressedBytes)
    else .ok (lib.records.text rs)
  lines : recordLines lib.records (lib.records.text rs) = rs.map some
  span : t.Spans rs

/-- The chunk is an object of these groups of records, one frame for each. -/
structure ChunkSound (lib : CodecLib) (chunk : EncodedChunk) (groups : List (List LogRecord)) :
    Prop where
  frames : chunk.frameIndex.entries.length = groups.length
  times : chunk.tsIndex.entries.length = groups.length
  frame : ∀ {i : Nat} {e t rs}, chunk.frameIndex.entries[i]? = some e →
    chunk.tsIndex.entries[i]? = some t → groups[i]? = some rs → FrameSound lib chunk.body e t rs
  text_tiled : Bounds.Tiles 0
    (chunk.frameIndex.entries.map fun e => (e.originalOffset, e.originalSize))
    chunk.uncompressedBytes
  body_tiled : Bounds.Tiles 0
    (chunk.frameIndex.entries.map fun e => (e.compressedOffset, e.compressedSize))
    chunk.body.length
  assembled : recordLines lib.records
      (chunk.frameIndex.entries.flatMap fun e => (lib.zstd.decode (e.slice chunk.body)).1) =
    groups.flatten.map some
  whole : ∃ text, lib.zstd.decode chunk.body = (text, true) ∧
    text.length = chunk.uncompressedBytes ∧
    recordLines lib.records text = groups.flatten.map some
  recordCount : chunk.recordCount = groups.flatten.length
  span : TsEntry.Spans { minTs := chunk.minTimestamp, maxTs := chunk.maxTimestamp } groups.flatten

/-- A chunk of frames is an object of their records. -/
theorem EncodedChunk.ofFrames_sound {frames : List Frame} (hne : frames ≠ [])
    (hok : ∀ f ∈ frames, f.Ok lib) (hrange : InI64 (frameRecords frames)) :
    ChunkSound lib (.ofFrames lib frames) (frames.map Frame.records) := by
  have hflat : (frames.map Frame.records).flatten = frameRecords frames := rfl
  have hrecords : frameRecords frames ≠ [] := frameRecords_ne_nil hne hok
  have hmade : (EncodedChunk.ofFrames lib frames).Made lib (frameRecords frames) :=
    ⟨frames, hne, hok, rfl, rfl⟩
  obtain ⟨htext_tiled, hbody_tiled⟩ := frameEntries_tiles hok 0 0
  rw [Nat.zero_add] at htext_tiled hbody_tiled
  refine ⟨?frames, ?times, ?frame, htext_tiled, hbody_tiled, ?assembled, ?whole, rfl, ?span⟩
  case frames =>
    show (frameEntries lib 0 0 frames).length = _
    rw [frameEntries_length, List.length_map]
  case times =>
    show (frames.map _).length = _
    rw [List.length_map, List.length_map]
  case frame =>
    intro i e t rs he ht hrs
    obtain ⟨f, hf, hsize, hslice⟩ := frameEntries_getElem? [] he
    have hmem : f ∈ frames := List.mem_of_getElem? hf
    rw [List.getElem?_map, hf] at hrs
    obtain rfl := Option.some.inj hrs
    have hspan : t = timeSpan f.records := by
      have ht' : (frames.map fun f => timeSpan f.records)[i]? = some t := ht
      rw [List.getElem?_map, hf] at ht'
      exact (Option.some.inj ht').symm
    have hdec : lib.zstd.decode (e.slice (frameBody frames)) =
        (lib.records.text f.records, true) := by
      rw [List.nil_append] at hslice
      rw [hslice]
      exact (hok f hmem).decode
    exact {
      nonempty := (hok f hmem).1
      decode := hdec
      size := hsize
      decompress := by
        rw [hsize]
        exact decompressFrames_exact hdec
      lines := recordLines_text lib.records f.records
      span := by
        rw [hspan]
        exact timeSpan_spans (hok f hmem).1 fun r hr =>
          hrange r (List.mem_flatMap.mpr ⟨f, hmem, hr⟩) }
  case assembled =>
    have htext := frameEntries_decoded [] hok 0
    rw [List.nil_append] at htext
    show recordLines lib.records ((frameEntries lib 0 0 frames).flatMap fun e =>
      (lib.zstd.decode (e.slice (frameBody frames))).1) = _
    rw [hflat, ← recordLines_text lib.records (frameRecords frames)]
    exact congrArg (recordLines lib.records) htext
  case whole =>
    refine ⟨_, hmade.describes.decode, rfl, ?_⟩
    rw [recordLines_text, hflat]
  case span =>
    rw [hflat]
    exact (hmade.span hrange).1

/-- Records pushed and finished make a chunk of these records, in frames. -/
theorem chunk_roundtrip (total : lib.zstd.Total) (cfg : ChunkConfig) {rs : List LogRecord}
    (hne : rs ≠ []) (hrange : InI64 rs) :
    ∃ chunk groups, ChunkWriter.encodeAll lib cfg rs = .ok (some chunk) ∧ groups.flatten = rs ∧
      ChunkSound lib chunk groups := by
  rcases ChunkWriter.encodeAll_spec lib cfg rs with ⟨-, hnil⟩ |
    ⟨chunk, hchunk, frames, hframes, hall, rfl, rfl⟩ | ⟨-, hpartial⟩
  · exact absurd hnil hne
  · exact ⟨_, frames.map Frame.records, hchunk, rfl, EncodedChunk.ofFrames_sound hframes hall hrange⟩
  · exact absurd total hpartial

/-- Two records in a frame each. -/
theorem chunk_roundtrip_two :
    ∃ chunk groups,
      ChunkWriter.encodeAll Concrete.lib { frameTargetBytes := 0, zstdLevel := 3 }
        [⟨i64Max, "s", "a", none, none⟩, ⟨i64Min, "s", "b", some 0, some "1"⟩] =
          .ok (some chunk) ∧
      groups.flatten = [⟨i64Max, "s", "a", none, none⟩, ⟨i64Min, "s", "b", some 0, some "1"⟩] ∧
      ChunkSound Concrete.lib chunk groups :=
  chunk_roundtrip Concrete.zstd_total _ (List.cons_ne_nil _ _) (by unfold InI64; decide)

theorem text_replicate_length (S : SerdeLine LogRecord) (n : Nat) (r : LogRecord) :
    (S.text (List.replicate n r)).length = n * ((S.toVec r).length + 1) := by
  induction n with
  | zero => rw [List.replicate_zero, Nat.zero_mul, SerdeLine.text_nil, List.length_nil]
  | succ n ih =>
    rw [List.replicate_succ, ← List.singleton_append, SerdeLine.text_append, S.text_singleton,
      List.length_append, ih, List.length_append, List.length_singleton, Nat.succ_mul, Nat.add_comm]

/-- Records whose text is longer than the ceiling and shorter than a frame make
one frame, which the capped decoder refuses at its recorded size. -/
theorem long_frame {cfg : ChunkConfig} {rs : List LogRecord} (total : lib.zstd.Total)
    (hceiling : maxDecompressedBytes < (lib.records.text rs).length)
    (htarget : (lib.records.text rs).length < cfg.frameTargetBytes) :
    ∃ chunk e, ChunkWriter.encodeAll lib cfg rs = .ok (some chunk) ∧
      e ∈ chunk.frameIndex.entries ∧
      decompressFrames lib.zstd (e.slice chunk.body) e.originalSize =
        .error (.bomb maxDecompressedBytes) := by
  have hpushed : (ChunkWriter.new cfg).pushAll lib rs = (.ofFrames lib cfg [] rs, .ok ()) := by
    rw [ChunkWriter.new_eq_ofFrames]
    exact ChunkWriter.ofFrames_pushAll_uncut htarget
  have hne : rs ≠ [] := by
    rintro rfl
    exact Nat.not_lt_zero _ hceiling
  obtain ⟨octets, hframe⟩ := total (lib.records.text rs) cfg.zstdLevel
  refine ⟨.ofFrames lib [⟨rs, octets⟩], ⟨0, (lib.records.text rs).length, 0, octets.length⟩,
    ?_, List.mem_cons_self, ?_⟩
  · rw [ChunkWriter.encodeAll, hpushed]
    exact ChunkWriter.ofFrames_encode hne hframe
  · unfold decompressFrames
    exact if_pos hceiling

/-- 2^36 + 1 short records and a frame size no text of them reaches. -/
theorem long_frame_refused :
    ∃ chunk e,
      ChunkWriter.encodeAll Concrete.lib { frameTargetBytes := 2 ^ 60, zstdLevel := 3 }
        (List.replicate (2 ^ 36 + 1) ⟨0, "s", "a", none, none⟩) = .ok (some chunk) ∧
      e ∈ chunk.frameIndex.entries ∧
      decompressFrames Concrete.lib.zstd (e.slice chunk.body) e.originalSize =
        .error (.bomb maxDecompressedBytes) := by
  have hline : (Concrete.lib.records.toVec ⟨0, "s", "a", none, none⟩).length = 42 := by
    decide +kernel
  apply long_frame Concrete.zstd_total
  · rw [text_replicate_length, hline]
    decide
  · rw [text_replicate_length, hline]
    decide

end S4Logs

import S4Logs.Core.Read

/-!
# What a chunk writer holds

`Holds w rs` says that the writer holds exactly the records `rs`, in order: the
cut frames are the text of the first of them and the uncut tail is the text of
the rest. A push adds one record at the end, whether or not the cut after it
succeeds, and what `encode` makes is described by what the writer holds.

`Describes` is the other half: an encoded chunk whose body decodes to the text
of these records. A reader of the whole body gets them back
(`Describes.objectRecords`), and so does the capped decoder where the text is
within its ceiling (`Describes.decompressFrames`).
-/

namespace S4Logs

variable {lib : CodecLib}

theorem text_eq_nil {rs : List LogRecord} (h : lib.records.text rs = []) : rs = [] := by
  cases rs with
  | nil => rfl
  | cons r rs =>
    have hlen := congrArg List.length h
    simp only [SerdeLine.text, List.map_cons, Bytes.unlines_cons, List.length_append,
      List.length_cons, List.length_nil] at hlen
    omega

namespace ChunkWriter

/-- The cut frames hold `cut`, the uncut tail holds `pend`. -/
structure Split (lib : CodecLib) (w : ChunkWriter) (cut pend : List LogRecord) : Prop where
  pending : w.pending = lib.records.text pend
  body : lib.zstd.Frames w.body (lib.records.text cut)
  entries : w.entries = [] ↔ cut = []
  originalOff : w.originalOff = (lib.records.text cut).length
  recordCount : w.recordCount = cut.length
  pendingRecords : w.pendingRecords = pend.length

/-- The writer holds exactly these records, in this order. -/
def Holds (lib : CodecLib) (w : ChunkWriter) (rs : List LogRecord) : Prop :=
  ∃ cut pend, rs = cut ++ pend ∧ Split lib w cut pend

theorem holds_new (cfg : ChunkConfig) : Holds lib (new cfg) [] :=
  ⟨[], [], rfl, rfl, Zstd.Frames.nil _, ⟨fun _ => rfl, fun _ => rfl⟩, rfl, rfl, rfl⟩

theorem Split.accept {w : ChunkWriter} {cut pend : List LogRecord} (h : Split lib w cut pend)
    (rec : LogRecord) : Split lib (w.accept lib rec) cut (pend ++ [rec]) where
  pending := by
    show rec.appendJsonl lib.records w.pending = _
    rw [h.pending, LogRecord.appendJsonl_text]
  body := h.body
  entries := h.entries
  originalOff := h.originalOff
  recordCount := h.recordCount
  pendingRecords := by
    show w.pendingRecords + 1 = _
    rw [h.pendingRecords, List.length_append, List.length_singleton]

/-- A cut moves the tail into a frame, or fails and moves nothing. -/
theorem Split.cutFrame {w : ChunkWriter} {cut pend : List LogRecord} (h : Split lib w cut pend) :
    (∃ cut' pend', cut ++ pend = cut' ++ pend' ∧ Split lib (w.cutFrame lib).1 cut' pend') ∧
      (lib.zstd.Total → (w.cutFrame lib).2 = .ok ()) := by
  unfold ChunkWriter.cutFrame
  split
  next => exact ⟨⟨cut, pend, rfl, h⟩, fun _ => rfl⟩
  next hne =>
    have hpend : pend ≠ [] := by
      rintro rfl
      exact hne h.pending
    split
    next hfail =>
      refine ⟨⟨cut, pend, rfl, h⟩, fun htotal => ?_⟩
      obtain ⟨frame, hframe⟩ := htotal w.pending w.cfg.zstdLevel
      rw [hfail] at hframe
      cases hframe
    next frame hframe =>
      refine ⟨⟨cut ++ pend, [], (List.append_nil _).symm, ?_⟩, fun _ => rfl⟩
      have hbody := h.body.snoc hframe
      exact {
        pending := rfl
        body := by
          rw [SerdeLine.text_append, ← h.pending]
          exact hbody
        entries := ⟨fun hnil => absurd (List.append_eq_nil_iff.mp hnil).2 (List.cons_ne_nil _ _),
          fun hnil => absurd (List.append_eq_nil_iff.mp hnil).2 hpend⟩
        originalOff := by
          show w.originalOff + w.pending.length = _
          rw [h.originalOff, h.pending, SerdeLine.text_append, List.length_append]
        recordCount := by
          show w.recordCount + w.pendingRecords = _
          rw [h.recordCount, h.pendingRecords, List.length_append]
        pendingRecords := rfl }

/-- A push adds its record at the end, whether or not the cut after it succeeds. -/
theorem Holds.push {w : ChunkWriter} {rs : List LogRecord} (h : Holds lib w rs)
    (rec : LogRecord) : Holds lib (w.push lib rec).1 (rs ++ [rec]) := by
  obtain ⟨cut, pend, rfl, hsplit⟩ := h
  have haccept := hsplit.accept rec
  unfold ChunkWriter.push
  dsimp only
  split
  next =>
    obtain ⟨⟨cut', pend', heq, hcut⟩, -⟩ := haccept.cutFrame
    exact ⟨cut', pend', by rw [List.append_assoc, heq], hcut⟩
  next => exact ⟨cut, pend ++ [rec], List.append_assoc _ _ _, haccept⟩

/-- Where compression does not fail, a push does not. -/
theorem Holds.push_ok {w : ChunkWriter} {rs : List LogRecord} (h : Holds lib w rs)
    (total : lib.zstd.Total) (rec : LogRecord) : (w.push lib rec).2 = .ok () := by
  obtain ⟨cut, pend, rfl, hsplit⟩ := h
  unfold ChunkWriter.push
  dsimp only
  split
  next => exact (hsplit.accept rec).cutFrame.2 total
  next => rfl

theorem Holds.uncompressedLen {w : ChunkWriter} {rs : List LogRecord} (h : Holds lib w rs) :
    w.uncompressedLen = (lib.records.text rs).length := by
  obtain ⟨cut, pend, rfl, hsplit⟩ := h
  rw [ChunkWriter.uncompressedLen, hsplit.originalOff, hsplit.pending, SerdeLine.text_append,
    List.length_append]

theorem Holds.recordTotal {w : ChunkWriter} {rs : List LogRecord} (h : Holds lib w rs) :
    w.recordTotal = rs.length := by
  obtain ⟨cut, pend, rfl, hsplit⟩ := h
  rw [ChunkWriter.recordTotal, hsplit.recordCount, hsplit.pendingRecords, List.length_append]

end ChunkWriter

/-- The chunk is an object of exactly these records, in this order. -/
structure Describes (lib : CodecLib) (chunk : EncodedChunk) (rs : List LogRecord) : Prop where
  nonempty : rs ≠ []
  decode : lib.zstd.decode chunk.body = (lib.records.text rs, true)
  recordCount : chunk.recordCount = rs.length
  uncompressedBytes : chunk.uncompressedBytes = (lib.records.text rs).length

/-- A reader of the whole object gets the records. -/
theorem Describes.objectRecords {chunk : EncodedChunk} {rs : List LogRecord}
    (h : Describes lib chunk rs) : objectRecords lib chunk.body = rs := by
  rw [S4Logs.objectRecords, h.decode, SerdeLine.intact_text]

/-- Octets that decode to a whole text are accepted at the size of it, up to the
ceiling, and at no other size. -/
theorem decompressFrames_of_decode {Z : Zstd} {input text : Bytes}
    (h : Z.decode input = (text, true)) (expected : Nat) :
    decompressFrames Z input expected =
      if maxDecompressedBytes < expected then .error (.bomb maxDecompressedBytes)
      else if expected + bombSlackBytes ≤ text.length then .error (.bomb (expected + bombSlackBytes))
      else if text.length ≠ expected then .error (.sizeMismatch expected text.length)
      else .ok text := by
  unfold decompressFrames
  rw [h]
  by_cases hmax : maxDecompressedBytes < expected
  · rw [if_pos hmax, if_pos hmax]
  · rw [if_neg hmax, if_neg hmax]
    dsimp only
    rw [if_neg fun hbroken : _ ∧ _ => Bool.noConfusion hbroken.1]
    by_cases hover : expected + bombSlackBytes ≤ text.length
    · rw [if_pos (by rw [List.length_take, Nat.min_eq_left hover]), if_pos hover]
    · have hwhole : text.take (expected + bombSlackBytes) = text :=
        List.take_of_length_le (Nat.le_of_not_le hover)
      rw [hwhole, if_neg hover]

/-- The capped decoder accepts a whole text at its own size, up to the ceiling. -/
theorem decompressFrames_exact {Z : Zstd} {input text : Bytes}
    (h : Z.decode input = (text, true)) :
    decompressFrames Z input text.length =
      if maxDecompressedBytes < text.length then .error (.bomb maxDecompressedBytes)
      else .ok text := by
  have hslack : ¬ text.length + bombSlackBytes ≤ text.length := by
    simp only [bombSlackBytes]
    omega
  rw [decompressFrames_of_decode h, if_neg hslack, if_neg (not_not_intro rfl)]

/-- What the capped decoder accepts of a whole text is the text, at its size. -/
theorem decompressFrames_ok {Z : Zstd} {input text plain : Bytes} {expected : Nat}
    (h : Z.decode input = (text, true)) (hplain : decompressFrames Z input expected = .ok plain) :
    plain = text ∧ expected = text.length := by
  rw [decompressFrames_of_decode h] at hplain
  split at hplain
  next => cases hplain
  next =>
    split at hplain
    next => cases hplain
    next =>
      split at hplain
      next => cases hplain
      next hsize =>
        cases hplain
        exact ⟨rfl, (not_not.mp hsize).symm⟩

/-- The capped decoder accepts the body at its own claimed size. -/
theorem Describes.decompressFrames {chunk : EncodedChunk} {rs : List LogRecord}
    (h : Describes lib chunk rs) (hmax : (lib.records.text rs).length ≤ maxDecompressedBytes) :
    decompressFrames lib.zstd chunk.body chunk.uncompressedBytes = .ok (lib.records.text rs) := by
  rw [h.uncompressedBytes, decompressFrames_exact h.decode, if_neg (Nat.not_lt.mpr hmax)]

/-- What the capped decoder accepts at the claimed size is the text. -/
theorem Describes.decompressed {chunk : EncodedChunk} {rs : List LogRecord} {plain : Bytes}
    (h : Describes lib chunk rs)
    (hplain : S4Logs.decompressFrames lib.zstd chunk.body chunk.uncompressedBytes = .ok plain) :
    plain = lib.records.text rs :=
  (decompressFrames_ok h.decode hplain).1

namespace ChunkWriter

/-- What `encode` makes of the records a writer holds: nothing of no records, an
object of exactly these, or an error, the last only where compression fails. -/
theorem Holds.encode {w : ChunkWriter} {rs : List LogRecord} (h : Holds lib w rs) :
    (w.encode lib = .ok none ∧ rs = []) ∨
      (∃ chunk, w.encode lib = .ok (some chunk) ∧ Describes lib chunk rs) ∨
      (w.encode lib = .error .io ∧ ¬ lib.zstd.Total) := by
  obtain ⟨cut, pend, rfl, hsplit⟩ := h
  by_cases hpend : w.pending = []
  · have hnil : pend = [] := text_eq_nil (hsplit.pending ▸ hpend)
    subst hnil
    by_cases hcut : w.entries = []
    · refine .inl ⟨?_, by rw [hsplit.entries.mp hcut, List.append_nil]⟩
      simp only [ChunkWriter.encode, hpend, if_true, bind, Except.bind, hcut, List.isEmpty_nil]
    · have hne : cut ≠ [] := fun hnil => hcut (hsplit.entries.mpr hnil)
      have hbody : w.body ≠ [] := by
        intro hnil
        have hframes := hsplit.body
        rw [hnil] at hframes
        exact hne (text_eq_nil hframes.text_nil)
      refine .inr (.inl ⟨?chunk, ?made, ?described⟩)
      case made =>
        simp only [ChunkWriter.encode, hpend, if_true, bind, Except.bind, List.isEmpty_iff, hcut,
          if_false]
        rfl
      case described =>
        rw [List.append_nil]
        exact ⟨hne, hsplit.body.decode hbody, hsplit.recordCount, hsplit.originalOff⟩
  · have hne : pend ≠ [] := by
      rintro rfl
      exact hpend hsplit.pending
    cases hframe : lib.zstd.compressFrame w.pending w.cfg.zstdLevel with
    | none =>
      refine .inr (.inr ⟨?_, fun htotal => ?_⟩)
      · simp only [ChunkWriter.encode, if_neg hpend, hframe, bind, Except.bind]
      · obtain ⟨frame, hsome⟩ := htotal w.pending w.cfg.zstdLevel
        rw [hframe] at hsome
        cases hsome
    | some frame =>
      have hbody : w.body ++ frame ≠ [] :=
        fun hnil => lib.zstd.frame_ne_nil hframe (List.append_eq_nil_iff.mp hnil).2
      have htext : lib.records.text (cut ++ pend) = lib.records.text cut ++ w.pending := by
        rw [SerdeLine.text_append, hsplit.pending]
      refine .inr (.inl ⟨?whole, ?encoded, ?holds⟩)
      case encoded =>
        simp only [ChunkWriter.encode, if_neg hpend, hframe, bind, Except.bind, List.isEmpty_iff,
          List.append_eq_nil_iff, List.cons_ne_nil, and_false, if_false]
        rfl
      case holds =>
        refine ⟨fun hnil => hne (List.append_eq_nil_iff.mp hnil).2, ?_, ?_, ?_⟩
        · rw [htext]
          exact (hsplit.body.snoc hframe).decode hbody
        · show w.recordCount + w.pendingRecords = _
          rw [hsplit.recordCount, hsplit.pendingRecords, List.length_append]
        · show w.originalOff + w.pending.length = _
          rw [hsplit.originalOff, htext, List.length_append]

/-- The records a writer holds, read off its own octets. -/
def records (lib : CodecLib) (w : ChunkWriter) : List LogRecord :=
  lib.records.intact
    ((if w.body = [] then [] else (lib.zstd.decode w.body).1) ++ w.pending)

theorem Holds.records {w : ChunkWriter} {rs : List LogRecord} (h : Holds lib w rs) :
    w.records lib = rs := by
  obtain ⟨cut, pend, rfl, hsplit⟩ := h
  have htext : (if w.body = [] then [] else (lib.zstd.decode w.body).1) = lib.records.text cut := by
    split
    next hnil =>
      have hframes := hsplit.body
      rw [hnil] at hframes
      exact hframes.text_nil.symm
    next hne => rw [hsplit.body.decode hne]
  rw [ChunkWriter.records, htext, hsplit.pending, SerdeLine.intact_text_append,
    SerdeLine.intact_text]

end ChunkWriter

end S4Logs

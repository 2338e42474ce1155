import S4Logs.Core.Concrete
import S4Logs.Laws.Core.Frames

/-!
# The preview of a chunk

A caller pushes into a writer, encodes it and asks for its counts, in any order. `encode` is
what a cut of the tail and an encode after it would give, so its result is the chunk that the
counts describe; and what other calls answer is the same with and without it.
-/

namespace S4Logs

/-- A call of a writer. -/
inductive WriterCall where
  | push (record : LogRecord)
  | encode
  | recordCount
  | uncompressedLen
  | isEmpty

/-- What a call answers. -/
inductive WriterAnswer where
  | pushed (result : Except ChunkError Unit)
  | encoded (result : Except ChunkError (Option EncodedChunk))
  | count (n : Nat)
  | flag (b : Bool)

namespace ChunkWriter

variable (lib : CodecLib)

/-- The writer after a call, and the answer. -/
def call (w : ChunkWriter) : WriterCall → ChunkWriter × WriterAnswer
  | .push record => ((w.push lib record).1, .pushed (w.push lib record).2)
  | .encode => (w, .encoded (w.encode lib))
  | .recordCount => (w, .count w.recordTotal)
  | .uncompressedLen => (w, .count w.uncompressedLen)
  | .isEmpty => (w, .flag w.isEmpty)

/-- The writer after some calls. -/
def after (w : ChunkWriter) (calls : List WriterCall) : ChunkWriter :=
  calls.foldl (fun w c => (w.call lib c).1) w

/-- The answers of some calls. -/
def answers (w : ChunkWriter) : List WriterCall → List WriterAnswer
  | [] => []
  | c :: calls => (w.call lib c).2 :: answers (w.call lib c).1 calls

variable {lib} {cfg : ChunkConfig} {w : ChunkWriter} {rs : List LogRecord}

/-! ## Calls that are inserted -/

/-- Calls without those that are marked. -/
def unmarked (calls : List (WriterCall × Bool)) : List WriterCall :=
  (calls.filter fun c => !c.2).map Prod.fst

/-- With `encode` calls inserted, the writer ends as it does without, and the other calls
answer what they answer without. -/
theorem answers_inserted {calls : List (WriterCall × Bool)}
    (hmarked : ∀ c ∈ calls, c.2 = true → c.1 = .encode) (w : ChunkWriter) :
    w.after lib (calls.map Prod.fst) = w.after lib (unmarked calls) ∧
      (((w.answers lib (calls.map Prod.fst)).zip calls).filter fun x => !x.2.2).map Prod.fst =
        w.answers lib (unmarked calls) := by
  induction calls generalizing w with
  | nil => exact ⟨rfl, rfl⟩
  | cons c calls ih =>
    obtain ⟨c, mark⟩ := c
    have hrest := ih fun c' hc' => hmarked c' (List.mem_cons_of_mem _ hc')
    cases mark with
    | true =>
      -- an inserted call leaves the writer as it is
      obtain rfl : c = .encode := hmarked _ List.mem_cons_self rfl
      exact hrest w
    | false =>
      obtain ⟨hafter, hanswers⟩ := hrest (w.call lib c).1
      exact ⟨hafter, congrArg ((w.call lib c).2 :: ·) hanswers⟩

/-! ## What `encode` shows -/

/-- `encode` is a cut of the tail and an encode after it. -/
theorem encode_eq_cutFrame (w : ChunkWriter) : w.encode lib = match w.cutFrame lib with
    | (cut, .ok ()) => cut.encode lib
    | (_, .error e) => .error e := by
  unfold cutFrame
  by_cases hpending : w.pending = []
  · rw [if_pos hpending]
  · rw [if_neg hpending]
    cases hframe : lib.zstd.compressFrame w.pending w.cfg.zstdLevel with
    | none => simp only [encode, if_neg hpending, hframe, bind, Except.bind]
    | some compressed => simp only [encode, if_neg hpending, hframe, bind, Except.bind, if_true]

theorem Made.call (h : Made lib cfg w rs) (c : WriterCall) :
    ∃ rs, Made lib cfg (w.call lib c).1 rs := by
  cases c with
  | push record => exact ⟨_, (h.push record).1⟩
  | encode => exact ⟨rs, h⟩
  | recordCount => exact ⟨rs, h⟩
  | uncompressedLen => exact ⟨rs, h⟩
  | isEmpty => exact ⟨rs, h⟩

theorem Made.after (h : Made lib cfg w rs) (calls : List WriterCall) :
    ∃ rs, Made lib cfg (w.after lib calls) rs := by
  induction calls generalizing w rs with
  | nil => exact ⟨rs, h⟩
  | cons c calls ih =>
    obtain ⟨rs', h'⟩ := h.call c
    exact ih h'

/-- A writer is empty where it has no record. -/
theorem Made.isEmpty_iff (h : Made lib cfg w rs) : w.isEmpty = true ↔ rs = [] := by
  have htotal : w.recordCount + w.pendingRecords = rs.length := h.holds.recordTotal
  unfold ChunkWriter.isEmpty
  rw [Bool.and_eq_true, beq_iff_eq, beq_iff_eq, ← List.length_eq_zero_iff]
  omega

/-- The counts of a writer are those of the chunk it encodes, and it is empty just where it
encodes none. -/
theorem Made.preview (h : Made lib cfg w rs) :
    (w.isEmpty = true ↔ w.encode lib = .ok none) ∧
    (w.encode lib = .ok none → w.recordTotal = 0 ∧ w.uncompressedLen = 0) ∧
    ∀ chunk, w.encode lib = .ok (some chunk) →
      w.recordTotal = chunk.recordCount ∧ w.uncompressedLen = chunk.uncompressedBytes := by
  have htotal := h.holds.recordTotal
  have hlen := h.holds.uncompressedLen
  rw [h.isEmpty_iff]
  rcases h.encode with ⟨hnone, rfl⟩ | ⟨chunk, hchunk, hmade⟩ | ⟨herror, -⟩
  · rw [hnone]
    exact ⟨iff_of_true rfl rfl, fun _ => ⟨htotal, hlen⟩, fun chunk hchunk => (by cases hchunk)⟩
  · rw [hchunk]
    refine ⟨⟨fun hnil => absurd hnil hmade.ne_nil, fun heq => (by cases heq)⟩,
      fun heq => (by cases heq), fun chunk' heq => ?_⟩
    obtain rfl := Option.some.inj (Except.ok.inj heq)
    rw [htotal, hlen, hmade.describes.recordCount, hmade.describes.uncompressedBytes]
    exact ⟨rfl, rfl⟩
  · rw [herror]
    refine ⟨⟨fun hnil => ?_, fun heq => (by cases heq)⟩, fun heq => (by cases heq),
      fun chunk heq => (by cases heq)⟩
    -- a writer without a record has nothing to compress
    subst hnil
    obtain ⟨frames, pend, hok, hrs, rfl⟩ := h
    obtain ⟨hframes, rfl⟩ := List.append_eq_nil_iff.mp hrs.symm
    have hnone : frames = [] := by
      by_contra hne
      exact frameRecords_ne_nil hne hok hframes
    subst hnone
    cases herror

/-- Whatever is called on a new writer: `encode` calls that are inserted change neither the
writer nor any other answer; `encode` answers what a cut and an encode after it would; and
the counts and emptiness of the writer are those of what `encode` answers. -/
theorem encode_previews (lib : CodecLib) (cfg : ChunkConfig) :
    (∀ calls : List (WriterCall × Bool), (∀ c ∈ calls, c.2 = true → c.1 = .encode) →
      (new cfg).after lib (calls.map Prod.fst) = (new cfg).after lib (unmarked calls) ∧
      ((((new cfg).answers lib (calls.map Prod.fst)).zip calls).filter fun x => !x.2.2).map
        Prod.fst = (new cfg).answers lib (unmarked calls)) ∧
    ∀ calls : List WriterCall,
      (((new cfg).after lib calls).encode lib =
        match ((new cfg).after lib calls).cutFrame lib with
        | (cut, .ok ()) => cut.encode lib
        | (_, .error e) => .error e) ∧
      (((new cfg).after lib calls).isEmpty = true ↔
        ((new cfg).after lib calls).encode lib = .ok none) ∧
      (((new cfg).after lib calls).encode lib = .ok none →
        ((new cfg).after lib calls).recordTotal = 0 ∧
          ((new cfg).after lib calls).uncompressedLen = 0) ∧
      ∀ chunk, ((new cfg).after lib calls).encode lib = .ok (some chunk) →
        ((new cfg).after lib calls).recordTotal = chunk.recordCount ∧
          ((new cfg).after lib calls).uncompressedLen = chunk.uncompressedBytes := by
  refine ⟨fun calls hmarked => answers_inserted hmarked (new cfg), fun calls => ?_⟩
  obtain ⟨rs, hmade⟩ := (made_new lib cfg).after calls
  exact ⟨encode_eq_cutFrame _, hmade.preview⟩

/-- A push, an inserted `encode` and the count after it. -/
theorem encode_previews_count :
    (new ⟨60, 3⟩).answers Concrete.lib [.push ⟨5, "s", "a", none, none⟩, .recordCount] =
      ((((new ⟨60, 3⟩).answers Concrete.lib
        [.push ⟨5, "s", "a", none, none⟩, .encode, .recordCount]).zip
          [(WriterCall.push ⟨5, "s", "a", none, none⟩, false), (.encode, true),
            (.recordCount, false)]).filter fun x => !x.2.2).map Prod.fst := by
  refine ((encode_previews Concrete.lib ⟨60, 3⟩).1 [(.push ⟨5, "s", "a", none, none⟩, false),
    (.encode, true), (.recordCount, false)] ?_).2.symm
  intro c hc hmark
  rcases List.mem_cons.mp hc with rfl | hc
  · cases hmark
  · rcases List.mem_cons.mp hc with rfl | hc
    · rfl
    · rw [List.mem_singleton.mp hc] at hmark
      cases hmark

end ChunkWriter

end S4Logs

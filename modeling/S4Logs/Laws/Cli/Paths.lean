import S4Logs.Cli.Concrete
import S4Logs.Laws.Cli.Source

/-!
# The two paths of a chunk

Read by its sidecars or as a whole, a chunk delivers the same records in the order of
timestamp and stream. What ties should come in object order. The path of the sidecars
takes the frames by their least timestamp before it sorts, so there a later frame with an
earlier record puts its ties first. The two agree just where this moves no tie.
-/

namespace S4Logs

open Sorting (sortBy ties)

/-- The records of a chunk, frame by frame. -/
def EncodedChunk.groups (lib : CodecLib) (chunk : EncodedChunk) : List (List LogRecord) :=
  chunk.frameIndex.entries.map fun e => objectRecords lib (e.slice chunk.body)

/-- Taking the frames by their least timestamp leaves the matching records of each timestamp
and stream in object order. -/
def TiesInOrder (groups : List (List LogRecord)) (range : TimeRange) (pattern : Pattern) : Prop :=
  ∀ k, ties LogRecord.key k ((byStart groups).flatten.filter (recordMatches range pattern)) =
    ties LogRecord.key k (groups.flatten.filter (recordMatches range pattern))

/-- The index as it is stored, with the stamp of the data object. -/
def FrameIndex.stamped (idx : FrameIndex) (etag : Option String) (size : Option Nat) : FrameIndex :=
  { idx with sourceEtag := etag, sourceCompressedSize := size }

theorem groups_ofFrames {lib : CodecLib} {frames : List Frame} (hok : ∀ f ∈ frames, f.Ok lib) :
    (EncodedChunk.ofFrames lib frames).groups lib = frames.map Frame.records := by
  have hentries : ((frameEntries lib 0 0 frames).zip frames).map Prod.fst =
      frameEntries lib 0 0 frames := List.map_fst_zip (by rw [frameEntries_length])
  have hframes : ((frameEntries lib 0 0 frames).zip frames).map Prod.snd = frames :=
    List.map_snd_zip (by rw [frameEntries_length])
  have hrecords : ∀ p ∈ (frameEntries lib 0 0 frames).zip frames,
      objectRecords lib (p.1.slice (frameBody frames)) = p.2.records := by
    intro p hp
    obtain ⟨-, -, hslice⟩ := frameEntries_zip [] hp
    rw [List.nil_append] at hslice
    have hmem : p.2 ∈ frames := (List.of_mem_zip hp).2
    rw [hslice, objectRecords, (hok _ hmem).decode, SerdeLine.intact_text]
  show (frameEntries lib 0 0 frames).map _ = _
  rw [← hentries, ← congrArg (List.map Frame.records) hframes, List.map_map, List.map_map]
  exact List.map_congr_left hrecords

/-- Frames that begin one after the other are in order. -/
theorem TiesInOrder.of_ascending {groups : List (List LogRecord)} (range : TimeRange)
    (pattern : Pattern)
    (h : Sorting.Ascending (fun g => (timeSpan g).minTs) groups) :
    TiesInOrder groups range pattern := by
  intro k
  have hsame : byStart groups = groups := (Sorting.eq_sortBy h fun _ => rfl).symm
  rw [hsame]

/-- What both paths of a stored chunk deliver. -/
theorem delivered_made {lib : ReaderLib} {chunk : EncodedChunk} {rs : List LogRecord}
    (h : chunk.Made lib.toCodecLib rs) (hcap : chunk.uncompressedBytes ≤ fallbackDecodeCapBytes)
    {store : ObjectStore} {key : String} (hserves : store.Serves key chunk.body)
    {idx : FrameIndex} {ts : TsIndex} (hidx : idx.entries = chunk.frameIndex.entries)
    (hts : ts.entries = chunk.tsIndex.entries) (range : TimeRange) (pattern : Pattern) :
    (∃ units, fetchUnits key range (some (idx, ts)) = .ok units ∧
      (ChunkSource.mk key range pattern units).delivered lib store =
        .ok (sortBy LogRecord.key ((byStart (chunk.groups lib.toCodecLib)).flatten.filter
          (recordMatches range pattern)))) ∧
    (ChunkSource.mk key range pattern [.wholeObject]).delivered lib store =
      .ok (sortBy LogRecord.key (rs.filter (recordMatches range pattern))) ∧
    (chunk.groups lib.toCodecLib).flatten = rs := by
  have hdescribes := h.describes
  rw [hdescribes.uncompressedBytes] at hcap
  have hmax : (lib.records.text rs).length ≤ maxDecompressedBytes :=
    hcap.trans (by decide)
  have hwhole := delivered_whole hserves hdescribes.decode hcap range pattern
  obtain ⟨frames, hne, hok, rfl, rfl⟩ := h
  refine ⟨?_, hwhole, ?_⟩
  · rw [groups_ofFrames hok]
    exact delivered_frames ⟨hidx, hts⟩ hok hserves hmax
  · rw [groups_ofFrames hok]
    rfl

/-! ## A tie across frames -/

/-- A record of stream `s`. -/
def tieRecord (timestamp : Int) (message : String) : LogRecord where
  timestamp := timestamp
  stream := "s"
  message := message
  ingestionTime := none
  eventId := none

def tieFirst : LogRecord := tieRecord 5 "the first of the two"
def tieEarlier : LogRecord := tieRecord 3 ""
def tieSecond : LogRecord := tieRecord 5 "the second"

def tieConfig : ChunkConfig := { frameTargetBytes := 60, zstdLevel := 3 }

/-- Two records of one timestamp, the second in a frame with an earlier one. -/
def tieFrames : List Frame :=
  [[tieFirst], [tieEarlier, tieSecond]].map fun rs =>
    ⟨rs, Concrete.storedFrame (Concrete.records.text rs)⟩

def tieChunk : EncodedChunk := .ofFrames Concrete.reader.toCodecLib tieFrames

def tieStore : ObjectStore where
  keyPrefix := ""
  objects := [("k", tieChunk.body)]
  answers := fun _ => true

theorem tieStore_serves : tieStore.Serves "k" tieChunk.body := ⟨rfl, rfl⟩

theorem tieChunk_encoded :
    (ChunkWriter.pushed Concrete.reader.toCodecLib tieConfig [tieFirst, tieEarlier, tieSecond]).encode
      Concrete.reader.toCodecLib = .ok (some tieChunk) := by
  decide +kernel

/-- The sidecars of a chunk and the whole object deliver one sequence, the matching records
sorted with ties in object order, just where the ties of the frames are in order. -/
theorem paths_agree_iff (lib : ReaderLib) (cfg : ChunkConfig) (rs : List LogRecord)
    {chunk : EncodedChunk}
    (hchunk : (ChunkWriter.pushed lib.toCodecLib cfg rs).encode lib.toCodecLib = .ok (some chunk))
    (hcap : chunk.uncompressedBytes ≤ fallbackDecodeCapBytes) {store : ObjectStore} {key : String}
    (hserves : store.Serves key chunk.body) (etag : Option String) (size : Option Nat)
    (range : TimeRange) (pattern : Pattern) :
    ∃ units, fetchUnits key range (some (chunk.frameIndex.stamped etag size, chunk.tsIndex)) =
        .ok units ∧
      ((∃ recs, (ChunkSource.mk key range pattern units).delivered lib store = .ok recs ∧
          (ChunkSource.mk key range pattern [.wholeObject]).delivered lib store = .ok recs ∧
          recs = sortBy LogRecord.key (rs.filter (recordMatches range pattern))) ↔
        TiesInOrder (chunk.groups lib.toCodecLib) range pattern) := by
  have hmade : chunk.Made lib.toCodecLib rs := by
    rcases (ChunkWriter.made_pushed lib.toCodecLib cfg rs).encode with ⟨hnone, -⟩ |
      ⟨chunk', hsome, hmade⟩ | ⟨herror, -⟩
    · rw [hchunk] at hnone
      cases hnone
    · rw [hchunk] at hsome
      cases hsome
      exact hmade
    · rw [hchunk] at herror
      cases herror
  have hstamped : (chunk.frameIndex.stamped etag size).entries = chunk.frameIndex.entries := rfl
  obtain ⟨⟨units, hunits, hfast⟩, hslow, hflat⟩ :=
    delivered_made hmade hcap hserves hstamped (Eq.refl chunk.tsIndex.entries) range pattern
  refine ⟨units, hunits, ?_⟩
  rw [hfast, hslow, TiesInOrder, hflat, ← Sorting.sortBy_eq_iff]
  constructor
  · rintro ⟨recs, hrecs, -, hsorted⟩
    rw [Except.ok.inj hrecs, hsorted]
  · intro h
    exact ⟨_, congrArg _ h, rfl, rfl⟩

/-- A range that ends before the tie. -/
theorem paths_agree_single :
    ∃ units, fetchUnits "k" ⟨0, 5⟩ (some (tieChunk.frameIndex.stamped none none, tieChunk.tsIndex)) =
        .ok units ∧
      ((∃ recs, (ChunkSource.mk "k" ⟨0, 5⟩ none units).delivered Concrete.reader tieStore = .ok recs ∧
          (ChunkSource.mk "k" ⟨0, 5⟩ none [.wholeObject]).delivered Concrete.reader tieStore =
            .ok recs ∧
          recs = sortBy LogRecord.key
            ([tieFirst, tieEarlier, tieSecond].filter (recordMatches ⟨0, 5⟩ none))) ↔
        TiesInOrder (tieChunk.groups Concrete.reader.toCodecLib) ⟨0, 5⟩ none) :=
  paths_agree_iff Concrete.reader tieConfig [tieFirst, tieEarlier, tieSecond] tieChunk_encoded
    (by decide +kernel) tieStore_serves none none ⟨0, 5⟩ none

/-- The sidecars deliver the second of the tie before the first. -/
theorem tie_reversed :
    tieChunk.uncompressedBytes ≤ fallbackDecodeCapBytes ∧
    ∃ units, fetchUnits "k" ⟨0, 10⟩ (some (tieChunk.frameIndex, tieChunk.tsIndex)) = .ok units ∧
      (ChunkSource.mk "k" ⟨0, 10⟩ none units).delivered Concrete.reader tieStore =
        .ok [tieEarlier, tieSecond, tieFirst] ∧
      (ChunkSource.mk "k" ⟨0, 10⟩ none [.wholeObject]).delivered Concrete.reader tieStore =
        .ok [tieEarlier, tieFirst, tieSecond] := by
  have hcap : tieChunk.uncompressedBytes ≤ fallbackDecodeCapBytes := by decide +kernel
  refine ⟨hcap, [.frames [⟨1, 125, 314, 94⟩, ⟨0, 0, 125, 62⟩]], ?_, ?_, ?_⟩
  · decide +kernel
  · decide +kernel
  · decide +kernel

end S4Logs

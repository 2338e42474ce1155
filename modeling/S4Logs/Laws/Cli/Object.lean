import S4Logs.Laws.Cli.Merge
import S4Logs.Laws.Cli.Paths
import S4Logs.Laws.Core.TsIndex

/-!
# One object and what lies beside it

A reader uses sidecars that decode and have as many frames as each other. Where these are
the chunk's own, and where there are none, a scan of the object emits its matching records
in the order of timestamp and stream.
-/

namespace S4Logs

open Sorting (sortBy)

/-! ## Stored sidecars -/

namespace ObjectStore

variable (lib : ReaderLib) (store : ObjectStore) (loc : ChunkLocation)

/-- The byte index that lies at a location, if it decodes. -/
def storedIndex : Option FrameIndex :=
  (Assoc.get? (loc.indexKey store.keyPrefix) store.objects).bind lib.decodeIndex

/-- The timestamp index that lies at a location, if it decodes. -/
def storedTsIndex : Option TsIndex :=
  (Assoc.get? (loc.tsIndexKey store.keyPrefix) store.objects).bind fun octets =>
    (decodeTsIndex octets).toOption

/-- Both, where both decode. -/
def storedSidecars : Option (FrameIndex × TsIndex) :=
  (storedIndex lib store loc).bind fun idx => (storedTsIndex store loc).map fun ts => (idx, ts)

/-- Sidecars of as many frames as each other are those of the chunk. -/
def BesideOwn (chunk : EncodedChunk) : Prop :=
  ∀ idx ∈ storedIndex lib store loc, ∀ ts ∈ storedTsIndex store loc,
    idx.entries.length = ts.entries.length →
      idx.entries = chunk.frameIndex.entries ∧ ts.entries = chunk.tsIndex.entries

/-- S3 answers requests for the object and its sidecars. -/
structure Answers : Prop where
  data : store.answers (loc.dataKey store.keyPrefix) = true
  index : store.answers (loc.indexKey store.keyPrefix) = true
  tsIndex : store.answers (loc.tsIndexKey store.keyPrefix) = true

variable {lib store loc}

theorem getBytes_answered {key : String} (h : store.answers key = true) :
    store.getBytes key = match Assoc.get? key store.objects with
      | none => .error (.notFound key)
      | some body => .ok body := by
  rw [getBytes, h]
  rfl

/-- The sidecars that a reader uses are those that decode. -/
theorem Answers.usableSidecars (h : store.Answers loc) :
    usableSidecars lib store loc = .ok (storedSidecars lib store loc) := by
  have hnone : ∀ e : StoreError, e.sidecarUnusable = true → store.loadIndexes lib loc = .error e →
      S4Logs.usableSidecars lib store loc = .ok none := by
    intro e he hload
    rw [S4Logs.usableSidecars, hload]
    dsimp only
    rw [if_pos he]
  unfold storedSidecars storedIndex storedTsIndex
  cases hindex : Assoc.get? (loc.indexKey store.keyPrefix) store.objects with
  | none =>
    refine hnone (.notFound (loc.indexKey store.keyPrefix)) rfl ?_
    rw [loadIndexes, getBytes_answered h.index, hindex]
    rfl
  | some octets =>
    cases hidx : lib.decodeIndex octets with
    | none =>
      rw [Option.bind_some, hidx]
      refine hnone .index rfl ?_
      rw [loadIndexes, getBytes_answered h.index, hindex]
      simp only [bind, Except.bind, hidx]
    | some idx =>
      rw [Option.bind_some, hidx, Option.bind_some]
      cases htimes : Assoc.get? (loc.tsIndexKey store.keyPrefix) store.objects with
      | none =>
        refine hnone (.notFound (loc.tsIndexKey store.keyPrefix)) rfl ?_
        rw [loadIndexes, getBytes_answered h.index, hindex, getBytes_answered h.tsIndex, htimes]
        simp only [bind, Except.bind, hidx]
      | some octets' =>
        cases hts : decodeTsIndex octets' with
        | error e =>
          rw [Option.bind_some, hts]
          refine hnone (.tsIndex e) rfl ?_
          rw [loadIndexes, getBytes_answered h.index, hindex, getBytes_answered h.tsIndex, htimes]
          simp only [bind, Except.bind, hidx, hts]
          rfl
        | ok ts =>
          have hload : store.loadIndexes lib loc = .ok (idx, ts) := by
            rw [loadIndexes, getBytes_answered h.index, hindex, getBytes_answered h.tsIndex, htimes]
            simp only [bind, Except.bind, hidx, hts]
            rfl
          rw [S4Logs.usableSidecars, hload, Option.bind_some, hts]
          rfl

end ObjectStore

/-! ## A scan of one object -/

variable {lib : ReaderLib} {store : ObjectStore} {loc : ChunkLocation} {chunk : EncodedChunk}
  {rs : List LogRecord}

theorem collect_eq_ok {ε : Type} {recs : List LogRecord} : ∀ {source : BatchSource ε},
    collect source = .ok recs → handed source = recs ∧ ∀ e, .error e ∉ source
  | [], h => ⟨Except.ok.inj h, fun _ hmem => absurd hmem List.not_mem_nil⟩
  | .error e :: source, h => by cases h
  | .ok batch :: source, h => by
    unfold collect at h
    cases hrest : collect source with
    | error e =>
      rw [hrest] at h
      cases h
    | ok rest =>
      rw [hrest] at h
      obtain ⟨hhanded, hno⟩ := collect_eq_ok hrest
      refine ⟨?_, fun e hmem => ?_⟩
      · rw [← Except.ok.inj h, ← hhanded]
        rfl
      · rcases List.mem_cons.mp hmem with heq | hmem
        · cases heq
        · exact hno e hmem

/-- The source of an object, if it has one, hands out these records and does not fail. -/
structure Emits (lib : ReaderLib) (store : ObjectStore) (source : Option ChunkSource)
    (recs : List LogRecord) : Prop where
  delivered : ∀ cs ∈ source, cs.delivered lib store = .ok recs
  absent : source = none → recs = []

/-- The sequence is the matching records of these, in the order of timestamp and stream. -/
def MatchesOf (rs : List LogRecord) (range : TimeRange) (pattern : Pattern)
    (recs : List LogRecord) : Prop :=
  Sorting.Ascending LogRecord.key recs ∧ recs.Perm (rs.filter (recordMatches range pattern))

theorem chunkSource_eq (hanswers : store.Answers loc) {range : TimeRange} {units : List FetchUnit}
    (hunits : fetchUnits (loc.dataKey store.keyPrefix) range (store.storedSidecars lib loc) =
      .ok units) (pattern : Pattern) :
    chunkSource lib store range pattern loc = .ok (if units = [] then none
      else some ⟨loc.dataKey store.keyPrefix, range, pattern, units⟩) := by
  unfold chunkSource
  rw [hanswers.usableSidecars]
  simp only [bind, Except.bind, hunits]

/-- An object without foreign sidecars is read: by its sidecars, or as a whole. -/
theorem chunkSource_emits (hanswers : store.Answers loc) (hmade : chunk.Made lib.toCodecLib rs)
    (hcap : chunk.uncompressedBytes ≤ fallbackDecodeCapBytes)
    (hstored : Assoc.get? (loc.dataKey store.keyPrefix) store.objects = some chunk.body)
    (hown : store.BesideOwn lib loc chunk) (range : TimeRange) (pattern : Pattern) :
    ∃ source recs, chunkSource lib store range pattern loc = .ok source ∧
      Emits lib store source recs ∧ MatchesOf rs range pattern recs := by
  have hserves : store.Serves (loc.dataKey store.keyPrefix) chunk.body := ⟨hanswers.data, hstored⟩
  -- what is fetched of the object, whichever way, gives the matching records
  obtain ⟨units, recs, hunits, hdelivered, hmatches⟩ : ∃ units recs,
      fetchUnits (loc.dataKey store.keyPrefix) range (store.storedSidecars lib loc) =
        .ok units ∧
      (ChunkSource.mk (loc.dataKey store.keyPrefix) range pattern units).delivered lib store =
        .ok recs ∧ MatchesOf rs range pattern recs := by
    have hwhole := delivered_whole hserves hmade.describes.decode
      (hmade.describes.uncompressedBytes ▸ hcap) range pattern
    have hsorted : MatchesOf rs range pattern
        (sortBy LogRecord.key (rs.filter (recordMatches range pattern))) :=
      ⟨Sorting.sortBy_ascending _, Sorting.sortBy_perm _⟩
    unfold ObjectStore.storedSidecars
    cases hidx : store.storedIndex lib loc with
    | none => exact ⟨_, _, rfl, hwhole, hsorted⟩
    | some idx =>
      cases hts : store.storedTsIndex loc with
      | none => exact ⟨_, _, rfl, hwhole, hsorted⟩
      | some ts =>
        by_cases hlen : idx.entries.length = ts.entries.length
        · obtain ⟨hentries, htimes⟩ := hown idx hidx ts hts hlen
          obtain ⟨⟨units, hunits, hfast⟩, -, hflat⟩ :=
            delivered_made hmade hcap hserves hentries htimes range pattern
          refine ⟨units, _, hunits, hfast, Sorting.sortBy_ascending _, ?_⟩
          refine (Sorting.sortBy_perm _).trans (List.Perm.filter _ ?_)
          rw [← hflat]
          exact (Sorting.sortBy_perm _).flatten
        · refine ⟨[.wholeObject], _, ?_, hwhole, hsorted⟩
          rw [Option.bind_some, Option.map_some, fetchUnits, framesOverlapping, if_pos hlen]
  refine ⟨if units = [] then none else some ⟨loc.dataKey store.keyPrefix, range, pattern, units⟩,
    recs, chunkSource_eq hanswers hunits pattern, ⟨fun cs hcs => ?_, fun hnone => ?_⟩, hmatches⟩
  · split at hcs
    next => cases hcs
    next =>
      cases hcs
      exact hdelivered
  · split at hnone
    next hnil =>
      subst hnil
      exact (Except.ok.inj hdelivered).symm
    next => cases hnone

end S4Logs

import S4Logs.Cli.Concrete
import S4Logs.Core.Put
import S4Logs.Laws.Cli.Object
import S4Logs.Laws.Core.Keys
import S4Logs.Lib.Fallible
import S4Logs.Lib.Run

/-!
# A chunk put over another

Nothing compares the sidecars of an object with its body. A call of `put_chunk` that is cut
off between its PUTs leaves the sidecars of another chunk beside its data object, and a
reader uses them where they decode and have as many frames as each other. In a run where
no call is cut off so, a scan emits the matching records of the object that lies there.
-/

namespace S4Logs

variable {lib : ReaderLib} {loc : ChunkLocation} {store store' : ObjectStore} {call : PutCall}

/-! ## One call -/

/-- A call of `put_chunk` to the location. -/
def putStep (lib : ReaderLib) (loc : ChunkLocation) (store : ObjectStore) (call : PutCall) :
    Option ObjectStore :=
  some (store.putChunk lib.toCodecLib loc call)

/-- The chunk was made by a writer, of timestamps the format has room for. -/
def PutCall.Written (lib : ReaderLib) (call : PutCall) : Prop :=
  ∃ rs, call.chunk.Made lib.toCodecLib rs ∧ InI64 rs

/-- Of the sidecars that lay there, those that the call leaves beside its data object are no
use, or the chunk's own. -/
def PutCall.Clean (lib : ReaderLib) (loc : ChunkLocation) (store : ObjectStore)
    (call : PutCall) : Prop :=
  (call.puts = 1 → store.BesideOwn lib loc call.chunk) ∧
  (call.puts = 2 → ∀ ts ∈ store.storedTsIndex loc,
    call.chunk.frameIndex.entries.length = ts.entries.length →
      ts.entries = call.chunk.tsIndex.entries)

namespace ObjectStore

theorem get?_putBytes (key : String) (body : Bytes) :
    Assoc.get? key (store.putBytes key body).objects = some body := Assoc.get?_insert ..

theorem get?_putBytes_ne {key key' : String} (hne : key' ≠ key) (body : Bytes) :
    Assoc.get? key' (store.putBytes key body).objects = Assoc.get? key' store.objects :=
  Assoc.get?_insert_of_ne hne.symm ..

/-- What a call leaves at its location: the first of its objects, as far as it came, and
what lay there before in the place of the others. -/
structure Put (lib : ReaderLib) (loc : ChunkLocation) (call : PutCall)
    (store store' : ObjectStore) : Prop where
  keyPrefix : store'.keyPrefix = store.keyPrefix
  answers : store'.answers = store.answers
  data : Assoc.get? (loc.dataKey store.keyPrefix) store'.objects =
    if 1 ≤ call.puts then some call.chunk.body
    else Assoc.get? (loc.dataKey store.keyPrefix) store.objects
  index : Assoc.get? (loc.indexKey store.keyPrefix) store'.objects =
    if 2 ≤ call.puts then some (encodeSidecars lib.toCodecLib call.chunk call.etag).1
    else Assoc.get? (loc.indexKey store.keyPrefix) store.objects
  tsIndex : Assoc.get? (loc.tsIndexKey store.keyPrefix) store'.objects =
    if 3 ≤ call.puts then some (encodeTsIndex call.chunk.tsIndex)
    else Assoc.get? (loc.tsIndexKey store.keyPrefix) store.objects

theorem putChunk_put (lib : ReaderLib) (loc : ChunkLocation) (store : ObjectStore)
    (call : PutCall) : Put lib loc call store (store.putChunk lib.toCodecLib loc call) := by
  obtain ⟨hindex, htsIndex⟩ := dataKey_ne_sidecar loc loc store.keyPrefix
  have hsidecars := indexKey_ne_tsIndexKey loc loc store.keyPrefix
  obtain ⟨chunk, etag, puts⟩ := call
  match puts with
  | 0 => exact ⟨rfl, rfl, rfl, rfl, rfl⟩
  | 1 =>
    exact ⟨rfl, rfl, get?_putBytes .., get?_putBytes_ne hindex.symm _,
      get?_putBytes_ne htsIndex.symm _⟩
  | 2 =>
    refine ⟨rfl, rfl, ?_, get?_putBytes .., ?_⟩
    · exact (get?_putBytes_ne hindex _).trans (get?_putBytes ..)
    · exact (get?_putBytes_ne hsidecars.symm _).trans (get?_putBytes_ne htsIndex.symm _)
  | n + 3 =>
    have hone : 1 ≤ n + 3 := by omega
    have htwo : 2 ≤ n + 3 := by omega
    have hthree : 3 ≤ n + 3 := by omega
    refine ⟨rfl, rfl, ?_, ?_, ?_⟩
    · rw [if_pos hone]
      exact (get?_putBytes_ne htsIndex _).trans
        ((get?_putBytes_ne hindex _).trans (get?_putBytes ..))
    · rw [if_pos htwo]
      exact (get?_putBytes_ne hsidecars _).trans (get?_putBytes ..)
    · rw [if_pos hthree]
      exact get?_putBytes ..

end ObjectStore

/-! ## Runs -/

/-- The data object of the location is a chunk, and no foreign sidecars that a reader would
use lie beside it. -/
structure Tended (lib : ReaderLib) (loc : ChunkLocation) (store : ObjectStore) : Prop where
  answers : store.Answers loc
  own : ∀ body, Assoc.get? (loc.dataKey store.keyPrefix) store.objects = some body →
    ∃ chunk rs, body = chunk.body ∧ chunk.Made lib.toCodecLib rs ∧ store.BesideOwn lib loc chunk

/-- A sidecar that the call has put decodes to the chunk's own, if at all. -/
theorem ObjectStore.Put.own_index (hput : ObjectStore.Put lib loc call store store')
    (hputs : 2 ≤ call.puts) {idx : FrameIndex} (hidx : idx ∈ store'.storedIndex lib loc) :
    idx.entries = call.chunk.frameIndex.entries := by
  rw [ObjectStore.storedIndex, hput.keyPrefix, hput.index, if_pos hputs] at hidx
  rw [lib.decodeIndex_encodeIndex hidx]

theorem ObjectStore.Put.own_tsIndex (hput : ObjectStore.Put lib loc call store store')
    (hputs : 3 ≤ call.puts) (hwritten : call.Written lib) {ts : TsIndex}
    (hts : ts ∈ store'.storedTsIndex loc) : ts.entries = call.chunk.tsIndex.entries := by
  obtain ⟨rs, hmade, hrange⟩ := hwritten
  rw [ObjectStore.storedTsIndex, hput.keyPrefix, hput.tsIndex, if_pos hputs, Option.bind_some,
    Option.mem_def, Fallible.toOption_eq_some] at hts
  rw [decodeTsIndex_encodeTsIndex (hmade.fits hrange) hts]

/-- A call that is not cut off beside foreign sidecars leaves none. -/
theorem Tended.step (h : Tended lib loc store) (hwritten : call.Written lib)
    (hclean : call.Clean lib loc store) :
    Tended lib loc (store.putChunk lib.toCodecLib loc call) := by
  have hput := ObjectStore.putChunk_put lib loc store call
  generalize store.putChunk lib.toCodecLib loc call = store' at hput
  refine ⟨⟨?_, ?_, ?_⟩, fun body hbody => ?_⟩
  · rw [hput.answers, hput.keyPrefix]
    exact h.answers.data
  · rw [hput.answers, hput.keyPrefix]
    exact h.answers.index
  · rw [hput.answers, hput.keyPrefix]
    exact h.answers.tsIndex
  rw [hput.keyPrefix, hput.data] at hbody
  have hindex : call.puts < 2 → store'.storedIndex lib loc = store.storedIndex lib loc := by
    intro hlt
    rw [ObjectStore.storedIndex, hput.keyPrefix, hput.index, if_neg (by omega)]
    rfl
  have htsIndex : call.puts < 3 → store'.storedTsIndex loc = store.storedTsIndex loc := by
    intro hlt
    rw [ObjectStore.storedTsIndex, hput.keyPrefix, hput.tsIndex, if_neg (by omega)]
    rfl
  by_cases hputs : 1 ≤ call.puts
  · rw [if_pos hputs] at hbody
    obtain ⟨rs, hmade, hrange⟩ := hwritten
    refine ⟨call.chunk, rs, (Option.some.inj hbody).symm, hmade, fun idx hidx ts hts hlen => ?_⟩
    rcases Nat.lt_or_ge call.puts 2 with hlt | htwo
    · -- only the data object was put
      rw [hindex hlt] at hidx
      rw [htsIndex (by omega)] at hts
      exact hclean.1 (by omega) idx hidx ts hts hlen
    · have hidxOwn := hput.own_index htwo hidx
      refine ⟨hidxOwn, ?_⟩
      rcases Nat.lt_or_ge call.puts 3 with hlt | hthree
      · rw [htsIndex hlt] at hts
        exact hclean.2 (by omega) ts hts (hidxOwn ▸ hlen)
      · exact hput.own_tsIndex hthree ⟨rs, hmade, hrange⟩ hts
  · rw [if_neg hputs] at hbody
    obtain ⟨chunk, rs, rfl, hmade, hown⟩ := h.own body hbody
    refine ⟨chunk, rs, rfl, hmade, fun idx hidx ts hts => ?_⟩
    rw [hindex (by omega)] at hidx
    rw [htsIndex (by omega)] at hts
    exact hown idx hidx ts hts

/-- The object can be read as a whole. -/
def Readable (lib : ReaderLib) (body : Bytes) : Prop :=
  (lib.zstd.decode body).2 = true ∧ (lib.zstd.decode body).1.length ≤ fallbackDecodeCapBytes

/-- A scan of the object that lies at the location emits its matching records. -/
def ScansCurrent (lib : ReaderLib) (loc : ChunkLocation) (store : ObjectStore) : Prop :=
  ∀ body, Assoc.get? (loc.dataKey store.keyPrefix) store.objects = some body →
    Readable lib body → ∀ (range : TimeRange) (pattern : Pattern), ∃ source recs,
      chunkSource lib store range pattern loc = .ok source ∧ Emits lib store source recs ∧
        MatchesOf (objectRecords lib.toCodecLib body) range pattern recs

theorem Tended.scansCurrent (h : Tended lib loc store) : ScansCurrent lib loc store := by
  intro body hbody hread range pattern
  obtain ⟨chunk, rs, rfl, hmade, hown⟩ := h.own body hbody
  have hcap := hread.2
  rw [hmade.describes.decode] at hcap
  rw [hmade.describes.objectRecords]
  exact chunkSource_emits h.answers hmade (hmade.describes.uncompressedBytes.le.trans hcap) hbody
    hown range pattern

/-- In a run whose calls are not cut off beside foreign sidecars, every scan emits the
matching records of the object that lies there. -/
theorem scans_current (hanswers : store.Answers loc)
    (hfresh : Assoc.get? (loc.dataKey store.keyPrefix) store.objects = none)
    (hrun : LTS.Reaches (putStep lib loc)
      (fun s call => call.Written lib ∧ call.Clean lib loc s) store store') :
    ScansCurrent lib loc store' := by
  have hstart : Tended lib loc store :=
    ⟨hanswers, fun body hbody => absurd (hfresh.symm.trans hbody) nofun⟩
  refine (hrun.invariant hstart ?_).scansCurrent
  rintro s call s' hs ⟨hwritten, hclean⟩ hstep
  rw [← Option.some.inj hstep]
  exact hs.step hwritten hclean

/-! ## Two chunks at one location -/

namespace Concrete

def shelf : ChunkLocation := ⟨"1", "g", "1970-01-01", "n"⟩

def emptyShelf : ObjectStore where
  keyPrefix := ""
  objects := []
  answers := fun _ => true

/-- A chunk of one frame. -/
def oneFrame (rs : List LogRecord) : EncodedChunk :=
  .ofFrames reader.toCodecLib [⟨rs, storedFrame (records.text rs)⟩]

def earlyChunk : EncodedChunk := oneFrame [tieRecord 5 "the longer one"]
def lateChunk : EncodedChunk := oneFrame [tieRecord 7 ""]

theorem oneFrame_made {rs : List LogRecord} (hne : rs ≠ []) :
    (oneFrame rs).Made reader.toCodecLib rs := by
  refine ⟨[⟨rs, storedFrame (records.text rs)⟩], List.cons_ne_nil _ _, fun f hf => ?_,
    (List.append_nil rs).symm, rfl⟩
  obtain rfl := List.mem_singleton.mp hf
  exact ⟨hne, 0, rfl⟩

theorem early_written (etag : Option String) (puts : Nat) :
    PutCall.Written reader ⟨earlyChunk, etag, puts⟩ :=
  ⟨_, oneFrame_made (List.cons_ne_nil _ _), by unfold InI64; decide⟩

theorem late_written (etag : Option String) (puts : Nat) :
    PutCall.Written reader ⟨lateChunk, etag, puts⟩ :=
  ⟨_, oneFrame_made (List.cons_ne_nil _ _), by unfold InI64; decide⟩

/-- The early chunk, and the data object of the late one over it. -/
def overwritten : ObjectStore :=
  (emptyShelf.putChunk reader.toCodecLib shelf ⟨earlyChunk, none, 3⟩).putChunk reader.toCodecLib
    shelf ⟨lateChunk, none, 1⟩

end Concrete

open Concrete in
/-- A first call that is cut off before its last PUT, and one that is not. -/
theorem scans_current_late :
    ScansCurrent reader shelf ((emptyShelf.putChunk reader.toCodecLib shelf
      ⟨earlyChunk, none, 2⟩).putChunk reader.toCodecLib shelf ⟨lateChunk, some "e", 3⟩) := by
  have hanswers : emptyShelf.Answers shelf := ⟨rfl, rfl, rfl⟩
  refine scans_current hanswers rfl (.tail (.tail .refl ?_ rfl) ?_ rfl)
  · exact ⟨early_written none 2, nofun, fun _ ts hts => absurd hts nofun⟩
  · exact ⟨late_written (some "e") 3, nofun, nofun⟩

open Concrete in
/-- The sidecars of the early chunk hide the late one, or make a scan of it fail. -/
theorem stale_sidecars_used :
    (¬ ∀ (calls : List PutCall) (store : ObjectStore), (∀ c ∈ calls, c.Written reader) →
      LTS.exec (putStep reader shelf) emptyShelf calls = some store →
        ScansCurrent reader shelf store) ∧
    chunkSource reader overwritten ⟨6, 10⟩ none shelf = .ok none ∧
    ∃ cs e, chunkSource reader overwritten ⟨0, 10⟩ none shelf = .ok (some cs) ∧
      cs.delivered reader overwritten = .error e := by
  have hanswers : overwritten.Answers shelf := ⟨rfl, rfl, rfl⟩
  have hnone : fetchUnits (shelf.dataKey overwritten.keyPrefix) ⟨6, 10⟩
      (overwritten.storedSidecars reader shelf) = .ok [] := by decide +kernel
  have hhidden : chunkSource reader overwritten ⟨6, 10⟩ none shelf = .ok none :=
    chunkSource_eq hanswers hnone none
  refine ⟨fun h => ?_, hhidden, ?_⟩
  · have hwritten : ∀ c ∈ [(⟨earlyChunk, none, 3⟩ : PutCall), ⟨lateChunk, none, 1⟩],
        c.Written reader := by
      intro c hc
      rcases List.mem_cons.mp hc with rfl | hc
      · exact early_written none 3
      · rw [List.mem_singleton.mp hc]
        exact late_written none 1
    have hread : Readable reader lateChunk.body := by
      unfold Readable
      decide +kernel
    obtain ⟨source, recs, hsource, hemits, -, hperm⟩ :=
      h _ overwritten hwritten rfl lateChunk.body (by decide +kernel) hread ⟨6, 10⟩ none
    have hmatching : (objectRecords reader.toCodecLib lateChunk.body).filter
        (recordMatches ⟨6, 10⟩ none) = [tieRecord 7 ""] := by decide +kernel
    rw [hemits.absent (Except.ok.inj (hsource.symm.trans hhidden)), hmatching] at hperm
    exact List.not_perm_nil_cons _ _ hperm
  · have hunits : fetchUnits (shelf.dataKey overwritten.keyPrefix) ⟨0, 10⟩
        (overwritten.storedSidecars reader shelf) = .ok [.frames [⟨0, 0, 113, 56⟩]] := by
      decide +kernel
    refine ⟨_, .rangeLength (shelf.dataKey "") 0 85 113 0 113, chunkSource_eq hanswers hunits none,
      ?_⟩
    decide +kernel

end S4Logs

import S4Logs.Cli.Concrete
import S4Logs.Drain.Concrete
import S4Logs.Laws.Cli.Source
import S4Logs.Laws.Core.Roundtrip
import S4Logs.Laws.Drain.Window

/-!
# Reading data objects without sidecars

A window writer closes an object with the record that brings its text to the target, so an
object is as long as the target and one record allow. The reader that has no sidecars takes
an object up to a fixed size. An object is read in full exactly where its text is within
that size, which neither the target nor the writer looks at.
-/

namespace S4Logs

/-- A push at the level of the window is the push of its writer. -/
theorem Work.push_eq (env : Env) (opts : DrainOptions) (wk : Work) (ev : CwEvent) :
    wk.push env opts ev =
      match wk.ww.push env.lib opts ev.toRecord with
      | .error e => .failed (.drain e)
      | .ok (ww, none) => .work { wk with ww := ww, pushed := wk.pushed ++ [ev] } .pages
      | .ok (ww, some chunk) =>
        .work { wk with ww := ww, pushed := wk.pushed ++ [ev] } (.put chunk .data false) := by
  unfold Work.push WindowWriter.push
  cases wk.ww.writer.push env.lib ev.toRecord with
  | mk writer result =>
    cases result with
    | error e => rfl
    | ok =>
      dsimp only
      split
      next =>
        unfold Work.flush
        cases WindowWriter.flush env.lib opts
            { wk.ww with writer := ChunkWriter.new opts.chunk } writer with
        | error e => rfl
        | ok r =>
          obtain ⟨ww, _ | chunk⟩ := r
          · rfl
          · rfl
      next => rfl

/-! ## Groups -/

/-- Some records in groups, each closed by the record that brings its text to the target.
The first group has some records already. -/
def groupsFrom (lib : CodecLib) (target : Nat) : List LogRecord → List LogRecord →
    List (List LogRecord)
  | held, [] => if held = [] then [] else [held]
  | held, r :: rs =>
    if target ≤ (lib.records.text (held ++ [r])).length then
      (held ++ [r]) :: groupsFrom lib target [] rs
    else groupsFrom lib target (held ++ [r]) rs

/-- Lines of these lengths, added up and begun anew with each line that brings the sum to
the target: the sum stays within the cap. -/
def LinesFit (cap target : Nat) : Nat → List Nat → Prop
  | _, [] => True
  | held, n :: ns =>
    held + n ≤ cap ∧ LinesFit cap target (if target ≤ held + n then 0 else held + n) ns

section Groups

variable {lib : CodecLib} {target : Nat}

/-- The octets of a record in an object: its line and the newline. -/
def lineLength (lib : CodecLib) (r : LogRecord) : Nat := (lib.records.toVec r).length + 1

theorem text_concat_length (held : List LogRecord) (r : LogRecord) :
    (lib.records.text (held ++ [r])).length =
      (lib.records.text held).length + lineLength lib r := by
  rw [SerdeLine.text_append, SerdeLine.text_singleton, List.length_append, List.length_append,
    List.length_singleton, lineLength]

/-- No group is over the cap exactly where the sums of the lines are not. -/
theorem groupsFrom_fit {cap : Nat} {held : List LogRecord} (rs : List LogRecord)
    (hheld : (lib.records.text held).length ≤ cap) :
    (∀ g ∈ groupsFrom lib target held rs, (lib.records.text g).length ≤ cap) ↔
      LinesFit cap target (lib.records.text held).length (rs.map (lineLength lib)) := by
  induction rs generalizing held with
  | nil =>
    refine iff_of_true (fun g hg => ?_) trivial
    unfold groupsFrom at hg
    split at hg
    · exact absurd hg List.not_mem_nil
    · rwa [List.mem_singleton.mp hg]
  | cons r rs ih =>
    rw [List.map_cons, LinesFit, ← text_concat_length, groupsFrom]
    by_cases hfull : target ≤ (lib.records.text (held ++ [r])).length
    · rw [if_pos hfull, if_pos hfull, List.forall_mem_cons, ih (Nat.zero_le _)]
      rfl
    · rw [if_neg hfull, if_neg hfull]
      by_cases hfits : (lib.records.text (held ++ [r])).length ≤ cap
      · rw [ih hfits, and_iff_right hfits]
      · refine iff_of_false (fun hall => hfits ?_) fun hfit => hfits hfit.1
        -- the group of the line is at least as long as it is now
        have hgroup : ∀ (rs held : List LogRecord), held ≠ [] →
            ∃ g ∈ groupsFrom lib target held rs, held <+: g := by
          intro rs
          induction rs with
          | nil =>
            intro held hne
            refine ⟨held, ?_, List.prefix_refl held⟩
            rw [groupsFrom, if_neg hne]
            exact List.mem_cons_self
          | cons r rs ih =>
            intro held hne
            rw [groupsFrom]
            split
            · exact ⟨_, List.mem_cons_self, List.prefix_append _ _⟩
            · obtain ⟨g, hg, hpre⟩ := ih (held ++ [r]) (List.append_ne_nil_of_left_ne_nil hne _)
              exact ⟨g, hg, (List.prefix_append _ _).trans hpre⟩
        obtain ⟨g, hg, more, rfl⟩ := hgroup rs (held ++ [r])
          (List.append_ne_nil_of_right_ne_nil _ (List.cons_ne_nil _ _))
        have hle := hall _ hg
        rw [SerdeLine.text_append, List.length_append] at hle
        exact (Nat.le_add_right _ _).trans hle

/-- Records whose text is shorter than the target are one group. -/
theorem groupsFrom_below {held rs : List LogRecord} (hne : held ++ rs ≠ [])
    (hbelow : (lib.records.text (held ++ rs)).length < target) :
    groupsFrom lib target held rs = [held ++ rs] := by
  induction rs generalizing held with
  | nil =>
    rw [List.append_nil] at hne ⊢
    rw [groupsFrom, if_neg hne]
  | cons r rs ih =>
    have hassoc : held ++ r :: rs = held ++ [r] ++ rs := by
      rw [List.append_assoc, List.singleton_append]
    have hopen : ¬ target ≤ (lib.records.text (held ++ [r])).length := by
      rw [hassoc, SerdeLine.text_append, List.length_append] at hbelow
      omega
    rw [groupsFrom, if_neg hopen, hassoc]
    exact ih (hassoc ▸ hne) (hassoc ▸ hbelow)

/-- A target that leaves room for the longest line below the cap always fits. -/
theorem linesFit_of_room {cap longest held : Nat} {ns : List Nat}
    (hroom : target + longest ≤ cap + 1) (hheld : held < target) (hns : ∀ n ∈ ns, n ≤ longest) :
    LinesFit cap target held ns := by
  induction ns generalizing held with
  | nil => trivial
  | cons n ns ih =>
    obtain ⟨hn, hrest⟩ := List.forall_mem_cons.mp hns
    refine ⟨by omega, ih ?_ hrest⟩
    split <;> omega

end Groups

/-! ## What a window writer puts -/

/-- The chunk is what the records are encoded as. -/
def EncodedAs (lib : CodecLib) (cfg : ChunkConfig) (chunk : EncodedChunk) (rs : List LogRecord) :
    Prop :=
  ChunkWriter.encodeAll lib cfg rs = .ok (some chunk)

theorem EncodedAs.describes {lib : CodecLib} {cfg : ChunkConfig} {chunk : EncodedChunk}
    {rs : List LogRecord} (h : EncodedAs lib cfg chunk rs) : Describes lib chunk rs := by
  rcases ChunkWriter.encodeAll_spec lib cfg rs with
    ⟨hnone, -⟩ | ⟨made, hmade, hspec⟩ | ⟨herr, -⟩
  · rw [EncodedAs, hnone] at h
    cases h
  · rw [EncodedAs, hmade] at h
    obtain rfl := Option.some.inj (Except.ok.inj h)
    exact hspec.describes
  · rw [EncodedAs, herr] at h
    cases h

theorem flush_encoded {lib : CodecLib} {opts : DrainOptions} (ww : WindowWriter)
    {writer : ChunkWriter} {held : List LogRecord} (total : lib.zstd.Total)
    (hdry : opts.dryRun = false) (hne : held ≠ [])
    (hheld : (ChunkWriter.new opts.chunk).pushAll lib held = (writer, .ok ())) :
    ∃ chunk, EncodedAs lib opts.chunk chunk held ∧
      ww.flush lib opts writer = .ok (ww.count chunk, some chunk) := by
  have hfinish : ChunkWriter.encodeAll lib opts.chunk held = writer.finish lib := by
    rw [ChunkWriter.encodeAll, hheld]
  rcases ChunkWriter.encodeAll_spec lib opts.chunk held with
    ⟨-, hnil⟩ | ⟨chunk, hchunk, -⟩ | ⟨-, hpartial⟩
  · exact absurd hnil hne
  · refine ⟨chunk, hchunk, ?_⟩
    rw [WindowWriter.flush, ← hfinish, hchunk]
    dsimp only
    rw [hdry]
    rfl
  · exact absurd total hpartial

/-- A push of a writer that holds some records: it holds one more, or puts them all. -/
theorem push_encoded {lib : CodecLib} {opts : DrainOptions} {ww : WindowWriter}
    {held : List LogRecord} (total : lib.zstd.Total) (hdry : opts.dryRun = false)
    (hheld : (ChunkWriter.new opts.chunk).pushAll lib held = (ww.writer, .ok ()))
    (r : LogRecord) :
    (opts.chunkTargetBytes ≤ (lib.records.text (held ++ [r])).length → ∃ chunk ww',
      EncodedAs lib opts.chunk chunk (held ++ [r]) ∧
      ww.push lib opts r = .ok (ww', some chunk) ∧ ww'.writer = ChunkWriter.new opts.chunk) ∧
    (¬ opts.chunkTargetBytes ≤ (lib.records.text (held ++ [r])).length → ∃ ww',
      ww.push lib opts r = .ok (ww', none) ∧
      (ChunkWriter.new opts.chunk).pushAll lib (held ++ [r]) = (ww'.writer, .ok ())) := by
  have hok : ((ChunkWriter.new opts.chunk).pushAll lib held).2 = .ok () := by rw [hheld]
  have hnext := ChunkWriter.pushAll_concat hok r
  rw [hheld] at hnext
  dsimp only at hnext
  rcases (ChunkWriter.made_new lib opts.chunk).pushAll (held ++ [r]) with
    ⟨hpushed, hmade⟩ | ⟨-, hpartial⟩
  · rw [hnext] at hpushed hmade
    rw [List.nil_append] at hmade
    have hlength := hmade.holds.uncompressedLen
    cases hpush : ww.writer.push lib r with
    | mk writer result =>
      rw [hpush] at hpushed hlength hnext
      cases hpushed
      dsimp only at hlength
      rw [WindowWriter.push, hpush]
      dsimp only
      rw [hlength]
      constructor
      · intro hfull
        obtain ⟨chunk, hchunk, hflush⟩ := flush_encoded { ww with
          writer := ChunkWriter.new opts.chunk } total hdry
          (List.append_ne_nil_of_right_ne_nil held (List.cons_ne_nil r [])) hnext
        rw [if_pos hfull, hflush]
        exact ⟨chunk, _, hchunk, rfl, rfl⟩
      · intro hopen
        rw [if_neg hopen]
        exact ⟨_, rfl, hnext⟩
  · exact absurd total hpartial

/-- The chunks put are those of the groups. -/
theorem puts_groups {lib : CodecLib} {opts : DrainOptions} (total : lib.zstd.Total)
    (hdry : opts.dryRun = false) (receipt : EncodedChunk → PutReceipt) {ww : WindowWriter}
    {held : List LogRecord} (rs : List LogRecord)
    (hheld : (ChunkWriter.new opts.chunk).pushAll lib held = (ww.writer, .ok ())) :
    List.Forall₂ (EncodedAs lib opts.chunk) (ww.puts lib opts receipt rs)
      (groupsFrom lib opts.chunkTargetBytes held rs) := by
  induction rs generalizing ww held with
  | nil =>
    rw [WindowWriter.puts, WindowWriter.finish, groupsFrom]
    by_cases hne : held = []
    · subst hne
      have hnew : ww.writer = ChunkWriter.new opts.chunk := (congrArg Prod.fst hheld).symm
      have hnone : (ChunkWriter.new opts.chunk).finish lib = .ok none := rfl
      rw [if_pos rfl, WindowWriter.flush, hnew, hnone]
      exact List.Forall₂.nil
    · obtain ⟨chunk, hchunk, hflush⟩ := flush_encoded { ww with
        writer := ChunkWriter.new opts.chunk } total hdry hne hheld
      rw [if_neg hne, hflush]
      exact List.Forall₂.cons hchunk List.Forall₂.nil
  | cons r rs ih =>
    obtain ⟨hfull, hopen⟩ := push_encoded total hdry hheld r
    rw [WindowWriter.puts, groupsFrom]
    by_cases htarget : opts.chunkTargetBytes ≤ (lib.records.text (held ++ [r])).length
    · obtain ⟨chunk, ww', hchunk, hpush, hnew⟩ := hfull htarget
      rw [hpush, if_pos htarget]
      refine List.Forall₂.cons hchunk (ih ?_)
      show _ = (ww'.writer, _)
      rw [hnew]
      rfl
    · obtain ⟨ww', hpush, hnext⟩ := hopen htarget
      rw [hpush, if_neg htarget]
      exact ih hnext

/-- A dry run puts nothing. -/
theorem puts_dry {lib : CodecLib} {opts : DrainOptions} (hdry : opts.dryRun = true)
    (receipt : EncodedChunk → PutReceipt) (ww : WindowWriter) (rs : List LogRecord) :
    ww.puts lib opts receipt rs = [] := by
  have hflush : ∀ (ww : WindowWriter) (writer : ChunkWriter) {r : WindowWriter × Option EncodedChunk},
      ww.flush lib opts writer = .ok r → r.2 = none := by
    intro ww writer r h
    unfold WindowWriter.flush at h
    rw [hdry] at h
    split at h
    · cases h
    · cases h
      rfl
    · cases h
      rfl
  induction rs generalizing ww with
  | nil =>
    rw [WindowWriter.puts]
    split
    next chunk heq => cases hflush _ _ heq
    next => rfl
  | cons r rs ih =>
    rw [WindowWriter.puts]
    split
    next => rfl
    next => exact ih _
    next heq =>
      unfold WindowWriter.push at heq
      split at heq
      · cases heq
      · split at heq
        · cases hflush _ _ heq
        · cases heq

/-! ## Reading them whole -/

section Reading

variable {lib : ReaderLib} {range : TimeRange} {pattern : Pattern}

/-- A text over the cap is refused at the line that passes it. -/
theorem streamLines_over {rs : List LogRecord} {total : Nat}
    (hin : total ≤ fallbackDecodeCapBytes)
    (hover : fallbackDecodeCapBytes < total + (lib.records.text rs).length) :
    streamLines lib range pattern total
        ((rs.map lib.records.toVec).map fun line => (line, line.length + 1)) =
      .error (.cap fallbackDecodeCapBytes) := by
  induction rs generalizing total with
  | nil => exact absurd hover (Nat.not_lt.mpr hin)
  | cons r rs ih =>
    have hline : (lib.records.text (r :: rs)).length =
        (lib.records.toVec r).length + 1 + (lib.records.text rs).length := by
      rw [← List.singleton_append, SerdeLine.text_append, SerdeLine.text_singleton,
        List.length_append, List.length_append, List.length_singleton]
    rw [hline] at hover
    rw [List.map_cons, List.map_cons, streamLines]
    dsimp only
    by_cases hpast : fallbackDecodeCapBytes < total + ((lib.records.toVec r).length + 1)
    · rw [if_pos hpast]
    · have hrest := ih (Nat.le_of_not_lt hpast) (by omega)
      rw [if_neg hpast, hrest]
      split
      · rfl
      · split
        · rfl
        · split <;> rfl

theorem streamFullObject_over {body : Bytes} {rs : List LogRecord}
    (hdecode : lib.zstd.decode body = (lib.records.text rs, true))
    (hover : fallbackDecodeCapBytes < (lib.records.text rs).length) :
    streamFullObject lib range pattern body = .error (.cap fallbackDecodeCapBytes) := by
  rw [streamFullObject_text hdecode]
  exact streamLines_over (Nat.zero_le _) (by rwa [Nat.zero_add])

/-- All of time. -/
def unboundedRange : TimeRange := ⟨i64Min, i64Max⟩

/-- A chunk of some records is read as a whole exactly where their text is within the cap. -/
theorem whole_read_iff {cfg : ChunkConfig} {chunk : EncodedChunk} {g : List LogRecord}
    (h : EncodedAs lib.toCodecLib cfg chunk g)
    (htimes : ∀ r ∈ g, i64Min ≤ r.timestamp ∧ r.timestamp < i64Max) :
    streamFullObject lib unboundedRange none chunk.body =
        .ok (objectRecords lib.toCodecLib chunk.body) ↔
      (lib.records.text g).length ≤ fallbackDecodeCapBytes := by
  have hdescribes := h.describes
  have hall : g.filter (recordMatches unboundedRange none) = g := by
    refine List.filter_eq_self.mpr fun r hr => ?_
    obtain ⟨hlo, hhi⟩ := htimes r hr
    rw [recordMatches, Bool.and_eq_true, Bool.and_eq_true]
    exact ⟨⟨decide_eq_true hlo, decide_eq_true hhi⟩, rfl⟩
  rw [hdescribes.objectRecords]
  constructor
  · intro hread
    by_contra hover
    rw [streamFullObject_over hdescribes.decode (Nat.lt_of_not_le hover)] at hread
    cases hread
  · intro hcap
    rw [streamFullObject_records hdescribes.decode hcap, hall]

theorem whole_reads_iff {cfg : ChunkConfig} {chunks : List EncodedChunk}
    {groups : List (List LogRecord)}
    (h : List.Forall₂ (EncodedAs lib.toCodecLib cfg) chunks groups)
    (htimes : ∀ r ∈ groups.flatten, i64Min ≤ r.timestamp ∧ r.timestamp < i64Max) :
    (∀ chunk ∈ chunks, streamFullObject lib unboundedRange none chunk.body =
        .ok (objectRecords lib.toCodecLib chunk.body)) ↔
      ∀ g ∈ groups, (lib.records.text g).length ≤ fallbackDecodeCapBytes := by
  induction h with
  | nil => exact ⟨fun _ _ hg => absurd hg List.not_mem_nil, fun _ _ hc => absurd hc List.not_mem_nil⟩
  | @cons chunk g chunks groups hchunk _ ih =>
    rw [List.flatten_cons] at htimes
    rw [List.forall_mem_cons, List.forall_mem_cons,
      whole_read_iff hchunk fun r hr => htimes r (List.mem_append_left _ hr),
      ih fun r hr => htimes r (List.mem_append_right _ hr)]

theorem groupsFrom_flatten {lib : CodecLib} {target : Nat} (held rs : List LogRecord) :
    (groupsFrom lib target held rs).flatten = held ++ rs := by
  induction rs generalizing held with
  | nil =>
    rw [groupsFrom, List.append_nil]
    split
    next hnil => exact hnil.symm
    next => exact List.append_nil _
  | cons r rs ih =>
    rw [groupsFrom]
    split
    · rw [List.flatten_cons, ih, List.nil_append, List.append_assoc, List.singleton_append]
    · rw [ih, List.append_assoc, List.singleton_append]

/-- The chunks of a window that begins with these records. -/
theorem puts_new (total : lib.zstd.Total) {opts : DrainOptions} (hdry : opts.dryRun = false)
    (w : Window) (naming : ObjectNaming) (receipt : EncodedChunk → PutReceipt)
    (rs : List LogRecord) :
    List.Forall₂ (EncodedAs lib.toCodecLib opts.chunk)
      ((WindowWriter.new opts w naming).puts lib.toCodecLib opts receipt rs)
      (groupsFrom lib.toCodecLib opts.chunkTargetBytes [] rs) :=
  puts_groups total hdry receipt rs rfl

/-- The records of the chunks put are the records pushed. -/
theorem puts_records {opts : DrainOptions} (total : lib.zstd.Total)
    (hdry : opts.dryRun = false) (w : Window) (naming : ObjectNaming)
    (receipt : EncodedChunk → PutReceipt) (rs : List LogRecord) :
    ((WindowWriter.new opts w naming).puts lib.toCodecLib opts receipt rs).flatMap
      (fun chunk => objectRecords lib.toCodecLib chunk.body) = rs := by
  have hrecords : ∀ {chunks : List EncodedChunk} {groups : List (List LogRecord)},
      List.Forall₂ (EncodedAs lib.toCodecLib opts.chunk) chunks groups →
      chunks.flatMap (fun chunk => objectRecords lib.toCodecLib chunk.body) = groups.flatten := by
    intro chunks groups h
    induction h with
    | nil => rfl
    | cons hchunk _ ih =>
      rw [List.flatMap_cons, ih, hchunk.describes.objectRecords, List.flatten_cons]
  rw [hrecords (puts_new total hdry w naming receipt rs), groupsFrom_flatten, List.nil_append]

/-- The events of a window are written to objects that the reader takes without sidecars, each
in full, exactly where the run is dry or the lines never add up to more than the cap before
the writer begins anew. -/
theorem objects_read_whole (total : lib.zstd.Total) (opts : DrainOptions) {w : Window}
    (hgrid : GridWindow opts.windowMs w) (naming : ObjectNaming)
    (receipt : EncodedChunk → PutReceipt) {events : List CwEvent}
    (hevents : ∀ ev ∈ events, w.contains ev = true) :
    (∀ chunk ∈ (WindowWriter.new opts w naming).puts lib.toCodecLib opts receipt
        (events.map CwEvent.toRecord),
      streamFullObject lib unboundedRange none chunk.body =
        .ok (objectRecords lib.toCodecLib chunk.body)) ↔
      opts.dryRun = true ∨ LinesFit fallbackDecodeCapBytes opts.chunkTargetBytes 0
        (events.map fun ev => lineLength lib.toCodecLib ev.toRecord) := by
  cases hdry : opts.dryRun with
  | true =>
    rw [puts_dry hdry]
    exact iff_of_true (fun chunk hchunk => absurd hchunk List.not_mem_nil) (.inl rfl)
  | false =>
    have htimes : ∀ r ∈ events.map CwEvent.toRecord,
        i64Min ≤ r.timestamp ∧ r.timestamp < i64Max := by
      intro r hr
      obtain ⟨ev, hev, rfl⟩ := List.mem_map.mp hr
      have hin := hevents ev hev
      rw [Window.contains, Bool.and_eq_true, decide_eq_true_iff, decide_eq_true_iff] at hin
      have hend := hgrid.end_le
      have hstart := hgrid.2.1
      show i64Min ≤ ev.timestamp ∧ ev.timestamp < i64Max
      unfold i64Min
      omega
    have hputs := puts_new total hdry w naming receipt (events.map CwEvent.toRecord)
    have hempty : (lib.records.text []).length ≤ fallbackDecodeCapBytes := Nat.zero_le _
    have hfit : (∀ g ∈ groupsFrom lib.toCodecLib opts.chunkTargetBytes []
        (events.map CwEvent.toRecord), (lib.records.text g).length ≤ fallbackDecodeCapBytes) ↔ _ :=
      groupsFrom_fit (events.map CwEvent.toRecord) hempty
    rw [List.map_map] at hfit
    rw [or_iff_right Bool.false_ne_true]
    refine (whole_reads_iff hputs ?_).trans hfit
    rwa [groupsFrom_flatten, List.nil_append]

end Reading

namespace Concrete

/-- A target of 60 octets. -/
def narrowOptions : DrainOptions := { jobOptions 1 with chunkTargetBytes := 60 }

def rotatedEvents : List CwEvent :=
  [⟨5, "a", "s", none, none⟩, ⟨6, "b", "s", none, none⟩, ⟨7, "c", "s", none, none⟩]

/-- A target of 4 GiB. -/
def wideOptions : DrainOptions := { jobOptions 1 with chunkTargetBytes := 2 ^ 32 }

/-- A receipt for any chunk. -/
def answered (chunk : EncodedChunk) : PutReceipt :=
  receiptFor jobEnv.store ⟨"123456789012", "/g", "1970-01-01", "0-000000"⟩ chunk none

end Concrete

/-- Three events under a target of 60 octets: an object of two, and one of the last. -/
theorem objects_read_whole_rotated :
    ((WindowWriter.new Concrete.narrowOptions ⟨0, dayMs⟩ .base).puts Concrete.reader.toCodecLib
      Concrete.narrowOptions Concrete.answered
      (Concrete.rotatedEvents.map CwEvent.toRecord)).length = 2 ∧
    ∀ chunk ∈ (WindowWriter.new Concrete.narrowOptions ⟨0, dayMs⟩ .base).puts
        Concrete.reader.toCodecLib Concrete.narrowOptions Concrete.answered
        (Concrete.rotatedEvents.map CwEvent.toRecord),
      streamFullObject Concrete.reader unboundedRange none chunk.body =
        .ok (objectRecords Concrete.reader.toCodecLib chunk.body) := by
  constructor
  · exact (puts_new Concrete.zstd_total rfl _ _ _ _).length_eq.trans (by decide +kernel)
  · exact (objects_read_whole Concrete.zstd_total Concrete.narrowOptions
      ⟨by decide, by decide, by decide, rfl⟩ .base _ (by decide)).mpr
        (.inr ⟨by decide +kernel, by decide +kernel, by decide +kernel, trivial⟩)

/-- 2^26 events of a window, each a line of 43 octets, under a target of 4 GiB: one object,
which the reader refuses. -/
theorem wide_target_refused :
    (∀ ev ∈ List.replicate (2 ^ 26) (⟨0, "a", "s", none, none⟩ : CwEvent),
      Window.contains ⟨0, dayMs⟩ ev = true) ∧
    ∃ chunk ∈ (WindowWriter.new Concrete.wideOptions ⟨0, dayMs⟩ .base).puts
        Concrete.reader.toCodecLib Concrete.wideOptions Concrete.answered
        ((List.replicate (2 ^ 26) (⟨0, "a", "s", none, none⟩ : CwEvent)).map CwEvent.toRecord),
      streamFullObject Concrete.reader unboundedRange none chunk.body =
        .error (.cap fallbackDecodeCapBytes) := by
  have hline : (Concrete.reader.records.toVec ⟨0, "s", "a", none, none⟩).length = 42 := by
    decide +kernel
  have hlength : (Concrete.reader.records.text
      (List.replicate (2 ^ 26) ⟨0, "s", "a", none, none⟩)).length = 2 ^ 26 * 43 := by
    rw [text_replicate_length, hline]
  have hsome : List.replicate (2 ^ 26) (⟨0, "s", "a", none, none⟩ : LogRecord) ≠ [] := by
    intro hnil
    have hzero := congrArg List.length hnil
    rw [List.length_replicate] at hzero
    exact absurd hzero (by decide)
  have hgroup : groupsFrom Concrete.reader.toCodecLib Concrete.wideOptions.chunkTargetBytes []
      (List.replicate (2 ^ 26) ⟨0, "s", "a", none, none⟩) =
        [List.replicate (2 ^ 26) ⟨0, "s", "a", none, none⟩] := by
    refine groupsFrom_below hsome ?_
    rw [List.nil_append, hlength]
    decide
  constructor
  · intro ev hev
    rw [List.eq_of_mem_replicate hev]
    decide
  · have hputs : List.Forall₂ (EncodedAs Concrete.reader.toCodecLib Concrete.wideOptions.chunk)
        ((WindowWriter.new Concrete.wideOptions ⟨0, dayMs⟩ .base).puts Concrete.reader.toCodecLib
          Concrete.wideOptions Concrete.answered
          (List.replicate (2 ^ 26) ⟨0, "s", "a", none, none⟩))
        (groupsFrom Concrete.reader.toCodecLib Concrete.wideOptions.chunkTargetBytes []
          (List.replicate (2 ^ 26) ⟨0, "s", "a", none, none⟩)) :=
      puts_new Concrete.zstd_total rfl _ _ _ _
    rw [hgroup] at hputs
    rw [List.map_replicate]
    obtain ⟨chunk, chunks, hchunk, -, heq⟩ := List.forall₂_cons_right_iff.mp hputs
    refine ⟨chunk, heq ▸ List.mem_cons_self, ?_⟩
    refine streamFullObject_over hchunk.describes.decode ?_
    rw [hlength]
    decide

end S4Logs

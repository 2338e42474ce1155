import S4Logs.Gateway.Buffer
import S4Logs.Lib.Fallible
import S4Logs.Laws.Core.Chunk

/-!
# What the map holds

`bufEvents` reads the events of a buffer off its writer, and the total over the map is
what is buffered. Every operation of the map either moves buffers, which changes no
total, or changes one buffer, by what one writer took. The lemmas here say how much.

A buffer is sound when its writer holds some records. No operation makes an unsound
one, and for a sound one the octets of the writer are the text of its events.
-/

namespace S4Logs

/-- The events of a buffer. -/
def bufEvents (lib : CodecLib) (e : BufKey × Buf) : Multiset LogEvent :=
  ((e.2.writer.records lib).map (LogEvent.mk e.1.1) : List LogEvent)

/-- The events a reader of a data object gets. -/
def chunkEvents (lib : CodecLib) (c : ChunkLocation × EncodedChunk) : Multiset LogEvent :=
  ((objectRecords lib c.2.body).map (LogEvent.mk c.1.logGroup) : List LogEvent)

/-- The events of buffers together. -/
def held (lib : CodecLib) (bufs : List (BufKey × Buf)) : Multiset LogEvent :=
  Assoc.total (bufEvents lib) bufs

def Buf.Sound (lib : CodecLib) (buf : Buf) : Prop := ∃ rs, buf.writer.Holds lib rs

/-- Every buffer of the list is sound. -/
def AllSound (lib : CodecLib) (bufs : List (BufKey × Buf)) : Prop := ∀ e ∈ bufs, e.2.Sound lib

variable {lib : CodecLib} {m : BufferManager} {bufs bufs' : Buffers} {key : BufKey} {buf buf' : Buf}

theorem bufEvents_holds {rs : List LogRecord} (h : buf.writer.Holds lib rs) :
    bufEvents lib (key, buf) = (rs.map (LogEvent.mk key.1) : List LogEvent) := by
  rw [bufEvents, h.records]

theorem chunkEvents_describes {loc : ChunkLocation} {chunk : EncodedChunk} {rs : List LogRecord}
    (h : Describes lib chunk rs) :
    chunkEvents lib (loc, chunk) = (rs.map (LogEvent.mk loc.logGroup) : List LogEvent) := by
  rw [chunkEvents, h.objectRecords]

theorem held_nil : held lib [] = 0 := rfl

theorem held_cons (e : BufKey × Buf) : held lib (e :: bufs) = bufEvents lib e + held lib bufs := rfl

theorem held_append : held lib (bufs ++ bufs') = held lib bufs + held lib bufs' :=
  Assoc.total_append bufs bufs'

theorem held_perm (h : bufs.Perm bufs') : held lib bufs = held lib bufs' := Assoc.total_perm h

theorem AllSound.perm (h : AllSound lib bufs) (hperm : bufs.Perm bufs') : AllSound lib bufs' :=
  fun e he => h e (hperm.mem_iff.mpr he)

theorem AllSound.append (h : AllSound lib bufs) (h' : AllSound lib bufs') :
    AllSound lib (bufs ++ bufs') := by
  intro e he
  rcases List.mem_append.mp he with he | he
  · exact h e he
  · exact h' e he

theorem AllSound.insert (h : AllSound lib bufs) (hbuf : buf.Sound lib) :
    AllSound lib (Assoc.insert key buf bufs) := by
  intro e he
  rcases Assoc.mem_insert he with rfl | he
  · exact hbuf
  · exact h e he

/-! ## Moving buffers -/

theorem takeLargest_perm {e : BufKey × Buf} {rest : Buffers}
    (h : takeLargest bufs = some (e, rest)) : bufs.Perm (e :: rest) := by
  obtain ⟨key, -, h⟩ := Option.bind_eq_some_iff.mp h
  obtain ⟨r, hr, heq⟩ := Option.map_eq_some_iff.mp h
  cases heq
  exact Assoc.remove_perm hr

theorem takeOver_perm (cap : Nat) : ∀ (turns : Nat) (bufs : Buffers),
    ((takeOver cap turns bufs).1 ++ (takeOver cap turns bufs).2).Perm bufs
  | 0, _ => .refl _
  | turns + 1, bufs => by
    unfold takeOver
    split
    next => exact .refl _
    next =>
      cases h : takeLargest bufs with
      | none => exact .refl _
      | some r =>
        obtain ⟨e, rest⟩ := r
        exact ((takeOver_perm cap turns rest).cons e).trans (takeLargest_perm h).symm

/-- The best of the buffers seen is one of them. -/
theorem foldl_larger (bs : Buffers) : ∀ b : BufKey × Buf,
    ∃ e ∈ b :: bs, bs.foldl larger (some b) = some e := by
  induction bs with
  | nil => exact fun b => ⟨b, List.mem_cons_self, rfl⟩
  | cons e bs ih =>
    intro b
    rw [List.foldl_cons]
    have hone : larger (some b) e = some e ∨ larger (some b) e = some b := ite_eq_or_eq _ _ _
    rcases hone with h | h
    · rw [h]
      obtain ⟨e', he', heq⟩ := ih e
      exact ⟨e', List.mem_cons_of_mem _ he', heq⟩
    · rw [h]
      obtain ⟨e', he', heq⟩ := ih b
      rcases List.mem_cons.mp he' with rfl | he'
      · exact ⟨e', List.mem_cons_self, heq⟩
      · exact ⟨e', List.mem_cons_of_mem _ (List.mem_cons_of_mem _ he'), heq⟩

/-- A map that has a buffer has a largest one. -/
theorem takeLargest_none (h : takeLargest bufs = none) : bufs = [] := by
  cases bufs with
  | nil => rfl
  | cons b bs =>
    obtain ⟨e, he, heq⟩ := foldl_larger bs b
    have hkey : largestKey (b :: bs) = some e.1 := congrArg (Option.map Prod.fst) heq
    rw [takeLargest, hkey, Option.bind_some, Option.map_eq_none_iff, Assoc.remove_eq_none] at h
    exact absurd (List.mem_map_of_mem he) h

/-- Turns enough for every buffer bring the map under the cap. -/
theorem takeOver_total (cap : Nat) : ∀ (turns : Nat) (bufs : Buffers), bufs.length ≤ turns →
    bufferedTotal (takeOver cap turns bufs).2 ≤ cap
  | 0, bufs, h => by
    have hnil : bufs = [] := List.length_eq_zero_iff.mp (Nat.le_zero.mp h)
    subst hnil
    exact Nat.zero_le cap
  | turns + 1, bufs, h => by
    unfold takeOver
    split
    next hle => exact hle
    next hover =>
      cases hlargest : takeLargest bufs with
      | none =>
        rw [takeLargest_none hlargest] at hover
        exact absurd (Nat.zero_le cap) hover
      | some r =>
        obtain ⟨e, rest⟩ := r
        have hlen := (takeLargest_perm hlargest).length_eq
        rw [List.length_cons] at hlen
        exact takeOver_total cap turns rest (by omega)

theorem inOrder_perm (keys : List BufKey) (bufs : Buffers) : (inOrder keys bufs).Perm bufs := by
  unfold inOrder
  dsimp only
  split
  next h => exact List.isPerm_iff.mp h
  next => exact .refl _

/-! ## Pushing -/

theorem Buf.sound_new (cfg : ChunkConfig) (tsMs : Int) (nowMs : Nat) (wal : Option WalSegment) :
    Buf.Sound lib ⟨ChunkWriter.new cfg, tsMs, nowMs, wal⟩ :=
  ⟨[], ChunkWriter.holds_new cfg⟩

theorem bufEvents_new (cfg : ChunkConfig) (tsMs : Int) (nowMs : Nat) (wal : Option WalSegment) :
    bufEvents lib (key, ⟨ChunkWriter.new cfg, tsMs, nowMs, wal⟩) = 0 := by
  have hnew : (⟨ChunkWriter.new cfg, tsMs, nowMs, wal⟩ : Buf).writer.Holds lib [] :=
    ChunkWriter.holds_new cfg
  rw [bufEvents_holds hnew]
  rfl

/-- A writer that takes a record holds one event more. -/
theorem Buf.push_spec (key : BufKey) (h : buf.Sound lib) (rec : LogRecord) (writer : ChunkWriter)
    (hwriter : writer = (buf.writer.push lib rec).1) :
    Buf.Sound lib { buf with writer := writer } ∧
      bufEvents lib (key, { buf with writer := writer }) =
        bufEvents lib (key, buf) + {⟨key.1, rec⟩} := by
  obtain ⟨rs, hrs⟩ := h
  have hpush : Buf.Sound lib { buf with writer := writer } ∧
      bufEvents lib (key, { buf with writer := writer }) =
        ((rs ++ [rec]).map (LogEvent.mk key.1) : List LogEvent) := by
    subst hwriter
    exact ⟨⟨_, hrs.push rec⟩, bufEvents_holds (hrs.push rec)⟩
  refine ⟨hpush.1, ?_⟩
  rw [hpush.2, bufEvents_holds hrs, List.map_append, ← Multiset.coe_add]
  rfl

theorem Locked.io_nil (l : Locked) : l.io [] = l := by
  simp only [Locked.io, Disk.applyAll, List.foldl_nil, List.append_nil]

/-- Opening a buffer adds no event. -/
theorem openBuf_spec {l l' : Locked} {tsMs : Int} {io : EventIo} (h : AllSound m.lib l.buffers)
    (hopen : m.openBuf l key tsMs io = some (l', buf)) :
    AllSound m.lib l'.buffers ∧ Assoc.get? key l'.buffers = some buf ∧
      held m.lib l'.buffers = held m.lib l.buffers := by
  unfold BufferManager.openBuf at hopen
  cases hget : Assoc.get? key l.buffers with
  | some b =>
    rw [hget] at hopen
    cases hopen
    exact ⟨h, hget, rfl⟩
  | none =>
    simp only [hget] at hopen
    split at hopen
    next =>
      obtain ⟨⟨seg, ops⟩, -, heq⟩ := Option.map_eq_some_iff.mp hopen
      cases heq
      refine ⟨h.insert (Buf.sound_new _ _ _ _), Assoc.get?_insert _ _ _, ?_⟩
      exact (Assoc.total_insert_new hget).trans (by rw [bufEvents_new, add_zero]; rfl)
    next =>
      cases hopen
      refine ⟨h.insert (Buf.sound_new _ _ _ _), Assoc.get?_insert _ _ _, ?_⟩
      exact (Assoc.total_insert_new hget).trans (by rw [bufEvents_new, add_zero]; rfl)

/-- A buffer that gains events in its place adds them to the map. -/
theorem held_insert (buf' : Buf) {evs : Multiset LogEvent} (hget : Assoc.get? key bufs = some buf)
    (h : bufEvents lib (key, buf') = bufEvents lib (key, buf) + evs) :
    held lib (Assoc.insert key buf' bufs) = held lib bufs + evs := by
  have htotal := Assoc.total_insert (f := bufEvents lib) buf' hget
  rw [h, ← add_assoc, add_right_comm] at htotal
  exact add_right_cancel htotal

/-- A line changes the segment of the buffer only. -/
theorem appendLine_writer {logGroup : String} {rec : LogRecord} {torn : Option Nat}
    {ops : List DiskOp} {ok : Bool} (h : m.appendLine buf logGroup rec torn = (buf', ops, ok)) :
    buf'.writer = buf.writer := by
  unfold BufferManager.appendLine at h
  split at h
  next =>
    cases h
    rfl
  next =>
    cases h
    rfl

/-- What one push does: the map holds what it held, and the event where a writer took it.
A push without an error took it. -/
theorem pushOne_spec {l l' : Locked} {logGroup : String} {rec : LogRecord} {io : EventIo}
    {pushed : Bool} {err : Option BufferError} (h : AllSound m.lib l.buffers)
    (hpush : m.pushOne l logGroup rec io = (l', pushed, err)) :
    AllSound m.lib l'.buffers ∧ (err = none → pushed = true) ∧
      held m.lib l'.buffers =
        held m.lib l.buffers + ((if pushed then [⟨logGroup, rec⟩] else []) : List LogEvent) := by
  unfold BufferManager.pushOne at hpush
  dsimp only at hpush
  cases hopen : m.openBuf l (logGroup, dateFromTsMs rec.timestamp) rec.timestamp io with
  | none =>
    rw [hopen] at hpush
    cases hpush
    exact ⟨h, nofun, (add_zero _).symm⟩
  | some r =>
    obtain ⟨l₁, buf⟩ := r
    obtain ⟨hsound, hget, hheld⟩ := openBuf_spec h hopen
    rw [← hheld]
    cases hline : m.appendLine buf logGroup rec io.torn with
    | mk buf₁ r =>
      obtain ⟨ops, ok⟩ := r
      have hwriter := appendLine_writer hline
      have hevents : bufEvents m.lib ((logGroup, dateFromTsMs rec.timestamp), buf₁) =
          bufEvents m.lib ((logGroup, dateFromTsMs rec.timestamp), buf) := by
        simp only [bufEvents, hwriter]
      have hbuf : buf₁.Sound m.lib := by
        obtain ⟨rs, hrs⟩ := hsound _ (Assoc.mem_of_get? hget)
        exact ⟨rs, hwriter ▸ hrs⟩
      simp only [hopen, hline] at hpush
      cases ok with
      | false =>
        cases hpush
        exact ⟨hsound.insert hbuf, nofun,
          held_insert _ hget (by rw [hevents]; exact (add_zero _).symm)⟩
      | true =>
        obtain ⟨hsound', hevents'⟩ := Buf.push_spec
          (logGroup, dateFromTsMs rec.timestamp) hbuf rec _ rfl
        rw [hevents] at hevents'
        cases hwrite : buf₁.writer.push m.lib rec with
        | mk writer result =>
          simp only [hwrite] at hpush hsound' hevents'
          cases result with
          | ok u =>
            cases hpush
            exact ⟨hsound.insert hsound', fun _ => rfl, held_insert _ hget hevents'⟩
          | error e =>
            cases hpush
            exact ⟨hsound.insert hsound', nofun, held_insert _ hget hevents'⟩

/-- What a batch of pushes does. Without an error every event was taken. -/
theorem pushAll_spec {items : List (LogEvent × EventIo)} : ∀ {l l' : Locked}
    {pushed : List LogEvent} {err : Option BufferError}, AllSound m.lib l.buffers →
    m.pushAll l items = (l', pushed, err) →
    AllSound m.lib l'.buffers ∧ (err = none → pushed = items.map Prod.fst) ∧
      held m.lib l'.buffers = held m.lib l.buffers + (pushed : Multiset LogEvent) := by
  induction items with
  | nil =>
    intro l l' pushed err h hpush
    cases hpush
    exact ⟨h, fun _ => rfl, (add_zero _).symm⟩
  | cons item items ih =>
    intro l l' pushed err h hpush
    obtain ⟨ev, io⟩ := item
    cases hone : m.pushOne l ev.logGroup ev.record io with
    | mk l₁ r =>
      obtain ⟨took, e⟩ := r
      obtain ⟨hsound, htook, hheld⟩ := pushOne_spec h hone
      simp only [BufferManager.pushAll, hone] at hpush
      cases e with
      | some e =>
        cases hpush
        exact ⟨hsound, nofun, hheld⟩
      | none =>
        obtain ⟨hsound', hall, hheld'⟩ := ih hsound rfl
        cases hpush
        refine ⟨hsound', fun herr => by rw [hall herr, List.map_cons], ?_⟩
        rw [hheld', hheld, htook rfl, if_pos rfl, add_assoc, Multiset.coe_add]
        rfl

/-! ## Syncing -/

/-- A sync changes segments only. -/
theorem syncWal_spec (fails : Option String) : ∀ (bufs : Buffers),
    (syncWal fails bufs).1.map (fun e => (e.1, e.2.writer)) = bufs.map fun e => (e.1, e.2.writer)
  | [] => rfl
  | (key, buf) :: rest => by
    unfold syncWal
    have ih := syncWal_spec fails rest
    cases buf.wal with
    | none => simp only [List.map_cons, ih]
    | some seg =>
      dsimp only
      split
      next => simp only [List.map_cons, ih]
      next => rfl

/-- Only the writers matter to what is held. -/
theorem held_congr (lib : CodecLib) (h : bufs.map (fun e => (e.1, e.2.writer)) =
    bufs'.map fun e => (e.1, e.2.writer)) :
    (AllSound lib bufs → AllSound lib bufs') ∧ held lib bufs = held lib bufs' := by
  have hevents : ∀ bs : Buffers, held lib bs =
      ((bs.map fun e => (e.1, e.2.writer)).map fun p =>
        ((p.2.records lib).map (LogEvent.mk p.1.1) : Multiset LogEvent)).sum := by
    intro bs
    rw [List.map_map]
    rfl
  refine ⟨fun hsound e he => ?_, by rw [hevents, hevents, h]⟩
  have hmem : (e.1, e.2.writer) ∈ bufs.map fun e => (e.1, e.2.writer) := by
    rw [h]
    exact List.mem_map_of_mem he
  obtain ⟨e', he', heq⟩ := List.mem_map.mp hmem
  obtain ⟨rs, hrs⟩ := hsound e' he'
  exact ⟨rs, (Prod.mk.inj heq).2 ▸ hrs⟩

theorem sync_spec {l l' : Locked} {order : List BufKey} {fails : Option String} {ok : Bool}
    (h : AllSound lib l.buffers) (hsync : l.sync order fails = (l', ok)) :
    AllSound lib l'.buffers ∧ held lib l'.buffers = held lib l.buffers := by
  cases hsync
  have hwriters := syncWal_spec fails (inOrder order l.buffers)
  obtain ⟨hsound, hheld⟩ := held_congr lib hwriters.symm
  exact ⟨hsound (h.perm (inOrder_perm _ _).symm),
    hheld.symm.trans (held_perm (inOrder_perm _ _))⟩

/-! ## Putting a buffer back -/

/-- The buffer comes back whole: its key is free, or it is not logged and its chunk can
be decoded. -/
def ComesBack (bufs : Buffers) (key : BufKey) (buf : Buf) (chunk : Option EncodedChunk) : Prop :=
  key ∉ Assoc.keys bufs ∨
    buf.wal = none ∧ chunk.isSome = true ∧ buf.writer.uncompressedLen ≤ maxDecompressedBytes

/-- The writer and the chunk of a failed flush hold the same. -/
def Encoded (lib : CodecLib) (buf : Buf) (chunk : Option EncodedChunk) : Prop :=
  ∃ rs, buf.writer.Holds lib rs ∧ ∀ c ∈ chunk, Describes lib c rs

theorem Encoded.sound {chunk : Option EncodedChunk} (h : Encoded lib buf chunk) :
    buf.Sound lib :=
  h.imp fun _ h => h.1

theorem pushRecords_holds {w : ChunkWriter} (recs : List LogRecord) : ∀ {rs : List LogRecord},
    w.Holds m.lib rs → (m.pushRecords w recs).Holds m.lib (rs ++ recs) := by
  induction recs generalizing w with
  | nil =>
    intro rs h
    rwa [List.append_nil]
  | cons rec recs ih =>
    intro rs h
    have := ih (h.push rec)
    rwa [List.append_assoc, List.singleton_append] at this

/-- A buffer that is put back comes back whole, or the map is left no more. -/
theorem reinsert_spec (key : BufKey) {chunk : Option EncodedChunk} (h : AllSound m.lib bufs)
    (hbuf : Encoded m.lib buf chunk) :
    AllSound m.lib (m.reinsert bufs key buf chunk) ∧
      held m.lib (m.reinsert bufs key buf chunk) ≤
        held m.lib bufs + bufEvents m.lib (key, buf) ∧
      (ComesBack bufs key buf chunk → held m.lib (m.reinsert bufs key buf chunk) =
        held m.lib bufs + bufEvents m.lib (key, buf)) := by
  unfold BufferManager.reinsert
  cases hget : Assoc.get? key bufs with
  | none =>
    have heq : held m.lib (Assoc.insert key buf bufs) =
        held m.lib bufs + bufEvents m.lib (key, buf) := Assoc.total_insert_new hget
    exact ⟨h.insert hbuf.sound, heq.le, fun _ => heq⟩
  | some dst =>
    have hkey : key ∈ Assoc.keys bufs := List.mem_map_of_mem (Assoc.mem_of_get? hget)
    have hdst : dst.Sound m.lib := h _ (Assoc.mem_of_get? hget)
    obtain ⟨rs, hrs, hchunk⟩ := hbuf
    dsimp only
    by_cases hwal : buf.wal.isSome
    · rw [if_pos hwal]
      refine ⟨h, Multiset.le_add_right _ _, fun hback => ?_⟩
      rcases hback with hfree | ⟨hnone, -, -⟩
      · exact absurd hkey hfree
      · rw [hnone] at hwal
        cases hwal
    · rw [if_neg hwal]
      split
      next plain hplain =>
        -- what the chunk decodes to is the text of the buffer
        obtain ⟨c, rfl, hdecode⟩ := Option.bind_eq_some_iff.mp hplain
        have hdescribes := hchunk c rfl
        have hrecs : (recordLines m.lib.records plain).filterMap id = rs := by
          have hplain := hdescribes.decompressed (Fallible.toOption_eq_some.mp hdecode)
          rw [recordLines_flatten, hplain, SerdeLine.intact_text]
        obtain ⟨rs', hrs'⟩ := hdst
        have hmerged := pushRecords_holds (m := m) rs hrs'
        have heq : held m.lib (Assoc.insert key _ bufs) =
            held m.lib bufs + bufEvents m.lib (key, buf) := held_insert { dst with
              openedAt := min dst.openedAt buf.openedAt
              firstEventTsMs := min dst.firstEventTsMs buf.firstEventTsMs
              writer := m.pushRecords dst.writer rs } hget (by
          rw [bufEvents_holds hmerged, bufEvents_holds hrs', bufEvents_holds hrs,
            List.map_append, Multiset.coe_add])
        rw [hrecs]
        exact ⟨h.insert ⟨_, hmerged⟩, heq.le, fun _ => heq⟩
      next hplain =>
        have heq : held m.lib (Assoc.insert key { dst with
            openedAt := min dst.openedAt buf.openedAt
            firstEventTsMs := min dst.firstEventTsMs buf.firstEventTsMs } bufs) =
            held m.lib bufs + 0 := held_insert _ hget (add_zero _).symm
        rw [add_zero] at heq
        refine ⟨h.insert hdst, heq.le.trans (Multiset.le_add_right _ _), fun hback => ?_⟩
        rcases hback with hfree | ⟨-, hsome, hlen⟩
        · exact absurd hkey hfree
        · obtain ⟨c, rfl⟩ := Option.isSome_iff_exists.mp hsome
          rw [hrs.uncompressedLen] at hlen
          rw [Option.bind_some, (hchunk c rfl).decompressFrames hlen] at hplain
          cases hplain

end S4Logs

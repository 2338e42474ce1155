import S4Logs.Laws.Gateway.Buffer

/-!
# What one push does to the map and the disk

`Opened` lists how the buffer of a push is found or made, and `PushMove` how the push
goes on from there, with everything its branches checked. The claims about the log read
their step off these.
-/

namespace S4Logs

variable {m : BufferManager}

/-- A buffer that was just made. -/
def BufferManager.freshBuf (m : BufferManager) (tsMs : Int) (io : EventIo)
    (wal : Option WalSegment) : Buf where
  writer := ChunkWriter.new m.cfg.chunk
  firstEventTsMs := tsMs
  openedAt := io.nowMs
  wal := wal

/-- What a creation does to the disk. -/
def createOps (name : String) (io : EventIo) : List DiskOp :=
  .create name :: if io.dirSynced then [.syncDir] else []

/-- The buffer is there, or is made without a log, or with a fresh segment. -/
inductive Opened (m : BufferManager) (l : Locked) (key : BufKey) (tsMs : Int) (io : EventIo) :
    Locked → Buf → Prop
  | found {buf : Buf} : Assoc.get? key l.buffers = some buf → Opened m l key tsMs io l buf
  | plain : Assoc.get? key l.buffers = none → m.cfg.walDir = none →
      Opened m l key tsMs io (l.set key (m.freshBuf tsMs io none)) (m.freshBuf tsMs io none)
  | logged {name : String} : Assoc.get? key l.buffers = none → m.cfg.walDir ≠ none →
      name = WalSegment.fileName key.1 key.2 io.uuid → io.opened = true →
      name ∉ Assoc.keys l.disk.files →
      Opened m l key tsMs io
        ((l.io (createOps name io)).set key (m.freshBuf tsMs io (some ⟨name, false⟩)))
        (m.freshBuf tsMs io (some ⟨name, false⟩))

/-- The buffer cannot be made: its segment cannot be created. -/
def Unopened (m : BufferManager) (l : Locked) (key : BufKey) (io : EventIo) : Prop :=
  Assoc.get? key l.buffers = none ∧ m.cfg.walDir ≠ none ∧
    (io.opened = false ∨ WalSegment.fileName key.1 key.2 io.uuid ∈ Assoc.keys l.disk.files)

theorem isSome_walDir : m.cfg.walDir.isSome = true ↔ m.cfg.walDir ≠ none :=
  Option.isSome_iff_ne_none

theorem openBuf_opened {l l' : Locked} {key : BufKey} {tsMs : Int} {io : EventIo} {buf : Buf}
    (h : m.openBuf l key tsMs io = some (l', buf)) : Opened m l key tsMs io l' buf := by
  unfold BufferManager.openBuf at h
  cases hget : Assoc.get? key l.buffers with
  | some b =>
    rw [hget] at h
    cases h
    exact .found hget
  | none =>
    simp only [hget] at h
    split at h
    next hdir =>
      obtain ⟨⟨seg, ops⟩, hcreate, heq⟩ := Option.map_eq_some_iff.mp h
      cases heq
      unfold WalSegment.create at hcreate
      dsimp only at hcreate
      split at hcreate
      next => cases hcreate
      next hfree =>
        cases hcreate
        rw [not_or, Bool.not_eq_false] at hfree
        exact .logged hget (isSome_walDir.mp hdir) rfl hfree.1 hfree.2
    next hdir =>
      cases h
      exact .plain hget (by rwa [isSome_walDir, not_not] at hdir)

theorem openBuf_none {l : Locked} {key : BufKey} {tsMs : Int} {io : EventIo} :
    m.openBuf l key tsMs io = none ↔ Unopened m l key io := by
  unfold Unopened
  cases hget : Assoc.get? key l.buffers with
  | some b =>
    simp only [BufferManager.openBuf, hget]
    exact ⟨(fun h => by cases h), fun h => by cases h.1⟩
  | none =>
    simp only [BufferManager.openBuf, hget]
    split
    next hdir =>
      rw [Option.map_eq_none_iff, WalSegment.create]
      split
      next h => exact ⟨fun _ => ⟨trivial, isSome_walDir.mp hdir, h⟩, fun _ => rfl⟩
      next h => exact ⟨(fun h => by cases h), fun hun => absurd hun.2.2 h⟩
    next hdir => exact ⟨(fun h => by cases h), fun hun => absurd (isSome_walDir.mpr hun.2.1) hdir⟩

/-- The key of an event. -/
def LogEvent.key (ev : LogEvent) : BufKey := (ev.logGroup, dateFromTsMs ev.record.timestamp)

/-- The line of an event. -/
def LogEvent.line (S : SerdeLine WalEntry) (ev : LogEvent) : Bytes :=
  WalSegment.line S (ev.record.toWalEntry ev.logGroup)

/-- How a push goes. A writer takes the record exactly where its line was appended, or where
there is no log. -/
inductive PushMove (m : BufferManager) (l : Locked) (ev : LogEvent) (io : EventIo) :
    Locked → Bool → Option BufferError → Prop
  | unopened : Unopened m l ev.key io → PushMove m l ev io l false (some .wal)
  | torn {l' : Locked} {buf : Buf} {seg : WalSegment} {n : Nat} :
      Opened m l ev.key ev.record.timestamp io l' buf → buf.wal = some seg → io.torn = some n →
      PushMove m l ev io ((l'.io [.append seg.name ((ev.line m.entries).take n)]).set ev.key buf)
        false (some .wal)
  | unlogged {l' : Locked} {buf : Buf} {writer : ChunkWriter} {err : Option BufferError} :
      Opened m l ev.key ev.record.timestamp io l' buf → buf.wal = none →
      writer = (buf.writer.push m.lib ev.record).1 →
      (err = none ↔ (buf.writer.push m.lib ev.record).2 = .ok ()) →
      PushMove m l ev io (l'.set ev.key { buf with writer := writer }) true err
  | logged {l' : Locked} {buf : Buf} {seg : WalSegment} {writer : ChunkWriter}
      {err : Option BufferError} :
      Opened m l ev.key ev.record.timestamp io l' buf → buf.wal = some seg → io.torn = none →
      writer = (buf.writer.push m.lib ev.record).1 →
      (err = none ↔ (buf.writer.push m.lib ev.record).2 = .ok ()) →
      PushMove m l ev io ((l'.io [.append seg.name (ev.line m.entries)]).set ev.key { buf with
        writer := writer
        wal := some { seg with dirty := true } }) true err

theorem Opened.sound {l l' : Locked} {key : BufKey} {tsMs : Int} {io : EventIo} {buf : Buf}
    (h : Opened m l key tsMs io l' buf) (hsound : AllSound m.lib l.buffers) : buf.Sound m.lib := by
  cases h with
  | found hget => exact hsound _ (Assoc.mem_of_get? hget)
  | plain => exact Buf.sound_new _ _ _ _
  | logged => exact Buf.sound_new _ _ _ _

theorem Locked.set_set (l : Locked) (key : BufKey) (buf buf' : Buf) :
    (l.set key buf).set key buf' = l.set key buf' := by
  simp only [Locked.set, Assoc.insert_insert]

theorem Locked.io_set (l : Locked) (ops : List DiskOp) (key : BufKey) (buf : Buf) :
    (l.set key buf).io ops = (l.io ops).set key buf := rfl

theorem pushOne_move {l l' : Locked} {ev : LogEvent} {io : EventIo} {pushed : Bool}
    {err : Option BufferError} (h : m.pushOne l ev.logGroup ev.record io = (l', pushed, err)) :
    PushMove m l ev io l' pushed err := by
  unfold BufferManager.pushOne at h
  dsimp only at h
  cases hopen : m.openBuf l (ev.logGroup, dateFromTsMs ev.record.timestamp)
      ev.record.timestamp io with
  | none =>
    rw [hopen] at h
    cases h
    exact .unopened (openBuf_none.mp hopen)
  | some r =>
    obtain ⟨l₁, buf⟩ := r
    have hopened : Opened m l ev.key ev.record.timestamp io l₁ buf := openBuf_opened hopen
    rw [hopen] at h
    dsimp only at h
    unfold BufferManager.appendLine at h
    cases hwal : buf.wal with
    | none =>
      rw [hwal] at h
      dsimp only at h
      cases hwrite : buf.writer.push m.lib ev.record with
      | mk writer result =>
        rw [hwrite] at h
        cases result with
        | ok u =>
          cases h
          rw [Locked.io_nil]
          exact .unlogged hopened hwal (by rw [hwrite]) (by rw [hwrite]; exact ⟨fun _ => rfl, fun _ => rfl⟩)
        | error e =>
          cases h
          rw [Locked.io_nil]
          exact .unlogged hopened hwal (by rw [hwrite]) (by rw [hwrite]; exact ⟨nofun, nofun⟩)
    | some seg =>
      rw [hwal] at h
      cases htorn : io.torn with
      | some n =>
        simp only [WalSegment.append, htorn] at h
        cases h
        have heq : { buf with wal := some seg } = buf := by rw [← hwal]
        rw [heq]
        exact .torn hopened hwal htorn
      | none =>
        simp only [WalSegment.append, htorn] at h
        cases hwrite : buf.writer.push m.lib ev.record with
        | mk writer result =>
          rw [hwrite] at h
          cases result with
          | ok u =>
            cases h
            exact .logged hopened hwal htorn (by rw [hwrite])
              (by rw [hwrite]; exact ⟨fun _ => rfl, fun _ => rfl⟩)
          | error e =>
            cases h
            exact .logged hopened hwal htorn (by rw [hwrite])
              (by rw [hwrite]; exact ⟨nofun, nofun⟩)

end S4Logs

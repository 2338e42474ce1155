import S4Logs.Laws.Gateway.Ledger

/-!
# What every buffer keeps

A property of buffers that a new buffer has, and that a push, a change of the segment
and a merge keep, holds of every buffer of every run, in the map and with the calls.
-/

namespace S4Logs

variable {m : BufferManager} {P : BufKey → Buf → Prop} {s t : Gateway}

/-- A property that no operation on buffers breaks. -/
structure BufRule (m : BufferManager) (P : BufKey → Buf → Prop) : Prop where
  fresh : ∀ key tsMs nowMs wal, (m.cfg.walDir = none → wal = none) →
    P key ⟨ChunkWriter.new m.cfg.chunk, tsMs, nowMs, wal⟩
  push : ∀ key buf rec, buf.Sound m.lib → key.2 = dateFromTsMs rec.timestamp → P key buf →
    P key { buf with writer := (buf.writer.push m.lib rec).1 }
  segment : ∀ key buf seg seg', buf.wal = some seg → P key buf →
    P key { buf with wal := some seg' }
  merge : ∀ key dst buf recs openedAt tsMs, dst.Sound m.lib → buf.writer.Holds m.lib recs →
    P key dst → P key buf → P key { dst with
      openedAt := openedAt
      firstEventTsMs := tsMs
      writer := m.pushRecords dst.writer recs }
  clock : ∀ key dst openedAt tsMs, P key dst → P key { dst with
    openedAt := openedAt
    firstEventTsMs := tsMs }

/-- Every buffer of the list has the property. -/
def AllBufs (P : BufKey → Buf → Prop) (bufs : List (BufKey × Buf)) : Prop :=
  ∀ e ∈ bufs, P e.1 e.2

variable {bufs bufs' : Buffers} {key : BufKey} {buf : Buf}

theorem AllBufs.nil : AllBufs P [] := fun _ he => absurd he List.not_mem_nil

theorem AllBufs.perm (h : AllBufs P bufs) (hperm : bufs.Perm bufs') : AllBufs P bufs' :=
  fun e he => h e (hperm.mem_iff.mpr he)

theorem AllBufs.insert (h : AllBufs P bufs) (hbuf : P key buf) :
    AllBufs P (Assoc.insert key buf bufs) := by
  intro e he
  rcases Assoc.mem_insert he with rfl | he
  · exact hbuf
  · exact h e he

theorem BufRule.openBuf (rule : BufRule m P) {l l' : Locked} {tsMs : Int} {io : EventIo}
    (h : AllBufs P l.buffers) (hopen : m.openBuf l key tsMs io = some (l', buf)) :
    AllBufs P l'.buffers := by
  unfold BufferManager.openBuf at hopen
  cases hget : Assoc.get? key l.buffers with
  | some b =>
    rw [hget] at hopen
    cases hopen
    exact h
  | none =>
    simp only [hget] at hopen
    split at hopen
    next hdir =>
      obtain ⟨⟨seg, ops⟩, -, heq⟩ := Option.map_eq_some_iff.mp hopen
      cases heq
      refine h.insert (rule.fresh _ _ _ _ fun hnone => ?_)
      rw [hnone] at hdir
      cases hdir
    next =>
      cases hopen
      exact h.insert (rule.fresh _ _ _ _ fun _ => rfl)

theorem BufRule.appendLine (rule : BufRule m P) {logGroup : String} {rec : LogRecord}
    {torn : Option Nat} {buf' : Buf} {ops : List DiskOp} {ok : Bool} (h : P key buf)
    (hline : m.appendLine buf logGroup rec torn = (buf', ops, ok)) : P key buf' := by
  unfold BufferManager.appendLine at hline
  split at hline
  next =>
    cases hline
    exact h
  next seg hseg =>
    cases hline
    exact rule.segment _ _ seg _ hseg h

theorem BufRule.pushOne (rule : BufRule m P) {l l' : Locked} {logGroup : String}
    {rec : LogRecord} {io : EventIo} {pushed : Bool} {err : Option BufferError}
    (hsound : AllSound m.lib l.buffers) (h : AllBufs P l.buffers)
    (hpush : m.pushOne l logGroup rec io = (l', pushed, err)) : AllBufs P l'.buffers := by
  unfold BufferManager.pushOne at hpush
  dsimp only at hpush
  cases hopen : m.openBuf l (logGroup, dateFromTsMs rec.timestamp) rec.timestamp io with
  | none =>
    rw [hopen] at hpush
    cases hpush
    exact h
  | some r =>
    obtain ⟨l₁, buf⟩ := r
    obtain ⟨hsound₁, hget, -⟩ := openBuf_spec hsound hopen
    have hall := rule.openBuf h hopen
    cases hline : m.appendLine buf logGroup rec io.torn with
    | mk buf₁ r =>
      obtain ⟨ops, ok⟩ := r
      have hbuf₁ := rule.appendLine (hall _ (Assoc.mem_of_get? hget)) hline
      have hsound₂ : buf₁.Sound m.lib := by
        obtain ⟨rs, hrs⟩ := hsound₁ _ (Assoc.mem_of_get? hget)
        exact ⟨rs, (appendLine_writer hline).symm ▸ hrs⟩
      have hpushed := rule.push _ buf₁ rec hsound₂ rfl hbuf₁
      simp only [hopen, hline] at hpush
      cases ok with
      | false =>
        cases hpush
        exact hall.insert hbuf₁
      | true =>
        cases hwrite : buf₁.writer.push m.lib rec with
        | mk writer result =>
          simp only [hwrite] at hpush hpushed
          cases result with
          | ok u =>
            cases hpush
            exact hall.insert hpushed
          | error e =>
            cases hpush
            exact hall.insert hpushed

theorem BufRule.pushAll (rule : BufRule m P) {items : List (LogEvent × EventIo)} :
    ∀ {l l' : Locked} {pushed : List LogEvent} {err : Option BufferError},
    AllSound m.lib l.buffers → AllBufs P l.buffers → m.pushAll l items = (l', pushed, err) →
    AllBufs P l'.buffers := by
  induction items with
  | nil =>
    intro l l' pushed err _ h hpush
    cases hpush
    exact h
  | cons item items ih =>
    intro l l' pushed err hsound h hpush
    obtain ⟨ev, io⟩ := item
    cases hone : m.pushOne l ev.logGroup ev.record io with
    | mk l₁ r =>
      obtain ⟨took, e⟩ := r
      have hall := rule.pushOne hsound h hone
      simp only [BufferManager.pushAll, hone] at hpush
      cases e with
      | some e =>
        cases hpush
        exact hall
      | none =>
        cases hpush
        exact ih (pushOne_spec hsound hone).1 hall rfl

theorem BufRule.syncWal (rule : BufRule m P) (fails : Option String) : ∀ {bufs : Buffers},
    AllBufs P bufs → AllBufs P (syncWal fails bufs).1
  | [], h => h
  | (key, buf) :: rest, h => by
    have ih := rule.syncWal fails fun e he => h e (List.mem_cons_of_mem _ he)
    have hbuf := h _ List.mem_cons_self
    unfold S4Logs.syncWal
    intro e he
    cases hwal : buf.wal with
    | none =>
      simp only [hwal] at he
      rcases List.mem_cons.mp he with rfl | he
      · exact hbuf
      · exact ih e he
    | some seg =>
      simp only [hwal] at he
      split at he
      next =>
        rcases List.mem_cons.mp he with rfl | he
        · exact rule.segment _ _ seg _ hwal hbuf
        · exact ih e he
      next =>
        rcases List.mem_cons.mp he with rfl | he
        · exact rule.segment _ _ seg _ hwal hbuf
        · exact h e (List.mem_cons_of_mem _ he)

theorem BufRule.sync (rule : BufRule m P) {l l' : Locked} {order : List BufKey}
    {fails : Option String} {ok : Bool} (h : AllBufs P l.buffers)
    (hsync : l.sync order fails = (l', ok)) : AllBufs P l'.buffers := by
  cases hsync
  exact rule.syncWal fails (h.perm (inOrder_perm _ _).symm)

theorem BufRule.reinsert (rule : BufRule m P) {chunk : Option EncodedChunk}
    (hsound : AllSound m.lib bufs) (h : AllBufs P bufs) (hencoded : Encoded m.lib buf chunk)
    (hbuf : P key buf) : AllBufs P (m.reinsert bufs key buf chunk) := by
  unfold BufferManager.reinsert
  cases hget : Assoc.get? key bufs with
  | none => exact h.insert hbuf
  | some dst =>
    have hdst := h _ (Assoc.mem_of_get? hget)
    obtain ⟨rs, hrs, hchunk⟩ := hencoded
    dsimp only
    split
    next => exact h
    next =>
      split
      next plain hplain =>
        obtain ⟨c, rfl, hdecode⟩ := Option.bind_eq_some_iff.mp hplain
        rw [recordLines_flatten, (hchunk c rfl).decompressed (Fallible.toOption_eq_some.mp hdecode),
          SerdeLine.intact_text]
        exact h.insert (rule.merge _ _ buf _ _ _ (hsound _ (Assoc.mem_of_get? hget)) hrs hdst hbuf)
      next => exact h.insert (rule.clock _ _ _ _ hdst)

/-! ## Over a run -/

/-- Every buffer has the property, in the map and with the calls. -/
structure Gateway.Every (P : BufKey → Buf → Prop) (s : Gateway) : Prop where
  buffers : AllBufs P s.buffers
  calls : ∀ c ∈ s.calls, AllBufs P c.2.phase.bufs

theorem Gateway.Every.exited (s : Gateway) : s.exited.Every P :=
  ⟨AllBufs.nil, fun _ hc => absurd hc List.not_mem_nil⟩

theorem BufRule.move (rule : BufRule m P) {origin : Origin} {p : CallPhase} {a : CallAct}
    {e : CallEffect} (hs : AllSound m.lib s.buffers) (hp : p.Sound m) (h : AllBufs P s.buffers)
    (hbufs : AllBufs P p.bufs) (hmove : CallMove m s origin p a e) :
    AllBufs P e.buffers ∧ AllBufs P e.phase.bufs := by
  cases hmove with
  | @pass p p' a hpass =>
    refine ⟨h, ?_⟩
    show AllBufs P p'.bufs
    rw [hpass.bufs]
    exact hbufs
  | take due rest after hperm =>
    have hall := h.perm hperm.symm
    exact ⟨fun e he => hall e (List.mem_append_right _ he),
      fun e he => hall e (List.mem_append_left _ he)⟩
  | pushFails _ hpush => exact ⟨rule.pushAll hs h hpush, AllBufs.nil⟩
  | syncFails _ hpush hsync => exact ⟨rule.sync (rule.pushAll hs h hpush) hsync, AllBufs.nil⟩
  | accept old due rest _ hpush hsync hperm =>
    have hall := (rule.sync (rule.pushAll hs h hpush) hsync).perm hperm.symm
    exact ⟨fun e he => hall e (List.mem_append_right _ he),
      fun e he => hall e (List.mem_append_left _ he)⟩
  | retire => exact ⟨h, fun e he => hbufs e (List.mem_cons_of_mem _ he)⟩
  | putNext => exact ⟨h, hbufs⟩
  | putDone => exact ⟨h, fun e he => hbufs e (List.mem_cons_of_mem _ he)⟩
  | @reinsert key buf =>
    exact ⟨rule.reinsert hs h hp.1 (hbufs (key, buf) List.mem_cons_self),
      fun e he => hbufs e (List.mem_cons_of_mem _ he)⟩

/-- The step lemma of the rule. -/
theorem BufRule.step (rule : BufRule m P) {l : GatewayLabel} (hsound : s.Sound m)
    (h : s.Every P) (hstep : gatewayStep m s l = some t) : t.Every P := by
  have hrest : ∀ {id : Nat} {c : Call} {calls : List (Nat × Call)},
      Assoc.remove id s.calls = some (c, calls) → ∀ c ∈ calls, AllBufs P c.2.phase.bufs :=
    fun hremove c hc => h.calls c ((Assoc.remove_perm hremove).mem_iff.mpr
      (List.mem_cons_of_mem _ hc))
  cases gatewayStep_move hstep with
  | boot =>
    refine ⟨AllBufs.nil, fun c hc => ?_⟩
    rw [List.mem_singleton.mp hc]
    exact AllBufs.nil
  | call =>
    refine ⟨h.buffers, fun c hc => ?_⟩
    rcases List.mem_append.mp hc with hc | hc
    · exact h.calls c hc
    · rw [List.mem_singleton.mp hc]
      exact AllBufs.nil
  | act hget hmove =>
    have hmem := Assoc.mem_of_get? hget
    obtain ⟨hbuffers, hphase⟩ := rule.move hsound.buffers (hsound.calls _ hmem) h.buffers
      (h.calls _ hmem) hmove
    refine ⟨hbuffers, fun c hc => ?_⟩
    rcases Assoc.mem_insert hc with rfl | hc
    · exact hphase
    · exact h.calls c hc
  | served hremove => exact ⟨h.buffers, hrest hremove⟩
  | unserved => exact Gateway.Every.exited s
  | acked _ hremove => exact ⟨h.buffers, hrest hremove⟩
  | refused _ hremove => exact ⟨h.buffers, hrest hremove⟩
  | drop hremove => exact ⟨h.buffers, hrest hremove⟩
  | crash => exact ⟨AllBufs.nil, fun _ hc => absurd hc List.not_mem_nil⟩

end S4Logs

import Mathlib.Algebra.BigOperators.Group.Multiset.Basic
import S4Logs.Gateway.Concrete
import S4Logs.Laws.Gateway.Dated

/-!
# The memory cap

A batch that is accepted takes buffers out of the map until the rest is within the cap. A
section that stops early does not, a replay does not, and neither does a flush that puts
its buffer back. Each is within the cap just where what it adds fits, and everything else
only makes room.
-/

namespace S4Logs

variable {m : BufferManager} {s t : Gateway} {bufs : Buffers} {key : BufKey} {buf : Buf}

/-! ## Bytes -/

/-- The bytes of an event in a buffer are those of its line. -/
def eventBytes (lib : CodecLib) (ev : LogEvent) : Nat := (lib.records.toVec ev.record).length + 1

def bytesOf (lib : CodecLib) (evs : Multiset LogEvent) : Nat := (evs.map (eventBytes lib)).sum

theorem bytesOf_add (lib : CodecLib) (evs evs' : Multiset LogEvent) :
    bytesOf lib (evs + evs') = bytesOf lib evs + bytesOf lib evs' := by
  rw [bytesOf, Multiset.map_add, Multiset.sum_add]
  rfl

theorem length_text (S : SerdeLine LogRecord) (rs : List LogRecord) :
    (S.text rs).length = (rs.map fun r => (S.toVec r).length + 1).sum := by
  induction rs with
  | nil => rfl
  | cons r rs ih =>
    rw [← List.singleton_append, SerdeLine.text_append, SerdeLine.text_singleton,
      List.length_append, List.length_append, List.length_singleton, ih, List.singleton_append,
      List.map_cons, List.sum_cons]

/-- The size of a writer is the bytes of its events. -/
theorem bytesOf_bufEvents {lib : CodecLib} (key : BufKey) (h : buf.Sound lib) :
    bytesOf lib (bufEvents lib (key, buf)) = buf.writer.uncompressedLen := by
  obtain ⟨rs, hrs⟩ := h
  rw [bufEvents_holds hrs, hrs.uncompressedLen, length_text, bytesOf, Multiset.map_coe,
    Multiset.sum_coe, List.map_map]
  rfl

theorem bufferedTotal_held {lib : CodecLib} (h : AllSound lib bufs) :
    bufferedTotal bufs = bytesOf lib (held lib bufs) := by
  induction bufs with
  | nil => rfl
  | cons e bufs ih =>
    have hrest := ih fun e' he' => h e' (List.mem_cons_of_mem _ he')
    rw [held_cons, bytesOf_add, ← hrest, bytesOf_bufEvents e.1 (h e List.mem_cons_self)]
    rfl

theorem bufferedTotal_append (bufs bufs' : Buffers) :
    bufferedTotal (bufs ++ bufs') = bufferedTotal bufs + bufferedTotal bufs' := by
  rw [bufferedTotal, List.map_append, List.sum_append]
  rfl

theorem bufferedTotal_perm {bufs' : Buffers} (h : bufs.Perm bufs') :
    bufferedTotal bufs = bufferedTotal bufs' := (h.map _).sum_eq

/-! ## What must fit -/

/-- The bytes of the events of one key. -/
def keyBytes (lib : CodecLib) (evs : List LogEvent) (key : BufKey) : Nat :=
  bytesOf lib (evs.filter fun ev => eventKey ev = key : List LogEvent)

/-- The bytes of the events whose key has less of them than a flush takes. -/
def shortBytes (lib : CodecLib) (flushBytes : Nat) (evs : List LogEvent) : Nat :=
  bytesOf lib (evs.filter fun ev => keyBytes lib evs (eventKey ev) < flushBytes : List LogEvent)

/-- A section pushes all of its events and syncs them: no write, sync or compression
fails. -/
def Whole (m : BufferManager) (s : Gateway) (items : List (LogEvent × EventIo))
    (order : List BufKey) (syncFails : Option String) : Prop :=
  (m.pushAll s.lock items).2.2 = none ∧ ((m.pushAll s.lock items).1.sync order syncFails).2 = true

/-- The events that a section pushes before it stops. -/
def entered (m : BufferManager) (s : Gateway) (items : List (LogEvent × EventIo)) :
    List LogEvent := (m.pushAll s.lock items).2.1

/-- What a section or an answer adds fits under the cap: what a batch left when it stopped
early, the short buffers of a replay, and a buffer that is put back. -/
def CallAct.Fits (m : BufferManager) (s : Gateway) (c : Call) : CallAct → Prop
  | .append order ios syncFails =>
    Whole m s (c.origin.batch.zip ios) order syncFails ∨
      bufferedTotal s.buffers + bytesOf m.lib (entered m s (c.origin.batch.zip ios)) ≤
        m.cfg.maxBufferedBytes
  | .replay order ios syncFails _ =>
    let evs := Gateway.survivingEvents (scanDir m.entries s.disk)
    m.cfg.walDir ≠ none →
      (Whole m s (evs.zip ios) order syncFails ∧
        shortBytes m.lib m.cfg.flushBytes evs ≤ m.cfg.maxBufferedBytes) ∨
      (¬ Whole m s (evs.zip ios) order syncFails ∧
        bytesOf m.lib (entered m s (evs.zip ios)) ≤ m.cfg.maxBufferedBytes)
  | .reinsert => ∀ key buf chunk err f, c.phase = .failed key buf chunk err f →
      ComesBack s.buffers key buf chunk →
        bufferedTotal s.buffers + buf.writer.uncompressedLen ≤ m.cfg.maxBufferedBytes
  | _ => True

/-- What a step adds fits under the cap. -/
def Fits (m : BufferManager) (s : Gateway) : GatewayLabel → Prop
  | .act id a => ∀ c ∈ Assoc.get? id s.calls, a.Fits m s c
  | _ => True

/-! ## The sections -/

/-- A section leaves what was there and what it pushed. -/
theorem pushAll_total (items : List (LogEvent × EventIo)) (hs : AllSound m.lib s.buffers) :
    AllSound m.lib (m.pushAll s.lock items).1.buffers ∧
      bufferedTotal (m.pushAll s.lock items).1.buffers =
        bufferedTotal s.buffers + bytesOf m.lib (entered m s items) := by
  have hpush : m.pushAll s.lock items = (_, _, _) := rfl
  obtain ⟨hsound, -, hheld⟩ := pushAll_spec hs hpush
  refine ⟨hsound, ?_⟩
  rw [bufferedTotal_held hsound, hheld, bytesOf_add, bufferedTotal_held hs]
  rfl

theorem sync_total {lib : CodecLib} {l : Locked} (order : List BufKey) (fails : Option String)
    (h : AllSound lib l.buffers) :
    AllSound lib (l.sync order fails).1.buffers ∧
      bufferedTotal (l.sync order fails).1.buffers = bufferedTotal l.buffers := by
  obtain ⟨hsound, hheld⟩ := sync_spec h (Prod.eta (l.sync order fails)).symm
  refine ⟨hsound, ?_⟩
  rw [bufferedTotal_held hsound, hheld, bufferedTotal_held h]

/-- A batch that is accepted leaves the map within the cap, and one that stops early leaves
what it pushed. -/
theorem acceptBatch_total (batch : List LogEvent) (ios : List EventIo) (order : List BufKey)
    (fails : Option String) (hs : AllSound m.lib s.buffers) :
    (Whole m s (batch.zip ios) order fails →
      bufferedTotal (Gateway.acceptBatch m s order batch ios fails).buffers ≤
        m.cfg.maxBufferedBytes) ∧
    (¬ Whole m s (batch.zip ios) order fails →
      bufferedTotal (Gateway.acceptBatch m s order batch ios fails).buffers =
        bufferedTotal s.buffers + bytesOf m.lib (entered m s (batch.zip ios))) := by
  obtain ⟨hsound, htotal⟩ := pushAll_total (batch.zip ios) hs
  unfold Whole Gateway.acceptBatch
  cases hpush : m.pushAll s.lock (batch.zip ios) with
  | mk l r =>
    obtain ⟨pushed, err⟩ := r
    rw [hpush] at hsound htotal
    cases err with
    | some e => exact ⟨fun h => (by cases h.1), fun _ => htotal⟩
    | none =>
      obtain ⟨-, hsynced⟩ := sync_total order fails hsound
      dsimp only at hsynced ⊢
      cases hsync : l.sync order fails with
      | mk l' ok =>
        rw [hsync] at hsynced
        cases ok with
        | false => exact ⟨fun h => (by cases h.2), fun _ => hsynced.trans htotal⟩
        | true =>
          refine ⟨fun _ => ?_, fun h => absurd ⟨rfl, rfl⟩ h⟩
          exact takeOver_total _ _ _ le_rfl

/-! ## A replay -/

theorem openBuf_nodup {l l' : Locked} {tsMs : Int} {io : EventIo}
    (h : (Assoc.keys l.buffers).Nodup) (hopen : m.openBuf l key tsMs io = some (l', buf)) :
    (Assoc.keys l'.buffers).Nodup := by
  unfold BufferManager.openBuf at hopen
  cases hget : Assoc.get? key l.buffers with
  | some b =>
    rw [hget] at hopen
    cases hopen
    exact h
  | none =>
    simp only [hget] at hopen
    split at hopen
    next =>
      obtain ⟨⟨seg, ops⟩, -, heq⟩ := Option.map_eq_some_iff.mp hopen
      cases heq
      exact Assoc.nodup_insert h
    next =>
      cases hopen
      exact Assoc.nodup_insert h

theorem pushOne_nodup {l : Locked} (ev : LogEvent) (io : EventIo)
    (h : (Assoc.keys l.buffers).Nodup) :
    (Assoc.keys (m.pushOne l ev.logGroup ev.record io).1.buffers).Nodup := by
  unfold BufferManager.pushOne
  dsimp only
  cases hopen : m.openBuf l (ev.logGroup, dateFromTsMs ev.record.timestamp) ev.record.timestamp
      io with
  | none => exact h
  | some r =>
    obtain ⟨l₁, buf⟩ := r
    have hopened := openBuf_nodup h hopen
    dsimp only
    rcases m.appendLine buf ev.logGroup ev.record io.torn with ⟨buf₁, ops, ok⟩
    cases ok with
    | false => exact Assoc.nodup_insert hopened
    | true =>
      dsimp only
      rcases buf₁.writer.push m.lib ev.record with ⟨writer, ⟨⟩⟩
      · exact Assoc.nodup_insert hopened
      · exact Assoc.nodup_insert hopened

/-- Keys are distinct after a push, where they were. -/
theorem pushAll_nodup {items : List (LogEvent × EventIo)} : ∀ {l : Locked},
    (Assoc.keys l.buffers).Nodup → (Assoc.keys (m.pushAll l items).1.buffers).Nodup := by
  induction items with
  | nil => exact fun h => h
  | cons item items ih =>
    intro l h
    obtain ⟨ev, io⟩ := item
    have hone := pushOne_nodup (m := m) ev io h
    rw [BufferManager.pushAll]
    cases hpush : m.pushOne l ev.logGroup ev.record io with
    | mk l₁ r =>
      obtain ⟨took, e⟩ := r
      rw [hpush] at hone
      cases e with
      | some e => exact hone
      | none => exact ih hone

theorem sync_nodup {l : Locked} (order : List BufKey) (fails : Option String)
    (h : (Assoc.keys l.buffers).Nodup) :
    (Assoc.keys (l.sync order fails).1.buffers).Nodup := by
  have hkeys := congrArg (List.map Prod.fst) (syncWal_spec fails (inOrder order l.buffers))
  rw [List.map_map, List.map_map] at hkeys
  have hsame : Assoc.keys (l.sync order fails).1.buffers =
      Assoc.keys (inOrder order l.buffers) := hkeys
  rw [hsame]
  exact ((inOrder_perm order l.buffers).map Prod.fst).nodup_iff.mpr h

/-- The events of a buffer are those of its key. -/
theorem held_filter {lib : CodecLib} (hnodup : (Assoc.keys bufs).Nodup)
    (hdated : AllBufs (Dated lib) bufs) {e : BufKey × Buf} (he : e ∈ bufs) :
    (held lib bufs).filter (fun ev => eventKey ev = e.1) = bufEvents lib e := by
  have hperm := Assoc.perm_filter_ne hnodup he
  have hown : (bufEvents lib e).filter (fun ev => eventKey ev = e.1) = bufEvents lib e :=
    Multiset.filter_eq_self.mpr (hdated e he)
  have hothers : (held lib (bufs.filter fun e' => e'.1 ≠ e.1)).filter
      (fun ev => eventKey ev = e.1) = 0 := by
    refine Multiset.filter_eq_nil.mpr fun ev hev heq => ?_
    obtain ⟨e', he', hmem⟩ := Assoc.mem_total.mp hev
    obtain ⟨hin, hne⟩ := List.mem_filter.mp he'
    exact (decide_eq_true_iff.mp hne) ((hdated e' hin ev hmem).symm.trans heq)
  rw [held_perm hperm, held_cons, Multiset.filter_add, hown, hothers, add_zero]

/-- What is left of buffers of some events, when those that are long enough are taken, is the
events of the short keys. -/
theorem takeMatching_total {lib : CodecLib} {evs : List LogEvent} (flushBytes : Nat)
    (hs : AllSound lib bufs) (hnodup : (Assoc.keys bufs).Nodup)
    (hdated : AllBufs (Dated lib) bufs) (hheld : held lib bufs = (evs : Multiset LogEvent)) :
    bufferedTotal (takeMatching (fun buf => flushBytes ≤ buf.writer.uncompressedLen) bufs).2 =
      shortBytes lib flushBytes evs := by
  have hlen : ∀ e ∈ bufs, e.2.writer.uncompressedLen = keyBytes lib evs e.1 := by
    intro e he
    have hevents := held_filter hnodup hdated he
    rw [hheld, Multiset.filter_coe] at hevents
    rw [← bytesOf_bufEvents e.1 (hs e he), keyBytes, hevents]
  have hrest : ∀ bs : Buffers, (∀ e ∈ bs, e ∈ bufs) →
      held lib (bs.filter fun e => !decide (flushBytes ≤ e.2.writer.uncompressedLen)) =
        (held lib bs).filter fun ev => keyBytes lib evs (eventKey ev) < flushBytes := by
    intro bs hbs
    induction bs with
    | nil => rfl
    | cons e bs ih =>
      have he := hbs e List.mem_cons_self
      have htail := ih fun e' he' => hbs e' (List.mem_cons_of_mem _ he')
      rw [held_cons, Multiset.filter_add, ← htail, List.filter_cons]
      by_cases hshort : flushBytes ≤ e.2.writer.uncompressedLen
      · have hnone : (bufEvents lib e).filter
            (fun ev => keyBytes lib evs (eventKey ev) < flushBytes) = 0 := by
          refine Multiset.filter_eq_nil.mpr fun ev hev => ?_
          rw [hdated e he ev hev, ← hlen e he]
          exact Nat.not_lt.mpr hshort
        rw [if_neg (by simpa using hshort), hnone, zero_add]
      · have hall : (bufEvents lib e).filter
            (fun ev => keyBytes lib evs (eventKey ev) < flushBytes) = bufEvents lib e := by
          refine Multiset.filter_eq_self.mpr fun ev hev => ?_
          rw [hdated e he ev hev, ← hlen e he]
          exact Nat.lt_of_not_le hshort
        rw [if_pos (by simpa using hshort), hall, held_cons]
  have hsound : AllSound lib
      (takeMatching (fun buf => flushBytes ≤ buf.writer.uncompressedLen) bufs).2 :=
    fun e he => hs e (List.mem_filter.mp he).1
  rw [bufferedTotal_held hsound, shortBytes, ← Multiset.filter_coe, ← hheld]
  exact congrArg (bytesOf lib) (hrest bufs fun _ h => h)

/-- A replay into an empty map leaves the events of the short keys, and one that stops early
leaves what it pushed. -/
theorem replayWal_total (order : List BufKey) (ios : List EventIo) (fails : Option String)
    (undeleted : List String) (hempty : s.buffers = []) (hdir : m.cfg.walDir ≠ none)
    (hlen : ios.length = (Gateway.survivingEvents (scanDir m.entries s.disk)).length) :
    (Whole m s ((Gateway.survivingEvents (scanDir m.entries s.disk)).zip ios) order fails →
      bufferedTotal (Gateway.replayWal m s order ios fails undeleted).buffers =
        shortBytes m.lib m.cfg.flushBytes (Gateway.survivingEvents (scanDir m.entries s.disk))) ∧
    (¬ Whole m s ((Gateway.survivingEvents (scanDir m.entries s.disk)).zip ios) order fails →
      bufferedTotal (Gateway.replayWal m s order ios fails undeleted).buffers =
        bytesOf m.lib (entered m s
          ((Gateway.survivingEvents (scanDir m.entries s.disk)).zip ios))) := by
  have hs : AllSound m.lib s.buffers := by
    rw [hempty]
    exact AllSound.nil
  have hzero : bufferedTotal s.buffers = 0 := by
    rw [hempty]
    rfl
  unfold Gateway.replayWal
  dsimp only
  by_cases hsegments : scanDir m.entries s.disk = []
  · -- no segment: nothing is pushed, and the empty map is synced
    rw [if_pos (.inr hsegments), hsegments]
    have hnone : bufferedTotal (s.goes (.done none)).buffers = 0 := hzero
    exact ⟨fun _ => hnone, fun _ => hnone⟩
  · rw [if_neg (not_or.mpr ⟨hdir, hsegments⟩)]
    generalize Gateway.survivingEvents (scanDir m.entries s.disk) = evs at hlen ⊢
    have hpushed : m.pushAll s.lock (evs.zip ios) = (_, _, _) := rfl
    obtain ⟨hsound, hall, hheld⟩ := pushAll_spec hs hpushed
    have htotal := (pushAll_total (evs.zip ios) hs).2
    rw [hzero, Nat.zero_add] at htotal
    have hnodup : (Assoc.keys (m.pushAll s.lock (evs.zip ios)).1.buffers).Nodup := by
      refine pushAll_nodup (l := s.lock) ?_
      rw [show s.lock.buffers = [] from hempty]
      exact List.nodup_nil
    have hdated : AllBufs (Dated m.lib) (m.pushAll s.lock (evs.zip ios)).1.buffers := by
      refine (dated_rule m).pushAll (l := s.lock) hs ?_ rfl
      rw [show s.lock.buffers = [] from hempty]
      exact AllBufs.nil
    unfold Whole
    cases hpush : m.pushAll s.lock (evs.zip ios) with
    | mk l r =>
      obtain ⟨pushed, err⟩ := r
      rw [hpush] at hsound hheld htotal hnodup hdated hall
      cases err with
      | some e => exact ⟨fun h => (by cases h.1), fun _ => htotal⟩
      | none =>
        obtain ⟨hsound', hsynced⟩ := sync_total order fails hsound
        have hnodup' := sync_nodup order fails hnodup
        have hdated' := (dated_rule m).sync hdated (Prod.eta (l.sync order fails)).symm
        have hheld' := (sync_spec hsound (Prod.eta (l.sync order fails)).symm).2
        rw [hheld, hall rfl, List.map_fst_zip (Nat.le_of_eq hlen.symm), show s.lock.buffers = [] from hempty,
          held_nil, zero_add] at hheld'
        dsimp only at hsynced ⊢
        cases hsync : l.sync order fails with
        | mk l' ok =>
          rw [hsync] at hsynced hsound' hnodup' hdated' hheld'
          cases ok with
          | false => exact ⟨fun h => (by cases h.2), fun _ => hsynced.trans htotal⟩
          | true =>
            refine ⟨fun _ => ?_, fun h => absurd ⟨rfl, rfl⟩ h⟩
            exact takeMatching_total m.cfg.flushBytes hsound' hnodup' hdated' hheld'

/-! ## Putting a buffer back -/

/-- What a buffer that is put back adds. -/
theorem reinsert_total (key : BufKey) {chunk : Option EncodedChunk} (h : AllSound m.lib bufs)
    (hbuf : Encoded m.lib buf chunk) :
    (ComesBack bufs key buf chunk → bufferedTotal (m.reinsert bufs key buf chunk) =
      bufferedTotal bufs + buf.writer.uncompressedLen) ∧
    (¬ ComesBack bufs key buf chunk →
      bufferedTotal (m.reinsert bufs key buf chunk) = bufferedTotal bufs) := by
  obtain ⟨hsound, -, hback⟩ := reinsert_spec key h hbuf
  refine ⟨fun hcomes => ?_, fun hlost => ?_⟩
  · rw [bufferedTotal_held hsound, hback hcomes, bytesOf_add, ← bufferedTotal_held h,
      bytesOf_bufEvents key hbuf.sound]
  · -- the key is taken, and its buffer keeps its events
    have hheld : held m.lib (m.reinsert bufs key buf chunk) = held m.lib bufs := by
      unfold BufferManager.reinsert
      cases hget : Assoc.get? key bufs with
      | none => exact absurd (.inl (Assoc.get?_eq_none.mp hget)) hlost
      | some dst =>
        dsimp only
        split
        next => rfl
        next hwal =>
          split
          next plain hplain =>
            obtain ⟨c, rfl, hdecode⟩ := Option.bind_eq_some_iff.mp hplain
            refine absurd (.inr ⟨Option.not_isSome_iff_eq_none.mp hwal, rfl, ?_⟩) hlost
            obtain ⟨rs, hrs, hchunk⟩ := hbuf
            have hsize : c.uncompressedBytes = buf.writer.uncompressedLen := by
              rw [(hchunk c rfl).uncompressedBytes, hrs.uncompressedLen]
            have hok := Fallible.toOption_eq_some.mp hdecode
            rw [decompressFrames_of_decode (hchunk c rfl).decode, hsize] at hok
            by_contra hlong
            rw [if_pos (Nat.lt_of_not_le hlong)] at hok
            cases hok
          next =>
            have hsame : bufEvents m.lib (key, { dst with
                openedAt := min dst.openedAt buf.openedAt
                firstEventTsMs := min dst.firstEventTsMs buf.firstEventTsMs }) =
                bufEvents m.lib (key, dst) + 0 := (add_zero _).symm
            have hclock := held_insert _ hget hsame
            rwa [add_zero] at hclock
    rw [bufferedTotal_held hsound, hheld, bufferedTotal_held h]

/-! ## Runs -/

/-- What is taken out of a map leaves less. -/
theorem total_rest {due rest : Buffers} (h : (due ++ rest).Perm s.buffers) :
    bufferedTotal rest ≤ bufferedTotal s.buffers := by
  rw [← bufferedTotal_perm h, bufferedTotal_append]
  exact Nat.le_add_left _ _

/-- A section that pushes nothing, or an answer. -/
def CallAct.Quiet : CallAct → Prop
  | .append _ _ _ => False
  | .replay _ _ _ _ => False
  | .reinsert => False
  | _ => True

/-- What pushes nothing and puts nothing back only makes room. -/
theorem quiet_total {origin : Origin} {p : CallPhase} {a : CallAct} {e : CallEffect}
    (hstep : s.callStep m origin p a = some e) (ha : a.Quiet) :
    bufferedTotal e.buffers ≤ bufferedTotal s.buffers := by
  cases callStep_move hstep with
  | pass => exact le_rfl
  | take due rest after hperm => exact total_rest hperm
  | pushFails henters => cases henters <;> exact ha.elim
  | syncFails henters => cases henters <;> exact ha.elim
  | accept old due rest henters => cases henters <;> exact ha.elim
  | retire => exact le_rfl
  | putNext => exact le_rfl
  | putDone => exact le_rfl
  | reinsert => exact ha.elim

/-- A section or an answer keeps the map within the cap just where what it adds fits. -/
theorem act_fits_iff {id : Nat} {c : Call} {a : CallAct} {e : CallEffect} (hs : s.Sound m)
    (halone : s.Alone) (hget : Assoc.get? id s.calls = some c)
    (hcap : bufferedTotal s.buffers ≤ m.cfg.maxBufferedBytes)
    (hstep : s.callStep m c.origin c.phase a = some e) :
    bufferedTotal e.buffers ≤ m.cfg.maxBufferedBytes ↔ a.Fits m s c := by
  have hmem := Assoc.mem_of_get? hget
  cases a with
  | append order ios fails =>
    simp only [Gateway.callStep] at hstep
    split at hstep
    next logGroup stream events horigin hphase =>
      split at hstep
      next =>
        cases hstep
        obtain ⟨hwhole, hbroken⟩ :=
          acceptBatch_total (batchEvents logGroup stream events) ios order fails hs.buffers
        have hbatch : c.origin.batch = batchEvents logGroup stream events := by rw [horigin]; rfl
        unfold CallAct.Fits
        rw [hbatch]
        by_cases h : Whole m s ((batchEvents logGroup stream events).zip ios) order fails
        · exact ⟨fun _ => .inl h, fun _ => hwhole h⟩
        · rw [hbroken h]
          exact (or_iff_right h).symm
      next => cases hstep
    next => cases hstep
  | replay order ios fails undeleted =>
    simp only [Gateway.callStep] at hstep
    split at hstep
    next horigin hphase =>
      split at hstep
      next hlen =>
        cases hstep
        have hempty := (halone _ hmem horigin).2.2 hphase
        unfold CallAct.Fits
        dsimp only
        by_cases hdir : m.cfg.walDir = none
        · have hnone : Gateway.replayWal m s order ios fails undeleted = s.goes (.done none) :=
            if_pos (.inl hdir)
          rw [hnone]
          exact ⟨fun _ hne => absurd hdir hne, fun _ => hcap⟩
        · obtain ⟨hwhole, hbroken⟩ :=
            replayWal_total order ios fails undeleted hempty hdir hlen
          by_cases h : Whole m s ((Gateway.survivingEvents (scanDir m.entries s.disk)).zip ios)
              order fails
          · rw [hwhole h]
            exact ⟨fun hfits _ => .inl ⟨h, hfits⟩,
              fun hfits => (hfits hdir).elim And.right fun hno => absurd h hno.1⟩
          · rw [hbroken h]
            exact ⟨fun hfits _ => .inr ⟨h, hfits⟩,
              fun hfits => (hfits hdir).elim (fun hyes => absurd hyes.1 h) And.right⟩
      next => cases hstep
    next => cases hstep
  | reinsert =>
    simp only [Gateway.callStep] at hstep
    split at hstep
    next key buf chunk err f hphase =>
      cases hstep
      have hencoded : Encoded m.lib buf chunk := by
        have hsound := hs.calls _ hmem
        rw [hphase] at hsound
        exact hsound.1
      obtain ⟨hback, hlost⟩ := reinsert_total key hs.buffers hencoded
      unfold CallAct.Fits
      rw [hphase]
      constructor
      · intro hle key' buf' chunk' err' f' heq hcomes
        cases heq
        exact (hback hcomes).symm.le.trans hle
      · intro hfits
        by_cases hcomes : ComesBack s.buffers key buf chunk
        · exact (hback hcomes).le.trans (hfits key buf chunk err f rfl hcomes)
        · exact (hlost hcomes).le.trans hcap
    next => cases hstep
  | reserve order => exact ⟨fun _ => trivial, fun _ => (quiet_total hstep trivial).trans hcap⟩
  | recheck => exact ⟨fun _ => trivial, fun _ => (quiet_total hstep trivial).trans hcap⟩
  | take order nowMs => exact ⟨fun _ => trivial, fun _ => (quiet_total hstep trivial).trans hcap⟩
  | flushNext uuid io => exact ⟨fun _ => trivial, fun _ => (quiet_total hstep trivial).trans hcap⟩
  | flushed => exact ⟨fun _ => trivial, fun _ => (quiet_total hstep trivial).trans hcap⟩
  | put answer io => exact ⟨fun _ => trivial, fun _ => (quiet_total hstep trivial).trans hcap⟩

/-- What holds of every run that the cap needs. -/
structure Metered (m : BufferManager) (s : Gateway) : Prop where
  sound : s.Sound m
  alone : s.Alone

/-- A step keeps the map within the cap just where what it adds fits. -/
theorem Metered.fits_iff {l : GatewayLabel} (h : Metered m s)
    (hcap : bufferedTotal s.buffers ≤ m.cfg.maxBufferedBytes)
    (hstep : gatewayStep m s l = some t) :
    bufferedTotal t.buffers ≤ m.cfg.maxBufferedBytes ↔ Fits m s l := by
  cases l with
  | act id a =>
    simp only [gatewayStep] at hstep
    split at hstep
    next => cases hstep
    next c hget =>
      obtain ⟨e, he, rfl⟩ := Option.map_eq_some_iff.mp hstep
      have hiff := act_fits_iff h.sound h.alone hget hcap he
      refine hiff.trans ⟨fun hfits c' hc' => ?_, fun hfits => hfits c hget⟩
      rw [Option.mem_def, hget] at hc'
      cases hc'
      exact hfits
  | boot =>
    cases gatewayStep_move hstep
    exact ⟨fun _ => trivial, fun _ => Nat.zero_le _⟩
  | call id origin =>
    cases gatewayStep_move hstep
    exact ⟨fun _ => trivial, fun _ => hcap⟩
  | reply id =>
    refine ⟨fun _ => trivial, fun _ => ?_⟩
    cases gatewayStep_move hstep with
    | served => exact hcap
    | unserved => exact Nat.zero_le _
    | acked => exact hcap
    | refused => exact hcap
  | drop id landed =>
    cases gatewayStep_move hstep
    exact ⟨fun _ => trivial, fun _ => hcap⟩
  | crash during ops landed after =>
    cases gatewayStep_move hstep
    exact ⟨fun _ => trivial, fun _ => Nat.zero_le _⟩

/-- Before the first start, over a disk that may hold segments. -/
def Gateway.startOn (disk : Disk) : Gateway := { Gateway.start with disk := disk }

theorem startOn_metered (m : BufferManager) (disk : Disk) : Metered m (Gateway.startOn disk) :=
  ⟨⟨AllSound.nil, fun _ hc => absurd hc List.not_mem_nil, fun _ => ⟨rfl, rfl⟩⟩,
    fun _ hc => absurd hc List.not_mem_nil⟩

/-- The map is within the cap after every step of a run just where what each step adds fits.
Sections that accept a batch, make room or flush always fit. -/
theorem memory_cap_iff (m : BufferManager) (disk : Disk) {labels : List GatewayLabel} {s : Gateway}
    (run : LTS.exec (gatewayStep m) (Gateway.startOn disk) labels = some s) :
    (∀ n t, LTS.exec (gatewayStep m) (Gateway.startOn disk) (labels.take n) = some t →
        bufferedTotal t.buffers ≤ m.cfg.maxBufferedBytes) ↔
      LTS.Along (gatewayStep m) (Fits m) (Gateway.startOn disk) labels :=
  LTS.along_iff (fun _ _ _ h hstep => ⟨h.sound.step hstep, h.alone.step hstep⟩)
    (fun _ _ _ h hcap hstep => h.fits_iff hcap hstep) (startOn_metered m disk) (Nat.zero_le _) run

namespace Concrete

/-- A gateway with little memory. -/
def tightGateway : BufferManager :=
  { gateway (some "/wal") with
    cfg := { (gateway (some "/wal")).cfg with
      flushBytes := 100
      maxBufferedBytes := 100 } }

/-- A push within the cap, and a flush. -/
def pushedAndFlushed : List GatewayLabel :=
  started ++ pushed 1 [input 0 "a"] [io "u1"] ++ [.call 2 .flushAll, .act 2 (.take [] 0)] ++
    stored 2 "x" ++ [.act 2 .flushed, .reply 2]

/-- A segment with one event of a log group. -/
def oneEventSegment (logGroup : String) : String × DiskFile :=
  let line := WalSegment.line entries {
    logGroup := logGroup
    timestamp := 5
    stream := "s"
    message := "of some length"
    ingestionTime := none }
  (WalSegment.fileName logGroup "1970-01-01" "old", ⟨line, line.length, true⟩)

/-- A disk with the segments of two log groups. -/
def twoGroupDisk : Disk where
  files := [oneEventSegment "/g", oneEventSegment "/h"]
  unlinked := []

/-- The replay of that disk. -/
def twoGroupReplay : List GatewayLabel :=
  [.boot, .act 0 (.replay [] [io "u1", io "u2"] none [])]

/-- The events on that disk, in the order of the segments. -/
theorem twoGroup_events : Gateway.survivingEvents (scanDir entries twoGroupDisk) =
    ["/g", "/h"].map fun logGroup => ⟨logGroup, ⟨5, "s", "of some length", none, none⟩⟩ := by
  have hsorted : (twoGroupDisk.files.filter fun e =>
      (Text.stripSuffix walSuffix.toList e.1.toList).isSome).mergeSort (fun e e' => e.1 ≤ e'.1) =
        twoGroupDisk.files := by
    have hsegments : (twoGroupDisk.files.filter fun e =>
        (Text.stripSuffix walSuffix.toList e.1.toList).isSome) = twoGroupDisk.files := by
      decide +kernel
    rw [hsegments]
    exact List.mergeSort_of_pairwise (by decide +kernel)
  rw [scanDir, hsorted]
  decide +kernel

end Concrete

open Concrete in
/-- A push and its flush in a gateway with little room. -/
theorem memory_cap_pushed : ∃ s,
    LTS.exec (gatewayStep tightGateway) (Gateway.startOn Disk.empty) pushedAndFlushed = some s ∧
    ((∀ n t, LTS.exec (gatewayStep tightGateway) (Gateway.startOn Disk.empty)
        (pushedAndFlushed.take n) = some t →
        bufferedTotal t.buffers ≤ tightGateway.cfg.maxBufferedBytes) ↔
      LTS.Along (gatewayStep tightGateway) (Fits tightGateway) (Gateway.startOn Disk.empty)
        pushedAndFlushed) := by
  obtain ⟨s, hs⟩ := Option.isSome_iff_exists.mp (by decide +kernel :
    (LTS.exec (gatewayStep tightGateway) (Gateway.startOn Disk.empty)
      pushedAndFlushed).isSome = true)
  exact ⟨s, hs, memory_cap_iff tightGateway Disk.empty hs⟩

open Concrete in
/-- A replay of two short buffers leaves more in the map than the cap allows. -/
theorem replay_over_cap : ∃ s,
    LTS.exec (gatewayStep tightGateway) (Gateway.startOn twoGroupDisk) twoGroupReplay = some s ∧
      tightGateway.cfg.maxBufferedBytes < bufferedTotal s.buffers := by
  let s₁ : Gateway := { Gateway.startOn twoGroupDisk with
    mode := .replaying
    calls := [(0, ⟨.replay, .begin⟩)] }
  have hevents : Gateway.survivingEvents (scanDir tightGateway.entries s₁.disk) = _ :=
    twoGroup_events
  have hlen : [io "u1", io "u2"].length =
      (Gateway.survivingEvents (scanDir tightGateway.entries s₁.disk)).length := by
    rw [hevents]
    rfl
  have hwhole : Whole tightGateway s₁ ((Gateway.survivingEvents
      (scanDir tightGateway.entries s₁.disk)).zip [io "u1", io "u2"]) [] none := by
    rw [hevents]
    unfold Whole
    decide +kernel
  have htotal := (replayWal_total [] [io "u1", io "u2"] none [] (rfl : s₁.buffers = []) (by decide) hlen).1 hwhole
  rw [hevents] at htotal
  refine ⟨s₁.commit 0 .replay (Gateway.replayWal tightGateway s₁ [] [io "u1", io "u2"] none []),
    ?_, ?_⟩
  · have hstep : gatewayStep tightGateway s₁ (.act 0 (.replay [] [io "u1", io "u2"] none [])) =
        some (s₁.commit 0 .replay
          (Gateway.replayWal tightGateway s₁ [] [io "u1", io "u2"] none [])) := by
      show Option.map _ (if _ then _ else _) = _
      rw [if_pos hlen]
      rfl
    show Option.bind (gatewayStep tightGateway s₁ _) _ = _
    rw [hstep]
    rfl
  · show _ < bufferedTotal (Gateway.replayWal tightGateway s₁ [] [io "u1", io "u2"] none []).buffers
    rw [htotal]
    decide +kernel

end S4Logs

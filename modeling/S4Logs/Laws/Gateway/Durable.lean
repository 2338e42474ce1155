import S4Logs.Gateway.Concrete
import S4Logs.Laws.Gateway.Ledger
import S4Logs.Laws.Gateway.Mirror

/-!
# What a log keeps

With a log every buffer mirrors its segment, so a buffer that is lost leaves its events on
the disk, and a segment that is removed had the events of a buffer that was stored. What a
client is told is accepted is stored or durable from then on, whatever call goes away,
whichever PUT fails, and wherever the process crashes, in a replay too.

A call owes its batch between the section that accepts it and the reply. The invariant
accounts for what was acknowledged and for what is owed.
-/

namespace S4Logs

variable {m : BufferManager} {s t : Gateway} {origin : Origin} {p p' : CallPhase} {a : CallAct}
variable {e : CallEffect} {bufs away : Buffers} {d : Disk}

/-! ## What a call owes -/

/-- The call is past the section that accepts its batch, and does not answer an error. -/
def CallPhase.accepting : CallPhase → Bool
  | .flush f => f.after = .finish
  | .put _ _ _ _ _ f => f.after = .finish
  | .failed _ _ _ _ f => f.after = .finish
  | .done none => true
  | _ => false

/-- What the client of a call is going to be told is accepted. -/
def Call.owed (c : Call) : Multiset LogEvent :=
  ((if c.phase.accepting then c.origin.batch else [] : List LogEvent) : Multiset LogEvent)

/-- What calls owe. -/
def Gateway.owed (s : Gateway) : Multiset LogEvent := Assoc.total (fun c => c.2.owed) s.calls

theorem Call.owed_of_batch {c : Call} (h : c.origin.batch = []) : c.owed = 0 := by
  rw [Call.owed, h, ite_self]
  rfl

theorem Call.owed_le (c : Call) : c.owed ≤ (c.origin.batch : Multiset LogEvent) := by
  unfold Call.owed
  split
  next => exact le_rfl
  next => exact Multiset.zero_le _

/-- A call that only goes on owes no more than before. -/
theorem Passes.owed (h : Passes m origin p a p') : Call.owed ⟨origin, p'⟩ ≤ Call.owed ⟨origin, p⟩ := by
  cases h with
  | @flushed f =>
    obtain ⟨rest, err, after⟩ := f
    cases after with
    | recheck => exact Multiset.zero_le _
    | finish => exact (Call.owed_le _).trans (le_of_eq rfl)
  | nothing hreplay =>
    subst hreplay
    exact le_rfl
  | room => exact Multiset.zero_le _
  | empty => exact Multiset.zero_le _
  | rejected => exact Multiset.zero_le _
  | admitted => exact Multiset.zero_le _
  | encoded => exact le_rfl
  | encodeFailed => exact le_rfl
  | putFailed => exact le_rfl

/-! ## What a section does to the disk -/

/-- What is asked of the writes of a section. -/
def CallAct.Kept : CallAct → Prop
  | .append _ ios _ => ∀ io ∈ ios, io.Kept
  | .replay _ ios _ _ => ∀ io ∈ ios, io.Kept
  | _ => True

/-- The effect on the disk of a section of a call, with the buffers that other calls hold.
Wherever a crash falls into it, what was durable is durable or was just stored. -/
structure Secures (m : BufferManager) (s : Gateway) (origin : Origin) (p : CallPhase)
    (e : CallEffect) (away : Buffers) : Prop where
  logged : Logged m (s.disk.applyAll e.ops) (e.buffers ++ (e.phase.bufs ++ away))
  cut : ∀ n, (s.disk.applyAll (e.ops.take n)).Fit ∧ s.disk.durable m.entries ≤
    (s.disk.applyAll (e.ops.take n)).durable m.entries + chunksEvents m.lib e.chunks
  owed : s.disk.durable m.entries + Call.owed ⟨origin, e.phase⟩ ≤ Call.owed ⟨origin, p⟩ +
    ((s.disk.applyAll e.ops).durable m.entries + chunksEvents m.lib e.chunks)

/-- A section that does nothing to the disk. -/
theorem Secures.of_idle (h : Logged m s.disk (e.buffers ++ (e.phase.bufs ++ away)))
    (hops : e.ops = []) (howed : Call.owed ⟨origin, e.phase⟩ ≤ Call.owed ⟨origin, p⟩) :
    Secures m s origin p e away := by
  refine ⟨?_, fun n => ?_, ?_⟩
  · rw [hops]
    exact h
  · rw [hops, List.take_nil]
    exact ⟨h.fit, Multiset.le_add_right _ _⟩
  · rw [hops, add_comm]
    exact add_le_add howed (Multiset.le_add_right _ _)

/-- The segment of a buffer is retired. -/
theorem Logged.retire {key : BufKey} {buf : Buf} (h : Logged m d ((key, buf) :: bufs))
    (io : DeleteIo) :
    Logged m (d.applyAll (buf.retire io)) bufs ∧
      ∀ n, (d.applyAll ((buf.retire io).take n)).Fit ∧ d.durable m.entries ≤
        (d.applyAll ((buf.retire io).take n)).durable m.entries + bufEvents m.lib (key, buf) := by
  obtain ⟨seg, f, es, hwal, hf, -⟩ := h.mirrors _ List.mem_cons_self
  have hwal : buf.wal = some seg := hwal
  have hseg : segName (key, buf) = some seg.name := by rw [segName, hwal, Option.map_some]
  have hzero : ∀ d' : Disk, d' = d → d'.Fit ∧ d.durable m.entries ≤
      d'.durable m.entries + bufEvents m.lib (key, buf) := by
    rintro d' rfl
    exact ⟨h.fit, Multiset.le_add_right _ _⟩
  have hremoved : (d.apply (.remove seg.name)).Fit ∧ d.durable m.entries ≤
      (d.apply (.remove seg.name)).durable m.entries + bufEvents m.lib (key, buf) := by
    refine ⟨h.fit.remove _, ?_⟩
    rw [h.fit.durable_remove hf, add_comm]
    exact add_le_add_right ((h.mirrors _ List.mem_cons_self).durable h.fit hseg hf).1 _
  have hlogged : Logged m (d.apply (.remove seg.name)) bufs := by
    refine h.tail.apply hremoved.1 (.inr fun hmem => (List.nodup_cons.mp h.names).1 ?_)
    rw [hseg]
    exact hmem
  have hadds : (d.apply (.remove seg.name)).Adds .syncDir := trivial
  obtain ⟨hfit, hgrows⟩ := hremoved.1.adds (S := m.entries) hadds
  have hsynced : ((d.apply (.remove seg.name)).apply .syncDir).Fit ∧ d.durable m.entries ≤
      ((d.apply (.remove seg.name)).apply .syncDir).durable m.entries +
        bufEvents m.lib (key, buf) :=
    ⟨hfit, hremoved.2.trans (add_le_add_left (hgrows.durable hremoved.1) _)⟩
  have hretire : buf.retire io = seg.delete io := by
    unfold Buf.retire
    rw [hwal]
  rw [hretire]
  unfold WalSegment.delete
  split
  next =>
    split
    next =>
      have htarget : DiskOp.target .syncDir = none ∨ DiskOp.target .syncDir ∉ bufs.map segName :=
        .inl rfl
      refine ⟨hlogged.apply hfit htarget, fun n => ?_⟩
      cases n with
      | zero => exact hzero _ rfl
      | succ n =>
        cases n with
        | zero => exact hremoved
        | succ n =>
          simp only [List.take_succ_cons, List.take_nil]
          exact hsynced
    next =>
      refine ⟨hlogged, fun n => ?_⟩
      cases n with
      | zero => exact hzero _ rfl
      | succ n =>
        simp only [List.take_succ_cons, List.take_nil]
        exact hremoved
  next =>
    refine ⟨h.tail, fun n => ?_⟩
    rw [List.take_nil]
    exact hzero _ rfl

/-- A buffer that is put back keeps its segment, or leaves it to the disk. -/
theorem Logged.reinsert {key : BufKey} {buf : Buf} {chunk : Option EncodedChunk}
    (h : Logged m d (bufs ++ ((key, buf) :: away))) :
    Logged m d (m.reinsert bufs key buf chunk ++ away) := by
  obtain ⟨seg, -, -, hwal, -⟩ := h.mirrors _ (List.mem_append_right _ List.mem_cons_self)
  have hwal : buf.wal.isSome = true := by
    rw [show buf.wal = some seg from hwal]
    rfl
  unfold BufferManager.reinsert
  cases hget : Assoc.get? key bufs with
  | none =>
    rw [Assoc.insert_of_notMem (Assoc.get?_eq_none.mp hget), List.append_assoc]
    exact h
  | some dst =>
    dsimp only
    rw [if_pos hwal]
    exact h.sublist ((List.sublist_cons_self _ _).append_left _)

/-- Files of no buffer are removed. -/
theorem Logged.removes : ∀ {old : List DiskOp} {d : Disk}, Logged m d bufs →
    (∀ op ∈ old, ∃ n, op = .remove n ∧ some n ∉ bufs.map segName) →
    Logged m (d.applyAll old) bufs
  | [], _, h, _ => h
  | op :: old, d, h, hold => by
    obtain ⟨n, rfl, hn⟩ := hold _ List.mem_cons_self
    have hone : Logged m (d.apply (.remove n)) bufs := h.apply (h.fit.remove n) (.inr hn)
    exact hone.removes fun op hop => hold op (List.mem_cons_of_mem _ hop)

/-- The events of a batch. -/
theorem plain_batch (origin : Origin) : ∀ ev ∈ origin.batch, ev.Plain := by
  intro ev hev
  cases origin with
  | push logGroup stream events =>
    obtain ⟨input, -, rfl⟩ := List.mem_map.mp hev
    rfl
  | sweep => cases hev
  | flushAll => cases hev
  | replay => cases hev

theorem survivingEvents_eq (segments : List SegmentEntries) :
    Gateway.survivingEvents segments =
      segments.flatMap fun seg => seg.entries.map WalEntry.event := rfl

theorem plain_surviving (segments : List SegmentEntries) :
    ∀ ev ∈ Gateway.survivingEvents segments, ev.Plain := by
  intro ev hev
  obtain ⟨seg, -, hev⟩ := List.mem_flatMap.mp hev
  obtain ⟨entry, -, rfl⟩ := List.mem_map.mp hev
  rfl

/-- What a section that pushes asks of its writes. -/
theorem Enters.kept {events : List LogEvent} {ios : List EventIo} {order : List BufKey}
    {fails : Option String} (h : Enters m s origin p a events ios order fails) (hkept : a.Kept) :
    ∀ item ∈ events.zip ios, item.1.Plain ∧ item.2.Kept := by
  intro item hitem
  have hev := (List.of_mem_zip hitem).1
  have hio := (List.of_mem_zip hitem).2
  cases h with
  | append => exact ⟨plain_batch (.push _ _ _) _ hev, hkept _ hio⟩
  | replay => exact ⟨plain_surviving _ _ hev, hkept _ hio⟩

/-- A section that pushes takes in its events where it does not fail. -/
theorem Enters.pushed {events : List LogEvent} {ios : List EventIo} {order : List BufKey}
    {fails : Option String} (h : Enters m s origin p a events ios order fails) :
    (events.zip ios).map Prod.fst = events := by
  have hlen : ios.length = events.length := by
    cases h with
    | append hlen => rw [hlen, batchEvents, List.length_map]
    | replay _ _ hlen => exact hlen
  rw [List.map_fst_zip hlen.ge]

/-- A section that fails only adds to the disk. -/
theorem Progress.secures {l : Locked} {appended accepted : List LogEvent} {err : BufferError}
    (h : Progress m away s.lock l) (hfit : s.disk.Fit) :
    Secures m s origin p (s.leaves l appended accepted (.done (some err))) away := by
  obtain ⟨ops, hdisk, hops, hadds⟩ := h.ops
  have hops : l.ops = ops := hops.trans (List.nil_append _)
  have hdisk : l.disk = s.disk.applyAll ops := hdisk
  refine ⟨?_, fun n => ?_, ?_⟩
  · show Logged m (s.disk.applyAll l.ops) _
    rw [hops, ← hdisk]
    exact h.logged
  · show (s.disk.applyAll (l.ops.take n)).Fit ∧ s.disk.durable m.entries ≤
      (s.disk.applyAll (l.ops.take n)).durable m.entries + 0
    rw [hops, add_zero]
    obtain ⟨hfit', hgrows⟩ := hfit.addsAll (S := m.entries) (hadds.take n)
    exact ⟨hfit', hgrows.durable hfit⟩
  · obtain ⟨-, hgrows⟩ := hfit.addsAll (S := m.entries) hadds
    show s.disk.durable m.entries + 0 ≤ _ + ((s.disk.applyAll l.ops).durable m.entries + 0)
    rw [hops, add_zero, add_zero]
    exact (hgrows.durable hfit).trans (Multiset.le_add_left _ _)

/-- The section that accepts a batch: after its sync the batch is durable. -/
theorem Progress.accepts {l' : Locked} {batch : List LogEvent} {due rest : Buffers}
    {accepted : List LogEvent} (h : Progress m away s.lock l') (hfit : s.disk.Fit)
    (hlogged : Logged m s.disk (s.buffers ++ away)) (hclean : ∀ e ∈ l'.buffers, Clean e)
    (hheld : held m.lib l'.buffers = held m.lib s.buffers + (batch : Multiset LogEvent))
    (hperm : (due ++ rest).Perm l'.buffers) (hbatch : origin.batch = batch) :
    Secures m s origin p (s.leaves { l' with buffers := rest } batch accepted
      (.flushTaken due .finish)) away := by
  obtain ⟨ops, hdisk, hops, hadds⟩ := h.ops
  have hops : l'.ops = ops := hops.trans (List.nil_append _)
  have hdisk : l'.disk = s.disk.applyAll ops := hdisk
  refine ⟨?_, fun n => ?_, ?_⟩
  · show Logged m (s.disk.applyAll l'.ops) (rest ++ (due ++ away))
    rw [hops, ← hdisk, ← List.append_assoc]
    exact h.logged.perm ((hperm.symm.trans List.perm_append_comm).append_right away)
  · show (s.disk.applyAll (l'.ops.take n)).Fit ∧ s.disk.durable m.entries ≤
      (s.disk.applyAll (l'.ops.take n)).durable m.entries + 0
    rw [hops, add_zero]
    obtain ⟨hfit', hgrows⟩ := hfit.addsAll (S := m.entries) (hadds.take n)
    exact ⟨hfit', hgrows.durable hfit⟩
  · have hbefore := hlogged.durable_le
    have hafter := h.logged.le_durable hclean
    rw [hheld, h.outside] at hafter
    have howed : Call.owed ⟨origin, .flushTaken due .finish⟩ = (batch : Multiset LogEvent) := by
      rw [← hbatch]
      rfl
    show s.disk.durable m.entries + Call.owed ⟨origin, .flushTaken due .finish⟩ ≤
      Call.owed ⟨origin, p⟩ + ((s.disk.applyAll l'.ops).durable m.entries + 0)
    rw [howed, hops, ← hdisk, add_zero]
    calc s.disk.durable m.entries + (batch : Multiset LogEvent)
        ≤ held m.lib s.buffers + S4Logs.outside m s.disk s.buffers + (batch : Multiset LogEvent) :=
          add_le_add_left hbefore _
      _ = held m.lib s.buffers + (batch : Multiset LogEvent) + S4Logs.outside m s.disk s.buffers := by
          abel
      _ ≤ l'.disk.durable m.entries := hafter
      _ ≤ _ := Multiset.le_add_left _ _

/-- The section of a replay: what the old segments had is durable in new ones before the
first of them is removed. -/
theorem Progress.replays {l' : Locked} {due rest : Buffers} {old : List DiskOp}
    {pushed accepted : List LogEvent} (h : Progress m [] s.lock l') (hfit : s.disk.Fit)
    (hnone : s.buffers = []) (hclean : ∀ e ∈ l'.buffers, Clean e)
    (hheld : s.disk.durable m.entries ≤ held m.lib l'.buffers)
    (hperm : (due ++ rest).Perm l'.buffers)
    (hold : ∀ op ∈ old, ∃ seg ∈ scanDir m.entries s.disk, op = .remove seg.name) :
    Secures m s .replay .begin (s.leaves ({ l' with buffers := rest }.io old) pushed accepted
      (.flushTaken due .finish)) [] := by
  obtain ⟨ops, hdisk, hops, hadds⟩ := h.ops
  have hops : l'.ops = ops := hops.trans (List.nil_append _)
  have hdisk : l'.disk = s.disk.applyAll ops := hdisk
  have hnames : ∀ op ∈ old, ∃ n, op = .remove n ∧ some n ∉ l'.buffers.map segName := by
    intro op hop
    obtain ⟨seg, hseg, rfl⟩ := hold op hop
    refine ⟨seg.name, rfl, fun hmem => ?_⟩
    rcases h.names _ hmem with hmem | hfresh
    · have hmem : some seg.name ∈ s.buffers.map segName := hmem
      rw [hnone] at hmem
      cases hmem
    · exact hfresh (mem_keys_of_scan hseg)
  have hlogged : Logged m l'.disk l'.buffers := by
    have hlogged := h.logged
    rwa [List.append_nil] at hlogged
  -- the new segments alone have all that was durable
  have hall : ∀ removed : List DiskOp, (∀ op ∈ removed, op ∈ old) →
      Logged m (l'.disk.applyAll removed) l'.buffers ∧
        s.disk.durable m.entries ≤ (l'.disk.applyAll removed).durable m.entries := by
    intro removed hremoved
    have hlater := hlogged.removes fun op hop => hnames op (hremoved op hop)
    have hnil : Logged m (l'.disk.applyAll removed) (l'.buffers ++ []) := by
      rwa [List.append_nil]
    exact ⟨hlater, hheld.trans ((Multiset.le_add_right _ _).trans (hnil.le_durable hclean))⟩
  have happly : ∀ removed : List DiskOp,
      s.disk.applyAll (l'.ops ++ removed) = l'.disk.applyAll removed := fun removed => by
    rw [Disk.applyAll_append, hops, hdisk]
  obtain ⟨hlater, hkept⟩ := hall old fun _ hop => hop
  refine ⟨?_, fun n => ?_, ?_⟩
  · show Logged m (s.disk.applyAll (l'.ops ++ old)) (rest ++ (due ++ []))
    rw [happly, List.append_nil]
    exact hlater.perm (hperm.symm.trans List.perm_append_comm)
  · show (s.disk.applyAll ((l'.ops ++ old).take n)).Fit ∧ s.disk.durable m.entries ≤
      (s.disk.applyAll ((l'.ops ++ old).take n)).durable m.entries + 0
    rw [add_zero, List.take_append]
    by_cases hn : n ≤ l'.ops.length
    · rw [Nat.sub_eq_zero_of_le hn, List.take_zero, List.append_nil, hops]
      obtain ⟨hfit', hgrows⟩ := hfit.addsAll (S := m.entries) (hadds.take n)
      exact ⟨hfit', hgrows.durable hfit⟩
    · rw [List.take_of_length_le (Nat.le_of_not_le hn), happly]
      obtain ⟨hcut, hkept'⟩ := hall (old.take (n - l'.ops.length)) fun _ hop =>
        List.mem_of_mem_take hop
      exact ⟨hcut.fit, hkept'⟩
  · show s.disk.durable m.entries + 0 ≤
      0 + ((s.disk.applyAll (l'.ops ++ old)).durable m.entries + 0)
    rw [add_zero, add_zero, zero_add, happly]
    exact hkept

/-- What a section or an answer of a call does to the disk. A replay starts with nothing
buffered. -/
theorem CallMove.secures (hdir : m.cfg.walDir ≠ none) (hs : AllSound m.lib s.buffers)
    (hp : p.Sound m) (h : Logged m s.disk (s.buffers ++ (p.bufs ++ away))) (hkept : a.Kept)
    (hreplay : origin = .replay → p = .begin → s.buffers = [] ∧ away = [])
    (hmove : CallMove m s origin p a e) : Secures m s origin p e away := by
  have hsection : ∀ {events : List LogEvent} {ios : List EventIo} {order : List BufKey}
      {fails : Option String} {l : Locked} {pushed : List LogEvent} {err : Option BufferError},
      Enters m s origin p a events ios order fails →
      m.pushAll s.lock (events.zip ios) = (l, pushed, err) → Progress m away s.lock l := by
    intro events ios order fails l pushed err henters hpush
    rw [henters.bufs, List.nil_append] at h
    exact pushAll_progress hdir (henters.kept hkept) hs h hpush
  cases hmove with
  | @pass p p' a hpass =>
    refine .of_idle ?_ rfl hpass.owed
    show Logged m s.disk (s.buffers ++ (p'.bufs ++ away))
    rw [hpass.bufs]
    exact h
  | take due rest after hperm hbatch =>
    refine .of_idle (e := { s.goes (.flushTaken due after) with buffers := rest }) ?_ rfl ?_
    · show Logged m s.disk (rest ++ (due ++ away))
      rw [← List.append_assoc]
      exact h.perm ((hperm.symm.trans List.perm_append_comm).append_right away)
    · refine le_of_eq ?_
      cases after with
      | recheck => rfl
      | finish => rw [Call.owed_of_batch (hbatch rfl), Call.owed_of_batch (hbatch rfl)]
  | pushFails henters hpush => exact (hsection henters hpush).secures h.fit
  | syncFails henters hpush hsync =>
    have hpushed := hsection henters hpush
    exact (hpushed.trans (Progress.sync hpushed.logged hsync).1).secures h.fit
  | @accept p a events ios order fails l l' pushed old due rest henters hpush hsync hperm hold hnew =>
    have hpushed := hsection henters hpush
    obtain ⟨hsynced, hclean⟩ := Progress.sync hpushed.logged hsync
    obtain ⟨hsound, hall, hheld⟩ := pushAll_spec (l := s.lock) hs hpush
    obtain rfl : pushed = events := (hall rfl).trans henters.pushed
    have hheld : held m.lib l'.buffers = held m.lib s.buffers + (pushed : Multiset LogEvent) :=
      (sync_spec hsound hsync).2.trans hheld
    cases henters with
    | append =>
      obtain rfl := hnew nofun
      rw [Locked.io_nil]
      exact (hpushed.trans hsynced).accepts h.fit h (hclean rfl) hheld hperm rfl
    | replay =>
      obtain ⟨hnone, rfl⟩ := hreplay rfl rfl
      refine (hpushed.trans hsynced).replays h.fit hnone (hclean rfl) ?_ hperm hold
      rw [hheld, survivingEvents_eq]
      exact h.fit.durable_le_scan.trans (Multiset.le_add_left _ _)
  | @retire key buf rest err after uuid io hencode =>
    have hperm : (s.buffers ++ ((key, buf) :: rest ++ away)).Perm
        ((key, buf) :: (s.buffers ++ (rest ++ away))) := List.perm_middle
    obtain ⟨hlogged, hcut⟩ := (h.perm hperm).retire io
    have hzero : bufEvents m.lib (key, buf) = 0 := bufEvents_empty (hp (key, buf) List.mem_cons_self) hencode
    rw [hzero] at hcut
    refine ⟨hlogged, hcut, ?_⟩
    have hfull := (hcut (buf.retire io).length).2
    rw [List.take_length] at hfull
    rw [add_comm]
    exact add_le_add le_rfl hfull
  | @putNext key buf loc chunk stage stage' f =>
    exact .of_idle (e := { s.goes (.put key buf loc chunk stage' f) with
      objects := if stage = .data then [(loc, chunk)] else [] }) h rfl le_rfl
  | @putDone key buf loc chunk stage f etag io receipt =>
    have hperm : (s.buffers ++ ((key, buf) :: f.rest ++ away)).Perm
        ((key, buf) :: (s.buffers ++ (f.rest ++ away))) := List.perm_middle
    obtain ⟨hlogged, hcut⟩ := (h.perm hperm).retire io
    rw [← chunkEvents_encoded hp.1 hp.2.1, ← chunksEvents_singleton] at hcut
    refine ⟨hlogged, hcut, ?_⟩
    have hfull := (hcut (buf.retire io).length).2
    rw [List.take_length] at hfull
    rw [add_comm]
    exact add_le_add le_rfl hfull
  | @reinsert key buf chunk err f =>
    refine .of_idle (e := { s.goes (.flush { f with firstErr := f.firstErr.or (some err) }) with
      buffers := m.reinsert s.buffers key buf chunk
      lastFlushOk := false }) ?_ rfl le_rfl
    exact Logged.reinsert h

/-! ## The invariant -/

/-- The buffers that calls hold. -/
def callBufs (calls : List (Nat × Call)) : Buffers := calls.flatMap fun c => c.2.phase.bufs

/-- What is asked of the disk: a write that fails writes nothing, the entry of a new segment
is durable once its directory is synced, and a crash tears only what was not synced. -/
def SafeDisk (m : BufferManager) (s : Gateway) : GatewayLabel → Prop
  | .act _ a => a.Kept
  | .crash during ops _ after => (∀ d ∈ during, d.2.Kept) ∧ TearLaw (s.diskAt m during ops) after
  | _ => True

/-- Every buffer has its segment, a replay runs alone, and what was acknowledged and what is
owed is stored or durable. -/
structure Secured (m : BufferManager) (s : Gateway) : Prop where
  sound : s.Sound m
  logged : Logged m s.disk (s.buffers ++ callBufs s.calls)
  alone : ∀ c ∈ s.calls, c.2.origin = .replay →
    s.calls = [c] ∧ s.mode ≠ .serving ∧ (c.2.phase = .begin → s.buffers = [])
  account : (s.acked : Multiset LogEvent) + s.owed ≤ s.stored m + s.disk.durable m.entries

theorem callBufs_remove {id : Nat} {c : Call} {calls rest : List (Nat × Call)}
    (h : Assoc.remove id calls = some (c, rest)) :
    (callBufs calls).Perm (c.phase.bufs ++ callBufs rest) :=
  (Assoc.remove_perm h).flatMap_right _

theorem callBufs_insert {id : Nat} {c : Call} (c' : Call) {calls rest : List (Nat × Call)}
    (h : Assoc.remove id calls = some (c, rest)) :
    (callBufs (Assoc.insert id c' calls)).Perm (c'.phase.bufs ++ callBufs rest) :=
  (Assoc.insert_perm c' h).flatMap_right _

/-- A section of a call, with the buffers of the other calls. -/
theorem Secured.secures {id : Nat} {c : Call} {rest : List (Nat × Call)}
    (hdir : m.cfg.walDir ≠ none) (h : Secured m s)
    (hremove : Assoc.remove id s.calls = some (c, rest)) (hkept : a.Kept)
    (hmove : CallMove m s c.origin c.phase a e) :
    Secures m s c.origin c.phase e (callBufs rest) := by
  have hmem : (id, c) ∈ s.calls :=
    (Assoc.remove_perm hremove).mem_iff.mpr List.mem_cons_self
  refine hmove.secures hdir h.sound.buffers (h.sound.calls _ hmem)
    (h.logged.perm ((callBufs_remove hremove).append_left _)) hkept fun horigin hbegin => ?_
  exact ⟨(h.alone _ hmem horigin).2.2 hbegin, by rw [Gateway.Alone.no_others h.alone hremove horigin]; rfl⟩

/-- What calls owe when one of them is gone. -/
theorem owed_remove {id : Nat} {c : Call} {rest : List (Nat × Call)}
    (hremove : Assoc.remove id s.calls = some (c, rest)) :
    s.owed = c.owed + Assoc.total (fun c : Nat × Call => c.2.owed) rest :=
  Assoc.total_remove hremove

/-- A call that is gone leaves the buffers of the others as they were. -/
theorem Secured.ended {id : Nat} {c : Call} {rest : List (Nat × Call)} (h : Secured m s)
    (hremove : Assoc.remove id s.calls = some (c, rest)) :
    Logged m s.disk (s.buffers ++ callBufs rest) := by
  refine (h.logged.perm ((callBufs_remove hremove).append_left _)).sublist ?_
  exact (List.sublist_append_right _ _).append_left _

/-- What it owed is no longer asked for. -/
theorem Secured.account_ended {id : Nat} {c : Call} {rest : List (Nat × Call)} (h : Secured m s)
    (hremove : Assoc.remove id s.calls = some (c, rest)) :
    (s.acked : Multiset LogEvent) + Assoc.total (fun c : Nat × Call => c.2.owed) rest ≤
      s.stored m + s.disk.durable m.entries := by
  have haccount := h.account
  rw [owed_remove hremove] at haccount
  exact (add_le_add_right (Multiset.le_add_left _ _) _).trans haccount

theorem Gateway.start_secured : Secured m Gateway.start where
  sound := Gateway.start_sound
  logged := .nil ⟨List.nodup_nil, fun _ he => absurd he List.not_mem_nil,
    fun _ he => absurd he List.not_mem_nil⟩
  alone _ hc := absurd hc List.not_mem_nil
  account := le_rfl

/-- The step lemma. -/
theorem Secured.step {l : GatewayLabel} (hdir : m.cfg.walDir ≠ none) (h : Secured m s)
    (hsafe : SafeDisk m s l) (hstep : gatewayStep m s l = some t) : Secured m t := by
  have hsound := h.sound.step hstep
  have halone : t.Alone := Gateway.Alone.step h.alone hstep
  have hacked : (s.acked : Multiset LogEvent) ≤ s.stored m + s.disk.durable m.entries :=
    (Multiset.le_add_right _ _).trans h.account
  cases gatewayStep_move hstep with
  | boot hdown =>
    refine ⟨hsound, .nil h.logged.fit, halone, ?_⟩
    show (s.acked : Multiset LogEvent) + 0 ≤ _
    rw [add_zero]
    exact hacked
  | @call id origin hserving _ horigin =>
    refine ⟨hsound, ?_, halone, ?_⟩
    · show Logged m s.disk (s.buffers ++ callBufs (s.calls ++ [(id, ⟨origin, .begin⟩)]))
      rw [callBufs, List.flatMap_append]
      exact h.logged.perm (by rw [callBufs]; exact .of_eq (by simp [CallPhase.bufs]))
    · show (s.acked : Multiset LogEvent) +
        Assoc.total (fun c : Nat × Call => c.2.owed) (s.calls ++ [(id, ⟨origin, .begin⟩)]) ≤ _
      rw [Assoc.total_append]
      show (s.acked : Multiset LogEvent) + (s.owed + 0) ≤ _
      rw [add_zero]
      exact h.account
  | @act id a c e hget hmove =>
    obtain ⟨rest, hremove⟩ := Assoc.get?_eq_some.mp hget
    have hsecures := h.secures hdir hremove hsafe hmove
    refine ⟨hsound, ?_, halone, ?_⟩
    · exact hsecures.logged.perm ((callBufs_insert ⟨c.origin, e.phase⟩ hremove).symm.append_left _)
    · have howed : (s.commit id c.origin e).owed + c.owed = s.owed + Call.owed ⟨c.origin, e.phase⟩ :=
        Assoc.total_insert (f := fun c : Nat × Call => c.2.owed) ⟨c.origin, e.phase⟩ hget
      have hstored : (s.commit id c.origin e).stored m =
          s.stored m + chunksEvents m.lib e.chunks := chunksEvents_append _ _ _
      refine le_of_add_le_add_right (a := c.owed) ?_
      show (s.acked : Multiset LogEvent) + (s.commit id c.origin e).owed + c.owed ≤
        (s.commit id c.origin e).stored m + (s.disk.applyAll e.ops).durable m.entries + c.owed
      rw [add_assoc, howed, hstored]
      calc (s.acked : Multiset LogEvent) + (s.owed + Call.owed ⟨c.origin, e.phase⟩)
          = (s.acked : Multiset LogEvent) + s.owed + Call.owed ⟨c.origin, e.phase⟩ := by abel
        _ ≤ s.stored m + s.disk.durable m.entries + Call.owed ⟨c.origin, e.phase⟩ :=
            add_le_add_left h.account _
        _ = s.stored m + (s.disk.durable m.entries + Call.owed ⟨c.origin, e.phase⟩) := by abel
        _ ≤ s.stored m + (c.owed + ((s.disk.applyAll e.ops).durable m.entries +
              chunksEvents m.lib e.chunks)) := add_le_add_right hsecures.owed _
        _ = _ := by abel
  | served hremove => exact ⟨hsound, h.ended hremove, halone, h.account_ended hremove⟩
  | unserved =>
    refine ⟨hsound, .nil h.logged.fit, halone, ?_⟩
    show (s.acked : Multiset LogEvent) + 0 ≤ _
    rw [add_zero]
    exact hacked
  | @acked id origin rest _ hremove =>
    refine ⟨hsound, h.ended hremove, halone, ?_⟩
    have haccount := h.account
    rw [owed_remove hremove] at haccount
    refine le_trans (le_of_eq ?_) haccount
    show ((s.acked ++ origin.batch : List LogEvent) : Multiset LogEvent) + _ = _
    rw [← Multiset.coe_add, add_assoc]
    rfl
  | refused _ hremove => exact ⟨hsound, h.ended hremove, halone, h.account_ended hremove⟩
  | drop hremove => exact ⟨hsound, h.ended hremove, halone, h.account_ended hremove⟩
  | @crash during ops landed after objects chunks _ hduring hnone =>
    have hat : (s.diskAt m during ops).Fit ∧ s.disk.durable m.entries ≤
        (s.diskAt m during ops).durable m.entries + chunksEvents m.lib chunks := by
      cases during with
      | none => exact ⟨h.logged.fit, Multiset.le_add_right _ _⟩
      | some d =>
        obtain ⟨c, e, hget, hmove, heffect, rfl⟩ := hduring d rfl
        obtain ⟨rest, hremove⟩ := Assoc.get?_eq_some.mp hget
        unfold Gateway.diskAt
        rw [Option.bind_some, heffect]
        exact (h.secures hdir hremove (hsafe.1 d rfl) hmove).cut ops
    obtain ⟨hfit, hdurable⟩ := hat.1.crashed (S := m.entries) hsafe.2
    refine ⟨hsound, .nil hfit, halone, ?_⟩
    show (s.acked : Multiset LogEvent) + 0 ≤
      chunksEvents m.lib (s.chunks ++ chunks) + (Disk.crashed after).durable m.entries
    rw [add_zero, chunksEvents_append]
    calc (s.acked : Multiset LogEvent) ≤ s.stored m + s.disk.durable m.entries := hacked
      _ ≤ s.stored m + ((s.diskAt m during ops).durable m.entries + chunksEvents m.lib chunks) :=
          add_le_add_right hat.2 _
      _ ≤ s.stored m + ((Disk.crashed after).durable m.entries + chunksEvents m.lib chunks) :=
          add_le_add_right (add_le_add_left hdurable _) _
      _ = _ := by
          unfold Gateway.stored
          abel

/-- What a client was told is accepted is in a chunk that was stored, or on an intact line of
the synced part of a segment, as often as it was acknowledged. -/
theorem acked_survives (m : BufferManager) (hdir : m.cfg.walDir ≠ none) {s : Gateway}
    (run : LTS.Reaches (gatewayStep m) (SafeDisk m) Gateway.start s) :
    (s.acked : Multiset LogEvent) ≤ s.stored m + s.disk.durable m.entries ∧
      ∀ ev ∈ s.acked, ev ∈ s.stored m ∨ ∃ e ∈ s.disk.files, IsSegment e.1 ∧
        ∃ entry ∈ m.entries.intact (e.2.data.take e.2.synced), entry.event = ev := by
  have h : Secured m s := run.invariant Gateway.start_secured
    fun _ _ _ h hsafe hstep => h.step hdir hsafe hstep
  have hle : (s.acked : Multiset LogEvent) ≤ s.stored m + s.disk.durable m.entries :=
    (Multiset.le_add_right _ _).trans h.account
  refine ⟨hle, fun ev hev => ?_⟩
  refine (Multiset.mem_add.mp (Multiset.mem_of_le hle (Multiset.mem_coe.mpr hev))).imp_right ?_
  intro hdurable
  obtain ⟨e, he, hmem⟩ := Assoc.mem_total.mp hdurable
  obtain ⟨entry, hentry, heq⟩ := List.mem_map.mp (Multiset.mem_coe.mp hmem)
  exact ⟨e, he, h.logged.fit.names e (List.mem_append_left _ he), entry, hentry, heq⟩

instance TearLaw.decidable (d : Disk) (after : List (String × Bytes)) :
    Decidable (TearLaw d after) :=
  decidable_of_iff ((Assoc.keys after).Nodup ∧
      (∀ e ∈ d.files, e.2.linked = true → ∃ e' ∈ after, e'.1 = e.1 ∧
        e.2.data.take e.2.synced <+: e'.2 ∧ e'.2.length ≤ e.2.data.length) ∧
      ∀ e ∈ after, ∃ e' ∈ d.files ++ d.unlinked, e'.1 = e.1 ∧
        e'.2.data.take e'.2.synced <+: e.2 ∧ e.2.length ≤ e'.2.data.length) (by
    constructor
    · rintro ⟨hnodup, hkept, horigin⟩
      refine ⟨hnodup, fun e he hlinked => ?_, fun e he => ?_⟩
      · obtain ⟨⟨n, b⟩, hb, rfl, hrest⟩ := hkept e he hlinked
        exact ⟨b, hb, hrest⟩
      · obtain ⟨⟨n, f⟩, hf, rfl, hrest⟩ := horigin e he
        exact ⟨f, hf, hrest⟩
    · rintro ⟨hnodup, hkept, horigin⟩
      refine ⟨hnodup, fun e he hlinked => ?_, fun e he => ?_⟩
      · obtain ⟨b, hb, hrest⟩ := hkept e he hlinked
        exact ⟨(e.1, b), hb, rfl, hrest⟩
      · obtain ⟨f, hf, hrest⟩ := horigin e he
        exact ⟨(e.1, f), hf, rfl, hrest⟩)

instance EventIo.Kept.decidable (io : EventIo) : Decidable io.Kept :=
  inferInstanceAs (Decidable (_ ∧ _))

instance CallAct.Kept.decidable : ∀ a : CallAct, Decidable a.Kept
  | .append _ ios _ => inferInstanceAs (Decidable (∀ io ∈ ios, io.Kept))
  | .replay _ ios _ _ => inferInstanceAs (Decidable (∀ io ∈ ios, io.Kept))
  | .reserve _ => inferInstanceAs (Decidable True)
  | .recheck => inferInstanceAs (Decidable True)
  | .take _ _ => inferInstanceAs (Decidable True)
  | .flushNext _ _ => inferInstanceAs (Decidable True)
  | .flushed => inferInstanceAs (Decidable True)
  | .put _ _ => inferInstanceAs (Decidable True)
  | .reinsert => inferInstanceAs (Decidable True)

instance SafeDisk.decidable (m : BufferManager) (s : Gateway) : ∀ l, Decidable (SafeDisk m s l)
  | .act _ a => inferInstanceAs (Decidable a.Kept)
  | .crash during ops _ after =>
    inferInstanceAs (Decidable ((∀ d ∈ during, d.2.Kept) ∧ TearLaw (s.diskAt m during ops) after))
  | .boot => inferInstanceAs (Decidable True)
  | .call _ _ => inferInstanceAs (Decidable True)
  | .reply _ => inferInstanceAs (Decidable True)
  | .drop _ _ => inferInstanceAs (Decidable True)

namespace Concrete

/-- The line of an event of the first day. -/
def dayLine (message : String) : Bytes := WalSegment.line entries {
  logGroup := "/g"
  timestamp := 5
  stream := "s"
  message := message
  ingestionTime := none }

/-- A segment of the first day. -/
def daySegment (uuid : String) : String := WalSegment.fileName "/g" "1970-01-01" uuid

end Concrete

open Concrete in
/-- A flush fails, the process crashes with an unsynced line half-way on the disk, and crashes
again in the replay, when the old segment is just removed. -/
theorem acked_survives_crashes : ∃ s : Gateway, s.acked.length = 1 ∧
    (s.acked : Multiset LogEvent) ≤ s.stored (gateway (some "/wal")) + s.disk.durable entries ∧
      ∀ ev ∈ s.acked, ev ∈ s.stored (gateway (some "/wal")) ∨ ∃ e ∈ s.disk.files, IsSegment e.1 ∧
        ∃ entry ∈ entries.intact (e.2.data.take e.2.synced), entry.event = ev := by
  obtain ⟨s, hreach, hcheck⟩ := LTS.replay_spec (by decide +kernel :
    LTS.replay (gatewayStep (gateway (some "/wal"))) (SafeDisk (gateway (some "/wal")))
      Gateway.start (started ++ pushed 1 [input 0 "a"] [io "u1"] ++
        [.call 2 .flushAll, .act 2 (.take [] 0), .act 2 (.flushNext "x" deleted),
          .act 2 (.put none deleted), .act 2 .reinsert,
          .call 3 (.push "/g" "s" [input 0 "b"]), .act 3 (.reserve []),
          .crash (some (3, .append [] [io "u2"] none)) 1 []
            [(daySegment "u1", dayLine "a" ++ (dayLine "b").take 20)],
          .boot, .crash (some (0, .replay [] [io "u3"] none [])) 5 []
            [(daySegment "u3", dayLine "a")],
          .boot, .act 0 (.replay [] [io "u4"] none []), .act 0 .flushed, .reply 0])
      (fun s => s.acked.length == 1) = true)
  exact ⟨s, eq_of_beq hcheck, acked_survives (gateway (some "/wal")) (by decide) hreach⟩

end S4Logs

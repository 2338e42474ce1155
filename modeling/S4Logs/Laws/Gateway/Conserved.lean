import S4Logs.Gateway.Concrete
import S4Logs.Laws.Gateway.Rule

/-!
# Conservation without a log

Without a log no buffer has a segment, so no section under the lock can fail, every
buffer of a failed flush comes back, and what was accepted is at every moment in the
map, with a call, or in a stored chunk, each event once.
-/

namespace S4Logs

variable {m : BufferManager} {s t : Gateway}

/-! ## Sections that cannot fail -/

/-- No buffer has a segment. -/
def Unlogged (_ : BufKey) (buf : Buf) : Prop := buf.wal = none

theorem unlogged_rule (hwal : m.cfg.walDir = none) : BufRule m Unlogged where
  fresh _ _ _ _ hnone := hnone hwal
  push _ _ _ _ _ h := h
  segment _ _ _ _ hseg h := by
    rw [show _ = none from h] at hseg
    cases hseg
  merge _ _ _ _ _ _ _ _ h _ := h
  clock _ _ _ _ h := h

/-- Without a log and with compression that works, a push does not fail. -/
theorem pushOne_ok {l : Locked} (hwal : m.cfg.walDir = none) (total : m.lib.zstd.Total)
    (hsound : AllSound m.lib l.buffers) (h : AllBufs Unlogged l.buffers) (logGroup : String)
    (rec : LogRecord) (io : EventIo) : (m.pushOne l logGroup rec io).2.2 = none := by
  obtain ⟨l', buf, hopen⟩ : ∃ l' buf, m.openBuf l (logGroup, dateFromTsMs rec.timestamp)
      rec.timestamp io = some (l', buf) := by
    unfold BufferManager.openBuf
    cases hget : Assoc.get? (logGroup, dateFromTsMs rec.timestamp) l.buffers with
    | some buf => exact ⟨l, buf, rfl⟩
    | none =>
      refine ⟨_, _, if_neg ?_⟩
      rw [hwal]
      exact Bool.false_ne_true
  obtain ⟨hsound', hget, -⟩ := openBuf_spec hsound hopen
  have hmem := Assoc.mem_of_get? hget
  have hnone : buf.wal = none := (unlogged_rule hwal).openBuf h hopen _ hmem
  have hline : m.appendLine buf logGroup rec io.torn = (buf, [], true) := by
    simp only [BufferManager.appendLine, hnone]
  obtain ⟨rs, hrs⟩ := hsound' _ hmem
  have hok := hrs.push_ok total rec
  simp only [BufferManager.pushOne, hopen, hline]
  cases hwrite : buf.writer.push m.lib rec with
  | mk writer result =>
    rw [hwrite] at hok
    cases hok
    rfl

theorem pushAll_ok (hwal : m.cfg.walDir = none) (total : m.lib.zstd.Total)
    {items : List (LogEvent × EventIo)} : ∀ {l l' : Locked} {pushed : List LogEvent}
    {err : Option BufferError}, AllSound m.lib l.buffers → AllBufs Unlogged l.buffers →
    m.pushAll l items = (l', pushed, err) → err = none := by
  induction items with
  | nil =>
    intro l l' pushed err _ _ hpush
    cases hpush
    rfl
  | cons item items ih =>
    intro l l' pushed err hsound h hpush
    obtain ⟨ev, io⟩ := item
    have hok := pushOne_ok hwal total hsound h ev.logGroup ev.record io
    cases hone : m.pushOne l ev.logGroup ev.record io with
    | mk l₁ r =>
      obtain ⟨took, e⟩ := r
      rw [hone] at hok
      obtain rfl : e = none := hok
      simp only [BufferManager.pushAll, hone] at hpush
      cases hpush
      exact ih (pushOne_spec hsound hone).1 ((unlogged_rule hwal).pushOne hsound h hone) rfl

theorem syncWal_ok (fails : Option String) : ∀ {bufs : Buffers}, AllBufs Unlogged bufs →
    (syncWal fails bufs).2.2 = true
  | [], _ => rfl
  | (key, buf) :: rest, h => by
    have hnone : buf.wal = none := h _ List.mem_cons_self
    unfold syncWal
    simp only [hnone]
    exact syncWal_ok fails fun e he => h e (List.mem_cons_of_mem _ he)

theorem sync_ok {l l' : Locked} {order : List BufKey} {fails : Option String} {ok : Bool}
    (h : AllBufs Unlogged l.buffers) (hsync : l.sync order fails = (l', ok)) : ok = true := by
  cases hsync
  exact syncWal_ok fails (h.perm (inOrder_perm _ _).symm)

/-! ## The invariant -/

/-- Each call runs to completion and the process does not crash. No buffer a call holds is
larger than a reader decodes. -/
def Undisturbed (s : Gateway) : GatewayLabel → Prop
  | .drop _ _ => False
  | .crash _ _ _ _ => False
  | _ => ∀ c ∈ s.calls, ∀ e ∈ c.2.phase.bufs, e.2.writer.uncompressedLen ≤ maxDecompressedBytes

/-- A buffer that was not stored has a chunk. -/
def CallPhase.HasChunk : CallPhase → Prop
  | .failed _ _ chunk _ _ => chunk.isSome = true
  | _ => True

/-- What calls do where there is no log: a replay ends at once, and what failed was the
sink. -/
def Unlogged.Call (c : Call) : Prop :=
  (c.origin = .replay → c.phase = .begin ∨ c.phase = .done none) ∧ c.phase.HasChunk

structure Conserved (m : BufferManager) (s : Gateway) : Prop where
  sound : s.Sound m
  unlogged : s.Every Unlogged
  calls : ∀ c ∈ s.calls, Unlogged.Call c.2
  ledger : (s.accepted : Multiset LogEvent) = s.inPlay m

/-- What a section or an answer does where there is no log: nothing is taken in that is
not accepted, and the call stays one of these. -/
theorem Unlogged.move {origin : Origin} {p : CallPhase} {a : CallAct} {e : CallEffect}
    (hwal : m.cfg.walDir = none) (total : m.lib.zstd.Total) (hs : AllSound m.lib s.buffers)
    (h : AllBufs Unlogged s.buffers) (hp : p.Sound m) (hcall : Unlogged.Call ⟨origin, p⟩)
    (hmove : CallMove m s origin p a e) :
    e.accepted = e.appended ∧ Unlogged.Call ⟨origin, e.phase⟩ := by
  -- a replay that is past its first phase is over
  have hpast : p ≠ .begin → p ≠ .done none → origin ≠ .replay := fun hbegin hdone heq =>
    (hcall.1 heq).elim hbegin hdone
  cases hmove with
  | pass hpass =>
    refine ⟨rfl, ?_⟩
    cases hpass with
    | room hne => exact ⟨fun heq => absurd heq hne, trivial⟩
    | empty hne => exact ⟨fun heq => absurd heq hne, trivial⟩
    | rejected => exact ⟨fun heq => absurd heq (hpast (by simp) (by simp)), trivial⟩
    | admitted => exact ⟨fun heq => absurd heq (hpast (by simp) (by simp)), trivial⟩
    | nothing => exact ⟨fun _ => .inr rfl, trivial⟩
    | encoded => exact ⟨fun heq => absurd heq (hpast (by simp) (by simp)), trivial⟩
    | @encodeFailed key buf rest err after uuid io e hencode =>
      obtain ⟨rs, hrs⟩ := hp (key, buf) List.mem_cons_self
      rcases hrs.encode with ⟨hnone, -⟩ | ⟨chunk, hsome, -⟩ | ⟨-, htotal⟩
      · rw [hencode] at hnone
        cases hnone
      · rw [hencode] at hsome
        cases hsome
      · exact absurd total htotal
    | @flushed f =>
      refine ⟨fun heq => absurd heq (hpast (by simp) (by simp)), ?_⟩
      show (Gateway.afterFlush origin f).HasChunk
      rcases afterFlush_cases origin f with h | ⟨err, h⟩ <;> rw [h] <;> trivial
    | putFailed => exact ⟨fun heq => absurd heq (hpast (by simp) (by simp)), rfl⟩
  | take due rest after _ _ hne => exact ⟨rfl, fun heq => absurd heq hne, trivial⟩
  | pushFails _ hpush => cases pushAll_ok hwal total (l := s.lock) hs h hpush
  | syncFails _ hpush hsync =>
    cases sync_ok ((unlogged_rule hwal).pushAll (l := s.lock) hs h hpush) hsync
  | accept old due rest henters =>
    refine ⟨rfl, fun heq => ?_, trivial⟩
    cases henters with
    | append => cases heq
    | replay hdir => exact absurd hwal hdir
  | retire => exact ⟨rfl, fun heq => absurd heq (hpast (by simp) (by simp)), trivial⟩
  | putNext => exact ⟨rfl, fun heq => absurd heq (hpast (by simp) (by simp)), trivial⟩
  | putDone => exact ⟨rfl, fun heq => absurd heq (hpast (by simp) (by simp)), trivial⟩
  | reinsert => exact ⟨rfl, fun heq => absurd heq (hpast (by simp) (by simp)), trivial⟩

/-- A step without a disturbance loses no buffer. -/
theorem Conserved.keeps {l : GatewayLabel} (h : Conserved m s) (hok : Undisturbed s l) :
    Keeps s l := by
  cases l with
  | boot => trivial
  | call id origin => trivial
  | act id a =>
    intro c hget
    have hmem := Assoc.mem_of_get? hget
    obtain ⟨origin, phase⟩ := c
    cases phase with
    | failed key buf chunk err f =>
      refine .inr ⟨h.unlogged.calls _ hmem (key, buf) List.mem_cons_self, (h.calls _ hmem).2, ?_⟩
      exact hok _ hmem (key, buf) List.mem_cons_self
    | begin => trivial
    | recheck => trivial
    | append => trivial
    | flush f => trivial
    | put key buf loc chunk stage f => trivial
    | done err => trivial
  | reply id =>
    intro err hget
    rcases (h.calls _ (Assoc.mem_of_get? hget)).1 rfl with hbegin | hdone
    · cases hbegin
    · cases hdone
  | drop id landed => exact hok
  | crash during ops landed after => exact hok

/-- The step lemma. -/
theorem Conserved.step (hwal : m.cfg.walDir = none) (total : m.lib.zstd.Total) {l : GatewayLabel}
    (h : Conserved m s) (hok : Undisturbed s l) (hstep : gatewayStep m s l = some t) :
    Conserved m t := by
  have hrest : ∀ {id : Nat} {c : Call} {calls : List (Nat × Call)},
      Assoc.remove id s.calls = some (c, calls) → ∀ c ∈ calls, Unlogged.Call c.2 :=
    fun hremove c hc => h.calls c ((Assoc.remove_perm hremove).mem_iff.mpr
      (List.mem_cons_of_mem _ hc))
  obtain ⟨new, happended, -, hinplay⟩ := inPlay_step h.sound hstep
  have hledger : t.accepted = s.accepted ++ new →
      (t.accepted : Multiset LogEvent) = t.inPlay m := by
    intro haccepted
    rw [haccepted, ← Multiset.coe_add, h.ledger, hinplay (h.keeps hok)]
  have hnew : t.appended = s.appended → new = [] := fun h =>
    List.append_cancel_left (happended.symm.trans (h.trans (List.append_nil _).symm))
  have hcalls : (∀ c ∈ t.calls, Unlogged.Call c.2) ∧ t.accepted = s.accepted ++ new := by
    cases gatewayStep_move hstep with
    | boot =>
      refine ⟨fun c hc => ?_, by rw [hnew rfl, List.append_nil]; rfl⟩
      rw [List.mem_singleton.mp hc]
      exact ⟨fun _ => .inl rfl, trivial⟩
    | call =>
      refine ⟨fun c hc => ?_, by rw [hnew rfl, List.append_nil]⟩
      rcases List.mem_append.mp hc with hc | hc
      · exact h.calls c hc
      · rw [List.mem_singleton.mp hc]
        exact ⟨fun _ => .inl rfl, trivial⟩
    | @act id a c e hget hmove =>
      have hmem := Assoc.mem_of_get? hget
      obtain ⟨haccepted, hcall⟩ := Unlogged.move hwal total h.sound.buffers h.unlogged.buffers
        (h.sound.calls _ hmem) (h.calls _ hmem) hmove
      have heq : e.appended = new := List.append_cancel_left happended
      refine ⟨fun c hc => ?_, ?_⟩
      · rcases Assoc.mem_insert hc with rfl | hc
        · exact hcall
        · exact h.calls c hc
      · rw [← heq, ← haccepted]
        rfl
    | served hremove => exact ⟨hrest hremove, by rw [hnew rfl, List.append_nil]⟩
    | unserved => exact ⟨fun _ hc => absurd hc List.not_mem_nil, by rw [hnew rfl, List.append_nil]; rfl⟩
    | acked _ hremove => exact ⟨hrest hremove, by rw [hnew rfl, List.append_nil]⟩
    | refused _ hremove => exact ⟨hrest hremove, by rw [hnew rfl, List.append_nil]⟩
    | drop => exact absurd hok not_false
    | crash => exact absurd hok not_false
  exact ⟨h.sound.step hstep, (unlogged_rule hwal).step h.sound h.unlogged hstep, hcalls.1,
    hledger hcalls.2⟩

/-- In every state of a run without a log, the accepted events are those in the map, those
with calls and those in stored chunks. -/
theorem accepted_conserved (m : BufferManager) (hwal : m.cfg.walDir = none)
    (total : m.lib.zstd.Total) {s : Gateway}
    (run : LTS.Reaches (gatewayStep m) Undisturbed Gateway.start s) :
    (s.accepted : Multiset LogEvent) = s.buffered m + s.taken m + s.stored m := by
  have hstart : Conserved m Gateway.start :=
    ⟨Gateway.start_sound, ⟨AllBufs.nil, fun _ hc => absurd hc List.not_mem_nil⟩,
      fun _ hc => absurd hc List.not_mem_nil, rfl⟩
  exact (run.invariant hstart fun _ _ _ h hok hstep => h.step hwal total hok hstep).ledger

instance Undisturbed.decidable (s : Gateway) : ∀ l, Decidable (Undisturbed s l)
  | .drop _ _ => inferInstanceAs (Decidable False)
  | .crash _ _ _ _ => inferInstanceAs (Decidable False)
  | .boot => inferInstanceAs (Decidable (∀ c ∈ s.calls, ∀ e ∈ c.2.phase.bufs, _ ≤ _))
  | .call _ _ => inferInstanceAs (Decidable (∀ c ∈ s.calls, ∀ e ∈ c.2.phase.bufs, _ ≤ _))
  | .act _ _ => inferInstanceAs (Decidable (∀ c ∈ s.calls, ∀ e ∈ c.2.phase.bufs, _ ≤ _))
  | .reply _ => inferInstanceAs (Decidable (∀ c ∈ s.calls, ∀ e ∈ c.2.phase.bufs, _ ≤ _))

open Concrete in
/-- A flush fails while another push makes its key again: the merged buffer is stored by
the next flush. -/
theorem accepted_conserved_merge : ∃ s : Gateway, s.accepted.length = 2 ∧ s.chunks.length = 1 ∧
    (s.accepted : Multiset LogEvent) =
      s.buffered (gateway none) + s.taken (gateway none) + s.stored (gateway none) := by
  obtain ⟨s, hreach, hcheck⟩ := LTS.replay_spec (by decide +kernel :
    LTS.replay (gatewayStep (gateway none)) Undisturbed Gateway.start
      (started ++ pushed 1 [input 0 "a"] [io "u1"] ++
        [.call 2 .flushAll, .act 2 (.take [] 0), .act 2 (.flushNext "x1" deleted),
          .act 2 (.put none deleted)] ++
        pushed 3 [input 0 "b"] [io "u2"] ++
        [.act 2 .reinsert, .act 2 .flushed, .reply 2, .call 4 .flushAll, .act 4 (.take [] 0)] ++
        stored 4 "x2")
      (fun s => s.accepted.length == 2 && s.chunks.length == 1) = true)
  simp only [Bool.and_eq_true, beq_iff_eq] at hcheck
  exact ⟨s, hcheck.1, hcheck.2, accepted_conserved (gateway none) rfl zstd_total hreach⟩

end S4Logs

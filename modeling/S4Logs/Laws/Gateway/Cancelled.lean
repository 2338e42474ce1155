import S4Logs.Laws.Gateway.Durable
import S4Logs.Laws.Gateway.Once

/-!
# A client that goes away

The server drops the future of a request whose client is gone, and with it the buffers that
the request took out of the map. With a log the segments of these buffers stay on the disk.
Without one their events are lost, those that other clients were told are accepted too.

A call that goes away does no harm exactly where it holds nothing but events of its own
batch, which it did not acknowledge yet.
-/

namespace S4Logs

variable {m : BufferManager} {s t : Gateway} {origin : Origin} {p : CallPhase} {a : CallAct}
variable {e : CallEffect}

/-- A section adds to what its call owes at most what a writer took. -/
theorem CallMove.owed (hs : AllSound m.lib s.buffers) (h : CallMove m s origin p a e) :
    Call.owed ⟨origin, e.phase⟩ ≤ Call.owed ⟨origin, p⟩ + (e.appended : Multiset LogEvent) := by
  have hsame : ∀ {x y : Multiset LogEvent}, x ≤ y → x ≤ y + (([] : List LogEvent) : Multiset LogEvent) :=
    fun hle => hle.trans (Multiset.le_add_right _ _)
  cases h with
  | pass hpass => exact hsame hpass.owed
  | take due rest after _ hbatch =>
    refine hsame (le_of_eq ?_)
    cases after with
    | recheck => rfl
    | finish => rw [Call.owed_of_batch (hbatch rfl), Call.owed_of_batch (hbatch rfl)]
  | pushFails => exact Multiset.zero_le _
  | syncFails => exact Multiset.zero_le _
  | accept old due rest henters hpush =>
    obtain ⟨-, hall, -⟩ := pushAll_spec (l := s.lock) hs hpush
    rw [hall rfl, henters.pushed]
    refine (Call.owed_le _).trans ?_
    cases henters with
    | append => exact Multiset.le_add_left _ _
    | replay => exact Multiset.zero_le _
  | retire => exact hsame le_rfl
  | putNext => exact hsame le_rfl
  | putDone => exact hsame le_rfl
  | reinsert => exact hsame le_rfl

/-- Without a log a replay does nothing. -/
theorem CallMove.replay_done (hwal : m.cfg.walDir = none) (h : CallMove m s .replay p a e)
    (hp : p = .begin ∨ p = .done none) : e.phase = .done none := by
  have hphase : ∀ {q : CallPhase}, (q = .begin ∨ q = .done none) → q ≠ .begin → q ≠ .done none →
      e.phase = .done none := fun hq hbegin hdone =>
    (hq.elim (absurd · hbegin) (absurd · hdone))
  cases h with
  | pass hpass =>
    cases hpass with
    | nothing => rfl
    | room hne => exact absurd rfl hne
    | empty hne => exact absurd rfl hne
    | rejected => exact hphase hp nofun nofun
    | admitted => exact hphase hp nofun nofun
    | encoded => exact hphase hp nofun nofun
    | encodeFailed => exact hphase hp nofun nofun
    | flushed => exact hphase hp nofun nofun
    | putFailed => exact hphase hp nofun nofun
  | take _ _ _ _ _ hne => exact absurd rfl hne
  | pushFails henters =>
    cases henters with
    | replay hdir => exact absurd hwal hdir
  | syncFails henters =>
    cases henters with
    | replay hdir => exact absurd hwal hdir
  | accept _ _ _ henters =>
    cases henters with
    | replay hdir => exact absurd hwal hdir
  | retire => exact hphase hp nofun nofun
  | putNext => exact hphase hp nofun nofun
  | putDone => exact hphase hp nofun nofun
  | reinsert => exact hphase hp nofun nofun

/-- No process crashes. Without a log, a call that goes away holds nothing but what it owes,
and a buffer whose flush failed can be put back. With one, the disk does what is asked of it. -/
def KeepsAcked (m : BufferManager) (s : Gateway) : GatewayLabel → Prop
  | .crash _ _ _ _ => False
  | .drop id _ => m.cfg.walDir = none →
    ∀ c ∈ Assoc.get? id s.calls, held m.lib c.phase.bufs ≤ c.owed
  | .act id a => (m.cfg.walDir = none →
    ∀ c ∈ Assoc.get? id s.calls, c.phase.ComesBack s.buffers) ∧ (m.cfg.walDir ≠ none → a.Kept)
  | _ => True

/-- What was acknowledged and what is owed is in the map, with a call, or stored. -/
structure InHand (m : BufferManager) (s : Gateway) : Prop where
  sound : s.Sound m
  replaying : ∀ c ∈ s.calls, c.2.origin = .replay →
    c.2.phase = .begin ∨ c.2.phase = .done none
  account : (s.acked : Multiset LogEvent) + s.owed ≤ s.inPlay m

/-- The call that a step is about. -/
theorem InHand.replaying_step (hwal : m.cfg.walDir = none) (h : InHand m s) {l : GatewayLabel}
    (hstep : gatewayStep m s l = some t) : ∀ c ∈ t.calls, c.2.origin = .replay →
      c.2.phase = .begin ∨ c.2.phase = .done none := by
  have hrest : ∀ {id : Nat} {c : Call} {calls : List (Nat × Call)},
      Assoc.remove id s.calls = some (c, calls) → ∀ c ∈ calls, c.2.origin = .replay →
        c.2.phase = .begin ∨ c.2.phase = .done none :=
    fun hremove c hc => h.replaying c ((Assoc.remove_perm hremove).mem_iff.mpr
      (List.mem_cons_of_mem _ hc))
  cases gatewayStep_move hstep with
  | boot =>
    intro c hc _
    rw [List.mem_singleton.mp hc]
    exact .inl rfl
  | call _ _ hne =>
    intro c hc horigin
    rcases List.mem_append.mp hc with hc | hc
    · exact h.replaying c hc horigin
    · rw [List.mem_singleton.mp hc] at horigin
      exact absurd horigin hne
  | @act id a c e hget hmove =>
    intro c' hc' horigin
    rcases Assoc.mem_insert hc' with rfl | hc'
    · obtain ⟨origin, phase⟩ := c
      obtain rfl : origin = .replay := horigin
      exact .inr (hmove.replay_done hwal (h.replaying _ (Assoc.mem_of_get? hget) rfl))
    · exact h.replaying c' hc' horigin
  | served hremove => exact hrest hremove
  | unserved => exact fun _ hc => absurd hc List.not_mem_nil
  | acked _ hremove => exact hrest hremove
  | refused _ hremove => exact hrest hremove
  | drop hremove => exact hrest hremove
  | crash => exact fun _ hc => absurd hc List.not_mem_nil

/-- The step lemma. -/
theorem InHand.step (hwal : m.cfg.walDir = none) {l : GatewayLabel} (h : InHand m s)
    (hok : KeepsAcked m s l) (hstep : gatewayStep m s l = some t) : InHand m t := by
  refine ⟨h.sound.step hstep, h.replaying_step hwal hstep, ?_⟩
  obtain ⟨new, hnew, -, hkeeps⟩ := inPlay_step h.sound hstep
  have haccount := h.account
  have hgone : ∀ {id : Nat} {c : Call} {rest : List (Nat × Call)},
      Assoc.remove id s.calls = some (c, rest) →
      (s.acked : Multiset LogEvent) + (c.owed + Assoc.total (fun c : Nat × Call => c.2.owed) rest) ≤
        s.inPlay m := fun hremove => by
    rw [← owed_remove hremove]
    exact haccount
  have hless : Keeps s l → (t.acked : Multiset LogEvent) + t.owed ≤ s.inPlay m →
      (t.acked : Multiset LogEvent) + t.owed ≤ t.inPlay m := by
    intro hkeep hle
    rw [hkeeps hkeep]
    exact hle.trans (Multiset.le_add_right _ _)
  cases gatewayStep_move hstep with
  | boot => exact hless trivial ((add_le_add_right (Multiset.zero_le _) _).trans haccount)
  | @call id origin =>
    refine hless trivial (le_trans (le_of_eq ?_) haccount)
    show (s.acked : Multiset LogEvent) +
      Assoc.total (fun c : Nat × Call => c.2.owed) (s.calls ++ [(id, ⟨origin, .begin⟩)]) = _
    rw [Assoc.total_append]
    show (s.acked : Multiset LogEvent) + (s.owed + 0) = _
    rw [add_zero]
  | @act id a c e hget hmove =>
    have hkeep : Keeps s (.act id a) := fun c hget => hok.1 hwal c hget
    have happended : e.appended = new := List.append_cancel_left hnew
    have howed : (s.commit id c.origin e).owed + c.owed = s.owed + Call.owed ⟨c.origin, e.phase⟩ :=
      Assoc.total_insert (f := fun c : Nat × Call => c.2.owed) ⟨c.origin, e.phase⟩ hget
    rw [hkeeps hkeep]
    refine le_of_add_le_add_right (a := c.owed) ?_
    show (s.acked : Multiset LogEvent) + (s.commit id c.origin e).owed + c.owed ≤ _
    rw [add_assoc, howed, ← happended]
    calc (s.acked : Multiset LogEvent) + (s.owed + Call.owed ⟨c.origin, e.phase⟩)
        = (s.acked : Multiset LogEvent) + s.owed + Call.owed ⟨c.origin, e.phase⟩ := by abel
      _ ≤ s.inPlay m + (c.owed + (e.appended : Multiset LogEvent)) :=
          add_le_add haccount (hmove.owed h.sound.buffers)
      _ = _ := by abel
  | served hremove =>
    refine hless (fun err hget => ?_) ((add_le_add_right (Multiset.le_add_left _ _) _).trans
      (hgone hremove))
    rw [Assoc.get?_eq_some.mpr ⟨_, hremove⟩] at hget
    cases hget
  | unserved hremove =>
    rcases h.replaying _ (Assoc.mem_of_get? (Assoc.get?_eq_some.mpr ⟨_, hremove⟩)) rfl with hp | hp
    · cases hp
    · cases hp
  | @acked id origin rest _ hremove =>
    refine hless (fun err hget => ?_) (le_trans (le_of_eq ?_) (hgone hremove))
    · rw [Assoc.get?_eq_some.mpr ⟨_, hremove⟩] at hget
      cases hget
    · show ((s.acked ++ origin.batch : List LogEvent) : Multiset LogEvent) + _ = _
      rw [← Multiset.coe_add, add_assoc]
      rfl
  | refused hne hremove =>
    refine hless (fun err hget => ?_) ((add_le_add_right (Multiset.le_add_left _ _) _).trans
      (hgone hremove))
    rw [Assoc.get?_eq_some.mpr ⟨_, hremove⟩] at hget
    cases hget
    exact hne rfl
  | @drop id landed c rest hremove =>
    -- what is lost with the call is no more than what the call owed
    have hheld := hok hwal c (Assoc.get?_eq_some.mpr ⟨_, hremove⟩)
    have hle := hgone hremove
    refine le_of_add_le_add_right (a := c.owed) ?_
    calc (s.acked : Multiset LogEvent) + Assoc.total (fun c : Nat × Call => c.2.owed) rest + c.owed
        = (s.acked : Multiset LogEvent) +
            (c.owed + Assoc.total (fun c : Nat × Call => c.2.owed) rest) := by abel
      _ ≤ s.inPlay m := hle
      _ = s.buffered m + Assoc.total (fun c : Nat × Call => held m.lib c.2.phase.bufs) rest +
            s.stored m + held m.lib c.phase.bufs := by
          unfold Gateway.inPlay
          rw [taken_remove hremove]
          abel
      _ ≤ _ := add_le_add_right hheld _
  | crash => exact absurd hok not_false

/-- Where a call that goes away holds nothing but what it owes, or where there is a log, what
was acknowledged is still in the map, with another call or stored, or else is on the disk or
stored. -/
theorem drop_keeps_acked (m : BufferManager) {s : Gateway}
    (run : LTS.Reaches (gatewayStep m) (KeepsAcked m) Gateway.start s) :
    (m.cfg.walDir = none →
      (s.acked : Multiset LogEvent) ≤ s.buffered m + s.taken m + s.stored m) ∧
    (m.cfg.walDir ≠ none →
      (s.acked : Multiset LogEvent) ≤ s.stored m + s.disk.durable m.entries) := by
  constructor
  · intro hwal
    have h : InHand m s := run.invariant
      ⟨Gateway.start_sound, fun _ hc => absurd hc List.not_mem_nil, le_rfl⟩
      fun _ _ _ h hok hstep => h.step hwal hok hstep
    exact (Multiset.le_add_right _ _).trans h.account
  · intro hdir
    have hsafe : ∀ s l, KeepsAcked m s l → SafeDisk m s l := by
      intro s l hok
      cases l with
      | act id a => exact hok.2 hdir
      | crash => exact absurd hok not_false
      | boot => trivial
      | call => trivial
      | reply => trivial
      | drop => trivial
    have h : Secured m s := (run.mono hsafe).invariant Gateway.start_secured
      fun _ _ _ h hok hstep => h.step hdir hok hstep
    exact (Multiset.le_add_right _ _).trans h.account

instance CallPhase.ComesBack.decidable (bufs : Buffers) :
    ∀ p : CallPhase, Decidable (p.ComesBack bufs)
  | .failed key buf chunk _ _ => inferInstanceAs (Decidable (key ∉ Assoc.keys bufs ∨
      buf.wal = none ∧ chunk.isSome = true ∧ buf.writer.uncompressedLen ≤ maxDecompressedBytes))
  | .begin => inferInstanceAs (Decidable True)
  | .recheck => inferInstanceAs (Decidable True)
  | .append => inferInstanceAs (Decidable True)
  | .flush _ => inferInstanceAs (Decidable True)
  | .put _ _ _ _ _ _ => inferInstanceAs (Decidable True)
  | .done _ => inferInstanceAs (Decidable True)

instance KeepsAcked.decidable (m : BufferManager) (s : Gateway) : ∀ l, Decidable (KeepsAcked m s l)
  | .crash _ _ _ _ => inferInstanceAs (Decidable False)
  | .drop id _ => inferInstanceAs (Decidable (m.cfg.walDir = none →
      ∀ c ∈ Assoc.get? id s.calls, held m.lib c.phase.bufs ≤ c.owed))
  | .act id a => inferInstanceAs (Decidable ((m.cfg.walDir = none →
      ∀ c ∈ Assoc.get? id s.calls, c.phase.ComesBack s.buffers) ∧ (m.cfg.walDir ≠ none → a.Kept)))
  | .boot => inferInstanceAs (Decidable True)
  | .call _ _ => inferInstanceAs (Decidable True)
  | .reply _ => inferInstanceAs (Decidable True)

/-- Whether a client goes away. -/
def GatewayLabel.isDrop : GatewayLabel → Bool
  | .drop _ _ => true
  | _ => false

namespace Concrete

/-- A gateway without a log that holds no more than one small event. -/
def tight : BufferManager := { gateway none with
  cfg := { (gateway none).cfg with maxBufferedBytes := 100 } }

/-- A gateway without a log that flushes what it buffers at once. -/
def eager : BufferManager := { gateway none with
  cfg := { (gateway none).cfg with flushBytes := 1 } }

/-- A push that has to make room, up to the PUT it then waits for. -/
def makingRoom (id : Nat) (message uuid : String) : List GatewayLabel :=
  [.call id (.push "/g" "s" [input 0 message]), .act id (.reserve []),
    .act id (.flushNext uuid deleted)]

end Concrete

open Concrete in
/-- A client goes away while its own event alone is being stored, and what was acknowledged
before is stored. -/
theorem drop_keeps_acked_own : ∃ s : Gateway, s.acked.length = 1 ∧
    (eager.cfg.walDir = none →
      (s.acked : Multiset LogEvent) ≤ s.buffered eager + s.taken eager + s.stored eager) ∧
    (eager.cfg.walDir ≠ none →
      (s.acked : Multiset LogEvent) ≤ s.stored eager + s.disk.durable eager.entries) := by
  obtain ⟨s, hreach, hcheck⟩ := LTS.replay_spec (by decide +kernel :
    LTS.replay (gatewayStep eager) (KeepsAcked eager) Gateway.start
      (started ++ [.call 1 (.push "/g" "s" [input 0 "a"]), .act 1 (.reserve []),
          .act 1 (.append [] [io "u1"] none)] ++ stored 1 "x1" ++
        [.act 1 .flushed, .reply 1, .call 2 (.push "/g" "s" [input 0 "b"]), .act 2 (.reserve []),
          .act 2 (.append [] [io "u2"] none), .act 2 (.flushNext "x2" deleted), .drop 2 true])
      (fun s => s.acked.length == 1) = true)
  exact ⟨s, eq_of_beq hcheck, drop_keeps_acked eager hreach⟩

open Concrete in
/-- A push makes room by flushing what another client was told is accepted, and its own client
goes away while the PUT is pending. -/
theorem drop_loses_acked : ¬ ∀ m : BufferManager, ∀ s,
    LTS.Reaches (gatewayStep m) (fun s l => l.isDrop = true ∨ KeepsAcked m s l) Gateway.start s →
    (m.cfg.walDir = none →
      (s.acked : Multiset LogEvent) ≤ s.buffered m + s.taken m + s.stored m) ∧
    (m.cfg.walDir ≠ none →
      (s.acked : Multiset LogEvent) ≤ s.stored m + s.disk.durable m.entries) := by
  intro h
  obtain ⟨s, hreach, hcheck⟩ := LTS.replay_spec (by decide +kernel :
    LTS.replay (gatewayStep tight) (fun s l => l.isDrop = true ∨ KeepsAcked tight s l)
      Gateway.start (started ++ pushed 1 [input 0 "a"] [io "u1"] ++ makingRoom 2 "b" "x" ++
        [.drop 2 false])
      (fun s => s.acked.length == 1 && s.buffers.isEmpty && s.calls.isEmpty && s.chunks.isEmpty) =
        true)
  simp only [Bool.and_eq_true, List.isEmpty_iff, beq_iff_eq] at hcheck
  obtain ⟨⟨⟨hacked, hbuffers⟩, hcalls⟩, hchunks⟩ := hcheck
  have hle := Multiset.card_le_card ((h tight s hreach).1 rfl)
  unfold Gateway.buffered Gateway.taken Gateway.stored at hle
  rw [hbuffers, hcalls, hchunks, Multiset.coe_card, hacked] at hle
  exact absurd hle (by decide)

end S4Logs

import S4Logs.Laws.Gateway.Cancelled
import S4Logs.Laws.Gateway.Told

/-!
# While a process goes on

What was acknowledged, by this process or by an earlier one, is in the map, with a call or
stored, once the log is read (`Safeguarded`). A flush of all buffers that no one else fills
again leaves the map empty where no flush fails.
-/

namespace S4Logs

variable {m : BufferManager} {g g' : Gateway} {id : Nat} {c : Call}

/-! ## What was acknowledged -/

/-- The process goes on. A call that goes away holds nothing but what it owes, and a buffer
whose flush failed can be put back. -/
def Gateway.Orderly (m : BufferManager) (g : Gateway) : GatewayLabel → Prop
  | .boot => False
  | .crash _ _ _ _ => False
  | .drop id _ => ∀ c ∈ Assoc.get? id g.calls, held m.lib c.phase.bufs ≤ c.owed
  | .act id _ => ∀ c ∈ Assoc.get? id g.calls, c.phase.ComesBack g.buffers
  | _ => True

/-- Where what was acknowledged is. Before the log is read, some of it is only there; where it
cannot be read, the process is about to exit. -/
inductive Safeguarded (m : BufferManager) (g : Gateway) : Prop
  | unread : g.calls = [(0, ⟨.replay, .begin⟩)] →
      (m.cfg.walDir = none → (g.acked : Multiset LogEvent) ≤ g.stored m) →
      (m.cfg.walDir ≠ none → g.disk.Fit ∧
        (g.acked : Multiset LogEvent) ≤ g.stored m + g.disk.durable m.entries) →
      Safeguarded m g
  | unreadable (err : BufferError) : g.calls = [(0, ⟨.replay, .done (some err)⟩)] →
      Safeguarded m g
  | inPlay : (g.acked : Multiset LogEvent) + g.owed ≤ g.inPlay m → Safeguarded m g
  | down : g.calls = [] → g.mode = .down → Safeguarded m g

/-- Only the call of a push goes away. -/
theorem drop_isPush {landed : Bool} (hstep : gatewayStep m g (.drop id landed) = some g') :
    ∃ c calls, Assoc.remove id g.calls = some (c, calls) ∧ c.origin.isPush = true := by
  simp only [gatewayStep] at hstep
  split at hstep
  next => cases hstep
  next c calls hremove =>
    refine ⟨c, calls, hremove, ?_⟩
    cases horigin : c.origin with
    | push => rfl
    | sweep =>
      rw [horigin] at hstep
      cases hstep
    | flushAll =>
      rw [horigin] at hstep
      cases hstep
    | replay =>
      rw [horigin] at hstep
      cases hstep

/-- A replay that ends at once found no log, or nothing in it. -/
theorem replay_nothing {a : CallAct} {e : CallEffect}
    (h : g.callStep m .replay .begin a = some e) (hphase : e.phase = .done none) :
    m.cfg.walDir = none ∨ scanDir m.entries g.disk = [] := by
  cases a with
  | replay order ios fails undeleted =>
    simp only [Gateway.callStep] at h
    split at h
    next =>
      cases h
      by_contra hsome
      revert hphase
      unfold Gateway.replayWal
      dsimp only
      rw [if_neg hsome]
      split
      next =>
        intro hphase
        cases hphase
      next =>
        split
        all_goals
          intro hphase
          cases hphase
    next => cases h
  | reserve => cases h
  | recheck => cases h
  | append => cases h
  | take => cases h
  | flushNext => cases h
  | flushed => cases h
  | put => cases h
  | reinsert => cases h

/-- The log is read. -/
theorem safeguarded_replayed {a : CallAct} {e : CallEffect} (hs : g.Sound m) (ha : g.Alone)
    (hcalls : g.calls = [(0, ⟨.replay, .begin⟩)])
    (hbare : m.cfg.walDir = none → (g.acked : Multiset LogEvent) ≤ g.stored m)
    (hlogged : m.cfg.walDir ≠ none → g.disk.Fit ∧
      (g.acked : Multiset LogEvent) ≤ g.stored m + g.disk.durable m.entries)
    (heffect : g.callStep m .replay .begin a = some e) :
    Safeguarded m (g.commit 0 .replay e) := by
  have hget : Assoc.get? 0 g.calls = some ⟨.replay, .begin⟩ := by
    rw [hcalls]
    rfl
  have hinto : (g.commit 0 .replay e).calls = [(0, ⟨.replay, e.phase⟩)] := by
    show Assoc.insert 0 _ g.calls = _
    rw [hcalls]
    rfl
  have howed : (g.commit 0 .replay e).owed = 0 := by
    rw [Gateway.owed, hinto, Assoc.total_cons, Assoc.total_nil, add_zero]
    exact Call.owed_of_batch rfl
  have hplay : (g.commit 0 .replay e).inPlay m = g.stored m + (e.appended : Multiset LogEvent) := by
    obtain ⟨-, -, hbegin⟩ := ha (0, ⟨.replay, .begin⟩) (by rw [hcalls]; exact List.mem_cons_self) rfl
    have hstep : gatewayStep m g (.act 0 a) = some (g.commit 0 .replay e) := by
      simp only [gatewayStep, hget, heffect, Option.map_some]
    obtain ⟨new, hnew, -, hkeeps⟩ := inPlay_step hs hstep
    obtain rfl : e.appended = new := List.append_cancel_left hnew
    have hkeep : Keeps g (.act 0 a) := fun c hc => by
      rw [hget] at hc
      cases hc
      trivial
    rw [hkeeps hkeep]
    unfold Gateway.inPlay Gateway.buffered Gateway.taken
    rw [hbegin rfl, hcalls]
    simp [held, CallPhase.bufs]
  have hread (hle : (g.acked : Multiset LogEvent) ≤ g.stored m + (e.appended : Multiset LogEvent)) :
      Safeguarded m (g.commit 0 .replay e) := by
    refine .inPlay ?_
    rw [howed, hplay, add_zero]
    exact hle
  have hphase : ∀ p : CallPhase, e.phase = p →
      (g.commit 0 .replay e).calls = [(0, ⟨.replay, p⟩)] := fun p hp => hp ▸ hinto
  cases callStep_move heffect with
  | pass hpass =>
    cases hpass with
    | nothing =>
      refine hread ?_
      rcases replay_nothing heffect rfl with hwal | hscan
      · exact (hbare hwal).trans (Multiset.le_add_right _ _)
      · by_cases hwal : m.cfg.walDir = none
        · exact (hbare hwal).trans (Multiset.le_add_right _ _)
        · obtain ⟨hfit, hle⟩ := hlogged hwal
          refine hle.trans (add_le_add_right ?_ _)
          have hdurable : g.disk.durable m.entries ≤ _ := hfit.durable_le_scan
          rw [hscan] at hdurable
          exact hdurable
    | room hne => exact absurd rfl hne
    | empty hne => exact absurd rfl hne
  | take _ _ _ _ _ hne => exact absurd rfl hne
  | @pushFails _ _ _ _ _ _ _ _ err => exact .unreadable err hinto
  | syncFails => exact .unreadable .wal hinto
  | @accept _ _ events _ _ _ _ _ pushed _ _ _ henters hpush =>
    refine hread ?_
    obtain ⟨-, hall, -⟩ := pushAll_spec (l := g.lock) hs.buffers hpush
    have hpushed : pushed = events := (hall rfl).trans henters.pushed
    cases henters with
    | replay hdir =>
      obtain ⟨hfit, hle⟩ := hlogged hdir
      refine hle.trans (add_le_add_right ?_ _)
      show _ ≤ (pushed : Multiset LogEvent)
      rw [hpushed, survivingEvents_eq]
      exact hfit.durable_le_scan

/-- What is acknowledged and owed stays in play. -/
theorem inPlay_account {l : GatewayLabel} (hs : g.Sound m) (hok : g.Orderly m l)
    (hstep : gatewayStep m g l = some g')
    (haccount : (g.acked : Multiset LogEvent) + g.owed ≤ g.inPlay m) : Safeguarded m g' := by
  obtain ⟨new, hnew, -, hkeeps⟩ := inPlay_step hs hstep
  have hgone : ∀ {id : Nat} {c : Call} {rest : List (Nat × Call)},
      Assoc.remove id g.calls = some (c, rest) →
      (g.acked : Multiset LogEvent) + (c.owed + Assoc.total (fun c : Nat × Call => c.2.owed) rest) ≤
        g.inPlay m := fun hremove => by
    rw [← owed_remove hremove]
    exact haccount
  have hless (hkeep : Keeps g l) (hle : (g'.acked : Multiset LogEvent) + g'.owed ≤ g.inPlay m) :
      Safeguarded m g' := by
    refine .inPlay ?_
    rw [hkeeps hkeep]
    exact hle.trans (Multiset.le_add_right _ _)
  cases gatewayStep_move hstep with
  | boot => exact absurd hok not_false
  | @call id origin =>
    refine hless trivial (le_trans (le_of_eq ?_) haccount)
    show (g.acked : Multiset LogEvent) +
      Assoc.total (fun c : Nat × Call => c.2.owed) (g.calls ++ [(id, ⟨origin, .begin⟩)]) = _
    rw [Assoc.total_append]
    show (g.acked : Multiset LogEvent) + (g.owed + 0) = _
    rw [add_zero]
  | @act id a c e hget hmove =>
    have hkeep : Keeps g (.act id a) := fun c hget => hok c hget
    have happended : e.appended = new := List.append_cancel_left hnew
    have howed : (g.commit id c.origin e).owed + c.owed = g.owed + Call.owed ⟨c.origin, e.phase⟩ :=
      Assoc.total_insert (f := fun c : Nat × Call => c.2.owed) ⟨c.origin, e.phase⟩ hget
    refine .inPlay (le_of_add_le_add_right (a := c.owed) ?_)
    rw [hkeeps hkeep]
    show (g.acked : Multiset LogEvent) + (g.commit id c.origin e).owed + c.owed ≤ _
    rw [add_assoc, howed, ← happended]
    calc (g.acked : Multiset LogEvent) + (g.owed + Call.owed ⟨c.origin, e.phase⟩)
        = (g.acked : Multiset LogEvent) + g.owed + Call.owed ⟨c.origin, e.phase⟩ := by abel
      _ ≤ g.inPlay m + (c.owed + (e.appended : Multiset LogEvent)) :=
          add_le_add haccount (hmove.owed hs.buffers)
      _ = _ := by abel
  | served hremove =>
    refine hless (fun err hget => ?_) ((add_le_add_right (Multiset.le_add_left _ _) _).trans
      (hgone hremove))
    rw [Assoc.get?_eq_some.mpr ⟨_, hremove⟩] at hget
    cases hget
  | unserved => exact .down rfl rfl
  | @acked id origin rest _ hremove =>
    refine hless (fun err hget => ?_) (le_trans (le_of_eq ?_) (hgone hremove))
    · rw [Assoc.get?_eq_some.mpr ⟨_, hremove⟩] at hget
      cases hget
    · show ((g.acked ++ origin.batch : List LogEvent) : Multiset LogEvent) + _ = _
      rw [← Multiset.coe_add, add_assoc]
      rfl
  | refused hne hremove =>
    refine hless (fun err hget => ?_) ((add_le_add_right (Multiset.le_add_left _ _) _).trans
      (hgone hremove))
    rw [Assoc.get?_eq_some.mpr ⟨_, hremove⟩] at hget
    cases hget
    exact hne rfl
  | @drop id landed c rest hremove =>
    -- what is lost with the call is no more than what the call owed
    have hheld := hok c (Assoc.get?_eq_some.mpr ⟨_, hremove⟩)
    refine .inPlay (le_of_add_le_add_right (a := c.owed) ?_)
    calc (g.acked : Multiset LogEvent) + Assoc.total (fun c : Nat × Call => c.2.owed) rest + c.owed
        = (g.acked : Multiset LogEvent) +
            (c.owed + Assoc.total (fun c : Nat × Call => c.2.owed) rest) := by abel
      _ ≤ g.inPlay m := hgone hremove
      _ = g.buffered m + Assoc.total (fun c : Nat × Call => held m.lib c.2.phase.bufs) rest +
            g.stored m + held m.lib c.phase.bufs := by
          unfold Gateway.inPlay
          rw [taken_remove hremove]
          abel
      _ ≤ _ := add_le_add_right hheld _
  | crash => exact absurd hok not_false

/-- While a replay is under way, its own sections and its end are all that happens. -/
theorem replay_step {l : GatewayLabel} {p : CallPhase} (ha : g.Alone) (hok : g.Orderly m l)
    (hcalls : g.calls = [(0, ⟨.replay, p⟩)]) (hstep : gatewayStep m g l = some g') :
    (∃ a e, g.callStep m .replay p a = some e ∧ g' = g.commit 0 .replay e) ∨
      l = .reply 0 ∧ (p = .done none ∨ ∃ err, p = .done (some err) ∧ g' = g.exited) := by
  have hreplaying : g.mode ≠ .serving := by
    refine (ha (0, ⟨.replay, p⟩) ?_ rfl).2.1
    rw [hcalls]
    exact List.mem_cons_self
  have hone {id : Nat} {c : Call} {rest : List (Nat × Call)}
      (hremove : Assoc.remove id g.calls = some (c, rest)) : id = 0 ∧ c = ⟨.replay, p⟩ := by
    rw [hcalls] at hremove
    obtain ⟨rfl, rfl, -⟩ := Assoc.of_remove_singleton hremove
    exact ⟨rfl, rfl⟩
  cases l with
  | boot => exact absurd hok not_false
  | crash => exact absurd hok not_false
  | call id origin =>
    cases gatewayStep_move hstep
    exact absurd ‹_› hreplaying
  | drop id landed =>
    obtain ⟨c, rest, hremove, hpush⟩ := drop_isPush hstep
    rw [(hone hremove).2] at hpush
    cases hpush
  | act id a =>
    simp only [gatewayStep] at hstep
    split at hstep
    next => cases hstep
    next c hget =>
      obtain ⟨rest, hremove⟩ := Assoc.get?_eq_some.mp hget
      obtain ⟨rfl, rfl⟩ := hone hremove
      obtain ⟨e, he, rfl⟩ := Option.map_eq_some_iff.mp hstep
      exact .inl ⟨a, e, he, rfl⟩
  | reply id =>
    cases gatewayStep_move hstep with
    | served hremove =>
      obtain ⟨rfl, heq⟩ := hone hremove
      cases heq
      exact .inr ⟨rfl, .inl rfl⟩
    | unserved hremove =>
      obtain ⟨rfl, heq⟩ := hone hremove
      cases heq
      exact .inr ⟨rfl, .inr ⟨_, rfl, rfl⟩⟩
    | acked hne hremove =>
      cases (hone hremove).2
      exact absurd rfl hne
    | refused hne hremove =>
      cases (hone hremove).2
      exact absurd rfl hne

/-- The step lemma. -/
theorem Safeguarded.step {l : GatewayLabel} (h : Safeguarded m g) (hs : g.Sound m) (ha : g.Alone)
    (hb : g.Booked) (hok : g.Orderly m l) (hstep : gatewayStep m g l = some g') :
    Safeguarded m g' := by
  cases h with
  | inPlay haccount => exact inPlay_account hs hok hstep haccount
  | unread hcalls hbare hlogged =>
    rcases replay_step ha hok hcalls hstep with ⟨a, e, heffect, rfl⟩ | ⟨-, hp | ⟨err, hp, -⟩⟩
    · exact safeguarded_replayed hs ha hcalls hbare hlogged heffect
    · cases hp
    · cases hp
  | unreadable _ hcalls =>
    rcases replay_step ha hok hcalls hstep with ⟨a, e, heffect, rfl⟩ | ⟨-, hp | ⟨err, -, rfl⟩⟩
    · cases callStep_move heffect with
      | pass hpass => cases hpass
      | pushFails henters => cases henters
      | syncFails henters => cases henters
      | accept _ _ _ henters => cases henters
    · cases hp
    · exact .down rfl rfl
  | down hcalls hdown =>
    have hnone {id : Nat} {c : Call} {rest : List (Nat × Call)}
        (hremove : Assoc.remove id g.calls = some (c, rest)) : Safeguarded m g' :=
      absurd hdown (hb.remove_up hremove)
    cases gatewayStep_move hstep with
    | boot => exact absurd hok not_false
    | crash => exact absurd hok not_false
    | call hserving =>
      rw [hdown] at hserving
      cases hserving
    | act hget => exact hnone (Assoc.get?_eq_some.mp hget).choose_spec
    | served hremove => exact hnone hremove
    | unserved hremove => exact hnone hremove
    | acked _ hremove => exact hnone hremove
    | refused _ hremove => exact hnone hremove
    | drop hremove => exact hnone hremove

/-! ## Steps that begin and end calls -/

/-- A call was there before with the same origin, or began with the step. -/
theorem origin_known {l : GatewayLabel} (hstep : gatewayStep m g l = some g') :
    ∀ c ∈ g'.calls, (∃ c' ∈ g.calls, c'.1 = c.1 ∧ c'.2.origin = c.2.origin) ∨ l = .boot ∨
      l = .call c.1 c.2.origin := by
  have hrest {id : Nat} {c : Call} {calls : List (Nat × Call)}
      (hremove : Assoc.remove id g.calls = some (c, calls)) : ∀ c ∈ calls,
        (∃ c' ∈ g.calls, c'.1 = c.1 ∧ c'.2.origin = c.2.origin) ∨ l = .boot ∨
          l = .call c.1 c.2.origin := fun c hc =>
    .inl ⟨c, (Assoc.remove_perm hremove).mem_iff.mpr (List.mem_cons_of_mem _ hc), rfl, rfl⟩
  intro c hc
  cases gatewayStep_move hstep with
  | boot => exact .inr (.inl rfl)
  | call =>
    rcases List.mem_append.mp hc with hc | hc
    · exact .inl ⟨c, hc, rfl, rfl⟩
    · rw [List.mem_singleton.mp hc]
      exact .inr (.inr rfl)
  | act hget =>
    rcases Assoc.mem_insert hc with rfl | hc
    · exact .inl ⟨_, Assoc.mem_of_get? hget, rfl, rfl⟩
    · exact .inl ⟨c, hc, rfl, rfl⟩
  | served hremove => exact hrest hremove c hc
  | unserved => exact absurd hc List.not_mem_nil
  | acked _ hremove => exact hrest hremove c hc
  | refused _ hremove => exact hrest hremove c hc
  | drop hremove => exact hrest hremove c hc
  | crash => exact absurd hc List.not_mem_nil

/-- A call that ends is taken out. Where it is the replay, the buffers serve or are gone. -/
theorem reply_cases (hstep : gatewayStep m g (.reply id) = some g') :
    ∃ c rest, Assoc.remove id g.calls = some (c, rest) ∧
      (c.origin = .replay ∧ (g'.calls = rest ∧ g'.mode = .serving ∨ g' = g.exited) ∨
        c.origin ≠ .replay ∧ g'.calls = rest ∧ g'.mode = g.mode ∧ g'.buffers = g.buffers) := by
  cases gatewayStep_move hstep with
  | served hremove => exact ⟨_, _, hremove, .inl ⟨rfl, .inl ⟨rfl, rfl⟩⟩⟩
  | unserved hremove => exact ⟨_, _, hremove, .inl ⟨rfl, .inr rfl⟩⟩
  | acked hne hremove => exact ⟨_, _, hremove, .inr ⟨hne, rfl, rfl, rfl⟩⟩
  | refused hne hremove => exact ⟨_, _, hremove, .inr ⟨hne, rfl, rfl, rfl⟩⟩

/-- Once the replay is done, the buffers serve or are gone. -/
theorem replay_ends {p : CallPhase} (ha : g.Alone)
    (hget : Assoc.get? id g.calls = some ⟨.replay, p⟩)
    (hstep : gatewayStep m g (.reply id) = some g') :
    g'.calls = [] ∧ (p = .done none → g'.mode = .serving) := by
  obtain ⟨rest, hremove⟩ := Assoc.get?_eq_some.mp hget
  obtain rfl := ha.no_others hremove rfl
  cases gatewayStep_move hstep with
  | served hremove' =>
    rw [hremove] at hremove'
    cases hremove'
    exact ⟨rfl, fun _ => rfl⟩
  | unserved hremove' =>
    rw [hremove] at hremove'
    cases hremove'
    exact ⟨rfl, nofun⟩
  | acked hne hremove' =>
    rw [hremove] at hremove'
    cases hremove'
    exact absurd rfl hne
  | refused hne hremove' =>
    rw [hremove] at hremove'
    cases hremove'
    exact absurd rfl hne

theorem call_begins {origin : Origin} (hstep : gatewayStep m g (.call id origin) = some g') :
    g'.calls = g.calls ++ [(id, ⟨origin, .begin⟩)] ∧ g'.mode = g.mode := by
  cases gatewayStep_move hstep
  exact ⟨rfl, rfl⟩

/-! ## The last flush -/

/-- How far a flush of all buffers is. Once it took them, the map is empty unless something went
wrong. -/
def CallPhase.Empties (bufs : Buffers) : CallPhase → Prop
  | .begin => True
  | .flush f => f.after = .finish ∧ (f.firstErr = none → bufs = [])
  | .put _ _ _ _ _ f => f.after = .finish ∧ (f.firstErr = none → bufs = [])
  | .failed _ _ _ _ f => f.after = .finish
  | .done err => err = none → bufs = []
  | .recheck => False
  | .append => False

/-- The step lemma of the last flush, where no one else fills the map. -/
theorem flushAll_empties {p : CallPhase} {a : CallAct} {e : CallEffect}
    (h : g.callStep m .flushAll p a = some e) (hp : p.Empties g.buffers) :
    e.phase.Empties e.buffers := by
  cases callStep_move h with
  | pass hpass =>
    cases hpass with
    | room =>
      cases h
    | empty =>
      cases h
    | rejected => exact absurd hp not_false
    | admitted => exact absurd hp not_false
    | nothing horigin => cases horigin
    | encoded => exact hp
    | encodeFailed => exact hp.1
    | @flushed f =>
      show (Gateway.afterFlush .flushAll f).Empties g.buffers
      rw [Gateway.afterFlush, hp.1]
      exact hp.2
    | putFailed => exact hp.1
  | take =>
    cases a with
    | take order nowMs =>
      have heffect := Option.some.inj h
      rw [← heffect]
      refine ⟨rfl, fun _ => ?_⟩
      exact List.filter_eq_nil_iff.mpr fun _ _ => nofun
    | _ => cases h
  | pushFails henters => cases henters
  | syncFails henters => cases henters
  | accept _ _ _ henters => cases henters
  | retire => exact hp
  | putNext => exact hp
  | putDone => exact hp
  | @reinsert key buf chunk err f =>
    refine ⟨hp, fun hnone => ?_⟩
    cases hfirst : f.firstErr <;> rw [hfirst] at hnone <;> cases hnone

end S4Logs

import S4Logs.Laws.Gateway.Atomic

/-!
# How often an event is stored

A `put_chunk` that fails after its first PUT has stored the data object, and the flush that
comes back to the buffer stores it again under a new name. Where no PUT but the first of a
chunk fails, a buffer that is flushed again has no data object yet, and no event is in more
data objects than it was accepted.
-/

namespace S4Logs

variable {m : BufferManager} {s t : Gateway}

/-- The buffers a call holds of which no data object landed. -/
def CallPhase.unlanded : CallPhase → List (BufKey × Buf)
  | .put key buf _ _ .data f => (key, buf) :: f.rest
  | .put _ _ _ _ _ f => f.rest
  | p => p.bufs

/-- The data object of the chunk that a call waits for did not land yet. -/
def CallPhase.AtData : CallPhase → Prop
  | .put _ _ _ _ stage _ => stage = .data
  | _ => True

/-- No process crashes, and a PUT that fails is the one of the data object. -/
def FailsFirst (s : Gateway) : GatewayLabel → Prop
  | .crash _ _ _ _ => False
  | .act id (.put none _) => ∀ c ∈ Assoc.get? id s.calls, c.phase.AtData
  | _ => True

/-- Whether the process crashes. -/
def GatewayLabel.isCrash : GatewayLabel → Bool
  | .crash _ _ _ _ => true
  | _ => false

/-- The events that no data object has yet, and those that some has. -/
def Gateway.spread (m : BufferManager) (s : Gateway) : Multiset LogEvent :=
  s.buffered m + Assoc.total (fun c => held m.lib c.2.phase.unlanded) s.calls +
    chunksEvents m.lib s.objects

theorem CallPhase.unlanded_of_atData {p : CallPhase} (h : p.AtData) : p.unlanded = p.bufs := by
  cases p with
  | put key buf loc chunk stage f =>
    obtain rfl : stage = .data := h
    rfl
  | _ => rfl

/-- After the data object comes a sidecar. -/
theorem putNext_stage {cfg : StoreConfig} {loc : ChunkLocation} {chunk : EncodedChunk}
    {etag : Option String} {stage : PutStage} :
    (∀ stage', putNext cfg loc chunk etag stage = .inl stage' → stage' ≠ .data) ∧
      (∀ receipt, putNext cfg loc chunk etag stage = .inr receipt → stage ≠ .data) := by
  cases stage with
  | data => exact ⟨fun stage' h => by cases h; nofun, nofun⟩
  | index e => exact ⟨fun stage' h => by cases h; nofun, fun _ _ => nofun⟩
  | tsIndex e => exact ⟨nofun, fun _ _ => nofun⟩

theorem afterFlush_atData (origin : Origin) (f : Flush) : (Gateway.afterFlush origin f).AtData := by
  rcases afterFlush_cases origin f with h | ⟨err, h⟩ <;> rw [h] <;> trivial

theorem CallPhase.unlanded_of_ne {key : BufKey} {buf : Buf} {loc : ChunkLocation}
    {chunk : EncodedChunk} {stage : PutStage} {f : Flush} (h : stage ≠ .data) :
    (CallPhase.put key buf loc chunk stage f).unlanded = f.rest := by
  cases stage with
  | data => exact absurd rfl h
  | index e => rfl
  | tsIndex e => rfl

/-- Where only the first PUT fails, what a section puts in data objects was in none. -/
theorem CallMove.spread {origin : Origin} {p : CallPhase} {a : CallAct} {e : CallEffect}
    (hs : AllSound m.lib s.buffers) (hp : p.Sound m) (h : CallMove m s origin p a e)
    (hfirst : ∀ io, a = .put none io → p.AtData) :
    held m.lib e.buffers + held m.lib e.phase.unlanded + chunksEvents m.lib e.objects ≤
      held m.lib s.buffers + held m.lib p.unlanded + (e.appended : Multiset LogEvent) := by
  have haccount := (h.account hs hp).1
  -- a section that is not an answer of the sink stores nothing
  have hother : p.AtData → e.phase.AtData → e.objects = e.chunks →
      held m.lib e.buffers + held m.lib e.phase.unlanded + chunksEvents m.lib e.objects ≤
        held m.lib s.buffers + held m.lib p.unlanded + (e.appended : Multiset LogEvent) := by
    intro hbefore hafter hobjects
    rw [CallPhase.unlanded_of_atData hbefore, CallPhase.unlanded_of_atData hafter, hobjects]
    exact haccount
  cases h with
  | pass hpass =>
    cases hpass with
    | putFailed => exact hother (hfirst _ rfl) trivial rfl
    | flushed => exact hother trivial (afterFlush_atData _ _) rfl
    | encoded => exact hother trivial rfl rfl
    | room => exact hother trivial trivial rfl
    | empty => exact hother trivial trivial rfl
    | rejected => exact hother trivial trivial rfl
    | admitted => exact hother trivial trivial rfl
    | nothing => exact hother trivial trivial rfl
    | encodeFailed => exact hother trivial trivial rfl
  | take => exact hother trivial trivial rfl
  | pushFails henters =>
    cases henters with
    | append => exact hother trivial trivial rfl
    | replay => exact hother trivial trivial rfl
  | syncFails henters =>
    cases henters with
    | append => exact hother trivial trivial rfl
    | replay => exact hother trivial trivial rfl
  | accept _ _ _ henters =>
    cases henters with
    | append => exact hother trivial trivial rfl
    | replay => exact hother trivial trivial rfl
  | retire => exact hother trivial trivial rfl
  | reinsert => exact hother trivial trivial rfl
  | @putNext key buf loc chunk stage stage' f etag io hnext =>
    have hafter := putNext_stage.1 stage' hnext
    show held m.lib s.buffers + held m.lib (CallPhase.put key buf loc chunk stage' f).unlanded +
        chunksEvents m.lib (if stage = .data then [(loc, chunk)] else []) ≤
      held m.lib s.buffers + held m.lib (CallPhase.put key buf loc chunk stage f).unlanded +
        (([] : List LogEvent) : Multiset LogEvent)
    rw [CallPhase.unlanded_of_ne hafter]
    by_cases hstage : stage = .data
    · subst hstage
      rw [if_pos rfl, chunksEvents_singleton, chunkEvents_encoded hp.1 hp.2.1, add_assoc,
        add_comm (held m.lib f.rest)]
      exact (add_zero _).ge
    · rw [if_neg hstage, CallPhase.unlanded_of_ne hstage]
      exact le_rfl
  | @putDone key buf loc chunk stage f etag io receipt hnext =>
    have hstage := putNext_stage.2 receipt hnext
    show held m.lib s.buffers + held m.lib f.rest +
        chunksEvents m.lib (if stage = .data then [(loc, chunk)] else []) ≤
      held m.lib s.buffers + held m.lib (CallPhase.put key buf loc chunk stage f).unlanded +
        (([] : List LogEvent) : Multiset LogEvent)
    rw [if_neg hstage, CallPhase.unlanded_of_ne hstage]
    exact le_rfl

/-- What has no data object, after a call went on. -/
theorem unlanded_commit {id : Nat} {c : Call} {e : CallEffect}
    (hget : Assoc.get? id s.calls = some c) :
    Assoc.total (fun c : Nat × Call => held m.lib c.2.phase.unlanded) (s.commit id c.origin e).calls +
        held m.lib c.phase.unlanded =
      Assoc.total (fun c : Nat × Call => held m.lib c.2.phase.unlanded) s.calls +
        held m.lib e.phase.unlanded :=
  Assoc.total_insert (f := fun c : Nat × Call => held m.lib c.2.phase.unlanded)
    ⟨c.origin, e.phase⟩ hget

theorem spread_commit {id : Nat} {c : Call} {a : CallAct} {e : CallEffect} (h : s.Sound m)
    (hget : Assoc.get? id s.calls = some c) (hmove : CallMove m s c.origin c.phase a e)
    (hfirst : ∀ io, a = .put none io → c.phase.AtData) :
    (s.commit id c.origin e).spread m ≤ s.spread m + (e.appended : Multiset LogEvent) := by
  have hle := hmove.spread h.buffers (h.calls _ (Assoc.mem_of_get? hget)) hfirst
  have hcalls := unlanded_commit (m := m) (e := e) hget
  have hobjects : chunksEvents m.lib (s.commit id c.origin e).objects =
      chunksEvents m.lib s.objects + chunksEvents m.lib e.objects := chunksEvents_append _ _ _
  refine le_of_add_le_add_right (a := held m.lib e.phase.unlanded + held m.lib c.phase.unlanded) ?_
  unfold Gateway.spread
  rw [hobjects]
  calc held m.lib e.buffers + _ + (chunksEvents m.lib s.objects + chunksEvents m.lib e.objects) +
        (held m.lib e.phase.unlanded + held m.lib c.phase.unlanded)
      = (held m.lib e.buffers + held m.lib e.phase.unlanded + chunksEvents m.lib e.objects) +
          (Assoc.total (fun c : Nat × Call => held m.lib c.2.phase.unlanded)
            (s.commit id c.origin e).calls + held m.lib c.phase.unlanded) +
          chunksEvents m.lib s.objects := by abel
    _ ≤ (held m.lib s.buffers + held m.lib c.phase.unlanded + (e.appended : Multiset LogEvent)) +
          (Assoc.total (fun c : Nat × Call => held m.lib c.2.phase.unlanded) s.calls +
            held m.lib e.phase.unlanded) + chunksEvents m.lib s.objects := by
        rw [hcalls]
        exact add_le_add_left (add_le_add_left hle _) _
    _ = _ := by
        unfold Gateway.buffered
        abel

/-- What a call holds without a data object, and what is left when the call is gone. -/
theorem unlanded_remove {id : Nat} {c : Call} {calls : List (Nat × Call)}
    (hremove : Assoc.remove id s.calls = some (c, calls)) :
    Assoc.total (fun c : Nat × Call => held m.lib c.2.phase.unlanded) s.calls =
      held m.lib c.phase.unlanded +
        Assoc.total (fun c : Nat × Call => held m.lib c.2.phase.unlanded) calls :=
  Assoc.total_remove hremove

/-- A data object that lands after its client is gone has the events of a buffer that the
call held. -/
theorem pending_le {p : CallPhase} (h : p.Sound m) :
    chunksEvents m.lib p.pending ≤ held m.lib p.unlanded := by
  cases p with
  | put key buf loc chunk stage f =>
    cases stage with
    | data =>
      show chunksEvents m.lib [(loc, chunk)] ≤ bufEvents m.lib (key, buf) + held m.lib f.rest
      rw [chunksEvents_singleton, chunkEvents_encoded h.1 h.2.1]
      exact Multiset.le_add_right _ _
    | index e => exact Multiset.zero_le _
    | tsIndex e => exact Multiset.zero_le _
  | _ => exact Multiset.zero_le _

theorem spread_step {l : GatewayLabel} (h : s.Sound m) (hfirst : FailsFirst s l)
    (hstep : gatewayStep m s l = some t) : ∃ new : List LogEvent,
      t.appended = s.appended ++ new ∧ t.spread m ≤ s.spread m + (new : Multiset LogEvent) := by
  have hnone : t.appended = s.appended → t.spread m ≤ s.spread m → ∃ new : List LogEvent,
      t.appended = s.appended ++ new ∧ t.spread m ≤ s.spread m + (new : Multiset LogEvent) :=
    fun happended hle => ⟨[], happended.trans (List.append_nil _).symm,
      hle.trans (Multiset.le_add_right _ _)⟩
  have hgone : ∀ {id : Nat} {c : Call} {calls : List (Nat × Call)},
      Assoc.remove id s.calls = some (c, calls) →
      Assoc.total (fun c : Nat × Call => held m.lib c.2.phase.unlanded) calls ≤
        Assoc.total (fun c : Nat × Call => held m.lib c.2.phase.unlanded) s.calls := by
    intro id c calls hremove
    rw [unlanded_remove hremove]
    exact Multiset.le_add_left _ _
  cases gatewayStep_move hstep with
  | boot hdown =>
    refine hnone rfl ?_
    show (0 : Multiset LogEvent) + 0 + chunksEvents m.lib s.objects ≤ _
    rw [add_zero, zero_add]
    exact Multiset.le_add_left _ _
  | call =>
    refine hnone rfl (le_of_eq ?_)
    unfold Gateway.spread
    rw [Assoc.total_append]
    show s.buffered m + (_ + 0) + chunksEvents m.lib s.objects = _
    rw [add_zero]
  | @act id a c e hget hmove =>
    refine ⟨e.appended, rfl, spread_commit h hget hmove fun io ha => ?_⟩
    subst ha
    exact hfirst c hget
  | served hremove => exact hnone rfl (add_le_add_left (add_le_add_right (hgone hremove) _) _)
  | unserved =>
    refine hnone rfl ?_
    show (0 : Multiset LogEvent) + 0 + chunksEvents m.lib s.objects ≤ _
    rw [add_zero, zero_add]
    exact Multiset.le_add_left _ _
  | acked _ hremove => exact hnone rfl (add_le_add_left (add_le_add_right (hgone hremove) _) _)
  | refused _ hremove => exact hnone rfl (add_le_add_left (add_le_add_right (hgone hremove) _) _)
  | @drop id landed c calls hremove =>
    refine hnone rfl ?_
    have hc := h.calls _ (Assoc.mem_of_get? (Assoc.get?_eq_some.mpr ⟨_, hremove⟩))
    have hlanded : chunksEvents m.lib (if landed then c.phase.pending else []) ≤
        held m.lib c.phase.unlanded := by
      split
      next => exact pending_le hc
      next => exact Multiset.zero_le _
    unfold Gateway.spread
    rw [unlanded_remove hremove, chunksEvents_append]
    calc s.buffered m + Assoc.total (fun c : Nat × Call => held m.lib c.2.phase.unlanded) calls +
          (chunksEvents m.lib s.objects + chunksEvents m.lib (if landed then c.phase.pending else []))
        ≤ s.buffered m +
          Assoc.total (fun c : Nat × Call => held m.lib c.2.phase.unlanded) calls +
          (chunksEvents m.lib s.objects + held m.lib c.phase.unlanded) :=
          add_le_add_right (add_le_add_right hlanded _) _
      _ = _ := by abel
  | crash => exact absurd hfirst not_false

/-- What the invariant of these runs says. -/
structure Once (m : BufferManager) (s : Gateway) : Prop where
  sound : s.Sound m
  spread : s.spread m ≤ (s.accepted : Multiset LogEvent)

theorem Once.step {l : GatewayLabel} (total : m.lib.zstd.Total) (h : Once m s)
    (hwhole : AppendsWhole m s l) (hfirst : FailsFirst s l) (hstep : gatewayStep m s l = some t) :
    Once m t := by
  obtain ⟨new, hnew, hle⟩ := spread_step h.sound hfirst hstep
  exact ⟨h.sound.step hstep, hle.trans ((add_le_add_left h.spread _).trans
    (accepted_step total h.sound hwhole hstep hnew))⟩

/-- Where no PUT but that of a data object fails, and no batch is refused in part, all data
objects together have each event no more often than it was accepted. -/
theorem stored_once (m : BufferManager) (total : m.lib.zstd.Total) {s : Gateway}
    (run : LTS.Reaches (gatewayStep m) (fun s l => AppendsWhole m s l ∧ FailsFirst s l)
      Gateway.start s) :
    chunksEvents m.lib s.objects ≤ (s.accepted : Multiset LogEvent) := by
  have h : Once m s := run.invariant ⟨Gateway.start_sound, le_rfl⟩
    fun _ _ _ h hok hstep => h.step total hok.1 hok.2 hstep
  exact (Multiset.le_add_left _ _).trans h.spread

instance CallPhase.AtData.decidable : ∀ p : CallPhase, Decidable p.AtData
  | .put _ _ _ _ stage _ => inferInstanceAs (Decidable (stage = .data))
  | .begin => inferInstanceAs (Decidable True)
  | .recheck => inferInstanceAs (Decidable True)
  | .append => inferInstanceAs (Decidable True)
  | .flush _ => inferInstanceAs (Decidable True)
  | .failed _ _ _ _ _ => inferInstanceAs (Decidable True)
  | .done _ => inferInstanceAs (Decidable True)

instance FailsFirst.decidable (s : Gateway) : ∀ l, Decidable (FailsFirst s l)
  | .act id (.put none _) =>
    inferInstanceAs (Decidable (∀ c ∈ Assoc.get? id s.calls, c.phase.AtData))
  | .act _ (.put (some _) _) => inferInstanceAs (Decidable True)
  | .act _ (.reserve _) => inferInstanceAs (Decidable True)
  | .act _ .recheck => inferInstanceAs (Decidable True)
  | .act _ (.append _ _ _) => inferInstanceAs (Decidable True)
  | .act _ (.take _ _) => inferInstanceAs (Decidable True)
  | .act _ (.replay _ _ _ _) => inferInstanceAs (Decidable True)
  | .act _ (.flushNext _ _) => inferInstanceAs (Decidable True)
  | .act _ .flushed => inferInstanceAs (Decidable True)
  | .act _ .reinsert => inferInstanceAs (Decidable True)
  | .boot => inferInstanceAs (Decidable True)
  | .call _ _ => inferInstanceAs (Decidable True)
  | .reply _ => inferInstanceAs (Decidable True)
  | .drop _ _ => inferInstanceAs (Decidable True)
  | .crash _ _ _ _ => inferInstanceAs (Decidable False)

namespace Concrete

/-- A flush of everything, up to its PUTs. -/
def flushing (id : Nat) (uuid : String) : List GatewayLabel :=
  [.call id .flushAll, .act id (.take [] 0), .act id (.flushNext uuid deleted)]

/-- A PUT fails, and the buffer is put back. -/
def putBack (id : Nat) : List GatewayLabel :=
  [.act id (.put none deleted), .act id .reinsert, .act id .flushed, .reply id]

end Concrete

open Concrete in
/-- The PUT of the data object fails, and the next flush stores the event. -/
theorem stored_once_retry : ∃ s : Gateway, s.objects.length = 1 ∧
    chunksEvents lib s.objects ≤ (s.accepted : Multiset LogEvent) := by
  obtain ⟨s, hreach, hcheck⟩ := LTS.replay_spec (by decide +kernel :
    LTS.replay (gatewayStep (gateway none))
      (fun s l => AppendsWhole (gateway none) s l ∧ FailsFirst s l) Gateway.start
      (started ++ pushed 1 [input 0 "a"] [io "u1"] ++ flushing 2 "x1" ++ putBack 2 ++
        [.call 3 .flushAll, .act 3 (.take [] 0)] ++ stored 3 "x2")
      (fun s => s.objects.length == 1) = true)
  exact ⟨s, eq_of_beq hcheck, stored_once (gateway none) zstd_total hreach⟩

open Concrete in
/-- The PUT of a sidecar fails, and the next flush stores the event again. -/
theorem stored_twice : ¬ ∀ m : BufferManager, m.lib.zstd.Total → ∀ s,
    LTS.Reaches (gatewayStep m) (fun _ l => l.isCrash = false) Gateway.start s →
    chunksEvents m.lib s.objects ≤ (s.accepted : Multiset LogEvent) := by
  intro h
  obtain ⟨s, hreach, hcheck⟩ := LTS.replay_spec (by decide +kernel :
    LTS.replay (gatewayStep (gateway none)) (fun _ l => l.isCrash = false) Gateway.start
      (started ++ pushed 1 [input 0 "a"] [io "u1"] ++ flushing 2 "x1" ++
        [.act 2 (.put (some none) deleted)] ++ putBack 2 ++
        [.call 3 .flushAll, .act 3 (.take [] 0)] ++ stored 3 "x2")
      (fun s => s.accepted.length == 1 && (s.objects.map fun o =>
        (objectRecords lib o.2.body).length).sum == 2) = true)
  obtain ⟨hone, htwo⟩ := Bool.and_eq_true_iff.mp hcheck
  have hle := Multiset.card_le_card (h (gateway none) zstd_total s hreach)
  have hcard : Multiset.card (chunksEvents lib s.objects) = 2 :=
    (card_chunksEvents lib s.objects).trans (eq_of_beq htwo)
  have haccepted : s.accepted.length = 1 := eq_of_beq hone
  rw [Multiset.coe_card, haccepted] at hle
  exact absurd (hcard.symm.trans_le hle) (by decide)

end S4Logs

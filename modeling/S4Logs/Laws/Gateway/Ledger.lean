import S4Logs.Laws.Gateway.Machine

/-!
# The ledger of events

Two facts hold of every run, whatever goes wrong in it. Every buffer, in the map or with
a call, holds the records its writer took, and a chunk on its way is an object of exactly
its buffer (`Gateway.Sound`). And a step moves events or takes new ones in, it makes none
(`CallMove.account`). What a claim adds to these is which steps lose events, and what is
counted against what.
-/

namespace S4Logs

variable {m : BufferManager} {s t : Gateway} {origin : Origin} {p p' : CallPhase} {a : CallAct}
variable {e : CallEffect}

/-- The buffers a call holds are sound, and a chunk on its way is its buffer's. -/
def CallPhase.Sound (m : BufferManager) : CallPhase → Prop
  | .flush f => AllSound m.lib f.rest
  | .put key buf loc chunk _ f =>
    Encoded m.lib buf (some chunk) ∧ (∃ uuid, loc = m.location key buf uuid) ∧
      AllSound m.lib f.rest
  | .failed _ buf chunk _ f => Encoded m.lib buf chunk ∧ AllSound m.lib f.rest
  | _ => True

/-- What holds of every run. A process that is down has no memory. -/
structure Gateway.Sound (m : BufferManager) (s : Gateway) : Prop where
  buffers : AllSound m.lib s.buffers
  calls : ∀ c ∈ s.calls, c.2.phase.Sound m
  down : s.mode = .down → s.buffers = [] ∧ s.calls = []

theorem AllSound.nil : AllSound m.lib [] := fun _ he => absurd he List.not_mem_nil

theorem AllSound.cons {e : BufKey × Buf} {bufs : Buffers} (he : e.2.Sound m.lib)
    (h : AllSound m.lib bufs) : AllSound m.lib (e :: bufs) := by
  intro e' he'
  rcases List.mem_cons.mp he' with rfl | he'
  · exact he
  · exact h e' he'

theorem AllSound.tail {e : BufKey × Buf} {bufs : Buffers} (h : AllSound m.lib (e :: bufs)) :
    AllSound m.lib bufs := fun e' he' => h e' (List.mem_cons_of_mem _ he')

theorem CallPhase.Sound.bufs (h : p.Sound m) : AllSound m.lib p.bufs := by
  cases p with
  | begin => exact AllSound.nil
  | recheck => exact AllSound.nil
  | append => exact AllSound.nil
  | flush f => exact h
  | put key buf loc chunk stage f => exact .cons h.1.sound h.2.2
  | failed key buf chunk err f => exact .cons h.1.sound h.2
  | done err => exact AllSound.nil

theorem afterFlush_idle (origin : Origin) (f : Flush) :
    (Gateway.afterFlush origin f).bufs = [] ∧ (Gateway.afterFlush origin f).Sound m := by
  rcases afterFlush_cases origin f with h | ⟨err, h⟩ <;> rw [h] <;> exact ⟨rfl, trivial⟩

/-- A call that only goes on keeps its buffers. -/
theorem Passes.bufs (h : Passes m origin p a p') : p'.bufs = p.bufs := by
  cases h with
  | room => rfl
  | empty => rfl
  | rejected => rfl
  | admitted => rfl
  | nothing => rfl
  | encoded => rfl
  | encodeFailed => rfl
  | flushed hrest => exact (afterFlush_idle (m := m) _ _).1.trans hrest.symm
  | putFailed => rfl

theorem Passes.sound (h : Passes m origin p a p') (hp : p.Sound m) : p'.Sound m := by
  cases h with
  | room => trivial
  | empty => trivial
  | rejected => trivial
  | admitted => trivial
  | nothing => trivial
  | flushed => exact (afterFlush_idle _ _).2
  | @encoded key buf rest err after uuid io chunk hencode =>
    obtain ⟨rs, hrs⟩ := hp (key, buf) List.mem_cons_self
    refine ⟨⟨rs, hrs, fun c hc => ?_⟩, ⟨uuid, rfl⟩, AllSound.tail hp⟩
    cases hc
    rcases hrs.encode with ⟨hnone, -⟩ | ⟨chunk', hsome, hdescribes⟩ | ⟨herror, -⟩
    · rw [hencode] at hnone
      cases hnone
    · rw [hencode] at hsome
      cases hsome
      exact hdescribes
    · rw [hencode] at herror
      cases herror
  | @encodeFailed key buf =>
    obtain ⟨rs, hrs⟩ := hp (key, buf) List.mem_cons_self
    exact ⟨⟨rs, hrs, nofun⟩, AllSound.tail hp⟩
  | putFailed => exact ⟨hp.1, hp.2.2⟩

/-- A call that enters a section of pushes holds nothing. -/
theorem Enters.bufs {events : List LogEvent} {ios : List EventIo} {order : List BufKey}
    {fails : Option String} (h : Enters m s origin p a events ios order fails) : p.bufs = [] := by
  cases h with
  | append => rfl
  | replay => rfl

/-- What a section or an answer does keeps every buffer sound. -/
theorem CallMove.sound (hs : AllSound m.lib s.buffers) (hp : p.Sound m)
    (h : CallMove m s origin p a e) : AllSound m.lib e.buffers ∧ e.phase.Sound m := by
  cases h with
  | pass h => exact ⟨hs, h.sound hp⟩
  | take due rest after hperm =>
    have hall := hs.perm hperm.symm
    exact ⟨fun e he => hall e (List.mem_append_right _ he),
      fun e he => hall e (List.mem_append_left _ he)⟩
  | pushFails _ hpush => exact ⟨(pushAll_spec hs hpush).1, trivial⟩
  | syncFails _ hpush hsync => exact ⟨(sync_spec (pushAll_spec hs hpush).1 hsync).1, trivial⟩
  | accept old due rest _ hpush hsync hperm =>
    have hall := (sync_spec (pushAll_spec hs hpush).1 hsync).1.perm hperm.symm
    exact ⟨fun e he => hall e (List.mem_append_right _ he),
      fun e he => hall e (List.mem_append_left _ he)⟩
  | retire => exact ⟨hs, AllSound.tail hp⟩
  | putNext => exact ⟨hs, hp⟩
  | putDone => exact ⟨hs, hp.2.2⟩
  | @reinsert key => exact ⟨(reinsert_spec key hs hp.1).1, hp.2⟩

theorem Gateway.exited_sound (s : Gateway) : s.exited.Sound m :=
  ⟨AllSound.nil, fun _ hc => absurd hc List.not_mem_nil, fun _ => ⟨rfl, rfl⟩⟩

theorem Gateway.start_sound : Gateway.start.Sound m :=
  ⟨AllSound.nil, fun _ hc => absurd hc List.not_mem_nil, fun _ => ⟨rfl, rfl⟩⟩

/-- Only a process that runs has calls. -/
theorem Gateway.Sound.up {id : Nat} {c : Call} (h : s.Sound m)
    (hget : Assoc.get? id s.calls = some c) : s.mode ≠ .down := by
  intro hdown
  rw [(h.down hdown).2] at hget
  cases hget

/-- Every buffer and every chunk on its way is sound, in every run. -/
theorem Gateway.Sound.step {l : GatewayLabel} (h : s.Sound m) (hstep : gatewayStep m s l = some t) :
    t.Sound m := by
  have hrest : ∀ {id : Nat} {c : Call} {calls : List (Nat × Call)},
      Assoc.remove id s.calls = some (c, calls) →
      s.mode ≠ .down ∧ ∀ c ∈ calls, c.2.phase.Sound m := by
    intro id c calls hremove
    exact ⟨h.up (Assoc.get?_eq_some.mpr ⟨_, hremove⟩), fun c hc =>
      h.calls c ((Assoc.remove_perm hremove).mem_iff.mpr (List.mem_cons_of_mem _ hc))⟩
  cases gatewayStep_move hstep with
  | boot =>
    refine ⟨AllSound.nil, fun c hc => ?_, nofun⟩
    rw [List.mem_singleton.mp hc]
    trivial
  | call hserving =>
    refine ⟨h.buffers, fun c hc => ?_, fun hdown => ?_⟩
    · rcases List.mem_append.mp hc with hc | hc
      · exact h.calls c hc
      · rw [List.mem_singleton.mp hc]
        trivial
    · rw [hserving] at hdown
      cases hdown
  | act hget hmove =>
    obtain ⟨hbuffers, hphase⟩ := hmove.sound h.buffers (h.calls _ (Assoc.mem_of_get? hget))
    refine ⟨hbuffers, fun c hc => ?_, fun hdown => absurd hdown (h.up hget)⟩
    rcases Assoc.mem_insert hc with rfl | hc
    · exact hphase
    · exact h.calls c hc
  | served hremove => exact ⟨h.buffers, (hrest hremove).2, nofun⟩
  | unserved => exact Gateway.exited_sound s
  | acked _ hremove =>
    exact ⟨h.buffers, (hrest hremove).2, fun hdown => absurd hdown (hrest hremove).1⟩
  | refused _ hremove =>
    exact ⟨h.buffers, (hrest hremove).2, fun hdown => absurd hdown (hrest hremove).1⟩
  | drop hremove =>
    exact ⟨h.buffers, (hrest hremove).2, fun hdown => absurd hdown (hrest hremove).1⟩
  | crash => exact ⟨AllSound.nil, fun _ hc => absurd hc List.not_mem_nil, fun _ => ⟨rfl, rfl⟩⟩

/-! ## Accounting -/

theorem chunksEvents_append (lib : CodecLib) (cs cs' : List (ChunkLocation × EncodedChunk)) :
    chunksEvents lib (cs ++ cs') = chunksEvents lib cs + chunksEvents lib cs' := by
  rw [chunksEvents, List.map_append, List.sum_append]
  rfl

theorem chunksEvents_singleton (lib : CodecLib) (c : ChunkLocation × EncodedChunk) :
    chunksEvents lib [c] = chunkEvents lib c := by
  rw [chunksEvents, List.map_singleton, List.sum_singleton]

/-- How many events chunks have. -/
theorem card_chunksEvents (lib : CodecLib) (cs : List (ChunkLocation × EncodedChunk)) :
    Multiset.card (chunksEvents lib cs) =
      (cs.map fun c => (objectRecords lib c.2.body).length).sum := by
  induction cs with
  | nil => rfl
  | cons c cs ih =>
    have hcons : chunksEvents lib (c :: cs) = chunkEvents lib c + chunksEvents lib cs := rfl
    rw [hcons, Multiset.card_add, ih, List.map_cons, List.sum_cons, chunkEvents,
      Multiset.coe_card, List.length_map]

/-- The chunk of a buffer has its events. -/
theorem chunkEvents_encoded {key : BufKey} {buf : Buf} {loc : ChunkLocation} {chunk : EncodedChunk}
    (h : Encoded m.lib buf (some chunk)) (hloc : ∃ uuid, loc = m.location key buf uuid) :
    chunkEvents m.lib (loc, chunk) = bufEvents m.lib (key, buf) := by
  obtain ⟨rs, hrs, hdescribes⟩ := h
  obtain ⟨uuid, rfl⟩ := hloc
  rw [chunkEvents_describes (hdescribes chunk rfl), bufEvents_holds hrs]
  rfl

/-- A buffer that encodes to nothing has no events. -/
theorem bufEvents_empty {key : BufKey} {buf : Buf} (h : buf.Sound m.lib)
    (hencode : buf.writer.encode m.lib = .ok none) : bufEvents m.lib (key, buf) = 0 := by
  obtain ⟨rs, hrs⟩ := h
  rcases hrs.encode with ⟨-, hnil⟩ | ⟨chunk, hsome, -⟩ | ⟨herror, -⟩
  · rw [bufEvents_holds hrs, hnil]
    rfl
  · rw [hencode] at hsome
    cases hsome
  · rw [hencode] at herror
    cases herror

/-- What a call about to put a buffer back must find. -/
def CallPhase.ComesBack (bufs : Buffers) : CallPhase → Prop
  | .failed key buf chunk _ _ => S4Logs.ComesBack bufs key buf chunk
  | _ => True

/-- What the map and the call held, and what a writer took, is afterwards in the map, with
the call, or in a stored chunk. Only a buffer that does not come back can be missing. -/
theorem CallMove.account (hs : AllSound m.lib s.buffers) (hp : p.Sound m)
    (h : CallMove m s origin p a e) :
    held m.lib e.buffers + held m.lib e.phase.bufs + chunksEvents m.lib e.chunks ≤
        held m.lib s.buffers + held m.lib p.bufs + (e.appended : Multiset LogEvent) ∧
      (p.ComesBack s.buffers →
        held m.lib e.buffers + held m.lib e.phase.bufs + chunksEvents m.lib e.chunks =
          held m.lib s.buffers + held m.lib p.bufs + (e.appended : Multiset LogEvent)) := by
  -- every move but the last one keeps the sum
  have hequal : ∀ {x y : Multiset LogEvent}, x = y →
      x ≤ y ∧ (p.ComesBack s.buffers → x = y) := fun h => ⟨h.le, fun _ => h⟩
  have hnil : (([] : List LogEvent) : Multiset LogEvent) = 0 := rfl
  have hnone : chunksEvents m.lib [] = 0 := rfl
  cases h with
  | @reinsert key buf chunk err f =>
    obtain ⟨-, hle, heq⟩ := reinsert_spec key hs hp.1
    show held m.lib (m.reinsert s.buffers key buf chunk) + held m.lib f.rest +
        chunksEvents m.lib [] ≤ held m.lib s.buffers + held m.lib ((key, buf) :: f.rest) +
          (([] : List LogEvent) : Multiset LogEvent) ∧ (ComesBack s.buffers key buf chunk →
        held m.lib (m.reinsert s.buffers key buf chunk) + held m.lib f.rest +
          chunksEvents m.lib [] = held m.lib s.buffers + held m.lib ((key, buf) :: f.rest) +
          (([] : List LogEvent) : Multiset LogEvent))
    rw [hnil, hnone, add_zero, add_zero, held_cons, ← add_assoc]
    exact ⟨add_le_add_left hle _, fun hback => by rw [heq hback]⟩
  | @pass p p' a h =>
    refine hequal ?_
    show held m.lib s.buffers + held m.lib p'.bufs + chunksEvents m.lib [] =
      held m.lib s.buffers + held m.lib p.bufs + (([] : List LogEvent) : Multiset LogEvent)
    rw [h.bufs, hnone, hnil]
  | take due rest after hperm =>
    refine hequal ?_
    show held m.lib rest + held m.lib due + chunksEvents m.lib [] =
      held m.lib s.buffers + held m.lib [] + (([] : List LogEvent) : Multiset LogEvent)
    rw [← held_perm hperm, held_append, hnone, hnil, held_nil, add_comm (held m.lib rest),
      add_zero, add_zero]
  | @pushFails p a events ios order fails l pushed e henters hpush =>
    refine hequal ?_
    show held m.lib l.buffers + held m.lib [] + chunksEvents m.lib [] =
      held m.lib s.buffers + held m.lib p.bufs + (pushed : Multiset LogEvent)
    rw [(pushAll_spec (l := s.lock) hs hpush).2.2, henters.bufs, hnone, held_nil, add_zero,
      add_zero, add_zero]
    rfl
  | @syncFails p a events ios order fails l l' pushed henters hpush hsync =>
    obtain ⟨hsound, -, hheld⟩ := pushAll_spec (l := s.lock) hs hpush
    refine hequal ?_
    show held m.lib l'.buffers + held m.lib [] + chunksEvents m.lib [] =
      held m.lib s.buffers + held m.lib p.bufs + (pushed : Multiset LogEvent)
    rw [(sync_spec hsound hsync).2, hheld, henters.bufs, hnone, held_nil, add_zero, add_zero,
      add_zero]
    rfl
  | @accept p a events ios order fails l l' pushed old due rest henters hpush hsync hperm =>
    obtain ⟨hsound, -, hheld⟩ := pushAll_spec (l := s.lock) hs hpush
    refine hequal ?_
    show held m.lib rest + held m.lib due + chunksEvents m.lib [] =
      held m.lib s.buffers + held m.lib p.bufs + (pushed : Multiset LogEvent)
    rw [add_comm (held m.lib rest), ← held_append, held_perm hperm, (sync_spec hsound hsync).2,
      hheld, henters.bufs, hnone, held_nil, add_zero, add_zero]
    rfl
  | @retire key buf rest err after uuid io hencode =>
    refine hequal ?_
    show held m.lib s.buffers + held m.lib rest + chunksEvents m.lib [] =
      held m.lib s.buffers + held m.lib ((key, buf) :: rest) +
        (([] : List LogEvent) : Multiset LogEvent)
    rw [held_cons, bufEvents_empty (hp (key, buf) List.mem_cons_self) hencode, zero_add, hnone, hnil]
  | @putNext key buf loc chunk stage stage' f etag io =>
    refine hequal ?_
    show held m.lib s.buffers + held m.lib ((key, buf) :: f.rest) + chunksEvents m.lib [] =
      held m.lib s.buffers + held m.lib ((key, buf) :: f.rest) +
        (([] : List LogEvent) : Multiset LogEvent)
    rw [hnone, hnil]
  | @putDone key buf loc chunk stage f etag io receipt =>
    refine hequal ?_
    show held m.lib s.buffers + held m.lib f.rest + chunksEvents m.lib [(loc, chunk)] =
      held m.lib s.buffers + held m.lib ((key, buf) :: f.rest) +
        (([] : List LogEvent) : Multiset LogEvent)
    rw [chunksEvents_singleton, chunkEvents_encoded hp.1 hp.2.1, held_cons, hnil, add_zero,
      add_assoc, add_comm (held m.lib f.rest)]

/-! ## The ledger of a run -/

/-- The events in the map, with calls, and in stored chunks. -/
def Gateway.inPlay (m : BufferManager) (s : Gateway) : Multiset LogEvent :=
  s.buffered m + s.taken m + s.stored m

/-- What calls hold, after one of them went on. -/
theorem taken_commit {id : Nat} {c : Call} (hget : Assoc.get? id s.calls = some c) :
    (s.commit id c.origin e).taken m + held m.lib c.phase.bufs =
      s.taken m + held m.lib e.phase.bufs :=
  Assoc.total_insert (f := fun c : Nat × Call => held m.lib c.2.phase.bufs)
    ⟨c.origin, e.phase⟩ hget

/-- What calls hold, and what one of them that ends held. -/
theorem taken_remove {id : Nat} {c : Call} {calls : List (Nat × Call)}
    (hremove : Assoc.remove id s.calls = some (c, calls)) :
    s.taken m = held m.lib c.phase.bufs +
      Assoc.total (fun c : Nat × Call => held m.lib c.2.phase.bufs) calls :=
  Assoc.total_remove hremove

/-- The section of a call moves what it moves, in the whole. -/
theorem commit_account {id : Nat} {c : Call} (h : s.Sound m)
    (hget : Assoc.get? id s.calls = some c) (hmove : CallMove m s c.origin c.phase a e) :
    (s.commit id c.origin e).inPlay m ≤ s.inPlay m + (e.appended : Multiset LogEvent) ∧
      (c.phase.ComesBack s.buffers →
        (s.commit id c.origin e).inPlay m = s.inPlay m + (e.appended : Multiset LogEvent)) := by
  obtain ⟨hle, heq⟩ := hmove.account h.buffers (h.calls _ (Assoc.mem_of_get? hget))
  have htaken := taken_commit (m := m) (e := e) hget
  have hstored : (s.commit id c.origin e).stored m = s.stored m + chunksEvents m.lib e.chunks :=
    chunksEvents_append _ _ _
  have hbefore : s.inPlay m + (e.appended : Multiset LogEvent) + held m.lib e.phase.bufs =
      (held m.lib s.buffers + held m.lib c.phase.bufs + (e.appended : Multiset LogEvent)) +
        ((s.commit id c.origin e).taken m + s.stored m) := by
    have hsum : s.inPlay m + (e.appended : Multiset LogEvent) + held m.lib e.phase.bufs =
        held m.lib s.buffers + s.stored m + (e.appended : Multiset LogEvent) +
          (s.taken m + held m.lib e.phase.bufs) := by
      unfold Gateway.inPlay Gateway.buffered
      abel
    rw [hsum, ← htaken]
    abel
  have hafter : (s.commit id c.origin e).inPlay m + held m.lib e.phase.bufs =
      (held m.lib e.buffers + held m.lib e.phase.bufs + chunksEvents m.lib e.chunks) +
        ((s.commit id c.origin e).taken m + s.stored m) := by
    unfold Gateway.inPlay
    rw [hstored]
    show held m.lib e.buffers + _ + _ + _ = _
    abel
  constructor
  · refine le_of_add_le_add_right (a := held m.lib e.phase.bufs) ?_
    rw [hbefore, hafter]
    exact add_le_add_left hle _
  · intro hback
    refine add_right_cancel (b := held m.lib e.phase.bufs) ?_
    rw [hbefore, hafter, heq hback]

/-- A call that ends holds nothing. -/
theorem taken_ended {id : Nat} {err : Option BufferError} {calls : List (Nat × Call)}
    (hremove : Assoc.remove id s.calls = some (⟨origin, .done err⟩, calls)) :
    s.taken m = Assoc.total (fun c : Nat × Call => held m.lib c.2.phase.bufs) calls := by
  rw [taken_remove hremove]
  exact zero_add _

/-- The step loses no buffer: what a call puts back comes back, no client goes away, and no
replay fails. -/
def Keeps (s : Gateway) : GatewayLabel → Prop
  | .act id _ => ∀ c, Assoc.get? id s.calls = some c → c.phase.ComesBack s.buffers
  | .reply id => ∀ err, Assoc.get? id s.calls ≠ some ⟨.replay, .done (some err)⟩
  | .drop _ _ => False
  | .crash _ _ _ _ => False
  | _ => True

/-- The chunk a call waits for is of a buffer that the call holds. -/
theorem chunkEvents_le_taken (h : s.Sound m) {c : Nat × Call} (hc : c ∈ s.calls)
    {key : BufKey} {buf : Buf} {o : ChunkLocation × EncodedChunk} {stage : PutStage} {f : Flush}
    (hput : c.2.phase = .put key buf o.1 o.2 stage f) : chunkEvents m.lib o ≤ s.taken m := by
  have hsound := h.calls c hc
  rw [hput] at hsound
  have hone : held m.lib c.2.phase.bufs ≤ s.taken m :=
    Assoc.le_total (f := fun c : Nat × Call => held m.lib c.2.phase.bufs) hc
  refine le_trans ?_ hone
  rw [hput, chunkEvents_encoded hsound.1 hsound.2.1]
  exact Multiset.le_add_right _ _

/-- What a section stores is the chunk of a buffer that its call holds. -/
theorem CallMove.chunks_le {id : Nat} {c : Call} (h : s.Sound m)
    (hget : Assoc.get? id s.calls = some c) (hmove : CallMove m s c.origin c.phase a e) :
    chunksEvents m.lib e.chunks ≤ s.taken m := by
  have hnone : chunksEvents m.lib [] ≤ s.taken m := Multiset.zero_le _
  have hput : ∀ {o : ChunkLocation × EncodedChunk}, o ∈ e.chunks →
      chunkEvents m.lib o ≤ s.taken m := by
    intro o ho
    obtain ⟨key, buf, stage, f, hphase⟩ := hmove.stores (.inr ho)
    exact chunkEvents_le_taken h (Assoc.mem_of_get? hget) hphase
  rcases hmove.chunks_at_most with hchunks | ⟨o, hchunks⟩
  · rw [hchunks]
    exact hnone
  · rw [hchunks, chunksEvents_singleton]
    exact hput (hchunks ▸ List.mem_singleton_self o)

/-- A data object that is stored landed before, or is the chunk of a buffer that a call
holds. -/
theorem objects_step {l : GatewayLabel} (h : s.Sound m) (hstep : gatewayStep m s l = some t)
    {o : ChunkLocation × EncodedChunk} (ho : o ∈ t.objects) :
    o ∈ s.objects ∨ chunkEvents m.lib o ≤ s.taken m := by
  cases gatewayStep_move hstep with
  | boot => exact .inl ho
  | call => exact .inl ho
  | act hget hmove =>
    rcases List.mem_append.mp ho with ho | ho
    · exact .inl ho
    · obtain ⟨key, buf, stage, f, hput⟩ := hmove.stores (.inl ho)
      exact .inr (chunkEvents_le_taken h (Assoc.mem_of_get? hget) hput)
  | served => exact .inl ho
  | unserved => exact .inl ho
  | acked => exact .inl ho
  | refused => exact .inl ho
  | drop hremove =>
    rcases List.mem_append.mp ho with ho | ho
    · exact .inl ho
    · split at ho
      next =>
        obtain ⟨key, buf, f, hput⟩ := CallPhase.mem_pending ho
        exact .inr (chunkEvents_le_taken h
          (Assoc.mem_of_get? (Assoc.get?_eq_some.mpr ⟨_, hremove⟩)) hput)
      next => exact absurd ho List.not_mem_nil
  | crash objects chunks hknown =>
    rcases hknown o ho with ho | ⟨c, hc, key, buf, stage, f, hput⟩
    · exact .inl ho
    · exact .inr (chunkEvents_le_taken h hc hput)

/-- What is in play grows by what writers take in at most, and by exactly that where the
step loses no buffer. -/
theorem inPlay_step {l : GatewayLabel} (h : s.Sound m)
    (hstep : gatewayStep m s l = some t) : ∃ new : List LogEvent,
      t.appended = s.appended ++ new ∧ t.inPlay m ≤ s.inPlay m + (new : Multiset LogEvent) ∧
        (Keeps s l → t.inPlay m = s.inPlay m + (new : Multiset LogEvent)) := by
  have hsame : t.appended = s.appended → t.inPlay m = s.inPlay m →
      ∃ new : List LogEvent, t.appended = s.appended ++ new ∧
        t.inPlay m ≤ s.inPlay m + (new : Multiset LogEvent) ∧
          (Keeps s l → t.inPlay m = s.inPlay m + (new : Multiset LogEvent)) := by
    intro happended hinplay
    refine ⟨[], happended.trans (List.append_nil _).symm, ?_, fun _ => ?_⟩
    · rw [hinplay]
      exact Multiset.le_add_right _ _
    · rw [hinplay]
      exact (add_zero _).symm
  have hless : t.appended = s.appended → t.inPlay m ≤ s.inPlay m → ¬ Keeps s l →
      ∃ new : List LogEvent, t.appended = s.appended ++ new ∧
        t.inPlay m ≤ s.inPlay m + (new : Multiset LogEvent) ∧
          (Keeps s l → t.inPlay m = s.inPlay m + (new : Multiset LogEvent)) := by
    intro happended hle hloses
    exact ⟨[], happended.trans (List.append_nil _).symm, hle.trans (Multiset.le_add_right _ _),
      fun hkeeps => absurd hkeeps hloses⟩
  cases gatewayStep_move hstep with
  | boot hdown =>
    refine hsame rfl ?_
    unfold Gateway.inPlay Gateway.buffered Gateway.taken
    rw [(h.down hdown).1, (h.down hdown).2]
    rfl
  | call =>
    refine hsame rfl ?_
    unfold Gateway.inPlay Gateway.taken
    rw [Assoc.total_append]
    show s.buffered m + (s.taken m + 0) + s.stored m = _
    rw [add_zero]
    rfl
  | @act id a c e hget hmove =>
    obtain ⟨hle, heq⟩ := commit_account h hget hmove
    exact ⟨e.appended, rfl, hle, fun hkeeps => heq (hkeeps c hget)⟩
  | served hremove =>
    refine hsame rfl ?_
    unfold Gateway.inPlay
    rw [taken_ended hremove]
    rfl
  | @unserved id err calls hremove =>
    refine hless rfl ?_ fun hkeeps => hkeeps err (Assoc.get?_eq_some.mpr ⟨_, hremove⟩)
    unfold Gateway.inPlay
    exact add_le_add_left (Multiset.zero_le _) _
  | acked _ hremove =>
    refine hsame rfl ?_
    unfold Gateway.inPlay
    rw [taken_ended hremove]
    rfl
  | refused _ hremove =>
    refine hsame rfl ?_
    unfold Gateway.inPlay
    rw [taken_ended hremove]
    rfl
  | drop hremove =>
    refine hless rfl ?_ not_false
    unfold Gateway.inPlay
    rw [taken_remove hremove]
    exact add_le_add_left (add_le_add_right (Multiset.le_add_left _ _) _) _
  | @crash during ops landed after objects chunks _ hduring hnone =>
    refine hless rfl ?_ not_false
    have hchunks : chunksEvents m.lib chunks ≤ s.taken m := by
      cases during with
      | none =>
        rw [hnone rfl]
        exact Multiset.zero_le _
      | some d =>
        obtain ⟨c, e, hget, hmove, -, rfl⟩ := hduring d rfl
        exact hmove.chunks_le h hget
    unfold Gateway.inPlay Gateway.stored
    rw [chunksEvents_append]
    show (0 : Multiset LogEvent) + 0 + (chunksEvents m.lib s.chunks + chunksEvents m.lib chunks) ≤ _
    rw [add_zero, zero_add, add_comm]
    exact add_le_add_left (hchunks.trans (Multiset.le_add_left _ _)) _

end S4Logs

import S4Logs.Gateway.Machine
import S4Logs.Laws.Gateway.Buffer

/-!
# What a step of the gateway can do

`CallMove` lists what a section or an answer can do to one call, and `GatewayMove` what
a label can do to the gateway, each with what its branch checked. Everything proved of
runs goes through them, never through the step functions.

A call owns the buffers it took out of the map (`CallPhase.bufs`). `CallMove.account`
says where the events go: what the map and the call held, and what a writer took, is
afterwards in the map, with the call, or in a stored chunk. Only a failed flush whose
key was made again meanwhile can leave less.
-/

namespace S4Logs

/-- The buffers a call holds. -/
def CallPhase.bufs : CallPhase → List (BufKey × Buf)
  | .flush f => f.rest
  | .put key buf _ _ _ f => (key, buf) :: f.rest
  | .failed key buf _ _ f => (key, buf) :: f.rest
  | _ => []

/-- The events of chunks together. -/
def chunksEvents (lib : CodecLib) (chunks : List (ChunkLocation × EncodedChunk)) :
    Multiset LogEvent := (chunks.map (chunkEvents lib)).sum

namespace Gateway

/-- The events in the map. -/
def buffered (m : BufferManager) (s : Gateway) : Multiset LogEvent := held m.lib s.buffers

/-- The events in buffers that calls took out of the map and did not flush yet. -/
def taken (m : BufferManager) (s : Gateway) : Multiset LogEvent :=
  Assoc.total (fun c => held m.lib c.2.phase.bufs) s.calls

/-- The events in chunks that a `put_chunk` stored. -/
def stored (m : BufferManager) (s : Gateway) : Multiset LogEvent := chunksEvents m.lib s.chunks

end Gateway

variable {m : BufferManager} {s : Gateway} {origin : Origin}

/-! ## Moves of one call -/

/-- How a call goes on where nothing changes but its phase. -/
inductive Passes (m : BufferManager) (origin : Origin) :
    CallPhase → CallAct → CallPhase → Prop
  | room {order : List BufKey} : origin ≠ .replay →
      Passes m origin .begin (.reserve order) .append
  | empty {order : List BufKey} : origin ≠ .replay →
      Passes m origin .begin (.reserve order) .recheck
  | rejected : Passes m origin .recheck .recheck (.done (some .overCapacity))
  | admitted : Passes m origin .recheck .recheck .append
  | nothing {order : List BufKey} {ios : List EventIo} {fails : Option String}
      {undeleted : List String} : origin = .replay →
      Passes m origin .begin (.replay order ios fails undeleted) (.done none)
  | encoded {key : BufKey} {buf : Buf} {rest : List (BufKey × Buf)} {err : Option BufferError}
      {after : After} {uuid : String} {io : DeleteIo} {chunk : EncodedChunk} :
      buf.writer.encode m.lib = .ok (some chunk) →
      Passes m origin (.flush ⟨(key, buf) :: rest, err, after⟩) (.flushNext uuid io)
        (.put key buf (m.location key buf uuid) chunk .data ⟨rest, err, after⟩)
  | encodeFailed {key : BufKey} {buf : Buf} {rest : List (BufKey × Buf)}
      {err : Option BufferError} {after : After} {uuid : String} {io : DeleteIo} {e : ChunkError} :
      buf.writer.encode m.lib = .error e →
      Passes m origin (.flush ⟨(key, buf) :: rest, err, after⟩) (.flushNext uuid io)
        (.failed key buf none (.chunk e) ⟨rest, err, after⟩)
  | flushed {f : Flush} : f.rest = [] →
      Passes m origin (.flush f) .flushed (Gateway.afterFlush origin f)
  | putFailed {key : BufKey} {buf : Buf} {loc : ChunkLocation} {chunk : EncodedChunk}
      {stage : PutStage} {f : Flush} {io : DeleteIo} :
      Passes m origin (.put key buf loc chunk stage f) (.put none io)
        (.failed key buf (some chunk) .sink f)

/-- A section that pushes events: the append of a batch, or a replay that has any. -/
inductive Enters (m : BufferManager) (s : Gateway) : Origin → CallPhase → CallAct →
    List LogEvent → List EventIo → List BufKey → Option String → Prop
  | append {logGroup stream : String} {events : List InputLogEvent} {order : List BufKey}
      {ios : List EventIo} {fails : Option String} : ios.length = events.length →
      Enters m s (.push logGroup stream events) .append (.append order ios fails)
        (batchEvents logGroup stream events) ios order fails
  | replay {order : List BufKey} {ios : List EventIo} {fails : Option String}
      {undeleted : List String} : m.cfg.walDir ≠ none → scanDir m.entries s.disk ≠ [] →
      ios.length = (Gateway.survivingEvents (scanDir m.entries s.disk)).length →
      Enters m s .replay .begin (.replay order ios fails undeleted)
        (Gateway.survivingEvents (scanDir m.entries s.disk)) ios order fails

/-- What a section or an answer does. -/
inductive CallMove (m : BufferManager) (s : Gateway) (origin : Origin) :
    CallPhase → CallAct → CallEffect → Prop
  | pass {p p' : CallPhase} {a : CallAct} : Passes m origin p a p' →
      CallMove m s origin p a (s.goes p')
  | take {a : CallAct} (due rest : List (BufKey × Buf)) (after : After) :
      (due ++ rest).Perm s.buffers → (after = .finish → origin.batch = []) → origin ≠ .replay →
      CallMove m s origin .begin a { s.goes (.flushTaken due after) with buffers := rest }
  | pushFails {p : CallPhase} {a : CallAct} {events : List LogEvent} {ios : List EventIo}
      {order : List BufKey} {fails : Option String} {l : Locked} {pushed : List LogEvent}
      {e : BufferError} : Enters m s origin p a events ios order fails →
      m.pushAll s.lock (events.zip ios) = (l, pushed, some e) →
      CallMove m s origin p a
        (s.leaves l pushed (if origin = .replay then pushed else []) (.done (some e)))
  | syncFails {p : CallPhase} {a : CallAct} {events : List LogEvent} {ios : List EventIo}
      {order : List BufKey} {fails : Option String} {l l' : Locked} {pushed : List LogEvent} :
      Enters m s origin p a events ios order fails →
      m.pushAll s.lock (events.zip ios) = (l, pushed, none) → l.sync order fails = (l', false) →
      CallMove m s origin p a
        (s.leaves l' pushed (if origin = .replay then pushed else []) (.done (some .wal)))
  | accept {p : CallPhase} {a : CallAct} {events : List LogEvent} {ios : List EventIo}
      {order : List BufKey} {fails : Option String} {l l' : Locked} {pushed : List LogEvent}
      (old : List DiskOp) (due rest : List (BufKey × Buf)) :
      Enters m s origin p a events ios order fails →
      m.pushAll s.lock (events.zip ios) = (l, pushed, none) → l.sync order fails = (l', true) →
      (due ++ rest).Perm l'.buffers →
      (∀ op ∈ old, ∃ seg ∈ scanDir m.entries s.disk, op = .remove seg.name) →
      (origin ≠ .replay → old = []) →
      CallMove m s origin p a
        (s.leaves ({ l' with buffers := rest }.io old) pushed pushed (.flushTaken due .finish))
  | retire {key : BufKey} {buf : Buf} {rest : List (BufKey × Buf)} {err : Option BufferError}
      {after : After} {uuid : String} {io : DeleteIo} : buf.writer.encode m.lib = .ok none →
      CallMove m s origin (.flush ⟨(key, buf) :: rest, err, after⟩) (.flushNext uuid io)
        { s.goes (.flush ⟨rest, err, after⟩) with
          lastFlushOk := true
          ops := buf.retire io }
  | putNext {key : BufKey} {buf : Buf} {loc : ChunkLocation} {chunk : EncodedChunk}
      {stage stage' : PutStage} {f : Flush} {etag : Option String} {io : DeleteIo} :
      putNext m.sink loc chunk etag stage = .inl stage' →
      CallMove m s origin (.put key buf loc chunk stage f) (.put (some etag) io)
        { s.goes (.put key buf loc chunk stage' f) with
          objects := if stage = .data then [(loc, chunk)] else [] }
  | putDone {key : BufKey} {buf : Buf} {loc : ChunkLocation} {chunk : EncodedChunk}
      {stage : PutStage} {f : Flush} {etag : Option String} {io : DeleteIo}
      {receipt : PutReceipt} : putNext m.sink loc chunk etag stage = .inr receipt →
      CallMove m s origin (.put key buf loc chunk stage f) (.put (some etag) io)
        { s.goes (.flush f) with
          lastFlushOk := true
          ops := buf.retire io
          objects := if stage = .data then [(loc, chunk)] else []
          chunks := [(loc, chunk)] }
  | reinsert {key : BufKey} {buf : Buf} {chunk : Option EncodedChunk} {err : BufferError}
      {f : Flush} : CallMove m s origin (.failed key buf chunk err f) .reinsert
        { s.goes (.flush { f with firstErr := f.firstErr.or (some err) }) with
          buffers := m.reinsert s.buffers key buf chunk
          lastFlushOk := false }

/-- The step function does what the moves list. -/
theorem callStep_move {p : CallPhase} {a : CallAct} {e : CallEffect}
    (h : s.callStep m origin p a = some e) : CallMove m s origin p a e := by
  cases a with
  | reserve order =>
    simp only [Gateway.callStep] at h
    split at h
    next =>
      cases h
      unfold Gateway.reserve
      split
      next => exact .pass (.room nofun)
      next =>
        split
        next => exact .pass (.empty nofun)
        next e rest hlargest =>
          refine .take [e] rest .recheck ?_ nofun nofun
          exact (takeLargest_perm hlargest).symm.trans (inOrder_perm _ _)
    next => cases h
  | recheck =>
    simp only [Gateway.callStep] at h
    split at h
    next =>
      cases h
      unfold Gateway.stillOver
      split
      next => exact .pass .rejected
      next => exact .pass .admitted
    next => cases h
  | append order ios fails =>
    simp only [Gateway.callStep] at h
    split at h
    next =>
      split at h
      next hlen =>
        cases h
        unfold Gateway.acceptBatch
        split
        next hpush => exact .pushFails (.append hlen) hpush
        next hpush =>
          split
          next hsync => exact .syncFails (.append hlen) hpush hsync
          next l l' hsync =>
            have hmoved := fun due rest hperm => CallMove.accept (a := .append order ios fails) []
              due rest (.append hlen) hpush hsync hperm nofun (fun _ => rfl)
            simp only [Locked.io_nil] at hmoved
            refine hmoved _ _ ?_
            rw [List.append_assoc]
            exact ((takeOver_perm _ _ _).append_left _).trans (List.filter_append_perm _ _)
      next => cases h
    next => cases h
  | take order nowMs =>
    simp only [Gateway.callStep] at h
    split at h
    next =>
      cases h
      exact .take _ _ .finish ((List.filter_append_perm _ _).trans (inOrder_perm _ _)) (fun _ => rfl) nofun
    next =>
      cases h
      exact .take _ _ .finish ((List.filter_append_perm _ _).trans (inOrder_perm _ _)) (fun _ => rfl) nofun
    next => cases h
  | replay order ios fails undeleted =>
    simp only [Gateway.callStep] at h
    split at h
    next =>
      split at h
      next hlen =>
        cases h
        unfold Gateway.replayWal
        dsimp only
        split
        next => exact .pass (.nothing rfl)
        next hsome =>
          rw [not_or] at hsome
          split
          next hpush => exact .pushFails (.replay hsome.1 hsome.2 hlen) hpush
          next hpush =>
            split
            next hsync => exact .syncFails (.replay hsome.1 hsome.2 hlen) hpush hsync
            next l l' hsync =>
              refine .accept _ _ _ (.replay hsome.1 hsome.2 hlen) hpush hsync
                (List.filter_append_perm _ _) ?_ (fun hne => absurd rfl hne)
              intro op hop
              obtain ⟨name, hname, rfl⟩ := List.mem_map.mp hop
              obtain ⟨seg, hseg, rfl⟩ := List.mem_map.mp (List.mem_filter.mp hname).1
              exact ⟨seg, hseg, rfl⟩
      next => cases h
    next => cases h
  | flushNext uuid io =>
    simp only [Gateway.callStep] at h
    split at h
    next f =>
      obtain ⟨rest, err, after⟩ := f
      unfold Gateway.flushOne at h
      split at h
      next => cases h
      next key buf rest' hrest =>
        cases hrest
        dsimp only at h
        split at h
        next chunk hencode =>
          cases h
          exact .pass (.encoded hencode)
        next hencode =>
          cases h
          exact .retire hencode
        next e hencode =>
          cases h
          exact .pass (.encodeFailed hencode)
    next => cases h
  | flushed =>
    simp only [Gateway.callStep] at h
    split at h
    next f =>
      split at h
      next hrest =>
        cases h
        exact .pass (.flushed hrest)
      next => cases h
    next => cases h
  | put answer io =>
    simp only [Gateway.callStep] at h
    split at h
    next key buf loc chunk stage f =>
      cases h
      unfold Gateway.putAnswer
      split
      next => exact .pass .putFailed
      next etag =>
        dsimp only
        split
        next hnext => exact .putNext hnext
        next hnext => exact .putDone hnext
    next => cases h
  | reinsert =>
    simp only [Gateway.callStep] at h
    split at h
    next =>
      cases h
      exact .reinsert
    next => cases h

/-- Only an answer of the sink stores anything, and what it stores is the chunk it was
waited for. -/
theorem CallMove.stores {p : CallPhase} {a : CallAct} {e : CallEffect}
    (h : CallMove m s origin p a e) {o : ChunkLocation × EncodedChunk}
    (ho : o ∈ e.objects ∨ o ∈ e.chunks) : ∃ key buf stage f, p = .put key buf o.1 o.2 stage f := by
  cases h with
  | @putNext key buf loc chunk stage stage' f =>
    have ho := ho.resolve_right List.not_mem_nil
    obtain rfl : o = (loc, chunk) := by
      dsimp only at ho
      split at ho
      next => exact List.mem_singleton.mp ho
      next => exact absurd ho List.not_mem_nil
    exact ⟨key, buf, stage, f, rfl⟩
  | @putDone key buf loc chunk stage f =>
    obtain rfl : o = (loc, chunk) := by
      rcases ho with ho | ho
      · dsimp only at ho
        split at ho
        next => exact List.mem_singleton.mp ho
        next => exact absurd ho List.not_mem_nil
      · exact List.mem_singleton.mp ho
    exact ⟨key, buf, stage, f, rfl⟩
  | pass => exact absurd ho (not_or.mpr ⟨List.not_mem_nil, List.not_mem_nil⟩)
  | take => exact absurd ho (not_or.mpr ⟨List.not_mem_nil, List.not_mem_nil⟩)
  | pushFails => exact absurd ho (not_or.mpr ⟨List.not_mem_nil, List.not_mem_nil⟩)
  | syncFails => exact absurd ho (not_or.mpr ⟨List.not_mem_nil, List.not_mem_nil⟩)
  | accept => exact absurd ho (not_or.mpr ⟨List.not_mem_nil, List.not_mem_nil⟩)
  | retire => exact absurd ho (not_or.mpr ⟨List.not_mem_nil, List.not_mem_nil⟩)
  | reinsert => exact absurd ho (not_or.mpr ⟨List.not_mem_nil, List.not_mem_nil⟩)

/-- One section stores one chunk at most. -/
theorem CallMove.chunks_at_most {p : CallPhase} {a : CallAct} {e : CallEffect}
    (h : CallMove m s origin p a e) : e.chunks = [] ∨ ∃ o, e.chunks = [o] := by
  cases h with
  | putDone => exact .inr ⟨_, rfl⟩
  | pass => exact .inl rfl
  | take => exact .inl rfl
  | pushFails => exact .inl rfl
  | syncFails => exact .inl rfl
  | accept => exact .inl rfl
  | retire => exact .inl rfl
  | putNext => exact .inl rfl
  | reinsert => exact .inl rfl

/-- A call that has nothing left to flush looks again at the cap, or is done. -/
theorem afterFlush_cases (origin : Origin) (f : Flush) :
    Gateway.afterFlush origin f = .recheck ∨ ∃ err, Gateway.afterFlush origin f = .done err := by
  unfold Gateway.afterFlush
  split
  next => exact .inl rfl
  next => split <;> exact .inr ⟨_, rfl⟩

/-- A call never comes back to its start. -/
theorem CallMove.not_begin (h : CallMove m s origin p a e) : e.phase ≠ .begin := by
  cases h with
  | pass hpass =>
    cases hpass with
    | @flushed f =>
      show Gateway.afterFlush origin f ≠ .begin
      rcases afterFlush_cases origin f with h | ⟨err, h⟩ <;> rw [h] <;> nofun
    | room => nofun
    | empty => nofun
    | rejected => nofun
    | admitted => nofun
    | nothing => nofun
    | encoded => nofun
    | encodeFailed => nofun
    | putFailed => nofun
  | take => nofun
  | pushFails => nofun
  | syncFails => nofun
  | accept => nofun
  | retire => nofun
  | putNext => nofun
  | putDone => nofun
  | reinsert => nofun

/-! ## Moves of the gateway -/

/-- The data object landed before, or is the one that a call waits for. -/
def Gateway.Knows (s : Gateway) (o : ChunkLocation × EncodedChunk) : Prop :=
  o ∈ s.objects ∨ ∃ c ∈ s.calls, ∃ key buf stage f, c.2.phase = .put key buf o.1 o.2 stage f

theorem CallPhase.mem_pending {p : CallPhase} {o : ChunkLocation × EncodedChunk}
    (h : o ∈ p.pending) : ∃ key buf f, p = .put key buf o.1 o.2 .data f := by
  unfold CallPhase.pending at h
  split at h
  next key buf loc chunk f =>
    rw [List.mem_singleton.mp h]
    exact ⟨key, buf, f, rfl⟩
  next => cases h

/-- What a label does. -/
inductive GatewayMove (m : BufferManager) (s : Gateway) : GatewayLabel → Gateway → Prop
  | boot : s.mode = .down → GatewayMove m s .boot { s.exited with
      mode := .replaying
      calls := [(0, ⟨.replay, .begin⟩)] }
  | call {id : Nat} {origin : Origin} : s.mode = .serving → id ∉ Assoc.keys s.calls →
      origin ≠ .replay → GatewayMove m s (.call id origin)
        { s with calls := s.calls ++ [(id, ⟨origin, .begin⟩)] }
  | act {id : Nat} {a : CallAct} {c : Call} {e : CallEffect} : Assoc.get? id s.calls = some c →
      CallMove m s c.origin c.phase a e → GatewayMove m s (.act id a) (s.commit id c.origin e)
  | served {id : Nat} {calls : List (Nat × Call)} :
      Assoc.remove id s.calls = some (⟨.replay, .done none⟩, calls) →
      GatewayMove m s (.reply id) { s with
        mode := .serving
        calls := calls }
  | unserved {id : Nat} {err : BufferError} {calls : List (Nat × Call)} :
      Assoc.remove id s.calls = some (⟨.replay, .done (some err)⟩, calls) →
      GatewayMove m s (.reply id) s.exited
  | acked {id : Nat} {origin : Origin} {calls : List (Nat × Call)} : origin ≠ .replay →
      Assoc.remove id s.calls = some (⟨origin, .done none⟩, calls) →
      GatewayMove m s (.reply id) { s with
        calls := calls
        acked := s.acked ++ origin.batch }
  | refused {id : Nat} {origin : Origin} {err : BufferError} {calls : List (Nat × Call)} :
      origin ≠ .replay → Assoc.remove id s.calls = some (⟨origin, .done (some err)⟩, calls) →
      GatewayMove m s (.reply id) { s with calls := calls }
  | drop {id : Nat} {landed : Bool} {c : Call} {calls : List (Nat × Call)} :
      Assoc.remove id s.calls = some (c, calls) → c.phase.waits = true →
      GatewayMove m s (.drop id landed) { s with
        calls := calls
        objects := s.objects ++ if landed then c.phase.pending else [] }
  | crash {during : Option (Nat × CallAct)} {ops : Nat} {landed : List Nat}
      {after : List (String × Bytes)} (objects chunks : List (ChunkLocation × EncodedChunk)) :
      (∀ o ∈ objects, s.Knows o) → (∀ d ∈ during, ∃ c e, Assoc.get? d.1 s.calls = some c ∧
        CallMove m s c.origin c.phase d.2 e ∧ s.effect m d.1 d.2 = some e ∧ chunks = e.chunks) →
      (during = none → chunks = []) →
      GatewayMove m s (.crash during ops landed after) { s.exited with
        disk := .crashed after
        objects := objects
        chunks := s.chunks ++ chunks }

/-- The step function of the gateway does what the moves list. -/
theorem gatewayStep_move {l : GatewayLabel} {t : Gateway} (h : gatewayStep m s l = some t) :
    GatewayMove m s l t := by
  cases l with
  | boot =>
    simp only [gatewayStep] at h
    split at h
    next hmode =>
      cases h
      exact .boot hmode
    next => cases h
  | call id origin =>
    simp only [gatewayStep] at h
    split at h
    next hc =>
      cases h
      exact .call hc.1 hc.2.1 hc.2.2
    next => cases h
  | act id a =>
    simp only [gatewayStep] at h
    split at h
    next => cases h
    next c hget =>
      obtain ⟨e, he, rfl⟩ := Option.map_eq_some_iff.mp h
      exact .act hget (callStep_move he)
  | reply id =>
    simp only [gatewayStep] at h
    split at h
    next => cases h
    next c calls hremove =>
      obtain ⟨origin, phase⟩ := c
      dsimp only at h
      split at h
      next =>
        cases h
        exact .served hremove
      next =>
        cases h
        exact .unserved hremove
      next hne =>
        cases h
        exact .acked (fun heq => hne heq) hremove
      next hne =>
        cases h
        exact .refused (fun heq => hne heq) hremove
      next => cases h
  | drop id landed =>
    simp only [gatewayStep] at h
    split at h
    next => cases h
    next c calls hremove =>
      split at h
      next =>
        split at h
        next hwaits =>
          cases h
          exact .drop hremove hwaits
        next => cases h
      next => cases h
  | crash during ops landed after =>
    simp only [gatewayStep] at h
    have hpending : ∀ o ∈ (s.calls.filter fun e => landed.contains e.1).flatMap
        fun e => e.2.phase.pending, s.Knows o := by
      intro o ho
      obtain ⟨c, hc, ho⟩ := List.mem_flatMap.mp ho
      obtain ⟨key, buf, f, hphase⟩ := CallPhase.mem_pending ho
      exact .inr ⟨c, (List.mem_filter.mp hc).1, key, buf, .data, f, hphase⟩
    cases during with
    | none =>
      cases h
      refine .crash _ [] (fun o ho => ?_) (fun d hd => by cases hd) fun _ => rfl
      rcases List.mem_append.mp ho with ho | ho
      · have ho : o ∈ s.objects ++ [] := ho
        rw [List.append_nil] at ho
        exact .inl ho
      · exact hpending o ho
    | some d =>
      obtain ⟨id, a⟩ := d
      obtain ⟨e, he, rfl⟩ := Option.map_eq_some_iff.mp h
      obtain ⟨c, hget, hc⟩ := Option.bind_eq_some_iff.mp he
      have hmove := callStep_move hc
      refine .crash _ e.chunks (fun o ho => ?_) (fun d hd => ?_) fun h => by cases h
      · rcases List.mem_append.mp ho with ho | ho
        · rcases List.mem_append.mp ho with ho | ho
          · exact .inl ho
          · exact .inr ⟨_, Assoc.mem_of_get? hget, hmove.stores (.inl ho)⟩
        · exact hpending o ho
      · cases hd
        exact ⟨c, e, hget, hmove, he, rfl⟩

/-! ## A replay runs alone -/

/-- A replay is the only call there is, nothing is served meanwhile, and it begins with an
empty map. -/
def Gateway.Alone (s : Gateway) : Prop :=
  ∀ c ∈ s.calls, c.2.origin = .replay →
    s.calls = [c] ∧ s.mode ≠ .serving ∧ (c.2.phase = .begin → s.buffers = [])

/-- No call is left besides a replay. -/
theorem Gateway.Alone.no_others {id : Nat} {c : Call} {rest : List (Nat × Call)} (h : s.Alone)
    (hremove : Assoc.remove id s.calls = some (c, rest)) (horigin : c.origin = .replay) :
    rest = [] := by
  have hperm := Assoc.remove_perm hremove
  obtain ⟨hone, -⟩ := h (id, c) (hperm.mem_iff.mpr List.mem_cons_self) horigin
  have hlen := hperm.length_eq
  rw [hone, List.length_singleton, List.length_cons] at hlen
  exact List.length_eq_zero_iff.mp (by omega)

/-- Where a call ends, no replay is left. -/
theorem Gateway.Alone.ended {id : Nat} {c c' : Call} {id' : Nat} {rest : List (Nat × Call)}
    (h : s.Alone) (hremove : Assoc.remove id s.calls = some (c, rest)) (hmem : (id', c') ∈ rest) :
    c'.origin ≠ .replay := by
  intro horigin
  have hperm := Assoc.remove_perm hremove
  obtain ⟨hone, -⟩ := h (id', c') (hperm.mem_iff.mpr (List.mem_cons_of_mem _ hmem)) horigin
  have hlen := hperm.length_eq
  rw [hone, List.length_singleton, List.length_cons] at hlen
  rw [List.length_eq_zero_iff.mp (show rest.length = 0 by omega)] at hmem
  cases hmem

theorem Gateway.Alone.step {l : GatewayLabel} {t : Gateway} (h : s.Alone)
    (hstep : gatewayStep m s l = some t) : t.Alone := by
  cases gatewayStep_move hstep with
  | boot hdown =>
    intro c hc _
    rw [List.mem_singleton.mp hc]
    exact ⟨rfl, nofun, fun _ => rfl⟩
  | @call id origin hserving _ horigin =>
    intro c hc hreplay
    rcases List.mem_append.mp hc with hc | hc
    · exact absurd hserving (h c hc hreplay).2.1
    · rw [List.mem_singleton.mp hc] at hreplay
      exact absurd hreplay horigin
  | @act id a c e hget hmove =>
    obtain ⟨rest, hremove⟩ := Assoc.get?_eq_some.mp hget
    have hinsert := Assoc.insert_perm ⟨c.origin, e.phase⟩ hremove
    have hmem := Assoc.mem_of_get? hget
    intro c' hc' horigin
    by_cases hreplay : c.origin = .replay
    · rw [h.no_others hremove hreplay] at hinsert
      have hone := List.perm_singleton.mp hinsert
      have hc' : c' ∈ Assoc.insert id ⟨c.origin, e.phase⟩ s.calls := hc'
      rw [hone, List.mem_singleton] at hc'
      refine ⟨?_, (h _ hmem hreplay).2.1, fun hbegin => ?_⟩
      · rw [hc']
        exact hone
      · rw [hc'] at hbegin
        exact absurd hbegin hmove.not_begin
    · rcases Assoc.mem_insert hc' with heq | hold
      · rw [heq] at horigin
        exact absurd horigin hreplay
      · rw [(h c' hold horigin).1, List.mem_singleton] at hmem
        rw [← hmem] at horigin
        exact absurd horigin hreplay
  | served hremove => exact fun c hc horigin => absurd horigin (h.ended hremove hc)
  | unserved => exact fun c hc _ => absurd hc List.not_mem_nil
  | acked _ hremove => exact fun c hc horigin => absurd horigin (h.ended hremove hc)
  | refused _ hremove => exact fun c hc horigin => absurd horigin (h.ended hremove hc)
  | drop hremove => exact fun c hc horigin => absurd horigin (h.ended hremove hc)
  | crash => exact fun c hc _ => absurd hc List.not_mem_nil

end S4Logs

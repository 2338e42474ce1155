import S4Logs.Gateway.Concrete
import S4Logs.Laws.Gateway.Disk
import S4Logs.Laws.Gateway.Ledger
import S4Logs.Laws.Gateway.Section

/-!
# A batch that is refused

A batch is pushed event by event, and an event that a writer took stays there when a later
event of the batch fails, or the sync after all of them. The batch is then refused though
some of it is buffered, and is stored with the rest.

Whether that happens can be told before: from the buffers there are and their segments,
from the files on the disk, and from how each write of the batch is going to end
(`LogView`). A section that takes all of its batch or none of it keeps what is buffered
and stored within what was accepted.
-/

namespace S4Logs

variable {m : BufferManager} {s t : Gateway}

/-! ## What the log is going to answer -/

/-- The buffers with the segment of each, the segments that a sync has to sync, and the
files on the disk. -/
structure LogView where
  segments : List (BufKey × Option String)
  dirty : List String
  files : List String

def Locked.view (l : Locked) : LogView where
  segments := l.buffers.map fun e => (e.1, e.2.wal.map WalSegment.name)
  dirty := l.buffers.filterMap fun e => (e.2.wal.filter WalSegment.dirty).map WalSegment.name
  files := Assoc.keys l.disk.files

namespace LogView

/-- The view after an event whose writes end like this, if the log takes the event. -/
def take (m : BufferManager) (v : LogView) (ev : LogEvent) (io : EventIo) : Option LogView :=
  match Assoc.get? ev.key v.segments with
  | some none => some v
  | some (some name) =>
    if io.torn = none then some { v with dirty := name :: v.dirty } else none
  | none =>
    if m.cfg.walDir = none then some { v with segments := Assoc.insert ev.key none v.segments }
    else
      let name := WalSegment.fileName ev.key.1 ev.key.2 io.uuid
      if io.opened = true ∧ name ∉ v.files ∧ io.torn = none then
        some {
          segments := Assoc.insert ev.key (some name) v.segments
          dirty := name :: v.dirty
          files := name :: v.files }
      else none

/-- The view after all the events. -/
def takeAll (m : BufferManager) : LogView → List (LogEvent × EventIo) → Option LogView
  | v, [] => some v
  | v, (ev, io) :: rest => (v.take m ev io).bind fun v => takeAll m v rest

/-- The log takes every event and then syncs, or takes not even the first. -/
def AllOrNothing (m : BufferManager) (v : LogView) (fails : Option String)
    (items : List (LogEvent × EventIo)) : Prop :=
  match items with
  | [] => True
  | (ev, io) :: rest =>
    match v.take m ev io with
    | none => True
    | some v =>
      match v.takeAll m rest with
      | none => False
      | some v => ∀ name ∈ fails, name ∉ v.dirty

instance AllOrNothing.decidable (m : BufferManager) (v : LogView) (fails : Option String) :
    ∀ items, Decidable (AllOrNothing m v fails items)
  | [] => inferInstanceAs (Decidable True)
  | (ev, io) :: rest =>
    match h : v.take m ev io with
    | none => .isTrue (by simp only [AllOrNothing, h])
    | some v' =>
      match h' : v'.takeAll m rest with
      | none => .isFalse (by simp only [AllOrNothing, h, h', not_false_eq_true])
      | some v'' => decidable_of_iff (∀ name ∈ fails, name ∉ v''.dirty) (by
          simp only [AllOrNothing, h, h'])

end LogView

/-- What the map and the disk show is what the view says. -/
structure Sees (l : Locked) (v : LogView) : Prop where
  segments : ∀ key, (Assoc.get? key l.buffers).map (fun buf => buf.wal.map WalSegment.name) =
    Assoc.get? key v.segments
  dirty : ∀ e ∈ l.buffers, ∀ seg ∈ e.2.wal, seg.dirty = true → seg.name ∈ v.dirty
  files : ∀ name, name ∈ Assoc.keys l.disk.files ↔ name ∈ v.files

theorem sees_view (l : Locked) : Sees l l.view where
  segments key := by
    unfold Locked.view
    generalize l.buffers = bufs
    induction bufs with
    | nil => rfl
    | cons e bufs ih =>
      obtain ⟨k, buf⟩ := e
      rw [List.map_cons, Assoc.get?_cons, Assoc.get?_cons]
      split
      next => rfl
      next => exact ih
  dirty e he seg hseg hdirty := by
    refine List.mem_filterMap.mpr ⟨e, he, ?_⟩
    rw [Option.mem_def.mp hseg, Option.filter_some, if_pos hdirty]
    rfl
  files _ := Iff.rfl

/-- A buffer that is put is seen. -/
theorem Sees.set {l : Locked} {v : LogView} (h : Sees l v) (key : BufKey) (buf : Buf)
    (dirty : List String) (hdirty : ∀ name ∈ v.dirty, name ∈ dirty)
    (hbuf : ∀ seg ∈ buf.wal, seg.dirty = true → seg.name ∈ dirty) :
    Sees (l.set key buf) { v with
      segments := Assoc.insert key (buf.wal.map WalSegment.name) v.segments
      dirty := dirty } where
  segments key' := by
    show (Assoc.get? key' (Assoc.insert key buf l.buffers)).map _ = _
    by_cases hkey : key = key'
    · subst hkey
      rw [Assoc.get?_insert, Assoc.get?_insert]
      rfl
    · rw [Assoc.get?_insert_of_ne hkey, Assoc.get?_insert_of_ne hkey]
      exact h.segments key'
  dirty e he seg hseg hd := by
    rcases Assoc.mem_insert he with rfl | he
    · exact hbuf seg hseg hd
    · exact hdirty _ (h.dirty e he seg hseg hd)
  files := h.files

theorem Sees.append {l : Locked} {v : LogView} (h : Sees l v) (name : String) (bytes : Bytes) :
    Sees (l.io [.append name bytes]) v where
  segments := h.segments
  dirty := h.dirty
  files n := by
    show n ∈ Assoc.keys (l.disk.apply (.append name bytes)).files ↔ _
    rw [Disk.keys_apply]
    exact h.files n

theorem Sees.create {l : Locked} {v : LogView} (h : Sees l v) (name : String) (io : EventIo) :
    Sees (l.io (createOps name io)) { v with files := name :: v.files } where
  segments := h.segments
  dirty := h.dirty
  files n := by
    have hkeys : Assoc.keys (l.disk.applyAll (createOps name io)).files =
        Assoc.keys l.disk.files ++ [name] := by
      unfold createOps
      split
      next =>
        show Assoc.keys ((l.disk.apply (.create name)).apply .syncDir).files = _
        rw [Disk.keys_apply, Disk.keys_apply]
      next =>
        show Assoc.keys (l.disk.apply (.create name)).files = _
        rw [Disk.keys_apply]
    show n ∈ Assoc.keys (l.disk.applyAll (createOps name io)).files ↔ _
    rw [hkeys, List.mem_append, List.mem_singleton, List.mem_cons, h.files n]
    exact or_comm

/-- A push does what the view says: without an error it leaves what the view shows, and
where the log refuses the event no writer has taken it. -/
theorem Sees.push {l l' : Locked} {v : LogView} (h : Sees l v) (total : m.lib.zstd.Total)
    (hsound : AllSound m.lib l.buffers) {ev : LogEvent} {io : EventIo} {pushed : Bool}
    {err : Option BufferError} (hmove : PushMove m l ev io l' pushed err) :
    match v.take m ev io with
    | none => pushed = false ∧ err ≠ none
    | some v' => err = none ∧ Sees l' v' := by
  have hseg := h.segments ev.key
  have hfit : ∀ {l₁ : Locked} {buf : Buf}, Opened m l ev.key ev.record.timestamp io l₁ buf →
      (err = none ↔ (buf.writer.push m.lib ev.record).2 = .ok ()) → err = none := by
    intro l₁ buf hopened herr
    obtain ⟨rs, hrs⟩ := hopened.sound hsound
    exact herr.mpr (hrs.push_ok total ev.record)
  unfold LogView.take
  cases hmove with
  | unopened hun =>
    obtain ⟨hget, hdir, hbad⟩ := hun
    rw [hget] at hseg
    have hcond : ¬ (io.opened = true ∧
        WalSegment.fileName ev.key.1 ev.key.2 io.uuid ∉ v.files ∧ io.torn = none) := by
      rintro ⟨hopened, hfree, -⟩
      rcases hbad with hclosed | htaken
      · rw [hclosed] at hopened
        cases hopened
      · exact hfree ((h.files _).mp htaken)
    simp only [← hseg, Option.map_none, if_neg hdir, if_neg hcond]
    exact ⟨trivial, Option.some_ne_none _⟩
  | torn hopened hwal htorn =>
    cases hopened with
    | found hget =>
      rw [hget, Option.map_some, hwal] at hseg
      simp only [← hseg, Option.map_some, htorn, reduceCtorEq, if_false]
      exact ⟨trivial, Option.some_ne_none _⟩
    | plain => cases hwal
    | logged hget hdir =>
      rw [hget] at hseg
      simp only [← hseg, Option.map_none, if_neg hdir, htorn, reduceCtorEq, and_false, if_false]
      exact ⟨trivial, Option.some_ne_none _⟩
  | @unlogged l₁ buf writer err hopened hwal hwriter herr =>
    have hok := hfit hopened herr
    cases hopened with
    | found hget =>
      rw [hget, Option.map_some, hwal, Option.map_none] at hseg
      simp only [← hseg]
      refine ⟨hok, ?_⟩
      have hset := h.set ev.key { buf with writer := writer } v.dirty (fun _ hn => hn) (by
        intro seg hmem
        rw [hwal] at hmem
        cases hmem)
      have hsame : Assoc.insert ev.key (buf.wal.map WalSegment.name) v.segments = v.segments := by
        rw [hwal, Option.map_none, Assoc.insert_get? hseg.symm]
      dsimp only at hset
      rwa [hsame] at hset
    | plain hget hdir =>
      rw [hget, Option.map_none] at hseg
      simp only [← hseg, if_pos hdir]
      rw [Locked.set_set]
      exact ⟨hok, h.set ev.key _ _ (fun _ hn => hn) fun seg hseg => by cases hseg⟩
    | logged => cases hwal
  | @logged l₁ buf seg writer err hopened hwal htorn hwriter herr =>
    have hok := hfit hopened herr
    cases hopened with
    | found hget =>
      rw [hget, Option.map_some, hwal, Option.map_some] at hseg
      simp only [← hseg, if_pos htorn]
      refine ⟨hok, ?_⟩
      have hset := (h.append seg.name (ev.line m.entries)).set ev.key { buf with
          writer := writer
          wal := some { seg with dirty := true } } (seg.name :: v.dirty)
        (fun _ hn => List.mem_cons_of_mem _ hn) (by
          intro seg' hmem _
          cases hmem
          exact List.mem_cons_self)
      rwa [Option.map_some, Assoc.insert_get? hseg.symm] at hset
    | plain => cases hwal
    | @logged name hget hdir hname hopened hfree =>
      rw [hget, Option.map_none] at hseg
      have hfiles : name ∉ v.files := fun hmem => hfree ((h.files name).mpr hmem)
      cases hwal
      subst hname
      simp only [← hseg, if_neg hdir, if_pos (And.intro hopened (And.intro hfiles htorn))]
      refine ⟨hok, ?_⟩
      rw [Locked.io_set, Locked.set_set]
      exact ((h.create _ io).append _ _).set ev.key _ _
        (fun _ hn => List.mem_cons_of_mem _ hn) (by
          intro seg' hmem _
          cases hmem
          exact List.mem_cons_self)

/-- Pushes do what the view says. -/
theorem Sees.pushAll (total : m.lib.zstd.Total) {items : List (LogEvent × EventIo)} :
    ∀ {l l' : Locked} {v v' : LogView} {pushed : List LogEvent} {err : Option BufferError},
    Sees l v → AllSound m.lib l.buffers → m.pushAll l items = (l', pushed, err) →
    v.takeAll m items = some v' → err = none ∧ Sees l' v' := by
  induction items with
  | nil =>
    intro l l' v v' pushed err h _ hpush htake
    cases hpush
    cases htake
    exact ⟨rfl, h⟩
  | cons item items ih =>
    intro l l' v v' pushed err h hsound hpush htake
    obtain ⟨ev, io⟩ := item
    obtain ⟨v₁, hone, htake⟩ := Option.bind_eq_some_iff.mp htake
    cases hpushed : m.pushOne l ev.logGroup ev.record io with
    | mk l₁ r =>
      obtain ⟨took, e⟩ := r
      have hsees := h.push total hsound (pushOne_move hpushed)
      rw [hone] at hsees
      obtain ⟨rfl, hsees⟩ := hsees
      simp only [BufferManager.pushAll, hpushed] at hpush
      cases hpush
      exact ih hsees (pushOne_spec hsound hpushed).1 rfl htake

theorem syncWal_fails {name : Option String} : ∀ {bufs : Buffers},
    (∀ e ∈ bufs, ∀ seg ∈ e.2.wal, seg.dirty = true → name ≠ some seg.name) →
    (syncWal name bufs).2.2 = true
  | [], _ => rfl
  | (key, buf) :: rest, h => by
    have ih := syncWal_fails fun e he => h e (List.mem_cons_of_mem _ he)
    unfold syncWal
    cases hwal : buf.wal with
    | none => exact ih
    | some seg =>
      have hone := h (key, buf) List.mem_cons_self seg hwal
      have hok : (seg.sync (name = some seg.name)).2.2 = true := by
        unfold WalSegment.sync
        split
        next => rfl
        next hdirty =>
          rw [if_neg (by simpa using hone (by simpa using hdirty))]
      simp only [hok, if_true]
      exact ih

/-- A sync that fails on no segment it has to sync succeeds. -/
theorem Sees.sync {l : Locked} {v : LogView} (h : Sees l v) (order : List BufKey)
    {fails : Option String} (hfails : ∀ name ∈ fails, name ∉ v.dirty) :
    (l.sync order fails).2 = true := by
  refine syncWal_fails fun e he seg hseg hdirty heq => ?_
  refine hfails seg.name (by rw [heq]; rfl) (h.dirty e ?_ seg hseg hdirty)
  exact (inOrder_perm _ _).mem_iff.mp he

/-- All or nothing is what happens. -/
theorem LogView.AllOrNothing.spec {l l' : Locked} {items : List (LogEvent × EventIo)}
    {fails : Option String} {pushed : List LogEvent} {err : Option BufferError}
    (total : m.lib.zstd.Total) (hsound : AllSound m.lib l.buffers)
    (hpush : m.pushAll l items = (l', pushed, err)) (h : l.view.AllOrNothing m fails items) :
    pushed = [] ∨ err = none ∧ ∀ order, (l'.sync order fails).2 = true := by
  cases items with
  | nil =>
    cases hpush
    exact .inl rfl
  | cons item rest =>
    obtain ⟨ev, io⟩ := item
    unfold LogView.AllOrNothing at h
    cases htake : l.view.take m ev io with
    | none =>
      cases hone : m.pushOne l ev.logGroup ev.record io with
      | mk l₁ r =>
        obtain ⟨took, e⟩ := r
        have hrefused := (sees_view l).push total hsound (pushOne_move hone)
        rw [htake] at hrefused
        obtain ⟨rfl, herr⟩ := hrefused
        obtain ⟨e, rfl⟩ := Option.ne_none_iff_exists'.mp herr
        simp only [BufferManager.pushAll, hone] at hpush
        cases hpush
        exact .inl rfl
    | some v =>
      simp only [htake] at h
      cases hall : v.takeAll m rest with
      | none =>
        rw [hall] at h
        exact absurd h not_false
      | some v' =>
        rw [hall] at h
        have htakes : l.view.takeAll m ((ev, io) :: rest) = some v' := by
          rw [LogView.takeAll, htake, Option.bind_some, hall]
        obtain ⟨hok, hsees⟩ := Sees.pushAll total (sees_view l) hsound hpush htakes
        exact .inr ⟨hok, fun order => hsees.sync order h⟩

/-! ## The invariant -/

/-- The section appends all of its batch, or none of it. -/
def AppendsWhole (m : BufferManager) (s : Gateway) : GatewayLabel → Prop
  | .act id (.append _ ios fails) =>
    ∀ c ∈ Assoc.get? id s.calls, s.lock.view.AllOrNothing m fails (c.origin.batch.zip ios)
  | _ => True

/-- What is buffered, taken and stored was accepted, and so was each data object. -/
structure Atomic (m : BufferManager) (s : Gateway) : Prop where
  sound : s.Sound m
  inPlay : s.inPlay m ≤ (s.accepted : Multiset LogEvent)
  objects : ∀ o ∈ s.objects, chunkEvents m.lib o ≤ (s.accepted : Multiset LogEvent)

/-- A section that appends all of its batch or none of it has taken in no more than it
accepted. -/
theorem CallMove.whole {p : CallPhase} {origin : Origin} {a : CallAct} {e : CallEffect}
    (total : m.lib.zstd.Total) (hs : AllSound m.lib s.buffers)
    (h : CallMove m s origin p a e)
    (hwhole : ∀ order ios fails, a = .append order ios fails →
      s.lock.view.AllOrNothing m fails (origin.batch.zip ios)) :
    (e.appended : Multiset LogEvent) ≤ (e.accepted : Multiset LogEvent) := by
  have hnil : (([] : List LogEvent) : Multiset LogEvent) ≤ (([] : List LogEvent) : Multiset LogEvent) :=
    le_rfl
  have hpushed : ∀ {events : List LogEvent} {ios : List EventIo} {order : List BufKey}
      {fails : Option String} {l : Locked} {pushed : List LogEvent} {err : Option BufferError},
      Enters m s origin p a events ios order fails →
      m.pushAll s.lock (events.zip ios) = (l, pushed, err) →
      (err ≠ none ∨ (l.sync order fails).2 ≠ true) →
      (pushed : Multiset LogEvent) ≤
        ((if origin = .replay then pushed else [] : List LogEvent) : Multiset LogEvent) := by
    intro events ios order fails l pushed err henters hpush hbad
    cases henters with
    | append =>
      rcases (hwhole _ _ _ rfl).spec total hs hpush with hnone | ⟨hok, hsync⟩
      · rw [hnone, ite_self]
      · exact absurd hbad (not_or.mpr ⟨not_not.mpr hok, not_not.mpr (hsync order)⟩)
    | replay => rw [if_pos rfl]
  cases h with
  | pushFails henters hpush => exact hpushed henters hpush (.inl nofun)
  | syncFails henters hpush hsync =>
    refine hpushed henters hpush (.inr ?_)
    rw [hsync]
    exact Bool.false_ne_true
  | accept => exact le_rfl
  | pass => exact hnil
  | take => exact hnil
  | retire => exact hnil
  | putNext => exact hnil
  | putDone => exact hnil
  | reinsert => exact hnil

/-- What was accepted grows by no less than what writers took in. -/
theorem accepted_step {l : GatewayLabel} (total : m.lib.zstd.Total) (h : s.Sound m)
    (hwhole : AppendsWhole m s l) (hstep : gatewayStep m s l = some t) {new : List LogEvent}
    (hnew : t.appended = s.appended ++ new) :
    (s.accepted : Multiset LogEvent) + (new : Multiset LogEvent) ≤
      (t.accepted : Multiset LogEvent) := by
  have hnone : t.appended = s.appended → t.accepted = s.accepted →
      (s.accepted : Multiset LogEvent) + (new : Multiset LogEvent) ≤
        (t.accepted : Multiset LogEvent) := by
    intro happended haccepted
    rw [happended, List.self_eq_append_right] at hnew
    rw [hnew, haccepted]
    exact (add_zero _).le
  cases gatewayStep_move hstep with
  | @act id a c e hget hmove =>
    have hadded := hmove.whole total h.buffers fun order ios fails ha => by
      subst ha
      exact hwhole c hget
    have heq : e.appended = new := List.append_cancel_left hnew
    rw [← heq]
    show _ ≤ ((s.accepted ++ e.accepted : List LogEvent) : Multiset LogEvent)
    rw [← Multiset.coe_add]
    exact add_le_add_right hadded _
  | boot => exact hnone rfl rfl
  | call => exact hnone rfl rfl
  | served => exact hnone rfl rfl
  | unserved => exact hnone rfl rfl
  | acked => exact hnone rfl rfl
  | refused => exact hnone rfl rfl
  | drop => exact hnone rfl rfl
  | crash => exact hnone rfl rfl

theorem Gateway.start_atomic : Atomic m Gateway.start :=
  ⟨Gateway.start_sound, le_rfl, fun _ ho => absurd ho List.not_mem_nil⟩

/-- The step lemma. -/
theorem Atomic.step {l : GatewayLabel} (total : m.lib.zstd.Total) (h : Atomic m s)
    (hwhole : AppendsWhole m s l) (hstep : gatewayStep m s l = some t) : Atomic m t := by
  obtain ⟨new, hnew, hle, -⟩ := inPlay_step h.sound hstep
  have hgrows := accepted_step total h.sound hwhole hstep hnew
  refine ⟨h.sound.step hstep, hle.trans ((add_le_add_left h.inPlay _).trans hgrows), fun o ho => ?_⟩
  have hmore : (s.accepted : Multiset LogEvent) ≤ (t.accepted : Multiset LogEvent) :=
    (Multiset.le_add_right _ _).trans hgrows
  rcases objects_step h.sound hstep ho with hold | htaken
  · exact (h.objects o hold).trans hmore
  · have hplay : s.taken m ≤ s.inPlay m :=
      (Multiset.le_add_left _ _).trans (Multiset.le_add_right _ _)
    exact htaken.trans (hplay.trans (h.inPlay.trans hmore))

/-- Where each batch is appended whole or not at all, every event in a buffer, with a call or
in a stored chunk was accepted, and so was every event in a data object: of a batch that was
refused there is none. -/
theorem refused_leaves_nothing (m : BufferManager) (total : m.lib.zstd.Total) {s : Gateway}
    (run : LTS.Reaches (gatewayStep m) (AppendsWhole m) Gateway.start s) :
    s.buffered m + s.taken m + s.stored m ≤ (s.accepted : Multiset LogEvent) ∧
      ∀ o ∈ s.objects, chunkEvents m.lib o ≤ (s.accepted : Multiset LogEvent) :=
  have h := run.invariant Gateway.start_atomic fun _ _ _ h hok hstep => h.step total hok hstep
  ⟨h.inPlay, h.objects⟩

instance AppendsWhole.decidable (m : BufferManager) (s : Gateway) :
    ∀ l, Decidable (AppendsWhole m s l)
  | .act id (.append _ ios fails) => inferInstanceAs (Decidable (∀ c ∈ Assoc.get? id s.calls,
      s.lock.view.AllOrNothing m fails (c.origin.batch.zip ios)))
  | .act _ (.reserve _) => inferInstanceAs (Decidable True)
  | .act _ .recheck => inferInstanceAs (Decidable True)
  | .act _ (.take _ _) => inferInstanceAs (Decidable True)
  | .act _ (.replay _ _ _ _) => inferInstanceAs (Decidable True)
  | .act _ (.flushNext _ _) => inferInstanceAs (Decidable True)
  | .act _ .flushed => inferInstanceAs (Decidable True)
  | .act _ (.put _ _) => inferInstanceAs (Decidable True)
  | .act _ .reinsert => inferInstanceAs (Decidable True)
  | .boot => inferInstanceAs (Decidable True)
  | .call _ _ => inferInstanceAs (Decidable True)
  | .reply _ => inferInstanceAs (Decidable True)
  | .drop _ _ => inferInstanceAs (Decidable True)
  | .crash _ _ _ _ => inferInstanceAs (Decidable True)

namespace Concrete

/-- A push that the log refuses. -/
def refused (id : Nat) (events : List InputLogEvent) (ios : List EventIo) : List GatewayLabel :=
  [.call id (.push "/g" "s" events), .act id (.reserve []), .act id (.append [] ios none), .reply id]

/-- An operating system where no segment opens. -/
def closed : EventIo := { io "" with opened := false }

end Concrete

open Concrete in
/-- A batch whose first segment does not open is refused whole, and leaves nothing beside the
batch that was accepted before it. -/
theorem refused_leaves_nothing_first : ∃ s : Gateway, s.accepted.length = 1 ∧
    s.buffered (gateway (some "/wal")) + s.taken (gateway (some "/wal")) +
      s.stored (gateway (some "/wal")) ≤ (s.accepted : Multiset LogEvent) ∧
        ∀ o ∈ s.objects, chunkEvents lib o ≤ (s.accepted : Multiset LogEvent) := by
  obtain ⟨s, hreach, hcheck⟩ := LTS.replay_spec (by decide +kernel :
    LTS.replay (gatewayStep (gateway (some "/wal"))) (AppendsWhole (gateway (some "/wal")))
      Gateway.start (started ++ pushed 1 [input 0 "a"] [io "u1"] ++
        refused 2 [input 1 "b", input 0 "c"] [closed, io "u2"] ++
        [.call 3 .flushAll, .act 3 (.take [] 0)] ++ stored 3 "x")
      (fun s => s.accepted.length == 1) = true)
  exact ⟨s, eq_of_beq hcheck, refused_leaves_nothing (gateway (some "/wal")) zstd_total hreach⟩

open Concrete in
/-- The segment of the second day does not open, and the event of the first day is stored all
the same. -/
theorem refused_batch_is_stored : ¬ ∀ m : BufferManager, m.lib.zstd.Total → ∀ s,
    LTS.Reaches (gatewayStep m) (fun _ _ => True) Gateway.start s →
    s.buffered m + s.taken m + s.stored m ≤ (s.accepted : Multiset LogEvent) ∧
      ∀ o ∈ s.objects, chunkEvents m.lib o ≤ (s.accepted : Multiset LogEvent) := by
  intro h
  obtain ⟨s, hreach, hcheck⟩ := LTS.replay_spec (by decide +kernel :
    LTS.replay (gatewayStep (gateway (some "/wal"))) (fun _ _ => True)
      Gateway.start (started ++ refused 1 [input 0 "a", input 1 "b"] [io "u1", closed] ++
        [.call 2 .flushAll, .act 2 (.take [] 0)] ++ stored 2 "x")
      (fun s => s.accepted.isEmpty && s.objects.any fun o =>
        (objectRecords lib o.2.body).length == 1) = true)
  obtain ⟨hnone, hobject⟩ := Bool.and_eq_true_iff.mp hcheck
  obtain ⟨o, ho, hone⟩ := List.any_eq_true.mp hobject
  have hle := Multiset.card_le_card ((h (gateway (some "/wal")) zstd_total s hreach).2 o ho)
  rw [List.isEmpty_iff.mp hnone, chunkEvents, Multiset.coe_card, Multiset.coe_card,
    List.length_map, List.length_nil] at hle
  have hlen : (objectRecords lib o.2.body).length = 1 := eq_of_beq hone
  exact absurd (hlen.symm.trans_le hle) (by decide)

end S4Logs

import S4Logs.Laws.Core.Torn
import S4Logs.Laws.Gateway.Durable

/-!
# What the segments were written from

Every octet on the disk is of a line, or of the beginning of a line, of an event that a
section pushed: a write that fails cuts a line, and a crash that loses octets cuts a file.
So what a replay reads back was pushed before.
-/

namespace S4Logs

variable {m : BufferManager} {s : Gateway} {origin : Origin} {p : CallPhase} {a : CallAct}
variable {e : CallEffect} {S : SerdeLine WalEntry} {R R' : LogEvent → Prop} {d : Disk}
variable {l l' : Locked} {ops : List DiskOp}

/-! ## The disk -/

/-- Every file is joined of lines that were cut, of events that have the property. -/
def Disk.Joined (S : SerdeLine WalEntry) (R : LogEvent → Prop) (d : Disk) : Prop :=
  ∀ e ∈ d.files ++ d.unlinked, S.Joined (fun entry => R entry.event) e.2.data

/-- What the operation appends is joined of such lines. -/
def DiskOp.Joins (S : SerdeLine WalEntry) (R : LogEvent → Prop) : DiskOp → Prop
  | .append _ bytes => S.Joined (fun entry => R entry.event) bytes
  | _ => True

/-- A crash that only loses octets: what is left of a file is its beginning. -/
def CutLaw (d : Disk) (after : List (String × Bytes)) : Prop :=
  ∀ e ∈ after, ∃ f ∈ d.files ++ d.unlinked, e.1 = f.1 ∧ e.2 <+: f.2.data

theorem Disk.Joined.empty : Disk.empty.Joined S R := fun _ he => absurd he List.not_mem_nil

theorem Disk.Joined.mono (h : d.Joined S R) (hsub : ∀ ev, R ev → R' ev) : d.Joined S R' :=
  fun e he => (h e he).mono fun _ => hsub _

theorem Disk.Joined.apply {op : DiskOp} (h : d.Joined S R) (hop : op.Joins S R) :
    (d.apply op).Joined S R := by
  have hfiles : ∀ e ∈ d.files, S.Joined (fun entry => R entry.event) e.2.data :=
    fun e he => h e (List.mem_append_left _ he)
  have hunlinked : ∀ e ∈ d.unlinked, S.Joined (fun entry => R entry.event) e.2.data :=
    fun e he => h e (List.mem_append_right _ he)
  intro e he
  cases op with
  | create name =>
    rcases List.mem_append.mp he with he | he
    · rcases List.mem_append.mp he with he | he
      · exact hfiles e he
      · rw [List.mem_singleton.mp he]
        exact .nil
    · exact hunlinked e he
  | append name bytes =>
    rcases List.mem_append.mp he with he | he
    · obtain ⟨f, hf, heq⟩ := Disk.mem_modify.mp he
      rw [heq]
      split
      next => exact (hfiles _ hf).append hop
      next => exact hfiles _ hf
    · exact hunlinked e he
  | sync name =>
    rcases List.mem_append.mp he with he | he
    · obtain ⟨f, hf, heq⟩ := Disk.mem_modify.mp he
      rw [heq]
      split
      next => exact hfiles _ hf
      next => exact hfiles _ hf
    · exact hunlinked e he
  | syncDir =>
    rcases List.mem_append.mp he with he | he
    · obtain ⟨e', he', rfl⟩ := List.mem_map.mp he
      exact hfiles e' he'
    · exact absurd he List.not_mem_nil
  | remove name =>
    rcases List.mem_append.mp he with he | he
    · exact hfiles e (List.mem_filter.mp he).1
    · rcases List.mem_append.mp he with he | he
      · exact hunlinked e he
      · exact hfiles e (List.mem_filter.mp he).1

theorem Disk.Joined.applyAll (h : d.Joined S R) (hops : ∀ op ∈ ops, op.Joins S R) :
    (d.applyAll ops).Joined S R := by
  induction ops generalizing d with
  | nil => exact h
  | cons op ops ih =>
    exact ih (h.apply (hops op List.mem_cons_self)) fun op hop => hops op (List.mem_cons_of_mem _ hop)

/-- A crash that only loses octets leaves such a disk. -/
theorem Disk.Joined.crashed {after : List (String × Bytes)} (h : d.Joined S R)
    (hlaw : CutLaw d after) : (Disk.crashed after).Joined S R := by
  intro e he
  rcases List.mem_append.mp he with he | he
  · obtain ⟨e', he', rfl⟩ := List.mem_map.mp he
    obtain ⟨f, hf, -, hpre⟩ := hlaw e' he'
    exact (h f hf).beginning hpre
  · exact absurd he List.not_mem_nil

/-- What a scan of such a disk reads has the property. -/
theorem Disk.Joined.scan (h : d.Joined S R) (hs : S.Sealed) :
    ∀ ev ∈ Gateway.survivingEvents (scanDir S d), R ev := by
  intro ev hev
  rw [survivingEvents_eq] at hev
  obtain ⟨seg, hseg, hev⟩ := List.mem_flatMap.mp hev
  obtain ⟨entry, hentry, rfl⟩ := List.mem_map.mp hev
  obtain ⟨f, hf, rfl⟩ := List.mem_map.mp hseg
  have hfile := (List.mem_filter.mp (List.mem_mergeSort.mp hf)).1
  exact (h f (List.mem_append_left _ hfile)).intact hs entry hentry

/-! ## Sections -/

/-- All that was appended under the lock is joined of such lines. -/
def Locked.Joins (S : SerdeLine WalEntry) (R : LogEvent → Prop) (l : Locked) : Prop :=
  ∀ op ∈ l.ops, op.Joins S R

theorem Locked.Joins.io (h : l.Joins S R) (hops : ∀ op ∈ ops, op.Joins S R) :
    (l.io ops).Joins S R := by
  intro op hop
  rcases List.mem_append.mp hop with hop | hop
  · exact h op hop
  · exact hops op hop

theorem joins_createOps (name : String) (io : EventIo) : ∀ op ∈ createOps name io, op.Joins S R := by
  intro op hop
  unfold createOps at hop
  rcases List.mem_cons.mp hop with rfl | hop
  · trivial
  · split at hop
    next =>
      rw [List.mem_singleton.mp hop]
      trivial
    next => cases hop

theorem Opened.joins {key : BufKey} {tsMs : Int} {io : EventIo} {buf : Buf}
    (h : Opened m l key tsMs io l' buf) (hl : l.Joins S R) : l'.Joins S R := by
  cases h with
  | found => exact hl
  | plain => exact hl
  | logged => exact hl.io (joins_createOps _ _)

/-- The beginning of the line of an event. -/
theorem LogEvent.Plain.joined {ev : LogEvent} (h : ev.Plain) (hev : R ev) (n : Nat) :
    S.Joined (fun entry => R entry.event) ((ev.line S).take n) :=
  SerdeLine.Joined.of_cut (a := ev.record.toWalEntry ev.logGroup) (h.event.symm ▸ hev) n

theorem PushMove.joins {ev : LogEvent} {io : EventIo} {pushed : Bool} {err : Option BufferError}
    (h : PushMove m l ev io l' pushed err) (hl : l.Joins m.entries R) (hplain : ev.Plain)
    (hev : R ev) : l'.Joins m.entries R := by
  have happend : ∀ {name : String} {bytes : Bytes},
      m.entries.Joined (fun entry => R entry.event) bytes →
        ∀ op ∈ [DiskOp.append name bytes], op.Joins m.entries R := by
    intro name bytes hbytes op hop
    rw [List.mem_singleton.mp hop]
    exact hbytes
  cases h with
  | unopened => exact hl
  | torn hopened => exact (hopened.joins hl).io (happend (hplain.joined hev _))
  | unlogged hopened => exact hopened.joins hl
  | logged hopened =>
    have hwhole := hplain.joined (S := m.entries) hev (ev.line m.entries).length
    rw [List.take_length] at hwhole
    exact (hopened.joins hl).io (happend hwhole)

theorem pushAll_joins {items : List (LogEvent × EventIo)} : ∀ {l l' : Locked}
    {pushed : List LogEvent} {err : Option BufferError}, l.Joins m.entries R →
    (∀ item ∈ items, item.1.Plain ∧ R item.1) → m.pushAll l items = (l', pushed, err) →
    l'.Joins m.entries R := by
  induction items with
  | nil =>
    intro l l' pushed err hl _ hpush
    cases hpush
    exact hl
  | cons item items ih =>
    intro l l' pushed err hl hitems hpush
    obtain ⟨ev, io⟩ := item
    obtain ⟨hplain, hev⟩ := hitems _ List.mem_cons_self
    cases hone : m.pushOne l ev.logGroup ev.record io with
    | mk l₁ r =>
      obtain ⟨took, err'⟩ := r
      have hl₁ := (pushOne_move hone).joins hl hplain hev
      simp only [BufferManager.pushAll, hone] at hpush
      cases err' with
      | some err' =>
        cases hpush
        exact hl₁
      | none =>
        cases hpush
        exact ih hl₁ (fun item hitem => hitems item (List.mem_cons_of_mem _ hitem)) rfl

theorem joins_syncWal (fails : Option String) : ∀ (bufs : Buffers),
    ∀ op ∈ (syncWal fails bufs).2.1, op.Joins S R
  | [], _, hop => absurd hop List.not_mem_nil
  | (key, buf) :: rest, op, hop => by
    have ih := joins_syncWal fails rest op
    have hsync : ∀ (seg : WalSegment) (fails : Bool), op ∈ (seg.sync fails).2.1 →
        op.Joins S R := by
      intro seg fails hop
      unfold WalSegment.sync at hop
      split at hop
      next => cases hop
      next =>
        split at hop
        next => cases hop
        next =>
          rw [List.mem_singleton.mp hop]
          trivial
    unfold syncWal at hop
    split at hop
    next => exact ih hop
    next seg hwal =>
      dsimp only at hop
      split at hop
      next =>
        rcases List.mem_append.mp hop with hop | hop
        · exact hsync _ _ hop
        · exact ih hop
      next => exact hsync _ _ hop

theorem Locked.Joins.sync {order : List BufKey} {fails : Option String} {ok : Bool}
    (hl : l.Joins S R) (h : l.sync order fails = (l', ok)) : l'.Joins S R := by
  cases h
  exact hl.io (joins_syncWal fails _)

theorem joins_retire (buf : Buf) (io : DeleteIo) : ∀ op ∈ buf.retire io, op.Joins S R := by
  intro op hop
  unfold Buf.retire at hop
  split at hop
  next => cases hop
  next seg hwal =>
    unfold WalSegment.delete at hop
    split at hop
    next =>
      rcases List.mem_cons.mp hop with rfl | hop
      · trivial
      · split at hop
        next =>
          rw [List.mem_singleton.mp hop]
          trivial
        next => cases hop
    next => cases hop

/-- The events of a section that pushes are of its batch, or of the segments it found. -/
theorem Enters.origins {events : List LogEvent} {ios : List EventIo} {order : List BufKey}
    {fails : Option String} (h : Enters m s origin p a events ios order fails)
    (hbatch : ∀ ev ∈ origin.batch, R ev)
    (hscan : origin = .replay → ∀ ev ∈ Gateway.survivingEvents (scanDir m.entries s.disk), R ev) :
    ∀ ev ∈ events, ev.Plain ∧ R ev := by
  intro ev hev
  cases h with
  | append => exact ⟨plain_batch (.push _ _ _) _ hev, hbatch ev hev⟩
  | replay => exact ⟨plain_surviving _ _ hev, hscan rfl ev hev⟩

/-- All that a section appends is of events that it pushes. -/
theorem CallMove.joins (h : CallMove m s origin p a e) (hbatch : ∀ ev ∈ origin.batch, R ev)
    (hscan : origin = .replay → ∀ ev ∈ Gateway.survivingEvents (scanDir m.entries s.disk), R ev) :
    ∀ op ∈ e.ops, op.Joins m.entries R := by
  have hpushed : ∀ {events : List LogEvent} {ios : List EventIo} {order : List BufKey}
      {fails : Option String} {l : Locked} {pushed : List LogEvent} {err : Option BufferError},
      Enters m s origin p a events ios order fails →
      m.pushAll s.lock (events.zip ios) = (l, pushed, err) → l.Joins m.entries R := by
    intro events ios order fails l pushed err henters hpush
    refine pushAll_joins (l := s.lock) (fun op hop => absurd hop List.not_mem_nil)
      (fun item hitem => ?_) hpush
    exact henters.origins hbatch hscan item.1 (List.of_mem_zip hitem).1
  cases h with
  | pass => exact fun _ hop => absurd hop List.not_mem_nil
  | take => exact fun _ hop => absurd hop List.not_mem_nil
  | pushFails henters hpush => exact hpushed henters hpush
  | syncFails henters hpush hsync => exact (hpushed henters hpush).sync hsync
  | accept old due rest henters hpush hsync _ hold =>
    refine ((hpushed henters hpush).sync hsync).io fun op hop => ?_
    obtain ⟨seg, -, rfl⟩ := hold op hop
    trivial
  | retire => exact joins_retire _ _
  | putNext => exact fun _ hop => absurd hop List.not_mem_nil
  | putDone => exact joins_retire _ _
  | reinsert => exact fun _ hop => absurd hop List.not_mem_nil

namespace Concrete

/-- The beginning of an entry is empty or begins with a brace. -/
theorem take_brace (c : WalEntry × Nat) : (entryToVec c.1).take c.2 = [] ∨
    ∃ rest, (entryToVec c.1).take c.2 = 123 :: rest := by
  obtain ⟨rest, hrest, -⟩ := entryToVec_brace c.1
  cases hn : c.2 with
  | zero => exact .inl List.take_zero
  | succ n => exact .inr ⟨rest.take n, by rw [hrest, List.take_succ_cons]⟩

/-- Joined beginnings with one brace are one beginning. -/
theorem pieces_brace {cuts : List (WalEntry × Nat)} {rest : Bytes} (hbrace : 123 ∉ rest)
    (h : entries.pieces cuts = 123 :: rest) :
    ∃ c ∈ cuts, (entryToVec c.1).take c.2 = 123 :: rest := by
  induction cuts with
  | nil => cases h
  | cons c cuts ih =>
    have hcons : entries.pieces (c :: cuts) = (entryToVec c.1).take c.2 ++ entries.pieces cuts := rfl
    rw [hcons] at h
    rcases take_brace c with hnil | ⟨first, hfirst⟩
    · rw [hnil, List.nil_append] at h
      obtain ⟨c', hc', htake⟩ := ih h
      exact ⟨c', List.mem_cons_of_mem _ hc', htake⟩
    · rw [hfirst, List.cons_append] at h
      obtain rfl : first ++ entries.pieces cuts = rest := (List.cons.inj h).2
      have hnone : ∀ c' ∈ cuts, (entryToVec c'.1).take c'.2 = [] := by
        intro c' hc'
        refine (take_brace c').resolve_right fun ⟨r, hr⟩ => hbrace (List.mem_append_right _ ?_)
        refine List.mem_flatMap.mpr ⟨c', hc', ?_⟩
        show 123 ∈ (entryToVec c'.1).take c'.2
        rw [hr]
        exact List.mem_cons_self
      have hnil : entries.pieces cuts = [] := List.flatMap_eq_nil_iff.mpr hnone
      exact ⟨c, List.mem_cons_self, by rw [hfirst, hnil, List.append_nil]⟩

theorem entries_sealed : entries.Sealed := by
  intro cuts entry hread
  have hsame : entryToVec entry = entries.pieces cuts :=
    eq_of_beq (Option.filter_eq_some_iff.mp hread).2
  obtain ⟨rest, hrest, hbrace⟩ := entryToVec_brace entry
  obtain ⟨c, hc, htake⟩ := pieces_brace hbrace (hsame.symm.trans hrest)
  have hpre : entryToVec entry <+: entryToVec c.1 := by
    rw [hrest, ← htake]
    exact List.take_prefix _ _
  rw [entryToVec_begins hpre]
  exact List.mem_map_of_mem hc

end Concrete

end S4Logs

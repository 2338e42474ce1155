import S4Logs.Cli.Restore

/-!
# The batches of a restore

Events that come in the order of time leave the batcher in batches that keep every limit,
and a batch ends only where the next event breaks one. `splitBatches` cuts the list at the
same places: where the batcher holds a batch, the range under way is the place of that
batch.
-/

namespace S4Logs

/-- What a batch counts. -/
def batchCost (batch : List BatchEvent) : Nat := (batch.map fun e => eventCost e.message).sum

/-- A batch that keeps every limit. -/
structure WithinLimits (batch : List BatchEvent) : Prop where
  events : batch.length ≤ maxBatchEvents
  bytes : batchCost batch ≤ maxBatchBytes
  span : ∀ a ∈ batch, ∀ b ∈ batch, b.timestamp - a.timestamp ≤ maxBatchSpanMs

/-- Events in the order of time, each of which fits in a batch of its own. -/
structure Batchable (events : List BatchEvent) : Prop where
  ordered : events.Pairwise fun a b => a.timestamp ≤ b.timestamp
  range : ∀ e ∈ events, i64Min ≤ e.timestamp ∧ e.timestamp ≤ i64Max
  cost : ∀ e ∈ events, eventCost e.message ≤ maxBatchBytes

/-- Each batch but the last breaks a limit with the event after it. -/
def GreedyBatches (batches : List (List BatchEvent)) : Prop :=
  batches.IsChain fun batch next => ∀ e ∈ next.head?, ¬ WithinLimits (batch ++ [e])

theorem batchCost_append (batch : List BatchEvent) (ev : BatchEvent) :
    batchCost (batch ++ [ev]) = batchCost batch + eventCost ev.message := by
  unfold batchCost
  rw [List.map_append, List.sum_append, List.map_singleton, List.sum_singleton]

theorem withinLimits_singleton {ev : BatchEvent} (h : eventCost ev.message ≤ maxBatchBytes) :
    WithinLimits [ev] where
  events := by
    unfold maxBatchEvents
    exact Nat.le_of_ble_eq_true rfl
  bytes := by
    unfold batchCost
    rwa [List.map_singleton, List.sum_singleton]
  span a ha b hb := by
    obtain rfl := List.mem_singleton.mp ha
    obtain rfl := List.mem_singleton.mp hb
    rw [Int.sub_self]
    unfold maxBatchSpanMs
    omega

/-- The batch of a batcher counts what the batcher says, and keeps the limits. -/
structure EventBatcher.Loaded (b : EventBatcher) : Prop where
  counted : b.bytes = batchCost b.batch
  within : WithinLimits b.batch

namespace EventBatcher

variable {b : EventBatcher} {ev : BatchEvent} {rest : List BatchEvent}

theorem loaded_new : new.Loaded where
  counted := rfl
  within := ⟨Nat.zero_le _, Nat.zero_le _, fun _ ha => absurd ha List.not_mem_nil⟩

/-- The span of a sorted batch is that of its ends, and a difference that saturates is
beyond the limit. -/
theorem tooWide_iff {first : BatchEvent} {tail : List BatchEvent}
    (hb : b.batch = first :: tail) (hev : Batchable (b.batch ++ ev :: rest)) :
    maxBatchSpanMs < saturatingSub ev.timestamp first.timestamp ↔
      ¬ ∀ x ∈ b.batch ++ [ev], ∀ y ∈ b.batch ++ [ev], y.timestamp - x.timestamp ≤ maxBatchSpanMs := by
  have hfirst : first ∈ b.batch := hb ▸ List.mem_cons_self
  have hrange : ∀ e ∈ b.batch ++ [ev], i64Min ≤ e.timestamp ∧ e.timestamp ≤ i64Max := by
    intro e he
    apply hev.range e
    rcases List.mem_append.mp he with he | he
    · exact List.mem_append_left _ he
    · exact List.mem_append_right _ (List.mem_singleton.mp he ▸ List.mem_cons_self)
  obtain ⟨hbatch, -, hcross⟩ := List.pairwise_append.mp hev.ordered
  have hbefore : ∀ e ∈ b.batch, first.timestamp ≤ e.timestamp ∧ e.timestamp ≤ ev.timestamp := by
    intro e he
    refine ⟨?_, hcross e he ev List.mem_cons_self⟩
    rw [hb] at he hbatch
    rcases List.mem_cons.mp he with rfl | he
    · exact Int.le_refl _
    · exact (List.pairwise_cons.mp hbatch).1 e he
  have hf := hrange first (List.mem_append_left _ hfirst)
  have he := hrange ev (List.mem_append_right _ List.mem_cons_self)
  have hle := (hbefore first hfirst).2
  have hsat : maxBatchSpanMs < saturatingSub ev.timestamp first.timestamp ↔
      maxBatchSpanMs < ev.timestamp - first.timestamp := by
    unfold saturatingSub maxBatchSpanMs i64Min i64Max
    omega
  rw [hsat]
  constructor
  · intro hwide hall
    have hspan := hall first (List.mem_append_left _ hfirst) ev
      (List.mem_append_right _ List.mem_cons_self)
    omega
  · intro hnot
    by_contra hnarrow
    refine hnot fun x hx y hy => ?_
    have hlow : first.timestamp ≤ x.timestamp := by
      rcases List.mem_append.mp hx with hx | hx
      · exact (hbefore x hx).1
      · rw [List.mem_singleton.mp hx]
        exact hle
    have hhigh : y.timestamp ≤ ev.timestamp := by
      rcases List.mem_append.mp hy with hy | hy
      · exact (hbefore y hy).2
      · rw [List.mem_singleton.mp hy]
    omega

/-- A batch is full exactly where the event breaks a limit. -/
theorem full_iff (h : b.Loaded) (hev : Batchable (b.batch ++ ev :: rest)) :
    b.full ev = true ↔ b.batch ≠ [] ∧ ¬ WithinLimits (b.batch ++ [ev]) := by
  unfold full
  split
  next hnil => exact ⟨nofun, fun hne => absurd hnil hne.1⟩
  next first tail hb =>
    have hwide := tooWide_iff hb hev
    have hne : b.batch ≠ [] := hb ▸ List.cons_ne_nil _ _
    have hmany : maxBatchEvents ≤ b.batch.length ↔
        ¬ (b.batch ++ [ev]).length ≤ maxBatchEvents := by
      rw [List.length_append, List.length_singleton]
      omega
    have hbig : maxBatchBytes < b.bytes + eventCost ev.message ↔
        ¬ batchCost (b.batch ++ [ev]) ≤ maxBatchBytes := by
      rw [batchCost_append, ← h.counted]
      omega
    rw [Bool.or_eq_true, Bool.or_eq_true, decide_eq_true_eq, decide_eq_true_eq, decide_eq_true_eq,
      hmany, hbig, hwide]
    constructor
    · rintro hor
      refine ⟨hne, fun hwithin => ?_⟩
      rcases hor with (hevents | hbytes) | hspan
      · exact hevents hwithin.events
      · exact hbytes hwithin.bytes
      · exact hspan hwithin.span
    · rintro ⟨-, hnot⟩
      by_contra hnone
      obtain ⟨hfirst, hspan⟩ := not_or.mp hnone
      obtain ⟨hevents, hbytes⟩ := not_or.mp hfirst
      exact hnot ⟨not_not.mp hevents, not_not.mp hbytes, not_not.mp hspan⟩

/-- A full batch is handed back, and the next begins with the event. -/
theorem push_of_full (h : b.full ev = true) :
    b.push ev = (some b.batch, ⟨[ev], eventCost ev.message⟩) := if_pos h

theorem push_of_fits (h : ¬ b.full ev = true) :
    b.push ev = (none, ⟨b.batch ++ [ev], b.bytes + eventCost ev.message⟩) := if_neg h

theorem Loaded.next (h : eventCost ev.message ≤ maxBatchBytes) :
    Loaded ⟨[ev], eventCost ev.message⟩ where
  counted := by
    unfold batchCost
    rw [List.map_singleton, List.sum_singleton]
  within := withinLimits_singleton h

theorem Loaded.grown (h : b.Loaded) (hev : Batchable (b.batch ++ ev :: rest))
    (hfits : ¬ b.full ev = true) :
    Loaded ⟨b.batch ++ [ev], b.bytes + eventCost ev.message⟩ where
  counted := by
    rw [batchCost_append, h.counted]
  within := by
    by_cases hnil : b.batch = []
    · rw [hnil, List.nil_append]
      exact withinLimits_singleton (hev.cost ev (List.mem_append_right _ List.mem_cons_self))
    · by_contra hnot
      exact hfits ((full_iff h hev).mpr ⟨hnil, hnot⟩)

end EventBatcher

theorem Batchable.of_append {before events : List BatchEvent} (h : Batchable (before ++ events)) :
    Batchable events where
  ordered := (List.pairwise_append.mp h.ordered).2.1
  range e he := h.range e (List.mem_append_right _ he)
  cost e he := h.cost e (List.mem_append_right _ he)

/-- What leaves a batcher that holds a batch already. -/
structure Driven (b : EventBatcher) (events : List BatchEvent)
    (batches : List (List BatchEvent)) : Prop where
  filled : ∀ batch ∈ batches, batch ≠ []
  flat : batches.flatten = b.batch ++ events
  within : ∀ batch ∈ batches, WithinLimits batch
  greedy : GreedyBatches batches
  first : b.batch ≠ [] → ∃ more later, batches = (b.batch ++ more) :: later

/-- The events after a batch are cut greedily: the first batch goes on with the one held. -/
theorem EventBatcher.drive_spec {b : EventBatcher} {events : List BatchEvent} (h : b.Loaded)
    (hev : Batchable (b.batch ++ events)) : Driven b events (b.drive events) := by
  induction events generalizing b with
  | nil =>
    unfold drive finish
    by_cases hnil : b.batch = []
    · rw [if_pos (List.isEmpty_iff.mpr hnil), Option.toList_none]
      exact ⟨nofun, by rw [hnil]; rfl, nofun, List.IsChain.nil, fun hne => absurd hnil hne⟩
    · rw [if_neg (fun hempty => hnil (List.isEmpty_iff.mp hempty)), Option.toList_some]
      refine ⟨?_, ?_, ?_, List.IsChain.singleton _, fun _ => ⟨[], [], by rw [List.append_nil]⟩⟩
      · intro batch hbatch
        rwa [List.mem_singleton.mp hbatch]
      · rw [List.flatten_singleton, List.append_nil]
      · intro batch hbatch
        rw [List.mem_singleton.mp hbatch]
        exact h.within
  | cons ev rest ih =>
    unfold drive
    by_cases hfull : b.full ev = true
    · obtain ⟨hne, hbreaks⟩ := (full_iff h hev).mp hfull
      rw [push_of_full hfull]
      have htail := hev.of_append
      have hnext := @ih ⟨[ev], eventCost ev.message⟩
        (Loaded.next (hev.cost ev (List.mem_append_right _ List.mem_cons_self))) htail
      obtain ⟨more, later, hlater⟩ := hnext.first (List.cons_ne_nil _ _)
      refine ⟨?_, ?_, ?_, ?_, fun _ => ⟨[], _, by rw [List.append_nil]; rfl⟩⟩
      · intro batch hbatch
        rcases List.mem_cons.mp hbatch with rfl | hbatch
        · exact hne
        · exact hnext.filled batch hbatch
      · dsimp only [Option.toList_some, List.singleton_append]
        rw [List.flatten_cons, hnext.flat]
        rfl
      · intro batch hbatch
        rcases List.mem_cons.mp hbatch with rfl | hbatch
        · exact h.within
        · exact hnext.within batch hbatch
      · have hgreedy := hnext.greedy
        dsimp only [Option.toList_some, List.singleton_append]
        rw [hlater] at hgreedy ⊢
        refine List.isChain_cons_cons.mpr ⟨?_, hgreedy⟩
        intro e he
        obtain rfl := Option.some.inj he
        exact hbreaks
    · rw [push_of_fits hfull]
      have happend : b.batch ++ ev :: rest = b.batch ++ [ev] ++ rest := by
        rw [List.append_assoc, List.singleton_append]
      have hnext := @ih ⟨b.batch ++ [ev], b.bytes + eventCost ev.message⟩ (h.grown hev hfull)
        (happend ▸ hev)
      refine ⟨hnext.filled, ?_, hnext.within, hnext.greedy, fun _ => ?_⟩
      · rw [happend]
        exact hnext.flat
      · obtain ⟨more, later, hlater⟩ := hnext.first
          (List.append_ne_nil_of_right_ne_nil _ (List.cons_ne_nil _ _))
        refine ⟨ev :: more, later, ?_⟩
        rw [List.append_assoc, List.singleton_append] at hlater
        exact hlater

/-! ## The reference -/

/-- The events of a range. -/
def sliceOf (events : List BatchEvent) (r : Nat × Nat) : List BatchEvent :=
  (events.take r.2).drop r.1

/-- The range under way is the place of the batch that is held. -/
structure Tracks (b : EventBatcher) (st : SplitState) (done : List BatchEvent) : Prop where
  start : st.start ≤ done.length
  batch : b.batch = done.drop st.start
  bytes : b.bytes = st.bytes

/-- Both ask the same of the next event. -/
theorem Tracks.full {b : EventBatcher} {st : SplitState} {done rest : List BatchEvent}
    {ev : BatchEvent} (h : Tracks b st done) :
    splitStep (done ++ ev :: rest) st (ev, done.length) =
      if b.full ev then ⟨st.out ++ [(st.start, done.length)], done.length, eventCost ev.message⟩
      else ⟨st.out, st.start, st.bytes + eventCost ev.message⟩ := by
  have hcount : b.batch.length = done.length - st.start := by rw [h.batch, List.length_drop]
  unfold splitStep EventBatcher.full
  dsimp only
  rw [← hcount, ← h.bytes]
  cases hb : b.batch with
  | nil => rfl
  | cons first tail =>
    have hpos : 0 < (first :: tail).length := Nat.succ_pos _
    have hfirst : (done ++ ev :: rest)[st.start]? = some first := by
      rw [hb] at hcount
      rw [List.getElem?_append_left (by omega), ← List.head?_drop, ← h.batch, hb]
      rfl
    rw [hfirst, decide_eq_true hpos, Bool.true_and, Bool.true_and, Option.any_some]

/-- Both cut before the same event. -/
theorem Tracks.step {b : EventBatcher} {st : SplitState} {done : List BatchEvent}
    (h : Tracks b st done) (rest : List BatchEvent) (ev : BatchEvent) :
    Tracks (b.push ev).2 (splitStep (done ++ ev :: rest) st (ev, done.length)) (done ++ [ev]) ∧
      (splitStep (done ++ ev :: rest) st (ev, done.length)).out.map
          (sliceOf (done ++ ev :: rest)) =
        st.out.map (sliceOf (done ++ ev :: rest)) ++ (b.push ev).1.toList := by
  rw [h.full]
  by_cases hfull : b.full ev = true
  · rw [EventBatcher.push_of_full hfull, if_pos hfull]
    refine ⟨⟨?_, ?_, rfl⟩, ?_⟩
    · rw [List.length_append]
      exact Nat.le_add_right _ _
    · exact List.drop_left.symm
    · rw [List.map_append, List.map_singleton, sliceOf, List.take_left, h.batch]
      rfl
  · rw [EventBatcher.push_of_fits hfull, if_neg hfull]
    refine ⟨⟨?_, ?_, ?_⟩, (List.append_nil _).symm⟩
    · rw [List.length_append]
      exact Nat.le_add_right_of_le h.start
    · rw [List.drop_append_of_le_length h.start, h.batch]
    · exact congrArg (· + eventCost ev.message) h.bytes

/-- The ranges so far, with the one under way. -/
def SplitState.closed (st : SplitState) (length : Nat) : List (Nat × Nat) :=
  if st.start < length then st.out ++ [(st.start, length)] else st.out

/-- Both cut the events that are left at the same places. -/
theorem Tracks.run {b : EventBatcher} {st : SplitState} {done rest : List BatchEvent}
    (h : Tracks b st done) :
    ((((rest.zipIdx done.length).foldl (splitStep (done ++ rest)) st).closed
        (done ++ rest).length).map (sliceOf (done ++ rest))) =
      st.out.map (sliceOf (done ++ rest)) ++ b.drive rest := by
  induction rest generalizing b st done with
  | nil =>
    rw [List.append_nil, List.zipIdx_nil, List.foldl_nil]
    unfold EventBatcher.drive EventBatcher.finish SplitState.closed
    by_cases hnil : b.batch = []
    · have hend : ¬ st.start < done.length := by
        rw [h.batch, List.drop_eq_nil_iff] at hnil
        omega
      rw [if_neg hend, if_pos (List.isEmpty_iff.mpr hnil), Option.toList_none, List.append_nil]
    · have hopen : st.start < done.length := by
        by_contra hend
        apply hnil
        rw [h.batch, List.drop_eq_nil_iff]
        omega
      rw [if_pos hopen, if_neg (fun hempty => hnil (List.isEmpty_iff.mp hempty)),
        Option.toList_some, List.map_append, List.map_singleton, sliceOf, List.take_length,
        h.batch]
  | cons ev rest ih =>
    obtain ⟨htracks, hout⟩ := h.step rest ev
    have happend : done ++ ev :: rest = done ++ [ev] ++ rest := by
      rw [List.append_assoc, List.singleton_append]
    have hrun := ih htracks
    rw [List.length_append, List.length_singleton, ← happend] at hrun
    rw [List.zipIdx_cons, List.foldl_cons, hrun, hout, List.append_assoc]
    rfl

/-- Events in the order of time leave the batcher in batches that are nonempty, make up the
input, keep every limit, end only where the next event breaks one, and are the ranges of
`splitBatches`. -/
theorem batches_faithful {events : List BatchEvent} (hev : Batchable events) :
    (∀ batch ∈ EventBatcher.new.drive events, batch ≠ []) ∧
    (EventBatcher.new.drive events).flatten = events ∧
    (∀ batch ∈ EventBatcher.new.drive events, WithinLimits batch) ∧
    GreedyBatches (EventBatcher.new.drive events) ∧
    EventBatcher.new.drive events = (splitBatches events).map (sliceOf events) := by
  have hbatched : Batchable ([] ++ events) := hev
  have hdriven := EventBatcher.drive_spec EventBatcher.loaded_new hbatched
  have htracks : Tracks .new ⟨[], 0, 0⟩ [] := ⟨Nat.le_refl _, rfl, rfl⟩
  exact ⟨hdriven.filled, hdriven.flat, hdriven.within, hdriven.greedy, htracks.run.symm⟩

/-- Two events a day and a millisecond apart. -/
theorem batches_faithful_wide :
    EventBatcher.new.drive [⟨0, "a"⟩, ⟨86400001, "b"⟩] =
      (splitBatches [⟨0, "a"⟩, ⟨86400001, "b"⟩]).map (sliceOf [⟨0, "a"⟩, ⟨86400001, "b"⟩]) := by
  have hev : Batchable [⟨0, "a"⟩, ⟨86400001, "b"⟩] := ⟨by decide, by decide, by decide⟩
  obtain ⟨-, -, -, -, hsplit⟩ := batches_faithful hev
  exact hsplit

end S4Logs

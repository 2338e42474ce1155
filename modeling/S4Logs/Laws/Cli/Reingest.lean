import S4Logs.Cli.Reingest
import S4Logs.Laws.Cli.Batches
import Mathlib.Data.List.Infix

/-!
# What a restore sends

The loop that takes records, batches and sends is batching first and sending afterwards
(`run_sends`): batches are cut as the batcher alone would cut them, whatever CloudWatch
answers. What it took is the first of them, in order, each once, and all of them where the
restore ends well.
-/

namespace S4Logs

variable {cw : CwTarget} {s : BatchSender} {batch : List BatchEvent}

/-! ## One batch after the other -/

/-- The calls for batches, each with the number of its attempts. -/
def putCalls (tries : List (List BatchEvent × Nat)) : List RestoreCall :=
  tries.flatMap fun t => List.replicate t.2 (.putLogEvents t.1)

/-- The waits between the attempts. -/
def putWaits (tries : List (List BatchEvent × Nat)) : List Nat :=
  tries.flatMap fun t => (List.range' 1 (t.2 - 1)).map putDelayMs

/-- A batch was attempted a few times at most, and all attempts but the last were throttled. -/
def Attempted (cw : CwTarget) (number : Nat) (attempts : Nat) : Prop :=
  1 ≤ attempts ∧ attempts ≤ putMaxAttempts ∧
    ∀ k, 1 ≤ k → k < attempts → (cw.put number k).throttled = true

theorem putAttempt_again {number batchLen attempt : Nat} {u : Unit}
    (h : putAttempt cw number batchLen attempt = .again u) :
    (cw.put number attempt).throttled = true := by
  unfold putAttempt at h
  split at h
  next => cases h
  next code hcode =>
    split at h
    next hthrottled =>
      rw [hcode]
      exact hthrottled
    next => cases h

variable (cw) in
theorem putBatch_attempted (number batchLen : Nat) :
    Attempted cw number (putBatchWithBackoff cw number batchLen).calls ∧
      (putBatchWithBackoff cw number batchLen).slept =
        (List.range' 1 ((putBatchWithBackoff cw number batchLen).calls - 1)).map putDelayMs := by
  have h : Retry.Tried (putAttempt cw number batchLen) putDelayMs
      (fun attempt _ => .error (.put number attempt)) (putMaxAttempts - 1) 1
      (putBatchWithBackoff cw number batchLen) := Retry.try_spec _ _
  refine ⟨⟨h.first, h.last, fun k hk hlt => ?_⟩, h.slept⟩
  obtain ⟨_, hagain⟩ := h.failed k hk hlt
  exact putAttempt_again hagain

/-- What a sender has done: batches it attempted in order, of which CloudWatch took all, or all
but the last one where that ended the restore. -/
structure BatchSender.Did (cw : CwTarget) (s : BatchSender) (tries : List (List BatchEvent × Nat)) :
    Prop where
  calls : s.ensured = true → s.calls = [.createLogGroup, .createLogStream] ++ putCalls tries
  slept : s.slept = putWaits tries
  numbered : s.batches = tries.length
  idle : s.ensured = false → tries = [] ∧ s.calls <+: [.createLogGroup, .createLogStream]
  attempted : ∀ i t, tries[i]? = some t → Attempted cw (i + 1) t.2
  taken : s.taken <+: tries.map Prod.fst
  last : tries.length ≤ s.taken.length + 1
  sent : s.sent = s.taken.flatten.length

theorem BatchSender.new_did : BatchSender.new.Did cw [] where
  calls := nofun
  slept := rfl
  numbered := rfl
  idle _ := ⟨rfl, List.nil_prefix⟩
  attempted _ _ h := by cases h
  taken := List.nil_prefix
  last := Nat.zero_le _
  sent := rfl

/-- A sender that may go on: CloudWatch took every batch so far. -/
structure BatchSender.Going (cw : CwTarget) (s : BatchSender)
    (tries : List (List BatchEvent × Nat)) : Prop extends s.Did cw tries where
  all : s.taken = tries.map Prod.fst
  fresh : s.ensured = false → s.calls = []

theorem BatchSender.new_going : BatchSender.new.Going cw [] where
  toDid := BatchSender.new_did
  all := rfl
  fresh _ := rfl

namespace BatchSender

variable {s' : BatchSender} {tries : List (List BatchEvent × Nat)}

/-- The group and the stream are there, or the restore ends. -/
theorem Going.ensures (h : s.Going cw tries) : ∃ s₁ res, s.ensureGroupAndStream cw = (s₁, res) ∧
    s₁.Did cw tries ∧ (res = .ok () → s₁.Going cw tries ∧ s₁.ensured = true) := by
  obtain ⟨ensured, sent, batches, rejected, calls, slept, taken⟩ := s
  cases ensured with
  | true => exact ⟨_, .ok (), rfl, h.toDid, fun _ => ⟨h, rfl⟩⟩
  | false =>
    obtain ⟨rfl, -⟩ := h.idle rfl
    obtain rfl : calls = [] := h.fresh rfl
    have hdid {calls : List RestoreCall} (hpre : calls <+: [.createLogGroup, .createLogStream]) :
        Did cw ⟨false, sent, batches, rejected, calls, slept, taken⟩ [] := {
      calls := nofun
      slept := h.slept
      numbered := h.numbered
      idle := fun _ => ⟨rfl, hpre⟩
      attempted := h.attempted
      taken := h.taken
      last := h.last
      sent := h.sent }
    have hgoing : Going cw ⟨true, sent, batches, rejected, [.createLogGroup, .createLogStream],
        slept, taken⟩ [] := {
      calls := fun _ => rfl
      slept := h.slept
      numbered := h.numbered
      idle := nofun
      attempted := h.attempted
      taken := h.taken
      last := h.last
      sent := h.sent
      all := h.all
      fresh := nofun }
    unfold ensureGroupAndStream
    rw [if_neg Bool.false_ne_true]
    cases cw.createGroup with
    | failed => exact ⟨_, _, rfl, hdid ⟨[.createLogStream], rfl⟩, nofun⟩
    | created =>
      cases cw.createStream with
      | failed => exact ⟨_, _, rfl, hdid (List.prefix_refl _), nofun⟩
      | created => exact ⟨_, _, rfl, hgoing.toDid, fun _ => ⟨hgoing, rfl⟩⟩
      | alreadyExists => exact ⟨_, _, rfl, hgoing.toDid, fun _ => ⟨hgoing, rfl⟩⟩
    | alreadyExists =>
      cases cw.createStream with
      | failed => exact ⟨_, _, rfl, hdid (List.prefix_refl _), nofun⟩
      | created => exact ⟨_, _, rfl, hgoing.toDid, fun _ => ⟨hgoing, rfl⟩⟩
      | alreadyExists => exact ⟨_, _, rfl, hgoing.toDid, fun _ => ⟨hgoing, rfl⟩⟩

/-- A batch that was attempted. -/
theorem Going.tried (h : s.Going cw tries) (hensured : s.ensured = true) (batch : List BatchEvent) :
    Did cw { s with
      batches := s.batches + 1
      calls := s.calls ++ List.replicate
        (putBatchWithBackoff cw (s.batches + 1) batch.length).calls (.putLogEvents batch)
      slept := s.slept ++ (putBatchWithBackoff cw (s.batches + 1) batch.length).slept }
      (tries ++ [(batch, (putBatchWithBackoff cw (s.batches + 1) batch.length).calls)]) := by
  obtain ⟨hattempted, hslept⟩ := putBatch_attempted cw (s.batches + 1) batch.length
  exact {
    calls := fun _ => by
      rw [h.calls hensured, putCalls, putCalls, List.flatMap_append, List.flatMap_singleton,
        List.append_assoc]
    slept := by
      rw [h.slept, hslept, putWaits, putWaits, List.flatMap_append, List.flatMap_singleton]
    numbered := by
      rw [h.numbered, List.length_append, List.length_singleton]
    idle := fun hidle => absurd (hensured.symm.trans hidle) (Bool.false_ne_true ·.symm)
    attempted := fun i t ht => by
      rcases Nat.lt_or_ge i tries.length with hlt | hge
      · rw [List.getElem?_append_left hlt] at ht
        exact h.attempted i t ht
      · rw [List.getElem?_append_right hge] at ht
        obtain ⟨hi, rfl⟩ := List.getElem?_eq_some_iff.mp ht
        rw [List.length_singleton] at hi
        rw [List.getElem_singleton, show i = tries.length by omega, ← h.numbered]
        exact hattempted
    taken := by
      rw [List.map_append]
      exact h.taken.trans (List.prefix_append _ _)
    last := by
      rw [List.length_append, List.length_singleton, h.all, List.length_map]
    sent := h.sent }

/-- What comes of one batch. -/
theorem Going.send (h : s.Going cw tries) (batch : List BatchEvent) :
    ∃ s' res tries', s.send cw batch = (s', res) ∧ s'.Did cw tries' ∧
      tries'.map Prod.fst <+: tries.map Prod.fst ++ [batch] ∧
      (res = .ok () → s'.Going cw tries' ∧ tries'.map Prod.fst = tries.map Prod.fst ++ [batch]) := by
  obtain ⟨s₁, res₁, hensure, hdid, hok⟩ := h.ensures
  unfold BatchSender.send
  rw [hensure]
  cases res₁ with
  | error e =>
    exact ⟨s₁, _, tries, rfl, hdid, List.prefix_append _ _, nofun⟩
  | ok u =>
    obtain ⟨hgoing, hensured⟩ := hok rfl
    have htried := hgoing.tried hensured batch
    have hbatches : (tries ++ [(batch, (putBatchWithBackoff cw (s₁.batches + 1)
        batch.length).calls)]).map Prod.fst = tries.map Prod.fst ++ [batch] := by
      rw [List.map_append, List.map_singleton]
    dsimp only
    cases hresult : (putBatchWithBackoff cw (s₁.batches + 1) batch.length).result with
    | error e =>
      refine ⟨_, _, _, rfl, htried, ?_, nofun⟩
      rw [hbatches]
    | ok r =>
      have hall : s₁.taken ++ [batch] = tries.map Prod.fst ++ [batch] := by rw [hgoing.all]
      have hgone : Going cw { s₁ with
          batches := s₁.batches + 1
          calls := s₁.calls ++ List.replicate
            (putBatchWithBackoff cw (s₁.batches + 1) batch.length).calls (.putLogEvents batch)
          slept := s₁.slept ++ (putBatchWithBackoff cw (s₁.batches + 1) batch.length).slept
          sent := s₁.sent + batch.length
          rejected := s₁.rejected.add r
          taken := s₁.taken ++ [batch] } _ := {
        calls := htried.calls
        slept := htried.slept
        numbered := htried.numbered
        idle := fun hidle => absurd (hensured.symm.trans hidle) (Bool.false_ne_true ·.symm)
        attempted := htried.attempted
        taken := by
          rw [hall, ← hbatches]
        last := by
          rw [hall, ← hbatches, List.length_map]
          exact Nat.le_succ _
        sent := by
          rw [List.flatten_append, List.length_append, List.flatten_singleton, ← hgoing.sent]
        all := hall.trans hbatches.symm
        fresh := fun hidle => absurd (hensured.symm.trans hidle) (Bool.false_ne_true ·.symm) }
      refine ⟨_, _, _, rfl, hgone.toDid, ?_, fun _ => ⟨hgone, hbatches⟩⟩
      rw [hbatches]

variable (cw) in
/-- Batches one after the other, up to the first that fails. -/
def sendAll : List (List BatchEvent) → BatchSender → BatchSender × Except RestoreError Unit
  | [], s => (s, .ok ())
  | batch :: batches, s =>
    match s.send cw batch with
    | (s, .error e) => (s, .error e)
    | (s, .ok ()) => sendAll batches s

/-- What comes of all batches. -/
theorem Going.sendAll {s : BatchSender} {tries : List (List BatchEvent × Nat)}
    (h : s.Going cw tries) (batches : List (List BatchEvent)) :
    ∃ s' res tries', BatchSender.sendAll cw batches s = (s', res) ∧ s'.Did cw tries' ∧
      tries'.map Prod.fst <+: tries.map Prod.fst ++ batches ∧
      (res = .ok () → s'.taken = tries.map Prod.fst ++ batches) := by
  induction batches generalizing s tries with
  | nil =>
    refine ⟨s, _, tries, rfl, h.toDid, ?_, fun _ => ?_⟩
    · rw [List.append_nil]
    · rw [List.append_nil]
      exact h.all
  | cons batch batches ih =>
    obtain ⟨s₁, res₁, tries₁, hsend, hdid, hpre, hok⟩ := h.send batch
    have hcons : tries.map Prod.fst ++ batch :: batches = tries.map Prod.fst ++ [batch] ++ batches := by
      rw [List.append_assoc, List.singleton_append]
    unfold BatchSender.sendAll
    rw [hsend, hcons]
    cases res₁ with
    | error e => exact ⟨s₁, _, tries₁, rfl, hdid, hpre.trans (List.prefix_append _ _), nofun⟩
    | ok u =>
      obtain ⟨hgoing, hbatches⟩ := hok rfl
      rw [← hbatches]
      exact ih hgoing

theorem sendAll_append (batches batches' : List (List BatchEvent)) : ∀ s : BatchSender,
    sendAll cw (batches ++ batches') s =
      match sendAll cw batches s with
      | (s, .error e) => (s, .error e)
      | (s, .ok ()) => sendAll cw batches' s := by
  induction batches with
  | nil => exact fun s => rfl
  | cons batch batches ih =>
    intro s
    rw [List.cons_append, sendAll, sendAll]
    cases s.send cw batch with
    | mk s₁ res =>
      cases res with
      | error e => rfl
      | ok u => exact ih s₁

end BatchSender

/-! ## The loop -/

namespace EventBatcher

/-- The batches that are handed back while events are pushed, and the batcher after them. -/
def feed (b : EventBatcher) : List BatchEvent → List (List BatchEvent) × EventBatcher
  | [] => ([], b)
  | ev :: evs =>
    let rest := (b.push ev).2.feed evs
    ((b.push ev).1.toList ++ rest.1, rest.2)

theorem drive_eq_feed : ∀ (events : List BatchEvent) (b : EventBatcher),
    b.drive events = (b.feed events).1 ++ (b.feed events).2.finish.toList
  | [], _ => rfl
  | ev :: evs, b => by
    rw [drive, feed, drive_eq_feed evs, List.append_assoc]

end EventBatcher

namespace Reingest

variable (J : JsonText) (raw tagGroup : Bool) (now : Int)

/-- The events for some records that are not too large for any batch. -/
def kept (xs : List (LogRecord × String)) : List BatchEvent :=
  (xs.map (eventOf J raw tagGroup now)).filter fun ev => decide (eventCost ev.message ≤ maxBatchBytes)

variable {J raw tagGroup now}

theorem kept_cons_large {x : LogRecord × String} {xs : List (LogRecord × String)}
    (h : maxBatchBytes < eventCost (eventOf J raw tagGroup now x).message) :
    kept J raw tagGroup now (x :: xs) = kept J raw tagGroup now xs := by
  rw [kept, List.map_cons, List.filter_cons, if_neg]
  · rfl
  · rw [decide_eq_true_iff]
    exact Nat.not_le_of_lt h

theorem kept_cons {x : LogRecord × String} {xs : List (LogRecord × String)}
    (h : ¬ maxBatchBytes < eventCost (eventOf J raw tagGroup now x).message) :
    kept J raw tagGroup now (x :: xs) =
      eventOf J raw tagGroup now x :: kept J raw tagGroup now xs := by
  rw [kept, List.map_cons, List.filter_cons, if_pos]
  · rfl
  · rw [decide_eq_true_iff]
    exact Nat.le_of_not_lt h

variable (J cw raw tagGroup now) in
/-- The loop sends what the batcher hands back, one after the other, and stops where that does.
Every record it came by is counted. -/
theorem takeAll_sends : ∀ (xs : List (LogRecord × String)) (st : Reingest),
    ∃ st' res, takeAll J cw raw tagGroup now xs st = (st', res) ∧
      (st'.sender, res) =
        BatchSender.sendAll cw (st.batcher.feed (kept J raw tagGroup now xs)).1 st.sender ∧
      (res = .ok () → st'.batcher = (st.batcher.feed (kept J raw tagGroup now xs)).2 ∧
        st'.total = st.total + (kept J raw tagGroup now xs).length ∧
        st'.oversized + st'.total = st.oversized + st.total + xs.length)
  | [], st => ⟨st, .ok (), rfl, rfl, fun _ => ⟨rfl, rfl, rfl⟩⟩
  | x :: xs, st => by
    unfold takeAll take
    by_cases hlarge : maxBatchBytes < eventCost (eventOf J raw tagGroup now x).message
    · obtain ⟨st', res, hall, hsends, hok⟩ := takeAll_sends xs { st with oversized := st.oversized + 1 }
      simp only [if_pos hlarge, kept_cons_large hlarge]
      refine ⟨st', res, hall, hsends, fun hres => ?_⟩
      obtain ⟨hbatcher, htotal, hcount⟩ := hok hres
      refine ⟨hbatcher, htotal, ?_⟩
      rw [hcount, List.length_cons]
      dsimp only
      omega
    · simp only [if_neg hlarge, kept_cons hlarge, EventBatcher.feed]
      cases hpush : st.batcher.push (eventOf J raw tagGroup now x) with
      | mk batch batcher =>
        have hlength : ∀ n : Nat, st.oversized + (st.total + 1) + n = st.oversized + st.total + (n + 1) :=
          fun n => by omega
        cases batch with
        | none =>
          obtain ⟨st', res, hall, hsends, hok⟩ := takeAll_sends xs { st with
            batcher := batcher
            rawTooOld := st.rawTooOld + if raw && decide ((eventOf J raw tagGroup now x).timestamp <
              now - cwIngestMaxAgeMs) then 1 else 0
            total := st.total + 1 }
          refine ⟨st', res, hall, hsends, fun hres => ?_⟩
          obtain ⟨hbatcher, htotal, hcount⟩ := hok hres
          refine ⟨hbatcher, ?_, ?_⟩
          · rw [htotal, List.length_cons]
            dsimp only
            omega
          · rw [hcount, List.length_cons]
            exact hlength _
        | some batch =>
          dsimp only [Option.toList_some, List.singleton_append, sendBatch]
          rw [BatchSender.sendAll]
          cases hsend : st.sender.send cw batch with
          | mk sender res₁ =>
            cases res₁ with
            | error e => exact ⟨_, _, rfl, rfl, nofun⟩
            | ok u =>
              obtain ⟨st', res, hall, hsends, hok⟩ := takeAll_sends xs { st with
                batcher := batcher
                sender := sender
                rawTooOld := st.rawTooOld + if raw && decide (
                  (eventOf J raw tagGroup now x).timestamp < now - cwIngestMaxAgeMs) then 1 else 0
                total := st.total + 1 }
              refine ⟨st', res, hall, hsends, fun hres => ?_⟩
              obtain ⟨hbatcher, htotal, hcount⟩ := hok hres
              refine ⟨hbatcher, ?_, ?_⟩
              · rw [htotal, List.length_cons]
                dsimp only
                omega
              · rw [hcount, List.length_cons]
                exact hlength _

variable (J cw raw tagGroup now) in
/-- A restore sends the batches that the batcher alone cuts: all of them where the scan comes to
its end, and otherwise those that were full. -/
theorem run_sends (out : List (LogRecord × String)) (ended : Except ScanError Unit) :
    ∃ batches later, EventBatcher.new.drive (kept J raw tagGroup now out) = batches ++ later ∧
      (run J cw raw tagGroup now out ended).1.sender =
        (BatchSender.sendAll cw batches .new).1 ∧
      ((run J cw raw tagGroup now out ended).2 = .ok () → later = [] ∧
        (BatchSender.sendAll cw batches .new).2 = .ok () ∧
        (run J cw raw tagGroup now out ended).1.total = (kept J raw tagGroup now out).length ∧
        (run J cw raw tagGroup now out ended).1.oversized +
          (run J cw raw tagGroup now out ended).1.total = out.length) := by
  have htakes : ∃ st res, takeAll J cw raw tagGroup now out new = (st, res) ∧ _ :=
    takeAll_sends cw J raw tagGroup now out new
  obtain ⟨st, res, hall, hsends, hok⟩ := htakes
  have hsplit := EventBatcher.drive_eq_feed (kept J raw tagGroup now out) .new
  have hstart : (new.batcher, new.sender) = (EventBatcher.new, BatchSender.new) := rfl
  rw [(Prod.mk.inj hstart).1, (Prod.mk.inj hstart).2] at hsends
  rw [(Prod.mk.inj hstart).1] at hok
  have hsender := congrArg Prod.fst hsends
  cases res with
  | error e =>
    have hrun : run J cw raw tagGroup now out ended = (st, .error e) := by
      unfold run
      rw [hall]
    rw [hrun]
    exact ⟨_, _, hsplit, hsender, nofun⟩
  | ok u =>
    obtain ⟨hbatcher, htotal, hcount⟩ := hok rfl
    cases ended with
    | error e =>
      have hrun : run J cw raw tagGroup now out (.error e) = (st, .error (.scan e)) := by
        unfold run
        rw [hall]
      rw [hrun]
      exact ⟨_, _, hsplit, hsender, nofun⟩
    | ok v =>
      have hrun : run J cw raw tagGroup now out (.ok v) = st.finish cw := by
        unfold run
        rw [hall]
      have hcounted : st.total = (kept J raw tagGroup now out).length ∧
          st.oversized + st.total = out.length :=
        ⟨htotal.trans (Nat.zero_add _), hcount.trans (Nat.zero_add _)⟩
      rw [hrun, finish]
      rw [← hbatcher] at hsplit
      cases hfinish : st.batcher.finish with
      | none =>
        rw [hfinish] at hsplit
        exact ⟨_, _, hsplit, hsender, fun _ => ⟨rfl, (congrArg Prod.snd hsends).symm, hcounted⟩⟩
      | some batch =>
        rw [hfinish, Option.toList_some] at hsplit
        have hlast : BatchSender.sendAll cw ((EventBatcher.new.feed
            (kept J raw tagGroup now out)).1 ++ [batch]) .new = st.sender.send cw batch := by
          rw [BatchSender.sendAll_append, ← hsends]
          dsimp only
          rw [BatchSender.sendAll]
          cases st.sender.send cw batch with
          | mk s₁ res₁ => cases res₁ <;> rfl
        refine ⟨_, [], hsplit.trans (List.append_nil _).symm, ?_, fun hres => ⟨rfl, ?_, hcounted⟩⟩
        · rw [hlast]
          rfl
        · rw [hlast]
          exact hres

/-- The event of a record is of now, or of its own time. -/
theorem eventOf_timestamp (x : LogRecord × String) :
    (eventOf J raw tagGroup now x).timestamp = if raw then x.1.timestamp else now := by
  unfold eventOf
  split
  next => rfl
  next => rfl

/-- What a restore sends is in the order of time, where a raw one is given it so. -/
theorem kept_batchable {out : List (LogRecord × String)} (hnow : i64Min ≤ now ∧ now ≤ i64Max)
    (hout : raw = true → out.Pairwise fun x y => x.1.timestamp ≤ y.1.timestamp)
    (hrange : raw = true → ∀ x ∈ out, i64Min ≤ x.1.timestamp ∧ x.1.timestamp ≤ i64Max) :
    Batchable (kept J raw tagGroup now out) where
  ordered := by
    refine List.Pairwise.filter _ (List.pairwise_map.mpr ?_)
    cases raw with
    | true =>
      refine (hout rfl).imp fun hle => ?_
      rwa [eventOf_timestamp, eventOf_timestamp, if_pos rfl, if_pos rfl]
    | false =>
      refine List.pairwise_of_forall fun x y => ?_
      rw [eventOf_timestamp, eventOf_timestamp, if_neg Bool.false_ne_true,
        if_neg Bool.false_ne_true]
  range e he := by
    obtain ⟨x, hx, rfl⟩ := List.mem_map.mp (List.mem_filter.mp he).1
    rw [eventOf_timestamp]
    split
    next hraw => exact hrange hraw x hx
    next => exact hnow
  cost e he := of_decide_eq_true (List.mem_filter.mp he).2

/-- What a restore does with the records of a scan, whatever CloudWatch answers. -/
structure InOrder (J : JsonText) (cw : CwTarget) (raw tagGroup : Bool) (now : Int)
    (out : List (LogRecord × String)) (tries : List (List BatchEvent × Nat))
    (r : Reingest × Except RestoreError Unit) : Prop where
  did : r.1.sender.Did cw tries
  within : ∀ t ∈ tries, t.1 ≠ [] ∧ WithinLimits t.1
  inOrder : (tries.map Prod.fst).flatten <+: kept J raw tagGroup now out
  all : r.2 = .ok () → r.1.sender.taken.flatten = kept J raw tagGroup now out
  counted : r.2 = .ok () → r.1.sender.sent + r.1.oversized = out.length
  nothing : kept J raw tagGroup now out = [] → r.1.sender.calls = []

variable (J cw raw tagGroup) in
theorem run_in_order (hnow : i64Min ≤ now ∧ now ≤ i64Max) {out : List (LogRecord × String)}
    (hout : raw = true → out.Pairwise fun x y => x.1.timestamp ≤ y.1.timestamp)
    (hrange : raw = true → ∀ x ∈ out, i64Min ≤ x.1.timestamp ∧ x.1.timestamp ≤ i64Max)
    (ended : Except ScanError Unit) :
    ∃ tries, InOrder J cw raw tagGroup now out tries (run J cw raw tagGroup now out ended) := by
  obtain ⟨batches, later, hdrive, hsender, hok⟩ :=
    run_sends cw J raw tagGroup now out ended
  have hdriven : Driven .new (kept J raw tagGroup now out) _ :=
    EventBatcher.drive_spec EventBatcher.loaded_new (kept_batchable hnow hout hrange)
  rw [hdrive] at hdriven
  have hflat : batches.flatten ++ later.flatten = kept J raw tagGroup now out :=
    List.flatten_append.symm.trans hdriven.flat
  have hnew : BatchSender.new.Going cw [] := BatchSender.new_going
  obtain ⟨s, res, tries, hsent, hdid, hpre, hall⟩ := hnew.sendAll batches
  rw [hsent] at hsender hok
  dsimp only at hsender hok
  rw [List.map_nil, List.nil_append] at hpre hall
  rw [← hsender] at hdid hall
  have htaken (hres : (run J cw raw tagGroup now out ended).2 = .ok ()) :
      (run J cw raw tagGroup now out ended).1.sender.taken.flatten =
        kept J raw tagGroup now out := by
    obtain ⟨rfl, hfine, -⟩ := hok hres
    rw [List.flatten_nil, List.append_nil] at hflat
    exact (congrArg List.flatten (hall hfine)).trans hflat
  exact ⟨tries, {
    did := hdid
    within := fun t ht => by
      have hmem : t.1 ∈ batches ++ later :=
        List.mem_append_left _ (hpre.subset (List.mem_map_of_mem ht))
      exact ⟨hdriven.filled _ hmem, hdriven.within _ hmem⟩
    inOrder := by
      rw [← hflat]
      exact hpre.flatten.trans (List.prefix_append _ _)
    all := htaken
    counted := fun hres => by
      obtain ⟨-, -, htotal, hcount⟩ := hok hres
      rw [← hcount, hdid.sent, htaken hres, htotal, Nat.add_comm]
    nothing := fun hnothing => by
      rw [hnothing] at hdrive
      obtain ⟨rfl, -⟩ := List.append_eq_nil_iff.mp hdrive.symm
      rw [hsender, ← (Prod.mk.inj hsent).1]
      rfl }⟩

end Reingest

end S4Logs

import Mathlib.Algebra.Order.BigOperators.Group.List
import S4Logs.Drain.Cw

/-!
# What the client's answers come to

A throttled request changes nothing but the time it takes: a listing returns what the
pages of the server hold, or what a request was refused with. So the range that a window is
paged with, whose end the client takes as inclusive, yields the events of the window and no
other.
-/

namespace S4Logs

/-! ## Backoff -/

def SdkError.throttled (e : SdkError) : Bool := e.code.any throttleCodes.contains

/-- The jitter stays in the upper half. -/
theorem delayMs_bounds (cfg : BackoffConfig) (hash : String → Nat → Nat) (attempt : Nat)
    (key : String) : cfg.exp attempt / 2 ≤ delayMs cfg hash attempt key ∧
      delayMs cfg hash attempt key ≤ cfg.exp attempt := by
  unfold delayMs
  have := Nat.mod_lt (hash key attempt) (Nat.add_one_pos (cfg.exp attempt / 2))
  omega

namespace AwsCwSource

variable {src : AwsCwSource} {op logGroup : String}

/-- What the answer to one call makes of it. -/
theorem callAnswer_cases {α : Type} (op logGroup : String) (answer : Except SdkError α) :
    (∃ v, answer = .ok v ∧ callAnswer op logGroup (answer.mapError classify) = .settled (.ok v)) ∨
      (∃ e, answer = .error e ∧ e.throttled = true ∧
        callAnswer op logGroup (answer.mapError classify) = .again e.message) ∨
      ∃ e, answer = .error e ∧ e.throttled = false ∧
        callAnswer op logGroup (answer.mapError classify) =
          .settled (.error (.api op logGroup e.message)) := by
  cases answer with
  | ok v => exact .inl ⟨v, rfl, rfl⟩
  | error e =>
    cases hthrottled : e.throttled with
    | true =>
      refine .inr (.inl ⟨e, rfl, hthrottled, ?_⟩)
      simp only [Except.mapError, classify, show e.code.any throttleCodes.contains = true from
        hthrottled, if_true, callAnswer]
    | false =>
      refine .inr (.inr ⟨e, rfl, hthrottled, ?_⟩)
      simp only [Except.mapError, classify, show e.code.any throttleCodes.contains = false from
        hthrottled, Bool.false_eq_true, if_false, callAnswer]

/-- The calls `withBackoff` makes, how long it sleeps and what it returns. -/
structure BackedOff {α : Type} (src : AwsCwSource) (op logGroup : String)
    (call : Nat → Except SdkError α) (n : Nat) (out : Retry.Outcome (Except CwError α)) : Prop where
  first : 1 ≤ out.calls
  last : out.calls ≤ max 1 src.backoff.maxAttempts
  throttled : ∀ k, 1 ≤ k → k < out.calls → ∃ e, call (n + k) = .error e ∧ e.throttled = true
  result : (∃ v, call (n + out.calls) = .ok v ∧ out.result = .ok v) ∨
    (∃ e, call (n + out.calls) = .error e ∧ e.throttled = false ∧
      out.result = .error (.api op logGroup e.message)) ∨
    ∃ e, call (n + out.calls) = .error e ∧ e.throttled = true ∧
      out.calls = max 1 src.backoff.maxAttempts ∧
      out.result = .error (.throttled op logGroup out.calls e.message)
  sleeps : out.slept.length = out.calls - 1
  slept : ∀ k d, out.slept[k]? = some d →
    src.backoff.exp (k + 1) / 2 ≤ d ∧ d ≤ src.backoff.exp (k + 1)

/-- A call is made until it is answered with anything but a throttling, at most as often as
the configuration allows. Only a throttling is hidden from the caller, and each but the last
is followed by one sleep of the length asked for. -/
theorem withBackoff_spec {α : Type} (src : AwsCwSource) (op logGroup : String)
    (call : Nat → Except SdkError α) (n : Nat) :
    BackedOff src op logGroup call n (src.withBackoff op logGroup call n) := by
  have h : Retry.Tried _ _ _ _ _ (src.withBackoff op logGroup call n) :=
    Retry.try_spec (src.backoff.maxAttempts - 1) 1
  have hlast := h.last
  refine {
    first := h.first
    last := by omega
    throttled := fun k hk hlt => ?_
    result := ?_
    sleeps := h.length_slept
    slept := fun k d hd => ?_ }
  · obtain ⟨e, he⟩ := h.failed k hk hlt
    rcases callAnswer_cases op logGroup (call (n + k)) with
      ⟨v, -, hv⟩ | ⟨e', hcall, hthrottled, -⟩ | ⟨e', -, -, he'⟩
    · rw [hv] at he
      cases he
    · exact ⟨e', hcall, hthrottled⟩
    · rw [he'] at he
      cases he
  · rcases callAnswer_cases op logGroup
      (call (n + (src.withBackoff op logGroup call n).calls)) with
      ⟨v, hcall, hv⟩ | ⟨e, hcall, hthrottled, he⟩ | ⟨e, hcall, hfatal, he⟩
    · rcases h.result with hs | ⟨-, e, he, -⟩
      · rw [hv] at hs
        exact .inl ⟨v, hcall, (Retry.Answer.settled.inj hs).symm⟩
      · rw [hv] at he
        cases he
    · rcases h.result with hs | ⟨hcalls, e', he', hresult⟩
      · rw [he] at hs
        cases hs
      · rw [he] at he'
        cases he'
        exact .inr (.inr ⟨e, hcall, hthrottled, by omega, hresult⟩)
    · rcases h.result with hs | ⟨-, e', he', -⟩
      · rw [he] at hs
        exact .inr (.inl ⟨e, hcall, hfatal, (Retry.Answer.settled.inj hs).symm⟩)
      · rw [he] at he'
        cases he'
  · rw [h.slept_eq hd, Nat.add_comm 1 k]
    exact delayMs_bounds _ _ _ _

/-- A request failed, or as many in a row as the configuration allows were throttled. -/
inductive Refused {α : Type} (src : AwsCwSource) (op logGroup : String)
    (call : Nat → Except SdkError α) (m : Nat) : CwError → Prop
  | failed {e : SdkError} : call m = .error e → e.throttled = false →
      Refused src op logGroup call m (.api op logGroup e.message)
  | throttled {e : SdkError} : call m = .error e →
      (∀ k < max 1 src.backoff.maxAttempts, ∃ e, call (m - k) = .error e ∧ e.throttled = true) →
      Refused src op logGroup call m
        (.throttled op logGroup (max 1 src.backoff.maxAttempts) e.message)

/-- What is returned was answered. -/
theorem send_ok {α : Type} {call : Nat → Except SdkError α} {n m : Nat} {v : α}
    (h : src.send op logGroup call n = (m, .ok v)) : call m = .ok v := by
  obtain ⟨hm, hr⟩ := Prod.mk.inj h
  rcases (withBackoff_spec src op logGroup call n).result with
    ⟨v', hcall, hv⟩ | ⟨e, -, -, he⟩ | ⟨e, -, -, -, he⟩
  · rw [hr] at hv
    cases hv
    rwa [hm] at hcall
  · rw [hr] at he
    cases he
  · rw [hr] at he
    cases he

theorem send_error {α : Type} {call : Nat → Except SdkError α} {n m : Nat} {e : CwError}
    (h : src.send op logGroup call n = (m, .error e)) : Refused src op logGroup call m e := by
  obtain ⟨hm, hr⟩ := Prod.mk.inj h
  have hspec := withBackoff_spec src op logGroup call n
  rcases hspec.result with
    ⟨v, -, hv⟩ | ⟨e', hcall, hfatal, he⟩ | ⟨e', hcall, hthrottled, hcalls, he⟩
  · rw [hr] at hv
    cases hv
  · rw [hr] at he
    cases he
    rw [hm] at hcall
    exact .failed hcall hfatal
  · rw [hr, hcalls] at he
    cases he
    rw [hm] at hcall
    refine .throttled hcall fun k hk => ?_
    -- the `k`-th request before the last, where `k = 0` is the last itself
    cases k with
    | zero => exact ⟨e', hcall, hthrottled⟩
    | succ k =>
      obtain ⟨e, he, hthrottled⟩ :=
        hspec.throttled (max 1 src.backoff.maxAttempts - (k + 1)) (by omega) (by omega)
      refine ⟨e, ?_, hthrottled⟩
      rw [← he]
      congr 1
      omega

/-! ## A window's events -/

/-- The event lies in a range whose end is inclusive, and passes the filter. What has no
timestamp lies in every range. -/
def inRange (startTime endTime : Int) (streams : Option (List String)) (e : FilteredLogEvent) :
    Bool :=
  (e.timestamp.all fun t => startTime ≤ t && t ≤ endTime) &&
    streams.all fun names => names.contains (e.logStreamName.getD "")

/-- An event of the inclusive range that has a timestamp is one of the window. -/
theorem event_inRange {w : Window} {streams : Option (List String)} {e : FilteredLogEvent}
    {ev : CwEvent} (hev : event e = some ev) : inRange w.startMs (w.endMs - 1) streams e =
      (w.contains ev && (Cursor.start streams).accepts ev) := by
  obtain ⟨t, ht, rfl⟩ := Option.map_eq_some_iff.mp hev
  have hend : decide (t ≤ w.endMs - 1) = decide (t < w.endMs) :=
    decide_eq_decide.mpr (by omega)
  cases streams <;> simp only [inRange, ht, Option.all_some, Option.all_none, Window.contains,
    Cursor.accepts, Cursor.start, hend]

theorem filterMap_inRange {w : Window} {streams : Option (List String)} (E : List FilteredLogEvent) :
    (E.filter (inRange w.startMs (w.endMs - 1) streams)).filterMap event =
      (E.filterMap event).filter fun ev =>
        w.contains ev && (Cursor.start streams).accepts ev := by
  induction E with
  | nil => rfl
  | cons e E ih =>
    cases hev : event e with
    | none =>
      rw [List.filterMap_cons_none hev, ← ih, List.filter_cons]
      split
      · rw [List.filterMap_cons_none hev]
      · rfl
    | some ev =>
      rw [List.filterMap_cons_some hev, List.filter_cons, List.filter_cons, event_inRange hev]
      split
      · rw [List.filterMap_cons_some hev, ih]
      · exact ih

/-- CloudWatch holds these events and does not change: what it answers are the pages of the
asked range, which end. -/
structure ServesEvents (client : CwClient) (page : FilterLogEventsInput → FilterLogEventsOutput)
    (E : String → List FilteredLogEvent) : Prop where
  served : ∀ n req out, client.filterLogEvents n req = .ok out → out = page req
  pages : ∀ logGroup startTime endTime streams, ∃ outs, Tokens.Chain
    (fun token => page ⟨logGroup, startTime, endTime, streams, token⟩)
    FilterLogEventsOutput.nextToken none outs ∧
    (outs.flatMap fun out => out.events.getD []).Perm
      ((E logGroup).filter (inRange startTime endTime streams))

/-- The group is listed under a prefix. -/
def listedUnder (namePrefix : Option String) (g : LogGroup) : Bool :=
  namePrefix.all fun p => p.toList.isPrefixOf (g.logGroupName.getD "").toList

/-- The page that the drain gets of an answer. -/
def eventPage (out : FilterLogEventsOutput) : CwEventPage where
  events := (out.events.getD []).filterMap event
  nextToken := out.nextToken

/-- A chain of answers is a chain of pages. -/
theorem chain_eventPage {page : Option String → FilterLogEventsOutput} {token : Option String}
    {outs : List FilterLogEventsOutput}
    (h : Tokens.Chain page FilterLogEventsOutput.nextToken token outs) :
    Tokens.Chain (fun token => eventPage (page token)) CwEventPage.nextToken token
      (outs.map eventPage) := by
  induction h with
  | last hnone => exact .last hnone
  | more hsome _ ih => exact .more hsome ih

/-- The request of one page of a window. -/
def pageRequest (logGroup : String) (w : Window) (streams : Option (List String))
    (token : Option String) : FilterLogEventsInput where
  logGroupName := logGroup
  startTime := w.startMs
  endTime := saturatingSub w.endMs 1
  logStreamNames := streams
  nextToken := token

theorem filterLogEvents_ok {w : Window} {streams : Option (List String)} {n m : Nat}
    {token : Option String} {p : CwEventPage}
    (h : src.filterLogEvents logGroup w.startMs w.endMs streams n token = (m, .ok p)) :
    ∃ out, src.client.filterLogEvents m (pageRequest logGroup w streams token) = .ok out ∧
      p = eventPage out := by
  unfold filterLogEvents at h
  cases hsend : src.send "FilterLogEvents" logGroup (fun n => src.client.filterLogEvents n
      (pageRequest logGroup w streams token)) n with
  | mk m' r =>
    simp only [show FilterLogEventsInput.mk logGroup w.startMs (saturatingSub w.endMs 1) streams
      token = pageRequest logGroup w streams token from rfl, hsend, Prod.mk.injEq] at h
    obtain ⟨rfl, hr⟩ := h
    cases r with
    | error e => cases hr
    | ok out =>
      cases hr
      exact ⟨out, send_ok hsend, rfl⟩

theorem filterLogEvents_error {w : Window} {streams : Option (List String)} {n m : Nat}
    {token : Option String} {e : CwError}
    (h : src.filterLogEvents logGroup w.startMs w.endMs streams n token = (m, .error e)) :
    Refused src "FilterLogEvents" logGroup (fun n => src.client.filterLogEvents n
      (pageRequest logGroup w streams token)) m e := by
  unfold filterLogEvents at h
  cases hsend : src.send "FilterLogEvents" logGroup (fun n => src.client.filterLogEvents n
      (pageRequest logGroup w streams token)) n with
  | mk m' r =>
    simp only [show FilterLogEventsInput.mk logGroup w.startMs (saturatingSub w.endMs 1) streams
      token = pageRequest logGroup w streams token from rfl, hsend, Prod.mk.injEq] at h
    obtain ⟨rfl, hr⟩ := h
    cases r with
    | error e' =>
      cases hr
      exact send_error hsend
    | ok out => cases hr

/-- Paging a window to its end over a client that may be throttled yields exactly the events
that CloudWatch holds in it, though the client takes the end as inclusive: each once, and
none that the drain would have to drop. Or a request was refused. -/
theorem pageStream_exact (src : AwsCwSource)
    (page : FilterLogEventsInput → FilterLogEventsOutput) (E : String → List FilteredLogEvent)
    (serves : ServesEvents src.client page E) (logGroup : String) (w : Window)
    (streams : Option (List String)) (hlo : i64Min < w.endMs) (hhi : w.endMs ≤ i64Max) :
    ∃ enough, ∀ fuel n, enough ≤ fuel → ∃ m r,
      src.pageStream logGroup w streams fuel n = some (m, r) ∧
        ((∃ events, r = .ok events ∧ events.Perm (((E logGroup).filterMap event).filter fun ev =>
          w.contains ev && (Cursor.start streams).accepts ev)) ∨
        ∃ token e, r = .error e ∧ Refused src "FilterLogEvents" logGroup
          (fun n => src.client.filterLogEvents n (pageRequest logGroup w streams token)) m e) := by
  have hend : saturatingSub w.endMs 1 = w.endMs - 1 := by
    unfold saturatingSub
    omega
  obtain ⟨outs, hchain, hperm⟩ := serves.pages logGroup w.startMs (w.endMs - 1) streams
  refine ⟨outs.length, fun fuel n hfuel => ?_⟩
  have hserver : ∀ n token m p,
      src.filterLogEvents logGroup w.startMs w.endMs streams n token = (m, .ok p) →
      p = eventPage (page ⟨logGroup, w.startMs, w.endMs - 1, streams, token⟩) := by
    intro n token m p hask
    obtain ⟨out, hout, rfl⟩ := filterLogEvents_ok hask
    rw [serves.served _ _ _ hout, pageRequest, hend]
  obtain ⟨m, r, hfollow, hr⟩ : ∃ m r, src.pageStream logGroup w streams fuel n = some (m, r) ∧ _ :=
    Tokens.follow_chain hserver (chain_eventPage hchain) fuel n [] (by rwa [List.length_map])
  refine ⟨m, r, hfollow, hr.imp (fun hfold => ?_) fun ⟨n', token, e, hask, he⟩ =>
    ⟨token, e, he, filterLogEvents_error hask⟩⟩
  refine ⟨_, hfold.trans (Tokens.fold_collect _), ?_⟩
  have hevents : (outs.map eventPage).flatMap CwEventPage.events =
      (outs.flatMap fun out => out.events.getD []).filterMap event := by
    rw [List.flatMap_map, List.filterMap_flatMap]
    rfl
  rw [List.nil_append, hevents, ← filterMap_inRange]
  exact hperm.filterMap event

end AwsCwSource

namespace Concrete

open AwsCwSource

def cwEvent (timestamp : Int) : FilteredLogEvent := ⟨some timestamp, some "m", some "a", none, none⟩

/-- Two pages, with one event of the group each. -/
def cwPages (req : FilterLogEventsInput) : FilterLogEventsOutput :=
  let asked := List.filter (inRange req.startTime req.endTime req.logStreamNames)
  match req.nextToken with
  | none => ⟨some (asked [cwEvent 5]), some "more"⟩
  | some _ => ⟨some (asked [cwEvent dayMs]), none⟩

def cwGroup (name : String) (creationTime : Option Int) : LogGroup :=
  ⟨some name, creationTime, none, none⟩

/-- Two pages, with one group of the account each. -/
def groupPages (req : DescribeLogGroupsInput) : DescribeLogGroupsOutput :=
  let asked := List.filter (listedUnder req.logGroupNamePrefix)
  match req.nextToken with
  | none => ⟨some (asked [cwGroup "/aws/b" (some 0)]), some "more"⟩
  | some _ => ⟨some (asked [cwGroup "/aws/a" (some 0), cwGroup "/x" (some 0)]), none⟩

/-- Every other request is throttled. -/
def throttled {α : Type} (n : Nat) (a : α) : Except SdkError α :=
  if n % 2 = 1 then .error ⟨some "ThrottlingException", "rate exceeded"⟩ else .ok a

theorem throttled_ok {α : Type} {n : Nat} {a b : α} (h : throttled n a = .ok b) : b = a := by
  unfold throttled at h
  split at h
  · cases h
  · exact (Except.ok.inj h).symm

def cwSource : AwsCwSource where
  client := {
    filterLogEvents := fun n req => throttled n (cwPages req)
    describeLogGroups := fun n req => throttled n (groupPages req)
    describeLogStreams := fun n _ => throttled n ⟨none, none⟩
    putRetentionPolicy := fun n _ => throttled n () }
  backoff := .default
  hash := fun _ attempt => attempt

theorem cwSource_servesEvents :
    ServesEvents cwSource.client cwPages fun _ => [cwEvent 5, cwEvent dayMs] where
  served _ _ _ h := throttled_ok h
  pages _ startTime endTime streams := by
    refine ⟨_, .more rfl (.last rfl), List.Perm.of_eq ?_⟩
    simp only [List.flatMap_cons, List.flatMap_nil, List.append_nil, cwPages, Option.getD_some]
    exact (List.filter_append [cwEvent 5] [cwEvent dayMs]).symm

end Concrete

open Concrete AwsCwSource in
/-- An event of the day and one of the next, over a client that throttles. -/
theorem pageStream_exact_throttled : ∃ enough, ∀ fuel n, enough ≤ fuel → ∃ m r,
    cwSource.pageStream "/g" ⟨0, dayMs⟩ none fuel n = some (m, r) ∧
      ((∃ events, r = .ok events ∧ events.Perm [⟨5, "m", "a", none, none⟩]) ∨
      ∃ token e, r = .error e ∧ Refused cwSource "FilterLogEvents" "/g"
        (fun n => cwSource.client.filterLogEvents n (pageRequest "/g" ⟨0, dayMs⟩ none token)) m e) :=
  pageStream_exact cwSource cwPages _ cwSource_servesEvents "/g" ⟨0, dayMs⟩ none (by decide)
    (by decide)

end S4Logs

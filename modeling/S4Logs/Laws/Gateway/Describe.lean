import S4Logs.Gateway.Registry
import S4Logs.Lib.Fallible
import S4Logs.Lib.Paging

/-!
# Describing a registry while it grows

No call takes a group or a stream away or makes it anew, so the list that a client pages
through only grows between its calls. A client that follows the tokens is a reader of that
list, whose offset the token spells out.
-/

namespace S4Logs

/-! ## Calls that change the registry -/

/-- A call that may change the registry, with what it reads off the clock. -/
inductive RegistryOp where
  | createGroup (name : String) (nowMs : Int)
  | createStream (group stream : String) (nowMs : Int)
  | touch (group stream : String) (groupNowMs streamNowMs : Int)

/-- The registry after a call. A call that fails leaves it as it was. -/
def Registry.apply (r : Registry) : RegistryOp → Registry
  | .createGroup name nowMs => (r.createGroup name nowMs).toOption.getD r
  | .createStream group stream nowMs => (r.createStream group stream nowMs).toOption.getD r
  | .touch group stream groupNowMs streamNowMs => r.touch group stream groupNowMs streamNowMs

/-- What a call makes of the entry of a group: the time stays, and so do the streams but for
one that was not there. -/
structure EntryGrows (old new : GroupEntry) : Prop where
  time : new.creationTimeMs = old.creationTimeMs
  streams : new.streams = old.streams ∨ ∃ s t, new.streams = old.streams.alter s t ∧
    ∀ v, old.streams.get? s = some v → t (some v) = v

/-- A call changes nothing, or the entry of one group. -/
theorem Registry.apply_cases (r : Registry) (op : RegistryOp) :
    r.apply op = r ∨ ∃ k f, r.apply op = { groups := r.groups.alter k f } ∧
      ∀ entry, r.groups.get? k = some entry → EntryGrows entry (f (some entry)) := by
  cases op with
  | createGroup name nowMs =>
    unfold Registry.apply Registry.createGroup
    dsimp only
    split
    next => exact .inl rfl
    next habsent =>
      refine .inr ⟨name, _, rfl, fun entry hentry => ?_⟩
      rw [hentry] at habsent
      exact absurd rfl habsent
  | createStream group stream nowMs =>
    unfold Registry.apply Registry.createStream
    dsimp only
    split
    next => exact .inl rfl
    next entry hentry =>
      split
      next => exact .inl rfl
      next habsent =>
        refine .inr ⟨group, _, rfl, fun entry' hentry' => ?_⟩
        rw [hentry] at hentry'
        obtain rfl := Option.some.inj hentry'
        refine ⟨rfl, .inr ⟨stream, _, rfl, fun v hv => ?_⟩⟩
        rw [hv] at habsent
        exact absurd rfl habsent
  | touch group stream groupNowMs streamNowMs =>
    exact .inr ⟨group, _, rfl, fun entry _ => ⟨rfl, .inr ⟨stream, _, rfl, fun v _ => rfl⟩⟩⟩

/-- The list of groups only grows. -/
theorem describeGroups_grow (r : Registry) (op : RegistryOp) (namePrefix : Option String) :
    (r.describeGroups namePrefix).Sublist ((r.apply op).describeGroups namePrefix) := by
  rcases r.apply_cases op with hsame | ⟨k, f, hop, hgrow⟩
  · rw [hsame]
  · rw [hop]
    refine OrdMap.alterEntries_listing fun entry hentry => ?_
    rw [(hgrow entry hentry).time]

/-- A group stays, and the list of its streams only grows. -/
theorem describeStreams_grow (r : Registry) (op : RegistryOp) (namePrefix : Option String)
    {group : String} {streams : List (String × Int)}
    (h : r.describeStreams group namePrefix = .ok streams) :
    ∃ streams', (r.apply op).describeStreams group namePrefix = .ok streams' ∧
      streams.Sublist streams' := by
  rcases r.apply_cases op with hsame | ⟨k, f, hop, hgrow⟩
  · rw [hsame]
    exact ⟨streams, h, List.Sublist.refl _⟩
  · unfold Registry.describeStreams at h ⊢
    split at h
    next => cases h
    next entry hentry =>
      cases h
      rw [hop]
      dsimp only
      rw [OrdMap.get?_alter]
      by_cases hk : group = k
      · subst hk
        rw [if_pos rfl, hentry]
        refine ⟨_, rfl, ?_⟩
        rcases (hgrow entry hentry).streams with hsame | ⟨s, t, halter, hkeep⟩
        · rw [hsame]
        · rw [halter]
          exact OrdMap.alterEntries_listing fun v hv => by rw [hkeep v hv]
      · rw [if_neg hk, hentry]
        exact ⟨_, rfl, List.Sublist.refl _⟩

/-- The registry as the `n`th call of a client finds it, with other calls in between. -/
def registryAt (r : Registry) (ops : Nat → List RegistryOp) : Nat → Registry
  | 0 => r
  | n + 1 => (ops n).foldl Registry.apply (registryAt r ops n)

theorem describeGroups_grow_all (r : Registry) (ops : List RegistryOp)
    (namePrefix : Option String) :
    (r.describeGroups namePrefix).Sublist
      ((ops.foldl Registry.apply r).describeGroups namePrefix) := by
  induction ops generalizing r with
  | nil => exact List.Sublist.refl _
  | cons op ops ih => exact (describeGroups_grow r op namePrefix).trans (ih _)

theorem describeStreams_grow_all (r : Registry) (ops : List RegistryOp)
    (namePrefix : Option String) {group : String} {streams : List (String × Int)}
    (h : r.describeStreams group namePrefix = .ok streams) :
    ∃ streams', (ops.foldl Registry.apply r).describeStreams group namePrefix = .ok streams' ∧
      streams.Sublist streams' := by
  induction ops generalizing r streams with
  | nil => exact ⟨streams, h, List.Sublist.refl _⟩
  | cons op ops ih =>
    obtain ⟨next, hnext, hsub⟩ := describeStreams_grow r op namePrefix h
    obtain ⟨last, hlast, hsub'⟩ := ih _ hnext
    exact ⟨last, hlast, hsub.trans hsub'⟩

/-- Where no call is left, the registry stays as it is. -/
theorem registryAt_still {r : Registry} {ops : Nat → List RegistryOp} {N : Nat}
    (h : ∀ n, N ≤ n → ops n = []) : ∀ n, N ≤ n → registryAt r ops n = registryAt r ops N := by
  intro n hn
  induction n, hn using Nat.le_induction with
  | base => rfl
  | succ n hn ih => rw [registryAt, h n hn, List.foldl_nil, ih]

/-! ## Clients -/

/-- Where a client is: about to ask with a token, at the end, or refused. -/
inductive FollowStatus where
  | asking (token : Option String)
  | done
  | failed (e : ApiError)

/-- A client that follows `nextToken`, and what it has received. -/
structure Follower (β : Type) where
  received : List β
  status : FollowStatus

/-- One call. The answer is a page and the token that goes with it. -/
def Follower.call {β : Type} (c : Follower β)
    (answer : Option String → Except ApiError (List β × Option String)) : Follower β :=
  match c.status with
  | .done => c
  | .failed _ => c
  | .asking token =>
    match answer token with
    | .error e => { c with status := .failed e }
    | .ok (page, none) => { received := c.received ++ page, status := .done }
    | .ok (page, some t) => { received := c.received ++ page, status := .asking (some t) }

/-- The client after `n` calls, the first without a token. -/
def follow {β : Type} (answer : Nat → Option String → Except ApiError (List β × Option String)) :
    Nat → Follower β
  | 0 => { received := [], status := .asking none }
  | n + 1 => (follow answer n).call (answer n)

/-- The answers to a client that asks for groups. -/
def groupAnswers (r : Registry) (ops : Nat → List RegistryOp) (limits : Nat → Option Int)
    (req : DescribeLogGroupsRequest) (n : Nat) (token : Option String) :
    Except ApiError (List LogGroupSummary × Option String) :=
  (describeLogGroups (registryAt r ops n)
    { req with limit := limits n, nextToken := token }).map fun resp =>
      (resp.logGroups, resp.nextToken)

/-- The answers to a client that asks for streams. -/
def streamAnswers (r : Registry) (ops : Nat → List RegistryOp) (limits : Nat → Option Int)
    (req : DescribeLogStreamsRequest) (n : Nat) (token : Option String) :
    Except ApiError (List LogStreamSummary × Option String) :=
  (describeLogStreams (registryAt r ops n)
    { req with limit := limits n, nextToken := token }).map fun resp =>
      (resp.logStreams, resp.nextToken)

/-! ## Tokens are offsets -/

/-- The page size that a limit comes to. -/
def pageSize (limit : Option Int) : Nat := (clamp (limit.getD 50) 1 50).toNat

theorem clamp_bounds (n : Int) : 1 ≤ clamp n 1 50 ∧ clamp n 1 50 ≤ 50 := by
  unfold clamp
  split
  · omega
  · split <;> omega

theorem pageSize_pos (limit : Option Int) : 0 < pageSize limit := by
  have hbounds := clamp_bounds (limit.getD 50)
  unfold pageSize
  omega

/-- A token that stands for an offset: none for the first, else its digits. -/
def TokenOf (token : Option String) (offset : Nat) : Prop :=
  (token = none ∧ offset = 0) ∨
    (token = some (String.ofList (Nat.toDigits 10 offset)) ∧ offset ≤ usizeMax)

theorem paginate_eq {α : Type} {items : List α} {limit : Option Int} {token : Option String}
    {offset : Nat} (hfits : items.length ≤ usizeMax) (htoken : TokenOf token offset) :
    paginate items limit token = .ok (Offsets.page items offset (pageSize limit),
      if offset + (Offsets.page items offset (pageSize limit)).length < items.length ∧
          Offsets.page items offset (pageSize limit) ≠ [] then
        some (String.ofList (Nat.toDigits 10
          (offset + (Offsets.page items offset (pageSize limit)).length)))
      else none) := by
  have hlimit : ¬ clamp (limit.getD 50) 1 50 < 0 := by
    have hbounds := clamp_bounds (limit.getD 50)
    omega
  -- the sum stops at the end of the range only where it is past every item
  have hsum : (if saturatingAddUsize offset (Offsets.page items offset (pageSize limit)).length <
        items.length ∧ Offsets.page items offset (pageSize limit) ≠ [] then
      some (String.ofList (Nat.toDigits 10
        (saturatingAddUsize offset (Offsets.page items offset (pageSize limit)).length)))
      else none) =
      if offset + (Offsets.page items offset (pageSize limit)).length < items.length ∧
          Offsets.page items offset (pageSize limit) ≠ [] then
        some (String.ofList (Nat.toDigits 10
          (offset + (Offsets.page items offset (pageSize limit)).length)))
      else none := by
    by_cases hin : offset + (Offsets.page items offset (pageSize limit)).length ≤ usizeMax
    · rw [saturatingAddUsize, Nat.min_eq_right hin]
    · rw [saturatingAddUsize, Nat.min_eq_left (Nat.le_of_not_le hin), if_neg (by omega),
        if_neg (by omega)]
  rw [← hsum]
  unfold paginate
  rcases htoken with ⟨rfl, rfl⟩ | ⟨rfl, hle⟩
  · simp only [bind, Except.bind, hlimit, if_false]
    rfl
  · simp only [bind, Except.bind, hlimit, if_false, String.toList_ofList,
      Text.parseUnsigned_toDigits (Nat.lt_succ_of_le hle)]
    rfl

/-- A client and a reader of the list behind the answers: what the one received is what the
other read, and the token is the offset. -/
structure Follows {α β : Type} (f : α → β) (c : Follower β) (reader : Offsets.Reader α) :
    Prop where
  received : c.received = reader.received.map f
  status : (reader.done = true ∧ c.status = .done) ∨
    (reader.done = false ∧ ∃ token, c.status = .asking token ∧ TokenOf token reader.offset)

/-- A call is a read. -/
theorem Follows.call {α β : Type} {f : α → β} {c : Follower β} {reader : Offsets.Reader α}
    (h : Follows f c reader) {items : List α} {limit : Option Int}
    (hfits : items.length ≤ usizeMax)
    {answer : Option String → Except ApiError (List β × Option String)}
    (hanswer : ∀ token, answer token = (paginate items limit token).map fun p =>
      (p.1.map f, p.2)) :
    Follows f (c.call answer) (reader.read items (pageSize limit)) := by
  rcases h.status with ⟨hdone, hstatus⟩ | ⟨hopen, token, hstatus, htoken⟩
  · have hcall : c.call answer = c := by rw [Follower.call, hstatus]
    rw [hcall, Offsets.read_of_done hdone]
    exact h
  · rw [Offsets.read_of_open hopen, Follower.call, hstatus]
    dsimp only
    rw [hanswer, paginate_eq hfits htoken, Except.map]
    by_cases hmore : reader.offset +
        (Offsets.page items reader.offset (pageSize limit)).length < items.length ∧
          Offsets.page items reader.offset (pageSize limit) ≠ []
    · rw [if_pos hmore]
      refine ⟨?_, .inr ⟨?_, _, rfl, .inr ⟨rfl, ?_⟩⟩⟩
      · rw [List.map_append, h.received]
      · rw [decide_eq_true hmore]
        rfl
      · exact (Nat.le_of_lt hmore.1).trans hfits
    · rw [if_neg hmore]
      refine ⟨?_, .inl ⟨?_, rfl⟩⟩
      · rw [List.map_append, h.received]
      · rw [decide_eq_false hmore]
        rfl

/-- A run of calls is a run of reads. -/
theorem follows_reads {α β : Type} {f : α → β} {items : Nat → List α} {limits : Nat → Option Int}
    {answer : Nat → Option String → Except ApiError (List β × Option String)}
    (hfits : ∀ n, (items n).length ≤ usizeMax)
    (hanswer : ∀ n token, answer n token = (paginate (items n) (limits n) token).map fun p =>
      (p.1.map f, p.2)) (n : Nat) :
    Follows f (follow answer n) (Offsets.reads items (fun n => pageSize (limits n)) n) := by
  induction n with
  | zero => exact ⟨rfl, .inr ⟨rfl, none, rfl, .inl ⟨rfl, rfl⟩⟩⟩
  | succ n ih => exact ih.call (hfits n) (hanswer n)

/-- The client comes to the end of the list, has received all that was on it at the first
call, and where the list stayed the same exactly that, in its order. -/
theorem follow_complete {α β : Type} {f : α → β} {items : Nat → List α}
    {limits : Nat → Option Int}
    {answer : Nat → Option String → Except ApiError (List β × Option String)}
    (hfits : ∀ n, (items n).length ≤ usizeMax)
    (hanswer : ∀ n token, answer n token = (paginate (items n) (limits n) token).map fun p =>
      (p.1.map f, p.2))
    (hgrow : ∀ n, (items n).Sublist (items (n + 1))) {N : Nat}
    (hstill : ∀ n, N ≤ n → items n = items N) :
    ∃ n, (follow answer n).status = .done ∧ (∀ x ∈ items 0, f x ∈ (follow answer n).received) ∧
      ((∀ n, items n = items 0) → (follow answer n).received = (items 0).map f) := by
  have hsize : ∀ n, 0 < pageSize (limits n) := fun n => pageSize_pos (limits n)
  obtain ⟨n, hdone⟩ := Offsets.reads_done (fun n => pageSize (limits n)) hstill
  obtain ⟨hreceived, hstatus⟩ := follows_reads hfits hanswer n
  refine ⟨n, ?_, ?_, ?_⟩
  · rcases hstatus with ⟨-, hstatus⟩ | ⟨hopen, -⟩
    · exact hstatus
    · rw [hdone] at hopen
      cases hopen
  · intro x hx
    rw [hreceived]
    rcases Offsets.reads_keep hgrow hsize hx n with hread | ⟨hopen, -⟩
    · exact List.mem_map_of_mem hread
    · rw [hdone] at hopen
      cases hopen
  · intro hsame
    obtain ⟨hfront, hend⟩ := Offsets.reads_front hsame hsize n
    rw [hend hdone, List.append_nil] at hfront
    rw [hreceived, hfront]

/-! ## The two lists -/

theorem mem_describeGroups {r : Registry} {namePrefix : Option String} {g : String × Int} :
    g ∈ r.describeGroups namePrefix ↔ ∃ entry, r.groups.get? g.1 = some entry ∧
      Registry.nameMatches namePrefix g.1 = true ∧ entry.creationTimeMs = g.2 := by
  unfold Registry.describeGroups
  rw [List.mem_map]
  constructor
  · rintro ⟨e, he, rfl⟩
    obtain ⟨hmem, hmatch⟩ := List.mem_filter.mp he
    exact ⟨e.2, OrdMap.get?_eq_some.mpr hmem, hmatch, rfl⟩
  · rintro ⟨entry, hentry, hmatch, htime⟩
    refine ⟨(g.1, entry), List.mem_filter.mpr ⟨OrdMap.get?_eq_some.mp hentry, hmatch⟩, ?_⟩
    rw [htime]

theorem describeGroups_ascending (r : Registry) (namePrefix : Option String) :
    (r.describeGroups namePrefix).Pairwise fun a b => a.1 < b.1 :=
  List.pairwise_map.mpr (r.groups.ascending.sublist List.filter_sublist)

/-- Summaries of exactly the groups that match, each once, in the order of the names. -/
structure GroupsInOrder (r : Registry) (namePrefix : Option String) (l : List LogGroupSummary) :
    Prop where
  exact : ∀ s, s ∈ l ↔ ∃ name entry, r.groups.get? name = some entry ∧
    Registry.nameMatches namePrefix name = true ∧ s = .ofGroup (name, entry.creationTimeMs)
  ordered : l.Pairwise fun a b => a.logGroupName < b.logGroupName

theorem describeGroups_inOrder (r : Registry) (namePrefix : Option String) :
    GroupsInOrder r namePrefix ((r.describeGroups namePrefix).map .ofGroup) where
  exact s := by
    rw [List.mem_map]
    constructor
    · rintro ⟨g, hg, rfl⟩
      obtain ⟨entry, hentry, hmatch, htime⟩ := mem_describeGroups.mp hg
      exact ⟨g.1, entry, hentry, hmatch, by rw [htime]⟩
    · rintro ⟨name, entry, hentry, hmatch, rfl⟩
      exact ⟨_, mem_describeGroups.mpr ⟨entry, hentry, hmatch, rfl⟩, rfl⟩
  ordered := List.pairwise_map.mpr (describeGroups_ascending r namePrefix)

/-- Summaries of exactly the streams that match, each once, in the order of the names. -/
structure StreamsInOrder (entry : GroupEntry) (namePrefix : Option String)
    (l : List LogStreamSummary) : Prop where
  exact : ∀ s, s ∈ l ↔ ∃ name t, entry.streams.get? name = some t ∧
    Registry.nameMatches namePrefix name = true ∧ s = .ofStream (name, t)
  ordered : l.Pairwise fun a b => a.logStreamName < b.logStreamName

theorem describeStreams_inOrder {r : Registry} {group : String} {entry : GroupEntry}
    (hentry : r.groups.get? group = some entry) (namePrefix : Option String) :
    ∃ streams, r.describeStreams group namePrefix = .ok streams ∧
      StreamsInOrder entry namePrefix (streams.map .ofStream) := by
  unfold Registry.describeStreams
  rw [hentry]
  refine ⟨_, rfl, ?_, ?_⟩
  · intro s
    rw [List.mem_map]
    constructor
    · rintro ⟨g, hg, rfl⟩
      obtain ⟨e, he, rfl⟩ := List.mem_map.mp hg
      obtain ⟨hmem, hmatch⟩ := List.mem_filter.mp he
      exact ⟨e.1, e.2, OrdMap.get?_eq_some.mpr hmem, hmatch, rfl⟩
    · rintro ⟨name, t, hstream, hmatch, rfl⟩
      refine ⟨(name, t), List.mem_map.mpr ⟨(name, t), ?_, rfl⟩, rfl⟩
      exact List.mem_filter.mpr ⟨OrdMap.get?_eq_some.mp hstream, hmatch⟩
  · refine List.pairwise_map.mpr (List.pairwise_map.mpr ?_)
    exact entry.streams.ascending.sublist List.filter_sublist

/-! ## Clients come to the end -/

variable {r : Registry} {ops : Nat → List RegistryOp}

theorem groupAnswers_eq (limits : Nat → Option Int) (req : DescribeLogGroupsRequest) (n : Nat)
    (token : Option String) :
    groupAnswers r ops limits req n token =
      (paginate ((registryAt r ops n).describeGroups req.logGroupNamePrefix) (limits n) token).map
        fun p => (p.1.map .ofGroup, p.2) := by
  unfold groupAnswers describeLogGroups
  dsimp only
  cases paginate ((registryAt r ops n).describeGroups req.logGroupNamePrefix) (limits n) token with
  | error e => rfl
  | ok p => rfl

theorem streamAnswers_eq (limits : Nat → Option Int) {req : DescribeLogStreamsRequest}
    {group : String} (hgroup : req.logGroupName.or req.logGroupIdentifier = some group) {n : Nat}
    {streams : List (String × Int)}
    (hstreams : (registryAt r ops n).describeStreams group req.logStreamNamePrefix = .ok streams)
    (token : Option String) :
    streamAnswers r ops limits req n token =
      (paginate streams (limits n) token).map fun p => (p.1.map .ofStream, p.2) := by
  unfold streamAnswers describeLogStreams
  dsimp only
  simp only [hgroup, bind, Except.bind, hstreams]
  cases paginate streams (limits n) token with
  | error e => rfl
  | ok p => rfl

/-- A client that asks for groups gets all that match at its first call. -/
theorem follow_groups (limits : Nat → Option Int) (req : DescribeLogGroupsRequest)
    (hfinite : ∃ N, ∀ n, N ≤ n → ops n = [])
    (hfits : ∀ n, ((registryAt r ops n).describeGroups req.logGroupNamePrefix).length ≤ usizeMax) :
    ∃ n, (follow (groupAnswers r ops limits req) n).status = .done ∧
      (∀ g ∈ r.describeGroups req.logGroupNamePrefix,
        LogGroupSummary.ofGroup g ∈ (follow (groupAnswers r ops limits req) n).received) ∧
      ((∀ k, (registryAt r ops k).describeGroups req.logGroupNamePrefix =
          r.describeGroups req.logGroupNamePrefix) →
        (follow (groupAnswers r ops limits req) n).received =
          (r.describeGroups req.logGroupNamePrefix).map .ofGroup) := by
  obtain ⟨N, hN⟩ := hfinite
  refine follow_complete hfits (groupAnswers_eq limits req)
    (fun n => describeGroups_grow_all _ _ _) (N := N) fun n hn => ?_
  rw [registryAt_still hN n hn]

/-- A client that asks for the streams of a group gets all that match at its first call. -/
theorem follow_streams (limits : Nat → Option Int) {req : DescribeLogStreamsRequest}
    {group : String} (hgroup : req.logGroupName.or req.logGroupIdentifier = some group)
    {streams : List (String × Int)}
    (hstreams : r.describeStreams group req.logStreamNamePrefix = .ok streams)
    (hfinite : ∃ N, ∀ n, N ≤ n → ops n = [])
    (hfits : ∀ n now, (registryAt r ops n).describeStreams group req.logStreamNamePrefix =
      .ok now → now.length ≤ usizeMax) :
    ∃ n, (follow (streamAnswers r ops limits req) n).status = .done ∧
      (∀ s ∈ streams,
        LogStreamSummary.ofStream s ∈ (follow (streamAnswers r ops limits req) n).received) ∧
      ((∀ k, (registryAt r ops k).describeStreams group req.logStreamNamePrefix = .ok streams) →
        (follow (streamAnswers r ops limits req) n).received = streams.map .ofStream) := by
  obtain ⟨N, hN⟩ := hfinite
  -- the group stays, so every call finds a list
  have hthere : ∀ n, ∃ now,
      (registryAt r ops n).describeStreams group req.logStreamNamePrefix = .ok now := by
    intro n
    induction n with
    | zero => exact ⟨streams, hstreams⟩
    | succ n ih =>
      obtain ⟨now, hnow⟩ := ih
      obtain ⟨next, hnext, -⟩ := describeStreams_grow_all _ (ops n) _ hnow
      exact ⟨next, hnext⟩
  choose items hitems using hthere
  have hzero : items 0 = streams := Except.ok.inj ((hitems 0).symm.trans hstreams)
  have hgrow : ∀ n, (items n).Sublist (items (n + 1)) := by
    intro n
    obtain ⟨next, hnext, hsub⟩ := describeStreams_grow_all _ (ops n) _ (hitems n)
    rw [Except.ok.inj ((hitems (n + 1)).symm.trans hnext)]
    exact hsub
  have hstill : ∀ n, N ≤ n → items n = items N := by
    intro n hn
    have hnow := hitems n
    rw [registryAt_still hN n hn, hitems N] at hnow
    exact (Except.ok.inj hnow).symm
  obtain ⟨n, hdone, hall, hsame⟩ := follow_complete (fun n => hfits n _ (hitems n))
    (fun n => streamAnswers_eq limits hgroup (hitems n)) hgrow hstill
  rw [hzero] at hall hsame
  refine ⟨n, hdone, hall, fun hunchanged => hsame fun k => ?_⟩
  exact Except.ok.inj ((hitems k).symm.trans (hunchanged k))

/-- However creates and writes come in between, and whatever page sizes are asked for, a client
that follows the tokens comes to the end and has received every group, and every stream of a
group, that matched at its first call. Where no call in between adds to the list, it has
received exactly what matches, each once, in the order of the names. The streams of a group
that is not there are refused at the first call. A list is a vector, so its length is a
`usize`. -/
theorem describe_pages_complete (r : Registry) (ops : Nat → List RegistryOp)
    (limits : Nat → Option Int) (hfinite : ∃ N, ∀ n, N ≤ n → ops n = []) :
    (∀ req : DescribeLogGroupsRequest,
      (∀ n, ((registryAt r ops n).describeGroups req.logGroupNamePrefix).length ≤ usizeMax) →
      ∃ n, (follow (groupAnswers r ops limits req) n).status = .done ∧
        (∀ name entry, r.groups.get? name = some entry →
          Registry.nameMatches req.logGroupNamePrefix name = true →
          LogGroupSummary.ofGroup (name, entry.creationTimeMs) ∈
            (follow (groupAnswers r ops limits req) n).received) ∧
        ((∀ k, (registryAt r ops k).describeGroups req.logGroupNamePrefix =
            r.describeGroups req.logGroupNamePrefix) →
          GroupsInOrder r req.logGroupNamePrefix
            (follow (groupAnswers r ops limits req) n).received)) ∧
    ∀ (req : DescribeLogStreamsRequest) (group : String),
      req.logGroupName.or req.logGroupIdentifier = some group →
      (∀ n now, (registryAt r ops n).describeStreams group req.logStreamNamePrefix =
        .ok now → now.length ≤ usizeMax) →
      (∀ entry, r.groups.get? group = some entry →
        ∃ n, (follow (streamAnswers r ops limits req) n).status = .done ∧
          (∀ name t, entry.streams.get? name = some t →
            Registry.nameMatches req.logStreamNamePrefix name = true →
            LogStreamSummary.ofStream (name, t) ∈
              (follow (streamAnswers r ops limits req) n).received) ∧
          ((∀ k, (registryAt r ops k).describeStreams group req.logStreamNamePrefix =
              r.describeStreams group req.logStreamNamePrefix) →
            StreamsInOrder entry req.logStreamNamePrefix
              (follow (streamAnswers r ops limits req) n).received)) ∧
      (r.groups.get? group = none →
        (follow (streamAnswers r ops limits req) 1).status =
          .failed (ApiError.notFound "log group")) := by
  constructor
  · intro req hfits
    obtain ⟨n, hdone, hall, hsame⟩ := follow_groups limits req hfinite hfits
    refine ⟨n, hdone, fun name entry hentry hmatch => ?_, fun hunchanged => ?_⟩
    · exact hall _ (mem_describeGroups.mpr ⟨entry, hentry, hmatch, rfl⟩)
    · rw [hsame hunchanged]
      exact describeGroups_inOrder r _
  · intro req group hgroup hfits
    constructor
    · intro entry hentry
      obtain ⟨streams, hstreams, horder⟩ := describeStreams_inOrder hentry req.logStreamNamePrefix
      obtain ⟨n, hdone, hall, hsame⟩ := follow_streams limits hgroup hstreams hfinite hfits
      refine ⟨n, hdone, fun name t hstream hmatch => ?_, fun hunchanged => ?_⟩
      · obtain ⟨s, hs, heq⟩ :=
          List.mem_map.mp ((horder.exact _).mpr ⟨name, t, hstream, hmatch, rfl⟩)
        rw [← heq]
        exact hall s hs
      · rw [hsame fun k => (hunchanged k).trans hstreams]
        exact horder
    · intro hnone
      have hrefused : r.describeStreams group req.logStreamNamePrefix = .error .groupNotFound := by
        unfold Registry.describeStreams
        rw [hnone]
      unfold follow follow Follower.call streamAnswers describeLogStreams registryAt
      simp only [hgroup, hrefused, bind, Except.bind, Except.map]

namespace Concrete

/-- A registry of two groups, one of them with a stream. -/
def twoGroups : Registry where
  groups := {
    entries := [("b", ⟨1, ⟨[("s", 3)], List.pairwise_singleton _ _⟩⟩), ("c", ⟨2, .empty⟩)]
    ascending := by decide }

/-- After the first call a group in front of both is made, and a stream in front of the one. -/
def createsBefore (n : Nat) : List RegistryOp :=
  if n = 0 then [.createGroup "a" 7, .createStream "b" "r" 8] else []

end Concrete

/-- One item a page, and what is made after the first call moves all of them on. -/
theorem describe_pages_complete_shifted :
    (∃ n, (follow (groupAnswers Concrete.twoGroups Concrete.createsBefore (fun _ => some 1)
          ⟨none, none, none⟩) n).status = .done ∧
      LogGroupSummary.ofGroup ("b", 1) ∈ (follow (groupAnswers Concrete.twoGroups
        Concrete.createsBefore (fun _ => some 1) ⟨none, none, none⟩) n).received) ∧
    ∃ n, (follow (streamAnswers Concrete.twoGroups Concrete.createsBefore (fun _ => some 1)
          ⟨some "b", none, none, none, none⟩) n).status = .done ∧
      LogStreamSummary.ofStream ("s", 3) ∈ (follow (streamAnswers Concrete.twoGroups
        Concrete.createsBefore (fun _ => some 1) ⟨some "b", none, none, none, none⟩) n).received := by
  have hquiet : ∀ n, 1 ≤ n → Concrete.createsBefore n = [] := fun n hn => if_neg (by omega)
  have hafter : ∀ n, registryAt Concrete.twoGroups Concrete.createsBefore n = Concrete.twoGroups ∨
      registryAt Concrete.twoGroups Concrete.createsBefore n =
        registryAt Concrete.twoGroups Concrete.createsBefore 1 := by
    intro n
    cases n with
    | zero => exact .inl rfl
    | succ n => exact .inr (registryAt_still hquiet _ (Nat.le_add_left 1 n))
  obtain ⟨hgroups, hstreams⟩ := describe_pages_complete Concrete.twoGroups Concrete.createsBefore
    (fun _ => some 1) ⟨1, hquiet⟩
  constructor
  · obtain ⟨n, hdone, hall, -⟩ := hgroups ⟨none, none, none⟩ fun n => by
      rcases hafter n with h | h <;> rw [h] <;> decide +kernel
    exact ⟨n, hdone, hall "b" ⟨1, ⟨[("s", 3)], List.pairwise_singleton _ _⟩⟩ rfl rfl⟩
  · obtain ⟨hthere, -⟩ := hstreams ⟨some "b", none, none, none, none⟩ "b" rfl fun n now hnow => by
      rcases hafter n with h | h <;> rw [h] at hnow <;> cases hnow <;> decide +kernel
    obtain ⟨n, hdone, hall, -⟩ := hthere ⟨1, ⟨[("s", 3)], List.pairwise_singleton _ _⟩⟩ rfl
    exact ⟨n, hdone, hall "s" 3 rfl rfl⟩

end S4Logs

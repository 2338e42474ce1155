import S4Logs.Laws.Drain.Fidelity

/-!
# Pages of fixed contents, put together

Where CloudWatch holds the same events throughout, the pages of a cursor are those
events that pass its filter, cut somewhere. The shards of a listing without
duplicates have no stream in common, so in whatever order their pages come, the
events of one stream come in the order of the contents (`Merging.stream`), and at
the end all of the contents have come once (`Merging.perm`).
-/

namespace S4Logs

variable {opts : DrainOptions} {shards : Option (List (List String))} {w : Window}
variable {wk : Work} {contents paged : List CwEvent}

/-! ## Shards have no stream in common -/

/-- No event passes the filters of two shards. -/
def ShardsApart (shards : Option (List (List String))) : Prop :=
  (eventPages shards).Pairwise fun c c' => ∀ ev, c.accepts ev = true → c'.accepts ev = false

/-- The shards of a listing without duplicates have no stream in common, and no call
names too many streams. -/
theorem computeShards_apart {pre : Preamble} (hshards : computeShards opts pre = .ok shards)
    (hnodup : ∀ names, pre.streams = some names → names.Nodup) :
    ShardsApart shards ∧ ∀ c ∈ eventPages shards, ∀ names, c.streams = some names →
      names.length ≤ maxStreamsPerFilter := by
  have hnone : ShardsApart none ∧ ∀ c ∈ eventPages none, ∀ names, c.streams = some names →
      names.length ≤ maxStreamsPerFilter := by
    refine ⟨List.pairwise_singleton _ _, fun c hc names hnames => ?_⟩
    rw [List.mem_singleton.mp hc] at hnames
    cases hnames
  unfold computeShards at hshards
  split at hshards
  next =>
    cases hshards
    exact hnone
  next =>
    cases hstreams : pre.streams with
    | none => simp only [hstreams, reduceCtorEq] at hshards
    | some names =>
      simp only [hstreams] at hshards
      obtain ⟨hperm, hsize⟩ :=
        partitionStreams_perm names opts.shardStreams maxStreamsPerFilter
      generalize partitionStreams names opts.shardStreams maxStreamsPerFilter = parts at *
      split at hshards
      next =>
        cases hshards
        exact hnone
      next hmany =>
        cases hshards
        have hpages : eventPages (some parts) = parts.map fun names => .start (some names) := by
          match parts, hmany with
          | [], hmany => exact absurd (by decide) hmany
          | [single], hmany => exact absurd (by simp only [List.length_singleton]; omega) hmany
          | first :: second :: rest, _ => rfl
        rw [ShardsApart, hpages, List.pairwise_map]
        constructor
        · have hflat := hperm.symm.nodup (hnodup names hstreams)
          refine (List.nodup_flatten.mp hflat).2.imp fun {shard shard'} hdisjoint ev hev => ?_
          simp only [Cursor.accepts, Cursor.start, List.contains_iff_mem] at hev ⊢
          exact Bool.eq_false_iff.mpr fun hev' => hdisjoint hev (List.contains_iff_mem.mp hev')
        · intro c hc some hsome
          obtain ⟨shard, hshard, rfl⟩ := List.mem_map.mp hc
          obtain rfl := Option.some.inj hsome
          exact hsize shard hshard

/-! ## Pages of fixed contents -/

/-- `FilterLogEvents` over fixed contents: the pages of a cursor are the events that
pass its filter, cut somewhere. -/
def ContentPage (contents : List CwEvent) (wk : Work) : TaskLabel → Prop
  | .page i (some page) => ∀ c ∈ wk.cursors[i]?,
    c.returned ++ page.events <+: contents.filter c.accepts ∧
    (page.nextToken = none → c.returned ++ page.events = contents.filter c.accepts)
  | _ => True

instance ContentPage.decidable (contents : List CwEvent) (wk : Work) :
    ∀ l, Decidable (ContentPage contents wk l)
  | .page i (some page) => inferInstanceAs (Decidable (∀ c ∈ wk.cursors[i]?,
      c.returned ++ page.events <+: contents.filter c.accepts ∧
      (page.nextToken = none → c.returned ++ page.events = contents.filter c.accepts)))
  | .page _ none => .isTrue trivial
  | .get _ => .isTrue trivial
  | .readObject _ => .isTrue trivial
  | .event => .isTrue trivial
  | .endPages => .isTrue trivial
  | .put _ => .isTrue trivial
  | .putManifest _ _ => .isTrue trivial

/-- What fixed contents answer a window, wherever it is. -/
def Phase.ContentPage (contents : List CwEvent) : Phase → TaskLabel → Prop
  | .work wk _, l => S4Logs.ContentPage contents wk l
  | _, _ => True

instance Phase.ContentPage.decidable (contents : List CwEvent) :
    ∀ p l, Decidable (Phase.ContentPage contents p l)
  | .work wk _, l => inferInstanceAs (Decidable (S4Logs.ContentPage contents wk l))
  | .look, _ => .isTrue trivial
  | .lookup, _ => .isTrue trivial
  | .read _ _ _, _ => .isTrue trivial
  | .done _, _ => .isTrue trivial
  | .failed _, _ => .isTrue trivial

/-- Each cursor has returned the first of the events that pass its filter, all of them
at its end, and these are what passes it of all that came. -/
structure Merging (contents : List CwEvent) (shards : Option (List (List String))) (w : Window)
    (paged : List CwEvent) (wk : Work) : Prop where
  inOrder : InOrder w paged wk
  filters : wk.cursors.map Cursor.streams = (eventPages shards).map Cursor.streams
  sequence : ∀ c ∈ wk.cursors, c.returned <+: contents.filter c.accepts ∧
    (c.exhausted = true → c.returned = contents.filter c.accepts)
  merged : ∀ c ∈ wk.cursors, paged.filter c.accepts = c.returned
  accepted : ∀ ev ∈ paged, ∃ c ∈ wk.cursors, c.accepts ev = true

/-- Only what is paged and handled matters. -/
theorem Merging.congr {wk' : Work} (h : Merging contents shards w paged wk)
    (hcursors : wk'.cursors = wk.cursors) (hinOrder : InOrder w paged wk') :
    Merging contents shards w paged wk' where
  inOrder := hinOrder
  filters := by
    rw [hcursors]
    exact h.filters
  sequence := by
    rw [hcursors]
    exact h.sequence
  merged := by
    rw [hcursors]
    exact h.merged
  accepted := by
    rw [hcursors]
    exact h.accepted

/-- The cursors have no event in common. -/
theorem Merging.apart (h : Merging contents shards w paged wk) (hapart : ShardsApart shards) :
    wk.cursors.Pairwise fun c c' => ∀ ev, c.accepts ev = true → c'.accepts ev = false := by
  have hstreams : ((eventPages shards).map Cursor.streams).Pairwise fun o o' => ∀ ev,
      (Cursor.start o).accepts ev = true → (Cursor.start o').accepts ev = false :=
    List.pairwise_map.mpr hapart
  rw [← h.filters] at hstreams
  exact List.pairwise_map.mp hstreams

/-- A page goes to the end of its cursor, and no other cursor lets any of it through. -/
theorem Merging.page {i : Nat} {c : Cursor} {page : CwEventPage} (hapart : ShardsApart shards)
    (h : Merging contents shards w paged wk) (answers : ContentPage contents wk (.page i (some page)))
    (hinbox : wk.inbox = []) (hc : wk.cursors[i]? = some c) :
    Merging contents shards w (paged ++ page.events)
      { wk with cursors := wk.cursors.set i (c.advance page), inbox := page.events } := by
  obtain ⟨hnext, hlast⟩ := answers c hc
  have haccepts : (c.advance page).accepts = c.accepts := rfl
  have hpage : ∀ ev ∈ page.events, c.accepts ev = true := fun ev hev =>
    (List.mem_filter.mp (hnext.subset (List.mem_append_right _ hev))).2
  have hset : ∀ c' ∈ wk.cursors.set i (c.advance page), c' = c.advance page ∨
      c' ∈ wk.cursors ∧ ∀ ev ∈ page.events, c'.accepts ev = false := by
    intro c' hc'
    obtain ⟨j, hj⟩ := List.getElem?_of_mem hc'
    by_cases hij : i = j
    · subst hij
      rw [List.getElem?_set_self (List.getElem?_eq_some_iff.mp hc).1] at hj
      exact .inl (Option.some.inj hj).symm
    · rw [List.getElem?_set_ne hij] at hj
      refine .inr ⟨List.mem_of_getElem? hj, fun ev hev => ?_⟩
      obtain ⟨hi, rfl⟩ := List.getElem?_eq_some_iff.mp hc
      obtain ⟨hj', rfl⟩ := List.getElem?_eq_some_iff.mp hj
      have hpairs := List.pairwise_iff_getElem.mp (h.apart hapart)
      rcases Nat.lt_or_gt_of_ne hij with hlt | hlt
      · exact hpairs i j hi hj' hlt ev (hpage ev hev)
      · refine Bool.eq_false_iff.mpr fun hacc => ?_
        have hpass := hpage ev hev
        rw [hpairs j i hj' hi hlt ev hacc] at hpass
        cases hpass
  have hmem := List.mem_of_getElem? hc
  constructor
  · exact h.inOrder.page page _ hinbox
  · have hstreams : (wk.cursors.map Cursor.streams)[i]? = some c.streams := by
      rw [List.getElem?_map, hc, Option.map_some]
    obtain ⟨hi, heq⟩ := List.getElem?_eq_some_iff.mp hstreams
    rw [List.map_set, ← h.filters, show (c.advance page).streams = c.streams from rfl, ← heq,
      List.set_getElem_self]
  · intro c' hc'
    rcases hset c' hc' with rfl | ⟨hold, -⟩
    · refine ⟨hnext, fun hex => hlast ?_⟩
      simpa only [Cursor.exhausted, Cursor.advance, Option.isNone_iff_eq_none,
        Option.map_eq_none_iff] using hex
    · exact h.sequence c' hold
  · intro c' hc'
    rw [List.filter_append]
    rcases hset c' hc' with rfl | ⟨hold, hnone⟩
    · rw [haccepts, h.merged c hmem, List.filter_eq_self.mpr hpage]
      rfl
    · rw [h.merged c' hold, List.filter_eq_nil_iff.mpr fun ev hev => by
        rw [hnone ev hev]
        exact Bool.false_ne_true, List.append_nil]
  · intro ev hev
    have hself : c.advance page ∈ wk.cursors.set i (c.advance page) :=
      List.mem_set (List.getElem?_eq_some_iff.mp hc).1 _
    by_cases hacc : c.accepts ev = true
    · exact ⟨_, hself, hacc⟩
    · rcases List.mem_append.mp hev with hold | hnew
      · obtain ⟨c', hc', hacc'⟩ := h.accepted ev hold
        obtain ⟨j, hj⟩ := List.getElem?_of_mem hc'
        have hij : i ≠ j := by
          rintro rfl
          rw [hc] at hj
          exact hacc (Option.some.inj hj ▸ hacc')
        have hkept : (wk.cursors.set i (c.advance page))[j]? = some c' := by
          rw [List.getElem?_set_ne hij]
          exact hj
        exact ⟨c', List.mem_of_getElem? hkept, hacc'⟩
      · exact absurd (hpage ev hnew) hacc

/-- The books of a drain of fixed contents. -/
theorem merging_pages (opts : DrainOptions) (w : Window) (contents : List CwEvent)
    (hapart : ShardsApart shards) :
    PageRule opts shards w (ContentPage contents) (Merging contents shards w) where
  prior h := h.inOrder.prior
  fresh events := by
    have hfresh : ∀ c ∈ eventPages shards, c.exhausted = false ∧ c.returned = [] :=
      eventPages_fresh
    refine ⟨⟨rfl, rfl, rfl⟩, rfl, fun c hc => ?_, fun c hc => (hfresh c hc).2.symm,
      fun ev hev => absurd hev List.not_mem_nil⟩
    rw [(hfresh c hc).2, (hfresh c hc).1]
    exact ⟨List.nil_prefix, fun h => absurd h Bool.false_ne_true⟩
  rule paged := by
    have hrule := inOrder_rule (w := w) paged
    refine ⟨fun ww h => h.congr rfl (hrule.writer ww h.inOrder), ?_⟩
    intro wk wk' l hpage move h
    refine h.congr ?_ (hrule.move hpage move h.inOrder)
    cases move with
    | page => exact absurd rfl (hpage _ _)
    | same => rfl
    | dropped => rfl
    | drained => rfl
    | already => rfl
    | appended => rfl
  page answers hinbox hc h := h.page hapart answers hinbox hc

/-! ## All of the contents -/

/-- At the end the events of each stream have come in the order of the contents. -/
theorem Merging.stream (h : Merging contents shards w paged wk) (hend : Ended wk)
    (hreads : ∀ ev ∈ contents, Reads shards ev) (name : String) :
    paged.filter (fun ev => ev.logStreamName == name) =
      contents.filter fun ev => ev.logStreamName == name := by
  by_cases hname : ∃ c ∈ wk.cursors, ∀ ev : CwEvent, ev.logStreamName = name → c.accepts ev = true
  · obtain ⟨c, hc, haccepts⟩ := hname
    have hsame : paged.filter c.accepts = contents.filter c.accepts := by
      rw [h.merged c hc, (h.sequence c hc).2 (List.all_eq_true.mp hend.2 c hc)]
    have hthrough : ∀ evs : List CwEvent, evs.filter (fun ev => ev.logStreamName == name) =
        (evs.filter c.accepts).filter fun ev => ev.logStreamName == name := by
      intro evs
      rw [List.filter_filter]
      apply List.filter_congr
      intro ev _
      cases hev : ev.logStreamName == name with
      | false => rfl
      | true => rw [haccepts ev (eq_of_beq hev)]; rfl
    rw [hthrough paged, hthrough contents, hsame]
  · -- no cursor lets the stream through, so nothing of it came or is there
    have hnone : ∀ evs : List CwEvent, (∀ ev ∈ evs, ∃ c ∈ wk.cursors, c.accepts ev = true) →
        evs.filter (fun ev => ev.logStreamName == name) = [] := by
      intro evs hevs
      refine List.filter_eq_nil_iff.mpr fun ev hev heq => hname ?_
      obtain ⟨c, hc, hacc⟩ := hevs ev hev
      refine ⟨c, hc, fun ev' hev' => ?_⟩
      have hstream : ev.logStreamName = ev'.logStreamName := (eq_of_beq heq).trans hev'.symm
      rw [← hacc]
      simp only [Cursor.accepts, hstream]
    rw [hnone paged h.accepted, hnone contents fun ev hev => ?_]
    exact accepted_congr h.filters.symm (hreads ev hev)

/-- At the end all of the contents have come, each event once. -/
theorem Merging.perm (h : Merging contents shards w paged wk) (hend : Ended wk)
    (hreads : ∀ ev ∈ contents, Reads shards ev) : paged.Perm contents := by
  rw [List.perm_iff_count]
  intro ev
  have hstream := congrArg (List.count ev) (h.stream hend hreads ev.logStreamName)
  rwa [List.count_filter (by rw [beq_self_eq_true]), List.count_filter (by rw [beq_self_eq_true])]
    at hstream

end S4Logs

import Mathlib.Algebra.Order.BigOperators.Group.Finset
import S4Logs.Cli.Merge

/-!
# The merge is an interleaving

The heap holds the head of every source that is not exhausted, so what a source still
has to give is its head, the rest of its batch and the batches to come (`left`). A pull
takes the head of one source and leaves what all of them give otherwise as it is; the
head it takes is the least, and sources ascend, so the pulls ascend. An error is not
passed over: the pull that meets it fails.
-/

namespace S4Logs

variable {ε : Type}

/-! ## Sources -/

/-- The records a source hands out. -/
def handed (source : BatchSource ε) : List LogRecord :=
  source.flatMap fun answer => match answer with
    | .ok batch => batch
    | .error _ => []

/-- What is left of a source. -/
def Lane.left (lane : Lane ε) : List LogRecord := lane.batch ++ handed lane.source

/-- What asking a source for a record comes to. -/
theorem nextRecord_spec (batch : List LogRecord) (source : BatchSource ε) :
    (∃ e lane, nextRecord batch source = (.error e, lane) ∧ .error e ∈ source) ∨
    (nextRecord batch source = (.ok none, ⟨[], []⟩) ∧ batch ++ handed source = [] ∧
      ∀ e, .error e ∉ source) ∨
    ∃ rec lane, nextRecord batch source = (.ok (some rec), lane) ∧
      batch ++ handed source = rec :: lane.left ∧
      ∀ e, .error e ∈ lane.source ↔ .error e ∈ source := by
  induction source generalizing batch with
  | nil =>
    cases batch with
    | nil => exact .inr (.inl ⟨rfl, rfl, fun _ => List.not_mem_nil⟩)
    | cons rec batch => exact .inr (.inr ⟨rec, _, rfl, rfl, fun _ => Iff.rfl⟩)
  | cons answer source ih =>
    cases batch with
    | cons rec batch => exact .inr (.inr ⟨rec, _, rfl, rfl, fun _ => Iff.rfl⟩)
    | nil =>
      cases answer with
      | error e => exact .inl ⟨e, _, rfl, List.mem_cons_self⟩
      | ok batch =>
        have herror : ∀ e, .error e ∈ (.ok batch :: source : BatchSource ε) ↔ .error e ∈ source := by
          intro e
          rw [List.mem_cons]
          exact ⟨fun h => h.resolve_left (fun h => by cases h), .inr⟩
        have hhanded : handed (.ok batch :: source : BatchSource ε) = batch ++ handed source := rfl
        rw [List.nil_append, hhanded, nextRecord]
        rcases ih batch with ⟨e, lane, hnext, hmem⟩ | ⟨hnext, hnil, hno⟩ |
          ⟨rec, lane, hnext, hleft, hmem⟩
        · exact .inl ⟨e, lane, hnext, (herror e).mpr hmem⟩
        · exact .inr (.inl ⟨hnext, hnil, fun e h => hno e ((herror e).mp h)⟩)
        · exact .inr (.inr ⟨rec, lane, hnext, hleft, fun e => (hmem e).trans (herror e).symm⟩)

/-! ## The heap -/

theorem popLeast_eq_none {heap : List Head} : popLeast heap = none ↔ heap = [] := by
  cases heap with
  | nil => exact ⟨fun _ => rfl, fun _ => rfl⟩
  | cons h heap =>
    refine ⟨fun hnone => ?_, fun hnil => absurd hnil (List.cons_ne_nil _ _)⟩
    unfold popLeast at hnone
    split at hnone
    · cases hnone
    · split at hnone <;> cases hnone

/-- The head that comes out is the least, and the others stay. -/
theorem popLeast_spec {heap rest : List Head} {least : Head}
    (h : popLeast heap = some (least, rest)) :
    heap.Perm (least :: rest) ∧ ∀ h' ∈ heap, least.key ≤ h'.key := by
  induction heap generalizing least rest with
  | nil => cases h
  | cons first heap ih =>
    unfold popLeast at h
    split at h
    next hnone =>
      cases h
      rw [popLeast_eq_none.mp hnone]
      exact ⟨.refl _, fun h' hmem => (List.mem_singleton.mp hmem).symm ▸ le_rfl⟩
    next least' rest' hsome =>
      obtain ⟨hperm, hleast⟩ := ih hsome
      split at h
      next hle =>
        cases h
        refine ⟨.refl _, fun h' hmem => ?_⟩
        rcases List.mem_cons.mp hmem with rfl | hmem
        · exact le_rfl
        · exact hle.trans (hleast h' hmem)
      next hlt =>
        cases h
        refine ⟨(hperm.cons first).trans (.swap ..), fun h' hmem => ?_⟩
        rcases List.mem_cons.mp hmem with rfl | hmem
        · exact (not_le.mp hlt).le
        · exact hleast h' hmem

/-! ## What is left -/

/-- The heads of one source. -/
def headsOf (heap : List Head) (src : Nat) : List LogRecord :=
  (heap.filter fun h => h.src = src).map Head.record

@[simp] theorem headsOf_cons (h : Head) (heap : List Head) (src : Nat) :
    headsOf (h :: heap) src = (if h.src = src then [h.record] else []) ++ headsOf heap src := by
  unfold headsOf
  rw [List.filter_cons]
  split
  next hsrc => rw [if_pos (of_decide_eq_true hsrc)]; rfl
  next hsrc => rw [if_neg fun heq => hsrc (decide_eq_true heq)]; rfl

theorem headsOf_eq_nil {heap : List Head} {src : Nat} (h : src ∉ heap.map Head.src) :
    headsOf heap src = [] := by
  unfold headsOf
  rw [List.map_eq_nil_iff, List.filter_eq_nil_iff]
  intro h' hmem hsrc
  exact h (of_decide_eq_true hsrc ▸ List.mem_map_of_mem hmem)

/-- A source has one head at most. -/
theorem headsOf_eq_singleton {heap : List Head} (hnodup : (heap.map Head.src).Nodup) {h : Head}
    (hmem : h ∈ heap) : headsOf heap h.src = [h.record] := by
  induction heap with
  | nil => cases hmem
  | cons first heap ih =>
    obtain ⟨hnew, hnodup⟩ := List.nodup_cons.mp hnodup
    rw [headsOf_cons]
    rcases List.mem_cons.mp hmem with rfl | hmem
    · rw [if_pos rfl, headsOf_eq_nil hnew]
      rfl
    · have hne : first.src ≠ h.src := fun heq => hnew (heq ▸ List.mem_map_of_mem hmem)
      rw [if_neg hne, ih hnodup hmem]
      rfl

/-- The order of the heap does not matter. -/
theorem headsOf_perm {heap heap' : List Head} (hperm : heap.Perm heap')
    (hnodup : (heap.map Head.src).Nodup) (src : Nat) : headsOf heap src = headsOf heap' src := by
  have hnodup' := (hperm.map Head.src).nodup_iff.mp hnodup
  by_cases hsrc : src ∈ heap.map Head.src
  · obtain ⟨h, hmem, rfl⟩ := List.mem_map.mp hsrc
    rw [headsOf_eq_singleton hnodup hmem, headsOf_eq_singleton hnodup' (hperm.mem_iff.mp hmem)]
  · rw [headsOf_eq_nil hsrc, headsOf_eq_nil (mt (hperm.map Head.src).mem_iff.mpr hsrc)]

namespace KWayMerge

/-- The records that a source still has to give: its head, then those not in the heap. -/
def left (m : KWayMerge ε) (src : Nat) : List LogRecord :=
  headsOf m.heap src ++ ((m.lanes[src]?).map Lane.left).getD []

/-- A call of the source is going to fail. -/
def Fails (m : KWayMerge ε) (src : Nat) (e : ε) : Prop :=
  ∃ lane, m.lanes[src]? = some lane ∧ .error e ∈ lane.source

/-- The heap holds the head of every source but those to do and those exhausted. -/
structure Filled (m : KWayMerge ε) (todo : List Nat) : Prop where
  bound : ∀ src ∈ m.heap.map Head.src ++ todo, src < m.lanes.length
  nodup : (m.heap.map Head.src ++ todo).Nodup
  idle : ∀ {src lane}, m.lanes[src]? = some lane → src ∉ m.heap.map Head.src → src ∉ todo →
    lane = ⟨[], []⟩

/-- The same records are to come from the same sources, and the same errors. -/
structure Same (m m' : KWayMerge ε) : Prop where
  lanes : m'.lanes.length = m.lanes.length
  primed : m'.primed = m.primed
  left : ∀ src, m'.left src = m.left src
  fails : ∀ src e, m'.Fails src e ↔ m.Fails src e

theorem Same.refl (m : KWayMerge ε) : Same m m := ⟨rfl, rfl, fun _ => rfl, fun _ _ => Iff.rfl⟩

theorem Same.trans {m m' m'' : KWayMerge ε} (h : Same m m') (h' : Same m' m'') : Same m m'' :=
  ⟨h'.lanes.trans h.lanes, h'.primed.trans h.primed, fun src => (h'.left src).trans (h.left src),
    fun src e => (h'.fails src e).trans (h.fails src e)⟩

variable {m m' : KWayMerge ε} {todo : List Nat} {src : Nat}

/-- A lane that gives the same, with its head, may take the place of another. -/
theorem same_set {lane lane' : Lane ε} {heap' : List Head} (hlane : m.lanes[src]? = some lane)
    (hheads : ∀ j, j ≠ src → headsOf heap' j = headsOf m.heap j)
    (hleft : headsOf heap' src ++ lane'.left = headsOf m.heap src ++ lane.left)
    (herror : ∀ e, .error e ∈ lane'.source ↔ .error e ∈ lane.source) :
    Same m { m with lanes := m.lanes.set src lane', heap := heap' } := by
  have hset : (m.lanes.set src lane')[src]? = some lane' :=
    List.getElem?_set_self (List.getElem?_eq_some_iff.mp hlane).1
  have hother : ∀ j, j ≠ src → (m.lanes.set src lane')[j]? = m.lanes[j]? :=
    fun j hj => List.getElem?_set_ne (Ne.symm hj)
  refine ⟨List.length_set .., rfl, fun j => ?_, fun j e => ?_⟩
  · unfold left
    by_cases hsrc : j = src
    · subst hsrc
      rw [hset, hlane]
      exact hleft
    · rw [hother j hsrc, hheads j hsrc]
  · unfold Fails
    by_cases hsrc : j = src
    · subst hsrc
      rw [hset, hlane]
      simp only [Option.some.injEq, exists_eq_left', herror]
    · rw [hother j hsrc]

/-- A source is done with once it has a head or is exhausted. -/
theorem Filled.set (h : m.Filled (src :: todo)) {lane' : Lane ε} {heap' : List Head}
    (hdone : (heap' = m.heap ∧ lane' = ⟨[], []⟩) ∨ ∃ rec, heap' = ⟨rec, src⟩ :: m.heap) :
    ({ m with lanes := m.lanes.set src lane', heap := heap' } : KWayMerge ε).Filled todo := by
  have hbound : src < m.lanes.length :=
    h.bound src (List.mem_append_right _ List.mem_cons_self)
  have hset : (m.lanes.set src lane')[src]? = some lane' := List.getElem?_set_self hbound
  have hperm : (m.heap.map Head.src ++ src :: todo).Perm (src :: (m.heap.map Head.src ++ todo)) :=
    List.perm_middle
  obtain ⟨hfree, hnodup⟩ := List.nodup_cons.mp (hperm.nodup_iff.mp h.nodup)
  have hidle : ∀ {j lane}, j ≠ src → (m.lanes.set src lane')[j]? = some lane →
      j ∉ m.heap.map Head.src → j ∉ todo → lane = ⟨[], []⟩ := by
    intro j lane hj hlane hheap htodo
    rw [List.getElem?_set_ne (Ne.symm hj)] at hlane
    exact h.idle hlane hheap fun hmem => (List.mem_cons.mp hmem).elim hj htodo
  rcases hdone with ⟨rfl, rfl⟩ | ⟨rec, rfl⟩
  · refine ⟨fun j hj => ?_, hnodup, fun {j lane} hlane hheap htodo => ?_⟩
    · rw [List.length_set]
      exact h.bound j (hperm.mem_iff.mpr (List.mem_cons_of_mem _ hj))
    · by_cases hsrc : j = src
      · subst hsrc
        exact (Option.some.inj (hset.symm.trans hlane)).symm
      · exact hidle hsrc hlane hheap htodo
  · refine ⟨fun j hj => ?_, List.nodup_cons.mpr ⟨hfree, hnodup⟩, fun {j lane} hlane hheap htodo => ?_⟩
    · rw [List.length_set]
      exact h.bound j (hperm.mem_iff.mpr hj)
    · obtain ⟨hsrc, hheap⟩ := not_or.mp (mt List.mem_cons.mpr hheap)
      exact hidle hsrc hlane hheap htodo

/-- A refill puts the next record of the source into the heap, or finds the source
exhausted, or fails with an error of it. -/
theorem refill_spec (h : m.Filled (src :: todo)) :
    (∃ e m', m.refill src = (.error e, m') ∧ m.Fails src e) ∨
      ∃ m', m.refill src = (.ok (), m') ∧ m'.Filled todo ∧ Same m m' := by
  obtain ⟨lane, hlane⟩ : ∃ lane, m.lanes[src]? = some lane :=
    ⟨_, List.getElem?_eq_getElem (h.bound src (List.mem_append_right _ List.mem_cons_self))⟩
  have hfree : src ∉ m.heap.map Head.src := fun hmem =>
    (List.nodup_append.mp h.nodup).2.2 src hmem src List.mem_cons_self rfl
  rcases nextRecord_spec lane.batch lane.source with
    ⟨e, lane', hnext, hmem⟩ | ⟨hnext, hnil, hno⟩ | ⟨rec, lane', hnext, hleft, herror⟩
  · refine .inl ⟨e, { m with lanes := m.lanes.set src lane' }, ?_, lane, hlane, hmem⟩
    rw [refill, hlane]
    simp only [hnext]
  · refine .inr ⟨{ m with lanes := m.lanes.set src ⟨[], []⟩ }, ?_, h.set (.inl ⟨rfl, rfl⟩),
      same_set hlane (fun _ _ => rfl) (congrArg (headsOf m.heap src ++ ·) hnil.symm) fun e => ?_⟩
    · rw [refill, hlane]
      simp only [hnext]
    · exact ⟨fun hmem => absurd hmem List.not_mem_nil, fun hmem => absurd hmem (hno e)⟩
  · refine .inr ⟨{ m with lanes := m.lanes.set src lane', heap := ⟨rec, src⟩ :: m.heap }, ?_,
      h.set (.inr ⟨rec, rfl⟩), same_set hlane (fun j hj => ?_) ?_ herror⟩
    · rw [refill, hlane]
      simp only [hnext]
    · rw [headsOf_cons, if_neg (Ne.symm hj), List.nil_append]
    · rw [headsOf_cons, if_pos rfl, headsOf_eq_nil hfree]
      exact hleft.symm

/-- Refills of all sources to do leave none to do. -/
theorem refillAll_spec : ∀ {srcs : List Nat} {m : KWayMerge ε}, m.Filled srcs →
    (∃ src e m', m.refillAll srcs = (.error e, m') ∧ m.Fails src e) ∨
      ∃ m', m.refillAll srcs = (.ok (), m') ∧ m'.Filled [] ∧ Same m m'
  | [], m, h => .inr ⟨m, rfl, h, .refl m⟩
  | src :: srcs, m, h => by
    unfold refillAll
    rcases refill_spec h with ⟨e, m', hrefill, hfails⟩ | ⟨m', hrefill, hfilled, hsame⟩
    · exact .inl ⟨src, e, m', by rw [hrefill], hfails⟩
    · rw [hrefill]
      rcases refillAll_spec hfilled with ⟨src', e, m'', hall, hfails⟩ | ⟨m'', hall, hfilled, hsame'⟩
      · exact .inl ⟨src', e, m'', hall, (hsame.fails src' e).mp hfails⟩
      · exact .inr ⟨m'', hall, hfilled, hsame.trans hsame'⟩

/-! ## Pulls -/

/-- A source that is in the heap has its head to give first. -/
theorem Filled.left_head (h : m.Filled []) {head : Head} (hmem : head ∈ m.heap) :
    ∃ rest, m.left head.src = head.record :: rest := by
  have hnodup : (m.heap.map Head.src).Nodup := (List.nodup_append.mp h.nodup).1
  exact ⟨_, by rw [left, headsOf_eq_singleton hnodup hmem]; rfl⟩

/-- Another source has nothing to give, and will not fail. -/
theorem Filled.exhausted (h : m.Filled []) (hsrc : src ∉ m.heap.map Head.src) :
    m.left src = [] ∧ ∀ e, ¬ m.Fails src e := by
  unfold left Fails
  rw [headsOf_eq_nil hsrc]
  cases hlane : m.lanes[src]? with
  | none => exact ⟨rfl, fun e ⟨lane, heq, _⟩ => by cases heq⟩
  | some lane =>
    obtain rfl := h.idle hlane hsrc List.not_mem_nil
    refine ⟨rfl, fun e ⟨lane, heq, hmem⟩ => ?_⟩
    cases heq
    exact absurd hmem List.not_mem_nil

/-- The head that a pull takes: it was the first to come from its source and the least
of all heads, and nothing else changes. -/
structure Pulled (m m' : KWayMerge ε) (head : Head) : Prop where
  filled : m'.Filled []
  primed : m'.primed = m.primed
  lanes : m'.lanes.length = m.lanes.length
  bound : head.src < m.lanes.length
  taken : m.left head.src = head.record :: m'.left head.src
  kept : ∀ src, src ≠ head.src → m'.left src = m.left src
  fails : ∀ src e, m'.Fails src e ↔ m.Fails src e
  least : ∀ h ∈ m.heap, head.key ≤ h.key

theorem nextIndexed_spec (hprimed : m.primed = true) (h : m.Filled []) :
    (∃ src e m', m.nextIndexed = (.error e, m') ∧ m.Fails src e) ∨
    (m.nextIndexed = (.ok none, m) ∧ ∀ src, m.left src = [] ∧ ∀ e, ¬ m.Fails src e) ∨
    ∃ head m', m.nextIndexed = (.ok (some (head.record, head.src)), m') ∧ Pulled m m' head := by
  have hprime : m.prime = (.ok (), m) := by rw [prime, if_pos hprimed]
  unfold nextIndexed
  rw [hprime]
  cases hpop : popLeast m.heap with
  | none =>
    refine .inr (.inl ⟨by simp only [hpop], fun src => h.exhausted ?_⟩)
    rw [popLeast_eq_none.mp hpop]
    exact List.not_mem_nil
  | some r =>
    obtain ⟨head, heap⟩ := r
    obtain ⟨hperm, hleast⟩ := popLeast_spec hpop
    have hsrcs : (m.heap.map Head.src).Perm (heap.map Head.src ++ [head.src]) :=
      (hperm.map Head.src).trans (List.perm_append_singleton _ _).symm
    have hnodup : (m.heap.map Head.src).Nodup := (List.nodup_append.mp h.nodup).1
    have hmem : ∀ {src}, src ∈ heap.map Head.src ++ [head.src] → src ∈ m.heap.map Head.src :=
      fun hsrc => hsrcs.mem_iff.mpr hsrc
    have hfree : head.src ∉ heap.map Head.src :=
      (List.nodup_cons.mp ((hperm.map Head.src).nodup_iff.mp hnodup)).1
    have hfilled : ({ m with heap := heap } : KWayMerge ε).Filled [head.src] := by
      refine ⟨fun src hsrc => h.bound src (List.mem_append_left _ (hmem hsrc)),
        hsrcs.nodup_iff.mp hnodup, fun {src lane} hlane hheap htodo => ?_⟩
      refine h.idle hlane (fun hsrc => ?_) List.not_mem_nil
      exact (List.mem_append.mp (hsrcs.mem_iff.mp hsrc)).elim hheap htodo
    have hleft : ∀ src, m.left src =
        (if head.src = src then [head.record] else []) ++
          ({ m with heap := heap } : KWayMerge ε).left src := by
      intro src
      unfold left
      rw [headsOf_perm hperm hnodup, headsOf_cons, List.append_assoc]
    rcases refill_spec hfilled with ⟨e, m', hrefill, hfails⟩ | ⟨m', hrefill, hfilled', hsame⟩
    · exact .inl ⟨head.src, e, m', by simp only [hpop, hrefill], hfails⟩
    · refine .inr (.inr ⟨head, m', by simp only [hpop, hrefill], hfilled', hsame.primed, hsame.lanes,
        ?_, ?_, fun src hsrc => ?_, hsame.fails, hleast⟩)
      · exact hfilled.bound _ (List.mem_append_right _ List.mem_cons_self)
      · rw [hleft, if_pos rfl, hsame.left, List.singleton_append]
      · rw [hsame.left, hleft src, if_neg (Ne.symm hsrc), List.nil_append]

/-- The records of one source among those pulled, in their order. -/
def taken (out : List (LogRecord × Nat)) (src : Nat) : List LogRecord :=
  (out.filter fun x => x.2 = src).map Prod.fst

/-- The key that what is pulled ascends by. -/
def tagKey (x : LogRecord × Nat) : Int ×ₗ String ×ₗ Nat := (Head.mk x.1 x.2).key

/-- The sources ascend. -/
def SourcesAscend (m : KWayMerge ε) : Prop :=
  ∀ src, Sorting.Ascending LogRecord.key (m.left src)

theorem tagKey_le {r r' : LogRecord} (src : Nat) (h : r.key ≤ r'.key) :
    tagKey (r, src) ≤ tagKey (r', src) := by
  unfold tagKey Head.key
  rw [Prod.Lex.toLex_le_toLex, Prod.Lex.toLex_le_toLex]
  rcases Prod.Lex.toLex_le_toLex.mp h with h | ⟨h, h'⟩
  · exact .inl h
  · refine .inr ⟨h, ?_⟩
    rcases h'.lt_or_eq with h' | h'
    · exact .inl h'
    · exact .inr ⟨h', le_rfl⟩

/-- The head that was pulled comes no later than what is left. -/
theorem Pulled.le {head : Head} (h : m.Filled []) (hpulled : Pulled m m' head)
    (hasc : m.SourcesAscend) {r : LogRecord} (hr : r ∈ m'.left src) :
    tagKey (head.record, head.src) ≤ tagKey (r, src) := by
  by_cases hsrc : src = head.src
  · subst hsrc
    have hsorted := hasc head.src
    rw [hpulled.taken] at hsorted
    exact tagKey_le _ ((List.pairwise_cons.mp hsorted).1 r hr)
  · rw [hpulled.kept src hsrc] at hr
    have hheap : src ∈ m.heap.map Head.src := by
      by_contra hno
      rw [(h.exhausted hno).1] at hr
      exact absurd hr List.not_mem_nil
    obtain ⟨first, hmem, rfl⟩ := List.mem_map.mp hheap
    obtain ⟨rest, hrest⟩ := h.left_head hmem
    have hsorted := hasc first.src
    rw [hrest] at hsorted hr
    refine (hpulled.least first hmem).trans ?_
    rcases List.mem_cons.mp hr with rfl | hr
    · exact le_rfl
    · exact tagKey_le _ ((List.pairwise_cons.mp hsorted).1 r hr)

/-- The number of records left. -/
def size (m : KWayMerge ε) : Nat := ∑ src ∈ Finset.range m.lanes.length, (m.left src).length

theorem Pulled.size {head : Head} (hpulled : Pulled m m' head) : m'.size < m.size := by
  unfold KWayMerge.size
  rw [hpulled.lanes]
  refine Finset.sum_lt_sum (fun src _ => ?_) ⟨head.src, Finset.mem_range.mpr hpulled.bound, ?_⟩
  · by_cases hsrc : src = head.src
    · rw [hsrc, hpulled.taken]
      exact Nat.le_succ _
    · rw [hpulled.kept src hsrc]
  · rw [hpulled.taken]
    exact Nat.lt_succ_self _

/-- More pulls do not change a merge that came to its end. -/
theorem pulls_add (k : Nat) : ∀ {n : Nat} {m : KWayMerge ε} {out : List (LogRecord × Nat)}
    {result : Except ε Unit}, pulls n m = (out, some result) → pulls (n + k) m = (out, some result)
  | 0, _, _, _, h => by cases h
  | n + 1, m, out, result, h => by
    rw [Nat.add_right_comm]
    unfold pulls at h ⊢
    split
    next e m' hnext => rwa [hnext] at h
    next m' hnext => rwa [hnext] at h
    next x m' hnext =>
      rw [hnext] at h
      obtain ⟨hout, hresult⟩ := Prod.mk.inj h
      have hmore : pulls (n + k) m' = ((pulls n m').1, some result) :=
        pulls_add k (Prod.ext rfl hresult)
      rw [← hout, hmore]

/-- Enough pulls come to an end: with everything that was left, each source in its order,
or with an error of a source. What they give is from the sources, and ascends where these
do. -/
theorem pulls_filled : ∀ {n : Nat} {m : KWayMerge ε}, m.primed = true → m.Filled [] →
    m.size < n → ∃ out result, pulls n m = (out, some result) ∧
      (result = .ok () → (∀ src, taken out src = m.left src) ∧ ∀ src e, ¬ m.Fails src e) ∧
      (∀ e, result = .error e → ∃ src, m.Fails src e) ∧
      (∀ x ∈ out, x.2 < m.lanes.length ∧ x.1 ∈ m.left x.2) ∧
      (m.SourcesAscend → Sorting.Ascending tagKey out)
  | 0, _, _, _, hsize => absurd hsize (Nat.not_lt_zero _)
  | n + 1, m, hprimed, h, hsize => by
    unfold pulls
    rcases nextIndexed_spec hprimed h with ⟨src, e, m', hnext, hfails⟩ | ⟨hnext, hdone⟩ |
      ⟨head, m', hnext, hpulled⟩
    · rw [hnext]
      refine ⟨[], .error e, rfl, fun h => (by cases h), fun e' he' => ?_,
        fun x hx => absurd hx List.not_mem_nil, fun _ => .nil⟩
      cases he'
      exact ⟨src, hfails⟩
    · rw [hnext]
      refine ⟨[], .ok (), rfl, fun _ => ⟨fun src => ?_, fun src => (hdone src).2⟩,
        fun e' he' => (by cases he'), fun x hx => absurd hx List.not_mem_nil, fun _ => .nil⟩
      rw [(hdone src).1]
      rfl
    · have hsize' : m'.size < n := Nat.lt_of_lt_of_le hpulled.size (Nat.le_of_lt_succ hsize)
      obtain ⟨out, result, hpulls, hok, herror, hfrom, hasc⟩ :=
        pulls_filled (hpulled.primed.trans hprimed) hpulled.filled hsize'
      have hleft : ∀ src r, r ∈ m'.left src → r ∈ m.left src := by
        intro src r hr
        by_cases hsrc : src = head.src
        · subst hsrc
          rw [hpulled.taken]
          exact List.mem_cons_of_mem _ hr
        · rwa [← hpulled.kept src hsrc]
      rw [hnext]
      refine ⟨(head.record, head.src) :: out, result, by simp only [hpulls], fun hresult => ?_,
        fun e he => ?_, fun x hx => ?_, fun hsorted => ?_⟩
      · obtain ⟨htaken, hno⟩ := hok hresult
        refine ⟨fun src => ?_, fun src e hfails => hno src e ((hpulled.fails src e).mpr hfails)⟩
        unfold taken at htaken ⊢
        rw [List.filter_cons]
        by_cases hsrc : src = head.src
        · subst hsrc
          rw [if_pos (decide_eq_true rfl), List.map_cons, htaken, hpulled.taken]
        · rw [if_neg (by simpa using Ne.symm hsrc), htaken, hpulled.kept src hsrc]
      · obtain ⟨src, hfails⟩ := herror e he
        exact ⟨src, (hpulled.fails src e).mp hfails⟩
      · rcases List.mem_cons.mp hx with rfl | hx
        · refine ⟨hpulled.bound, ?_⟩
          rw [hpulled.taken]
          exact List.mem_cons_self
        · obtain ⟨hbound, hmem⟩ := hfrom x hx
          exact ⟨hpulled.lanes ▸ hbound, hleft x.2 x.1 hmem⟩
      · refine List.pairwise_cons.mpr ⟨fun x hx => ?_, hasc fun src => ?_⟩
        · exact hpulled.le h hsorted (hfrom x hx).2
        · by_cases hsrc : src = head.src
          · subst hsrc
            have hhead := hsorted head.src
            rw [hpulled.taken] at hhead
            exact (List.pairwise_cons.mp hhead).2
          · rw [hpulled.kept src hsrc]
            exact hsorted src

/-! ## A whole merge -/

theorem left_new (sources : List (BatchSource ε)) (src : Nat) :
    (new sources).left src = ((sources[src]?).map handed).getD [] := by
  unfold left new headsOf
  rw [List.getElem?_map, Option.map_map]
  rfl

theorem fails_new {sources : List (BatchSource ε)} {src : Nat} {e : ε} :
    (new sources).Fails src e ↔ ∃ source, sources[src]? = some source ∧ .error e ∈ source := by
  unfold Fails new
  simp only [List.getElem?_map, Option.map_eq_some_iff]
  constructor
  · rintro ⟨lane, ⟨source, hsource, rfl⟩, hmem⟩
    exact ⟨source, hsource, hmem⟩
  · rintro ⟨source, hsource, hmem⟩
    exact ⟨_, ⟨source, hsource, rfl⟩, hmem⟩

/-- A new merge has all sources to do. -/
theorem filled_new (sources : List (BatchSource ε)) :
    ({ new sources with primed := true } : KWayMerge ε).Filled
      (List.range (new sources).lanes.length) := by
  refine ⟨fun src hsrc => List.mem_range.mp hsrc, List.nodup_range, fun {src lane} hlane _ htodo => ?_⟩
  exact absurd (List.mem_range.mpr (List.getElem?_eq_some_iff.mp hlane).1) htodo

/-- Enough pulls of a new merge come to an end, as those of a filled one do. -/
theorem pulls_new (sources : List (BatchSource ε)) {n : Nat} (hn : (new sources).size < n) :
    ∃ out result, pulls n (new sources) = (out, some result) ∧
      (result = .ok () → (∀ src, taken out src = (new sources).left src) ∧
        ∀ src e, ¬ (new sources).Fails src e) ∧
      (∀ e, result = .error e → ∃ src, (new sources).Fails src e) ∧
      (∀ x ∈ out, x.2 < sources.length ∧ x.1 ∈ (new sources).left x.2) ∧
      ((new sources).SourcesAscend → Sorting.Ascending tagKey out) := by
  obtain ⟨n, rfl⟩ := Nat.exists_eq_add_one_of_ne_zero (Nat.ne_zero_of_lt hn)
  have hprime : (new sources).prime =
      ({ new sources with primed := true } : KWayMerge ε).refillAll
        (List.range (new sources).lanes.length) := by
    rw [prime, if_neg (by exact Bool.false_ne_true)]
  rcases refillAll_spec (filled_new sources) with ⟨src, e, m', hall, hfails⟩ |
    ⟨m', hall, hfilled, hsame⟩
  · refine ⟨[], .error e, ?_, fun h => (by cases h), fun e' he' => ?_,
      fun x hx => absurd hx List.not_mem_nil, fun _ => .nil⟩
    · rw [pulls, nextIndexed, hprime, hall]
    · cases he'
      exact ⟨src, hfails⟩
  · have hprimed : m'.primed = true := hsame.primed
    have hsize : m'.size = (new sources).size := by
      unfold size
      rw [hsame.lanes]
      exact Finset.sum_congr rfl fun src _ => congrArg List.length (hsame.left src)
    obtain ⟨out, result, hpulls, hok, herror, hfrom, hasc⟩ :=
      pulls_filled hprimed hfilled (hsize ▸ hn)
    have hnext : m'.nextIndexed = (new sources).nextIndexed := by
      rw [nextIndexed, nextIndexed, hprime, hall, prime, if_pos hprimed]
    have hpulls' : pulls (n + 1) (new sources) = (out, some result) := by
      rw [← hpulls, pulls, pulls, hnext]
    refine ⟨out, result, hpulls', fun hresult => ?_, fun e he => ?_, fun x hx => ?_, fun hsorted => ?_⟩
    · obtain ⟨htaken, hno⟩ := hok hresult
      exact ⟨fun src => (htaken src).trans (hsame.left src),
        fun src e hfails => hno src e ((hsame.fails src e).mpr hfails)⟩
    · obtain ⟨src, hfails⟩ := herror e he
      exact ⟨src, (hsame.fails src e).mp hfails⟩
    · obtain ⟨hbound, hmem⟩ := hfrom x hx
      rw [hsame.lanes] at hbound
      rw [hsame.left] at hmem
      exact ⟨by simpa only [new, List.length_map] using hbound, hmem⟩
    · exact hasc fun src => (hsame.left src) ▸ hsorted src

/-- A call that fails is a call of some source. -/
theorem exists_of_fails_new {sources : List (BatchSource ε)} {src : Nat} {e : ε}
    (h : (new sources).Fails src e) : ∃ source ∈ sources, .error e ∈ source := by
  obtain ⟨source, hsource, hmem⟩ := fails_new.mp h
  exact ⟨source, List.mem_of_getElem? hsource, hmem⟩

theorem sourcesAscend_new {sources : List (BatchSource ε)}
    (hasc : ∀ source ∈ sources, Sorting.Ascending LogRecord.key (handed source)) :
    (new sources).SourcesAscend := by
  intro src
  rw [left_new]
  cases hsource : sources[src]? with
  | none => exact .nil
  | some source => exact hasc source (List.mem_of_getElem? hsource)

/-- Sources that ascend and do not fail are merged to their end: each record once, with its
source, those of a source in its order, all ascending. -/
theorem pulls_merged {sources : List (BatchSource ε)}
    (hasc : ∀ source ∈ sources, Sorting.Ascending LogRecord.key (handed source))
    (hno : ∀ source ∈ sources, ∀ e, .error e ∉ source) :
    ∃ n out, pulls n (new sources) = (out, some (.ok ())) ∧
      (∀ src source, sources[src]? = some source → taken out src = handed source) ∧
      (∀ x ∈ out, x.2 < sources.length) ∧
      Sorting.Ascending tagKey out := by
  obtain ⟨out, result, hpulls, hok, herror, hfrom, hsorted⟩ :=
    pulls_new sources (Nat.lt_succ_self _)
  have hresult : result = .ok () := by
    cases result with
    | ok u => rfl
    | error e =>
      obtain ⟨src, hfails⟩ := herror e rfl
      obtain ⟨source, hsource, hmem⟩ := exists_of_fails_new hfails
      exact absurd hmem (hno source hsource e)
  subst hresult
  refine ⟨_, out, hpulls, fun src source hsource => ?_, fun x hx => (hfrom x hx).1,
    hsorted (sourcesAscend_new hasc)⟩
  rw [(hok rfl).1 src, left_new, hsource]
  rfl

/-- Where a call of a source fails, the pulls end with such a failure. -/
theorem pulls_failed {sources : List (BatchSource ε)}
    (h : ∃ source ∈ sources, ∃ e, .error e ∈ source) :
    ∃ n out e, pulls n (new sources) = (out, some (.error e)) ∧
      ∃ source ∈ sources, .error e ∈ source := by
  obtain ⟨out, result, hpulls, hok, herror, -, -⟩ := pulls_new sources (Nat.lt_succ_self _)
  obtain ⟨source, hsource, e, hmem⟩ := h
  cases result with
  | ok u =>
    obtain ⟨src, hsrc⟩ := List.mem_iff_getElem?.mp hsource
    exact absurd (fails_new.mpr ⟨source, hsrc, hmem⟩) ((hok rfl).2 src e)
  | error e' =>
    obtain ⟨src, hfails⟩ := herror e' rfl
    exact ⟨_, out, e', hpulls, exists_of_fails_new hfails⟩

/-- Sources that ascend are merged: where no call of a source fails, the pulls come to an
end and give each record once, with its source, those of a source in its order, all
ascending by timestamp, stream and source. Where a call would fail they end with such a
failure. -/
theorem merge_stable (sources : List (BatchSource ε))
    (hasc : ∀ source ∈ sources, Sorting.Ascending LogRecord.key (handed source)) :
    ((∀ source ∈ sources, ∀ e, .error e ∉ source) →
      ∃ n out, pulls n (new sources) = (out, some (.ok ())) ∧
        (∀ src source, sources[src]? = some source → taken out src = handed source) ∧
        (∀ x ∈ out, x.2 < sources.length) ∧
        Sorting.Ascending tagKey out) ∧
      ((∃ source ∈ sources, ∃ e, .error e ∈ source) →
        ∃ n out e, pulls n (new sources) = (out, some (.error e)) ∧
          ∃ source ∈ sources, .error e ∈ source) :=
  ⟨fun hno => pulls_merged hasc hno, fun hfails => pulls_failed hfails⟩

/-- Two sources that tie, the first with an empty batch before the tie. -/
theorem merge_stable_tie : ∃ n out,
    pulls n (new (ε := Empty) [[.ok [⟨1, "s", "a", none, none⟩], .ok [], .ok [⟨2, "s", "b", none, none⟩]],
      [.ok [⟨2, "s", "c", none, none⟩]]]) = (out, some (.ok ())) ∧ Sorting.Ascending tagKey out := by
  obtain ⟨n, out, hpulls, -, -, hsorted⟩ := (merge_stable (ε := Empty)
    [[.ok [⟨1, "s", "a", none, none⟩], .ok [], .ok [⟨2, "s", "b", none, none⟩]],
      [.ok [⟨2, "s", "c", none, none⟩]]]
    (by unfold Sorting.Ascending handed; decide +kernel)).1 fun _ _ e => e.elim
  exact ⟨n, out, hpulls, hsorted⟩

end KWayMerge

end S4Logs

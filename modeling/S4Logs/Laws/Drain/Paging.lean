import S4Logs.Laws.Drain.Run
import S4Logs.Laws.Drain.Shards

/-!
# What paging hands on

A cursor that is exhausted has returned every event its filter lets through that
CloudWatch held in the window when paging started. So a window whose cursors are
all exhausted has handled every such event that some cursor lets through
(`Paging.arrived_of_ended`), and no other.

One cursor without a filter lets everything through. The cursors of a sharded
run let through the events of the listed streams and nothing else
(`reads_sharded`): the shards are a partition of the listing.
-/

namespace S4Logs

variable {env : Env} {opts : DrainOptions} {shards : Option (List (List String))}
variable {w : Window} {wk : Work} {a : Archive} {events view : List CwEvent}
variable {prior : Option Manifest}

/-! ## The shards -/

/-- The cursors of a window let through the events of the listed streams, where the
run shards, and every event otherwise. -/
def Reads (shards : Option (List (List String))) (ev : CwEvent) : Prop :=
  ∃ c ∈ eventPages shards, c.accepts ev = true

theorem reads_unsharded (ev : CwEvent) : Reads none ev :=
  ⟨_, List.mem_singleton_self _, rfl⟩

theorem reads_sharded {shards : List (List String)} (h : 2 ≤ shards.length) (ev : CwEvent) :
    Reads (some shards) ev ↔ ∃ shard ∈ shards, ev.logStreamName ∈ shard := by
  match shards, h with
  | first :: second :: rest, _ =>
    simp only [Reads, eventPages, List.mem_map, exists_exists_and_eq_and, Cursor.accepts,
      Cursor.start, List.contains_iff_mem]

/-- What the listing says of a run: it reads every event of a listed stream, and where
it shards no other. -/
theorem reads_listed {pre : Preamble} {names : List String}
    (hshards : computeShards opts pre = .ok shards) (hnames : pre.streams = some names) {ev : CwEvent} :
    (ev.logStreamName ∈ names → Reads shards ev) ∧
      (2 ≤ opts.shardStreams → 2 ≤ names.length → Reads shards ev → ev.logStreamName ∈ names) := by
  unfold computeShards at hshards
  split at hshards
  next hone =>
    cases hshards
    exact ⟨fun _ => reads_unsharded ev, fun h => absurd h (by omega)⟩
  next hone =>
    rw [hnames] at hshards
    dsimp only at hshards
    obtain ⟨hlen, hmem⟩ := partitionStreams_spec names opts.shardStreams maxStreamsPerFilter
    split at hshards
    next hfew =>
      cases hshards
      exact ⟨fun _ => reads_unsharded ev, fun h h' => absurd (hlen h' h) (by omega)⟩
    next hmany =>
      cases hshards
      rw [reads_sharded (Nat.le_of_not_lt hmany), hmem]
      exact ⟨id, fun _ _ => id⟩

/-! ## What CloudWatch answers -/

/-- A page of `FilterLogEvents`: events of the range that pass the filter, and after
the last page nothing that was there when paging started is left out. -/
structure PageLaw (events : List CwEvent) (w : Window) (visible : List CwEvent) (c : Cursor)
    (page : CwEventPage) : Prop where
  sound : ∀ ev ∈ page.events, ev ∈ events ∧ w.contains ev = true ∧ c.accepts ev = true
  complete : page.nextToken = none →
    ∀ ev ∈ visible, c.accepts ev = true → ev ∈ c.returned ++ page.events

instance PageLaw.decidable (events : List CwEvent) (w : Window) (visible : List CwEvent)
    (c : Cursor) (page : CwEventPage) : Decidable (PageLaw events w visible c page) :=
  decidable_of_iff ((∀ ev ∈ page.events, ev ∈ events ∧ w.contains ev = true ∧
      c.accepts ev = true) ∧ (page.nextToken = none →
        ∀ ev ∈ visible, c.accepts ev = true → ev ∈ c.returned ++ page.events))
    ⟨fun h => ⟨h.1, h.2⟩, fun h => ⟨h.sound, h.complete⟩⟩

/-- Every page a window gets obeys the law. -/
def PageAnswers (events : List CwEvent) (w : Window) : Phase → TaskLabel → Prop
  | .work wk _, .page i (some page) =>
    ∀ c ∈ wk.cursors[i]?, PageLaw events w wk.visible c page
  | _, _ => True

instance PageAnswers.decidable (events : List CwEvent) (w : Window) :
    ∀ p l, Decidable (PageAnswers events w p l)
  | .work wk _, .page i (some page) =>
    inferInstanceAs (Decidable (∀ c ∈ wk.cursors[i]?, PageLaw events w wk.visible c page))
  | .work _ _, .page _ none => .isTrue trivial
  | .work _ _, .get _ => .isTrue trivial
  | .work _ _, .readObject _ => .isTrue trivial
  | .work _ _, .event => .isTrue trivial
  | .work _ _, .endPages => .isTrue trivial
  | .work _ _, .put _ => .isTrue trivial
  | .work _ _, .putManifest _ _ => .isTrue trivial
  | .look, _ => .isTrue trivial
  | .lookup, _ => .isTrue trivial
  | .read _ _ _, _ => .isTrue trivial
  | .done _, _ => .isTrue trivial
  | .failed _, _ => .isTrue trivial

/-! ## What a window has handled -/

/-- What the pages held so far is handled or waits in the inbox, and all of it was let
through. -/
structure Paging (shards : Option (List (List String))) (w : Window) (view : List CwEvent)
    (wk : Work) : Prop where
  view : wk.visible = view
  filters : wk.cursors.map Cursor.streams = (eventPages shards).map Cursor.streams
  complete : ∀ c ∈ wk.cursors, c.exhausted = true → ∀ ev ∈ wk.visible, c.accepts ev = true →
    ev ∈ c.returned
  handled : ∀ c ∈ wk.cursors, ∀ ev ∈ c.returned, w.contains ev = true →
    ev ∈ wk.arrived ∨ ev ∈ wk.inbox
  visible : ∀ ev ∈ wk.visible, w.contains ev = true
  inbox : ∀ ev ∈ wk.inbox, Reads shards ev
  arrived : ∀ ev ∈ wk.arrived, w.contains ev = true ∧ Reads shards ev
  pushed : wk.prior = none → wk.pushed = wk.arrived

/-- Nothing is left to page. -/
def Ended (wk : Work) : Prop := wk.inbox = [] ∧ wk.cursors.all Cursor.exhausted = true

theorem accepts_congr {c c' : Cursor} (h : c.streams = c'.streams) (ev : CwEvent) :
    c.accepts ev = c'.accepts ev := by
  simp only [Cursor.accepts, h]

/-- Cursors with the same filters let the same events through. -/
theorem accepted_congr {cs cs' : List Cursor}
    (h : cs.map Cursor.streams = cs'.map Cursor.streams) {ev : CwEvent} :
    (∃ c ∈ cs, c.accepts ev = true) → ∃ c ∈ cs', c.accepts ev = true := by
  rintro ⟨c, hc, hev⟩
  have hmem : c.streams ∈ cs'.map Cursor.streams := h ▸ List.mem_map_of_mem hc
  obtain ⟨c', hc', heq⟩ := List.mem_map.mp hmem
  exact ⟨c', hc', by rw [accepts_congr heq, hev]⟩

/-- A cursor starts with everything to come. -/
theorem eventPages_fresh :
    ∀ c ∈ eventPages shards, c.exhausted = false ∧ c.returned = [] := by
  intro c hc
  match shards, hc with
  | none, hc =>
    cases List.mem_singleton.mp hc
    exact ⟨rfl, rfl⟩
  | some [], hc =>
    cases List.mem_singleton.mp hc
    exact ⟨rfl, rfl⟩
  | some [single], hc =>
    cases List.mem_singleton.mp hc
    exact ⟨rfl, rfl⟩
  | some (first :: second :: rest), hc =>
    obtain ⟨names, -, rfl⟩ := List.mem_map.mp hc
    exact ⟨rfl, rfl⟩

namespace Paging

theorem start {naming : ObjectNaming} {seen : List Nat} :
    Paging shards w (events.filter w.contains)
      (Work.start opts shards w prior naming seen events) where
  view := rfl
  filters := rfl
  complete c hc hex := by
    rw [(eventPages_fresh c hc).1] at hex
    cases hex
  handled c hc ev hev := by
    rw [(eventPages_fresh c hc).2] at hev
    exact absurd hev List.not_mem_nil
  visible ev hev := (List.mem_filter.mp hev).2
  inbox ev hev := absurd hev List.not_mem_nil
  arrived ev hev := absurd hev List.not_mem_nil
  pushed _ := rfl

/-- Only the paging part of a window matters. -/
theorem congr {wk' : Work} (h : Paging shards w view wk) (hprior : wk'.prior = wk.prior)
    (hcursors : wk'.cursors = wk.cursors) (hinbox : wk'.inbox = wk.inbox)
    (harrived : wk'.arrived = wk.arrived) (hpushed : wk'.pushed = wk.pushed)
    (hvisible : wk'.visible = wk.visible) : Paging shards w view wk' := by
  obtain ⟨h₀, h₁, h₂, h₃, h₄, h₅, h₆, h₇⟩ := h
  exact ⟨hvisible.trans h₀, hcursors ▸ h₁, hcursors ▸ hvisible ▸ h₂, hcursors ▸ harrived ▸ hinbox ▸ h₃,
    hvisible ▸ h₄, hinbox ▸ h₅, harrived ▸ h₆, hprior ▸ hpushed ▸ harrived ▸ h₇⟩

theorem page {i : Nat} {c : Cursor} {page : CwEventPage} (h : Paging shards w view wk)
    (hinbox : wk.inbox = []) (hc : wk.cursors[i]? = some c)
    (law : PageLaw events w wk.visible c page) :
    Paging shards w view
      { wk with cursors := wk.cursors.set i (c.advance page), inbox := page.events } := by
  have hmem := List.mem_of_getElem? hc
  refine ⟨h.view, ?_, fun c' hc' hex ev hev hacc => ?_, fun c' hc' ev hev hin => ?_, h.visible,
    fun ev hev => ?_, h.arrived, h.pushed⟩
  · rw [← h.filters, List.map_set]
    refine List.ext_getElem? fun j => ?_
    by_cases hij : i = j
    · subst hij
      obtain ⟨hi, hget⟩ := List.getElem?_eq_some_iff.mp hc
      rw [List.getElem?_set_self (by rwa [List.length_map]), List.getElem?_map, hc]
      rfl
    · rw [List.getElem?_set_ne hij]
  · rcases List.mem_or_eq_of_mem_set hc' with hc' | rfl
    · exact h.complete c' hc' hex ev hev hacc
    · have htoken : page.nextToken = none := by
        simpa only [Cursor.exhausted, Cursor.advance, Option.isNone_iff_eq_none,
          Option.map_eq_none_iff] using hex
      exact law.complete htoken ev hev hacc
  · rcases List.mem_or_eq_of_mem_set hc' with hc' | rfl
    · refine (h.handled c' hc' ev hev hin).imp_right fun hev => ?_
      rw [hinbox] at hev
      exact absurd hev List.not_mem_nil
    · rcases List.mem_append.mp hev with hev | hev
      · refine (h.handled c hmem ev hev hin).imp_right fun hev => ?_
        rw [hinbox] at hev
        exact absurd hev List.not_mem_nil
      · exact .inr hev
  · exact accepted_congr h.filters ⟨c, hmem, (law.sound ev hev).2.2⟩

/-- Where nothing is left to page, every visible event that is let through has arrived. -/
theorem arrived_of_ended (h : Paging shards w view wk) (hend : Ended wk) :
    ∀ ev ∈ wk.visible, Reads shards ev → ev ∈ wk.arrived := by
  intro ev hev hreads
  obtain ⟨c, hc, hacc⟩ := accepted_congr h.filters.symm hreads
  have hreturned := h.complete c hc (List.all_eq_true.mp hend.2 c hc) ev hev hacc
  refine (h.handled c hc ev hreturned (h.visible ev hev)).resolve_right fun hin => ?_
  rw [hend.1] at hin
  exact absurd hin List.not_mem_nil

end Paging

/-- The await comes after the last page. -/
def Await.final : Await → Bool
  | .pages => false
  | .put _ _ last => last
  | .manifest => true

/-- A window that pages has its paging in order, and has ended it where it says so. -/
def Paged (shards : Option (List (List String))) (w : Window) (view : List CwEvent) :
    Phase → Prop
  | .work wk at_ => Paging shards w view wk ∧ (at_.final = true → Ended wk)
  | _ => True

theorem resume_paged {last : Bool} (h : Paging shards w view wk) (hend : last = true → Ended wk) :
    Paged shards w view (wk.resume opts last) := by
  exact resume_rule (fun _ => ⟨h, fun hfinal => nomatch hfinal⟩)
    (fun hlast _ => ⟨h, fun _ => hend hlast⟩) fun _ _ => trivial

theorem flush_paged {writer : ChunkWriter} {last : Bool} (h : Paging shards w view wk)
    (hend : last = true → Ended wk) : Paged shards w view (wk.flush env opts writer last) := by
  unfold Work.flush
  split
  next => trivial
  next => exact resume_paged (h.congr rfl rfl rfl rfl rfl rfl) hend
  next => exact ⟨h.congr rfl rfl rfl rfl rfl rfl, hend⟩

/-- A push keeps the paging of a window that counts its event as arrived already. -/
theorem push_paged {ev : CwEvent}
    (h : Paging shards w view { wk with pushed := wk.pushed ++ [ev] }) :
    Paged shards w view (wk.push env opts ev) := by
  refine push_rule (fun _ => trivial) (fun _ _ _ => ?_) fun _ _ _ => ?_
  · exact flush_paged (h.congr rfl rfl rfl rfl rfl rfl) fun h => nomatch h
  · exact ⟨h.congr rfl rfl rfl rfl rfl rfl, fun h => nomatch h⟩

theorem event_paged {ev : CwEvent} {rest : List CwEvent} (hinbox : wk.inbox = ev :: rest)
    (h : Paging shards w view wk) : Paged shards w view (wk.event env opts w ev rest) := by
  have hrest : ∀ ev ∈ rest, Reads shards ev := fun ev' hev =>
    h.inbox ev' (hinbox ▸ List.mem_cons_of_mem _ hev)
  have harrived : w.contains ev = true → ∀ pushed,
      (wk.prior = none → pushed = wk.arrived ++ [ev]) → Paging shards w view
        { wk with inbox := rest, arrived := wk.arrived ++ [ev], pushed := pushed } := by
    intro hin pushed hpushed
    refine ⟨h.view, h.filters, h.complete, fun c hc ev' hev hin' => ?_, h.visible, hrest,
      fun ev' hev => ?_, hpushed⟩
    · rcases h.handled c hc ev' hev hin' with hmem | hmem
      · exact .inl (List.mem_append_left _ hmem)
      · rw [hinbox] at hmem
        rcases List.mem_cons.mp hmem with rfl | hmem
        · exact .inl (List.mem_append_right _ (List.mem_singleton_self _))
        · exact .inr hmem
    · rcases List.mem_append.mp hev with hev | hev
      · exact h.arrived ev' hev
      · cases List.mem_singleton.mp hev
        exact ⟨hin, h.inbox ev (hinbox ▸ List.mem_cons_self)⟩
  refine event_rule (fun hout => ?_) (fun hin hnone => ?_) (fun hin hsome _ => ?_)
    fun hin hsome _ => ?_
  · have hdropped : Paging shards w view { wk with inbox := rest } :=
      ⟨h.view, h.filters, h.complete, fun c hc ev' hev hin => (h.handled c hc ev' hev hin).imp_right
        fun hmem => ?_, h.visible, hrest, h.arrived, h.pushed⟩
    · exact ⟨hdropped.congr rfl rfl rfl rfl rfl rfl, fun h => nomatch h⟩
    · rw [hinbox] at hmem
      rcases List.mem_cons.mp hmem with rfl | hmem
      · rw [hout] at hin
        cases hin
      · exact hmem
  · refine push_paged ((harrived hin (wk.pushed ++ [ev]) fun hp => ?_).congr rfl rfl rfl rfl rfl rfl)
    rw [h.pushed hp]
  · exact ⟨(harrived hin wk.pushed fun hp => absurd hp hsome).congr rfl rfl rfl rfl rfl rfl,
      fun h => nomatch h⟩
  · exact push_paged ((harrived hin (wk.pushed ++ [ev]) fun hp => absurd hp hsome).congr
      rfl rfl rfl rfl rfl rfl)

/-- A step keeps the paging in order where the pages obey the law. -/
theorem TaskMove.paged {at_ : Await} {p' : Phase} {l : TaskLabel} {writes : List StoreWrite}
    (move : TaskMove env opts shards w a events (.work wk at_) l p' writes)
    (answers : PageAnswers events w (.work wk at_) l) (h : Paged shards w view (.work wk at_)) :
    Paged shards w view p' := by
  cases move with
  | fail => trivial
  | page hinbox hc hopen => exact ⟨h.1.page hinbox hc (answers _ hc), fun h => nomatch h⟩
  | event hinbox => exact event_paged hinbox h.1
  | endPages hinbox hall =>
    exact flush_paged (h.1.congr rfl rfl rfl rfl rfl rfl) fun _ => ⟨hinbox, hall⟩
  | putNext => exact ⟨h.1, h.2⟩
  | putDone => exact resume_paged (h.1.congr rfl rfl rfl rfl rfl rfl) h.2
  | putManifest => trivial

end S4Logs

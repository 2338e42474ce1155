import S4Logs.Laws.Core.Frames
import S4Logs.Core.Concrete
import S4Logs.Lib.Runs
import Mathlib.Algebra.Order.BigOperators.Group.List

/-!
# Ranges made of frames

The ranges to fetch are the runs of the chosen frames, cut where the gap in the body is wider
than allowed. The gap is counted in octets of the body, while a decoder is told the sizes of
the chosen frames alone. A range that a skipped frame lies in therefore decodes to more than
its size says, and is refused.
-/

namespace S4Logs

variable {lib : CodecLib}

/-! ## Runs of spans -/

/-- The gap from one span to the next is small enough. -/
def joins (maxGapBytes : Nat) (a b : FrameSpan) : Bool :=
  decide (b.byteStart - a.byteEndExclusive ≤ maxGapBytes)

/-- The range of a run of spans. -/
def rangeOf (run : List FrameSpan) : Nat × Nat × Nat :=
  ((run.head?.map FrameSpan.byteStart).getD 0,
    (run.getLast?.map FrameSpan.byteEndExclusive).getD 0,
    (run.map FrameSpan.originalSize).sum)

theorem rangeOf_start {run : List FrameSpan} (hne : run ≠ []) :
    (rangeOf run).1 = (run.head hne).byteStart := by
  rw [rangeOf, List.head?_eq_some_head hne, Option.map_some, Option.getD_some]

theorem rangeOf_stop {run : List FrameSpan} (hne : run ≠ []) :
    (rangeOf run).2.1 = (run.getLast hne).byteEndExclusive := by
  rw [rangeOf, List.getLast?_eq_some_getLast hne, Option.map_some, Option.getD_some]

/-- A run that goes on: the range keeps its start. -/
theorem rangeOf_concat {run : List FrameSpan} (hne : run ≠ []) (s : FrameSpan) :
    rangeOf (run ++ [s]) =
      ((rangeOf run).1, s.byteEndExclusive, (rangeOf run).2.2 + s.originalSize) := by
  have hhead : (run ++ [s]).head? = run.head? := List.head?_append_of_ne_nil _ hne
  rw [rangeOf, hhead, List.getLast?_concat, List.map_append, List.sum_append]
  rfl

/-- The ranges are those of the runs. -/
theorem coalesceSpans_runs (maxGapBytes : Nat) (spans : List FrameSpan) :
    ∃ runs, Runs.Cut (joins maxGapBytes) runs spans ∧
      coalesceSpans spans maxGapBytes = runs.map rangeOf := by
  induction spans using List.reverseRecOn with
  | nil => exact ⟨[], Runs.cut_splitBy _ [], rfl⟩
  | append_singleton spans s ih =>
    obtain ⟨runs, hcut, hout⟩ := ih
    rw [coalesceSpans, List.foldl_append, ← coalesceSpans, hout, List.foldl_cons, List.foldl_nil]
    rcases List.eq_nil_or_concat' runs with rfl | ⟨runs, last, rfl⟩
    · obtain rfl : spans = [] := hcut.flat.symm
      exact ⟨[[s]], Runs.cut_splitBy (joins maxGapBytes) [s], rfl⟩
    · have hne : last ≠ [] := by
        rintro rfl
        exact hcut.filled (List.mem_append_right _ List.mem_cons_self)
      obtain ⟨hjoin, hbegin⟩ := hcut.concat (a := s) hne
      rw [coalesceStep, List.map_append, List.map_singleton, List.getLast?_concat]
      dsimp only
      rw [rangeOf_stop hne]
      by_cases hgap : s.byteStart - (last.getLast hne).byteEndExclusive ≤ maxGapBytes
      · refine ⟨runs ++ [last ++ [s]], hjoin (decide_eq_true hgap), ?_⟩
        rw [if_pos hgap, List.dropLast_concat, List.map_append, List.map_singleton,
          rangeOf_concat hne]
      · refine ⟨runs ++ [last] ++ [[s]], hbegin (decide_eq_false hgap), ?_⟩
        rw [if_neg hgap, List.map_append, List.map_append, List.map_singleton,
          List.map_singleton]
        rfl

theorem coalesceSpans_eq (maxGapBytes : Nat) (spans : List FrameSpan) :
    coalesceSpans spans maxGapBytes = (spans.splitBy (joins maxGapBytes)).map rangeOf := by
  obtain ⟨runs, hcut, hout⟩ := coalesceSpans_runs maxGapBytes spans
  rw [hout, hcut.eq_splitBy]

/-! ## Spans in order -/

/-- The octets of a span lie in a range. -/
def FrameSpan.Within (s : FrameSpan) (t : Nat × Nat × Nat) : Prop :=
  t.1 ≤ s.byteStart ∧ s.byteEndExclusive ≤ t.2.1

instance (s : FrameSpan) (t : Nat × Nat × Nat) : Decidable (s.Within t) :=
  inferInstanceAs (Decidable (_ ∧ _))

/-- Spans of some octets each, one after the other. -/
structure SpansInOrder (spans : List FrameSpan) : Prop where
  nonempty : ∀ s ∈ spans, s.byteStart < s.byteEndExclusive
  apart : spans.Pairwise fun a b => a.byteEndExclusive ≤ b.byteStart

theorem SpansInOrder.nodup {spans : List FrameSpan} (h : SpansInOrder spans) : spans.Nodup := by
  refine List.Pairwise.imp_of_mem ?_ h.apart
  rintro a b ha - hab rfl
  exact absurd (h.nonempty a ha) (Nat.not_lt.mpr hab)

theorem SpansInOrder.part {spans part : List FrameSpan} (h : SpansInOrder spans) (hpart : part <:+: spans) :
    SpansInOrder part where
  nonempty s hs := h.nonempty s (hpart.subset hs)
  apart := h.apart.sublist hpart.sublist

/-- A run lies in its range. -/
theorem SpansInOrder.within {run : List FrameSpan} (h : SpansInOrder run) {s : FrameSpan} (hs : s ∈ run) :
    s.Within (rangeOf run) := by
  have hne : run ≠ [] := List.ne_nil_of_mem hs
  obtain ⟨p, q, rfl⟩ := List.append_of_mem hs
  obtain ⟨-, hq, hp⟩ := List.pairwise_append.mp h.apart
  obtain ⟨hsq, -⟩ := List.pairwise_cons.mp hq
  constructor
  · rw [rangeOf_start hne]
    cases p with
    | nil => exact Nat.le_refl _
    | cons a p =>
      have ha := h.nonempty a List.mem_cons_self
      exact (Nat.le_of_lt ha).trans (hp a List.mem_cons_self s List.mem_cons_self)
  · rw [rangeOf_stop hne, List.getLast_append_of_right_ne_nil _ _ (List.cons_ne_nil _ _)]
    by_cases hq : q = []
    · subst hq
      exact Nat.le_refl _
    · have hlast := List.getLast_mem hq
      have hb := h.nonempty _ (List.mem_append_right _ (List.mem_cons_of_mem _ hlast))
      rw [List.getLast_cons hq]
      exact (hsq _ hlast).trans (Nat.le_of_lt hb)

/-- What is apart from a run is not in its range. -/
theorem SpansInOrder.not_within {before run after : List FrameSpan} (hne : run ≠ [])
    (h : SpansInOrder (before ++ run ++ after)) {s : FrameSpan} (hs : s ∈ before ∨ s ∈ after) :
    ¬ s.Within (rangeOf run) := by
  obtain ⟨hfront, -, hback⟩ := List.pairwise_append.mp h.apart
  obtain ⟨-, -, hfront⟩ := List.pairwise_append.mp hfront
  rintro ⟨hstart, hstop⟩
  rw [rangeOf_start hne] at hstart
  rw [rangeOf_stop hne] at hstop
  rcases hs with hs | hs
  · have hlt := h.nonempty s (List.mem_append_left _ (List.mem_append_left _ hs))
    have hle := hfront s hs _ (List.head_mem hne)
    omega
  · have hlt := h.nonempty s (List.mem_append_right _ hs)
    have hle := hback _ (List.mem_append_right _ (List.getLast_mem hne)) s hs
    omega

/-- The spans in the range of a run are the run. -/
theorem SpansInOrder.members {before run after : List FrameSpan} (hne : run ≠ [])
    (h : SpansInOrder (before ++ run ++ after)) :
    (before ++ run ++ after).filter (fun s => s.Within (rangeOf run)) = run := by
  have hrun : SpansInOrder run := h.part ⟨before, after, rfl⟩
  have hbefore : before.filter (fun s => s.Within (rangeOf run)) = [] :=
    List.filter_eq_nil_iff.mpr fun s hs hin => h.not_within hne (.inl hs) (of_decide_eq_true hin)
  have hafter : after.filter (fun s => s.Within (rangeOf run)) = [] :=
    List.filter_eq_nil_iff.mpr fun s hs hin => h.not_within hne (.inr hs) (of_decide_eq_true hin)
  have hall : run.filter (fun s => s.Within (rangeOf run)) = run :=
    List.filter_eq_self.mpr fun s hs => decide_eq_true (hrun.within hs)
  rw [List.filter_append, List.filter_append, hbefore, hafter, hall, List.nil_append,
    List.append_nil]

/-- Ranges of these spans: in order and apart, each span in one of them, and two spans in the
same one exactly where no gap from one to the other is too wide. -/
structure Coalesced (maxGapBytes : Nat) (spans : List FrameSpan) (out : List (Nat × Nat × Nat)) :
    Prop where
  nonempty : ∀ t ∈ out, t.1 < t.2.1
  apart : out.Pairwise fun t u => t.2.1 ≤ u.1
  covers : ∀ s ∈ spans, ∃! t, t ∈ out ∧ s.Within t
  shared : ∀ {before mid after : List FrameSpan} {a b : FrameSpan},
    spans = before ++ a :: (mid ++ b :: after) →
      ((∃ t ∈ out, a.Within t ∧ b.Within t) ↔
        (a :: (mid ++ [b])).IsChain fun x y => y.byteStart - x.byteEndExclusive ≤ maxGapBytes)

/-- A range of the result is that of a run, which is a part of the spans. -/
theorem coalesceSpans_part {maxGapBytes : Nat} {spans : List FrameSpan} {t : Nat × Nat × Nat}
    (ht : t ∈ coalesceSpans spans maxGapBytes) :
    ∃ before run after, spans = before ++ run ++ after ∧ run ≠ [] ∧ t = rangeOf run ∧
      run ∈ spans.splitBy (joins maxGapBytes) := by
  rw [coalesceSpans_eq] at ht
  obtain ⟨run, hrun, rfl⟩ := List.mem_map.mp ht
  obtain ⟨before, after, hpart⟩ := Runs.run_infix hrun
  refine ⟨before, run, after, hpart.symm, ?_, rfl, hrun⟩
  rintro rfl
  exact List.nil_notMem_splitBy _ _ hrun

/-- A span is in the range of a run exactly where it is of the run. -/
theorem SpansInOrder.within_iff {maxGapBytes : Nat} {spans run : List FrameSpan} {s : FrameSpan}
    (h : SpansInOrder spans) (hs : s ∈ spans) (hrun : run ∈ spans.splitBy (joins maxGapBytes)) :
    s.Within (rangeOf run) ↔ s ∈ run := by
  obtain ⟨before, after, rfl⟩ := Runs.run_infix hrun
  have hne : run ≠ [] := by
    rintro rfl
    exact List.nil_notMem_splitBy _ _ hrun
  constructor
  · intro hin
    rw [← h.members hne]
    exact List.mem_filter.mpr ⟨hs, decide_eq_true hin⟩
  · exact (h.part ⟨before, after, rfl⟩).within

theorem SpansInOrder.coalesced {spans : List FrameSpan} (h : SpansInOrder spans) (maxGapBytes : Nat) :
    Coalesced maxGapBytes spans (coalesceSpans spans maxGapBytes) := by
  have hnonempty : ∀ t ∈ coalesceSpans spans maxGapBytes, t.1 < t.2.1 := by
    intro t ht
    obtain ⟨before, run, after, rfl, hne, rfl, -⟩ := coalesceSpans_part ht
    have hrun : SpansInOrder run := h.part ⟨before, after, rfl⟩
    obtain ⟨s, hs⟩ := List.exists_mem_of_ne_nil run hne
    obtain ⟨hstart, hstop⟩ := hrun.within hs
    exact (hstart.trans_lt (hrun.nonempty s hs)).trans_le hstop
  have hapart : (coalesceSpans spans maxGapBytes).Pairwise fun t u => t.2.1 ≤ u.1 := by
    have hflat := h.apart
    rw [← List.flatten_splitBy (joins maxGapBytes) spans, List.pairwise_flatten] at hflat
    rw [coalesceSpans_eq, List.pairwise_map]
    refine hflat.2.imp_of_mem fun {p q} hp hq hpq => ?_
    have hp' : p ≠ [] := ne_of_mem_of_not_mem hp (List.nil_notMem_splitBy _ _)
    have hq' : q ≠ [] := ne_of_mem_of_not_mem hq (List.nil_notMem_splitBy _ _)
    rw [rangeOf_stop hp', rangeOf_start hq']
    exact hpq _ (List.getLast_mem hp') _ (List.head_mem hq')
  refine ⟨hnonempty, hapart, ?_, ?_⟩
  · intro s hs
    have hmem : s ∈ (spans.splitBy (joins maxGapBytes)).flatten := by
      rwa [List.flatten_splitBy]
    obtain ⟨run, hrun, hsrun⟩ := List.mem_flatten.mp hmem
    refine ⟨rangeOf run, ⟨?_, (h.within_iff hs hrun).mpr hsrun⟩, ?_⟩
    · rw [coalesceSpans_eq]
      exact List.mem_map_of_mem hrun
    · rintro u ⟨hu, hsu⟩
      by_contra hne
      -- two ranges with a span in both would overlap
      have hin := (h.within_iff hs hrun).mpr hsrun
      have hlt := h.nonempty s hs
      have ht : rangeOf run ∈ coalesceSpans spans maxGapBytes := by
        rw [coalesceSpans_eq]
        exact List.mem_map_of_mem hrun
      have hsymm : Std.Symm fun t u : Nat × Nat × Nat => t.2.1 ≤ u.1 ∨ u.2.1 ≤ t.1 :=
        ⟨fun _ _ hor => hor.symm⟩
      have hdisjoint : (coalesceSpans spans maxGapBytes).Pairwise
          fun t u => t.2.1 ≤ u.1 ∨ u.2.1 ≤ t.1 := hapart.imp fun hle => .inl hle
      rcases hdisjoint.forall hu ht hne with hle | hle
      · exact absurd (hsu.2.trans (hle.trans hin.1)) (Nat.not_le.mpr hlt)
      · exact absurd (hin.2.trans (hle.trans hsu.1)) (Nat.not_le.mpr hlt)
  · intro before mid after a b hl
    have ha : a ∈ spans := by
      rw [hl]
      exact List.mem_append_right _ List.mem_cons_self
    have hb : b ∈ spans := by
      rw [hl]
      exact List.mem_append_right _ (List.mem_cons_of_mem _
        (List.mem_append_right _ List.mem_cons_self))
    have hjoins : (fun x y => joins maxGapBytes x y = true) =
        fun x y : FrameSpan => y.byteStart - x.byteEndExclusive ≤ maxGapBytes := by
      funext x y
      exact decide_eq_true_eq
    rw [← hjoins, ← Runs.same_run_iff h.nodup hl, coalesceSpans_eq]
    constructor
    · rintro ⟨t, ht, hat, hbt⟩
      obtain ⟨run, hrun, rfl⟩ := List.mem_map.mp ht
      exact ⟨run, hrun, (h.within_iff ha hrun).mp hat, (h.within_iff hb hrun).mp hbt⟩
    · rintro ⟨run, hrun, harun, hbrun⟩
      exact ⟨rangeOf run, List.mem_map_of_mem hrun, (h.within_iff ha hrun).mpr harun,
        (h.within_iff hb hrun).mpr hbrun⟩

/-! ## The chosen frames of a chunk -/

/-- A range of time meets the timestamps of a frame. -/
def Frame.chosen (range : TimeRange) (f : Frame) : Bool :=
  range.overlaps (timeSpan f.records).minTs (timeSpan f.records).maxTs

/-- The span of a frame at a place in the index and an offset in the body. -/
def Frame.span (lib : CodecLib) (f : Frame) (idx comp : Nat) : FrameSpan where
  frameIdx := idx
  byteStart := comp
  byteEndExclusive := comp + f.octets.length
  originalSize := (lib.records.text f.records).length

/-- The spans of the chosen ones among frames laid from a place and an offset on. -/
def chosenSpans (lib : CodecLib) (range : TimeRange) : Nat → Nat → List Frame → List FrameSpan
  | _, _, [] => []
  | idx, comp, f :: frames =>
    if f.chosen range then
      f.span lib idx comp :: chosenSpans lib range (idx + 1) (comp + f.octets.length) frames
    else chosenSpans lib range (idx + 1) (comp + f.octets.length) frames

variable {range : TimeRange}

/-- The two sidecars of frames, entry by entry. -/
def frameIndexAt (lib : CodecLib) (orig comp : Nat) (frames : List Frame) :
    List (FrameIndexEntry × TsEntry) :=
  (frameEntries lib orig comp frames).zip (frames.map fun f => timeSpan f.records)

theorem frameIndexAt_cons (orig comp : Nat) (f : Frame) (frames : List Frame) :
    frameIndexAt lib orig comp (f :: frames) =
      ({ originalOffset := orig
         originalSize := (lib.records.text f.records).length
         compressedOffset := comp
         compressedSize := f.octets.length }, timeSpan f.records) ::
      frameIndexAt lib (orig + (lib.records.text f.records).length) (comp + f.octets.length)
        frames := rfl

theorem chosenSpans_eq (idx orig comp : Nat) (frames : List Frame) :
    (((frameIndexAt lib orig comp frames).zipIdx idx).filter fun p =>
        range.overlaps p.1.2.minTs p.1.2.maxTs).map (fun p => {
      frameIdx := p.2
      byteStart := p.1.1.compressedOffset
      byteEndExclusive := p.1.1.compressedOffset + p.1.1.compressedSize
      originalSize := p.1.1.originalSize : FrameSpan }) = chosenSpans lib range idx comp frames := by
  induction frames generalizing idx orig comp with
  | nil => rfl
  | cons f frames ih =>
    have hrest := ih (idx + 1) (orig + (lib.records.text f.records).length)
      (comp + f.octets.length)
    rw [frameIndexAt_cons, List.zipIdx_cons, chosenSpans, ← hrest]
    unfold Frame.chosen
    by_cases hmeets : range.overlaps (timeSpan f.records).minTs (timeSpan f.records).maxTs = true
    · rw [if_pos hmeets, List.filter_cons]
      dsimp only
      rw [if_pos hmeets]
      rfl
    · rw [if_neg hmeets, List.filter_cons]
      dsimp only
      rw [if_neg hmeets]

/-- The frames a range meets, of a chunk of frames. -/
theorem framesOverlapping_ofFrames (range : TimeRange) (frames : List Frame) :
    framesOverlapping (EncodedChunk.ofFrames lib frames).frameIndex
      (EncodedChunk.ofFrames lib frames).tsIndex range =
        .ok (chosenSpans lib range 0 0 frames) := by
  have hlength : (EncodedChunk.ofFrames lib frames).frameIndex.entries.length =
      (EncodedChunk.ofFrames lib frames).tsIndex.entries.length := by
    show (frameEntries lib 0 0 frames).length = (frames.map _).length
    rw [frameEntries_length, List.length_map]
  rw [framesOverlapping, if_neg (not_not_intro hlength)]
  exact congrArg Except.ok (chosenSpans_eq 0 0 0 frames)

/-- Where the frames after `f :: fs` begin, counted past `f` and then past `fs`. -/
theorem begins_cons (idx comp : Nat) (f : Frame) (fs : List Frame) :
    idx + 1 + fs.length = idx + (f :: fs).length ∧
      comp + f.octets.length + (frameBody fs).length = comp + (frameBody (f :: fs)).length := by
  constructor
  · rw [List.length_cons]
    omega
  · rw [frameBody, frameBody, List.flatMap_cons, List.length_append, Nat.add_assoc]

theorem chosenSpans_append (idx comp : Nat) (fs gs : List Frame) :
    chosenSpans lib range idx comp (fs ++ gs) = chosenSpans lib range idx comp fs ++
      chosenSpans lib range (idx + fs.length) (comp + (frameBody fs).length) gs := by
  induction fs generalizing idx comp with
  | nil => rfl
  | cons f fs ih =>
    obtain ⟨hidx, hcomp⟩ := begins_cons idx comp f fs
    rw [List.cons_append, chosenSpans, chosenSpans, ih, hidx, hcomp]
    split
    · rfl
    · rfl

theorem chosenSpans_cons_of_pos {f : Frame} (hf : f.chosen range) (idx comp : Nat)
    (frames : List Frame) :
    chosenSpans lib range idx comp (f :: frames) =
      f.span lib idx comp :: chosenSpans lib range (idx + 1) (comp + f.octets.length) frames := by
  rw [chosenSpans, if_pos hf]

theorem chosenSpans_eq_nil (idx comp : Nat) {frames : List Frame} :
    chosenSpans lib range idx comp frames = [] ↔ ∀ f ∈ frames, ¬ f.chosen range := by
  induction frames generalizing idx comp with
  | nil => exact ⟨fun _ f hf => absurd hf List.not_mem_nil, fun _ => rfl⟩
  | cons f frames ih =>
    rw [List.forall_mem_cons, chosenSpans]
    by_cases hf : f.chosen range
    · rw [if_pos hf]
      exact ⟨fun hnil => absurd hnil (List.cons_ne_nil _ _), fun h => absurd hf h.1⟩
    · rw [if_neg hf, ih]
      exact ⟨fun h => ⟨hf, h⟩, fun h => h.2⟩

/-- A span among those chosen is that of a frame, with the frames before and after it. -/
theorem chosenSpans_eq_append_cons {idx comp : Nat} {frames : List Frame} {p q : List FrameSpan}
    {s : FrameSpan} (h : chosenSpans lib range idx comp frames = p ++ s :: q) :
    ∃ fs f gs, frames = fs ++ f :: gs ∧ f.chosen range ∧ chosenSpans lib range idx comp fs = p ∧
      s = f.span lib (idx + fs.length) (comp + (frameBody fs).length) ∧
      chosenSpans lib range (idx + fs.length + 1)
        (comp + (frameBody fs).length + f.octets.length) gs = q := by
  induction frames generalizing idx comp p with
  | nil => exact absurd h.symm (List.append_ne_nil_of_right_ne_nil _ (List.cons_ne_nil _ _))
  | cons f frames ih =>
    rw [chosenSpans] at h
    -- the frames before begin with this one, or it is the frame looked for
    have hlater : ∀ {p' : List FrameSpan},
        chosenSpans lib range (idx + 1) (comp + f.octets.length) frames = p' ++ s :: q →
        ∃ fs g gs, frames = fs ++ g :: gs ∧ g.chosen range ∧
          chosenSpans lib range (idx + 1) (comp + f.octets.length) fs = p' ∧
          s = g.span lib (idx + (f :: fs).length) (comp + (frameBody (f :: fs)).length) ∧
          chosenSpans lib range (idx + (f :: fs).length + 1)
            (comp + (frameBody (f :: fs)).length + g.octets.length) gs = q := by
      intro p' hrest
      obtain ⟨fs, g, gs, hframes, hg, hp, hs, hq⟩ := ih hrest
      obtain ⟨hidx, hcomp⟩ := begins_cons idx comp f fs
      rw [hidx, hcomp] at hs hq
      exact ⟨fs, g, gs, hframes, hg, hp, hs, hq⟩
    by_cases hf : f.chosen range
    · rw [if_pos hf] at h
      cases p with
      | nil =>
        obtain ⟨hs, hq⟩ := List.cons.inj h
        exact ⟨[], f, frames, rfl, hf, rfl, hs.symm, hq⟩
      | cons a p =>
        rw [List.cons_append] at h
        obtain ⟨ha, hrest⟩ := List.cons.inj h
        obtain ⟨fs, g, gs, rfl, hg, hp, hs, hq⟩ := hlater hrest
        refine ⟨f :: fs, g, gs, rfl, hg, ?_, hs, hq⟩
        rw [chosenSpans_cons_of_pos hf, hp, ha]
    · rw [if_neg hf] at h
      obtain ⟨fs, g, gs, rfl, hg, hp, hs, hq⟩ := hlater h
      refine ⟨f :: fs, g, gs, rfl, hg, ?_, hs, hq⟩
      rw [chosenSpans, if_neg hf, hp]

/-- Spans lie where their frames do. -/
theorem chosenSpans_bounds {idx comp : Nat} {frames : List Frame} {s : FrameSpan}
    (hs : s ∈ chosenSpans lib range idx comp frames) :
    comp ≤ s.byteStart ∧ s.byteEndExclusive ≤ comp + (frameBody frames).length := by
  obtain ⟨p, q, hspans⟩ := List.append_of_mem hs
  obtain ⟨fs, f, gs, rfl, -, -, rfl, -⟩ := chosenSpans_eq_append_cons hspans
  have hlength : (frameBody (fs ++ f :: gs)).length =
      (frameBody fs).length + (f.octets.length + (frameBody gs).length) := by
    rw [frameBody_append, List.length_append, frameBody, frameBody, List.flatMap_cons,
      List.length_append]
    rfl
  refine ⟨Nat.le_add_right _ _, ?_⟩
  show comp + (frameBody fs).length + f.octets.length ≤ _
  omega

theorem chosenSpans_spansInOrder {frames : List Frame} (hok : ∀ f ∈ frames, f.Ok lib) (idx comp : Nat) :
    SpansInOrder (chosenSpans lib range idx comp frames) := by
  induction frames generalizing idx comp with
  | nil => exact ⟨fun s hs => absurd hs List.not_mem_nil, List.Pairwise.nil⟩
  | cons f frames ih =>
    have hrest := ih (fun g hg => hok g (List.mem_cons_of_mem _ hg)) (idx + 1)
      (comp + f.octets.length)
    rw [chosenSpans]
    split
    · refine ⟨?_, ?_⟩
      · intro s hs
        rcases List.mem_cons.mp hs with rfl | hs
        · exact Nat.lt_add_of_pos_right
            (List.length_pos_iff.mpr (hok f List.mem_cons_self).octets_ne_nil)
        · exact hrest.nonempty s hs
      · exact List.pairwise_cons.mpr ⟨fun s hs => (chosenSpans_bounds hs).1, hrest.apart⟩
    · exact hrest

/-- Chosen frames with none skipped leave no gap. -/
theorem chosenSpans_chain {frames : List Frame} (hall : ∀ f ∈ frames, f.chosen range)
    (maxGapBytes idx comp : Nat) :
    (chosenSpans lib range idx comp frames).IsChain fun a b => joins maxGapBytes a b := by
  induction frames generalizing idx comp with
  | nil => exact List.IsChain.nil
  | cons f frames ih =>
    obtain ⟨hf, hrest⟩ := List.forall_mem_cons.mp hall
    have htail := ih hrest (idx + 1) (comp + f.octets.length)
    rw [chosenSpans_cons_of_pos hf]
    cases frames with
    | nil => exact List.IsChain.singleton _
    | cons g frames =>
      have hg := hrest g List.mem_cons_self
      rw [chosenSpans_cons_of_pos hg] at htail ⊢
      refine List.IsChain.cons_cons ?_ htail
      apply decide_eq_true
      show comp + f.octets.length - (comp + f.octets.length) ≤ maxGapBytes
      rw [Nat.sub_self]
      exact Nat.zero_le _

/-- The sizes of the spans are those of the chosen frames. -/
theorem chosenSpans_sizes (idx comp : Nat) (frames : List Frame) :
    ((chosenSpans lib range idx comp frames).map FrameSpan.originalSize).sum =
      ((frames.filter (Frame.chosen range)).map fun f =>
        (lib.records.text f.records).length).sum := by
  induction frames generalizing idx comp with
  | nil => rfl
  | cons f frames ih =>
    rw [chosenSpans]
    by_cases hf : f.chosen range
    · rw [if_pos hf, List.filter_cons_of_pos hf, List.map_cons, List.map_cons,
        List.sum_cons, List.sum_cons, ih]
      rfl
    · rw [if_neg hf, List.filter_cons_of_neg hf, ih]

theorem text_frameRecords_length (frames : List Frame) :
    (lib.records.text (frameRecords frames)).length =
      (frames.map fun f => (lib.records.text f.records).length).sum := by
  induction frames with
  | nil => rfl
  | cons f frames ih =>
    rw [frameRecords, List.flatMap_cons, SerdeLine.text_append, List.length_append,
      List.map_cons, List.sum_cons, ← ih, frameRecords]

/-- Where a frame is skipped, the chosen sizes are less than the whole text. -/
theorem all_chosen_of_sizes {frames : List Frame} (hok : ∀ f ∈ frames, f.Ok lib)
    (h : (lib.records.text (frameRecords frames)).length ≤
      ((frames.filter (Frame.chosen range)).map fun f =>
        (lib.records.text f.records).length).sum) : ∀ f ∈ frames, f.chosen range := by
  induction frames with
  | nil => exact fun f hf => absurd hf List.not_mem_nil
  | cons f frames ih =>
    obtain ⟨hf, hrest⟩ := List.forall_mem_cons.mp hok
    have hpos := List.length_pos_iff.mpr hf.text_ne_nil
    have hle : ((frames.filter (Frame.chosen range)).map fun f =>
        (lib.records.text f.records).length).sum ≤
          (lib.records.text (frameRecords frames)).length := by
      rw [text_frameRecords_length]
      exact (List.filter_sublist.map _).sum_le_sum fun _ _ => Nat.zero_le _
    rw [text_frameRecords_length, List.map_cons, List.sum_cons, ← text_frameRecords_length] at h
    by_cases hchosen : f.chosen range
    · rw [List.filter_cons_of_pos hchosen, List.map_cons, List.sum_cons] at h
      exact List.forall_mem_cons.mpr ⟨hchosen, ih hrest (Nat.le_of_add_le_add_left h)⟩
    · rw [List.filter_cons_of_neg hchosen] at h
      omega

/-! ## What a range decodes to -/

/-- `body[start..stop]`. -/
def bodySlice (body : Bytes) (start stop : Nat) : Bytes := (body.drop start).take (stop - start)

theorem bodySlice_frames (fs gs hs : List Frame) :
    bodySlice (frameBody (fs ++ gs ++ hs)) (frameBody fs).length
      ((frameBody fs).length + (frameBody gs).length) = frameBody gs := by
  rw [bodySlice, frameBody_append, frameBody_append, List.append_assoc, List.drop_left,
    Nat.add_sub_cancel_left, List.take_left]

/-- The octets of a range decode under the summed size, to a text that has the records of the
spans in the range, in order. -/
def RangeDecodes (lib : CodecLib) (body : Bytes) (spans : List FrameSpan) (t : Nat × Nat × Nat) :
    Prop :=
  ∃ bytes, decompressFrames lib.zstd (bodySlice body t.1 t.2.1) t.2.2 = .ok bytes ∧
    ((spans.filter fun s => s.Within t).flatMap fun s =>
      objectRecords lib (bodySlice body s.byteStart s.byteEndExclusive)).Sublist
        (lib.records.intact bytes)

/-- The spans of chosen frames decode to their records. -/
theorem chosenSpans_records {gs : List Frame} (hok : ∀ f ∈ gs, f.Ok lib) (fs hs : List Frame)
    (idx : Nat) :
    ((chosenSpans lib range idx (frameBody fs).length gs).flatMap fun s =>
        objectRecords lib
          (bodySlice (frameBody (fs ++ gs ++ hs)) s.byteStart s.byteEndExclusive)) =
      frameRecords (gs.filter (Frame.chosen range)) := by
  induction gs generalizing fs idx with
  | nil => rfl
  | cons f gs ih =>
    obtain ⟨hf, hgs⟩ := List.forall_mem_cons.mp hok
    have hcomp : (frameBody fs).length + f.octets.length = (frameBody (fs ++ [f])).length := by
      rw [frameBody_append, List.length_append]
      exact congrArg _ (congrArg List.length (List.append_nil _).symm)
    have hsplit : fs ++ f :: gs ++ hs = fs ++ [f] ++ gs ++ hs := by
      simp only [List.append_assoc, List.cons_append, List.nil_append]
    have hslice := bodySlice_frames fs [f] (gs ++ hs)
    have hone : frameBody [f] = f.octets := List.append_nil _
    have hrest := ih hgs (fs ++ [f]) (idx + 1)
    rw [chosenSpans, hcomp, hsplit]
    by_cases hchosen : f.chosen range = true
    · rw [if_pos hchosen, List.filter_cons_of_pos hchosen, List.flatMap_cons, hrest, Frame.span,
        frameRecords, frameRecords, List.flatMap_cons]
      congr 1
      rw [hone, ← List.append_assoc] at hslice
      rw [objectRecords, hslice, hf.decode, SerdeLine.intact_text]
    · rw [if_neg hchosen, List.filter_cons_of_neg hchosen, hrest]

/-- Some of the chosen spans in a row are those of a part of the frames, which they reach from
end to end. -/
theorem chosenSpans_part {frames : List Frame} {before run after : List FrameSpan}
    (hspans : chosenSpans lib range 0 0 frames = before ++ run ++ after) (hne : run ≠ []) :
    ∃ fs gs hs, frames = fs ++ gs ++ hs ∧
      run = chosenSpans lib range fs.length (frameBody fs).length gs ∧
      (∀ f ∈ gs.head?, f.chosen range = true) ∧ (∀ f ∈ gs.getLast?, f.chosen range = true) ∧
      (rangeOf run).1 = (frameBody fs).length ∧
      (rangeOf run).2.1 = (frameBody fs).length + (frameBody gs).length := by
  obtain ⟨s, rest, rfl⟩ := List.exists_cons_of_ne_nil hne
  rw [List.append_assoc, List.cons_append] at hspans
  obtain ⟨fs, f, tail, rfl, hf, -, hs, hrest⟩ := chosenSpans_eq_append_cons hspans
  rw [Nat.zero_add, Nat.zero_add] at hs hrest
  rcases List.eq_nil_or_concat' rest with rfl | ⟨mid, last, rfl⟩
  · refine ⟨fs, [f], tail, by simp only [List.append_assoc, List.singleton_append], ?_, ?_, ?_,
      ?_, ?_⟩
    · rw [chosenSpans_cons_of_pos hf, hs]
      rfl
    · exact fun g hg => Option.some.inj hg ▸ hf
    · exact fun g hg => Option.some.inj hg ▸ hf
    · rw [hs]
      rfl
    · have hone : frameBody [f] = f.octets := List.append_nil _
      rw [hs, hone]
      rfl
  · rw [List.append_assoc, List.singleton_append] at hrest
    obtain ⟨ns, g, hs', rfl, hg, hmid, hlast, -⟩ := chosenSpans_eq_append_cons hrest
    have hgs : chosenSpans lib range fs.length (frameBody fs).length (f :: (ns ++ [g])) =
        s :: (mid ++ [last]) := by
      rw [chosenSpans_cons_of_pos hf, chosenSpans_append, hmid, chosenSpans_cons_of_pos hg,
        ← hlast, hs]
      rfl
    refine ⟨fs, f :: (ns ++ [g]), hs',
      by simp only [List.append_assoc, List.cons_append, List.nil_append], hgs.symm, ?_, ?_, ?_, ?_⟩
    · exact fun h hh => Option.some.inj hh ▸ hf
    · intro h hh
      rw [← List.cons_append, List.getLast?_concat] at hh
      exact Option.some.inj hh ▸ hg
    · rw [rangeOf_start hne, List.head_cons, hs]
      rfl
    · have hend : (s :: (mid ++ [last])).getLast hne = last := by
        simp only [← List.cons_append, List.getLast_concat]
      rw [rangeOf_stop hne, hend, hlast]
      show (frameBody fs).length + f.octets.length + (frameBody ns).length + g.octets.length = _
      simp only [frameBody, List.flatMap_cons, List.flatMap_append, List.flatMap_nil,
        List.append_nil, List.length_append]
      omega

/-- The range of a run decodes exactly where no frame in it was skipped and its text is below
the ceiling. -/
theorem rangeDecodes_iff {frames fs gs hs : List Frame} {before run after : List FrameSpan}
    (hok : ∀ f ∈ frames, f.Ok lib) (hframes : frames = fs ++ gs ++ hs)
    (hspans : chosenSpans lib range 0 0 frames = before ++ run ++ after) (hne : run ≠ [])
    (hrun : run = chosenSpans lib range fs.length (frameBody fs).length gs)
    (hstart : (rangeOf run).1 = (frameBody fs).length)
    (hstop : (rangeOf run).2.1 = (frameBody fs).length + (frameBody gs).length) :
    RangeDecodes lib (frameBody frames) (chosenSpans lib range 0 0 frames) (rangeOf run) ↔
      (∀ f ∈ gs, f.chosen range = true) ∧
        (lib.records.text (frameRecords gs)).length ≤ maxDecompressedBytes := by
  have hgs : ∀ f ∈ gs, f.Ok lib := by
    intro f hf
    rw [hframes] at hok
    exact hok f (List.mem_append_left _ (List.mem_append_right _ hf))
  have hne' : gs ≠ [] := by
    rintro rfl
    exact hne hrun
  have hbody : frameBody gs ≠ [] := by
    intro hnil
    obtain ⟨f, hf⟩ := List.exists_mem_of_ne_nil gs hne'
    have hoctets := List.flatMap_eq_nil_iff.mp hnil f hf
    exact (hgs f hf).octets_ne_nil hoctets
  have hslice : bodySlice (frameBody frames) (rangeOf run).1 (rangeOf run).2.1 = frameBody gs := by
    rw [hstart, hstop, hframes, bodySlice_frames]
  have hdecode := (frames_decodable hgs).decode hbody
  have hsizes : (rangeOf run).2.2 = ((gs.filter (Frame.chosen range)).map fun f =>
      (lib.records.text f.records).length).sum := by
    rw [hrun]
    exact chosenSpans_sizes _ _ _
  have hmembers : ((chosenSpans lib range 0 0 frames).filter fun s => s.Within (rangeOf run)) =
      run := by
    have horder : SpansInOrder (chosenSpans lib range 0 0 frames) :=
      chosenSpans_spansInOrder hok 0 0
    rw [hspans] at horder ⊢
    exact horder.members hne
  constructor
  · rintro ⟨bytes, hbytes, -⟩
    rw [hslice] at hbytes
    obtain ⟨rfl, hsize⟩ := decompressFrames_ok hdecode hbytes
    refine ⟨all_chosen_of_sizes hgs (hsizes ▸ hsize.ge), ?_⟩
    by_contra hover
    rw [hsize, decompressFrames_exact hdecode, if_pos (Nat.lt_of_not_le hover)] at hbytes
    cases hbytes
  · rintro ⟨hall, hmax⟩
    have hfilter : gs.filter (Frame.chosen range) = gs := List.filter_eq_self.mpr hall
    refine ⟨lib.records.text (frameRecords gs), ?_, ?_⟩
    · rw [hslice, hsizes, hfilter, ← text_frameRecords_length, decompressFrames_exact hdecode,
        if_neg (Nat.not_lt.mpr hmax)]
    · rw [hmembers, hrun, hframes, chosenSpans_records hgs, hfilter, SerdeLine.intact_text]

/-! ## When ranges decode -/

/-- A range of time meets a frame, as its sidecar entry says. -/
def entryChosen (range : TimeRange) (p : FrameIndexEntry × TsEntry) : Bool :=
  range.overlaps p.2.minTs p.2.maxTs

/-- Frames that are skipped between two chosen ones are wider than the gap allowed, and no
chosen frames in a row hold more text than the ceiling. -/
structure Unbridged (range : TimeRange) (maxGapBytes : Nat)
    (index : List (FrameIndexEntry × TsEntry)) : Prop where
  wide : ∀ {before mid after x y}, index = before ++ x :: (mid ++ y :: after) → mid ≠ [] →
    entryChosen range x = true → entryChosen range y = true →
    (∀ z ∈ mid, entryChosen range z = false) →
    maxGapBytes < y.1.compressedOffset - (x.1.compressedOffset + x.1.compressedSize)
  light : ∀ {before mid after}, index = before ++ (mid ++ after) →
    (∀ z ∈ mid, entryChosen range z = true) →
    (mid.map fun z => z.1.originalSize).sum ≤ maxDecompressedBytes

theorem frameIndexAt_append (orig comp : Nat) (fs gs : List Frame) :
    frameIndexAt lib orig comp (fs ++ gs) = frameIndexAt lib orig comp fs ++
      frameIndexAt lib (orig + (lib.records.text (frameRecords fs)).length)
        (comp + (frameBody fs).length) gs := by
  rw [frameIndexAt, frameEntries_append, List.map_append, List.zip_append, frameIndexAt,
    frameIndexAt]
  rw [frameEntries_length, List.length_map]

theorem frameIndexAt_length (orig comp : Nat) (frames : List Frame) :
    (frameIndexAt lib orig comp frames).length = frames.length := by
  rw [frameIndexAt, List.length_zip, frameEntries_length, List.length_map, Nat.min_self]

/-- A cut of the sidecars is a cut of the frames. -/
theorem frameIndexAt_eq_append {orig comp : Nat} {frames : List Frame}
    {p q : List (FrameIndexEntry × TsEntry)} (h : frameIndexAt lib orig comp frames = p ++ q) :
    ∃ fs gs, frames = fs ++ gs ∧ frameIndexAt lib orig comp fs = p ∧
      frameIndexAt lib (orig + (lib.records.text (frameRecords fs)).length)
        (comp + (frameBody fs).length) gs = q := by
  have hlength := congrArg List.length h
  rw [frameIndexAt_length, List.length_append] at hlength
  have htake : (frames.take p.length).length = p.length := by
    rw [List.length_take]
    omega
  rw [← List.take_append_drop p.length frames, frameIndexAt_append] at h
  obtain ⟨hp, hq⟩ := List.append_inj h (by rw [frameIndexAt_length, htake])
  exact ⟨_, _, (List.take_append_drop p.length frames).symm, hp, hq⟩

theorem frameIndexAt_chosen {orig comp : Nat} {frames : List Frame} {chosen : Bool} :
    (∀ z ∈ frameIndexAt lib orig comp frames, entryChosen range z = chosen) ↔
      ∀ f ∈ frames, f.chosen range = chosen := by
  induction frames generalizing orig comp with
  | nil => exact ⟨fun _ f hf => absurd hf List.not_mem_nil, fun _ z hz => absurd hz List.not_mem_nil⟩
  | cons f frames ih =>
    rw [frameIndexAt_cons, List.forall_mem_cons, List.forall_mem_cons, ih]
    rfl

theorem frameIndexAt_sizes (orig comp : Nat) (frames : List Frame) :
    ((frameIndexAt lib orig comp frames).map fun z => z.1.originalSize).sum =
      (lib.records.text (frameRecords frames)).length := by
  induction frames generalizing orig comp with
  | nil => rfl
  | cons f frames ih =>
    rw [frameIndexAt_cons, List.map_cons, List.sum_cons, ih, frameRecords, frameRecords, List.flatMap_cons,
      SerdeLine.text_append, List.length_append]

/-- Between two chosen frames with a skipped one between them are two with none but skipped
ones between them. -/
theorem exists_skipped {α : Type*} {p : α → Bool} {before after : List α} {z : α}
    (hz : p z = false) (hfirst : ∃ a ∈ before, p a = true) (hlast : ∃ b ∈ after, p b = true) :
    ∃ A a N b B, before ++ z :: after = A ++ a :: (N ++ b :: B) ∧ N ≠ [] ∧ p a = true ∧
      p b = true ∧ ∀ c ∈ N, p c = false := by
  obtain ⟨a, ha, hpa⟩ := hfirst
  obtain ⟨b, hb, hpb⟩ := hlast
  have hfound : ∃ a', before.reverse.find? p = some a' :=
    Option.isSome_iff_exists.mp (List.find?_isSome.mpr ⟨a, List.mem_reverse.mpr ha, hpa⟩)
  have hfound' : ∃ b', after.find? p = some b' :=
    Option.isSome_iff_exists.mp (List.find?_isSome.mpr ⟨b, hb, hpb⟩)
  obtain ⟨a', ha'⟩ := hfound
  obtain ⟨b', hb'⟩ := hfound'
  obtain ⟨hpa', N₁, A, hbefore, hN₁⟩ := List.find?_eq_some_iff_append.mp ha'
  obtain ⟨hpb', N₂, B, hafter, hN₂⟩ := List.find?_eq_some_iff_append.mp hb'
  have hbefore' : before = A.reverse ++ a' :: N₁.reverse := by
    rw [← List.reverse_reverse before, hbefore, List.reverse_append, List.reverse_cons,
      List.append_assoc, List.singleton_append]
  refine ⟨A.reverse, a', N₁.reverse ++ z :: N₂, b', B, ?_, ?_, hpa', hpb', ?_⟩
  · rw [hbefore', hafter]
    simp only [List.append_assoc, List.cons_append]
  · exact List.append_ne_nil_of_right_ne_nil _ (List.cons_ne_nil _ _)
  · intro c hc
    rcases List.mem_append.mp hc with hc | hc
    · have hnot := hN₁ c (List.mem_reverse.mp hc)
      rwa [Bool.not_eq_true'] at hnot
    · rcases List.mem_cons.mp hc with rfl | hc
      · exact hz
      · have hnot := hN₂ c hc
        rwa [Bool.not_eq_true'] at hnot

/-- The condition on the sidecars, said of the frames. -/
theorem unbridged_iff {maxGapBytes : Nat} {frames : List Frame} :
    Unbridged range maxGapBytes (frameIndexAt lib 0 0 frames) ↔
      (∀ A f N g B, frames = A ++ f :: (N ++ g :: B) → N ≠ [] → f.chosen range = true →
        g.chosen range = true → (∀ c ∈ N, c.chosen range = false) →
        maxGapBytes < (frameBody N).length) ∧
      ∀ A M B, frames = A ++ (M ++ B) → (∀ f ∈ M, f.chosen range = true) →
        (lib.records.text (frameRecords M)).length ≤ maxDecompressedBytes := by
  constructor
  · intro h
    constructor
    · intro A f N g B hframes hne hf hg hN
      rw [hframes, frameIndexAt_append, frameIndexAt_cons, frameIndexAt_append,
        frameIndexAt_cons] at h
      have hmid : ∀ orig comp, frameIndexAt lib orig comp N ≠ [] := by
        intro orig comp hnil
        have hlength := congrArg List.length hnil
        rw [frameIndexAt_length] at hlength
        exact hne (List.length_eq_zero_iff.mp hlength)
      have hwide := h.wide rfl (hmid _ _) hf hg (frameIndexAt_chosen.mpr hN)
      dsimp only at hwide
      omega
    · intro A M B hframes hall
      rw [hframes, frameIndexAt_append, frameIndexAt_append] at h
      have hlight := h.light rfl (frameIndexAt_chosen.mpr hall)
      rwa [frameIndexAt_sizes] at hlight
  · rintro ⟨hwide, hlight⟩
    constructor
    · intro before mid after x y hindex hne hx hy hmid
      obtain ⟨A, R, hframes, -, hR⟩ := frameIndexAt_eq_append hindex
      cases R with
      | nil => cases hR
      | cons f R =>
        rw [frameIndexAt_cons] at hR
        obtain ⟨rfl, hrest⟩ := List.cons.inj hR
        obtain ⟨N, T, rfl, rfl, hT⟩ := frameIndexAt_eq_append hrest
        cases T with
        | nil => cases hT
        | cons g B =>
          rw [frameIndexAt_cons] at hT
          obtain ⟨rfl, -⟩ := List.cons.inj hT
          have hgap := hwide A f N g B hframes (fun hnil => hne (hnil ▸ rfl)) hx hy
            (frameIndexAt_chosen.mp hmid)
          dsimp only
          omega
    · intro before mid after hindex hmid
      obtain ⟨A, R, hframes, -, hR⟩ := frameIndexAt_eq_append hindex
      obtain ⟨M, B, rfl, rfl, -⟩ := frameIndexAt_eq_append hR
      rw [frameIndexAt_sizes]
      exact hlight A M B hframes (frameIndexAt_chosen.mp hmid)

/-- A run is the chosen ones of a part of the frames, and its range decodes exactly where none
of the part was skipped and its text is below the ceiling. -/
theorem run_frames {frames : List Frame} {maxGapBytes : Nat} {run : List FrameSpan}
    (hok : ∀ f ∈ frames, f.Ok lib)
    (hrun : run ∈ (chosenSpans lib range 0 0 frames).splitBy (joins maxGapBytes)) :
    ∃ fs gs hs, frames = fs ++ gs ++ hs ∧
      run = chosenSpans lib range fs.length (frameBody fs).length gs ∧
      (∀ f ∈ gs.head?, f.chosen range = true) ∧ (∀ f ∈ gs.getLast?, f.chosen range = true) ∧
      (RangeDecodes lib (frameBody frames) (chosenSpans lib range 0 0 frames) (rangeOf run) ↔
        (∀ f ∈ gs, f.chosen range = true) ∧
          (lib.records.text (frameRecords gs)).length ≤ maxDecompressedBytes) := by
  obtain ⟨before, after, hpart⟩ := Runs.run_infix hrun
  have hne : run ≠ [] := ne_of_mem_of_not_mem hrun (List.nil_notMem_splitBy _ _)
  obtain ⟨fs, gs, hs, hframes, hgs, hfirst, hlast, hstart, hstop⟩ :=
    chosenSpans_part hpart.symm hne
  exact ⟨fs, gs, hs, hframes, hgs, hfirst, hlast,
    rangeDecodes_iff hok hframes hpart.symm hne hgs hstart hstop⟩

/-- Spans of two chosen frames with none but skipped ones between them. -/
theorem chosenSpans_neighbours (idx comp : Nat) {A N B : List Frame} {f g : Frame}
    (hf : f.chosen range = true) (hg : g.chosen range = true)
    (hN : ∀ c ∈ N, c.chosen range = false) :
    chosenSpans lib range idx comp (A ++ f :: (N ++ g :: B)) = chosenSpans lib range idx comp A ++
      ([f.span lib (idx + A.length) (comp + (frameBody A).length),
        g.span lib (idx + A.length + 1 + N.length)
          (comp + (frameBody A).length + f.octets.length + (frameBody N).length)] ++
      chosenSpans lib range (idx + A.length + 1 + N.length + 1)
        (comp + (frameBody A).length + f.octets.length + (frameBody N).length + g.octets.length)
        B) := by
  have hskipped : ∀ i c, chosenSpans lib range i c N = [] := fun i c =>
    (chosenSpans_eq_nil i c).mpr fun h hh => by rw [hN h hh]; exact Bool.false_ne_true
  rw [chosenSpans_append, chosenSpans_cons_of_pos hf, chosenSpans_append, hskipped,
    chosenSpans_cons_of_pos hg]
  rfl

/-- Ranges decode where nothing is bridged. -/
theorem rangesDecode_of_unbridged {frames : List Frame} {maxGapBytes : Nat}
    (hok : ∀ f ∈ frames, f.Ok lib)
    (h : Unbridged range maxGapBytes (frameIndexAt lib 0 0 frames)) :
    ∀ t ∈ coalesceSpans (chosenSpans lib range 0 0 frames) maxGapBytes,
      RangeDecodes lib (frameBody frames) (chosenSpans lib range 0 0 frames) t := by
  obtain ⟨hwide, hlight⟩ := unbridged_iff.mp h
  intro t ht
  rw [coalesceSpans_eq] at ht
  obtain ⟨run, hrun, rfl⟩ := List.mem_map.mp ht
  obtain ⟨fs, gs, hs, rfl, hgs, hfirst, hlast, hiff⟩ := run_frames hok hrun
  have hall : ∀ f ∈ gs, f.chosen range = true := by
    intro z hz
    by_contra hskip
    have hskip : z.chosen range = false := Bool.not_eq_true _ ▸ hskip
    obtain ⟨P, Q, rfl⟩ := List.append_of_mem hz
    -- the ends of the part are chosen, so the skipped frame has chosen ones about it
    have hbefore : ∃ a ∈ P, a.chosen range = true := by
      cases P with
      | nil =>
        rw [hfirst z rfl] at hskip
        cases hskip
      | cons a P => exact ⟨a, List.mem_cons_self, hfirst a rfl⟩
    have hafter : ∃ b ∈ Q, b.chosen range = true := by
      rcases List.eq_nil_or_concat' Q with rfl | ⟨Q, b, rfl⟩
      · rw [hlast z List.getLast?_concat] at hskip
        cases hskip
      · refine ⟨b, List.mem_append_right _ List.mem_cons_self, hlast b ?_⟩
        rw [← List.cons_append, ← List.append_assoc, List.getLast?_concat]
        rfl
    obtain ⟨A, f, N, g, B, hsplit, hne, hf, hg, hN⟩ := exists_skipped hskip hbefore hafter
    have hframes : fs ++ (P ++ z :: Q) ++ hs = (fs ++ A) ++ f :: (N ++ g :: (B ++ hs)) := by
      rw [hsplit]
      simp only [List.append_assoc, List.cons_append]
    have hgap := hwide _ f N g _ hframes hne hf hg hN
    have hjoined := (Runs.cut_splitBy _ _).joined run hrun
    rw [hgs, hsplit, chosenSpans_neighbours _ _ hf hg hN] at hjoined
    obtain ⟨-, hpair, -⟩ := List.isChain_append.mp hjoined
    obtain ⟨hpair, -, -⟩ := List.isChain_append.mp hpair
    have hpair := List.isChain_pair.mp hpair
    have hle := of_decide_eq_true hpair
    simp only [Frame.span] at hle
    omega
  exact hiff.mpr ⟨hall, hlight fs gs hs (List.append_assoc _ _ _) hall⟩

/-- Where ranges decode, nothing is bridged. -/
theorem unbridged_of_rangesDecode {frames : List Frame} {maxGapBytes : Nat}
    (hok : ∀ f ∈ frames, f.Ok lib)
    (h : ∀ t ∈ coalesceSpans (chosenSpans lib range 0 0 frames) maxGapBytes,
      RangeDecodes lib (frameBody frames) (chosenSpans lib range 0 0 frames) t) :
    Unbridged range maxGapBytes (frameIndexAt lib 0 0 frames) := by
  have hcut := Runs.cut_splitBy (joins maxGapBytes) (chosenSpans lib range 0 0 frames)
  have hdecodes : ∀ run ∈ (chosenSpans lib range 0 0 frames).splitBy (joins maxGapBytes),
      RangeDecodes lib (frameBody frames) (chosenSpans lib range 0 0 frames) (rangeOf run) := by
    intro run hrun
    apply h
    rw [coalesceSpans_eq]
    exact List.mem_map_of_mem hrun
  refine unbridged_iff.mpr ⟨?_, ?_⟩
  · intro A f N g B hframes hne hf hg hN
    by_contra hgap
    -- the two frames would be fetched in one range, with a skipped frame between them
    have hspans : chosenSpans lib range 0 0 frames = _ :=
      hframes ▸ chosenSpans_neighbours 0 0 hf hg hN
    obtain ⟨run, hrun, p, q, hpq⟩ := hcut.infix_run hspans (List.cons_ne_nil _ _) (by
      refine List.isChain_pair.mpr (decide_eq_true ?_)
      simp only [Frame.span]
      omega)
    obtain ⟨fs, gs, hs, -, hgs, -, -, hiff⟩ := run_frames hok hrun
    obtain ⟨hall, -⟩ := hiff.mp (hdecodes run hrun)
    rw [hgs, List.append_assoc, List.cons_append] at hpq
    obtain ⟨l₁, f', rest, rfl, -, -, hf', hrest⟩ := chosenSpans_eq_append_cons hpq.symm
    obtain ⟨l₂, g', l₃, rfl, -, hl₂, hg', -⟩ := chosenSpans_eq_append_cons (p := []) hrest
    have hl₂ : l₂ = [] := by
      refine List.eq_nil_iff_forall_not_mem.mpr fun c hc => ?_
      exact (chosenSpans_eq_nil _ _).mp hl₂ c hc (hall c (List.mem_append_right _
        (List.mem_cons_of_mem _ (List.mem_append_left _ hc))))
    subst hl₂
    have hidx := congrArg FrameSpan.frameIdx hf'
    have hidx' := congrArg FrameSpan.frameIdx hg'
    have hpos := List.length_pos_iff.mpr hne
    simp only [Frame.span, List.length_nil] at hidx hidx'
    omega
  · intro A M B hframes hall
    by_cases hne : M = []
    · rw [hne]
      exact Nat.zero_le _
    · have hspans : chosenSpans lib range 0 0 frames = chosenSpans lib range 0 0 A ++
          (chosenSpans lib range (0 + A.length) (0 + (frameBody A).length) M ++
            chosenSpans lib range (0 + A.length + M.length)
              (0 + (frameBody A).length + (frameBody M).length) B) := by
        rw [hframes, chosenSpans_append, chosenSpans_append]
      have hsome : chosenSpans lib range (0 + A.length) (0 + (frameBody A).length) M ≠ [] := by
        intro hnil
        obtain ⟨f, hf⟩ := List.exists_mem_of_ne_nil M hne
        exact (chosenSpans_eq_nil _ _).mp hnil f hf (hall f hf)
      obtain ⟨run, hrun, hpart⟩ := hcut.infix_run hspans hsome (chosenSpans_chain hall _ _ _)
      obtain ⟨fs, gs, hs, -, hgs, -, -, hiff⟩ := run_frames hok hrun
      obtain ⟨hall', hmax⟩ := hiff.mp (hdecodes run hrun)
      have hfilter : M.filter (Frame.chosen range) = M := List.filter_eq_self.mpr hall
      have hfilter' : gs.filter (Frame.chosen range) = gs := List.filter_eq_self.mpr hall'
      have hle := (hpart.sublist.map FrameSpan.originalSize).sum_le_sum fun _ _ => Nat.zero_le _
      rw [hgs, chosenSpans_sizes, chosenSpans_sizes, hfilter, hfilter',
        ← text_frameRecords_length, ← text_frameRecords_length] at hle
      exact hle.trans hmax

/-- Frames of a chunk, the ranges made of those a time range meets, and what the ranges decode
to: everything holds exactly where no frame is bridged. -/
theorem coalesced_ranges_decode {cfg : ChunkConfig} {rs : List LogRecord} {chunk : EncodedChunk}
    (h : ChunkWriter.encodeAll lib cfg rs = .ok (some chunk)) (range : TimeRange)
    (maxGapBytes : Nat) :
    (∃ spans, framesOverlapping chunk.frameIndex chunk.tsIndex range = .ok spans ∧
      Coalesced maxGapBytes spans (coalesceSpans spans maxGapBytes) ∧
      ∀ t ∈ coalesceSpans spans maxGapBytes, RangeDecodes lib chunk.body spans t) ↔
        Unbridged range maxGapBytes (chunk.frameIndex.entries.zip chunk.tsIndex.entries) := by
  rcases ChunkWriter.encodeAll_spec lib cfg rs with ⟨hnone, -⟩ |
    ⟨made, hmade, frames, -, hok, -, rfl⟩ | ⟨herr, -⟩
  · rw [hnone] at h
    cases h
  · rw [hmade] at h
    obtain rfl := Option.some.inj (Except.ok.inj h)
    constructor
    · rintro ⟨spans, hspans, -, hdecode⟩
      rw [framesOverlapping_ofFrames] at hspans
      obtain rfl := Except.ok.inj hspans
      exact unbridged_of_rangesDecode hok hdecode
    · intro hunbridged
      exact ⟨_, framesOverlapping_ofFrames range frames,
        (chosenSpans_spansInOrder hok 0 0).coalesced maxGapBytes,
        rangesDecode_of_unbridged hok hunbridged⟩
  · rw [herr] at h
    cases h

/-- Three frames of a record each. -/
theorem coalesced_ranges_decode_three :
    ∃ chunk, ChunkWriter.encodeAll Concrete.lib { frameTargetBytes := 0, zstdLevel := 3 }
        [⟨0, "s", "a", none, none⟩, ⟨100, "s", "b", none, none⟩, ⟨5, "s", "c", none, none⟩] =
          .ok (some chunk) ∧
      ((∃ spans, framesOverlapping chunk.frameIndex chunk.tsIndex ⟨0, 200⟩ = .ok spans ∧
        Coalesced 8 spans (coalesceSpans spans 8) ∧
        ∀ t ∈ coalesceSpans spans 8, RangeDecodes Concrete.lib chunk.body spans t) ↔
          Unbridged ⟨0, 200⟩ 8 (chunk.frameIndex.entries.zip chunk.tsIndex.entries)) := by
  rcases ChunkWriter.encodeAll_spec Concrete.lib { frameTargetBytes := 0, zstdLevel := 3 }
      [⟨0, "s", "a", none, none⟩, ⟨100, "s", "b", none, none⟩, ⟨5, "s", "c", none, none⟩] with
    ⟨-, hnil⟩ | ⟨chunk, hchunk, -⟩ | ⟨-, hpartial⟩
  · cases hnil
  · exact ⟨chunk, hchunk, coalesced_ranges_decode hchunk ⟨0, 200⟩ 8⟩
  · exact absurd Concrete.zstd_total hpartial

/-- The frame of the second record is skipped and lies in the one range: the sizes of the
other two are summed, and three come out. -/
theorem skipped_frame_bridged :
    ∃ chunk, ChunkWriter.encodeAll Concrete.lib { frameTargetBytes := 0, zstdLevel := 3 }
        [⟨0, "s", "a", none, none⟩, ⟨100, "s", "b", none, none⟩, ⟨5, "s", "c", none, none⟩] =
          .ok (some chunk) ∧
      (∃ spans, framesOverlapping chunk.frameIndex chunk.tsIndex ⟨0, 10⟩ = .ok spans ∧
        (coalesceSpans spans 1048576).map (fun t =>
          decompressFrames Concrete.lib.zstd (bodySlice chunk.body t.1 t.2.1) t.2.2) =
            [.error (.sizeMismatch 86 131)]) ∧
      ¬ ∃ spans, framesOverlapping chunk.frameIndex chunk.tsIndex ⟨0, 10⟩ = .ok spans ∧
        Coalesced 1048576 spans (coalesceSpans spans 1048576) ∧
        ∀ t ∈ coalesceSpans spans 1048576, RangeDecodes Concrete.lib chunk.body spans t := by
  have hrun : (match ChunkWriter.encodeAll Concrete.lib { frameTargetBytes := 0, zstdLevel := 3 }
        [⟨0, "s", "a", none, none⟩, ⟨100, "s", "b", none, none⟩, ⟨5, "s", "c", none, none⟩] with
      | .ok (some chunk) =>
        match framesOverlapping chunk.frameIndex chunk.tsIndex ⟨0, 10⟩ with
        | .ok spans => decide ((coalesceSpans spans 1048576).map (fun t =>
            decompressFrames Concrete.lib.zstd (bodySlice chunk.body t.1 t.2.1) t.2.2) =
              [.error (.sizeMismatch 86 131)])
        | .error _ => false
      | _ => false) = true := by
    decide +kernel
  split at hrun
  next chunk hchunk =>
    split at hrun
    next spans hspans =>
      have hout := of_decide_eq_true hrun
      refine ⟨chunk, hchunk, ⟨spans, hspans, hout⟩, ?_⟩
      rintro ⟨spans', hspans', -, hdecode⟩
      rw [hspans] at hspans'
      obtain rfl := Except.ok.inj hspans'
      obtain ⟨t, ht, herr⟩ := List.mem_map.mp (hout ▸ List.mem_cons_self)
      obtain ⟨bytes, hbytes, -⟩ := hdecode t ht
      rw [herr] at hbytes
      cases hbytes
    next => cases hrun
  next => cases hrun

end S4Logs

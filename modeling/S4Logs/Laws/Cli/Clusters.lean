import S4Logs.Lib.Separated
import S4Logs.Cli.Scan

/-!
# Clusters

The frames of a chunk, by their least timestamp, are cut into clusters: a frame joins the
last cluster where it begins by the end of it. So the clusters hold the frames in that
order, and each lies in time above the ones before it. In a cluster each frame but the first
begins by the end of one before it, so no cluster can be cut and the partition is the finest.
-/

namespace S4Logs

/-- One frame lies in time above another. -/
def Above (a b : FrameSpan × Int × Int) : Prop := a.2.2 < b.2.1

/-- Each frame but the first begins by the end of one before it. -/
def Chained (frames : List (FrameSpan × Int × Int)) : Prop :=
  ∀ before x after, frames = before ++ x :: after → before ≠ [] → ∃ a ∈ before, ¬ Above a x

theorem chained_singleton (x : FrameSpan × Int × Int) : Chained [x] := by
  intro before y after h hbefore
  have hlen := congrArg List.length h
  rw [List.length_singleton, List.length_append, List.length_cons] at hlen
  have hpos := List.length_pos_iff.mpr hbefore
  omega

/-- A chain goes on with a frame that begins by the end of one in it. -/
theorem Chained.concat {frames : List (FrameSpan × Int × Int)} {x a : FrameSpan × Int × Int}
    (h : Chained frames) (ha : a ∈ frames) (hjoin : ¬ Above a x) : Chained (frames ++ [x]) := by
  intro before y after heq hbefore
  rcases List.eq_nil_or_concat after with rfl | ⟨after', z, rfl⟩
  · obtain ⟨rfl, hy⟩ := List.append_inj' heq rfl
    obtain rfl := List.singleton_inj.mp hy
    exact ⟨a, ha, hjoin⟩
  · rw [List.concat_eq_append, ← List.cons_append, ← List.append_assoc] at heq
    obtain ⟨rfl, -⟩ := List.append_inj' heq rfl
    exact h before y after' rfl hbefore

/-- Clusters of these frames, each with its greatest timestamp. -/
structure Clustered (parts : List (Int × List (FrameSpan × Int × Int)))
    (frames : List (FrameSpan × Int × Int)) : Prop where
  flat : parts.flatMap Prod.snd = frames
  filled : ∀ q ∈ parts, q.2 ≠ []
  bound : ∀ q ∈ parts, ∀ a ∈ q.2, a.2.2 ≤ q.1
  attained : ∀ q ∈ parts, ∃ a ∈ q.2, a.2.2 = q.1
  chained : ∀ q ∈ parts, Chained q.2
  above : parts.Pairwise fun p q => ∀ a ∈ p.2, ∀ b ∈ q.2, Above a b

/-- What the code keeps of clusters. -/
def spansOf (q : Int × List (FrameSpan × Int × Int)) : Int × List FrameSpan :=
  (q.1, q.2.map Prod.fst)

variable {parts : List (Int × List (FrameSpan × Int × Int))}
  {frames : List (FrameSpan × Int × Int)} {x : FrameSpan × Int × Int}

/-- A frame that begins after the end of the last cluster opens a new one. -/
theorem Clustered.opened (h : Clustered parts frames)
    (hafter : ∀ q ∈ parts, ∀ a ∈ q.2, Above a x) :
    Clustered (parts ++ [(x.2.2, [x])]) (frames ++ [x]) where
  flat := by rw [List.flatMap_append, h.flat, List.flatMap_singleton]
  filled q hq := by
    rcases List.mem_append.mp hq with hq | hq
    · exact h.filled q hq
    · obtain rfl := List.mem_singleton.mp hq
      exact List.cons_ne_nil _ _
  bound q hq a ha := by
    rcases List.mem_append.mp hq with hq | hq
    · exact h.bound q hq a ha
    · obtain rfl := List.mem_singleton.mp hq
      obtain rfl := List.mem_singleton.mp ha
      exact le_rfl
  attained q hq := by
    rcases List.mem_append.mp hq with hq | hq
    · exact h.attained q hq
    · obtain rfl := List.mem_singleton.mp hq
      exact ⟨x, List.mem_cons_self, rfl⟩
  chained q hq := by
    rcases List.mem_append.mp hq with hq | hq
    · exact h.chained q hq
    · obtain rfl := List.mem_singleton.mp hq
      exact chained_singleton x
  above := by
    refine List.pairwise_append.mpr ⟨h.above, List.pairwise_singleton _ _, ?_⟩
    intro p hp q hq a ha b hb
    obtain rfl := List.mem_singleton.mp hq
    obtain rfl := List.mem_singleton.mp hb
    exact hafter p hp a ha

/-- A frame may join the last cluster where it is above the ones before. -/
theorem Clustered.joined {last : Int × List (FrameSpan × Int × Int)}
    (h : Clustered (parts ++ [last]) frames) (hafter : ∀ q ∈ parts, ∀ a ∈ q.2, Above a x)
    (hjoin : x.2.1 ≤ last.1) :
    Clustered (parts ++ [(max last.1 x.2.2, last.2 ++ [x])]) (frames ++ [x]) where
  flat := by
    have hflat := h.flat
    rw [List.flatMap_append, List.flatMap_singleton] at hflat
    rw [List.flatMap_append, List.flatMap_singleton, ← List.append_assoc, hflat]
  filled q hq := by
    rcases List.mem_append.mp hq with hq | hq
    · exact h.filled q (List.mem_append_left _ hq)
    · obtain rfl := List.mem_singleton.mp hq
      exact List.append_ne_nil_of_right_ne_nil _ (List.cons_ne_nil _ _)
  bound q hq a ha := by
    rcases List.mem_append.mp hq with hq | hq
    · exact h.bound q (List.mem_append_left _ hq) a ha
    · obtain rfl := List.mem_singleton.mp hq
      rcases List.mem_append.mp ha with ha | ha
      · have hle := h.bound last (List.mem_append_right _ List.mem_cons_self) a ha
        exact hle.trans (le_max_left _ _)
      · obtain rfl := List.mem_singleton.mp ha
        exact le_max_right _ _
  attained q hq := by
    rcases List.mem_append.mp hq with hq | hq
    · exact h.attained q (List.mem_append_left _ hq)
    · obtain rfl := List.mem_singleton.mp hq
      obtain ⟨a, ha, hmax⟩ := h.attained last (List.mem_append_right _ List.mem_cons_self)
      rcases le_total last.1 x.2.2 with hle | hle
      · exact ⟨x, List.mem_append_right _ List.mem_cons_self, (max_eq_right hle).symm⟩
      · exact ⟨a, List.mem_append_left _ ha, hmax.trans (max_eq_left hle).symm⟩
  chained q hq := by
    rcases List.mem_append.mp hq with hq | hq
    · exact h.chained q (List.mem_append_left _ hq)
    · obtain rfl := List.mem_singleton.mp hq
      have hlast : last ∈ parts ++ [last] := List.mem_append_right _ List.mem_cons_self
      obtain ⟨a, ha, hmax⟩ := h.attained last hlast
      exact (h.chained last hlast).concat ha (not_lt.mpr (hmax ▸ hjoin))
  above := by
    obtain ⟨hparts, -, hlast⟩ := List.pairwise_append.mp h.above
    refine List.pairwise_append.mpr ⟨hparts, List.pairwise_singleton _ _, ?_⟩
    intro p hp q hq a ha b hb
    obtain rfl := List.mem_singleton.mp hq
    rcases List.mem_append.mp hb with hb | hb
    · exact hlast p hp last List.mem_cons_self a ha b hb
    · obtain rfl := List.mem_singleton.mp hb
      exact hafter p hp a ha

/-- The next frame, which begins no earlier than the ones before, goes where the code
puts it. -/
theorem Clustered.step (h : Clustered parts frames) (hmin : ∀ a ∈ frames, a.2.1 ≤ x.2.1) :
    ∃ parts', clusterStep (parts.map spansOf) x = parts'.map spansOf ∧
      Clustered parts' (frames ++ [x]) := by
  rcases List.eq_nil_or_concat parts with rfl | ⟨before, last, rfl⟩
  · exact ⟨_, rfl, h.opened fun q hq => absurd hq List.not_mem_nil⟩
  · rw [List.concat_eq_append] at h ⊢
    -- what lies below the last cluster lies below its first frame, and that is before `x`
    have hbefore : ∀ q ∈ before, ∀ a ∈ q.2, Above a x := by
      intro q hq a ha
      obtain ⟨b, hb⟩ := List.exists_mem_of_ne_nil _
        (h.filled last (List.mem_append_right _ List.mem_cons_self))
      have hab : a.2.2 < b.2.1 :=
        (List.pairwise_append.mp h.above).2.2 q hq last List.mem_cons_self a ha b hb
      have hframe : b ∈ frames := by
        rw [← h.flat]
        exact List.mem_flatMap.mpr ⟨last, List.mem_append_right _ List.mem_cons_self, hb⟩
      exact hab.trans_le (hmin b hframe)
    have hlast : ((before ++ [last]).map spansOf).getLast? = some (spansOf last) := by
      rw [List.map_append, List.map_singleton, List.getLast?_concat]
    by_cases hjoin : x.2.1 ≤ last.1
    · refine ⟨before ++ [(max last.1 x.2.2, last.2 ++ [x])], ?_, h.joined hbefore hjoin⟩
      simp only [clusterStep, hlast]
      rw [if_pos (show x.2.1 ≤ (spansOf last).1 from hjoin), List.map_append, List.map_singleton,
        List.dropLast_concat, List.map_append, List.map_singleton]
      simp only [spansOf, List.map_append, List.map_singleton]
    · refine ⟨before ++ [last] ++ [(x.2.2, [x])], ?_, h.opened ?_⟩
      · simp only [clusterStep, hlast]
        rw [if_neg (show ¬ x.2.1 ≤ (spansOf last).1 from hjoin)]
        simp only [spansOf, List.map_append, List.map_singleton]
      · intro q hq a ha
        rcases List.mem_append.mp hq with hq | hq
        · exact hbefore q hq a ha
        · obtain rfl := List.mem_singleton.mp hq
          have hle := h.bound q (List.mem_append_right _ List.mem_cons_self) a ha
          exact hle.trans_lt (lt_of_not_ge hjoin)

/-- A run over frames that come by their least timestamp. -/
theorem Clustered.run (h : Clustered parts frames) :
    ∀ rest : List (FrameSpan × Int × Int),
      (frames ++ rest).Pairwise (fun a b => a.2.1 ≤ b.2.1) →
      ∃ parts', rest.foldl clusterStep (parts.map spansOf) = parts'.map spansOf ∧
        Clustered parts' (frames ++ rest) := by
  intro rest
  induction rest generalizing parts frames with
  | nil =>
    intro _
    exact ⟨parts, rfl, by rwa [List.append_nil]⟩
  | cons x rest ih =>
    intro hsorted
    have hmin : ∀ a ∈ frames, a.2.1 ≤ x.2.1 := fun a ha =>
      (List.pairwise_append.mp hsorted).2.2 a ha x List.mem_cons_self
    obtain ⟨parts', hstep, hparts'⟩ := h.step hmin
    have happend : frames ++ x :: rest = frames ++ [x] ++ rest := by
      rw [List.append_assoc, List.singleton_append]
    rw [happend] at hsorted ⊢
    rw [List.foldl_cons, hstep]
    exact ih hparts' hsorted

theorem byMin_pairwise (spans : List (FrameSpan × Int × Int)) :
    (Sorting.sortBy frameKey spans).Pairwise fun a b => a.2.1 ≤ b.2.1 := by
  have hasc : Sorting.Ascending frameKey (Sorting.sortBy frameKey spans) :=
    Sorting.sortBy_ascending spans
  refine hasc.imp fun hab => ?_
  rcases Prod.Lex.toLex_le_toLex.mp hab with hlt | ⟨heq, -⟩
  · exact hlt.le
  · exact heq.le

theorem clusterSpans_clustered (spans : List (FrameSpan × Int × Int)) :
    ∃ parts, clusterSpans spans = (parts.map Prod.snd).map (List.map Prod.fst) ∧
      Clustered parts (Sorting.sortBy frameKey spans) := by
  have hempty : Clustered [] [] := ⟨rfl, nofun, nofun, nofun, nofun, List.Pairwise.nil⟩
  obtain ⟨parts, hrun, hparts⟩ := hempty.run (Sorting.sortBy frameKey spans) (byMin_pairwise spans)
  refine ⟨parts, ?_, hparts⟩
  rw [clusterSpans, show ([] : List (Int × List FrameSpan)) = [].map spansOf from rfl, hrun,
    List.map_map, List.map_map]
  rfl

/-- The clusters hold the frames by their least timestamp, and each lies above the ones
before it. -/
theorem clusterSpans_spec (spans : List (FrameSpan × Int × Int)) :
    ∃ parts : List (List (FrameSpan × Int × Int)),
      clusterSpans spans = parts.map (List.map Prod.fst) ∧
      parts.flatten = Sorting.sortBy frameKey spans ∧ (∀ p ∈ parts, p ≠ []) ∧
      parts.Pairwise fun p q => ∀ a ∈ p, ∀ b ∈ q, Above a b := by
  obtain ⟨parts, heq, hparts⟩ := clusterSpans_clustered spans
  refine ⟨parts.map Prod.snd, heq, ?_, ?_, List.pairwise_map.mpr hparts.above⟩
  · rw [← List.flatMap_def, hparts.flat]
  · intro p hp
    obtain ⟨q, hq, rfl⟩ := List.mem_map.mp hp
    exact hparts.filled q hq

/-! ## The finest partition -/

/-- One span lies in time above another, by the times that come with them. -/
def AboveIn (spans : List (FrameSpan × Int × Int)) (a b : FrameSpan) : Prop :=
  ∀ x ∈ spans, ∀ y ∈ spans, x.1 = a → y.1 = b → Above x y

/-- Nonempty parts that hold each span once, each part above those before it. -/
structure SeparatedPartition (spans : List (FrameSpan × Int × Int))
    (parts : List (List FrameSpan)) : Prop where
  filled : ∀ p ∈ parts, p ≠ []
  once : parts.flatten.Perm (spans.map Prod.fst)
  separated : Separated.Parts (AboveIn spans) parts

variable {spans : List (FrameSpan × Int × Int)}

/-- A chain of frames by their least timestamp cannot be cut: the first frame above the
cut begins by the end of one below it. -/
theorem Chained.unsplit (h : Chained frames) (hmin : frames.Pairwise fun a b => a.2.1 ≤ b.2.1)
    (hsub : ∀ a ∈ frames, a ∈ spans) (hspan : ∀ a ∈ spans, a.2.1 ≤ a.2.2) :
    Separated.Unsplit (AboveIn spans) (frames.map Prod.fst) := by
  intro left right hperm hsep
  by_contra hboth
  obtain ⟨hleft, hright⟩ := not_or.mp hboth
  obtain ⟨l, hl⟩ := List.exists_mem_of_ne_nil left hleft
  obtain ⟨r, hr⟩ := List.exists_mem_of_ne_nil right hright
  obtain ⟨a, ha, rfl⟩ := List.mem_map.mp (hperm.mem_iff.mp (List.mem_append_left _ hl))
  obtain ⟨b, hb, rfl⟩ := List.mem_map.mp (hperm.mem_iff.mp (List.mem_append_right _ hr))
  cases hfind : frames.find? fun x => decide (x.1 ∈ right) with
  | none =>
    have hnone := List.find?_eq_none.mp hfind b hb
    exact hnone (decide_eq_true hr)
  | some y =>
    obtain ⟨hy, before, after, rfl, hbefore⟩ := List.find?_eq_some_iff_append.mp hfind
    have hyright : y.1 ∈ right := of_decide_eq_true hy
    have hyspan : y ∈ spans := hsub y (List.mem_append_right _ List.mem_cons_self)
    have habove : ∀ x ∈ spans, x.1 ∈ left → Above x y := fun x hx hxleft =>
      hsep x.1 hxleft y.1 hyright x hx y hyspan rfl rfl
    by_cases hnil : before = []
    · subst hnil
      have hay : a.2.2 < y.2.1 := habove a (hsub a ha) hl
      have hspan' := hspan a (hsub a ha)
      have hle : y.2.1 ≤ a.2.1 := by
        rcases List.mem_cons.mp ha with rfl | ha
        · exact le_rfl
        · exact (List.pairwise_cons.mp hmin).1 a ha
      omega
    · obtain ⟨x, hx, hnot⟩ := h before y after rfl hnil
      have hxframes : x ∈ before ++ y :: after := List.mem_append_left _ hx
      have hxleft : x.1 ∈ left := by
        have hmem := hperm.mem_iff.mpr (List.mem_map_of_mem (f := Prod.fst) hxframes)
        refine (List.mem_append.mp hmem).resolve_right fun hxright => ?_
        have hout := hbefore x hx
        rw [decide_eq_true hxright] at hout
        cases hout
      exact hnot (habove x (hsub x hxframes) hxleft)

/-- Clustering gives the finest partition of frames into parts one above the other: each
part is above those before it, no such partition has more parts, and no cluster can be
cut. -/
theorem clusterSpans_finest (spans : List (FrameSpan × Int × Int))
    (hspan : ∀ a ∈ spans, a.2.1 ≤ a.2.2) (hdistinct : (spans.map (·.1.frameIdx)).Nodup) :
    SeparatedPartition spans (clusterSpans spans) ∧
    (∀ parts, SeparatedPartition spans parts → parts.length ≤ (clusterSpans spans).length) ∧
    ∀ c ∈ clusterSpans spans, Separated.Unsplit (AboveIn spans) c := by
  obtain ⟨parts, heq, hparts⟩ := clusterSpans_clustered spans
  have hsub : ∀ q ∈ parts, ∀ a ∈ q.2, a ∈ spans := by
    intro q hq a ha
    have hmem : a ∈ parts.flatMap Prod.snd := List.mem_flatMap.mpr ⟨q, hq, ha⟩
    rw [hparts.flat] at hmem
    exact Sorting.mem_sortBy.mp hmem
  have honly : ∀ x ∈ spans, ∀ y ∈ spans, x.1 = y.1 → x = y := by
    intro x hx y hy hxy
    exact List.inj_on_of_nodup_map hdistinct hx hy (congrArg FrameSpan.frameIdx hxy)
  have hunsplit : ∀ c ∈ clusterSpans spans, Separated.Unsplit (AboveIn spans) c := by
    intro c hc
    rw [heq, List.map_map] at hc
    obtain ⟨q, hq, rfl⟩ := List.mem_map.mp hc
    refine (hparts.chained q hq).unsplit ?_ (hsub q hq) hspan
    have hsorted := byMin_pairwise spans
    rw [← hparts.flat] at hsorted
    exact (List.pairwise_flatMap.mp hsorted).1 q hq
  have hpartition : SeparatedPartition spans (clusterSpans spans) := by
    refine ⟨?_, ?_, ?_⟩
    · intro c hc
      rw [heq, List.map_map] at hc
      obtain ⟨q, hq, rfl⟩ := List.mem_map.mp hc
      exact fun hnil => hparts.filled q hq (List.map_eq_nil_iff.mp hnil)
    · rw [heq, ← List.map_flatten, ← List.flatMap_def, hparts.flat]
      exact (Sorting.sortBy_perm spans).map _
    · rw [heq, List.map_map]
      refine List.pairwise_map.mpr (hparts.above.imp_of_mem fun {p q} hp hq habove => ?_)
      intro a ha b hb x hx y hy hxa hyb
      obtain ⟨x', hx', rfl⟩ := List.mem_map.mp ha
      obtain ⟨y', hy', rfl⟩ := List.mem_map.mp hb
      rw [honly x hx x' (hsub p hp x' hx') hxa, honly y hy y' (hsub q hq y' hy') hyb]
      exact habove x' hx' y' hy'
  refine ⟨hpartition, fun finer hfiner => ?_, hunsplit⟩
  refine Separated.length_le_of_unsplit hfiner.filled hfiner.separated ?_ ?_ hunsplit
  · intro a
    exact (hfiner.once.trans hpartition.once.symm).mem_iff
  · intro a ha hself
    obtain ⟨x, hx, rfl⟩ := List.mem_map.mp (hfiner.once.mem_iff.mp ha)
    exact absurd (hself x hx x hx rfl rfl) (not_lt.mpr (hspan x hx))

/-- Two frames that overlap and one above them. -/
theorem clusterSpans_finest_three :
    SeparatedPartition [(⟨0, 0, 1, 1⟩, 10, 20), (⟨1, 1, 2, 1⟩, 15, 30), (⟨2, 2, 3, 1⟩, 40, 41)]
      (clusterSpans
        [(⟨0, 0, 1, 1⟩, 10, 20), (⟨1, 1, 2, 1⟩, 15, 30), (⟨2, 2, 3, 1⟩, 40, 41)]) :=
  (clusterSpans_finest [(⟨0, 0, 1, 1⟩, 10, 20), (⟨1, 1, 2, 1⟩, 15, 30), (⟨2, 2, 3, 1⟩, 40, 41)]
    (by decide) (by decide)).1

end S4Logs

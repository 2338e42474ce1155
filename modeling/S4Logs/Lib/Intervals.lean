import Mathlib.Order.Basic
import Mathlib.Data.Int.Order.Basic
import Mathlib.Data.List.Basic

/-!
# The gaps of a union of intervals

Half-open intervals of integers, in any order, cover a set of points. A gap between two
bounds is a maximal interval of points that are not covered. Where the intervals come by
their least point, the gaps are found by a scan that keeps the greatest end so far.
-/

namespace Intervals

/-- Some interval has the point. -/
def Covers (ws : List (Int × Int)) (t : Int) : Prop := ∃ w ∈ ws, w.1 ≤ t ∧ t < w.2

/-- No point of `[a, b)` is covered. -/
def Free (ws : List (Int × Int)) (a b : Int) : Prop := ∀ t, a ≤ t → t < b → ¬ Covers ws t

/-- A maximal interval between the bounds without a covered point. -/
structure IsGap (ws : List (Int × Int)) (lo hi a b : Int) : Prop where
  proper : a < b
  within : lo ≤ a ∧ b ≤ hi
  free : Free ws a b
  maximal : ∀ a' b', lo ≤ a' → b' ≤ hi → a' ≤ a → b ≤ b' → Free ws a' b' → a' = a ∧ b' = b

variable {ws done rest : List (Int × Int)} {lo hi a b reach : Int}

/-- A gap ends below at a bound or a covered point. -/
theorem IsGap.left (h : IsGap ws lo hi a b) : a = lo ∨ Covers ws (a - 1) := by
  by_contra hnot
  obtain ⟨hlo, hfree⟩ := not_or.mp hnot
  have hle := h.within.1
  have hwider := h.maximal (a - 1) b (by omega) h.within.2 (by omega) le_rfl (fun t ht htb => by
    by_cases heq : t = a - 1
    · rwa [heq]
    · exact h.free t (by omega) htb)
  omega

/-- A gap ends above at a bound or a covered point. -/
theorem IsGap.right (h : IsGap ws lo hi a b) : b = hi ∨ Covers ws b := by
  by_contra hnot
  obtain ⟨hhi, hfree⟩ := not_or.mp hnot
  have hle := h.within.2
  have hwider := h.maximal a (b + 1) h.within.1 (by omega) le_rfl (by omega) (fun t ht htb => by
    by_cases heq : t = b
    · rwa [heq]
    · exact h.free t ht (by omega))
  omega

/-- A free interval between two covered points is a gap. -/
theorem isGap_of_ends (hab : a < b) (hlo : lo ≤ a) (hhi : b ≤ hi) (hfree : Free ws a b)
    (hleft : Covers ws (a - 1)) (hright : Covers ws b) : IsGap ws lo hi a b where
  proper := hab
  within := ⟨hlo, hhi⟩
  free := hfree
  maximal a' b' _ _ ha hb hfree' := by
    constructor
    · by_contra hne
      exact hfree' (a - 1) (by omega) (by omega) hleft
    · by_contra hne
      exact hfree' b (by omega) (by omega) hright

/-! ## The scan -/

/-- The gaps after a point up to which all is scanned. -/
def gapsAfter : Int → List (Int × Int) → List (Int × Int)
  | _, [] => []
  | reach, w :: ws =>
    if reach < w.1 then (reach, w.1) :: gapsAfter (max reach w.2) ws
    else gapsAfter (max reach w.2) ws

/-- The intervals that are scanned, their greatest end, and those that are left. -/
structure Scanned (done rest : List (Int × Int)) (lo hi reach : Int) : Prop where
  proper : ∀ w ∈ done ++ rest, w.1 < w.2
  above : ∀ w ∈ done ++ rest, lo ≤ w.1
  below : ∀ w ∈ done ++ rest, w.2 ≤ hi
  bound : ∀ w ∈ done, w.2 ≤ reach
  attained : ∃ w ∈ done, w.2 = reach
  ordered : (done ++ rest).Pairwise fun v w => v.1 ≤ w.1

theorem Scanned.next {w : Int × Int} (h : Scanned done (w :: rest) lo hi reach) :
    Scanned (done ++ [w]) rest lo hi (max reach w.2) := by
  have happend : done ++ w :: rest = done ++ [w] ++ rest := by
    rw [List.append_assoc, List.singleton_append]
  refine ⟨happend ▸ h.proper, happend ▸ h.above, happend ▸ h.below, ?_, ?_, happend ▸ h.ordered⟩
  · intro v hv
    rcases List.mem_append.mp hv with hv | hv
    · exact (h.bound v hv).trans (le_max_left _ _)
    · rw [List.mem_singleton.mp hv]
      exact le_max_right _ _
  · obtain ⟨v, hv, hreach⟩ := h.attained
    rcases le_total reach w.2 with hle | hle
    · exact ⟨w, List.mem_append_right _ List.mem_cons_self, (max_eq_right hle).symm⟩
    · exact ⟨v, List.mem_append_left _ hv, hreach.trans (max_eq_left hle).symm⟩

/-- Between the greatest end and the next interval nothing is covered. -/
theorem Scanned.free {w : Int × Int} (h : Scanned done (w :: rest) lo hi reach) :
    Free (done ++ w :: rest) reach w.1 := by
  rintro t ht htw ⟨v, hv, hvt, htv⟩
  rcases List.mem_append.mp hv with hv | hv
  · have hle := h.bound v hv
    omega
  · have hle : w.1 ≤ v.1 := by
      rcases List.mem_cons.mp hv with rfl | hv
      · exact le_rfl
      · exact (List.pairwise_cons.mp (List.pairwise_append.mp h.ordered).2.1).1 v hv
    omega

/-- The scan finds the gaps that are left, and no others. -/
theorem Scanned.mem_gapsAfter (h : Scanned done rest lo hi reach)
    (hhi : ∃ w ∈ done ++ rest, w.2 = hi) :
    (a, b) ∈ gapsAfter reach rest ↔ IsGap (done ++ rest) lo hi a b ∧ reach ≤ a := by
  induction rest generalizing done reach with
  | nil =>
    refine ⟨nofun, fun ⟨hgap, hreach⟩ => ?_⟩
    obtain ⟨w, hw, rfl⟩ := hhi
    rw [List.append_nil] at hw
    have hle := h.bound w hw
    have hproper := hgap.proper
    have hwithin := hgap.within
    omega
  | cons w rest ih =>
    have happend : done ++ w :: rest = done ++ [w] ++ rest := by
      rw [List.append_assoc, List.singleton_append]
    have hw : w ∈ done ++ w :: rest := List.mem_append_right _ List.mem_cons_self
    have hproper := h.proper w hw
    have hcovered : ∀ t, w.1 ≤ t → t < w.2 → Covers (done ++ w :: rest) t :=
      fun t ht htw => ⟨w, hw, ht, htw⟩
    have hrest : (a, b) ∈ gapsAfter (max reach w.2) rest ↔
        IsGap (done ++ w :: rest) lo hi a b ∧ max reach w.2 ≤ a := by
      rw [happend]
      exact ih h.next (happend ▸ hhi)
    unfold gapsAfter
    by_cases hlt : reach < w.1
    · rw [if_pos hlt, List.mem_cons, hrest]
      -- the point below the gap is the last of the interval that ends there
      obtain ⟨v, hv, hreach⟩ := h.attained
      have hvmem : v ∈ done ++ w :: rest := List.mem_append_left _ hv
      have hvproper := h.proper v hvmem
      have hlo := h.above v hvmem
      have hlast : Covers (done ++ w :: rest) (reach - 1) := ⟨v, hvmem, by omega, by omega⟩
      constructor
      · rintro (heq | ⟨hgap, hle⟩)
        · obtain ⟨rfl, rfl⟩ := Prod.mk.inj heq
          have hwhi := h.below w hw
          exact ⟨isGap_of_ends hlt (by omega) (by omega) h.free hlast (hcovered _ le_rfl hproper),
            le_rfl⟩
        · exact ⟨hgap, (le_max_left _ _).trans hle⟩
      · rintro ⟨hgap, hle⟩
        by_cases hafter : max reach w.2 ≤ a
        · exact .inr ⟨hgap, hafter⟩
        · left
          have haw : a < w.1 := by
            by_contra hnot
            exact hgap.free a le_rfl hgap.proper (hcovered a (by omega) (by omega))
          have ha : a = reach := by
            by_contra hne
            rcases hgap.left with hlow | hcov
            · omega
            · exact h.free (a - 1) (by omega) (by omega) hcov
          have hbw : b ≤ w.1 := by
            by_contra hnot
            exact hgap.free w.1 (by omega) (by omega) (hcovered _ le_rfl hproper)
          have hb : b = w.1 := by
            by_contra hne
            have hgapProper := hgap.proper
            rcases hgap.right with hhigh | hcov
            · have hwhi := h.below w hw
              omega
            · exact h.free b (by omega) (by omega) hcov
          rw [ha, hb]
    · rw [if_neg hlt, hrest]
      refine and_congr_right fun hgap => ⟨(le_max_left _ _).trans, fun hle => max_le hle ?_⟩
      by_contra hnot
      exact hgap.free a le_rfl hgap.proper (hcovered a (by omega) (by omega))

/-- The scan finds each gap once. -/
theorem gapsAfter_nodup (hproper : ∀ w ∈ rest, w.1 < w.2) :
    (gapsAfter reach rest).Nodup ∧ ∀ g ∈ gapsAfter reach rest, reach ≤ g.1 := by
  induction rest generalizing reach with
  | nil => exact ⟨List.nodup_nil, nofun⟩
  | cons w rest ih =>
    obtain ⟨hnodup, hreach⟩ : (gapsAfter (max reach w.2) rest).Nodup ∧
        ∀ g ∈ gapsAfter (max reach w.2) rest, max reach w.2 ≤ g.1 :=
      ih fun v hv => hproper v (List.mem_cons_of_mem _ hv)
    have hw := hproper w List.mem_cons_self
    have hlow : ∀ g ∈ gapsAfter (max reach w.2) rest, reach ≤ g.1 :=
      fun g hg => (le_max_left _ _).trans (hreach g hg)
    unfold gapsAfter
    split
    next hlt =>
      refine ⟨List.nodup_cons.mpr ⟨fun hmem => ?_, hnodup⟩, fun g hg => ?_⟩
      · have hle := (le_max_right _ _).trans (hreach _ hmem)
        dsimp only at hle
        omega
      · rcases List.mem_cons.mp hg with rfl | hg
        · exact le_rfl
        · exact hlow g hg
    next => exact ⟨hnodup, hlow⟩

/-- The gaps of intervals that come by their least point are those of the scan. -/
theorem mem_gapsAfter_head {w : Int × Int} (hproper : ∀ v ∈ w :: ws, v.1 < v.2)
    (hordered : (w :: ws).Pairwise fun u v => u.1 ≤ v.1) (hhi : ∃ v ∈ w :: ws, v.2 = hi)
    (hbelow : ∀ v ∈ w :: ws, v.2 ≤ hi) :
    (a, b) ∈ gapsAfter w.2 ws ↔ IsGap (w :: ws) w.1 hi a b := by
  have hscan : Scanned [w] ws w.1 hi w.2 := by
    refine ⟨hproper, fun v hv => ?_, hbelow, fun v hv => ?_, ⟨w, List.mem_cons_self, rfl⟩, hordered⟩
    · rcases List.mem_cons.mp hv with rfl | hv
      · exact le_rfl
      · exact (List.pairwise_cons.mp hordered).1 v hv
    · rw [List.mem_singleton.mp hv]
  refine (hscan.mem_gapsAfter hhi).trans ⟨And.left, fun hgap => ⟨hgap, ?_⟩⟩
  -- a gap begins at no point of the first interval
  by_contra hnot
  exact hgap.free a le_rfl hgap.proper ⟨w, List.mem_cons_self, hgap.within.1, by omega⟩

/-! ## Members alone -/

theorem covers_congr {ws' : List (Int × Int)} (h : ∀ w, w ∈ ws ↔ w ∈ ws') (t : Int) :
    Covers ws t ↔ Covers ws' t := by
  constructor
  · rintro ⟨w, hw, hwt⟩
    exact ⟨w, (h w).mp hw, hwt⟩
  · rintro ⟨w, hw, hwt⟩
    exact ⟨w, (h w).mpr hw, hwt⟩

/-- The gaps of a union do not depend on the order. -/
theorem IsGap.congr {ws' : List (Int × Int)} (h : ∀ w, w ∈ ws ↔ w ∈ ws')
    (hgap : IsGap ws lo hi a b) : IsGap ws' lo hi a b where
  proper := hgap.proper
  within := hgap.within
  free t ha hb := mt (covers_congr h t).mpr (hgap.free t ha hb)
  maximal a' b' hlo hhi ha hb hfree :=
    hgap.maximal a' b' hlo hhi ha hb fun t ht htb => mt (covers_congr h t).mp (hfree t ht htb)

end Intervals

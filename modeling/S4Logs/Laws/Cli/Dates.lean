import S4Logs.Cli.Scan
import S4Logs.Laws.Core.Dates
import S4Logs.Laws.Core.Keys

/-!
# The partitions of a range

The labels of a range are those of its days. A day that `chrono` does not represent has the
label of the epoch, so labels repeat where the range has two such days, or one and the
epoch (`EpochOnce` is that it has not). Elsewhere each partition is listed once, and so is
each object in it.
-/

namespace S4Logs

variable {fromMs toMs : Int}

/-! ## Days -/

/-- The days that a range touches. -/
def daysInRange (fromMs toMs : Int) : List Int :=
  (List.range ((toMs - 1) / dayMs + 1 - fromMs / dayMs).toNat).map fun i => fromMs / dayMs + (i : Nat)

theorem daysInRange_nodup (fromMs toMs : Int) : (daysInRange fromMs toMs).Nodup := by
  refine List.nodup_range.map fun i j h => ?_
  have hcast := Int.add_left_cancel h
  exact Int.ofNat_inj.mp hcast

/-- They are the days of its timestamps. -/
theorem mem_daysInRange (h : fromMs < toMs) {day : Int} :
    day ∈ daysInRange fromMs toMs ↔ ∃ t, fromMs ≤ t ∧ t < toMs ∧ t / dayMs = day := by
  have hmem : day ∈ daysInRange fromMs toMs ↔
      fromMs / dayMs ≤ day ∧ day ≤ (toMs - 1) / dayMs := by
    unfold daysInRange
    rw [List.mem_map]
    constructor
    · rintro ⟨i, hi, rfl⟩
      have hlt := List.mem_range.mp hi
      omega
    · rintro ⟨hlo, hhi⟩
      exact ⟨(day - fromMs / dayMs).toNat, List.mem_range.mpr (by omega), by omega⟩
  rw [hmem]
  simp only [dayMs]
  constructor
  · rintro ⟨hlo, hhi⟩
    exact ⟨max fromMs (day * 86400000), by omega, by omega, by omega⟩
  · rintro ⟨t, hlo, hhi, rfl⟩
    omega

/-- The day whose label a day has. -/
def shownDay (day : Int) : Int := if -96465292 ≤ day ∧ day ≤ 95026236 then day else 0

theorem labelledDay_eq (tsMs : Int) : labelledDay tsMs = shownDay (tsMs / dayMs) := by
  unfold labelledDay shownDay
  by_cases h : Representable tsMs
  · rw [if_pos h, if_pos ((representable_iff tsMs).mp h)]
  · rw [if_neg h, if_neg (mt (representable_iff tsMs).mpr h)]

/-- A multiplication that stops at the end of `i64` stops beyond what is represented. -/
theorem labelledDay_saturatingMul (day : Int) :
    labelledDay (saturatingMul day dayMs) = shownDay day := by
  have hday : (-96465292 ≤ day ∧ day ≤ 95026236 → saturatingMul day dayMs / dayMs = day) ∧
      (-96465292 ≤ saturatingMul day dayMs / dayMs ∧ saturatingMul day dayMs / dayMs ≤ 95026236 →
        saturatingMul day dayMs / dayMs = day) := by
    simp only [saturatingMul, dayMs, i64Min, i64Max]
    omega
  rw [labelledDay_eq]
  unfold shownDay
  by_cases h : -96465292 ≤ day ∧ day ≤ 95026236
  · rw [hday.1 h]
  · rw [if_neg h, if_neg fun h' => h (hday.2 h' ▸ h')]

/-- The labels of a range are those of its days. -/
theorem datesInRange_eq (h : fromMs < toMs) : datesInRange fromMs toMs =
    (daysInRange fromMs toMs).map fun day => dayLabel (shownDay day) := by
  unfold datesInRange daysInRange
  rw [if_neg (Int.not_le.mpr h), List.map_map]
  refine List.map_congr_left fun i _ => ?_
  rw [dateFromTsMs_eq, labelledDay_saturatingMul]
  rfl

theorem mem_datesInRange (h : fromMs < toMs) {label : String} :
    label ∈ datesInRange fromMs toMs ↔
      ∃ t, fromMs ≤ t ∧ t < toMs ∧ label = dateFromTsMs t := by
  rw [datesInRange_eq h, List.mem_map]
  constructor
  · rintro ⟨day, hday, rfl⟩
    obtain ⟨t, hlo, hhi, rfl⟩ := (mem_daysInRange h).mp hday
    exact ⟨t, hlo, hhi, by rw [dateFromTsMs_eq, labelledDay_eq]⟩
  · rintro ⟨t, hlo, hhi, rfl⟩
    exact ⟨t / dayMs, (mem_daysInRange h).mpr ⟨t, hlo, hhi, rfl⟩,
      by rw [dateFromTsMs_eq, labelledDay_eq]⟩

/-! ## Labels that repeat -/

/-- Of the days of the range that `chrono` does not represent and the day of the epoch, the
range has one at most. -/
def EpochOnce (fromMs toMs : Int) : Prop :=
  ∀ t t', fromMs ≤ t → t < toMs → fromMs ≤ t' → t' < toMs →
    ¬ Representable t → ¬ Representable t' ∨ t' / dayMs = 0 → t / dayMs = t' / dayMs

/-- No two days of the range have one label. -/
theorem epochOnce_iff (h : fromMs < toMs) : EpochOnce fromMs toMs ↔
    ∀ d ∈ daysInRange fromMs toMs, ∀ d' ∈ daysInRange fromMs toMs,
      shownDay d = shownDay d' → d = d' := by
  constructor
  · intro honce d hd d' hd' heq
    obtain ⟨t, hlo, hhi, rfl⟩ := (mem_daysInRange h).mp hd
    obtain ⟨t', hlo', hhi', rfl⟩ := (mem_daysInRange h).mp hd'
    have hshown : ∀ s, shownDay (s / dayMs) = if Representable s then s / dayMs else 0 :=
      fun s => (labelledDay_eq s).symm
    rw [hshown, hshown] at heq
    by_cases hrep : Representable t
    · by_cases hrep' : Representable t'
      · rwa [if_pos hrep, if_pos hrep'] at heq
      · rw [if_pos hrep, if_neg hrep'] at heq
        exact (honce t' t hlo' hhi' hlo hhi hrep' (.inr heq)).symm
    · by_cases hrep' : Representable t'
      · rw [if_neg hrep, if_pos hrep'] at heq
        exact honce t t' hlo hhi hlo' hhi' hrep (.inr heq.symm)
      · exact honce t t' hlo hhi hlo' hhi' hrep (.inl hrep')
  · intro hinj t t' hlo hhi hlo' hhi' hrep hepoch
    refine hinj _ ((mem_daysInRange h).mpr ⟨t, hlo, hhi, rfl⟩) _
      ((mem_daysInRange h).mpr ⟨t', hlo', hhi', rfl⟩) ?_
    rw [← labelledDay_eq, ← labelledDay_eq, labelledDay, if_neg hrep, labelledDay]
    split
    next hrep' => exact (hepoch.resolve_left (not_not_intro hrep')).symm
    next => rfl

theorem EpochOnce.nodup (h : fromMs < toMs) (honce : EpochOnce fromMs toMs) :
    (datesInRange fromMs toMs).Nodup := by
  rw [datesInRange_eq h]
  refine List.Nodup.map_on (fun d hd d' hd' heq => ?_) (daysInRange_nodup fromMs toMs)
  exact (epochOnce_iff h).mp honce d hd d' hd' (dayLabel_injective heq)

/-- Each label of the range is listed once, and no other. -/
def ListedOnce (fromMs toMs : Int) : Prop :=
  (∀ t, fromMs ≤ t → t < toMs → (datesInRange fromMs toMs).count (dateFromTsMs t) = 1) ∧
    ∀ label ∈ datesInRange fromMs toMs, ∃ t, fromMs ≤ t ∧ t < toMs ∧ label = dateFromTsMs t

theorem listedOnce_iff (h : fromMs < toMs) : ListedOnce fromMs toMs ↔ EpochOnce fromMs toMs := by
  constructor
  · rintro ⟨hcount, -⟩
    rw [epochOnce_iff h]
    intro d hd d' hd' heq
    obtain ⟨t, hlo, hhi, rfl⟩ := (mem_daysInRange h).mp hd
    have hone := hcount t hlo hhi
    rw [datesInRange_eq h, List.count, List.countP_map, List.countP_eq_length_filter] at hone
    obtain ⟨x, hx⟩ := List.length_eq_one_iff.mp hone
    have hin : ∀ day ∈ daysInRange fromMs toMs, shownDay day = shownDay (t / dayMs) → day = x := by
      intro day hday hshown
      have hmem : day ∈ (daysInRange fromMs toMs).filter
          ((fun label => label == dateFromTsMs t) ∘ fun day => dayLabel (shownDay day)) := by
        rw [List.mem_filter, Function.comp_apply, beq_iff_eq, dateFromTsMs_eq, labelledDay_eq,
          hshown]
        exact ⟨hday, rfl⟩
      rw [hx] at hmem
      exact List.mem_singleton.mp hmem
    exact (hin _ hd rfl).trans (hin d' hd' heq.symm).symm
  · intro honce
    refine ⟨fun t hlo hhi => ?_, fun label hlabel => (mem_datesInRange h).mp hlabel⟩
    exact List.count_eq_one_of_mem (honce.nodup h) ((mem_datesInRange h).mpr ⟨t, hlo, hhi, rfl⟩)

end S4Logs

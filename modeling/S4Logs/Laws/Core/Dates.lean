import S4Logs.Core.Layout
import Mathlib.Tactic.Linarith

/-!
# Dates tell days apart

A timestamp that `chrono` represents has the date of its day, and no other day has
that date. All others have the date of the epoch.
-/

namespace S4Logs

/-! ## The calendar -/

/-- The days of the years before a year of the era leave a day of that year. -/
theorem dayOfYear_bounds {doe leap century last yoe quad cent : Int} (h₀ : 0 ≤ doe)
    (h₁ : doe ≤ 146096) (hleap : doe / 1460 = leap) (hcentury : doe / 36524 = century)
    (hlast : doe / 146096 = last) (hyoe : (doe - leap + century - last) / 365 = yoe)
    (hquad : yoe / 4 = quad) (hcent : yoe / 100 = cent) :
    0 ≤ doe - (365 * yoe + quad - cent) ∧ doe - (365 * yoe + quad - cent) ≤ 365 := by
  have hcenturies : century = 0 ∨ century = 1 ∨ century = 2 ∨ century = 3 ∨ century = 4 := by omega
  have hcents : cent = 0 ∨ cent = 1 ∨ cent = 2 ∨ cent = 3 := by omega
  have hlasts : last = 0 ∨ last = 1 := by omega
  rcases hlasts with rfl | rfl <;> rcases hcenturies with rfl | rfl | rfl | rfl | rfl <;>
    rcases hcents with rfl | rfl | rfl | rfl <;> omega

/-- The day a date names. -/
def dayOfCivil (date : Int × Int × Int) : Int :=
  let (y, m, d) := date
  let y := if m ≤ 2 then y - 1 else y
  let era := y / 400
  let yoe := y - era * 400
  let mp := if m ≤ 2 then m + 9 else m - 3
  let doy := (153 * mp + 2) / 5 + d - 1
  era * 146097 + (yoe * 365 + yoe / 4 - yoe / 100 + doy) - 719468

/-- The date of a day names it, and has the month and the day in two digits. -/
theorem civilFromDays_spec (days : Int) :
    dayOfCivil (civilFromDays days) = days ∧
      (0 ≤ (civilFromDays days).2.1 ∧ (civilFromDays days).2.1 < 100) ∧
      0 ≤ (civilFromDays days).2.2 ∧ (civilFromDays days).2.2 < 100 := by
  unfold civilFromDays
  dsimp only
  generalize hz : days + 719468 = z
  generalize hera : z / 146097 = era
  generalize hdoe : z - era * 146097 = doe
  have hdoe₀ : 0 ≤ doe := by omega
  have hdoe₁ : doe ≤ 146096 := by omega
  generalize hyoe : (doe - doe / 1460 + doe / 36524 - doe / 146096) / 365 = yoe
  have hyoe₀ : 0 ≤ yoe := by omega
  have hyoe₁ : yoe ≤ 399 := by omega
  obtain ⟨hdoy₀, hdoy₁⟩ := dayOfYear_bounds hdoe₀ hdoe₁ rfl rfl rfl hyoe rfl rfl
  generalize hdoy : doe - (365 * yoe + yoe / 4 - yoe / 100) = doy at hdoy₀ hdoy₁ ⊢
  clear hyoe
  unfold dayOfCivil
  dsimp only
  by_cases hmp : (5 * doy + 2) / 153 < 10
  · rw [if_pos hmp]
    have hm : ¬ (5 * doy + 2) / 153 + 3 ≤ 2 := by omega
    rw [if_neg hm, if_neg hm, if_neg hm]
    have hyear : (yoe + era * 400) / 400 = era := by omega
    rw [hyear]
    refine ⟨?_, by omega, by omega⟩
    have hsub : yoe + era * 400 - era * 400 = yoe := by omega
    rw [hsub]
    omega
  · rw [if_neg hmp]
    have hm : (5 * doy + 2) / 153 - 9 ≤ 2 := by omega
    rw [if_pos hm, if_pos hm, if_pos hm]
    have hyear : (yoe + era * 400 + 1 - 1) / 400 = era := by omega
    rw [hyear]
    refine ⟨?_, by omega, by omega⟩
    have hsub : yoe + era * 400 + 1 - 1 - era * 400 = yoe := by omega
    rw [hsub]
    omega

/-! ## The text of a date -/

/-- A year in its text: a sign where it is not of four digits. -/
theorem toList_formatYear (y : Int) : (formatYear y).toList =
    if 0 ≤ y ∧ y < 10000 then Text.padded 4 y.natAbs
    else (if y < 0 then '-' else '+') :: Text.padded 4 y.natAbs := by
  unfold formatYear
  by_cases h : 0 ≤ y ∧ y < 10000
  · rw [if_pos h, if_pos h, String.toList_ofList]
    congr 1
    omega
  · rw [if_neg h, if_neg h]
    by_cases hneg : y < 0
    · rw [if_pos hneg, if_pos hneg]
      simp only [String.toList_append, String.toList_ofList]
      rfl
    · rw [if_neg hneg, if_neg hneg]
      simp only [String.toList_append, String.toList_ofList]
      rfl

theorem formatYear_injective {y y' : Int} (h : formatYear y = formatYear y') : y = y' := by
  have hlist := congrArg String.toList h
  rw [toList_formatYear, toList_formatYear] at hlist
  -- a digit is no sign
  have hsign : ∀ (c : Char) (n : Nat) (cs : List Char), c.isDigit = false →
      Text.padded 4 n ≠ c :: cs := by
    intro c n cs hc heq
    exact Text.notMem_padded hc 4 n (heq ▸ List.mem_cons_self)
  have hdigits : ∀ {m n : Nat}, Text.padded 4 m = Text.padded 4 n → m = n := Text.padded_injective
  by_cases hy : 0 ≤ y ∧ y < 10000
  · rw [if_pos hy] at hlist
    by_cases hy' : 0 ≤ y' ∧ y' < 10000
    · rw [if_pos hy'] at hlist
      have := hdigits hlist
      omega
    · rw [if_neg hy'] at hlist
      exact absurd hlist (hsign _ _ _ (by split <;> decide))
  · rw [if_neg hy] at hlist
    by_cases hy' : 0 ≤ y' ∧ y' < 10000
    · rw [if_pos hy'] at hlist
      exact absurd hlist.symm (hsign _ _ _ (by split <;> decide))
    · rw [if_neg hy'] at hlist
      obtain ⟨hc, hds⟩ := List.cons.inj hlist
      have habs := hdigits hds
      by_cases hneg : y < 0 <;> by_cases hneg' : y' < 0
      · omega
      · rw [if_pos hneg, if_neg hneg'] at hc
        exact absurd hc (by decide)
      · rw [if_neg hneg, if_pos hneg'] at hc
        exact absurd hc (by decide)
      · omega

/-- The text of the date of a day. -/
def dayLabel (days : Int) : String :=
  formatYear (civilFromDays days).1 ++ "-" ++
    String.ofList (Text.padded 2 (civilFromDays days).2.1.toNat) ++ "-" ++
    String.ofList (Text.padded 2 (civilFromDays days).2.2.toNat)

theorem toList_dayLabel (days : Int) : (dayLabel days).toList =
    ((formatYear (civilFromDays days).1).toList ++
      '-' :: Text.padded 2 (civilFromDays days).2.1.toNat) ++
        '-' :: Text.padded 2 (civilFromDays days).2.2.toNat := by
  have hdash : "-".toList = ['-'] := rfl
  simp only [dayLabel, String.toList_append, String.toList_ofList, hdash, List.append_assoc,
    List.cons_append, List.nil_append]

/-- No two days have one date. -/
theorem dayLabel_injective {days days' : Int} (h : dayLabel days = dayLabel days') :
    days = days' := by
  obtain ⟨hday, hm, hd⟩ := civilFromDays_spec days
  obtain ⟨hday', hm', hd'⟩ := civilFromDays_spec days'
  have hdash : ∀ n, '-' ∉ Text.padded 2 n := Text.notMem_padded (by decide) 2
  have hlist := congrArg String.toList h
  rw [toList_dayLabel, toList_dayLabel] at hlist
  obtain ⟨hfront, hback⟩ := Text.append_cons_inj_last (hdash _) (hdash _) hlist
  obtain ⟨hyear, hmonth⟩ := Text.append_cons_inj_last (hdash _) (hdash _) hfront
  have h₁ := formatYear_injective (String.toList_inj.mp hyear)
  have h₂ := Text.padded_injective hmonth
  have h₃ := Text.padded_injective hback
  rw [← hday, ← hday']
  refine congrArg dayOfCivil (Prod.ext h₁ (Prod.ext ?_ ?_))
  · omega
  · omega

theorem slash_notMem_dayLabel (days : Int) : '/' ∉ (dayLabel days).toList := by
  have hpadded : ∀ width n, '/' ∉ Text.padded width n := Text.notMem_padded (by decide)
  rw [toList_dayLabel, toList_formatYear]
  intro h
  simp only [List.mem_append, List.mem_cons, hpadded, or_false] at h
  rcases h with (h | h) | h
  · split at h
    · exact hpadded _ _ h
    · rcases List.mem_cons.mp h with h | h
      · split at h <;> exact absurd h (by decide)
      · exact hpadded _ _ h
  · exact absurd h (by decide)
  · exact absurd h (by decide)

/-! ## The date of a timestamp -/

/-- `chrono` represents the timestamp. -/
def Representable (tsMs : Int) : Prop := chronoMinMs ≤ tsMs ∧ tsMs ≤ chronoMaxMs

instance Representable.decidable (tsMs : Int) : Decidable (Representable tsMs) :=
  inferInstanceAs (Decidable (_ ∧ _))

/-- The day that the date of a timestamp names: its own, or the epoch. -/
def labelledDay (tsMs : Int) : Int := if Representable tsMs then tsMs / dayMs else 0

theorem dateFromTsMs_eq (tsMs : Int) : dateFromTsMs tsMs = dayLabel (labelledDay tsMs) := by
  unfold dateFromTsMs labelledDay
  by_cases h : Representable tsMs
  · have hin : chronoMinMs ≤ tsMs ∧ tsMs ≤ chronoMaxMs := h
    rw [if_pos h]
    simp only [if_pos hin]
    rfl
  · have hout : ¬ (chronoMinMs ≤ tsMs ∧ tsMs ≤ chronoMaxMs) := h
    rw [if_neg h]
    simp only [if_neg hout]
    rfl

/-- Two timestamps have one date where they name one day. -/
theorem dateFromTsMs_eq_iff {tsMs tsMs' : Int} :
    dateFromTsMs tsMs = dateFromTsMs tsMs' ↔ labelledDay tsMs = labelledDay tsMs' := by
  rw [dateFromTsMs_eq, dateFromTsMs_eq]
  exact ⟨dayLabel_injective, congrArg dayLabel⟩

/-- The range of `chrono` begins and ends with a day. -/
theorem representable_iff (tsMs : Int) :
    Representable tsMs ↔ -96465292 ≤ tsMs / dayMs ∧ tsMs / dayMs ≤ 95026236 := by
  unfold Representable
  simp only [chronoMinMs, chronoMaxMs, dayMs]
  omega

/-- Timestamps of one day have one date. -/
theorem labelledDay_congr {tsMs tsMs' : Int} (h : tsMs / dayMs = tsMs' / dayMs) :
    labelledDay tsMs = labelledDay tsMs' := by
  have hiff : Representable tsMs ↔ Representable tsMs' := by
    rw [representable_iff, representable_iff, h]
  unfold labelledDay
  by_cases hrep : Representable tsMs
  · rw [if_pos hrep, if_pos (hiff.mp hrep), h]
  · rw [if_neg hrep, if_neg (mt hiff.mpr hrep)]

theorem slash_notMem_date (tsMs : Int) : '/' ∉ (dateFromTsMs tsMs).toList := by
  rw [dateFromTsMs_eq]
  exact slash_notMem_dayLabel _

end S4Logs

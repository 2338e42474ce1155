import S4Logs.Gateway.Auth
import S4Logs.Lib.Calendar

/-!
# Civil dates

`daysFromCivil` counts years from March, so that the leap day ends a year, and months by a
table that is a division. It is 0 at the epoch and grows by one from each day of the calendar
to the next, in any year: it counts days.
-/

namespace S4Logs

open Calendar (leapYear leapYear_iff leapYear_natCast daysOf daysOf_natCast yearLength
  daysBeforeYear daysBeforeMonth dayNumber daysBeforeYear_succ daysBeforeMonth_succ)

/-- The days before a year that begins in March. -/
def marchDays (z : Int) : Int := 365 * z + z / 4 - z / 100 + z / 400

theorem daysFromCivil_eq (y m d : Int) : daysFromCivil y m d =
    marchDays (if m ≤ 2 then y - 1 else y) + (153 * ((m + 9) % 12) + 2) / 5 + d - 1 - 719468 := by
  unfold daysFromCivil marchDays
  dsimp only
  generalize (if m ≤ 2 then y - 1 else y) = z
  have hquad : (z - z / 400 * 400) / 4 = z / 4 - z / 400 * 100 := by omega
  have hcent : (z - z / 400 * 400) / 100 = z / 100 - z / 400 * 4 := by omega
  rw [hquad, hcent]
  omega

/-- A year from March has the leap day of the year it ends in. -/
theorem marchDays_pred (y : Int) :
    marchDays y = marchDays (y - 1) + if leapYear y then 366 else 365 := by
  have hleap := leapYear_iff y
  unfold marchDays
  by_cases h : leapYear y = true
  · have hdiv := hleap.mp h
    rw [if_pos h]
    omega
  · have hdiv := mt hleap.mpr h
    rw [if_neg h]
    omega

/-- A day on in the same month. -/
theorem daysFromCivil_nextDay (y m d : Int) :
    daysFromCivil y m (d + 1) = daysFromCivil y m d + 1 := by
  rw [daysFromCivil_eq, daysFromCivil_eq]
  omega

/-- A month on from its first day is a month's length. -/
theorem daysFromCivil_nextMonth (y : Int) {m : Nat} (hm : 1 ≤ m) (hm' : m < 12) :
    daysFromCivil y (m + 1 : Nat) 1 = daysFromCivil y m 1 + daysOf y m := by
  have hyear := marchDays_pred y
  rw [daysFromCivil_eq, daysFromCivil_eq]
  unfold daysOf
  by_cases h2 : m = 2
  · subst h2
    rw [if_pos rfl, if_neg (by omega), if_pos (by omega)]
    by_cases hleap : leapYear y = true
    · rw [if_pos hleap] at hyear ⊢
      omega
    · rw [if_neg hleap] at hyear ⊢
      omega
  · have hmonth : m = 1 ∨ m = 3 ∨ m = 4 ∨ m = 5 ∨ m = 6 ∨ m = 7 ∨ m = 8 ∨ m = 9 ∨ m = 10 ∨
        m = 11 := by omega
    have hsame : ((m + 1 : Nat) : Int) ≤ 2 ↔ (m : Int) ≤ 2 := by omega
    rw [if_neg h2]
    simp only [hsame]
    generalize marchDays _ = before
    rcases hmonth with rfl | rfl | rfl | rfl | rfl | rfl | rfl | rfl | rfl | rfl <;>
      split <;> omega

/-- A year on from its last month. -/
theorem daysFromCivil_nextYear (y : Int) :
    daysFromCivil (y + 1) 1 1 = daysFromCivil y 12 1 + 31 := by
  have hback : y + 1 - 1 = y := by omega
  rw [daysFromCivil_eq, daysFromCivil_eq, if_pos (by omega), if_neg (by omega), hback]
  omega

/-- The first of January, a year on. -/
theorem daysFromCivil_january_succ (y : Int) :
    daysFromCivil (y + 1) 1 1 = daysFromCivil y 1 1 + if leapYear y then 366 else 365 := by
  have hyear := marchDays_pred y
  have hback : y + 1 - 1 = y := by omega
  rw [daysFromCivil_eq, daysFromCivil_eq, if_pos (by omega), if_pos (by omega), hback]
  omega

/-- The days from the epoch of a date of the calendar, as the code counts them. -/
def civilDays (d : Calendar.Date) : Int := daysFromCivil d.year d.month d.day

theorem civilDays_counts : Calendar.Counts civilDays where
  epoch := rfl
  next {d} hd := by
    have hmonth := hd.month
    have hday := hd.day
    obtain ⟨y, m, day⟩ := d
    dsimp only at hmonth hday
    -- the date counts on from the first day of its month
    have hfirst : ∀ k : Nat, daysFromCivil y m k = daysFromCivil y m 1 + (k - 1) := by
      intro k
      rw [daysFromCivil_eq, daysFromCivil_eq]
      omega
    unfold Calendar.Date.next
    dsimp only
    split
    next => exact daysFromCivil_nextDay y m day
    next hlast =>
      obtain rfl : day = daysOf y m := Nat.le_antisymm hday.2 (Nat.le_of_not_lt hlast)
      split
      next hshort =>
        show daysFromCivil y (m + 1 : Nat) 1 = daysFromCivil y m (daysOf y m : Nat) + 1
        rw [daysFromCivil_nextMonth y hmonth.1 hshort, hfirst]
        omega
      next hlong =>
        obtain rfl : m = 12 := Nat.le_antisymm hmonth.2 (Nat.le_of_not_lt hlong)
        show daysFromCivil (y + 1) 1 1 = daysFromCivil y 12 (daysOf y 12 : Nat) + 1
        have hdecember : daysOf y 12 = 31 := rfl
        have htwelfth : daysFromCivil y 12 (31 : Nat) = daysFromCivil y 12 1 + (31 - 1) := hfirst 31
        rw [daysFromCivil_nextYear, hdecember, htwelfth]
        omega

/-- On dates of the calendar, of any year, the closed form is a count of days: 0 at the
epoch, one more from each day to the next, so that no two days have the same. It is the
number of days from the epoch, or to the epoch with a minus. -/
theorem daysFromCivil_counts :
    daysFromCivil 1970 1 1 = 0 ∧
    (∀ d : Calendar.Date, d.Valid → civilDays d.next = civilDays d + 1) ∧
    (∀ d d' : Calendar.Date, d.Valid → d'.Valid → civilDays d = civilDays d' → d = d') ∧
    ∀ d : Calendar.Date, d.Valid →
      (∃ n : Nat, Calendar.Date.next^[n] Calendar.epoch = d ∧ civilDays d = n) ∨
        ∃ n : Nat, Calendar.Date.next^[n] d = Calendar.epoch ∧ civilDays d = -n :=
  ⟨rfl, fun _ => civilDays_counts.next, fun _ _ => civilDays_counts.injective,
    fun _ => civilDays_counts.reached⟩

/-- The last day of February of the year 0, which leaps. -/
theorem daysFromCivil_counts_leap : civilDays ⟨0, 3, 1⟩ = civilDays ⟨0, 2, 29⟩ + 1 :=
  daysFromCivil_counts.2.1 ⟨0, 2, 29⟩ ⟨by decide, by decide⟩

/-! ## From 1970 on -/

theorem daysFromCivil_january {y : Nat} (hy : 1970 ≤ y) :
    daysFromCivil y 1 1 = daysBeforeYear y := by
  induction y, hy using Nat.le_induction with
  | base => rfl
  | succ y hy ih =>
    have hcast : ((y + 1 : Nat) : Int) = (y : Int) + 1 := by omega
    rw [hcast, daysFromCivil_january_succ, ih, leapYear_natCast, daysBeforeYear_succ hy, yearLength]
    split <;> omega

theorem daysFromCivil_firstOfMonth {y m : Nat} (hy : 1970 ≤ y) (hm : 1 ≤ m) (hm' : m ≤ 12) :
    daysFromCivil y m 1 = daysBeforeYear y + daysBeforeMonth y m := by
  induction m, hm using Nat.le_induction with
  | base =>
    have hnone : daysBeforeMonth y 1 = 0 := rfl
    have hjanuary : daysFromCivil y (1 : Nat) 1 = daysBeforeYear y := daysFromCivil_january hy
    omega
  | succ m hm ih =>
    rw [daysFromCivil_nextMonth y hm (by omega), ih (by omega), daysBeforeMonth_succ y hm,
      daysOf_natCast]
    omega

/-- The code counts the days of the calendar. -/
theorem daysFromCivil_dayNumber {y m d : Nat} (hy : 1970 ≤ y) (hm : 1 ≤ m) (hm' : m ≤ 12)
    (hd : 1 ≤ d) : daysFromCivil y m d = dayNumber y m d := by
  have hfirst := daysFromCivil_firstOfMonth hy hm hm'
  rw [daysFromCivil_eq] at hfirst ⊢
  unfold dayNumber
  omega

end S4Logs

import Mathlib.Algebra.BigOperators.Group.List.Basic
import Mathlib.Algebra.Order.Ring.Nat
import Mathlib.Data.Int.Order.Basic
import Mathlib.Logic.Function.Iterate
import Mathlib.Order.Monotone.Basic

/-!
# The Gregorian calendar

Years, months and days counted one after the other from the first of January 1970. The
number of a day is how many days come before it: whole years, whole months of its year, and
the days of its month.

Carried back before its first year, the calendar has a day after each day (`Date.next`). A
count of days is 0 at the epoch and grows by one from each day to the next (`Counts`): there
is one count only, it tells days apart (`Counts.injective`), and it is the number of steps
from the epoch or to it (`Counts.reached`).
-/

namespace Calendar

def isLeap (y : Nat) : Bool := y % 4 == 0 && (y % 100 != 0 || y % 400 == 0)

def yearLength (y : Nat) : Nat := if isLeap y then 366 else 365

/-- The days of a month from 1 to 12. -/
def monthLength (y m : Nat) : Nat :=
  if m = 2 then if isLeap y then 29 else 28
  else if m = 4 ∨ m = 6 ∨ m = 9 ∨ m = 11 then 30
  else 31

/-- The calendar has that day. -/
structure IsDate (y m d : Nat) : Prop where
  month : 1 ≤ m ∧ m ≤ 12
  day : 1 ≤ d ∧ d ≤ monthLength y m

/-- The days of the years from 1970 before a year. -/
def daysBeforeYear (y : Nat) : Nat :=
  ((List.range (y - 1970)).map fun k => yearLength (1970 + k)).sum

/-- The days of the months before a month. -/
def daysBeforeMonth (y m : Nat) : Nat :=
  ((List.range (m - 1)).map fun k => monthLength y (k + 1)).sum

/-- The days from the first of January 1970 to a day not before it. -/
def dayNumber (y m d : Nat) : Nat := daysBeforeYear y + daysBeforeMonth y m + (d - 1)

theorem isLeap_iff (y : Nat) : isLeap y = true ↔ y % 4 = 0 ∧ (y % 100 ≠ 0 ∨ y % 400 = 0) := by
  unfold isLeap
  rw [Bool.and_eq_true, Bool.or_eq_true, beq_iff_eq, bne_iff_ne, beq_iff_eq]

theorem daysBeforeYear_succ {y : Nat} (h : 1970 ≤ y) :
    daysBeforeYear (y + 1) = daysBeforeYear y + yearLength y := by
  have hsub : y + 1 - 1970 = y - 1970 + 1 := by omega
  have hyear : 1970 + (y - 1970) = y := by omega
  unfold daysBeforeYear
  rw [hsub, List.range_succ, List.map_append, List.sum_append, List.map_singleton,
    List.sum_singleton, hyear]

theorem daysBeforeMonth_succ (y : Nat) {m : Nat} (h : 1 ≤ m) :
    daysBeforeMonth y (m + 1) = daysBeforeMonth y m + monthLength y m := by
  have hsub : m + 1 - 1 = m - 1 + 1 := by omega
  have hmonth : m - 1 + 1 = m := by omega
  unfold daysBeforeMonth
  rw [hsub, List.range_succ, List.map_append, List.sum_append, List.map_singleton,
    List.sum_singleton, hmonth]

theorem monthLength_le (y m : Nat) : monthLength y m ≤ 31 := by
  unfold monthLength
  split
  · split <;> omega
  · split <;> omega

/-! ## Days of any year -/

/-- The leap years, before the first year as well. -/
def leapYear (y : Int) : Bool := y % 4 == 0 && (y % 100 != 0 || y % 400 == 0)

/-- The days of a month from 1 to 12 of any year. -/
def daysOf (y : Int) (m : Nat) : Nat :=
  if m = 2 then if leapYear y then 29 else 28
  else if m = 4 ∨ m = 6 ∨ m = 9 ∨ m = 11 then 30
  else 31

theorem leapYear_iff (y : Int) :
    leapYear y = true ↔ y % 4 = 0 ∧ (y % 100 ≠ 0 ∨ y % 400 = 0) := by
  unfold leapYear
  rw [Bool.and_eq_true, Bool.or_eq_true, beq_iff_eq, bne_iff_ne, beq_iff_eq]

theorem leapYear_natCast (y : Nat) : leapYear y = isLeap y := by
  rw [Bool.eq_iff_iff, leapYear_iff, isLeap_iff]
  omega

theorem daysOf_natCast (y m : Nat) : daysOf y m = monthLength y m := by
  unfold daysOf monthLength
  rw [leapYear_natCast]

theorem daysOf_pos (y : Int) (m : Nat) : 0 < daysOf y m := by
  unfold daysOf
  split
  · split <;> omega
  · split <;> omega

structure Date where
  year : Int
  month : Nat
  day : Nat
deriving DecidableEq

namespace Date

/-- The calendar has that day. -/
structure Valid (d : Date) : Prop where
  month : 1 ≤ d.month ∧ d.month ≤ 12
  day : 1 ≤ d.day ∧ d.day ≤ daysOf d.year d.month

/-- The day after. -/
def next (d : Date) : Date :=
  if d.day < daysOf d.year d.month then ⟨d.year, d.month, d.day + 1⟩
  else if d.month < 12 then ⟨d.year, d.month + 1, 1⟩
  else ⟨d.year + 1, 1, 1⟩

/-- The first day of a month, by the number of the month from January of the year 0. -/
def ofMonth (k : Int) : Date := ⟨k / 12, (k % 12).toNat + 1, 1⟩

/-- The number of the month. -/
def monthNumber (d : Date) : Int := 12 * d.year + (d.month - 1)

theorem Valid.next {d : Date} (h : d.Valid) : d.next.Valid := by
  have hmonth := h.month
  unfold Date.next
  split
  next hday => exact ⟨hmonth, Nat.succ_pos _, hday⟩
  next =>
    split
    next hlast => exact ⟨⟨Nat.succ_pos _, hlast⟩, Nat.le_refl 1, daysOf_pos _ _⟩
    next => exact ⟨⟨Nat.le_refl 1, Nat.le_of_ble_eq_true rfl⟩, Nat.le_refl 1, daysOf_pos _ _⟩

theorem ofMonth_valid (k : Int) : (ofMonth k).Valid := by
  refine ⟨?_, Nat.le_refl 1, daysOf_pos _ _⟩
  unfold ofMonth
  dsimp only
  omega

theorem Valid.ofMonth_monthNumber {d : Date} (h : d.Valid) :
    ofMonth d.monthNumber = ⟨d.year, d.month, 1⟩ := by
  have hmonth := h.month
  have hyear : d.monthNumber / 12 = d.year := by
    unfold monthNumber
    omega
  have hrest : (d.monthNumber % 12).toNat + 1 = d.month := by
    unfold monthNumber
    omega
  rw [ofMonth, hyear, hrest]

/-- After the last day of a month comes the first day of the next. -/
theorem next_last (k : Int) :
    next ⟨(ofMonth k).year, (ofMonth k).month, daysOf (ofMonth k).year (ofMonth k).month⟩ =
      ofMonth (k + 1) := by
  unfold next
  rw [if_neg (Nat.lt_irrefl _)]
  unfold ofMonth
  dsimp only
  split
  next hmonth =>
    have hyear : (k + 1) / 12 = k / 12 := by omega
    have hrest : ((k + 1) % 12).toNat = (k % 12).toNat + 1 := by omega
    rw [hyear, hrest]
  next hmonth =>
    have hyear : (k + 1) / 12 = k / 12 + 1 := by omega
    have hrest : ((k + 1) % 12).toNat = 0 := by omega
    rw [hyear, hrest]

end Date

/-- The first of January 1970. -/
def epoch : Date := ⟨1970, 1, 1⟩

theorem epoch_valid : epoch.Valid := ⟨by decide, by decide⟩

/-! ## Counting days -/

/-- A count of the days from the epoch. -/
structure Counts (f : Date → Int) : Prop where
  epoch : f epoch = 0
  next : ∀ {d : Date}, d.Valid → f d.next = f d + 1

namespace Counts

variable {f : Date → Int} {d d' : Date}

/-- Inside a month the count goes on from its first day. -/
theorem inMonth (h : Counts f) (hd : d.Valid) :
    f d = f (.ofMonth d.monthNumber) + (d.day - 1) := by
  rw [hd.ofMonth_monthNumber]
  obtain ⟨y, m, day⟩ := d
  obtain ⟨hmonth, hday, hlast⟩ := hd
  dsimp only at *
  induction day, hday using Nat.le_induction with
  | base => omega
  | succ day hday ih =>
    have hnext : Date.next ⟨y, m, day⟩ = ⟨y, m, day + 1⟩ := if_pos hlast
    have hstep := h.next (d := ⟨y, m, day⟩) ⟨hmonth, hday, Nat.le_of_lt hlast⟩
    rw [hnext] at hstep
    have hbefore := ih (Nat.le_of_lt hlast)
    omega

/-- A month on, the count has grown by the days of the month. -/
theorem nextMonth (h : Counts f) (k : Int) : f (.ofMonth (k + 1)) =
    f (.ofMonth k) + daysOf (Date.ofMonth k).year (Date.ofMonth k).month := by
  have hmonth := Date.ofMonth_valid k
  have hpos := daysOf_pos (Date.ofMonth k).year (Date.ofMonth k).month
  have hlast : Date.Valid ⟨(Date.ofMonth k).year, (Date.ofMonth k).month,
      daysOf (Date.ofMonth k).year (Date.ofMonth k).month⟩ :=
    ⟨hmonth.month, hpos, Nat.le_refl _⟩
  have hnumber : Date.monthNumber ⟨(Date.ofMonth k).year, (Date.ofMonth k).month,
      daysOf (Date.ofMonth k).year (Date.ofMonth k).month⟩ = k := by
    unfold Date.monthNumber Date.ofMonth
    dsimp only
    omega
  have hin := h.inMonth hlast
  have hstep := h.next hlast
  rw [hnumber] at hin
  rw [Date.next_last] at hstep
  dsimp only at hin
  omega

/-- The first day of a month comes before that of a later month. -/
theorem ofMonth_lt (h : Counts f) {k l : Int} (hlt : k < l) : f (.ofMonth k) < f (.ofMonth l) := by
  have hstep : ∀ k, f (.ofMonth k) < f (.ofMonth (k + 1)) := by
    intro k
    have hnext := h.nextMonth k
    have hpos := daysOf_pos (Date.ofMonth k).year (Date.ofMonth k).month
    omega
  exact strictMono_int_of_lt_succ hstep hlt

theorem ofMonth_le (h : Counts f) {k l : Int} (hle : k ≤ l) : f (.ofMonth k) ≤ f (.ofMonth l) := by
  rcases Int.lt_or_eq_of_le hle with hlt | rfl
  · exact Int.le_of_lt (h.ofMonth_lt hlt)
  · exact Int.le_refl _

/-- A day comes before every day of a later month. -/
theorem lt_of_month (h : Counts f) (hd : d.Valid) (hd' : d'.Valid)
    (hlt : d.monthNumber < d'.monthNumber) : f d < f d' := by
  have hin := h.inMonth hd
  have hin' := h.inMonth hd'
  have hnext := h.nextMonth d.monthNumber
  rw [hd.ofMonth_monthNumber] at hnext hin
  have hday := hd.day
  have hday' := hd'.day
  have hmono : f (.ofMonth (d.monthNumber + 1)) ≤ f (.ofMonth d'.monthNumber) :=
    h.ofMonth_le hlt
  dsimp only at hnext
  omega

/-- A count tells days apart. -/
theorem injective (h : Counts f) (hd : d.Valid) (hd' : d'.Valid) (heq : f d = f d') : d = d' := by
  rcases lt_trichotomy d.monthNumber d'.monthNumber with hlt | hsame | hlt
  · exact absurd heq (ne_of_lt (h.lt_of_month hd hd' hlt))
  · have hin := h.inMonth hd
    have hin' := h.inMonth hd'
    rw [hsame] at hin
    have hmonth := hd.month
    have hmonth' := hd'.month
    obtain ⟨y, m, day⟩ := d
    obtain ⟨y', m', day'⟩ := d'
    unfold Date.monthNumber at hsame
    dsimp only at hsame hmonth hmonth' hin hin'
    obtain rfl : y = y' := by omega
    obtain rfl : m = m' := by omega
    obtain rfl : day = day' := by omega
    rfl
  · exact absurd heq.symm (ne_of_lt (h.lt_of_month hd' hd hlt))

theorem iterate (h : Counts f) (hd : d.Valid) (n : Nat) :
    (Date.next^[n] d).Valid ∧ f (Date.next^[n] d) = f d + n := by
  induction n with
  | zero => exact ⟨hd, (Int.add_zero _).symm⟩
  | succ n ih =>
    rw [Function.iterate_succ_apply']
    refine ⟨ih.1.next, ?_⟩
    rw [h.next ih.1, ih.2]
    omega

/-- The count of a day is the number of steps from the epoch to it, or from it to the epoch
with a minus. -/
theorem reached (h : Counts f) (hd : d.Valid) :
    (∃ n : Nat, Date.next^[n] Calendar.epoch = d ∧ f d = n) ∨
      ∃ n : Nat, Date.next^[n] d = Calendar.epoch ∧ f d = -n := by
  rcases Int.le_total 0 (f d) with hle | hle
  · obtain ⟨n, hn⟩ := Int.eq_ofNat_of_zero_le hle
    obtain ⟨hvalid, hcount⟩ := h.iterate epoch_valid n
    refine .inl ⟨n, h.injective hvalid hd ?_, hn⟩
    rw [hcount, h.epoch, hn, Int.zero_add]
  · obtain ⟨n, hn⟩ := Int.eq_ofNat_of_zero_le (Int.neg_nonneg_of_nonpos hle)
    obtain ⟨hvalid, hcount⟩ := h.iterate hd n
    refine .inr ⟨n, h.injective hvalid epoch_valid ?_, by omega⟩
    rw [hcount, h.epoch]
    omega

end Counts

end Calendar

import Mathlib.Data.Nat.Notation
import Mathlib.Tactic.IntervalCases

/-!
# The Gregorian calendar

The calendar as it is defined, by the lengths of its months and the leap years, with days
counted one month and one year after the other. `marchDay` is the closed form in which the
year starts in March.
-/

namespace Calendar

def isLeap (y : Nat) : Bool := y % 4 == 0 && (y % 100 != 0 || y % 400 == 0)

def daysInMonth (y : Nat) : Nat → Nat
  | 1 => 31
  | 2 => if isLeap y then 29 else 28
  | 3 => 31
  | 4 => 30
  | 5 => 31
  | 6 => 30
  | 7 => 31
  | 8 => 31
  | 9 => 30
  | 10 => 31
  | 11 => 30
  | 12 => 31
  | _ => 0

/-- The days of the months before a month of the year. -/
def daysBeforeMonth (y : Nat) : Nat → Nat
  | 0 => 0
  | m + 1 => daysBeforeMonth y m + daysInMonth y m

/-- The days of the years before a year, from year zero on. -/
def daysBeforeYear : Nat → Nat
  | 0 => 0
  | y + 1 => daysBeforeYear y + daysBeforeMonth y 13

/-- The days between the first day of year zero and a date. -/
def dayNumber (y m d : Nat) : Nat := daysBeforeYear y + daysBeforeMonth y m + (d - 1)

/-- A date that exists and a time of the day, whose last minute may have a leap second. -/
structure Moment where
  year : Nat
  month : Nat
  day : Nat
  hour : Nat
  minute : Nat
  second : Nat
  month_mem : 1 ≤ month ∧ month ≤ 12
  day_mem : 1 ≤ day ∧ day ≤ daysInMonth year month
  time_le : hour ≤ 23 ∧ minute ≤ 59 ∧ second ≤ 60

/-- The seconds since the start of 1970. -/
def Moment.unix (t : Moment) : Int :=
  ((dayNumber t.year t.month t.day : Int) - dayNumber 1970 1 1) * 86400 +
    t.hour * 3600 + t.minute * 60 + t.second

/-! ## Closed forms -/

theorem daysInMonth_le (y m : Nat) : daysInMonth y m ≤ 31 := by
  unfold daysInMonth
  split <;> first | decide | (split <;> decide)

theorem isLeap_iff (y : Nat) : isLeap y = true ↔ y % 4 = 0 ∧ (y % 100 ≠ 0 ∨ y % 400 = 0) := by
  simp [isLeap]

theorem daysBeforeMonth_thirteen (y : Nat) :
    daysBeforeMonth y 13 = if isLeap y then 366 else 365 := by
  simp only [daysBeforeMonth, daysInMonth]
  split <;> rfl

theorem daysBeforeYear_eq (y : Nat) :
    daysBeforeYear y + (y + 99) / 100 = 365 * y + (y + 3) / 4 + (y + 399) / 400 := by
  induction y with
  | zero => rfl
  | succ y ih =>
    rw [daysBeforeYear, daysBeforeMonth_thirteen]
    split
    · next hleap =>
      have hy := (isLeap_iff y).mp hleap
      omega
    · next hleap =>
      have hy := mt (isLeap_iff y).mpr hleap
      omega

theorem dayNumber_epoch : dayNumber 1970 1 1 = 719528 := by
  have hbefore := daysBeforeYear_eq 1970
  have hmonth : daysBeforeMonth 1970 1 = 0 := rfl
  rw [dayNumber, hmonth]
  omega

/-- The days before a month in a year that starts in March: thirty-one and thirty in turn,
over five months. -/
def marchDay (m : Nat) : Nat := (153 * (if m > 2 then m - 3 else m + 9) + 2) / 5

theorem daysBeforeMonth_early (y : Nat) {m : Nat} (h : 1 ≤ m ∧ m ≤ 2) :
    daysBeforeMonth y m + 306 = marchDay m := by
  obtain ⟨hlow, hhigh⟩ := h
  interval_cases m <;> simp [daysBeforeMonth, daysInMonth, marchDay]

theorem daysBeforeMonth_late (y : Nat) {m : Nat} (h : 3 ≤ m ∧ m ≤ 12) :
    daysBeforeMonth y m = marchDay m + 59 + if isLeap y then 1 else 0 := by
  obtain ⟨hlow, hhigh⟩ := h
  interval_cases m <;> simp only [daysBeforeMonth, daysInMonth] <;> split <;> rfl

/-- From March on the day of the year does not depend on the leap day; January and February
belong to the year before. -/
theorem dayNumber_eq {y m d : Nat} (hm : 1 ≤ m ∧ m ≤ 12) (hd : 1 ≤ d) (hy : 1 ≤ y ∨ 3 ≤ m)
    {y' : Nat} (hy' : y' = if m ≤ 2 then y - 1 else y) :
    dayNumber y m d + y' / 100 + 1 = 365 * y' + y' / 4 + y' / 400 + marchDay m + d + 60 := by
  have hbefore := daysBeforeYear_eq y
  rw [dayNumber]
  split at hy'
  · next hearly =>
    have hmonth := daysBeforeMonth_early y ⟨hm.1, hearly⟩
    omega
  · next hlate =>
    have hmonth := daysBeforeMonth_late y (m := m) ⟨by omega, hm.2⟩
    split at hmonth
    · next hleap =>
      have hleap := (isLeap_iff y).mp hleap
      omega
    · next hleap =>
      have hleap := mt (isLeap_iff y).mpr hleap
      omega

theorem daysBeforeMonth_le (y : Nat) {m : Nat} (h : 1 ≤ m ∧ m ≤ 12) : daysBeforeMonth y m ≤ 335 := by
  obtain hearly | hlate := Nat.lt_or_ge 2 m
  · have hmonth := daysBeforeMonth_late y (m := m) ⟨hearly, h.2⟩
    unfold marchDay at hmonth
    split at hmonth <;> split at hmonth <;> omega
  · have hmonth := daysBeforeMonth_early y ⟨h.1, hlate⟩
    unfold marchDay at hmonth
    split at hmonth <;> omega

/-- The years of four digits have fewer than four million days. -/
theorem dayNumber_lt {y m d : Nat} (hy : y ≤ 9999) (hm : 1 ≤ m ∧ m ≤ 12) (hd : d ≤ 31) :
    dayNumber y m d < 4000000 := by
  have hbefore := daysBeforeYear_eq y
  have hmonth := daysBeforeMonth_le y hm
  rw [dayNumber]
  omega

theorem daysBeforeYear_mono {y z : Nat} (h : y ≤ z) : daysBeforeYear y ≤ daysBeforeYear z := by
  induction h with
  | refl => exact Nat.le_refl _
  | step _ ih => exact Nat.le_add_right_of_le ih

/-- No date of a later year comes before the first day of a year. -/
theorem dayNumber_first_le {y z : Nat} (h : y ≤ z) (m d : Nat) : dayNumber y 1 1 ≤ dayNumber z m d := by
  have hyears := daysBeforeYear_mono h
  have hmonth : daysBeforeMonth y 1 = 0 := rfl
  rw [dayNumber, dayNumber, hmonth]
  omega

end Calendar

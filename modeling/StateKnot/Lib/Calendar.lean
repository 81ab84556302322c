import Mathlib.Algebra.Order.Ring.Int
import Mathlib.Tactic.SplitIfs

/-!
# The proleptic Gregorian calendar

Dates are counted in days from the first of January of the year zero.  The count is
strictly monotone in year, month and day, and every day has a date.
-/

namespace Lib

/-! ## Years and months -/

def isLeap (year : Int) : Bool := year % 4 == 0 && (year % 100 != 0 || year % 400 == 0)

/-- The days before a year. -/
def daysBeforeYear (year : Int) : Int :=
  365 * year + (year + 3) / 4 - (year + 99) / 100 + (year + 399) / 400

def daysInYear (leap : Bool) : Nat := if leap then 366 else 365

theorem isLeap_iff {year : Int} :
    isLeap year = true ↔ year % 4 = 0 ∧ (year % 100 ≠ 0 ∨ year % 400 = 0) := by
  simp [isLeap]

theorem daysBeforeYear_succ (year : Int) :
    daysBeforeYear (year + 1) = daysBeforeYear year + daysInYear (isLeap year) := by
  unfold daysBeforeYear daysInYear
  by_cases hleap : isLeap year = true
  · have hyear := isLeap_iff.mp hleap
    rw [if_pos hleap]
    omega
  · have hyear : ¬(year % 4 = 0 ∧ (year % 100 ≠ 0 ∨ year % 400 = 0)) :=
      fun h => hleap (isLeap_iff.mpr h)
    rw [if_neg hleap]
    omega

theorem daysBeforeYear_mono {a b : Int} (h : a ≤ b) : daysBeforeYear a ≤ daysBeforeYear b := by
  unfold daysBeforeYear
  omega

def daysInMonth (leap : Bool) : Nat → Nat
  | 1 | 3 | 5 | 7 | 8 | 10 | 12 => 31
  | 4 | 6 | 9 | 11 => 30
  | 2 => if leap then 29 else 28
  | _ => 0

/-- The days of a year before a month. -/
def daysBeforeMonth (leap : Bool) : Nat → Nat
  | 0 => 0
  | month + 1 => daysBeforeMonth leap month + daysInMonth leap month

theorem daysBeforeMonth_mono {leap : Bool} {a b : Nat} (h : a ≤ b) :
    daysBeforeMonth leap a ≤ daysBeforeMonth leap b := by
  induction h with
  | refl => exact Nat.le_refl _
  | step _ ih => exact Nat.le_trans ih (Nat.le_add_right _ _)

theorem daysBeforeMonth_thirteen (leap : Bool) : daysBeforeMonth leap 13 = daysInYear leap := by
  cases leap <;> rfl

theorem daysBeforeMonth_one (leap : Bool) : daysBeforeMonth leap 1 = 0 := by
  cases leap <;> rfl

/-! ## Dates -/

/-- A month of the year and a day of the month. -/
structure ValidDate (year : Int) (month day : Nat) : Prop where
  month_pos : 1 ≤ month
  month_le : month ≤ 12
  day_pos : 1 ≤ day
  day_le : day ≤ daysInMonth (isLeap year) month

instance (year : Int) (month day : Nat) : Decidable (ValidDate year month day) :=
  decidable_of_iff (1 ≤ month ∧ month ≤ 12 ∧ 1 ≤ day ∧ day ≤ daysInMonth (isLeap year) month)
    ⟨fun h => ⟨h.1, h.2.1, h.2.2.1, h.2.2.2⟩,
      fun h => ⟨h.month_pos, h.month_le, h.day_pos, h.day_le⟩⟩

/-- The days before a date. -/
def dayNumber (year : Int) (month day : Nat) : Int :=
  daysBeforeYear year + daysBeforeMonth (isLeap year) month + day - 1

namespace ValidDate

variable {year year' : Int} {month month' day day' : Nat}

theorem day_in_month (h : ValidDate year month day) :
    daysBeforeYear year + daysBeforeMonth (isLeap year) month ≤ dayNumber year month day ∧
      dayNumber year month day <
        daysBeforeYear year + daysBeforeMonth (isLeap year) (month + 1) := by
  have hpos := h.day_pos
  have hle := h.day_le
  unfold dayNumber
  rw [daysBeforeMonth]
  omega

theorem day_in_year (h : ValidDate year month day) :
    daysBeforeYear year ≤ dayNumber year month day ∧
      dayNumber year month day < daysBeforeYear (year + 1) := by
  obtain ⟨hlow, hhigh⟩ := h.day_in_month
  have hmonths : daysBeforeMonth (isLeap year) (month + 1) ≤ daysBeforeMonth (isLeap year) 13 :=
    daysBeforeMonth_mono (Nat.succ_le_succ h.month_le)
  rw [daysBeforeMonth_thirteen] at hmonths
  rw [daysBeforeYear_succ]
  omega

theorem dayNumber_lt_iff (h : ValidDate year month day) (h' : ValidDate year' month' day') :
    dayNumber year month day < dayNumber year' month' day' ↔
      year < year' ∨ year = year' ∧ (month < month' ∨ month = month' ∧ day < day') := by
  -- an earlier year, or an earlier month of the same year, ends before the later one begins
  have hyear : ∀ {a b : Int} {m n d e : Nat}, ValidDate a m d → ValidDate b n e → a < b →
      dayNumber a m d < dayNumber b n e := by
    intro a b m n d e ha hb hab
    have hmono : daysBeforeYear (a + 1) ≤ daysBeforeYear b := daysBeforeYear_mono (by omega)
    have hbefore := ha.day_in_year.2
    have hafter := hb.day_in_year.1
    omega
  have hmonth : ∀ {a : Int} {m n d e : Nat}, ValidDate a m d → ValidDate a n e → m < n →
      dayNumber a m d < dayNumber a n e := by
    intro a m n d e hm hn hmn
    have hmono : daysBeforeMonth (isLeap a) (m + 1) ≤ daysBeforeMonth (isLeap a) n :=
      daysBeforeMonth_mono hmn
    have hbefore := hm.day_in_month.2
    have hafter := hn.day_in_month.1
    omega
  rcases lt_trichotomy year year' with hlt | heq | hgt
  · simp only [hlt, true_or, iff_true]
    exact hyear h h' hlt
  · subst heq
    simp only [lt_irrefl, true_and, false_or]
    rcases lt_trichotomy month month' with hlt | heq | hgt
    · simp only [hlt, true_or, iff_true]
      exact hmonth h h' hlt
    · subst heq
      unfold dayNumber
      omega
    · have hback := hmonth h' h hgt
      omega
  · have hback := hyear h' h hgt
    omega

end ValidDate

/-! ## The date of a day -/

/-- The year of a day: the quotient by the mean length of a year is off by at most one. -/
def yearOf (day : Int) : Int :=
  let guess := 400 * day / 146097
  if day < daysBeforeYear guess then guess - 1
  else if daysBeforeYear (guess + 1) ≤ day then guess + 1
  else guess

theorem yearOf_spec (day : Int) :
    daysBeforeYear (yearOf day) ≤ day ∧ day < daysBeforeYear (yearOf day + 1) := by
  unfold yearOf
  dsimp only
  split_ifs with hearlier hlater
  · rw [Int.sub_add_cancel]
    refine ⟨?_, hearlier⟩
    unfold daysBeforeYear
    omega
  · refine ⟨hlater, ?_⟩
    unfold daysBeforeYear
    omega
  · exact ⟨Int.not_lt.mp hearlier, Int.not_le.mp hlater⟩

/-- The last month, up to a bound, that begins at or before a day of the year. -/
def lastMonth (leap : Bool) (dayOfYear : Nat) : Nat → Nat
  | 0 => 0
  | month + 1 =>
    if daysBeforeMonth leap (month + 1) ≤ dayOfYear then month + 1
    else lastMonth leap dayOfYear month

theorem lastMonth_spec {leap : Bool} {dayOfYear bound : Nat}
    (h : dayOfYear < daysBeforeMonth leap (bound + 1)) :
    lastMonth leap dayOfYear bound ≤ bound ∧
      daysBeforeMonth leap (lastMonth leap dayOfYear bound) ≤ dayOfYear ∧
      dayOfYear < daysBeforeMonth leap (lastMonth leap dayOfYear bound + 1) := by
  induction bound with
  | zero => exact ⟨Nat.le_refl 0, Nat.zero_le _, h⟩
  | succ bound ih =>
    rw [lastMonth]
    split_ifs with hbegins
    · exact ⟨Nat.le_refl _, hbegins, h⟩
    · obtain ⟨hbound, hspec⟩ := ih (Nat.lt_of_not_le hbegins)
      exact ⟨Nat.le_succ_of_le hbound, hspec⟩

/-- The date of a day. -/
def dateOf (day : Int) : Int × Nat × Nat :=
  let year := yearOf day
  let dayOfYear := (day - daysBeforeYear year).toNat
  let month := lastMonth (isLeap year) dayOfYear 12
  (year, month, dayOfYear - daysBeforeMonth (isLeap year) month + 1)

theorem dateOf_spec (day : Int) :
    ValidDate (dateOf day).1 (dateOf day).2.1 (dateOf day).2.2 ∧
      dayNumber (dateOf day).1 (dateOf day).2.1 (dateOf day).2.2 = day := by
  obtain ⟨hlow, hhigh⟩ := yearOf_spec day
  rw [daysBeforeYear_succ] at hhigh
  simp only [dateOf]
  generalize hyear : yearOf day = year at *
  obtain ⟨rest, hrest⟩ : ∃ rest : Nat, day = daysBeforeYear year + rest :=
    ⟨(day - daysBeforeYear year).toNat, by omega⟩
  have hdays : (day - daysBeforeYear year).toNat = rest := by omega
  rw [hdays]
  have hinside : rest < daysBeforeMonth (isLeap year) (12 + 1) := by
    rw [daysBeforeMonth_thirteen]
    omega
  obtain ⟨hmonth, hbegin, hend⟩ := lastMonth_spec hinside
  generalize lastMonth (isLeap year) rest 12 = month at *
  have hpos : 1 ≤ month := by
    rcases Nat.eq_zero_or_pos month with hzero | hpos
    · rw [hzero] at hend
      rw [Nat.zero_add, daysBeforeMonth_one] at hend
      omega
    · exact hpos
  rw [daysBeforeMonth] at hend
  refine ⟨⟨hpos, hmonth, by omega, by omega⟩, ?_⟩
  unfold dayNumber
  omega

end Lib

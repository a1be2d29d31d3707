import Mathlib.Algebra.BigOperators.Group.Finset.Basic
import Mathlib.Tactic.IntervalCases

/-!
# The Gregorian calendar

The number of a date is how many days there are between it and the first day of 1970, counted by
years, months and days.  Every number from zero on is that of a date.  With the year begun in March
there is a formula for it, since then a leap day is the last of its year.
-/

namespace EigenOS.Calendar

structure Date where
  year : ℤ
  month : ℤ
  day : ℤ
  deriving DecidableEq

def IsLeap (year : ℤ) : Prop := year % 4 = 0 ∧ year % 100 ≠ 0 ∨ year % 400 = 0

instance : DecidablePred IsLeap := fun _ => inferInstanceAs (Decidable (_ ∨ _))

def yearLength (year : ℤ) : ℤ := if IsLeap year then 366 else 365

def monthLength (year month : ℤ) : ℤ :=
  if month = 2 then if IsLeap year then 29 else 28
  else if month = 4 ∨ month = 6 ∨ month = 9 ∨ month = 11 then 30
  else 31

/-- A date of the calendar from 1970 on. -/
structure Date.Valid (date : Date) : Prop where
  year : 1970 ≤ date.year
  month : 1 ≤ date.month ∧ date.month ≤ 12
  day : 1 ≤ date.day ∧ date.day ≤ monthLength date.year date.month

def daysOfYears (years : ℕ) : ℤ := ∑ year ∈ Finset.range years, yearLength (1970 + year)

def daysOfMonths (year : ℤ) (months : ℕ) : ℤ :=
  ∑ month ∈ Finset.range months, monthLength year (month + 1)

def dayNumber (date : Date) : ℤ :=
  daysOfYears (date.year - 1970).toNat + daysOfMonths date.year (date.month - 1).toNat +
    (date.day - 1)

/-! ## Every number is that of a date -/

theorem daysOfMonths_twelve (year : ℤ) : daysOfMonths year 12 = yearLength year := by
  unfold daysOfMonths monthLength yearLength
  by_cases hleap : IsLeap year
  · simp only [if_pos hleap]
    rfl
  · simp only [if_neg hleap]
    rfl

def Date.next (date : Date) : Date :=
  if date.day < monthLength date.year date.month then { date with day := date.day + 1 }
  else if date.month < 12 then ⟨date.year, date.month + 1, 1⟩
  else ⟨date.year + 1, 1, 1⟩

theorem monthLength_pos (year month : ℤ) : 1 ≤ monthLength year month := by
  unfold monthLength
  split_ifs <;> decide

theorem Date.Valid.next {date : Date} (h : date.Valid) : date.next.Valid := by
  have hmonth := h.month
  have hday := h.day
  rw [Date.next]
  split_ifs with hlast hyear
  · exact ⟨h.year, hmonth, by dsimp only; omega, by dsimp only; omega⟩
  · exact ⟨h.year, ⟨by dsimp only; omega, hyear⟩, Int.le_refl 1, monthLength_pos _ _⟩
  · exact ⟨Int.le_add_one h.year, ⟨Int.le_refl 1, (by decide : (1 : ℤ) ≤ 12)⟩, Int.le_refl 1,
      monthLength_pos _ _⟩

theorem dayNumber_next {date : Date} (h : date.Valid) :
    dayNumber date.next = dayNumber date + 1 := by
  have hyear := h.year
  have hmonth := h.month
  have hday := h.day
  rw [Date.next]
  split_ifs with hlast hdecember
  · unfold dayNumber
    dsimp only
    omega
  · have hmonths : (date.month + 1 - 1).toNat = (date.month - 1).toNat + 1 := by omega
    have hcast : (((date.month - 1).toNat : ℕ) : ℤ) + 1 = date.month := by omega
    have hsum : daysOfMonths date.year ((date.month - 1).toNat + 1) =
        daysOfMonths date.year (date.month - 1).toNat + monthLength date.year date.month := by
      rw [daysOfMonths, Finset.sum_range_succ, hcast, daysOfMonths]
    unfold dayNumber
    dsimp only
    rw [hmonths, hsum]
    omega
  · have hyears : (date.year + 1 - 1970).toNat = (date.year - 1970).toNat + 1 := by omega
    have hcast : 1970 + (((date.year - 1970).toNat : ℕ) : ℤ) = date.year := by omega
    have heleven : (date.month - 1).toNat = 11 := by omega
    have hsum : daysOfYears ((date.year - 1970).toNat + 1) =
        daysOfYears (date.year - 1970).toNat + yearLength date.year := by
      rw [daysOfYears, Finset.sum_range_succ, hcast, daysOfYears]
    have htwelve : daysOfMonths date.year 12 =
        daysOfMonths date.year 11 + monthLength date.year 12 := by
      rw [daysOfMonths, Finset.sum_range_succ, daysOfMonths]
      norm_num
    have hfirst : daysOfMonths (date.year + 1) (1 - 1 : ℤ).toNat = 0 := rfl
    have hmonth12 : date.month = 12 := by omega
    rw [daysOfMonths_twelve] at htwelve
    rw [hmonth12] at hlast hday
    unfold dayNumber
    dsimp only
    rw [hyears, hsum, heleven]
    omega

theorem exists_date (number : ℕ) : ∃ date : Date, date.Valid ∧ dayNumber date = number := by
  induction number with
  | zero => exact ⟨⟨1970, 1, 1⟩, ⟨by decide, by decide, by decide⟩, by decide⟩
  | succ number ih =>
    obtain ⟨date, hvalid, hnumber⟩ := ih
    refine ⟨date.next, hvalid.next, ?_⟩
    rw [dayNumber_next hvalid, hnumber]
    push_cast
    rfl

/-! ## The year from March on -/

def Date.marchYear (date : Date) : ℤ := if date.month ≤ 2 then date.year - 1 else date.year

def Date.marchMonth (date : Date) : ℤ :=
  if date.month ≤ 2 then date.month + 9 else date.month - 3

def daysFromMarch (months : ℤ) : ℤ := (153 * months + 2) / 5

/-- The day of the year that begins in March. -/
def Date.marchDay (date : Date) : ℤ := daysFromMarch date.marchMonth + date.day - 1

theorem daysOfYears_eq (years : ℕ) :
    daysOfYears years =
      365 * years + ((1969 + years) / 4 - (1969 + years) / 100 + (1969 + years) / 400) - 477 := by
  induction years with
  | zero => decide
  | succ years ih =>
    rw [daysOfYears, Finset.sum_range_succ, ← daysOfYears, ih, yearLength]
    push_cast
    by_cases hleap : IsLeap (1970 + years)
    · rw [if_pos hleap]
      unfold IsLeap at hleap
      omega
    · rw [if_neg hleap]
      unfold IsLeap at hleap
      omega

theorem daysOfMonths_eq {date : Date} (h : 1 ≤ date.month ∧ date.month ≤ 12) :
    daysOfMonths date.year (date.month - 1).toNat =
      if date.month ≤ 2 then daysFromMarch date.marchMonth - 306
      else daysFromMarch date.marchMonth + 59 + (yearLength date.year - 365) := by
  obtain ⟨year, month, day⟩ := date
  obtain ⟨hlow, hhigh⟩ := h
  unfold daysOfMonths daysFromMarch Date.marchMonth yearLength monthLength
  dsimp only at hlow hhigh ⊢
  by_cases hleap : IsLeap year
  · simp only [if_pos hleap]
    interval_cases month <;> rfl
  · simp only [if_neg hleap]
    interval_cases month <;> rfl

theorem dayNumber_eq {date : Date} (h : date.Valid) :
    dayNumber date =
      365 * date.marchYear + date.marchYear / 4 - date.marchYear / 100 + date.marchYear / 400 +
        date.marchDay - 719468 := by
  have hyear := h.year
  have hcast : (((date.year - 1970).toNat : ℕ) : ℤ) = date.year - 1970 := by omega
  rw [dayNumber, daysOfYears_eq, daysOfMonths_eq h.month, hcast, Date.marchDay]
  by_cases hmonth : date.month ≤ 2
  · rw [if_pos hmonth, Date.marchYear, if_pos hmonth]
    omega
  · rw [if_neg hmonth, Date.marchYear, if_neg hmonth, yearLength]
    by_cases hleap : IsLeap date.year
    · rw [if_pos hleap]
      unfold IsLeap at hleap
      omega
    · rw [if_neg hleap]
      unfold IsLeap at hleap
      omega

theorem Date.Valid.marchDay {date : Date} (h : date.Valid) :
    0 ≤ date.marchDay ∧ date.marchDay ≤ 365 ∧
      (date.marchDay = 365 → IsLeap (date.marchYear + 1)) := by
  obtain ⟨year, month, day⟩ := date
  obtain ⟨-, ⟨hlow, hhigh⟩, hday, hlast⟩ := h
  unfold Date.marchDay Date.marchYear Date.marchMonth daysFromMarch
  unfold monthLength at hlast
  dsimp only at hlow hhigh hday hlast ⊢
  by_cases hleap : IsLeap year
  · simp only [if_pos hleap] at hlast
    refine ⟨?_, ?_, fun _ => ?_⟩
    · split_ifs <;> omega
    · split_ifs at * <;> omega
    · by_cases hmonth : month ≤ 2
      · rw [if_pos hmonth, Int.sub_add_cancel]
        exact hleap
      · exfalso
        split_ifs at * <;> omega
  · simp only [if_neg hleap] at hlast
    refine ⟨?_, ?_, fun h365 => ?_⟩
    · split_ifs <;> omega
    · split_ifs at * <;> omega
    · exfalso
      split_ifs at * <;> omega

end EigenOS.Calendar

import Mathlib.Data.Int.Notation
import Mathlib.Tactic.Linarith

/-! Days of the proleptic Gregorian calendar and their months. Days are counted from
1 January 1970, and months from January of the year 0. -/

namespace Calendar

def leap (year : ℤ) : Bool := year % 4 = 0 && (year % 100 ≠ 0 || year % 400 = 0)

/-- The first day of a year. -/
def yearStart (year : ℤ) : ℤ :=
  365 * (year - 1970) + (year - 1) / 4 - (year - 1) / 100 + (year - 1) / 400 - 477

/-- The days of a common year before each of its months. -/
def daysBefore (month : ℤ) : ℤ :=
  if month = 0 then 0 else if month = 1 then 31 else if month = 2 then 59
  else if month = 3 then 90 else if month = 4 then 120 else if month = 5 then 151
  else if month = 6 then 181 else if month = 7 then 212 else if month = 8 then 243
  else if month = 9 then 273 else if month = 10 then 304 else 334

/-- The day that a leap year has before March. -/
def leapDay (year month : ℤ) : ℤ := if leap year && 1 < month then 1 else 0

/-- The first day of a month. -/
def monthStart (month : ℤ) : ℤ :=
  yearStart (month / 12) + daysBefore (month % 12) + leapDay (month / 12) (month % 12)

def monthLength (month : ℤ) : ℤ := monthStart (month + 1) - monthStart month

/-- The year of a day. -/
def yearOf (day : ℤ) : ℤ :=
  let estimate := 1970 + 400 * day / 146097
  if day < yearStart estimate then estimate - 1
  else if yearStart (estimate + 1) ≤ day then estimate + 1
  else estimate

/-- The month of a day. -/
def monthOf (day : ℤ) : ℤ :=
  let estimate := 12 * yearOf day + (day - yearStart (yearOf day)) / 31
  if monthStart (estimate + 1) ≤ day then estimate + 1 else estimate

/-- The day of its month, from 1. -/
def dayOfMonth (day : ℤ) : ℤ := day - monthStart (monthOf day) + 1

example : monthStart (12 * 2024 + 2) = 19783 ∧ monthOf 19783 = 12 * 2024 + 2 ∧
    monthOf 19782 = 12 * 2024 + 1 ∧ dayOfMonth 19782 = 29 := by decide

/-! ### Years -/

theorem yearStart_succ (year : ℤ) :
    yearStart (year + 1) = yearStart year + if leap year then 366 else 365 := by
  have h4 : year / 4 = (year - 1) / 4 + if year % 4 = 0 then 1 else 0 := by split <;> omega
  have h100 : year / 100 = (year - 1) / 100 + if year % 100 = 0 then 1 else 0 := by
    split <;> omega
  have h400 : year / 400 = (year - 1) / 400 + if year % 400 = 0 then 1 else 0 := by
    split <;> omega
  have hcentury : year % 100 = 0 → year % 4 = 0 := by omega
  have hfour : year % 400 = 0 → year % 100 = 0 := by omega
  unfold yearStart leap
  rw [show year + 1 - 1 = year by omega, h4, h100, h400]
  by_cases c4 : year % 4 = 0 <;> by_cases c100 : year % 100 = 0 <;>
    by_cases c400 : year % 400 = 0 <;> simp_all <;> linarith

theorem yearStart_yearOf (day : ℤ) :
    yearStart (yearOf day) ≤ day ∧ day < yearStart (yearOf day + 1) := by
  obtain ⟨e, he⟩ : ∃ e, e = 400 * day / 146097 := ⟨_, rfl⟩
  have hlo : yearStart (1970 + e - 1) ≤ day := by
    unfold yearStart
    omega
  have hhi : day < yearStart (1970 + e + 1 + 1) := by
    unfold yearStart
    omega
  unfold yearOf
  rw [← he]
  dsimp only
  split
  · rename_i hbefore
    exact ⟨hlo, by rwa [Int.sub_add_cancel]⟩
  split
  · rename_i hafter
    exact ⟨hafter, hhi⟩
  · rename_i hbefore hafter
    exact ⟨Int.not_lt.mp hbefore, Int.not_le.mp hafter⟩

/-! ### Months -/

theorem month_cases (month : ℤ) (h0 : 0 ≤ month) (h12 : month < 12) :
    month = 0 ∨ month = 1 ∨ month = 2 ∨ month = 3 ∨ month = 4 ∨ month = 5 ∨ month = 6 ∨
      month = 7 ∨ month = 8 ∨ month = 9 ∨ month = 10 ∨ month = 11 := by
  omega

theorem monthLength_pos (month : ℤ) : 28 ≤ monthLength month ∧ monthLength month ≤ 31 := by
  have hcases := month_cases (month % 12) (by omega) (by omega)
  have hlast : month % 12 = 11 → (month + 1) / 12 = month / 12 + 1 ∧ (month + 1) % 12 = 0 := by
    omega
  have hsame : month % 12 ≠ 11 →
      (month + 1) / 12 = month / 12 ∧ (month + 1) % 12 = month % 12 + 1 := by omega
  unfold monthLength monthStart
  by_cases h : month % 12 = 11
  · obtain ⟨hq, hr⟩ := hlast h
    rw [hq, hr, yearStart_succ, h]
    cases hl : leap (month / 12)
    · simp [daysBefore, leapDay, hl]
    · simp [daysBefore, leapDay, hl]
      omega
  · obtain ⟨hq, hr⟩ := hsame h
    rw [hq, hr]
    by_cases hl : leap (month / 12) = true <;>
      rcases hcases with hm | hm | hm | hm | hm | hm | hm | hm | hm | hm | hm | hm <;>
      simp [daysBefore, leapDay, hl, hm] <;> omega

theorem monthStart_lt (month : ℤ) : monthStart month < monthStart (month + 1) := by
  have hlength := (monthLength_pos month).1
  unfold monthLength at hlength
  omega

theorem monthStart_mono {a b : ℤ} (h : a ≤ b) : monthStart a ≤ monthStart b := by
  obtain ⟨n, rfl⟩ := Int.le.dest h
  induction n with
  | zero => simp
  | succ n ih =>
    have hstep := monthStart_lt (a + n)
    have hprev := ih (by omega)
    push_cast
    rw [← Int.add_assoc]
    omega

theorem monthStart_of (year : ℤ) {month : ℤ} (h0 : 0 ≤ month) (h12 : month < 12) :
    monthStart (12 * year + month) = yearStart year + daysBefore month + leapDay year month := by
  have hq : (12 * year + month) / 12 = year := by omega
  have hr : (12 * year + month) % 12 = month := by omega
  unfold monthStart
  rw [hq, hr]

/-- A month starts at most seven days before it would if all months had 31 days. -/
theorem daysBefore_bounds (year month : ℤ) (h0 : 0 ≤ month) (h12 : month < 12) :
    31 * month - 7 ≤ daysBefore month ∧ daysBefore month + leapDay year month ≤ 31 * month ∧
      0 ≤ leapDay year month := by
  have hleap : 0 ≤ leapDay year month ∧ leapDay year month ≤ 1 := by
    unfold leapDay
    split <;> simp
  have hearly : month ≤ 1 → leapDay year month = 0 := fun hm => by
    have hnot : ¬ 1 < month := by omega
    simp [leapDay, hnot]
  rcases month_cases month h0 h12 with rfl | rfl | rfl | rfl | rfl | rfl | rfl | rfl | rfl | rfl |
    rfl | rfl <;> simp only [daysBefore] <;> norm_num at * <;> omega

/-- The day of the year gives the month, or the month before. -/
theorem month_estimate (year rest : ℤ) (h0 : 0 ≤ rest)
    (h : yearStart year + rest < yearStart (year + 1)) :
    monthStart (12 * year + rest / 31) ≤ yearStart year + rest ∧
      yearStart year + rest < monthStart (12 * year + rest / 31 + 1 + 1) := by
  have hlength := yearStart_succ year
  have hq : rest / 31 < 12 := by
    split at hlength <;> omega
  constructor
  · rw [monthStart_of year (by omega) hq]
    have hbounds := daysBefore_bounds year (rest / 31) (by omega) hq
    omega
  · by_cases hm : rest / 31 + 2 < 12
    · rw [show 12 * year + rest / 31 + 1 + 1 = 12 * year + (rest / 31 + 2) by omega,
        monthStart_of year (by omega) hm]
      have hbounds := daysBefore_bounds year (rest / 31 + 2) (by omega) hm
      omega
    · have hnext : monthStart (12 * (year + 1) + 0) = yearStart (year + 1) := by
        rw [monthStart_of (year + 1) (by decide) (by decide)]
        simp [daysBefore, leapDay]
      have hmono := monthStart_mono
        (show 12 * (year + 1) + 0 ≤ 12 * year + rest / 31 + 1 + 1 by omega)
      omega

/-- A day lies in its month. -/
theorem monthStart_monthOf (day : ℤ) :
    monthStart (monthOf day) ≤ day ∧ day < monthStart (monthOf day + 1) := by
  obtain ⟨hlo, hhi⟩ := yearStart_yearOf day
  obtain ⟨rest, hrest⟩ : ∃ rest, rest = day - yearStart (yearOf day) := ⟨_, rfl⟩
  have hday : yearStart (yearOf day) + rest = day := by omega
  obtain ⟨hfirst, hlast⟩ := month_estimate (yearOf day) rest (by omega) (by omega)
  rw [hday] at hfirst hlast
  unfold monthOf
  rw [← hrest]
  dsimp only
  split
  · rename_i hafter
    exact ⟨hafter, hlast⟩
  · rename_i hafter
    exact ⟨hfirst, Int.not_le.mp hafter⟩

/-- A month that starts after a day is later than the day's month. -/
theorem monthOf_lt {month day : ℤ} (h : monthOf day < month) : day < monthStart month := by
  have hmono := monthStart_mono (show monthOf day + 1 ≤ month by omega)
  have hin := (monthStart_monthOf day).2
  omega

theorem monthOf_mono {a b : ℤ} (h : a ≤ b) : monthOf a ≤ monthOf b := by
  by_contra hlt
  have hbefore := monthOf_lt (Int.not_le.mp hlt)
  have hin := (monthStart_monthOf a).1
  omega

/-- The month of a day between its start and that of the next. -/
theorem monthOf_eq {day month : ℤ} (hlo : monthStart month ≤ day)
    (hhi : day < monthStart (month + 1)) : monthOf day = month := by
  have hin := monthStart_monthOf day
  apply le_antisymm
  · by_contra hlt
    have hmono := monthStart_mono (show month + 1 ≤ monthOf day by omega)
    omega
  · by_contra hlt
    have hmono := monthStart_mono (show monthOf day + 1 ≤ month by omega)
    omega

end Calendar

import Mathlib.Data.Int.Order.Basic
import Mathlib.Tactic.Ring
import Ashbi.Calendar.Civil

/-! Instants of a `Date` in UTC, in milliseconds since the epoch, its setters, and dates as text. -/

namespace Calendar

/-- The milliseconds of a day. -/
def dayLength : ℤ := 86400000

/-- The days on each side of the epoch that a date can hold. -/
def maxDay : ℤ := 100000000

/-- An instant that a date can hold. -/
abbrev Instant := { time : ℤ // -(maxDay * dayLength) ≤ time ∧ time ≤ maxDay * dayLength }

/-- An instant out of range is an invalid date, which is `none`. -/
def clip (time : ℤ) : Option Instant :=
  if h : -(maxDay * dayLength) ≤ time ∧ time ≤ maxDay * dayLength then some ⟨time, h⟩ else none

def dayOf (time : ℤ) : ℤ := time / dayLength

def timeOfDay (time : ℤ) : ℤ := time % dayLength

/-- The time of day on a day. -/
def timeOn (day time : ℤ) : ℤ := day * dayLength + time

namespace Instant

variable (date : Instant)

def month : ℤ := monthOf (dayOf date.val)

def getUTCFullYear : ℤ := date.month / 12

def getUTCMonth : ℤ := date.month % 12

def getUTCDate : ℤ := dayOfMonth (dayOf date.val)

def setUTCDate (day : ℤ) : Option Instant :=
  clip (timeOn (monthStart date.month + (day - 1)) (timeOfDay date.val))

def setUTCMonth (month : ℤ) : Option Instant :=
  clip (timeOn (monthStart (12 * date.getUTCFullYear + month) + (date.getUTCDate - 1))
    (timeOfDay date.val))

end Instant

/-- `Date.UTC` takes a year of one or two digits to be one of the twentieth century. -/
def fullYear (year : ℤ) : ℤ := if 0 ≤ year ∧ year ≤ 99 then 1900 + year else year

/-- `Date.UTC` of a day. -/
def dateUTC (year month day : ℤ) : Option Instant :=
  clip (timeOn (monthStart (12 * fullYear year + month) + (day - 1)) 0)

/-! ### Days and times of day -/

theorem timeOfDay_bounds (time : ℤ) : 0 ≤ timeOfDay time ∧ timeOfDay time < dayLength := by
  unfold timeOfDay dayLength
  omega

@[simp] theorem dayOf_timeOn {day time : ℤ} (h : 0 ≤ time ∧ time < dayLength) :
    dayOf (timeOn day time) = day := by
  unfold dayOf timeOn dayLength at *
  omega

@[simp] theorem timeOfDay_timeOn {day time : ℤ} (h : 0 ≤ time ∧ time < dayLength) :
    timeOfDay (timeOn day time) = time := by
  unfold timeOfDay timeOn dayLength at *
  omega

theorem timeOn_le {a b time : ℤ} (h : a ≤ b) : timeOn a time ≤ timeOn b time := by
  unfold timeOn dayLength
  omega

theorem timeOn_lt {a b time : ℤ} (h : a < b) : timeOn a time < timeOn b time := by
  unfold timeOn dayLength
  omega

/-- A time on a day before that of an instant is before it. -/
theorem timeOn_lt_of_day {day time instant : ℤ} (h : 0 ≤ time ∧ time < dayLength)
    (hday : day < dayOf instant) : timeOn day time < instant := by
  unfold timeOn dayOf dayLength at *
  omega

theorem clip_val {time : ℤ} {date : Instant} (h : clip time = some date) : date.val = time := by
  unfold clip at h
  split at h
  · rw [← Option.some.inj h]
  · cases h

theorem clip_some {time : ℤ} (hlo : -(maxDay * dayLength) ≤ time)
    (hhi : time ≤ maxDay * dayLength) : clip time = some ⟨time, hlo, hhi⟩ := by
  unfold clip
  rw [dif_pos ⟨hlo, hhi⟩]

theorem Instant.full_month (date : Instant) (months : ℤ) :
    12 * date.getUTCFullYear + (date.getUTCMonth + months) = date.month + months := by
  unfold Instant.getUTCFullYear Instant.getUTCMonth
  omega

/-! ### The months that a date can hold -/

/-- The first month of which a date can hold the first day. -/
def firstMonth : ℤ := 12 * -271821 + 4

/-- The last month of which a date can hold the last day. -/
def lastMonth : ℤ := 12 * 275760 + 7

theorem monthStart_ge_iff {month : ℤ} : -maxDay ≤ monthStart month ↔ firstMonth ≤ month := by
  constructor
  · intro h
    by_contra hlt
    have hmono := monthStart_mono (show month ≤ firstMonth - 1 by omega)
    have hstart : monthStart (firstMonth - 1) < -maxDay := by decide
    omega
  · intro h
    have hmono := monthStart_mono h
    have hstart : -maxDay ≤ monthStart firstMonth := by decide
    omega

/-- The last day of a month is in range only when all of the day is. -/
theorem monthEnd_le_iff {month : ℤ} : monthStart (month + 1) - 1 ≤ maxDay ↔ month ≤ lastMonth := by
  constructor
  · intro h
    by_contra hlt
    have hmono := monthStart_mono (show lastMonth + 1 + 1 ≤ month + 1 by omega)
    have hstart : maxDay + 1 < monthStart (lastMonth + 1 + 1) := by decide
    omega
  · intro h
    have hmono := monthStart_mono (show month + 1 ≤ lastMonth + 1 by omega)
    have hstart : monthStart (lastMonth + 1) ≤ maxDay := by decide
    omega

theorem monthEnd_lt {month : ℤ} (h : month ≤ lastMonth) : monthStart (month + 1) ≤ maxDay := by
  have hmono := monthStart_mono (show month + 1 ≤ lastMonth + 1 by omega)
  have hstart : monthStart (lastMonth + 1) ≤ maxDay := by decide
  omega

/-- The length of a month in the year that `Date.UTC` takes it to be in. -/
def lengthUTC (month : ℤ) : ℤ := monthLength (12 * fullYear (month / 12) + month % 12)

/-- The length of a month, from the start of its year. -/
theorem monthLength_of (year : ℤ) {month : ℤ} (h0 : 0 ≤ month) (h12 : month < 12) :
    monthLength (12 * year + month) =
      if month = 11 then 31 else daysBefore (month + 1) + leapDay year (month + 1) -
        (daysBefore month + leapDay year month) := by
  unfold monthLength
  rw [monthStart_of year h0 h12]
  split
  · rename_i hlast
    have hnext : 12 * year + month + 1 = 12 * (year + 1) + 0 := by omega
    have hstart : monthStart (12 * (year + 1) + 0) = yearStart (year + 1) := by
      rw [monthStart_of (year + 1) (by decide) (by decide)]
      simp [daysBefore, leapDay]
    rw [hnext, hstart, yearStart_succ, hlast]
    cases hleap : leap year with
    | false =>
      simp [daysBefore, leapDay, hleap]
    | true =>
      simp [daysBefore, leapDay, hleap]
      ring
  · rw [add_assoc, monthStart_of year (by omega) (by omega)]
    ring

/-- Months are as long as in a year of the same kind. -/
theorem monthLength_leap {year year' month : ℤ} (h : leap year = leap year') (h0 : 0 ≤ month)
    (h12 : month < 12) : monthLength (12 * year + month) = monthLength (12 * year' + month) := by
  rw [monthLength_of year h0 h12, monthLength_of year' h0 h12]
  simp only [leapDay, h]

/-- Only February of the year 0 is taken to be shorter than it is. -/
theorem lengthUTC_eq (month : ℤ) :
    lengthUTC month = if month = 1 then 28 else monthLength month := by
  split
  · rename_i h
    rw [h]
    decide
  · rename_i h
    have hsplit : 12 * (month / 12) + month % 12 = month := by omega
    unfold lengthUTC fullYear
    split
    · rename_i hyear
      by_cases hzero : month / 12 = 0
      · have hcases := month_cases (month % 12) (by omega) (by omega)
        have hmonth : month = month % 12 := by omega
        rw [hzero]
        rcases hcases with hm | hm | hm | hm | hm | hm | hm | hm | hm | hm | hm | hm <;>
          rw [hm] at hmonth ⊢ <;> subst hmonth <;> first | exact absurd rfl h | decide
      · have hleap : leap (1900 + month / 12) = leap (month / 12) := by
          have h4 : (1900 + month / 12) % 4 = month / 12 % 4 := by omega
          have h100 : (1900 + month / 12) % 100 = month / 12 % 100 := by omega
          have hne : month / 12 % 100 ≠ 0 := by omega
          simp [leap, h4, h100, hne]
        rw [monthLength_leap hleap (by omega) (by omega), hsplit]
    · rw [hsplit]

/-! ### Dates in the text form YYYY-MM-DD -/

def digit (c : Char) : Option ℤ := if c.isDigit then some (c.toNat - 48 : ℕ) else none

/-- The number that some digits write. -/
def digits : List Char → Option ℤ
  | [] => some 0
  | c :: rest => do
    let d ← digit c
    let tail ← digits rest
    pure (d * 10 ^ rest.length + tail)

/-- The day that a date of the calendar names. -/
def parseDate (text : String) : Option ℤ :=
  match text.toList with
  | [y₁, y₂, y₃, y₄, '-', m₁, m₂, '-', d₁, d₂] => do
    let year ← digits [y₁, y₂, y₃, y₄]
    let month ← digits [m₁, m₂]
    let day ← digits [d₁, d₂]
    let first := monthStart (12 * year + (month - 1))
    if 1 ≤ month ∧ month ≤ 12 ∧ 1 ≤ day ∧ day ≤ monthLength (12 * year + (month - 1)) then
      some (first + (day - 1))
    else none
  | _ => none

example : parseDate "2024-02-29" = some 19782 ∧ parseDate "2023-02-29" = none := by decide +kernel

theorem digit_bound {c : Char} {d : ℤ} (h : digit c = some d) : 0 ≤ d ∧ d ≤ 9 := by
  unfold digit at h
  split at h
  case isTrue hc =>
    obtain rfl := Option.some.inj h
    simp only [Char.isDigit, Bool.and_eq_true, decide_eq_true_eq] at hc
    have hlo : 48 ≤ c.toNat := hc.1
    have hhi : c.toNat ≤ 57 := hc.2
    omega
  case isFalse => cases h

theorem digits_bound {cs : List Char} {n : ℤ} (h : digits cs = some n) :
    0 ≤ n ∧ n < 10 ^ cs.length := by
  induction cs generalizing n with
  | nil =>
    obtain rfl := Option.some.inj h
    simp
  | cons c rest ih =>
    simp only [digits, Option.bind_eq_bind, Option.bind_eq_some_iff, Option.pure_def,
      Option.some.injEq] at h
    obtain ⟨d, hd, tail, htail, rfl⟩ := h
    obtain ⟨hlo, hhi⟩ := digit_bound hd
    obtain ⟨htlo, hthi⟩ := ih htail
    have hpow : (0 : ℤ) ≤ 10 ^ rest.length := by positivity
    constructor
    · positivity
    · rw [List.length_cons, pow_succ]
      nlinarith

theorem monthStart_bound {year month : ℤ} (hy : 0 ≤ year ∧ year < 10 ^ 4) (h0 : 0 ≤ month)
    (h12 : month < 12) : -720000 ≤ monthStart (12 * year + month) ∧
      monthStart (12 * year + month) ≤ 2990000 := by
  have hbounds := daysBefore_bounds year month h0 h12
  rw [monthStart_of year h0 h12]
  unfold yearStart
  omega

/-- The dates of four-digit years. -/
theorem parseDate_bound {text : String} {day : ℤ} (h : parseDate text = some day) :
    -720000 ≤ day ∧ day ≤ 3000000 := by
  unfold parseDate at h
  split at h
  case h_1 y₁ y₂ y₃ y₄ m₁ m₂ d₁ d₂ _ =>
    obtain ⟨year, hyear, h⟩ := Option.bind_eq_some_iff.mp h
    obtain ⟨month, hmonth, h⟩ := Option.bind_eq_some_iff.mp h
    obtain ⟨d, hday, h⟩ := Option.bind_eq_some_iff.mp h
    obtain ⟨⟨hm, hm', hd, -⟩, h⟩ := Option.ite_none_right_eq_some.mp h
    obtain rfl := Option.some.inj h
    have hd' : 0 ≤ d ∧ d < 10 ^ 2 := digits_bound hday
    have hstart := monthStart_bound (digits_bound hyear) (Int.sub_nonneg.mpr hm)
      (Int.sub_one_lt_of_le hm')
    omega
  case h_2 => cases h

end Calendar

import Ashbi.Calendar.Instants
import Ashbi.Recurrence.Schedule

/-! Billing dates of recurring invoices: months counted from the issue date. -/

namespace Ashbi.RecurringInvoices

open Calendar Recurrence

inductive Interval
  | monthly
  | quarterly
  | annually
  deriving DecidableEq

/-- `INTERVAL_MONTHS`; an invoice without an interval recurs every month. -/
def intervalMonths : Option Interval → ℕ
  | some .monthly => 1
  | some .quarterly => 3
  | some .annually => 12
  | none => 1

theorem intervalMonths_pos (interval : Option Interval) : 1 ≤ intervalMonths interval := by
  unfold intervalMonths
  split <;> omega

/-- The anchor with some months added. -/
def addMonthsFromAnchor (anchor : Instant) (months : ℤ) : Option Instant := do
  let d ← anchor.setUTCDate 1
  let d ← d.setUTCMonth (d.getUTCMonth + months)
  let lastDay ← dateUTC d.getUTCFullYear (d.getUTCMonth + 1) 0
  d.setUTCDate (min anchor.getUTCDate lastDay.getUTCDate)

/-! ### Boundaries -/

/-- The days of the boundaries, by the clamped months of an anchor. -/
def days (anchor : Instant) (interval : Option Interval) : Anchor where
  frequency := .monthly
  interval := intervalMonths interval
  startDate := dayOf anchor.val
  interval_pos := intervalMonths_pos interval

/-- The anchor advanced by `k` intervals, at its time of day. -/
def boundary (anchor : Instant) (interval : Option Interval) (k : ℕ) : ℤ :=
  timeOn ((days anchor interval).monthly k) (timeOfDay anchor.val)

variable {anchor now : Instant} {interval : Option Interval}

theorem boundary_strictMono : StrictMono (boundary anchor interval) := by
  intro a b hab
  exact timeOn_lt ((days anchor interval).monthly_strictMono hab)

theorem dayOf_boundary (k : ℕ) :
    dayOf (boundary anchor interval k) = (days anchor interval).monthly k :=
  dayOf_timeOn (timeOfDay_bounds anchor.val)

theorem monthOf_boundary (k : ℕ) :
    monthOf (dayOf (boundary anchor interval k)) = anchor.month + k * intervalMonths interval := by
  rw [dayOf_boundary, Anchor.monthOf_monthly]
  rfl

/-! ### Dates in range -/

/-- The dates on the way to a boundary are in range, and its month is as long as it is taken
to be. -/
structure Reaches (anchor : Instant) (months : ℤ) : Prop where
  fromMonth : firstMonth ≤ anchor.month
  toMonth : anchor.month + months ≤ lastMonth
  length : anchor.month + months = 1 → anchor.getUTCDate ≤ 28

section Added

variable {months : ℤ}

/-- The day of the month that the added months come to. -/
def addedDay (anchor : Instant) (months : ℤ) : ℤ :=
  monthStart (anchor.month + months) +
    (min anchor.getUTCDate (lengthUTC (anchor.month + months)) - 1)

theorem lengthUTC_le (month : ℤ) : 28 ≤ lengthUTC month ∧ lengthUTC month ≤ monthLength month := by
  have hlength := monthLength_pos month
  rw [lengthUTC_eq]
  split
  · rename_i h
    rw [h] at hlength ⊢
    exact ⟨le_rfl, hlength.1⟩
  · exact ⟨hlength.1, le_rfl⟩

theorem getUTCDate_pos (anchor : Instant) : 1 ≤ anchor.getUTCDate := Anchor.dayOfMonth_pos _

theorem addedDay_bounds (anchor : Instant) (months : ℤ) :
    monthStart (anchor.month + months) ≤ addedDay anchor months ∧
      addedDay anchor months < monthStart (anchor.month + months + 1) := by
  have hday := getUTCDate_pos anchor
  have hlength := lengthUTC_le (anchor.month + months)
  unfold monthLength at hlength
  unfold addedDay
  omega

/-- The fields of an instant at a time of day. -/
theorem fields_of_timeOn {d : Instant} {day time : ℤ} (hd : d.val = timeOn day time)
    (htime : 0 ≤ time ∧ time < dayLength) :
    d.month = monthOf day ∧ d.getUTCDate = dayOfMonth day ∧ timeOfDay d.val = time := by
  unfold Instant.month Instant.getUTCDate
  rw [hd, dayOf_timeOn htime, timeOfDay_timeOn htime]
  exact ⟨rfl, rfl, rfl⟩

theorem first_fields {d : Instant} {month time : ℤ} (hd : d.val = timeOn (monthStart month) time)
    (htime : 0 ≤ time ∧ time < dayLength) :
    d.month = month ∧ d.getUTCDate = 1 ∧ timeOfDay d.val = time := by
  obtain ⟨hmonth, hdate, htod⟩ := fields_of_timeOn hd htime
  have hof : monthOf (monthStart month) = month := monthOf_eq le_rfl (monthStart_lt month)
  refine ⟨by rw [hmonth, hof], ?_, htod⟩
  rw [hdate, dayOfMonth, hof]
  omega

/-- `Date.UTC` with day 0 gives the last day of the month before. -/
theorem lastDay_date {d last : Instant}
    (h : dateUTC d.getUTCFullYear (d.getUTCMonth + 1) 0 = some last) :
    last.getUTCDate = lengthUTC d.month := by
  have hval := clip_val h
  have hzero : (0 : ℤ) ≤ 0 ∧ (0 : ℤ) < dayLength := by decide
  obtain ⟨-, hdate, -⟩ := fields_of_timeOn hval hzero
  have hlength := (monthLength_pos (12 * fullYear d.getUTCFullYear + d.getUTCMonth)).1
  have hof : monthOf (monthStart (12 * fullYear d.getUTCFullYear + (d.getUTCMonth + 1)) + (0 - 1)) =
      12 * fullYear d.getUTCFullYear + d.getUTCMonth := by
    unfold monthLength at hlength
    rw [← add_assoc]
    exact monthOf_eq (by omega) (by omega)
  rw [hdate, dayOfMonth, hof]
  unfold lengthUTC monthLength Instant.getUTCFullYear Instant.getUTCMonth
  rw [← add_assoc]
  ring

/-- An added date is in the month that it is meant to be in. -/
theorem addMonths_some {next : Instant} (h : addMonthsFromAnchor anchor months = some next) :
    next.val = timeOn (addedDay anchor months) (timeOfDay anchor.val) ∧
      next.month = anchor.month + months := by
  have htime := timeOfDay_bounds anchor.val
  unfold addMonthsFromAnchor at h
  simp only [Option.bind_eq_bind, Option.bind_eq_some_iff] at h
  obtain ⟨d, hd, d', hd', last, hlast, hnext⟩ := h
  have hval := clip_val hd
  rw [sub_self, add_zero] at hval
  obtain ⟨hmonth, hdate, htod⟩ := first_fields hval htime
  have hval' := clip_val hd'
  rw [d.full_month, hmonth, hdate, htod, sub_self, add_zero] at hval'
  obtain ⟨hmonth', -, htod'⟩ := first_fields hval' htime
  have hnval := clip_val hnext
  rw [hmonth', htod', lastDay_date hlast, hmonth'] at hnval
  refine ⟨hnval, ?_⟩
  have hbounds := addedDay_bounds anchor months
  rw [(fields_of_timeOn hnval htime).1]
  exact monthOf_eq hbounds.1 hbounds.2

/-- A day with the next one in range is in range at any time of day. -/
theorem clip_day {day time : ℤ} (htime : 0 ≤ time ∧ time < dayLength) (hlo : -maxDay ≤ day)
    (hhi : day < maxDay) : ∃ d : Instant, clip (timeOn day time) = some d ∧
      d.val = timeOn day time := by
  refine ⟨_, clip_some ?_ ?_, rfl⟩
  · unfold timeOn dayLength maxDay at *
    omega
  · unfold timeOn dayLength maxDay at *
    omega

theorem lengthMonth_bounds {month : ℤ} (hlo : firstMonth ≤ month) (hhi : month ≤ lastMonth) :
    firstMonth ≤ 12 * fullYear (month / 12) + month % 12 ∧
      12 * fullYear (month / 12) + month % 12 ≤ lastMonth := by
  unfold fullYear firstMonth lastMonth at *
  split <;> omega

/-- Dates that are in range add up. -/
theorem addMonths_of_range (hfrom : firstMonth ≤ anchor.month)
    (hto : anchor.month + months ≤ lastMonth) (hmonths : 0 ≤ months) :
    ∃ next, addMonthsFromAnchor anchor months = some next := by
  have htime := timeOfDay_bounds anchor.val
  have hfirst := monthStart_ge_iff.mpr hfrom
  have hsecond := monthStart_ge_iff.mpr (show firstMonth ≤ anchor.month + months by omega)
  have hend := monthEnd_lt hto
  have hlt := monthStart_lt (anchor.month + months)
  have hmono := monthStart_mono (show anchor.month ≤ anchor.month + months by omega)
  obtain ⟨d, hd, hval⟩ := clip_day htime hfirst (by omega)
  obtain ⟨hmonth, hdate, htod⟩ := first_fields hval htime
  obtain ⟨d', hd', hval'⟩ := clip_day htime hsecond (by omega)
  obtain ⟨hmonth', -, htod'⟩ := first_fields hval' htime
  obtain ⟨hlo, hhi⟩ := @lengthMonth_bounds d'.month (by omega) (by omega)
  have hlength := (monthLength_pos (12 * fullYear (d'.month / 12) + d'.month % 12)).1
  unfold monthLength at hlength
  have hlast := monthStart_ge_iff.mpr hlo
  have hlastEnd := monthEnd_lt hhi
  obtain ⟨last, hlast, -⟩ := @clip_day (monthStart (12 * fullYear d'.getUTCFullYear +
    (d'.getUTCMonth + 1)) + (0 - 1)) 0 (by decide)
    (by unfold Instant.getUTCFullYear Instant.getUTCMonth; rw [← add_assoc]; omega)
    (by unfold Instant.getUTCFullYear Instant.getUTCMonth; rw [← add_assoc]; omega)
  have hadded := addedDay_bounds anchor months
  obtain ⟨next, hnext, -⟩ := @clip_day (addedDay anchor months) _ htime (by omega) (by omega)
  refine ⟨next, ?_⟩
  unfold addMonthsFromAnchor
  simp only [Option.bind_eq_bind, Option.bind_eq_some_iff]
  refine ⟨d, ?_, d', ?_, last, hlast, ?_⟩
  · rw [Instant.setUTCDate, sub_self, add_zero]
    exact hd
  · rw [Instant.setUTCMonth, d.full_month, hmonth, hdate, htod, sub_self, add_zero]
    exact hd'
  · rw [Instant.setUTCDate, lastDay_date hlast, hmonth', htod']
    exact hnext

end Added

/-- The boundary of an interval is the added day, unless Date.UTC shortens its month. -/
theorem boundary_added (k : ℕ) (h : anchor.month + k * intervalMonths interval = 1 →
      anchor.getUTCDate ≤ 28) :
    timeOn (addedDay anchor (k * intervalMonths interval)) (timeOfDay anchor.val) =
      boundary anchor interval k := by
  unfold boundary addedDay
  congr 1
  show _ = monthStart (anchor.month + k * intervalMonths interval) +
    (min anchor.getUTCDate (monthLength (anchor.month + k * intervalMonths interval)) - 1)
  rw [lengthUTC_eq]
  split
  · rename_i hfeb
    have hday := h hfeb
    have hlength := (monthLength_pos (anchor.month + k * intervalMonths interval)).1
    omega
  · rfl

theorem added_le_boundary (k : ℕ) :
    timeOn (addedDay anchor (k * intervalMonths interval)) (timeOfDay anchor.val) ≤
      boundary anchor interval k := by
  apply timeOn_le
  show _ ≤ monthStart (anchor.month + k * intervalMonths interval) +
    (min anchor.getUTCDate (monthLength (anchor.month + k * intervalMonths interval)) - 1)
  have hlength := (lengthUTC_le (anchor.month + k * intervalMonths interval)).2
  unfold addedDay
  omega

/-- The added date is the boundary exactly where it can be reached. -/
theorem addMonths_boundary (k : ℕ) :
    (∃ next, addMonthsFromAnchor anchor (k * intervalMonths interval) = some next ∧
      next.val = boundary anchor interval k) ↔ Reaches anchor (k * intervalMonths interval) := by
  have htime := timeOfDay_bounds anchor.val
  constructor
  · rintro ⟨next, hnext, hval⟩
    have hadded := (addMonths_some hnext).1
    unfold addMonthsFromAnchor at hnext
    simp only [Option.bind_eq_bind, Option.bind_eq_some_iff] at hnext
    obtain ⟨d, hd, d', hd', last, hlast, -⟩ := hnext
    have hdval := clip_val hd
    rw [sub_self, add_zero] at hdval
    obtain ⟨hmonth, hdate, htod⟩ := first_fields hdval htime
    have hdval' := clip_val hd'
    rw [d.full_month, hmonth, hdate, htod, sub_self, add_zero] at hdval'
    obtain ⟨hmonth', -, -⟩ := first_fields hdval' htime
    refine ⟨?_, ?_, fun hfeb => ?_⟩
    · apply monthStart_ge_iff.mp
      have hrange := d.property.1
      rw [hdval] at hrange
      unfold timeOn dayLength maxDay at *
      omega
    · have hrange := last.property.2
      rw [clip_val hlast] at hrange
      unfold Instant.getUTCFullYear Instant.getUTCMonth at hrange
      rw [hmonth', ← add_assoc] at hrange
      have hle : 12 * fullYear ((anchor.month + k * intervalMonths interval) / 12) +
          (anchor.month + k * intervalMonths interval) % 12 ≤ lastMonth := by
        apply monthEnd_le_iff.mp
        unfold timeOn dayLength maxDay at *
        omega
      unfold fullYear lastMonth at *
      split at hle <;> omega
    · have hsame : addedDay anchor (k * intervalMonths interval) =
          (days anchor interval).monthly k := by
        have heq := hadded.symm.trans hval
        unfold boundary timeOn dayLength at heq
        omega
      have hmonthly : (days anchor interval).monthly k =
          monthStart (anchor.month + k * intervalMonths interval) + (min anchor.getUTCDate
            (monthLength (anchor.month + k * intervalMonths interval)) - 1) := rfl
      have hlength : monthLength 1 = 29 := by decide
      rw [hmonthly, addedDay, lengthUTC_eq, if_pos hfeb, hfeb, hlength] at hsame
      omega
  · intro h
    obtain ⟨next, hnext⟩ := addMonths_of_range h.fromMonth h.toMonth (by positivity)
    refine ⟨next, hnext, ?_⟩
    rw [(addMonths_some hnext).1, boundary_added k h.length]

/-! ### The first boundary after now -/

theorem nextAfter_months {next : Instant} {k : ℕ}
    (h : addMonthsFromAnchor anchor (k * intervalMonths interval) = some next)
    (hle : next.val ≤ now.val) : anchor.month + k * intervalMonths interval ≤ now.month := by
  rw [← (addMonths_some h).2]
  apply monthOf_mono
  unfold dayOf dayLength
  omega

section Loop

-- the equation of the loop must not compute months
attribute [local irreducible] addMonthsFromAnchor Instant.month intervalMonths

/-- The loop over the intervals; an invalid date is not up to any instant. -/
def nextAfter (start now : Instant) (interval : Option Interval) (k : ℕ) : Option Instant :=
  match h : addMonthsFromAnchor start (k * intervalMonths interval) with
  | none => none
  | some next =>
    if hle : next.val ≤ now.val then nextAfter start now interval (k + 1) else some next
termination_by (now.month + 1 - (start.month + k * intervalMonths interval)).toNat
decreasing_by
  have hmonths := nextAfter_months h hle
  have hpos := intervalMonths_pos interval
  push_cast
  rw [add_mul]
  omega

variable {k : ℕ} {next : Instant}

theorem nextAfter_of_none (h : addMonthsFromAnchor anchor (k * intervalMonths interval) = none) :
    nextAfter anchor now interval k = none := by
  rw [nextAfter]
  split
  · rfl
  · rename_i hsome
    cases h.symm.trans hsome

theorem nextAfter_of_le (h : addMonthsFromAnchor anchor (k * intervalMonths interval) = some next)
    (hle : next.val ≤ now.val) :
    nextAfter anchor now interval k = nextAfter anchor now interval (k + 1) := by
  rw [nextAfter]
  split
  · rename_i hnone
    cases h.symm.trans hnone
  · rename_i date hdate
    obtain rfl := Option.some.inj (h.symm.trans hdate)
    rw [dif_pos hle]

theorem nextAfter_of_gt (h : addMonthsFromAnchor anchor (k * intervalMonths interval) = some next)
    (hgt : ¬ next.val ≤ now.val) : nextAfter anchor now interval k = some next := by
  rw [nextAfter]
  split
  · rename_i hnone
    cases h.symm.trans hnone
  · rename_i date hdate
    obtain rfl := Option.some.inj (h.symm.trans hdate)
    rw [dif_neg hgt]

/-- What the loop returns is an added date after now. -/
theorem nextAfter_some (h : nextAfter anchor now interval k = some next) :
    ∃ n, k ≤ n ∧ addMonthsFromAnchor anchor (n * intervalMonths interval) = some next ∧
      now.val < next.val := by
  induction k using nextAfter.induct anchor now interval with
  | case1 k hnone =>
    rw [nextAfter_of_none hnone] at h
    cases h
  | case2 k date hdate hle ih =>
    rw [nextAfter_of_le hdate hle] at h
    obtain ⟨n, hn, hadded, hafter⟩ := ih h
    exact ⟨n, by omega, hadded, hafter⟩
  | case3 k date hdate hgt =>
    rw [nextAfter_of_gt hdate hgt] at h
    obtain rfl := Option.some.inj h
    exact ⟨k, le_rfl, hdate, Int.not_le.mp hgt⟩

end Loop

/-- The next billing date; an invoice without an anchor counts from now. -/
def firstRecurringDate (anchor : Option Instant) (interval : Option Interval) (now : Instant) :
    Option Instant :=
  let start := anchor.getD now
  let elapsedMonths := (now.getUTCFullYear - start.getUTCFullYear) * 12 +
    (now.getUTCMonth - start.getUTCMonth)
  nextAfter start now interval (max 1 (elapsedMonths / intervalMonths interval)).toNat

/-- A date is the least boundary after now. -/
def IsFirstBoundary (anchor : Instant) (interval : Option Interval) (now : Instant)
    (date : Option Instant) : Prop :=
  ∃ next : Instant, date = some next ∧
    IsLeast {time | (∃ k, 1 ≤ k ∧ boundary anchor interval k = time) ∧ now.val < time} next.val

/-- The first boundary after now is the `k`th. -/
structure FirstAt (anchor : Instant) (interval : Option Interval) (now : Instant) (k : ℕ) :
    Prop where
  pos : 1 ≤ k
  after : now.val < boundary anchor interval k
  before : ∀ j, 1 ≤ j → j < k → boundary anchor interval j ≤ now.val

/-- From any interval up to that of a boundary that it can reach, the loop reaches it. -/
theorem nextAfter_reaches {k n : ℕ} (h : FirstAt anchor interval now n)
    (hreaches : Reaches anchor (n * intervalMonths interval)) (hpos : 1 ≤ k) (hk : k ≤ n) :
    nextAfter anchor now interval k =
      addMonthsFromAnchor anchor (n * intervalMonths interval) := by
  obtain ⟨left, hleft⟩ : ∃ left, n = k + left := Nat.exists_eq_add_of_le hk
  induction left generalizing k with
  | zero =>
    obtain rfl : n = k := hleft
    obtain ⟨next, hnext, hval⟩ := (addMonths_boundary n).mpr hreaches
    have hafter := h.after
    rw [nextAfter_of_gt hnext (by omega), hnext]
  | succ left ih =>
    have hmonths : ((k : ℤ) * intervalMonths interval) ≤ n * intervalMonths interval := by
      apply Int.mul_le_mul_of_nonneg_right <;> omega
    obtain ⟨next, hnext⟩ := addMonths_of_range hreaches.fromMonth
      (show anchor.month + (k : ℤ) * intervalMonths interval ≤ lastMonth by
        have hto := hreaches.toMonth
        omega) (by positivity)
    have hbefore := h.before k hpos (by omega)
    have hadded := @added_le_boundary anchor interval k
    rw [← (addMonths_some hnext).1] at hadded
    rw [nextAfter_of_le hnext (by omega)]
    exact ih (by omega) (by omega) (by omega)

theorem FirstAt.isLeast {k : ℕ} (h : FirstAt anchor interval now k) :
    IsLeast {time | (∃ k, 1 ≤ k ∧ boundary anchor interval k = time) ∧ now.val < time}
      (boundary anchor interval k) :=
  isLeast_of_search boundary_strictMono h.pos h.after h.before

/-- No boundary is skipped by a loop that starts at the intervals that have passed. -/
theorem start_le {k : ℕ} (h : FirstAt anchor interval now k) :
    (max 1 (((now.getUTCFullYear - anchor.getUTCFullYear) * 12 +
      (now.getUTCMonth - anchor.getUTCMonth)) / intervalMonths interval)).toNat ≤ k := by
  have hpos := h.pos
  have helapsed : (now.getUTCFullYear - anchor.getUTCFullYear) * 12 +
      (now.getUTCMonth - anchor.getUTCMonth) = now.month - anchor.month := by
    unfold Instant.getUTCFullYear Instant.getUTCMonth
    omega
  rw [helapsed]
  by_contra hlt
  have hpassed : (k : ℤ) + 1 ≤ (now.month - anchor.month) / intervalMonths interval := by omega
  have hday := @Recurrence.Anchor.monthly_lt_of_elapsed (days anchor interval) k (dayOf now.val)
    hpassed
  have hbefore := timeOn_lt_of_day (timeOfDay_bounds anchor.val) hday
  have hafter := h.after
  unfold boundary at hafter
  omega

/-- The date is the first boundary exactly where that boundary can be reached. -/
theorem firstRecurringDate_first :
    IsFirstBoundary anchor interval now (firstRecurringDate (some anchor) interval now) ↔
      ∃ k, FirstAt anchor interval now k ∧ Reaches anchor (k * intervalMonths interval) := by
  constructor
  · rintro ⟨next, hdate, hleast⟩
    obtain ⟨⟨k, hk, hboundary⟩, hafter⟩ := hleast.1
    obtain ⟨n, -, hadded, -⟩ := nextAfter_some hdate
    rw [Option.getD_some] at hadded
    have hmonths : anchor.month + (n : ℤ) * intervalMonths interval =
        anchor.month + k * intervalMonths interval := by
      rw [← (addMonths_some hadded).2, ← monthOf_boundary, hboundary]
      rfl
    have hsame : (n : ℤ) * intervalMonths interval = k * intervalMonths interval := by omega
    rw [hsame] at hadded
    refine ⟨k, ⟨hk, by omega, fun j hj hlt => ?_⟩, (addMonths_boundary k).mp
      ⟨next, hadded, hboundary.symm⟩⟩
    by_contra hnow
    have hle := hleast.2 ⟨⟨j, hj, rfl⟩, Int.not_le.mp hnow⟩
    have hboundaries := @boundary_strictMono anchor interval _ _ hlt
    omega
  · rintro ⟨k, hfirst, hreaches⟩
    obtain ⟨next, hnext, hval⟩ := (addMonths_boundary k).mpr hreaches
    refine ⟨next, ?_, ?_⟩
    · rw [← hnext]
      apply nextAfter_reaches hfirst hreaches _ (start_le hfirst)
      omega
    · rw [hval]
      exact hfirst.isLeast

/-- The date is after now. -/
theorem firstRecurringDate_gt {anchor : Option Instant} {next : Instant}
    (h : firstRecurringDate anchor interval now = some next) : now.val < next.val := by
  obtain ⟨-, -, -, hafter⟩ := nextAfter_some h
  exact hafter

end Ashbi.RecurringInvoices

import Mathlib.Tactic.Ring
import Ashbi.Calendar.Civil
import Ashbi.Js

/-! Recurrence rules of tasks, and repetition from an original anchor, a day of any year. Dates are
calendar days; the source compares their texts, which for years of four digits is the order of
the days. -/

namespace Ashbi.Recurrence

open Calendar

inductive Frequency
  | daily | weekly | monthly
  deriving DecidableEq

structure Anchor where
  frequency : Frequency
  interval : ℕ
  startDate : ℤ
  interval_pos : 1 ≤ interval

namespace Anchor

/-- The `count`th month of a monthly repetition, by the day of the anchor. -/
def monthly (anchor : Anchor) (count : ℕ) : ℤ :=
  let month := monthOf anchor.startDate + count * anchor.interval
  monthStart month + (min (dayOfMonth anchor.startDate) (monthLength month) - 1)

theorem dayOfMonth_pos (day : ℤ) : 1 ≤ dayOfMonth day := by
  have hin := (monthStart_monthOf day).1
  unfold dayOfMonth
  omega

theorem monthStart_le_monthly (anchor : Anchor) (count : ℕ) :
    monthStart (monthOf anchor.startDate + count * anchor.interval) ≤ anchor.monthly count := by
  have hday := dayOfMonth_pos anchor.startDate
  have hlength := (monthLength_pos (monthOf anchor.startDate + count * anchor.interval)).1
  unfold monthly
  dsimp only
  omega

/-- An occurrence up to a day lies in a month up to the day's month. -/
theorem month_le (anchor : Anchor) {count : ℕ} {day : ℤ} (h : ¬ day < anchor.monthly count) :
    monthOf anchor.startDate + count * anchor.interval ≤ monthOf day := by
  by_contra hmonth
  have hlt := monthOf_lt (Int.not_le.mp hmonth)
  have hle := anchor.monthStart_le_monthly count
  omega

/-- The months up to that of a day that are left. -/
def monthsLeft (anchor : Anchor) (day : ℤ) (count : ℕ) : ℕ :=
  (monthOf day + 1 - (monthOf anchor.startDate + count * anchor.interval)).toNat

theorem monthsLeft_lt (anchor : Anchor) {day : ℤ} {count : ℕ}
    (h : ¬ day < anchor.monthly count) :
    anchor.monthsLeft day (count + 1) < anchor.monthsLeft day count := by
  have hle := anchor.month_le h
  have hpos := anchor.interval_pos
  unfold monthsLeft
  push_cast
  rw [Int.add_mul]
  omega

section Loop

-- the equation of the loop must not compute months
attribute [local irreducible] monthly monthsLeft

/-- The loop over the months of a repetition. -/
def monthlyAfter (anchor : Anchor) (after : ℤ) (count : ℕ) : ℤ :=
  if after < anchor.monthly count then anchor.monthly count
  else anchor.monthlyAfter after (count + 1)
termination_by anchor.monthsLeft after count
decreasing_by exact anchor.monthsLeft_lt ‹_›

theorem monthlyAfter_gt (anchor : Anchor) (after : ℤ) (count : ℕ) :
    after < anchor.monthlyAfter after count := by
  induction count using monthlyAfter.induct anchor after with
  | case1 count h =>
    rw [monthlyAfter, if_pos h]
    exact h
  | case2 count h ih =>
    rw [monthlyAfter, if_neg h]
    exact ih

end Loop

/-- `recurrenceAfter`; a completion calls it with a day of its own. -/
def recurrenceAfter (anchor : Anchor) (afterDate : ℤ) : ℤ :=
  if afterDate < anchor.startDate then anchor.startDate
  else if anchor.frequency ≠ .monthly then
    let days := anchor.interval * (if anchor.frequency = .weekly then 7 else 1)
    anchor.startDate + ((afterDate - anchor.startDate) / days + 1) * days
  else
    anchor.monthlyAfter afterDate
      ((monthOf afterDate - monthOf anchor.startDate) / anchor.interval).toNat

theorem recurrenceAfter_gt (anchor : Anchor) (afterDate : ℤ) :
    afterDate < anchor.recurrenceAfter afterDate := by
  unfold recurrenceAfter
  split
  · assumption
  split
  · have hpos := anchor.interval_pos
    dsimp only
    obtain ⟨days, hdays⟩ : ∃ days : ℕ,
        days = anchor.interval * (if anchor.frequency = .weekly then 7 else 1) := ⟨_, rfl⟩
    have hdpos : (0 : ℤ) < days := by
      rw [hdays]
      split <;> omega
    rw [← hdays]
    have hmod := Int.emod_lt_of_pos (afterDate - anchor.startDate) hdpos
    have hdiv := Int.mul_ediv_add_emod (afterDate - anchor.startDate) days
    have hnext : ((afterDate - anchor.startDate) / days + 1) * (days : ℤ) =
        days * ((afterDate - anchor.startDate) / days) + days := by ring
    rw [hnext]
    omega
  · exact anchor.monthlyAfter_gt _ _

end Anchor

/-! ### Rules of tasks -/

inductive Trigger
  | calendar | afterCompletion
  deriving DecidableEq

/-- A rule that `taskRecurrenceRuleSchema` accepts. -/
structure Rule where
  trigger : Option Trigger
  frequency : Frequency
  interval : ℕ
  startDate : ℤ
  timeZone : String
  interval_pos : 1 ≤ interval
  interval_le : interval ≤ 365
  start_from : monthStart (12 * 2000) ≤ startDate
  start_to : startDate < monthStart (12 * 2100)

/-- The original anchor of a rule: what `recurrenceAfter` reads of it. -/
def Rule.anchor (rule : Rule) : Anchor :=
  ⟨rule.frequency, rule.interval, rule.startDate, rule.interval_pos⟩

def recurrenceAfter (rule : Rule) (afterDate : ℤ) : ℤ := rule.anchor.recurrenceAfter afterDate

def firstRecurrenceOnOrAfter (rule : Rule) (today : ℤ) : ℤ := recurrenceAfter rule (today - 1)

theorem recurrenceAfter_gt (rule : Rule) (afterDate : ℤ) :
    afterDate < recurrenceAfter rule afterDate :=
  rule.anchor.recurrenceAfter_gt afterDate

/-! ### Repeats of completed tasks -/

/-- The day of a completion is the anchor, whatever day the rule starts at. -/
def completionRepeatDate (dateInZone : Time → String → ℤ) (rule : Rule) (completedAt : Time) : ℤ :=
  let completedDate := dateInZone completedAt rule.timeZone
  Anchor.recurrenceAfter { rule.anchor with startDate := completedDate } completedDate

end Ashbi.Recurrence

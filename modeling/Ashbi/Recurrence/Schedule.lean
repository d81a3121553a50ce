import Mathlib
import Ashbi.Recurrence.Rule

/-! The schedule of a rule, and its first date after a day. -/

namespace Ashbi.Recurrence

open Calendar

/-! ### Searches along a schedule -/

/-- A search that passes no later date stops at the first one. -/
theorem isLeast_of_search {Date : Type*} [LinearOrder Date] {dates : ℕ → Date}
    (hdates : StrictMono dates) {first count : ℕ} {after : Date} (hfirst : first ≤ count)
    (hafter : after < dates count) (hbefore : ∀ n, first ≤ n → n < count → dates n ≤ after) :
    IsLeast {date | (∃ n, first ≤ n ∧ dates n = date) ∧ after < date} (dates count) := by
  refine ⟨⟨⟨count, hfirst, rfl⟩, hafter⟩, ?_⟩
  rintro date ⟨⟨n, hn, rfl⟩, hdate⟩
  apply hdates.monotone
  by_contra hlt
  exact absurd hdate (not_lt.mpr (hbefore n hn (Nat.not_le.mp hlt)))

/-! ### Months of an anchor -/

namespace Anchor

/-- The month of the `count`th date of a monthly repetition. -/
def month (anchor : Anchor) (count : ℕ) : ℤ := monthOf anchor.startDate + count * anchor.interval

theorem month_succ (anchor : Anchor) (count : ℕ) :
    anchor.month (count + 1) = anchor.month count + anchor.interval := by
  unfold month
  push_cast
  ring

theorem month_strictMono (anchor : Anchor) : StrictMono anchor.month := by
  apply strictMono_nat_of_lt_succ
  intro count
  have hpos := anchor.interval_pos
  rw [month_succ]
  omega

theorem monthly_lt_monthStart (anchor : Anchor) (count : ℕ) :
    anchor.monthly count < monthStart (anchor.month count + 1) := by
  unfold monthly month monthLength
  dsimp only
  omega

/-- The days are those of different months. -/
theorem monthly_strictMono (anchor : Anchor) : StrictMono anchor.monthly := by
  intro a b hab
  have hmonths : anchor.month a + 1 ≤ anchor.month b := anchor.month_strictMono hab
  calc anchor.monthly a < monthStart (anchor.month a + 1) := anchor.monthly_lt_monthStart a
    _ ≤ monthStart (anchor.month b) := monthStart_mono hmonths
    _ ≤ anchor.monthly b := anchor.monthStart_le_monthly b

/-- A month that is an interval before that of a day is over on that day. -/
theorem monthly_lt_of_month (anchor : Anchor) {count : ℕ} {day : ℤ}
    (h : anchor.month count < monthOf day) : anchor.monthly count < day :=
  calc anchor.monthly count < monthStart (anchor.month count + 1) := anchor.monthly_lt_monthStart _
    _ ≤ monthStart (monthOf day) := monthStart_mono h
    _ ≤ day := (monthStart_monthOf day).1

theorem monthOf_monthly (anchor : Anchor) (count : ℕ) :
    monthOf (anchor.monthly count) = anchor.month count :=
  monthOf_eq (anchor.monthStart_le_monthly count) (anchor.monthly_lt_monthStart count)

/-- No date is skipped by a search that starts at the months that have passed. -/
theorem monthly_lt_of_elapsed (anchor : Anchor) {count : ℕ} {day : ℤ}
    (h : (count : ℤ) + 1 ≤ (monthOf day - monthOf anchor.startDate) / anchor.interval) :
    anchor.monthly count < day := by
  apply anchor.monthly_lt_of_month
  have hpos : (0 : ℤ) < anchor.interval := by
    have := anchor.interval_pos
    omega
  have hmonths := (Int.le_ediv_iff_mul_le hpos).mp h
  rw [add_mul, one_mul] at hmonths
  unfold month
  omega

/-! ### The first date after a day -/

/-- The `count`th date of the schedule. -/
def occurrence (anchor : Anchor) (count : ℕ) : ℤ :=
  match anchor.frequency with
  | .daily => anchor.startDate + count * anchor.interval
  | .weekly => anchor.startDate + count * (anchor.interval * 7)
  | .monthly => anchor.monthly count

theorem occurrence_strictMono (anchor : Anchor) : StrictMono anchor.occurrence := by
  have hpos := anchor.interval_pos
  cases hfrequency : anchor.frequency with
  | daily =>
    apply strictMono_nat_of_lt_succ
    intro count
    simp only [occurrence, hfrequency]
    push_cast
    rw [add_mul]
    omega
  | weekly =>
    apply strictMono_nat_of_lt_succ
    intro count
    simp only [occurrence, hfrequency]
    push_cast
    rw [add_mul]
    omega
  | monthly =>
    intro a b hab
    simp only [occurrence, hfrequency]
    exact anchor.monthly_strictMono hab

theorem monthly_zero (anchor : Anchor) : anchor.monthly 0 = anchor.startDate := by
  have hin := monthStart_monthOf anchor.startDate
  unfold monthly dayOfMonth monthLength
  simp
  omega

theorem occurrence_zero (anchor : Anchor) : anchor.occurrence 0 = anchor.startDate := by
  unfold occurrence
  cases anchor.frequency with
  | daily => simp
  | weekly => simp
  | monthly => exact anchor.monthly_zero

/-- The loop stops at the first month that is late enough. -/
theorem monthlyAfter_search (anchor : Anchor) (after : ℤ) (count : ℕ) :
    ∃ n, count ≤ n ∧ anchor.monthlyAfter after count = anchor.monthly n ∧
      after < anchor.monthly n ∧ ∀ m, count ≤ m → m < n → anchor.monthly m ≤ after := by
  induction count using monthlyAfter.induct anchor after with
  | case1 count h =>
    refine ⟨count, le_rfl, ?_, h, fun m hm hlt => absurd hm (Nat.not_le.mpr hlt)⟩
    rw [monthlyAfter, if_pos h]
  | case2 count h ih =>
    obtain ⟨n, hn, heq, hafter, hbefore⟩ := ih
    refine ⟨n, by omega, ?_, hafter, fun m hm hlt => ?_⟩
    · rw [monthlyAfter, if_neg h]
      exact heq
    · obtain rfl | hm := hm.eq_or_lt
      · exact Int.not_lt.mp h
      · exact hbefore m hm hlt

/-- A schedule of equal steps. -/
theorem step_search {start after days : ℤ} (hpos : 0 < days) (hstart : start ≤ after) :
    ∃ n : ℕ, start + ((after - start) / days + 1) * days = start + n * days ∧
      after < start + n * days ∧ ∀ m : ℕ, m < n → start + m * days ≤ after := by
  have hquot : 0 ≤ (after - start) / days := Int.ediv_nonneg (by omega) hpos.le
  obtain ⟨n, hn⟩ := Int.eq_ofNat_of_zero_le hquot
  refine ⟨n + 1, by rw [hn]; push_cast; rfl, ?_, fun m hm => ?_⟩
  · have hlt := Int.lt_ediv_add_one_mul_self (after - start) hpos
    rw [hn] at hlt
    push_cast
    omega
  · have hle : (m : ℤ) ≤ (after - start) / days := by omega
    have hmul := (Int.le_ediv_iff_mul_le hpos).mp hle
    omega

/-- The result is a date of the schedule after the day, and no date between them is left out. -/
theorem recurrenceAfter_search (anchor : Anchor) (after : ℤ) :
    ∃ n, anchor.recurrenceAfter after = anchor.occurrence n ∧ after < anchor.occurrence n ∧
      ∀ m, m < n → anchor.occurrence m ≤ after := by
  have hpos := anchor.interval_pos
  unfold recurrenceAfter
  split
  · rename_i hbefore
    refine ⟨0, anchor.occurrence_zero.symm, ?_, fun m hm => absurd hm (Nat.not_lt_zero m)⟩
    rwa [occurrence_zero]
  rename_i hstart
  cases hfrequency : anchor.frequency with
  | daily =>
    simp only [occurrence, hfrequency, ne_eq, reduceCtorEq, not_false_eq_true, if_true, if_false,
      mul_one]
    exact step_search (by omega) (Int.not_lt.mp hstart)
  | weekly =>
    simp only [occurrence, hfrequency, ne_eq, reduceCtorEq, not_false_eq_true, if_true]
    push_cast
    exact step_search (by omega) (Int.not_lt.mp hstart)
  | monthly =>
    simp only [occurrence, hfrequency, ne_eq, not_true_eq_false, if_false]
    obtain ⟨n, hn, heq, hafter, hbefore⟩ := anchor.monthlyAfter_search after
      ((monthOf after - monthOf anchor.startDate) / anchor.interval).toNat
    refine ⟨n, heq, hafter, fun m hm => ?_⟩
    by_cases hsearched : ((monthOf after - monthOf anchor.startDate) / anchor.interval).toNat ≤ m
    · exact hbefore m hsearched hm
    · have helapsed := @monthly_lt_of_elapsed anchor m after (by omega)
      omega

end Anchor

/-- The dates that a rule schedules from its original anchor. -/
def Rule.schedule (rule : Rule) : Set ℤ := Set.range rule.anchor.occurrence

theorem recurrenceAfter_isLeast (rule : Rule) (after : ℤ) :
    IsLeast {day | day ∈ rule.schedule ∧ after < day} (recurrenceAfter rule after) := by
  obtain ⟨n, heq, hafter, hbefore⟩ := rule.anchor.recurrenceAfter_search after
  rw [recurrenceAfter, heq]
  have hleast := isLeast_of_search rule.anchor.occurrence_strictMono (Nat.zero_le n) hafter
    fun m _ hm => hbefore m hm
  simpa [Rule.schedule] using hleast

/-- The next date after a day, and the first one that is not before it. -/
theorem recurrence_next (rule : Rule) (day : ℤ) :
    IsLeast {date | date ∈ rule.schedule ∧ day < date} (recurrenceAfter rule day) ∧
      IsLeast {date | date ∈ rule.schedule ∧ day ≤ date} (firstRecurrenceOnOrAfter rule day) := by
  refine ⟨recurrenceAfter_isLeast rule day, ?_⟩
  have hfirst := recurrenceAfter_isLeast rule (day - 1)
  simpa only [firstRecurrenceOnOrAfter, Int.sub_one_lt_iff] using hfirst

end Ashbi.Recurrence

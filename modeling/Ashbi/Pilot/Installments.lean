import Ashbi.Calendar.Instants
import Ashbi.Pilot.Previews

/-! The allocation of an invoice's lines and taxes to its installments. -/

namespace Ashbi.Pilot.Installments

open Calendar Checked HalfUp

/-! ### Checks of a snapshot -/

def safe (value : ℤ) : Except Failure ℤ :=
  if value < 0 || max < value then .error (.status 409) else .ok value

/-- The days of the months of a year. -/
def monthDays (leap : Bool) : List ℤ :=
  [31, if leap then 29 else 28, 31, 30, 31, 30, 31, 31, 30, 31, 30, 31]

def day (value : String) : Bool :=
  match value.toList with
  | [y₁, y₂, y₃, y₄, '-', m₁, m₂, '-', d₁, d₂] =>
    match digits [y₁, y₂, y₃, y₄], digits [m₁, m₂], digits [d₁, d₂] with
    | some y, some m, some d =>
      let leap := y % 4 = 0 && (y % 100 ≠ 0 || y % 400 = 0)
      1 ≤ y && 1 ≤ m && m ≤ 12 && 1 ≤ d && d ≤ (monthDays leap).getD (m - 1).toNat 0
    | _, _, _ => false
  | _ => false

/-- What the total of a line has to be, by its charge or its source. -/
def expected : Line → Except Failure ℤ
  | .fixed charge _ => do
    refuse (!integer charge.quantity 1 1000000 || !integer charge.unitMinor 0 max) (.status 409)
    pure (charge.quantity * charge.unitMinor)
  | .time _ _ source => do
    let rateMinor ← found source.rateMinor (.status 409)
    refuse (!integer source.seconds 1 max || !integer rateMinor 0 max) (.status 409)
    pure (half (source.seconds * rateMinor) 3600)

def checkedLine (line : Line) : Except Failure ℤ := do
  refuse (Js.isBlank line.description || 500 < line.description.length ||
    line.description.contains 0 || !integer line.totalMinor 0 max) (.status 409)
  let expected ← expected line
  refuse (expected ≠ line.totalMinor) (.status 409)
  pure expected

/-- A checked line, with its share of the tax. -/
structure SourceLine where
  index : ℕ
  description : List ℕ
  base : ℤ
  tax : ℤ
  deriving DecidableEq

def SourceLine.gross (line : SourceLine) : ℤ := line.base + line.tax

/-- The description of a line, with the quantity of a charge. -/
def described (line : Line) : List ℕ :=
  match line with
  | .fixed charge _ =>
    line.description ++ Js.codeUnits (" (quantity " ++ toString charge.quantity ++ ")")
  | .time _ _ _ => line.description

/-- The loop over the lines, with the sums of their amounts and of their taxes. -/
def sourceLines (rateBps : ℤ) :
    ℕ → ℤ → ℤ → List Line → Except Failure (List SourceLine × ℤ × ℤ)
  | _, cumulative, previousTax, [] => .ok ([], cumulative, previousTax)
  | index, cumulative, previousTax, line :: rest => do
    let expected ← checkedLine line
    let cumulative ← safe (cumulative + expected)
    let tax := half (cumulative * rateBps) 10000
    let (lines, sums) ← sourceLines rateBps (index + 1) cumulative tax rest
    pure (⟨index, described line, expected, tax - previousTax⟩ :: lines, sums)

/-- One installment of the total, or a deposit and a balance. -/
def isScheduled (snapshot : Preview) : Bool :=
  snapshot.installments.all (fun row => integer row.amountMinor 1 max && day row.dueOn) &&
    match snapshot.installments with
    | [row] => row.kind = .full && row.amountMinor = snapshot.totalMinor &&
        row.dueOn = snapshot.dueOn
    | [first, second] => first.kind = .deposit && second.kind = .balance &&
        first.amountMinor + second.amountMinor = snapshot.totalMinor &&
        first.dueOn < second.dueOn && second.dueOn = snapshot.dueOn
    | _ => false

/-! ### Shares -/

/-- What an installment takes of a line. -/
structure Share where
  base : ℤ
  tax : ℤ
  deriving DecidableEq

/-- The shares of a deposit. -/
def deposits (amountMinor totalMinor : ℤ) : ℤ → ℤ → List SourceLine → List Share
  | _, _, [] => []
  | cumulativeGross, previousDeposit, line :: rest =>
    let cumulativeGross := cumulativeGross + line.gross
    let sum := half (amountMinor * cumulativeGross) totalMinor
    let gross := sum - previousDeposit
    let tax := if line.gross = 0 then 0 else half (gross * line.tax) line.gross
    ⟨gross - tax, tax⟩ :: deposits amountMinor totalMinor cumulativeGross sum rest

/-- The share of the installment at a place of the schedule. -/
def shareOf (single : Bool) (childIndex : ℕ) (line : SourceLine) (deposit : Share) : Share :=
  if single then ⟨line.base, line.tax⟩
  else if childIndex = 0 then deposit
  else ⟨line.base - deposit.base, line.tax - deposit.tax⟩

/-! ### Installments -/

structure PartLine where
  index : ℕ
  description : List ℕ
  amountMinor : ℤ
  taxMinor : ℤ
  sourceIndex : ℕ
  deriving DecidableEq

structure Part where
  kind : InstallmentKind
  dueOn : String
  subtotalMinor : ℤ
  taxMinor : ℤ
  totalMinor : ℤ
  lines : List PartLine
  deriving DecidableEq

/-- A line that has to be reviewed, with code TAX_ONLY_LINE_REVIEW_REQUIRED. -/
structure Hold where
  kind : InstallmentKind
  sourceIndex : ℕ
  deriving DecidableEq

def PartLine.taxOnly (line : PartLine) : Bool := line.amountMinor = 0 && 0 < line.taxMinor

def partLines (kind : InstallmentKind) :
    List Hold → List (SourceLine × Share) → Except Failure (List PartLine × List Hold)
  | holds, [] => .ok ([], holds)
  | holds, (line, allocation) :: rest => do
    let amountMinor ← safe allocation.base
    let taxMinor ← safe allocation.tax
    let row : PartLine := ⟨line.index, line.description, amountMinor, taxMinor, line.index⟩
    let holds := if row.taxOnly then holds ++ [⟨kind, line.index⟩] else holds
    let (lines, holds) ← partLines kind holds rest
    pure (row :: lines, holds)

def part (holds : List Hold) (row : Installment) (shares : List (SourceLine × Share)) :
    Except Failure (Part × List Hold) := do
  let (lines, holds) ← partLines row.kind holds shares
  let subtotalMinor ← safe (lines.map (·.amountMinor)).sum
  let taxMinor ← safe (lines.map (·.taxMinor)).sum
  let totalMinor ← safe (subtotalMinor + taxMinor)
  refuse (totalMinor ≠ row.amountMinor) (.status 409)
  pure (⟨row.kind, row.dueOn, subtotalMinor, taxMinor, totalMinor, lines⟩, holds)

/-- The loop over the installments from a place of the schedule on. -/
def parts (shares : ℕ → List (SourceLine × Share)) :
    ℕ → List Hold → List Installment → Except Failure (List Part × List Hold)
  | _, holds, [] => .ok ([], holds)
  | childIndex, holds, row :: rest => do
    let (first, holds) ← part holds row (shares childIndex)
    let (others, holds) ← parts shares (childIndex + 1) holds rest
    pure (first :: others, holds)

structure Allocated where
  installments : List Part
  holds : List Hold
  deriving DecidableEq

def allocateInstallments (snapshot : Preview) : Except Failure Allocated := do
  refuse (!day snapshot.dueOn || !snapshot.tax.isValid || snapshot.lines.isEmpty ||
    100 < snapshot.lines.length) (.status 409)
  refuse (!integer snapshot.subtotalMinor 0 max || !integer snapshot.taxMinor 0 max ||
    !integer snapshot.totalMinor 0 max) (.status 409)
  refuse (snapshot.totalMinor = 0) (.status 409)
  let (source, cumulative, tax) ← sourceLines snapshot.tax.rateBps 0 0 0 snapshot.lines
  refuse (cumulative ≠ snapshot.subtotalMinor || tax ≠ snapshot.taxMinor ||
    cumulative + tax ≠ snapshot.totalMinor) (.status 409)
  refuse (!isScheduled snapshot) (.status 409)
  let first := (snapshot.installments.map (·.amountMinor)).headD 0
  let deposit := deposits first snapshot.totalMinor 0 0 source
  let single := snapshot.installments.length = 1
  let shares := fun childIndex =>
    source.zipWith (fun line d => (line, shareOf single childIndex line d)) deposit
  let (installments, holds) ← parts shares 0 [] snapshot.installments
  pure ⟨installments, holds⟩

/-! ### Dates -/

/-- The year of a date is 0. -/
def inYearZero (value : String) : Bool := digits (value.toList.take 4) = some 0

theorem monthDays_eq (year : ℤ) {month : ℤ} (h0 : 0 ≤ month) (h12 : month < 12) :
    (monthDays (year % 4 = 0 && (year % 100 ≠ 0 || year % 400 = 0))).getD month.toNat 0 =
      monthLength (12 * year + month) := by
  have hleap : (decide (year % 4 = 0) && (decide (year % 100 ≠ 0) || decide (year % 400 = 0))) =
      leap year := rfl
  rw [hleap, monthLength_of year h0 h12]
  rcases month_cases month h0 h12 with rfl | rfl | rfl | rfl | rfl | rfl | rfl | rfl | rfl | rfl |
    rfl | rfl <;> cases hl : leap year <;> simp [monthDays, daysBefore, leapDay, hl]

/-- Dates are those of the calendar, from the year 1 on. -/
theorem day_iff (value : String) :
    day value = true ↔ validWorkedOn value = true ∧ inYearZero value = false := by
  unfold day validWorkedOn parseDate inYearZero
  split
  case h_2 => simp
  rename_i y₁ y₂ y₃ y₄ m₁ m₂ d₁ d₂ hlist
  rw [hlist, show [y₁, y₂, y₃, y₄, '-', m₁, m₂, '-', d₁, d₂].take 4 = [y₁, y₂, y₃, y₄] from rfl]
  obtain hyear | ⟨year, hyear⟩ := Option.eq_none_or_eq_some (digits [y₁, y₂, y₃, y₄])
  · simp [hyear]
  obtain hmonth | ⟨month, hmonth⟩ := Option.eq_none_or_eq_some (digits [m₁, m₂])
  · simp [hyear, hmonth]
  obtain hday | ⟨d, hday⟩ := Option.eq_none_or_eq_some (digits [d₁, d₂])
  · simp [hyear, hmonth, hday]
  have hpos := (digits_bound hyear).1
  simp only [hyear, hmonth, hday, Option.bind_eq_bind, Option.bind_some, Bool.and_eq_true,
    decide_eq_true_eq, decide_eq_false_iff_not, Option.some.injEq]
  by_cases hm : 1 ≤ month ∧ month ≤ 12
  · rw [monthDays_eq year (by omega) (by omega)]
    split
    · rename_i hok
      simp only [Option.isSome_some, true_and]
      omega
    · rename_i hbad
      simp only [Option.isSome_none, Bool.false_eq_true, false_and, iff_false]
      omega
  · rw [if_neg (by omega)]
    simp only [Option.isSome_none, Bool.false_eq_true, false_and, iff_false]
    omega

end Ashbi.Pilot.Installments

import Ashbi.Numeric.HalfUp

/-! Amounts of money, rounded to cents, and the totals of a document. -/

namespace Ashbi.Invoicing

/-- Amounts within half a cent are equal. -/
def centTolerance : ℚ := 5 / 1000

/-- `Math.round(value * 100) / 100`. -/
def roundMoney (value : ℚ) : ℚ := (round (value * 100) : ℚ) / 100

theorem roundMoney_eq (value : ℚ) : roundMoney value = Grid.near 100 value := by
  simp [roundMoney, Grid.near]

/-- A whole number of cents. -/
abbrev Cents (q : ℚ) : Prop := Grid.On 100 q

theorem cents_roundMoney (value : ℚ) : Cents (roundMoney value) := by
  rw [roundMoney_eq]
  exact Grid.on_near value

theorem roundMoney_of_cents {q : ℚ} (h : Cents q) : roundMoney q = q := by
  rw [roundMoney_eq]
  exact Grid.near_of_on h

theorem roundMoney_nonneg {q : ℚ} (h : 0 ≤ q) : 0 ≤ roundMoney q := by
  rw [roundMoney_eq]
  exact Grid.near_nonneg h

/-- Cents that differ by at most the tolerance do not differ. -/
theorem cents_le {p q : ℚ} (hp : Cents p) (hq : Cents q) (h : p ≤ q + centTolerance) : p ≤ q := by
  apply hp.le_of_lt_add hq
  simp only [centTolerance] at h
  norm_num
  linarith

structure Balance where
  amountPaid : ℚ
  balanceDue : ℚ

/-- An invoice's balance is its total minus its payments. -/
def invoiceBalance (total amountPaid : ℚ) : Balance :=
  let paid := roundMoney amountPaid
  ⟨paid, roundMoney (max 0 (roundMoney total - paid))⟩

theorem balanceDue_of_cents {total paid : ℚ} (h : Cents paid) :
    (invoiceBalance total paid).balanceDue = max 0 (roundMoney total - paid) := by
  simp only [invoiceBalance, roundMoney_of_cents h]
  apply roundMoney_of_cents
  exact Grid.On.zero.max ((cents_roundMoney total).sub h)

/-! ### What one payment does -/

inductive PaymentError
  | overpayment (balanceDue : ℚ)
  | invalidAmount
  | uniqueViolation
  | eventRejected
  deriving DecidableEq

structure Settlement where
  amount : ℚ
  fullyPaid : Bool
  deriving DecidableEq

/-- When nothing is owed only $0 closes the invoice; otherwise the amount must be positive. -/
def refusedAmount (balanceDue amount : ℚ) : Bool :=
  if balanceDue ≤ centTolerance then amount ≠ 0 else ¬ 0 < amount

/-- The checks of `applyInvoicePayment`; `requested` defaults to the balance. -/
def settlement (total paidBefore : ℚ) (requested : Option ℚ) : Except PaymentError Settlement :=
  let balanceDue := (invoiceBalance total paidBefore).balanceDue
  let amount := roundMoney (requested.getD balanceDue)
  if refusedAmount balanceDue amount then
    if 0 < amount then .error (.overpayment balanceDue) else .error .invalidAmount
  else if balanceDue + centTolerance < amount then .error (.overpayment balanceDue)
  else .ok ⟨amount, roundMoney total - centTolerance ≤ paidBefore + amount⟩

theorem nonneg_of_accepted {balanceDue amount : ℚ} (h : refusedAmount balanceDue amount = false) :
    0 ≤ amount := by
  unfold refusedAmount at h
  split at h
  · simp at h
    exact le_of_eq h.symm
  · simp at h
    exact le_of_lt h

/-- An accepted payment is in cents, not negative, and never more than is owed;
one that leaves the invoice open is positive. -/
theorem settlement_ok {total paid : ℚ} {requested : Option ℚ} {r : Settlement}
    (h : settlement total paid requested = .ok r) (hc : Cents paid)
    (hle : paid ≤ roundMoney total) :
    Cents r.amount ∧ 0 ≤ r.amount ∧ paid + r.amount ≤ roundMoney total ∧
      (r.fullyPaid = true ↔ roundMoney total - centTolerance ≤ paid + r.amount) ∧
      (r.fullyPaid = false → 0 < r.amount) := by
  have hbal : (invoiceBalance total paid).balanceDue = roundMoney total - paid := by
    rw [balanceDue_of_cents hc]
    apply max_eq_right
    linarith
  have hround := cents_roundMoney total
  simp only [settlement, hbal] at h
  generalize hamount : roundMoney (requested.getD (roundMoney total - paid)) = amount at h
  have hcents : Cents amount := hamount ▸ cents_roundMoney _
  split at h
  · split at h <;> cases h
  · rename_i hvalid
    split at h
    · cases h
    · rename_i hover
      cases h
      have haccepted := Bool.eq_false_iff.mpr hvalid
      have hle : amount ≤ roundMoney total - paid :=
        cents_le hcents (hround.sub hc) (not_lt.mp hover)
      refine ⟨hcents, nonneg_of_accepted haccepted, by linarith, by simp, fun hopen => ?_⟩
      -- an open rest means more than the tolerance is owed, so the amount was positive
      simp only [decide_eq_false_iff_not, not_le] at hopen
      have howed : ¬ roundMoney total - paid ≤ centTolerance := by
        have hpos := nonneg_of_accepted haccepted
        intro howed
        linarith
      simp [refusedAmount, howed] at haccepted
      exact haccepted

/-! ### `money-totals.js`: the amount of a line and the totals of a document -/

def lineTotal (quantity unitPrice : ℚ) : ℚ := roundMoney (quantity * unitPrice)

structure Totals where
  subtotal : ℚ
  preTax : ℚ
  tax : ℚ
  total : ℚ
  deriving DecidableEq

/-- `lines` are the totals of the lines, `taxRate` is in percent. -/
def invoiceTotals (lines : List ℚ) (taxRate discount : ℚ) : Totals :=
  let subtotal := roundMoney lines.sum
  let preTax := roundMoney (max 0 (subtotal - discount))
  let tax := roundMoney (preTax * taxRate / 100)
  ⟨subtotal, preTax, tax, roundMoney (preTax + tax)⟩

theorem invoiceTotals_nonneg {lines : List ℚ} {taxRate discount : ℚ} (h : 0 ≤ taxRate) :
    0 ≤ (invoiceTotals lines taxRate discount).total := by
  have hpre : 0 ≤ roundMoney (max 0 (roundMoney lines.sum - discount)) :=
    roundMoney_nonneg (le_max_left _ _)
  exact roundMoney_nonneg (add_nonneg hpre (roundMoney_nonneg (by positivity)))

end Ashbi.Invoicing

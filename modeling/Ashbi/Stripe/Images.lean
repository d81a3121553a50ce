import Ashbi.Stripe.Credits

/-! When the settlement of an invoice returns, and what: the checks as one condition on the answers
of the provider, and the image as a function of them. -/

namespace Ashbi.Stripe

open Checked Keyed

variable {n n' : ℕ} {r : Amounts} {provider : Provider} {value : Invoice} {op : Operation}
  {plan : Plan} {currency : String}

/-! ### Totals -/

def issuedOf (credits : List Credit) : List Credit := credits.filter (·.status = .issued)

/-- The amounts of the refunds of some statuses. -/
def amountsOf (refunds : List Refund) (statuses : List RefundStatus) : List ℤ :=
  (refunds.filter fun refund => statuses.contains refund.status).map (·.amountMinor)

theorem sumStatus_ok {complete : Bool} {refunds : List Refund} {statuses : List RefundStatus}
    {v : Option ℤ} : sumStatus complete refunds statuses = .ok v ↔
      (complete = true → SumOk (amountsOf refunds statuses)) ∧
        v = if complete then some (amountsOf refunds statuses).sum else none := by
  cases complete with
  | false =>
    simp only [sumStatus, Bool.false_eq_true, if_false, pure_ok, false_implies, true_and]
    exact eq_comm
  | true =>
    simp only [sumStatus, if_true, bind_ok, checkedSum_ok, pure_ok, forall_const]
    constructor
    · rintro ⟨_, ⟨hok, rfl⟩, rfl⟩
      exact ⟨hok, rfl⟩
    · rintro ⟨hok, rfl⟩
      exact ⟨_, ⟨hok, rfl⟩, rfl⟩

/-- What is checked of the totals. -/
structure TotalsOk (value : Invoice) (complete : Bool) (credits : List Credit)
    (refunds : List Refund) : Prop where
  pre : SumOk ((issuedOf credits).map (·.preMinor))
  post : SumOk ((issuedOf credits).map (·.postMinor))
  pre_eq : ((issuedOf credits).map (·.preMinor)).sum = value.prePaymentCreditNotesAmount
  post_eq : ((issuedOf credits).map (·.postMinor)).sum = value.postPaymentCreditNotesAmount
  balance : SumOk ((issuedOf credits).map (·.balanceCreditMinor))
  outOfBand : SumOk ((issuedOf credits).map (·.outOfBandMinor))
  allocated : SumOk ((issuedOf credits).map (·.refundAllocatedMinor))
  external : SumOk ((issuedOf credits).map (·.reportedExternalRefundMinor))
  refunded : complete = true → SumOk (amountsOf refunds [.succeeded])
  pending : complete = true → SumOk (amountsOf refunds [.pending, .requiresAction])
  failed : complete = true → SumOk (amountsOf refunds [.failed])
  canceled : complete = true → SumOk (amountsOf refunds [.canceled])

/-- The exact totals. -/
def totalsOf (value : Invoice) (recorded : ℤ) (complete : Bool) (credits : List Credit)
    (refunds : List Refund) : Totals :=
  let sumOf := fun statuses => if complete then some (amountsOf refunds statuses).sum else none
  { recordedPaymentMinor := recorded,
    unallocatedPaidMinor := value.amountPaid - recorded,
    preCreditMinor := ((issuedOf credits).map (·.preMinor)).sum,
    postCreditMinor := ((issuedOf credits).map (·.postMinor)).sum,
    balanceCreditMinor := ((issuedOf credits).map (·.balanceCreditMinor)).sum,
    outOfBandCreditMinor := ((issuedOf credits).map (·.outOfBandMinor)).sum,
    creditRefundAllocatedMinor := ((issuedOf credits).map (·.refundAllocatedMinor)).sum,
    reportedExternalRefundMinor := ((issuedOf credits).map (·.reportedExternalRefundMinor)).sum,
    refundAllocationComplete := complete,
    refundedMinor := sumOf [.succeeded],
    pendingRefundMinor := sumOf [.pending, .requiresAction],
    failedRefundMinor := sumOf [.failed],
    canceledRefundMinor := sumOf [.canceled] }

theorem totals_ok {recorded : ℤ} {complete : Bool} {credits : List Credit} {refunds : List Refund}
    {t : Totals} (hamount : money value.amountPaid = true) (hrecorded : 0 ≤ recorded)
    (hle : recorded ≤ value.amountPaid) :
    totals r value recorded complete credits refunds = .ok t ↔
      TotalsOk value complete credits refunds ∧
        t = totalsOf value recorded complete credits refunds := by
  have hminus : r.minus value.amountPaid recorded = value.amountPaid - recorded :=
    r.minus_eq hrecorded hle ((money_iff.mp hamount).2.trans (by decide))
  simp only [totals, bind_ok, checkedSum_ok, mismatch_ok, sumStatus_ok, pure_ok, hminus,
    Bool.or_eq_false_iff, decide_eq_false_iff_not, not_not]
  constructor
  · rintro ⟨_, ⟨hpre, rfl⟩, _, ⟨hpost, rfl⟩, _, ⟨hpreEq, hpostEq⟩, _, ⟨hbalance, rfl⟩, _,
      ⟨hband, rfl⟩, _, ⟨hallocated, rfl⟩, _, ⟨hexternal, rfl⟩, _, ⟨hrefunded, rfl⟩, _,
      ⟨hpending, rfl⟩, _, ⟨hfailed, rfl⟩, _, ⟨hcanceled, rfl⟩, rfl⟩
    exact ⟨⟨hpre, hpost, hpreEq, hpostEq, hbalance, hband, hallocated, hexternal, hrefunded,
      hpending, hfailed, hcanceled⟩, rfl⟩
  · rintro ⟨h, rfl⟩
    exact ⟨_, ⟨h.pre, rfl⟩, _, ⟨h.post, rfl⟩, (), ⟨h.pre_eq, h.post_eq⟩, _, ⟨h.balance, rfl⟩, _,
      ⟨h.outOfBand, rfl⟩, _, ⟨h.allocated, rfl⟩, _, ⟨h.external, rfl⟩, _, ⟨h.refunded, rfl⟩, _,
      ⟨h.pending, rfl⟩, _, ⟨h.failed, rfl⟩, _, ⟨h.canceled, rfl⟩, rfl⟩

/-! ### The settlement -/

def paymentsOf (provider : Provider) : List Payment := provider.payments.map paymentOf

/-- The references of the paid payments. -/
def referencesOf (provider : Provider) : List Key := keysOf (paymentsOf provider)

/-- The refunds that the payments list. -/
def baseOf (provider : Provider) : List Refund :=
  (referencesOf provider).flatMap (imagesOf provider)

/-- What the issued notes take from refunds. -/
def sharesIn (provider : Provider) : List Share := provider.creditNotes.flatMap noteShares

def refundsIn (provider : Provider) : List Refund :=
  merged Refund.id (known provider (baseOf provider) (sharesIn provider))

def creditsIn (provider : Provider) : List Credit := provider.creditNotes.map creditOf

def completeIn (provider : Provider) (op : Operation) : Bool :=
  (referencesOf provider).all (completeAt provider op)

def recordedIn (provider : Provider) : ℤ := ((paymentsOf provider).map (·.amountMinor)).sum

/-- What is checked of all answers. -/
structure Accepted (provider : Provider) (value : Invoice) (op : Operation) (currency : String) :
    Prop where
  paymentIds : Listed "inpay" (provider.payments.map PaymentRow.id)
  rows : ∀ row ∈ provider.payments, RowOk op currency row
  amounts : SumOk ((paymentsOf provider).map (·.amountMinor))
  recorded : recordedIn provider ≤ value.amountPaid
  references : ReferencesOk provider op currency (paymentsOf provider) (paymentsOf provider)
  noteIds : Listed "cn" (provider.creditNotes.map CreditNote.id)
  notes : NotesOk provider op currency (referencesOf provider) (baseOf provider)
    provider.creditNotes
  totals : TotalsOk value (completeIn provider op) (creditsIn provider) (refundsIn provider)

def imageOf (provider : Provider) (value : Invoice) (op : Operation) : Settlement :=
  { totalsOf value (recordedIn provider) (completeIn provider op) (creditsIn provider)
      (refundsIn provider) with
    payments := paymentsOf provider, credits := creditsIn provider,
    refunds := refundsIn provider }

/-- The reads of a settlement. -/
def readsOf (provider : Provider) : ℕ :=
  pageCount provider.payments.length + ((referencesOf provider).map (costOf provider)).sum +
    pageCount provider.creditNotes.length + noteReads (baseOf provider) provider.creditNotes

theorem ReferencesOk.money {all payments : List Payment}
    (h : ReferencesOk provider op currency all payments) (refund : Refund)
    (hmem : refund ∈ (keysOf payments).flatMap (imagesOf provider)) :
    Stripe.money refund.amountMinor = true := by
  obtain ⟨key, hkey, hmem⟩ := List.mem_flatMap.mp hmem
  obtain ⟨row, hrow, rfl⟩ := List.mem_map.mp hmem
  rcases h.1 key hkey with hrecord | ⟨remote, -, -, -, -, -, -, hrefunds, -⟩
  · rw [rowsOf, if_pos hrecord] at hrow
    cases hrow
  · exact wrongRefund_money (hrefunds row hrow)

theorem recorded_nonneg {values : List ℤ} (h : SumOk values) : 0 ≤ values.sum :=
  List.sum_nonneg fun v hv => (money_iff.mp (h.1 v hv)).1

/-- The settlement returns exactly where the answers are accepted and few enough, however its
additions round, and then it returns their image. -/
theorem settlement_returned {paid : Settlement} (hamount : money value.amountPaid = true) :
    settlement r provider value op plan n = .ok (paid, n') ↔
      Accepted provider value op plan.currency.toLower ∧ paid = imageOf provider value op ∧
        n' = n + readsOf provider ∧ n' ≤ readLimit := by
  simp only [settlement, bind_returned, list_returned, lift_returned, mapM_paymentRow,
    checkedSum_ok, mismatch_ok, pure_returned, decide_eq_false_iff_not, not_lt]
  constructor
  · rintro ⟨_, _, ⟨hids, rfl, rfl, hlimit⟩, _, _, ⟨⟨hrows, rfl⟩, rfl⟩, _, _,
      ⟨⟨hamounts, rfl⟩, rfl⟩, _,
      _, ⟨hrecorded, rfl⟩, books, _, hpayments, _, _, ⟨hnoteIds, rfl, rfl, hlimit'⟩, s, _, hnotes,
      sums, _, ⟨htotals, rfl⟩, rfl, rfl⟩
    obtain ⟨hreferences, rfl, rfl, -⟩ := (payments_returned hlimit).mp hpayments
    obtain ⟨hnotesOk, rfl, rfl, hle⟩ :=
      (notes_returned hreferences.2 hreferences.money hlimit').mp hnotes
    obtain ⟨htotalsOk, rfl⟩ := (totals_ok hamount (recorded_nonneg hamounts) hrecorded).mp htotals
    refine ⟨⟨hids, hrows, hamounts, hrecorded, hreferences, hnoteIds, hnotesOk, htotalsOk⟩, rfl, ?_,
      hle⟩
    rw [readsOf]
    simp only [referencesOf, paymentsOf, baseOf]
    omega
  · rintro ⟨h, rfl, hcost, hle⟩
    simp only [readsOf, referencesOf, baseOf] at hcost
    refine ⟨_, _, ⟨h.paymentIds, rfl, rfl, by omega⟩, _, _, ⟨⟨h.rows, rfl⟩, rfl⟩, _, _,
      ⟨⟨h.amounts, rfl⟩, rfl⟩, (), _, ⟨h.recorded, rfl⟩, _, _,
      (payments_returned (by omega)).mpr ⟨h.references, rfl, rfl, ?_⟩, _, _,
      ⟨h.noteIds, rfl, rfl, ?_⟩, _, _,
      (notes_returned h.references.2 h.references.money ?_).mpr ⟨h.notes, rfl, rfl, ?_⟩, _, _,
      ⟨(totals_ok hamount (recorded_nonneg h.amounts) h.recorded).mpr ⟨h.totals, rfl⟩, rfl⟩, rfl,
      ?_⟩
    all_goals simp only [paymentsOf] at *
    all_goals omega

end Ashbi.Stripe

import Ashbi.Stripe.Reordered

/-! The image of a settlement balances, in amounts that no addition has rounded, and no order of the
answers changes its totals. -/

namespace Ashbi.Stripe

open Checked Keyed

variable {provider provider' : Provider} {value : Invoice} {op : Operation} {currency : String}

/-! ### Sums -/

/-- Amounts of which every part has a sum that is an amount. -/
def SafeSums (addends : List ℤ) : Prop :=
  ∀ part : List ℤ, part.Sublist addends → money part.sum = true

theorem SafeSums.of_le {addends : List ℤ} (hnonneg : ∀ v ∈ addends, 0 ≤ v)
    (hle : addends.sum ≤ maxSafe) : SafeSums addends := by
  intro part hpart
  have hsum := hpart.sum_le_sum hnonneg
  exact money_iff.mpr ⟨List.sum_nonneg fun v hv => hnonneg v (hpart.subset hv), hsum.trans hle⟩

theorem SumOk.safeSums {addends : List ℤ} (h : SumOk addends) : SafeSums addends :=
  .of_le (fun v hv => (money_iff.mp (h.1 v hv)).1) h.2

theorem SafeSums.sublist {addends part : List ℤ} (h : SafeSums addends)
    (hpart : part.Sublist addends) : SafeSums part :=
  fun rest hrest => h rest (hrest.trans hpart)

/-! ### What the image says -/

/-- The numbers of an image. -/
def Settlement.numbers (paid : Settlement) : List ℤ :=
  [paid.recordedPaymentMinor, paid.unallocatedPaidMinor, paid.preCreditMinor,
    paid.postCreditMinor, paid.balanceCreditMinor, paid.outOfBandCreditMinor,
    paid.creditRefundAllocatedMinor, paid.reportedExternalRefundMinor] ++
  [paid.refundedMinor, paid.pendingRefundMinor, paid.failedRefundMinor,
    paid.canceledRefundMinor].filterMap id ++
  paid.payments.flatMap (fun p => [p.amountMinor, p.requestedMinor]) ++
  paid.credits.flatMap (fun c => [c.amountMinor, c.preMinor, c.postMinor, c.refundAllocatedMinor,
    c.reportedExternalRefundMinor, c.outOfBandMinor, c.balanceCreditMinor]) ++
  paid.refunds.map (·.amountMinor)

/-- The amounts of an issued note that its balance credit is left after. -/
def takenFrom (note : CreditNote) : List ℤ :=
  (sharesOf note.refunds).map Prod.snd ++ externalsOf note.refunds ++
    [note.outOfBandAmount.getD 0]

/-- The amounts that are added up on the way to an image, one list for each sum. -/
def addends (provider : Provider) (op : Operation) : List (List ℤ) :=
  [(paymentsOf provider).map (·.amountMinor)] ++
  (referencesOf provider).flatMap (fun key =>
    [amountsAt (paymentsOf provider) key.1, succeededAmounts (rowsOf provider key)]) ++
  provider.creditNotes.map (fun note => [note.prePaymentAmount, note.postPaymentAmount]) ++
  (refundsIn provider).map (fun refund =>
    ((sharesIn provider).filter (·.1 = refund.id)).map Prod.snd) ++
  (provider.creditNotes.filter (·.status = .issued)).map takenFrom ++
  [(issuedOf (creditsIn provider)).map (·.preMinor),
    (issuedOf (creditsIn provider)).map (·.postMinor),
    (issuedOf (creditsIn provider)).map (·.balanceCreditMinor),
    (issuedOf (creditsIn provider)).map (·.outOfBandMinor),
    (issuedOf (creditsIn provider)).map (·.refundAllocatedMinor),
    (issuedOf (creditsIn provider)).map (·.reportedExternalRefundMinor)] ++
  if completeIn provider op then
    [[.succeeded], [.pending, .requiresAction], [.failed], [.canceled]].map
      (amountsOf (refundsIn provider))
  else []

/-- The parts of an issued note's amount add up. -/
structure NoteBalanced (credit : Credit) : Prop where
  sum : credit.postMinor = credit.refundAllocatedMinor + credit.reportedExternalRefundMinor +
    credit.outOfBandMinor + credit.balanceCreditMinor
  allocated : 0 ≤ credit.refundAllocatedMinor
  external : 0 ≤ credit.reportedExternalRefundMinor
  outOfBand : 0 ≤ credit.outOfBandMinor
  balance : 0 ≤ credit.balanceCreditMinor

/-- An image that balances. -/
structure Balanced (provider : Provider) (value : Invoice) (op : Operation) (paid : Settlement) :
    Prop where
  amountPaid : paid.recordedPaymentMinor + paid.unallocatedPaidMinor = value.amountPaid
  recorded : 0 ≤ paid.recordedPaymentMinor
  unallocated : 0 ≤ paid.unallocatedPaidMinor
  /-- No refund is exceeded, and each that a note names is in the image. -/
  within : ∀ refund ∈ paid.refunds, amountTo (sharesIn provider) refund.id ≤ refund.amountMinor
  known : ∀ share ∈ sharesIn provider, share.1 ∈ paid.refunds.map Refund.id
  credits : paid.credits = provider.creditNotes.map creditOf
  notes : ∀ credit ∈ paid.credits, credit.status = .issued → NoteBalanced credit
  pre : paid.preCreditMinor = value.prePaymentCreditNotesAmount
  post : paid.postCreditMinor = value.postPaymentCreditNotesAmount
  numbers : ∀ v ∈ paid.numbers, money v = true
  sums : ∀ values ∈ addends provider op, SafeSums values

/-! ### Notes -/

section Notes

variable {note : CreditNote}

/-- The balance credit is what an issued note leaves. -/
theorem balanceCredit_eq (hissued : note.status = .issued) :
    (creditOf note).balanceCreditMinor = note.postPaymentAmount - (takenFrom note).sum := by
  simp only [creditOf, hissued, if_true, takenFrom, List.sum_append, List.sum_singleton]
  omega

variable (h : NoteOk provider op currency note)

include h

theorem NoteOk.taken (hissued : note.status = .issued) :
    (∀ v ∈ takenFrom note, 0 ≤ v) ∧ (takenFrom note).sum ≤ note.postPaymentAmount := by
  have hallocations := h.allocations hissued
  constructor
  · intro v hv
    simp only [takenFrom, List.mem_append, List.mem_singleton] at hv
    rcases hv with (hv | hv) | rfl
    · exact (money_iff.mp (sharesOf_money hallocations v hv)).1
    · exact (money_iff.mp (externalsOf_money hallocations v hv)).1
    · exact (money_iff.mp h.outOfBand).1
  · have hrest := h.rest hissued
    rw [balanceCredit_eq hissued] at hrest
    omega

theorem NoteOk.balanced (hissued : note.status = .issued) : NoteBalanced (creditOf note) := by
  have hallocations := h.allocations hissued
  have hrest := h.rest hissued
  have hshares : 0 ≤ ((sharesOf note.refunds).map Prod.snd).sum :=
    List.sum_nonneg fun v hv => (money_iff.mp (sharesOf_money hallocations v hv)).1
  have hexternals : 0 ≤ (externalsOf note.refunds).sum :=
    List.sum_nonneg fun v hv => (money_iff.mp (externalsOf_money hallocations v hv)).1
  have hband := (money_iff.mp h.outOfBand).1
  refine ⟨?_, ?_, ?_, hband, hrest⟩
  all_goals simp only [creditOf, hissued, if_true]
  · omega
  · exact hshares
  · exact hexternals

theorem NoteOk.numbers : ∀ v ∈ [(creditOf note).amountMinor, (creditOf note).preMinor,
    (creditOf note).postMinor, (creditOf note).refundAllocatedMinor,
    (creditOf note).reportedExternalRefundMinor, (creditOf note).outOfBandMinor,
    (creditOf note).balanceCreditMinor], money v = true := by
  obtain ⟨hamount, hpre, hpost⟩ := wrongNote_money h.checked
  have hparts : money (creditOf note).refundAllocatedMinor = true ∧
      money (creditOf note).reportedExternalRefundMinor = true ∧
        money (creditOf note).balanceCreditMinor = true := by
    by_cases hissued : note.status = .issued
    · obtain ⟨hsum, hallocated, hexternal, hband, hbalance⟩ := h.balanced hissued
      have hle : (creditOf note).postMinor ≤ maxSafe := (money_iff.mp hpost).2
      simp only [money_iff]
      omega
    · have hzero : money 0 = true := by decide
      simp only [creditOf, hissued, if_false, hzero, and_self]
  intro v hv
  simp only [List.mem_cons, List.not_mem_nil, or_false] at hv
  rcases hv with rfl | rfl | rfl | rfl | rfl | rfl | rfl
  · exact hamount
  · exact hpre
  · exact hpost
  · exact hparts.1
  · exact hparts.2.1
  · exact h.outOfBand
  · exact hparts.2.2

end Notes

/-! ### Accepted answers -/

theorem SumOk.total {values : List ℤ} (h : SumOk values) : money values.sum = true :=
  money_iff.mpr ⟨recorded_nonneg h, h.2⟩

section Accepted

variable (h : Accepted provider value op currency)

include h

theorem Accepted.shares : SharesOk provider op currency (referencesOf provider) (baseOf provider)
    (sharesIn provider) :=
  h.notes.2

theorem Accepted.consistent : Consistent Refund.id
    (Stripe.known provider (baseOf provider) (sharesIn provider)) :=
  h.shares.consistent h.references.2

theorem Accepted.refunds (refund : Refund) (hmem : refund ∈ refundsIn provider) :
    refund ∈ Stripe.known provider (baseOf provider) (sharesIn provider) :=
  (mem_merged h.consistent).mp hmem

theorem Accepted.refund_money (refund : Refund) (hmem : refund ∈ refundsIn provider) :
    money refund.amountMinor = true :=
  h.shares.amounts h.references.money refund (h.refunds refund hmem)

theorem Accepted.share_known (share : Share) (hmem : share ∈ sharesIn provider) :
    share.1 ∈ (refundsIn provider).map Refund.id := by
  have hids : share.1 ∈ (Stripe.known provider (baseOf provider) (sharesIn provider)).map
      Refund.id := by
    rw [h.shares.mem_ids]
    by_cases hbase : share.1 ∈ (baseOf provider).map Refund.id
    · exact .inl hbase
    · exact .inr (mem_fetchedIds.mpr ⟨hbase, List.mem_map_of_mem hmem⟩)
  obtain ⟨refund, hrefund, hid⟩ := List.mem_map.mp hids
  exact List.mem_map.mpr ⟨refund, (mem_merged h.consistent).mpr hrefund, hid⟩

/-- Every number of the image is an amount. -/
theorem Accepted.numbers (hamount : money value.amountPaid = true) :
    ∀ v ∈ (imageOf provider value op).numbers, money v = true := by
  have hrecorded : money (recordedIn provider) = true := h.amounts.total
  have hunallocated : money (value.amountPaid - recordedIn provider) = true := by
    have hle := h.recorded
    rw [money_iff] at hrecorded hamount ⊢
    omega
  intro v hv
  simp only [Settlement.numbers, List.mem_append] at hv
  rcases hv with (((hv | hv) | hv) | hv) | hv
  · simp only [imageOf, totalsOf, List.mem_cons, List.not_mem_nil, or_false] at hv
    rcases hv with rfl | rfl | rfl | rfl | rfl | rfl | rfl | rfl
    · exact hrecorded
    · exact hunallocated
    · exact h.totals.pre.total
    · exact h.totals.post.total
    · exact h.totals.balance.total
    · exact h.totals.outOfBand.total
    · exact h.totals.allocated.total
    · exact h.totals.external.total
  · cases hcomplete : completeIn provider op with
    | false => simp [imageOf, totalsOf, hcomplete] at hv
    | true =>
      simp only [imageOf, totalsOf, hcomplete, if_true, List.filterMap_cons, id_eq,
        List.filterMap_nil, List.mem_cons, List.not_mem_nil, or_false] at hv
      rcases hv with rfl | rfl | rfl | rfl
      · exact (h.totals.refunded hcomplete).total
      · exact (h.totals.pending hcomplete).total
      · exact (h.totals.failed hcomplete).total
      · exact (h.totals.canceled hcomplete).total
  · obtain ⟨p, hp, hv⟩ := List.mem_flatMap.mp hv
    simp only [List.mem_cons, List.not_mem_nil, or_false] at hv
    rcases hv with rfl | rfl
    · exact h.amounts.1 _ (List.mem_map_of_mem hp)
    · obtain ⟨row, hrow, rfl⟩ := List.mem_map.mp hp
      have hwrong := (h.rows row hrow).1
      simp only [wrongPayment, Bool.or_eq_false_iff, Bool.not_eq_false'] at hwrong
      exact hwrong.1.1.2
  · obtain ⟨credit, hcredit, hv⟩ := List.mem_flatMap.mp hv
    obtain ⟨note, hnote, rfl⟩ := List.mem_map.mp hcredit
    exact (h.notes.1 note hnote).numbers v hv
  · obtain ⟨refund, hrefund, rfl⟩ := List.mem_map.mp hv
    exact h.refund_money refund hrefund

/-- Every sum on the way to the image, and every part of it, is an amount. -/
theorem Accepted.sums : ∀ values ∈ addends provider op, SafeSums values := by
  have hpayments := h.amounts.safeSums
  intro values hmem
  simp only [addends, List.mem_append, or_assoc] at hmem
  rcases hmem with hmem | hmem | hmem | hmem | hmem | hmem | hmem
  · rw [List.mem_singleton.mp hmem]
    exact hpayments
  · obtain ⟨key, hkey, hmem⟩ := List.mem_flatMap.mp hmem
    simp only [List.mem_cons, List.not_mem_nil, or_false] at hmem
    rcases hmem with rfl | rfl
    · exact hpayments.sublist (List.filter_sublist.map _)
    · rcases h.references.1 key hkey with hrecord | ⟨_, -, -, -, -, -, -, -, hsum, -⟩
      · rw [rowsOf, if_pos hrecord]
        exact .of_le (fun v hv => (List.not_mem_nil hv).elim) (by decide)
      · exact hsum.safeSums
  · obtain ⟨note, hnote, rfl⟩ := List.mem_map.mp hmem
    have hok := h.notes.1 note hnote
    obtain ⟨hamount, hpre, hpost⟩ := wrongNote_money hok.checked
    refine .of_le ?_ ?_
    · simp only [List.mem_cons, List.not_mem_nil, or_false]
      rintro v (rfl | rfl)
      · exact (money_iff.mp hpre).1
      · exact (money_iff.mp hpost).1
    · simp only [List.sum_cons, List.sum_nil, add_zero, ← hok.split]
      exact (money_iff.mp hamount).2
  · obtain ⟨refund, hrefund, rfl⟩ := List.mem_map.mp hmem
    refine .of_le ?_ ?_
    · intro v hv
      obtain ⟨share, hshare, rfl⟩ := List.mem_map.mp hv
      exact (money_iff.mp (h.shares.amount share (List.mem_filter.mp hshare).1)).1
    · exact (h.shares.within refund (h.refunds refund hrefund)).trans
        (money_iff.mp (h.refund_money refund hrefund)).2
  · obtain ⟨note, hnote, rfl⟩ := List.mem_map.mp hmem
    obtain ⟨hnote, hissued⟩ := List.mem_filter.mp hnote
    have hok := h.notes.1 note hnote
    obtain ⟨hnonneg, hle⟩ := hok.taken (of_decide_eq_true hissued)
    exact .of_le hnonneg (hle.trans (money_iff.mp (wrongNote_money hok.checked).2.2).2)
  · simp only [List.mem_cons, List.not_mem_nil, or_false] at hmem
    rcases hmem with rfl | rfl | rfl | rfl | rfl | rfl
    · exact h.totals.pre.safeSums
    · exact h.totals.post.safeSums
    · exact h.totals.balance.safeSums
    · exact h.totals.outOfBand.safeSums
    · exact h.totals.allocated.safeSums
    · exact h.totals.external.safeSums
  · split at hmem
    · rename_i hcomplete
      simp only [List.map_cons, List.map_nil, List.mem_cons, List.not_mem_nil, or_false] at hmem
      rcases hmem with rfl | rfl | rfl | rfl
      · exact (h.totals.refunded hcomplete).safeSums
      · exact (h.totals.pending hcomplete).safeSums
      · exact (h.totals.failed hcomplete).safeSums
      · exact (h.totals.canceled hcomplete).safeSums
    · cases hmem

theorem Accepted.balanced (hamount : money value.amountPaid = true) :
    Balanced provider value op (imageOf provider value op) where
  amountPaid := by
    simp only [imageOf, totalsOf]
    omega
  recorded := recorded_nonneg h.amounts
  unallocated := Int.sub_nonneg_of_le h.recorded
  within := fun refund hmem => h.shares.within refund (h.refunds refund hmem)
  known := h.share_known
  credits := rfl
  notes := by
    intro credit hcredit hissued
    obtain ⟨note, hnote, rfl⟩ := List.mem_map.mp hcredit
    exact (h.notes.1 note hnote).balanced hissued
  pre := h.totals.pre_eq
  post := h.totals.post_eq
  numbers := h.numbers hamount
  sums := h.sums

end Accepted

/-! ### Settlements -/

theorem invoiceIdentity_money {r : Amounts} {plan : Plan} {u : Unit}
    (h : invoiceIdentity r value op plan = .ok u) : money value.amountPaid = true := by
  simp only [invoiceIdentity, bind_ok, mismatch_ok, Bool.not_eq_false', List.all_cons,
    Bool.and_eq_true] at h
  obtain ⟨_, -, _, -, _, hmoney, -⟩ := h
  exact hmoney.2.1

/-- The totals of a settlement that returned, and the reads it has made. -/
def outcome (result : Except Fault (Settlement × ℕ)) : Option (Totals × ℕ) :=
  match result with
  | .ok (paid, reads) => some (paid.toTotals, reads)
  | .error _ => none

theorem outcome_permuted {r : Amounts} {plan : Plan} {reads reads' : ℕ} {paid : Settlement}
    (hamount : money value.amountPaid = true) (hperm : Permuted provider provider')
    (hapart : TypesApart provider.payments)
    (h : settlement r provider value op plan reads = .ok (paid, reads')) :
    outcome (settlement r provider' value op plan reads) = some (paid.toTotals, reads') := by
  obtain ⟨haccepted, rfl, rfl, hle⟩ := (settlement_returned hamount).mp h
  have halike := hperm.alike hapart haccepted
  have hreads := hperm.readsOf hapart haccepted
  have hreturned : settlement r provider' value op plan reads =
      .ok (imageOf provider' value op, reads + readsOf provider') :=
    (settlement_returned hamount).mpr
      ⟨hperm.accepted hapart haccepted, rfl, rfl, by rwa [← hreads]⟩
  have hrecorded : recordedIn provider' = recordedIn provider :=
    (halike.payments.symm.map _).sum_eq
  rw [hreturned, outcome, hreads]
  simp only [imageOf, hrecorded, ← halike.complete,
    totalsOf_perm halike.credits.symm halike.refunds.symm]

/-- A settlement that returns balances, in amounts that are not rounded on the way: any rounding of
what is too large gives the same. Answers in another order give the same totals, if any. -/
theorem settlement_balances {r : Amounts} {plan : Plan} {u : Unit} {reads : ℕ}
    (hidentity : invoiceIdentity r value op plan = .ok u) :
    (∀ {paid : Settlement} {reads' : ℕ},
      settlement r provider value op plan reads = .ok (paid, reads') →
        Balanced provider value op paid ∧
          ∀ r' : Amounts, settlement r' provider value op plan reads = .ok (paid, reads')) ∧
    (TypesApart provider.payments → ∀ {provider' : Provider}, Permuted provider provider' →
      outcome (settlement r provider' value op plan reads) =
        outcome (settlement r provider value op plan reads)) := by
  have hamount := invoiceIdentity_money hidentity
  constructor
  · intro paid reads' h
    obtain ⟨haccepted, rfl, hcost, hle⟩ := (settlement_returned hamount).mp h
    exact ⟨haccepted.balanced hamount,
      fun r' => (settlement_returned hamount).mpr ⟨haccepted, rfl, hcost, hle⟩⟩
  · intro hapart provider' hperm
    match hrun : settlement r provider value op plan reads with
    | .ok (paid, reads') => exact outcome_permuted hamount hperm hapart hrun
    | .error fault =>
      match hrun' : settlement r provider' value op plan reads with
      | .error fault' => rfl
      | .ok (paid, reads') =>
        -- an order that returned would make the other return
        have hback := outcome_permuted hamount hperm.symm (hapart.perm hperm.payments) hrun'
        rw [hrun] at hback
        cases hback

/-! ### A settlement with refunds -/

def sampleOperation : Operation :=
  { id := "op-1", invoiceId := "invoice-1", stripeInvoiceId := "in_1", customerId := "cus_1" }

def samplePlan : Plan :=
  { title := "Website", currency := "CAD", fingerprint := "f1", dueAt := 1790000000,
    totalMinor := 2000 }

def sampleInvoice : Invoice :=
  { id := "in_1", object := "invoice", livemode := some false, customer := "cus_1",
    currency := "cad", description := "Website", ashbiInvoice := some "invoice-1",
    ashbiOperation := some "op-1", ashbiPlan := some "f1", dueDate := some 1790000000,
    collectionMethod := "send_invoice", autoAdvance := some false, onBehalfOf := none,
    issuerType := none, amountShipping := 0, automaticTaxEnabled := some false,
    discounts := some [], defaultTaxRates := some [], status := .open, startingBalance := 0,
    amountDue := 2000, amountPaid := 1050, amountRemaining := 690, amountOverpaid := 0,
    prePaymentCreditNotesAmount := 0, postPaymentCreditNotesAmount := 260,
    statusTransitions := some { finalizedAt := some 1780000000, markedUncollectibleAt := none,
                                paidAt := none, voidedAt := none } }

def samplePayment (id reference : String) (type : PaymentType) (amount : ℤ) : PaymentRow :=
  { id, object := "invoice_payment", invoice := "in_1", currency := "cad", livemode := some false,
    status := .paid, amountRequested := amount, amountPaid := some amount,
    payment := some { type := some type, paymentIntent := some reference, charge := some reference,
                      paymentRecord := some reference } }

def sampleRemote (type : PaymentType) (amount : ℤ) (id : String) : Except Fault Remote :=
  .ok { id, object := type.name, livemode := some false, customer := "cus_1", currency := "cad",
        amountReceived := amount, amount }

def sampleRefund (id : String) (amount : ℤ) (status : RefundStatus) : RefundRow :=
  { id, object := "refund", currency := "cad", livemode := none, amount, status,
    paymentIntent := some "pi_1", charge := none, customer := none }

def sampleNote : CreditNote :=
  { id := "cn_1", object := "credit_note", invoice := "in_1", customer := "cus_1",
    currency := "cad", livemode := some false, status := .issued, amount := 260,
    prePaymentAmount := 0, postPaymentAmount := 260,
    refunds := [⟨150, some .refund, "re_1", none⟩, ⟨30, none, "re_3", none⟩,
      ⟨20, some .paymentRecordRefund, "", some ⟨"record_1", "group_1"⟩⟩],
    outOfBandAmount := some 10, customerBalanceTransaction := "cbtxn_1" }

/-- Two payments, one with two refunds, and a note that names a third refund and leaves a
balance. -/
def sampleProvider : Provider :=
  { payments := [samplePayment "inpay_1" "pi_1" .paymentIntent 700,
      samplePayment "inpay_2" "ch_1" .charge 300],
    paymentIntent := sampleRemote .paymentIntent 700,
    charge := sampleRemote .charge 300,
    refundsOf := fun type _ => if type = .paymentIntent then
      [sampleRefund "re_1" 200 .succeeded, sampleRefund "re_2" 50 .pending] else [],
    related := fun _ => [samplePayment "inpay_1" "pi_1" .paymentIntent 700],
    creditNotes := [sampleNote, { sampleNote with id := "cn_2", status := .void }],
    refund := fun id => .ok (sampleRefund id 30 .succeeded),
    balanceTransaction := fun id => .ok
      { id, object := "customer_balance_transaction", customer := "cus_1", currency := "cad",
        type := "credit_note", creditNote := "cn_1", amount := -50 } }

/-- The same answers, with the payments and the notes the other way round. -/
def sampleReversed : Provider :=
  { sampleProvider with payments := sampleProvider.payments.reverse,
                        creditNotes := sampleProvider.creditNotes.reverse }

def sampleTotals : Totals :=
  { recordedPaymentMinor := 1000, unallocatedPaidMinor := 50, preCreditMinor := 0,
    postCreditMinor := 260, balanceCreditMinor := 50, outOfBandCreditMinor := 10,
    creditRefundAllocatedMinor := 180, reportedExternalRefundMinor := 20,
    refundAllocationComplete := true, refundedMinor := some 230, pendingRefundMinor := some 50,
    failedRefundMinor := some 0, canceledRefundMinor := some 0 }

theorem settlement_balances_sample :
    Balanced sampleProvider sampleInvoice sampleOperation
        (imageOf sampleProvider sampleInvoice sampleOperation) ∧
      outcome (settlement (.none (by decide)) sampleReversed sampleInvoice sampleOperation
        samplePlan 4) = some (sampleTotals, 13) := by
  have hidentity : invoiceIdentity (.none (by decide)) sampleInvoice sampleOperation samplePlan =
      .ok () := by decide +kernel
  have hrun : settlement (.none (by decide)) sampleProvider sampleInvoice sampleOperation
      samplePlan 4 = .ok (imageOf sampleProvider sampleInvoice sampleOperation, 13) := by
    decide +kernel
  have hpermuted : Permuted sampleProvider sampleReversed := by
    refine ⟨(List.reverse_perm _).symm, rfl, rfl, fun _ _ => .refl _, fun _ => .refl _,
      ⟨_, (List.reverse_perm _).symm, ?_⟩, rfl, rfl⟩
    exact List.forall₂_same.mpr fun note _ => ⟨.refl _, rfl⟩
  have hapart : TypesApart sampleProvider.payments := by
    have hall : ∀ a ∈ sampleProvider.payments, ∀ b ∈ sampleProvider.payments,
        a.payment.bind Source.reference = b.payment.bind Source.reference →
          a.payment.bind Source.type = b.payment.bind Source.type := by decide +kernel
    exact fun a ha b hb reference hreference hreference' =>
      hall a ha b hb (hreference.trans hreference'.symm)
  refine ⟨((settlement_balances hidentity).1 hrun).1, ?_⟩
  rw [(settlement_balances hidentity).2 hapart hpermuted, hrun, outcome]
  decide +kernel

end Ashbi.Stripe

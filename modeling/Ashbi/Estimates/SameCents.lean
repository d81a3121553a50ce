import Ashbi.Estimates.Estimate

/-! An estimate, its proposal and the invoice of that bill the same cents. -/

namespace Ashbi.Estimates

open Drafts Invoicing

/-- The totals of an estimate, from its stored lines, rate and tax. -/
def Estimate.totals (e : Estimate) : EstimateTotals :=
  computeEstimateTotals e.lineItems e.taxRate (some e.tax)

/-- The invoice that the unedited proposal of the estimate is billed with. -/
def Estimate.invoice (e : Estimate) (createdById organizationId proposalId : String)
    (convertedAt billedAt : Time) : Draft :=
  proposalDraft organizationId
    ((proposalDataFromEstimate e createdById convertedAt).terms proposalId none) billedAt

/-- Estimate, proposal and invoice agree, and so does the tax shown for the proposal. -/
structure SameCents (e : Estimate) (proposal : Proposal) (invoice : Draft) : Prop where
  proposalSubtotal : proposal.subtotal = e.totals.subtotal
  subtotal : invoice.subtotal = e.totals.subtotal
  tax : invoice.tax = e.totals.tax
  total : invoice.total = e.totals.total
  shown : ∀ loaded, (proposalTaxSummary proposal loaded).tax = invoice.tax ∧
    (proposalTaxSummary proposal loaded).totalWithTax = invoice.total

/-- A fixed tax amount is what its percentage, rounded to four decimals, comes to. -/
def Estimate.RateFits (e : Estimate) : Prop :=
  0 ≤ e.totals.subtotal ∧ estimateTaxRate none e.totals ≤ 100 ∧
    roundMoney (e.totals.subtotal * estimateTaxRate none e.totals / 100) = e.totals.tax

instance (e : Estimate) : Decidable e.RateFits := inferInstanceAs (Decidable (_ ∧ _ ∧ _))

variable {e : Estimate} {createdById organizationId proposalId : String}
  {convertedAt billedAt : Time}

/-! ### The subtotals -/

theorem proposalLine_total (items : List EstimateLine) :
    (items.map proposalLine).map (·.total) =
      items.map fun item => estimateLineAmount item.quantity item.rate := by
  simp [proposalLine, computeProposalLineItem, estimateLineAmount]

theorem totals_subtotal :
    e.totals.subtotal =
      roundMoney (e.lineItems.map fun item => estimateLineAmount item.quantity item.rate).sum := by
  unfold Estimate.totals computeEstimateTotals
  split <;> rfl

theorem proposal_subtotal :
    (proposalDataFromEstimate e createdById convertedAt).subtotal = e.totals.subtotal := by
  rw [totals_subtotal, ← proposalLine_total]
  rfl

theorem proposal_total :
    (proposalDataFromEstimate e createdById convertedAt).total = max 0 e.totals.subtotal := by
  have hcents : Cents (max 0 (roundMoney
      (e.lineItems.map fun item => estimateLineAmount item.quantity item.rate).sum)) :=
    Grid.On.zero.max (cents_roundMoney _)
  simp only [proposalDataFromEstimate, proposalTotals, proposalLine_total, sub_zero,
    roundMoney_of_cents hcents, totals_subtotal]

theorem cents_subtotal : Cents e.totals.subtotal := by
  rw [totals_subtotal]
  exact cents_roundMoney _

/-- Tax and total at a percentage of the subtotal. -/
def taxAt (subtotal rate : ℚ) : ℚ × ℚ :=
  let preTax := max 0 subtotal
  let tax := roundMoney (preTax * rate / 100)
  (tax, preTax + tax)

theorem invoiceTotals_taxAt {lines : List ℚ} {rate : ℚ} :
    invoiceTotals lines rate 0 =
      let subtotal := roundMoney lines.sum
      ⟨subtotal, max 0 subtotal, (taxAt subtotal rate).1, (taxAt subtotal rate).2⟩ := by
  have hpre : Cents (max 0 (roundMoney lines.sum)) := Grid.On.zero.max (cents_roundMoney _)
  simp only [invoiceTotals, sub_zero, roundMoney_of_cents hpre, taxAt]
  rw [roundMoney_of_cents (hpre.add (cents_roundMoney _))]

/-! ### The rate of the proposal -/

/-- The rate that the proposal of the estimate is taxed with. -/
def Estimate.proposalRate (e : Estimate) : ℚ :=
  let rate := estimateTaxRate e.taxRate e.totals
  if 0 ≤ rate ∧ rate ≤ 100 then rate else defaultProposalTaxRate

theorem proposal_rate :
    proposalTaxRate (proposalDataFromEstimate e createdById convertedAt).metadata =
      e.proposalRate := by
  simp only [proposalDataFromEstimate, proposalTaxRate, Estimate.proposalRate, Estimate.totals,
    decide_true, Bool.true_and, Bool.and_eq_true, decide_eq_true_eq]
  congr

theorem invoice_totals (e : Estimate) (createdById organizationId proposalId : String)
    (convertedAt billedAt : Time) :
    let invoice := e.invoice createdById organizationId proposalId convertedAt billedAt
    invoice.subtotal = e.totals.subtotal ∧
      invoice.tax = (taxAt e.totals.subtotal e.proposalRate).1 ∧
      invoice.total = (taxAt e.totals.subtotal e.proposalRate).2 := by
  simp only [Estimate.invoice, proposalDraft, totalsOf, Proposal.terms, proposal_rate,
    numbered_total proposalLineItem (·.total) fun _ _ => rfl]
  simp only [proposalDataFromEstimate, proposalLine_total, invoiceTotals_taxAt, totals_subtotal]
  exact ⟨trivial, trivial, trivial⟩

/-- The tax shown for the proposal does not depend on its lines having been loaded. -/
theorem summary_totals (loaded : Bool) :
    let summary := proposalTaxSummary (proposalDataFromEstimate e createdById convertedAt) loaded
    summary.tax = (taxAt e.totals.subtotal e.proposalRate).1 ∧
      summary.totalWithTax = (taxAt e.totals.subtotal e.proposalRate).2 := by
  cases loaded with
  | true =>
    simp only [proposalTaxSummary, proposal_rate, if_true]
    simp only [proposalDataFromEstimate, proposalLine_total, invoiceTotals_taxAt, totals_subtotal]
    exact ⟨trivial, trivial⟩
  | false =>
    have hlines : invoiceTotals [max 0 (max 0 e.totals.subtotal)] e.proposalRate 0 =
        ⟨max 0 e.totals.subtotal, max 0 e.totals.subtotal,
          (taxAt e.totals.subtotal e.proposalRate).1,
          (taxAt e.totals.subtotal e.proposalRate).2⟩ := by
      have hpre : Cents (max 0 e.totals.subtotal) := Grid.On.zero.max cents_subtotal
      simp [invoiceTotals_taxAt, taxAt, roundMoney_of_cents hpre]
    simp only [proposalTaxSummary, proposal_rate, proposal_total, Bool.false_eq_true, if_false,
      hlines, and_self]

theorem sameCents_iff_taxAt :
    SameCents e (proposalDataFromEstimate e createdById convertedAt)
        (e.invoice createdById organizationId proposalId convertedAt billedAt) ↔
      taxAt e.totals.subtotal e.proposalRate = (e.totals.tax, e.totals.total) := by
  obtain ⟨hsubtotal, htax, htotal⟩ := invoice_totals e createdById organizationId proposalId
    convertedAt billedAt
  constructor
  · intro h
    rw [← h.tax, ← h.total, htax, htotal]
  · intro h
    have htax' := htax.trans (congrArg Prod.fst h)
    have htotal' := htotal.trans (congrArg Prod.snd h)
    refine ⟨proposal_subtotal, hsubtotal, htax', htotal', fun loaded => ?_⟩
    rw [htax, htotal]
    exact summary_totals loaded

/-! ### The rate that a fixed tax implies -/

theorem taxAt_of_nonneg {subtotal rate : ℚ} (h : 0 ≤ subtotal) :
    taxAt subtotal rate =
      (roundMoney (subtotal * rate / 100), subtotal + roundMoney (subtotal * rate / 100)) := by
  simp [taxAt, max_eq_right h]

/-- A stored rate is carried over, and the totals are made with it. -/
theorem taxAt_stored {rate : ℚ} (h : e.taxRate = some rate) (hpos : 0 ≤ rate) (hle : rate ≤ 100) :
    taxAt e.totals.subtotal e.proposalRate = (e.totals.tax, e.totals.total) := by
  have hrate : e.proposalRate = rate := by
    simp [Estimate.proposalRate, estimateTaxRate, h, hpos, hle]
  rw [hrate]
  simp only [Estimate.totals, computeEstimateTotals, h, invoiceTotals_taxAt]

theorem fixed_tax_total (h : e.taxRate = none) :
    e.totals.tax = roundMoney e.tax ∧ e.totals.total = e.totals.subtotal + e.totals.tax := by
  have hcents : Cents e.totals.tax := by
    simp only [Estimate.totals, computeEstimateTotals, h]
    exact cents_roundMoney _
  have hsum := roundMoney_of_cents ((cents_subtotal (e := e)).add hcents)
  simp only [Estimate.totals, computeEstimateTotals, h, Option.getD_some] at hsum ⊢
  exact ⟨trivial, hsum⟩

theorem estimateTaxRate_nonneg {totals : EstimateTotals} (h : 0 ≤ totals.tax) :
    0 ≤ estimateTaxRate none totals := by
  simp only [estimateTaxRate]
  split
  · exact Grid.near_nonneg (by positivity)
  · exact le_rfl

/-- A percentage above 100 stands for a tax above the subtotal. -/
theorem subtotal_lt_tax {totals : EstimateTotals} (h : 100 < estimateTaxRate none totals) :
    totals.subtotal < totals.tax := by
  simp only [estimateTaxRate] at h
  split at h
  case isTrue hpos =>
    by_contra hle
    have hpercent : totals.tax / totals.subtotal * 100 ≤ 100 := by
      have hdiv : totals.tax / totals.subtotal ≤ 1 := (div_le_one hpos).mpr (not_lt.mp hle)
      linarith
    have hround : roundRate (totals.tax / totals.subtotal * 100) ≤ roundRate 100 :=
      Grid.near_mono hpercent
    have hhundred : roundRate 100 = 100 := Grid.near_of_on ⟨1000000, by norm_num⟩
    linarith
  case isFalse => linarith

/-- The default rate never gives a tax above the subtotal. -/
theorem default_tax_le {subtotal : ℚ} (h : 0 ≤ subtotal) (hcents : Cents subtotal) :
    roundMoney (subtotal * defaultProposalTaxRate / 100) ≤ subtotal := by
  have hle : subtotal * defaultProposalTaxRate / 100 ≤ subtotal := by
    simp only [defaultProposalTaxRate]
    linarith
  have hround := Grid.near_mono (n := 100) hle
  rwa [← roundMoney_eq, ← roundMoney_eq, roundMoney_of_cents hcents] at hround

theorem taxAt_fixed_iff (h : e.taxRate = none) (htax : 0 ≤ e.tax) :
    taxAt e.totals.subtotal e.proposalRate = (e.totals.tax, e.totals.total) ↔ e.RateFits := by
  obtain ⟨hrounded, htotal⟩ := fixed_tax_total h
  have hnonneg : 0 ≤ e.totals.tax := hrounded ▸ roundMoney_nonneg htax
  have hrate := estimateTaxRate_nonneg hnonneg
  constructor
  · intro heq
    have hfst := congrArg Prod.fst heq
    have hsnd := congrArg Prod.snd heq
    have hsubtotal : 0 ≤ e.totals.subtotal := by
      have hmax : max 0 e.totals.subtotal = e.totals.subtotal := by
        simp only [taxAt] at hfst hsnd
        linarith
      exact max_eq_right_iff.mp hmax
    rw [taxAt_of_nonneg hsubtotal] at hfst
    by_cases hle : estimateTaxRate none e.totals ≤ 100
    · simp only [Estimate.proposalRate, h, hrate, hle, and_self, if_true] at hfst
      exact ⟨hsubtotal, hle, hfst⟩
    · have hlt := subtotal_lt_tax (not_le.mp hle)
      have hdefault := default_tax_le hsubtotal cents_subtotal
      simp only [Estimate.proposalRate, h, hle, and_false, if_false] at hfst
      linarith
  · rintro ⟨hsubtotal, hle, hfits⟩
    have hproposal : e.proposalRate = estimateTaxRate none e.totals := by
      simp [Estimate.proposalRate, h, hrate, hle]
    rw [taxAt_of_nonneg hsubtotal, hproposal, hfits, htotal]

/-- The same cents are billed exactly for a stored rate, or a fixed tax that its rate gives. -/
theorem same_cents_iff (e : Estimate) (createdById organizationId proposalId : String)
    (convertedAt billedAt : Time)
    (hrate : ∀ rate, e.taxRate = some rate → 0 ≤ rate ∧ rate ≤ 100)
    (htax : e.taxRate = none → 0 ≤ e.tax) :
    SameCents e (proposalDataFromEstimate e createdById convertedAt)
        (e.invoice createdById organizationId proposalId convertedAt billedAt) ↔
      e.taxRate.isSome ∨ e.RateFits := by
  rw [sameCents_iff_taxAt]
  cases h : e.taxRate with
  | some rate => simpa using taxAt_stored h (hrate rate h).1 (hrate rate h).2
  | none => simpa using taxAt_fixed_iff h (htax h)

/-- An estimate of one line of 1,000,000. -/
def sampleEstimate (taxRate : Option ℚ) (tax : ℚ) : Estimate :=
  { id := "e1", clientId := "c1", title := "Website", description := none, status := .draft
    lineItems := [⟨"Design", 4, 250000, 1000000⟩]
    subtotal := 1000000, tax := tax, taxRate := taxRate, total := 1000000 + tax
    validUntil := none, viewToken := "v1", publicAccessExpiresAt := none
    publicAccessRevokedAt := none, sentAt := none, deletedAt := none }

theorem same_cents_sample :
    SameCents (sampleEstimate (some 13) 130000)
      (proposalDataFromEstimate (sampleEstimate (some 13) 130000) "u1" 0)
      ((sampleEstimate (some 13) 130000).invoice "u1" "o1" "p1" 0 0) :=
  (same_cents_iff (sampleEstimate (some 13) 130000) "u1" "o1" "p1" 0 0
    (by simp [sampleEstimate]; norm_num) (by simp [sampleEstimate])).mpr (.inl rfl)

/-- A tax of 333.33 is 0.0333 percent of 1,000,000, for which 333.00 are billed. -/
theorem fixed_tax_drifts :
    ¬ SameCents (sampleEstimate none (33333 / 100))
      (proposalDataFromEstimate (sampleEstimate none (33333 / 100)) "u1" 0)
      ((sampleEstimate none (33333 / 100)).invoice "u1" "o1" "p1" 0 0) := by
  intro h
  have htax := h.tax
  rw [(invoice_totals ..).2.1] at htax
  revert htax
  decide +kernel

end Ashbi.Estimates

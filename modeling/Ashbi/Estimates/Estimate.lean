import Ashbi.Drafts.Row

/-! Estimates, the proposals that they become, and the tax that is shown for these. -/

namespace Ashbi.Estimates

open Drafts Invoicing

inductive EstimateStatus
  | draft | sent | approved | declined | converted
  deriving DecidableEq

/-- A line as stored. -/
structure EstimateLine where
  description : String
  quantity : ℚ
  rate : ℚ
  amount : ℚ
  deriving DecidableEq

structure Estimate where
  id : String
  clientId : String
  title : String
  description : Option String
  status : EstimateStatus
  lineItems : List EstimateLine
  subtotal : ℚ
  tax : ℚ
  taxRate : Option ℚ
  total : ℚ
  validUntil : Option Time
  viewToken : String
  publicAccessExpiresAt : Option Time
  publicAccessRevokedAt : Option Time
  sentAt : Option Time
  deletedAt : Option Time
  deriving DecidableEq

/-! ### Totals -/

structure EstimateTotals where
  subtotal : ℚ
  tax : ℚ
  total : ℚ
  deriving DecidableEq

def estimateLineAmount (quantity rate : ℚ) : ℚ := lineTotal quantity rate

/-- A fixed `tax` amount is used only when no `taxRate` is given. -/
def computeEstimateTotals (lineItems : List EstimateLine) (taxRate tax : Option ℚ) :
    EstimateTotals :=
  let lines := lineItems.map fun item => estimateLineAmount item.quantity item.rate
  match taxRate with
  | some taxRate =>
    let totals := invoiceTotals lines taxRate 0
    ⟨totals.subtotal, totals.tax, totals.total⟩
  | none =>
    let subtotal := (invoiceTotals lines 0 0).subtotal
    let taxAmount := roundMoney (tax.getD 0)
    ⟨subtotal, taxAmount, roundMoney (subtotal + taxAmount)⟩

/-- A line of a request body. -/
structure EstimateInput where
  description : String
  quantity : ℚ
  rate : ℚ
  deriving DecidableEq

def storedLineItem (item : EstimateInput) : EstimateLine :=
  ⟨item.description, item.quantity, item.rate, estimateLineAmount item.quantity item.rate⟩

/-! ### Proposals -/

structure ProposalMetadata where
  source : String
  estimateId : String
  taxRate : Option ℚ
  tax : ℚ
  estimateTotal : ℚ
  deriving DecidableEq

/-- A proposal with its lines; `metadata` is `none` where it is not set or does not parse. -/
structure Proposal where
  title : String
  notes : Option String
  clientId : String
  createdById : String
  subtotal : ℚ
  discount : ℚ
  total : ℚ
  validUntil : Time
  metadata : Option ProposalMetadata
  lineItems : List ProposalLine
  deriving DecidableEq

def computeProposalLineItem (description : String) (quantity unitPrice : ℚ) : ProposalLine :=
  ⟨description, quantity, unitPrice, lineTotal quantity unitPrice⟩

/-- Subtotal and total of the lines; a discount never takes the total below zero. -/
def proposalTotals (lineItems : List ProposalLine) (discount : ℚ) : ℚ × ℚ :=
  let subtotal := roundMoney (lineItems.map (·.total)).sum
  (subtotal, roundMoney (max 0 (subtotal - discount)))

/-- `PROPOSAL_VALIDITY_MS`. -/
def proposalValidityMs : ℤ := 30 * 24 * 60 * 60 * 1000

def proposalLine (item : EstimateLine) : ProposalLine :=
  computeProposalLineItem (if Js.trim item.description = "" then "Line item" else item.description)
    item.quantity item.rate

/-- `Math.round(percent * 10000) / 10000`. -/
def roundRate (percent : ℚ) : ℚ := Grid.near 10000 percent

/-- The rate of an estimate; a fixed tax amount gives the percentage it comes to. -/
def estimateTaxRate (taxRate : Option ℚ) (totals : EstimateTotals) : ℚ :=
  match taxRate with
  | some taxRate => taxRate
  | none => if 0 < totals.subtotal then roundRate (totals.tax / totals.subtotal * 100) else 0

def proposalDataFromEstimate (estimate : Estimate) (createdById : String) (now : Time) :
    Proposal :=
  let lineItems := estimate.lineItems.map proposalLine
  let totals := proposalTotals lineItems 0
  let estimateTotals :=
    computeEstimateTotals estimate.lineItems estimate.taxRate (some estimate.tax)
  { title := estimate.title
    notes := Js.truthy estimate.description
    clientId := estimate.clientId
    createdById := createdById
    subtotal := totals.1
    discount := 0
    total := totals.2
    validUntil := (estimate.validUntil.filter (now < ·)).getD (now + proposalValidityMs)
    metadata := some
      { source := "estimate"
        estimateId := estimate.id
        taxRate := some (estimateTaxRate estimate.taxRate estimateTotals)
        tax := estimateTotals.tax
        estimateTotal := estimateTotals.total }
    lineItems := lineItems }

/-- `DEFAULT_PROPOSAL_TAX_RATE`. -/
def defaultProposalTaxRate : ℚ := 13

def proposalTaxRate (metadata : Option ProposalMetadata) : ℚ :=
  match metadata with
  | none => defaultProposalTaxRate
  | some metadata =>
    match metadata.taxRate with
    | none => defaultProposalTaxRate
    | some rate =>
      if metadata.source = "estimate" && 0 ≤ rate && rate ≤ 100 then rate
      else defaultProposalTaxRate

structure TaxSummary where
  taxRate : ℚ
  taxType : String
  tax : ℚ
  totalWithTax : ℚ
  deriving DecidableEq

/-- `loaded`: whether the query included the line items. -/
def proposalTaxSummary (proposal : Proposal) (loaded : Bool) : TaxSummary :=
  let taxRate := proposalTaxRate proposal.metadata
  let lines := if loaded then proposal.lineItems.map (·.total) else [max 0 proposal.total]
  let discount := if loaded then proposal.discount else 0
  let totals := invoiceTotals lines taxRate discount
  ⟨taxRate, taxTypeForRate taxRate, totals.tax, totals.total⟩

/-- What `POST /from-proposal/:proposalId` takes from the proposal. -/
def Proposal.terms (proposal : Proposal) (id : String) (projectId : Option String) :
    ProposalTerms where
  id := id
  clientId := proposal.clientId
  projectId := projectId
  title := proposal.title
  discount := proposal.discount
  taxRate := proposalTaxRate proposal.metadata
  lineItems := proposal.lineItems

end Ashbi.Estimates

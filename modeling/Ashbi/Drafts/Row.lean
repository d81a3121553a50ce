import Ashbi.Billing.UnbilledInvoice
import Ashbi.Invoicing.Money

/-! An invoice as it is drawn up: its header, its lines, and what each creator and each edit
puts into them. -/

namespace Ashbi.Drafts

open Invoicing

structure LineItem where
  description : String
  itemType : String
  quantity : ℚ
  unitPrice : ℚ
  total : ℚ
  position : ℤ
  deriving DecidableEq

/-- What a creator fills in. -/
structure Draft where
  organizationId : String
  clientId : String
  projectId : Option String
  proposalId : Option String
  retainerPeriod : Option String
  title : String
  currency : String
  subtotal : ℚ
  discountAmount : ℚ
  taxRate : ℚ
  taxType : String
  tax : ℚ
  total : ℚ
  notes : Option String
  internalNotes : Option String
  issueDate : Time
  dueDate : Option Time
  isRecurring : Bool
  recurringInterval : Option String
  recurringNextDate : Option Time
  /-- `billingSources` is set. -/
  reviewed : Bool
  lineItems : List LineItem
  deriving DecidableEq

/-- A row of `invoices` with its lines. -/
structure Invoice extends Draft where
  id : String
  invoiceNumber : String
  status : InvoiceStatus
  updatedAt : Time
  deletedAt : Option Time
  sentAt : Option Time
  viewToken : String
  stripePaymentLink : Option String
  deriving DecidableEq

def totalsOf (lineItems : List LineItem) (taxRate discountAmount : ℚ) : Totals :=
  invoiceTotals (lineItems.map (·.total)) taxRate discountAmount

def Draft.withTotals (d : Draft) (totals : Totals) : Draft :=
  { d with subtotal := totals.subtotal, tax := totals.tax, total := totals.total }

/-- The header is what the lines, the tax rate and the discount come to. -/
def Draft.Matches (d : Draft) : Prop :=
  d.withTotals (totalsOf d.lineItems d.taxRate d.discountAmount) = d

instance (d : Draft) : Decidable d.Matches := inferInstanceAs (Decidable (_ = _))

/-- Numbering the lines of a source document keeps their totals. -/
theorem numbered_total {α : Type} (item : α → ℕ → LineItem) (total : α → ℚ)
    (h : ∀ line idx, (item line idx).total = total line) (lines : List α) :
    (lines.zipIdx.map fun (line, idx) => item line idx).map (·.total) = lines.map total := by
  have hfst : lines.map total = (lines.zipIdx.map Prod.fst).map total := by
    rw [List.zipIdx_map_fst]
  rw [hfst, List.map_map, List.map_map]
  exact List.map_congr_left fun p _ => h p.1 p.2

/-! ### Manual invoices -/

/-- `HST_RATE`. -/
def hstRate : ℚ := 13

/-- A line of the request body. -/
structure LineInput where
  description : String
  itemType : String
  quantity : ℚ
  unitPrice : ℚ
  position : Option ℤ

/-- `value || fallback` for a number. -/
def orElse (value fallback : ℚ) : ℚ := if value = 0 then fallback else value

def processLineItem (li : LineInput) (idx : ℕ) : LineItem where
  description := li.description
  itemType := if li.itemType = "" then "LABOR" else li.itemType
  quantity := orElse li.quantity 1
  unitPrice := li.unitPrice
  total := lineTotal (orElse li.quantity 1) li.unitPrice
  position := li.position.getD idx

def processLineItems (lineItems : List LineInput) : List LineItem :=
  lineItems.zipIdx.map fun (li, idx) => processLineItem li idx

/-- `INVOICE_CURRENCIES`. -/
def invoiceCurrencies : List String := ["CAD", "USD", "EUR", "GBP"]

/-- Upper-cased supported code, or null. -/
def normalizeInvoiceCurrency (value : String) : Option String :=
  let code := (Js.trim value).toUpper
  if invoiceCurrencies.contains code then some code else none

/-- `DEFAULT_INVOICE_CURRENCY`. -/
def defaultInvoiceCurrency : String := "CAD"

/-- `firstRecurringDate(anchor, interval)`, at the time of the request. -/
abbrev FirstRecurringDate := Time → Option String → Time

/-- The body of `POST /invoices`. -/
structure CreateBody where
  clientId : String
  projectId : Option String
  title : Option String
  lineItems : List LineInput
  notes : Option String
  internalNotes : Option String
  dueDate : Option Time
  issueDate : Option Time
  taxRate : Option ℚ
  taxType : Option String
  discountAmount : Option ℚ
  isRecurring : Option Bool
  recurringInterval : Option String
  currency : Option String

def manualDraft (first : FirstRecurringDate) (organizationId clientName : String)
    (body : CreateBody) (now : Time) : Draft :=
  let taxRate := body.taxRate.getD hstRate
  let discountAmount := body.discountAmount.getD 0
  let isRecurring := body.isRecurring.getD false
  let processedItems := processLineItems body.lineItems
  let totals := totalsOf processedItems taxRate discountAmount
  let effectiveIssueDate := body.issueDate.getD now
  { organizationId := organizationId
    clientId := body.clientId
    projectId := Js.truthy body.projectId
    proposalId := none
    retainerPeriod := none
    title := (Js.truthy body.title).getD ("Invoice for " ++ clientName)
    currency := (body.currency.bind normalizeInvoiceCurrency).getD defaultInvoiceCurrency
    subtotal := totals.subtotal
    discountAmount := discountAmount
    taxRate := taxRate
    taxType := body.taxType.getD "HST"
    tax := totals.tax
    total := totals.total
    notes := Js.truthy body.notes
    internalNotes := Js.truthy body.internalNotes
    issueDate := effectiveIssueDate
    dueDate := body.dueDate
    isRecurring := isRecurring
    recurringInterval := if isRecurring then body.recurringInterval else none
    recurringNextDate :=
      if isRecurring then some (first effectiveIssueDate body.recurringInterval) else none
    reviewed := false
    lineItems := processedItems }

/-! ### Invoices of proposals, of reviewed work and of retainers -/

structure ProposalLine where
  description : String
  quantity : ℚ
  unitPrice : ℚ
  total : ℚ
  deriving DecidableEq

/-- What an invoice takes from an approved proposal; `taxRate` is `proposalTaxRate`. -/
structure ProposalTerms where
  id : String
  clientId : String
  projectId : Option String
  title : String
  discount : ℚ
  taxRate : ℚ
  lineItems : List ProposalLine

def proposalLineItem (li : ProposalLine) (idx : ℕ) : LineItem :=
  ⟨li.description, "LABOR", li.quantity, li.unitPrice, li.total, idx⟩

/-- `taxTypeForRate`. -/
def taxTypeForRate (rate : ℚ) : String :=
  if rate ≤ 0 then "NONE" else if rate = hstRate then "HST" else "TAX"

def proposalDraft (organizationId : String) (proposal : ProposalTerms) (now : Time) : Draft :=
  let processedItems := proposal.lineItems.zipIdx.map fun (li, idx) => proposalLineItem li idx
  let totals := totalsOf processedItems proposal.taxRate proposal.discount
  { organizationId := organizationId
    clientId := proposal.clientId
    projectId := Js.truthy proposal.projectId
    proposalId := some proposal.id
    retainerPeriod := none
    title := "Invoice for: " ++ proposal.title
    currency := defaultInvoiceCurrency
    subtotal := totals.subtotal
    discountAmount := proposal.discount
    taxRate := proposal.taxRate
    taxType := taxTypeForRate proposal.taxRate
    tax := totals.tax
    total := totals.total
    notes := some ("Invoice for proposal: " ++ proposal.title)
    internalNotes := none
    issueDate := now
    dueDate := none
    isRecurring := false
    recurringInterval := none
    recurringNextDate := none
    reviewed := false
    lineItems := processedItems }

/-- The stored name of a tax type. -/
def taxTypeName : Billing.TaxType → String
  | .hst => "HST"
  | .gst => "GST"
  | .pst => "PST"
  | .tax => "TAX"
  | .none => "NONE"

def unbilledLineItem (line : Billing.Line) (idx : ℕ) : LineItem where
  description := Js.sliceTo 500 (match line.source with
    | .time source => (Js.truthy (some source.description)).getD "Approved time"
    | .expense source => source.description)
  itemType := match line.source with
    | .time _ => "LABOR"
    | .expense _ => "EXPENSE"
  quantity := line.quantity
  unitPrice := line.unitPrice
  total := line.total
  position := idx

/-- The invoice that `createUnbilledInvoiceInTransaction` makes of its confirmed preview. -/
def unbilledDraft (organizationId clientId : String) (projectId : Option String) (title : String)
    (preview : Billing.InvoicePreview) (now : Time) : Draft where
  organizationId := organizationId
  clientId := clientId
  projectId := projectId
  proposalId := none
  retainerPeriod := none
  title := title
  currency := preview.currency
  subtotal := preview.totals.subtotal
  discountAmount := 0
  taxRate := preview.taxRate
  taxType := taxTypeName preview.taxType
  tax := preview.totals.tax
  total := preview.totals.total
  notes := none
  internalNotes := none
  issueDate := now
  dueDate := none
  isRecurring := false
  recurringInterval := none
  recurringNextDate := none
  reviewed := true
  lineItems := preview.lineItems.zipIdx.map fun (line, idx) => unbilledLineItem line idx

structure RetainerPlan where
  clientId : String
  hoursPerMonth : ℕ
  monthlyAmountUsd : Option ℚ
  monthlyAmountCad : Option ℚ

/-- The currencies that a plan carries an amount in. -/
inductive RetainerCurrency
  | cad | usd
  deriving DecidableEq

def RetainerCurrency.code : RetainerCurrency → String
  | .cad => "CAD"
  | .usd => "USD"

/-- The positive monthly rate in the invoice's currency. -/
def RetainerPlan.amount (plan : RetainerPlan) (currency : RetainerCurrency) : Option ℚ :=
  (match currency with
    | .cad => plan.monthlyAmountCad
    | .usd => plan.monthlyAmountUsd).filter (0 < ·)

def RetainerCurrency.taxRate : RetainerCurrency → ℚ
  | .cad => 13
  | .usd => 0

/-- `POST /retainer/:clientId/generate-invoice`; `period` is the billed month. -/
def retainerDraft (organizationId : String) (plan : RetainerPlan) (currency : RetainerCurrency)
    (amount : ℚ) (period monthLabel : String) (now dueDate : Time) : Draft :=
  let taxRate := currency.taxRate
  let subtotal := amount
  let tax := roundMoney (subtotal * taxRate / 100)
  let total := roundMoney (subtotal + tax)
  { organizationId := organizationId
    clientId := plan.clientId
    projectId := none
    proposalId := none
    retainerPeriod := some period
    title := "Monthly Retainer — " ++ monthLabel
    currency := currency.code
    subtotal := subtotal
    discountAmount := 0
    taxRate := taxRate
    taxType := if currency = .cad then "HST" else "NONE"
    tax := tax
    total := total
    notes := some (s!"Monthly retainer: {plan.hoursPerMonth} hours included.")
    internalNotes := none
    issueDate := now
    dueDate := some dueDate
    isRecurring := false
    recurringInterval := none
    recurringNextDate := none
    reviewed := false
    lineItems := [⟨s!"Monthly Retainer ({plan.hoursPerMonth}h/mo) — {monthLabel}", "RETAINER", 1,
      amount, amount, 0⟩] }

/-! ### Copies of recurring invoices -/

def recurringLineItem (li : LineItem) : LineItem :=
  { li with itemType := if li.itemType = "" then "LABOR" else li.itemType }

/-- The draft that `processRecurringInvoices` generates from an issued invoice. -/
def recurringDraft (invoice : Invoice) (now : Time) : Draft :=
  let lineItemsData := invoice.lineItems.map recurringLineItem
  let totals := totalsOf lineItemsData invoice.taxRate invoice.discountAmount
  { organizationId := invoice.organizationId
    clientId := invoice.clientId
    projectId := invoice.projectId
    proposalId := none
    retainerPeriod := none
    title := invoice.title
    currency := invoice.currency
    subtotal := totals.subtotal
    discountAmount := invoice.discountAmount
    taxRate := invoice.taxRate
    taxType := invoice.taxType
    tax := totals.tax
    total := totals.total
    notes := invoice.notes
    internalNotes := none
    issueDate := now
    dueDate := none
    isRecurring := false
    recurringInterval := none
    recurringNextDate := none
    reviewed := false
    lineItems := lineItemsData }

/-! ### Edits -/

/-- The body of `PUT /invoices/:id`; `some none` is an explicit null. -/
structure UpdateBody where
  title : Option String
  lineItems : Option (List LineInput)
  notes : Option String
  internalNotes : Option String
  dueDate : Option (Option Time)
  issueDate : Option Time
  taxRate : Option ℚ
  taxType : Option String
  discountAmount : Option ℚ
  projectId : Option (Option String)
  isRecurring : Option Bool
  recurringInterval : Option (Option String)
  currency : Option String

/-- The columns that an edit writes. -/
structure UpdateData where
  title : Option String
  currency : Option String
  notes : Option String
  internalNotes : Option String
  dueDate : Option (Option Time)
  issueDate : Option Time
  taxRate : Option ℚ
  taxType : Option String
  discountAmount : Option ℚ
  projectId : Option (Option String)
  isRecurring : Option Bool
  recurringInterval : Option (Option String)
  recurringNextDate : Option (Option Time)

/-- The recurring schedule that goes with the flag, the interval and the issue date. -/
def UpdateBody.schedule (first : FirstRecurringDate) (body : UpdateBody) (invoice : Invoice)
    (data : UpdateData) : Option UpdateData :=
  if !(body.isRecurring.getD invoice.isRecurring) then
    if body.isRecurring = some false then
      some { data with recurringInterval := some none, recurringNextDate := some none }
    else some data
  else if body.isRecurring.isSome || body.recurringInterval.isSome || body.issueDate.isSome then
    match Js.truthy (body.recurringInterval.getD invoice.recurringInterval) with
    | none => none
    | some interval => some { data with
        recurringInterval := some (some interval)
        recurringNextDate := some
          (some (first (body.issueDate.getD invoice.issueDate) (some interval))) }
  else some data

/-- `none`: a recurring invoice without an interval. -/
def updateData (first : FirstRecurringDate) (invoice : Invoice) (body : UpdateBody) :
    Option UpdateData :=
  body.schedule first invoice
    { title := Js.truthy body.title
      currency := body.currency.bind normalizeInvoiceCurrency
      notes := body.notes
      internalNotes := body.internalNotes
      dueDate := body.dueDate
      issueDate := body.issueDate
      taxRate := body.taxRate
      taxType := body.taxType
      discountAmount := body.discountAmount
      projectId := body.projectId.map Js.truthy
      isRecurring := body.isRecurring
      recurringInterval := body.recurringInterval
      recurringNextDate := none }

def UpdateData.apply (data : UpdateData) (d : Draft) : Draft :=
  { d with
    title := data.title.getD d.title
    currency := data.currency.getD d.currency
    notes := data.notes.orElse fun _ => d.notes
    internalNotes := data.internalNotes.orElse fun _ => d.internalNotes
    dueDate := data.dueDate.getD d.dueDate
    issueDate := data.issueDate.getD d.issueDate
    taxRate := data.taxRate.getD d.taxRate
    taxType := data.taxType.getD d.taxType
    discountAmount := data.discountAmount.getD d.discountAmount
    projectId := data.projectId.getD d.projectId
    isRecurring := data.isRecurring.getD d.isRecurring
    recurringInterval := data.recurringInterval.getD d.recurringInterval
    recurringNextDate := data.recurringNextDate.getD d.recurringNextDate }

/-- Client, project or currency of the edit differ from the observed ones. -/
def UpdateData.movesBilling (data : UpdateData) (invoice : Invoice) : Bool :=
  data.projectId.any (· ≠ invoice.projectId) || data.currency.any (· ≠ invoice.currency)

theorem updateData_taxRate {first : FirstRecurringDate} {invoice : Invoice} {body : UpdateBody}
    {data : UpdateData} (h : updateData first invoice body = some data) :
    data.taxRate = body.taxRate ∧ data.discountAmount = body.discountAmount := by
  unfold updateData UpdateBody.schedule at h
  split at h
  · split at h <;> cases h <;> exact ⟨rfl, rfl⟩
  · split at h
    · split at h
      · cases h
      · cases h
        exact ⟨rfl, rfl⟩
    · cases h
      exact ⟨rfl, rfl⟩

end Ashbi.Drafts

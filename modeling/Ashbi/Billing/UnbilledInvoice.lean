import Mathlib.Data.List.Sort
import Ashbi.Billing.Writes

/-! `unbilled-invoice.service.js`: previewing, creating and releasing an invoice of reviewed
work. -/

namespace Ashbi.Billing

open Deferred
open Invoicing (lineTotal)

structure Actor where
  id : String
  organizationId : String
  role : Role
  deriving DecidableEq

/-- What a release shows before it is confirmed. -/
structure ReleasePreview where
  invoiceId : String
  invoiceNumber : String
  status : Invoicing.InvoiceStatus
  voidedAt : Time
  updatedAt : Time
  currency : String
  total : ℚ
  originalFingerprint : String
  sources : List Source
  times : List Observed
  expenses : List Observed
  deriving DecidableEq

/-- The SHA-256 digests of the previews. -/
structure Digests where
  invoice : InvoicePreview → String
  release : ReleasePreview → String

def refuse {α : Type} (statusCode : ℕ) (message : String) : Except Failure α :=
  .error (.fail statusCode message)

def currentInvoiceAdmin (db : Db) (actor : Actor) : Except Failure User :=
  if actor.organizationId = "" ∨ actor.role ≠ .admin then
    refuse 403 "An administrator reviews billing drafts."
  else
    match db.users.find? fun u => u.id = actor.id && u.organizationId = actor.organizationId
        && u.role = .admin && u.isActive with
    | none => refuse 403 "An active administrator reviews billing drafts."
    | some user => .ok user

def targets (db : Db) (input : Selection) (organizationId : String) :
    Except Failure (Client × Option Project) := do
  match db.clients.find? fun c => c.id = input.clientId && c.organizationId = organizationId
      && c.deletedAt = none with
  | none => refuse 404 "Client not found."
  | some client =>
    match input.projectId with
    | none => .ok (client, none)
    | some projectId =>
      match db.projects.find? fun p => p.id = projectId && p.clientId = client.id
          && p.organizationId = organizationId && p.deletedAt = none with
      | none => refuse 404 "Project not found for this client."
      | some project => .ok (client, some project)

/-! ### The preview of an invoice -/

/-- The row of one selected source, unless it is gone or changed. -/
def observedRow {ρ : Type} (id : ρ → String) (updatedAt : ρ → Time) (rows : List ρ)
    (observed : Observed) : Except Failure ρ :=
  match rows.find? (id · = observed.id) with
  | none => refuse 409 "Selected work is no longer available for billing. Refresh the selection."
  | some row =>
    if updatedAt row ≠ observed.updatedAt then refuse 409 "Selected work changed. Review it again."
    else .ok row

def selectedTimes (db : Db) (input : Selection) (organizationId : String) :
    Except Failure (List (TimeEntry × ObservedTime)) := do
  let ids := input.times.map (·.id)
  let rows := (db.timeEntries.filter fun row =>
    timeWhere db input organizationId row && ids.contains row.id).take 50
  input.times.mapM fun observed => do
    let row ← observedRow (·.id) (·.updatedAt) rows observed.toObserved
    if row.duration ≤ 0 then refuse 409 "Selected time has an invalid duration."
    else if row.hourlyRate.any (· < 0) then
      refuse 409 "Selected time has an invalid stored rate. Review the source first."
    else .ok (row, observed)

def selectedExpenses (db : Db) (input : Selection) (organizationId : String) :
    Except Failure (List Expense) := do
  let ids := input.expenses.map (·.id)
  let rows := (db.expenses.filter fun row =>
    expenseWhere db input organizationId row && ids.contains row.id).take 50
  input.expenses.mapM fun observed => do
    let row ← observedRow (·.id) (·.updatedAt) rows observed
    if row.amount < 0 ∨ row.currency ≠ input.currency then
      refuse 409 ("Selected expenses must have valid amounts in the invoice currency. " ++
        "No conversion is performed.")
    else .ok row

def timeLine (currency : String) (row : TimeEntry) (observed : ObservedTime) : Line where
  quantity := row.duration / 60
  unitPrice := observed.hourlyRate
  total := lineTotal (row.duration / 60) observed.hourlyRate
  source := .time
    { id := row.id, description := row.description.getD "", date := row.date
      updatedAt := row.updatedAt, projectId := row.projectId, duration := row.duration
      suggestedHourlyRate := row.hourlyRate.filter (0 ≤ ·), userId := row.userId
      declaredHourlyRate := observed.hourlyRate, declaredRateCurrency := currency }

def expenseLine (row : Expense) : Line where
  quantity := 1
  unitPrice := row.amount
  total := lineTotal 1 row.amount
  source := .expense
    { id := row.id, description := row.description, date := row.date, updatedAt := row.updatedAt
      projectId := row.projectId, amount := row.amount, currency := row.currency }

/-- `invoiceTotals` without a discount. -/
def invoiceTotals (lines : List Line) (taxRate : ℚ) (h : 0 ≤ taxRate) : Totals :=
  let totals := Invoicing.invoiceTotals (lines.map (·.total)) taxRate 0
  ⟨totals.subtotal, totals.preTax, totals.tax, totals.total, Invoicing.invoiceTotals_nonneg h⟩

/-- `Number.MAX_SAFE_INTEGER / 100`. -/
def maxAmount : ℚ := 9007199254740991 / 100

def InvoicePreview.tooLarge (preview : InvoicePreview) : Bool :=
  let totals := preview.totals
  (preview.lineItems.map (·.total) ++
    [totals.subtotal, totals.preTax, totals.tax, totals.total.val]).any
    (maxAmount < ·)

structure ConfirmedPreview extends InvoicePreview where
  fingerprint : String

def invoicePreview (input : ValidSelection) (times : List (TimeEntry × ObservedTime))
    (expenses : List Expense) : InvoicePreview :=
  let selection := input.val
  let lineItems := times.map (fun time => timeLine selection.currency time.1 time.2)
    ++ expenses.map expenseLine
  ⟨selection.currency, selection.taxRate, selection.taxType, lineItems,
    invoiceTotals lineItems selection.taxRate (Selection.valid input.property).1⟩

def previewUnbilledInvoice (digests : Digests) (db : Db) (rawInput : Selection) (actor : Actor) :
    Except Failure ConfirmedPreview := do
  let input ← parse rawInput
  let admin ← currentInvoiceAdmin db actor
  let _ ← targets db input admin.organizationId
  let times ← selectedTimes db input admin.organizationId
  let expenses ← selectedExpenses db input admin.organizationId
  let preview := invoicePreview input times expenses
  if preview.tooLarge then
    refuse 400 "The selected billing amounts are too large to represent safely."
  else .ok ⟨preview, digests.invoice preview⟩

/-! ### Creating the invoice -/

/-- `/^[a-f0-9]{64}$/`. -/
def isFingerprint (fingerprint : String) : Bool :=
  fingerprint.length = 64
    && fingerprint.toList.all fun c => ('a' ≤ c && c ≤ 'f') || ('0' ≤ c && c ≤ '9')

/-- What a creation is given from outside: row ids, the allocated number, whether
the audit event could be recorded. -/
structure Issued where
  invoiceId : String
  invoiceNumber : String
  viewToken : String
  audited : Bool

/-- The owner check of `allocateInvoiceNumber`; the number itself comes from its counter row. -/
def allocateInvoiceNumber (db : Db) (clientId organizationId : String) : Except Failure String :=
  match db.client? clientId with
  | none => refuse 404 "Client not found"
  | some owner =>
    if owner.organizationId ≠ organizationId then refuse 404 "Client not found"
    else .ok owner.organizationId

def draftOf (clock : Clock) (issued : Issued) (input : ValidSelection) (actor : Actor)
    (organizationId : String) (preview : ConfirmedPreview) : InvoiceRow where
  toInvoice := .draft issued.invoiceId issued.invoiceNumber input.val.currency
    preview.totals.total issued.viewToken
  organizationId := some organizationId
  clientId := input.val.clientId
  projectId := input.val.projectId
  createdById := actor.id
  isRecurring := false
  updatedAt := clock.updatedAt
  deletedAt := none
  billingSources := some
    { preview with
      version := 1, clientId := input.val.clientId, projectId := input.val.projectId }
  billingSourcesReleasedAt := none

/-- Claims the selection of one kind; nothing is written for an empty one. -/
def claimAll (selected : ℕ) (claim : Tx ℕ) : Tx Unit :=
  if selected = 0 then pure ()
  else do
    let claimed ← claim
    if claimed ≠ selected then
      Tx.fail (.fail 409 "Selected work was claimed or changed. Review it again.")
    else pure ()

def createUnbilledInvoiceInTransaction (digests : Digests) (clock : Clock) (issued : Issued)
    (rawInput : Selection) (fingerprint : String) (actor : Actor) : Tx InvoiceRow :=
  if !isFingerprint fingerprint then Tx.fail (.fail 400 "Provide the reviewed billing preview.")
  else do
    let input ← Tx.read fun _ => parse rawInput
    let preview ← Tx.read fun db => previewUnbilledInvoice digests db input actor
    if preview.fingerprint ≠ fingerprint then
      Tx.fail (.fail 409 "The billing preview changed. Review it again.")
    else
      let organizationId ← Tx.read fun db =>
        allocateInvoiceNumber db input.val.clientId actor.organizationId
      let invoice ← insertInvoice (draftOf clock issued input actor organizationId preview)
      claimAll input.val.times.length
        (updateTimeEntries clock (.claim input actor.organizationId invoice.id))
      claimAll input.val.expenses.length
        (updateExpenses clock (.claim input actor.organizationId invoice.id))
      if !issued.audited then
        Tx.fail (.fail 503
          "The invoice could not be saved with its audit record. No work was billed.")
      else pure invoice

/-! ### Releasing the sources -/

/-- The claims that a release reads: at most 100, by id. -/
def releaseTimes (db : Db) (invoiceId organizationId : String) : List TimeEntry :=
  let claims := db.timeEntries.filter fun row => row.invoiceId = some invoiceId
    && row.deletedAt = none && db.ownsTime organizationId row
  (claims.insertionSort (·.id ≤ ·.id)).take 100

def releaseExpenses (db : Db) (invoiceId organizationId : String) : List Expense :=
  let claims := db.expenses.filter fun row => row.invoiceId = some invoiceId
    && row.deletedAt = none && row.organizationId = organizationId
  (claims.insertionSort (·.id ≤ ·.id)).take 100

/-- Whether the claims are the original sources of one kind. -/
def sameClaims (ids : List String) (claims : List (String × Bool)) : Bool :=
  claims.length = ids.dedup.length && claims.all fun claim => claim.2 && ids.contains claim.1

structure ConfirmedRelease extends ReleasePreview where
  fingerprint : String

def releasePreview (row : InvoiceRow) (sources : BillingSources) (voidedAt : Time)
    (times : List TimeEntry) (expenses : List Expense) : ReleasePreview where
  invoiceId := row.id
  invoiceNumber := row.invoiceNumber
  status := row.status
  voidedAt := voidedAt
  updatedAt := row.updatedAt
  currency := row.currency
  total := row.total
  originalFingerprint := sources.fingerprint
  sources := sources.lineItems.map (·.source)
  times := times.map fun row => ⟨row.id, row.updatedAt⟩
  expenses := expenses.map fun row => ⟨row.id, row.updatedAt⟩

def windowOpen : String :=
  "Void the unpaid invoice and wait until its undo window ends before releasing sources."

def previewUnbilledRelease (digests : Digests) (db : Db) (invoiceId : String) (actor : Actor)
    (now : Time) : Except Failure ConfirmedRelease := do
  let admin ← currentInvoiceAdmin db actor
  match db.invoices.find? fun row => row.id = invoiceId
      && row.organizationId = some admin.organizationId && row.deletedAt = none with
  | none => refuse 404 "Invoice not found."
  | some row =>
    match row.billingSources.filter (·.version = 1) with
    | none => refuse 400 "This invoice has no reviewed billing sources."
    | some sources =>
      if row.billingSourcesReleasedAt.isSome then
        refuse 409 "The original source claims have already been released."
      else if row.status ≠ .void then refuse 409 windowOpen
      else
        match row.voidedAt with
        | none => refuse 409 windowOpen
        | some voidedAt =>
          if now - voidedAt < 10000 then refuse 409 windowOpen
          else if db.payments.any (·.invoiceId = row.id) then
            refuse 409 "An invoice with payment records cannot release its sources."
          else
            let times := releaseTimes db row.id admin.organizationId
            let expenses := releaseExpenses db row.id admin.organizationId
            if !sameClaims (sources.times.map (·.id)) (times.map fun row => (row.id, row.invoiced))
                || !sameClaims (sources.expenses.map (·.id))
                  (expenses.map fun row => (row.id, row.invoiced)) then
              refuse 409 "Billing claims changed. Review the invoice sources again."
            else
              let preview := releasePreview row sources voidedAt times expenses
              .ok ⟨preview, digests.release preview⟩

/-- Clears the claims of one kind; nothing is written without claims. -/
def clearAll (claims : ℕ) (clear : Tx ℕ) : Tx Unit :=
  if claims = 0 then pure ()
  else do
    let cleared ← clear
    if cleared ≠ claims then
      Tx.fail (.fail 409 "Billing claims changed before release. Review them again.")
    else pure ()

def releaseUnbilledSourcesInTransaction (digests : Digests) (clock : Clock) (audited : Bool)
    (invoiceId fingerprint : String) (actor : Actor) : Tx (Option InvoiceRow) :=
  if !isFingerprint fingerprint then Tx.fail (.fail 400 "Provide the reviewed release preview.")
  else do
    let preview ← Tx.read fun db => previewUnbilledRelease digests db invoiceId actor clock.now
    if preview.fingerprint ≠ fingerprint then
      Tx.fail (.fail 409 "The release preview changed. Review it again.")
    else
      let changed ← updateInvoices clock
        (.release invoiceId actor.organizationId preview.updatedAt clock.now)
      if changed ≠ 1 then
        Tx.fail (.fail 409 "Invoice changed before source release. Review it again.")
      else
        clearAll preview.times.length
          (updateTimeEntries clock (.release actor.organizationId invoiceId preview.times))
        clearAll preview.expenses.length
          (updateExpenses clock (.release actor.organizationId invoiceId preview.expenses))
        if !audited then
          Tx.fail (.fail 503
            "Source release could not be saved with its audit record. Claims are retained.")
        else
          Tx.read fun db => .ok (db.invoices.find? fun row =>
            row.id = invoiceId && row.organizationId = some actor.organizationId)

end Ashbi.Billing

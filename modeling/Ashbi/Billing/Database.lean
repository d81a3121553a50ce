import Ashbi.Deferred.Constraint
import Ashbi.Invoicing.Row

/-! The rows that billing reads and writes, the snapshot of what an invoice bills, and the tables
with their triggers. -/

namespace Ashbi.Billing

inductive Role
  | admin | team | client | bot
  deriving DecidableEq

structure User where
  id : String
  organizationId : String
  role : Role
  isActive : Bool
  deriving DecidableEq

structure Client where
  id : String
  organizationId : String
  deletedAt : Option Time
  deriving DecidableEq

structure Project where
  id : String
  organizationId : String
  clientId : String
  deletedAt : Option Time
  deriving DecidableEq

inductive ReviewStatus
  | pending | approved | rejected
  deriving DecidableEq

structure TimeEntry where
  id : String
  description : Option String
  /-- In minutes. -/
  duration : ℤ
  date : Time
  billable : Bool
  hourlyRate : Option ℚ
  invoiced : Bool
  invoiceId : Option String
  reviewStatus : ReviewStatus
  reviewedAt : Option Time
  reviewedById : Option String
  rejectionReason : Option String
  taskId : Option String
  projectId : String
  userId : String
  updatedAt : Time
  deletedAt : Option Time
  deriving DecidableEq

structure Expense where
  id : String
  description : String
  amount : ℚ
  currency : String
  category : String
  date : Time
  billable : Bool
  invoiced : Bool
  notes : Option String
  organizationId : String
  clientId : Option String
  projectId : Option String
  invoiceId : Option String
  updatedAt : Time
  deletedAt : Option Time
  deriving DecidableEq

/-! ### The billed sources -/

/-- The `source` of a `LABOR` line: `candidate(row, 'TIME')` and the declared rate. -/
structure TimeSource where
  id : String
  description : String
  date : Time
  updatedAt : Time
  projectId : String
  duration : ℤ
  suggestedHourlyRate : Option ℚ
  userId : String
  declaredHourlyRate : ℚ
  declaredRateCurrency : String
  deriving DecidableEq

/-- The `source` of an `EXPENSE` line: `candidate(row, 'EXPENSE')`. -/
structure ExpenseSource where
  id : String
  description : String
  date : Time
  updatedAt : Time
  projectId : Option String
  amount : ℚ
  currency : String
  deriving DecidableEq

inductive Source
  | time (source : TimeSource)
  | expense (source : ExpenseSource)
  deriving DecidableEq

structure Line where
  quantity : ℚ
  unitPrice : ℚ
  total : ℚ
  source : Source
  deriving DecidableEq

inductive TaxType
  | hst | gst | pst | tax | none
  deriving DecidableEq

structure Totals where
  subtotal : ℚ
  preTax : ℚ
  tax : ℚ
  total : Invoicing.Total
  deriving DecidableEq

/-- What `previewUnbilledInvoice` fingerprints. -/
structure InvoicePreview where
  currency : String
  taxRate : ℚ
  taxType : TaxType
  lineItems : List Line
  totals : Totals
  deriving DecidableEq

/-- The `billingSources` column. -/
structure BillingSources extends InvoicePreview where
  version : ℕ
  clientId : String
  projectId : Option String
  fingerprint : String
  deriving DecidableEq

def Line.time? (line : Line) : Option TimeSource :=
  match line.source with
  | .time source => some source
  | .expense _ => none

def Line.expense? (line : Line) : Option ExpenseSource :=
  match line.source with
  | .time _ => none
  | .expense source => some source

def InvoicePreview.times (preview : InvoicePreview) : List TimeSource :=
  preview.lineItems.filterMap Line.time?

def InvoicePreview.expenses (preview : InvoicePreview) : List ExpenseSource :=
  preview.lineItems.filterMap Line.expense?

theorem Line.time?_eq {line : Line} {s : TimeSource} :
    line.time? = some s ↔ line.source = .time s := by
  unfold Line.time?
  cases line.source <;> simp

theorem Line.expense?_eq {line : Line} {s : ExpenseSource} :
    line.expense? = some s ↔ line.source = .expense s := by
  unfold Line.expense?
  cases line.source <;> simp

/-- Each source is billed on one line. -/
structure InvoicePreview.Distinct (preview : InvoicePreview) : Prop where
  times : (preview.times.map (·.id)).Nodup
  expenses : (preview.expenses.map (·.id)).Nodup

/-- A row of `invoices`; the columns of its own life are those of `Invoicing`. -/
structure InvoiceRow extends Invoicing.Invoice where
  organizationId : Option String
  clientId : String
  projectId : Option String
  createdById : String
  isRecurring : Bool
  updatedAt : Time
  deletedAt : Option Time
  billingSources : Option BillingSources
  billingSourcesReleasedAt : Option Time
  deriving DecidableEq

/-- A row of `invoice_payments`. -/
structure InvoicePayment extends Invoicing.Payment where
  invoiceId : String
  deriving DecidableEq

/-! ### The tables and their triggers -/

open Deferred

structure Db where
  clients : List Client
  projects : List Project
  users : List User
  timeEntries : List TimeEntry
  expenses : List Expense
  invoices : List InvoiceRow
  payments : List InvoicePayment
  deriving DecidableEq

/-- A request that is refused by the code, or by an exception of a trigger or a key. -/
inductive Failure
  | fail (statusCode : ℕ) (message : String)
  | database (exception : String)
  deriving DecidableEq

def Db.client? (db : Db) (id : String) : Option Client := db.clients.find? (·.id = id)
def Db.project? (db : Db) (id : String) : Option Project := db.projects.find? (·.id = id)
def Db.user? (db : Db) (id : String) : Option User := db.users.find? (·.id = id)
def Db.timeEntry? (db : Db) (id : String) : Option TimeEntry := db.timeEntries.find? (·.id = id)
def Db.expense? (db : Db) (id : String) : Option Expense := db.expenses.find? (·.id = id)
def Db.invoice? (db : Db) (id : String) : Option InvoiceRow := db.invoices.find? (·.id = id)

/-! ### `invoice_billing_snapshot_guard` -/

/-- The branch for `INSERT`. -/
def guardInsert (new : InvoiceRow) : Except String Unit :=
  match new.billingSources with
  | none =>
    if new.billingSourcesReleasedAt.isSome then
      .error "Source release requires original billing sources"
    else .ok ()
  | some sources =>
    if new.isRecurring then .error "Reviewed source-backed invoices cannot recur"
    else if new.status ≠ .draft ∨ new.billingSourcesReleasedAt ≠ none ∨ sources.version ≠ 1
        ∨ sources.clientId ≠ new.clientId ∨ sources.projectId ≠ new.projectId
        ∨ sources.currency ≠ new.currency then
      .error "Invalid original invoice billing sources"
    else if ¬ (1 ≤ sources.lineItems.length ∧ sources.lineItems.length ≤ 100) then
      .error "Invalid billing source count"
    else .ok ()

/-- Whether a release may be recorded on the row: void, unpaid and past the undo window. -/
def releasable (db : Db) (currentTimestamp : Time) (old new : InvoiceRow) : Bool :=
  old.status = .void && new.status = .void
    && old.voidedAt.any (fun voidedAt => voidedAt ≤ currentTimestamp - 10000)
    && !db.payments.any (·.invoiceId = old.id)

/-- The branch for `UPDATE`. -/
def guardUpdate (db : Db) (currentTimestamp : Time) (old new : InvoiceRow) : Except String Unit :=
  if new.billingSources ≠ old.billingSources then
    .error "Original invoice billing sources cannot change"
  else if new.billingSources = none then
    if new.billingSourcesReleasedAt.isSome then
      .error "Source release requires original billing sources"
    else .ok ()
  else if new.isRecurring then .error "Reviewed source-backed invoices cannot recur"
  else if new.organizationId ≠ old.organizationId ∨ new.clientId ≠ old.clientId
      ∨ new.projectId ≠ old.projectId ∨ new.currency ≠ old.currency then
    .error "Source-backed invoice client project and currency cannot change"
  else if old.billingSourcesReleasedAt ≠ none then
    if new.billingSourcesReleasedAt ≠ old.billingSourcesReleasedAt ∨ new.status ≠ .void then
      .error "Released source invoice cannot be reopened"
    else .ok ()
  else if new.billingSourcesReleasedAt ≠ none ∧ !releasable db currentTimestamp old new then
    .error "Source release requires an unpaid voided invoice after its undo window"
  else .ok ()

/-! ### `assert_invoice_billing_sources` -/

def ownersAgree (db : Db) (inv : InvoiceRow) : Bool :=
  db.clients.any (fun c => c.id = inv.clientId && some c.organizationId = inv.organizationId)
    && db.users.any (fun u => u.id = inv.createdById && some u.organizationId = inv.organizationId)
    && inv.projectId.all fun projectId => db.projects.any fun p =>
      p.id = projectId && some p.organizationId = inv.organizationId && p.clientId = inv.clientId

/-- A time entry joined with its project and its user. -/
structure JoinedTime where
  src : TimeEntry
  project : Project
  user : User

def Db.joinedTime? (db : Db) (id : String) : Option JoinedTime := do
  let src ← db.timeEntry? id
  let project ← db.project? src.projectId
  let user ← db.user? src.userId
  pure ⟨src, project, user⟩

def timeUnchanged (inv : InvoiceRow) (source : TimeSource) (row : JoinedTime) : Bool :=
  let src := row.src
  src.invoiceId = some inv.id && src.invoiced && src.billable && src.reviewStatus = .approved
    && src.deletedAt = none && some row.project.organizationId = inv.organizationId
    && some row.user.organizationId = inv.organizationId && row.project.clientId = inv.clientId
    && inv.projectId.all (src.projectId = ·)
    && src.projectId = source.projectId
    && src.userId = source.userId
    && src.duration = source.duration
    && src.description.getD "" = source.description
    && src.hourlyRate = source.suggestedHourlyRate
    && src.date = source.date

/-- The project of an expense; the expense itself is left-joined with it. -/
def Db.expenseProject? (db : Db) (src : Expense) : Option Project := src.projectId.bind db.project?

def expenseUnchanged (inv : InvoiceRow) (source : ExpenseSource) (src : Expense)
    (project : Option Project) : Bool :=
  src.invoiceId = some inv.id && src.invoiced && src.billable && src.deletedAt = none
    && some src.organizationId = inv.organizationId
    && src.clientId.all (· = inv.clientId)
    && src.projectId.all (fun _ => project.any fun p =>
      some p.organizationId = inv.organizationId && p.clientId = inv.clientId)
    && (src.clientId.isSome || src.projectId.isSome)
    && inv.projectId.all (src.projectId = some ·)
    && src.projectId = source.projectId
    && src.currency = inv.currency && src.currency = source.currency
    && src.amount = source.amount
    && src.description = source.description
    && src.date = source.date

def assertSource (db : Db) (inv : InvoiceRow) : Source → Except String Unit
  | .time source =>
    match db.joinedTime? source.id with
    | none => .error "Original billed time is unavailable"
    | some row =>
      if timeUnchanged inv source row then .ok ()
      else .error "Original billed time or its canonical scope changed"
  | .expense source =>
    match db.expense? source.id with
    | none => .error "Original billed expense is unavailable"
    | some src =>
      if expenseUnchanged inv source src (db.expenseProject? src) then .ok ()
      else .error "Original billed expense or its canonical scope changed"

/-- The claims of an invoice, in each of the two tables. -/
def Db.timeClaims (db : Db) (invoiceId : String) : List TimeEntry :=
  db.timeEntries.filter (·.invoiceId = some invoiceId)

def Db.expenseClaims (db : Db) (invoiceId : String) : List Expense :=
  db.expenses.filter (·.invoiceId = some invoiceId)

/-- The assertion for an invoice with billing sources. -/
def assertBillingSources (db : Db) (inv : InvoiceRow) (sources : BillingSources) :
    Except String Unit :=
  if !ownersAgree db inv then
    .error "Billing source invoice owner or canonical project changed organization or client"
  else if inv.billingSourcesReleasedAt ≠ none then
    if inv.status ≠ .void ∨ db.payments.any (·.invoiceId = inv.id) ∨ db.timeClaims inv.id ≠ []
        ∨ db.expenseClaims inv.id ≠ [] then
      .error "Released invoice still owns billing claims"
    else .ok ()
  else do
    forM sources.lineItems fun line => assertSource db inv line.source
    if (db.timeClaims inv.id).length ≠ sources.times.length
        ∨ (db.expenseClaims inv.id).length ≠ sources.expenses.length then
      .error "Invoice billing claims must match its exact source roster"
    else .ok ()

def assertInvoiceBillingSources (db : Db) (targetId : String) : Except String Unit :=
  match db.invoice? targetId with
  | none => .ok ()
  | some inv =>
    match inv.billingSources with
    | none => .ok ()
    | some sources => assertBillingSources db inv sources

/-- The deferred trigger of one marked invoice. -/
def claimsGuard (invoiceId : String) (db : Db) : Except Failure Unit :=
  (assertInvoiceBillingSources db invoiceId).mapError .database

/-! ### Writes and the triggers that they queue -/

abbrev Tx := Deferred.Tx Db String Failure

/-- `UPDATE … WHERE`. -/
def updateRows {ρ : Type} (filter : ρ → Bool) (data : ρ → ρ) (rows : List ρ) : List ρ :=
  rows.map fun row => if filter row then data row else row

/-- `OLD."invoiceId"` and `NEW."invoiceId"` of the updated rows, where not null. -/
def updatedOwners {ρ : Type} (owner : ρ → Option String) (filter : ρ → Bool) (data : ρ → ρ)
    (rows : List ρ) : List String :=
  (rows.filter filter).flatMap fun row => (owner row).toList ++ (owner (data row)).toList

def updateTimeRows (filter : Db → TimeEntry → Bool) (data : TimeEntry → TimeEntry) : Tx ℕ := do
  let db ← Tx.read .ok
  Tx.write { db with timeEntries := updateRows (filter db) data db.timeEntries }
    (updatedOwners (·.invoiceId) (filter db) data db.timeEntries)
  pure (db.timeEntries.countP (filter db))

def updateExpenseRows (filter : Db → Expense → Bool) (data : Expense → Expense) : Tx ℕ := do
  let db ← Tx.read .ok
  Tx.write { db with expenses := updateRows (filter db) data db.expenses }
    (updatedOwners (·.invoiceId) (filter db) data db.expenses)
  pure (db.expenses.countP (filter db))

def updateInvoiceRows (currentTimestamp : Time) (filter : InvoiceRow → Bool)
    (data : InvoiceRow → InvoiceRow) : Tx ℕ := do
  let db ← Tx.read fun db => do
    forM (db.invoices.filter filter) fun old =>
      (guardUpdate db currentTimestamp old (data old)).mapError Failure.database
    pure db
  Tx.write { db with invoices := updateRows filter data db.invoices }
    ((db.invoices.filter filter).map (·.id))
  pure (db.invoices.countP filter)

def insertInvoice (new : InvoiceRow) : Tx InvoiceRow := do
  let db ← Tx.read fun db =>
    if db.invoices.any (·.id = new.id) then .error (.database "invoices_pkey")
    else do
      (guardInsert new).mapError Failure.database
      pure db
  Tx.write { db with invoices := db.invoices ++ [new] } [new.id]
  pure new

/-- `stripeTaken` says that another row has the Stripe transaction id. -/
def insertPayment (stripeTaken : Bool) (new : InvoicePayment) : Tx InvoicePayment := do
  let db ← Tx.read fun db =>
    if new.method = "STRIPE" ∧ stripeTaken then
      .error (.database "invoice_payments_stripe_transactionId_key")
    else .ok db
  Tx.write { db with payments := db.payments ++ [new] } [new.invoiceId]
  pure new

end Ashbi.Billing

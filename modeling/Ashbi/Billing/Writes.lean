import Ashbi.Billing.Database
import Ashbi.Js

/-! The updates of the billing tables: which rows each one matches and what it sets. -/

namespace Ashbi.Billing

open Deferred

/-! ### The reviewed selection -/

structure Observed where
  id : String
  updatedAt : Time
  deriving DecidableEq

structure ObservedTime extends Observed where
  hourlyRate : ℚ
  deriving DecidableEq

/-- The input of `unbilledInvoiceSchema`. -/
structure Selection where
  clientId : String
  projectId : Option String
  currency : String
  taxRate : ℚ
  taxType : TaxType
  times : List ObservedTime
  expenses : List Observed
  deriving DecidableEq

/-- `INVOICE_CURRENCIES`. -/
def invoiceCurrencies : List String := ["CAD", "USD", "EUR", "GBP"]

/-- `z.string().min(1).max(50)`. -/
def validId (id : String) : Bool := 1 ≤ Js.length id && Js.length id ≤ 50

def Selection.wellFormed (input : Selection) : Bool :=
  validId input.clientId && input.projectId.all validId
    && invoiceCurrencies.contains input.currency && 0 ≤ input.taxRate && input.taxRate ≤ 50
    && input.times.length ≤ 50 && input.expenses.length ≤ 50
    && input.times.all (fun time => validId time.id && 0 ≤ time.hourlyRate &&
      time.hourlyRate ≤ 1000000)
    && input.expenses.all (fun expense => validId expense.id)

/-- The first issue of the schema; zod's own messages are not told apart. -/
def Selection.issue (input : Selection) : Option String :=
  if !input.wellFormed then some "Invalid invoice selection."
  else if input.times = [] ∧ input.expenses = [] then
    some "Select approved time or billable expenses."
  else if input.taxType = .none ∧ input.taxRate ≠ 0 then some "No tax requires a zero tax rate."
  else if ¬ (input.times.map (·.id)).Nodup ∨ ¬ (input.expenses.map (·.id)).Nodup then
    some "Select each source once."
  else none

/-- An input that the schema accepts. -/
abbrev ValidSelection := { input : Selection // input.issue = none }

def parse (input : Selection) : Except Failure ValidSelection :=
  match h : input.issue with
  | some message => .error (.fail 400 message)
  | none => .ok ⟨input, h⟩

theorem Selection.valid {input : Selection} (h : input.issue = none) :
    0 ≤ input.taxRate ∧ (input.times.map (·.id)).Nodup ∧ (input.expenses.map (·.id)).Nodup := by
  unfold Selection.issue at h
  split at h
  · cases h
  rename_i hw
  split at h
  · cases h
  split at h
  · cases h
  split at h
  · cases h
  rename_i hn
  simp only [not_or, Decidable.not_not] at hn
  refine ⟨?_, hn.1, hn.2⟩
  simp only [Bool.not_eq_false, Bool.not_eq_eq_eq_not, Bool.not_true] at hw
  simp only [Selection.wellFormed, Bool.and_eq_true, decide_eq_true_eq] at hw
  exact hw.1.1.1.1.1.2

/-! ### `sourceWhere` -/

def billableProject (db : Db) (input : Selection) (organizationId projectId : String) : Bool :=
  (db.project? projectId).any fun p =>
    p.organizationId = organizationId && p.clientId = input.clientId && p.deletedAt = none

def timeWhere (db : Db) (input : Selection) (organizationId : String) (row : TimeEntry) : Bool :=
  row.deletedAt = none && row.billable && !row.invoiced && row.invoiceId = none
    && input.projectId.all (row.projectId = ·) && 0 < row.duration && row.reviewStatus = .approved
    && billableProject db input organizationId row.projectId
    && (db.user? row.userId).any (·.organizationId = organizationId)

/-- A direct client link cannot override a different project's client. -/
def expenseWhere (db : Db) (input : Selection) (organizationId : String) (row : Expense) : Bool :=
  let project := row.projectId.any (billableProject db input organizationId)
  row.deletedAt = none && row.billable && !row.invoiced && row.invoiceId = none
    && input.projectId.all (row.projectId = some ·) && row.organizationId = organizationId
    && (row.clientId = some input.clientId || (row.clientId = none && project))
    && (row.projectId = none || project)

/-! ### Updates of time entries -/

/-- The body of `PUT /time-entries/:id`. -/
structure TimeEntryUpdate where
  duration : Option ℚ
  description : Option String
  date : Option Time
  billable : Option Bool
  taskId : Option (Option String)

inductive TimeWrite
  | claim (input : Selection) (organizationId invoiceId : String)
  | release (organizationId invoiceId : String) (rows : List Observed)
  | update (organizationId id : String) (body : TimeEntryUpdate)
  | delete (organizationId id : String) (deletedAt : Time)
  | approve (organizationId id : String) (reviewedAt : Time) (reviewedById : String)
  | reject (organizationId id : String) (reviewedAt : Time) (reviewedById rejectionReason : String)

/-- The tenant scope of a time entry: that of its project. -/
def Db.ownsTime (db : Db) (organizationId : String) (row : TimeEntry) : Bool :=
  (db.project? row.projectId).any (·.organizationId = organizationId)

/-- `unlockedTimeEntryWhere`. -/
def unlockedTimeEntryWhere (id : String) (row : TimeEntry) : Bool :=
  row.id = id && row.deletedAt = none && !row.invoiced && row.invoiceId = none
    && row.reviewStatus ≠ .approved

def observes (rows : List Observed) (id : String) (updatedAt : Time) : Bool :=
  rows.any fun row => row.id = id && row.updatedAt = updatedAt

def TimeWrite.filter : TimeWrite → Db → TimeEntry → Bool
  | .claim input organizationId _, db, row => timeWhere db input organizationId row
    && observes (input.times.map (·.toObserved)) row.id row.updatedAt
  | .release organizationId invoiceId rows, db, row =>
    db.ownsTime organizationId row && row.invoiceId = some invoiceId && row.invoiced
    && observes rows row.id row.updatedAt
  | .update organizationId id _, db, row =>
    db.ownsTime organizationId row && unlockedTimeEntryWhere id row
  | .delete organizationId id _, db, row =>
    db.ownsTime organizationId row && unlockedTimeEntryWhere id row
  | .approve organizationId id _ _, db, row => db.ownsTime organizationId row && row.id = id
  | .reject organizationId id _ _ _, db, row => db.ownsTime organizationId row && row.id = id

def TimeWrite.data (updatedAt : Time) : TimeWrite → TimeEntry → TimeEntry
  | .claim _ _ invoiceId, row =>
    { row with invoiced := true, invoiceId := some invoiceId, updatedAt }
  | .release _ _ _, row => { row with invoiced := false, invoiceId := none, updatedAt }
  | .update _ _ body, row =>
    { row with
      duration := (body.duration.map round).getD row.duration
      description := body.description.or row.description
      date := body.date.getD row.date
      billable := body.billable.getD row.billable
      taskId := body.taskId.getD row.taskId
      updatedAt }
  | .delete _ _ deletedAt, row => { row with deletedAt := some deletedAt, updatedAt }
  | .approve _ _ reviewedAt reviewedById, row =>
    { row with
      reviewStatus := .approved, reviewedAt := some reviewedAt, reviewedById := some reviewedById
      rejectionReason := none, updatedAt }
  | .reject _ _ reviewedAt reviewedById rejectionReason, row =>
    { row with
      reviewStatus := .rejected, reviewedAt := some reviewedAt, reviewedById := some reviewedById
      rejectionReason := some rejectionReason, updatedAt }

@[simp] theorem TimeWrite.data_id (updatedAt : Time) (write : TimeWrite) (row : TimeEntry) :
    (write.data updatedAt row).id = row.id := by
  cases write <;> rfl

/-! ### Updates of expenses -/

/-- The body of `PUT /expenses/:id`, without the receipt. -/
structure ExpenseUpdate where
  description : Option String
  amount : Option ℚ
  currency : Option String
  category : Option String
  date : Option Time
  billable : Option Bool
  notes : Option (Option String)
  clientId : Option (Option String)
  projectId : Option (Option String)

inductive ExpenseWrite
  | claim (input : Selection) (organizationId invoiceId : String)
  | release (organizationId invoiceId : String) (rows : List Observed)
  | update (organizationId id : String) (body : ExpenseUpdate)
  | delete (organizationId id : String) (deletedAt : Time)

def ExpenseWrite.filter : ExpenseWrite → Db → Expense → Bool
  | .claim input organizationId _, db, row => expenseWhere db input organizationId row
    && observes input.expenses row.id row.updatedAt
  | .release organizationId invoiceId rows, _, row => row.organizationId = organizationId
    && row.invoiceId = some invoiceId && row.invoiced && observes rows row.id row.updatedAt
  | .update organizationId id _, _, row => row.id = id && row.organizationId = organizationId
  | .delete organizationId id _, _, row => row.id = id && row.organizationId = organizationId

def ExpenseWrite.data (updatedAt : Time) : ExpenseWrite → Expense → Expense
  | .claim _ _ invoiceId, row =>
    { row with invoiced := true, invoiceId := some invoiceId, updatedAt }
  | .release _ _ _, row => { row with invoiced := false, invoiceId := none, updatedAt }
  | .update _ _ body, row =>
    { row with
      description := body.description.getD row.description
      amount := body.amount.getD row.amount
      currency := body.currency.getD row.currency
      category := body.category.getD row.category
      date := body.date.getD row.date
      billable := body.billable.getD row.billable
      notes := body.notes.getD row.notes
      clientId := body.clientId.getD row.clientId
      projectId := body.projectId.getD row.projectId
      updatedAt }
  | .delete _ _ deletedAt, row => { row with deletedAt := some deletedAt, updatedAt }

@[simp] theorem ExpenseWrite.data_id (updatedAt : Time) (write : ExpenseWrite) (row : Expense) :
    (write.data updatedAt row).id = row.id := by
  cases write <;> rfl

/-! ### Updates of invoices -/

inductive InvoiceWrite
  /-- A write of the invoice routes on one row. -/
  | route (id : String) (write : Invoicing.Write)
  | release (id organizationId : String) (observed : Time) (releasedAt : Time)

def InvoiceWrite.filter : InvoiceWrite → InvoiceRow → Bool
  | .route id write, row => row.id = id && write.filter row.toInvoice
  | .release id organizationId observed _, row =>
    row.id = id && row.organizationId = some organizationId && row.status = .void
    && row.updatedAt = observed && row.billingSourcesReleasedAt = none

def InvoiceWrite.data (updatedAt : Time) : InvoiceWrite → InvoiceRow → InvoiceRow
  | .route _ write, row => { row with toInvoice := write.data row.toInvoice, updatedAt }
  | .release _ _ _ releasedAt, row =>
    { row with billingSourcesReleasedAt := some releasedAt, updatedAt }

theorem write_data_id (write : Invoicing.Write) (row : Invoicing.Invoice) :
    (write.data row).id = row.id := by
  cases write with
  | payment source method paidAt fullyPaid => cases source <;> cases fullyPaid <;> rfl
  | finishSend checkout => cases checkout <;> rfl
  | _ => rfl

@[simp] theorem InvoiceWrite.data_id (updatedAt : Time) (write : InvoiceWrite) (row : InvoiceRow) :
    (write.data updatedAt row).id = row.id := by
  cases write with
  | route id write => exact write_data_id write row.toInvoice
  | release id organizationId observed releasedAt => rfl

/-! ### The updates as transaction steps -/

/-- The clocks of one request and of the database. -/
structure Clock where
  now : Time
  updatedAt : Time
  currentTimestamp : Time

def updateTimeEntries (clock : Clock) (write : TimeWrite) : Tx ℕ :=
  updateTimeRows write.filter (write.data clock.updatedAt)

def updateExpenses (clock : Clock) (write : ExpenseWrite) : Tx ℕ :=
  updateExpenseRows write.filter (write.data clock.updatedAt)

def updateInvoices (clock : Clock) (write : InvoiceWrite) : Tx ℕ :=
  updateInvoiceRows clock.currentTimestamp write.filter (write.data clock.updatedAt)

end Ashbi.Billing

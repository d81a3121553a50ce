import Ashbi.Billing.UnbilledInvoice
import Ashbi.Invoicing.Programs

/-! The requests that touch billed work. Each transaction is one step: row locks
and serializable isolation let its commit happen at once. -/

namespace Ashbi.Billing

open Deferred Interleaving

/-! ### Transactions of the invoice routes -/

def Db.amountPaid (db : Db) (invoiceId : String) : ℚ :=
  Invoicing.invoiceAmountPaid ((db.payments.filter (·.invoiceId = invoiceId)).map (·.toPayment))

def findInvoice (db : Db) (id : String) : Except Failure InvoiceRow :=
  match db.invoices.find? fun row => row.id = id && row.deletedAt = none with
  | none => refuse 404 "Invoice not found"
  | some row => .ok row

def paymentFailure : Invoicing.PaymentError → Failure
  | .overpayment _ => .fail 400 "Payment exceeds the balance due"
  | .invalidAmount => .fail 400 "Payment amount must be greater than zero"
  | .uniqueViolation => .database "invoice_payments_stripe_transactionId_key"
  | .eventRejected => .fail 500 "invoice.paid was not recorded"

/-- What the environment adds to a payment: its id, an index clash, an accepted event. -/
structure PaymentIssue where
  paymentId : ℕ
  stripeTaken : Bool
  accepted : Bool

/-- `applyInvoicePayment` on the claimed invoice; a completed Checkout session is linked. -/
def applyInvoicePayment (clock : Clock) (issue : PaymentIssue) (row : InvoiceRow)
    (input : Invoicing.PaymentInput) (sessionId : Option String) : Tx InvoicePayment := do
  let r ← Tx.read fun db =>
    (Invoicing.settlement row.total (db.amountPaid row.id) input.amount).mapError paymentFailure
  let payment ← insertPayment issue.stripeTaken
    ⟨⟨issue.paymentId, r.amount, input.method, input.transactionId, input.notes, input.paidAt⟩,
      row.id⟩
  let _ ← updateInvoices clock
    (.route row.id (.payment input.source input.method input.paidAt r.fullyPaid))
  if r.fullyPaid && !issue.accepted then Tx.fail (paymentFailure .eventRejected)
  else
    match sessionId.filter fun _ => r.fullyPaid with
    | none => pure payment
    | some sessionId =>
      let _ ← updateInvoices clock (.route row.id (.linkSession sessionId))
      pure payment

/-- `recordManualPayment` and `recordCompletedCheckout`; `none` is an invoice that is not
payable. -/
def recordPayment (clock : Clock) (issue : PaymentIssue) (id : String)
    (input : Invoicing.PaymentInput) (sessionId : Option String) : Tx (Option InvoicePayment) := do
  let claimed ← updateInvoices clock (.route id .claimPayable)
  if claimed ≠ 1 then pure none
  else
    let row ← Tx.read fun db => findInvoice db id
    let payment ← applyInvoicePayment clock issue row input sessionId
    pure (some payment)

/-- `voidInvoice` of the invoice that the request read; `false` is one that changed meanwhile. -/
def voidInvoice (clock : Clock) (invoice : InvoiceRow) : Tx Bool := do
  let claimed ← updateInvoices clock (.route invoice.id (.void clock.now invoice.status))
  if claimed ≠ 1 then pure false
  else
    let paid ← Tx.read fun db => .ok (db.amountPaid invoice.id)
    if 0 < paid then Tx.fail (.fail 409 "Invoice has recorded payments and cannot be voided")
    else pure true

/-- `taken` says that the retainer month has been invoiced again. -/
def undoVoid (clock : Clock) (taken : Bool) (id : String) : Tx Unit := do
  let row ← Tx.read fun db => findInvoice db id
  match Invoicing.undoVoidCheck row.toInvoice clock.now with
  | .error .alreadyUndone => Tx.fail (.fail 409 "Invoice void has already been undone")
  | .error .windowExpired => Tx.fail (.fail 410 "Invoice void undo window has expired")
  | .ok () =>
    if taken then Tx.fail (.fail 409 "This retainer month has been invoiced again since the void")
    else
      let _ ← updateInvoices clock (.route id (.undoVoid row.toInvoice))
      pure ()

/-- `softDelete` of an expense. -/
def softDeleteExpense (clock : Clock) (organizationId id : String) : Tx Unit := do
  let _ ← Tx.read fun db =>
    match db.expenses.find? fun row => row.id = id && row.organizationId = organizationId
        && row.deletedAt = none with
    | none => refuse 500 "EXPENSE not found"
    | some row => .ok row
  let _ ← updateExpenses clock (.delete organizationId id clock.now)
  pure ()

/-! ### Statements -/

inductive Transaction
  | createUnbilledInvoice (input : Selection) (fingerprint : String) (actor : Actor)
  | releaseUnbilledSources (invoiceId fingerprint : String) (actor : Actor)
  | updateTimeEntries (write : TimeWrite)
  | updateExpenses (write : ExpenseWrite)
  | softDeleteExpense (organizationId id : String)
  | updateInvoices (id : String) (write : Invoicing.Write)
  | recordPayment (id : String) (input : Invoicing.PaymentInput) (sessionId : Option String)
  | voidInvoice (invoice : InvoiceRow)
  | undoVoid (id : String)

/-- What a committed transaction returns. -/
inductive Committed
  | rows (count : ℕ)
  | invoice (row : Option InvoiceRow)
  | payment (payment : Option InvoicePayment)
  | done (changed : Bool)
  deriving DecidableEq

inductive Stmt : Type → Type
  | now : Stmt Time
  | newToken : Stmt String
  | findTimeEntry (organizationId id : String) : Stmt (Option TimeEntry)
  | findExpense (organizationId id : String) : Stmt (Option Expense)
  | findInvoice (id : String) : Stmt (Option InvoiceRow)
  | commit (transaction : Transaction) : Stmt (Except Failure Committed)

/-- What the environment decides at a statement. -/
structure Choice where
  clock : Clock
  issued : Issued
  payment : PaymentIssue
  taken : Bool

def Transaction.body (digests : Digests) (ch : Choice) : Transaction → Tx Committed
  | .createUnbilledInvoice input fingerprint actor => do
    let invoice ← createUnbilledInvoiceInTransaction digests ch.clock ch.issued input
      fingerprint actor
    pure (.invoice (some invoice))
  | .releaseUnbilledSources invoiceId fingerprint actor => do
    let audited := ch.issued.audited
    let invoice ←
      releaseUnbilledSourcesInTransaction digests ch.clock audited invoiceId fingerprint actor
    pure (.invoice invoice)
  | .updateTimeEntries write => do
    let count ← Billing.updateTimeEntries ch.clock write
    pure (.rows count)
  | .updateExpenses write => do
    let count ← Billing.updateExpenses ch.clock write
    pure (.rows count)
  | .softDeleteExpense organizationId id => do
    Billing.softDeleteExpense ch.clock organizationId id
    pure (.done true)
  | .updateInvoices id write => do
    let count ← Billing.updateInvoices ch.clock (.route id write)
    pure (.rows count)
  | .recordPayment id input sessionId => do
    let payment ← Billing.recordPayment ch.clock ch.payment id input sessionId
    pure (.payment payment)
  | .voidInvoice invoice => do
    let changed ← Billing.voidInvoice ch.clock invoice
    pure (.done changed)
  | .undoVoid id => do
    Billing.undoVoid ch.clock ch.taken id
    pure (.done true)

/-- Reads do not show soft-deleted rows or rows of another organization. -/
def exec (digests : Digests) {β : Type} (st : Stmt β) (ch : Choice) (db : Db) : β × Db :=
  match st with
  | .now => (ch.clock.now, db)
  | .newToken => (ch.issued.viewToken, db)
  | .findTimeEntry organizationId id =>
    (db.timeEntries.find? fun row =>
      row.id = id && row.deletedAt = none && db.ownsTime organizationId row, db)
  | .findExpense organizationId id =>
    (db.expenses.find? fun row =>
      row.id = id && row.deletedAt = none && row.organizationId = organizationId, db)
  | .findInvoice id => (db.invoices.find? fun row => row.id = id && row.deletedAt = none, db)
  | .commit transaction => transact claimsGuard (transaction.body digests ch) db

abbrev machine (digests : Digests) : Machine where
  Stmt := Stmt
  Choice := Choice
  State := Db
  enabled := fun _ _ _ => true
  exec := fun _ st ch db => exec digests st ch db

/-! ### The routes -/

structure Lock where
  code : String
  error : String
  deriving DecidableEq

def invoicedLock : Lock :=
  ⟨"TIME_ENTRY_INVOICED", "This time entry has been invoiced and can no longer be changed"⟩

/-- An approved or invoiced time entry is locked against edit and delete. -/
def timeEntryLock (entry : TimeEntry) : Option Lock :=
  if entry.invoiced || entry.invoiceId.isSome then some invoicedLock
  else if entry.reviewStatus = .approved then
    some ⟨"TIME_ENTRY_APPROVED",
      "This time entry is approved. An admin must reject it before it can be changed"⟩
  else none

inductive Reply
  | status (statusCode : ℕ) (error : String)
  | locked (lock : Lock)
  | failed (failure : Failure)
  | success
  deriving DecidableEq

/-- Answers a conditional write that matched nothing. -/
def lockedWriteReply (user : Actor) (id : String) : Prog Stmt Reply := do
  match ← .stmt (.findTimeEntry user.organizationId id) with
  | none => pure (.status 404 "Time entry not found")
  | some current =>
    pure (.locked ((timeEntryLock current).getD
      ⟨"TIME_ENTRY_CHANGED", "This time entry changed. Reload and try again"⟩))

/-- A time entry's owner or an admin writes it while it is unlocked. -/
def writeTimeEntry (user : Actor) (id refusal : String) (write : Time → TimeWrite) :
    Prog Stmt Reply := do
  match ← .stmt (.findTimeEntry user.organizationId id) with
  | none => pure (.status 404 "Time entry not found")
  | some existing =>
    if existing.userId ≠ user.id ∧ user.role ≠ .admin then pure (.status 403 refusal)
    else
      match timeEntryLock existing with
      | some lock => pure (.locked lock)
      | none =>
        let now ← .stmt .now
        match ← .stmt (.commit (.updateTimeEntries (write now))) with
        | .error failure => pure (.failed failure)
        | .ok (.rows 0) => lockedWriteReply user id
        | .ok _ => pure .success

/-- `PUT /time-entries/:id`. -/
def updateTimeEntry (user : Actor) (id : String) (body : TimeEntryUpdate) : Prog Stmt Reply :=
  writeTimeEntry user id "Cannot edit this time entry" fun _ => .update user.organizationId id body

/-- `DELETE /time-entries/:id`. -/
def deleteTimeEntry (user : Actor) (id : String) : Prog Stmt Reply :=
  writeTimeEntry user id "Cannot delete this time entry" (.delete user.organizationId id)

def commitReply (transaction : Transaction) : Prog Stmt Reply := do
  match ← .stmt (.commit transaction) with
  | .error failure => pure (.failed failure)
  | .ok (.rows 0) => pure (.status 404 "record is unavailable in this organization")
  | .ok _ => pure .success

/-- `PATCH /timesheets/:id/approve`. -/
def approveTimesheet (user : Actor) (id : String) : Prog Stmt Reply :=
  if user.role ≠ .admin then pure (.status 403 "Admin only")
  else do
    match ← .stmt (.findTimeEntry user.organizationId id) with
    | none => pure (.status 404 "Time entry not found")
    | some _ =>
      let now ← .stmt .now
      commitReply (.updateTimeEntries (.approve user.organizationId id now user.id))

/-- `PATCH /timesheets/:id/reject`, with the trimmed reason. -/
def rejectTimesheet (user : Actor) (id reason : String) : Prog Stmt Reply :=
  if user.role ≠ .admin then pure (.status 403 "Admin only")
  else if reason = "" then pure (.status 400 "Rejection reason is required")
  else do
    match ← .stmt (.findTimeEntry user.organizationId id) with
    | none => pure (.status 404 "Time entry not found")
    | some existing =>
      if existing.invoiced || existing.invoiceId.isSome then pure (.locked invoicedLock)
      else
        let now ← .stmt .now
        commitReply (.updateTimeEntries (.reject user.organizationId id now user.id reason))

/-- `PUT /expenses/:id`. -/
def updateExpense (user : Actor) (id : String) (body : ExpenseUpdate) : Prog Stmt Reply := do
  match ← .stmt (.findExpense user.organizationId id) with
  | none => pure (.status 404 "Expense not found")
  | some _ => commitReply (.updateExpenses (.update user.organizationId id body))

/-- `DELETE /expenses/:id`. -/
def deleteExpense (user : Actor) (id : String) : Prog Stmt Reply := do
  match ← .stmt (.findExpense user.organizationId id) with
  | none => pure (.status 404 "Expense not found")
  | some _ => commitReply (.softDeleteExpense user.organizationId id)

/-- `sendDraftInvoice`; `checkout` is the session that could be created for it. -/
def sendDraftInvoice (id : String) (checkout : Option Invoicing.CheckoutData) :
    Prog Stmt Reply := do
  match ← .stmt (.findInvoice id) with
  | none => pure (.status 404 "Invoice not found")
  | some invoice =>
    if invoice.status ≠ .draft then pure (.status 400 "Only draft invoices can be sent")
    else
      let token ← .stmt .newToken
      let sentAt ← .stmt .now
      match ← .stmt (.commit (.updateInvoices id (.send sentAt token))) with
      | .error failure => pure (.failed failure)
      | .ok (.rows 0) => pure (.status 400 "Only draft invoices can be sent")
      | .ok _ =>
        let _ ← .stmt (.commit (.updateInvoices id (.finishSend checkout)))
        pure .success

/-- `DELETE /invoices/:id`. -/
def archiveInvoice (id : String) : Prog Stmt Reply := do
  match ← .stmt (.findInvoice id) with
  | none => pure (.status 404 "Invoice not found")
  | some invoice =>
    if invoice.status = .paid then pure (.status 400 "Cannot void a paid invoice")
    else if !invoice.status.voidable then
      pure (.status 409 "Invoice is already void or cannot be voided")
    else
      match ← .stmt (.commit (.voidInvoice invoice)) with
      | .error failure => pure (.failed failure)
      | .ok (.done false) => pure (.status 409 "Invoice is already void or cannot be voided")
      | .ok _ => pure .success

/-- A request that is one transaction. -/
def single (transaction : Transaction) : Prog Stmt Unit := do
  let _ ← .stmt (.commit transaction)
  pure ()

/-- The requests of a deployment. -/
inductive Deployed : Prog Stmt Unit → Prop
  | updateTimeEntry (user id body) : Deployed ((updateTimeEntry user id body).bind fun _ => .ret ())
  | deleteTimeEntry (user id) : Deployed ((deleteTimeEntry user id).bind fun _ => .ret ())
  | approveTimesheet (user id) : Deployed ((approveTimesheet user id).bind fun _ => .ret ())
  | rejectTimesheet (user id reason) :
      Deployed ((rejectTimesheet user id reason).bind fun _ => .ret ())
  | updateExpense (user id body) : Deployed ((updateExpense user id body).bind fun _ => .ret ())
  | deleteExpense (user id) : Deployed ((deleteExpense user id).bind fun _ => .ret ())
  | createUnbilledInvoice (input fingerprint actor) :
      Deployed (single (.createUnbilledInvoice input fingerprint actor))
  | releaseUnbilledSources (invoiceId fingerprint actor) :
      Deployed (single (.releaseUnbilledSources invoiceId fingerprint actor))
  | sendDraftInvoice (id checkout) : Deployed ((sendDraftInvoice id checkout).bind fun _ => .ret ())
  | recordPayment (id input sessionId) : Deployed (single (.recordPayment id input sessionId))
  | archiveInvoice (id) : Deployed ((archiveInvoice id).bind fun _ => .ret ())
  | undoVoid (id) : Deployed (single (.undoVoid id))

/-! ### A sample: one approved hour of work -/

def sampleTime : TimeEntry where
  id := "t-1"
  description := some "Design"
  duration := 60
  date := 0
  billable := true
  hourlyRate := none
  invoiced := false
  invoiceId := none
  reviewStatus := .approved
  reviewedAt := some 0
  reviewedById := some "u-1"
  rejectionReason := none
  taskId := none
  projectId := "p-1"
  userId := "u-1"
  updatedAt := 0
  deletedAt := none

def sampleDb : Db where
  clients := [⟨"c-1", "o-1", none⟩]
  projects := [⟨"p-1", "o-1", "c-1", none⟩]
  users := [⟨"u-1", "o-1", .admin, true⟩]
  timeEntries := [sampleTime]
  expenses := []
  invoices := []
  payments := []

def sampleAdmin : Actor := ⟨"u-1", "o-1", .admin⟩

def sampleFingerprint : String := String.ofList (List.replicate 64 'a')

def sampleDigests : Digests := ⟨fun _ => sampleFingerprint, fun _ => sampleFingerprint⟩

def sampleSelection : Selection :=
  ⟨"c-1", some "p-1", "CAD", 13, .hst, [⟨⟨"t-1", 0⟩, 100⟩], []⟩

/-- The answers at time `now`. -/
def sampleAnswer (now : Time) : Choice :=
  ⟨⟨now, now, now⟩, ⟨"inv-1", "INV-2026-0001", "view-1", true⟩, ⟨0, false, true⟩, false⟩

def sampleRequests : List (Prog Stmt Unit) :=
  [single (.createUnbilledInvoice sampleSelection sampleFingerprint sampleAdmin),
    (archiveInvoice "inv-1").bind fun _ => .ret (),
    single (.releaseUnbilledSources "inv-1" sampleFingerprint sampleAdmin),
    single (.undoVoid "inv-1"),
    (rejectTimesheet sampleAdmin "t-1" "Wrong project").bind fun _ => .ret ()]

theorem sampleRequests_deployed : ∀ p ∈ sampleRequests, Deployed p := by
  simp only [sampleRequests, List.forall_mem_cons]
  exact ⟨.createUnbilledInvoice _ _ _, .archiveInvoice _, .releaseUnbilledSources _ _ _,
    .undoVoid _, .rejectTimesheet _ _ _, by simp⟩

end Ashbi.Billing

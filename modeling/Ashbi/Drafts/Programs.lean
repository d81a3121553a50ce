import Ashbi.Drafts.Statements
import Ashbi.Interleaving.Throws

/-! The requests and the job that create, edit and send invoices. -/

namespace Ashbi.Drafts

open Interleaving Invoicing

variable {α : Type}

/-! ### Edits -/

abbrev Request := Throws Stmt Failure

/-- A statement whose fault is thrown. -/
def query (st : Stmt (Except Fault α)) : Request α :=
  ExceptT.mk ((Prog.stmt st).bind fun r => .ret (r.mapError .fault))

def conflict : Failure :=
  .refused 409 "Invoice changed while saving. Reload before editing."

/-- A serialization failure of the transaction is a conflict. -/
def Failure.caught : Failure → Failure
  | .fault .serialization => conflict
  | failure => failure

/-- A body that throws, or that cannot be committed, is rolled back. -/
def transaction (id : String) (body : Request α) : Request α :=
  ExceptT.mk (body.run.bind fun
    | .error failure => .call (.rollback id) fun _ => .ret (.error failure.caught)
    | .ok a => .call (.commit id) fun
      | .error fault => .call (.rollback id) fun _ => .ret (.error (Failure.fault fault).caught)
      | .ok () => .ret (.ok a))

/-- The arguments of `updateDraftInvoice`. -/
structure Edit where
  data : UpdateData
  lineItems : Option (List LineItem)
  recalculate : Bool

/-- The totals are worked out again when the lines, the rate or the discount change. -/
def recalculated (invoice : Invoice) (edit : Edit) : Request (Option Totals) :=
  let taxRate := edit.data.taxRate.getD invoice.taxRate
  let discountAmount := edit.data.discountAmount.getD invoice.discountAmount
  match edit.lineItems with
  | some lineItems => pure (some (totalsOf lineItems taxRate discountAmount))
  | none =>
    if edit.recalculate then do
      let items ← query (.findLineItems invoice.id)
      pure (some (totalsOf items taxRate discountAmount))
    else pure none

def replaceLineItems (id : String) : Option (List LineItem) → Request Unit
  | none => pure ()
  | some lineItems => do
    query (.deleteLineItems id)
    query (.createLineItems id lineItems)

def updateDraftInvoice (invoice : Invoice) (edit : Edit) (organizationId : String) :
    Request Invoice := do
  if organizationId = "" ∨ invoice.organizationId ≠ organizationId then
    throw (.refused 404 "Invoice not found")
  else
    let now ← Throws.read .now
    let updatedAt := max now (invoice.updatedAt + 1)
    if invoice.reviewed && edit.data.movesBilling invoice then
      throw (.refused 409 ("The original billing client, project and currency must remain " ++
        "unchanged. Release sources and create a new draft to change them."))
    else if invoice.reviewed && edit.data.isRecurring = some true then
      throw (.refused 409
        "Reviewed work is billed once. Use a separate recurring invoice template.")
    else transaction invoice.id do
      let count ← query (.claimDraft invoice.id organizationId invoice.updatedAt updatedAt)
      if count ≠ 1 then throw conflict
      else
        let totals ← recalculated invoice edit
        replaceLineItems invoice.id edit.lineItems
        query (.updateInvoice invoice.id edit.data updatedAt totals)

/-- The edit that the body of a `PUT` asks for. -/
def UpdateBody.edit (body : UpdateBody) (data : UpdateData) : Edit where
  data := data
  lineItems := body.lineItems.map processLineItems
  recalculate := body.taxRate.isSome || body.discountAmount.isSome

def editInvoice (first : FirstRecurringDate) (id organizationId : String) (body : UpdateBody) :
    Request Invoice := do
  match ← Throws.read (.findInvoice id) with
  | none => throw (.refused 404 "Invoice not found")
  | some invoice =>
    if invoice.status ≠ .draft then
      throw (.refused 400 ("Only draft invoices can be fully updated. " ++
        "Use /mark-paid or /void for status changes."))
    else
      match updateData first invoice body with
      | none => throw (.refused 400 "recurringInterval is required for a recurring invoice")
      | some data => updateDraftInvoice invoice (body.edit data) organizationId

/-- `PUT /invoices/:id`. -/
def putInvoice (first : FirstRecurringDate) (id organizationId : String) (body : UpdateBody) :
    Prog Stmt Unit :=
  (editInvoice first id organizationId body).run.bind fun result => .stmt (.reply result)

/-! ### Sending -/

def invoiceEmail (invoice : Invoice) (contact : Contact) (token : String) : InvoiceEmail where
  recipient := contact.email
  clientName := contact.name
  invoiceNumber := invoice.invoiceNumber
  total := invoice.total
  currency := invoice.currency
  dueDate := invoice.dueDate
  viewToken := token
  invoiceId := invoice.id

def deliver (invoice : Invoice) (contact : Option Contact) (token : String) : Prog Stmt Unit :=
  match contact with
  | none => pure ()
  | some contact => do
    let _ ← .stmt (.deliverInvoiceEmail (invoiceEmail invoice contact token))
    pure ()

/-- A recurring draft without a next date starts recurring once it is sent. -/
def sendNextDate (first : FirstRecurringDate) (invoice : Invoice) : Option Time :=
  if invoice.isRecurring && (Js.truthy invoice.recurringInterval).isSome
      && invoice.recurringNextDate.isNone then
    some (first invoice.issueDate invoice.recurringInterval)
  else none

/-- The Checkout session, the email and the last write of a claimed send. -/
def announce (invoice : Invoice) (contact : Option Contact) (token : String) : Prog Stmt Unit := do
  let paid ← .stmt (.invoiceAmountPaid invoice.id)
  let checkoutInvoice := { invoice with status := .sent, viewToken := token }
  let link ← .stmt (.createCheckout checkoutInvoice (invoiceBalance invoice.total paid).balanceDue)
  deliver invoice contact token
  .stmt (.finishSend invoice.id link)

/-- What is left of a send behind its read. -/
def claimAndAnnounce (first : FirstRecurringDate) (invoice : Invoice) : Prog Stmt ℕ := do
  let contact ← .stmt (.findContact invoice.clientId)
  let token ← .stmt .newToken
  let sentAt ← .stmt .now
  let count ← .stmt (.claimSend invoice sentAt token (sendNextDate first invoice))
  if count ≠ 1 then pure 409
  else
    announce invoice contact token
    pure 200

/-- The status code of `POST /:id/send`. -/
def sendDraftInvoice (first : FirstRecurringDate) (id : String) : Prog Stmt ℕ := do
  match ← .stmt (.findInvoice id) with
  | none => pure 404
  | some invoice =>
    if invoice.status ≠ .draft then pure 400
    else claimAndAnnounce first invoice

/-! ### Creators -/

def createManual (first : FirstRecurringDate) (organizationId : String) (body : CreateBody) :
    Prog Stmt Unit := do
  match ← .stmt (.findClientName body.clientId) with
  | none => pure ()
  | some clientName =>
    let now ← .stmt .now
    let _ ← .stmt (.createInvoice .manual (manualDraft first organizationId clientName body now))
    pure ()

def createFromProposal (organizationId proposalId : String) : Prog Stmt Unit := do
  match ← .stmt (.findProposal proposalId) with
  | none => pure ()
  | some proposal =>
    let now ← .stmt .now
    let _ ← .stmt (.createInvoice .proposal (proposalDraft organizationId proposal now))
    pure ()

/-- The invoice of a confirmed preview; whatever else the transaction refuses is a fault. -/
def createUnbilled (digests : Billing.Digests) (title fingerprint : String)
    (rawInput : Billing.Selection) (actor : Billing.Actor) : Prog Stmt Unit := do
  let db ← .stmt .readBilling
  match Billing.previewUnbilledInvoice digests db rawInput actor with
  | .error _ => pure ()
  | .ok confirmed =>
    if confirmed.fingerprint ≠ fingerprint then pure ()
    else
      let now ← .stmt .now
      let _ ← .stmt (.createInvoice .unbilled (unbilledDraft actor.organizationId
        rawInput.clientId rawInput.projectId title confirmed.toInvoicePreview now))
      pure ()

def generateRetainerInvoice (organizationId clientId : String) (currency : RetainerCurrency)
    (period monthLabel : String) (dueDate : Time) : Prog Stmt Unit := do
  match ← .stmt (.findRetainerPlan clientId) with
  | none => pure ()
  | some plan =>
    match plan.amount currency with
    | none => pure ()
    | some amount =>
      let now ← .stmt .now
      let _ ← .stmt (.createInvoice (.retainer amount)
        (retainerDraft organizationId plan currency amount period monthLabel now dueDate))
      pure ()

/-- The invoices that the job finds due. -/
def findDue (now : Time) : List String → Prog Stmt (List Invoice)
  | [] => pure []
  | id :: ids => do
    let found ← .stmt (.findInvoice id)
    let rest ← findDue now ids
    pure ((found.filter fun r => r.isRecurring && r.recurringNextDate.any (· ≤ now)
      && recurringSource r.status).toList ++ rest)

def generateCopies (first : FirstRecurringDate) (now : Time) : List Invoice → Prog Stmt Unit
  | [] => pure ()
  | invoice :: rest => do
    let nextDate := first invoice.issueDate invoice.recurringInterval
    let _ ← .stmt (.copyRecurring invoice nextDate (recurringDraft invoice now))
    generateCopies first now rest

/-- One run of the job over the invoices `ids`. -/
def processRecurringInvoices (first : FirstRecurringDate) (ids : List String) :
    Prog Stmt Unit := do
  let now ← .stmt .now
  let dueInvoices ← findDue now ids
  generateCopies first now dueInvoices

/-- Creators, edits and sends of any invoices, at any time. -/
inductive Deployed : Prog Stmt Unit → Prop
  | manual (first) (organizationId) (body) : Deployed (createManual first organizationId body)
  | proposal (organizationId) (proposalId) : Deployed (createFromProposal organizationId proposalId)
  | unbilled (digests) (title) (fingerprint) (rawInput) (actor) :
      Deployed (createUnbilled digests title fingerprint rawInput actor)
  | retainer (organizationId) (clientId) (currency) (period) (monthLabel) (dueDate) :
      Deployed (generateRetainerInvoice organizationId clientId currency period monthLabel dueDate)
  | recurring (first) (ids) : Deployed (processRecurringInvoices first ids)
  | put (first) (id) (organizationId) (body) : Deployed (putInvoice first id organizationId body)
  | send (first) (id) : Deployed ((sendDraftInvoice first id).bind fun _ => .ret ())

end Ashbi.Drafts

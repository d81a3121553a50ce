import Ashbi.Drafts.Row
import Ashbi.Interleaving.Program

/-! The statements of the invoice programs on the table of invoices, each one atomic step. -/

namespace Ashbi.Drafts

open Invoicing

/-- A committed invoice and its payments, with the row as the transaction sees it that holds
its lock. -/
structure Cell where
  committed : Invoice
  held : Option (ℕ × Invoice)
  payments : List Payment

/-- The invoices by id. -/
abbrev Table := String → Option Cell

/-- Why a statement of a transaction fails; `serialization` is `P2034`. -/
inductive Fault
  | serialization | other
  deriving DecidableEq

/-- Which creator an invoice comes from. -/
inductive Origin
  | manual | proposal | unbilled
  | retainer (amount : ℚ)
  deriving DecidableEq

structure InvoiceEmail where
  recipient : String
  clientName : String
  invoiceNumber : String
  total : ℚ
  currency : String
  dueDate : Option Time
  viewToken : String
  invoiceId : String
  deriving DecidableEq

/-- The primary contact of the client. -/
structure Contact where
  email : String
  name : String
  deriving DecidableEq

inductive Failure
  | refused (statusCode : ℕ) (message : String)
  | fault (fault : Fault)
  deriving DecidableEq

inductive Stmt : Type → Type
  | now : Stmt Time
  | newToken : Stmt String
  | findInvoice (id : String) : Stmt (Option Invoice)
  | findContact (id : String) : Stmt (Option Contact)
  | invoiceAmountPaid (id : String) : Stmt ℚ
  /-- What `unbilled-invoice.service.js` reads in its transaction. -/
  | readBilling : Stmt Billing.Db
  | findRetainerPlan (clientId : String) : Stmt (Option RetainerPlan)
  | findProposal (id : String) : Stmt (Option ProposalTerms)
  | findClientName (id : String) : Stmt (Option String)
  /-- A transaction that allocates a number and inserts the invoice. -/
  | createInvoice (origin : Origin) (draft : Draft) : Stmt (Except Fault Invoice)
  /-- The serializable transaction that moves a recurring invoice on and inserts its copy. -/
  | copyRecurring (seen : Invoice) (nextDate : Time) (draft : Draft) : Stmt (Except Fault Bool)
  /-- Takes the row lock of an observed draft. -/
  | claimDraft (id organizationId : String) (observed updatedAt : Time) : Stmt (Except Fault ℕ)
  | findLineItems (id : String) : Stmt (Except Fault (List LineItem))
  | deleteLineItems (id : String) : Stmt (Except Fault Unit)
  | createLineItems (id : String) (lineItems : List LineItem) : Stmt (Except Fault Unit)
  | updateInvoice (id : String) (data : UpdateData) (updatedAt : Time) (totals : Option Totals) :
      Stmt (Except Fault Invoice)
  | commit (id : String) : Stmt (Except Fault Unit)
  | rollback (id : String) : Stmt Unit
  /-- `DRAFT` to `SENT`; the request read the invoice as `seen`. -/
  | claimSend (seen : Invoice) (sentAt : Time) (viewToken : String) (nextDate : Option Time) :
      Stmt ℕ
  | createCheckout (invoice : Invoice) (balanceDue : ℚ) : Stmt (Option String)
  | deliverInvoiceEmail (email : InvoiceEmail) : Stmt Bool
  | finishSend (id : String) (paymentLink : Option String) : Stmt Unit
  /-- What the request of an edit is answered. -/
  | reply (result : Except Failure Invoice) : Stmt Unit

/-- What the environment decides: clock, tokens, ids, faults, rows of other tables and the
answers of the providers. -/
structure Choice where
  time : Time
  text : String
  fault : Option Fault
  contact : Option Contact
  billing : Billing.Db
  plan : Option RetainerPlan
  proposal : Option ProposalTerms
  accepted : Bool

variable {β : Type}

/-- No transaction holds the row lock. -/
def Cell.free (c : Cell) : Bool := c.held.isNone

def Table.put (s : Table) (id : String) (c : Cell) : Table := Function.update s id (some c)

/-- A statement that commits by itself. -/
def Table.write (s : Table) (id : String) (f : Invoice → Invoice) : Table :=
  match s id with
  | some c => s.put id { c with committed := f c.committed }
  | none => s

/-- The condition of the claim of an edit. -/
def Invoice.editable (r : Invoice) (organizationId : String) (observed : Time) : Bool :=
  r.organizationId = organizationId && r.deletedAt.isNone && r.status = .draft
    && r.updatedAt = observed

/-- `RECURRING_SOURCE_STATUSES`. -/
def recurringSource : InvoiceStatus → Bool
  | .sent | .viewed | .overdue | .paid => true
  | .draft | .void => false

/-- The condition under which a recurring invoice is moved on. -/
def Invoice.stillDue (r seen : Invoice) : Bool :=
  r.isRecurring && r.recurringNextDate = seen.recurringNextDate && recurringSource r.status

/-- A matching write waits for the transaction that holds the row lock. -/
def enabled (st : Stmt β) (s : Table) : Bool :=
  match st with
  | .claimDraft id organizationId observed _ =>
    (s id).all fun c => c.free || !c.committed.editable organizationId observed
  | .copyRecurring seen _ _ => (s seen.id).all fun c => c.free || !c.committed.stillDue seen
  | .claimSend seen _ _ _ => (s seen.id).all fun c => c.free || c.committed.status ≠ .draft
  | .finishSend id _ => (s id).all (·.free)
  | _ => true

/-- A statement inside the transaction of thread `i`, on the row it has locked. -/
def Table.inTransaction (s : Table) (i : ℕ) (id : String) (fault : Option Fault)
    (f : Invoice → β × Invoice) : Except Fault β × Table :=
  match fault, s id with
  | some e, _ => (.error e, s)
  | none, none => (.error .other, s)
  | none, some c =>
    match c.held with
    | none => (.error .other, s)
    | some (j, row) =>
      if j = i then (.ok (f row).1, s.put id { c with held := some (i, (f row).2) })
      else (.error .other, s)

def Table.claimDraft (s : Table) (i : ℕ) (id organizationId : String) (observed updatedAt : Time) :
    ℕ × Table :=
  match s id with
  | none => (0, s)
  | some c =>
    if c.committed.editable organizationId observed then
      (1, s.put id { c with held := some (i, { c.committed with updatedAt := updatedAt }) })
    else (0, s)

def Table.commit (s : Table) (i : ℕ) (id : String) : Table :=
  match s id with
  | none => s
  | some c =>
    match c.held with
    | none => s
    | some (j, row) => if j = i then s.put id { c with committed := row, held := none } else s

def Table.rollback (s : Table) (i : ℕ) (id : String) : Table :=
  match s id with
  | none => s
  | some c => if c.held.any (·.1 = i) then s.put id { c with held := none } else s

/-- A new row of the draft. -/
def Draft.row (d : Draft) (id invoiceNumber viewToken : String) (now : Time) : Invoice :=
  { d with
    id := id
    invoiceNumber := invoiceNumber
    status := .draft
    updatedAt := now
    deletedAt := none
    sentAt := none
    viewToken := viewToken
    stripePaymentLink := none }

/-- Inserts the draft under an id that is not taken yet. -/
def Table.insert (s : Table) (d : Draft) (ch : Choice) : Except Fault Invoice × Table :=
  match ch.fault, s ch.text with
  | some e, _ => (.error e, s)
  | none, some _ => (.error .other, s)
  | none, none =>
    let row := d.row ch.text ch.text ch.text ch.time
    (.ok row, s.put ch.text ⟨row, none, []⟩)

/-- The source of a copy waits for its next date. -/
def Invoice.moveOn (r : Invoice) (nextDate now : Time) : Invoice :=
  { r with recurringNextDate := some nextDate, updatedAt := now }

def Table.copyRecurring (s : Table) (seen : Invoice) (nextDate : Time) (d : Draft) (ch : Choice) :
    Except Fault Bool × Table :=
  match s seen.id with
  | none => (.ok false, s)
  | some c =>
    if c.committed.stillDue seen then
      match s.insert d ch with
      | (.error e, _) => (.error e, s)
      | (.ok _, s') => (.ok true, s'.write seen.id (·.moveOn nextDate ch.time))
    else (.ok false, s)

def Invoice.send (r : Invoice) (sentAt : Time) (viewToken : String) (nextDate : Option Time)
    (now : Time) : Invoice :=
  { r with
    status := .sent, sentAt := some sentAt, viewToken := viewToken, updatedAt := now
    recurringNextDate := nextDate.orElse fun _ => r.recurringNextDate }

def Invoice.finish (r : Invoice) (paymentLink : Option String) (now : Time) : Invoice :=
  { r with
    stripePaymentLink := paymentLink.orElse fun _ => r.stripePaymentLink, updatedAt := now }

def Table.claimSend (s : Table) (seen : Invoice) (sentAt : Time) (viewToken : String)
    (nextDate : Option Time) (now : Time) : ℕ × Table :=
  match s seen.id with
  | none => (0, s)
  | some c =>
    if c.committed.status = .draft then
      (1, s.write seen.id (·.send sentAt viewToken nextDate now))
    else (0, s)

/-- The rows of one invoice's payments are not written by these programs. -/
def Table.amountPaid (s : Table) (id : String) : ℚ :=
  invoiceAmountPaid (((s id).map (·.payments)).getD [])

def exec (i : ℕ) (st : Stmt β) (ch : Choice) (s : Table) : β × Table :=
  match st with
  | .now => (ch.time, s)
  | .newToken => (ch.text, s)
  | .findInvoice id => ((s id).map (·.committed), s)
  | .findContact _ => (ch.contact, s)
  | .invoiceAmountPaid id => (s.amountPaid id, s)
  | .readBilling => (ch.billing, s)
  | .findRetainerPlan _ => (ch.plan, s)
  | .findProposal _ => (ch.proposal, s)
  | .findClientName _ => (some ch.text, s)
  | .createInvoice _ draft => s.insert draft ch
  | .copyRecurring seen nextDate draft => s.copyRecurring seen nextDate draft ch
  | .claimDraft id organizationId observed updatedAt =>
    match ch.fault with
    | some e => (.error e, s)
    | none =>
      let (count, s') := s.claimDraft i id organizationId observed updatedAt
      (.ok count, s')
  | .findLineItems id => s.inTransaction i id ch.fault fun r => (r.lineItems, r)
  | .deleteLineItems id => s.inTransaction i id ch.fault fun r => ((), { r with lineItems := [] })
  | .createLineItems id lineItems => s.inTransaction i id ch.fault fun r =>
      ((), { r with lineItems := r.lineItems ++ lineItems })
  | .updateInvoice id data updatedAt totals => s.inTransaction i id ch.fault fun r =>
      let d := data.apply r.toDraft
      let r' := { r with
        toDraft := (totals.map d.withTotals).getD d, updatedAt := updatedAt }
      (r', r')
  | .commit id =>
    match ch.fault with
    | some e => (.error e, s)
    | none => (.ok (), s.commit i id)
  | .rollback id => ((), s.rollback i id)
  | .claimSend seen sentAt viewToken nextDate =>
    s.claimSend seen sentAt viewToken nextDate ch.time
  | .createCheckout _ _ => (if ch.accepted then some ch.text else none, s)
  | .deliverInvoiceEmail _ => (ch.accepted, s)
  | .finishSend id paymentLink => ((), s.write id (·.finish paymentLink ch.time))
  | .reply _ => ((), s)

abbrev machine : Interleaving.Machine where
  Stmt := Stmt
  Choice := Choice
  State := Table
  enabled := fun _ => enabled
  exec := exec

end Ashbi.Drafts

import Mathlib.Data.List.Sort
import Ashbi.Interleaving.Program
import Ashbi.Invoicing.Row
import Ashbi.Sql.Batch

/-! Invoices as the overdue job sees them, and the statements of the job, of payments and of
voids. -/

namespace Ashbi.Overdue

open Invoicing

/-- An invoice; its id stands for its place in the order of ids. -/
structure Invoice where
  id : ℕ
  status : InvoiceStatus
  total : ℚ
  dueDate : Time
  clientId : ℕ
  viewToken : Option String
  publicAccessRevokedAt : Option Time
  publicAccessExpiresAt : Option Time
  reminderSentAt : Option Time
  overdueEscalatedAt : Option Time
  voidedAt : Option Time
  voidedFromStatus : Option InvoiceStatus
  deriving DecidableEq

/-- A payment, with the transaction of Stripe that it came from. -/
structure Payment where
  invoiceId : ℕ
  amount : ℚ
  transactionId : Option String
  deriving DecidableEq

structure State where
  invoices : List Invoice
  payments : List Payment
  /-- The readings of the clock with which runs of the job have started. -/
  started : List Time

def State.invoice (s : State) (id : ℕ) : Option Invoice := s.invoices.find? (·.id = id)

/-- The amounts of an invoice's payments. -/
def State.paid (s : State) (id : ℕ) : List ℚ :=
  (s.payments.filter (·.invoiceId = id)).map (·.amount)

def State.update (s : State) (id : ℕ) (selects : Invoice → Bool) (set : Invoice → Invoice) :
    State :=
  { s with invoices := Sql.update (fun row => row.id = id && selects row) set s.invoices }

/-- The rows that an update of an invoice has changed are counted. -/
def State.count (s : State) (id : ℕ) (selects : Invoice → Bool) : ℕ :=
  (s.invoices.filter fun row => row.id = id && selects row).length

/-! ### What is due -/

inductive Stage
  | reminder | escalation
  deriving DecidableEq

def overdueEscalationDays : ℤ := 7
def dayMs : Time := 24 * 60 * 60 * 1000

def daysOverdue (invoice : Invoice) (now : Time) : ℤ := (now - invoice.dueDate) / dayMs

def overdueReminderStage (invoice : Invoice) (now : Time) : Option Stage :=
  if overdueEscalationDays ≤ daysOverdue invoice now then
    if invoice.overdueEscalatedAt.isSome then none else some .escalation
  else if invoice.reminderSentAt.isSome then none else some .reminder

/-- What is still owed of a total. -/
def balanceDue (total : ℚ) (paid : List ℚ) : ℚ := (invoiceBalance total paid.sum).balanceDue

/-- `invoicePublicAccessFailure` finds nothing against the link of an OVERDUE invoice. -/
def linkUsable (invoice : Invoice) : Bool :=
  invoice.viewToken.any (· ≠ "") && invoice.publicAccessRevokedAt.isNone &&
    invoice.publicAccessExpiresAt.isSome

/-- `SENT_INVOICE_STATUSES`. -/
def isSent (status : InvoiceStatus) : Bool := status = .sent || status = .viewed

/-- A row of a page, with the payments that were read with it. -/
structure Listed where
  invoice : Invoice
  payments : List ℚ
  deriving DecidableEq

/-- The condition on the listed invoices. -/
def Invoice.listed (invoice : Invoice) (now : Time) (cursor : Option ℕ) : Bool :=
  invoice.status.payable && invoice.dueDate < now && invoice.overdueEscalatedAt.isNone &&
    cursor.all (· < invoice.id)

def State.page (s : State) (now : Time) (cursor : Option ℕ) (pageSize : ℕ) : List Listed :=
  (((s.invoices.filter (·.listed now cursor)).insertionSort (·.id ≤ ·.id)).take pageSize).map
    fun invoice => ⟨invoice, s.paid invoice.id⟩

/-! ### Claims -/

/-- The `where` of a claim, besides the id. -/
def Invoice.claimable (invoice : Invoice) (listed : Listed) (stage : Stage) : Bool :=
  invoice.status.payable && invoice.reminderSentAt = listed.invoice.reminderSentAt &&
    (stage = .reminder || invoice.overdueEscalatedAt.isNone)

def Invoice.claimed (invoice : Invoice) (stage : Stage) (now : Time) : Invoice :=
  match stage with
  | .reminder => { invoice with reminderSentAt := some now }
  | .escalation => { invoice with reminderSentAt := some now, overdueEscalatedAt := some now }

def Invoice.released (invoice : Invoice) (listed : Listed) (stage : Stage) : Invoice :=
  match stage with
  | .reminder => { invoice with reminderSentAt := listed.invoice.reminderSentAt }
  | .escalation =>
    { invoice with
      reminderSentAt := listed.invoice.reminderSentAt
      overdueEscalatedAt := none }

/-- The next run may claim the stage. -/
def Invoice.unclaimed (invoice : Invoice) : Stage → Prop
  | .reminder => invoice.reminderSentAt = none
  | .escalation => invoice.overdueEscalatedAt = none

/-! ### Payments, voids and their undo -/

/-- A payment of an open invoice; the row lock is held from the first write on. -/
def State.pay (s : State) (id : ℕ) (amount : Option ℚ) (transactionId : Option String) : State :=
  match s.invoice id with
  | none => s
  | some invoice =>
    if !invoice.status.payable then s
    else match settlement invoice.total (roundMoney (s.paid id).sum) amount with
      | .error _ => s
      | .ok result =>
        { s.update id (fun _ => result.fullyPaid) (fun row => { row with status := .paid }) with
          payments := s.payments ++ [⟨id, result.amount, transactionId⟩] }

/-- An invoice with payments is not voided. -/
def State.void (s : State) (id : ℕ) (fromStatus : InvoiceStatus) (now : Time) : State :=
  if 0 < roundMoney (s.paid id).sum then s
  else s.update id (·.status.voidable) fun row =>
    { row with status := .void, voidedAt := some now, voidedFromStatus := some fromStatus }

def Invoice.undoable (invoice : Invoice) (now : Time) : Bool :=
  invoice.status = .void && invoice.voidedFromStatus.any (·.voidable) &&
    invoice.voidedAt.any (now - · ≤ voidUndoWindowMs)

def State.undoVoid (s : State) (id : ℕ) (now : Time) : State :=
  s.update id (·.undoable now) fun row =>
    { row with
      status := row.voidedFromStatus.getD row.status
      voidedAt := none
      voidedFromStatus := none }

/-! ### The statements -/

open Interleaving

/-- What an email about an overdue invoice says. -/
structure Email where
  recipient : String
  total : ℚ
  daysOverdue : ℤ
  deriving DecidableEq

inductive Stmt : Type → Type
  | start (now : Time) : Stmt Unit
  | findMany (now : Time) (cursor : Option ℕ) (pageSize : ℕ) : Stmt (List Listed)
  | markOverdue (id : ℕ) (status : InvoiceStatus) : Stmt ℕ
  | claim (listed : Listed) (stage : Stage) (now : Time) : Stmt ℕ
  | clientEmail (clientId : ℕ) : Stmt (Except Unit (Option String))
  | resolveBranding (id : ℕ) : Stmt (Except Unit Unit)
  /-- The email about a claimed stage; answers `ok`. -/
  | sendOverdueEmail (id : ℕ) (stage : Stage) (now : Time) (email : Email) : Stmt Bool
  | release (listed : Listed) (stage : Stage) (now : Time) : Stmt Unit
  | recordManualPayment (id : ℕ) (amount : Option ℚ) : Stmt Unit
  | recordCompletedCheckout (id : ℕ) (transactionId : String) (amountTotal : ℕ) : Stmt Unit
  | findStatus (id : ℕ) : Stmt (Option InvoiceStatus)
  | voidInvoice (id : ℕ) (fromStatus : InvoiceStatus) : Stmt Unit
  | undoVoid (id : ℕ) : Stmt Unit

/-- The reading of the clock, what is read from other tables, whether the provider accepts an email
and what it answers, and whether a Checkout session matches the invoice. -/
structure Choice where
  time : Time
  contact : Except Unit (Option String)
  branding : Except Unit Unit
  accepted : Bool
  ok : Bool
  matched : Bool

def exec {β : Type} (st : Stmt β) (choice : Choice) (s : State) : β × State :=
  match st with
  | .start now => ((), { s with started := s.started ++ [now] })
  | .findMany now cursor pageSize => (s.page now cursor pageSize, s)
  | .markOverdue id status =>
    (s.count id (·.status = status),
      s.update id (·.status = status) fun row => { row with status := .overdue })
  | .claim listed stage now =>
    (s.count listed.invoice.id (·.claimable listed stage),
      s.update listed.invoice.id (·.claimable listed stage) (·.claimed stage now))
  | .clientEmail _ => (choice.contact, s)
  | .resolveBranding _ => (choice.branding, s)
  | .sendOverdueEmail _ _ _ _ => (choice.ok, s)
  | .release listed stage now =>
    ((), s.update listed.invoice.id (·.reminderSentAt = some now) (·.released listed stage))
  | .recordManualPayment id amount => ((), s.pay id amount none)
  | .recordCompletedCheckout id transactionId amountTotal =>
    ((), if choice.matched && 0 < amountTotal &&
        !s.payments.any (·.transactionId = some transactionId) then
        s.pay id (some (amountTotal / 100)) (some transactionId)
      else s)
  | .findStatus id => ((s.invoice id).map (·.status), s)
  | .voidInvoice id fromStatus => ((), s.void id fromStatus choice.time)
  | .undoVoid id => ((), s.undoVoid id choice.time)

/-- Every run of the job has a reading of the clock of its own. -/
def Stmt.enabled {β : Type} (st : Stmt β) (s : State) : Bool :=
  match st with
  | .start now => !s.started.contains now
  | _ => true

abbrev machine : Machine where
  Stmt := Stmt
  Choice := Choice
  State := State
  enabled := fun _ st s => st.enabled s
  exec := fun _ st choice s => exec st choice s

/-! ### The job -/

abbrev Job := Prog Stmt Unit

/-- The email is prepared and sent; where it was not accepted, the claim is undone. -/
def sendClaimed (now : Time) (listed : Listed) (stage : Stage) (recipient : String) : Job := do
  let branding ← Prog.stmt (.resolveBranding listed.invoice.id)
  match branding with
  | .error _ => Prog.stmt (.release listed stage now)
  | .ok _ => do
    let ok ← Prog.stmt (.sendOverdueEmail listed.invoice.id stage now
      ⟨recipient, balanceDue listed.invoice.total listed.payments, daysOverdue listed.invoice now⟩)
    if ok then pure () else Prog.stmt (.release listed stage now)

/-- Without a contact or a usable link the stage stays claimed. -/
def deliver (now : Time) (listed : Listed) (stage : Stage) : Job := do
  let contact ← Prog.stmt (.clientEmail listed.invoice.clientId)
  match contact with
  | .ok (some email) =>
    if email ≠ "" ∧ linkUsable listed.invoice then sendClaimed now listed stage email else pure ()
  | _ => pure ()

def claimOverdueStage (now : Time) (listed : Listed) (stage : Stage) : Job := do
  let count ← Prog.stmt (.claim listed stage now)
  if count ≠ 1 then pure () else deliver now listed stage

def chaseInvoice (now : Time) (listed : Listed) : Job :=
  match overdueReminderStage listed.invoice now with
  | none => pure ()
  | some stage => claimOverdueStage now listed stage

def processOverdueInvoice (now : Time) (listed : Listed) : Job :=
  if isSent listed.invoice.status then do
    let count ← Prog.stmt (.markOverdue listed.invoice.id listed.invoice.status)
    if count ≠ 1 then pure () else chaseInvoice now listed
  else chaseInvoice now listed

def processPage (now : Time) (page : List Listed) : Job :=
  page.foldlM (fun _ listed => processOverdueInvoice now listed) ()

/-- At most so many pages. -/
def checkPages (now : Time) (pageSize : ℕ) : ℕ → Option ℕ → Job
  | 0, _ => pure ()
  | pages + 1, cursor => do
    let page ← Prog.stmt (.findMany now cursor pageSize)
    processPage now page
    match page.getLast? with
    | none => pure ()
    | some last =>
      if page.length < pageSize then pure ()
      else checkPages now pageSize pages (some last.invoice.id)

def checkOverdueInvoices (now : Time) (pageSize pages : ℕ) : Job := do
  Prog.stmt (.start now)
  checkPages now pageSize pages none

/-! ### Voids -/

def deleteInvoice (id : ℕ) : Job := do
  let status ← Prog.stmt (.findStatus id)
  match status with
  | none => pure ()
  | some status => if status.voidable then Prog.stmt (.voidInvoice id status) else pure ()

/-- What runs. -/
inductive Deployed : Prog Stmt Unit → Prop
  | checkOverdueInvoices (now) (pageSize pages) : Deployed (checkOverdueInvoices now pageSize pages)
  | recordManualPayment (id) (amount) : Deployed (.stmt (.recordManualPayment id amount))
  | recordCompletedCheckout (id) (transactionId) (amountTotal) :
      Deployed (.stmt (.recordCompletedCheckout id transactionId amountTotal))
  | deleteInvoice (id) : Deployed (deleteInvoice id)
  | undoVoid (id) : Deployed (.stmt (.undoVoid id))

end Ashbi.Overdue

import Ashbi.Invoicing.Statements

/-! The programs that send, price, pay and void an invoice. -/

namespace Ashbi.Invoicing

open Interleaving

variable {ε α : Type}

/-- `$transaction`: a body that throws is rolled back. -/
def transaction (op : Operation) (body : Prog Stmt (Except ε α)) : Prog Stmt (Except ε α) := do
  match ← body with
  | .ok a =>
    .stmt (.commit op)
    pure (.ok a)
  | .error e =>
    .stmt .rollback
    pure (.error e)

/-! ### Payments -/

/-- `none`: not payable, nothing written. -/
def claimPayableInvoice : Prog Stmt (Option Invoice) := do
  let count ← .stmt (.updateMany true .claimPayable)
  if count ≠ 1 then pure none
  else
    let invoice ← .stmt .findInvoice
    pure (some invoice)

structure PaymentInput where
  amount : Option ℚ
  method : String
  paidAt : Time
  source : PaymentSource
  transactionId : Option String
  notes : Option String

structure AppliedPayment where
  payment : Payment
  amount : ℚ
  fullyPaid : Bool

def applyInvoicePayment (invoice : Invoice) (input : PaymentInput) :
    Prog Stmt (Except PaymentError AppliedPayment) := do
  let paidBefore ← .stmt .invoiceAmountPaid
  match settlement invoice.total paidBefore input.amount with
  | .error e => pure (.error e)
  | .ok r =>
    match ← .stmt (.createPayment
        ⟨r.amount, input.method, input.transactionId, input.notes, input.paidAt⟩) with
    | none => pure (.error .uniqueViolation)
    | some payment =>
      let _ ← .stmt (.updateMany true (.payment input.source input.method input.paidAt r.fullyPaid))
      if r.fullyPaid then
        if ← .stmt (.recordInvoicePaid payment) then pure (.ok ⟨payment, r.amount, r.fullyPaid⟩)
        else pure (.error .eventRejected)
      else pure (.ok ⟨payment, r.amount, r.fullyPaid⟩)

/-- What `mark-paid` asks for; both routes check it before they get here. -/
structure ManualPayment where
  amount : Option ℚ
  method : String
  paidAt : Time
  paymentNotes : Option String
  transactionId : Option String

structure RecordedPayment extends AppliedPayment where
  clearedCheckoutSessionId : Option String

def recordManualPayment (input : ManualPayment) :
    Prog Stmt (Except PaymentError (Option RecordedPayment)) :=
  transaction .recordManualPayment do
    match ← claimPayableInvoice with
    | none => pure (.ok none)
    | some current =>
      match ← applyInvoicePayment current
          ⟨input.amount, input.method, input.paidAt, .manual input.paymentNotes input.transactionId,
            input.transactionId, input.paymentNotes⟩ with
      | .error e => pure (.error e)
      | .ok applied => pure (.ok (some ⟨applied, current.stripeCheckoutSessionId⟩))

/-- `retireCheckoutSession`. -/
def retireCheckoutSession : Option String → Prog Stmt Unit
  | none => pure ()
  | some sessionId => do
    let _ ← .stmt (.expireSession sessionId)
    pure ()

inductive MarkPaidReply
  | notPayable
  | refused (error : PaymentError)
  | recorded (payment : RecordedPayment)

/-- `POST /:id/mark-paid` and one invoice of `POST /bulk/mark-paid`. -/
def markPaid (input : ManualPayment) : Prog Stmt MarkPaidReply := do
  let invoice ← .stmt .findInvoice
  if !invoice.status.payable then pure .notPayable
  else
    match ← recordManualPayment input with
    | .error e => pure (.refused e)
    | .ok none => pure .notPayable
    | .ok (some recorded) =>
      retireCheckoutSession recorded.clearedCheckoutSessionId
      pure (.recorded recorded)

/-- The session of a verified `checkout.session.completed` event. -/
structure CompletedCheckout where
  eventId : String
  created : Time
  sessionId : String
  paymentIntent : Option String
  paymentStatus : String
  currency : Option String
  amountTotal : Option ℤ
  invoiceId : Option String
  invoiceNumber : Option String

def CompletedCheckout.transactionId (e : CompletedCheckout) : String :=
  (e.paymentIntent.filter (· ≠ "")).getD e.sessionId

inductive CheckoutRejection
  | checkoutMismatch | invoiceAlreadyPaid | invoiceVoid | checkoutBalanceChanged
  | failed (error : PaymentError)
  deriving DecidableEq

inductive CheckoutOutcome
  | duplicate
  | recorded (fullyPaid : Bool)
  deriving DecidableEq

/-- The checks that need no lock. -/
def checkoutMatches (e : CompletedCheckout) (invoice : Invoice) : Bool :=
  e.currency.map String.toLower = some (checkoutCurrency invoice)
    && e.invoiceNumber = some invoice.invoiceNumber && e.amountTotal.any (0 < ·)

/-- Why an invoice that cannot be claimed refuses the checkout. -/
def notPayableRejection : InvoiceStatus → CheckoutRejection
  | .void => .invoiceVoid
  | .paid => .invoiceAlreadyPaid
  | .draft | .sent | .viewed | .overdue => .checkoutMismatch

def applyCheckout (e : CompletedCheckout) (current : Invoice) :
    Prog Stmt (Except CheckoutRejection CheckoutOutcome) := do
  match ← applyInvoicePayment current
      ⟨e.amountTotal.map fun n => n / 100, "STRIPE", e.created, .stripe e.transactionId,
        some e.transactionId, some ("Paid via Stripe Checkout event " ++ e.eventId)⟩ with
  | .error (.overpayment _) => pure (.error .checkoutBalanceChanged)
  | .error error => pure (.error (.failed error))
  | .ok applied =>
    if applied.fullyPaid then
      let _ ← .stmt (.updateMany true (.linkSession e.sessionId))
      pure (.ok (.recorded true))
    else pure (.ok (.recorded false))

/-- From the claim on: a replay is a duplicate whether or not the invoice is still open. -/
def claimCheckout (e : CompletedCheckout) :
    Prog Stmt (Except CheckoutRejection CheckoutOutcome) := do
  let current ← claimPayableInvoice
  if ← .stmt (.findStripePayment e.transactionId) then pure (.ok .duplicate)
  else
    match current with
    | some current => applyCheckout e current
    | none =>
      let invoice ← .stmt .findInvoice
      pure (.error (notPayableRejection invoice.status))

def checkoutTransaction (e : CompletedCheckout) :
    Prog Stmt (Except CheckoutRejection CheckoutOutcome) :=
  transaction .recordCompletedCheckout do
    let invoice ← .stmt .findInvoice
    if e.invoiceId ≠ some invoice.id then pure (.error .checkoutMismatch)
    else if e.paymentStatus ≠ "paid" then pure (.error .checkoutMismatch)
    else if ← .stmt (.findStripePayment e.transactionId) then pure (.ok .duplicate)
    else if !checkoutMatches e invoice then pure (.error .checkoutMismatch)
    else claimCheckout e

/-- A unique violation after all is a replay if the payment is this invoice's. -/
def recordCompletedCheckout (e : CompletedCheckout) :
    Prog Stmt (Except CheckoutRejection CheckoutOutcome) := do
  match ← checkoutTransaction e with
  | .error (.failed .uniqueViolation) =>
    if ← .stmt (.findStripePayment e.transactionId) then pure (.ok .duplicate)
    else pure (.error (.failed .uniqueViolation))
  | result => pure result

/-! ### Void and undo -/

inductive VoidOutcome
  | changed
  | hasPayments
  | voided (voidedAt : Time)
  deriving DecidableEq

/-- The error is `InvoiceHasPaymentsError`; `false` is an invoice that changed meanwhile. -/
def voidTransaction (invoice : Invoice) (voidedAt : Time) : Prog Stmt (Except Unit Bool) :=
  transaction (.voidInvoice invoice) do
    let count ← .stmt (.updateMany true (.void voidedAt invoice.status))
    if count ≠ 1 then pure (.ok false)
    else
      let paid ← .stmt .invoiceAmountPaid
      if 0 < paid then pure (.error ()) else pure (.ok true)

/-- `voidInvoice`, given the invoice that the request read. -/
def voidInvoice (invoice : Invoice) : Prog Stmt VoidOutcome := do
  let voidedAt ← .stmt .now
  match ← voidTransaction invoice voidedAt with
  | .error () => pure .hasPayments
  | .ok false => pure .changed
  | .ok true =>
    retireCheckoutSession invoice.stripeCheckoutSessionId
    pure (.voided voidedAt)

/-- `DELETE /:id` and one invoice of `POST /bulk/archive`. -/
def archiveInvoice : Prog Stmt VoidOutcome := do
  let invoice ← .stmt .findInvoice
  if !invoice.status.voidable then pure .changed else voidInvoice invoice

/-- `none` is a write refused by the database. -/
def undoVoid : Prog Stmt (Except (Option UndoRefusal) Unit) :=
  transaction .undoVoid do
    let invoice ← .stmt .findInvoice
    let now ← .stmt .now
    match undoVoidCheck invoice now with
    | .error refusal => pure (.error (some refusal))
    | .ok () =>
      let count ← .stmt (.updateMany true (.undoVoid invoice))
      if count = 1 then pure (.ok ()) else pure (.error none)

/-! ### Checkout links -/

/-- Configuration and the digest of the idempotency key. -/
structure StripeConfig where
  configured : Bool
  appUrl : String
  digest : CheckoutParams → String

structure CreatedLink where
  session : Session
  data : CheckoutData
  deriving DecidableEq

/-- `createPaymentLink` and the `checkoutPersistenceData` of its result. -/
def createPaymentLink (config : StripeConfig) (invoice : Invoice) (balanceDue : ℚ) :
    Prog Stmt (Except LinkError CreatedLink) :=
  if !config.configured then pure (.error .notConfigured)
  else do
    let params := checkoutParams config.appUrl invoice balanceDue
    match ← .stmt (.createSession (checkoutIdempotencyKey config.digest invoice params) params) with
    | none => pure (.error .stripeFailed)
    | some session => pure (.ok ⟨session, checkoutPersistenceData invoice params session⟩)

/-- `withInvoiceBalance` of an invoice read before. -/
def balanceOf (invoice : Invoice) : Prog Stmt ℚ := do
  let paid ← .stmt .invoiceAmountPaid
  pure (invoiceBalance invoice.total paid).balanceDue

/-- The rounds of `ensureCheckoutSession`. -/
def checkoutRounds (config : StripeConfig) (now : Time) :
    ℕ → Invoice → ℚ → Prog Stmt CheckoutReply
  | 0, _, _ => pure .notPayable
  | rounds + 1, invoice, balanceDue =>
    if !invoice.status.payable then pure .notPayable
    else if ¬ 0 < balanceDue then pure .notPayable
    else
      match reusableCheckoutLink invoice balanceDue now with
      | some link => pure (.link link true)
      | none => do
        match ← createPaymentLink config invoice balanceDue with
        | .error e => pure (.failed e)
        | .ok created =>
          let count ← .stmt (.updateMany false
            (.storeCheckout invoice.stripeCheckoutAttempt created.data))
          if count = 1 then pure (.link created.session.url false)
          else
            let fresh ← .stmt .findInvoice
            if fresh.stripeCheckoutSessionId = some created.session.id then
              pure (.link created.session.url false)
            else
              let _ ← .stmt (.expireSession created.session.id)
              let balanceDue ← balanceOf fresh
              checkoutRounds config now rounds fresh balanceDue

/-- `CHECKOUT_STORE_ATTEMPTS`. -/
def checkoutStoreAttempts : ℕ := 3

def ensureCheckoutSession (config : StripeConfig) (input : Invoice) : Prog Stmt CheckoutReply := do
  let now ← .stmt .now
  let balanceDue ← balanceOf input
  checkoutRounds config now checkoutStoreAttempts input balanceDue

/-- `POST /:id/payment-link` and the portal's pay route. -/
def paymentLink (config : StripeConfig) : Prog Stmt CheckoutReply := do
  let invoice ← .stmt .findInvoice
  if !invoice.status.payable then pure .notPayable else ensureCheckoutSession config invoice

/-! ### Sending and the overdue job -/

inductive SendReply
  | alreadySent
  | sent (paymentLinkAttached : Bool)
  deriving DecidableEq

/-- Claims `DRAFT → SENT` before any side effect. -/
def claimSend (sentAt : Time) (viewToken : String) : Prog Stmt Bool := do
  let count ← .stmt (.updateMany false (.send sentAt viewToken))
  pure (count = 1)

/-- `sendDraftInvoice`; a failing Stripe or mail call does not stop the send. -/
def sendDraftInvoice (config : StripeConfig) : Prog Stmt SendReply := do
  let invoice ← .stmt .findInvoice
  if invoice.status ≠ .draft then pure .alreadySent
  else
    let token ← .stmt .newToken
    let sentAt ← .stmt .now
    if !(← claimSend sentAt token) then pure .alreadySent
    else
      let balanceDue ← balanceOf invoice
      let checkoutInvoice := { invoice with status := .sent, viewToken := token }
      let created ← createPaymentLink config checkoutInvoice balanceDue
      let checkout := created.toOption.map (·.data)
      let _ ← .stmt .deliverInvoiceEmail
      let _ ← .stmt (.updateMany false (.finishSend checkout))
      pure (.sent checkout.isSome)

/-- The status transition of `processOverdueInvoice`. -/
def processOverdueInvoice : Prog Stmt Bool := do
  let invoice ← .stmt .findInvoice
  if invoice.status = .sent ∨ invoice.status = .viewed then
    let count ← .stmt (.updateMany false (.markOverdue invoice.status))
    pure (count = 1)
  else pure false

/-- The requests and jobs of a deployment; `sends` says whether drafts are sent. -/
inductive Deployed (config : StripeConfig) (sends : Prop) : Prog Stmt Unit → Prop
  | markPaid (input) : Deployed config sends ((markPaid input).bind fun _ => .ret ())
  | checkoutCompleted (event) :
      Deployed config sends ((recordCompletedCheckout event).bind fun _ => .ret ())
  | archiveInvoice : Deployed config sends (archiveInvoice.bind fun _ => .ret ())
  | undoVoid : Deployed config sends (undoVoid.bind fun _ => .ret ())
  | paymentLink : Deployed config sends
    ((paymentLink config).bind fun reply => .stmt (.reply reply))
  | processOverdueInvoice : Deployed config sends (processOverdueInvoice.bind fun _ => .ret ())
  | sendDraftInvoice (h : sends) :
      Deployed config sends ((sendDraftInvoice config).bind fun _ => .ret ())

/-! ### A sample invoice over 100, without Stripe -/

def sampleDraft : Invoice := .draft "inv-1" "INV-0001" "CAD" ⟨100, by norm_num⟩ "view-0"

def sampleStart : Store := .settled ⟨sampleDraft, [], []⟩ 0 []

def sampleOpen : Store := .settled ⟨{ sampleDraft with status := .sent }, [], []⟩ 0 []

def sampleChoice : Choice := ⟨0, "view-1", none, true, false⟩

def sampleConfig : StripeConfig := ⟨false, "https://app", fun _ => ""⟩

end Ashbi.Invoicing

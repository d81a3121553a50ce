import Ashbi.Invoicing.Money
import Ashbi.Js

/-! The invoice row, its payments, and the values that the services compute from them. -/

namespace Ashbi.Invoicing

inductive InvoiceStatus
  | draft | sent | viewed | overdue | paid | void
  deriving DecidableEq, Repr

/-- `UNPAID_INVOICE_STATUSES`, also the payable and settleable ones. -/
def InvoiceStatus.payable : InvoiceStatus → Bool
  | .sent | .viewed | .overdue => true
  | .draft | .paid | .void => false

/-- `VOIDABLE_STATUSES`. -/
def InvoiceStatus.voidable : InvoiceStatus → Bool
  | .draft | .sent | .viewed | .overdue => true
  | .paid | .void => false

theorem payable_not_paid {status : InvoiceStatus} (h : status.payable = true) :
    status ≠ .paid ∧ status ≠ .void ∧ status ≠ .draft := by
  cases status <;> simp_all [InvoiceStatus.payable]

theorem voidable_open {status : InvoiceStatus} (h : status.voidable = true) :
    status ≠ .paid ∧ status ≠ .void := by
  cases status <;> simp_all [InvoiceStatus.voidable]

/-- An invoice total; every creator rounds a sum that is at least zero. -/
abbrev Total := { q : ℚ // 0 ≤ q }

structure Invoice where
  id : String
  invoiceNumber : String
  status : InvoiceStatus
  currency : String
  total : Total
  notes : Option String
  viewToken : String
  paymentMethod : Option String
  paymentNotes : Option String
  transactionId : Option String
  sentAt : Option Time
  paidAt : Option Time
  voidedAt : Option Time
  voidedFromStatus : Option InvoiceStatus
  stripePaymentLink : Option String
  stripeCheckoutSessionId : Option String
  stripePaymentIntentId : Option String
  stripeCheckoutAmountMinor : Option ℤ
  stripeCheckoutCurrency : Option String
  stripeCheckoutExpiresAt : Option Time
  stripeCheckoutAttempt : ℕ
  deriving DecidableEq

/-- A new draft: no payments, no Checkout session. -/
def Invoice.draft (id invoiceNumber currency : String) (total : Total) (viewToken : String) :
    Invoice where
  id := id
  invoiceNumber := invoiceNumber
  status := .draft
  currency := currency
  total := total
  notes := none
  viewToken := viewToken
  paymentMethod := none
  paymentNotes := none
  transactionId := none
  sentAt := none
  paidAt := none
  voidedAt := none
  voidedFromStatus := none
  stripePaymentLink := none
  stripeCheckoutSessionId := none
  stripePaymentIntentId := none
  stripeCheckoutAmountMinor := none
  stripeCheckoutCurrency := none
  stripeCheckoutExpiresAt := none
  stripeCheckoutAttempt := 0

/-- `CLEARED_CHECKOUT_FIELDS`. -/
def Invoice.clearCheckout (r : Invoice) : Invoice :=
  { r with
    stripePaymentLink := none, stripeCheckoutSessionId := none, stripeCheckoutAmountMinor := none
    stripeCheckoutCurrency := none, stripeCheckoutExpiresAt := none }

/-! ### Payments and the `invoice.paid` event -/

structure Payment where
  id : ℕ
  amount : ℚ
  method : String
  transactionId : Option String
  notes : Option String
  paidAt : Time
  deriving DecidableEq

/-- The rows of the partial unique index on `transactionId`. -/
def Payment.stripeId (p : Payment) : Option String :=
  if p.method = "STRIPE" then p.transactionId else none

/-- An `invoice.paid` row of the outbox; its idempotency key is
`invoice.paid:<invoiceId>:<paymentId>`. -/
structure InvoicePaid where
  invoiceId : String
  paymentId : ℕ
  amount : ℚ
  method : String
  deriving DecidableEq

/-- `invoiceAmountPaid`. -/
def invoiceAmountPaid (payments : List Payment) : ℚ := roundMoney (payments.map (·.amount)).sum

/-! ### Checkout -/

/-- What Stripe answers to `checkout.sessions.create`. -/
structure Session where
  id : String
  url : String
  paymentIntent : Option String
  amountMinor : ℤ
  currency : String
  expiresAt : Option Time
  deriving DecidableEq

def checkoutAmountMinor (balanceDue : ℚ) : ℤ := round (balanceDue * 100)

def checkoutCurrency (r : Invoice) : String :=
  (if r.currency = "" then "CAD" else r.currency).toLower

/-- The request parameters that the key digests. -/
structure CheckoutParams where
  currency : String
  amountMinor : ℤ
  invoiceNumber : String
  description : String
  successUrl : String
  cancelUrl : String
  deriving DecidableEq

def checkoutParams (appUrl : String) (r : Invoice) (balanceDue : ℚ) : CheckoutParams where
  currency := checkoutCurrency r
  amountMinor := checkoutAmountMinor balanceDue
  invoiceNumber := r.invoiceNumber
  description := match r.notes with
    | some notes => if notes = "" then "Payment for invoice " ++ r.invoiceNumber else notes
    | none => "Payment for invoice " ++ r.invoiceNumber
  successUrl := appUrl ++ "/portal/invoice/" ++ r.viewToken ++ "?payment=success"
  cancelUrl := appUrl ++ "/portal/invoice/" ++ r.viewToken ++ "?payment=cancelled"

/-- The variable parts of `ashbi:invoice:<id>:checkout:<attempt>:<currency>:<amount>:<digest>`. -/
structure CheckoutKey where
  invoiceId : String
  attempt : ℕ
  currency : String
  amountMinor : ℤ
  digest : String
  deriving DecidableEq

/-- `digest` stands for the truncated SHA-256 of the parameters. -/
def checkoutIdempotencyKey (digest : CheckoutParams → String) (r : Invoice)
    (params : CheckoutParams) : CheckoutKey :=
  ⟨r.id, r.stripeCheckoutAttempt, params.currency, params.amountMinor, digest params⟩

def checkoutReuseMarginMs : ℤ := 5 * 60 * 1000

/-- The stored link, while it matches the invoice and is not about to expire. -/
def reusableCheckoutLink (r : Invoice) (balanceDue : ℚ) (now : Time) : Option String := do
  let link ← r.stripePaymentLink
  let _ ← r.stripeCheckoutSessionId
  guard (r.stripeCheckoutAmountMinor = some (checkoutAmountMinor balanceDue))
  guard ((r.stripeCheckoutCurrency.getD "").toLower = checkoutCurrency r)
  let expiresAt ← r.stripeCheckoutExpiresAt
  guard (checkoutReuseMarginMs < expiresAt - now)
  pure link

/-- `checkoutPersistenceData`: what is stored after a session was created. -/
structure CheckoutData where
  paymentLink : String
  checkoutSessionId : String
  paymentIntentId : Option String
  amountMinor : ℤ
  currency : String
  expiresAt : Option Time
  attempt : ℕ
  deriving DecidableEq

def checkoutPersistenceData (r : Invoice) (params : CheckoutParams) (session : Session) :
    CheckoutData where
  paymentLink := session.url
  checkoutSessionId := session.id
  paymentIntentId := session.paymentIntent
  amountMinor := params.amountMinor
  currency := params.currency
  expiresAt := session.expiresAt
  attempt := r.stripeCheckoutAttempt + 1

def Invoice.storeCheckout (r : Invoice) (data : CheckoutData) : Invoice :=
  { r with
    stripePaymentLink := some data.paymentLink
    stripeCheckoutSessionId := some data.checkoutSessionId
    stripePaymentIntentId := data.paymentIntentId
    stripeCheckoutAmountMinor := some data.amountMinor
    stripeCheckoutCurrency := some data.currency
    stripeCheckoutExpiresAt := data.expiresAt
    stripeCheckoutAttempt := data.attempt }

/-! ### Writes to the row -/

/-- `invoiceFields` of a manual or of a Stripe payment; both clear the Checkout fields. -/
inductive PaymentSource
  | manual (paymentNotes transactionId : Option String)
  | stripe (transactionId : String)

def PaymentSource.invoiceFields : PaymentSource → Invoice → Invoice
  | .manual paymentNotes transactionId, r => { r.clearCheckout with paymentNotes, transactionId }
  | .stripe transactionId, r => { r.clearCheckout with stripePaymentIntentId := some transactionId }

/-- The `updateMany`/`update` calls on the invoice row. -/
inductive Write
  /-- Takes the row lock; it writes `updatedAt` only. -/
  | claimPayable
  | payment (source : PaymentSource) (method : String) (paidAt : Time) (fullyPaid : Bool)
  | linkSession (sessionId : String)
  | void (voidedAt : Time) (voidedFromStatus : InvoiceStatus)
  /-- In a serializable transaction that read the row as `seen`. -/
  | undoVoid (seen : Invoice)
  | send (sentAt : Time) (viewToken : String)
  | finishSend (checkout : Option CheckoutData)
  | storeCheckout (attempt : ℕ) (data : CheckoutData)
  | markOverdue (status : InvoiceStatus)

/-- The `where` of the write. -/
def Write.filter : Write → Invoice → Bool
  | .claimPayable, r => r.status.payable
  | .payment _ _ _ _, _ => true
  | .linkSession _, _ => true
  | .void _ _, r => r.status.voidable
  | .undoVoid seen, r => r = seen
  | .send _ _, r => r.status = .draft
  | .finishSend _, _ => true
  | .storeCheckout attempt _, r => r.status.payable && r.stripeCheckoutAttempt = attempt
  | .markOverdue status, r => r.status = status

/-- The `data` of the write. -/
def Write.data : Write → Invoice → Invoice
  | .claimPayable, r => r
  | .payment source method paidAt fullyPaid, r =>
    let r := source.invoiceFields { r with paymentMethod := some method }
    let r := { r with stripeCheckoutAttempt := r.stripeCheckoutAttempt + 1 }
    if fullyPaid then { r with status := .paid, paidAt := some paidAt } else r
  | .linkSession sessionId, r => { r with stripeCheckoutSessionId := some sessionId }
  | .void voidedAt voidedFromStatus, r =>
    { r.clearCheckout with
      status := .void, voidedAt := some voidedAt, voidedFromStatus := some voidedFromStatus }
  | .undoVoid seen, r =>
    { r with
      status := seen.voidedFromStatus.getD seen.status, voidedAt := none, voidedFromStatus := none }
  | .send sentAt viewToken, r => { r with status := .sent, sentAt := some sentAt, viewToken }
  | .finishSend checkout, r => match checkout with
    | some data => r.storeCheckout data
    | none => r
  | .storeCheckout _ data, r => r.storeCheckout data
  | .markOverdue _, r => { r with status := .overdue }

/-- `VOID_UNDO_WINDOW_MS`. -/
def voidUndoWindowMs : ℤ := 10000

/-- The two refusals of `undo-void`: nothing to undo, or too late. -/
inductive UndoRefusal
  | alreadyUndone | windowExpired
  deriving DecidableEq

def undoVoidCheck (r : Invoice) (now : Time) : Except UndoRefusal Unit :=
  if r.status ≠ .void ∨ ¬ r.voidedFromStatus.any (·.voidable) then .error .alreadyUndone
  else match r.voidedAt with
    | none => .error .windowExpired
    | some voidedAt => if voidUndoWindowMs < now - voidedAt then .error .windowExpired else .ok ()

theorem undoVoidCheck_ok {r : Invoice} {now : Time} (h : undoVoidCheck r now = .ok ()) :
    r.status = .void ∧ ∃ status, r.voidedFromStatus = some status ∧ status.voidable = true ∧
      ∃ voidedAt, r.voidedAt = some voidedAt ∧ now - voidedAt ≤ voidUndoWindowMs := by
  unfold undoVoidCheck at h
  split at h
  · cases h
  rename_i hc
  simp only [not_or, Decidable.not_not] at hc
  obtain ⟨hst, hv⟩ := hc
  split at h
  · cases h
  rename_i voidedAt hat
  split at h
  · cases h
  rename_i hw
  cases hfrom : r.voidedFromStatus with
  | none => simp [hfrom] at hv
  | some status =>
    exact ⟨hst, status, rfl, by simpa [hfrom] using hv, voidedAt, hat, not_lt.mp hw⟩

end Ashbi.Invoicing

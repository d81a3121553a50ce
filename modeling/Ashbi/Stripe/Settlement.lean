import Ashbi.Checked
import Ashbi.Keyed.Rows
import Ashbi.Numeric.Rounding

/-! What the payment provider says of an invoice that was sent: its payments, refunds and credit
notes, and the totals that are kept of them. -/

namespace Ashbi.Stripe

open Checked Keyed

inductive Fault
  | mismatch
  | readLimit
  | notFound
  | unavailable
  /-- A field of an undefined value was read. -/
  | crash
  deriving DecidableEq

/-- The largest amount: `Number.MAX_SAFE_INTEGER`. -/
def maxSafe : ℤ := 9007199254740991

def readLimit : ℕ := 100

/-- What is added and subtracted by `+` and `-`, which round what is too large. -/
abbrev Amounts := Rounding 9007199254740992

def money (v : ℤ) : Bool := 0 ≤ v && v ≤ maxSafe

def isWord (c : Char) : Bool := c.isAlphanum || c = '_'

/-- `^p_[a-zA-Z0-9_]{1,100}$`. -/
def ext (v p : String) : Bool :=
  let start := p.toList ++ ['_']
  let rest := v.toList.drop start.length
  v.toList.take start.length = start && rest.all isWord && 1 ≤ rest.length && rest.length ≤ 100

/-- `^[a-zA-Z0-9_]{1,128}$`. -/
def opaqueId (v : String) : Bool :=
  v.toList.all isWord && 1 ≤ v.toList.length && v.toList.length ≤ 128

def mismatch (wrong : Bool) : Except Fault Unit := refuse wrong .mismatch

/-! ### What is stored of an invoice -/

structure Operation where
  id : String
  invoiceId : String
  stripeInvoiceId : String
  customerId : String

structure Plan where
  title : String
  currency : String
  fingerprint : String
  dueAt : ℤ
  totalMinor : ℤ

/-! ### What the provider answers -/

inductive InvoiceStatus
  | draft
  | open
  | paid
  | void
  | uncollectible
  | other
  deriving DecidableEq

structure Transitions where
  finalizedAt : Option ℤ
  markedUncollectibleAt : Option ℤ
  paidAt : Option ℤ
  voidedAt : Option ℤ

/-- An invoice, whose amounts are whole numbers. -/
structure Invoice where
  id : String
  object : String
  livemode : Option Bool
  customer : String
  currency : String
  description : String
  ashbiInvoice : Option String
  ashbiOperation : Option String
  ashbiPlan : Option String
  dueDate : Option ℤ
  collectionMethod : String
  autoAdvance : Option Bool
  onBehalfOf : Option String
  issuerType : Option String
  amountShipping : ℤ
  automaticTaxEnabled : Option Bool
  discounts : Option (List String)
  defaultTaxRates : Option (List String)
  status : InvoiceStatus
  startingBalance : ℤ
  amountDue : ℤ
  amountPaid : ℤ
  amountRemaining : ℤ
  amountOverpaid : ℤ
  prePaymentCreditNotesAmount : ℤ
  postPaymentCreditNotesAmount : ℤ
  statusTransitions : Option Transitions

inductive PaymentType
  | paymentIntent
  | charge
  | paymentRecord
  deriving DecidableEq

/-- The `object` of what a payment refers to. -/
def PaymentType.name : PaymentType → String
  | .paymentIntent => "payment_intent"
  | .charge => "charge"
  | .paymentRecord => "payment_record"

inductive PaymentStatus
  | paid
  | open
  | canceled
  | other
  deriving DecidableEq

/-- The `payment` of a row, with no type where it is none of the three. -/
structure Source where
  type : Option PaymentType
  paymentIntent : Option String
  charge : Option String
  paymentRecord : Option String
  deriving DecidableEq

/-- `payment[payment.type]`. -/
def Source.reference (source : Source) : Option String :=
  match source.type with
  | some .paymentIntent => source.paymentIntent
  | some .charge => source.charge
  | some .paymentRecord => source.paymentRecord
  | none => none

structure PaymentRow where
  id : String
  object : String
  invoice : String
  currency : String
  livemode : Option Bool
  status : PaymentStatus
  amountRequested : ℤ
  /-- Nothing for `null`. -/
  amountPaid : Option ℤ
  payment : Option Source
  deriving DecidableEq

/-- A payment intent or a charge. -/
structure Remote where
  id : String
  object : String
  livemode : Option Bool
  customer : String
  currency : String
  amountReceived : ℤ
  amount : ℤ
  deriving DecidableEq

inductive RefundStatus
  | succeeded
  | pending
  | requiresAction
  | failed
  | canceled
  | other
  deriving DecidableEq

structure RefundRow where
  id : String
  object : String
  currency : String
  livemode : Option Bool
  amount : ℤ
  status : RefundStatus
  paymentIntent : Option String
  charge : Option String
  customer : Option String
  deriving DecidableEq

inductive AllocationType
  | refund
  | paymentRecordRefund
  | other
  deriving DecidableEq

structure RecordRefund where
  paymentRecord : String
  refundGroup : String
  deriving DecidableEq

/-- An amount of a credit note that a refund gave back. -/
structure Allocation where
  amountRefunded : ℤ
  type : Option AllocationType
  refund : String
  paymentRecordRefund : Option RecordRefund
  deriving DecidableEq

inductive NoteStatus
  | issued
  | void
  | other
  deriving DecidableEq

structure CreditNote where
  id : String
  object : String
  invoice : String
  customer : String
  currency : String
  livemode : Option Bool
  status : NoteStatus
  amount : ℤ
  prePaymentAmount : ℤ
  postPaymentAmount : ℤ
  refunds : List Allocation
  outOfBandAmount : Option ℤ
  customerBalanceTransaction : String
  deriving DecidableEq

structure BalanceTransaction where
  id : String
  object : String
  customer : String
  currency : String
  type : String
  creditNote : String
  amount : ℤ
  deriving DecidableEq

/-- What the provider answers to each read about an invoice, the rows of a list in the order of its
pages. -/
structure Provider where
  payments : List PaymentRow
  paymentIntent : String → Except Fault Remote
  charge : String → Except Fault Remote
  /-- The refunds of a payment intent or of a charge. -/
  refundsOf : PaymentType → String → List RefundRow
  /-- The payments of any invoice from a payment intent. -/
  related : String → List PaymentRow
  creditNotes : List CreditNote
  refund : String → Except Fault RefundRow
  balanceTransaction : String → Except Fault BalanceTransaction

/-! ### Reads -/

def get {α : Type} (answer : Except Fault α) : Reading Fault α := read readLimit .readLimit answer

/-- The pages of a list, a hundred rows each; of nothing, one that is empty. -/
def pages {α : Type} (rows : List α) : List (List α) :=
  (List.range ((rows.length - 1) / 100 + 1)).map fun i => (rows.drop (100 * i)).take 100

def addRow {α : Type} (p : String) (idOf : α → String) (result : List α) (row : α) :
    Except Fault (List α) := do
  mismatch (!ext (idOf row) p || (result.map idOf).contains (idOf row))
  refuse (1000 < result.length + 1) .readLimit
  pure (result ++ [row])

def list {α : Type} (p : String) (idOf : α → String) (rows : List α) : Reading Fault (List α) :=
  (pages rows).foldlM (fun result page => do
    let data ← get (.ok page)
    liftM (data.foldlM (addRow p idOf) result)) []

/-! ### The invoice -/

/-- Fails unless the invoice is the one that was created from the plan. -/
def invoiceIdentity (r : Amounts) (value : Invoice) (op : Operation) (plan : Plan) :
    Except Fault Unit := do
  mismatch (value.id ≠ op.stripeInvoiceId || value.object ≠ "invoice" ||
    value.livemode ≠ some false || value.customer ≠ op.customerId ||
    value.currency ≠ plan.currency.toLower || value.description ≠ plan.title ||
    value.ashbiInvoice ≠ some op.invoiceId || value.ashbiOperation ≠ some op.id ||
    value.ashbiPlan ≠ some plan.fingerprint || value.dueDate ≠ some plan.dueAt ||
    value.collectionMethod ≠ "send_invoice" || value.autoAdvance.isNone ||
    value.onBehalfOf.isSome || value.issuerType.any (· ≠ "self") || value.amountShipping ≠ 0 ||
    value.automaticTaxEnabled ≠ some false || value.discounts ≠ some [] ||
    value.defaultTaxRates ≠ some [])
  mismatch (value.status = .other ||
    !(-maxSafe ≤ value.startingBalance && value.startingBalance ≤ maxSafe))
  mismatch (!([value.amountDue, value.amountPaid, value.amountRemaining, value.amountOverpaid,
    value.prePaymentCreditNotesAmount, value.postPaymentCreditNotesAmount].all money))
  mismatch (plan.totalMinor <
      r.plus value.prePaymentCreditNotesAmount value.postPaymentCreditNotesAmount ||
    value.amountDue < value.amountRemaining ||
    value.status = .paid && value.amountRemaining ≠ 0 ||
    value.status = .void && value.amountRemaining ≠ 0)
  let transitions ← found value.statusTransitions .mismatch
  mismatch ([transitions.finalizedAt, transitions.markedUncollectibleAt, transitions.paidAt,
      transitions.voidedAt].any (fun v => v.any fun at' => !money at') ||
    value.status ≠ .draft && !transitions.finalizedAt.any money)

/-! ### Payments -/

/-- A sum of amounts, in whole numbers of any size. -/
def checkedSum (values : List ℤ) : Except Fault ℤ := do
  let total ← values.foldlM (fun total value => do
    mismatch (!money value)
    pure (total + value)) 0
  mismatch (maxSafe < total)
  pure total

structure Payment where
  id : String
  status : PaymentStatus
  amountMinor : ℤ
  requestedMinor : ℤ
  type : PaymentType
  reference : String
  deriving DecidableEq

def wrongPayment (op : Operation) (currency : String) (row : PaymentRow) : Bool :=
  row.object ≠ "invoice_payment" || row.invoice ≠ op.stripeInvoiceId ||
    row.currency ≠ currency || row.livemode ≠ some false || row.status = .other ||
    !money row.amountRequested || row.status = .paid && !row.amountPaid.any money ||
    row.status ≠ .paid && row.amountPaid ≠ none && row.amountPaid ≠ some 0

def wrongReference (type : PaymentType) (reference : String) : Bool :=
  !opaqueId reference || type = .paymentIntent && !ext reference "pi" ||
    type = .charge && !ext reference "ch"

def paymentRow (op : Operation) (currency : String) (row : PaymentRow) : Except Fault Payment := do
  mismatch (wrongPayment op currency row)
  let type ← found (row.payment.bind Source.type) .mismatch
  let reference ← found (row.payment.bind Source.reference) .mismatch
  mismatch (wrongReference type reference)
  pure { id := row.id, status := row.status,
         amountMinor := if row.status = .paid then row.amountPaid.getD 0 else 0,
         requestedMinor := row.amountRequested, type, reference }

structure Refund where
  id : String
  amountMinor : ℤ
  status : RefundStatus
  deriving DecidableEq

def RefundRow.image (row : RefundRow) : Refund :=
  { id := row.id, amountMinor := row.amount, status := row.status }

def wrongRefund (op : Operation) (currency : String) (type : PaymentType) (ref : Option String)
    (row : RefundRow) : Bool :=
  row.object ≠ "refund" || !ext row.id "re" || row.currency ≠ currency ||
    row.livemode.any (· ≠ false) || !money row.amount || row.status = .other ||
    type = .paymentIntent && row.paymentIntent ≠ ref || type = .charge && row.charge ≠ ref ||
    row.customer.any (· ≠ op.customerId)

/-- `refund`: keeps a refund that belongs to a payment of the invoice. -/
def addRefund (op : Operation) (currency : String) (type : PaymentType) (ref : Option String)
    (refunds : List Refund) (row : RefundRow) : Except Fault (List Refund) := do
  mismatch (wrongRefund op currency type ref row)
  mismatch ((find Refund.id refunds row.id).any (· ≠ row.image))
  pure (put Refund.id refunds row.image)

/-- The maps that the loop over the payments fills. -/
structure Books where
  references : List (String × PaymentType)
  refunds : List Refund
  allocationComplete : Bool

def wrongRemote (op : Operation) (currency : String) (type : PaymentType) (reference : String)
    (remote : Remote) : Bool :=
  remote.id ≠ reference || remote.object ≠ type.name || remote.livemode ≠ some false ||
    remote.customer ≠ op.customerId || remote.currency ≠ currency

def received (type : PaymentType) (remote : Remote) : ℤ :=
  if type = .paymentIntent then remote.amountReceived else remote.amount

/-- The amounts of all payments with a reference. -/
def amountsAt (payments : List Payment) (reference : String) : List ℤ :=
  (payments.filter (·.reference = reference)).map (·.amountMinor)

def succeededAmounts (rows : List RefundRow) : List ℤ :=
  (rows.filter (·.status = .succeeded)).map (·.amount)

def wrongRelated (currency reference : String) (row : PaymentRow) : Bool :=
  row.object ≠ "invoice_payment" || row.livemode ≠ some false || row.currency ≠ currency ||
    (row.payment.bind Source.type) ≠ some .paymentIntent ||
    (row.payment.bind Source.paymentIntent) ≠ some reference

/-- A payment of another invoice. -/
def elsewhere (op : Operation) (row : PaymentRow) : Bool :=
  row.invoice ≠ op.stripeInvoiceId && row.status = .paid && row.amountPaid.any (0 < ·)

/-- Whether the refunds of a reference can all be of this invoice. -/
def readRelated (provider : Provider) (op : Operation) (currency : String) (type : PaymentType)
    (reference : String) (rows : List RefundRow) (complete : Bool) : Reading Fault Bool :=
  if rows = [] then pure complete
  else if type = .paymentIntent then do
    let related ← list "inpay" PaymentRow.id (provider.related reference)
    mismatch (related.isEmpty || related.any (wrongRelated currency reference))
    pure (complete && !related.any (elsewhere op))
  else pure false

/-- What is read of the reference of a paid payment, once. -/
def readReference (provider : Provider) (op : Operation) (currency : String)
    (payments : List Payment) (books : Books) (p : Payment) : Reading Fault Books :=
  if p.status ≠ .paid ∨ (find Prod.fst books.references p.reference).isSome then pure books
  else
    let references := put Prod.fst books.references (p.reference, p.type)
    if p.type = .paymentRecord then pure { books with references }
    else do
      let remote ← get (if p.type = .paymentIntent then provider.paymentIntent p.reference
        else provider.charge p.reference)
      mismatch (wrongRemote op currency p.type p.reference remote)
      mismatch (!money (received p.type remote))
      let paid ← checkedSum (amountsAt payments p.reference)
      mismatch (received p.type remote < paid)
      let rows ← list "re" RefundRow.id (provider.refundsOf p.type p.reference)
      let refunds ← liftM (rows.foldlM (addRefund op currency p.type (some p.reference))
        books.refunds)
      let refunded ← checkedSum (succeededAmounts rows)
      mismatch (received p.type remote < refunded)
      let allocationComplete ← readRelated provider op currency p.type p.reference rows
        books.allocationComplete
      pure { references, refunds, allocationComplete }

/-! ### Credit notes -/

structure Credit where
  id : String
  status : NoteStatus
  amountMinor : ℤ
  preMinor : ℤ
  postMinor : ℤ
  refundAllocatedMinor : ℤ
  reportedExternalRefundMinor : ℤ
  outOfBandMinor : ℤ
  balanceCreditMinor : ℤ
  deriving DecidableEq

/-- What the loop over the allocations of a note changes: the maps, and two sums of the note. -/
structure Allocated where
  refunds : List Refund
  allocations : List (String × ℤ)
  refundAllocatedMinor : ℤ
  reportedExternalRefundMinor : ℤ

/-- `references.get(ref)`. -/
def typeIn (references : List (String × PaymentType)) (ref : Option String) : Option PaymentType :=
  (ref.bind fun ref => find Prod.fst references ref).map Prod.snd

/-- The refund of an allocation, which is read where no payment has listed it. -/
def findRefund (provider : Provider) (op : Operation) (currency : String)
    (references : List (String × PaymentType)) (refunds : List Refund) (id : String) :
    Reading Fault (List Refund) :=
  if (find Refund.id refunds id).isSome then pure refunds
  else do
    let remote ← get (provider.refund id)
    let type ← found ((typeIn references remote.paymentIntent).or
      (typeIn references remote.charge)) Fault.mismatch
    mismatch (type = .paymentRecord)
    let ref := if type = .paymentIntent then remote.paymentIntent else remote.charge
    addRefund op currency type ref refunds remote

def wrongRecordRefund (allocation : Allocation) : Bool :=
  !allocation.paymentRecordRefund.any fun external =>
    opaqueId external.paymentRecord && opaqueId external.refundGroup

def allocate (r : Amounts) (provider : Provider) (op : Operation) (currency : String)
    (references : List (String × PaymentType)) (s : Allocated) (allocation : Allocation) :
    Reading Fault Allocated := do
  mismatch (!money allocation.amountRefunded)
  if allocation.type = some .paymentRecordRefund then do
    mismatch (wrongRecordRefund allocation)
    pure { s with reportedExternalRefundMinor :=
             r.plus s.reportedExternalRefundMinor allocation.amountRefunded }
  else do
    mismatch (allocation.type = some .other || !ext allocation.refund "re")
    let refunds ← findRefund provider op currency references s.refunds allocation.refund
    let refund ← found (find Refund.id refunds allocation.refund) Fault.crash
    let before := ((find Prod.fst s.allocations refund.id).map Prod.snd).getD 0
    let total := r.plus before allocation.amountRefunded
    mismatch (refund.amountMinor < total)
    pure { refunds, allocations := put Prod.fst s.allocations (refund.id, total),
           refundAllocatedMinor := r.plus s.refundAllocatedMinor allocation.amountRefunded,
           reportedExternalRefundMinor := s.reportedExternalRefundMinor }

/-- The maps that the loop over the credit notes fills. -/
structure Credits where
  refunds : List Refund
  allocations : List (String × ℤ)
  credits : List Credit

def wrongBalance (op : Operation) (currency : String) (note : CreditNote) (balanceCreditMinor : ℤ)
    (balance : BalanceTransaction) : Bool :=
  balance.id ≠ note.customerBalanceTransaction ||
    balance.object ≠ "customer_balance_transaction" || balance.customer ≠ op.customerId ||
    balance.currency ≠ currency || balance.type ≠ "credit_note" ||
    balance.creditNote ≠ note.id || balance.amount ≠ -balanceCreditMinor

/-- A balance credit is in a transaction of the customer's balance. -/
def checkBalance (provider : Provider) (op : Operation) (currency : String) (note : CreditNote)
    (balanceCreditMinor : ℤ) : Reading Fault Unit :=
  if balanceCreditMinor = 0 then pure ()
  else do
    mismatch (!ext note.customerBalanceTransaction "cbtxn")
    let balance ← get (provider.balanceTransaction note.customerBalanceTransaction)
    mismatch (wrongBalance op currency note balanceCreditMinor balance)

def wrongNote (op : Operation) (currency : String) (note : CreditNote) : Bool :=
  note.object ≠ "credit_note" || note.invoice ≠ op.stripeInvoiceId ||
    note.customer ≠ op.customerId || note.currency ≠ currency || note.livemode ≠ some false ||
    note.status = .other || !money note.amount || !money note.prePaymentAmount ||
    !money note.postPaymentAmount

def addCredit (r : Amounts) (provider : Provider) (op : Operation) (currency : String)
    (references : List (String × PaymentType)) (s : Credits) (note : CreditNote) :
    Reading Fault Credits := do
  mismatch (wrongNote op currency note ||
    note.amount ≠ r.plus note.prePaymentAmount note.postPaymentAmount ||
    1000 < note.refunds.length)
  let row : Credit :=
    { id := note.id, status := note.status, amountMinor := note.amount,
      preMinor := note.prePaymentAmount, postMinor := note.postPaymentAmount,
      refundAllocatedMinor := 0, reportedExternalRefundMinor := 0,
      outOfBandMinor := note.outOfBandAmount.getD 0, balanceCreditMinor := 0 }
  mismatch (!money row.outOfBandMinor)
  if note.status = .issued then do
    let t ← note.refunds.foldlM (allocate r provider op currency references)
      { refunds := s.refunds, allocations := s.allocations, refundAllocatedMinor := 0,
        reportedExternalRefundMinor := 0 }
    let balanceCreditMinor := r.minus (r.minus (r.minus row.postMinor t.refundAllocatedMinor)
      t.reportedExternalRefundMinor) row.outOfBandMinor
    mismatch (!money balanceCreditMinor)
    checkBalance provider op currency note balanceCreditMinor
    pure { refunds := t.refunds, allocations := t.allocations,
           credits := s.credits ++ [{ row with
             refundAllocatedMinor := t.refundAllocatedMinor,
             reportedExternalRefundMinor := t.reportedExternalRefundMinor, balanceCreditMinor }] }
  else pure { s with credits := s.credits ++ [row] }

/-! ### Totals -/

structure Totals where
  recordedPaymentMinor : ℤ
  unallocatedPaidMinor : ℤ
  preCreditMinor : ℤ
  postCreditMinor : ℤ
  balanceCreditMinor : ℤ
  outOfBandCreditMinor : ℤ
  creditRefundAllocatedMinor : ℤ
  reportedExternalRefundMinor : ℤ
  refundAllocationComplete : Bool
  refundedMinor : Option ℤ
  pendingRefundMinor : Option ℤ
  failedRefundMinor : Option ℤ
  canceledRefundMinor : Option ℤ
  deriving DecidableEq

structure Settlement extends Totals where
  payments : List Payment
  credits : List Credit
  refunds : List Refund
  deriving DecidableEq

/-- The sum of the refunds of some statuses, where no refund may belong to another invoice. -/
def sumStatus (allocationComplete : Bool) (refunds : List Refund) (statuses : List RefundStatus) :
    Except Fault (Option ℤ) :=
  if allocationComplete then do
    let sum ← checkedSum
      ((refunds.filter fun refund => statuses.contains refund.status).map (·.amountMinor))
    pure (some sum)
  else pure none

/-- The totals of the image, from what the loops have left. -/
def totals (r : Amounts) (value : Invoice) (recorded : ℤ) (complete : Bool)
    (credits : List Credit) (refunds : List Refund) : Except Fault Totals := do
  let issued := credits.filter (·.status = .issued)
  let pre ← checkedSum (issued.map (·.preMinor))
  let post ← checkedSum (issued.map (·.postMinor))
  mismatch (pre ≠ value.prePaymentCreditNotesAmount || post ≠ value.postPaymentCreditNotesAmount)
  let balance ← checkedSum (issued.map (·.balanceCreditMinor))
  let outOfBand ← checkedSum (issued.map (·.outOfBandMinor))
  let refundAllocated ← checkedSum (issued.map (·.refundAllocatedMinor))
  let reportedExternal ← checkedSum (issued.map (·.reportedExternalRefundMinor))
  let refunded ← sumStatus complete refunds [.succeeded]
  let pending ← sumStatus complete refunds [.pending, .requiresAction]
  let failed ← sumStatus complete refunds [.failed]
  let canceled ← sumStatus complete refunds [.canceled]
  pure { recordedPaymentMinor := recorded,
         unallocatedPaidMinor := r.minus value.amountPaid recorded,
         preCreditMinor := pre, postCreditMinor := post, balanceCreditMinor := balance,
         outOfBandCreditMinor := outOfBand, creditRefundAllocatedMinor := refundAllocated,
         reportedExternalRefundMinor := reportedExternal, refundAllocationComplete := complete,
         refundedMinor := refunded, pendingRefundMinor := pending, failedRefundMinor := failed,
         canceledRefundMinor := canceled }

def settlement (r : Amounts) (provider : Provider) (value : Invoice) (op : Operation)
    (plan : Plan) : Reading Fault Settlement := do
  let currency := plan.currency.toLower
  let rawPayments ← list "inpay" PaymentRow.id provider.payments
  let payments ← liftM (rawPayments.mapM (paymentRow op currency))
  let recorded ← checkedSum (payments.map (·.amountMinor))
  mismatch (value.amountPaid < recorded)
  let books ← payments.foldlM (readReference provider op currency payments)
    { references := [], refunds := [], allocationComplete := true }
  let notes ← list "cn" CreditNote.id provider.creditNotes
  let s ← notes.foldlM (addCredit r provider op currency books.references)
    { refunds := books.refunds, allocations := [], credits := [] }
  let sums ← totals r value recorded books.allocationComplete s.credits s.refunds
  pure { sums with payments, credits := s.credits, refunds := s.refunds }

end Ashbi.Stripe

import Ashbi.Interleaving.Program
import Ashbi.Invoicing.Row

/-! The statements of the invoice programs on one invoice, each one atomic step. -/

namespace Ashbi.Invoicing

/-- What a transaction on the invoice sees and writes. -/
structure Ledger where
  invoice : Invoice
  payments : List Payment
  outbox : List InvoicePaid

/-- The committed rows, the rows of the transaction that holds the row lock of
the invoice, and the sessions that Stripe has created by idempotency key. -/
structure Store where
  committed : Ledger
  locked : Option (ℕ × Ledger)
  nextPaymentId : ℕ
  sessions : List (CheckoutKey × Session)

/-- A store without open transactions. -/
def Store.settled (ledger : Ledger) (nextPaymentId : ℕ) (sessions : List (CheckoutKey × Session)) :
    Store := ⟨ledger, none, nextPaymentId, sessions⟩

/-- Which transaction commits; a void is given the invoice that its request read. -/
inductive Operation
  | recordManualPayment
  | recordCompletedCheckout
  | voidInvoice (invoice : Invoice)
  | undoVoid
  deriving DecidableEq

structure NewPayment where
  amount : ℚ
  method : String
  transactionId : Option String
  notes : Option String
  paidAt : Time

inductive LinkError
  | notConfigured | stripeFailed
  deriving DecidableEq

inductive CheckoutReply
  | notPayable
  | failed (error : LinkError)
  | link (paymentLink : String) (reused : Bool)
  deriving DecidableEq

inductive Stmt : Type → Type
  | now : Stmt Time
  | newToken : Stmt String
  | findInvoice : Stmt Invoice
  | invoiceAmountPaid : Stmt ℚ
  /-- Whether a Stripe payment of this invoice has the transaction id. -/
  | findStripePayment (transactionId : String) : Stmt Bool
  /-- `tx` is `true` inside a transaction; otherwise the write commits by itself. -/
  | updateMany (tx : Bool) (write : Write) : Stmt ℕ
  | createPayment (data : NewPayment) : Stmt (Option Payment)
  | recordInvoicePaid (payment : Payment) : Stmt Bool
  | commit (op : Operation) : Stmt Unit
  | rollback : Stmt Unit
  | createSession (key : CheckoutKey) (params : CheckoutParams) : Stmt (Option Session)
  | expireSession (sessionId : String) : Stmt Bool
  | deliverInvoiceEmail : Stmt Bool
  | reply (reply : CheckoutReply) : Stmt Unit

/-- What the environment decides: clock, random tokens, answers of Stripe and of
the mail provider, and refusals by rows that are not modelled here. -/
structure Choice where
  time : Time
  token : String
  session : Option Session
  accepted : Bool
  /-- Another invoice's Stripe payment has the id, or a serializable write conflicts. -/
  conflict : Bool

variable {β : Type}

/-- Reads see committed rows, and a transaction its own writes. -/
def Store.view (s : Store) (i : ℕ) : Ledger :=
  match s.locked with
  | some (j, ledger) => if j = i then ledger else s.committed
  | none => s.committed

def Store.heldBy (s : Store) (i : ℕ) : Bool := s.locked.any (·.1 = i)

/-- A matching write waits for the row lock of another transaction. -/
def enabled (i : ℕ) (st : Stmt β) (s : Store) : Bool :=
  match st with
  | .updateMany _ write =>
    s.locked.isNone || s.heldBy i || !write.filter s.committed.invoice
  | .createPayment _ => s.locked.isNone || s.heldBy i
  | .recordInvoicePaid _ => s.locked.isNone || s.heldBy i
  | _ => true

/-- Writes rows inside the transaction of thread `i`, or commits them at once. -/
def Store.write (s : Store) (i : ℕ) (tx : Bool) (ledger : Ledger) : Store :=
  if tx then { s with locked := some (i, ledger) } else { s with committed := ledger }

def Store.updateMany (s : Store) (i : ℕ) (tx : Bool) (write : Write) (conflict : Bool) :
    ℕ × Store :=
  let ledger := s.view i
  let refused := match write with
    | .undoVoid _ => conflict
    | _ => false
  if write.filter ledger.invoice && !refused then
    (1, s.write i tx { ledger with invoice := write.data ledger.invoice })
  else (0, s)

/-- The partial unique index on Stripe transaction ids. -/
def NewPayment.clashes (d : NewPayment) (payments : List Payment) : Bool :=
  d.method = "STRIPE" && d.transactionId.any fun t => payments.any (·.stripeId = some t)

def Store.createPayment (s : Store) (i : ℕ) (d : NewPayment) (takenElsewhere : Bool) :
    Option Payment × Store :=
  let ledger := s.view i
  if d.clashes ledger.payments || (d.method = "STRIPE" && takenElsewhere) then (none, s)
  else
    let payment : Payment := ⟨s.nextPaymentId, d.amount, d.method, d.transactionId,
      d.notes, d.paidAt⟩
    (some payment, { s.write i true { ledger with payments := ledger.payments ++ [payment] } with
      nextPaymentId := s.nextPaymentId + 1 })

/-- An event of the same idempotency key is returned, not repeated. -/
def Ledger.recordInvoicePaid (l : Ledger) (payment : Payment) : Ledger :=
  if l.outbox.any (·.paymentId = payment.id) then l
  else { l with outbox := l.outbox ++ [⟨l.invoice.id, payment.id, payment.amount, payment.method⟩] }

def Store.commit (s : Store) (i : ℕ) : Store :=
  match s.locked with
  | some (j, ledger) => if j = i then { s with committed := ledger, locked := none } else s
  | none => s

def Store.rollback (s : Store) (i : ℕ) : Store :=
  if s.heldBy i then { s with locked := none } else s

/-- Stripe returns the same session for the same key and a new one otherwise. -/
def Store.createSession (s : Store) (key : CheckoutKey) (params : CheckoutParams)
    (answer : Option Session) : Option Session × Store :=
  match s.sessions.lookup key, answer with
  | some session, _ => (some session, s)
  | none, none => (none, s)
  | none, some session =>
    if s.sessions.any (·.2.id = session.id) then (none, s)
    else
      let session := { session with amountMinor := params.amountMinor, currency := params.currency }
      (some session, { s with sessions := s.sessions ++ [(key, session)] })

def exec (i : ℕ) (st : Stmt β) (ch : Choice) (s : Store) : β × Store :=
  match st with
  | .now => (ch.time, s)
  | .newToken => (ch.token, s)
  | .findInvoice => ((s.view i).invoice, s)
  | .invoiceAmountPaid => (invoiceAmountPaid (s.view i).payments, s)
  | .findStripePayment transactionId =>
    ((s.view i).payments.any (·.stripeId = some transactionId), s)
  | .updateMany tx write => s.updateMany i tx write ch.conflict
  | .createPayment d => s.createPayment i d ch.conflict
  | .recordInvoicePaid payment =>
    if ch.accepted then (true, s.write i true ((s.view i).recordInvoicePaid payment))
    else (false, s)
  | .commit _ => ((), s.commit i)
  | .rollback => ((), s.rollback i)
  | .createSession key params => s.createSession key params ch.session
  | .expireSession _ => (ch.accepted, s)
  | .deliverInvoiceEmail => (ch.accepted, s)
  | .reply _ => ((), s)

abbrev machine : Interleaving.Machine where
  Stmt := Stmt
  Choice := Choice
  State := Store
  enabled := enabled
  exec := exec

/-! ### Under the row lock -/

variable {i : ℕ} {s u : Store} {c l : Ledger}

/-- Thread `i` holds the row lock with its version `l`; `c` is still committed. -/
structure Pending (i : ℕ) (c : Ledger) (u : Store) (l : Ledger) : Prop where
  locked : u.locked = some (i, l)
  committed : u.committed = c

@[simp] theorem Pending.view (h : Pending i c u l) : u.view i = l := by
  simp [Store.view, h.locked]

theorem view_free (h : s.locked = none) : s.view i = s.committed := by
  simp [Store.view, h]

theorem Pending.commit (h : Pending i c u l) :
    u.commit i = { u with committed := l, locked := none } := by
  simp [Store.commit, h.locked]

theorem committed_commit (h : s.locked = some (i, l)) : (s.commit i).committed = l := by
  simp [Store.commit, h]

theorem Pending.rollback (h : Pending i c u l) : u.rollback i = { u with locked := none } := by
  simp [Store.rollback, Store.heldBy, h.locked]

/-- A write matches nothing, or changes the row that the thread sees. -/
theorem updateMany_cases (s : Store) (i : ℕ) (tx : Bool) (w : Write) (conflict : Bool) :
    s.updateMany i tx w conflict = (0, s) ∨ w.filter (s.view i).invoice = true ∧
      s.updateMany i tx w conflict =
        (1, s.write i tx { s.view i with invoice := w.data (s.view i).invoice }) := by
  unfold Store.updateMany
  extract_lets ledger refused
  split
  · rename_i h
    rw [Bool.and_eq_true] at h
    exact .inr ⟨h.1, rfl⟩
  · exact .inl rfl

/-- A matching write of the transaction that holds the lock. -/
theorem Pending.updateMany {w : Write} (ch : Choice) (h : Pending i c u l)
    (hf : w.filter l.invoice = true) (hw : ∀ seen, w ≠ .undoVoid seen) :
    ∃ v, exec i (.updateMany true w) ch u = (1, v) ∧
      Pending i c v { l with invoice := w.data l.invoice } := by
  refine ⟨{ u with locked := some (i, { l with invoice := w.data l.invoice }) }, ?_, rfl,
    h.committed⟩
  simp only [exec, Store.updateMany, h.view, hf, Store.write, ↓reduceIte]
  cases w with
  | undoVoid seen => exact absurd rfl (hw seen)
  | _ => rfl

theorem createPayment_fresh {d : NewPayment} {payments : List Payment} {n : ℕ}
    (h : d.clashes payments = false) :
    ∀ t, (⟨n, d.amount, d.method, d.transactionId, d.notes, d.paidAt⟩ : Payment).stripeId = some t →
      ∀ q ∈ payments, q.stripeId ≠ some t := by
  intro t ht q hq hqt
  simp only [Payment.stripeId] at ht
  split at ht
  · rename_i hm
    simp [NewPayment.clashes, hm, ht] at h
    exact h q hq hqt
  · cases ht

/-- The insert is refused, or adds a row whose Stripe id is new. -/
theorem Pending.createPayment {d : NewPayment} (ch : Choice) (h : Pending i c u l) :
    exec i (.createPayment d) ch u = (none, u) ∨
    ∃ p v, exec i (.createPayment d) ch u = (some p, v) ∧
      Pending i c v { l with payments := l.payments ++ [p] } ∧ p.amount = d.amount ∧
      ∀ t, p.stripeId = some t → ∀ q ∈ l.payments, q.stripeId ≠ some t := by
  simp only [exec, Store.createPayment, h.view]
  split
  · exact .inl rfl
  · rename_i hclash
    simp only [Bool.or_eq_true, not_or, Bool.not_eq_true] at hclash
    exact .inr ⟨_, _, rfl, ⟨rfl, h.committed⟩, rfl, createPayment_fresh hclash.1⟩

theorem recordInvoicePaid_eq (l : Ledger) (p : Payment) :
    l.recordInvoicePaid p = { l with outbox := (l.recordInvoicePaid p).outbox } := by
  unfold Ledger.recordInvoicePaid
  split <;> rfl

theorem Pending.recordInvoicePaid (p : Payment) (ch : Choice) (h : Pending i c u l) :
    exec i (.recordInvoicePaid p) ch u = (false, u) ∨
    ∃ v, exec i (.recordInvoicePaid p) ch u = (true, v) ∧
      Pending i c v (l.recordInvoicePaid p) := by
  simp only [exec, h.view]
  cases ch.accepted with
  | false => exact .inl rfl
  | true => exact .inr ⟨_, rfl, rfl, h.committed⟩

theorem commit_free (hs : s.locked = none) : s.commit i = s := by simp [Store.commit, hs]

theorem rollback_free (hs : s.locked = none) : s.rollback i = s := by
  simp [Store.rollback, Store.heldBy, hs]

end Ashbi.Invoicing

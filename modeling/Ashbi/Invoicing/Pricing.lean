import Ashbi.Interleaving.Budget
import Ashbi.Invoicing.CheckoutLink

/-! What a Checkout session is priced from, and what becomes of every session. -/

namespace Ashbi.Invoicing

open Interleaving

/-- What the customer still owes on the rows. -/
def Ledger.balanceDue (l : Ledger) : ℚ :=
  (invoiceBalance l.invoice.total (invoiceAmountPaid l.payments)).balanceDue

/-- The fields that a session is created from agree. -/
structure SameTerms (r r' : Invoice) : Prop where
  id : r'.id = r.id
  invoiceNumber : r'.invoiceNumber = r.invoiceNumber
  currency : r'.currency = r.currency
  total : r'.total = r.total
  notes : r'.notes = r.notes
  viewToken : r'.viewToken = r.viewToken

theorem SameTerms.refl (r : Invoice) : SameTerms r r := ⟨rfl, rfl, rfl, rfl, rfl, rfl⟩

theorem SameTerms.trans {r r' r'' : Invoice} (h : SameTerms r r') (h' : SameTerms r' r'') :
    SameTerms r r'' :=
  ⟨h'.id.trans h.id, h'.invoiceNumber.trans h.invoiceNumber, h'.currency.trans h.currency,
    h'.total.trans h.total, h'.notes.trans h.notes, h'.viewToken.trans h.viewToken⟩

/-- Without sends the terms stay, and payments and new links come only with another attempt. -/
structure PriceStep (s t : Store) : Prop where
  terms : SameTerms s.committed.invoice t.committed.invoice
  attempt : s.attempt ≤ t.attempt
  payments : t.attempt = s.attempt → t.committed.payments = s.committed.payments
  link : t.attempt = s.attempt →
    t.committed.invoice.stripePaymentLink = s.committed.invoice.stripePaymentLink ∨
      t.committed.invoice.stripePaymentLink = none

/-- The amounts of the sessions are those of their keys. -/
def Priced (s : Store) : Prop := ∀ key session, (key, session) ∈ s.sessions →
  session.amountMinor = key.amountMinor

variable {α β : Type} {i j : ℕ} {s t u : Store} {st : Stmt β} {ch : Choice}

theorem PriceStep.refl (s : Store) : PriceStep s s :=
  ⟨.refl _, Nat.le_refl _, fun _ => rfl, fun _ => .inl rfl⟩

/-- A step that leaves the rows alone. -/
theorem PriceStep.of_same (h : t.committed = s.committed) : PriceStep s t :=
  ⟨by rw [h]; exact .refl _, by simp [Store.attempt, h], fun _ => by rw [h], fun _ => by simp [h]⟩

/-- A step to another attempt. -/
theorem PriceStep.of_attempt (hterms : SameTerms s.committed.invoice t.committed.invoice)
    (h : t.attempt = s.attempt + 1) : PriceStep s t :=
  ⟨hterms, by omega, fun he => by omega, fun he => by omega⟩

theorem PriceStep.trans (h : PriceStep s t) (h' : PriceStep t u) : PriceStep s u := by
  have h1 := h.attempt
  have h2 := h'.attempt
  refine ⟨h.terms.trans h'.terms, by omega, fun he => ?_, fun he => ?_⟩
  · rw [h'.payments (by omega), h.payments (by omega)]
  · rcases h'.link (by omega) with hsame | hnone
    · rw [hsame]
      exact h.link (by omega)
    · exact .inr hnone

theorem Write.data_terms (w : Write) (hw : ∀ sentAt viewToken, w ≠ .send sentAt viewToken)
    (r : Invoice) : SameTerms r (w.data r) := by
  cases w with
  | send sentAt viewToken => exact absurd rfl (hw sentAt viewToken)
  | payment source method paidAt fullyPaid =>
    cases source <;> cases fullyPaid <;> constructor <;> rfl
  | finishSend checkout => cases checkout <;> constructor <;> rfl
  | _ => constructor <;> rfl

theorem Moves.priceStep {op : Operation} {l : Ledger} (hm : Moves op s.committed l)
    (ht : t.committed = l) : PriceStep s t := by
  have paid : ∀ r : Invoice, l.invoice = r → SameTerms s.committed.invoice r →
      r.stripeCheckoutAttempt = s.attempt + 1 → PriceStep s t := by
    intro r hr hterms hattempt
    have hnext : t.attempt = s.attempt + 1 := by rw [Store.attempt, ht, hr, hattempt]
    exact .of_attempt (by rw [ht, hr]; exact hterms) hnext
  cases hm with
  | same => exact .of_same ht
  | pay hop hopen source method paidAt fullyPaid p outbox =>
    apply paid _ rfl (Write.data_terms (.payment source method paidAt fullyPaid) (by simp) _)
    cases source <;> cases fullyPaid <;> rfl
  | payLinked hopen source method paidAt sessionId p outbox =>
    have hpay := Write.data_terms (.payment source method paidAt true) (by simp)
      s.committed.invoice
    apply paid _ rfl (hpay.trans (Write.data_terms (.linkSession sessionId) (by simp) _))
    cases source <;> rfl
  | void seen voidedAt hv =>
    refine ⟨?_, ?_, fun _ => by rw [ht], fun _ => .inr (by rw [ht]; rfl)⟩
    · rw [ht]
      exact Write.data_terms (.void voidedAt seen.status) (by simp) _
    · simp [Store.attempt, ht, Write.data, Invoice.clearCheckout]
  | undo hc =>
    refine ⟨?_, ?_, fun _ => by rw [ht], fun _ => .inl (by rw [ht]; rfl)⟩
    · rw [ht]
      exact Write.data_terms (.undoVoid s.committed.invoice) (by simp) _
    · simp [Store.attempt, ht, Write.data]

theorem Write.priceStep {w : Write} (hp : w.Promised False)
    (hf : w.filter s.committed.invoice = true)
    (ht : t.committed = { s.committed with invoice := w.data s.committed.invoice }) :
    PriceStep s t := by
  cases w with
  | storeCheckout attempt data =>
    simp only [Write.filter, Bool.and_eq_true, decide_eq_true_eq] at hf
    have hnext : data.attempt = attempt + 1 := hp
    have hattempt : t.attempt = s.attempt + 1 := by
      simp [Store.attempt, ht, Write.data, Invoice.storeCheckout, hnext, hf.2]
    refine .of_attempt ?_ hattempt
    rw [ht]
    exact Write.data_terms (.storeCheckout attempt data) (by simp) _
  | markOverdue status =>
    refine ⟨?_, by simp [Store.attempt, ht, Write.data], fun _ => by rw [ht],
      fun _ => .inl (by rw [ht]; rfl)⟩
    rw [ht]
    exact Write.data_terms (.markOverdue status) (by simp) _
  | _ => exact hp.elim

theorem Change.priceStep (h : Change False i s st t) : PriceStep s t := by
  cases h with
  | same _ h => exact .of_same h
  | write w hp hf h => exact Write.priceStep hp hf h
  | commit op _ hm h => exact hm.priceStep h

/-! ### The sessions at Stripe -/

theorem write_sessions (tx : Bool) (l : Ledger) : (s.write i tx l).sessions = s.sessions := by
  cases tx <;> rfl

/-- A created session is found under its key from then on. -/
theorem createSession_lookup {key : CheckoutKey} {params : CheckoutParams} {answer : Option Session}
    {session : Session} (h : (s.createSession key params answer).1 = some session) :
    (s.createSession key params answer).2.sessions.lookup key = some session := by
  unfold Store.createSession at h ⊢
  cases hl : s.sessions.lookup key with
  | some old => simpa [hl] using h
  | none =>
    cases answer with
    | none => simp [hl] at h
    | some new =>
      simp only [hl] at h ⊢
      split at h
      · cases h
      · rename_i hnew
        simp only [hnew, Bool.false_eq_true, ↓reduceIte] at h ⊢
        simpa [List.lookup_append, hl] using h

/-! ### Which programs ask for a session -/

/-- The statements of a payment link that the other programs do not run. -/
def pricing {β : Type} : Stmt β → Bool
  | .createSession _ _ => true
  | .updateMany _ (.storeCheckout _ _) => true
  | .reply _ => true
  | _ => false

variable {config : StripeConfig}

abbrev Unpriced (p : Prog Stmt α) : Prop := p.AtMost pricing 0

theorem unpriced_call {next : β → Prog Stmt α} (hst : pricing st = false)
    (h : ∀ b, Unpriced (next b)) : Unpriced (.call st next) := Prog.atMost_call hst h

theorem unpriced_bind {p : Prog Stmt α} {f : α → Prog Stmt β} (hp : Unpriced p)
    (hf : ∀ a, Unpriced (f a)) : Unpriced (p.bind f) := Prog.AtMost.bind hp hf

theorem transaction_unpriced {ε : Type} (op : Operation) {body : Prog Stmt (Except ε α)}
    (h : Unpriced body) : Unpriced (transaction op body) := by
  apply unpriced_bind h
  intro r
  cases r with
  | ok a => exact unpriced_call rfl fun _ => trivial
  | error e => exact unpriced_call rfl fun _ => trivial

theorem claimPayableInvoice_unpriced : Unpriced claimPayableInvoice := by
  apply unpriced_call rfl
  intro count
  simp only [Prog.ret_bind, Prog.bind_def, Prog.pure_def]
  split
  · trivial
  · exact unpriced_call rfl fun _ => trivial

theorem applyInvoicePayment_unpriced (invoice : Invoice) (input : PaymentInput) :
    Unpriced (applyInvoicePayment invoice input) := by
  apply unpriced_call rfl
  intro paid
  simp only [Prog.ret_bind, Prog.bind_def, Prog.pure_def]
  split
  · trivial
  · apply unpriced_call rfl
    intro payment
    cases payment with
    | none => trivial
    | some payment =>
      apply unpriced_call rfl
      intro _
      simp only [Prog.ret_bind]
      split
      · apply unpriced_call rfl
        intro accepted
        cases accepted <;> trivial
      · trivial

theorem retireCheckoutSession_unpriced (owed : Option String) :
    Unpriced (retireCheckoutSession owed) := by
  cases owed with
  | none => trivial
  | some sessionId => exact unpriced_call rfl fun _ => trivial

theorem markPaid_unpriced (input : ManualPayment) : Unpriced (markPaid input) := by
  have inner : Unpriced (recordManualPayment input) := by
    apply transaction_unpriced
    apply unpriced_bind claimPayableInvoice_unpriced
    intro current
    cases current with
    | none => trivial
    | some current =>
      apply unpriced_bind (applyInvoicePayment_unpriced _ _)
      intro r
      cases r <;> trivial
  apply unpriced_call rfl
  intro invoice
  simp only [Prog.ret_bind, Prog.bind_def, Prog.pure_def]
  split
  · trivial
  · apply unpriced_bind inner
    intro r
    split
    · trivial
    · trivial
    · exact unpriced_bind (retireCheckoutSession_unpriced _) fun _ => trivial

theorem claimCheckout_unpriced (e : CompletedCheckout) : Unpriced (claimCheckout e) := by
  apply unpriced_bind claimPayableInvoice_unpriced
  intro current
  apply unpriced_call rfl
  intro found
  simp only [Prog.ret_bind, Prog.pure_def]
  split
  · trivial
  · cases current with
    | none => exact unpriced_call rfl fun _ => trivial
    | some current =>
      apply unpriced_bind (applyInvoicePayment_unpriced _ _)
      intro r
      split
      · trivial
      · trivial
      · split
        · exact unpriced_call rfl fun _ => trivial
        · trivial

theorem recordCompletedCheckout_unpriced (e : CompletedCheckout) :
    Unpriced (recordCompletedCheckout e) := by
  have inner : Unpriced (checkoutTransaction e) := by
    apply transaction_unpriced
    apply unpriced_call rfl
    intro invoice
    simp only [Prog.ret_bind, Prog.bind_def, Prog.pure_def]
    split
    · trivial
    split
    · trivial
    apply unpriced_call rfl
    intro found
    simp only [Prog.ret_bind]
    split
    · trivial
    split
    · trivial
    exact claimCheckout_unpriced e
  apply unpriced_bind inner
  intro r
  split
  · apply unpriced_call rfl
    intro found
    simp only [Prog.ret_bind, Prog.pure_def]
    split <;> trivial
  · trivial

theorem archiveInvoice_unpriced : Unpriced archiveInvoice := by
  have inner : ∀ invoice voidedAt, Unpriced (voidTransaction invoice voidedAt) := by
    intro invoice voidedAt
    apply transaction_unpriced
    apply unpriced_call rfl
    intro count
    simp only [Prog.ret_bind, Prog.bind_def, Prog.pure_def]
    split
    · trivial
    · apply unpriced_call rfl
      intro paid
      simp only [Prog.ret_bind]
      split <;> trivial
  apply unpriced_call rfl
  intro invoice
  simp only [Prog.ret_bind, Prog.pure_def]
  split
  · trivial
  · apply unpriced_call rfl
    intro voidedAt
    apply unpriced_bind (inner invoice voidedAt)
    intro r
    split
    · trivial
    · trivial
    · exact unpriced_bind (retireCheckoutSession_unpriced _) fun _ => trivial

theorem undoVoid_unpriced : Unpriced undoVoid := by
  apply transaction_unpriced
  apply unpriced_call rfl
  intro invoice
  apply unpriced_call rfl
  intro now
  simp only [Prog.ret_bind, Prog.bind_def, Prog.pure_def]
  split
  · trivial
  · apply unpriced_call rfl
    intro count
    simp only [Prog.ret_bind]
    split <;> trivial

theorem processOverdueInvoice_unpriced : Unpriced processOverdueInvoice := by
  apply unpriced_call rfl
  intro invoice
  simp only [Prog.ret_bind, Prog.bind_def, Prog.pure_def]
  split
  · exact unpriced_call rfl fun _ => trivial
  · trivial

/-- In a deployment without sends, only the payment link asks for sessions. -/
theorem Deployed.pricing {p : Prog Stmt Unit} (h : Deployed config False p) :
    Unpriced p ∨ p = (Invoicing.paymentLink config).bind fun reply => .stmt (.reply reply) := by
  have quiet : ∀ {α : Type} {p : Prog Stmt α}, Unpriced p → Unpriced (p.bind fun _ => .ret ()) :=
    fun hp => unpriced_bind hp fun _ => trivial
  cases h with
  | markPaid input => exact .inl (quiet (markPaid_unpriced input))
  | checkoutCompleted e => exact .inl (quiet (recordCompletedCheckout_unpriced e))
  | archiveInvoice => exact .inl (quiet archiveInvoice_unpriced)
  | undoVoid => exact .inl (quiet undoVoid_unpriced)
  | paymentLink => exact .inr rfl
  | processOverdueInvoice => exact .inl (quiet processOverdueInvoice_unpriced)
  | sendDraftInvoice hsends => exact hsends.elim

end Ashbi.Invoicing

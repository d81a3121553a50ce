import Mathlib
import Ashbi.Interleaving.Program
import Ashbi.Invoicing.Programs
import Ashbi.Invoicing.Statements

/-! Payments, voids and the status of one invoice settle up. -/

namespace Ashbi.Invoicing

open Interleaving

/-- The sum of the payment rows. -/
def Ledger.paid (l : Ledger) : ℚ := (l.payments.map (·.amount)).sum

/-- The payments cover the total within the tolerance. -/
def Ledger.Covered (l : Ledger) : Prop := roundMoney l.invoice.total - centTolerance ≤ l.paid

/-- Status, payments and outbox of an invoice agree. -/
structure Balanced (l : Ledger) : Prop where
  cents : ∀ p ∈ l.payments, Cents p.amount
  bounded : l.paid ≤ roundMoney l.invoice.total
  paid_iff : l.invoice.status = .paid ↔ l.payments ≠ [] ∧ l.Covered
  positive : l.invoice.status ≠ .paid → ∀ p ∈ l.payments, 0 < p.amount
  stripeIds : (l.payments.filterMap (·.stripeId)).Nodup
  events : l.outbox.length = if l.invoice.status = .paid then 1 else 0
  unpaid : l.invoice.status = .void ∨ l.invoice.status = .draft → l.payments = []

variable {c l : Ledger} {s t u : Store} {i : ℕ}

theorem Balanced.amountPaid (h : Balanced l) : invoiceAmountPaid l.payments = l.paid := by
  apply roundMoney_of_cents
  apply Grid.On.sum
  simp only [List.mem_map, forall_exists_index, and_imp, forall_apply_eq_imp_iff₂]
  exact h.cents

theorem Balanced.cents_paid (h : Balanced l) : Cents l.paid := by
  rw [← h.amountPaid]
  exact cents_roundMoney _

theorem draft_balanced {r : Invoice} (hr : r.status = .draft) : Balanced ⟨r, [], []⟩ := by
  constructor <;> simp [Ledger.paid, hr]
  exact roundMoney_nonneg r.total.2

/-- A write that keeps total and status keeps the balance. -/
theorem Balanced.keep {r : Invoice} (h : Balanced l) (ht : r.total = l.invoice.total)
    (hs : r.status = l.invoice.status) : Balanced { l with invoice := r } := by
  obtain ⟨h1, h2, h3, h4, h5, h6, h7⟩ := h
  constructor <;> simp_all [Ledger.paid, Ledger.Covered]

/-- Any move between unpaid statuses, if only an invoice without payments is voided or reopened. -/
theorem Balanced.restatus {r : Invoice} (h : Balanced l) (ht : r.total = l.invoice.total)
    (hold : l.invoice.status ≠ .paid) (hnew : r.status ≠ .paid)
    (hp : r.status = .void ∨ r.status = .draft → l.payments = []) :
    Balanced { l with invoice := r } := by
  obtain ⟨h1, h2, h3, h4, h5, h6, h7⟩ := h
  constructor <;> simp_all [Ledger.paid, Ledger.Covered]

/-- The ledger after one accepted payment. -/
theorem Balanced.pay {r : Invoice} {p : Payment} {requested : Option ℚ} {result : Settlement}
    {outbox : List InvoicePaid} (h : Balanced l) (hopen : l.invoice.status.payable = true)
    (hok : settlement l.invoice.total l.paid requested = .ok result) (hp : p.amount = result.amount)
    (hid : ∀ t, p.stripeId = some t → ∀ q ∈ l.payments, q.stripeId ≠ some t)
    (ht : r.total = l.invoice.total)
    (hs : r.status = if result.fullyPaid then .paid else l.invoice.status)
    (ho : outbox.length = if result.fullyPaid then 1 else 0) :
    Balanced ⟨r, l.payments ++ [p], outbox⟩ := by
  obtain ⟨hcents, hnonneg, hbound, hfull, hpos⟩ := settlement_ok hok h.cents_paid h.bounded
  obtain ⟨hnp, hnv, hnd⟩ := payable_not_paid hopen
  have hsum : Ledger.paid ⟨r, l.payments ++ [p], outbox⟩ = l.paid + result.amount := by
    simp [Ledger.paid, hp]
  have hstatus : r.status = .paid ↔ result.fullyPaid = true := by
    rw [hs]
    split <;> simp_all
  refine ⟨?_, ?_, ?_, ?_, ?_, ?_, ?_⟩
  · intro q hq
    rcases List.mem_append.mp hq with hq | hq
    · exact h.cents q hq
    · rw [List.mem_singleton.mp hq, hp]
      exact hcents
  · rw [hsum]
    simp only [ht]
    exact hbound
  · rw [hstatus, Ledger.Covered, hsum, hfull]
    simp [ht]
  · intro hne q hq
    rcases List.mem_append.mp hq with hq | hq
    · exact h.positive hnp q hq
    · rw [List.mem_singleton.mp hq, hp]
      apply hpos
      simpa [hstatus] using hne
  · rw [List.filterMap_append]
    apply List.Nodup.append h.stripeIds
    · cases hq : p.stripeId <;> simp [hq]
    · intro t hold hnew
      obtain ⟨q, hq, hqt⟩ := List.mem_filterMap.mp hold
      obtain ⟨q', hq', hqt'⟩ := List.mem_filterMap.mp hnew
      rw [List.mem_singleton.mp hq'] at hqt'
      exact hid t hqt' q hq hqt
  · rw [ho]
    simp only [hstatus]
  · rw [hs]
    split <;> simp_all

/-! ### Inside one transaction -/

@[simp] theorem data_total (w : Write) (r : Invoice) : (w.data r).total = r.total := by
  cases w with
  | payment source method paidAt fullyPaid =>
    cases source <;> cases fullyPaid <;> rfl
  | finishSend checkout => cases checkout <;> rfl
  | _ => rfl

theorem payment_status (source : PaymentSource) (method : String) (paidAt : Time)
    (fullyPaid : Bool) (r : Invoice) :
    ((Write.payment source method paidAt fullyPaid).data r).status =
      if fullyPaid then .paid else r.status := by
  cases source <;> cases fullyPaid <;> rfl

theorem alone_stmt {α β : Type} {st : Stmt β} {next : β → Prog Stmt α} {Q : α → Store → Prop}
    (h : ∀ ch, (next (exec i st ch s).1).Alone (M := machine) i Q (exec i st ch s).2) :
    (Prog.call st next).Alone (M := machine) i Q s := Prog.alone_call h

theorem claimPayableInvoice_alone (hs : s.locked = none) :
    claimPayableInvoice.Alone (M := machine) i (fun current u => match current with
      | none => u = s
      | some r => r = s.committed.invoice ∧ r.status.payable = true ∧
        Pending i s.committed u s.committed)
      s := by
  apply alone_stmt
  intro ch
  simp only [exec, Store.updateMany, Write.filter, view_free hs]
  by_cases hp : s.committed.invoice.status.payable = true
  · simp only [hp, Bool.not_false, Bool.and_self, ↓reduceIte]
    apply alone_stmt
    intro ch'
    apply Prog.alone_ret
    simp [exec, Store.write, Store.view, Write.data]
    exact ⟨hp, rfl, rfl⟩
  · simp only [hp, Bool.false_and, Bool.false_eq_true, ↓reduceIte]
    exact Prog.alone_ret rfl

/-- An accepted payment leaves a balanced version in the transaction. -/
theorem applyInvoicePayment_alone (input : PaymentInput) (h : Pending i c u l) (hb : Balanced l)
    (hopen : l.invoice.status.payable = true) :
    (applyInvoicePayment l.invoice input).Alone (M := machine) i
    (fun r t => ∃ l', Pending i c t l' ∧
      ∀ applied, r = .ok applied → Balanced l') u := by
  apply alone_stmt
  intro ch
  simp only [exec, h.view, hb.amountPaid, Prog.ret_bind, Prog.bind_def, Prog.pure_def]
  split
  · exact Prog.alone_ret ⟨l, h, by simp⟩
  rename_i result hok
  apply alone_stmt
  intro ch₁
  rcases h.createPayment (d := ⟨result.amount, input.method, input.transactionId, input.notes,
    input.paidAt⟩) ch₁ with hno | ⟨payment, u₁, hyes, h₁, hamount, hfresh⟩
  · simp only [hno]
    exact Prog.alone_ret ⟨l, h, by simp⟩
  simp only [hyes, Prog.ret_bind]
  have hnone : l.outbox = [] := by
    have hev := hb.events
    simpa [(payable_not_paid hopen).1] using hev
  have balanced : ∀ outbox : List InvoicePaid,
      outbox.length = (if result.fullyPaid then 1 else 0) →
      Balanced ⟨(Write.payment input.source input.method input.paidAt result.fullyPaid).data
        l.invoice, l.payments ++ [payment], outbox⟩ := fun outbox ho =>
    hb.pay hopen hok hamount hfresh (data_total _ _) (payment_status _ _ _ _ _) ho
  apply alone_stmt
  intro ch₂
  obtain ⟨u₂, hw, h₂⟩ := h₁.updateMany (w := .payment input.source input.method input.paidAt
    result.fullyPaid) ch₂ rfl (by simp)
  simp only [hw, Prog.ret_bind]
  cases hfull : result.fullyPaid with
  | false =>
    refine Prog.alone_ret ⟨_, h₂, fun _ _ => balanced l.outbox ?_⟩
    simp [hnone, hfull]
  | true =>
    apply alone_stmt
    intro ch₃
    rcases h₂.recordInvoicePaid payment ch₃ with hno | ⟨u₃, hyes, h₃⟩
    · simp only [hno]
      exact Prog.alone_ret ⟨_, h₂, by simp⟩
    · simp only [hyes]
      refine Prog.alone_ret ⟨_, h₃, fun _ _ => ?_⟩
      simp only [Ledger.recordInvoicePaid, hnone, List.any_nil, Bool.false_eq_true, ↓reduceIte]
      exact balanced _ (by simp [hfull])

/-- `Q` once the transaction of thread `i` has committed, or rolled back if it threw. -/
def AtEnd {ε α : Type} (i : ℕ) (Q : Except ε α → Store → Prop) (r : Except ε α)
    (u : Store) : Prop :=
  match r with
  | .ok a => Q (.ok a) (u.commit i)
  | .error e => Q (.error e) (u.rollback i)

theorem transaction_alone {ε α : Type} {op : Operation} {body : Prog Stmt (Except ε α)}
    {Q : Except ε α → Store → Prop} (h : body.Alone (M := machine) i (AtEnd i Q) s) :
    (transaction op body).Alone (M := machine) i Q s := by
  refine Prog.Alone.bind (h.mono fun r u hr => ?_)
  cases r with
  | ok a =>
    apply alone_stmt
    intro ch
    exact Prog.alone_ret hr
  | error e =>
    apply alone_stmt
    intro ch
    exact Prog.alone_ret hr

/-- How an operation leaves the store: unlocked, balanced, and as it was unless
it took effect. -/
structure Leaves (s t : Store) (effect : Bool) : Prop where
  free : t.locked = none
  balanced : Balanced t.committed
  unchanged : effect = false → t.committed = s.committed

theorem Leaves.same (hs : s.locked = none) (hb : Balanced s.committed) (effect : Bool) :
    Leaves s s effect := ⟨hs, hb, fun _ => rfl⟩

theorem Pending.rolledBack (h : Pending i s.committed u l) (hb : Balanced s.committed)
    (effect : Bool) : Leaves s (u.rollback i) effect := by
  rw [h.rollback]
  exact ⟨rfl, h.committed ▸ hb, fun _ => h.committed⟩

theorem Pending.committedAs (h : Pending i s.committed u l) (hb : Balanced l) :
    Leaves s (u.commit i) true := by
  rw [h.commit]
  exact ⟨rfl, hb, by simp⟩

/-- An outcome that writes nothing. -/
theorem quiet_end {ε α : Type} (effect : Except ε α → Bool) (hs : s.locked = none)
    (hb : Balanced s.committed) (r : Except ε α) :
    AtEnd i (fun r t => Leaves s t (effect r)) r s := by
  cases r with
  | ok a =>
    simp only [AtEnd, commit_free hs]
    exact Leaves.same hs hb _
  | error e =>
    simp only [AtEnd, rollback_free hs]
    exact Leaves.same hs hb _

/-- Whether a manual payment was recorded. -/
def Paid : Except PaymentError (Option RecordedPayment) → Bool
  | .ok (some _) => true
  | _ => false

theorem recordManualPayment_alone (input : ManualPayment) (hs : s.locked = none)
    (hb : Balanced s.committed) :
    (recordManualPayment input).Alone (M := machine) i (fun r t => Leaves s t (Paid r)) s := by
  apply transaction_alone
  refine Prog.Alone.bind ((claimPayableInvoice_alone hs).mono fun current u hu => ?_)
  cases current with
  | none =>
    subst hu
    exact Prog.alone_ret (quiet_end Paid hs hb _)
  | some current =>
    obtain ⟨rfl, hopen, hp⟩ := hu
    refine Prog.Alone.bind ((applyInvoicePayment_alone _ hp hb hopen).mono fun r t ht => ?_)
    obtain ⟨l, hl, hok⟩ := ht
    cases r with
    | error e => exact Prog.alone_ret (hl.rolledBack hb _)
    | ok applied => exact Prog.alone_ret (hl.committedAs (hok applied rfl))

theorem applyCheckout_alone (e : CompletedCheckout) (h : Pending i c u l) (hb : Balanced l)
    (hopen : l.invoice.status.payable = true) :
    (applyCheckout e l.invoice).Alone (M := machine) i (fun r t => ∃ l', Pending i c t l' ∧
      ∀ outcome, r = .ok outcome → Balanced l' ∧ outcome ≠ .duplicate) u := by
  refine Prog.Alone.bind ((applyInvoicePayment_alone _ h hb hopen).mono fun r t ht => ?_)
  obtain ⟨l', hl, hok⟩ := ht
  split
  · exact Prog.alone_ret ⟨l', hl, by simp⟩
  · exact Prog.alone_ret ⟨l', hl, by simp⟩
  · rename_i applied
    split
    · apply alone_stmt
      intro ch
      obtain ⟨v, hw, hv⟩ := hl.updateMany (w := .linkSession e.sessionId) ch rfl (by simp)
      simp only [hw, Prog.ret_bind]
      refine Prog.alone_ret ⟨_, hv, fun outcome ho => ⟨(hok applied rfl).keep rfl rfl, ?_⟩⟩
      cases ho
      simp
    · refine Prog.alone_ret ⟨l', hl, fun outcome ho => ⟨hok applied rfl, ?_⟩⟩
      cases ho
      simp

/-- Whether a delivered checkout was recorded. -/
def Recorded : Except CheckoutRejection CheckoutOutcome → Bool
  | .ok (.recorded _) => true
  | _ => false

theorem claimCheckout_alone (e : CompletedCheckout) (hs : s.locked = none)
    (hb : Balanced s.committed) :
    (claimCheckout e).Alone (M := machine) i (AtEnd i fun r t => Leaves s t (Recorded r)) s := by
  refine Prog.Alone.bind ((claimPayableInvoice_alone hs).mono fun current u hu => ?_)
  apply alone_stmt
  intro ch
  simp only [exec, Prog.ret_bind]
  cases current with
  | none =>
    subst hu
    split
    · exact Prog.alone_ret (quiet_end Recorded hs hb _)
    · apply alone_stmt
      intro ch₁
      exact Prog.alone_ret (quiet_end Recorded hs hb _)
  | some current =>
    obtain ⟨rfl, hopen, hp⟩ := hu
    split
    · -- the claim itself writes nothing
      apply Prog.alone_ret
      have hcommit : u.commit i = { u with committed := s.committed, locked := none } := hp.commit
      simp only [AtEnd, hcommit]
      exact ⟨rfl, hb, fun _ => rfl⟩
    · refine (applyCheckout_alone e hp hb hopen).mono fun r t ht => ?_
      obtain ⟨l, hl, hok⟩ := ht
      cases r with
      | error e => exact hl.rolledBack hb _
      | ok outcome =>
        obtain ⟨hbl, hnd⟩ := hok outcome rfl
        cases outcome with
        | duplicate => exact absurd rfl hnd
        | recorded fullyPaid => exact hl.committedAs hbl

theorem recordCompletedCheckout_alone (e : CompletedCheckout) (hs : s.locked = none)
    (hb : Balanced s.committed) :
    (recordCompletedCheckout e).Alone (M := machine) i (fun r t => Leaves s t (Recorded r)) s := by
  have quiet : ∀ r, (Prog.ret r : Prog Stmt _).Alone (M := machine) i
    (AtEnd i fun r t => Leaves s t (Recorded r)) s :=
    fun r => Prog.alone_ret (quiet_end Recorded hs hb r)
  have inside : (checkoutTransaction e).Alone (M := machine) i
      (fun r t => Leaves s t (Recorded r)) s := by
    apply transaction_alone
    apply alone_stmt
    intro ch₁
    simp only [exec, Prog.ret_bind, Prog.bind_def, Prog.pure_def]
    split
    · exact quiet _
    split
    · exact quiet _
    apply alone_stmt
    intro ch₂
    simp only [exec, Prog.ret_bind]
    split
    · exact quiet _
    split
    · exact quiet _
    exact claimCheckout_alone e hs hb
  refine Prog.Alone.bind (inside.mono fun r t ht => ?_)
  split
  · apply alone_stmt
    intro ch
    simp only [exec, Prog.ret_bind]
    split
    · exact Prog.alone_ret ht
    · exact Prog.alone_ret ht
  · exact Prog.alone_ret ht

/-! ### Void, undo, send -/

/-- Whether a void took effect. -/
def Voided : VoidOutcome → Bool
  | .voided _ => true
  | _ => false

/-- An invoice that may be voided has no payments if their sum is not positive. -/
theorem Balanced.no_payments (h : Balanced l) (hv : l.invoice.status ≠ .paid)
    (hp : ¬ 0 < invoiceAmountPaid l.payments) : l.payments = [] := by
  rw [h.amountPaid] at hp
  by_contra hne
  apply hp
  apply List.sum_pos
  · simpa using h.positive hv
  · simpa using hne

theorem voidTransaction_alone (invoice : Invoice) (voidedAt : Time) (hs : s.locked = none)
    (hb : Balanced s.committed) :
    (voidTransaction invoice voidedAt).Alone (M := machine) i
      (fun r t => Leaves s t (r = .ok true)) s := by
  apply transaction_alone
  apply alone_stmt
  intro ch
  simp only [exec, Store.updateMany, Write.filter, view_free hs]
  by_cases hv : s.committed.invoice.status.voidable = true
  · simp only [hv, Bool.not_false, Bool.and_self, ↓reduceIte, Prog.ret_bind]
    generalize hl : Ledger.mk ((Write.void voidedAt invoice.status).data s.committed.invoice)
      s.committed.payments s.committed.outbox = l
    have hp : Pending i s.committed (s.write i true l) l := ⟨rfl, rfl⟩
    apply alone_stmt
    intro ch₁
    simp only [exec, hp.view, Prog.ret_bind]
    split
    · exact Prog.alone_ret (hp.rolledBack hb _)
    · rename_i hpaid
      refine Prog.alone_ret (hp.committedAs ?_)
      have hnone := hb.no_payments (voidable_open hv).1 (by simpa [← hl] using hpaid)
      rw [← hl]
      exact hb.restatus (data_total _ _) (voidable_open hv).1 (by simp [Write.data]) fun _ => hnone
  · simp only [hv, Bool.false_and, Bool.false_eq_true, ↓reduceIte, Prog.ret_bind]
    exact Prog.alone_ret (quiet_end (fun r => decide (r = .ok true)) hs hb _)

theorem voidInvoice_alone (invoice : Invoice) (hs : s.locked = none) (hb : Balanced s.committed) :
    (voidInvoice invoice).Alone (M := machine) i (fun r t => Leaves s t (Voided r)) s := by
  apply alone_stmt
  intro ch
  simp only [exec, Prog.ret_bind, Prog.bind_def]
  refine Prog.Alone.bind ((voidTransaction_alone invoice _ hs hb).mono fun r t ht => ?_)
  split
  · exact Prog.alone_ret ht
  · exact Prog.alone_ret ht
  · cases hid : invoice.stripeCheckoutSessionId with
    | none => exact Prog.alone_ret ht
    | some sessionId =>
      apply alone_stmt
      intro ch'
      exact Prog.alone_ret ht

theorem undoVoid_alone (hs : s.locked = none) (hb : Balanced s.committed) :
    undoVoid.Alone (M := machine) i (fun r t => Leaves s t (r = .ok ())) s := by
  have quiet := quiet_end (i := i)
    (fun r : Except (Option UndoRefusal) Unit => decide (r = .ok ())) hs hb
  apply transaction_alone
  apply alone_stmt
  intro ch₁
  simp only [exec, view_free hs, Prog.ret_bind, Prog.bind_def]
  apply alone_stmt
  intro ch₂
  simp only [exec, Prog.ret_bind]
  split
  · exact Prog.alone_ret (quiet _)
  · rename_i hcheck
    obtain ⟨hvoid, status, hfrom, hv, _⟩ := undoVoidCheck_ok hcheck
    apply alone_stmt
    intro ch₃
    simp only [exec, Store.updateMany, Write.filter, view_free hs]
    by_cases hc : ch₃.conflict = true
    · simp only [hc, Bool.not_true, Bool.and_false, Bool.false_eq_true, ↓reduceIte, Prog.ret_bind]
      exact Prog.alone_ret (quiet _)
    · simp only [hc, decide_true, Bool.not_false, Bool.and_self, ↓reduceIte, Prog.ret_bind]
      have hp : Pending i s.committed (s.write i true { s.committed with
          invoice := (Write.undoVoid s.committed.invoice).data s.committed.invoice }) _ :=
            ⟨rfl, rfl⟩
      refine Prog.alone_ret (hp.committedAs ?_)
      have hnone := hb.unpaid (.inl hvoid)
      have hnew : ((Write.undoVoid s.committed.invoice).data s.committed.invoice).status =
        status := by
        simp [Write.data, hfrom]
      exact hb.restatus (data_total _ _) (by simp [hvoid]) (hnew ▸ (voidable_open hv).1)
        fun _ => hnone

theorem claimSend_alone (sentAt : Time) (viewToken : String) (hs : s.locked = none)
    (hb : Balanced s.committed) :
    (claimSend sentAt viewToken).Alone (M := machine) i (fun r t => Leaves s t r) s := by
  apply alone_stmt
  intro ch
  simp only [exec, Store.updateMany, Write.filter, view_free hs]
  by_cases hd : s.committed.invoice.status = .draft
  · simp only [hd, decide_true, Bool.not_false, Bool.and_self, ↓reduceIte]
    apply Prog.alone_ret
    refine ⟨hs, ?_, by simp⟩
    exact hb.restatus (data_total _ _) (by simp [hd]) (by simp [Write.data])
      (by simp [Write.data])
  · simp only [hd, decide_false, Bool.false_and, Bool.false_eq_true, ↓reduceIte]
    exact Prog.alone_ret (Leaves.same hs hb _)

theorem processOverdueInvoice_alone (hs : s.locked = none) (hb : Balanced s.committed) :
    processOverdueInvoice.Alone (M := machine) i (fun r t => Leaves s t r) s := by
  apply alone_stmt
  intro ch₁
  simp only [exec, view_free hs, Prog.ret_bind, Prog.bind_def]
  split
  · rename_i hsent
    apply alone_stmt
    intro ch₂
    simp only [exec, Store.updateMany, Write.filter, view_free hs, decide_true, Bool.not_false,
      Bool.and_self, ↓reduceIte]
    apply Prog.alone_ret
    refine ⟨hs, ?_, by simp⟩
    refine hb.restatus (data_total _ _) ?_ (by simp [Write.data]) (by simp [Write.data])
    rcases hsent with h | h <;> simp [h]
  · exact Prog.alone_ret (Leaves.same hs hb _)

/-! ### Any sequence of transactions -/

/-- The transactions on the invoice row. A void may be given any earlier reading
of the invoice, and a checkout event may be delivered any number of times. -/
inductive RowTransaction
  | recordManualPayment (input : ManualPayment)
  | recordCompletedCheckout (event : CompletedCheckout)
  | claimSend (sentAt : Time) (viewToken : String)
  | voidInvoice (invoice : Invoice)
  | undoVoid
  | processOverdueInvoice

/-- The program of a transaction; its result says whether it took effect, that is,
neither threw nor returned null. -/
def RowTransaction.program : RowTransaction → Prog Stmt Bool
  | .recordManualPayment input => do pure (Paid (← Invoicing.recordManualPayment input))
  | .recordCompletedCheckout event => do pure (Recorded (← Invoicing.recordCompletedCheckout event))
  | .claimSend sentAt viewToken => Invoicing.claimSend sentAt viewToken
  | .voidInvoice invoice => do pure (Voided (← Invoicing.voidInvoice invoice))
  | .undoVoid => do pure (decide ((← Invoicing.undoVoid) = .ok ()))
  | .processOverdueInvoice => Invoicing.processOverdueInvoice

theorem RowTransaction.alone (op : RowTransaction) (hs : s.locked = none)
    (hb : Balanced s.committed) :
    op.program.Alone (M := machine) i (fun effect t => Leaves s t effect) s := by
  cases op with
  | recordManualPayment input =>
    exact Prog.Alone.bind ((recordManualPayment_alone input hs hb).mono fun _ _ h =>
      Prog.alone_ret h)
  | recordCompletedCheckout event =>
    exact Prog.Alone.bind
      ((recordCompletedCheckout_alone event hs hb).mono fun _ _ h => Prog.alone_ret h)
  | claimSend sentAt viewToken => exact claimSend_alone sentAt viewToken hs hb
  | voidInvoice invoice =>
    exact Prog.Alone.bind ((voidInvoice_alone invoice hs hb).mono fun _ _ h => Prog.alone_ret h)
  | undoVoid => exact Prog.Alone.bind ((undoVoid_alone hs hb).mono fun _ _ h => Prog.alone_ret h)
  | processOverdueInvoice => exact processOverdueInvoice_alone hs hb

/-- The stores that sequences of transactions reach from a draft without payments. -/
inductive Reached : Store → Prop
  | draft (r : Invoice) (nextPaymentId : ℕ) (sessions : List (CheckoutKey × Session))
      (h : r.status = .draft) : Reached (.settled ⟨r, [], []⟩ nextPaymentId sessions)
  | step {s t : Store} {i : ℕ} {op : RowTransaction} {effect : Bool} (h : Reached s)
      (he : op.program.Ends (M := machine) i s effect t) : Reached t

theorem Reached.balanced (h : Reached s) : s.locked = none ∧ Balanced s.committed := by
  induction h with
  | draft r n sessions h => exact ⟨rfl, draft_balanced h⟩
  | step _ he ih =>
    have hleaves := RowTransaction.alone _ ih.1 ih.2 _ _ he
    exact ⟨hleaves.free, hleaves.balanced⟩

/-- After any sequence of row-locked transactions the payments, the status and
the outbox of the invoice agree, and one that did not take effect wrote nothing. -/
theorem invoice_settlement (h : Reached s) :
    s.committed.paid ≤ roundMoney s.committed.invoice.total + centTolerance ∧
    (s.committed.invoice.status = .paid ↔
      s.committed.payments ≠ [] ∧
        roundMoney s.committed.invoice.total - centTolerance ≤ s.committed.paid) ∧
    (s.committed.payments.filterMap (·.stripeId)).Nodup ∧
    s.committed.outbox.length = (if s.committed.invoice.status = .paid then 1 else 0) ∧
    (s.committed.invoice.status = .void ∨ s.committed.invoice.status = .draft →
      s.committed.payments = []) ∧
    ∀ (i : ℕ) (op : RowTransaction) (effect : Bool) (t : Store),
      op.program.Ends (M := machine) i s effect t → effect = false → t.committed = s.committed := by
  obtain ⟨hfree, hb⟩ := h.balanced
  refine ⟨?_, hb.paid_iff, hb.stripeIds, hb.events, hb.unpaid, fun i op effect t he => ?_⟩
  · have hbound := hb.bounded
    have htol : 0 ≤ centTolerance := by norm_num [centTolerance]
    linarith
  · exact (RowTransaction.alone op hfree hb effect t he).unchanged

/-! ### A sample sequence: sent, 40 paid by hand, 60 by Checkout -/

def sampleCheckout : CompletedCheckout :=
  ⟨"evt-1", 2, "cs-1", some "pi-1", "paid", some "cad", some 6000, some "inv-1", some "INV-0001"⟩

/-- Plays transactions one after the other, each with its number of statements. -/
def playAll : List (RowTransaction × ℕ) → Store → Option Store
  | [], s => some s
  | (op, n) :: rest, s =>
    (op.program.play (M := machine) 0 (List.replicate n sampleChoice) s).bind fun r =>
      playAll rest r.2

theorem Reached.playAll {ops : List (RowTransaction × ℕ)} (h : Reached s)
    (hp : playAll ops s = some t) : Reached t := by
  induction ops generalizing s with
  | nil =>
    simp only [Invoicing.playAll, Option.some.injEq] at hp
    exact hp ▸ h
  | cons op rest ih =>
    obtain ⟨⟨effect, u⟩, hu, ht⟩ := Option.bind_eq_some_iff.mp hp
    exact ih (h.step (Prog.ends_of_play hu)) ht

def sampleTransactions : List (RowTransaction × ℕ) :=
  [(.claimSend 0 "view-1", 1), (.recordManualPayment ⟨some 40, "BANK", 1, none, none⟩, 6),
    (.recordCompletedCheckout sampleCheckout, 11)]

/-- Whether the sample checkout matches an invoice, without lower case for its own currency. -/
def sampleMatches (invoice : Invoice) : Bool :=
  if invoice.currency = "CAD" then sampleCheckout.invoiceNumber = some invoice.invoiceNumber
  else checkoutMatches sampleCheckout invoice

theorem checkoutMatches_sample (invoice : Invoice) :
    checkoutMatches sampleCheckout invoice = sampleMatches invoice := by
  unfold sampleMatches
  split
  · rename_i hcurrency
    have hupper : "CAD".toLower = "cad" :=
      String.toList_injective (by rw [String.toLower, String.toList_map]; rfl)
    have hlower : "cad".toLower = "cad" :=
      String.toList_injective (by rw [String.toLower, String.toList_map]; rfl)
    have hcad : checkoutCurrency invoice = "cad" := by
      rw [checkoutCurrency, hcurrency]
      exact hupper
    have hevent : sampleCheckout.currency.map String.toLower = some "cad" := congrArg some hlower
    have hpositive : sampleCheckout.amountTotal.any (0 < ·) = true := by decide
    simp only [checkoutMatches, hcad, hevent, hpositive, decide_true, Bool.true_and, Bool.and_true]
  · rfl

theorem invoice_settlement_sample :
    ∃ s, playAll sampleTransactions sampleStart = some s ∧
      s.committed.payments.map (·.amount) = [40, 60] ∧
      (s.committed.invoice.status = .paid ↔ s.committed.payments ≠ [] ∧
        roundMoney s.committed.invoice.total - centTolerance ≤ s.committed.paid) ∧
      s.committed.outbox.length = (if s.committed.invoice.status = .paid then 1 else 0) := by
  have hplay : (playAll sampleTransactions sampleStart).map
      (fun s => s.committed.payments.map (·.amount)) = some [40, 60] := by
    simp only [sampleTransactions, playAll, RowTransaction.program, recordCompletedCheckout,
      checkoutTransaction, checkoutMatches_sample]
    decide +kernel
  obtain ⟨s, hs, hamounts⟩ := Option.map_eq_some_iff.mp hplay
  obtain ⟨_, hpaid, _, hevents, _⟩ := invoice_settlement ((Reached.draft _ _ _ rfl).playAll hs)
  exact ⟨s, hs, hamounts, hpaid, hevents⟩

end Ashbi.Invoicing

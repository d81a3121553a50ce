import Ashbi.Invoicing.Discipline

/-! Every program of a deployment keeps to the contract. -/

namespace Ashbi.Invoicing

open Interleaving

variable {α β ε : Type} {sends : Prop} {i : ℕ} {w : World} {st : Stmt β} {ch : Choice}
    {c l : Ledger}

/-! ### Outside of a transaction -/

/-- Thread `i` holds no lock and owes nothing. -/
structure Idle (i : ℕ) (w : World) : Prop where
  free : w.1.heldBy i = false
  quiet : Quiet (w.2 i)

theorem Idle.rely {t : World} (h : Idle i w) (hr : Rely i w t) : Idle i t :=
  ⟨hr.free h.free, by rw [hr.marks]; exact h.quiet⟩

/-- The statements that leave a thread idle. -/
def Light (sends : Prop) : {β : Type} → Stmt β → Prop
  | _, .updateMany tx write => tx = false ∧ write.Promised sends
  | _, .createPayment _ => False
  | _, .recordInvoicePaid _ => False
  | _, _ => True

theorem Idle.promised (h : Idle i w) (hl : Light sends st) : Promised sends i st w.1 := by
  cases st with
  | updateMany tx write =>
    obtain ⟨rfl, hp⟩ := hl
    exact ⟨hp, h.free⟩
  | commit op =>
    intro l hlocked
    have hheld := heldBy_of_locked hlocked
    rw [h.free] at hheld
    cases hheld
  | _ => trivial

theorem commit_idle {s : Store} (h : s.heldBy i = false) : s.commit i = s := by
  unfold Store.commit
  split
  · rename_i j l hl
    have hij : j ≠ i := by simpa [Store.heldBy, hl] using h
    simp [hij]
  · rfl

theorem light_free {s : Store} (h : s.heldBy i = false) (hl : Light sends st) :
    (exec i st ch s).2.heldBy i = false := by
  cases st with
  | updateMany tx write =>
    obtain ⟨rfl, -⟩ := hl
    simp only [exec, Store.updateMany, Store.write, Bool.false_eq_true, ↓reduceIte]
    split
    · split <;> exact h
    · split <;> exact h
  | createPayment data => exact hl.elim
  | recordInvoicePaid payment => exact hl.elim
  | commit op =>
    simp only [exec, commit_idle h]
    exact h
  | rollback =>
    simp only [exec, Store.rollback, h]
    exact h
  | createSession key params =>
    simp only [exec, Store.createSession]
    split
    · exact h
    · exact h
    · split <;> exact h
  | _ => exact h

theorem Idle.after (h : Idle i w) (hl : Light sends st) : Idle i (w.after i st ch) := by
  refine ⟨light_free h.free hl, ?_⟩
  rw [after_marks]
  apply h.quiet.append
  cases st with
  | commit op => simp [markOf, h.free, Quiet]
  | expireSession sessionId => exact quiet_expired sessionId
  | _ => simp [markOf, Quiet]

/-- A statement outside of a transaction; whatever it answers, the rest starts idle. -/
theorem idle_call {next : β → Prog Stmt α} {Q : α → World → Prop} (h : Idle i w)
    (hl : Light sends st)
    (hn : ∀ b t, Idle i t → Safe sends i (next b) Q t) : Safe sends i (.call st next) Q w := by
  apply safe_call
  intro t ch hr
  have ht := h.rely hr
  exact ⟨ht.promised hl, hn _ _ (ht.after hl)⟩

/-! ### Inside a transaction -/

/-- Thread `i` holds the lock with its version `l` of the rows `c`, and owes nothing. -/
structure Holding (i : ℕ) (c l : Ledger) (w : World) : Prop where
  pending : Pending i c w.1 l
  quiet : Quiet (w.2 i)

theorem Holding.rely {t : World} (h : Holding i c l w) (hr : Rely i w t) : Holding i c l t := by
  obtain ⟨hl, hc⟩ := hr.held l h.pending.locked
  exact ⟨⟨hl, hc.trans h.pending.committed⟩, by rw [hr.marks]; exact h.quiet⟩

/-- A write that takes the row lock: it matches nothing, or opens the transaction. -/
theorem Idle.claim (h : Idle i w) (write : Write) (ch : Choice) :
    ((exec i (.updateMany true write) ch w.1).1 = 0 ∧
        Idle i (w.after i (.updateMany true write) ch)) ∨
      ((exec i (.updateMany true write) ch w.1).1 = 1 ∧ write.filter w.1.committed.invoice = true ∧
        Holding i w.1.committed
          { w.1.committed with invoice := write.data w.1.committed.invoice }
          (w.after i (.updateMany true write) ch)) := by
  have hquiet : Quiet ((w.after i (.updateMany true write) ch).2 i) := by
    simpa [markOf] using h.quiet
  have hcases := updateMany_cases w.1 i true write ch.conflict
  rw [view_idle h.free] at hcases
  rcases hcases with hno | ⟨hf, hyes⟩
  · refine .inl ⟨by rw [exec, hno], ⟨?_, hquiet⟩⟩
    simpa [World.after, exec, hno] using h.free
  · refine .inr ⟨by rw [exec, hyes], hf, ⟨⟨?_, ?_⟩, hquiet⟩⟩
    · simp [World.after, exec, hyes, Store.write]
    · simp [World.after, exec, hyes, Store.write]

theorem Holding.after {l' : Ledger} (h : Holding i c l w) (hm : markOf i st w.1 = [])
    (hp : Pending i c (exec i st ch w.1).2 l') : Holding i c l' (w.after i st ch) := by
  refine ⟨hp, ?_⟩
  rw [after_marks, hm, List.append_nil]
  exact h.quiet

/-- A transaction that has committed, with the marks this leaves. -/
structure Released (i : ℕ) (op : Operation) (c : Ledger) (w : World) : Prop where
  free : w.1.heldBy i = false
  marks : ∃ ms, Quiet ms ∧ w.2 i = ms ++ op.marks c

theorem Holding.commit {op : Operation} (h : Holding i c l w) :
    Released i op c (w.after i (.commit op) ch) := by
  have hmarks : markOf i (.commit op) w.1 = op.marks c := by
    simp [markOf, heldBy_of_locked h.pending.locked, h.pending.committed]
  refine ⟨?_, w.2 i, h.quiet, by rw [after_marks, hmarks]⟩
  simp [World.after, exec, h.pending.commit, Store.heldBy]

theorem Holding.rollback (h : Holding i c l w) : Idle i (w.after i .rollback ch) := by
  refine ⟨?_, by simpa [markOf] using h.quiet⟩
  simp [World.after, exec, h.pending.rollback, Store.heldBy]

/-- What the body of a transaction has to end in, for `Q` after the transaction. -/
def AtCommit (i : ℕ) (op : Operation) (Q : Except ε α → World → Prop) (r : Except ε α)
    (t : World) : Prop :=
  match r with
  | .ok a => (Idle i t ∧ ∀ u, Idle i u → Q (.ok a) u) ∨
      ∃ c l, Holding i c l t ∧ Moves op c l ∧ ∀ u, Released i op c u → Q (.ok a) u
  | .error e => (Idle i t ∨ ∃ c l, Holding i c l t) ∧ ∀ u, Idle i u → Q (.error e) u

theorem transaction_safe {op : Operation} {body : Prog Stmt (Except ε α)}
    {Q : Except ε α → World → Prop} (h : Safe sends i body (AtCommit i op Q) w) :
    Safe sends i (transaction op body) Q w := by
  refine Prog.Safe.bind (h.mono fun r t hr => ?_)
  cases r with
  | ok a =>
    rcases hr with ⟨hidle, hq⟩ | ⟨c, l, hl, hmoves, hq⟩
    · exact idle_call hidle trivial fun _ u hu => hq u hu
    · apply safe_call
      intro u ch hu
      have hl := hl.rely hu
      refine ⟨fun l' hl' => ?_, hq _ hl.commit⟩
      have heq : l = l' := by simpa [hl.pending.locked] using hl'
      rw [hl.pending.committed, ← heq]
      exact hmoves
  | error e =>
    obtain ⟨hidle | ⟨c, l, hl⟩, hq⟩ := hr
    · exact idle_call hidle trivial fun _ u hu => hq u hu
    · apply safe_call
      intro u ch hu
      exact ⟨trivial, hq _ (hl.rely hu).rollback⟩

/-! ### Payments -/

theorem claimPayableInvoice_safe (h : Idle i w) :
    Safe sends i claimPayableInvoice (fun current t => match current with
      | none => Idle i t
      | some r => ∃ c, r = c.invoice ∧ c.invoice.status.payable = true ∧ Holding i c c t) w := by
  apply safe_call
  intro t ch hr
  refine ⟨trivial, ?_⟩
  rcases (h.rely hr).claim .claimPayable ch with ⟨hno, hidle⟩ | ⟨hyes, hopen, hl⟩
  · simp only [hno]
    exact hidle
  · simp only [hyes]
    apply safe_call
    intro u ch' hu
    have hl := hl.rely hu
    refine ⟨trivial, t.1.committed, ?_, hopen, hl.after rfl hl.pending⟩
    simp [exec, hl.pending.view, Write.data]

/-- An accepted payment has changed the rows in the lock as a payment does. -/
theorem applyInvoicePayment_safe (invoice : Invoice) (input : PaymentInput)
    (h : Holding i c c w) :
    Safe sends i (applyInvoicePayment invoice input) (fun r t => ∃ l, Holding i c l t ∧
      ∀ applied, r = .ok applied → ∃ p outbox, l =
        ⟨(Write.payment input.source input.method input.paidAt applied.fullyPaid).data c.invoice,
          c.payments ++ [p], outbox⟩) w := by
  apply safe_call
  intro t ch hr
  have h := h.rely hr
  refine ⟨trivial, ?_⟩
  have h₀ : Holding i c c (t.after i .invoiceAmountPaid ch) := h.after rfl h.pending
  simp only [exec, Prog.ret_bind, Prog.bind_def, Prog.pure_def]
  split
  · exact ⟨c, h₀, by simp⟩
  rename_i result hok
  apply safe_call
  intro t₁ ch₁ hr₁
  have h₁ := h₀.rely hr₁
  refine ⟨trivial, ?_⟩
  rcases h₁.pending.createPayment (d := ⟨result.amount, input.method, input.transactionId,
    input.notes, input.paidAt⟩) ch₁ with hno | ⟨p, v₁, hyes, hp₁, -, -⟩
  · simp only [hno]
    exact ⟨c, h₁.after rfl (by rw [hno]; exact h₁.pending), by simp⟩
  have h₂ : Holding i c _ (t₁.after i (.createPayment ⟨result.amount, input.method,
    input.transactionId, input.notes, input.paidAt⟩) ch₁) := h₁.after rfl (by rw [hyes]; exact hp₁)
  simp only [hyes, Prog.ret_bind]
  apply safe_call
  intro t₂ ch₂ hr₂
  have h₂ := h₂.rely hr₂
  refine ⟨trivial, ?_⟩
  obtain ⟨v₂, hw, hp₂⟩ := h₂.pending.updateMany (w := .payment input.source input.method
    input.paidAt result.fullyPaid) ch₂ rfl (by simp)
  have h₃ : Holding i c _ (t₂.after i (.updateMany true (.payment input.source input.method
    input.paidAt result.fullyPaid)) ch₂) := h₂.after rfl (by rw [hw]; exact hp₂)
  simp only [Prog.ret_bind]
  cases hfull : result.fullyPaid with
  | false =>
    rw [hfull] at h₃
    refine ⟨_, h₃, fun applied ha => ?_⟩
    cases ha
    exact ⟨p, c.outbox, rfl⟩
  | true =>
    rw [hfull] at h₃
    apply safe_call
    intro t₃ ch₃ hr₃
    have h₃ := h₃.rely hr₃
    refine ⟨trivial, ?_⟩
    rcases h₃.pending.recordInvoicePaid p ch₃ with hno | ⟨v₃, hyes, hp₃⟩
    · simp only [hno]
      exact ⟨_, h₃.after rfl (by rw [hno]; exact h₃.pending), by simp⟩
    · simp only [hyes]
      refine ⟨_, h₃.after rfl (by rw [hyes]; exact hp₃), fun applied ha => ?_⟩
      cases ha
      exact ⟨p, _, recordInvoicePaid_eq _ _⟩

/-! ### What a finished operation owes -/

/-- The operation has committed, and `owed` is still to be retired. -/
structure Owing (i : ℕ) (owed : Option String) (w : World) : Prop where
  free : w.1.heldBy i = false
  marks : ∃ ms m, Quiet ms ∧ w.2 i = ms ++ [m] ∧ m.owes = some owed

theorem Idle.done (h : Idle i w) : (custody sends).final i w := ⟨h.free, h.quiet.closed⟩

theorem Owing.rely {owed : Option String} {t : World} (h : Owing i owed w) (hr : Rely i w t) :
    Owing i owed t := ⟨hr.free h.free, by rw [hr.marks]; exact h.marks⟩

theorem Released.owing {op : Operation} {m : Mark} {owed : Option String}
    (h : Released i op c w) (hm : op.marks c = [m]) (ho : m.owes = some owed) :
    Owing i owed w := by
  obtain ⟨ms, hq, hms⟩ := h.marks
  exact ⟨h.free, ms, m, hq, hm ▸ hms, ho⟩

theorem Released.idle {op : Operation} (h : Released i op c w) (hm : op.marks c = []) :
    Idle i w := by
  obtain ⟨ms, hq, hms⟩ := h.marks
  rw [hm, List.append_nil] at hms
  exact ⟨h.free, hms ▸ hq⟩

theorem retireCheckoutSession_safe {owed : Option String} (h : Owing i owed w) :
    Safe sends i (retireCheckoutSession owed) (fun _ => (custody sends).final i) w := by
  cases owed with
  | none =>
    obtain ⟨ms, m, hq, hms, ho⟩ := h.marks
    refine ⟨h.free, ?_⟩
    rw [hms]
    exact hq.closed_append ⟨fun owed' ho' => by simp_all, trivial⟩
  | some sessionId =>
    apply safe_call
    intro t ch hr
    have ht := h.rely hr
    obtain ⟨ms, m, hq, hms, ho⟩ := ht.marks
    have hlight : Light sends (.expireSession sessionId) := trivial
    refine ⟨trivial, light_free ht.free hlight, ?_⟩
    rw [after_marks, hms, List.append_assoc]
    refine hq.closed_append ⟨fun owed' ho' => ?_, (quiet_expired sessionId).closed⟩
    obtain rfl : some sessionId = owed' := Option.some.inj (ho.symm.trans ho')
    rfl

/-- What a finished manual payment leaves: the session it cleared is owed. -/
def PaymentOwes (i : ℕ) (r : Except PaymentError (Option RecordedPayment)) (w : World) : Prop :=
  match r with
  | .ok (some recorded) => Owing i recorded.clearedCheckoutSessionId w
  | _ => Idle i w

theorem recordManualPayment_safe (input : ManualPayment) (h : Idle i w) :
    Safe sends i (recordManualPayment input) (PaymentOwes i) w := by
  apply transaction_safe
  refine Prog.Safe.bind ((claimPayableInvoice_safe h).mono fun current t ht => ?_)
  cases current with
  | none => exact .inl ⟨ht, fun _ hu => hu⟩
  | some current =>
    obtain ⟨c, rfl, hopen, hl⟩ := ht
    refine Prog.Safe.bind ((applyInvoicePayment_safe _ _ hl).mono fun r u hu => ?_)
    obtain ⟨l, hl, hok⟩ := hu
    cases r with
    | error e => exact ⟨.inr ⟨c, l, hl⟩, fun _ hv => hv⟩
    | ok applied =>
      obtain ⟨p, outbox, rfl⟩ := hok applied rfl
      exact .inr ⟨c, _, hl, .pay (.inl rfl) hopen _ _ _ _ p outbox, fun _ hv => hv.owing rfl rfl⟩

theorem markPaid_safe (input : ManualPayment) (h : Idle i w) :
    Safe sends i (markPaid input) (fun _ => (custody sends).final i) w := by
  apply idle_call h (by trivial)
  intro invoice t ht
  simp only [Prog.ret_bind, Prog.bind_def, Prog.pure_def]
  split
  · exact ht.done
  · refine Prog.Safe.bind ((recordManualPayment_safe input ht).mono fun r u hu => ?_)
    split
    · exact Idle.done hu
    · exact Idle.done hu
    · exact Prog.Safe.bind ((retireCheckoutSession_safe hu).mono fun _ _ hv => hv)

/-! ### Checkout events -/

theorem applyCheckout_safe (e : CompletedCheckout)
    {Q : Except CheckoutRejection CheckoutOutcome → World → Prop}
    (hopen : c.invoice.status.payable = true) (hQ : ∀ r u, Idle i u → Q r u)
    (h : Holding i c c w) :
    Safe sends i (applyCheckout e c.invoice) (AtCommit i .recordCompletedCheckout Q) w := by
  refine Prog.Safe.bind ((applyInvoicePayment_safe _ _ h).mono fun r t ht => ?_)
  obtain ⟨l, hl, hok⟩ := ht
  split
  · exact ⟨.inr ⟨c, l, hl⟩, hQ _⟩
  · exact ⟨.inr ⟨c, l, hl⟩, hQ _⟩
  · rename_i applied
    obtain ⟨p, outbox, rfl⟩ := hok applied rfl
    split
    · rename_i hfull
      apply safe_call
      intro u ch hu
      have hl := hl.rely hu
      obtain ⟨v, hw, hp⟩ := hl.pending.updateMany (w := .linkSession e.sessionId) ch rfl (by simp)
      refine ⟨trivial, .inr ⟨c, _, hl.after rfl (by rw [hw]; exact hp), ?_,
        fun _ hv => hQ _ _ (hv.idle rfl)⟩⟩
      rw [hfull]
      exact .payLinked hopen _ _ _ _ p outbox
    · exact .inr ⟨c, _, hl, .pay (.inr rfl) hopen _ _ _ _ p outbox,
        fun _ hv => hQ _ _ (hv.idle rfl)⟩

theorem claimCheckout_safe (e : CompletedCheckout)
    {Q : Except CheckoutRejection CheckoutOutcome → World → Prop}
    (hQ : ∀ r u, Idle i u → Q r u) (h : Idle i w) :
    Safe sends i (claimCheckout e) (AtCommit i .recordCompletedCheckout Q) w := by
  refine Prog.Safe.bind ((claimPayableInvoice_safe h).mono fun current t ht => ?_)
  cases current with
  | none =>
    apply idle_call ht (by trivial)
    intro found u hu
    simp only [Prog.ret_bind, Prog.bind_def, Prog.pure_def]
    split
    · exact .inl ⟨hu, hQ _⟩
    · exact idle_call hu trivial fun _ v hv => ⟨.inl hv, hQ _⟩
  | some current =>
    obtain ⟨c, rfl, hopen, hl⟩ := ht
    apply safe_call
    intro u ch hu
    have hl := hl.rely hu
    have hl' : Holding i c c (u.after i (.findStripePayment e.transactionId) ch) :=
      hl.after rfl hl.pending
    refine ⟨trivial, ?_⟩
    simp only [Prog.ret_bind, Prog.pure_def]
    split
    · exact .inr ⟨c, c, hl', .same _, fun _ hv => hQ _ _ (hv.idle rfl)⟩
    · exact applyCheckout_safe e hopen hQ hl'

theorem recordCompletedCheckout_safe (e : CompletedCheckout) (h : Idle i w) :
    Safe sends i (recordCompletedCheckout e) (fun _ => Idle i) w := by
  have inside : Safe sends i (checkoutTransaction e) (fun _ => Idle i) w := by
    have quiet : ∀ (r : Except CheckoutRejection CheckoutOutcome) (t : World), Idle i t →
        AtCommit i .recordCompletedCheckout (fun _ => Idle i) r t := by
      intro r t ht
      cases r with
      | ok a => exact .inl ⟨ht, fun _ hu => hu⟩
      | error e => exact ⟨.inl ht, fun _ hu => hu⟩
    apply transaction_safe
    apply idle_call h (by trivial)
    intro invoice t ht
    simp only [Prog.ret_bind, Prog.bind_def, Prog.pure_def]
    split
    · exact quiet _ t ht
    split
    · exact quiet _ t ht
    apply idle_call ht (by trivial)
    intro found u hu
    simp only [Prog.ret_bind]
    split
    · exact quiet _ u hu
    split
    · exact quiet _ u hu
    exact claimCheckout_safe e (fun _ _ hv => hv) hu
  refine Prog.Safe.bind (inside.mono fun r t ht => ?_)
  split
  · apply idle_call ht (by trivial)
    intro found u hu
    simp only [Prog.ret_bind, Prog.pure_def]
    split
    · exact hu
    · exact hu
  · exact ht

/-! ### Void and undo -/

/-- What a void leaves: the session that its request has read is owed. -/
def VoidOwes (i : ℕ) (invoice : Invoice) (r : Except Unit Bool) (w : World) : Prop :=
  match r with
  | .ok true => Owing i invoice.stripeCheckoutSessionId w
  | _ => Idle i w

theorem voidTransaction_safe (invoice : Invoice) (voidedAt : Time) (h : Idle i w) :
    Safe sends i (voidTransaction invoice voidedAt) (VoidOwes i invoice) w := by
  apply transaction_safe
  apply safe_call
  intro t ch hr
  refine ⟨trivial, ?_⟩
  rcases (h.rely hr).claim (.void voidedAt invoice.status) ch with
    ⟨hno, hidle⟩ | ⟨hyes, hv, hl⟩
  · simp only [hno]
    exact .inl ⟨hidle, fun _ hu => hu⟩
  · simp only [hyes]
    apply safe_call
    intro u ch' hu
    have hl := hl.rely hu
    have hl' : Holding i _ _ (u.after i .invoiceAmountPaid ch') := hl.after rfl hl.pending
    refine ⟨trivial, ?_⟩
    simp only [Prog.ret_bind, Prog.pure_def]
    split
    · exact ⟨.inr ⟨_, _, hl'⟩, fun _ hx => hx⟩
    · exact .inr ⟨_, _, hl', .void invoice voidedAt hv, fun _ hx => hx.owing rfl rfl⟩

theorem voidInvoice_safe (invoice : Invoice) (h : Idle i w) :
    Safe sends i (voidInvoice invoice) (fun _ => (custody sends).final i) w := by
  apply idle_call h (by trivial)
  intro voidedAt t ht
  simp only [Prog.ret_bind, Prog.bind_def]
  refine Prog.Safe.bind ((voidTransaction_safe invoice voidedAt ht).mono fun r u hu => ?_)
  split
  · exact Idle.done hu
  · exact Idle.done hu
  · exact Prog.Safe.bind ((retireCheckoutSession_safe hu).mono fun _ _ hv => hv)

theorem archiveInvoice_safe (h : Idle i w) :
    Safe sends i archiveInvoice (fun _ => (custody sends).final i) w := by
  apply idle_call h (by trivial)
  intro invoice t ht
  simp only [Prog.ret_bind, Prog.pure_def]
  split
  · exact ht.done
  · exact voidInvoice_safe invoice ht

theorem undoVoid_safe (h : Idle i w) : Safe sends i undoVoid (fun _ => Idle i) w := by
  apply transaction_safe
  apply idle_call h (by trivial)
  intro invoice t ht
  simp only [Prog.ret_bind, Prog.bind_def]
  apply idle_call ht (by trivial)
  intro now u hu
  simp only [Prog.ret_bind]
  split
  · exact ⟨.inl hu, fun _ hv => hv⟩
  · rename_i hcheck
    apply safe_call
    intro v ch hv
    refine ⟨trivial, ?_⟩
    rcases (hu.rely hv).claim (.undoVoid invoice) ch with
      ⟨hno, hidle⟩ | ⟨hyes, hseen, hl⟩
    · simp only [hno]
      exact ⟨.inl hidle, fun _ hx => hx⟩
    · simp only [hyes]
      obtain rfl : v.1.committed.invoice = invoice := by simpa [Write.filter] using hseen
      exact .inr ⟨_, _, hl, .undo hcheck, fun _ hx => hx.idle rfl⟩

/-! ### Checkout links, sending and the overdue job -/

theorem createPaymentLink_safe (config : StripeConfig) (invoice : Invoice) (balanceDue : ℚ)
    (h : Idle i w) :
    Safe sends i (createPaymentLink config invoice balanceDue) (fun r t => Idle i t ∧
      ∀ created, r = .ok created → created.data.attempt = invoice.stripeCheckoutAttempt + 1) w := by
  unfold createPaymentLink
  split
  · exact ⟨h, by simp⟩
  · apply idle_call h (by trivial)
    intro session t ht
    cases session with
    | none => exact ⟨ht, by simp⟩
    | some session =>
      refine ⟨ht, fun created hc => ?_⟩
      cases hc
      rfl

theorem checkoutRounds_safe (config : StripeConfig) (now : Time) (rounds : ℕ) (invoice : Invoice)
    (balanceDue : ℚ) (h : Idle i w) :
    Safe sends i (checkoutRounds config now rounds invoice balanceDue) (fun _ => Idle i) w := by
  induction rounds generalizing invoice balanceDue w with
  | zero => exact h
  | succ rounds ih =>
    unfold checkoutRounds
    split
    · exact h
    split
    · exact h
    split
    · exact h
    · refine Prog.Safe.bind ((createPaymentLink_safe config invoice balanceDue h).mono
        fun r t ht => ?_)
      obtain ⟨ht, hattempt⟩ := ht
      split
      · exact ht
      rename_i created
      apply idle_call ht (by exact ⟨rfl, hattempt created rfl⟩)
      intro count u hu
      simp only [Prog.ret_bind, Prog.bind_def, Prog.pure_def]
      split
      · exact hu
      apply idle_call hu (by trivial)
      intro fresh v hv
      simp only [Prog.ret_bind]
      split
      · exact hv
      apply idle_call hv (by trivial)
      intro _ x hx
      exact idle_call hx trivial fun _ y hy => ih fresh _ hy

theorem paymentLink_safe (config : StripeConfig) (h : Idle i w) :
    Safe sends i (paymentLink config) (fun _ => Idle i) w := by
  apply idle_call h (by trivial)
  intro invoice t ht
  simp only [Prog.ret_bind, Prog.pure_def]
  split
  · exact ht
  · apply idle_call ht (by trivial)
    intro now u hu
    exact idle_call hu trivial fun _ v hv => checkoutRounds_safe config now _ invoice _ hv

theorem sendDraftInvoice_safe (config : StripeConfig) (hsends : sends) (h : Idle i w) :
    Safe sends i (sendDraftInvoice config) (fun _ => Idle i) w := by
  apply idle_call h (by trivial)
  intro invoice t ht
  simp only [Prog.ret_bind, Prog.bind_def, Prog.pure_def]
  split
  · exact ht
  apply idle_call ht (by trivial)
  intro token t₁ h₁
  apply idle_call h₁ (by trivial)
  intro sentAt t₂ h₂
  apply idle_call h₂ (by exact ⟨rfl, hsends⟩)
  intro count t₃ h₃
  simp only [Prog.ret_bind, Prog.pure_def]
  split
  · exact h₃
  apply idle_call h₃ (by trivial)
  intro paid t₄ h₄
  simp only [Prog.ret_bind, Prog.pure_def]
  refine Prog.Safe.bind ((createPaymentLink_safe config _ _ h₄).mono fun created t₅ h₅ => ?_)
  apply idle_call h₅.1 (by trivial)
  intro _ t₆ h₆
  exact idle_call h₆ ⟨rfl, hsends⟩ fun _ _ h₇ => h₇

theorem processOverdueInvoice_safe (h : Idle i w) :
    Safe sends i processOverdueInvoice (fun _ => Idle i) w := by
  apply idle_call h (by trivial)
  intro invoice t ht
  simp only [Prog.ret_bind, Prog.bind_def, Prog.pure_def]
  split
  · rename_i hst
    exact idle_call ht ⟨rfl, hst⟩ fun _ _ hu => hu
  · exact ht

theorem Deployed.safe {config : StripeConfig} {p : Prog Stmt Unit}
    (h : Deployed config sends p) (hw : (custody sends).fresh i w) :
    Safe sends i p (fun _ => (custody sends).final i) w := by
  have hidle : Idle i w := ⟨hw.1, by simp [hw.2, Quiet]⟩
  cases h with
  | markPaid input => exact Prog.Safe.bind ((markPaid_safe input hidle).mono fun _ _ h => h)
  | checkoutCompleted e =>
    exact Prog.Safe.bind ((recordCompletedCheckout_safe e hidle).mono fun _ _ h => Idle.done h)
  | archiveInvoice => exact Prog.Safe.bind ((archiveInvoice_safe hidle).mono fun _ _ h => h)
  | undoVoid => exact Prog.Safe.bind ((undoVoid_safe hidle).mono fun _ _ h => Idle.done h)
  | paymentLink =>
    refine Prog.Safe.bind ((paymentLink_safe config hidle).mono fun _ _ h => ?_)
    exact idle_call h trivial fun _ _ ht => Idle.done ht
  | processOverdueInvoice =>
    exact Prog.Safe.bind ((processOverdueInvoice_safe hidle).mono fun _ _ h => Idle.done h)
  | sendDraftInvoice hsends =>
    exact Prog.Safe.bind ((sendDraftInvoice_safe config hsends hidle).mono fun _ _ h => Idle.done h)

/-! ### Runs of a deployment -/

variable {config : StripeConfig} {s₀ : Store} {tr : List (Occurrence machine)}
  {d : Config machine}

theorem run_custody (h : Run (Deployed config sends) s₀ tr d) (h₀ : s₀.locked = none) :
    (∀ o ∈ tr, Promised sends o.thread o.stmt o.pre) ∧
    ∀ i, d.threads[i]? = some (.ret ()) → Closed (marksOf mark tr i) := by
  obtain ⟨tr', ht, hr⟩ := h.logged mark
  obtain ⟨hc, ho⟩ := Run.holds (K := custody sends) (fun p hp i s _ hs => hp.safe hs) trivial
    (fun i => ⟨by simp [Store.heldBy, h₀], rfl⟩) hr fun _ _ => trivial
  refine ⟨fun o hmem => ?_, fun i hi => (hc.final hi).2⟩
  rw [← ht] at hmem
  obtain ⟨o', ho', rfl⟩ := List.mem_map.mp hmem
  exact (ho o' ho').2.guar

/-- What each statement of a run does to the committed rows. -/
theorem run_change (h : Run (Deployed config sends) s₀ tr d) (h₀ : s₀.locked = none)
    {o : Occurrence machine} (ho : o ∈ tr) : Change sends o.thread o.pre o.stmt o.post :=
  exec_change ((run_custody h h₀).1 o ho)

end Ashbi.Invoicing

import Ashbi.Invoicing.Safety

/-! The attempt counter and the stored link of an invoice. -/

namespace Ashbi.Invoicing

open Interleaving

/-- The committed attempt counter. -/
def Store.attempt (s : Store) : ℕ := s.committed.invoice.stripeCheckoutAttempt

/-- A paid or void invoice has no stored link. -/
def NoDeadLink (s : Store) : Prop :=
  s.committed.invoice.status = .paid ∨ s.committed.invoice.status = .void →
    s.committed.invoice.stripePaymentLink = none

instance (s : Store) : Decidable (NoDeadLink s) := inferInstanceAs (Decidable (_ → _))

/-- A send stores its session while the invoice is open and no attempt went beyond its own. -/
def FinishesInTime {β : Type} (st : Stmt β) (s : Store) : Prop :=
  match st with
  | .updateMany false (.finishSend (some data)) =>
    s.committed.invoice.status ≠ .paid ∧ s.committed.invoice.status ≠ .void ∧
      s.attempt ≤ data.attempt
  | _ => True

variable {config : StripeConfig} {sends : Prop} {s₀ : Store} {tr : List (Occurrence machine)}
  {d : Config machine} {β : Type} {i : ℕ} {s t : Store}

/-- What each statement does to the counter and the link. -/
structure LinkStep (s t : Store) : Prop where
  attempt : s.attempt ≤ t.attempt
  link : NoDeadLink s → NoDeadLink t

theorem LinkStep.same (h : t.committed.invoice = s.committed.invoice) : LinkStep s t :=
  ⟨by simp [Store.attempt, h], by simp [NoDeadLink, h]⟩

/-- The link is gone and the counter has not fallen. -/
theorem LinkStep.cleared (ha : s.attempt ≤ t.attempt)
    (hl : t.committed.invoice.stripePaymentLink = none) : LinkStep s t := ⟨ha, fun _ _ => hl⟩

/-- The invoice is open after the step. -/
theorem LinkStep.open (ha : s.attempt ≤ t.attempt)
    (hs : t.committed.invoice.status ≠ .paid ∧ t.committed.invoice.status ≠ .void) :
    LinkStep s t := ⟨ha, fun _ h => (h.elim hs.1 hs.2).elim⟩

theorem Moves.linkStep {op : Operation} {l : Ledger} (hm : Moves op s.committed l)
    (ht : t.committed = l) : LinkStep s t := by
  cases hm with
  | same => exact .same (by rw [ht])
  | pay hop hopen source method paidAt fullyPaid p outbox =>
    apply LinkStep.cleared
    · simp only [Store.attempt, ht]
      cases source <;> cases fullyPaid <;> exact Nat.le_succ _
    · rw [ht]
      cases source <;> cases fullyPaid <;> rfl
  | payLinked hopen source method paidAt sessionId p outbox =>
    apply LinkStep.cleared
    · simp only [Store.attempt, ht]
      cases source <;> exact Nat.le_succ _
    · rw [ht]
      cases source <;> rfl
  | void seen voidedAt hv =>
    apply LinkStep.cleared
    · simp [Store.attempt, ht, Write.data, Invoice.clearCheckout]
    · simp [ht, Write.data, Invoice.clearCheckout]
  | undo hc =>
    obtain ⟨hvoid, status, hfrom, hv, -⟩ := undoVoidCheck_ok hc
    apply LinkStep.open
    · simp [Store.attempt, ht, Write.data]
    · simpa [ht, Write.data, hfrom] using voidable_open hv

theorem Write.linkStep {w : Write} (hp : w.Promised sends)
    (hf : w.filter s.committed.invoice = true)
    (ht : t.committed = { s.committed with invoice := w.data s.committed.invoice })
    (hr : FinishesInTime (.updateMany false w) s) : LinkStep s t := by
  cases w with
  | send sentAt viewToken =>
    apply LinkStep.open <;> simp [Store.attempt, ht, Write.data]
  | finishSend checkout =>
    cases checkout with
    | none => exact .same (by simp [ht, Write.data])
    | some data =>
      obtain ⟨hpaid, hvoid, hattempt⟩ := hr
      apply LinkStep.open
      · simpa [Store.attempt, ht, Write.data, Invoice.storeCheckout] using hattempt
      · simpa [ht, Write.data, Invoice.storeCheckout] using ⟨hpaid, hvoid⟩
  | storeCheckout attempt data =>
    simp only [Write.filter, Bool.and_eq_true, decide_eq_true_eq] at hf
    obtain ⟨hpaid, hvoid, -⟩ := payable_not_paid hf.1
    have hnext : data.attempt = attempt + 1 := hp
    apply LinkStep.open
    · simp only [Store.attempt, ht, Write.data, Invoice.storeCheckout]
      omega
    · simpa [ht, Write.data, Invoice.storeCheckout] using ⟨hpaid, hvoid⟩
  | markOverdue status =>
    apply LinkStep.open <;> simp [Store.attempt, ht, Write.data]
  | _ => exact hp.elim

theorem Change.linkStep {st : Stmt β} (h : Change sends i s st t) (hr : FinishesInTime st s) :
    LinkStep s t := by
  cases h with
  | same _ h => exact .same (by rw [h])
  | write w hp hf h => exact Write.linkStep hp hf h hr
  | commit op _ hm h => exact hm.linkStep h

/-- A send that keeps the law has stored its session in time. -/
theorem Promised.inTime {o : Occurrence machine} (hp : Promised sends o.thread o.stmt o.pre)
    (ha : o.pre.attempt ≤ o.post.attempt) (hl : NoDeadLink o.post) :
    FinishesInTime o.stmt o.pre := by
  obtain ⟨i, st, ch, s⟩ := o
  cases st with
  | updateMany tx w =>
    cases tx with
    | true => trivial
    | false =>
      cases w with
      | finishSend checkout =>
        cases checkout with
        | none => trivial
        | some data =>
          have hpost :
              (exec i (.updateMany false (.finishSend (some data))) ch s).2.committed.invoice =
                s.committed.invoice.storeCheckout data := by
            have hview : s.view i = s.committed := view_idle hp.2
            simp [exec, Store.updateMany, Write.filter, Write.data, Store.write, hview]
          have hopen : ¬ (s.committed.invoice.status = .paid ∨
            s.committed.invoice.status = .void) := by
            intro hdead
            have hnone := hl (by
              simpa [Occurrence.post, machine, hpost, Invoice.storeCheckout] using hdead)
            simp [Occurrence.post, machine, hpost, Invoice.storeCheckout] at hnone
          refine ⟨fun h => hopen (.inl h), fun h => hopen (.inr h), ?_⟩
          simpa [Store.attempt, Occurrence.post, machine, hpost, Invoice.storeCheckout] using ha
      | _ => trivial
  | _ => trivial

/-- The counter never falls and a paid or void invoice never has a link, exactly
when every send stores its session in time. -/
theorem checkout_link (h : Run (Deployed config sends) s₀ tr d) (h₀ : s₀.locked = none)
    (hs : NoDeadLink s₀) :
    ((∀ o ∈ tr, o.pre.attempt ≤ o.post.attempt) ∧ ∀ o ∈ tr, NoDeadLink o.post) ↔
      ∀ o ∈ tr, FinishesInTime o.stmt o.pre := by
  constructor
  · intro ⟨hattempt, hlink⟩ o ho
    exact ((run_custody h h₀).1 o ho).inTime (hattempt o ho) (hlink o ho)
  · intro hr
    have hstep : ∀ o ∈ tr, LinkStep o.pre o.post :=
      fun o ho => (run_change h h₀ ho).linkStep (hr o ho)
    have hall := (Run.invariant NoDeadLink h (fun o ho => (hstep o ho).link) hs).2
    exact ⟨fun o ho => (hstep o ho).attempt, fun o ho => (hstep o ho).link (hall o ho)⟩

/-! ### Samples: a send with Stripe, and two manual payments -/

def sampleStripe : StripeConfig := ⟨true, "https://app", fun _ => ""⟩

def sampleSession : Session := ⟨"cs-1", "https://pay/cs-1", none, 0, "", some 86400000⟩

def samplePayers : List (Prog machine.Stmt Unit) :=
  [(sendDraftInvoice sampleStripe).bind fun _ => .ret (),
    (markPaid ⟨some 40, "BANK", 1, none, none⟩).bind fun _ => .ret (),
    (markPaid ⟨some 60, "BANK", 2, none, none⟩).bind fun _ => .ret ()]

theorem samplePayers_deployed : ∀ p ∈ samplePayers, Deployed sampleStripe True p :=
  List.forall_mem_cons.mpr ⟨.sendDraftInvoice trivial, List.forall_mem_cons.mpr
    ⟨.markPaid _, List.forall_mem_singleton.mpr (.markPaid _)⟩⟩

def stripeChoice : Choice := { sampleChoice with session := some sampleSession }

/-- Thread `i` moves `n` times; Stripe answers. -/
def stripeTurns (i n : ℕ) : List (ℕ × Choice) := List.replicate n (i, stripeChoice)

theorem checkout_link_sample : ∃ (tr : List (Occurrence machine)) (d : Config machine),
    Run (Deployed sampleStripe True) sampleStart tr d ∧
    d.state.committed.invoice.status = .paid ∧ d.state.attempt = 3 ∧
    ∀ o ∈ tr, FinishesInTime o.stmt o.pre := by
  have hrun : Run (M := machine) (Deployed sampleStripe True) sampleStart _ _ :=
    Run.of_schedule (M := machine) samplePayers
    samplePayers_deployed (stripeTurns 0 8 ++ stripeTurns 1 7 ++ stripeTurns 2 8)
  have hlaw := (checkout_link hrun rfl (by decide)).mp ⟨by decide +kernel, by decide +kernel⟩
  exact ⟨_, _, hrun, by decide +kernel, by decide +kernel, hlaw⟩

/-- Both payments commit before the send stores its session: the paid invoice
gets a link, and the counter falls from 2 to 1. -/
theorem checkout_link_race : ∃ (tr : List (Occurrence machine)) (d : Config machine),
    Run (Deployed sampleStripe True) sampleStart tr d ∧
    (∃ o ∈ tr, o.post.attempt < o.pre.attempt) ∧ ¬ NoDeadLink d.state :=
  ⟨_, _, Run.of_schedule (M := machine) samplePayers samplePayers_deployed
    (stripeTurns 0 6 ++ stripeTurns 1 7 ++ stripeTurns 2 8 ++ stripeTurns 0 2),
    by decide +kernel, by decide +kernel⟩

end Ashbi.Invoicing

import Ashbi.Invoicing.Overlap

/-! Stored Checkout sessions ask for the balance of the rows they are stored into, and concurrent
payment links share them. -/

namespace Ashbi.Invoicing

open Interleaving

variable {config : StripeConfig} {s₀ : Store} {tr : List (Occurrence machine)} {d : Config machine}

/-! ### At most three rounds -/

theorem checkoutRounds_creates (now : Time) (rounds : ℕ) (invoice : Invoice) (balanceDue : ℚ) :
    (checkoutRounds config now rounds invoice balanceDue).AtMost Stmt.creates rounds := by
  induction rounds generalizing invoice balanceDue with
  | zero => trivial
  | succ rounds ih =>
    have link : (createPaymentLink config invoice balanceDue).AtMost Stmt.creates 1 := by
      unfold createPaymentLink
      split
      · trivial
      · apply Prog.atMost_call_succ rfl
        intro session
        cases session <;> trivial
    unfold checkoutRounds
    split
    · trivial
    split
    · trivial
    split
    · trivial
    rw [Nat.add_comm]
    apply Prog.AtMost.bind link
    intro result
    cases result with
    | error e => trivial
    | ok created =>
      apply Prog.atMost_call rfl
      intro count
      simp only [Prog.ret_bind, Prog.bind_def, Prog.pure_def]
      split
      · trivial
      apply Prog.atMost_call rfl
      intro fresh
      simp only [Prog.ret_bind]
      split
      · trivial
      apply Prog.atMost_call rfl
      intro _
      exact Prog.atMost_call rfl fun _ => ih _ _

theorem Deployed.creates {p : Prog Stmt Unit} (h : Deployed config False p) :
    p.AtMost Stmt.creates checkoutStoreAttempts := by
  have creates_pricing : ∀ {β : Type} (st : Stmt β), st.creates = true →
    Invoicing.pricing st = true := by
    intro β st hst
    cases st <;> first | rfl | cases hst
  rcases h.pricing with hother | rfl
  · exact (Prog.AtMost.imp hother creates_pricing).mono (Nat.zero_le _)
  · have link : (Invoicing.paymentLink config).AtMost Stmt.creates checkoutStoreAttempts := by
      apply Prog.atMost_call rfl
      intro invoice
      simp only [Prog.ret_bind, Prog.pure_def]
      split
      · trivial
      apply Prog.atMost_call rfl
      intro now
      exact Prog.atMost_call rfl fun _ => checkoutRounds_creates now _ _ _
    have reply : ∀ r, (Prog.stmt (Stmt.reply r)).AtMost Stmt.creates 0 :=
      fun r => Prog.atMost_call rfl fun _ => trivial
    exact (Prog.AtMost.bind link reply).mono (Nat.le_refl _)

/-- A session is stored only while it asks for the balance of the invoice; a finished call has
stored every session that it created, seen it on the invoice or had it expired; no call creates more
than three. Two calls that ask Stripe at one price reply with one session, unless the stored session
is changed between their stores or before the later one has read the invoice back, and so do two
calls that reuse the stored session. -/
theorem price_freshness (h : Run (Deployed config False) s₀ tr d) (h₀ : s₀.locked = none)
    (hs : Priced s₀) :
    (∀ o ∈ tr, ∀ attempt data, Stmt.storesCheckout o.stmt = some (attempt, data) →
      (Write.storeCheckout attempt data).filter o.pre.committed.invoice = true →
      AsksBalance data o.pre) ∧
    (∀ (k : ℕ) (o : Occurrence machine), tr[k]? = some o → d.done o.thread = true →
      ∀ key session, .created key session ∈ note o →
      ∃ o' ∈ tr.drop (k + 1), o'.thread = o.thread ∧ ∃ m ∈ note o', m.settles session.id) ∧
    (∀ before first between second waiting readBack after attempt data,
      tr = before ++ first :: (between ++ second :: (waiting ++ readBack :: after)) →
      Overlap before first between second waiting readBack attempt data →
      ∀ o ∈ tr, o.thread = first.thread ∨ o.thread = second.thread →
      ∀ reply, Stmt.replies o.stmt = some reply → reply = .link data.paymentLink false) ∧
    (∀ front o back front' o' back' url url', tr = front ++ o :: back →
      tr = front' ++ o' :: back' → Stmt.replies o.stmt = some (.link url true) →
      Stmt.replies o'.stmt = some (.link url' true) →
      priceRead (factsOf front' o'.thread) = priceRead (factsOf front o.thread) → url' = url) ∧
    ∀ i, countOf Stmt.creates tr i ≤ 3 := by
  obtain ⟨hfresh, hfinal⟩ := run_freshness h h₀ hs
  refine ⟨?_, ?_, ?_, ?_, ?_⟩
  · intro o ho attempt data hst hf
    obtain ⟨notes, -, hfr⟩ := hfresh o ho
    simp only [Write.filter, Bool.and_eq_true, decide_eq_true_eq] at hf
    exact fresh_store hfr hst hf.2
  · intro k o hk hdone key session hn
    have haccounted := hfinal _ hdone
    rw [marksOf_split hk, (created_note hn).1] at haccounted
    obtain ⟨m, hm, hsettles⟩ := haccounted.settled
    obtain ⟨o', ho', hthread, hm⟩ := mem_marksOf.mp hm
    exact ⟨o', ho', hthread, m, hm, hsettles⟩
  · intro before first between second waiting readBack after attempt data htr hov o ho hthread
      reply hreply
    exact hov.reply h h₀ hs htr ho hthread hreply
  · intro front o back front' o' back' url url' htr htr' hreply hreply' hprice
    exact reused_link h h₀ htr htr' hreply hreply' hprice
  · exact Run.atMost (fun p hp => hp.creates) h

/-! ### Samples: link requests, and a payment of 40 -/

def sampleLinks : List (Prog machine.Stmt Unit) :=
  [(paymentLink sampleStripe).bind fun reply => .stmt (.reply reply),
    (paymentLink sampleStripe).bind fun reply => .stmt (.reply reply),
    (markPaid ⟨some 40, "BANK", 1, none, none⟩).bind fun _ => .ret ()]

theorem sampleLinks_deployed : ∀ p ∈ sampleLinks, Deployed sampleStripe False p :=
  List.forall_mem_cons.mpr ⟨.paymentLink, List.forall_mem_cons.mpr
    ⟨.paymentLink, List.forall_mem_singleton.mpr (.markPaid _)⟩⟩

/-- Thread `i` moves `n` times; a new session would be the second one. -/
def otherTurns (i n : ℕ) (time : Time) : List (ℕ × Choice) :=
  List.replicate n (i, { stripeChoice with
    time := time
    session := some { sampleSession with id := "cs-2", url := "https://pay/cs-2" } })

/-- Both requests ask Stripe before the first stores its session; the payment waits. -/
def overlapSchedule : List (ℕ × Choice) :=
  stripeTurns 0 3 ++ otherTurns 1 3 0 ++ stripeTurns 0 1 ++ otherTurns 1 1 0 ++ stripeTurns 0 1 ++
    stripeTurns 2 1 ++ otherTurns 1 1 0 ++ stripeTurns 0 1 ++ otherTurns 1 2 0

def overlapTrace : List (Occurrence machine) :=
  Config.played (M := machine) ⟨sampleOpen, sampleLinks⟩ overlapSchedule

theorem overlapTrace_length : overlapTrace.length = 14 := by decide +kernel

/-- What both requests try to store. -/
def overlapData : CheckoutData :=
  ⟨"https://pay/cs-1", "cs-1", none, 10000, "cad", some 86400000, 1⟩

theorem split_at {α : Type 1} {k : ℕ} (xs : List α) (h : k < xs.length) :
    xs.take k ++ xs.get ⟨k, h⟩ :: xs.drop (k + 1) = xs := by
  rw [List.get_eq_getElem, List.getElem_cons_drop, List.take_append_drop]

theorem price_freshness_sample :
    (∀ o ∈ overlapTrace, o.thread = 0 ∨ o.thread = 1 → ∀ reply, Stmt.replies o.stmt = some reply →
      reply = .link "https://pay/cs-1" false) ∧
    (overlapTrace.filter fun o => (Stmt.replies o.stmt).isSome).map (·.thread) = [0, 1] ∧
    countOf Stmt.creates overlapTrace 1 ≤ 3 := by
  have hrun : Run (M := machine) (Deployed sampleStripe False) sampleOpen overlapTrace _ :=
    Run.of_schedule (M := machine) sampleLinks sampleLinks_deployed overlapSchedule
  obtain ⟨-, -, hreply, -, hcount⟩ :=
    price_freshness hrun rfl (by simp [Priced, sampleOpen, Store.settled])
  refine ⟨?_, by decide +kernel, hcount 1⟩
  have hsplit := split_at (k := 8) overlapTrace (by simp [overlapTrace_length])
  rw [← split_at (k := 1) (overlapTrace.drop (8 + 1)) (by simp [overlapTrace_length]),
    ← split_at (k := 1) ((overlapTrace.drop (8 + 1)).drop (1 + 1))
      (by simp [overlapTrace_length])] at hsplit
  have hlinks := hreply _ _ _ _ _ _ _ 0 overlapData hsplit.symm
    { stores := by decide +kernel
      current := by decide +kernel
      tries := by decide +kernel
      price := by decide +kernel
      alone := by decide +kernel
      thread := by decide +kernel
      reads := by decide +kernel
      undisturbed := by decide +kernel }
  refine fun o ho hthread => hlinks o ho (hthread.imp (fun h => h.trans ?_) fun h => h.trans ?_)
  · decide +kernel
  · decide +kernel

/-- Both requests read the invoice; the first stores its session before the payment. -/
def linksSchedule : List (ℕ × Choice) :=
  stripeTurns 0 3 ++ otherTurns 1 3 0 ++ stripeTurns 0 3 ++ stripeTurns 2 8 ++ otherTurns 1 8 0

/-- The first thing that thread `i` sees. -/
def firstOf {γ : Type} (seen : Occurrence machine → Option γ) (tr : List (Occurrence machine))
    (i : ℕ) : Option γ := (tr.filter (·.thread = i)).findSome? seen

def Stmt.seesAttempt {β : Type} (st : Stmt β) (l : Ledger) : Option ℕ :=
  match st with
  | .findInvoice => some l.invoice.stripeCheckoutAttempt
  | _ => none

def Stmt.seesBalance {β : Type} (st : Stmt β) (l : Ledger) : Option ℚ :=
  match st with
  | .invoiceAmountPaid => some l.balanceDue
  | _ => none

def seenAttempt (o : Occurrence machine) : Option ℕ :=
  Stmt.seesAttempt o.stmt (o.pre.view o.thread)

def seenBalance (o : Occurrence machine) : Option ℚ :=
  Stmt.seesBalance o.stmt (o.pre.view o.thread)

def seenReply (o : Occurrence machine) : Option CheckoutReply := Stmt.replies o.stmt

/-- The open invoice with a stored session. -/
def sampleLinked : Invoice := { sampleDraft with status := .sent }.storeCheckout overlapData

/-- Both requests have read the same attempt and balance, yet the second one
finds its session outdated by the payment and replies with another. And of two requests that have
read the same invoice, only the earlier one finds its session reusable. -/
theorem same_read_other_link :
    (¬ ∀ (tr : List (Occurrence machine)) (d : Config machine),
      Run (Deployed sampleStripe False) sampleOpen tr d → ∀ i j : ℕ,
      firstOf seenAttempt tr i = firstOf seenAttempt tr j →
      firstOf seenBalance tr i = firstOf seenBalance tr j →
      ∀ u v a b, firstOf seenReply tr i = some (.link u a) →
        firstOf seenReply tr j = some (.link v b) → u = v) ∧
    reusableCheckoutLink sampleLinked 100 0 = some "https://pay/cs-1" ∧
    reusableCheckoutLink sampleLinked 100 86300000 = none := by
  refine ⟨fun hclaim => ?_, ?_, ?_⟩
  · have hrun : Run (M := machine) (Deployed sampleStripe False) sampleOpen _ _ :=
      Run.of_schedule (M := machine) sampleLinks sampleLinks_deployed linksSchedule
    have hsame := hclaim _ _ hrun 0 1 (by decide +kernel) (by decide +kernel)
      "https://pay/cs-1" "https://pay/cs-2" false false (by decide +kernel) (by decide +kernel)
    exact absurd hsame (by decide)
  · decide +kernel
  · decide +kernel

end Ashbi.Invoicing

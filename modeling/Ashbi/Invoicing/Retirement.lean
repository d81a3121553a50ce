import Ashbi.Invoicing.CheckoutLink

/-! Which Checkout sessions a void and a manual payment retire. -/

namespace Ashbi.Invoicing

open Interleaving

/-- The operation that the statement commits. -/
def Stmt.commits {β : Type} : Stmt β → Option Operation
  | .commit op => some op
  | _ => none

/-- The session that the statement asks Stripe to expire. -/
def Stmt.expires {β : Type} : Stmt β → Option String
  | .expireSession sessionId => some sessionId
  | _ => none

/-- The session that a void or a manual payment retires when `stored` was on the
row: a manual payment the one on the row, a void the one that its request has read. -/
def Operation.retires (op : Operation) (stored : Option String) : Option (Option String) :=
  match op with
  | .recordManualPayment => some stored
  | .voidInvoice seen => some seen.stripeCheckoutSessionId
  | _ => none

variable {config : StripeConfig} {sends : Prop} {s₀ : Store} {tr : List (Occurrence machine)}
  {d : Config machine} {β : Type} {i : ℕ} {s : Store} {o : Occurrence machine}

theorem expired_mem_markOf {x : String} (st : Stmt β) :
    .expired x ∈ markOf i st s ↔ st.expires = some x := by
  cases st with
  | commit op =>
    simp only [markOf, Stmt.expires]
    cases op <;> split <;> simp [Operation.marks]
  | expireSession sessionId =>
    simp [markOf, Stmt.expires, eq_comm]
  | _ => simp [markOf, Stmt.expires]

theorem mark_commit {op : Operation} (hop : Stmt.commits o.stmt = some op)
    (hheld : o.pre.heldBy o.thread = true) : mark o = op.marks o.pre.committed := by
  obtain ⟨i, st, ch, s⟩ := o
  cases st with
  | commit op' =>
    obtain rfl : op' = op := Option.some.inj hop
    exact if_pos hheld
  | _ => cases hop

theorem marks_retires {op : Operation} {c : Ledger} {owed : Option String}
    (h : op.retires c.invoice.stripeCheckoutSessionId = some owed) :
    ∃ m, op.marks c = [m] ∧ m.owes = some owed := by
  cases op with
  | recordManualPayment => exact ⟨_, rfl, h⟩
  | voidInvoice seen => exact ⟨_, rfl, h⟩
  | _ => cases h

/-- After the statement at position `k`, its thread has `x` expired. -/
def ExpiresAfter (tr : List (Occurrence machine)) (k i : ℕ) (x : String) : Prop :=
  ∃ o ∈ tr.drop (k + 1), o.thread = i ∧ Stmt.expires o.stmt = some x

instance (tr : List (Occurrence machine)) (k i : ℕ) (x : String) :
    Decidable (ExpiresAfter tr k i x) :=
  inferInstanceAs (Decidable (∃ o ∈ _, _ ∧ _))

theorem expiresAfter_iff {k : ℕ} {x : String} :
    ExpiresAfter tr k i x ↔ .expired x ∈ marksOf mark (tr.drop (k + 1)) i := by
  simp only [ExpiresAfter, mem_marksOf, mark, expired_mem_markOf]

/-- Once its thread is done, an operation that committed has had expired just
the session that it retires. -/
theorem expiresAfter_retires (h : Run (Deployed config sends) s₀ tr d) (h₀ : s₀.locked = none)
    {k : ℕ} (hk : tr[k]? = some o) {op : Operation} (hop : Stmt.commits o.stmt = some op)
    (hheld : o.pre.heldBy o.thread = true) (hdone : d.done o.thread = true)
    {owed : Option String}
    (howed : op.retires o.pre.committed.invoice.stripeCheckoutSessionId = some owed) (x : String) :
    ExpiresAfter tr k o.thread x ↔ owed = some x := by
  obtain ⟨m, hmarks, ho⟩ := marks_retires howed
  have hclosed := (run_custody h h₀).2 _ (Config.done_iff.mp hdone)
  rw [marksOf_split hk, mark_commit hop hheld, hmarks] at hclosed
  have hrest : marksOf mark (tr.drop (k + 1)) o.thread = owed.toList.map .expired :=
    hclosed.retired ho
  rw [expiresAfter_iff, hrest]
  cases owed <;> simp [eq_comm]

/-- A finished manual payment that committed with session `x` on the row has had
`x` expired; a finished void has, exactly if its request has read `x`. -/
theorem session_retired (h : Run (Deployed config sends) s₀ tr d) (h₀ : s₀.locked = none)
    {k : ℕ} (hk : tr[k]? = some o) (hheld : o.pre.heldBy o.thread = true)
    (hdone : d.done o.thread = true) {x : String}
    (hx : o.pre.committed.invoice.stripeCheckoutSessionId = some x) :
    (Stmt.commits o.stmt = some .recordManualPayment → ExpiresAfter tr k o.thread x) ∧
    ∀ seen, Stmt.commits o.stmt = some (.voidInvoice seen) →
      (ExpiresAfter tr k o.thread x ↔ seen.stripeCheckoutSessionId = some x) := by
  refine ⟨fun hop => ?_, fun seen hop => ?_⟩
  · exact (expiresAfter_retires h h₀ hk hop hheld hdone rfl x).mpr hx
  · exact expiresAfter_retires h h₀ hk hop hheld hdone rfl x

/-! ### Samples: a payment link, and a void or a payment -/

def sampleRetirers : List (Prog machine.Stmt Unit) :=
  [(paymentLink sampleStripe).bind fun reply => .stmt (.reply reply),
    (markPaid ⟨some 40, "BANK", 1, none, none⟩).bind fun _ => .ret (),
    archiveInvoice.bind fun _ => .ret ()]

theorem sampleRetirers_deployed : ∀ p ∈ sampleRetirers, Deployed sampleStripe True p :=
  List.forall_mem_cons.mpr ⟨.paymentLink, List.forall_mem_cons.mpr
    ⟨.markPaid _, List.forall_mem_singleton.mpr .archiveInvoice⟩⟩

/-- What the statement at position `k` commits, and for whom. -/
structure Commit where
  thread : ℕ
  op : Option Operation
  held : Bool
  stored : Option String
  deriving DecidableEq

def commitAt (tr : List (Occurrence machine)) (k : ℕ) : Option Commit :=
  tr[k]?.map fun o => ⟨o.thread, Stmt.commits o.stmt, o.pre.heldBy o.thread,
    o.pre.committed.invoice.stripeCheckoutSessionId⟩

theorem session_retired_sample : ∃ (tr : List (Occurrence machine)) (d : Config machine),
    Run (Deployed sampleStripe True) sampleOpen tr d ∧
    commitAt tr 11 = some ⟨1, some .recordManualPayment, true, some "cs-1"⟩ ∧
    ExpiresAfter tr 11 1 "cs-1" := by
  have hrun : Run (M := machine) (Deployed sampleStripe True) sampleOpen _ _ :=
    Run.of_schedule (M := machine) sampleRetirers
    sampleRetirers_deployed (stripeTurns 0 5 ++ stripeTurns 1 8)
  generalize htr : Config.played (M := machine) _ _ = tr at hrun
  generalize hd : Config.play (M := machine) _ _ = d at hrun
  have hcommit : commitAt tr 11 = some ⟨1, some .recordManualPayment, true, some "cs-1"⟩ := by
    rw [← htr]
    decide +kernel
  have hdone : d.done 1 = true := by
    rw [← hd]
    decide +kernel
  obtain ⟨o, hk, ho⟩ := Option.map_eq_some_iff.mp hcommit
  simp only [Commit.mk.injEq] at ho
  obtain ⟨hthread, hop, hheld, hx⟩ := ho
  have hretired := (session_retired hrun rfl hk hheld (hthread ▸ hdone) hx).1 hop
  exact ⟨tr, d, hrun, hcommit, hthread ▸ hretired⟩

/-- The archive request has read the invoice before the link request stores its
session; it voids the invoice and never expires that session. -/
theorem session_retired_race : ∃ (tr : List (Occurrence machine)) (d : Config machine),
    Run (Deployed sampleStripe True) sampleOpen tr d ∧
    commitAt tr 9 = some ⟨2, some (.voidInvoice sampleOpen.committed.invoice), true, some "cs-1"⟩ ∧
    d.done 2 = true ∧ ¬ ExpiresAfter tr 9 2 "cs-1" :=
  ⟨_, _, Run.of_schedule (M := machine) sampleRetirers sampleRetirers_deployed
    (stripeTurns 2 1 ++ stripeTurns 0 5 ++ stripeTurns 2 4),
    by decide +kernel, by decide +kernel, by decide +kernel⟩

end Ashbi.Invoicing

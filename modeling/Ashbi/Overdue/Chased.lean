import Ashbi.Overdue.Job

/-! An overdue invoice is chased once for each stage, for what it owes. -/

namespace Ashbi.Overdue

open Interleaving Invoicing Sql

/-! ### Statuses -/

/-- No void is undone by the statement. -/
def Stmt.undoes : {β : Type} → Stmt β → Bool
  | _, .undoVoid _ => true
  | _, _ => false

section Statuses

variable {totals : ℕ → ℚ} {s : State} {h : List Event} {row next : Invoice}

/-- A row after an update. -/
theorem Ledger.updated (hl : Ledger totals s h) {id : ℕ} {selects : Invoice → Bool}
    {set : Invoice → Invoice} (hrow : row ∈ s.invoices)
    (hnext : next ∈ (s.update id selects set).invoices) (hid : next.id = row.id)
    (hset : ∀ row, (set row).id = row.id) : next = row ∨ next = set row ∧ row.id = id ∧
    selects row = true := by
  rcases Sql.mem_update.mp hnext with ⟨old, hold, hselects, rfl⟩ | ⟨hold, -⟩
  · obtain rfl := row_eq hl.ids hold hrow ((hset old).symm.trans hid)
    rw [Bool.and_eq_true, decide_eq_true_eq] at hselects
    exact .inr ⟨rfl, hselects⟩
  · exact .inl (row_eq hl.ids hold hrow hid)

/-- A payment changes the status of an open invoice at most. -/
theorem Ledger.pay_status (hl : Ledger totals s h) {id : ℕ} {amount : Option ℚ}
    {transactionId : Option String} (hrow : row ∈ s.invoices)
    (hnext : next ∈ (s.pay id amount transactionId).invoices) (hid : next.id = row.id) :
    next.status = row.status ∨ row.status.payable = true := by
  have hsame (hmem : next ∈ s.invoices) : next.status = row.status :=
    congrArg Invoice.status (row_eq hl.ids hmem hrow hid)
  rw [State.pay] at hnext
  cases hfind : s.invoice id with
  | none =>
    rw [hfind] at hnext
    exact .inl (hsame hnext)
  | some invoice =>
    rw [hfind] at hnext
    dsimp only at hnext
    split at hnext
    · exact .inl (hsame hnext)
    · rename_i hpayable
      split at hnext
      · exact .inl (hsame hnext)
      · rcases hl.updated hrow hnext hid (fun _ => rfl) with rfl | ⟨-, rfl, -⟩
        · exact .inl rfl
        · rw [hl.invoice_eq hrow] at hfind
          obtain rfl := Option.some.inj hfind
          right
          simpa using hpayable

/-- What a statement of a deployed program makes of a status. -/
theorem Ledger.exec_status (hl : Ledger totals s h) {β : Type} {st : Stmt β} {choice : Choice}
    {i : ℕ} (hdue : st.due i h) (hrow : row ∈ s.invoices)
    (hnext : next ∈ (exec st choice s).2.invoices) (hid : next.id = row.id) :
    next.status = row.status ∨ row.status.voidable = true ∨
      (row.status = .void ∧ st.undoes = true) := by
  have hsame (hmem : next ∈ s.invoices) : next.status = row.status :=
    congrArg Invoice.status (row_eq hl.ids hmem hrow hid)
  have hopen (hstatus : next.status = row.status ∨ row.status.payable = true) :
      next.status = row.status ∨ row.status.voidable = true ∨
        (row.status = .void ∧ st.undoes = true) :=
    hstatus.imp_right fun hpayable => .inl (by revert hpayable; cases row.status <;> decide)
  cases st with
  | start | findMany | clientEmail | resolveBranding | sendOverdueEmail | findStatus =>
    exact .inl (hsame hnext)
  | markOverdue id status =>
    rcases hl.updated hrow hnext hid (fun _ => rfl) with rfl | ⟨-, -, hselects⟩
    · exact .inl rfl
    · have hstatus : row.status = status := of_decide_eq_true hselects
      have hsent : isSent status = true := hdue
      refine .inr (.inl ?_)
      rw [hstatus]
      revert hsent
      cases status <;> decide
  | claim listed stage now =>
    rcases hl.updated hrow hnext hid (fun _ => by cases stage <;> rfl) with rfl | ⟨rfl, -⟩
    · exact .inl rfl
    · exact .inl (by cases stage <;> rfl)
  | release listed stage now =>
    rcases hl.updated hrow hnext hid (fun _ => by cases stage <;> rfl) with rfl | ⟨rfl, -⟩
    · exact .inl rfl
    · exact .inl (by cases stage <;> rfl)
  | recordManualPayment id amount => exact hopen (hl.pay_status hrow hnext hid)
  | recordCompletedCheckout id transactionId amountTotal =>
    simp only [exec] at hnext
    split at hnext
    · exact hopen (hl.pay_status hrow hnext hid)
    · exact .inl (hsame hnext)
  | voidInvoice id fromStatus =>
    simp only [exec, State.void] at hnext
    split at hnext
    · exact .inl (hsame hnext)
    · rcases hl.updated hrow hnext hid (fun _ => rfl) with rfl | ⟨-, -, hvoidable⟩
      · exact .inl rfl
      · exact .inr (.inl hvoidable)
  | undoVoid id =>
    rcases hl.updated hrow hnext hid (fun _ => rfl) with rfl | ⟨-, -, hundoable⟩
    · exact .inl rfl
    · simp only [Invoice.undoable, Bool.and_eq_true, decide_eq_true_eq] at hundoable
      exact .inr (.inr ⟨hundoable.1.1, rfl⟩)

end Statuses

/-! ### Runs -/

/-- The email that a statement is. -/
def Stmt.email? : {β : Type} → Stmt β → Option (ℕ × Stage × Email)
  | _, .sendOverdueEmail id stage _ email => some (id, stage, email)
  | _, _ => none

/-- The release that a statement is. -/
def Stmt.release? : {β : Type} → Stmt β → Option (Listed × Stage)
  | _, .release listed stage _ => some (listed, stage)
  | _, _ => none

/-- The claims that took a stage. -/
def claimsOf (tr : List (Occurrence machine)) : List Claim := claims (tr.flatMap events)

/-- The stages of an invoice's emails that the provider accepted. -/
def acceptedOf (id : ℕ) (tr : List (Occurrence machine)) : List Stage :=
  accepted id (tr.flatMap events)

/-- How overdue invoices are chased in a run. -/
structure Chased (tr : List (Occurrence machine)) (c : Config machine) : Prop where
  order : ∀ id, (acceptedOf id tr).Sublist [.reminder, .escalation]
  balance : ∀ (k : ℕ) o, tr[k]? = some o → ∀ email ∈ o.stmt.email?,
    ∃ claim ∈ claimsOf (tr.take k), claim.thread = o.thread ∧ claim.id = email.1 ∧
      claim.stage = email.2.1 ∧ claim.found.status.payable = true ∧
      email.2.2.total = balanceDue claim.found.total claim.paid
  released : ∀ o ∈ tr, ∀ release ∈ o.stmt.release?, ∃ row ∈ o.post.invoices,
    row.id = release.1.invoice.id ∧ row.unclaimed release.2
  answered : ∀ i, c.threads[i]? = some (.ret ()) → Answered i (tr.flatMap events)
  closed : ∀ o ∈ tr, ∀ row ∈ o.pre.invoices, ∀ next ∈ o.post.invoices, next.id = row.id →
    (row.status = .paid → next.status = .paid) ∧
    (row.status = .void → o.stmt.undoes = false → next.status = .void)

section Runs

variable {s₀ : State} {tr : List (Occurrence machine)} {c : Config machine}

/-- No stage of an invoice has been claimed. -/
structure State.Unchased (s : State) : Prop where
  ids : (s.invoices.map (·.id)).Nodup
  unclaimed : ∀ row ∈ s.invoices, row.reminderSentAt = none ∧ row.overdueEscalatedAt = none

/-- The totals of the invoices. -/
def State.totals (s : State) (id : ℕ) : ℚ := ((s.invoice id).map (·.total)).getD 0

theorem State.Unchased.ledger (hs : s₀.Unchased) : Ledger s₀.totals s₀ [] where
  ids := hs.ids
  totals row hrow := by
    have hfind : s₀.invoice row.id = some row := (find?_eq_some hs.ids).mpr ⟨hrow, rfl⟩
    rw [State.totals, hfind, Option.map_some, Option.getD_some]
  startedOnce := List.nodup_nil
  started _ h := absurd h List.not_mem_nil
  claimStarted _ h := absurd h List.not_mem_nil
  claimedOnce := List.nodup_nil
  exact _ h := absurd h List.not_mem_nil
  releasedClaimed _ _ h := absurd h List.not_mem_nil
  stacked row hrow := by
    obtain ⟨hreminder, hescalation⟩ := hs.unclaimed row hrow
    rw [hreminder, hescalation]
    exact .empty
  sentOnce := List.nodup_nil
  sentClaimed _ _ _ _ _ _ h := absurd h List.not_mem_nil
  acceptedKept _ _ _ _ _ h := absurd h List.not_mem_nil
  order _ := List.nil_sublist _

/-- An email is about an invoice that was open at its claim, for what it owed then. -/
theorem Ledger.email {totals : ℕ → ℚ} {o : Occurrence machine} {h : List Event}
    (hl : Ledger totals o.pre h) (hdue : o.stmt.due o.thread h) {email : ℕ × Stage × Email}
    (hemail : o.stmt.email? = some email) :
    ∃ claim ∈ claims h, claim.thread = o.thread ∧ claim.id = email.1 ∧ claim.stage = email.2.1 ∧
      claim.found.status.payable = true ∧
      email.2.2.total = balanceDue claim.found.total claim.paid := by
  obtain ⟨i, st, choice, s⟩ := o
  cases st with
  | sendOverdueEmail id stage now mail =>
    obtain rfl := Option.some.inj hemail
    obtain ⟨claim, hclaim, hthread, hid, hstage, htotal⟩ := hdue
    have hexact := hl.exact claim hclaim
    exact ⟨claim, hclaim, hthread, hid, hstage, hexact.status, htotal.trans hexact.balance⟩
  | _ => cases hemail

/-- A release by the thread that holds the claim opens its stage again. -/
theorem Ledger.reopened {totals : ℕ → ℚ} {o : Occurrence machine} {h : List Event}
    (hl : Ledger totals o.pre h) (hdue : o.stmt.due o.thread h) (hclear : Undisturbed o)
    {listed : Listed} {stage : Stage} (hrelease : o.stmt.release? = some (listed, stage)) :
    ∃ row ∈ o.post.invoices, row.id = listed.invoice.id ∧ row.unclaimed stage := by
  obtain ⟨i, st, choice, s⟩ := o
  cases st with
  | release listed' stage' now =>
    obtain ⟨rfl, rfl⟩ := Prod.mk.inj (Option.some.inj hrelease)
    obtain ⟨claim, hclaim, -, rfl, rfl, rfl⟩ := hdue
    obtain ⟨row, hfind, hsent⟩ := hclear
    have hl : Ledger totals s h := hl
    obtain ⟨hrow, hid⟩ := invoice_mem hfind
    obtain ⟨rest, -, hreminder, -⟩ := hl.on_top hclaim hrow hid hsent
    have hset : (row.released claim.listed claim.stage).id = row.id := by
      cases claim.stage <;> rfl
    refine ⟨row.released claim.listed claim.stage, ?_, hset.trans hid, ?_⟩
    · have hmem : row.released claim.listed claim.stage ∈ (s.update row.id
          (·.reminderSentAt = some claim.now) (·.released claim.listed claim.stage)).invoices :=
        (hl.mem_update hrow (by simp [hsent])).mpr (.inl rfl)
      rw [hid] at hmem
      exact hmem
    · cases hstage : claim.stage with
      | reminder => exact (hreminder hstage).2.2
      | escalation => rfl
  | _ => cases hrelease

/-- In every run whose claims find the payments that were listed, whose accepted and released
emails find their claim on the invoice, and whose provider's answers are true: each invoice has
at most one reminder and then at most one escalation accepted; every email is about an invoice
that was open at its claim, for what it owed then; a rejected one leaves its stage open; and an
invoice that is paid or void stays so, but for the undo of a void. -/
theorem chased (hs : s₀.Unchased) (h : Run (M := machine) Deployed s₀ tr c)
    (hclear : ∀ o ∈ tr, Undisturbed o) : Chased tr c := by
  obtain ⟨hend, hall, hfinal, hdue⟩ := (watcher s₀.totals).run
    (fun _ hp _ _ habsent => deployed_safe hp habsent) hs.ledger
    (fun _ e he => absurd he List.not_mem_nil) h hclear
  have hend : Ledger s₀.totals c.state (tr.flatMap events) := hend
  have hat (o) (ho : o ∈ tr) : ∃ history, Ledger s₀.totals o.pre history ∧
      o.stmt.due o.thread history := by
    obtain ⟨k, hk⟩ := List.getElem?_of_mem ho
    exact ⟨_, hall k o hk, hdue k o hk⟩
  refine ⟨hend.order, fun k o ho email hemail => ?_, fun o ho release hrelease => ?_, hfinal,
    fun o ho row hrow next hnext hid => ?_⟩
  · exact (hall k o ho).email (hdue k o ho) hemail
  · obtain ⟨history, hl, hdue⟩ := hat o ho
    exact hl.reopened hdue (hclear o ho) hrelease
  · obtain ⟨history, hl, hdue⟩ := hat o ho
    have hstatus := hl.exec_status hdue hrow hnext hid
    constructor
    · intro hpaid
      rcases hstatus with hsame | hvoidable | ⟨hvoid, -⟩
      · exact hsame.trans hpaid
      · exact absurd hpaid (voidable_open hvoidable).1
      · rw [hpaid] at hvoid
        cases hvoid
    · intro hvoid hundoes
      rcases hstatus with hsame | hvoidable | ⟨-, hundoes'⟩
      · exact hsame.trans hvoid
      · exact absurd hvoid (voidable_open hvoidable).2
      · rw [hundoes] at hundoes'
        cases hundoes'

end Runs

/-! ### One invoice -/

def sampleInvoice : Invoice where
  id := 1
  status := .sent
  total := 100
  dueDate := 0
  clientId := 7
  viewToken := some "token"
  publicAccessRevokedAt := none
  publicAccessExpiresAt := some (90 * dayMs)
  reminderSentAt := none
  overdueEscalatedAt := none
  voidedAt := none
  voidedFromStatus := none

def sampleState : State := ⟨[sampleInvoice], [], []⟩

theorem sampleState_unchased : sampleState.Unchased :=
  ⟨by decide, by decide⟩

/-- A run of the job a day after the due date, a payment, and a run a week later. -/
def samplePrograms : List (Prog Stmt Unit) :=
  [checkOverdueInvoices dayMs 200 1, Prog.stmt (.recordManualPayment 1 (some 40)),
    checkOverdueInvoices (8 * dayMs) 200 1]

theorem samplePrograms_deployed : ∀ p ∈ samplePrograms, Deployed p := by
  intro p hp
  simp only [samplePrograms, List.mem_cons, List.not_mem_nil, or_false] at hp
  rcases hp with rfl | rfl | rfl
  · exact .checkOverdueInvoices dayMs 200 1
  · exact .recordManualPayment 1 (some 40)
  · exact .checkOverdueInvoices (8 * dayMs) 200 1

def sampleChoice : Choice where
  time := 1000
  contact := .ok (some "ann@acme.test")
  branding := .ok ()
  accepted := true
  ok := true
  matched := true

def sampleSchedule (threads : List ℕ) : List (ℕ × Choice) := threads.map (·, sampleChoice)

def sampleStart : Config machine := ⟨sampleState, samplePrograms⟩

theorem sample_run (threads : List ℕ) : Run Deployed sampleState
    (sampleStart.played (sampleSchedule threads)) (sampleStart.play (sampleSchedule threads)) :=
  Run.of_schedule (M := machine) samplePrograms samplePrograms_deployed (sampleSchedule threads)

instance {β : Type} (st : Stmt β) (choice : Choice) (s : State) :
    Decidable (st.undisturbed choice s) := by
  cases st <;> unfold Stmt.undisturbed <;> infer_instance

instance (o : Occurrence machine) : Decidable (Undisturbed o) :=
  inferInstanceAs (Decidable (o.stmt.undisturbed o.choice o.pre))

/-- One after the other: the reminder, the payment, the escalation. -/
theorem chased_sample :
    Chased (sampleStart.played (sampleSchedule [0, 0, 0, 0, 0, 0, 0, 1, 2, 2, 2, 2, 2, 2]))
      (sampleStart.play (sampleSchedule [0, 0, 0, 0, 0, 0, 0, 1, 2, 2, 2, 2, 2, 2])) :=
  chased sampleState_unchased (sample_run [0, 0, 0, 0, 0, 0, 0, 1, 2, 2, 2, 2, 2, 2])
    (by decide +kernel)

/-- The payment comes between the page and the claim; the email asks for what was owed before. -/
theorem asked_before_payment : ¬ ∀ tr c, Run Deployed sampleState tr c → Chased tr c := by
  intro h
  have hbalance := (h _ _ (sample_run [0, 0, 1, 0, 0, 0, 0, 0])).balance 7
  revert hbalance
  decide +kernel

/-- The escalation is accepted while the reminder is on its way. -/
example : acceptedOf 1 (sampleStart.played (sampleSchedule
    [0, 0, 0, 0, 0, 0, 2, 2, 2, 2, 2, 2, 0])) = [.escalation, .reminder] := by
  decide +kernel

end Ashbi.Overdue

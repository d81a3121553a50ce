import Ashbi.Billing.Steps
import Ashbi.Interleaving.Rules

/-! Every transaction of the requests is a step, and so is every commit. -/

namespace Ashbi.Billing

open Deferred Interleaving

/-! ### A preview bills each selected source on one line -/

theorem mapM_ok_map {ε α β γ : Type} {f : α → Except ε β} {g : α → γ} {h : β → γ}
    (hf : ∀ a b, f a = .ok b → h b = g a) {xs : List α} {ys : List β}
    (hm : xs.mapM f = .ok ys) : ys.map h = xs.map g := by
  induction xs generalizing ys with
  | nil =>
    cases hm
    rfl
  | cons x xs ih =>
    rw [List.mapM_cons] at hm
    obtain ⟨y, hy, hm⟩ := except_bind_ok.mp hm
    obtain ⟨rest, hrest, hm⟩ := except_bind_ok.mp hm
    cases hm
    simp [hf x y hy, ih hrest]

theorem observedRow_id {ρ : Type} {id : ρ → String} {updatedAt : ρ → Time} {rows : List ρ}
    {observed : Observed} {row : ρ} (h : observedRow id updatedAt rows observed = .ok row) :
    id row = observed.id := by
  unfold observedRow at h
  split at h
  · cases h
  rename_i found hfound
  split at h
  · cases h
  cases h
  simpa using List.find?_some hfound

theorem selectedTimes_ids {db : Db} {input : Selection} {organizationId : String}
    {times : List (TimeEntry × ObservedTime)}
    (h : selectedTimes db input organizationId = .ok times) :
    times.map (·.1.id) = input.times.map (·.id) := by
  apply mapM_ok_map ?_ h
  intro observed time ht
  obtain ⟨row, hrow, ht⟩ := except_bind_ok.mp ht
  split at ht
  · cases ht
  split at ht
  · cases ht
  cases ht
  exact observedRow_id hrow

theorem selectedExpenses_ids {db : Db} {input : Selection} {organizationId : String}
    {expenses : List Expense} (h : selectedExpenses db input organizationId = .ok expenses) :
    expenses.map (·.id) = input.expenses.map (·.id) := by
  apply mapM_ok_map ?_ h
  intro observed expense he
  obtain ⟨row, hrow, he⟩ := except_bind_ok.mp he
  split at he
  · cases he
  cases he
  exact observedRow_id hrow

theorem invoicePreview_times (input : ValidSelection) (times : List (TimeEntry × ObservedTime))
    (expenses : List Expense) :
    (invoicePreview input times expenses).times.map (·.id) = times.map (·.1.id) := by
  simp [InvoicePreview.times, invoicePreview, Function.comp_def, timeLine, expenseLine, Line.time?]

theorem invoicePreview_expenses (input : ValidSelection) (times : List (TimeEntry × ObservedTime))
    (expenses : List Expense) :
    (invoicePreview input times expenses).expenses.map (·.id) = expenses.map (·.id) := by
  simp [InvoicePreview.expenses, invoicePreview, Function.comp_def, timeLine, expenseLine,
    Line.expense?]

theorem previewUnbilledInvoice_distinct {digests : Digests} {db : Db} {input : Selection}
    {actor : Actor} {preview : ConfirmedPreview}
    (h : previewUnbilledInvoice digests db input actor = .ok preview) :
    preview.toInvoicePreview.Distinct := by
  obtain ⟨valid, -, h⟩ := except_bind_ok.mp h
  obtain ⟨admin, -, h⟩ := except_bind_ok.mp h
  obtain ⟨scope, -, h⟩ := except_bind_ok.mp h
  obtain ⟨times, ht, h⟩ := except_bind_ok.mp h
  obtain ⟨expenses, he, h⟩ := except_bind_ok.mp h
  simp only at h
  split at h
  · cases h
  cases h
  obtain ⟨-, htimes, hexpenses⟩ := Selection.valid valid.property
  exact ⟨by rwa [invoicePreview_times, selectedTimes_ids ht],
    by rwa [invoicePreview_expenses, selectedExpenses_ids he]⟩

/-! ### The bodies -/

section Bodies

variable {α β : Type}

theorem Step.bind {m : Tx α} {f : α → Tx β} (hm : Keeps Step m)
    (hf : ∀ p a q, m p = .ok (a, q) → Keeps Step (f a)) : Keeps Step (m >>= f) :=
  .bind Step.trans hm hf

theorem Step.pure (a : α) : Keeps Step (pure a : Tx α) := .pure Step.refl a

theorem Step.read (f : Db → Except Failure α) : Keeps Step (Tx.read f : Tx α) := .read Step.refl f

theorem updateTimeEntries_step (clock : Clock) (write : TimeWrite) :
    Keeps Step (updateTimeEntries clock write) := updateTimeRows_step (write.data_id _)

theorem updateExpenses_step (clock : Clock) (write : ExpenseWrite) :
    Keeps Step (updateExpenses clock write) := updateExpenseRows_step (write.data_id _)

theorem updateInvoices_step (clock : Clock) (write : InvoiceWrite) :
    Keeps Step (updateInvoices clock write) := updateInvoiceRows_step (write.data_id _)

theorem claimAll_step {selected : ℕ} {claim : Tx ℕ} (h : Keeps Step claim) :
    Keeps Step (claimAll selected claim) := by
  unfold claimAll
  split
  · exact Step.pure ()
  apply Step.bind h
  intro _ claimed _ _
  split
  · exact Keeps.fail _
  · exact Step.pure ()

theorem clearAll_step {claims : ℕ} {clear : Tx ℕ} (h : Keeps Step clear) :
    Keeps Step (clearAll claims clear) := by
  unfold clearAll
  split
  · exact Step.pure ()
  apply Step.bind h
  intro _ cleared _ _
  split
  · exact Keeps.fail _
  · exact Step.pure ()

theorem createUnbilledInvoice_step (digests : Digests) (clock : Clock) (issued : Issued)
    (input : Selection) (fingerprint : String) (actor : Actor) :
    Keeps Step
      (createUnbilledInvoiceInTransaction digests clock issued input fingerprint actor) := by
  unfold createUnbilledInvoiceInTransaction
  split
  · exact Keeps.fail _
  apply Step.bind (Step.read _)
  intro _ input _ _
  apply Step.bind (Step.read _)
  intro p preview q hpreview
  have hdistinct := previewUnbilledInvoice_distinct (Tx.read_ok.mp hpreview).1
  split
  · exact Keeps.fail _
  apply Step.bind (Step.read _)
  intro _ organizationId _ _
  apply Step.bind
  · apply insertInvoice_step
    intro sources hs
    cases hs
    exact hdistinct
  intro _ invoice _ _
  apply Step.bind (claimAll_step (updateTimeEntries_step _ _))
  intro _ _ _ _
  apply Step.bind (claimAll_step (updateExpenses_step _ _))
  intro _ _ _ _
  split
  · exact Keeps.fail _
  · exact Step.pure _

theorem releaseUnbilledSources_step (digests : Digests) (clock : Clock) (audited : Bool)
    (invoiceId fingerprint : String) (actor : Actor) :
    Keeps Step
      (releaseUnbilledSourcesInTransaction digests clock audited invoiceId fingerprint actor) := by
  unfold releaseUnbilledSourcesInTransaction
  split
  · exact Keeps.fail _
  apply Step.bind (Step.read _)
  intro _ preview _ _
  split
  · exact Keeps.fail _
  apply Step.bind (updateInvoices_step _ _)
  intro _ changed _ _
  split
  · exact Keeps.fail _
  apply Step.bind (clearAll_step (updateTimeEntries_step _ _))
  intro _ _ _ _
  apply Step.bind (clearAll_step (updateExpenses_step _ _))
  intro _ _ _ _
  split
  · exact Keeps.fail _
  · exact Step.read _

theorem applyInvoicePayment_step (clock : Clock) (issue : PaymentIssue) (row : InvoiceRow)
    (input : Invoicing.PaymentInput) (sessionId : Option String) :
    Keeps Step (applyInvoicePayment clock issue row input sessionId) := by
  unfold applyInvoicePayment
  apply Step.bind (Step.read _)
  intro _ r _ _
  apply Step.bind insertPayment_step
  intro _ payment _ _
  apply Step.bind (updateInvoices_step _ _)
  intro _ _ _ _
  split
  · exact Keeps.fail _
  split
  · exact Step.pure _
  · apply Step.bind (updateInvoices_step _ _)
    intro _ _ _ _
    exact Step.pure _

theorem recordPayment_step (clock : Clock) (issue : PaymentIssue) (id : String)
    (input : Invoicing.PaymentInput) (sessionId : Option String) :
    Keeps Step (recordPayment clock issue id input sessionId) := by
  unfold recordPayment
  apply Step.bind (updateInvoices_step _ _)
  intro _ claimed _ _
  split
  · exact Step.pure _
  apply Step.bind (Step.read _)
  intro _ row _ _
  apply Step.bind (applyInvoicePayment_step _ _ _ _ _)
  intro _ payment _ _
  exact Step.pure _

theorem voidInvoice_step (clock : Clock) (invoice : InvoiceRow) :
    Keeps Step (voidInvoice clock invoice) := by
  unfold voidInvoice
  apply Step.bind (updateInvoices_step _ _)
  intro _ claimed _ _
  split
  · exact Step.pure _
  apply Step.bind (Step.read _)
  intro _ paid _ _
  split
  · exact Keeps.fail _
  · exact Step.pure _

theorem undoVoid_step (clock : Clock) (taken : Bool) (id : String) :
    Keeps Step (undoVoid clock taken id) := by
  unfold undoVoid
  apply Step.bind (Step.read _)
  intro _ row _ _
  split
  · exact Keeps.fail _
  · exact Keeps.fail _
  split
  · exact Keeps.fail _
  apply Step.bind (updateInvoices_step _ _)
  intro _ _ _ _
  exact Step.pure _

theorem softDeleteExpense_step (clock : Clock) (organizationId id : String) :
    Keeps Step (softDeleteExpense clock organizationId id) := by
  unfold softDeleteExpense
  apply Step.bind (Step.read _)
  intro _ _ _ _
  apply Step.bind (updateExpenses_step _ _)
  intro _ _ _ _
  exact Step.pure _

/-- Returns the result of a step as `Committed`. -/
theorem Step.committed {m : Tx α} {f : α → Committed} (h : Keeps Step m) :
    Keeps Step (m >>= fun a => Pure.pure (f a)) :=
  Step.bind h fun _ _ _ _ => Step.pure _

theorem Transaction.body_step (digests : Digests) (ch : Choice) (transaction : Transaction) :
    Keeps Step (transaction.body digests ch) := by
  cases transaction with
  | createUnbilledInvoice input fingerprint actor =>
    exact Step.committed (createUnbilledInvoice_step _ _ _ _ _ _)
  | releaseUnbilledSources invoiceId fingerprint actor =>
    exact Step.committed (releaseUnbilledSources_step _ _ _ _ _ _)
  | updateTimeEntries write => exact Step.committed (updateTimeEntries_step _ _)
  | updateExpenses write => exact Step.committed (updateExpenses_step _ _)
  | softDeleteExpense organizationId id => exact Step.committed (softDeleteExpense_step _ _ _)
  | updateInvoices id write => exact Step.committed (updateInvoices_step _ _)
  | recordPayment id input sessionId => exact Step.committed (recordPayment_step _ _ _ _ _)
  | voidInvoice invoice => exact Step.committed (voidInvoice_step _ _)
  | undoVoid id => exact Step.committed (undoVoid_step _ _ _)

end Bodies

/-! ### Every reachable database -/

/-- Keys are unique, snapshots bill a source once, and every invoice has been checked. -/
structure Sound (db : Db) : Prop where
  timeIds : (db.timeEntries.map (·.id)).Nodup
  expenseIds : (db.expenses.map (·.id)).Nodup
  invoiceIds : (db.invoices.map (·.id)).Nodup
  sources : ∀ inv ∈ db.invoices, ∀ sources, inv.billingSources = some sources → sources.Distinct
  checked : ∀ id, claimsGuard id db = .ok ()

/-- A database without source-backed invoices: what the migration starts from. -/
structure Db.Unbilled (db : Db) : Prop where
  timeIds : (db.timeEntries.map (·.id)).Nodup
  expenseIds : (db.expenses.map (·.id)).Nodup
  invoiceIds : (db.invoices.map (·.id)).Nodup
  unbilled : ∀ inv ∈ db.invoices, inv.billingSources = none

theorem Db.Unbilled.sound {db : Db} (h : db.Unbilled) : Sound db where
  timeIds := h.timeIds
  expenseIds := h.expenseIds
  invoiceIds := h.invoiceIds
  sources inv hinv sources hs := by
    rw [h.unbilled inv hinv] at hs
    cases hs
  checked id := claimsGuard_ok.mpr fun inv sources hinv hs => by
    rw [h.unbilled inv (List.mem_of_find?_eq_some hinv)] at hs
    cases hs

theorem Sound.evolves {db db' : Db} (h : Sound db) (he : Evolves db db')
    (hc : ∀ id, claimsGuard id db' = .ok ()) : Sound db' where
  timeIds := he.timeIds ▸ h.timeIds
  expenseIds := he.expenseIds ▸ h.expenseIds
  invoiceIds := he.invoiceIds h.invoiceIds
  sources inv hinv sources hs := by
    rcases he.sources inv hinv sources hs with hd | ⟨old, hold, hs'⟩
    · exact hd
    · exact h.sources old hold sources hs'
  checked := hc

/-- What a statement does: its database evolves, and stays sound. -/
theorem exec_step {β : Type} (digests : Digests) (st : Stmt β) (ch : Choice) (db : Db) :
    Evolves db (exec digests st ch db).2 ∧ (Sound db → Sound (exec digests st ch db).2) := by
  cases st with
  | commit transaction =>
    have hstep := transaction.body_step digests ch
    have htracks : Keeps (Tracks claimsGuard) (transaction.body digests ch) :=
      fun p a q h => (hstep p a q h).tracks
    have hevolves : Evolves db (exec digests (.commit transaction) ch db).2 := by
      simp only [exec]
      rcases transact_cases claimsGuard (transaction.body digests ch) db with
        ⟨e, he⟩ | ⟨a, p, hp, -, he⟩
      · rw [he]
        exact .refl db
      · rw [he]
        exact (hstep _ _ _ hp).evolves
    exact ⟨hevolves, fun h => h.evolves hevolves (transact_sound htracks h.checked)⟩
  | now => exact ⟨.refl db, id⟩
  | newToken => exact ⟨.refl db, id⟩
  | findTimeEntry _ _ => exact ⟨.refl db, id⟩
  | findExpense _ _ => exact ⟨.refl db, id⟩
  | findInvoice _ => exact ⟨.refl db, id⟩

variable {digests : Digests} {db : Db} {tr : List (Occurrence (machine digests))}
  {c : Config (machine digests)}

/-- Every reachable database is sound, and evolved from each earlier one. -/
theorem run_sound (h : Run Deployed db tr c) (h0 : db.Unbilled) :
    Sound c.state ∧ ∀ o ∈ tr, Sound o.pre ∧ Evolves o.post c.state := by
  have hsound := h.invariant Sound (fun o _ => (exec_step digests o.stmt o.choice o.pre).2) h0.sound
  have hevolves := h.preserves Evolves .refl (fun _ _ _ => .trans)
    fun o _ => (exec_step digests o.stmt o.choice o.pre).1
  exact ⟨hsound.1, fun o ho => ⟨hsound.2 o ho, hevolves.2 o ho⟩⟩

end Ashbi.Billing

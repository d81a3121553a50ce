import Ashbi.Checked
import Ashbi.Drafts.Steps

/-! What every request keeps to, and what it may assume of the others. -/

namespace Ashbi.Drafts

open Interleaving Invoicing

/-! ### What creators and edits make of a header -/

theorem manualDraft_matches {first : FirstRecurringDate} {organizationId clientName : String}
    {body : CreateBody} {now : Time} :
    (manualDraft first organizationId clientName body now).Matches := rfl

theorem proposalDraft_matches {organizationId : String} {proposal : ProposalTerms} {now : Time} :
    (proposalDraft organizationId proposal now).Matches := rfl

theorem recurringDraft_matches {invoice : Invoice} {now : Time} :
    (recurringDraft invoice now).Matches := rfl

/-- The totals of reviewed work are those of every invoice, without a discount. -/
theorem billingTotals_eq {lines : List Billing.Line} {taxRate : ℚ} (h : 0 ≤ taxRate) :
    let totals := Billing.invoiceTotals lines taxRate h
    (⟨totals.subtotal, totals.preTax, totals.tax, totals.total⟩ : Totals) =
      invoiceTotals (lines.map (·.total)) taxRate 0 := by
  simp [Billing.invoiceTotals, invoiceTotals]

theorem unbilledDraft_matches {digests : Billing.Digests} {db : Billing.Db}
    {rawInput : Billing.Selection} {actor : Billing.Actor} {confirmed : Billing.ConfirmedPreview}
    {organizationId clientId title : String} {projectId : Option String} {now : Time}
    (h : Billing.previewUnbilledInvoice digests db rawInput actor = .ok confirmed) :
    (unbilledDraft organizationId clientId projectId title confirmed.toInvoicePreview
      now).Matches := by
  obtain ⟨valid, -, h⟩ := Checked.bind_ok.mp h
  obtain ⟨admin, -, h⟩ := Checked.bind_ok.mp h
  obtain ⟨scope, -, h⟩ := Checked.bind_ok.mp h
  obtain ⟨times, -, h⟩ := Checked.bind_ok.mp h
  obtain ⟨expenses, -, h⟩ := Checked.bind_ok.mp h
  simp only at h
  split at h
  · cases h
  cases h
  rw [Draft.matches_iff]
  simp only [unbilledDraft, totalsOf, Billing.invoicePreview,
    numbered_total unbilledLineItem (·.total) fun _ _ => rfl]
  rw [← billingTotals_eq (Billing.Selection.valid valid.property).1]
  exact ⟨rfl, rfl, rfl⟩

/-- A retainer invoice is right exactly when its rate is in cents. -/
theorem retainerDraft_matches {organizationId period monthLabel : String} {plan : RetainerPlan}
    {currency : RetainerCurrency} {amount : ℚ} {now dueDate : Time} (hpos : 0 < amount) :
    (retainerDraft organizationId plan currency amount period monthLabel now dueDate).Matches ↔
      Cents amount := by
  simp only [Draft.matches_iff, retainerDraft, totalsOf, invoiceTotals, List.map_cons,
    List.map_nil, List.sum_cons, List.sum_nil, add_zero, sub_zero]
  constructor
  · rintro ⟨hsubtotal, -⟩
    rw [hsubtotal]
    exact cents_roundMoney amount
  · intro hcents
    rw [roundMoney_of_cents hcents, max_eq_right hpos.le, roundMoney_of_cents hcents]
    exact ⟨rfl, rfl, rfl⟩

/-- The totals are worked out wherever a rate or a discount is written. -/
def Edit.Complete (edit : Edit) : Prop :=
  edit.lineItems = none → edit.recalculate = false →
    edit.data.taxRate = none ∧ edit.data.discountAmount = none

/-! ### The contract -/

/-- What a client is told is what the invoice comes to. -/
def Stmt.Told {β : Type} : Stmt β → Table → Prop
  | .createCheckout invoice balanceDue, s => ∃ c, s invoice.id = some c ∧
      c.committed.status = .sent ∧ invoice.currency = c.committed.currency ∧
      balanceDue = (invoiceBalance c.committed.total
        (Invoicing.invoiceAmountPaid c.payments)).balanceDue
  | .deliverInvoiceEmail email, s => ∃ c, s email.invoiceId = some c ∧
      c.committed.status = .sent ∧ email.total = c.committed.total ∧
      email.currency = c.committed.currency
  | _, _ => True

/-- A send claims a draft of the total and currency that its request read. -/
def Stmt.Unchanged {β : Type} : Stmt β → Table → Prop
  | .claimSend seen _ _ _, s => ∀ c, s seen.id = some c → c.committed.status = .draft →
      c.committed.total = seen.total ∧ c.committed.currency = seen.currency
  | _, _ => True

/-- A retainer invoice bills a whole number of cents. -/
def Stmt.WholeCents {β : Type} : Stmt β → Prop
  | .createInvoice (.retainer amount) _ => Cents amount
  | _ => True

structure Rely (i : ℕ) (s t : Table) : Prop where
  onward : s.Onward t
  locked : ∀ id c w, s id = some c → c.held = some (i, w) → t id = some c

theorem Rely.refl (i : ℕ) (s : Table) : Rely i s s := ⟨.refl s, fun _ _ _ hc _ => hc⟩

theorem Rely.trans {i : ℕ} {s t u : Table} (h : Rely i s t) (h' : Rely i t u) : Rely i s u where
  onward := h.onward.trans h'.onward
  locked id c w hc hw := h'.locked id c w (h.locked id c w hc hw) hw

/-- `told` asks for what clients are told, `headers` for the headers of all invoices. -/
def contract (told headers : Prop) : Contract machine where
  inv := Sound headers
  rely := Rely
  assumed o := (told → Stmt.Unchanged o.stmt o.pre) ∧ (headers → Stmt.WholeCents o.stmt)
  guar o := told → Stmt.Told o.stmt o.pre
  refl := Rely.refl
  trans _ _ _ _ := Rely.trans

variable {told headers : Prop} {i : ℕ} {s t : Table} {α β : Type} {Q : α → Table → Prop}

theorem keeps_of {st : Stmt β} {ch : Choice} (hs : Sound headers s) (he : enabled st s = true)
    (hp : st.Promised headers i s) (ht : told → st.Told s) :
    (contract told headers).Keeps ⟨i, st, ch, s⟩ := by
  have hsteps : Steps headers i s (exec i st ch s).2 := exec_steps hs he hp
  obtain ⟨hsound, hon, hlocked⟩ := hsteps.keeps hs
  exact ⟨ht, hsound, fun j hj => ⟨hon, fun id c w hc hw => hlocked j hj id c w hc hw⟩⟩

/-- One statement: its promise where it runs, and the rest of the program behind it. -/
theorem safe_call {st : Stmt β} {next : β → Prog Stmt α}
    (h : ∀ t ch, Rely i s t → Sound headers t → (told → st.Unchanged t) →
      (headers → st.WholeCents) → st.Promised headers i t ∧ (told → st.Told t) ∧
        (next (exec i st ch t).1).Safe (contract told headers) i Q (exec i st ch t).2) :
    (Prog.call st next).Safe (contract told headers) i Q s := by
  intro t ch hr hs he ha
  obtain ⟨hp, ht, hn⟩ := h t ch hr hs ha.1 ha.2
  exact ⟨keeps_of hs he hp ht, hn⟩

/-! ### Sending -/

/-- The invoice has been sent with the amounts that the request read. -/
def Sent (told : Prop) (invoice : Invoice) (payments : List Payment) (s : Table) : Prop :=
  ∃ c, s invoice.id = some c ∧ c.committed.status = .sent ∧ c.payments = payments ∧
    (told → c.committed.total = invoice.total ∧ c.committed.currency = invoice.currency)

theorem Sent.mono {invoice : Invoice} {payments : List Payment}
    (h : Sent told invoice payments s) (hr : Rely i s t) : Sent told invoice payments t := by
  obtain ⟨c, hc, hst, hpay, ha⟩ := h
  obtain ⟨c', hc', hon, hpay'⟩ := hr.onward _ c hc
  obtain ⟨hst', ha'⟩ := hon.frozen (by simp [hst])
  refine ⟨c', hc', hst'.trans hst, hpay'.trans hpay, fun ht => ?_⟩
  simp only [Draft.amounts, Amounts.mk.injEq] at ha'
  rw [ha'.1, ha'.2.2.2.2.2.1]
  exact ha ht

theorem deliver_safe {invoice : Invoice} {contact : Option Contact} {token : String}
    {payments : List Payment} (h : Sent told invoice payments s) :
    (deliver invoice contact token).Safe (contract told headers) i
      (fun _ => Sent told invoice payments) s := by
  cases contact with
  | none => exact h
  | some contact =>
    apply safe_call
    intro t ch hr _ _ _
    have ht := h.mono hr
    refine ⟨trivial, fun htold => ?_, ht⟩
    obtain ⟨c, hc, hst, -, ha⟩ := ht
    exact ⟨c, hc, hst, (ha htold).1.symm, (ha htold).2.symm⟩

theorem announce_safe {invoice : Invoice} {contact : Option Contact} {token : String}
    {payments : List Payment} (h : Sent told invoice payments s) :
    (announce invoice contact token).Safe (contract told headers) i (fun _ _ => True) s := by
  apply safe_call
  intro t₁ ch₁ hr₁ _ _ _
  have h₁ := h.mono hr₁
  have hpaid : (exec i (.invoiceAmountPaid invoice.id) ch₁ t₁).1 =
      Invoicing.invoiceAmountPaid payments := by
    obtain ⟨c, hc, -, hpay, -⟩ := h₁
    simp [exec, Table.amountPaid, hc, hpay]
  refine ⟨trivial, fun _ => trivial, ?_⟩
  rw [hpaid]
  apply safe_call
  intro t₂ ch₂ hr₂ _ _ _
  have h₂ := h₁.mono hr₂
  refine ⟨trivial, fun htold => ?_, ?_⟩
  · obtain ⟨c, hc, hst, hpay, ha⟩ := h₂
    refine ⟨c, hc, hst, (ha htold).2.symm, ?_⟩
    rw [hpay, (ha htold).1]
  · simp only [Prog.ret_bind, Prog.bind_def]
    apply Prog.Safe.bind
    apply (deliver_safe h₂).mono
    intro _ t₃ h₃
    apply safe_call
    intro t₄ ch₄ hr₄ _ _ _
    refine ⟨fun c hc => ?_, fun _ => trivial, trivial⟩
    obtain ⟨c', hc', hst, -, -⟩ := h₃.mono hr₄
    obtain rfl := Option.some.inj (hc.symm.trans hc')
    simp [hst]

theorem claimSend_sent {invoice : Invoice} {sentAt : Time} {token : String}
    {nextDate : Option Time} {ch : Choice} {c : Cell} (hc : s invoice.id = some c)
    (hdraft : c.committed.status = .draft)
    (ha : told → c.committed.total = invoice.total ∧ c.committed.currency = invoice.currency) :
    Sent told invoice c.payments (exec i (.claimSend invoice sentAt token nextDate) ch s).2 := by
  simp only [exec, Table.claimSend, hc, if_pos hdraft, Table.write]
  exact ⟨_, put_self, rfl, rfl, ha⟩

theorem claimAndAnnounce_safe {first : FirstRecurringDate} {invoice : Invoice} :
    (claimAndAnnounce first invoice).Safe (contract told headers) i (fun _ _ => True) s := by
  apply safe_call
  intro t₁ ch₁ _ _ _ _
  refine ⟨trivial, fun _ => trivial, ?_⟩
  apply safe_call
  intro t₂ ch₂ _ _ _ _
  refine ⟨trivial, fun _ => trivial, ?_⟩
  apply safe_call
  intro t₃ ch₃ _ _ _ _
  refine ⟨trivial, fun _ => trivial, ?_⟩
  apply safe_call
  intro t₄ ch₄ _ _ hunchanged _
  refine ⟨trivial, fun _ => trivial, ?_⟩
  simp only [Prog.ret_bind]
  split
  · trivial
  · rename_i hcount
    cases hc : t₄ invoice.id with
    | none => simp [exec, Table.claimSend, hc] at hcount
    | some c =>
      by_cases hdraft : c.committed.status = .draft
      · apply Prog.Safe.bind
        refine Prog.Safe.mono (announce_safe (claimSend_sent hc hdraft ?_)) fun _ _ _ => trivial
        exact fun htold => hunchanged htold c hc hdraft
      · simp [exec, Table.claimSend, hc, hdraft] at hcount

theorem sendDraftInvoice_safe {first : FirstRecurringDate} {id : String} :
    ((sendDraftInvoice first id).bind fun _ => .ret ()).Safe (contract told headers) i
      (fun _ _ => True) s := by
  apply Prog.Safe.bind
  apply safe_call
  intro t ch _ _ _ _
  refine ⟨trivial, fun _ => trivial, ?_⟩
  cases (exec i (.findInvoice id) ch t).1 with
  | none => trivial
  | some invoice =>
    simp only [Prog.ret_bind]
    split
    · trivial
    · exact claimAndAnnounce_safe.mono fun _ _ _ => trivial

/-! ### Edits -/

/-- Thread `i` holds the row lock, and sees the row as `w`. -/
def Holds (i : ℕ) (id : String) (w : Invoice) (s : Table) : Prop :=
  ∃ c, s id = some c ∧ c.held = some (i, w)

theorem Holds.mono {id : String} {w : Invoice} (h : Holds i id w s) (hr : Rely i s t) :
    Holds i id w t := by
  obtain ⟨c, hc, hw⟩ := h
  exact ⟨c, hr.locked id c w hc hw, hw⟩

/-- A statement whose fault is thrown. -/
theorem safe_query {st : Stmt (Except Fault α)}
    (h : ∀ t ch, Rely i s t → Sound headers t → (told → st.Unchanged t) →
      (headers → st.WholeCents) → st.Promised headers i t ∧ (told → st.Told t) ∧
        ∀ a, (exec i st ch t).1 = .ok a → Q a (exec i st ch t).2) :
    (query st).Safe (contract told headers) i Q s := by
  apply safe_call
  intro t ch hr hs hu hw
  obtain ⟨hp, ht, hq⟩ := h t ch hr hs hu hw
  refine ⟨hp, ht, fun a ha => ?_⟩
  cases hres : (exec i st ch t).1 with
  | error e =>
    rw [hres] at ha
    cases ha
  | ok b =>
    rw [hres] at ha
    obtain rfl := Except.ok.inj ha
    exact hq b hres

/-- A statement that reads outside a transaction. -/
theorem safe_read {st : Stmt α}
    (h : ∀ t ch, Rely i s t → Sound headers t → (told → st.Unchanged t) →
      (headers → st.WholeCents) → st.Promised headers i t ∧ (told → st.Told t) ∧
        Q (exec i st ch t).1 (exec i st ch t).2) :
    (Throws.read st : Request α).Safe (contract told headers) i Q s := by
  apply safe_call
  intro t ch hr hs hu hw
  obtain ⟨hp, ht, hq⟩ := h t ch hr hs hu hw
  refine ⟨hp, ht, fun a ha => ?_⟩
  obtain rfl := Except.ok.inj ha
  exact hq

/-- What a statement does to the row that its transaction holds. -/
theorem inTransaction_ok {id : String} {w : Invoice} {fault : Option Fault}
    {f : Invoice → β × Invoice} {b : β} (h : Holds i id w s)
    (hok : (s.inTransaction i id fault f).1 = .ok b) :
    b = (f w).1 ∧ Holds i id (f w).2 (s.inTransaction i id fault f).2 := by
  obtain ⟨c, hc, hw⟩ := h
  cases fault with
  | some e => simp [Table.inTransaction] at hok
  | none =>
    simp only [Table.inTransaction, hc, hw, ↓reduceIte, Except.ok.injEq] at hok ⊢
    exact ⟨hok.symm, _, put_self, rfl⟩

/-- The totals that an edit writes, on a row whose lines are those that were read. -/
def Edit.Totals (edit : Edit) (invoice : Invoice) (totals : Option Invoicing.Totals) : Prop :=
  totals = if edit.lineItems.isSome || edit.recalculate then
    some (totalsOf (edit.lineItems.getD invoice.lineItems)
      (edit.data.taxRate.getD invoice.taxRate)
      (edit.data.discountAmount.getD invoice.discountAmount))
    else none

theorem recalculated_safe {invoice w : Invoice} {edit : Edit}
    (h : Holds i invoice.id w s) (hlines : w.lineItems = invoice.lineItems) :
    (recalculated invoice edit).Safe (contract told headers) i
      (fun totals t => edit.Totals invoice totals ∧ Holds i invoice.id w t) s := by
  unfold recalculated
  cases hl : edit.lineItems with
  | some lineItems => exact Throws.safe_pure ⟨by simp [Edit.Totals, hl], h⟩
  | none =>
    cases hrec : edit.recalculate with
    | false => exact Throws.safe_pure ⟨by simp [Edit.Totals, hl, hrec], h⟩
    | true =>
      simp only [↓reduceIte]
      apply Throws.Safe.bind
      apply safe_query
      intro t ch hr _ _ _
      refine ⟨trivial, fun _ => trivial, fun items hok => ?_⟩
      obtain ⟨rfl, hheld⟩ := inTransaction_ok (h.mono hr) hok
      exact Throws.safe_pure ⟨by simp [Edit.Totals, hl, hrec, hlines], hheld⟩

theorem replaceLineItems_safe {id : String} {w : Invoice} {lineItems : Option (List LineItem)}
    (h : Holds i id w s) :
    (replaceLineItems id lineItems).Safe (contract told headers) i
      (fun _ t => Holds i id { w with lineItems := lineItems.getD w.lineItems } t) s := by
  cases lineItems with
  | none => exact Throws.safe_pure h
  | some lineItems =>
    apply Throws.Safe.bind
    apply safe_query
    intro t ch hr _ _ _
    refine ⟨trivial, fun _ => trivial, fun _ hok => ?_⟩
    obtain ⟨-, hdeleted⟩ := inTransaction_ok (h.mono hr) hok
    apply safe_query
    intro u ch' hr' _ _ _
    refine ⟨trivial, fun _ => trivial, fun _ hok' => ?_⟩
    obtain ⟨-, hcreated⟩ := inTransaction_ok (hdeleted.mono hr') hok'
    exact hcreated

/-- The header that an edit leaves. -/
def UpdateData.result (data : UpdateData) (d : Draft) (totals : Option Totals) : Draft :=
  (totals.map (data.apply d).withTotals).getD (data.apply d)

theorem edited_matches {invoice : Invoice} {edit : Edit} {totals : Option Totals}
    (hm : invoice.Matches) (hcomplete : edit.Complete) (ht : edit.Totals invoice totals) :
    (edit.data.result { invoice.toDraft with
      lineItems := edit.lineItems.getD invoice.lineItems } totals).Matches := by
  unfold Edit.Totals at ht
  split at ht
  · subst ht
    rfl
  · rename_i hnone
    subst ht
    simp only [Bool.or_eq_true, not_or, Bool.not_eq_true, Option.isSome_eq_false_iff,
      Option.isNone_iff_eq_none] at hnone
    obtain ⟨hrate, hdiscount⟩ := hcomplete hnone.1 hnone.2
    rw [Draft.matches_iff] at hm ⊢
    simpa [UpdateData.result, UpdateData.apply, hnone.1, hrate, hdiscount] using hm

/-- A transaction may commit what keeps the headers right. -/
theorem transaction_safe {id : String} {body : Request α}
    (h : body.Safe (contract told headers) i
      (fun _ t => ∃ w, Holds i id w t ∧ (headers → w.Matches)) s) :
    (transaction id body).Safe (contract told headers) i (fun _ _ => True) s := by
  apply Prog.Safe.bind
  apply Prog.Safe.mono h
  intro r t hr
  cases r with
  | error failure =>
    apply safe_call
    intro u ch _ _ _ _
    exact ⟨trivial, fun _ => trivial, fun _ _ => trivial⟩
  | ok a =>
    obtain ⟨w, hheld, hm⟩ := hr a rfl
    apply safe_call
    intro u ch hru _ _ _
    refine ⟨fun hh c w' hc hw' => ?_, fun _ => trivial, ?_⟩
    · obtain ⟨c', hc', hw⟩ := hheld.mono hru
      obtain rfl := Option.some.inj (hc.symm.trans hc')
      obtain rfl := (Prod.mk.inj (Option.some.inj (hw'.symm.trans hw))).2
      exact hm hh
    · cases (exec i (.commit id) ch u).1 with
      | ok v => exact fun _ _ => trivial
      | error fault =>
        apply safe_call
        intro v ch' _ _ _ _
        exact ⟨trivial, fun _ => trivial, fun _ _ => trivial⟩

/-- The row has been read as `invoice`. -/
def Seen (invoice : Invoice) (s : Table) : Prop :=
  ∃ c, s invoice.id = some c ∧ Onward invoice c.committed

theorem Seen.mono {invoice : Invoice} (h : Seen invoice s) (hr : Rely i s t) : Seen invoice t := by
  obtain ⟨c, hc, hon⟩ := h
  obtain ⟨c', hc', hon', -⟩ := hr.onward _ c hc
  exact ⟨c', hc', hon.trans hon'⟩

/-- The claim of an edit finds the very row that was read: a draft of the same version. -/
theorem claimDraft_ok {invoice : Invoice} {organizationId : String} {updatedAt : Time}
    {ch : Choice} (hseen : Seen invoice s)
    (hok : (exec i (.claimDraft invoice.id organizationId invoice.updatedAt updatedAt) ch s).1 =
      .ok 1) :
    (∃ c, s invoice.id = some c ∧ c.committed = invoice) ∧
      Holds i invoice.id { invoice with updatedAt := updatedAt }
        (exec i (.claimDraft invoice.id organizationId invoice.updatedAt updatedAt) ch s).2 := by
  obtain ⟨c, hc, hon⟩ := hseen
  cases hf : ch.fault with
  | some e => simp [exec, hf] at hok
  | none =>
    by_cases hed : c.committed.editable organizationId invoice.updatedAt = true
    · have hsame : c.committed = invoice := by
        simp only [Invoice.editable, Bool.and_eq_true, decide_eq_true_eq] at hed
        rcases (hon.draft hed.1.2).2 with heq | hlt
        · exact heq
        · exact absurd hed.2 (ne_of_gt hlt)
      refine ⟨⟨c, hc, hsame⟩, ?_⟩
      rw [hsame] at hed
      simp only [exec, hf, Table.claimDraft, hc, hed, ↓reduceIte, hsame]
      exact ⟨_, put_self, rfl⟩
    · simp [exec, hf, Table.claimDraft, hc, hed] at hok

theorem claimedEdit_safe {invoice : Invoice} {edit : Edit} {organizationId : String}
    {updatedAt : Time} (hcomplete : edit.Complete) (hseen : Seen invoice s)
    (hlt : invoice.updatedAt < updatedAt) :
    Throws.Safe (contract told headers) i (do
      let count ← query (.claimDraft invoice.id organizationId invoice.updatedAt updatedAt)
      if count ≠ 1 then throw conflict
      else
        let totals ← recalculated invoice edit
        replaceLineItems invoice.id edit.lineItems
        query (.updateInvoice invoice.id edit.data updatedAt totals))
      (fun _ t => ∃ w, Holds i invoice.id w t ∧ (headers → w.Matches)) s := by
  apply Throws.Safe.bind
  apply safe_query
  intro t ch hr hs _ _
  refine ⟨hlt, fun _ => trivial, fun count hok => ?_⟩
  split
  · exact Throws.safe_throw
  rename_i hcount
  obtain rfl : count = 1 := not_not.mp hcount
  obtain ⟨⟨c, hc, rfl⟩, hheld⟩ := claimDraft_ok (hseen.mono hr) hok
  have hmatches : headers → c.committed.Matches := fun hh => hs.matching hh _ c hc
  apply Throws.Safe.bind
  apply (recalculated_safe hheld rfl).mono
  rintro totals u ⟨htotals, hheld⟩
  apply Throws.Safe.bind
  apply (replaceLineItems_safe hheld).mono
  intro _ v hheld
  apply safe_query
  intro x ch' hr' _ _ _
  have hheld' := hheld.mono hr'
  refine ⟨fun c' w hc' hw => ?_, fun _ => trivial, fun _ hok' => ?_⟩
  · obtain ⟨d, hd, hdw⟩ := hheld'
    obtain rfl := Option.some.inj (hc'.symm.trans hd)
    obtain rfl := (Prod.mk.inj (Option.some.inj (hw.symm.trans hdw))).2
    rfl
  · obtain ⟨-, hresult⟩ := inTransaction_ok hheld' hok'
    exact ⟨_, hresult, fun hh => edited_matches (hmatches hh) hcomplete htotals⟩

theorem updateDraftInvoice_safe {invoice : Invoice} {edit : Edit} {organizationId : String}
    (hcomplete : edit.Complete) (hseen : Seen invoice s) :
    (updateDraftInvoice invoice edit organizationId).Safe (contract told headers) i
      (fun _ _ => True) s := by
  unfold updateDraftInvoice
  split
  · exact Throws.safe_throw
  apply Throws.Safe.bind
  apply safe_read
  intro t ch hr _ _ _
  refine ⟨trivial, fun _ => trivial, ?_⟩
  simp only []
  split
  · exact Throws.safe_throw
  split
  · exact Throws.safe_throw
  apply transaction_safe
  apply claimedEdit_safe hcomplete (hseen.mono hr)
  exact lt_max_of_lt_right (by simp)

theorem edit_complete {first : FirstRecurringDate} {invoice : Invoice} {body : UpdateBody}
    {data : UpdateData} (h : updateData first invoice body = some data) :
    (body.edit data).Complete := by
  intro _ hrec
  simp only [UpdateBody.edit, Bool.or_eq_false_iff, Option.isSome_eq_false_iff,
    Option.isNone_iff_eq_none] at hrec
  obtain ⟨hrate, hdiscount⟩ := updateData_taxRate h
  exact ⟨hrate.trans hrec.1, hdiscount.trans hrec.2⟩

theorem putInvoice_safe {first : FirstRecurringDate} {id organizationId : String}
    {body : UpdateBody} :
    (putInvoice first id organizationId body).Safe (contract told headers) i
    (fun _ _ => True) s := by
  have hedit : (editInvoice first id organizationId body).Safe (contract told headers) i
      (fun _ _ => True) s := by
    apply Throws.Safe.bind
    apply safe_read
    intro t ch _ hs _ _
    refine ⟨trivial, fun _ => trivial, ?_⟩
    cases hc : t id with
    | none =>
      simp only [exec, hc, Option.map_none]
      exact Throws.safe_throw
    | some c =>
      simp only [exec, hc, Option.map_some]
      split
      · exact Throws.safe_throw
      split
      · exact Throws.safe_throw
      · rename_i data hdata
        apply updateDraftInvoice_safe (edit_complete hdata)
        refine ⟨c, ?_, .refl _⟩
        rw [hs.keyed id c hc, hc]
  apply Prog.Safe.bind
  apply Prog.Safe.mono hedit
  intro result t _
  apply safe_call
  intro u ch _ _ _ _
  exact ⟨trivial, fun _ => trivial, trivial⟩

/-! ### Creators -/

theorem createInvoice_safe {origin : Origin} {draft : Draft}
    {next : Except Fault Invoice → Prog Stmt Unit}
    (hm : headers → (Stmt.createInvoice origin draft).WholeCents → draft.Matches)
    (hn : ∀ r t, (next r).Safe (contract told headers) i (fun _ _ => True) t) :
    (Prog.call (.createInvoice origin draft) next).Safe (contract told headers) i
      (fun _ _ => True) s := by
  apply safe_call
  intro t ch _ _ _ hcents
  exact ⟨fun hh => hm hh (hcents hh), fun _ => trivial, hn _ _⟩

/-- A statement that promises nothing. -/
theorem safe_quiet {st : Stmt β} {next : β → Prog Stmt Unit}
    (hp : ∀ t, st.Promised headers i t ∧ st.Told t)
    (hn : ∀ t ch, (next (exec i st ch t).1).Safe (contract told headers) i (fun _ _ => True)
      (exec i st ch t).2) :
    (Prog.call st next).Safe (contract told headers) i (fun _ _ => True) s := by
  apply safe_call
  intro t ch _ _ _ _
  exact ⟨(hp t).1, fun _ => (hp t).2, hn t ch⟩

theorem findDue_safe {now : Time} {ids : List String} {next : List Invoice → Prog Stmt Unit}
    (hn : ∀ dueInvoices t, (next dueInvoices).Safe (contract told headers) i (fun _ _ => True) t) :
    ((findDue now ids).bind next).Safe (contract told headers) i (fun _ _ => True) s := by
  induction ids generalizing s next with
  | nil => exact hn [] s
  | cons id ids ih =>
    simp only [findDue, Prog.bind_def, Prog.bind_assoc, Prog.stmt_bind, Prog.pure_def,
      Prog.ret_bind, Prog.call_bind]
    refine safe_quiet (fun _ => ⟨trivial, trivial⟩) fun t ch => ?_
    exact ih fun dueInvoices u => hn _ u

theorem generateCopies_safe {first : FirstRecurringDate} {now : Time}
    {dueInvoices : List Invoice} :
    (generateCopies first now dueInvoices).Safe (contract told headers) i (fun _ _ => True) s := by
  induction dueInvoices generalizing s with
  | nil => trivial
  | cons invoice rest ih =>
    refine safe_quiet (fun _ => ⟨fun _ => recurringDraft_matches, trivial⟩) fun t ch => ?_
    exact ih

/-- Every request keeps to the contract. -/
theorem deployed_safe {p : Prog Stmt Unit} (hp : Deployed p) :
    p.Safe (contract told headers) i (fun _ _ => True) s := by
  cases hp with
  | manual first organizationId body =>
    refine safe_quiet (fun _ => ⟨trivial, trivial⟩) fun t ch => ?_
    simp only [exec, Prog.ret_bind]
    refine safe_quiet (fun _ => ⟨trivial, trivial⟩) fun u ch' => ?_
    exact createInvoice_safe (fun _ _ => manualDraft_matches) fun _ _ => trivial
  | proposal organizationId proposalId =>
    refine safe_quiet (fun _ => ⟨trivial, trivial⟩) fun t ch => ?_
    simp only [Prog.ret_bind]
    cases (exec i (.findProposal proposalId) ch t).1 with
    | none => trivial
    | some proposal =>
      refine safe_quiet (fun _ => ⟨trivial, trivial⟩) fun u ch' => ?_
      exact createInvoice_safe (fun _ _ => proposalDraft_matches) fun _ _ => trivial
  | unbilled digests title fingerprint rawInput actor =>
    refine safe_quiet (fun _ => ⟨trivial, trivial⟩) fun t ch => ?_
    simp only [Prog.ret_bind]
    split
    · trivial
    · rename_i confirmed hok
      split
      · trivial
      refine safe_quiet (fun _ => ⟨trivial, trivial⟩) fun u ch' => ?_
      exact createInvoice_safe (fun _ _ => unbilledDraft_matches hok) fun _ _ => trivial
  | retainer organizationId clientId currency period monthLabel dueDate =>
    refine safe_quiet (fun _ => ⟨trivial, trivial⟩) fun t ch => ?_
    simp only [Prog.ret_bind]
    cases (exec i (.findRetainerPlan clientId) ch t).1 with
    | none => trivial
    | some plan =>
      cases hamount : plan.amount currency with
      | none =>
        simp only [hamount]
        trivial
      | some amount =>
        simp only [hamount]
        refine safe_quiet (fun _ => ⟨trivial, trivial⟩) fun u ch' => ?_
        have hpos : 0 < amount := by
          unfold RetainerPlan.amount at hamount
          simpa using (Option.filter_eq_some_iff.mp hamount).2
        exact createInvoice_safe (fun _ hcents => (retainerDraft_matches hpos).mpr hcents)
          fun _ _ => trivial
  | recurring first ids =>
    refine safe_quiet (fun _ => ⟨trivial, trivial⟩) fun t ch => ?_
    exact findDue_safe fun _ _ => generateCopies_safe
  | put first id organizationId body => exact putInvoice_safe
  | send first id => exact sendDraftInvoice_safe

end Ashbi.Drafts

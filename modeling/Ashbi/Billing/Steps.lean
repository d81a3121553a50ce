import Ashbi.Billing.Routes

/-! What the transactions leave of the tables, which invoices they have checked, and what every one
of them preserves. -/

namespace Ashbi.Billing

open Deferred

theorem except_bind_ok {ε α β : Type} {x : Except ε α} {f : α → Except ε β} {b : β} :
    (x >>= f) = .ok b ↔ ∃ a, x = .ok a ∧ f a = .ok b := by
  cases x <;> simp [bind, Except.bind]

theorem mapError_ok {ε ε' α : Type} {x : Except ε α} {f : ε → ε'} {a : α} :
    x.mapError f = .ok a ↔ x = .ok a := by
  cases x <;> simp [Except.mapError]

/-! ### What the deferred trigger requires -/

/-- Of an invoice that holds its claims. -/
structure Claimed (db : Db) (inv : InvoiceRow) (sources : BillingSources) : Prop where
  lines : ∀ line ∈ sources.lineItems, assertSource db inv line.source = .ok ()
  times : (db.timeClaims inv.id).length = sources.times.length
  expenses : (db.expenseClaims inv.id).length = sources.expenses.length

/-- Of an invoice whose claims were released. -/
structure Released (db : Db) (inv : InvoiceRow) : Prop where
  status : inv.status = .void
  unpaid : db.payments.any (·.invoiceId = inv.id) = false
  times : db.timeClaims inv.id = []
  expenses : db.expenseClaims inv.id = []

structure Asserted (db : Db) (inv : InvoiceRow) (sources : BillingSources) : Prop where
  owners : ownersAgree db inv = true
  released : inv.billingSourcesReleasedAt ≠ none → Released db inv
  claimed : inv.billingSourcesReleasedAt = none → Claimed db inv sources

theorem assertBillingSources_ok {db : Db} {inv : InvoiceRow} {sources : BillingSources} :
    assertBillingSources db inv sources = .ok () ↔ Asserted db inv sources := by
  unfold assertBillingSources
  constructor
  · intro h
    split at h
    · cases h
    rename_i howners
    simp only [Bool.not_eq_true', Bool.not_eq_false] at howners
    split at h
    · rename_i hreleased
      split at h
      · cases h
      rename_i hr
      simp only [not_or, Decidable.not_not, Bool.not_eq_true] at hr
      exact ⟨howners, fun _ => ⟨hr.1, hr.2.1, hr.2.2.1, hr.2.2.2⟩, fun h => absurd h hreleased⟩
    · rename_i hreleased
      obtain ⟨u, hlines, hroster⟩ := except_bind_ok.mp h
      split at hroster
      · cases hroster
      rename_i hr
      simp only [not_or, Decidable.not_not] at hr
      exact ⟨howners, fun h => absurd h hreleased, fun _ => ⟨forM_ok.mp hlines, hr.1, hr.2⟩⟩
  · rintro ⟨howners, hreleased, hclaimed⟩
    simp only [howners, Bool.not_true, Bool.false_eq_true, ↓reduceIte]
    split
    · rename_i hr
      obtain ⟨hstatus, hpaid, ht, he⟩ := hreleased hr
      simp [hstatus, hpaid, ht, he]
    · rename_i hr
      obtain ⟨hlines, ht, he⟩ := hclaimed (not_not.mp hr)
      exact except_bind_ok.mpr ⟨(), forM_ok.mpr hlines, by simp [ht, he]⟩

theorem claimsGuard_ok {db : Db} {id : String} :
    claimsGuard id db = .ok () ↔ ∀ inv sources, db.invoice? id = some inv →
      inv.billingSources = some sources → Asserted db inv sources := by
  unfold claimsGuard assertInvoiceBillingSources
  rw [mapError_ok]
  cases db.invoice? id with
  | none => simp
  | some inv =>
    constructor
    · rintro h _ sources ⟨⟩ hsources
      simp only [hsources] at h
      exact assertBillingSources_ok.mp h
    · intro h
      cases hsources : inv.billingSources with
      | none => simp only [hsources]
      | some sources =>
        simp only [hsources]
        exact assertBillingSources_ok.mpr (h inv sources rfl hsources)

/-! ### What the trigger of one invoice reads -/

/-- Two databases that the trigger of invoice `k` cannot tell apart while it holds. -/
structure Agrees (db db' : Db) (k : String) : Prop where
  clients : db'.clients = db.clients
  projects : db'.projects = db.projects
  users : db'.users = db.users
  invoice : db'.invoice? k = db.invoice? k
  payments : db'.payments.any (·.invoiceId = k) = db.payments.any (·.invoiceId = k)
  times : db'.timeClaims k = db.timeClaims k
  expenses : db'.expenseClaims k = db.expenseClaims k
  timeEntry : ∀ id row, db.timeEntry? id = some row → row.invoiceId = some k →
    db'.timeEntry? id = some row
  expense : ∀ id row, db.expense? id = some row → row.invoiceId = some k →
    db'.expense? id = some row

variable {db db' : Db} {k : String}

theorem assertSource_time {inv : InvoiceRow} {source : TimeSource} :
    assertSource db inv (.time source) = .ok () ↔
      ∃ row, db.joinedTime? source.id = some row ∧ timeUnchanged inv source row = true := by
  simp only [assertSource]
  cases db.joinedTime? source.id with
  | none => simp
  | some row => by_cases h : timeUnchanged inv source row = true <;> simp [h]

theorem assertSource_expense {inv : InvoiceRow} {source : ExpenseSource} :
    assertSource db inv (.expense source) = .ok () ↔
      ∃ src, db.expense? source.id = some src ∧
        expenseUnchanged inv source src (db.expenseProject? src) = true := by
  simp only [assertSource]
  cases db.expense? source.id with
  | none => simp
  | some src =>
    by_cases h : expenseUnchanged inv source src (db.expenseProject? src) = true <;> simp [h]

theorem joinedTime_eq {id : String} {row : JoinedTime} :
    db.joinedTime? id = some row ↔ db.timeEntry? id = some row.src ∧
      db.project? row.src.projectId = some row.project ∧
      db.user? row.src.userId = some row.user := by
  unfold Db.joinedTime?
  constructor
  · intro h
    simp only [Option.bind_eq_bind, Option.bind_eq_some_iff, Option.pure_def,
      Option.some.injEq] at h
    obtain ⟨src, hsrc, project, hproject, user, huser, rfl⟩ := h
    exact ⟨hsrc, hproject, huser⟩
  · rintro ⟨hsrc, hproject, huser⟩
    simp [hsrc, hproject, huser]

/-- A checked time entry is claimed by the invoice. -/
theorem timeUnchanged_claim {inv : InvoiceRow} {source : TimeSource} {row : JoinedTime}
    (h : timeUnchanged inv source row = true) : row.src.invoiceId = some inv.id := by
  simp only [timeUnchanged, Bool.and_eq_true, decide_eq_true_eq] at h
  tauto

theorem expenseUnchanged_claim {inv : InvoiceRow} {source : ExpenseSource} {src : Expense}
    {project : Option Project} (h : expenseUnchanged inv source src project = true) :
    src.invoiceId = some inv.id := by
  simp only [expenseUnchanged, Bool.and_eq_true, decide_eq_true_eq] at h
  tauto

theorem Agrees.assertSource {inv : InvoiceRow} {source : Source} (h : Agrees db db' inv.id)
    (hs : assertSource db inv source = .ok ()) : Billing.assertSource db' inv source = .ok () := by
  cases source with
  | time source =>
    obtain ⟨row, hrow, hunchanged⟩ := assertSource_time.mp hs
    obtain ⟨hsrc, hproject, huser⟩ := joinedTime_eq.mp hrow
    have hsrc' := h.timeEntry _ _ hsrc (timeUnchanged_claim hunchanged)
    refine assertSource_time.mpr ⟨row, joinedTime_eq.mpr ⟨hsrc', ?_, ?_⟩, hunchanged⟩
    · simpa [Db.project?, h.projects] using hproject
    · simpa [Db.user?, h.users] using huser
  | expense source =>
    obtain ⟨src, hsrc, hunchanged⟩ := assertSource_expense.mp hs
    have hsrc' := h.expense _ _ hsrc (expenseUnchanged_claim hunchanged)
    refine assertSource_expense.mpr ⟨src, hsrc', ?_⟩
    have hproject : db'.expenseProject? src = db.expenseProject? src := by
      unfold Db.expenseProject? Db.project?
      rw [h.projects]
    rw [hproject]
    exact hunchanged

theorem invoice_id {inv : InvoiceRow} (h : db.invoice? k = some inv) : inv.id = k := by
  simpa using List.find?_some h

theorem Agrees.claimsGuard (h : Agrees db db' k) (hk : claimsGuard k db = .ok ()) :
    Billing.claimsGuard k db' = .ok () := by
  rw [claimsGuard_ok] at hk ⊢
  intro inv sources hinv hsources
  rw [h.invoice] at hinv
  have hid := invoice_id hinv
  subst hid
  obtain ⟨howners, hreleased, hclaimed⟩ := hk inv sources hinv hsources
  refine ⟨by simpa [ownersAgree, h.clients, h.users, h.projects] using howners, ?_, ?_⟩
  · intro hr
    obtain ⟨hstatus, hpaid, ht, he⟩ := hreleased hr
    exact ⟨hstatus, by rw [h.payments, hpaid], by rw [h.times, ht], by rw [h.expenses, he]⟩
  · intro hr
    obtain ⟨hlines, ht, he⟩ := hclaimed hr
    exact ⟨fun line hl => h.assertSource (hlines line hl),
      by rw [h.times, ht], by rw [h.expenses, he]⟩

/-! ### Updated rows -/

section Rows

variable {ρ : Type} {filter : ρ → Bool} {data : ρ → ρ} {rows : List ρ}

theorem map_updateRows {κ : Type} {key : ρ → κ} (hdata : ∀ row, key (data row) = key row) :
    (updateRows filter data rows).map key = rows.map key := by
  simp only [updateRows, List.map_map]
  apply List.map_congr_left
  intro row _
  simp only [Function.comp_apply]
  split
  · exact hdata row
  · rfl

/-- The first row of a key stays the first one. -/
theorem find?_updateRows {key : ρ → String} (hdata : ∀ row, key (data row) = key row)
    (id : String) :
    (updateRows filter data rows).find? (key · = id) =
      (rows.find? (key · = id)).map fun row => if filter row then data row else row := by
  unfold updateRows
  rw [List.find?_map]
  congr 2
  funext row
  simp only [Function.comp_apply]
  split
  · rw [hdata]
  · rfl

theorem find?_updateRows_unmatched {key : ρ → String} (hdata : ∀ row, key (data row) = key row)
    {id : String} {row : ρ} (h : rows.find? (key · = id) = some row) (hf : filter row = false) :
    (updateRows filter data rows).find? (key · = id) = some row := by
  rw [find?_updateRows hdata, h]
  simp [hf]

variable {owner : ρ → Option String} {k : String}

/-- No row of an unmarked invoice was updated, and none was moved to it. -/
theorem unmarked {row : ρ} (hk : k ∉ updatedOwners owner filter data rows) (hrow : row ∈ rows)
    (hf : filter row = true) : owner row ≠ some k ∧ owner (data row) ≠ some k := by
  constructor <;> intro ho <;> apply hk <;> apply List.mem_flatMap.mpr
  · exact ⟨row, List.mem_filter.mpr ⟨hrow, hf⟩, by simp [ho]⟩
  · exact ⟨row, List.mem_filter.mpr ⟨hrow, hf⟩, by simp [ho]⟩

theorem unmatched_of_unmarked {row : ρ} (hk : k ∉ updatedOwners owner filter data rows)
    (hrow : row ∈ rows) (ho : owner row = some k) : filter row = false := by
  cases hf : filter row with
  | false => rfl
  | true => exact absurd ho (unmarked hk hrow hf).1

theorem claims_updateRows (hk : k ∉ updatedOwners owner filter data rows) :
    (updateRows filter data rows).filter (owner · = some k) =
      rows.filter (owner · = some k) := by
  have hall : ∀ row ∈ rows, filter row = true → owner row ≠ some k ∧ owner (data row) ≠ some k :=
    fun row => unmarked hk
  clear hk
  induction rows with
  | nil => rfl
  | cons row rest ih =>
    have hrest := ih fun r hr => hall r (List.mem_cons_of_mem _ hr)
    simp only [updateRows, List.map_cons] at hrest ⊢
    by_cases hf : filter row = true
    · obtain ⟨hold, hnew⟩ := hall row List.mem_cons_self hf
      simp [hf, hold, hnew, hrest]
    · simp [hf, List.filter_cons, hrest]

end Rows

/-! ### What every transaction preserves -/

/-- No transaction changes a key or original sources, or reopens a released invoice;
a new invoice bills each of its sources once. -/
structure Evolves (db db' : Db) : Prop where
  timeIds : db'.timeEntries.map (·.id) = db.timeEntries.map (·.id)
  expenseIds : db'.expenses.map (·.id) = db.expenses.map (·.id)
  invoiceIds : (db.invoices.map (·.id)).Nodup → (db'.invoices.map (·.id)).Nodup
  sources : ∀ inv' ∈ db'.invoices, ∀ sources, inv'.billingSources = some sources →
    sources.Distinct ∨ ∃ inv ∈ db.invoices, inv.billingSources = some sources
  invoices : ∀ inv ∈ db.invoices, ∃ inv' ∈ db'.invoices, inv'.id = inv.id ∧
    inv'.billingSources = inv.billingSources ∧
    (inv.billingSources ≠ none → inv.billingSourcesReleasedAt ≠ none →
      inv'.billingSourcesReleasedAt = inv.billingSourcesReleasedAt ∧
      (inv.status = .void → inv'.status = .void))

/-- A step that leaves the invoices alone. -/
theorem Evolves.of_invoices {db db' : Db}
    (ht : db'.timeEntries.map (·.id) = db.timeEntries.map (·.id))
    (he : db'.expenses.map (·.id) = db.expenses.map (·.id)) (hi : db'.invoices = db.invoices) :
    Evolves db db' where
  timeIds := ht
  expenseIds := he
  invoiceIds h := hi ▸ h
  sources inv' hinv' _ hs := .inr ⟨inv', hi ▸ hinv', hs⟩
  invoices inv hinv := ⟨inv, hi ▸ hinv, rfl, rfl, fun _ _ => ⟨rfl, id⟩⟩

theorem Evolves.refl (db : Db) : Evolves db db := .of_invoices rfl rfl rfl

theorem Evolves.trans {a b c : Db} (hab : Evolves a b) (hbc : Evolves b c) : Evolves a c where
  timeIds := hbc.timeIds.trans hab.timeIds
  expenseIds := hbc.expenseIds.trans hab.expenseIds
  invoiceIds h := hbc.invoiceIds (hab.invoiceIds h)
  sources inv' hinv' sources hs := by
    rcases hbc.sources inv' hinv' sources hs with hd | ⟨inv, hinv, hs'⟩
    · exact .inl hd
    · exact hab.sources inv hinv sources hs'
  invoices inv hinv := by
    obtain ⟨inv', hinv', hid', hs', hr'⟩ := hab.invoices inv hinv
    obtain ⟨inv'', hinv'', hid'', hs'', hr''⟩ := hbc.invoices inv' hinv'
    refine ⟨inv'', hinv'', hid''.trans hid', hs''.trans hs', fun hn hr => ?_⟩
    obtain ⟨hat, hv⟩ := hr' hn hr
    obtain ⟨hat', hv'⟩ := hr'' (hs'.symm ▸ hn) (hat.symm ▸ hr)
    exact ⟨hat'.trans hat, fun h => hv' (hv h)⟩

/-- A transaction step: it marks what it may break, and the tables evolve. -/
structure Step (p q : Pending Db String) : Prop where
  tracks : Tracks claimsGuard p q
  evolves : Evolves p.state q.state

theorem Step.refl (p : Pending Db String) : Step p p := ⟨.refl p, .refl p.state⟩

theorem Step.trans (p q r : Pending Db String) (hpq : Step p q) (hqr : Step q r) : Step p r :=
  ⟨hpq.tracks.trans hqr.tracks, hpq.evolves.trans hqr.evolves⟩

/-- A write that the trigger of an unmarked invoice cannot see. -/
theorem Step.write {p : Pending Db String} {db : Db} {marked : List String}
    (ha : ∀ k, k ∉ marked → Agrees p.state db k) (he : Evolves p.state db) :
    Step p ⟨db, p.marked ++ marked⟩ where
  tracks :=
    { marked := List.subset_append_left _ _
      kept := fun k hk h =>
        (ha k fun hm => hk (List.mem_append_right _ hm)).claimsGuard h }
  evolves := he

/-! ### The table operations -/

theorem updateTimeRows_step {filter : Db → TimeEntry → Bool} {data : TimeEntry → TimeEntry}
    (hdata : ∀ row, (data row).id = row.id) : Keeps Step (updateTimeRows filter data) := by
  intro p n q h
  obtain ⟨db, p', hread, h⟩ := Tx.bind_ok.mp h
  obtain ⟨hdb, rfl⟩ := Tx.read_ok.mp hread
  cases hdb
  obtain ⟨u, q', hwrite, h⟩ := Tx.bind_ok.mp h
  obtain ⟨-, rfl⟩ := Tx.pure_ok.mp h
  rw [Tx.write_ok.mp hwrite]
  apply Step.write
  · intro k hk
    refine ⟨rfl, rfl, rfl, rfl, rfl, claims_updateRows hk, rfl, fun id row hrow ho => ?_,
      fun _ _ h _ => h⟩
    have hmem := List.mem_of_find?_eq_some hrow
    exact find?_updateRows_unmatched hdata hrow (unmatched_of_unmarked hk hmem ho)
  · exact .of_invoices (map_updateRows hdata) rfl rfl

theorem updateExpenseRows_step {filter : Db → Expense → Bool} {data : Expense → Expense}
    (hdata : ∀ row, (data row).id = row.id) : Keeps Step (updateExpenseRows filter data) := by
  intro p n q h
  obtain ⟨db, p', hread, h⟩ := Tx.bind_ok.mp h
  obtain ⟨hdb, rfl⟩ := Tx.read_ok.mp hread
  cases hdb
  obtain ⟨u, q', hwrite, h⟩ := Tx.bind_ok.mp h
  obtain ⟨-, rfl⟩ := Tx.pure_ok.mp h
  rw [Tx.write_ok.mp hwrite]
  apply Step.write
  · intro k hk
    refine ⟨rfl, rfl, rfl, rfl, rfl, rfl, claims_updateRows hk, fun _ _ h _ => h,
      fun id row hrow ho => ?_⟩
    have hmem := List.mem_of_find?_eq_some hrow
    exact find?_updateRows_unmatched hdata hrow (unmatched_of_unmarked hk hmem ho)
  · exact .of_invoices rfl (map_updateRows hdata) rfl

/-- What an accepted update of an invoice leaves alone. -/
theorem guardUpdate_ok {db : Db} {now : Time} {old new : InvoiceRow}
    (h : guardUpdate db now old new = .ok ()) : new.billingSources = old.billingSources ∧
      (old.billingSources ≠ none → old.billingSourcesReleasedAt ≠ none →
        new.billingSourcesReleasedAt = old.billingSourcesReleasedAt ∧ new.status = .void) := by
  unfold guardUpdate at h
  split at h
  · cases h
  rename_i hsources
  simp only [ne_eq, Decidable.not_not] at hsources
  refine ⟨hsources, fun hn hr => ?_⟩
  rw [if_neg (hsources ▸ hn)] at h
  split at h
  · cases h
  split at h
  · cases h
  split at h
  · cases h
  rename_i hc
  simpa only [ne_eq, not_or, Decidable.not_not] using hc

theorem updateInvoiceRows_step {now : Time} {filter : InvoiceRow → Bool}
    {data : InvoiceRow → InvoiceRow} (hdata : ∀ row, (data row).id = row.id) :
    Keeps Step (updateInvoiceRows now filter data) := by
  intro p n q h
  obtain ⟨db, p', hread, h⟩ := Tx.bind_ok.mp h
  obtain ⟨hguard, rfl⟩ := Tx.read_ok.mp hread
  obtain ⟨u, hall, hdb⟩ := except_bind_ok.mp hguard
  cases hdb
  have hguard : ∀ row ∈ p.state.invoices, filter row = true →
      guardUpdate p.state now row (data row) = .ok () := by
    intro row hrow hf
    have hok := forM_ok.mp hall row (List.mem_filter.mpr ⟨hrow, hf⟩)
    exact mapError_ok.mp hok
  obtain ⟨u, q', hwrite, h⟩ := Tx.bind_ok.mp h
  obtain ⟨-, rfl⟩ := Tx.pure_ok.mp h
  rw [Tx.write_ok.mp hwrite]
  apply Step.write
  · intro k hk
    refine ⟨rfl, rfl, rfl, ?_, rfl, rfl, rfl, fun _ _ h _ => h, fun _ _ h _ => h⟩
    have hfind : (updateRows filter data p.state.invoices).find? (·.id = k) =
        (p.state.invoices.find? (·.id = k)).map fun row => if filter row then data row else row :=
      find?_updateRows hdata k
    cases hrow : p.state.invoice? k with
    | none =>
      unfold Db.invoice? at hrow ⊢
      rw [hfind, hrow]
      rfl
    | some row =>
      -- a matching row of invoice `k` would have marked it
      have hf : filter row = false := by
        cases hf : filter row with
        | false => rfl
        | true =>
          have hmem := List.mem_of_find?_eq_some hrow
          exact absurd (List.mem_map.mpr ⟨row, List.mem_filter.mpr ⟨hmem, hf⟩, invoice_id hrow⟩) hk
      exact find?_updateRows_unmatched hdata hrow hf
  · have hids : (updateRows filter data p.state.invoices).map (·.id) =
        p.state.invoices.map (·.id) := map_updateRows hdata
    refine ⟨rfl, rfl, fun h => hids ▸ h, ?_, ?_⟩
    · intro inv' hinv' sources hs
      obtain ⟨inv, hinv, rfl⟩ := List.mem_map.mp hinv'
      refine .inr ⟨inv, hinv, ?_⟩
      by_cases hf : filter inv = true
      · rw [← (guardUpdate_ok (hguard inv hinv hf)).1]
        simpa only [hf, ↓reduceIte] using hs
      · simpa only [hf, Bool.false_eq_true, ↓reduceIte] using hs
    · intro inv hinv
      refine ⟨_, List.mem_map.mpr ⟨inv, hinv, rfl⟩, ?_⟩
      by_cases hf : filter inv = true
      · obtain ⟨hsources, hreleased⟩ := guardUpdate_ok (hguard inv hinv hf)
        simp only [hf, ↓reduceIte]
        refine ⟨hdata inv, hsources, fun hn hr => ?_⟩
        obtain ⟨hat, hv⟩ := hreleased hn hr
        exact ⟨hat, fun _ => hv⟩
      · simp only [hf, Bool.false_eq_true, ↓reduceIte]
        exact ⟨trivial, trivial, fun _ _ => ⟨trivial, id⟩⟩

theorem insertInvoice_step {new : InvoiceRow}
    (hnew : ∀ sources, new.billingSources = some sources → sources.Distinct) :
    Keeps Step (insertInvoice new) := by
  intro p row q h
  obtain ⟨db, p', hread, h⟩ := Tx.bind_ok.mp h
  obtain ⟨hguard, rfl⟩ := Tx.read_ok.mp hread
  split at hguard
  · cases hguard
  rename_i hfresh
  obtain ⟨u, -, hdb⟩ := except_bind_ok.mp hguard
  cases hdb
  obtain ⟨u, q', hwrite, h⟩ := Tx.bind_ok.mp h
  obtain ⟨-, rfl⟩ := Tx.pure_ok.mp h
  rw [Tx.write_ok.mp hwrite]
  simp only [List.any_eq_true, decide_eq_true_eq, not_exists, not_and] at hfresh
  apply Step.write
  · intro k hk
    refine ⟨rfl, rfl, rfl, ?_, rfl, rfl, rfl, fun _ _ h _ => h, fun _ _ h _ => h⟩
    have hne : new.id ≠ k := fun he => hk (List.mem_singleton.mpr he.symm)
    simp [Db.invoice?, List.find?_append, hne]
  · refine ⟨rfl, rfl, fun h => ?_, ?_, ?_⟩
    · rw [List.map_append, List.nodup_append]
      refine ⟨h, by simp, ?_⟩
      intro id hid id' hid' he
      obtain ⟨inv, hinv, rfl⟩ := List.mem_map.mp hid
      simp only [List.map_cons, List.map_nil, List.mem_singleton] at hid'
      exact hfresh inv hinv (he.trans hid')
    · intro inv' hinv' sources hs
      rcases List.mem_append.mp hinv' with hinv | hinv
      · exact .inr ⟨inv', hinv, hs⟩
      · exact .inl (hnew sources (List.mem_singleton.mp hinv ▸ hs))
    · exact fun inv hinv =>
        ⟨inv, List.mem_append_left _ hinv, rfl, rfl, fun _ _ => ⟨rfl, id⟩⟩

theorem insertPayment_step {taken : Bool} {new : InvoicePayment} :
    Keeps Step (insertPayment taken new) := by
  intro p payment q h
  obtain ⟨db, p', hread, h⟩ := Tx.bind_ok.mp h
  obtain ⟨hguard, rfl⟩ := Tx.read_ok.mp hread
  split at hguard
  · cases hguard
  cases hguard
  obtain ⟨u, q', hwrite, h⟩ := Tx.bind_ok.mp h
  obtain ⟨-, rfl⟩ := Tx.pure_ok.mp h
  rw [Tx.write_ok.mp hwrite]
  apply Step.write
  · intro k hk
    refine ⟨rfl, rfl, rfl, rfl, ?_, rfl, rfl, fun _ _ h _ => h, fun _ _ h _ => h⟩
    have hne : new.invoiceId ≠ k := fun he => hk (List.mem_singleton.mpr he.symm)
    simp [hne]
  · exact .of_invoices rfl rfl rfl

end Ashbi.Billing

import Ashbi.Billing.Transactions

/-! Reviewed work is billed by at most one live invoice, and stays as it was reviewed. -/

namespace Ashbi.Billing

open Deferred Interleaving

/-- The row that a source is. -/
inductive SourceKey
  | time (id : String)
  | expense (id : String)
  deriving DecidableEq

def Source.key : Source → SourceKey
  | .time source => .time source.id
  | .expense source => .expense source.id

/-- The row is marked as billed by the invoice. -/
def Db.Claims (db : Db) : SourceKey → String → Prop
  | .time id, invoiceId =>
    ∃ row ∈ db.timeEntries, row.id = id ∧ row.invoiced = true ∧ row.invoiceId = some invoiceId
  | .expense id, invoiceId =>
    ∃ row ∈ db.expenses, row.id = id ∧ row.invoiced = true ∧ row.invoiceId = some invoiceId

/-- The sources that a live invoice lists. -/
def InvoiceRow.Bills (inv : InvoiceRow) (key : SourceKey) : Prop :=
  inv.status ≠ .void ∧ ∃ sources, inv.billingSources = some sources ∧
    ∃ line ∈ sources.lineItems, line.source.key = key

theorem find?_key {ρ : Type} {key : ρ → String} {rows : List ρ} (h : (rows.map key).Nodup)
    {row : ρ} (hr : row ∈ rows) : rows.find? (key · = key row) = some row := by
  cases hfind : rows.find? (key · = key row) with
  | none =>
    have hnone := List.find?_eq_none.mp hfind row hr
    simp at hnone
  | some found =>
    have hkey : key found = key row := by simpa using List.find?_some hfind
    rw [List.inj_on_of_nodup_map h (List.mem_of_find?_eq_some hfind) hr hkey]

theorem Sound.asserted {db : Db} (h : Sound db) {inv : InvoiceRow} (hinv : inv ∈ db.invoices)
    {sources : BillingSources} (hs : inv.billingSources = some sources) :
    Asserted db inv sources :=
  claimsGuard_ok.mp (h.checked inv.id) inv sources (find?_key h.invoiceIds hinv) hs

theorem Asserted.live {db : Db} {inv : InvoiceRow} {sources : BillingSources}
    (h : Asserted db inv sources) (hlive : inv.status ≠ .void) : Claimed db inv sources := by
  apply h.claimed
  by_contra hreleased
  exact hlive (h.released hreleased).status

theorem timeUnchanged_invoiced {inv : InvoiceRow} {source : TimeSource} {row : JoinedTime}
    (h : timeUnchanged inv source row = true) : row.src.invoiced = true := by
  simp only [timeUnchanged, Bool.and_eq_true, decide_eq_true_eq] at h
  tauto

theorem expenseUnchanged_invoiced {inv : InvoiceRow} {source : ExpenseSource} {src : Expense}
    {project : Option Project} (h : expenseUnchanged inv source src project = true) :
    src.invoiced = true := by
  simp only [expenseUnchanged, Bool.and_eq_true, decide_eq_true_eq] at h
  tauto

theorem assertSource_claims {db : Db} {inv : InvoiceRow} {source : Source}
    (h : assertSource db inv source = .ok ()) : db.Claims source.key inv.id := by
  cases source with
  | time source =>
    obtain ⟨row, hrow, hunchanged⟩ := assertSource_time.mp h
    obtain ⟨hsrc, -, -⟩ := joinedTime_eq.mp hrow
    have hid : row.src.id = source.id := by simpa using List.find?_some hsrc
    exact ⟨row.src, List.mem_of_find?_eq_some hsrc, hid, timeUnchanged_invoiced hunchanged,
      timeUnchanged_claim hunchanged⟩
  | expense source =>
    obtain ⟨src, hsrc, hunchanged⟩ := assertSource_expense.mp h
    have hid : src.id = source.id := by simpa using List.find?_some hsrc
    exact ⟨src, List.mem_of_find?_eq_some hsrc, hid, expenseUnchanged_invoiced hunchanged,
      expenseUnchanged_claim hunchanged⟩

/-- A live invoice holds what it bills. -/
theorem Sound.claims {db : Db} (h : Sound db) {inv : InvoiceRow} (hinv : inv ∈ db.invoices)
    {key : SourceKey} (hb : inv.Bills key) : db.Claims key inv.id := by
  obtain ⟨hlive, sources, hs, line, hline, rfl⟩ := hb
  exact assertSource_claims (((h.asserted hinv hs).live hlive).lines line hline)

theorem Sound.claims_unique {db : Db} (h : Sound db) {key : SourceKey} {i j : String}
    (hi : db.Claims key i) (hj : db.Claims key j) : i = j := by
  cases key with
  | time id =>
    obtain ⟨row, hrow, hid, -, howner⟩ := hi
    obtain ⟨row', hrow', hid', -, howner'⟩ := hj
    have heq := List.inj_on_of_nodup_map h.timeIds hrow hrow' (hid.trans hid'.symm)
    subst heq
    exact Option.some.inj (howner.symm.trans howner')
  | expense id =>
    obtain ⟨row, hrow, hid, -, howner⟩ := hi
    obtain ⟨row', hrow', hid', -, howner'⟩ := hj
    have heq := List.inj_on_of_nodup_map h.expenseIds hrow hrow' (hid.trans hid'.symm)
    subst heq
    exact Option.some.inj (howner.symm.trans howner')

/-- A released invoice is void. -/
theorem Sound.released_void {db : Db} (h : Sound db) {inv : InvoiceRow} (hinv : inv ∈ db.invoices)
    (hs : inv.billingSources ≠ none) (hr : inv.billingSourcesReleasedAt ≠ none) :
    inv.status = .void := by
  obtain ⟨sources, hsources⟩ := Option.ne_none_iff_exists'.mp hs
  exact ((h.asserted hinv hsources).released hr).status

section

variable {digests : Digests} {db : Db} {tr : List (Occurrence (machine digests))}
  {c : Config (machine digests)}

/-- In every reachable state a live invoice holds each source that it lists, so no source
is listed by two of them; and an invoice whose sources were released stays void. -/
theorem live_invoices (h0 : db.Unbilled) (h : Run Deployed db tr c) :
    (∀ inv ∈ c.state.invoices, ∀ key, inv.Bills key → c.state.Claims key inv.id) ∧
    (∀ inv ∈ c.state.invoices, ∀ inv' ∈ c.state.invoices, ∀ key, inv.Bills key → inv'.Bills key →
      inv = inv') ∧
    ∀ o ∈ tr, ∀ inv ∈ o.post.invoices, inv.billingSources ≠ none →
      inv.billingSourcesReleasedAt ≠ none → ∃ inv' ∈ c.state.invoices, inv'.id = inv.id ∧
        inv'.billingSourcesReleasedAt = inv.billingSourcesReleasedAt ∧ inv'.status = .void := by
  obtain ⟨hsound, htrace⟩ := run_sound h h0
  refine ⟨fun inv hinv key => hsound.claims hinv, ?_, ?_⟩
  · intro inv hinv inv' hinv' key hb hb'
    have hid := hsound.claims_unique (hsound.claims hinv hb) (hsound.claims hinv' hb')
    exact List.inj_on_of_nodup_map hsound.invoiceIds hinv hinv' hid
  · intro o ho inv hinv hs hr
    obtain ⟨hpre, hevolves⟩ := htrace o ho
    have hpost := (exec_step digests o.stmt o.choice o.pre).2 hpre
    obtain ⟨inv', hinv', hid, -, hreleased⟩ := hevolves.invoices inv hinv
    obtain ⟨hat, hvoid⟩ := hreleased hs hr
    exact ⟨inv', hinv', hid, hat, hvoid (hpost.released_void hinv hs hr)⟩

/-- Exactly at the end of the undo window a void invoice may be released and undone;
the undo comes second and fails. -/
theorem live_invoices_sample : ∃ (tr : List (Occurrence (machine sampleDigests)))
    (c : Config (machine sampleDigests)), Run Deployed sampleDb tr c ∧ c.done 3 = true ∧
    (c.state.invoices.map fun inv => (inv.status, inv.billingSourcesReleasedAt)) =
      [(.void, some 10001)] ∧
    ∀ inv ∈ c.state.invoices, ∀ inv' ∈ c.state.invoices, ∀ key, inv.Bills key → inv'.Bills key →
      inv = inv' := by
  have hrun : Run (M := machine sampleDigests) Deployed sampleDb _ _ :=
    Run.of_schedule (M := machine sampleDigests) sampleRequests sampleRequests_deployed
      [(0, sampleAnswer 0), (1, sampleAnswer 1), (1, sampleAnswer 1), (2, sampleAnswer 10001),
        (3, sampleAnswer 10001)]
  have h0 : sampleDb.Unbilled := by
    constructor <;> simp [sampleDb]
  exact ⟨_, _, hrun, by decide +kernel, by decide +kernel, (live_invoices h0 hrun).2.1⟩

end

/-! ### Billed work -/

/-- The snapshot lists only billable work, so the flag it stands for is `true`. -/
structure TimeAsReviewed (row : TimeEntry) (source : TimeSource) : Prop where
  invoiced : row.invoiced = true
  reviewStatus : row.reviewStatus = .approved
  deletedAt : row.deletedAt = none
  billable : row.billable = true
  projectId : row.projectId = source.projectId
  userId : row.userId = source.userId
  duration : row.duration = source.duration

structure ExpenseAsReviewed (row : Expense) (source : ExpenseSource) : Prop where
  invoiced : row.invoiced = true
  deletedAt : row.deletedAt = none
  projectId : row.projectId = source.projectId
  currency : row.currency = source.currency
  amount : row.amount = source.amount

/-- Every row that an unreleased invoice claims is one of its sources, as it was reviewed. -/
structure InvoiceRow.Reviewed (db : Db) (inv : InvoiceRow) (sources : BillingSources) : Prop where
  times : ∀ row ∈ db.timeEntries, row.invoiceId = some inv.id →
    ∃ source ∈ sources.times, source.id = row.id ∧ TimeAsReviewed row source
  expenses : ∀ row ∈ db.expenses, row.invoiceId = some inv.id →
    ∃ source ∈ sources.expenses, source.id = row.id ∧ ExpenseAsReviewed row source

def ReviewedWork (db : Db) : Prop :=
  ∀ inv ∈ db.invoices, ∀ sources, inv.billingSources = some sources →
    inv.billingSourcesReleasedAt = none → inv.Reviewed db sources

theorem timeUnchanged_reviewed {inv : InvoiceRow} {source : TimeSource} {row : JoinedTime}
    (h : timeUnchanged inv source row = true) : TimeAsReviewed row.src source := by
  simp only [timeUnchanged, Bool.and_eq_true, decide_eq_true_eq] at h
  constructor <;> tauto

theorem expenseUnchanged_reviewed {inv : InvoiceRow} {source : ExpenseSource} {src : Expense}
    {project : Option Project} (h : expenseUnchanged inv source src project = true) :
    ExpenseAsReviewed src source := by
  simp only [expenseUnchanged, Bool.and_eq_true, decide_eq_true_eq] at h
  constructor <;> tauto

/-- As many distinct names as rows, each of them the name of a row: every row is named. -/
theorem all_named {ρ : Type} (key : ρ → String) {rows : List ρ} {names : List String}
    (hn : names.Nodup) (hlen : rows.length = names.length)
    (hall : ∀ name ∈ names, ∃ row ∈ rows, key row = name) : ∀ row ∈ rows, key row ∈ names := by
  have hsub : names ⊆ rows.map key := fun name hname => by
    obtain ⟨row, hrow, he⟩ := hall name hname
    exact List.mem_map.mpr ⟨row, hrow, he⟩
  have hperm := (List.subperm_of_subset hn hsub).perm_of_length_le (by simp [hlen])
  intro row hrow
  exact hperm.mem_iff.mpr (List.mem_map.mpr ⟨row, hrow, rfl⟩)

theorem Claimed.time {db : Db} {inv : InvoiceRow} {sources : BillingSources}
    (h : Claimed db inv sources) {source : TimeSource} (hs : source ∈ sources.times) :
    ∃ row ∈ db.timeEntries, row.id = source.id ∧ row.invoiceId = some inv.id ∧
      TimeAsReviewed row source := by
  obtain ⟨line, hline, he⟩ := List.mem_filterMap.mp hs
  have hok := h.lines line hline
  rw [Line.time?_eq.mp he] at hok
  obtain ⟨row, hrow, hunchanged⟩ := assertSource_time.mp hok
  obtain ⟨hsrc, -, -⟩ := joinedTime_eq.mp hrow
  exact ⟨row.src, List.mem_of_find?_eq_some hsrc, by simpa using List.find?_some hsrc,
    timeUnchanged_claim hunchanged, timeUnchanged_reviewed hunchanged⟩

theorem Claimed.expense {db : Db} {inv : InvoiceRow} {sources : BillingSources}
    (h : Claimed db inv sources) {source : ExpenseSource} (hs : source ∈ sources.expenses) :
    ∃ row ∈ db.expenses, row.id = source.id ∧ row.invoiceId = some inv.id ∧
      ExpenseAsReviewed row source := by
  obtain ⟨line, hline, he⟩ := List.mem_filterMap.mp hs
  have hok := h.lines line hline
  rw [Line.expense?_eq.mp he] at hok
  obtain ⟨src, hsrc, hunchanged⟩ := assertSource_expense.mp hok
  exact ⟨src, List.mem_of_find?_eq_some hsrc, by simpa using List.find?_some hsrc,
    expenseUnchanged_claim hunchanged, expenseUnchanged_reviewed hunchanged⟩

theorem Claimed.reviewed {db : Db} {inv : InvoiceRow} {sources : BillingSources}
    (h : Claimed db inv sources) (hd : sources.Distinct) (hsound : Sound db) :
    inv.Reviewed db sources := by
  constructor
  · intro row hrow howner
    have hlen : (db.timeClaims inv.id).length = (sources.times.map (·.id)).length := by
      rw [List.length_map, h.times]
    have hmem : row ∈ db.timeClaims inv.id := List.mem_filter.mpr ⟨hrow, by simpa using howner⟩
    have hnamed := all_named (·.id) hd.times hlen ?_ row hmem
    · obtain ⟨source, hs, hid⟩ := List.mem_map.mp hnamed
      obtain ⟨row', hrow', hid', -, hreviewed⟩ := h.time hs
      have heq := List.inj_on_of_nodup_map hsound.timeIds hrow' hrow (hid'.trans hid)
      exact ⟨source, hs, hid, heq ▸ hreviewed⟩
    · intro name hname
      obtain ⟨source, hs, rfl⟩ := List.mem_map.mp hname
      obtain ⟨row', hrow', hid', howner', -⟩ := h.time hs
      exact ⟨row', List.mem_filter.mpr ⟨hrow', by simpa using howner'⟩, hid'⟩
  · intro row hrow howner
    have hlen : (db.expenseClaims inv.id).length = (sources.expenses.map (·.id)).length := by
      rw [List.length_map, h.expenses]
    have hmem : row ∈ db.expenseClaims inv.id := List.mem_filter.mpr ⟨hrow, by simpa using howner⟩
    have hnamed := all_named (·.id) hd.expenses hlen ?_ row hmem
    · obtain ⟨source, hs, hid⟩ := List.mem_map.mp hnamed
      obtain ⟨row', hrow', hid', -, hreviewed⟩ := h.expense hs
      have heq := List.inj_on_of_nodup_map hsound.expenseIds hrow' hrow (hid'.trans hid)
      exact ⟨source, hs, hid, heq ▸ hreviewed⟩
    · intro name hname
      obtain ⟨source, hs, rfl⟩ := List.mem_map.mp hname
      obtain ⟨row', hrow', hid', howner', -⟩ := h.expense hs
      exact ⟨row', List.mem_filter.mpr ⟨hrow', by simpa using howner'⟩, hid'⟩

theorem Sound.reviewedWork {db : Db} (h : Sound db) : ReviewedWork db :=
  fun inv hinv sources hs hr =>
    ((h.asserted hinv hs).claimed hr).reviewed (h.sources inv hinv sources hs) h

variable {digests : Digests} {db : Db} {tr : List (Occurrence (machine digests))}
  {c : Config (machine digests)}

/-- In every committed state billed work is as it was reviewed. A transaction that
would change that fails, and a transaction that fails changes nothing. -/
theorem reviewed_work (h0 : db.Unbilled) (h : Run Deployed db tr c) :
    ReviewedWork c.state ∧
    ∀ (transaction : Transaction) (ch : Choice),
      (∀ a p, transaction.body digests ch ⟨c.state, []⟩ = .ok (a, p) → ¬ ReviewedWork p.state →
        ∃ failure, exec digests (.commit transaction) ch c.state = (.error failure, c.state)) ∧
      ∀ failure, (exec digests (.commit transaction) ch c.state).1 = .error failure →
        (exec digests (.commit transaction) ch c.state).2 = c.state := by
  obtain ⟨hsound, -⟩ := run_sound h h0
  refine ⟨hsound.reviewedWork, fun transaction ch => ⟨?_, fun failure => transact_error⟩⟩
  intro a p hbody hbreaks
  rcases transact_cases claimsGuard (transaction.body digests ch) c.state with
    ⟨failure, hfail⟩ | ⟨a', p', hbody', -, hok⟩
  · exact ⟨failure, hfail⟩
  · rw [hbody] at hbody'
    cases hbody'
    -- a commit leaves the state of the body, which would then be sound
    have hpost := (exec_step digests (.commit transaction) ch c.state).2 hsound
    simp only [exec, hok] at hpost
    exact absurd hpost.reviewedWork hbreaks

/-- The reject request has read the entry before it is billed; its write then fails. -/
theorem reviewed_work_sample : ∃ (tr : List (Occurrence (machine sampleDigests)))
    (c : Config (machine sampleDigests)), Run Deployed sampleDb tr c ∧ c.done 4 = true ∧
    (c.state.timeEntries.map fun row => (row.reviewStatus, row.invoiceId)) =
      [(.approved, some "inv-1")] ∧
    ReviewedWork c.state := by
  have hrun : Run (M := machine sampleDigests) Deployed sampleDb _ _ :=
    Run.of_schedule (M := machine sampleDigests) sampleRequests sampleRequests_deployed
      [(4, sampleAnswer 1), (0, sampleAnswer 2), (4, sampleAnswer 3), (4, sampleAnswer 3)]
  have h0 : sampleDb.Unbilled := by
    constructor <;> simp [sampleDb]
  exact ⟨_, _, hrun, by decide +kernel, by decide +kernel, (reviewed_work h0 hrun).1⟩

end Ashbi.Billing

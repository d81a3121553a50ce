import Ashbi.Checked
import Ashbi.Invoicing.Money
import Ashbi.Invoicing.Row
import Ashbi.Keyed.Rows
import Ashbi.RecurringInvoices.Boundaries

/-! Runs of the job that copies recurring invoices. -/

namespace Ashbi.RecurringInvoices

open Calendar Checked Invoicing

structure LineItem where
  description : String
  itemType : String
  quantity : ℚ
  unitPrice : ℚ
  total : ℚ
  position : Option ℕ
  deriving DecidableEq

/-- The columns of an invoice that the job reads or writes. -/
structure Invoice where
  id : String
  invoiceNumber : String
  organizationId : Option String
  status : InvoiceStatus
  title : Option String
  notes : Option String
  currency : String
  taxRate : ℚ
  taxType : String
  discountAmount : ℚ
  subtotal : ℚ
  tax : ℚ
  total : ℚ
  clientId : String
  projectId : Option String
  createdById : String
  issueDate : Option Instant
  isRecurring : Bool
  recurringInterval : Option Interval
  recurringNextDate : Option Instant
  lineItems : List LineItem
  deriving DecidableEq

/-- `RECURRING_SOURCE_STATUSES`. -/
def recurringSource : InvoiceStatus → Bool
  | .sent | .viewed | .overdue | .paid => true
  | .draft | .void => false

/-- The invoices of a tenant. -/
structure Table where
  invoices : List Invoice
  unique : (invoices.map (·.id)).Nodup

namespace Table

def invoice (table : Table) (id : String) : Option Invoice := Keyed.find (·.id) table.invoices id

/-- The current billing date of an invoice. -/
def nextDate (table : Table) (id : String) : Option Instant :=
  (table.invoice id).bind (·.recurringNextDate)

end Table

def Invoice.due (invoice : Invoice) (now : Instant) : Bool :=
  invoice.isRecurring && invoice.recurringNextDate.any (·.val ≤ now.val) &&
    recurringSource invoice.status

/-! ### The claim and the copy -/

/-- The `where` of the claim, besides the id. -/
def Invoice.claimable (invoice live : Invoice) : Bool :=
  live.isRecurring && live.recurringNextDate = invoice.recurringNextDate &&
    recurringSource live.status

def Invoice.scheduled (invoice : Invoice) (nextDate : Instant) : Invoice :=
  { invoice with recurringNextDate := some nextDate }

/-- The rows after the claim. -/
def claimedRows (rows : List Invoice) (invoice : Invoice) (nextDate : Instant) : List Invoice :=
  rows.map fun live =>
    if live.id = invoice.id && invoice.claimable live then live.scheduled nextDate else live

theorem claimedRows_ids (rows : List Invoice) (invoice : Invoice) (nextDate : Instant) :
    (claimedRows rows invoice nextDate).map (·.id) = rows.map (·.id) := by
  apply Keyed.keys_map
  intro live
  split <;> rfl

/-- `updateMany` of the claim. -/
def Table.claim (table : Table) (invoice : Invoice) (nextDate : Instant) : Table where
  invoices := claimedRows table.invoices invoice nextDate
  unique := by
    rw [claimedRows_ids]
    exact table.unique

/-- How many rows the claim updates. -/
def Table.claimed (table : Table) (invoice : Invoice) : ℕ :=
  table.invoices.countP fun live => live.id = invoice.id && invoice.claimable live

def lineItemsData (invoice : Invoice) : List LineItem :=
  invoice.lineItems.mapIdx fun idx li =>
    { li with
      itemType := if li.itemType = "" then "LABOR" else li.itemType
      position := some (li.position.getD idx) }

/-- The number that is allocated to a copy, and the id that the database gives it. -/
structure Allocation where
  id : String
  invoiceNumber : String
  organizationId : String

/-- `invoiceNumberAllocator` for the client of a copy; its error is any that rolls the
transaction back. -/
abbrev Allocator := Table → String → Except String Allocation

/-- The data of a copy. -/
def copyOf (invoice : Invoice) (allocation : Allocation) (now : Instant) : Invoice :=
  let totals := invoiceTotals ((lineItemsData invoice).map (·.total)) invoice.taxRate
    invoice.discountAmount
  { id := allocation.id
    invoiceNumber := allocation.invoiceNumber
    organizationId := some allocation.organizationId
    status := .draft
    title := invoice.title
    notes := invoice.notes
    currency := invoice.currency
    taxRate := invoice.taxRate
    taxType := invoice.taxType
    discountAmount := invoice.discountAmount
    subtotal := totals.subtotal
    tax := totals.tax
    total := totals.total
    clientId := invoice.clientId
    projectId := invoice.projectId
    createdById := invoice.createdById
    issueDate := some now
    isRecurring := false
    recurringInterval := none
    recurringNextDate := none
    lineItems := lineItemsData invoice }

/-- Ids are unique, and so are the numbers of an organization. -/
def Table.create (table : Table) (row : Invoice) : Except String Table :=
  if h : (table.invoice row.id).isSome then .error "P2002"
  else if table.invoices.any fun other => other.organizationId = row.organizationId &&
      other.invoiceNumber = row.invoiceNumber then .error "P2002"
  else .ok
    { invoices := table.invoices ++ [row]
      unique := by
        rw [List.map_append]
        refine List.nodup_append.mpr ⟨table.unique, by simp, fun a ha b hb => ?_⟩
        obtain rfl : b = row.id := List.mem_singleton.mp hb
        rintro rfl
        exact h (Keyed.find_isSome.mpr ha) }

/-- The transaction that claims and generates. -/
def claimAndGenerate (allocate : Allocator) (now : Instant) (invoice : Invoice)
    (nextDate : Instant) (table : Table) : Except String (Option Invoice × Table) := do
  let claimed := table.claim invoice nextDate
  if table.claimed invoice ≠ 1 then pure (none, claimed)
  else
    let allocation ← allocate claimed invoice.clientId
    let copy := copyOf invoice allocation now
    let created ← claimed.create copy
    pure (some copy, created)

/-! ### One run -/

/-- What is logged of a generated copy. -/
structure Generated where
  source : String
  claimedDate : Option Instant
  nextDate : Instant
  copy : Invoice

structure Report where
  examined : ℕ
  generated : List Generated
  failures : List (String × String)

/-- One due invoice. An invalid date cannot be written. -/
def processInvoice (allocate : Allocator) (now : Instant) (state : Report × Table)
    (invoice : Invoice) : Report × Table :=
  let (report, table) := state
  let anchor := invoice.issueDate <|> invoice.recurringNextDate
  match firstRecurringDate anchor invoice.recurringInterval now with
  | none => ({ report with failures := report.failures ++ [(invoice.id, "Invalid Date")] }, table)
  | some nextDate =>
    match claimAndGenerate allocate now invoice nextDate table with
    | .error message =>
      ({ report with failures := report.failures ++ [(invoice.id, message)] }, table)
    | .ok (none, table) => (report, table)
    | .ok (some copy, table) =>
      ({ report with
          generated := report.generated ++
            [⟨invoice.id, invoice.recurringNextDate, nextDate, copy⟩] }, table)

def processRecurringInvoices (allocate : Allocator) (now : Instant) (table : Table) :
    Report × Table :=
  let dueInvoices := table.invoices.filter (·.due now)
  dueInvoices.foldl (processInvoice allocate now) (⟨dueInvoices.length, [], []⟩, table)

/-- Runs one after the other, each with its allocator and its time. -/
def processRuns : List (Allocator × Instant) → Table → List Report × Table
  | [], table => ([], table)
  | (allocate, now) :: runs, table =>
    let (report, table) := processRecurringInvoices allocate now table
    let (reports, table) := processRuns runs table
    (report :: reports, table)

/-! ### What one due invoice does -/

variable {allocate : Allocator} {now nextDate : Instant} {table table' : Table} {invoice : Invoice}

theorem claimed_eq (table : Table) (invoice : Invoice) :
    table.claimed invoice = if (table.invoice invoice.id).any invoice.claimable then 1 else 0 :=
  Keyed.count_and table.unique invoice.claimable

theorem claim_invoices (table : Table) (invoice : Invoice) (nextDate : Instant) :
    (table.claim invoice nextDate).invoices =
      if (table.invoice invoice.id).any invoice.claimable then
        table.invoices.map fun live =>
          if live.id = invoice.id then live.scheduled nextDate else live
      else table.invoices :=
  Keyed.map_and table.unique invoice.claimable (·.scheduled nextDate)

/-- Only the claimed row gets another date. -/
theorem claim_nextDate (h : table.claimed invoice = 1) (id : String) :
    table.nextDate invoice.id = invoice.recurringNextDate ∧
      (table.claim invoice nextDate).nextDate id =
        if id = invoice.id then some nextDate else table.nextDate id := by
  rw [claimed_eq] at h
  split at h
  case isFalse => cases h
  rename_i hany
  obtain ⟨live, hlive, hclaimable⟩ := (Option.any_eq_true _ _).mp hany
  have hdate : live.recurringNextDate = invoice.recurringNextDate := by
    simp only [Invoice.claimable, Bool.and_eq_true, decide_eq_true_eq] at hclaimable
    exact hclaimable.1.2
  constructor
  · rw [Table.nextDate, hlive]
    exact hdate
  · have hrow : (table.claim invoice nextDate).invoice id =
        (table.invoice id).map fun row =>
          if id = invoice.id then row.scheduled nextDate else row := by
      rw [Table.invoice, claim_invoices, if_pos hany]
      exact @Keyed.find_update Invoice String _ (·.id) (·.scheduled nextDate) (fun _ => rfl)
        table.invoices invoice.id id
    rw [Table.nextDate, hrow]
    split
    · rename_i hid
      rw [hid, hlive]
      rfl
    · rw [Option.map_id']
      rfl

/-- A claim of no row changes nothing. -/
theorem claim_none (h : table.claimed invoice ≠ 1) :
    (table.claim invoice nextDate).invoices = table.invoices := by
  rw [claimed_eq] at h
  split at h
  case isTrue => exact absurd rfl h
  rename_i hany
  rw [claim_invoices, if_neg hany]

theorem create_ok {row : Invoice} (h : table.create row = .ok table') :
    table.invoice row.id = none ∧ table'.invoices = table.invoices ++ [row] := by
  unfold Table.create at h
  split at h
  · cases h
  rename_i hnew
  split at h
  · cases h
  · obtain rfl := Except.ok.inj h
    exact ⟨by simpa using hnew, rfl⟩

/-- A new row without a date changes no date. -/
theorem create_nextDate {row : Invoice} (h : table.create row = .ok table')
    (hdate : row.recurringNextDate = none) (id : String) :
    table'.nextDate id = table.nextDate id := by
  obtain ⟨hnew, hrows⟩ := create_ok h
  unfold Table.nextDate Table.invoice
  rw [hrows, Keyed.find_append hnew]
  split
  · rename_i hid
    subst hid
    rw [← Table.invoice, hnew, Option.bind_some, Option.bind_none, hdate]
  · rfl

/-- What one due invoice adds to the report, with what it does to the table. -/
structure Step (now : Instant) (id : String) (generated : Option Generated) (table table' : Table) :
    Prop where
  ids : table'.invoices.map (·.id) =
    table.invoices.map (·.id) ++ generated.toList.map (·.copy.id)
  claims : ∀ g ∈ generated, g.source = id ∧ table.nextDate id = g.claimedDate ∧
    table'.nextDate id = some g.nextDate ∧ now.val < g.nextDate.val
  others : ∀ x, (∀ g ∈ generated, x ≠ g.source) → table'.nextDate x = table.nextDate x

theorem Step.quiet (h : table'.invoices = table.invoices) (id : String) :
    Step now id none table table' where
  ids := by simp [h]
  claims := by simp
  others x _ := by rw [Table.nextDate, Table.invoice, h]; rfl

theorem claimAndGenerate_step {copy : Option Invoice} (hafter : now.val < nextDate.val)
    (h : claimAndGenerate allocate now invoice nextDate table = .ok (copy, table')) :
    Step now invoice.id
      (copy.map fun copy => ⟨invoice.id, invoice.recurringNextDate, nextDate, copy⟩)
      table table' := by
  unfold claimAndGenerate at h
  dsimp only at h
  split at h
  · rename_i hcount
    obtain ⟨rfl, rfl⟩ := Prod.mk.inj (pure_ok.mp h)
    exact Step.quiet (claim_none hcount) _
  · rename_i hcount
    rw [not_not] at hcount
    simp only [bind_ok, pure_ok, Prod.mk.injEq] at h
    obtain ⟨allocation, -, created, hcreated, rfl, rfl⟩ := h
    have hdates := @claim_nextDate nextDate _ _ hcount
    have hsame := create_nextDate hcreated rfl
    refine ⟨?_, ?_, ?_⟩
    · rw [(create_ok hcreated).2, List.map_append, Table.claim, claimedRows_ids]
      rfl
    · intro g hg
      obtain rfl := Option.some.inj hg
      refine ⟨rfl, (hdates invoice.id).1, ?_, hafter⟩
      rw [hsame, (hdates invoice.id).2, if_pos rfl]
    · intro x hx
      have hne : x ≠ invoice.id := hx _ rfl
      rw [hsame, (hdates x).2, if_neg hne]

/-- One due invoice generates at most one copy. -/
theorem processInvoice_step (report : Report) (table : Table) (invoice : Invoice) :
    ∃ generated, Step now invoice.id generated table
        (processInvoice allocate now (report, table) invoice).2 ∧
      (processInvoice allocate now (report, table) invoice).1.generated =
        report.generated ++ generated.toList ∧
      ∀ g ∈ generated, g.claimedDate = invoice.recurringNextDate := by
  unfold processInvoice
  dsimp only
  split
  · exact ⟨none, Step.quiet rfl _, by simp, by simp⟩
  rename_i nextDate hdate
  have hafter := firstRecurringDate_gt hdate
  split
  · exact ⟨none, Step.quiet rfl _, by simp, by simp⟩
  · rename_i table' h
    exact ⟨none, claimAndGenerate_step hafter h, by simp, by simp⟩
  · rename_i copy table' h
    refine ⟨_, claimAndGenerate_step hafter h, rfl, ?_⟩
    intro g hg
    obtain rfl := Option.some.inj hg
    rfl

/-! ### Every run -/

/-- Both dates are there, and the first is earlier. -/
def Before (a b : Option Instant) : Prop := ∃ d ∈ a, ∃ e ∈ b, d.val < e.val

/-- The dates that were claimed of a source, up to its current one. -/
structure Increasing (log : List Generated) (date : Option Instant) : Prop where
  claimed : log.Pairwise fun a b => Before a.claimedDate b.claimedDate
  next : log.Pairwise fun a b => a.nextDate.val < b.nextDate.val
  current : ∀ g ∈ log, ∀ d ∈ date, g.nextDate.val ≤ d.val ∧ Before g.claimedDate (some d)

/-- A claim of the current date moves it on. -/
theorem Increasing.claim {log : List Generated} {date : Instant} {g : Generated}
    (h : Increasing log (some date)) (hclaimed : g.claimedDate = some date)
    (hlt : date.val < g.nextDate.val) : Increasing (log ++ [g]) (some g.nextDate) where
  claimed := by
    refine List.pairwise_append.mpr ⟨h.claimed, List.pairwise_singleton _ _, ?_⟩
    intro a ha b hb
    rw [List.mem_singleton.mp hb, hclaimed]
    exact (h.current a ha date rfl).2
  next := by
    refine List.pairwise_append.mpr ⟨h.next, List.pairwise_singleton _ _, ?_⟩
    intro a ha b hb
    rw [List.mem_singleton.mp hb]
    have hle := (h.current a ha date rfl).1
    omega
  current := by
    intro a ha d hd
    obtain rfl := Option.some.inj hd
    rcases List.mem_append.mp ha with ha | ha
    · obtain ⟨hle, c, hc, e, he, hce⟩ := h.current a ha date rfl
      obtain rfl := Option.some.inj he
      exact ⟨by omega, c, hc, _, rfl, by omega⟩
    · rw [List.mem_singleton.mp ha]
      exact ⟨le_rfl, date, hclaimed, _, rfl, hlt⟩

/-- The copies of one source. -/
def ofSource (log : List Generated) (x : String) : List Generated := log.filter (·.source = x)

theorem Step.increasing {generated : Option Generated} {id : String}
    (h : Step now id generated table table')
    (hdue : ∀ g ∈ generated, ∃ date ∈ g.claimedDate, date.val ≤ now.val) {x : String}
    {log : List Generated} (hlog : Increasing log (table.nextDate x)) :
    Increasing (log ++ ofSource generated.toList x) (table'.nextDate x) := by
  cases hgenerated : generated with
  | none =>
    rw [h.others x (by simp [hgenerated])]
    simpa [ofSource] using hlog
  | some g =>
    obtain ⟨hsource, hcurrent, hnext, hafter⟩ := h.claims g hgenerated
    by_cases hx : g.source = x
    · obtain ⟨date, hclaimed, hle⟩ := hdue g hgenerated
      subst hx
      rw [hsource, hcurrent, hclaimed] at hlog
      rw [hsource, hnext]
      have hnew := hlog.claim hclaimed (by omega)
      simpa [ofSource, hsource] using hnew
    · rw [h.others x (by simpa [hgenerated] using fun hsame => hx hsame.symm)]
      simpa [ofSource, hx] using hlog

/-- What some due invoices add to the report, with what they do to the table. -/
structure Steps (processed : List String) (generated : List Generated) (table table' : Table) :
    Prop where
  ids : table'.invoices.map (·.id) = table.invoices.map (·.id) ++ generated.map (·.copy.id)
  sources : (generated.map (·.source)).Sublist processed
  increasing : ∀ x log, Increasing log (table.nextDate x) →
    Increasing (log ++ ofSource generated x) (table'.nextDate x)

theorem fold_steps (invoices : List Invoice) (hdue : ∀ row ∈ invoices, row.due now = true)
    (report : Report) (table : Table) :
    ∃ generated, Steps (invoices.map (·.id)) generated table
        (invoices.foldl (processInvoice allocate now) (report, table)).2 ∧
      (invoices.foldl (processInvoice allocate now) (report, table)).1.generated =
        report.generated ++ generated := by
  induction invoices generalizing report table with
  | nil => exact ⟨[], ⟨by simp, by simp, fun x log hlog => by simpa [ofSource] using hlog⟩, by simp⟩
  | cons invoice invoices ih =>
    obtain ⟨first, hstep, hreport, hclaimed⟩ :=
      @processInvoice_step allocate now report table invoice
    obtain ⟨rest, hsteps, hrest⟩ := ih (fun row hrow => hdue row (List.mem_cons_of_mem _ hrow))
      (processInvoice allocate now (report, table) invoice).1
      (processInvoice allocate now (report, table) invoice).2
    refine ⟨first.toList ++ rest, ⟨?_, ?_, fun x log hlog => ?_⟩, ?_⟩
    · rw [List.foldl_cons, hsteps.ids, hstep.ids]
      simp
    · have hfirst : (first.toList.map (·.source)).Sublist [invoice.id] := by
        cases first with
        | none => simp
        | some g => simp [(hstep.claims g rfl).1]
      rw [List.map_append, List.map_cons]
      exact hfirst.append hsteps.sources
    · have hnow : ∀ g ∈ first, ∃ date ∈ g.claimedDate, date.val ≤ now.val := by
        intro g hg
        have hrow := hdue invoice List.mem_cons_self
        simp only [Invoice.due, Bool.and_eq_true] at hrow
        obtain ⟨date, hdate, hle⟩ := (Option.any_eq_true _ _).mp hrow.1.2
        rw [hclaimed g hg]
        exact ⟨date, hdate, of_decide_eq_true hle⟩
      have hnext := hsteps.increasing x _ (hstep.increasing hnow hlog)
      simpa [ofSource] using hnext
    · rw [List.foldl_cons, hrest, hreport, List.append_assoc]

theorem run_steps (allocate : Allocator) (now : Instant) (table : Table) :
    Steps ((table.invoices.filter (·.due now)).map (·.id))
      (processRecurringInvoices allocate now table).1.generated table
      (processRecurringInvoices allocate now table).2 := by
  obtain ⟨generated, hsteps, hreport⟩ := @fold_steps allocate now
    (table.invoices.filter (·.due now)) (fun row hrow => (List.mem_filter.mp hrow).2)
    ⟨(table.invoices.filter (·.due now)).length, [], []⟩ table
  rw [List.nil_append] at hreport
  rw [← hreport] at hsteps
  exact hsteps

/-- A run generates at most one copy of a source. -/
theorem run_once (allocate : Allocator) (now : Instant) (table : Table) (x : String) :
    (ofSource (processRecurringInvoices allocate now table).1.generated x).length ≤ 1 := by
  have hsources := (run_steps allocate now table).sources
  have hunique : ((processRecurringInvoices allocate now table).1.generated.map (·.source)).Nodup :=
    (table.unique.sublist (List.filter_sublist.map _)).sublist hsources
  rw [ofSource, Keyed.filter_key hunique]
  cases Keyed.find (·.source) (processRecurringInvoices allocate now table).1.generated x <;> simp

/-- The copies of all runs, in their order. -/
def copies (reports : List Report) : List Generated := reports.flatMap (·.generated)

theorem runs_steps (runs : List (Allocator × Instant)) (table : Table) :
    (processRuns runs table).2.invoices.map (·.id) =
        table.invoices.map (·.id) ++ (copies (processRuns runs table).1).map (·.copy.id) ∧
      ∀ x log, Increasing log (table.nextDate x) →
        Increasing (log ++ ofSource (copies (processRuns runs table).1) x)
          ((processRuns runs table).2.nextDate x) := by
  induction runs generalizing table with
  | nil => exact ⟨by simp [processRuns, copies], by simp [processRuns, copies, ofSource]⟩
  | cons run runs ih =>
    obtain ⟨allocate, now⟩ := run
    have hrun := run_steps allocate now table
    obtain ⟨hids, hincreasing⟩ := ih (processRecurringInvoices allocate now table).2
    constructor
    · simp only [processRuns, copies, List.flatMap_cons] at hids ⊢
      rw [hids, hrun.ids, List.map_append, List.append_assoc]
    · intro x log hlog
      have hnext := hincreasing x _ (hrun.increasing x log hlog)
      simpa [processRuns, copies, ofSource] using hnext

theorem runs_once (runs : List (Allocator × Instant)) (table : Table) :
    ∀ report ∈ (processRuns runs table).1, ∀ x, (ofSource report.generated x).length ≤ 1 := by
  induction runs generalizing table with
  | nil => simp [processRuns]
  | cons run runs ih =>
    obtain ⟨allocate, now⟩ := run
    intro report hreport
    simp only [processRuns, List.mem_cons] at hreport
    rcases hreport with rfl | hreport
    · exact run_once allocate now table
    · exact ih _ report hreport

/-- The next billing date is the first boundary after now exactly where that boundary can be
reached; over any runs, each generates at most one copy of a source, and the claimed dates of a
source and the dates that they are moved to strictly increase. -/
theorem recurring_dates (anchor : Instant) (interval : Option Interval) (now : Instant)
    (runs : List (Allocator × Instant)) (table : Table) :
    (IsFirstBoundary anchor interval now (firstRecurringDate (some anchor) interval now) ↔
      ∃ k, FirstAt anchor interval now k ∧ Reaches anchor (k * intervalMonths interval)) ∧
    (∀ report ∈ (processRuns runs table).1, ∀ x, (ofSource report.generated x).length ≤ 1) ∧
    (processRuns runs table).2.invoices.map (·.id) =
      table.invoices.map (·.id) ++ (copies (processRuns runs table).1).map (·.copy.id) ∧
    ∀ x, (ofSource (copies (processRuns runs table).1) x).Pairwise fun a b =>
      Before a.claimedDate b.claimedDate ∧ a.nextDate.val < b.nextDate.val := by
  refine ⟨firstRecurringDate_first, runs_once runs table, (runs_steps runs table).1, fun x => ?_⟩
  have hnone : Increasing [] (table.nextDate x) := ⟨.nil, .nil, by simp⟩
  have hall := (runs_steps runs table).2 x [] hnone
  rw [List.nil_append] at hall
  exact hall.claimed.and hall.next

/-- Of 31 January of the year 0 the first month ends on 29 February, which is passed over. -/
theorem firstRecurringDate_year_zero :
    ¬ IsFirstBoundary ⟨timeOn (monthStart 0 + 30) 0, by decide⟩ (some .monthly)
      ⟨timeOn (monthStart 1) 0, by decide⟩
      (firstRecurringDate (some ⟨timeOn (monthStart 0 + 30) 0, by decide⟩) (some .monthly)
        ⟨timeOn (monthStart 1) 0, by decide⟩) := by
  intro h
  obtain ⟨k, hfirst, hreaches⟩ := firstRecurringDate_first.mp h
  have hk : k = 1 := by
    by_contra hne
    have hpos := hfirst.pos
    have hbefore := hfirst.before 1 le_rfl (by omega)
    exact absurd hbefore (by decide)
  subst hk
  exact absurd (hreaches.length (by decide)) (by decide)

end Ashbi.RecurringInvoices

import Ashbi.Pilot.Exact

/-! Plans of provider drafts for invoices with one installment. -/

namespace Ashbi.Pilot.Drafts

open Checked HalfUp Installments

inductive ProviderState
  | notConnected
  | pending
  | unknown
  | draft
  | open
  | paid
  | void
  deriving DecidableEq

/-- A stored invoice, with the snapshot that its JSON text holds. -/
structure InvoiceRow where
  id : String
  clientId : String
  isDraft : Bool
  providerState : ProviderState
  stripeInvoiceId : Option String
  paidMinor : ℤ
  releasedAt : Option Time
  revision : ℤ
  title : String
  currency : String
  subtotalMinor : ℤ
  taxMinor : ℤ
  totalMinor : ℤ
  previewFingerprint : String
  snapshot : Preview
  deriving DecidableEq

structure PlanLine where
  index : ℕ
  description : List ℕ
  amountMinor : ℤ
  taxMinor : ℤ
  deriving DecidableEq

/-- A customer of the provider, by the fields that a plan keeps as they are. -/
structure Customer where
  id : String
  name : String
  deriving DecidableEq

structure Mapping where
  id : String
  customerId : String
  deriving DecidableEq

/-- A plan of version 1, which advances, sends and charges nothing by itself. -/
structure Plan where
  invoiceId : String
  invoiceRevision : ℤ
  sourceFingerprint : String
  mappingId : String
  accountId : String
  client : Party
  customer : Customer
  title : String
  currency : String
  dueAt : ℤ
  tax : Tax
  lines : List PlanLine
  subtotalMinor : ℤ
  taxMinor : ℤ
  totalMinor : ℤ
  fingerprint : String
  deriving DecidableEq

/-- What the tables, the provider and the clock answer. -/
structure Provider where
  accountId : Except Failure String
  client : String → Except Failure Party
  mapping : String → String → Option Mapping
  customer : String → Except Failure Customer
  sha : Plan → String
  now : Time
  hasFinance : Bool

/-- What an amount of a draft may be at most. -/
def maxDraft : ℤ := 99999999

/-- The loop over the lines, with the sums of their amounts and of their taxes. -/
def planLines (rateBps : ℤ) : ℕ → ℤ → ℤ → List Line → Except Failure (List PlanLine × ℤ × ℤ)
  | _, cumulative, previousTax, [] => .ok ([], cumulative, previousTax)
  | index, cumulative, previousTax, line :: rest => do
    refuse (!integer line.totalMinor 0 max || maxDraft < line.totalMinor) (.status 409)
    let cumulative := cumulative + line.totalMinor
    let totalTax := (cumulative * rateBps * 2 + 10000) / 20000
    let (lines, sums) ← planLines rateBps (index + 1) cumulative totalTax rest
    pure (⟨index, described line, line.totalMinor, totalTax - previousTax⟩ :: lines, sums)

/-- The seconds of a due date. -/
def dueAt (dueOn : String) : Option ℤ := (Calendar.parseDate dueOn).map (· * 86400)

def draftPreview (provider : Provider) (row : InvoiceRow) : Except Failure Plan := do
  let accountId ← provider.accountId
  refuse (!row.isDraft || row.providerState ≠ .notConnected || row.stripeInvoiceId.isSome ||
    row.paidMinor ≠ 0 || row.releasedAt.isSome) (.status 409)
  let snapshot := row.snapshot
  let party ← provider.client row.clientId
  refuse (snapshot.installments.map (·.kind) ≠ [.full] || snapshot.client ≠ party ||
    maxDraft < row.totalMinor || 100 < snapshot.lines.length) (.status 409)
  let dueAt ← found (dueAt snapshot.dueOn) (.status 409)
  refuse (dueAt * 1000 ≤ provider.now) (.status 409)
  let mapping ← found (provider.mapping row.clientId accountId) (.status 409)
  let customer ← provider.customer mapping.customerId
  let (lines, cumulative, tax) ← planLines snapshot.tax.rateBps 0 0 0 snapshot.lines
  refuse (cumulative ≠ row.subtotalMinor || tax ≠ row.taxMinor ||
    row.totalMinor ≠ row.subtotalMinor + row.taxMinor) (.status 409)
  let plan : Plan :=
    { invoiceId := row.id
      invoiceRevision := row.revision
      sourceFingerprint := row.previewFingerprint
      mappingId := mapping.id
      accountId := accountId
      client := party
      customer := customer
      title := row.title
      currency := row.currency
      dueAt := dueAt
      tax := snapshot.tax
      lines := lines
      subtotalMinor := row.subtotalMinor
      taxMinor := row.taxMinor
      totalMinor := row.totalMinor
      fingerprint := "" }
  refuse (!provider.hasFinance) (.status 403)
  pure { plan with fingerprint := provider.sha plan }

/-- The checks of amounts accept a row, and its lines are these. -/
structure Accepted (row : InvoiceRow) (lines : List PlanLine) : Prop where
  total : row.totalMinor ≤ maxDraft
  length : row.snapshot.lines.length ≤ 100
  lines : planLines row.snapshot.tax.rateBps 0 0 0 row.snapshot.lines =
    .ok (lines, row.subtotalMinor, row.taxMinor)
  sum : row.totalMinor = row.subtotalMinor + row.taxMinor

/-- A plan has the lines and the amounts that were accepted. -/
theorem draftPreview_accepted {provider : Provider} {row : InvoiceRow} {plan : Plan}
    (h : draftPreview provider row = .ok plan) :
    Accepted row plan.lines ∧ plan.subtotalMinor = row.subtotalMinor ∧
      plan.taxMinor = row.taxMinor ∧ plan.totalMinor = row.totalMinor := by
  simp only [draftPreview, bind_ok, refuse_ok, found_ok, pure_ok, Bool.or_eq_false_iff,
    decide_eq_false_iff_not, not_not, not_lt] at h
  obtain ⟨accountId, -, -, -, party, -, -, ⟨⟨-, htotal⟩, hlength⟩, dueAt, -, -, -, mapping, -,
    customer, -, ⟨lines, cumulative, tax⟩, hlines, -, ⟨⟨rfl, rfl⟩, hsum⟩, -, -, rfl⟩ := h
  exact ⟨⟨htotal, hlength, hlines, hsum⟩, rfl, rfl, rfl⟩

/-! ### Lines of plans -/

/-- The lines of a plan are those of the snapshot, with the differences of the rounded taxes. -/
theorem planLines_ok {rateBps : ℤ} {index : ℕ} {cumulative subtotalMinor taxMinor : ℤ}
    {rows : List Line} {lines : List PlanLine}
    (h : planLines rateBps index cumulative (half (rateBps * cumulative) 10000) rows =
      .ok (lines, subtotalMinor, taxMinor)) :
    lines.map (fun line => (line.index, line.description)) =
        (rows.zipIdx index).map (fun (line, i) => (i, described line)) ∧
      lines.map (·.amountMinor) = rows.map Line.totalMinor ∧
      lines.map (·.taxMinor) = differences rateBps 10000 cumulative (rows.map Line.totalMinor) ∧
      subtotalMinor = cumulative + (rows.map Line.totalMinor).sum ∧
      taxMinor = half (rateBps * (cumulative + (rows.map Line.totalMinor).sum)) 10000 := by
  induction rows generalizing index cumulative lines with
  | nil =>
    simp only [planLines, Except.ok.injEq, Prod.mk.injEq] at h
    obtain ⟨rfl, rfl, rfl⟩ := h
    simp [differences]
  | cons row rows ih =>
    have hhalf : (cumulative + row.totalMinor) * rateBps * 2 + 10000 =
        rateBps * (cumulative + row.totalMinor) * 2 + 10000 := by ring
    simp only [planLines, bind_ok, refuse_ok, pure_ok] at h
    rw [hhalf, show ((20000 : ℤ)) = 10000 * 2 by rfl] at h
    obtain ⟨-, -, ⟨rest, sums⟩, hrest, heq⟩ := h
    obtain ⟨rfl, rfl⟩ := Prod.mk.inj heq
    obtain ⟨hlabels, hamounts, htaxes, hsum, htax⟩ := ih hrest
    rw [add_assoc] at hsum htax
    refine ⟨?_, ?_, ?_, hsum, htax⟩
    · rw [List.map_cons, hlabels, List.zipIdx_cons, List.map_cons]
    · rw [List.map_cons, hamounts, List.map_cons]
    · rw [List.map_cons, htaxes, List.map_cons, differences]
      rfl

/-- The line of an installment without its source. -/
def planLine (line : PartLine) : PlanLine :=
  ⟨line.index, line.description, line.amountMinor, line.taxMinor⟩

theorem planLines_ext {as bs : List PlanLine}
    (hlabels : as.map (fun line => (line.index, line.description)) =
      bs.map fun line => (line.index, line.description))
    (hamounts : as.map (·.amountMinor) = bs.map (·.amountMinor))
    (htaxes : as.map (·.taxMinor) = bs.map (·.taxMinor)) : as = bs := by
  induction as generalizing bs with
  | nil =>
    cases bs with
    | nil => rfl
    | cons b bs => cases hlabels
  | cons a as ih =>
    cases bs with
    | nil => cases hlabels
    | cons b bs =>
      simp only [List.map_cons, List.cons.injEq, Prod.mk.injEq] at hlabels hamounts htaxes
      obtain ⟨⟨hindex, hdescription⟩, hlabels⟩ := hlabels
      rw [ih hlabels hamounts.2 htaxes.2]
      obtain ⟨index, description, amount, tax⟩ := a
      obtain ⟨index', description', amount', tax'⟩ := b
      simp_all

theorem full_of_kinds {p : Preview} (hp : Produced p)
    (h : p.installments.map (·.kind) = [.full]) :
    p.installments = [⟨.full, p.totalMinor, p.dueOn⟩] := by
  cases hp.scheduled with
  | full hfull => exact hfull
  | parts amount dueOn _ _ _ _ hparts =>
    rw [hparts] at h
    cases h

/-- The one installment of a clean row has the lines and the amounts of its plan. -/
theorem allocated_plan {row : InvoiceRow} {lines : List PlanLine} (hp : Produced row.snapshot)
    (hclean : Clean row.snapshot) (hfull : row.snapshot.installments.map (·.kind) = [.full])
    (h : Accepted row lines) :
    ∃ part holds, allocateInstallments row.snapshot = .ok ⟨[part], holds⟩ ∧
      part.lines.map planLine = lines ∧ part.subtotalMinor = row.subtotalMinor ∧
      part.taxMinor = row.taxMinor ∧ part.totalMinor = row.totalMinor := by
  obtain ⟨part, hresult, hsums, -, hlabels, hamounts, htaxes⟩ :=
    allocate_full hp hclean (full_of_kinds hp hfull)
  have hzero : half (row.snapshot.tax.rateBps * 0) 10000 = 0 := by
    rw [mul_zero, half_zero (by decide)]
  have hlines : planLines row.snapshot.tax.rateBps 0 0 (half (row.snapshot.tax.rateBps * 0) 10000)
      row.snapshot.lines = .ok (lines, row.subtotalMinor, row.taxMinor) := by
    rw [hzero]
    exact h.lines
  obtain ⟨hplanLabels, hplanAmounts, hplanTaxes, hsubtotal, htax⟩ := planLines_ok hlines
  rw [zero_add, hp.subtotal] at hsubtotal htax
  rw [mul_comm, hp.taxMinor] at htax
  have hsub : part.subtotalMinor = row.subtotalMinor := by
    rw [← hsums.subtotal, hamounts, hp.subtotal, hsubtotal]
  have htaxes' : part.taxMinor = row.taxMinor := by
    rw [← hsums.tax, htaxes, sum_taxShares hp, htax]
  refine ⟨part, _, hresult, planLines_ext ?_ ?_ ?_, hsub, htaxes', ?_⟩
  · have hpairs : (part.lines.map planLine).map (fun line => (line.index, line.description)) =
        (part.lines.map fun line => (line.index, line.sourceIndex, line.description)).map
          fun (i, _, description) => (i, description) := by
      simp only [List.map_map]
      rfl
    rw [hpairs, hlabels, hplanLabels, List.map_map]
    rfl
  · rw [List.map_map, hplanAmounts]
    exact hamounts
  · rw [List.map_map, hplanTaxes]
    exact htaxes
  · rw [← hsums.total, hsub, htaxes', h.sum]

/-- Where the checks of amounts accept a row with one installment, that installment is allocated
with the lines and the amounts of the plan just when its descriptions and its date are clean. -/
theorem draft_agrees {collation : String → String → Bool} {env : Environment}
    {body input : Intent} {row : InvoiceRow} {lines : List PlanLine}
    (hinput : intent collation body = .ok input) (hpreview : preview env input = .ok row.snapshot)
    (hfull : row.snapshot.installments.map (·.kind) = [.full]) (haccepted : Accepted row lines) :
    ((∃ part holds, allocateInstallments row.snapshot = .ok ⟨[part], holds⟩ ∧
      part.lines.map planLine = lines ∧ part.subtotalMinor = row.subtotalMinor ∧
      part.taxMinor = row.taxMinor ∧ part.totalMinor = row.totalMinor) ↔ Clean row.snapshot) ∧
    ∀ provider plan, draftPreview provider row = .ok plan → plan.lines = lines ∧
      plan.subtotalMinor = row.subtotalMinor ∧ plan.taxMinor = row.taxMinor ∧
      plan.totalMinor = row.totalMinor := by
  refine ⟨⟨?_, fun hclean => ?_⟩, fun provider plan hplan => ?_⟩
  · rintro ⟨part, holds, hresult, -⟩
    exact clean_of_allocated hresult
  · exact allocated_plan (preview_produced (intent_asked hinput) hpreview) hclean hfull haccepted
  · obtain ⟨hplanned, hamounts⟩ := draftPreview_accepted hplan
    have hsame := hplanned.lines.symm.trans haccepted.lines
    simp only [Except.ok.injEq, Prod.mk.injEq, and_true] at hsame
    exact ⟨hsame, hamounts⟩

/-! ### A sample row -/

def sampleFull : Intent := { sampleBody with deposit := none }

def sampleDraft (description : String) : InvoiceRow where
  id := "invoice-1"
  clientId := "client-1"
  isDraft := true
  providerState := .notConnected
  stripeInvoiceId := none
  paidMinor := 0
  releasedAt := none
  revision := 0
  title := "Invoice"
  currency := "CAD"
  subtotalMinor := 6002
  taxMinor := 780
  totalMinor := 6782
  previewFingerprint := "0"
  snapshot := { samplePreview description with installments := [⟨.full, 6782, "2026-11-20"⟩] }

def sampleLines (description : String) : List PlanLine :=
  [⟨0, Js.codeUnits description, 5003, 650⟩,
    ⟨1, Js.codeUnits "Hosting (quantity 3)", 999, 130⟩]

theorem sample_accepted (description : String) :
    Accepted (sampleDraft description) (sampleLines description) where
  total := show (6782 : ℤ) ≤ maxDraft by decide
  length := show 2 ≤ 100 by decide
  lines := by
    have hdescribed : described (.fixed ⟨"Hosting", 3, 333⟩ 999) =
        Js.codeUnits "Hosting (quantity 3)" := by decide +kernel
    rw [sampleLines, ← hdescribed]
    rfl
  sum := rfl

theorem draft_agrees_design :
    ∃ part holds, allocateInstallments (sampleDraft "Design").snapshot = .ok ⟨[part], holds⟩ ∧
      part.lines.map planLine = sampleLines "Design" ∧ part.subtotalMinor = 6002 ∧
      part.taxMinor = 780 ∧ part.totalMinor = 6782 := by
  have hinput : intent (· ≤ ·) sampleFull = .ok sampleFull := by decide +kernel
  have hpreview : preview (sampleEnvironment "Design") sampleFull =
      .ok (sampleDraft "Design").snapshot := by decide +kernel
  apply (draft_agrees hinput hpreview rfl (sample_accepted "Design")).1.mpr
  constructor
  · intro description totalMinor source hline
    simp only [sampleDraft, samplePreview, List.mem_cons, Line.time.injEq,
      List.not_mem_nil, or_false,
      reduceCtorEq] at hline
    rw [hline.1]
    decide +kernel
  · decide +kernel

def sampleProvider : Provider where
  accountId := .ok "account-1"
  client _ := .ok ⟨"client-1", "Client", 0⟩
  mapping _ _ := some ⟨"mapping-1", "customer-1"⟩
  customer _ := .ok ⟨"customer-1", "Client"⟩
  sha _ := "0"
  now := 0
  hasFinance := true

/-- A time with a blank description is planned as a draft, and not allocated. -/
theorem blank_planned :
    intent (· ≤ ·) sampleFull = .ok sampleFull ∧
      preview (sampleEnvironment " ") sampleFull = .ok (sampleDraft " ").snapshot ∧
      ((draftPreview sampleProvider (sampleDraft " ")).toOption.map (·.lines)) =
        some (sampleLines " ") ∧
      allocateInstallments (sampleDraft " ").snapshot = .error (.status 409) := by
  decide +kernel

end Ashbi.Pilot.Drafts

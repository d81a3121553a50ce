import Ashbi.Calendar.Instants
import Ashbi.Checked
import Ashbi.Js
import Ashbi.Numeric.HalfUp

/-! Previews of invoices in the pilot workspace: what is asked for, the approved time that it
bills, and the snapshot that an invoice keeps. -/

namespace Ashbi.Pilot

open Checked HalfUp

/-! ### Numbers and texts -/

/-- What a request throws. -/
inductive Failure
  | status (code : ℕ)
  deriving DecidableEq

/-- `Number.MAX_SAFE_INTEGER`. -/
def max : ℤ := 9007199254740991

def integer (value low limit : ℤ) : Bool := low ≤ value && value ≤ limit

/-- The currencies of the workspace. -/
def currencies : List String := ["CAD", "USD", "EUR", "GBP"]

/-- The pattern of ids. -/
def isId (value : String) : Bool :=
  1 ≤ value.length && value.length ≤ 100 && value.toList.all fun c => c.isAlphanum || c = '-'

def isText (value : String) (limit : ℕ) : Bool :=
  Js.trim value ≠ "" && Js.length value ≤ limit && !value.toList.contains '\u0000'

/-- The letters whose upper case is one of A to Z. -/
def upperLetter (c : Char) : Char := if c = 'ſ' then 'S' else if c = 'ı' then 'I' else c.toUpper

/-- `value.trim().toUpperCase()`, up to texts that are no currency in either case. -/
def upperCase (value : String) : String :=
  String.ofList ((Js.trim value).toList.map upperLetter)

def validWorkedOn (value : String) : Bool := (Calendar.parseDate value).isSome

def safe (big : ℤ) : Except Failure ℤ :=
  if big < 0 || max < big then .error (.status 400) else .ok big

def rounded (numerator denominator : ℤ) : Except Failure ℤ :=
  safe ((numerator * 2 + denominator) / (2 * denominator))

/-! ### What is asked for -/

inductive TaxType
  | none
  | hst
  | gst
  | pst
  | tax
  deriving DecidableEq

structure Tax where
  type : TaxType
  rateBps : ℤ
  deriving DecidableEq

structure Observed where
  id : String
  revision : ℤ
  deriving DecidableEq

structure Charge where
  description : String
  quantity : ℤ
  unitMinor : ℤ
  deriving DecidableEq

structure Deposit where
  amountMinor : ℤ
  dueOn : String
  deriving DecidableEq

/-- The body of a request, and what is left of it once it is checked. -/
structure Intent where
  clientId : String
  projectId : Option String
  title : String
  currency : String
  tax : Tax
  dueOn : String
  times : List Observed
  charges : List Charge
  deposit : Option Deposit
  deriving DecidableEq

def Charge.isValid (charge : Charge) : Bool :=
  isText charge.description 500 && integer charge.quantity 1 1000000 &&
    integer charge.unitMinor 0 max

def Tax.isValid (tax : Tax) : Bool :=
  integer tax.rateBps 0 5000 && (tax.type ≠ .none || tax.rateBps = 0)

def Observed.isValid (observed : Observed) : Bool :=
  isId observed.id && integer observed.revision 0 (max - 1)

def Deposit.isValid (deposit : Deposit) (dueOn : String) : Bool :=
  integer deposit.amountMinor 1 max && validWorkedOn deposit.dueOn && deposit.dueOn < dueOn

/-- `collation` is `localeCompare`. -/
def intent (collation : String → String → Bool) (body : Intent) : Except Failure Intent :=
  if isId body.clientId && body.projectId.all isId && isText body.title 200 &&
      currencies.contains (upperCase body.currency) && validWorkedOn body.dueOn &&
      body.tax.isValid && body.times.length ≤ 50 && body.charges.length ≤ 50 &&
      (!body.times.isEmpty || !body.charges.isEmpty) && body.times.all Observed.isValid &&
      (body.times.map (·.id)).Nodup && body.charges.all Charge.isValid &&
      body.deposit.all (·.isValid body.dueOn) then
    .ok { body with
      title := Js.trim body.title
      currency := upperCase body.currency
      times := body.times.mergeSort fun a b => collation a.id b.id }
  else .error (.status 400)

/-! ### Sources -/

inductive ReviewStatus
  | pending
  | approved
  | rejected
  deriving DecidableEq

/-- What an invoice keeps of the time that it bills. -/
structure Source where
  id : String
  revision : ℤ
  projectId : String
  projectName : String
  projectRevision : ℤ
  actorId : String
  actorEmail : String
  seconds : ℤ
  startedAt : Time
  endedAt : Option Time
  description : String
  workedOn : Option String
  sourceKind : Option String
  billable : Option Bool
  reviewStatus : ReviewStatus
  reviewedBy : Option String
  reviewedAt : Option Time
  currency : Option String
  rateMinor : Option ℤ
  rateReference : Option String
  deriving DecidableEq

/-- A row of the query on sources. -/
structure Row extends Source where
  invoiceRef : Option String
  deriving DecidableEq

def source (row : Row) : Source := row.toSource

def eligible (row : Row) (currency : String) : Bool :=
  row.reviewStatus = .approved && row.billable = some true && row.invoiceRef.isNone &&
    row.currency = some currency && row.rateMinor.any (integer · 0 max) &&
    integer row.seconds 1 max && integer row.startedAt 0 max &&
    row.endedAt.any (fun endedAt => integer endedAt 0 max && row.startedAt ≤ endedAt) &&
    row.workedOn.any validWorkedOn

/-- The sources that are asked for, as they were observed; `rows` is what the query answers. -/
def selected (rows : List Row) (input : Intent) : Except Failure (List Source) :=
  input.times.mapM fun observed =>
    match rows.find? (·.id = observed.id) with
    | none => .error (.status 409)
    | some row =>
      if row.revision = observed.revision && eligible row input.currency then .ok (source row)
      else .error (.status 409)

/-! ### The preview -/

/-- A line; the description of a time is cut to code units. -/
inductive Line
  | time (description : List ℕ) (totalMinor : ℤ) (source : Source)
  | fixed (charge : Charge) (totalMinor : ℤ)
  deriving DecidableEq

def Line.totalMinor : Line → ℤ
  | .time _ totalMinor _ => totalMinor
  | .fixed _ totalMinor => totalMinor

/-- The description of a line. -/
def Line.description : Line → List ℕ
  | .time description _ _ => description
  | .fixed charge _ => Js.codeUnits charge.description

inductive InstallmentKind
  | full
  | deposit
  | balance
  deriving DecidableEq

structure Installment where
  kind : InstallmentKind
  amountMinor : ℤ
  dueOn : String
  deriving DecidableEq

/-- A client or a project, as a snapshot names it. -/
structure Party where
  id : String
  name : String
  revision : ℤ
  deriving DecidableEq

/-- The snapshot of an invoice, of version 1 and not connected to a provider. -/
structure Preview where
  client : Party
  project : Option Party
  clientId : String
  projectId : Option String
  title : String
  currency : String
  tax : Tax
  dueOn : String
  lines : List Line
  subtotalMinor : ℤ
  taxMinor : ℤ
  totalMinor : ℤ
  installments : List Installment
  fingerprint : String
  deriving DecidableEq

def timeLine (row : Source) : Except Failure Line := do
  let totalMinor ← rounded (row.seconds * row.rateMinor.getD 0) 3600
  let description := if row.description = "" then "Approved time" else row.description
  pure (.time ((Js.codeUnits description).take 500) totalMinor row)

def fixedLine (charge : Charge) : Except Failure Line := do
  let totalMinor ← safe (charge.quantity * charge.unitMinor)
  pure (.fixed charge totalMinor)

/-- SHA-256 of the JSON text of a snapshot, how long that text is, and what the tables answer. -/
structure Environment where
  sha : Preview → String
  jsonLength : Preview → ℕ
  client : Except Failure Party
  project : Except Failure (Option Party)
  rows : List Row
  hasFinance : Bool

/-- The installments of a total. -/
def schedule (input : Intent) (totalMinor : ℤ) : List Installment :=
  match input.deposit with
  | some deposit => [⟨.deposit, deposit.amountMinor, deposit.dueOn⟩,
      ⟨.balance, totalMinor - deposit.amountMinor, input.dueOn⟩]
  | none => [⟨.full, totalMinor, input.dueOn⟩]

def preview (env : Environment) (input : Intent) : Except Failure Preview := do
  let client ← env.client
  let project ← env.project
  let times ← selected env.rows input
  let timeLines ← times.mapM timeLine
  let fixedLines ← input.charges.mapM fixedLine
  let lines := timeLines ++ fixedLines
  let subtotalMinor ← safe (lines.map Line.totalMinor).sum
  let taxMinor ← rounded (subtotalMinor * input.tax.rateBps) 10000
  let totalMinor ← safe (subtotalMinor + taxMinor)
  refuse (totalMinor = 0 || input.deposit.any (totalMinor ≤ ·.amountMinor)) (.status 400)
  let result : Preview :=
    { client := client
      project := project
      clientId := input.clientId
      projectId := input.projectId
      title := input.title
      currency := input.currency
      tax := input.tax
      dueOn := input.dueOn
      lines := lines
      subtotalMinor := subtotalMinor
      taxMinor := taxMinor
      totalMinor := totalMinor
      installments := schedule input totalMinor
      fingerprint := "" }
  let result := { result with fingerprint := env.sha result }
  refuse (262144 < env.jsonLength result) (.status 400)
  refuse (!env.hasFinance) (.status 403)
  pure result

/-! ### What a preview has established -/

@[simp] theorem safe_ok {big value : ℤ} :
    safe big = .ok value ↔ big = value ∧ 0 ≤ value ∧ value ≤ max := by
  unfold safe
  split
  · rename_i h
    simp only [Bool.or_eq_true, decide_eq_true_eq] at h
    simp only [reduceCtorEq, false_iff, not_and]
    rintro rfl
    omega
  · rename_i h
    simp only [Bool.or_eq_true, decide_eq_true_eq, not_or, not_lt] at h
    simp only [Except.ok.injEq]
    constructor
    · rintro rfl
      exact ⟨rfl, h⟩
    · exact fun hvalue => hvalue.1

theorem rounded_ok {numerator denominator value : ℤ} :
    rounded numerator denominator = .ok value ↔
      half numerator denominator = value ∧ 0 ≤ value ∧ value ≤ max := by
  rw [rounded, safe_ok, half, mul_comm denominator 2]

theorem integer_iff {value low limit : ℤ} :
    integer value low limit = true ↔ low ≤ value ∧ value ≤ limit := by
  simp [integer]

/-- A line whose total is what its source or its charge comes to. -/
def Line.Sound : Line → Prop
  | .time description totalMinor source =>
    1 ≤ source.seconds ∧ source.seconds ≤ max ∧
      (∃ rate, source.rateMinor = some rate ∧ 0 ≤ rate ∧ rate ≤ max ∧
        half (source.seconds * rate) 3600 = totalMinor) ∧
      description.length ≤ 500 ∧ 0 ≤ totalMinor ∧ totalMinor ≤ max
  | .fixed charge totalMinor =>
    charge.isValid = true ∧ charge.quantity * charge.unitMinor = totalMinor ∧
      0 ≤ totalMinor ∧ totalMinor ≤ max

/-- The installments come to the total of a preview. -/
inductive Scheduled (preview : Preview) : Prop
  | full (h : preview.installments = [⟨.full, preview.totalMinor, preview.dueOn⟩])
  | parts (deposit : ℤ) (dueOn : String) (hpos : 1 ≤ deposit) (hlt : deposit < preview.totalMinor)
      (hdate : validWorkedOn dueOn = true) (hbefore : dueOn < preview.dueOn)
      (h : preview.installments = [⟨.deposit, deposit, dueOn⟩,
        ⟨.balance, preview.totalMinor - deposit, preview.dueOn⟩])

structure Produced (preview : Preview) : Prop where
  tax : preview.tax.isValid = true
  dueOn : validWorkedOn preview.dueOn = true
  nonempty : preview.lines ≠ []
  length : preview.lines.length ≤ 100
  lines : ∀ line ∈ preview.lines, line.Sound
  subtotal : (preview.lines.map Line.totalMinor).sum = preview.subtotalMinor
  taxMinor : half (preview.subtotalMinor * preview.tax.rateBps) 10000 = preview.taxMinor
  total : preview.subtotalMinor + preview.taxMinor = preview.totalMinor
  subtotal_nonneg : 0 ≤ preview.subtotalMinor
  tax_nonneg : 0 ≤ preview.taxMinor
  positive : 1 ≤ preview.totalMinor
  safe : preview.totalMinor ≤ max
  scheduled : Scheduled preview

/-- The checks of a body that its previews rely on. -/
structure Asked (input : Intent) : Prop where
  tax : input.tax.isValid = true
  dueOn : validWorkedOn input.dueOn = true
  times : input.times.length ≤ 50
  charges : input.charges.length ≤ 50
  nonempty : input.times ≠ [] ∨ input.charges ≠ []
  valid : ∀ charge ∈ input.charges, charge.isValid = true
  deposit : ∀ deposit ∈ input.deposit, deposit.isValid input.dueOn = true

theorem intent_asked {collation : String → String → Bool} {body input : Intent}
    (h : intent collation body = .ok input) : Asked input := by
  unfold intent at h
  split at h
  case isFalse => cases h
  rename_i hchecks
  obtain rfl := Except.ok.inj h
  simp only [Bool.and_eq_true, Bool.or_eq_true, decide_eq_true_eq, Bool.not_eq_true',
    List.isEmpty_eq_false_iff, List.all_eq_true, Option.all_eq_true] at hchecks
  obtain ⟨⟨⟨⟨⟨⟨⟨⟨⟨-, hdueOn⟩, htax⟩, htimes⟩, hcharges⟩, hnonempty⟩, -⟩, -⟩, hvalid⟩, hdeposit⟩ :=
    hchecks
  refine ⟨htax, hdueOn, by simpa using htimes, hcharges, ?_, hvalid, fun d hd => hdeposit d hd⟩
  simpa [← List.length_eq_zero_iff] using hnonempty

theorem eligible_amounts {row : Row} {currency : String} (h : eligible row currency = true) :
    1 ≤ row.seconds ∧ row.seconds ≤ max ∧ ∃ rate, row.rateMinor = some rate ∧ 0 ≤ rate ∧
      rate ≤ max := by
  simp only [eligible, Bool.and_eq_true] at h
  obtain ⟨⟨⟨⟨⟨-, hrate⟩, hseconds⟩, -⟩, -⟩, -⟩ := h
  obtain ⟨rate, hsome, hrate⟩ := (Option.any_eq_true _ _).mp hrate
  have hseconds := integer_iff.mp hseconds
  exact ⟨hseconds.1, hseconds.2, rate, hsome, integer_iff.mp hrate⟩

/-- Every source that is selected has amounts. -/
theorem selected_amounts {rows : List Row} {input : Intent} {times : List Source}
    (h : selected rows input = .ok times) : times.length = input.times.length ∧
      ∀ row ∈ times, 1 ≤ row.seconds ∧ row.seconds ≤ max ∧
        ∃ rate, row.rateMinor = some rate ∧ 0 ≤ rate ∧ rate ≤ max := by
  refine ⟨(mapM_ok h).length_eq.symm, fun row hrow => ?_⟩
  obtain ⟨observed, -, hfound⟩ := mem_mapM_ok h hrow
  split at hfound
  · cases hfound
  split at hfound
  · rename_i live _ hchecks
    obtain rfl := Except.ok.inj hfound
    rw [Bool.and_eq_true] at hchecks
    exact eligible_amounts hchecks.2
  · cases hfound

theorem timeLine_sound {row : Source} {line : Line} (h : timeLine row = .ok line)
    (hrow : 1 ≤ row.seconds ∧ row.seconds ≤ max ∧
      ∃ rate, row.rateMinor = some rate ∧ 0 ≤ rate ∧ rate ≤ max) : line.Sound := by
  simp only [timeLine, bind_ok, pure_ok, rounded_ok] at h
  obtain ⟨totalMinor, ⟨hhalf, hnonneg, hmax⟩, rfl⟩ := h
  obtain ⟨hpos, hseconds, rate, hsome, hrate⟩ := hrow
  rw [hsome, Option.getD_some] at hhalf
  exact ⟨hpos, hseconds, ⟨rate, hsome, hrate.1, hrate.2, hhalf⟩, by simp, hnonneg, hmax⟩

theorem fixedLine_sound {charge : Charge} {line : Line} (h : fixedLine charge = .ok line)
    (hcharge : charge.isValid = true) : line.Sound := by
  simp only [fixedLine, bind_ok, pure_ok, safe_ok] at h
  obtain ⟨totalMinor, ⟨htotal, hnonneg, hmax⟩, rfl⟩ := h
  exact ⟨hcharge, htotal, hnonneg, hmax⟩

theorem schedule_scheduled {input : Intent} {totalMinor : ℤ} {result : Preview}
    (hasked : Asked input) (hdue : result.dueOn = input.dueOn)
    (htotal : result.totalMinor = totalMinor)
    (hdeposit : input.deposit.any (totalMinor ≤ ·.amountMinor) = false)
    (h : result.installments = schedule input totalMinor) : Scheduled result := by
  cases hsome : input.deposit with
  | none =>
    apply Scheduled.full
    rw [h, schedule, hsome, hdue, htotal]
  | some deposit =>
    have hvalid := hasked.deposit deposit hsome
    simp only [Deposit.isValid, Bool.and_eq_true, decide_eq_true_eq, integer_iff] at hvalid
    simp only [hsome, Option.any_some, decide_eq_false_iff_not, not_le] at hdeposit
    apply Scheduled.parts deposit.amountMinor deposit.dueOn hvalid.1.1.1 (by omega) hvalid.1.2
    · rw [hdue]
      exact hvalid.2
    · rw [h, schedule, hsome, hdue, htotal]

theorem preview_produced {env : Environment} {input : Intent} {result : Preview}
    (hasked : Asked input) (h : preview env input = .ok result) : Produced result := by
  simp only [preview, bind_ok, pure_ok, safe_ok, rounded_ok, refuse_ok] at h
  obtain ⟨client, -, project, -, times, htimes, timeLines, htimeLines, fixedLines, hfixedLines,
    subtotalMinor, ⟨hsubtotal, hsub0, -⟩, taxMinor, ⟨htax, htax0, -⟩, totalMinor,
    ⟨htotal, htotal0, hmax⟩, -, hchecks, -, -, -, -, rfl⟩ := h
  obtain ⟨hcount, hamounts⟩ := selected_amounts htimes
  have htimeCount := (mapM_ok htimeLines).length_eq
  have hfixedCount := (mapM_ok hfixedLines).length_eq
  have hlength : (timeLines ++ fixedLines).length = input.times.length + input.charges.length := by
    rw [List.length_append]
    omega
  have htimesMax := hasked.times
  have hchargesMax := hasked.charges
  simp only [Bool.or_eq_false_iff, decide_eq_false_iff_not] at hchecks
  refine
    { tax := hasked.tax
      dueOn := hasked.dueOn
      nonempty := ?_
      length := by
        show (timeLines ++ fixedLines).length ≤ 100
        omega
      lines := ?_
      subtotal := hsubtotal
      taxMinor := htax
      total := htotal
      subtotal_nonneg := hsub0
      tax_nonneg := htax0
      positive := by
        show 1 ≤ totalMinor
        omega
      safe := hmax
      scheduled := schedule_scheduled hasked rfl rfl hchecks.2 rfl }
  · show timeLines ++ fixedLines ≠ []
    rw [← List.length_pos_iff, hlength]
    rcases hasked.nonempty with hne | hne
    · have hpos := List.length_pos_iff.mpr hne
      omega
    · have hpos := List.length_pos_iff.mpr hne
      omega
  · intro line hline
    rcases List.mem_append.mp hline with hline | hline
    · obtain ⟨row, hrow, hof⟩ := mem_mapM_ok htimeLines hline
      exact timeLine_sound hof (hamounts row hrow)
    · obtain ⟨charge, hcharge, hof⟩ := mem_mapM_ok hfixedLines hline
      exact fixedLine_sound hof (hasked.valid charge hcharge)

end Ashbi.Pilot

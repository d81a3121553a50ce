import Mathlib.Algebra.Order.BigOperators.Group.List
import Ashbi.Pilot.Installments

/-! Installments come to what their invoice bills, line by line. -/

namespace Ashbi.Pilot.Installments

open Checked HalfUp

/-! ### What an allocation promises -/

/-- The share of every line in the tax, by cumulative rounding. -/
def taxShares (snapshot : Preview) : List ℤ :=
  differences snapshot.tax.rateBps 10000 0 (snapshot.lines.map Line.totalMinor)

/-- The holds of the lines of an installment. -/
def heldLines (kind : InstallmentKind) (lines : List PartLine) : List Hold :=
  (lines.filter (·.taxOnly)).map fun line => ⟨kind, line.sourceIndex⟩

def Part.installment (part : Part) : Installment := ⟨part.kind, part.totalMinor, part.dueOn⟩

/-- The sums of an installment, and amounts that are safe integers. -/
structure Part.Sums (part : Part) : Prop where
  subtotal : (part.lines.map (·.amountMinor)).sum = part.subtotalMinor
  tax : (part.lines.map (·.taxMinor)).sum = part.taxMinor
  total : part.subtotalMinor + part.taxMinor = part.totalMinor
  safe : ∀ line ∈ part.lines, (0 ≤ line.amountMinor ∧ line.amountMinor ≤ max) ∧
    0 ≤ line.taxMinor ∧ line.taxMinor ≤ max

structure Exact (snapshot : Preview) (result : Allocated) : Prop where
  schedule : result.installments.map Part.installment = snapshot.installments
  sums : ∀ part ∈ result.installments, part.Sums
  lines : ∀ part ∈ result.installments,
    part.lines.map (fun line => (line.index, line.sourceIndex, line.description)) =
      snapshot.lines.zipIdx.map fun (line, i) => (i, i, described line)
  amounts : ∀ i, (result.installments.map fun part =>
      (part.lines.map (·.amountMinor)).getD i 0).sum =
    (snapshot.lines.map Line.totalMinor).getD i 0
  taxes : ∀ i, (result.installments.map fun part =>
      (part.lines.map (·.taxMinor)).getD i 0).sum = (taxShares snapshot).getD i 0
  taxMinor : (taxShares snapshot).sum = snapshot.taxMinor
  holds : result.holds = result.installments.flatMap fun part => heldLines part.kind part.lines

/-- The description of every line is one that an allocation takes. -/
def Allowed (line : Line) : Prop := Js.isBlank line.description = false ∧ 0 ∉ line.description

/-- No description of a time is blank or has a zero character, and no date is in the year 0. -/
structure Clean (snapshot : Preview) : Prop where
  times : ∀ description totalMinor source,
    Line.time description totalMinor source ∈ snapshot.lines →
      Js.isBlank description = false ∧ 0 ∉ description
  dates : ∀ row ∈ snapshot.installments, inYearZero row.dueOn = false

/-! ### Lines -/

@[simp] theorem safe_ok {value amount : ℤ} :
    safe value = .ok amount ↔ value = amount ∧ 0 ≤ value ∧ value ≤ max := by
  unfold safe
  split
  · rename_i h
    simp only [Bool.or_eq_true, decide_eq_true_eq] at h
    simp only [reduceCtorEq, false_iff, not_and]
    omega
  · rename_i h
    simp only [Bool.or_eq_true, decide_eq_true_eq, not_or, not_lt] at h
    simp only [Except.ok.injEq]
    exact ⟨fun hvalue => ⟨hvalue, h⟩, fun hvalue => hvalue.1⟩

theorem isText_units {value : String} {limit : ℕ} (h : isText value limit = true) :
    Js.isBlank (Js.codeUnits value) = false ∧ (Js.codeUnits value).length ≤ limit ∧
      0 ∉ Js.codeUnits value := by
  simp only [isText, Bool.and_eq_true, decide_eq_true_eq, Bool.not_eq_true',
    List.contains_eq_mem, decide_eq_false_iff_not] at h
  refine ⟨Js.isBlank_of_trim h.1.1, ?_, fun hzero => h.2 (Js.zero_mem_codeUnits hzero)⟩
  rw [Js.length_codeUnits]
  exact h.1.2

theorem expected_ok {line : Line} (h : line.Sound) : expected line = .ok line.totalMinor := by
  cases line with
  | time description totalMinor source =>
    obtain ⟨hpos, hseconds, ⟨rate, hrate, hrate0, hmax, hhalf⟩, -⟩ := h
    simp only [expected, bind_ok, found_ok, refuse_ok, pure_ok]
    refine ⟨rate, hrate, (), ?_, hhalf⟩
    simp [integer_iff.mpr ⟨hpos, hseconds⟩, integer_iff.mpr ⟨hrate0, hmax⟩]
  | fixed charge totalMinor =>
    obtain ⟨hvalid, htotal, -⟩ := h
    simp only [Charge.isValid, Bool.and_eq_true] at hvalid
    simp only [expected, bind_ok, refuse_ok, pure_ok]
    exact ⟨(), by simp [hvalid.1.2, hvalid.2], htotal⟩

theorem Line.Sound.bounds {line : Line} (h : line.Sound) :
    line.description.length ≤ 500 ∧ 0 ≤ line.totalMinor ∧ line.totalMinor ≤ max := by
  cases line with
  | time description totalMinor source => exact ⟨h.2.2.2.1, h.2.2.2.2⟩
  | fixed charge totalMinor =>
    obtain ⟨hvalid, -, hbounds⟩ := h
    simp only [Charge.isValid, Bool.and_eq_true] at hvalid
    exact ⟨(isText_units hvalid.1.1).2.1, hbounds⟩

theorem checkedLine_ok {line : Line} (h : line.Sound) (hallowed : Allowed line) :
    checkedLine line = .ok line.totalMinor := by
  obtain ⟨hlength, hbounds⟩ := Line.Sound.bounds h
  simp only [checkedLine, bind_ok, refuse_ok, pure_ok]
  refine ⟨(), ?_, line.totalMinor, expected_ok h, (), by simp, rfl⟩
  simp [hallowed.1, hallowed.2, hlength, integer_iff.mpr hbounds]

theorem checkedLine_allowed {line : Line} {amount : ℤ} (h : checkedLine line = .ok amount) :
    Allowed line := by
  simp only [checkedLine, bind_ok, refuse_ok, Bool.or_eq_false_iff] at h
  obtain ⟨-, ⟨⟨⟨hblank, -⟩, hzero⟩, -⟩, -⟩ := h
  exact ⟨hblank, by simpa using hzero⟩

/-- The lines of a snapshot with their shares of the tax, counted on from some that came before. -/
def sources (rateBps : ℤ) : ℕ → ℤ → List Line → List SourceLine
  | _, _, [] => []
  | index, cumulative, line :: rest =>
    ⟨index, described line, line.totalMinor,
      half ((cumulative + line.totalMinor) * rateBps) 10000 - half (cumulative * rateBps) 10000⟩ ::
      sources rateBps (index + 1) (cumulative + line.totalMinor) rest

section Sources

variable {rateBps : ℤ}

theorem sources_base (index : ℕ) (cumulative : ℤ) (lines : List Line) :
    (sources rateBps index cumulative lines).map (·.base) = lines.map Line.totalMinor := by
  induction lines generalizing index cumulative with
  | nil => rfl
  | cons line rest ih => rw [sources, List.map_cons, List.map_cons, ih]

theorem sources_tax (index : ℕ) (cumulative : ℤ) (lines : List Line) :
    (sources rateBps index cumulative lines).map (·.tax) =
      differences rateBps 10000 cumulative (lines.map Line.totalMinor) := by
  induction lines generalizing index cumulative with
  | nil => rfl
  | cons line rest ih =>
    rw [sources, List.map_cons, List.map_cons, ih, differences, mul_comm rateBps,
      mul_comm rateBps cumulative]

theorem sources_labels (index : ℕ) (cumulative : ℤ) (lines : List Line) :
    (sources rateBps index cumulative lines).map (fun line => (line.index, line.description)) =
      (lines.zipIdx index).map fun (line, i) => (i, described line) := by
  induction lines generalizing index cumulative with
  | nil => rfl
  | cons line rest ih => rw [sources, List.map_cons, ih, List.zipIdx_cons, List.map_cons]

theorem sources_nonneg (hrate : 0 ≤ rateBps) {lines : List Line}
    (hlines : ∀ line ∈ lines, 0 ≤ line.totalMinor) (index : ℕ) (cumulative : ℤ) :
    ∀ line ∈ sources rateBps index cumulative lines, 0 ≤ line.base ∧ 0 ≤ line.tax := by
  induction lines generalizing index cumulative with
  | nil => simp [sources]
  | cons line rest ih =>
    have hline := hlines line List.mem_cons_self
    intro row hrow
    rcases List.mem_cons.mp hrow with rfl | hrow
    · refine ⟨hline, sub_nonneg.mpr (half_mono (by decide) ?_)⟩
      apply mul_le_mul_of_nonneg_right _ hrate
      omega
    · exact ih (fun line h => hlines line (List.mem_cons_of_mem _ h)) _ _ row hrow

/-- The loop over sound lines ends with the sums of their amounts and of their taxes. -/
theorem sourceLines_ok {lines : List Line}
    (hlines : ∀ line ∈ lines, line.Sound ∧ Allowed line) (index : ℕ) {cumulative : ℤ}
    (hnonneg : 0 ≤ cumulative)
    (hmax : cumulative + (lines.map Line.totalMinor).sum ≤ max) :
    sourceLines rateBps index cumulative (half (cumulative * rateBps) 10000) lines =
      .ok (sources rateBps index cumulative lines, cumulative + (lines.map Line.totalMinor).sum,
        half ((cumulative + (lines.map Line.totalMinor).sum) * rateBps) 10000) := by
  induction lines generalizing index cumulative with
  | nil => simp [sourceLines, sources]
  | cons line rest ih =>
    obtain ⟨hsound, hallowed⟩ := hlines line List.mem_cons_self
    have hrest : ∀ line ∈ rest, line.Sound ∧ Allowed line :=
      fun line h => hlines line (List.mem_cons_of_mem _ h)
    have hbase := (Line.Sound.bounds hsound).2.1
    have hsum : 0 ≤ (rest.map Line.totalMinor).sum := by
      apply List.sum_nonneg
      intro amount hamount
      obtain ⟨other, hother, rfl⟩ := List.mem_map.mp hamount
      exact (Line.Sound.bounds (hrest other hother).1).2.1
    rw [List.map_cons, List.sum_cons, ← add_assoc] at hmax ⊢
    have hnext := @ih hrest (index + 1) (cumulative + line.totalMinor) (by omega) hmax
    simp only [sourceLines, bind_ok, pure_ok]
    refine ⟨_, checkedLine_ok hsound hallowed, _, safe_ok.mpr ⟨rfl, by omega, by omega⟩, _,
      hnext, ?_⟩
    rfl

theorem sourceLines_allowed {lines : List Line} {index : ℕ} {cumulative previousTax : ℤ}
    {result : List SourceLine × ℤ × ℤ}
    (h : sourceLines rateBps index cumulative previousTax lines = .ok result) :
    ∀ line ∈ lines, Allowed line := by
  induction lines generalizing index cumulative previousTax result with
  | nil => simp
  | cons line rest ih =>
    simp only [sourceLines, bind_ok, pure_ok] at h
    obtain ⟨_, hchecked, _, -, _, hrest, -⟩ := h
    intro other hother
    rcases List.mem_cons.mp hother with rfl | hother
    · exact checkedLine_allowed hchecked
    · exact ih hrest other hother

end Sources

/-! ### Deposits -/

/-- A share that takes at most all of a line. -/
structure Within (line : SourceLine) (share : Share) : Prop where
  base_nonneg : 0 ≤ share.base
  base_le : share.base ≤ line.base
  tax_nonneg : 0 ≤ share.tax
  tax_le : share.tax ≤ line.tax

/-- A part of a line, with its part of the tax. -/
theorem within_of_gross {line : SourceLine} {gross : ℤ} (hbase : 0 ≤ line.base)
    (htax : 0 ≤ line.tax) (hgross : 0 ≤ gross) (hle : gross ≤ line.gross) :
    Within line ⟨gross - (if line.gross = 0 then 0 else half (gross * line.tax) line.gross),
      if line.gross = 0 then 0 else half (gross * line.tax) line.gross⟩ := by
  unfold SourceLine.gross at *
  split
  · exact ⟨by dsimp only; omega, by dsimp only; omega, le_rfl, htax⟩
  · obtain ⟨htax0, htaxle, hpart, hrest⟩ :=
      split_bounds hgross hle (by omega) htax (show line.tax ≤ line.base + line.tax by omega)
    exact ⟨by dsimp only; omega, by dsimp only; omega, htax0, htaxle⟩

theorem deposits_within {amount total : ℤ} (htotal : 0 < total) (hamount : 0 ≤ amount)
    (hle : amount ≤ total) {lines : List SourceLine}
    (hlines : ∀ line ∈ lines, 0 ≤ line.base ∧ 0 ≤ line.tax) (cumulative : ℤ) :
    List.Forall₂ Within lines
        (deposits amount total cumulative (half (amount * cumulative) total) lines) ∧
      ((deposits amount total cumulative (half (amount * cumulative) total) lines).map
        fun share => share.base + share.tax).sum =
          half (amount * (cumulative + (lines.map (·.gross)).sum)) total -
            half (amount * cumulative) total := by
  induction lines generalizing cumulative with
  | nil => simp [deposits]
  | cons line rest ih =>
    obtain ⟨hbase, htax⟩ := hlines line List.mem_cons_self
    have hgross : 0 ≤ line.gross := add_nonneg hbase htax
    obtain ⟨hwithin, hsum⟩ := ih (fun other h => hlines other (List.mem_cons_of_mem _ h))
      (cumulative + line.gross)
    obtain ⟨hlow, hhigh⟩ := @share_step _ _ cumulative _ htotal hamount hle hgross
    constructor
    · exact .cons (within_of_gross hbase htax hlow hhigh) hwithin
    · rw [deposits, List.map_cons, List.sum_cons, hsum, List.map_cons, List.sum_cons,
        ← add_assoc cumulative]
      ring

/-! ### Installments -/

/-- The line of an installment. -/
def rowOf (pair : SourceLine × Share) : PartLine :=
  ⟨pair.1.index, pair.1.description, pair.2.base, pair.2.tax, pair.1.index⟩

def Safe (share : Share) : Prop :=
  (0 ≤ share.base ∧ share.base ≤ max) ∧ 0 ≤ share.tax ∧ share.tax ≤ max

theorem partLines_ok (kind : InstallmentKind) (holds : List Hold)
    {shares : List (SourceLine × Share)} (hshares : ∀ pair ∈ shares, Safe pair.2) :
    partLines kind holds shares =
      .ok (shares.map rowOf, holds ++ heldLines kind (shares.map rowOf)) := by
  induction shares generalizing holds with
  | nil => simp [partLines, heldLines]
  | cons pair rest ih =>
    obtain ⟨line, share⟩ := pair
    obtain ⟨hbase, htax⟩ := hshares _ List.mem_cons_self
    have hnext := fun holds => ih holds fun pair h => hshares pair (List.mem_cons_of_mem _ h)
    simp only [partLines, bind_ok, pure_ok]
    refine ⟨_, safe_ok.mpr ⟨rfl, hbase⟩, _, safe_ok.mpr ⟨rfl, htax⟩, _, hnext _, ?_⟩
    by_cases hheld : (rowOf (line, share)).taxOnly = true
    · simp only [rowOf] at hheld
      simp [heldLines, rowOf, hheld]
    · simp only [rowOf] at hheld
      simp [heldLines, rowOf, hheld]

/-- An installment of given shares. -/
def partOf (row : Installment) (shares : List (SourceLine × Share)) : Part :=
  { kind := row.kind
    dueOn := row.dueOn
    subtotalMinor := (shares.map (·.2.base)).sum
    taxMinor := (shares.map (·.2.tax)).sum
    totalMinor := row.amountMinor
    lines := shares.map rowOf }

/-- Shares that come to the amount of an installment. -/
structure Comes (row : Installment) (shares : List (SourceLine × Share)) : Prop where
  safe : ∀ pair ∈ shares, Safe pair.2
  total : (shares.map (·.2.base)).sum + (shares.map (·.2.tax)).sum = row.amountMinor
  max : row.amountMinor ≤ max

section Comes

variable {row : Installment} {shares : List (SourceLine × Share)}

theorem Comes.nonneg (h : Comes row shares) :
    0 ≤ (shares.map (·.2.base)).sum ∧ 0 ≤ (shares.map (·.2.tax)).sum := by
  constructor
  · apply List.sum_nonneg
    intro amount hamount
    obtain ⟨pair, hpair, rfl⟩ := List.mem_map.mp hamount
    exact (h.safe pair hpair).1.1
  · apply List.sum_nonneg
    intro amount hamount
    obtain ⟨pair, hpair, rfl⟩ := List.mem_map.mp hamount
    exact (h.safe pair hpair).2.1

theorem part_ok (holds : List Hold) (h : Comes row shares) :
    part holds row shares =
      .ok (partOf row shares, holds ++ heldLines row.kind (partOf row shares).lines) := by
  obtain ⟨hbase, htax⟩ := h.nonneg
  have hmax := h.max
  have htotal := h.total
  have hbaseMax : (shares.map (·.2.base)).sum ≤ max := by omega
  have htaxMax : (shares.map (·.2.tax)).sum ≤ max := by omega
  have hbases : safe ((shares.map rowOf).map (·.amountMinor)).sum =
      .ok (shares.map (·.2.base)).sum := by
    rw [safe_ok, List.map_map]
    exact ⟨rfl, hbase, hbaseMax⟩
  have htaxes : safe ((shares.map rowOf).map (·.taxMinor)).sum =
      .ok (shares.map (·.2.tax)).sum := by
    rw [safe_ok, List.map_map]
    exact ⟨rfl, htax, htaxMax⟩
  simp only [part, bind_ok, pure_ok, refuse_ok]
  refine ⟨_, partLines_ok row.kind holds h.safe, _, hbases, _, htaxes, _,
    safe_ok.mpr ⟨htotal, by omega, by omega⟩, (), by simp, rfl⟩

theorem partOf_sums (h : Comes row shares) : (partOf row shares).Sums where
  subtotal := by simp [partOf, rowOf, Function.comp_def]
  tax := by simp [partOf, rowOf, Function.comp_def]
  total := h.total
  safe := by
    intro line hline
    obtain ⟨pair, hpair, rfl⟩ := List.mem_map.mp hline
    exact h.safe pair hpair

end Comes

/-! ### Columns -/

/-- Two columns of related rows that come to a third, row by row. -/
theorem getD_zipWith {α β : Type} {f g : α → β → ℤ} {h : α → ℤ} {as : List α} {bs : List β}
    (hlength : as.length = bs.length) (hsum : ∀ a b, f a b + g a b = h a) (i : ℕ) :
    (as.zipWith f bs).getD i 0 + (as.zipWith g bs).getD i 0 = (as.map h).getD i 0 := by
  induction as generalizing bs i with
  | nil => simp
  | cons a as ih =>
    cases bs with
    | nil => cases hlength
    | cons b bs =>
      cases i with
      | zero => simpa using hsum a b
      | succ i => simpa using ih (Nat.succ.inj hlength) i

theorem sum_zipWith {α β : Type} {f g : α → β → ℤ} {h : α → ℤ} {as : List α} {bs : List β}
    (hlength : as.length = bs.length) (hsum : ∀ a b, f a b + g a b = h a) :
    (as.zipWith f bs).sum + (as.zipWith g bs).sum = (as.map h).sum := by
  induction as generalizing bs with
  | nil => simp
  | cons a as ih =>
    cases bs with
    | nil => cases hlength
    | cons b bs =>
      have hrest := ih (Nat.succ.inj hlength)
      have hhead := hsum a b
      simp only [List.zipWith_cons_cons, List.sum_cons, List.map_cons]
      omega

theorem zipWith_left {α β γ : Type} {f : α → β → γ} {g : α → γ} {as : List α} {bs : List β}
    (hlength : as.length = bs.length) (h : ∀ a b, f a b = g a) : as.zipWith f bs = as.map g := by
  induction as generalizing bs with
  | nil => rfl
  | cons a as ih =>
    cases bs with
    | nil => cases hlength
    | cons b bs => rw [List.zipWith_cons_cons, List.map_cons, h, ih (Nat.succ.inj hlength)]

theorem zipWith_right {α β : Type} {f : α → β → ℤ} {g : β → ℤ} {as : List α} {bs : List β}
    (hlength : as.length = bs.length) (h : ∀ a b, f a b = g b) : as.zipWith f bs = bs.map g := by
  induction as generalizing bs with
  | nil =>
    cases bs with
    | nil => rfl
    | cons b bs => cases hlength
  | cons a as ih =>
    cases bs with
    | nil => cases hlength
    | cons b bs => rw [List.zipWith_cons_cons, List.map_cons, h, ih (Nat.succ.inj hlength)]

theorem forall_zipWith {α β γ : Type} {R : α → β → Prop} {P : γ → Prop} {f : α → β → γ}
    {as : List α} {bs : List β} (h : List.Forall₂ R as bs)
    (hP : ∀ a ∈ as, ∀ b, R a b → P (f a b)) : ∀ c ∈ as.zipWith f bs, P c := by
  induction h with
  | nil => simp
  | @cons a b as bs hab _ ih =>
    intro c hc
    rcases List.mem_cons.mp hc with rfl | hc
    · exact hP a List.mem_cons_self b hab
    · exact ih (fun a ha => hP a (List.mem_cons_of_mem _ ha)) c hc

/-! ### The lines of a preview -/

section Produced

variable {p : Preview}

/-- The lines of a preview, with their shares of the tax. -/
def sourceOf (p : Preview) : List SourceLine := sources p.tax.rateBps 0 0 p.lines

theorem source_base (p : Preview) :
    (sourceOf p).map (·.base) = p.lines.map Line.totalMinor := sources_base 0 0 _

theorem source_tax (p : Preview) : (sourceOf p).map (·.tax) = taxShares p := sources_tax 0 0 _

theorem rateBps_nonneg (hp : Produced p) : 0 ≤ p.tax.rateBps := by
  have htax := hp.tax
  simp only [Tax.isValid, Bool.and_eq_true, integer_iff] at htax
  exact htax.1.1

/-- The shares of the lines come to the tax. -/
theorem sum_taxShares (hp : Produced p) : (taxShares p).sum = p.taxMinor := by
  rw [taxShares, sum_differences, hp.subtotal, mul_zero, half_zero (by decide), sub_zero, zero_add,
    mul_comm, hp.taxMinor]

theorem source_nonneg (hp : Produced p) :
    ∀ line ∈ sourceOf p, 0 ≤ line.base ∧ 0 ≤ line.tax :=
  sources_nonneg (rateBps_nonneg hp)
    (fun line hline => (Line.Sound.bounds (hp.lines line hline)).2.1) 0 0

theorem source_le_max (hp : Produced p) :
    ∀ line ∈ sourceOf p, line.base ≤ max ∧ line.tax ≤ max := by
  intro line hline
  have hsub := hp.subtotal_nonneg
  have htotal := hp.total
  have hmax := hp.safe
  constructor
  · have hbase : line.base ∈ p.lines.map Line.totalMinor := by
      rw [← source_base]
      exact List.mem_map_of_mem hline
    obtain ⟨row, hrow, heq⟩ := List.mem_map.mp hbase
    rw [← heq]
    exact (Line.Sound.bounds (hp.lines row hrow)).2.2
  · have htaxes : ∀ tax ∈ (sourceOf p).map (·.tax), 0 ≤ tax := by
      intro tax htax
      obtain ⟨row, hrow, rfl⟩ := List.mem_map.mp htax
      exact (source_nonneg hp row hrow).2
    have hle := List.single_le_sum htaxes line.tax (List.mem_map_of_mem hline)
    rw [source_tax, sum_taxShares hp] at hle
    omega

theorem sum_gross (hp : Produced p) : ((sourceOf p).map (·.gross)).sum = p.totalMinor := by
  have hsplit : ((sourceOf p).map (·.gross)).sum =
      ((sourceOf p).map (·.base)).sum + ((sourceOf p).map (·.tax)).sum :=
    List.sum_map_add
  rw [hsplit, source_base, source_tax, sum_taxShares hp, hp.subtotal, hp.total]

/-- The shares of a deposit come to it, and take at most all of every line. -/
theorem deposits_of_produced (hp : Produced p) {amount : ℤ} (h0 : 0 ≤ amount)
    (hle : amount ≤ p.totalMinor) :
    List.Forall₂ Within (sourceOf p)
        (deposits amount p.totalMinor 0 0 (sourceOf p)) ∧
      ((deposits amount p.totalMinor 0 0 (sourceOf p)).map (·.base)).sum +
        ((deposits amount p.totalMinor 0 0 (sourceOf p)).map (·.tax)).sum = amount := by
  have hpos : 0 < p.totalMinor := by
    have := hp.positive
    omega
  have hdeposits := deposits_within hpos h0 hle (source_nonneg hp) 0
  rw [mul_zero, half_zero hpos, zero_add, sum_gross hp, sub_zero, half_mul hpos,
    List.sum_map_add] at hdeposits
  exact hdeposits

/-! ### The shares of an installment -/

/-- The shares that an installment takes of the lines. -/
def shares (p : Preview) (deposit : List Share) (share : SourceLine → Share → Share) :
    List (SourceLine × Share) :=
  (sourceOf p).zipWith (fun line d => (line, share line d)) deposit

variable {deposit : List Share} {share : SourceLine → Share → Share}

theorem shares_base (row : Installment) :
    (partOf row (shares p deposit share)).lines.map (·.amountMinor) =
      (sourceOf p).zipWith (fun line d => (share line d).base) deposit := by
  simp only [partOf, shares, List.map_zipWith]
  rfl

theorem shares_tax (row : Installment) :
    (partOf row (shares p deposit share)).lines.map (·.taxMinor) =
      (sourceOf p).zipWith (fun line d => (share line d).tax) deposit := by
  simp only [partOf, shares, List.map_zipWith]
  rfl

/-- Every installment has the lines of the preview. -/
theorem shares_labels (hlength : (sourceOf p).length = deposit.length) (row : Installment) :
    (partOf row (shares p deposit share)).lines.map
        (fun line => (line.index, line.sourceIndex, line.description)) =
      p.lines.zipIdx.map fun (line, i) => (i, i, described line) := by
  have hlabels := @sources_labels p.tax.rateBps 0 0 p.lines
  have hpairs : (partOf row (shares p deposit share)).lines.map
      (fun line => (line.index, line.sourceIndex, line.description)) =
      ((sourceOf p).map fun line => (line.index, line.description)).map
        fun (i, description) => (i, i, description) := by
    simp only [partOf, shares, List.map_zipWith, List.map_map]
    exact zipWith_left hlength fun _ _ => rfl
  rw [hpairs, sourceOf, hlabels, List.map_map]
  rfl

theorem shares_comes (hp : Produced p) (hwithin : List.Forall₂ Within (sourceOf p) deposit)
    {row : Installment} (hsafe : ∀ line d, Within line d → line.base ≤ max → line.tax ≤ max →
      Safe (share line d))
    (htotal : ((sourceOf p).zipWith (fun line d => (share line d).base) deposit).sum +
      ((sourceOf p).zipWith (fun line d => (share line d).tax) deposit).sum =
        row.amountMinor)
    (hmax : row.amountMinor ≤ max) : Comes row (shares p deposit share) where
  safe := by
    refine forall_zipWith (P := fun pair : SourceLine × Share => Safe pair.2) hwithin ?_
    intro line hline d hd
    exact hsafe line d hd (source_le_max hp line hline).1 (source_le_max hp line hline).2
  total := by
    simp only [shares, List.map_zipWith]
    exact htotal
  max := hmax

/-! ### The result -/

theorem allowed_of_clean (hp : Produced p) (hclean : Clean p) :
    ∀ line ∈ p.lines, line.Sound ∧ Allowed line := by
  intro line hline
  have hsound := hp.lines line hline
  refine ⟨hsound, ?_⟩
  cases line with
  | time description totalMinor source => exact hclean.times description totalMinor source hline
  | fixed charge totalMinor =>
    obtain ⟨hvalid, -⟩ := hsound
    simp only [Charge.isValid, Bool.and_eq_true] at hvalid
    have hunits := isText_units hvalid.1.1
    exact ⟨hunits.1, hunits.2.2⟩

theorem sourceLines_source (hp : Produced p) (hclean : Clean p) :
    sourceLines p.tax.rateBps 0 0 0 p.lines =
      .ok (sourceOf p, p.subtotalMinor, p.taxMinor) := by
  have hsub := hp.subtotal
  have htotal := hp.total
  have hmax := hp.safe
  have htax := hp.tax_nonneg
  have hok := @sourceLines_ok p.tax.rateBps _ (allowed_of_clean hp hclean) 0 _
    (le_refl 0) (by omega)
  rw [zero_mul, half_zero (by decide), zero_add, hsub, hp.taxMinor] at hok
  exact hok

theorem day_of_clean {value : String} (hvalid : validWorkedOn value = true)
    (hyear : inYearZero value = false) : day value = true := (day_iff value).mpr ⟨hvalid, hyear⟩

/-- The due dates of a clean preview pass the checks of its schedule. -/
theorem dates_of_clean (hp : Produced p) (hclean : Clean p) :
    day p.dueOn = true ∧ isScheduled p = true := by
  have hmax := hp.safe
  have hpos := hp.positive
  cases hp.scheduled with
  | full h =>
    have hday := day_of_clean hp.dueOn (hclean.dates ⟨.full, p.totalMinor, p.dueOn⟩ (by simp [h]))
    refine ⟨hday, ?_⟩
    simp [isScheduled, h, hday, integer_iff.mpr ⟨hpos, hmax⟩]
  | parts deposit dueOn hdeposit hlt hdate hbefore h =>
    have hday := day_of_clean hp.dueOn
      (hclean.dates ⟨.balance, p.totalMinor - deposit, p.dueOn⟩ (by simp [h]))
    have hfirst := day_of_clean hdate (hclean.dates ⟨.deposit, deposit, dueOn⟩ (by simp [h]))
    have h₁ : integer deposit 1 max = true := integer_iff.mpr ⟨hdeposit, by omega⟩
    have h₂ : integer (p.totalMinor - deposit) 1 max = true :=
      integer_iff.mpr ⟨by omega, by omega⟩
    refine ⟨hday, ?_⟩
    simp [isScheduled, h, hday, hfirst, h₁, h₂, hbefore]

/-- A clean preview is allocated as the loop over its installments says. -/
theorem allocate_eq (hp : Produced p) (hclean : Clean p) {installments : List Part}
    {holds : List Hold}
    (h : parts (fun childIndex => shares p
        (deposits ((p.installments.map (·.amountMinor)).headD 0) p.totalMinor 0 0 (sourceOf p))
        (shareOf (p.installments.length = 1) childIndex)) 0 [] p.installments =
      .ok (installments, holds)) :
    allocateInstallments p = .ok ⟨installments, holds⟩ := by
  obtain ⟨hday, hscheduled⟩ := dates_of_clean hp hclean
  have htotal := hp.total
  have hsub := hp.subtotal_nonneg
  have htax := hp.tax_nonneg
  have hmax := hp.safe
  have hpos := hp.positive
  have hnonempty : p.lines.isEmpty = false := by simpa using hp.nonempty
  have hlength : ¬ 100 < p.lines.length := Nat.not_lt.mpr hp.length
  have h₁ : integer p.subtotalMinor 0 max = true := integer_iff.mpr ⟨hsub, by omega⟩
  have h₂ : integer p.taxMinor 0 max = true := integer_iff.mpr ⟨htax, by omega⟩
  have h₃ : integer p.totalMinor 0 max = true := integer_iff.mpr ⟨by omega, hmax⟩
  have hne : p.totalMinor ≠ 0 := by omega
  simp only [allocateInstallments, bind_ok, refuse_ok, pure_ok]
  refine ⟨(), ?_, (), ?_, (), ?_, _, sourceLines_source hp hclean, (), ?_, (), ?_, _, h, rfl⟩
  · simp [hday, hp.tax, hnonempty, hlength]
  · simp [h₁, h₂, h₃]
  · simp [hne]
  · simp [htotal]
  · simp [hscheduled]

/-- An invoice with one installment has all of every line in it. -/
theorem allocate_full (hp : Produced p) (hclean : Clean p)
    (h : p.installments = [⟨.full, p.totalMinor, p.dueOn⟩]) :
    ∃ part, allocateInstallments p = .ok ⟨[part], heldLines .full part.lines⟩ ∧ part.Sums ∧
      part.installment = ⟨.full, p.totalMinor, p.dueOn⟩ ∧
      part.lines.map (fun line => (line.index, line.sourceIndex, line.description)) =
        p.lines.zipIdx.map (fun (line, i) => (i, i, described line)) ∧
      part.lines.map (·.amountMinor) = p.lines.map Line.totalMinor ∧
      part.lines.map (·.taxMinor) = taxShares p := by
  have hpos := hp.positive
  obtain ⟨hwithin, -⟩ := deposits_of_produced hp (show 0 ≤ p.totalMinor by omega) le_rfl
  have hbase : (sourceOf p).zipWith (fun line d => (shareOf true 0 line d).base)
      (deposits p.totalMinor p.totalMinor 0 0 (sourceOf p)) = p.lines.map Line.totalMinor := by
    rw [← source_base]
    exact zipWith_left hwithin.length_eq fun _ _ => rfl
  have htax : (sourceOf p).zipWith (fun line d => (shareOf true 0 line d).tax)
      (deposits p.totalMinor p.totalMinor 0 0 (sourceOf p)) = taxShares p := by
    rw [← source_tax]
    exact zipWith_left hwithin.length_eq fun _ _ => rfl
  have hcomes : Comes ⟨.full, p.totalMinor, p.dueOn⟩
      (shares p (deposits p.totalMinor p.totalMinor 0 0 (sourceOf p)) (shareOf true 0)) := by
    apply shares_comes hp hwithin
    · intro line d hd hbase htax
      exact ⟨⟨hd.base_nonneg.trans hd.base_le, hbase⟩, hd.tax_nonneg.trans hd.tax_le, htax⟩
    · rw [hbase, htax, hp.subtotal, sum_taxShares hp, hp.total]
    · exact hp.safe
  refine ⟨_, allocate_eq hp hclean ?_, partOf_sums hcomes, rfl,
    shares_labels hwithin.length_eq _, (shares_base _).trans hbase, (shares_tax _).trans htax⟩
  simp only [h, parts, bind_ok, pure_ok]
  exact ⟨_, part_ok [] hcomes, _, rfl, by simp⟩

theorem parts_pair (of : ℕ → List (SourceLine × Share)) {first second : Installment}
    (hfirst : Comes first (of 0)) (hsecond : Comes second (of 1)) :
    parts of 0 [] [first, second] = .ok ([partOf first (of 0), partOf second (of 1)],
      heldLines first.kind (partOf first (of 0)).lines ++
        heldLines second.kind (partOf second (of 1)).lines) := by
  simp only [parts, bind_ok, pure_ok]
  exact ⟨_, part_ok [] hfirst, _, ⟨_, part_ok _ hsecond, _, rfl, rfl⟩, rfl⟩

theorem deposit_comes (hp : Produced p) {amount : ℤ} (h0 : 0 ≤ amount) (hle : amount ≤ p.totalMinor)
    (dueOn : String) : Comes ⟨.deposit, amount, dueOn⟩
      (shares p (deposits amount p.totalMinor 0 0 (sourceOf p)) (shareOf false 0)) := by
  obtain ⟨hwithin, hsum⟩ := deposits_of_produced hp h0 hle
  have hbase : (sourceOf p).zipWith (fun line d => (shareOf false 0 line d).base)
      (deposits amount p.totalMinor 0 0 (sourceOf p)) =
        (deposits amount p.totalMinor 0 0 (sourceOf p)).map (·.base) :=
    zipWith_right hwithin.length_eq fun _ _ => rfl
  have htax : (sourceOf p).zipWith (fun line d => (shareOf false 0 line d).tax)
      (deposits amount p.totalMinor 0 0 (sourceOf p)) =
        (deposits amount p.totalMinor 0 0 (sourceOf p)).map (·.tax) :=
    zipWith_right hwithin.length_eq fun _ _ => rfl
  apply shares_comes hp hwithin
  · intro line d hd hbase htax
    exact ⟨⟨hd.base_nonneg, hd.base_le.trans hbase⟩, hd.tax_nonneg, hd.tax_le.trans htax⟩
  · rw [hbase, htax, hsum]
  · exact hle.trans hp.safe

theorem rest_base (line : SourceLine) (d : Share) :
    (shareOf false 0 line d).base + (shareOf false 1 line d).base = line.base :=
  add_sub_cancel d.base line.base

theorem rest_tax (line : SourceLine) (d : Share) :
    (shareOf false 0 line d).tax + (shareOf false 1 line d).tax = line.tax :=
  add_sub_cancel d.tax line.tax

/-- The balance has the rest of every line. -/
theorem balance_comes (hp : Produced p) {amount : ℤ} (h0 : 0 ≤ amount)
    (hle : amount ≤ p.totalMinor) :
    Comes ⟨.balance, p.totalMinor - amount, p.dueOn⟩
      (shares p (deposits amount p.totalMinor 0 0 (sourceOf p)) (shareOf false 1)) := by
  obtain ⟨hwithin, -⟩ := deposits_of_produced hp h0 hle
  have hbases := sum_zipWith hwithin.length_eq rest_base
  have htaxes := sum_zipWith hwithin.length_eq rest_tax
  have hfirst := (deposit_comes hp h0 hle p.dueOn).total
  simp only [shares, List.map_zipWith] at hfirst
  rw [source_base, hp.subtotal] at hbases
  rw [source_tax, sum_taxShares hp] at htaxes
  have htotal := hp.total
  have hmax := hp.safe
  apply shares_comes hp hwithin
  · intro line d hd hbase htax
    have h₁ := hd.base_nonneg
    have h₃ := hd.tax_nonneg
    refine ⟨⟨sub_nonneg.mpr hd.base_le, ?_⟩, sub_nonneg.mpr hd.tax_le, ?_⟩
    · show line.base - d.base ≤ max
      omega
    · show line.tax - d.tax ≤ max
      omega
  · dsimp only
    omega
  · dsimp only
    omega

/-- An invoice with a deposit and a balance has the rest of every line in the balance. -/
theorem allocate_parts (hp : Produced p) (hclean : Clean p) {amount : ℤ} {dueOn : String}
    (hdeposit : 1 ≤ amount) (hlt : amount < p.totalMinor)
    (h : p.installments = [⟨.deposit, amount, dueOn⟩,
      ⟨.balance, p.totalMinor - amount, p.dueOn⟩]) :
    ∃ result, allocateInstallments p = .ok result ∧ Exact p result := by
  obtain ⟨hwithin, -⟩ := deposits_of_produced hp (show 0 ≤ amount by omega) hlt.le
  have hlength := hwithin.length_eq
  have hfirst := deposit_comes hp (show 0 ≤ amount by omega) hlt.le dueOn
  have hsecond := balance_comes hp (show 0 ≤ amount by omega) hlt.le
  have hparts := parts_pair (fun childIndex => shares p
    (deposits amount p.totalMinor 0 0 (sourceOf p)) (shareOf false childIndex)) hfirst hsecond
  refine ⟨_, allocate_eq hp hclean (by rw [h]; exact hparts), by rw [h]; rfl, ?_, ?_, fun i => ?_,
    fun i => ?_, sum_taxShares hp, by simp [partOf]⟩
  · intro part hpart
    simp only [List.mem_cons, List.not_mem_nil, or_false] at hpart
    rcases hpart with rfl | rfl
    · exact partOf_sums hfirst
    · exact partOf_sums hsecond
  · intro part hpart
    simp only [List.mem_cons, List.not_mem_nil, or_false] at hpart
    rcases hpart with rfl | rfl
    · exact shares_labels hlength _
    · exact shares_labels hlength _
  · simp only [List.map_cons, List.map_nil, List.sum_cons, List.sum_nil, add_zero]
    rw [shares_base, shares_base, ← source_base]
    exact getD_zipWith hlength rest_base i
  · simp only [List.map_cons, List.map_nil, List.sum_cons, List.sum_nil, add_zero]
    rw [shares_tax, shares_tax, ← source_tax]
    exact getD_zipWith hlength rest_tax i

theorem allocate_exact (hp : Produced p) (hclean : Clean p) :
    ∃ result, allocateInstallments p = .ok result ∧ Exact p result := by
  cases hp.scheduled with
  | full h =>
    obtain ⟨part, hresult, hsums, hinstallment, hlabels, hamounts, htaxes⟩ :=
      allocate_full hp hclean h
    have hkind : part.kind = .full := congrArg (·.kind) hinstallment
    refine ⟨_, hresult, ?_, ?_, ?_, ?_, ?_, sum_taxShares hp, ?_⟩
    · simpa [h] using hinstallment
    · simpa using hsums
    · simpa using hlabels
    · intro i
      rw [List.map_singleton, List.sum_singleton, hamounts]
    · intro i
      rw [List.map_singleton, List.sum_singleton, htaxes]
    · simp [hkind]
  | parts amount dueOn hdeposit hlt _ _ h => exact allocate_parts hp hclean hdeposit hlt h

/-- A snapshot that is allocated has clean descriptions and dates. -/
theorem clean_of_allocated {result : Allocated} (h : allocateInstallments p = .ok result) :
    Clean p := by
  simp only [allocateInstallments, bind_ok, refuse_ok] at h
  obtain ⟨-, -, -, -, -, -, _, hlines, -, -, -, hscheduled, -⟩ := h
  constructor
  · intro description totalMinor source hline
    exact sourceLines_allowed hlines _ hline
  · intro row hrow
    simp only [isScheduled, Bool.not_eq_false', Bool.and_eq_true, List.all_eq_true] at hscheduled
    exact ((day_iff row.dueOn).mp (hscheduled.1 row hrow).2).2

end Produced

/-! ### Every preview -/

/-- A preview is allocated, and exactly so, just when its descriptions and dates are clean. -/
theorem allocation_exact {collation : String → String → Bool} {env : Environment}
    {body input : Intent} {snapshot : Preview} (hinput : intent collation body = .ok input)
    (hpreview : preview env input = .ok snapshot) :
    (∃ result, allocateInstallments snapshot = .ok result ∧ Exact snapshot result) ↔
      Clean snapshot := by
  constructor
  · rintro ⟨result, hresult, -⟩
    exact clean_of_allocated hresult
  · exact allocate_exact (preview_produced (intent_asked hinput) hpreview)

/-! ### A sample invoice -/

/-- An hour and a half of work at a rate of 33.35 an hour, and its description. -/
def sampleRow (description : String) : Row where
  id := "time-1"
  revision := 2
  projectId := "project-1"
  projectName := "Website"
  projectRevision := 0
  actorId := "actor-1"
  actorEmail := "staff@example.invalid"
  seconds := 5400
  startedAt := 1000
  endedAt := some 5401000
  description := description
  workedOn := some "2026-10-20"
  sourceKind := some "MANUAL"
  billable := some true
  reviewStatus := .approved
  reviewedBy := some "actor-2"
  reviewedAt := some 6000000
  currency := some "CAD"
  rateMinor := some 3335
  rateReference := none
  invoiceRef := none

def sampleEnvironment (description : String) : Environment where
  sha _ := "0"
  jsonLength _ := 1000
  client := .ok ⟨"client-1", "Client", 0⟩
  project := .ok none
  rows := [sampleRow description]
  hasFinance := true

def sampleBody : Intent where
  clientId := "client-1"
  projectId := none
  title := "Invoice"
  currency := "CAD"
  tax := ⟨.hst, 1300⟩
  dueOn := "2026-11-20"
  times := [⟨"time-1", 2⟩]
  charges := [⟨"Hosting", 3, 333⟩]
  deposit := some ⟨2001, "2026-10-30"⟩

def samplePreview (description : String) : Preview where
  client := ⟨"client-1", "Client", 0⟩
  project := none
  clientId := "client-1"
  projectId := none
  title := "Invoice"
  currency := "CAD"
  tax := ⟨.hst, 1300⟩
  dueOn := "2026-11-20"
  lines := [.time (Js.codeUnits description) 5003 (sampleRow description).toSource,
    .fixed ⟨"Hosting", 3, 333⟩ 999]
  subtotalMinor := 6002
  taxMinor := 780
  totalMinor := 6782
  installments := [⟨.deposit, 2001, "2026-10-30"⟩, ⟨.balance, 4781, "2026-11-20"⟩]
  fingerprint := "0"

theorem sample_intent : intent (· ≤ ·) sampleBody = .ok sampleBody := by decide +kernel

theorem sample_preview :
    preview (sampleEnvironment "Design") sampleBody = .ok (samplePreview "Design") := by
  decide +kernel

theorem allocation_exact_design :
    ∃ result, allocateInstallments (samplePreview "Design") = .ok result ∧
      Exact (samplePreview "Design") result := by
  apply (allocation_exact sample_intent sample_preview).mpr
  constructor
  · intro description totalMinor source hline
    simp only [samplePreview, List.mem_cons, Line.time.injEq, List.not_mem_nil, or_false,
      reduceCtorEq] at hline
    rw [hline.1]
    decide +kernel
  · decide +kernel

/-- The time of an entry with a blank description is previewed, and not allocated. -/
theorem blank_not_allocated :
    intent (· ≤ ·) sampleBody = .ok sampleBody ∧
      preview (sampleEnvironment " ") sampleBody = .ok (samplePreview " ") ∧
        allocateInstallments (samplePreview " ") = .error (.status 409) := by
  decide +kernel

end Ashbi.Pilot.Installments

import Mathlib.Data.List.Forall2
import Ashbi.Records.Accepted
import Ashbi.Records.Calculation

/-! The operators and the rollups on values of the types for which they were accepted: they come
to a value of the type of their result, or to an error of the calculation. -/

namespace Ashbi.Records

open Checked

variable {N α β : Type} {P : Platform N}

/-! ### Computations that stop only for the calculation -/

/-- The computation comes to a value with `Q`, or to an error of the calculation. -/
def Computes (Q : α → Prop) : Except Stop α → Prop
  | .ok a => Q a
  | .error stop => ∃ code, stop = .calculation code

section

variable {Q R : α → Prop} {x : Except Stop α}

theorem Computes.bind {S : β → Prop} {f : α → Except Stop β} (h : Computes Q x)
    (hf : ∀ a, Q a → Computes S (f a)) : Computes S (x >>= f) := by
  cases x with
  | ok a => exact hf a h
  | error stop => exact h

theorem Computes.mono (h : Computes Q x) (hQ : ∀ a, Q a → R a) : Computes R x := by
  cases x with
  | ok a => exact hQ a h
  | error stop => exact h

theorem computes_pure {a : α} (h : Q a) : Computes Q (pure a) := h

theorem computes_refuse {wrong : Bool} {code : Code} :
    Computes (fun _ => wrong = false) (refuse wrong (calculationFail code)) := by
  cases wrong with
  | false => exact rfl
  | true => exact ⟨code, rfl⟩

theorem computes_passed {wrong : Bool} {stop : Stop} (h : wrong = false) :
    Computes (fun _ => True) (refuse wrong stop) := by
  subst h
  exact trivial

theorem computes_found {value : Option α} {code : Code} :
    Computes (fun a => value = some a) (found value (calculationFail code)) := by
  cases value with
  | none => exact ⟨code, rfl⟩
  | some a => exact rfl

theorem computes_some {value : Option α} {stop : Stop} {a : α} (h : value = some a) :
    Computes (fun b => a = b) (found value stop) := by
  subst h
  exact rfl

end

theorem computes_typed {read : Value N → Option α} {Q : α → Prop} {inputs : List (Value N)}
    (h : ∀ v ∈ inputs, ∃ a, read v = some a ∧ Q a) :
    Computes (fun as => as.length = inputs.length ∧ ∀ a ∈ as, Q a) (typed read inputs) := by
  have hmap : ∃ as, inputs.mapM read = some as ∧ as.length = inputs.length ∧ ∀ a ∈ as, Q a := by
    induction inputs with
    | nil => exact ⟨[], rfl, rfl, by simp⟩
    | cons v rest ih =>
      obtain ⟨a, ha, hq⟩ := h v List.mem_cons_self
      obtain ⟨as, has, hlength, hall⟩ := ih fun v hv => h v (List.mem_cons_of_mem _ hv)
      refine ⟨a :: as, ?_, by simp [hlength], ?_⟩
      · simp [List.mapM_cons, ha, has]
      · simpa using ⟨hq, hall⟩
  obtain ⟨as, has, hq⟩ := hmap
  unfold typed
  rw [has]
  exact hq

/-! ### Values of a type -/

theorem Fits.number {v : Value N} (h : Fits P .number v) :
    ∃ n, v.number? = some n ∧ P.isFinite n := by
  cases v with
  | number n => exact ⟨n, rfl, h⟩
  | _ => cases h

theorem Fits.text {v : Value N} (h : Fits P .text v) : ∃ s, v.text? = some s ∧ True := by
  cases v with
  | text s => exact ⟨s, rfl, trivial⟩
  | _ => cases h

theorem Fits.boolean {v : Value N} (h : Fits P .boolean v) : ∃ b, v.boolean? = some b ∧ True := by
  cases v with
  | boolean b => exact ⟨b, rfl, trivial⟩
  | _ => cases h

/-- The time value of a date is a whole number of days, and not large. -/
theorem Fits.date {v : Value N} (h : Fits P .date v) :
    ∃ z, date? v = some z ∧ z.natAbs ≤ 2 ^ 50 ∧ 86400000 ∣ z := by
  cases v with
  | text s =>
    obtain ⟨d, hd⟩ := Option.isSome_iff_exists.mp h
    refine ⟨d * 86400000, by simp [date?, hd], ?_, Dvd.intro_left d rfl⟩
    have := Calendar.parseDate_bound hd
    omega
  | _ => cases h

theorem fits_all {t : ResultType} {ts : List ResultType} {inputs : List (Value N)}
    (h : List.Forall₂ (Fits P) ts inputs) (ht : ∀ t' ∈ ts, t' = t) :
    ∀ v ∈ inputs, Fits P t v := by
  induction h with
  | nil => simp
  | @cons t' v _ _ hv _ ih =>
    rintro w (_ | ⟨_, hw⟩)
    · exact ht t' List.mem_cons_self ▸ hv
    · exact ih (fun t' ht' => ht t' (List.mem_cons_of_mem _ ht')) w hw

theorem matching_some {allowed ts : List ResultType} {t : ResultType}
    (h : matching allowed ts = some t) : t ∈ allowed ∧ ∀ t' ∈ ts, t' = t := by
  cases ts with
  | nil => cases h
  | cons first rest =>
    obtain ⟨⟨hmem, hrest⟩, h⟩ := Option.ite_none_right_eq_some.mp h
    obtain rfl := Option.some.inj h
    exact ⟨hmem, by simpa using hrest⟩

theorem computes_finite {n : N} : Computes (Fits P .number) (finite P n) := by
  apply computes_refuse.bind
  intro _ h
  exact computes_pure (by simpa [Fits] using h)

theorem computes_boundedText {s : String} : Computes (Fits P .text) (boundedText (N := N) s) := by
  apply computes_refuse.bind
  intro _ _
  exact computes_pure trivial

theorem equalTo_sound {t : ResultType} {a b : Value N} (ht : t ∈ scalars) (ha : Fits P t a)
    (hb : Fits P t b) : Computes (Fits P .boolean) (equalTo P a b) := by
  simp only [scalars, List.mem_cons, List.not_mem_nil, or_false] at ht
  rcases ht with rfl | rfl | rfl | rfl
  all_goals
    cases a
    all_goals first
      | exact False.elim ha
      | cases b <;> first | exact False.elim hb | exact trivial

theorem lessThan_sound {t : ResultType} {a b : Value N} (ht : t ∈ [ResultType.number, .date])
    (ha : Fits P t a) (hb : Fits P t b) : Computes (Fits P .boolean) (lessThan P a b) := by
  simp only [List.mem_cons, List.not_mem_nil, or_false] at ht
  rcases ht with rfl | rfl
  · cases a
    case number =>
      cases b
      case number => exact trivial
      all_goals exact False.elim hb
    all_goals exact False.elim ha
  · cases a
    case text a =>
      cases b
      case text b =>
        have hdates : (validDate a && validDate b) = true := by
          rw [show validDate a = true from ha, show validDate b = true from hb]
          rfl
        simp only [lessThan]
        rw [if_pos hdates]
        exact trivial
      all_goals exact False.elim hb
    all_goals exact False.elim ha

theorem divide_sound {ns : List N} (h : ns.length = 2) :
    Computes (Fits P .number) (divide P ns) := by
  obtain ⟨a, b, rfl⟩ := List.length_eq_two.mp h
  apply computes_refuse.bind
  intro _ _
  exact computes_finite

theorem roundTo_sound {a places : N} : Computes (Fits P .number) (roundTo P a places) := by
  apply computes_refuse.bind
  intro _ _
  apply computes_finite.bind
  intro _ _
  exact computes_finite

theorem daysBetween_sound {a b : ℤ} (ha : a.natAbs ≤ 2 ^ 50 ∧ 86400000 ∣ a)
    (hb : b.natAbs ≤ 2 ^ 50 ∧ 86400000 ∣ b) :
    P.isFinite (P.div (P.sub (P.ofInt b) (P.ofInt a)) (P.ofInt 86400000)) := by
  have hdvd : (86400000 : ℤ) ∣ b - a := Int.dvd_sub hb.2 ha.2
  rw [P.sub_ofInt (by omega) (by omega) (by omega),
    P.div_ofInt (by omega) (by decide) (by decide) hdvd]
  exact P.finite_ofInt (by omega)

section Arguments

variable {ts : List ResultType} {inputs : List (Value N)} {stop : Stop} {u : Unit}
  (hargs : List.Forall₂ (Fits P) ts inputs)

include hargs

/-- The arguments of an operator all of whose arguments are of one type. -/
theorem fits_of_refuse {t : ResultType} (h : refuse (!ts.all (· = t)) stop = .ok u) :
    ∀ v ∈ inputs, Fits P t v := by
  apply fits_all hargs
  simpa using h

theorem numbers_computes (h : refuse (!ts.all (· = .number)) stop = .ok u) :
    Computes (fun ns => ns.length = inputs.length ∧ ∀ n ∈ ns, P.isFinite n)
      (typed Value.number? inputs) :=
  computes_typed fun v hv => (fits_of_refuse hargs h v hv).number

theorem booleans_computes (h : refuse (!ts.all (· = .boolean)) stop = .ok u) :
    Computes (fun bs => bs.length = inputs.length ∧ ∀ b ∈ bs, True)
      (typed Value.boolean? inputs) :=
  computes_typed fun v hv => (fits_of_refuse hargs h v hv).boolean

/-- The arguments of a comparison. -/
theorem pair_of_matching {allowed : List ResultType}
    (h : refuse (matching allowed ts).isNone stop = .ok u) (htwo : ts.length = 2) :
    ∃ t ∈ allowed, ∃ a b, inputs = [a, b] ∧ Fits P t a ∧ Fits P t b := by
  obtain ⟨t, ht⟩ := Option.isSome_iff_exists.mp
    (Option.isNone_eq_false_iff.mp (refuse_ok.mp h))
  obtain ⟨hmem, heq⟩ := matching_some ht
  have hfits := fits_all hargs heq
  obtain ⟨a, b, rfl⟩ := List.length_eq_two.mp (hargs.length_eq.symm.trans htwo)
  exact ⟨t, hmem, a, b, rfl, hfits a (by simp), hfits b (by simp)⟩

end Arguments

/-- An operator on arguments of the types for which it was accepted. -/
theorem apply_sound {op : Op} {ts : List ResultType} {inputs : List (Value N)} {t : ResultType}
    (hleast : op.arity.1 ≤ ts.length) (hmost : ts.length ≤ op.arity.2)
    (hargs : List.Forall₂ (Fits P) ts inputs) (h : operationType op ts = .ok t)
    (hif : op ≠ .if) (hcoalesce : op ≠ .coalesce) : Computes (Fits P t) (apply P op inputs) := by
  have hlength := hargs.length_eq
  cases op with
  | add =>
    obtain ⟨u, hall, ht⟩ := bind_ok.mp h
    obtain rfl := pure_ok.mp ht
    exact (numbers_computes hargs hall).bind fun _ _ => computes_finite
  | multiply =>
    obtain ⟨u, hall, ht⟩ := bind_ok.mp h
    obtain rfl := pure_ok.mp ht
    exact (numbers_computes hargs hall).bind fun _ _ => computes_finite
  | subtract =>
    obtain ⟨u, hall, ht⟩ := bind_ok.mp h
    obtain rfl := pure_ok.mp ht
    apply (numbers_computes hargs hall).bind
    rintro ns ⟨hns, -⟩
    obtain ⟨a, b, rfl⟩ := List.length_eq_two.mp
      (hns.trans (hlength.symm.trans (Nat.le_antisymm hmost hleast)))
    exact computes_finite
  | divide =>
    obtain ⟨u, hall, ht⟩ := bind_ok.mp h
    obtain rfl := pure_ok.mp ht
    apply (numbers_computes hargs hall).bind
    rintro ns ⟨hns, -⟩
    exact divide_sound (hns.trans (hlength.symm.trans (Nat.le_antisymm hmost hleast)))
  | round =>
    obtain ⟨u, hall, ht⟩ := bind_ok.mp h
    obtain rfl := pure_ok.mp ht
    apply (numbers_computes hargs hall).bind
    rintro ns ⟨hns, -⟩
    rw [← hlength] at hns
    match ns, hns with
    | [a], _ => exact roundTo_sound
    | [a, places], _ => exact roundTo_sound
    | [], hns => simp [← hns, Op.arity] at hleast
    | _ :: _ :: _ :: _, hns => simp [← hns, Op.arity] at hmost
  | equal =>
    obtain ⟨u, hsame, ht⟩ := bind_ok.mp h
    obtain rfl := pure_ok.mp ht
    obtain ⟨t', hmem, a, b, rfl, ha, hb⟩ :=
      pair_of_matching hargs hsame (Nat.le_antisymm hmost hleast)
    exact equalTo_sound hmem ha hb
  | greater =>
    obtain ⟨u, hsame, ht⟩ := bind_ok.mp h
    obtain rfl := pure_ok.mp ht
    obtain ⟨t', hmem, a, b, rfl, ha, hb⟩ :=
      pair_of_matching hargs hsame (Nat.le_antisymm hmost hleast)
    exact lessThan_sound hmem hb ha
  | less =>
    obtain ⟨u, hsame, ht⟩ := bind_ok.mp h
    obtain rfl := pure_ok.mp ht
    obtain ⟨t', hmem, a, b, rfl, ha, hb⟩ :=
      pair_of_matching hargs hsame (Nat.le_antisymm hmost hleast)
    exact lessThan_sound hmem ha hb
  | and =>
    obtain ⟨u, hall, ht⟩ := bind_ok.mp h
    obtain rfl := pure_ok.mp ht
    exact (booleans_computes hargs hall).bind fun _ _ => computes_pure trivial
  | or =>
    obtain ⟨u, hall, ht⟩ := bind_ok.mp h
    obtain rfl := pure_ok.mp ht
    exact (booleans_computes hargs hall).bind fun _ _ => computes_pure trivial
  | not =>
    obtain ⟨u, hall, ht⟩ := bind_ok.mp h
    obtain rfl := pure_ok.mp ht
    apply (booleans_computes hargs hall).bind
    rintro bs ⟨hbs, -⟩
    obtain ⟨b, rfl⟩ := List.length_eq_one_iff.mp
      (hbs.trans (hlength.symm.trans (Nat.le_antisymm hmost hleast)))
    exact computes_pure trivial
  | concat =>
    obtain ⟨u, hall, ht⟩ := bind_ok.mp h
    obtain rfl := pure_ok.mp ht
    exact (computes_typed fun v hv => (fits_of_refuse hargs hall v hv).text).bind fun _ _ =>
      computes_boundedText
  | daysBetween =>
    obtain ⟨u, hall, ht⟩ := bind_ok.mp h
    obtain rfl := pure_ok.mp ht
    apply (computes_typed fun v hv => (fits_of_refuse hargs hall v hv).date).bind
    rintro zs ⟨hzs, hdates⟩
    obtain ⟨a, b, rfl⟩ := List.length_eq_two.mp
      (hzs.trans (hlength.symm.trans (Nat.le_antisymm hmost hleast)))
    exact computes_pure (daysBetween_sound (hdates a (by simp)) (hdates b (by simp)))
  | «if» => exact absurd rfl hif
  | coalesce => exact absurd rfl hcoalesce

end Ashbi.Records

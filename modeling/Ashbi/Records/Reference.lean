import Ashbi.Records.Operators

/-! Rollups are of the type of their field, and calculation without a memory: what each field comes
to by itself. -/

namespace Ashbi.Records

open Checked

variable {N : Type} {P : Platform N} {catalog : Catalog N} {fields : List (Field N)}
  {inputs : Inputs N} {field : Field N} {t : ResultType}

/-- The catalog holds field definitions that have been accepted. -/
def Stored (P : Platform N) (catalog : Catalog N) : Prop :=
  ∀ id fields, catalog id = some fields →
    ∃ catalog' types, validateRecordDefinitions P catalog' fields = .ok types

/-- Null, or of the type of the result. -/
def Fine (P : Platform N) (t : ResultType) (value : Value N) : Prop :=
  value = .null ∨ Fits P t value

/-- A choice that is stored has its options. -/
theorem Shaped.options (h : Shaped catalog field) :
    (decide (field.type = .select) && field.options.isNone) = false := by
  obtain ⟨u, -, h⟩ := bind_ok.mp h.checked
  obtain ⟨u, hoptions, -⟩ := bind_ok.mp h
  cases hnone : field.options with
  | some options => simp
  | none =>
    rw [refuse_ok, hnone] at hoptions
    simp only [validOptions, Bool.not_false, Bool.and_true, Bool.or_eq_false_iff] at hoptions
    rw [hoptions.1, Bool.false_and]

theorem storedInput_fine {value : Value N} (ht : scalarType field.type = some t)
    (h : storedInput P field value) : Fine P t value := by
  cases value with
  | null => exact .inl rfl
  | _ =>
    right
    revert ht h
    cases htype : field.type <;> simp [scalarType, storedInput, htype] <;> rintro rfl <;>
      simp_all [Fits]

/-- A stored value is read, or it is not valid. -/
theorem plainInput_cases (P : Platform N) (inputs : Inputs N) (hshaped : Shaped catalog field)
    (ht : scalarType field.type = some t) :
    (∃ value, plainInput P inputs field = .ok value ∧ Fine P t value) ∨
      plainInput P inputs field = .error (calculationFail .invalidInput) := by
  unfold plainInput
  simp only [hshaped.options]
  cases hstored : storedInput P field ((inputs.values field.key).getD .null) with
  | true => exact .inl ⟨_, rfl, storedInput_fine ht hstored⟩
  | false => exact .inr rfl

theorem unique_spec {values : List (Value N)} (hvalues : ∀ v ∈ values, v.scalar) :
    Fits P .list (.list (Value.unique P values)) := by
  have hfold : ∀ seen : List (Value N), Fits P .list (.list seen) → Fits P .list
      (.list (values.foldl (fun seen value =>
        if seen.any (·.same P value) then seen else seen ++ [value]) seen)) := by
    induction values with
    | nil => exact fun seen h => h
    | cons v rest ih =>
      intro seen h
      rw [List.foldl_cons]
      apply ih fun w hw => hvalues w (List.mem_cons_of_mem _ hw)
      split
      · exact h
      case isFalse hnew =>
        obtain ⟨hscalar, hpairwise⟩ := h
        refine ⟨?_, List.pairwise_append.mpr ⟨hpairwise, List.pairwise_singleton _ _, ?_⟩⟩
        · intro item hitem
          rcases List.mem_append.mp hitem with hitem | hitem
          · exact hscalar item hitem
          · obtain rfl := List.mem_singleton.mp hitem
            exact hvalues item List.mem_cons_self
        · intro a ha b hb
          obtain rfl := List.mem_singleton.mp hb
          simpa using fun h => hnew (List.any_eq_true.mpr ⟨a, ha, h⟩)
  exact hfold [] ⟨by simp, List.Pairwise.nil⟩

theorem relatedInput_scalar {target : Field N} {v : Value N} (h : relatedInput P target v) :
    v.scalar := by
  cases v <;> first | rfl | cases h

theorem relatedInput_number {target : Field N} {v : Value N} (htype : target.type = .number)
    (h : relatedInput P target v) : Fits P .number v := by
  cases v <;> simp_all [relatedInput, Fits]

theorem leastOf_fine {combine : N → N → N}
    (hcombine : ∀ a b, P.isFinite a → P.isFinite b → P.isFinite (combine a b)) {ns : List N}
    (h : ∀ n ∈ ns, P.isFinite n) : Fine P .number (leastOf combine ns) := by
  cases ns with
  | nil => exact .inl rfl
  | cons n rest =>
    right
    change P.isFinite (rest.foldl combine n)
    have hn := h n List.mem_cons_self
    have hrest := fun m hm => h m (List.mem_cons_of_mem _ hm)
    clear h
    induction rest generalizing n with
    | nil => exact hn
    | cons m rest ih =>
      exact ih _ (hcombine n m hn (hrest m List.mem_cons_self)) fun k hk =>
        hrest k (List.mem_cons_of_mem _ hk)

theorem computes_fine {x : Except Stop (Value N)} (h : Computes (Fits P t) x) :
    Computes (Fine P t) x :=
  h.mono fun _ => .inr

theorem ofInt_fine {z : ℤ} (h : z.natAbs ≤ 2 ^ 53) : Fine P .number (.number (P.ofInt z)) :=
  .inr (P.finite_ofInt h)

/-- An aggregate of numbers. -/
theorem aggregated_number {aggregate : Aggregate} {values : List (Value N)}
    (hunique : aggregate ≠ .unique) (hcount : aggregate ≠ .count)
    (hvalues : ∀ v ∈ values, Fits P .number v) :
    Computes (Fine P .number) (aggregated P aggregate values) := by
  have numbers : Computes (fun ns => ns.length = values.length ∧ ∀ n ∈ ns, P.isFinite n)
      (typed Value.number? values) := computes_typed fun v hv => (hvalues v hv).number
  cases aggregate with
  | count => exact absurd rfl hcount
  | unique => exact absurd rfl hunique
  | sum =>
    apply numbers.bind
    rintro ns -
    split
    · exact computes_pure (ofInt_fine (by decide))
    · exact computes_fine computes_finite
  | average =>
    apply numbers.bind
    rintro ns -
    split
    · exact computes_pure (.inl rfl)
    · exact computes_fine computes_finite
  | min => exact numbers.bind fun ns hns =>
    computes_pure (leastOf_fine (fun _ _ => P.finite_min) hns.2)
  | max => exact numbers.bind fun ns hns =>
    computes_pure (leastOf_fine (fun _ _ => P.finite_max) hns.2)

theorem computes_selectedIds {key : String} :
    Computes (fun ids => ids.length ≤ 100) (selectedIds inputs key) := by
  apply computes_found.bind
  intro ids _
  apply computes_refuse.bind
  intro _ h
  simp only [Bool.or_eq_false_iff, decide_eq_false_iff_not, not_lt] at h
  exact computes_pure h.1.1

theorem computes_resolvedItems {key : String} {ids : List String} :
    Computes (fun items => items.length = ids.length) (resolvedItems inputs key ids) := by
  apply computes_found.bind
  intro resolved _
  apply computes_found.bind
  intro items _
  apply computes_refuse.bind
  intro _ h
  simp only [Bool.or_eq_false_iff, decide_eq_false_iff_not, not_not] at h
  exact computes_pure h.1.1

theorem emptyAggregate_fine {aggregate : Aggregate} (h : aggregate ≠ .unique) :
    Fine P .number (emptyAggregate P aggregate) := by
  cases aggregate with
  | unique => exact absurd rfl h
  | count => exact ofInt_fine (by decide)
  | sum => exact ofInt_fine (by decide)
  | average => exact .inl rfl
  | min => exact .inl rfl
  | max => exact .inl rfl

/-- In a stored collection the active field of a key is the first field of the key. -/
theorem find_target {items : List (Field N)} {key : Option String} {target : Field N}
    (hnodup : (items.map (·.key)).Nodup)
    (h : items.find? (fun item => some item.key = key && !item.archived) = some target) :
    items.find? (fun item => some item.key = key) = some target := by
  have hmem := List.mem_of_find?_eq_some h
  have hkey := List.find?_some h
  simp only [Bool.and_eq_true, decide_eq_true_eq] at hkey
  obtain rfl := hkey.1
  have hfirst := lookup_of_mem hnodup hmem
  simpa [lookup] using hfirst

/-- What an accepted rollup has shown. -/
theorem rollupType_ok (ht : rollupType catalog fields field = .ok t) :
    ∃ key relation aggregate, field.relationKey = some key ∧ lookup fields key = some relation ∧
      field.aggregate = some aggregate ∧
      ((aggregate = .count ∧ t = .number) ∨
        (aggregate ≠ .count ∧ ∃ items target, related catalog relation.collectionId = some items ∧
          items.find? (fun item => some item.key = field.targetKey && !item.archived)
            = some target ∧ collectable target.type ∧
          ((aggregate = .unique ∧ t = .list) ∨
            (aggregate ≠ .unique ∧ target.type = .number ∧ t = .number)))) := by
  obtain ⟨relation, hrelation, h⟩ := bind_ok.mp ht
  obtain ⟨key, hkey, hrelation⟩ := Option.bind_eq_some_iff.mp (found_ok.mp hrelation)
  obtain ⟨u, -, h⟩ := bind_ok.mp h
  obtain ⟨aggregate, haggregate, h⟩ := bind_ok.mp h
  refine ⟨key, relation, aggregate, hkey, hrelation, found_ok.mp haggregate, ?_⟩
  split at h
  case isTrue hcount =>
    obtain ⟨u, -, h⟩ := bind_ok.mp h
    exact .inl ⟨hcount, (pure_ok.mp h).symm⟩
  case isFalse hcount =>
    obtain ⟨target, htarget, h⟩ := bind_ok.mp h
    obtain ⟨items, hitems, htarget⟩ := Option.bind_eq_some_iff.mp (found_ok.mp htarget)
    obtain ⟨u, hcollectable, h⟩ := bind_ok.mp h
    have hcollectable : collectable target.type = true := by simpa using hcollectable
    refine .inr ⟨hcount, items, target, hitems, htarget, hcollectable, ?_⟩
    split at h
    case isTrue hunique => exact .inl ⟨hunique, (pure_ok.mp h).symm⟩
    case isFalse hunique =>
      obtain ⟨u, hnumber, h⟩ := bind_ok.mp h
      exact .inr ⟨hunique, by simpa using hnumber, (pure_ok.mp h).symm⟩

/-- The choices of a stored field that is collected. -/
theorem Stored.target {id : Option String} {items : List (Field N)} {target : Field N}
    (hstored : Stored P catalog) (hitems : related catalog id = some items)
    (hmem : target ∈ items) :
    (items.map (·.key)).Nodup ∧
      (decide (target.type = .select) && target.options.isNone) = false := by
  obtain ⟨id, -, hitems⟩ := Option.bind_eq_some_iff.mp hitems
  obtain ⟨catalog', types, hvalid⟩ := hstored id items hitems
  have hchecked := (accepted hvalid).checked
  exact ⟨keys_nodup hchecked, ((checkFields_ok.mp hchecked).1 target hmem).1.options⟩

/-- A rollup comes to a value of the type for which it was accepted. -/
theorem rollup_sound (inputs : Inputs N) (hstored : Stored P catalog)
    (ht : rollupType catalog fields field = .ok t) :
    Computes (Fine P t) (rollup P catalog fields inputs field) := by
  obtain ⟨key, relation, aggregate, hkey, hrelation, haggregate, hcases⟩ := rollupType_ok ht
  unfold rollup
  apply (computes_some hkey).bind
  rintro _ rfl
  apply (computes_some haggregate).bind
  rintro _ rfl
  apply computes_selectedIds.bind
  intro ids hids
  split
  · obtain ⟨rfl, rfl⟩ | ⟨-, items, target, -, -, -, ⟨rfl, rfl⟩ | ⟨hunique, -, rfl⟩⟩ := hcases
    · exact computes_pure (emptyAggregate_fine (by decide))
    · exact computes_pure (.inr ⟨by simp, List.Pairwise.nil⟩)
    · exact computes_pure (emptyAggregate_fine hunique)
  apply computes_resolvedItems.bind
  intro items hitems
  split
  case isTrue hcount =>
    obtain ⟨-, rfl⟩ | ⟨hnot, -⟩ := hcases
    · exact computes_pure (ofInt_fine (by omega))
    · exact absurd hcount hnot
  case isFalse hcount =>
    obtain ⟨hnot, -⟩ | ⟨-, catalogued, target, hrelated, htarget, -, htype⟩ := hcases
    · exact absurd hnot hcount
    obtain ⟨hnodup, hoptions⟩ := hstored.target hrelated (List.mem_of_find?_eq_some htarget)
    apply (computes_some hrelation).bind
    rintro _ rfl
    apply (computes_some hrelated).bind
    rintro _ rfl
    apply (computes_some (find_target hnodup htarget)).bind
    rintro _ rfl
    apply (computes_passed hoptions).bind
    intro _ _
    apply computes_refuse.bind
    intro _ hvalues
    have hvalues : ∀ v ∈ (items.map fun item =>
        ((field.targetKey.bind item.values).getD .null)).filter (!·.isNull),
        relatedInput P target v := by simpa using hvalues
    obtain ⟨rfl, rfl⟩ | ⟨hunique, hnumber, rfl⟩ := htype
    · exact computes_pure (.inr (unique_spec fun v hv => relatedInput_scalar (hvalues v hv)))
    · exact aggregated_number hunique hcount fun v hv => relatedInput_number hnumber (hvalues v hv)

/-! ### Calculation without a memory -/

variable {inputs : Inputs N}

/-- Why the calculation of a field stopped. -/
inductive Fault where
  /-- At a stored value that is not valid, of the field of the key. -/
  | stopped (key : String)
  | raised (stop : Stop)
  deriving DecidableEq

/-- What a field comes to. -/
abbrev Outcome (N : Type) := Except Fault (Value N)

/-- The field of a key is calculated. -/
def calculated (fields : List (Field N)) (key : String) : Bool :=
  (lookup fields key).any (·.type.computed)

/-- What a formula reads in a field that came to `o`. -/
def dependency (calculated : Bool) (o : Outcome N) : Outcome N :=
  match o with
  | .error (.stopped _) | .error (.raised (.calculation _)) =>
    if calculated then .error (.raised (calculationFail .dependencyError)) else o
  | o => o

def raiseFault (stop : Stop) : Outcome N := .error (.raised stop)

def outcome (P : Platform N) (catalog : Catalog N) (fields : List (Field N)) (inputs : Inputs N) :
    ℕ → String → Outcome N
  | 0, _ => raiseFault .exhausted
  | fuel + 1, key =>
    match (lookup fields key).filter (!·.archived) with
    | none => raiseFault (calculationFail .unavailableField)
    | some field =>
      match field.type with
      | .formula => evaluate P raiseFault (fun key =>
          dependency (calculated fields key) (outcome P catalog fields inputs fuel key))
          field.formula
      | .rollup => (rollup P catalog fields inputs field).mapError .raised
      | _ => (plainInput P inputs field).mapError fun _ => .stopped key

/-- What the field of a key comes to, read however often and in whatever order. -/
def verdict (P : Platform N) (catalog : Catalog N) (fields : List (Field N)) (inputs : Inputs N)
    (key : String) : Outcome N :=
  outcome P catalog fields inputs (fields.length + 1) key

section

variable {m : Type → Type} [Monad m] {raise : Stop → m (Value N)}
  {read read' : String → m (Value N)}

theorem evaluateAll_eq (args : List (Expression N)) :
    evaluateAll P raise read args = args.map (evaluate P raise read) := by
  induction args with
  | nil => rfl
  | cons e rest ih => rw [evaluateAll, ih, List.map_cons]

theorem forall₂_left {α β : Type} {R : α → β → Prop} {xs : List α} {ys : List β}
    (h : List.Forall₂ R xs ys) : ∀ x ∈ xs, ∃ y, R x y := by
  induction h with
  | nil => simp
  | cons hxy _ ih => exact List.forall_mem_cons.mpr ⟨⟨_, hxy⟩, ih⟩

/-- An expression depends on the fields that give it its type, and on no other. -/
theorem evaluate_congr {T : String → Option ResultType} {e : Expression N} {t : ResultType}
    (h : HasType P T e t) (hread : ∀ key t, T key = some t → read key = read' key) :
    evaluate P raise read e = evaluate P raise read' e := by
  induction e generalizing t with
  | literal v => rfl
  | field key =>
    cases h with
    | field _ h => exact hread key t h
  | operation op args ih =>
    cases h with
    | operation _ _ hargs _ =>
      rw [evaluate, evaluate, evaluateAll_eq, evaluateAll_eq]
      congr 1
      apply List.map_congr_left
      intro e he
      obtain ⟨t', ht'⟩ := forall₂_left hargs e he
      exact ih e he ht'
  | malformed message => rfl

end

section

variable {order : Types} {key : String} {field : Field N} {t : ResultType}

theorem active_lookup (hf : lookup fields key = some field) (ha : field.archived = false) :
    (lookup fields key).filter (!·.archived) = some field := by
  simp [hf, ha]

theorem outcome_formula (fuel : ℕ) (hf : lookup fields key = some field)
    (ha : field.archived = false) (htype : field.type = .formula) :
    outcome P catalog fields inputs (fuel + 1) key =
      evaluate (m := Except Fault) P raiseFault (fun key =>
        dependency (calculated fields key) (outcome P catalog fields inputs fuel key))
        field.formula := by
  simp only [outcome, active_lookup hf ha, htype]

theorem outcome_rollup (fuel : ℕ) (hf : lookup fields key = some field)
    (ha : field.archived = false) (htype : field.type = .rollup) :
    outcome P catalog fields inputs (fuel + 1) key =
      (rollup P catalog fields inputs field).mapError .raised := by
  simp only [outcome, active_lookup hf ha, htype]

theorem outcome_plain (fuel : ℕ) (hf : lookup fields key = some field)
    (ha : field.archived = false) (htype : scalarType field.type = some t) :
    outcome P catalog fields inputs (fuel + 1) key =
      (plainInput P inputs field).mapError fun _ => .stopped key := by
  simp only [outcome, active_lookup hf ha]
  cases h : field.type <;> first | rfl | simp [h, scalarType] at htype

/-! ### The verdicts follow the order of the fields -/

/-- Deep enough, the depth does not matter. -/
theorem outcome_stable (ho : Ordered P catalog fields order) :
    ∀ {k l : ℕ} {key : String} {t : ResultType}, typeIn order key = some t → order.length ≤ k →
      order.length ≤ l →
      outcome P catalog fields inputs k key = outcome P catalog fields inputs l key := by
  induction ho with
  | nil =>
    intro k l key t h
    cases h
  | @cons order first t' _ _ entry ih =>
    intro k l key t h hk hl
    rw [List.length_cons] at hk hl
    rw [typeIn_cons] at h
    split at h
    case isFalse => exact ih h (Nat.le_of_succ_le hk) (Nat.le_of_succ_le hl)
    case isTrue he =>
      subst he
      obtain ⟨k, rfl⟩ : ∃ n, k = n + 1 := ⟨k - 1, by omega⟩
      obtain ⟨l, rfl⟩ : ∃ n, l = n + 1 := ⟨l - 1, by omega⟩
      cases entry with
      | plain hf ha hs => rw [outcome_plain k hf ha hs, outcome_plain l hf ha hs]
      | formula hf ha htype _ _ _ ht =>
        rw [outcome_formula k hf ha htype, outcome_formula l hf ha htype]
        apply evaluate_congr ht
        intro other t'' hother
        rw [ih hother (Nat.le_of_succ_le_succ hk) (Nat.le_of_succ_le_succ hl)]
      | rollup hf ha htype _ => rw [outcome_rollup k hf ha htype, outcome_rollup l hf ha htype]

theorem verdict_formula (ho : Ordered P catalog fields order)
    (hf : lookup fields key = some field) (ha : field.archived = false)
    (htype : field.type = .formula) (h : HasType P (typeIn order) field.formula t) :
    verdict P catalog fields inputs key =
      evaluate (m := Except Fault) P raiseFault (fun key =>
        dependency (calculated fields key) (verdict P catalog fields inputs key))
          field.formula := by
  unfold verdict
  rw [outcome_formula _ hf ha htype]
  apply evaluate_congr h
  intro other t' hother
  rw [outcome_stable ho hother ho.length_le (Nat.le_succ_of_le ho.length_le)]

end

end Ashbi.Records

import Ashbi.Records.Fields

/-! The results of a record: they are complete, of the types of their fields, and each is the
verdict of its field but for the error of the formulas that stop at one stored value. -/

namespace Ashbi.Records

open Checked

variable {N : Type} {P : Platform N} {catalog : Catalog N} {fields : List (Field N)}
  {inputs : Inputs N} {order : Types} {R : Results N} {key : String} {field : Field N}
  {t : ResultType} {fuel : ℕ}

/-! ### The fields of the order -/

theorem calculated_of_lookup (hf : lookup fields key = some field) :
    calculated fields key = field.type.computed := by
  simp [calculated, hf]

theorem computed_of_scalar {type : FieldType} (h : scalarType type = some t) :
    type.computed = false := by
  revert h
  cases type <;> simp [scalarType, FieldType.computed]

theorem verdict_rollup (hf : lookup fields key = some field) (ha : field.archived = false)
    (htype : field.type = .rollup) : verdict P catalog fields inputs key =
      (rollup P catalog fields inputs field).mapError .raised :=
  outcome_rollup _ hf ha htype

/-- The agreement of what is read in the field of a key. -/
def ReadAgrees (P : Platform N) (catalog : Catalog N) (fields : List (Field N)) (inputs : Inputs N)
    (order : Types) (fuel : ℕ) (key : String) (t : ResultType) : Prop :=
  Agrees (verdict P catalog fields inputs) (calculated fields) order (Fine P t)
    (dependency (calculated fields key) (verdict P catalog fields inputs key))
    (asDependency (lookup fields key) (computed P catalog fields inputs fuel key))

/-- What a calculated field calculates, from the fields before it. -/
theorem calculate_agrees (inputs : Inputs N) (hstored : Stored P catalog)
    (ho : Ordered P catalog fields order)
    (entry : Entry P catalog fields order key t) (hf : lookup fields key = some field)
    (hcomputed : field.type.computed)
    (ih : ∀ other t, typeIn order other = some t →
      ReadAgrees P catalog fields inputs order fuel other t) :
    Agrees (verdict P catalog fields inputs) (calculated fields) order (Fine P t)
      (verdict P catalog fields inputs key) (calculate P catalog fields inputs
        (fun key => computed P catalog fields inputs fuel key) field) := by
  cases entry with
  | plain hf' _ hs =>
    rw [hf] at hf'
    cases hf'
    rw [computed_of_scalar hs] at hcomputed
    cases hcomputed
  | formula hf' ha htype _ _ _ ht =>
    rw [hf] at hf'
    cases hf'
    rw [verdict_formula ho hf ha htype ht, calculate, htype]
    exact evaluate_agrees ht ih
  | rollup hf' ha htype ht =>
    rw [hf] at hf'
    cases hf'
    have hsound := rollup_sound inputs hstored ht
    rw [verdict_rollup hf ha htype, calculate, htype]
    cases hrollup : rollup P catalog fields inputs field with
    | ok v =>
      rw [hrollup] at hsound
      exact agrees_pure hsound
    | error stop =>
      rw [hrollup] at hsound
      obtain ⟨code, rfl⟩ := hsound
      exact agrees_fail

theorem Entry.active_field (entry : Entry P catalog fields order key t) :
    ∃ field, lookup fields key = some field ∧ field.archived = false := by
  cases entry with
  | plain hf ha => exact ⟨_, hf, ha⟩
  | formula hf ha => exact ⟨_, hf, ha⟩
  | rollup hf ha => exact ⟨_, hf, ha⟩

/-- A calculated field is answered, known or new. -/
theorem computed_answered (hstored : Stored P catalog) (ho : Ordered P catalog fields order)
    (hfresh : typeIn order key = none) (entry : Entry P catalog fields order key t)
    (hf : lookup fields key = some field) (hcomputed : field.type.computed)
    (ih : ∀ other t, typeIn order other = some t →
      ReadAgrees P catalog fields inputs order fuel other t)
    (hR : Settled (verdict P catalog fields inputs) (calculated fields) none R) :
    Answered (verdict P catalog fields inputs) (calculated fields) ((key, t) :: order) R key
      ((computed P catalog fields inputs (fuel + 1) key).run.run R) := by
  cases h : R key with
  | some e => exact answered_known hR h
  | none =>
    obtain ⟨field', hf', ha⟩ := entry.active_field
    rw [hf] at hf'
    cases hf'
    rw [run_computed_new fuel h hf ha]
    exact answered_new ((calculated_of_lookup hf).trans hcomputed)
      (calculate_agrees inputs hstored ho entry hf hcomputed ih) hfresh hR h

theorem typeIn_cons_none {other : String} (h : typeIn ((key, t) :: order) other = none) :
    typeIn order other = none := by
  rw [typeIn_cons] at h
  split at h
  · cases h
  · exact h

/-- Every field of the order is read as its verdict, from any memory that is settled. -/
theorem read_agrees (hstored : Stored P catalog)
    (hshaped : ∀ field ∈ fields, Shaped catalog field) (ho : Ordered P catalog fields order) :
    ∀ {fuel key t}, order.length ≤ fuel → typeIn order key = some t →
      ReadAgrees P catalog fields inputs order fuel key t := by
  induction ho with
  | nil =>
    intro fuel key t _ h
    cases h
  | @cons order first t' ho hfresh entry ih =>
    intro fuel key t hfuel h
    rw [List.length_cons] at hfuel
    rw [typeIn_cons] at h
    split at h
    case isFalse =>
      exact (ih (Nat.le_of_succ_le hfuel) h).wider fun _ => typeIn_cons_none
    case isTrue he =>
      obtain rfl := Option.some.inj h
      subst he
      obtain ⟨fuel, rfl⟩ : ∃ n, fuel = n + 1 := ⟨fuel - 1, by omega⟩
      obtain ⟨field, hf, ha⟩ := entry.active_field
      have hmem := (mem_of_lookup hf).1
      have hread := fun other t => @ih fuel other t (Nat.le_of_succ_le_succ hfuel)
      unfold ReadAgrees
      rw [hf]
      cases hcomputed : field.type.computed with
      | true =>
        have hagrees := calculate_agrees inputs hstored ho entry hf hcomputed hread
        rw [(calculated_of_lookup hf).trans hcomputed]
        exact agrees_dependency hcomputed hagrees.good
          (sane_of_came (hagrees.runs _ Settled.empty).came)
          fun R hR => computed_answered hstored ho hfresh entry hf hcomputed hread hR
      | false =>
        have hC := (calculated_of_lookup hf).trans hcomputed
        rw [hC, dependency_false]
        cases entry with
        | plain hf' ha' hs =>
          rw [hf] at hf'
          cases hf'
          exact plain_agrees (hshaped field hmem) hf ha hs hC (outcome_plain _ hf ha hs)
        | formula hf' _ htype =>
          rw [hf] at hf'
          cases hf'
          rw [htype] at hcomputed
          cases hcomputed
        | rollup hf' _ htype =>
          rw [hf] at hf'
          cases hf'
          rw [htype] at hcomputed
          cases hcomputed

/-- A field of the order stands after the fields that give it its type. -/
theorem Ordered.split (ho : Ordered P catalog fields order) (h : typeIn order key = some t) :
    ∃ before, Ordered P catalog fields before ∧ typeIn before key = none ∧
      Entry P catalog fields before key t ∧ before.length < order.length ∧
      ∀ other, typeIn order other = none → typeIn ((key, t) :: before) other = none := by
  induction ho with
  | nil => cases h
  | @cons order first t' ho hfresh entry ih =>
    rw [typeIn_cons] at h
    split at h
    case isTrue he =>
      obtain rfl := Option.some.inj h
      subst he
      exact ⟨order, ho, hfresh, entry, Nat.lt_succ_self _, fun _ h => h⟩
    case isFalse =>
      obtain ⟨before, hbefore, hnone, he, hlength, hwithin⟩ := ih h
      exact ⟨before, hbefore, hnone, he, Nat.lt_succ_of_lt hlength,
        fun other hother => hwithin other (typeIn_cons_none hother)⟩

/-! ### The list of the results -/

/-- What the calculation of a list of fields rests on. -/
structure Calculable (P : Platform N) (catalog : Catalog N) (fields : List (Field N))
    (types : Types) : Prop where
  accepted : Accepted P catalog fields types
  stored : Stored P catalog

namespace Calculable

variable {types : Types} (h : Calculable P catalog fields types)
include h

theorem shaped : ∀ field ∈ fields, Shaped catalog field :=
  fun field hmem => ((checkFields_ok.mp h.accepted.checked).1 field hmem).1

theorem lookup_of_mem_computed (hkey : key ∈ computedKeys fields) :
    ∃ field, lookup fields key = some field ∧ field.archived = false ∧ field.type.computed := by
  obtain ⟨field, hmem, rfl⟩ := List.mem_map.mp hkey
  obtain ⟨hmem, hfield⟩ := List.mem_filter.mp hmem
  simp only [Bool.and_eq_true, Bool.not_eq_true'] at hfield
  exact ⟨field, lookup_of_mem (keys_nodup h.accepted.checked) hmem, hfield⟩

theorem typed (hkey : key ∈ computedKeys fields) : ∃ t, typeIn types key = some t := by
  apply h.accepted.complete.covers
  obtain ⟨field, hmem, rfl⟩ := List.mem_map.mp hkey
  obtain ⟨hmem, hfield⟩ := List.mem_filter.mp hmem
  simp only [Bool.and_eq_true, Bool.not_eq_true'] at hfield
  exact List.mem_map.mpr ⟨field, by simp [hmem, hfield.1], rfl⟩

/-- A calculated field of the list, from any memory that is settled. -/
theorem answered (hkey : key ∈ computedKeys fields)
    (hR : Settled (verdict P catalog fields inputs) (calculated fields) none R) :
    ∃ before t, Answered (verdict P catalog fields inputs) (calculated fields)
      ((key, t) :: before) R key
      ((computed P catalog fields inputs (fields.length + 1) key).run.run R) := by
  obtain ⟨field, hf, ha, hcomputed⟩ := h.lookup_of_mem_computed hkey
  obtain ⟨t, ht⟩ := h.typed hkey
  obtain ⟨before, hbefore, hnone, entry, -, -⟩ := h.accepted.complete.ordered.split ht
  exact ⟨before, t, computed_answered h.stored hbefore hnone entry hf hcomputed
    (fun _ _ => read_agrees h.stored h.shaped hbefore hbefore.length_le) hR⟩

/-- The verdict on a calculated field is of its type. -/
theorem verdict_fine {v : Value N} (hkey : key ∈ computedKeys fields)
    (ht : typeIn types key = some t) (hv : verdict P catalog fields inputs key = .ok v) :
    Fine P t v := by
  obtain ⟨field, hf, ha, hcomputed⟩ := h.lookup_of_mem_computed hkey
  obtain ⟨before, hbefore, hnone, entry, -, -⟩ := h.accepted.complete.ordered.split ht
  exact (calculate_agrees inputs h.stored hbefore entry hf hcomputed
    (fun _ _ => read_agrees h.stored h.shaped hbefore hbefore.length_le)).good v hv

/-- The calculation of one field of the list does not throw, and records the field. -/
theorem run_calculateField (inputs : Inputs N) (hkey : key ∈ computedKeys fields)
    (hR : Settled (verdict P catalog fields inputs) (calculated fields) none R) :
    ∃ R', (calculateField P catalog fields inputs key).run.run R = (.ok (), R') ∧
      Settled (verdict P catalog fields inputs) (calculated fields) none R' ∧
      (∀ other entry, R other = some entry → R' other = some entry) ∧
      (∃ entry, R' key = some entry) ∧
      ∀ k, verdict P catalog fields inputs key = .error (.stopped k) → R key = none →
        ¬ Hit R k → R' key = some (.error .invalidInput) := by
  obtain ⟨before, t, ha⟩ := h.answered hkey hR
  refine ⟨_, ?_, ha.settled, ha.grows, ha.recorded, ha.first⟩
  unfold calculateField
  cases hv : verdict P catalog fields inputs key with
  | ok v =>
    have hrun : (computed P catalog fields inputs (fields.length + 1) key).run.run R =
        (.ok v, _) := Prod.ext (ha.value v hv).1 rfl
    exact run_tryCatch_ok (run_bind_ok hrun)
  | error fault =>
    obtain ⟨code, hr⟩ := ha.error fault hv
    have hrun : (computed P catalog fields inputs (fields.length + 1) key).run.run R =
        (.error (calculationFail code), _) := Prod.ext hr rfl
    exact run_tryCatch_error (run_bind_error hrun)

/-- The calculation of the fields of the list, one after the other. -/
theorem run_fields (inputs : Inputs N) {keys : List String}
    (hkeys : ∀ key ∈ keys, key ∈ computedKeys fields) :
    ∀ {R}, Settled (verdict P catalog fields inputs) (calculated fields) none R →
      ∃ R', (keys.forM (calculateField P catalog fields inputs)).run.run R = (.ok (), R') ∧
        Settled (verdict P catalog fields inputs) (calculated fields) none R' ∧
        (∀ other entry, R other = some entry → R' other = some entry) ∧
        ∀ key ∈ keys, ∃ entry, R' key = some entry := by
  induction keys with
  | nil => exact fun {R} hR => ⟨R, rfl, hR, fun _ _ h => h, by simp⟩
  | cons key rest ih =>
    intro R hR
    obtain ⟨hkey, hrest⟩ := List.forall_mem_cons.mp hkeys
    obtain ⟨R₁, hrun, hR₁, hgrows, ⟨entry, hentry⟩, -⟩ := h.run_calculateField inputs hkey hR
    obtain ⟨R₂, hrun₂, hR₂, hgrows₂, hall⟩ := ih hrest hR₁
    refine ⟨R₂, ?_, hR₂, fun other e he => hgrows₂ other e (hgrows other e he),
      List.forall_mem_cons.mpr ⟨⟨entry, hgrows₂ _ _ hentry⟩, hall⟩⟩
    exact (run_bind_ok hrun).trans hrun₂

end Calculable

/-- The memory after all fields of the list. -/
def finalResults (P : Platform N) (catalog : Catalog N) (fields : List (Field N))
    (inputs : Inputs N) : Results N :=
  (((computedKeys fields).forM (calculateField P catalog fields inputs)).run.run fun _ => none).2

theorem mapM_ok {α β : Type} {f : α → Except Stop β} {g : α → β} {xs : List α}
    (h : ∀ x ∈ xs, f x = .ok (g x)) : xs.mapM f = .ok (xs.map g) := by
  induction xs with
  | nil => rfl
  | cons x rest ih =>
    obtain ⟨hx, hrest⟩ := List.forall_mem_cons.mp h
    rw [List.mapM_cons, hx, ih hrest]
    rfl

/-- The result of a calculated field, from what is recorded and the type that was found. -/
def resultOf (R : Results N) (types : Types) (key : String) : Calculated N :=
  .of ((R key).getD (.error .unavailableField)) ((typeIn types key).getD .text)

namespace Calculable

variable {types : Types} (h : Calculable P catalog fields types)
include h

theorem final (inputs : Inputs N) :
    Settled (verdict P catalog fields inputs) (calculated fields) none
      (finalResults P catalog fields inputs) ∧
    ∀ key ∈ computedKeys fields, ∃ entry,
      finalResults P catalog fields inputs key = some entry := by
  obtain ⟨R', hrun, hR', -, hall⟩ := h.run_fields inputs (fun _ h => h) Settled.empty
  unfold finalResults
  rw [hrun]
  exact ⟨hR', hall⟩

/-- The calculation gives every calculated field of the list its result. -/
theorem calculate_eq (hvalid : validateRecordDefinitions P catalog fields = .ok types) :
    calculateRecordFields P catalog fields inputs = .ok ((computedKeys fields).map fun key =>
      (key, resultOf (finalResults P catalog fields inputs) types key)) := by
  obtain ⟨R', hrun, -, -, hall⟩ := h.run_fields inputs (fun _ h => h) Settled.empty
  have hrun' : ((computedKeys fields).forM (calculateField P catalog fields inputs)).run
      (fun _ => none) = (.ok (), R') := hrun
  have hfinal : finalResults P catalog fields inputs = R' := congrArg Prod.snd hrun
  unfold calculateRecordFields
  rw [hvalid, hfinal]
  simp only [hrun']
  apply mapM_ok
  intro key hkey
  obtain ⟨entry, hentry⟩ := hall key hkey
  obtain ⟨t, ht⟩ := h.typed hkey
  rw [hentry, ht, resultOf, hentry, ht]
  rfl

end Calculable

end Ashbi.Records

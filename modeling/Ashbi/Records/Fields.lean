import Ashbi.Records.Simulation

/-! Every field that is read comes to its verdict, and the fields of a list are calculated. -/

namespace Ashbi.Records

open Checked

variable {N : Type} {P : Platform N} {catalog : Catalog N} {fields : List (Field N)}
  {inputs : Inputs N} {V : String → Outcome N} {C : String → Bool} {order : Types}
  {R R' : Results N} {key : String} {field : Field N} {t : ResultType}

/-! ### Runs -/

theorem run_liftM (x : Except Stop (Value N)) (R : Results N) :
    (liftM (m := Except Stop) x : Memo N (Value N)).run.run R = (x, R) := by
  cases x <;> rfl

section

variable {α : Type} {action : Memo N α} {handle : Stop → Memo N α}

theorem run_tryCatch_ok {a : α} (h : action.run.run R = (.ok a, R')) :
    (tryCatch action handle).run.run R = (.ok a, R') := by
  have h : StateT.run action R = (.ok a, R') := h
  simp only [tryCatch, tryCatchThe, MonadExceptOf.tryCatch, ExceptT.tryCatch, ExceptT.run_mk]
  rw [StateT.run_bind, h]
  rfl

theorem run_tryCatch_error {stop : Stop} (h : action.run.run R = (.error stop, R')) :
    (tryCatch action handle).run.run R = (handle stop).run.run R' := by
  have h : StateT.run action R = (.error stop, R') := h
  simp only [tryCatch, tryCatchThe, MonadExceptOf.tryCatch, ExceptT.tryCatch, ExceptT.run_mk]
  rw [StateT.run_bind, h]
  rfl

end

theorem run_asDependency_error {action : Memo N (Value N)} {code : Code}
    (h : action.run.run R = (.error (calculationFail code), R')) :
    (asDependency (some field) action).run.run R =
      (.error (if field.type.computed then calculationFail .dependencyError
        else calculationFail code), R') :=
  run_tryCatch_error h

theorem run_asDependency_congr {action action' : Memo N (Value N)}
    (h : action.run.run R = action'.run.run R) (field : Option (Field N)) :
    (asDependency field action).run.run R = (asDependency field action').run.run R := by
  obtain ⟨⟨r, R'⟩, hrun⟩ : ∃ x, action.run.run R = x := ⟨_, rfl⟩
  have hrun' := h.symm.trans hrun
  cases r with
  | ok v => rw [asDependency, asDependency, run_tryCatch_ok hrun, run_tryCatch_ok hrun']
  | error stop => rw [asDependency, asDependency, run_tryCatch_error hrun, run_tryCatch_error hrun']

theorem run_computed_known (fuel : ℕ) {entry : Except Code (Value N)} (h : R key = some entry) :
    (computed P catalog fields inputs (fuel + 1) key).run.run R =
      (entry.mapError fun _ => calculationFail .dependencyError, R) := by
  have hget : (get : Memo N (Results N)).run.run R = (.ok R, R) := rfl
  rw [computed, run_bind_ok hget, h]
  cases entry <;> rfl

theorem run_computed_new (fuel : ℕ) (h : R key = none) (hf : lookup fields key = some field)
    (ha : field.archived = false) :
    (computed P catalog fields inputs (fuel + 1) key).run.run R =
      (recording key (calculate P catalog fields inputs
        (fun key => computed P catalog fields inputs fuel key) field)).run.run R := by
  have hget : (get : Memo N (Results N)).run.run R = (.ok R, R) := rfl
  rw [computed, run_bind_ok hget, h, active_lookup hf ha]

theorem run_recording (key : String) {action : Memo N (Value N)} {r : Except Stop (Value N)}
    (h : action.run.run R = (r, R')) :
    (recording key action).run.run R = match r with
      | .ok value => (.ok value, R'.record key (.ok value))
      | .error (.calculation code) => (.error (.calculation code), R'.record key (.error code))
      | .error stop => (.error stop, R') := by
  have h : action.run R = (r, R') := h
  simp only [recording, ExceptT.run_mk, StateT.run, h]
  cases r with
  | ok value => rfl
  | error stop => cases stop <;> rfl

/-! ### One field -/

/-- A calculated field was read: it is recorded now. -/
structure Answered (V : String → Outcome N) (C : String → Bool) (order : Types) (R : Results N)
    (key : String) (after : Except Stop (Value N) × Results N) : Prop where
  grows : ∀ other entry, R other = some entry → after.2 other = some entry
  within : ∀ other, typeIn order other = none → after.2 other = R other
  settled : Settled V C none after.2
  recorded : ∃ entry, after.2 key = some entry
  value : ∀ v, V key = .ok v →
    after.1 = .ok v ∧ ∀ k, C k = false → Hit after.2 k → Hit R k
  error : ∀ fault, V key = .error fault → ∃ code, after.1 = .error (calculationFail code)
  first : ∀ k, V key = .error (.stopped k) → R key = none → ¬ Hit R k →
    after.2 key = some (.error .invalidInput)

/-- Without a memory the calculation of the field stops for no other reason than the calculation. -/
def Sane (o : Outcome N) : Prop :=
  ∀ stop, o = .error (.raised stop) → ∃ code, stop = .calculation code

theorem sane_of_came {R R' : Results N} {o : Outcome N} {r : Except Stop (Value N)}
    (h : Came V C R o r R') : Sane o := by
  rintro stop rfl
  match stop with
  | .calculation code => exact ⟨code, rfl⟩
  | .failure f => exact h.elim
  | .mistyped => exact h.elim
  | .exhausted => exact h.elim

/-- A calculated field that is recorded already. -/
theorem answered_known {fuel : ℕ} {entry : Except Code (Value N)} (hR : Settled V C none R)
    (h : R key = some entry) : Answered V C order R key
      ((computed P catalog fields inputs (fuel + 1) key).run.run R) := by
  rw [run_computed_known fuel h]
  have hexplained := hR.explained key entry h
  refine ⟨fun _ _ h => h, fun _ _ => rfl, hR, ⟨entry, h⟩, ?_, ?_, ?_⟩
  · intro v hv
    rw [hv] at hexplained
    obtain rfl : entry = .ok v := hexplained
    exact ⟨rfl, fun _ _ h => h⟩
  · intro fault hfault
    cases entry with
    | error code => exact ⟨.dependencyError, rfl⟩
    | ok v =>
      rw [hfault] at hexplained
      match fault with
      | .stopped k => rcases hexplained with h | h <;> cases h
      | .raised (.calculation code) => cases hexplained
      | .raised (.failure f) => exact hexplained.elim
      | .raised .mistyped => exact hexplained.elim
      | .raised .exhausted => exact hexplained.elim
  · intro k _ hnone
    rw [h] at hnone
    cases hnone

/-- A calculated field that is calculated now. -/
theorem answered_new {action : Memo N (Value N)} {Q : Value N → Prop} (hC : C key = true)
    (hagrees : Agrees V C order Q (V key) action) (hfresh : typeIn order key = none)
    (hR : Settled V C none R) (h : R key = none) :
    Answered V C ((key, t) :: order) R key ((recording key action).run.run R) := by
  obtain ⟨hgrows, hwithin, hcame⟩ := hagrees.runs R hR
  obtain ⟨⟨r, R₁⟩, hrun⟩ : ∃ x, action.run.run R = x := ⟨_, rfl⟩
  rw [hrun] at hgrows hwithin hcame
  rw [run_recording key hrun]
  have hkey : R₁ key = none := (hwithin key hfresh).trans h
  have grows {entry : Except Code (Value N)} : ∀ other e, R other = some e →
      R₁.record key entry other = some e := by
    intro other e he
    rw [record_other]
    · exact hgrows other e he
    · rintro rfl
      rw [h] at he
      cases he
  have within {entry : Except Code (Value N)} : ∀ other,
      typeIn ((key, t) :: order) other = none → R₁.record key entry other = R other := by
    intro other hother
    rw [typeIn_cons] at hother
    split at hother
    case isTrue => cases hother
    case isFalse hne => exact (record_other hne).trans (hwithin other hother)
  cases hv : V key with
  | ok v =>
    rw [hv] at hcame
    obtain ⟨rfl, hs, hcalm⟩ := hcame
    have hno (k : String) : V key ≠ .error (.stopped k) := by
      rw [hv]
      exact nofun
    refine ⟨grows, within, hs.record hkey (by rw [hv]; exact rfl) (fun k _ hk => (hno k hk).elim)
      (fun _ => ⟨v, rfl⟩) (fun _ k hk => (hno k hk).elim), ⟨_, record_same⟩, ?_, ?_,
      fun k hk => (hno k hk).elim⟩
    · intro v' hv'
      rw [hv] at hv'
      obtain rfl := Except.ok.inj hv'
      refine ⟨rfl, fun k hk hhit => hcalm k hk ((hit_record_other ?_).mp hhit)⟩
      rintro rfl
      rw [hC] at hk
      cases hk
    · intro fault hfault
      rw [hv] at hfault
      cases hfault
  | error fault =>
    have hno (v : Value N) : V key ≠ .ok v := by
      rw [hv]
      exact nofun
    have hC' : C key ≠ false := by
      rw [hC]
      exact nofun
    rw [hv] at hcame
    match fault with
    | .stopped k =>
      have hk' {k' : String} (h : V key = .error (.stopped k')) : k' = k := by
        rw [hv] at h
        cases h
        rfl
      obtain ⟨hk, hhit, ⟨hold, rfl, hs⟩ | ⟨hnew, rfl, hs⟩⟩ := hcame
      · refine ⟨grows, within, hs.record hkey (by rw [hv]; exact .inr rfl) ?_
          (fun h => (hC' h).elim) (fun _ _ _ => nofun), ⟨_, record_same⟩,
          fun v h => (hno v h).elim, fun _ _ => ⟨_, rfl⟩, ?_⟩
        · intro k' _ h
          obtain rfl := hk' h
          exact ⟨hhit, nofun⟩
        · intro k' h _ hnot
          obtain rfl := hk' h
          exact absurd hold hnot
      · exact ⟨grows, within, hs.report hkey hC hv hhit, ⟨_, record_same⟩,
          fun v h => (hno v h).elim, fun _ _ => ⟨_, rfl⟩, fun _ _ _ _ => record_same⟩
    | .raised (.calculation code) =>
      have hno' (k : String) : V key ≠ .error (.stopped k) := by
        rw [hv]
        exact nofun
      obtain ⟨rfl, hs⟩ := hcame
      exact ⟨grows, within, hs.record hkey (by rw [hv]; exact rfl)
        (fun k _ hk => (hno' k hk).elim) (fun h => (hC' h).elim)
        (fun _ k hk => (hno' k hk).elim), ⟨_, record_same⟩, fun v h => (hno v h).elim,
        fun _ _ => ⟨_, rfl⟩, fun k hk => (hno' k hk).elim⟩
    | .raised (.failure f) => exact hcame.elim
    | .raised .mistyped => exact hcame.elim
    | .raised .exhausted => exact hcame.elim

/-- A formula that reads a calculated field. -/
theorem agrees_dependency {action : Memo N (Value N)} {Q : Value N → Prop}
    (hcomputed : field.type.computed = true) (hgood : ∀ v, V key = .ok v → Q v)
    (hsane : Sane (V key))
    (h : ∀ R, Settled V C none R → Answered V C order R key (action.run.run R)) :
    Agrees V C order Q (dependency true (V key)) (asDependency (some field) action) := by
  cases hv : V key with
  | ok v =>
    refine ⟨?_, fun R hR => ?_⟩
    · intro v' hv'
      obtain rfl := Except.ok.inj hv'
      exact hgood v hv
    · have ha := h R hR
      obtain ⟨hr, hcalm⟩ := ha.value v hv
      have hrun : action.run.run R = (.ok v, (action.run.run R).2) := Prod.ext hr rfl
      rw [asDependency, run_tryCatch_ok hrun]
      exact ⟨ha.grows, ha.within, rfl, ha.settled, hcalm⟩
  | error fault =>
    have hdependency : dependency true (.error fault : Outcome N) =
        .error (.raised (calculationFail .dependencyError)) := by
      match fault with
      | .stopped k => rfl
      | .raised stop =>
        obtain ⟨code, rfl⟩ := hsane stop hv
        rfl
    rw [hdependency]
    refine ⟨nofun, fun R hR => ?_⟩
    have ha := h R hR
    obtain ⟨code, hr⟩ := ha.error fault hv
    have hrun : action.run.run R = (.error (calculationFail code), (action.run.run R).2) :=
      Prod.ext hr rfl
    rw [run_asDependency_error hrun, hcomputed, if_pos rfl]
    exact ⟨ha.grows, ha.within, rfl, ha.settled⟩

theorem dependency_false (o : Outcome N) : dependency false o = o := by
  match o with
  | .ok v => rfl
  | .error (.stopped k) => rfl
  | .error (.raised (.calculation code)) => rfl
  | .error (.raised (.failure f)) => rfl
  | .error (.raised .mistyped) => rfl
  | .error (.raised .exhausted) => rfl

/-- A stored value that is read the first time. -/
theorem ran_plain_new {field' : Field N} (hshaped : Shaped catalog field)
    (htype : scalarType field.type = some t) (hC : C key = false)
    (hv : V key = (plainInput P inputs field).mapError fun _ => .stopped key)
    (hfield : field'.type.computed = false) (hR : Settled V C none R) (h : R key = none) :
    Ran V C ((key, t) :: order) (V key) R ((asDependency (some field')
      (recording key (liftM (m := Except Stop) (plainInput P inputs field)))).run.run R) := by
  have grows {entry : Except Code (Value N)} : ∀ other e, R other = some e →
      R.record key entry other = some e := by
    intro other e he
    rw [record_other]
    · exact he
    · rintro rfl
      rw [h] at he
      cases he
  have within {entry : Except Code (Value N)} : ∀ other,
      typeIn ((key, t) :: order) other = none → R.record key entry other = R other := by
    intro other hother
    rw [typeIn_cons] at hother
    split at hother
    case isTrue => cases hother
    case isFalse hne => exact record_other hne
  have hrun := run_recording key (run_liftM (plainInput P inputs field) R)
  rcases plainInput_cases P inputs hshaped htype with ⟨v, hok, -⟩ | herror
  · rw [hok] at hv hrun
    rw [hok, asDependency, run_tryCatch_ok hrun, hv]
    have hno (k : String) : V key ≠ .error (.stopped k) := by
      rw [hv]
      exact nofun
    refine ⟨grows, within, rfl, hR.record h (by rw [hv]; exact rfl) (fun k _ hk => (hno k hk).elim)
      (fun _ => ⟨v, rfl⟩) (fun _ k hk => (hno k hk).elim), fun k hk hhit => ?_⟩
    by_cases hne : k = key
    · subst hne
      obtain ⟨code, hcode⟩ := hhit
      cases record_same.symm.trans hcode
    · exact (hit_record_other hne).mp hhit
  · rw [herror] at hv hrun
    rw [herror, run_asDependency_error hrun, hfield, hv]
    refine ⟨grows, within, hC, ⟨_, record_same⟩, .inr ⟨?_, rfl, hR.meet h hC hv⟩⟩
    rintro ⟨code, hcode⟩
    rw [h] at hcode
    cases hcode

theorem plain_agrees {fuel : ℕ} (hshaped : Shaped catalog field)
    (hf : lookup fields key = some field) (ha : field.archived = false)
    (htype : scalarType field.type = some t) (hC : C key = false)
    (hv : V key = (plainInput P inputs field).mapError fun _ => .stopped key) :
    Agrees V C ((key, t) :: order) (Fine P t) (V key)
      (asDependency (some field) (computed P catalog fields inputs (fuel + 1) key)) := by
  have hfield : field.type.computed = false := by
    revert htype
    cases field.type <;> simp [scalarType, FieldType.computed]
  refine ⟨?_, fun R hR => ?_⟩
  · intro v hok
    rw [hv] at hok
    rcases plainInput_cases P inputs hshaped htype with ⟨v', hok', hfine⟩ | herror
    · rw [hok'] at hok
      obtain rfl := Except.ok.inj hok
      exact hfine
    · rw [herror] at hok
      cases hok
  · cases h : R key with
    | none =>
      have hcalculate : calculate P catalog fields inputs
          (fun key => computed P catalog fields inputs fuel key) field =
          liftM (m := Except Stop) (plainInput P inputs field) := by
        unfold calculate
        revert htype
        cases field.type <;> simp [scalarType]
      have hnew : (computed P catalog fields inputs (fuel + 1) key).run.run R = _ :=
        run_computed_new fuel h hf ha
      rw [hcalculate] at hnew
      rw [run_asDependency_congr hnew]
      exact ran_plain_new hshaped htype hC hv hfield hR h
    | some entry =>
      have hrun : (computed P catalog fields inputs (fuel + 1) key).run.run R = _ :=
        run_computed_known fuel h
      have hexplained := hR.explained key entry h
      rcases plainInput_cases P inputs hshaped htype with ⟨v, hok, -⟩ | herror
      · rw [hok] at hv
        rw [hv] at hexplained
        obtain rfl : entry = .ok v := hexplained
        rw [asDependency, run_tryCatch_ok hrun, hv]
        exact ⟨fun _ _ h => h, fun _ _ => rfl, rfl, hR, fun _ _ h => h⟩
      · rw [herror] at hv
        rw [hv] at hexplained
        obtain ⟨code, rfl⟩ : ∃ code, entry = .error code := by
          rcases hexplained with rfl | rfl <;> exact ⟨_, rfl⟩
        rw [run_asDependency_error hrun, hfield, hv]
        exact ⟨fun _ _ h => h, fun _ _ => rfl, hC, ⟨code, h⟩, .inl ⟨⟨code, h⟩, rfl, hR⟩⟩

end Ashbi.Records

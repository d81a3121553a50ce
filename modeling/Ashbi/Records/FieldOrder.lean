import Ashbi.Records.Results

/-! The calculation of a record never throws, its results are of the types of the fields, and
whether they depend on the order in which the fields are listed. -/

namespace Ashbi.Records

open Checked

variable {N : Type} {P : Platform N} {catalog : Catalog N} {fields : List (Field N)}
  {inputs : Inputs N} {types : Types}

/-- An error without a value, or a value that is null or of the type of the field. -/
def Calculated.Sound (P : Platform N) (c : Calculated N) : Prop :=
  (c.error.isSome ∧ c.value = .null) ∨
    (c.error = none ∧ (c.value = .null ∨ Fits P c.type c.value))

/-- The types of the calculated fields. -/
def computedTypes : List ResultType := scalars ++ [.list]

theorem Entry.computed_type {order : Types} {key : String} {field : Field N} {t : ResultType}
    (entry : Entry P catalog fields order key t) (hf : lookup fields key = some field)
    (hcomputed : field.type.computed) : t ∈ computedTypes := by
  cases entry with
  | plain hf' _ hs =>
    rw [hf] at hf'
    cases hf'
    rw [computed_of_scalar hs] at hcomputed
    cases hcomputed
  | formula _ _ _ hscalar => exact List.mem_append_left _ hscalar
  | rollup _ _ _ ht =>
    obtain ⟨-, -, -, -, -, -, ⟨-, rfl⟩ | ⟨-, -, -, -, -, -, ⟨-, rfl⟩ | ⟨-, -, rfl⟩⟩⟩ :=
      rollupType_ok ht
    all_goals decide

theorem Calculable.sound (h : Calculable P catalog fields types) {key : String}
    (hkey : key ∈ computedKeys fields) {t : ResultType} (ht : typeIn types key = some t) :
    (resultOf (finalResults P catalog fields inputs) types key).Sound P := by
  obtain ⟨hfinal, hall⟩ := h.final inputs
  obtain ⟨entry, hentry⟩ := hall key hkey
  have hexplained := hfinal.explained key entry hentry
  rw [resultOf, hentry, ht]
  cases entry with
  | error code => exact .inl ⟨rfl, rfl⟩
  | ok v =>
    cases hv : verdict P catalog fields inputs key with
    | ok v' =>
      rw [hv] at hexplained
      obtain rfl := Except.ok.inj hexplained
      exact .inr ⟨rfl, h.verdict_fine hkey ht hv⟩
    | error fault =>
      rw [hv] at hexplained
      cases fault with
      | stopped k => rcases hexplained with h | h <;> cases h
      | raised stop =>
        cases stop with
        | calculation code => cases hexplained
        | _ => exact hexplained.elim

theorem computedKeys_nodup (h : Accepted P catalog fields types) : (computedKeys fields).Nodup :=
  (keys_nodup h.checked).sublist (List.filter_sublist.map _)

/-- Over accepted fields, whatever values and relations a record has, the calculation comes to a
list of results: one for each active formula and rollup, of the type of its field. It meets no
operator with arguments of the wrong type. -/
theorem calculation_sound (hstored : Stored P catalog)
    (hvalid : validateRecordDefinitions P catalog fields = .ok types) (inputs : Inputs N) :
    ∃ results, calculateRecordFields P catalog fields inputs = .ok results ∧
      results.map Prod.fst = computedKeys fields ∧ (computedKeys fields).Nodup ∧
      ∀ key c, (key, c) ∈ results →
        typeIn types key = some c.type ∧ c.type ∈ computedTypes ∧ c.Sound P := by
  have h : Calculable P catalog fields types := ⟨accepted hvalid, hstored⟩
  refine ⟨_, h.calculate_eq hvalid, ?_, computedKeys_nodup h.accepted, ?_⟩
  · rw [List.map_map]
    exact List.map_id _
  · intro key c hc
    obtain ⟨key, hkey, hc⟩ := List.mem_map.mp hc
    cases hc
    obtain ⟨t, ht⟩ := h.typed hkey
    obtain ⟨field, hf, -, hcomputed⟩ := h.lookup_of_mem_computed hkey
    obtain ⟨before, -, -, entry, -, -⟩ := h.accepted.complete.ordered.split ht
    have htype : (resultOf (finalResults P catalog fields inputs) types key).type = t := by
      unfold resultOf
      rw [ht]
      cases (finalResults P catalog fields inputs key).getD (.error .unavailableField) <;> rfl
    rw [htype]
    exact ⟨ht, entry.computed_type hf hcomputed, h.sound hkey ht⟩

/-! ### A sum of amounts -/

/-- A relation to a collection of amounts, and their sum. -/
def linkField : Field ℤ := { emptyField "r" .relation with collectionId := some "c" }

def totalField : Field ℤ :=
  { emptyField "t" .rollup with
    relationKey := some "r", targetKey := some "n", aggregate := some .sum }

def amounts : Catalog ℤ := fun id => if id = "c" then some [amountField] else none

/-- One amount is related. -/
def oneAmount : Inputs ℤ where
  values key := if key = "r" then some (.list [.text "x"]) else none
  resolvedRelations _ := some ⟨true, some [some ⟨"x", fun _ => some (.number 3)⟩]⟩

theorem amounts_stored : Stored wholeNumbers amounts := by
  intro id fields h
  obtain ⟨-, h⟩ := Option.ite_none_right_eq_some.mp h
  obtain rfl := Option.some.inj h
  exact ⟨fun _ => none, [("n", .number)], by rfl⟩

theorem calculation_sound_sample :
    ∃ results, calculateRecordFields wholeNumbers amounts [linkField, totalField] oneAmount =
        .ok results ∧ results.map Prod.fst = ["t"] ∧
      ∀ key c, (key, c) ∈ results → c.Sound wholeNumbers := by
  have hvalid : validateRecordDefinitions wholeNumbers amounts [linkField, totalField] =
      .ok [("t", .number), ("r", .relation)] := by rfl
  obtain ⟨results, hok, hkeys, -, hall⟩ := calculation_sound amounts_stored hvalid oneAmount
  exact ⟨results, hok, hkeys, fun key c hc => (hall key c hc).2.2⟩

/-- A collection with a field of choices that lists none. -/
def choices : Catalog ℤ := fun id => if id = "c" then some [emptyField "s" .select] else none

def distinctField : Field ℤ :=
  { totalField with targetKey := some "s", aggregate := some .unique }

/-- One choice is related. -/
def oneChoice : Inputs ℤ where
  values key := if key = "r" then some (.list [.text "x"]) else none
  resolvedRelations _ := some ⟨true, some [some ⟨"x", fun _ => some (.text "web")⟩]⟩

/-- The fields are accepted over a collection that was never checked, and the calculation asks for
the choices that its field does not have. -/
theorem calculation_throws :
    validateRecordDefinitions wholeNumbers choices [linkField, distinctField] =
        .ok [("t", .list), ("r", .relation)] ∧
      calculateRecordFields wholeNumbers choices [linkField, distinctField] oneChoice =
        .error .mistyped := by
  exact ⟨by rfl, by rfl⟩

/-! ### The order of the fields -/

variable {fields' : List (Field N)}

/-- Evaluated by itself, the active calculated field `f` stops at the invalid value of `key`. -/
structure Stops (P : Platform N) (catalog : Catalog N) (fields : List (Field N))
    (inputs : Inputs N) (f key : String) : Prop where
  listed : f ∈ computedKeys fields
  stopped : verdict P catalog fields inputs f = .error (.stopped key)

/-- Both lists are calculated, and every field has the same value, error and type in both. -/
def SameResults (P : Platform N) (catalog : Catalog N) (fields fields' : List (Field N))
    (inputs : Inputs N) : Prop :=
  ∃ results results', calculateRecordFields P catalog fields inputs = .ok results ∧
    calculateRecordFields P catalog fields' inputs = .ok results' ∧
    ∀ key, results.lookup key = results'.lookup key

/-! ### Permuted fields -/

theorem rollup_congr (h : ∀ key, lookup fields' key = lookup fields key) (field : Field N) :
    rollup P catalog fields' inputs field = rollup P catalog fields inputs field := by
  unfold rollup
  rw [show lookup fields' = lookup fields from funext h]

theorem outcome_congr (h : ∀ key, lookup fields' key = lookup fields key) (fuel : ℕ)
    (key : String) :
    outcome P catalog fields' inputs fuel key = outcome P catalog fields inputs fuel key := by
  induction fuel generalizing key with
  | zero => rfl
  | succ fuel ih =>
    have hcalculated : calculated fields' = calculated fields := by
      funext key
      rw [calculated, calculated, h]
    simp only [outcome, h, hcalculated, ih, rollup_congr h]

theorem verdict_perm (hperm : fields.Perm fields') (h : Accepted P catalog fields types)
    (key : String) :
    verdict P catalog fields' inputs key = verdict P catalog fields inputs key := by
  unfold verdict
  rw [hperm.length_eq]
  exact outcome_congr (lookup_perm hperm (keys_nodup h.checked)) _ _

theorem computedKeys_perm (hperm : fields.Perm fields') :
    (computedKeys fields).Perm (computedKeys fields') :=
  (hperm.filter _).map _

theorem Stops.perm (hperm : fields.Perm fields') (h : Accepted P catalog fields types)
    {f key : String} :
    Stops P catalog fields' inputs f key ↔ Stops P catalog fields inputs f key := by
  constructor
  · rintro ⟨hlisted, hstopped⟩
    exact ⟨(computedKeys_perm hperm).mem_iff.mpr hlisted,
      (verdict_perm hperm h f).symm.trans hstopped⟩
  · rintro ⟨hlisted, hstopped⟩
    exact ⟨(computedKeys_perm hperm).mem_iff.mp hlisted, (verdict_perm hperm h f).trans hstopped⟩

/-- A calculated field that stops somewhere is an active field of the list. -/
theorem stops_of_verdict {f key : String} (hcalculated : calculated fields f)
    (hv : verdict P catalog fields inputs f = .error (.stopped key)) :
    Stops P catalog fields inputs f key := by
  cases hf : lookup fields f with
  | none => simp [calculated, hf] at hcalculated
  | some field =>
    rw [calculated_of_lookup hf] at hcalculated
    cases ha : field.archived with
    | true =>
      have hnone : (lookup fields f).filter (!·.archived) = none := by simp [hf, ha]
      rw [verdict, outcome, hnone] at hv
      cases hv
    | false =>
      obtain ⟨hmem, rfl⟩ := mem_of_lookup hf
      exact ⟨List.mem_map.mpr ⟨field, by simp [hmem, ha, hcalculated], rfl⟩, hv⟩

/-! ### The results of a list -/

theorem lookup_map {β : Type} (g : String → β) (keys : List String) (key : String) :
    (keys.map fun key => (key, g key)).lookup key = if key ∈ keys then some (g key) else none := by
  induction keys with
  | nil => rfl
  | cons first rest ih =>
    rw [List.map_cons, List.lookup_cons]
    by_cases h : key = first
    · subst h
      simp
    · rw [beq_false_of_ne h]
      simp [ih, h]

namespace Calculable

theorem perm (h : Calculable P catalog fields types) (hperm : fields.Perm fields') :
    Calculable P catalog fields' types :=
  ⟨h.accepted.perm hperm, h.stored⟩

/-- The result of a field of the list. -/
theorem lookup_result (h : Calculable P catalog fields types) (inputs : Inputs N) :
    ∃ results, calculateRecordFields P catalog fields inputs = .ok results ∧
      ∀ key, results.lookup key = if key ∈ computedKeys fields then
        some (resultOf (finalResults P catalog fields inputs) types key) else none := by
  obtain ⟨types', hvalid, htypes⟩ := h.accepted.validate
  have h' : Calculable P catalog fields types' := ⟨Records.accepted hvalid, h.stored⟩
  refine ⟨_, h'.calculate_eq hvalid, fun key => ?_⟩
  rw [lookup_map]
  unfold resultOf
  rw [htypes]

/-- A calculated field stops at a field that is not calculated. -/
theorem stops_plain (h : Calculable P catalog fields types) {f k : String}
    (hstops : Stops P catalog fields inputs f k) : calculated fields k = false := by
  obtain ⟨field, hf, ha, hcomputed⟩ := h.lookup_of_mem_computed hstops.listed
  obtain ⟨t, ht⟩ := h.typed hstops.listed
  obtain ⟨before, hbefore, hnone, entry, -, -⟩ := h.accepted.complete.ordered.split ht
  have hagrees := calculate_agrees inputs h.stored hbefore entry hf hcomputed
    (fun _ _ => read_agrees h.stored h.shaped hbefore hbefore.length_le)
  have hcame := (hagrees.runs _ Settled.empty).came
  rw [hstops.stopped] at hcame
  exact hcame.1

/-- Of the fields that stop at one value, exactly one is recorded as the one that met it. -/
theorem first_stops (h : Calculable P catalog fields types) {f k : String}
    (hstops : Stops P catalog fields inputs f k) :
    ∃ g, Stops P catalog fields inputs g k ∧ ∀ g', Stops P catalog fields inputs g' k →
      (finalResults P catalog fields inputs g' = some (.error .invalidInput) ↔ g' = g) := by
  obtain ⟨hfinal, hall⟩ := h.final inputs
  have hC {g : String} (hg : Stops P catalog fields inputs g k) : calculated fields g := by
    obtain ⟨field, hf, -, hcomputed⟩ := h.lookup_of_mem_computed hg.listed
    exact (calculated_of_lookup hf).trans hcomputed
  obtain ⟨entry, hentry⟩ := hall f hstops.listed
  obtain ⟨hhit, -⟩ := hfinal.behind f k entry (hC hstops) hstops.stopped hentry
  obtain ⟨g, hg⟩ := hfinal.first k (h.stops_plain hstops) hhit nofun
  refine ⟨g, stops_of_verdict hg.calculated hg.stopped, fun g' hg' => ⟨fun hr => ?_, ?_⟩⟩
  · exact hfinal.once k g' g ⟨hC hg', hg'.stopped, hr⟩ hg
  · rintro rfl
    exact hg.recorded

/-- Lists with the same results record the same for each calculated field. -/
theorem lookup_same {key : String} (h : Calculable P catalog fields' types)
    (hperm : fields.Perm fields') (hsame : SameResults P catalog fields fields' inputs)
    (hkey : key ∈ computedKeys fields) :
    resultOf (finalResults P catalog fields inputs) types key =
      resultOf (finalResults P catalog fields' inputs) types key := by
  obtain ⟨results, results', hok, hok', heq⟩ := hsame
  obtain ⟨r, hr, hlookup⟩ := (h.perm hperm.symm).lookup_result inputs
  obtain ⟨r', hr', hlookup'⟩ := h.lookup_result inputs
  obtain rfl := Except.ok.inj (hok.symm.trans hr)
  obtain rfl := Except.ok.inj (hok'.symm.trans hr')
  have hresults := heq key
  rw [hlookup, hlookup', if_pos hkey,
    if_pos ((computedKeys_perm hperm).mem_iff.mp hkey)] at hresults
  exact Option.some.inj hresults

/-- A field that alone stops at an invalid value reports it, and any other field its verdict. -/
theorem final_eq (h : Calculable P catalog fields types) {key : String}
    (hkey : key ∈ computedKeys fields)
    (halone : ∀ k g, Stops P catalog fields inputs key k → Stops P catalog fields inputs g k →
      g = key) :
    finalResults P catalog fields inputs key =
      match verdict P catalog fields inputs key with
      | .ok v => some (.ok v)
      | .error (.raised (.calculation code)) => some (.error code)
      | .error _ => some (.error .invalidInput) := by
  obtain ⟨hfinal, hall⟩ := h.final inputs
  obtain ⟨entry, hentry⟩ := hall key hkey
  have hexplained := hfinal.explained key entry hentry
  rw [hentry]
  cases hv : verdict P catalog fields inputs key with
  | ok v =>
    rw [hv] at hexplained
    exact congrArg some hexplained
  | error fault =>
    rw [hv] at hexplained
    match fault with
    | .stopped k =>
      have hstops : Stops P catalog fields inputs key k := ⟨hkey, hv⟩
      obtain ⟨g, hg, hfirst⟩ := h.first_stops hstops
      rw [← hentry]
      exact (hfirst key hstops).mpr (halone k g hstops hg).symm
    | .raised (.calculation code) => exact congrArg some hexplained
    | .raised (.failure f) => exact hexplained.elim
    | .raised .mistyped => exact hexplained.elim
    | .raised .exhausted => exact hexplained.elim

/-- Of the fields that stop at one value, the one listed first is recorded as the one that met
it. -/
theorem final_head (h : Calculable P catalog fields types) {f k : String} {rest : List String}
    (hstops : Stops P catalog fields inputs f k) (hhead : computedKeys fields = f :: rest) :
    finalResults P catalog fields inputs f = some (.error .invalidInput) := by
  obtain ⟨R₁, hrun, hR₁, -, -, hfirst⟩ := h.run_calculateField inputs hstops.listed
    Settled.empty
  have hkeys : ∀ key ∈ rest, key ∈ computedKeys fields := by
    rw [hhead]
    exact fun key hkey => List.mem_cons_of_mem _ hkey
  obtain ⟨R₂, hrun₂, -, hgrows, -⟩ := h.run_fields inputs hkeys hR₁
  have hfinal : finalResults P catalog fields inputs = R₂ := by
    unfold finalResults
    rw [hhead]
    have hboth : ((calculateField P catalog fields inputs f) >>= fun _ =>
        rest.forM (calculateField P catalog fields inputs)).run.run (fun _ => none) =
        (.ok (), R₂) := (run_bind_ok hrun).trans hrun₂
    exact congrArg Prod.snd hboth
  rw [hfinal]
  exact hgrows _ _ (hfirst k hstops.stopped rfl nofun)

end Calculable

/-- A calculated field of the list can be listed first. -/
theorem head_perm (h : Accepted P catalog fields types) {f : String}
    (hf : f ∈ computedKeys fields) :
    ∃ fields' rest, fields.Perm fields' ∧ computedKeys fields' = f :: rest := by
  obtain ⟨field, hmem, rfl⟩ := List.mem_map.mp hf
  obtain ⟨hmem, hfield⟩ := List.mem_filter.mp hmem
  obtain ⟨before, after, rfl⟩ := List.append_of_mem hmem
  exact ⟨field :: (before ++ after), computedKeys (before ++ after), List.perm_middle,
    by simp [computedKeys, hfield]⟩

/-- For accepted fields and any values and relations: in whatever order the fields are listed, each
has the same result, if and only if no two calculated fields stop at the same invalid value. -/
theorem order_independent_iff (hstored : Stored P catalog)
    (hvalid : validateRecordDefinitions P catalog fields = .ok types) (inputs : Inputs N) :
    (∀ fields', fields.Perm fields' → SameResults P catalog fields fields' inputs) ↔
      ∀ key f g, Stops P catalog fields inputs f key → Stops P catalog fields inputs g key →
        f = g := by
  have h : Calculable P catalog fields types := ⟨accepted hvalid, hstored⟩
  constructor
  · intro hsame key f g hf hg
    by_contra hne
    -- The result of `f` where it is listed first, and where `g` is.
    obtain ⟨fields₁, rest₁, hperm₁, hhead₁⟩ := head_perm h.accepted hf.listed
    obtain ⟨fields₂, rest₂, hperm₂, hhead₂⟩ := head_perm h.accepted hg.listed
    have hfirst := (h.perm hperm₁).final_head ((Stops.perm hperm₁ h.accepted).mpr hf) hhead₁
    have hg₂ := (Stops.perm hperm₂ h.accepted).mpr hg
    have hf₂ := (Stops.perm hperm₂ h.accepted).mpr hf
    have hsecond := (h.perm hperm₂).final_head hg₂ hhead₂
    have hsame₁₂ : ∀ key, key ∈ computedKeys fields →
        resultOf (finalResults P catalog fields₁ inputs) types key =
          resultOf (finalResults P catalog fields₂ inputs) types key := by
      intro key hkey
      have hlookup {fields' : List (Field N)} (hperm : fields.Perm fields') :=
        (h.perm hperm).lookup_same hperm (hsame fields' hperm) hkey
      exact (hlookup hperm₁).symm.trans (hlookup hperm₂)
    have hboth : finalResults P catalog fields₂ inputs f = some (.error .invalidInput) := by
      obtain ⟨entry, hentry⟩ := ((h.perm hperm₂).final inputs).2 f hf₂.listed
      have hresult := hsame₁₂ f hf.listed
      rw [resultOf, resultOf, hfirst, hentry] at hresult
      rw [hentry]
      cases entry with
      | ok v => cases congrArg Calculated.error hresult
      | error code =>
        cases congrArg Calculated.error hresult
        rfl
    obtain ⟨g₀, -, hall⟩ := (h.perm hperm₂).first_stops hf₂
    exact hne (((hall f hf₂).mp hboth).trans ((hall g hg₂).mp hsecond).symm)
  · intro halone fields' hperm
    obtain ⟨results, hok, hresults⟩ := h.lookup_result inputs
    obtain ⟨results', hok', hresults'⟩ := (h.perm hperm).lookup_result inputs
    refine ⟨results, results', hok, hok', fun key => ?_⟩
    rw [hresults, hresults']
    by_cases hkey : key ∈ computedKeys fields
    · have hkey' := (computedKeys_perm hperm).mem_iff.mp hkey
      have heq := h.final_eq hkey fun k g hk hg => halone k g key hg hk
      have heq' := (h.perm hperm).final_eq hkey' fun k g hk hg =>
        halone k g key ((Stops.perm hperm h.accepted).mp hg) ((Stops.perm hperm h.accepted).mp hk)
      rw [if_pos hkey, if_pos hkey', resultOf, resultOf, heq, heq', verdict_perm hperm h.accepted]
    · have hkey' := fun hmem => hkey ((computedKeys_perm hperm).mem_iff.mpr hmem)
      rw [if_neg hkey, if_neg hkey']

/-- The amount is a text. -/
def textAmount : Inputs ℤ where
  values _ := some (.text "oops")
  resolvedRelations _ := none

theorem sums_valid : validateRecordDefinitions wholeNumbers amounts
    [amountField, sumField "f" 1, sumField "g" 2] =
      .ok [("g", .number), ("f", .number), ("n", .number)] := by rfl

theorem order_independent_iff_sample :
    (∀ fields', [amountField, sumField "f" 1, sumField "g" 2].Perm fields' →
      SameResults wholeNumbers amounts [amountField, sumField "f" 1, sumField "g" 2] fields'
        textAmount) ↔
      ∀ key f g, Stops wholeNumbers amounts [amountField, sumField "f" 1, sumField "g" 2]
        textAmount f key → Stops wholeNumbers amounts [amountField, sumField "f" 1, sumField "g" 2]
          textAmount g key → f = g :=
  order_independent_iff amounts_stored sums_valid textAmount

/-- Two formulas that read the same invalid amount: the first listed reports the amount, the
other a failed dependency. -/
theorem order_shows : ∃ types,
    validateRecordDefinitions wholeNumbers amounts
      [amountField, sumField "f" 1, sumField "g" 2] = .ok types ∧
    [amountField, sumField "f" 1, sumField "g" 2].Perm
      [amountField, sumField "g" 2, sumField "f" 1] ∧
    ¬ SameResults wholeNumbers amounts [amountField, sumField "f" 1, sumField "g" 2]
      [amountField, sumField "g" 2, sumField "f" 1] textAmount := by
  refine ⟨_, sums_valid, (List.Perm.swap _ _ _).cons _, ?_⟩
  rintro ⟨results, results', hok, hok', hsame⟩
  have herror : results.lookup "f" = some ⟨.null, some .invalidInput, .number⟩ := by
    obtain rfl := Except.ok.inj hok
    rfl
  have herror' : results'.lookup "f" = some ⟨.null, some .dependencyError, .number⟩ := by
    obtain rfl := Except.ok.inj hok'
    rfl
  have heq := hsame "f"
  rw [herror, herror'] at heq
  cases congrArg (Option.map Calculated.error) heq

end Ashbi.Records

import Ashbi.Records.Typed

/-! Accepted field definitions: whether they are accepted, and the types they get, does not
depend on the order in which they are listed. -/

namespace Ashbi.Records

open Checked

variable {N : Type} {P : Platform N} {catalog : Catalog N} {fields : List (Field N)}

/-! ### The checks of the fields -/

/-- What a field shows by itself. -/
structure Shaped (catalog : Catalog N) (field : Field N) : Prop where
  key : safeKey field.key
  named : Js.trim field.name ≠ ""
  short : Js.length field.name ≤ 80
  checked : checkField catalog field = .ok ()

theorem checkFields_ok {keys names : List String} :
    checkFields P catalog keys names fields = .ok () ↔
      (∀ field ∈ fields, Shaped catalog field ∧ keyOf P field ∉ keys ∧ nameOf P field ∉ names) ∧
        (fields.map (keyOf P)).Nodup ∧ (fields.map (nameOf P)).Nodup := by
  induction fields generalizing keys names with
  | nil => simp [checkFields]
  | cons field rest ih =>
    rw [List.forall_mem_cons]
    simp only [checkFields, bind_ok, refuse_ok, ih, List.map_cons, List.nodup_cons, List.mem_map,
      List.mem_cons, Bool.or_eq_false_iff, Bool.not_eq_false', decide_eq_false_iff_not, not_lt,
      List.contains_eq_mem]
    constructor
    · rintro ⟨-, ⟨⟨hkey, hname⟩, hshort⟩, -, ⟨hk, hn⟩, u, hc, hrest, hkeys, hnames⟩
      refine ⟨⟨⟨⟨hkey, hname, hshort, hc⟩, hk, hn⟩, fun f hf => ?_⟩, ⟨?_, hkeys⟩, ?_, hnames⟩
      · obtain ⟨hs, hk, hn⟩ := hrest f hf
        exact ⟨hs, fun h => hk (.inr h), fun h => hn (.inr h)⟩
      · rintro ⟨f, hf, he⟩
        exact (hrest f hf).2.1 (.inl he)
      · rintro ⟨f, hf, he⟩
        exact (hrest f hf).2.2 (.inl he)
    · rintro ⟨⟨⟨⟨hkey, hname, hshort, hc⟩, hk, hn⟩, hrest⟩, ⟨hk', hkeys⟩, hn', hnames⟩
      refine ⟨(), ⟨⟨hkey, hname⟩, hshort⟩, (), ⟨hk, hn⟩, (), hc, fun f hf => ?_, hkeys, hnames⟩
      obtain ⟨hs, hkf, hnf⟩ := hrest f hf
      refine ⟨hs, ?_, ?_⟩
      · rintro (he | h)
        · exact hk' ⟨f, hf, he⟩
        · exact hkf h
      · rintro (he | h)
        · exact hn' ⟨f, hf, he⟩
        · exact hnf h

/-- Field definitions of which the checks of the single fields hold. -/
theorem checkFields_perm {fields' : List (Field N)} (h : fields.Perm fields')
    (hc : checkFields P catalog [] [] fields = .ok ()) :
    checkFields P catalog [] [] fields' = .ok () := by
  obtain ⟨hall, hkeys, hnames⟩ := checkFields_ok.mp hc
  exact checkFields_ok.mpr ⟨fun f hf => hall f (h.mem_iff.mpr hf), (h.map _).nodup_iff.mp hkeys,
    (h.map _).nodup_iff.mp hnames⟩

theorem keys_nodup (hc : checkFields P catalog [] [] fields = .ok ()) :
    (fields.map (·.key)).Nodup := by
  obtain ⟨-, hkeys, -⟩ := checkFields_ok.mp hc
  have : fields.map (keyOf P) = (fields.map (·.key)).map P.toLowerCase := by
    simp [keyOf, Function.comp_def]
  rw [this] at hkeys
  exact hkeys.of_map _

theorem mem_of_lookup {key : String} {field : Field N} (h : lookup fields key = some field) :
    field ∈ fields ∧ field.key = key := by
  refine ⟨List.mem_of_find?_eq_some h, ?_⟩
  simpa using List.find?_some h

theorem lookup_of_mem (hnodup : (fields.map (·.key)).Nodup) {field : Field N}
    (h : field ∈ fields) : lookup fields field.key = some field := by
  cases hf : lookup fields field.key with
  | none =>
    have := List.find?_eq_none.mp hf field h
    simp at this
  | some other =>
    obtain ⟨hmem, hkey⟩ := mem_of_lookup hf
    rw [List.inj_on_of_nodup_map hnodup hmem h hkey]

theorem lookup_perm {fields' : List (Field N)} (h : fields.Perm fields')
    (hnodup : (fields.map (·.key)).Nodup) (key : String) :
    lookup fields' key = lookup fields key := by
  have hnodup' := (h.map (·.key)).nodup_iff.mp hnodup
  cases hf : lookup fields key with
  | some field =>
    obtain ⟨hmem, rfl⟩ := mem_of_lookup hf
    exact lookup_of_mem hnodup' (h.mem_iff.mp hmem)
  | none =>
    refine List.find?_eq_none.mpr fun field hmem => ?_
    exact List.find?_eq_none.mp hf field (h.mem_iff.mpr hmem)

/-! ### The types of the active fields -/

theorem Entry.active {types : Types} {key : String} {t : ResultType}
    (h : Entry P catalog fields types key t) : key ∈ activeKeys fields := by
  have hmem {field : Field N} (hf : lookup fields key = some field)
      (ha : field.archived = false) : key ∈ activeKeys fields := by
    obtain ⟨hmem, rfl⟩ := mem_of_lookup hf
    exact List.mem_map.mpr ⟨field, by simp [hmem, ha], rfl⟩
  cases h with
  | plain hf ha => exact hmem hf ha
  | formula hf ha => exact hmem hf ha
  | rollup hf ha => exact hmem hf ha

/-- The order of all active fields. -/
structure Complete (P : Platform N) (catalog : Catalog N) (fields : List (Field N))
    (types : Types) : Prop where
  ordered : Ordered P catalog fields types
  covers : ∀ key ∈ activeKeys fields, ∃ t, typeIn types key = some t

theorem foldFields_sound {keys : List String} {types types' : Types} {fuel : ℕ}
    (ho : Ordered P catalog fields types)
    (h : keys.foldlM (fun types key => do
      let (_, types) ← fieldType P catalog fields fuel [] key types
      pure types) types = .ok types') :
    Ordered P catalog fields types' ∧ Below types types' ∧
      ∀ key ∈ keys, ∃ t, typeIn types' key = some t := by
  induction keys generalizing types with
  | nil =>
    obtain rfl := pure_ok.mp h
    exact ⟨ho, .refl _, by simp⟩
  | cons key rest ih =>
    rw [List.foldlM_cons] at h
    simp only [bind_ok, pure_ok, Prod.exists] at h
    obtain ⟨types₂, ⟨t, types₁, hkey, rfl⟩, h⟩ := h
    obtain ⟨hr, hfound⟩ := fieldType_sound fuel [] ho hkey
    obtain ⟨ho', hbelow, hrest⟩ := ih hr.ordered h
    refine ⟨ho', hr.below.trans hbelow, fun other hother => ?_⟩
    rcases List.mem_cons.mp hother with rfl | hother
    · exact ⟨t, hbelow _ _ hfound⟩
    · exact hrest other hother

theorem resultTypes_sound {types : Types} (h : resultTypes P catalog fields = .ok types) :
    Complete P catalog fields types := by
  obtain ⟨ho, -, hcovers⟩ := foldFields_sound .nil h
  exact ⟨ho, hcovers⟩

/-! ### Where there is an order, the types are found -/

section

variable {T : String → Option ResultType} {read : Read} {top : Types}

/-- Of the fields that `T` types, `read` finds the types. -/
def Finds (T : String → Option ResultType) (top : Types) (read : Read) : Prop :=
  ∀ {key t}, T key = some t → ∀ {types}, Below types top →
    ∃ types', read key types = .ok (t, types') ∧ Below types' top

theorem expressionTypes_complete {args : List (Expression N)}
    (ih : ∀ e ∈ args, ∀ {t} depth nodes {types}, HasType P T e t → nodes + e.size ≤ 100 →
      depth + e.height ≤ 12 → Below types top → ∃ types',
        expressionType P read depth e nodes types = .ok (t, nodes + e.size, types') ∧
          Below types' top) :
    ∀ {ts} depth nodes {types}, List.Forall₂ (HasType P T) args ts →
      nodes + Expression.sizes args ≤ 100 → depth + Expression.heights args ≤ 13 →
      Below types top → ∃ types', expressionTypes P read depth args nodes types =
        .ok (ts, nodes + Expression.sizes args, types') ∧ Below types' top := by
  induction args with
  | nil =>
    intro ts depth nodes types hts _ _ hb
    cases hts
    exact ⟨types, rfl, hb⟩
  | cons e rest ihrest =>
    intro ts depth nodes types hts hsize hheight hb
    cases hts with
    | @cons _ t _ ts ht hts =>
      simp only [Expression.sizes] at hsize
      simp only [Expression.heights] at hheight
      obtain ⟨types₁, he, hb₁⟩ := ih e List.mem_cons_self depth nodes ht (by omega)
        (by omega) hb
      obtain ⟨types₂, hrest, hb₂⟩ := ihrest (fun e he => ih e (List.mem_cons_of_mem _ he))
        depth (nodes + e.size) hts (by omega) (by omega) hb₁
      refine ⟨types₂, ?_, hb₂⟩
      simp only [expressionTypes, bind_ok, pure_ok, Prod.exists, Prod.mk.injEq]
      exact ⟨t, _, types₁, he, ts, _, types₂, hrest, rfl,
        by rw [Expression.sizes, Nat.add_assoc], rfl⟩

theorem expressionType_complete (hread : Finds T top read) (e : Expression N) :
    ∀ {t} depth nodes {types}, HasType P T e t → nodes + e.size ≤ 100 → depth + e.height ≤ 12 →
      Below types top → ∃ types',
        expressionType P read depth e nodes types = .ok (t, nodes + e.size, types') ∧
          Below types' top := by
  have small {nodes depth s height : ℕ} (hs : nodes + (1 + s) ≤ 100)
      (hh : depth + height ≤ 12) : (decide (99 < nodes) || decide (12 < depth)) = false := by
    rw [Bool.or_eq_false_iff, decide_eq_false_iff_not, decide_eq_false_iff_not]
    omega
  induction e with
  | literal v =>
    intro t depth nodes types ht hsize hheight hb
    cases ht with
    | literal ht =>
      refine ⟨types, ?_, hb⟩
      simp only [expressionType, bind_ok, refuse_ok, pure_ok, Prod.mk.injEq]
      exact ⟨(), small (s := 0) hsize hheight, t, ht, rfl, rfl, trivial⟩
  | field key =>
    intro t depth nodes types ht hsize hheight hb
    cases ht with
    | field hsafe ht =>
      obtain ⟨types', hkey, hb'⟩ := hread ht hb
      refine ⟨types', ?_, hb'⟩
      simp only [expressionType, bind_ok, refuse_ok, pure_ok, Prod.exists, Prod.mk.injEq]
      exact ⟨(), small (s := 0) hsize hheight, (), by simp [hsafe], t, types', hkey, rfl, rfl,
        rfl⟩
  | operation op args ih =>
    intro t depth nodes types ht hsize hheight hb
    cases ht with
    | @operation _ _ ts _ hleast hmost hargs ht =>
      simp only [Expression.size] at hsize
      simp only [Expression.height] at hheight
      obtain ⟨types', hts, hb'⟩ := expressionTypes_complete (fun e he => ih e he)
        (depth + 1) (nodes + 1) hargs (by omega) (by omega) hb
      refine ⟨types', ?_, hb'⟩
      simp only [expressionType, bind_ok, refuse_ok, pure_ok, Prod.exists, Prod.mk.injEq]
      refine ⟨(), small hsize hheight, (), ?_, ts, _, types', hts, t, ht, rfl, ?_, rfl⟩
      · rw [Bool.or_eq_false_iff, decide_eq_false_iff_not, decide_eq_false_iff_not]
        omega
      · rw [Expression.size, Nat.add_assoc]
  | malformed message =>
    intro t depth nodes types ht
    cases ht

end

section

variable {top order types : Types} {fuel : ℕ} {visiting : List String} {key : String}
  {t : ResultType}

theorem fieldResult_complete (hb : Below types top) (entry : Entry P catalog fields order key t)
    {read : Read} (hread : Finds (typeIn order) top read) :
    ∃ field types', lookup fields key = some field ∧ field.archived = false ∧
      fieldResult P catalog fields read field types = .ok (t, types') ∧ Below types' top := by
  cases entry with
  | @plain field _ hf ha hs => exact ⟨field, types, hf, ha, by simp [fieldResult, hs], hb⟩
  | @formula field _ hf ha htype hscalar hsize hheight ht =>
    obtain ⟨types', he, hb'⟩ := expressionType_complete hread field.formula 0 0 ht
      (by omega) (by omega) hb
    refine ⟨field, types', hf, ha, ?_, hb'⟩
    simp only [fieldResult, htype, scalarType, if_true, bind_ok, refuse_ok, pure_ok,
      Prod.exists, Prod.mk.injEq]
    exact ⟨t, _, types', he, (), by simpa using hscalar, rfl, rfl⟩
  | @rollup field _ hf ha htype ht =>
    refine ⟨field, types, hf, ha, ?_, hb⟩
    simp [fieldResult, htype, scalarType, ht]

theorem fieldType_entry (hb : Below types top) (htop : typeIn top key = some t)
    (hvisiting : key ∉ visiting) (entry : Entry P catalog fields order key t)
    (hread : Finds (typeIn order) top (fieldType P catalog fields fuel (key :: visiting))) :
    ∃ types', fieldType P catalog fields (fuel + 1) visiting key types = .ok (t, types') ∧
      Below types' top := by
  obtain ⟨field, types', hf, ha, hresult, hb'⟩ := fieldResult_complete hb entry hread
  have hactive : (lookup fields key).filter (!·.archived) = some field := by simp [hf, ha]
  unfold fieldType
  simp only [hactive, bind_ok, found_ok, Option.some.injEq, exists_eq_left']
  cases hknown : typeIn types key with
  | some t' =>
    have heq := hb _ _ hknown
    rw [htop] at heq
    obtain rfl := Option.some.inj heq
    exact ⟨types, rfl, hb⟩
  | none =>
    refine ⟨(key, t) :: types', ?_, fun k tk hk => ?_⟩
    · simp only [bind_ok, refuse_ok, Prod.exists, pure_ok, Prod.mk.injEq]
      exact ⟨(), by simpa using hvisiting, t, types', hresult, rfl, rfl⟩
    · rw [typeIn_cons] at hk
      split at hk
      case isTrue he =>
        subst he
        rw [← hk]
        exact htop
      case isFalse => exact hb' k tk hk

/-- A field of the order is typed from any part of it, as deep as the order is long. -/
theorem fieldType_complete (ho : Ordered P catalog fields order) (htop : Below order top) :
    ∀ {fuel visiting}, order.length ≤ fuel → (∀ key ∈ visiting, typeIn order key = none) →
      Finds (typeIn order) top (fieldType P catalog fields fuel visiting) := by
  induction ho with
  | nil =>
    intro fuel visiting _ _ key t hkey
    cases hkey
  | @cons order key t ho hfresh entry ih =>
    intro fuel visiting hfuel hvisiting other t' hother types hb
    have htop' : Below order top := ((Below.refl _).cons hfresh).trans htop
    have hrest : ∀ k ∈ visiting, k ≠ key ∧ typeIn order k = none := by
      intro k hk
      have := hvisiting k hk
      rw [typeIn_cons] at this
      split at this
      · cases this
      · exact ⟨‹_›, this⟩
    rw [typeIn_cons] at hother
    split at hother
    case isFalse =>
      exact ih htop' (Nat.le_of_succ_le hfuel) (fun k hk => (hrest k hk).2) hother hb
    case isTrue he =>
      obtain rfl := Option.some.inj hother
      subst he
      rw [List.length_cons] at hfuel
      obtain ⟨fuel, rfl⟩ : ∃ n, fuel = n + 1 := ⟨fuel - 1, by omega⟩
      apply fieldType_entry hb (htop _ _ (by simp [typeIn_cons]))
        (fun hmem => (hrest _ hmem).1 rfl) entry
      apply ih htop' (Nat.le_of_succ_le_succ hfuel)
      intro k hk
      rcases List.mem_cons.mp hk with rfl | hk
      · exact hfresh
      · exact (hrest k hk).2

end

theorem typeIn_eq_none {types : Types} {key : String} :
    typeIn types key = none ↔ key ∉ types.map Prod.fst := by
  induction types with
  | nil => simp
  | cons entry rest ih =>
    rw [typeIn_cons, List.map_cons, List.mem_cons, not_or, ← ih]
    split
    case isTrue h => simp [h]
    case isFalse h => simp [h]

theorem Ordered.nodup {types : Types} (h : Ordered P catalog fields types) :
    (types.map Prod.fst).Nodup := by
  induction h with
  | nil => exact List.nodup_nil
  | cons _ fresh _ ih => exact List.nodup_cons.mpr ⟨typeIn_eq_none.mp fresh, ih⟩

theorem Ordered.active {types : Types} (h : Ordered P catalog fields types) :
    types.map Prod.fst ⊆ activeKeys fields := by
  induction h with
  | nil => exact List.nil_subset _
  | cons _ _ entry ih => exact List.cons_subset.mpr ⟨entry.active, ih⟩

theorem Ordered.length_le {types : Types} (h : Ordered P catalog fields types) :
    types.length ≤ fields.length := by
  calc types.length = (types.map Prod.fst).length := (List.length_map _).symm
    _ ≤ (activeKeys fields).length := (List.subperm_of_subset h.nodup h.active).length_le
    _ = (fields.filter (!·.archived)).length := List.length_map _
    _ ≤ fields.length := List.length_filter_le _ _

/-! ### Permuted definitions -/

variable {fields' : List (Field N)}

theorem rollupType_congr (h : ∀ key, lookup fields' key = lookup fields key) (field : Field N) :
    rollupType catalog fields' field = rollupType catalog fields field := by
  unfold rollupType
  rw [show lookup fields' = lookup fields from funext h]

theorem Entry.congr {types : Types} {key : String} {t : ResultType}
    (h : ∀ key, lookup fields' key = lookup fields key) (he : Entry P catalog fields types key t) :
    Entry P catalog fields' types key t := by
  cases he with
  | plain hf ha hs => exact .plain ((h key).trans hf) ha hs
  | formula hf ha htype hscalar hsize hheight ht =>
    exact .formula ((h key).trans hf) ha htype hscalar hsize hheight ht
  | rollup hf ha htype ht =>
    exact .rollup ((h key).trans hf) ha htype ((rollupType_congr h _).trans ht)

theorem Ordered.congr {types : Types} (h : ∀ key, lookup fields' key = lookup fields key)
    (ho : Ordered P catalog fields types) : Ordered P catalog fields' types := by
  induction ho with
  | nil => exact .nil
  | cons _ fresh entry ih => exact .cons ih fresh (entry.congr h)

theorem foldFields_complete {top : Types} {fuel : ℕ}
    (hread : Finds (typeIn top) top (fieldType P catalog fields fuel [])) {keys : List String}
    (hkeys : ∀ key ∈ keys, ∃ t, typeIn top key = some t) : ∀ {types}, Below types top →
      ∃ types', keys.foldlM (fun types key => do
        let (_, types) ← fieldType P catalog fields fuel [] key types
        pure types) types = .ok types' ∧ Below types' top := by
  induction keys with
  | nil => exact fun {types} hb => ⟨types, rfl, hb⟩
  | cons key rest ih =>
    intro types hb
    obtain ⟨t, ht⟩ := hkeys key List.mem_cons_self
    obtain ⟨types₁, hkey, hb₁⟩ := hread ht hb
    obtain ⟨types₂, hrest, hb₂⟩ := ih (fun k hk => hkeys k (List.mem_cons_of_mem _ hk)) hb₁
    refine ⟨types₂, ?_, hb₂⟩
    rw [List.foldlM_cons]
    simp only [bind_ok, pure_ok, Prod.exists]
    exact ⟨types₁, ⟨t, types₁, hkey, rfl⟩, hrest⟩

/-- Two orders of all active fields, one of which agrees with the other, give the same types. -/
theorem Complete.typeIn_eq {types top : Types} (h : Complete P catalog fields types)
    (htop : Ordered P catalog fields top) (hb : Below types top) (key : String) :
    typeIn types key = typeIn top key := by
  cases hkey : typeIn top key with
  | none =>
    cases htype : typeIn types key with
    | none => rfl
    | some t => exact (hb key t htype).symm.trans hkey
  | some t =>
    have hmem : key ∈ top.map Prod.fst := by
      by_contra hnot
      rw [typeIn_eq_none.mpr hnot] at hkey
      cases hkey
    obtain ⟨t', ht'⟩ := h.covers key (htop.active hmem)
    rw [ht', ← hb key t' ht', hkey]

/-- Where the active fields have an order, their types are found, and they are its types. -/
theorem resultTypes_complete {top : Types} (h : Complete P catalog fields top) :
    ∃ types, resultTypes P catalog fields = .ok types ∧
      ∀ key, typeIn types key = typeIn top key := by
  have hread : Finds (typeIn top) top (fieldType P catalog fields (fields.length + 1) []) :=
    fieldType_complete h.ordered (Below.refl top) (Nat.le_succ_of_le h.ordered.length_le) (by simp)
  have hnil : Below [] top := by
    intro key t h
    cases h
  obtain ⟨types, htypes, hb⟩ := foldFields_complete hread h.covers hnil
  exact ⟨types, htypes, (resultTypes_sound htypes).typeIn_eq h.ordered hb⟩

theorem activeKeys_perm (h : fields.Perm fields') : (activeKeys fields).Perm (activeKeys fields') :=
  (h.filter _).map _

/-- What an accepted list of field definitions has shown. -/
structure Accepted (P : Platform N) (catalog : Catalog N) (fields : List (Field N))
    (types : Types) : Prop where
  length_le : fields.length ≤ 40
  checked : checkFields P catalog [] [] fields = .ok ()
  complete : Complete P catalog fields types

theorem accepted {types : Types} (h : validateRecordDefinitions P catalog fields = .ok types) :
    Accepted P catalog fields types := by
  simp only [validateRecordDefinitions, bind_ok, refuse_ok, decide_eq_false_iff_not, not_lt] at h
  obtain ⟨-, hlength, u, hchecked, htypes⟩ := h
  exact ⟨hlength, hchecked, resultTypes_sound htypes⟩

theorem Accepted.validate {types : Types} (h : Accepted P catalog fields types) :
    ∃ types', validateRecordDefinitions P catalog fields = .ok types' ∧
      ∀ key, typeIn types' key = typeIn types key := by
  obtain ⟨types', htypes, heq⟩ := resultTypes_complete h.complete
  refine ⟨types', ?_, heq⟩
  simp only [validateRecordDefinitions, bind_ok, refuse_ok, decide_eq_false_iff_not, not_lt]
  exact ⟨(), h.length_le, (), h.checked, htypes⟩

theorem Accepted.perm {types : Types} (h : Accepted P catalog fields types)
    (hperm : fields.Perm fields') : Accepted P catalog fields' types := by
  have hlookup := lookup_perm hperm (keys_nodup h.checked)
  refine ⟨hperm.length_eq ▸ h.length_le, checkFields_perm hperm h.checked,
    h.complete.ordered.congr hlookup, fun key hkey => h.complete.covers key ?_⟩
  exact (activeKeys_perm hperm).mem_iff.mpr hkey

end Ashbi.Records

import Ashbi.Records.Accepted

/-! Values that are submitted for a record, and the forms by which they are submitted. -/

namespace Ashbi.Records

open Checked

variable {N : Type} (P : Platform N) (catalog : Catalog N)

/-- The own entries of an object, in their order. -/
abbrev Values (N : Type) := List (String × Value N)

/-- Sets an entry of an object. -/
def assign (values : Values N) (key : String) (value : Value N) : Values N :=
  if (values.lookup key).isSome then
    values.map fun entry => if entry.1 = key then (key, value) else entry
  else values ++ [(key, value)]

def Field.editable (field : Field N) : Bool := !field.archived && !field.type.computed

/-- Texts that are distinct, where all items are texts. -/
def distinctTexts (most : ℕ) (valid : String → Bool) (items : List (Value N)) : Bool :=
  match items.mapM Value.text? with
  | none => false
  | some texts => items.length ≤ most && texts.all valid && texts.Nodup

/-- A value that is not null, in a field of its type. -/
def validValue (field : Field N) : Value N → Bool
  | .number n => field.type = .number && P.isFinite n
  | .boolean _ => field.type = .boolean
  | .text s => match field.type with
    | .text => Js.length s ≤ 2000
    | .date => validDate s
    | .url => Js.length s ≤ 2048 && P.webAddress s
    | .select => (field.options.getD []).contains s
    | _ => false
  | .list items => match field.type with
    | .multiSelect => distinctTexts 30 (fun item => (field.options.getD []).contains item) items
    | .relation => distinctTexts 100 (fun id => id ≠ "" && Js.length id ≤ 80) items
    | _ => false
  | _ => false

def validateRecordValue (field : Field N) (value : Value N) : Except Stop Unit := do
  refuse (!field.editable) (fail "Computed or archived fields cannot be submitted.")
  refuse (!value.isNull && !validValue P field value)
    (fail ("Invalid value for " ++ field.name ++ "."))

/-- No value, a blank text or an empty list. -/
def empty : Option (Value N) → Bool
  | none | some .undefined | some .null => true
  | some (.text s) => Js.trim s = ""
  | some (.list items) => items.isEmpty
  | some _ => false

/-- The submitted entries, one after the other, over the entries that exist. -/
def applyPatch (fields : List (Field N)) (existing patch : Values N) : Except Stop (Values N) :=
  patch.foldlM (fun result (key, value) => do
    let field ← found (lookup fields key) (fail "Unknown record field.")
    validateRecordValue P field value
    pure (assign result key value)) existing

/-- The checks of all entries, also of those that were not submitted. -/
def checkValues (fields : List (Field N)) (values : Values N) : Except Stop Unit := do
  (fields.filter fun field => field.editable && field.required).forM fun field =>
    refuse (empty (values.lookup field.key)) (fail (field.name ++ " is required."))
  (fields.filter (·.editable)).forM fun field =>
    match values.lookup field.key with
    | none => pure ()
    | some value => validateRecordValue P field value

def recordValuePatch (fields : List (Field N)) (existing patch : Values N) :
    Except Stop (Values N) := do
  let _ ← validateRecordDefinitions P catalog fields
  refuse (40 < patch.length) (fail "Invalid record values.")
  let result ← applyPatch P fields existing patch
  checkValues P fields result
  pure result

/-- What an update must keep of a field that exists. -/
def checkKept (next : List (Field N)) (old : Field N) : Except Stop Unit := do
  let current ← found (lookup next old.key) (fail "Archive fields instead of deleting them.")
  refuse (current.type ≠ old.type || current.collectionId ≠ old.collectionId
      || current.target ≠ old.target)
    (fail "Existing field types and relation targets cannot change.")
  refuse ((old.options.getD []).any fun option => !(current.options.getD []).contains option)
    (fail "Existing choices must be retained.")

def validateRecordDefinitionUpdate (previous next : List (Field N)) : Except Stop Unit := do
  let _ ← validateRecordDefinitions P catalog next
  previous.forM (checkKept next)

/-! ### Forms -/

structure FormField (N : Type) where
  key : String
  label : Option String
  help : Option String
  required : Bool
  /-- Present also where it is null. -/
  defaultValue : Option (Value N)

structure FormConfiguration (N : Type) where
  name : String
  description : Option String
  definitionRevision : ℕ
  fields : List (FormField N)

def checkFormField (fields : List (Field N)) (item : FormField N) : Except Stop Unit := do
  refuse (item.label.any (fun label => Js.trim label = "" || 80 < Js.length label)
    || item.help.any (500 < Js.length ·)) (fail "Invalid form field.")
  let field ← found ((lookup fields item.key).filter (·.editable))
    (fail "Form fields must be active editable collection fields.")
  refuse (field.required && !item.required)
    (fail "Collection required fields must remain required in the form.")
  match item.defaultValue with
  | none => pure ()
  | some value => validateRecordValue P field value

def validateRecordForm (form : FormConfiguration N) (fields : List (Field N))
    (schemaRevision : ℕ) : Except Stop Unit := do
  let _ ← validateRecordDefinitions P catalog fields
  refuse (Js.trim form.name = "" || 80 < Js.length form.name
      || form.description.any (2000 < Js.length ·) || form.definitionRevision ≠ schemaRevision)
    (fail "Review the form against the current collection fields.")
  refuse (form.fields.isEmpty || 40 < form.fields.length || !(form.fields.map (·.key)).Nodup)
    (fail "Choose unique form fields.")
  form.fields.forM (checkFormField P fields)
  (fields.filter fun field => field.editable && field.required).forM fun field =>
    refuse (!form.fields.any (·.key = field.key))
      (fail "Form must include every required collection field.")

/-- What is submitted for a field of the form, or its default. -/
def FormField.submitted (item : FormField N) (submitted : Values N) : Value N :=
  ((submitted.lookup item.key).or item.defaultValue).getD .null

/-- The name of a form field in the error for its absence. -/
def FormField.title (item : FormField N) (fields : List (Field N)) : String :=
  (Js.truthy item.label).getD (((lookup fields item.key).map (·.name)).getD "")

def recordFormSubmission (form : FormConfiguration N) (fields : List (Field N))
    (schemaRevision : ℕ) (submitted : Values N) : Except Stop (Values N) := do
  validateRecordForm P catalog form fields schemaRevision
  refuse (submitted.any fun (key, _) => !form.fields.any (·.key = key))
    (fail "Only configured form fields can be submitted.")
  form.fields.forM fun item =>
    refuse (item.required && empty (some (item.submitted submitted)))
      (fail (item.title fields ++ " is required."))
  recordValuePatch P catalog fields []
    (form.fields.map fun item => (item.key, item.submitted submitted))

/-! ### What a patch leaves -/

section

variable {P catalog} {fields : List (Field N)} {existing patch result : Values N}

theorem forM_ok {α : Type} {f : α → Except Stop Unit} {xs : List α} {u : Unit} :
    xs.forM f = .ok u ↔ ∀ x ∈ xs, f x = .ok () := by
  induction xs with
  | nil => simp
  | cons x rest ih =>
    rw [List.forM_eq_forM, List.forM_cons, List.forall_mem_cons, bind_ok]
    rw [List.forM_eq_forM] at ih
    simp only [ih]
    exact ⟨fun ⟨_, hx, h⟩ => ⟨hx, h⟩, fun ⟨hx, h⟩ => ⟨(), hx, h⟩⟩

theorem recordValuePatch_ok : recordValuePatch P catalog fields existing patch = .ok result ↔
    (∃ types, validateRecordDefinitions P catalog fields = .ok types) ∧ patch.length ≤ 40 ∧
      applyPatch P fields existing patch = .ok result ∧ checkValues P fields result = .ok () := by
  simp only [recordValuePatch, bind_ok, refuse_ok, pure_ok, decide_eq_false_iff_not, not_lt]
  constructor
  · rintro ⟨types, hvalid, -, hlength, _, hpatch, _, hcheck, rfl⟩
    exact ⟨⟨types, hvalid⟩, hlength, hpatch, hcheck⟩
  · rintro ⟨⟨types, hvalid⟩, hlength, hpatch, hcheck⟩
    exact ⟨types, hvalid, (), hlength, result, hpatch, (), hcheck, rfl⟩

/-- Every entry of an object has its field. -/
def Known (fields : List (Field N)) (values : Values N) : Prop :=
  ∀ key ∈ values.map Prod.fst, (lookup fields key).isSome

theorem assign_known {key : String} {value : Value N} (h : Known fields existing)
    (hkey : (lookup fields key).isSome) : Known fields (assign existing key value) := by
  unfold assign
  split
  · intro other hother
    obtain ⟨entry, hentry, rfl⟩ := List.mem_map.mp hother
    obtain ⟨old, hold, rfl⟩ := List.mem_map.mp hentry
    split
    · exact hkey
    · exact h _ (List.mem_map_of_mem hold)
  · intro other hother
    rw [List.map_append, List.mem_append] at hother
    rcases hother with hother | hother
    · exact h other hother
    · obtain rfl := List.mem_singleton.mp hother
      exact hkey

theorem recordValuePatch_known (hexisting : Known fields existing)
    (h : recordValuePatch P catalog fields existing patch = .ok result) :
    Known fields result := by
  obtain ⟨-, -, hpatch, -⟩ := recordValuePatch_ok.mp h
  refine foldlM_ok (I := Known fields) ?_ hexisting hpatch
  intro values entry values' _ hvalues hstep
  obtain ⟨field, hfield, hstep⟩ := bind_ok.mp hstep
  obtain ⟨u, -, hstep⟩ := bind_ok.mp hstep
  obtain rfl := pure_ok.mp hstep
  apply assign_known hvalues
  rw [found_ok.mp hfield]
  rfl

/-- An update keeps every field. -/
theorem Known.update {next : List (Field N)} {values : Values N} (h : Known fields values)
    (hupdate : validateRecordDefinitionUpdate P catalog fields next = .ok ()) :
    Known next values := by
  obtain ⟨types, -, hkept⟩ := bind_ok.mp hupdate
  intro key hkey
  obtain ⟨old, hold⟩ := Option.isSome_iff_exists.mp (h key hkey)
  obtain ⟨hmem, rfl⟩ := mem_of_lookup hold
  obtain ⟨current, hcurrent, -⟩ := bind_ok.mp (forM_ok.mp hkept old hmem)
  rw [found_ok.mp hcurrent]
  rfl

end

end Ashbi.Records

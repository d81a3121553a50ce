import Ashbi.Records.Inputs

/-! Collections of records and their forms, and the transactions that write them. -/

namespace Ashbi.Records

open Checked

variable {N : Type} (P : Platform N)

structure Collection (N : Type) where
  id : String
  organizationId : String
  name : String
  description : String
  portfolio : Option String
  fields : List (Field N)
  archived : Bool
  revision : ℕ
  schemaRevision : ℕ

structure Record (N : Type) where
  id : String
  collectionId : String
  organizationId : String
  title : String
  values : Values N
  archived : Bool
  revision : ℕ

structure Form (N : Type) where
  id : String
  collectionId : String
  organizationId : String
  configuration : FormConfiguration N
  archived : Bool
  revision : ℕ

structure Store (N : Type) where
  collections : List (Collection N)
  records : List (Record N)
  forms : List (Form N)

/-- The collection has a relation to `id`. -/
def Collection.dependsOn (c : Collection N) (id : String) : Bool :=
  c.fields.any fun field => field.type = .relation && field.collectionId = some id

/-- Who writes, and which rows of other tables a relation of theirs may lead to. -/
structure Actor where
  organizationId : String
  canonicalRows : Target → List String → List String

/-- A check of what is given, where it is given. -/
def whenGiven {α : Type} (value : Option α) (check : α → Except Stop Unit) : Except Stop Unit :=
  match value with
  | none => .ok ()
  | some a => check a

namespace Store

variable (s : Store N) (actor : Actor)

/-! ### Reads -/

def collectionFor (id : String) (includeArchived : Bool) : Except Stop (Collection N) :=
  found (s.collections.find? fun c => c.id = id && c.organizationId = actor.organizationId
    && (includeArchived || !c.archived)) (.failure ⟨404, "Collection not found"⟩)

def relationIds (fields : List (Field N)) : List String :=
  (fields.filterMap fun field => if field.type = .relation then
    field.collectionId.filter fun id => id ≠ "" && Js.length id ≤ 80 else none).dedup

/-- The fields of the collections to which relations lead, one of them perhaps not yet stored. -/
def catalogFor (fields : List (Field N)) (override : Option (String × List (Field N))) :
    Catalog N :=
  let rows := (s.collections.filter fun c => (relationIds fields).contains c.id
    && c.organizationId = actor.organizationId).take 40
  fun id => match override.filter (·.1 = id) with
    | some (_, fields) => some fields
    | none => (rows.find? (·.id = id)).map (·.fields)

/-- The ids of the rows that a relation finds among `ids`. -/
def relationRows (field : Field N) (ids : List String) : List String :=
  match field.target with
  | some target => actor.canonicalRows target ids
  | none =>
    if s.collections.any fun c => some c.id = field.collectionId
        && c.organizationId = actor.organizationId && !c.archived then
      ((s.records.filter fun r => some r.collectionId = field.collectionId
        && r.organizationId = actor.organizationId && !r.archived
        && ids.contains r.id).take 100).map
        (·.id)
    else []

/-- The ids that a record selects in a relation. -/
def selection (values : Values N) (key : String) : List String :=
  match values.lookup key with
  | some (.list items) => items.filterMap Value.text?
  | _ => []

def validateRelations (fields : List (Field N)) (values : Values N) (changedKeys : List String) :
    Except Stop Unit :=
  (fields.filter fun field => field.type = .relation && !field.archived
    && changedKeys.contains field.key).forM fun field =>
      let ids := selection values field.key
      let rows := s.relationRows actor field ids
      refuse (!ids.isEmpty && (rows.length ≠ ids.length || !ids.all rows.contains))
        (.failure ⟨404, "Related records are unavailable in this workspace."⟩)

/-! ### Collections -/

structure CollectionInput (N : Type) where
  name : String
  description : String
  portfolio : Option String
  fields : List (Field N)

def createWorkspaceCollection (newId : String) (input : CollectionInput N) :
    Except Stop (Store N) := do
  let _ ← validateRecordDefinitions P (s.catalogFor actor input.fields none) input.fields
  (input.fields.filterMap fun field =>
    if field.type = .relation then field.collectionId else none).forM fun id => do
      let _ ← s.collectionFor actor id false
  refuse (s.collections.any (·.id = newId)) (.failure ⟨409, "Unique constraint failed"⟩)
  let row : Collection N := {
    id := newId
    organizationId := actor.organizationId
    name := input.name
    description := input.description
    portfolio := input.portfolio
    fields := input.fields
    archived := false
    revision := 0
    schemaRevision := 0 }
  pure { s with collections := s.collections ++ [row] }

structure CollectionChanges (N : Type) where
  name : Option String
  description : Option String
  portfolio : Option (Option String)
  fields : Option (List (Field N))

def CollectionChanges.some? (changes : CollectionChanges N) : Bool :=
  changes.name.isSome || changes.description.isSome || changes.portfolio.isSome
    || changes.fields.isSome

/-- The checks of a change of fields: of the collection, of all that lead to it, and of its active
records. -/
def checkFields (current : Collection N) (fields : List (Field N)) : Except Stop Unit := do
  let override := some (current.id, fields)
  let catalog := s.catalogFor actor fields override
  validateRecordDefinitionUpdate P catalog current.fields fields
  (fields.filter fun field => field.type = .relation && !field.archived
    && !(current.fields.any fun old => old.key = field.key && !old.archived)
    && field.collectionId.any (· ≠ current.id)).forM fun field => do
      let _ ← s.collectionFor actor (field.collectionId.getD "") false
  (s.collections.filter fun c => c.organizationId = actor.organizationId
    && c.dependsOn current.id && c.id ≠ current.id).forM fun dependent => do
      let _ ← validateRecordDefinitions P (s.catalogFor actor dependent.fields override)
        dependent.fields
  (s.records.filter fun r => r.collectionId = current.id
    && r.organizationId = actor.organizationId && !r.archived).forM fun record => do
      let _ ← recordValuePatch P catalog fields record.values []

def CollectionChanges.apply (changes : CollectionChanges N) (archived : Option Bool)
    (c : Collection N) : Collection N :=
  { c with
    name := changes.name.getD c.name
    description := changes.description.getD c.description
    portfolio := changes.portfolio.getD c.portfolio
    fields := changes.fields.getD c.fields
    archived := archived.getD c.archived
    revision := c.revision + 1
    schemaRevision := if changes.fields.isSome then c.schemaRevision + 1 else c.schemaRevision }

def updateWorkspaceCollection (id : String) (revision : ℕ) (archived : Option Bool)
    (changes : CollectionChanges N) : Except Stop (Store N) := do
  let current ← s.collectionFor actor id true
  refuse (revision ≠ current.revision)
    (.failure ⟨409, "Collection changed. Reload before saving."⟩)
  refuse (current.archived && changes.some? && archived ≠ some false)
    (.failure ⟨409, "Restore the collection before editing it."⟩)
  whenGiven changes.fields (s.checkFields P actor current)
  let chosen := fun c : Collection N => c.id = id && c.organizationId = actor.organizationId
    && c.revision = revision
  refuse (s.collections.countP chosen ≠ 1)
    (.failure ⟨409, "Collection changed. Reload before saving."⟩)
  pure { s with collections :=
    s.collections.map fun c => if chosen c then changes.apply archived c else c }

/-! ### Records -/

structure RecordInput (N : Type) where
  title : String
  definitionRevision : ℕ
  values : Values N

def createWorkspaceRecord (collectionId newId : String) (input : RecordInput N) :
    Except Stop (Store N) := do
  let collection ← s.collectionFor actor collectionId false
  refuse (input.definitionRevision ≠ collection.schemaRevision)
    (.failure ⟨409, "Collection fields changed. Reload before submitting."⟩)
  let catalog := s.catalogFor actor collection.fields (some (collection.id, collection.fields))
  let values ← recordValuePatch P catalog collection.fields [] input.values
  s.validateRelations actor collection.fields values (values.map Prod.fst)
  refuse (s.records.any (·.id = newId)) (.failure ⟨409, "Unique constraint failed"⟩)
  let row : Record N := {
    id := newId
    collectionId := collectionId
    organizationId := actor.organizationId
    title := input.title
    values := values
    archived := false
    revision := 0 }
  pure { s with records := s.records ++ [row] }

structure RecordChanges (N : Type) where
  revision : ℕ
  definitionRevision : ℕ
  title : Option String
  values : Option (Values N)
  archived : Option Bool

/-- The values of a record after its update. A record that is only archived keeps its own. -/
def patchedValues (catalog : Catalog N) (collection : Collection N) (current : Record N)
    (input : RecordChanges N) : Except Stop (Values N) :=
  if input.archived = some true && input.values.isNone then pure current.values
  else recordValuePatch P catalog collection.fields current.values (input.values.getD [])

def updateWorkspaceRecord (collectionId recordId : String) (input : RecordChanges N) :
    Except Stop (Store N) := do
  let collection ← s.collectionFor actor collectionId
    (input.archived = some true && input.values.isNone && input.title.isNone)
  refuse (input.definitionRevision ≠ collection.schemaRevision)
    (.failure ⟨409, "Collection fields changed. Reload before saving."⟩)
  let current ← found (s.records.find? fun r => r.id = recordId && r.collectionId = collectionId
    && r.organizationId = actor.organizationId) (.failure ⟨404, "Record not found"⟩)
  refuse (current.revision ≠ input.revision)
    (.failure ⟨409, "Record changed. Your draft is retained; reload before saving."⟩)
  refuse (current.archived && (input.values.isSome || input.title.isSome)
      && input.archived ≠ some false)
    (.failure ⟨409, "Restore the record before editing it."⟩)
  let catalog := s.catalogFor actor collection.fields (some (collection.id, collection.fields))
  let values ← patchedValues P catalog collection current input
  s.validateRelations actor collection.fields values
    (if input.archived = some false then collection.fields.map (·.key)
      else (input.values.getD []).map Prod.fst)
  let chosen := fun r : Record N => r.id = recordId && r.collectionId = collectionId
    && r.organizationId = actor.organizationId && r.revision = input.revision
  refuse (s.records.countP chosen ≠ 1)
    (.failure ⟨409, "Record changed. Reload before saving."⟩)
  pure { s with records := s.records.map fun r => if chosen r then
    { r with
      title := input.title.getD r.title
      values := if input.values.isSome then values else r.values
      archived := input.archived.getD r.archived
      revision := r.revision + 1 } else r }

/-! ### Forms -/

/-- The form fits its collection, and the records that its defaults select exist. -/
def checkForm (collection : Collection N) (configuration : FormConfiguration N) :
    Except Stop Unit := do
  let catalog := s.catalogFor actor collection.fields (some (collection.id, collection.fields))
  validateRecordForm P catalog configuration collection.fields collection.schemaRevision
  let defaults := configuration.fields.filterMap fun item =>
    item.defaultValue.map fun value => (item.key, value)
  s.validateRelations actor collection.fields defaults (defaults.map Prod.fst)

def createWorkspaceRecordForm (collectionId newId : String) (configuration : FormConfiguration N) :
    Except Stop (Store N) := do
  let collection ← s.collectionFor actor collectionId false
  s.checkForm P actor collection configuration
  refuse (s.forms.any (·.id = newId)) (.failure ⟨409, "Unique constraint failed"⟩)
  let row : Form N := {
    id := newId
    collectionId := collectionId
    organizationId := actor.organizationId
    configuration := configuration
    archived := false
    revision := 0 }
  pure { s with forms := s.forms ++ [row] }

structure FormChanges (N : Type) where
  revision : ℕ
  configuration : Option (FormConfiguration N)
  archived : Option Bool

def updateWorkspaceRecordForm (collectionId formId : String) (input : FormChanges N) :
    Except Stop (Store N) := do
  let collection ← s.collectionFor actor collectionId
    (input.archived = some true && input.configuration.isNone)
  let current ← found (s.forms.find? fun f => f.id = formId && f.collectionId = collectionId
    && f.organizationId = actor.organizationId) (.failure ⟨404, "Record form not found"⟩)
  refuse (current.revision ≠ input.revision)
    (.failure ⟨409, "Form changed. Reload before saving."⟩)
  refuse (current.archived && input.configuration.isSome && input.archived ≠ some false)
    (.failure ⟨409, "Restore the form before editing it."⟩)
  whenGiven input.configuration (s.checkForm P actor collection)
  let chosen := fun f : Form N => f.id = formId && f.collectionId = collectionId
    && f.organizationId = actor.organizationId && f.revision = input.revision
  refuse (s.forms.countP chosen ≠ 1) (.failure ⟨409, "Form changed. Reload before saving."⟩)
  pure { s with forms := s.forms.map fun f => if chosen f then
    { f with
      configuration := input.configuration.getD f.configuration
      archived := input.archived.getD f.archived
      revision := f.revision + 1 } else f }

structure Submission (N : Type) where
  revision : ℕ
  definitionRevision : ℕ
  title : String
  values : Values N

def submitWorkspaceRecordForm (collectionId formId newId : String) (input : Submission N) :
    Except Stop (Store N) := do
  let collection ← s.collectionFor actor collectionId false
  let form ← found (s.forms.find? fun f => f.id = formId && f.collectionId = collectionId
    && f.organizationId = actor.organizationId && !f.archived)
    (.failure ⟨404, "Record form not found"⟩)
  refuse (form.revision ≠ input.revision || input.definitionRevision ≠ collection.schemaRevision
      || form.configuration.definitionRevision ≠ collection.schemaRevision)
    (.failure ⟨409, "Form or collection fields changed. Review the form before submitting."⟩)
  let catalog := s.catalogFor actor collection.fields (some (collection.id, collection.fields))
  let values ← recordFormSubmission P catalog form.configuration collection.fields
    collection.schemaRevision input.values
  s.validateRelations actor collection.fields values (values.map Prod.fst)
  s.createWorkspaceRecord P actor collectionId newId
    ⟨input.title, input.definitionRevision, values⟩

end Store

/-! ### Transactions -/

/-- A transaction on the store, with what was asked for and the id of a row that it creates. -/
inductive Request (N : Type) where
  | createCollection (newId : String) (input : Store.CollectionInput N)
  | updateCollection (id : String) (revision : ℕ) (archived : Option Bool)
      (changes : Store.CollectionChanges N)
  | createRecord (collectionId newId : String) (input : Store.RecordInput N)
  | updateRecord (collectionId recordId : String) (input : Store.RecordChanges N)
  | createForm (collectionId newId : String) (configuration : FormConfiguration N)
  | updateForm (collectionId formId : String) (input : Store.FormChanges N)
  | submitForm (collectionId formId newId : String) (input : Store.Submission N)

def Request.transact (actor : Actor) (s : Store N) : Request N → Except Stop (Store N)
  | .createCollection newId input => s.createWorkspaceCollection P actor newId input
  | .updateCollection id revision archived changes =>
      s.updateWorkspaceCollection P actor id revision archived changes
  | .createRecord collectionId newId input =>
      s.createWorkspaceRecord P actor collectionId newId input
  | .updateRecord collectionId recordId input =>
      s.updateWorkspaceRecord P actor collectionId recordId input
  | .createForm collectionId newId configuration =>
      s.createWorkspaceRecordForm P actor collectionId newId configuration
  | .updateForm collectionId formId input =>
      s.updateWorkspaceRecordForm P actor collectionId formId input
  | .submitForm collectionId formId newId input =>
      s.submitWorkspaceRecordForm P actor collectionId formId newId input

/-- Transactions one after the other. One that fails leaves the store as it was. -/
def Store.run (s : Store N) (requests : List (Actor × Request N)) : Store N :=
  requests.foldl (fun s (actor, request) =>
    match request.transact P actor s with
    | .ok s' => s'
    | .error _ => s) s

end Ashbi.Records

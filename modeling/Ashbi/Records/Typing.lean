import Ashbi.Checked
import Ashbi.Records.Definition

/-! Validation of field definitions, and the types of their results. -/

namespace Ashbi.Records

open Checked

variable {N : Type} (P : Platform N) (catalog : Catalog N)

def safeKey (key : String) : Bool :=
  match key.toList with
  | [] => false
  | c :: rest => c.isAlpha && rest.length ≤ 79
      && rest.all (fun c => c.isAlphanum || c = '_' || c = '-')
      && !(["__proto__", "prototype", "constructor"].contains key)

/-! ### One field -/

/-- The texts under which a key and a name are unique. -/
def keyOf (field : Field N) : String := P.toLowerCase field.key
def nameOf (field : Field N) : String := P.toLowerCase (Js.trim field.name)

/-- The field has configuration of which its type knows nothing. -/
def unexpected (field : Field N) : Bool :=
  (field.type ≠ .select && field.type ≠ .multiSelect && field.options.isSome)
    || (field.type ≠ .relation && (field.collectionId.isSome || field.target.isSome))
    || (field.type ≠ .formula && field.expression.isSome)
    || (field.type ≠ .rollup
      && (field.relationKey.isSome || field.targetKey.isSome || field.aggregate.isSome))

def validOptions (options : Option (List String)) : Bool :=
  match options with
  | none => false
  | some options => !options.isEmpty && options.length ≤ 30
      && options.all (fun item => Js.trim item ≠ "" && Js.length item ≤ 80)
      && options.Nodup

/-- A collection by its id, where the catalog has it. -/
def related (collectionId : Option String) : Option (List (Field N)) := collectionId.bind catalog

def validRelated (collectionId : Option String) : Bool :=
  match collectionId with
  | none => false
  | some id => id ≠ "" && Js.length id ≤ 80 && (catalog id).isSome

/-- The checks that one field passes by itself. -/
def checkField (field : Field N) : Except Stop Unit := do
  refuse (unexpected field) (fail ("Unexpected configuration for " ++ field.name ++ "."))
  refuse ((field.type = .select || field.type = .multiSelect) && !validOptions field.options)
    (fail "Select fields need unique choices.")
  refuse (field.type = .relation && field.target.isSome && field.collectionId.isSome)
    (fail "Choose one canonical relation target or a collection.")
  refuse (field.type = .relation && field.target.isNone && !validRelated catalog field.collectionId)
    (fail "Related collection is unavailable.")
  refuse (field.type.computed && field.required) (fail "Computed fields cannot be required inputs.")

/-- The loop over the fields, with the keys and the names seen so far. -/
def checkFields : List String → List String → List (Field N) → Except Stop Unit
  | _, _, [] => pure ()
  | keys, names, field :: rest => do
    refuse (!safeKey field.key || Js.trim field.name = "" || 80 < Js.length field.name)
      (fail "Invalid record field.")
    refuse (keys.contains (keyOf P field) || names.contains (nameOf P field))
      (fail "Field keys and names must be unique.")
    checkField catalog field
    checkFields (keyOf P field :: keys) (nameOf P field :: names) rest

/-! ### Types -/

/-- The result types found so far. -/
abbrev Types := List (String × ResultType)

def typeIn (types : Types) (key : String) : Option ResultType := types.lookup key

def literalType : Value N → Except Stop ResultType
  | .text s => do
    refuse (2000 < Js.length s) (fail "Invalid formula literal.")
    pure .text
  | .number n => do
    refuse (!P.isFinite n) (fail "Invalid formula literal.")
    pure .number
  | .boolean _ => pure .boolean
  | _ => .error (fail "Invalid formula literal.")

/-- The first type, where it is one of `allowed` and all the others are the same. -/
def matching (allowed : List ResultType) : List ResultType → Option ResultType
  | [] => none
  | type :: rest => if type ∈ allowed ∧ ∀ other ∈ rest, other = type then some type else none

def scalars : List ResultType := [.number, .text, .boolean, .date]

/-- The result of an operation on arguments of these types. -/
def operationType (op : Op) (args : List ResultType) : Except Stop ResultType :=
  match op with
  | .add | .subtract | .multiply | .divide | .round => do
    refuse (!args.all (· = .number)) (fail "Arithmetic requires number fields.")
    pure .number
  | .greater | .less => do
    refuse (matching [.number, .date] args).isNone
      (fail "Ordered comparison requires matching numbers or dates.")
    pure .boolean
  | .equal => do
    refuse (matching scalars args).isNone (fail "Equality requires matching scalar values.")
    pure .boolean
  | .and | .or | .not => do
    refuse (!args.all (· = .boolean)) (fail "Logical operations require booleans.")
    pure .boolean
  | .concat => do
    refuse (!args.all (· = .text)) (fail "Concatenation requires text fields.")
    pure .text
  | .if => do
    refuse (args[0]? ≠ some .boolean || args[1]? ≠ args[2]?)
      (fail "If requires a boolean and matching result types.")
    found args[1]? (fail "If requires a boolean and matching result types.")
  | .coalesce =>
    found (matching (scalars ++ [.multiSelect, .relation, .list]) args)
      (fail "Coalesce requires matching result types.")
  | .daysBetween => do
    refuse (!args.all (· = .date)) (fail "Days between requires date fields.")
    pure .number

/-- How the type of a field is found, and what has been found with it. -/
abbrev Read := String → Types → Except Stop (ResultType × Types)

mutual

/-- The type of an expression, with the number of nodes visited so far. -/
def expressionType (read : Read) (depth : ℕ) :
    Expression N → ℕ → Types → Except Stop (ResultType × ℕ × Types)
  | expression, nodes, types => do
    refuse (99 < nodes || 12 < depth) (fail "Formula is too complex or invalid.")
    match expression with
    | .literal value =>
      let type ← literalType P value
      pure (type, nodes + 1, types)
    | .field key =>
      refuse (!safeKey key) (fail "Invalid formula field reference.")
      let (type, types) ← read key types
      pure (type, nodes + 1, types)
    | .operation op args =>
      refuse (args.length < op.arity.1 || op.arity.2 < args.length)
        (fail "Invalid formula argument count.")
      let (args, nodes, types) ← expressionTypes read (depth + 1) args (nodes + 1) types
      let type ← operationType op args
      pure (type, nodes, types)
    | .malformed message => .error (fail message)

def expressionTypes (read : Read) (depth : ℕ) :
    List (Expression N) → ℕ → Types → Except Stop (List ResultType × ℕ × Types)
  | [], nodes, types => pure ([], nodes, types)
  | expression :: rest, nodes, types => do
    let (type, nodes, types) ← expressionType read depth expression nodes types
    let (others, nodes, types) ← expressionTypes read depth rest nodes types
    pure (type :: others, nodes, types)

end

/-- The stored scalars that a rollup can collect. -/
def collectable (type : FieldType) : Bool :=
  type = .number || type = .text || type = .select || type = .boolean || type = .date

/-- The field that a rollup collects. -/
def targetField (relation field : Field N) : Option (Field N) :=
  (related catalog relation.collectionId).bind fun items =>
    items.find? fun item => some item.key = field.targetKey && !item.archived

def rollupType (fields : List (Field N)) (field : Field N) : Except Stop ResultType := do
  let unsupported := fail "Rollup requires an active collection relation and supported aggregate."
  let relation ← found (field.relationKey.bind (lookup fields)) unsupported
  refuse (relation.archived || relation.type ≠ .relation || relation.target.isSome) unsupported
  let aggregate ← found field.aggregate unsupported
  if aggregate = .count then
    refuse field.targetKey.isSome (fail "Count does not take a target field.")
    pure .number
  else
    let unavailable := fail "Rollup target must be an available stored scalar field."
    let target ← found (targetField catalog relation field) unavailable
    refuse (!collectable target.type) unavailable
    if aggregate = .unique then
      pure .list
    else
      refuse (target.type ≠ .number) (fail "Numeric rollups require a number field.")
      pure .number

def Field.formula (field : Field N) : Expression N :=
  field.expression.getD (.malformed "Formula is too complex or invalid.")

/-- The type of an active field, with `read` for the fields that it reads. -/
def fieldResult (fields : List (Field N)) (read : Read) (field : Field N) (types : Types) :
    Except Stop (ResultType × Types) :=
  match scalarType field.type with
  | some type => pure (type, types)
  | none =>
    if field.type = .formula then do
      let (type, _, types) ← expressionType P read 0 field.formula 0 types
      refuse (!scalars.contains type) (fail "Formula result must be a scalar.")
      pure (type, types)
    else do
      let type ← rollupType catalog fields field
      pure (type, types)

/-- The type of a field by its key, below the fields that are being visited. -/
def fieldType (fields : List (Field N)) : ℕ → List String → Read
  | 0, _, _, _ => .error .exhausted
  | fuel + 1, visiting, key, types => do
    let field ← found ((lookup fields key).filter (!·.archived))
      (fail "Calculation references an unknown or archived field.")
    match typeIn types key with
    | some type => pure (type, types)
    | none =>
      refuse (visiting.contains key) (fail "Calculation fields cannot form a cycle.")
      let (type, types) ← fieldResult P catalog fields (fieldType fields fuel (key :: visiting))
        field types
      pure (type, (key, type) :: types)

def activeKeys (fields : List (Field N)) : List String :=
  (fields.filter (!·.archived)).map (·.key)

/-- The types of the results of all active fields. -/
def resultTypes (fields : List (Field N)) : Except Stop Types :=
  (activeKeys fields).foldlM (fun types key => do
    let (_, types) ← fieldType P catalog fields (fields.length + 1) [] key types
    pure types) []

def validateRecordDefinitions (fields : List (Field N)) : Except Stop Types := do
  refuse (40 < fields.length) (fail "Use at most 40 fields.")
  checkFields P catalog [] [] fields
  resultTypes P catalog fields

end Ashbi.Records

import Mathlib.Control.Monad.Basic
import Ashbi.Records.Typing

/-! Calculation of the formulas and rollups of a record. -/

namespace Ashbi.Records

open Checked

variable {N : Type} (P : Platform N)

/-! ### Operators -/

def calculationFail (code : Code) : Stop := .calculation code

def finite (n : N) : Except Stop (Value N) := do
  refuse (!P.isFinite n) (calculationFail .nonFinite)
  pure (.number n)

def boundedText (s : String) : Except Stop (Value N) := do
  refuse (2000 < Js.length s) (calculationFail .textLimit)
  pure (.text s)

/-- The arguments of an operator, where they are all of its type. -/
def typed {α : Type} (read : Value N → Option α) (inputs : List (Value N)) : Except Stop (List α) :=
  found (inputs.mapM read) .mistyped

def sum (numbers : List N) : N := numbers.foldl P.add (P.ofInt 0)

def product (numbers : List N) : N := numbers.foldl P.mul (P.ofInt 1)

/-- The time value of a date. -/
def date? : Value N → Option ℤ
  | .text s => (Calendar.parseDate s).map (· * 86400000)
  | _ => none

/-- `===` of two values of one scalar type. -/
def equalTo : Value N → Value N → Except Stop (Value N)
  | .number a, .number b => pure (.boolean (P.equal a b))
  | .text a, .text b => pure (.boolean (a = b))
  | .boolean a, .boolean b => pure (.boolean (a = b))
  | _, _ => .error .mistyped

/-- `<` of two numbers or of two dates. -/
def lessThan : Value N → Value N → Except Stop (Value N)
  | .number a, .number b => pure (.boolean (P.less a b))
  | .text a, .text b =>
    if validDate a && validDate b then pure (.boolean (a < b)) else .error .mistyped
  | _, _ => .error .mistyped

def divide : List N → Except Stop (Value N)
  | [a, b] => do
    refuse (P.equal b (P.ofInt 0)) (calculationFail .divisionByZero)
    finite P (P.div a b)
  | _ => .error .mistyped

def roundTo (a places : N) : Except Stop (Value N) := do
  refuse (!P.isInteger places || P.less places (P.ofInt 0) || P.less (P.ofInt 8) places)
    (calculationFail .roundPrecision)
  let scale := P.pow (P.ofInt 10) places
  let _ ← finite P (P.mul a scale)
  finite P (P.div (P.round (P.mul a scale)) scale)

/-- The operators that evaluate all their arguments, on arguments of which none is null. -/
def apply (op : Op) (inputs : List (Value N)) : Except Stop (Value N) :=
  match op with
  | .add => do finite P (sum P (← typed Value.number? inputs))
  | .subtract => do
    match ← typed Value.number? inputs with
    | [a, b] => finite P (P.sub a b)
    | _ => .error .mistyped
  | .multiply => do finite P (product P (← typed Value.number? inputs))
  | .divide => do divide P (← typed Value.number? inputs)
  | .round => do
    match ← typed Value.number? inputs with
    | [a] => roundTo P a (P.ofInt 0)
    | [a, places] => roundTo P a places
    | _ => .error .mistyped
  | .equal =>
    match inputs with
    | [a, b] => equalTo P a b
    | _ => .error .mistyped
  | .greater =>
    match inputs with
    | [a, b] => lessThan P b a
    | _ => .error .mistyped
  | .less =>
    match inputs with
    | [a, b] => lessThan P a b
    | _ => .error .mistyped
  | .and => do pure (.boolean ((← typed Value.boolean? inputs).all id))
  | .or => do pure (.boolean ((← typed Value.boolean? inputs).any id))
  | .not => do
    match ← typed Value.boolean? inputs with
    | [a] => pure (.boolean !a)
    | _ => .error .mistyped
  | .concat => do boundedText (String.join (← typed Value.text? inputs))
  | .daysBetween => do
    match ← typed date? inputs with
    | [a, b] => pure (.number (P.div (P.sub (P.ofInt b) (P.ofInt a)) (P.ofInt 86400000)))
    | _ => .error .mistyped
  | .if | .coalesce => .error .mistyped

/-! ### Expressions -/

section

variable {m : Type → Type} [Monad m] (raise : Stop → m (Value N))

/-- The arguments from left to right. -/
def collect : List (m (Value N)) → m (List (Value N))
  | [] => pure []
  | action :: rest => do
    let value ← action
    let values ← collect rest
    pure (value :: values)

/-- The first argument that is not null. The others are not evaluated. -/
def coalesce : List (m (Value N)) → m (Value N)
  | [] => pure .null
  | action :: rest => do
    let value ← action
    if value.isNull then coalesce rest else pure value

/-- An operator on arguments that are still to be evaluated. -/
def operate (op : Op) (actions : List (m (Value N))) : m (Value N) :=
  match op with
  | .if =>
    match actions with
    | [condition, yes, no] => do
      match ← condition with
      | .null => pure .null
      | .boolean true => yes
      | .boolean false => no
      | _ => raise .mistyped
    | _ => raise .mistyped
  | .coalesce => coalesce actions
  | op => do
    let inputs ← collect actions
    if inputs.any Value.isNull then pure .null
    else
      match apply P op inputs with
      | .ok value => pure value
      | .error stop => raise stop

mutual

/-- The value of an expression, with `read` for the fields. -/
def evaluate (read : String → m (Value N)) : Expression N → m (Value N)
  | .literal value => pure value
  | .field key => read key
  | .operation op args => operate P raise op (evaluateAll read args)
  | .malformed _ => raise .mistyped

/-- The evaluations of some expressions: none of them is made yet. -/
def evaluateAll (read : String → m (Value N)) : List (Expression N) → List (m (Value N))
  | [] => []
  | expression :: rest => evaluate read expression :: evaluateAll read rest

end

end

/-! ### Rollups -/

/-- A record that is related, by its id and its values. -/
structure RelatedItem (N : Type) where
  id : String
  values : String → Option (Value N)

/-- What a relation was resolved to. An item that is not a record is `none`. -/
structure Resolution (N : Type) where
  complete : Bool
  items : Option (List (Option (RelatedItem N)))

/-- The values of a record, and what its relations were resolved to. -/
structure Inputs (N : Type) where
  values : String → Option (Value N)
  resolvedRelations : String → Option (Resolution N)

/-- The ids that a relation selects. -/
def selectedIds (inputs : Inputs N) (key : String) : Except Stop (List String) := do
  let selected ← found (match inputs.values key with
    | none | some .undefined | some .null => some []
    | some (.list ids) => ids.mapM Value.text?
    | some _ => none) (calculationFail .invalidRelation)
  refuse (100 < selected.length || selected.any (fun id => id = "" || 80 < Js.length id)
    || !selected.Nodup) (calculationFail .invalidRelation)
  pure selected

/-- The records that a relation selects, all of them. -/
def resolvedItems (inputs : Inputs N) (key : String) (selected : List String) :
    Except Stop (List (RelatedItem N)) := do
  let resolved ← found ((inputs.resolvedRelations key).filter (·.complete))
    (calculationFail .incompleteRelation)
  let items ← found (resolved.items.bind (·.mapM id)) (calculationFail .incompleteRelation)
  refuse (items.length ≠ selected.length || items.any (fun item => !selected.contains item.id)
    || !(items.map (·.id)).Nodup) (calculationFail .incompleteRelation)
  pure items

/-- The value may stand in a field that is collected. -/
def relatedInput (target : Field N) : Value N → Bool
  | .number n => target.type = .number && P.isFinite n
  | .boolean _ => target.type = .boolean
  | .text s =>
    if target.type = .date then validDate s
    else target.type ≠ .number && target.type ≠ .boolean && Js.length s ≤ 2000
      && (target.type ≠ .select || (target.options.getD []).contains s)
  | _ => false

def leastOf (combine : N → N → N) : List N → Value N
  | [] => .null
  | n :: rest => .number (rest.foldl combine n)

/-- An aggregate of values of which none is null. -/
def aggregated (aggregate : Aggregate) (inputs : List (Value N)) : Except Stop (Value N) :=
  match aggregate with
  | .unique => pure (.list (Value.unique P inputs))
  | .count => pure (.number (P.ofInt inputs.length))
  | .sum => do
    let numbers ← typed Value.number? inputs
    if numbers.isEmpty then pure (.number (P.ofInt 0)) else finite P (sum P numbers)
  | .average => do
    let numbers ← typed Value.number? inputs
    if numbers.isEmpty then pure .null
    else finite P (P.div (sum P numbers) (P.ofInt numbers.length))
  | .min => do pure (leastOf P.min (← typed Value.number? inputs))
  | .max => do pure (leastOf P.max (← typed Value.number? inputs))

/-- An aggregate over no record. -/
def emptyAggregate : Aggregate → Value N
  | .unique => .list []
  | .sum | .count => .number (P.ofInt 0)
  | .average | .min | .max => .null

def rollup (catalog : Catalog N) (fields : List (Field N)) (inputs : Inputs N) (field : Field N) :
    Except Stop (Value N) := do
  let key ← found field.relationKey .mistyped
  let aggregate ← found field.aggregate .mistyped
  let selected ← selectedIds inputs key
  if selected.isEmpty then
    pure (emptyAggregate P aggregate)
  else
    let items ← resolvedItems inputs key selected
    if aggregate = .count then
      pure (.number (P.ofInt items.length))
    else
      let relation ← found (lookup fields key) .mistyped
      let items' ← found (related catalog relation.collectionId) .mistyped
      let target ← found (items'.find? fun item => some item.key = field.targetKey) .mistyped
      let values := (items.map fun item =>
        ((field.targetKey.bind item.values).getD .null)).filter (!·.isNull)
      refuse (target.type = .select && target.options.isNone) .mistyped
      refuse (values.any (!relatedInput P target ·)) (calculationFail .invalidRelatedInput)
      aggregated P aggregate values

/-! ### Results with a memory -/

/-- What the fields that were read so far came to. -/
abbrev Results (N : Type) := String → Option (Except Code (Value N))

abbrev Memo (N : Type) := ExceptT Stop (StateM (Results N))

def Results.record (results : Results N) (key : String) (entry : Except Code (Value N)) :
    Results N :=
  Function.update results key (some entry)

/-- A stored value that a calculation may read. -/
def storedInput (field : Field N) : Value N → Bool
  | .null => true
  | .number n => field.type = .multiSelect || field.type = .relation
      || (field.type = .number && P.isFinite n)
  | .boolean _ => field.type = .multiSelect || field.type = .relation || field.type = .boolean
  | .text s => field.type = .multiSelect || field.type = .relation
      || (field.type = .text && Js.length s ≤ 2000)
      || (field.type = .url && Js.length s ≤ 2048)
      || (field.type = .select && Js.length s ≤ 2000 && (field.options.getD []).contains s)
      || (field.type = .date && validDate s)
  | _ => field.type = .multiSelect || field.type = .relation

/-- The value of a field that is not calculated. -/
def plainInput (inputs : Inputs N) (field : Field N) : Except Stop (Value N) := do
  let value := (inputs.values field.key).getD .null
  refuse (field.type = .select && field.options.isNone) .mistyped
  refuse (!storedInput P field value) (calculationFail .invalidInput)
  pure value

/-- Runs an action and records under `key` what it comes to. -/
def recording (key : String) (action : Memo N (Value N)) : Memo N (Value N) :=
  ExceptT.mk fun results =>
    match action.run results with
    | (.ok value, results) => (.ok value, results.record key (.ok value))
    | (.error (.calculation code), results) =>
        (.error (.calculation code), results.record key (.error code))
    | (.error stop, results) => (.error stop, results)

/-- A calculated field that fails is a failed dependency of the formula that reads it. -/
def asDependency (field : Option (Field N)) (action : Memo N (Value N)) : Memo N (Value N) :=
  tryCatch action fun stop =>
    match stop, field with
    | .calculation _, some field =>
      throw (if field.type.computed then calculationFail .dependencyError else stop)
    | _, _ => throw stop

/-- What a field calculates, or the stored value that it has, with `access` for other fields. -/
def calculate (catalog : Catalog N) (fields : List (Field N)) (inputs : Inputs N)
    (access : String → Memo N (Value N)) (field : Field N) : Memo N (Value N) :=
  match field.type with
  | .formula =>
    evaluate P throw (fun key => asDependency (lookup fields key) (access key)) field.formula
  | .rollup => liftM (m := Except Stop) (rollup P catalog fields inputs field)
  | _ => liftM (m := Except Stop) (plainInput P inputs field)

/-- The value of a field by its key, calculated once. -/
def computed (catalog : Catalog N) (fields : List (Field N)) (inputs : Inputs N) :
    ℕ → String → Memo N (Value N)
  | 0, _ => throw .exhausted
  | fuel + 1, key => do
    match (← get) key with
    | some (.ok value) => pure value
    | some (.error _) => throw (calculationFail .dependencyError)
    | none =>
      match (lookup fields key).filter (!·.archived) with
      | none => throw (calculationFail .unavailableField)
      | some field =>
        recording key (calculate P catalog fields inputs
          (fun key => computed catalog fields inputs fuel key) field)

def computedKeys (fields : List (Field N)) : List String :=
  (fields.filter fun field => !field.archived && field.type.computed).map (·.key)

/-- Calculates one field of the list. A failed calculation is recorded, and no more. -/
def calculateField (catalog : Catalog N) (fields : List (Field N)) (inputs : Inputs N)
    (key : String) : Memo N Unit :=
  tryCatch (do let _ ← computed P catalog fields inputs (fields.length + 1) key) fun stop =>
    match stop with
    | .calculation _ => pure ()
    | stop => throw stop

/-- The result of a calculated field. -/
structure Calculated (N : Type) where
  value : Value N
  error : Option Code
  type : ResultType

def Calculated.of (entry : Except Code (Value N)) (type : ResultType) : Calculated N :=
  match entry with
  | .ok value => ⟨value, none, type⟩
  | .error code => ⟨.null, some code, type⟩

def calculateRecordFields (catalog : Catalog N) (fields : List (Field N)) (inputs : Inputs N) :
    Except Stop (List (String × Calculated N)) := do
  let types ← validateRecordDefinitions P catalog fields
  let (outcome, results) :=
    ((computedKeys fields).forM (calculateField P catalog fields inputs)).run (fun _ => none)
  let _ ← outcome
  (computedKeys fields).mapM fun key => do
    let entry ← found (results key) .mistyped
    let type ← found (typeIn types key) .mistyped
    pure (key, Calculated.of entry type)

end Ashbi.Records

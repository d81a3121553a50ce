import Ashbi.Calendar.Instants
import Ashbi.Js

/-! Record values, and the definitions of the fields that hold them. -/

namespace Ashbi.Records

/-- The numbers of the platform with their arithmetic, and the built-ins on which records rest. -/
structure Platform (N : Type) where
  ofInt : ℤ → N
  add : N → N → N
  sub : N → N → N
  mul : N → N → N
  div : N → N → N
  pow : N → N → N
  /-- `Math.round`. -/
  round : N → N
  /-- `Math.min` and `Math.max` of two numbers. -/
  min : N → N → N
  max : N → N → N
  isFinite : N → Bool
  isInteger : N → Bool
  /-- `===`, and `<`. -/
  equal : N → N → Bool
  less : N → N → Bool
  /-- `String.prototype.toLowerCase`. -/
  toLowerCase : String → String
  /-- The text is an http or https address without credentials. -/
  webAddress : String → Bool
  /-- Whole numbers up to 2^53 are kept, and so are their differences and exact quotients. -/
  finite_ofInt {z : ℤ} : z.natAbs ≤ 2 ^ 53 → isFinite (ofInt z)
  sub_ofInt {x y : ℤ} : x.natAbs ≤ 2 ^ 53 → y.natAbs ≤ 2 ^ 53 → (x - y).natAbs ≤ 2 ^ 53 →
    sub (ofInt x) (ofInt y) = ofInt (x - y)
  div_ofInt {x y : ℤ} : x.natAbs ≤ 2 ^ 53 → y.natAbs ≤ 2 ^ 53 → y ≠ 0 → y ∣ x →
    div (ofInt x) (ofInt y) = ofInt (x / y)
  finite_min {a b : N} : isFinite a → isFinite b → isFinite (min a b)
  finite_max {a b : N} : isFinite a → isFinite b → isFinite (max a b)

/-- A value of the language. -/
inductive Value (N : Type) where
  | undefined
  | null
  | boolean (b : Bool)
  | number (n : N)
  | text (s : String)
  | list (items : List (Value N))
  /-- Any other value: an object, a function, a symbol or a big integer. -/
  | other

inductive FieldType where
  | text | number | boolean | date | url | select | multiSelect | relation | formula | rollup
  deriving DecidableEq, Repr

/-- What the value of a field is in a calculation. -/
inductive ResultType where
  | text | number | boolean | date | multiSelect | relation | list
  deriving DecidableEq, Repr

/-- None for the calculated fields: their results are typed by what they calculate. -/
def scalarType : FieldType → Option ResultType
  | .text | .url | .select => some .text
  | .number => some .number
  | .boolean => some .boolean
  | .date => some .date
  | .multiSelect => some .multiSelect
  | .relation => some .relation
  | .formula | .rollup => none

def FieldType.computed (type : FieldType) : Bool := type = .formula || type = .rollup

inductive Target where
  | task | project | client | person
  deriving DecidableEq, Repr

inductive Aggregate where
  | count | sum | average | min | max | unique
  deriving DecidableEq, Repr

inductive Op where
  | add | subtract | multiply | divide | round | equal | greater | less | and | or | not
  | concat | if | coalesce | daysBetween
  deriving DecidableEq, Repr

/-- The least and the greatest number of arguments. -/
def Op.arity : Op → ℕ × ℕ
  | .add | .multiply | .and | .or | .concat | .coalesce => (2, 8)
  | .subtract | .divide | .equal | .greater | .less | .daysBetween => (2, 2)
  | .round => (1, 2)
  | .not => (1, 1)
  | .if => (3, 3)

inductive Expression (N : Type) where
  | literal (value : Value N)
  | field (key : String)
  | operation (op : Op) (args : List (Expression N))
  /-- Anything else, with the check that it does not pass. -/
  | malformed (message : String)

/-- The definition of a field. The configuration that it does not have is absent. -/
structure Field (N : Type) where
  key : String
  name : String
  type : FieldType
  archived : Bool
  required : Bool
  options : Option (List String)
  collectionId : Option String
  target : Option Target
  expression : Option (Expression N)
  relationKey : Option String
  targetKey : Option String
  /-- Absent also where it is not one of the six. -/
  aggregate : Option Aggregate

/-- The fields of the collections to which relations may lead. -/
abbrev Catalog (N : Type) := String → Option (List (Field N))

/-- A refused request. -/
structure Failure where
  statusCode : ℕ
  message : String
  deriving DecidableEq, Repr

inductive Code where
  | invalidInput | dependencyError | unavailableField | nonFinite | textLimit | divisionByZero
  | roundPrecision | invalidRelation | incompleteRelation | invalidRelatedInput
  deriving DecidableEq, Repr

/-- Why a computation did not come to a value. -/
inductive Stop where
  | failure (f : Failure)
  | calculation (code : Code)
  /-- An operator met arguments of the wrong type: what the language does then is not modelled. -/
  | mistyped
  /-- The recursion was cut off. -/
  | exhausted
  deriving DecidableEq, Repr

def fail (message : String) : Stop := .failure ⟨400, message⟩

/-- The first field of a key. -/
def lookup {N : Type} (fields : List (Field N)) (key : String) : Option (Field N) :=
  fields.find? (·.key = key)

def validDate (text : String) : Bool := (Calendar.parseDate text).isSome

namespace Value

variable {N : Type}

def isNull : Value N → Bool
  | .null => true
  | _ => false

/-- `===` between two scalars. -/
def same (P : Platform N) : Value N → Value N → Bool
  | .undefined, .undefined => true
  | .null, .null => true
  | .boolean a, .boolean b => a = b
  | .number a, .number b => P.equal a b
  | .text a, .text b => a = b
  | _, _ => false

def text? : Value N → Option String
  | .text s => some s
  | _ => none

def number? : Value N → Option N
  | .number n => some n
  | _ => none

def boolean? : Value N → Option Bool
  | .boolean b => some b
  | _ => none

/-- A boolean, a number or a text. -/
def scalar : Value N → Bool
  | .boolean _ | .number _ | .text _ => true
  | _ => false

/-- `[...new Set(values)]`. -/
def unique (P : Platform N) (values : List (Value N)) : List (Value N) :=
  values.foldl (fun seen value => if seen.any (·.same P value) then seen else seen ++ [value]) []

end Value

/-- The value is of the type of a result. -/
def Fits {N : Type} (P : Platform N) : ResultType → Value N → Prop
  | .number, .number n => P.isFinite n
  | .text, .text _ => True
  | .boolean, .boolean _ => True
  | .date, .text s => validDate s
  | .list, .list items =>
      (∀ item ∈ items, item.scalar) ∧ items.Pairwise fun a b => a.same P b = false
  | .multiSelect, _ => True
  | .relation, _ => True
  | _, _ => False

/-! ### Whole numbers -/

/-- Whole numbers, which the platform calculates exactly. -/
def wholeNumbers : Platform ℤ where
  ofInt := id
  add := (· + ·)
  sub := (· - ·)
  mul := (· * ·)
  div := (· / ·)
  pow a b := a ^ b.toNat
  round := id
  min := min
  max := max
  isFinite _ := true
  isInteger _ := true
  equal a b := a = b
  less a b := a < b
  toLowerCase := id
  webAddress _ := false
  finite_ofInt _ := rfl
  sub_ofInt _ _ _ := rfl
  div_ofInt _ _ _ _ := rfl
  finite_min _ _ := rfl
  finite_max _ _ := rfl

def emptyField (key : String) (type : FieldType) : Field ℤ where
  key := key
  name := key
  type := type
  archived := false
  required := false
  options := none
  collectionId := none
  target := none
  expression := none
  relationKey := none
  targetKey := none
  aggregate := none

def amountField : Field ℤ := emptyField "n" .number

/-- A formula that adds to the amount. -/
def sumField (key : String) (summand : ℤ) : Field ℤ :=
  { emptyField key .formula with
    expression := some (.operation .add [.field "n", .literal (.number summand)]) }

end Ashbi.Records

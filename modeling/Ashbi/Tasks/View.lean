import Ashbi.Canonical.Json
import Ashbi.Tasks.Priority

/-! The groups of a task view: its tasks by status, priority, stage or a field of their own. -/

namespace Ashbi.Tasks.View

open Canonical

/-! ### Values -/

mutual

/-- `JSON.stringify`. -/
def stringify : Json → Text
  | .null => ascii "null"
  | .bool true => ascii "true"
  | .bool false => ascii "false"
  | .number value => value.text
  | .string value => quote value
  | .array items => unit '[' :: join (stringifyItems items) ++ [unit ']']
  | .object fields => unit '{' :: join (stringifyFields fields) ++ [unit '}']

def stringifyItems : List Json → List Text
  | [] => []
  | item :: items => stringify item :: stringifyItems items

def stringifyFields : List (Text × Json) → List Text
  | [] => []
  | (key, value) :: fields => entry key (stringify value) :: stringifyFields fields

end

mutual

/-- `String(value)`, where no object has a member `toString` of its own. -/
def display : Json → Text
  | .null => ascii "null"
  | .bool true => ascii "true"
  | .bool false => ascii "false"
  | .number value => value.text
  | .string value => value
  | .array items => join (displayItems items)
  | .object _ => ascii "[object Object]"

def displayItems : List Json → List Text
  | [] => []
  | .null :: items => [] :: displayItems items
  | item :: items => display item :: displayItems items

end

/-- A value of a task, or a function that every object inherits under its name. -/
inductive Value
  | json (j : Json)
  | function (name : Text)

/-- A value that is no list, no object and no function. -/
def isScalar : Value → Bool
  | .json (.array _) => false
  | .json (.object _) => false
  | .json _ => true
  | .function _ => false

/-- The equality of a `Set`; lists and objects that were parsed apart are never the same. -/
def sameValue : Value → Value → Bool
  | .json .null, .json .null => true
  | .json (.bool a), .json (.bool b) => a = b
  | .json (.number a), .json (.number b) => a.text = b.text
  | .json (.string a), .json (.string b) => a = b
  | .function a, .function b => a = b
  | _, _ => false

/-- `new Set(values)`. -/
def unique : List Value → List Value
  | [] => []
  | value :: values => value :: (unique values).filter fun other => !sameValue value other

/-- `item === undefined || item === null || item === ''`. -/
def isMissing : Value → Bool
  | .json .null => true
  | .json (.string []) => true
  | _ => false

/-- The functions of `Object.prototype`. -/
def inheritedFunctions : List Text :=
  ["constructor", "hasOwnProperty", "isPrototypeOf", "propertyIsEnumerable", "toLocaleString",
    "toString", "valueOf", "__defineGetter__", "__defineSetter__", "__lookupGetter__",
    "__lookupSetter__"].map ascii

/-- A member of an object with these entries; `__proto__` is `Object.prototype`. -/
def member (entries : List (Text × Json)) (key : Text) : Option Value :=
  match entries.lookup key with
  | some value => some (.json value)
  | none =>
    if key = ascii "__proto__" then some (.json (.object []))
    else if inheritedFunctions.contains key then some (.function key)
    else none

/-! ### Tasks -/

structure Stage where
  key : Text
  name : Text

inductive FieldType
  | text
  | number
  | boolean
  | date
  | url
  | select
  | multiSelect
  | relation
  deriving DecidableEq

structure Field where
  key : Text
  type : FieldType
  archived : Bool

/-- A record that a relation field names; its `name` may be no string. -/
structure Related where
  id : Text
  name : Option Text

structure Task (β : Type) where
  status : Text
  priority : Text
  stageKey : Option Text
  fieldValues : Option (List (Text × Json))
  fieldRelations : List (Text × Related)
  details : β

inductive Grouping
  | status
  | priority
  | stage
  | field (key : Text)

/-- A group; the key is undefined where a function is grouped by. -/
structure Group (β : Type) where
  key : Option Text
  label : Text
  value : Value
  tasks : List (Task β)

variable {β : Type}

/-- The order of `localeCompare`, how letters are made small, and the text of a function. -/
structure Locale where
  toLowerCase : Text → Text
  sourceText : Text → Text
  le : Text → Text → Bool
  total : ∀ a b, le a b = true ∨ le b a = true
  trans : ∀ {a b c}, le a b = true → le b c = true → le a c = true

/-- The field that the grouping names, unless it is archived. -/
def Grouping.field? (grouping : Grouping) (fields : List Field) : Option Field :=
  match grouping with
  | .field key => fields.find? fun item => item.key = key && !item.archived
  | _ => none

/-- What the task says of the grouping; what is absent is null. -/
def Task.value (task : Task β) (grouping : Grouping) (field : Option Field) : Value :=
  match grouping with
  | .status => .json (.string task.status)
  | .priority => .json (.string task.priority)
  | .stage => .json ((task.stageKey.map .string).getD .null)
  | .field _ =>
    (field.bind fun field => task.fieldValues.bind (member · field.key)).getD (.json .null)

/-- The values under which the task is shown. -/
def Task.items (task : Task β) (grouping : Grouping) (field : Option Field) : List Value :=
  unique <|
    match field.any (·.type = .multiSelect), task.value grouping field with
    | true, .json (.array []) => [.json .null]
    | true, .json (.array values) => values.map .json
    | _, value => [value]

/-- The key of the group of a value; `JSON.stringify` makes nothing of a function. -/
def keyOf (item : Value) : Option Text :=
  if isMissing item then some (ascii "missing")
  else
    match item with
    | .json j => some (stringify j)
    | .function _ => none

/-- `label.replaceAll('_', ' ')`. -/
def spaced (label : Text) : Text := label.map fun u => if u = unit '_' then unit ' ' else u

def labelOf (locale : Locale) (grouping : Grouping) (field : Option Field) (stages : List Stage)
    (task : Task β) (item : Value) : Text :=
  if isMissing item then ascii "Unspecified"
  else
    let label :=
      match item with
      | .json (.bool value) => if value then ascii "Yes" else ascii "No"
      | .json j => display j
      | .function name => locale.sourceText name
    match grouping with
    | .field _ =>
      match field.filter (·.type = .relation) with
      | none => label
      | some field =>
        let related := (task.fieldRelations.lookup field.key).filter fun related =>
          sameValue (.json (.string related.id)) item
        (related.bind (·.name)).getD (ascii "Unavailable related record")
    | .stage =>
      ((stages.find? fun stage => sameValue (.json (.string stage.key)) item).map (·.name)).getD
        (ascii "Unavailable stage")
    | _ => locale.toLowerCase (spaced label)

/-- Adds the task to the group of its key, which may be a new one. -/
def add (groups : List (Group β)) (key : Option Text) (label : Text) (value : Value)
    (task : Task β) : List (Group β) :=
  if groups.any (·.key = key) then
    groups.map fun group =>
      if group.key = key then { group with tasks := group.tasks ++ [task] } else group
  else groups ++ [⟨key, label, value, [task]⟩]

/-- The groups in the order in which they were met. -/
def collect (label : Task β → Value → Text) (items : Task β → List Value) (tasks : List (Task β)) :
    List (Group β) :=
  tasks.foldl (fun groups task => (items task).foldl
    (fun groups item => add groups (keyOf item) (label task item) item task) groups) []

def rank (order : List Text) (group : Group β) : ℕ :=
  match group.value with
  | .json (.string value) => order.idxOf value
  | _ => order.length

/-- Groups of tasks that say nothing come last. -/
def missingLast : Sql.Clause (Group β) where
  le a b := a.key ≠ some (ascii "missing") || b.key = some (ascii "missing")
  total a b := by
    by_cases ha : a.key = some (ascii "missing") <;>
      by_cases hb : b.key = some (ascii "missing") <;>
      simp [ha, hb]
  trans {a b c} hab hbc := by
    by_cases ha : a.key = some (ascii "missing") <;>
      by_cases hb : b.key = some (ascii "missing") <;>
      by_cases hc : c.key = some (ascii "missing") <;> simp_all

def byRank (order : List Text) : Sql.Clause (Group β) where
  le a b := rank order a ≤ rank order b
  total a b := by
    simpa using Nat.le_total (rank order a) (rank order b)
  trans {a b c} hab hbc := by
    simp only [decide_eq_true_eq] at *
    exact Nat.le_trans hab hbc

def byLabel (locale : Locale) : Sql.Clause (Group β) where
  le a b := locale.le a.label b.label
  total a b := locale.total a.label b.label
  trans hab hbc := locale.trans hab hbc

/-- The order of the values that have one. -/
def Grouping.order (grouping : Grouping) (stages : List Stage) : List Text :=
  match grouping with
  | .priority => taskPriorities.map ascii
  | .stage => stages.map (·.key)
  | _ => []

def clauses (locale : Locale) (order : List Text) : List (Sql.Clause (Group β)) :=
  [missingLast, byRank order, byLabel locale]

def groupTaskViewRows (locale : Locale) (tasks : List (Task β)) (grouping : Option Grouping)
    (fields : List Field) (stages : List Stage) : List (Group β) :=
  match grouping with
  | none => [⟨some (ascii "all"), ascii "All tasks", .json .null, tasks⟩]
  | some grouping =>
    let field := grouping.field? fields
    let groups := collect (labelOf locale grouping field stages) (·.items grouping field) tasks
    groups.mergeSort (Sql.le (clauses locale (grouping.order stages)))

/-! ### Keys -/

theorem stringify_scalar {j : Json} (h : isScalar (.json j) = true) :
    stringify j = canonicalJson j := by
  cases j with
  | bool value => cases value <;> rfl
  | array items => cases h
  | object fields => cases h
  | _ => rfl

/-- No value is written like the key of the tasks that say nothing. -/
theorem stringify_ne_missing (j : Json) : stringify j ≠ ascii "missing" := by
  have hhead (u : UInt16) (rest : Text) (hu : u ≠ unit 'm') : u :: rest ≠ ascii "missing" :=
    fun h => hu (List.cons.inj h).1
  cases j with
  | null => exact hhead (unit 'n') _ (by decide)
  | bool value => cases value <;> decide
  | number value =>
    have hdigit : ∀ d < 10, digitUnit d ≠ unit 'm' := by decide
    rw [stringify, Number.text]
    split
    · exact hhead (unit '-') _ (by decide)
    · obtain ⟨d, hd, rest, htext⟩ := Layout.text_head value.layout_proper []
      rw [List.append_nil] at htext
      rw [htext]
      exact hhead _ _ (hdigit d hd)
  | string value => exact hhead (unit '"') _ (by decide)
  | array items => exact hhead (unit '[') _ (by decide)
  | object fields => exact hhead (unit '\x7b') _ (by decide)

theorem keyOf_missing {v : Value} : keyOf v = some (ascii "missing") ↔ isMissing v = true := by
  unfold keyOf
  split
  · simp [*]
  · cases v with
    | json j => simpa [*] using stringify_ne_missing j
    | function name => simp [*]

theorem keyOf_json {j : Json} (h : ¬ isMissing (.json j) = true) :
    keyOf (.json j) = some (stringify j) := by
  rw [keyOf.eq_def, if_neg h]

theorem sameValue_of_same {a b : Json} (ha : isScalar (.json a) = true) (h : Json.Same a b) :
    sameValue (.json a) (.json b) = true := by
  cases h with
  | array => cases ha
  | object => cases ha
  | _ => simp [sameValue]

/-- What a `Set` takes for the same is grouped alike. -/
theorem keyOf_of_sameValue {a b : Value} (h : sameValue a b = true) : keyOf a = keyOf b := by
  cases a with
  | function name =>
    cases b with
    | function name' => rfl
    | json b => cases h
  | json a =>
    cases b with
    | function name => cases a <;> cases h
    | json b =>
      cases a <;> cases b <;> try cases h
      case json.json.bool.bool a b => rw [of_decide_eq_true h]
      case json.json.number.number a b =>
        have htext : a.text = b.text := of_decide_eq_true h
        simp [keyOf, isMissing, stringify, htext]
      case json.json.string.string a b => rw [of_decide_eq_true h]
      all_goals rfl

/-- Two plain values have one key if both are missing or they are the same. -/
theorem keyOf_eq_iff {a b : Value} (ha : isScalar a = true) (hb : isScalar b = true) :
    keyOf a = keyOf b ↔ (isMissing a = true ∧ isMissing b = true) ∨ sameValue a b = true := by
  constructor
  · intro h
    by_cases hmissing : isMissing a = true
    · exact .inl ⟨hmissing, keyOf_missing.mp (h ▸ keyOf_missing.mpr hmissing)⟩
    · have hmissing' : ¬ isMissing b = true := fun hb' =>
        hmissing (keyOf_missing.mp (h.trans (keyOf_missing.mpr hb')))
      cases a with
      | function name => cases ha
      | json a =>
        cases b with
        | function name => cases hb
        | json b =>
          rw [keyOf_json hmissing, keyOf_json hmissing'] at h
          have htext : canonicalJson a = canonicalJson b := by
            rw [← stringify_scalar ha, ← stringify_scalar hb]
            exact Option.some.inj h
          have hends : Ends [] := by simp [Ends]
          exact .inr (sameValue_of_same ha
            (canonicalJson_read a b [] [] hends hends (by rw [htext])).1)
  · rintro (⟨hmissing, hmissing'⟩ | hsame)
    · rw [keyOf.eq_def, keyOf.eq_def, if_pos hmissing, if_pos hmissing']
    · exact keyOf_of_sameValue hsame

theorem unique_pairwise (values : List Value) :
    (unique values).Pairwise fun a b => sameValue a b = false := by
  induction values with
  | nil => exact .nil
  | cons value values ih =>
    refine .cons (fun other hother => ?_) (ih.filter _)
    simpa using (List.mem_filter.mp hother).2

/-- Plain values that are not missing are met once under their key. -/
theorem unique_once {values : List Value} (hscalar : ∀ value ∈ unique values, isScalar value = true)
    {key : Option Text} (hkey : key ≠ some (ascii "missing")) :
    ((unique values).filter (keyOf · = key)).length ≤ 1 := by
  have hpairwise := (unique_pairwise values).filter (keyOf · = key)
  rcases hfiltered : (unique values).filter (keyOf · = key) with _ | ⟨a, _ | ⟨b, rest⟩⟩
  · exact Nat.zero_le 1
  · exact Nat.le_refl 1
  · rw [hfiltered] at hpairwise
    have hmem (c : Value) (hc : c ∈ a :: b :: rest) : isScalar c = true ∧ keyOf c = key := by
      rw [← hfiltered, List.mem_filter] at hc
      exact ⟨hscalar c hc.1, by simpa using hc.2⟩
    obtain ⟨ha, hka⟩ := hmem a (by simp)
    obtain ⟨hb, hkb⟩ := hmem b (by simp)
    have hdiffer : sameValue a b = false := (List.pairwise_cons.mp hpairwise).1 b (by simp)
    rcases (keyOf_eq_iff ha hb).mp (hka.trans hkb.symm) with ⟨hmissing, -⟩ | hsame
    · exact absurd (hka.symm.trans (keyOf_missing.mpr hmissing)) hkey
    · rw [hdiffer] at hsame
      cases hsame

/-! ### Groups -/

/-- What is shown: each task under each of its values. -/
def shown (items : Task β → List Value) (tasks : List (Task β)) : List (Task β × Value) :=
  tasks.flatMap fun task => (items task).map (task, ·)

/-- The groups hold what is shown, each group what has its key, in order. -/
structure Filed (label : Task β → Value → Text) (rows : List (Task β × Value))
    (groups : List (Group β)) : Prop where
  keys : (groups.map Group.key).Nodup
  tasks : ∀ group ∈ groups, group.tasks = (rows.filter (keyOf ·.2 = group.key)).map (·.1)
  placed : ∀ row ∈ rows, ∃ group ∈ groups, group.key = keyOf row.2
  named : ∀ group ∈ groups, ∃ task, (task, group.value) ∈ rows ∧ group.key = keyOf group.value ∧
    group.label = label task group.value

section Filing

variable {label : Task β → Value → Text} {items : Task β → List Value}
    {rows : List (Task β × Value)}
  {groups : List (Group β)}

theorem Filed.nil : Filed label [] ([] : List (Group β)) where
  keys := .nil
  tasks group hgroup := by cases hgroup
  placed row hrow := by cases hrow
  named group hgroup := by cases hgroup

theorem Filed.add_new (h : Filed label rows groups) {task : Task β} {item : Value}
    (hnew : ∀ group ∈ groups, group.key ≠ keyOf item) :
    Filed label (rows ++ [(task, item)])
      (groups ++ [⟨keyOf item, label task item, item, [task]⟩]) := by
  have hnone : rows.filter (keyOf ·.2 = keyOf item) = [] := by
    refine List.filter_eq_nil_iff.mpr fun row hrow => ?_
    obtain ⟨group, hgroup, hkey⟩ := h.placed row hrow
    simpa [← hkey] using hnew group hgroup
  refine ⟨?_, ?_, ?_, ?_⟩
  · rw [List.map_append, List.nodup_append]
    refine ⟨h.keys, by simp, ?_⟩
    intro a ha b hb
    obtain ⟨group, hgroup, rfl⟩ := List.mem_map.mp ha
    obtain rfl : b = keyOf item := by simpa using hb
    exact hnew group hgroup
  · intro group hgroup
    rw [List.filter_append, List.map_append]
    rcases List.mem_append.mp hgroup with hgroup | hgroup
    · have hother : ¬ keyOf item = group.key := fun hkey => hnew group hgroup hkey.symm
      simp [h.tasks group hgroup, hother]
    · obtain rfl := List.mem_singleton.mp hgroup
      simp [hnone]
  · intro row hrow
    rcases List.mem_append.mp hrow with hrow | hrow
    · obtain ⟨group, hgroup, hkey⟩ := h.placed row hrow
      exact ⟨group, List.mem_append_left _ hgroup, hkey⟩
    · obtain rfl := List.mem_singleton.mp hrow
      exact ⟨_, List.mem_append_right _ (List.mem_singleton_self _), rfl⟩
  · intro group hgroup
    rcases List.mem_append.mp hgroup with hgroup | hgroup
    · obtain ⟨task', hmem, hkey, hlabel⟩ := h.named group hgroup
      exact ⟨task', List.mem_append_left _ hmem, hkey, hlabel⟩
    · obtain rfl := List.mem_singleton.mp hgroup
      exact ⟨task, by simp, rfl, rfl⟩

/-- The group with one more task, where it is the group of the key. -/
def Group.with (group : Group β) (key : Option Text) (task : Task β) : Group β :=
  if group.key = key then { group with tasks := group.tasks ++ [task] } else group

@[simp] theorem Group.with_key (group : Group β) (key : Option Text) (task : Task β) :
    (group.with key task).key = group.key := by
  unfold Group.with
  split <;> rfl

@[simp] theorem Group.with_value (group : Group β) (key : Option Text) (task : Task β) :
    (group.with key task).value = group.value := by
  unfold Group.with
  split <;> rfl

@[simp] theorem Group.with_label (group : Group β) (key : Option Text) (task : Task β) :
    (group.with key task).label = group.label := by
  unfold Group.with
  split <;> rfl

theorem Filed.add_known (h : Filed label rows groups) {task : Task β} {item : Value}
    (hknown : ∃ group ∈ groups, group.key = keyOf item) :
    Filed label (rows ++ [(task, item)]) (groups.map (·.with (keyOf item) task)) := by
  refine ⟨?_, ?_, ?_, ?_⟩
  · simpa [List.map_map, Function.comp_def] using h.keys
  · intro group hgroup
    obtain ⟨old, hold, rfl⟩ := List.mem_map.mp hgroup
    rw [List.filter_append, List.map_append, Group.with_key, ← h.tasks old hold]
    by_cases hkey : old.key = keyOf item
    · simp [Group.with, hkey]
    · have hother : ¬ keyOf item = old.key := fun h => hkey h.symm
      simp [Group.with, hkey, hother]
  · intro row hrow
    have hplaced : ∃ group ∈ groups, group.key = keyOf row.2 := by
      rcases List.mem_append.mp hrow with hrow | hrow
      · exact h.placed row hrow
      · obtain rfl := List.mem_singleton.mp hrow
        exact hknown
    obtain ⟨group, hgroup, hkey⟩ := hplaced
    exact ⟨_, List.mem_map_of_mem hgroup, by rw [Group.with_key, hkey]⟩
  · intro group hgroup
    obtain ⟨old, hold, rfl⟩ := List.mem_map.mp hgroup
    obtain ⟨task', hmem, hkey, hlabel⟩ := h.named old hold
    rw [Group.with_key, Group.with_value, Group.with_label]
    exact ⟨task', List.mem_append_left _ hmem, hkey, hlabel⟩

/-- One task under one value. -/
theorem Filed.add (h : Filed label rows groups) (task : Task β) (item : Value) :
    Filed label (rows ++ [(task, item)]) (add groups (keyOf item) (label task item) item task) := by
  unfold View.add
  split
  next hany => exact h.add_known (by simpa using hany)
  next hnone => exact h.add_new (by simpa using hnone)

theorem Filed.addItems (h : Filed label rows groups) (task : Task β) (values : List Value) :
    Filed label (rows ++ values.map (task, ·))
      (values.foldl (fun groups item => View.add groups (keyOf item) (label task item) item task)
        groups) := by
  induction values generalizing rows groups with
  | nil => simpa using h
  | cons value values ih =>
    have hrest := ih (h.add task value)
    rw [List.append_assoc] at hrest
    exact hrest

theorem Filed.addTasks (h : Filed label rows groups) (tasks : List (Task β)) :
    Filed label (rows ++ shown items tasks)
      (tasks.foldl (fun groups task => (items task).foldl
        (fun groups item => View.add groups (keyOf item) (label task item) item task) groups)
        groups) := by
  induction tasks generalizing rows groups with
  | nil => simpa [shown] using h
  | cons task tasks ih =>
    have hrest := ih (h.addItems task (items task))
    rw [List.append_assoc] at hrest
    exact hrest

theorem collect_filed (label : Task β → Value → Text) (items : Task β → List Value)
    (tasks : List (Task β)) : Filed label (shown items tasks) (collect label items tasks) := by
  exact (@Filed.nil _ label).addTasks tasks

theorem Filed.perm {groups' : List (Group β)} (h : Filed label rows groups)
    (hperm : groups'.Perm groups) : Filed label rows groups' where
  keys := (hperm.map _).nodup_iff.mpr h.keys
  tasks group hgroup := h.tasks group (hperm.mem_iff.mp hgroup)
  placed row hrow := by
    obtain ⟨group, hgroup, hkey⟩ := h.placed row hrow
    exact ⟨group, hperm.mem_iff.mpr hgroup, hkey⟩
  named group hgroup := h.named group (hperm.mem_iff.mp hgroup)

end Filing

/-- What a task view shows: its groups have keys of their own and stand in order; each holds the
tasks that have its key, in their order and as often as they have it, and at least one; no value of
a task is left out; a group has the value and the label of a task in it. -/
structure Grouped (label : Task β → Value → Text) (items : Task β → List Value)
    (order : List (Sql.Clause (Group β))) (tasks : List (Task β)) (groups : List (Group β)) :
    Prop where
  keys : (groups.map Group.key).Nodup
  sorted : groups.Pairwise fun a b => Sql.le order a b = true
  holds : ∀ group ∈ groups, group.tasks = tasks.flatMap fun task =>
    ((items task).filter (keyOf · = group.key)).map fun _ => task
  placed : ∀ task ∈ tasks, ∀ item ∈ items task, ∃ group ∈ groups,
    group.key = keyOf item ∧ task ∈ group.tasks
  named : ∀ group ∈ groups, ∃ task ∈ tasks, group.value ∈ items task ∧ task ∈ group.tasks ∧
    group.key = keyOf group.value ∧ group.label = label task group.value

theorem shown_filter (items : Task β → List Value) (tasks : List (Task β)) (key : Option Text) :
    ((shown items tasks).filter (keyOf ·.2 = key)).map (·.1) =
      tasks.flatMap fun task => ((items task).filter (keyOf · = key)).map fun _ => task := by
  induction tasks with
  | nil => rfl
  | cons task tasks ih =>
    have hcons : shown items (task :: tasks) =
        (items task).map (task, ·) ++ shown items tasks := rfl
    rw [hcons, List.filter_append, List.map_append, ih, List.flatMap_cons, List.filter_map,
      List.map_map]
    rfl

theorem mem_shown {items : Task β → List Value} {tasks : List (Task β)} {task : Task β}
    {item : Value} : (task, item) ∈ shown items tasks ↔ task ∈ tasks ∧ item ∈ items task := by
  simp only [shown, List.mem_flatMap, List.mem_map, Prod.mk.injEq]
  constructor
  · rintro ⟨task, htask, item, hitem, rfl, rfl⟩
    exact ⟨htask, hitem⟩
  · rintro ⟨htask, hitem⟩
    exact ⟨task, htask, item, hitem, rfl, rfl⟩

theorem Filed.grouped {label : Task β → Value → Text} {items : Task β → List Value}
    {order : List (Sql.Clause (Group β))} {tasks : List (Task β)} {groups : List (Group β)}
    (h : Filed label (shown items tasks) groups)
    (hsorted : groups.Pairwise fun a b => Sql.le order a b = true) :
    Grouped label items order tasks groups := by
  have hmem {group : Group β} (hgroup : group ∈ groups) {task : Task β} {item : Value}
      (hrow : (task, item) ∈ shown items tasks) (hkey : group.key = keyOf item) :
      task ∈ group.tasks := by
    rw [h.tasks group hgroup]
    exact List.mem_map.mpr ⟨_, List.mem_filter.mpr ⟨hrow, by simp [hkey]⟩, rfl⟩
  refine ⟨h.keys, hsorted, ?_, ?_, ?_⟩
  · intro group hgroup
    rw [h.tasks group hgroup, shown_filter]
  · intro task htask item hitem
    have hrow := mem_shown.mpr ⟨htask, hitem⟩
    obtain ⟨group, hgroup, hkey⟩ := h.placed _ hrow
    exact ⟨group, hgroup, hkey, hmem hgroup hrow hkey⟩
  · intro group hgroup
    obtain ⟨task, hrow, hkey, hlabel⟩ := h.named group hgroup
    obtain ⟨htask, hitem⟩ := mem_shown.mp hrow
    exact ⟨task, htask, hitem, hmem hgroup hrow hkey, hkey, hlabel⟩

/-- However the tasks, fields, stages and the locale are: the groups of a task view hold every task
under every value it has, and a task once under each plain value that is not missing. -/
theorem tasks_grouped (locale : Locale) (tasks : List (Task β)) (grouping : Grouping)
    (fields : List Field) (stages : List Stage) :
    Grouped (labelOf locale grouping (grouping.field? fields) stages)
        (·.items grouping (grouping.field? fields)) (clauses locale (grouping.order stages)) tasks
        (groupTaskViewRows locale tasks (some grouping) fields stages) ∧
      (∀ a b, isScalar a = true → isScalar b = true → (keyOf a = keyOf b ↔
        (isMissing a = true ∧ isMissing b = true) ∨ sameValue a b = true)) ∧
      ∀ (task : Task β) (key : Option Text), key ≠ some (ascii "missing") →
        (∀ item ∈ task.items grouping (grouping.field? fields), isScalar item = true) →
          ((task.items grouping (grouping.field? fields)).filter (keyOf · = key)).length ≤ 1 := by
  refine ⟨?_, fun a b ha hb => keyOf_eq_iff ha hb, fun task key hkey hscalar => ?_⟩
  · have harranged := Sql.arranged_mergeSort (clauses locale (grouping.order stages)) (collect
      (labelOf locale grouping (grouping.field? fields) stages)
      (·.items grouping (grouping.field? fields)) tasks)
    exact ((collect_filed _ _ tasks).perm harranged.perm).grouped harranged.sorted
  · exact unique_once hscalar hkey

/-! ### Three tasks by a field of several choices -/

/-- The order of code units, and letters of ASCII. -/
def sampleLocale : Locale where
  toLowerCase text := text.map fun u => if unit 'A' ≤ u ∧ u ≤ unit 'Z' then u + 32 else u
  sourceText name := ascii "function " ++ name ++ ascii "() \x7b [native code] \x7d"
  le a b := a.map UInt16.toNat ≤ b.map UInt16.toNat
  total a b := by simpa using Std.le_total
  trans hab hbc := by
    simp only [decide_eq_true_eq] at *
    exact le_trans hab hbc

def sampleTask (areas : List String) : Task ℕ where
  status := ascii "PENDING"
  priority := ascii "HIGH"
  stageKey := none
  fieldValues := some [(ascii "area", .array (areas.map fun area => .string (ascii area)))]
  fieldRelations := []
  details := areas.length

def sampleTasks : List (Task ℕ) :=
  [sampleTask [], sampleTask ["web", "app"], sampleTask ["web", "web"]]

def areaField : Field := ⟨ascii "area", .multiSelect, false⟩

theorem tasks_grouped_sample :
    (∃ group ∈ groupTaskViewRows sampleLocale sampleTasks (some (.field (ascii "area")))
        [areaField] [],
      group.key = some (quote (ascii "web")) ∧ group.tasks.map (·.details) = [2, 2]) ∧
    (((sampleTask ["web", "web"]).items (.field (ascii "area")) (some areaField)).filter
      (keyOf · = some (quote (ascii "web")))).length ≤ 1 := by
  obtain ⟨hgrouped, -, honce⟩ :=
    tasks_grouped sampleLocale sampleTasks (.field (ascii "area")) [areaField] []
  constructor
  · have hitem : Value.json (.string (ascii "web")) ∈
        (sampleTask ["web", "app"]).items (.field (ascii "area")) (some areaField) :=
      List.mem_cons_self
    obtain ⟨group, hgroup, hkey, -⟩ :=
      hgrouped.placed (sampleTask ["web", "app"]) (by simp [sampleTasks]) _ hitem
    refine ⟨group, hgroup, hkey, ?_⟩
    rw [hgrouped.holds group hgroup, hkey]
    decide
  · exact honce (sampleTask ["web", "web"]) _ (by decide) (by decide)

end Ashbi.Tasks.View

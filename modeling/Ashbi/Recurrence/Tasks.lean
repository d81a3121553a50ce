import Mathlib.Data.List.Sort
import Ashbi.Checked
import Ashbi.Interleaving.Program
import Ashbi.Js
import Ashbi.Recurrence.Rule

/-! Recurring tasks: the rows, the transactions and the run that generates copies. -/

namespace Ashbi.Recurrence

open Checked Interleaving

/-- The columns of a task that recurrence reads and writes. `boardActive` is a task without a
board or on one that is not archived, `projectActive` one whose project is neither deleted nor
on hold nor cancelled. -/
structure Task (TaskId : Type) where
  id : TaskId
  projectId : String
  boardActive : Bool
  projectActive : Bool
  dueDate : Option ℤ
  recurrenceRule : Option Rule
  recurrenceNextDate : Option ℤ
  recurrenceLastDate : Option ℤ
  recurrenceRevision : ℕ
  recurrenceSourceId : Option TaskId
  recurrenceScheduledDate : Option ℤ
  recurrenceFirstCompletedAt : Option Time
  recurrenceCompletionProcessedAt : Option Time

/-- A saved schedule. -/
def Task.scheduled {TaskId : Type} (task : Task TaskId) (rule : Option Rule) (next : Option ℤ) :
    Task TaskId :=
  { task with
    recurrenceRule := rule
    recurrenceNextDate := next
    recurrenceRevision := task.recurrenceRevision + 1 }

def Task.processedAt {TaskId : Type} (task : Task TaskId) (now : Time) : Task TaskId :=
  { task with recurrenceCompletionProcessedAt := some now }

/-- A claimed date moves the schedule on. -/
def Task.advanced {TaskId : Type} (task : Task TaskId) (scheduledDate next : ℤ) : Task TaskId :=
  { task with recurrenceNextDate := some next, recurrenceLastDate := some scheduledDate }

/-- A task whose board or project is archived or restored. -/
def Task.placed {TaskId : Type} (task : Task TaskId) (boardActive projectActive : Bool) :
    Task TaskId :=
  { task with boardActive := boardActive, projectActive := projectActive }

structure State (TaskId : Type) where
  tasks : List (Task TaskId)

structure Failure where
  statusCode : ℕ
  message : String

/-- `dateInZone`, the calendar day of an instant in a time zone. -/
abbrev Zones := Time → String → ℤ

section Transactions

variable {TaskId : Type} [DecidableEq TaskId]

def State.task (s : State TaskId) (id : TaskId) : Option (Task TaskId) :=
  s.tasks.find? (·.id = id)

/-- Writes the rows that a condition selects. -/
def State.updateMany (s : State TaskId) (selects : Task TaskId → Bool)
    (write : Task TaskId → Task TaskId) : State TaskId :=
  ⟨s.tasks.map fun task => if selects task then write task else task⟩

structure SaveInput where
  rule : Option Rule
  revision : ℕ
  projectId : Option String

def Rule.afterCompletion (rule : Rule) : Bool := rule.trigger = some .afterCompletion

/-- The next date of a saved calendar rule. -/
def nextDate (zones : Zones) (rule : Option Rule) (lastDate : Option ℤ) (now : Time) : Option ℤ :=
  match rule with
  | none => none
  | some rule =>
    if rule.afterCompletion then none
    else
      let next := firstRecurrenceOnOrAfter rule (zones now rule.timeZone)
      match lastDate with
      | none => some next
      | some last => if next ≤ last then some (recurrenceAfter rule last) else some next

omit [DecidableEq TaskId] in
/-- What a save checks of the task that it has found. The answer is the next date, and whether the
save turns the repeats after completion on. -/
def checkSave (zones : Zones) (task : Task TaskId) (input : SaveInput) (now : Time) :
    Except Failure (Option ℤ × Bool) := do
  refuse task.recurrenceSourceId.isSome
    ⟨400, "Change the schedule on the original recurring task."⟩
  refuse (task.recurrenceRevision ≠ input.revision)
    ⟨409, "Recurrence changed since you opened it. Reload and try again."⟩
  pure (nextDate zones input.rule task.recurrenceLastDate now,
    input.rule.any (·.afterCompletion) && !task.recurrenceRule.any (·.afterCompletion))

omit [DecidableEq TaskId] in
theorem checkSave_ok {zones : Zones} {task : Task TaskId} {input : SaveInput} {now : Time}
    {answer : Option ℤ × Bool} : checkSave zones task input now = .ok answer ↔
      task.recurrenceSourceId.isSome = false ∧ task.recurrenceRevision = input.revision ∧
        (nextDate zones input.rule task.recurrenceLastDate now,
          input.rule.any (·.afterCompletion) && !task.recurrenceRule.any (·.afterCompletion)) =
          answer := by
  unfold checkSave
  simp only [bind_ok, refuse_ok, pure_ok, decide_eq_false_iff_not, ne_eq, Decidable.not_not,
    exists_const]

def saveTaskRecurrence (zones : Zones) (s : State TaskId) (id : TaskId) (input : SaveInput)
    (now : Time) : Except Failure (State TaskId) := do
  let task ← found
    (s.tasks.find? fun task => task.id = id && input.projectId.all (· = task.projectId))
    ⟨404, "Task not found"⟩
  let (next, turnsOn) ← checkSave zones task input now
  let saved := s.updateMany (·.id = id) (·.scheduled input.rule next)
  if turnsOn then
    pure (saved.updateMany
      (fun task => (task.id = id || task.recurrenceSourceId = some id) &&
        task.recurrenceFirstCompletedAt.isSome && task.recurrenceCompletionProcessedAt.isNone)
      (·.processedAt now))
  else pure saved

/-- What the transaction of a claim comes to; `failed` is an error that rolls it back. -/
inductive Claimed
  | generated | skipped | failed
  deriving DecidableEq

/-- `copyRecurringTask` of the claimed date. -/
def copyRecurringTask (live : Task TaskId) (newId : TaskId) (scheduledDate : ℤ) : Task TaskId where
  id := newId
  projectId := live.projectId
  boardActive := live.boardActive
  projectActive := live.projectActive
  dueDate := some scheduledDate
  recurrenceRule := none
  recurrenceNextDate := none
  recurrenceLastDate := none
  recurrenceRevision := 0
  recurrenceSourceId := some live.id
  recurrenceScheduledDate := some scheduledDate
  recurrenceFirstCompletedAt := none
  recurrenceCompletionProcessedAt := none

/-- The claim, the copy and the advance in one transaction; ids are unique, and so are the
scheduled dates of one source. -/
def claimOccurrence (s : State TaskId) (source : Task TaskId) (scheduledDate next : ℤ)
    (newId : TaskId) : Claimed × State TaskId :=
  match s.tasks.find? fun task => task.id = source.id && task.boardActive && task.projectActive with
  | none => (.skipped, s)
  | some live =>
    if live.recurrenceNextDate = some scheduledDate &&
        live.recurrenceRevision = source.recurrenceRevision then
      if (s.task newId).isSome || s.tasks.any fun task =>
          task.recurrenceSourceId = some source.id &&
            task.recurrenceScheduledDate = some scheduledDate then (.failed, s)
      else
        let advanced := s.updateMany (·.id = source.id) (·.advanced scheduledDate next)
        (.generated, ⟨advanced.tasks ++ [copyRecurringTask live newId scheduledDate]⟩)
    else (.skipped, s)

end Transactions

section Machine

variable {TaskId : Type} [LinearOrder TaskId]

/-- The statements; `activity` is any request that archives or restores a board or a project. -/
inductive Stmt (TaskId : Type) : Type → Type
  | findSources (after : Option TaskId) : Stmt TaskId (List (Task TaskId))
  | claim (source : Task TaskId) (scheduledDate next : ℤ) : Stmt TaskId Claimed
  | save (id : TaskId) (input : SaveInput) (now : Time) : Stmt TaskId (Except Failure Unit)
  | activity (id : TaskId) (boardActive projectActive : Bool) : Stmt TaskId Unit

def findSources (s : State TaskId) (after : Option TaskId) : List (Task TaskId) :=
  ((s.tasks.filter fun task =>
    task.boardActive && task.recurrenceNextDate.isSome && task.projectActive &&
      after.all (· < task.id)).insertionSort (·.id ≤ ·.id)).take 100

/-- The choice is the id of a new row. -/
def exec (zones : Zones) {β : Type} (st : Stmt TaskId β) (newId : TaskId) (s : State TaskId) :
    β × State TaskId :=
  match st with
  | .findSources after => (findSources s after, s)
  | .claim source scheduledDate next => claimOccurrence s source scheduledDate next newId
  | .save id input now =>
    match saveTaskRecurrence zones s id input now with
    | .error failure => (.error failure, s)
    | .ok s' => (.ok (), s')
  | .activity id boardActive projectActive =>
    ((), s.updateMany (·.id = id) (·.placed boardActive projectActive))

abbrev machine (TaskId : Type) [LinearOrder TaskId] (zones : Zones) : Machine where
  Stmt := Stmt TaskId
  Choice := TaskId
  State := State TaskId
  enabled := fun _ _ _ => true
  exec := fun _ st newId s => exec zones st newId s

structure Totals (TaskId : Type) where
  examined : ℕ
  generated : ℕ
  failures : List TaskId

/-- One source of a page. -/
def processSource (zones : Zones) (now : Time) (totals : Totals TaskId) (source : Task TaskId) :
    Prog (Stmt TaskId) (Totals TaskId) :=
  let totals := { totals with examined := totals.examined + 1 }
  match source.recurrenceRule with
  | none => pure { totals with failures := totals.failures ++ [source.id] }
  | some rule =>
    if rule.afterCompletion then pure totals
    else
      let today := zones now rule.timeZone
      let scheduledDate := source.recurrenceNextDate.getD 0
      if today < scheduledDate then pure totals
      else do
        match ← .stmt (.claim source scheduledDate (recurrenceAfter rule today)) with
        | .generated => pure { totals with generated := totals.generated + 1 }
        | .skipped => pure totals
        | .failed => pure { totals with failures := totals.failures ++ [source.id] }

/-- The loop over the pages of sources; `pages` is how many are read at most. -/
def processPages (zones : Zones) (now : Time) :
    ℕ → Option TaskId → Totals TaskId → Prog (Stmt TaskId) (Totals TaskId)
  | 0, _, totals => pure totals
  | pages + 1, after, totals => do
    let sources ← .stmt (.findSources after)
    let totals ← sources.foldlM (processSource zones now) totals
    if sources.length < 100 then pure totals
    else processPages zones now pages (sources.getLast?.map (·.id)) totals

/-- `processRecurringTasks`; a run with failures throws them after its last source. -/
def processRecurringTasks (zones : Zones) (now : Time) (pages : ℕ) :
    Prog (Stmt TaskId) (Except (List TaskId) (ℕ × ℕ)) := do
  let totals ← processPages zones now pages none ⟨0, 0, []⟩
  if totals.failures.isEmpty then pure (.ok (totals.examined, totals.generated))
  else pure (.error totals.failures)

/-- Runs at any time, of any length, and requests for any task. -/
inductive Deployed (zones : Zones) : Prog (Stmt TaskId) Unit → Prop
  | process (now) (pages) :
      Deployed zones ((processRecurringTasks zones now pages).bind fun _ => .ret ())
  | save (id) (input) (now) : Deployed zones
    ((Prog.stmt (.save id input now)).bind fun _ => .ret ())
  | activity (id) (boardActive) (projectActive) :
      Deployed zones (.stmt (.activity id boardActive projectActive))

end Machine

end Ashbi.Recurrence

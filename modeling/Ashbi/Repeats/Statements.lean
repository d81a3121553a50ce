import Ashbi.Keyed.Rows
import Ashbi.Recurrence.Tasks

/-! Tasks that are repeated when they are first completed: the rows, the trigger, the
transactions and the run that copies completions. -/

namespace Ashbi.Repeats

open Checked Interleaving
open Recurrence (Rule Zones SaveInput Failure Claimed checkSave completionRepeatDate)

inductive Status
  | pending | inProgress | completed | blocked
  deriving DecidableEq

/-- A task with the columns of its completion. -/
structure Row (TaskId : Type) extends Recurrence.Task TaskId where
  status : Status
  completedAt : Option Time
  deletedAt : Option Time
  recurrenceCompletionSourceId : Option TaskId

/-- `issued` are the ids of all rows so far: `cuid()` draws none again, also after a purge. -/
structure Db (TaskId : Type) where
  tasks : List (Row TaskId)
  issued : List TaskId

section Rows

variable {TaskId : Type}

def Row.active (row : Row TaskId) : Bool :=
  row.boardActive && row.deletedAt.isNone && row.projectActive

/-- A row of a root: the original task or one of its copies. -/
def Row.of [DecidableEq TaskId] (row : Row TaskId) (source : TaskId) : Bool :=
  row.id = source || row.recurrenceSourceId = some source

def Row.scheduled (row : Row TaskId) (rule : Option Rule) (next : Option ℤ) : Row TaskId :=
  { row with toTask := row.toTask.scheduled rule next }

def Row.processedAt (row : Row TaskId) (now : Time) : Row TaskId :=
  { row with toTask := row.toTask.processedAt now }

def Row.advanced (row : Row TaskId) (scheduledDate next : ℤ) : Row TaskId :=
  { row with toTask := row.toTask.advanced scheduledDate next }

/-- A row whose board or project is archived or restored, or that goes to the trash and back. -/
def Row.placed (row : Row TaskId) (boardActive projectActive : Bool) (deletedAt : Option Time) :
    Row TaskId :=
  { row with toTask := row.toTask.placed boardActive projectActive, deletedAt := deletedAt }

/-- The trigger before an insert or an update of the status; `stamp` is the one that an updated
row has already. -/
def firstCompletionStamp (stamp : Option Time) (row : Row TaskId) (now : Time) : Row TaskId :=
  let row :=
    match stamp with
    | some first => { row with recurrenceFirstCompletedAt := some first }
    | none =>
      if row.status = .completed then
        let first := row.completedAt.getD now
        { row with
          recurrenceFirstCompletedAt := some first
          completedAt := some (row.completedAt.getD first) }
      else { row with recurrenceFirstCompletedAt := none }
  if row.status = .completed then { row with completedAt := some (row.completedAt.getD now) }
  else row

/-- An update of the status; `completedAt` is `none` where it is not written. -/
def Row.changed (row : Row TaskId) (status : Status) (completedAt : Option (Option Time))
    (now : Time) : Row TaskId :=
  firstCompletionStamp row.recurrenceFirstCompletedAt
    { row with status := status, completedAt := completedAt.getD row.completedAt } now

/-- A task that is created by a request. -/
def createdTask (newId : TaskId) (projectId : String) (status : Status)
    (completedAt : Option Time) (now : Time) : Row TaskId :=
  firstCompletionStamp none
    { id := newId
      projectId := projectId
      boardActive := true
      projectActive := true
      dueDate := none
      recurrenceRule := none
      recurrenceNextDate := none
      recurrenceLastDate := none
      recurrenceRevision := 0
      recurrenceSourceId := none
      recurrenceScheduledDate := none
      recurrenceFirstCompletedAt := none
      recurrenceCompletionProcessedAt := none
      status := status
      completedAt := completedAt
      deletedAt := none
      recurrenceCompletionSourceId := none } now

/-- What a copy is created with besides the columns of the task it copies. -/
structure Origin (TaskId : Type) where
  dueDate : ℤ
  recurrenceSourceId : TaskId
  recurrenceScheduledDate : Option ℤ
  recurrenceCompletionSourceId : Option TaskId

def copyRecurringTask (live : Row TaskId) (newId : TaskId) (recurrence : Origin TaskId)
    (now : Time) : Row TaskId :=
  firstCompletionStamp none
    { id := newId
      projectId := live.projectId
      boardActive := live.boardActive
      projectActive := live.projectActive
      dueDate := some recurrence.dueDate
      recurrenceRule := none
      recurrenceNextDate := none
      recurrenceLastDate := none
      recurrenceRevision := 0
      recurrenceSourceId := some recurrence.recurrenceSourceId
      recurrenceScheduledDate := recurrence.recurrenceScheduledDate
      recurrenceFirstCompletedAt := none
      recurrenceCompletionProcessedAt := none
      status := .pending
      completedAt := none
      deletedAt := none
      recurrenceCompletionSourceId := recurrence.recurrenceCompletionSourceId } now

end Rows

section Transactions

variable {TaskId : Type} [DecidableEq TaskId]

def Db.task (db : Db TaskId) (id : TaskId) : Option (Row TaskId) := Keyed.find (·.id) db.tasks id

def Db.count (db : Db TaskId) (selects : Row TaskId → Bool) : ℕ := db.tasks.countP selects

def Db.updateMany (db : Db TaskId) (selects : Row TaskId → Bool)
    (write : Row TaskId → Row TaskId) : Db TaskId :=
  { db with tasks := db.tasks.map fun row => if selects row then write row else row }

def Db.insert (db : Db TaskId) (row : Row TaskId) : Db TaskId :=
  { tasks := db.tasks ++ [row], issued := db.issued ++ [row.id] }

def saveTaskRecurrence (zones : Zones) (db : Db TaskId) (id : TaskId) (input : SaveInput)
    (now : Time) : Except Failure (Db TaskId) := do
  let task ← found
    (db.tasks.find? fun task => task.id = id &&
      (task.deletedAt.isNone && input.projectId.all (· = task.projectId)))
    ⟨404, "Task not found"⟩
  let (next, turnsOn) ← checkSave zones task.toTask input now
  let saved := db.updateMany (·.id = id) (·.scheduled input.rule next)
  if turnsOn then
    pure (saved.updateMany
      (fun row => row.of id && (row.recurrenceFirstCompletedAt.isSome &&
        row.recurrenceCompletionProcessedAt.isNone))
      (·.processedAt now))
  else pure saved

/-- The claim of a scheduled date, with its copy. -/
def claimOccurrence (db : Db TaskId) (source : Row TaskId) (scheduledDate next : ℤ)
    (newId : TaskId) (now : Time) : Claimed × Db TaskId :=
  match db.tasks.find? fun task => task.id = source.id && task.active with
  | none => (.skipped, db)
  | some live =>
    if live.recurrenceNextDate = some scheduledDate &&
        live.recurrenceRevision = source.recurrenceRevision then
      if newId ∈ db.issued || db.tasks.any fun task =>
          task.recurrenceSourceId = some source.id &&
            task.recurrenceScheduledDate = some scheduledDate then (.failed, db)
      else
        let advanced := db.updateMany (·.id = source.id) (·.advanced scheduledDate next)
        (.generated,
          advanced.insert
            (copyRecurringTask live newId ⟨scheduledDate, source.id, some scheduledDate, none⟩ now))
    else (.skipped, db)

/-- The rows that the claim of a completion writes. -/
def Row.claimable (row : Row TaskId) (id : TaskId) : Bool :=
  row.id = id && (row.status = .completed && row.recurrenceCompletionProcessedAt.isNone)

/-- The claim of one completed task, with its copy. The original is written at the revision that
was read, with no change; the completion sources are unique. -/
def claimCompletion (zones : Zones) (db : Db TaskId) (source candidate : TaskId) (now : Time)
    (newId : TaskId) : Claimed × Db TaskId :=
  match db.tasks.find? fun task => task.id = candidate && (task.active && (task.of source &&
      (task.status = .completed && task.recurrenceCompletionProcessedAt.isNone))) with
  | none => (.skipped, db)
  | some live =>
    match live.recurrenceFirstCompletedAt with
    | none => (.skipped, db)
    | some firstCompletedAt =>
      match db.tasks.find? fun task => task.id = source &&
          (task.active && task.projectId = live.projectId) with
      | none => (.skipped, db)
      | some root =>
        match root.recurrenceRule with
        | none => (.skipped, db)
        | some rule =>
          if !rule.afterCompletion || root.recurrenceSourceId.isSome then (.skipped, db)
          else if db.count (fun row => row.id = root.id &&
              (row.recurrenceRevision = root.recurrenceRevision &&
                row.recurrenceRule.any (·.afterCompletion))) ≠ 1 then (.skipped, db)
          else if db.count (·.claimable live.id) ≠ 1 then (.skipped, db)
          else if newId ∈ db.issued ||
              db.tasks.any fun task => task.recurrenceCompletionSourceId = some live.id then
            (.failed, db)
          else
            let claimed := db.updateMany (·.claimable live.id) (·.processedAt now)
            (.generated,
              claimed.insert (copyRecurringTask live newId
                ⟨completionRepeatDate zones rule firstCompletedAt, root.id, none, some live.id⟩
                now))

end Transactions

section Machine

variable {TaskId : Type} [LinearOrder TaskId]

/-- The statements: the reads and transactions of the runs, and the requests for any task.
`purge` removes rows for good. -/
inductive Stmt (TaskId : Type) : Type → Type
  | findRoots (after : Option TaskId) : Stmt TaskId (List TaskId)
  | findCompleted (source : TaskId) (after : Option TaskId) : Stmt TaskId (List TaskId)
  | claimCompletion (source candidate : TaskId) (now : Time) : Stmt TaskId Claimed
  | claimOccurrence (source : Row TaskId) (scheduledDate next : ℤ) (now : Time) :
      Stmt TaskId Claimed
  | save (id : TaskId) (input : SaveInput) (now : Time) : Stmt TaskId (Except Failure Unit)
  | change (id : TaskId) (status : Status) (completedAt : Option (Option Time)) (now : Time) :
      Stmt TaskId Unit
  | create (projectId : String) (status : Status) (completedAt : Option Time) (now : Time) :
      Stmt TaskId Unit
  | place (id : TaskId) (boardActive projectActive : Bool) (deletedAt : Option Time) :
      Stmt TaskId Unit
  | purge (ids : List TaskId) : Stmt TaskId Unit

/-- A page of at most 100 tasks behind a cursor, in the order of their ids. -/
def page (rows : List (Row TaskId)) (after : Option TaskId) : List TaskId :=
  (((rows.map (·.id)).filter fun id => after.all (· < id)).insertionSort (· ≤ ·)).take 100

def findRoots (db : Db TaskId) (after : Option TaskId) : List TaskId :=
  page (db.tasks.filter fun task => task.active && (task.recurrenceSourceId.isNone &&
    task.recurrenceRule.any (·.afterCompletion))) after

def findCompleted (db : Db TaskId) (source : TaskId) (after : Option TaskId) : List TaskId :=
  page (db.tasks.filter fun task => task.active && (task.of source &&
    (task.status = .completed && (task.recurrenceFirstCompletedAt.isSome &&
      task.recurrenceCompletionProcessedAt.isNone)))) after

/-- The id of a new row, and whether a serializable transaction is rolled back. -/
structure Choice (TaskId : Type) where
  newId : TaskId
  conflict : Bool

def conflicted : Failure := ⟨409, "Recurrence changed while saving. Reload and try again."⟩

def exec (zones : Zones) {β : Type} (st : Stmt TaskId β) (choice : Choice TaskId)
    (db : Db TaskId) : β × Db TaskId :=
  match st with
  | .findRoots after => (findRoots db after, db)
  | .findCompleted source after => (findCompleted db source after, db)
  | .claimCompletion source candidate now =>
    if choice.conflict then (.failed, db)
    else claimCompletion zones db source candidate now choice.newId
  | .claimOccurrence source scheduledDate next now =>
    if choice.conflict then (.failed, db)
    else claimOccurrence db source scheduledDate next choice.newId now
  | .save id input now =>
    if choice.conflict then (.error conflicted, db)
    else
      match saveTaskRecurrence zones db id input now with
      | .error failure => (.error failure, db)
      | .ok saved => (.ok (), saved)
  | .change id status completedAt now =>
    ((), db.updateMany (·.id = id) (·.changed status completedAt now))
  | .create projectId status completedAt now =>
    ((), if choice.newId ∈ db.issued then db
      else db.insert (createdTask choice.newId projectId status completedAt now))
  | .place id boardActive projectActive deletedAt =>
    ((), db.updateMany (·.id = id) (·.placed boardActive projectActive deletedAt))
  | .purge ids => ((), { db with tasks := db.tasks.filter fun row => row.id ∉ ids })

abbrev machine (TaskId : Type) [LinearOrder TaskId] (zones : Zones) : Machine where
  Stmt := Stmt TaskId
  Choice := Choice TaskId
  State := Db TaskId
  enabled := fun _ _ _ => true
  exec := fun _ st choice db => exec zones st choice db

structure Totals (TaskId : Type) where
  examined : ℕ
  generated : ℕ
  failures : List TaskId

def processCandidate (now : Time) (source : TaskId) (totals : Totals TaskId)
    (candidate : TaskId) : Prog (Stmt TaskId) (Totals TaskId) := do
  let totals := { totals with examined := totals.examined + 1 }
  match ← .stmt (.claimCompletion source candidate now) with
  | .generated => pure { totals with generated := totals.generated + 1 }
  | .skipped => pure totals
  | .failed => pure { totals with failures := totals.failures ++ [candidate] }

/-- The pages of completed tasks of one root; `pages` is how many are read at most. -/
def processCompleted (now : Time) (source : TaskId) :
    ℕ → Option TaskId → Totals TaskId → Prog (Stmt TaskId) (Totals TaskId)
  | 0, _, totals => pure totals
  | pages + 1, after, totals => do
    let completed ← .stmt (.findCompleted source after)
    let totals ← completed.foldlM (processCandidate now source) totals
    if completed.length < 100 then pure totals
    else processCompleted now source pages completed.getLast? totals

def processRoots (now : Time) (pages : ℕ) :
    ℕ → Option TaskId → Totals TaskId → Prog (Stmt TaskId) (Totals TaskId)
  | 0, _, totals => pure totals
  | rounds + 1, after, totals => do
    let roots ← .stmt (.findRoots after)
    let totals ← roots.foldlM (fun totals source => processCompleted now source pages none totals)
      totals
    if roots.length < 100 then pure totals
    else processRoots now pages rounds roots.getLast? totals

/-- A run with failures throws them after its last task. -/
def processCompletionRepeats (now : Time) (pages : ℕ) :
    Prog (Stmt TaskId) (Except (List TaskId) (ℕ × ℕ)) := do
  let totals ← processRoots now pages pages none ⟨0, 0, []⟩
  if totals.failures.isEmpty then pure (.ok (totals.examined, totals.generated))
  else pure (.error totals.failures)

/-- Runs of any length, and requests for any task, at any time. -/
inductive Deployed : Prog (Stmt TaskId) Unit → Prop
  | process (now) (pages) :
      Deployed ((processCompletionRepeats now pages).bind fun _ => .ret ())
  | occurrence (source) (scheduledDate) (next) (now) :
      Deployed ((Prog.stmt (.claimOccurrence source scheduledDate next now)).bind fun _ => .ret ())
  | save (id) (input) (now) : Deployed ((Prog.stmt (.save id input now)).bind fun _ => .ret ())
  | change (id) (status) (completedAt) (now) : Deployed (.stmt (.change id status completedAt now))
  | create (projectId) (status) (completedAt) (now) :
      Deployed (.stmt (.create projectId status completedAt now))
  | place (id) (boardActive) (projectActive) (deletedAt) :
      Deployed (.stmt (.place id boardActive projectActive deletedAt))
  | purge (ids) : Deployed (.stmt (.purge ids))

end Machine

end Ashbi.Repeats

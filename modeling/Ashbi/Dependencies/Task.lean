import Ashbi.Checked
import Ashbi.Js
import Ashbi.Pages.Page

/-! Tasks that depend on other tasks: the requests that change, trash and restore them. -/

namespace Ashbi.Dependencies

open Checked
open Pages (Id Role Actor Failure)

inductive Status
  | pending | upcoming | immediate | inProgress | blocked | waitingUs | waitingClient | completed
  deriving DecidableEq

inductive Priority
  | critical | high | normal | low
  deriving DecidableEq

structure User where
  id : Id
  organizationId : Id
  deriving DecidableEq

/-- A row; `organizationId` is that of its project and of the project's client. -/
structure Task where
  id : Id
  organizationId : Id
  title : String
  description : Option String
  status : Status
  priority : Priority
  category : String
  estimatedTime : Option ℕ
  startDate : Option Time
  dueDate : Option Time
  assigneeId : Option Id
  blockedBy : Option String
  dependsOnId : Option Id
  deletedAt : Option Time
  deriving DecidableEq

def Task.active (task : Task) : Bool := task.deletedAt.isNone

/-- A ledger row of a task in the trash. -/
structure TrashedItem where
  id : Id
  recordId : Id
  organizationId : Id
  restoredAt : Option Time
  deriving DecidableEq

structure State where
  users : List User
  tasks : List Task
  trashedItems : List TrashedItem
  deriving DecidableEq

/-- A read of the scoped client, which hides what is in the trash. -/
def State.findTask (s : State) (id organizationId : Id) : Option Task :=
  s.tasks.find? fun task => task.id = id && task.organizationId = organizationId && task.active

def State.update (s : State) (id : Id) (change : Task → Task) : State :=
  { s with tasks := s.tasks.map fun task => if task.id = id then change task else task }

/-- `taskReferenceProblem`; the proxy checks the references of a write by the same reads. -/
def taskReferenceProblem (s : State) (assigneeId dependsOnId : Option Id) (actor : Actor) :
    Except Failure Unit := do
  refuse (assigneeId.any fun id =>
      !s.users.any fun user => user.id = id && user.organizationId = actor.organizationId)
    (.fail 400 "Assignee not found in this workspace")
  refuse (dependsOnId.any fun id => (s.findTask id actor.organizationId).isNone)
    (.fail 400 "Dependency task not found")

/-- The scoped update of a row that the request may see. -/
def scopedUpdate (s : State) (id : Id) (change : Task → Task) (actor : Actor) :
    Except Failure State := do
  let _ ← found (s.findTask id actor.organizationId)
    (.fail 404 "Tenancy Error: task record is unavailable in this organization")
  pure (s.update id change)

/-! ### `PUT /tasks/:id` -/

/-- A field that the request leaves out is `none`. -/
structure UpdateBody where
  title : Option String := none
  description : Option String := none
  status : Option Status := none
  priority : Option Priority := none
  category : Option String := none
  estimatedTime : Option ℕ := none
  startDate : Option (Option Time) := none
  dueDate : Option (Option Time) := none
  assigneeId : Option (Option Id) := none
  blockedBy : Option (Option String) := none
  dependsOnId : Option (Option Id) := none
  deriving DecidableEq

def cuidId (id : Id) : Bool := 1 ≤ Js.length id && Js.length id ≤ 50

/-- `validateBody(updateTaskSchema)`, which hands on only the fields that the schema names. -/
def updateTaskSchema (body : UpdateBody) : Except Failure UpdateBody := do
  refuse (body.title.any fun title => Js.length title < 1 || 500 < Js.length title)
    (.fail 400 "title: String must contain between 1 and 500 characters")
  refuse (body.description.any fun description => 10000 < Js.length description)
    (.fail 400 "description: String must contain at most 10000 character(s)")
  refuse (body.category.any fun category => 50 < Js.length category)
    (.fail 400 "category: String must contain at most 50 character(s)")
  refuse (body.assigneeId.join.any fun id => !cuidId id)
    (.fail 400 "assigneeId: String must contain between 1 and 50 characters")
  pure { body with
    estimatedTime := none, startDate := none, blockedBy := none, dependsOnId := none }

/-- The row with the fields of the body; an empty title or category is not one. -/
def UpdateBody.write (body : UpdateBody) (task : Task) : Task :=
  { task with
    title := (Js.truthy body.title).getD task.title
    description := body.description.or task.description
    status := body.status.getD task.status
    priority := body.priority.getD task.priority
    category := (Js.truthy body.category).getD task.category
    estimatedTime := body.estimatedTime.or task.estimatedTime
    startDate := body.startDate.getD task.startDate
    dueDate := body.dueDate.getD task.dueDate
    assigneeId := body.assigneeId.getD task.assigneeId
    blockedBy := body.blockedBy.getD task.blockedBy
    dependsOnId := (body.dependsOnId.map Js.truthy).getD task.dependsOnId }

def putTask (s : State) (id : Id) (request : UpdateBody) (actor : Actor) :
    Except Failure State := do
  let body ← updateTaskSchema request
  taskReferenceProblem s body.assigneeId.join (body.dependsOnId.bind Js.truthy) actor
  scopedUpdate s id body.write actor

/-! ### `PUT /tasks/:id/dependency` -/

theorem findTask_id {s : State} {id organizationId : Id} {task : Task}
    (h : s.findTask id organizationId = some task) :
    task.id = id ∧ task.organizationId = organizationId ∧ task.active = true := by
  have hfind := List.find?_some h
  simpa [and_assoc] using hfind

theorem findTask_mem {s : State} {id organizationId : Id} {task : Task}
    (h : s.findTask id organizationId = some task) : task ∈ s.tasks :=
  List.mem_of_find?_eq_some h

/-- The tasks that a walk has not met yet. -/
def State.unvisited (s : State) (visited : List Id) : List Task :=
  s.tasks.filter fun task => !visited.contains task.id

theorem unvisited_lt {s : State} {visited : List Id} {id organizationId : Id} {task : Task}
    (hnew : visited.contains id = false) (h : s.findTask id organizationId = some task) :
    (s.unvisited (id :: visited)).length < (s.unvisited visited).length := by
  have hmem : task ∈ s.unvisited visited :=
    List.mem_filter.mpr ⟨findTask_mem h, by simpa [(findTask_id h).1] using hnew⟩
  have hsub : s.unvisited (id :: visited) =
      (s.unvisited visited).filter (fun task => !decide (task.id = id)) := by
    simp only [State.unvisited, List.filter_filter]
    congr 1
    funext row
    simp
  rw [hsub, List.length_filter_lt_length_iff_exists]
  exact ⟨task, hmem, by simp [(findTask_id h).1]⟩

/-- The loop over the dependencies of a task, which stops at one that it cannot see. -/
def dependencyUpwards (s : State) (organizationId : Id) (visited : List Id) (currentId : Id) :
    Except Failure Unit :=
  if visited.contains currentId then
    .error (.fail 400 "Circular dependency detected")
  else
    match _ : s.findTask currentId organizationId with
    | none => .ok ()
    | some dep =>
      match dep.dependsOnId with
      | none => .ok ()
      | some next => dependencyUpwards s organizationId (currentId :: visited) next
termination_by (s.unvisited visited).length
decreasing_by exact unvisited_lt ((Bool.not_eq_true _).mp ‹_›) ‹_›

def putDependency (s : State) (id dependsOnId : Id) (actor : Actor) : Except Failure State := do
  refuse (!cuidId dependsOnId)
    (.fail 400 "dependsOnId: String must contain between 1 and 50 characters")
  refuse (dependsOnId = id) (.fail 400 "A task cannot depend on itself")
  taskReferenceProblem s none (some dependsOnId) actor
  dependencyUpwards s actor.organizationId [id] dependsOnId
  scopedUpdate s id (fun task => { task with dependsOnId := some dependsOnId }) actor

/-! ### Trash -/

def Task.trashed (now : Time) (task : Task) : Task := { task with deletedAt := some now }

def deleteTask (s : State) (id : Id) (now : Time) (actor : Actor) : Except Failure State := do
  let task ← found (s.findTask id actor.organizationId) (.fail 404 "Task not found")
  refuse (actor.role ≠ .admin && task.assigneeId ≠ some actor.id)
    (.fail 403 "Not authorized to delete this task")
  scopedUpdate s id (·.trashed now) actor

/-- `softDelete` of a task, with the ledger row from which it can be restored. -/
def softDelete (s : State) (trashId id : Id) (now : Time) (actor : Actor) :
    Except Failure State := do
  let _ ← found (s.findTask id actor.organizationId) (.exception "TASK not found")
  let s ← scopedUpdate s id (·.trashed now) actor
  refuse (s.trashedItems.any (·.id = trashId)) (.exception "Unique constraint failed")
  pure { s with trashedItems := s.trashedItems ++ [⟨trashId, id, actor.organizationId, none⟩] }

def restoreTrashedItem (s : State) (trashId : Id) (now : Time) (actor : Actor) :
    Except Failure State := do
  let ledger ← found
    (s.trashedItems.find? fun ledger => ledger.id = trashId &&
      ledger.organizationId = actor.organizationId && ledger.restoredAt.isNone)
    (.fail 404 "Trashed item not found")
  let _ ← found
    (s.tasks.find? fun task => task.id = ledger.recordId && !task.active &&
      task.organizationId = ledger.organizationId)
    (.fail 404 "Original record no longer exists")
  let restored := s.update ledger.recordId fun task => { task with deletedAt := none }
  pure { restored with trashedItems := s.trashedItems.map fun item =>
    if item.id = ledger.id then { item with restoredAt := some now } else item }

/-! ### Committed requests -/

inductive Request
  | put (id : Id) (body : UpdateBody) (actor : Actor)
  | dependency (id dependsOnId : Id) (actor : Actor)
  | delete (id : Id) (now : Time) (actor : Actor)
  | trash (trashId id : Id) (now : Time) (actor : Actor)
  | restore (trashId : Id) (now : Time) (actor : Actor)

def State.commit (s : State) : Request → Except Failure State
  | .put id body actor => putTask s id body actor
  | .dependency id dependsOnId actor => putDependency s id dependsOnId actor
  | .delete id now actor => deleteTask s id now actor
  | .trash trashId id now actor => softDelete s trashId id now actor
  | .restore trashId now actor => restoreTrashedItem s trashId now actor

/-- The states after committed requests that each meet a condition on the state before. -/
inductive Reached (allowed : State → Request → Prop) (s₀ : State) : State → Prop
  | start : Reached allowed s₀ s₀
  | step {s s' : State} {request : Request} (h : Reached allowed s₀ s) (ha : allowed s request)
      (hs : s.commit request = .ok s') : Reached allowed s₀ s'

end Ashbi.Dependencies

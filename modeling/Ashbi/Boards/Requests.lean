import Ashbi.Boards.Board
import Ashbi.Cuid

/-! The requests that give a task its stage, and those that change the stages of a board. -/

namespace Ashbi.Boards

open Checked
open Pages (Failure)

variable {View : Type}

/-- What the database and the clock add to a request; new ids are made by `cuid()`. -/
structure Env where
  newId : Id
  cuid : IsCuid newId
  now : Time

section Requests

variable (s : State View) (env : Env)

/-- `update` of the task with this id. -/
def State.updateTask (id : Id) (change : Task → Task) : State View :=
  { s with tasks := s.tasks.map fun task => if task.id = id then change task else task }

/-- `create` of a task. The tenant proxy first looks for its project, which must not be deleted. -/
def State.insertTask (organizationId : Id) (task : Task) : Except Failure (State View) := do
  let _ ← found (s.project organizationId task.projectId)
    (.fail 404 ("Tenancy Error: project " ++ task.projectId ++
      " does not belong to organization " ++ organizationId))
  refuse (s.tasks.any (·.id = task.id)) (.exception "Unique constraint failed")
  pure { s with tasks := s.tasks ++ [task] }

def Stage.completedAt (status : TaskStatus) (now : Time) : Option Time :=
  if status = .completed then some now else none

structure QuickInput where
  boardId : Option Id
  stageKey : Option String
  title : String
  assigneeId : Option Id
  priority : String
  status : TaskStatus

/-- `POST /:projectId/quick`, with what `taskReferenceProblem` says of the assignee. -/
def quickCreate (projectId : Id) (input : QuickInput) (referenceProblem : Option String)
    (actor : Actor) : Except Failure (State View) := do
  refuse ((Js.truthy input.boardId).isSome && !actor.role.isStaff)
    (.fail 403 "Team access required")
  let boardId := normalizeTaskBoardId input.boardId
  let _ ← activeTaskBoard s actor.organizationId projectId boardId
  refuse referenceProblem.isSome (.fail 400 (referenceProblem.getD ""))
  let task : Task := {
    id := env.newId, projectId := projectId, boardId := Js.truthy boardId, title := input.title
    priority := input.priority, assigneeId := input.assigneeId, status := input.status
    stageKey := none, completedAt := none, boardMembershipRevision := 0, deletedAt := none }
  match Js.truthy input.stageKey with
  | some key =>
    let stage ← resolveTaskStage s actor.organizationId projectId key boardId
    s.insertTask actor.organizationId { task with
      status := stage.status, stageKey := some key
      completedAt := Stage.completedAt stage.status env.now }
  | none => s.insertTask actor.organizationId task

/-- `POST /:id/move` to a stage of the task's board. -/
def moveToStage (id : Id) (key : String) (actor : Actor) : Except Failure (State View) := do
  let current ← found (s.task actor.organizationId id) (.fail 404 "Task not found")
  let stage ← resolveTaskStage s actor.organizationId current.projectId key current.boardId
  pure (s.updateTask id fun task => { task with
    stageKey := some key, status := stage.status
    completedAt := Stage.completedAt stage.status env.now })

/-- `POST /:id/move` to a status. The tenant proxy first looks for the task that it updates. -/
def moveToStatus (id : Id) (status : TaskStatus) (actor : Actor) :
    Except Failure (State View) := do
  let _ ← found (s.task actor.organizationId id)
    (.fail 404 "Tenancy Error: task record is unavailable in this organization")
  pure (s.updateTask id fun task => { task with
    status := status, stageKey := none, completedAt := Stage.completedAt status env.now })

structure MoveInput where
  projectId : Id
  revision : ℕ
  boardId : Option Id
  stageKey : Option String

def moveTaskBoardInTransaction (taskId : Id) (input : MoveInput) (actor : Actor) :
    Except Failure (State View) := do
  staff actor
  refuse (input.boardId = some "") (.fail 400 "Provide a board and membership revision.")
  let boardId := normalizeTaskBoardId input.boardId
  let _ ← projectFor s input.projectId actor
  let current ← found
    ((s.task actor.organizationId taskId).filter (·.projectId = input.projectId))
    (.fail 404 "Task not found")
  refuse (current.boardMembershipRevision ≠ input.revision)
    (.fail 409 "Board membership changed. Reload before moving.")
  let _ ← activeTaskBoard s actor.organizationId input.projectId boardId
  match Js.truthy input.stageKey with
  | some key =>
    let stage ← resolveTaskStage s actor.organizationId input.projectId key boardId
    pure (s.updateTask taskId fun task => { task with
      boardId := boardId, stageKey := some stage.key
      boardMembershipRevision := task.boardMembershipRevision + 1
      status := stage.status, completedAt := Stage.completedAt stage.status env.now })
  | none =>
    pure (s.updateTask taskId fun task => { task with
      boardId := boardId, stageKey := none
      boardMembershipRevision := task.boardMembershipRevision + 1 })

/-- The stages of a board in a project that has none. -/
def startingStages : List Stage :=
  [⟨"pending", "To do", .pending⟩, ⟨"in_progress", "In progress", .inProgress⟩,
    ⟨"blocked", "Blocked", .blocked⟩, ⟨"completed", "Done", .completed⟩]

def createProjectBoard (projectId : Id) (name description : String) (actor : Actor) :
    Except Failure (State View) := do
  staff actor
  refuse (Js.trim name = "" || 80 < Js.length (Js.trim name) || 2000 < Js.length description)
    (.fail 400 "Enter a board name and a short description.")
  let project ← projectFor s projectId actor
  let taskStages :=
    if (project.taskStages.getD []).isEmpty then startingStages else project.taskStages.getD []
  refuse (s.boards.any (·.id = env.newId)) (.exception "Unique constraint failed")
  pure { s with boards := s.boards ++ [{
    id := env.newId, organizationId := actor.organizationId, projectId := projectId
    name := Js.trim name, description := description, taskStages := taskStages, taskViews := []
    stageRevision := 0, viewsRevision := 0, revision := 0, archivedAt := none }] }

structure BoardInput where
  revision : ℕ
  name : Option String
  description : Option String
  archived : Option Bool

/-- `update` of the board with this id. -/
def State.updateBoard (id : Id) (change : Board View → Board View) : State View :=
  { s with boards := s.boards.map fun board => if board.id = id then change board else board }

def updateProjectBoard (projectId boardId : Id) (input : BoardInput) (actor : Actor) :
    Except Failure (State View) := do
  staff actor
  refuse (boardId = defaultBoardId)
    (.fail 400 "The project board retains its original project settings.")
  refuse (input.name.isNone && input.description.isNone && input.archived.isNone)
    (.fail 400 "Provide a revision and board changes.")
  refuse (input.name.any fun name => Js.trim name = "" || 80 < Js.length (Js.trim name))
    (.fail 400 "Enter a board name.")
  refuse (input.description.any fun description => 2000 < Js.length description)
    (.fail 400 "Enter a short board description.")
  let _ ← projectFor s projectId actor
  let current ← found
    (s.boards.find? fun board =>
      board.id = boardId && board.projectId = projectId &&
        board.organizationId = actor.organizationId)
    (.fail 404 "Board not found")
  refuse (current.revision ≠ input.revision) (.fail 409 "Board changed. Reload before saving.")
  pure (s.updateBoard boardId fun board => { board with
    name := (input.name.map Js.trim).getD board.name
    description := input.description.getD board.description
    archivedAt := match input.archived with
      | none => board.archivedAt
      | some true => some env.now
      | some false => none
    revision := board.revision + 1 })

/-- `update` of the project with this id. -/
def State.updateProject (id : Id) (change : Project View → Project View) : State View :=
  { s with projects := s.projects.map fun project =>
      if project.id = id then change project else project }

/-- The tasks that a request counts on a board: those that are not deleted. -/
def occupied (organizationId projectId : Id) (boardId : Option Id) (retained : List String) :
    Bool :=
  s.tasks.any fun task =>
    task.projectId = projectId && task.boardId = namedBoard boardId && task.deletedAt.isNone &&
      (task.stageKey.any fun key => !retained.contains key) &&
      s.projects.any fun project =>
        project.id = task.projectId && project.organizationId = organizationId

def saveTaskStages (projectId : Id) (revision : ℕ) (stages : List Stage) (boardId : Option Id)
    (actor : Actor) : Except Failure (State View) := do
  refuse (!actor.role.isStaff) (.fail 403 "Team access required")
  let project ← found (s.project actor.organizationId projectId) (.fail 404 "Project not found")
  let board ← activeTaskBoard s actor.organizationId projectId boardId
  refuse ((board.map (·.stageRevision)).getD project.boardRevision ≠ revision)
    (.fail 409 "Board changed since you opened settings. Reload and try again.")
  refuse (occupied s actor.organizationId projectId boardId (stages.map (·.key)))
    (.fail 409 "Move tasks out of removed stages before saving.")
  match board with
  | some board =>
    pure (s.updateBoard board.id fun board => { board with
      taskStages := stages, stageRevision := board.stageRevision + 1 })
  | none =>
    pure (s.updateProject projectId fun project => { project with
      taskStages := some stages, boardRevision := project.boardRevision + 1 })

/-- `DELETE /:id`. -/
def deleteTask (id : Id) (actor : Actor) : Except Failure (State View) := do
  let task ← found (s.task actor.organizationId id) (.fail 404 "Task not found")
  refuse (actor.role ≠ .admin && task.assigneeId ≠ some actor.id)
    (.fail 403 "Not authorized to delete this task")
  pure (s.updateTask id fun task => { task with deletedAt := some env.now })

/-- `softDelete` of a task, with its ledger row. -/
def softDelete (id organizationId : Id) : Except Failure (State View) := do
  let _ ← found (s.task organizationId id) (.exception "TASK not found")
  let s' := s.updateTask id fun task => { task with deletedAt := some env.now }
  pure { s' with trash := s.trash ++ [⟨env.newId, organizationId, id, none⟩] }

/-- The deleted task that a ledger row would bring back. -/
def State.trashed (organizationId trashId : Id) : Except Failure Task := do
  let ledger ← found
    (s.trash.find? fun item =>
      item.id = trashId && item.organizationId = organizationId && item.restoredAt.isNone)
    (.fail 404 "Trashed item not found")
  found
    (s.tasks.find? fun task =>
      task.id = ledger.recordId && task.deletedAt.isSome &&
        s.projects.any fun project =>
          project.id = task.projectId && project.organizationId = ledger.organizationId)
    (.fail 404 "Original record no longer exists")

def restoreTrashedItem (trashId : Id) (actor : Actor) : Except Failure (State View) := do
  let original ← s.trashed actor.organizationId trashId
  let s' := s.updateTask original.id fun task => { task with deletedAt := none }
  pure { s' with trash := s.trash.map fun item =>
    if item.id = trashId then { item with restoredAt := some env.now } else item }

end Requests

/-! ### Committed transactions -/

inductive Step
  | quickCreate (env : Env) (projectId : Id) (input : QuickInput)
      (referenceProblem : Option String) (actor : Actor)
  | moveToStage (env : Env) (id : Id) (key : String) (actor : Actor)
  | moveToStatus (env : Env) (id : Id) (status : TaskStatus) (actor : Actor)
  | moveTaskBoard (env : Env) (taskId : Id) (input : MoveInput) (actor : Actor)
  | createProjectBoard (env : Env) (projectId : Id) (name description : String) (actor : Actor)
  | updateProjectBoard (env : Env) (projectId boardId : Id) (input : BoardInput) (actor : Actor)
  | saveTaskStages (projectId : Id) (revision : ℕ) (stages : List Stage) (boardId : Option Id)
      (actor : Actor)
  | deleteTask (env : Env) (id : Id) (actor : Actor)
  | softDelete (env : Env) (id organizationId : Id)
  | restore (env : Env) (trashId : Id) (actor : Actor)

def State.step (s : State View) : Step → Except Failure (State View)
  | .quickCreate env projectId input referenceProblem actor =>
    Boards.quickCreate s env projectId input referenceProblem actor
  | .moveToStage env id key actor => Boards.moveToStage s env id key actor
  | .moveToStatus env id status actor => Boards.moveToStatus s env id status actor
  | .moveTaskBoard env taskId input actor => moveTaskBoardInTransaction s env taskId input actor
  | .createProjectBoard env projectId name description actor =>
    Boards.createProjectBoard s env projectId name description actor
  | .updateProjectBoard env projectId boardId input actor =>
    Boards.updateProjectBoard s env projectId boardId input actor
  | .saveTaskStages projectId revision stages boardId actor =>
    Boards.saveTaskStages s projectId revision stages boardId actor
  | .deleteTask env id actor => Boards.deleteTask s env id actor
  | .softDelete env id organizationId => Boards.softDelete s env id organizationId
  | .restore env trashId actor => restoreTrashedItem s env trashId actor

end Ashbi.Boards

import Ashbi.Js
import Ashbi.Pages.Page

/-! Projects with their task boards, the stages of a board, and the reads of the requests. -/

namespace Ashbi.Boards

open Checked
open Pages (Failure)

abbrev Id := String

inductive TaskStatus
  | pending | upcoming | immediate | inProgress | blocked | waitingUs | waitingClient | completed
  | todo | review
  deriving DecidableEq

/-- A workflow stage; a task names it by its key. -/
structure Stage where
  key : String
  name : String
  status : TaskStatus
  deriving DecidableEq

/-- `View` stands for a stored view, which nothing here looks into. -/
structure Project (View : Type) where
  id : Id
  organizationId : Id
  name : String
  deletedAt : Option Time
  taskStages : Option (List Stage)
  taskViews : Option (List View)
  boardRevision : ℕ
  taskViewsRevision : ℕ
  deriving DecidableEq

structure Board (View : Type) where
  id : Id
  organizationId : Id
  projectId : Id
  name : String
  description : String
  taskStages : List Stage
  taskViews : List View
  stageRevision : ℕ
  viewsRevision : ℕ
  revision : ℕ
  archivedAt : Option Time
  deriving DecidableEq

structure Task where
  id : Id
  projectId : Id
  boardId : Option Id
  title : String
  priority : String
  assigneeId : Option Id
  status : TaskStatus
  stageKey : Option String
  completedAt : Option Time
  boardMembershipRevision : ℕ
  deletedAt : Option Time
  deriving DecidableEq

/-- The ledger row of a task in the trash. -/
structure TrashedItem where
  id : Id
  organizationId : Id
  recordId : Id
  restoredAt : Option Time
  deriving DecidableEq

structure State (View : Type) where
  projects : List (Project View)
  boards : List (Board View)
  tasks : List Task
  trash : List TrashedItem
  deriving DecidableEq

/-- The signed-in user as the request carries it. -/
structure Actor where
  id : Id
  organizationId : Id
  role : Pages.Role
  deriving DecidableEq

variable {View : Type} (s : State View)

def defaultBoardId : Id := "DEFAULT"

def staff (actor : Actor) : Except Failure Unit :=
  refuse (actor.organizationId = "" || !actor.role.isStaff) (.fail 403 "Team access required")

/-- `findFirst` of a project of the organization that is not deleted. -/
def State.project (organizationId projectId : Id) : Option (Project View) :=
  s.projects.find? fun project =>
    project.id = projectId && project.organizationId = organizationId && project.deletedAt.isNone

/-- `findFirst` of a task of the organization that is not deleted. -/
def State.task (organizationId taskId : Id) : Option Task :=
  s.tasks.find? fun task =>
    task.id = taskId && task.deletedAt.isNone &&
      s.projects.any fun project =>
        project.id = task.projectId && project.organizationId = organizationId

def projectFor (projectId : Id) (actor : Actor) : Except Failure (Project View) := do
  staff actor
  found (s.project actor.organizationId projectId) (.fail 404 "Project not found")

def normalizeTaskBoardId (boardId : Option Id) : Option Id := boardId.filter (· ≠ defaultBoardId)

/-- The board that a request names, unless it names the project's own. -/
def namedBoard (boardId : Option Id) : Option Id :=
  (Js.truthy boardId).filter (· ≠ defaultBoardId)

def activeTaskBoard (organizationId projectId : Id) (boardId : Option Id) :
    Except Failure (Option (Board View)) :=
  match namedBoard boardId with
  | none => pure none
  | some boardId => do
    let board ← found
      (s.boards.find? fun board =>
        board.id = boardId && board.projectId = projectId && board.archivedAt.isNone &&
          board.organizationId = organizationId &&
          s.projects.any fun project => project.id = board.projectId && project.deletedAt.isNone)
      (.fail 404 "Board is unavailable in this project.")
    pure (some board)

def resolveTaskStage (organizationId projectId : Id) (key : String) (boardId : Option Id) :
    Except Failure Stage := do
  let board ← activeTaskBoard s organizationId projectId boardId
  match board with
  | some board =>
    found (board.taskStages.find? (·.key = key))
      (.fail 400 "Stage is unavailable in this board. Reload the board.")
  | none =>
    let project ← found (s.project organizationId projectId) (.fail 404 "Project not found")
    found ((project.taskStages.getD []).find? (·.key = key))
      (.fail 400 "Stage is unavailable in this project. Reload the board.")

end Ashbi.Boards

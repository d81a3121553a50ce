import Ashbi.Hierarchy.Loading
import Ashbi.Notes.Audience

/-! Project notes: the reads that authorize a request, and the requests that change the tree. -/

namespace Ashbi.Notes

open Checked Hierarchy
open Pages (User Role Rights Actor Failure)

/-- A row; `organizationId` is that of its project. -/
structure Note extends Node where
  isTemplate : Bool
  revision : ℕ
  deletedAt : Option Time
  deriving DecidableEq

def Note.active (note : Note) : Bool := note.deletedAt.isNone

structure Project where
  id : String
  organizationId : String
  deriving DecidableEq

structure State where
  users : List User
  projects : List Project
  notes : List Note
  deriving DecidableEq

def currentWikiStaff (s : State) (actor : Actor) : Except Failure User :=
  Pages.currentWikiStaff ⟨s.users, []⟩ actor

/-! ### Access -/

/-- The rows that a context of the organization may see. -/
def Note.inScope (organizationId : String) (includeDeleted : Bool) (row : Note) : Bool :=
  row.organizationId = organizationId && (includeDeleted || row.active)

/-- The notes by id, and their parents. -/
def State.tree (s : State) (organizationId : String) (includeDeleted : Bool) :
    Tree String Note where
  row id := s.notes.find? fun row => row.id = id && row.inScope organizationId includeDeleted
  key := (·.id)
  parent := (·.parentId)

/-- One query of a level; it takes at most 100 rows. -/
def State.fetch (s : State) (organizationId : String) (includeDeleted : Bool)
    (batch : List String) : List Note :=
  (s.notes.filter fun row =>
    batch.contains row.id && row.inScope organizationId includeDeleted).take 100

/-- `load`; the loop runs for the depths 0 to 200. -/
def load (s : State) (organizationId : String) (ids : List String) (includeDeleted : Bool) :
    Cache String Note :=
  loadLevels (s.tree organizationId includeDeleted) (s.fetch organizationId includeDeleted) 100 201
    ids.eraseDups fun _ => none

/-- `path`, after `load` of some ids. -/
def path (s : State) (organizationId : String) (ids : List String) (includeDeleted : Bool)
    (id : String) : List Note :=
  ((load s organizationId ids includeDeleted).tree (s.tree organizationId includeDeleted)).climb
    200 [] id

def nodes (notes : List Note) : List Node := notes.map (·.toNode)

structure Authorized where
  note : Note
  permissions : Rights
  user : User
  path : List Note

structure AuthorizeOptions where
  edit : Bool := false
  manage : Bool := false
  includeDeleted : Bool := false

def State.findNote (s : State) (id organizationId : String) (deleted : Bool) : Option Note :=
  s.notes.find? fun row =>
    row.id = id && row.organizationId = organizationId && row.deletedAt.isSome = deleted

def authorizeNote (s : State) (id : String) (actor : Actor) (options : AuthorizeOptions := {}) :
    Except Failure Authorized := do
  let user ← currentWikiStaff s actor
  let path := path s user.organizationId [id] options.includeDeleted id
  let permissions := documentAudienceRights (nodes path) user
  refuse (!permissions.canRead) (.fail 404 "Document not found")
  refuse (options.edit && !permissions.canEdit) (.fail 403 "This document is read only")
  refuse (options.manage && !permissions.canManage)
    (.fail 403 "The document owner or an administrator manages access and hierarchy")
  let note ← found (s.findNote id user.organizationId options.includeDeleted)
    (.fail 404 "Document not found")
  pure ⟨note, permissions, user, path⟩

/-- The composed audience, where an error rolls the transaction back. -/
def composed (path : List Note) : Except Failure Audience :=
  match composeDocumentAudience (nodes path) with
  | .ok audience => .ok audience
  | .error message => .error (.exception message)

/-- The walk of `validateParent`; `depths` is how many notes may still be visited. -/
def validateUpwards (s : State) (organizationId projectId : String) :
    ℕ → List String → String → Except Failure Unit
  | 0, _, _ => .error (.fail 400 "Document hierarchy exceeds the supported depth")
  | depths + 1, seen, currentId =>
    if seen.contains currentId then
      .error (.fail 400 "Document hierarchy would create a cycle")
    else
      match s.notes.find? fun row =>
        row.id = currentId && row.inScope organizationId false && row.projectId = projectId with
      | none => .error (.fail 400 "Parent document must be active and in the same project")
      | some current =>
        match current.parentId with
        | none => .ok ()
        | some parentId =>
          validateUpwards s organizationId projectId depths (currentId :: seen) parentId

def validateParent (s : State) (organizationId : String) (parentId : Option String)
    (projectId : String) (noteId : Option String) : Except Failure Unit :=
  match parentId with
  | none => .ok ()
  | some parentId => do
    refuse (some parentId = noteId) (.fail 400 "A document cannot be its own parent")
    validateUpwards s organizationId projectId 200 noteId.toList parentId

/-- The editor of a parent, where there is one. -/
def authorizeParent (s : State) (parentId : Option String) (actor : Actor) :
    Except Failure Unit :=
  match parentId with
  | none => .ok ()
  | some parentId => do
    let _ ← authorizeNote s parentId actor { edit := true }
    pure ()

/-! ### Requests -/

def State.insert (s : State) (note : Note) : Except Failure State := do
  refuse (s.notes.any (·.id = note.id)) (.exception "Unique constraint failed")
  pure { s with notes := s.notes ++ [note] }

/-- A trigger advances the revision with every update. -/
def State.update (s : State) (id : String) (change : Note → Note) : State :=
  { s with notes := s.notes.map fun row =>
      if row.id = id then { change row with revision := row.revision + 1 } else row }

def State.findProject (s : State) (id organizationId : String) : Option Project :=
  s.projects.find? fun project => project.id = id && project.organizationId = organizationId

/-- A row as `note.create` stores it; `id` is the database's. -/
def newNote (id : String) (project : Project) (parentId : Option String) (authorId : String)
    (isTemplate : Bool) (audienceBarrier : StoredBarrier) : Note where
  id := id
  organizationId := project.organizationId
  projectId := project.id
  authorId := authorId
  parentId := parentId
  accessMode := .team
  grants := some []
  audienceBarrier := audienceBarrier
  isTemplate := isTemplate
  revision := 0
  deletedAt := none

def createNote (s : State) (id projectId : String) (parentId : Option String) (isTemplate : Bool)
    (actor : Actor) : Except Failure State := do
  let project ← found (s.findProject projectId actor.organizationId)
    (.fail 404 "Project not found")
  validateParent s actor.organizationId parentId projectId none
  let _ ← currentWikiStaff s actor
  authorizeParent s parentId actor
  s.insert (newNote id project parentId actor.id isTemplate .absent)

def createFromTemplate (s : State) (id projectId templateId : String) (parentId : Option String)
    (actor : Actor) : Except Failure State := do
  let _ ← authorizeNote s templateId actor
  let project ← found (s.findProject projectId actor.organizationId)
    (.fail 404 "Project not found")
  let template ← found
    (s.notes.find? fun row =>
      row.id = templateId && row.inScope actor.organizationId false && row.isTemplate)
    (.fail 404 "Template not found")
  validateParent s actor.organizationId parentId projectId none
  let sourceAccess ← authorizeNote s templateId actor
  refuse (sourceAccess.note.revision ≠ template.revision || !sourceAccess.note.isTemplate)
    (.fail 409 "Template changed. Reload before copying.")
  authorizeParent s parentId actor
  let templateBarrier ← composed sourceAccess.path
  s.insert (newNote id project parentId actor.id false templateBarrier.barrier)

structure UpdateInput where
  revision : ℕ
  isTemplate : Option Bool := none
  parentId : Option (Option String) := none

/-- The request moves a note that is stored under `current`. -/
def UpdateInput.moves (input : UpdateInput) (current : Option String) : Bool :=
  input.parentId.any (· ≠ current)

/-- The check of `parentId`, where the request has one. -/
def validateMove (s : State) (id : String) (input : UpdateInput) (existing : Note)
    (organizationId : String) : Except Failure Unit :=
  match input.parentId with
  | some parentId => validateParent s organizationId parentId existing.projectId (some id)
  | none => .ok ()

def updateNote (s : State) (id : String) (input : UpdateInput) (actor : Actor) :
    Except Failure State := do
  let existing ← authorizeNote s id actor { edit := true }
  refuse (existing.note.revision ≠ input.revision)
    (.fail 409 ("Document changed since you started editing. Your draft has not been saved. " ++
      "Reload the document before trying again."))
  validateMove s id input existing.note actor.organizationId
  let moves := input.moves existing.note.parentId
  let access ← authorizeNote s id actor { edit := true, manage := moves }
  refuse (access.note.revision ≠ input.revision)
    (.fail 409 "Document changed. Your draft is retained.")
  let isTemplate := input.isTemplate.getD access.note.isTemplate
  if moves then do
    let parentId := input.parentId.join
    authorizeParent s parentId actor
    let audience ← composed access.path
    pure (s.update id fun row => { row with
      isTemplate := isTemplate, parentId := parentId, audienceBarrier := audience.barrier })
  else pure (s.update id fun row => { row with isTemplate := isTemplate })

def preserveNoteAudience (s : State) (id : String) (actor : Actor) : Except Failure Audience := do
  let access ← authorizeNote s id actor { manage := true }
  composed access.path

/-- The children of a note that is being deleted, with the audiences that they keep. -/
def promotions (s : State) (id organizationId : String) :
    Except Failure (List (String × Audience)) :=
  let children := s.notes.filter fun row =>
    row.parentId = some id && row.inScope organizationId false
  children.mapM fun row => do
    let audience ← composed (path s organizationId (children.map (·.id)) false row.id)
    pure (row.id, audience)

/-- A note leaves its parent and keeps its audience. -/
def State.detach (s : State) (id : String) (audience : Audience) : State :=
  s.update id fun row => { row with audienceBarrier := audience.barrier, parentId := none }

def deleteNote (s : State) (id : String) (now : Time) (actor : Actor) : Except Failure State := do
  let _ ← found (s.findNote id actor.organizationId false) (.exception "NOTE not found")
  let barrier ← preserveNoteAudience s id actor
  let user ← currentWikiStaff s actor
  let promoted ← promotions s id user.organizationId
  let s := promoted.foldl (fun s child => s.detach child.1 child.2) s
  let s := s.detach id barrier
  pure (s.update id fun row => { row with deletedAt := some now })

/-- `noteRestoreData`: where the note comes back, and with which barrier. -/
def noteRestoreData (s : State) (id : String) (actor : Actor) :
    Except Failure (Option String × Option Audience) := do
  let access ← authorizeNote s id actor { manage := true, includeDeleted := true }
  match access.note.parentId with
  | none => pure (none, none)
  | some parentId =>
    match s.notes.find? fun row => row.id = parentId &&
      row.inScope access.user.organizationId false && row.projectId = access.note.projectId with
    | some parent => do
      let _ ← authorizeNote s parent.id actor { edit := true }
      pure (some parent.id, none)
    | none =>
      match composeDocumentAudience (nodes access.path) with
      | .ok barrier => pure (none, some barrier)
      | .error _ => .error (.fail 409
          "The document audience cannot be recovered without its ancestor metadata")

def restoreNote (s : State) (id : String) (actor : Actor) : Except Failure State := do
  let (parentId, barrier) ← noteRestoreData s id actor
  pure (s.update id fun row => { row with
    deletedAt := none, parentId := parentId
    audienceBarrier := (barrier.map (·.barrier)).getD row.audienceBarrier })

end Ashbi.Notes

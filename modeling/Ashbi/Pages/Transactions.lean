import Ashbi.Pages.Page

/-! The transactions that create and change knowledge pages, with the triggers of the table. -/

namespace Ashbi.Pages

open Checked

/-! ### The table -/

/-- The loop of `workspace_page_scope_guard` over the ancestors of a new parent. -/
def guardUpwards (s : State) : ℕ → List Id → Option Id → Except Failure Unit
  | _, _, none => .ok ()
  | 0, seen, some current =>
    if seen.contains current then .error (.exception "Workspace page hierarchy cycle")
    else .error (.exception "Workspace page hierarchy exceeds supported depth")
  | depths + 1, seen, some current =>
    if seen.contains current then .error (.exception "Workspace page hierarchy cycle")
    else guardUpwards s depths (current :: seen) (s.parent current)

/-- `workspace_page_scope_guard`; `old` is `none` for an insert. It answers with the row that is
stored. -/
def scopeGuard (s : State) (old : Option Page) (new : Page) : Except Failure Page := do
  refuse (old.any (·.organizationId ≠ new.organizationId))
    (.exception "Workspace page organization cannot change")
  let author := s.users.find? (·.id = new.authorId)
  refuse (author.map (·.organizationId) ≠ some new.organizationId)
    (.exception "Workspace page author belongs to another organization")
  match new.parentId with
  | none => pure ()
  | some parentId =>
    let parent := s.page parentId
    refuse (parent.map (·.organizationId) ≠ some new.organizationId)
      (.exception "Workspace page parent belongs to another organization")
    refuse (parent.any (!·.active) &&
        (old.isNone || old.any (·.parentId ≠ new.parentId) || new.active))
      (.exception "Workspace page parent is archived")
    guardUpwards s 200 [new.id] new.parentId
  pure { new with revision := (old.map (·.revision + 1)).getD new.revision }

/-- `workspace_page_access_guard`, which runs before the scope guard of an update. -/
def accessGuard (s : State) (old new : Page) : Except Failure Unit := do
  refuse (new.authorId ≠ old.authorId) (.exception "Workspace page author cannot change")
  refuse (old.accessMode = .restricted && old.active && !new.active &&
      s.pages.any fun page => page.parentId = some old.id && page.active)
    (.exception "Move or archive nested pages before archiving a restricted page")

def State.insert (s : State) (page : Page) : Except Failure State := do
  refuse (s.page page.id).isSome (.exception "Unique constraint failed")
  let stored ← scopeGuard s none page
  pure { s with pages := s.pages ++ [stored] }

def State.put (s : State) (page : Page) : State :=
  { s with pages := s.pages.map fun row => if row.id = page.id then page else row }

/-- One row of an update before its after-trigger. -/
def State.updateRow (s : State) (old new : Page) : Except Failure State := do
  accessGuard s old new
  let stored ← scopeGuard s (some old) new
  pure (s.put stored)

/-- `workspace_page_archive_children`: active children go to the parent of an archived page. -/
def archiveChildren (s : State) (old new : Page) : Except Failure State :=
  if old.active && !new.active then
    (s.pages.filter fun row => row.parentId = some new.id && row.active).foldlM
      (fun s child => s.updateRow child { child with parentId := new.parentId }) s
  else .ok s

def State.update (s : State) (old new : Page) : Except Failure State := do
  let s' ← s.updateRow old new
  archiveChildren s' old new

/-! ### The service -/

/-- The loop of `validateWorkspacePageParent`; `depths` is how many ancestors it still allows. -/
def parentUpwards (s : State) (organizationId : Id) :
    ℕ → List Id → Option Id → Except Failure Unit
  | _, _, none => .ok ()
  | 0, _, some _ => .error (.fail 400 "Choose a parent outside this page’s descendants.")
  | depths + 1, visited, some currentId =>
    if visited.contains currentId then
      .error (.fail 400 "Choose a parent outside this page’s descendants.")
    else
      match s.findActive currentId organizationId with
      | none => .error (.fail 404 "Parent page is unavailable")
      | some current =>
        parentUpwards s organizationId depths (currentId :: visited) current.parentId

def validateWorkspacePageParent (s : State) (parentId : Option Id) (organizationId : Id)
    (pageId : Option Id) : Except Failure Unit :=
  parentUpwards s organizationId 200 pageId.toList parentId

def readWorkspacePage (s : State) (id : Id) (actor : Actor) : Except Failure Page := do
  let access ← authorizeWorkspacePage s id actor
  found (s.findPage id access.user.organizationId) (.fail 404 "Knowledge page not found")

/-- What the database and the clock add to a request: the id of a new row, the time, and
whether the audit record is written. -/
structure Env where
  newId : Id
  now : Time
  audited : Bool

def audit (env : Env) : Except Failure Unit :=
  refuse (!env.audited) (.fail 503
    "Knowledge page could not be saved with its audit record. Your draft is retained.")

/-- A new parent is a page that the user may edit. -/
def authorizeParent (s : State) (parentId : Option Id) (actor : Actor) : Except Failure Unit :=
  match parentId with
  | none => pure ()
  | some parentId => do
    let _ ← authorizeWorkspacePage s parentId actor { edit := true, includeArchived := false }

structure CreateInput where
  parentId : Option Id
  accessMode : AccessMode

def createWorkspacePageInTransaction (s : State) (env : Env) (input : CreateInput)
    (actor : Actor) : Except Failure State := do
  let _ ← currentWikiStaff s actor
  authorizeParent s input.parentId actor
  validateWorkspacePageParent s input.parentId actor.organizationId none
  let s' ← s.insert {
    id := env.newId, organizationId := actor.organizationId, authorId := actor.id
    parentId := input.parentId, accessMode := input.accessMode, grants := [], revision := 0
    archivedAt := none }
  audit env
  let _ ← readWorkspacePage s' env.newId actor
  pure s'

/-- A field that the request leaves out is `none`. -/
structure UpdateInput where
  revision : ℕ
  parentId : Option (Option Id)
  archived : Option Bool

def UpdateInput.moving (input : UpdateInput) (current : Page) : Bool :=
  input.parentId.any (· ≠ current.parentId)

def validateWorkspacePageChange (s : State) (id : Id) (input : UpdateInput) (actor : Actor) :
    Except Failure Authorized := do
  let access ← authorizeWorkspacePage s id actor { edit := true }
  let current := access.page
  refuse (current.revision ≠ input.revision) (.fail 409
    "Knowledge page changed. Your draft is retained; reload before saving.")
  let moving := input.moving current
  let archiving := input.archived.any (· ≠ !current.active)
  refuse ((moving || archiving) && !access.permissions.canManage)
    (.fail 403 "The page owner or an administrator manages hierarchy and archive")
  refuse (!current.active && input.archived ≠ some false)
    (.fail 409 "Restore this page before editing it.")
  authorizeParent s (if moving then input.parentId.join else none) actor
  validateWorkspacePageParent s (if moving then input.parentId.join else current.parentId)
    access.user.organizationId (some id)
  refuse (input.archived = some true && current.accessMode = .restricted &&
      s.pages.any fun page => page.parentId = some id &&
        page.organizationId = access.user.organizationId && page.active)
    (.fail 409 "Move or archive nested pages before archiving a restricted page")
  pure access

/-- The row that an update writes before the triggers. -/
def UpdateInput.row (input : UpdateInput) (now : Time) (page : Page) : Page :=
  { page with
    parentId := input.parentId.getD page.parentId
    archivedAt := match input.archived with
      | none => page.archivedAt
      | some true => some now
      | some false => none }

def updateWorkspacePageInTransaction (s : State) (env : Env) (id : Id) (input : UpdateInput)
    (actor : Actor) : Except Failure State := do
  let _ ← validateWorkspacePageChange s id input actor
  let page ← found
    (s.pages.find? fun page =>
      page.id = id && page.organizationId = actor.organizationId &&
        page.revision = input.revision)
    (.fail 409 "Knowledge page changed. Your draft is retained; reload before saving.")
  let s' ← s.update page (input.row env.now page)
  audit env
  let _ ← readWorkspacePage s' id actor
  pure s'

/-! ### Committed transactions -/

/-- A page's audience and the user table also change in other requests, in any way. -/
inductive Step
  | create (env : Env) (input : CreateInput) (actor : Actor)
  | update (env : Env) (id : Id) (input : UpdateInput) (actor : Actor)
  | audience (id : Id) (accessMode : AccessMode) (grants : List Grant)
  | users (users : List User)

def State.step (s : State) : Step → Except Failure State
  | .create env input actor => createWorkspacePageInTransaction s env input actor
  | .update env id input actor => updateWorkspacePageInTransaction s env id input actor
  | .audience id accessMode grants =>
    .ok { s with pages := s.pages.map fun page =>
      if page.id = id then
        { page with accessMode := accessMode, grants := grants, revision := page.revision + 1 }
      else page }
  | .users users => .ok { s with users := users }

/-- The states after committed transactions that each meet a condition on the state before. -/
inductive Reached (allowed : State → Step → Prop) : State → Prop
  | start (users : List User) : Reached allowed ⟨users, []⟩
  | step {s s' : State} {st : Step} (h : Reached allowed s) (ha : allowed s st)
      (hs : s.step st = .ok s') : Reached allowed s'

end Ashbi.Pages

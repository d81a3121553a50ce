import Ashbi.Checked
import Ashbi.Hierarchy.Loading
import Ashbi.Js

/-! Knowledge pages, their readers and the reads that authorize a request. -/

namespace Ashbi.Pages

open Checked

abbrev Id := String

inductive Role
  | admin | team | client | bot
  deriving DecidableEq

def Role.isStaff : Role → Bool
  | .admin | .team => true
  | _ => false

structure User where
  id : Id
  organizationId : Id
  role : Role
  isActive : Bool
  deriving DecidableEq

inductive AccessMode
  | team | restricted
  deriving DecidableEq

inductive GrantRole
  | read | edit
  deriving DecidableEq

structure Grant where
  userId : Id
  role : GrantRole
  deriving DecidableEq

structure Page where
  id : Id
  organizationId : Id
  authorId : Id
  parentId : Option Id
  accessMode : AccessMode
  grants : List Grant
  revision : ℕ
  archivedAt : Option Time
  deriving DecidableEq

def Page.active (page : Page) : Bool := page.archivedAt.isNone

structure State where
  users : List User
  pages : List Page
  deriving DecidableEq

/-- Why a transaction is rolled back: an answer of the service, or an error of the database. -/
inductive Failure
  | fail (statusCode : ℕ) (message : String)
  | exception (message : String)
  deriving DecidableEq

def State.page (s : State) (id : Id) : Option Page := s.pages.find? (·.id = id)

def State.parent (s : State) (id : Id) : Option Id := (s.page id).bind (·.parentId)

/-- `findFirst` of a page of the organization. -/
def State.findPage (s : State) (id organizationId : Id) : Option Page :=
  s.pages.find? fun page => page.id = id && page.organizationId = organizationId

/-- `findFirst` of an active page of the organization. -/
def State.findActive (s : State) (id organizationId : Id) : Option Page :=
  s.pages.find? fun page =>
    page.id = id && page.organizationId = organizationId && page.active

/-! ### Authorization -/

/-- The signed-in user as the request carries it. -/
structure Actor where
  id : Id
  organizationId : Id
  role : Role

def currentWikiStaff (s : State) (actor : Actor) : Except Failure User := do
  refuse (!actor.role.isStaff) (.fail 403 "Team access required")
  found
    (s.users.find? fun u =>
      u.id = actor.id && u.organizationId = actor.organizationId && u.isActive && u.role.isStaff)
    (.fail 403 "Team access required")

/-- The request-local cache; an entry without a row is an id that was looked for in vain. -/
abbrev Cache := Id → Option (Option Page)

def Cache.has (cache : Cache) (id : Id) : Bool := (cache id).isSome

def Cache.set (cache : Cache) (id : Id) (row : Option Page) : Cache :=
  fun id' => if id' = id then some row else cache id'

section Context

variable (s : State) (user : User)

/-- One query of a level, and the parents that are still missing after it. -/
def loadBatch (found : Cache × List Id) (batch : List Id) : Cache × List Id :=
  let rows := (s.pages.filter fun row =>
    batch.contains row.id && row.organizationId = user.organizationId).take 100
  let cache := batch.foldl (·.set · none) found.1
  rows.foldl (fun found row =>
    let cache := found.1.set row.id (some row)
    match row.parentId with
    | some parentId =>
      if user.role ≠ .admin && !cache.has parentId then (cache, found.2 ++ [parentId])
      else (cache, found.2)
    | none => (cache, found.2)) (cache, found.2)

/-- The levels of a load; `depths` is how many may still be read. -/
def loadLevels : ℕ → List Id → Cache → Cache
  | 0, _, cache => cache
  | depths + 1, missing, cache =>
    if missing.isEmpty then cache
    else
      let (cache, parents) := (Hierarchy.slices 100 missing).foldl (loadBatch s user) (cache, [])
      loadLevels depths (parents.eraseDups.filter (!cache.has ·)) cache

/-- `load`, with the bound of its loop. -/
def loadWithin (depths : ℕ) (ids : List Id) (seed : List Page) (cache : Cache) : Cache :=
  let cache := seed.foldl (fun cache row =>
    if row.organizationId = user.organizationId then cache.set row.id (some row) else cache) cache
  let missing := ids.eraseDups.filter (!cache.has ·)
  let parents :=
    if user.role = .admin then [] else (seed.filterMap (·.parentId)).filter (!cache.has ·)
  loadLevels s user depths (missing ++ parents).eraseDups cache

structure Rights where
  canRead : Bool
  canEdit : Bool
  canManage : Bool
  deriving DecidableEq

def Rights.none : Rights := ⟨false, false, false⟩

/-- The user may read the page itself. -/
def Page.allows (page : Page) : Bool :=
  page.accessMode = .team || page.authorId = user.id ||
    (page.accessMode = .restricted && page.grants.any (·.userId = user.id))

/-- The user may edit the page itself. -/
def Page.allowsEdit (page : Page) : Bool :=
  page.accessMode = .team || page.authorId = user.id ||
    page.grants.any fun grant => grant.userId = user.id && grant.role = .edit

/-- The walk of `rights` to the root; `depths` is how many pages may still be visited. -/
def rightsUpwards (own : Bool) (cache : Cache) :
    ℕ → List Id → Bool → Option Page → Rights
  | 0, _, _, _ => .none
  | _ + 1, _, _, none => .none
  | depths + 1, seen, canEdit, some current =>
    if seen.contains current.id then .none
    else if !current.allows user then .none
    else
      let canEdit := canEdit && current.allowsEdit user
      match current.parentId with
      | none => ⟨true, canEdit, own && canEdit⟩
      | some parentId =>
        rightsUpwards own cache depths (current.id :: seen) canEdit (cache parentId).join

/-- `rights`, with the bound of its loop. -/
def rightsWithin (depths : ℕ) (cache : Cache) (id : Id) : Rights :=
  match (cache id).join with
  | none => .none
  | some page =>
    if user.role = .admin then ⟨true, true, true⟩
    else rightsUpwards user (page.authorId = user.id) cache depths [] true (some page)

/-- The loops run for the depths 0 to 200. -/
def load : List Id → List Page → Cache → Cache := loadWithin s user 201

def rights : Cache → Id → Rights := rightsWithin user 201

end Context

structure Authorized where
  page : Page
  user : User
  permissions : Rights

structure AuthorizeOptions where
  edit : Bool := false
  manage : Bool := false
  includeArchived : Bool := true

def authorizeWorkspacePage (s : State) (id : Id) (actor : Actor)
    (options : AuthorizeOptions := {}) : Except Failure Authorized := do
  let user ← currentWikiStaff s actor
  let permissions := rights user (load s user [id] [] fun _ => none) id
  refuse (!permissions.canRead) (.fail 404 "Knowledge page not found")
  refuse (options.edit && !permissions.canEdit) (.fail 403 "This page is read only")
  refuse (options.manage && !permissions.canManage)
    (.fail 403 "The page owner or an administrator manages hierarchy, archive and access")
  let page ← found
    (if options.includeArchived then s.findPage id user.organizationId
      else s.findActive id user.organizationId)
    (.fail 404 "Knowledge page not found")
  pure ⟨page, user, permissions⟩

end Ashbi.Pages

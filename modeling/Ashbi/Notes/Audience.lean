import Ashbi.Checked
import Ashbi.Js
import Ashbi.Pages.Page

/-! `document-audiences.js`: who may read and edit a document, from the path to its root. -/

namespace Ashbi.Notes

open Checked
open Pages (User Role Rights)

/-! ### Metadata as stored -/

/-- `other` is any text that is neither. -/
inductive AccessMode
  | team | restricted | other
  deriving DecidableEq

inductive GrantRole
  | read | edit | other
  deriving DecidableEq

structure Grant where
  userId : String
  role : GrantRole
  deriving DecidableEq

/-- A list of user ids in a barrier: `null`, an array of texts, or anything else. -/
inductive StoredIds
  | everyone
  | only (ids : List String)
  | malformed
  deriving DecidableEq

/-- The audience that a document keeps from a place in the tree that it has left. -/
inductive StoredBarrier
  | absent
  | malformed
  | stored (readUserIds editUserIds : StoredIds)
  deriving DecidableEq

/-- The metadata of a document; `grants` is `none` where it is not an array. -/
structure Node where
  id : String
  organizationId : String
  projectId : String
  authorId : String
  parentId : Option String
  accessMode : AccessMode
  grants : Option (List Grant)
  audienceBarrier : StoredBarrier
  deriving DecidableEq

/-! ### The algebra -/

def validId (value : String) : Bool := value ≠ "" && Js.length value ≤ 80

/-- Users, where `none` stands for everyone. -/
abbrev Users := Option (List String)

def intersect : Users → Users → Users
  | none, b => b
  | some a, none => some a
  | some a, some b => some (a.filter (b.contains ·))

/-- `none` where the stored value is not acceptable. -/
def ids : StoredIds → Option Users
  | .everyone => some none
  | .only value =>
    if value.length ≤ 10000 && value.all validId then some (some value.dedup) else none
  | .malformed => none

/-- The parent of a document is the next one of the path, if there is one. -/
def namesNext (node : Node) : List Node → Bool
  | next :: _ => node.parentId = some next.id
  | [] => node.parentId.isNone

def nodesAreValid (first : Node) : List String → List Node → Bool
  | _, [] => true
  | seen, node :: rest =>
    validId node.id && validId node.authorId && validId node.organizationId &&
      !seen.contains node.id && node.organizationId = first.organizationId &&
      node.projectId = first.projectId && namesNext node rest &&
      nodesAreValid first (node.id :: seen) rest

def pathIsValid (nodes : List Node) : Bool :=
  match nodes with
  | [] => false
  | first :: _ => nodes.length ≤ 200 && nodesAreValid first [] nodes

structure Audience where
  readUserIds : Users
  editUserIds : Users
  deriving DecidableEq

def Node.metadataIsValid (node : Node) : Bool :=
  node.accessMode ≠ .other && node.grants.any fun grants =>
    grants.length ≤ 1000 && grants.all fun grant => validId grant.userId && grant.role ≠ .other

/-- The users that a restricted document names. -/
def Node.readers (node : Node) : List String :=
  (node.authorId :: (node.grants.getD []).map (·.userId)).dedup

def Node.editors (node : Node) : List String :=
  (node.authorId :: ((node.grants.getD []).filter (·.role = .edit)).map (·.userId)).dedup

def composeNode (audience : Audience) (node : Node) : Except String Audience := do
  refuse (!node.metadataIsValid) "Invalid document audience metadata."
  let own : Audience :=
    if node.accessMode = .restricted then
      ⟨intersect audience.readUserIds (some node.readers),
        intersect audience.editUserIds (some node.editors)⟩
    else audience
  match node.audienceBarrier with
  | .absent => pure own
  | .malformed => throw "Invalid inherited audience barrier."
  | .stored readUserIds editUserIds => do
    let readers ← found (ids readUserIds) "Invalid inherited audience barrier."
    let editors ← found (ids editUserIds) "Invalid inherited audience barrier."
    pure ⟨intersect own.readUserIds readers, intersect own.editUserIds editors⟩

/-- `[...ids].sort()` -/
def sorted (ids : List String) : List String :=
  ids.mergeSort fun a b => !decide (Js.codeUnits b < Js.codeUnits a)

/-- The users that may read and edit the first document of a path. -/
def composeDocumentAudience (nodes : List Node) : Except String Audience := do
  refuse (!pathIsValid nodes) "A complete same-workspace document path is required."
  let audience ← nodes.foldlM composeNode ⟨none, none⟩
  let edit := intersect audience.editUserIds audience.readUserIds
  pure ⟨audience.readUserIds.map sorted, edit.map sorted⟩

def includes (users : Users) (id : String) : Bool := users.all (·.contains id)

def documentAudienceRights (nodes : List Node) (actor : User) : Rights :=
  match nodes with
  | [] => .none
  | root :: _ =>
    if !validId actor.id || !validId actor.organizationId || !actor.isActive ||
        !actor.role.isStaff || root.organizationId ≠ actor.organizationId then .none
    else if actor.role = .admin then ⟨true, true, true⟩
    else
      match composeDocumentAudience nodes with
      | .error _ => .none
      | .ok audience =>
        let canRead := includes audience.readUserIds actor.id
        let canEdit := canRead && includes audience.editUserIds actor.id
        ⟨canRead, canEdit, canEdit && root.authorId = actor.id⟩

/-- An audience as it is stored in a barrier. -/
def Audience.barrier (audience : Audience) : StoredBarrier :=
  let stored (users : Users) : StoredIds := match users with
    | none => .everyone
    | some ids => .only ids
  .stored (stored audience.readUserIds) (stored audience.editUserIds)

end Ashbi.Notes

import Ashbi.Annotations.Position
import Ashbi.Hierarchy.Lineage
import Ashbi.Keyed.Rows
import Ashbi.Sql.Batch

/-! The import of comments from MarkUp.io: the sessions that are read, their threads, and the loop
that plans the annotations of a session. -/

namespace Ashbi.Imports.Markup

open Annotations Boxes

/-! ### Sessions -/

/-- An id of the source. `sourceId` answers null for a blank one. -/
abbrev SourceId := {id : String // id ≠ ""}

inductive CommentStatus
  | open
  | resolved
  deriving DecidableEq

/-- `parseMarkupPin` puts every pin into the unit square. -/
structure Pin where
  x : ℚ
  y : ℚ
  acrossUnit : 0 ≤ x ∧ x ≤ 1
  downUnit : 0 ≤ y ∧ y ≤ 1

structure PinProblem where
  code : String
  error : String

/-- A row of the CSV as `parseMarkupCommentRow` accepts it. -/
structure Comment where
  row : ℕ
  sourceKey : String
  commentId : SourceId
  threadId : SourceId
  parentCommentId : Option SourceId
  page : Option ℕ
  body : String
  status : CommentStatus
  createdAt : Time
  authorEmail : Option String
  authorName : String
  pin : Option Pin
  pinProblem : Option PinProblem
  contentSha256 : String

/-- An entry of `errors` or `warnings`, with what it is about. -/
structure Finding where
  code : String
  error : String
  row : Option ℕ
  sourceKey : Option String
  authorEmail : Option String
  authorName : Option String
  deriving DecidableEq

def Comment.finding (comment : Comment) (code error : String) : Finding :=
  ⟨code, error, some comment.row, some comment.sourceKey, none, none⟩

/-- What the reader finds wrong with the place of a comment. -/
def misplaced (kind : Option Kind) (comment : Comment) : Option String :=
  if kind = some .image ∧ comment.page.isSome then some "page must be blank for an image"
  else if kind = some .pdf ∧ comment.parentCommentId = none ∧ comment.pin.isSome ∧
      comment.page = none then
    some "A pin on a PDF needs its page"
  else none

/-- The comments on one file that can be reviewed, as `readMarkupImport` groups them: it refuses a
second comment with an id, and one that is out of place. -/
structure Session where
  sourceKey : String
  markupProject : String
  fileName : String
  kind : Option Kind
  comments : List Comment
  reviewable : kind = some .image ∨ kind = some .pdf
  distinct : (comments.map (·.commentId)).Nodup
  placed : ∀ comment ∈ comments, misplaced kind comment = none

def Session.byId (session : Session) (id : SourceId) : Option Comment :=
  Keyed.find (·.commentId) session.comments id

/-! ### Threads -/

/-- A comment with what `resolveMarkupThreads` sets on it. -/
structure Resolved extends Comment where
  rootCommentId : Option SourceId
  externalParentId : Option SourceId
  chainTop : Option SourceId
  cycle : Bool

/-- The comments that a chain has not met yet. -/
def Session.unseen (session : Session) (seen : List SourceId) : ℕ :=
  (session.comments.filter (·.commentId ∉ seen)).length

theorem unseen_lt {session : Session} {seen : List SourceId} {id : SourceId} {comment : Comment}
    (h : session.byId id = some comment) (hseen : id ∉ seen) :
    session.unseen (id :: seen) < session.unseen seen := by
  have hmem := Keyed.find_mem h
  have hid : comment.commentId = id := Keyed.find_key h
  have hsub : session.comments.filter (·.commentId ∉ id :: seen) =
      (session.comments.filter (·.commentId ∉ seen)).filter (·.commentId ≠ id) := by
    rw [List.filter_filter]
    apply List.filter_congr
    intro other _
    by_cases hother : other.commentId = id
    · simp [hother]
    · simp [hother]
  rw [Session.unseen, Session.unseen, hsub, List.length_filter_lt_length_iff_exists]
  refine ⟨comment, List.mem_filter.mpr ⟨hmem, ?_⟩, ?_⟩
  · rw [hid]
    simpa using hseen
  · simp [hid]

/-- The comment at which a chain ends inside the CSV, or none where it comes back to one that it
has met. -/
def topOfChain (session : Session) (seen : List SourceId) (cursor : Comment) : Option Comment :=
  match cursor.parentCommentId with
  | none => some cursor
  | some parentId =>
    match hfound : session.byId parentId with
    | none => some cursor
    | some parent =>
      if hseen : parentId ∈ seen then none
      else topOfChain session (parentId :: seen) parent
termination_by session.unseen seen
decreasing_by exact unseen_lt hfound hseen

def resolveComment (session : Session) (comment : Comment) : Resolved :=
  match comment.parentCommentId with
  | none => ⟨comment, none, none, none, false⟩
  | some _ =>
    match topOfChain session [comment.commentId] comment with
    | none => ⟨comment, none, none, none, true⟩
    | some top =>
      { toComment := comment
        rootCommentId := if top.parentCommentId.isSome then none else some top.commentId
        externalParentId := top.parentCommentId
        chainTop := some top.commentId
        cycle := false }

def loopFinding (comment : Comment) : Finding :=
  comment.finding "INVALID_ROW" "Reply chain loops back on itself"

def depth (comment : Comment) : ℕ := if comment.parentCommentId.isSome then 1 else 0

/-- An order of the comments by a number. -/
def byNumber (number : Resolved → ℤ) : Sql.Clause Resolved where
  le a b := number a ≤ number b
  total a b := by simpa using le_total (number a) (number b)
  trans hab hbc := by
    simp only [decide_eq_true_eq] at hab hbc ⊢
    exact le_trans hab hbc

def commentOrder : List (Sql.Clause Resolved) :=
  [byNumber (depth ·.toComment), byNumber (·.createdAt), byNumber (·.row)]

/-- The findings, and the comments as they are left in the session. -/
def resolveMarkupThreads (session : Session) : List Finding × List Resolved :=
  let resolved := session.comments.map (resolveComment session)
  ((resolved.filter (·.cycle)).map (loopFinding ·.toComment),
    resolved.mergeSort (Sql.le commentOrder))

/-! ### The comment loop -/

/-- The ids that `crypto.randomUUID()` gives, in turn: never twice, and never blank. -/
structure Uuids where
  id : ℕ → String
  injective : ∀ {m n}, id m = id n → m = n
  ne_blank : ∀ n, id n ≠ ""

/-- A row of `markup_import_records` of an earlier run. -/
structure PriorRecord where
  projectId : String
  annotationId : Option String
  contentSha256 : String

structure PriorAnnotation where
  id : String
  parentId : Option String
  sessionId : String

/-- What earlier runs have left. The records of a session's comments go by comment id, which their
source keys encode. -/
structure Ledger where
  record : SourceId → Option PriorRecord
  annotations : String → Option PriorAnnotation

/-- The run, the people of the organization, and the review session that is written. -/
structure Context where
  apply : Bool
  organizationId : String
  projectId : String
  runId : String
  reviewSessionId : String
  acceptsNew : Bool
  ledger : Ledger
  staffByEmail : String → Option String
  staffNameById : String → Option String
  operatorId : String
  now : Time
  randomUUID : Uuids

/-- A row of `review_annotations` that is planned. -/
structure AnnotationRow extends Position where
  id : String
  sessionId : String
  parentId : Option String
  authorType : String
  authorUserId : Option String
  authorName : String
  authorEmail : Option String
  body : String
  resolvedAt : Option Time
  resolvedById : Option String
  createdAt : Time

/-- A row of `markup_import_records` that is planned, of kind `ANNOTATION`. -/
structure RecordRow where
  id : String
  organizationId : String
  projectId : String
  runId : String
  sourceKey : String
  markupProject : String
  fileName : String
  commentId : SourceId
  threadId : SourceId
  reviewSessionId : String
  annotationId : String
  contentSha256 : String

/-- The counts of a session and its share of the totals. -/
structure Counts where
  planned : ℕ
  created : ℕ
  unchanged : ℕ
  skipped : ℕ
  deletedInHub : ℕ
  conflicts : ℕ
  replies : ℕ
  pins : ℕ
  resolved : ℕ

/-- What the loop has put together so far, when so many ids have been given. -/
structure Plan where
  uuids : ℕ
  annotationIdByComment : SourceId → Option String
  annotationRows : List AnnotationRow
  recordRows : List RecordRow
  errors : List Finding
  warnings : List Finding
  mappedAuthors : List String
  unmappedAuthors : List (Option String × String)
  counts : Counts
  closedWarned : Bool

def Plan.blocking (plan : Plan) (finding : Finding) : Plan :=
  { plan with
    errors := plan.errors ++ [finding]
    counts := { plan.counts with conflicts := plan.counts.conflicts + 1 } }

def Plan.warn (plan : Plan) (finding : Finding) : Plan :=
  { plan with warnings := plan.warnings ++ [finding] }

def Plan.warnIf (plan : Plan) (condition : Bool) (finding : Finding) : Plan :=
  if condition then plan.warn finding else plan

/-- `annotationIdByComment.set`. -/
def Plan.setThread (plan : Plan) (comment : SourceId) (annotationId : String) : Plan :=
  { plan with annotationIdByComment := fun id =>
      if id = comment then some annotationId else plan.annotationIdByComment id }

/-- The plan of a session before its first comment. -/
def Plan.start (uuids : ℕ) (errors warnings : List Finding) (mappedAuthors : List String)
    (unmappedAuthors : List (Option String × String)) : Plan where
  uuids := uuids
  annotationIdByComment := fun _ => none
  annotationRows := []
  recordRows := []
  errors := errors
  warnings := warnings
  mappedAuthors := mappedAuthors
  unmappedAuthors := unmappedAuthors
  counts := ⟨0, 0, 0, 0, 0, 0, 0, 0, 0⟩
  closedWarned := false

/-- A comment that an earlier run has imported. -/
def planKnown (ctx : Context) (plan : Plan) (comment : Comment) (record : PriorRecord) : Plan :=
  if record.projectId ≠ ctx.projectId then
    plan.blocking (comment.finding "PROJECT_MAPPING_CHANGED"
      "This comment was previously imported into a different project")
  else match record.annotationId.bind ctx.ledger.annotations with
    | none =>
      { plan.warn (comment.finding "DELETED_IN_HUB"
          "The imported comment was deleted in the Hub and is not re-imported") with
        counts := { plan.counts with deletedInHub := plan.counts.deletedInHub + 1 } }
    | some prior =>
      if record.contentSha256 ≠ comment.contentSha256 then
        plan.blocking (comment.finding "SOURCE_CHANGED"
          "The comment changed since its prior controlled import")
      else
        { plan.setThread comment.commentId (prior.parentId.getD prior.id) with
          counts := { plan.counts with unchanged := plan.counts.unchanged + 1 } }

def planClosed (session : Session) (plan : Plan) : Plan :=
  { plan.warnIf (!plan.closedWarned)
    ⟨"SESSION_CLOSED", "The review session is closed in the Hub " ++
      "(replaced by a newer version); new comments are not added",
      none, some session.sourceKey, none, none⟩ with
    closedWarned := true
    counts := { plan.counts with skipped := plan.counts.skipped + 1 } }

/-- The root of the comment's chain, in this CSV or in a prior run. -/
def threadOf (ctx : Context) (plan : Plan) (comment : Resolved) : Option String :=
  match comment.parentCommentId, comment.rootCommentId, comment.externalParentId with
  | none, _, _ => none
  | some _, some root, _ => plan.annotationIdByComment root
  | some _, none, some parentId =>
    (((ctx.ledger.record parentId).bind (·.annotationId)).bind ctx.ledger.annotations).bind
    fun parent =>
      if parent.sessionId = ctx.reviewSessionId then some (parent.parentId.getD parent.id) else none
  | some _, none, none => none

def pinRegion (pin : Pin) : Box Value := ⟨.number pin.x, .number pin.y, .number 0, .number 0⟩

def positionOf (comment : Comment) (parentId : Option String) : Input :=
  if parentId.isSome ∨ comment.parentCommentId.isSome then
    ⟨parentId, none, none, none, none, .null, none⟩
  else
    ⟨parentId, none, comment.page.map (↑), comment.pin.map pinRegion,
      comment.pin.map fun _ => "pin",
      .null, none⟩

/-- The warnings on the parent and the position of a comment. -/
def warnPlace (plan : Plan) (comment : Comment) (parentId : Option String) : Plan :=
  let plan := plan.warnIf (comment.parentCommentId.isSome && parentId.isNone)
    (comment.finding "PARENT_MISSING"
      ("The comment this replies to is not in the CSV or the Hub; " ++
      "imported as a top-level comment without a pin"))
  let plan := match comment.pinProblem with
    | none => plan
    | some problem => plan.warnIf comment.parentCommentId.isNone
        (comment.finding problem.code s!"{problem.error}; imported without a pin")
  plan.warnIf (comment.parentCommentId.isSome &&
      (comment.pin.isSome || comment.pinProblem.isSome || comment.page.isSome))
    (comment.finding "REPLY_POSITION_IGNORED"
      "Replies have no page or pin in Ashbi; the position is ignored")

/-- The author of a comment is mapped to a staff user, or noted once. -/
def noteAuthor (plan : Plan) (comment : Comment) (staffId : Option String) : Plan :=
  match staffId, comment.authorEmail with
  | some _, some email => { plan with mappedAuthors := plan.mappedAuthors.insert email }
  | _, _ =>
    let author := (comment.authorEmail, comment.authorName)
    if author ∈ plan.unmappedAuthors then plan
    else
      { plan.warn ⟨"UNKNOWN_AUTHOR", "No active Ashbi staff user has this email; comments are " ++
          "imported under the display name", none, none, comment.authorEmail,
          some comment.authorName⟩ with
        unmappedAuthors := plan.unmappedAuthors ++ [author] }

/-- Only a top-level comment is resolved. -/
def isResolved (comment : Comment) (parentId : Option String) : Bool :=
  parentId.isNone && comment.status = .resolved

def annotationRow (ctx : Context) (comment : Comment) (staffId : Option String) (id : String)
    (parentId : Option String) : AnnotationRow where
  toPosition := annotationPositionData (positionOf comment parentId)
  id := id
  sessionId := ctx.reviewSessionId
  parentId := parentId
  authorType := if staffId.isSome then "staff" else "guest"
  authorUserId := staffId
  authorName := (Js.truthy (staffId.bind ctx.staffNameById)).getD comment.authorName
  authorEmail := if staffId.isSome then none else comment.authorEmail
  body := comment.body
  resolvedAt := if isResolved comment parentId then some ctx.now else none
  resolvedById := if isResolved comment parentId then some ctx.operatorId else none
  createdAt := comment.createdAt

def recordRow (ctx : Context) (session : Session) (comment : Comment) (id annotationId : String) :
    RecordRow where
  id := id
  organizationId := ctx.organizationId
  projectId := ctx.projectId
  runId := ctx.runId
  sourceKey := comment.sourceKey
  markupProject := session.markupProject
  fileName := session.fileName
  commentId := comment.commentId
  threadId := comment.threadId
  reviewSessionId := ctx.reviewSessionId
  annotationId := annotationId
  contentSha256 := comment.contentSha256

/-- An annotation under the next id, with its record in a live run. -/
def addComment (ctx : Context) (session : Session) (plan : Plan) (comment : Comment)
    (staffId parentId : Option String) : Plan :=
  let id := ctx.randomUUID.id plan.uuids
  let plan := plan.setThread comment.commentId (parentId.getD id)
  let counts := { plan.counts with
    replies := plan.counts.replies + if parentId.isSome then 1 else 0
    pins := plan.counts.pins + if comment.parentCommentId.isNone && comment.pin.isSome then 1 else 0
    resolved := plan.counts.resolved + if isResolved comment parentId then 1 else 0 }
  if ctx.apply then
    { plan with
      uuids := plan.uuids + 2
      annotationRows := plan.annotationRows ++ [annotationRow ctx comment staffId id parentId]
      recordRows := plan.recordRows ++
        [recordRow ctx session comment (ctx.randomUUID.id (plan.uuids + 1)) id]
      counts := { counts with created := counts.created + 1 } }
  else { plan with
    uuids := plan.uuids + 1
    counts := { counts with planned := counts.planned + 1 } }

/-- A comment that no earlier run has imported. -/
def planNew (ctx : Context) (session : Session) (plan : Plan) (comment : Resolved) : Plan :=
  let parentId := threadOf ctx plan comment
  let plan := warnPlace plan comment.toComment parentId
  match annotationPositionError session.kind (positionOf comment.toComment parentId) with
  | some error => plan.blocking (comment.finding "INVALID_POSITION" error)
  | none =>
    let staffId := comment.authorEmail.bind ctx.staffByEmail
    addComment ctx session (noteAuthor plan comment.toComment staffId) comment.toComment staffId
      parentId

def planComment (ctx : Context) (session : Session) (plan : Plan) (comment : Resolved) : Plan :=
  if comment.cycle then plan
  else match ctx.ledger.record comment.commentId with
    | some record => planKnown ctx plan comment.toComment record
    | none => if ctx.acceptsNew then planNew ctx session plan comment else planClosed session plan

/-- The comments of one session, after its threads are resolved. -/
def planSession (ctx : Context) (session : Session) (plan : Plan) : Plan :=
  let (findings, comments) := resolveMarkupThreads session
  comments.foldl (planComment ctx session) (findings.foldl Plan.blocking plan)

end Ashbi.Imports.Markup

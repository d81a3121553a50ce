import Ashbi.Review.Statements

/-! The requests on reviews: staff, share links and the client portal. -/

namespace Ashbi.Review

open Interleaving

open Throws (stmt read require found mapError)

def inTransaction {α : Type} (body : Throws Stmt Failure α) : Throws Stmt Failure α :=
  Throws.transaction .commit .rollback body

/-! ### Parts of several requests -/

def loadSession (selects : Session → Bool) (failure : Failure) : Throws Stmt Failure Session := do
  let session ← stmt (.findSession selects)
  found session failure

/-- The annotation that is replied to is a top-level one of the session. -/
def checkParent (sessionId : ℕ) (parentId : Option ℕ) (failure : Failure) :
    Throws Stmt Failure Unit :=
  match parentId with
  | none => pure ()
  | some id => do
    let parent ← stmt (.annotationFindFirst fun comment =>
      comment.id = id && comment.sessionId = sessionId && comment.parentId.isNone)
    require parent.isSome failure

/-- `annotationLimitFailure`. -/
def checkLimit (sessionId : ℕ) (shareLinkId : Option ℕ) : Throws Stmt Failure Unit := do
  let total ← stmt (.countAnnotations (·.sessionId = sessionId))
  require (total < annotationsPerSessionMax)
    (limitReached "This review has reached its limit of 2000 comments")
  match shareLinkId with
  | none => pure ()
  | some id => do
    let linked ← stmt (.countAnnotations (·.author.shareLinkId = some id))
    require (linked < annotationsPerLinkMax)
      (limitReached "This review link has reached its limit of 500 comments")

def annotateBody (session : Session) (author : Author) (parentId : Option ℕ) (body : String) :
    Throws Stmt Failure Annotation := do
  let locked ← stmt (.lockOpenSession session.id)
  require (locked = 1) .reviewSessionClosed
  stmt (.annotationCreate session author parentId body)

def decideBody (session : Session) (author : Author) (decision : Verdict) (note : Option String) :
    Throws Stmt Failure Decision := do
  let row ← stmt (.createDecision session author decision note)
  let moved ← stmt (.applyDecisionStatus session.id decision)
  require (moved = 1) .reviewSessionClosed
  pure row

/-- The note of a decision. -/
def decisionNote (note : Option String) : Option String :=
  Js.truthy (note.map fun note => Js.sliceTo 2000 (sanitizePlainText note))

/-! ### Versions -/

/-- The session that a new version replaces. -/
def loadPrevious (previousSessionId : ℕ) (projectId : String) : Throws Stmt Failure Session := do
  let previous ← loadSession
    (fun session => session.id = previousSessionId && session.projectId = projectId)
    (.refused 404 "Previous review session not found in this project" none)
  let next ← stmt (.findSession (·.previousSessionId = some previous.id))
  require next.isNone newerVersion
  pure previous

def versionBody (projectId : String) (previous : Option Session) (createdById : String) :
    Throws Stmt Failure Session := do
  let created ← stmt (.createSession projectId previous createdById)
  match previous with
  | some session =>
    if session.status ≠ .closed then do
      stmt (.closeSession session.id)
      pure created
    else pure created
  | none => pure created

def createVersionedSession (projectId : String) (previous : Option Session)
    (createdById : String) : Throws Stmt Failure Session :=
  mapError (fun failure => if failure = .uniqueViolation then newerVersion else failure)
    (inTransaction (versionBody projectId previous createdById))

/-- A new review, or a new version of one; a recapture reads the session it replaces twice. -/
def createReview (projectId : String) (previousSessionId : Option ℕ) (createdById : String) :
    Throws Stmt Failure Session :=
  match previousSessionId with
  | none => createVersionedSession projectId none createdById
  | some id => do
    let previous ← loadPrevious id projectId
    createVersionedSession projectId (some previous) createdById

/-! ### Staff -/

section Staff

variable (projects : String → Bool) (sessionId : ℕ)

/-- `projects` are those of the organization that are not in the trash. -/
def loadStaffSession : Throws Stmt Failure Session :=
  loadSession (·.isOf sessionId projects) sessionNotFound

def annotate (author : Author) (parentId : Option ℕ) (text : String) :
    Throws Stmt Failure Annotation := do
  let session ← loadStaffSession projects sessionId
  require (canWriteToSession session) sessionClosed
  checkParent session.id parentId parentNotFound
  let body := sanitizePlainText text
  require (body ≠ "") bodyEmpty
  checkLimit session.id none
  mapError (closedMeanwhile "This review session is closed")
    (inTransaction (annotateBody session author parentId body))

/-- Resolve or reopen a top-level annotation. -/
def resolveOrReopen (annotationId : ℕ) (resolved : Bool) (userId : String) :
    Throws Stmt Failure Annotation := do
  let session ← loadStaffSession projects sessionId
  require (canWriteToSession session) sessionClosed
  let existing ← stmt (.annotationFindFirst fun comment => comment.id = annotationId &&
    comment.sessionId = session.id && comment.parentId.isNone)
  let comment ← found existing annotationNotFound
  let now ← read .now
  stmt (.resolve session comment (if resolved then
    some (comment.resolvedAt.getD now, comment.resolvedById.getD userId) else none))

def recordDecision (author : Author) (decision : Verdict) (note : Option String) :
    Throws Stmt Failure Decision := do
  let session ← loadStaffSession projects sessionId
  require (canWriteToSession session) sessionClosed
  mapError (closedMeanwhile "This review session is closed")
    (inTransaction (decideBody session author decision (decisionNote note)))

/-- `none` leaves a field as it was read. -/
def changeClientAccess (sharedWithClient clientCanDecide : Option Bool) :
    Throws Stmt Failure (Bool × Bool) := do
  let session ← loadStaffSession projects sessionId
  let shared := sharedWithClient.getD session.sharedWithClient
  require (shared || clientCanDecide ≠ some true)
    (.refused 409 "Share the review with the client before letting them decide"
      (some "REVIEW_NOT_SHARED"))
  let canDecide := shared && clientCanDecide.getD session.clientCanDecide
  require (canDecide = session.clientCanDecide || canWriteToSession session) sessionClosed
  if shared ≠ session.sharedWithClient || canDecide ≠ session.clientCanDecide then do
    stmt (.updateClientAccess session shared canDecide)
    pure (shared, canDecide)
  else pure (shared, canDecide)

/-- `SHARE_LINK_DEFAULT_DAYS` are 14. -/
def addShareLink (sha256 : String → String) (expiresInDays : Option ℤ) (allowDecision : Bool)
    (userId : String) : Throws Stmt Failure (ShareLink × String) := do
  let session ← loadStaffSession projects sessionId
  require (canWriteToSession session) sessionClosed
  let now ← read .now
  let days := expiresInDays.getD 14
  require (1 ≤ days && days ≤ 90)
    (.refused 400 "expiresInDays must be a whole number from 1 to 90" none)
  let token ← read .randomToken
  let link ← stmt (.createShareLink session (sha256 token) (now + days * 86400000) allowDecision
    userId)
  pure (link, token)

/-- Revocation is idempotent. -/
def revokeLink (linkId : ℕ) (userId : String) : Throws Stmt Failure ShareLink := do
  let session ← loadStaffSession projects sessionId
  let row ← stmt (.findShareLink fun link => link.id = linkId && link.sessionId = session.id)
  let link ← found row (.refused 404 "Share link not found" none)
  if link.revokedAt.isSome then pure link
  else do
    let now ← read .now
    stmt (.revokeShareLink link now userId)

end Staff

/-! ### Share links -/

/-- `SHARE_TOKEN_FORMAT`. -/
def isWellFormedShareToken (token : String) : Bool :=
  token.length = 43 && token.toList.all fun c =>
    ('A' ≤ c && c ≤ 'Z') || ('a' ≤ c && c ≤ 'z') || ('0' ≤ c && c ≤ '9') || c = '_' || c = '-'

section Guest

variable (sha256 : String → String) (projects : String → Bool) (token : String)

/-- The share link in the URL and its usable session. -/
def resolveShareLink : Throws Stmt Failure (ShareLink × Session) := do
  require (isWellFormedShareToken token) linkNotFound
  let row ← stmt (.findShareLink (·.tokenHash = sha256 token))
  let link ← found row linkNotFound
  let row ← stmt (.findSession (·.id = link.sessionId))
  let checkedAt ← read .now
  require (!shareLinkFailure link checkedAt) linkNotFound
  let session ← found row linkNotFound
  require (projects session.projectId) linkNotFound
  let now ← read .now
  let _ ← stmt (.useShareLink link now)
  pure (link, session)

def guestAnnotate (guestName : String) (email : Option String) (parentId : Option ℕ)
    (text : String) : Throws Stmt Failure Annotation := do
  let (link, session) ← resolveShareLink sha256 projects token
  require (canWriteToSession session) reviewClosed
  let name := sanitizeGuestName guestName
  let body := sanitizePlainText text
  require (name ≠ "") nameEmpty
  require (body ≠ "") bodyEmpty
  checkParent session.id parentId commentNotFound
  checkLimit session.id (some link.id)
  mapError (closedMeanwhile "This review is closed")
    (inTransaction (annotateBody session (.guest link name email) parentId body))

def guestDecide (guestName : String) (email : Option String) (decision : Verdict)
    (note : Option String) : Throws Stmt Failure Decision := do
  let (link, session) ← resolveShareLink sha256 projects token
  require link.allowDecision (.refused 403 "This review link cannot record decisions" none)
  require (canWriteToSession session) reviewClosed
  let name := sanitizeGuestName guestName
  require (name ≠ "") nameEmpty
  let count ← stmt (.countDecisions (·.author.shareLinkId = some link.id))
  require (count = 0) decisionRecorded
  mapError (fun failure => if failure = .uniqueViolation then decisionRecorded
      else closedMeanwhile "This review is closed" failure)
    (inTransaction (decideBody session (.guest link name email) decision (decisionNote note)))

end Guest

/-! ### The client portal -/

section Client

variable (projects : String → Bool) (sessionId : ℕ) (author : Author)

/-- `projects` are those of the user's client that are not in the trash. -/
def loadClientSession : Throws Stmt Failure Session :=
  loadSession (fun session => session.id = sessionId && sessionScope projects session)
    reviewNotFound

def clientAnnotate (parentId : Option ℕ) (text : String) : Throws Stmt Failure Annotation := do
  let session ← loadClientSession projects sessionId
  require (canWriteToSession session) reviewClosed
  let body := sanitizePlainText text
  require (body ≠ "") bodyEmpty
  checkParent session.id parentId commentNotFound
  checkLimit session.id none
  let own ← stmt (.countAnnotations fun comment =>
    comment.sessionId = session.id && comment.author.userId = author.userId)
  require (own < annotationsPerLinkMax)
    (limitReached "You have reached the limit of 500 comments on this review")
  mapError (closedMeanwhile "This review is closed")
    (inTransaction (annotateBody session author parentId body))

def clientDecide (decision : Verdict) (note : Option String) : Throws Stmt Failure Decision := do
  let session ← loadClientSession projects sessionId
  require session.clientCanDecide
    (.refused 403 "Decisions on this review are made by the team"
      (some "CLIENT_DECISION_NOT_ALLOWED"))
  require (canWriteToSession session) reviewClosed
  mapError (closedMeanwhile "This review is closed")
    (inTransaction (decideBody session author decision (decisionNote note)))

end Client

/-! ### Requests -/

inductive Request
  | createReview (projectId : String) (previousSessionId : Option ℕ) (createdById : String)
  | annotate (projects : String → Bool) (sessionId : ℕ) (userId name : String)
      (parentId : Option ℕ) (text : String)
  | resolve (projects : String → Bool) (sessionId annotationId : ℕ) (resolved : Bool)
      (userId : String)
  | decide (projects : String → Bool) (sessionId : ℕ) (userId name : String) (decision : Verdict)
      (note : Option String)
  | clientAccess (projects : String → Bool) (sessionId : ℕ)
      (sharedWithClient clientCanDecide : Option Bool)
  | addShareLink (projects : String → Bool) (sessionId : ℕ) (expiresInDays : Option ℤ)
      (allowDecision : Bool) (userId : String)
  | revokeShareLink (projects : String → Bool) (sessionId linkId : ℕ) (userId : String)
  | guestAnnotate (projects : String → Bool) (token name : String) (email : Option String)
      (parentId : Option ℕ) (text : String)
  | guestDecide (projects : String → Bool) (token name : String) (email : Option String)
      (decision : Verdict) (note : Option String)
  | clientAnnotate (projects : String → Bool) (sessionId : ℕ) (userId name : String)
      (email : Option String) (parentId : Option ℕ) (text : String)
  | clientDecide (projects : String → Bool) (sessionId : ℕ) (userId name : String)
      (email : Option String) (decision : Verdict) (note : Option String)

def answered {α : Type} (p : Throws Stmt Failure α) : Prog Stmt Unit := p.run.bind fun _ => .ret ()

def Request.program (sha256 : String → String) : Request → Prog Stmt Unit
  | .createReview projectId previousSessionId createdById =>
    answered (Review.createReview projectId previousSessionId createdById)
  | .annotate projects sessionId userId name parentId text =>
    answered (Review.annotate projects sessionId (.staff userId name) parentId text)
  | .resolve projects sessionId annotationId resolved userId =>
    answered (resolveOrReopen projects sessionId annotationId resolved userId)
  | .decide projects sessionId userId name decision note =>
    answered (recordDecision projects sessionId (.staff userId name) decision note)
  | .clientAccess projects sessionId sharedWithClient clientCanDecide =>
    answered (changeClientAccess projects sessionId sharedWithClient clientCanDecide)
  | .addShareLink projects sessionId expiresInDays allowDecision userId =>
    answered (Review.addShareLink projects sessionId sha256 expiresInDays allowDecision userId)
  | .revokeShareLink projects sessionId linkId userId =>
    answered (revokeLink projects sessionId linkId userId)
  | .guestAnnotate projects token name email parentId text =>
    answered (Review.guestAnnotate sha256 projects token name email parentId text)
  | .guestDecide projects token name email decision note =>
    answered (Review.guestDecide sha256 projects token name email decision note)
  | .clientAnnotate projects sessionId userId name email parentId text =>
    answered (Review.clientAnnotate projects sessionId (.client userId name email) parentId text)
  | .clientDecide projects sessionId userId name email decision note =>
    answered (Review.clientDecide projects sessionId (.client userId name email) decision note)

/-- A program that answers a request. -/
def Requested (sha256 : String → String) (p : Prog Stmt Unit) : Prop :=
  ∃ request : Request, p = request.program sha256

end Ashbi.Review

import Ashbi.Interleaving.Transaction
import Ashbi.Interleaving.Versions
import Ashbi.Js

/-! Review sessions with their annotations, decisions and share links, what is checked of them, and
the requests as programs over database statements. -/

namespace Ashbi.Review

/-- `REVIEW_DECISIONS`. -/
inductive Verdict
  | approved
  | changesRequested
  deriving DecidableEq

/-- `REVIEW_STATUSES`. -/
inductive Status
  | open
  | approved
  | changesRequested
  | closed
  deriving DecidableEq

def Verdict.status : Verdict → Status
  | .approved => .approved
  | .changesRequested => .changesRequested

/-- A row of `review_sessions`. -/
structure Session where
  id : ℕ
  projectId : String
  status : Status
  version : ℕ
  sharedWithClient : Bool
  clientCanDecide : Bool
  previousSessionId : Option ℕ
  createdById : String
  deriving DecidableEq

/-- A row of `review_share_links`. -/
structure ShareLink where
  id : ℕ
  sessionId : ℕ
  tokenHash : String
  expiresAt : Time
  revokedAt : Option Time
  revokedById : Option String
  allowDecision : Bool
  createdById : String
  lastUsedAt : Option Time
  deriving DecidableEq

/-- Who writes, with the share link as the request has read it. -/
inductive Author
  | staff (userId name : String)
  | guest (link : ShareLink) (name : String) (email : Option String)
  | client (userId name : String) (email : Option String)
  deriving DecidableEq

def Author.userId : Author → Option String
  | .staff userId _ => some userId
  | .guest _ _ _ => none
  | .client userId _ _ => some userId

def Author.shareLinkId : Author → Option ℕ
  | .staff _ _ => none
  | .guest link _ _ => some link.id
  | .client _ _ _ => none

/-- A row of `review_annotations`, without its position on the reviewed file. -/
structure Annotation where
  id : ℕ
  sessionId : ℕ
  parentId : Option ℕ
  author : Author
  body : String
  resolvedAt : Option Time
  resolvedById : Option String
  deriving DecidableEq

/-- A row of `review_decisions`; `createdAt` is its place among the decisions in the order in which
they are inserted. -/
structure Decision where
  sessionId : ℕ
  decision : Verdict
  author : Author
  note : Option String
  createdAt : ℕ
  deriving DecidableEq

/-- What a request is answered with when it throws. -/
inductive Failure
  | refused (statusCode : ℕ) (error : String) (code : Option String)
  | reviewSessionClosed
  | uniqueViolation
  | checkViolation
  | recordNotFound
  | interrupted
  deriving DecidableEq

def sessionNotFound : Failure := .refused 404 "Review session not found" none

def reviewNotFound : Failure := .refused 404 "Review not found" none

def linkNotFound : Failure := .refused 404 "Review link not found" none

def sessionClosed : Failure := .refused 409 "This review session is closed" none

def reviewClosed : Failure := .refused 409 "This review is closed" none

def parentNotFound : Failure := .refused 404 "Annotation to reply to not found" none

def commentNotFound : Failure := .refused 404 "Comment to reply to not found" none

def annotationNotFound : Failure := .refused 404 "Annotation not found" none

def bodyEmpty : Failure := .refused 400 "body: Comment cannot be empty" none

def nameEmpty : Failure := .refused 400 "name: Enter your name" none

def newerVersion : Failure :=
  .refused 409 "That review session already has a newer version" none

def decisionRecorded : Failure := .refused 409
  "A decision has already been recorded through this review link"
  (some "SHARE_LINK_DECISION_RECORDED")

def limitReached (error : String) : Failure := .refused 409 error (some "ANNOTATION_LIMIT_REACHED")

/-- Where the session was closed after it was read. -/
def closedMeanwhile (error : String) (failure : Failure) : Failure :=
  if failure = .reviewSessionClosed then .refused 409 error
    (some "REVIEW_SESSION_CLOSED") else failure

/-- `ANNOTATIONS_PER_SESSION_MAX`. -/
def annotationsPerSessionMax : ℕ := 2000

/-- `ANNOTATIONS_PER_LINK_MAX`. -/
def annotationsPerLinkMax : ℕ := 500

def canWriteToSession (session : Session) : Bool := session.status ≠ .closed

/-- Whether a share link cannot be used. -/
def shareLinkFailure (link : ShareLink) (now : Time) : Bool :=
  link.revokedAt.isSome || link.expiresAt ≤ now

/-- The staff, on a project that is not in the trash. -/
def Session.isOf (session : Session) (id : ℕ) (projects : String → Bool) : Bool :=
  session.id = id && projects session.projectId

/-- `sessionScope`, where `projects` are those of the client user that are not in the trash. -/
def sessionScope (projects : String → Bool) (session : Session) : Bool :=
  session.sharedWithClient && projects session.projectId

/-- The control characters and bidi overrides that a text may not have. -/
def isUnsafeText (c : Char) : Bool :=
  let code := c.toNat
  code ≤ 0x8 || code = 0xb || code = 0xc || (0xe ≤ code && code ≤ 0x1f) || code = 0x7f ||
    (0x202a ≤ code && code ≤ 0x202e) || (0x2066 ≤ code && code ≤ 0x2069)

/-- `replace(/\r\n?/g, '\n')`. -/
def unixLines : List Char → List Char
  | '\r' :: '\n' :: rest => '\n' :: unixLines rest
  | '\r' :: rest => '\n' :: unixLines rest
  | c :: rest => c :: unixLines rest
  | [] => []

def sanitizePlainText (text : String) : String :=
  Js.trim (String.ofList ((unixLines text.toList).filter (!isUnsafeText ·)))

/-- `replace(/\s+/g, ' ')`; `spaced` is whether a space was just written. -/
def singleSpaces (spaced : Bool) : List Char → List Char
  | [] => []
  | c :: rest =>
    if Js.isSpace c then if spaced then singleSpaces true rest else ' ' :: singleSpaces true rest
    else c :: singleSpaces false rest

/-- Single-line display name of a guest. -/
def sanitizeGuestName (name : String) : String :=
  Js.trim (Js.sliceTo 120 (String.ofList (singleSpaces false (sanitizePlainText name).toList)))

/-! ### The statements of review requests -/

open Interleaving

/-! ### The database -/

/-- `posted` and `recorded` are the annotations and decisions of open transactions. `cuid()` gives
the ids of each table in turn. -/
structure Db where
  sessions : Versions ℕ Session
  sessionCount : ℕ
  annotations : List Annotation
  posted : List (ℕ × Annotation)
  annotationCount : ℕ
  decisions : List Decision
  recorded : List (ℕ × Decision)
  decisionCount : ℕ
  shareLinks : List ShareLink

def Db.empty : Db := ⟨⟨fun _ => none, fun _ => none⟩, 0, [], [], 0, [], [], 0, []⟩

def Db.postedBy (db : Db) (i : ℕ) : List Annotation :=
  (db.posted.filter (·.1 = i)).map (·.2)

def Db.recordedBy (db : Db) (i : ℕ) : List Decision :=
  (db.recorded.filter (·.1 = i)).map (·.2)

/-- The sessions that thread `i` sees. -/
def Db.sessionsOf (db : Db) (i : ℕ) : List Session :=
  (List.range db.sessionCount).filterMap (db.sessions.read i)

def Db.rollback (db : Db) (i : ℕ) : Db :=
  { db with
    sessions := db.sessions.rollback i
    posted := db.posted.filter (·.1 ≠ i)
    recorded := db.recorded.filter (·.1 ≠ i) }

def Db.commit (db : Db) (i : ℕ) : Db :=
  { db with
    sessions := db.sessions.commit i
    annotations := db.annotations ++ db.postedBy i
    posted := db.posted.filter (·.1 ≠ i)
    decisions := db.decisions ++ db.recordedBy i
    recorded := db.recorded.filter (·.1 ≠ i) }

/-- What the environment decides: the clock, a random token, and whether the statement is lost. -/
structure Choice where
  now : Time
  token : String
  interrupted : Bool

/-- A statement that writes goes with the rows that its request has read. -/
inductive Stmt : Type → Type
  /-- `new Date()`. -/
  | now : Stmt Time
  /-- `generateShareToken`. -/
  | randomToken : Stmt String
  | findSession (selects : Session → Bool) : Stmt (Except Failure (Option Session))
  | findShareLink (selects : ShareLink → Bool) : Stmt (Except Failure (Option ShareLink))
  | annotationFindFirst (selects : Annotation → Bool) : Stmt (Except Failure (Option Annotation))
  | countAnnotations (selects : Annotation → Bool) : Stmt (Except Failure ℕ)
  | countDecisions (selects : Decision → Bool) : Stmt (Except Failure ℕ)
  /-- The `updateMany` of `lastUsedAt`. -/
  | useShareLink (link : ShareLink) (now : Time) : Stmt (Except Failure ℕ)
  | createSession (projectId : String) (previous : Option Session) (createdById : String) :
      Stmt (Except Failure Session)
  /-- The `update` of `createVersionedSession`. -/
  | closeSession (id : ℕ) : Stmt (Except Failure Unit)
  /-- The `updateMany` of `lockOpenSession`. -/
  | lockOpenSession (id : ℕ) : Stmt (Except Failure ℕ)
  /-- The `updateMany` of `applyDecisionStatus`. -/
  | applyDecisionStatus (id : ℕ) (decision : Verdict) : Stmt (Except Failure ℕ)
  | annotationCreate (session : Session) (author : Author) (parentId : Option ℕ) (body : String) :
      Stmt (Except Failure Annotation)
  | createDecision (session : Session) (author : Author) (decision : Verdict)
      (note : Option String) : Stmt (Except Failure Decision)
  /-- The `update` that resolves or reopens, a transaction of its own. -/
  | resolve (session : Session) (comment : Annotation) (resolution : Option (Time × String)) :
      Stmt (Except Failure Annotation)
  /-- The `update` of the client's access, a transaction of its own. -/
  | updateClientAccess (session : Session) (sharedWithClient clientCanDecide : Bool) :
      Stmt (Except Failure Unit)
  /-- A transaction of its own. -/
  | createShareLink (session : Session) (tokenHash : String) (expiresAt : Time)
      (allowDecision : Bool) (createdById : String) : Stmt (Except Failure ShareLink)
  /-- A transaction of its own. -/
  | revokeShareLink (link : ShareLink) (now : Time) (userId : String) :
      Stmt (Except Failure ShareLink)
  | commit : Stmt (Except Failure Unit)
  | rollback : Stmt Unit

/-- A statement waits for the transaction that holds the row that it wants, or that may yet commit
a value of a unique index. -/
def enabled {β : Type} (i : ℕ) (st : Stmt β) (db : Db) : Bool :=
  match st with
  | .createSession _ (some previous) _ => !(List.range db.sessionCount).any fun id =>
      (db.sessions.rows id).isNone && (db.sessions.written id).any fun version =>
        version.1 ≠ i && version.2.previousSessionId = some previous.id
  | .closeSession id => !db.sessions.locked i id
  | .lockOpenSession id => !db.sessions.locked i id
  | .applyDecisionStatus id _ => !db.sessions.locked i id
  | .updateClientAccess session _ _ => (db.sessions.written session.id).isNone
  | .createDecision _ author _ _ => !db.recorded.any fun row =>
      row.1 ≠ i && row.2.author.shareLinkId.isSome &&
        row.2.author.shareLinkId = author.shareLinkId
  | _ => true

/-- A new session, or the next version of `previous`; the unique index admits one. -/
def createSession (i : ℕ) (projectId : String) (previous : Option Session) (createdById : String)
    (db : Db) : Except Failure Session × Db :=
  if previous.any fun p => (db.sessionsOf i).any (·.previousSessionId = some p.id) then
    (.error .uniqueViolation, db)
  else
    let session : Session :=
      { id := db.sessionCount
        projectId := projectId
        status := .open
        version := (previous.map (·.version + 1)).getD 1
        sharedWithClient := previous.any (·.sharedWithClient)
        clientCanDecide := false
        previousSessionId := previous.map (·.id)
        createdById := createdById }
    (.ok session, { db with
      sessions := db.sessions.write i db.sessionCount session
      sessionCount := db.sessionCount + 1 })

def closeSession (i id : ℕ) (db : Db) : Except Failure Unit × Db :=
  match db.sessions.read i id with
  | none => (.error .recordNotFound, db)
  | some session =>
    (.ok (), { db with sessions := db.sessions.write i id { session with status := .closed } })

/-- An update of a session that is not closed. -/
def updateOpen (i id : ℕ) (write : Session → Session) (db : Db) : Except Failure ℕ × Db :=
  match (db.sessions.read i id).filter (·.status ≠ .closed) with
  | none => (.ok 0, db)
  | some session => (.ok 1, { db with sessions := db.sessions.write i id (write session) })

def annotationCreate (i : ℕ) (session : Session) (author : Author) (parentId : Option ℕ)
    (body : String) (db : Db) : Except Failure Annotation × Db :=
  let comment : Annotation :=
    { id := db.annotationCount
      sessionId := session.id
      parentId := parentId
      author := author
      body := body
      resolvedAt := none
      resolvedById := none }
  (.ok comment, { db with
    posted := db.posted ++ [(i, comment)]
    annotationCount := db.annotationCount + 1 })

/-- A new decision; the unique index admits one of a share link. -/
def createDecision (i : ℕ) (session : Session) (author : Author) (decision : Verdict)
    (note : Option String) (db : Db) : Except Failure Decision × Db :=
  if author.shareLinkId.isSome && ((db.decisions ++ db.recordedBy i).any fun row =>
      row.author.shareLinkId = author.shareLinkId) then
    (.error .uniqueViolation, db)
  else
    let row : Decision :=
      { sessionId := session.id
        decision := decision
        author := author
        note := note
        createdAt := db.decisionCount }
    (.ok row, { db with
      recorded := db.recorded ++ [(i, row)]
      decisionCount := db.decisionCount + 1 })

def Annotation.resolved (comment : Annotation) (resolution : Option (Time × String)) :
    Annotation :=
  { comment with
    resolvedAt := resolution.map (·.1)
    resolvedById := resolution.map (·.2) }

def resolve (comment : Annotation) (resolution : Option (Time × String)) (db : Db) :
    Except Failure Annotation × Db :=
  match db.annotations.find? (·.id = comment.id) with
  | none => (.error .recordNotFound, db)
  | some row => (.ok (row.resolved resolution), { db with
      annotations := db.annotations.map fun row =>
        if row.id = comment.id then row.resolved resolution else row })

/-- The table admits decisions of a client only where the session is shared. -/
def updateClientAccess (session : Session) (sharedWithClient clientCanDecide : Bool) (db : Db) :
    Except Failure Unit × Db :=
  match db.sessions.rows session.id with
  | none => (.error .recordNotFound, db)
  | some row =>
    if clientCanDecide && !sharedWithClient then (.error .checkViolation, db)
    else (.ok (), { db with
      sessions := { db.sessions with
        rows := Function.update db.sessions.rows session.id (some { row with
          sharedWithClient := sharedWithClient
          clientCanDecide := clientCanDecide }) } })

def createShareLink (session : Session) (tokenHash : String) (expiresAt : Time)
    (allowDecision : Bool) (createdById : String) (db : Db) : Except Failure ShareLink × Db :=
  if db.shareLinks.any (·.tokenHash = tokenHash) then (.error .uniqueViolation, db)
  else
    let link : ShareLink :=
      { id := db.shareLinks.length
        sessionId := session.id
        tokenHash := tokenHash
        expiresAt := expiresAt
        revokedAt := none
        revokedById := none
        allowDecision := allowDecision
        createdById := createdById
        lastUsedAt := none }
    (.ok link, { db with shareLinks := db.shareLinks ++ [link] })

/-- An update of the share link of an id. -/
def Db.updateShareLink (db : Db) (id : ℕ) (write : ShareLink → ShareLink) : Db :=
  { db with shareLinks := db.shareLinks.map fun row => if row.id = id then write row else row }

/-- `LAST_USED_RESOLUTION_MS`. -/
def lastUsedResolution : ℤ := 60000

/-- One write a minute. -/
def useShareLink (link : ShareLink) (now : Time) (db : Db) : Except Failure ℕ × Db :=
  let due := fun row : ShareLink => row.id = link.id &&
    row.lastUsedAt.all fun lastUsedAt => lastUsedAt < now - lastUsedResolution
  (.ok (db.shareLinks.countP due), db.updateShareLink link.id fun row =>
    if due row then { row with lastUsedAt := some now } else row)

def ShareLink.revoked (link : ShareLink) (now : Time) (userId : String) : ShareLink :=
  { link with
    revokedAt := some now
    revokedById := some userId }

def revokeShareLink (link : ShareLink) (now : Time) (userId : String) (db : Db) :
    Except Failure ShareLink × Db :=
  match db.shareLinks.find? (·.id = link.id) with
  | none => (.error .recordNotFound, db)
  | some row => (.ok (row.revoked now userId), db.updateShareLink link.id (·.revoked now userId))

/-- A statement that is not lost. -/
def run {β : Type} (i : ℕ) (st : Stmt β) (ch : Choice) (db : Db) : β × Db :=
  match st with
  | .now => (ch.now, db)
  | .randomToken => (ch.token, db)
  | .findSession selects => (.ok ((db.sessionsOf i).find? selects), db)
  | .findShareLink selects => (.ok (db.shareLinks.find? selects), db)
  | .annotationFindFirst selects => (.ok (db.annotations.find? selects), db)
  | .countAnnotations selects => (.ok (db.annotations.countP selects), db)
  | .countDecisions selects => (.ok (db.decisions.countP selects), db)
  | .useShareLink link now => useShareLink link now db
  | .createSession projectId previous createdById =>
    createSession i projectId previous createdById db
  | .closeSession id => closeSession i id db
  | .lockOpenSession id => updateOpen i id (fun session => session) db
  | .applyDecisionStatus id decision =>
    updateOpen i id (fun session => { session with status := decision.status }) db
  | .annotationCreate session author parentId body =>
    annotationCreate i session author parentId body db
  | .createDecision session author decision note =>
    createDecision i session author decision note db
  | .resolve _ comment resolution => resolve comment resolution db
  | .updateClientAccess session sharedWithClient clientCanDecide =>
    updateClientAccess session sharedWithClient clientCanDecide db
  | .createShareLink session tokenHash expiresAt allowDecision createdById =>
    createShareLink session tokenHash expiresAt allowDecision createdById db
  | .revokeShareLink link now userId => revokeShareLink link now userId db
  | .commit => (.ok (), db.commit i)
  | .rollback => ((), db.rollback i)

/-- A statement that is lost does nothing; a commit that is lost is undone. -/
def lost {β : Type} (i : ℕ) (st : Stmt β) (ch : Choice) (db : Db) : β × Db :=
  match st with
  | .now => (ch.now, db)
  | .randomToken => (ch.token, db)
  | .commit => (.error .interrupted, db.rollback i)
  | .rollback => ((), db.rollback i)
  | .findSession _ => (.error .interrupted, db)
  | .findShareLink _ => (.error .interrupted, db)
  | .annotationFindFirst _ => (.error .interrupted, db)
  | .countAnnotations _ => (.error .interrupted, db)
  | .countDecisions _ => (.error .interrupted, db)
  | .useShareLink _ _ => (.error .interrupted, db)
  | .createSession _ _ _ => (.error .interrupted, db)
  | .closeSession _ => (.error .interrupted, db)
  | .lockOpenSession _ => (.error .interrupted, db)
  | .applyDecisionStatus _ _ => (.error .interrupted, db)
  | .annotationCreate _ _ _ _ => (.error .interrupted, db)
  | .createDecision _ _ _ _ => (.error .interrupted, db)
  | .resolve _ _ _ => (.error .interrupted, db)
  | .updateClientAccess _ _ _ => (.error .interrupted, db)
  | .createShareLink _ _ _ _ _ => (.error .interrupted, db)
  | .revokeShareLink _ _ _ => (.error .interrupted, db)

def exec {β : Type} (i : ℕ) (st : Stmt β) (ch : Choice) (db : Db) : β × Db :=
  if ch.interrupted then lost i st ch db else run i st ch db

abbrev machine : Machine where
  Stmt := Stmt
  Choice := Choice
  State := Db
  enabled := enabled
  exec := exec

end Ashbi.Review

import Ashbi.Interleaving.Transaction
import Ashbi.Interleaving.Versions
import Ashbi.Js

/-! Drafted responses, the receipts of what is sent through Gmail, and the statements on them. -/

namespace Ashbi.Gmail

open Interleaving

/-! ### Responses -/

inductive ResponseStatus
  | draft
  | pendingApproval
  | approved
  | rejected
  | sent
  deriving DecidableEq

/-- A row of `responses`. -/
structure Response where
  id : String
  threadId : String
  status : ResponseStatus
  subject : String
  body : String
  tone : Option String
  rejectionReason : Option String
  approvedById : Option String
  approvedAt : Option Time
  sentAt : Option Time
  deriving DecidableEq

/-- The body of an update; what is absent leaves its column alone. -/
structure Edit where
  subject : Option String
  body : Option String
  tone : Option String

/-- The `data` that a response is updated with. -/
inductive Write
  | edit (input : Edit)
  | submit
  | approve (approvedById : String) (approvedAt : Time)
  | reject (reason : Option String)
  | send (sentAt : Time)

def Write.on (write : Write) (response : Response) : Response :=
  match write with
  | .edit input => { response with
      subject := input.subject.getD response.subject
      body := input.body.getD response.body
      tone := input.tone.or response.tone
      status := .draft
      rejectionReason := none }
  | .submit => { response with status := .pendingApproval }
  | .approve approvedById approvedAt => { response with
      status := .approved
      approvedById := some approvedById
      approvedAt := some approvedAt }
  | .reject reason => { response with
      status := .rejected
      rejectionReason := reason.or response.rejectionReason }
  | .send sentAt => { response with status := .sent, sentAt := some sentAt }

/-! ### Receipts -/

/-- What `canonical` leaves of the parsed input. -/
structure Payload where
  toAddress : String
  subject : String
  body : String
  hubThreadId : Option String
  responseId : Option String
  threadId : Option String
  inReplyTo : Option String
  references : Option String
  deriving DecidableEq

structure Snapshot where
  payload : Payload
  senderName : Option String
  deriving DecidableEq

/-- The values of `scopeWhere`. -/
structure Scope where
  organizationId : String
  userId : String
  idempotencyKey : String
  deriving DecidableEq

inductive ReceiptStatus
  | dispatching
  | acceptedPendingRecord
  | completed
  | rejected
  | unknown
  deriving DecidableEq

/-- A row of `gmail_send_receipts`. -/
structure Receipt where
  id : ℕ
  scope : Scope
  payloadHash : String
  mailbox : String
  snapshot : Snapshot
  status : ReceiptStatus
  providerMessageId : Option String
  providerThreadId : Option String
  hubMessageId : Option ℕ
  errorCode : Option String
  updatedAt : Time
  finishedAt : Option Time
  deriving DecidableEq

/-- A result of the provider that `providerResultSchema` accepts. -/
structure Sent where
  id : String
  threadId : String
  deriving DecidableEq

/-- The `data` that a receipt is updated with. -/
inductive Outcome
  | locked
  | rejected
  | unknown
  | accepted (sent : Sent)
  | completed (hubMessageId : Option ℕ)

def Outcome.on (outcome : Outcome) (now : Time) (receipt : Receipt) : Receipt :=
  match outcome with
  | .locked => { receipt with updatedAt := now }
  | .rejected => { receipt with
      status := .rejected
      errorCode := some "GMAIL_SEND_REJECTED"
      finishedAt := some now
      updatedAt := now }
  | .unknown => { receipt with
      status := .unknown
      errorCode := some "GMAIL_SEND_UNKNOWN"
      finishedAt := some now
      updatedAt := now }
  | .accepted sent => { receipt with
      status := .acceptedPendingRecord
      providerMessageId := some sent.id
      providerThreadId := some sent.threadId
      errorCode := none
      updatedAt := now }
  | .completed hubMessageId => { receipt with
      status := .completed
      hubMessageId := hubMessageId
      finishedAt := some now
      errorCode := none
      updatedAt := now }

/-- A message that a receipt leaves in its conversation. -/
structure HubMessage where
  id : ℕ
  threadId : String
  senderEmail : String
  senderName : Option String
  subject : String
  bodyText : String
  receivedAt : Time
  gmailMessageId : Option String
  gmailThreadId : Option String
  sendReceiptId : ℕ
  deriving DecidableEq

/-- A receipt that the unique indexes do not admit beside a new one. -/
def Receipt.clashes (receipt : Receipt) (scope : Scope) (responseId : Option String) : Bool :=
  receipt.scope = scope || (responseId.isSome && receipt.status ≠ .rejected &&
    receipt.scope.organizationId = scope.organizationId &&
      receipt.snapshot.payload.responseId = responseId)

/-! ### People and mailboxes -/

inductive Role
  | admin
  | team
  | other
  deriving DecidableEq

/-- Whose session the request has. -/
structure User where
  id : String
  organizationId : String
  role : Role

/-- The row of the user as it is read again. -/
structure Actor where
  id : String
  organizationId : String
  role : Role
  isActive : Bool
  name : Option String

/-- What `prepare` made for a snapshot; the mailbox is parsed and in lower case. -/
structure Transport where
  mailbox : String
  snapshot : Snapshot

/-- What a request is answered with when it throws. -/
inductive Failure
  | toolError (code message : String) (statusCode : ℕ)
  | refused (statusCode : ℕ) (error : String)
  | provider (definiteRejection : Bool)
  | uniqueViolation
  | recordNotFound
  | raised
  | interrupted
  deriving DecidableEq

/-- `FAILURE_MESSAGES`, with what stands for the other codes. -/
def failureMessage (code : String) : String :=
  if code = "GMAIL_RESPONSE_CHANGED" then
    "The approved draft changed or is no longer approved. " ++
      "Reload the draft and review its approval before sending."
  else if code = "GMAIL_SEND_CONFLICT" then
    "This send key belongs to another email or send intent. " ++
      "Check the stored send status before starting another email."
  else if code = "GMAIL_MAILBOX_CHANGED" then
    "The connected mailbox changed. " ++
      "Check the stored send status; this intent cannot be reused with another mailbox."
  else if code = "GMAIL_SEND_REJECTED" then
    "Gmail rejected this send attempt. Check its stored outcome before starting a separate send."
  else if code = "ROLE_DENIED" then "Active staff access is required to access this send intent."
  else if code = "RECORD_NOT_FOUND" then
    "The conversation, approved draft or send receipt is unavailable for your current access."
  else "Gmail send unavailable. Check the stored send status before trying another email."

def fail (code : String) (statusCode : ℕ) : Failure :=
    .toolError code (failureMessage code) statusCode

/-! ### The database -/

/-- `issued` counts the ids of receipts and `numbered` those of messages; `recorded` are the
messages of open transactions. -/
structure Db where
  responses : Versions String Response
  receipts : Versions ℕ Receipt
  issued : ℕ
  messages : List HubMessage
  recorded : List (ℕ × HubMessage)
  numbered : ℕ

def Db.recordedBy (db : Db) (i : ℕ) : List HubMessage :=
  (db.recorded.filter (·.1 = i)).map (·.2)

/-- The receipts that thread `i` sees. -/
def Db.seen (db : Db) (i : ℕ) : List Receipt :=
  (List.range db.issued).filterMap (db.receipts.read i)

/-- Another transaction may yet leave a receipt that a new one would clash with. -/
def Db.contended (db : Db) (i : ℕ) (scope : Scope) (responseId : Option String) : Bool :=
  (List.range db.issued).any fun id => db.receipts.locked i id &&
    ((db.receipts.rows id).any (·.clashes scope responseId) ||
      (db.receipts.written id).any (·.2.clashes scope responseId))

def Db.rollback (db : Db) (i : ℕ) : Db :=
  { db with
    responses := db.responses.rollback i
    receipts := db.receipts.rollback i
    recorded := db.recorded.filter (·.1 ≠ i) }

def Db.commit (db : Db) (i : ℕ) : Db :=
  { db with
    responses := db.responses.commit i
    receipts := db.receipts.commit i
    messages := db.messages ++ db.recordedBy i
    recorded := db.recorded.filter (·.1 ≠ i) }

/-- The response that thread `i` sees; a receipt names it with its thread. -/
def Db.findResponse (db : Db) (i : ℕ) (id : String) (threadId : Option String) : Option Response :=
  (db.responses.read i id).filter fun response => some response.threadId = threadId

/-- What becomes of a statement: it may be lost before it is run, or its answer afterwards. -/
inductive Fate
  | answered
  | interrupted
  | unanswered
  deriving DecidableEq

/-- What the environment decides: the clock, the fate of the statement, what the users, threads,
audit events and mailboxes say, and how Gmail answers. -/
structure Choice where
  now : Time
  fate : Fate
  actor : Option Actor
  granted : Bool
  mailbox : Option String
  sendable : Bool
  outcome : Except Bool Sent

inductive Stmt : Type → Type
  /-- `new Date()`. -/
  | now : Stmt Time
  | findUnique (id : String) : Stmt (Except Failure (Option Response))
  | update (id : String) (write : Write) : Stmt (Except Failure Response)
  | findActor (user : User) : Stmt (Except Failure (Option Actor))
  /-- Whether the actor may use the thread. -/
  | findThread (actor : Actor) (id : String) : Stmt (Except Failure Bool)
  | findResponse (id : String) (threadId : Option String) : Stmt (Except Failure (Option Response))
  | findReceipt (scope : Scope) : Stmt (Except Failure (Option Receipt))
  | prepare (actor : Actor) (snapshot : Snapshot) : Stmt (Except Failure (Option Transport × Bool))
  | createReceipt (scope : Scope) (mailbox payloadHash : String) (snapshot : Snapshot) :
      Stmt (Except Failure Receipt)
  | updateReceipt (id : ℕ) (scope : Scope) (status : ReceiptStatus) (outcome : Outcome) :
      Stmt (Except Failure ℕ)
  | findReceiptById (id : ℕ) (scope : Scope) : Stmt (Except Failure (Option Receipt))
  | recordAuditEvent (action : String) (receipt : Receipt) : Stmt (Except Failure Bool)
  /-- The `updateMany` of `finalize` on the approved response. -/
  | sendResponse (id : String) (threadId : Option String) (subject body : String) :
      Stmt (Except Failure ℕ)
  | createMessage (receipt : Receipt) (threadId : String) : Stmt (Except Failure ℕ)
  | updateThread (id : String) : Stmt (Except Failure Bool)
  | send (transport : Transport) (receipt : Receipt) : Stmt (Except Failure Sent)
  | commit : Stmt (Except Failure Unit)
  | rollback : Stmt Unit

/-- A statement waits for the transaction that holds a row it wants, or that may yet hold or
give up a value of a unique index. -/
def enabled {β : Type} (i : ℕ) (st : Stmt β) (db : Db) : Bool :=
  match st with
  | .update id _ => (db.responses.written id).isNone
  | .sendResponse id _ _ _ => !db.responses.locked i id
  | .createReceipt scope _ _ snapshot =>
    !db.contended i scope snapshot.payload.responseId &&
      !snapshot.payload.responseId.any (db.responses.locked i)
  | .updateReceipt id _ _ _ => !db.receipts.locked i id
  | _ => true

def update (id : String) (write : Write) (db : Db) : Except Failure Response × Db :=
  match db.responses.rows id with
  | none => (.error .recordNotFound, db)
  | some response =>
    (.ok (write.on response), { db with responses := db.responses.put id (write.on response) })

/-- A new receipt; the trigger asks for its response to be approved still. -/
def createReceipt (i : ℕ) (scope : Scope) (mailbox payloadHash : String) (snapshot : Snapshot)
    (ch : Choice) (db : Db) : Except Failure Receipt × Db :=
  let approved := snapshot.payload.responseId.all fun id =>
    (db.findResponse i id snapshot.payload.hubThreadId).any (·.status = .approved)
  if !ch.granted || !approved then (.error .raised, db)
  else if (db.seen i).any (·.clashes scope snapshot.payload.responseId) then
    (.error .uniqueViolation, db)
  else
    let receipt : Receipt :=
      { id := db.issued
        scope := scope
        payloadHash := payloadHash
        mailbox := mailbox
        snapshot := snapshot
        status := .dispatching
        providerMessageId := none
        providerThreadId := none
        hubMessageId := none
        errorCode := none
        updatedAt := ch.now
        finishedAt := none }
    (.ok receipt, { db with
      receipts := db.receipts.write i db.issued receipt
      issued := db.issued + 1 })

def updateReceipt (i id : ℕ) (scope : Scope) (status : ReceiptStatus) (outcome : Outcome)
    (now : Time) (db : Db) : Except Failure ℕ × Db :=
  match (db.receipts.read i id).filter fun receipt =>
    receipt.scope = scope && receipt.status = status with
  | none => (.ok 0, db)
  | some receipt =>
    (.ok 1, { db with receipts := db.receipts.write i id (outcome.on now receipt) })

def sendResponse (i : ℕ) (id : String) (threadId : Option String) (subject body : String)
    (now : Time) (db : Db) : Except Failure ℕ × Db :=
  match (db.findResponse i id threadId).filter fun response =>
    response.status = .approved && response.subject = subject && response.body = body with
  | none => (.ok 0, db)
  | some response =>
    (.ok 1, { db with responses := db.responses.write i id ((Write.send now).on response) })

def createMessage (i : ℕ) (receipt : Receipt) (threadId : String) (db : Db) :
    Except Failure ℕ × Db :=
  let message : HubMessage :=
    { id := db.numbered
      threadId := threadId
      senderEmail := receipt.mailbox
      senderName := receipt.snapshot.senderName
      subject := receipt.snapshot.payload.subject
      bodyText := receipt.snapshot.payload.body
      receivedAt := receipt.updatedAt
      gmailMessageId := receipt.providerMessageId
      gmailThreadId := receipt.providerThreadId
      sendReceiptId := receipt.id }
  (.ok db.numbered, { db with
    recorded := db.recorded ++ [(i, message)]
    numbered := db.numbered + 1 })

/-- What comes back of a statement that does `ran`. -/
def Choice.answer {α : Type} (ch : Choice) (lost : Db) (ran : Except Failure α × Db) :
    Except Failure α × Db :=
  match ch.fate with
  | .answered => ran
  | .interrupted => (.error .interrupted, lost)
  | .unanswered => (.error .interrupted, ran.2)

/-- A commit that is interrupted is undone. -/
def exec {β : Type} (i : ℕ) (st : Stmt β) (ch : Choice) (db : Db) : β × Db :=
  match st with
  | .now => (ch.now, db)
  | .findUnique id => ch.answer db (.ok (db.responses.read i id), db)
  | .update id write => ch.answer db (update id write db)
  | .findActor _ => ch.answer db (.ok ch.actor, db)
  | .findThread _ _ => ch.answer db (.ok ch.granted, db)
  | .findResponse id threadId => ch.answer db (.ok (db.findResponse i id threadId), db)
  | .findReceipt scope => ch.answer db (.ok ((db.seen i).find? (·.scope = scope)), db)
  | .prepare _ snapshot =>
    ch.answer db (.ok (ch.mailbox.map (⟨·, snapshot⟩), ch.sendable), db)
  | .createReceipt scope mailbox payloadHash snapshot =>
    ch.answer db (createReceipt i scope mailbox payloadHash snapshot ch db)
  | .updateReceipt id scope status outcome =>
    ch.answer db (updateReceipt i id scope status outcome ch.now db)
  | .findReceiptById id scope =>
    ch.answer db (.ok ((db.receipts.read i id).filter (·.scope = scope)), db)
  | .recordAuditEvent _ _ => ch.answer db (.ok ch.granted, db)
  | .sendResponse id threadId subject body =>
    ch.answer db (sendResponse i id threadId subject body ch.now db)
  | .createMessage receipt threadId => ch.answer db (createMessage i receipt threadId db)
  | .updateThread _ => ch.answer db (.ok ch.granted, db)
  | .send _ _ => (ch.outcome.mapError .provider, db)
  | .commit => ch.answer (db.rollback i) (.ok (), db.commit i)
  | .rollback => ((), db.rollback i)

abbrev machine : Machine where
  Stmt := Stmt
  Choice := Choice
  State := Db
  enabled := enabled
  exec := exec

end Ashbi.Gmail

import Ashbi.Gmail.Receipts

/-! The requests on responses, and those that send a reply and read or repair its receipt. -/

namespace Ashbi.Gmail

open Interleaving

/-! ### Responses -/

def responseNotFound : Failure := .refused 404 "Response not found"

/-- `['DRAFT', 'REJECTED'].includes(status)`. -/
def ResponseStatus.editable (status : ResponseStatus) : Bool :=
  status = .draft || status = .rejected

/-- Reads the response, checks its status and then writes, whatever became of it meanwhile. -/
def writeResponse (id : String) (accepts : ResponseStatus → Bool) (refusal : String)
    (write : Write) : Throws Stmt Failure Response := do
  let existing ← Throws.found (← Throws.stmt (.findUnique id)) responseNotFound
  Throws.require (accepts existing.status) (.refused 400 refusal)
  Throws.stmt (.update id write)

/-- `PUT /:id`. -/
def updateResponse (id : String) (input : Edit) : Throws Stmt Failure Response :=
  writeResponse id ResponseStatus.editable "Cannot edit response in current status" (.edit input)

/-- `POST /:id/submit`. -/
def submitResponse (id : String) : Throws Stmt Failure Response :=
  writeResponse id ResponseStatus.editable "Response already submitted" .submit

/-- `POST /:id/approve`, as the administrator `userId`. -/
def approveResponse (userId id : String) : Throws Stmt Failure Response := do
  let now ← Throws.read .now
  writeResponse id (· = .pendingApproval) "Response not pending approval" (.approve userId now)

/-- `POST /:id/reject`. -/
def rejectResponse (id : String) (reason : Option String) : Throws Stmt Failure Response :=
  writeResponse id (· = .pendingApproval) "Response not pending approval" (.reject reason)

/-- `POST /:id/sent`. -/
def markSent (id : String) : Throws Stmt Failure Response := do
  let now ← Throws.read .now
  writeResponse id (· = .approved) "Response not approved" (.send now)

/-! ### Receipts -/

/-- The input as `gmailReceiptSendSchema` leaves it. -/
structure Input where
  payload : Payload
  idempotencyKey : String

def inTransaction {α : Type} (body : Throws Stmt Failure α) : Throws Stmt Failure α :=
  Throws.transaction .commit .rollback body

def Role.staff (role : Role) : Bool := role = .admin || role = .team

def actorScope (user : User) : Throws Stmt Failure Actor := do
  let allowed := !user.id.isEmpty && !user.organizationId.isEmpty && user.role.staff
  Throws.require allowed (fail "ROLE_DENIED" 403)
  let actor ← Throws.found (← Throws.stmt (.findActor user)) (fail "ROLE_DENIED" 403)
  let same := actor.id = user.id && actor.organizationId = user.organizationId
  Throws.require (same && actor.isActive && actor.role.staff) (fail "ROLE_DENIED" 403)
  pure actor

def scopeWhere (actor : Actor) (idempotencyKey : String) : Scope :=
  ⟨actor.organizationId, actor.id, idempotencyKey⟩

def authorizeThread (actor : Actor) (hubThreadId : Option String) : Throws Stmt Failure Unit :=
  match hubThreadId with
  | none => pure ()
  | some id => do
    let allowed ← Throws.stmt (.findThread actor id)
    Throws.require allowed (fail "RECORD_NOT_FOUND" 404)

/-- The approved draft still says what is to be sent. -/
def Response.matches (response : Response) (payload : Payload) : Bool :=
  response.status = .approved && response.subject = payload.subject && response.body = payload.body

def authorizeResponse (payload : Payload) (requireApproved : Bool) : Throws Stmt Failure Unit :=
  match payload.responseId with
  | none => pure ()
  | some id => do
    let response ← Throws.found (← Throws.stmt (.findResponse id payload.hubThreadId))
      (fail "RECORD_NOT_FOUND" 404)
    Throws.require (!requireApproved || response.matches payload)
      (fail "GMAIL_RESPONSE_CHANGED" 409)

def authorizeSnapshot (actor : Actor) (snapshot : Snapshot) (requireApproved : Bool) :
    Throws Stmt Failure Unit := do
  let payload := snapshot.payload
  Throws.require (payload.responseId.isNone || payload.hubThreadId.isSome)
    (fail "GMAIL_SEND_INVALID_INPUT" 400)
  authorizeThread actor payload.hubThreadId
  authorizeResponse payload requireApproved

/-- The transport for the snapshot, and whether it can send. -/
def prepared (actor : Actor) (snapshot : Snapshot) (receipt : Option Receipt) :
    Throws Stmt Failure (Transport × Bool) := do
  let made ← Throws.stmt (.prepare actor snapshot)
  let transport ← Throws.found made.1 (fail "GMAIL_MAILBOX_UNAVAILABLE" 503)
  Throws.require (receipt.all (·.mailbox = transport.mailbox)) (fail "GMAIL_MAILBOX_CHANGED" 409)
  pure (transport, made.2)

/-- `senderName` has at most 200 code units; the name of the actor is cut there. -/
def safeName (cut : String → String) (actor : Actor) : Option String := actor.name.map cut

/-- What an answer says of a receipt. -/
structure Answer where
  statusCode : ℕ
  success : Bool
  receiptId : ℕ
  status : ReceiptStatus
  messageId : Option String
  threadId : Option String
  code : Option String
  deriving DecidableEq

def ReceiptStatus.code : ReceiptStatus → Option String
  | .completed => none
  | .acceptedPendingRecord => some "GMAIL_RECORD_PENDING"
  | .rejected => some "GMAIL_SEND_REJECTED"
  | .dispatching => some "GMAIL_SEND_UNKNOWN"
  | .unknown => some "GMAIL_SEND_UNKNOWN"

def outcome (receipt : Receipt) (read : Bool) : Throws Stmt Failure Answer := do
  Throws.require (receipt.status ≠ .rejected || read) (fail "GMAIL_SEND_REJECTED" 409)
  let completed := receipt.status = .completed
  pure
    { statusCode := if completed || read then 200 else 202
      success := completed
      receiptId := receipt.id
      status := receipt.status
      messageId := receipt.providerMessageId
      threadId := receipt.providerThreadId
      code := receipt.status.code }

def audit (action : String) (receipt : Receipt) : Throws Stmt Failure Unit := do
  let event ← Throws.stmt (.recordAuditEvent action receipt)
  Throws.require event (fail "GMAIL_SEND_AUDIT_UNAVAILABLE" 503)

/-- `fingerprint` hashes the mailbox with the payload, and `cut` keeps 200 code units. -/
structure Service where
  fingerprint : Payload → String → String
  cut : String → String

namespace Service

variable (service : Service)

def verifyReceipt (receipt : Receipt) (actor : Actor) : Throws Stmt Failure Snapshot := do
  let owned := receipt.scope.organizationId = actor.organizationId &&
    receipt.scope.userId = actor.id
  Throws.require owned (fail "RECORD_NOT_FOUND" 404)
  Throws.require
    (service.fingerprint receipt.snapshot.payload receipt.mailbox = receipt.payloadHash)
    (fail "GMAIL_RECEIPT_INVALID" 503)
  pure receipt.snapshot

/-- The call is for what the receipt stores. -/
def agrees (receipt : Receipt) (snapshot : Snapshot) (mailbox : String) : Bool :=
  service.fingerprint snapshot.payload mailbox = receipt.payloadHash

end Service

def receiptTransition (actor : Actor) (receipt : Receipt) (data : Outcome) (action : String) :
    Throws Stmt Failure Receipt :=
  inTransaction do
    let scope := scopeWhere actor receipt.scope.idempotencyKey
    let changed ← Throws.stmt (.updateReceipt receipt.id scope .dispatching data)
    Throws.require (changed = 1) (fail "GMAIL_RECEIPT_CONFLICT" 409)
    let updated ← Throws.found (← Throws.stmt (.findReceiptById receipt.id scope))
      (fail "GMAIL_RECEIPT_CONFLICT" 409)
    audit action updated
    pure updated

/-- The approved draft is marked as sent, unless it has changed. -/
def finalizeResponse (payload : Payload) : Throws Stmt Failure Unit :=
  match payload.responseId with
  | none => pure ()
  | some id => do
    let changed ← Throws.stmt (.sendResponse id payload.hubThreadId payload.subject payload.body)
    Throws.require (changed = 1) (fail "GMAIL_RESPONSE_CHANGED" 409)

/-- The message in the conversation, if the reply has one. -/
def finalizeMessage (receipt : Receipt) : Throws Stmt Failure (Option ℕ) :=
  match receipt.snapshot.payload.hubThreadId with
  | none => pure none
  | some threadId => do
    let message ← Throws.stmt (.createMessage receipt threadId)
    let changed ← Throws.stmt (.updateThread threadId)
    Throws.require changed (fail "RECORD_NOT_FOUND" 404)
    pure (some message)

/-- What `finalize` does once it holds the receipt. -/
def project (receipt : Receipt) (scope : Scope) : Throws Stmt Failure Receipt := do
  finalizeResponse receipt.snapshot.payload
  let hubMessageId ← finalizeMessage receipt
  let changed ← Throws.stmt
    (.updateReceipt receipt.id scope .acceptedPendingRecord (.completed hubMessageId))
  Throws.require (changed = 1) (fail "GMAIL_RECEIPT_CONFLICT" 409)
  let completed ← Throws.found (← Throws.stmt (.findReceiptById receipt.id scope))
    (fail "GMAIL_RECEIPT_CONFLICT" 409)
  audit "gmail_send.completed" completed
  pure completed

/-- What `finalize` answers where another has taken the receipt. -/
def taken (receipt : Receipt) (scope : Scope) : Throws Stmt Failure Receipt := do
  let current ← Throws.stmt (.findReceiptById receipt.id scope)
  Throws.found (current.filter (·.status = .completed)) (fail "GMAIL_RECEIPT_CONFLICT" 409)

namespace Service

variable (service : Service)

def finalize (user : User) (receipt : Receipt) : Throws Stmt Failure Receipt :=
  inTransaction do
    let actor ← actorScope user
    let snapshot ← service.verifyReceipt receipt actor
    authorizeSnapshot actor snapshot false
    let scope := scopeWhere actor receipt.scope.idempotencyKey
    let lock ← Throws.stmt (.updateReceipt receipt.id scope .acceptedPendingRecord .locked)
    if lock = 1 then project receipt scope else taken receipt scope

def repair (user : User) (receipt : Receipt) : Throws Stmt Failure Answer :=
  if receipt.status ≠ .acceptedPendingRecord then outcome receipt false
  else tryCatch (do outcome (← service.finalize user receipt) false) fun _ => outcome receipt false

/-- The receipt of a same-key call that has won between the lookup and the approval check. -/
def winner (user : User) (key : String) (snapshot : Snapshot) (error : Failure) :
    Throws Stmt Failure (Actor × Option Receipt) := do
  Throws.require (error = fail "GMAIL_RESPONSE_CHANGED" 409) error
  let actor ← actorScope user
  let existing ← Throws.found (← Throws.stmt (.findReceipt (scopeWhere actor key))) error
  let stored ← service.verifyReceipt existing actor
  Throws.require (service.agrees existing snapshot existing.mailbox) error
  authorizeSnapshot actor stored false
  pure (actor, some existing)

/-- The actor and the receipt that the call starts from. -/
def lookup (user : User) (key : String) (payload : Payload) :
    Throws Stmt Failure (Actor × Option Receipt × Snapshot) := do
  let actor ← actorScope user
  let receipt ← Throws.stmt (.findReceipt (scopeWhere actor key))
  let snapshot : Snapshot := ⟨payload, safeName service.cut actor⟩
  match receipt with
  | some receipt =>
    let stored ← service.verifyReceipt receipt actor
    Throws.require (service.agrees receipt snapshot receipt.mailbox)
      (fail "GMAIL_SEND_CONFLICT" 409)
    authorizeSnapshot actor stored false
    pure (actor, some receipt, snapshot)
  | none =>
    let found ← tryCatch (do authorizeSnapshot actor snapshot true; pure (actor, none))
      (service.winner user key snapshot)
    pure (found.1, found.2, snapshot)

/-- The receipt that the call has claimed, or the one that was there. -/
inductive Claim
  | claimed (receipt : Receipt)
  | existing (receipt : Receipt)

/-- What claiming does in its transaction; the new row has the scope of the outer `actor`. -/
def claimBody (user : User) (actor : Actor) (key : String) (snapshot : Snapshot)
    (mailbox : String) :
    Throws Stmt Failure Claim := do
  let fresh ← actorScope user
  match ← Throws.stmt (.findReceipt (scopeWhere fresh key)) with
  | some existing =>
    let stored ← service.verifyReceipt existing fresh
    Throws.require (existing.mailbox = mailbox && service.agrees existing snapshot mailbox)
      (fail "GMAIL_SEND_CONFLICT" 409)
    authorizeSnapshot fresh stored false
    pure (.existing existing)
  | none =>
    authorizeSnapshot fresh snapshot true
    let created ← Throws.stmt (.createReceipt (scopeWhere actor key) mailbox
      (service.fingerprint snapshot.payload mailbox) snapshot)
    audit "gmail_send.claimed" created
    pure (.claimed created)

/-- The receipt of the call that has committed the same key, or another receipt for the same
response, meanwhile. -/
def conflicting (actor : Actor) (key : String) (snapshot : Snapshot) (mailbox : String)
    (error : Failure) : Throws Stmt Failure Claim := do
  Throws.require (error = .uniqueViolation) error
  let receipt ← Throws.found (← Throws.stmt (.findReceipt (scopeWhere actor key)))
    (fail "GMAIL_SEND_CONFLICT" 409)
  let _ ← service.verifyReceipt receipt actor
  Throws.require (receipt.mailbox = mailbox && service.agrees receipt snapshot mailbox)
    (fail "GMAIL_SEND_CONFLICT" 409)
  pure (.existing receipt)

def claim (user : User) (actor : Actor) (key : String) (snapshot : Snapshot) (mailbox : String) :
    Throws Stmt Failure Claim :=
  tryCatch (inTransaction (service.claimBody user actor key snapshot mailbox))
    (service.conflicting actor key snapshot mailbox)

/-- Calls the provider for a claimed receipt and records what it answers. -/
def dispatch (user : User) (actor : Actor) (transport : Transport) (receipt : Receipt) :
    Throws Stmt Failure Answer := do
  match ← Throws.caught (Throws.stmt (.send transport receipt)) with
  | .error error =>
    let rejected := error = .provider true
    let data := if rejected then Outcome.rejected else Outcome.unknown
    let action := if rejected then "gmail_send.rejected" else "gmail_send.unknown"
    -- A claim whose outcome cannot be stored stays as it is, and is never sent again.
    let stored ← tryCatch (receiptTransition actor receipt data action) fun _ => pure receipt
    outcome stored false
  | .ok sent =>
    match ← Throws.caught (receiptTransition actor receipt (.accepted sent)
      "gmail_send.accepted") with
    | .error _ => outcome receipt false
    | .ok stored => service.repair user stored

def sendGmailWithReceipt (user : User) (input : Input) : Throws Stmt Failure Answer := do
  let key := input.idempotencyKey.toLower
  let (actor, receipt, snapshot) ← service.lookup user key input.payload
  let (transport, sendable) ← prepared actor snapshot receipt
  match receipt with
  | some receipt => service.repair user receipt
  | none =>
    Throws.require sendable (fail "GMAIL_MAILBOX_UNAVAILABLE" 503)
    match ← service.claim user actor key snapshot transport.mailbox with
    | .existing existing => service.repair user existing
    | .claimed created => service.dispatch user actor transport created

def loadAuthorizedReceipt (user : User) (key : String) : Throws Stmt Failure Receipt := do
  let actor ← actorScope user
  let receipt ← Throws.found (← Throws.stmt (.findReceipt (scopeWhere actor key.toLower)))
    (fail "GMAIL_SEND_NOT_FOUND" 404)
  let snapshot ← service.verifyReceipt receipt actor
  authorizeSnapshot actor snapshot false
  pure receipt

def readGmailSendReceipt (user : User) (key : String) : Throws Stmt Failure Answer := do
  outcome (← service.loadAuthorizedReceipt user key) true

def reconcileGmailSendReceipt (user : User) (key : String) : Throws Stmt Failure Answer := do
  service.repair user (← service.loadAuthorizedReceipt user key)

end Service

/-! ### Requests -/

inductive RouteRequest
  | update (id : String) (input : Edit)
  | submit (id : String)
  | approve (userId id : String)
  | reject (id : String) (reason : Option String)
  | sent (id : String)

inductive SendRequest
  | send (user : User) (input : Input)
  | read (user : User) (key : String)
  | reconcile (user : User) (key : String)

def RouteRequest.program : RouteRequest → Throws Stmt Failure Response
  | .update id input => updateResponse id input
  | .submit id => submitResponse id
  | .approve userId id => approveResponse userId id
  | .reject id reason => rejectResponse id reason
  | .sent id => markSent id

def SendRequest.program (service : Service) : SendRequest → Throws Stmt Failure Answer
  | .send user input => service.sendGmailWithReceipt user input
  | .read user key => service.readGmailSendReceipt user key
  | .reconcile user key => service.reconcileGmailSendReceipt user key

/-- A program that sends a reply, or reads or repairs its receipt. -/
def Sends (service : Service) (p : Prog Stmt Unit) : Prop :=
  ∃ request : SendRequest, p = (request.program service).run.bind fun _ => .ret ()

/-- A program that answers any request on responses and receipts. -/
def Requested (service : Service) (p : Prog Stmt Unit) : Prop :=
  Sends service p ∨ ∃ request : RouteRequest, p = request.program.run.bind fun _ => .ret ()

/-! ### The statements of the service -/

/-- A statement that the routes on responses do not share with the service, or the call of the
provider. -/
def Stmt.apart {β : Type} : Stmt β → Bool
  | .update _ _ => true
  | .send _ _ => true
  | _ => false

/-- A statement that writes no receipt and no message, and ends no transaction. -/
def Stmt.calm {β : Type} : Stmt β → Bool
  | .update _ _ => false
  | .send _ _ => false
  | .createReceipt .. => false
  | .updateReceipt .. => false
  | .createMessage _ _ => false
  | .commit => false
  | .rollback => false
  | _ => true

theorem Stmt.apart_of_calm {β : Type} {st : Stmt β} (h : st.calm = true) : st.apart = false := by
  cases st with
  | update => cases h
  | send => cases h
  | _ => rfl

/-- The program runs no statement that is barred. -/
abbrev Free {α : Type} (bar : {β : Type} → Stmt β → Bool) (p : Throws Stmt Failure α) : Prop :=
  p.run.Without bar fun _ => True

section

variable {bar : {β : Type} → Stmt β → Bool} {service : Service} {user : User} {actor : Actor}
  {receipt : Receipt} {snapshot : Snapshot} {scope : Scope} {key mailbox : String}

theorem free_bind {α β : Type} {p : Throws Stmt Failure α} {f : α → Throws Stmt Failure β}
    (h : Free bar p) (hf : ∀ a, Free bar (f a)) : Free bar (p >>= f) := Throws.without_bind h hf

theorem outcome_free (read : Bool) : Free bar (outcome receipt read) :=
  free_bind Throws.without_require fun _ => trivial

theorem verifyReceipt_free : Free bar (service.verifyReceipt receipt actor) := by
  refine free_bind Throws.without_require fun _ => ?_
  exact free_bind Throws.without_require fun _ => trivial

section Calm

variable (hcalm : ∀ {β : Type} (st : Stmt β), st.calm = true → bar st = false)
include hcalm

theorem calm_stmt {β : Type} (st : Stmt (Except Failure β)) (h : st.calm = true) :
    Free bar (Throws.stmt st) := Throws.without_stmt (hcalm st h)

theorem actorScope_free : Free bar (actorScope user) := by
  refine free_bind Throws.without_require fun _ => ?_
  refine free_bind (calm_stmt hcalm _ rfl) fun found => ?_
  refine free_bind Throws.without_found fun actor => ?_
  exact free_bind Throws.without_require fun _ => trivial

theorem authorizeThread_free (hubThreadId : Option String) :
    Free bar (authorizeThread actor hubThreadId) := by
  cases hubThreadId with
  | none => trivial
  | some id => exact free_bind (calm_stmt hcalm _ rfl) fun _ => Throws.without_require

theorem authorizeResponse_free (payload : Payload) (requireApproved : Bool) :
    Free bar (authorizeResponse payload requireApproved) := by
  unfold authorizeResponse
  cases payload.responseId with
  | none => trivial
  | some id =>
    refine free_bind (calm_stmt hcalm _ rfl) fun found => ?_
    exact free_bind Throws.without_found fun _ => Throws.without_require

theorem authorizeSnapshot_free (requireApproved : Bool) :
    Free bar (authorizeSnapshot actor snapshot requireApproved) := by
  refine free_bind Throws.without_require fun _ => ?_
  refine free_bind (authorizeThread_free hcalm _) fun _ => ?_
  exact authorizeResponse_free hcalm _ _

theorem prepared_free (existing : Option Receipt) :
    Free bar (prepared actor snapshot existing) := by
  refine free_bind (calm_stmt hcalm _ rfl) fun made => ?_
  refine free_bind Throws.without_found fun transport => ?_
  exact free_bind Throws.without_require fun _ => trivial

theorem audit_free (action : String) : Free bar (audit action receipt) :=
  free_bind (calm_stmt hcalm _ rfl) fun _ => Throws.without_require

theorem finalizeResponse_free (payload : Payload) : Free bar (finalizeResponse payload) := by
  unfold finalizeResponse
  cases payload.responseId with
  | none => trivial
  | some id => exact free_bind (calm_stmt hcalm _ rfl) fun _ => Throws.without_require

theorem taken_free : Free bar (taken receipt scope) :=
  free_bind (calm_stmt hcalm _ rfl) fun _ => Throws.without_found

theorem winner_free (error : Failure) : Free bar (service.winner user key snapshot error) := by
  refine free_bind Throws.without_require fun _ => ?_
  refine free_bind (actorScope_free hcalm) fun actor => ?_
  refine free_bind (calm_stmt hcalm _ rfl) fun found => ?_
  refine free_bind Throws.without_found fun existing => ?_
  refine free_bind verifyReceipt_free fun stored => ?_
  refine free_bind Throws.without_require fun _ => ?_
  exact free_bind (authorizeSnapshot_free hcalm _) fun _ => trivial

theorem lookup_free (payload : Payload) : Free bar (service.lookup user key payload) := by
  refine free_bind (actorScope_free hcalm) fun actor => ?_
  refine free_bind (calm_stmt hcalm _ rfl) fun found => ?_
  cases found with
  | some receipt =>
    refine free_bind verifyReceipt_free fun stored => ?_
    refine free_bind Throws.without_require fun _ => ?_
    exact free_bind (authorizeSnapshot_free hcalm _) fun _ => trivial
  | none =>
    refine free_bind ?_ fun _ => trivial
    refine Throws.without_tryCatch ?_ (winner_free hcalm)
    exact free_bind (authorizeSnapshot_free hcalm _) fun _ => trivial

theorem conflicting_free (error : Failure) :
    Free bar (service.conflicting actor key snapshot mailbox error) := by
  refine free_bind Throws.without_require fun _ => ?_
  refine free_bind (calm_stmt hcalm _ rfl) fun found => ?_
  refine free_bind Throws.without_found fun receipt => ?_
  refine free_bind verifyReceipt_free fun _ => ?_
  exact free_bind Throws.without_require fun _ => trivial

theorem loadAuthorizedReceipt_free : Free bar (service.loadAuthorizedReceipt user key) := by
  refine free_bind (actorScope_free hcalm) fun actor => ?_
  refine free_bind (calm_stmt hcalm _ rfl) fun found => ?_
  refine free_bind Throws.without_found fun receipt => ?_
  refine free_bind verifyReceipt_free fun snapshot => ?_
  exact free_bind (authorizeSnapshot_free hcalm _) fun _ => trivial

end Calm

variable (hbar : ∀ {β : Type} (st : Stmt β), st.apart = false → bar st = false)
include hbar

theorem bar_calm {β : Type} (st : Stmt β) (h : st.calm = true) : bar st = false :=
  hbar st (Stmt.apart_of_calm h)

theorem free_stmt {β : Type} (st : Stmt (Except Failure β)) (h : st.apart = false) :
    Free bar (Throws.stmt st) := Throws.without_stmt (hbar st h)

theorem inTransaction_free {α : Type} {body : Throws Stmt Failure α} (h : Free bar body) :
    Free bar (inTransaction body) :=
  Throws.without_transaction h (hbar _ rfl) (hbar _ rfl)

theorem receiptTransition_free (data : Outcome) (action : String) :
    Free bar (receiptTransition actor receipt data action) := by
  refine inTransaction_free hbar (free_bind (free_stmt hbar _ rfl) fun changed => ?_)
  refine free_bind Throws.without_require fun _ => ?_
  refine free_bind (free_stmt hbar _ rfl) fun found => ?_
  refine free_bind Throws.without_found fun updated => ?_
  exact free_bind (audit_free (bar_calm hbar) _) fun _ => trivial

theorem project_free : Free bar (project receipt scope) := by
  refine free_bind (finalizeResponse_free (bar_calm hbar) _) fun _ => free_bind ?_ fun _ => ?_
  · unfold finalizeMessage
    cases receipt.snapshot.payload.hubThreadId with
    | none => trivial
    | some threadId =>
      refine free_bind (free_stmt hbar _ rfl) fun message => ?_
      refine free_bind (free_stmt hbar _ rfl) fun changed => ?_
      exact free_bind Throws.without_require fun _ => trivial
  · refine free_bind (free_stmt hbar _ rfl) fun changed => ?_
    refine free_bind Throws.without_require fun _ => ?_
    refine free_bind (free_stmt hbar _ rfl) fun found => ?_
    refine free_bind Throws.without_found fun completed => ?_
    exact free_bind (audit_free (bar_calm hbar) _) fun _ => trivial

theorem finalize_free : Free bar (service.finalize user receipt) := by
  refine inTransaction_free hbar (free_bind (actorScope_free (bar_calm hbar)) fun actor => ?_)
  refine free_bind verifyReceipt_free fun snapshot => ?_
  refine free_bind (authorizeSnapshot_free (bar_calm hbar) _) fun _ => ?_
  refine free_bind (free_stmt hbar _ rfl) fun lock => ?_
  split
  · exact project_free hbar
  · exact taken_free (bar_calm hbar)

theorem repair_free : Free bar (service.repair user receipt) := by
  unfold Service.repair
  split
  · exact outcome_free _
  · refine Throws.without_tryCatch ?_ fun _ => outcome_free _
    exact free_bind (finalize_free hbar) fun _ => outcome_free _

theorem claimBody_free : Free bar (service.claimBody user actor key snapshot mailbox) := by
  refine free_bind (actorScope_free (bar_calm hbar)) fun fresh => ?_
  refine free_bind (free_stmt hbar _ rfl) fun found => ?_
  cases found with
  | some existing =>
    refine free_bind verifyReceipt_free fun stored => ?_
    refine free_bind Throws.without_require fun _ => ?_
    exact free_bind (authorizeSnapshot_free (bar_calm hbar) _) fun _ => trivial
  | none =>
    refine free_bind (authorizeSnapshot_free (bar_calm hbar) _) fun _ => ?_
    refine free_bind (free_stmt hbar _ rfl) fun created => ?_
    exact free_bind (audit_free (bar_calm hbar) _) fun _ => trivial

theorem claim_free : Free bar (service.claim user actor key snapshot mailbox) :=
  Throws.without_tryCatch (inTransaction_free hbar (claimBody_free hbar))
    (conflicting_free (bar_calm hbar))

variable (hsend : ∀ transport receipt, bar (.send transport receipt) = false)
include hsend

theorem dispatch_free {transport : Transport} :
    Free bar (service.dispatch user actor transport receipt) := by
  refine free_bind (Throws.without_caught (Throws.without_stmt (hsend _ _))) fun answered => ?_
  cases answered with
  | error error =>
    refine free_bind (Throws.without_tryCatch (receiptTransition_free hbar _ _) fun _ => trivial)
      fun stored => ?_
    exact outcome_free _
  | ok sent =>
    refine free_bind (Throws.without_caught (receiptTransition_free hbar _ _)) fun stored => ?_
    cases stored with
    | error error => exact outcome_free _
    | ok stored => exact repair_free hbar

theorem sendGmailWithReceipt_free (input : Input) :
    Free bar (service.sendGmailWithReceipt user input) := by
  refine free_bind (lookup_free (bar_calm hbar) _) fun ⟨actor, found, snapshot⟩ => ?_
  refine free_bind (prepared_free (bar_calm hbar) _) fun ⟨transport, sendable⟩ => ?_
  cases found with
  | some receipt => exact repair_free hbar
  | none =>
    refine free_bind Throws.without_require fun _ => ?_
    refine free_bind (claim_free hbar) fun claim => ?_
    cases claim with
    | existing existing => exact repair_free hbar
    | claimed created => exact dispatch_free hbar hsend

theorem sends_free (request : SendRequest) : Free bar (request.program service) := by
  have hload (user : User) (key : String) : Free bar (service.loadAuthorizedReceipt user key) :=
    loadAuthorizedReceipt_free (bar_calm hbar)
  cases request with
  | send user input => exact sendGmailWithReceipt_free hbar hsend input
  | read user key => exact free_bind (hload user key) fun _ => outcome_free _
  | reconcile user key => exact free_bind (hload user key) fun _ => repair_free hbar

end

end Ashbi.Gmail

import Ashbi.Js
import Ashbi.Sql.Batch

/-! Runs of a client's account manager: the rows, and the requests that start, cancel and review
them. The conversations are those with a client, which no workspace channel is the source of. -/

namespace Ashbi.Agents

open Sql

/-! ### Rows -/

inductive Status
  | queued | running | succeeded | failed | cancelled | unknown
  deriving DecidableEq

def Status.active : Status → Bool
  | .queued | .running => true
  | _ => false

structure User where
  id : String
  organizationId : String
  role : String
  isActive : Bool
  deriving DecidableEq

structure Client where
  id : String
  organizationId : String
  deleted : Bool
  deriving DecidableEq

structure Conversation where
  id : String
  organizationId : String
  clientId : String
  archivedAt : Option Time
  deriving DecidableEq

/-- What the assistant is told of itself; revision zero stands for the defaults. -/
structure Profile where
  clientId : String
  name : String
  instructions : String
  enabled : Bool
  revision : ℕ
  pluginIds : List String
  deriving DecidableEq

/-- A row of `client_agent_runs`. `Context` is the snapshot of the client and `Memory` that of
earlier turns. -/
structure AgentRun (Context Memory : Type) where
  id : ℕ
  organizationId : String
  conversationId : String
  requestedById : String
  idempotencyKey : String
  inputHash : String
  prompt : String
  response : Option String
  status : Status
  profileRevision : Option ℕ
  contextObservedAt : Option Time
  contextSnapshot : Option Context
  memorySnapshot : Option Memory
  claimToken : Option ℕ
  startedAt : Option Time
  finishedAt : Option Time
  deadlineAt : Option Time
  errorCode : Option String
  createdAt : Time
  deriving DecidableEq

structure State (Context Memory : Type) where
  users : List User
  clients : List Client
  conversations : List Conversation
  runs : List (AgentRun Context Memory)
  /-- The runs whose attention is reviewed. -/
  reviews : List ℕ
  /-- The tokens handed out by `randomUUID`, and the ids of new rows. -/
  issued : ℕ
  nextRun : ℕ

variable {Context Memory : Type}

/-- The key of `client_agent_runs_intent_key`. -/
def AgentRun.intent (run : AgentRun Context Memory) : String × String × String :=
  (run.organizationId, run.requestedById, run.idempotencyKey)

/-- The key of `client_agent_runs_one_active`. -/
def AgentRun.scope (run : AgentRun Context Memory) : String × String :=
  (run.organizationId, run.conversationId)

def State.findRun (s : State Context Memory) (organizationId : String) (id : ℕ) :
    Option (AgentRun Context Memory) :=
  s.runs.find? fun run => run.id = id && run.organizationId = organizationId

/-! ### Updates of a run -/

/-- What a claimed run is settled with. -/
inductive Outcome
  | succeeded (response : String)
  | failed (code : String)
  | unknown (code : String)
  deriving DecidableEq

def Outcome.status : Outcome → Status
  | .succeeded _ => .succeeded
  | .failed _ => .failed
  | .unknown _ => .unknown

def AgentRun.claimed (run : AgentRun Context Memory) (token : ℕ) (startedAt deadlineAt : Time) :
    AgentRun Context Memory :=
  { run with
    status := .running
    claimToken := some token
    startedAt := some startedAt
    deadlineAt := some deadlineAt
    errorCode := none }

/-- `status: 'RUNNING', claimToken, deadlineAt: { lte: at }` -/
def AgentRun.expires (run : AgentRun Context Memory) (claimToken : Option ℕ) (now : Time) : Bool :=
  run.status = .running && run.claimToken = claimToken && run.deadlineAt.any (· ≤ now)

def AgentRun.expired (run : AgentRun Context Memory) (now : Time) : AgentRun Context Memory :=
  { run with
    status := .unknown
    errorCode := some "RUN_DEADLINE_EXCEEDED"
    finishedAt := some now }

/-- `status: 'RUNNING', claimToken, deadlineAt: { gt: at }` -/
def AgentRun.heldBy (run : AgentRun Context Memory) (token : ℕ) (now : Time) : Bool :=
  run.status = .running && run.claimToken = some token && run.deadlineAt.any (now < ·)

def AgentRun.settled (run : AgentRun Context Memory) (outcome : Outcome) (now : Time) :
    AgentRun Context Memory :=
  match outcome with
  | .succeeded response =>
    { run with
      status := .succeeded
      response := some response
      errorCode := none
      finishedAt := some now }
  | .failed code =>
    { run with status := .failed, errorCode := some code, finishedAt := some now }
  | .unknown code =>
    { run with status := .unknown, errorCode := some code, finishedAt := some now }

/-- What a run is prepared with. -/
structure Prepared (Context Memory : Type) where
  profile : Profile
  context : Context
  memorySnapshot : Memory
  contextObservedAt : Time
  deriving DecidableEq

def AgentRun.prepared (run : AgentRun Context Memory) (given : Prepared Context Memory) :
    AgentRun Context Memory :=
  { run with
    profileRevision := some given.profile.revision
    contextObservedAt := some given.contextObservedAt
    contextSnapshot := some given.context
    memorySnapshot := some given.memorySnapshot }

def AgentRun.cancelled (run : AgentRun Context Memory) (now : Time) : AgentRun Context Memory :=
  { run with status := .cancelled, finishedAt := some now, claimToken := none }

/-- The updates of a run. -/
inductive Write (Context Memory : Type)
  | claim (token : ℕ) (startedAt deadlineAt : Time)
  | expire (claimToken : Option ℕ) (now : Time)
  | settle (token : ℕ) (now : Time) (outcome : Outcome)
  | prepare (token : ℕ) (now : Time) (prepared : Prepared Context Memory)
  | cancel (conversationId : String) (status : Status) (now : Time)
  deriving DecidableEq

def Write.selects : Write Context Memory → AgentRun Context Memory → Bool
  | .claim _ _ _, run => run.status = .queued
  | .expire claimToken now, run => run.expires claimToken now
  | .settle token now _, run => run.heldBy token now
  | .prepare token now _, run => run.heldBy token now && run.contextObservedAt.isNone
  | .cancel conversationId status _, run =>
    run.conversationId = conversationId && run.status = status

def Write.set : Write Context Memory → AgentRun Context Memory → AgentRun Context Memory
  | .claim token startedAt deadlineAt, run => run.claimed token startedAt deadlineAt
  | .expire _ now, run => run.expired now
  | .settle _ now outcome, run => run.settled outcome now
  | .prepare _ _ prepared, run => run.prepared prepared
  | .cancel _ _ now, run => run.cancelled now

/-- The condition of an update of the run with an id. -/
def Write.at (organizationId : String) (id : ℕ) (write : Write Context Memory)
    (run : AgentRun Context Memory) : Bool :=
  run.id = id && run.organizationId = organizationId && write.selects run

def State.updateRuns (s : State Context Memory) (organizationId : String) (id : ℕ)
    (write : Write Context Memory) : State Context Memory :=
  { s with runs := Sql.update (write.at organizationId id) write.set s.runs }

/-! ### Requests -/

inductive Refusal
  | tool (code : String)
  /-- A unique index was violated (`P2002`), or a transaction could not be serialized. -/
  | duplicate
  | unserializable
  deriving DecidableEq

/-- A serializable transaction. -/
abbrev Transaction (Context Memory α : Type) := Batch (State Context Memory) Refusal α

/-- What a transaction depends on besides the tables: the profile that is read, and whether the
domain event and the audit record can be written. -/
structure Setting where
  profile : Option Profile
  recorded : Bool
  audited : Bool
  now : Time

def isStaff (user : User) : Bool := user.isActive && (user.role = "ADMIN" || user.role = "TEAM")

def authorizeClientAgentStaff (user : User) (clientId : String) :
    Transaction Context Memory User := do
  let s ← get
  match s.users.find? fun row => row.id = user.id && row.organizationId = user.organizationId &&
      row.isActive with
  | none => throw (.tool "ROLE_DENIED")
  | some actor => do
    check (isStaff actor) (.tool "ROLE_DENIED")
    check (s.clients.any fun row => row.id = clientId &&
      row.organizationId = actor.organizationId && !row.deleted) (.tool "RECORD_NOT_FOUND")
    pure actor

/-- The authorized actor of a conversation. -/
def scope (user : User) (clientId conversationId : String) (requireActive : Bool) :
    Transaction Context Memory User := do
  let actor ← authorizeClientAgentStaff user clientId
  let s ← get
  match s.conversations.find? fun row => row.id = conversationId && row.clientId = clientId &&
      row.organizationId = actor.organizationId with
  | none => throw (.tool "RECORD_NOT_FOUND")
  | some conversation => do
    check (!requireActive || conversation.archivedAt.isNone) (.tool "CONVERSATION_ARCHIVED")
    pure actor

def findScopedRun (actor : User) (conversationId : String) (runId : ℕ) :
    Transaction Context Memory (AgentRun Context Memory) := do
  let s ← get
  match s.runs.find? fun run => run.id = runId && run.organizationId = actor.organizationId &&
      run.conversationId = conversationId with
  | none => throw (.tool "RECORD_NOT_FOUND")
  | some run => pure run

structure Question where
  clientId : String
  conversationId : String
  question : String
  idempotencyKey : String
  inputHash : String

/-- The columns of a new run. -/
def newRun (actor : User) (input : Question) (profileRevision : ℕ) (id : ℕ) (now : Time) :
    AgentRun Context Memory where
  id := id
  organizationId := actor.organizationId
  conversationId := input.conversationId
  requestedById := actor.id
  idempotencyKey := input.idempotencyKey
  inputHash := input.inputHash
  prompt := input.question
  response := none
  status := .queued
  profileRevision := some profileRevision
  contextObservedAt := none
  contextSnapshot := none
  memorySnapshot := none
  claimToken := none
  startedAt := none
  finishedAt := none
  deadlineAt := none
  errorCode := none
  createdAt := now

/-- The unique indexes let the row in. -/
def State.admits (s : State Context Memory) (row : AgentRun Context Memory) : Bool :=
  s.runs.all fun run => run.intent ≠ row.intent &&
    !(run.status.active && row.status.active && run.scope = row.scope)

def createRun (row : AgentRun Context Memory) : Transaction Context Memory Unit := do
  let s ← get
  check (s.admits row) .duplicate
  set { s with runs := s.runs ++ [row], nextRun := s.nextRun + 1 }

def queueClientAgentRunInTransaction (setting : Setting) (actor : User) (input : Question)
    (profileRevision : ℕ) : Transaction Context Memory (AgentRun Context Memory) := do
  let s ← get
  let row := newRun actor input profileRevision s.nextRun setting.now
  createRun row
  check setting.recorded (.tool "RUN_EVENT_UNAVAILABLE")
  check setting.audited (.tool "RUN_AUDIT_UNAVAILABLE")
  pure row

/-- The profile lets the client's account manager work. -/
def Profile.worksFor (profile : Profile) (clientId : String) : Bool :=
  profile.clientId = clientId && profile.enabled && profile.pluginIds.contains "client-work"

def queueNew (setting : Setting) (actor : User) (input : Question) :
    Transaction Context Memory (AgentRun Context Memory) := do
  match setting.profile.filter (·.worksFor input.clientId) with
  | none => throw (.tool "AGENT_DISABLED")
  | some profile => do
    let s ← get
    check (!s.runs.any fun run => run.organizationId = actor.organizationId &&
      run.conversationId = input.conversationId && run.status.active) (.tool "RUN_IN_PROGRESS")
    queueClientAgentRunInTransaction setting actor input profile.revision

/-- The transaction of `start`. -/
def startRun (setting : Setting) (user : User) (input : Question) :
    Transaction Context Memory (AgentRun Context Memory) := do
  let actor ← scope user input.clientId input.conversationId true
  let s ← get
  match s.runs.find? fun run => run.organizationId = actor.organizationId &&
      run.requestedById = actor.id && run.idempotencyKey = input.idempotencyKey with
  | some existing => do
    check (existing.conversationId = input.conversationId &&
      existing.inputHash = input.inputHash) (.tool "RUN_IDEMPOTENCY_CONFLICT")
    pure existing
  | none => queueNew setting actor input

def cancelActive (setting : Setting) (actor : User) (current : AgentRun Context Memory) :
    Transaction Context Memory (AgentRun Context Memory) := do
  let s ← get
  set (s.updateRuns actor.organizationId current.id
    (.cancel current.conversationId current.status setting.now))
  let row ← findScopedRun actor current.conversationId current.id
  check (row.status = .cancelled) (.tool "RUN_CONFLICT")
  check setting.audited (.tool "RUN_AUDIT_UNAVAILABLE")
  pure row

/-- The transaction of `cancel`. -/
def cancelRun (setting : Setting) (user : User) (clientId conversationId : String) (runId : ℕ) :
    Transaction Context Memory (AgentRun Context Memory) := do
  let actor ← scope user clientId conversationId false
  let current ← findScopedRun actor conversationId runId
  check (actor.role = "ADMIN" || current.requestedById = actor.id) (.tool "ROLE_DENIED")
  if current.status = .cancelled then pure current
  else do
    check current.status.active (.tool "RUN_CONFLICT")
    cancelActive setting actor current

/-- The transaction of `review`. -/
def reviewRun (setting : Setting) (user : User) (clientId conversationId : String) (runId : ℕ) :
    Transaction Context Memory (AgentRun Context Memory) := do
  let actor ← scope user clientId conversationId false
  let current ← findScopedRun actor conversationId runId
  check (current.requestedById = actor.id) (.tool "RECORD_NOT_FOUND")
  check (current.status = .failed || current.status = .unknown) (.tool "RUN_NOT_REVIEWABLE")
  let s ← get
  if s.reviews.contains runId then pure current
  else do
    set { s with reviews := s.reviews ++ [runId] }
    check setting.audited (.tool "RUN_AUDIT_UNAVAILABLE")
    pure current

end Ashbi.Agents

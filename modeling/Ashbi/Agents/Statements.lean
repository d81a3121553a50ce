import Ashbi.Agents.Run
import Ashbi.Interleaving.Throws

/-! The statements of the account manager's requests and jobs. -/

namespace Ashbi.Agents

open Interleaving Sql

/-! ### What is given to the provider -/

structure Prompt (Context Memory : Type) where
  observedAt : Time
  snapshot : Context
  memorySnapshot : Memory
  name : String
  instructions : String
  question : String
  deriving DecidableEq

/-- What the tables and texts besides the runs come to: the sizes in bytes of a context and of a
prompt as JSON, and the memory of the turns before a run. -/
structure Sources (Context Memory : Type) where
  contextBytes : Context → ℕ
  promptBytes : Prompt Context Memory → ℕ
  buildMemory : List (AgentRun Context Memory) → AgentRun Context Memory → Memory

/-- An error, as far as its code tells it apart. -/
structure Failure where
  code : Option String
  deriving DecidableEq

/-- How the wait for the provider ends; a response that is no string is `none`. -/
inductive Reply
  | answered (response : Option String)
  | rejected (failure : Failure)
  | deadline
  deriving DecidableEq

variable {Context Memory : Type}

/-! ### Statements -/

inductive Stmt (Context Memory : Type) : Type → Type
  | now : Stmt Context Memory Time
  | randomUUID : Stmt Context Memory ℕ
  | findRun (organizationId : String) (id : ℕ) :
      Stmt Context Memory (Option (AgentRun Context Memory))
  | sourceConversation (organizationId id : String) : Stmt Context Memory (Option Conversation)
  | claim (organizationId : String) (id token : ℕ) (startedAt deadlineAt : Time) :
      Stmt Context Memory ℕ
  | expire (organizationId : String) (id : ℕ) (claimToken : Option ℕ) (now : Time) :
      Stmt Context Memory ℕ
  | settle (organizationId : String) (id token : ℕ) (now : Time) (outcome : Outcome) :
      Stmt Context Memory ℕ
  /-- The reads of the preflight, and the update that stores what they found. -/
  | activeConversation (organizationId id : String) :
      Stmt Context Memory (Except Failure (Option Conversation))
  | activeUser (organizationId id : String) : Stmt Context Memory (Except Failure (Option User))
  | readProfile (actor : User) (clientId : String) : Stmt Context Memory (Except Failure Profile)
  | buildContext (organizationId clientId : String) :
      Stmt Context Memory (Except Failure (Option Context))
  | buildMemory (run : AgentRun Context Memory) : Stmt Context Memory (Except Failure Memory)
  | prepare (organizationId : String) (id token : ℕ) (now : Time)
      (prepared : Prepared Context Memory) : Stmt Context Memory (Except Failure ℕ)
  /-- The provider is called, and later the wait for it ends. -/
  | chat (id : ℕ) (prompt : Prompt Context Memory) : Stmt Context Memory Unit
  | reply (id : ℕ) : Stmt Context Memory Reply
  /-- The transactions of the requests. -/
  | start (user : User) (input : Question) :
      Stmt Context Memory (Except Refusal (AgentRun Context Memory))
  | cancel (user : User) (clientId conversationId : String) (id : ℕ) :
      Stmt Context Memory (Except Refusal (AgentRun Context Memory))
  | review (user : User) (clientId conversationId : String) (id : ℕ) :
      Stmt Context Memory (Except Refusal (AgentRun Context Memory))
  /-- Any change of accounts, clients and conversations. -/
  | setAccounts (users : List User) (clients : List Client)
      (conversations : List Conversation) : Stmt Context Memory Unit

/-- A statement can throw without or after having been executed. -/
inductive Fault
  | none | before | after
  deriving DecidableEq

/-- The reading of the clock, the fault, what the provider answers and what is read from tables
that are not modelled. -/
structure Choice (Context : Type) where
  time : Time
  fault : Fault
  reply : Reply
  profile : Except Failure Profile
  context : Except Failure (Option Context)
  recorded : Bool
  audited : Bool

/-- An error of the database has no code that the job knows. -/
def databaseError : Failure := ⟨none⟩

/-- What a read comes to that may throw. -/
def Fault.read {α : Type} (fault : Fault) (value : α) : Except Failure α :=
  if fault = .none then .ok value else .error databaseError

def Choice.setting (choice : Choice Context) : Setting where
  profile := choice.profile.toOption
  recorded := choice.recorded
  audited := choice.audited
  now := choice.time

/-- A transaction that may fail to commit, or commit and not be answered. -/
def Choice.transact {α : Type} (choice : Choice Context)
    (transaction : Transaction Context Memory α) (s : State Context Memory) :
    Except Refusal α × State Context Memory :=
  match choice.fault with
  | .none => commit transaction s
  | .before => (.error .unserializable, s)
  | .after => (.error .unserializable, (commit transaction s).2)

/-- The rows that an update has changed are counted. -/
def State.updateMany (s : State Context Memory) (organizationId : String) (id : ℕ)
    (write : Write Context Memory) : ℕ × State Context Memory :=
  ((s.runs.filter (write.at organizationId id)).length, s.updateRuns organizationId id write)

/-- The primary keys of accounts and conversations, and the foreign keys of the runs. -/
def State.referenced (s : State Context Memory) (users : List User)
    (conversations : List Conversation) : Bool :=
  decide (users.map (·.id)).Nodup && decide (conversations.map (·.id)).Nodup &&
    s.runs.all fun run =>
      (users.any fun row => row.id = run.requestedById &&
        row.organizationId = run.organizationId) &&
      conversations.any fun row => row.id = run.conversationId &&
        row.organizationId = run.organizationId

def exec (sources : Sources Context Memory) {β : Type} (st : Stmt Context Memory β)
    (choice : Choice Context) (s : State Context Memory) : β × State Context Memory :=
  match st with
  | .now => (choice.time, s)
  | .randomUUID => (s.issued, { s with issued := s.issued + 1 })
  | .findRun organizationId id => (s.findRun organizationId id, s)
  | .sourceConversation organizationId id =>
    (s.conversations.find? fun row => row.id = id && row.organizationId = organizationId, s)
  | .claim organizationId id token startedAt deadlineAt =>
    s.updateMany organizationId id (.claim token startedAt deadlineAt)
  | .expire organizationId id claimToken now =>
    s.updateMany organizationId id (.expire claimToken now)
  | .settle organizationId id token now outcome =>
    s.updateMany organizationId id (.settle token now outcome)
  | .activeConversation organizationId id =>
    (choice.fault.read (s.conversations.find? fun row => row.id = id &&
      row.organizationId = organizationId && row.archivedAt.isNone), s)
  | .activeUser organizationId id =>
    (choice.fault.read (s.users.find? fun row => row.id = id &&
      row.organizationId = organizationId && row.isActive), s)
  | .readProfile _ _ => (choice.profile, s)
  | .buildContext _ _ => (choice.context, s)
  | .buildMemory run => (choice.fault.read (sources.buildMemory s.runs run), s)
  | .prepare organizationId id token now prepared =>
    let updated := s.updateMany organizationId id (.prepare token now prepared)
    match choice.fault with
    | .none => (.ok updated.1, updated.2)
    | .before => (.error databaseError, s)
    | .after => (.error databaseError, updated.2)
  | .chat _ _ => ((), s)
  | .reply _ => (choice.reply, s)
  | .start user input => choice.transact (startRun choice.setting user input) s
  | .cancel user clientId conversationId id =>
    choice.transact (cancelRun choice.setting user clientId conversationId id) s
  | .review user clientId conversationId id =>
    choice.transact (reviewRun choice.setting user clientId conversationId id) s
  | .setAccounts users clients conversations =>
    ((), if s.referenced users conversations then
        { s with users := users, clients := clients, conversations := conversations }
      else s)

abbrev machine (sources : Sources Context Memory) : Machine where
  Stmt := Stmt Context Memory
  Choice := Choice Context
  State := State Context Memory
  enabled := fun _ _ _ => true
  exec := fun _ st choice s => exec sources st choice s

/-! ### Jobs and requests -/

def maxDurationMs : Time := 120000
def maxResponseLength : ℕ := 20000
def maxContextBytes : ℕ := 64000
def maxAgentPromptBytes : ℕ := 96 * 1024

def preDispatchCodes : List String :=
  ["ROLE_DENIED", "RECORD_NOT_FOUND", "CLIENT_AGENT_PAUSED", "CLIENT_AGENT_PLUGIN_DISABLED",
    "RUN_INPUT_INVALID", "CONTEXT_TOO_LARGE"]

def failure (code : String) : Failure := ⟨some code⟩

abbrev Job (Context Memory α : Type) := Prog (Stmt Context Memory) α

/-- The status that a job ends with; `none` is NOT_FOUND. -/
def result (run : AgentRun Context Memory) : Job Context Memory (Option Status) := do
  let current ← Prog.stmt (.findRun run.organizationId run.id)
  pure (current.map (·.status))

def expire (run : AgentRun Context Memory) (claimToken : Option ℕ) (now : Time) :
    Job Context Memory (Option Status) := do
  let _ ← Prog.stmt (.sourceConversation run.organizationId run.conversationId)
  let _ ← Prog.stmt (.expire run.organizationId run.id claimToken now)
  result run

/-- The token and the deadline that a job has claimed its run with. -/
structure Claimed where
  token : ℕ
  deadlineAt : Time

def settle (run : AgentRun Context Memory) (claim : Claimed) (outcome : Outcome) :
    Job Context Memory (Option Status) := do
  let now ← Prog.stmt .now
  let _ ← Prog.stmt (.sourceConversation run.organizationId run.conversationId)
  if claim.deadlineAt ≤ now then expire run (some claim.token) now
  else do
    let _ ← Prog.stmt (.settle run.organizationId run.id claim.token now outcome)
    result run

/-- The texts and records that the preflight checks before it reads on. -/
def checkConversation (conversation : Option Conversation) : Except Failure Conversation :=
  match conversation with
  | none => .error (failure "RECORD_NOT_FOUND")
  | some row =>
    if row.clientId.toList.all Js.isSpace || 100 < Js.length row.clientId then
      .error (failure "RECORD_NOT_FOUND")
    else .ok row

def checkActor (actor : Option User) : Except Failure User :=
  match actor.filter isStaff with
  | none => .error (failure "ROLE_DENIED")
  | some actor => .ok actor

def checkProfile (profile : Profile) : Except Failure Unit :=
  if !profile.enabled then .error (failure "CLIENT_AGENT_PAUSED")
  else if !profile.pluginIds.contains "client-work" then
    .error (failure "CLIENT_AGENT_PLUGIN_DISABLED")
  else .ok ()

section Preflight

variable (sources : Sources Context Memory)

def checkContext (context : Option Context) : Except Failure Context :=
  match context with
  | none => .error (failure "RECORD_NOT_FOUND")
  | some context =>
    if maxContextBytes < sources.contextBytes context then .error (failure "CONTEXT_TOO_LARGE")
    else .ok context

/-- The prompt that a run is prepared for. -/
def promptOf (run : AgentRun Context Memory) (prepared : Prepared Context Memory) :
    Prompt Context Memory where
  observedAt := prepared.contextObservedAt
  snapshot := prepared.context
  memorySnapshot := prepared.memorySnapshot
  name := prepared.profile.name
  instructions := prepared.profile.instructions
  question := run.prompt

/-- What the `try` before the dispatch finds, or throws. -/
def preflight (run : AgentRun Context Memory) :
    Throws (Stmt Context Memory) Failure (Prepared Context Memory) := do
  Throws.require (!run.prompt.toList.all Js.isSpace && Js.length run.prompt ≤ 2000)
    (failure "RUN_INPUT_INVALID")
  let found ← Throws.stmt (.activeConversation run.organizationId run.conversationId)
  let conversation ← Throws.returns (checkConversation found)
  let user ← Throws.stmt (.activeUser run.organizationId run.requestedById)
  let actor ← Throws.returns (checkActor user)
  let profile ← Throws.stmt (.readProfile actor conversation.clientId)
  let _ ← Throws.returns (checkProfile profile)
  let built ← Throws.stmt (.buildContext run.organizationId conversation.clientId)
  let context ← Throws.returns (checkContext sources built)
  let memorySnapshot ← Throws.stmt (.buildMemory run)
  let contextObservedAt ← Throws.read .now
  let prepared : Prepared Context Memory := ⟨profile, context, memorySnapshot, contextObservedAt⟩
  Throws.require (sources.promptBytes (promptOf run prepared) ≤ maxAgentPromptBytes)
    (failure "CONTEXT_TOO_LARGE")
  pure prepared

end Preflight

def preflightCode (failure : Failure) : String :=
  (failure.code.filter (preDispatchCodes.contains ·)).getD "RUN_PREFLIGHT_UNAVAILABLE"

/-- What the end of the call means for the run. -/
def Reply.outcome : Reply → Outcome
  | .answered none => .unknown "RUN_RESPONSE_INVALID"
  | .answered (some response) =>
    if response.toList.all Js.isSpace || maxResponseLength < Js.length response then
      .unknown "RUN_RESPONSE_INVALID"
    else .succeeded response
  | .rejected failure =>
    match failure.code.filter (["AI_DISABLED", "AI_BUDGET_EXCEEDED"].contains ·) with
    | some code => .failed code
    | none => .unknown "RUN_PROVIDER_OUTCOME_UNKNOWN"
  | .deadline => .unknown "RUN_DEADLINE_EXCEEDED"

def callChat (run : AgentRun Context Memory) (claim : Claimed)
    (prepared : Prepared Context Memory) : Job Context Memory (Option Status) := do
  Prog.stmt (.chat run.id (promptOf run prepared))
  let reply ← Prog.stmt (.reply run.id)
  settle run claim reply.outcome

def dispatch (run : AgentRun Context Memory) (claim : Claimed)
    (prepared : Prepared Context Memory) : Job Context Memory (Option Status) := do
  let _ ← Prog.stmt (.sourceConversation run.organizationId run.conversationId)
  let now ← Prog.stmt .now
  if claim.deadlineAt - now ≤ 0 then do
    let now ← Prog.stmt .now
    expire run (some claim.token) now
  else callChat run claim prepared

/-- What follows the update that stores the context and the memory. -/
def dispatchPrepared (run : AgentRun Context Memory) (claim : Claimed)
    (prepared : Prepared Context Memory) (saved : Except Failure ℕ) :
    Job Context Memory (Option Status) :=
  match saved with
  | .error _ => settle run claim (.failed "RUN_PREFLIGHT_UNAVAILABLE")
  | .ok count => if count ≠ 1 then result run else dispatch run claim prepared

def prepare (run : AgentRun Context Memory) (claim : Claimed)
    (prepared : Prepared Context Memory) : Job Context Memory (Option Status) := do
  let now ← Prog.stmt .now
  let saved ← Prog.stmt (.prepare run.organizationId run.id claim.token now prepared)
  dispatchPrepared run claim prepared saved

/-- A cancellation or an expiry that was committed during the preflight is respected. -/
def checkClaim (run : AgentRun Context Memory) (claim : Claimed)
    (prepared : Prepared Context Memory) : Job Context Memory (Option Status) := do
  let current ← Prog.stmt (.findRun run.organizationId run.id)
  if !current.any fun row => row.status = .running && row.claimToken = some claim.token then
    result run
  else do
    let now ← Prog.stmt .now
    if claim.deadlineAt ≤ now then do
      let now ← Prog.stmt .now
      expire run (some claim.token) now
    else prepare run claim prepared

/-- What follows the preflight. -/
def afterPreflight (run : AgentRun Context Memory) (claim : Claimed)
    (prepared : Except Failure (Prepared Context Memory)) : Job Context Memory (Option Status) :=
  match prepared with
  | .error failure => settle run claim (.failed (preflightCode failure))
  | .ok prepared => checkClaim run claim prepared

section Process

variable (sources : Sources Context Memory)

def claimRun (run : AgentRun Context Memory) : Job Context Memory (Option Status) := do
  let token ← Prog.stmt .randomUUID
  let startedAt ← Prog.stmt .now
  let _ ← Prog.stmt (.sourceConversation run.organizationId run.conversationId)
  let count ← Prog.stmt
    (.claim run.organizationId run.id token startedAt (startedAt + maxDurationMs))
  if count ≠ 1 then result run
  else do
    let prepared ← (preflight sources run).run
    afterPreflight run ⟨token, startedAt + maxDurationMs⟩ prepared

/-- A delivery that finds the run claimed only expires it. -/
def expireOverdue (run : AgentRun Context Memory) (deadlineAt : Time) :
    Job Context Memory (Option Status) := do
  let now ← Prog.stmt .now
  if deadlineAt ≤ now then do
    let now ← Prog.stmt .now
    expire run run.claimToken now
  else pure (some .running)

def processFound (run : AgentRun Context Memory) : Job Context Memory (Option Status) :=
  match run.status, run.deadlineAt with
  | .running, some deadlineAt => expireOverdue run deadlineAt
  | .running, none => pure (some .running)
  | .queued, _ => claimRun sources run
  | status, _ => pure (some status)

def processClientAgentRun (organizationId : String) (runId : ℕ) :
    Job Context Memory (Option Status) := do
  let found ← Prog.stmt (.findRun organizationId runId)
  match found with
  | none => pure none
  | some run => processFound sources run

end Process

/-- A concurrent writer of the same key may have committed: one more transaction returns its run. -/
def startClientAgentRun (user : User) (input : Question) :
    Job Context Memory (Except Refusal (AgentRun Context Memory)) := do
  let first ← Prog.stmt (.start user input)
  match first with
  | .error .duplicate => Prog.stmt (.start user input)
  | answer => pure answer

/-- Up to three attempts. -/
def reviewClientAgentRun (user : User) (clientId conversationId : String) (id : ℕ) :
    ℕ → Job Context Memory (Except Refusal (AgentRun Context Memory))
  | 0 => pure (.error (.tool "RUN_CONFLICT"))
  | attempts + 1 => do
    let answer ← Prog.stmt (.review user clientId conversationId id)
    match answer with
    | .error .duplicate | .error .unserializable =>
      reviewClientAgentRun user clientId conversationId id attempts
    | answer => pure answer

/-- A program whose answer nobody waits for in the model. -/
def Job.alone {α : Type} (job : Job Context Memory α) : Prog (Stmt Context Memory) Unit :=
  job.bind fun _ => .ret ()

/-- What runs: deliveries of the job, requests, and changes of accounts and conversations. -/
inductive Deployed (sources : Sources Context Memory) : Prog (Stmt Context Memory) Unit → Prop
  | process (organizationId) (runId) :
      Deployed sources (processClientAgentRun sources organizationId runId).alone
  | start (user) (input) : Deployed sources (startClientAgentRun user input).alone
  | cancel (user) (clientId conversationId) (id) :
      Deployed sources (Job.alone (Prog.stmt (.cancel user clientId conversationId id)))
  | review (user) (clientId conversationId) (id) :
      Deployed sources (reviewClientAgentRun user clientId conversationId id 3).alone
  | setAccounts (users) (clients) (conversations) :
      Deployed sources (.stmt (.setAccounts users clients conversations))

end Ashbi.Agents

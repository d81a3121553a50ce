import Ashbi.Checked
import Ashbi.Interleaving.Program
import Ashbi.Js

/-! Governed tools: the registry, the callers, the receipts of actions and the statements on
them. -/

namespace Ashbi.Tools

abbrev Id := String

inductive Role
  | admin | team | client | bot
  deriving DecidableEq

inductive ToolClass
  | read | draft | prepare | execute
  deriving DecidableEq

/-- `APPROVAL_CLASSES`. -/
def ToolClass.needsApproval : ToolClass → Bool
  | .prepare | .execute => true
  | _ => false

inductive Mode
  | transaction | external
  deriving DecidableEq

/-- A registered tool. Inputs are JSON texts, `safeParse` gives the normalized one. -/
structure Tool where
  name : String
  toolClass : ToolClass
  roles : List Role
  safeParse : String → Option String
  mode : Mode
  approverRoles : List Role
  requesterMayApprove : Bool

/-- The registry with `toolInputHash` and the limits of inputs. -/
structure Registry where
  get : String → Option Tool
  toolInputHash : String → String → String
  fits : String → String → Bool
  get_name : ∀ name tool, get name = some tool → tool.name = name

/-- `MCP_OAUTH_ACTION_SCOPES`. -/
def actionScope : String → Option String
  | "create_client_task" => some "workspace:client-tasks:write"
  | "publish_client_service_report_snapshot" => some "workspace:service-reports:publish"
  | "create_resource_link" | "update_resource_link" | "archive_resource_link"
  | "restore_resource_link" | "reorder_resource_links" => some "workspace:resource-links:write"
  | _ => none

structure Grant where
  keyId : Id
  sessionVersion : ℕ
  clientId : String
  scopes : List String
  deriving DecidableEq

/-- A caller of one organization. -/
structure Ctx where
  userId : Id
  role : Role
  oauth : Option Grant
  scopes : List String
  deriving DecidableEq

structure Binding where
  keyId : Id
  userId : Id
  sessionVersion : ℕ
  clientId : String
  requiredScope : String
  deriving DecidableEq

inductive Status
  | pending | executing | executed | failed | rejected | expired
  deriving DecidableEq

/-- `TERMINAL_STATUSES`. -/
def Status.terminal : Status → Bool
  | .executed | .failed | .rejected | .expired => true
  | _ => false

/-- The status in the texts of errors. -/
def Status.lower : Status → String
  | .pending => "pending_confirmation"
  | .executing => "executing"
  | .executed => "executed"
  | .failed => "failed"
  | .rejected => "rejected"
  | .expired => "expired"

inductive Source
  | aiBridge | assistant
  deriving DecidableEq

inductive Method
  | oauthConfirm | apiKeyConfirm | sessionStepUp | sessionConfirm
  deriving DecidableEq

inductive Outcome
  | succeeded | failed | unknown
  deriving DecidableEq

/-- What a decision leaves on its row; `at` is `confirmedAt` or `rejectedAt`. -/
structure Decision where
  decidedAt : Time
  approverId : Id
  method : Method
  approverRole : Role
  requesterApproved : Bool
  reauthenticated : Bool
  reason : Option String
  deriving DecidableEq

/-- What a row is created with and keeps. -/
structure Request where
  userId : Id
  action : String
  idempotencyKey : String
  input : String
  inputHash : String
  expiresAt : Time
  source : Source
  toolClass : ToolClass
  authorizationBinding : Option Binding
  deriving DecidableEq

/-- A row of `ai_bridge_actions`. -/
structure Action extends Request where
  id : Id
  status : Status
  decision : Option Decision
  executedAt : Option Time
  errorCode : Option String
  outcome : Option Outcome
  deriving DecidableEq

inductive Code
  | toolUnknown | inputTooLarge | invalidInput | roleDenied | aiDisabled | idempotencyKeyRequired
  | idempotencyConflict | recordNotFound | targetUnavailable | approverNotAllowed | notFound
  | actionUnavailable | actionExpired | executionFailed | toolTimeout | toolFailed
  deriving DecidableEq

structure ToolError where
  code : Code
  message : String
  statusCode : ℕ
  action : Option Action
  deriving DecidableEq

/-- What is thrown: an error of a tool, of the AI control, a timeout, the codes P2002 and P2025 of
the database, or anything else with its message. -/
inductive Failure
  | tool (error : ToolError)
  | control
  | timeout
  | uniqueViolation
  | noRecord
  | other (message : String)
  deriving DecidableEq

def toolError (code : Code) (message : String) (statusCode : ℕ) : Failure :=
  .tool ⟨code, message, statusCode, none⟩

def Failure.isTool : Failure → Bool
  | .tool _ => true
  | _ => false

def Failure.hasCode (failure : Failure) (code : Code) : Bool :=
  match failure with
  | .tool error => error.code = code
  | _ => false

def Failure.isTargetUnavailable : Failure → Bool
  | .tool error => error.code = .targetUnavailable || error.message = "ACTION_TARGET_UNAVAILABLE"
  | .other message => message = "ACTION_TARGET_UNAVAILABLE"
  | _ => false

def unavailable (message : String) : Failure := toolError .actionUnavailable message 409

def alreadyProcessed : Failure := unavailable "Action is already being processed"

open Checked

def receiptUnavailable : Failure := toolError .notFound "Workspace action unavailable" 404

/-- `none`: the action has no scope. -/
def oauthActionBinding (ctx : Ctx) (grant : Grant) (action : String) : Option Binding :=
  (actionScope action).map fun requiredScope =>
    ⟨grant.keyId, ctx.userId, grant.sessionVersion, grant.clientId, requiredScope⟩

/-- `assertMcpActionAuthority`; `live` is whether the stored key and user still carry the grant. -/
def assertMcpActionAuthority (ctx : Ctx) (action : String) (receipt : Option Action)
    (live : Bool) : Except Failure Unit :=
  match ctx.oauth with
  | none => refuse (receipt.any (·.authorizationBinding.isSome)) receiptUnavailable
  | some grant => do
    let binding ← found (oauthActionBinding ctx grant action) receiptUnavailable
    refuse (receipt.any fun row => row.authorizationBinding ≠ some binding ||
      row.userId ≠ ctx.userId || row.source ≠ .aiBridge) receiptUnavailable
    refuse (!ctx.scopes.contains binding.requiredScope ||
      !grant.scopes.contains binding.requiredScope || !live) receiptUnavailable

def approverAllowed (ctx : Ctx) (tool : Tool) (record : Request) : Bool :=
  if ctx.role ≠ .admin && ctx.role ≠ .team then false
  else if !tool.approverRoles.contains ctx.role then false
  else if record.userId = ctx.userId then tool.requesterMayApprove
  else ctx.role = .admin

/-- `ownerWhere`: whose rows the caller may act on, `none` for anyone's. -/
def ownerWhere (ctx : Ctx) (ownerOnly : Bool) : Option Id :=
  if ownerOnly || ctx.role ≠ .admin then some ctx.userId else none

/-- `IDEMPOTENCY_KEY_FORMAT`. -/
def idempotencyKeyFormat (key : String) : Bool :=
  8 ≤ key.length && key.length ≤ 128 &&
    key.toList.all fun c => c.isAlphanum || c = '.' || c = '_' || c = ':' || c = '-'

/-! ### Receipts -/

open Interleaving

/-- The rows of one organization, the committed effects of transactions and the calls of
`deliver`, each with whether it came back in time. -/
structure State where
  actions : List Action
  effects : List Id
  deliveries : List (Id × Bool)

def State.empty : State := ⟨[], [], []⟩

def State.action (s : State) (id : Id) : Option Action := s.actions.find? (·.id = id)

def State.put (s : State) (row : Action) : State :=
  { s with actions := s.actions.map fun action => if action.id = row.id then row else action }

/-- How a write fails by itself: not at all, before it commits, or only in the reply. -/
inductive Fault
  | none
  | before (failure : Failure)
  | after (failure : Failure)
  deriving DecidableEq

/-- What the environment answers: the id of a new row, the clock, whether a grant is still live,
what a hook or a check throws, and how a write fails. -/
structure Choice where
  newId : Id
  now : Time
  live : Bool
  thrown : Option Failure
  fault : Fault

/-- The hooks of a tool that write no receipt. -/
inductive Hook
  | resolveScope | preview | run | attemptedResult
  deriving DecidableEq

inductive Event
  | denied | prepared | approved | executed | failed | expired | rejected
  deriving DecidableEq

/-- An approver's claim of the action that was loaded as `initial`. -/
structure Claim where
  ctx : Ctx
  tool : Tool
  initial : Action
  scope : Option Id
  decision : Decision

/-- What `transition` writes. -/
inductive Write
  | expired
  | succeeded (executedAt : Time)
  | failed (errorCode : String) (outcome : Outcome) (decision : Decision)
  deriving DecidableEq

def Write.apply (row : Action) : Write → Action
  | .expired => { row with status := .expired }
  | .succeeded executedAt =>
    { row with status := .executed, executedAt := some executedAt, outcome := some .succeeded }
  | .failed errorCode outcome decision =>
    { row with
      status := .failed
      errorCode := some errorCode
      outcome := some outcome
      decision := some decision }

structure Call where
  tool : String
  input : String
  idempotencyKey : Option String
  source : Source

/-- What `invoke` answers; outputs of read tools are not modelled. -/
inductive Invoked
  | result (tool : String) (toolClass : ToolClass)
  | pending (action : Action) (idempotent : Bool)

/-- The statements; `execute`, `claimTarget`, `create` and `reject` are transactions. -/
inductive Stmt : Type → Type
  | now : Stmt Time
  | assertAiAllowed : Stmt (Except Failure Unit)
  | authority (ctx : Ctx) (action : String) (receipt : Option Action) : Stmt (Except Failure Unit)
  | hook (hook : Hook) : Stmt (Except Failure Unit)
  | emit (event : Event) : Stmt (Except Failure Unit)
  | findKey (userId : Id) (idempotencyKey : String) : Stmt (Except Failure (Option Action))
  | find (id : Id) (scope : Option Id) : Stmt (Except Failure (Option Action))
  | create (ctx : Ctx) (request : Request) : Stmt (Except Failure Action)
  | update (id : Id) (expected : Status) (write : Write) : Stmt (Except Failure Action)
  | execute (claim : Claim) : Stmt (Except Failure Action)
  | claimTarget (claim : Claim) : Stmt (Except Failure Unit)
  | deliver (id : Id) : Stmt (Except Failure Unit)
  | reject (ctx : Ctx) (initial : Action) (scope : Option Id) (decision : Decision) :
      Stmt (Except Failure ℕ)
  | answer (ctx : Ctx) (call : Call) (result : Except Failure Invoked) : Stmt Unit

/-- A row that a new action starts with. -/
def Request.toAction (request : Request) (id : Id) : Action :=
  { request with
    id := id
    status := .pending
    decision := none
    executedAt := none
    errorCode := none
    outcome := none }

def createAction (s : State) (ctx : Ctx) (request : Request) (ch : Choice) :
    Except Failure (Action × State) := do
  assertMcpActionAuthority ctx request.action none ch.live
  refuse ((s.action ch.newId).isSome || s.actions.any fun row =>
    row.userId = request.userId && row.idempotencyKey = request.idempotencyKey) .uniqueViolation
  let row := request.toAction ch.newId
  pure (row, { s with actions := s.actions ++ [row] })

def updateAction (s : State) (id : Id) (expected : Status) (write : Write) :
    Except Failure (Action × State) := do
  let row ← found ((s.action id).filter (·.status = expected)) .noRecord
  pure (write.apply row, s.put (write.apply row))

/-- The row that a decision of the scope matches while it is pending. -/
def State.pendingIn (s : State) (id : Id) (scope : Option Id) : Option Action :=
  (s.action id).filter fun row => scope.all (· = row.userId) && row.status = .pending

/-- `claim` inside a transaction: only a pending row that has not expired, once. -/
def Claim.claim (claim : Claim) (s : State) (ch : Choice) : Except Failure Action := do
  assertMcpActionAuthority claim.ctx claim.initial.action (some claim.initial) ch.live
  found ((s.pendingIn claim.initial.id claim.scope).filter (claim.decision.decidedAt < ·.expiresAt))
    alreadyProcessed

def Claim.parseStored (claim : Claim) : Except Failure String :=
  found (claim.tool.safeParse claim.initial.input)
    (toolError .targetUnavailable "Action target is unavailable" 409)

/-- What a hook inside a transaction throws. -/
def thrown (ch : Choice) : Except Failure Unit :=
  match ch.thrown with
  | none => .ok ()
  | some failure => .error failure

/-- The receipt of an execution that succeeded in the transaction of its claim. -/
def Claim.receipt (claim : Claim) (row : Action) (executedAt : Time) : Action :=
  (Write.succeeded executedAt).apply { row with decision := some claim.decision }

/-- The claim, the effect and the receipt of a transaction tool. -/
def Claim.execute (claim : Claim) (s : State) (ch : Choice) : Except Failure (Action × State) := do
  let row ← claim.claim s ch
  let _ ← claim.parseStored
  thrown ch
  let executed := claim.receipt row ch.now
  pure (executed, { s.put executed with effects := s.effects ++ [row.id] })

/-- The claim of an external tool. -/
def Claim.claimTarget (claim : Claim) (s : State) (ch : Choice) :
    Except Failure (Unit × State) := do
  let row ← claim.claim s ch
  let _ ← claim.parseStored
  thrown ch
  pure ((), s.put { row with status := .executing, decision := some claim.decision })

def rejectAction (s : State) (ctx : Ctx) (initial : Action) (scope : Option Id)
    (decision : Decision) (ch : Choice) : Except Failure (ℕ × State) := do
  assertMcpActionAuthority ctx initial.action (some initial) ch.live
  match s.pendingIn initial.id scope with
  | none => pure (0, s)
  | some row => pure (1, s.put { row with status := .rejected, decision := some decision })

/-- A body that throws is rolled back; a write may also fail by itself. -/
def commit {β : Type} (fault : Fault) (body : Except Failure (β × State)) (s : State) :
    Except Failure β × State :=
  match body, fault with
  | .error failure, _ => (.error failure, s)
  | .ok (b, s'), .none => (.ok b, s')
  | .ok _, .before failure => (.error failure, s)
  | .ok (_, s'), .after failure => (.error failure, s')

def exec {β : Type} (st : Stmt β) (ch : Choice) (s : State) : β × State :=
  match st with
  | .now => (ch.now, s)
  | .assertAiAllowed => (thrown ch, s)
  | .authority ctx action receipt => (assertMcpActionAuthority ctx action receipt ch.live, s)
  | .hook _ => (thrown ch, s)
  | .emit _ => (thrown ch, s)
  | .findKey userId idempotencyKey =>
    ((thrown ch).map fun _ => s.actions.find? fun row =>
      row.userId = userId && row.idempotencyKey = idempotencyKey, s)
  | .find id scope =>
    ((thrown ch).map fun _ => (s.action id).filter fun row => scope.all (· = row.userId), s)
  | .create ctx request => commit ch.fault (createAction s ctx request ch) s
  | .update id expected write => commit ch.fault (updateAction s id expected write) s
  | .execute claim => commit ch.fault (claim.execute s ch) s
  | .claimTarget claim => commit ch.fault (claim.claimTarget s ch) s
  | .deliver id =>
    (thrown ch, { s with deliveries := s.deliveries ++ [(id, ch.thrown.isNone)] })
  | .reject ctx initial scope decision =>
    commit ch.fault (rejectAction s ctx initial scope decision ch) s
  | .answer _ _ _ => ((), s)

abbrev machine : Machine where
  Stmt := Stmt
  Choice := Choice
  State := State
  enabled := fun _ _ _ => true
  exec := fun _ => exec

end Ashbi.Tools

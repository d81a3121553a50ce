import Ashbi.Interleaving.Throws
import Ashbi.Tools.Receipts

/-! The executor: calls are prepared, approved and rejected. -/

namespace Ashbi.Tools

open Interleaving

abbrev Exec (α : Type) : Type 1 := Throws Stmt Failure α

variable {α : Type}

def deny (failure : Failure) : Exec α := do
  Throws.stmt (.emit .denied)
  throw failure

def denyIf (wrong : Bool) (failure : Failure) : Exec Unit :=
  if wrong then deny failure else pure ()

def throwIf (wrong : Bool) (failure : Failure) : Exec Unit :=
  if wrong then throw failure else pure ()

/-- An error of a tool is recorded as a denial, any other is thrown as it is. -/
def denyToolError (failure : Failure) : Exec α :=
  if failure.isTool then deny failure else throw failure

def assertAiAllowed : Exec Unit :=
  tryCatch (Throws.stmt .assertAiAllowed) deny

def guarded (hook : Hook) : Exec Unit :=
  tryCatch (Throws.stmt (.hook hook)) denyToolError

/-! ### Calls -/

/-- `approvalTtlMs`. -/
def approvalTtlMs : Time := 600000

def idempotencyConflict : Failure :=
  toolError .idempotencyConflict "Idempotency key was already used for another action" 409

/-- Two concurrent calls with one key: the loser answers like a replay. -/
def answerWinner (ctx : Ctx) (tool : Tool) (key hash : String) : Exec Invoked := do
  match ← Throws.stmt (.findKey ctx.userId key) with
  | none => deny idempotencyConflict
  | some winner =>
    if winner.action ≠ tool.name || winner.inputHash ≠ hash then deny idempotencyConflict
    else do
      Throws.stmt (.authority ctx winner.action (some winner))
      pure (.pending winner true)

def prepare (ctx : Ctx) (tool : Tool) (input key hash : String) (source : Source) :
    Exec Invoked := do
  guarded .resolveScope
  guarded .preview
  let preparedAt ← Throws.read .now
  let request : Request := {
    userId := ctx.userId
    action := tool.name
    idempotencyKey := key
    input := input
    inputHash := hash
    expiresAt := preparedAt + approvalTtlMs
    source := source
    toolClass := tool.toolClass
    authorizationBinding := ctx.oauth.bind fun grant => oauthActionBinding ctx grant tool.name }
  match ← Throws.read (.create ctx request) with
  | .ok record =>
    Throws.stmt (.emit .prepared)
    pure (.pending record false)
  | .error .uniqueViolation => answerWinner ctx tool key hash
  | .error failure => throw failure

/-- A call that needs an approval: a replay answers with the stored action. -/
def invokeAction (reg : Registry) (ctx : Ctx) (tool : Tool) (input : String) (call : Call) :
    Exec Invoked :=
  match call.idempotencyKey.filter idempotencyKeyFormat with
  | none => deny (toolError .idempotencyKeyRequired "A valid idempotency key is required" 400)
  | some key => do
    let hash := reg.toolInputHash tool.name input
    match ← Throws.stmt (.findKey ctx.userId key) with
    | none => prepare ctx tool input key hash call.source
    | some existing =>
      Throws.stmt (.authority ctx existing.action (some existing))
      if existing.action ≠ tool.name || existing.inputHash ≠ hash then deny idempotencyConflict
      else pure (.pending existing true)

/-- The authority to ask for an action; without a grant this check passes. -/
def authorityFor (ctx : Ctx) (tool : Tool) : Exec Unit :=
  if tool.toolClass.needsApproval then Throws.stmt (.authority ctx tool.name none) else pure ()

/-- A read or draft tool. -/
def runTool (tool : Tool) : Exec Invoked := do
  guarded .resolveScope
  match ← Throws.read (.hook .run) with
  | .ok () => pure (.result tool.name tool.toolClass)
  | .error failure =>
    if failure.isTool then deny failure
    else throw (toolError (if failure = .timeout then .toolTimeout else .toolFailed)
      "The tool could not complete" 502)

def invoke (reg : Registry) (ctx : Ctx) (call : Call) : Exec Invoked :=
  match reg.get call.tool with
  | none => deny (toolError .toolUnknown "Unknown tool" 400)
  | some tool =>
    if !reg.fits tool.name call.input then
      deny (toolError .inputTooLarge "Tool input is too large" 400)
    else
      match tool.safeParse call.input with
      | none => deny (toolError .invalidInput s!"Invalid {tool.name} input" 400)
      | some input => do
        authorityFor ctx tool
        denyIf (!tool.roles.contains ctx.role)
          (toolError .roleDenied "Your role cannot use this tool" 403)
        assertAiAllowed
        if tool.toolClass.needsApproval then invokeAction reg ctx tool input call
        else runTool tool

/-! ### Approvals -/

def load (ctx : Ctx) (id : Id) (scope : Option Id) : Exec Action := do
  match ← Throws.stmt (.find id scope) with
  | none => throw (toolError .notFound "Action not found" 404)
  | some record =>
    Throws.stmt (.authority ctx record.action (some record))
    pure record

/-- A writer that got there first is answered as unavailable. -/
def transition (id : Id) (expected : Status) (write : Write) : Exec Action := do
  match ← Throws.read (.update id expected write) with
  | .ok action => pure action
  | .error .noRecord => throw alreadyProcessed
  | .error failure => throw failure

/-- How far an approval came before it failed. -/
structure Progress where
  claimCommitted : Bool
  attempted : Bool
  approvedEmitted : Bool

structure Approved where
  action : Action
  idempotent : Bool

def Failure.action : Failure → Option Action
  | .tool error => error.action
  | _ => none

def Failure.withAction (action : Option Action) : Failure → Failure
  | .tool error => .tool { error with action := action }
  | failure => failure

/-- An unavailable action is reported with what it has become. -/
def throwUnavailable (claim : Claim) (failure : Failure) : Exec Approved :=
  match failure.action with
  | some _ => throw failure
  | none => do
    let action ← Throws.stmt (.find claim.initial.id claim.scope)
    throw (failure.withAction action)

def approvedEvent (emitted : Bool) : Exec Unit :=
  if emitted then pure () else Throws.stmt (.emit .approved)

/-- The `catch` of an approval. -/
def approvalFailed (claim : Claim) (progress : Progress) (failure : Failure) : Exec Approved :=
  if claim.ctx.oauth.isSome && failure.hasCode .notFound then throw failure
  else if failure.hasCode .actionUnavailable then throwUnavailable claim failure
  else do
    let targetGone := failure.isTargetUnavailable
    let errorCode :=
      if targetGone then "ACTION_TARGET_UNAVAILABLE"
      else if failure = .timeout then "ACTION_TIMEOUT"
      else "ACTION_EXECUTION_FAILED"
    let outcome : Outcome := if progress.attempted && !targetGone then .unknown else .failed
    approvedEvent progress.approvedEmitted
    let failed ← transition claim.initial.id
      (if progress.claimCommitted then .executing else .pending)
      (.failed errorCode outcome claim.decision)
    Throws.stmt (.emit .failed)
    throw (.tool ⟨.executionFailed,
      if targetGone then "Action target is unavailable" else "Action execution failed",
      if targetGone then 409 else 502, some failed⟩)

def approvalDone (completed : Action) : Exec Approved := do
  Throws.stmt (.emit .executed)
  pure ⟨completed, false⟩

/-- A transaction tool commits its claim, its effect and its receipt together. -/
def executeTransaction (claim : Claim) : Exec Approved := do
  match ← Throws.read (.execute claim) with
  | .error failure => approvalFailed claim ⟨false, false, false⟩ failure
  | .ok completed =>
    match ← Throws.read (.emit .approved) with
    | .error failure => approvalFailed claim ⟨true, false, true⟩ failure
    | .ok () => approvalDone completed

/-- An external tool is claimed, delivered and completed in separate writes. -/
def executeExternal (claim : Claim) : Exec Approved := do
  match ← Throws.read (.claimTarget claim) with
  | .error failure => approvalFailed claim ⟨false, false, false⟩ failure
  | .ok () =>
    match ← Throws.read (.emit .approved) with
    | .error failure => approvalFailed claim ⟨true, false, true⟩ failure
    | .ok () =>
      match ← Throws.read (.hook .attemptedResult) with
      | .error failure => approvalFailed claim ⟨true, false, true⟩ failure
      | .ok () =>
        match ← Throws.read (.deliver claim.initial.id) with
        | .error failure => approvalFailed claim ⟨true, true, true⟩ failure
        | .ok () =>
          let executedAt ← Throws.read .now
          match ← Throws.caught
              (transition claim.initial.id .executing (.succeeded executedAt)) with
          | .error failure => approvalFailed claim ⟨true, true, true⟩ failure
          | .ok action => approvalDone action

structure Approval where
  method : Method
  reauthenticated : Bool
  ownerOnly : Bool

/-- A grant always confirms its own actions only. -/
def Approval.under (approval : Approval) (ctx : Ctx) : Approval :=
  if ctx.oauth.isSome then ⟨.oauthConfirm, false, true⟩ else approval

def decisionOf (ctx : Ctx) (approval : Approval) (initial : Action) (decidedAt : Time)
    (reason : Option String) : Decision where
  decidedAt := decidedAt
  approverId := ctx.userId
  method := approval.method
  approverRole := ctx.role
  requesterApproved := ctx.userId = initial.userId
  reauthenticated := approval.reauthenticated
  reason := reason

def approverNotAllowed (message : String) : Failure := toolError .approverNotAllowed message 403

def expire (initial : Action) : Exec Approved := do
  let expired ← transition initial.id .pending .expired
  Throws.stmt (.emit .expired)
  throw (.tool ⟨.actionExpired, "Action confirmation expired", 409, some expired⟩)

/-- An approval of a pending action that was loaded. -/
def approvePending (ctx : Ctx) (approval : Approval) (tool : Tool) (initial : Action) :
    Exec Approved := do
  let scope := ownerWhere ctx approval.ownerOnly
  denyIf (initial.source = .assistant && approval.method ≠ .sessionStepUp)
    (approverNotAllowed "Approve this action in Ashbi")
  denyIf (!approverAllowed ctx tool initial.toRequest)
    (approverNotAllowed "Another authorised user must approve this action")
  assertAiAllowed
  let checkedAt ← Throws.read .now
  if initial.expiresAt ≤ checkedAt then expire initial
  else do
    let approvedAt ← Throws.read .now
    let claim : Claim := ⟨ctx, tool, initial, scope,
      decisionOf ctx approval initial approvedAt none⟩
    match tool.mode with
    | .transaction => executeTransaction claim
    | .external => executeExternal claim

def approve (reg : Registry) (ctx : Ctx) (id : Id) (asked : Approval) : Exec Approved := do
  let approval := asked.under ctx
  let initial ← load ctx id (ownerWhere ctx approval.ownerOnly)
  if initial.status = .executed then pure ⟨initial, true⟩
  else if initial.status ≠ .pending then throw (unavailable s!"Action is {initial.status.lower}")
  else
    match (reg.get initial.action).filter (·.toolClass.needsApproval) with
    | none => throw (unavailable "This action is no longer available")
    | some tool => approvePending ctx approval tool initial

/-! ### Rejections -/

/-- `REJECTION_REASONS`. -/
def rejectionReasons : List String := ["not_needed", "incorrect", "unsafe", "other"]

def reject (ctx : Ctx) (id : Id) (asked : Approval) (reason : String) : Exec Action := do
  let approval := asked.under ctx
  let scope := ownerWhere ctx approval.ownerOnly
  let initial ← load ctx id scope
  throwIf (initial.status ≠ .pending) (unavailable s!"Action is {initial.status.lower}")
  let rejectedAt ← Throws.read .now
  let safeReason := if rejectionReasons.contains reason then reason else "other"
  let count ← Throws.stmt (.reject ctx initial scope
    (decisionOf ctx approval initial rejectedAt (some safeReason)))
  throwIf (count ≠ 1) alreadyProcessed
  Throws.stmt (.emit .rejected)
  load ctx id scope

/-- Calls, approvals and rejections by any users, at any time. -/
inductive Deployed (reg : Registry) : Prog Stmt Unit → Prop
  | invoke (ctx) (call) :
      Deployed reg ((invoke reg ctx call).run.bind fun result => .stmt (.answer ctx call result))
  | approve (ctx) (id) (approval) :
      Deployed reg ((approve reg ctx id approval).run.bind fun _ => .ret ())
  | reject (ctx) (id) (approval) (reason) :
      Deployed reg ((reject ctx id approval reason).run.bind fun _ => .ret ())

end Ashbi.Tools

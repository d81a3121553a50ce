import Ashbi.Outbox.Statements

/-! The programs that use the outbox: producers, dispatchers and admin requests. -/

namespace Ashbi.Outbox

open Interleaving

/-! ### `recordDomainEvent` -/

structure RecordInput where
  type : String
  aggregateId : String
  payload : String
  idempotencyKey : String
  organizationId : Option String
  correlationId : Option String
  causationId : Option String
  occurredAt : Option Time
  /-- `getRequestOrganizationId()` and `getRequestId()` of the caller. -/
  contextOrganizationId : Option String
  requestId : Option String

inductive RecordError
  | unknownType | invalidPayload | organizationRequired | organizationMismatch
  | aggregateIdRequired | idempotencyKeyRequired
  | idempotencyConflict | sequenceTaken

/-- What `recordDomainEvent` has checked before it touches the database. -/
structure CheckedInput where
  spec : DomainEventSpec
  key : AggregateKey

/-- The catalog's payload schemas are a parameter: `validPayload type payload`. -/
def checkInput (validPayload : String → String → Bool) (input : RecordInput) :
    Except RecordError CheckedInput := do
  let some spec := getDomainEventSpec input.type | throw .unknownType
  unless validPayload input.type input.payload do throw .invalidPayload
  let some organizationId := input.organizationId.or input.contextOrganizationId
    | throw .organizationRequired
  unless requiredId organizationId maxIdLength do throw .organizationRequired
  if input.contextOrganizationId.any (fun c => c ≠ "" && c ≠ organizationId) then
    throw .organizationMismatch
  unless requiredId input.aggregateId maxIdLength do throw .aggregateIdRequired
  unless requiredId input.idempotencyKey maxIdempotencyKeyLength do throw .idempotencyKeyRequired
  return ⟨spec, ⟨organizationId, spec.aggregateType, input.aggregateId⟩⟩

/-- The stored event of the same idempotency key describes the same fact. -/
def sameFact (existing : DomainEvent) (input : RecordInput) (checked : CheckedInput) : Bool :=
  existing.type = input.type && existing.aggregateType = checked.key.aggregateType
    && existing.aggregateId = checked.key.aggregateId
    && existing.schemaVersion = checked.spec.currentVersion && existing.payload = input.payload

def correlation (input : RecordInput) : Prog Stmt String :=
  match (traceIdOrNull input.correlationId).or (traceIdOrNull input.requestId) with
  | some id => pure id
  | none => .stmt .randomUUID

def occurrence (input : RecordInput) : Prog Stmt Time :=
  match input.occurredAt with
  | some t => pure t
  | none => .stmt .now

/-- The insert at `MAX(sequence) + 1`; its unique violations are thrown. -/
def insertEvent (input : RecordInput) (checked : CheckedInput) (correlationId : String)
    (occurredAt : Time) : Prog Stmt (Except RecordError (DomainEvent × Bool)) := do
  let last ← .stmt (.maxSequence checked.key)
  match ← .stmt (.createEvent {
      type := input.type, schemaVersion := checked.spec.currentVersion, key := checked.key
      sequence := last.getD 0 + 1, payload := input.payload, correlationId
      causationId := traceIdOrNull input.causationId
      idempotencyKey := input.idempotencyKey, occurredAt }) with
  | .ok event => pure (.ok (event, false))
  | .error .idempotencyKey => pure (.error .idempotencyConflict)
  | .error .sequence => pure (.error .sequenceTaken)

/-- The statements of `recordDomainEvent` once its input is checked. -/
def appendEvent (input : RecordInput) (checked : CheckedInput) :
    Prog Stmt (Except RecordError (DomainEvent × Bool)) := do
  let correlationId ← correlation input
  let occurredAt ← occurrence input
  .stmt (.advisoryLock checked.key)
  match ← .stmt (.findByIdempotencyKey checked.key.organizationId input.idempotencyKey) with
  | some existing =>
    if sameFact existing input checked then pure (.ok (existing, true))
    else pure (.error .idempotencyConflict)
  | none => insertEvent input checked correlationId occurredAt

def recordDomainEvent (validPayload : String → String → Bool) (input : RecordInput) :
    Prog Stmt (Except RecordError (DomainEvent × Bool)) :=
  match checkInput validPayload input with
  | .error e => pure (.error e)
  | .ok checked => appendEvent input checked

/-- A business transaction that records events and then commits or rolls back;
an error of `recordDomainEvent` always fails it. -/
def producer (validPayload : String → String → Bool) (commits : Bool) :
    List RecordInput → Prog Stmt Unit
  | [] => .stmt (.endTransaction commits)
  | input :: rest => do
    match ← recordDomainEvent validPayload input with
    | .ok _ => producer validPayload commits rest
    | .error _ => .stmt (.endTransaction false)

/-! ### `dispatchDomainEvents` -/

structure Summary where
  claimed : ℕ := 0
  published : ℕ := 0
  retried : ℕ := 0
  dead : ℕ := 0
  leaseLost : ℕ := 0
  abandoned : ℕ := 0

/-- `describeDispatchError` of the error that `withSubscriberTimeout` rejects with. -/
def timeoutError (timeoutMs : ℤ) : String :=
  "DomainEventSubscriberTimeoutError [SUBSCRIBER_TIMEOUT]: Subscribers did not finish within "
    ++ toString timeoutMs ++ "ms"

/-- The subscribers of one event in order; the result is the failure, if any.
When the time is up the rest of the chain goes on without the dispatcher. -/
def runTargets (timeoutMs : ℤ) (event : DomainEvent) : List Subscriber → Prog Stmt (Option String)
  | [] => pure none
  | subscriber :: rest => do
    match ← .stmt (.handle subscriber event) with
    | .returned => runTargets timeoutMs event rest
    | .threw lastError => pure (some lastError)
    | .timedOut =>
      .fork
        (.call (.awaitHandler subscriber event) fun
          | .returned => (runTargets timeoutMs event rest).bind fun _ => .ret ()
          | .threw _ | .timedOut => .ret ())
        (.ret (some (timeoutError timeoutMs)))

/-- `runInTenant` under `withSubscriberTimeout`. -/
def runInTenant (timeoutMs : ℤ) (event : DomainEvent) (targets : List Subscriber) :
    Prog Stmt (Option String) := do
  match ← .stmt (.findOrganization event.organizationId) with
  | .returned => runTargets timeoutMs event targets
  | .threw lastError => pure (some lastError)
  | .timedOut =>
    .fork
      (.call (.findOrganization event.organizationId) fun
        | .returned => (runTargets timeoutMs event targets).bind fun _ => .ret ()
        | .threw _ | .timedOut => .ret ())
      (.ret (some (timeoutError timeoutMs)))

/-- One claimed event: renew the lease, deliver, settle. -/
def deliver (registry : List Subscriber) (options : DispatchOptions) (summary : Summary)
    (event : DomainEvent) : Prog Stmt Summary := do
  let now ← .stmt .now
  if ← .stmt (.renewLease event.id event.claimToken (now + options.leaseMs)) then
    let failure ← runInTenant options.subscriberTimeoutMs event
      (subscribersFor event.type registry)
    let settledAt ← .stmt .now
    match failure with
    | none =>
      if ← .stmt (.settle event.id event.claimToken (.published settledAt)) then
        pure { summary with published := summary.published + 1 }
      else pure { summary with leaseLost := summary.leaseLost + 1 }
    | some lastError =>
      if options.maxAttempts ≤ event.attempts then
        if ← .stmt (.settle event.id event.claimToken (.dead lastError)) then
          pure { summary with dead := summary.dead + 1 }
        else pure { summary with leaseLost := summary.leaseLost + 1 }
      else
        let random ← .stmt .random
        let delay := computeBackoffMs event.attempts options.baseDelayMs options.maxDelayMs random
        if ← .stmt (.settle event.id event.claimToken (.retry (settledAt + delay) lastError)) then
          pure { summary with retried := summary.retried + 1 }
        else pure { summary with leaseLost := summary.leaseLost + 1 }
  else pure { summary with leaseLost := summary.leaseLost + 1 }

/-- The rounds of a run: claim and deliver until nothing is due. -/
def rounds (registry : List Subscriber) (options : DispatchOptions) :
    ℕ → Summary → Prog Stmt Summary
  | 0, summary => pure summary
  | n + 1, summary => do
    let now ← .stmt .now
    let claimed ← .stmt
      (.claimDomainEvents now options.batchSize options.leaseMs options.maxAttempts)
    if claimed.isEmpty then pure summary
    else
      let summary ← claimed.foldlM (deliver registry options)
        { summary with claimed := summary.claimed + claimed.length }
      rounds registry options n summary

/-- `none` is the error thrown for a bad timeout. -/
def dispatchDomainEvents (registry : List Subscriber) (options : DispatchOptions) :
    Prog Stmt (Option Summary) := do
  if 0 < options.subscriberTimeoutMs ∧ options.subscriberTimeoutMs < options.leaseMs then
    let now ← .stmt .now
    let abandoned ← .stmt (.deadLetterAbandonedClaims now options.maxAttempts)
    let summary ← rounds registry options options.maxRounds { abandoned }
    pure (some summary)
  else pure none

/-! ### Admin requests -/

inductive SkipReason
  | notFound | notDead | replayLimit | changed

structure AdminResult where
  done : List DomainEvent := []
  skipped : List (ℕ × SkipReason) := []

def AdminResult.skip (r : AdminResult) (id : ℕ) (reason : SkipReason) : AdminResult :=
  { r with skipped := r.skipped ++ [(id, reason)] }

def replayOne (organizationId : String) (found : List DomainEvent) (now : Time) (maxReplays : ℕ)
    (result : AdminResult) (id : ℕ) : Prog Stmt AdminResult := do
  match found.find? (·.id = id) with
  | none => pure (result.skip id .notFound)
  | some event =>
    if event.status ≠ .dead then pure (result.skip id .notDead)
    else if maxReplays ≤ event.replayCount then pure (result.skip id .replayLimit)
    else
      let count ← .stmt (.requeue organizationId id event.replayCount now)
      if count = 1 then
        pure { result with done := result.done ++ [{ event with
          status := .pending, attempts := 0, replayCount := event.replayCount + 1 }] }
      else pure (result.skip id .changed)

/-- `none` is the error thrown for an empty or oversized batch. -/
def replayDeadDomainEvents (organizationId : String) (eventIds : List ℕ) (now : Time)
    (maxReplays : ℕ) : Prog Stmt (Option AdminResult) := do
  let ids := eventIds.eraseDups
  if ids.length = 0 ∨ maxReplayBatch < ids.length then pure none
  else
    let found ← .stmt (.findEvents organizationId ids)
    let result ← ids.foldlM (replayOne organizationId found now maxReplays) {}
    pure (some result)

def discardOne (organizationId : String) (found : List DomainEvent) (now : Time)
    (result : AdminResult) (id : ℕ) : Prog Stmt AdminResult := do
  match found.find? (·.id = id) with
  | none => pure (result.skip id .notFound)
  | some event =>
    if event.status ≠ .dead then pure (result.skip id .notDead)
    else
      let count ← .stmt (.discard organizationId id event.replayCount now)
      if count = 1 then
        pure { result with done := result.done ++ [{ event with status := .discarded }] }
      else pure (result.skip id .changed)

def discardDeadDomainEvents (organizationId : String) (eventIds : List ℕ) (now : Time) :
    Prog Stmt (Option AdminResult) := do
  let ids := eventIds.eraseDups
  if ids.length = 0 ∨ maxReplayBatch < ids.length then pure none
  else
    let found ← .stmt (.findEvents organizationId ids)
    let result ← ids.foldlM (discardOne organizationId found now) {}
    pure (some result)

/-- What a deployment runs: any number of each, with any inputs. `attempts` and
`replays` say which limits its dispatchers and admin requests are called with. -/
inductive Deployed (registry : List Subscriber) (attempts replays : ℕ → Prop) :
    Prog Stmt Unit → Prop
  | producer (validPayload commits inputs) :
      Deployed registry attempts replays (producer validPayload commits inputs)
  | dispatch (options : DispatchOptions) (h : attempts options.maxAttempts) :
      Deployed registry attempts replays
        ((dispatchDomainEvents registry options).bind fun _ => .ret ())
  | replay (organizationId eventIds now maxReplays) (h : replays maxReplays) :
      Deployed registry attempts replays
        ((replayDeadDomainEvents organizationId eventIds now maxReplays).bind fun _ => .ret ())
  | discard (organizationId eventIds now) :
      Deployed registry attempts replays
        ((discardDeadDomainEvents organizationId eventIds now).bind fun _ => .ret ())

end Ashbi.Outbox

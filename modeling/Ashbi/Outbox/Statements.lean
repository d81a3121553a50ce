import Mathlib.Algebra.Order.Floor.Ring
import Mathlib.Algebra.Order.Round
import Mathlib.Data.List.Sort
import Mathlib.Data.Rat.Floor
import Ashbi.Interleaving.Program
import Ashbi.Js

/-! Rows of the `domain_events` table, the pure functions of the outbox, and its database
statements, each one atomic step. -/

namespace Ashbi.Outbox

inductive Status
  | pending | dispatching | published | dead | discarded
  deriving DecidableEq, Repr

/-- `SETTLED_STATUSES`: no longer blocks the later events of its aggregate. -/
def Status.settled : Status → Bool
  | .published | .discarded => true
  | .pending | .dispatching | .dead => false

structure AggregateKey where
  organizationId : String
  aggregateType : String
  aggregateId : String
  deriving DecidableEq, Repr

/-- The columns that the trigger `deny_domain_event_envelope_change` freezes. -/
structure Envelope where
  id : ℕ
  organizationId : String
  type : String
  schemaVersion : ℕ
  aggregateType : String
  aggregateId : String
  sequence : ℕ
  payload : String
  correlationId : String
  causationId : Option String
  idempotencyKey : String
  occurredAt : Time
  deriving DecidableEq, Repr

def Envelope.key (e : Envelope) : AggregateKey := ⟨e.organizationId, e.aggregateType, e.aggregateId⟩

/-- A row of `domain_events`: the envelope and the dispatch bookkeeping. -/
structure DomainEvent extends Envelope where
  status : Status
  attempts : ℕ
  nextAttemptAt : Time
  lastAttemptAt : Option Time
  lockedUntil : Option Time
  claimToken : Option ℕ
  publishedAt : Option Time
  discardedAt : Option Time
  lastError : Option String
  replayCount : ℕ
  deriving DecidableEq, Repr

abbrev DomainEvent.key (e : DomainEvent) : AggregateKey := e.toEnvelope.key

/-- Column defaults of a newly inserted row. -/
def DomainEvent.ofEnvelope (e : Envelope) (now : Time) : DomainEvent :=
  { e with
    status := .pending, attempts := 0, nextAttemptAt := now, lastAttemptAt := none
    lockedUntil := none, claimToken := none, publishedAt := none, discardedAt := none
    lastError := none, replayCount := 0 }

/-! ### Catalog and input checks of `recordDomainEvent` -/

structure DomainEventSpec where
  aggregateType : String
  currentVersion : ℕ

/-- `DOMAIN_EVENT_CATALOG`. -/
def getDomainEventSpec (type : String) : Option DomainEventSpec :=
  if type = "client_agent.run_requested" then some ⟨"client_agent_run", 1⟩
  else if type = "invoice.paid" then some ⟨"invoice", 1⟩
  else if type = "proposal.approved" then some ⟨"proposal", 1⟩
  else if type = "contract.signed" then some ⟨"contract", 1⟩
  else none

def maxIdLength : ℕ := 191

def maxIdempotencyKeyLength : ℕ := 255

/-- `requiredId`. -/
def requiredId (value : String) (max : ℕ) : Bool := value ≠ "" && Js.length value ≤ max

/-- `TRACE_ID_FORMAT`. -/
def traceIdChar (c : Char) : Bool :=
  c.isAlphanum || c = '_' || c = ':' || c = '.' || c = '@' || c = '/' || c = '+' || c = '-'

/-- `traceIdOrNull`: a diagnostic id out of shape is dropped, never refused. -/
def traceIdOrNull (value : Option String) : Option String :=
  value.filter fun text => text ≠ "" && Js.length text ≤ maxIdLength && text.toList.all traceIdChar

/-! ### Dispatch options and backoff -/

structure Subscriber where
  name : String
  /-- `none` is the wildcard `'*'`. -/
  types : Option (List String)
  deriving DecidableEq

def subscribersFor (type : String) (registry : List Subscriber) : List Subscriber :=
  registry.filter fun s => match s.types with
    | none => true
    | some types => types.contains type

structure DispatchOptions where
  batchSize : ℕ := 25
  maxRounds : ℕ := 10
  leaseMs : ℤ := 2 * 60 * 1000
  subscriberTimeoutMs : ℤ := 60 * 1000
  maxAttempts : ℕ := 10
  baseDelayMs : ℚ := 10 * 1000
  maxDelayMs : ℚ := 60 * 60 * 1000

def maxReplayBatch : ℕ := 50

/-- `computeBackoffMs`: exponential, capped, with equal jitter. -/
def computeBackoffMs (attempts : ℕ) (baseDelayMs maxDelayMs random : ℚ) : ℤ :=
  let exponent := min (max 0 (attempts - 1)) 30
  let ceiling := min maxDelayMs (baseDelayMs * 2 ^ exponent)
  let jitter := min (max random 0) 1
  round (ceiling / 2 + ceiling / 2 * jitter)

/-! ### Statements -/

/-- What a subscriber's handler, or the tenant lookup before it, came back with.
`timedOut` is `withSubscriberTimeout` giving up while the work still runs. -/
inductive Outcome
  | returned
  | threw (lastError : String)
  | timedOut

/-- The data of the three `settle` writes. -/
inductive Settlement
  | published (publishedAt : Time)
  | retry (nextAttemptAt : Time) (lastError : String)
  | dead (lastError : String)

/-- The unique indexes of the table. -/
inductive UniqueIndex
  | idempotencyKey | sequence
  deriving DecidableEq

/-- The column values of `domainEvent.create`; the id comes from the default. -/
structure NewEvent where
  type : String
  schemaVersion : ℕ
  key : AggregateKey
  sequence : ℕ
  payload : String
  correlationId : String
  causationId : Option String
  idempotencyKey : String
  occurredAt : Time

/-- A row returned by `claimDomainEvents`. -/
structure Claim where
  event : DomainEvent
  token : ℕ

structure Handling where
  eventId : ℕ
  claimToken : Option ℕ
  subscriber : Subscriber
  deriving DecidableEq

/-- The table and what surrounds it. `staged` holds rows inserted by a producer
transaction that is still open and `locks` its advisory locks, both by thread.
`claims`, `handed` and `returned` only record what happened. -/
structure Table where
  events : List DomainEvent
  staged : List (ℕ × DomainEvent)
  locks : List (ℕ × AggregateKey)
  nextId : ℕ
  nextToken : ℕ
  claims : List Claim
  handed : List Handling
  returned : List Handling

def Table.empty : Table := ⟨[], [], [], 0, 0, [], [], []⟩

inductive Stmt : Type → Type
  | now : Stmt Time
  | random : Stmt ℚ
  | randomUUID : Stmt String
  | advisoryLock (key : AggregateKey) : Stmt Unit
  | findByIdempotencyKey (organizationId idempotencyKey : String) : Stmt (Option DomainEvent)
  | maxSequence (key : AggregateKey) : Stmt (Option ℕ)
  | createEvent (data : NewEvent) : Stmt (Except UniqueIndex DomainEvent)
  | endTransaction (commit : Bool) : Stmt Unit
  | deadLetterAbandonedClaims (now : Time) (maxAttempts : ℕ) : Stmt ℕ
  | claimDomainEvents (now : Time) (limit : ℕ) (leaseMs : ℤ) (maxAttempts : ℕ) :
      Stmt (List DomainEvent)
  | renewLease (id : ℕ) (claimToken : Option ℕ) (lockedUntil : Time) : Stmt Bool
  | settle (id : ℕ) (claimToken : Option ℕ) (data : Settlement) : Stmt Bool
  | findOrganization (id : String) : Stmt Outcome
  | handle (subscriber : Subscriber) (event : DomainEvent) : Stmt Outcome
  /-- The late outcome of a handler whose time was up. -/
  | awaitHandler (subscriber : Subscriber) (event : DomainEvent) : Stmt Outcome
  | findEvents (organizationId : String) (ids : List ℕ) : Stmt (List DomainEvent)
  | requeue (organizationId : String) (id replayCount : ℕ) (now : Time) : Stmt ℕ
  | discard (organizationId : String) (id replayCount : ℕ) (now : Time) : Stmt ℕ

/-- What the environment decides: clock, random numbers, rows that other
transactions have locked (`SKIP LOCKED`), answers of handlers. -/
structure Choice where
  time : Time
  random : ℚ
  uuid : String
  rowLocked : ℕ → Bool
  outcome : Outcome

/-! ### Row updates -/

def DomainEvent.heldBy (e : DomainEvent) (id : ℕ) (claimToken : Option ℕ) : Bool :=
  e.id = id && e.status = .dispatching && e.claimToken = claimToken

def DomainEvent.leaseExpired (e : DomainEvent) (now : Time) : Bool :=
  e.status = .dispatching && e.lockedUntil.any (· < now)

def DomainEvent.abandon (e : DomainEvent) : DomainEvent :=
  { e with
    status := .dead, lockedUntil := none, claimToken := none
    lastError := some
      "LeaseExpired: the claim was abandoned on its final attempt (worker crash or hang)" }

def DomainEvent.claim (e : DomainEvent) (now : Time) (leaseMs : ℤ) (token : ℕ) : DomainEvent :=
  { e with
    status := .dispatching, attempts := e.attempts + 1, lastAttemptAt := some now
    lockedUntil := some (now + leaseMs), claimToken := some token }

def DomainEvent.settle (e : DomainEvent) : Settlement → DomainEvent
  | .published publishedAt =>
    { e with
      status := .published, publishedAt := some publishedAt, lockedUntil := none
      claimToken := none, lastError := none }
  | .retry nextAttemptAt lastError =>
    { e with
      status := .pending, nextAttemptAt := nextAttemptAt, lockedUntil := none
      claimToken := none, lastError := some lastError }
  | .dead lastError =>
    { e with
      status := .dead, lockedUntil := none, claimToken := none, lastError := some lastError }

def DomainEvent.requeue (e : DomainEvent) (now : Time) : DomainEvent :=
  { e with
    status := .pending, attempts := 0, nextAttemptAt := now, replayCount := e.replayCount + 1 }

def DomainEvent.discard (e : DomainEvent) (now : Time) : DomainEvent :=
  { e with status := .discarded, discardedAt := some now }

/-- The `where` of both admin writes. -/
def deadRow (organizationId : String) (id replayCount : ℕ) (e : DomainEvent) : Bool :=
  e.organizationId = organizationId && e.id = id && e.status = .dead && e.replayCount = replayCount

/-- `updateMany`: rewrites the matching rows and counts them. -/
def Table.updateMany (s : Table) (p : DomainEvent → Bool) (f : DomainEvent → DomainEvent) :
    ℕ × Table :=
  (s.events.countP p, { s with events := s.events.map fun e => if p e then f e else e })

/-! ### Claiming -/

/-- Some earlier event of the aggregate is not settled. -/
def Table.blocked (s : Table) (e : DomainEvent) : Bool :=
  s.events.any fun p => p.key = e.key && p.sequence < e.sequence && !p.status.settled

def Table.due (s : Table) (now : Time) (maxAttempts : ℕ) (e : DomainEvent) : Bool :=
  ((e.status = .pending && e.nextAttemptAt ≤ now)
    || (e.leaseExpired now && e.attempts < maxAttempts)) && !s.blocked e

/-- `ORDER BY "occurredAt", "sequence", "id"`. -/
def claimOrder (a b : DomainEvent) : Bool :=
  a.occurredAt < b.occurredAt
    || (a.occurredAt = b.occurredAt
        && (a.sequence < b.sequence || (a.sequence = b.sequence && a.id ≤ b.id)))

def Table.candidates (s : Table) (now : Time) (limit maxAttempts : ℕ) (rowLocked : ℕ → Bool) :
    List DomainEvent :=
  (((s.events.filter (s.due now maxAttempts)).insertionSort (claimOrder · ·)).filter
    (!rowLocked ·.id)).take limit

/-! ### Producer transactions -/

/-- Rows that thread `i` sees: the committed ones and its own. -/
def Table.visible (s : Table) (i : ℕ) : List DomainEvent :=
  s.events ++ (s.staged.filter (·.1 = i)).map (·.2)

def NewEvent.clashes (d : NewEvent) (e : DomainEvent) : Option UniqueIndex :=
  if e.organizationId = d.key.organizationId ∧ e.idempotencyKey = d.idempotencyKey then
    some .idempotencyKey
  else if e.key = d.key ∧ e.sequence = d.sequence then some .sequence
  else none

def NewEvent.row (d : NewEvent) (id : ℕ) (now : Time) : DomainEvent :=
  .ofEnvelope
    { id, organizationId := d.key.organizationId, type := d.type, schemaVersion := d.schemaVersion
      aggregateType := d.key.aggregateType, aggregateId := d.key.aggregateId
      sequence := d.sequence, payload := d.payload, correlationId := d.correlationId
      causationId := d.causationId, idempotencyKey := d.idempotencyKey
      occurredAt := d.occurredAt } now

def Table.create (s : Table) (i : ℕ) (d : NewEvent) (now : Time) :
    Except UniqueIndex DomainEvent × Table :=
  match (s.visible i).findSome? d.clashes with
  | some index => (.error index, s)
  | none =>
    (.ok (d.row s.nextId now),
      { s with staged := s.staged ++ [(i, d.row s.nextId now)], nextId := s.nextId + 1 })

/-- Ends the transaction of thread `i`: its rows become visible or vanish, and
its advisory locks are released. -/
def Table.endTransaction (s : Table) (i : ℕ) (commit : Bool) : Table :=
  { s with
    events := if commit then s.visible i else s.events
    staged := s.staged.filter (·.1 ≠ i)
    locks := s.locks.filter (·.1 ≠ i) }

/-! ### The machine -/

/-- A lock waits for its holder, and an insert for an uncommitted row of another
transaction that it would clash with. -/
def enabled {β : Type} (i : ℕ) (st : Stmt β) (s : Table) : Bool :=
  match st with
  | .advisoryLock key => s.locks.all fun l => l.1 = i || l.2 ≠ key
  | .createEvent d => s.staged.all fun r => r.1 = i || (d.clashes r.2).isNone
  | _ => true

def Table.handOver (s : Table) (subscriber : Subscriber) (event : DomainEvent) : Table :=
  { s with handed := s.handed ++ [⟨event.id, event.claimToken, subscriber⟩] }

def Table.finish (s : Table) (subscriber : Subscriber) (event : DomainEvent) :
    Outcome → Table
  | .returned => { s with returned := s.returned ++ [⟨event.id, event.claimToken, subscriber⟩] }
  | .threw _ | .timedOut => s

def exec {β : Type} (i : ℕ) (st : Stmt β) (ch : Choice) (s : Table) : β × Table :=
  match st with
  | .now => (ch.time, s)
  | .random => (ch.random, s)
  | .randomUUID => (ch.uuid, s)
  | .advisoryLock key => ((), { s with locks := s.locks ++ [(i, key)] })
  | .findByIdempotencyKey organizationId idempotencyKey =>
    ((s.visible i).find? fun e =>
      e.organizationId = organizationId && e.idempotencyKey = idempotencyKey, s)
  | .maxSequence key =>
    (((s.visible i).filter (·.key = key)).map (·.sequence) |>.max?, s)
  | .createEvent d => s.create i d ch.time
  | .endTransaction commit => ((), s.endTransaction i commit)
  | .deadLetterAbandonedClaims now maxAttempts =>
    s.updateMany (fun e => e.leaseExpired now && maxAttempts ≤ e.attempts) DomainEvent.abandon
  | .claimDomainEvents now limit leaseMs maxAttempts =>
    let rows := s.candidates now limit maxAttempts ch.rowLocked
    let claimed := rows.map fun e => e.claim now leaseMs s.nextToken
    (claimed,
      { (s.updateMany (fun e => rows.any (·.id = e.id))
          fun e => e.claim now leaseMs s.nextToken).2 with
        nextToken := s.nextToken + 1
        claims := s.claims ++ claimed.map fun e => ⟨e, s.nextToken⟩ })
  | .renewLease id claimToken lockedUntil =>
    let (count, s) := s.updateMany (·.heldBy id claimToken)
      fun e => { e with lockedUntil := some lockedUntil }
    (count = 1, s)
  | .settle id claimToken data =>
    let (count, s) := s.updateMany (·.heldBy id claimToken) (·.settle data)
    (count = 1, s)
  | .findOrganization _ => (ch.outcome, s)
  | .handle subscriber event =>
    (ch.outcome, (s.handOver subscriber event).finish subscriber event ch.outcome)
  | .awaitHandler subscriber event => (ch.outcome, s.finish subscriber event ch.outcome)
  | .findEvents organizationId ids =>
    (s.events.filter fun e => e.organizationId = organizationId && ids.contains e.id, s)
  | .requeue organizationId id replayCount now =>
    s.updateMany (deadRow organizationId id replayCount) (·.requeue now)
  | .discard organizationId id replayCount now =>
    s.updateMany (deadRow organizationId id replayCount) (·.discard now)

def machine : Interleaving.Machine where
  Stmt := Stmt
  Choice := Choice
  State := Table
  enabled := enabled
  exec := exec

end Ashbi.Outbox

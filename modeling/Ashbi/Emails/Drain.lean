import Ashbi.Emails.Statements
import Ashbi.Interleaving.Throws

/-! The drain of the notification emails. -/

namespace Ashbi.Emails

open Interleaving

variable {Inbox : Type}

/-- What a request or a job does; it may end with an error. -/
abbrev Job (Inbox α : Type) : Type 1 := Throws (Stmt Inbox) Thrown α

/-! ### Eligibility -/

/-- The account and the time since when its events are mailed, where a delivery still fits them. -/
def eligibleSince (found : Option CurrentActor) (delivery : Delivery) : Option (Actor × Time) := do
  let current ← found
  let since ← current.emailEnabledSince
  if current.actor.active && current.emailEnabled &&
      current.actor.email = delivery.recipientEmail && since ≤ delivery.createdAt then
    pure (current.actor, since)
  else none

def eventEligible (actor : Recipient) (delivery : Delivery) (now : Time) : Job Inbox Bool := do
  let current ← Throws.read (.currentActor actor)
  match eligibleSince current delivery with
  | none => pure false
  | some (identity, since) => do
    let exact ← Throws.read (.exact identity delivery.key.kind delivery.key.itemId since)
    pure (exact && decide (now - delivery.createdAt ≤ eventTtlMs))

def disableRow (actor : Recipient) (now : Time) (row : Delivery) : Job Inbox Unit := do
  let eligible ← eventEligible actor row now
  if eligible then pure () else Throws.stmt (.update row.key (.stale now))

def disableStale (actor : Recipient) (now : Time) : Job Inbox Unit := do
  let rows ← Throws.read (.stale actor)
  rows.foldlM (fun _ row => disableRow actor now row) ()

/-! ### Claims -/

def newDelivery (env : Env) (actor : Recipient) (row : Candidate) (now : Time) : Delivery where
  key := actor.key row.kind row.id
  status := .pending
  attempts := 0
  nextAttemptAt := now
  leaseUntil := 0
  leaseToken := none
  lastAttemptAt := none
  recipientEmail := actor.email
  sender := env.emailFrom
  payloadFingerprint := "v1|" ++ env.appOrigin
  providerId := none
  errorCode := none
  createdAt := row.createdAt
  updatedAt := now

/-- The row is what a drain with this configuration would insert for the actor. -/
def Delivery.sameSnapshot (row : Delivery) (env : Env) (actor : Recipient) : Bool :=
  row.recipientEmail = actor.email && row.sender = env.emailFrom &&
    row.payloadFingerprint = "v1|" ++ env.appOrigin

/-- What is written instead of a claim. -/
def retirement (env : Env) (actor : Recipient) (existing : Delivery) (now : Time) :
    Option Write :=
  if !existing.sameSnapshot env actor then some (.snapshotChanged now)
  else if existing.status = .pending && 0 < existing.attempts && 0 < existing.leaseUntil &&
      existing.leaseUntil ≤ now then some (.leaseExpired now)
  else if retryTtlMs ≤ now - existing.createdAt then some (.expired now)
  else if maxAttempts ≤ existing.attempts then some (.attemptsExhausted now)
  else none

def claimDelivery (key : Key) (now : Time) : Job Inbox (Option Delivery) := do
  let token ← Throws.read .randomUUID
  let claimed ← Throws.read (.claim key now token)
  pure (claimed.filter (·.leaseToken = some token))

def createOrClaim (env : Env) (actor : Recipient) (row : Candidate) (now : Time) :
    Job Inbox (Option Delivery) := do
  let key := actor.key row.kind row.id
  let _ ← Throws.read (.insert (newDelivery env actor row now))
  let existing ← Throws.read (.find key)
  match existing.filter (·.status.live) with
  | none => pure none
  | some existing =>
    match retirement env actor existing now with
    | some write => do
      let _ ← Throws.stmt (.update key write)
      pure none
    | none => claimDelivery key now

/-! ### Sends -/

section Sends

variable (parse : String → Option Url) (env : Env)

def sendEmail (delivery : Delivery) : Job Inbox String :=
  match parseSender delivery.sender with
  | none => throw ⟨none, some "sender_invalid"⟩
  | some sender => do
    let _ ← Throws.read (.send delivery (genericMessage parse env delivery.recipientEmail sender))
    let settlement ← Throws.read (.settled delivery)
    Throws.returns settlement.result

/-- The delivery is not tried again after this failure. -/
def Delivery.ends (delivery : Delivery) (now : Time) : Bool :=
  maxAttempts ≤ max delivery.attempts 1 || retryTtlMs ≤ now - delivery.createdAt

def failedStatus (delivery : Delivery) (now : Time) (error : Thrown) : Status :=
  if delivery.ends now then .failed else (providerFailure error).1

def failureWrite (delivery : Delivery) (now : Time) (error : Thrown) : Write :=
  let status := failedStatus delivery now error
  .failure now delivery.leaseToken status
    (if status = .retry then retryAt now (max delivery.attempts 1) else now)
    (if delivery.ends now then "attempts_exhausted" else (providerFailure error).2)

def sendAndAccept (delivery : Delivery) (now : Time) : Job Inbox Status := do
  let providerId ← sendEmail parse env delivery
  let _ ← Throws.stmt (.update delivery.key (.accepted now delivery.leaseToken providerId))
  pure .accepted

def recordFailure (delivery : Delivery) (now : Time) (error : Thrown) : Job Inbox Status := do
  let _ ← Throws.stmt (.update delivery.key (failureWrite delivery now error))
  pure (failedStatus delivery now error)

/-- The handler also runs when the acceptance cannot be stored. -/
def attemptSend (delivery : Delivery) (now : Time) : Job Inbox Status :=
  tryCatch (sendAndAccept parse env delivery now) (recordFailure delivery now)

def dropDelivery (delivery : Delivery) (now : Time) : Job Inbox Status := do
  let _ ← Throws.stmt (.update delivery.key (.eligibilityChanged now delivery.leaseToken))
  pure .disabled

def deliverOne (actor : Recipient) (delivery : Delivery) (now : Time) : Job Inbox Status :=
  if retryTtlMs ≤ now - delivery.createdAt then dropDelivery delivery now
  else do
    let eligible ← eventEligible actor delivery now
    if eligible then attemptSend parse env delivery now else dropDelivery delivery now

/-! ### Drains -/

structure Totals where
  processed : ℕ
  sent : ℕ
  retried : ℕ
  failed : ℕ
  uncertain : ℕ

def Totals.count (totals : Totals) (status : Status) : Totals :=
  let totals := { totals with processed := totals.processed + 1 }
  match status with
  | .accepted => { totals with sent := totals.sent + 1 }
  | .retry => { totals with retried := totals.retried + 1 }
  | .uncertain => { totals with uncertain := totals.uncertain + 1 }
  | _ => { totals with failed := totals.failed + 1 }

/-- `break` in the loops over actors and candidates leaves the rest as it is. -/
def deliverCandidate (actor : Recipient) (totals : Totals) (row : Candidate) :
    Job Inbox Totals :=
  if maxPerRun ≤ totals.processed || !boundedEmail actor.email then pure totals
  else do
    let claimedAt ← Throws.read .now
    let delivery ← createOrClaim env actor row claimedAt
    match delivery with
    | none => pure totals
    | some delivery => do
      let now ← Throws.read .now
      let status ← deliverOne parse env actor delivery now
      pure (totals.count status)

def drainActor (scanned : Totals × Option Recipient) (actor : Recipient) :
    Job Inbox (Totals × Option Recipient) :=
  if maxPerRun ≤ scanned.1.processed then pure scanned
  else do
    let staleAt ← Throws.read .now
    disableStale actor staleAt
    let now ← Throws.read .now
    let rows ← Throws.read (.candidates actor 500 now)
    let active := (rows.filter (actor.emailEnabledSince ≤ ·.createdAt)).take perActorMax
    let totals ← active.foldlM (deliverCandidate parse env actor) scanned.1
    pure (totals, some actor)

def windowAfter (organizationId actorId : String) : Job Inbox (List Recipient) := do
  let forward ← Throws.read (.recipients (.after organizationId actorId) 20)
  if forward.length = 20 || (organizationId = "" && actorId = "") then pure forward
  else if forward.isEmpty then Throws.read (.recipients .all 20)
  else do
    let wrapped ← Throws.read (.recipients (.before organizationId actorId) (20 - forward.length))
    pure (forward ++ wrapped)

def actorWindow : Job Inbox (List Recipient) := do
  let cursor ← Throws.read .cursor
  windowAfter (cursor.getD ("", "")).1 (cursor.getD ("", "")).2

def saveCursor (last : Option Recipient) : Job Inbox Unit :=
  match last with
  | none => pure ()
  | some actor => Throws.read (.schedule actor.organizationId actor.id)

def drainNotificationEmails : Job Inbox (Option Totals) :=
  if !configured parse env then pure none
  else do
    let actors ← actorWindow
    let (totals, last) ← actors.foldlM (drainActor parse env) (⟨0, 0, 0, 0, 0⟩, none)
    saveCursor last
    pure (some totals)

end Sends

/-- What runs: drains of any configuration, and requests that change preferences, accounts and
the inbox. -/
inductive Deployed (parse : String → Option Url) : Prog (Stmt Inbox) Unit → Prop
  | drain (env) :
      Deployed parse ((drainNotificationEmails parse env).run.bind fun _ => .ret ())
  | setPreference (organizationId actorId : String) (email : Bool) :
      Deployed parse ((Prog.stmt .now).bind fun now =>
        .stmt (.setPreference organizationId actorId email now))
  | act (write : Inbox → Inbox) : Deployed parse (.stmt (.act write))
  | setActors (actors : List Actor) : Deployed parse (.stmt (.setActors actors))

end Ashbi.Emails

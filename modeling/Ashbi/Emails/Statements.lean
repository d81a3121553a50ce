import Mathlib.Data.List.Sort
import Ashbi.Interleaving.Program
import Ashbi.Js
import Ashbi.Keyed.Rows
import Ashbi.Sql.Batch

/-! Notification emails: the delivery rows, the sender, what a failed send becomes, and the
statements of the drain. -/

namespace Ashbi.Emails

/-! ### Limits -/

def maxPerRun : ℕ := 50
def perActorMax : ℕ := 10
def maxAttempts : ℕ := 4
def leaseMs : Time := 120000
def retryBaseMs : Time := 60000
def retryMaxMs : Time := 6 * 60 * 60 * 1000
def eventTtlMs : Time := 24 * 60 * 60 * 1000
def retryTtlMs : Time := 23 * 60 * 60 * 1000

/-! ### Rows -/

inductive Kind
  | message | assignment | deadline | upload
  deriving DecidableEq

inductive Status
  | pending | retry | accepted | failed | disabled | uncertain
  deriving DecidableEq

/-- The statuses from which most updates start. -/
def Status.live : Status → Bool
  | .pending | .retry | .uncertain => true
  | _ => false

/-- The primary key of a delivery. -/
structure Key where
  organizationId : String
  actorId : String
  kind : Kind
  itemId : String
  deriving DecidableEq

/-- A row of `notification_email_deliveries`. -/
structure Delivery where
  key : Key
  status : Status
  attempts : ℕ
  nextAttemptAt : Time
  leaseUntil : Time
  leaseToken : Option ℕ
  lastAttemptAt : Option Time
  recipientEmail : String
  sender : String
  payloadFingerprint : String
  providerId : Option String
  errorCode : Option String
  createdAt : Time
  updatedAt : Time
  deriving DecidableEq

/-! ### The sender and the message -/

/-- `/^[^\s@]+@[^\s@]+\.[^\s@]+$/`: the dot is neither the first nor the last of the domain. -/
def isAddress (value : List Char) : Bool :=
  let inner := fun c => !Js.isSpace c && c ≠ '@'
  let mailbox := value.takeWhile (· ≠ '@')
  let domain := (value.dropWhile (· ≠ '@')).drop 1
  !mailbox.isEmpty && mailbox.all inner && domain.all inner && (domain.drop 1).dropLast.contains '.'

def boundedEmail (value : String) : Bool :=
  0 < Js.length value && Js.length value ≤ 320 && isAddress value.toList

structure Sender where
  email : String
  name : Option String
  deriving DecidableEq

/-- `/^([^<>\r\n]{1,200})\s*<([^<>\s]+)>$/`; what the first group leaves of the text before the
bracket has to be blank. -/
def namedSender (trimmed : String) : Option (String × String) :=
  let before := trimmed.toList.takeWhile (· ≠ '<')
  let name := Js.prefixUnits 200 (before.takeWhile fun c => c ≠ '>' && c ≠ '\r' && c ≠ '\n')
  let rest := (trimmed.toList.dropWhile (· ≠ '<')).drop 1
  let email := rest.takeWhile fun c => c ≠ '<' && c ≠ '>' && !Js.isSpace c
  if !name.isEmpty && (before.drop name.length).all Js.isSpace && !email.isEmpty &&
      rest.drop email.length = ['>'] then
    some (String.ofList name, String.ofList email)
  else none

def parseSender (value : String) : Option Sender :=
  if 320 < Js.length value then none
  else
    let trimmed := Js.trim value
    let plain := if boundedEmail trimmed then some ⟨trimmed, none⟩ else none
    match namedSender trimmed with
    | some (name, email) =>
      if boundedEmail email then some ⟨email, Js.truthy (Js.trim name)⟩ else plain
    | none => plain

/-- The parts of a parsed `URL` that are checked. -/
structure Url where
  username : String
  password : String
  protocol : String
  port : String
  pathname : String
  search : String
  hash : String
  origin : String

/-- `parse` is the URL parser of the platform. -/
def canonicalOrigin (parse : String → Option Url) (value : String) : Option String :=
  if 2048 < Js.length value then none
  else
    match parse value with
    | none => none
    | some url =>
      if url.username ≠ "" || url.password ≠ "" || url.protocol ≠ "https:" || url.port ≠ "" ||
          url.pathname ≠ "/" || url.search ≠ "" || url.hash ≠ "" then none
      else some url.origin

/-- The configuration of a run; a variable that is not set is empty. -/
structure Env where
  emailNotificationsEnabled : String
  emailFrom : String
  appOrigin : String
  /-- Whether there is a function to send with. -/
  transport : Bool

def configured (parse : String → Option Url) (env : Env) : Bool :=
  env.emailNotificationsEnabled = "true" && (parseSender env.emailFrom).isSome &&
    (canonicalOrigin parse env.appOrigin).isSome && env.transport

/-- What the send function is called with. -/
structure Mail where
  recipient : String
  sender : Sender
  subject : String
  text : String
  deriving DecidableEq

def genericMessage (parse : String → Option Url) (env : Env) (recipient : String)
    (sender : Sender) :
    Mail where
  recipient := recipient
  sender := sender
  subject := "New activity in your Ashbi Inbox"
  text := "You have new activity in your Ashbi Inbox. Open Ashbi to review it" ++
    match canonicalOrigin parse env.appOrigin with
    | some origin => ": " ++ origin ++ "/#inbox."
    | none => ".."

/-! ### What a send comes to -/

/-- What an `Error` carries, `code` from the provider and `providerCode` from the module. -/
structure Thrown where
  code : Option String
  providerCode : Option String
  deriving DecidableEq

/-- How a call of the send function ends for its caller. -/
inductive Settlement
  | resolved (messageId : Option String)
  | rejected (error : Thrown)
  | timedOut
  deriving DecidableEq

def transientProviderCodes : List (String × String) :=
  [("E_RATE_LIMIT_EXCEEDED", "rate_limit"), ("E_DAILY_LIMIT_EXCEEDED", "daily_limit"),
    ("E_DELIVERY_FAILED", "delivery_failed"), ("E_INTERNAL_SERVER_ERROR", "provider_internal")]

def terminalProviderCodes : List (String × String) :=
  [("E_VALIDATION_ERROR", "validation_error"), ("E_FIELD_MISSING", "field_missing"),
    ("E_TOO_MANY_RECIPIENTS", "too_many_recipients"),
    ("E_TOO_MANY_ATTACHMENTS", "too_many_attachments"),
    ("E_SENDER_NOT_VERIFIED", "sender_not_verified"),
    ("E_RECIPIENT_NOT_ALLOWED", "recipient_not_allowed"),
    ("E_RECIPIENT_SUPPRESSED", "recipient_suppressed"),
    ("E_ACCOUNT_SUSPENDED", "account_suspended"),
    ("E_SENDER_DOMAIN_NOT_AVAILABLE", "sender_domain_unavailable"),
    ("E_CONTENT_TOO_LARGE", "content_too_large"), ("E_HEADER_NOT_ALLOWED", "header_not_allowed"),
    ("E_HEADER_USE_API_FIELD", "header_use_api_field"),
    ("E_HEADER_VALUE_INVALID", "header_value_invalid"),
    ("E_HEADER_VALUE_TOO_LONG", "header_value_too_long"),
    ("E_HEADER_NAME_INVALID", "header_name_invalid"), ("E_HEADERS_TOO_LARGE", "headers_too_large"),
    ("E_HEADERS_TOO_MANY", "headers_too_many")]

def Thrown.transient (error : Thrown) : Option String :=
  error.code.bind (transientProviderCodes.lookup ·)

def providerFailure (error : Thrown) : Status × String :=
  match error.transient with
  | some code => (.retry, code)
  | none =>
    match error.code.bind (terminalProviderCodes.lookup ·) with
    | some code => (.failed, code)
    | none =>
      if error.providerCode = some "sender_invalid" then (.failed, "sender_invalid")
      else if error.providerCode = some "provider_missing_id" then
        (.uncertain, "provider_missing_id")
      else if error.providerCode = some "provider_timeout" then (.uncertain, "provider_timeout")
      else (.uncertain, "provider_unknown")

/-- The only failures after which a send is tried again are the listed transient ones. -/
theorem transient_of_retry {error : Thrown} (h : (providerFailure error).1 = .retry) :
    error.transient.isSome = true := by
  unfold providerFailure at h
  split at h
  · rename_i code hcode
    rw [hcode]
    rfl
  · split at h
    · cases h
    · split at h
      · cases h
      split at h
      · cases h
      · split at h <;> cases h

def retryAt (now : Time) (attempts : ℕ) : Time :=
  now + min retryMaxMs (retryBaseMs * 2 ^ (attempts - 1))

/-- The id that the provider returned, where it is one. -/
def acceptedId (messageId : Option String) : Except Thrown String :=
  match messageId with
  | some id =>
    if Js.length id < 1 || 512 < Js.length id ||
        id.toList.any (fun c => c.toNat ≤ 0x1f || c.toNat = 0x7f) then
      .error ⟨none, some "provider_missing_id"⟩
    else .ok id
  | none => .error ⟨none, some "provider_missing_id"⟩

/-- What `sendEmail` returns or throws. -/
def Settlement.result : Settlement → Except Thrown String
  | .resolved messageId => acceptedId messageId
  | .rejected error => .error error
  | .timedOut => .error ⟨none, some "provider_timeout"⟩

/-- The call ended with an error of the provider that is listed as transient. -/
def Settlement.isTransient : Settlement → Bool
  | .rejected error => error.transient.isSome
  | _ => false

/-- Only such an error is recorded for another attempt. -/
theorem Settlement.transient_of_retry {settlement : Settlement} {error : Thrown}
    (hresult : settlement.result = .error error) (h : (providerFailure error).1 = .retry) :
    settlement.isTransient = true := by
  have htransient := Emails.transient_of_retry h
  cases settlement with
  | resolved messageId =>
    simp only [result, acceptedId] at hresult
    split at hresult
    · split at hresult
      · obtain rfl := Except.error.inj hresult
        cases htransient
      · cases hresult
    · obtain rfl := Except.error.inj hresult
      cases htransient
  | rejected error' =>
    obtain rfl := Except.error.inj hresult
    exact htransient
  | timedOut =>
    obtain rfl := Except.error.inj hresult
    cases htransient

/-! ### The statements of the email drain -/

open Interleaving

/-! ### The other tables -/

structure Actor where
  id : String
  organizationId : String
  role : String
  clientId : Option String
  email : String
  active : Bool
  deriving DecidableEq

/-- The columns of `notification_preferences` on email. -/
structure Preference where
  organizationId : String
  actorId : String
  email : Bool
  emailEnabledSince : Option Time

/-- A row of the inbox feed. -/
structure Candidate where
  kind : Kind
  id : String
  createdAt : Time
  unread : Bool

/-- An actor as a drain has read them. -/
structure Recipient where
  id : String
  organizationId : String
  role : String
  clientId : Option String
  email : String
  emailEnabledSince : Time

structure CurrentActor where
  actor : Actor
  emailEnabled : Bool
  emailEnabledSince : Option Time

/-- The inbox tables are `Inbox`; the feed of an actor is read from them. -/
structure State (Inbox : Type) where
  actors : List Actor
  preferences : List Preference
  inbox : Inbox
  deliveries : List Delivery
  /-- The organization and the actor at which the last drain stopped. -/
  scheduler : Option (String × String)
  clock : ℕ
  /-- The number of tokens handed out by `crypto.randomUUID`. -/
  issued : ℕ

variable {Inbox : Type}

def State.delivery (s : State Inbox) (key : Key) : Option Delivery :=
  Keyed.find (·.key) s.deliveries key

def State.preference (s : State Inbox) (actor : Actor) : Option Preference :=
  s.preferences.find? fun row =>
    row.organizationId = actor.organizationId && row.actorId = actor.id

/-! ### Reads -/

/-- Which part of the actors, ordered by organization and id, is read. -/
inductive Window
  | all
  | after (organizationId actorId : String)
  | before (organizationId actorId : String)

def Window.contains (window : Window) (actor : Actor) : Bool :=
  match window with
  | .all => true
  | .after organizationId actorId => organizationId < actor.organizationId ||
      (actor.organizationId = organizationId && actorId < actor.id)
  | .before organizationId actorId => actor.organizationId < organizationId ||
      (actor.organizationId = organizationId && actor.id < actorId)

def Recipient.before (a b : Recipient) : Bool :=
  a.organizationId < b.organizationId || (a.organizationId = b.organizationId && a.id ≤ b.id)

/-- The active actors that want email, with the time since when. -/
def State.recipients (s : State Inbox) (window : Window) (limit : ℕ) : List Recipient :=
  let joined := s.actors.filterMap fun actor => do
    let preference ← s.preference actor
    let since ← preference.emailEnabledSince
    if actor.active && preference.email && window.contains actor then
      pure { id := actor.id, organizationId := actor.organizationId, role := actor.role
             clientId := actor.clientId, email := actor.email, emailEnabledSince := since }
    else none
  (joined.insertionSort fun a b => a.before b = true).take limit

def Kind.text : Kind → String
  | .message => "message"
  | .assignment => "assignment"
  | .deadline => "deadline"
  | .upload => "upload"

/-- `ORDER BY created_at DESC,kind DESC,id DESC`. -/
def Candidate.before (a b : Candidate) : Bool :=
  b.createdAt < a.createdAt || (a.createdAt = b.createdAt &&
    (b.kind.text < a.kind.text || (a.kind = b.kind && b.id ≤ a.id)))

def Recipient.key (actor : Recipient) (kind : Kind) (itemId : String) : Key where
  organizationId := actor.organizationId
  actorId := actor.id
  kind := kind
  itemId := itemId

/-- A delivery keeps its item from the candidates. -/
def Delivery.holds (row : Delivery) (now : Time) : Bool :=
  [Status.accepted, .failed, .disabled, .uncertain].contains row.status ||
    now < row.nextAttemptAt || now < row.leaseUntil

/-- The identity that a query names, as far as the account still has it. -/
def State.identity (s : State Inbox) (id organizationId role : String)
    (clientId : Option String) : Option Actor :=
  s.actors.find? fun actor => actor.id = id && actor.organizationId = organizationId &&
    actor.role = role && actor.clientId = clientId

section Feed

-- the rows that the inbox query yields for an active identity at a time
variable (feed : Inbox → Time → Actor → List Candidate)

def State.feedOf (s : State Inbox) (id organizationId role : String) (clientId : Option String) :
    List Candidate :=
  match s.identity id organizationId role clientId with
  | some actor => if actor.active then feed s.inbox s.clock actor else []
  | none => []

def State.candidates (s : State Inbox) (actor : Recipient) (limit : ℕ) (now : Time) :
    List Candidate :=
  let rows := (s.feedOf feed actor.id actor.organizationId actor.role actor.clientId).filter
    fun row => row.unread && !s.deliveries.any fun delivery =>
      delivery.key = actor.key row.kind row.id && delivery.holds now
  (rows.insertionSort fun a b => a.before b = true).take limit

def State.exact (s : State Inbox) (actor : Actor) (kind : Kind) (id : String) (since : Time) :
    Bool :=
  (s.feedOf feed actor.id actor.organizationId actor.role actor.clientId).any fun row =>
    row.kind = kind && row.id = id && row.unread && since ≤ row.createdAt

end Feed

def State.currentActor (s : State Inbox) (actor : Recipient) : Option CurrentActor :=
  (s.identity actor.id actor.organizationId actor.role actor.clientId).map fun row =>
    { actor := row
      emailEnabled := ((s.preference row).map (·.email)).getD false
      emailEnabledSince := (s.preference row).bind (·.emailEnabledSince) }

/-- The deliveries of an actor that `disableStale` looks at. -/
def State.stale (s : State Inbox) (actor : Recipient) : List Delivery :=
  let rows := s.deliveries.filter fun row => row.key.organizationId = actor.organizationId &&
    row.key.actorId = actor.id && row.status.live
  (rows.insertionSort fun a b => a.updatedAt ≤ b.updatedAt).take 20

/-! ### Writes -/

/-- The updates of one delivery; each names the row by its key and by a condition of its own. -/
inductive Write
  /-- `disableStale` -/
  | stale (now : Time)
  /-- `createOrClaim` -/
  | snapshotChanged (now : Time)
  | leaseExpired (now : Time)
  | expired (now : Time)
  | attemptsExhausted (now : Time)
  /-- `deliverOne` -/
  | eligibilityChanged (now : Time) (token : Option ℕ)
  | accepted (now : Time) (token : Option ℕ) (providerId : String)
  | failure (now : Time) (token : Option ℕ) (status : Status) (nextAttemptAt : Time)
      (errorCode : String)

/-- A comparison with NULL selects nothing. -/
def Delivery.hasToken (row : Delivery) (token : Option ℕ) : Bool :=
  token.isSome && row.leaseToken = token

def Write.selects (write : Write) (row : Delivery) : Bool :=
  match write with
  | .stale _ | .snapshotChanged _ | .expired _ | .attemptsExhausted _ => row.status.live
  | .leaseExpired _ => row.status = .pending
  | .eligibilityChanged _ token | .accepted _ token _ | .failure _ token _ _ _ =>
    row.hasToken token

/-- `lease_until=0,lease_token=NULL` -/
def Delivery.released (row : Delivery) (status : Status) (now : Time) : Delivery :=
  { row with status := status, leaseUntil := 0, leaseToken := none, updatedAt := now }

def Write.set (write : Write) (row : Delivery) : Delivery :=
  match write with
  | .stale now => row.released .disabled now
  | .snapshotChanged now => { row.released .disabled now with errorCode := some "snapshot_changed" }
  | .leaseExpired now => { row.released .uncertain now with errorCode := some "lease_expired" }
  | .expired now => { row.released .failed now with errorCode := some "expired" }
  | .attemptsExhausted now =>
    { row.released .failed now with errorCode := some "attempts_exhausted" }
  | .eligibilityChanged now _ =>
    { row.released .disabled now with errorCode := some "eligibility_changed" }
  | .accepted now _ providerId =>
    { row.released .accepted now with providerId := some providerId, errorCode := none }
  | .failure now _ status nextAttemptAt errorCode =>
    { row.released status now with nextAttemptAt := nextAttemptAt, errorCode := some errorCode }

def State.update (s : State Inbox) (key : Key) (selects : Delivery → Bool)
    (set : Delivery → Delivery) : State Inbox :=
  { s with deliveries := Sql.update (fun row => row.key = key && selects row) set s.deliveries }

/-- `ON CONFLICT(organization_id,actor_id,kind,item_id) DO NOTHING` -/
def State.insert (s : State Inbox) (row : Delivery) : State Inbox :=
  if (s.delivery row.key).isSome then s else { s with deliveries := s.deliveries ++ [row] }

/-- The condition under which a claim takes a delivery. -/
def Delivery.claimable (row : Delivery) (now : Time) : Bool :=
  (row.status = .pending || row.status = .retry) && row.nextAttemptAt ≤ now &&
    (row.leaseUntil = 0 || row.leaseUntil < now) && row.attempts < maxAttempts

def Delivery.claimed (row : Delivery) (now : Time) (token : ℕ) : Delivery :=
  { row with
    status := .pending
    attempts := row.attempts + 1
    leaseUntil := now + leaseMs
    leaseToken := some token
    lastAttemptAt := some now
    updatedAt := now }

/-- `UPDATE … RETURNING *` -/
def State.claim (s : State Inbox) (key : Key) (now : Time) (token : ℕ) :
    Option Delivery × State Inbox :=
  let claimed := s.update key (·.claimable now) (·.claimed now token)
  match s.delivery key with
  | some row => if row.claimable now then (claimed.delivery key, claimed) else (none, s)
  | none => (none, s)

/-- The upsert of the preference route. -/
def State.setPreference (s : State Inbox) (organizationId actorId : String) (email : Bool)
    (timestamp : Time) : State Inbox :=
  if s.preferences.any fun row => row.organizationId = organizationId && row.actorId = actorId then
    { s with preferences := s.preferences.map fun row =>
        if row.organizationId = organizationId && row.actorId = actorId then
          { row with
            email := email
            emailEnabledSince :=
              if email && !row.email then some timestamp
              else if email then some (row.emailEnabledSince.getD timestamp) else none }
        else row }
  else
    { s with preferences := s.preferences ++
        [⟨organizationId, actorId, email, if email then some timestamp else none⟩] }

/-! ### Statements -/

inductive Stmt (Inbox : Type) : Type → Type
  | now : Stmt Inbox Time
  | randomUUID : Stmt Inbox ℕ
  | cursor : Stmt Inbox (Option (String × String))
  | recipients (window : Window) (limit : ℕ) : Stmt Inbox (List Recipient)
  | candidates (actor : Recipient) (limit : ℕ) (now : Time) : Stmt Inbox (List Candidate)
  | currentActor (actor : Recipient) : Stmt Inbox (Option CurrentActor)
  | exact (actor : Actor) (kind : Kind) (id : String) (since : Time) : Stmt Inbox Bool
  | stale (actor : Recipient) : Stmt Inbox (List Delivery)
  | insert (row : Delivery) : Stmt Inbox Unit
  | find (key : Key) : Stmt Inbox (Option Delivery)
  | update (key : Key) (write : Write) : Stmt Inbox (Except Thrown Unit)
  | claim (key : Key) (now : Time) (token : ℕ) : Stmt Inbox (Option Delivery)
  | schedule (organizationId actorId : String) : Stmt Inbox Unit
  /-- The send function is called, and later the wait for it and the timeout ends. -/
  | send (delivery : Delivery) (mail : Mail) : Stmt Inbox Unit
  | settled (delivery : Delivery) : Stmt Inbox Settlement
  | setPreference (organizationId actorId : String) (email : Bool) (timestamp : Time) :
      Stmt Inbox Unit
  /-- Any request that reads or changes the inbox or the accounts. -/
  | act (write : Inbox → Inbox) : Stmt Inbox Unit
  | setActors (actors : List Actor) : Stmt Inbox Unit

/-- An update can throw without or after having been executed. -/
inductive Fault
  | none | before | after
  deriving DecidableEq

/-- The time that passes before a statement, what becomes of an update and how a send ends. -/
structure Choice where
  elapsed : ℕ
  fault : Fault
  settlement : Settlement

def State.later (s : State Inbox) (elapsed : ℕ) : State Inbox :=
  { s with clock := s.clock + elapsed }

/-- The errors of the database carry none of the provider's codes. -/
def databaseError : Thrown := ⟨none, none⟩

def execAt (feed : Inbox → Time → Actor → List Candidate) {β : Type} (st : Stmt Inbox β)
    (choice : Choice) (s : State Inbox) : β × State Inbox :=
  match st with
  | .now => (s.clock, s)
  | .randomUUID => (s.issued, { s with issued := s.issued + 1 })
  | .cursor => (s.scheduler, s)
  | .recipients window limit => (s.recipients window limit, s)
  | .candidates actor limit now => (s.candidates feed actor limit now, s)
  | .currentActor actor => (s.currentActor actor, s)
  | .exact actor kind id since => (s.exact feed actor kind id since, s)
  | .stale actor => (s.stale actor, s)
  | .insert row => ((), s.insert row)
  | .find key => (s.delivery key, s)
  | .update key write =>
    match choice.fault with
    | .none => (.ok (), s.update key write.selects write.set)
    | .before => (.error databaseError, s)
    | .after => (.error databaseError, s.update key write.selects write.set)
  | .claim key now token => s.claim key now token
  | .schedule organizationId actorId =>
    ((), { s with scheduler := some (organizationId, actorId) })
  | .send _ _ => ((), s)
  | .settled _ => (choice.settlement, s)
  | .setPreference organizationId actorId email timestamp =>
    ((), s.setPreference organizationId actorId email timestamp)
  | .act write => ((), { s with inbox := write s.inbox })
  | .setActors actors => ((), { s with actors := actors })

abbrev machine (feed : Inbox → Time → Actor → List Candidate) : Machine where
  Stmt := Stmt Inbox
  Choice := Choice
  State := State Inbox
  enabled := fun _ _ _ => true
  exec := fun _ st choice s => execAt feed st choice (s.later choice.elapsed)

end Ashbi.Emails

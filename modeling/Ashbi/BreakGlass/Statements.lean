import Ashbi.Interleaving.Throws
import Ashbi.Interleaving.Transaction
import Ashbi.Interleaving.Versions
import Ashbi.Js

/-! Break-glass grants, the accounts they restore, what is checked of a request, and the requests as
programs over database statements. -/

namespace Ashbi.BreakGlass

/-- A row of `users`. -/
structure User where
  id : String
  organizationId : String
  email : String
  role : String
  isActive : Bool
  deriving DecidableEq

def User.isAdmin (user : User) : Bool := user.role = "ADMIN"

def User.isActiveAdmin (user : User) : Bool := user.isAdmin && user.isActive

/-- What a redemption writes on the account. -/
def User.restored (user : User) (promoted : Bool) : User :=
  { user with
    isActive := true
    role := if promoted then "ADMIN" else user.role }

/-- A row of `break_glass_grants`. -/
structure Grant where
  id : ℕ
  organizationId : String
  targetUserId : String
  operatorId : String
  reason : String
  promoteToAdmin : Bool
  tokenHash : String
  createdAt : Time
  expiresAt : Time
  redeemedAt : Option Time
  revokedAt : Option Time
  deriving DecidableEq

/-- Neither redeemed nor revoked. -/
def Grant.isOpen (grant : Grant) : Bool := grant.redeemedAt.isNone && grant.revokedAt.isNone

def Grant.revoked (grant : Grant) (now : Time) : Grant := { grant with revokedAt := some now }

def Grant.redeemed (grant : Grant) (now : Time) : Grant := { grant with redeemedAt := some now }

/-- `BREAK_GLASS_TTL_SECONDS` in milliseconds. -/
def ttl : ℤ := 30 * 60 * 1000

/-- What a request is answered with when it throws. -/
inductive Failure
  | breakGlassError (code message : String) (status : ℕ)
  | uniqueViolation
  | checkViolation
  | recordNotFound
  | interrupted
  deriving DecidableEq

def disabled : Failure := .breakGlassError "BREAK_GLASS_DISABLED"
  "Break-glass access is disabled. Set BREAK_GLASS_ENABLED=true for the duration of the emergency."
  404

def reasonRequired : Failure :=
  .breakGlassError "BREAK_GLASS_REASON_REQUIRED" "A reason of 10 to 500 characters is required." 400

def notOperator : Failure := .breakGlassError "BREAK_GLASS_NOT_OPERATOR"
  "Only a platform operator (PLATFORM_OPERATOR_USER_IDS) can use break-glass access." 403

def operatorInactive : Failure := .breakGlassError "BREAK_GLASS_NOT_OPERATOR"
  "The platform operator account must be an active administrator." 403

def organizationNotFound : Failure :=
  .breakGlassError "BREAK_GLASS_ORG_NOT_FOUND" "Organization not found." 404

def targetNotFound : Failure := .breakGlassError "BREAK_GLASS_TARGET_NOT_FOUND"
  "No single staff account with that id or email in this organization." 404

def targetForbidden : Failure := .breakGlassError "BREAK_GLASS_TARGET_FORBIDDEN"
  "Break-glass access restores staff administrators only." 403

def targetNotAdmin : Failure := .breakGlassError "BREAK_GLASS_TARGET_NOT_ADMIN"
  ("The target is not an administrator. Pass --promote (for a TEAM or STAFF member) only when " ++
    "the organization has no administrator left.") 409

def adminExists : Failure := .breakGlassError "BREAK_GLASS_ADMIN_EXISTS"
  ("The organization still has an active administrator; restore that account instead of " ++
    "promoting another.") 409

def grantNotFound : Failure :=
  .breakGlassError "BREAK_GLASS_GRANT_NOT_FOUND" "Grant not found." 404

def grantClosed : Failure := .breakGlassError "BREAK_GLASS_GRANT_CLOSED"
  "The grant was already redeemed or revoked." 409

def invalid : Failure := .breakGlassError "BREAK_GLASS_INVALID"
  "This emergency access link is invalid, used or expired." 400

/-- The variables of the process; a missing one reads as empty. -/
structure Environment where
  breakGlassEnabled : String
  platformOperatorUserIds : String

/-- No character outside ASCII lowercases to one of `true`. -/
def isBreakGlassEnabled (environment : Environment) : Bool :=
  (Js.trim environment.breakGlassEnabled).toList.map Char.toLower = "true".toList

def operatorIds (environment : Environment) : List String :=
  ((environment.platformOperatorUserIds.toList.splitOn ',').map fun id =>
    Js.trim (String.ofList id)).filter (· ≠ "")

def assertEnabled (environment : Environment) : Except Failure Unit :=
  if isBreakGlassEnabled environment then .ok () else .error disabled

/-- `none` is a reason that is no text. -/
def normalizeReason (reason : Option String) : Except Failure String :=
  let text := (reason.map Js.trim).getD ""
  if Js.length text < 10 || 500 < Js.length text then .error reasonRequired else .ok text

/-- The input of `issueBreakGlassGrant`. -/
structure IssueInput where
  organizationId : String
  targetEmail : Option String
  targetUserId : Option String
  operatorId : String
  reason : Option String
  promoteToAdmin : Bool

/-- The `where` of the target. `ilike` compares two texts without their case. -/
def IssueInput.selects (ilike : String → String → Bool) (input : IssueInput) (user : User) : Bool :=
  (match Js.truthy input.targetUserId with
  | some id => user.id = id
  | none => ilike user.email (Js.trim (input.targetEmail.getD ""))) &&
    user.organizationId = input.organizationId

/-- The account of a role that break-glass access restores. -/
def User.isStaff (user : User) : Bool := user.role ≠ "CLIENT" && user.role ≠ "BOT"

/-! ### The statements of break-glass requests -/

open Interleaving

/-! ### The database -/

/-- The keys of the advisory locks. Two keys of one hash would be one lock. -/
inductive Lock
  | target (userId : String)
  | promote (organizationId : String)
  deriving DecidableEq

/-- `accounts` are the ids of the users. `cuid()` gives the ids of grants in turn, and
`requestedAt` keeps when the request of a thread came in. -/
structure Db where
  clock : Time
  organizations : List String
  accounts : List String
  users : Versions String User
  grants : Versions ℕ Grant
  issued : ℕ
  locks : List (ℕ × Lock)
  requestedAt : ℕ → Option Time

/-- Before the first grant. -/
def Db.initial (clock : Time) (organizations : List String) (users : List User) : Db where
  clock := clock
  organizations := organizations
  accounts := (users.map (·.id)).dedup
  users := ⟨fun id => users.find? (·.id = id), fun _ => none⟩
  grants := ⟨fun _ => none, fun _ => none⟩
  issued := 0
  locks := []
  requestedAt := fun _ => none

def Db.later (db : Db) (elapsed : ℕ) : Db := { db with clock := db.clock + elapsed }

/-- The users that thread `i` sees. -/
def Db.usersOf (db : Db) (i : ℕ) : List User := db.accounts.filterMap (db.users.read i)

/-- The grants that thread `i` sees. -/
def Db.grantsOf (db : Db) (i : ℕ) : List Grant :=
  (List.range db.issued).filterMap (db.grants.read i)

def Db.rollback (db : Db) (i : ℕ) : Db :=
  { db with
    users := db.users.rollback i
    grants := db.grants.rollback i
    locks := db.locks.filter (·.1 ≠ i) }

def Db.commit (db : Db) (i : ℕ) : Db :=
  { db with
    users := db.users.commit i
    grants := db.grants.commit i
    locks := db.locks.filter (·.1 ≠ i) }

/-- What the environment decides: how much time has passed, a random token, and whether the
statement is lost. -/
structure Choice where
  elapsed : ℕ
  token : String
  interrupted : Bool

inductive Stmt : Type → Type
  /-- `Date.now()`, as the request comes in. -/
  | now : Stmt Time
  /-- `crypto.randomBytes(32).toString('base64url')`. -/
  | randomToken : Stmt String
  | findOrganization (id : String) : Stmt (Except Failure (Option String))
  | findUser (selects : User → Bool) : Stmt (Except Failure (Option User))
  | findUsers (selects : User → Bool) : Stmt (Except Failure (List User))
  | findGrant (selects : Grant → Bool) : Stmt (Except Failure (Option Grant))
  | findGrants (selects : Grant → Bool) : Stmt (Except Failure (List Grant))
  /-- `pg_advisory_xact_lock`. -/
  | lock (key : Lock) : Stmt (Except Failure Unit)
  /-- The `updateMany` of `revokeGrantRow`. -/
  | revoke (id : ℕ) (organizationId : String) (now : Time) : Stmt (Except Failure ℕ)
  | create (data : Grant) : Stmt (Except Failure Grant)
  /-- The `updateMany` of a redemption. -/
  | claim (id : ℕ) (now : Time) : Stmt (Except Failure ℕ)
  /-- The `user.update` of a redemption. -/
  | restore (userId : String) (promoted : Bool) : Stmt (Except Failure Unit)
  | commit : Stmt (Except Failure Unit)
  | rollback : Stmt Unit

/-- A statement waits for the transaction that holds the lock or the row that it wants, or that
may yet commit its token. -/
def enabled {β : Type} (i : ℕ) (st : Stmt β) (db : Db) : Bool :=
  match st with
  | .lock key => !db.locks.any fun lock => lock.1 ≠ i && lock.2 = key
  | .revoke id _ _ => !db.grants.locked i id
  | .claim id _ => !db.grants.locked i id
  | .restore userId _ => !db.users.locked i userId
  | .create data => !(List.range db.issued).any fun id =>
      (db.grants.written id).any fun version =>
        version.1 ≠ i && version.2.tokenHash = data.tokenHash
  | _ => true

def revoke (i id : ℕ) (organizationId : String) (now : Time) (db : Db) :
    Except Failure ℕ × Db :=
  match (db.grants.read i id).filter fun grant =>
      grant.organizationId = organizationId && grant.isOpen with
  | none => (.ok 0, db)
  | some grant => (.ok 1, { db with grants := db.grants.write i id (grant.revoked now) })

def claim (i id : ℕ) (now : Time) (db : Db) : Except Failure ℕ × Db :=
  match (db.grants.read i id).filter fun grant => grant.isOpen && now < grant.expiresAt with
  | none => (.ok 0, db)
  | some grant => (.ok 1, { db with grants := db.grants.write i id (grant.redeemed now) })

/-- A new grant; the table checks its reason, and that its token is new. -/
def create (i : ℕ) (data : Grant) (db : Db) : Except Failure Grant × Db :=
  if data.reason.length < 10 || 500 < data.reason.length then (.error .checkViolation, db)
  else if (db.grantsOf i).any (·.tokenHash = data.tokenHash) then (.error .uniqueViolation, db)
  else
    let grant : Grant := { data with id := db.issued }
    (.ok grant, { db with
      grants := db.grants.write i db.issued grant
      issued := db.issued + 1 })

def restore (i : ℕ) (userId : String) (promoted : Bool) (db : Db) : Except Failure Unit × Db :=
  match db.users.read i userId with
  | none => (.error .recordNotFound, db)
  | some user => (.ok (), { db with users := db.users.write i userId (user.restored promoted) })

/-- A statement that is not lost. -/
def run {β : Type} (i : ℕ) (st : Stmt β) (token : String) (db : Db) : β × Db :=
  match st with
  | .now => (db.clock, { db with
      requestedAt := Function.update db.requestedAt i (some db.clock) })
  | .randomToken => (token, db)
  | .findOrganization id => (.ok (db.organizations.find? (· = id)), db)
  | .findUser selects => (.ok ((db.usersOf i).find? selects), db)
  | .findUsers selects => (.ok ((db.usersOf i).filter selects), db)
  | .findGrant selects => (.ok ((db.grantsOf i).find? selects), db)
  | .findGrants selects => (.ok ((db.grantsOf i).filter selects), db)
  | .lock key => (.ok (), { db with locks := (i, key) :: db.locks })
  | .revoke id organizationId now => revoke i id organizationId now db
  | .create data => create i data db
  | .claim id now => claim i id now db
  | .restore userId promoted => restore i userId promoted db
  | .commit => (.ok (), db.commit i)
  | .rollback => ((), db.rollback i)

/-- A statement that is lost does nothing; a commit that is lost is undone. -/
def lost {β : Type} (i : ℕ) (st : Stmt β) (token : String) (db : Db) : β × Db :=
  match st with
  | .now => run i .now token db
  | .randomToken => run i .randomToken token db
  | .commit => (.error .interrupted, db.rollback i)
  | .rollback => ((), db.rollback i)
  | .findOrganization _ => (.error .interrupted, db)
  | .findUser _ => (.error .interrupted, db)
  | .findUsers _ => (.error .interrupted, db)
  | .findGrant _ => (.error .interrupted, db)
  | .findGrants _ => (.error .interrupted, db)
  | .lock _ => (.error .interrupted, db)
  | .revoke _ _ _ => (.error .interrupted, db)
  | .create _ => (.error .interrupted, db)
  | .claim _ _ => (.error .interrupted, db)
  | .restore _ _ => (.error .interrupted, db)

def exec {β : Type} (i : ℕ) (st : Stmt β) (ch : Choice) (db : Db) : β × Db :=
  if ch.interrupted then lost i st ch.token (db.later ch.elapsed)
  else run i st ch.token (db.later ch.elapsed)

abbrev machine : Machine where
  Stmt := Stmt
  Choice := Choice
  State := Db
  enabled := enabled
  exec := exec

/-! ### The service -/

/-- A statement outside a transaction is one of its own. -/
def inTransaction {α : Type} (body : Throws Stmt Failure α) : Throws Stmt Failure α :=
  Throws.transaction .commit .rollback body

/-- The operator must be listed and still an active ADMIN in the database. -/
def assertOperator (environment : Environment) (operatorId : String) :
    Throws Stmt Failure Unit := do
  if operatorId = "" || !(operatorIds environment).contains operatorId then throw notOperator
  else match ← Throws.stmt (.findUser (·.id = operatorId)) with
    | none => throw operatorInactive
    | some operator => if operator.isActiveAdmin then pure () else throw operatorInactive

def activeAdmins (organizationId : String) : Throws Stmt Failure (List User) :=
  Throws.stmt (.findUsers fun user => user.organizationId = organizationId && user.isActiveAdmin)

/-- Whether the organization has an active administrator; asked only `if` it matters. -/
def adminFound (matters : Bool) (organizationId : String) : Throws Stmt Failure Bool :=
  if matters then do
    let admins ← activeAdmins organizationId
    pure !admins.isEmpty
  else pure false

def revokeGrantRow (grantId : ℕ) (organizationId : String) (now : Time) :
    Throws Stmt Failure Bool := do
  let count ← Throws.stmt (.revoke grantId organizationId now)
  pure (count = 1)

/-- What an issue does in its transaction. -/
def issueBody (data : Grant) (now : Time) : Throws Stmt Failure Grant := do
  Throws.stmt (.lock (.target data.targetUserId))
  let superseded ← Throws.stmt (.findGrants fun grant =>
    grant.organizationId = data.organizationId && grant.targetUserId = data.targetUserId &&
      grant.isOpen && now < grant.expiresAt)
  let _ ← superseded.foldlM (fun _ old => do
    let _ ← revokeGrantRow old.id data.organizationId now
    pure ()) ()
  Throws.stmt (.create data)

section

variable (ilike : String → String → Bool) (sha256 : String → String)

/-- The grant that is to be issued to an account; `create` gives it its id. -/
def IssueInput.grant (input : IssueInput) (target : User) (reason token : String) (now : Time) :
    Grant where
  id := 0
  organizationId := input.organizationId
  targetUserId := target.id
  operatorId := input.operatorId
  reason := reason
  promoteToAdmin := input.promoteToAdmin
  tokenHash := sha256 token
  createdAt := now
  expiresAt := now + ttl
  redeemedAt := none
  revokedAt := none

/-- What an issue does once it has found its target. -/
def issueTo (input : IssueInput) (reason : String) (now : Time) (target : User) :
    Throws Stmt Failure (Grant × String) := do
  if !target.isStaff then throw targetForbidden
  else if !target.isAdmin && !input.promoteToAdmin then throw targetNotAdmin
  else do
    let found ← adminFound (!target.isAdmin && input.promoteToAdmin) input.organizationId
    if found then throw adminExists
    else do
      let token ← Throws.read .randomToken
      let grant ← inTransaction (issueBody (input.grant sha256 target reason token now) now)
      pure (grant, token)

def issueBreakGlassGrant (environment : Environment) (input : IssueInput) :
    Throws Stmt Failure (Grant × String) := do
  let now ← Throws.read .now
  match assertEnabled environment with
  | .error failure => throw failure
  | .ok () => match normalizeReason input.reason with
    | .error failure => throw failure
    | .ok reason => do
      assertOperator environment input.operatorId
      match ← Throws.stmt (.findOrganization input.organizationId) with
      | none => throw organizationNotFound
      | some _ =>
        match (← Throws.stmt (.findUsers (input.selects ilike))).take 2 with
        | [target] => issueTo sha256 input reason now target
        | _ => throw targetNotFound

def revokeBreakGlassGrant (environment : Environment) (grantId : ℕ) (operatorId : String) :
    Throws Stmt Failure Unit := do
  let now ← Throws.read .now
  assertOperator environment operatorId
  match ← Throws.stmt (.findGrant (·.id = grantId)) with
  | none => throw grantNotFound
  | some grant =>
    let revoked ← inTransaction (revokeGrantRow grant.id grant.organizationId now)
    if revoked then pure () else throw grantClosed

/-- What a redemption does in its transaction; `false` where there is no outcome. -/
def redeemBody (grant : Grant) (target : User) (promoted : Bool) (now : Time) :
    Throws Stmt Failure Bool := do
  Throws.stmt (.lock (.promote grant.organizationId))
  let found ← adminFound promoted grant.organizationId
  if found then pure false
  else do
    let count ← Throws.stmt (.claim grant.id now)
    if count ≠ 1 then pure false
    else do
      Throws.stmt (.restore target.id promoted)
      pure true

/-- What a redemption does once it has found its grant and its target. -/
def redeemTo (grant : Grant) (now : Time) (target : User) : Throws Stmt Failure Unit := do
  if !target.isStaff then throw invalid
  else if !target.isAdmin && !grant.promoteToAdmin then throw invalid
  else do
    let found ← adminFound (!target.isAdmin) grant.organizationId
    if found then throw invalid
    else do
      let promoted := !target.isAdmin && grant.promoteToAdmin
      let outcome ← inTransaction (redeemBody grant target promoted now)
      if outcome then pure () else throw invalid

def redeemBreakGlassGrant (environment : Environment) (token : String) :
    Throws Stmt Failure Unit := do
  let now ← Throws.read .now
  match assertEnabled environment with
  | .error failure => throw failure
  | .ok () =>
    if Js.length token < 20 || 200 < Js.length token then throw invalid
    else match ← Throws.stmt (.findGrant (·.tokenHash = sha256 token)) with
      | none => throw invalid
      | some grant =>
        if !grant.isOpen || grant.expiresAt ≤ now then throw invalid
        else match ← Throws.stmt (.findUser fun user =>
            user.id = grant.targetUserId && user.organizationId = grant.organizationId) with
          | none => throw invalid
          | some target => redeemTo grant now target

inductive Request
  | issue (environment : Environment) (input : IssueInput)
  | revoke (environment : Environment) (grantId : ℕ) (operatorId : String)
  | redeem (environment : Environment) (token : String)

def Request.program : Request → Prog Stmt Unit
  | .issue environment input =>
    (issueBreakGlassGrant ilike sha256 environment input).run.bind fun _ => .ret ()
  | .revoke environment grantId operatorId =>
    (revokeBreakGlassGrant environment grantId operatorId).run.bind fun _ => .ret ()
  | .redeem environment token =>
    (redeemBreakGlassGrant sha256 environment token).run.bind fun _ => .ret ()

/-- A program that answers a request. -/
def Requested (p : Prog Stmt Unit) : Prop :=
  ∃ request : Request, p = request.program ilike sha256

end

end Ashbi.BreakGlass

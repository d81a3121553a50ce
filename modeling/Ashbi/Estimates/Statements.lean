import Ashbi.Estimates.Estimate
import Ashbi.Interleaving.Program

/-! One estimate, the proposals created from it, and the routes that change it. -/

namespace Ashbi.Estimates

open Interleaving Invoicing

/-! ### Request bodies -/

/-- The body of `POST /`, as validated. -/
structure CreateBody where
  clientId : String
  title : String
  description : Option String
  lineItems : List EstimateInput
  taxRate : Option ℚ
  tax : Option ℚ
  validUntil : Option Time

/-- A status that `PUT` accepts in its body; `EXPIRED` is none of a stored estimate. -/
inductive RequestedStatus
  | stored (status : EstimateStatus)
  | expired
  deriving DecidableEq

/-- The body of `PUT /:id`, as validated. -/
structure UpdateBody where
  title : Option String
  description : Option String
  lineItems : Option (List EstimateInput)
  tax : Option ℚ
  taxRate : Option ℚ
  validUntil : Option (Option Time)
  status : Option RequestedStatus

/-- The row that `POST /` creates; `id` and `viewToken` are the database's defaults. -/
def createEstimate (body : CreateBody) (id viewToken : String) : Estimate :=
  let items := body.lineItems.map storedLineItem
  let totals := computeEstimateTotals items body.taxRate body.tax
  { id := id
    clientId := body.clientId
    title := body.title
    description := body.description
    status := .draft
    lineItems := items
    subtotal := totals.subtotal
    tax := totals.tax
    taxRate := body.taxRate
    total := totals.total
    validUntil := body.validUntil
    viewToken := viewToken
    publicAccessExpiresAt := none
    publicAccessRevokedAt := none
    sentAt := none
    deletedAt := none }

def EstimateStatus.text : EstimateStatus → String
  | .draft => "DRAFT"
  | .sent => "SENT"
  | .approved => "APPROVED"
  | .declined => "DECLINED"
  | .converted => "CONVERTED"

def RequestedStatus.text : RequestedStatus → String
  | .stored status => status.text
  | .expired => "EXPIRED"

/-- The route that makes a status change which `PUT` refuses. -/
def RequestedStatus.via : RequestedStatus → String
  | .stored .sent => "Send the estimate (POST /api/estimates/:id/send)"
  | .stored .approved => "Only the client can approve an estimate, from its link"
  | .stored .declined => "Only the client can decline an estimate, from its link"
  | .stored .converted => "Convert the estimate (POST /api/estimates/:id/convert)"
  | _ => "This status cannot be set directly"

/-- `PUT_STATUS_TRANSITIONS`. -/
def putStatusTransitions : EstimateStatus → List RequestedStatus
  | .draft => [.stored .draft]
  | _ => []

def estimateStatusChangeError (source : EstimateStatus) (target : Option RequestedStatus) :
    Option String :=
  match target with
  | none => none
  | some target =>
    if target = .stored source || (putStatusTransitions source).contains target then none
    else some (s!"An estimate cannot move from {source.text} to {target.text} here. " ++
      s!"{target.via}.")

/-! ### The database -/

/-- An error response. -/
structure Refusal where
  statusCode : ℕ
  error : String
  code : Option String
  deriving DecidableEq

abbrev Reply (α : Type) := Except Refusal α

def internalError : Refusal := ⟨500, "Internal server error", none⟩

/-- What `PUT` writes; `none` leaves a field as it is. -/
structure EstimateData where
  title : Option String
  description : Option String
  lineItems : Option (List EstimateLine)
  subtotal : ℚ
  tax : ℚ
  taxRate : Option ℚ
  total : ℚ
  validUntil : Option (Option Time)

/-- The data of `PUT`, from the row as read. -/
def estimateData (existing : Estimate) (body : UpdateBody) : EstimateData :=
  let lineItems := body.lineItems.map (·.map storedLineItem)
  let items := lineItems.getD existing.lineItems
  let nextTaxRate :=
    if body.taxRate.isSome then body.taxRate
    else if body.tax.isSome then none
    else existing.taxRate
  let totals := computeEstimateTotals items nextTaxRate (some (body.tax.getD existing.tax))
  { title := body.title
    description := body.description
    lineItems := lineItems
    subtotal := totals.subtotal
    tax := totals.tax
    taxRate := nextTaxRate
    total := totals.total
    validUntil := body.validUntil }

def Estimate.write (e : Estimate) (data : EstimateData) : Estimate :=
  { e with
    title := data.title.getD e.title
    description := data.description.orElse fun _ => e.description
    lineItems := data.lineItems.getD e.lineItems
    subtotal := data.subtotal
    tax := data.tax
    taxRate := data.taxRate
    total := data.total
    validUntil := data.validUntil.getD e.validUntil }

/-- `held` is the request whose conversion is not committed yet: nobody else may write the
row, and readers see it as it was. `trash` are the ledger rows that are not restored. -/
structure Db where
  estimate : Estimate
  proposals : List Proposal
  trash : List String
  held : Option ℕ

/-- The status that the client's answer gives. -/
def answerStatus (approve : Bool) : EstimateStatus := if approve then .approved else .declined

/-- `ESTIMATE_CONVERTIBLE_STATUSES`. -/
def estimateConvertibleStatuses : List EstimateStatus := [.approved, .sent]

/-- The database statements. A soft deletion and a restoration are serializable transactions,
and are one statement each; `createProposal` is the last one of its transaction. -/
inductive Stmt : Type → Type
  | now : Stmt Time
  | randomToken : Stmt String
  | findUnique : Stmt (Option Estimate)
  | findByToken (viewToken : String) : Stmt (Option Estimate)
  | writeDraft (existing : Estimate) (body : UpdateBody) : Stmt ℕ
  | claimSend (sentAt : Time) (viewToken : String) (expiresAt : Time) : Stmt ℕ
  | claimAnswer (approve : Bool) : Stmt ℕ
  | reissueLink (viewToken : String) (expiresAt : Time) : Stmt Estimate
  | revokeLink (revokedAt : Time) : Stmt Unit
  | claimConvert : Stmt ℕ
  | createProposal (data : Proposal) : Stmt (Option Proposal)
  | softDelete (deletedAt : Time) : Stmt (Option String)
  | findTrashed (trashId : String) : Stmt Bool
  | restore (trashId : String) : Stmt (Reply Unit)

/-- The clock, random texts and whether a transaction commits. -/
structure Choice where
  time : Time
  text : String
  commits : Bool

def Stmt.writes {β : Type} : Stmt β → Bool
  | .now | .randomToken | .findUnique | .findByToken _ | .findTrashed _ => false
  | _ => true

def Db.active (db : Db) : Option Estimate :=
  if db.estimate.deletedAt.isNone then some db.estimate else none

def exec {β : Type} (i : ℕ) (st : Stmt β) (ch : Choice) (db : Db) : β × Db :=
  match st with
  | .now => (ch.time, db)
  | .randomToken => (ch.text, db)
  | .findUnique => (db.active, db)
  | .findByToken viewToken => (db.active.filter (·.viewToken = viewToken), db)
  | .writeDraft existing body =>
    if db.estimate.status = .draft then
      (1, { db with estimate := db.estimate.write (estimateData existing body) })
    else (0, db)
  | .claimSend sentAt viewToken expiresAt =>
    if db.estimate.status = .draft then
      (1, { db with estimate := { db.estimate with
        status := .sent, sentAt := some sentAt, viewToken := viewToken
        publicAccessExpiresAt := some expiresAt, publicAccessRevokedAt := none } })
    else (0, db)
  | .claimAnswer approve =>
    if db.estimate.status = .sent then
      (1, { db with estimate := { db.estimate with status := answerStatus approve } })
    else (0, db)
  | .reissueLink viewToken expiresAt =>
    let updated := { db.estimate with
      viewToken := viewToken, publicAccessExpiresAt := some expiresAt
      publicAccessRevokedAt := none }
    (updated, { db with estimate := updated })
  | .revokeLink revokedAt =>
    ((), { db with estimate := { db.estimate with publicAccessRevokedAt := some revokedAt } })
  | .claimConvert =>
    if estimateConvertibleStatuses.contains db.estimate.status then
      (1, { db with held := some i })
    else (0, db)
  | .createProposal data =>
    if db.held = some i && ch.commits then
      (some data, { db with
        estimate := { db.estimate with status := .converted }
        proposals := db.proposals ++ [data], held := none })
    else (none, { db with held := none })
  | .softDelete deletedAt =>
    if db.estimate.deletedAt.isNone && ch.commits then
      (some ch.text, { db with
        estimate := { db.estimate with deletedAt := some deletedAt }
        trash := ch.text :: db.trash })
    else (none, db)
  | .findTrashed trashId => (db.trash.contains trashId, db)
  | .restore trashId =>
    if !db.trash.contains trashId then
      (.error ⟨409, "Trashed item is no longer available", none⟩, db)
    else if db.estimate.deletedAt.isNone then
      (.error ⟨404, "Original record no longer exists", none⟩, db)
    else if ch.commits then
      (.ok (), { db with
        estimate := { db.estimate with deletedAt := none }, trash := db.trash.erase trashId })
    else (.error internalError, db)

abbrev machine : Machine where
  Stmt := Stmt
  Choice := Choice
  State := Db
  enabled := fun i st db => !st.writes || db.held.all (· = i)
  exec := fun i st ch db => exec i st ch db

/-! ### Routes -/

def refuse {α : Type} (statusCode : ℕ) (error : String) (code : Option String) :
    Prog Stmt (Reply α) :=
  pure (.error ⟨statusCode, error, code⟩)

def notFound {α : Type} : Prog Stmt (Reply α) := refuse 404 "Estimate not found" none

def putEstimate (body : UpdateBody) : Prog Stmt (Reply (Option Estimate)) := do
  match ← .stmt .findUnique with
  | none => notFound
  | some existing =>
    if existing.status ≠ .draft then refuse 400 "Only draft estimates can be edited" none
    else
      match estimateStatusChangeError existing.status body.status with
      | some statusError => refuse 409 statusError (some "ESTIMATE_STATUS_TRANSITION")
      | none =>
        let written ← .stmt (.writeDraft existing body)
        if written ≠ 1 then
          refuse 409 "This estimate is no longer a draft, so it cannot be edited"
            (some "ESTIMATE_NOT_DRAFT")
        else
          let updated ← .stmt .findUnique
          pure (.ok updated)

def deleteEstimate : Prog Stmt (Reply String) := do
  match ← .stmt .findUnique with
  | none => notFound
  | some _ =>
    let deletedAt ← .stmt .now
    match ← .stmt (.softDelete deletedAt) with
    | none => refuse 500 "ESTIMATE not found" none
    | some trashId => pure (.ok trashId)

/-- `LATEST_TIMEZONE_OFFSET_MS`. -/
def latestTimezoneOffsetMs : ℤ := 12 * 60 * 60 * 1000

def dayMs : ℤ := 24 * 60 * 60 * 1000

/-- A date-only "valid until" counts until its day has ended everywhere. -/
def estimateValidThrough (validUntil : Option Time) : Option Time :=
  validUntil.map fun at' =>
    if at' % dayMs = dayMs - 1 then at' + latestTimezoneOffsetMs else at'

/-- `DEFAULT_ACCESS_DAYS`. -/
def defaultAccessDays : ℤ := 30

/-- The expiry of `createPublicAccessWindow`. -/
def accessExpiry (preferredExpiry : Option Time) (now : Time) : Time :=
  (preferredExpiry.filter (now < ·)).getD (now + defaultAccessDays * dayMs)

/-- Ends with the link that is issued and the row that is emailed. -/
def sendEstimate : Prog Stmt (Reply (String × Option Estimate)) := do
  match ← .stmt .findUnique with
  | none => notFound
  | some estimate =>
    if estimate.status ≠ .draft then refuse 400 "Only draft estimates can be sent" none
    else
      let now ← .stmt .now
      let token ← .stmt .randomToken
      let sentAt ← .stmt .now
      let claimed ← .stmt
        (.claimSend sentAt token (accessExpiry (estimateValidThrough estimate.validUntil) now))
      if claimed ≠ 1 then
        refuse 409 "This estimate was already sent" (some "ESTIMATE_NOT_DRAFT")
      else
        let updated ← .stmt .findUnique
        pure (.ok (token, updated))

/-- `PUBLIC_ESTIMATE_STATUSES`. -/
def publicEstimateStatuses : List EstimateStatus := [.sent, .approved, .declined, .converted]

def publicAccessFailure (estimate : Estimate) (now : Time) : Option Refusal :=
  if estimate.publicAccessRevokedAt.isSome then some ⟨410, "This link has been revoked", none⟩
  else if estimate.publicAccessExpiresAt.all (· ≤ now) then
    some ⟨410, "This link has expired", none⟩
  else none

def publicEstimateFailure (estimate : Option Estimate) (now : Time) : Option Refusal :=
  match estimate with
  | none => some ⟨404, "Estimate not found", none⟩
  | some estimate =>
    if !publicEstimateStatuses.contains estimate.status then
      some ⟨404, "Estimate not found", none⟩
    else publicAccessFailure estimate now

/-- The client's answer, with the link that was sent. -/
def answerEstimate (viewToken : String) (approve : Bool) :
    Prog Stmt (Reply Estimate) := do
  let found ← .stmt (.findByToken viewToken)
  let openedAt ← .stmt .now
  match publicEstimateFailure found openedAt, found with
  | some failure, _ => pure (.error failure)
  | none, none => notFound
  | none, some estimate =>
    if estimate.status ≠ .sent then
      refuse 400 "Estimate is not in a state that can be responded to" none
    else
      let now ← .stmt .now
      if approve && (estimateValidThrough estimate.validUntil).any (· < now) then
        refuse 410 "This estimate has expired. Contact us for an updated estimate."
          (some "ESTIMATE_EXPIRED")
      else
        let claimed ← .stmt (.claimAnswer approve)
        if claimed ≠ 1 then refuse 409 "This estimate was already answered" none
        else pure (.ok { estimate with status := answerStatus approve })

def reissueLink : Prog Stmt (Reply Estimate) := do
  match ← .stmt .findUnique with
  | none => notFound
  | some existing =>
    if existing.status ≠ .sent then
      refuse 400 "Only a sent estimate awaiting an answer can get a new link" none
    else
      let now ← .stmt .now
      let token ← .stmt .randomToken
      let updated ← .stmt
        (.reissueLink token (accessExpiry (estimateValidThrough existing.validUntil) now))
      pure (.ok updated)

def revokeLink : Prog Stmt (Reply Time) := do
  match ← .stmt .findUnique with
  | none => notFound
  | some existing =>
    let now ← .stmt .now
    let revokedAt := existing.publicAccessRevokedAt.getD now
    .stmt (.revokeLink revokedAt)
    pure (.ok revokedAt)

def convertEstimate (userId : String) : Prog Stmt (Reply Proposal) := do
  match ← .stmt .findUnique with
  | none => notFound
  | some estimate =>
    if !estimateConvertibleStatuses.contains estimate.status then
      refuse 400 "Only approved or sent estimates can be converted" none
    else
      let now ← .stmt .now
      let data := proposalDataFromEstimate estimate userId now
      let claimed ← .stmt .claimConvert
      if claimed ≠ 1 then
        refuse 409 "This estimate was already converted or answered"
          (some "ESTIMATE_STATUS_CHANGED")
      else
        match ← .stmt (.createProposal data) with
        | none => pure (.error internalError)
        | some proposal => pure (.ok proposal)

def restoreTrashedItem (trashId : String) : Prog Stmt (Reply Unit) := do
  if !(← .stmt (.findTrashed trashId)) then refuse 404 "Trashed item not found" none
  else .stmt (.restore trashId)

/-- The requests about one estimate. -/
inductive Deployed : Prog Stmt Unit → Prop
  | put (body) : Deployed ((putEstimate body).bind fun _ => .ret ())
  | delete : Deployed (deleteEstimate.bind fun _ => .ret ())
  | send : Deployed (sendEstimate.bind fun _ => .ret ())
  | answer (viewToken approve) : Deployed ((answerEstimate viewToken approve).bind fun _ => .ret ())
  | reissue : Deployed (reissueLink.bind fun _ => .ret ())
  | revoke : Deployed (revokeLink.bind fun _ => .ret ())
  | convert (userId) : Deployed ((convertEstimate userId).bind fun _ => .ret ())
  | restore (trashId) : Deployed ((restoreTrashedItem trashId).bind fun _ => .ret ())

/-- The database after `POST /`. -/
def Db.created (body : CreateBody) (id viewToken : String) : Db :=
  ⟨createEstimate body id viewToken, [], [], none⟩

end Ashbi.Estimates

import Ashbi.Interleaving.Throws
import Ashbi.Js
import Ashbi.Keyed.Rows

/-! Escalation of threads that wait for a response: the rows, the claims and the checks. -/

namespace Ashbi.Escalation

open Interleaving

inductive ThreadStatus
  | draft | opened | awaitingResponse | resolved | snoozed
  deriving DecidableEq

inductive Priority
  | critical | high | normal | low
  deriving DecidableEq

inductive NotificationType
  | slaWarning | escalation | slaBreach
  deriving DecidableEq

/-- The columns of a thread that the checks read and write. -/
structure Thread (ThreadId : Type) where
  id : ThreadId
  subject : String
  status : ThreadStatus
  priority : Priority
  assignedToId : Option String
  lastActivityAt : Time
  slaBreached : Bool
  lastEscalationLevel : ℕ
  lastEscalatedAt : Option Time

structure Notification (ThreadId : Type) where
  userId : String
  type : NotificationType
  title : String
  message : String
  threadId : ThreadId
  assigneeId : Option String
  priority : Option Priority

structure State (ThreadId : Type) where
  clock : Time
  threads : List (Thread ThreadId)
  /-- The active administrators. -/
  admins : List String
  notifications : List (Notification ThreadId)

/-- `HOUR_MS` -/
def hourMs : Time := 3600000

def hours (count : ℕ) : Time := count * hourMs

/-- `ESCALATION_LEVELS` -/
def slaWarningLevel : ℕ := 1
def escalationLevel : ℕ := 2

section Checks

variable {ThreadId : Type} (slaDefaults : Priority → ℕ)

/-- The level already notified in the current activity cycle. -/
def currentEscalationLevel (thread : Thread ThreadId) : ℕ :=
  match thread.lastEscalatedAt with
  | none => 0
  | some escalatedAt =>
    if escalatedAt < thread.lastActivityAt then 0 else thread.lastEscalationLevel

def sinceActivity (thread : Thread ThreadId) (now : Time) : Time := now - thread.lastActivityAt

def slaHours (priority : Priority) : ℕ :=
  if slaDefaults priority = 0 then 24 else slaDefaults priority

def wantsWarning (thread : Thread ThreadId) (now : Time) : Bool :=
  hours 4 ≤ sinceActivity thread now && (sinceActivity thread now < hours 8 &&
    (thread.assignedToId.isSome && currentEscalationLevel thread < slaWarningLevel))

def wantsEscalation (thread : Thread ThreadId) (now : Time) : Bool :=
  hours 8 ≤ sinceActivity thread now && currentEscalationLevel thread < escalationLevel

def wantsBreach (thread : Thread ThreadId) (now : Time) : Bool :=
  hours (slaHours slaDefaults thread.priority) ≤ sinceActivity thread now && !thread.slaBreached

/-- `Math.round` of the hours. -/
def roundedHours (thread : Thread ThreadId) (now : Time) : ℤ :=
  (2 * sinceActivity thread now + hourMs) / (2 * hourMs)

def warning (thread : Thread ThreadId) (now : Time) (userId : String) : Notification ThreadId where
  userId := userId
  type := .slaWarning
  title := "Response needed soon"
  message := "Thread \"" ++ thread.subject ++ "\" needs attention (" ++
    toString (roundedHours thread now) ++ "h without response)"
  threadId := thread.id
  assigneeId := none
  priority := none

def escalation (thread : Thread ThreadId) (now : Time) (userId : String) :
    Notification ThreadId where
  userId := userId
  type := .escalation
  title := "Thread escalation"
  message := "Thread \"" ++ thread.subject ++ "\" has had no response for " ++
    toString (roundedHours thread now) ++ " hours"
  threadId := thread.id
  assigneeId := thread.assignedToId
  priority := none

def breach (thread : Thread ThreadId) (now : Time) (userId : String) : Notification ThreadId where
  userId := userId
  type := .slaBreach
  title := "SLA BREACH"
  message := "Thread \"" ++ thread.subject ++ "\" has breached SLA (" ++
    toString (roundedHours thread now) ++ "h without response)"
  threadId := thread.id
  assigneeId := none
  priority := some thread.priority

end Checks

/-! ### The transaction of a check -/

inductive Failure
  | fanOut

section Claims

variable {ThreadId : Type} [DecidableEq ThreadId]

def State.thread (s : State ThreadId) (id : ThreadId) : Option (Thread ThreadId) :=
  Keyed.find (·.id) s.threads id

def Thread.escalated (thread : Thread ThreadId) (level : ℕ) (now : Time) : Thread ThreadId :=
  { thread with lastEscalationLevel := level, lastEscalatedAt := some now }

def Thread.breached (thread : Thread ThreadId) : Thread ThreadId :=
  { thread with slaBreached := true }

/-- Writes the rows that a condition selects, and counts them. -/
def State.updateMany (s : State ThreadId) (selects : Thread ThreadId → Bool)
    (write : Thread ThreadId → Thread ThreadId) : ℕ × State ThreadId :=
  (s.threads.countP selects,
    { s with threads := s.threads.map fun row => if selects row then write row else row })

/-- Whether the level was recorded: not where another check claimed it before, or where the marker
is not the one that was read. -/
def claimEscalationLevel (s : State ThreadId) (thread : Thread ThreadId) (level : ℕ) (now : Time) :
    Bool × State ThreadId :=
  let alreadyClaimed := currentEscalationLevel thread
  if level ≤ alreadyClaimed then (false, s)
  else
    let (count, s) := s.updateMany
      (fun row => row.id = thread.id && (row.lastEscalatedAt = thread.lastEscalatedAt &&
        (alreadyClaimed = 0 || row.lastEscalationLevel < level)))
      (·.escalated level now)
    (count = 1, s)

def claimBreach (s : State ThreadId) (thread : Thread ThreadId) : Bool × State ThreadId :=
  let (count, s) := s.updateMany (fun row => row.id = thread.id && !row.slaBreached) (·.breached)
  (count = 1, s)

def createManyAndReturn (s : State ThreadId) (pending : List (Notification ThreadId))
    (fails : Bool) : Except Failure (List (Notification ThreadId) × State ThreadId) :=
  if fails then .error .fanOut
  else .ok (pending, { s with notifications := s.notifications ++ pending })

/-- The claims of a check and what it sends. -/
def fanOut (slaDefaults : Priority → ℕ) (s : State ThreadId) (thread : Thread ThreadId)
    (admins : List String) (now : Time) (fails : Bool) :
    Except Failure (List (Notification ThreadId) × State ThreadId) :=
  let canNotifyAdmins := !admins.isEmpty
  let (warned, s) :=
    if wantsWarning thread now then claimEscalationLevel s thread slaWarningLevel now
    else (false, s)
  let (escalated, s) :=
    if wantsEscalation thread now && canNotifyAdmins then
      claimEscalationLevel s thread escalationLevel now
    else (false, s)
  let (breached, s) :=
    if wantsBreach slaDefaults thread now && canNotifyAdmins then claimBreach s thread
    else (false, s)
  let pending :=
    (if warned then thread.assignedToId.toList.map (warning thread now) else []) ++
    (if escalated then admins.map (escalation thread now) else []) ++
    (if breached then admins.map (breach thread now) else [])
  if pending.isEmpty then .ok ([], s) else createManyAndReturn s pending fails

/-- A transaction that throws is rolled back. -/
def transaction {α : Type} (body : State ThreadId → Except Failure (α × State ThreadId))
    (s : State ThreadId) : Except Failure α × State ThreadId :=
  match body s with
  | .error failure => (.error failure, s)
  | .ok (a, s) => (.ok a, s)

end Claims

section Machine

variable {ThreadId : Type} [DecidableEq ThreadId]

/-- The statements of the checks, and what requests and mail do to a thread. `message` and
`respond` set the activity, `ingest` moves it only forward; `respond` ends the cycle. -/
inductive Stmt (ThreadId : Type) : Type → Type
  | now : Stmt ThreadId Time
  | findThread (id : ThreadId) : Stmt ThreadId (Option (Thread ThreadId))
  | findOverdue : Stmt ThreadId (List (Thread ThreadId))
  | activeAdmins : Stmt ThreadId (List String)
  | fanOut (thread : Thread ThreadId) (admins : List String) (now : Time) :
      Stmt ThreadId (Except Failure (List (Notification ThreadId)))
  | message (id : ThreadId) (now : Time) (status : ThreadStatus) : Stmt ThreadId Unit
  | ingest (id : ThreadId) (receivedAt : Time) (urgent : Bool) : Stmt ThreadId Unit
  | respond (id : ThreadId) (now : Time) (status : ThreadStatus) : Stmt ThreadId Unit
  | edit (id : ThreadId) (status : ThreadStatus) (priority : Priority)
      (assignedToId : Option String) : Stmt ThreadId Unit
  | create (thread : Thread ThreadId) : Stmt ThreadId Unit
  | setAdmins (admins : List String) : Stmt ThreadId Unit

/-- The time that passes before a statement, and whether its fan-out fails. -/
structure Choice where
  elapsed : ℕ
  fails : Bool

def State.later (s : State ThreadId) (elapsed : ℕ) : State ThreadId :=
  { s with clock := s.clock + elapsed }

/-- Writes one row. -/
def State.update (s : State ThreadId) (id : ThreadId)
    (write : Thread ThreadId → Thread ThreadId) : State ThreadId :=
  { s with threads := s.threads.map fun row => if row.id = id then write row else row }

/-- A new row starts its first cycle. -/
def State.insert (s : State ThreadId) (thread : Thread ThreadId) : State ThreadId :=
  if (s.thread thread.id).isSome then s
  else
    { s with
      threads := s.threads ++
        [{ thread with slaBreached := false, lastEscalationLevel := 0, lastEscalatedAt := none }] }

def execAt (slaDefaults : Priority → ℕ) {β : Type} (st : Stmt ThreadId β) (fails : Bool)
    (s : State ThreadId) : β × State ThreadId :=
  match st with
  | .now => (s.clock, s)
  | .findThread id => (s.thread id, s)
  | .findOverdue =>
    (s.threads.filter fun thread => thread.status = .awaitingResponse && !thread.slaBreached, s)
  | .activeAdmins => (s.admins, s)
  | .fanOut thread admins now =>
    transaction (fun s => fanOut slaDefaults s thread admins now fails) s
  | .message id now status =>
    ((), s.update id ({ · with lastActivityAt := now, status := status }))
  | .ingest id receivedAt urgent =>
    ((), s.update id fun thread =>
      { thread with
        lastActivityAt := max thread.lastActivityAt receivedAt
        priority := if urgent then .high else thread.priority })
  | .respond id now status =>
    ((), s.update id ({ · with
      status := status, lastActivityAt := now, lastEscalationLevel := 0, lastEscalatedAt := none }))
  | .edit id status priority assignedToId =>
    ((), s.update id ({ · with
      status := status, priority := priority, assignedToId := assignedToId }))
  | .create thread => ((), s.insert thread)
  | .setAdmins admins => ((), { s with admins := admins })

abbrev machine (ThreadId : Type) [DecidableEq ThreadId] (slaDefaults : Priority → ℕ) :
    Machine where
  Stmt := Stmt ThreadId
  Choice := Choice
  State := State ThreadId
  enabled := fun _ _ _ => true
  exec := fun _ st choice s => execAt slaDefaults st choice.fails (s.later choice.elapsed)

/-! ### The checks -/

inductive Checked
  | skipped
  | checked (escalated : Bool) (notifications : ℕ) (hoursSinceActivity : ℤ)

/-- The administrators are read only for what they are told. -/
def adminsFor (wanted : Bool) : Throws (Stmt ThreadId) Failure (List String) :=
  if wanted then Throws.read .activeAdmins else pure []

def checkFound (slaDefaults : Priority → ℕ) (found : Option (Thread ThreadId)) (now : Time) :
    Throws (Stmt ThreadId) Failure Checked :=
  match found with
  | none => pure .skipped
  | some thread =>
    if thread.status = .resolved then pure .skipped
    else if !wantsWarning thread now && !wantsEscalation thread now &&
        !wantsBreach slaDefaults thread now then
      pure (.checked false 0 (roundedHours thread now))
    else do
      let admins ← adminsFor (wantsEscalation thread now || wantsBreach slaDefaults thread now)
      let notifications ← Throws.stmt (.fanOut thread admins now)
      pure (.checked (0 < notifications.length) notifications.length (roundedHours thread now))

def checkThreadEscalation (slaDefaults : Priority → ℕ) (threadId : ThreadId)
    (existingThread : Option (Thread ThreadId)) (now : Time) :
    Throws (Stmt ThreadId) Failure Checked :=
  match existingThread with
  | some thread => checkFound slaDefaults (some thread) now
  | none => do
    let found ← Throws.read (.findThread threadId)
    checkFound slaDefaults found now

/-- The job of one thread. -/
def checkThread (slaDefaults : Priority → ℕ) (threadId : ThreadId) :
    Throws (Stmt ThreadId) Failure Checked := do
  let now ← Throws.read .now
  checkThreadEscalation slaDefaults threadId none now

structure Swept where
  escalated : ℕ
  failed : ℕ

/-- A failing thread does not stop the sweep. -/
def sweepThread (slaDefaults : Priority → ℕ) (now : Time) (totals : Swept)
    (thread : Thread ThreadId) : Throws (Stmt ThreadId) Failure Swept :=
  tryCatch (do
    match ← checkThreadEscalation slaDefaults thread.id (some thread) now with
    | .checked true _ _ => pure { totals with escalated := totals.escalated + 1 }
    | _ => pure totals)
  fun _ => pure { totals with failed := totals.failed + 1 }

def checkAllEscalations (slaDefaults : Priority → ℕ) :
    Throws (Stmt ThreadId) Failure (ℕ × Swept) := do
  let now ← Throws.read .now
  let threads ← Throws.read .findOverdue
  let totals ← threads.foldlM (sweepThread slaDefaults now) ⟨0, 0⟩
  pure (threads.length, totals)

/-- What runs: the jobs, and the requests and mail of any thread. -/
inductive Deployed (slaDefaults : Priority → ℕ) : Prog (Stmt ThreadId) Unit → Prop
  | check (threadId) :
      Deployed slaDefaults ((checkThread slaDefaults threadId).run.bind fun _ => .ret ())
  | sweep : Deployed slaDefaults ((checkAllEscalations slaDefaults).run.bind fun _ => .ret ())
  | message (id) (status) :
      Deployed slaDefaults ((Prog.stmt .now).bind fun now => .stmt (.message id now status))
  | ingest (id) (receivedAt) (urgent) : Deployed slaDefaults (.stmt (.ingest id receivedAt urgent))
  | respond (id) (status) :
      Deployed slaDefaults ((Prog.stmt .now).bind fun now => .stmt (.respond id now status))
  | edit (id) (status) (priority) (assignedToId) :
      Deployed slaDefaults (.stmt (.edit id status priority assignedToId))
  | create (thread) : Deployed slaDefaults (.stmt (.create thread))
  | setAdmins (admins) : Deployed slaDefaults (.stmt (.setAdmins admins))

end Machine

end Ashbi.Escalation

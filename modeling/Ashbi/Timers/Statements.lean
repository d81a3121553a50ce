import Ashbi.Interleaving.Transaction
import Ashbi.Interleaving.Versions
import Ashbi.Js

/-! The timers of one user, the time entries they leave, and the requests on them. -/

namespace Ashbi.Timers

open Interleaving

/-- A row of `time_sessions`. -/
structure Session where
  id : ℕ
  projectId : String
  taskId : Option String
  description : Option String
  startTime : Time
  endTime : Option Time
  duration : ℤ
  billable : Bool
  isRunning : Bool
  deriving DecidableEq

/-- A row of `time_entries` as it is created. -/
structure TimeEntry where
  projectId : String
  taskId : Option String
  description : Option String
  duration : ℤ
  date : Time
  billable : Bool
  source : String
  timeSessionId : Option ℕ
  deriving DecidableEq

/-- `MAX_TIME_ENTRY_MINUTES`. -/
def maxTimeEntryMinutes : ℤ := 1440

/-- The greatest `INTEGER`. -/
def maxInteger : ℤ := 2147483647

/-- `Math.round(elapsedMs / 60000)`. -/
def roundMinutes (elapsedMs : ℤ) : ℤ := (elapsedMs + 30000) / 60000

/-- Under a full minute records nothing. -/
def sessionDuration (elapsedMs : ℤ) : ℤ :=
  if 60000 ≤ elapsedMs then max 1 (roundMinutes elapsedMs) else 0

def Session.stop (session : Session) (endTime : Time) (duration : ℤ) : Session :=
  { session with endTime := some endTime, duration := duration, isRunning := false }

/-- The entry of a session that has taken `duration` minutes. -/
def Session.timeEntry (session : Session) (duration : ℤ) : TimeEntry where
  projectId := session.projectId
  taskId := session.taskId
  description := session.description
  duration := min duration maxTimeEntryMinutes
  date := session.startTime
  billable := session.billable
  source := "TIMER"
  timeSessionId := some session.id

/-- What a request is answered with when it throws. -/
inductive Failure
  | timerError (statusCode : ℕ) (code message : String)
  | uniqueViolation
  | foreignKeyViolation
  | integerOutOfRange
  | interrupted
  deriving DecidableEq

/-! ### The database -/

/-- `entries` is every entry that was ever committed, as it was created, and `recorded` those of
open transactions. `cuid()` gives the ids in turn, and `deleted` are the sessions that are gone. -/
structure Db where
  sessions : Versions ℕ Session
  issued : ℕ
  entries : List TimeEntry
  recorded : List (ℕ × TimeEntry)
  deleted : List Session

def Db.empty : Db := ⟨⟨fun _ => none, fun _ => none⟩, 0, [], [], []⟩

def Db.recordedBy (db : Db) (i : ℕ) : List TimeEntry :=
  (db.recorded.filter (·.1 = i)).map (·.2)

/-- The session an entry is linked with; `ON DELETE SET NULL`. -/
def Db.link (db : Db) (entry : TimeEntry) : Option ℕ :=
  entry.timeSessionId.filter fun id => (db.sessions.rows id).isSome

/-- The running sessions that thread `i` sees. -/
def Db.running (db : Db) (i : ℕ) : List Session :=
  ((List.range db.issued).filterMap (db.sessions.read i)).filter (·.isRunning)

/-- Another transaction has a running session, or stops one. -/
def Db.contended (db : Db) (i : ℕ) : Bool :=
  (List.range db.issued).any fun id => db.sessions.locked i id &&
    ((db.sessions.rows id).any (·.isRunning) || (db.sessions.written id).any (·.2.isRunning))

def Db.rollback (db : Db) (i : ℕ) : Db :=
  { db with
    sessions := db.sessions.rollback i
    recorded := db.recorded.filter (·.1 ≠ i) }

def Db.commit (db : Db) (i : ℕ) : Db :=
  { db with
    sessions := db.sessions.commit i
    entries := db.entries ++ db.recordedBy i
    recorded := db.recorded.filter (·.1 ≠ i) }

/-- What the environment decides: the clock, and whether the statement is lost. -/
structure Choice where
  now : Time
  interrupted : Bool

inductive Stmt : Type → Type
  /-- `new Date()`. -/
  | now : Stmt Time
  | findRunning : Stmt (Except Failure (List Session))
  | find (id : ℕ) : Stmt (Except Failure (Option Session))
  /-- The `updateMany` of `closeSession`. -/
  | close (id : ℕ) (endTime : Time) (duration : ℤ) : Stmt (Except Failure ℕ)
  | createEntry (entry : TimeEntry) : Stmt (Except Failure TimeEntry)
  | createSession (projectId : String) (taskId description : Option String) (startTime : Time) :
      Stmt (Except Failure Session)
  /-- The `deleteMany` of `deleteTimeEntry`, a transaction of its own. -/
  | delete (id : ℕ) : Stmt (Except Failure ℕ)
  | commit : Stmt (Except Failure Unit)
  | rollback : Stmt Unit

/-- A statement waits for the transaction that holds a row it wants, or that may yet hold or
give up a value of a unique index. -/
def enabled {β : Type} (i : ℕ) (st : Stmt β) (db : Db) : Bool :=
  match st with
  | .close id _ _ => !db.sessions.locked i id
  | .createEntry entry =>
    !db.recorded.any fun row => row.1 ≠ i && row.2.timeSessionId = entry.timeSessionId
  | .createSession _ _ _ _ => !db.contended i
  | .delete id => (db.sessions.written id).isNone
  | _ => true

def close (i id : ℕ) (endTime : Time) (duration : ℤ) (db : Db) : Except Failure ℕ × Db :=
  match (db.sessions.read i id).filter (·.isRunning) with
  | none => (.ok 0, db)
  | some session =>
    if maxInteger < duration then (.error .integerOutOfRange, db)
    else (.ok 1, { db with sessions := db.sessions.write i id (session.stop endTime duration) })

def createEntry (i : ℕ) (entry : TimeEntry) (db : Db) : Except Failure TimeEntry × Db :=
  if entry.timeSessionId.any fun id => (db.sessions.read i id).isNone then
    (.error .foreignKeyViolation, db)
  else if entry.timeSessionId.isSome && (db.entries.any (db.link · = entry.timeSessionId) ||
      (db.recordedBy i).any (·.timeSessionId = entry.timeSessionId)) then
    (.error .uniqueViolation, db)
  else (.ok entry, { db with recorded := db.recorded ++ [(i, entry)] })

/-- A new timer; the unique index admits one running session. -/
def createSession (i : ℕ) (projectId : String) (taskId description : Option String)
    (startTime : Time) (db : Db) : Except Failure Session × Db :=
  if !(db.running i).isEmpty then (.error .uniqueViolation, db)
  else
    let session : Session :=
      { id := db.issued
        projectId := projectId
        taskId := taskId
        description := description
        startTime := startTime
        endTime := none
        duration := 0
        billable := true
        isRunning := true }
    (.ok session, { db with
      sessions := db.sessions.write i db.issued session
      issued := db.issued + 1 })

def delete (id : ℕ) (db : Db) : Except Failure ℕ × Db :=
  match (db.sessions.rows id).filter (!·.isRunning) with
  | none => (.ok 0, db)
  | some session =>
    (.ok 1, { db with
      sessions := { db.sessions with rows := Function.update db.sessions.rows id none }
      deleted := db.deleted ++ [session] })

/-- An interrupted statement does nothing; an interrupted commit is undone. -/
def exec {β : Type} (i : ℕ) (st : Stmt β) (ch : Choice) (db : Db) : β × Db :=
  match st, ch.interrupted with
  | .now, _ => (ch.now, db)
  | .findRunning, false => (.ok (db.running i), db)
  | .find id, false => (.ok (db.sessions.read i id), db)
  | .close id endTime duration, false => close i id endTime duration db
  | .createEntry entry, false => createEntry i entry db
  | .createSession projectId taskId description startTime, false =>
    createSession i projectId taskId description startTime db
  | .delete id, false => delete id db
  | .commit, false => (.ok (), db.commit i)
  | .commit, true => (.error .interrupted, db.rollback i)
  | .rollback, _ => ((), db.rollback i)
  | .findRunning, true => (.error .interrupted, db)
  | .find _, true => (.error .interrupted, db)
  | .close _ _ _, true => (.error .interrupted, db)
  | .createEntry _, true => (.error .interrupted, db)
  | .createSession _ _ _ _, true => (.error .interrupted, db)
  | .delete _, true => (.error .interrupted, db)

abbrev machine : Machine where
  Stmt := Stmt
  Choice := Choice
  State := Db
  enabled := enabled
  exec := exec

/-! ### The service -/

def inTransaction {α : Type} (body : Throws Stmt Failure α) : Throws Stmt Failure α :=
  Throws.transaction .commit .rollback body

def timerNotFound : Failure := .timerError 404 "TIMER_NOT_FOUND" "Timer not found"

def timerNotRunning : Failure := .timerError 409 "TIMER_NOT_RUNNING" "This timer is already stopped"

def timerRunning : Failure :=
  .timerError 409 "TIMER_RUNNING" "Cannot delete a running timer — stop it first"

def timerAlreadyRunning : Failure := .timerError 409 "TIMER_ALREADY_RUNNING"
  "Another timer was started at the same moment. Refresh to see the running timer."

/-- `none`: the session was no longer running. -/
def closeSession (session : Session) (endTime : Time) :
    Throws Stmt Failure (Option (ℤ × Option TimeEntry)) := do
  let elapsedMs := endTime - session.startTime
  let duration := sessionDuration elapsedMs
  let count ← Throws.stmt (.close session.id endTime duration)
  if count ≠ 1 then pure none
  else if 60000 ≤ elapsedMs then do
    let timeEntry ← Throws.stmt (.createEntry (session.timeEntry duration))
    pure (some (duration, some timeEntry))
  else pure (some (duration, none))

/-- What a start does in its transaction. -/
def startBody (projectId : String) (taskId description : Option String) :
    Throws Stmt Failure Session := do
  let running ← Throws.stmt .findRunning
  let endTime ← Throws.read .now
  let _ ← running.foldlM (fun _ session => do
    let _ ← closeSession session endTime
    pure ()) ()
  let startTime ← Throws.read .now
  Throws.stmt (.createSession projectId taskId description startTime)

def startTimer (projectId : String) (taskId description : Option String) :
    Throws Stmt Failure Session :=
  tryCatch (inTransaction (startBody projectId taskId description)) fun err =>
    if err = .uniqueViolation then throw timerAlreadyRunning else throw err

def stopBody (sessionId : ℕ) :
    Throws Stmt Failure (Option Session × Option TimeEntry) := do
  match ← Throws.stmt (.find sessionId) with
  | none => throw timerNotFound
  | some session =>
    if !session.isRunning then throw timerNotRunning
    else
      let endTime ← Throws.read .now
      match ← closeSession session endTime with
      | none => throw timerNotRunning
      | some closed =>
        let stopped ← Throws.stmt (.find sessionId)
        pure (stopped, closed.2)

def stopTimer (sessionId : ℕ) : Throws Stmt Failure (Option Session × Option TimeEntry) :=
  inTransaction (stopBody sessionId)

def stopAllBody : Throws Stmt Failure ℕ := do
  let running ← Throws.stmt .findRunning
  let endTime ← Throws.read .now
  running.foldlM (fun stopped session => do
    let closed ← closeSession session endTime
    pure (if closed.isSome then stopped + 1 else stopped)) 0

def stopAllRunningTimers : Throws Stmt Failure ℕ := inTransaction stopAllBody

/-- Two statements without a transaction around them. -/
def deleteTimeEntry (sessionId : ℕ) : Throws Stmt Failure Unit := do
  match ← Throws.stmt (.find sessionId) with
  | none => throw timerNotFound
  | some session =>
    if session.isRunning then throw timerRunning
    else
      let count ← Throws.stmt (.delete sessionId)
      if count ≠ 1 then throw timerNotFound else pure ()

inductive Request
  | start (projectId : String) (taskId description : Option String)
  | stop (sessionId : ℕ)
  | stopAll
  | delete (sessionId : ℕ)

def Request.program : Request → Prog Stmt Unit
  | .start projectId taskId description =>
    (startTimer projectId taskId description).run.bind fun _ => .ret ()
  | .stop sessionId => (stopTimer sessionId).run.bind fun _ => .ret ()
  | .stopAll => stopAllRunningTimers.run.bind fun _ => .ret ()
  | .delete sessionId => (deleteTimeEntry sessionId).run.bind fun _ => .ret ()

/-- A program that answers a request. -/
def Requested (p : Prog Stmt Unit) : Prop := ∃ request : Request, p = request.program

end Ashbi.Timers

import Ashbi.Timers.Invariant

/-! What a thread knows of the timers, and what the others leave alone. -/

namespace Ashbi.Timers

open Interleaving

variable {db : Db} {i j id : ℕ} {session : Session}

/-! ### What a thread knows -/

/-- A committed or uncommitted version of a session. -/
def Db.Version (db : Db) (id : ℕ) (session : Session) : Prop :=
  db.sessions.rows id = some session ∨ ∃ j, db.sessions.written id = some (j, session)

/-- A session that was read once; of its row only the end can have changed. -/
structure Db.Knows (db : Db) (session : Session) : Prop where
  issued : session.id < db.issued
  core : ∀ s, db.Version session.id s → s.core = session.core

theorem version_of_read {s : Session} (h : db.sessions.read i id = some s) : db.Version id s := by
  cases hmine : db.sessions.mine i id with
  | some r =>
    rw [Versions.read, hmine, Option.some_or] at h
    obtain rfl := Option.some.inj h
    exact .inr ⟨i, Versions.mine_eq_some.mp hmine⟩
  | none =>
    rw [Versions.read, hmine, Option.none_or] at h
    exact .inl h

theorem Db.Inv.version_fits (h : db.Inv) {s : Session} (hs : db.Version id s) :
    s.Fits id ∧ id < db.issued := by
  have hbelow : db.sessions.rows id ≠ none ∨ db.sessions.written id ≠ none → id < db.issued := by
    intro hne
    by_contra hle
    obtain ⟨hrow, hwritten, -⟩ := h.fresh id (Nat.le_of_not_lt hle)
    exact hne.elim (· hrow) (· hwritten)
  rcases hs with hrow | ⟨j, hw⟩
  · exact ⟨h.fits id s hrow, hbelow (.inl (by simp [hrow]))⟩
  · exact ⟨h.written_fits id j s hw, hbelow (.inr (by simp [hw]))⟩

theorem Db.Inv.version_core (h : db.Inv) {s s' : Session} (hs : db.Version id s)
    (hs' : db.Version id s') : s.core = s'.core := by
  rcases hs with hrow | ⟨j, hw⟩
  · rcases hs' with hrow' | ⟨j', hw'⟩
    · rw [hrow] at hrow'
      rw [Option.some.inj hrow']
    · exact ((h.unrecorded id j' s' hw').2 s hrow).2
  · rcases hs' with hrow' | ⟨j', hw'⟩
    · exact ((h.unrecorded id j s hw).2 s' hrow').2.symm
    · rw [hw] at hw'
      obtain ⟨-, rfl⟩ := Prod.ext_iff.mp (Option.some.inj hw')
      rfl

/-- A session that a thread reads is one that it knows. -/
theorem Db.Inv.knows (h : db.Inv) (hread : db.sessions.read i id = some session) :
    session.id = id ∧ db.Knows session := by
  have hv := version_of_read hread
  obtain ⟨hfits, hid⟩ := h.version_fits hv
  obtain rfl := hfits.id_eq
  exact ⟨rfl, hid, fun s hs => h.version_core hs hv⟩

theorem Db.Knows.mono {db' : Db} (h : db.Knows session) (hle : db.issued ≤ db'.issued)
    (hv : ∀ s, db'.Version session.id s → ∃ r, db.Version session.id r ∧ s.core = r.core) :
    db'.Knows session := by
  refine ⟨h.issued.trans_le hle, fun s hs => ?_⟩
  obtain ⟨r, hr, hcore⟩ := hv s hs
  exact hcore.trans (h.core r hr)

theorem Db.Knows.rollback (h : db.Knows session) : (db.rollback i).Knows session := by
  refine h.mono (Nat.le_refl _) fun s hs => ⟨s, ?_, rfl⟩
  rcases hs with hrow | ⟨j, hw⟩
  · exact .inl hrow
  · exact .inr ⟨j, (written_rollback hw).1⟩

theorem Db.Knows.commit (h : db.Knows session) : (db.commit i).Knows session := by
  refine h.mono (Nat.le_refl _) fun s hs => ⟨s, ?_, rfl⟩
  rcases hs with hrow | ⟨j, hw⟩
  · rcases rows_commit hrow with hw | ⟨-, hrow⟩
    · exact .inr ⟨i, hw⟩
    · exact .inl hrow
  · exact .inr ⟨j, (written_commit hw).1⟩

theorem Db.Knows.close {endTime : Time} {duration : ℤ} (h : db.Knows session) :
    (close i id endTime duration db).2.Knows session := by
  rcases close_cases i id endTime duration db with hclose | hclose | ⟨s, hread, -, hclose⟩
  · rw [hclose]
    exact h
  · rw [hclose]
    exact h
  rw [hclose]
  refine h.mono (Nat.le_refl _) fun r hr => ?_
  rcases hr with hrow | ⟨j, hw⟩
  · exact ⟨r, .inl hrow, rfl⟩
  by_cases hid : session.id = id
  · subst hid
    have hw : (db.sessions.write i session.id (s.stop endTime duration)).written session.id =
        some (j, r) := hw
    rw [Versions.written_write] at hw
    obtain ⟨rfl, rfl⟩ := Prod.ext_iff.mp (Option.some.inj hw)
    exact ⟨s, version_of_read hread, rfl⟩
  · exact ⟨r, .inr ⟨j, (Versions.written_write_of_ne hid).symm.trans hw⟩, rfl⟩

theorem Db.Knows.createEntry {entry : TimeEntry} (h : db.Knows session) :
    (createEntry i entry db).2.Knows session := by
  unfold Timers.createEntry
  split
  · exact h
  split
  · exact h
  · exact ⟨h.issued, h.core⟩

theorem Db.Knows.createSession {projectId : String} {taskId description : Option String}
    {startTime : Time} (h : db.Knows session) :
    (createSession i projectId taskId description startTime db).2.Knows session := by
  unfold Timers.createSession
  split
  · exact h
  · refine h.mono (Nat.le_succ _) fun r hr => ⟨r, ?_, rfl⟩
    rcases hr with hrow | ⟨j, hw⟩
    · exact .inl hrow
    · exact .inr ⟨j, (Versions.written_write_of_ne h.issued.ne).symm.trans hw⟩

theorem Db.Knows.delete (h : db.Knows session) : (delete id db).2.Knows session := by
  unfold Timers.delete
  cases (db.sessions.rows id).filter (!·.isRunning) with
  | none => exact h
  | some s =>
    refine h.mono (Nat.le_refl _) fun r hr => ⟨r, ?_, rfl⟩
    rcases hr with hrow | ⟨j, hw⟩
    · by_cases hid : session.id = id
      · subst hid
        have hrow : Function.update db.sessions.rows session.id none session.id = some r := hrow
        rw [Function.update_self] at hrow
        cases hrow
      · exact .inl ((Function.update_of_ne hid ..).symm.trans hrow)
    · exact .inr ⟨j, hw⟩

/-! ### What the others leave alone -/

/-- What thread `i` has written and not committed. -/
def Db.own (db : Db) (i : ℕ) : (ℕ → Option Session) × List TimeEntry :=
  (db.sessions.mine i, db.recordedBy i)

def Db.Idle (db : Db) (i : ℕ) : Prop := db.own i = (fun _ => none, [])

theorem recordedBy_filter (hj : j ≠ i) :
    ((db.recorded.filter (·.1 ≠ i)).filter (·.1 = j)).map (·.2) = db.recordedBy j := by
  have hfilter : ∀ row : ℕ × TimeEntry, (decide (row.1 = j) && decide (row.1 ≠ i)) =
      decide (row.1 = j) := by
    intro row
    by_cases hrow : row.1 = j
    · simp [hrow, hj]
    · simp [hrow]
  simp only [Db.recordedBy, List.filter_filter, hfilter]

theorem rollback_idle : (db.rollback i).Idle i := by
  refine Prod.ext (funext fun id => Versions.mine_rollback) ?_
  simp [Db.own, Db.recordedBy, Db.rollback]

theorem commit_idle : (db.commit i).Idle i := by
  refine Prod.ext (funext fun id => Versions.mine_rollback) ?_
  simp [Db.own, Db.recordedBy, Db.commit]

theorem close_own {endTime : Time} {duration : ℤ} (hlock : db.sessions.locked i id = false)
    (hj : j ≠ i) : (close i id endTime duration db).2.own j = db.own j := by
  rcases close_cases i id endTime duration db with hclose | hclose | ⟨s, -, -, hclose⟩
  · rw [hclose]
  · rw [hclose]
  · rw [hclose]
    exact Prod.ext (Versions.mine_write_other hlock hj) rfl

theorem createEntry_own {entry : TimeEntry} (hj : j ≠ i) :
    (createEntry i entry db).2.own j = db.own j := by
  unfold createEntry
  split
  · rfl
  split
  · rfl
  · simp [Db.own, Db.recordedBy, Ne.symm hj]

theorem createSession_own {projectId : String} {taskId description : Option String}
    {startTime : Time} (h : db.Inv) (hj : j ≠ i) :
    (createSession i projectId taskId description startTime db).2.own j = db.own j := by
  unfold createSession
  split
  · rfl
  · have hlock : db.sessions.locked i db.issued = false := by
      simp [Versions.locked, (h.fresh db.issued (Nat.le_refl _)).2.1]
    exact Prod.ext (Versions.mine_write_other hlock hj) rfl

theorem delete_own : (delete id db).2.own j = db.own j := by
  unfold delete
  cases (db.sessions.rows id).filter (!·.isRunning) <;> rfl

variable {β : Type} {st : Stmt β} {ch : Choice}

theorem exec_own (h : db.Inv) (he : enabled i st db = true) (hj : j ≠ i) :
    (exec i st ch db).2.own j = db.own j := by
  have hrollback : (db.rollback i).own j = db.own j :=
    Prod.ext (Versions.mine_rollback_other hj) (recordedBy_filter hj)
  obtain ⟨now, interrupted⟩ := ch
  cases interrupted with
  | false =>
    cases st with
    | close id endTime duration => exact close_own (by simpa [enabled] using he) hj
    | createEntry entry => exact createEntry_own hj
    | createSession projectId taskId description startTime => exact createSession_own h hj
    | delete id => exact delete_own
    | commit => exact hrollback
    | rollback => exact hrollback
    | _ => rfl
  | true =>
    cases st with
    | commit => exact hrollback
    | rollback => exact hrollback
    | _ => rfl

theorem exec_knows (h : db.Knows session) : (exec i st ch db).2.Knows session := by
  obtain ⟨now, interrupted⟩ := ch
  cases interrupted with
  | false =>
    cases st with
    | close id endTime duration => exact h.close
    | createEntry entry => exact h.createEntry
    | createSession projectId taskId description startTime => exact h.createSession
    | delete id => exact h.delete
    | commit => exact h.commit
    | rollback => exact h.rollback
    | _ => exact h
  | true =>
    cases st with
    | commit => exact h.rollback
    | rollback => exact h.rollback
    | _ => exact h

/-- A new session is refused because another is running. -/
def loses {β : Type} (st : Stmt β) (b : β) : Bool :=
  match st with
  | .createSession _ _ _ _ =>
    match b with
    | .error .uniqueViolation => true
    | _ => false
  | _ => false

def commits {β : Type} (st : Stmt β) : Bool :=
  match st with
  | .commit => true
  | _ => false

def creates {β : Type} (st : Stmt β) : Bool :=
  match st with
  | .createSession _ _ _ _ => true
  | _ => false

theorem creates_not_commits (h : creates st = true) : commits st = false := by
  cases st with
  | createSession projectId taskId description startTime => rfl
  | _ => cases h

/-- No session that the thread has written is running. -/
def Db.Stopped (db : Db) (i : ℕ) : Prop :=
  ∀ id s, db.sessions.mine i id = some s → s.isRunning = false

/-- The others leave a thread's uncommitted rows alone, and what it knows of a session. A new
session is all that a thread has running. -/
def contract : Contract machine where
  inv := Db.Inv
  rely i s t := s.own i = t.own i ∧ ∀ session, s.Knows session → t.Knows session
  assumed _ := True
  guar o := creates o.stmt = true → o.pre.Stopped o.thread
  fresh i s := s.Idle i
  final i s := s.Idle i
  refl _ _ := ⟨rfl, fun _ h => h⟩
  trans _ _ _ _ h h' := ⟨h.1.trans h'.1, fun session hs => h'.2 session (h.2 session hs)⟩
  fresh_rely _ _ _ h hs := h.1.symm.trans hs
  final_rely _ _ _ h hs := h.1.symm.trans hs

theorem keeps_new {o : Occurrence machine} (hi : o.pre.Inv)
    (he : enabled o.thread o.stmt o.pre = true) (h : o.post.Inv) (hs : o.pre.Stopped o.thread) :
    contract.Keeps o :=
  ⟨fun _ => hs, h, fun _ hj => ⟨(exec_own hi he hj).symm, fun _ hs => exec_knows hs⟩⟩

theorem keeps {o : Occurrence machine} (hi : o.pre.Inv)
    (he : enabled o.thread o.stmt o.pre = true) (h : o.post.Inv)
    (hst : creates o.stmt = false) : contract.Keeps o :=
  ⟨fun hc => (by cases hst.symm.trans hc), h, fun _ hj =>
    ⟨(exec_own hi he hj).symm, fun _ hs => exec_knows hs⟩⟩

/-- An interrupted statement writes nothing. -/
theorem interrupted_inv {now : Time} (h : db.Inv) : (exec i st ⟨now, true⟩ db).2.Inv := by
  cases st with
  | commit => exact h.rollback
  | rollback => exact h.rollback
  | _ => exact h

theorem Db.Complete.of_own {s t : Db} (h : s.Complete i) (heq : s.own i = t.own i) :
    t.Complete i := by
  have hmine : s.sessions.mine i = t.sessions.mine i := congrArg Prod.fst heq
  have hrecorded : s.recordedBy i = t.recordedBy i := congrArg Prod.snd heq
  unfold Db.Complete at h ⊢
  rwa [← hmine, ← hrecorded]

/-- Between the statements that stop its sessions a thread is complete and runs none. -/
structure Db.Ready (db : Db) (i : ℕ) : Prop where
  complete : db.Complete i
  stopped : db.Stopped i

theorem Db.Ready.of_own {s t : Db} (h : s.Ready i) (heq : s.own i = t.own i) : t.Ready i := by
  have hmine : s.sessions.mine i = t.sessions.mine i := congrArg Prod.fst heq
  refine ⟨h.complete.of_own heq, fun id r hr => h.stopped id r ?_⟩
  rwa [hmine]

theorem Db.Idle.ready (h : db.Idle i) : db.Ready i := by
  have hmine : db.sessions.mine i = fun _ => none := congrArg Prod.fst h
  have hrecorded : db.recordedBy i = [] := congrArg Prod.snd h
  refine ⟨fun id => ?_, fun id s hs => ?_⟩
  · rw [hrecorded, hmine]
    rfl
  · rw [hmine] at hs
    cases hs

end Ashbi.Timers
